import Mathlib.Data.List.Basic

/-!
# Option groups

A command line that names an input and any number of outputs, as ffmpeg
reads one: options up to the input flag apply to the input, and after it
every option applies to the next output alone. A token in the place of a
flag is the input flag, a bare flag, the target that ends an output, or a
flag with the token after it as its value.

`Grammar.read` cuts a token list into a `Command`, and `read_tokens` says
that it finds again the command whose tokens it is given. `prepend` is
what a run of options does that stands before a list of outputs: it joins
the first one.
-/

namespace OptionGroups

/-- An option, with its value where it takes one. -/
structure Opt (τ : Type*) where
  flag : τ
  value : Option τ
  deriving DecidableEq, Repr

/-- An output: its options, and the target that ends it. -/
structure Output (τ : Type*) where
  opts : List (Opt τ)
  target : τ
  deriving DecidableEq, Repr

/-- A command: the options of the input, the input, the outputs. -/
structure Command (τ : Type*) where
  inputOpts : List (Opt τ)
  input : τ
  outputs : List (Output τ)
  deriving DecidableEq, Repr

/-- How the tokens in the place of a flag are read. -/
structure Grammar (τ : Type*) where
  inputFlag : τ
  bare : τ → Bool
  target : τ → Bool

variable {τ : Type*}

def Opt.tokens (o : Opt τ) : List τ := o.flag :: o.value.toList

def Output.tokens (x : Output τ) : List τ := x.opts.flatMap Opt.tokens ++ [x.target]

def Command.tokens (i : τ) (c : Command τ) : List τ :=
  c.inputOpts.flatMap Opt.tokens ++ i :: c.input :: c.outputs.flatMap Output.tokens

/-- A run of options before a list of outputs belongs to the first. -/
def prepend (os : List (Opt τ)) : List (Output τ) → List (Output τ)
  | [] => []
  | x :: xs => ⟨os ++ x.opts, x.target⟩ :: xs

/-! ## Reading -/

namespace Grammar

variable (g : Grammar τ)

/-- An option has a value exactly when its flag takes one. -/
def legal (o : Opt τ) : Bool := !g.target o.flag && (g.bare o.flag == o.value.isNone)

/-- The outputs of a token list, after the options already read of the
first. Options with no output after them are refused. -/
def readOutputs : List (Opt τ) → List τ → Option (List (Output τ))
  | os, [] => if os.isEmpty then some [] else none
  | os, [t] => if g.target t then some [⟨os, t⟩] else none
  | os, t :: v :: ts =>
    if g.target t then (readOutputs [] (v :: ts)).map (⟨os, t⟩ :: ·)
    else if g.bare t then readOutputs (os ++ [⟨t, none⟩]) (v :: ts)
    else readOutputs (os ++ [⟨t, some v⟩]) ts

/-- The options a run of tokens spells. -/
def options : List τ → List (Opt τ)
  | [] => []
  | [t] => [⟨t, none⟩]
  | t :: v :: ts =>
    if g.bare t then ⟨t, none⟩ :: options (v :: ts) else ⟨t, some v⟩ :: options ts

variable [DecidableEq τ]

/-- The command of a token list, after the options already read of the
input. -/
def readFrom : List (Opt τ) → List τ → Option (Command τ)
  | _, [] => none
  | _, [_] => none
  | os, t :: v :: ts =>
    if t = g.inputFlag then (g.readOutputs [] ts).map (⟨os, v, ·⟩)
    else if g.bare t then readFrom (os ++ [⟨t, none⟩]) (v :: ts)
    else readFrom (os ++ [⟨t, some v⟩]) ts

/-- **The command a token list spells.** -/
def read (ts : List τ) : Option (Command τ) := g.readFrom [] ts

/-! ## What is written is read again -/

omit [DecidableEq τ]

theorem tokens_options (ts : List τ) : (g.options ts).flatMap Opt.tokens = ts := by
  fun_induction options g ts with
  | case1 => rfl
  | case2 t => rfl
  | case3 t v ts _ ih => rw [List.flatMap_cons, ih]; rfl
  | case4 t v ts _ ih => rw [List.flatMap_cons, ih]; rfl

variable {g}

/-- Where the options of a run are legal, they stay the same whatever
follows. -/
theorem options_append {ts : List τ} (h : (g.options ts).all g.legal = true) (us : List τ) :
    g.options (ts ++ us) = g.options ts ++ g.options us := by
  fun_induction options g ts with
  | case1 => rfl
  | case2 t =>
    have hbare : g.bare t = true := by
      simp only [legal, List.all_cons, List.all_nil, Bool.and_eq_true] at h
      simpa using h.1.2
    cases us with
    | nil => rfl
    | cons u us => simp [options, hbare]
  | case3 t v ts hbare ih =>
    rw [List.all_cons, Bool.and_eq_true] at h
    have hrest := ih h.2
    simp only [List.cons_append] at hrest ⊢
    rw [options, if_pos hbare, hrest]
  | case4 t v ts hbare ih =>
    rw [List.all_cons, Bool.and_eq_true] at h
    simp only [List.cons_append]
    rw [options, if_neg hbare, ih h.2]

theorem readOutputs_option {o : Opt τ} (ho : g.legal o = true) (os : List (Opt τ)) {ts : List τ}
    (hts : ts ≠ []) : g.readOutputs os (o.tokens ++ ts) = g.readOutputs (os ++ [o]) ts := by
  obtain ⟨t, ts, rfl⟩ := List.exists_cons_of_ne_nil hts
  obtain ⟨f, v⟩ := o
  simp only [legal, Bool.and_eq_true, Bool.not_eq_true', beq_iff_eq] at ho
  cases v with
  | none =>
    have hbare : g.bare f = true := by simpa using ho.2
    simp [Opt.tokens, readOutputs, ho.1, hbare]
  | some v =>
    have hbare : g.bare f = false := by simpa using ho.2
    simp [Opt.tokens, readOutputs, ho.1, hbare]

theorem readOutputs_options {os' : List (Opt τ)} (hos : os'.all g.legal = true)
    (os : List (Opt τ)) {ts : List τ} (hts : ts ≠ []) :
    g.readOutputs os (os'.flatMap Opt.tokens ++ ts) = g.readOutputs (os ++ os') ts := by
  induction os' generalizing os with
  | nil => simp
  | cons o os' ih =>
    rw [List.all_cons, Bool.and_eq_true] at hos
    rw [List.flatMap_cons, List.append_assoc,
      readOutputs_option hos.1 os (List.append_ne_nil_of_right_ne_nil _ hts), ih hos.2]
    simp

theorem readOutputs_target {t : τ} (ht : g.target t = true) (os : List (Opt τ)) (ts : List τ) :
    g.readOutputs os (t :: ts) = (g.readOutputs [] ts).map (⟨os, t⟩ :: ·) := by
  cases ts with
  | nil => simp [readOutputs, ht]
  | cons v ts => rw [readOutputs, if_pos ht]

/-- **Outputs are read as they were written.** -/
theorem readOutputs_tokens {xs : List (Output τ)}
    (h : ∀ x ∈ xs, x.opts.all g.legal = true ∧ g.target x.target = true) :
    g.readOutputs [] (xs.flatMap Output.tokens) = some xs := by
  induction xs with
  | nil => rfl
  | cons x xs ih =>
    obtain ⟨hopts, htarget⟩ := h x List.mem_cons_self
    rw [List.flatMap_cons, Output.tokens, List.append_assoc,
      readOutputs_options hopts [] (by simp), List.singleton_append,
      readOutputs_target htarget, ih fun y hy => h y (List.mem_cons_of_mem _ hy)]
    rfl

variable [DecidableEq τ]

theorem readFrom_options {os' : List (Opt τ)}
    (hos : ∀ o ∈ os', g.legal o = true ∧ o.flag ≠ g.inputFlag)
    (os : List (Opt τ)) (t : τ) (ts : List τ) :
    g.readFrom os (os'.flatMap Opt.tokens ++ t :: ts) = g.readFrom (os ++ os') (t :: ts) := by
  induction os' generalizing os with
  | nil => simp
  | cons o os' ih =>
    obtain ⟨hlegal, hflag⟩ := hos o List.mem_cons_self
    have hrest := ih (fun o ho => hos o (List.mem_cons_of_mem _ ho)) (os ++ [o])
    obtain ⟨f, v⟩ := o
    simp only [legal, Bool.and_eq_true, Bool.not_eq_true', beq_iff_eq] at hlegal hflag
    rw [List.append_assoc, List.singleton_append] at hrest
    rw [← hrest]
    cases v with
    | none =>
      have hbare : g.bare f = true := by simpa using hlegal.2
      obtain ⟨u, us, hu⟩ : ∃ u us, os'.flatMap Opt.tokens ++ t :: ts = u :: us :=
        List.exists_cons_of_ne_nil (by simp)
      simp [Opt.tokens, readFrom, hflag, hbare, hu]
    | some v =>
      have hbare : g.bare f = false := by simpa using hlegal.2
      simp [Opt.tokens, readFrom, hflag, hbare]

/-- **A command is read from its tokens.** -/
theorem read_tokens {c : Command τ}
    (hin : ∀ o ∈ c.inputOpts, g.legal o = true ∧ o.flag ≠ g.inputFlag)
    (hout : ∀ x ∈ c.outputs, x.opts.all g.legal = true ∧ g.target x.target = true) :
    g.read (c.tokens g.inputFlag) = some c := by
  rw [read, Command.tokens, readFrom_options hin [], List.nil_append, readFrom,
    if_pos rfl, readOutputs_tokens hout]
  rfl

end Grammar

/-! ## Options before a list of outputs -/

theorem tokens_prepend (os : List (Opt τ)) {xs : List (Output τ)} (h : xs ≠ []) :
    (prepend os xs).flatMap Output.tokens = os.flatMap Opt.tokens ++ xs.flatMap Output.tokens := by
  obtain ⟨x, xs, rfl⟩ := List.exists_cons_of_ne_nil h
  simp [prepend, Output.tokens, List.flatMap_append, List.append_assoc]

@[simp] theorem prepend_map_target (os : List (Opt τ)) (xs : List (Output τ)) :
    (prepend os xs).map Output.target = xs.map Output.target := by
  cases xs <;> rfl

/-- The options put before the outputs are on the first one. -/
theorem mem_prepend {os : List (Opt τ)} {xs : List (Output τ)} {x : Output τ}
    (h : x ∈ prepend os xs) :
    ∃ y ∈ xs, x.target = y.target ∧ (x.opts = y.opts ∨ x.opts = os ++ y.opts) := by
  cases xs with
  | nil => cases h
  | cons y ys =>
    obtain rfl | h := List.mem_cons.1 h
    · exact ⟨y, List.mem_cons_self, rfl, Or.inr rfl⟩
    · exact ⟨x, List.mem_cons_of_mem _ h, rfl, Or.inl rfl⟩

end OptionGroups
