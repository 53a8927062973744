import HlsXcoder.Lib.FileTree
import HlsXcoder.Lib.Text

/-!
# Routes with variables

The router of gorilla/mux. A template is a path in which `{name:pattern}`
stands for a variable. It is cut at its outermost braces, and its route
matches a path that reads, from end to end, as the texts of the template
with what the patterns take in the place of the variables.

What a pattern takes is a parameter, so that a result about templates
holds whatever their patterns mean. `Elem` describes the templates whose
variables stand between slashes: there a variable takes whole elements of
the path (`descent_of_mem_matchFrom`).
-/

namespace Mux

/-- A compiled pattern: the pieces it takes off the text after a place, in
the order they are tried, with what is left; and how many groups it
captures. -/
structure Pattern where
  takes : List Char → List Char → List (List Char × List Char)
  numSubexp : ℕ
  append_eq : ∀ before after, ∀ p ∈ takes before after, p.1 ++ p.2 = after

/-- A piece of a template: a text, or a variable. -/
inductive Piece (α : Type) where
  | lit (text : List Char)
  | var (v : α)

/-! ## Braces -/

/-- A template while it is cut: how many braces are open, the pieces
behind, and the one being read. -/
structure Scan where
  level : ℕ
  pieces : List (Piece (List Char))
  cur : List Char

/-- One character. Only the outermost braces cut; a brace that was not
opened is an error. -/
def Scan.step (s : Scan) (c : Char) : Option Scan :=
  if c = '{' then
    if s.level = 0 then some ⟨1, s.pieces ++ [.lit s.cur], []⟩
    else some ⟨s.level + 1, s.pieces, s.cur ++ [c]⟩
  else if c = '}' then
    match s.level with
    | 0 => none
    | 1 => some ⟨0, s.pieces ++ [.var s.cur], []⟩
    | n + 2 => some ⟨n + 1, s.pieces, s.cur ++ [c]⟩
  else some { s with cur := s.cur ++ [c] }

/-- The pieces of a template, where its braces balance. The source keeps
their indices (`braceIndices`) and slices the template by them. -/
def bracePieces (tpl : List Char) : Option (List (Piece (List Char))) :=
  match tpl.foldlM Scan.step ⟨0, [], []⟩ with
  | some ⟨0, pieces, cur⟩ => some (pieces ++ [.lit cur])
  | _ => none

/-! ## Routes -/

structure Var where
  name : List Char
  pattern : Pattern

/-- The name of a variable and its pattern, which by default takes one
element of the path. -/
def nameAndPattern (t : List Char) : List Char × List Char :=
  match t.dropWhile (· ≠ ':') with
  | [] => (t, "[^/]+".toList)
  | _ :: patt => (t.takeWhile (· ≠ ':'), patt)

/-- Why a template has no route. With groups of its own the program
stops. -/
inductive Fault where
  | unbalanced
  | missing
  | badPattern
  | captures

instance {α : Type} : DecidablePred fun r : Except Fault α => r = .error .captures
  | .ok _ => isFalse nofun
  | .error .captures => isTrue rfl
  | .error .unbalanced => isFalse nofun
  | .error .missing => isFalse nofun
  | .error .badPattern => isFalse nofun

def newVar (compile : List Char → Option Pattern) (t : List Char) : Except Fault Var :=
  if (nameAndPattern t).1 = [] ∨ (nameAndPattern t).2 = [] then .error .missing
  else match compile (nameAndPattern t).2 with
    | none => .error .badPattern
    | some pattern => .ok ⟨(nameAndPattern t).1, pattern⟩

/-- The variables of the pieces, compiled one after the other. -/
def newVars (compile : List Char → Option Pattern) :
    List (Piece (List Char)) → Except Fault (List (Piece Var))
  | [] => .ok []
  | .lit t :: ps => do .ok (.lit t :: (← newVars compile ps))
  | .var t :: ps => do
    let v ← newVar compile t
    .ok (.var v :: (← newVars compile ps))

def numSubexp : List (Piece Var) → ℕ
  | [] => 0
  | .lit _ :: ps => numSubexp ps
  | .var v :: ps => v.pattern.numSubexp + numSubexp ps

def newRouteRegexp (compile : List Char → Option Pattern) (tpl : List Char) :
    Except Fault (List (Piece Var)) :=
  match bracePieces tpl with
  | none => .error .unbalanced
  | some ps => do
    let r ← newVars compile ps
    if numSubexp r = 0 then .ok r else .error .captures

/-- The values of the variables in the matches of a whole path, in the
order the matches are tried. -/
def matchFrom : List (Piece Var) → List Char → List Char → List (List (List Char × List Char))
  | [], _, after => if after = [] then [[]] else []
  | .lit t :: ps, before, after =>
    if t <+: after then matchFrom ps (before ++ t) (after.drop t.length) else []
  | .var v :: ps, before, after => (v.pattern.takes before after).flatMap fun p =>
    (matchFrom ps (before ++ p.1) p.2).map ((v.name, p.1) :: ·)

/-- The values by name; the last one of a name stays. -/
def extractVars (values : List (List Char × List Char)) (name : String) : Option String :=
  (values.reverse.lookup name.toList).map String.ofList

/-- A route: its expression, unless its template has none, and who
answers. -/
structure Route (η : Type) where
  regexp : Option (List (Piece Var))
  methods : List String
  handler : η

/-- Registers a route, unless the program stops. -/
def handleFunc {η : Type} (compile : List Char → Option Pattern) (tpl : String) (handler : η)
    (methods : List String) : Option (Route η) :=
  match newRouteRegexp compile tpl.toList with
  | .ok r => some ⟨some r, methods, handler⟩
  | .error .captures => none
  | .error _ => some ⟨none, methods, handler⟩

/-- The values a route gives to its variables on a path. -/
def Route.matches {η : Type} (r : Route η) (path : List Char) : List (List (List Char × List Char)) :=
  match r.regexp with
  | none => []
  | some ps => matchFrom ps [] path

/-- **Who answers a request**: the first route that matches, with the
values of its first match. -/
def route {η : Type} (routes : List (Route η)) (method : String) (path : List Char) :
    Option (η × (String → Option String)) :=
  routes.findSome? fun r =>
    if method ∈ r.methods then (r.matches path).head?.map fun vs => (r.handler, extractVars vs)
    else none

section Registered

variable {η : Type} {compile : List Char → Option Pattern}

theorem newRouteRegexp_eq_ok {tpl : List Char} {r : List (Piece Var)}
    (h : newRouteRegexp compile tpl = .ok r) :
    ∃ ps, bracePieces tpl = some ps ∧ newVars compile ps = .ok r := by
  rw [newRouteRegexp] at h
  split at h
  · cases h
  · rename_i ps hps
    refine ⟨ps, hps, ?_⟩
    cases hr : newVars compile ps with
    | error e => simp [hr, bind, Except.bind] at h
    | ok r' =>
      simp only [hr, bind, Except.bind] at h
      split at h
      · exact h
      · cases h

/-- What a registered route carries. -/
theorem handleFunc_eq_some {tpl : String} {handler : η} {methods : List String} {r : Route η}
    (h : handleFunc compile tpl handler methods = some r) :
    r = ⟨(newRouteRegexp compile tpl.toList).toOption, methods, handler⟩ := by
  rw [handleFunc] at h
  split at h
  · rename_i ps hps
    rw [hps]
    exact (Option.some.inj h).symm
  · cases h
  · rename_i e _ he
    rw [he]
    exact (Option.some.inj h).symm

/-- Only a template with groups of its own stops the program. -/
theorem handleFunc_of_ne {tpl : String} {handler : η} {methods : List String}
    (h : newRouteRegexp compile tpl.toList ≠ .error .captures) :
    handleFunc compile tpl handler methods =
      some ⟨(newRouteRegexp compile tpl.toList).toOption, methods, handler⟩ := by
  rw [handleFunc]
  split
  · rename_i ps hps
    rw [hps]
    rfl
  · rename_i hc
    exact absurd hc h
  · rename_i e _ he
    rw [he]
    rfl

/-- What a loop gathers, where its steps that do not stop are those of a
function. -/
theorem eq_map_of_mapM {α β : Type} {f : α → Option β} {g : α → β} {xs : List α} {ys : List β}
    (hf : ∀ x ∈ xs, ∀ y, f x = some y → y = g x) (h : xs.mapM f = some ys) : ys = xs.map g := by
  induction xs generalizing ys with
  | nil =>
    obtain rfl : [] = ys := by simpa using h
    rfl
  | cons x xs ih =>
    simp only [List.mapM_cons, Option.bind_eq_bind, Option.bind_eq_some_iff, Option.pure_def,
      Option.some.injEq] at h
    obtain ⟨z, hz, zs, hzs, rfl⟩ := h
    rw [List.forall_mem_cons] at hf
    rw [List.map_cons, hf.1 z hz, ih hf.2 hzs]

theorem mem_of_extractVars {vs : List (List Char × List Char)} {name value : String}
    (h : extractVars vs name = some value) : (name.toList, value.toList) ∈ vs := by
  obtain ⟨v, hv, rfl⟩ := Option.map_eq_some_iff.1 h
  obtain ⟨a, b, heq, -⟩ := List.lookup_eq_some_iff.1 hv
  rw [String.toList_ofList, ← List.mem_reverse, heq]
  simp

theorem extractVars_eq_none_iff {vs : List (List Char × List Char)} {name : String} :
    extractVars vs name = none ↔ name.toList ∉ vs.map Prod.fst := by
  rw [extractVars, Option.map_eq_none_iff, List.lookup_eq_none_iff]
  simp only [List.mem_reverse, bne_iff_ne, ne_eq, List.mem_map, not_exists, not_and, @eq_comm _ name.toList]

/-- Of two values of a variable the last one counts. -/
theorem extractVars_append (vs ws : List (List Char × List Char)) (name : String) :
    extractVars (vs ++ ws) name = (extractVars ws name).or (extractVars vs name) := by
  rw [extractVars, extractVars, extractVars, List.reverse_append, List.lookup_append, Option.map_or]

end Registered

/-! ## Depth of braces -/

def depthStep (n : ℕ) (c : Char) : Option ℕ :=
  if c = '{' then some (n + 1)
  else if c = '}' then if n = 0 then none else some (n - 1)
  else some n

/-- The braces open after a text, unless it closes one that is not. -/
def depth (n : ℕ) (t : List Char) : Option ℕ := t.foldlM depthStep n

theorem depth_append (n : ℕ) (a b : List Char) : depth n (a ++ b) = (depth n a).bind (depth · b) :=
  List.foldlM_append

theorem depth_cons (n : ℕ) (c : Char) (t : List Char) :
    depth n (c :: t) = (depthStep n c).bind (depth · t) :=
  List.foldlM_cons

theorem depth_of_not_mem {t : List Char} (ho : '{' ∉ t) (hc : '}' ∉ t) (n : ℕ) :
    depth n t = some n := by
  induction t with
  | nil => rfl
  | cons c t ih =>
    rw [List.mem_cons, not_or] at ho hc
    rw [depth_cons, depthStep, if_neg (Ne.symm ho.1), if_neg (Ne.symm hc.1)]
    exact ih ho.2 hc.2

/-- More open braces around a text change nothing in it. -/
theorem depth_add {n m : ℕ} {t : List Char} (h : depth n t = some m) (k : ℕ) :
    depth (n + k) t = some (m + k) := by
  induction t generalizing n with
  | nil =>
    obtain rfl := Option.some.inj h
    rfl
  | cons c t ih =>
    rw [depth_cons, Option.bind_eq_some_iff] at h ⊢
    obtain ⟨n', hstep, h⟩ := h
    refine ⟨n' + k, ?_, ih h⟩
    simp only [depthStep] at hstep ⊢
    grind

/-- **Inside braces nothing is cut.** -/
theorem foldlM_step_of_depth {n m : ℕ} {t : List Char} (h : depth n t = some m)
    (ps : List (Piece (List Char))) (cur : List Char) :
    t.foldlM Scan.step ⟨n + 1, ps, cur⟩ = some ⟨m + 1, ps, cur ++ t⟩ := by
  induction t generalizing n cur with
  | nil =>
    obtain rfl := Option.some.inj h
    simp
  | cons c t ih =>
    rw [depth_cons, Option.bind_eq_some_iff] at h
    obtain ⟨n', hstep, h⟩ := h
    have hscan : Scan.step ⟨n + 1, ps, cur⟩ c = some ⟨n' + 1, ps, cur ++ [c]⟩ := by
      simp only [depthStep] at hstep
      simp only [Scan.step]
      split at hstep
      · obtain rfl := Option.some.inj hstep
        simp_all
      · split at hstep
        · cases n with
          | zero => simp at hstep
          | succ n =>
            obtain rfl := Option.some.inj hstep
            simp_all
        · obtain rfl := Option.some.inj hstep
          simp_all
    rw [List.foldlM_cons, hscan, Option.bind_eq_bind, Option.bind_some, ih h, List.append_assoc]
    rfl

/-- A text without braces goes to the piece being read. -/
theorem foldlM_step_of_not_mem {t : List Char} (ho : '{' ∉ t) (hc : '}' ∉ t) (n : ℕ)
    (ps : List (Piece (List Char))) (cur : List Char) :
    t.foldlM Scan.step ⟨n, ps, cur⟩ = some ⟨n, ps, cur ++ t⟩ := by
  induction t generalizing cur with
  | nil => simp
  | cons c t ih =>
    rw [List.mem_cons, not_or] at ho hc
    simpa [Scan.step, Ne.symm ho.1, Ne.symm hc.1] using ih ho.2 hc.2 (cur ++ [c])

/-- Where the pieces of a template are cut, its braces balance. -/
theorem depth_of_foldlM_step {t : List Char} {s s' : Scan} (h : t.foldlM Scan.step s = some s') :
    depth s.level t = some s'.level := by
  induction t generalizing s with
  | nil =>
    obtain rfl := Option.some.inj h
    rfl
  | cons c t ih =>
    rw [List.foldlM_cons, Option.bind_eq_bind, Option.bind_eq_some_iff] at h
    obtain ⟨s₁, hstep, h⟩ := h
    rw [depth_cons, Option.bind_eq_some_iff]
    refine ⟨s₁.level, ?_, ih h⟩
    simp only [Scan.step] at hstep
    simp only [depthStep]
    split at hstep
    · split at hstep
      · obtain rfl := Option.some.inj hstep
        simp_all
      · obtain rfl := Option.some.inj hstep
        simp_all
    · split at hstep
      · split at hstep
        · cases hstep
        all_goals
          obtain rfl := Option.some.inj hstep
          simp_all
      · obtain rfl := Option.some.inj hstep
        simp_all

theorem depth_of_bracePieces {tpl : List Char} (h : (bracePieces tpl).isSome = true) :
    depth 0 tpl = some 0 := by
  rw [bracePieces] at h
  split at h
  · rename_i hs
    exact depth_of_foldlM_step hs
  · cases h

/-! ## Templates made of elements -/

/-- An element of a template: a text without braces, which may be more
than one element of the path, or a variable. -/
inductive Elem where
  | word (t : List Char)
  | var (t : List Char)

namespace Elem

/-- The text of an element, after the slash that starts it. -/
def text : Elem → List Char
  | word t => t
  | var t => '{' :: (t ++ ['}'])

inductive Balanced : Elem → Prop
  | word {t : List Char} (ho : '{' ∉ t) (hc : '}' ∉ t) : Balanced (word t)
  | var {t : List Char} (h : depth 0 t = some 0) : Balanced (var t)

instance : DecidablePred Balanced
  | word t => decidable_of_iff ('{' ∉ t ∧ '}' ∉ t)
    ⟨fun h => .word h.1 h.2, fun h => by cases h with | word ho hc => exact ⟨ho, hc⟩⟩
  | var t => decidable_of_iff (depth 0 t = some 0)
    ⟨.var, fun h => by cases h with | var h => exact h⟩

theorem Balanced.depth_text {e : Elem} (h : e.Balanced) (n : ℕ) : depth n e.text = some n := by
  cases h with
  | word ho hc => exact depth_of_not_mem ho hc n
  | @var t h =>
    have ht : depth (n + 1) t = some (n + 1) := by
      simpa [Nat.add_comm] using depth_add h (n + 1)
    rw [text, depth_cons, depthStep, if_pos rfl, Option.bind_some, depth_append, ht]
    rfl

end Elem

/-- The text of a template made of elements. -/
def template (es : List Elem) : List Char := es.flatMap fun e => '/' :: e.text

/-- The pieces of a template made of elements, after the text of the one
being read. -/
def pieces : List Char → List Elem → List (Piece (List Char))
  | cur, [] => [.lit cur]
  | cur, .word t :: es => pieces (cur ++ '/' :: t) es
  | cur, .var t :: es => .lit (cur ++ ['/']) :: .var t :: pieces [] es

theorem template_cons (e : Elem) (es : List Elem) :
    template (e :: es) = '/' :: (e.text ++ template es) := rfl

theorem template_append (es es' : List Elem) : template (es ++ es') = template es ++ template es' :=
  List.flatMap_append

theorem depth_template {es : List Elem} (h : ∀ e ∈ es, e.Balanced) (n : ℕ) :
    depth n (template es) = some n := by
  induction es with
  | nil => rfl
  | cons e es ih =>
    rw [List.forall_mem_cons] at h
    have hslash : depthStep n '/' = some n := rfl
    rw [template_cons, depth_cons, hslash, Option.bind_some, depth_append, h.1.depth_text]
    exact ih h.2

theorem foldlM_step_template {es : List Elem} (h : ∀ e ∈ es, e.Balanced)
    (ps : List (Piece (List Char))) (cur : List Char) : ∃ ps' cur',
      (template es).foldlM Scan.step ⟨0, ps, cur⟩ = some ⟨0, ps', cur'⟩ ∧
        ps' ++ [.lit cur'] = ps ++ pieces cur es := by
  induction es generalizing ps cur with
  | nil => exact ⟨ps, cur, rfl, rfl⟩
  | cons e es ih =>
    rw [List.forall_mem_cons] at h
    have hslash : Scan.step ⟨0, ps, cur⟩ '/' = some ⟨0, ps, cur ++ ['/']⟩ := rfl
    rw [template_cons, List.foldlM_cons, hslash, Option.bind_eq_bind, Option.bind_some,
      List.foldlM_append]
    cases h.1 with
    | @word t ho hc =>
      rw [Elem.text, foldlM_step_of_not_mem ho hc, Option.bind_eq_bind, Option.bind_some, pieces,
        List.append_assoc]
      exact ih h.2 ps _
    | @var t ht =>
      have hopen : Scan.step ⟨0, ps, cur ++ ['/']⟩ '{' =
          some ⟨1, ps ++ [.lit (cur ++ ['/'])], []⟩ := rfl
      have hclose (cur' : List Char) : [('}')].foldlM Scan.step
          ⟨1, ps ++ [.lit (cur ++ ['/'])], cur'⟩ =
            some ⟨0, ps ++ [.lit (cur ++ ['/']), .var cur'], []⟩ := by
        simp [Scan.step]
      rw [Elem.text, List.foldlM_cons, hopen, Option.bind_eq_bind, Option.bind_some,
        List.foldlM_append, foldlM_step_of_depth ht, Option.bind_eq_bind, Option.bind_some,
        List.nil_append, hclose, Option.bind_some]
      obtain ⟨ps', cur', hfold, hps⟩ := ih h.2 (ps ++ [.lit (cur ++ ['/']), .var t]) []
      refine ⟨ps', cur', hfold, ?_⟩
      rw [hps, pieces, List.append_assoc]
      rfl

/-- **A template made of elements is cut into them.** -/
theorem bracePieces_template {es : List Elem} (h : ∀ e ∈ es, e.Balanced) :
    bracePieces (template es) = some (pieces [] es) := by
  obtain ⟨ps, cur, hfold, hps⟩ := foldlM_step_template h [] []
  rw [bracePieces, hfold]
  exact congrArg some hps

/-! ## What a template matches -/

/-- What stands in a path for an element: its own text, or what the
pattern takes of the path. -/
def Elem.Fits (compile : List Char → Option Pattern) : Elem → List Char → Prop
  | .word t, p => p = t
  | .var t, p => ∃ pattern before rest, compile (nameAndPattern t).2 = some pattern ∧
      (p, rest) ∈ pattern.takes before (p ++ rest)

/-- The values of the variables among what stands for the elements. -/
def values : List Elem → List (List Char) → List (List Char × List Char)
  | .var t :: es, p :: parts => ((nameAndPattern t).1, p) :: values es parts
  | .word _ :: es, _ :: parts => values es parts
  | _, _ => []

/-- A path with the parts that stand for the elements of a template. -/
def pathOf (parts : List (List Char)) : List Char := parts.flatMap ('/' :: ·)

variable {compile : List Char → Option Pattern} {es : List Elem}

theorem newVar_eq_ok {t : List Char} {v : Var} (h : newVar compile t = .ok v) :
    v.name = (nameAndPattern t).1 ∧ compile (nameAndPattern t).2 = some v.pattern := by
  rw [newVar] at h
  split at h
  · cases h
  · split at h
    · cases h
    · rename_i pattern hp
      obtain rfl := Except.ok.inj h
      exact ⟨rfl, hp⟩

theorem newVars_lit_var {t u : List Char} {ps : List (Piece (List Char))} {r : List (Piece Var)}
    (h : newVars compile (.lit u :: .var t :: ps) = .ok r) :
    ∃ v r', newVar compile t = .ok v ∧ newVars compile ps = .ok r' ∧
      r = .lit u :: .var v :: r' := by
  rw [newVars, newVars] at h
  cases hv : newVar compile t with
  | error e => simp [hv, bind, Except.bind] at h
  | ok v =>
    cases hr : newVars compile ps with
    | error e => simp [hv, hr, bind, Except.bind] at h
    | ok r' =>
      simp only [hv, hr, bind, Except.bind, Except.ok.injEq] at h
      exact ⟨v, r', rfl, rfl, h.symm⟩

/-- **A match puts something in the place of each element**, and of
nothing else. -/
theorem parts_of_mem_matchFrom {cur before after : List Char} {r : List (Piece Var)}
    (hr : newVars compile (pieces cur es) = .ok r) {vs : List (List Char × List Char)}
    (h : vs ∈ matchFrom r before after) :
    ∃ parts, List.Forall₂ (Elem.Fits compile) es parts ∧ after = cur ++ pathOf parts ∧
      vs = values es parts := by
  -- on the elements: the text behind the last variable waits in `cur`
  induction es generalizing cur before after r vs with
  | nil =>
    obtain rfl := Except.ok.inj hr
    rw [matchFrom] at h
    split at h
    · rename_i hpre
      obtain ⟨rest, rfl⟩ := hpre
      simp only [matchFrom, List.drop_left] at h
      split at h
      · rename_i hrest
        subst hrest
        exact ⟨[], .nil, by simp [pathOf], by simpa [values] using h⟩
      · cases h
    · cases h
  | cons e es ih =>
    cases e with
    | word t =>
      obtain ⟨parts, hfits, rfl, rfl⟩ := ih hr h
      exact ⟨t :: parts, .cons rfl hfits, by simp [pathOf], rfl⟩
    | var t =>
      obtain ⟨v, r', hv, hr', rfl⟩ := newVars_lit_var hr
      obtain ⟨hname, hpattern⟩ := newVar_eq_ok hv
      rw [matchFrom] at h
      split at h
      · rename_i hpre
        obtain ⟨rest, rfl⟩ := hpre
        rw [List.drop_left, matchFrom, List.mem_flatMap] at h
        obtain ⟨⟨p, rest'⟩, hp, h⟩ := h
        obtain ⟨vs, hvs, rfl⟩ := List.mem_map.1 h
        have hrest := v.pattern.append_eq _ _ _ hp
        obtain ⟨parts, hfits, rfl, rfl⟩ := ih hr' hvs
        refine ⟨p :: parts, .cons ⟨v.pattern, _, _, hpattern, hrest ▸ hp⟩ hfits, ?_, ?_⟩
        · rw [← hrest]
          simp [pathOf]
        · rw [values, hname]
      · cases h

open FileTree in
/-- **A variable takes whole elements**: on a path that only goes down,
every value of a template made of elements does so too. -/
theorem descent_of_mem_values {parts : List (List Char)} (h : IsDescent (pathOf parts))
    {v : List Char × List Char} (hv : v ∈ values es parts) : IsDescent ('/' :: v.2) := by
  induction parts generalizing es with
  | nil =>
    cases es with
    | nil => cases hv
    | cons e es => cases e <;> cases hv
  | cons p parts ih =>
    have hp : IsDescent ('/' :: p) ∧ IsDescent (pathOf parts) := by
      cases parts with
      | nil => exact ⟨by simpa [pathOf] using h, [], rfl, by simp⟩
      | cons q parts =>
        have hpath : pathOf (p :: q :: parts) = ('/' :: p) ++ '/' :: (q ++ pathOf parts) := rfl
        rw [hpath] at h
        exact h.split
    cases es with
    | nil => cases hv
    | cons e es =>
      cases e with
      | word t => exact ih hp.2 hv
      | var t =>
        obtain rfl | hv := List.mem_cons.1 hv
        · exact hp.1
        · exact ih hp.2 hv

/-! ## A text before the elements -/

/-- The pieces of a template take a text off the front of a path, and leave
the rest. -/
inductive Takes : List (Piece Var) → List Char → List Char → List Char →
    List (List Char × List Char) → Prop
  | nil {before rest : List Char} : Takes [] before [] rest []
  | lit {t before q rest : List Char} {ps : List (Piece Var)} {vs : List (List Char × List Char)} :
      Takes ps (before ++ t) q rest vs → Takes (.lit t :: ps) before (t ++ q) rest vs
  | var {v : Var} {p before q rest : List Char} {ps : List (Piece Var)}
      {vs : List (List Char × List Char)} :
      (p, q ++ rest) ∈ v.pattern.takes before (p ++ (q ++ rest)) →
      Takes ps (before ++ p) q rest vs →
      Takes (.var v :: ps) before (p ++ q) rest ((v.name, p) :: vs)

/-- **Pieces after pieces** match what the first ones leave. -/
theorem mem_matchFrom_append {ps ps' : List (Piece Var)} {before after : List Char}
    {vs : List (List Char × List Char)} : vs ∈ matchFrom (ps ++ ps') before after ↔
      ∃ q rest vs₁ vs₂, after = q ++ rest ∧ Takes ps before q rest vs₁ ∧
        vs₂ ∈ matchFrom ps' (before ++ q) rest ∧ vs = vs₁ ++ vs₂ := by
  induction ps generalizing before after vs with
  | nil =>
    constructor
    · exact fun h => ⟨[], after, [], vs, rfl, .nil, by simpa using h, rfl⟩
    · rintro ⟨_, _, _, _, rfl, ht, h, rfl⟩
      cases ht
      simpa using h
  | cons p ps ih =>
    cases p with
    | lit t =>
      rw [List.cons_append, matchFrom]
      constructor
      · intro h
        split at h
        · rename_i hpre
          obtain ⟨after, rfl⟩ := hpre
          rw [List.drop_left] at h
          obtain ⟨q, rest, vs₁, vs₂, rfl, ht, hm, rfl⟩ := ih.1 h
          exact ⟨t ++ q, rest, vs₁, vs₂, by simp, ht.lit, by simpa using hm, rfl⟩
        · cases h
      · rintro ⟨_, rest, vs₁, vs₂, rfl, ht, hm, rfl⟩
        cases ht with
        | @lit _ _ q _ _ _ ht =>
          have hdrop : (t ++ q ++ rest).drop t.length = q ++ rest := by
            rw [List.append_assoc, List.drop_left]
          rw [if_pos ⟨q ++ rest, by simp⟩, hdrop]
          exact ih.2 ⟨q, rest, vs₁, vs₂, rfl, ht, by simpa using hm, rfl⟩
    | var v =>
      rw [List.cons_append, matchFrom, List.mem_flatMap]
      constructor
      · rintro ⟨⟨p, after'⟩, hp, h⟩
        obtain ⟨vs, hvs, rfl⟩ := List.mem_map.1 h
        obtain ⟨q, rest, vs₁, vs₂, rfl, ht, hm, rfl⟩ := ih.1 hvs
        obtain rfl := v.pattern.append_eq _ _ _ hp
        exact ⟨p ++ q, rest, _, vs₂, by simp, .var hp ht, by simpa using hm, rfl⟩
      · rintro ⟨_, rest, _, vs₂, rfl, ht, hm, rfl⟩
        cases ht with
        | @var _ p _ q _ _ vs₁ hp ht =>
          refine ⟨(p, q ++ rest), by simpa using hp, List.mem_map.2 ⟨vs₁ ++ vs₂, ?_, rfl⟩⟩
          exact ih.2 ⟨q, rest, vs₁, vs₂, rfl, ht, by simpa using hm, rfl⟩

theorem takes_concat_lit_iff {ps : List (Piece Var)} {cur before q rest : List Char}
    {vs : List (List Char × List Char)} : Takes (ps ++ [.lit cur]) before q rest vs ↔
      ∃ q', q = q' ++ cur ∧ Takes ps before q' (cur ++ rest) vs := by
  induction ps generalizing before q vs with
  | nil =>
    constructor
    · intro h
      cases h with
      | lit h =>
        cases h
        exact ⟨[], by simp, .nil⟩
    · rintro ⟨_, rfl, h⟩
      cases h
      have h : Takes [.lit cur] before (cur ++ []) rest [] := .lit .nil
      rwa [List.append_nil] at h
  | cons p ps ih =>
    constructor
    · intro h
      cases h with
      | lit h =>
        obtain ⟨q', rfl, hps⟩ := ih.1 h
        exact ⟨_, (List.append_assoc ..).symm, hps.lit⟩
      | var hp h =>
        obtain ⟨q', rfl, hps⟩ := ih.1 h
        exact ⟨_, (List.append_assoc ..).symm, .var (by simpa using hp) hps⟩
    · rintro ⟨_, rfl, h⟩
      cases h with
      | lit h =>
        rw [List.append_assoc]
        exact (ih.2 ⟨_, rfl, h⟩).lit
      | var hp h =>
        rw [List.append_assoc]
        exact .var (by simpa using hp) (ih.2 ⟨_, rfl, h⟩)

/-- The values taken are those of the variables. -/
theorem Takes.mem_map_fst {ps : List (Piece Var)} {before q rest name : List Char}
    {vs : List (List Char × List Char)} (h : Takes ps before q rest vs) :
    name ∈ vs.map Prod.fst ↔ ∃ v, Piece.var v ∈ ps ∧ v.name = name := by
  induction h with
  | nil => simp
  | lit _ ih => simpa using ih
  | var _ _ ih =>
    rw [List.map_cons, List.mem_cons, ih]
    simp only [List.mem_cons, Piece.var.injEq, or_and_right, exists_or, exists_eq_left,
      @eq_comm _ name]

theorem Takes.notMem_map_fst {ps : List (Piece Var)} {before q rest name : List Char}
    {vs : List (List Char × List Char)} (h : Takes ps before q rest vs) :
    name ∉ vs.map Prod.fst ↔ ∀ v, Piece.var v ∈ ps → v.name ≠ name := by
  rw [h.mem_map_fst]
  exact not_exists.trans (forall_congr' fun v => not_and)

/-- **A template behind a text**: the text is cut alone. -/
theorem exists_bracePieces_append {s : List Char} (hb : ∀ e ∈ es, e.Balanced)
    {ps : List (Piece (List Char))} (h : bracePieces s = some ps) :
    ∃ ps' cur, ps = ps' ++ [.lit cur] ∧
      bracePieces (s ++ template es) = some (ps' ++ pieces cur es) := by
  rw [bracePieces] at h
  split at h
  · rename_i ps' cur hs
    obtain rfl := Option.some.inj h
    obtain ⟨ps'', cur', htemplate, heq⟩ := foldlM_step_template hb ps' cur
    refine ⟨ps', cur, rfl, ?_⟩
    rw [bracePieces, List.foldlM_append, hs, Option.bind_eq_bind, Option.bind_some, htemplate]
    exact congrArg some heq
  · cases h

/-- The braces of the whole balance only where those of the text do. -/
theorem bracePieces_append_eq_none {s : List Char} (hb : ∀ e ∈ es, e.Balanced)
    (h : bracePieces s = none) : bracePieces (s ++ template es) = none := by
  cases hwhole : bracePieces (s ++ template es) with
  | none => rfl
  | some ps =>
    -- the elements leave as many braces open as the text
    have hdepth : depth 0 (s ++ template es) = some 0 :=
      depth_of_bracePieces (by rw [hwhole]; rfl)
    rw [depth_append, Option.bind_eq_some_iff] at hdepth
    obtain ⟨n, hn, hrest⟩ := hdepth
    rw [depth_template hb, Option.some_inj] at hrest
    subst hrest
    rw [bracePieces, List.foldlM_append] at hwhole
    cases hs : s.foldlM Scan.step ⟨0, [], []⟩ with
    | none => simp [hs] at hwhole
    | some state =>
      obtain ⟨level, ps', cur⟩ := state
      have hlevel := depth_of_foldlM_step hs
      rw [hn, Option.some_inj] at hlevel
      simp only at hlevel
      subst hlevel
      rw [bracePieces, hs] at h
      cases h

theorem newVars_append (ps ps' : List (Piece (List Char))) :
    newVars compile (ps ++ ps') =
      (newVars compile ps).bind fun r => (newVars compile ps').map (r ++ ·) := by
  induction ps with
  | nil =>
    rw [List.nil_append, newVars]
    cases newVars compile ps' <;> rfl
  | cons p ps ih =>
    cases p with
    | lit t =>
      rw [List.cons_append, newVars, newVars, ih]
      cases newVars compile ps with
      | error e => rfl
      | ok r => cases newVars compile ps' <;> rfl
    | var t =>
      rw [List.cons_append, newVars, newVars, ih]
      cases newVar compile t with
      | error e => rfl
      | ok v =>
        cases newVars compile ps with
        | error e => rfl
        | ok r => cases newVars compile ps' <;> rfl

theorem numSubexp_append (ps ps' : List (Piece Var)) :
    numSubexp (ps ++ ps') = numSubexp ps + numSubexp ps' := by
  induction ps with
  | nil => exact (Nat.zero_add _).symm
  | cons p ps ih => cases p <;> simp [numSubexp, ih, Nat.add_assoc]

/-- The pieces of a text end in one of letters. -/
theorem newVars_concat_lit {ps : List (Piece (List Char))} {cur : List Char} :
    newVars compile (ps ++ [.lit cur]) = (newVars compile ps).map (· ++ [.lit cur]) := by
  rw [newVars_append]
  cases newVars compile ps <;> rfl

/-! ## Dispatch -/

/-- A path without empty elements and dots. A slash at its end stays. -/
def cleanPath (p : List Char) : List Char :=
  let np := pathOf (FileTree.resolve [] p)
  if np = [] then ['/'] else if p.getLast? = some '/' then np ++ ['/'] else np

/-- What the router does with a request: it sends it to another path, or
to a handler with the values of the variables, or no route answers. -/
inductive Dispatch (η : Type) where
  | redirect (path : List Char)
  | handle (handler : η) (vars : String → Option String)
  | notFound

/-- **The dispatch of a request.** Only clean paths come to the routes. -/
def serveHTTP {η : Type} (routes : List (Route η)) (method : String) (path : List Char) :
    Dispatch η :=
  if cleanPath path ≠ path then .redirect (cleanPath path)
  else match route routes method path with
    | some (handler, vars) => .handle handler vars
    | none => .notFound

section Dispatch

open FileTree

variable {η : Type} {routes : List (Route η)} {method : String} {path : List Char} {handler : η}

theorem pathOf_append (ps qs : List (List Char)) : pathOf (ps ++ qs) = pathOf ps ++ pathOf qs :=
  List.flatMap_append

/-- **A path is cut at its slashes in one way** into as many parts. -/
theorem pathOf_append_inj {ps qs : List (List Char)} {t u : List Char}
    (hlen : ps.length = qs.length) (hps : ∀ p ∈ ps, '/' ∉ p) (hqs : ∀ q ∈ qs, '/' ∉ q)
    (h : pathOf ps ++ '/' :: t = pathOf qs ++ '/' :: u) : ps = qs ∧ t = u := by
  have hhead (ps : List (List Char)) (t : List Char) : ∃ t', pathOf ps ++ '/' :: t = '/' :: t' := by
    cases ps with
    | nil => exact ⟨t, rfl⟩
    | cons p ps => exact ⟨_, rfl⟩
  induction ps generalizing qs with
  | nil =>
    obtain rfl := List.eq_nil_of_length_eq_zero hlen.symm
    exact ⟨rfl, (List.cons.inj h).2⟩
  | cons p ps ih =>
    cases qs with
    | nil => cases hlen
    | cons q qs =>
      rw [List.forall_mem_cons] at hps hqs
      have hcons (p : List Char) (ps : List (List Char)) (t : List Char) :
          pathOf (p :: ps) ++ '/' :: t = '/' :: (p ++ (pathOf ps ++ '/' :: t)) := by simp [pathOf]
      rw [hcons, hcons] at h
      obtain ⟨t', ht⟩ := hhead ps t
      obtain ⟨u', hu⟩ := hhead qs u
      rw [ht, hu] at h
      obtain ⟨rfl, rfl⟩ := Text.append_cons_inj_left hps.1 hqs.1 (List.cons.inj h).2
      obtain ⟨rfl, rfl⟩ := ih (Nat.succ.inj hlen) hps.2 hqs.2 (ht.trans hu.symm)
      exact ⟨rfl, rfl⟩

theorem count_pathOf {ps : List (List Char)} (hps : ∀ p ∈ ps, '/' ∉ p) :
    (pathOf ps).count '/' = ps.length := by
  induction ps with
  | nil => rfl
  | cons p ps ih =>
    rw [List.forall_mem_cons] at hps
    have hcons : pathOf (p :: ps) = '/' :: (p ++ pathOf ps) := rfl
    rw [hcons, List.count_cons_self, List.count_append, List.count_eq_zero_of_not_mem hps.1, ih hps.2,
      List.length_cons, Nat.zero_add]

/-- Names after slashes are clean. -/
theorem cleanPath_pathOf {es : List (List Char)} (hne : es ≠ []) (hes : ∀ e ∈ es, IsName e) :
    cleanPath (pathOf es) = pathOf es := by
  have hresolve : resolve [] (pathOf es) = es := resolve_names hne hes []
  have hnil : pathOf es ≠ [] := by
    obtain ⟨e, es, rfl⟩ := List.exists_cons_of_ne_nil hne
    simp [pathOf]
  -- the last name has a last character, which is no slash
  have hlast : (pathOf es).getLast? ≠ some '/' := by
    induction es using List.reverseRecOn with
    | nil => exact absurd rfl hne
    | append_singleton es e _ =>
      rw [List.forall_mem_append, List.forall_mem_singleton] at hes
      intro h
      have he : e.getLast? = some '/' := by
        have hpath : pathOf (es ++ [e]) = (pathOf es ++ ['/']) ++ e := by simp [pathOf]
        rwa [hpath, List.getLast?_append_of_ne_nil _ hes.2.ne_nil] at h
      exact hes.2.noSlash (List.mem_of_getLast? he)
  rw [cleanPath, hresolve, if_neg hnil, if_neg hlast]

/-- **Two slashes at the start are not clean.** -/
theorem cleanPath_ne_slashes (p q : List Char) : cleanPath p ≠ '/' :: '/' :: q := by
  have hnames := isName_of_mem_resolve (s := p) (List.forall_mem_nil IsName)
  intro h
  rw [cleanPath] at h
  cases hes : resolve [] p with
  | nil => simp [hes, pathOf] at h
  | cons e es =>
    rw [hes, List.forall_mem_cons] at hnames
    cases he : e with
    | nil => exact hnames.1.ne_nil he
    | cons c e' =>
      have hpath : pathOf (e :: es) = '/' :: c :: (e' ++ pathOf es) := by simp [pathOf, he]
      have hslash : c = '/' := by
        rw [hes, hpath, if_neg (List.cons_ne_nil _ _)] at h
        split at h
        · exact (List.cons.inj (List.cons.inj h).2).1
        · exact (List.cons.inj (List.cons.inj h).2).1
      exact hnames.1.noSlash (by rw [he, hslash]; exact List.mem_cons_self)

/-- **When a handler gets a request.** -/
theorem serveHTTP_eq_handle {vars : String → Option String} :
    serveHTTP routes method path = .handle handler vars ↔
      cleanPath path = path ∧ route routes method path = some (handler, vars) := by
  rw [serveHTTP]
  split
  · rename_i h
    exact ⟨(nomatch ·), fun heq => absurd heq.1 h⟩
  · rename_i h
    rw [not_not] at h
    cases hroute : route routes method path with
    | none => simp
    | some a => simp [h, Prod.ext_iff]

/-- Who answers is a route that matches. -/
theorem exists_of_route {vars : String → Option String}
    (h : route routes method path = some (handler, vars)) :
    ∃ r ∈ routes, ∃ vs ∈ r.matches path, r.handler = handler ∧ extractVars vs = vars := by
  obtain ⟨r, hr, hmatch⟩ := List.exists_of_findSome?_eq_some h
  split at hmatch
  · obtain ⟨vs, hvs, heq⟩ := Option.map_eq_some_iff.1 hmatch
    obtain ⟨hhandler, hvars⟩ := Prod.mk.inj heq
    exact ⟨r, hr, vs, List.mem_of_mem_head? hvs, hhandler, hvars⟩
  · cases hmatch

/-- A request that a route matches is answered. -/
theorem exists_route (hsome : ∃ r ∈ routes, method ∈ r.methods ∧ r.matches path ≠ []) :
    ∃ handler vars, route routes method path = some (handler, vars) := by
  cases hroute : route routes method path with
  | none =>
    obtain ⟨r, hr, hmethod, hmatch⟩ := hsome
    have hnone := List.findSome?_eq_none_iff.1 hroute r hr
    rw [if_pos hmethod, Option.map_eq_none_iff, List.head?_eq_none_iff] at hnone
    exact absurd hnone hmatch
  | some a => exact ⟨a.1, a.2, rfl⟩

/-- **Who answers, where all that match agree.** The order of the routes
is then of no account. -/
theorem route_eq_of_agree {vs : List (List Char × List Char)}
    (hsome : ∃ r ∈ routes, method ∈ r.methods ∧ r.matches path ≠ [])
    (hagree : ∀ r ∈ routes, ∀ vs' ∈ r.matches path, r.handler = handler ∧ vs' = vs) :
    route routes method path = some (handler, extractVars vs) := by
  obtain ⟨handler', vars, hroute⟩ := exists_route hsome
  obtain ⟨r, hr, vs', hvs', rfl, rfl⟩ := exists_of_route hroute
  obtain ⟨rfl, rfl⟩ := hagree r hr vs' hvs'
  exact hroute

end Dispatch

end Mux
