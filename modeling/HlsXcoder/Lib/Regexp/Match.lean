import Mathlib.Data.List.Basic

/-!
# Regular expressions with captures

The expressions of a backtracking matcher: classes of characters,
sequence, ordered choice, bounded or unbounded repetition, greedy or
lazy, and numbered capturing groups.

Two readings are given. `Lang` is the set of texts an expression
describes. `run` lists the matches at the start of a text in the order a
backtracking matcher tries them, each with the text that is left and the
captures made on the way; the first of them is the match a leftmost-first
engine reports. `run` is sound and complete for `Lang` (`lang_of_mem_run`,
`mem_run_of_lang`), and what a group captures lies in the language of the
group (`capture_of_mem_run`).
-/

namespace Regexp

/-- A class of characters: the ranges listed, or all that lie outside
them. -/
structure CharClass where
  negated : Bool
  ranges : List (Char × Char)
  deriving DecidableEq, Repr

/-- Membership in a class. -/
def CharClass.mem (k : CharClass) (c : Char) : Bool :=
  k.negated != k.ranges.any fun r => decide (r.1 ≤ c) && decide (c ≤ r.2)

/-- Regular expressions. `rep r m n greedy` repeats `r` at least `m` and
at most `n` times, without upper bound when `n` is `none`. -/
inductive Re where
  | empty
  | char (k : CharClass)
  | seq (r s : Re)
  | alt (r s : Re)
  | rep (r : Re) (min : ℕ) (max : Option ℕ) (greedy : Bool)
  | group (i : ℕ) (r : Re)
  deriving DecidableEq, Repr

/-- The text left to match, and the captures made so far, latest first. -/
abbrev Pos := List Char × List (ℕ × List Char)

/-- Repetition of one step, in the order it is tried. A round that takes
nothing is dropped once the minimum is met, so the fuel bounds the
rounds. -/
def iterate (f : Pos → List Pos) (greedy : Bool) : ℕ → ℕ → Option ℕ → Pos → List Pos
  | 0, min, _, p => if min = 0 then [p] else []
  | fuel + 1, min, max, p =>
    let stop := if min = 0 then [p] else []
    let more := if max = some 0 then [] else
      (f p).flatMap fun q =>
        if q.1.length < p.1.length ∨ 0 < min then
          iterate f greedy fuel (min - 1) (max.map (· - 1)) q
        else []
    if greedy then more ++ stop else stop ++ more

namespace Re

/-- The texts an expression describes. -/
def Lang : Re → List Char → Prop
  | empty, w => w = []
  | char k, w => ∃ c, k.mem c = true ∧ w = [c]
  | seq r s, w => ∃ u v, w = u ++ v ∧ r.Lang u ∧ s.Lang v
  | alt r s, w => r.Lang w ∨ s.Lang w
  | rep r min max _, w => ∃ ws : List (List Char), w = ws.flatten ∧ (∀ u ∈ ws, r.Lang u) ∧
      min ≤ ws.length ∧ ∀ k ∈ max, ws.length ≤ k
  | group _ r, w => r.Lang w

/-- The matches at the start of a text, in the order they are tried. -/
def run : Re → Pos → List Pos
  | empty, p => [p]
  | char k, p => match p.1 with
    | [] => []
    | c :: cs => if k.mem c then [(cs, p.2)] else []
  | seq r s, p => (r.run p).flatMap s.run
  | alt r s, p => r.run p ++ s.run p
  | rep r min max greedy, p => iterate r.run greedy (p.1.length + min) min max p
  | group i r, p => (r.run p).map fun q =>
      (q.1, (i, p.1.take (p.1.length - q.1.length)) :: q.2)

/-- The capturing groups of an expression. -/
def groups : Re → List (ℕ × Re)
  | empty | char _ => []
  | seq r s | alt r s => r.groups ++ s.groups
  | rep r _ _ _ => r.groups
  | group i r => (i, r) :: r.groups

/-- The groups set by every match. -/
def sets (i : ℕ) : Re → Bool
  | empty | char _ => false
  | seq r s => r.sets i || s.sets i
  | alt r s => r.sets i && s.sets i
  | rep r min _ _ => decide (0 < min) && r.sets i
  | group j r => decide (j = i) || r.sets i

/-- The classes of characters an expression is made of. -/
def classes : Re → List CharClass
  | empty => []
  | char k => [k]
  | seq r s | alt r s => r.classes ++ s.classes
  | rep r _ _ _ => r.classes
  | group _ r => r.classes

/-! ## The language, by form -/

@[simp] theorem lang_empty {w : List Char} : Lang .empty w ↔ w = [] := Iff.rfl

@[simp] theorem lang_char {k : CharClass} {w : List Char} :
    Lang (.char k) w ↔ ∃ c, k.mem c = true ∧ w = [c] := Iff.rfl

@[simp] theorem lang_seq {r s : Re} {w : List Char} :
    Lang (.seq r s) w ↔ ∃ u v, w = u ++ v ∧ r.Lang u ∧ s.Lang v := Iff.rfl

@[simp] theorem lang_alt {r s : Re} {w : List Char} :
    Lang (.alt r s) w ↔ r.Lang w ∨ s.Lang w := Iff.rfl

@[simp] theorem lang_group {i : ℕ} {r : Re} {w : List Char} :
    Lang (.group i r) w ↔ r.Lang w := Iff.rfl

/-- **A described text is made of characters of the classes.** -/
theorem forall_mem_of_lang {P : Char → Prop} {r : Re}
    (h : ∀ k ∈ r.classes, ∀ c, k.mem c = true → P c) {w : List Char} (hw : r.Lang w) :
    ∀ c ∈ w, P c := by
  induction r generalizing w with
  | empty =>
    rw [lang_empty] at hw
    simp [hw]
  | char k =>
    obtain ⟨c, hc, rfl⟩ := hw
    simpa using h k (by simp [classes]) c hc
  | seq r s ihr ihs =>
    obtain ⟨u, v, rfl, hu, hv⟩ := hw
    intro c hc
    obtain hc | hc := List.mem_append.1 hc
    · exact ihr (fun k hk => h k (List.mem_append_left _ hk)) hu c hc
    · exact ihs (fun k hk => h k (List.mem_append_right _ hk)) hv c hc
  | alt r s ihr ihs =>
    obtain hw | hw := hw
    · exact ihr (fun k hk => h k (List.mem_append_left _ hk)) hw
    · exact ihs (fun k hk => h k (List.mem_append_right _ hk)) hw
  | rep r min max g ih =>
    obtain ⟨ws, rfl, hws, -⟩ := hw
    intro c hc
    obtain ⟨u, hu, hcu⟩ := List.mem_flatten.1 hc
    exact ih h (hws u hu) c hcu
  | group i r ih => exact ih h hw

/-- A character outside all classes stands in no described text. -/
theorem not_mem_of_lang {r : Re} {c : Char} (hr : (r.classes.all fun k => !k.mem c) = true)
    {w : List Char} (hw : r.Lang w) : c ∉ w := by
  intro hmem
  refine forall_mem_of_lang (P := (· ≠ c)) (fun k hk d hd hdc => ?_) hw c hmem rfl
  subst hdc
  have hk' := List.all_eq_true.1 hr k hk
  rw [hd] at hk'
  cases hk'

/-- **A repeated class is a run of its members**, of a length within the
bounds. -/
theorem lang_rep_char {k : CharClass} {min : ℕ} {max : Option ℕ} {g : Bool} {w : List Char} :
    Lang (.rep (.char k) min max g) w ↔
      (∀ c ∈ w, k.mem c = true) ∧ min ≤ w.length ∧ ∀ n ∈ max, w.length ≤ n := by
  constructor
  · rintro ⟨ws, rfl, hws, hmin, hmax⟩
    have hlen : ws.flatten.length = ws.length := by
      clear hmin hmax
      induction ws with
      | nil => rfl
      | cons u us ih =>
        obtain ⟨c, -, rfl⟩ := hws u (by simp)
        have := ih fun v hv => hws v (by simp [hv])
        simp [this]
    refine ⟨fun c hc => ?_, by omega, fun n hn => by have := hmax n hn; omega⟩
    obtain ⟨u, hu, hcu⟩ := List.mem_flatten.1 hc
    obtain ⟨d, hd, rfl⟩ := hws u hu
    rw [List.mem_singleton.1 hcu]
    exact hd
  · rintro ⟨hw, hmin, hmax⟩
    refine ⟨w.map fun c => [c], ?_, ?_, by simpa using hmin, fun n hn => by simpa using hmax n hn⟩
    · rw [← List.flatMap_def, List.flatMap_singleton']
    · intro u hu
      obtain ⟨c, hc, rfl⟩ := List.mem_map.1 hu
      exact ⟨c, hw c hc, rfl⟩

/-- An optional expression. -/
theorem lang_opt {r : Re} {g : Bool} {w : List Char} :
    Lang (.rep r 0 (some 1) g) w ↔ w = [] ∨ r.Lang w := by
  constructor
  · rintro ⟨ws, rfl, hws, -, hmax⟩
    have hlen : ws.length ≤ 1 := hmax 1 rfl
    match ws, hws, hlen with
    | [], _, _ => exact Or.inl rfl
    | [u], hws, _ => exact Or.inr (by simpa using hws u (by simp))
  · rintro (rfl | h)
    · exact ⟨[], rfl, by simp, by simp, by simp⟩
    · exact ⟨[w], by simp, by simpa using h, by simp, by simp⟩

end Re

/-! ## Soundness -/

open Re

/-- A repetition either stops here or takes one more round. -/
theorem mem_iterate_succ {f : Pos → List Pos} {g : Bool} {fuel min : ℕ} {max : Option ℕ}
    {p q : Pos} (hq : q ∈ iterate f g (fuel + 1) min max p) :
    (min = 0 ∧ q = p) ∨ (max ≠ some 0 ∧ ∃ p' ∈ f p,
      q ∈ iterate f g fuel (min - 1) (max.map (· - 1)) p') := by
  rw [iterate] at hq
  have hmem : q ∈ (if min = 0 then [p] else []) ∨
      q ∈ (if max = some 0 then [] else (f p).flatMap fun q =>
        if q.1.length < p.1.length ∨ 0 < min then
          iterate f g fuel (min - 1) (max.map (· - 1)) q
        else []) := by
    cases g <;> simp only [if_true, Bool.false_eq_true, if_false, List.mem_append] at hq
    · exact hq
    · exact hq.symm
  rcases hmem with h | h
  · split at h
    · exact Or.inl ⟨by assumption, List.mem_singleton.1 h⟩
    · simp at h
  · split at h
    · simp at h
    · rename_i hmax
      obtain ⟨p', hp', hq'⟩ := List.mem_flatMap.1 h
      split at hq'
      · exact Or.inr ⟨hmax, p', hp', hq'⟩
      · simp at hq'

/-- What one step may do carries over to its repetition: the text taken
is a run of texts the step takes, within the bounds. -/
theorem mem_iterate {f : Pos → List Pos} {P : List Char → Prop} {g : Bool}
    (hf : ∀ p, ∀ q ∈ f p, ∃ u, p.1 = u ++ q.1 ∧ P u) :
    ∀ fuel min max p, ∀ q ∈ iterate f g fuel min max p,
      ∃ ws : List (List Char), p.1 = ws.flatten ++ q.1 ∧ (∀ u ∈ ws, P u) ∧
        min ≤ ws.length ∧ ∀ k ∈ max, ws.length ≤ k := by
  intro fuel
  induction fuel with
  | zero =>
    intro min max p q hq
    rw [iterate] at hq
    split at hq
    · rw [List.mem_singleton.1 hq]
      exact ⟨[], rfl, by simp, by simp; omega, by simp⟩
    · simp at hq
  | succ fuel ih =>
    intro min max p q hq
    rcases mem_iterate_succ hq with ⟨rfl, rfl⟩ | ⟨hmax, p', hp', hq'⟩
    · exact ⟨[], rfl, by simp, by simp, by simp⟩
    · obtain ⟨u, hu, hPu⟩ := hf p p' hp'
      obtain ⟨ws, hws, hP, hmin, hk⟩ := ih _ _ _ _ hq'
      refine ⟨u :: ws, by simp [hu, hws], ?_, by simp only [List.length_cons]; omega, ?_⟩
      · simp only [List.mem_cons, forall_eq_or_imp]
        exact ⟨hPu, hP⟩
      · intro k hmaxk
        have hk' := hk (k - 1) (by simp [Option.mem_def.1 hmaxk])
        have hne : k ≠ 0 := by
          rintro rfl
          exact hmax hmaxk
        simp only [List.length_cons]
        omega

/-- **The matches are sound**: what a match takes is described by the
expression. -/
theorem lang_of_mem_run (r : Re) : ∀ p, ∀ q ∈ r.run p, ∃ u, p.1 = u ++ q.1 ∧ r.Lang u := by
  induction r with
  | empty =>
    intro p q hq
    rw [run, List.mem_singleton] at hq
    exact ⟨[], by simp [hq], rfl⟩
  | char k =>
    intro p q hq
    rw [run] at hq
    split at hq
    · simp at hq
    · rename_i c cs hp
      split at hq
      · rename_i hk
        rw [List.mem_singleton] at hq
        exact ⟨[c], by simp [hp, hq], c, hk, rfl⟩
      · simp at hq
  | seq r s ihr ihs =>
    intro p q hq
    obtain ⟨m, hm, hq⟩ := List.mem_flatMap.1 hq
    obtain ⟨u, hu, hru⟩ := ihr p m hm
    obtain ⟨v, hv, hsv⟩ := ihs m q hq
    exact ⟨u ++ v, by simp [hu, hv], u, v, rfl, hru, hsv⟩
  | alt r s ihr ihs =>
    intro p q hq
    rcases List.mem_append.1 hq with h | h
    · obtain ⟨u, hu, hr⟩ := ihr p q h
      exact ⟨u, hu, Or.inl hr⟩
    · obtain ⟨u, hu, hs⟩ := ihs p q h
      exact ⟨u, hu, Or.inr hs⟩
  | rep r min max g ih =>
    intro p q hq
    obtain ⟨ws, hws, hP, hmin, hmax⟩ := mem_iterate ih _ _ _ _ q hq
    exact ⟨ws.flatten, hws, ws, rfl, hP, hmin, hmax⟩
  | group i r ih =>
    intro p q hq
    obtain ⟨m, hm, rfl⟩ := List.mem_map.1 hq
    exact ih p m hm

/-! ## Completeness -/

/-- A repetition finds every run of texts its step finds. -/
theorem exists_mem_iterate {f : Pos → List Pos} {P : List Char → Prop} {g : Bool}
    (hf : ∀ u t c, P u → ∃ c', (t, c') ∈ f (u ++ t, c)) :
    ∀ (ws : List (List Char)) (fuel min : ℕ) (max : Option ℕ) (t : List Char)
      (c : List (ℕ × List Char)), (∀ u ∈ ws, P u) → min ≤ ws.length →
      (∀ k ∈ max, ws.length ≤ k) → ws.flatten.length + min ≤ fuel →
      ∃ c', (t, c') ∈ iterate f g fuel min max (ws.flatten ++ t, c) := by
  intro ws
  -- on the rounds: each takes one off the fuel, the minimum and the maximum
  induction ws with
  | nil =>
    intro fuel min max t c _ hmin _ _
    have hmin0 : min = 0 := by simpa using hmin
    subst hmin0
    refine ⟨c, ?_⟩
    cases fuel <;> cases g <;> simp [iterate]
  | cons u ws ih =>
    intro fuel min max t c hP hmin hmax hfuel
    have hPws : ∀ v ∈ ws, P v := fun v hv => hP v (List.mem_cons_of_mem _ hv)
    simp only [List.flatten_cons, List.length_append, List.length_cons] at hfuel hmin hmax
    by_cases hskip : u = [] ∧ min = 0
    · -- an empty round beyond the minimum is not needed
      obtain ⟨rfl, rfl⟩ := hskip
      simpa using ih fuel 0 max t c hPws (Nat.zero_le _)
        (fun k hk => by have := hmax k hk; omega) (by simpa using hfuel)
    · have hpos : 0 < u.length ∨ 0 < min := by
        rcases Nat.eq_zero_or_pos min with h | h
        · exact Or.inl (List.length_pos_iff.2 fun hu => hskip ⟨hu, h⟩)
        · exact Or.inr h
      obtain ⟨fuel, rfl⟩ : ∃ m, fuel = m + 1 := ⟨fuel - 1, by omega⟩
      obtain ⟨c', hc'⟩ := hf u (ws.flatten ++ t) c (hP u (by simp))
      obtain ⟨c'', hc''⟩ := ih fuel (min - 1) (max.map (· - 1)) t c' hPws (by omega)
        (by
          intro k hk
          obtain ⟨k', hk', rfl⟩ := Option.map_eq_some_iff.1 hk
          have := hmax k' hk'
          omega) (by omega)
      refine ⟨c'', ?_⟩
      have hmax0 : max ≠ some 0 := by
        rintro rfl
        have := hmax 0 rfl
        omega
      have hguard : (ws.flatten ++ t).length < (u ++ (ws.flatten ++ t)).length ∨ 0 < min := by
        simp only [List.length_append]
        omega
      have hmore : (t, c'') ∈ (f (u ++ (ws.flatten ++ t), c)).flatMap fun q =>
          if q.1.length < (u ++ (ws.flatten ++ t)).length ∨ 0 < min then
            iterate f g fuel (min - 1) (max.map (· - 1)) q else [] := by
        refine List.mem_flatMap.2 ⟨_, hc', ?_⟩
        rw [if_pos hguard]
        exact hc''
      rw [List.flatten_cons, List.append_assoc, iterate]
      simp only [if_neg hmax0]
      cases g
      · exact List.mem_append_right _ hmore
      · exact List.mem_append_left _ hmore

/-- **The matches are complete**: every text the expression describes is
taken by some match, whatever follows it. -/
theorem mem_run_of_lang (r : Re) : ∀ u t c, r.Lang u → ∃ c', (t, c') ∈ r.run (u ++ t, c) := by
  induction r with
  | empty =>
    rintro u t c rfl
    exact ⟨c, by simp [run]⟩
  | char k =>
    rintro u t c ⟨d, hd, rfl⟩
    exact ⟨c, by simp [run, hd]⟩
  | seq r s ihr ihs =>
    rintro w t c ⟨u, v, rfl, hu, hv⟩
    obtain ⟨c', hc'⟩ := ihr u (v ++ t) c hu
    obtain ⟨c'', hc''⟩ := ihs v t c' hv
    refine ⟨c'', List.mem_flatMap.2 ⟨_, ?_, hc''⟩⟩
    rwa [List.append_assoc]
  | alt r s ihr ihs =>
    rintro w t c (h | h)
    · obtain ⟨c', hc'⟩ := ihr w t c h
      exact ⟨c', List.mem_append_left _ hc'⟩
    · obtain ⟨c', hc'⟩ := ihs w t c h
      exact ⟨c', List.mem_append_right _ hc'⟩
  | rep r min max g ih =>
    rintro w t c ⟨ws, rfl, hws, hmin, hmax⟩
    exact exists_mem_iterate ih ws _ min max t c hws hmin hmax (by simp)
  | group i r ih =>
    intro w t c h
    obtain ⟨c', hc'⟩ := ih w t c h
    exact ⟨_, List.mem_map.2 ⟨_, hc', rfl⟩⟩

/-! ## Captures -/

/-- What one step may record carries over to its repetition. -/
theorem capture_of_mem_iterate {f : Pos → List Pos} {Q : ℕ × List Char → Prop} {g : Bool}
    (hf : ∀ p, ∀ q ∈ f p, ∀ x ∈ q.2, x ∈ p.2 ∨ Q x) :
    ∀ fuel min max p, ∀ q ∈ iterate f g fuel min max p, ∀ x ∈ q.2, x ∈ p.2 ∨ Q x := by
  intro fuel
  induction fuel with
  | zero =>
    intro min max p q hq x hx
    rw [iterate] at hq
    split at hq
    · rw [List.mem_singleton.1 hq] at hx
      exact Or.inl hx
    · simp at hq
  | succ fuel ih =>
    intro min max p q hq x hx
    rcases mem_iterate_succ hq with ⟨-, rfl⟩ | ⟨-, p', hp', hq'⟩
    · exact Or.inl hx
    · rcases ih _ _ _ _ hq' x hx with h | h
      · exact hf p p' hp' x h
      · exact Or.inr h

/-- **A capture lies in the language of its group.** -/
theorem capture_of_mem_run (r : Re) : ∀ p, ∀ q ∈ r.run p, ∀ x ∈ q.2,
    x ∈ p.2 ∨ ∃ s, (x.1, s) ∈ r.groups ∧ s.Lang x.2 := by
  induction r with
  | empty =>
    intro p q hq x hx
    rw [run, List.mem_singleton] at hq
    exact Or.inl (hq ▸ hx)
  | char k =>
    intro p q hq x hx
    rw [run] at hq
    split at hq
    · simp at hq
    · split at hq
      · rw [List.mem_singleton] at hq
        rw [hq] at hx
        exact Or.inl hx
      · simp at hq
  | seq r s ihr ihs =>
    intro p q hq x hx
    obtain ⟨m, hm, hq⟩ := List.mem_flatMap.1 hq
    rcases ihs m q hq x hx with h | ⟨e, he, hl⟩
    · rcases ihr p m hm x h with h | ⟨e, he, hl⟩
      · exact Or.inl h
      · exact Or.inr ⟨e, List.mem_append_left _ he, hl⟩
    · exact Or.inr ⟨e, List.mem_append_right _ he, hl⟩
  | alt r s ihr ihs =>
    intro p q hq x hx
    rcases List.mem_append.1 hq with h | h
    · exact (ihr p q h x hx).imp_right fun ⟨e, he, hl⟩ => ⟨e, List.mem_append_left _ he, hl⟩
    · exact (ihs p q h x hx).imp_right fun ⟨e, he, hl⟩ => ⟨e, List.mem_append_right _ he, hl⟩
  | rep r min max g ih =>
    intro p q hq x hx
    exact capture_of_mem_iterate ih _ _ _ _ q hq x hx
  | group i r ih =>
    intro p q hq x hx
    obtain ⟨m, hm, rfl⟩ := List.mem_map.1 hq
    rcases List.mem_cons.1 hx with rfl | hx
    · -- the new capture is the text the group's own match took
      obtain ⟨u, hu, hl⟩ := lang_of_mem_run r p m hm
      refine Or.inr ⟨r, List.mem_cons_self, ?_⟩
      simpa [hu] using hl
    · exact (ih p m hm x hx).imp_right fun ⟨e, he, hl⟩ => ⟨e, List.mem_cons_of_mem _ he, hl⟩

/-- Captures are kept by every step of a repetition. -/
theorem captures_mono_iterate {f : Pos → List Pos} {g : Bool}
    (hf : ∀ p, ∀ q ∈ f p, ∀ x ∈ p.2, x ∈ q.2) :
    ∀ fuel min max p, ∀ q ∈ iterate f g fuel min max p, ∀ x ∈ p.2, x ∈ q.2 := by
  intro fuel
  induction fuel with
  | zero =>
    intro min max p q hq x hx
    rw [iterate] at hq
    split at hq
    · rw [List.mem_singleton.1 hq]
      exact hx
    · simp at hq
  | succ fuel ih =>
    intro min max p q hq x hx
    rcases mem_iterate_succ hq with ⟨-, rfl⟩ | ⟨-, p', hp', hq'⟩
    · exact hx
    · exact ih _ _ _ _ hq' x (hf p p' hp' x hx)

/-- Captures are kept by a match. -/
theorem captures_mono (r : Re) : ∀ p, ∀ q ∈ r.run p, ∀ x ∈ p.2, x ∈ q.2 := by
  induction r with
  | empty =>
    intro p q hq x hx
    rw [run, List.mem_singleton] at hq
    exact hq ▸ hx
  | char k =>
    intro p q hq x hx
    rw [run] at hq
    split at hq
    · simp at hq
    · split at hq
      · rw [List.mem_singleton] at hq
        rw [hq]
        exact hx
      · simp at hq
  | seq r s ihr ihs =>
    intro p q hq x hx
    obtain ⟨m, hm, hq⟩ := List.mem_flatMap.1 hq
    exact ihs m q hq x (ihr p m hm x hx)
  | alt r s ihr ihs =>
    intro p q hq x hx
    rcases List.mem_append.1 hq with h | h
    · exact ihr p q h x hx
    · exact ihs p q h x hx
  | rep r min max g ih =>
    intro p q hq x hx
    exact captures_mono_iterate ih _ _ _ _ q hq x hx
  | group i r ih =>
    intro p q hq x hx
    obtain ⟨m, hm, rfl⟩ := List.mem_map.1 hq
    exact List.mem_cons_of_mem _ (ih p m hm x hx)

/-- **A group that every match sets is set.** -/
theorem exists_capture_of_sets {i : ℕ} (r : Re) (hr : r.sets i = true) :
    ∀ p, ∀ q ∈ r.run p, ∃ u, (i, u) ∈ q.2 := by
  induction r with
  | empty => simp [sets] at hr
  | char k => simp [sets] at hr
  | seq r s ihr ihs =>
    intro p q hq
    obtain ⟨m, hm, hq⟩ := List.mem_flatMap.1 hq
    rw [sets, Bool.or_eq_true] at hr
    rcases hr with hr | hs
    · obtain ⟨u, hu⟩ := ihr hr p m hm
      exact ⟨u, captures_mono s m q hq _ hu⟩
    · exact ihs hs m q hq
  | alt r s ihr ihs =>
    intro p q hq
    rw [sets, Bool.and_eq_true] at hr
    rcases List.mem_append.1 hq with h | h
    · exact ihr hr.1 p q h
    · exact ihs hr.2 p q h
  | rep r min max g ih =>
    intro p q hq
    rw [sets, Bool.and_eq_true, decide_eq_true_eq] at hr
    rw [run] at hq
    -- the minimum is positive, so the repetition starts with a round
    obtain ⟨fuel, hfuel⟩ : ∃ m, p.1.length + min = m + 1 := ⟨p.1.length + min - 1, by omega⟩
    rw [hfuel] at hq
    rcases mem_iterate_succ hq with ⟨h0, -⟩ | ⟨-, p', hp', hq'⟩
    · omega
    · obtain ⟨u, hu⟩ := ih hr.2 p p' hp'
      exact ⟨u, captures_mono_iterate (captures_mono r) _ _ _ _ q hq' _ hu⟩
  | group j r ih =>
    intro p q hq
    obtain ⟨m, hm, rfl⟩ := List.mem_map.1 hq
    rw [sets, Bool.or_eq_true, decide_eq_true_eq] at hr
    rcases hr with rfl | hr
    · exact ⟨_, List.mem_cons_self⟩
    · obtain ⟨u, hu⟩ := ih hr p m hm
      exact ⟨u, List.mem_cons_of_mem _ hu⟩

end Regexp
