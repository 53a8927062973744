import HlsXcoder.Lib.Regexp.Find
import HlsXcoder.Lib.Regexp.Parse

/-!
# Matches with their captures

`Parses r w cs` says that `r` describes the text `w` in a way that makes
the captures `cs`, latest first. It refines `Lang` by the captures, and a
match that is tried is a parse of the text it takes
(`parses_of_mem_run`), so what a search captured is read off the form of
the expression.
-/

namespace Regexp

namespace Re

/-- The texts an expression describes, each with the captures made on the
way, latest first. -/
def Parses : Re → List Char → List (ℕ × List Char) → Prop
  | empty, w, cs => w = [] ∧ cs = []
  | char k, w, cs => (∃ c, k.mem c = true ∧ w = [c]) ∧ cs = []
  | seq r s, w, cs => ∃ u v a b, w = u ++ v ∧ cs = b ++ a ∧ r.Parses u a ∧ s.Parses v b
  | alt r s, w, cs => r.Parses w cs ∨ s.Parses w cs
  | rep r min max _, w, cs => ∃ rounds : List (List Char × List (ℕ × List Char)),
      w = (rounds.map Prod.fst).flatten ∧ cs = (rounds.map Prod.snd).reverse.flatten ∧
        (∀ p ∈ rounds, r.Parses p.1 p.2) ∧ min ≤ rounds.length ∧ ∀ k ∈ max, rounds.length ≤ k
  | group i r, w, cs => ∃ a, r.Parses w a ∧ cs = (i, w) :: a

/-- A parse reads a text of the language. -/
theorem Parses.lang {r : Re} {w : List Char} {cs : List (ℕ × List Char)} (h : r.Parses w cs) :
    r.Lang w := by
  induction r generalizing w cs with
  | empty => exact h.1
  | char k => exact h.1
  | seq r s ihr ihs =>
    obtain ⟨u, v, a, b, rfl, -, hu, hv⟩ := h
    exact ⟨u, v, rfl, ihr hu, ihs hv⟩
  | alt r s ihr ihs => exact h.imp ihr ihs
  | rep r min max g ih =>
    obtain ⟨rounds, rfl, -, hrounds, hmin, hmax⟩ := h
    refine ⟨rounds.map Prod.fst, rfl, fun u hu => ?_, by simpa using hmin, by simpa using hmax⟩
    obtain ⟨p, hp, rfl⟩ := List.mem_map.1 hu
    exact ih (hrounds p hp)
  | group i r ih =>
    obtain ⟨a, ha, -⟩ := h
    exact ih ha

/-- An expression without groups captures nothing. -/
theorem Parses.eq_nil {r : Re} (hr : r.groups = []) {w : List Char} {cs : List (ℕ × List Char)}
    (h : r.Parses w cs) : cs = [] := by
  induction r generalizing w cs with
  | empty => exact h.2
  | char k => exact h.2
  | seq r s ihr ihs =>
    obtain ⟨u, v, a, b, -, rfl, hu, hv⟩ := h
    obtain ⟨hgr, hgs⟩ := List.append_eq_nil_iff.1 hr
    rw [ihr hgr hu, ihs hgs hv, List.append_nil]
  | alt r s ihr ihs =>
    obtain ⟨hgr, hgs⟩ := List.append_eq_nil_iff.1 hr
    exact h.elim (ihr hgr) (ihs hgs)
  | rep r min max g ih =>
    obtain ⟨rounds, -, rfl, hrounds, -⟩ := h
    rw [List.flatten_eq_nil_iff]
    intro a ha
    obtain ⟨p, hp, rfl⟩ := List.mem_map.1 (List.mem_reverse.1 ha)
    exact ih hr (hrounds p hp)
  | group i r ih => cases hr

/-! ## Parses, by form -/

theorem Parses.cat_cons {r : Re} {rs : List Re} {w : List Char} {cs : List (ℕ × List Char)}
    (h : (Re.cat (r :: rs)).Parses w cs) :
    ∃ u v a b, w = u ++ v ∧ cs = b ++ a ∧ r.Parses u a ∧ (Re.cat rs).Parses v b := by
  cases rs with
  | nil => exact ⟨w, [], cs, [], by simp, rfl, h, rfl, rfl⟩
  | cons s rs => exact h

/-- A literal reads its own text and captures nothing. -/
theorem Parses.cat_lit {t : List Char} {rs : List Re} {w : List Char} {cs : List (ℕ × List Char)}
    (h : (Re.cat ((t.map fun c => .char (.single c)) ++ rs)).Parses w cs) :
    ∃ v, w = t ++ v ∧ (Re.cat rs).Parses v cs := by
  induction t generalizing w cs with
  | nil => exact ⟨w, rfl, h⟩
  | cons c t ih =>
    obtain ⟨u, v, a, b, rfl, rfl, ⟨⟨d, hd, rfl⟩, rfl⟩, hv⟩ := Parses.cat_cons h
    obtain ⟨v, rfl, hv⟩ := ih hv
    exact ⟨v, by rw [CharClass.mem_single.1 hd]; rfl, by rwa [List.append_nil]⟩

/-- An optional expression is left out, or read. -/
theorem Parses.opt {r : Re} {g : Bool} {w : List Char} {cs : List (ℕ × List Char)}
    (h : (Re.rep r 0 (some 1) g).Parses w cs) : w = [] ∧ cs = [] ∨ r.Parses w cs := by
  obtain ⟨rounds, rfl, rfl, hrounds, -, hmax⟩ := h
  have hlen : rounds.length ≤ 1 := hmax 1 rfl
  match rounds, hrounds, hlen with
  | [], _, _ => exact .inl ⟨rfl, rfl⟩
  | [p], hrounds, _ => exact .inr (by simpa using hrounds p (by simp))

/-- A group without groups inside captures the text it reads. -/
theorem Parses.group_plain {i : ℕ} {r : Re} (hr : r.groups = []) {w : List Char}
    {cs : List (ℕ × List Char)} (h : (Re.group i r).Parses w cs) : r.Lang w ∧ cs = [(i, w)] := by
  obtain ⟨a, ha, rfl⟩ := h
  rw [ha.eq_nil hr]
  exact ⟨ha.lang, rfl⟩

/-! ## Soundness -/

/-- What one step may take and record carries over to its repetition. -/
theorem parses_of_mem_iterate {f : Pos → List Pos} {P : List Char → List (ℕ × List Char) → Prop}
    {g : Bool} (hf : ∀ p, ∀ q ∈ f p, ∃ u a, p.1 = u ++ q.1 ∧ q.2 = a ++ p.2 ∧ P u a) :
    ∀ fuel min max p, ∀ q ∈ iterate f g fuel min max p,
      ∃ rounds : List (List Char × List (ℕ × List Char)),
        p.1 = (rounds.map Prod.fst).flatten ++ q.1 ∧
          q.2 = (rounds.map Prod.snd).reverse.flatten ++ p.2 ∧ (∀ r ∈ rounds, P r.1 r.2) ∧
          min ≤ rounds.length ∧ ∀ k ∈ max, rounds.length ≤ k := by
  intro fuel
  induction fuel with
  | zero =>
    intro min max p q hq
    rw [iterate] at hq
    split at hq
    · rw [List.mem_singleton.1 hq]
      exact ⟨[], rfl, rfl, by simp, by simp; omega, by simp⟩
    · simp at hq
  | succ fuel ih =>
    intro min max p q hq
    rcases mem_iterate_succ hq with ⟨rfl, rfl⟩ | ⟨hmax, p', hp', hq'⟩
    · exact ⟨[], rfl, rfl, by simp, by simp, by simp⟩
    · obtain ⟨u, a, hu, ha, hP⟩ := hf p p' hp'
      obtain ⟨rounds, hw, hc, hrounds, hmin, hk⟩ := ih _ _ _ _ hq'
      refine ⟨(u, a) :: rounds, by simp [hu, hw], by simp [hc, ha], ?_,
        by simp only [List.length_cons]; omega, fun k hmaxk => ?_⟩
      · simp only [List.mem_cons, forall_eq_or_imp]
        exact ⟨hP, hrounds⟩
      · have hk' := hk (k - 1) (by simp [Option.mem_def.1 hmaxk])
        have hne : k ≠ 0 := by
          rintro rfl
          exact hmax hmaxk
        simp only [List.length_cons]
        omega

/-- **A match that is tried is a parse** of the text it takes. -/
theorem parses_of_mem_run (r : Re) : ∀ p, ∀ q ∈ r.run p,
    ∃ u a, p.1 = u ++ q.1 ∧ q.2 = a ++ p.2 ∧ r.Parses u a := by
  induction r with
  | empty =>
    intro p q hq
    rw [run, List.mem_singleton] at hq
    exact ⟨[], [], by simp [hq], by simp [hq], rfl, rfl⟩
  | char k =>
    intro p q hq
    rw [run] at hq
    split at hq
    · simp at hq
    · rename_i c cs hp
      split at hq
      · rename_i hk
        rw [List.mem_singleton] at hq
        exact ⟨[c], [], by simp [hp, hq], by simp [hq], ⟨c, hk, rfl⟩, rfl⟩
      · simp at hq
  | seq r s ihr ihs =>
    intro p q hq
    obtain ⟨m, hm, hq⟩ := List.mem_flatMap.1 hq
    obtain ⟨u, a, hu, ha, hr⟩ := ihr p m hm
    obtain ⟨v, b, hv, hb, hs⟩ := ihs m q hq
    exact ⟨u ++ v, b ++ a, by simp [hu, hv], by simp [hb, ha], u, v, a, b, rfl, rfl, hr, hs⟩
  | alt r s ihr ihs =>
    intro p q hq
    rcases List.mem_append.1 hq with h | h
    · obtain ⟨u, a, hu, ha, hr⟩ := ihr p q h
      exact ⟨u, a, hu, ha, .inl hr⟩
    · obtain ⟨u, a, hu, ha, hs⟩ := ihs p q h
      exact ⟨u, a, hu, ha, .inr hs⟩
  | rep r min max g ih =>
    intro p q hq
    obtain ⟨rounds, hw, hc, hrounds⟩ := parses_of_mem_iterate ih _ _ _ _ q hq
    exact ⟨_, _, hw, hc, rounds, rfl, rfl, hrounds⟩
  | group i r ih =>
    intro p q hq
    obtain ⟨m, hm, rfl⟩ := List.mem_map.1 hq
    obtain ⟨u, a, hu, ha, hr⟩ := ih p m hm
    exact ⟨u, (i, u) :: a, hu, by simp [hu, ha], a, hr, rfl⟩

/-- **What a search found is a parse** of a piece of the text. -/
theorem parses_of_find {r : Re} {w : List Char} {m : Found} (h : r.find w = some m) :
    ∃ a b, w = a ++ m.whole ++ b ∧ r.Parses m.whole m.captures := by
  obtain ⟨a, b, hw, hb⟩ := mem_run_of_find h
  obtain ⟨u, cs, hu, hcs, hp⟩ := parses_of_mem_run r _ _ hb
  obtain rfl : m.whole = u := List.append_cancel_right hu
  obtain rfl : m.captures = cs := hcs.trans (List.append_nil cs)
  exact ⟨a, b, hw, hp⟩

end Re

end Regexp
