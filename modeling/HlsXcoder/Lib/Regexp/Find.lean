import HlsXcoder.Lib.Regexp.Match

/-!
# Searching a text

`accepts` asks for a match of the whole text, `find` for the leftmost
match anywhere in it, taking the first one tried at that place. A found
match carries the text it took and the captures of its groups; a group
that was not set reads as the empty text.
-/

namespace Regexp

/-- A match found in a text. -/
structure Found where
  whole : List Char
  captures : List (ℕ × List Char)
  deriving DecidableEq, Repr

/-- What a group captured, or the empty text. -/
def Found.group (m : Found) (i : ℕ) : List Char := (m.captures.lookup i).getD []

namespace Re

/-- The expression describes the whole text. -/
def accepts (r : Re) (w : List Char) : Bool := (r.run (w, [])).any fun q => q.1.isEmpty

/-- The leftmost match, the first one tried at its place. -/
def find (r : Re) : List Char → Option Found
  | [] => match r.run ([], []) with
    | q :: _ => some ⟨[], q.2⟩
    | [] => none
  | c :: cs => match r.run (c :: cs, []) with
    | q :: _ => some ⟨(c :: cs).take ((c :: cs).length - q.1.length), q.2⟩
    | [] => r.find cs

theorem accepts_iff {r : Re} {w : List Char} : r.accepts w = true ↔ r.Lang w := by
  simp only [accepts, List.any_eq_true, List.isEmpty_iff]
  constructor
  · rintro ⟨q, hq, hnil⟩
    obtain ⟨u, hu, hl⟩ := lang_of_mem_run r _ q hq
    have hw : w = u := by simpa [hnil] using hu
    rwa [hw]
  · intro h
    obtain ⟨c, hc⟩ := mem_run_of_lang r w [] [] h
    rw [List.append_nil] at hc
    exact ⟨_, hc, rfl⟩

/-- What a search found is one of the matches tried at some place of the
text. -/
theorem mem_run_of_find {r : Re} {w : List Char} {m : Found} (h : r.find w = some m) :
    ∃ a b, w = a ++ m.whole ++ b ∧ (b, m.captures) ∈ r.run (m.whole ++ b, []) := by
  induction w with
  | nil =>
    rw [find] at h
    split at h
    · rename_i q _ hq
      obtain rfl := Option.some.inj h
      obtain ⟨u, hu, -⟩ := lang_of_mem_run r ([], []) q (hq ▸ List.mem_cons_self)
      obtain ⟨-, hnil⟩ := List.append_eq_nil_iff.1 hu.symm
      exact ⟨[], [], rfl, by rw [List.append_nil, hq, ← hnil]; exact List.mem_cons_self⟩
    · simp at h
  | cons c cs ih =>
    rw [find] at h
    split at h
    · rename_i q _ hq
      obtain rfl := Option.some.inj h
      obtain ⟨u, hu, -⟩ := lang_of_mem_run r (c :: cs, []) q (hq ▸ List.mem_cons_self)
      have hu' : c :: cs = u ++ q.1 := hu
      have htake : (c :: cs).take ((c :: cs).length - q.1.length) = u := by
        rw [hu', List.length_append, Nat.add_sub_cancel]
        simp
      refine ⟨[], q.1, by rw [htake, List.nil_append, hu'], ?_⟩
      rw [htake, ← hu', hq]
      exact List.mem_cons_self
    · obtain ⟨a, b, hw, hb⟩ := ih h
      exact ⟨c :: a, b, by simp [hw], hb⟩

/-- **A search succeeds exactly where some piece of the text is
described.** -/
theorem find_isSome_iff {r : Re} {w : List Char} :
    (r.find w).isSome ↔ ∃ a u b, w = a ++ u ++ b ∧ r.Lang u := by
  constructor
  · intro h
    obtain ⟨m, hm⟩ := Option.isSome_iff_exists.1 h
    obtain ⟨a, b, hw, hb⟩ := mem_run_of_find hm
    obtain ⟨u, hu, hl⟩ := lang_of_mem_run r _ _ hb
    exact ⟨a, m.whole, b, hw, List.append_cancel_right hu ▸ hl⟩
  · rintro ⟨a, u, b, rfl, hl⟩
    induction a with
    | nil =>
      obtain ⟨c, hc⟩ := mem_run_of_lang r u b [] hl
      rw [List.nil_append]
      cases hw : u ++ b with
      | nil =>
        rw [hw] at hc
        rw [find]
        split
        · rfl
        · simp_all
      | cons d ds =>
        rw [hw] at hc
        rw [find]
        split
        · rfl
        · simp_all
    | cons d a ih =>
      rw [List.cons_append, List.cons_append, find]
      split
      · rfl
      · exact ih

/-- A capture of a found match lies in the language of its group. -/
theorem lang_of_capture {r : Re} {i : ℕ} {w v : List Char} {m : Found} (h : r.find w = some m)
    (hv : m.captures.lookup i = some v) : ∃ t, (i, t) ∈ r.groups ∧ t.Lang v := by
  obtain ⟨a, b, -, hb⟩ := mem_run_of_find h
  have hmem : (i, v) ∈ m.captures := by
    obtain ⟨l₁, l₂, heq, -⟩ := List.lookup_eq_some_iff.1 hv
    rw [heq]
    simp
  exact (capture_of_mem_run r _ _ hb _ hmem).resolve_left (by simp)

/-- **A group reads as the empty text or as a text of its language.** -/
theorem group_of_find {r : Re} {w : List Char} {m : Found} (h : r.find w = some m) (i : ℕ) :
    m.group i = [] ∨ ∃ t, (i, t) ∈ r.groups ∧ t.Lang (m.group i) := by
  cases hv : m.captures.lookup i with
  | none => exact .inl (by simp [Found.group, hv])
  | some v =>
    obtain ⟨t, ht, hl⟩ := lang_of_capture h hv
    exact .inr ⟨t, ht, by simpa [Found.group, hv] using hl⟩

/-- **What a group captures is made of characters of its classes.** -/
theorem forall_mem_group {r : Re} {i : ℕ} {P : Char → Prop} (ks : List CharClass)
    (hclasses : (r.groups.all fun g => decide (g.1 ≠ i) || g.2.classes.all fun k => ks.contains k) =
      true) (hks : ∀ k ∈ ks, ∀ c, k.mem c = true → P c) {w : List Char} {m : Found}
    (h : r.find w = some m) : ∀ c ∈ m.group i, P c := by
  obtain hnil | ⟨t, ht, hl⟩ := group_of_find h i
  · simp [hnil]
  · have hall := List.all_eq_true.1 hclasses _ ht
    simp only [ne_eq, not_true_eq_false, decide_false, Bool.false_or, List.all_eq_true,
      List.contains_iff_mem] at hall
    exact forall_mem_of_lang (fun k hk => hks k (hall k hk)) hl

/-- **A group that every match sets captures a text of its language**,
provided the expression numbers its groups apart. -/
theorem lang_group_of_find {r s : Re} {i : ℕ} {w : List Char} {m : Found}
    (hset : r.sets i = true) (hgroups : ∀ t, (i, t) ∈ r.groups → t = s)
    (h : r.find w = some m) : s.Lang (m.group i) := by
  obtain ⟨a, b, -, hb⟩ := mem_run_of_find h
  obtain ⟨u, hu⟩ := exists_capture_of_sets r hset _ _ hb
  obtain ⟨v, hv⟩ : ∃ v, m.captures.lookup i = some v := by
    cases hl : m.captures.lookup i with
    | some v => exact ⟨v, rfl⟩
    | none =>
      rw [List.lookup_eq_none_iff] at hl
      simpa using hl _ hu
  obtain ⟨t, ht, hl⟩ := lang_of_capture h hv
  rw [Found.group, hv, Option.getD_some]
  exact hgroups t ht ▸ hl

end Re

end Regexp
