import Mathlib.Data.List.Induction
import Mathlib.Data.List.Nodup

/-!
# The first of each key

A list is gone through once, and of the elements that count, those whose
key was not seen yet are kept. What is kept are the first elements of
their keys (`mem_firsts`), one for each key there is (`mem_map_firsts`,
`nodup_map_firsts`).
-/

namespace Firsts

variable {α κ : Type*} [DecidableEq κ] (p : α → Bool) (key : α → κ)

/-- One more element, kept if it counts and its key is new. -/
def keep (acc : List α) (a : α) : List α :=
  if p a = true ∧ key a ∉ acc.map key then acc ++ [a] else acc

/-- The first elements of each key, among those that count. -/
def firsts (l : List α) : List α := l.foldl (keep p key) []

variable {p key}

@[simp] theorem firsts_nil : firsts p key [] = [] := rfl

theorem firsts_concat (l : List α) (a : α) :
    firsts p key (l ++ [a]) = keep p key (firsts p key l) a := by
  simp [firsts]

/-- **There is one for each key.** -/
theorem mem_map_firsts {l : List α} {k : κ} :
    k ∈ (firsts p key l).map key ↔ ∃ a ∈ l, p a = true ∧ key a = k := by
  induction l using List.reverseRecOn with
  | nil => simp
  | append_singleton l a ih =>
    rw [firsts_concat, keep]
    split
    · rename_i h
      rw [List.map_append, List.mem_append, ih]
      constructor
      · rintro (⟨b, hb, hk⟩ | hk)
        · exact ⟨b, List.mem_append_left _ hb, hk⟩
        · exact ⟨a, by simp, h.1, (List.mem_singleton.1 hk).symm⟩
      · rintro ⟨b, hb, hp, rfl⟩
        obtain hb | hb := List.mem_append.1 hb
        · exact .inl ⟨b, hb, hp, rfl⟩
        · obtain rfl := List.mem_singleton.1 hb
          exact .inr (by simp)
    · rename_i h
      rw [ih]
      constructor
      · rintro ⟨b, hb, hk⟩
        exact ⟨b, List.mem_append_left _ hb, hk⟩
      · rintro ⟨b, hb, hp, rfl⟩
        obtain hb | hb := List.mem_append.1 hb
        · exact ⟨b, hb, hp, rfl⟩
        · obtain rfl := List.mem_singleton.1 hb
          exact ih.1 (not_not.1 fun hn => h ⟨hp, hn⟩)

/-- **What is kept comes first**: no element before it that counts has its
key. -/
theorem mem_firsts {l : List α} {a : α} : a ∈ firsts p key l ↔
    ∃ before after, l = before ++ a :: after ∧ p a = true ∧
      ∀ b ∈ before, p b = true → key b ≠ key a := by
  induction l using List.reverseRecOn with
  | nil => simp
  | append_singleton l x ih =>
    rw [firsts_concat, keep]
    have hlast : (∃ before after, l ++ [x] = before ++ a :: after ∧ p a = true ∧
        ∀ b ∈ before, p b = true → key b ≠ key a) ↔ a ∈ firsts p key l ∨
          a = x ∧ p x = true ∧ key x ∉ (firsts p key l).map key := by
      rw [ih]
      constructor
      · rintro ⟨before, after, heq, hp, hbefore⟩
        obtain rfl | ⟨after, y, rfl⟩ := List.eq_nil_or_concat after
        · obtain ⟨rfl, hx⟩ := List.append_inj' heq rfl
          obtain rfl : x = a := by simpa using hx
          refine .inr ⟨rfl, hp, fun hmem => ?_⟩
          obtain ⟨b, hb, hpb, hk⟩ := mem_map_firsts.1 hmem
          exact hbefore b hb hpb hk
        · rw [List.concat_eq_append, ← List.cons_append, ← List.append_assoc] at heq
          obtain ⟨rfl, -⟩ := List.append_inj' heq rfl
          exact .inl ⟨before, after, rfl, hp, hbefore⟩
      · rintro (⟨before, after, rfl, hp, hbefore⟩ | ⟨rfl, hp, hnew⟩)
        · exact ⟨before, after ++ [x], by simp, hp, hbefore⟩
        · exact ⟨l, [], rfl, hp, fun b hb hpb hk => hnew (mem_map_firsts.2 ⟨b, hb, hpb, hk⟩)⟩
    rw [hlast]
    split
    · rename_i h
      simp [h.1, h.2]
    · rename_i h
      refine ⟨.inl, fun hor => hor.elim id fun hx => absurd hx.2 h⟩

/-- What is kept has distinct keys. -/
theorem nodup_map_firsts (l : List α) : ((firsts p key l).map key).Nodup := by
  induction l using List.reverseRecOn with
  | nil => exact List.nodup_nil
  | append_singleton l a ih =>
    rw [firsts_concat, keep]
    split
    · rename_i h
      rw [List.map_append, List.map_singleton]
      refine List.Nodup.append ih (List.nodup_singleton _) ?_
      rw [List.disjoint_singleton]
      exact h.2
    · exact ih

end Firsts
