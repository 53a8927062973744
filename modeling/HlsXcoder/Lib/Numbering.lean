import Mathlib.Data.List.Nodup

/-!
# Names numbered within their class

A new name is made by going once through the names in use, in order, and
moving on to the next name of the class at each clash. Where the names in
use were made the same way, one pass is enough: those of a class stand in
the order of their numbers, so the pass ends at the first number that is
free (`probe_names`), and no name is ever made twice (`nodup_names`).
-/

namespace Numbering

/-- The numbered names of each class, and the step from one to the
next. -/
structure Scheme (κ α : Type*) where
  valid : κ → Prop
  name : κ → ℕ → α
  next : κ → α → α
  next_name : ∀ o m, next o (name o m) = name o (m + 1)
  name_inj : ∀ {o o' m m'}, valid o → valid o' → name o m = name o' m' → o = o' ∧ m = m'

variable {κ α : Type*} [DecidableEq κ] (S : Scheme κ α)

namespace Scheme

/-- The names made for a list of classes, after those of `prev`. -/
def names (prev : List κ) : List κ → List α
  | [] => []
  | o :: os => S.name o (prev.count o) :: names (prev ++ [o]) os

/-- A new name of a class, beside those in use. -/
def probe [DecidableEq α] (o : κ) (used : List α) : α :=
  used.foldl (fun a n => if a = n then S.next o a else a) (S.name o 0)

omit [DecidableEq κ] in
/-- A new name is a name of its class. -/
theorem exists_probe [DecidableEq α] (o : κ) (used : List α) : ∃ m, S.probe o used = S.name o m := by
  have hfold : ∀ m, ∃ m', used.foldl (fun a n => if a = n then S.next o a else a) (S.name o m) =
      S.name o m' := by
    induction used with
    | nil => exact fun m => ⟨m, rfl⟩
    | cons n used ih =>
      intro m
      rw [List.foldl_cons]
      split
      · rw [S.next_name]
        exact ih (m + 1)
      · exact ih m
  exact hfold 0

theorem names_concat (prev os : List κ) (o : κ) :
    S.names prev (os ++ [o]) = S.names prev os ++ [S.name o ((prev ++ os).count o)] := by
  induction os generalizing prev with
  | nil => simp [names]
  | cons x os ih =>
    rw [List.cons_append, names, names, ih, List.append_assoc, List.singleton_append,
      List.cons_append]

variable {S}

/-- The pass over the names made after those of `prev` counts the clashes
among them. -/
theorem foldl_names [DecidableEq α] {o : κ} (ho : S.valid o) {os : List κ} (hos : ∀ x ∈ os, S.valid x)
    (prev : List κ) :
    (S.names prev os).foldl (fun a n => if a = n then S.next o a else a)
      (S.name o (prev.count o)) = S.name o ((prev ++ os).count o) := by
  induction os generalizing prev with
  | nil => simp [names]
  | cons x os ih =>
    have hos' : ∀ y ∈ os, S.valid y := fun y hy => hos y (List.mem_cons_of_mem _ hy)
    have hassoc : prev ++ x :: os = (prev ++ [x]) ++ os := by simp
    rw [names, List.foldl_cons, hassoc, ← ih hos' (prev ++ [x])]
    congr 1
    by_cases hox : o = x
    · subst hox
      rw [if_pos rfl, S.next_name, List.count_append, List.count_singleton_self]
    · have hcount : (prev ++ [x]).count o = prev.count o := by
        simp [Ne.symm hox]
      rw [if_neg fun h => hox (S.name_inj ho (hos x List.mem_cons_self) h).1, hcount]

/-- **One pass finds the first number that is free.** -/
theorem probe_names [DecidableEq α] {o : κ} (ho : S.valid o) {os : List κ} (hos : ∀ x ∈ os, S.valid x) :
    S.probe o (S.names [] os) = S.name o (os.count o) :=
  foldl_names ho hos []

/-- A name made after those of `prev` has a number they have not
reached. -/
theorem exists_of_mem_names {prev os : List κ} {a : α} (h : a ∈ S.names prev os) :
    ∃ o ∈ os, ∃ m, a = S.name o m ∧ prev.count o ≤ m := by
  induction os generalizing prev with
  | nil => cases h
  | cons x os ih =>
    obtain rfl | h := List.mem_cons.1 h
    · exact ⟨x, List.mem_cons_self, _, rfl, Nat.le_refl _⟩
    · obtain ⟨o, ho, m, rfl, hm⟩ := ih h
      have hle : prev.count o ≤ (prev ++ [x]).count o := by
        rw [List.count_append]
        exact Nat.le_add_right _ _
      exact ⟨o, List.mem_cons_of_mem _ ho, m, rfl, Nat.le_trans hle hm⟩

/-- **The names are distinct.** -/
theorem nodup_names {os : List κ} (hos : ∀ x ∈ os, S.valid x) (prev : List κ) :
    (S.names prev os).Nodup := by
  induction os generalizing prev with
  | nil => exact List.nodup_nil
  | cons x os ih =>
    refine List.nodup_cons.2 ⟨fun hmem => ?_, ih (fun y hy => hos y (List.mem_cons_of_mem _ hy)) _⟩
    obtain ⟨o, ho, m, heq, hm⟩ := exists_of_mem_names hmem
    obtain ⟨rfl, rfl⟩ := S.name_inj (hos x List.mem_cons_self) (hos o (List.mem_cons_of_mem _ ho)) heq
    -- the class has one name more by then
    rw [List.count_append, List.count_singleton_self] at hm
    omega

end Scheme

end Numbering
