import Mathlib.Data.List.Infix

/-!
# A window over a log

A log grows at its end and is listed only in part: the list holds its
last entries, up to a limit. What drops out of the list stands for a
while, the newest first, before it is erased. Nothing is erased twice
and nothing out of order, which is one equation: what stands is the end
of the log (`standing_push`, `standing_erase`).
-/

namespace SlidingLog

variable {α : Type*}

/-- What is left of a log: the entries listed, and those dropped from
the list that stand, the newest first. -/
structure Window (α : Type*) where
  listed : List α
  kept : List α

namespace Window

def empty : Window α := ⟨[], []⟩

/-- What stands, in the order of the log. -/
def standing (w : Window α) : List α := w.kept.reverse ++ w.listed

/-- One more entry. The oldest of a list that is full makes room for it;
a limit of zero is no limit. -/
def push (limit : ℕ) (w : Window α) (x : α) : Window α :=
  if limit ≠ 0 ∧ limit ≤ w.listed.length then
    ⟨(w.listed ++ [x]).tail, (w.listed ++ [x]).head?.toList ++ w.kept⟩
  else ⟨w.listed ++ [x], w.kept⟩

/-- Only the newest `n` of the dropped entries are kept. -/
def erase (n : ℕ) (w : Window α) : Window α := ⟨w.listed, w.kept.take n⟩

variable {limit : ℕ} {w : Window α} {x : α}

theorem cons_tail_listed (w : Window α) (x : α) :
    (w.listed ++ [x]).head?.toList ++ (w.listed ++ [x]).tail = w.listed ++ [x] := by
  cases w.listed <;> rfl

/-- **A push adds to the end of what stands.** -/
@[simp] theorem standing_push (limit : ℕ) (w : Window α) (x : α) :
    (w.push limit x).standing = w.standing ++ [x] := by
  rw [push]
  split
  · have hhead : (w.listed ++ [x]).head?.toList.reverse = (w.listed ++ [x]).head?.toList := by
      cases (w.listed ++ [x]).head? <;> rfl
    rw [standing, List.reverse_append, List.append_assoc, hhead, cons_tail_listed, standing,
      List.append_assoc]
  · rw [standing, standing, List.append_assoc]

/-- **An erasure takes from the beginning.** -/
theorem standing_erase (n : ℕ) (w : Window α) :
    (w.erase n).standing = w.standing.drop (w.kept.length - n) := by
  have hle : w.kept.length - n ≤ w.kept.reverse.length := by
    rw [List.length_reverse]
    omega
  rw [standing, erase, standing, List.drop_append_of_le_length hle, List.reverse_take]

/-- What an erasure takes, in the order of the log. -/
theorem reverse_drop_kept (n : ℕ) (w : Window α) :
    (w.kept.drop n).reverse = w.standing.take (w.kept.length - n) := by
  have hle : w.kept.length - n ≤ w.kept.reverse.length := by
    rw [List.length_reverse]
    omega
  rw [standing, List.take_append_of_le_length hle, List.reverse_drop]

theorem standing_erase_suffix (n : ℕ) (w : Window α) : (w.erase n).standing <:+ w.standing := by
  rw [standing_erase]
  exact List.drop_suffix _ _

theorem listed_suffix_standing (w : Window α) : w.listed <:+ w.standing :=
  List.suffix_append _ _

/-- **A list grows to its limit** and stays there. -/
theorem length_listed_push {k : ℕ}
    (h : w.listed.length = if limit = 0 then k else min k limit) :
    (w.push limit x).listed.length = if limit = 0 then k + 1 else min (k + 1) limit := by
  rw [push]
  by_cases hlimit : limit = 0
  · rw [if_pos hlimit] at h
    simp [hlimit, h]
  · rw [if_neg hlimit] at h
    rw [if_neg hlimit]
    split
    · rw [List.length_tail, List.length_append, List.length_singleton]
      omega
    · rename_i hfull
      rw [List.length_append, List.length_singleton]
      simp only [ne_eq, hlimit, not_false_eq_true, true_and, Nat.not_le] at hfull
      omega

end Window

end SlidingLog
