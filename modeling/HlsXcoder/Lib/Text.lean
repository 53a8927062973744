import Mathlib.Algebra.Group.Nat.Defs
import Mathlib.Data.List.Basic

/-!
# Text cut at separators, and decimal numerals

File names and addresses are built by joining pieces around separators
and numerals, so two of them are compared by recovering the pieces. The
cuts are unique where a piece is free of the separator
(`append_cons_inj_left`, `append_cons_inj_right`) or made of one class of
characters and fenced by another (`span_inj`). A text is also cut at runs
of separators (`splitRuns`), which gives the fields it was built from
where none of them is empty or has a separator (`splitRuns_append`).

A numeral is the decimal text of a number, padded on the left with zeros
to a minimal width. It is made of digits, and the number is read back
from it (`pad_injective`).
-/

namespace Text

variable {α : Type*}

/-! ## Unique cuts -/

/-- **The first cut is unique**: two texts whose first pieces are free of
the separator agree piece by piece. -/
theorem append_cons_inj_left {a b x y : List α} {c : α} (ha : c ∉ a) (hb : c ∉ b)
    (h : a ++ c :: x = b ++ c :: y) : a = b ∧ x = y := by
  induction a generalizing b with
  | nil =>
    cases b with
    | nil => simpa using h
    | cons d b =>
      simp only [List.nil_append, List.cons_append, List.cons.injEq] at h
      exact absurd (by simp [h.1]) hb
  | cons e a ih =>
    cases b with
    | nil =>
      simp only [List.nil_append, List.cons_append, List.cons.injEq] at h
      exact absurd (by simp [h.1]) ha
    | cons d b =>
      simp only [List.cons_append, List.cons.injEq] at h
      obtain ⟨hab, hxy⟩ := ih (fun hc => ha (List.mem_cons_of_mem _ hc))
        (fun hc => hb (List.mem_cons_of_mem _ hc)) h.2
      exact ⟨by rw [h.1, hab], hxy⟩

/-- **The last cut is unique**: two texts whose last pieces are free of
the separator agree piece by piece. -/
theorem append_cons_inj_right {a b x y : List α} {c : α} (hx : c ∉ x) (hy : c ∉ y)
    (h : a ++ c :: x = b ++ c :: y) : a = b ∧ x = y := by
  have hr : x.reverse ++ c :: a.reverse = y.reverse ++ c :: b.reverse := by
    simpa using congrArg List.reverse h
  obtain ⟨hxy, hab⟩ := append_cons_inj_left (by simpa using hx) (by simpa using hy) hr
  exact ⟨List.reverse_injective hab, List.reverse_injective hxy⟩

/-- **A cut is unique where as many stand before it.** -/
theorem append_cons_inj_of_count [DecidableEq α] {a b x y : List α} {c : α}
    (hcount : a.count c = b.count c) (h : a ++ c :: x = b ++ c :: y) : a = b ∧ x = y := by
  induction a generalizing b with
  | nil =>
    cases b with
    | nil => simpa using h
    | cons d b =>
      simp only [List.nil_append, List.cons_append, List.cons.injEq] at h
      simp [h.1] at hcount
  | cons e a ih =>
    cases b with
    | nil =>
      simp only [List.nil_append, List.cons_append, List.cons.injEq] at h
      simp [h.1] at hcount
    | cons d b =>
      simp only [List.cons_append, List.cons.injEq] at h
      obtain ⟨rfl, h⟩ := h
      rw [List.count_cons, List.count_cons, Nat.add_right_cancel_iff] at hcount
      obtain ⟨rfl, rfl⟩ := ih hcount h
      exact ⟨rfl, rfl⟩

/-- A fact about the members of a list, as one that computes. -/
theorem forall_mem_of_all {p : α → Prop} [DecidablePred p] {xs : List α}
    (h : (xs.all fun x => decide (p x)) = true) : ∀ x ∈ xs, p x := by
  simpa using h

/-- A text fenced off from a class of characters: it is empty or starts
outside the class. -/
def Fenced (p : α → Prop) (t : List α) : Prop := ∀ c ∈ t.head?, ¬ p c

theorem fenced_cons {p : α → Prop} {c : α} {t : List α} : Fenced p (c :: t) ↔ ¬ p c := by
  simp [Fenced]

/-- **A leading run is unique**: where the first pieces lie in a class
and what follows starts outside it, the pieces agree. -/
theorem span_inj {p : α → Prop} {a b s t : List α} (ha : ∀ c ∈ a, p c) (hb : ∀ c ∈ b, p c)
    (hs : Fenced p s) (ht : Fenced p t) (h : a ++ s = b ++ t) : a = b ∧ s = t := by
  induction a generalizing b with
  | nil =>
    cases b with
    | nil => simpa using h
    | cons d b =>
      rw [List.nil_append, List.cons_append] at h
      subst h
      exact absurd (hb d (by simp)) (fenced_cons.1 hs)
  | cons e a ih =>
    cases b with
    | nil =>
      rw [List.nil_append, List.cons_append] at h
      subst h
      exact absurd (ha e (by simp)) (fenced_cons.1 ht)
    | cons d b =>
      simp only [List.cons_append, List.cons.injEq] at h
      obtain ⟨hab, hst⟩ := ih (fun c hc => ha c (List.mem_cons_of_mem _ hc))
        (fun c hc => hb c (List.mem_cons_of_mem _ hc)) h.2
      exact ⟨by rw [h.1, hab], hst⟩

/-- A text cut at the last occurrence of a separator; the whole text is
the second piece where there is none. -/
def cutLast [DecidableEq α] (c : α) (s : List α) : List α × List α :=
  let last := (s.reverse.takeWhile (· ≠ c)).reverse
  ((s.reverse.dropWhile (· ≠ c)).tail.reverse, last)

/-- The last cut of a text built around the separator. -/
theorem cutLast_append [DecidableEq α] {c : α} {a x : List α} (hx : c ∉ x) :
    cutLast c (a ++ c :: x) = (a, x) := by
  have hall : ∀ d ∈ x.reverse, (decide (d ≠ c)) = true := by
    intro d hd
    simp only [decide_eq_true_eq]
    rintro rfl
    exact hx (by simpa using hd)
  have hrev : (a ++ c :: x).reverse = x.reverse ++ c :: a.reverse := by simp
  rw [cutLast, hrev, List.takeWhile_append_of_pos hall, List.dropWhile_append_of_pos hall]
  simp

/-- **A cut loses nothing but the separator.** -/
theorem cutLast_eq [DecidableEq α] {c : α} {s : List α} (h : c ∈ s) :
    s = (cutLast c s).1 ++ c :: (cutLast c s).2 := by
  obtain ⟨x, a, hs, hx⟩ := List.eq_append_cons_of_mem (List.mem_reverse.2 h)
  have hs' : s = a.reverse ++ c :: x.reverse := by
    have := congrArg List.reverse hs
    simpa using this
  rw [hs', cutLast_append (by simpa using hx)]

theorem cutLast_of_notMem [DecidableEq α] {c : α} {s : List α} (h : c ∉ s) :
    (cutLast c s).2 = s := by
  have hall : ∀ d ∈ s.reverse, (decide (d ≠ c)) = true := by
    intro d hd
    simp only [decide_eq_true_eq]
    rintro rfl
    exact h (List.mem_reverse.1 hd)
  rw [cutLast, ← List.append_nil s.reverse, List.takeWhile_append_of_pos hall]
  simp

/-! ## Cuts at runs of separators -/

/-- The fields of a text between runs of separators. A run at an end of
the text leaves an empty field there. -/
def splitRuns (p : α → Bool) : List α → List (List α)
  | [] => [[]]
  | c :: s =>
    if p c then
      -- a run is cut at its last separator
      if s.head?.any p then splitRuns p s else [] :: splitRuns p s
    else (splitRuns p s).modifyHead (c :: ·)

/-- A text without separators is one field. -/
theorem splitRuns_eq_singleton {p : α → Bool} {s : List α} (h : ∀ c ∈ s, p c = false) :
    splitRuns p s = [s] := by
  induction s with
  | nil => rfl
  | cons c s ih =>
    rw [List.forall_mem_cons] at h
    rw [splitRuns, if_neg (by simp [h.1]), ih h.2, List.modifyHead_cons]

/-- **A run after a field ends it**, where what follows starts another
one. -/
theorem splitRuns_append {p : α → Bool} {a r t : List α} (ha : ∀ c ∈ a, p c = false) (hne : r ≠ [])
    (hr : ∀ c ∈ r, p c = true) (ht : Fenced (p · = true) t) :
    splitRuns p (a ++ (r ++ t)) = a :: splitRuns p t := by
  induction a with
  | cons c a ih =>
    rw [List.forall_mem_cons] at ha
    rw [List.cons_append, splitRuns, if_neg (by simp [ha.1]), ih ha.2, List.modifyHead_cons]
  | nil =>
    rw [List.nil_append]
    induction r with
    | nil => exact absurd rfl hne
    | cons c r ih =>
      rw [List.forall_mem_cons] at hr
      rw [List.cons_append, splitRuns, if_pos hr.1]
      cases r with
      | nil =>
        have hhead : ¬ t.head?.any p = true := by simpa [Fenced, Option.any_eq_true] using ht
        rw [List.nil_append, if_neg hhead]
      | cons d r =>
        have hd : p d = true := hr.2 d List.mem_cons_self
        rw [if_pos (by simp [hd])]
        exact ih (List.cons_ne_nil _ _) hr.2

/-! ## Replacing -/

/-- Replaces the occurrences of `old`, left to right and without
overlaps, after skipping what is left of the last one replaced. -/
def replaceFrom [DecidableEq α] (old new : List α) : ℕ → List α → List α
  | _, [] => []
  | k + 1, _ :: cs => replaceFrom old new k cs
  | 0, c :: cs =>
    if old.isPrefixOf (c :: cs) then new ++ replaceFrom old new (old.length - 1) cs
    else c :: replaceFrom old new 0 cs

/-- Every occurrence of a text replaced by another one. -/
def replaceAll [DecidableEq α] (old new s : List α) : List α := replaceFrom old new 0 s

/-- A text without occurrences is left as it is. -/
theorem replaceAll_eq_self [DecidableEq α] {old new s : List α}
    (h : ∀ r ∈ s.tails, old.isPrefixOf r = false) : replaceAll old new s = s := by
  induction s with
  | nil => rfl
  | cons c s ih =>
    rw [List.tails, List.forall_mem_cons] at h
    have hrest : replaceFrom old new 0 s = s := ih h.2
    rw [replaceAll, replaceFrom, if_neg (by simp [h.1]), hrest]

/-! ## Decimal numerals -/

/-- The decimal numeral of `n`, padded with zeros to width `w`. -/
def pad (w n : ℕ) : List Char :=
  List.replicate (w - (Nat.toDigits 10 n).length) '0' ++ Nat.toDigits 10 n

theorem isDigit_of_mem_pad {w n : ℕ} {c : Char} (h : c ∈ pad w n) : c.isDigit := by
  rcases List.mem_append.1 h with h | h
  · rw [List.eq_of_mem_replicate h]; decide
  · exact Nat.isDigit_of_mem_toDigits (by decide) (by decide) h

/-- **A numeral has as many digits as its number needs**, but for what
it is padded to. -/
theorem length_pad_le_iff {w n k : ℕ} (hw : w ≤ k) (hk : 0 < k) :
    (pad w n).length ≤ k ↔ n < 10 ^ k := by
  rw [← Nat.length_toDigits_le_iff (by decide) hk, pad, List.length_append, List.length_replicate]
  omega

theorem length_pad_pos (w n : ℕ) : 0 < (pad w n).length := by
  have := Nat.length_toDigits_pos (b := 10) (n := n)
  rw [pad, List.length_append]
  omega

/-- **A padded numeral determines its number.** -/
theorem pad_injective {w w' n m : ℕ} (h : pad w n = pad w' m) : n = m := by
  have hval := congrArg (Nat.ofDigitChars 10 · 0) h
  simpa [pad, Nat.ofDigitChars_append] using hval

/-- **Digits stand for less than a one with as many zeros.** -/
theorem ofDigitChars_lt {ds : List Char} (h : ∀ c ∈ ds, c.isDigit = true) :
    Nat.ofDigitChars 10 ds 0 < 10 ^ ds.length := by
  induction ds with
  | nil => simp
  | cons c ds ih =>
    obtain ⟨hc, hds⟩ := List.forall_mem_cons.1 h
    have hvalue : c.toNat - '0'.toNat ≤ 9 := by
      have hle := (Char.isDigit_iff_toNat.1 hc).2
      have h0 : '0'.toNat = 48 := rfl
      have h9 : '9'.toNat = 57 := rfl
      omega
    have hprod := Nat.mul_le_mul_left (10 ^ ds.length) hvalue
    have := ih hds
    rw [Nat.ofDigitChars_cons, Nat.ofDigitChars_eq_ofDigitChars_zero, List.length_cons, Nat.pow_succ]
    simp only [Nat.mul_zero, Nat.zero_add]
    omega

/-- **A numeral at the end of a text is unique** where what stands before
it does not end in a digit. -/
theorem append_pad_inj {a b : List Char} {w w' n m : ℕ}
    (ha : Fenced (fun c : Char => c.isDigit = true) a.reverse)
    (hb : Fenced (fun c : Char => c.isDigit = true) b.reverse)
    (h : a ++ pad w n = b ++ pad w' m) : a = b ∧ n = m := by
  have hr : (pad w n).reverse ++ a.reverse = (pad w' m).reverse ++ b.reverse := by
    simpa using congrArg List.reverse h
  obtain ⟨hp, hab⟩ := span_inj (p := fun c : Char => c.isDigit = true)
    (fun c hc => isDigit_of_mem_pad (List.mem_reverse.1 hc))
    (fun c hc => isDigit_of_mem_pad (List.mem_reverse.1 hc)) ha hb hr
  exact ⟨List.reverse_injective hab, pad_injective (List.reverse_injective hp)⟩

end Text
