import HlsXcoder.Lib.Regexp.Find
import HlsXcoder.Lib.Regexp.Parse
import HlsXcoder.Lib.Text

/-!
# The match that is tried first

A search reports the first of the matches tried at the leftmost place
that has one. Where the text decides every choice, that match is computed
form by form: a literal takes its own text (`run_cat_lit`) and a greedy run
of a class takes all there is of it (`head_run_rep_char`). Places that
start with the wrong character are skipped (`find_append`).
-/

namespace Regexp

namespace Re

/-- **No match is tried** where no piece at the start of the text is
described. -/
theorem run_eq_nil_iff {r : Re} {p : Pos} :
    r.run p = [] ↔ ∀ u t, p.1 = u ++ t → ¬ r.Lang u := by
  rw [List.eq_nil_iff_forall_not_mem]
  constructor
  · rintro h u t hp hl
    obtain ⟨c, hc⟩ := mem_run_of_lang r u t p.2 hl
    rw [← hp] at hc
    exact h _ hc
  · rintro h q hq
    obtain ⟨u, hu, hl⟩ := lang_of_mem_run r p q hq
    exact h u q.1 hu hl

/-- A group takes what its expression takes, and keeps it. -/
theorem head_run_group {i : ℕ} {r : Re} {u t : List Char} {c c' : List (ℕ × List Char)}
    (h : (r.run (u ++ t, c)).head? = some (t, c')) :
    ((Re.group i r).run (u ++ t, c)).head? = some (t, (i, u) :: c') := by
  rw [run, List.head?_map, h]
  simp

/-- A literal before an expression takes its own text. -/
theorem run_cat_lit {w t : List Char} {r : Re} {rs : List Re} {c : List (ℕ × List Char)} :
    (Re.cat ((w.map fun d => .char (.single d)) ++ r :: rs)).run (w ++ t, c) =
      (Re.cat (r :: rs)).run (t, c) := by
  induction w with
  | nil => rfl
  | cons d w ih =>
    have hcat : Re.cat (((d :: w).map fun d => Re.char (.single d)) ++ r :: rs) =
        .seq (.char (.single d)) (.cat ((w.map fun d => .char (.single d)) ++ r :: rs)) := by
      cases w <;> rfl
    have hd : (CharClass.single d).mem d = true := CharClass.mem_single.2 rfl
    rw [hcat, run, List.cons_append]
    simp only [run, hd, if_true, List.flatMap_singleton]
    exact ih

/-- The first of the places that are reached in two steps. -/
theorem head_flatMap {α β : Type*} {xs : List α} {f : α → List β} {x : α} {y : β}
    (hx : xs.head? = some x) (hy : (f x).head? = some y) : (xs.flatMap f).head? = some y := by
  obtain ⟨ys, rfl⟩ := List.head?_eq_some_iff.1 hx
  rw [List.flatMap_cons, List.head?_append, hy, Option.some_or]

/-- A sequence takes what its two parts take, one after the other. -/
theorem head_run_seq {r s : Re} {p q z : Pos} (hr : (r.run p).head? = some q)
    (hs : (s.run q).head? = some z) : ((Re.seq r s).run p).head? = some z :=
  head_flatMap hr hs

/-- Repetition of one step, where it takes each of some texts and nothing
is left for one more round. -/
theorem head_iterate {f : Pos → List Pos} {t : List Char} {c : List (ℕ × List Char)}
    (hstop : f (t, c) = []) {ws : List (List Char)}
    (hround : ∀ a u b, ws = a ++ u :: b →
      (f (u ++ (b.flatten ++ t), c)).head? = some (b.flatten ++ t, c))
    (hne : ∀ u ∈ ws, u ≠ []) :
    ∀ fuel min max, ws.length ≤ fuel → min ≤ ws.length → (∀ n ∈ max, ws.length ≤ n) →
      (iterate f true fuel min max (ws.flatten ++ t, c)).head? = some (t, c) := by
  induction ws with
  | nil =>
    intro fuel min max _ hmin _
    obtain rfl : min = 0 := Nat.le_zero.1 hmin
    cases fuel <;> simp [iterate, hstop]
  | cons u ws ih =>
    intro fuel min max hfuel hmin hmax
    obtain ⟨fuel, rfl⟩ : ∃ n, fuel = n + 1 := ⟨fuel - 1, by simp at hfuel; omega⟩
    rw [List.length_cons] at hfuel hmin
    have hfirst := hround [] u ws rfl
    have hrest := ih (fun a v b hws => hround (u :: a) v b (by rw [hws, List.cons_append]))
      (fun v hv => hne v (List.mem_cons_of_mem _ hv)) fuel (min - 1) (max.map (· - 1)) (by omega)
      (by omega) (fun n hn => by
        obtain ⟨k, hk, rfl⟩ := Option.map_eq_some_iff.1 hn
        have := hmax k hk
        rw [List.length_cons] at this
        omega)
    have hmax0 : max ≠ some 0 := by
      rintro rfl
      have := hmax 0 rfl
      simp at this
    have hshorter : (ws.flatten ++ t).length < (u ++ (ws.flatten ++ t)).length := by
      have := List.length_pos_iff.2 (hne u List.mem_cons_self)
      simp only [List.length_append]
      omega
    rw [List.flatten_cons, List.append_assoc, iterate]
    simp only [if_true, if_neg hmax0, List.head?_append]
    rw [head_flatMap hfirst (by rw [if_pos (.inl hshorter)]; exact hrest), Option.some_or]

/-- **A greedy repetition takes the texts its expression takes**, one after
the other. -/
theorem head_run_rep {r : Re} {min : ℕ} {max : Option ℕ} {t : List Char} {c : List (ℕ × List Char)}
    (hstop : r.run (t, c) = []) {ws : List (List Char)}
    (hround : ∀ a u b, ws = a ++ u :: b →
      (r.run (u ++ (b.flatten ++ t), c)).head? = some (b.flatten ++ t, c))
    (hne : ∀ u ∈ ws, u ≠ []) (hmin : min ≤ ws.length) (hmax : ∀ n ∈ max, ws.length ≤ n) :
    ((Re.rep r min max true).run (ws.flatten ++ t, c)).head? = some (t, c) := by
  have hlength : ws.length ≤ ws.flatten.length := by
    clear hround hmin hmax
    induction ws with
    | nil => exact Nat.le_refl _
    | cons u ws ih =>
      have hu := List.length_pos_iff.2 (hne u List.mem_cons_self)
      have hws := ih fun v hv => hne v (List.mem_cons_of_mem _ hv)
      rw [List.length_cons, List.flatten_cons, List.length_append]
      omega
  exact head_iterate hstop hround hne _ min max (by simp only [List.length_append]; omega) hmin hmax

/-- **A greedy run of a class takes all there is of it**, up to its
bound. -/
theorem head_run_rep_char {k : CharClass} {min : ℕ} {max : Option ℕ} {u t : List Char}
    {c : List (ℕ × List Char)} (hu : ∀ d ∈ u, k.mem d = true)
    (ht : Text.Fenced (fun d => k.mem d = true) t) (hmin : min ≤ u.length)
    (hmax : ∀ n ∈ max, u.length ≤ n) :
    ((Re.rep (.char k) min max true).run (u ++ t, c)).head? = some (t, c) := by
  have hstop : (Re.char k).run (t, c) = [] := by
    cases t with
    | nil => rfl
    | cons d t =>
      have hd := Text.fenced_cons.1 ht
      simp [run, hd]
  have hflatten : (u.map fun d => [d]).flatten = u := by
    rw [← List.flatMap_def, List.flatMap_singleton']
  rw [← hflatten]
  refine head_run_rep hstop (fun a v b hv => ?_) (fun v hv => ?_) (by simpa using hmin)
    (by simpa using hmax)
  · have hmem : v ∈ u.map fun d => [d] := by simp [hv]
    obtain ⟨d, hd, rfl⟩ := List.mem_map.1 hmem
    simp [run, hu d hd]
  · obtain ⟨d, -, rfl⟩ := List.mem_map.1 hv
    simp

/-- An optional expression is taken where it can be. -/
theorem head_run_opt {r : Re} {u t : List Char} {c c' : List (ℕ × List Char)} (hne : u ≠ [])
    (h : (r.run (u ++ t, c)).head? = some (t, c')) :
    ((Re.rep r 0 (some 1) true).run (u ++ t, c)).head? = some (t, c') := by
  have hpos := List.length_pos_iff.2 hne
  obtain ⟨n, hn⟩ : ∃ n, (u ++ t).length + 0 = n + 1 :=
    ⟨u.length + t.length - 1, by rw [List.length_append]; omega⟩
  have hstop : ∀ fuel, (iterate r.run true fuel 0 (some 0) (t, c')).head? = some (t, c') := by
    intro fuel
    cases fuel <;> simp [iterate]
  have hshorter : t.length < (u ++ t).length := by
    rw [List.length_append]
    omega
  rw [run, hn, iterate]
  simp only [if_true, Option.some.injEq, Nat.one_ne_zero, if_false, List.head?_append]
  rw [head_flatMap h (by rw [if_pos (.inl hshorter)]; exact hstop n), Option.some_or]

/-- An optional expression is left out where it can not be taken. -/
theorem head_run_opt_nil {r : Re} {t : List Char} {c : List (ℕ × List Char)}
    (h : r.run (t, c) = []) : ((Re.rep r 0 (some 1) true).run (t, c)).head? = some (t, c) := by
  rw [run]
  cases t.length + 0 <;> simp [iterate, h]

/-! ## Searching -/

/-- The match found is the one tried first, where there is one at the
start of the text. -/
theorem find_of_head {r : Re} {u t : List Char} {c : List (ℕ × List Char)}
    (h : (r.run (u ++ t, [])).head? = some (t, c)) : r.find (u ++ t) = some ⟨u, c⟩ := by
  obtain ⟨qs, hqs⟩ := List.head?_eq_some_iff.1 h
  cases hw : u ++ t with
  | nil =>
    obtain ⟨rfl, rfl⟩ := List.append_eq_nil_iff.1 hw
    rw [List.nil_append] at hqs
    rw [find, hqs]
  | cons d ds =>
    rw [hw] at hqs
    rw [find, hqs, ← hw]
    simp

/-- Places without a match are skipped. -/
theorem find_append {r : Re} {a w : List Char} (h : ∀ d ∈ a, ∀ t, r.run (d :: t, []) = []) :
    r.find (a ++ w) = r.find w := by
  induction a with
  | nil => rfl
  | cons d a ih =>
    rw [List.cons_append, find, h d (by simp)]
    exact ih fun e he => h e (by simp [he])

/-- A literal matches nowhere but at its first character. -/
theorem run_cat_cons_eq_nil {d e : Char} {rs : List Re} {t : List Char} (h : e ≠ d) :
    (Re.cat (.char (.single d) :: rs)).run (e :: t, []) = [] := by
  rw [run_eq_nil_iff]
  rintro u v huv hl
  obtain ⟨x, y, rfl, ⟨f, hf, rfl⟩, -⟩ := lang_cat_cons.1 hl
  rw [CharClass.mem_single.1 hf] at huv
  exact h (List.cons.inj huv).1

end Re

end Regexp
