import Mathlib.Logic.Function.Basic
import Mathlib.Logic.Relation

/-!
# Processes that take turns on a shared state

Each process has a state of its own and all of them have one in common. A
step of a process reads and writes both; a turn is a step of some process,
and a run is a sequence of turns.

What holds in every run is proved process by process (`forall_of_runs`):
an assertion about the state of one process and the shared state must
survive the steps of its own process, and must not be disturbed by a step
of another process whose assertion holds. A single run is found by naming
the order of the turns (`runs_of_schedule`).
-/

namespace Interleaving

variable {ι L G : Type*} [DecidableEq ι]

/-- One step of some process. -/
inductive Turn (step : ι → L → G → L → G → Prop) : (ι → L) × G → (ι → L) × G → Prop
  | turn (i : ι) {ls : ι → L} {g : G} {l' : L} {g' : G} (h : step i (ls i) g l' g') :
      Turn step (ls, g) (Function.update ls i l', g')

/-- Any number of turns. -/
abbrev Runs (step : ι → L → G → L → G → Prop) : (ι → L) × G → (ι → L) × G → Prop :=
  Relation.ReflTransGen (Turn step)

variable {step : ι → L → G → L → G → Prop}

/-- **Assertions that no other process disturbs** hold after every run. -/
theorem forall_of_runs {P : ι → L → G → Prop}
    (own : ∀ i l g l' g', P i l g → step i l g l' g' → P i l' g')
    (undisturbed : ∀ i j, i ≠ j → ∀ l m g m' g', P i l g → P j m g → step j m g m' g' → P i l g')
    {s s' : (ι → L) × G} (hrun : Runs step s s') (h : ∀ i, P i (s.1 i) s.2) (i : ι) :
    P i (s'.1 i) s'.2 := by
  induction hrun generalizing i with
  | refl => exact h i
  | tail _ ht ih =>
    obtain ⟨j, hj⟩ := ht
    by_cases hij : i = j
    · subst hij
      simp only [Function.update_self]
      exact own i _ _ _ _ (ih i) hj
    · simp only [Function.update_of_ne hij]
      exact undisturbed i j hij _ _ _ _ _ (ih i) (ih j) hj

/-- Processes whose step is a function, run in a given order. -/
def schedule (next : ι → L → G → Option (L × G)) : List ι → (ι → L) × G → Option ((ι → L) × G)
  | [], s => some s
  | i :: is, (ls, g) =>
    (next i (ls i) g).bind fun p => schedule next is (Function.update ls i p.1, p.2)

/-- Running in a given order is a run. -/
theorem runs_of_schedule {next : ι → L → G → Option (L × G)} {is : List ι} {s s' : (ι → L) × G}
    (h : schedule next is s = some s') :
    Runs (fun i l g l' g' => next i l g = some (l', g')) s s' := by
  induction is generalizing s with
  | nil =>
    obtain rfl := Option.some.inj h
    exact .refl
  | cons i is ih =>
    obtain ⟨ls, g⟩ := s
    simp only [schedule, Option.bind_eq_some_iff] at h
    obtain ⟨⟨l', g'⟩, hnext, h⟩ := h
    exact .head (.turn i hnext) (ih h)

end Interleaving
