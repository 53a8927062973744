import Mathlib.Data.List.Basic
import Mathlib.Data.List.Infix

/-!
# Directory trees

A path is the list of names from the root, and a tree says what stands at
each path: nothing, a directory or a file, which carries whatever its
writer puts there. The text of a path is resolved against a working
directory name by name, without looking at the tree: empty names and dots
are dropped and two dots go up.

That is where a file system finds it when the text is straight
(`IsStraight`): two dots behind a name would go up from wherever that name
is, which takes it to be there.

The operations are those of a file system whose permissions never refuse
them: removing a path with all below it, making a directory with all
above it, and creating a file. What each leaves alone is stated with it.
-/

namespace FileTree

abbrev Name := List Char

abbrev Path := List Name

/-! ## Paths as texts -/

/-- One more element of the text of a path. -/
def walk (p : Path) (e : Name) : Path :=
  if e = [] ∨ e = ['.'] then p else if e = ['.', '.'] then p.dropLast else p ++ [e]

/-- The path a text stands for. -/
def resolve (cwd : Path) (s : List Char) : Path :=
  (s.splitOn '/').foldl walk (if s.head? = some '/' then [] else cwd)

/-- **A text whose double dots all come first**, and which does not end in a
dot, which a removal refuses. -/
structure IsStraight (s : List Char) : Prop where
  up : ∀ e ∈ (s.splitOn '/').dropWhile (fun e => e ∈ [[], ['.'], ['.', '.']]), e ≠ ['.', '.']
  ne_dot : (s.splitOn '/').getLast? ≠ some ['.']

instance : DecidablePred IsStraight := fun s =>
  decidable_of_iff ((∀ e ∈ (s.splitOn '/').dropWhile (fun e => e ∈ [[], ['.'], ['.', '.']]),
      e ≠ ['.', '.']) ∧ (s.splitOn '/').getLast? ≠ some ['.'])
    ⟨fun h => ⟨h.1, h.2⟩, fun h => ⟨h.up, h.ne_dot⟩⟩

/-- A text that stands for one name below any directory. -/
structure IsName (e : Name) : Prop where
  noSlash : '/' ∉ e
  ne_nil : e ≠ []
  ne_dot : e ≠ ['.']
  ne_dots : e ≠ ['.', '.']

instance : DecidablePred IsName := fun e =>
  decidable_of_iff ('/' ∉ e ∧ e ≠ [] ∧ e ≠ ['.'] ∧ e ≠ ['.', '.'])
    ⟨fun h => ⟨h.1, h.2.1, h.2.2.1, h.2.2.2⟩, fun h => ⟨h.noSlash, h.ne_nil, h.ne_dot, h.ne_dots⟩⟩

/-- **A name after a slash is one more step down.** -/
theorem resolve_append_name {s : List Char} {e : Name} (cwd : Path) (hs : s ≠ []) (he : IsName e) :
    resolve cwd (s ++ '/' :: e) = resolve cwd s ++ [e] := by
  have hhead : (s ++ '/' :: e).head? = s.head? := by
    cases s with
    | nil => exact absurd rfl hs
    | cons c s => rfl
  rw [resolve, resolve, hhead, List.splitOn_append_cons_self, List.splitOn_eq_singleton he.noSlash,
    List.foldl_append, List.foldl_cons, List.foldl_nil, walk]
  rw [if_neg (not_or.2 ⟨he.ne_nil, he.ne_dot⟩), if_neg he.ne_dots]

/-- A name keeps a text straight. -/
theorem IsStraight.append_name {s : List Char} {e : Name} (hs : IsStraight s) (he : IsName e) :
    IsStraight (s ++ '/' :: e) := by
  have hsplit : (s ++ '/' :: e).splitOn '/' = s.splitOn '/' ++ [e] := by
    rw [List.splitOn_append_cons_self, List.splitOn_eq_singleton he.noSlash]
  constructor
  · intro d hd
    rw [hsplit, List.dropWhile_append] at hd
    split at hd
    · obtain rfl := List.mem_singleton.1 (List.dropWhile_subset _ hd)
      exact he.ne_dots
    · obtain hd | hd := List.mem_append.1 hd
      · exact hs.up d hd
      · obtain rfl := List.mem_singleton.1 hd
        exact he.ne_dots
  · rw [hsplit, List.getLast?_concat]
    exact fun h => he.ne_dot (Option.some.inj h)

theorem not_mem_of_mem_splitOn {α : Type*} [BEq α] [LawfulBEq α] {a : α} {xs e : List α}
    (h : e ∈ xs.splitOn a) : a ∉ e := by
  induction xs generalizing e with
  | nil =>
    obtain rfl : e = [] := by simpa using h
    simp
  | cons x xs ih =>
    rw [List.splitOn_cons_eq_if_modifyHead] at h
    split at h
    · obtain rfl | h := List.mem_cons.1 h
      · simp
      · exact ih h
    · rename_i hx
      cases hxs : xs.splitOn a with
      | nil => exact absurd hxs (List.splitOn_ne_nil a xs)
      | cons y ys =>
        rw [hxs] at h ih
        obtain rfl | h := List.mem_cons.1 h
        · rw [List.mem_cons, not_or]
          exact ⟨fun hax => hx (by simp [hax]), ih List.mem_cons_self⟩
        · exact ih (List.mem_cons_of_mem _ h)

/-- **A path that is resolved is made of names.** -/
theorem isName_of_mem_resolve {cwd : Path} {s : List Char} (hcwd : ∀ e ∈ cwd, IsName e) :
    ∀ e ∈ resolve cwd s, IsName e := by
  have hwalk (es : List Name) (hes : ∀ e ∈ es, '/' ∉ e) (p : Path) (hp : ∀ e ∈ p, IsName e) :
      ∀ e ∈ es.foldl walk p, IsName e := by
    induction es generalizing p with
    | nil => exact hp
    | cons e es ih =>
      rw [List.forall_mem_cons] at hes
      refine ih hes.2 _ ?_
      rw [walk]
      split
      · exact hp
      · rename_i hdot
        split
        · exact fun e' he' => hp e' (List.dropLast_subset p he')
        · rename_i hdots
          rw [List.forall_mem_append, List.forall_mem_singleton]
          exact ⟨hp, hes.1, fun h => hdot (.inl h), fun h => hdot (.inr h), hdots⟩
  refine hwalk _ (fun e he => not_mem_of_mem_splitOn he) _ ?_
  split
  · simp
  · exact hcwd

/-- **A text that only goes down**: names, each after a slash. -/
def IsDescent (s : List Char) : Prop :=
  ∃ es : Path, s = es.flatMap ('/' :: ·) ∧ ∀ e ∈ es, IsName e

theorem isDescent_name {e : Name} (he : IsName e) : IsDescent ('/' :: e) :=
  ⟨[e], by simp, by simpa using he⟩

theorem IsDescent.append {s t : List Char} (hs : IsDescent s) (ht : IsDescent t) :
    IsDescent (s ++ t) := by
  obtain ⟨es, rfl, hes⟩ := hs
  obtain ⟨fs, rfl, hfs⟩ := ht
  exact ⟨es ++ fs, List.flatMap_append.symm, List.forall_mem_append.2 ⟨hes, hfs⟩⟩

/-- A descent splits at each of its slashes into two. -/
theorem IsDescent.split {a b : List Char} (h : IsDescent (a ++ '/' :: b)) :
    IsDescent a ∧ IsDescent ('/' :: b) := by
  obtain ⟨es, heq, hes⟩ := h
  induction es generalizing a with
  | nil => simp at heq
  | cons e es ih =>
    rw [List.forall_mem_cons] at hes
    rw [List.flatMap_cons] at heq
    cases a with
    | nil => exact ⟨⟨[], rfl, by simp⟩, e :: es, heq, List.forall_mem_cons.2 hes⟩
    | cons c a =>
      simp only [List.cons_append, List.cons.injEq] at heq
      obtain ⟨rfl, heq⟩ := heq
      obtain ⟨m, rfl, hm⟩ | ⟨m, rfl, hm⟩ := List.append_eq_append_iff.1 heq
      · -- a name has no slash, so it ends where the first part does
        obtain rfl : m = [] := by
          cases m with
          | nil => rfl
          | cons d m =>
            obtain ⟨rfl, -⟩ := List.cons.inj hm
            exact absurd (by simp) hes.1.noSlash
        rw [List.append_nil] at hes
        exact ⟨isDescent_name hes.1, es, hm, hes.2⟩
      · obtain ⟨ha, hb⟩ := ih hm.symm hes.2
        exact ⟨(isDescent_name hes.1).append ha, hb⟩

/-- **Behind a descent the path of before is still above.** -/
theorem resolve_prefix_append {s t : List Char} (cwd : Path) (hs : s ≠ []) (ht : IsDescent t) :
    resolve cwd s <+: resolve cwd (s ++ t) := by
  obtain ⟨es, rfl, hes⟩ := ht
  induction es using List.reverseRecOn with
  | nil => simp
  | append_singleton es e ih =>
    rw [List.forall_mem_append, List.forall_mem_singleton] at hes
    rw [List.flatMap_append, List.flatMap_singleton, ← List.append_assoc,
      resolve_append_name cwd (by simp [hs]) hes.2]
    exact (ih hes.1).trans (List.prefix_append _ _)

/-- Names after slashes are looked up from the root. -/
theorem resolve_names {es : Path} (hne : es ≠ []) (hes : ∀ e ∈ es, IsName e) (cwd : Path) :
    resolve cwd (es.flatMap ('/' :: ·)) = es := by
  induction es using List.reverseRecOn with
  | nil => exact absurd rfl hne
  | append_singleton es e ih =>
    rw [List.forall_mem_append, List.forall_mem_singleton] at hes
    rw [List.flatMap_append, List.flatMap_singleton]
    cases es with
    | nil =>
      have hsplit : ('/' :: e).splitOn '/' = [[], e] := by
        rw [List.splitOn_cons_eq_if_modifyHead, if_pos (BEq.refl _),
          List.splitOn_eq_singleton hes.2.noSlash]
      have hroot : walk [] [] = [] := rfl
      rw [List.flatMap_nil, List.nil_append, List.nil_append, resolve, hsplit, List.head?_cons,
        if_pos rfl, List.foldl_cons, hroot, List.foldl_cons, List.foldl_nil, walk,
        if_neg (not_or.2 ⟨hes.2.ne_nil, hes.2.ne_dot⟩), if_neg hes.2.ne_dots, List.nil_append]
    | cons e' es =>
      rw [resolve_append_name cwd (by simp) hes.2, ih (by simp) hes.1]

/-! ## Trees -/

inductive Node (γ : Type*) where
  | dir
  | file (c : γ)
  deriving DecidableEq

def Node.isFile {γ : Type*} : Node γ → Bool
  | dir => false
  | file _ => true

abbrev Files (γ : Type*) := Path → Option (Node γ)

variable {γ : Type*}

/-- Removes a path and what is below it. -/
def removeAll (p : Path) (t : Files γ) : Files γ := fun q => if p <+: q then none else t q

/-- A file stands in the way of a directory. -/
def blocked (p : Path) (t : Files γ) : Bool := p.inits.any fun r => (t r).any Node.isFile

/-- Makes a directory and those above it, unless a file stands in the
way. -/
def mkdirAll (p : Path) (t : Files γ) : Files γ := fun q =>
  if blocked p t = false ∧ q <+: p then some .dir else t q

/-- Creates a file, or writes it anew, where its directory exists. -/
def create (p : Path) (c : γ) (t : Files γ) : Option (Files γ) :=
  if (t p.dropLast).any (fun n => !n.isFile) ∧ (t p).all Node.isFile then
    some fun q => if q = p then some (.file c) else t q
  else none

/-- Removes a file. -/
def unlink (p : Path) (t : Files γ) : Files γ := fun q =>
  if q = p ∧ (t p).any Node.isFile then none else t q

variable {p q : Path} {t t' : Files γ} {c : γ}

theorem removeAll_of_le (h : p <+: q) : removeAll p t q = none := if_pos h

theorem removeAll_of_not_le (h : ¬ p <+: q) : removeAll p t q = t q := if_neg h

theorem blocked_eq_false_iff : blocked p t = false ↔ ∀ r, r <+: p → ∀ c, t r ≠ some (.file c) := by
  simp only [blocked, List.any_eq_false, List.mem_inits]
  refine forall₂_congr fun r _ => ?_
  cases t r with
  | none => simp
  | some n => cases n <;> simp [Node.isFile]

/-- Making directories leaves a path as it is, or makes a directory there
where nothing was. -/
theorem mkdirAll_cases (p : Path) (t : Files γ) (q : Path) : mkdirAll p t q = t q ∨
    q <+: p ∧ t q = none ∧ mkdirAll p t q = some .dir := by
  rw [mkdirAll]
  split
  · rename_i h
    have hfile := blocked_eq_false_iff.1 h.1 q h.2
    cases ht : t q with
    | none => exact .inr ⟨h.2, rfl, rfl⟩
    | some n =>
      cases n with
      | dir => exact .inl rfl
      | file c => exact absurd ht (hfile c)
  · exact .inl rfl

theorem mkdirAll_of_not_blocked (h : blocked p t = false) (hq : q <+: p) :
    mkdirAll p t q = some .dir := if_pos ⟨h, hq⟩

theorem mkdirAll_of_blocked (h : blocked p t = true) : mkdirAll p t = t := by
  funext q
  simp [mkdirAll, h]

/-- What creating a file takes and does. -/
theorem create_eq_some (h : create p c t = some t') :
    t p.dropLast = some .dir ∧ t p ≠ some .dir ∧ t' p = some (.file c) ∧
      ∀ q, q ≠ p → t' q = t q := by
  rw [create] at h
  split at h
  · rename_i hc
    obtain rfl := Option.some.inj h
    refine ⟨?_, ?_, if_pos rfl, fun q hq => if_neg hq⟩
    · cases hd : t p.dropLast with
      | none => simp [hd] at hc
      | some n => cases n <;> simp_all [Node.isFile]
    · intro hdir
      simp [hdir, Node.isFile] at hc
  · cases h

theorem unlink_of_ne (h : q ≠ p) : unlink p t q = t q := if_neg fun hc => h hc.1

/-! ## Changes below a directory -/

/-- Between two trees nothing but what is below `R` has changed, save for
directories made above something below it. -/
def Below (R : Path) (t t' : Files γ) : Prop := ∀ q, t' q = t q ∨ R <+: q ∨
  (∃ D, R <+: D ∧ q <+: D) ∧ t q = none ∧ t' q = some .dir

variable {R S : Path}

theorem below_removeAll (h : R <+: p) : Below R t (removeAll p t) := by
  intro q
  by_cases hq : p <+: q
  · exact .inr (.inl (h.trans hq))
  · exact .inl (removeAll_of_not_le hq)

theorem below_mkdirAll (h : R <+: p) : Below R t (mkdirAll p t) := by
  intro q
  obtain heq | ⟨hq, hnone, hdir⟩ := mkdirAll_cases p t q
  · exact .inl heq
  · exact .inr (.inr ⟨⟨p, h, hq⟩, hnone, hdir⟩)

theorem below_create (h : R <+: p) (hc : create p c t = some t') : Below R t t' := by
  intro q
  by_cases hq : q = p
  · exact .inr (.inl (hq ▸ h))
  · exact .inl ((create_eq_some hc).2.2.2 q hq)

theorem below_unlink (h : R <+: p) : Below R t (unlink p t) := by
  intro q
  by_cases hq : q = p
  · exact .inr (.inl (hq ▸ h))
  · exact .inl (unlink_of_ne hq)

/-- **What is below one directory is not touched by changes below
another**, where neither contains the other. -/
theorem Below.eq_of_le (h : Below R t t') (hRS : ¬ R <+: S) (hSR : ¬ S <+: R) (hq : S <+: q) :
    t' q = t q := by
  obtain heq | hR | ⟨⟨D, hD, hqD⟩, -, -⟩ := h q
  · exact heq
  · obtain hc | hc := List.prefix_or_prefix_of_prefix hR hq
    · exact absurd hc hRS
    · exact absurd hc hSR
  · obtain hc | hc := List.prefix_or_prefix_of_prefix hD (hq.trans hqD)
    · exact absurd hc hRS
    · exact absurd hc hSR

/-- Above a directory, such changes at most make the directories that are
missing. -/
theorem Below.cases_of_above (h : Below R t t') (hRS : ¬ R <+: S) (hq : q <+: S) :
    t' q = t q ∨ t q = none ∧ t' q = some .dir := by
  obtain heq | hR | ⟨-, hmade⟩ := h q
  · exact .inl heq
  · exact absurd (hR.trans hq) hRS
  · exact .inr hmade

end FileTree
