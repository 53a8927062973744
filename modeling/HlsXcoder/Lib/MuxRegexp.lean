import HlsXcoder.Lib.Mux
import HlsXcoder.Lib.Regexp.Parse

/-!
# Patterns read as expressions

The patterns of routes whose syntax the parser covers: they take what the
expression matches, in the order its matches are tried.
-/

namespace Mux

open Regexp

/-- What an expression takes, wherever it stands. -/
def Pattern.ofRe (r : Re) : Pattern where
  takes _ after := (r.run (after, [])).map fun q => (after.take (after.length - q.1.length), q.1)
  numSubexp := r.groups.length
  append_eq before after p hp := by
    obtain ⟨q, hq, rfl⟩ := List.mem_map.1 hp
    obtain ⟨u, hu, -⟩ := lang_of_mem_run r _ q hq
    have hafter : after = u ++ q.1 := hu
    rw [hafter, List.length_append, Nat.add_sub_cancel, List.take_left]

/-- A pattern, compiled. -/
def compilePattern (pattern : List Char) : Option Pattern := (compile pattern).map .ofRe

theorem Pattern.mem_takes_ofRe {r : Re} {before after : List Char} {p : List Char × List Char} :
    p ∈ (Pattern.ofRe r).takes before after ↔ after = p.1 ++ p.2 ∧ r.Lang p.1 := by
  simp only [Pattern.ofRe, List.mem_map]
  constructor
  · rintro ⟨q, hq, rfl⟩
    obtain ⟨u, hu, hl⟩ := lang_of_mem_run r _ q hq
    have hafter : after = u ++ q.1 := hu
    have htake : after.take (after.length - q.1.length) = u := by
      rw [hafter, List.length_append, Nat.add_sub_cancel, List.take_left]
    rw [htake]
    exact ⟨hafter, hl⟩
  · rintro ⟨rfl, hl⟩
    obtain ⟨c, hc⟩ := mem_run_of_lang r p.1 p.2 [] hl
    exact ⟨_, hc, by simp⟩

/-! ## What a template reads -/

/-- **A template made of elements reads a path**: its texts stand there as
they are, and its variables for texts their expressions describe, which
are the values. -/
inductive Reads : List Elem → List Char → List (List Char × List Char) → Prop
  | nil : Reads [] [] []
  | word {t path : List Char} {es : List Elem} {vs : List (List Char × List Char)} :
      Reads es path vs → Reads (.word t :: es) ('/' :: (t ++ path)) vs
  | var {t p path : List Char} {r : Re} {es : List Elem} {vs : List (List Char × List Char)} :
      compile (nameAndPattern t).2 = some r → r.Lang p → Reads es path vs →
      Reads (.var t :: es) ('/' :: (p ++ path)) (((nameAndPattern t).1, p) :: vs)

variable {es es' : List Elem} {path : List Char} {vs : List (List Char × List Char)}

/-- **The matches of a template are what it reads.** -/
theorem mem_matchFrom_iff {cur before after : List Char} {r : List (Piece Var)}
    (hr : newVars compilePattern (pieces cur es) = .ok r) :
    vs ∈ matchFrom r before after ↔ ∃ path, after = cur ++ path ∧ Reads es path vs := by
  -- on the elements: the text behind the last variable waits in `cur`
  induction es generalizing cur before after r vs with
  | nil =>
    obtain rfl := Except.ok.inj hr
    constructor
    · intro h
      rw [matchFrom] at h
      split at h
      · rename_i hpre
        obtain ⟨rest, rfl⟩ := hpre
        rw [List.drop_left, matchFrom] at h
        split at h
        · rename_i hrest
          obtain rfl := List.mem_singleton.1 h
          exact ⟨rest, rfl, hrest ▸ .nil⟩
        · cases h
      · cases h
    · rintro ⟨path, rfl, hreads⟩
      cases hreads
      simp [matchFrom]
  | cons e es ih =>
    cases e with
    | word t =>
      rw [ih hr]
      constructor
      · rintro ⟨path, rfl, hreads⟩
        exact ⟨_, by simp, hreads.word⟩
      · rintro ⟨_, rfl, hreads⟩
        cases hreads with
        | word hreads => exact ⟨_, by simp, hreads⟩
    | var t =>
      obtain ⟨v, r', hv, hr', rfl⟩ := newVars_lit_var hr
      obtain ⟨hname, hpattern⟩ := newVar_eq_ok hv
      obtain ⟨re, hre, hre'⟩ := Option.map_eq_some_iff.1 hpattern
      constructor
      · intro h
        rw [matchFrom] at h
        split at h
        · rename_i hpre
          obtain ⟨rest, rfl⟩ := hpre
          rw [List.drop_left, matchFrom, List.mem_flatMap] at h
          obtain ⟨p, hp, h⟩ := h
          obtain ⟨vs', hvs', rfl⟩ := List.mem_map.1 h
          rw [← hre', Pattern.mem_takes_ofRe] at hp
          obtain ⟨path, hpath, hreads⟩ := (ih hr').1 hvs'
          rw [List.nil_append] at hpath
          rw [hname]
          refine ⟨_, ?_, .var hre hp.2 hreads⟩
          rw [hp.1, hpath]
          simp
        · cases h
      · rintro ⟨_, rfl, hreads⟩
        cases hreads with
        | @var _ p path re' _ vs' hre'' hl hreads =>
          obtain rfl : re = re' := Option.some.inj (hre.symm.trans hre'')
          have hpre : cur ++ ['/'] <+: cur ++ '/' :: (p ++ path) := ⟨p ++ path, by simp⟩
          have hdrop : (cur ++ '/' :: (p ++ path)).drop (cur ++ ['/']).length = p ++ path := by
            simp
          rw [matchFrom, if_pos hpre, hdrop, matchFrom, List.mem_flatMap]
          refine ⟨(p, path), ?_, List.mem_map.2 ⟨vs', (ih hr').2 ⟨path, rfl, hreads⟩, ?_⟩⟩
          · rw [← hre', Pattern.mem_takes_ofRe]
            exact ⟨rfl, hl⟩
          · rw [hname]

theorem reads_append : Reads (es ++ es') path vs ↔ ∃ p₁ vs₁ p₂ vs₂, Reads es p₁ vs₁ ∧
    Reads es' p₂ vs₂ ∧ path = p₁ ++ p₂ ∧ vs = vs₁ ++ vs₂ := by
  induction es generalizing path vs with
  | nil =>
    constructor
    · exact fun h => ⟨[], [], path, vs, .nil, h, rfl, rfl⟩
    · rintro ⟨_, _, _, _, h₁, h₂, rfl, rfl⟩
      cases h₁
      exact h₂
  | cons e es ih =>
    constructor
    · intro h
      cases h with
      | word h =>
        obtain ⟨p₁, vs₁, p₂, vs₂, h₁, h₂, rfl, rfl⟩ := ih.1 h
        exact ⟨_, _, _, _, h₁.word, h₂, by simp, rfl⟩
      | var hre hl h =>
        obtain ⟨p₁, vs₁, p₂, vs₂, h₁, h₂, rfl, rfl⟩ := ih.1 h
        exact ⟨_, _, _, _, .var hre hl h₁, h₂, by simp, rfl⟩
    · rintro ⟨_, _, p₂, vs₂, h₁, h₂, rfl, rfl⟩
      cases h₁ with
      | @word t _ _ _ h₁ =>
        have h := Reads.word (t := t) (ih.2 ⟨_, _, _, _, h₁, h₂, rfl, rfl⟩)
        simpa using h
      | var hre hl h₁ =>
        have h := Reads.var hre hl (ih.2 ⟨_, _, _, _, h₁, h₂, rfl, rfl⟩)
        simpa using h

theorem Reads.exists_slash (h : Reads es path vs) (hne : es ≠ []) : ∃ t, path = '/' :: t := by
  cases h with
  | nil => exact absurd rfl hne
  | word h => exact ⟨_, rfl⟩
  | var hre hl h => exact ⟨_, rfl⟩

theorem Reads.of_var {t : List Char} (h : Reads [.var t] path vs) :
    ∃ r p, compile (nameAndPattern t).2 = some r ∧ r.Lang p ∧ path = '/' :: p := by
  cases h with
  | var hre hl h =>
    cases h
    exact ⟨_, _, hre, hl, by simp⟩

/-- The patterns of an element compile, without groups of their own. -/
def Elem.compiles : Elem → Bool
  | .word _ => true
  | .var t => !(nameAndPattern t).1.isEmpty && !(nameAndPattern t).2.isEmpty &&
      (compile (nameAndPattern t).2).any fun r => r.groups.isEmpty

theorem newVars_pieces (h : ∀ e ∈ es, e.compiles = true) (cur : List Char) :
    ∃ r, newVars compilePattern (pieces cur es) = .ok r ∧ numSubexp r = 0 := by
  induction es generalizing cur with
  | nil => exact ⟨_, rfl, rfl⟩
  | cons e es ih =>
    rw [List.forall_mem_cons] at h
    cases e with
    | word t => exact ih h.2 _
    | var t =>
      obtain ⟨r', hr', hnum⟩ := ih h.2 []
      have hc := h.1
      simp only [Elem.compiles, Bool.and_eq_true, Bool.not_eq_true', List.isEmpty_eq_false_iff,
        Option.any_eq_true, List.isEmpty_iff] at hc
      obtain ⟨⟨hname, hpatt⟩, re, hre, hgroups⟩ := hc
      have hv : newVar compilePattern t = .ok ⟨(nameAndPattern t).1, .ofRe re⟩ := by
        rw [newVar, if_neg (not_or.2 ⟨hname, hpatt⟩), compilePattern, hre]
        rfl
      refine ⟨.lit (cur ++ ['/']) :: .var ⟨(nameAndPattern t).1, .ofRe re⟩ :: r', ?_, ?_⟩
      · rw [pieces, newVars, newVars, hv, hr']
        rfl
      · simp [numSubexp, Pattern.ofRe, hgroups, hnum]

/-- **A template made of elements has an expression**, where their braces
balance and their patterns compile. -/
theorem newRouteRegexp_template (hb : ∀ e ∈ es, e.Balanced) (hc : ∀ e ∈ es, e.compiles = true) :
    ∃ r, newRouteRegexp compilePattern (template es) = .ok r ∧
      newVars compilePattern (pieces [] es) = .ok r := by
  obtain ⟨r, hr, hnum⟩ := newVars_pieces hc []
  refine ⟨r, ?_, hr⟩
  rw [newRouteRegexp, bracePieces_template hb]
  simp [hr, hnum, bind, Except.bind]

/-! ## A text before the elements -/

/-- A meaning of all patterns, which is that of the parser where it covers
them. -/
def Covers (compile : List Char → Option Pattern) : Prop :=
  ∀ t r, Regexp.compile t = some r → compile t = some (.ofRe r)

theorem covers_compilePattern : Covers compilePattern := by
  intro t r h
  rw [compilePattern, h, Option.map_some]

section Text

variable {compile : List Char → Option Pattern}

theorem Covers.newVars_pieces (hcompile : Covers compile) (h : ∀ e ∈ es, e.compiles = true)
    (cur : List Char) : newVars compile (pieces cur es) = newVars compilePattern (pieces cur es) := by
  induction es generalizing cur with
  | nil => rfl
  | cons e es ih =>
    rw [List.forall_mem_cons] at h
    cases e with
    | word t => exact ih h.2 _
    | var t =>
      have hc := h.1
      simp only [Elem.compiles, Bool.and_eq_true, Bool.not_eq_true', List.isEmpty_eq_false_iff,
        Option.any_eq_true, List.isEmpty_iff] at hc
      obtain ⟨-, re, hre, -⟩ := hc
      have hv : newVar compile t = newVar compilePattern t := by
        rw [newVar, newVar, hcompile _ _ hre, covers_compilePattern _ _ hre]
      rw [pieces, newVars, newVars, newVars, newVars, hv, ih h.2]

variable (hb : ∀ e ∈ es, e.Balanced) {s : List Char}

/-- What the pieces of a template come to. -/
theorem newRouteRegexp_eq_ok_iff {tpl : List Char} {ps : List (Piece (List Char))}
    (hps : bracePieces tpl = some ps) {r : List (Piece Var)} :
    newRouteRegexp compile tpl = .ok r ↔ newVars compile ps = .ok r ∧ numSubexp r = 0 := by
  rw [newRouteRegexp, hps]
  cases hr : newVars compile ps with
  | error f => simp [hr, bind, Except.bind]
  | ok r' =>
    simp only [hr, bind, Except.bind, Except.ok.injEq]
    split
    · rename_i hnum
      constructor
      · intro h
        obtain rfl := Except.ok.inj h
        exact ⟨rfl, hnum⟩
      · rintro ⟨rfl, -⟩
        rfl
    · rename_i hnum
      constructor
      · intro h
        cases h
      · rintro ⟨rfl, h⟩
        exact absurd h hnum

include hb in
/-- A text that has no expression has none with elements behind it. -/
theorem exists_of_newRouteRegexp_append {r' : List (Piece Var)}
    (h : newRouteRegexp compile (s ++ template es) = .ok r') :
    ∃ r, newRouteRegexp compile s = .ok r := by
  cases hps : bracePieces s with
  | none =>
    rw [newRouteRegexp, bracePieces_append_eq_none hb hps] at h
    cases h
  | some ps =>
    obtain ⟨ps', cur, rfl, hwhole⟩ := exists_bracePieces_append hb hps
    obtain ⟨hvars, hnum⟩ := (newRouteRegexp_eq_ok_iff hwhole).1 h
    rw [newVars_append] at hvars
    cases hr : newVars compile ps' with
    | error f =>
      rw [hr] at hvars
      cases hvars
    | ok r =>
      rw [hr] at hvars
      refine ⟨r ++ [.lit cur], (newRouteRegexp_eq_ok_iff hps).2 ⟨?_, ?_⟩⟩
      · rw [newVars_concat_lit, hr]
        rfl
      · cases hr₂ : newVars compile (pieces cur es) with
        | error f =>
          rw [hr₂] at hvars
          cases hvars
        | ok r₂ =>
          rw [hr₂] at hvars
          obtain rfl : r ++ r₂ = r' := Except.ok.inj hvars
          rw [numSubexp_append] at hnum ⊢
          simp only [numSubexp]
          omega

include hb in
/-- **What a text with elements behind it matches**: what the text takes,
and what the elements read of the rest. -/
theorem newRouteRegexp_append (hcompile : Covers compile) (hc : ∀ e ∈ es, e.compiles = true)
    {r : List (Piece Var)} (hs : newRouteRegexp compile s = .ok r) :
    ∃ r', newRouteRegexp compile (s ++ template es) = .ok r' ∧
      ∀ path vs, vs ∈ matchFrom r' [] path ↔ ∃ q p vs₁ vs₂, path = q ++ p ∧ Takes r [] q p vs₁ ∧
        Reads es p vs₂ ∧ vs = vs₁ ++ vs₂ := by
  obtain ⟨ps, hps, -⟩ := newRouteRegexp_eq_ok hs
  obtain ⟨ps', cur, rfl, hwhole⟩ := exists_bracePieces_append hb hps
  obtain ⟨hvars, hnum⟩ := (newRouteRegexp_eq_ok_iff hps).1 hs
  obtain ⟨r₂, hr₂, hnum₂⟩ := newVars_pieces hc cur
  rw [newVars_concat_lit] at hvars
  cases hr₁ : newVars compile ps' with
  | error f =>
    rw [hr₁] at hvars
    cases hvars
  | ok r₁ =>
    rw [hr₁, Except.map, Except.ok.injEq] at hvars
    subst hvars
    refine ⟨r₁ ++ r₂, (newRouteRegexp_eq_ok_iff hwhole).2 ⟨?_, ?_⟩, fun path vs => ?_⟩
    · rw [newVars_append, hr₁, hcompile.newVars_pieces hc, hr₂]
      rfl
    · rw [numSubexp_append] at hnum ⊢
      omega
    -- the letters the text ends in stand before the elements
    · rw [mem_matchFrom_append]
      constructor
      · rintro ⟨q, rest, vs₁, vs₂, rfl, ht, hm, rfl⟩
        obtain ⟨p, rfl, hreads⟩ := (mem_matchFrom_iff hr₂).1 hm
        exact ⟨q ++ cur, p, vs₁, vs₂, (List.append_assoc ..).symm, takes_concat_lit_iff.2 ⟨q, rfl, ht⟩,
          hreads, rfl⟩
      · rintro ⟨_, p, vs₁, vs₂, rfl, ht, hreads, rfl⟩
        obtain ⟨q, rfl, htakes⟩ := takes_concat_lit_iff.1 ht
        exact ⟨q, cur ++ p, vs₁, vs₂, List.append_assoc .., htakes,
          (mem_matchFrom_iff hr₂).2 ⟨p, rfl, hreads⟩, rfl⟩

end Text

/-- The readings of a path, which for fixed templates compute. -/
def readings (es : List Elem) (path : List Char) : List (List (List Char × List Char)) :=
  match newVars compilePattern (pieces [] es) with
  | .ok r => matchFrom r [] path
  | .error _ => []

theorem mem_readings_iff (hc : ∀ e ∈ es, e.compiles = true) :
    vs ∈ readings es path ↔ Reads es path vs := by
  obtain ⟨r, hr, -⟩ := newVars_pieces hc []
  rw [readings, hr]
  simp [mem_matchFrom_iff hr]

end Mux
