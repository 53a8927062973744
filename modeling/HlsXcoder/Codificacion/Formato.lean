import HlsXcoder.Codificacion.Argumentos
import HlsXcoder.Lib.Text

/-!
# The names ffmpeg's hls muxer makes

The muxer puts numbers into the names it is given: that of a segment
wherever a pattern asks for one, and that of the only variant wherever
`%v` stands, as `replace_int_data_in_filename` reads the whole path. The
check for `%v` takes either case and the scan only the lower one, so
`format_name` refuses a name whose only mark is `%V`.

A slash ends whatever a percent sign began, so a path is read component
by component (`replaceIntDataDesde_barra`, `formatName_barra`).
-/

namespace HlsXcoder

/-- The scan of `replace_int_data_in_filename`: after a percent sign it
holds the digits read since. -/
def replaceIntDataDesde (placeholder : Char) (number : ℕ) : Option (List Char) → List Char → List Char
  | none, [] => []
  | some ds, [] => '%' :: ds
  | none, c :: cs =>
    if c = '%' then replaceIntDataDesde placeholder number (some []) cs
    else c :: replaceIntDataDesde placeholder number none cs
  | some ds, c :: cs =>
    -- `%%` stays as it is
    if c = '%' ∧ ds = [] then '%' :: '%' :: replaceIntDataDesde placeholder number none cs
    else if c.isDigit then replaceIntDataDesde placeholder number (some (ds ++ [c])) cs
    else if c = placeholder then
      Text.pad (valorDecimal ds) number ++ replaceIntDataDesde placeholder number none cs
    else '%' :: ds ++
      if c = '%' then replaceIntDataDesde placeholder number (some []) cs
      else c :: replaceIntDataDesde placeholder number none cs

/-- The name of a segment: its pattern with the number in place. -/
def replaceIntData (pattern : String) (number : ℕ) : String :=
  .ofList (replaceIntDataDesde 'd' number none pattern.toList)

example : replaceIntData "a%%d/b-segment-%03d.ts" 7 = "a%%d/b-segment-007.ts" := by decide +kernel

/-- Whether a pattern asks for a number anywhere, as
`replace_int_data_in_filename` counts. -/
def pideNumeroDesde (placeholder : Char) : Option (List Char) → List Char → Bool
  | _, [] => false
  | none, c :: cs => pideNumeroDesde placeholder (if c = '%' then some [] else none) cs
  | some ds, c :: cs =>
    if c = '%' ∧ ds = [] then pideNumeroDesde placeholder none cs
    else if c.isDigit then pideNumeroDesde placeholder (some (ds ++ [c])) cs
    else if c = placeholder then true
    else pideNumeroDesde placeholder (if c = '%' then some [] else none) cs

def pideNumero (pattern : String) : Bool := pideNumeroDesde 'd' none pattern.toList

/-- Whether a text has the mark of a variant, as `av_stristr` looks for
`%v`. -/
def marcaVariante : List Char → Bool
  | c :: d :: cs => (c = '%' ∧ (d = 'v' ∨ d = 'V') : Bool) || marcaVariante (d :: cs)
  | _ => false

/-- `format_name`, with the index of the only variant. -/
def formatName (buf : String) : Option String :=
  if marcaVariante buf.toList = false then some buf
  else if pideNumeroDesde 'v' none buf.toList then
    some (.ofList (replaceIntDataDesde 'v' 0 none buf.toList))
  else none

example : formatName "salida%v/%03d.ts" = some "salida0/%03d.ts" := by decide +kernel

example : formatName "salida%V/%03d.ts" = none := by decide +kernel

/-- A path up to its last slash, or nothing. -/
def hastaBarra (ruta : String) : String :=
  if '/' ∈ ruta.toList then .ofList ((Text.cutLast '/' ruta.toList).1 ++ ['/']) else ""

/-- A path without its extension. -/
def sinExtension (ruta : String) : String :=
  if '.' ∈ ruta.toList then .ofList (Text.cutLast '.' ruta.toList).1 else ruta

/-- The name of a file without its directory. -/
def avBasename (ruta : String) : String := .ofList (Text.cutLast '/' ruta.toList).2

/-- The directory of a file, the working directory where the name has
none. -/
def avDirname (ruta : String) : String :=
  if '/' ∈ ruta.toList then .ofList (Text.cutLast '/' ruta.toList).1 else "."

/-- A variant is marked in a name or in its directory, not in both. -/
def validateName (fn : String) : Bool :=
  !(marcaVariante (avBasename fn).toList && marcaVariante (avDirname fn).toList)

/-! ## Paths -/

theorem sinExtension_m3u8 (s : String) : sinExtension (s ++ ".m3u8") = s := by
  have hcut : Text.cutLast '.' (s.toList ++ ['.', 'm', '3', 'u', '8']) =
      (s.toList, ['m', '3', 'u', '8']) := Text.cutLast_append (by decide)
  simp [sinExtension, hcut]

theorem hastaBarra_append {s t : String} (ht : '/' ∉ t.toList) :
    hastaBarra (s ++ "/" ++ t) = s ++ "/" := by
  have hcut : Text.cutLast '/' (s.toList ++ '/' :: t.toList) = (s.toList, t.toList) :=
    Text.cutLast_append ht
  apply String.toList_inj.1
  simp [hastaBarra, hcut]

theorem avBasename_append {s t : String} (ht : '/' ∉ t.toList) : avBasename (s ++ "/" ++ t) = t := by
  have hcut : Text.cutLast '/' (s.toList ++ '/' :: t.toList) = (s.toList, t.toList) :=
    Text.cutLast_append ht
  apply String.toList_inj.1
  simp [avBasename, hcut]

theorem avDirname_append {s t : String} (ht : '/' ∉ t.toList) : avDirname (s ++ "/" ++ t) = s := by
  have hcut : Text.cutLast '/' (s.toList ++ '/' :: t.toList) = (s.toList, t.toList) :=
    Text.cutLast_append ht
  apply String.toList_inj.1
  simp [avDirname, hcut]

/-- A path is its directory and its name. -/
theorem hastaBarra_avBasename (ruta : String) : hastaBarra ruta ++ avBasename ruta = ruta := by
  apply String.toList_inj.1
  rw [hastaBarra, avBasename, String.toList_append, String.toList_ofList]
  by_cases h : '/' ∈ ruta.toList
  · rw [if_pos h, String.toList_ofList, List.append_assoc]
    exact (Text.cutLast_eq h).symm
  · rw [if_neg h, Text.cutLast_of_notMem h]
    rfl

/-! ## Patterns -/

/-- **A slash ends whatever a percent sign began**, so a path is numbered
component by component. -/
theorem replaceIntDataDesde_barra (placeholder : Char) (hp : placeholder ≠ '/') (number : ℕ)
    (estado : Option (List Char)) (s t : List Char) :
    replaceIntDataDesde placeholder number estado (s ++ '/' :: t) =
      replaceIntDataDesde placeholder number estado s ++
        '/' :: replaceIntDataDesde placeholder number none t := by
  have hbarra : ('/' : Char).isDigit = false := by decide
  induction s generalizing estado with
  | nil =>
    cases estado with
    | none => simp [replaceIntDataDesde]
    | some ds => simp [replaceIntDataDesde, hbarra, hp.symm]
  | cons c s ih =>
    cases estado with
    | none =>
      simp only [List.cons_append, replaceIntDataDesde, ih]
      split <;> rfl
    | some ds =>
      simp only [List.cons_append, replaceIntDataDesde, ih]
      split
      · rfl
      split
      · rfl
      split
      · simp
      · split <;> simp

/-- A text without percent signs is no pattern. -/
theorem replaceIntDataDesde_literal (placeholder : Char) (number : ℕ) {s : List Char}
    (hs : '%' ∉ s) (t : List Char) :
    replaceIntDataDesde placeholder number none (s ++ t) =
      s ++ replaceIntDataDesde placeholder number none t := by
  induction s with
  | nil => rfl
  | cons c s ih =>
    simp only [List.mem_cons, not_or] at hs
    simp only [List.cons_append, replaceIntDataDesde, if_neg (Ne.symm hs.1), ih hs.2]

theorem replaceIntData_literal {s : String} (hs : '%' ∉ s.toList) (n : ℕ) :
    replaceIntData s n = s := by
  have h := replaceIntDataDesde_literal 'd' n hs []
  rw [List.append_nil] at h
  rw [replaceIntData, h, replaceIntDataDesde, List.append_nil, String.ofList_toList]

/-- A path with the number of a segment in place, or as it stands. -/
def numerado : Option ℕ → String → String
  | none, s => s
  | some n, s => replaceIntData s n

theorem numerado_barra (k : Option ℕ) (s t : String) :
    numerado k (s ++ "/" ++ t) = numerado k s ++ "/" ++ numerado k t := by
  cases k with
  | none => rfl
  | some n =>
    apply String.toList_inj.1
    simp only [numerado, replaceIntData, String.toList_append, String.reduceToList,
      List.append_assoc, List.cons_append, List.nil_append, String.toList_ofList]
    exact replaceIntDataDesde_barra 'd' (by decide) n none _ _

/-- **A number changes no slash**, whatever the pattern. -/
theorem count_replaceIntDataDesde (placeholder : Char) (hp : placeholder ≠ '/') (number : ℕ)
    (estado : Option (List Char)) (hestado : ∀ ds ∈ estado, '/' ∉ ds) (s : List Char) :
    (replaceIntDataDesde placeholder number estado s).count '/' = s.count '/' := by
  have hpad (w : ℕ) : (Text.pad w number).count '/' = 0 :=
    List.count_eq_zero_of_not_mem fun hc => absurd (Text.isDigit_of_mem_pad hc) (by decide)
  induction s generalizing estado with
  | nil =>
    cases estado with
    | none => rfl
    | some ds => simpa [replaceIntDataDesde, List.count_eq_zero] using hestado ds rfl
  | cons c s ih =>
    -- after a pattern, and after the percent sign that opens one
    have hnone := ih none (by simp)
    have hvacio := ih (some []) (by simp)
    cases estado with
    | none =>
      rw [replaceIntDataDesde]
      split
      · rename_i hc
        rw [hvacio, hc, List.count_cons_of_ne (by decide)]
      · rw [List.count_cons, List.count_cons, hnone]
    | some ds =>
      have hds : ds.count '/' = 0 := List.count_eq_zero_of_not_mem (hestado ds rfl)
      rw [replaceIntDataDesde]
      split
      · rename_i hc
        rw [List.count_cons_of_ne (by decide), List.count_cons_of_ne (by decide), hnone, hc.1,
          List.count_cons_of_ne (by decide)]
      split
      -- a digit of the width
      · rename_i hdigit
        have hc : c ≠ '/' := by
          rintro rfl
          exact absurd hdigit (by decide)
        rw [ih (some (ds ++ [c])) (by simpa [hc.symm] using hestado ds rfl),
          List.count_cons_of_ne hc]
      split
      · rename_i hc
        rw [List.count_append, hpad, hnone, Nat.zero_add, hc, List.count_cons_of_ne hp]
      · rw [List.cons_append, List.count_cons_of_ne (by decide), List.count_append, hds, Nat.zero_add]
        split
        · rename_i hc
          rw [hvacio, hc, List.count_cons_of_ne (by decide)]
        · rw [List.count_cons, List.count_cons, hnone]

/-- A numbered path has the slashes of its pattern. -/
theorem count_numerado (k : Option ℕ) (s : String) :
    (numerado k s).toList.count '/' = s.toList.count '/' := by
  cases k with
  | none => rfl
  | some n =>
    rw [numerado, replaceIntData, String.toList_ofList]
    exact count_replaceIntDataDesde 'd' (by decide) n none (by simp) _

theorem numerado_literal {s : String} (hs : '%' ∉ s.toList) (k : Option ℕ) : numerado k s = s := by
  cases k with
  | none => rfl
  | some n => exact replaceIntData_literal hs n

/-- The number in the name of a segment. -/
theorem replaceIntData_numeral {s : String} (hs : '%' ∉ s.toList) {t : String}
    (ht : '%' ∉ t.toList) (n : ℕ) :
    replaceIntData (s ++ "%03d" ++ t) n = s ++ .ofList (Text.pad 3 n) ++ t ∧
      replaceIntData (s ++ "%01d" ++ t) n = s ++ .ofList (Text.pad 1 n) ++ t ∧
      replaceIntData (s ++ "%d" ++ t) n = s ++ .ofList (Text.pad 0 n) ++ t := by
  have h3 : Nat.ofDigitChars 10 ['0', '3'] 0 = 3 := by decide
  have h1 : Nat.ofDigitChars 10 ['0', '1'] 0 = 1 := by decide
  have ht' : replaceIntDataDesde 'd' n none t.toList = t.toList := by
    simpa [replaceIntDataDesde] using replaceIntDataDesde_literal 'd' n ht []
  refine ⟨?_, ?_, ?_⟩ <;>
  · apply String.toList_inj.1
    simp only [replaceIntData, String.toList_append, String.toList_ofList, List.append_assoc,
      replaceIntDataDesde_literal 'd' n hs]
    simp +decide [replaceIntDataDesde, ht', valorDecimal, h3, h1]

/-- A text without percent signs asks for no number. -/
theorem pideNumeroDesde_literal (placeholder : Char) {s : List Char} (hs : '%' ∉ s)
    (t : List Char) :
    pideNumeroDesde placeholder none (s ++ t) = pideNumeroDesde placeholder none t := by
  induction s with
  | nil => rfl
  | cons c s ih =>
    simp only [List.mem_cons, not_or] at hs
    rw [List.cons_append, pideNumeroDesde, if_neg (Ne.symm hs.1)]
    exact ih hs.2

theorem pideNumero_append {s t : String} (hs : '%' ∉ s.toList) :
    pideNumero (s ++ t) = pideNumero t := by
  rw [pideNumero, String.toList_append, pideNumeroDesde_literal 'd' hs]
  rfl

/-! ## Variants -/

theorem pideNumeroDesde_barra (placeholder : Char) (hp : placeholder ≠ '/')
    (estado : Option (List Char)) (s t : List Char) :
    pideNumeroDesde placeholder estado (s ++ '/' :: t) =
      (pideNumeroDesde placeholder estado s || pideNumeroDesde placeholder none t) := by
  have hbarra : ('/' : Char).isDigit = false := by decide
  induction s generalizing estado with
  | nil =>
    cases estado with
    | none => simp [pideNumeroDesde]
    | some ds => simp [pideNumeroDesde, hbarra, hp.symm]
  | cons c s ih =>
    cases estado with
    | none => simp only [List.cons_append, pideNumeroDesde, ih]
    | some ds =>
      simp only [List.cons_append, pideNumeroDesde, ih]
      split
      · rfl
      split
      · rfl
      split
      · rfl
      · rfl

theorem marcaVariante_barra (s t : List Char) :
    marcaVariante (s ++ '/' :: t) = (marcaVariante s || marcaVariante t) := by
  have hbarra (t : List Char) : marcaVariante ('/' :: t) = marcaVariante t := by
    cases t with
    | nil => rfl
    | cons c t => simp [marcaVariante]
  induction s with
  | nil => simpa [marcaVariante] using hbarra t
  | cons c s ih =>
    cases s with
    | nil => simp [marcaVariante, hbarra]
    | cons d s =>
      simp only [List.cons_append, marcaVariante] at ih ⊢
      rw [ih, Bool.or_assoc]

/-- A text without percent signs marks no variant. -/
theorem marcaVariante_literal {s : List Char} (hs : '%' ∉ s) (t : List Char) :
    marcaVariante (s ++ t) = marcaVariante t := by
  induction s with
  | nil => rfl
  | cons c s ih =>
    rw [List.mem_cons, not_or] at hs
    rw [← ih hs.2, List.cons_append]
    cases s ++ t with
    | nil => rfl
    | cons d u => simp [marcaVariante, Ne.symm hs.1]

/-- Where no number is asked for none is put. -/
theorem replaceIntDataDesde_of_not_pide {placeholder : Char} {estado : Option (List Char)}
    {s : List Char} (h : pideNumeroDesde placeholder estado s = false) (number : ℕ) :
    replaceIntDataDesde placeholder number estado s = estado.elim [] ('%' :: ·) ++ s := by
  induction s generalizing estado with
  | nil => cases estado <;> simp [replaceIntDataDesde]
  | cons c s ih =>
    cases estado with
    | none =>
      rw [pideNumeroDesde] at h
      rw [replaceIntDataDesde]
      split at h
      · rename_i hc
        rw [if_pos hc, ih h, hc]
        rfl
      · rename_i hc
        rw [if_neg hc, ih h]
        rfl
    | some ds =>
      rw [pideNumeroDesde] at h
      rw [replaceIntDataDesde]
      split at h
      · rename_i hc
        rw [if_pos hc, ih h, hc.1, hc.2]
        rfl
      rename_i hc
      rw [if_neg hc]
      split at h
      · rename_i hdigit
        rw [if_pos hdigit, ih h]
        simp
      rename_i hdigit
      rw [if_neg hdigit]
      split at h
      · cases h
      rename_i hno
      rw [if_neg hno]
      split at h
      · rename_i hp
        rw [if_pos hp, ih h, hp]
        simp
      · rename_i hp
        rw [if_neg hp, ih h]
        simp

/-- **A name without a mark leaves the variant to its directory.** -/
theorem formatName_barra {t : String} (hmarca : marcaVariante t.toList = false)
    (hpide : pideNumeroDesde 'v' none t.toList = false) (s : String) :
    formatName (s ++ "/" ++ t) = (formatName s).map (· ++ "/" ++ t) := by
  have htexto : (s ++ "/" ++ t).toList = s.toList ++ '/' :: t.toList := by simp
  rw [formatName, formatName, htexto, marcaVariante_barra, hmarca, Bool.or_false,
    pideNumeroDesde_barra 'v' (by decide), hpide, Bool.or_false,
    replaceIntDataDesde_barra 'v' (by decide), replaceIntDataDesde_of_not_pide hpide]
  split
  · rfl
  split
  · rw [Option.map_some, Option.some.injEq, ← String.toList_inj]
    simp
  · rfl

theorem formatName_literal {s : String} (hs : '%' ∉ s.toList) : formatName s = some s := by
  have hmarca := marcaVariante_literal hs []
  rw [List.append_nil] at hmarca
  exact if_pos hmarca

theorem validateName_append {s t : String} (ht : '/' ∉ t.toList)
    (hmarca : marcaVariante t.toList = false) : validateName (s ++ "/" ++ t) = true := by
  rw [validateName, avBasename_append ht, hmarca, Bool.false_and, Bool.not_false]

theorem marcaVariante_barra_literal {t : String} (ht : '%' ∉ t.toList) (s : String) :
    marcaVariante (s ++ "/" ++ t).toList = marcaVariante s.toList := by
  have htexto : (s ++ "/" ++ t).toList = s.toList ++ '/' :: t.toList := by simp
  have hmarca : marcaVariante t.toList = false := by
    simpa [marcaVariante] using marcaVariante_literal ht []
  rw [htexto, marcaVariante_barra, hmarca, Bool.or_false]

theorem formatName_barra_literal {t : String} (ht : '%' ∉ t.toList) (s : String) :
    formatName (s ++ "/" ++ t) = (formatName s).map (· ++ "/" ++ t) := by
  have hmarca := marcaVariante_literal ht []
  have hpide := pideNumeroDesde_literal 'v' ht []
  rw [List.append_nil] at hmarca hpide
  exact formatName_barra hmarca hpide s

/-- A component without percent signs stays where it stands. -/
theorem exists_of_formatName_eq {s d t s' : String} (hd : '%' ∉ d.toList)
    (h : formatName (s ++ "/" ++ d ++ "/" ++ t) = some s') :
    ∃ p r, s' = p ++ "/" ++ d ++ "/" ++ r ∧ p.toList.count '/' = s.toList.count '/' := by
  have htexto : (s ++ "/" ++ d ++ "/" ++ t).toList =
      s.toList ++ '/' :: (d.toList ++ '/' :: t.toList) := by simp
  have hliteral := replaceIntDataDesde_literal 'v' 0 hd []
  rw [List.append_nil, replaceIntDataDesde, List.append_nil] at hliteral
  rw [formatName] at h
  split at h
  · obtain rfl := Option.some.inj h
    exact ⟨s, t, rfl, rfl⟩
  split at h
  · obtain rfl := Option.some.inj h
    refine ⟨.ofList (replaceIntDataDesde 'v' 0 none s.toList),
      .ofList (replaceIntDataDesde 'v' 0 none t.toList), ?_, ?_⟩
    · rw [htexto, replaceIntDataDesde_barra 'v' (by decide), replaceIntDataDesde_barra 'v' (by decide),
        hliteral, ← String.toList_inj]
      simp
    · rw [String.toList_ofList]
      exact count_replaceIntDataDesde 'v' (by decide) 0 none (by simp) _
  · cases h

/-- **A variant changes no slash** either. -/
theorem count_formatName {s s' : String} (h : formatName s = some s') :
    s'.toList.count '/' = s.toList.count '/' := by
  rw [formatName] at h
  split at h
  · rw [Option.some.inj h]
  split at h
  · rw [← Option.some.inj h, String.toList_ofList]
    exact count_replaceIntDataDesde 'v' (by decide) 0 none (by simp) _
  · cases h

end HlsXcoder
