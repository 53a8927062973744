import HlsXcoder.Codificacion.Origenes

/-!
# The rate caps

The cap of a bitrate is computed from its first two digits, as seven per
cent above a bitrate of four digits (`calcularBitrateMaximo_digitos`). On
others it is no cap: it is far above three digits, and below any bitrate
of five or more. Which bitrates it covers depends on the number of digits
(`topeSuficiente_iff`), and whether it grows with them on the first two
alone.

An output has a cap where it has a bitrate, and the cap is that of the
bitrate (`tasas_salidas`).
-/

namespace HlsXcoder

open OptionGroups

/-- The number a numeral stands for. -/
def numero (b : String) : ℕ := valorDecimal b.toList

/-- The number of its first two digits. -/
def cabeza (b : String) : ℕ := valorDecimal (b.toList.take 2)

/-- A non-empty text of decimal digits. -/
def EsNumeral (b : String) : Prop := b ≠ "" ∧ b.toList.all Char.isDigit = true

instance : DecidablePred EsNumeral := fun _ => inferInstanceAs (Decidable (_ ∧ _))

/-- A bitrate with a cap that is a numeral and not below it. -/
def TopeSuficiente (b : String) : Prop :=
  ∃ m, calcularBitrateMaximo b = some m ∧ EsNumeral m ∧ numero b ≤ numero m

/-- **The cap is never below the rate**: not for a bitrate of the
encoding, not in an output of its command, and it grows with the
bitrates. -/
structure TopesCorrectos (configuration : Config) (programa : Programa)
    (encoding : Option Codificacion) : Prop where
  suficiente : ∀ b ∈ bitratesDe encoding, TopeSuficiente b
  monotono : ∀ b ∈ bitratesDe encoding, ∀ b' ∈ bitratesDe encoding, numero b ≤ numero b' →
    ∀ m ∈ calcularBitrateMaximo b, ∀ m' ∈ calcularBitrateMaximo b', numero m ≤ numero m'
  salidas : ∀ orden, comandoFfmpeg configuration programa encoding = some orden →
    ∀ x ∈ orden.outputs, ∀ b m, ⟨"-b:v", some (b ++ "k")⟩ ∈ x.opts →
      ⟨"-maxrate", some (m ++ "k")⟩ ∈ x.opts → numero b ≤ numero m

/-- A bitrate that its cap covers: of two digits, of three with the first
not zero, of four where the last two are at most seven times the first, or
zero. -/
def Cubierto (b : String) : Prop :=
  2 ≤ b.length ∧ (b.length = 2 ∨ b.length = 3 ∧ 10 ≤ numero b ∨
    b.length = 4 ∧ numero b % 100 ≤ 7 * (numero b / 100) ∨ numero b = 0)

instance : DecidablePred Cubierto := fun _ => inferInstanceAs (Decidable (_ ∧ _))

/-! ## The cap of a numeral -/

theorem numero_toString (n : ℕ) : numero (toString n) = n := by
  rw [numero, valorDecimal, Nat.toString_eq_repr, Nat.repr, String.toList_ofList]
  exact Nat.ofDigitChars_ten_toDigits

theorem esNumeral_toString (n : ℕ) : EsNumeral (toString n) := by
  refine ⟨?_, List.all_eq_true.2 fun c hc => ?_⟩
  · simp [Nat.toString_eq_repr, Nat.repr]
  · rw [Nat.toString_eq_repr, Nat.repr, String.toList_ofList] at hc
    exact Nat.isDigit_of_mem_toDigits (by decide) (by decide) hc

/-- **The cap of two digits or more**: 107 times what the first two stand
for. -/
theorem calcularBitrateMaximo_digitos {b : String} (hb : EsNumeral b) (hlen : 2 ≤ b.length) :
    calcularBitrateMaximo b = some (toString (107 * cabeza b)) := by
  obtain ⟨c, d, ds, hcd⟩ : ∃ c d ds, b.toList = c :: d :: ds := by
    rw [← String.length_toList] at hlen
    match b.toList, hlen with
    | c :: d :: ds, _ => exact ⟨c, d, ds, rfl⟩
  have hdigits := hb.2
  rw [hcd] at hdigits
  simp only [List.all_cons, Bool.and_eq_true] at hdigits
  have hnum : atoi [c, d] = some (cabeza b : Int) := by
    have hsign : ∀ e : Char, e.isDigit = true → e ≠ '-' ∧ e ≠ '+' := by
      rintro e he
      refine ⟨?_, ?_⟩ <;> (rintro rfl; revert he; decide)
    obtain ⟨hminus, hplus⟩ := hsign c hdigits.1
    simp [atoi, hminus, hplus, hdigits.1, hdigits.2.1, cabeza, hcd]
  have hsum : 7 * (cabeza b : Int) + (cabeza b : Int) * 100 = ((107 * cabeza b : ℕ) : Int) := by
    omega
  rw [calcularBitrateMaximo, hcd]
  simp only [hnum, hsum]
  rfl

/-- One digit is sliced out of range. -/
theorem calcularBitrateMaximo_cifra {b : String} (hb : EsNumeral b) (hlen : b.length < 2) :
    calcularBitrateMaximo b = none := by
  rw [← Option.not_isSome_iff_eq_none]
  intro h
  have := (esBitrate_of_isSome hb.2 h).1
  omega

/-- A bitrate, cut after its first two digits. -/
theorem numero_eq {b : String} (hb : EsNumeral b) :
    ∃ r < 10 ^ (b.length - 2), numero b = 10 ^ (b.length - 2) * cabeza b + r := by
  have hsplit := List.take_append_drop 2 b.toList
  have hdrop : (b.toList.drop 2).length = b.length - 2 := by
    rw [List.length_drop, String.length_toList]
  refine ⟨valorDecimal (b.toList.drop 2), ?_, ?_⟩
  · rw [← hdrop]
    exact Text.ofDigitChars_lt fun c hc => List.all_eq_true.1 hb.2 c (List.mem_of_mem_drop hc)
  · rw [numero, ← hsplit, valorDecimal, Nat.ofDigitChars_append, Nat.ofDigitChars_eq_ofDigitChars_zero,
      hdrop, hsplit]
    rfl

/-- **Which bitrates their cap covers.** -/
theorem topeSuficiente_iff {b : String} (hb : EsNumeral b) : TopeSuficiente b ↔ Cubierto b := by
  by_cases hlen : 2 ≤ b.length
  · have hsuf : TopeSuficiente b ↔ numero b ≤ 107 * cabeza b := by
      rw [TopeSuficiente, calcularBitrateMaximo_digitos hb hlen]
      constructor
      · rintro ⟨m, hm, -, hle⟩
        rwa [← Option.some.inj hm, numero_toString] at hle
      · intro hle
        exact ⟨_, rfl, esNumeral_toString _, by rwa [numero_toString]⟩
    obtain ⟨r, hr, hnumero⟩ := numero_eq hb
    rw [hsuf, Cubierto, hnumero]
    generalize cabeza b = n at *
    obtain ⟨k, hk⟩ : ∃ k, b.length = k + 2 := ⟨b.length - 2, by omega⟩
    rw [hk, Nat.add_sub_cancel] at hr ⊢
    match k with
    | 0 | 1 | 2 => omega
    | k + 3 =>
      -- from five digits on the cap has too few
      have hpow : 1000 * n ≤ 10 ^ (k + 3) * n := by
        refine Nat.mul_le_mul_right n ?_
        rw [Nat.pow_add]
        exact Nat.le_mul_of_pos_left 1000 (Nat.pow_pos (by decide))
      omega
  · have hnone := calcularBitrateMaximo_cifra hb (by omega)
    simp [TopeSuficiente, hnone, Cubierto, hlen]

/-- **The cap grows with the first two digits.** -/
theorem maximo_le_iff {b b' : String} (hb : EsNumeral b) (hb' : EsNumeral b') (hlen : 2 ≤ b.length)
    (hlen' : 2 ≤ b'.length) :
    (∀ m ∈ calcularBitrateMaximo b, ∀ m' ∈ calcularBitrateMaximo b', numero m ≤ numero m') ↔
      cabeza b ≤ cabeza b' := by
  rw [calcularBitrateMaximo_digitos hb hlen, calcularBitrateMaximo_digitos hb' hlen']
  simp only [Option.mem_def, Option.some.injEq, forall_eq', numero_toString]
  omega

/-! ## The outputs that have a cap -/

/-- The options of the rate. -/
def esTasa (o : Opcion) : Bool := o.flag ∈ ["-b:v", "-maxrate"]

def tasas (os : List Opcion) : List Opcion := os.filter esTasa

theorem tasas_append (a b : List Opcion) : tasas (a ++ b) = tasas a ++ tasas b :=
  List.filter_append _ _

section Salidas

variable {configuration : Config} {programa : Programa} {encoding : Option Codificacion}

theorem tasas_argumentosHLS (seg enc : String) :
    tasas (ffmpeg.options (argumentosHLS configuration programa seg enc)) = [] := by
  refine Admite.filter_eq_nil (((Admite.append ?_ ?_).append ?_).append ?_)
  · simp +decide [Admite, Grammar.options, Grammar.legal, ffmpeg, esTasa]
  · split <;> simp +decide [Admite, Grammar.options, Grammar.legal, ffmpeg, esTasa]
  · split <;> simp +decide [Admite, Grammar.options, Grammar.legal, ffmpeg, esTasa]
  · decide

/-- The rate options of a bitrate. -/
def tasasDe (b : String) : List Opcion :=
  [⟨"-b:v", some (b ++ "k")⟩, ⟨"-maxrate", some ((calcularBitrateMaximo b).getD "" ++ "k")⟩]

/-- **An output has the rate options of a bitrate, or none.** -/
theorem tasas_salida {o : Origen} (ho : o ∈ origenes programa encoding) :
    tasas (o.salida configuration programa encoding).opts = [] ∨
      ∃ b ∈ bitratesDe encoding,
        tasas (o.salida configuration programa encoding).opts = tasasDe b := by
  rw [Origen.salida, tasas_append, tasas_argumentosHLS, List.append_nil]
  cases o with
  | video b =>
    refine .inr ⟨b, video_mem_origenes.1 ho, ?_⟩
    simp +decide [Origen.opciones, tasas, tasasDe, esTasa, Grammar.options, ffmpeg]
  | defecto | teletexto elem =>
    refine .inl ?_
    simp +decide [Origen.opciones, tasas, esTasa, Grammar.options, ffmpeg]
  | audio elem =>
    refine .inl ?_
    simp only [Origen.opciones, opcionesAudio]
    by_cases hc : configuration.audioCodificacion = "" <;>
      by_cases hb : configuration.audioBitrate = "" <;>
        simp +decide [hc, hb, tasas, esTasa, Grammar.options, ffmpeg]
  | quemado b elem index =>
    have hfiltro : tasas (ffmpeg.options (filtroDe configuration programa index)) = [] := by
      unfold filtroDe
      split <;> simp +decide [tasas, esTasa, Grammar.options]
    rw [Origen.opciones, options_append (legales_filtroDe index), tasas_append, hfiltro,
      List.nil_append, opcionesSubtitulo]
    -- with hwaccel it has the rates of its bitrate, in software none
    by_cases hw : configuration.hwaccel = true
    · rw [if_pos hw, options_append (admite_bitrateCommand b).legales, tasas_append]
      have hresto : ∀ codec : String, tasas (ffmpeg.options ["-map", "[sub" ++ itoa index ++ "]",
          "-an", "-sn", "-c:v", codec, "-preset", "llhp", "-profile:v", "baseline", "-zerolatency",
          "1", "-cbr", "1", "-rc", "cbr", "-rc-lookahead", "50"]) = [] := by
        intro codec
        simp +decide [tasas, esTasa, Grammar.options]
      rw [hresto, List.append_nil, bitrateCommand]
      obtain hb | ⟨-, rfl⟩ := (quemado_mem_origenes.1 ho).2.2
      · by_cases hvacio : b = ""
        · exact .inl (by rw [if_pos hvacio]; rfl)
        · rw [if_neg hvacio]
          cases hmax : calcularBitrateMaximo b with
          | none => exact .inl rfl
          | some m =>
            refine .inr ⟨b, hb, ?_⟩
            simp +decide [hmax, tasas, tasasDe, esTasa, Grammar.options, ffmpeg]
      · exact .inl rfl
    · refine .inl ?_
      simp +decide [hw, tasas, esTasa, Grammar.options]

theorem tasas_cabeceraVideo :
    tasas (ffmpeg.options (cabeceraVideo configuration programa encoding)) = [] := by
  unfold cabeceraVideo
  refine Admite.filter_eq_nil ((((Admite.append ?_ ?_).append ?_).append ?_).append ?_)
  · split <;> decide
  · split
    · split <;> simp +decide [Admite, Grammar.options, Grammar.legal, ffmpeg, esTasa]
    · decide
  · split <;> simp +decide [Admite, Grammar.options, Grammar.legal, ffmpeg, esTasa]
  · split
    · split <;> decide
    · decide
  · split <;> decide

/-- **So has every output of a command.** -/
theorem tasas_salidas {x : Salida} (hx : x ∈ salidas configuration programa encoding) :
    tasas x.opts = [] ∨ ∃ b ∈ bitratesDe encoding, tasas x.opts = tasasDe b := by
  obtain rfl | ⟨o, ho, rfl⟩ := mem_salidas hx
  · have hprimera : tasas (primeraSalida configuration programa encoding).opts =
        tasas ((primero encoding).salida configuration programa encoding).opts := by
      rw [primeraSalida, tasas_append, tasas_cabeceraVideo, List.nil_append]
    rw [hprimera]
    exact tasas_salida primero_mem_origenes
  · exact tasas_salida ho

/-- An output with a bitrate and a cap has the cap of its bitrate. -/
theorem maximo_de_salida {x : Salida} (hx : x ∈ salidas configuration programa encoding) {b m : String}
    (hb : ⟨"-b:v", some (b ++ "k")⟩ ∈ x.opts) (hm : ⟨"-maxrate", some (m ++ "k")⟩ ∈ x.opts) :
    b ∈ bitratesDe encoding ∧ m = (calcularBitrateMaximo b).getD "" := by
  have hb' : ⟨"-b:v", some (b ++ "k")⟩ ∈ tasas x.opts :=
    List.mem_filter.2 ⟨hb, by simp [esTasa]⟩
  have hm' : ⟨"-maxrate", some (m ++ "k")⟩ ∈ tasas x.opts :=
    List.mem_filter.2 ⟨hm, by simp [esTasa]⟩
  obtain hnil | ⟨b', hmem, htasas⟩ := tasas_salidas hx
  · rw [hnil] at hb'
    cases hb'
  · rw [htasas] at hb' hm'
    have hbk : b ++ "k" = b' ++ "k" := by simpa +decide [tasasDe] using hb'
    have hmk : m ++ "k" = (calcularBitrateMaximo b').getD "" ++ "k" := by
      simpa +decide [tasasDe] using hm'
    obtain rfl := (String.append_left_inj "k").1 hbk
    exact ⟨hmem, (String.append_left_inj "k").1 hmk⟩

end Salidas

/-- **The caps are never below the rates exactly where** each bitrate is
covered by its cap, and the first two digits grow with the bitrates. -/
theorem topesCorrectos_iff (configuration : Config) (programa : Programa)
    (encoding : Option Codificacion) (hb : ∀ b ∈ bitratesDe encoding, EsNumeral b) :
    TopesCorrectos configuration programa encoding ↔
      (∀ b ∈ bitratesDe encoding, Cubierto b) ∧
        ∀ b ∈ bitratesDe encoding, ∀ b' ∈ bitratesDe encoding,
          numero b ≤ numero b' → cabeza b ≤ cabeza b' := by
  constructor
  · intro h
    have hcubierto : ∀ b ∈ bitratesDe encoding, Cubierto b := fun b hmem =>
      (topeSuficiente_iff (hb b hmem)).1 (h.suficiente b hmem)
    refine ⟨hcubierto, fun b hmem b' hmem' hle => ?_⟩
    exact (maximo_le_iff (hb b hmem) (hb b' hmem') (hcubierto b hmem).1 (hcubierto b' hmem').1).1
      (h.monotono b hmem b' hmem' hle)
  · rintro ⟨hcubierto, hcrece⟩
    have hsuficiente : ∀ b ∈ bitratesDe encoding, TopeSuficiente b := fun b hmem =>
      (topeSuficiente_iff (hb b hmem)).2 (hcubierto b hmem)
    refine ⟨hsuficiente, fun b hmem b' hmem' hle => ?_, fun orden horden x hx b m hbk hmk => ?_⟩
    · exact (maximo_le_iff (hb b hmem) (hb b' hmem') (hcubierto b hmem).1 (hcubierto b' hmem').1).2
        (hcrece b hmem b' hmem' hle)
    · obtain ⟨-, rfl⟩ := comandoFfmpeg_eq_some_iff.1 horden
      obtain ⟨hmem, rfl⟩ := maximo_de_salida hx hbk hmk
      obtain ⟨m, hm, -, hle⟩ := hsuficiente b hmem
      rwa [hm, Option.getD_some]

theorem topesCorrectos_dosTasas : TopesCorrectos .minima default (some ⟨"h264", ["2800", "1400"]⟩) :=
  (topesCorrectos_iff .minima default (some ⟨"h264", ["2800", "1400"]⟩) (by decide)).2
    ⟨by decide, by decide⟩

/-- Twenty megabits are capped at two. -/
theorem not_topesCorrectos : ¬ TopesCorrectos .minima default (some ⟨"h264", ["20000"]⟩) := by
  intro h
  have hsuficiente := (topeSuficiente_iff (by decide)).1 (h.suficiente "20000" (by decide))
  revert hsuficiente
  decide

end HlsXcoder
