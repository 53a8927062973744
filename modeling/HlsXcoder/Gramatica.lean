import HlsXcoder.Entrada
import HlsXcoder.Lib.Regexp.First

/-!
# The grammar of `-cv`

A value of `-cv` is a codec, and the bitrates after a colon if there are
any (`EsValorCv`). Such a value is read as a whole, and read right
(`leer_of_esValorCv`).

The pattern is not anchored, so it is found in every value that has a
character other than the colon, and what it leaves over is dropped: the
values outside the grammar are refused only where they are made of colons
(`leeGramatica_iff`).
-/

namespace HlsXcoder

open Regexp

/-- **A value of the grammar**: a codec of up to ten characters, and
bitrates of up to five digits. -/
structure EsValorCv (s nombre : String) (bitrates : List String) : Prop where
  texto : s = if bitrates = [] then nombre else nombre ++ ":" ++ ",".intercalate bitrates
  nombre : 1 ≤ nombre.length ∧ nombre.length ≤ 10 ∧ ':' ∉ nombre.toList
  bitrates : ∀ b ∈ bitrates, 1 ≤ b.length ∧ b.length ≤ 5 ∧ ∀ c ∈ b.toList, c.isDigit = true

/-- The name of a codec, as the encodings are named. -/
def nombreCodec (nombre : String) : String := String.ofList
  (Text.replaceAll "_nvenc".toList [] (Text.replaceAll "h265".toList "hevc".toList nombre.toList))

/-- **A value is read as the grammar says**: it is accepted where it is of
the grammar, with its codec and its bitrates, and breaks the loop where it
is not. -/
structure LeeGramatica (s : String) : Prop where
  acepta : ∀ nombre bitrates, EsValorCv s nombre bitrates → ∀ (l : LecturaCv) (rest : List String),
    ∃ nvenc, l.leer (s :: rest) = LecturaCv.leer
      ⟨l.ok, l.codificaciones ++ [⟨nombreCodec nombre, bitrates⟩], nvenc⟩ rest
  rechaza : (¬ ∃ nombre bitrates, EsValorCv s nombre bitrates) →
    ∀ (l : LecturaCv) (rest : List String), l.leer (s :: rest) = { l with ok := false }

/-! ## What is found -/

/-- The codec of the pattern, up to the colon. -/
def sinDosPuntos : CharClass := ⟨true, [(':', ':')]⟩

theorem mem_sinDosPuntos {c : Char} : sinDosPuntos.mem c = true ↔ c ≠ ':' := by
  have hmem : sinDosPuntos.mem c = !(CharClass.single ':').mem c := by
    simp [sinDosPuntos, CharClass.single, CharClass.mem]
  rw [hmem, Bool.not_eq_true', Bool.eq_false_iff, ne_eq, CharClass.mem_single]

/-- The bitrates of the pattern. -/
def numerales : Re := .seq numeral (.rep (.seq (.char (.single ',')) numeral) 0 none true)

theorem rCodificaciones_eq : rCodificaciones =
    .seq (.group 1 (.rep (.char sinDosPuntos) 1 (some 10) true))
      (.rep (.seq (.char (.single ':')) (.group 2 numerales)) 0 (some 1) true) := by
  decide +kernel

/-- **Something is found** in every value but those made of colons. -/
theorem find_isSome_rCodificaciones {w : List Char} :
    (rCodificaciones.find w).isSome = true ↔ ∃ c ∈ w, c ≠ ':' := by
  rw [Re.find_isSome_iff, rCodificaciones_eq]
  constructor
  · rintro ⟨a, u, b, rfl, v, t, rfl, hv, -⟩
    obtain ⟨hchars, hmin, -⟩ := Re.lang_rep_char.1 (Re.lang_group.1 hv)
    obtain ⟨c, v, rfl⟩ := List.exists_cons_of_length_pos hmin
    exact ⟨c, by simp, mem_sinDosPuntos.1 (hchars c List.mem_cons_self)⟩
  · rintro ⟨c, hc, hne⟩
    obtain ⟨a, b, rfl⟩ := List.append_of_mem hc
    refine ⟨a, [c], b, by simp, [c], [], rfl, ?_, Re.lang_opt.2 (.inl rfl)⟩
    refine (Re.lang_rep_char (k := sinDosPuntos) (g := true)).2 ⟨fun d hd => ?_, by simp, by simp⟩
    rw [List.mem_singleton.1 hd]
    exact mem_sinDosPuntos.2 hne

/-- A numeral is taken whole. -/
theorem head_run_numeral {b t : List Char} {c : List (ℕ × List Char)}
    (hb : 1 ≤ b.length ∧ b.length ≤ 5 ∧ ∀ d ∈ b, d.isDigit = true)
    (ht : Text.Fenced (fun d => digito.mem d = true) t) :
    (numeral.run (b ++ t, c)).head? = some (t, c) :=
  Re.head_run_rep_char (fun d hd => mem_digito.2 (hb.2.2 d hd)) ht hb.1 (by simpa using hb.2.1)

/-- **Numerals between commas are taken whole.** -/
theorem head_run_numerales {b : List Char} {bs : List (List Char)} {c : List (ℕ × List Char)}
    (hbs : ∀ d ∈ b :: bs, 1 ≤ d.length ∧ d.length ≤ 5 ∧ ∀ e ∈ d, e.isDigit = true) :
    (numerales.run ([','].intercalate (b :: bs) ++ [], c)).head? = some ([], c) := by
  rw [List.forall_mem_cons] at hbs
  have htexto : [','].intercalate (b :: bs) = b ++ (bs.map (',' :: ·)).flatten := by
    clear hbs
    induction bs generalizing b with
    | nil => simp
    | cons d bs ih => rw [List.intercalate_cons_cons, ih]; simp
  -- what follows a numeral is a comma, or nothing
  have hfenced : ∀ ds : List (List Char),
      Text.Fenced (fun d => digito.mem d = true) ((ds.map (',' :: ·)).flatten ++ []) := by
    intro ds
    cases ds with
    | nil => simp [Text.Fenced]
    | cons d ds =>
      simp only [List.map_cons, List.flatten_cons, List.cons_append, Text.fenced_cons]
      decide
  rw [htexto, List.append_assoc]
  refine Re.head_run_seq (head_run_numeral hbs.1 (hfenced bs)) ?_
  refine Re.head_run_rep rfl (fun a u d heq => ?_) (fun u hu => ?_) (Nat.zero_le _) (by simp)
  · obtain ⟨a', bs', rfl, rfl, hd⟩ := List.map_eq_append_iff.1 heq
    obtain ⟨e, d', rfl, rfl, rfl⟩ := List.map_eq_cons_iff.1 hd
    refine Re.head_run_seq (q := (e ++ ((d'.map (',' :: ·)).flatten ++ []), c)) ?_ ?_
    · simp [Re.run]
    · exact head_run_numeral (hbs.2 e (by simp)) (hfenced d')
  · obtain ⟨e, -, rfl⟩ := List.mem_map.1 hu
    simp

/-- Replacing where nothing is found changes nothing. -/
theorem replaceAll_of_not_contiene {s t : String} {nuevo : List Char} (h : contiene s t = false) :
    Text.replaceAll t.toList nuevo s.toList = s.toList := by
  refine Text.replaceAll_eq_self fun r hr => ?_
  rw [Bool.eq_false_iff]
  intro hpre
  rw [Bool.eq_false_iff] at h
  exact h (List.any_eq_true.2 ⟨r, hr, hpre⟩)

/-- The name of the encoding, whether or not there is something to
replace. -/
theorem nombre_codificacionDe (m : Found) :
    (codificacionDe m).nombre = nombreCodec (String.ofList (m.group 1)) := by
  have hcodec : codecDe m = String.ofList
      (Text.replaceAll "h265".toList "hevc".toList (String.ofList (m.group 1)).toList) := by
    rw [codecDe]
    split
    · rfl
    · rename_i h
      rw [replaceAll_of_not_contiene (Bool.eq_false_iff.2 h), String.ofList_toList]
  rw [nombreCodec, ← String.toList_ofList (l := Text.replaceAll "h265".toList _ _), ← hcodec]
  simp only [codificacionDe]
  split
  · rfl
  · rename_i h
    rw [replaceAll_of_not_contiene (Bool.eq_false_iff.2 h), String.ofList_toList]

/-- The bitrates of the encoding are the pieces of the second group. -/
theorem bitrates_codificacionDe {m : Found} {bitrates : List String}
    (hm : m.group 2 = [','].intercalate (bitrates.map String.toList))
    (hb : ∀ b ∈ bitrates, 1 ≤ b.length ∧ b.length ≤ 5 ∧ ∀ c ∈ b.toList, c.isDigit = true) :
    (codificacionDe m).bitrates = bitrates := by
  simp only [codificacionDe, split, String.toList_ofList, hm]
  cases bitrates with
  | nil => rfl
  | cons b bs =>
    rw [List.splitOn_intercalate ',' _ (by simp), List.map_map, List.map_congr_left (g := id),
      List.map_id, List.filter_eq_self.2]
    · intro d hd
      rw [decide_eq_true_eq]
      rintro rfl
      exact absurd (hb "" hd).1 (by decide)
    · intro d hd
      simp
    · intro w hw hcomma
      obtain ⟨d, hd, rfl⟩ := List.mem_map.1 hw
      exact absurd ((hb d hd).2.2 ',' hcomma) (by decide)

/-! ## What is read -/

section Valor

variable {nombre t : List Char}
  (hnombre : 1 ≤ nombre.length ∧ nombre.length ≤ 10 ∧ ':' ∉ nombre)
include hnombre

/-- The codec is taken whole. -/
theorem head_run_codec (ht : Text.Fenced (fun d => sinDosPuntos.mem d = true) t) :
    ((Re.group 1 (.rep (.char sinDosPuntos) 1 (some 10) true)).run (nombre ++ t, [])).head? =
      some (t, [(1, nombre)]) := by
  refine Re.head_run_group (Re.head_run_rep_char (fun d hd => ?_) ht hnombre.1
    (by simpa using hnombre.2.1))
  rw [mem_sinDosPuntos]
  rintro rfl
  exact hnombre.2.2 hd

/-- **A codec alone is found whole.** -/
theorem find_codec : rCodificaciones.find nombre = some ⟨nombre, [(1, nombre)]⟩ := by
  have hrun := Re.head_run_seq (head_run_codec hnombre (t := []) (by simp [Text.Fenced]))
    (Re.head_run_opt_nil (r := .seq (.char (.single ':')) (.group 2 numerales)) rfl)
  rw [← rCodificaciones_eq] at hrun
  rw [← Re.find_of_head hrun, List.append_nil]

/-- **So is a codec with its bitrates.** -/
theorem find_codec_bitrates {b : List Char} {bs : List (List Char)}
    (hbs : ∀ d ∈ b :: bs, 1 ≤ d.length ∧ d.length ≤ 5 ∧ ∀ e ∈ d, e.isDigit = true) :
    rCodificaciones.find (nombre ++ ':' :: [','].intercalate (b :: bs)) =
      some ⟨nombre ++ ':' :: [','].intercalate (b :: bs),
        [(2, [','].intercalate (b :: bs)), (1, nombre)]⟩ := by
  have hnumerales := Re.head_run_group (i := 2) (head_run_numerales (c := [(1, nombre)]) hbs)
  generalize [','].intercalate (b :: bs) = w at hnumerales ⊢
  have hcolon : ((Re.char (.single ':')).run (':' :: w ++ [], [(1, nombre)])).head? =
      some (w ++ [], [(1, nombre)]) := by
    simp [Re.run]
  have hopt := Re.head_run_opt (List.cons_ne_nil ':' w) (Re.head_run_seq hcolon hnumerales)
  have hrun := Re.head_run_seq (head_run_codec hnombre (by simp [Text.Fenced, mem_sinDosPuntos])) hopt
  rw [← rCodificaciones_eq, ← List.append_assoc] at hrun
  rw [← Re.find_of_head hrun, List.append_nil]

end Valor

/-- **A value of the grammar is found**, and gives its encoding. -/
theorem find_of_esValorCv {s nombre : String} {bitrates : List String}
    (h : EsValorCv s nombre bitrates) : ∃ m, rCodificaciones.find s.toList = some m ∧
      codificacionDe m = ⟨nombreCodec nombre, bitrates⟩ := by
  have hnombre := h.nombre
  rw [← String.length_toList] at hnombre
  have hfind : rCodificaciones.find s.toList = some ⟨s.toList,
      (if bitrates = [] then [] else [(2, [','].intercalate (bitrates.map String.toList))]) ++
        [(1, nombre.toList)]⟩ := by
    rw [h.texto]
    cases bitrates with
    | nil => exact find_codec hnombre
    | cons b bs =>
      have htexto : (nombre ++ ":" ++ ",".intercalate (b :: bs)).toList =
          nombre.toList ++ ':' :: [','].intercalate ((b :: bs).map String.toList) := by
        simp [String.toList_intercalate]
      rw [if_neg (List.cons_ne_nil b bs), htexto]
      refine find_codec_bitrates hnombre fun d hd => ?_
      obtain ⟨e, he, rfl⟩ := List.mem_map.1 (show d ∈ (b :: bs).map String.toList from hd)
      rw [String.length_toList]
      exact h.bitrates e he
  refine ⟨_, hfind, ?_⟩
  generalize hm : (⟨s.toList, _⟩ : Found) = m
  have h₁ : m.group 1 = nombre.toList := by
    rw [← hm]
    cases bitrates <;> rfl
  have h₂ : m.group 2 = [','].intercalate (bitrates.map String.toList) := by
    rw [← hm]
    cases bitrates with
    | nil => rfl
    | cons b bs => simp [Found.group]
  have hcodec := nombre_codificacionDe m
  have hrates := bitrates_codificacionDe h₂ h.bitrates
  rw [h₁, String.ofList_toList] at hcodec
  cases hc : codificacionDe m with
  | mk codec rates =>
    rw [hc] at hcodec hrates
    rw [← hcodec, ← hrates]

/-- **A value is read as the grammar says exactly where** it is of the
grammar, or made of colons. -/
theorem leeGramatica_iff (s : String) : LeeGramatica s ↔
    (∃ nombre bitrates, EsValorCv s nombre bitrates) ∨ ∀ c ∈ s.toList, c = ':' := by
  constructor
  · intro h
    by_cases hvalor : ∃ nombre bitrates, EsValorCv s nombre bitrates
    · exact .inl hvalor
    · refine .inr fun c hc => ?_
      by_contra hne
      -- the loop goes on with whatever was found
      have hrechaza := h.rechaza hvalor ⟨true, [], false⟩ []
      obtain ⟨m, hm⟩ := Option.isSome_iff_exists.1 (find_isSome_rCodificaciones.2 ⟨c, hc, hne⟩)
      rw [LecturaCv.leer, hm] at hrechaza
      cases congrArg LecturaCv.ok hrechaza
  · intro h
    refine ⟨fun nombre bitrates hvalor l rest => ?_, fun hno l rest => ?_⟩
    · obtain ⟨m, hm, hcod⟩ := find_of_esValorCv hvalor
      refine ⟨l.nvenc || contiene (codecDe m) "_nvenc", ?_⟩
      rw [LecturaCv.leer, hm, ← hcod]
      rfl
    · have hcolons := h.resolve_left hno
      have hnone : rCodificaciones.find s.toList = none := by
        rw [← Option.not_isSome_iff_eq_none, find_isSome_rCodificaciones]
        rintro ⟨c, hc, hne⟩
        exact hne (hcolons c hc)
      rw [LecturaCv.leer, hnone]

/-- Bitrates that are no numerals are dropped, not refused. -/
theorem not_leeGramatica : ¬ LeeGramatica "h264:abc" := by
  have hleido : codificacionPedida "h264:abc" = some ⟨"h264", []⟩ := by decide +kernel
  have hsigue : (LecturaCv.leer ⟨true, [], false⟩ ["h264:abc"]).ok = true := by decide +kernel
  intro h
  have hno : ¬ ∃ nombre bitrates, EsValorCv "h264:abc" nombre bitrates := by
    rintro ⟨nombre, bitrates, hvalor⟩
    obtain ⟨m, hm, hcod⟩ := find_of_esValorCv hvalor
    rw [codificacionPedida, hm, Option.map_some, hcod, Option.some.injEq,
      Codificacion.mk.injEq] at hleido
    have htexto := hvalor.texto
    rw [if_pos hleido.2] at htexto
    refine hvalor.nombre.2.2 ?_
    rw [← htexto]
    decide
  rw [h.rechaza hno] at hsigue
  cases hsigue

end HlsXcoder
