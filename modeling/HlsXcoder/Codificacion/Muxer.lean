import HlsXcoder.Codificacion.Formato
import HlsXcoder.Codificacion.Plantillas

/-!
# The files ffmpeg's hls muxer writes

An output of type `hls` writes its playlist and its segments, under the
names that `hls_init` settles on (`Plantilla.inicia`): the variant is put
into them once and for all, and the number of a segment each time. An
output whose names are refused writes nothing. Segments of type `fmp4`
come with an `init.mp4` beside the playlist, and webvtt subtitles with a
playlist and segments of their own, named after the playlist of the
output.
-/

namespace HlsXcoder

/-- The playlists an output writes. -/
def Plantilla.listas (x : Plantilla) : List String :=
  x.destino :: if x.subtitulos = some "webvtt" then [sinExtension x.destino ++ "_vtt.m3u8"] else []

/-- The names of an output once `hls_init` has put the variant into them,
unless it fails. -/
def Plantilla.inicia (x : Plantilla) : Option Plantilla :=
  if validateName x.destino = true ∧ ∀ p ∈ x.segmentos, validateName p = true then
    (formatName x.destino).bind fun m3u8Name => match x.segmentos with
      | none => some { x with destino := m3u8Name }
      | some segmentFilename => (formatName segmentFilename).map fun basename =>
        { x with destino := m3u8Name, segmentos := some basename }
  else none

/-- The files under the names of a template, with the segments of every
number. -/
inductive Plantilla.Contiene (x : Plantilla) : String → Prop
  | lista {f : String} (h : f ∈ x.listas) : x.Contiene f
  | segmento {p : String} (h : x.segmentos = some p) (n : ℕ) : x.Contiene (replaceIntData p n)
  | inicial (h : x.tipo = some "fmp4") : x.Contiene (hastaBarra x.destino ++ "init.mp4")
  | segmentoVtt (h : x.subtitulos = some "webvtt") (n : ℕ) :
      x.Contiene (replaceIntData (sinExtension x.destino ++ "%d.vtt") n)

/-- **The files an output writes.** -/
def Plantilla.Escribe (x : Plantilla) (f : String) : Prop := ∃ y ∈ x.inicia, y.Contiene f

/-- The files a playlist is written to, before each is renamed to it. -/
def Plantilla.Temporal (x : Plantilla) (f : String) : Prop :=
  ∃ y ∈ x.inicia, ∃ l ∈ y.listas, f = l ++ ".tmp"

/-- The directories `hls_init` makes: those the variant is marked in. -/
def Plantilla.Forma (x : Plantilla) (d : String) : Prop :=
  ∃ s, (s = x.destino ∨ x.segmentos = some s) ∧ marcaVariante (avDirname s).toList = true ∧
    ∃ s' ∈ formatName s, d = avDirname s'

/-! ## The playlists of an output -/

theorem listas_plantilla {configuration : Config} {programa : Programa}
    {encoding : Option Codificacion} (t : Pista) :
    (t.plantilla configuration programa encoding).listas =
      (codificacionPath configuration encoding ++ t.carpeta ++ "/" ++ t.lista ++ ".m3u8") ::
        if t.webvtt then
          [codificacionPath configuration encoding ++ t.carpeta ++ "/" ++ t.lista ++ "_vtt.m3u8"]
        else [] := by
  rw [Plantilla.listas, Pista.destino_plantilla, sinExtension_m3u8]
  congr 1
  cases t <;> simp [Pista.plantilla, plantillaHLS, Pista.webvtt]

/-! ## The files of a track -/

/-- The width of the number in the name of a segment. -/
def Pista.ancho : Pista → ℕ
  | video _ | defecto => 3
  | quemado _ _ | audio _ | teletexto _ => 1

/-- The names an output that carries a track writes to, cut at the dot,
with the number of the segment where there is one. -/
inductive Pista.Nombra (encoding : String) (t : Pista) : Option ℕ → String → String → Prop
  | lista : t.Nombra encoding none t.lista "m3u8"
  | listaVtt (h : t.webvtt = true) : t.Nombra encoding none (t.lista ++ "_vtt") "m3u8"
  | inicial (h : encoding = "hevc") : t.Nombra encoding none "init" "mp4"
  | segmento (n : ℕ) : t.Nombra encoding (some n)
      (t.segmento ++ .ofList (Text.pad t.ancho n)) (if encoding = "hevc" then "m4s" else "ts")
  | segmentoVtt (h : t.webvtt = true) (n : ℕ) :
      t.Nombra encoding (some n) (t.lista ++ .ofList (Text.pad 0 n)) "vtt"

variable {configuration : Config} {programa : Programa} {encoding : Option Codificacion}

theorem ruta_segmento {t : Pista} (ht : t.segmento.toList.all esNombre = true) (path enc : String)
    (n : ℕ) : replaceIntData (path ++ "/" ++ t.segmento ++ t.numeral ++ extension enc) n =
      numerado (some n) path ++ "/" ++ (t.segmento ++ .ofList (Text.pad t.ancho n)) ++ "." ++
        (if enc = "hevc" then "m4s" else "ts") := by
  have hext : '%' ∉ (extension enc).toList := by
    unfold extension
    split <;> decide
  have hpunto : extension enc = "." ++ (if enc = "hevc" then "m4s" else "ts") := by
    unfold extension
    split <;> rfl
  have hnum : replaceIntData (t.segmento ++ t.numeral ++ extension enc) n =
      t.segmento ++ .ofList (Text.pad t.ancho n) ++ extension enc := by
    obtain ⟨h3, h1, -⟩ := replaceIntData_numeral
      (not_mem_of_esNombre ht (c := '%') (by decide)) hext n
    cases t with
    | video | defecto => exact h3
    | quemado | audio | teletexto => exact h1
  calc replaceIntData (path ++ "/" ++ t.segmento ++ t.numeral ++ extension enc) n
      = numerado (some n) (path ++ "/" ++ (t.segmento ++ t.numeral ++ extension enc)) := by
        simp only [numerado, String.append_assoc]
    _ = _ := by
        rw [numerado_barra]
        simp only [numerado]
        rw [hnum, hpunto]
        simp only [String.append_assoc]

theorem ruta_segmentoVtt {t : Pista} (ht : t.lista.toList.all esNombre = true) (path : String)
    (n : ℕ) : replaceIntData (path ++ "/" ++ t.lista ++ "%d.vtt") n =
      numerado (some n) path ++ "/" ++ (t.lista ++ .ofList (Text.pad 0 n)) ++ "." ++ "vtt" := by
  have hnum := (replaceIntData_numeral (not_mem_of_esNombre ht (c := '%') (by decide))
    (t := ".vtt") (by decide) n).2.2
  have hvtt : "%d.vtt" = "%d" ++ ".vtt" := rfl
  calc replaceIntData (path ++ "/" ++ t.lista ++ "%d.vtt") n
      = numerado (some n) (path ++ "/" ++ (t.lista ++ "%d" ++ ".vtt")) := by
        simp only [numerado, String.append_assoc, hvtt]
    _ = _ := by
        rw [numerado_barra]
        simp only [numerado]
        rw [hnum]
        simp only [String.append_assoc]
        rfl

/-- The template of a track whose files go to a directory. -/
def Pista.plantillaEn (t : Pista) (encoding dir : String) : Plantilla :=
  plantillaHLS encoding (dir ++ "/" ++ t.lista) (dir ++ "/" ++ t.segmento ++ t.numeral) t.webvtt

theorem plantilla_eq (t : Pista) : t.plantilla configuration programa encoding =
    t.plantillaEn (codificacionNombre programa encoding)
      (codificacionPath configuration encoding ++ t.carpeta) := rfl

section Destino

variable (t : Pista) (enc dir : String)

theorem plantillaEn_webvtt_iff :
    (t.plantillaEn enc dir).subtitulos = some "webvtt" ↔ t.webvtt = true := by
  simp [Pista.plantillaEn, plantillaHLS]

theorem plantillaEn_fmp4_iff : (t.plantillaEn enc dir).tipo = some "fmp4" ↔ enc = "hevc" := by
  simp [Pista.plantillaEn, plantillaHLS]

/-- The directory of an output. -/
theorem hastaBarra_destino_plantillaEn (ht : t.lista.toList.all esNombre = true) :
    hastaBarra (t.plantillaEn enc dir).destino = dir ++ "/" := by
  have hcorte : (t.plantillaEn enc dir).destino = dir ++ "/" ++ (t.lista ++ ".m3u8") :=
    String.append_assoc ..
  rw [hcorte]
  refine hastaBarra_append ?_
  rw [String.toList_append, List.mem_append, not_or]
  exact ⟨not_mem_of_esNombre ht (by decide), by decide⟩

theorem sinExtension_destino_plantillaEn :
    sinExtension (t.plantillaEn enc dir).destino = dir ++ "/" ++ t.lista :=
  sinExtension_m3u8 _

theorem plantilla_webvtt_iff :
    (t.plantilla configuration programa encoding).subtitulos = some "webvtt" ↔
      t.webvtt = true :=
  plantillaEn_webvtt_iff ..

theorem hastaBarra_destino_plantilla (ht : t.lista.toList.all esNombre = true) :
    hastaBarra (t.plantilla configuration programa encoding).destino =
      codificacionPath configuration encoding ++ t.carpeta ++ "/" :=
  hastaBarra_destino_plantillaEn _ _ _ ht

theorem sinExtension_destino_plantilla :
    sinExtension (t.plantilla configuration programa encoding).destino =
      codificacionPath configuration encoding ++ t.carpeta ++ "/" ++ t.lista :=
  sinExtension_destino_plantillaEn ..

end Destino

section Directorio

variable {t : Pista} (ht : t.lista.toList.all esNombre = true ∧ t.segmento.toList.all esNombre = true)
  (enc dir : String)

/-- The names of a track mark no variant. -/
theorem sinVariante_nombres (ht : t.lista.toList.all esNombre = true ∧
      t.segmento.toList.all esNombre = true) (enc : String) :
    ∀ s ∈ [t.lista ++ ".m3u8", t.segmento ++ t.numeral ++ extension enc],
      '/' ∉ s.toList ∧ marcaVariante s.toList = false ∧ pideNumeroDesde 'v' none s.toList = false := by
  have hlista := not_mem_of_esNombre ht.1 (c := '%') (by decide)
  have hsegmento := not_mem_of_esNombre ht.2 (c := '%') (by decide)
  have hnumeral : t.numeral = "%03d" ∨ t.numeral = "%01d" := by
    cases t <;> simp [Pista.numeral]
  have hextension : extension enc = ".m4s" ∨ extension enc = ".ts" := by
    rw [extension]
    split <;> simp
  refine List.forall_mem_cons.2 ⟨⟨?_, ?_, ?_⟩, List.forall_mem_singleton.2 ⟨?_, ?_, ?_⟩⟩
  · rw [String.toList_append, List.mem_append, not_or]
    exact ⟨not_mem_of_esNombre ht.1 (by decide), by decide⟩
  · rw [String.toList_append, marcaVariante_literal hlista]
    decide
  · rw [String.toList_append, pideNumeroDesde_literal 'v' hlista]
    decide
  · rw [String.append_assoc, String.toList_append, List.mem_append, not_or]
    refine ⟨not_mem_of_esNombre ht.2 (by decide), ?_⟩
    rcases hnumeral with h | h <;> rcases hextension with h' | h' <;> rw [h, h'] <;> decide
  · rw [String.append_assoc, String.toList_append, marcaVariante_literal hsegmento]
    rcases hnumeral with h | h <;> rcases hextension with h' | h' <;> rw [h, h'] <;> decide
  · rw [String.append_assoc, String.toList_append, pideNumeroDesde_literal 'v' hsegmento]
    rcases hnumeral with h | h <;> rcases hextension with h' | h' <;> rw [h, h'] <;> decide

include ht in
/-- **The variant goes into the directory of a track**, or the output is
refused. -/
theorem inicia_plantillaEn : (t.plantillaEn enc dir).inicia = (formatName dir).map (t.plantillaEn enc) := by
  obtain ⟨⟨hl, hlm, hlp⟩, hs, hsm, hsp⟩ :=
    (List.forall_mem_cons.1 (sinVariante_nombres ht enc)).imp_right List.forall_mem_singleton.1
  have hdestino (dir : String) : dir ++ "/" ++ t.lista ++ ".m3u8" = dir ++ "/" ++ (t.lista ++ ".m3u8") :=
    String.append_assoc ..
  have hsegmentos (dir : String) : dir ++ "/" ++ t.segmento ++ t.numeral ++ extension enc =
      dir ++ "/" ++ (t.segmento ++ t.numeral ++ extension enc) := by
    simp only [String.append_assoc]
  rw [Plantilla.inicia, if_pos]
  · simp only [Pista.plantillaEn, plantillaHLS, hdestino, hsegmentos, formatName_barra hlm hlp,
      formatName_barra hsm hsp]
    cases formatName dir with
    | none => rfl
    | some dir => simp [Pista.plantillaEn, plantillaHLS, String.append_assoc]
  · simp only [Pista.plantillaEn, plantillaHLS, hdestino, hsegmentos]
    refine ⟨validateName_append hl hlm, fun p hp => ?_⟩
    obtain rfl := Option.some_inj.1 hp
    exact validateName_append hs hsm

include ht in
/-- The files under the names of a track, by directory and name. The
number of a segment is put into the directory as well, which is why the
directory comes numbered. -/
theorem contiene_plantillaEn_iff (f : String) : (t.plantillaEn enc dir).Contiene f ↔
    ∃ k s e, t.Nombra enc k s e ∧ f = numerado k dir ++ "/" ++ s ++ "." ++ e := by
  have hm3u8 (s : String) : s ++ ".m3u8" = s ++ "." ++ "m3u8" := by
    rw [String.append_assoc]
    rfl
  have hvtt (s : String) : s ++ "_vtt.m3u8" = s ++ "_vtt" ++ "." ++ "m3u8" := by
    simp only [String.append_assoc]
    rfl
  have hinicial : dir ++ "/" ++ "init.mp4" = dir ++ "/" ++ "init" ++ "." ++ "mp4" := by
    simp only [String.append_assoc]
    rfl
  constructor
  · rintro (hf | ⟨hp, n⟩ | h | ⟨h, n⟩)
    · obtain rfl | hf := List.mem_cons.1 hf
      · exact ⟨none, _, _, .lista, hm3u8 _⟩
      · split at hf
        · rename_i h
          obtain rfl := List.mem_singleton.1 hf
          refine ⟨none, _, _, .listaVtt ((plantillaEn_webvtt_iff ..).1 h), ?_⟩
          rw [sinExtension_destino_plantillaEn, hvtt]
          simp only [numerado, String.append_assoc]
        · cases hf
    · obtain rfl := Option.some_inj.1 hp
      exact ⟨some n, _, _, .segmento n, ruta_segmento ht.2 _ _ n⟩
    · refine ⟨none, _, _, .inicial ((plantillaEn_fmp4_iff ..).1 h), ?_⟩
      rw [hastaBarra_destino_plantillaEn _ _ _ ht.1, hinicial]
      rfl
    · refine ⟨some n, _, _, .segmentoVtt ((plantillaEn_webvtt_iff ..).1 h) n, ?_⟩
      rw [sinExtension_destino_plantillaEn]
      exact ruta_segmentoVtt ht.1 _ n
  · rintro ⟨k, s, e, h, rfl⟩
    cases h with
    | lista =>
      refine .lista (List.mem_cons.2 (.inl ?_))
      exact (hm3u8 _).symm
    | listaVtt h =>
      refine .lista (List.mem_cons_of_mem _ ?_)
      rw [if_pos ((plantillaEn_webvtt_iff ..).2 h), sinExtension_destino_plantillaEn, hvtt,
        List.mem_singleton]
      simp only [numerado, String.append_assoc]
    | inicial h =>
      have := Plantilla.Contiene.inicial ((plantillaEn_fmp4_iff t enc dir).2 h)
      rwa [hastaBarra_destino_plantillaEn _ _ _ ht.1, hinicial] at this
    | segmento n =>
      have := Plantilla.Contiene.segmento (x := t.plantillaEn enc dir) rfl n
      rwa [ruta_segmento ht.2] at this
    | segmentoVtt h n =>
      have := Plantilla.Contiene.segmentoVtt ((plantillaEn_webvtt_iff t enc dir).2 h) n
      rwa [sinExtension_destino_plantillaEn, ruta_segmentoVtt ht.1] at this

include ht in
/-- **The files of an output, by directory and name.** The variant is put
into the directory, and then the number of a segment. -/
theorem escribe_iff (f : String) : (t.plantilla configuration programa encoding).Escribe f ↔
    ∃ dir ∈ formatName (codificacionPath configuration encoding ++ t.carpeta), ∃ k s e,
      t.Nombra (codificacionNombre programa encoding) k s e ∧
        f = numerado k dir ++ "/" ++ s ++ "." ++ e := by
  rw [Plantilla.Escribe, plantilla_eq, inicia_plantillaEn ht]
  constructor
  · rintro ⟨y, hy, hf⟩
    obtain ⟨dir, hdir, rfl⟩ := Option.map_eq_some_iff.1 hy
    exact ⟨dir, hdir, (contiene_plantillaEn_iff ht _ dir f).1 hf⟩
  · rintro ⟨dir, hdir, hf⟩
    exact ⟨_, Option.map_eq_some_iff.2 ⟨dir, hdir, rfl⟩, (contiene_plantillaEn_iff ht _ dir f).2 hf⟩

include ht in
/-- Where the directory has no percent sign the names are those given. -/
theorem inicia_plantilla
    (hruta : '%' ∉ (codificacionPath configuration encoding ++ t.carpeta).toList) :
    (t.plantilla configuration programa encoding).inicia =
      some (t.plantilla configuration programa encoding) := by
  rw [plantilla_eq, inicia_plantillaEn ht, formatName_literal hruta, Option.map_some]

end Directorio

end HlsXcoder
