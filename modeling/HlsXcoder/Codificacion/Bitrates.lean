import HlsXcoder.Codificacion.Direcciones
import HlsXcoder.Codificacion.Ficheros
import HlsXcoder.Codificacion.Grupos
import HlsXcoder.Codificacion.Origenes

/-!
# The bitrates the playlist announces

Each variant of the playlist announces a bandwidth, its bitrate in bits,
and the output that writes it should be given that bitrate. The main
variants are, and so are the burned ones where the GPU filters; the
branch of the burned subtitles in software leaves the rate options out.
-/

namespace HlsXcoder

open OptionGroups

/-- **Each variant is encoded at the bitrate it announces**: its playlist
is written, and every output that writes it has that bitrate. -/
def BitratesAnunciados (configuration : Config) (programa : Programa)
    (encoding : Option Codificacion) (orden : Command String) : Prop :=
  ∀ l ∈ generarArchivoM3U8 programa (bitratesDe encoding), l.esMedia = false →
    ∀ b, b ++ "000" ∈ l.valores "BANDWIDTH" → ∀ uri ∈ l.uris,
      (∃ x ∈ orden.outputs,
        codificacionPath configuration encoding ++ "/" ++ ficheroDeUri uri ∈
          (plantilla x).listas) ∧
      ∀ x ∈ orden.outputs,
        codificacionPath configuration encoding ++ "/" ++ ficheroDeUri uri ∈
          (plantilla x).listas → ⟨"-b:v", some (b ++ "k")⟩ ∈ x.opts

variable {configuration : Config} {programa : Programa} {encoding : Option Codificacion}

/-! ## The lines of the variants -/

/-- The track that carries a variant of a bitrate, main or burned. -/
inductive Pista.DeBitrate (b : String) : Pista → Prop
  | video : DeBitrate b (.video b)
  | quemado (language : String) : DeBitrate b (.quemado b language)

theorem append_000_inj {b c : String} (h : c ++ "000" = b ++ "000") : c = b := by
  rw [← String.toList_inj] at h ⊢
  simpa using h

/-- The bandwidth of a main variant is its bitrate. -/
theorem bandwidth_lineaPrincipal {s : List Atributo} (hs : ∀ a ∈ s, a.nombre ≠ "BANDWIDTH")
    {b : String} (hb : b ≠ "") :
    (lineaPrincipal (atributosAudio programa) (atributosVideo programa) s b).valores "BANDWIDTH" =
      [b ++ "000"] := by
  have hnone {as : List Atributo} (has : ∀ a ∈ as, a.nombre ≠ "BANDWIDTH") :
      as.filter (fun a => a.nombre = "BANDWIDTH") = [] :=
    List.filter_eq_nil_iff.2 fun a ha => by simpa using has a ha
  have haudio : ∀ a ∈ atributosAudio programa, a.nombre ≠ "BANDWIDTH" := by
    unfold atributosAudio
    split <;> simp +decide
  have hvideo : ∀ a ∈ atributosVideo programa, a.nombre ≠ "BANDWIDTH" := by
    unfold atributosVideo
    split <;> simp +decide
  rw [lineaPrincipal, LineaM3U8.valores, LineaM3U8.atributos, List.filter_append,
    List.filter_append, List.filter_append, hnone hs, hnone haudio, hnone hvideo]
  simp [hb]

theorem bandwidth_lineaQuemada (b n : String) (e : Stream) :
    (lineaQuemada (atributosAudio programa) b n e).valores "BANDWIDTH" = [b ++ "000"] := by
  unfold lineaQuemada atributosAudio
  split <;> simp [LineaM3U8.valores, LineaM3U8.atributos]

/-- The address of a main variant. -/
theorem destino_video {b : String} (hb : EsBitrate b) :
    codificacionPath configuration encoding ++ "/" ++ ficheroDeUri (b ++ ".m3u8") =
      ((Pista.video b).plantilla configuration programa encoding).destino := by
  obtain ⟨d, ds, hd, hdig⟩ := exists_cons_of_esBitrate hb
  rw [ficheroDeUri_eq (c := d) (by simp [hd]) (by rintro rfl; cases hdig),
    Pista.destino_plantilla, ← String.toList_inj]
  simp [Pista.carpeta, Pista.lista]

/-- The address of a burned variant. -/
theorem destino_quemado (programa : Programa) {b : String} (hb : b ≠ "") (e : Stream) :
    codificacionPath configuration encoding ++ "/" ++ ficheroDeUri (uriQuemada (b ++ "-") e) =
      ((Pista.quemado b e.language).plantilla configuration programa encoding).destino := by
  rw [ficheroDeUri_uriQuemada, Pista.destino_plantilla, ← String.toList_inj]
  simp [Pista.carpeta, Pista.lista, hb]

theorem ne_empty_of_esBitrate {b : String} (hb : EsBitrate b) : b ≠ "" := by
  rintro rfl
  have := hb.1
  simp at this

/-- **The address of a variant leads to the track of its bandwidth.** -/
theorem pista_de_variante (configuration : Config) (hb : ∀ b ∈ bitratesDe encoding, EsBitrate b)
    (hne : bitratesDe encoding ≠ []) {l : LineaM3U8}
    (hl : l ∈ generarArchivoM3U8 programa (bitratesDe encoding)) (hmedia : l.esMedia = false)
    {b : String} (hband : b ++ "000" ∈ l.valores "BANDWIDTH") {uri : String} (huri : uri ∈ l.uris) :
    ∃ t ∈ pistas programa encoding, t.DeBitrate b ∧
      codificacionPath configuration encoding ++ "/" ++ ficheroDeUri uri =
        (t.plantilla configuration programa encoding).destino := by
  rw [generarArchivoM3U8_eq, if_neg hne, List.mem_append] at hl
  obtain hl | hl := hl
  · rw [esMedia_of_mem_mediasM3U8 hl] at hmedia
    cases hmedia
  obtain ⟨b', hb', s, hs, hl⟩ := mem_variantes hl
  have hbit := hb b' hb'
  have hb'ne := ne_empty_of_esBitrate hbit
  -- it is the variant of the video, or one with a burned subtitle
  rw [generarM3U8Videos_fst, List.mem_cons] at hl
  obtain rfl | hl := hl
  · have hsub : ∀ a ∈ s, a.nombre ≠ "BANDWIDTH" := by
      obtain rfl | rfl := hs
      · unfold atributosSubtitle
        split <;> simp +decide
      · simp +decide
    rw [bandwidth_lineaPrincipal hsub hb'ne, List.mem_singleton] at hband
    obtain rfl := append_000_inj hband
    refine ⟨_, video_mem_pistas.2 hb', .video, ?_⟩
    rw [uris_lineaPrincipal _ _ _ (fun c hc => hbit.isDigit hc), if_neg hb'ne,
      List.mem_singleton] at huri
    rw [huri]
    exact destino_video hbit
  · split at hl
    · cases hl
    · rename_i ht
      obtain ⟨e, he, rfl⟩ := List.mem_map.1 hl
      rw [bandwidth_lineaQuemada, List.mem_singleton] at hband
      obtain rfl := append_000_inj hband
      rw [nombre_quemada, uris_lineaQuemada, List.mem_singleton] at huri
      rw [huri]
      exact ⟨_, quemado_mem_pistas.2 ⟨Bool.eq_false_iff.2 ht, ⟨e, he, rfl⟩, .inl hb'⟩,
        .quemado _, destino_quemado programa hb'ne e⟩

/-! ## The outputs that write them -/

/-- The output that writes the playlist of a track is made for it, up to
language. -/
theorem sinIdioma_of_destino (hb : ∀ b ∈ bitratesDe encoding, EsBitrate b) {t : Pista}
    (ht : t ∈ pistas programa encoding) {o : Origen}
    (ho : o ∈ origenes programa encoding)
    (h : (t.plantilla configuration programa encoding).destino ∈
      (o.pista.plantilla configuration programa encoding).listas) :
    o.pista.sinIdioma = t.sinIdioma := by
  have hpista := pista_mem_pistas ho
  have hbarra {t : Pista} (ht : t ∈ pistas programa encoding) : '/' ∉ t.lista.toList :=
    not_mem_of_esNombre (esNombre_of_mem_pistas hb ht).1 (by decide)
  rw [listas_plantilla, List.mem_cons, Pista.destino_plantilla] at h
  obtain h | h := h
  · exact Pista.sinIdioma_of_lista hb hpista ht
      (lista_eq_of_ruta (hbarra ht) _ _ _ (hbarra hpista) h).2.symm
  · -- no variant is called like the playlist of webvtt subtitles
    split at h
    · rw [List.mem_singleton] at h
      have hvtt : codificacionPath configuration encoding ++ o.pista.carpeta ++ "/" ++
          o.pista.lista ++ "_vtt.m3u8" = codificacionPath configuration encoding ++
            o.pista.carpeta ++ "/" ++ (o.pista.lista ++ "_vtt") ++ ".m3u8" := by
        rw [← String.toList_inj]
        simp
      rw [hvtt] at h
      have hlista := (lista_eq_of_ruta (hbarra ht) _ _ _ (by
        simpa using hbarra hpista) h).2
      have hmem : '_' ∈ t.lista.toList := by rw [hlista]; simp
      exact absurd hmem (not_mem_of_esNombre (esNombre_of_mem_pistas hb ht).1 (by decide))
    · cases h

/-- A variant and what its output is made from have the same bitrate. -/
theorem Pista.DeBitrate.origen {b : String} {t : Pista} (hbit : t.DeBitrate b) {o : Origen}
    (h : o.pista.sinIdioma = t.sinIdioma) :
    o = .video b ∨ ∃ elem index, o = .quemado b elem index := by
  cases hbit with
  | video =>
    cases o <;> simp [Origen.pista, sinIdioma] at h
    exact .inl (congrArg _ h)
  | quemado language =>
    cases o with
    | quemado b' elem index =>
      obtain rfl : b' = b := by simpa [Origen.pista, sinIdioma] using h
      exact .inr ⟨elem, index, rfl⟩
    | video | defecto | audio | teletexto => simp [Origen.pista, sinIdioma] at h

/-! ## When the bitrates are those announced -/

/-- An output has the bitrate of its origin, unless it burns a subtitle in
software. -/
theorem bitrate_mem_propias {b : String} (hb : EsBitrate b) {o : Origen}
    (ho : o = .video b ∨ ∃ elem index, o = .quemado b elem index ∧ configuration.hwaccel = true) :
    ⟨"-b:v", some (b ++ "k")⟩ ∈ (o.salida configuration programa encoding).opts := by
  refine (mem_propias.1 (?_ : _ ∈ propias _)).1
  rw [propias_salida]
  obtain rfl | ⟨elem, index, rfl, hw⟩ := ho
  · simp [Origen.propias]
  · obtain ⟨maximo, hmax⟩ := Option.isSome_iff_exists.1 (calcularBitrateMaximo_isSome hb.1)
    simp [Origen.propias, hw, bitrateCommand, ne_empty_of_esBitrate hb, hmax]

/-- In software a burned subtitle has no rate options. -/
theorem bitrate_not_mem {b v : String} (hw : configuration.hwaccel = false) (elem : Stream)
    (index : ℕ) : ⟨"-b:v", some v⟩ ∉
      ((Origen.quemado b elem index).salida configuration programa encoding).opts := by
  intro hmem
  have hpropia : (⟨"-b:v", some v⟩ : Opcion) ∈
      propias ((Origen.quemado b elem index).salida configuration programa encoding).opts :=
    mem_propias.2 ⟨hmem, by simp [esPropia]⟩
  rw [propias_salida] at hpropia
  simp [Origen.propias, hw] at hpropia

/-- **A subtitle burned in software has no bitrate.** -/
theorem not_bitratesAnunciados (hb : ∀ b ∈ bitratesDe encoding, EsBitrate b)
    (hne : bitratesDe encoding ≠ []) (hw : configuration.hwaccel = false)
    (ht : teletextSubtitle programa = false) (hs : programa.subtitulos ≠ []) :
    ¬ BitratesAnunciados configuration programa encoding
      (comando configuration programa encoding) := by
  intro h
  obtain ⟨e, es, hes⟩ := List.exists_cons_of_ne_nil hs
  obtain ⟨b, bs, hbs⟩ := List.exists_cons_of_ne_nil hne
  have hbit : EsBitrate b := hb b (by simp [hbs])
  have hbne := ne_empty_of_esBitrate hbit
  -- the first subtitle, burned into the video of the first bitrate
  have hl : lineaQuemada (atributosAudio programa) b (b ++ "-subtitulo.m3u8") e ∈
      generarArchivoM3U8 programa (bitratesDe encoding) := by
    rw [generarArchivoM3U8_eq, if_neg hne, hbs, variantes, generarM3U8Videos_fst]
    simp [ht, hes, hbne]
  have hburi : uriQuemada (b ++ "-") e ∈
      (lineaQuemada (atributosAudio programa) b (b ++ "-subtitulo.m3u8") e).uris := by
    rw [nombre_quemada, uris_lineaQuemada]
    exact List.mem_singleton_self _
  obtain ⟨⟨x, hx, hlista⟩, hpone⟩ := h _ hl rfl b (by simp [bandwidth_lineaQuemada]) _ hburi
  have hopt := hpone x hx hlista
  obtain ⟨o, ho, hplantilla, hsalida⟩ := exists_origen hx
  rw [destino_quemado programa hbne, hplantilla] at hlista
  have htrack : .quemado b e.language ∈ pistas programa encoding :=
    quemado_mem_pistas.2 ⟨ht, ⟨e, by simp [hes], rfl⟩, .inl (by simp [hbs])⟩
  have hsin := sinIdioma_of_destino hb htrack ho hlista
  cases o with
  | quemado b' elem index =>
    obtain ⟨-, hprimero⟩ | rfl := hsalida
    · rw [primero, hbs] at hprimero
      cases hprimero
    · exact bitrate_not_mem hw elem index hopt
  | video | defecto | audio | teletexto => simp [Origen.pista, Pista.sinIdioma] at hsin

/-- **Every other variant has the bitrate it announces.** -/
theorem bitratesAnunciados_of (hb : ∀ b ∈ bitratesDe encoding, EsBitrate b)
    (hne : bitratesDe encoding ≠ [])
    (h : configuration.hwaccel = true ∨ teletextSubtitle programa = true ∨
      programa.subtitulos = []) :
    BitratesAnunciados configuration programa encoding
      (comando configuration programa encoding) := by
  intro l hl hmedia b hband uri huri
  obtain ⟨t, ht, hbit, hdestino⟩ := pista_de_variante configuration hb hne hl hmedia hband huri
  rw [hdestino]
  refine ⟨?_, fun x hx hlista => ?_⟩
  · obtain ⟨x, hx, heq⟩ := exists_salida configuration ht
    exact ⟨x, hx, heq ▸ List.mem_cons_self⟩
  · obtain ⟨o, ho, hplantilla, hsalida⟩ := exists_origen hx
    rw [hplantilla] at hlista
    have horigen := hbit.origen (sinIdioma_of_destino hb ht ho hlista)
    have hpropia : ⟨"-b:v", some (b ++ "k")⟩ ∈ (o.salida configuration programa encoding).opts := by
      obtain rfl | ⟨elem, index, rfl⟩ := horigen
      · exact bitrate_mem_propias (hb b (video_mem_origenes.1 ho)) (.inl rfl)
      · obtain ⟨htel, helem, hmem⟩ := quemado_mem_origenes.1 ho
        have hbmem : b ∈ bitratesDe encoding := hmem.resolve_right fun hnil => hne hnil.1
        refine bitrate_mem_propias (hb b hbmem) (.inr ⟨elem, index, rfl, ?_⟩)
        obtain hw | ht | hnil := h
        · exact hw
        · rw [ht] at htel
          cases htel
        · simp [hnil] at helem
    obtain ⟨rfl, rfl⟩ | rfl := hsalida
    · exact List.mem_append_right _ hpropia
    · exact hpropia

/-- **The variants are encoded at the bitrates announced exactly when** no
subtitle is burned in software. -/
theorem bitratesAnunciados_iff {configuration : Config} {programa : Programa}
    {encoding : Option Codificacion} {orden : Command String}
    (hb : ∀ b ∈ bitratesDe encoding, EsBitrate b) (hne : bitratesDe encoding ≠ [])
    (horden : comandoFfmpeg configuration programa encoding = some orden) :
    BitratesAnunciados configuration programa encoding orden ↔
      configuration.hwaccel = true ∨ teletextSubtitle programa = true ∨
        programa.subtitulos = [] := by
  obtain ⟨-, rfl⟩ := comandoFfmpeg_eq_some_iff.1 horden
  refine ⟨fun h => ?_, bitratesAnunciados_of hb hne⟩
  by_contra hno
  simp only [not_or, Bool.not_eq_true] at hno
  obtain ⟨hw, ht, hs⟩ := hno
  exact not_bitratesAnunciados hb hne hw ht hs h

/-- A program with one DVB subtitle. -/
def programaDvb : Programa :=
  { (default : Programa) with
    video := { (default : Stream) with id := "0", hexaId := "0x100", format := "h264" }
    subtitulos := [{ (default : Stream) with
      id := "2", hexaId := "0x102", format := "dvb_subtitle", language := "spa" }] }

theorem bitratesAnunciados_gpu : ∃ orden,
    comandoFfmpeg { Config.minima with hwaccel := true } programaDvb
        (some ⟨"h264", ["2800", "1400"]⟩) = some orden ∧
      BitratesAnunciados { Config.minima with hwaccel := true } programaDvb
        (some ⟨"h264", ["2800", "1400"]⟩) orden := by
  have hconstruible : Construible programaDvb (some ⟨"h264", ["2800", "1400"]⟩) :=
    ⟨by decide, by decide⟩
  exact ⟨_, comandoFfmpeg_eq hconstruible,
    (bitratesAnunciados_iff (by decide) (by decide) (comandoFfmpeg_eq hconstruible)).2 (.inl rfl)⟩

/-- A subtitle burned in software, and no bitrate. -/
theorem bitratesAnunciados_cpu : ∃ orden,
    comandoFfmpeg .minima programaDvb (some ⟨"h264", ["2800", "1400"]⟩) = some orden ∧
      ¬ BitratesAnunciados .minima programaDvb (some ⟨"h264", ["2800", "1400"]⟩) orden := by
  have hconstruible : Construible programaDvb (some ⟨"h264", ["2800", "1400"]⟩) :=
    ⟨by decide, by decide⟩
  exact ⟨_, comandoFfmpeg_eq hconstruible,
    not_bitratesAnunciados (by decide) (by decide) rfl (by decide) (by decide)⟩

end HlsXcoder
