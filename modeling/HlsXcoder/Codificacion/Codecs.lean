import HlsXcoder.Codificacion.Origenes

/-!
# Codec, container and filters of an output

The codec of the first output is chosen before the loop over the
bitrates, that of the burned subtitles where they are built, and the type
of the segments from the name of the encoding alone. They should agree:
an encoder of the codec the encoding is named after, HEVC in fMP4
segments, and no filter on a video that is copied.

Without nvenc the encoder of the first output is `libx264` whatever the
name, and `-deint` puts a filter on the copy too.
-/

namespace HlsXcoder

open OptionGroups

/-- The video codec an option names. -/
def codecOpcion (o : Opcion) : Option String :=
  if o.flag ∈ ["-c:v", "-vcodec"] then o.value else none

/-- The video codecs an output names. -/
def codecs (x : Salida) : List String := x.opts.filterMap codecOpcion

/-- The encoders of a codec. -/
def codificadores : String → List String
  | "h264" => ["h264", "libx264", "h264_nvenc"]
  | "hevc" => ["hevc", "libx265", "hevc_nvenc"]
  | _ => []

/-- Codec, container and filters of an output agree. -/
structure SalidaCoherente (programa : Programa) (encoding : Option Codificacion) (x : Salida) :
    Prop where
  codificador : ∀ c ∈ codecs x, c ≠ "copy" →
    codificacionNombre programa encoding ∈ ["h264", "hevc"] →
    c ∈ codificadores (codificacionNombre programa encoding)
  hevc : valor x.opts "-hls_segment_type" = some "fmp4" → ∀ c ∈ codecs x,
    c ∈ codificadores "hevc" ∨ c = "copy" ∧ programa.video.format = "hevc"
  copia : "copy" ∈ codecs x → ∀ o ∈ x.opts, o.flag ≠ "-vf"

/-- **Every output of a command is coherent.** -/
def CodecsCoherentes (programa : Programa) (encoding : Option Codificacion)
    (orden : Command String) : Prop :=
  ∀ x ∈ orden.outputs, SalidaCoherente programa encoding x

variable {configuration : Config} {programa : Programa} {encoding : Option Codificacion}

/-! ## What each output names -/

/-- The codecs are among the options that say how a video is encoded. -/
theorem codecs_eq (x : Salida) : codecs x = (propias x.opts).filterMap codecOpcion := by
  rw [codecs, propias, List.filterMap_filter]
  refine List.filterMap_congr fun o _ => ?_
  split
  · rfl
  · rename_i hpropia
    refine if_neg fun hmem => hpropia ?_
    obtain h | h : o.flag = "-c:v" ∨ o.flag = "-vcodec" := by simpa using hmem
    all_goals simp [esPropia, h]

theorem vf_mem_propias {os : List Opcion} : (∃ o ∈ os, o.flag = "-vf") ↔
    ∃ o ∈ propias os, o.flag = "-vf" := by
  refine exists_congr fun o => ?_
  rw [mem_propias]
  refine ⟨fun ⟨ho, h⟩ => ⟨⟨ho, ?_⟩, h⟩, fun ⟨⟨ho, _⟩, h⟩ => ⟨ho, h⟩⟩
  simp [esPropia, h]

/-- Only a burned subtitle names a codec of its own. -/
theorem codecs_salida (o : Origen) : codecs (o.salida configuration programa encoding) =
    match o with
    | .quemado _ _ _ => [codecQuemado configuration (codificacionNombre programa encoding)]
    | _ => [] := by
  rw [codecs_eq, propias_salida]
  cases o with
  | quemado b elem index =>
    simp only [Origen.propias]
    by_cases hw : configuration.hwaccel = true <;> by_cases hi : index = 0 <;>
      by_cases hb : (bitrateCommand b).getD [] = [] <;> simp +decide [hw, hi, hb, codecOpcion]
  | video b | defecto | audio elem | teletexto elem => simp +decide [Origen.propias, codecOpcion]

/-- No output filters its video by itself. -/
theorem vf_salida (o : Origen) {op : Opcion}
    (hop : op ∈ (o.salida configuration programa encoding).opts) : op.flag ≠ "-vf" := by
  intro h
  obtain ⟨op', hop', h'⟩ := vf_mem_propias.1 ⟨op, hop, h⟩
  rw [propias_salida] at hop'
  have hflags : ∀ op ∈ o.propias configuration programa encoding, op.flag ≠ "-vf" := by
    cases o with
    | quemado b elem index =>
      simp only [Origen.propias]
      by_cases hw : configuration.hwaccel = true <;> by_cases hi : index = 0 <;>
        by_cases hb : (bitrateCommand b).getD [] = [] <;> simp +decide [hw, hi, hb]
    | video b | defecto | audio elem | teletexto elem => simp +decide [Origen.propias]
  exact hflags op' hop' h'

/-- The first output has the codec built before the loop. -/
theorem codecs_primeraSalida : codecs (primeraSalida configuration programa encoding) =
    [codecCabecera configuration encoding] := by
  have hprimero : ((primero encoding).propias configuration programa encoding).filterMap codecOpcion =
      [] := by
    unfold primero
    split <;> simp +decide [Origen.propias, codecOpcion]
  rw [codecs_eq, propias_primeraSalida, List.filterMap_append, hprimero, propias_cabeceraVideo]
  by_cases hw : configuration.hwaccel = true <;> by_cases hd : configuration.deint = true <;>
    by_cases hn : codificacionNombre programa encoding = "copy" <;>
      simp +decide [hw, hd, hn, codecOpcion]

/-- The first output filters its video under `-deint` in software, and
where a video called `copy` is decoded by the GPU. -/
theorem vf_primeraSalida (configuration : Config) (programa : Programa)
    (encoding : Option Codificacion) :
    (∃ o ∈ (primeraSalida configuration programa encoding).opts, o.flag = "-vf") ↔
      configuration.hwaccel = true ∧ codificacionNombre programa encoding = "copy" ∨
        configuration.deint = true ∧ configuration.hwaccel = false := by
  have hprimero : ∀ o ∈ (primero encoding).propias configuration programa encoding,
      o.flag ≠ "-vf" := by
    unfold primero
    split <;> simp +decide [Origen.propias]
  rw [vf_mem_propias, propias_primeraSalida, propias_cabeceraVideo]
  constructor
  · rintro ⟨o, ho, hflag⟩
    rw [List.mem_append] at ho
    obtain ho | ho := ho
    · by_cases hw : configuration.hwaccel = true <;> by_cases hd : configuration.deint = true <;>
        by_cases hn : codificacionNombre programa encoding = "copy" <;> simp_all
    · exact absurd hflag (hprimero o ho)
  · rintro (⟨hw, hn⟩ | ⟨hd, hw⟩)
    · exact ⟨⟨"-vf", some "hwdownload,format=nv12"⟩, by simp [hw, hn], rfl⟩
    · exact ⟨⟨"-vf", some "yadif"⟩, by simp [hw, hd], rfl⟩

/-- The segments are fMP4 exactly where the encoding is called
`hevc`. -/
theorem fmp4_iff {x : Salida} (hx : x ∈ salidas configuration programa encoding) :
    valor x.opts "-hls_segment_type" = some "fmp4" ↔
      codificacionNombre programa encoding = "hevc" := by
  obtain ⟨t, -, heq⟩ := exists_pista hx
  have htipo := congrArg Plantilla.tipo heq
  rw [show valor x.opts "-hls_segment_type" = (plantilla x).tipo from rfl, htipo]
  by_cases h : codificacionNombre programa encoding = "hevc" <;>
    simp [Pista.plantilla, plantillaHLS, h]

/-! ## When they agree -/

/-- The names of the encodings are those of the two codecs. -/
def NombreConocido (encoding : Option Codificacion) : Prop :=
  ∀ codificacion, encoding = some codificacion → codificacion.nombre ∈ ["h264", "hevc"]

/-- The burned subtitles have an encoder of the codec. -/
theorem codecQuemado_mem {nombre : String} (h : nombre ∈ ["h264", "hevc"]) :
    codecQuemado configuration nombre ∈ codificadores nombre := by
  unfold codecQuemado
  obtain rfl | rfl : nombre = "h264" ∨ nombre = "hevc" := by simpa using h
  all_goals split <;> decide

theorem coherente_salida (o : Origen)
    (ho : o.salida configuration programa encoding ∈ salidas configuration programa encoding) :
    SalidaCoherente programa encoding (o.salida configuration programa encoding) where
  codificador c hc _ hnombre := by
    rw [codecs_salida] at hc
    split at hc
    · rw [List.mem_singleton.1 hc]
      exact codecQuemado_mem hnombre
    · cases hc
  hevc hfmp4 c hc := by
    have hnombre := (fmp4_iff ho).1 hfmp4
    rw [codecs_salida] at hc
    split at hc
    · rw [List.mem_singleton.1 hc, hnombre]
      exact .inl (codecQuemado_mem (by decide))
    · cases hc
  copia _ op hop := vf_salida o hop

/-- A copied video is called after its format, but for MPEG-2. -/
theorem videoFormat_eq_iff {nombre : String} (h : nombre ≠ "mpeg2") (h' : nombre ≠ "mpeg2video") :
    videoFormat programa = nombre ↔ programa.video.format = nombre := by
  unfold videoFormat
  split
  · rename_i hf
    rw [hf]
    exact ⟨fun hn => absurd hn.symm h, fun hn => absurd hn.symm h'⟩
  · rfl

/-- When the first output of an encoding is coherent. -/
theorem coherente_primera_some (configuration : Config) {codificacion : Codificacion}
    (hnombre : codificacion.nombre ∈ ["h264", "hevc"]) :
    SalidaCoherente programa (some codificacion)
        (primeraSalida configuration programa (some codificacion)) ↔
      (codificacion.nombre = "hevc" → configuration.nvenc = true) := by
  constructor
  · intro h hhevc
    by_contra hnvenc
    have hcodec := h.codificador "libx264"
      (by simp [codecs_primeraSalida, codecCabecera, hnvenc]) (by decide) hnombre
    rw [show codificacionNombre programa (some codificacion) = "hevc" from hhevc] at hcodec
    revert hcodec
    decide
  · intro hnvenc
    have hcodec : codecCabecera configuration (some codificacion) ∈
        codificadores codificacion.nombre := by
      obtain h | h : codificacion.nombre = "h264" ∨ codificacion.nombre = "hevc" := by
        simpa using hnombre
      · by_cases hn : configuration.nvenc = true <;> simp [codecCabecera, codificadores, h, hn]
      · simp [codecCabecera, codificadores, h, hnvenc h]
    refine ⟨fun c hc _ _ => ?_, fun hfmp4 c hc => .inl ?_, fun hc => ?_⟩
    · rw [codecs_primeraSalida, List.mem_singleton] at hc
      rw [hc]
      exact hcodec
    · have hhevc : codificacion.nombre = "hevc" := (fmp4_iff primeraSalida_mem).1 hfmp4
      rw [codecs_primeraSalida, List.mem_singleton] at hc
      rwa [hc, ← hhevc]
    · -- no encoder is called like the copy
      rw [codecs_primeraSalida, List.mem_singleton] at hc
      rw [← hc] at hcodec
      obtain h | h : codificacion.nombre = "h264" ∨ codificacion.nombre = "hevc" := by
        simpa using hnombre
      all_goals simp [codificadores, h] at hcodec

/-- When the first output of the copy is. -/
theorem coherente_primera_none :
    SalidaCoherente programa none (primeraSalida configuration programa none) ↔
      (configuration.deint = true → configuration.hwaccel = true) ∧
        (configuration.hwaccel = true → programa.video.format ≠ "copy") := by
  have hformat : codificacionNombre programa none = "copy" ↔ programa.video.format = "copy" :=
    videoFormat_eq_iff (by decide) (by decide)
  have hfiltro : (∀ o ∈ (primeraSalida configuration programa none).opts, o.flag ≠ "-vf") ↔
      (configuration.deint = true → configuration.hwaccel = true) ∧
        (configuration.hwaccel = true → programa.video.format ≠ "copy") := by
    have := vf_primeraSalida configuration programa none
    rw [hformat] at this
    grind
  rw [← hfiltro]
  constructor
  · exact fun h => h.copia (by simp [codecs_primeraSalida, codecCabecera])
  · intro h
    refine ⟨fun c hc hne _ => ?_, fun hfmp4 c hc => .inr ?_, fun _ => h⟩
    · rw [codecs_primeraSalida, List.mem_singleton] at hc
      exact absurd hc hne
    · rw [codecs_primeraSalida, List.mem_singleton] at hc
      refine ⟨hc, ?_⟩
      exact (videoFormat_eq_iff (by decide) (by decide)).1 ((fmp4_iff primeraSalida_mem).1 hfmp4)

end HlsXcoder
