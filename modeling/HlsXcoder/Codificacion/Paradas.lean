import HlsXcoder.Ejecucion
import HlsXcoder.Entrada
import HlsXcoder.Codificacion.Salidas
import HlsXcoder.Codificacion.Sonda

/-!
# Where the program stops

The line loop indexes the matches of three patterns and looks up the
program being read. The program is always there
(`Lectura.Situada.leerLinea`), and a line that is a stream has matched
its pattern; but the frame rate and the chroma of a video are asked of
the line without being looked for first. So the loop ends exactly where
every video line that counts has both.

The builder of the command slices the first two characters of each
bitrate and indexes the first audio stream for teletext subtitles. What
the command line lets through and what the probe returns guarantee
neither.
-/

namespace HlsXcoder

/-! ## The line loop -/

/-- The program being read, if there is one, is in the map. -/
def Lectura.Situada (l : Lectura) : Prop :=
  l.programId = "" ∨ (l.programas l.programId).isSome = true

/-- A line whose frame rate and chroma are there where they are asked
for: on a video that was not left out. -/
def LineaLegible (configuration : Config) (linea : String) : Prop :=
  ∀ stream, clasificar configuration linea = .stream stream → stream 4 = "Video" →
    (configuration.streams = [] ∨ stream 2 ∈ configuration.streams) →
    (findStringSubmatch fpsReg linea).isSome = true ∧
      (findStringSubmatch chromaReg linea).isSome = true

section Bucle

variable {configuration : Config} {linea : String}

theorem situada_poner (l : Lectura) (programa : Programa) : (l.poner programa).Situada :=
  .inr (by simp [Lectura.poner])

/-- A stream line is read in a program that is there, unless it is a video
without a frame rate or a chroma. -/
theorem leerStream_isSome {stream : ℕ → String} {l : Lectura}
    (hl : (l.programas l.programId).isSome = true) :
    (leerStream configuration linea stream l).isSome = true ↔
      (stream 4 = "Video" → (configuration.streams = [] ∨ stream 2 ∈ configuration.streams) →
        (findStringSubmatch fpsReg linea).isSome = true ∧
          (findStringSubmatch chromaReg linea).isSome = true) := by
  obtain ⟨P, hP⟩ := Option.isSome_iff_exists.1 hl
  rw [leerStream, hP, Option.bind_eq_bind, Option.bind_some]
  by_cases hfuera : (!configuration.streams.isEmpty && !configuration.streams.contains (stream 2)) =
      true
  · rw [if_pos hfuera]
    simp only [Bool.and_eq_true, Bool.not_eq_true', List.isEmpty_eq_false_iff] at hfuera
    simp_all
  · have hdentro : configuration.streams = [] ∨ stream 2 ∈ configuration.streams := by
      simpa [Decidable.or_iff_not_imp_left] using hfuera
    rw [if_neg hfuera]
    split
    · rename_i hvideo
      simp only [hvideo, hdentro, forall_const, leerVideo, Option.bind_eq_bind]
      cases findStringSubmatch fpsReg linea <;> cases findStringSubmatch chromaReg linea <;> simp
    all_goals simp_all

theorem Lectura.Situada.leerStream {stream : ℕ → String}
    (hs : findStringSubmatch streamReg linea = some stream) {l l' : Lectura}
    (hl : (l.programas l.programId).isSome = true)
    (h : leerStream configuration linea stream l = some l') :
    (l'.programas l'.programId).isSome = true := by
  obtain rfl | ⟨P, P', -, -, hid, hprog⟩ := leerStream_cases hs h
  · exact hl
  · rw [hprog, hid]
    simp [Lectura.poner]

/-- **No line loses the program being read.** -/
theorem Lectura.Situada.leerLinea {l l' : Lectura} {w : Option String} (hl : l.Situada)
    (h : leerLinea configuration linea l = some (w, l')) : l'.Situada := by
  cases pasoLinea_of_leerLinea h with
  | programa hc => exact situada_poner _ _
  | servicioSuelto hc hid => exact hl
  | servicio hc hid hP => exact .inr (by simp [Lectura.poner])
  | streamSuelto hc hid hl' =>
    have hsin : ((sinPrograma l).programas (sinPrograma l).programId).isSome = true := by
      simp [sinPrograma, Lectura.poner]
    exact .inr (Lectura.Situada.leerStream (findStringSubmatch_of_clasificar hc) hsin hl')
  | stream hc hid hl' =>
    exact .inr (Lectura.Situada.leerStream (findStringSubmatch_of_clasificar hc)
      (hl.resolve_left hid) hl')
  | otra hc => exact hl

/-- **A line stops the loop exactly where it is not legible.** -/
theorem leerLinea_isSome {l : Lectura} (hl : l.Situada) :
    (leerLinea configuration linea l).isSome = true ↔ LineaLegible configuration linea := by
  rw [leerLinea, LineaLegible]
  cases hc : clasificar configuration linea with
  | programa programId => simp
  | otra => simp
  | servicio nombre =>
    by_cases hid : l.programId = ""
    · simp [hid]
    · obtain ⟨P, hP⟩ := Option.isSome_iff_exists.1 (hl.resolve_left hid)
      simp [hid, hP]
  | stream stream =>
    have hclase : (∀ stream', ClaseLinea.stream stream = .stream stream' → stream' 4 = "Video" →
        (configuration.streams = [] ∨ stream' 2 ∈ configuration.streams) →
        (findStringSubmatch fpsReg linea).isSome = true ∧
          (findStringSubmatch chromaReg linea).isSome = true) ↔
        (stream 4 = "Video" → (configuration.streams = [] ∨ stream 2 ∈ configuration.streams) →
          (findStringSubmatch fpsReg linea).isSome = true ∧
            (findStringSubmatch chromaReg linea).isSome = true) :=
      ⟨fun h => h stream rfl, fun h stream' heq => ClaseLinea.stream.inj heq ▸ h⟩
    rw [hclase]
    by_cases hid : l.programId = ""
    · have hsin : ((sinPrograma l).programas (sinPrograma l).programId).isSome = true := by
        simp [sinPrograma, Lectura.poner]
      rw [← leerStream_isSome hsin]
      cases hleer : leerStream configuration linea stream (sinPrograma l) <;> simp [hid, hleer]
    · rw [← leerStream_isSome (hl.resolve_left hid)]
      cases hleer : leerStream configuration linea stream l <;> simp [hid, hleer]

theorem leerLineas_isSome_of {lineas : List String} {programa : Programa} {l : Lectura}
    (hl : l.Situada) : (leerLineas configuration lineas (programa, l)).isSome = true ↔
      ∀ linea ∈ lineas, LineaLegible configuration linea := by
  induction lineas generalizing programa l with
  | nil => simp [leerLineas]
  | cons linea lineas ih =>
    rw [List.forall_mem_cons, ← leerLinea_isSome hl]
    simp only [leerLineas, Option.bind_eq_bind]
    cases hlinea : leerLinea configuration linea l with
    | none => simp
    | some p =>
      obtain ⟨w, l'⟩ := p
      simp [ih (hl.leerLinea hlinea)]

/-- **The line loop ends exactly where every line is legible.** -/
theorem leerLineas_isSome_iff (configuration : Config) (lineas : List String) (programa : Programa) :
    (leerLineas configuration lineas (programa, .inicial)).isSome = true ↔
      ∀ linea ∈ lineas, LineaLegible configuration linea :=
  leerLineas_isSome_of (.inl rfl)

/-- A video without a frame rate, a still picture say, stops the loop. -/
theorem leerLineas_sinFps : (leerLineas .minima
    ["    Stream #0:0[0x100]: Video: h264 (High), yuv420p(progressive), 1920x1080, 90k tbn"]
    (default, .inicial)).isSome = false := by
  decide +kernel

end Bucle

/-! ## The builder of the command -/

/-- **The command is built exactly where** each bitrate has two digits and
teletext subtitles find an audio stream. -/
theorem inicializarFfmpegEncoding_isSome_iff {youtubeDl : String → Option String} {flags : Flags}
    {configuration : Config} (hc : obtenerArgumentos youtubeDl flags = some (true, configuration))
    (programa : Programa) (i : Fin (encodingsNumber configuration)) :
    (inicializarFfmpegEncoding configuration programa
        (codificacionDeIndice configuration i)).isSome = true ↔
      (∀ b ∈ bitratesDe (codificacionDeIndice configuration i), 2 ≤ b.length) ∧
        (teletextSubtitle programa = true → programa.audio ≠ []) := by
  rw [inicializarFfmpegEncoding_isSome, Construible]
  refine and_congr_left fun _ => forall₂_congr fun b hb => ?_
  cases hcod : codificacionDeIndice configuration i with
  | none => simp [hcod, bitratesDe] at hb
  | some codificacion =>
    rw [hcod] at hb
    have hdigits := (bitrates_of_mem_encodings hc (mem_encodings_of_codificacionDeIndice hcod) hb).2
    exact ⟨fun h => (esBitrate_of_isSome (List.all_eq_true.2 hdigits) h).1,
      calcularBitrateMaximo_isSome⟩

theorem inicializarFfmpegEncoding_isSome_2800 : ∃ configuration,
    obtenerArgumentos (fun _ => none) { i := "entrada.ts", cv := ["h264:2800"] } =
        some (true, configuration) ∧
      (inicializarFfmpegEncoding configuration default (some ⟨"h264", ["2800"]⟩)).isSome = true := by
  have hc : obtenerArgumentos (fun _ => none) { i := "entrada.ts", cv := ["h264:2800"] } =
      some (true, configuracionDe { i := "entrada.ts" } "entrada.ts" [⟨"h264", ["2800"]⟩] false) := by
    decide +kernel
  exact ⟨_, hc, (inicializarFfmpegEncoding_isSome_iff hc default (0 : Fin 1)).2
    ⟨by decide, by decide⟩⟩

/-- A bitrate of one digit is sliced out of range. -/
theorem inicializarFfmpegEncoding_none_5 : ∃ configuration programa resumen,
    obtenerArgumentos (fun _ => none) { i := "entrada.ts", cv := ["h264:5"] } =
        some (true, configuration) ∧
      obtenerStreamsPost configuration
        ["Stream #0:0[0x100]: Video: h264, yuv420p, 1920x1080, 25 fps, 25 tbr"] default =
          some (programa, resumen) ∧
      inicializarFfmpegEncoding configuration programa (some ⟨"h264", ["5"]⟩) = none := by
  have hc : obtenerArgumentos (fun _ => none) { i := "entrada.ts", cv := ["h264:5"] } =
      some (true, configuracionDe { i := "entrada.ts" } "entrada.ts" [⟨"h264", ["5"]⟩] false) := by
    decide +kernel
  have hP : (obtenerStreamsPost
      (configuracionDe { i := "entrada.ts" } "entrada.ts" [⟨"h264", ["5"]⟩] false)
      ["Stream #0:0[0x100]: Video: h264, yuv420p, 1920x1080, 25 fps, 25 tbr"] default).isSome =
        true := by
    decide +kernel
  obtain ⟨⟨programa, resumen⟩, hprograma⟩ := Option.isSome_iff_exists.1 hP
  refine ⟨_, programa, resumen, hc, hprograma, inicializarFfmpegEncoding_eq_none fun h => ?_⟩
  exact absurd (h.1 "5" (by simp [bitratesDe])) (by decide)

end HlsXcoder
