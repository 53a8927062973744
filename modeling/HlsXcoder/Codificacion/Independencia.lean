import HlsXcoder.Entrada
import HlsXcoder.Codificacion.Salidas

/-!
# What the command of one encoding depends on

Two command lines that differ in their `-cv` values alone give two
configurations that differ in the list of encodings and in `nvenc`, which
any value of the list sets for all of them. The argument list of an
encoding reads `nvenc` where it picks the codec (`cabeceraVideo`), so the
lists of two such runs agree exactly where the flag does
(`ordenPropia_iff`).
-/

namespace HlsXcoder

/-- **Of the values of `-cv`, the argument list of an encoding reads
whether the GPU is asked for**, and nothing else. -/
theorem inicializarFfmpegEncoding_configuracionDe (flags : Flags) (cv : List String)
    (input : String) (codificaciones : List Codificacion) (nvenc : Bool) (programa : Programa)
    (encoding : Option Codificacion) :
    inicializarFfmpegEncoding
        (configuracionDe { flags with cv := cv } input codificaciones nvenc) programa encoding =
      inicializarFfmpegEncoding { configuracionDe flags input [] false with nvenc := nvenc }
        programa encoding := rfl

/-- The codec options open with the preset, which `nvenc` decides. -/
theorem cabeceraVideo_ne (configuration : Config) (programa : Programa)
    (codificacion : Codificacion) (b b' : List String) :
    cabeceraVideo { configuration with nvenc := true } programa (some codificacion) ++ b ≠
      cabeceraVideo { configuration with nvenc := false } programa (some codificacion) ++ b' := by
  simp only [cabeceraVideo, if_true, Bool.false_eq_true, if_false, List.append_assoc]
  intro h
  have hcodec := List.append_cancel_left h
  simp at hcodec

/-- An argument list is what the input takes, the codec options and the
outputs. -/
theorem exists_inicializarFfmpegEncoding (configuration : Config) {programa : Programa}
    {encoding : Option Codificacion} (h : Construible programa encoding) :
    ∃ salidas, inicializarFfmpegEncoding configuration programa encoding =
      some (commandArgs configuration programa ++ (preInputCommands configuration programa ++
        ("-i" :: configuration.input ::
          (cabeceraVideo configuration programa encoding ++ salidas)))) := by
  rw [inicializarFfmpegEncoding, videoCommands_eq h, subsCommands_eq h]
  simp only [Option.bind_eq_bind, Option.bind_some, List.append_assoc, List.cons_append,
    List.nil_append]
  exact ⟨_, rfl⟩

/-- **Asking for the GPU changes the argument list of an encoding**,
wherever it has one. -/
theorem inicializarFfmpegEncoding_nvenc_ne (configuration : Config) {programa : Programa}
    {codificacion : Codificacion} (h : Construible programa (some codificacion)) :
    inicializarFfmpegEncoding { configuration with nvenc := true } programa (some codificacion) ≠
      inicializarFfmpegEncoding { configuration with nvenc := false } programa
        (some codificacion) := by
  intro heq
  obtain ⟨a, ha⟩ := exists_inicializarFfmpegEncoding { configuration with nvenc := true } h
  obtain ⟨b, hb⟩ := exists_inicializarFfmpegEncoding { configuration with nvenc := false } h
  rw [ha, hb] at heq
  -- nothing before the codec options reads `nvenc`
  have hentrada := List.append_cancel_left (Option.some.inj heq)
  have hpreInput := List.append_cancel_left hentrada
  simp only [List.cons.injEq, true_and] at hpreInput
  exact cabeceraVideo_ne configuration programa codificacion a b hpreInput

/-- **The command of an encoding depends on its own flag alone exactly
where no other flag changes whether the GPU is asked for**, or where
there is no command at all. -/
theorem ordenPropia_iff {youtubeDl : String → Option String} {flags : Flags} {cv : List String}
    {c c' : Config} {i : ℕ} {v : String} {programa : Programa}
    (hc : obtenerArgumentos youtubeDl flags = some (true, c))
    (hc' : obtenerArgumentos youtubeDl { flags with cv := cv } = some (true, c'))
    (hv : flags.cv[i]? = some v) (hv' : cv[i]? = some v) :
    inicializarFfmpegEncoding c programa c.encodings[i]? =
        inicializarFfmpegEncoding c' programa c'.encodings[i]? ↔
      flags.cv.any pideNvenc = cv.any pideNvenc ∨
        ¬ Construible programa (codificacionPedida v) := by
  have he : c.encodings[i]? = codificacionPedida v := by
    rw [encodings_getElem? hc, hv]
    rfl
  have he' : c'.encodings[i]? = codificacionPedida v := by
    rw [encodings_getElem? hc']
    simp [hv', codificacionPedida]
  obtain ⟨codificacion, hcod⟩ := Option.isSome_iff_exists.1 (isSome_codificacionPedida hc hv)
  obtain ⟨input, ms, hi, -, rfl⟩ := obtenerArgumentos_accepted hc
  obtain ⟨input', ms', hi', -, rfl⟩ := obtenerArgumentos_accepted hc'
  obtain rfl : input = input' := Option.some.inj (hi.symm.trans hi')
  rw [he, he', hcod, inicializarFfmpegEncoding_configuracionDe flags cv,
    show flags = { flags with cv := flags.cv } from rfl,
    inicializarFfmpegEncoding_configuracionDe flags flags.cv]
  by_cases h : Construible programa (some codificacion)
  · have hne := inicializarFfmpegEncoding_nvenc_ne (configuracionDe flags input [] false) h
    cases flags.cv.any pideNvenc <;> cases cv.any pideNvenc
    case false.true => simpa [h] using hne.symm
    case true.false => simpa [h] using hne
    all_goals simp
  · rw [inicializarFfmpegEncoding_eq_none h, inicializarFfmpegEncoding_eq_none h]
    simp [h]

/-- The configuration of a file with one encoding `h264`, after the
values of `-cv`. -/
def configuracionH264 (resto : List Codificacion) (nvenc : Bool) : Config :=
  configuracionDe { i := "entrada.ts" } "entrada.ts" (⟨"h264", []⟩ :: resto) nvenc

theorem obtenerArgumentos_h264 : obtenerArgumentos (fun _ => none)
    { i := "entrada.ts", cv := ["h264"] } = some (true, configuracionH264 [] false) := by
  decide +kernel

theorem obtenerArgumentos_h264_hevc : obtenerArgumentos (fun _ => none)
    { i := "entrada.ts", cv := ["h264", "h265:2800"] } =
      some (true, configuracionH264 [⟨"hevc", ["2800"]⟩] false) := by
  decide +kernel

/-- The command of `h264` is the same beside a second encoding that does
without the GPU. -/
theorem ordenPropia_cpu :
    inicializarFfmpegEncoding (configuracionH264 [] false) default (some ⟨"h264", []⟩) =
      inicializarFfmpegEncoding (configuracionH264 [⟨"hevc", ["2800"]⟩] false) default
        (some ⟨"h264", []⟩) :=
  (ordenPropia_iff obtenerArgumentos_h264 obtenerArgumentos_h264_hevc
    (rfl : ["h264"][0]? = some "h264") rfl).2 (.inl (by decide +kernel))

/-- A second encoding on the GPU changes the command of `h264`. -/
theorem ordenPropia_ajena :
    obtenerArgumentos (fun _ => none) { i := "entrada.ts", cv := ["h264"] } =
        some (true, configuracionH264 [] false) ∧
      obtenerArgumentos (fun _ => none) { i := "entrada.ts", cv := ["h264", "hevc_nvenc"] } =
        some (true, configuracionH264 [⟨"hevc", []⟩] true) ∧
      inicializarFfmpegEncoding (configuracionH264 [] false) default (some ⟨"h264", []⟩) ≠
        inicializarFfmpegEncoding (configuracionH264 [⟨"hevc", []⟩] true) default
          (some ⟨"h264", []⟩) := by
  refine ⟨obtenerArgumentos_h264, by decide +kernel, ?_⟩
  have h : Construible default (some ⟨"h264", []⟩) := ⟨by simp [bitratesDe], by decide⟩
  exact (inicializarFfmpegEncoding_nvenc_ne (configuracionH264 [] false) h).symm

end HlsXcoder
