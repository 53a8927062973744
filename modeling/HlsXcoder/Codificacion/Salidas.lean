import HlsXcoder.Lib.OptionGroups
import HlsXcoder.Codificacion.Argumentos

/-!
# The outputs of the command

ffmpeg reads the argument list as an input and a sequence of outputs:
the options before an output are its own, and no output inherits those
of another. Read that way, the list `inicializarFfmpegEncoding` builds
spells `comando`: the variants and the burned subtitles of each bitrate,
then the audio streams, then the teletext subtitles
(`inicializarFfmpegEncoding_eq`). The options of video that are built
before the loop over the bitrates belong to the first output alone.

The program stops while it builds the list exactly when a bitrate has no
cap, or teletext subtitles find no audio stream
(`inicializarFfmpegEncoding_isSome`).
-/

namespace HlsXcoder

open OptionGroups

abbrev Opcion := Opt String

abbrev Salida := Output String

/-- How ffmpeg reads the arguments it is given here. An output is named
by its playlist. -/
def ffmpeg : Grammar String where
  inputFlag := "-i"
  bare t := t ∈ ["-re", "-an", "-sn", "-vn"]
  target t := ".m3u8".toList.isSuffixOf t.toList

/-- The output a run of arguments spells, the playlist last. -/
def salidaDe (args : List String) : Salida := ⟨ffmpeg.options args.dropLast, args.getLastD ""⟩

/-- The value of a flag, the last one given. -/
def valor (os : List Opcion) (flag : String) : Option String :=
  (os.filterMap fun o => if o.flag = flag then o.value else none).getLast?

/-- The arguments spell options in full. -/
abbrev Legales (args : List String) : Prop := (ffmpeg.options args).all ffmpeg.legal = true

theorem Legales.append {a b : List String} (ha : Legales a) (hb : Legales b) : Legales (a ++ b) := by
  rw [Legales, Grammar.options_append ha, List.all_append, ha, hb]
  rfl

/-- The arguments spell options in full, and each satisfies a test. -/
abbrev Admite (p : Opcion → Bool) (args : List String) : Prop :=
  (ffmpeg.options args).all (fun o => ffmpeg.legal o && p o) = true

theorem Admite.legales {p : Opcion → Bool} {args : List String} (h : Admite p args) :
    Legales args := by
  rw [Legales, List.all_eq_true]
  intro o ho
  exact (Bool.and_eq_true _ _ ▸ List.all_eq_true.1 h o ho).1

theorem Admite.all {p : Opcion → Bool} {args : List String} (h : Admite p args) :
    (ffmpeg.options args).all p = true := by
  rw [List.all_eq_true]
  intro o ho
  exact (Bool.and_eq_true _ _ ▸ List.all_eq_true.1 h o ho).2

theorem Admite.append {p : Opcion → Bool} {a b : List String} (ha : Admite p a)
    (hb : Admite p b) : Admite p (a ++ b) := by
  rw [Admite, Grammar.options_append ha.legales, List.all_append, ha, hb]
  rfl

/-- Where no option has a property, none is left of them. -/
theorem Admite.filter_eq_nil {p : Opcion → Bool} {args : List String}
    (h : Admite (fun o => !p o) args) : (ffmpeg.options args).filter p = [] := by
  refine List.filter_eq_nil_iff.2 fun o ho => ?_
  simpa using List.all_eq_true.1 h.all o ho

theorem options_append {a : List String} (ha : Legales a) (b : List String) :
    ffmpeg.options (a ++ b) = ffmpeg.options a ++ ffmpeg.options b :=
  Grammar.options_append ha b

theorem valor_append (a b : List Opcion) (flag : String) :
    valor (a ++ b) flag = (valor b flag).or (valor a flag) := by
  rw [valor, List.filterMap_append, List.getLast?_append]
  rfl

theorem target_m3u8 (s : String) : ffmpeg.target (s ++ ".m3u8") = true := by
  simp [ffmpeg, List.isSuffixOf_iff_suffix]

theorem tokens_salidaDe {args : List String} (h : args ≠ []) :
    (salidaDe args).tokens = args := by
  obtain ⟨as, a, rfl⟩ := (List.eq_nil_or_concat' args).resolve_left h
  rw [salidaDe, Output.tokens, Grammar.tokens_options, List.dropLast_concat, List.getLastD_concat]

/-! ## One HLS output -/

section HLS

variable (configuration : Config) (programa : Programa)

/-- The HLS options, without the playlist. -/
def argumentosHLS (segmentpath encoding : String) : List String :=
  ["-flags", "+cgop",
      "-g", itoa (int64 (fpsInt programa.video.fps * configuration.hlsTime)),
      "-hls_time", itoa configuration.hlsTime] ++
    (if 0 < configuration.hlsFragments ∧ configuration.disableStreaming = false then
      ["-hls_list_size", itoa configuration.hlsFragments, "-hls_flags", "delete_segments",
        "-hls_allow_cache", "0"]
    else ["-hls_list_size", "0"]) ++
    (if encoding = "hevc" then
      ["-hls_segment_type", "fmp4", "-hls_segment_filename", segmentpath ++ ".m4s"]
    else ["-hls_segment_filename", segmentpath ++ ".ts"]) ++ ["-f", "hls"]

theorem generarArgumentosHLS_eq (m3u8listpath segmentpath encoding : String) :
    generarArgumentosHLS configuration programa m3u8listpath segmentpath encoding =
      argumentosHLS configuration programa segmentpath encoding ++ [m3u8listpath ++ ".m3u8"] := by
  unfold generarArgumentosHLS argumentosHLS
  by_cases he : encoding = "hevc" <;> simp [he]

theorem legales_argumentosHLS (segmentpath encoding : String) :
    Legales (argumentosHLS configuration programa segmentpath encoding) := by
  unfold argumentosHLS
  refine ((Legales.append ?_ ?_).append ?_).append ?_
  · simp +decide [Legales, Grammar.options, Grammar.legal, ffmpeg]
  · split <;> simp +decide [Legales, Grammar.options, Grammar.legal, ffmpeg]
  · split <;> simp +decide [Legales, Grammar.options, Grammar.legal, ffmpeg]
  · decide

variable {configuration programa}

theorem salidaDe_HLS (args : List String) (m3u8listpath segmentpath encoding : String) :
    salidaDe (args ++ generarArgumentosHLS configuration programa m3u8listpath segmentpath encoding) =
      ⟨ffmpeg.options (args ++ argumentosHLS configuration programa segmentpath encoding),
        m3u8listpath ++ ".m3u8"⟩ := by
  rw [generarArgumentosHLS_eq, ← List.append_assoc, salidaDe, List.dropLast_concat,
    List.getLastD_concat]

end HLS

/-! ## A loop that may stop the program -/

section Bucle

variable {α β : Type} {f : α → Option β} {xs : List α}

theorem mapM_eq_some {g : α → β} (h : ∀ x ∈ xs, f x = some (g x)) : xs.mapM f = some (xs.map g) := by
  induction xs with
  | nil => rfl
  | cons x xs ih =>
    rw [List.mapM_cons, h x List.mem_cons_self, ih fun y hy => h y (List.mem_cons_of_mem _ hy)]
    rfl

theorem mapM_eq_none {x : α} (hx : x ∈ xs) (h : f x = none) : xs.mapM f = none := by
  induction xs with
  | nil => cases hx
  | cons y ys ih =>
    rw [List.mapM_cons]
    obtain rfl | hx := List.mem_cons.1 hx
    · rw [h]; rfl
    · rw [ih hx]
      cases f y <;> rfl

end Bucle

/-! ## The outputs -/

section Salidas

variable (configuration : Config) (programa : Programa) (encoding : Option Codificacion)

/-- The burned outputs of a bitrate. The filter graph, where there is one,
stands before the first. -/
def salidasDVBSubs (codificacionPath bitrate codificacionNombre : String) : List Salida :=
  prepend (ffmpeg.options (if configuration.hwaccel then
      ["-filter_complex", filtroDVBSubs programa] else []))
    (programa.subtitulos.zipIdx.map fun x => salidaDe (argumentosSubtitulo configuration programa
      codificacionPath bitrate codificacionNombre ((bitrateCommand bitrate).getD []) x.1 x.2))

/-- The burned outputs that follow a variant. -/
def salidasQuemadas (bitrate : String) : List Salida :=
  if teletextSubtitle programa then []
  else salidasDVBSubs configuration programa (codificacionPath configuration encoding) bitrate
    (codificacionNombre programa encoding)

/-- The variant of a bitrate. -/
def salidaVideo (bitrate : String) : Salida :=
  salidaDe (argumentosVideo configuration programa encoding bitrate
    ((calcularBitrateMaximo bitrate).getD ""))

/-- The variants, each with its burned outputs after it. -/
def salidasVideo : List Salida :=
  if bitratesDe encoding = [] then
    salidaDe (argumentosDefault configuration programa encoding) ::
      salidasQuemadas configuration programa encoding ""
  else (bitratesDe encoding).flatMap fun bitrate =>
    salidaVideo configuration programa encoding bitrate ::
      salidasQuemadas configuration programa encoding bitrate

def salidasAudio : List Salida :=
  programa.audio.map fun elem => salidaDe (argumentosAudio configuration programa encoding elem)

def salidasTeletexto : List Salida :=
  if teletextSubtitle programa then programa.subtitulos.map fun elem =>
    salidaDe (argumentosTeletexto configuration programa encoding (programa.audio.headD default) elem)
  else []

/-- **The outputs of the command.** What is built before the loop over the
bitrates joins the first of them. -/
def salidas : List Salida :=
  prepend (ffmpeg.options (cabeceraVideo configuration programa encoding))
    (salidasVideo configuration programa encoding ++ salidasAudio configuration programa encoding ++
      salidasTeletexto configuration programa encoding)

/-- The command, as ffmpeg reads it. -/
def comando : Command String where
  inputOpts := ffmpeg.options (commandArgs configuration programa ++
    preInputCommands configuration programa)
  input := configuration.input
  outputs := salidas configuration programa encoding

/-- Nothing stops the program while it builds the command: each bitrate
has a cap, and teletext subtitles find an audio stream. -/
def Construible : Prop :=
  (∀ b ∈ bitratesDe encoding, (calcularBitrateMaximo b).isSome = true) ∧
    (teletextSubtitle programa = true → programa.audio ≠ [])

variable {configuration programa encoding}

theorem subtitulos_ne_nil_of_teletext (h : teletextSubtitle programa = true) :
    programa.subtitulos ≠ [] := by
  intro hs
  simp [teletextSubtitle, hs] at h

theorem argumentosHLS_append_ne_nil (args : List String) (m3u8 seg enc : String) :
    args ++ generarArgumentosHLS configuration programa m3u8 seg enc ≠ [] := by
  rw [generarArgumentosHLS_eq]
  simp

/-- The burned outputs, token by token. -/
theorem generarArgumentosDVBSubs_eq {bitrate : String}
    (h : (bitrateCommand bitrate).isSome = true) (path nombre : String) :
    generarArgumentosDVBSubs configuration programa path bitrate nombre =
      some ((salidasDVBSubs configuration programa path bitrate nombre).flatMap Output.tokens) := by
  obtain ⟨orden, horden⟩ := Option.isSome_iff_exists.1 h
  rw [generarArgumentosDVBSubs, mapM_eq_some (g := fun x => argumentosSubtitulo configuration
    programa path bitrate nombre orden x.1 x.2) fun x _ => by rw [horden]; rfl]
  simp only [Option.bind_eq_bind, Option.bind_some, salidasDVBSubs, horden, Option.getD_some]
  by_cases hs : programa.subtitulos = []
  · simp [hs, prepend]
  rw [tokens_prepend _ (by simpa using hs), Grammar.tokens_options]
  simp only [hs, not_false_iff, true_and, ne_eq, List.flatMap_map, ← List.flatMap_def]
  congr 2
  refine List.flatMap_congr fun x _ => ?_
  exact (tokens_salidaDe (argumentosHLS_append_ne_nil _ _ _ _)).symm

theorem isSome_bitrateCommand {bitrate : String} (h : (calcularBitrateMaximo bitrate).isSome = true) :
    (bitrateCommand bitrate).isSome = true := by
  unfold bitrateCommand
  split
  · rfl
  · rwa [Option.isSome_map]

theorem argumentosQuemados_eq {bitrate : String} (h : (bitrateCommand bitrate).isSome = true) :
    argumentosQuemados configuration programa encoding bitrate =
      some ((salidasQuemadas configuration programa encoding bitrate).flatMap Output.tokens) := by
  unfold argumentosQuemados salidasQuemadas
  split
  · rfl
  · exact generarArgumentosDVBSubs_eq h _ _

theorem tokens_argumentosVideo (bitrate maximo : String) :
    (salidaDe (argumentosVideo configuration programa encoding bitrate maximo)).tokens =
      argumentosVideo configuration programa encoding bitrate maximo :=
  tokens_salidaDe (argumentosHLS_append_ne_nil _ _ _ _)

theorem tokens_argumentosDefault :
    (salidaDe (argumentosDefault configuration programa encoding)).tokens =
      argumentosDefault configuration programa encoding :=
  tokens_salidaDe (argumentosHLS_append_ne_nil _ _ _ _)

/-- The video commands, token by token. -/
theorem videoCommands_eq (h : Construible programa encoding) :
    videoCommands configuration programa encoding =
      some (cabeceraVideo configuration programa encoding ++
        (salidasVideo configuration programa encoding).flatMap Output.tokens) := by
  have hcon : (bitratesDe encoding).mapM (argumentosConBitrate configuration programa encoding) =
      some ((bitratesDe encoding).map fun b => (salidaVideo configuration programa encoding b ::
        salidasQuemadas configuration programa encoding b).flatMap Output.tokens) := by
    refine mapM_eq_some fun b hb => ?_
    obtain ⟨m, hm⟩ := Option.isSome_iff_exists.1 (h.1 b hb)
    rw [argumentosConBitrate, argumentosQuemados_eq (isSome_bitrateCommand (h.1 b hb)), hm,
      List.flatMap_cons, salidaVideo, hm, Option.getD_some, tokens_argumentosVideo]
    rfl
  have hsin : argumentosSinBitrate configuration programa encoding =
      some ((salidaDe (argumentosDefault configuration programa encoding) ::
        salidasQuemadas configuration programa encoding "").flatMap Output.tokens) := by
    rw [argumentosSinBitrate, argumentosQuemados_eq (by rfl), List.flatMap_cons,
      tokens_argumentosDefault]
    rfl
  rw [videoCommands, hcon, hsin, salidasVideo]
  by_cases hb : bitratesDe encoding = []
  · simp [hb]
  · simp only [hb, if_false, List.flatMap_assoc, Option.bind_eq_bind, Option.bind_some,
      List.append_nil]
    rw [List.flatMap_def (l := bitratesDe encoding)]

theorem audioCommands_eq : audioCommands configuration programa encoding =
    (salidasAudio configuration programa encoding).flatMap Output.tokens := by
  rw [audioCommands, salidasAudio, List.flatMap_map]
  refine List.flatMap_congr fun elem _ => ?_
  exact (tokens_salidaDe (argumentosHLS_append_ne_nil _ _ _ _)).symm

theorem subsCommands_eq (h : Construible programa encoding) :
    subsCommands configuration programa encoding =
      some ((salidasTeletexto configuration programa encoding).flatMap Output.tokens) := by
  unfold subsCommands salidasTeletexto
  split
  · rename_i ht
    obtain ⟨a, as, has⟩ := List.exists_cons_of_ne_nil (h.2 ht)
    rw [mapM_eq_some (g := fun elem => argumentosTeletexto configuration programa encoding a elem)
      fun elem _ => by rw [has]; rfl, has, List.flatMap_map, Option.map_some, ← List.flatMap_def]
    refine congrArg some (List.flatMap_congr fun elem _ => ?_)
    exact (tokens_salidaDe (argumentosHLS_append_ne_nil _ _ _ _)).symm
  · rfl

theorem salidasVideo_ne_nil : salidasVideo configuration programa encoding ≠ [] := by
  unfold salidasVideo
  split
  · simp
  · rename_i hb
    obtain ⟨b, bs, hbs⟩ := List.exists_cons_of_ne_nil hb
    simp [hbs]

/-- **The argument list spells the command**, where nothing stops the
program. -/
theorem inicializarFfmpegEncoding_eq (h : Construible programa encoding) :
    inicializarFfmpegEncoding configuration programa encoding =
      some ((comando configuration programa encoding).tokens "-i") := by
  have hne : salidasVideo configuration programa encoding ++
      salidasAudio configuration programa encoding ++
      salidasTeletexto configuration programa encoding ≠ [] := by
    simp [salidasVideo_ne_nil]
  rw [inicializarFfmpegEncoding, videoCommands_eq h, subsCommands_eq h, audioCommands_eq]
  simp only [Option.bind_eq_bind, Option.bind_some, Command.tokens, comando, salidas]
  rw [tokens_prepend _ hne]
  simp only [Grammar.tokens_options, List.flatMap_append, List.append_assoc, List.cons_append,
    List.nil_append]

/-- **No argument list without all the caps and the audio stream.** -/
theorem inicializarFfmpegEncoding_eq_none (h : ¬ Construible programa encoding) :
    inicializarFfmpegEncoding configuration programa encoding = none := by
  rw [Construible, Classical.not_and_iff_not_or_not] at h
  rw [inicializarFfmpegEncoding]
  obtain h | h := h
  · simp only [not_forall, Option.not_isSome_iff_eq_none] at h
    obtain ⟨b, hb, hnone⟩ := h
    have hcon : argumentosConBitrate configuration programa encoding b = none := by
      rw [argumentosConBitrate, hnone]
      rfl
    rw [videoCommands, mapM_eq_none hb hcon]
    rfl
  · simp only [Classical.not_imp, ne_eq, not_not] at h
    obtain ⟨e, es, hes⟩ := List.exists_cons_of_ne_nil (subtitulos_ne_nil_of_teletext h.1)
    have hsubs : subsCommands configuration programa encoding = none := by
      rw [subsCommands, if_pos h.1, mapM_eq_none (x := e) (by simp [hes]) (by simp [h.2])]
      rfl
    rw [hsubs]
    cases videoCommands configuration programa encoding <;> rfl

theorem inicializarFfmpegEncoding_isSome :
    (inicializarFfmpegEncoding configuration programa encoding).isSome = true ↔
      Construible programa encoding := by
  by_cases h : Construible programa encoding
  · simp [inicializarFfmpegEncoding_eq h, h]
  · simp [inicializarFfmpegEncoding_eq_none h, h]

end Salidas

end HlsXcoder
