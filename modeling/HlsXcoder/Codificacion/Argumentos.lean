import HlsXcoder.Configuracion
import HlsXcoder.Codificacion.ListaMaestra

/-!
# The arguments of ffmpeg

`inicializarFfmpegEncoding` builds one argument list for one encoding,
with an output per bitrate, one per burned subtitle and bitrate, one per
audio stream and one per teletext subtitle. The argument lists here are
the flat lists of strings the source hands to ffmpeg; what outputs they
spell is read off them in the next module.

A list the source appends to under a condition is here a concatenation
with a conditional part, and a loop that appends is a concatenation over
the list it runs through. A slice or an index out of range stops the
program, and then there is no argument list.
-/

namespace HlsXcoder

/-! ## The HLS options of an output -/

/-- The options of an HLS output, with its playlist at the end. -/
def generarArgumentosHLS (configuration : Config) (programa : Programa)
    (m3u8listpath segmentpath encoding : String) : List String :=
  let hlsconfig := ["-flags", "+cgop",
      "-g", itoa (int64 (fpsInt programa.video.fps * configuration.hlsTime)),
      "-hls_time", itoa configuration.hlsTime] ++
    if 0 < configuration.hlsFragments ∧ configuration.disableStreaming = false then
      ["-hls_list_size", itoa configuration.hlsFragments, "-hls_flags", "delete_segments",
        "-hls_allow_cache", "0"]
    else ["-hls_list_size", "0"]
  let output := ["-f", "hls", m3u8listpath ++ ".m3u8"]
  if encoding = "hevc" then
    hlsconfig ++ ["-hls_segment_type", "fmp4", "-hls_segment_filename", segmentpath ++ ".m4s"] ++
      output
  else hlsconfig ++ ["-hls_segment_filename", segmentpath ++ ".ts"] ++ output

/-! ## Burned subtitles -/

/-- The rate options of a bitrate, none for the empty one. -/
def bitrateCommand (bitrate : String) : Option (List String) :=
  if bitrate = "" then some []
  else (calcularBitrateMaximo bitrate).map fun maximo =>
    ["-b:v", bitrate ++ "k", "-maxrate", maximo ++ "k"]

/-- What a burned subtitle appends to the filter graph. -/
def overlayDVBSubs (subtitulos : ℕ) (elem : Stream) (index : ℕ) : String :=
  let n := itoa index
  "[" ++ getMapId elem ++ "]" ++ "[base" ++ n ++ "]" ++ "scale2ref=ih*mdar:ih[subtitle" ++ n ++
    "][ref" ++ n ++ "];[ref" ++ n ++ "][subtitle" ++ n ++
    "]overlay=(W-w)/2:(H-h)/2,hwupload_cuda[sub" ++ n ++ "]" ++
    if index + 1 < subtitulos then ";" else ""

/-- What a burned subtitle appends to the argument list, after the rate
options of its bitrate. -/
def argumentosSubtitulo (configuration : Config) (programa : Programa)
    (codificacionPath bitrate codificacionNombre : String) (bitrateCommand : List String)
    (elem : Stream) (index : ℕ) : List String :=
  let subsPath := codificacionPath ++ "/subtitulos/" ++ elem.language
  let bitratePath := if bitrate = "" then "" else bitrate ++ "-"
  let nvenc := if configuration.nvenc then "_nvenc" else ""
  (if configuration.hwaccel then
    bitrateCommand ++ ["-map", "[sub" ++ itoa index ++ "]", "-an", "-sn",
      "-c:v", codificacionNombre ++ nvenc, "-preset", "llhp", "-profile:v", "baseline",
      "-zerolatency", "1", "-cbr", "1", "-rc", "cbr", "-rc-lookahead", "50"]
  else
    ["-filter_complex", "[" ++ getMapId programa.video ++ "][" ++ getMapId elem ++ "]overlay[v]",
      "-map", "[v]", "-an", "-sn", "-vcodec", codificacionNombre]) ++
  generarArgumentosHLS configuration programa
    (subsPath ++ "/" ++ bitratePath ++ "subtitulo")
    (subsPath ++ "/" ++ bitratePath ++ "subtitulo%01d") codificacionNombre

/-- The filter graph that feeds every burned subtitle. -/
def filtroDVBSubs (programa : Programa) : String :=
  let n := programa.subtitulos.length
  let filterComplex := "[" ++ getMapId programa.video ++ "]hwdownload,format=nv12"
  let split := ",split=" ++ itoa n ++
    String.join ((List.range n).map fun index => "[base" ++ itoa index ++ "]")
  let overlay := String.join
    (programa.subtitulos.zipIdx.map fun (elem, index) => overlayDVBSubs n elem index)
  filterComplex ++ split ++ ";" ++ overlay

/-- The outputs with a subtitle burned in, for one bitrate or, with the
empty one, for the default video. -/
def generarArgumentosDVBSubs (configuration : Config) (programa : Programa)
    (codificacionPath bitrate codificacionNombre : String) : Option (List String) := do
  let subtitles ← programa.subtitulos.zipIdx.mapM fun (elem, index) => do
    some (argumentosSubtitulo configuration programa codificacionPath bitrate codificacionNombre
      (← bitrateCommand bitrate) elem index)
  let resultado := if programa.subtitulos ≠ [] ∧ configuration.hwaccel = true then
      ["-filter_complex", filtroDVBSubs programa]
    else []
  some (resultado ++ subtitles.flatten)

/-! ## The command -/

/-- The directory of the encodings. -/
def rutaHls (configuration : Config) : String :=
  configuration.output ++ "/" ++ configuration.mediaId ++ "/hls"

/-- The directory of an encoding, or of the copy mode. -/
def codificacionPath (configuration : Config) : Option Codificacion → String
  | none => rutaHls configuration
  | some codificacion => rutaHls configuration ++ "/" ++ codificacion.nombre

def videoFormat (programa : Programa) : String :=
  if programa.video.format = "mpeg2video" then "mpeg2" else programa.video.format

/-- The name of the encoding, which the copy mode takes from the input. -/
def codificacionNombre (programa : Programa) : Option Codificacion → String
  | none => videoFormat programa
  | some codificacion => codificacion.nombre

def bitratesDe : Option Codificacion → List String
  | none => []
  | some codificacion => codificacion.bitrates

/-- What stands first: reading at native rate, and the text format of
teletext. -/
def commandArgs (configuration : Config) (programa : Programa) : List String :=
  (if configuration.re then ["-re"] else []) ++
    if teletextSubtitle programa then
      if configuration.resolution ≠ "" then
        ["-txt_format", "text", "-txt_duration", "5000", "-canvas_size", configuration.resolution]
      else ["-txt_format", "text", "-txt_duration", "5000"]
    else []

/-- The options of the input that its protocol asks for. -/
def preInputProtocolo (input : String) : List String :=
  if contiene input "rtp" then ["-probesize", "6M", "-analyzeduration", "6M"]
  else if contiene input "udp" then ["-probesize", "3M", "-analyzeduration", "3M"]
  else if contiene input "rtsp" then ["-rtsp_transport", "tcp"]
  else if contiene input "rtmp" then ["-f", "flv"]
  else if contiene input "http" then ["-re"]
  else []

/-- The options of the input. -/
def preInputCommands (configuration : Config) (programa : Programa) : List String :=
  preInputProtocolo configuration.input ++
    (if configuration.resolution ≠ "" ∧ configuration.hwaccel = true then
      ["-resize", configuration.resolution] else []) ++
    (if configuration.hwaccel then
      ["-hwaccel", "cuvid", "-c:v", videoFormat programa ++ "_cuvid"] else []) ++
    (if configuration.deint = true ∧ configuration.hwaccel = true then
      ["-deint", "2", "-drop_second_field", "1"] else []) ++
    ["-thread_queue_size", "128", "-rtbufsize", "128"]

/-- The part of `videoCommands` that is built before the outputs. -/
def cabeceraVideo (configuration : Config) (programa : Programa)
    (encoding : Option Codificacion) : List String :=
  let input := configuration.input
  (if contiene input "rtp" = false ∧ contiene input "udp" = false ∧ contiene input "rtsp" = true then
    ["-movflags", "frag_keyframe+empty_moov"] else []) ++
    (match encoding with
      | some codificacion =>
        if configuration.nvenc then
          ["-map_chapters", "-1", "-c:v", codificacion.nombre ++ "_nvenc", "-preset", "llhp",
            "-zerolatency", "1", "-cbr", "1", "-rc", "cbr", "-rc-lookahead", "50",
            "-profile:v", "baseline"]
        else
          ["-map_chapters", "-1", "-c:v", "libx264", "-preset", "ultrafast",
            "-tune", "zerolatency", "-profile:v", "baseline", "-level:v", "3.2"]
      | none => ["-map_chapters", "-1", "-c:v", "copy"]) ++
    (if configuration.resolution ≠ "" ∧ configuration.hwaccel = false then
      ["-s", configuration.resolution] else []) ++
    (if configuration.hwaccel then
      if codificacionNombre programa encoding = "copy" then ["-vf", "hwdownload,format=nv12"]
      else []
    else ["-pix_fmt", "yuv420p"]) ++
    if configuration.deint = true ∧ configuration.hwaccel = false then ["-vf", "yadif"] else []

/-- The variant of a bitrate. -/
def argumentosVideo (configuration : Config) (programa : Programa)
    (encoding : Option Codificacion) (bitrate maxbitrate : String) : List String :=
  let path := codificacionPath configuration encoding
  ["-map", getMapId programa.video, "-b:v", bitrate ++ "k", "-maxrate", maxbitrate ++ "k",
      "-an", "-sn"] ++
    generarArgumentosHLS configuration programa (path ++ "/" ++ bitrate)
      (path ++ "/" ++ bitrate ++ "-segment-%03d") (codificacionNombre programa encoding)

/-- The variant where no bitrate is asked for. -/
def argumentosDefault (configuration : Config) (programa : Programa)
    (encoding : Option Codificacion) : List String :=
  let path := codificacionPath configuration encoding
  ["-map", getMapId programa.video] ++
    generarArgumentosHLS configuration programa (path ++ "/" ++ "default")
      (path ++ "/" ++ "segment-%03d") (codificacionNombre programa encoding)

/-- The burned outputs that follow a variant, none under teletext. -/
def argumentosQuemados (configuration : Config) (programa : Programa)
    (encoding : Option Codificacion) (bitrate : String) : Option (List String) :=
  if teletextSubtitle programa then some []
  else generarArgumentosDVBSubs configuration programa (codificacionPath configuration encoding)
    bitrate (codificacionNombre programa encoding)

/-- The output of an audio stream. -/
def argumentosAudio (configuration : Config) (programa : Programa)
    (encoding : Option Codificacion) (elem : Stream) : List String :=
  let codificacionAudioPath := codificacionPath configuration encoding ++ "/audio/" ++ elem.language
  ["-ac", "2"] ++
    (if configuration.audioCodificacion ≠ "" then
      (if configuration.audioBitrate ≠ "" then ["-b:a", configuration.audioBitrate ++ "k"] else []) ++
        ["-c:a", configuration.audioCodificacion]
    else ["-c:a", "copy"]) ++
    ["-map", getMapId elem] ++
    (if configuration.audioCodificacion ≠ "" then ["-af", "aresample=async=1:first_pts=0"]
    else []) ++
    ["-map", getMapId programa.video, "-vn"] ++
    generarArgumentosHLS configuration programa (codificacionAudioPath ++ "/audio")
      (codificacionAudioPath ++ "/audio%01d") (codificacionNombre programa encoding)

/-- The output of a teletext subtitle, which takes an audio stream
along. -/
def argumentosTeletexto (configuration : Config) (programa : Programa)
    (encoding : Option Codificacion) (audio elem : Stream) : List String :=
  let subsPath := codificacionPath configuration encoding ++ "/subtitulos/" ++ elem.language
  ["-map_chapters", "-1", "-map", getMapId audio, "-map", getMapId elem,
      "-map", getMapId programa.video, "-vn", "-scodec", "webvtt"] ++
    generarArgumentosHLS configuration programa (subsPath ++ "/subtitulo")
      (subsPath ++ "/reference%01d") (codificacionNombre programa encoding)

/-- The outputs of one bitrate. -/
def argumentosConBitrate (configuration : Config) (programa : Programa)
    (encoding : Option Codificacion) (bitrate : String) : Option (List String) := do
  let maxbitrate ← calcularBitrateMaximo bitrate
  let quemados ← argumentosQuemados configuration programa encoding bitrate
  some (argumentosVideo configuration programa encoding bitrate maxbitrate ++ quemados)

/-- The outputs of video where no bitrate is asked for. -/
def argumentosSinBitrate (configuration : Config) (programa : Programa)
    (encoding : Option Codificacion) : Option (List String) := do
  let quemados ← argumentosQuemados configuration programa encoding ""
  some (argumentosDefault configuration programa encoding ++ quemados)

def videoCommands (configuration : Config) (programa : Programa)
    (encoding : Option Codificacion) : Option (List String) := do
  let conBitrate ← (bitratesDe encoding).mapM (argumentosConBitrate configuration programa encoding)
  let sinBitrate ← (if bitratesDe encoding = [] then
    argumentosSinBitrate configuration programa encoding else some [])
  some (cabeceraVideo configuration programa encoding ++ conBitrate.flatten ++ sinBitrate)

def audioCommands (configuration : Config) (programa : Programa)
    (encoding : Option Codificacion) : List String :=
  programa.audio.flatMap (argumentosAudio configuration programa encoding)

/-- The outputs of teletext. The first audio stream is indexed for each
subtitle. -/
def subsCommands (configuration : Config) (programa : Programa)
    (encoding : Option Codificacion) : Option (List String) :=
  if teletextSubtitle programa then
    (programa.subtitulos.mapM fun elem =>
      programa.audio[0]?.map fun audio =>
        argumentosTeletexto configuration programa encoding audio elem).map List.flatten
  else some []

/-- **The argument list of ffmpeg** for one encoding, or for the copy
mode. -/
def inicializarFfmpegEncoding (configuration : Config) (programa : Programa)
    (encoding : Option Codificacion) : Option (List String) := do
  let videoCommands ← videoCommands configuration programa encoding
  let subsCommands ← subsCommands configuration programa encoding
  some (commandArgs configuration programa ++ preInputCommands configuration programa ++
    ["-i", configuration.input] ++ videoCommands ++ audioCommands configuration programa encoding ++
    subsCommands)

end HlsXcoder
