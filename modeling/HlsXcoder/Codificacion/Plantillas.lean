import HlsXcoder.Codificacion.Salidas

/-!
# The templates of the outputs

What decides which files an output writes is its playlist and three of
its options: the pattern of the segments, their type, and the codec of
the subtitles. They make up the `Plantilla` of the output, and
`map_plantilla_salidas` lists the templates of a command.

The options are also such that ffmpeg reads the command as it was built
(`read_comando`), so that `comandoFfmpeg`, the command read from the
argument list, is `comando` wherever there is an argument list at all.
-/

namespace HlsXcoder

open OptionGroups

/-! ## The template of one output -/

/-- The playlist of an output and the options the names of its files are
made from. -/
structure Plantilla where
  destino : String
  segmentos : Option String
  tipo : Option String
  subtitulos : Option String
  deriving DecidableEq, Repr

def plantilla (x : Salida) : Plantilla where
  destino := x.target
  segmentos := valor x.opts "-hls_segment_filename"
  tipo := valor x.opts "-hls_segment_type"
  subtitulos := valor x.opts "-scodec"

/-- The extension of the segments of an encoding. -/
def extension (encoding : String) : String := if encoding = "hevc" then ".m4s" else ".ts"

/-- The template of an HLS output, with webvtt subtitles or without. -/
def plantillaHLS (encoding m3u8listpath segmentpath : String) (webvtt : Bool) : Plantilla where
  destino := m3u8listpath ++ ".m3u8"
  segmentos := some (segmentpath ++ extension encoding)
  tipo := if encoding = "hevc" then some "fmp4" else none
  subtitulos := if webvtt then some "webvtt" else none

/-- An option that names no file. -/
def noNombra (o : Opcion) : Bool :=
  o.flag ∉ ["-hls_segment_filename", "-hls_segment_type", "-scodec"]

theorem valor_eq_none {os : List Opcion} (h : os.all noNombra = true) (flag : String)
    (hf : flag ∈ ["-hls_segment_filename", "-hls_segment_type", "-scodec"]) :
    valor os flag = none := by
  rw [valor, List.getLast?_eq_none_iff, List.filterMap_eq_nil_iff]
  intro o ho
  have hne : o.flag ≠ flag := by
    rintro rfl
    have := List.all_eq_true.1 h o ho
    simp only [noNombra, decide_not, Bool.not_eq_true', decide_eq_false_iff_not] at this
    exact this hf
  rw [if_neg hne]

/-- Options that name no file leave the template of an output alone. -/
theorem plantilla_append_opts {os : List Opcion} (h : os.all noNombra = true)
    (os' : List Opcion) (t : String) : plantilla ⟨os ++ os', t⟩ = plantilla ⟨os', t⟩ := by
  simp only [plantilla, valor_append, valor_eq_none h "-hls_segment_filename" (by simp),
    valor_eq_none h "-hls_segment_type" (by simp), valor_eq_none h "-scodec" (by simp),
    Option.or_none]

theorem map_plantilla_prepend {os : List Opcion} (h : os.all noNombra = true)
    (xs : List Salida) : (prepend os xs).map plantilla = xs.map plantilla := by
  cases xs with
  | nil => rfl
  | cons x xs => rw [prepend, List.map_cons, List.map_cons, plantilla_append_opts h]

section Plantillas

variable {configuration : Config} {programa : Programa} {encoding : Option Codificacion}

theorem valores_argumentosHLS (configuration : Config) (programa : Programa) (seg enc : String) :
    valor (ffmpeg.options (argumentosHLS configuration programa seg enc)) "-hls_segment_filename" =
        some (seg ++ extension enc) ∧
      valor (ffmpeg.options (argumentosHLS configuration programa seg enc)) "-hls_segment_type" =
        (if enc = "hevc" then some "fmp4" else none) ∧
      valor (ffmpeg.options (argumentosHLS configuration programa seg enc)) "-scodec" = none := by
  unfold argumentosHLS extension
  by_cases hf : 0 < configuration.hlsFragments ∧ configuration.disableStreaming = false <;>
    by_cases he : enc = "hevc" <;>
      simp +decide [hf, he, Grammar.options, ffmpeg, valor]

/-- The template of an output whose own options name no file. -/
theorem plantilla_HLS {args : List String} (h : Admite noNombra args) (m3u8 seg enc : String) :
    plantilla (salidaDe (args ++ generarArgumentosHLS configuration programa m3u8 seg enc)) =
      plantillaHLS enc m3u8 seg false := by
  obtain ⟨h1, h2, h3⟩ :=
    valores_argumentosHLS configuration programa seg enc
  rw [salidaDe_HLS, options_append h.legales, plantilla_append_opts h.all]
  simp [plantilla, plantillaHLS, h1, h2, h3]

/-! The options before the HLS ones name no file, teletext apart. -/

theorem admite_argumentosVideo (bitrate maximo : String) : Admite noNombra
    ["-map", getMapId programa.video, "-b:v", bitrate ++ "k", "-maxrate", maximo ++ "k", "-an",
      "-sn"] := by
  simp +decide [Admite, Grammar.options, Grammar.legal, ffmpeg, noNombra]

theorem admite_argumentosDefault : Admite noNombra ["-map", getMapId programa.video] := by
  simp +decide [Admite, Grammar.options, Grammar.legal, ffmpeg, noNombra]

theorem admite_bitrateCommand (bitrate : String) :
    Admite noNombra ((bitrateCommand bitrate).getD []) := by
  unfold bitrateCommand
  split
  · decide
  · cases calcularBitrateMaximo bitrate <;>
      simp +decide [Admite, Grammar.options, Grammar.legal, ffmpeg, noNombra]

theorem admite_argumentosSubtitulo {orden : List String} (horden : Admite noNombra orden)
    (nombre : String) (elem : Stream) (index : ℕ) : Admite noNombra
      (if configuration.hwaccel then
        orden ++ ["-map", "[sub" ++ itoa index ++ "]", "-an", "-sn",
          "-c:v", nombre ++ (if configuration.nvenc then "_nvenc" else ""), "-preset", "llhp",
          "-profile:v", "baseline", "-zerolatency", "1", "-cbr", "1", "-rc", "cbr",
          "-rc-lookahead", "50"]
      else
        ["-filter_complex", "[" ++ getMapId programa.video ++ "][" ++ getMapId elem ++ "]overlay[v]",
          "-map", "[v]", "-an", "-sn", "-vcodec", nombre]) := by
  split
  · refine horden.append ?_
    simp +decide [Admite, Grammar.options, Grammar.legal, ffmpeg, noNombra]
  · simp +decide [Admite, Grammar.options, Grammar.legal, ffmpeg, noNombra]

theorem admite_argumentosAudio (elem : Stream) : Admite noNombra
    (["-ac", "2"] ++
      (if configuration.audioCodificacion ≠ "" then
        (if configuration.audioBitrate ≠ "" then ["-b:a", configuration.audioBitrate ++ "k"]
          else []) ++ ["-c:a", configuration.audioCodificacion]
      else ["-c:a", "copy"]) ++
      ["-map", getMapId elem] ++
      (if configuration.audioCodificacion ≠ "" then ["-af", "aresample=async=1:first_pts=0"]
        else []) ++
      ["-map", getMapId programa.video, "-vn"]) := by
  refine (((Admite.append ?_ ?_).append ?_).append ?_).append ?_
  · decide
  · split
    · refine Admite.append ?_ ?_
      · split <;> simp +decide [Admite, Grammar.options, Grammar.legal, ffmpeg, noNombra]
      · simp +decide [Admite, Grammar.options, Grammar.legal, ffmpeg, noNombra]
    · decide
  · simp +decide [Admite, Grammar.options, Grammar.legal, ffmpeg, noNombra]
  · split <;> decide
  · simp +decide [Admite, Grammar.options, Grammar.legal, ffmpeg, noNombra]

theorem admite_cabeceraVideo : Admite noNombra (cabeceraVideo configuration programa encoding) := by
  unfold cabeceraVideo
  refine (((Admite.append ?_ ?_).append ?_).append ?_).append ?_
  · split <;> decide
  · split
    · split <;> simp +decide [Admite, Grammar.options, Grammar.legal, ffmpeg, noNombra]
    · decide
  · split <;> simp +decide [Admite, Grammar.options, Grammar.legal, ffmpeg, noNombra]
  · split
    · split <;> decide
    · decide
  · split <;> decide

theorem admite_filtro : Admite noNombra (if configuration.hwaccel then
    ["-filter_complex", filtroDVBSubs programa] else []) := by
  split <;> simp +decide [Admite, Grammar.options, Grammar.legal, ffmpeg, noNombra]

theorem legales_argumentosTeletexto (audio elem : Stream) : Legales
    ["-map_chapters", "-1", "-map", getMapId audio, "-map", getMapId elem,
      "-map", getMapId programa.video, "-vn", "-scodec", "webvtt"] := by
  simp +decide [Legales, Grammar.options, Grammar.legal, ffmpeg]

end Plantillas

/-! ## What the outputs of a command carry -/

/-- What one output carries: the variant of a bitrate, the variant where
there is no bitrate, a subtitle burned into one of the two, an audio
stream or a teletext subtitle. -/
inductive Pista where
  | video (bitrate : String)
  | defecto
  | quemado (bitrate language : String)
  | audio (language : String)
  | teletexto (language : String)
  deriving DecidableEq, Repr

namespace Pista

/-- The directory of its files, below that of the encoding. -/
def carpeta : Pista → String
  | video _ | defecto => ""
  | quemado _ language | teletexto language => "/subtitulos/" ++ language
  | audio language => "/audio/" ++ language

/-- The name of its playlist. -/
def lista : Pista → String
  | video bitrate => bitrate
  | defecto => "default"
  | quemado bitrate _ => (if bitrate = "" then "" else bitrate ++ "-") ++ "subtitulo"
  | audio _ => "audio"
  | teletexto _ => "subtitulo"

/-- The name of its segments before the number. -/
def segmento : Pista → String
  | video bitrate => bitrate ++ "-segment-"
  | defecto => "segment-"
  | quemado bitrate _ => (if bitrate = "" then "" else bitrate ++ "-") ++ "subtitulo"
  | audio _ => "audio"
  | teletexto _ => "reference"

/-- The number in the name of its segments, as ffmpeg is asked for it. -/
def numeral : Pista → String
  | video _ | defecto => "%03d"
  | quemado _ _ | audio _ | teletexto _ => "%01d"

def webvtt : Pista → Bool
  | teletexto _ => true
  | _ => false

end Pista

section Mandato

variable (configuration : Config) (programa : Programa) (encoding : Option Codificacion)

/-- The template of the output that carries a track. -/
def Pista.plantilla (t : Pista) : Plantilla :=
  let ruta := codificacionPath configuration encoding ++ t.carpeta ++ "/"
  plantillaHLS (codificacionNombre programa encoding) (ruta ++ t.lista)
    (ruta ++ t.segmento ++ t.numeral) t.webvtt

/-- The subtitles burned into the video of a bitrate. -/
def pistasQuemadas (bitrate : String) : List Pista :=
  if teletextSubtitle programa then []
  else programa.subtitulos.map fun elem => .quemado bitrate elem.language

/-- The variants, each with its burned subtitles after it. -/
def pistasVideo : List Pista :=
  if bitratesDe encoding = [] then .defecto :: pistasQuemadas programa ""
  else (bitratesDe encoding).flatMap fun bitrate =>
    .video bitrate :: pistasQuemadas programa bitrate

def pistasTeletexto : List Pista :=
  if teletextSubtitle programa then programa.subtitulos.map fun elem => .teletexto elem.language
  else []

/-- **What the outputs of a command carry**, in order. -/
def pistas : List Pista :=
  pistasVideo programa encoding ++ (programa.audio.map fun elem => .audio elem.language) ++
    pistasTeletexto programa

variable {configuration programa encoding}

/-! Which tracks a command carries, kind by kind. -/

theorem mem_pistasQuemadas {b : String} {t : Pista} : t ∈ pistasQuemadas programa b ↔
    teletextSubtitle programa = false ∧ ∃ e ∈ programa.subtitulos, .quemado b e.language = t := by
  unfold pistasQuemadas
  split <;> simp_all

theorem video_mem_pistas {b : String} :
    .video b ∈ pistas programa encoding ↔ b ∈ bitratesDe encoding := by
  unfold pistas pistasVideo pistasTeletexto
  split <;> split <;> simp_all [mem_pistasQuemadas]

theorem defecto_mem_pistas :
    .defecto ∈ pistas programa encoding ↔ bitratesDe encoding = [] := by
  unfold pistas pistasVideo pistasTeletexto
  split <;> split <;> simp_all [mem_pistasQuemadas]

theorem quemado_mem_pistas {b l : String} : .quemado b l ∈ pistas programa encoding ↔
    teletextSubtitle programa = false ∧ (∃ e ∈ programa.subtitulos, e.language = l) ∧
      (b ∈ bitratesDe encoding ∨ bitratesDe encoding = [] ∧ b = "") := by
  unfold pistas pistasVideo pistasTeletexto
  split <;> split <;> simp_all [mem_pistasQuemadas] <;> grind

theorem audio_mem_pistas {l : String} : .audio l ∈ pistas programa encoding ↔
    ∃ e ∈ programa.audio, e.language = l := by
  unfold pistas pistasVideo pistasTeletexto
  split <;> split <;> simp_all [mem_pistasQuemadas]

theorem teletexto_mem_pistas {l : String} : .teletexto l ∈ pistas programa encoding ↔
    teletextSubtitle programa = true ∧ ∃ e ∈ programa.subtitulos, e.language = l := by
  unfold pistas pistasVideo pistasTeletexto
  split <;> split <;> simp_all [mem_pistasQuemadas]

/-- The bitrate in the name of a burned output is one asked for, or there
is none. -/
theorem esBitrate_of_quemado_mem {b l : String} (hb : ∀ b ∈ bitratesDe encoding, EsBitrate b)
    (h : .quemado b l ∈ pistas programa encoding) : b = "" ∨ EsBitrate b := by
  obtain ⟨-, -, hmem | ⟨-, rfl⟩⟩ := quemado_mem_pistas.1 h
  · exact Or.inr (hb b hmem)
  · exact Or.inl rfl

/-- A letter, a digit or a dash. -/
def esNombre (c : Char) : Bool := c.isAlphanum || c = '-'

/-- **The names of a command's files are made of letters, digits and
dashes**, up to the number of a segment. -/
theorem esNombre_of_mem_pistas {t : Pista} (hb : ∀ b ∈ bitratesDe encoding, EsBitrate b)
    (ht : t ∈ pistas programa encoding) :
    t.lista.toList.all esNombre = true ∧ t.segmento.toList.all esNombre = true := by
  have hdigits {b : String} (h : EsBitrate b) : b.toList.all esNombre = true :=
    List.all_eq_true.2 fun c hc => by simp [esNombre, Char.isAlphanum, h.isDigit hc]
  cases t with
  | video b =>
    have hall := hdigits (hb b (video_mem_pistas.1 ht))
    rw [Pista.lista, Pista.segmento, String.toList_append, List.all_append, hall]
    decide
  | quemado b l =>
    have hpre : (if b = "" then "" else b ++ "-").toList.all esNombre = true := by
      split
      · rfl
      · rename_i hne
        rw [String.toList_append, List.all_append,
          hdigits ((esBitrate_of_quemado_mem hb ht).resolve_left hne)]
        decide
    rw [Pista.lista, Pista.segmento, String.toList_append, List.all_append, hpre]
    decide
  | defecto => decide
  | audio l | teletexto l =>
    rw [Pista.lista, Pista.segmento]
    decide

theorem not_mem_of_esNombre {s : List Char} (h : s.all esNombre = true) {c : Char}
    (hc : esNombre c = false) : c ∉ s := by
  intro hmem
  rw [List.all_eq_true.1 h c hmem] at hc
  cases hc

/-- The template of an output, in the words of a track. -/
theorem plantillaHLS_eq {m3u8 seg : String} (t : Pista)
    (hm : m3u8.toList = (codificacionPath configuration encoding ++ t.carpeta ++ "/" ++
      t.lista).toList)
    (hs : seg.toList = (codificacionPath configuration encoding ++ t.carpeta ++ "/" ++
      t.segmento ++ t.numeral).toList) :
    plantillaHLS (codificacionNombre programa encoding) m3u8 seg t.webvtt =
      t.plantilla configuration programa encoding := by
  rw [String.toList_inj.1 hm, String.toList_inj.1 hs]
  rfl

theorem plantilla_argumentosDefault :
    plantilla (salidaDe (argumentosDefault configuration programa encoding)) =
      Pista.defecto.plantilla configuration programa encoding := by
  rw [argumentosDefault, plantilla_HLS admite_argumentosDefault]
  exact plantillaHLS_eq .defecto (by simp [Pista.carpeta, Pista.lista])
    (by simp [Pista.carpeta, Pista.segmento, Pista.numeral])

theorem plantilla_salidaVideo (b : String) :
    plantilla (salidaVideo configuration programa encoding b) =
      (Pista.video b).plantilla configuration programa encoding := by
  rw [salidaVideo, argumentosVideo, plantilla_HLS (admite_argumentosVideo _ _)]
  exact plantillaHLS_eq (.video b) (by simp [Pista.carpeta, Pista.lista])
    (by simp [Pista.carpeta, Pista.segmento, Pista.numeral])

theorem plantilla_argumentosSubtitulo (bitrate : String) (elem : Stream) (index : ℕ) :
    plantilla (salidaDe (argumentosSubtitulo configuration programa
      (codificacionPath configuration encoding) bitrate (codificacionNombre programa encoding)
      ((bitrateCommand bitrate).getD []) elem index)) =
      (Pista.quemado bitrate elem.language).plantilla configuration programa encoding := by
  rw [argumentosSubtitulo, plantilla_HLS
    (admite_argumentosSubtitulo (admite_bitrateCommand bitrate) _ _ _)]
  exact plantillaHLS_eq (.quemado bitrate elem.language) (by simp [Pista.carpeta, Pista.lista])
    (by simp [Pista.carpeta, Pista.segmento, Pista.numeral])

theorem plantilla_argumentosAudio (elem : Stream) :
    plantilla (salidaDe (argumentosAudio configuration programa encoding elem)) =
      (Pista.audio elem.language).plantilla configuration programa encoding := by
  rw [argumentosAudio, plantilla_HLS (admite_argumentosAudio elem)]
  exact plantillaHLS_eq (.audio elem.language) (by simp [Pista.carpeta, Pista.lista])
    (by simp [Pista.carpeta, Pista.segmento, Pista.numeral])

theorem plantilla_argumentosTeletexto (audio elem : Stream) :
    plantilla (salidaDe (argumentosTeletexto configuration programa encoding audio elem)) =
      (Pista.teletexto elem.language).plantilla configuration programa encoding := by
  have hvtt (m3u8 seg enc : String) : plantilla (salidaDe (["-map_chapters", "-1",
      "-map", getMapId audio, "-map", getMapId elem, "-map", getMapId programa.video,
      "-vn", "-scodec", "webvtt"] ++ generarArgumentosHLS configuration programa m3u8 seg enc)) =
      plantillaHLS enc m3u8 seg true := by
    obtain ⟨h1, h2, h3⟩ := valores_argumentosHLS configuration programa seg enc
    rw [salidaDe_HLS, options_append (legales_argumentosTeletexto audio elem)]
    simp only [plantilla, plantillaHLS, valor_append, h1, h2, h3, Option.some_or, Option.none_or]
    simp +decide [Grammar.options, valor]
  rw [argumentosTeletexto, hvtt]
  exact plantillaHLS_eq (.teletexto elem.language) (by simp [Pista.carpeta, Pista.lista])
    (by simp [Pista.carpeta, Pista.segmento, Pista.numeral])

theorem map_plantilla_salidasQuemadas (bitrate : String) :
    (salidasQuemadas configuration programa encoding bitrate).map plantilla =
      (pistasQuemadas programa bitrate).map (Pista.plantilla configuration programa encoding) := by
  unfold salidasQuemadas pistasQuemadas
  split
  · rfl
  rw [salidasDVBSubs, map_plantilla_prepend admite_filtro.all, List.map_map, List.map_map]
  have hfst (f : Stream → Plantilla) : programa.subtitulos.map f =
      programa.subtitulos.zipIdx.map fun x => f x.1 := by
    rw [← List.zipIdx_map_fst 0 programa.subtitulos, List.map_map]
    simp
  rw [hfst]
  exact List.map_congr_left fun x _ => plantilla_argumentosSubtitulo bitrate x.1 x.2

/-- **The templates of a command are those of the tracks it carries.** -/
theorem map_plantilla_salidas : (salidas configuration programa encoding).map plantilla =
    (pistas programa encoding).map (Pista.plantilla configuration programa encoding) := by
  rw [salidas, map_plantilla_prepend admite_cabeceraVideo.all, pistas]
  simp only [List.map_append]
  congr 1
  · congr 1
    · unfold salidasVideo pistasVideo
      split
      · rw [List.map_cons, List.map_cons, map_plantilla_salidasQuemadas,
          plantilla_argumentosDefault]
      · simp only [List.map_flatMap, List.map_cons, map_plantilla_salidasQuemadas,
          plantilla_salidaVideo]
    · rw [salidasAudio, List.map_map, List.map_map]
      exact List.map_congr_left fun elem _ => plantilla_argumentosAudio elem
  · unfold salidasTeletexto pistasTeletexto
    split
    · rw [List.map_map, List.map_map]
      exact List.map_congr_left fun elem _ => plantilla_argumentosTeletexto _ elem
    · rfl

@[simp] theorem Pista.destino_plantilla (t : Pista) :
    (t.plantilla configuration programa encoding).destino =
      codificacionPath configuration encoding ++ t.carpeta ++ "/" ++ t.lista ++ ".m3u8" := rfl

/-- Each output of a command carries one of the tracks. -/
theorem exists_pista {x : Salida} (hx : x ∈ salidas configuration programa encoding) :
    ∃ t ∈ pistas programa encoding, plantilla x = t.plantilla configuration programa encoding := by
  have hmem := List.mem_map_of_mem (f := HlsXcoder.plantilla) hx
  rw [map_plantilla_salidas] at hmem
  obtain ⟨t, ht, heq⟩ := List.mem_map.1 hmem
  exact ⟨t, ht, heq.symm⟩

/-- Each track is carried by an output. -/
theorem exists_salida (configuration : Config) {t : Pista} (ht : t ∈ pistas programa encoding) :
    ∃ x ∈ salidas configuration programa encoding,
      plantilla x = t.plantilla configuration programa encoding := by
  have hmem := List.mem_map_of_mem (f := Pista.plantilla configuration programa encoding) ht
  rw [← map_plantilla_salidas] at hmem
  exact List.mem_map.1 hmem

/-! ## The command is read as it was built -/

/-- An output ffmpeg reads as it is written. -/
def Legible (x : Salida) : Prop := x.opts.all ffmpeg.legal = true ∧ ffmpeg.target x.target = true

theorem legible_HLS {args : List String} (h : Legales args) (m3u8 seg enc : String) :
    Legible (salidaDe (args ++ generarArgumentosHLS configuration programa m3u8 seg enc)) := by
  rw [salidaDe_HLS]
  exact ⟨h.append (legales_argumentosHLS _ _ _ _), target_m3u8 m3u8⟩

theorem legible_prepend {os : List Opcion} (h : os.all ffmpeg.legal = true) {xs : List Salida}
    (hxs : ∀ x ∈ xs, Legible x) : ∀ x ∈ prepend os xs, Legible x := by
  intro x hx
  obtain ⟨y, hy, htarget, hopts⟩ := mem_prepend hx
  refine ⟨?_, htarget ▸ (hxs y hy).2⟩
  obtain hopts | hopts := hopts
  · rw [hopts]
    exact (hxs y hy).1
  · rw [hopts, List.all_append, h, (hxs y hy).1]
    rfl

theorem legible_salidasQuemadas (bitrate : String) :
    ∀ x ∈ salidasQuemadas configuration programa encoding bitrate, Legible x := by
  unfold salidasQuemadas
  split
  · simp
  · refine legible_prepend admite_filtro.legales fun x hx => ?_
    obtain ⟨e, -, rfl⟩ := List.mem_map.1 hx
    exact legible_HLS
      (admite_argumentosSubtitulo (admite_bitrateCommand bitrate) _ _ _).legales _ _ _

theorem legible_salidas : ∀ x ∈ salidas configuration programa encoding, Legible x := by
  refine legible_prepend admite_cabeceraVideo.legales fun x hx => ?_
  rw [List.mem_append, List.mem_append] at hx
  obtain (hx | hx) | hx := hx
  · unfold salidasVideo at hx
    split at hx
    · obtain rfl | hx := List.mem_cons.1 hx
      · exact legible_HLS admite_argumentosDefault.legales _ _ _
      · exact legible_salidasQuemadas _ x hx
    · obtain ⟨b, -, hx⟩ := List.mem_flatMap.1 hx
      obtain rfl | hx := List.mem_cons.1 hx
      · exact legible_HLS (admite_argumentosVideo _ _).legales _ _ _
      · exact legible_salidasQuemadas _ x hx
  · obtain ⟨e, -, rfl⟩ := List.mem_map.1 hx
    exact legible_HLS (admite_argumentosAudio e).legales _ _ _
  · unfold salidasTeletexto at hx
    split at hx
    · obtain ⟨e, -, rfl⟩ := List.mem_map.1 hx
      exact legible_HLS (legales_argumentosTeletexto _ e) _ _ _
    · cases hx

/-- An option of the input that is not the input itself. -/
def noEntrada (o : Opcion) : Bool := o.flag ≠ "-i"

theorem admite_entrada (configuration : Config) (programa : Programa) : Admite noEntrada
    (commandArgs configuration programa ++ preInputCommands configuration programa) := by
  refine Admite.append (Admite.append ?_ ?_) ((((Admite.append ?_ ?_).append ?_).append ?_).append ?_)
  · split <;> decide
  · split
    · split <;> simp +decide [Admite, Grammar.options, Grammar.legal, ffmpeg, noEntrada]
    · decide
  · unfold preInputProtocolo
    repeat' split
    all_goals decide
  · split <;> simp +decide [Admite, Grammar.options, Grammar.legal, ffmpeg, noEntrada]
  · split <;> simp +decide [Admite, Grammar.options, Grammar.legal, ffmpeg, noEntrada]
  · split <;> decide
  · decide

/-- **ffmpeg reads the command that was meant.** -/
theorem read_comando : ffmpeg.read ((comando configuration programa encoding).tokens "-i") =
    some (comando configuration programa encoding) := by
  refine Grammar.read_tokens (g := ffmpeg) (fun o ho => ?_) legible_salidas
  have hlegal := List.all_eq_true.1 (admite_entrada configuration programa).legales o ho
  have hflag := List.all_eq_true.1 (admite_entrada configuration programa).all o ho
  exact ⟨hlegal, by simpa [noEntrada, ffmpeg] using hflag⟩

end Mandato

/-- **The command ffmpeg is given**, read from the argument list; none
where the program stops before there is one. -/
def comandoFfmpeg (configuration : Config) (programa : Programa) (encoding : Option Codificacion) :
    Option (Command String) :=
  (inicializarFfmpegEncoding configuration programa encoding).bind ffmpeg.read

theorem comandoFfmpeg_eq {configuration : Config} {programa : Programa}
    {encoding : Option Codificacion} (h : Construible programa encoding) :
    comandoFfmpeg configuration programa encoding =
      some (comando configuration programa encoding) := by
  rw [comandoFfmpeg, inicializarFfmpegEncoding_eq h, Option.bind_some, read_comando]

theorem comandoFfmpeg_eq_none {configuration : Config} {programa : Programa}
    {encoding : Option Codificacion} (h : ¬ Construible programa encoding) :
    comandoFfmpeg configuration programa encoding = none := by
  rw [comandoFfmpeg, inicializarFfmpegEncoding_eq_none h, Option.bind_none]

/-- A command that is read is the one of a run nothing stops. -/
theorem comandoFfmpeg_eq_some_iff {configuration : Config} {programa : Programa}
    {encoding : Option Codificacion} {c : Command String} :
    comandoFfmpeg configuration programa encoding = some c ↔
      Construible programa encoding ∧ c = comando configuration programa encoding := by
  by_cases h : Construible programa encoding
  · simp [comandoFfmpeg_eq h, h, eq_comm]
  · simp [comandoFfmpeg_eq_none h, h]

end HlsXcoder
