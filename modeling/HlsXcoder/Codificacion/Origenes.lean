import HlsXcoder.Codificacion.Plantillas

/-!
# What the outputs are made from

An output of the command is made for one thing: the variant of a bitrate
or of the default video, a subtitle burned into it, an audio stream or a
teletext subtitle. An `Origen` says which, with the stream it takes, and
`Origen.opciones` are the options the builder gives it before those of
HLS, which all outputs share.

Two runs of options stand before those of an output: the filter graph,
before the first burned subtitle of a bitrate, and what is built before
the loop over the bitrates, before the first output of the command
(`salidas_eq_cons`).
-/

namespace HlsXcoder

open OptionGroups

/-- What an output is made from. -/
inductive Origen where
  | video (bitrate : String)
  | defecto
  | quemado (bitrate : String) (elem : Stream) (index : ℕ)
  | audio (elem : Stream)
  | teletexto (elem : Stream)

/-- What an output made from it carries. -/
def Origen.pista : Origen → Pista
  | video bitrate => .video bitrate
  | defecto => .defecto
  | quemado bitrate elem _ => .quemado bitrate elem.language
  | audio elem => .audio elem.language
  | teletexto elem => .teletexto elem.language

section Origenes

variable (configuration : Config) (programa : Programa) (encoding : Option Codificacion)

/-- The filter graph, where it stands before a burned subtitle. -/
def filtroDe (index : ℕ) : List String :=
  if configuration.hwaccel = true ∧ index = 0 then ["-filter_complex", filtroDVBSubs programa]
  else []

/-- The options of a burned subtitle. -/
def opcionesSubtitulo (bitrate nombre : String) (elem : Stream) (index : ℕ) : List String :=
  if configuration.hwaccel then
    (bitrateCommand bitrate).getD [] ++ ["-map", "[sub" ++ itoa index ++ "]", "-an", "-sn",
      "-c:v", nombre ++ (if configuration.nvenc then "_nvenc" else ""), "-preset", "llhp",
      "-profile:v", "baseline", "-zerolatency", "1", "-cbr", "1", "-rc", "cbr",
      "-rc-lookahead", "50"]
  else
    ["-filter_complex", "[" ++ getMapId programa.video ++ "][" ++ getMapId elem ++ "]overlay[v]",
      "-map", "[v]", "-an", "-sn", "-vcodec", nombre]

/-- The options of an audio stream. -/
def opcionesAudio (elem : Stream) : List String :=
  ["-ac", "2"] ++
    (if configuration.audioCodificacion ≠ "" then
      (if configuration.audioBitrate ≠ "" then ["-b:a", configuration.audioBitrate ++ "k"] else []) ++
        ["-c:a", configuration.audioCodificacion]
    else ["-c:a", "copy"]) ++
    ["-map", getMapId elem] ++
    (if configuration.audioCodificacion ≠ "" then ["-af", "aresample=async=1:first_pts=0"]
    else []) ++
    ["-map", getMapId programa.video, "-vn"]

/-- The options an output is given before those of HLS. -/
def Origen.opciones : Origen → List String
  | video bitrate => ["-map", getMapId programa.video, "-b:v", bitrate ++ "k",
      "-maxrate", ((calcularBitrateMaximo bitrate).getD "") ++ "k", "-an", "-sn"]
  | defecto => ["-map", getMapId programa.video]
  | quemado bitrate elem index => filtroDe configuration programa index ++
      opcionesSubtitulo configuration programa bitrate (codificacionNombre programa encoding) elem
        index
  | audio elem => opcionesAudio configuration programa elem
  | teletexto elem => ["-map_chapters", "-1", "-map", getMapId (programa.audio.headD default),
      "-map", getMapId elem, "-map", getMapId programa.video, "-vn", "-scodec", "webvtt"]

/-- The output made from it, by itself. -/
def Origen.salida (o : Origen) : Salida where
  opts := ffmpeg.options (o.opciones configuration programa encoding) ++
    ffmpeg.options (argumentosHLS configuration programa
      (codificacionPath configuration encoding ++ o.pista.carpeta ++ "/" ++ o.pista.segmento ++
        o.pista.numeral) (codificacionNombre programa encoding))
  target := (o.pista.plantilla configuration programa encoding).destino

/-- The subtitles burned into the video of a bitrate. -/
def origenesQuemados (bitrate : String) : List Origen :=
  if teletextSubtitle programa then []
  else programa.subtitulos.zipIdx.map fun x => .quemado bitrate x.1 x.2

/-- What the variants are made from, each with its burned subtitles after
it. -/
def origenesVideo : List Origen :=
  if bitratesDe encoding = [] then .defecto :: origenesQuemados programa ""
  else (bitratesDe encoding).flatMap fun bitrate =>
    .video bitrate :: origenesQuemados programa bitrate

/-- **What the outputs of a command are made from**, in order. -/
def origenes : List Origen :=
  origenesVideo programa encoding ++ programa.audio.map .audio ++
    if teletextSubtitle programa then programa.subtitulos.map .teletexto else []

/-- What the first output is made from. -/
def primero : Origen :=
  match bitratesDe encoding with
  | [] => .defecto
  | bitrate :: _ => .video bitrate

variable {configuration programa encoding}

/-! ## Which origins a command has -/

theorem mem_origenesQuemados {b : String} {o : Origen} : o ∈ origenesQuemados programa b ↔
    teletextSubtitle programa = false ∧
      ∃ elem index, programa.subtitulos[index]? = some elem ∧ o = .quemado b elem index := by
  unfold origenesQuemados
  split
  · rename_i ht
    simp [ht]
  · rename_i ht
    simp [Bool.eq_false_iff.2 ht, List.mem_zipIdx_iff_getElem?, eq_comm]

theorem video_mem_origenes {b : String} :
    .video b ∈ origenes programa encoding ↔ b ∈ bitratesDe encoding := by
  unfold origenes origenesVideo
  split <;> split <;> simp_all [mem_origenesQuemados]

theorem quemado_mem_origenes {b : String} {elem : Stream} {index : ℕ} :
    .quemado b elem index ∈ origenes programa encoding ↔
      teletextSubtitle programa = false ∧ programa.subtitulos[index]? = some elem ∧
        (b ∈ bitratesDe encoding ∨ bitratesDe encoding = [] ∧ b = "") := by
  unfold origenes origenesVideo
  split <;> split <;> simp_all [mem_origenesQuemados]; grind

theorem audio_mem_origenes {elem : Stream} :
    .audio elem ∈ origenes programa encoding ↔ elem ∈ programa.audio := by
  unfold origenes origenesVideo
  split <;> split <;> simp_all [mem_origenesQuemados]

theorem teletexto_mem_origenes {elem : Stream} :
    .teletexto elem ∈ origenes programa encoding ↔
      teletextSubtitle programa = true ∧ elem ∈ programa.subtitulos := by
  unfold origenes origenesVideo
  split <;> split <;> simp_all [mem_origenesQuemados]

theorem origenes_eq_cons (programa : Programa) (encoding : Option Codificacion) :
    ∃ os, origenes programa encoding = primero encoding :: os := by
  unfold origenes origenesVideo primero
  cases hb : bitratesDe encoding with
  | nil => exact ⟨_, by simp [List.cons_append]; rfl⟩
  | cons b bs => exact ⟨_, by simp [List.cons_append]; rfl⟩

/-! ## The outputs, by what they are made from -/

/-- The output that carries a track, by its options before those of
HLS. -/
theorem salidaDe_pista (t : Pista) {args : List String} (h : Legales args) {m3u8 seg : String}
    (hm : m3u8.toList = (codificacionPath configuration encoding ++ t.carpeta ++ "/" ++
      t.lista).toList)
    (hs : seg.toList = (codificacionPath configuration encoding ++ t.carpeta ++ "/" ++
      t.segmento ++ t.numeral).toList) :
    salidaDe (args ++ generarArgumentosHLS configuration programa m3u8 seg
      (codificacionNombre programa encoding)) =
      ⟨ffmpeg.options args ++ ffmpeg.options (argumentosHLS configuration programa
          (codificacionPath configuration encoding ++ t.carpeta ++ "/" ++ t.segmento ++ t.numeral)
          (codificacionNombre programa encoding)),
        (t.plantilla configuration programa encoding).destino⟩ := by
  rw [salidaDe_HLS, options_append h, String.toList_inj.1 hm, String.toList_inj.1 hs,
    Pista.destino_plantilla]

theorem salida_video (b : String) : salidaVideo configuration programa encoding b =
    (Origen.video b).salida configuration programa encoding := by
  rw [salidaVideo, argumentosVideo]
  exact salidaDe_pista (.video b) (admite_argumentosVideo _ _).legales
    (by simp [Pista.carpeta, Pista.lista]) (by simp [Pista.carpeta, Pista.segmento, Pista.numeral])

theorem salida_defecto : salidaDe (argumentosDefault configuration programa encoding) =
    Origen.defecto.salida configuration programa encoding := by
  rw [argumentosDefault]
  exact salidaDe_pista .defecto admite_argumentosDefault.legales
    (by simp [Pista.carpeta, Pista.lista]) (by simp [Pista.carpeta, Pista.segmento, Pista.numeral])

theorem salida_audio (elem : Stream) :
    salidaDe (argumentosAudio configuration programa encoding elem) =
      (Origen.audio elem).salida configuration programa encoding := by
  rw [argumentosAudio]
  exact salidaDe_pista (.audio elem.language) (admite_argumentosAudio elem).legales
    (by simp [Pista.carpeta, Pista.lista]) (by simp [Pista.carpeta, Pista.segmento, Pista.numeral])

theorem salida_teletexto (elem : Stream) :
    salidaDe (argumentosTeletexto configuration programa encoding (programa.audio.headD default)
      elem) = (Origen.teletexto elem).salida configuration programa encoding := by
  rw [argumentosTeletexto]
  exact salidaDe_pista (.teletexto elem.language) (legales_argumentosTeletexto _ elem)
    (by simp [Pista.carpeta, Pista.lista]) (by simp [Pista.carpeta, Pista.segmento, Pista.numeral])

theorem legales_filtroDe (index : ℕ) : Legales (filtroDe configuration programa index) := by
  unfold filtroDe
  split <;> simp +decide [Legales, Grammar.options, Grammar.legal, ffmpeg]

theorem legales_opcionesSubtitulo (bitrate nombre : String) (elem : Stream) (index : ℕ) :
    Legales (opcionesSubtitulo configuration programa bitrate nombre elem index) :=
  (admite_argumentosSubtitulo (admite_bitrateCommand bitrate) _ _ _).legales

/-- A burned subtitle, with the filter graph before it where it has
one. -/
theorem salida_quemado (b : String) (elem : Stream) (index : ℕ) :
    (Origen.quemado b elem index).salida configuration programa encoding =
      ⟨ffmpeg.options (filtroDe configuration programa index) ++
        (salidaDe (argumentosSubtitulo configuration programa
          (codificacionPath configuration encoding) b (codificacionNombre programa encoding)
          ((bitrateCommand b).getD []) elem index)).opts,
        (salidaDe (argumentosSubtitulo configuration programa
          (codificacionPath configuration encoding) b (codificacionNombre programa encoding)
          ((bitrateCommand b).getD []) elem index)).target⟩ := by
  have hpropia : salidaDe (argumentosSubtitulo configuration programa
      (codificacionPath configuration encoding) b (codificacionNombre programa encoding)
      ((bitrateCommand b).getD []) elem index) =
      ⟨ffmpeg.options (opcionesSubtitulo configuration programa b
          (codificacionNombre programa encoding) elem index) ++
        ffmpeg.options (argumentosHLS configuration programa
          (codificacionPath configuration encoding ++ (Pista.quemado b elem.language).carpeta ++
            "/" ++ (Pista.quemado b elem.language).segmento ++
            (Pista.quemado b elem.language).numeral) (codificacionNombre programa encoding)),
        ((Pista.quemado b elem.language).plantilla configuration programa encoding).destino⟩ := by
    rw [argumentosSubtitulo]
    exact salidaDe_pista (.quemado b elem.language) (legales_opcionesSubtitulo _ _ _ _)
      (by simp [Pista.carpeta, Pista.lista])
      (by simp [Pista.carpeta, Pista.segmento, Pista.numeral])
  rw [hpropia, Origen.salida, Origen.opciones, options_append (legales_filtroDe index),
    List.append_assoc]
  rfl

theorem salidasQuemadas_eq (b : String) : salidasQuemadas configuration programa encoding b =
    (origenesQuemados programa b).map (Origen.salida configuration programa encoding) := by
  unfold salidasQuemadas origenesQuemados
  split
  · rfl
  rw [salidasDVBSubs, List.map_map]
  cases hs : programa.subtitulos with
  | nil => rfl
  | cons elem elems =>
    rw [List.zipIdx_cons, List.map_cons, List.map_cons, prepend]
    refine congr (congrArg List.cons ?_) (List.map_congr_left fun x hx => ?_)
    · simp [Function.comp, salida_quemado, filtroDe]
    · -- only the first one has the graph before it
      have hidx : x.2 ≠ 0 := by
        have := (List.mem_zipIdx hx).1
        omega
      simp [Function.comp, salida_quemado, filtroDe, hidx, Grammar.options]

/-- **The outputs of a command are made from its origins**, and what is
built before the loop over the bitrates joins the first. -/
theorem salidas_eq : salidas configuration programa encoding =
    prepend (ffmpeg.options (cabeceraVideo configuration programa encoding))
      ((origenes programa encoding).map (Origen.salida configuration programa encoding)) := by
  have hvideo : salidasVideo configuration programa encoding =
      (origenesVideo programa encoding).map (Origen.salida configuration programa encoding) := by
    unfold salidasVideo origenesVideo
    split
    · rw [List.map_cons, salida_defecto, salidasQuemadas_eq]
    · simp only [List.map_flatMap, List.map_cons, salida_video, salidasQuemadas_eq]
  have haudio : salidasAudio configuration programa encoding =
      (programa.audio.map .audio).map (Origen.salida configuration programa encoding) := by
    rw [salidasAudio, List.map_map]
    exact List.map_congr_left fun elem _ => salida_audio elem
  have hteletexto : salidasTeletexto configuration programa encoding =
      (if teletextSubtitle programa then programa.subtitulos.map .teletexto else []).map
        (Origen.salida configuration programa encoding) := by
    unfold salidasTeletexto
    split
    · rw [List.map_map]
      exact List.map_congr_left fun elem _ => salida_teletexto elem
    · rfl
  rw [salidas, origenes, hvideo, haudio, hteletexto, List.map_append, List.map_append]

/-- The first output of a command. -/
def primeraSalida (configuration : Config) (programa : Programa) (encoding : Option Codificacion) :
    Salida :=
  let salida := (primero encoding).salida configuration programa encoding
  ⟨ffmpeg.options (cabeceraVideo configuration programa encoding) ++ salida.opts, salida.target⟩

theorem primeraSalida_mem :
    primeraSalida configuration programa encoding ∈ salidas configuration programa encoding := by
  obtain ⟨os, hos⟩ := origenes_eq_cons programa encoding
  rw [salidas_eq, hos]
  exact List.mem_cons_self

/-- An output is the first one, or what its origin makes of it. -/
theorem mem_salidas {x : Salida} (hx : x ∈ salidas configuration programa encoding) :
    x = primeraSalida configuration programa encoding ∨
      ∃ o ∈ origenes programa encoding, x = o.salida configuration programa encoding := by
  obtain ⟨os, hos⟩ := origenes_eq_cons programa encoding
  rw [salidas_eq, hos, List.map_cons, prepend, List.mem_cons] at hx
  obtain hx | hx := hx
  · exact .inl hx
  · obtain ⟨o, ho, rfl⟩ := List.mem_map.1 hx
    exact .inr ⟨o, hos ▸ List.mem_cons_of_mem _ ho, rfl⟩

theorem primero_mem_origenes : primero encoding ∈ origenes programa encoding := by
  obtain ⟨os, hos⟩ := origenes_eq_cons programa encoding
  rw [hos]
  exact List.mem_cons_self

/-! ## The track of an origin -/

theorem pista_mem_pistas {o : Origen} (ho : o ∈ origenes programa encoding) :
    o.pista ∈ pistas programa encoding := by
  cases o with
  | video b => exact video_mem_pistas.2 (video_mem_origenes.1 ho)
  | defecto =>
    refine defecto_mem_pistas.2 ?_
    unfold origenes origenesVideo at ho
    split at ho
    · assumption
    · split at ho <;> simp_all [mem_origenesQuemados]
  | quemado b elem index =>
    obtain ⟨ht, helem, hb⟩ := quemado_mem_origenes.1 ho
    exact quemado_mem_pistas.2 ⟨ht, ⟨elem, List.mem_of_getElem? helem, rfl⟩, hb⟩
  | audio elem => exact audio_mem_pistas.2 ⟨elem, audio_mem_origenes.1 ho, rfl⟩
  | teletexto elem =>
    obtain ⟨ht, helem⟩ := teletexto_mem_origenes.1 ho
    exact teletexto_mem_pistas.2 ⟨ht, elem, helem, rfl⟩

theorem plantilla_salida (o : Origen) : plantilla (o.salida configuration programa encoding) =
    o.pista.plantilla configuration programa encoding := by
  cases o with
  | video b => rw [← salida_video, plantilla_salidaVideo]; rfl
  | defecto => rw [← salida_defecto, plantilla_argumentosDefault]; rfl
  | quemado b elem index =>
    have hfiltro : Admite noNombra (filtroDe configuration programa index) := by
      unfold filtroDe
      split <;> simp +decide [Admite, Grammar.options, Grammar.legal, ffmpeg, noNombra]
    rw [salida_quemado, plantilla_append_opts hfiltro.all, plantilla_argumentosSubtitulo]
    rfl
  | audio elem => rw [← salida_audio, plantilla_argumentosAudio]; rfl
  | teletexto elem => rw [← salida_teletexto, plantilla_argumentosTeletexto]; rfl

theorem plantilla_primeraSalida : plantilla (primeraSalida configuration programa encoding) =
    (primero encoding).pista.plantilla configuration programa encoding := by
  rw [primeraSalida, plantilla_append_opts admite_cabeceraVideo.all, plantilla_salida]

/-- Each output has an origin, and its options but for those built before
the loop. -/
theorem exists_origen {x : Salida} (hx : x ∈ salidas configuration programa encoding) :
    ∃ o ∈ origenes programa encoding,
      plantilla x = o.pista.plantilla configuration programa encoding ∧
        ((x = primeraSalida configuration programa encoding ∧ o = primero encoding) ∨
          x = o.salida configuration programa encoding) := by
  obtain rfl | ⟨o, ho, rfl⟩ := mem_salidas hx
  · exact ⟨_, primero_mem_origenes, plantilla_primeraSalida, .inl ⟨rfl, rfl⟩⟩
  · exact ⟨o, ho, plantilla_salida o, .inr rfl⟩

/-! ## What an output takes, and how its video is encoded -/

/-- The options that say which streams an output takes and how its video
and subtitles are encoded. -/
def esPropia (o : Opcion) : Bool :=
  o.flag ∈ ["-filter_complex", "-map", "-b:v", "-c:v", "-vcodec", "-vf", "-scodec"]

def propias (os : List Opcion) : List Opcion := os.filter esPropia

theorem mem_propias {os : List Opcion} {o : Opcion} : o ∈ propias os ↔ o ∈ os ∧ esPropia o = true :=
  List.mem_filter

theorem propias_append (a b : List Opcion) : propias (a ++ b) = propias a ++ propias b :=
  List.filter_append _ _

/-- The codec of the burned subtitles. -/
def codecQuemado (configuration : Config) (nombre : String) : String :=
  nombre ++ if configuration.hwaccel = true ∧ configuration.nvenc = true then "_nvenc" else ""

/-- The codec built before the loop over the bitrates. -/
def codecCabecera (configuration : Config) : Option Codificacion → String
  | some codificacion => if configuration.nvenc then codificacion.nombre ++ "_nvenc" else "libx264"
  | none => "copy"

/-- Those of an output, by what it is made from. -/
def Origen.propias (configuration : Config) (programa : Programa) (encoding : Option Codificacion) :
    Origen → List Opcion
  | video bitrate => [⟨"-map", some (getMapId programa.video)⟩, ⟨"-b:v", some (bitrate ++ "k")⟩]
  | defecto => [⟨"-map", some (getMapId programa.video)⟩]
  | quemado bitrate elem index =>
    let codec := codecQuemado configuration (codificacionNombre programa encoding)
    if configuration.hwaccel then
      (if index = 0 then [⟨"-filter_complex", some (filtroDVBSubs programa)⟩] else []) ++
        (if (bitrateCommand bitrate).getD [] = [] then [] else [⟨"-b:v", some (bitrate ++ "k")⟩]) ++
        [⟨"-map", some ("[sub" ++ itoa index ++ "]")⟩, ⟨"-c:v", some codec⟩]
    else [⟨"-filter_complex", some ("[" ++ getMapId programa.video ++ "][" ++ getMapId elem ++
        "]overlay[v]")⟩, ⟨"-map", some "[v]"⟩, ⟨"-vcodec", some codec⟩]
  | audio elem => [⟨"-map", some (getMapId elem)⟩, ⟨"-map", some (getMapId programa.video)⟩]
  | teletexto elem => [⟨"-map", some (getMapId (programa.audio.headD default))⟩,
      ⟨"-map", some (getMapId elem)⟩, ⟨"-map", some (getMapId programa.video)⟩,
      ⟨"-scodec", some "webvtt"⟩]

theorem propias_argumentosHLS (seg enc : String) :
    propias (ffmpeg.options (argumentosHLS configuration programa seg enc)) = [] := by
  refine Admite.filter_eq_nil (((Admite.append ?_ ?_).append ?_).append ?_)
  · simp +decide [Admite, Grammar.options, Grammar.legal, ffmpeg, esPropia]
  · split <;> simp +decide [Admite, Grammar.options, Grammar.legal, ffmpeg, esPropia]
  · split <;> simp +decide [Admite, Grammar.options, Grammar.legal, ffmpeg, esPropia]
  · decide

theorem propias_opcionesSubtitulo (b nombre : String) (elem : Stream) (index : ℕ) :
    propias (ffmpeg.options (opcionesSubtitulo configuration programa b nombre elem index)) =
      if configuration.hwaccel then
        (if (bitrateCommand b).getD [] = [] then [] else [⟨"-b:v", some (b ++ "k")⟩]) ++
          [⟨"-map", some ("[sub" ++ itoa index ++ "]")⟩,
            ⟨"-c:v", some (codecQuemado configuration nombre)⟩]
      else [⟨"-filter_complex", some ("[" ++ getMapId programa.video ++ "][" ++ getMapId elem ++
        "]overlay[v]")⟩, ⟨"-map", some "[v]"⟩,
        ⟨"-vcodec", some (codecQuemado configuration nombre)⟩] := by
  have hbitrate : propias (ffmpeg.options ((bitrateCommand b).getD [])) =
      if (bitrateCommand b).getD [] = [] then [] else [⟨"-b:v", some (b ++ "k")⟩] := by
    unfold bitrateCommand
    split
    · rfl
    · cases calcularBitrateMaximo b <;> simp +decide [propias, esPropia, Grammar.options, ffmpeg]
  rw [opcionesSubtitulo]
  by_cases hw : configuration.hwaccel = true
  · rw [if_pos hw, if_pos hw, options_append (admite_bitrateCommand b).legales, propias_append,
      hbitrate]
    by_cases hn : configuration.nvenc = true <;>
      simp +decide [hw, hn, codecQuemado, propias, esPropia, Grammar.options]
  · simp +decide [hw, codecQuemado, propias, esPropia, Grammar.options, ffmpeg]

/-- **What an output takes, and how it is encoded**, by its origin. -/
theorem propias_salida (o : Origen) : propias (o.salida configuration programa encoding).opts =
    o.propias configuration programa encoding := by
  rw [Origen.salida, propias_append, propias_argumentosHLS, List.append_nil]
  cases o with
  | video b | defecto | teletexto elem =>
    simp +decide [Origen.opciones, Origen.propias, propias, esPropia, Grammar.options, ffmpeg]
  | audio elem =>
    simp only [Origen.opciones, opcionesAudio]
    by_cases hc : configuration.audioCodificacion = "" <;>
      by_cases hb : configuration.audioBitrate = "" <;>
        simp +decide [hc, hb, Origen.propias, propias, esPropia, Grammar.options, ffmpeg]
  | quemado b elem index =>
    have hfiltro : propias (ffmpeg.options (filtroDe configuration programa index)) =
        if configuration.hwaccel = true ∧ index = 0 then
          [⟨"-filter_complex", some (filtroDVBSubs programa)⟩] else [] := by
      unfold filtroDe
      split <;> simp +decide [propias, esPropia, Grammar.options]
    rw [Origen.opciones, options_append (legales_filtroDe index), propias_append, hfiltro,
      propias_opcionesSubtitulo, Origen.propias]
    by_cases hw : configuration.hwaccel = true <;> simp [hw]

/-- What is built before the loop names the codec, and may filter. -/
theorem propias_cabeceraVideo :
    propias (ffmpeg.options (cabeceraVideo configuration programa encoding)) =
      ⟨"-c:v", some (codecCabecera configuration encoding)⟩ ::
        ((if configuration.hwaccel = true ∧ codificacionNombre programa encoding = "copy" then
          [⟨"-vf", some "hwdownload,format=nv12"⟩] else []) ++
        if configuration.deint = true ∧ configuration.hwaccel = false then
          [⟨"-vf", some "yadif"⟩] else []) := by
  have hmov : Legales (if contiene configuration.input "rtp" = false ∧
      contiene configuration.input "udp" = false ∧ contiene configuration.input "rtsp" = true then
      ["-movflags", "frag_keyframe+empty_moov"] else []) := by
    split <;> decide
  have hmovPropias : propias (ffmpeg.options (if contiene configuration.input "rtp" = false ∧
      contiene configuration.input "udp" = false ∧ contiene configuration.input "rtsp" = true then
      ["-movflags", "frag_keyframe+empty_moov"] else [])) = [] := by
    split <;> decide
  simp only [cabeceraVideo, List.append_assoc]
  rw [options_append hmov, propias_append, hmovPropias, List.nil_append]
  cases encoding with
  | none =>
    by_cases hw : configuration.hwaccel = true <;> by_cases hr : configuration.resolution = "" <;>
      by_cases hd : configuration.deint = true <;>
        by_cases hn : codificacionNombre programa none = "copy" <;>
          simp +decide [hw, hr, hd, hn, codecCabecera, propias, esPropia, Grammar.options, ffmpeg]
  | some codificacion =>
    by_cases hw : configuration.hwaccel = true <;> by_cases hr : configuration.resolution = "" <;>
      by_cases hd : configuration.deint = true <;> by_cases hv : configuration.nvenc = true <;>
        by_cases hn : codificacionNombre programa (some codificacion) = "copy" <;>
          simp +decide [hw, hr, hd, hn, hv, codecCabecera, propias, esPropia, Grammar.options, ffmpeg]

theorem propias_primeraSalida : propias (primeraSalida configuration programa encoding).opts =
    propias (ffmpeg.options (cabeceraVideo configuration programa encoding)) ++
      (primero encoding).propias configuration programa encoding := by
  rw [primeraSalida, propias_append, propias_salida]

theorem flag_cabeceraVideo {p : Opcion}
    (hp : p ∈ propias (ffmpeg.options (cabeceraVideo configuration programa encoding))) :
    p.flag = "-c:v" ∨ p.flag = "-vf" := by
  rw [propias_cabeceraVideo, List.mem_cons, List.mem_append] at hp
  obtain rfl | hp | hp := hp
  · exact .inl rfl
  · split at hp
    · rw [List.mem_singleton.1 hp]
      exact .inr rfl
    · cases hp
  · split at hp
    · rw [List.mem_singleton.1 hp]
      exact .inr rfl
    · cases hp

/-- **What an output takes is what its origin takes**: the codec and the
filter of its video apart, which may come from before the loop. -/
theorem exists_propias {x : Salida} (hx : x ∈ salidas configuration programa encoding) :
    ∃ o ∈ origenes programa encoding,
      (∀ p ∈ o.propias configuration programa encoding, p ∈ x.opts) ∧
        ∀ p ∈ x.opts, p.flag ∈ ["-filter_complex", "-map", "-b:v", "-scodec"] →
          p ∈ o.propias configuration programa encoding := by
  have hpropia {os : List Opcion} {p : Opcion} (hp : p ∈ os)
      (hf : p.flag ∈ ["-filter_complex", "-map", "-b:v", "-scodec"]) : p ∈ propias os := by
    refine mem_propias.2 ⟨hp, ?_⟩
    simp only [List.mem_cons, List.not_mem_nil, or_false] at hf
    obtain h | h | h | h := hf <;> simp [esPropia, h]
  obtain rfl | ⟨o, ho, rfl⟩ := mem_salidas hx
  · refine ⟨_, primero_mem_origenes, fun p hp => ?_, fun p hp hf => ?_⟩
    · refine (mem_propias.1 (?_ : p ∈ propias _)).1
      rw [propias_primeraSalida]
      exact List.mem_append_right _ hp
    · have hp' := hpropia hp hf
      rw [propias_primeraSalida, List.mem_append] at hp'
      refine hp'.resolve_left fun hcab => ?_
      obtain h | h := flag_cabeceraVideo hcab
      all_goals
        rw [h] at hf
        revert hf
        decide
  · refine ⟨o, ho, fun p hp => ?_, fun p hp hf => ?_⟩
    · rw [← propias_salida] at hp
      exact (mem_propias.1 hp).1
    · rw [← propias_salida]
      exact hpropia hp hf

end Origenes

end HlsXcoder
