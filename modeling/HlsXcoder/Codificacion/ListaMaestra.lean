import HlsXcoder.Codificacion.Programa

/-!
# The master playlist

`generarArchivoM3U8` writes `hls.m3u8`: one `EXT-X-MEDIA` line for each
audio and subtitle stream, then for each bitrate the main variant and,
unless the subtitles are teletext, one variant per subtitle with the
subtitle burned in.

A write is kept as the attributes and the address it spells, and
`textoM3U8` is the text of the file. The strings `subtitle`, `audio` and
`video` the source splices into its lines are the attributes they spell,
and `subtitle` is handed from one call of `generarM3U8Videos` to the
next, since the closure assigns to it.
-/

namespace HlsXcoder

/-- One attribute of a tag, with or without quotes around its value. -/
structure Atributo where
  nombre : String
  valor : String
  comillas : Bool
  deriving DecidableEq, Repr

def Atributo.texto (a : Atributo) : String :=
  a.nombre ++ "=" ++ if a.comillas then "\"" ++ a.valor ++ "\"" else a.valor

/-- One write to the playlist: an `EXT-X-MEDIA` line, or an
`EXT-X-STREAM-INF` line with the address line below it. -/
inductive LineaM3U8 where
  | media (atributos : List Atributo)
  | streamInf (atributos : List Atributo) (uri : String)
  deriving DecidableEq, Repr

namespace LineaM3U8

def atributos : LineaM3U8 → List Atributo
  | media as | streamInf as _ => as

def esMedia : LineaM3U8 → Bool
  | media _ => true
  | streamInf _ _ => false

/-- The text a write puts into the file. -/
def texto : LineaM3U8 → String
  | media as => "#EXT-X-MEDIA:" ++ ",".intercalate (as.map Atributo.texto) ++ "\n"
  | streamInf as uri =>
    "#EXT-X-STREAM-INF:" ++ ",".intercalate (as.map Atributo.texto) ++ " \n" ++ uri ++ "\n"

/-- The values of an attribute of a line. -/
def valores (l : LineaM3U8) (nombre : String) : List String :=
  (l.atributos.filter fun a => a.nombre = nombre).map Atributo.valor

/-- A variant line without a burned subtitle: it carries no `NAME`. -/
def esPrincipal (l : LineaM3U8) : Bool := !l.esMedia && (l.valores "NAME").isEmpty

end LineaM3U8

/-- A text without the blanks around it. -/
def sinBlancos (s : String) : String :=
  .ofList ((s.toList.dropWhile (· = ' ')).reverse.dropWhile (· = ' ')).reverse

/-- The addresses a line gives, blanks trimmed. -/
def LineaM3U8.uris : LineaM3U8 → List String
  | l@(media _) => l.valores "URI"
  | streamInf _ uri => [sinBlancos uri]

/-- The text of the playlist. -/
def textoM3U8 (lineas : List LineaM3U8) : String :=
  "#EXTM3U\n" ++ String.join (lineas.map LineaM3U8.texto) ++ "\n"

/-- Whether the subtitles are teletext, which the first one decides. -/
def teletextSubtitle (programa : Programa) : Bool :=
  match programa.subtitulos with
  | elem :: _ => elem.format == "dvb_teletext"
  | [] => false

/-- The line of an audio stream. -/
def lineaAudio (elem : Stream) : LineaM3U8 :=
  .media [⟨"TYPE", "AUDIO", false⟩, ⟨"GROUP-ID", "audio", true⟩, ⟨"DEFAULT", "YES", false⟩,
    ⟨"AUTOSELECT", "YES", false⟩, ⟨"LANGUAGE", elem.language, true⟩, ⟨"NAME", elem.language, true⟩,
    ⟨"URI", "audio/" ++ elem.language ++ "/audio.m3u8", true⟩]

/-- The line of a subtitle stream: a subtitle rendition, or the video
with the subtitle burned in. -/
def lineaSubtitulo (tipo grupo fichero : String) (elem : Stream) : LineaM3U8 :=
  .media [⟨"TYPE", tipo, false⟩, ⟨"GROUP-ID", grupo, true⟩, ⟨"NAME", elem.language, true⟩,
    ⟨"DEFAULT", "NO", false⟩, ⟨"FORCED", "NO", false⟩,
    ⟨"URI", "subtitulo/" ++ elem.language ++ "/" ++ fichero, true⟩,
    ⟨"LANGUAGE", elem.language, true⟩]

/-- One variant with a burned subtitle. -/
def lineaQuemada (audio : List Atributo) (bitrate nombreM3U8 : String) (elem : Stream) :
    LineaM3U8 :=
  .streamInf ([⟨"NAME", elem.language ++ "-" ++ bitrate, false⟩,
      ⟨"BANDWIDTH", bitrate ++ "000", false⟩] ++ [⟨"SUBTITLES", "subs", true⟩] ++ audio)
    (" subtitulo/" ++ elem.language ++ "/" ++ nombreM3U8)

/-- The variants of one bitrate. The attributes of subtitles come in as
the earlier calls left them and go out as this one leaves them. -/
def generarM3U8Videos (programa : Programa) (audio video subtitle : List Atributo)
    (bitrate nombreM3U8 : String) : List LineaM3U8 × List Atributo :=
  let nombreVideoM3U8 := if bitrate = "" then "default" else bitrate
  let bitrate := if bitrate = "" then "1000" else bitrate
  let principal := LineaM3U8.streamInf
    ([⟨"BANDWIDTH", bitrate ++ "000", false⟩] ++ subtitle ++ audio ++ video)
    (nombreVideoM3U8 ++ ".m3u8")
  if teletextSubtitle programa then ([principal], subtitle)
  else programa.subtitulos.foldl
    (fun escrito elem =>
      (escrito.1 ++ [lineaQuemada audio bitrate nombreM3U8 elem], [⟨"SUBTITLES", "subs", true⟩]))
    ([principal], subtitle)

/-- The variable `audio` when the variants are written. -/
def atributosAudio (programa : Programa) : List Atributo :=
  if programa.audio = [] then [] else [⟨"AUDIO", "audio", true⟩]

/-- The variable `subtitle` when the variants are first written. -/
def atributosSubtitle (programa : Programa) : List Atributo :=
  if teletextSubtitle programa = true ∧ programa.subtitulos ≠ [] then [⟨"SUBTITLES", "subs", true⟩]
  else []

/-- The variable `video` when the variants are written. -/
def atributosVideo (programa : Programa) : List Atributo :=
  if teletextSubtitle programa = false ∧ programa.subtitulos ≠ [] then
    [⟨"VIDEO", "videoSubs", true⟩]
  else []

/-- The `EXT-X-MEDIA` lines. -/
def mediasM3U8 (programa : Programa) : List LineaM3U8 :=
  programa.audio.map lineaAudio ++
    if teletextSubtitle programa then
      programa.subtitulos.map (lineaSubtitulo "SUBTITLES" "subs" "subtitulo_vtt.m3u8")
    else programa.subtitulos.map (lineaSubtitulo "VIDEO" "videoSubs" "subtitulo.m3u8")

/-- **The writes of `generarArchivoM3U8`**, in order. -/
def generarArchivoM3U8 (programa : Programa) (bitrates : List String) : List LineaM3U8 :=
  let audio := atributosAudio programa
  let subtitle := atributosSubtitle programa
  let video := atributosVideo programa
  let medias := mediasM3U8 programa
  -- an empty list of bitrates leaves `videoDefault` set
  if bitrates = [] then
    medias ++ (generarM3U8Videos programa audio video subtitle "" "subtitulo.m3u8").1
  else
    (bitrates.foldl
      (fun escrito bitrate =>
        let llamada := generarM3U8Videos programa audio video escrito.2 bitrate
          (bitrate ++ "-subtitulo.m3u8")
        (escrito.1 ++ llamada.1, llamada.2))
      (medias, subtitle)).1

example : textoM3U8 (generarArchivoM3U8
    { (default : Programa) with audio := [{ (default : Stream) with language := "eng_256" }] }
    ["2800"]) =
    "#EXTM3U\n#EXT-X-MEDIA:TYPE=AUDIO,GROUP-ID=\"audio\",DEFAULT=YES,AUTOSELECT=YES," ++
    "LANGUAGE=\"eng_256\",NAME=\"eng_256\",URI=\"audio/eng_256/audio.m3u8\"\n" ++
    "#EXT-X-STREAM-INF:BANDWIDTH=2800000,AUDIO=\"audio\" \n2800.m3u8\n\n" := by decide +kernel

/-! ## What is written -/

/-- The main variant of a bitrate, under the attributes of subtitles a
call starts with. -/
def lineaPrincipal (audio video subtitle : List Atributo) (bitrate : String) : LineaM3U8 :=
  .streamInf ([⟨"BANDWIDTH", (if bitrate = "" then "1000" else bitrate) ++ "000", false⟩] ++
    subtitle ++ audio ++ video) ((if bitrate = "" then "default" else bitrate) ++ ".m3u8")

theorem foldl_quemadas (audio : List Atributo) (bitrate nombreM3U8 : String)
    (subs : List Stream) (acc : List LineaM3U8 × List Atributo) :
    subs.foldl (fun escrito elem =>
        (escrito.1 ++ [lineaQuemada audio bitrate nombreM3U8 elem],
          ([⟨"SUBTITLES", "subs", true⟩] : List Atributo))) acc =
      (acc.1 ++ subs.map (lineaQuemada audio bitrate nombreM3U8),
        if subs = [] then acc.2 else [⟨"SUBTITLES", "subs", true⟩]) := by
  induction subs generalizing acc with
  | nil => simp
  | cons s ss ih =>
    rw [List.foldl_cons, ih]
    by_cases hss : ss = [] <;> simp [hss]

/-- **The lines of one bitrate**: the main variant, then one variant per
subtitle unless they are teletext. -/
theorem generarM3U8Videos_fst (programa : Programa) (audio video subtitle : List Atributo)
    (bitrate nombreM3U8 : String) :
    (generarM3U8Videos programa audio video subtitle bitrate nombreM3U8).1 =
      lineaPrincipal audio video subtitle bitrate ::
        if teletextSubtitle programa then []
        else programa.subtitulos.map
          (lineaQuemada audio (if bitrate = "" then "1000" else bitrate) nombreM3U8) := by
  unfold generarM3U8Videos lineaPrincipal
  by_cases ht : teletextSubtitle programa = true
  · simp only [ht, if_true]
  · simp only [ht, Bool.false_eq_true, if_false]
    rw [foldl_quemadas]
    rfl

/-- What a call leaves of the attributes of subtitles: with burned
subtitles the group the closure assigned, otherwise what it found. -/
theorem generarM3U8Videos_snd (programa : Programa) (audio video subtitle : List Atributo)
    (bitrate nombreM3U8 : String) :
    (generarM3U8Videos programa audio video subtitle bitrate nombreM3U8).2 =
      if teletextSubtitle programa = true ∨ programa.subtitulos = [] then subtitle
      else [⟨"SUBTITLES", "subs", true⟩] := by
  unfold generarM3U8Videos
  by_cases ht : teletextSubtitle programa = true
  · simp only [ht, if_true, true_or]
  · simp only [ht, Bool.false_eq_true, if_false, false_or]
    rw [foldl_quemadas]

/-- The variants of a list of bitrates, under the attributes of subtitles
the first call starts with. -/
def variantes (programa : Programa) : List Atributo → List String → List LineaM3U8
  | _, [] => []
  | subtitle, bitrate :: bitrates =>
    let llamada := generarM3U8Videos programa (atributosAudio programa) (atributosVideo programa)
      subtitle bitrate (bitrate ++ "-subtitulo.m3u8")
    llamada.1 ++ variantes programa llamada.2 bitrates

/-- **The playlist, line by line**: the media lines, then the variants. -/
theorem generarArchivoM3U8_eq (programa : Programa) (bitrates : List String) :
    generarArchivoM3U8 programa bitrates = mediasM3U8 programa ++
      if bitrates = [] then
        (generarM3U8Videos programa (atributosAudio programa) (atributosVideo programa)
          (atributosSubtitle programa) "" "subtitulo.m3u8").1
      else variantes programa (atributosSubtitle programa) bitrates := by
  have hfold (acc : List LineaM3U8 × List Atributo) : (bitrates.foldl
      (fun escrito bitrate =>
        let llamada := generarM3U8Videos programa (atributosAudio programa)
          (atributosVideo programa) escrito.2 bitrate (bitrate ++ "-subtitulo.m3u8")
        (escrito.1 ++ llamada.1, llamada.2)) acc).1 = acc.1 ++ variantes programa acc.2 bitrates := by
    induction bitrates generalizing acc with
    | nil => simp [variantes]
    | cons b bs ih => simp only [List.foldl_cons, ih, variantes, List.append_assoc]
  unfold generarArchivoM3U8
  by_cases hb : bitrates = []
  · simp only [hb, if_true]
  · simp only [hb, if_false]
    exact hfold _

/-- A line of the variants is the main variant of some bitrate or, unless
the subtitles are teletext, a burned one. The attributes of subtitles are
those the first call starts with, or the group the closure assigned. -/
theorem mem_variantes {programa : Programa} {l : LineaM3U8} {subtitle : List Atributo}
    {bitrates : List String} (h : l ∈ variantes programa subtitle bitrates) :
    ∃ b ∈ bitrates, ∃ s, (s = subtitle ∨ s = [⟨"SUBTITLES", "subs", true⟩]) ∧
      l ∈ (generarM3U8Videos programa (atributosAudio programa) (atributosVideo programa) s b
        (b ++ "-subtitulo.m3u8")).1 := by
  induction bitrates generalizing subtitle with
  | nil => simp [variantes] at h
  | cons b bs ih =>
    rw [variantes, List.mem_append] at h
    rcases h with h | h
    · exact ⟨b, List.mem_cons_self, subtitle, .inl rfl, h⟩
    · obtain ⟨b', hb', s, hs, hl⟩ := ih h
      refine ⟨b', List.mem_cons_of_mem _ hb', s, ?_, hl⟩
      rw [generarM3U8Videos_snd] at hs
      split at hs
      · exact hs
      · exact .inr (hs.elim id id)

/-- The lines of the variants are no media lines. -/
theorem esMedia_of_mem_generarM3U8Videos {programa : Programa}
    {audio video subtitle : List Atributo} {b n : String} {l : LineaM3U8}
    (h : l ∈ (generarM3U8Videos programa audio video subtitle b n).1) : l.esMedia = false := by
  rw [generarM3U8Videos_fst] at h
  obtain rfl | h := List.mem_cons.1 h
  · rfl
  · split at h
    · cases h
    · obtain ⟨e, -, rfl⟩ := List.mem_map.1 h
      rfl

/-- **The media lines are those of the streams**, whatever else is asked
of them. -/
theorem filter_generarArchivoM3U8 {p : LineaM3U8 → Bool} (hp : ∀ l, p l = true → l.esMedia = true)
    (programa : Programa) (bitrates : List String) :
    (generarArchivoM3U8 programa bitrates).filter p = (mediasM3U8 programa).filter p := by
  have hvideos {audio video subtitle : List Atributo} {b n : String} {l : LineaM3U8}
      (h : l ∈ (generarM3U8Videos programa audio video subtitle b n).1) : ¬ p l = true := by
    intro hl
    have hmedia := hp l hl
    rw [esMedia_of_mem_generarM3U8Videos h] at hmedia
    cases hmedia
  rw [generarArchivoM3U8_eq, List.filter_append]
  refine (congrArg _ (List.filter_eq_nil_iff.2 fun l hl => ?_)).trans (List.append_nil _)
  split at hl
  · exact hvideos hl
  · obtain ⟨b, -, s, -, hs⟩ := mem_variantes hl
    exact hvideos hs

end HlsXcoder
