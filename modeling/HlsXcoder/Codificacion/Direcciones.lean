import HlsXcoder.Codificacion.Muxer

/-!
# The addresses of the master playlist

Each address of the playlist should lead to a playlist that ffmpeg
writes. The two are made apart, the playlist by `generarArchivoM3U8` and
the command by `inicializarFfmpegEncoding`, and they agree but for two
cases. With subtitles burned into the video of a bitrate, the media line
still gives the address they have without bitrates. And with teletext
subtitles and no audio stream the playlist is written, and the program
then stops before there is a command.
-/

namespace HlsXcoder

open OptionGroups

/-- The addresses of a playlist. -/
def urisM3U8 (lineas : List LineaM3U8) : List String := lineas.flatMap LineaM3U8.uris

/-- The file of an address, below the directory of the encoding: the
component `subtitulo` stands for the directory `subtitulos`. -/
def ficheroDeUri (uri : String) : String :=
  if "subtitulo/".toList.isPrefixOf uri.toList then
    "subtitulos/" ++ .ofList (uri.toList.drop "subtitulo/".toList.length)
  else uri

/-- **Every address of the playlist is a playlist of the command** built
for the same inputs. -/
def DireccionesEscritas (configuration : Config) (programa : Programa)
    (encoding : Option Codificacion) : Prop :=
  ∃ orden, comandoFfmpeg configuration programa encoding = some orden ∧
    ∀ uri ∈ urisM3U8 (generarArchivoM3U8 programa (bitratesDe encoding)),
      ∃ x ∈ orden.outputs,
        codificacionPath configuration encoding ++ "/" ++ ficheroDeUri uri ∈ (plantilla x).listas

variable {configuration : Config} {programa : Programa} {encoding : Option Codificacion}

/-! ## The addresses, one by one -/

theorem dropWhile_eq_self {s : List Char} {c : Char} (hc : s.head? = some c) (hcb : c ≠ ' ') :
    s.dropWhile (· = ' ') = s := by
  cases s with
  | nil => rfl
  | cons d s =>
    obtain rfl : d = c := by simpa using hc
    rw [List.dropWhile_cons_of_neg (by simpa using hcb)]

/-- A text that starts and ends with no blank has none around it. -/
theorem sinBlancos_eq {s : String} {c d : Char} (hc : s.toList.head? = some c) (hcb : c ≠ ' ')
    (hd : s.toList.getLast? = some d) (hdb : d ≠ ' ') : sinBlancos s = s := by
  rw [sinBlancos, dropWhile_eq_self hc hcb,
    dropWhile_eq_self (by rw [List.head?_reverse]; exact hd) hdb, List.reverse_reverse,
    String.ofList_toList]

/-- A blank before such a text is trimmed. -/
theorem sinBlancos_cons {s : String} {c d : Char} (hc : s.toList.head? = some c) (hcb : c ≠ ' ')
    (hd : s.toList.getLast? = some d) (hdb : d ≠ ' ') : sinBlancos (" " ++ s) = s := by
  calc sinBlancos (" " ++ s) = sinBlancos s := by rw [sinBlancos, sinBlancos]; simp
    _ = s := sinBlancos_eq hc hcb hd hdb

/-- The address of a burned subtitle. -/
def uriQuemada (prefijo : String) (e : Stream) : String :=
  "subtitulo/" ++ e.language ++ "/" ++ prefijo ++ "subtitulo.m3u8"

/-- Lines with one address each. -/
theorem uris_map {f : Stream → LineaM3U8} {g : Stream → String} (h : ∀ e, (f e).uris = [g e])
    (es : List Stream) : urisM3U8 (es.map f) = es.map g := by
  rw [urisM3U8, List.flatMap_map, List.map_eq_flatMap]
  exact List.flatMap_congr fun e _ => h e

theorem uris_append (a b : List LineaM3U8) : urisM3U8 (a ++ b) = urisM3U8 a ++ urisM3U8 b :=
  List.flatMap_append

theorem uris_mediasM3U8 : urisM3U8 (mediasM3U8 programa) =
    (programa.audio.map fun e => "audio/" ++ e.language ++ "/audio.m3u8") ++
      programa.subtitulos.map fun e => "subtitulo/" ++ e.language ++ "/" ++
        if teletextSubtitle programa then "subtitulo_vtt.m3u8" else "subtitulo.m3u8" := by
  have haudio (e : Stream) : (lineaAudio e).uris = ["audio/" ++ e.language ++ "/audio.m3u8"] := by
    simp [LineaM3U8.uris, lineaAudio, LineaM3U8.valores, LineaM3U8.atributos]
  have hsub (tipo grupo fichero : String) (e : Stream) :
      (lineaSubtitulo tipo grupo fichero e).uris =
        ["subtitulo/" ++ e.language ++ "/" ++ fichero] := by
    simp [LineaM3U8.uris, lineaSubtitulo, LineaM3U8.valores, LineaM3U8.atributos]
  rw [mediasM3U8, uris_append, uris_map haudio]
  congr 1
  split <;> exact uris_map (hsub _ _ _) _

theorem uris_lineaQuemada (audio : List Atributo) (bitrate prefijo : String) (e : Stream) :
    (lineaQuemada audio bitrate (prefijo ++ "subtitulo.m3u8") e).uris = [uriQuemada prefijo e] := by
  have htrim : sinBlancos (" " ++ uriQuemada prefijo e) = uriQuemada prefijo e :=
    sinBlancos_cons (c := 's') (d := '8') (by simp [uriQuemada]) (by decide)
      (by rw [uriQuemada, String.toList_append, List.getLast?_append]; rfl) (by decide)
  rw [← htrim]
  simp [LineaM3U8.uris, lineaQuemada, uriQuemada, ← String.append_assoc]

/-- The name of a burned playlist, with its bitrate apart. -/
theorem nombre_quemada (b : String) : b ++ "-subtitulo.m3u8" = b ++ "-" ++ "subtitulo.m3u8" := by
  rw [String.append_assoc]
  rfl

theorem uris_lineaPrincipal (audio video subtitle : List Atributo) {bitrate : String}
    (hb : ∀ c ∈ bitrate.toList, c.isDigit = true) :
    (lineaPrincipal audio video subtitle bitrate).uris =
      [(if bitrate = "" then "default" else bitrate) ++ ".m3u8"] := by
  refine congrArg (fun s => [s]) ?_
  by_cases hne : bitrate = ""
  · rw [hne]
    decide
  · obtain ⟨d, ds, hd⟩ := List.exists_cons_of_ne_nil (mt String.toList_eq_nil_iff.1 hne)
    have hdig : d.isDigit = true := hb d (by simp [hd])
    rw [if_neg hne]
    exact sinBlancos_eq (c := d) (d := '8') (by simp [hd]) (by rintro rfl; cases hdig)
      (by simp [List.getLast?_append]) (by decide)

/-- The addresses of one bitrate, or of the video without bitrates. -/
theorem uris_generarM3U8Videos {audio video subtitle : List Atributo} {bitrate : String}
    (hb : ∀ c ∈ bitrate.toList, c.isDigit = true) (prefijo : String) :
    urisM3U8 (generarM3U8Videos programa audio video subtitle bitrate
      (prefijo ++ "subtitulo.m3u8")).1 =
      ((if bitrate = "" then "default" else bitrate) ++ ".m3u8") ::
        if teletextSubtitle programa then []
        else programa.subtitulos.map (uriQuemada prefijo) := by
  rw [generarM3U8Videos_fst, urisM3U8, List.flatMap_cons, uris_lineaPrincipal _ _ _ hb,
    List.singleton_append]
  congr 1
  split
  · rfl
  · exact uris_map (uris_lineaQuemada _ _ prefijo) _

/-- **The addresses of a playlist**: those of the media lines, then those
of the variants of each bitrate. -/
theorem uris_generarArchivoM3U8 {bitrates : List String} (hb : ∀ b ∈ bitrates, EsBitrate b) :
    urisM3U8 (generarArchivoM3U8 programa bitrates) = urisM3U8 (mediasM3U8 programa) ++
      if bitrates = [] then
        "default.m3u8" :: if teletextSubtitle programa then []
          else programa.subtitulos.map (uriQuemada "")
      else bitrates.flatMap fun b => (b ++ ".m3u8") ::
        if teletextSubtitle programa then []
        else programa.subtitulos.map (uriQuemada (b ++ "-")) := by
  have hvariantes (subtitle : List Atributo) : urisM3U8 (variantes programa subtitle bitrates) =
      bitrates.flatMap fun b => (b ++ ".m3u8") ::
        if teletextSubtitle programa then []
        else programa.subtitulos.map (uriQuemada (b ++ "-")) := by
    induction bitrates generalizing subtitle with
    | nil => rfl
    | cons b bs ih =>
      have hb' : EsBitrate b := hb b List.mem_cons_self
      have hne : b ≠ "" := by
        rintro rfl
        obtain ⟨d, ds, hd, -⟩ := exists_cons_of_esBitrate hb'
        cases hd
      rw [variantes, uris_append, nombre_quemada, uris_generarM3U8Videos (fun c hc => hb'.isDigit hc),
        if_neg hne, ih fun b hb'' => hb b (List.mem_cons_of_mem _ hb''), List.flatMap_cons]
  rw [generarArchivoM3U8_eq, uris_append]
  congr 1
  split
  · exact uris_generarM3U8Videos (by simp) ""
  · exact hvariantes _

/-! ## The file of an address -/

theorem ficheroDeUri_subtitulo (s : String) :
    ficheroDeUri ("subtitulo/" ++ s) = "subtitulos/" ++ s := by
  rw [ficheroDeUri, if_pos (by simp [List.isPrefixOf])]
  simp

theorem ficheroDeUri_eq {s : String} {c : Char} (hc : s.toList.head? = some c) (hne : c ≠ 's') :
    ficheroDeUri s = s := by
  rw [ficheroDeUri, if_neg]
  cases hs : s.toList with
  | nil => simp [hs] at hc
  | cons d ds =>
    rw [hs, List.head?_cons, Option.some_inj] at hc
    simp [List.isPrefixOf, hc, hne.symm]

/-! ## When the addresses are written -/

/-- An address leads to a playlist of the command where a track has it. -/
theorem exists_salida_of_ruta {t : Pista} (ht : t ∈ pistas programa encoding) {r : String}
    (hr : ("/" ++ r).toList = (t.carpeta ++ "/" ++ t.lista ++ ".m3u8").toList ∨
      t.webvtt = true ∧ ("/" ++ r).toList = (t.carpeta ++ "/" ++ t.lista ++ "_vtt.m3u8").toList) :
    ∃ x ∈ (comando configuration programa encoding).outputs,
      codificacionPath configuration encoding ++ "/" ++ r ∈ (plantilla x).listas := by
  obtain ⟨x, hx, heq⟩ := exists_salida configuration ht
  refine ⟨x, hx, ?_⟩
  have hcorte : codificacionPath configuration encoding ++ "/" ++ r =
      codificacionPath configuration encoding ++ ("/" ++ r) := String.append_assoc
  rw [heq, listas_plantilla, hcorte]
  obtain hr | ⟨hvtt, hr⟩ := hr
  · rw [String.toList_inj.1 hr]
    simp [String.append_assoc]
  · rw [String.toList_inj.1 hr, hvtt]
    simp [String.append_assoc]

/-- The file of a burned subtitle's address. -/
theorem ficheroDeUri_uriQuemada (prefijo : String) (e : Stream) :
    ficheroDeUri (uriQuemada prefijo e) =
      "subtitulos/" ++ (e.language ++ "/" ++ prefijo ++ "subtitulo.m3u8") := by
  rw [← ficheroDeUri_subtitulo, uriQuemada]
  simp only [String.append_assoc]

/-- **Without subtitles burned into a bitrate every address is written.** -/
theorem direccionesEscritas_of (hb : ∀ b ∈ bitratesDe encoding, EsBitrate b)
    (haudio : teletextSubtitle programa = true → programa.audio ≠ [])
    (hquemado : programa.subtitulos ≠ [] → teletextSubtitle programa = false →
      bitratesDe encoding = []) : DireccionesEscritas configuration programa encoding := by
  refine ⟨_, comandoFfmpeg_eq ⟨fun b h => calcularBitrateMaximo_isSome (hb b h).1, haudio⟩,
    fun uri huri => ?_⟩
  -- a burned subtitle is there only without bitrates
  have hburned {e : Stream} (he : e ∈ programa.subtitulos) (ht : ¬ teletextSubtitle programa = true) :
      bitratesDe encoding = [] ∧ ∃ x ∈ (comando configuration programa encoding).outputs,
        codificacionPath configuration encoding ++ "/" ++ ficheroDeUri (uriQuemada "" e) ∈
          (plantilla x).listas := by
    have hnil := hquemado (List.ne_nil_of_mem he) (Bool.eq_false_iff.2 ht)
    have hmem : .quemado "" e.language ∈ pistas programa encoding := quemado_mem_pistas.2
      ⟨Bool.eq_false_iff.2 ht, ⟨e, he, rfl⟩, Or.inr ⟨hnil, rfl⟩⟩
    refine ⟨hnil, exists_salida_of_ruta hmem (Or.inl ?_)⟩
    rw [ficheroDeUri_uriQuemada]
    simp [Pista.carpeta, Pista.lista]
  rw [uris_generarArchivoM3U8 hb, uris_mediasM3U8, List.mem_append, List.mem_append] at huri
  obtain (huri | huri) | huri := huri
  · -- an audio stream
    obtain ⟨e, he, rfl⟩ := List.mem_map.1 huri
    refine exists_salida_of_ruta (audio_mem_pistas.2 ⟨e, he, rfl⟩) (Or.inl ?_)
    rw [ficheroDeUri_eq (c := 'a') (by simp) (by decide)]
    simp [Pista.carpeta, Pista.lista]
  · -- the rendition of a subtitle
    obtain ⟨e, he, rfl⟩ := List.mem_map.1 huri
    by_cases ht : teletextSubtitle programa = true
    · refine exists_salida_of_ruta (teletexto_mem_pistas.2 ⟨ht, e, he, rfl⟩) (Or.inr ⟨rfl, ?_⟩)
      simp only [ht, if_true, String.append_assoc]
      rw [ficheroDeUri_subtitulo]
      simp [Pista.carpeta, Pista.lista]
    · have heq : "subtitulo/" ++ e.language ++ "/" ++ "subtitulo.m3u8" = uriQuemada "" e := by
        simp [uriQuemada]
      rw [if_neg ht, heq]
      exact (hburned he ht).2
  -- the variants, with their burned subtitles
  · split at huri
    · rename_i hnil
      obtain rfl | huri := List.mem_cons.1 huri
      · refine exists_salida_of_ruta (defecto_mem_pistas.2 hnil) (Or.inl ?_)
        decide
      · split at huri
        · cases huri
        · rename_i ht
          obtain ⟨e, he, rfl⟩ := List.mem_map.1 huri
          exact (hburned he ht).2
    · rename_i hne
      obtain ⟨b, hbmem, huri⟩ := List.mem_flatMap.1 huri
      obtain rfl | huri := List.mem_cons.1 huri
      · refine exists_salida_of_ruta (video_mem_pistas.2 hbmem) (Or.inl ?_)
        obtain ⟨d, ds, hd, hdig⟩ := exists_cons_of_esBitrate (hb b hbmem)
        rw [ficheroDeUri_eq (c := d) (by simp [hd]) (by rintro rfl; cases hdig)]
        simp [Pista.carpeta, Pista.lista]
      · split at huri
        · cases huri
        · rename_i ht
          obtain ⟨e, he, -⟩ := List.mem_map.1 huri
          exact absurd (hburned he ht).1 hne

/-- The name of the playlist of a track, after the last slash of its
path. -/
theorem lista_eq_of_ruta {t : Pista} (hbarra : '/' ∉ t.lista.toList) (path d n : String)
    (hn : '/' ∉ n.toList)
    (h : path ++ t.carpeta ++ "/" ++ t.lista ++ ".m3u8" = path ++ d ++ "/" ++ n ++ ".m3u8") :
    t.carpeta = d ∧ t.lista = n := by
  rw [← String.toList_inj] at h
  simp only [String.toList_append, String.reduceToList, List.append_assoc, List.cons_append,
    List.nil_append] at h
  rw [← List.append_assoc, ← List.append_assoc] at h
  obtain ⟨hd, hl⟩ := Text.append_cons_inj_right (by simpa using hbarra) (by simpa using hn) h
  exact ⟨String.toList_inj.1 (List.append_cancel_left hd),
    String.toList_inj.1 (List.append_cancel_right hl)⟩

/-- **The media line of a burned subtitle leads nowhere** where there are
bitrates. -/
theorem not_direccionesEscritas (hb : ∀ b ∈ bitratesDe encoding, EsBitrate b)
    (hs : programa.subtitulos ≠ []) (ht : teletextSubtitle programa = false)
    (hne : bitratesDe encoding ≠ []) : ¬ DireccionesEscritas configuration programa encoding := by
  rintro ⟨orden, horden, h⟩
  obtain ⟨-, rfl⟩ := comandoFfmpeg_eq_some_iff.1 horden
  obtain ⟨e, subs, hsub⟩ := List.exists_cons_of_ne_nil hs
  have huri : uriQuemada "" e ∈ urisM3U8 (generarArchivoM3U8 programa (bitratesDe encoding)) := by
    rw [uris_generarArchivoM3U8 hb, uris_mediasM3U8]
    simp [hsub, ht, uriQuemada]
  -- the media line names no bitrate, and the burned outputs have one each
  obtain ⟨x, hx, hmem⟩ := h _ huri
  obtain ⟨t, htrack, heq⟩ := exists_pista hx
  have hbarra := not_mem_of_esNombre (esNombre_of_mem_pistas hb htrack).1 (c := '/') (by decide)
  have hvtt : t.webvtt = false := by
    cases t with
    | teletexto l =>
      rw [teletexto_mem_pistas, ht] at htrack
      cases htrack.1
    | video | defecto | quemado | audio => rfl
  rw [heq, listas_plantilla, hvtt, if_neg Bool.false_ne_true, List.mem_singleton,
    ficheroDeUri_uriQuemada] at hmem
  obtain ⟨hcarpeta, hlista⟩ := lista_eq_of_ruta hbarra (codificacionPath configuration encoding)
    ("/subtitulos/" ++ e.language) "subtitulo" (by decide) (by
      rw [← hmem]
      apply String.toList_inj.1
      simp)
  cases t with
  | video | defecto => simp [Pista.carpeta] at hcarpeta
  | audio => simp [Pista.lista] at hlista
  | teletexto => cases hvtt
  | quemado b l =>
    obtain ⟨-, -, hbmem | ⟨hnil, -⟩⟩ := quemado_mem_pistas.1 htrack
    · obtain ⟨d, ds, hd, -⟩ := exists_cons_of_esBitrate (hb b hbmem)
      have hne' : b ≠ "" := by
        rintro rfl
        cases hd
      have hlen := congrArg (fun s => s.toList.length) hlista
      simp [Pista.lista, hne', hd] at hlen
    · exact hne hnil

/-- **Every address of the playlist is written exactly when** teletext
subtitles find an audio stream and no subtitle is burned into the video
of a bitrate. -/
theorem direccionesEscritas_iff (configuration : Config) (programa : Programa)
    (encoding : Option Codificacion) (hb : ∀ b ∈ bitratesDe encoding, EsBitrate b) :
    DireccionesEscritas configuration programa encoding ↔
      (teletextSubtitle programa = true → programa.audio ≠ []) ∧
        (programa.subtitulos ≠ [] → teletextSubtitle programa = false →
          bitratesDe encoding = []) := by
  refine ⟨fun h => ⟨?_, fun hs ht => ?_⟩, fun h => direccionesEscritas_of hb h.1 h.2⟩
  · obtain ⟨orden, horden, -⟩ := h
    exact (comandoFfmpeg_eq_some_iff.1 horden).1.2
  · by_contra hne
    exact not_direccionesEscritas hb hs ht hne h

theorem direccionesEscritas_audio : DireccionesEscritas
    .minima
    { (default : Programa) with audio := [{ (default : Stream) with language := "spa_257" }] }
    (some ⟨"h264", ["2800", "1400"]⟩) :=
  (direccionesEscritas_iff _ _ _ (by decide)).2 (by decide)

/-- One burned subtitle and one bitrate: the media line leads nowhere. -/
theorem direccionesEscritas_subtitulo : ¬ DireccionesEscritas
    .minima
    { (default : Programa) with subtitulos := [{ (default : Stream) with
      id := "2", hexaId := "0x102", format := "dvb_subtitle", language := "spa" }] }
    (some ⟨"h264", ["2800"]⟩) :=
  not_direccionesEscritas (by decide) (by decide) (by decide) (by decide)

end HlsXcoder
