import HlsXcoder.Codificacion.Claves
import HlsXcoder.Codificacion.Grupos
import Mathlib.Data.List.Flatten

/-!
# The groups of the media lines

The `EXT-X-MEDIA` lines of one type and group are the renditions a player
chooses from, so they have names and addresses of their own and one of
them at most is the default. The languages of a probed program give the
names and the addresses apart. Every audio line says `DEFAULT=YES`, so
the groups are well formed exactly up to one audio stream.
-/

namespace HlsXcoder

/-- The lines of a group have distinct names and addresses, and at most
one default. -/
structure GrupoBienFormado (lineas : List LineaM3U8) : Prop where
  nombres : (lineas.flatMap fun l => l.valores "NAME").Nodup
  uris : (lineas.flatMap fun l => l.valores "URI").Nodup
  defecto : (lineas.filter fun l => "YES" ∈ l.valores "DEFAULT").length ≤ 1

/-- **Every group of media lines is well formed.** -/
def MediasBienFormadas (lineas : List LineaM3U8) : Prop :=
  ∀ tipo grupo, GrupoBienFormado (lineas.filter fun l => l.define tipo grupo)

/-- A part of a well-formed group is one. -/
theorem GrupoBienFormado.sublist {a b : List LineaM3U8} (h : GrupoBienFormado b)
    (hsub : List.Sublist a b) : GrupoBienFormado a :=
  ⟨h.nombres.sublist (hsub.flatMap _), h.uris.sublist (hsub.flatMap _),
    Nat.le_trans (hsub.filter _).length_le h.defecto⟩

variable {programa : Programa} {bitrates : List String}

/-! ## The lines of each kind -/

theorem valores_lineaAudio (e : Stream) : (lineaAudio e).valores "NAME" = [e.language] ∧
    (lineaAudio e).valores "URI" = ["audio/" ++ e.language ++ "/audio.m3u8"] ∧
    (lineaAudio e).valores "DEFAULT" = ["YES"] := by
  simp [lineaAudio, LineaM3U8.valores, LineaM3U8.atributos]

theorem valores_lineaSubtitulo (tipo grupo fichero : String) (e : Stream) :
    (lineaSubtitulo tipo grupo fichero e).valores "NAME" = [e.language] ∧
      (lineaSubtitulo tipo grupo fichero e).valores "URI" =
        ["subtitulo/" ++ e.language ++ "/" ++ fichero] ∧
      (lineaSubtitulo tipo grupo fichero e).valores "DEFAULT" = ["NO"] := by
  simp [lineaSubtitulo, LineaM3U8.valores, LineaM3U8.atributos]

/-- Lines named after distinct languages, with at most one default among
them, are a well-formed group. -/
theorem grupoBienFormado_map {es : List Stream} (hes : (es.map Stream.language).Nodup)
    {f : Stream → LineaM3U8} {antes fichero : String}
    (hnombre : ∀ e, (f e).valores "NAME" = [e.language])
    (huri : ∀ e, (f e).valores "URI" = [antes ++ e.language ++ fichero])
    (hdefecto : ((es.map f).filter fun l => "YES" ∈ l.valores "DEFAULT").length ≤ 1) :
    GrupoBienFormado (es.map f) := by
  refine ⟨?_, ?_, hdefecto⟩
  · have hmap : ((es.map f).flatMap fun l => l.valores "NAME") = es.map Stream.language := by
      rw [List.flatMap_map, List.map_eq_flatMap]
      simp only [hnombre]
    rwa [hmap]
  · have hmap : ((es.map f).flatMap fun l => l.valores "URI") =
        (es.map Stream.language).map fun language => antes ++ language ++ fichero := by
      rw [List.flatMap_map, List.map_map, List.map_eq_flatMap]
      simp only [huri, Function.comp_apply]
    rw [hmap]
    refine hes.map fun l l' h => ?_
    have htext := String.toList_inj.2 h
    simp only [String.toList_append, List.append_cancel_right_eq, List.append_cancel_left_eq] at htext
    exact String.toList_inj.1 htext

/-- The audio lines, under at most one audio stream. -/
theorem grupoBienFormado_audio (hP : programa.ConClaves) (hlen : programa.audio.length ≤ 1) :
    GrupoBienFormado (programa.audio.map lineaAudio) := by
  refine grupoBienFormado_map hP.nodup_audio (fun e => (valores_lineaAudio e).1)
    (fun e => (valores_lineaAudio e).2.1) ?_
  refine Nat.le_trans (List.length_filter_le _ _) ?_
  rwa [List.length_map]

/-- The subtitle lines, none of which is a default. -/
theorem grupoBienFormado_subtitulos (hP : programa.ConClaves) (tipo grupo fichero : String) :
    GrupoBienFormado (programa.subtitulos.map (lineaSubtitulo tipo grupo fichero)) := by
  have huri (e : Stream) : (lineaSubtitulo tipo grupo fichero e).valores "URI" =
      ["subtitulo/" ++ e.language ++ ("/" ++ fichero)] := by
    rw [(valores_lineaSubtitulo tipo grupo fichero e).2.1, String.append_assoc]
  refine grupoBienFormado_map hP.subtitulos
    (fun e => (valores_lineaSubtitulo tipo grupo fichero e).1) huri ?_
  have hnone : ((programa.subtitulos.map (lineaSubtitulo tipo grupo fichero)).filter
      fun l => "YES" ∈ l.valores "DEFAULT") = [] := by
    refine List.filter_eq_nil_iff.2 fun l hl => ?_
    obtain ⟨e, -, rfl⟩ := List.mem_map.1 hl
    simp [(valores_lineaSubtitulo tipo grupo fichero e).2.2]
  rw [hnone]
  exact Nat.zero_le 1

/-! ## When the groups are well formed -/

/-- The variants define no group. -/
theorem filter_define_generarArchivoM3U8 (tipo grupo : String) :
    (generarArchivoM3U8 programa bitrates).filter (fun l => l.define tipo grupo) =
      (mediasM3U8 programa).filter fun l => l.define tipo grupo :=
  filter_generarArchivoM3U8 (fun _ hl => (of_decide_eq_true hl).1) programa bitrates

/-- **Groups that are well formed have one audio line at most**: all of
them are defaults. -/
theorem length_audio_of_mediasBienFormadas
    (h : MediasBienFormadas (generarArchivoM3U8 programa bitrates)) :
    programa.audio.length ≤ 1 := by
  have haudio := (h "AUDIO" "audio").defecto
  have hall (ls : List Stream) : ((ls.map lineaAudio).filter fun l => l.define "AUDIO" "audio").filter
      (fun l => "YES" ∈ l.valores "DEFAULT") = ls.map lineaAudio := by
    rw [List.filter_filter]
    refine List.filter_eq_self.2 fun l hl => ?_
    obtain ⟨e, -, rfl⟩ := List.mem_map.1 hl
    simp [(valores_lineaAudio e).2.2]
  rw [filter_define_generarArchivoM3U8, mediasM3U8, List.filter_append, List.filter_append, hall,
    List.length_append, List.length_map] at haudio
  omega

/-- **The groups of a playlist are well formed exactly up to one audio
stream.** -/
theorem mediasBienFormadas_iff {configuration : Config} {lineas : List String}
    {previo programa : Programa} {resumen : String}
    (h : obtenerStreamsPost configuration lineas previo = some (programa, resumen))
    (bitrates : List String) :
    MediasBienFormadas (generarArchivoM3U8 programa bitrates) ↔ programa.audio.length ≤ 1 := by
  refine ⟨length_audio_of_mediasBienFormadas, fun hlen tipo grupo => ?_⟩
  obtain ⟨-, hP⟩ := conserva_conClaves.obtenerStreamsPost h
  rw [filter_define_generarArchivoM3U8, mediasM3U8, List.filter_append]
  by_cases htipo : tipo = "AUDIO"
  · -- the subtitle lines are of another type
    have hsubs : ((if teletextSubtitle programa then
        programa.subtitulos.map (lineaSubtitulo "SUBTITLES" "subs" "subtitulo_vtt.m3u8")
      else programa.subtitulos.map (lineaSubtitulo "VIDEO" "videoSubs" "subtitulo.m3u8")).filter
        fun l => l.define tipo grupo) = [] := by
      refine List.filter_eq_nil_iff.2 fun l hl => ?_
      split at hl
      all_goals
        obtain ⟨e, -, rfl⟩ := List.mem_map.1 hl
        simp [LineaM3U8.define, lineaSubtitulo, LineaM3U8.valores, LineaM3U8.atributos, htipo]
    rw [hsubs, List.append_nil]
    exact (grupoBienFormado_audio hP hlen).sublist List.filter_sublist
  · have haudio : ((programa.audio.map lineaAudio).filter fun l => l.define tipo grupo) = [] := by
      refine List.filter_eq_nil_iff.2 fun l hl => ?_
      obtain ⟨e, -, rfl⟩ := List.mem_map.1 hl
      simp [LineaM3U8.define, lineaAudio, LineaM3U8.valores, LineaM3U8.atributos, htipo]
    rw [haudio, List.nil_append]
    split
    · exact (grupoBienFormado_subtitulos hP _ _ _).sublist List.filter_sublist
    · exact (grupoBienFormado_subtitulos hP _ _ _).sublist List.filter_sublist

/-- A report with one audio stream, and what is left of it. -/
def informeUnAudio : List String :=
  ["  Program 1 ", "    Stream #0:0[0x100](spa): Audio: mp2, 48000 Hz"]

theorem mediasBienFormadas_una : ∃ programa resumen,
    obtenerStreamsPost .minima informeUnAudio default = some (programa, resumen) ∧
      programa.audio.length = 1 ∧ MediasBienFormadas (generarArchivoM3U8 programa ["2800"]) := by
  have h : (obtenerStreamsPost .minima informeUnAudio default).any
      (fun p => p.1.audio.length = 1) = true := by decide +kernel
  obtain ⟨⟨programa, resumen⟩, hp, hlen⟩ := (Option.any_eq_true _ _).1 h
  simp only [decide_eq_true_eq] at hlen
  exact ⟨programa, resumen, hp, hlen, (mediasBienFormadas_iff hp _).2 (Nat.le_of_eq hlen)⟩

/-- Two audio streams are two defaults of one group. -/
theorem mediasBienFormadas_dos : ∃ programa resumen,
    obtenerStreamsPost .minima
        (informeUnAudio ++ ["    Stream #0:1[0x101](eng): Audio: mp2, 48000 Hz"]) default =
      some (programa, resumen) ∧ ¬ MediasBienFormadas (generarArchivoM3U8 programa ["2800"]) := by
  have h : (obtenerStreamsPost .minima
      (informeUnAudio ++ ["    Stream #0:1[0x101](eng): Audio: mp2, 48000 Hz"]) default).any
      (fun p => p.1.audio.length = 2) = true := by decide +kernel
  obtain ⟨⟨programa, resumen⟩, hp, hlen⟩ := (Option.any_eq_true _ _).1 h
  simp only [decide_eq_true_eq] at hlen
  refine ⟨programa, resumen, hp, fun hmal => ?_⟩
  have := length_audio_of_mediasBienFormadas hmal
  omega

end HlsXcoder
