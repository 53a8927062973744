import HlsXcoder.Codificacion.Filtros

/-!
# The streams the command takes

Each value of `-map` that is no label of a filter graph, and each open
label of a graph, should name one stream of the program, by its index or
its PID. The streams that were read off a line all have an index, so
`getMapId` names them. A program without video keeps the empty stream in
its place, and `getMapId` makes of it a specifier with nothing after the
colon, which ffmpeg takes for every stream of the input.
-/

namespace HlsXcoder

open OptionGroups FilterGraph

/-- The streams of a program. -/
def Programa.streams (programa : Programa) : List Stream :=
  programa.video :: (programa.audio ++ programa.subtitulos)

/-- A specifier of one stream of the program, by its index or its PID. -/
def NombraStream (programa : Programa) (v : String) : Prop :=
  ∃ s ∈ programa.streams, s.id ≠ "" ∧ v = "0:" ++ s.id ∨ s.hexaId ≠ "" ∧ v = "i:" ++ s.hexaId

/-- **Every map and every open label names one stream of the program.** -/
structure MapasNombran (programa : Programa) (orden : Command String) : Prop where
  mapas : ∀ x ∈ orden.outputs, ∀ v, ⟨"-map", some v⟩ ∈ x.opts → v.toList.head? ≠ some '[' →
    NombraStream programa v
  filtros : ∀ x ∈ orden.outputs, ∀ s, ⟨"-filter_complex", some s⟩ ∈ x.opts →
    ∃ g, Graph.read s = some g ∧ ∀ l ∈ g.openInputs, NombraStream programa l

variable {configuration : Config} {programa : Programa} {encoding : Option Codificacion}

/-! ## Specifiers -/

/-- **A stream that was read is named.** -/
theorem nombra_getMapId {s : Stream} (hs : s ∈ programa.streams) (h : s.Captado) :
    NombraStream programa (getMapId s) := by
  refine ⟨s, hs, ?_⟩
  unfold getMapId
  by_cases hhex : s.hexaId = ""
  · exact .inl ⟨h.id_ne_empty, by rw [if_pos hhex]⟩
  · exact .inr ⟨hhex, by rw [if_neg hhex, if_neg h.id_ne_empty]⟩

theorem Programa.DeSonda.captado_video (hP : programa.DeSonda) (hvideo : programa.video.id ≠ "") :
    programa.video.Captado := by
  obtain h | h := hP.video
  · rw [h] at hvideo
    exact absurd rfl hvideo
  · exact h

/-- **No stream is named by a program without video.** -/
theorem not_nombra_video (hP : programa.DeSonda) (hvideo : programa.video.id = "") :
    ¬ NombraStream programa (getMapId programa.video) := by
  have hdefault : programa.video = default :=
    hP.video.resolve_right fun h => h.id_ne_empty hvideo
  have hmap : getMapId programa.video = "0:" := by rw [hdefault]; rfl
  rw [hmap]
  rintro ⟨s, -, ⟨hid, heq⟩ | ⟨-, heq⟩⟩
  · rw [← String.toList_inj] at heq
    simp only [String.toList_append, String.reduceToList, List.cons_append, List.nil_append,
      List.cons.injEq, true_and] at heq
    exact hid (String.toList_inj.1 heq.symm)
  · rw [← String.toList_inj] at heq
    simp at heq

/-! ## Open labels -/

/-- The labels the graph of an overlay leaves open. -/
theorem openInputs_grafoOverlay {elem : Stream} {l : String}
    (h : l ∈ (grafoOverlay programa elem).openInputs) :
    l = getMapId programa.video ∨ l = getMapId elem := by
  have hmem := List.mem_of_mem_filter h
  simpa [grafoOverlay, chainInputs] using hmem

/-- **The labels the graph of the GPU leaves open** are the video and the
subtitles: the others come out of another chain. -/
theorem openInputs_grafoDVBSubs {l : String} (h : l ∈ (grafoDVBSubs programa).openInputs) :
    l = getMapId programa.video ∨ ∃ elem ∈ programa.subtitulos, l = getMapId elem := by
  rw [Graph.openInputs, List.mem_filter, decide_eq_true_eq] at h
  obtain ⟨hin, hout⟩ := h
  obtain ⟨c, hc, hl⟩ := List.mem_flatMap.1 hin
  have hgiven {c : Chain} (hc : c ∈ grafoDVBSubs programa) : l ∉ chainOutputs c :=
    fun hmem => hout (List.mem_flatMap.2 ⟨c, hc, hmem⟩)
  obtain rfl | ⟨elem, index, helem, hc⟩ := mem_grafoDVBSubs.1 hc
  · exact .inl (by simpa [cadenaVideo, chainInputs] using hl)
  · have hsub {c' : Chain} (h : c' ∈ cadenasSubtitulo elem index) : l ∉ chainOutputs c' :=
      hgiven (mem_grafoDVBSubs.2 (.inr ⟨elem, index, helem, h⟩))
    have hindex : index < programa.subtitulos.length := (List.getElem?_eq_some_iff.1 helem).1
    have hbase : l ≠ "base" ++ itoa index := by
      rintro rfl
      refine hgiven (mem_grafoDVBSubs.2 (.inl rfl)) ?_
      simp only [chainOutputs, cadenaVideo, List.flatMap_cons, List.flatMap_nil, List.nil_append,
        List.append_nil]
      exact List.mem_map.2 ⟨index, List.mem_range.2 hindex, rfl⟩
    have hscale : l ≠ "subtitle" ++ itoa index ∧ l ≠ "ref" ++ itoa index := by
      constructor
      all_goals
        rintro rfl
        exact hsub List.mem_cons_self (by simp [chainOutputs])
    simp only [cadenasSubtitulo, List.mem_cons, List.not_mem_nil, or_false] at hc
    obtain rfl | rfl := hc
    · refine .inr ⟨elem, List.mem_of_getElem? helem, ?_⟩
      simpa [chainInputs, hbase] using hl
    · simp [chainInputs, hscale.1, hscale.2] at hl

/-! ## When every map names a stream -/

/-- **What an origin maps**: the video, its own stream, the first audio
stream, or a label. -/
theorem map_mem_propias {o : Origen} {v : String}
    (h : (⟨"-map", some v⟩ : Opcion) ∈ o.propias configuration programa encoding) :
    v = getMapId programa.video ∨ v.toList.head? = some '[' ∨
      (∃ elem, (o = .audio elem ∨ o = .teletexto elem) ∧ v = getMapId elem) ∨
      ∃ elem, o = .teletexto elem ∧ v = getMapId (programa.audio.headD default) := by
  cases o with
  | video b =>
    simp only [Origen.propias, List.mem_cons, List.not_mem_nil, or_false, Opt.mk.injEq,
      Option.some.injEq, true_and] at h
    obtain h | ⟨h, -⟩ := h
    · exact .inl h
    · exact absurd h (by decide)
  | defecto => exact .inl (by simpa [Origen.propias] using h)
  | audio elem =>
    have hv : v = getMapId elem ∨ v = getMapId programa.video := by simpa [Origen.propias] using h
    obtain hv | hv := hv
    · exact .inr (.inr (.inl ⟨elem, .inl rfl, hv⟩))
    · exact .inl hv
  | teletexto elem =>
    have hv : v = getMapId (programa.audio.headD default) ∨ v = getMapId elem ∨
        v = getMapId programa.video := by simpa [Origen.propias] using h
    obtain hv | hv | hv := hv
    · exact .inr (.inr (.inr ⟨elem, rfl, hv⟩))
    · exact .inr (.inr (.inl ⟨elem, .inr rfl, hv⟩))
    · exact .inl hv
  | quemado b elem index =>
    refine .inr (.inl ?_)
    simp only [Origen.propias] at h
    split at h
    · simp only [List.mem_append, List.mem_cons, List.not_mem_nil, or_false, Opt.mk.injEq,
        Option.some.injEq, true_and] at h
      obtain (h | h) | rfl | h := h
      · split at h <;> simp at h
      · split at h <;> simp at h
      · simp
      · simp at h
    · obtain rfl : v = "[v]" := by simpa using h
      rfl

/-- **With a video every map names a stream.** -/
theorem mapasNombran_of (hP : programa.DeSonda) (hc : Construible programa encoding)
    (hvideo : programa.video.id ≠ "") :
    MapasNombran programa (comando configuration programa encoding) := by
  have hv : NombraStream programa (getMapId programa.video) :=
    nombra_getMapId List.mem_cons_self (hP.captado_video hvideo)
  have hstream {s : Stream} (hs : s ∈ programa.audio ++ programa.subtitulos) :
      NombraStream programa (getMapId s) :=
    nombra_getMapId (List.mem_cons_of_mem _ hs) (hP.streams s hs)
  refine ⟨fun x hx v hmap hetiqueta => ?_, fun x hx s hfiltro => ?_⟩
  · obtain ⟨o, ho, -, hpropias⟩ := exists_propias hx
    have hmem := hpropias _ hmap (by simp)
    obtain rfl | hlabel | ⟨elem, rfl | rfl, rfl⟩ | ⟨elem, rfl, rfl⟩ := map_mem_propias hmem
    · exact hv
    · exact absurd hlabel hetiqueta
    · exact hstream (List.mem_append_left _ (audio_mem_origenes.1 ho))
    · exact hstream (List.mem_append_right _ (teletexto_mem_origenes.1 ho).2)
    · -- a command with teletext has an audio stream
      obtain ⟨a, as, has⟩ := List.exists_cons_of_ne_nil (hc.2 (teletexto_mem_origenes.1 ho).1)
      exact hstream (List.mem_append_left _ (by simp [has]))
  · obtain ⟨o, ho, -, hpropias⟩ := exists_propias hx
    obtain ⟨b, elem, index, rfl, hs⟩ := filtro_mem_propias (hpropias _ hfiltro (by simp))
    obtain ⟨-, helem, -⟩ := quemado_mem_origenes.1 ho
    have hmemElem : elem ∈ programa.subtitulos := List.mem_of_getElem? helem
    obtain ⟨-, rfl⟩ | ⟨-, rfl⟩ := hs
    · refine ⟨_, read_filtroDVBSubs hP (List.ne_nil_of_mem hmemElem), fun l hl => ?_⟩
      obtain rfl | ⟨e, he, rfl⟩ := openInputs_grafoDVBSubs hl
      · exact hv
      · exact hstream (List.mem_append_right _ he)
    · refine ⟨_, read_filtroOverlay hP hmemElem, fun l hl => ?_⟩
      obtain rfl | rfl := openInputs_grafoOverlay hl
      · exact hv
      · exact hstream (List.mem_append_right _ hmemElem)

/-- **Without video the first output takes no one stream.** -/
theorem not_mapasNombran (hP : programa.DeSonda) (hvideo : programa.video.id = "") :
    ¬ MapasNombran programa (comando configuration programa encoding) := by
  intro h
  have hmem : (⟨"-map", some (getMapId programa.video)⟩ : Opcion) ∈
      (primeraSalida configuration programa encoding).opts := by
    have hpropia : (⟨"-map", some (getMapId programa.video)⟩ : Opcion) ∈
        propias (primeraSalida configuration programa encoding).opts := by
      rw [propias_primeraSalida, List.mem_append]
      refine .inr ?_
      unfold primero
      split <;> simp [Origen.propias]
    exact (mem_propias.1 hpropia).1
  refine not_nombra_video hP hvideo (h.mapas _ primeraSalida_mem _ hmem ?_)
  obtain ⟨t, ht | ht⟩ := getMapId_toList programa.video
  all_goals simp [ht]

/-- **Every map names one stream of the program exactly when** the program
has a video. -/
theorem mapasNombran_iff {configuration : Config} {lineas : List String}
    {previo programa : Programa} {resumen : String} {encoding : Option Codificacion}
    {orden : Command String}
    (hprograma : obtenerStreamsPost configuration lineas previo = some (programa, resumen))
    (horden : comandoFfmpeg configuration programa encoding = some orden) :
    MapasNombran programa orden ↔ programa.video.id ≠ "" := by
  obtain ⟨id, hP⟩ := conserva_deSonda.obtenerStreamsPost hprograma
  obtain ⟨hc, rfl⟩ := comandoFfmpeg_eq_some_iff.1 horden
  exact ⟨fun h hvideo => not_mapasNombran hP hvideo h, mapasNombran_of hP hc⟩

/-- A report with a video and an audio stream. -/
def informeConVideo : List String :=
  ["  Program 1 ",
    "    Stream #0:0[0x100]: Video: h264 (High), yuv420p(progressive), 1920x1080, 25 fps, 25 tbr",
    "    Stream #0:1[0x101](spa): Audio: mp2, 48000 Hz"]

/-- A radio program. -/
def informeSinVideo : List String :=
  ["  Program 1 ", "    Stream #0:0[0x100](spa): Audio: mp2, 48000 Hz"]

/-- The copy of a program without subtitles is built. -/
theorem construible_copia (hs : programa.subtitulos = []) : Construible programa none :=
  ⟨by simp [bitratesDe], by simp [teletextSubtitle, hs]⟩

theorem mapasNombran_video : ∃ programa resumen orden,
    obtenerStreamsPost .minima informeConVideo default = some (programa, resumen) ∧
      comandoFfmpeg .minima programa none = some orden ∧ MapasNombran programa orden := by
  have h : (obtenerStreamsPost .minima informeConVideo default).any (fun p =>
      p.1.video.id ≠ "" ∧ p.1.subtitulos = []) = true := by decide +kernel
  obtain ⟨⟨programa, resumen⟩, hp, hprograma⟩ := (Option.any_eq_true _ _).1 h
  simp only [decide_eq_true_eq] at hprograma
  have horden : comandoFfmpeg .minima programa none = _ :=
    comandoFfmpeg_eq (construible_copia hprograma.2)
  exact ⟨programa, resumen, _, hp, horden, (mapasNombran_iff hp horden).2 hprograma.1⟩

/-- Without video the first output maps every stream of the input. -/
theorem mapasNombran_radio : ∃ programa resumen orden,
    obtenerStreamsPost .minima informeSinVideo default = some (programa, resumen) ∧
      comandoFfmpeg .minima programa none = some orden ∧ ¬ MapasNombran programa orden := by
  have h : (obtenerStreamsPost .minima informeSinVideo default).any (fun p =>
      p.1.video.id = "" ∧ p.1.subtitulos = []) = true := by decide +kernel
  obtain ⟨⟨programa, resumen⟩, hp, hprograma⟩ := (Option.any_eq_true _ _).1 h
  simp only [decide_eq_true_eq] at hprograma
  obtain ⟨id, hP⟩ := conserva_deSonda.obtenerStreamsPost hp
  exact ⟨programa, resumen, _, hp, comandoFfmpeg_eq (construible_copia hprograma.2),
    not_mapasNombran hP hprograma.1⟩

end HlsXcoder
