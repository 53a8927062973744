import HlsXcoder.Codificacion.Filtros

/-!
# Subtitles of mixed formats

A subtitle in teletext is text, and belongs in an output of its own and
in the playlist as a rendition; one in DVB is a picture, and belongs in
the video. The command and the playlist both look at the format of the
first subtitle and treat all of them alike. So each is handled according
to its own format exactly where all have the same.
-/

namespace HlsXcoder

open OptionGroups FilterGraph

/-- The names a playlist announces as subtitles. -/
def subtitulosAnunciados (lineas : List LineaM3U8) : List String :=
  (lineas.filter fun l => l.esMedia && "SUBTITLES" ∈ l.valores "TYPE").flatMap
    fun l => l.valores "NAME"

/-- **Each subtitle is handled according to its own format**: webvtt
outputs take teletext, overlays take DVB, and the playlist announces
those in teletext, one by one. -/
structure SubtitulosPorFormato (programa : Programa) (orden : Command String)
    (lineas : List LineaM3U8) : Prop where
  webvtt : ∀ x ∈ orden.outputs, ⟨"-scodec", some "webvtt"⟩ ∈ x.opts →
    ∃ s ∈ programa.subtitulos, s.format = "dvb_teletext" ∧ ⟨"-map", some (getMapId s)⟩ ∈ x.opts
  overlay : ∀ x ∈ orden.outputs, ∀ t, ⟨"-filter_complex", some t⟩ ∈ x.opts →
    ∃ g, Graph.read t = some g ∧ ∀ c ∈ g, ∀ f ∈ c, f.name = "overlay" →
      ∃ s ∈ programa.subtitulos, s.format = "dvb_subtitle" ∧ g.Takes (getMapId s) f
  anunciados : subtitulosAnunciados lineas =
    (programa.subtitulos.filter fun s => s.format = "dvb_teletext").map Stream.language

variable {configuration : Config} {programa : Programa} {encoding : Option Codificacion}

/-! ## The playlist -/

/-- The playlist announces all of the subtitles or none. -/
theorem subtitulosAnunciados_eq (bitrates : List String) :
    subtitulosAnunciados (generarArchivoM3U8 programa bitrates) =
      if teletextSubtitle programa then programa.subtitulos.map Stream.language else [] := by
  have hlinea (tipo grupo fichero : String) (es : List Stream) :
      ((es.map (lineaSubtitulo tipo grupo fichero)).filter fun l =>
        l.esMedia && "SUBTITLES" ∈ l.valores "TYPE").flatMap (fun l => l.valores "NAME") =
      if tipo = "SUBTITLES" then es.map Stream.language else [] := by
    have htipo (e : Stream) : (lineaSubtitulo tipo grupo fichero e).valores "TYPE" = [tipo] := by
      simp [lineaSubtitulo, LineaM3U8.valores, LineaM3U8.atributos]
    have hnombre (e : Stream) : (lineaSubtitulo tipo grupo fichero e).valores "NAME" =
        [e.language] := by
      simp [lineaSubtitulo, LineaM3U8.valores, LineaM3U8.atributos]
    rw [List.filter_map, List.flatMap_map]
    by_cases h : tipo = "SUBTITLES"
    · have hall : es.filter ((fun l => l.esMedia && "SUBTITLES" ∈ l.valores "TYPE") ∘
          lineaSubtitulo tipo grupo fichero) = es := by
        refine List.filter_eq_self.2 fun e _ => ?_
        rw [Function.comp, htipo, h]
        rfl
      rw [hall, if_pos h, List.map_eq_flatMap]
      exact List.flatMap_congr fun e _ => hnombre e
    · have hnone : es.filter ((fun l => l.esMedia && "SUBTITLES" ∈ l.valores "TYPE") ∘
          lineaSubtitulo tipo grupo fichero) = [] := by
        refine List.filter_eq_nil_iff.2 fun e _ => ?_
        simp [htipo, Ne.symm h]
      rw [hnone, if_neg h]
      rfl
  have haudio : ((programa.audio.map lineaAudio).filter fun l =>
      l.esMedia && "SUBTITLES" ∈ l.valores "TYPE") = [] := by
    refine List.filter_eq_nil_iff.2 fun l hl => ?_
    obtain ⟨e, -, rfl⟩ := List.mem_map.1 hl
    simp [lineaAudio, LineaM3U8.valores, LineaM3U8.atributos]
  rw [subtitulosAnunciados, filter_generarArchivoM3U8 fun l hl => (Bool.and_eq_true _ _ ▸ hl).1, mediasM3U8, List.filter_append,
    haudio, List.nil_append]
  split
  · exact hlinea "SUBTITLES" _ _ _
  · exact hlinea "VIDEO" _ _ _

/-- Nothing is announced, or nothing burned, of the wrong format only
where all have the same. -/
theorem formatos_of_anunciados
    (hformatos : ∀ s ∈ programa.subtitulos, s.format = "dvb_teletext" ∨ s.format = "dvb_subtitle")
    {bitrates : List String}
    (h : subtitulosAnunciados (generarArchivoM3U8 programa bitrates) =
      (programa.subtitulos.filter fun s => s.format = "dvb_teletext").map Stream.language) :
    ∀ s ∈ programa.subtitulos, ∀ t ∈ programa.subtitulos, s.format = t.format := by
  have hlen := congrArg List.length h
  rw [subtitulosAnunciados_eq, List.length_map] at hlen
  split at hlen
  · -- as many in teletext as there are
    rw [List.length_map] at hlen
    have hall : ∀ s ∈ programa.subtitulos, s.format = "dvb_teletext" := by
      simpa using List.length_filter_eq_length_iff.1 hlen.symm
    intro s hs t ht
    rw [hall s hs, hall t ht]
  · have hnone : ∀ s ∈ programa.subtitulos, s.format ≠ "dvb_teletext" := by
      have hnil := List.eq_nil_of_length_eq_zero hlen.symm
      simpa using List.filter_eq_nil_iff.1 hnil
    intro s hs t ht
    rw [(hformatos s hs).resolve_left (hnone s hs), (hformatos t ht).resolve_left (hnone t ht)]

/-! ## The overlays -/

/-- **Each overlay takes the subtitle of its chain.** -/
theorem takes_overlay {c : Chain} (hc : c ∈ grafoDVBSubs programa) {f : Filter} (hf : f ∈ c)
    (hname : f.name = "overlay") :
    ∃ s ∈ programa.subtitulos, (grafoDVBSubs programa).Takes (getMapId s) f := by
  obtain rfl | ⟨elem, index, helem, hcad⟩ := mem_grafoDVBSubs.1 hc
  · -- the chain of the video has no overlay
    simp only [cadenaVideo, List.mem_cons, List.not_mem_nil, or_false] at hf
    obtain rfl | rfl | rfl := hf <;> simp [Filter.name] at hname
  · refine ⟨elem, List.mem_of_getElem? helem, "subtitle" ++ itoa index, ?_, ?_⟩
    · simp only [cadenasSubtitulo, List.mem_cons, List.not_mem_nil, or_false] at hcad
      obtain rfl | rfl := hcad
      · simp only [List.mem_singleton] at hf
        subst hf
        simp [Filter.name] at hname
      · simp only [List.mem_cons, List.not_mem_nil, or_false] at hf
        obtain rfl | rfl := hf
        · simp
        · simp [Filter.name] at hname
    · -- it is scaled by the chain before
      refine Relation.ReflTransGen.single ⟨_, mem_grafoDVBSubs.2
        (.inr ⟨elem, index, helem, List.mem_cons_self⟩), ?_, ?_⟩
      · simp [chainInputs]
      · simp [chainOutputs]

/-! ## When each is handled according to its format -/

section Formatos

variable (higuales : ∀ s ∈ programa.subtitulos, ∀ t ∈ programa.subtitulos, s.format = t.format)

include higuales

theorem format_of_teletexto (ht : teletextSubtitle programa = true) :
    ∀ s ∈ programa.subtitulos, s.format = "dvb_teletext" := by
  intro s hs
  obtain ⟨e, es, hes⟩ := List.exists_cons_of_ne_nil (List.ne_nil_of_mem hs)
  have he : e.format = "dvb_teletext" := by simpa [teletextSubtitle, hes] using ht
  rw [higuales s hs e (by simp [hes]), he]

theorem format_of_not_teletexto
    (hformatos : ∀ s ∈ programa.subtitulos, s.format = "dvb_teletext" ∨ s.format = "dvb_subtitle")
    (ht : teletextSubtitle programa = false) :
    ∀ s ∈ programa.subtitulos, s.format = "dvb_subtitle" := by
  intro s hs
  obtain ⟨e, es, hes⟩ := List.exists_cons_of_ne_nil (List.ne_nil_of_mem hs)
  have he : e.format ≠ "dvb_teletext" := by simpa [teletextSubtitle, hes] using ht
  have heq := higuales s hs e (by simp [hes])
  exact (hformatos s hs).resolve_left (heq ▸ he)

end Formatos

/-- **All in teletext, or all in DVB, and each is handled so.** -/
theorem subtitulosPorFormato_of (hP : programa.DeSonda)
    (hformatos : ∀ s ∈ programa.subtitulos, s.format = "dvb_teletext" ∨ s.format = "dvb_subtitle")
    (higuales : ∀ s ∈ programa.subtitulos, ∀ t ∈ programa.subtitulos, s.format = t.format) :
    SubtitulosPorFormato programa (comando configuration programa encoding)
      (generarArchivoM3U8 programa (bitratesDe encoding)) := by
  have hteletexto (ht : teletextSubtitle programa = true) :=
    format_of_teletexto higuales ht
  have hdvb (ht : teletextSubtitle programa = false) :=
    format_of_not_teletexto higuales hformatos ht
  refine ⟨fun x hx hscodec => ?_, fun x hx t hfiltro => ?_, ?_⟩
  -- only the outputs of teletext set a subtitle codec
  · obtain ⟨o, ho, hpone, hpropias⟩ := exists_propias hx
    have hmem := hpropias _ hscodec (by simp)
    cases o with
    | teletexto elem =>
      obtain ⟨ht, helem⟩ := teletexto_mem_origenes.1 ho
      exact ⟨elem, helem, hteletexto ht elem helem, hpone _ (by simp [Origen.propias])⟩
    | video | defecto | audio => simp [Origen.propias] at hmem
    | quemado b elem index =>
      simp only [Origen.propias] at hmem
      split at hmem
      · simp only [List.mem_append] at hmem
        obtain (hmem | hmem) | hmem := hmem
        · split at hmem <;> simp at hmem
        · split at hmem <;> simp at hmem
        · simp at hmem
      · simp at hmem
  -- only the outputs with a burned subtitle have a graph of their own
  · obtain ⟨o, ho, -, hpropias⟩ := exists_propias hx
    obtain ⟨b, elem, index, rfl, hs⟩ := filtro_mem_propias (hpropias _ hfiltro (by simp))
    obtain ⟨ht, helem, -⟩ := quemado_mem_origenes.1 ho
    have hmemElem : elem ∈ programa.subtitulos := List.mem_of_getElem? helem
    obtain ⟨-, rfl⟩ | ⟨-, rfl⟩ := hs
    · refine ⟨_, read_filtroDVBSubs hP (List.ne_nil_of_mem hmemElem), fun c hc f hf hname => ?_⟩
      obtain ⟨s, hs, htakes⟩ := takes_overlay hc hf hname
      exact ⟨s, hs, hdvb ht s hs, htakes⟩
    · refine ⟨_, read_filtroOverlay hP hmemElem, fun c hc f hf _ => ?_⟩
      obtain rfl := List.mem_singleton.1 hc
      obtain rfl := List.mem_singleton.1 hf
      exact ⟨elem, hmemElem, hdvb ht elem hmemElem, getMapId elem, by simp, .refl⟩
  · rw [subtitulosAnunciados_eq]
    split
    · rename_i ht
      rw [List.filter_eq_self.2 fun s hs => by simpa using hteletexto ht s hs]
    · rename_i ht
      have hnone : (programa.subtitulos.filter fun s => s.format = "dvb_teletext") = [] :=
        List.filter_eq_nil_iff.2 fun s hs => by simp [hdvb (Bool.eq_false_iff.2 ht) s hs]
      rw [hnone]
      rfl

/-- **Each subtitle is handled according to its own format exactly when**
all have the same. -/
theorem subtitulosPorFormato_iff {configuration : Config} {programa : Programa}
    {encoding : Option Codificacion} {orden : Command String} (hP : programa.DeSonda)
    (hformatos : ∀ s ∈ programa.subtitulos, s.format = "dvb_teletext" ∨ s.format = "dvb_subtitle")
    (horden : comandoFfmpeg configuration programa encoding = some orden) :
    SubtitulosPorFormato programa orden (generarArchivoM3U8 programa (bitratesDe encoding)) ↔
      ∀ s ∈ programa.subtitulos, ∀ t ∈ programa.subtitulos, s.format = t.format := by
  obtain ⟨-, rfl⟩ := comandoFfmpeg_eq_some_iff.1 horden
  exact ⟨fun h => formatos_of_anunciados hformatos h.anunciados,
    subtitulosPorFormato_of hP hformatos⟩

/-- A subtitle of the probe, in a format and a language. -/
def subtituloDe (id hexaId format language : String) : Stream :=
  { (default : Stream) with id := id, hexaId := hexaId, format := format, language := language }

theorem captado_subtituloDe {id hexaId : String} (format language : String) (hid : id ≠ "")
    (hdigits : id.toList.all Char.isDigit = true)
    (hhex : hexaId.toList.all Char.isAlphanum = true) :
    (subtituloDe id hexaId format language).Captado :=
  ⟨hid, List.all_eq_true.1 hdigits, List.all_eq_true.1 hhex⟩

/-- Two subtitles in DVB. -/
def programaDosDvb : Programa := { (default : Programa) with subtitulos :=
  [subtituloDe "2" "0x102" "dvb_subtitle" "spa", subtituloDe "3" "0x103" "dvb_subtitle" "eng"] }

/-- One in DVB, and one in teletext after it. -/
def programaMezcla : Programa := { (default : Programa) with subtitulos :=
  [subtituloDe "2" "0x102" "dvb_subtitle" "spa", subtituloDe "3" "0x103" "dvb_teletext" "eng"] }

theorem subtitulosPorFormato_dvb : ∃ orden,
    comandoFfmpeg .minima programaDosDvb none = some orden ∧
      SubtitulosPorFormato programaDosDvb orden (generarArchivoM3U8 programaDosDvb []) := by
  have horden : comandoFfmpeg .minima programaDosDvb none = _ :=
    comandoFfmpeg_eq ⟨by decide, by decide⟩
  refine ⟨_, horden, (subtitulosPorFormato_iff ⟨.inl rfl, fun s hs => ?_⟩ (by decide) horden).2
    (by decide)⟩
  obtain hs | hs := List.mem_append.1 hs
  · cases hs
  · simp only [programaDosDvb, List.mem_cons, List.not_mem_nil, or_false] at hs
    obtain rfl | rfl := hs
    all_goals exact captado_subtituloDe _ _ (by decide) (by decide) (by decide)

/-- DVB first, and the teletext after it is announced nowhere. -/
theorem subtitulosPorFormato_mezcla : ∃ orden,
    comandoFfmpeg .minima programaMezcla none = some orden ∧
      ¬ SubtitulosPorFormato programaMezcla orden (generarArchivoM3U8 programaMezcla []) := by
  refine ⟨_, comandoFfmpeg_eq ⟨by decide, by decide⟩, fun h => ?_⟩
  have higuales := formatos_of_anunciados (by decide) h.anunciados
  revert higuales
  decide

end HlsXcoder
