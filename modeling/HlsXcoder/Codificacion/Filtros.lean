import HlsXcoder.Codificacion.Claves
import HlsXcoder.Codificacion.Origenes
import HlsXcoder.Lib.FilterGraph

/-!
# The filter graphs of burned subtitles

A subtitle is burned into a video by a filter graph. In software each
output has one of its own, which overlays the subtitle. With the GPU one
graph feeds all the outputs of a bitrate: the video is split once for
each subtitle, the subtitle is scaled to it, and the two are overlaid.

The texts the builder splices together spell these graphs, and ffmpeg
reads them back (`read_filtroDVBSubs`, `read_filtroOverlay`).
-/

namespace HlsXcoder

open FilterGraph

/-- The two chains of a burned subtitle: it is scaled, and overlaid. -/
def cadenasSubtitulo (elem : Stream) (index : ℕ) : List Chain :=
  let n := itoa index
  [[⟨[getMapId elem, "base" ++ n], "scale2ref=ih*mdar:ih", ["subtitle" ++ n, "ref" ++ n]⟩],
    [⟨["ref" ++ n, "subtitle" ++ n], "overlay=(W-w)/2:(H-h)/2", []⟩,
      ⟨[], "hwupload_cuda", ["sub" ++ n]⟩]]

/-- The chain of the video, split once for each subtitle. -/
def cadenaVideo (programa : Programa) : Chain :=
  [⟨[getMapId programa.video], "hwdownload", []⟩, ⟨[], "format=nv12", []⟩,
    ⟨[], "split=" ++ itoa programa.subtitulos.length,
      (List.range programa.subtitulos.length).map fun index : ℕ => "base" ++ itoa index⟩]

/-- The graph that feeds every burned subtitle. -/
def grafoDVBSubs (programa : Programa) : Graph :=
  cadenaVideo programa :: programa.subtitulos.zipIdx.flatMap fun x => cadenasSubtitulo x.1 x.2

/-- The text of the graph of one burned subtitle in software. -/
def filtroOverlay (programa : Programa) (elem : Stream) : String :=
  "[" ++ getMapId programa.video ++ "][" ++ getMapId elem ++ "]overlay[v]"

/-- That graph. -/
def grafoOverlay (programa : Programa) (elem : Stream) : Graph :=
  [[⟨[getMapId programa.video, getMapId elem], "overlay", ["v"]⟩]]

/-! ## Their texts -/

theorem text_grafoOverlay (programa : Programa) (elem : Stream) :
    (grafoOverlay programa elem).text = filtroOverlay programa elem := by
  rw [← String.toList_inj]
  simp [Graph.text, grafoOverlay, filtroOverlay, chainChars, Filter.chars, labels]

theorem chars_overlayDVBSubs (n : ℕ) (elem : Stream) (index : ℕ) :
    (overlayDVBSubs n elem index).toList =
      [';'].intercalate ((cadenasSubtitulo elem index).map chainChars) ++
        if index + 1 < n then [';'] else [] := by
  have hsep : (if index + 1 < n then ";" else "").toList = if index + 1 < n then [';'] else [] := by
    split <;> rfl
  unfold overlayDVBSubs cadenasSubtitulo
  simp only [chainChars, Filter.chars, labels, List.map_cons, List.map_nil,
    List.intercalate_cons_cons, List.intercalate_singleton, List.flatMap_cons, List.flatMap_nil,
    String.toList_append, hsep]
  generalize (itoa index).toList = t
  generalize (getMapId elem).toList = e
  simp only [String.reduceToList, List.cons_append, List.nil_append, List.append_nil,
    List.append_assoc]

/-- The chains of the subtitles, with a separator between two but none
after the last. -/
theorem chars_overlays (elems : List Stream) (index : ℕ) (hne : elems ≠ []) :
    (String.join ((elems.zipIdx index).map fun x =>
        overlayDVBSubs (index + elems.length) x.1 x.2)).toList =
      [';'].intercalate (((elems.zipIdx index).flatMap fun x =>
        cadenasSubtitulo x.1 x.2).map chainChars) := by
  induction elems generalizing index with
  | nil => exact absurd rfl hne
  | cons elem elems ih =>
    rw [List.zipIdx_cons, List.map_cons, String.join_cons, String.toList_append,
      chars_overlayDVBSubs, List.flatMap_cons]
    cases elems with
    | nil => simp
    | cons elem' elems =>
      have hih := ih (index + 1) (List.cons_ne_nil _ _)
      have hlen : index + (elem :: elem' :: elems).length = index + 1 + (elem' :: elems).length := by
        simp only [List.length_cons]
        omega
      have hlt : index + 1 < index + 1 + (elem' :: elems).length := by simp
      have hrest : (((elem' :: elems).zipIdx (index + 1)).flatMap fun x =>
          cadenasSubtitulo x.1 x.2).map chainChars ≠ [] := by
        simp [List.zipIdx_cons, cadenasSubtitulo]
      rw [hlen, hih, if_pos hlt, List.map_append, cadenasSubtitulo]
      simp only [List.map_cons, List.map_nil, List.cons_append, List.nil_append,
        List.intercalate_cons_cons, List.intercalate_singleton,
        List.intercalate_cons_of_ne_nil hrest, List.append_assoc]

/-- **The text the builder splices together is that of the graph.** -/
theorem text_grafoDVBSubs {programa : Programa} (hs : programa.subtitulos ≠ []) :
    (grafoDVBSubs programa).text = filtroDVBSubs programa := by
  have hover := chars_overlays programa.subtitulos 0 hs
  rw [Nat.zero_add] at hover
  have hrest : (programa.subtitulos.zipIdx.flatMap fun x =>
      cadenasSubtitulo x.1 x.2).map chainChars ≠ [] := by
    obtain ⟨elem, elems, helems⟩ := List.exists_cons_of_ne_nil hs
    simp [helems, List.zipIdx_cons, cadenasSubtitulo]
  rw [← String.toList_inj, Graph.text, String.toList_ofList, grafoDVBSubs, List.map_cons,
    List.intercalate_cons_of_ne_nil hrest, ← hover, filtroDVBSubs]
  simp only [cadenaVideo, chainChars, List.map_cons, List.map_nil, List.intercalate_cons_cons,
    List.intercalate_singleton, Filter.chars, labels, String.toList_append, String.toList_join]
  simp [List.flatMap_map, List.flatMap_assoc]

/-! ## They are read back -/

theorem plain_itoa (n : ℕ) : Plain (itoa n) := by
  intro c hc
  have hdigit : c.isDigit = true := by
    rw [show itoa n = Nat.repr n from rfl, Nat.repr, String.toList_ofList] at hc
    exact Nat.isDigit_of_mem_toDigits (by decide) (by decide) hc
  rintro hcut
  simp only [cuts, List.mem_cons, List.not_mem_nil, or_false] at hcut
  obtain rfl | rfl | rfl | rfl := hcut <;> revert hdigit <;> decide

/-- The specifier of a stream of the probe cuts no text. -/
theorem plain_getMapId {s : Stream} (h : s = default ∨ s.Captado) : Plain (getMapId s) := by
  have halnum {t : String} (ht : ∀ c ∈ t.toList, c.isAlphanum = true) : Plain t := by
    intro c hc hcut
    have hc' := ht c hc
    simp only [cuts, List.mem_cons, List.not_mem_nil, or_false] at hcut
    obtain rfl | rfl | rfl | rfl := hcut <;> revert hc' <;> decide
  obtain rfl | h := h
  · decide
  · unfold getMapId
    split
    · exact Plain.append (by decide)
        (halnum fun c hc => by simp [Char.isAlphanum, h.id_digits c hc])
    · split
      · decide
      · exact Plain.append (by decide) (halnum h.hexaId_chars)

section Lectura

variable {programa : Programa}

theorem captado_of_mem (hP : programa.DeSonda) {elem : Stream} (h : elem ∈ programa.subtitulos) :
    elem.Captado :=
  hP.streams elem (List.mem_append_right _ h)

theorem legal_grafoOverlay (hP : programa.DeSonda) {elem : Stream}
    (h : elem ∈ programa.subtitulos) : (grafoOverlay programa elem).Legal := by
  have hvideo := plain_getMapId hP.video
  have helem := plain_getMapId (.inr (captado_of_mem hP h))
  refine ⟨by simp [grafoOverlay], by simp [grafoOverlay], ?_⟩
  simp only [grafoOverlay, List.mem_singleton, forall_eq]
  refine ⟨by simp [hvideo, helem], ?_, by simp, ?_⟩
  · exact (by decide : Plain "overlay")
  · exact fun l hl => by rw [List.mem_singleton.1 hl]; decide

theorem legal_cadenaVideo (hP : programa.DeSonda) : ∀ f ∈ cadenaVideo programa, f.Legal := by
  have hvideo := plain_getMapId hP.video
  simp only [cadenaVideo, List.mem_cons, List.not_mem_nil, or_false, forall_eq_or_imp, forall_eq]
  refine ⟨⟨by simpa using hvideo, (by decide : Plain "hwdownload"), by simp, by simp⟩,
    ⟨by simp, (by decide : Plain "format=nv12"), by simp, by simp⟩, ⟨by simp, ?_, by simp, ?_⟩⟩
  · exact Plain.append (by decide) (plain_itoa _)
  · intro l hl
    obtain ⟨i, -, rfl⟩ := List.mem_map.1 hl
    exact Plain.append (by decide) (plain_itoa _)

theorem legal_cadenasSubtitulo {elem : Stream} (helem : Plain (getMapId elem)) (index : ℕ) :
    ∀ c ∈ cadenasSubtitulo elem index, c ≠ [] ∧ ∀ f ∈ c, f.Legal := by
  have hlabel {s : String} (hs : Plain s) : Plain (s ++ itoa index) := hs.append (plain_itoa index)
  simp only [cadenasSubtitulo, List.mem_cons, List.not_mem_nil, or_false, forall_eq_or_imp,
    forall_eq]
  refine ⟨⟨by simp, ⟨?_, (by decide : Plain "scale2ref=ih*mdar:ih"), by simp, ?_⟩⟩, by simp,
    ⟨?_, (by decide : Plain "overlay=(W-w)/2:(H-h)/2"), by simp, by simp⟩,
    ⟨by simp, (by decide : Plain "hwupload_cuda"), by simp, ?_⟩⟩
  · simp [helem, hlabel (s := "base") (by decide)]
  · simp [hlabel (s := "subtitle") (by decide), hlabel (s := "ref") (by decide)]
  · simp [hlabel (s := "subtitle") (by decide), hlabel (s := "ref") (by decide)]
  · simp [hlabel (s := "sub") (by decide)]

theorem mem_grafoDVBSubs {c : Chain} : c ∈ grafoDVBSubs programa ↔ c = cadenaVideo programa ∨
    ∃ elem index, programa.subtitulos[index]? = some elem ∧ c ∈ cadenasSubtitulo elem index := by
  simp only [grafoDVBSubs, List.mem_cons, List.mem_flatMap, Prod.exists,
    List.mem_zipIdx_iff_getElem?]

theorem legal_grafoDVBSubs (hP : programa.DeSonda) : (grafoDVBSubs programa).Legal := by
  have hsub {c : Chain} (hc : ∃ elem index, programa.subtitulos[index]? = some elem ∧
      c ∈ cadenasSubtitulo elem index) : c ≠ [] ∧ ∀ f ∈ c, f.Legal := by
    obtain ⟨elem, index, helem, hc⟩ := hc
    have hcaptado := captado_of_mem hP (List.mem_of_getElem? helem)
    exact legal_cadenasSubtitulo (plain_getMapId (.inr hcaptado)) index c hc
  refine ⟨by simp [grafoDVBSubs], fun c hc => ?_, fun c hc => ?_⟩
  · obtain rfl | hc := mem_grafoDVBSubs.1 hc
    · simp [cadenaVideo]
    · exact (hsub hc).1
  · obtain rfl | hc := mem_grafoDVBSubs.1 hc
    · exact legal_cadenaVideo hP
    · exact (hsub hc).2

/-- **ffmpeg reads the graph of the GPU.** -/
theorem read_filtroDVBSubs (hP : programa.DeSonda) (hs : programa.subtitulos ≠ []) :
    Graph.read (filtroDVBSubs programa) = some (grafoDVBSubs programa) := by
  rw [← text_grafoDVBSubs hs, Graph.read_text (legal_grafoDVBSubs hP)]

/-- **ffmpeg reads the graph of an overlay.** -/
theorem read_filtroOverlay (hP : programa.DeSonda) {elem : Stream}
    (h : elem ∈ programa.subtitulos) :
    Graph.read (filtroOverlay programa elem) = some (grafoOverlay programa elem) := by
  rw [← text_grafoOverlay, Graph.read_text (legal_grafoOverlay hP h)]

end Lectura

/-! ## Which outputs have them -/

/-- Only a burned subtitle has a filter graph: its own in software, that
of all of them with the GPU. -/
theorem filtro_mem_propias {configuration : Config} {programa : Programa}
    {encoding : Option Codificacion} {o : Origen} {s : String}
    (h : (⟨"-filter_complex", some s⟩ : Opcion) ∈ o.propias configuration programa encoding) :
    ∃ b elem index, o = .quemado b elem index ∧
      (configuration.hwaccel = true ∧ s = filtroDVBSubs programa ∨
        configuration.hwaccel = false ∧ s = filtroOverlay programa elem) := by
  cases o with
  | video | defecto | audio | teletexto => simp [Origen.propias] at h
  | quemado b elem index =>
    refine ⟨b, elem, index, rfl, ?_⟩
    simp only [Origen.propias] at h
    split at h
    · rename_i hw
      refine .inl ⟨hw, ?_⟩
      simp only [List.mem_append] at h
      obtain (h | h) | h := h
      · split at h
        · simpa using h
        · cases h
      · split at h <;> simp at h
      · simp at h
    · rename_i hw
      exact .inr ⟨Bool.eq_false_iff.2 hw, by simpa [filtroOverlay] using h⟩

end HlsXcoder
