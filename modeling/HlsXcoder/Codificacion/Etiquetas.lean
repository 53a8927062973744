import HlsXcoder.Codificacion.Filtros

/-!
# The labels of burned subtitles

The loop over the subtitles grows the split of the video, the overlays
and the maps side by side, and ties them with labels numbered by the
position of the subtitle. The labels of the graph are those of four
names, each numbered over the subtitles (`chainOutputs_grafoDVBSubs`),
and every map takes the label its own subtitle left open.
-/

namespace HlsXcoder

open FilterGraph OptionGroups

/-! ## Numbered labels -/

/-- The labels of some names, numbered in turn. -/
def etiquetas (nombres : List String) (n : ℕ) : List String :=
  (List.range n).flatMap fun index : ℕ => nombres.map (· ++ itoa index)

theorem mem_etiquetas {nombres : List String} {n : ℕ} {l : String} : l ∈ etiquetas nombres n ↔
    ∃ nombre ∈ nombres, ∃ index < n, l = nombre ++ itoa index := by
  simp only [etiquetas, List.mem_flatMap, List.mem_range, List.mem_map]
  constructor
  · rintro ⟨index, hindex, nombre, hnombre, rfl⟩
    exact ⟨nombre, hnombre, index, hindex, rfl⟩
  · rintro ⟨nombre, hnombre, index, hindex, rfl⟩
    exact ⟨index, hindex, nombre, hnombre, rfl⟩

theorem etiquetas_singleton (nombre : String) (n : ℕ) :
    etiquetas [nombre] n = (List.range n).map fun index : ℕ => nombre ++ itoa index := by
  rw [etiquetas, List.map_eq_flatMap]
  rfl

/-- The names a numbered label can be told apart by. -/
def nombres : List String := ["base", "subtitle", "ref", "sub"]

theorem itoa_toList (n : ℕ) : (itoa n).toList = Text.pad 0 n := by
  rw [show itoa n = Nat.repr n from rfl, Nat.repr, String.toList_ofList]
  simp [Text.pad]

theorem fenced_nombres {nombre : String} (h : nombre ∈ nombres) :
    Text.Fenced (fun c : Char => c.isDigit = true) nombre.toList.reverse := by
  simp only [nombres, List.mem_cons, List.not_mem_nil, or_false] at h
  obtain rfl | rfl | rfl | rfl := h <;> exact Text.fenced_cons.2 (by decide)

/-- **A label has one name and one number.** -/
theorem etiqueta_inj {nombre nombre' : String} (h : nombre ∈ nombres) (h' : nombre' ∈ nombres)
    {index index' : ℕ} (heq : nombre ++ itoa index = nombre' ++ itoa index') :
    nombre = nombre' ∧ index = index' := by
  have hchars := congrArg String.toList heq
  rw [String.toList_append, String.toList_append, itoa_toList, itoa_toList] at hchars
  obtain ⟨hnombre, hindex⟩ := Text.append_pad_inj (fenced_nombres h) (fenced_nombres h') hchars
  exact ⟨String.toList_inj.1 hnombre, hindex⟩

theorem nodup_etiquetas {ns : List String} (hns : ns ⊆ nombres) (hnd : ns.Nodup) (n : ℕ) :
    (etiquetas ns n).Nodup := by
  refine List.nodup_flatMap.2 ⟨fun index _ => ?_, ?_⟩
  · exact hnd.map_on fun a ha b hb hab => (etiqueta_inj (hns ha) (hns hb) hab).1
  · refine List.Pairwise.imp (fun {i j} hij => ?_) List.nodup_range
    refine List.disjoint_left.2 fun l hi hj => ?_
    obtain ⟨a, ha, rfl⟩ := List.mem_map.1 hi
    obtain ⟨b, hb, hab⟩ := List.mem_map.1 hj
    exact hij (etiqueta_inj (hns hb) (hns ha) hab).2.symm

/-! ## The graph of the GPU -/

section Grafo

variable {programa : Programa}

/-- What the graphs may take of the input: the video and the subtitles. -/
def fuentes (programa : Programa) : List String :=
  getMapId programa.video :: programa.subtitulos.map getMapId

theorem exists_of_mem_fuentes {l : String} (h : l ∈ fuentes programa) : ∃ s, l = getMapId s := by
  obtain rfl | h := List.mem_cons.1 h
  · exact ⟨_, rfl⟩
  · obtain ⟨s, -, rfl⟩ := List.mem_map.1 h
    exact ⟨s, rfl⟩

/-- A numbered label names no stream of the input. -/
theorem etiqueta_not_mem_fuentes {nombre : String} (h : nombre ∈ nombres) (index : ℕ) :
    nombre ++ itoa index ∉ fuentes programa := by
  intro hmem
  obtain ⟨s, hs⟩ := exists_of_mem_fuentes hmem
  have hchars := congrArg String.toList hs
  simp only [nombres, List.mem_cons, List.not_mem_nil, or_false] at h
  obtain ⟨t, ht | ht⟩ := getMapId_toList s <;> obtain rfl | rfl | rfl | rfl := h <;>
    simp [ht] at hchars

/-- A loop over the subtitles that looks at their positions alone. -/
theorem flatMap_zipIdx_snd {α β : Type} (xs : List α) (f : ℕ → List β) :
    (xs.zipIdx.flatMap fun x => f x.2) = (List.range xs.length).flatMap f := by
  rw [List.range_eq_range', ← List.zipIdx_map_snd, List.flatMap_map]

theorem chainOutputs_grafoDVBSubs : (grafoDVBSubs programa).flatMap chainOutputs =
    etiquetas ["base"] programa.subtitulos.length ++
      etiquetas ["subtitle", "ref", "sub"] programa.subtitulos.length := by
  have hvideo : chainOutputs (cadenaVideo programa) =
      etiquetas ["base"] programa.subtitulos.length := by
    simp [chainOutputs, cadenaVideo, etiquetas_singleton]
  have hsub (x : Stream × ℕ) : (cadenasSubtitulo x.1 x.2).flatMap chainOutputs =
      ["subtitle", "ref", "sub"].map (· ++ itoa x.2) := by
    simp [cadenasSubtitulo, chainOutputs]
  rw [grafoDVBSubs, List.flatMap_cons, hvideo, List.flatMap_assoc]
  simp only [hsub]
  rw [flatMap_zipIdx_snd _ fun index : ℕ => ["subtitle", "ref", "sub"].map (· ++ itoa index)]
  rfl

theorem chainInputs_grafoDVBSubs : (grafoDVBSubs programa).flatMap chainInputs =
    getMapId programa.video :: programa.subtitulos.zipIdx.flatMap fun x =>
      getMapId x.1 :: ["base", "ref", "subtitle"].map (· ++ itoa x.2) := by
  have hvideo : chainInputs (cadenaVideo programa) = [getMapId programa.video] := by
    simp [chainInputs, cadenaVideo]
  have hsub (x : Stream × ℕ) : (cadenasSubtitulo x.1 x.2).flatMap chainInputs =
      getMapId x.1 :: ["base", "ref", "subtitle"].map (· ++ itoa x.2) := by
    simp [cadenasSubtitulo, chainInputs]
  rw [grafoDVBSubs, List.flatMap_cons, hvideo, List.flatMap_assoc]
  simp only [hsub]
  rfl

/-- Apart from the streams of the input, a chain takes numbered labels. -/
theorem filter_chainInputs_grafoDVBSubs :
    ((grafoDVBSubs programa).flatMap chainInputs).filter (fun l => l ∉ fuentes programa) =
      etiquetas ["base", "ref", "subtitle"] programa.subtitulos.length := by
  have hvideo : getMapId programa.video ∈ fuentes programa := List.mem_cons_self
  have hsub {x : Stream × ℕ} (hx : x ∈ programa.subtitulos.zipIdx) :
      (getMapId x.1 :: ["base", "ref", "subtitle"].map (· ++ itoa x.2)).filter
          (fun l => l ∉ fuentes programa) =
        ["base", "ref", "subtitle"].map (· ++ itoa x.2) := by
    have hfuente : getMapId x.1 ∈ fuentes programa :=
      List.mem_cons_of_mem _ (List.mem_map_of_mem
        (List.mem_of_getElem? (List.mem_zipIdx_iff_getElem?.1 hx)))
    rw [List.filter_cons_of_neg (by simpa using hfuente), List.filter_eq_self]
    intro l hl
    obtain ⟨nombre, hnombre, rfl⟩ := List.mem_map.1 hl
    have hmem : nombre ∈ nombres := by
      simp only [List.mem_cons, List.not_mem_nil, or_false] at hnombre
      obtain rfl | rfl | rfl := hnombre <;> decide
    simpa using etiqueta_not_mem_fuentes hmem x.2
  rw [chainInputs_grafoDVBSubs, List.filter_cons_of_neg (by simpa using hvideo),
    List.filter_flatMap, List.flatMap_congr fun x hx => hsub hx,
    flatMap_zipIdx_snd _ fun index : ℕ => ["base", "ref", "subtitle"].map (· ++ itoa index)]
  rfl

/-- What a chain takes is a stream of the input or a numbered label. -/
theorem mem_chainInputs_grafoDVBSubs {l : String} (hl : l ∉ fuentes programa) :
    l ∈ (grafoDVBSubs programa).flatMap chainInputs ↔
      l ∈ etiquetas ["base", "ref", "subtitle"] programa.subtitulos.length := by
  rw [← filter_chainInputs_grafoDVBSubs, List.mem_filter, decide_eq_true_eq]
  exact ⟨fun h => ⟨h, hl⟩, And.left⟩

theorem not_mem_fuentes_of_given {l : String}
    (hl : l ∈ (grafoDVBSubs programa).flatMap chainOutputs) : l ∉ fuentes programa := by
  rw [chainOutputs_grafoDVBSubs, List.mem_append, mem_etiquetas, mem_etiquetas] at hl
  obtain ⟨nombre, hnombre, index, -, rfl⟩ | ⟨nombre, hnombre, index, -, rfl⟩ := hl
  all_goals
    refine etiqueta_not_mem_fuentes ?_ index
    simp only [List.mem_cons, List.not_mem_nil, or_false] at hnombre
  · exact hnombre ▸ by decide
  · obtain rfl | rfl | rfl := hnombre <;> decide

/-- **The links of the graph of the GPU are tied.** -/
theorem wellFormed_grafoDVBSubs (hlegal : (grafoDVBSubs programa).Legal) :
    (grafoDVBSubs programa).WellFormed (fuentes programa) := by
  refine hlegal.wellFormed ?_ (fun l => not_mem_fuentes_of_given) ?_ fun l hl hfuente => ?_
  · rw [chainOutputs_grafoDVBSubs]
    refine (nodup_etiquetas (by decide) (by decide) _).append
      (nodup_etiquetas (by decide) (by decide) _) (List.disjoint_left.2 fun l hbase hsub => ?_)
    obtain ⟨nombre, hnombre, index, -, rfl⟩ := mem_etiquetas.1 hbase
    obtain ⟨nombre', hnombre', index', -, heq⟩ := mem_etiquetas.1 hsub
    have hmem : nombre' ∈ nombres := by
      simp only [List.mem_cons, List.not_mem_nil, or_false] at hnombre'
      obtain rfl | rfl | rfl := hnombre' <;> decide
    rw [List.mem_singleton.1 hnombre] at heq
    rw [← (etiqueta_inj (by decide) hmem heq).1] at hnombre'
    revert hnombre'
    decide
  · rw [filter_chainInputs_grafoDVBSubs]
    exact nodup_etiquetas (by decide) (by decide) _
  · obtain ⟨nombre, hnombre, index, hindex, rfl⟩ :=
      mem_etiquetas.1 ((mem_chainInputs_grafoDVBSubs hfuente).1 hl)
    rw [chainOutputs_grafoDVBSubs, List.mem_append, mem_etiquetas, mem_etiquetas]
    simp only [List.mem_cons, List.not_mem_nil, or_false] at hnombre
    obtain rfl | rfl | rfl := hnombre
    · exact .inl ⟨_, List.mem_cons_self, index, hindex, rfl⟩
    · exact .inr ⟨"ref", by decide, index, hindex, rfl⟩
    · exact .inr ⟨"subtitle", by decide, index, hindex, rfl⟩

/-- **One label is left open for each subtitle**, the one of its burned
video. -/
theorem openOutputs_grafoDVBSubs :
    (grafoDVBSubs programa).openOutputs = etiquetas ["sub"] programa.subtitulos.length := by
  have htaken (nombre : String) (hnombre : nombre ∈ nombres) (index : ℕ) :
      nombre ++ itoa index ∈ (grafoDVBSubs programa).flatMap chainInputs ↔
        nombre ∈ ["base", "ref", "subtitle"] ∧ index < programa.subtitulos.length := by
    rw [mem_chainInputs_grafoDVBSubs (etiqueta_not_mem_fuentes hnombre index), mem_etiquetas]
    constructor
    · rintro ⟨nombre', hnombre', index', hindex', heq⟩
      have hmem : nombre' ∈ nombres := by
        simp only [List.mem_cons, List.not_mem_nil, or_false] at hnombre'
        obtain rfl | rfl | rfl := hnombre' <;> decide
      obtain ⟨rfl, rfl⟩ := etiqueta_inj hnombre hmem heq
      exact ⟨hnombre', hindex'⟩
    · rintro ⟨hnombre', hindex⟩
      exact ⟨nombre, hnombre', index, hindex, rfl⟩
  rw [Graph.openOutputs, chainOutputs_grafoDVBSubs, List.filter_append,
    List.filter_eq_nil_iff.2, List.nil_append, etiquetas, etiquetas, List.filter_flatMap]
  · refine List.flatMap_congr fun index hindex => ?_
    have hindex := List.mem_range.1 hindex
    simp only [List.map_cons, List.map_nil]
    rw [List.filter_cons_of_neg, List.filter_cons_of_neg, List.filter_cons_of_pos, List.filter_nil]
    · simp [htaken "sub" (by decide)]
    · simp [htaken "ref" (by decide), hindex]
    · simp [htaken "subtitle" (by decide), hindex]
  · intro l hl
    obtain ⟨nombre, hnombre, index, hindex, rfl⟩ := mem_etiquetas.1 hl
    rw [List.mem_singleton] at hnombre
    subst hnombre
    simp [htaken "base" (by decide), hindex]

end Grafo

/-! ## The split of the video -/

section Particion

variable {programa : Programa}

/-- The labels of the split video. -/
def bases (g : Graph) : List String :=
  (g.flatMap chainOutputs).filter fun l => "base".toList.isPrefixOf l.toList

/-- The filters that split a video. -/
def particiones (g : Graph) : List Filter := g.flatten.filter fun f => f.name = "split"

theorem bases_grafoDVBSubs :
    bases (grafoDVBSubs programa) = etiquetas ["base"] programa.subtitulos.length := by
  rw [bases, chainOutputs_grafoDVBSubs, List.filter_append, List.filter_eq_self.2,
    List.filter_eq_nil_iff.2, List.append_nil]
  · intro l hl
    obtain ⟨nombre, hnombre, index, -, rfl⟩ := mem_etiquetas.1 hl
    simp only [List.mem_cons, List.not_mem_nil, or_false] at hnombre
    obtain rfl | rfl | rfl := hnombre <;> simp
  · intro l hl
    obtain ⟨nombre, hnombre, index, -, rfl⟩ := mem_etiquetas.1 hl
    rw [List.mem_singleton.1 hnombre]
    simp

/-- The video is split once, into a label for each subtitle. -/
theorem particiones_grafoDVBSubs : particiones (grafoDVBSubs programa) =
    [⟨[], "split=" ++ itoa programa.subtitulos.length,
      etiquetas ["base"] programa.subtitulos.length⟩] := by
  have hsub {x : Stream × ℕ} : ((cadenasSubtitulo x.1 x.2).flatten.filter fun f =>
      f.name = "split") = [] := by
    simp [cadenasSubtitulo, Filter.name]
  rw [particiones, grafoDVBSubs, List.flatten_cons, List.filter_append, List.flatten_eq_flatMap,
    List.flatMap_assoc, List.filter_flatMap]
  simp only [← List.flatten_eq_flatMap, hsub]
  simp [cadenaVideo, Filter.name, etiquetas_singleton]

end Particion

/-! ## The outputs -/

/-- The label a text is, in brackets. -/
def etiquetaDe (s : String) : Option String :=
  match s.toList with
  | '[' :: l => if l.getLast? = some ']' then some (.ofList l.dropLast) else none
  | _ => none

/-- The labels an output maps. -/
def mapasEtiquetados (os : List Opcion) : List String :=
  os.filterMap fun o => if o.flag = "-map" then o.value.bind etiquetaDe else none

/-- The filter graphs given among some options. -/
def filtros (os : List Opcion) : List String :=
  os.filterMap fun o => if o.flag = "-filter_complex" then o.value else none

theorem etiquetaDe_corchetes (l : String) : etiquetaDe ("[" ++ l ++ "]") = some l := by
  have hchars : ("[" ++ l ++ "]").toList = '[' :: (l.toList ++ [']']) := by simp
  simp [etiquetaDe, hchars]

/-- Labels and graphs are read off the options an origin gives. -/
theorem filterMap_propias {β : Type} {f : Opcion → Option β} (os : List Opcion)
    (hf : ∀ o, esPropia o = false → f o = none) : (propias os).filterMap f = os.filterMap f := by
  rw [propias, List.filterMap_filter]
  refine List.filterMap_congr fun o _ => ?_
  by_cases ho : esPropia o = true
  · rw [if_pos ho]
  · rw [if_neg ho, hf o (Bool.eq_false_iff.2 ho)]

theorem mapasEtiquetados_propias (os : List Opcion) :
    mapasEtiquetados (propias os) = mapasEtiquetados os := by
  refine filterMap_propias os fun o ho => if_neg fun hflag => ?_
  rw [esPropia, hflag] at ho
  revert ho
  decide

theorem filtros_propias (os : List Opcion) : filtros (propias os) = filtros os := by
  refine filterMap_propias os fun o ho => if_neg fun hflag => ?_
  rw [esPropia, hflag] at ho
  revert ho
  decide

section Salidas

variable {configuration : Config} {programa : Programa} {path bitrate nombre : String}

/-- The output of a burned subtitle, without the graph of the GPU. -/
def salidaQuemada (configuration : Config) (programa : Programa) (path bitrate nombre : String)
    (x : Stream × ℕ) : Salida :=
  salidaDe (argumentosSubtitulo configuration programa path bitrate nombre
    ((bitrateCommand bitrate).getD []) x.1 x.2)

/-- The label it maps. -/
def etiquetaQuemada (configuration : Config) (index : ℕ) : String :=
  if configuration.hwaccel then "sub" ++ itoa index else "v"

theorem salidaQuemada_eq (x : Stream × ℕ) :
    salidaQuemada configuration programa path bitrate nombre x =
      ⟨ffmpeg.options (opcionesSubtitulo configuration programa bitrate nombre x.1 x.2 ++
          argumentosHLS configuration programa (path ++ "/subtitulos/" ++ x.1.language ++ "/" ++
            (if bitrate = "" then "" else bitrate ++ "-") ++ "subtitulo%01d") nombre),
        path ++ "/subtitulos/" ++ x.1.language ++ "/" ++
          (if bitrate = "" then "" else bitrate ++ "-") ++ "subtitulo" ++ ".m3u8"⟩ := by
  rw [salidaQuemada, argumentosSubtitulo]
  exact salidaDe_HLS (opcionesSubtitulo configuration programa bitrate nombre x.1 x.2) _ _ _

theorem propias_salidaQuemada (x : Stream × ℕ) :
    propias (salidaQuemada configuration programa path bitrate nombre x).opts =
      propias (ffmpeg.options
        (opcionesSubtitulo configuration programa bitrate nombre x.1 x.2)) := by
  rw [salidaQuemada_eq, options_append (legales_opcionesSubtitulo _ _ _ _), propias_append,
    propias_argumentosHLS, List.append_nil]

/-- **An output maps one label.** -/
theorem mapasEtiquetados_salidaQuemada (x : Stream × ℕ) :
    mapasEtiquetados (salidaQuemada configuration programa path bitrate nombre x).opts =
      [etiquetaQuemada configuration x.2] := by
  have hsub : etiquetaDe ("[sub" ++ itoa x.2 ++ "]") = some ("sub" ++ itoa x.2) := by
    simpa [← String.append_assoc] using etiquetaDe_corchetes ("sub" ++ itoa x.2)
  have hv : etiquetaDe "[v]" = some "v" := etiquetaDe_corchetes "v"
  rw [← mapasEtiquetados_propias, propias_salidaQuemada, propias_opcionesSubtitulo,
    etiquetaQuemada]
  by_cases hw : configuration.hwaccel = true
  · rw [if_pos hw, if_pos hw]
    split
    all_goals simp [mapasEtiquetados, hsub]
  · rw [if_neg hw, if_neg hw]
    simp [mapasEtiquetados, hv]

/-- In software it has a graph of its own. -/
theorem filtros_salidaQuemada (x : Stream × ℕ) :
    filtros (salidaQuemada configuration programa path bitrate nombre x).opts =
      if configuration.hwaccel then [] else [filtroOverlay programa x.1] := by
  rw [← filtros_propias, propias_salidaQuemada, propias_opcionesSubtitulo]
  by_cases hw : configuration.hwaccel = true
  · rw [if_pos hw, if_pos hw]
    split
    all_goals simp [filtros]
  · rw [if_neg hw, if_neg hw]
    simp [filtros, filtroOverlay]

theorem legible_salidaQuemada (x : Stream × ℕ) :
    Legible (salidaQuemada configuration programa path bitrate nombre x) :=
  legible_HLS (admite_argumentosSubtitulo (admite_bitrateCommand bitrate) _ _ _).legales _ _ _

theorem salidasDVBSubs_eq : salidasDVBSubs configuration programa path bitrate nombre =
    prepend (ffmpeg.options (if configuration.hwaccel then
        ["-filter_complex", filtroDVBSubs programa] else []))
      (programa.subtitulos.zipIdx.map
        (salidaQuemada configuration programa path bitrate nombre)) :=
  rfl

theorem legible_salidasDVBSubs :
    ∀ x ∈ salidasDVBSubs configuration programa path bitrate nombre, Legible x := by
  refine legible_prepend admite_filtro.legales fun x hx => ?_
  obtain ⟨y, -, rfl⟩ := List.mem_map.1 hx
  exact legible_salidaQuemada y

theorem mapasEtiquetados_append (a b : List Opcion) :
    mapasEtiquetados (a ++ b) = mapasEtiquetados a ++ mapasEtiquetados b :=
  List.filterMap_append

theorem filtros_append (a b : List Opcion) : filtros (a ++ b) = filtros a ++ filtros b :=
  List.filterMap_append

/-- **The outputs map a label each**, and the graph before the first adds
none. -/
theorem map_mapasEtiquetados_salidas :
    (salidasDVBSubs configuration programa path bitrate nombre).map
        (fun x => mapasEtiquetados x.opts) =
      programa.subtitulos.zipIdx.map fun x => [etiquetaQuemada configuration x.2] := by
  have hnone : mapasEtiquetados (ffmpeg.options (if configuration.hwaccel then
      ["-filter_complex", filtroDVBSubs programa] else [])) = [] := by
    split <;> simp +decide [mapasEtiquetados, Grammar.options]
  rw [salidasDVBSubs_eq]
  cases programa.subtitulos.zipIdx with
  | nil => rfl
  | cons x xs =>
    simp only [List.map_cons, prepend, mapasEtiquetados_append, hnone, List.nil_append,
      mapasEtiquetados_salidaQuemada, List.map_map, Function.comp_def]

/-- **One graph for all the subtitles with the GPU**, and in software one
for each. -/
theorem filtros_salidas (hs : programa.subtitulos ≠ []) :
    (salidasDVBSubs configuration programa path bitrate nombre).flatMap
        (fun x => filtros x.opts) =
      if configuration.hwaccel then [filtroDVBSubs programa]
      else programa.subtitulos.map (filtroOverlay programa) := by
  have hprepend : (salidasDVBSubs configuration programa path bitrate nombre).flatMap
      (fun x => filtros x.opts) = filtros (ffmpeg.options (if configuration.hwaccel then
        ["-filter_complex", filtroDVBSubs programa] else [])) ++
      programa.subtitulos.zipIdx.flatMap fun x =>
        if configuration.hwaccel then [] else [filtroOverlay programa x.1] := by
    rw [salidasDVBSubs_eq]
    obtain ⟨elem, elems, helems⟩ := List.exists_cons_of_ne_nil hs
    simp only [helems, List.zipIdx_cons, List.map_cons, prepend, List.flatMap_cons,
      filtros_append, filtros_salidaQuemada, List.flatMap_map, List.append_assoc]
  rw [hprepend]
  by_cases hw : configuration.hwaccel = true
  · simp +decide [hw, filtros, Grammar.options]
  · have hfst := List.zipIdx_map_fst 0 programa.subtitulos
    simp only [hw, Bool.false_eq_true, if_false]
    conv_rhs => rw [← hfst, List.map_map, List.map_eq_flatMap]
    rfl

variable (configuration programa path bitrate nombre) in
/-- The directory of a subtitle's outputs. -/
theorem targets_salidas :
    (salidasDVBSubs configuration programa path bitrate nombre).map Output.target =
      programa.subtitulos.map fun elem => path ++ "/subtitulos/" ++ elem.language ++ "/" ++
        ((if bitrate = "" then "" else bitrate ++ "-") ++ "subtitulo" ++ ".m3u8") := by
  rw [salidasDVBSubs_eq, prepend_map_target, List.map_map]
  conv_rhs => rw [← List.zipIdx_map_fst 0 programa.subtitulos, List.map_map]
  refine List.map_congr_left fun x _ => ?_
  simp only [Function.comp_apply, salidaQuemada_eq, String.append_assoc]

end Salidas

/-! ## Graphs and maps fit -/

section Enlaces

variable {configuration : Config} {programa : Programa} {path bitrate nombre : String}

theorem not_mem_etiqueta_video {s : Stream} : getMapId s ≠ "v" := by
  intro h
  obtain ⟨t, ht | ht⟩ := getMapId_toList s <;> simp [h] at ht

/-- The graph of an overlay gives one label, and leaves it open. -/
theorem openOutputs_grafoOverlay (elem : Stream) :
    (grafoOverlay programa elem).openOutputs = ["v"] := by
  have hvideo : "v" ≠ getMapId programa.video := not_mem_etiqueta_video.symm
  have helem : "v" ≠ getMapId elem := not_mem_etiqueta_video.symm
  simp [Graph.openOutputs, grafoOverlay, chainInputs, chainOutputs, hvideo, helem]

theorem wellFormed_grafoOverlay {elem : Stream} (h : elem ∈ programa.subtitulos)
    (hlegal : (grafoOverlay programa elem).Legal) :
    (grafoOverlay programa elem).WellFormed (fuentes programa) := by
  have hvideo : getMapId programa.video ∈ fuentes programa := List.mem_cons_self
  have helem : getMapId elem ∈ fuentes programa :=
    List.mem_cons_of_mem _ (List.mem_map_of_mem h)
  have hlabel : "v" ∉ fuentes programa := by
    intro hmem
    obtain ⟨s, hs⟩ := exists_of_mem_fuentes hmem
    exact not_mem_etiqueta_video hs.symm
  refine hlegal.wellFormed ?_ ?_ ?_ ?_
  · simp [grafoOverlay, chainOutputs]
  · simpa [grafoOverlay, chainOutputs] using hlabel
  · simp [grafoOverlay, chainInputs, hvideo, helem]
  · simp [grafoOverlay, chainInputs, hvideo, helem]

/-- The filter graphs and the maps of the burned outputs fit: each graph
has its links tied, with the GPU the video is split once into a label for
each subtitle, the labels left open are those the outputs map, and each
output maps one, into the directory of its subtitle. -/
structure Enlazadas (configuration : Config) (programa : Programa) (path : String)
    (salidas : List Salida) (gs : List Graph) : Prop where
  lectura : (salidas.flatMap fun x => filtros x.opts).mapM Graph.read = some gs
  enlaces : ∀ g ∈ gs, g.WellFormed (fuentes programa)
  particion : configuration.hwaccel = true → ∃ g, gs = [g] ∧ ∃ f, particiones g = [f] ∧
    f.spec = "split=" ++ itoa programa.subtitulos.length ∧ f.outputs = bases g ∧
      (bases g).length = programa.subtitulos.length
  abiertas : (gs.flatMap Graph.openOutputs).Perm
    (salidas.flatMap fun x => mapasEtiquetados x.opts)
  directorios : List.Forall₂ (fun x elem => (mapasEtiquetados x.opts).length = 1 ∧
    ∃ fichero : String, '/' ∉ fichero.toList ∧
      x.target = path ++ "/subtitulos/" ++ elem.language ++ "/" ++ fichero)
    salidas programa.subtitulos

theorem length_etiquetas (nombre : String) (n : ℕ) : (etiquetas [nombre] n).length = n := by
  rw [etiquetas_singleton, List.length_map, List.length_range]

variable (configuration programa path bitrate nombre) in
/-- The labels of the maps, in order. -/
theorem flatMap_mapasEtiquetados_salidas :
    ((salidasDVBSubs configuration programa path bitrate nombre).flatMap
        fun x => mapasEtiquetados x.opts) =
      (List.range programa.subtitulos.length).map (etiquetaQuemada configuration) := by
  rw [List.flatMap_def, map_mapasEtiquetados_salidas, ← List.flatMap_def,
    flatMap_zipIdx_snd _ fun index : ℕ => [etiquetaQuemada configuration index],
    List.map_eq_flatMap]

variable (configuration programa path nombre) in
/-- Each output maps one label, into the directory of its subtitle. -/
theorem directorios_salidas (hb : bitrate = "" ∨ EsBitrate bitrate) :
    List.Forall₂ (fun x elem => (mapasEtiquetados x.opts).length = 1 ∧
      ∃ fichero : String, '/' ∉ fichero.toList ∧
        x.target = path ++ "/subtitulos/" ++ elem.language ++ "/" ++ fichero)
      (salidasDVBSubs configuration programa path bitrate nombre) programa.subtitulos := by
  have hfichero : '/' ∉
      ((if bitrate = "" then "" else bitrate ++ "-") ++ "subtitulo" ++ ".m3u8").toList := by
    obtain rfl | hb := hb
    · simp
    · have hslash : '/' ∉ bitrate.toList := fun hmem => by
        have hdigit := List.all_eq_true.1 hb.2 _ hmem
        revert hdigit
        decide
      split <;> simp [hslash]
  refine (List.forall₂_and_left _ _).2 ⟨fun x hx => ?_, ?_⟩
  · have hmem := List.mem_map_of_mem (f := fun x : Salida => mapasEtiquetados x.opts) hx
    rw [map_mapasEtiquetados_salidas] at hmem
    obtain ⟨y, -, hy⟩ := List.mem_map.1 hmem
    rw [← hy]
    rfl
  · have htargets := targets_salidas configuration programa path bitrate nombre
    rw [← List.forall₂_eq_eq_eq, List.forall₂_map_left_iff, List.forall₂_map_right_iff] at htargets
    exact htargets.imp fun x elem htarget => ⟨_, hfichero, htarget⟩

variable (configuration path nombre) in
theorem enlazadas_salidas (hP : programa.DeSonda) (hs : programa.subtitulos ≠ [])
    (hb : bitrate = "" ∨ EsBitrate bitrate) :
    ∃ gs, Enlazadas configuration programa path
      (salidasDVBSubs configuration programa path bitrate nombre) gs := by
  have hmapas := flatMap_mapasEtiquetados_salidas configuration programa path bitrate nombre
  have hdirectorios := directorios_salidas configuration programa path nombre hb
  by_cases hw : configuration.hwaccel = true
  · refine ⟨[grafoDVBSubs programa], ?_, ?_, fun _ => ?_, ?_, hdirectorios⟩
    · rw [filtros_salidas hs, if_pos hw, List.mapM_cons, read_filtroDVBSubs hP hs]
      rfl
    · simpa using wellFormed_grafoDVBSubs (legal_grafoDVBSubs hP)
    · refine ⟨_, rfl, _, particiones_grafoDVBSubs, rfl, bases_grafoDVBSubs.symm, ?_⟩
      rw [bases_grafoDVBSubs, length_etiquetas]
    · have hlabel : etiquetaQuemada configuration = fun index : ℕ => "sub" ++ itoa index :=
        funext fun index => if_pos hw
      rw [hmapas, hlabel, List.flatMap_singleton, openOutputs_grafoDVBSubs, etiquetas_singleton]
  · refine ⟨programa.subtitulos.map (grafoOverlay programa), ?_, ?_, fun h => absurd h hw, ?_,
      hdirectorios⟩
    · rw [filtros_salidas hs, if_neg hw, List.mapM_map]
      exact mapM_eq_some fun elem helem => read_filtroOverlay hP helem
    · intro g hg
      obtain ⟨elem, helem, rfl⟩ := List.mem_map.1 hg
      exact wellFormed_grafoOverlay helem (legal_grafoOverlay hP helem)
    · have hlabel : etiquetaQuemada configuration = fun _ => "v" :=
        funext fun index => if_neg hw
      rw [hmapas, hlabel, List.flatMap_map]
      simp only [openOutputs_grafoOverlay]
      rw [← List.map_eq_flatMap, List.map_const', List.map_const', List.length_range]

end Enlaces

/-- **The filter graphs of the burned subtitles are well formed**, and the
outputs take what they leave open. -/
theorem enlazadas_generarArgumentosDVBSubs (configuration : Config) {programa : Programa}
    (hvideo : programa.video = default ∨ programa.video.Captado)
    (hsubtitulos : ∀ elem ∈ programa.subtitulos, elem.Captado) (hs : programa.subtitulos ≠ [])
    {bitrate : String} (hb : bitrate = "" ∨ EsBitrate bitrate) (path nombre : String) :
    ∃ args salidas gs,
      generarArgumentosDVBSubs configuration programa path bitrate nombre = some args ∧
        ffmpeg.readOutputs [] args = some salidas ∧
          Enlazadas configuration programa path salidas gs := by
  -- the audio of the program takes no part in the burned outputs
  have hP : ({ programa with audio := [] } : Programa).DeSonda :=
    ⟨hvideo, by simpa using hsubtitulos⟩
  obtain ⟨gs, hgs⟩ : ∃ gs, Enlazadas configuration programa path
      (salidasDVBSubs configuration programa path bitrate nombre) gs := by
    obtain ⟨gs, h⟩ := enlazadas_salidas configuration path nombre hP hs hb
    exact ⟨gs, h.lectura, h.enlaces, h.particion, h.abiertas, h.directorios⟩
  have hsome : (bitrateCommand bitrate).isSome = true := by
    obtain rfl | hb := hb
    · rfl
    · exact isSome_bitrateCommand (calcularBitrateMaximo_isSome hb.1)
  exact ⟨_, _, gs, generarArgumentosDVBSubs_eq hsome path nombre,
    Grammar.readOutputs_tokens legible_salidasDVBSubs, hgs⟩

/-- Two subtitles of the probe. -/
theorem enlazadas_generarArgumentosDVBSubs_dos : ∃ args salidas gs,
    generarArgumentosDVBSubs { (default : Config) with hwaccel := true }
      { (default : Programa) with subtitulos :=
        [{ (default : Stream) with id := "2", hexaId := "0x102", language := "spa" },
          { (default : Stream) with id := "3", language := "eng" }] } "/hls" "800" "h264" =
      some args ∧ ffmpeg.readOutputs [] args = some salidas ∧
        Enlazadas { (default : Config) with hwaccel := true }
          { (default : Programa) with subtitulos :=
            [{ (default : Stream) with id := "2", hexaId := "0x102", language := "spa" },
              { (default : Stream) with id := "3", language := "eng" }] } "/hls" salidas gs := by
  refine enlazadas_generarArgumentosDVBSubs _ (.inl rfl) ?_ (by simp) (.inr (by decide)) _ _
  simp only [List.mem_cons, List.not_mem_nil, or_false, forall_eq_or_imp, forall_eq]
  exact ⟨⟨by decide, Text.forall_mem_of_all (by decide), Text.forall_mem_of_all (by decide)⟩,
    ⟨by decide, Text.forall_mem_of_all (by decide), Text.forall_mem_of_all (by decide)⟩⟩

end HlsXcoder
