import HlsXcoder.Codificacion.ListaMaestra

/-!
# Output references of the master playlist

A variant names the groups its audio, its subtitles and its alternative
videos come from. The references of a playlist are closed when every
group named is one that an `EXT-X-MEDIA` line of the same type defines,
and uniform when all main variants name the same groups.

The closure that writes the variants assigns `,SUBTITLES="subs"` before
each burned variant and leaves it set for the bitrates after, while the
only `EXT-X-MEDIA` lines of burned subtitles are of type `VIDEO`. So the
references hold together exactly when nothing is burned in.
-/

namespace HlsXcoder

/-- The types of group a variant may name. -/
def tiposGrupo : List String := ["AUDIO", "SUBTITLES", "VIDEO"]

/-- A media line of a type defines a group. -/
def LineaM3U8.define (l : LineaM3U8) (tipo grupo : String) : Prop :=
  l.esMedia = true ∧ tipo ∈ l.valores "TYPE" ∧ grupo ∈ l.valores "GROUP-ID"

instance (l : LineaM3U8) (tipo grupo : String) : Decidable (l.define tipo grupo) :=
  inferInstanceAs (Decidable (_ ∧ _ ∧ _))

/-- The group references of a playlist are closed, and the same on every
main variant. -/
structure GruposCerrados (lineas : List LineaM3U8) : Prop where
  cerrado : ∀ l ∈ lineas, l.esMedia = false → ∀ tipo ∈ tiposGrupo, ∀ g ∈ l.valores tipo,
    ∃ m ∈ lineas, m.define tipo g
  uniforme : ∀ l ∈ lineas, ∀ l' ∈ lineas, l.esPrincipal = true → l'.esPrincipal = true →
    ∀ tipo ∈ tiposGrupo, l.valores tipo = l'.valores tipo

instance (lineas : List LineaM3U8) : Decidable (GruposCerrados lineas) :=
  decidable_of_iff (_ ∧ _) ⟨fun h => ⟨h.1, h.2⟩, fun h => ⟨h.1, h.2⟩⟩

/-! ## What each line names -/

variable {programa : Programa} {bitrates : List String}

theorem mem_mediasM3U8 {l : LineaM3U8} (h : l ∈ mediasM3U8 programa) :
    (∃ e ∈ programa.audio, l = lineaAudio e) ∨
      (∃ e ∈ programa.subtitulos, teletextSubtitle programa = true ∧
        l = lineaSubtitulo "SUBTITLES" "subs" "subtitulo_vtt.m3u8" e) ∨
      ∃ e ∈ programa.subtitulos, teletextSubtitle programa = false ∧
        l = lineaSubtitulo "VIDEO" "videoSubs" "subtitulo.m3u8" e := by
  rw [mediasM3U8, List.mem_append] at h
  rcases h with h | h
  · obtain ⟨e, he, rfl⟩ := List.mem_map.1 h
    exact Or.inl ⟨e, he, rfl⟩
  · by_cases ht : teletextSubtitle programa = true
    · rw [if_pos ht] at h
      obtain ⟨e, he, rfl⟩ := List.mem_map.1 h
      exact Or.inr (Or.inl ⟨e, he, ht, rfl⟩)
    · rw [if_neg ht] at h
      obtain ⟨e, he, rfl⟩ := List.mem_map.1 h
      exact Or.inr (Or.inr ⟨e, he, Bool.eq_false_iff.2 ht, rfl⟩)

theorem esMedia_of_mem_mediasM3U8 {l : LineaM3U8} (h : l ∈ mediasM3U8 programa) :
    l.esMedia = true := by
  obtain ⟨e, -, rfl⟩ | ⟨e, -, -, rfl⟩ | ⟨e, -, -, rfl⟩ := mem_mediasM3U8 h <;> rfl

@[simp] theorem lineaAudio_define (e : Stream) :
    (lineaAudio e).define "AUDIO" "audio" := by
  simp [LineaM3U8.define, lineaAudio, LineaM3U8.esMedia, LineaM3U8.valores, LineaM3U8.atributos]

@[simp] theorem lineaSubtitulo_define (tipo grupo fichero : String) (e : Stream) :
    (lineaSubtitulo tipo grupo fichero e).define tipo grupo := by
  simp [LineaM3U8.define, lineaSubtitulo, LineaM3U8.esMedia, LineaM3U8.valores,
    LineaM3U8.atributos]

/-- No media line of burned subtitles is of type `SUBTITLES`. -/
theorem not_define_subtitles (ht : teletextSubtitle programa = false) {m : LineaM3U8}
    (hm : m ∈ mediasM3U8 programa) (g : String) : ¬ m.define "SUBTITLES" g := by
  obtain ⟨e, -, rfl⟩ | ⟨e, -, hte, -⟩ | ⟨e, -, -, rfl⟩ := mem_mediasM3U8 hm
  · simp [LineaM3U8.define, lineaAudio, LineaM3U8.valores, LineaM3U8.atributos]
  · rw [ht] at hte
    cases hte
  · simp [LineaM3U8.define, lineaSubtitulo, LineaM3U8.valores, LineaM3U8.atributos]

/-- The groups a main variant names are those of the three variables. -/
theorem valores_lineaPrincipal (subtitle : List Atributo) (bitrate tipo : String)
    (ht : tipo ∈ tiposGrupo) :
    (lineaPrincipal (atributosAudio programa) (atributosVideo programa) subtitle bitrate).valores
        tipo =
      ((subtitle ++ atributosAudio programa ++ atributosVideo programa).filter
        fun a => a.nombre = tipo).map Atributo.valor := by
  simp only [tiposGrupo, List.mem_cons, List.not_mem_nil, or_false] at ht
  obtain rfl | rfl | rfl := ht <;>
    simp [lineaPrincipal, LineaM3U8.valores, LineaM3U8.atributos]

/-- Where nothing is burned in, the variants of a playlist are the main
variants, all under the attributes the first one starts with. -/
theorem mem_sinQuemar (hq : programa.subtitulos = [] ∨ teletextSubtitle programa = true)
    {l : LineaM3U8} (h : l ∈ generarArchivoM3U8 programa bitrates) :
    l ∈ mediasM3U8 programa ∨ ∃ b, l = lineaPrincipal (atributosAudio programa)
      (atributosVideo programa) (atributosSubtitle programa) b := by
  have hfst (b n : String) (s : List Atributo) : (generarM3U8Videos programa
      (atributosAudio programa) (atributosVideo programa) s b n).1 =
      [lineaPrincipal (atributosAudio programa) (atributosVideo programa) s b] := by
    rw [generarM3U8Videos_fst]
    obtain hs | ht := hq
    · simp [hs]
    · simp [ht]
  have hsnd (b n : String) (s : List Atributo) : (generarM3U8Videos programa
      (atributosAudio programa) (atributosVideo programa) s b n).2 = s := by
    rw [generarM3U8Videos_snd, if_pos hq.symm]
  have hvar (bs : List String) (s : List Atributo) : variantes programa s bs =
      bs.map (lineaPrincipal (atributosAudio programa) (atributosVideo programa) s) := by
    induction bs with
    | nil => rfl
    | cons b bs ih => rw [variantes, hfst, hsnd, ih, List.map_cons]; rfl
  rw [generarArchivoM3U8_eq, List.mem_append] at h
  refine h.imp_right fun h => ?_
  by_cases hb : bitrates = []
  · rw [if_pos hb, hfst, List.mem_singleton] at h
    exact ⟨"", h⟩
  · rw [if_neg hb, hvar, List.mem_map] at h
    obtain ⟨b, -, rfl⟩ := h
    exact ⟨b, rfl⟩

/-- **A burned variant is always written** where subtitles are burned in. -/
theorem exists_quemada (bitrates : List String) (hs : programa.subtitulos ≠ [])
    (ht : teletextSubtitle programa = false) :
    ∃ bitrate nombre e, lineaQuemada (atributosAudio programa) bitrate nombre e ∈
      generarArchivoM3U8 programa bitrates := by
  obtain ⟨e, subs, hsub⟩ := List.exists_cons_of_ne_nil hs
  have hmem (b n : String) (s : List Atributo) :
      lineaQuemada (atributosAudio programa) (if b = "" then "1000" else b) n e ∈
        (generarM3U8Videos programa (atributosAudio programa) (atributosVideo programa) s b n).1 := by
    rw [generarM3U8Videos_fst, ht, hsub]
    exact List.mem_cons_of_mem _ List.mem_cons_self
  rw [generarArchivoM3U8_eq]
  cases bitrates with
  | nil =>
    exact ⟨_, _, e, List.mem_append_right _ (hmem "" "subtitulo.m3u8" _)⟩
  | cons b bs =>
    rw [if_neg (List.cons_ne_nil _ _), variantes]
    exact ⟨_, _, e, List.mem_append_right _
      (List.mem_append_left _ (hmem b (b ++ "-subtitulo.m3u8") _))⟩

/-! ## When the references are closed -/

/-- **Nothing burned in, references closed.** -/
theorem gruposCerrados_of_sinQuemar
    (hq : programa.subtitulos = [] ∨ teletextSubtitle programa = true) :
    GruposCerrados (generarArchivoM3U8 programa bitrates) where
  cerrado := by
    intro l hl hmedia tipo htipo g hg
    obtain hm | ⟨b, rfl⟩ := mem_sinQuemar hq hl
    · rw [esMedia_of_mem_mediasM3U8 hm] at hmedia
      cases hmedia
    rw [valores_lineaPrincipal _ _ _ htipo] at hg
    obtain ⟨a, ha, rfl⟩ := List.mem_map.1 hg
    obtain ⟨hmem, hnombre⟩ := List.mem_filter.1 ha
    obtain rfl : a.nombre = tipo := by simpa using hnombre
    have hgen {m : LineaM3U8} (h : m ∈ mediasM3U8 programa) :
        m ∈ generarArchivoM3U8 programa bitrates := by
      rw [generarArchivoM3U8_eq]
      exact List.mem_append_left _ h
    rw [List.mem_append, List.mem_append] at hmem
    obtain (ha | ha) | ha := hmem
    · -- the group of the subtitles is set only over teletext subtitles
      unfold atributosSubtitle at ha
      split at ha
      · rename_i hs
        obtain rfl := List.mem_singleton.1 ha
        obtain ⟨e, subs, hsub⟩ := List.exists_cons_of_ne_nil hs.2
        refine ⟨_, hgen (List.mem_append_right _ ?_), lineaSubtitulo_define _ _ "subtitulo_vtt.m3u8" e⟩
        simp [hs.1, hsub]
      · cases ha
    · unfold atributosAudio at ha
      split at ha
      · cases ha
      · rename_i hne
        obtain rfl := List.mem_singleton.1 ha
        obtain ⟨e, as, has⟩ := List.exists_cons_of_ne_nil hne
        exact ⟨_, hgen (List.mem_append_left _ (by simp [has])), lineaAudio_define e⟩
    · unfold atributosVideo at ha
      split at ha
      · rename_i hs
        obtain hnil | ht := hq
        · exact absurd hnil hs.2
        · rw [hs.1] at ht
          cases ht
      · cases ha
  uniforme := by
    intro l hl l' hl' hp hp' tipo htipo
    obtain hm | ⟨b, rfl⟩ := mem_sinQuemar hq hl
    · simp [LineaM3U8.esPrincipal, esMedia_of_mem_mediasM3U8 hm] at hp
    obtain hm | ⟨b', rfl⟩ := mem_sinQuemar hq hl'
    · simp [LineaM3U8.esPrincipal, esMedia_of_mem_mediasM3U8 hm] at hp'
    rw [valores_lineaPrincipal _ _ _ htipo, valores_lineaPrincipal _ _ _ htipo]

/-- **The group references of a playlist are closed exactly when no
subtitle is burned in.** -/
theorem gruposCerrados_iff (programa : Programa) (bitrates : List String) :
    GruposCerrados (generarArchivoM3U8 programa bitrates) ↔
      programa.subtitulos = [] ∨ teletextSubtitle programa = true := by
  refine ⟨fun h => ?_, gruposCerrados_of_sinQuemar⟩
  by_contra hq
  obtain ⟨hs, ht⟩ := not_or.1 hq
  obtain ⟨b, n, e, he⟩ := exists_quemada bitrates hs (Bool.eq_false_iff.2 ht)
  have hsubs : "subs" ∈ (lineaQuemada (atributosAudio programa) b n e).valores "SUBTITLES" := by
    simp [lineaQuemada, LineaM3U8.valores, LineaM3U8.atributos]
  obtain ⟨m, hm, hdef⟩ := h.cerrado _ he rfl "SUBTITLES" (by simp [tiposGrupo]) _ hsubs
  rw [generarArchivoM3U8_eq, List.mem_append] at hm
  obtain hm | hm := hm
  · exact not_define_subtitles (Bool.eq_false_iff.2 ht) hm _ hdef
  · -- the lines below the media lines define nothing
    have hmedia := hdef.1
    split at hm
    · rw [esMedia_of_mem_generarM3U8Videos hm] at hmedia
      cases hmedia
    · obtain ⟨b', -, s, -, hm⟩ := mem_variantes hm
      rw [esMedia_of_mem_generarM3U8Videos hm] at hmedia
      cases hmedia

/-- One burned subtitle leaves a reference open. -/
theorem gruposCerrados_abiertos :
    ¬ GruposCerrados (generarArchivoM3U8
      { (default : Programa) with
        id := "1"
        subtitulos := [{ (default : Stream) with
          id := "2", hexaId := "0x102", format := "dvb_subtitle", language := "spa" }] }
      ["1000"]) := by
  decide +kernel

end HlsXcoder
