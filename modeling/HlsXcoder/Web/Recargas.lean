import HlsXcoder.Web.PlaylistLoader

/-!
# What the loader keeps of what it reads

A playlist of the loader is the one that was last read at its address:
its segments, each with its own address, and their first number
(`Corre.almacen`). Nothing of an older reading is left in it, though it
is merged into it, as long as a number stands for one segment in all that
is read there.

While nothing fails and the player does not pause, a live playlist is
always about to be read again (`vigila_tras`). A switch that fails when
it was begun over another request leaves the loader waiting for an answer
that will not come (`atascado_iff`).
-/

namespace HlsXcoder

/-! ## Merging what agrees -/

/-- A segment as it was read and resolved, on its own. -/
def Segmento.de (location baseUri : String) (leido : CurrentUri) : Segmento :=
  resolveSegmentUris location baseUri (mergeSegmento none leido)

/-- **Two readings that agree**: a number stands for one segment. -/
structure Manifest.Concuerda (m m' : Manifest) : Prop where
  numeradas : m.mediaSequence.isSome = m'.mediaSequence.isSome
  segmento : ∀ (i j : ℕ), m.mediaSequence.getD 0 + i = m'.mediaSequence.getD 0 + j →
    ∀ s ∈ m.segments[i]?, ∀ s' ∈ m'.segments[j]?, s = s'

theorem Manifest.concuerda_self (m : Manifest) : m.Concuerda m := by
  refine ⟨rfl, fun i j hij s hs s' hs' => ?_⟩
  obtain rfl : i = j := by omega
  exact Option.some_inj.1 (hs.symm.trans hs')

theorem Manifest.Concuerda.symm {m m' : Manifest} (h : m.Concuerda m') : m'.Concuerda m :=
  ⟨h.numeradas.symm, fun i j hij s hs s' hs' => (h.segmento j i hij.symm s' hs' s hs).symm⟩

/-- What seems the same is the same. -/
theorem Manifest.Concuerda.segments_eq {m m' : Manifest} (h : m.Concuerda m')
    (hseq : m.mediaSequence = m'.mediaSequence) (hlen : m.segments.length = m'.segments.length) :
    m.segments = m'.segments := by
  refine List.ext_getElem hlen fun i hi hi' => ?_
  exact h.segmento i i (by rw [hseq]) _ (List.getElem?_eq_getElem hi) _ (List.getElem?_eq_getElem hi')

theorem CurrentUri.sobre_self (s : CurrentUri) : s.sobre s = s := by
  obtain ⟨uri, duration, attributes, discontinuity, timeline, map⟩ := s
  have hattributes (as : Atributos) : as.filter (fun a => (as.get a.1).isNone) = [] := by
    refine List.filter_eq_nil_iff.2 fun a ha => ?_
    have hsome : (as.find? fun b => b.1 = a.1).isSome = true :=
      List.find?_isSome.2 ⟨a, ha, by simp⟩
    rw [Atributos.get, Option.isNone_map, ← Option.not_isSome, hsome]
    decide
  simp only [sobre, Option.or_self, Bool.or_self, CurrentUri.mk.injEq, true_and]
  refine ⟨?_, ?_⟩
  · cases attributes with
    | none => rfl
    | some as => simp [hattributes]
  · cases map with
    | none => rfl
    | some uri => simp

section Direcciones

variable (location : String)

/-- A segment over itself keeps its addresses. -/
theorem resolveSegmentUris_merge_self (baseUri : String) (s : CurrentUri) :
    resolveSegmentUris location baseUri (mergeSegmento (some (.de location baseUri s)) s) =
      .de location baseUri s := by
  have hleido : (Segmento.de location baseUri s).leido = s := rfl
  simp only [mergeSegmento, hleido, CurrentUri.sobre_self]
  simp only [Segmento.de, resolveSegmentUris, mergeSegmento, Option.getD_none, Option.getD_some,
    Option.none_or, Option.or_self]

/-- **An update of what agrees with it is the update**: the segments that
stay stay where they are. -/
theorem map_updateSegments {m m' : Manifest} (h : m'.Concuerda m) {baseUri : String} :
    (updateSegments (m'.segments.map (.de location baseUri)) m.segments
      ((m.mediaSequence.bind fun n => m'.mediaSequence.map (n - ·)).getD 0)).map
        (resolveSegmentUris location baseUri) = m.segments.map (.de location baseUri) := by
  have hoffset : (m.mediaSequence.bind fun n => m'.mediaSequence.map (n - ·)).getD 0 =
      m.mediaSequence.getD 0 - m'.mediaSequence.getD 0 := by
    have hnumeradas := h.numeradas
    cases hn : m.mediaSequence <;> cases hn' : m'.mediaSequence <;> simp_all
  rw [hoffset]
  refine List.ext_getElem? fun i => ?_
  simp only [updateSegments, List.getElem?_map, List.getElem?_mapIdx, Option.map_map]
  refine Option.map_congr fun s hs => ?_
  rw [Function.comp_apply]
  split
  · rename_i hpos
    cases hs' : m'.segments[(i + (m.mediaSequence.getD 0 - m'.mediaSequence.getD 0)).toNat]? with
    | none => rfl
    | some s' =>
      obtain rfl := h.segmento _ i (by omega) s' hs' s hs
      exact resolveSegmentUris_merge_self location baseUri s'
  · rfl

end Direcciones

/-- What was read last as a playlist, newest first. -/
def ultima (log : List Descarga) (uri : String) : Option Manifest :=
  log.findSome? fun x => if x.uri = uri then Parser.parse x.responseText else none

namespace PlaylistLoader

section Corre

variable {location srcUrl : String} {l : PlaylistLoader}

/-! ## What is stored -/

/-- What is read at an address agrees with itself. -/
def Coherente (log : List Descarga) : Prop :=
  ∀ x ∈ log, ∀ y ∈ log, x.uri = y.uri →
    ∀ m ∈ Parser.parse x.responseText, ∀ m' ∈ Parser.parse y.responseText, m.Concuerda m'

variable (location) in
/-- **A playlist is the one that was last read as it**: nothing of those
before is left in it but that it has ended. -/
structure Guardada (log : List Descarga) (p : MediaPlaylist) : Prop where
  sinLeer : ultima log p.uri = none → p.segments = none ∧ p.mediaSequence = none
  leida : ∀ m ∈ ultima log p.uri,
    p.segments = some (m.segments.map (.de location p.resolvedUri)) ∧ p.mediaSequence = m.mediaSequence
  endList : p.endList = true ↔
    ∃ x ∈ log, x.uri = p.uri ∧ ∃ m ∈ Parser.parse x.responseText, m.endList = true

theorem ultima_cons (x : Descarga) (log : List Descarga) (uri : String) :
    ultima (x :: log) uri =
      if x.uri = uri then (Parser.parse x.responseText).or (ultima log uri) else ultima log uri := by
  rw [ultima, List.findSome?_cons]
  split
  · rename_i h
    split at h
    · rename_i huri
      rw [if_pos huri, h, Option.some_or]
    · cases h
  · rename_i h
    split at h
    · rename_i huri
      rw [if_pos huri, h, Option.none_or]
      rfl
    · rename_i huri
      rw [if_neg huri]
      rfl

theorem exists_mem_of_ultima {log : List Descarga} {uri : String} {m : Manifest}
    (h : ultima log uri = some m) :
    ∃ x ∈ log, x.uri = uri ∧ Parser.parse x.responseText = some m := by
  obtain ⟨x, hx, h⟩ := List.exists_of_findSome?_eq_some h
  split at h
  · rename_i huri
    exact ⟨x, hx, huri, h⟩
  · cases h

theorem guardada_nil (uri resolvedUri : String) :
    Guardada location [] (.sinLeer uri resolvedUri) :=
  ⟨fun _ => ⟨rfl, rfl⟩, fun _ h => (by cases h), ⟨fun h => absurd h Bool.false_ne_true,
    fun ⟨_, h, _⟩ => absurd h List.not_mem_nil⟩⟩

namespace Guardada

variable {log : List Descarga} {p : MediaPlaylist} {x : Descarga}

/-- What is read as another playlist, or cannot be read, changes nothing. -/
theorem cons_of_ne (h : Guardada location log p)
    (hx : x.uri = p.uri → Parser.parse x.responseText = none) : Guardada location (x :: log) p := by
  have hultima : ultima (x :: log) p.uri = ultima log p.uri := by
    rw [ultima_cons]
    split
    · rw [hx ‹_›, Option.none_or]
    · rfl
  refine ⟨by rw [hultima]; exact h.sinLeer, by rw [hultima]; exact h.leida, h.endList.trans ?_⟩
  simp only [List.mem_cons, exists_eq_or_imp]
  refine ⟨.inr, fun hor => hor.resolve_left ?_⟩
  rintro ⟨huri, m, hm, -⟩
  rw [hx huri] at hm
  cases hm

variable {m : Manifest} (huri : x.uri = p.uri) (hm : Parser.parse x.responseText = some m)

include huri hm in
theorem endList_cons (h : Guardada location log p) :
    (∃ y ∈ x :: log, y.uri = p.uri ∧ ∃ m ∈ Parser.parse y.responseText, m.endList = true) ↔
      m.endList = true ∨ p.endList = true := by
  simp only [List.mem_cons, exists_eq_or_imp, h.endList, hm]
  refine or_congr_left ⟨?_, fun hend => ⟨huri, m, rfl, hend⟩⟩
  rintro ⟨-, m', hm', hend⟩
  rwa [Option.some_inj.1 hm']

include huri hm in
theorem ultima_eq : ultima (x :: log) p.uri = some m := by
  rw [ultima_cons, if_pos huri, hm, Option.some_or]

include huri hm in
/-- The reading agrees with the one before. -/
theorem concuerda (hlog : Coherente (x :: log)) {m' : Manifest} (hm' : ultima log p.uri = some m') :
    m'.Concuerda m := by
  obtain ⟨y, hy, hyuri, hparse⟩ := exists_mem_of_ultima hm'
  exact hlog y (List.mem_cons_of_mem _ hy) x List.mem_cons_self (hyuri.trans huri.symm) m' hparse m hm

include huri hm in
/-- **What seems unchanged is what was read.** -/
theorem sinCambios (h : Guardada location log p) (hlog : Coherente (x :: log))
    (hsin : p.sinCambios m = true) : Guardada location (x :: log) p := by
  cases hsegments : p.segments with
  | none => simp [MediaPlaylist.sinCambios, hsegments] at hsin
  | some segments =>
    rw [MediaPlaylist.sinCambios, hsegments, Option.any_some] at hsin
    obtain ⟨hlen, hend, hseq⟩ := of_decide_eq_true hsin
    cases hultima : ultima log p.uri with
    | none =>
      rw [(h.sinLeer hultima).1] at hsegments
      cases hsegments
    | some m' =>
      obtain ⟨hsegments', hseq'⟩ := h.leida m' hultima
      obtain rfl := Option.some_inj.1 (hsegments.symm.trans hsegments')
      have heq : m'.segments = m.segments :=
        (concuerda huri hm hlog hultima).segments_eq (hseq'.symm.trans hseq) (by simpa using hlen)
      refine ⟨fun hno => ?_, fun m'' hm'' => ?_, ?_⟩
      · rw [ultima_eq huri hm] at hno
        cases hno
      · rw [ultima_eq huri hm] at hm''
        obtain rfl := Option.some_inj.1 hm''
        exact ⟨by rw [hsegments, heq], hseq⟩
      · rw [endList_cons huri hm h, ← hend, or_self]

include huri hm in
/-- **What is merged is what was read.** -/
theorem actualizada (h : Guardada location log p) (hlog : Coherente (x :: log)) :
    Guardada location (x :: log) (p.actualizada location m) := by
  refine ⟨fun hno => ?_, fun m' hm' => ?_, ?_⟩
  · have hultima : ultima (x :: log) p.uri = some m := ultima_eq huri hm
    exact absurd (hultima.symm.trans hno) (by simp)
  · have hultima : ultima (x :: log) p.uri = some m := ultima_eq huri hm
    obtain rfl := Option.some_inj.1 (hultima.symm.trans hm')
    rw [MediaPlaylist.actualizada]
    cases hultima' : ultima log p.uri with
    | none =>
      obtain ⟨hsegments, hseq⟩ := h.sinLeer hultima'
      simp only [hsegments, hseq, List.map_map, Option.or_none, and_true]
      rfl
    | some m' =>
      obtain ⟨hsegments, hseq⟩ := h.leida m' hultima'
      have hconcuerda := concuerda huri hm hlog hultima'
      have hnumeradas := hconcuerda.numeradas
      simp only [hsegments, hseq]
      refine ⟨congrArg some (map_updateSegments location hconcuerda), ?_⟩
      cases hn : m.mediaSequence <;> simp_all
  · exact Bool.or_eq_true_iff.trans (endList_cons huri hm h).symm

/-- Two playlists of one address are changed by the same. -/
theorem sinCambios_eq {q : MediaPlaylist} (h : Guardada location log p) (h' : Guardada location log q)
    (huri : p.uri = q.uri) (m : Manifest) : p.sinCambios m = q.sinCambios m := by
  have hend : p.endList = q.endList := Bool.eq_iff_iff.2 (by rw [h.endList, h'.endList, huri])
  cases hultima : ultima log p.uri with
  | none =>
    rw [MediaPlaylist.sinCambios, MediaPlaylist.sinCambios, (h.sinLeer hultima).1,
      (h'.sinLeer (huri ▸ hultima)).1]
    rfl
  | some m' =>
    obtain ⟨hsegments, hseq⟩ := h.leida m' hultima
    obtain ⟨hsegments', hseq'⟩ := h'.leida m' (huri ▸ hultima)
    simp only [MediaPlaylist.sinCambios, hsegments, hsegments', hseq, hseq', hend, Option.any_some,
      List.length_map]

end Guardada

variable (location) in
/-- A master all of whose playlists are as they were last read. -/
def MasterGuardado (log : List Descarga) (master : MasterPlaylist) : Prop :=
  ∀ p ∈ master.playlists, Guardada location log p

section Guardado

variable {log : List Descarga} {x : Descarga}

/-- **A text that is read is stored**, whether it changes anything or
not. -/
theorem MasterGuardado.updateMaster {master : MasterPlaylist} (h : MasterGuardado location log master)
    (hlog : Coherente (x :: log)) {m : Manifest} (hm : Parser.parse x.responseText = some m) :
    MasterGuardado location (x :: log) ((updateMaster location master m x.uri).getD master) := by
  have hotra {p : MediaPlaylist} (hp : p ∈ master.playlists) (hne : p.uri ≠ x.uri) :
      Guardada location (x :: log) p := (h p hp).cons_of_ne fun heq => absurd heq.symm hne
  rw [HlsXcoder.updateMaster]
  cases hplaylist : master.playlist x.uri with
  | none =>
    intro p hp
    refine hotra hp fun huri => ?_
    have := List.find?_eq_none.1 hplaylist p hp
    simp [huri] at this
  | some playlist =>
    obtain ⟨hmem, huri⟩ := MasterPlaylist.playlist_eq_some hplaylist
    rw [Option.bind_some]
    split
    · rename_i hsin
      intro p hp
      by_cases hpuri : p.uri = x.uri
      · refine (h p hp).sinCambios hpuri.symm hm hlog ?_
        rw [(h p hp).sinCambios_eq (h playlist hmem) (hpuri.trans huri.symm), hsin]
      · exact hotra hp hpuri
    · refine List.forall_mem_map.2 fun p hp => ?_
      split
      · exact (h playlist hmem).actualizada huri.symm hm hlog
      · exact hotra hp ‹_›

/-- What is stored, and that nothing has been read without a master. -/
structure Almacen (location : String) (log : List Descarga) (l : PlaylistLoader) : Prop where
  master : ∀ master ∈ l.master, MasterGuardado location log master
  sinMaster : l.master = none → log = []

theorem Almacen.congr (h : Almacen location log l) {l' : PlaylistLoader}
    (hmaster : l'.master = l.master) : Almacen location log l' :=
  ⟨by rw [hmaster]; exact h.master, by rw [hmaster]; exact h.sinMaster⟩

theorem Almacen.haveMetadata (h : Almacen location log l) (hmaster : l.master ≠ none)
    (hlog : Coherente (x :: log)) :
    Almacen location (x :: log) (l.haveMetadata location x.responseText x.uri) := by
  obtain ⟨master, hmaster⟩ := Option.ne_none_iff_exists'.1 hmaster
  have hcon {l' : PlaylistLoader} {master' : MasterPlaylist} (hl' : l'.master = some master')
      (hmaster' : MasterGuardado location (x :: log) master') : Almacen location (x :: log) l' := by
    refine ⟨fun master'' hmem => ?_, fun hno => ?_⟩
    · rw [hl'] at hmem
      obtain rfl := Option.some_inj.1 hmem
      exact hmaster'
    · rw [hl'] at hno
      cases hno
  simp only [PlaylistLoader.haveMetadata, hmaster]
  cases hm : Parser.parse x.responseText with
  | none => exact hcon rfl fun p hp => (h.master master hmaster p hp).cons_of_ne fun _ => hm
  | some m =>
    have hupdate := (h.master master hmaster).updateMaster hlog hm
    simp only
    cases hu : HlsXcoder.updateMaster location master m x.uri with
    | none =>
      rw [hu] at hupdate
      simp only
      split
      · exact hcon rfl hupdate
      · exact hcon rfl hupdate
    | some update =>
      rw [hu] at hupdate
      simp only
      split
      · exact hcon rfl hupdate
      · exact hcon rfl hupdate

end Guardado

section Master

theorem chooseMedia_master (l : PlaylistLoader) (uri : String) :
    (l.chooseMedia uri).master = l.master := by
  unfold PlaylistLoader.chooseMedia
  split
  · rfl
  · split
    · rfl
    · split
      · rfl
      · split
        · rfl
        · split <;> rfl

theorem elige_master (l : PlaylistLoader) (eleccion : Option String) :
    (eleccion.elim l l.chooseMedia).master = l.master := by
  cases eleccion with
  | none => rfl
  | some uri => exact chooseMedia_master l uri

theorem mediaUpdate_master (l : PlaylistLoader) : (l.mediaUpdate location).master = l.master := by
  unfold PlaylistLoader.mediaUpdate
  split
  · rfl
  · simp only
    split <;> simp [*]

theorem load_master (l : PlaylistLoader) : (l.load location srcUrl).master = l.master := by
  simp only [PlaylistLoader.load]
  split
  · rfl
  · split
    · exact mediaUpdate_master _
    · rfl

theorem pause_master (l : PlaylistLoader) : l.pause.master = l.master := by
  simp only [PlaylistLoader.pause]
  split <;> rfl

end Master

section Uris

/-- The playlists that an answer lists, or the only one that it is. -/
def urisDe (srcUrl : String) (m : Manifest) : List String :=
  (m.playlists.map (·.map CurrentUri.uri)).getD [srcUrl]

theorem uris_updateMaster {master update : MasterPlaylist} {media : Manifest} {uri : String}
    (h : updateMaster location master media uri = some update) : update.uris = master.uris := by
  rw [updateMaster, Option.bind_eq_some_iff] at h
  obtain ⟨playlist, hplaylist, h⟩ := h
  split at h
  · cases h
  · obtain rfl := Option.some_inj.1 h
    obtain ⟨-, huri⟩ := MasterPlaylist.playlist_eq_some hplaylist
    rw [MasterPlaylist.uris, MasterPlaylist.uris, List.map_map]
    refine List.map_congr_left fun p _ => ?_
    rw [Function.comp_apply]
    split
    · rename_i hp
      exact huri.trans hp.symm
    · rfl

theorem uris_haveMetadata (l : PlaylistLoader) (responseText url : String) :
    (l.haveMetadata location responseText url).master.map MasterPlaylist.uris =
      l.master.map MasterPlaylist.uris := by
  simp only [PlaylistLoader.haveMetadata]
  split
  · rename_i manifest master hmanifest hmaster
    split
    · rename_i update hupdate
      have huris := uris_updateMaster hupdate
      split <;> simp [hmaster, huris]
    · split <;> rfl
  · rfl

theorem uris_haveMaster (l : PlaylistLoader) {responseText : String} {m : Manifest}
    (hm : Parser.parse responseText = some m) (eleccion : Option String) :
    (l.haveMaster location srcUrl responseText eleccion).master.map MasterPlaylist.uris =
      some (urisDe srcUrl m) := by
  simp only [PlaylistLoader.haveMaster, hm]
  split
  · rename_i playlists hplaylists
    have huris : (setupMediaPlaylists location srcUrl playlists).uris = urisDe srcUrl m := by
      rw [urisDe, hplaylists, MasterPlaylist.uris, setupMediaPlaylists, List.map_map]
      rfl
    rw [← huris]
    split
    · cases playlists.head? with
      | none => exact congrArg _ (elige_master _ eleccion)
      | some p => exact congrArg _ ((chooseMedia_master _ p.uri).trans (elige_master _ eleccion))
    · exact congrArg _ (elige_master _ eleccion)
  · rename_i hplaylists
    rw [uris_haveMetadata, urisDe, hplaylists]
    rfl

/-- **The playlists of a loader are those that the first answer lists**:
no other step changes which there are. -/
theorem uris_paso (l : PlaylistLoader) (e : Evento) :
    (l.paso location srcUrl e).master.map MasterPlaylist.uris = l.master.map MasterPlaylist.uris ∨
      ∃ responseText eleccion url m, e = .respuesta (some responseText) eleccion ∧
        l.request = some ⟨url, .master⟩ ∧ Parser.parse responseText = some m ∧
        (l.paso location srcUrl e).master.map MasterPlaylist.uris = some (urisDe srcUrl m) := by
  cases e with
  | load => exact .inl (congrArg _ (load_master l))
  | pause => exact .inl (congrArg _ (pause_master l))
  | timeout =>
    refine .inl (congrArg _ ?_)
    simp only [PlaylistLoader.paso]
    split
    · exact mediaUpdate_master _
    · rfl
  | media uri => exact .inl (congrArg _ (chooseMedia_master l uri))
  | respuesta responseText eleccion =>
    simp only [PlaylistLoader.paso]
    unfold PlaylistLoader.respuesta
    split
    · exact .inl rfl
    · exact .inl rfl
    · rename_i url responseText hrequest
      cases hm : Parser.parse responseText with
      | none => exact .inl (by simp only [PlaylistLoader.haveMaster, hm])
      | some m => exact .inr ⟨_, _, url, m, rfl, hrequest, hm, uris_haveMaster l hm eleccion⟩
    · exact .inl rfl
    · cases l.media with
      | none => exact .inl rfl
      | some media => exact .inl (uris_haveMetadata l _ _)
    · exact .inl rfl
    · exact .inl (uris_haveMetadata l _ _)

end Uris

theorem Coherente.of_append {log log' : List Descarga} (h : Coherente (log' ++ log)) : Coherente log :=
  fun x hx y hy => h x (List.mem_append_right _ hx) y (List.mem_append_right _ hy)

theorem Almacen.haveMaster {log : List Descarga} (h : Almacen location log l) (hmaster : l.master = none)
    (hrequest : ∃ url, l.request = some ⟨url, .master⟩) (responseText : String)
    (eleccion : Option String)
    (hlog : Coherente (l.descargas srcUrl (.respuesta (some responseText) eleccion) ++ log)) :
    Almacen location (l.descargas srcUrl (.respuesta (some responseText) eleccion) ++ log)
      (l.haveMaster location srcUrl responseText eleccion) := by
  obtain ⟨url, hrequest⟩ := hrequest
  obtain rfl := h.sinMaster hmaster
  simp only [descargas, destinatario, hrequest, Option.bind_some, List.append_nil] at hlog ⊢
  simp only [PlaylistLoader.haveMaster]
  cases hm : Parser.parse responseText with
  | none => exact ⟨by simp [hmaster], fun _ => rfl⟩
  | some manifest =>
    rw [hm] at hlog
    simp only [Option.bind_some] at hlog ⊢
    cases hplaylists : manifest.playlists with
    | some playlists =>
      rw [if_neg (by simp)]
      have hsetup : MasterGuardado location [] (setupMediaPlaylists location srcUrl playlists) :=
        List.forall_mem_map.2 fun _ _ => guardada_nil _ _
      have hcon {l' : PlaylistLoader}
          (hl' : l'.master = some (setupMediaPlaylists location srcUrl playlists)) :
          Almacen location [] l' := by
        refine ⟨fun master hmem => ?_, fun _ => rfl⟩
        rw [hl'] at hmem
        obtain rfl := Option.some_inj.1 hmem
        exact hsetup
      refine hcon ?_
      simp only
      split
      · cases playlists.head? with
        | none => exact elige_master _ eleccion
        | some p => exact (chooseMedia_master _ p.uri).trans (elige_master _ eleccion)
      · exact elige_master _ eleccion
    | none =>
      rw [hplaylists, if_pos rfl] at hlog
      rw [if_pos rfl]
      refine Almacen.haveMetadata (x := ⟨srcUrl, url, responseText⟩) ⟨fun master hmem => ?_, fun _ => rfl⟩
        (by simp) hlog
      obtain rfl := Option.some_inj.1 hmem
      exact List.forall_mem_singleton.2 (guardada_nil _ _)

theorem Corre.almacen {log : List Descarga} (h : Corre location srcUrl log l) (hlog : Coherente log) :
    Almacen location log l := by
  induction h with
  | inicio => exact ⟨fun _ h => (by cases h), fun _ => rfl⟩
  | @paso log l h e ih =>
    have hantes := ih hlog.of_append
    have hvalido := h.valido
    cases e with
    | load => exact hantes.congr (load_master l)
    | pause => exact hantes.congr (pause_master l)
    | timeout =>
      refine hantes.congr ?_
      simp only [PlaylistLoader.paso]
      split
      · exact mediaUpdate_master _
      · rfl
    | media uri => exact hantes.congr (chooseMedia_master l uri)
    | respuesta responseText eleccion =>
      have hmaster (hmedia : ∃ p, l.media = some p) : l.master ≠ none := by
        obtain ⟨p, hp⟩ := hmedia
        obtain ⟨master, hmaster, -⟩ := hvalido.media p hp
        rw [hmaster]
        simp
      have hnada (hrequest : l.request = none) :
          l.descargas srcUrl (.respuesta responseText eleccion) = [] := by
        cases responseText with
        | none => rfl
        | some responseText => simp [descargas, hrequest]
      simp only [PlaylistLoader.paso]
      unfold PlaylistLoader.respuesta
      split
      · rename_i hrequest
        rw [hnada hrequest]
        exact hantes
      · exact hantes.congr rfl
      · rename_i url responseText hrequest
        have hstate := (hvalido.request _ hrequest).2.1
        exact hantes.haveMaster (hvalido.nada hstate) ⟨url, hrequest⟩ responseText eleccion hlog
      · exact hantes.congr rfl
      · rename_i url responseText hrequest
        cases hmedia : l.media with
        | none =>
          have hvacia : l.descargas srcUrl (.respuesta (some responseText) eleccion) = [] := by
            simp [descargas, destinatario, hrequest, hmedia]
          rw [hvacia]
          exact hantes
        | some media =>
          have hleida : l.descargas srcUrl (.respuesta (some responseText) eleccion) =
              [⟨media.uri, url, responseText⟩] := by
            simp [descargas, destinatario, hrequest, hmedia]
          rw [hleida] at hlog ⊢
          exact Almacen.haveMetadata (x := ⟨media.uri, url, responseText⟩) hantes
            (hmaster ⟨media, hmedia⟩) hlog
      · exact hantes.congr rfl
      · rename_i url uri startingState responseText hrequest
        have hleida : l.descargas srcUrl (.respuesta (some responseText) eleccion) =
            [⟨uri, url, responseText⟩] := by
          simp [descargas, destinatario, hrequest]
        rw [hleida] at hlog ⊢
        exact Almacen.haveMetadata (x := ⟨uri, url, responseText⟩) hantes
          (hvalido.request _ hrequest).2.2.2.1 hlog

/-! ## What is read again -/

/-- What leaves a loader running: no pause, and no answer that fails or
cannot be read. -/
def Sigue : Evento → Prop
  | .pause => False
  | .respuesta responseText _ => ∃ text, responseText = some text ∧ Parser.parse text ≠ none
  | _ => True

variable (location srcUrl) in
def tras (l : PlaylistLoader) (es : List Evento) : PlaylistLoader := es.foldl (paso location srcUrl) l

/-- **A loader that runs**: the playlist that is played is about to be
read again while it is live, and what it waits for is on its way. -/
structure Vigila (l : PlaylistLoader) : Prop where
  media : (l.media.any fun media => !media.endList) = true →
    l.request ≠ none ∨ l.mediaUpdateTimeout = true
  espera : l.state = .switchingMedia ∨ l.state = .haveCurrentMetadata → l.request ≠ none
  maestra : l.state = .haveMaster → l.media = none
  reloj : l.mediaUpdateTimeout = true → l.media ≠ none

theorem Vigila.chooseMedia (h : l.Vigila) (uri : String) : (l.chooseMedia uri).Vigila := by
  unfold PlaylistLoader.chooseMedia
  split
  · exact h
  split
  · exact h
  rename_i playlist _
  split
  · rename_i hend
    exact ⟨fun hlive => by simp [hend] at hlive, fun hno => by simp at hno,
      fun hno => absurd hno (by simp), fun _ => by simp⟩
  split
  · exact h
  split
  · rename_i hurl
    have hrequest : l.request ≠ none := by
      rintro hno
      simp [hno] at hurl
    exact ⟨fun _ => .inl hrequest, fun _ => hrequest, fun hno => absurd hno (by simp), h.reloj⟩
  · exact ⟨fun _ => .inl (by simp), fun _ => by simp, fun hno => absurd hno (by simp), h.reloj⟩

/-- The playlist is live, so it is asked for unless another request is in
flight. -/
theorem Vigila.mediaUpdate (h : l.Vigila) (hvalido : l.Valido location srcUrl)
    (hmedia : l.media ≠ none) :
    ({ l with mediaUpdateTimeout := false }.mediaUpdate location).Vigila := by
  obtain ⟨media, hmedia⟩ := Option.ne_none_iff_exists'.1 hmedia
  obtain ⟨master, hmaster, -⟩ := hvalido.media media hmedia
  replace hmaster : l.master = some master := hmaster
  unfold PlaylistLoader.mediaUpdate
  split
  · rename_i hstate
    have hrequest : l.request ≠ none := by
      cases hs : l.state with
      | haveNothing =>
        rw [hvalido.nada hs] at hmaster
        cases hmaster
      | haveMaster =>
        rw [h.maestra hs] at hmedia
        cases hmedia
      | switchingMedia => exact h.espera (.inl hs)
      | haveMetadata => exact absurd hs hstate
      | haveCurrentMetadata => exact h.espera (.inr hs)
    exact ⟨fun _ => .inl hrequest, fun _ => hrequest, h.maestra, fun hno => absurd hno (by simp)⟩
  · simp only [hmaster, hmedia]
    exact ⟨fun _ => .inl (by simp), fun _ => by simp, fun hno => absurd hno (by simp), fun _ => by simp⟩

theorem playlist_updateMaster {master update : MasterPlaylist} {media : Manifest} {uri : String}
    (h : updateMaster location master media uri = some update) : update.playlist uri ≠ none := by
  rw [updateMaster, Option.bind_eq_some_iff] at h
  obtain ⟨playlist, hplaylist, h⟩ := h
  split at h
  · cases h
  · obtain rfl := Option.some_inj.1 h
    obtain ⟨hmem, huri⟩ := MasterPlaylist.playlist_eq_some hplaylist
    refine Option.isSome_iff_ne_none.1 (List.find?_isSome.2
      ⟨playlist.actualizada location media, List.mem_map.2 ⟨playlist, hmem, if_pos huri⟩, ?_⟩)
    exact decide_eq_true huri

theorem Vigila.haveMetadata {master : MasterPlaylist} (hmaster : l.master = some master)
    (hreloj : l.mediaUpdateTimeout = true → l.media ≠ none) {responseText : String}
    (hread : Parser.parse responseText ≠ none) (url : String) :
    (l.haveMetadata location responseText url).Vigila := by
  obtain ⟨manifest, hmanifest⟩ := Option.ne_none_iff_exists'.1 hread
  have htimeout {l' : PlaylistLoader} (hstate : l'.state = .haveMetadata)
      (hreloj : l'.mediaUpdateTimeout = true → l'.media ≠ none) :
      (if l'.media.any fun media => !media.endList then { l' with mediaUpdateTimeout := true }
        else l').Vigila := by
    split
    · rename_i hlive
      refine ⟨fun _ => .inr rfl, fun hno => by simp [hstate] at hno, fun hno => by simp [hstate] at hno,
        fun _ hno => ?_⟩
      replace hno : l'.media = none := hno
      simp [hno] at hlive
    · rename_i hlive
      exact ⟨fun hno => absurd hno hlive, fun hno => by simp [hstate] at hno,
        fun hno => by simp [hstate] at hno, hreloj⟩
  simp only [PlaylistLoader.haveMetadata, hmanifest, hmaster]
  split
  · rename_i update hupdate
    exact htimeout rfl fun _ => playlist_updateMaster hupdate
  · exact htimeout rfl hreloj

theorem Vigila.elige (h : l.Vigila) (eleccion : Option String) :
    (eleccion.elim l l.chooseMedia).Vigila := by
  cases eleccion with
  | none => exact h
  | some uri => exact h.chooseMedia uri

theorem Vigila.haveMaster (hmedia : l.media = none) (hreloj : l.mediaUpdateTimeout = true → l.media ≠ none)
    {responseText : String} (hread : Parser.parse responseText ≠ none) (eleccion : Option String) :
    (l.haveMaster location srcUrl responseText eleccion).Vigila := by
  obtain ⟨manifest, hmanifest⟩ := Option.ne_none_iff_exists'.1 hread
  have hsin {l' : PlaylistLoader} (hmedia' : l'.media = none) (hstate : l'.state = .haveMaster)
      (hreloj' : l'.mediaUpdateTimeout = true → l'.media ≠ none) : l'.Vigila :=
    ⟨fun hlive => by simp [hmedia'] at hlive, fun hno => by simp [hstate] at hno, fun _ => hmedia',
      hreloj'⟩
  simp only [PlaylistLoader.haveMaster, hmanifest]
  split
  · have helegida (playlists : List CurrentUri) := (@hsin { l with
      request := none
      state := .haveMaster
      master := some (setupMediaPlaylists location srcUrl playlists) } hmedia rfl hreloj).elige eleccion
    split
    · rename_i playlists _ _
      cases playlists.head? with
      | none => exact helegida playlists
      | some p => exact (helegida playlists).chooseMedia p.uri
    · exact helegida _
  · exact @haveMetadata _ { l with
      request := none
      state := .haveMaster
      master := some ⟨location, [.sinLeer srcUrl srcUrl]⟩ } _ rfl hreloj _ hread srcUrl

/-- **What does not stop a loader leaves it running.** -/
theorem Vigila.paso (h : l.Vigila) (hvalido : l.Valido location srcUrl) {e : Evento} (he : Sigue e) :
    (l.paso location srcUrl e).Vigila := by
  cases e with
  | load =>
    simp only [PlaylistLoader.paso, PlaylistLoader.load]
    split
    · exact ⟨fun _ => .inl (by simp [start]), fun _ => by simp [start], h.maestra,
        fun hno => absurd hno (by simp [start])⟩
    · split
      · rename_i hlive
        refine h.mediaUpdate hvalido ?_
        rintro hno
        simp [hno] at hlive
      · rename_i hlive
        exact ⟨fun hno => absurd hno hlive, h.espera, h.maestra, fun hno => absurd hno (by simp)⟩
  | pause => exact he.elim
  | timeout =>
    simp only [PlaylistLoader.paso]
    split
    · exact h.mediaUpdate hvalido (h.reloj ‹_›)
    · exact h
  | media uri => exact h.chooseMedia uri
  | respuesta responseText eleccion =>
    obtain ⟨text, rfl, hread⟩ := he
    simp only [PlaylistLoader.paso]
    unfold PlaylistLoader.respuesta
    have hcon {master : Option MasterPlaylist} (hmaster : l.master = master) (hne : master ≠ none)
        (url : String) : (l.haveMetadata location text url).Vigila := by
      obtain ⟨master, rfl⟩ := Option.ne_none_iff_exists'.1 hne
      exact .haveMetadata hmaster h.reloj hread url
    cases hrequest : l.request with
    | none => exact h
    | some r =>
      obtain ⟨url, destino⟩ := r
      have hvalida := hvalido.request _ hrequest
      cases destino with
      | master =>
        exact .haveMaster (hvalido.media_eq_none (hvalido.nada hvalida.2.1)) h.reloj hread eleccion
      | refresh =>
        obtain ⟨-, media, hmedia, -⟩ := hvalida.2
        obtain ⟨master, hmaster, -⟩ := hvalido.media media hmedia
        simp only [Option.mem_def.1 hmedia]
        exact hcon hmaster (by simp) media.uri
      | switching uri startingState => exact hcon rfl hvalida.2.2.2.1 uri

/-- **A live playlist is read again and again**: as long as nothing fails
and the player does not pause, it is asked for or waits to be. -/
theorem vigila_tras (location srcUrl : String) {es : List Evento} (hes : ∀ e ∈ es, Sigue e) :
    (inicial.tras location srcUrl es).Vigila := by
  have hinicial : inicial.Vigila :=
    ⟨fun hno => absurd hno (by decide), fun hno => absurd hno (by simp [inicial]), fun _ => rfl,
      fun hno => absurd hno (by decide)⟩
  have hvalido : inicial.Valido location srcUrl := Corre.inicio.valido
  generalize inicial = l at hinicial hvalido
  induction es generalizing l with
  | nil => exact hinicial
  | cons e es ih =>
    rw [List.forall_mem_cons] at hes
    exact ih hes.2 _ (hinicial.paso hvalido hes.1) (hvalido.paso e)

/-- A master with two variants. -/
def maestraDoble : String :=
  "#EXTM3U\n#EXT-X-STREAM-INF:BANDWIDTH=500000 \n500.m3u8\n#EXT-X-STREAM-INF:BANDWIDTH=900000 \n900.m3u8\n\n"

/-- The first one is played once it is read, and the other one is chosen
meanwhile. -/
def cambioDoble : List Evento := [.load, .respuesta (some maestraDoble) (some "500.m3u8"), .media "900.m3u8"]

theorem vigila_cambioDoble :
    (inicial.tras "https://localhost/index.html" "https://localhost/hls.m3u8" cambioDoble).Vigila :=
  vigila_tras _ _ (List.forall_mem_cons.2 ⟨trivial, List.forall_mem_cons.2
    ⟨⟨maestraDoble, rfl, by decide +kernel⟩, List.forall_mem_singleton.2 trivial⟩⟩)

/-! ## A switch that fails -/

/-- A loader that waits for an answer when none is on its way. -/
structure Atascado (l : PlaylistLoader) : Prop where
  state : l.state = .switchingMedia ∨ l.state = .haveCurrentMetadata
  started : l.started = true
  request : l.request = none

/-- What reads nothing by itself: the playlist that is played is asked for
or chosen again, or an answer comes that nothing waits for. -/
def Inutil (media : Option MediaPlaylist) : Evento → Prop
  | .pause => False
  | .media uri => ∃ p ∈ media, p.uri = uri ∧ p.endList = false
  | _ => True

theorem mediaUpdate_of_ne (h : l.state ≠ .haveMetadata) : l.mediaUpdate location = l := if_pos h

/-- **A loader that is stuck stays so.** -/
theorem Atascado.paso (h : l.Atascado) (hvalido : l.Valido location srcUrl) {e : Evento}
    (he : Inutil l.media e) :
    (l.paso location srcUrl e).Atascado ∧ (l.paso location srcUrl e).media = l.media := by
  have hmetadata : l.state ≠ .haveMetadata := by rcases h.state with hs | hs <;> simp [hs]
  have hnada : l.state ≠ .haveNothing := by rcases h.state with hs | hs <;> simp [hs]
  have htimeout : { l with mediaUpdateTimeout := false }.Atascado := ⟨h.state, h.started, h.request⟩
  have hupdate : { l with mediaUpdateTimeout := false }.mediaUpdate location =
      { l with mediaUpdateTimeout := false } := mediaUpdate_of_ne hmetadata
  cases e with
  | load =>
    have hload : l.load location srcUrl = { l with mediaUpdateTimeout := false } := by
      have hstarted : (!l.started) = false := by rw [h.started]; rfl
      simp only [PlaylistLoader.load, hstarted, Bool.false_eq_true, if_false, hupdate, ite_self]
    rw [PlaylistLoader.paso, hload]
    exact ⟨htimeout, rfl⟩
  | pause => exact he.elim
  | timeout =>
    rw [PlaylistLoader.paso]
    split
    · rw [hupdate]
      exact ⟨htimeout, rfl⟩
    · exact ⟨h, rfl⟩
  | media uri =>
    obtain ⟨p, hp, rfl, hend⟩ := he
    obtain ⟨master, hmaster, hplaylist⟩ := hvalido.media p hp
    have hmedia : (l.media.any fun media => decide (media.uri = p.uri)) = true := by
      rw [Option.mem_def.1 hp]
      simp
    have hchoose : l.chooseMedia p.uri = l := by
      unfold PlaylistLoader.chooseMedia
      rw [if_neg hnada, Option.mem_def.1 hmaster, Option.bind_some, hplaylist]
      simp only [hend, Bool.false_eq_true, if_false, if_pos hmedia]
    rw [PlaylistLoader.paso, hchoose]
    exact ⟨h, rfl⟩
  | respuesta responseText eleccion =>
    have hrespuesta : l.respuesta location srcUrl responseText eleccion = l := by
      unfold PlaylistLoader.respuesta
      rw [h.request]
    rw [PlaylistLoader.paso, hrespuesta]
    exact ⟨h, rfl⟩

theorem Atascado.tras (h : l.Atascado) (hvalido : l.Valido location srcUrl) {es : List Evento}
    (hes : ∀ e ∈ es, Inutil l.media e) : (l.tras location srcUrl es).Atascado := by
  induction es generalizing l with
  | nil => exact h
  | cons e es ih =>
    rw [List.forall_mem_cons] at hes
    obtain ⟨hpaso, hmedia⟩ := h.paso hvalido hes.1
    exact ih hpaso (hvalido.paso e) (by rw [hmedia]; exact hes.2)

theorem Valido.tras (h : l.Valido location srcUrl) (es : List Evento) :
    (l.tras location srcUrl es).Valido location srcUrl := by
  induction es generalizing l with
  | nil => exact h
  | cons e es ih => exact ih (h.paso e)

/-- **When a switch that fails stops the loader**: exactly when it was
begun over another switch or over a refresh. The loader goes back to
waiting for an answer that was given up, and nothing but a pause or
another choice makes it go on. -/
theorem atascado_iff (location srcUrl : String) {antes : List Evento} {url uri : String}
    {startingState : LoaderState}
    (hrequest : (inicial.tras location srcUrl antes).request = some ⟨url, .switching uri startingState⟩)
    (eleccion : Option String) :
    (∀ es, (∀ e ∈ es, Inutil (inicial.tras location srcUrl antes).media e) →
      (inicial.tras location srcUrl (antes ++ .respuesta none eleccion :: es)).Atascado) ↔
    startingState = .switchingMedia ∨ startingState = .haveCurrentMetadata := by
  have hvalido : (inicial.tras location srcUrl antes).Valido location srcUrl := Corre.inicio.valido.tras antes
  have htras (es : List Evento) : inicial.tras location srcUrl (antes ++ .respuesta none eleccion :: es) =
      (((inicial.tras location srcUrl antes).paso location srcUrl (.respuesta none eleccion)).tras location
        srcUrl es) := by
    simp only [tras, List.foldl_append, List.foldl_cons]
  simp only [htras]
  generalize inicial.tras location srcUrl antes = l at hrequest hvalido
  have hfalla : l.paso location srcUrl (.respuesta none eleccion) = l.playlistRequestError startingState := by
    rw [PlaylistLoader.paso]
    unfold PlaylistLoader.respuesta
    rw [hrequest]
  rw [hfalla]
  refine ⟨fun h => (h [] (List.forall_mem_nil _)).state, fun hstate es hes => ?_⟩
  have hatascado : (l.playlistRequestError startingState).Atascado :=
    ⟨hstate, (hvalido.request _ hrequest).1, rfl⟩
  exact hatascado.tras (hfalla ▸ hvalido.paso (.respuesta none eleccion)) hes

theorem request_cambioDoble :
    (inicial.tras "https://localhost/index.html" "https://localhost/hls.m3u8" cambioDoble).request =
      some ⟨"https://localhost/900.m3u8", .switching "900.m3u8" .switchingMedia⟩ := by
  decide +kernel

/-- The second choice fails. -/
theorem atascado_cambioDoble :
    (inicial.tras "https://localhost/index.html" "https://localhost/hls.m3u8"
      (cambioDoble ++ [.respuesta none none, .timeout, .load])).Atascado :=
  (atascado_iff _ _ request_cambioDoble none).2 (.inl rfl) [.timeout, .load]
    (List.forall_mem_cons.2 ⟨trivial, List.forall_mem_singleton.2 trivial⟩)

end Corre

end PlaylistLoader

end HlsXcoder
