import HlsXcoder.Web.M3u8Parser
import HlsXcoder.Web.UrlToolkit

/-!
# The playlist loader of the player

The loader reads the master playlist, then the media playlist the player
has chosen, and reads that again and again while it is live. What it
reads is merged into what it has: a segment that both playlists number
keeps the address it was resolved to before (`updateSegments`).

One request is in flight at a time, and its answer is stored where it was
asked for (`Corre.valido`), whatever is chosen, paused or lost meanwhile.
So a playlist the loader has is the one that was last read at its address
(`Corre.almacen`), as long as the numbers of the segments stand for the
same segments there.

The loader is a pure step function. An exception leaves it as it was when
it was thrown. Left out are redirects, encryption, the timers of a last
rendition, whose effects are those of a later call, and a map without an
address.
-/

namespace HlsXcoder

/-! ## What the loader has -/

/-- A segment, as it was read, and the addresses that it and the file it
starts with were resolved to. -/
structure Segmento where
  leido : CurrentUri
  resolvedUri : Option String
  mapResolvedUri : Option String
  deriving DecidableEq, Repr

/-- A playlist of the master, with its segments once they have been
read. -/
structure MediaPlaylist where
  uri : String
  resolvedUri : String
  segments : Option (List Segmento)
  mediaSequence : Option ℤ
  targetDuration : Option ℤ
  endList : Bool
  deriving DecidableEq, Repr

def MediaPlaylist.sinLeer (uri resolvedUri : String) : MediaPlaylist :=
  ⟨uri, resolvedUri, none, none, none, false⟩

structure MasterPlaylist where
  uri : String
  playlists : List MediaPlaylist
  deriving DecidableEq, Repr

/-- The playlist of an address. -/
def MasterPlaylist.playlist (master : MasterPlaylist) (uri : String) : Option MediaPlaylist :=
  master.playlists.find? fun p => p.uri = uri

/-- The addresses of its playlists, as it gives them. -/
def MasterPlaylist.uris (master : MasterPlaylist) : List String := master.playlists.map MediaPlaylist.uri

/-! ## Merging -/

/-- What `mergeOptions` leaves of a segment: what it now says, and of
what it does not say what was there. -/
def CurrentUri.sobre (update original : CurrentUri) : CurrentUri where
  uri := update.uri
  duration := update.duration.or original.duration
  attributes := update.attributes.elim original.attributes fun as =>
    some (as ++ (original.attributes.getD []).filter fun a => (as.get a.1).isNone)
  discontinuity := update.discontinuity || original.discontinuity
  timeline := update.timeline
  map := update.map.elim original.map fun uri => some (uri.or (original.map.bind id))

/-- A segment over the one that stood in its place, if any. -/
def mergeSegmento (original : Option Segmento) (update : CurrentUri) : Segmento :=
  match original with
  | none => ⟨update, none, none⟩
  | some original => { original with leido := update.sobre original.leido }

/-- **The segments of an update**, each over the original of its place,
which is further on by the offset. -/
def updateSegments (original : List Segmento) (update : List CurrentUri) (offset : ℤ) :
    List Segmento :=
  update.mapIdx fun i segment =>
    mergeSegmento (if 0 ≤ i + offset then original[(i + offset).toNat]? else none) segment

section Direcciones

variable (location : String)

def resolveSegmentUris (baseUri : String) (segment : Segmento) : Segmento :=
  { segment with
    resolvedUri := some (segment.resolvedUri.getD (resolveUrl location baseUri segment.leido.uri))
    mapResolvedUri := segment.mapResolvedUri.or
      ((segment.leido.map.bind id).map (resolveUrl location baseUri)) }

/-- The segments of a playlist that was read, with their addresses. -/
def MediaPlaylist.actualizada (playlist : MediaPlaylist) (media : Manifest) : MediaPlaylist :=
  let segments := match playlist.segments with
    | none => media.segments.map (mergeSegmento none)
    | some original => updateSegments original media.segments
      ((media.mediaSequence.bind fun n => playlist.mediaSequence.map (n - ·)).getD 0)
  { playlist with
    segments := some (segments.map (resolveSegmentUris location playlist.resolvedUri))
    mediaSequence := media.mediaSequence.or playlist.mediaSequence
    targetDuration := media.targetDuration.or playlist.targetDuration
    endList := media.endList || playlist.endList }

/-- Whether a playlist seems the same: as many segments, from the same
number on, and the same end. -/
def MediaPlaylist.sinCambios (playlist : MediaPlaylist) (media : Manifest) : Bool :=
  playlist.segments.any fun segments => segments.length = media.segments.length ∧
    playlist.endList = media.endList ∧ playlist.mediaSequence = media.mediaSequence

/-- **The master with an update**, none where it changes nothing. -/
def updateMaster (master : MasterPlaylist) (media : Manifest) (uri : String) :
    Option MasterPlaylist :=
  (master.playlist uri).bind fun playlist =>
    if playlist.sinCambios media then none
    else
      let mergedPlaylist := playlist.actualizada location media
      some { master with
        playlists := master.playlists.map fun p => if p.uri = uri then mergedPlaylist else p }

/-- The playlists of a master, at their addresses. -/
def setupMediaPlaylists (uri : String) (playlists : List CurrentUri) : MasterPlaylist where
  uri := uri
  playlists := playlists.map fun p => .sinLeer p.uri (resolveUrl location uri p.uri)

end Direcciones

/-! ## The states of the loader -/

inductive LoaderState where
  | haveNothing
  | haveMaster
  | switchingMedia
  | haveMetadata
  | haveCurrentMetadata
  deriving DecidableEq, Repr

/-- What an answer is for: it is the master, the playlist that is played,
read again, or another playlist. -/
inductive Destino where
  | master
  | refresh
  | switching (uri : String) (startingState : LoaderState)
  deriving DecidableEq, Repr

structure Request where
  url : String
  destino : Destino
  deriving DecidableEq, Repr

/-- `media` is the playlist that is played, and `mediaUpdateTimeout` says
whether it waits to be read again. -/
structure PlaylistLoader where
  state : LoaderState
  started : Bool
  master : Option MasterPlaylist
  media : Option MediaPlaylist
  request : Option Request
  mediaUpdateTimeout : Bool
  deriving DecidableEq, Repr

/-- What happens to a loader. An answer has no text where the request
failed, and where it is a master the player may choose a playlist of it
at once. -/
inductive Evento where
  | load
  | pause
  | timeout
  | media (uri : String)
  | respuesta (responseText : Option String) (eleccion : Option String)
  deriving DecidableEq, Repr

namespace PlaylistLoader

def inicial : PlaylistLoader := ⟨.haveNothing, false, none, none, none, false⟩

section Pasos

variable (location srcUrl : String)

/-- A media playlist has been read: it is merged into the master and, if
anything changed, it is the one that is played. While the one that is
played is live it is read again later. -/
def haveMetadata (l : PlaylistLoader) (responseText url : String) : PlaylistLoader :=
  let l := { l with request := none, state := .haveMetadata }
  match Parser.parse responseText, l.master with
  | some manifest, some master =>
    let l := match updateMaster location master manifest url with
      | some update => { l with master := some update, media := update.playlist url }
      | none => l
    if l.media.any fun media => !media.endList then { l with mediaUpdateTimeout := true } else l
  | _, _ => l

def playlistRequestError (l : PlaylistLoader) (startingState : LoaderState) : PlaylistLoader :=
  { l with request := none, state := startingState }

/-- **A playlist is chosen.** Nothing is read where all of it has been, or
where it is the one that is played. A request that is in flight is
aborted, but for one for the same address. -/
def chooseMedia (l : PlaylistLoader) (uri : String) : PlaylistLoader :=
  if l.state = .haveNothing then l
  else
    match l.master.bind (·.playlist uri) with
    | none => l
    | some playlist =>
      if playlist.endList then
        { l with request := none, state := .haveMetadata, media := some playlist }
      else if l.media.any fun media => media.uri = uri then l
      else if l.request.any fun r => r.url = playlist.resolvedUri then
        { l with state := .switchingMedia }
      else
        { l with
          request := some ⟨playlist.resolvedUri, .switching uri l.state⟩
          state := .switchingMedia }

/-- The playlist that is played is read again. -/
def mediaUpdate (l : PlaylistLoader) : PlaylistLoader :=
  if l.state ≠ .haveMetadata then l
  else
    let l := { l with state := .haveCurrentMetadata }
    match l.master, l.media with
    | some master, some media =>
      { l with request := some ⟨resolveUrl location master.uri media.uri, .refresh⟩ }
    | _, _ => l

def start (l : PlaylistLoader) : PlaylistLoader :=
  { l with started := true, request := some ⟨srcUrl, .master⟩ }

def load (l : PlaylistLoader) : PlaylistLoader :=
  let l := { l with mediaUpdateTimeout := false }
  if !l.started then l.start srcUrl
  else if l.media.any fun media => !media.endList then l.mediaUpdate location
  else l

def pause (l : PlaylistLoader) : PlaylistLoader :=
  let l := { l with request := none, mediaUpdateTimeout := false }
  match l.state with
  | .haveNothing => { l with started := false }
  | .switchingMedia => { l with state := if l.media.isSome then .haveMetadata else .haveMaster }
  | .haveCurrentMetadata => { l with state := .haveMetadata }
  | _ => l

/-- The first playlist has been read. It is a master, or the only media
playlist there is. -/
def haveMaster (l : PlaylistLoader) (responseText : String) (eleccion : Option String) :
    PlaylistLoader :=
  let l := { l with request := none }
  match Parser.parse responseText with
  | none => l
  | some manifest =>
    let l := { l with state := .haveMaster }
    match manifest.playlists with
    | some playlists =>
      let l := { l with master := some (setupMediaPlaylists location srcUrl playlists) }
      let l := eleccion.elim l l.chooseMedia
      if l.request = none then playlists.head?.elim l fun p => l.chooseMedia p.uri else l
    | none =>
      { l with master := some ⟨location, [.sinLeer srcUrl srcUrl]⟩ }.haveMetadata location
        responseText srcUrl

/-- The answer to the request that is in flight. -/
def respuesta (l : PlaylistLoader) (responseText : Option String) (eleccion : Option String) :
    PlaylistLoader :=
  match l.request, responseText with
  | none, _ => l
  | some ⟨_, .master⟩, none =>
    { l with request := none, started := l.started && l.state ≠ .haveNothing }
  | some ⟨_, .master⟩, some responseText => l.haveMaster location srcUrl responseText eleccion
  | some ⟨_, .refresh⟩, none => l.playlistRequestError .haveMetadata
  | some ⟨_, .refresh⟩, some responseText =>
    l.media.elim l fun media => l.haveMetadata location responseText media.uri
  | some ⟨_, .switching _ startingState⟩, none => l.playlistRequestError startingState
  | some ⟨_, .switching uri _⟩, some responseText => l.haveMetadata location responseText uri

/-- **One step of the loader.** -/
def paso (l : PlaylistLoader) : Evento → PlaylistLoader
  | .load => l.load location srcUrl
  | .pause => l.pause
  | .timeout =>
    if l.mediaUpdateTimeout then { l with mediaUpdateTimeout := false }.mediaUpdate location else l
  | .media uri => l.chooseMedia uri
  | .respuesta responseText eleccion => l.respuesta location srcUrl responseText eleccion

end Pasos

end PlaylistLoader

/-! ## Runs -/

/-- A text that was read, the playlist it is stored as, and the address it
was asked for at. -/
structure Descarga where
  uri : String
  url : String
  responseText : String
  deriving DecidableEq, Repr

namespace PlaylistLoader

section Corre

variable (location srcUrl : String)

/-- Where an answer would be stored. -/
def destinatario (l : PlaylistLoader) (responseText : String) : Option String :=
  l.request.bind fun r => match r.destino with
    | .master => (Parser.parse responseText).bind fun manifest =>
      if manifest.playlists = none then some srcUrl else none
    | .refresh => l.media.map MediaPlaylist.uri
    | .switching uri _ => some uri

/-- What is read as a media playlist in a step. -/
def descargas (l : PlaylistLoader) : Evento → List Descarga
  | .respuesta (some responseText) _ =>
    (l.request.bind fun r => (l.destinatario srcUrl responseText).map fun uri =>
      ⟨uri, r.url, responseText⟩).toList
  | _ => []

/-- **The runs of a loader**, with what was read. -/
inductive Corre : List Descarga → PlaylistLoader → Prop
  | inicio : Corre [] .inicial
  | paso {log l} (h : Corre log l) (e : Evento) :
      Corre (l.descargas srcUrl e ++ log) (l.paso location srcUrl e)

/-! ## Where answers are stored -/

/-- The addresses a playlist is asked for at: its own against that of the
master or, where the first address is that of the only playlist, that
one. -/
def EsDireccion (uri url : String) : Prop :=
  url = resolveUrl location srcUrl uri ∨
    uri = srcUrl ∧ (url = srcUrl ∨ url = resolveUrl location location srcUrl)

structure MasterValido (master : MasterPlaylist) : Prop where
  uri : master.uri = srcUrl ∨ master.uri = location ∧ ∀ p ∈ master.playlists, p.uri = srcUrl
  playlists : ∀ p ∈ master.playlists, EsDireccion location srcUrl p.uri p.resolvedUri

/-- A request that is in flight: its answer will be stored where it was
asked for. -/
def RequestValida (l : PlaylistLoader) (r : Request) : Prop :=
  match r.destino with
  | .master => l.state = .haveNothing ∧ r.url = srcUrl
  | .refresh => (l.state = .switchingMedia ∨ l.state = .haveCurrentMetadata) ∧
    ∃ p ∈ l.media, EsDireccion location srcUrl p.uri r.url
  | .switching uri startingState => l.state = .switchingMedia ∧ startingState ≠ .haveNothing ∧
    l.master ≠ none ∧ EsDireccion location srcUrl uri r.url

/-- **A loader at any time.** -/
structure Valido (l : PlaylistLoader) : Prop where
  master : ∀ master ∈ l.master, MasterValido location srcUrl master
  media : ∀ p ∈ l.media, ∃ master ∈ l.master, master.playlist p.uri = some p
  nada : l.state = .haveNothing → l.master = none
  started : l.state ≠ .haveNothing → l.started = true
  request : ∀ r ∈ l.request, l.started = true ∧ RequestValida location srcUrl l r

variable {location srcUrl} {l : PlaylistLoader}

theorem MasterPlaylist.playlist_eq_some {master : MasterPlaylist} {uri : String} {p : MediaPlaylist}
    (h : master.playlist uri = some p) : p ∈ master.playlists ∧ p.uri = uri :=
  ⟨List.mem_of_find?_eq_some h, by simpa using List.find?_some h⟩

theorem MasterValido.direccion {master : MasterPlaylist} (h : MasterValido location srcUrl master)
    {p : MediaPlaylist} (hp : p ∈ master.playlists) :
    EsDireccion location srcUrl p.uri (resolveUrl location master.uri p.uri) := by
  rcases h.uri with huri | ⟨huri, hall⟩
  · exact .inl (by rw [huri])
  · exact .inr ⟨hall p hp, .inr (by rw [huri, hall p hp])⟩

theorem MasterValido.updateMaster {master update : MasterPlaylist}
    (h : MasterValido location srcUrl master) {media : Manifest} {uri : String}
    (hupdate : updateMaster location master media uri = some update) :
    MasterValido location srcUrl update := by
  rw [HlsXcoder.updateMaster, Option.bind_eq_some_iff] at hupdate
  obtain ⟨playlist, hplaylist, hupdate⟩ := hupdate
  split at hupdate
  · cases hupdate
  · obtain rfl := Option.some_inj.1 hupdate
    obtain ⟨hmem, huri⟩ := MasterPlaylist.playlist_eq_some hplaylist
    have hmerged : EsDireccion location srcUrl (playlist.actualizada location media).uri
        (playlist.actualizada location media).resolvedUri := h.playlists playlist hmem
    refine ⟨?_, List.forall_mem_map.2 fun p hp => ?_⟩
    · rcases h.uri with huri | ⟨hlocation, hall⟩
      · exact .inl huri
      · refine .inr ⟨hlocation, List.forall_mem_map.2 fun p hp => ?_⟩
        split
        · exact hall playlist hmem
        · exact hall p hp
    · split
      · exact hmerged
      · exact h.playlists p hp

/-- A loader without a request is as its master and its media are. -/
theorem Valido.libre {l' : PlaylistLoader}
    (hmaster : ∀ master ∈ l'.master, MasterValido location srcUrl master)
    (hmedia : ∀ p ∈ l'.media, ∃ master ∈ l'.master, master.playlist p.uri = some p)
    (hstate : l'.state ≠ .haveNothing) (hstarted : l'.started = true) (hrequest : l'.request = none) :
    l'.Valido location srcUrl :=
  ⟨hmaster, hmedia, fun h => absurd h hstate, fun _ => hstarted, fun r hr => by
    rw [hrequest] at hr
    cases hr⟩

theorem Valido.haveMetadata (h : l.Valido location srcUrl) (hstarted : l.started = true)
    (responseText url : String) :
    (l.haveMetadata location responseText url).Valido location srcUrl := by
  have hlibre : { l with request := none, state := .haveMetadata }.Valido location srcUrl :=
    .libre h.master h.media (by simp) hstarted rfl
  have htimeout {l' : PlaylistLoader} (hl' : l'.Valido location srcUrl) (hrequest : l'.request = none)
      (hstate : l'.state ≠ .haveNothing) :
      (if l'.media.any fun media => !media.endList then { l' with mediaUpdateTimeout := true }
        else l').Valido location srcUrl := by
    split
    · exact .libre hl'.master hl'.media hstate (hl'.started hstate) hrequest
    · exact hl'
  simp only [PlaylistLoader.haveMetadata]
  split
  · rename_i manifest master hmanifest hmaster
    split
    · rename_i update hupdate
      refine htimeout (.libre ?_ ?_ (by simp) hstarted rfl) rfl (by simp)
      · intro master' hmaster'
        obtain rfl := Option.some_inj.1 hmaster'
        exact (h.master master hmaster).updateMaster hupdate
      · intro p hp
        exact ⟨update, rfl, by rw [(MasterPlaylist.playlist_eq_some hp).2]; exact hp⟩
    · exact htimeout hlibre rfl (by simp)
  · exact hlibre

theorem Valido.chooseMedia (h : l.Valido location srcUrl) (uri : String) :
    (l.chooseMedia uri).Valido location srcUrl := by
  rw [PlaylistLoader.chooseMedia]
  split
  · exact h
  rename_i hstate
  have hstarted := h.started hstate
  split
  · exact h
  rename_i playlist hplaylist
  obtain ⟨master, hmaster, hplaylist⟩ := Option.bind_eq_some_iff.1 hplaylist
  obtain ⟨hmem, huri⟩ := MasterPlaylist.playlist_eq_some hplaylist
  split
  · -- the playlist has been read to its end
    refine .libre h.master (fun p hp => ?_) (by simp) hstarted rfl
    obtain rfl := Option.some_inj.1 hp
    exact ⟨master, hmaster, by rw [huri]; exact hplaylist⟩
  split
  · exact h
  split
  · -- the request in flight stays, with what it is for
    refine ⟨h.master, h.media, fun hno => absurd hno (by simp), fun _ => hstarted, fun r hr => ?_⟩
    obtain ⟨-, hr'⟩ := h.request r hr
    refine ⟨hstarted, ?_⟩
    rw [RequestValida] at hr' ⊢
    split at hr'
    · exact absurd hr'.1 hstate
    · exact ⟨.inl rfl, hr'.2⟩
    · exact ⟨rfl, hr'.2⟩
  · refine ⟨h.master, h.media, fun hno => absurd hno (by simp), fun _ => hstarted, fun r hr => ?_⟩
    obtain rfl := Option.some_inj.1 hr
    refine ⟨hstarted, rfl, hstate, Option.ne_none_iff_exists'.2 ⟨master, hmaster⟩, ?_⟩
    rw [← huri]
    exact (h.master master hmaster).playlists playlist hmem

theorem Valido.mediaUpdate (h : l.Valido location srcUrl) :
    (l.mediaUpdate location).Valido location srcUrl := by
  rw [PlaylistLoader.mediaUpdate]
  split
  · exact h
  rename_i hstate
  have hmetadata : l.state = .haveMetadata := of_not_not hstate
  have hstarted := h.started (by rw [hmetadata]; simp)
  have hno (r : Request) (hr : r ∈ l.request) : False := by
    have hvalida := (h.request r hr).2
    rw [RequestValida, hmetadata] at hvalida
    split at hvalida
    · cases hvalida.1
    · rcases hvalida.1 with hvalida | hvalida <;> cases hvalida
    · cases hvalida.1
  simp only
  split
  · rename_i master media hmaster hmedia
    refine ⟨h.master, h.media, fun hno => absurd hno (by simp), fun _ => hstarted, fun r hr => ?_⟩
    obtain rfl := Option.some_inj.1 hr
    obtain ⟨master', hmaster', hplaylist⟩ := h.media media hmedia
    obtain rfl := Option.some_inj.1 (hmaster.symm.trans hmaster')
    exact ⟨hstarted, .inr rfl, media, hmedia,
      (h.master master hmaster).direccion (MasterPlaylist.playlist_eq_some hplaylist).1⟩
  · exact ⟨h.master, h.media, fun hno => absurd hno (by simp), fun _ => hstarted,
      fun r hr => (hno r hr).elim⟩

theorem Valido.sinTimeout (h : l.Valido location srcUrl) (b : Bool) :
    { l with mediaUpdateTimeout := b }.Valido location srcUrl :=
  ⟨h.master, h.media, h.nada, h.started, h.request⟩

theorem Valido.load (h : l.Valido location srcUrl) :
    (l.load location srcUrl).Valido location srcUrl := by
  simp only [PlaylistLoader.load]
  split
  · rename_i hstarted
    have hnada : l.state = .haveNothing := by
      by_contra hno
      simp [h.started hno] at hstarted
    refine ⟨h.master, h.media, h.nada, fun _ => rfl, fun r hr => ?_⟩
    obtain rfl := Option.some_inj.1 hr
    exact ⟨rfl, hnada, rfl⟩
  · split
    · exact (h.sinTimeout false).mediaUpdate
    · exact h.sinTimeout false

theorem Valido.pause (h : l.Valido location srcUrl) : l.pause.Valido location srcUrl := by
  have hlibre {l' : PlaylistLoader} (hmaster : l'.master = l.master) (hmedia : l'.media = l.media)
      (hrequest : l'.request = none) (hnada : l'.state = .haveNothing → l.state = .haveNothing)
      (hstarted : l'.state ≠ .haveNothing → l'.started = true) : l'.Valido location srcUrl :=
    ⟨by rw [hmaster]; exact h.master, by rw [hmaster, hmedia]; exact h.media,
      fun hno => by rw [hmaster]; exact h.nada (hnada hno), hstarted,
      fun r hr => by rw [hrequest] at hr; cases hr⟩
  have hstarted (hne : l.state ≠ .haveNothing) := h.started hne
  simp only [PlaylistLoader.pause]
  split
  · rename_i hstate
    exact hlibre rfl rfl rfl (fun _ => hstate) fun hno => absurd hstate hno
  · rename_i hstate
    refine hlibre rfl rfl rfl (fun hno => ?_) fun _ => hstarted (by rw [hstate]; simp)
    simp only at hno
    split at hno <;> cases hno
  · rename_i hstate
    exact hlibre rfl rfl rfl (fun hno => absurd hno (by simp)) fun _ => hstarted (by rw [hstate]; simp)
  · exact hlibre rfl rfl rfl id h.started

theorem masterValido_setup (playlists : List CurrentUri) :
    MasterValido location srcUrl (setupMediaPlaylists location srcUrl playlists) :=
  ⟨.inl rfl, List.forall_mem_map.2 fun _ _ => .inl rfl⟩

theorem masterValido_unico :
    MasterValido location srcUrl ⟨location, [.sinLeer srcUrl srcUrl]⟩ :=
  ⟨.inr ⟨rfl, List.forall_mem_singleton.2 rfl⟩, List.forall_mem_singleton.2 (.inr ⟨rfl, .inl rfl⟩)⟩

theorem Valido.media_eq_none (h : l.Valido location srcUrl) (hmaster : l.master = none) :
    l.media = none := by
  cases hmedia : l.media with
  | none => rfl
  | some p =>
    obtain ⟨master, hmem, -⟩ := h.media p hmedia
    rw [hmaster] at hmem
    cases hmem

theorem Valido.elige (h : l.Valido location srcUrl) (eleccion : Option String) :
    (eleccion.elim l l.chooseMedia).Valido location srcUrl := by
  cases eleccion with
  | none => exact h
  | some uri => exact h.chooseMedia uri

theorem Valido.haveMaster (h : l.Valido location srcUrl) (hstate : l.state = .haveNothing)
    (hstarted : l.started = true) (responseText : String) (eleccion : Option String) :
    (l.haveMaster location srcUrl responseText eleccion).Valido location srcUrl := by
  have hmaster := h.nada hstate
  have hmedia := h.media_eq_none hmaster
  have hcon {master : MasterPlaylist} (hvalido : MasterValido location srcUrl master) :
      { l with request := none, state := .haveMaster, master := some master }.Valido location
        srcUrl := by
    refine .libre (fun master' hmaster' => ?_) (fun p hp => ?_) (by simp) hstarted rfl
    · obtain rfl := Option.some_inj.1 hmaster'
      exact hvalido
    · rw [hmedia] at hp
      cases hp
  simp only [PlaylistLoader.haveMaster]
  split
  · refine ⟨h.master, h.media, h.nada, fun _ => hstarted, fun r hr => by cases hr⟩
  · split
    · rename_i playlists _
      have helegida := (hcon (masterValido_setup playlists)).elige eleccion
      split
      · cases playlists.head? with
        | none => exact helegida
        | some p => exact helegida.chooseMedia p.uri
      · exact helegida
    · exact (hcon masterValido_unico).haveMetadata hstarted _ _

theorem Valido.respuesta (h : l.Valido location srcUrl) (responseText eleccion : Option String) :
    (l.respuesta location srcUrl responseText eleccion).Valido location srcUrl := by
  have herror {startingState : LoaderState} (hstarted : l.started = true)
      (hne : startingState ≠ .haveNothing) :
      (l.playlistRequestError startingState).Valido location srcUrl :=
    .libre h.master h.media hne hstarted rfl
  unfold PlaylistLoader.respuesta
  split
  · exact h
  · rename_i hrequest
    obtain ⟨-, hstate, -⟩ := h.request _ hrequest
    exact ⟨h.master, h.media, h.nada, fun hno => absurd hstate hno, fun r hr => by cases hr⟩
  · rename_i hrequest
    obtain ⟨hstarted, hstate, -⟩ := h.request _ hrequest
    exact h.haveMaster hstate hstarted _ _
  · rename_i hrequest
    exact herror (h.request _ hrequest).1 (by simp)
  · rename_i hrequest
    cases l.media with
    | none => exact h
    | some media => exact h.haveMetadata (h.request _ hrequest).1 _ _
  · rename_i hrequest
    obtain ⟨hstarted, -, hne, -⟩ := h.request _ hrequest
    exact herror hstarted hne
  · rename_i hrequest
    exact h.haveMetadata (h.request _ hrequest).1 _ _

/-- **A step keeps a loader valid.** -/
theorem Valido.paso (h : l.Valido location srcUrl) (e : Evento) :
    (l.paso location srcUrl e).Valido location srcUrl := by
  cases e with
  | load => exact h.load
  | pause => exact h.pause
  | timeout =>
    rw [PlaylistLoader.paso]
    split
    · exact (h.sinTimeout false).mediaUpdate
    · exact h
  | media uri => exact h.chooseMedia uri
  | respuesta responseText eleccion => exact h.respuesta responseText eleccion

theorem Corre.valido {log : List Descarga} (h : Corre location srcUrl log l) :
    l.Valido location srcUrl := by
  induction h with
  | inicio =>
    exact ⟨fun _ h => (by cases h), fun _ h => (by cases h), fun _ => rfl, fun h => absurd rfl h,
      fun _ h => (by cases h)⟩
  | paso _ e ih => exact ih.paso e

/-- What is read in a step is stored where it was asked for. -/
theorem Valido.esDireccion (h : l.Valido location srcUrl) (e : Evento) :
    ∀ x ∈ l.descargas srcUrl e, EsDireccion location srcUrl x.uri x.url := by
  rw [descargas.eq_def]
  split
  · rename_i responseText _
    intro x hx
    rw [Option.mem_toList, Option.bind_eq_some_iff] at hx
    obtain ⟨r, hr, hx⟩ := hx
    obtain ⟨uri, huri, rfl⟩ := Option.map_eq_some_iff.1 hx
    have hvalida := (h.request r hr).2
    rw [destinatario, hr, Option.bind_some] at huri
    rw [RequestValida] at hvalida
    split at hvalida
    · rename_i hdestino
      rw [hdestino] at huri
      obtain ⟨m, -, hm⟩ := Option.bind_eq_some_iff.1 huri
      split at hm
      · obtain rfl := Option.some_inj.1 hm
        exact .inr ⟨rfl, .inl hvalida.2⟩
      · cases hm
    · rename_i hdestino
      rw [hdestino] at huri
      obtain ⟨p, hp, hdireccion⟩ := hvalida.2
      rw [hp] at huri
      obtain rfl := Option.some_inj.1 huri
      exact hdireccion
    · rename_i hdestino
      rw [hdestino] at huri
      obtain rfl := Option.some_inj.1 huri
      exact hvalida.2.2.2
  · exact List.forall_mem_nil _

/-- **Whatever happens, what is read is stored where it was asked for.** -/
theorem Corre.esDireccion {log : List Descarga} (h : Corre location srcUrl log l) :
    ∀ x ∈ log, EsDireccion location srcUrl x.uri x.url := by
  induction h with
  | inicio => exact List.forall_mem_nil _
  | paso h e ih => exact List.forall_mem_append.2 ⟨h.valido.esDireccion e, ih⟩

/-- Where the player starts from an address with a scheme, a playlist has
one address. -/
theorem EsDireccion.eq (hesquema : conEsquema srcUrl.toList = true) {uri url : String}
    (h : EsDireccion location srcUrl uri url) : url = resolveUrl location srcUrl uri := by
  have hsrc (base : String) : resolveUrl location base srcUrl = srcUrl := if_pos hesquema
  obtain h | ⟨rfl, h⟩ := h
  · exact h
  · rw [hsrc] at h ⊢
    exact or_self_iff.1 h

end Corre

end PlaylistLoader

end HlsXcoder
