import HlsXcoder.Web.MediaPlaylist
import HlsXcoder.Web.Recargas
import Mathlib.Logic.Relation

/-!
# Playing a stream while it is written

The muxers of the outputs write their playlists, the server reads one of
them when it is asked for, and the loader of the player takes its answer
some time later, unless it has given up on it. Nothing orders these steps
but that an answer comes after its request.

However they fall, the segment that the player has under a number is the
one that the output wrote under it (`Fiel.refleja`), and what the player
has of a playlist never goes back (`no_retrocede`). The second
needs that one request is in flight at a time: of two answers on their
way the older one could come last.
-/

namespace HlsXcoder

/-! ## What is published -/

/-- The playlists of a directory: the master, and those of the segments
and of the subtitles of each output. -/
inductive Lista (ι : Type) where
  | maestra
  | de (i : ι) (vtt : Bool)
  deriving DecidableEq

/-- What stands still while a stream is played: the outputs, the master
that was written before them, the file that is read at an address, and
where the player starts from. -/
structure Despliegue (ι : Type) where
  hls : ι → HLSContext
  maestra : String
  textoMaestra : String
  fichero : String → Option String
  location : String
  srcUrl : String

/-- The name of a playlist of an output. -/
def HLSContext.m3u8 (hls : HLSContext) (vtt : Bool) : String := if vtt then hls.vttM3u8Name else hls.url

/-- The name of a segment, or of its subtitles. -/
def HLSContext.fragmento (hls : HLSContext) (vtt : Bool) (n : ℕ) : String :=
  if vtt then hls.nombreVtt n else hls.nombre n

/-- The file the segments of a playlist start with, the same whenever it
is read. -/
def HLSContext.inicio (hls : HLSContext) (vtt : Bool) : Option String :=
  if vtt = false ∧ hls.fmp4 = true then some "init.mp4" else none

namespace Despliegue

variable {ι : Type} (D : Despliegue ι)

def ruta : Lista ι → String
  | .maestra => D.maestra
  | .de i vtt => (D.hls i).m3u8 vtt

/-- Which playlists there are. -/
def Tiene : Lista ι → Prop
  | .maestra => True
  | .de i vtt => vtt = true → (D.hls i).hasSubtitle = true

/-- **A directory in order**: no two playlists share a file, and the names
of the segments are read as they are written. -/
structure Ordenado : Prop where
  numera : ∀ i, (D.hls i).Numera
  unica : ∀ {a b}, D.Tiene a → D.Tiene b → D.ruta a = D.ruta b → a = b
  esquema : conEsquema D.srcUrl.toList = true
  nombres : ∀ {i vtt}, D.Tiene (.de i vtt) → ∀ n,
    EsTexto (avBasename ((D.hls i).fragmento vtt n)).toList ∧ avBasename ((D.hls i).fragmento vtt n) ≠ ""

end Despliegue

section Publicado

variable {δ ρ : Type}

/-- **A text that was published**: that of a playlist of an output when it
showed the first `k` segments. -/
structure Publicado (d : Duraciones δ ρ) (micras : δ → ℕ) (hls : HLSContext) (ds : List δ) (vtt : Bool)
    (k : ℕ) (text : String) : Prop where
  le : k ≤ ds.length
  tiene : vtt = true → hls.hasSubtitle = true
  lista : ∃ last l, listaTras d hls ds k vtt last = some l ∧ text = l.texto micras

variable {d : Duraciones δ ρ} {micras : δ → ℕ} {hls : HLSContext} {ds : List δ} {vtt : Bool}

/-- **What stands on disk is published.** -/
theorem Corre.publicado (hnum : hls.Numera) {m : Muxer δ} (h : Corre d hls ds m) {l : ListaHLS δ}
    (hl : m.lista vtt = some l) :
    Publicado d micras hls ds vtt (m.publicados ds vtt) (l.texto micras) := by
  obtain ⟨hvtt, last, hlista⟩ := h.listaTras_of_lista hnum hl
  exact ⟨(m.publicados_bounds ds vtt).1, hvtt, last, l, hlista, rfl⟩

/-- Its map names the file that its segments start with. -/
theorem map_listaTras {k : ℕ} {last : Bool} {l : ListaHLS δ} (hl : listaTras d hls ds k vtt last = some l)
    (hne : l.entradas ≠ []) : l.map = hls.inicio vtt := by
  have hmap : l.map = if vtt = false ∧ hls.fmp4 = true ∧ l.entradas ≠ [] then some "init.mp4" else none := by
    rw [listaTras, Option.ite_none_left_eq_some] at hl
    obtain rfl := Option.some_inj.1 hl.2
    simp only [hlsWindow, ne_eq, List.map_eq_nil_iff]
  rw [HLSContext.inicio]
  simpa [hne] using hmap

/-- What is published can be read. -/
theorem parse_listaTras {k : ℕ} (hle : k ≤ ds.length) (htiene : vtt = true → hls.hasSubtitle = true)
    {last : Bool} {l : ListaHLS δ} (hl : listaTras d hls ds k vtt last = some l)
    (hnombres : ∀ n, EsTexto (avBasename (hls.fragmento vtt n)).toList ∧
      avBasename (hls.fragmento vtt n) ≠ "") : Parser.parse (l.texto micras) = some (l.manifest micras) := by
  have hmuestra := muestra_listaTras hle htiene hl
  refine parse_texto micras ⟨fun f hf => ?_, fun e he => ?_⟩
  · rw [listaTras, Option.ite_none_left_eq_some] at hl
    obtain rfl := Option.some_inj.1 hl.2
    rw [hlsWindow, Option.mem_def, Option.ite_none_right_eq_some] at hf
    obtain rfl := Option.some_inj.1 hf.2
    decide
  · obtain ⟨i, hi⟩ := List.mem_iff_getElem?.1 he
    rw [(hmuestra.entrada i e hi).2]
    exact hnombres _

namespace Publicado

variable {k k' : ℕ} {text text' : String}

/-- What was published stays so. -/
theorem append (h : Publicado d micras hls ds vtt k text) (ds' : List δ) :
    Publicado d micras hls (ds ++ ds') vtt k text := by
  obtain ⟨last, l, hl, htext⟩ := h.lista
  refine ⟨h.le.trans (by simp), h.tiene, last, l, ?_, htext⟩
  rw [← hl, listaTras, listaTras, List.take_append_of_le_length h.le]

theorem exists_muestra (h : Publicado d micras hls ds vtt k text)
    (hnombres : ∀ n, EsTexto (avBasename (hls.fragmento vtt n)).toList ∧
      avBasename (hls.fragmento vtt n) ≠ "") :
    ∃ l : ListaHLS δ, l.Muestra hls ds vtt k ∧ Parser.parse text = some (l.manifest micras) ∧
      (l.entradas ≠ [] → l.map = hls.inicio vtt) := by
  obtain ⟨last, l, hl, rfl⟩ := h.lista
  exact ⟨l, muestra_listaTras h.le h.tiene hl, parse_listaTras h.le h.tiene hl hnombres, map_listaTras hl⟩

end Publicado

end Publicado

/-! ## What is read of it -/

/-- A reading that may come before another: neither its first number nor
its last is past that of the other. -/
structure Manifest.Precede (m m' : Manifest) : Prop where
  primero : m.mediaSequence.getD 0 ≤ m'.mediaSequence.getD 0
  ultimo : m.mediaSequence.getD 0 + m.segments.length ≤ m'.mediaSequence.getD 0 + m'.segments.length

theorem Manifest.precede_self (m : Manifest) : m.Precede m := ⟨le_rfl, le_rfl⟩

section Lectura

variable {δ ρ : Type} {d : Duraciones δ ρ} {micras : δ → ℕ} {hls : HLSContext} {ds : List δ} {vtt : Bool}

theorem ListaHLS.segments_manifest (l : ListaHLS δ) :
    (l.manifest micras).segments = l.entradas.map (EntradaHLS.uri micras l.map) := by
  simp only [manifest, leida, Manifest.segments, decide_eq_true_eq]
  split
  · rfl
  · rename_i hnil
    rw [of_not_not hnil]
    rfl

/-- A segment, as it is read wherever it is listed. -/
def HLSContext.leido (hls : HLSContext) (micras : δ → ℕ) (vtt : Bool) (n : ℕ) (duration : δ) : CurrentUri :=
  EntradaHLS.uri micras (hls.inicio vtt) ⟨duration, avBasename (hls.fragmento vtt n)⟩

/-- **What a player has of a playlist**: its segments are those of the
output from the `n`th on, each as it was written under its number. -/
structure MediaPlaylist.Refleja (location : String) (micras : δ → ℕ) (hls : HLSContext) (ds : List δ)
    (vtt : Bool) (p : MediaPlaylist) (segments : List Segmento) (n : ℕ) : Prop where
  mediaSequence : p.mediaSequence = some ((hls.startSequence + n : ℕ) : ℤ)
  le : n + segments.length ≤ ds.length
  segmento : ∀ (j : ℕ) (segment : Segmento), segments[j]? = some segment →
    ∃ duration, ds[n + j]? = some duration ∧
      segment = .de location p.resolvedUri (hls.leido micras vtt (hls.startSequence + n + j) duration)

theorem HLSContext.fragmento_mem (hvtt : vtt = true → hls.hasSubtitle = true) (n : ℕ) :
    hls.fragmento vtt n ∈ hls.ficherosDe n := by
  cases vtt with
  | false => exact hls.nombre_mem n
  | true => exact HLSContext.nombreVtt_mem (hvtt rfl) n

variable (micras hls ds vtt) in
/-- **A reading of an output**: it numbers its segments as they were
written. -/
structure Manifest.Lee (k : ℕ) (m : Manifest) : Prop where
  le : k ≤ ds.length
  mediaSequence : m.mediaSequence = some ((hls.startSequence + (k - hls.listados k) : ℕ) : ℤ)
  length : m.segments.length = hls.listados k
  segmento : ∀ (i : ℕ) (s : CurrentUri), m.segments[i]? = some s →
    ∃ duration, ds[k - hls.listados k + i]? = some duration ∧
      s = hls.leido micras vtt (hls.startSequence + (k - hls.listados k) + i) duration

/-- **What is published is read.** -/
theorem Publicado.exists_lee {k : ℕ} {text : String} (h : Publicado d micras hls ds vtt k text)
    (hnombres : ∀ n, EsTexto (avBasename (hls.fragmento vtt n)).toList ∧
      avBasename (hls.fragmento vtt n) ≠ "") :
    ∃ m, Parser.parse text = some m ∧ m.Lee micras hls ds vtt k := by
  obtain ⟨l, hmuestra, hparse, hmap⟩ := h.exists_muestra hnombres
  refine ⟨_, hparse, hmuestra.le, ?_, ?_, fun i s hs => ?_⟩
  · rw [← hmuestra.sequence]
    rfl
  · rw [l.segments_manifest, List.length_map, hmuestra.length]
  · rw [l.segments_manifest, List.getElem?_map, Option.map_eq_some_iff] at hs
    obtain ⟨e, he, rfl⟩ := hs
    obtain ⟨hduration, hfilename⟩ := hmuestra.entrada i e he
    refine ⟨e.duration, hduration, ?_⟩
    have hentrada : e = ⟨e.duration, avBasename (hls.fragmento vtt (l.sequence + i))⟩ := by
      cases e
      exact congrArg _ hfilename
    rw [hmap (List.ne_nil_of_mem (List.mem_of_getElem? he)), HLSContext.leido, ← hmuestra.sequence,
      ← hentrada]

namespace Manifest.Lee

variable {k k' : ℕ} {m m' : Manifest}

/-- **Two readings of an output agree.** -/
theorem concuerda (h : m.Lee micras hls ds vtt k) (h' : m'.Lee micras hls ds vtt k') : m.Concuerda m' := by
  refine ⟨by rw [h.mediaSequence, h'.mediaSequence]; rfl, fun i j hij s hs s' hs' => ?_⟩
  rw [h.mediaSequence, h'.mediaSequence, Option.getD_some, Option.getD_some] at hij
  have hindice : k - hls.listados k + i = k' - hls.listados k' + j := by omega
  obtain ⟨duration, hduration, rfl⟩ := h.segmento i s hs
  obtain ⟨duration', hduration', rfl⟩ := h'.segmento j s' hs'
  rw [hindice, hduration', Option.some_inj] at hduration
  rw [hduration, Nat.add_assoc, Nat.add_assoc, hindice]

/-- A reading of fewer segments comes before. -/
theorem precede (h : m.Lee micras hls ds vtt k) (h' : m'.Lee micras hls ds vtt k') (hk : k ≤ k') :
    m.Precede m' := by
  have hmono := hls.sub_listados_mono hk
  have hle := hls.listados_le k
  have hle' := hls.listados_le k'
  constructor
  · rw [h.mediaSequence, h'.mediaSequence, Option.getD_some, Option.getD_some]
    omega
  · rw [h.mediaSequence, h'.mediaSequence, Option.getD_some, Option.getD_some, h.length, h'.length]
    omega

end Manifest.Lee

end Lectura

/-! ## The steps -/

/-- A stream and who plays it. The answer that is on its way was read
from disk for the request that is in flight. The last two are the
history: the segments of each output and what the loader has read. -/
structure Reproduccion (ι δ : Type) where
  muxers : ι → Muxer δ
  loader : PlaylistLoader
  enCamino : Option String
  escritos : ι → List δ
  leidas : List Descarga

section Sistema

variable {ι δ ρ : Type} (d : Duraciones δ ρ) (micras : δ → ℕ) (D : Despliegue ι)

/-- What is on disk under the name of a playlist. -/
def Despliegue.enDisco (muxers : ι → Muxer δ) : Lista ι → Option String
  | .maestra => some D.textoMaestra
  | .de i vtt => ((muxers i).lista vtt).map (ListaHLS.texto micras)

/-- A step of the loader that reads nothing. An answer is given up with
the request it is for. -/
def Reproduccion.conEvento (s : Reproduccion ι δ) (e : Evento) : Reproduccion ι δ :=
  let loader := s.loader.paso D.location D.srcUrl e
  { s with
    loader := loader
    enCamino := if loader.request = s.loader.request then s.enCamino else none }

/-- **The steps**: a muxer goes on, the server reads a playlist, its
answer comes or fails, or something else happens to the loader. -/
inductive PasoReproduccion [DecidableEq ι] : Reproduccion ι δ → Reproduccion ι δ → Prop
  | muxer {s i ds m} (h : PasoMuxer d (D.hls i) (s.muxers i) ds m) : PasoReproduccion s { s with
      muxers := Function.update s.muxers i m
      escritos := Function.update s.escritos i (s.escritos i ++ ds) }
  | lee {s r a text} (hr : s.loader.request = some r) (hno : s.enCamino = none)
      (ha : D.fichero r.url = some (D.ruta a)) (htext : D.enDisco micras s.muxers a = some text) :
      PasoReproduccion s { s with enCamino := some text }
  | llega {s text} (h : s.enCamino = some text) (eleccion : Option String) : PasoReproduccion s { s with
      loader := s.loader.paso D.location D.srcUrl (.respuesta (some text) eleccion)
      enCamino := none
      leidas := s.loader.descargas D.srcUrl (.respuesta (some text) eleccion) ++ s.leidas }
  | evento {s e} (he : ∀ text eleccion, e ≠ .respuesta (some text) eleccion) :
      PasoReproduccion s (s.conEvento D e)

/-- The first segments are open and nothing has been asked for. -/
def Reproduccion.Inicial (s : Reproduccion ι δ) : Prop :=
  ∃ vs : ι → VariantStream δ, (∀ i, hlsStart (D.hls i) (.inicial δ (D.hls i)) = some (vs i)) ∧
    s = ⟨fun i => .inicio (D.hls i) (vs i), .inicial, none, fun _ => [], []⟩

/-- **The states of a stream that is played.** -/
def Reproduccion.Alcanza [DecidableEq ι] (s : Reproduccion ι δ) : Prop :=
  ∃ s₀ : Reproduccion ι δ, s₀.Inicial D ∧ Relation.ReflTransGen (PasoReproduccion d micras D) s₀ s

end Sistema

/-! ## What is on its way -/

/-- A text that may be read before another. -/
def Anterior (text text' : String) : Prop :=
  ∀ m ∈ Parser.parse text, ∀ m' ∈ Parser.parse text', m.Precede m'

section Publica

variable {ι δ ρ : Type} (d : Duraciones δ ρ) (micras : δ → ℕ) (D : Despliegue ι)

/-- A text of a playlist, from when it showed `k` segments. -/
def Despliegue.Publica (escritos : ι → List δ) (k : ℕ) (text : String) : Lista ι → Prop
  | .maestra => text = D.textoMaestra
  | .de i vtt => Publicado d micras (D.hls i) (escritos i) vtt k text

variable {d micras D} in
theorem Despliegue.Publica.tiene {escritos : ι → List δ} {k : ℕ} {text : String} {a : Lista ι}
    (h : D.Publica d micras escritos k text a) : D.Tiene a := by
  cases a with
  | maestra => trivial
  | de i vtt => exact Publicado.tiene h

namespace Reproduccion

/-- How many segments a playlist shows. -/
def publicados (s : Reproduccion ι δ) : Lista ι → ℕ
  | .maestra => 0
  | .de i vtt => (s.muxers i).publicados (s.escritos i) vtt

/-- A text was on disk at an address. -/
def Sirvio (s : Reproduccion ι δ) (url text : String) : Prop :=
  ∃ a k, D.fichero url = some (D.ruta a) ∧ k ≤ s.publicados a ∧ D.Publica d micras s.escritos k text a

variable {d micras D} (hD : D.Ordenado) {s : Reproduccion ι δ} {url text text' : String}

include hD in
/-- **What is read at an address agrees with itself.** -/
theorem Sirvio.concuerda (h : s.Sirvio d micras D url text) (h' : s.Sirvio d micras D url text') :
    ∀ m ∈ Parser.parse text, ∀ m' ∈ Parser.parse text', m.Concuerda m' := by
  obtain ⟨a, k, ha, -, hpublica⟩ := h
  obtain ⟨a', k', ha', -, hpublica'⟩ := h'
  obtain rfl := hD.unica hpublica.tiene hpublica'.tiene (Option.some_inj.1 (ha.symm.trans ha'))
  intro m hm m' hm'
  cases a with
  | maestra =>
    obtain rfl : text = text' := hpublica.trans hpublica'.symm
    obtain rfl := Option.some_inj.1 (hm.symm.trans hm')
    exact m.concuerda_self
  | de i vtt =>
    obtain ⟨n, hn, hlee⟩ := Publicado.exists_lee hpublica (hD.nombres hpublica.tiene)
    obtain ⟨n', hn', hlee'⟩ := Publicado.exists_lee hpublica' (hD.nombres hpublica'.tiene)
    obtain rfl := Option.some_inj.1 (hm.symm.trans hn)
    obtain rfl := Option.some_inj.1 (hm'.symm.trans hn')
    exact hlee.concuerda hlee'

include hD in
/-- **What is on disk now is behind all that was.** -/
theorem Sirvio.anterior (h : s.Sirvio d micras D url text) {a : Lista ι}
    (ha : D.fichero url = some (D.ruta a)) (hpublica : D.Publica d micras s.escritos (s.publicados a) text' a) :
    Anterior text text' := by
  obtain ⟨a', k, ha', hk, hpublica'⟩ := h
  obtain rfl := hD.unica hpublica.tiene hpublica'.tiene (Option.some_inj.1 (ha.symm.trans ha'))
  intro m hm m' hm'
  cases a with
  | maestra =>
    obtain rfl : text = text' := hpublica'.trans hpublica.symm
    obtain rfl := Option.some_inj.1 (hm.symm.trans hm')
    exact m.precede_self
  | de i vtt =>
    obtain ⟨n, hn, hlee⟩ := Publicado.exists_lee hpublica' (hD.nombres hpublica'.tiene)
    obtain ⟨n', hn', hlee'⟩ := Publicado.exists_lee hpublica (hD.nombres hpublica.tiene)
    obtain rfl := Option.some_inj.1 (hm.symm.trans hn)
    obtain rfl := Option.some_inj.1 (hm'.symm.trans hn')
    exact hlee.precede hlee' hk

/-- What was on disk was there later too. -/
theorem Sirvio.mono (h : s.Sirvio d micras D url text) {s' : Reproduccion ι δ}
    (hescritos : ∀ i, ∃ ds, s'.escritos i = s.escritos i ++ ds)
    (hpublicados : ∀ a, s.publicados a ≤ s'.publicados a) : s'.Sirvio d micras D url text := by
  obtain ⟨a, k, ha, hk, hpublica⟩ := h
  refine ⟨a, k, ha, hk.trans (hpublicados a), ?_⟩
  cases a with
  | maestra => exact hpublica
  | de i vtt =>
    obtain ⟨ds, hds⟩ := hescritos i
    rw [Despliegue.Publica, hds]
    exact Publicado.append hpublica ds

end Reproduccion

end Publica

section Fiel

variable {ι δ ρ : Type} {d : Duraciones δ ρ} {micras : δ → ℕ} {D : Despliegue ι}

namespace Reproduccion

variable (d micras D) in
/-- **What holds between any two steps.** What is on its way was on disk
at the address it was asked for, and nothing that has been read there is
past it. -/
structure Fiel (s : Reproduccion ι δ) : Prop where
  muxers : ∀ i, Corre d (D.hls i) (s.escritos i) (s.muxers i)
  loader : PlaylistLoader.Corre D.location D.srcUrl s.leidas s.loader
  enCamino : ∀ text ∈ s.enCamino, ∃ r ∈ s.loader.request, s.Sirvio d micras D r.url text ∧
    ∀ x ∈ s.leidas, x.url = r.url → Anterior x.responseText text
  leidas : ∀ x ∈ s.leidas, s.Sirvio d micras D x.url x.responseText
  orden : s.leidas.Pairwise fun x y => x.url = y.url → Anterior y.responseText x.responseText

variable {s s' : Reproduccion ι δ}

theorem Inicial.fiel (h : s.Inicial D) : s.Fiel d micras D := by
  obtain ⟨vs, hvs, rfl⟩ := h
  exact ⟨fun i => ⟨vs i, hvs i, .refl⟩, .inicio, fun _ h => (by cases h), List.forall_mem_nil _, .nil⟩

theorem Sirvio.muxer [DecidableEq ι] {url text : String} (h : s.Sirvio d micras D url text) {i : ι}
    {ds : List δ} {m : Muxer δ} (hp : PasoMuxer d (D.hls i) (s.muxers i) ds m) : Sirvio d micras D { s with
      muxers := Function.update s.muxers i m
      escritos := Function.update s.escritos i (s.escritos i ++ ds) } url text := by
  refine h.mono (fun j => ?_) fun a => ?_
  · by_cases hj : j = i
    · subst hj
      exact ⟨ds, Function.update_self ..⟩
    · exact ⟨[], by simp only [Function.update_of_ne hj, List.append_nil]⟩
  · cases a with
    | maestra => exact le_rfl
    | de j vtt =>
      simp only [publicados]
      by_cases hj : j = i
      · subst hj
        rw [Function.update_self, Function.update_self]
        exact hp.publicados_mono _ _
      · rw [Function.update_of_ne hj, Function.update_of_ne hj]

/-- What a step reads is the answer that comes. -/
theorem mem_descargas {l : PlaylistLoader} {srcUrl text : String} {eleccion : Option String} {x : Descarga}
    (hx : x ∈ l.descargas srcUrl (.respuesta (some text) eleccion)) :
    x.responseText = text ∧ ∃ r ∈ l.request, x.url = r.url := by
  rw [PlaylistLoader.descargas, Option.mem_toList, Option.bind_eq_some_iff] at hx
  obtain ⟨r, hr, hx⟩ := hx
  obtain ⟨uri, -, rfl⟩ := Option.map_eq_some_iff.1 hx
  exact ⟨rfl, r, hr, rfl⟩

theorem pairwise_descargas {l : PlaylistLoader} {srcUrl : String} {e : Evento}
    (R : Descarga → Descarga → Prop) : (l.descargas srcUrl e).Pairwise R := by
  rw [PlaylistLoader.descargas.eq_def]
  split
  · generalize (l.request.bind fun _ => _) = o
    cases o <;> simp
  · exact .nil

namespace Fiel

/-- A muxer goes on. -/
theorem muxer [DecidableEq ι] (h : s.Fiel d micras D) {i : ι} {ds : List δ} {m : Muxer δ}
    (hp : PasoMuxer d (D.hls i) (s.muxers i) ds m) : Fiel d micras D { s with
      muxers := Function.update s.muxers i m
      escritos := Function.update s.escritos i (s.escritos i ++ ds) } := by
  refine ⟨fun j => ?_, h.loader, fun text htext => ?_, fun x hx => (h.leidas x hx).muxer hp, h.orden⟩
  · by_cases hj : j = i
    · subst hj
      simp only [Function.update_self]
      exact (h.muxers j).desde (by simpa using CorreDesde.refl.paso hp)
    · simp only [Function.update_of_ne hj]
      exact h.muxers j
  · obtain ⟨r, hr, hsirvio, hantes⟩ := h.enCamino text htext
    exact ⟨r, hr, hsirvio.muxer hp, hantes⟩

/-- The server reads a playlist. -/
theorem lee (hD : D.Ordenado) (h : s.Fiel d micras D) {r : Request} (hr : s.loader.request = some r)
    {a : Lista ι} (ha : D.fichero r.url = some (D.ruta a)) {text : String}
    (htext : D.enDisco micras s.muxers a = some text) : Fiel d micras D { s with enCamino := some text } := by
  have hpublica : D.Publica d micras s.escritos (s.publicados a) text a := by
    cases a with
    | maestra => exact (Option.some_inj.1 htext).symm
    | de i vtt =>
      obtain ⟨l, hl, rfl⟩ := Option.map_eq_some_iff.1 htext
      exact (h.muxers i).publicado (hD.numera i) hl
  refine ⟨h.muxers, h.loader, fun text' htext' => ?_, h.leidas, h.orden⟩
  obtain rfl := Option.some_inj.1 htext'
  refine ⟨r, hr, ⟨a, _, ha, le_rfl, hpublica⟩, fun x hx hurl => ?_⟩
  exact (h.leidas x hx).anterior hD (by rw [hurl]; exact ha) hpublica

/-- An answer comes. -/
theorem llega (h : s.Fiel d micras D) {text : String} (htext : s.enCamino = some text)
    (eleccion : Option String) : Fiel d micras D { s with
      loader := s.loader.paso D.location D.srcUrl (.respuesta (some text) eleccion)
      enCamino := none
      leidas := s.loader.descargas D.srcUrl (.respuesta (some text) eleccion) ++ s.leidas } := by
  obtain ⟨r, hr, hsirvio, hantes⟩ := h.enCamino text htext
  have hnueva {x : Descarga} (hx : x ∈ s.loader.descargas D.srcUrl (.respuesta (some text) eleccion)) :
      x.responseText = text ∧ x.url = r.url := by
    obtain ⟨htext, r', hr', hurl⟩ := mem_descargas hx
    obtain rfl := Option.some_inj.1 (hr.symm.trans hr')
    exact ⟨htext, hurl⟩
  refine ⟨h.muxers, h.loader.paso _, fun _ hno => (by cases hno), ?_, ?_⟩
  · refine List.forall_mem_append.2 ⟨fun x hx => ?_, h.leidas⟩
    obtain ⟨htext, hurl⟩ := hnueva hx
    rw [htext, hurl]
    exact hsirvio
  · refine List.pairwise_append.2 ⟨pairwise_descargas _, h.orden, fun x hx y hy hurl => ?_⟩
    rw [(hnueva hx).1]
    exact hantes y hy (hurl.symm.trans (hnueva hx).2)

/-- Anything else happens to the loader. -/
theorem evento (h : s.Fiel d micras D) {e : Evento}
    (he : ∀ text eleccion, e ≠ .respuesta (some text) eleccion) : (s.conEvento D e).Fiel d micras D := by
  have hnada : s.loader.descargas D.srcUrl e = [] := by
    unfold PlaylistLoader.descargas
    split
    · exact absurd rfl (he _ _)
    · rfl
  have hloader := h.loader.paso e
  rw [hnada, List.nil_append] at hloader
  refine ⟨h.muxers, hloader, fun text htext => ?_, h.leidas, h.orden⟩
  simp only [conEvento, Option.mem_def, Option.ite_none_right_eq_some] at htext
  obtain ⟨hrequest, htext⟩ := htext
  obtain ⟨r, hr, hsirvio, hantes⟩ := h.enCamino text htext
  exact ⟨r, hrequest.trans hr, hsirvio, hantes⟩

theorem paso [DecidableEq ι] (hD : D.Ordenado) (h : s.Fiel d micras D)
    (hp : PasoReproduccion d micras D s s') : s'.Fiel d micras D := by
  cases hp with
  | muxer hp => exact h.muxer hp
  | lee hr hno ha htext => exact h.lee hD hr ha htext
  | llega htext eleccion => exact h.llega htext eleccion
  | evento he => exact h.evento he

theorem sigue [DecidableEq ι] (hD : D.Ordenado) (h : s.Fiel d micras D)
    (hrun : Relation.ReflTransGen (PasoReproduccion d micras D) s s') : s'.Fiel d micras D := by
  induction hrun with
  | refl => exact h
  | tail _ hp ih => exact ih.paso hD hp

end Fiel

theorem Alcanza.fiel [DecidableEq ι] (hD : D.Ordenado) (h : s.Alcanza d micras D) : s.Fiel d micras D := by
  obtain ⟨s₀, hinicial, hrun⟩ := h
  exact hinicial.fiel.sigue hD hrun

/-! ## What the player has -/

/-- The address of what was read is that of its playlist. -/
theorem Fiel.url_eq (hD : D.Ordenado) (h : s.Fiel d micras D) {x : Descarga} (hx : x ∈ s.leidas) :
    x.url = resolveUrl D.location D.srcUrl x.uri :=
  (h.loader.esDireccion x hx).eq hD.esquema

/-- What is read of a playlist agrees with itself, so the loader has what
it last read of it. -/
theorem Fiel.almacen (hD : D.Ordenado) (h : s.Fiel d micras D) :
    PlaylistLoader.Almacen D.location s.leidas s.loader := by
  refine h.loader.almacen fun x hx y hy huri => ?_
  have hurl : x.url = y.url := by rw [h.url_eq hD hx, h.url_eq hD hy, huri]
  exact (h.leidas x hx).concuerda hD (by rw [hurl]; exact h.leidas y hy)

/-- What the loader has of a playlist was read at its address. -/
theorem Fiel.exists_leida (hD : D.Ordenado) (h : s.Fiel d micras D) {master : MasterPlaylist}
    (hmaster : s.loader.master = some master) {p : MediaPlaylist} (hp : p ∈ master.playlists)
    {segments : List Segmento} (hsegments : p.segments = some segments) :
    ∃ m, ultima s.leidas p.uri = some m ∧ p.mediaSequence = m.mediaSequence ∧
      segments = m.segments.map (.de D.location p.resolvedUri) := by
  have hguardada := (h.almacen hD).master master hmaster p hp
  cases hultima : ultima s.leidas p.uri with
  | none =>
    rw [(hguardada.sinLeer hultima).1] at hsegments
    cases hsegments
  | some m =>
    obtain ⟨hsegments', hseq⟩ := hguardada.leida m hultima
    exact ⟨m, rfl, hseq, Option.some_inj.1 (hsegments.symm.trans hsegments')⟩

/-- Where the player starts from an address with a scheme, its playlists
are at their own. -/
theorem Fiel.resolvedUri_eq (hD : D.Ordenado) (h : s.Fiel d micras D) {master : MasterPlaylist}
    (hmaster : s.loader.master = some master) {p : MediaPlaylist} (hp : p ∈ master.playlists) :
    p.resolvedUri = resolveUrl D.location D.srcUrl p.uri :=
  ((h.loader.valido.master master hmaster).playlists p hp).eq hD.esquema

/-- **What the player has of a playlist is what the output wrote**: each
of its segments is the one that was written under its number. They are
all on disk while the output has ended no more than one since. -/
theorem Fiel.refleja (hD : D.Ordenado) (h : s.Fiel d micras D) {master : MasterPlaylist}
    (hmaster : s.loader.master = some master) {p : MediaPlaylist} (hp : p ∈ master.playlists)
    {segments : List Segmento} (hsegments : p.segments = some segments) {i : ι} {vtt : Bool}
    (hvtt : D.Tiene (.de i vtt))
    (hi : ∀ f ∈ D.fichero (resolveUrl D.location D.srcUrl p.uri), f = (D.hls i).m3u8 vtt) :
    D.fichero (resolveUrl D.location D.srcUrl p.uri) = some ((D.hls i).m3u8 vtt) ∧
    ∃ n, p.Refleja D.location micras (D.hls i) (s.escritos i) vtt segments n ∧
      ((s.escritos i).length ≤ n + segments.length + 1 → ∀ j < segments.length,
        (D.hls i).fragmento vtt ((D.hls i).startSequence + n + j) ∈ (s.muxers i).ficheros) := by
  obtain ⟨m, hultima, hseq, rfl⟩ := h.exists_leida hD hmaster hp hsegments
  obtain ⟨x, hx, huri, hparse⟩ := PlaylistLoader.exists_mem_of_ultima hultima
  obtain ⟨a, k, ha, -, hpublica⟩ := h.leidas x hx
  rw [h.url_eq hD hx, huri] at ha
  obtain rfl : a = .de i vtt := hD.unica hpublica.tiene hvtt (hi _ ha)
  obtain ⟨m', hparse', hlee⟩ := Publicado.exists_lee hpublica (hD.nombres hpublica.tiene)
  obtain rfl := Option.some_inj.1 (hparse.symm.trans hparse')
  have hle := hlee.le
  have hlistados := (D.hls i).listados_le k
  refine ⟨ha, k - (D.hls i).listados k, ⟨hseq.trans hlee.mediaSequence, ?_, fun j segment hsegment => ?_⟩,
    fun hfin j hj => ?_⟩
  · rw [List.length_map, hlee.length]
    omega
  · rw [List.getElem?_map, Option.map_eq_some_iff] at hsegment
    obtain ⟨leido, hleido, rfl⟩ := hsegment
    obtain ⟨duration, hduration, rfl⟩ := hlee.segmento j leido hleido
    exact ⟨duration, hduration, rfl⟩
  · rw [List.length_map, hlee.length] at hfin hj
    have hr := (h.muxers i).refleja (hD.numera i)
    have hprimera := hr.sigue.primera_le_of_muestra hle (by omega)
    rw [Nat.add_assoc]
    exact hr.mem_ficheros (hprimera.trans (Nat.le_add_right _ _)) (by omega)
      (HLSContext.fragmento_mem hvtt _)

/-- The playlists of the loader are those of a text that was on disk where
it starts. -/
theorem exists_uris [DecidableEq ι] (hD : D.Ordenado) (h : s.Alcanza d micras D) :
    ∀ master ∈ s.loader.master, ∃ text m, s.Sirvio d micras D D.srcUrl text ∧
      Parser.parse text = some m ∧ master.uris = PlaylistLoader.urisDe D.srcUrl m := by
  obtain ⟨s₀, hinicial, hrun⟩ := h
  induction hrun with
  | refl =>
    obtain ⟨vs, -, rfl⟩ := hinicial
    intro master hmaster
    cases hmaster
  | @tail s s' hrun hp ih =>
    have hfiel := hinicial.fiel.sigue hD hrun
    cases hp with
    | muxer hp =>
      intro master hmaster
      obtain ⟨text, m, hsirvio, hm, huris⟩ := ih master hmaster
      exact ⟨text, m, hsirvio.muxer hp, hm, huris⟩
    | lee => exact ih
    | llega htext eleccion =>
      intro master hmaster
      have hmaster' := congrArg (Option.map MasterPlaylist.uris) hmaster
      rcases PlaylistLoader.uris_paso s.loader (.respuesta (some _) eleccion) with
        heq | ⟨text, _, url, m, hevento, hrequest, hm, heq⟩
      · rw [heq] at hmaster'
        obtain ⟨antes, hantes, huris⟩ := Option.map_eq_some_iff.1 hmaster'
        obtain ⟨text, m, hsirvio, hm, huris'⟩ := ih antes hantes
        exact ⟨text, m, hsirvio, hm, huris.symm.trans huris'⟩
      · rw [heq] at hmaster'
        obtain ⟨r, hr, hsirvio, -⟩ := hfiel.enCamino _ htext
        obtain rfl := Option.some_inj.1 (hr.symm.trans hrequest)
        have hurl : url = D.srcUrl := (hfiel.loader.valido.request _ hrequest).2.2
        cases hevento
        exact ⟨_, m, hurl ▸ hsirvio, hm, (Option.some_inj.1 hmaster').symm⟩
    | evento he =>
      intro master hmaster
      have hmaster' := congrArg (Option.map MasterPlaylist.uris) hmaster
      rcases PlaylistLoader.uris_paso s.loader _ with heq | ⟨text, eleccion, -, -, hevento, -⟩
      · rw [conEvento, heq] at hmaster'
        obtain ⟨antes, hantes, huris⟩ := Option.map_eq_some_iff.1 hmaster'
        obtain ⟨text, m, hsirvio, hm, huris'⟩ := ih antes hantes
        exact ⟨text, m, hsirvio, hm, huris.symm.trans huris'⟩
      · exact absurd hevento (he text eleccion)

/-- What has been read is only added to. -/
theorem exists_leidas [DecidableEq ι]
    (hrun : Relation.ReflTransGen (PasoReproduccion d micras D) s s') :
    ∃ nuevas, s'.leidas = nuevas ++ s.leidas := by
  induction hrun with
  | refl => exact ⟨[], rfl⟩
  | tail _ hp ih =>
    obtain ⟨nuevas, hnuevas⟩ := ih
    cases hp with
    | muxer | lee | evento => exact ⟨nuevas, hnuevas⟩
    | llega htext eleccion => exact ⟨_ ++ nuevas, by rw [hnuevas, List.append_assoc]⟩

/-- What is read last comes after what was read last before. -/
theorem Fiel.precede_ultima (hD : D.Ordenado) (h : s'.Fiel d micras D) {nuevas : List Descarga}
    (hnuevas : s'.leidas = nuevas ++ s.leidas) {uri : String} {m m' : Manifest}
    (hm : ultima s.leidas uri = some m)
    (hm' : ultima s'.leidas uri = some m') : m.Precede m' := by
  obtain ⟨y, hy, hyuri, hyparse⟩ := PlaylistLoader.exists_mem_of_ultima hm
  rw [ultima, hnuevas, List.findSome?_append] at hm'
  cases hnueva : ultima nuevas uri with
  | none =>
    rw [ultima] at hnueva
    rw [hnueva, Option.none_or] at hm'
    obtain rfl := Option.some_inj.1 (hm.symm.trans hm')
    exact m.precede_self
  | some m'' =>
    obtain ⟨x, hx, hxuri, hxparse⟩ := PlaylistLoader.exists_mem_of_ultima hnueva
    rw [ultima] at hnueva
    rw [hnueva, Option.some_or, Option.some_inj] at hm'
    subst hm'
    have horden := h.orden
    rw [hnuevas, List.pairwise_append] at horden
    have hxurl := h.url_eq hD (x := x) (by rw [hnuevas]; exact List.mem_append_left _ hx)
    have hyurl := h.url_eq hD (x := y) (by rw [hnuevas]; exact List.mem_append_right _ hy)
    exact horden.2.2 x hx y hy (by rw [hxurl, hyurl, hxuri, hyuri]) m hyparse m'' hxparse

/-- **What the player has of a playlist never goes back**: neither its
first segment nor its last. -/
theorem no_retrocede [DecidableEq ι] (hD : D.Ordenado) (h : s.Alcanza d micras D)
    (hrun : Relation.ReflTransGen (PasoReproduccion d micras D) s s')
    {master master' : MasterPlaylist} (hmaster : s.loader.master = some master)
    (hmaster' : s'.loader.master = some master') {p p' : MediaPlaylist} (hp : p ∈ master.playlists)
    (hp' : p' ∈ master'.playlists) (huri : p.uri = p'.uri) {segments segments' : List Segmento}
    (hsegments : p.segments = some segments) (hsegments' : p'.segments = some segments') :
    p.mediaSequence.getD 0 ≤ p'.mediaSequence.getD 0 ∧
      p.mediaSequence.getD 0 + segments.length ≤ p'.mediaSequence.getD 0 + segments'.length := by
  have hfiel := h.fiel hD
  have hfiel' := hfiel.sigue hD hrun
  obtain ⟨nuevas, hnuevas⟩ := exists_leidas hrun
  obtain ⟨m, hultima, hseq, rfl⟩ := hfiel.exists_leida hD hmaster hp hsegments
  obtain ⟨m', hultima', hseq', rfl⟩ := hfiel'.exists_leida hD hmaster' hp' hsegments'
  rw [huri] at hultima
  obtain ⟨hprimero, hultimo⟩ := hfiel'.precede_ultima hD hnuevas hultima hultima'
  rw [hseq, hseq', List.length_map, List.length_map]
  exact ⟨hprimero, hultimo⟩

/-! ## Its runs -/

section Sigue

variable [DecidableEq ι]

/-- A muxer can go on by itself. -/
theorem sigue_muxer {i : ι} {ds : List δ} {m : Muxer δ} (h : CorreDesde d (D.hls i) (s.muxers i) ds m) :
    Relation.ReflTransGen (PasoReproduccion d micras D) s { s with
      muxers := Function.update s.muxers i m
      escritos := Function.update s.escritos i (s.escritos i ++ ds) } := by
  induction h with
  | refl =>
    rw [Function.update_eq_self, List.append_nil, Function.update_eq_self]
  | @paso ds ds' m m' _ hp ih =>
    have hmuxer : PasoMuxer d (D.hls i) (Function.update s.muxers i m i) ds' m' := by
      rwa [Function.update_self]
    have hpaso : PasoReproduccion d micras D { s with
        muxers := Function.update s.muxers i m
        escritos := Function.update s.escritos i (s.escritos i ++ ds) } _ := .muxer hmuxer
    simp only [Function.update_idem, Function.update_self, List.append_assoc] at hpaso
    exact ih.tail hpaso

theorem Alcanza.sigue (h : s.Alcanza d micras D)
    (hrun : Relation.ReflTransGen (PasoReproduccion d micras D) s s') : s'.Alcanza d micras D := by
  obtain ⟨s₀, hinicial, hrun₀⟩ := h
  exact ⟨s₀, hinicial, hrun₀.trans hrun⟩

variable (d micras D) in
/-- What is asked for is read and comes. -/
theorem exists_lectura {r : Request} (hr : s.loader.request = some r) (hno : s.enCamino = none) {a : Lista ι}
    (ha : D.fichero r.url = some (D.ruta a)) {text : String} (htext : D.enDisco micras s.muxers a = some text) :
    ∃ s' : Reproduccion ι δ, Relation.ReflTransGen (PasoReproduccion d micras D) s s' ∧
      s'.loader = s.loader.paso D.location D.srcUrl (.respuesta (some text) none) ∧
      s'.leidas = s.loader.descargas D.srcUrl (.respuesta (some text) none) ++ s.leidas ∧
      s'.enCamino = none ∧ s'.muxers = s.muxers ∧ s'.escritos = s.escritos := by
  have hlee : PasoReproduccion d micras D s { s with enCamino := some text } := .lee hr hno ha htext
  exact ⟨_, (Relation.ReflTransGen.single hlee).tail (.llega rfl none), rfl, rfl, rfl, rfl, rfl⟩

/-- What the loader has asked for as a playlist is there once it has
come. -/
theorem Alcanza.exists_segments (hD : D.Ordenado) (h : s.Alcanza d micras D) {uri : String}
    {uris : List String} (huris : s.loader.master.map MasterPlaylist.uris = some uris) (huri : uri ∈ uris)
    {m : Manifest} (hultima : ultima s.leidas uri = some m) :
    ∃ master p segments, s.loader.master = some master ∧ p ∈ master.playlists ∧ p.uri = uri ∧
      p.segments = some segments ∧ segments.length = m.segments.length := by
  obtain ⟨master, hmaster, rfl⟩ := Option.map_eq_some_iff.1 huris
  obtain ⟨p, hp, rfl⟩ := List.mem_map.1 huri
  obtain ⟨hsegments, -⟩ := (((h.fiel hD).almacen hD).master master hmaster p hp).leida m hultima
  exact ⟨master, p, _, hmaster, hp, rfl, hsegments, List.length_map _⟩

variable (d micras D) in
/-- The loader asks for the playlist it starts from. -/
theorem exists_load (hloader : s.loader = .inicial) (hno : s.enCamino = none) :
    ∃ s' : Reproduccion ι δ, Relation.ReflTransGen (PasoReproduccion d micras D) s s' ∧
      s'.loader = PlaylistLoader.inicial.start D.srcUrl ∧ s'.leidas = s.leidas ∧ s'.enCamino = none ∧
      s'.muxers = s.muxers ∧ s'.escritos = s.escritos := by
  refine ⟨s.conEvento D .load, .single (.evento fun _ _ hno => (by cases hno)), ?_, rfl, ?_, rfl, rfl⟩
  · rw [conEvento, hloader]
    rfl
  · rw [conEvento, hno]
    exact ite_self none

/-- The loader of a live playlist that is the only one. -/
def esperaUnica (D : Despliegue ι) (p : MediaPlaylist) : PlaylistLoader :=
  ⟨.haveMetadata, true, some ⟨D.location, [p]⟩, some p, none, true⟩

variable (d micras D) in
/-- **A live playlist that is published can be read where it is the
first.** -/
theorem exists_unica (hloader : s.loader = .inicial) (hno : s.enCamino = none) {a : Lista ι}
    (ha : D.fichero D.srcUrl = some (D.ruta a)) {text : String}
    (htext : D.enDisco micras s.muxers a = some text) {m : Manifest} (hm : Parser.parse text = some m)
    (hplaylists : m.playlists = none) (hend : m.endList = false) :
    ∃ s' : Reproduccion ι δ, Relation.ReflTransGen (PasoReproduccion d micras D) s s' ∧
      s'.enCamino = none ∧ s'.muxers = s.muxers ∧ s'.escritos = s.escritos ∧
      ∃ p segments, s'.loader = esperaUnica D p ∧ p.uri = D.srcUrl ∧ p.segments = some segments ∧
        segments.length = m.segments.length := by
  obtain ⟨s₁, h₁, hloader₁, -, hno₁, hmuxers₁, hescritos₁⟩ := exists_load d micras D hloader hno
  have hrequest : s₁.loader.request = some ⟨D.srcUrl, .master⟩ := by
    rw [hloader₁]
    rfl
  obtain ⟨s₂, h₂, hloader₂, -, hno₂, hmuxers₂, hescritos₂⟩ :=
    exists_lectura d micras D hrequest hno₁ ha (by rw [hmuxers₁]; exact htext)
  refine ⟨s₂, h₁.trans h₂, hno₂, hmuxers₂.trans hmuxers₁, hescritos₂.trans hescritos₁,
    (MediaPlaylist.sinLeer D.srcUrl D.srcUrl).actualizada D.location m, _, ?_, rfl, rfl, ?_⟩
  · rw [hloader₂, PlaylistLoader.paso]
    unfold PlaylistLoader.respuesta
    rw [hrequest, hloader₁]
    simp [PlaylistLoader.haveMaster, hm, hplaylists, PlaylistLoader.haveMetadata, updateMaster,
      MasterPlaylist.playlist, MediaPlaylist.sinLeer, MediaPlaylist.sinCambios, MediaPlaylist.actualizada, hend,
      PlaylistLoader.start, PlaylistLoader.inicial, esperaUnica]
  · rw [List.length_map, MediaPlaylist.sinLeer, List.length_map]

/-- **And read again.** -/
theorem Alcanza.exists_recarga (hD : D.Ordenado) (h : s.Alcanza d micras D) (hno : s.enCamino = none)
    {p : MediaPlaylist} (hloader : s.loader = esperaUnica D p) (huri : p.uri = D.srcUrl) {a : Lista ι}
    (ha : D.fichero D.srcUrl = some (D.ruta a)) {text : String}
    (htext : D.enDisco micras s.muxers a = some text) {m : Manifest} (hm : Parser.parse text = some m) :
    ∃ s' : Reproduccion ι δ, Relation.ReflTransGen (PasoReproduccion d micras D) s s' ∧
      s'.escritos = s.escritos ∧ ∃ master p' segments, s'.loader.master = some master ∧
        p' ∈ master.playlists ∧ p'.uri = D.srcUrl ∧ p'.segments = some segments ∧
        segments.length = m.segments.length := by
  have htimeout : PasoReproduccion d micras D s (s.conEvento D .timeout) :=
    .evento fun _ _ hno => (by cases hno)
  have hrequest : (s.conEvento D .timeout).loader.request = some ⟨D.srcUrl, .refresh⟩ := by
    have hresuelta : resolveUrl D.location D.location D.srcUrl = D.srcUrl := if_pos hD.esquema
    simp [conEvento, hloader, esperaUnica, PlaylistLoader.paso, PlaylistLoader.mediaUpdate, huri, hresuelta]
  have hmedia : (s.conEvento D .timeout).loader.media = some p := by
    simp [conEvento, hloader, esperaUnica, PlaylistLoader.paso, PlaylistLoader.mediaUpdate]
  have hmaster : (s.conEvento D .timeout).loader.master = some ⟨D.location, [p]⟩ := by
    simp [conEvento, hloader, esperaUnica, PlaylistLoader.paso, PlaylistLoader.mediaUpdate]
  have hno' : (s.conEvento D .timeout).enCamino = none := by
    rw [conEvento, hno]
    exact ite_self none
  obtain ⟨s', hrun, hloader', hleidas', -, -, hescritos'⟩ :=
    exists_lectura d micras D hrequest hno' ha htext
  have hpasos := Relation.ReflTransGen.head htimeout hrun
  have huris : s'.loader.master.map MasterPlaylist.uris = some [D.srcUrl] := by
    rw [hloader', PlaylistLoader.paso]
    unfold PlaylistLoader.respuesta
    rw [hrequest, hmedia]
    simp only [Option.elim_some, PlaylistLoader.uris_haveMetadata]
    simp [hmaster, MasterPlaylist.uris, huri]
  refine ⟨s', hpasos, hescritos', (h.sigue hpasos).exists_segments hD huris (List.mem_singleton_self _) ?_⟩
  rw [hleidas', PlaylistLoader.descargas, PlaylistLoader.destinatario, hrequest, hmedia]
  simp [hm, huri, ultima]

/-- **So can that of its first variant, after a master.** -/
theorem Alcanza.exists_variante (hD : D.Ordenado) (h : s.Alcanza d micras D) (hloader : s.loader = .inicial)
    (hno : s.enCamino = none) (hleidas : s.leidas = []) (ha : D.fichero D.srcUrl = some D.maestra)
    {m : Manifest} (hm : Parser.parse D.textoMaestra = some m) {x : CurrentUri} {xs : List CurrentUri}
    (hplaylists : m.playlists = some (x :: xs)) {a : Lista ι}
    (hx : D.fichero (resolveUrl D.location D.srcUrl x.uri) = some (D.ruta a)) {text : String}
    (htext : D.enDisco micras s.muxers a = some text) {m' : Manifest} (hm' : Parser.parse text = some m') :
    ∃ s' : Reproduccion ι δ, s'.Alcanza d micras D ∧ ∃ master p segments, s'.loader.master = some master ∧
      p ∈ master.playlists ∧ p.uri = x.uri ∧ p.segments = some segments ∧
      segments.length = m'.segments.length := by
  obtain ⟨s₁, h₁, hloader₁, hleidas₁, hno₁, hmuxers₁, -⟩ := exists_load d micras D hloader hno
  have hrequest₁ : s₁.loader.request = some ⟨D.srcUrl, .master⟩ := by
    rw [hloader₁]
    rfl
  obtain ⟨s₂, h₂, hloader₂, hleidas₂, hno₂, hmuxers₂, -⟩ :=
    exists_lectura d micras D hrequest₁ hno₁ (a := .maestra) ha rfl
  have hhave : s₂.loader = s₁.loader.haveMaster D.location D.srcUrl D.textoMaestra none := by
    rw [hloader₂, PlaylistLoader.paso]
    unfold PlaylistLoader.respuesta
    rw [hrequest₁]
  have hrequest₂ : s₂.loader.request =
      some ⟨resolveUrl D.location D.srcUrl x.uri, .switching x.uri .haveMaster⟩ := by
    rw [hhave, hloader₁]
    simp [PlaylistLoader.haveMaster, hm, hplaylists, PlaylistLoader.chooseMedia, PlaylistLoader.start,
      PlaylistLoader.inicial, setupMediaPlaylists, MasterPlaylist.playlist, MediaPlaylist.sinLeer]
  have hdescargas : s₁.loader.descargas D.srcUrl (.respuesta (some D.textoMaestra) none) = [] := by
    rw [PlaylistLoader.descargas, PlaylistLoader.destinatario, hrequest₁]
    simp [hm, hplaylists]
  obtain ⟨s₃, h₃, hloader₃, hleidas₃, -⟩ := exists_lectura d micras D hrequest₂ hno₂ hx
    (by rw [hmuxers₂, hmuxers₁]; exact htext)
  have huris : s₃.loader.master.map MasterPlaylist.uris = some (PlaylistLoader.urisDe D.srcUrl m) := by
    rw [hloader₃, PlaylistLoader.paso]
    unfold PlaylistLoader.respuesta
    rw [hrequest₂]
    simp only [PlaylistLoader.uris_haveMetadata]
    rw [hhave]
    exact PlaylistLoader.uris_haveMaster s₁.loader hm none
  have h' := h.sigue ((h₁.trans h₂).trans h₃)
  refine ⟨s₃, h', h'.exists_segments hD huris ?_ ?_⟩
  · rw [PlaylistLoader.urisDe, hplaylists]
    exact List.mem_cons_self
  · rw [hleidas₃, hleidas₂, hdescargas, hleidas₁, hleidas, PlaylistLoader.descargas,
      PlaylistLoader.destinatario, hrequest₂]
    simp [hm', ultima]

end Sigue

end Reproduccion

end Fiel

end HlsXcoder
