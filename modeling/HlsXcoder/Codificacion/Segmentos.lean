import HlsXcoder.Codificacion.Muxer
import HlsXcoder.Lib.SlidingLog
import Mathlib.Data.Finset.Card

/-!
# A run of ffmpeg's hls muxer

An output of type `hls` cuts its stream into segments, each a file of its
own. With every segment it writes its playlist anew: the last
`hls_list_size` segments or, where that is zero, all of them. With
`delete_segments` the file of a segment that has left the playlist is
removed, though not at once: the newest of those that left stay until
the next one leaves (`hlsDeleteOldSegments`).

The playlist is written aside and renamed, so it changes in one step, and
a player may read it between any two steps of the muxer. The file aside
(`Plantilla.Temporal`) is gone by then and is not among those of a run.
Where the stream is cut is left to the run. So is the arithmetic of
durations: they are floating point numbers, and what is said here holds
whatever sums they give. Errors of the file system are left out, and so is
the webvtt packet that makes the first cut of an `fmp4` output, which
closes a buffer that is none.
-/

namespace HlsXcoder

/-- What the muxer computes of durations. -/
structure Duraciones (δ ρ : Type) where
  cero : ρ
  suma : ρ → δ → ρ
  resta : ρ → δ → ρ
  /-- `playlist_duration <= -duration` -/
  agotada : ρ → δ → Bool
  /-- `target_duration <= duration` -/
  alcanza : ℤ → δ → Bool
  lrint : δ → ℤ

/-- Durations in whole units. -/
def Duraciones.enteras : Duraciones ℕ ℤ where
  cero := 0
  suma p x := p + x
  resta p x := p - x
  agotada p x := p ≤ -x
  alcanza t x := t ≤ x
  lrint x := x

/-- The options of the muxer. The least threshold it accepts is one. -/
structure HLSContext where
  url : String
  segmentFilename : Option String
  maxNbSegments : ℕ
  hlsDeleteThreshold : ℕ
  deleteSegments : Bool
  fmp4 : Bool
  hasSubtitle : Bool
  allowcache : ℤ
  startSequence : ℕ
  umbral : 0 < hlsDeleteThreshold
  deriving DecidableEq, Repr

namespace HLSContext

/-- The pattern of the segments, after the playlist where none is given. -/
def basename (hls : HLSContext) : String :=
  hls.segmentFilename.getD (sinExtension hls.url ++ if hls.fmp4 then "%d.m4s" else "%d.ts")

def vttBasename (hls : HLSContext) : String := sinExtension hls.url ++ "%d.vtt"

def vttM3u8Name (hls : HLSContext) : String := sinExtension hls.url ++ "_vtt.m3u8"

/-- The file an `fmp4` output starts with. -/
def baseOutputDirname (hls : HLSContext) : String := hastaBarra hls.url ++ "init.mp4"

end HLSContext

structure HLSSegment (δ : Type) where
  filename : String
  subFilename : String
  duration : δ
  deriving DecidableEq, Repr

/-- `avf->url` is the file of the segment that is being written. -/
structure VariantStream (δ : Type) where
  sequence : ℕ
  nbEntries : ℕ
  segments : List (HLSSegment δ)
  oldSegments : List (HLSSegment δ)
  url : String
  vttUrl : String
  deriving DecidableEq, Repr

/-! ## The window -/

section Ventana

variable {δ ρ : Type} (d : Duraciones δ ρ) (hls : HLSContext)

/-- How many of the segments that left the playlist are kept: their
durations are taken from that of the playlist until it is used up, and at
most `hls_delete_threshold` are. -/
def conservados : ρ → ℕ → List (HLSSegment δ) → ℕ
  | _, segmentCnt, [] => segmentCnt
  | playlistDuration, segmentCnt, segment :: next =>
    let playlistDuration := d.resta playlistDuration segment.duration
    if d.agotada playlistDuration segment.duration = true ∨
        hls.hlsDeleteThreshold ≤ segmentCnt + 1 then segmentCnt + 1
    else conservados playlistDuration (segmentCnt + 1) next

/-- The files of a segment, as they are looked for when it is removed. -/
def rutasDeSegmento (vs : VariantStream δ) (segment : HLSSegment δ) : List String :=
  let dirname := hastaBarra (hls.segmentFilename.getD vs.url)
  let vttDirname := hastaBarra vs.vttUrl
  (dirname ++ segment.filename) ::
    if segment.subFilename = "" then [] else [vttDirname ++ segment.subFilename]

/-- The segments that are kept, and the files that are removed. -/
def hlsDeleteOldSegments (vs : VariantStream δ) : VariantStream δ × List String :=
  let playlistDuration := vs.segments.foldl (fun p segment => d.suma p segment.duration) d.cero
  let n := conservados d hls playlistDuration 0 vs.oldSegments
  ({ vs with oldSegments := vs.oldSegments.take n },
    (vs.oldSegments.drop n).flatMap (rutasDeSegmento hls vs))

/-- The segment that has been written, in the playlist. Where the list
was full its first entry leaves it. -/
def hlsAppendSegment (vs : VariantStream δ) (duration : δ) : VariantStream δ × List String :=
  let en : HLSSegment δ :=
    { filename := avBasename vs.url
      subFilename := if hls.hasSubtitle then avBasename vs.vttUrl else ""
      duration := duration }
  let segments := vs.segments ++ [en]
  if hls.maxNbSegments ≠ 0 ∧ hls.maxNbSegments ≤ vs.nbEntries then
    if hls.deleteSegments then
      let borrado := hlsDeleteOldSegments d hls { vs with
        segments := segments.tail
        oldSegments := segments.head?.toList ++ vs.oldSegments }
      ({ borrado.1 with sequence := vs.sequence + 1 }, borrado.2)
    else ({ vs with segments := segments.tail, sequence := vs.sequence + 1 }, [])
  else ({ vs with
      segments := segments
      nbEntries := vs.nbEntries + 1
      sequence := vs.sequence + 1 }, [])

/-- One entry of a playlist. -/
structure EntradaHLS (δ : Type) where
  duration : δ
  filename : String
  deriving DecidableEq, Repr

/-- What a media playlist says. -/
structure ListaHLS (δ : Type) where
  version : ℕ
  allowcache : ℤ
  targetDuration : ℤ
  sequence : ℕ
  map : Option String
  entradas : List (EntradaHLS δ)
  endList : Bool
  deriving DecidableEq, Repr

/-- **The playlist**, of the segments or of their subtitles. -/
def hlsWindow (vs : VariantStream δ) (vtt last : Bool) : ListaHLS δ where
  version := if hls.fmp4 then 7 else 3
  allowcache := hls.allowcache
  targetDuration := vs.segments.foldl
    (fun t en => if d.alcanza t en.duration then d.lrint en.duration else t) 0
  sequence := max hls.startSequence (vs.sequence - vs.nbEntries)
  map := if vtt = false ∧ hls.fmp4 = true ∧ vs.segments ≠ [] then some "init.mp4" else none
  entradas := vs.segments.map fun en => ⟨en.duration, if vtt then en.subFilename else en.filename⟩
  endList := last

/-! ## The steps -/

/-- The names of the next segment, where the patterns ask for a number. -/
def hlsStart (vs : VariantStream δ) : Option (VariantStream δ) :=
  if pideNumero hls.basename = true ∧ (hls.hasSubtitle = true → pideNumero hls.vttBasename = true) then
    some { vs with
      url := replaceIntData hls.basename vs.sequence
      vttUrl := if hls.hasSubtitle then replaceIntData hls.vttBasename vs.sequence else vs.vttUrl }
  else none

/-- Between two segments the muxer renames its playlist, then that of the
subtitles, and opens the next segment. -/
inductive FaseMuxer where
  | escribe
  | publica (last : Bool)
  | publicaVtt (last : Bool)
  | abre
  | fin
  deriving DecidableEq, Repr

/-- The muxer and what it has left on disk: the files of its segments,
which of them are open, and its playlists. -/
structure Muxer (δ : Type) where
  vs : VariantStream δ
  fase : FaseMuxer
  ficheros : Finset String
  abiertos : Finset String
  m3u8 : Option (ListaHLS δ)
  vttM3u8 : Option (ListaHLS δ)

namespace Muxer

/-- The files of the segment that is being written. Those of type `fmp4`
are written at the end. -/
def actuales (vs : VariantStream δ) : Finset String :=
  (if hls.fmp4 then ∅ else {vs.url}) ∪ if hls.hasSubtitle then {vs.vttUrl} else ∅

/-- The first segment is open. -/
def inicio (vs : VariantStream δ) : Muxer δ where
  vs := vs
  fase := .escribe
  ficheros := (if hls.fmp4 then {hls.baseOutputDirname} else ∅) ∪ actuales hls vs
  abiertos := actuales hls vs
  m3u8 := none
  vttM3u8 := none

/-- A segment ends: its files are closed and it joins the playlist. A
webvtt packet that makes the cut closes the file of the subtitles in
place of the other. -/
def cierra (m : Muxer δ) (porSubtitulo last : Bool) (duration : δ) : Muxer δ :=
  let anhadido := hlsAppendSegment d hls m.vs duration
  { m with
    vs := anhadido.1
    fase := .publica last
    ficheros := (if hls.fmp4 then insert m.vs.url m.ficheros else m.ficheros) \ anhadido.2.toFinset
    abiertos := m.abiertos \
      ((if porSubtitulo then ∅ else {m.vs.url}) ∪ if hls.hasSubtitle then {m.vs.vttUrl} else ∅) }

end Muxer

variable (δ) in
/-- The stream before the first segment. -/
def VariantStream.inicial : VariantStream δ := ⟨hls.startSequence, 0, [], [], "", ""⟩

/-- **The steps of the muxer**, with the duration of the segment that
ends where one does. -/
inductive PasoMuxer : Muxer δ → List δ → Muxer δ → Prop
  | corta {m} (h : m.fase = .escribe) (duration : δ) (porSubtitulo : Bool)
      (hs : porSubtitulo = true → hls.hasSubtitle = true ∧ hls.fmp4 = false) :
      PasoMuxer m [duration] (m.cierra d hls porSubtitulo false duration)
  | acaba {m} (h : m.fase = .escribe) (duration : δ) :
      PasoMuxer m [duration] (m.cierra d hls false true duration)
  | publica {m last} (h : m.fase = .publica last) :
      PasoMuxer m [] { m with
        m3u8 := some (hlsWindow d hls m.vs false last)
        fase := .publicaVtt last }
  | publicaVtt {m last} (h : m.fase = .publicaVtt last) :
      PasoMuxer m [] { m with
        vttM3u8 := if hls.hasSubtitle then some (hlsWindow d hls m.vs true last) else none
        fase := if last then .fin else .abre }
  | abre {m vs} (h : m.fase = .abre) (hvs : hlsStart hls m.vs = some vs) :
      PasoMuxer m [] { m with
        vs := vs
        fase := .escribe
        ficheros := m.ficheros ∪ Muxer.actuales hls vs
        abiertos := m.abiertos ∪ Muxer.actuales hls vs }

/-- A run from a state, with the durations of the segments that have
ended. -/
inductive CorreDesde (m₀ : Muxer δ) : List δ → Muxer δ → Prop
  | refl : CorreDesde m₀ [] m₀
  | paso {ds ds' m m'} (h : CorreDesde m₀ ds m) (hp : PasoMuxer d hls m ds' m') :
      CorreDesde m₀ (ds ++ ds') m'

/-- **The runs of the muxer.** -/
def Corre (ds : List δ) (m : Muxer δ) : Prop :=
  ∃ vs, hlsStart hls (.inicial δ hls) = some vs ∧ CorreDesde d hls (.inicio hls vs) ds m

end Ventana

/-! ## One step of the window -/

section Paso

variable {δ ρ : Type} {d : Duraciones δ ρ} {hls : HLSContext}

/-- The segments of a stream as a window over all that were written. -/
def VariantStream.ventana (vs : VariantStream δ) : SlidingLog.Window (HLSSegment δ) :=
  ⟨vs.segments, vs.oldSegments⟩

theorem VariantStream.length_standing (vs : VariantStream δ) :
    vs.ventana.standing.length = vs.oldSegments.length + vs.segments.length := by
  rw [SlidingLog.Window.standing, List.length_append, List.length_reverse]
  rfl

theorem conservados_bounds (p : ρ) (segmentCnt : ℕ) {segments : List (HLSSegment δ)}
    (h : segments ≠ []) (hcnt : segmentCnt < hls.hlsDeleteThreshold) :
    segmentCnt < conservados d hls p segmentCnt segments ∧
      conservados d hls p segmentCnt segments ≤ hls.hlsDeleteThreshold := by
  induction segments generalizing p segmentCnt with
  | nil => exact absurd rfl h
  | cons segment next ih =>
    rw [conservados]
    split
    · exact ⟨Nat.lt_succ_self _, hcnt⟩
    · rename_i hseguir
      rw [not_or, Nat.not_le] at hseguir
      cases next with
      | nil => exact ⟨Nat.lt_succ_self _, hcnt⟩
      | cons segment' next' =>
        obtain ⟨hlt, hle⟩ := ih (d.resta p segment.duration) (segmentCnt + 1)
          (List.cons_ne_nil _ _) hseguir.2
        exact ⟨by omega, hle⟩

/-- The segment a stream is writing. -/
def VariantStream.actual (hls : HLSContext) (vs : VariantStream δ) (duration : δ) : HLSSegment δ where
  filename := avBasename vs.url
  subFilename := if hls.hasSubtitle then avBasename vs.vttUrl else ""
  duration := duration

/-- The window once a segment has ended, before anything is removed. -/
def VariantStream.empujada (hls : HLSContext) (vs : VariantStream δ) (duration : δ) :
    SlidingLog.Window (HLSSegment δ) :=
  vs.ventana.push hls.maxNbSegments (vs.actual hls duration)

theorem empujada_of_full {vs : VariantStream δ} (hnb : vs.segments.length = vs.nbEntries)
    (hfull : hls.maxNbSegments ≠ 0 ∧ hls.maxNbSegments ≤ vs.nbEntries) (duration : δ) :
    vs.empujada hls duration = ⟨(vs.segments ++ [vs.actual hls duration]).tail,
      (vs.segments ++ [vs.actual hls duration]).head?.toList ++ vs.oldSegments⟩ := by
  rw [← hnb] at hfull
  exact if_pos hfull

theorem empujada_of_not_full {vs : VariantStream δ} (hnb : vs.segments.length = vs.nbEntries)
    (hfull : ¬ (hls.maxNbSegments ≠ 0 ∧ hls.maxNbSegments ≤ vs.nbEntries)) (duration : δ) :
    vs.empujada hls duration =
      ⟨vs.segments ++ [vs.actual hls duration], vs.oldSegments⟩ := by
  rw [← hnb] at hfull
  exact if_neg hfull

/-- **A segment that ends is pushed onto the window**; of those that have
left it at least the newest is kept, and the files of the others are
removed. -/
theorem hlsAppendSegment_delete (hdel : hls.deleteSegments = true) {vs : VariantStream δ}
    (hnb : vs.segments.length = vs.nbEntries)
    (hold : vs.oldSegments.length ≤ hls.hlsDeleteThreshold) (duration : δ) :
    ∃ n, n ≤ hls.hlsDeleteThreshold ∧ (0 < n ∨ (vs.empujada hls duration).kept = []) ∧
      hlsAppendSegment d hls vs duration = ({ vs with
          sequence := vs.sequence + 1
          nbEntries := (vs.empujada hls duration).listed.length
          segments := (vs.empujada hls duration).listed
          oldSegments := (vs.empujada hls duration).kept.take n },
        ((vs.empujada hls duration).kept.drop n).flatMap (rutasDeSegmento hls vs)) := by
  by_cases hfull : hls.maxNbSegments ≠ 0 ∧ hls.maxNbSegments ≤ vs.nbEntries
  · have hne : (vs.segments ++ [vs.actual hls duration]).head?.toList ++ vs.oldSegments ≠ [] := by
      cases vs.segments <;> simp
    have hbounds := @conservados_bounds _ _ d hls
      ((vs.segments ++ [vs.actual hls duration]).tail.foldl
        (fun p segment => d.suma p segment.duration) d.cero) 0 _ hne hls.umbral
    refine ⟨_, hbounds.2, .inl hbounds.1, ?_⟩
    rw [empujada_of_full hnb hfull, hlsAppendSegment, if_pos hfull, if_pos hdel]
    simp [hlsDeleteOldSegments, VariantStream.actual, hnb]
    rfl
  · refine ⟨vs.oldSegments.length, hold, ?_, ?_⟩
    · rw [empujada_of_not_full hnb hfull]
      cases vs.oldSegments <;> simp
    · rw [empujada_of_not_full hnb hfull, hlsAppendSegment, if_neg hfull]
      simp [VariantStream.actual, hnb]

/-- Where nothing is removed, what leaves the window is forgotten. -/
theorem hlsAppendSegment_keep (hdel : hls.deleteSegments = false) {vs : VariantStream δ}
    (hnb : vs.segments.length = vs.nbEntries) (duration : δ) :
    hlsAppendSegment d hls vs duration = ({ vs with
        sequence := vs.sequence + 1
        nbEntries := (vs.empujada hls duration).listed.length
        segments := (vs.empujada hls duration).listed }, []) := by
  by_cases hfull : hls.maxNbSegments ≠ 0 ∧ hls.maxNbSegments ≤ vs.nbEntries
  · rw [empujada_of_full hnb hfull, hlsAppendSegment, if_pos hfull, hdel]
    simp [VariantStream.actual, hnb]
  · rw [empujada_of_not_full hnb hfull, hlsAppendSegment, if_neg hfull]
    simp [VariantStream.actual, hnb]

end Paso

/-! ## What a run has written -/

namespace HLSContext

variable (hls : HLSContext)

/-- The file of a segment. -/
def nombre (n : ℕ) : String := replaceIntData hls.basename n

def nombreVtt (n : ℕ) : String := replaceIntData hls.vttBasename n

/-- The files of a segment, with that of its subtitles. -/
def ficherosDe (n : ℕ) : Finset String :=
  {hls.nombre n} ∪ if hls.hasSubtitle then {hls.nombreVtt n} else ∅

/-- How many of its segments a playlist lists. -/
def listados (k : ℕ) : ℕ := if hls.maxNbSegments = 0 then k else min k hls.maxNbSegments

/-- **The names of an output**: they stand in the directory of its
playlist, and each segment has its own. -/
structure Numera : Prop where
  patron : ∀ p ∈ hls.segmentFilename, hastaBarra p = hastaBarra hls.url
  carpeta : ∀ n, hastaBarra (hls.nombre n) = hastaBarra hls.url
  carpetaVtt : ∀ n, hastaBarra (hls.nombreVtt n) = hastaBarra hls.url
  listaVtt : hastaBarra hls.vttM3u8Name = hastaBarra hls.url
  subFilename : ∀ n, avBasename (hls.nombreVtt n) ≠ ""
  unico : ∀ {n m f}, f ∈ hls.ficherosDe n → f ∈ hls.ficherosDe m → n = m
  distintos : ∀ n, hls.nombre n ≠ hls.nombreVtt n
  inicial : ∀ n, hls.baseOutputDirname ∉ hls.ficherosDe n

end HLSContext

section Corrida

variable {δ ρ : Type} {d : Duraciones δ ρ} {hls : HLSContext}

variable (hls) in
/-- The segment of a number. -/
def segmentoDe (n : ℕ) (duration : δ) : HLSSegment δ where
  filename := avBasename (hls.nombre n)
  subFilename := if hls.hasSubtitle then avBasename (hls.nombreVtt n) else ""
  duration := duration

variable (hls) in
/-- The segments of the durations a stream was cut into. -/
def segmentosEscritos (ds : List δ) : List (HLSSegment δ) :=
  (ds.zipIdx hls.startSequence).map fun (duration, n) => segmentoDe hls n duration

@[simp] theorem length_segmentosEscritos (ds : List δ) :
    (segmentosEscritos hls ds).length = ds.length := by
  simp [segmentosEscritos]

theorem segmentosEscritos_concat (ds : List δ) (duration : δ) :
    segmentosEscritos hls (ds ++ [duration]) =
      segmentosEscritos hls ds ++ [segmentoDe hls (hls.startSequence + ds.length) duration] := by
  simp [segmentosEscritos, List.zipIdx_append]

theorem getElem?_segmentosEscritos (ds : List δ) (i : ℕ) :
    (segmentosEscritos hls ds)[i]? = ds[i]?.map (segmentoDe hls (hls.startSequence + i)) := by
  simp [segmentosEscritos, List.getElem?_zipIdx, Function.comp_def]

variable (hls) in
/-- **The stream after a run**, as far as its playlist tells. -/
def referencia (ds : List δ) : VariantStream δ where
  sequence := hls.startSequence + ds.length
  nbEntries := hls.listados ds.length
  segments := (segmentosEscritos hls ds).drop (ds.length - hls.listados ds.length)
  oldSegments := []
  url := ""
  vttUrl := ""

/-- **A stream follows a run**: its window stands at the end of what was
written, and where files are removed the newest segment that left the
playlist is still kept. -/
structure VariantStream.Sigue (hls : HLSContext) (ds : List δ) (vs : VariantStream δ) : Prop where
  sequence : vs.sequence = hls.startSequence + ds.length
  length : vs.segments.length = hls.listados ds.length
  nbEntries : vs.nbEntries = hls.listados ds.length
  standing : vs.ventana.standing <:+ segmentosEscritos hls ds
  bound : vs.oldSegments.length ≤ hls.hlsDeleteThreshold
  keeps : hls.deleteSegments = true → hls.listados ds.length < ds.length → vs.oldSegments ≠ []
  forgets : hls.deleteSegments = false → vs.oldSegments = []

namespace VariantStream.Sigue

variable {ds : List δ} {vs : VariantStream δ} {n : ℕ}

theorem segments_eq (h : vs.Sigue hls ds) :
    vs.segments = (segmentosEscritos hls ds).drop (ds.length - hls.listados ds.length) := by
  have hsuf : vs.segments <:+ segmentosEscritos hls ds :=
    vs.ventana.listed_suffix_standing.trans h.standing
  have heq := List.suffix_iff_eq_drop.1 hsuf
  rwa [length_segmentosEscritos, h.length] at heq

/-- The playlist shows the run. -/
theorem hlsWindow_eq (h : vs.Sigue hls ds) (vtt last : Bool) :
    hlsWindow d hls vs vtt last = hlsWindow d hls (referencia hls ds) vtt last := by
  rw [hlsWindow, hlsWindow, h.segments_eq, h.sequence, h.nbEntries]
  rfl

/-- The segment being written is the next one. -/
theorem actual_eq (hurl : vs.url = hls.nombre n)
    (hvtt : hls.hasSubtitle = true → vs.vttUrl = hls.nombreVtt n) (duration : δ) :
    vs.actual hls duration = segmentoDe hls n duration := by
  rw [VariantStream.actual, segmentoDe, hurl]
  by_cases hs : hls.hasSubtitle = true
  · rw [if_pos hs, if_pos hs, hvtt hs]
  · rw [if_neg hs, if_neg hs]

/-- The window with another segment ends what has been written. -/
theorem standing_empujada (h : vs.Sigue hls ds)
    (hurl : vs.url = hls.nombre (hls.startSequence + ds.length))
    (hvtt : hls.hasSubtitle = true → vs.vttUrl = hls.nombreVtt (hls.startSequence + ds.length))
    (duration : δ) :
    (vs.empujada hls duration).standing <:+ segmentosEscritos hls (ds ++ [duration]) := by
  rw [segmentosEscritos_concat, ← actual_eq hurl hvtt, VariantStream.empujada,
    SlidingLog.Window.standing_push]
  exact List.suffix_append_self_iff.2 h.standing

/-- Where the playlist does not list them all, one has left it. -/
theorem kept_ne_nil (h : vs.Sigue hls ds) (hlt : hls.listados (ds.length + 1) < ds.length + 1)
    (duration : δ) : (vs.empujada hls duration).kept ≠ [] := by
  have hfull : hls.maxNbSegments ≠ 0 ∧ hls.maxNbSegments ≤ vs.nbEntries := by
    rw [HLSContext.listados] at hlt
    rw [h.nbEntries, HLSContext.listados]
    split at hlt <;> split <;> omega
  rw [empujada_of_full (h.length.trans h.nbEntries.symm) hfull]
  cases vs.segments <;> simp

/-- **Another segment keeps a stream after its run.** -/
theorem append (h : vs.Sigue hls ds)
    (hurl : vs.url = hls.nombre (hls.startSequence + ds.length))
    (hvtt : hls.hasSubtitle = true → vs.vttUrl = hls.nombreVtt (hls.startSequence + ds.length))
    (duration : δ) :
    (hlsAppendSegment d hls vs duration).1.Sigue hls (ds ++ [duration]) := by
  have hnb : vs.segments.length = vs.nbEntries := h.length.trans h.nbEntries.symm
  have hlisted : (vs.empujada hls duration).listed.length = hls.listados (ds.length + 1) :=
    SlidingLog.Window.length_listed_push h.length
  have hstanding := h.standing_empujada hurl hvtt duration
  have hlen : (ds ++ [duration]).length = ds.length + 1 := List.length_append
  cases hdel : hls.deleteSegments with
  | true =>
    obtain ⟨n, hn, hpos, heq⟩ := hlsAppendSegment_delete hdel hnb h.bound (d := d) duration
    rw [heq]
    refine ⟨?_, ?_, ?_, ?_, ?_, fun _ hlt => ?_, fun hno => ?_⟩
    · rw [hlen, h.sequence, Nat.add_assoc]
    · rw [hlen]
      exact hlisted
    · rw [hlen]
      exact hlisted
    · exact ((vs.empujada hls duration).standing_erase_suffix n).trans hstanding
    · exact (List.length_take_le _ _).trans hn
    · rw [hlen] at hlt
      have hkept := h.kept_ne_nil hlt duration
      rw [ne_eq, List.take_eq_nil_iff, not_or]
      exact ⟨(hpos.resolve_right hkept).ne', hkept⟩
    · rw [hno] at hdel
      cases hdel
  | false =>
    have hold := h.forgets hdel
    rw [hlsAppendSegment_keep hdel hnb]
    refine ⟨?_, ?_, ?_, ?_, h.bound, fun hyes => ?_, fun _ => hold⟩
    · rw [hlen, h.sequence, Nat.add_assoc]
    · rw [hlen]
      exact hlisted
    · rw [hlen]
      exact hlisted
    · have hventana : VariantStream.ventana (δ := δ) { vs with
          sequence := vs.sequence + 1
          nbEntries := (vs.empujada hls duration).listed.length
          segments := (vs.empujada hls duration).listed } =
          ⟨(vs.empujada hls duration).listed, []⟩ := by
        rw [VariantStream.ventana, hold]
      rw [hventana]
      exact (vs.empujada hls duration).listed_suffix_standing.trans hstanding
    · rw [hyes] at hdel
      cases hdel

/-! Where files are removed, those of the oldest segments are. -/

variable (hls ds vs) in
/-- The first segment whose files have not been removed. -/
def primera : ℕ :=
  if hls.deleteSegments then ds.length - vs.ventana.standing.length else 0

theorem primera_le : primera hls ds vs ≤ ds.length := by
  rw [primera]
  split <;> omega

theorem standing_eq (h : vs.Sigue hls ds) (hdel : hls.deleteSegments = true) :
    vs.ventana.standing = (segmentosEscritos hls ds).drop (primera hls ds vs) := by
  have heq := List.suffix_iff_eq_drop.1 h.standing
  rw [length_segmentosEscritos] at heq
  rw [primera, if_pos hdel, ← heq]

/-- The files of a segment are found where they were written. -/
theorem mem_rutasDeSegmento (hnum : hls.Numera) {j : ℕ} (hurl : vs.url = hls.nombre j)
    (hvtt : hls.hasSubtitle = true → vs.vttUrl = hls.nombreVtt j) (duration : δ) (f : String) :
    f ∈ rutasDeSegmento hls vs (segmentoDe hls n duration) ↔ f ∈ hls.ficherosDe n := by
  have hdir : hastaBarra (hls.segmentFilename.getD vs.url) = hastaBarra hls.url := by
    cases hseg : hls.segmentFilename with
    | none => exact hurl ▸ hnum.carpeta j
    | some p => exact hnum.patron p hseg
  have hruta : hastaBarra (hls.segmentFilename.getD vs.url) ++ avBasename (hls.nombre n) =
      hls.nombre n := by
    rw [hdir, ← hnum.carpeta n, hastaBarra_avBasename]
  rw [rutasDeSegmento, HLSContext.ficherosDe, segmentoDe]
  by_cases hs : hls.hasSubtitle = true
  · have hrutaVtt : hastaBarra vs.vttUrl ++ avBasename (hls.nombreVtt n) = hls.nombreVtt n := by
      rw [hvtt hs, hnum.carpetaVtt j, ← hnum.carpetaVtt n, hastaBarra_avBasename]
    simp [hs, hruta, hrutaVtt, hnum.subFilename n]
  · simp [hs, hruta]

/-- **What a segment that ends removes**: the files of the segments that
are not kept any more, and no others. -/
theorem mem_borrados (hnum : hls.Numera) (h : vs.Sigue hls ds)
    (hurl : vs.url = hls.nombre (hls.startSequence + ds.length))
    (hvtt : hls.hasSubtitle = true → vs.vttUrl = hls.nombreVtt (hls.startSequence + ds.length))
    (duration : δ) (f : String) :
    primera hls ds vs ≤ primera hls (ds ++ [duration]) (hlsAppendSegment d hls vs duration).1 ∧
      (f ∈ (hlsAppendSegment d hls vs duration).2 ↔
        ∃ i, primera hls ds vs ≤ i ∧
          i < primera hls (ds ++ [duration]) (hlsAppendSegment d hls vs duration).1 ∧
            f ∈ hls.ficherosDe (hls.startSequence + i)) := by
  have hnb : vs.segments.length = vs.nbEntries := h.length.trans h.nbEntries.symm
  cases hdel : hls.deleteSegments with
  | false =>
    rw [hlsAppendSegment_keep hdel hnb, primera, primera, hdel]
    simp
  | true =>
    obtain ⟨n, -, -, heq⟩ := hlsAppendSegment_delete hdel hnb h.bound (d := d) duration
    have hstanding : (vs.empujada hls duration).standing =
        (segmentosEscritos hls (ds ++ [duration])).drop (primera hls ds vs) := by
      rw [VariantStream.empujada, SlidingLog.Window.standing_push, h.standing_eq hdel,
        actual_eq hurl hvtt, segmentosEscritos_concat, List.drop_append_of_le_length]
      rw [length_segmentosEscritos]
      exact primera_le
    have hmem (segment : HLSSegment δ) : segment ∈ (vs.empujada hls duration).kept.drop n ↔
        ∃ j, j < (vs.empujada hls duration).kept.length - n ∧
          (segmentosEscritos hls (ds ++ [duration]))[primera hls ds vs + j]? = some segment := by
      rw [← List.mem_reverse, SlidingLog.Window.reverse_drop_kept, hstanding,
        List.mem_iff_getElem?]
      simp only [List.getElem?_take, List.getElem?_drop, Option.ite_none_right_eq_some]
    have hlen : (vs.empujada hls duration).standing.length =
        ds.length + 1 - primera hls ds vs := by
      rw [hstanding, List.length_drop, length_segmentosEscritos, List.length_append, List.length_singleton]
    have hkept : (vs.empujada hls duration).kept.length ≤
        (vs.empujada hls duration).standing.length := by
      rw [SlidingLog.Window.standing, List.length_append, List.length_reverse]
      omega
    have hprimera : primera hls (ds ++ [duration]) { vs with
          sequence := vs.sequence + 1
          nbEntries := (vs.empujada hls duration).listed.length
          segments := (vs.empujada hls duration).listed
          oldSegments := (vs.empujada hls duration).kept.take n } =
        primera hls ds vs + ((vs.empujada hls duration).kept.length - n) := by
      have herase := congrArg List.length ((vs.empujada hls duration).standing_erase n)
      rw [List.length_drop] at herase
      have hle : primera hls ds vs ≤ ds.length := primera_le
      change (if hls.deleteSegments then (ds ++ [duration]).length -
        ((vs.empujada hls duration).erase n).standing.length else 0) = _
      rw [if_pos hdel, herase, List.length_append, List.length_singleton]
      omega
    rw [heq, hprimera, List.mem_flatMap]
    refine ⟨Nat.le_add_right _ _, ?_, ?_⟩
    · rintro ⟨segment, hsegment, hf⟩
      obtain ⟨j, hj, hget⟩ := (hmem segment).1 hsegment
      rw [getElem?_segmentosEscritos, Option.map_eq_some_iff] at hget
      obtain ⟨duration', -, rfl⟩ := hget
      exact ⟨primera hls ds vs + j, by omega, by omega,
        (mem_rutasDeSegmento hnum hurl hvtt duration' f).1 hf⟩
    · rintro ⟨i, hi, hlt, hf⟩
      have hi' : i < (ds ++ [duration]).length := by
        rw [List.length_append, List.length_singleton]
        omega
      refine ⟨segmentoDe hls (hls.startSequence + i) (ds ++ [duration])[i], (hmem _).2
        ⟨i - primera hls ds vs, by omega, ?_⟩, (mem_rutasDeSegmento hnum hurl hvtt _ f).2 hf⟩
      rw [Nat.add_sub_cancel' hi, getElem?_segmentosEscritos, List.getElem?_eq_getElem hi']
      rfl

end VariantStream.Sigue

/-! ## The invariant of a run -/

/-- How many of `k` segments the playlist on disk knows of. -/
def FaseMuxer.publicados (k : ℕ) : FaseMuxer → ℕ
  | .publica _ => k - 1
  | _ => k

def FaseMuxer.publicadosVtt (k : ℕ) : FaseMuxer → ℕ
  | .publica _ | .publicaVtt _ => k - 1
  | _ => k

/-- Whether the playlist on disk is the last one. -/
def FaseMuxer.ultima : FaseMuxer → Bool
  | .publicaVtt last => last
  | .fin => true
  | _ => false

def FaseMuxer.ultimaVtt : FaseMuxer → Bool
  | .fin => true
  | _ => false

variable (d hls) in
/-- The playlist after the first `n` segments of a run. -/
def listaTras (ds : List δ) (n : ℕ) (vtt last : Bool) : Option (ListaHLS δ) :=
  if n = 0 then none else some (hlsWindow d hls (referencia hls (ds.take n)) vtt last)

theorem listaTras_append {ds : List δ} {n : ℕ} (h : n ≤ ds.length) (duration : δ)
    (vtt last : Bool) :
    listaTras d hls (ds ++ [duration]) n vtt last = listaTras d hls ds n vtt last := by
  rw [listaTras, listaTras, List.take_append_of_le_length h]

/-- **What holds between any two steps of the muxer.** The files on disk
are those of the segments from the first one kept to the one being
written, and the playlists show the run, the last step or two apart. -/
structure Muxer.Refleja (d : Duraciones δ ρ) (hls : HLSContext) (ds : List δ) (m : Muxer δ) :
    Prop where
  sigue : m.vs.Sigue hls ds
  inicio : ds = [] → m.fase = .escribe
  url : m.fase = .escribe → m.vs.url = hls.nombre (hls.startSequence + ds.length)
  vttUrl : m.fase = .escribe → hls.hasSubtitle = true →
    m.vs.vttUrl = hls.nombreVtt (hls.startSequence + ds.length)
  m3u8 : m.m3u8 = listaTras d hls ds (m.fase.publicados ds.length) false m.fase.ultima
  vttM3u8 : m.vttM3u8 = if hls.hasSubtitle then
    listaTras d hls ds (m.fase.publicadosVtt ds.length) true m.fase.ultimaVtt else none
  ficheros : ∀ f, f ∈ m.ficheros ↔ (hls.fmp4 = true ∧ f = hls.baseOutputDirname) ∨
    (∃ i, VariantStream.Sigue.primera hls ds m.vs ≤ i ∧ i < ds.length ∧
      f ∈ hls.ficherosDe (hls.startSequence + i)) ∨
      (m.fase = .escribe ∧ f ∈ Muxer.actuales hls m.vs)
  abiertos : ∀ f ∈ m.abiertos, (m.fase = .escribe ∧ f ∈ Muxer.actuales hls m.vs) ∨
    (hls.hasSubtitle = true ∧ ∃ i < ds.length, f = hls.nombre (hls.startSequence + i))

theorem hlsStart_eq_some {vs vs' : VariantStream δ} (h : hlsStart hls vs = some vs') :
    vs' = { vs with
      url := hls.nombre vs.sequence
      vttUrl := if hls.hasSubtitle then hls.nombreVtt vs.sequence else vs.vttUrl } := by
  rw [hlsStart] at h
  split at h
  · exact (Option.some_inj.1 h).symm
  · cases h

namespace Muxer.Refleja

variable {ds : List δ} {m : Muxer δ}

theorem inicial {vs : VariantStream δ} (h : hlsStart hls (.inicial δ hls) = some vs) :
    (Muxer.inicio hls vs).Refleja d hls [] := by
  have hzero : hls.listados 0 = 0 := by simp [HLSContext.listados]
  obtain rfl := hlsStart_eq_some h
  refine ⟨⟨rfl, hzero.symm, hzero.symm, List.suffix_rfl, Nat.zero_le _, ?_, fun _ => rfl⟩,
    fun _ => rfl, fun _ => rfl, fun _ hs => if_pos hs, rfl, ?_, fun f => ?_, fun f hf => ?_⟩
  · exact fun _ hlt => absurd hlt (Nat.not_lt_zero _)
  · simp [Muxer.inicio, listaTras, FaseMuxer.publicadosVtt]
  · by_cases hf : hls.fmp4 = true <;> simp [Muxer.inicio, hf]
  · exact .inl ⟨rfl, hf⟩

/-- The files a segment leaves, those of type `fmp4` among them. -/
theorem mem_ficherosDe_iff {vs : VariantStream δ} {n : ℕ} (hurl : vs.url = hls.nombre n)
    (hvtt : hls.hasSubtitle = true → vs.vttUrl = hls.nombreVtt n) (f : String) :
    f ∈ hls.ficherosDe n ↔ (hls.fmp4 = true ∧ f = vs.url) ∨ f ∈ Muxer.actuales hls vs := by
  rw [HLSContext.ficherosDe, Muxer.actuales, hurl]
  by_cases hs : hls.hasSubtitle = true
  · rw [hvtt hs]
    by_cases hf : hls.fmp4 = true <;> simp [hs, hf]
  · by_cases hf : hls.fmp4 = true <;> simp [hs, hf]

/-- The files of a run, and those of one more segment. -/
theorem exists_lt_succ {P : ℕ → Prop} {a k : ℕ} (h : a ≤ k) :
    (∃ i, a ≤ i ∧ i < k + 1 ∧ P i) ↔ (∃ i, a ≤ i ∧ i < k ∧ P i) ∨ P k := by
  constructor
  · rintro ⟨i, hi, hlt, hP⟩
    rcases Nat.lt_succ_iff_lt_or_eq.1 hlt with hlt | rfl
    · exact .inl ⟨i, hi, hlt, hP⟩
    · exact .inr hP
  · rintro (⟨i, hi, hlt, hP⟩ | hP)
    · exact ⟨i, hi, Nat.lt_succ_of_lt hlt, hP⟩
    · exact ⟨k, h, Nat.lt_succ_self _, hP⟩

/-- What stands when a segment ends, before anything is removed. -/
theorem mem_ficheros_escrito (h : m.Refleja d hls ds) (hfase : m.fase = .escribe) (f : String) :
    f ∈ (if hls.fmp4 then insert m.vs.url m.ficheros else m.ficheros) ↔
      (hls.fmp4 = true ∧ f = hls.baseOutputDirname) ∨
        ∃ i, VariantStream.Sigue.primera hls ds m.vs ≤ i ∧ i < ds.length + 1 ∧
          f ∈ hls.ficherosDe (hls.startSequence + i) := by
  have hescrito : f ∈ (if hls.fmp4 then insert m.vs.url m.ficheros else m.ficheros) ↔
      (hls.fmp4 = true ∧ f = m.vs.url) ∨ f ∈ m.ficheros := by
    by_cases hf : hls.fmp4 = true <;> simp [hf]
  have hactual : (m.fase = .escribe ∧ f ∈ Muxer.actuales hls m.vs) ↔
      f ∈ Muxer.actuales hls m.vs := and_iff_right hfase
  rw [hescrito, h.ficheros, hactual, exists_lt_succ VariantStream.Sigue.primera_le,
    mem_ficherosDe_iff (h.url hfase) (h.vttUrl hfase)]
  exact or_left_comm.trans (or_congr_right or_left_comm)

/-- The files once a segment has ended. -/
theorem mem_ficheros_cierra (hnum : hls.Numera) (h : m.Refleja d hls ds)
    (hfase : m.fase = .escribe) (duration : δ) (f : String) :
    f ∈ (if hls.fmp4 then insert m.vs.url m.ficheros else m.ficheros) \
        (hlsAppendSegment d hls m.vs duration).2.toFinset ↔
      (hls.fmp4 = true ∧ f = hls.baseOutputDirname) ∨
        ∃ i, VariantStream.Sigue.primera hls (ds ++ [duration])
            (hlsAppendSegment d hls m.vs duration).1 ≤ i ∧ i < ds.length + 1 ∧
          f ∈ hls.ficherosDe (hls.startSequence + i) := by
  obtain ⟨hle, hmem⟩ := VariantStream.Sigue.mem_borrados hnum h.sigue (h.url hfase)
    (h.vttUrl hfase) duration f (d := d)
  rw [Finset.mem_sdiff, List.mem_toFinset, mem_ficheros_escrito h hfase, hmem]
  constructor
  · rintro ⟨hinicial | ⟨i, hi, hlt, hf⟩, hno⟩
    · exact .inl hinicial
    · exact .inr ⟨i, Nat.le_of_not_lt fun hi' => hno ⟨i, hi, hi', hf⟩, hlt, hf⟩
  · rintro (hinicial | ⟨i, hi, hlt, hf⟩)
    · refine ⟨.inl hinicial, ?_⟩
      rintro ⟨i, -, -, hf⟩
      exact hnum.inicial _ (hinicial.2 ▸ hf)
    · refine ⟨.inr ⟨i, hle.trans hi, hlt, hf⟩, ?_⟩
      rintro ⟨j, -, hj, hf'⟩
      have := hnum.unico hf' hf
      omega

/-- What is still open once a segment has ended: only the packet of a
subtitle leaves one open. -/
theorem abiertos_cierra (h : m.Refleja d hls ds) (hfase : m.fase = .escribe)
    {porSubtitulo : Bool} (hs : porSubtitulo = true → hls.hasSubtitle = true ∧ hls.fmp4 = false)
    {f : String} (hf : f ∈ m.abiertos \
      ((if porSubtitulo then ∅ else {m.vs.url}) ∪ if hls.hasSubtitle then {m.vs.vttUrl} else ∅)) :
    hls.hasSubtitle = true ∧ ∃ i < ds.length + 1, f = hls.nombre (hls.startSequence + i) := by
  obtain ⟨hf, hno⟩ := Finset.mem_sdiff.1 hf
  rw [Finset.mem_union, not_or] at hno
  rcases h.abiertos f hf with ⟨-, hactual⟩ | ⟨hsub, i, hi, rfl⟩
  · rw [Muxer.actuales, Finset.mem_union] at hactual
    have hurl := hactual.resolve_right hno.2
    cases porSubtitulo with
    | false =>
      refine absurd ?_ hno.1
      split at hurl
      · cases hurl
      · exact hurl
    | true =>
      rw [(hs rfl).2, if_neg Bool.false_ne_true, Finset.mem_singleton] at hurl
      exact ⟨(hs rfl).1, ds.length, Nat.lt_succ_self _, hurl.trans (h.url hfase)⟩
  · exact ⟨hsub, i, Nat.lt_succ_of_lt hi, rfl⟩

/-- **A segment that ends keeps the invariant.** -/
theorem cierra (hnum : hls.Numera) (h : m.Refleja d hls ds) (hfase : m.fase = .escribe)
    {porSubtitulo : Bool} (hs : porSubtitulo = true → hls.hasSubtitle = true ∧ hls.fmp4 = false)
    (last : Bool) (duration : δ) :
    (m.cierra d hls porSubtitulo last duration).Refleja d hls (ds ++ [duration]) := by
  have hlen : (ds ++ [duration]).length = ds.length + 1 := List.length_append
  have hm3u8 := h.m3u8
  have hvttM3u8 := h.vttM3u8
  rw [hfase] at hm3u8 hvttM3u8
  refine ⟨h.sigue.append (h.url hfase) (h.vttUrl hfase) duration, ?_, ?_, ?_, ?_, ?_, fun f => ?_,
    fun f hf => ?_⟩
  · exact fun hno => absurd hno (List.append_ne_nil_of_right_ne_nil _ (List.cons_ne_nil _ _))
  · exact fun hno => FaseMuxer.noConfusion hno
  · exact fun hno => FaseMuxer.noConfusion hno
  · change m.m3u8 = listaTras d hls (ds ++ [duration]) ((ds ++ [duration]).length - 1) false false
    rw [hlen, Nat.add_sub_cancel, listaTras_append le_rfl, hm3u8]
    rfl
  · change m.vttM3u8 = if hls.hasSubtitle then
      listaTras d hls (ds ++ [duration]) ((ds ++ [duration]).length - 1) true false else none
    rw [hlen, Nat.add_sub_cancel, listaTras_append le_rfl, hvttM3u8]
    rfl
  · rw [hlen]
    refine (mem_ficheros_cierra hnum h hfase duration f).trans (or_congr_right ?_)
    exact (or_iff_left fun hno => FaseMuxer.noConfusion hno.1).symm
  · rw [hlen]
    exact .inr (abiertos_cierra h hfase hs hf)

/-- The playlist of the stream is that of the whole run. -/
theorem listaTras_length (h : m.Refleja d hls ds) (hfase : m.fase ≠ .escribe) (vtt last : Bool) :
    some (hlsWindow d hls m.vs vtt last) = listaTras d hls ds ds.length vtt last := by
  have hne : ds.length ≠ 0 := fun hno => hfase (h.inicio (List.length_eq_zero_iff.1 hno))
  rw [listaTras, if_neg hne, List.take_length, h.sigue.hlsWindow_eq]

/-- Between two segments nothing is being written. -/
theorem mem_ficheros_of_ne (h : m.Refleja d hls ds) (hfase : m.fase ≠ .escribe) {fase : FaseMuxer}
    (hfase' : fase ≠ .escribe) (f : String) :
    f ∈ m.ficheros ↔ (hls.fmp4 = true ∧ f = hls.baseOutputDirname) ∨
      (∃ i, VariantStream.Sigue.primera hls ds m.vs ≤ i ∧ i < ds.length ∧
        f ∈ hls.ficherosDe (hls.startSequence + i)) ∨
        (fase = .escribe ∧ f ∈ Muxer.actuales hls m.vs) := by
  rw [h.ficheros]
  simp only [hfase, hfase', false_and]

theorem abiertos_of_ne (h : m.Refleja d hls ds) (hfase : m.fase ≠ .escribe) {f : String}
    (hf : f ∈ m.abiertos) :
    hls.hasSubtitle = true ∧ ∃ i < ds.length, f = hls.nombre (hls.startSequence + i) :=
  (h.abiertos f hf).resolve_left fun hno => hfase hno.1

/-- **A playlist that is renamed into place** shows the whole run. -/
theorem publica (h : m.Refleja d hls ds) {last : Bool} (hfase : m.fase = .publica last) :
    Muxer.Refleja d hls ds { m with
      m3u8 := some (hlsWindow d hls m.vs false last)
      fase := .publicaVtt last } := by
  have hne : m.fase ≠ .escribe := by
    rw [hfase]
    exact FaseMuxer.noConfusion
  have hvttM3u8 := h.vttM3u8
  rw [hfase] at hvttM3u8
  exact ⟨h.sigue, fun hno => absurd (h.inicio hno) hne, fun hno => FaseMuxer.noConfusion hno,
    fun hno => FaseMuxer.noConfusion hno, h.listaTras_length hne false last, hvttM3u8,
    h.mem_ficheros_of_ne hne FaseMuxer.noConfusion, fun f hf => .inr (h.abiertos_of_ne hne hf)⟩

theorem publicaVtt (h : m.Refleja d hls ds) {last : Bool} (hfase : m.fase = .publicaVtt last) :
    Muxer.Refleja d hls ds { m with
      vttM3u8 := if hls.hasSubtitle then some (hlsWindow d hls m.vs true last) else none
      fase := if last then .fin else .abre } := by
  have hne : m.fase ≠ .escribe := by
    rw [hfase]
    exact FaseMuxer.noConfusion
  have hm3u8 := h.m3u8
  have hvttM3u8 := h.listaTras_length hne true last
  rw [hfase] at hm3u8
  cases last with
  | false =>
    refine ⟨h.sigue, fun hno => absurd (h.inicio hno) hne, fun hno => FaseMuxer.noConfusion hno,
      fun hno => FaseMuxer.noConfusion hno, hm3u8, ?_, h.mem_ficheros_of_ne hne
        FaseMuxer.noConfusion, fun f hf => .inr (h.abiertos_of_ne hne hf)⟩
    rw [hvttM3u8]
    rfl
  | true =>
    refine ⟨h.sigue, fun hno => absurd (h.inicio hno) hne, fun hno => FaseMuxer.noConfusion hno,
      fun hno => FaseMuxer.noConfusion hno, hm3u8, ?_, h.mem_ficheros_of_ne hne
        FaseMuxer.noConfusion, fun f hf => .inr (h.abiertos_of_ne hne hf)⟩
    rw [hvttM3u8]
    rfl

/-- **The next segment keeps the invariant.** -/
theorem abre (h : m.Refleja d hls ds) (hfase : m.fase = .abre) {vs : VariantStream δ}
    (hvs : hlsStart hls m.vs = some vs) :
    Muxer.Refleja d hls ds { m with
      vs := vs
      fase := .escribe
      ficheros := m.ficheros ∪ Muxer.actuales hls vs
      abiertos := m.abiertos ∪ Muxer.actuales hls vs } := by
  have hne : m.fase ≠ .escribe := by
    rw [hfase]
    exact FaseMuxer.noConfusion
  have hm3u8 := h.m3u8
  have hvttM3u8 := h.vttM3u8
  rw [hfase] at hm3u8 hvttM3u8
  obtain rfl := hlsStart_eq_some hvs
  refine ⟨⟨h.sigue.sequence, h.sigue.length, h.sigue.nbEntries, h.sigue.standing, h.sigue.bound,
    h.sigue.keeps, h.sigue.forgets⟩, fun _ => rfl, fun _ => congrArg hls.nombre h.sigue.sequence,
    fun _ hs => ?_, hm3u8, hvttM3u8, fun f => ?_, fun f hf => ?_⟩
  · rw [← h.sigue.sequence]
    exact if_pos hs
  · rw [Finset.mem_union, h.ficheros, or_assoc, or_assoc, hfase]
    refine or_congr_right (or_congr Iff.rfl ?_)
    rw [or_iff_right fun hno => FaseMuxer.noConfusion hno.1]
    exact (and_iff_right rfl).symm
  · rcases Finset.mem_union.1 hf with hf | hf
    · exact .inr (h.abiertos_of_ne hne hf)
    · exact .inl ⟨rfl, hf⟩

/-- **Every step keeps the invariant.** -/
theorem paso (hnum : hls.Numera) (h : m.Refleja d hls ds) {ds' : List δ} {m' : Muxer δ}
    (hp : PasoMuxer d hls m ds' m') : m'.Refleja d hls (ds ++ ds') := by
  cases hp with
  | corta hfase duration porSubtitulo hs => exact h.cierra hnum hfase hs false duration
  | acaba hfase duration =>
    exact h.cierra hnum hfase (fun hno => absurd hno Bool.false_ne_true) true duration
  | publica hfase =>
    rw [List.append_nil]
    exact h.publica hfase
  | publicaVtt hfase =>
    rw [List.append_nil]
    exact h.publicaVtt hfase
  | abre hfase hvs =>
    rw [List.append_nil]
    exact h.abre hfase hvs

theorem desde (hnum : hls.Numera) (h : m.Refleja d hls ds) {ds' : List δ} {m' : Muxer δ}
    (hr : CorreDesde d hls m ds' m') : m'.Refleja d hls (ds ++ ds') := by
  induction hr with
  | refl => rwa [List.append_nil]
  | paso _ hp ih =>
    rw [← List.append_assoc]
    exact ih.paso hnum hp

end Muxer.Refleja

/-- **The invariant of a run.** -/
theorem Corre.refleja (hnum : hls.Numera) {ds : List δ} {m : Muxer δ} (h : Corre d hls ds m) :
    m.Refleja d hls ds := by
  obtain ⟨vs, hvs, hr⟩ := h
  exact (Muxer.Refleja.inicial hvs).desde hnum hr

end Corrida

end HlsXcoder
