import HlsXcoder.Codificacion.Segmentos
import Mathlib.Algebra.Order.BigOperators.Group.Finset
import Mathlib.Order.Interval.Finset.Nat

/-!
# What a player finds on disk

The playlist of an output is a window over its segments: entry `i` of a
playlist with number `n` is segment `n + i`, whenever it is read
(`Corre.muestra`). So two playlists read one after the other agree on
what they share (`Corre.recarga`), and the segments of a playlist stand
on disk until the next one is in place (`Corre.presentes`): they are
removed later than they leave it. Where segments are removed an output
never holds more of them than its playlist, those that are kept and the
one being written (`Corre.card_ficheros_le`).
-/

namespace HlsXcoder

open VariantStream.Sigue (primera primera_le)

variable {δ ρ : Type} {d : Duraciones δ ρ} {hls : HLSContext} {ds : List δ} {m : Muxer δ}

/-! ## What a playlist shows -/

/-- **A playlist shows a run up to a segment**: its entries are the last
segments before it, each under its own number. -/
structure ListaHLS.Muestra (hls : HLSContext) (ds : List δ) (vtt : Bool) (k : ℕ)
    (l : ListaHLS δ) : Prop where
  le : k ≤ ds.length
  sequence : l.sequence = hls.startSequence + (k - hls.listados k)
  length : l.entradas.length = hls.listados k
  entrada : ∀ (i : ℕ) (e : EntradaHLS δ), l.entradas[i]? = some e →
    ds[k - hls.listados k + i]? = some e.duration ∧
      e.filename = avBasename
        (if vtt then hls.nombreVtt (l.sequence + i) else hls.nombre (l.sequence + i))

theorem HLSContext.listados_le (hls : HLSContext) (k : ℕ) : hls.listados k ≤ k := by
  rw [HLSContext.listados]
  split <;> omega

theorem muestra_listaTras {k : ℕ} (hk : k ≤ ds.length) {vtt last : Bool}
    (hvtt : vtt = true → hls.hasSubtitle = true) {l : ListaHLS δ}
    (h : listaTras d hls ds k vtt last = some l) : l.Muestra hls ds vtt k := by
  rw [listaTras] at h
  split at h
  · cases h
  · obtain rfl := Option.some_inj.1 h
    have hle := hls.listados_le k
    have hsequence : (hlsWindow d hls (referencia hls (ds.take k)) vtt last).sequence =
        hls.startSequence + (k - hls.listados k) := by
      simp only [hlsWindow, referencia, List.length_take, min_eq_left hk]
      omega
    refine ⟨hk, hsequence, ?_, fun i e he => ?_⟩
    · simp only [hlsWindow, referencia, List.length_map, List.length_drop, length_segmentosEscritos,
        List.length_take, min_eq_left hk]
      omega
    · rw [hsequence]
      simp only [hlsWindow, referencia, List.getElem?_map, List.getElem?_drop, getElem?_segmentosEscritos,
        List.length_take, min_eq_left hk, Option.map_map, Option.map_eq_some_iff] at he
      obtain ⟨duration, hget, rfl⟩ := he
      have hlt : k - hls.listados k + i < k := by
        by_contra hno
        rw [List.getElem?_eq_none (by rw [List.length_take]; omega)] at hget
        cases hget
      rw [List.getElem?_take_of_lt hlt] at hget
      refine ⟨hget, ?_⟩
      rw [Nat.add_assoc]
      cases vtt with
      | false => rfl
      | true => simp [segmentoDe, hvtt rfl]

/-- A playlist of an output, as it stands on disk. -/
def Muxer.lista (m : Muxer δ) (vtt : Bool) : Option (ListaHLS δ) := if vtt then m.vttM3u8 else m.m3u8

/-- How many segments it shows of those that have ended. -/
def Muxer.publicados (m : Muxer δ) (ds : List δ) (vtt : Bool) : ℕ :=
  if vtt then m.fase.publicadosVtt ds.length else m.fase.publicados ds.length

theorem FaseMuxer.publicados_bounds (fase : FaseMuxer) (k : ℕ) :
    fase.publicados k ≤ k ∧ k ≤ fase.publicados k + 1 := by
  cases fase <;> simp only [FaseMuxer.publicados] <;> omega

theorem FaseMuxer.publicadosVtt_bounds (fase : FaseMuxer) (k : ℕ) :
    fase.publicadosVtt k ≤ k ∧ k ≤ fase.publicadosVtt k + 1 := by
  cases fase <;> simp only [FaseMuxer.publicadosVtt] <;> omega

theorem Muxer.publicados_bounds (m : Muxer δ) (ds : List δ) (vtt : Bool) :
    m.publicados ds vtt ≤ ds.length ∧ ds.length ≤ m.publicados ds vtt + 1 := by
  cases vtt with
  | false => exact m.fase.publicados_bounds _
  | true => exact m.fase.publicadosVtt_bounds _

/-- **What stands on disk** is the playlist of the segments it shows. -/
theorem Corre.listaTras_of_lista (hnum : hls.Numera) (h : Corre d hls ds m) {vtt : Bool}
    {l : ListaHLS δ} (hl : l ∈ m.lista vtt) : (vtt = true → hls.hasSubtitle = true) ∧
      ∃ last, listaTras d hls ds (m.publicados ds vtt) vtt last = some l := by
  have hr := h.refleja hnum
  cases vtt with
  | false => exact ⟨fun hno => absurd hno Bool.false_ne_true, _, hr.m3u8.symm.trans hl⟩
  | true =>
    have hvtt := hr.vttM3u8.symm.trans hl
    split at hvtt
    · rename_i hs
      exact ⟨fun _ => hs, _, hvtt⟩
    · cases hvtt

/-- **What the playlists on disk show**, at any time: the run as it is,
or as it was one segment ago while the next playlist is put in place. -/
theorem Corre.muestra (hnum : hls.Numera) (h : Corre d hls ds m) {vtt : Bool} {l : ListaHLS δ}
    (hl : l ∈ m.lista vtt) : l.Muestra hls ds vtt (m.publicados ds vtt) := by
  obtain ⟨hvtt, last, hlista⟩ := h.listaTras_of_lista hnum hl
  exact muestra_listaTras (m.publicados_bounds ds vtt).1 hvtt hlista

/-! ## What stands on disk -/

/-- **Nothing a playlist shows has been removed**, not even where the run
is one segment ahead of it. -/
theorem VariantStream.Sigue.primera_le_of_muestra {vs : VariantStream δ} (h : vs.Sigue hls ds)
    {k : ℕ} (hk : k ≤ ds.length) (hk' : ds.length ≤ k + 1) :
    primera hls ds vs ≤ k - hls.listados k := by
  rw [primera]
  split
  · rename_i hdel
    have hlen := vs.length_standing
    rw [h.length] at hlen
    have hkeeps (hlt : hls.listados ds.length < ds.length) : 0 < vs.oldSegments.length :=
      List.length_pos_iff.2 (h.keeps hdel hlt)
    rw [hlen]
    by_cases hmax : hls.maxNbSegments = 0
    · simp only [HLSContext.listados, if_pos hmax]
      omega
    · simp only [HLSContext.listados, if_neg hmax] at hkeeps ⊢
      by_cases hlt : min ds.length hls.maxNbSegments < ds.length
      · have := hkeeps hlt
        omega
      · omega
  · exact Nat.zero_le _

/-- The entries of a playlist are segments that are kept. -/
theorem ListaHLS.Muestra.entrada_lt {vtt : Bool} {k : ℕ} {l : ListaHLS δ}
    (h : l.Muestra hls ds vtt k) {vs : VariantStream δ} (hvs : vs.Sigue hls ds)
    (hk : ds.length ≤ k + 1) {i : ℕ} {e : EntradaHLS δ} (he : l.entradas[i]? = some e) :
    k - hls.listados k + i < ds.length ∧ primera hls ds vs ≤ k - hls.listados k + i := by
  have hlt := (List.getElem?_eq_some_iff.1 (h.entrada i e he).1).1
  exact ⟨hlt, (hvs.primera_le_of_muestra h.le hk).trans (Nat.le_add_right _ _)⟩

/-- The files of a segment that is still kept. -/
theorem Muxer.Refleja.mem_ficheros (h : m.Refleja d hls ds) {i : ℕ}
    (hi : primera hls ds m.vs ≤ i) (hlt : i < ds.length) {f : String}
    (hf : f ∈ hls.ficherosDe (hls.startSequence + i)) : f ∈ m.ficheros :=
  (h.ficheros f).2 (.inr (.inl ⟨i, hi, hlt, hf⟩))

/-- The file of a segment that has ended is closed, webvtt apart. -/
theorem Muxer.Refleja.notMem_abiertos (hnum : hls.Numera) (h : m.Refleja d hls ds) {i : ℕ}
    (hlt : i < ds.length) {f : String} (hf : f ∈ hls.ficherosDe (hls.startSequence + i))
    (hs : hls.hasSubtitle = true → f = hls.nombreVtt (hls.startSequence + i)) :
    f ∉ m.abiertos := by
  intro hno
  rcases h.abiertos f hno with ⟨hfase, hactual⟩ | ⟨hsub, j, hj, heq⟩
  · have hnueva : f ∈ hls.ficherosDe (hls.startSequence + ds.length) :=
      (Muxer.Refleja.mem_ficherosDe_iff (h.url hfase) (h.vttUrl hfase) f).2 (.inr hactual)
    have := hnum.unico hf hnueva
    omega
  · have hmem : f ∈ hls.ficherosDe (hls.startSequence + j) := by
      rw [heq, HLSContext.ficherosDe]
      exact Finset.mem_union_left _ (Finset.mem_singleton_self _)
    have hij := hnum.unico hf hmem
    rw [← hij, hs hsub] at heq
    exact hnum.distintos _ heq.symm

theorem HLSContext.mem_ficherosDe {hls : HLSContext} {n : ℕ} {f : String} :
    f ∈ hls.ficherosDe n ↔ f = hls.nombre n ∨ hls.hasSubtitle = true ∧ f = hls.nombreVtt n := by
  rw [HLSContext.ficherosDe, Finset.mem_union, Finset.mem_singleton]
  refine or_congr_right ?_
  split
  · rename_i hs
    rw [Finset.mem_singleton]
    exact (and_iff_right hs).symm
  · rename_i hs
    exact ⟨fun h => absurd h (Finset.notMem_empty _), fun h => absurd h.1 hs⟩

theorem HLSContext.nombre_mem (hls : HLSContext) (n : ℕ) : hls.nombre n ∈ hls.ficherosDe n :=
  Finset.mem_union_left _ (Finset.mem_singleton_self _)

theorem HLSContext.nombreVtt_mem {hls : HLSContext} (h : hls.hasSubtitle = true) (n : ℕ) :
    hls.nombreVtt n ∈ hls.ficherosDe n := by
  rw [HLSContext.ficherosDe, if_pos h]
  exact Finset.mem_union_right _ (Finset.mem_singleton_self _)

/-- The files a playlist lists, as a player looks for them. -/
theorem ListaHLS.Muestra.presente (hnum : hls.Numera) (h : m.Refleja d hls ds) {vtt : Bool} {k : ℕ}
    {l : ListaHLS δ} (hl : l.Muestra hls ds vtt k) (hk : ds.length ≤ k + 1)
    (hvtt : vtt = true → hls.hasSubtitle = true) {e : EntradaHLS δ} (he : e ∈ l.entradas) :
    hastaBarra hls.url ++ e.filename ∈ m.ficheros ∧
      (hls.hasSubtitle = vtt → hastaBarra hls.url ++ e.filename ∉ m.abiertos) := by
  obtain ⟨i, hi⟩ := List.mem_iff_getElem?.1 he
  obtain ⟨hlt, hprimera⟩ := hl.entrada_lt h.sigue hk hi
  have hfile := (hl.entrada i e hi).2
  rw [hl.sequence, Nat.add_assoc] at hfile
  cases vtt with
  | false =>
    have hruta : hastaBarra hls.url ++ e.filename =
        hls.nombre (hls.startSequence + (k - hls.listados k + i)) := by
      rw [hfile, ← hnum.carpeta, if_neg Bool.false_ne_true, hastaBarra_avBasename]
    rw [hruta]
    exact ⟨h.mem_ficheros hprimera hlt (hls.nombre_mem _), fun hs =>
      h.notMem_abiertos hnum hlt (hls.nombre_mem _) fun hno => absurd (hs.symm.trans hno) (by simp)⟩
  | true =>
    have hruta : hastaBarra hls.url ++ e.filename =
        hls.nombreVtt (hls.startSequence + (k - hls.listados k + i)) := by
      rw [hfile, ← hnum.carpetaVtt, if_pos rfl, hastaBarra_avBasename]
    have hmem := HLSContext.nombreVtt_mem (hvtt rfl)
      (hls.startSequence + (k - hls.listados k + i))
    rw [hruta]
    exact ⟨h.mem_ficheros hprimera hlt hmem, fun _ =>
      h.notMem_abiertos hnum hlt hmem fun _ => rfl⟩

/-- **Whatever a playlist on disk names is there**, at every step of
every run: its segments, written to the end where the output has no
webvtt, the segments of its subtitles, and the file an `fmp4` stream
starts with. -/
theorem Corre.presentes (hnum : hls.Numera) (h : Corre d hls ds m) :
    (∀ l ∈ m.m3u8,
      (∀ e ∈ l.entradas, hastaBarra hls.url ++ e.filename ∈ m.ficheros ∧
        (hls.hasSubtitle = false → hastaBarra hls.url ++ e.filename ∉ m.abiertos)) ∧
      ∀ f ∈ l.map, hastaBarra hls.url ++ f ∈ m.ficheros) ∧
    ∀ l ∈ m.vttM3u8, ∀ e ∈ l.entradas, hastaBarra hls.vttM3u8Name ++ e.filename ∈ m.ficheros ∧
      hastaBarra hls.vttM3u8Name ++ e.filename ∉ m.abiertos := by
  have hr := h.refleja hnum
  refine ⟨fun l hl => ⟨fun e he => ?_, fun f hf => ?_⟩, fun l hl e he => ?_⟩
  · have hmuestra : l.Muestra hls ds false (m.publicados ds false) := h.muestra hnum hl
    exact hmuestra.presente hnum hr (m.publicados_bounds ds false).2
      (fun hno => absurd hno Bool.false_ne_true) he
  · have hmap := hr.m3u8.symm.trans hl
    rw [listaTras] at hmap
    split at hmap
    · cases hmap
    · obtain rfl := Option.some_inj.1 hmap
      simp only [hlsWindow, Option.mem_def, Option.ite_none_right_eq_some] at hf
      exact (hr.ficheros _).2 (.inl ⟨hf.1.2.1, by rw [← Option.some_inj.1 hf.2]; rfl⟩)
  · have hl' : l ∈ m.lista true := hl
    obtain ⟨hs, -⟩ := h.listaTras_of_lista hnum hl'
    have hpresente := (h.muestra hnum hl').presente hnum hr (m.publicados_bounds ds true).2 hs he
    rw [hnum.listaVtt]
    exact ⟨hpresente.1, hpresente.2 (hs rfl)⟩

/-! ## Two playlists, one after the other -/

theorem PasoMuxer.publicados_le {m' : Muxer δ} {ds' : List δ} (h : PasoMuxer d hls m ds' m')
    (k : ℕ) : m.fase.publicados k ≤ m'.fase.publicados (k + ds'.length) := by
  cases h with
  | corta hfase | acaba hfase =>
    rw [hfase]
    exact Nat.le_refl _
  | publica hfase =>
    rw [hfase]
    exact Nat.sub_le _ _
  | publicaVtt hfase =>
    rw [hfase]
    split <;> exact Nat.le_refl _
  | abre hfase hvs =>
    rw [hfase]
    exact Nat.le_refl _

theorem PasoMuxer.publicadosVtt_le {m' : Muxer δ} {ds' : List δ} (h : PasoMuxer d hls m ds' m')
    (k : ℕ) : m.fase.publicadosVtt k ≤ m'.fase.publicadosVtt (k + ds'.length) := by
  cases h with
  | corta hfase | acaba hfase =>
    rw [hfase]
    exact Nat.le_refl _
  | publica hfase =>
    rw [hfase]
    exact Nat.le_refl _
  | publicaVtt hfase =>
    rw [hfase]
    split <;> exact Nat.sub_le _ _
  | abre hfase hvs =>
    rw [hfase]
    exact Nat.le_refl _

/-- The playlists on disk never go back. -/
theorem PasoMuxer.publicados_mono {m' : Muxer δ} {ds' : List δ} (h : PasoMuxer d hls m ds' m')
    (ds : List δ) (vtt : Bool) : m.publicados ds vtt ≤ m'.publicados (ds ++ ds') vtt := by
  simp only [Muxer.publicados, List.length_append]
  cases vtt with
  | false => exact h.publicados_le _
  | true => exact h.publicadosVtt_le _

theorem CorreDesde.publicados_mono {m' : Muxer δ} {ds' : List δ} (h : CorreDesde d hls m ds' m')
    (ds : List δ) (vtt : Bool) : m.publicados ds vtt ≤ m'.publicados (ds ++ ds') vtt := by
  induction h with
  | refl => rw [List.append_nil]
  | paso _ hp ih =>
    rw [← List.append_assoc]
    exact ih.trans (hp.publicados_mono _ vtt)

theorem Corre.desde (h : Corre d hls ds m) {ds' : List δ} {m' : Muxer δ}
    (hr : CorreDesde d hls m ds' m') : Corre d hls (ds ++ ds') m' := by
  obtain ⟨vs, hvs, h⟩ := h
  refine ⟨vs, hvs, ?_⟩
  induction hr with
  | refl => rwa [List.append_nil]
  | paso _ hp ih =>
    rw [← List.append_assoc]
    exact ih.paso hp

/-- Later playlists start later. -/
theorem HLSContext.sub_listados_mono (hls : HLSContext) {k k' : ℕ} (h : k ≤ k') :
    k - hls.listados k ≤ k' - hls.listados k' := by
  simp only [HLSContext.listados]
  split <;> omega

/-- **Two playlists of a run agree on what they share**: entries with one
number are one entry. -/
theorem ListaHLS.Muestra.eq_of_numero {vtt : Bool} {k k' : ℕ} {ds' : List δ} {l l' : ListaHLS δ}
    (h : l.Muestra hls ds vtt k) (h' : l'.Muestra hls (ds ++ ds') vtt k') {i j : ℕ}
    (hij : l.sequence + i = l'.sequence + j) {e e' : EntradaHLS δ} (he : l.entradas[i]? = some e)
    (he' : l'.entradas[j]? = some e') : e = e' := by
  obtain ⟨hduration, hfilename⟩ := h.entrada i e he
  obtain ⟨hduration', hfilename'⟩ := h'.entrada j e' he'
  have hindice : k' - hls.listados k' + j = k - hls.listados k + i := by
    have := h.sequence
    have := h'.sequence
    omega
  rw [hindice, List.getElem?_append_left (List.getElem?_eq_some_iff.1 hduration).1, hduration]
    at hduration'
  rw [← hij, ← hfilename] at hfilename'
  cases e
  cases e'
  rw [EntradaHLS.mk.injEq]
  exact ⟨Option.some_inj.1 hduration', hfilename'.symm⟩

/-- **A playlist continues those before it**: its numbers do not go back,
and what two playlists both number is the same segment. -/
theorem Corre.recarga (hnum : hls.Numera) (h : Corre d hls ds m) {ds' : List δ} {m' : Muxer δ}
    (hr : CorreDesde d hls m ds' m') {vtt : Bool} {l l' : ListaHLS δ} (hl : l ∈ m.lista vtt)
    (hl' : l' ∈ m'.lista vtt) :
    l.sequence ≤ l'.sequence ∧
      l.sequence + l.entradas.length ≤ l'.sequence + l'.entradas.length ∧
      ∀ i j, l.sequence + i = l'.sequence + j → ∀ e ∈ l.entradas[i]?, ∀ e' ∈ l'.entradas[j]?,
        e = e' := by
  have hmuestra := h.muestra hnum hl
  have hmuestra' := (h.desde hr).muestra hnum hl'
  have hle := hr.publicados_mono ds vtt
  have hsequence := hls.sub_listados_mono hle
  have hlistados := hls.listados_le (m.publicados ds vtt)
  have hlistados' := hls.listados_le (m'.publicados (ds ++ ds') vtt)
  refine ⟨?_, ?_, fun i j hij e he e' he' => hmuestra.eq_of_numero hmuestra' hij he he'⟩
  · rw [hmuestra.sequence, hmuestra'.sequence]
    omega
  · rw [hmuestra.sequence, hmuestra'.sequence, hmuestra.length, hmuestra'.length]
    omega

/-! ## How much stands on disk -/

theorem HLSContext.card_ficherosDe_le (hls : HLSContext) (n : ℕ) :
    (hls.ficherosDe n).card ≤ if hls.hasSubtitle then 2 else 1 := by
  rw [HLSContext.ficherosDe]
  split
  · exact Finset.card_le_two
  · rw [Finset.union_empty, Finset.card_singleton]

/-- What is being written belongs to the next segment. -/
theorem Muxer.Refleja.exists_mem_ficherosDe (h : m.Refleja d hls ds) {f : String}
    (hf : f ∈ m.ficheros) : (hls.fmp4 = true ∧ f = hls.baseOutputDirname) ∨
      ∃ i, primera hls ds m.vs ≤ i ∧ i < ds.length + 1 ∧
        f ∈ hls.ficherosDe (hls.startSequence + i) := by
  rcases (h.ficheros f).1 hf with hinicial | ⟨i, hi, hlt, hf⟩ | ⟨hfase, hactual⟩
  · exact .inl hinicial
  · exact .inr ⟨i, hi, Nat.lt_succ_of_lt hlt, hf⟩
  · exact .inr ⟨ds.length, primera_le, Nat.lt_succ_self _,
      (Muxer.Refleja.mem_ficherosDe_iff (h.url hfase) (h.vttUrl hfase) f).2 (.inr hactual)⟩

/-- **An output that removes its segments does not fill the disk**: it
holds those of its playlist, those that are kept and the one it writes. -/
theorem Corre.card_ficheros_le (hnum : hls.Numera) (h : Corre d hls ds m)
    (hdel : hls.deleteSegments = true) (hmax : hls.maxNbSegments ≠ 0) :
    m.ficheros.card ≤ (hls.maxNbSegments + hls.hlsDeleteThreshold + 1) *
      (if hls.hasSubtitle then 2 else 1) + if hls.fmp4 then 1 else 0 := by
  have hr := h.refleja hnum
  have hsub : m.ficheros ⊆ ((Finset.Ico (primera hls ds m.vs) (ds.length + 1)).biUnion
      fun i => hls.ficherosDe (hls.startSequence + i)) ∪
        if hls.fmp4 then {hls.baseOutputDirname} else ∅ := by
    intro f hf
    rw [Finset.mem_union, Finset.mem_biUnion]
    rcases hr.exists_mem_ficherosDe hf with ⟨hfmp4, rfl⟩ | ⟨i, hi, hlt, hf⟩
    · rw [if_pos hfmp4]
      exact .inr (Finset.mem_singleton_self _)
    · exact .inl ⟨i, Finset.mem_Ico.2 ⟨hi, hlt⟩, hf⟩
  have hIco : (Finset.Ico (primera hls ds m.vs) (ds.length + 1)).card ≤
      hls.maxNbSegments + hls.hlsDeleteThreshold + 1 := by
    have hbound := hr.sigue.bound
    have hlength := hr.sigue.length
    rw [HLSContext.listados, if_neg hmax] at hlength
    rw [Nat.card_Ico, primera, if_pos hdel, VariantStream.length_standing]
    omega
  refine (Finset.card_le_card hsub).trans ((Finset.card_union_le _ _).trans (Nat.add_le_add ?_ ?_))
  · exact (Finset.card_biUnion_le_card_mul _ _ _ fun i _ => hls.card_ficherosDe_le _).trans
      (Nat.mul_le_mul_right _ hIco)
  · split <;> simp

/-- **An output that removes nothing keeps all it has written**, and its
playlists list all of it where there is no limit. -/
theorem Corre.todos (hnum : hls.Numera) (h : Corre d hls ds m)
    (hmax : hls.deleteSegments = false ∨ hls.maxNbSegments = 0) :
    (∀ i < ds.length, hls.ficherosDe (hls.startSequence + i) ⊆ m.ficheros) ∧
      (hls.maxNbSegments = 0 → ∀ vtt, ∀ l ∈ m.lista vtt, l.sequence = hls.startSequence ∧
        ds.length ≤ l.entradas.length + 1) := by
  have hr := h.refleja hnum
  refine ⟨fun i hi f hf => hr.mem_ficheros ?_ hi hf, fun hcero vtt l hl => ?_⟩
  · rw [primera]
    split
    · rename_i hdel
      have hlength := hr.sigue.length
      rw [HLSContext.listados, if_pos (hmax.resolve_left (by simp [hdel]))] at hlength
      rw [VariantStream.length_standing, hlength]
      omega
    · exact Nat.zero_le _
  · have hmuestra := h.muestra hnum hl
    rw [hmuestra.sequence, hmuestra.length, HLSContext.listados, if_pos hcero, Nat.sub_self]
    exact ⟨rfl, (m.publicados_bounds ds vtt).2⟩

/-! ## The target duration -/

/-- **Durations that are rounded to a whole one next to them.** -/
structure Duraciones.Redondea (d : Duraciones δ ρ) : Prop where
  alcanza : ∀ t x, d.alcanza t x = true → t ≤ d.lrint x
  pasa : ∀ t x, d.alcanza t x = false → d.lrint x ≤ t

theorem Duraciones.redondea_enteras : Duraciones.enteras.Redondea :=
  ⟨fun _ _ h => of_decide_eq_true h, fun _ _ h => Int.le_of_lt (Int.not_le.1 (of_decide_eq_false h))⟩

/-- The target duration only grows from segment to segment. -/
theorem Duraciones.Redondea.le_foldl (hd : d.Redondea) (segments : List (HLSSegment δ)) (t : ℤ) :
    t ≤ segments.foldl (fun t en => if d.alcanza t en.duration then d.lrint en.duration else t) t ∧
      ∀ en ∈ segments, d.lrint en.duration ≤ segments.foldl
        (fun t en => if d.alcanza t en.duration then d.lrint en.duration else t) t := by
  induction segments generalizing t with
  | nil => simp
  | cons en segments ih =>
    have hpaso : t ≤ (if d.alcanza t en.duration then d.lrint en.duration else t) ∧
        d.lrint en.duration ≤ (if d.alcanza t en.duration then d.lrint en.duration else t) := by
      cases hen : d.alcanza t en.duration with
      | true => exact ⟨hd.alcanza _ _ hen, le_rfl⟩
      | false => exact ⟨le_rfl, hd.pasa _ _ hen⟩
    obtain ⟨hle, hall⟩ := ih (if d.alcanza t en.duration then d.lrint en.duration else t)
    rw [List.foldl_cons, List.forall_mem_cons]
    exact ⟨hpaso.1.trans hle, hpaso.2.trans hle, hall⟩

/-- **A playlist keeps the rule of target durations**: none of its
segments lasts longer, rounded. -/
theorem Corre.lrint_le_targetDuration (hd : d.Redondea) (hnum : hls.Numera) (h : Corre d hls ds m)
    {vtt : Bool} {l : ListaHLS δ} (hl : l ∈ m.lista vtt) :
    ∀ e ∈ l.entradas, d.lrint e.duration ≤ l.targetDuration := by
  intro e he
  obtain ⟨-, last, hlista⟩ := h.listaTras_of_lista hnum hl
  rw [listaTras, Option.ite_none_left_eq_some] at hlista
  obtain rfl := Option.some_inj.1 hlista.2
  obtain ⟨en, hen, rfl⟩ := List.mem_map.1 he
  exact (hd.le_foldl _ 0).2 en hen

end HlsXcoder
