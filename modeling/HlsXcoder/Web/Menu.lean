import HlsXcoder.Codificacion.Direcciones
import HlsXcoder.Codificacion.Grupos
import HlsXcoder.Codificacion.Sonda
import HlsXcoder.Web.CustomComponents
import Mathlib.Data.List.Forall2
import Mathlib.Data.List.Nodup

/-!
# The menu of a playlist

The menu has nothing of a variant but its address, from which it reads
back the bitrate and the language of a burned subtitle. The master
playlist writes them into the address so that they are found again: a
bitrate is made of digits, and a language of the probe has no slash, no
dash and no dot, which are what the menu cuts at (`descifra_createItems`).
-/

namespace HlsXcoder

/-! ## The variants of a playlist -/

/-- A variant: the bitrate it was written for, where there is one, and the
language of the subtitle that is burned in. -/
inductive Variante where
  | principal (bitrate : Option String)
  | quemada (bitrate : Option String) (language : String)
  deriving DecidableEq, Repr

namespace Variante

def esPrincipal : Variante → Bool
  | principal _ => true
  | quemada _ _ => false

/-- The bitrate its line announces. -/
def tasa (bitrate : Option String) : String :=
  if bitrate.getD "" = "" then "1000" else bitrate.getD ""

/-- What its line names it. -/
def nombre : Variante → List String
  | principal _ => []
  | quemada bitrate language => [language ++ "-" ++ tasa bitrate]

def bandwidth : Variante → String
  | principal bitrate | quemada bitrate _ => tasa bitrate ++ "000"

/-- The name of the playlist of a main variant. -/
def lista (bitrate : Option String) : String :=
  if bitrate.getD "" = "" then "default" else bitrate.getD ""

/-- What stands before the name of a burned playlist. -/
def prefijo (bitrate : Option String) : String := bitrate.elim "" fun b => b ++ "-"

/-- The address of its playlist. -/
def uri : Variante → String
  | principal bitrate => lista bitrate ++ ".m3u8"
  | quemada bitrate language =>
    "subtitulo/" ++ language ++ "/" ++ prefijo bitrate ++ "subtitulo.m3u8"

/-- **What the menu should call it.** -/
def etiqueta : Variante → String
  | principal bitrate => if bitrate.getD "" = "" then "default" else bitrate.getD "" ++ "kb"
  | quemada bitrate language =>
    "sub/" ++ language ++ if bitrate.getD "" = "" then "" else "/" ++ bitrate.getD "" ++ "kb"

end Variante

/-- The subtitles burned into the variants. -/
def quemados (programa : Programa) : List String :=
  if teletextSubtitle programa then [] else programa.subtitulos.map Stream.language

/-- The variants of one bitrate. -/
def variantesDeBitrate (programa : Programa) (bitrate : Option String) : List Variante :=
  .principal bitrate :: (quemados programa).map (.quemada bitrate)

/-- The bitrates variants are written for. -/
def bitratesM3U8 (bitrates : List String) : List (Option String) :=
  if bitrates = [] then [none] else bitrates.map some

/-- **The variants of a playlist**, in order. -/
def variantesM3U8 (programa : Programa) (bitrates : List String) : List Variante :=
  (bitratesM3U8 bitrates).flatMap (variantesDeBitrate programa)

/-- The line of a variant. -/
structure LineaDe (l : LineaM3U8) (v : Variante) : Prop where
  noMedia : l.esMedia = false
  nombre : l.valores "NAME" = v.nombre
  bandwidth : l.valores "BANDWIDTH" = [v.bandwidth]
  uris : l.uris = [v.uri]

variable {programa : Programa}

theorem LineaDe.esPrincipal {l : LineaM3U8} {v : Variante} (h : LineaDe l v) :
    l.esPrincipal = v.esPrincipal := by
  rw [LineaM3U8.esPrincipal, h.noMedia, h.nombre]
  cases v <;> rfl

/-! ## Their lines -/

/-- The attributes of subtitles a call of `generarM3U8Videos` can start
with. -/
def EsSubtitle (subtitle : List Atributo) : Prop :=
  subtitle = [] ∨ subtitle = [⟨"SUBTITLES", "subs", true⟩]

theorem esSubtitle_atributosSubtitle (programa : Programa) :
    EsSubtitle (atributosSubtitle programa) := by
  unfold atributosSubtitle
  split
  · exact .inr rfl
  · exact .inl rfl

theorem lineaDe_lineaPrincipal {subtitle : List Atributo} (hs : EsSubtitle subtitle)
    {bitrate : Option String} (hb : ∀ c ∈ (bitrate.getD "").toList, c.isDigit = true) :
    LineaDe (lineaPrincipal (atributosAudio programa) (atributosVideo programa) subtitle
      (bitrate.getD "")) (.principal bitrate) := by
  have hvalores : ∀ nombre ∈ ["NAME", "BANDWIDTH"],
      (subtitle ++ atributosAudio programa ++ atributosVideo programa).filter
        (fun a => a.nombre = nombre) = [] := by
    unfold atributosAudio atributosVideo
    obtain rfl | rfl := hs <;> split <;> split <;> simp +decide
  refine ⟨rfl, ?_, ?_, uris_lineaPrincipal _ _ _ hb⟩
  · rw [lineaPrincipal, LineaM3U8.valores, LineaM3U8.atributos, List.append_assoc, List.append_assoc,
      List.filter_append, ← List.append_assoc, hvalores "NAME" (by simp)]
    rfl
  · rw [lineaPrincipal, LineaM3U8.valores, LineaM3U8.atributos, List.append_assoc, List.append_assoc,
      List.filter_append, ← List.append_assoc, hvalores "BANDWIDTH" (by simp)]
    rfl

theorem lineaDe_lineaQuemada (bitrate : Option String) (e : Stream) :
    LineaDe (lineaQuemada (atributosAudio programa) (Variante.tasa bitrate)
      (Variante.prefijo bitrate ++ "subtitulo.m3u8") e) (.quemada bitrate e.language) := by
  have hvalores : ∀ nombre ∈ ["NAME", "BANDWIDTH"],
      (atributosAudio programa).filter (fun a => a.nombre = nombre) = [] := by
    unfold atributosAudio
    split <;> simp +decide
  refine ⟨rfl, ?_, ?_, uris_lineaQuemada _ _ _ _⟩
  · rw [lineaQuemada, LineaM3U8.valores, LineaM3U8.atributos, List.filter_append,
      hvalores "NAME" (by simp)]
    rfl
  · rw [lineaQuemada, LineaM3U8.valores, LineaM3U8.atributos, List.filter_append,
      hvalores "BANDWIDTH" (by simp)]
    rfl

/-- The lines that one call writes. -/
theorem forall₂_generarM3U8Videos {subtitle : List Atributo} (hs : EsSubtitle subtitle)
    (bitrate : Option String) (hb : ∀ c ∈ (bitrate.getD "").toList, c.isDigit = true) :
    List.Forall₂ LineaDe (generarM3U8Videos programa (atributosAudio programa)
        (atributosVideo programa) subtitle (bitrate.getD "")
        (Variante.prefijo bitrate ++ "subtitulo.m3u8")).1 (variantesDeBitrate programa bitrate) := by
  rw [generarM3U8Videos_fst, variantesDeBitrate, quemados]
  refine .cons (lineaDe_lineaPrincipal hs hb) ?_
  split
  · exact .nil
  · rw [List.map_map]
    refine List.forall₂_map_left_iff.2 (List.forall₂_map_right_iff.2 ?_)
    exact List.forall₂_same.2 fun e _ => lineaDe_lineaQuemada bitrate e

/-- The lines of the variants of bitrates. -/
theorem forall₂_variantes {subtitle : List Atributo} (hs : EsSubtitle subtitle)
    {bitrates : List String} (hb : ∀ b ∈ bitrates, ∀ c ∈ b.toList, c.isDigit = true) :
    List.Forall₂ LineaDe (variantes programa subtitle bitrates)
      ((bitrates.map some).flatMap (variantesDeBitrate programa)) := by
  induction bitrates generalizing subtitle with
  | nil => exact .nil
  | cons b bs ih =>
    rw [List.forall_mem_cons] at hb
    have hsubtitle : EsSubtitle (generarM3U8Videos programa (atributosAudio programa)
        (atributosVideo programa) subtitle b (b ++ "-subtitulo.m3u8")).2 := by
      rw [generarM3U8Videos_snd]
      split
      · exact hs
      · exact .inr rfl
    rw [variantes, List.map_cons, List.flatMap_cons]
    refine List.rel_append ?_ (ih hsubtitle hb.2)
    rw [nombre_quemada]
    exact forall₂_generarM3U8Videos hs (some b) hb.1

/-- **The lines of a playlist that are no media lines are those of its
variants**, one each. -/
theorem forall₂_generarArchivoM3U8 {bitrates : List String}
    (hb : ∀ b ∈ bitrates, ∀ c ∈ b.toList, c.isDigit = true) :
    List.Forall₂ LineaDe ((generarArchivoM3U8 programa bitrates).filter fun l => !l.esMedia)
      (variantesM3U8 programa bitrates) := by
  have hfilter {lineas : List LineaM3U8} {vs : List Variante} (h : List.Forall₂ LineaDe lineas vs) :
      List.Forall₂ LineaDe (lineas.filter fun l => !l.esMedia) vs := by
    induction h with
    | nil => exact .nil
    | cons hv _ ih =>
      rw [List.filter_cons, hv.noMedia, if_pos (by decide)]
      exact .cons hv ih
  have hmedias : (mediasM3U8 programa).filter (fun l => !l.esMedia) = [] :=
    List.filter_eq_nil_iff.2 fun l hl => by simp [esMedia_of_mem_mediasM3U8 hl]
  rw [generarArchivoM3U8_eq, List.filter_append, hmedias, List.nil_append, variantesM3U8, bitratesM3U8]
  by_cases hnil : bitrates = []
  · rw [if_pos hnil, if_pos hnil, List.flatMap_singleton]
    exact hfilter (forall₂_generarM3U8Videos (esSubtitle_atributosSubtitle programa) none (by simp))
  · rw [if_neg hnil, if_neg hnil]
    exact hfilter (forall₂_variantes (esSubtitle_atributosSubtitle programa) hb)

/-! ## What the menu reads back -/

/-- A language the menu finds again in an address: some characters, and
none that it cuts at. -/
def SinCortes (language : String) : Prop :=
  language ≠ "" ∧ ∀ c ∈ language.toList, esCorte c = false ∧ c ≠ '.'

/-- The languages of a probed program have nothing the menu cuts at. -/
theorem sinCortes_of_esIdioma {language : String} (h : EsIdioma language) : SinCortes language := by
  refine ⟨h.ne_empty, fun c hc => ?_⟩
  have hchar := List.all_eq_true.1 h.chars c hc
  have hne {d : Char} (hd : esDeIdioma d = false) : c ≠ d := by
    rintro rfl
    rw [hd] at hchar
    cases hchar
  exact ⟨by simp [esCorte, hne (d := '/') (by decide), hne (d := '-') (by decide)],
    hne (by decide)⟩

theorem headD_split {s a : String} {c : Char} {t : List Char} (hs : s.toList = a.toList ++ c :: t)
    (ha : c ∉ a.toList) : (split s c).headD "" = a := by
  rw [split, hs, List.splitOn_append_cons_self_of_not_mem ha]
  simp

/-- A text that the menu does not cut does not start with a separator. -/
theorem fenced_esCorte {s : String} (hne : s ≠ "") (hs : ∀ c ∈ s.toList, esCorte c = false)
    (t : List Char) : Text.Fenced (esCorte · = true) (s.toList ++ t) := by
  obtain ⟨c, cs, hc⟩ := List.exists_cons_of_ne_nil (mt String.toList_eq_nil_iff.1 hne)
  rw [hc, List.cons_append, Text.fenced_cons, hs c (by simp [hc])]
  decide

theorem esCorte_subtitulo : ∀ c ∈ "subtitulo".toList, esCorte c = false :=
  Text.forall_mem_of_all (by decide)

/-- The language of a burned variant ends at the run of separators behind
it. -/
theorem splitRuns_subtitulo {language : String} (hl : SinCortes language) {r t : List Char}
    (hne : r ≠ []) (hr : ∀ c ∈ r, esCorte c = true) (ht : Text.Fenced (esCorte · = true) t) :
    Text.splitRuns esCorte ("subtitulo".toList ++ (['/'] ++ (language.toList ++ (r ++ t)))) =
      "subtitulo".toList :: language.toList :: Text.splitRuns esCorte t := by
  have hcortes : ∀ c ∈ language.toList, esCorte c = false := fun c hc => (hl.2 c hc).1
  rw [Text.splitRuns_append esCorte_subtitulo (by simp) (List.forall_mem_singleton.2 rfl)
      (fenced_esCorte hl.1 hcortes _),
    Text.splitRuns_append hcortes hne hr ht]

section Lectura

variable {bitrate : Option String} {language : String}
  (hb : ∀ c ∈ (bitrate.getD "").toList, c.isDigit = true)

include hb

theorem notMem_bitrate {c : Char} (hc : c.isDigit = false) : c ∉ (bitrate.getD "").toList := by
  intro hmem
  rw [hb c hmem] at hc
  cases hc

/-- The name of a main variant's playlist has nothing the menu cuts at. -/
theorem notMem_lista {c : Char} (hc : c ∉ "default".toList) (hdigit : c.isDigit = false) :
    c ∉ (Variante.lista bitrate).toList := by
  unfold Variante.lista
  split
  · exact hc
  · exact notMem_bitrate hb hdigit

theorem headD_split_principal :
    (split (Variante.principal bitrate).uri '.').headD "" = Variante.lista bitrate :=
  headD_split (t := "m3u8".toList) (by simp [Variante.uri])
    (notMem_lista hb (by decide) (by decide))

theorem camposDeId_principal :
    camposDeId (Variante.principal bitrate).uri = [Variante.lista bitrate] := by
  have hcortes : ∀ c ∈ (Variante.lista bitrate).toList, esCorte c = false := by
    intro c hc
    simp only [esCorte, Bool.or_eq_false_iff, decide_eq_false_iff_not]
    constructor
    · rintro rfl
      exact notMem_lista hb (by decide) (by decide) hc
    · rintro rfl
      exact notMem_lista hb (by decide) (by decide) hc
  rw [camposDeId, headD_split_principal hb, Text.splitRuns_eq_singleton hcortes, List.map_singleton,
    String.ofList_toList]

theorem levelNameDeId_principal :
    levelNameDeId (Variante.principal bitrate).uri = (Variante.principal bitrate).etiqueta := by
  simp only [levelNameDeId, headD_split_principal hb, camposDeId_principal hb, List.length_singleton, Nat.le_refl,
    if_true]
  rw [Variante.lista, Variante.etiqueta]
  split
  · rfl
  · rw [isNaN_of_isDigit hb, if_neg (by decide)]

theorem esDeAuto_principal : esDeAuto (Variante.principal bitrate).uri = true := by
  have hbarra : '/' ∉ (Variante.principal bitrate).uri.toList := by
    rw [Variante.uri, String.toList_append, List.mem_append, not_or]
    exact ⟨notMem_lista hb (by decide) (by decide), by decide⟩
  have hne : (Variante.principal bitrate).uri ≠ "subtitulo" := by
    intro h
    have hpunto : '.' ∈ (Variante.principal bitrate).uri.toList := by simp [Variante.uri]
    rw [h] at hpunto
    exact absurd hpunto (by decide)
  rw [esDeAuto, split, List.splitOn_eq_singleton hbarra]
  simpa using hne

theorem headD_split_quemada (hl : SinCortes language) :
    (split (Variante.quemada bitrate language).uri '.').headD "" =
      "subtitulo/" ++ language ++ "/" ++ Variante.prefijo bitrate ++ "subtitulo" := by
  have hprefijo : '.' ∉ (Variante.prefijo bitrate).toList := by
    cases bitrate with
    | none => decide
    | some b =>
      rw [Variante.prefijo, Option.elim_some, String.toList_append, List.mem_append, not_or]
      exact ⟨notMem_bitrate hb (by decide), by decide⟩
  have hlanguage : '.' ∉ language.toList := fun hc => (hl.2 _ hc).2 rfl
  exact headD_split (t := "m3u8".toList) (by simp [Variante.uri]) (by simp [hprefijo, hlanguage])

theorem esCorte_bitrate : ∀ c ∈ (bitrate.getD "").toList, esCorte c = false := by
  intro c hc
  simp only [esCorte, Bool.or_eq_false_iff, decide_eq_false_iff_not]
  constructor
  · rintro rfl
    exact notMem_bitrate hb (by decide) hc
  · rintro rfl
    exact notMem_bitrate hb (by decide) hc

theorem camposDeId_quemada (hl : SinCortes language) :
    camposDeId (Variante.quemada bitrate language).uri = "subtitulo" :: language ::
      if bitrate.getD "" = "" then ["subtitulo"] else [bitrate.getD "", "subtitulo"] := by
  have hdigitos := esCorte_bitrate hb
  have hbarra : Text.Fenced (esCorte · = true) "subtitulo".toList := by
    simpa using fenced_esCorte (s := "subtitulo") (by decide) esCorte_subtitulo []
  have hultimo : Text.splitRuns esCorte "subtitulo".toList = ["subtitulo".toList] :=
    Text.splitRuns_eq_singleton esCorte_subtitulo
  rw [camposDeId, headD_split_quemada hb hl]
  simp only [String.toList_append]
  by_cases hvacio : bitrate.getD "" = ""
  · -- without a bitrate the slash and the dash are one run of separators
    have hprefijo : ∀ c ∈ (Variante.prefijo bitrate).toList, esCorte c = true := by
      cases bitrate with
      | none => simp [Variante.prefijo]
      | some b =>
        obtain rfl : b = "" := hvacio
        exact Text.forall_mem_of_all (by decide)
    have hcampos := splitRuns_subtitulo hl (r := '/' :: (Variante.prefijo bitrate).toList) (by simp)
      (List.forall_mem_cons.2 ⟨by decide, hprefijo⟩) hbarra
    rw [hultimo] at hcampos
    rw [if_pos hvacio]
    simpa using congrArg (List.map String.ofList) hcampos
  · obtain ⟨b, rfl⟩ : ∃ b, bitrate = some b := by
      cases bitrate with
      | none => exact absurd rfl hvacio
      | some b => exact ⟨b, rfl⟩
    rw [Option.getD_some] at hvacio hdigitos ⊢
    have hresto : Text.splitRuns esCorte (b.toList ++ (['-'] ++ "subtitulo".toList)) =
        [b.toList, "subtitulo".toList] := by
      rw [Text.splitRuns_append hdigitos (by simp) (List.forall_mem_singleton.2 rfl) hbarra, hultimo]
    have hcampos := splitRuns_subtitulo hl (r := ['/']) (by simp) (List.forall_mem_singleton.2 rfl)
      (fenced_esCorte hvacio hdigitos (['-'] ++ "subtitulo".toList))
    rw [hresto] at hcampos
    rw [if_neg hvacio]
    simpa [Variante.prefijo] using congrArg (List.map String.ofList) hcampos

theorem levelNameDeId_quemada (hl : SinCortes language) :
    levelNameDeId (Variante.quemada bitrate language).uri =
      (Variante.quemada bitrate language).etiqueta := by
  have hsubtitulo : isNaN (some "subtitulo") = true := by decide
  simp only [levelNameDeId, camposDeId_quemada hb hl, Variante.etiqueta]
  by_cases hvacio : bitrate.getD "" = ""
  · simp [hvacio, hsubtitulo]
  · simp [hvacio, isNaN_of_isDigit hb, String.append_assoc]

end Lectura

theorem esDeAuto_quemada (bitrate : Option String) (language : String) :
    esDeAuto (Variante.quemada bitrate language).uri = false := by
  have hhead : (split (Variante.quemada bitrate language).uri '/').headD "" = "subtitulo" :=
    headD_split (t := language.toList ++ '/' :: ((Variante.prefijo bitrate).toList ++
      "subtitulo.m3u8".toList)) (by simp [Variante.uri]) (by decide)
  rw [esDeAuto, hhead]
  decide

/-! ## Labels -/

theorem bitrate_of_etiqueta_principal {b b' : Option String}
    (h : (Variante.principal b).etiqueta = (Variante.principal b').etiqueta) :
    b.getD "" = b'.getD "" := by
  -- the label of a bitrate does not end as `default` does
  have hultimo (s : String) : s ++ "kb" ≠ "default" := by
    intro heq
    have hlast := congrArg (fun s => s.toList.getLast?) heq
    simp [List.getLast?_append] at hlast
  rw [Variante.etiqueta, Variante.etiqueta] at h
  split at h
  · rename_i hvacio
    split at h
    · rename_i hvacio'
      rw [hvacio, hvacio']
    · exact absurd h.symm (hultimo _)
  · split at h
    · exact absurd h (hultimo _)
    · rw [← String.toList_inj] at h ⊢
      simpa using h

/-- The label of a burned variant gives its language and its bitrate. -/
theorem eq_of_etiqueta_quemada {b b' : Option String} {language language' : String}
    (hl : '/' ∉ language.toList) (hl' : '/' ∉ language'.toList)
    (h : (Variante.quemada b language).etiqueta = (Variante.quemada b' language').etiqueta) :
    language = language' ∧ b.getD "" = b'.getD "" := by
  -- a slash, or nothing, stands behind the language
  have hbarra (b : Option String) : Text.Fenced (· ≠ '/')
      (if b.getD "" = "" then "" else "/" ++ b.getD "" ++ "kb").toList := by
    split
    · simp [Text.Fenced]
    · simp [Text.Fenced]
  have hne {s : String} (hs : '/' ∉ s.toList) : ∀ c ∈ s.toList, c ≠ '/' := by
    rintro c hc rfl
    exact hs hc
  rw [Variante.etiqueta, Variante.etiqueta, ← String.toList_inj] at h
  simp only [String.toList_append, List.append_assoc, List.append_cancel_left_eq] at h
  obtain ⟨hlanguage, hresto⟩ := Text.span_inj (hne hl) (hne hl') (hbarra b) (hbarra b') h
  refine ⟨String.toList_inj.1 hlanguage, ?_⟩
  split at hresto
  · rename_i hvacio
    split at hresto
    · rename_i hvacio'
      rw [hvacio, hvacio']
    · simp at hresto
  · split at hresto
    · simp at hresto
    · rw [← String.toList_inj]
      simpa using hresto

/-- No main variant is called as a burned one is. -/
theorem etiqueta_principal_ne {b : Option String} (hb : ∀ c ∈ (b.getD "").toList, c.isDigit = true)
    (b' : Option String) (language : String) :
    (Variante.principal b).etiqueta ≠ (Variante.quemada b' language).etiqueta := by
  intro h
  have hmem : '/' ∈ (Variante.quemada b' language).etiqueta.toList := by simp [Variante.etiqueta]
  rw [← h, Variante.etiqueta] at hmem
  split at hmem
  · exact absurd hmem (by decide)
  · rw [String.toList_append, List.mem_append] at hmem
    exact hmem.elim (notMem_bitrate hb (by decide)) (by decide)

/-! ## The variants of one playlist -/

section Playlist

variable {bitrates : List String} {v w : Variante}

theorem mem_variantesM3U8 : v ∈ variantesM3U8 programa bitrates ↔
    ∃ b ∈ bitratesM3U8 bitrates, v = .principal b ∨ ∃ l ∈ quemados programa, v = .quemada b l := by
  simp [variantesM3U8, variantesDeBitrate, eq_comm]

theorem isDigit_of_mem_bitratesM3U8 (hb : ∀ b ∈ bitrates, ∀ c ∈ b.toList, c.isDigit = true)
    {b : Option String} (h : b ∈ bitratesM3U8 bitrates) :
    ∀ c ∈ (b.getD "").toList, c.isDigit = true := by
  rw [bitratesM3U8] at h
  split at h
  · obtain rfl := List.mem_singleton.1 h
    simp
  · obtain ⟨b, hmem, rfl⟩ := List.mem_map.1 h
    exact hb b hmem

/-- The text of a bitrate tells it apart. -/
theorem eq_of_getD {b b' : Option String} (h : b ∈ bitratesM3U8 bitrates)
    (h' : b' ∈ bitratesM3U8 bitrates) (heq : b.getD "" = b'.getD "") : b = b' := by
  rw [bitratesM3U8] at h h'
  split at h
  · rw [if_pos ‹_›] at h'
    rw [List.mem_singleton.1 h, List.mem_singleton.1 h']
  · rw [if_neg ‹_›] at h'
    obtain ⟨b, -, rfl⟩ := List.mem_map.1 h
    obtain ⟨b', -, rfl⟩ := List.mem_map.1 h'
    exact congrArg some heq

theorem sinCortes_of_mem_quemados (hl : ∀ e ∈ programa.subtitulos, SinCortes e.language)
    {language : String} (h : language ∈ quemados programa) : SinCortes language := by
  rw [quemados] at h
  split at h
  · cases h
  · obtain ⟨e, he, rfl⟩ := List.mem_map.1 h
    exact hl e he

variable (hl : ∀ e ∈ programa.subtitulos, SinCortes e.language)
  (hb : ∀ b ∈ bitrates, ∀ c ∈ b.toList, c.isDigit = true)

include hl hb

/-- **The menu reads every address back.** -/
theorem levelNameDeId_uri (hv : v ∈ variantesM3U8 programa bitrates) :
    levelNameDeId v.uri = v.etiqueta := by
  obtain ⟨b, hmem, rfl | ⟨language, hlanguage, rfl⟩⟩ := mem_variantesM3U8.1 hv
  · exact levelNameDeId_principal (isDigit_of_mem_bitratesM3U8 hb hmem)
  · exact levelNameDeId_quemada (isDigit_of_mem_bitratesM3U8 hb hmem)
      (sinCortes_of_mem_quemados hl hlanguage)

example : levelNameDeId "subtitulo/spa,eng/2800-subtitulo.m3u8" = "sub/spa,eng/2800kb" := by decide

omit hl in
/-- `Auto` stands for the main variants. -/
theorem esDeAuto_uri (hv : v ∈ variantesM3U8 programa bitrates) : esDeAuto v.uri = v.esPrincipal := by
  obtain ⟨b, hmem, rfl | ⟨language, hlanguage, rfl⟩⟩ := mem_variantesM3U8.1 hv
  · exact esDeAuto_principal (isDigit_of_mem_bitratesM3U8 hb hmem)
  · exact esDeAuto_quemada b language

/-- **The labels of a playlist tell its variants apart.** -/
theorem eq_of_etiqueta (hv : v ∈ variantesM3U8 programa bitrates)
    (hw : w ∈ variantesM3U8 programa bitrates) (h : v.etiqueta = w.etiqueta) : v = w := by
  obtain ⟨b, hmem, hcase⟩ := mem_variantesM3U8.1 hv
  obtain ⟨b', hmem', hcase'⟩ := mem_variantesM3U8.1 hw
  obtain rfl | ⟨language, hlanguage, rfl⟩ := hcase <;>
    obtain rfl | ⟨language', hlanguage', rfl⟩ := hcase'
  · rw [eq_of_getD hmem hmem' (bitrate_of_etiqueta_principal h)]
  · exact absurd h (etiqueta_principal_ne (isDigit_of_mem_bitratesM3U8 hb hmem) b' language')
  · exact absurd h.symm (etiqueta_principal_ne (isDigit_of_mem_bitratesM3U8 hb hmem') b language)
  · have hbarra {language : String} (h : language ∈ quemados programa) : '/' ∉ language.toList :=
      fun hc => absurd ((sinCortes_of_mem_quemados hl h).2 _ hc).1 (by decide)
    obtain ⟨rfl, hbitrate⟩ := eq_of_etiqueta_quemada (hbarra hlanguage) (hbarra hlanguage') h
    rw [eq_of_getD hmem hmem' hbitrate]

end Playlist

/-- No variant has an empty address. -/
theorem ne_empty_of_uris {vs : List Variante} {representations : List Representation}
    (hid : representations.map Representation.id = vs.map Variante.uri) :
    ∀ r ∈ representations, r.id ≠ "" := by
  intro r hr h
  have hmem := List.mem_map_of_mem (f := Representation.id) hr
  rw [hid] at hmem
  obtain ⟨v, -, heq⟩ := List.mem_map.1 hmem
  have hpunto : '.' ∈ v.uri.toList := by cases v <;> simp [Variante.uri]
  rw [heq, h] at hpunto
  cases hpunto

/-! ## The menu -/

/-- **The menu reads a playlist back**, where the player takes the
addresses of its variants as their ids. -/
structure Descifra (lineas : List LineaM3U8) (vs : List Variante)
    (representations : List Representation) : Prop where
  lineas : List.Forall₂ LineaDe (lineas.filter fun l => !l.esMedia) vs
  auto : ∀ enabled, List.Forall₂
    (fun v r => selectAuto representations enabled r.id = v.esPrincipal) vs representations
  etiquetas : 1 < representations.length → ∃ items,
    createItems representations = some itemAuto :: items ∧
      List.Forall₂ (fun v item => item.map MenuItem.label = some v.etiqueta) vs items
  distintas : ∀ v ∈ vs, ∀ w ∈ vs, v ≠ w → v.etiqueta ≠ w.etiqueta

/-- The addresses of the variants of a playlist. -/
def urisVariantes (lineas : List LineaM3U8) : List String :=
  urisM3U8 (lineas.filter fun l => !l.esMedia)

theorem urisVariantes_eq {bitrates : List String}
    (hb : ∀ b ∈ bitrates, ∀ c ∈ b.toList, c.isDigit = true) :
    urisVariantes (generarArchivoM3U8 programa bitrates) =
      (variantesM3U8 programa bitrates).map Variante.uri := by
  have huris {lineas : List LineaM3U8} {vs : List Variante} (h : List.Forall₂ LineaDe lineas vs) :
      urisM3U8 lineas = vs.map Variante.uri := by
    induction h with
    | nil => rfl
    | cons hv _ ih =>
      rw [urisM3U8, List.flatMap_cons, hv.uris, List.map_cons]
      exact congrArg _ ih
  exact huris (forall₂_generarArchivoM3U8 hb)

/-- **The menu reads back what the playlist was written from**: `Auto`
stands for the main variants, each label gives the bitrate and the
language of its variant, and no two variants share a label. -/
theorem descifra_createItems (programa : Programa) (bitrates : List String)
    (hl : ∀ e ∈ programa.subtitulos, SinCortes e.language)
    (hb : ∀ b ∈ bitrates, ∀ c ∈ b.toList, c.isDigit = true)
    (representations : List Representation)
    (hid : representations.map Representation.id =
      urisVariantes (generarArchivoM3U8 programa bitrates)) :
    Descifra (generarArchivoM3U8 programa bitrates) (variantesM3U8 programa bitrates)
      representations := by
  rw [urisVariantes_eq hb] at hid
  have hparejas : List.Forall₂ (fun v r => v ∈ variantesM3U8 programa bitrates ∧
      r ∈ representations ∧ r.id = v.uri) (variantesM3U8 programa bitrates) representations := by
    have heq : List.Forall₂ (fun (v : Variante) (r : Representation) => v.uri = r.id)
        (variantesM3U8 programa bitrates) representations := by
      have hmap : List.Forall₂ (· = ·) ((variantesM3U8 programa bitrates).map Variante.uri)
          (representations.map Representation.id) := by
        rw [hid, List.forall₂_eq_eq_eq]
      rwa [List.forall₂_map_left_iff, List.forall₂_map_right_iff] at hmap
    obtain ⟨hlen, hzip⟩ := List.forall₂_iff_zip.1 heq
    refine List.forall₂_iff_zip.2 ⟨hlen, fun hmem => ?_⟩
    obtain ⟨hv, hr⟩ := List.of_mem_zip hmem
    exact ⟨hv, hr, (hzip hmem).symm⟩
  refine ⟨forall₂_generarArchivoM3U8 hb, fun enabled => ?_, fun hlen => ?_, fun v hv w hw hne h =>
    hne (eq_of_etiqueta hl hb hv hw h)⟩
  · refine hparejas.imp fun v r ⟨hv, hr, heq⟩ => ?_
    rw [selectAuto_apply, if_pos (List.mem_map_of_mem hr), heq, esDeAuto_uri hb hv]
  · refine ⟨_, createItems_eq hlen (ne_empty_of_uris hid), ?_⟩
    rw [List.map_map, List.forall₂_map_right_iff]
    refine hparejas.imp fun v r ⟨hv, hr, heq⟩ => ?_
    have hlabel : (itemDeVariante r).label = v.etiqueta := by
      rw [itemDeVariante, heq, levelNameDeId_uri hl hb hv]
    exact congrArg some hlabel

/-- A program with one burned subtitle, in two languages. -/
def programaSubtitulado : Programa :=
  { (default : Programa) with
    subtitulos := [{ (default : Stream) with format := "dvb_subtitle", language := "spa,eng" }] }

theorem descifra_createItems_dos :
    Descifra (generarArchivoM3U8 programaSubtitulado ["2800", "800"])
      (variantesM3U8 programaSubtitulado ["2800", "800"])
      [⟨"2800.m3u8", some 2800000⟩, ⟨"subtitulo/spa,eng/2800-subtitulo.m3u8", some 2800000⟩,
        ⟨"800.m3u8", some 800000⟩, ⟨"subtitulo/spa,eng/800-subtitulo.m3u8", some 800000⟩] :=
  descifra_createItems programaSubtitulado ["2800", "800"]
    (List.forall_mem_singleton.2 (sinCortes_of_esIdioma ⟨by decide, by decide⟩))
    (List.forall_mem_cons.2 ⟨Text.forall_mem_of_all (by decide),
      List.forall_mem_singleton.2 (Text.forall_mem_of_all (by decide))⟩) _ (by decide +kernel)

/-- **The menu of a playlist always leaves a variant to play**, whatever
is clicked on. -/
theorem exists_enabled_tras (programa : Programa) (bitrates : List String)
    (hb : ∀ b ∈ bitrates, ∀ c ∈ b.toList, c.isDigit = true)
    {representations : List Representation} (hlen : 1 < representations.length)
    (hid : representations.map Representation.id =
      urisVariantes (generarArchivoM3U8 programa bitrates)) (enabled : String → Bool)
    (clics : List ℕ) : ∃ r ∈ representations,
      ((Menu.crear representations enabled).tras representations clics).enabled r.id = true := by
  rw [urisVariantes_eq hb] at hid
  refine (coherente_tras hlen (ne_empty_of_uris hid) enabled clics).exists_enabled ?_
  obtain ⟨b, bs, hbs⟩ : ∃ b bs, bitratesM3U8 bitrates = b :: bs := by
    refine List.exists_cons_of_ne_nil ?_
    rw [bitratesM3U8]
    split
    · exact List.cons_ne_nil _ _
    · rwa [ne_eq, List.map_eq_nil_iff]
  have hmem : Variante.principal b ∈ variantesM3U8 programa bitrates :=
    mem_variantesM3U8.2 ⟨b, by simp [hbs], .inl rfl⟩
  have huri := List.mem_map_of_mem (f := Variante.uri) hmem
  rw [← hid, List.mem_map] at huri
  obtain ⟨r, hr, heq⟩ := huri
  exact ⟨r, hr, by rw [heq, esDeAuto_uri hb hmem]; rfl⟩

end HlsXcoder
