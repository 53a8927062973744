import HlsXcoder.Codificacion.Ventana
import HlsXcoder.Web.M3u8Parser
import Mathlib.Algebra.Order.Field.Basic
import Mathlib.Algebra.Order.Ring.Rat

/-!
# A media playlist, as it is written and as it is read

The muxer writes a media playlist line by line, and the player reads back
what it said (`parse_texto`): the number of the first segment, the
segments in order with their durations and names, the file they start
with and whether there are no more. A duration is printed with six
decimals, so what is read is the duration to the millionth; one that is
printed as zero is read as a hundredth of a second. A target duration
below zero would not be read at all.
-/

namespace HlsXcoder

open AttributeList (Item)

/-! ## The text -/

/-- `%d` -/
def entero (t : ℤ) : List Char :=
  if t < 0 then '-' :: Text.pad 0 t.natAbs else Text.pad 0 t.natAbs

/-- `%f`, of a number of millionths. -/
def decimales (micras : ℕ) : List Char :=
  Text.pad 0 (micras / 1000000) ++ '.' :: Text.pad 6 (micras % 1000000)

variable {δ : Type} (micras : δ → ℕ)

/-- The two lines of an entry. -/
def EntradaHLS.lines (e : EntradaHLS δ) : List (List Char) :=
  ["#EXTINF:".toList ++ (decimales (micras e.duration) ++ [',']), e.filename.toList]

def lineAllowCache (allowcache : ℤ) : List (List Char) :=
  if allowcache = 0 then ["#EXT-X-ALLOW-CACHE:NO".toList]
  else if allowcache = 1 then ["#EXT-X-ALLOW-CACHE:YES".toList]
  else []

def lineMap (map : Option String) : List (List Char) :=
  map.toList.map fun f => "#EXT-X-MAP:".toList ++ AttributeList.text [⟨"URI".toList, f.toList, true⟩]

def lineEndList (endList : Bool) : List (List Char) :=
  if endList then ["#EXT-X-ENDLIST".toList] else []

/-- The lines of a playlist, from the durations in millionths. -/
def ListaHLS.lines (l : ListaHLS δ) : List (List Char) :=
  ["#EXTM3U".toList, "#EXT-X-VERSION:".toList ++ Text.pad 0 l.version] ++
    lineAllowCache l.allowcache ++
    ["#EXT-X-TARGETDURATION:".toList ++ entero l.targetDuration,
      "#EXT-X-MEDIA-SEQUENCE:".toList ++ Text.pad 0 l.sequence] ++
    lineMap l.map ++ l.entradas.flatMap (EntradaHLS.lines micras) ++ lineEndList l.endList

/-- **The text of a playlist.** -/
def ListaHLS.texto (l : ListaHLS δ) : String := .ofList ((l.lines micras).flatMap (· ++ ['\n']))

/-! ## What is read of it -/

/-- The duration that is read. -/
def duracionLeida (micras : ℕ) : ℚ := if micras = 0 then 1 / 100 else micras / 10 ^ 6

/-- An entry, as it is read. -/
def EntradaHLS.uri (map : Option String) (e : EntradaHLS δ) : CurrentUri :=
  { CurrentUri.vacia with
    uri := e.filename
    duration := some (duracionLeida (micras e.duration))
    map := map.map some }

/-- What has been read of a playlist after some of its entries. -/
def ListaHLS.leida (l : ListaHLS δ) (leidas : List (EntradaHLS δ)) (endList : Bool) : Manifest :=
  { Manifest.inicial with
    allowCache := l.allowcache ≠ 0
    mediaSequence := some l.sequence
    discontinuitySequence := if leidas = [] then none else some 0
    targetDuration := if l.targetDuration < 0 then none else some l.targetDuration
    endList := endList
    conSegments := leidas ≠ []
    uris := leidas.map (EntradaHLS.uri micras l.map)
    currentMap := l.map.map some }

/-- **A playlist, as it is read.** -/
def ListaHLS.manifest (l : ListaHLS δ) : Manifest := l.leida micras l.entradas l.endList

/-! ## Numbers -/

theorem numerico_of_isDigit {s : List Char} (h : ∀ c ∈ s, c.isDigit = true) :
    ParseStream.numerico s = s :=
  List.takeWhile_eq_self_iff.2 fun c hc => by simp [ParseStream.esNumerico, h c hc]

theorem parseInt_of_isDigit {s : List Char} (h : ∀ c ∈ s, c.isDigit = true) (hne : s ≠ []) :
    parseInt s = some (Nat.ofDigitChars 10 s 0 : ℤ) := by
  obtain ⟨c, t, rfl⟩ := List.exists_cons_of_ne_nil hne
  have hc := h c List.mem_cons_self
  have hsigno : sinSigno (c :: t) = c :: t := by
    unfold sinSigno
    split
    · rename_i heq
      obtain ⟨rfl, -⟩ := List.cons.inj heq
      exact absurd hc (by decide)
    · rename_i heq
      obtain ⟨rfl, -⟩ := List.cons.inj heq
      exact absurd hc (by decide)
    · rfl
  have hespacio : (c :: t).dropWhile esEspacio = c :: t :=
    List.dropWhile_cons_of_neg (by simp [(EsTexto.of_isDigit h).esEspacio List.mem_cons_self])
  have hmenos : (c :: t).head? ≠ some '-' := by
    rintro heq
    obtain rfl := Option.some_inj.1 heq
    exact absurd hc (by decide)
  simp only [parseInt, hespacio, hsigno, List.takeWhile_eq_self_iff.2 h, if_neg hmenos]
  rfl

theorem parseInt_pad (w n : ℕ) : parseInt (Text.pad w n) = some (n : ℤ) := by
  have hne : Text.pad w n ≠ [] := List.ne_nil_of_length_pos (Text.length_pad_pos w n)
  rw [parseInt_of_isDigit (fun _ hc => Text.isDigit_of_mem_pad hc) hne]
  simp [Text.pad, Nat.ofDigitChars_append]

theorem esTexto_pad (w n : ℕ) : EsTexto (Text.pad w n) :=
  EsTexto.of_isDigit fun _ hc => Text.isDigit_of_mem_pad hc

theorem esTexto_entero (t : ℤ) : EsTexto (entero t) := by
  rw [entero]
  split
  · exact List.forall_mem_cons.2 ⟨by decide, esTexto_pad 0 _⟩
  · exact esTexto_pad 0 _

/-- A target duration is read where it is not below zero. -/
theorem parseInt_entero (t : ℤ) :
    parseInt (ParseStream.numerico (entero t)) = if t < 0 then none else some t := by
  rw [entero]
  split
  · rfl
  · rw [numerico_of_isDigit fun _ hc => Text.isDigit_of_mem_pad hc, parseInt_pad]
    exact congrArg some (by omega)

theorem length_pad_of_lt {w n : ℕ} (hw : 0 < w) (h : n < 10 ^ w) : (Text.pad w n).length = w := by
  refine le_antisymm ((Text.length_pad_le_iff (Nat.le_refl w) hw).2 h) ?_
  rw [Text.pad, List.length_append, List.length_replicate]
  omega

/-- **A duration is read to the millionth.** -/
theorem parseFloat_decimales (micras : ℕ) :
    parseFloat (decimales micras) = some ((micras : ℚ) / 10 ^ 6) := by
  have hentera : ∀ c ∈ Text.pad 0 (micras / 1000000), c.isDigit = true := fun _ hc =>
    Text.isDigit_of_mem_pad hc
  have hdecimal : ∀ c ∈ Text.pad 6 (micras % 1000000), c.isDigit = true := fun _ hc =>
    Text.isDigit_of_mem_pad hc
  have htake : (decimales micras).takeWhile Char.isDigit = Text.pad 0 (micras / 1000000) := by
    rw [decimales, List.takeWhile_append_of_pos hentera, List.takeWhile_cons_of_neg (by decide),
      List.append_nil]
  have hdrop : (decimales micras).dropWhile Char.isDigit = '.' :: Text.pad 6 (micras % 1000000) := by
    rw [decimales, List.dropWhile_append_of_pos hentera, List.dropWhile_cons_of_neg (by decide)]
  have hlength : (Text.pad 6 (micras % 1000000)).length = 6 :=
    length_pad_of_lt (by decide) (Nat.mod_lt _ (by decide))
  have hne : Text.pad 0 (micras / 1000000) ≠ [] := List.ne_nil_of_length_pos (Text.length_pad_pos 0 _)
  have hvalor (n : ℕ) (w : ℕ) : Nat.ofDigitChars 10 (Text.pad w n) 0 = n := by
    simp [Text.pad, Nat.ofDigitChars_append]
  have hsuma : Nat.ofDigitChars 10 (Text.pad 0 (micras / 1000000) ++ Text.pad 6 (micras % 1000000)) 0 =
      micras := by
    rw [Nat.ofDigitChars_append, hvalor, Nat.ofDigitChars_eq_ofDigitChars_zero, hlength, hvalor]
    omega
  simp only [parseFloat, htake, hdrop, List.takeWhile_eq_self_iff.2 hdecimal, hlength, hsuma]
  exact if_neg fun h => hne h.1

/-! ## The lines -/

theorem legal_uri {f : List Char} (hf : EsTexto f) :
    ∀ a ∈ [(⟨"URI".toList, f, true⟩ : Item)], a.Legal esEspacio esFinDeLinea := by
  have huri : '=' ∉ "URI".toList ∧ EsTexto "URI".toList := by decide
  exact List.forall_mem_singleton.2 ⟨⟨huri.1, huri.2.trimmed⟩,
    fun c hc => (huri.2.append hf).esFinDeLinea hc, fun _ => hf.notMem (by decide),
    fun h => absurd h.symm Bool.false_ne_true⟩

namespace Manifest

variable (m : Manifest)

theorem leerLinea_of_push {line : List Char} {entry : Entry}
    (h : ParseStream.push line = some (some entry)) : m.leerLinea line = m.leer entry := by
  rw [leerLinea, h]
  rfl

/-- A tag whose value has neither blanks nor ends of line. -/
theorem leerLinea_tag (k : ℕ) (tag : String) {leer : List Char → Option (Option Entry)}
    (hk : ParseStream.tags[k]? = some (tag, leer))
    (hantes : (ParseStream.tags.take k).all
      (fun antes => ParseStream.Aparte antes.1 (tag ++ ":")) = true)
    (hext : "#EXT".toList.isPrefixOf tag.toList = true ∧ '\r' ∉ tag.toList) {resto : List Char}
    (hresto : EsTexto resto) {entry : Entry} (h : leer resto = some (some entry)) :
    m.leerLinea ((tag ++ ":").toList ++ resto) = m.leer entry :=
  m.leerLinea_of_push (ParseStream.push_tag k tag hk hantes hext (fun _ hc => hresto.esFinDeLinea hc)
    (fun _ hc => hresto.esEspacio (List.mem_of_mem_getLast? hc)) h)

theorem leerLinea_version (version : ℕ) :
    m.leerLinea ("#EXT-X-VERSION:".toList ++ Text.pad 0 version) = some m :=
  m.leerLinea_tag 3 "#EXT-X-VERSION" rfl (by decide) (by decide) (esTexto_pad 0 version) rfl

theorem foldlM_lineAllowCache (allowcache : ℤ) (h : m.allowCache = true) :
    (lineAllowCache allowcache).foldlM leerLinea m =
      some { m with allowCache := decide (allowcache ≠ 0) } := by
  rw [lineAllowCache]
  split
  · rename_i hcero
    rw [hcero]
    rfl
  · rename_i hcero
    have hself : { m with allowCache := decide (allowcache ≠ 0) } = { m with allowCache := true } := by
      rw [decide_eq_true hcero]
    rw [hself]
    split
    · rfl
    · rw [← h]
      rfl

theorem leerLinea_targetDuration (t : ℤ) (h : m.targetDuration = none) :
    m.leerLinea ("#EXT-X-TARGETDURATION:".toList ++ entero t) =
      some { m with targetDuration := if t < 0 then none else some t } := by
  refine (m.leerLinea_tag 2 "#EXT-X-TARGETDURATION" rfl (by decide) (by decide) (esTexto_entero t)
    rfl).trans ?_
  rw [parseInt_entero]
  split
  · have hself : { m with targetDuration := none } = m := by rw [← h]
    rw [hself]
    rfl
  · rename_i ht
    simp only [leer, if_neg ht]

theorem leerLinea_mediaSequence (n : ℕ) :
    m.leerLinea ("#EXT-X-MEDIA-SEQUENCE:".toList ++ Text.pad 0 n) =
      some { m with mediaSequence := some n } := by
  have hsigno : ParseStream.conSigno (Text.pad 0 n) = Text.pad 0 n := by
    have hdigits : ∀ c ∈ Text.pad 0 n, c.isDigit = true := fun _ hc => Text.isDigit_of_mem_pad hc
    unfold ParseStream.conSigno
    split
    · rename_i heq
      exact absurd (hdigits '-' (by rw [heq]; exact List.mem_cons_self)) (by decide)
    · exact numerico_of_isDigit hdigits
  refine (m.leerLinea_tag 4 "#EXT-X-MEDIA-SEQUENCE" rfl (by decide) (by decide) (esTexto_pad 0 n)
    rfl).trans ?_
  rw [hsigno, parseInt_pad]
  rfl

theorem foldlM_lineMap {map : Option String} (hmap : ∀ f ∈ map, EsTexto f.toList ∧ f ≠ "")
    (h : m.currentMap = none) :
    (lineMap map).foldlM leerLinea m = some { m with currentMap := map.map some } := by
  cases map with
  | none =>
    have hself : { m with currentMap := none } = m := by rw [← h]
    rw [Option.map_none, hself]
    rfl
  | some f =>
    obtain ⟨hf, hne⟩ := hmap f rfl
    have hlegal := legal_uri hf
    have hleer : ParseStream.leerMap (AttributeList.text [⟨"URI".toList, f.toList, true⟩]) =
        some (some (.map (some f))) := by
      rw [ParseStream.leerMap, ParseStream.conAtributos_text (List.cons_ne_nil _ _) hlegal]
      simp [Atributos.dice, Atributos.get, hne]
    have hlinea : m.leerLinea ("#EXT-X-MAP:".toList ++ AttributeList.text [⟨"URI".toList, f.toList, true⟩]) =
        some { m with currentMap := some (some f) } :=
      m.leerLinea_of_push (ParseStream.push_tag 9 "#EXT-X-MAP" rfl (by decide) (by decide)
        (AttributeList.newline_text hlegal (by decide)) (AttributeList.getLast?_text hlegal (by decide))
        hleer)
    rw [lineMap, Option.toList_some, List.map_singleton, List.foldlM_cons, hlinea]
    rfl

end Manifest

/-! ## The playlist -/

/-- A playlist whose names are read back as they are written. -/
structure ListaHLS.Escrita (l : ListaHLS δ) : Prop where
  map : ∀ f ∈ l.map, EsTexto f.toList ∧ f ≠ ""
  entrada : ∀ e ∈ l.entradas, EsTexto e.filename.toList ∧ e.filename ≠ ""

theorem ParseStream.leerInf_decimales (n : ℕ) :
    leerInf (decimales n ++ [',']) = some (some (.inf (some ((n : ℚ) / 10 ^ 6)))) := by
  have hnumerico : ∀ c ∈ decimales n, esNumerico c = true := by
    have hdigit {w k : ℕ} : ∀ c ∈ Text.pad w k, esNumerico c = true := fun c hc => by
      simp [esNumerico, Text.isDigit_of_mem_pad hc]
    exact List.forall_mem_append.2 ⟨hdigit, List.forall_mem_cons.2 ⟨by decide, hdigit⟩⟩
  have htake : numerico (decimales n ++ [',']) = decimales n := by
    rw [numerico, List.takeWhile_append_of_pos hnumerico, List.takeWhile_cons_of_neg (by decide),
      List.append_nil]
  have hdrop : (decimales n ++ [',']).dropWhile esNumerico = [','] := by
    rw [List.dropWhile_append_of_pos hnumerico, List.dropWhile_cons_of_neg (by decide)]
  rw [leerInf, hdrop, htake, parseFloat_decimales]
  rfl

theorem esTexto_decimales (n : ℕ) : EsTexto (decimales n ++ [',']) :=
  EsTexto.append ((esTexto_pad 0 _).append (List.forall_mem_cons.2 ⟨by decide, esTexto_pad 6 _⟩))
    (by decide)

theorem leerDuracion_micras (n : ℕ) (actual : Option ℚ) :
    Manifest.leerDuracion (some ((n : ℚ) / 10 ^ 6)) actual = some (duracionLeida n) := by
  rw [Manifest.leerDuracion, duracionLeida]
  by_cases hn : n = 0
  · simp [hn]
  · have hpos : (0 : ℚ) < n / 10 ^ 6 :=
      div_pos (Nat.cast_pos.2 (Nat.pos_of_ne_zero hn)) (pow_pos (by decide) 6)
    rw [if_pos hpos, if_neg hn]

/-- **An entry is read** behind those before it. -/
theorem foldlM_entrada (l : ListaHLS δ) (leidas : List (EntradaHLS δ)) {e : EntradaHLS δ}
    (he : EsTexto e.filename.toList ∧ e.filename ≠ "") :
    (e.lines micras).foldlM Manifest.leerLinea (l.leida micras leidas false) =
      some (l.leida micras (leidas ++ [e]) false) := by
  have hinf := (l.leida micras leidas false).leerLinea_tag 1 "#EXTINF" rfl (by decide) (by decide)
    (esTexto_decimales (micras e.duration)) (ParseStream.leerInf_decimales _)
  have huri (m : Manifest) : m.leerLinea e.filename.toList = some (m.cerrar e.filename) := by
    have h := ParseStream.push_direccion (List.forall_mem_nil _) he.1 (mt String.toList_eq_nil_iff.1 he.2)
    rw [List.nil_append, String.ofList_toList] at h
    exact m.leerLinea_of_push h
  have hlinea : ("#EXTINF" ++ ":").toList = "#EXTINF:".toList := rfl
  rw [hlinea] at hinf
  rw [EntradaHLS.lines, List.foldlM_cons, hinf, Manifest.leer, Option.bind_eq_bind, Option.bind_some,
    List.foldlM_cons, huri]
  have hdiscontinuity : some ((l.leida micras leidas false).discontinuitySequence.getD 0) = some 0 := by
    simp only [ListaHLS.leida]
    split <;> rfl
  simp only [hdiscontinuity]
  simp only [ListaHLS.leida, Manifest.cerrar, leerDuracion_micras, Option.getD_some, List.map_append,
    List.map_singleton, ne_eq, List.append_eq_nil_iff, List.cons_ne_nil, and_false, if_false,
    not_false_eq_true, decide_true]
  rfl

theorem foldlM_entradas (l : ListaHLS δ) (leidas : List (EntradaHLS δ)) {es : List (EntradaHLS δ)}
    (hes : ∀ e ∈ es, EsTexto e.filename.toList ∧ e.filename ≠ "") :
    (es.flatMap (EntradaHLS.lines micras)).foldlM Manifest.leerLinea (l.leida micras leidas false) =
      some (l.leida micras (leidas ++ es) false) := by
  induction es generalizing leidas with
  | nil => rw [List.append_nil]; rfl
  | cons e es ih =>
    rw [List.forall_mem_cons] at hes
    rw [List.flatMap_cons, List.foldlM_append, foldlM_entrada micras l leidas hes.1, Option.bind_eq_bind,
      Option.bind_some, ih _ hes.2, List.append_assoc]
    rfl

theorem salto_notMem_lines {l : ListaHLS δ} (h : l.Escrita) : ∀ line ∈ l.lines micras, '\n' ∉ line := by
  have htexto (tag : String) (htag : '\n' ∉ tag.toList) {resto : List Char} (hresto : EsTexto resto) :
      '\n' ∉ tag.toList ++ resto := by
    rw [List.mem_append, not_or]
    exact ⟨htag, hresto.notMem (by decide)⟩
  simp only [ListaHLS.lines, List.forall_mem_append, List.forall_mem_cons]
  refine ⟨⟨⟨⟨⟨⟨by decide, htexto _ (by decide) (esTexto_pad 0 _), List.forall_mem_nil _⟩, ?_⟩,
    htexto _ (by decide) (esTexto_entero _), htexto _ (by decide) (esTexto_pad 0 _),
    List.forall_mem_nil _⟩, ?_⟩, fun line hline => ?_⟩, ?_⟩
  · rw [lineAllowCache]
    split
    · exact List.forall_mem_singleton.2 (by decide)
    · split
      · exact List.forall_mem_singleton.2 (by decide)
      · exact List.forall_mem_nil _
  · rw [lineMap, List.forall_mem_map]
    intro f hf
    have hlegal := legal_uri (h.map f (Option.mem_toList.1 hf)).1
    rw [List.mem_append, not_or]
    refine ⟨by decide, fun hc => ?_⟩
    exact absurd (AttributeList.newline_text hlegal (by decide) _ hc) (by decide)
  · obtain ⟨e, he, hline⟩ := List.mem_flatMap.1 hline
    rw [EntradaHLS.lines, List.mem_cons, List.mem_singleton] at hline
    rcases hline with rfl | rfl
    · exact htexto _ (by decide) (esTexto_decimales _)
    · exact (h.entrada e he).1.notMem (by decide)
  · rw [lineEndList]
    split
    · exact List.forall_mem_singleton.2 (by decide)
    · exact List.forall_mem_nil _

/-- **The player reads a media playlist back.** -/
theorem parse_texto {l : ListaHLS δ} (h : l.Escrita) :
    Parser.parse (l.texto micras) = some (l.manifest micras) := by
  refine (Parser.parse_lineas String.toList_ofList (salto_notMem_lines micras h)).trans ?_
  have hcabecera : Manifest.inicial.leerLinea "#EXTM3U".toList = some .inicial := rfl
  have hfin : (lineEndList l.endList).foldlM Manifest.leerLinea (l.leida micras l.entradas false) =
      some (l.manifest micras) := by
    rw [ListaHLS.manifest, lineEndList]
    cases l.endList <;> rfl
  have hallow := Manifest.inicial.foldlM_lineAllowCache l.allowcache rfl
  have htarget := Manifest.leerLinea_targetDuration
    { Manifest.inicial with allowCache := decide (l.allowcache ≠ 0) } l.targetDuration rfl
  have hmap : (lineMap l.map).foldlM Manifest.leerLinea
      { Manifest.inicial with
        allowCache := decide (l.allowcache ≠ 0)
        targetDuration := if l.targetDuration < 0 then none else some l.targetDuration
        mediaSequence := some l.sequence } = some (l.leida micras [] false) :=
    (Manifest.foldlM_lineMap _ h.map rfl).trans rfl
  have hentradas := foldlM_entradas micras l [] h.entrada
  rw [List.nil_append] at hentradas
  simp only [ListaHLS.lines, List.foldlM_append, List.foldlM_cons, List.foldlM_nil, hcabecera,
    Option.bind_eq_bind, Option.bind_some, Option.pure_def, Manifest.leerLinea_version, hallow, htarget,
    Manifest.leerLinea_mediaSequence, hmap, hentradas, hfin]

end HlsXcoder
