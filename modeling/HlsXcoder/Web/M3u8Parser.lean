import HlsXcoder.Lib.AttributeList
import HlsXcoder.Web.CustomComponents
import Mathlib.Algebra.Field.Rat
import Mathlib.Algebra.Order.Ring.Unbundled.Rat

/-!
# The playlist parser of the player

The player reads a playlist line by line. `LineStream` keeps what it has
of a line until its end comes, so a text may arrive in any pieces
(`Parser.pushAll_eq`). `ParseStream` turns a line into an entry, and
`Parser` collects the entries: an address closes what the tags before it
said, and is a variant of a master playlist or a segment of a media
playlist by the tags that the text has.

A list of attributes that cannot be read, or a media group of a type that
is none, ends the parser with an error. Numbers are exact here, as they
are below 2^53. Left out are encryption, byte ranges, dates and cues,
whose tags set nothing that is read here, the resolution of a variant,
and custom tags.
-/

namespace HlsXcoder

open AttributeList (Item)

/-! ## Lines -/

namespace LineStream

/-- A text cut at the ends of its lines: the lines, and what is left. -/
def cortar : List Char → List (List Char) × List Char
  | [] => ([], [])
  | c :: data =>
    let (lines, buffer) := cortar data
    if c = '\n' then ([] :: lines, buffer)
    else
      match lines with
      | [] => ([], c :: buffer)
      | line :: lines => ((c :: line) :: lines, buffer)

/-- The lines that `data` ends, and the buffer after it. -/
def push (buffer data : List Char) : List (List Char) × List Char := cortar (buffer ++ data)

end LineStream

/-! ## Entries -/

/-- The ends of line of a regular expression. -/
def esFinDeLinea (c : Char) : Bool := c.toNat ∈ [0xA, 0xD, 0x2028, 0x2029]

abbrev Atributos := List (String × String)

def Atributos.get (attributes : Atributos) (nombre : String) : Option String :=
  (attributes.find? fun a => a.1 = nombre).map Prod.snd

/-- The value of a name, where it is one that counts as true. -/
def Atributos.dice (attributes : Atributos) (nombre : String) : Option String :=
  (attributes.get nombre).filter (· ≠ "")

def parseAttributes (attributes : List Char) : Option Atributos :=
  (AttributeList.parse esEspacio esFinDeLinea attributes).map fun as =>
    as.map fun a => (.ofList a.1, .ofList a.2)

/-- `parseInt(s, 10)`, none where it is not a number. -/
def parseInt (s : List Char) : Option ℤ :=
  let s := s.dropWhile esEspacio
  let ds := (sinSigno s).takeWhile Char.isDigit
  if ds = [] then none
  else some (if s.head? = some '-' then -(Nat.ofDigitChars 10 ds 0 : ℤ) else Nat.ofDigitChars 10 ds 0)

/-- `parseFloat` of digits and points. -/
def parseFloat (s : List Char) : Option ℚ :=
  let entera := s.takeWhile Char.isDigit
  let decimal := match s.dropWhile Char.isDigit with
    | '.' :: resto => resto.takeWhile Char.isDigit
    | _ => []
  if entera = [] ∧ decimal = [] then none
  else some (Nat.ofDigitChars 10 (entera ++ decimal) 0 / 10 ^ decimal.length)

/-- What a line says. -/
inductive Entry where
  | uri (uri : String)
  | inf (duration : Option ℚ)
  | targetduration (duration : Option ℤ)
  | mediaSequence (number : Option ℤ)
  | discontinuitySequence (number : Option ℤ)
  | playlistType (playlistType : Option String)
  | allowCache (allowed : Option Bool)
  | map (uri : Option String)
  | streamInf (attributes : Option Atributos)
  | media (attributes : Option Atributos)
  | endlist
  | discontinuity
  | otro
  deriving DecidableEq, Repr

namespace ParseStream

/-- What stands behind the name of a tag, and a colon. -/
def tras (tag : String) (line : List Char) : Option (List Char) :=
  if tag.toList.isPrefixOf line then
    match line.drop tag.toList.length with
    | ':' :: resto => some resto
    | resto => some resto
  else none

def esNumerico (c : Char) : Bool := c.isDigit || c = '.'

/-- `(.*)$`, which fails where the rest has more than one line. -/
def hastaElFin (resto : List Char) : Option (List Char) :=
  if resto.all (!esFinDeLinea ·) then some resto else none

/-- `([0-9.]*)?` -/
def numerico (resto : List Char) : List Char := resto.takeWhile esNumerico

/-- `(\-?[0-9.]*)?` -/
def conSigno : List Char → List Char
  | '-' :: resto => '-' :: numerico resto
  | resto => numerico resto

/-- The attributes of a tag, where it has any. -/
def conAtributos (entry : Option Atributos → Entry) (resto : List Char) : Option (Option Entry) :=
  (hastaElFin resto).map fun s =>
    if s = [] then some (entry none) else (parseAttributes s).map fun as => entry (some as)

def leerInf (resto : List Char) : Option (Option Entry) :=
  let titulo := match resto.dropWhile esNumerico with
    | ',' :: titulo => titulo
    | titulo => titulo
  (hastaElFin titulo).map fun _ => some (.inf (parseFloat (numerico resto)))

def leerPlaylistType (resto : List Char) : Option (Option Entry) :=
  (hastaElFin resto).map fun s => some (.playlistType (if s = [] then none else some (.ofList s)))

def leerAllowCache (resto : List Char) : Option (Option Entry) :=
  some (some (.allowCache (if "YES".toList.isPrefixOf resto then some true
    else if "NO".toList.isPrefixOf resto then some false else none)))

def leerMap (resto : List Char) : Option (Option Entry) :=
  conAtributos (fun attributes => .map (attributes.bind fun as => as.dice "URI")) resto

/-- The tags in the order they are tried, each with its reader. A reader
gives none where its pattern does not match, and none inside where it
ends in an error. -/
def tags : List (String × (List Char → Option (Option Entry))) :=
  [("#EXTM3U", fun _ => some (some .otro)),
    ("#EXTINF", leerInf),
    ("#EXT-X-TARGETDURATION", fun resto => some (some (.targetduration (parseInt (numerico resto))))),
    ("#EXT-X-VERSION", fun _ => some (some .otro)),
    ("#EXT-X-MEDIA-SEQUENCE", fun resto => some (some (.mediaSequence (parseInt (conSigno resto))))),
    ("#EXT-X-DISCONTINUITY-SEQUENCE",
      fun resto => some (some (.discontinuitySequence (parseInt (conSigno resto))))),
    ("#EXT-X-PLAYLIST-TYPE", leerPlaylistType),
    ("#EXT-X-BYTERANGE", fun _ => some (some .otro)),
    ("#EXT-X-ALLOW-CACHE", leerAllowCache),
    ("#EXT-X-MAP", leerMap),
    ("#EXT-X-STREAM-INF", conAtributos .streamInf),
    ("#EXT-X-MEDIA", conAtributos .media),
    ("#EXT-X-ENDLIST", fun _ => some (some .endlist)),
    ("#EXT-X-DISCONTINUITY", fun _ => some (some .discontinuity))]

/-- The entry of a tag: that of the first pattern that matches. -/
def leerTag (line : List Char) : Option Entry :=
  ((tags.findSome? fun tag => (tras tag.1 line).bind tag.2).getD (some .otro))

/-- The first carriage return is taken out of a tag. -/
def sinRetorno (line : List Char) : List Char := line.erase '\r'

/-- **The entry of a line**, if it has one. -/
def push (line : List Char) : Option (Option Entry) :=
  let line := sinEspacios line
  match line with
  | [] => some none
  | c :: _ =>
    if c ≠ '#' then some (some (.uri (.ofList line)))
    else if "#EXT".toList.isPrefixOf line then (leerTag (sinRetorno line)).map some
    else some none

end ParseStream

/-! ## The manifest -/

/-- A rendition of a media group. -/
structure Rendition where
  predeterminada : Bool
  autoselect : Bool
  language : Option String
  uri : Option String
  instreamId : Option String
  characteristics : Option String
  forced : Option Bool
  deriving DecidableEq, Repr

/-- The type, the group and the name of a rendition. -/
abbrev ClaveMedia := String × String × String

abbrev MediaGroups := ClaveMedia → Option Rendition

/-- A variant or a segment. -/
structure CurrentUri where
  uri : String
  duration : Option ℚ
  attributes : Option Atributos
  discontinuity : Bool
  timeline : ℤ
  map : Option (Option String)
  deriving DecidableEq, Repr

def CurrentUri.vacia : CurrentUri := ⟨"", none, none, false, 0, none⟩

/-- The manifest, the addresses read so far, and what the next one will
take. The addresses are the segments of the manifest once a line has said
so, and its variants likewise. -/
structure Manifest where
  allowCache : Bool
  discontinuityStarts : List ℕ
  mediaSequence : Option ℤ
  discontinuitySequence : Option ℤ
  playlistType : Option String
  targetDuration : Option ℤ
  endList : Bool
  mediaGroups : Option MediaGroups
  conSegments : Bool
  conPlaylists : Bool
  uris : List CurrentUri
  currentUri : CurrentUri
  currentMap : Option (Option String)
  currentTimeline : ℤ

namespace Manifest

def inicial : Manifest where
  allowCache := true
  discontinuityStarts := []
  mediaSequence := none
  discontinuitySequence := none
  playlistType := none
  targetDuration := none
  endList := false
  mediaGroups := none
  conSegments := false
  conPlaylists := false
  uris := []
  currentUri := .vacia
  currentMap := none
  currentTimeline := 0

/-- `/yes/i` -/
def esSi (valor : Option String) : Bool :=
  valor.any fun s => (s.toList.map Char.toLower).tails.any ("yes".toList.isPrefixOf ·)

def tiposMedia : List String := ["AUDIO", "VIDEO", "CLOSED-CAPTIONS", "SUBTITLES"]

def renditionDe (attributes : Atributos) : Rendition where
  predeterminada := esSi (attributes.get "DEFAULT")
  autoselect := esSi (attributes.get "DEFAULT") || esSi (attributes.get "AUTOSELECT")
  language := attributes.dice "LANGUAGE"
  uri := attributes.dice "URI"
  instreamId := attributes.dice "INSTREAM-ID"
  characteristics := attributes.dice "CHARACTERISTICS"
  forced := (attributes.dice "FORCED").map fun s => esSi (some s)

/-- A line of a media group. A type that is none is an error. -/
def leerMedia (m : Manifest) (attributes : Option Atributos) : Option Manifest :=
  let grupos := m.mediaGroups.getD fun _ => none
  match attributes.bind fun as =>
      (as.dice "TYPE").bind fun tipo => (as.dice "GROUP-ID").bind fun grupo =>
        (as.dice "NAME").map fun nombre => (tipo, grupo, nombre, renditionDe as) with
  | none => some { m with mediaGroups := some grupos }
  | some (tipo, grupo, nombre, rendition) =>
    if tipo ∈ tiposMedia then
      some { m with
        mediaGroups := some (Function.update grupos (tipo, grupo, nombre) (some rendition)) }
    else none

/-- An address: what the tags have said of it, and of all of them. -/
def cerrar (m : Manifest) (uri : String) : Manifest :=
  let duration := match m.currentUri.duration, m.targetDuration with
    | none, some t => if t = 0 then none else some (t : ℚ)
    | duration, _ => duration
  { m with
    uris := m.uris ++ [{ m.currentUri with
      uri := uri
      duration := duration
      timeline := m.currentTimeline
      map := m.currentMap }]
    currentUri := .vacia }

def leerDuracion (duration : Option ℚ) (actual : Option ℚ) : Option ℚ :=
  match duration with
  | none => actual
  | some x => if 0 < x then some x else if x = 0 then some (1 / 100) else actual

/-- **What an entry changes**, none where it is an error. -/
def leer (m : Manifest) : Entry → Option Manifest
  | .uri uri => some (m.cerrar uri)
  | .inf duration => some { m with
      mediaSequence := some (m.mediaSequence.getD 0)
      discontinuitySequence := some (m.discontinuitySequence.getD 0)
      currentUri := { m.currentUri with duration := leerDuracion duration m.currentUri.duration }
      conSegments := true }
  | .targetduration duration => some (match duration with
      | some t => if t < 0 then m else { m with targetDuration := some t }
      | none => m)
  | .mediaSequence number => some (match number with
      | some n => { m with mediaSequence := some n }
      | none => m)
  | .discontinuitySequence number => some (match number with
      | some n => { m with discontinuitySequence := some n, currentTimeline := n }
      | none => m)
  | .playlistType playlistType => some (
      if playlistType.any fun s => s.toList.tails.any fun r =>
          "VOD".toList.isPrefixOf r || "EVENT".toList.isPrefixOf r then
        { m with playlistType := playlistType }
      else m)
  | .allowCache allowed => some { m with allowCache := allowed.getD true }
  | .map uri => some { m with currentMap := some uri }
  | .streamInf attributes => some { m with
      conPlaylists := true
      mediaGroups := some (m.mediaGroups.getD fun _ => none)
      currentUri := { m.currentUri with
        attributes := attributes.elim m.currentUri.attributes fun as =>
          some (as ++ m.currentUri.attributes.getD []) } }
  | .media attributes => m.leerMedia attributes
  | .endlist => some { m with endList := true }
  | .discontinuity => some { m with
      currentTimeline := m.currentTimeline + 1
      currentUri := { m.currentUri with discontinuity := true }
      discontinuityStarts := m.discontinuityStarts ++ [m.uris.length] }
  | .otro => some m

def segments (m : Manifest) : List CurrentUri := if m.conSegments then m.uris else []

def playlists (m : Manifest) : Option (List CurrentUri) := if m.conPlaylists then some m.uris else none

/-- What a line changes. -/
def leerLinea (m : Manifest) (line : List Char) : Option Manifest :=
  (ParseStream.push line).bind fun entry => entry.elim (some m) m.leer

end Manifest

/-- The parser: the line it waits for, and what it has read. -/
structure Parser where
  buffer : List Char
  manifest : Manifest

namespace Parser

def inicial : Parser := ⟨[], .inicial⟩

/-- **A piece of the text.** -/
def push (p : Parser) (chunk : List Char) : Option Parser :=
  let (lines, buffer) := LineStream.push p.buffer chunk
  (lines.foldlM Manifest.leerLinea p.manifest).map fun manifest => ⟨buffer, manifest⟩

/-- The text in pieces, one after the other. -/
def pushAll (p : Parser) (chunks : List (List Char)) : Option Parser := chunks.foldlM push p

/-- What is left of the last line ends with the text. -/
def finalizar (p : Parser) : Option Parser := p.push ['\n']

/-- **The manifest of a text.** -/
def parse (texto : String) : Option Manifest :=
  ((inicial.push texto.toList).bind finalizar).map Parser.manifest

end Parser

/-! ## Attributes and numbers -/

/-- **A list of attributes is read as it was written.** -/
theorem parseAttributes_text {items : List Item} (hne : items ≠ [])
    (h : ∀ a ∈ items, a.Legal esEspacio esFinDeLinea) :
    parseAttributes (AttributeList.text items) =
      some (items.map fun a => (.ofList a.name, .ofList a.value)) := by
  rw [parseAttributes, AttributeList.parse_text hne h (by decide) (by decide), Option.map_some,
    List.map_map]
  rfl

theorem ParseStream.conAtributos_text {entry : Option Atributos → Entry} {items : List Item}
    (hne : items ≠ []) (h : ∀ a ∈ items, a.Legal esEspacio esFinDeLinea) :
    conAtributos entry (AttributeList.text items) =
      some (some (entry (some (items.map fun a => (.ofList a.name, .ofList a.value))))) := by
  have hfin : hastaElFin (AttributeList.text items) = some (AttributeList.text items) := by
    refine if_pos (List.all_eq_true.2 fun c hc => ?_)
    rw [AttributeList.newline_text h (by decide) c hc]
    rfl
  have hnil : AttributeList.text items ≠ [] := by
    obtain ⟨a, -, s, hs⟩ := AttributeList.exists_text_eq hne
    rw [hs]
    simp [Item.chars]
  rw [conAtributos, hfin, Option.map_some, if_neg hnil, parseAttributes_text hne h, Option.map_some]

/-! ## Lines are read one by one -/

namespace ParseStream

theorem tras_append (tag : String) (resto : List Char) :
    tras tag ((tag ++ ":").toList ++ resto) = some resto := by
  have hline : (tag ++ ":").toList ++ resto = tag.toList ++ ':' :: resto := by simp
  rw [hline, tras, if_pos (List.isPrefixOf_iff_prefix.2 (List.prefix_append _ _)), List.drop_left]
  rfl

/-- Two tags that part somewhere. -/
def Aparte (tag tag' : String) : Prop :=
  tag.toList.isPrefixOf tag'.toList = false ∧ tag'.toList.isPrefixOf tag.toList = false

instance (tag tag' : String) : Decidable (Aparte tag tag') := inferInstanceAs (Decidable (_ ∧ _))

theorem tras_eq_none {tag tag' : String} (h : Aparte tag tag') (resto : List Char) :
    tras tag (tag'.toList ++ resto) = none := by
  refine if_neg fun hpre => ?_
  rcases List.prefix_or_prefix_of_prefix (List.isPrefixOf_iff_prefix.1 hpre)
    (List.prefix_append tag'.toList resto) with hp | hp
  · exact absurd (List.isPrefixOf_iff_prefix.2 hp) (by simp [h.1])
  · exact absurd (List.isPrefixOf_iff_prefix.2 hp) (by simp [h.2])

/-- **A tag is read by its own reader**, where those before it part from
it. -/
theorem leerTag_append (k : ℕ) (tag : String) {leer : List Char → Option (Option Entry)}
    (hk : tags[k]? = some (tag, leer))
    (hantes : (tags.take k).all (fun antes => Aparte antes.1 (tag ++ ":")) = true)
    {resto : List Char} {entry : Option Entry} (h : leer resto = some entry) :
    leerTag ((tag ++ ":").toList ++ resto) = entry := by
  obtain ⟨hlt, hget⟩ := List.getElem?_eq_some_iff.1 hk
  have htags : tags = tags.take k ++ (tag, leer) :: tags.drop (k + 1) := by
    rw [← hget, ← List.drop_eq_getElem_cons hlt, List.take_append_drop]
  have hnone : (tags.take k).findSome?
      (fun antes => (tras antes.1 ((tag ++ ":").toList ++ resto)).bind antes.2) = none := by
    refine List.findSome?_eq_none_iff.2 fun antes hmem => ?_
    rw [tras_eq_none (of_decide_eq_true (List.all_eq_true.1 hantes antes hmem)), Option.bind_none]
  rw [leerTag, htags, List.findSome?_append, hnone, List.findSome?_cons]
  simp only [tras_append, Option.bind_some, h]
  rfl

/-- A line is read without the blanks around it. -/
theorem push_trim {l line r : List Char} (hl : ∀ c ∈ l, esEspacio c = true)
    (hline : AttributeList.Trimmed esEspacio line) (hr : ∀ c ∈ r, esEspacio c = true) :
    push (l ++ (line ++ r)) = push line := by
  have htrim : sinEspacios (l ++ (line ++ r)) = line := AttributeList.trim_append hl hline hr
  have hself : sinEspacios line = line := AttributeList.trim_eq_self hline
  rw [push, push, htrim, hself]

/-- **An address is what is neither blank nor starts a tag.** -/
theorem push_uri {c : Char} {s : List Char} (h : AttributeList.Trimmed esEspacio (c :: s))
    (hc : c ≠ '#') : push (c :: s) = some (some (.uri (.ofList (c :: s)))) := by
  have hself : sinEspacios (c :: s) = c :: s := AttributeList.trim_eq_self h
  simp only [push, hself]
  rw [if_pos hc]

/-- **The line of a tag gives the entry of its reader.** -/
theorem push_tag (k : ℕ) (tag : String) {leer : List Char → Option (Option Entry)}
    (hk : tags[k]? = some (tag, leer))
    (hantes : (tags.take k).all (fun antes => Aparte antes.1 (tag ++ ":")) = true)
    (hext : "#EXT".toList.isPrefixOf tag.toList = true ∧ '\r' ∉ tag.toList) {resto : List Char}
    {entry : Option Entry} (hfin : ∀ c ∈ resto, esFinDeLinea c = false)
    (hultimo : ∀ c ∈ resto.getLast?, esEspacio c = false) (h : leer resto = some entry) :
    push ((tag ++ ":").toList ++ resto) = entry.map some := by
  obtain ⟨cola, hcola⟩ := List.isPrefixOf_iff_prefix.1 hext.1
  have hline : (tag ++ ":").toList ++ resto = '#' :: ("EXT".toList ++ cola ++ ':' :: resto) := by
    rw [String.toList_append, ← hcola]
    simp
  have htrimmed : AttributeList.Trimmed esEspacio ((tag ++ ":").toList ++ resto) := by
    refine ⟨fun c hc => ?_, fun c hc => ?_⟩
    · rw [hline] at hc
      obtain rfl := Option.some_inj.1 hc
      decide
    · rw [List.getLast?_append] at hc
      cases hlast : resto.getLast? with
      | some d =>
        rw [hlast] at hc
        obtain rfl := Option.some_inj.1 hc
        exact hultimo d hlast
      | none =>
        rw [hlast, String.toList_append, String.toList_ofList, Option.none_or,
          List.getLast?_append] at hc
        obtain rfl := Option.some_inj.1 hc
        decide
  have hself : sinEspacios ((tag ++ ":").toList ++ resto) = (tag ++ ":").toList ++ resto :=
    AttributeList.trim_eq_self htrimmed
  have hprefijo : "#EXT".toList.isPrefixOf ((tag ++ ":").toList ++ resto) = true := by
    refine List.isPrefixOf_iff_prefix.2 ⟨cola ++ ':' :: resto, ?_⟩
    rw [hline]
    simp
  have hretorno : sinRetorno ((tag ++ ":").toList ++ resto) = (tag ++ ":").toList ++ resto := by
    refine List.erase_of_not_mem fun hmem => ?_
    rw [List.mem_append, String.toList_append, List.mem_append] at hmem
    rcases hmem with (hmem | hmem) | hmem
    · exact hext.2 hmem
    · exact absurd hmem (by decide)
    · exact absurd (hfin _ hmem) (by decide)
  simp only [push, hself]
  rw [hline]
  simp only [ne_eq, not_true_eq_false, if_false]
  rw [← hline, if_pos hprefijo, hretorno, leerTag_append k tag hk hantes h]

end ParseStream

/-! ## Names and addresses -/

/-- The characters of the names and the addresses: none of them is a
blank, an end of line or a quote. -/
def EsTexto (s : List Char) : Prop := ∀ c ∈ s, 44 ≤ c.toNat ∧ c.toNat ≤ 122

instance (s : List Char) : Decidable (EsTexto s) := List.decidableBAll _ s

namespace EsTexto

variable {s t : List Char}

theorem append (hs : EsTexto s) (ht : EsTexto t) : EsTexto (s ++ t) := fun c hc =>
  (List.mem_append.1 hc).elim (hs c) (ht c)

theorem esEspacio (hs : EsTexto s) {c : Char} (hc : c ∈ s) : esEspacio c = false := by
  have := hs c hc
  simp only [HlsXcoder.esEspacio, List.mem_cons, List.not_mem_nil, or_false, Bool.or_eq_false_iff,
    decide_eq_false_iff_not, Bool.and_eq_false_iff]
  omega

theorem esFinDeLinea (hs : EsTexto s) {c : Char} (hc : c ∈ s) : esFinDeLinea c = false := by
  have := hs c hc
  simp only [HlsXcoder.esFinDeLinea, List.mem_cons, List.not_mem_nil, or_false,
    decide_eq_false_iff_not]
  omega

theorem notMem (hs : EsTexto s) {c : Char} (hc : c.toNat < 44) : c ∉ s := fun hmem => by
  have := hs c hmem
  omega

theorem isQuote (hs : EsTexto s) {c : Char} (hc : c ∈ s) : AttributeList.isQuote c = false := by
  have h1 : c ≠ '"' := ne_of_mem_of_not_mem hc (hs.notMem (by decide))
  have h2 : c ≠ '\'' := ne_of_mem_of_not_mem hc (hs.notMem (by decide))
  simp [AttributeList.isQuote, h1, h2]

theorem trimmed (hs : EsTexto s) : AttributeList.Trimmed HlsXcoder.esEspacio s :=
  ⟨fun _ hc => hs.esEspacio (List.mem_of_mem_head? hc),
    fun _ hc => hs.esEspacio (List.mem_of_mem_getLast? hc)⟩

theorem of_isDigit (h : ∀ c ∈ s, c.isDigit = true) : EsTexto s := by
  intro c hc
  have := Char.isDigit_iff_toNat.1 (h c hc)
  have h0 : '0'.toNat = 48 := rfl
  have h9 : '9'.toNat = 57 := rfl
  omega

end EsTexto

/-- An address is read without the blanks before it. -/
theorem ParseStream.push_direccion {blancos direccion : List Char} (hblancos : ∀ c ∈ blancos, esEspacio c = true)
    (hdireccion : EsTexto direccion) (hnil : direccion ≠ []) :
    ParseStream.push (blancos ++ direccion) = some (some (.uri (.ofList direccion))) := by
  have htrim := ParseStream.push_trim hblancos hdireccion.trimmed (List.forall_mem_nil _)
  rw [List.append_nil] at htrim
  rw [htrim]
  obtain ⟨c, t, rfl⟩ := List.exists_cons_of_ne_nil hnil
  refine ParseStream.push_uri hdireccion.trimmed ?_
  rintro rfl
  exact hdireccion.notMem (by decide) List.mem_cons_self

namespace LineStream

/-- **What a piece leaves behind the next one goes on with.** -/
theorem cortar_append (a b : List Char) : cortar (a ++ b) =
    ((cortar a).1 ++ (cortar ((cortar a).2 ++ b)).1, (cortar ((cortar a).2 ++ b)).2) := by
  induction a with
  | nil => simp [cortar]
  | cons c a ih =>
    rw [List.cons_append]
    by_cases hc : c = '\n'
    · simp only [cortar, ih, if_pos hc]
      rfl
    · cases hlines : (cortar a).1 with
      | nil =>
        rw [hlines, List.nil_append] at ih
        simp only [cortar, hc, if_false, hlines, ih, List.nil_append, List.cons_append]
      | cons line lines =>
        rw [hlines] at ih
        simp only [cortar, hc, if_false, hlines, ih, List.cons_append]

theorem notMem_cortar (data : List Char) : '\n' ∉ (cortar data).2 := by
  induction data with
  | nil => exact List.not_mem_nil
  | cons c data ih =>
    simp only [cortar]
    split
    · exact ih
    · rename_i hc
      split
      · exact fun h => (List.mem_cons.1 h).elim (fun h => hc h.symm) ih
      · exact ih

theorem cortar_of_notMem {data : List Char} (h : '\n' ∉ data) : cortar data = ([], data) := by
  induction data with
  | nil => rfl
  | cons c data ih =>
    rw [List.mem_cons, not_or] at h
    simp only [cortar, ih h.2, if_neg (Ne.symm h.1)]

/-- A line and what follows it. -/
theorem cortar_line {line : List Char} (h : '\n' ∉ line) (data : List Char) :
    cortar (line ++ '\n' :: data) = (line :: (cortar data).1, (cortar data).2) := by
  induction line with
  | nil => rfl
  | cons c line ih =>
    rw [List.mem_cons, not_or] at h
    rw [List.cons_append, cortar]
    simp only [ih h.2, if_neg (Ne.symm h.1)]

end LineStream

namespace Parser

/-- **A text may arrive in any pieces.** -/
theorem push_append {p : Parser} (a b : List Char) :
    p.push (a ++ b) = (p.push a).bind fun p => p.push b := by
  simp only [push, LineStream.push, ← List.append_assoc, LineStream.cortar_append (p.buffer ++ a) b,
    List.foldlM_append]
  cases (LineStream.cortar (p.buffer ++ a)).1.foldlM Manifest.leerLinea p.manifest <;> rfl

/-- The pieces of a text are read like the text. -/
theorem pushAll_eq {p : Parser} (h : '\n' ∉ p.buffer) (chunks : List (List Char)) :
    p.pushAll chunks = p.push chunks.flatten := by
  induction chunks generalizing p with
  | nil => simp [pushAll, push, LineStream.push, LineStream.cortar_of_notMem h]
  | cons chunk chunks ih =>
    rw [List.flatten_cons, push_append, pushAll, List.foldlM_cons]
    refine Option.bind_congr fun q hq => ?_
    refine ih ?_
    obtain ⟨m, -, rfl⟩ := Option.map_eq_some_iff.1 hq
    exact LineStream.notMem_cortar _

/-- **A text in pieces is read like the text**, if it is at all. -/
theorem parse_pushAll (chunks : List (List Char)) :
    ((inicial.pushAll chunks).bind finalizar).map manifest = parse (.ofList chunks.flatten) := by
  rw [pushAll_eq List.not_mem_nil, parse, String.toList_ofList]

/-- **A text is read line by line.** -/
theorem parse_lineas {texto : String} {lines : List (List Char)}
    (htexto : texto.toList = lines.flatMap (· ++ ['\n'])) (h : ∀ line ∈ lines, '\n' ∉ line) :
    parse texto = lines.foldlM Manifest.leerLinea .inicial := by
  have hcortar (lines : List (List Char)) (h : ∀ line ∈ lines, '\n' ∉ line) :
      LineStream.cortar (lines.flatMap (· ++ ['\n'])) = (lines, []) := by
    induction lines with
    | nil => rfl
    | cons line lines ih =>
      obtain ⟨hline, hlines⟩ := List.forall_mem_cons.1 h
      rw [List.flatMap_cons, List.append_assoc, List.singleton_append,
        LineStream.cortar_line hline, ih hlines]
  have hfin (m : Manifest) : m.leerLinea [] = some m := rfl
  simp only [parse, push, LineStream.push, inicial, List.nil_append, htexto, hcortar lines h]
  cases lines.foldlM Manifest.leerLinea .inicial with
  | none => rfl
  | some m => rfl

end Parser

end HlsXcoder
