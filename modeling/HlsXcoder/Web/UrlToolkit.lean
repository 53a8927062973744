import HlsXcoder.Lib.AttributeList
import HlsXcoder.Lib.Mux
import HlsXcoder.Web.CustomComponents

/-!
# Addresses relative to addresses

The player resolves the addresses of a playlist against that of the
playlist (`resolveUrl`). An address is cut into its scheme, its host, its
path and what follows the path, and a relative path takes the place of
the last part of the path it is relative to. The path is then normalized,
backwards, as the toolkit of the player does it: `.` and `..` are taken
out of it. Where all of its parts are names that leaves it as it is, and
the address is that of a file below the directory of the playlist
(`resolveUrl_descenso`).

An address has no end of line here, and a location of the page stands for
the base that is none.
-/

namespace HlsXcoder

open FileTree Mux

/-- The parts of an address. -/
structure Url where
  scheme : List Char
  netLoc : List Char
  path : List Char
  params : List Char
  query : List Char
  fragment : List Char
  deriving DecidableEq, Repr

namespace UrlToolkit

/-! ## Cutting an address -/

/-- `[a-zA-Z0-9+\-.]` -/
def esDeEsquema (c : Char) : Bool := c.isAlphanum || c = '+' || c = '-' || c = '.'

/-- The scheme with its colon, and the rest. -/
def esquema (url : List Char) : List Char × List Char :=
  let scheme := url.takeWhile esDeEsquema
  match url.dropWhile esDeEsquema with
  | ':' :: resto => if scheme = [] then ([], url) else (scheme ++ [':'], resto)
  | _ => ([], url)

/-- `[^/?#]` -/
def esDeHost (c : Char) : Bool := c ≠ '/' && c ≠ '?' && c ≠ '#'

/-- The host behind two slashes, and the rest. -/
def servidor : List Char → List Char × List Char
  | '/' :: '/' :: resto => ('/' :: '/' :: resto.takeWhile esDeHost, resto.dropWhile esDeHost)
  | resto => ([], resto)

def esDeRuta (c : Char) : Bool := c ≠ '?' && c ≠ '#'

/-- The path: what ends with the last slash, and the last part up to a
semicolon. -/
def ruta (s : List Char) : List Char :=
  if s.head? = some ';' then []
  else
    let antes := s.takeWhile esDeRuta
    let ultima := (Text.cutLast '/' antes).2
    antes.take (antes.length - ultima.length) ++ ultima.takeWhile (· ≠ ';')

/-- What stands from a mark on, up to the end of its part. -/
def desde (marca : Char) (sigue : Char → Bool) (s : List Char) : List Char :=
  if s.head? = some marca then s.takeWhile sigue else []

def parseURL (url : List Char) : Url :=
  let (scheme, resto) := esquema url
  let (netLoc, resto) := servidor resto
  let path := ruta resto
  let resto := resto.drop path.length
  let params := desde ';' esDeRuta resto
  let resto := resto.drop params.length
  let query := desde '?' (· ≠ '#') resto
  { scheme := scheme
    netLoc := netLoc
    path := path
    params := params
    query := query
    fragment := resto.drop query.length }

def buildURLFromParts (parts : Url) : List Char :=
  parts.scheme ++ parts.netLoc ++ parts.path ++ parts.params ++ parts.query ++ parts.fragment

/-! ## Normal paths -/

/-- `(\/)\.(?=\/)` taken out everywhere. The count is of the characters
of a match still to be passed over. -/
def sinPuntosDesde : ℕ → List Char → List Char
  | _, [] => []
  | n + 1, _ :: s => sinPuntosDesde n s
  | 0, c :: s =>
    if c = '/' ∧ ['.', '/'].isPrefixOf s then sinPuntosDesde 1 s else c :: sinPuntosDesde 0 s

/-- `SLASH_DOT_REGEX`, which also matches at the start. -/
def sinPuntos (s : List Char) : List Char :=
  if ['.', '/'].isPrefixOf s then sinPuntosDesde 1 s else sinPuntosDesde 0 s

/-- How much stands behind `../` up to the next slash, where it is no
`../` again. -/
def hastaBarraSiguiente (s : List Char) : Option ℕ :=
  if ['.', '.', '/'].isPrefixOf s then none
  else if '/' ∈ s then some (s.takeWhile (· ≠ '/')).length
  else none

/-- The length of `\.\.\/(?!\.\.\/).*?(?=\/)` at the start of a text. -/
def largoSubida (s : List Char) : Option ℕ :=
  if ['.', '.', '/'].isPrefixOf s then (hastaBarraSiguiente (s.drop 3)).map (3 + ·) else none

def sinSubidasDesde : ℕ → List Char → List Char
  | _, [] => []
  | n + 1, _ :: s => sinSubidasDesde n s
  | 0, c :: s =>
    match if c = '/' then largoSubida s else none with
    | some n => sinSubidasDesde n s
    | none => c :: sinSubidasDesde 0 s

/-- `SLASH_DOT_DOT_REGEX`, which also matches at the start. -/
def sinSubidas (s : List Char) : List Char :=
  match largoSubida s with
  | some n => sinSubidasDesde n s
  | none => sinSubidasDesde 0 s

/-- The loop over `SLASH_DOT_DOT_REGEX`: it ends where nothing is taken
out any more. Each round but the last makes the path shorter. -/
def sinSubidasHasta : ℕ → List Char → List Char
  | 0, path => path
  | n + 1, path =>
    if (sinSubidas path).length = path.length then sinSubidas path
    else sinSubidasHasta n (sinSubidas path)

def normalizePath (path : List Char) : List Char :=
  let path := sinPuntos path.reverse
  (sinSubidasHasta (path.length + 1) path).reverse

/-! ## Absolute addresses -/

/-- The parts of a base. What stands before the first slash is its host,
where it has none. -/
def partesBase (baseURL : List Char) : Url :=
  let parts := parseURL baseURL
  let parts :=
    if parts.netLoc = [] ∧ parts.path ≠ [] ∧ parts.path.head? ≠ some '/' then
      { parts with
        netLoc := parts.path.takeWhile esDeHost
        path := parts.path.dropWhile esDeHost }
    else parts
  if parts.netLoc ≠ [] ∧ parts.path = [] then { parts with path := ['/'] } else parts

/-- **A relative address on its base.** -/
def buildAbsoluteURL (baseURL relativeURL : List Char) : List Char :=
  let baseURL := sinEspacios baseURL
  let relativeURL := sinEspacios relativeURL
  if relativeURL = [] then baseURL
  else
    let relativa := parseURL relativeURL
    if relativa.scheme ≠ [] then relativeURL
    else
      let base := partesBase baseURL
      let heredada := { relativa with scheme := base.scheme, netLoc := base.netLoc }
      buildURLFromParts
        (if relativa.netLoc ≠ [] then { relativa with scheme := base.scheme }
        else if relativa.path.head? = some '/' then heredada
        else if relativa.path ≠ [] then
          { heredada with path := normalizePath (base.path.take
              (base.path.length - (Text.cutLast '/' base.path).2.length) ++ relativa.path) }
        else if relativa.params ≠ [] then { heredada with path := base.path }
        else if relativa.query ≠ [] then { heredada with path := base.path, params := base.params }
        else { heredada with path := base.path, params := base.params, query := base.query })

end UrlToolkit

open UrlToolkit

/-- `/^[a-z]+:/i` -/
def conEsquema (url : List Char) : Bool :=
  url.takeWhile Char.isAlpha ≠ [] && (url.dropWhile Char.isAlpha).head? = some ':'

/-- **An address of a playlist** against that of the playlist, which is
itself against the location of the page where it has no host. -/
def resolveUrl (location baseURL relativeURL : String) : String :=
  if conEsquema relativeURL.toList then relativeURL
  else
    let baseURL :=
      if baseURL.toList.tails.any (['/', '/'].isPrefixOf ·) then baseURL.toList
      else buildAbsoluteURL location.toList baseURL.toList
    .ofList (buildAbsoluteURL baseURL relativeURL.toList)

/-! ## Names are left as they are -/

theorem isName_of_isDescent {x : List Char} (h : IsDescent ('/' :: x)) (hx : '/' ∉ x) : IsName x := by
  obtain ⟨es, heq, hes⟩ := h
  cases es with
  | nil => cases heq
  | cons e es =>
    rw [List.flatMap_cons, List.cons_append] at heq
    obtain rfl := (List.cons.inj heq).2
    cases es with
    | nil =>
      rw [List.flatMap_nil, List.append_nil]
      exact hes e List.mem_cons_self
    | cons e' es => exact absurd (by simp) hx

/-- What stands between two slashes of a descent is a name. -/
theorem isName_of_isInfix {s x : List Char} (h : IsDescent s) (hx : '/' ∉ x)
    (hin : '/' :: (x ++ ['/']) <:+: s) : IsName x := by
  obtain ⟨a, b, rfl⟩ := hin
  have hdesde : IsDescent (('/' :: x) ++ '/' :: b) := by
    rw [List.append_assoc, List.cons_append] at h
    simpa using h.split.2
  exact isName_of_isDescent hdesde.split.1 hx

theorem isName_of_suffix {s x : List Char} (h : IsDescent s) (hx : '/' ∉ x)
    (hsuf : '/' :: x <:+ s) : IsName x := by
  obtain ⟨a, rfl⟩ := hsuf
  exact isName_of_isDescent h.split.2 hx

namespace UrlToolkit

theorem sinPuntosDesde_eq_self {s : List Char} (h : ¬ ['/', '.', '/'] <:+: s) :
    sinPuntosDesde 0 s = s := by
  induction s with
  | nil => rfl
  | cons c s ih =>
    have hno : ¬ (c = '/' ∧ ['.', '/'].isPrefixOf s = true) := by
      rintro ⟨rfl, hpre⟩
      obtain ⟨t, rfl⟩ := List.isPrefixOf_iff_prefix.1 hpre
      exact h (List.prefix_append ['/', '.', '/'] t).isInfix
    rw [sinPuntosDesde, if_neg hno, ih fun hin => h (hin.trans (List.suffix_cons c s).isInfix)]

theorem largoSubida_eq_none {s : List Char} (h : ¬ ['.', '.', '/'] <+: s) : largoSubida s = none :=
  if_neg fun hpre => h (List.isPrefixOf_iff_prefix.1 hpre)

theorem sinSubidasDesde_eq_self {s : List Char} (h : ¬ ['/', '.', '.', '/'] <:+: s) :
    sinSubidasDesde 0 s = s := by
  induction s with
  | nil => rfl
  | cons c s ih =>
    have hnone : (if c = '/' then largoSubida s else none) = none := by
      split
      · rename_i hc
        refine largoSubida_eq_none fun ⟨t, ht⟩ => ?_
        rw [hc, ← ht] at h
        exact h (List.prefix_append ['/', '.', '.', '/'] t).isInfix
      · rfl
    rw [sinSubidasDesde, hnone, ih fun hin => h (hin.trans (List.suffix_cons c s).isInfix)]

/-- **A path of names is normal.** -/
theorem normalizePath_eq_self {s : List Char} (h : IsDescent s) : normalizePath s = s := by
  have hpunto : ¬ IsName ['.'] := fun h => h.ne_dot rfl
  have hpuntos : ¬ IsName ['.', '.'] := fun h => h.ne_dots rfl
  have hrev {x : List Char} : x.reverse <:+: s ↔ x <:+: s.reverse := by
    rw [← List.reverse_infix, List.reverse_reverse]
  have hpre {x : List Char} : x.reverse <:+ s ↔ x <+: s.reverse := by
    rw [← List.reverse_prefix, List.reverse_reverse]
  have hsin : sinPuntos s.reverse = s.reverse := by
    rw [sinPuntos, if_neg, sinPuntosDesde_eq_self]
    · exact fun hin => hpunto (isName_of_isInfix h (by decide) (hrev.2 hin))
    · exact fun hpref => hpunto (isName_of_suffix h (by decide)
        (hpre.2 (List.isPrefixOf_iff_prefix.1 hpref)))
  have hsub : sinSubidas s.reverse = s.reverse := by
    have hnone : largoSubida s.reverse = none := largoSubida_eq_none fun hpref =>
      hpuntos (isName_of_suffix h (by decide) (hpre.2 hpref))
    simp only [sinSubidas, hnone]
    exact sinSubidasDesde_eq_self fun hin => hpuntos (isName_of_isInfix h (by decide) (hrev.2 hin))
  have hhasta : sinSubidasHasta (s.reverse.length + 1) s.reverse = s.reverse := by
    rw [sinSubidasHasta, hsub, if_pos rfl]
  simp only [normalizePath, hsin, hhasta, List.reverse_reverse]

/-! ## The parts of the addresses of this server -/

/-- The scheme of the server, and a host. -/
def EsOrigen (origen : List Char) : Prop :=
  ∃ host, (∀ c ∈ host, esDeHost c = true) ∧ origen = "https".toList ++ ':' :: '/' :: '/' :: host

/-- The characters that stand for themselves in a path. -/
def EsLiteral (s : List Char) : Prop :=
  ∀ c ∈ s, c ≠ ';' ∧ c ≠ '?' ∧ c ≠ '#' ∧ c ≠ ':' ∧ esEspacio c = false

theorem EsLiteral.append {s t : List Char} (hs : EsLiteral s) (ht : EsLiteral t) :
    EsLiteral (s ++ t) := fun c hc => (List.mem_append.1 hc).elim (hs c) (ht c)

theorem esquema_of_notMem {url : List Char} (h : ':' ∉ url) : esquema url = ([], url) := by
  simp only [esquema]
  split
  · rename_i heq
    exact absurd (List.dropWhile_sublist esDeEsquema |>.subset (heq ▸ List.mem_cons_self)) h
  · rfl

theorem esquema_append {scheme resto : List Char} (hne : scheme ≠ [])
    (h : ∀ c ∈ scheme, esDeEsquema c = true) :
    esquema (scheme ++ ':' :: resto) = (scheme ++ [':'], resto) := by
  have htake : (scheme ++ ':' :: resto).takeWhile esDeEsquema = scheme := by
    rw [List.takeWhile_append_of_pos h, List.takeWhile_cons_of_neg (by decide), List.append_nil]
  have hdrop : (scheme ++ ':' :: resto).dropWhile esDeEsquema = ':' :: resto := by
    rw [List.dropWhile_append_of_pos h, List.dropWhile_cons_of_neg (by decide)]
  simp only [esquema, htake, hdrop, if_neg hne]

theorem take_append_cutLast (s : List Char) :
    s.take (s.length - (Text.cutLast '/' s).2.length) ++ (Text.cutLast '/' s).2 = s := by
  have hsuf : (Text.cutLast '/' s).2 <:+ s := by
    rw [← List.reverse_prefix, Text.cutLast, List.reverse_reverse]
    exact List.takeWhile_prefix _
  obtain ⟨a, ha⟩ := hsuf
  generalize (Text.cutLast '/' s).2 = t at ha
  subst ha
  simp

/-- **A literal path is all of what is cut.** -/
theorem ruta_eq_self {s : List Char} (h : EsLiteral s) : ruta s = s := by
  have hhead : s.head? ≠ some ';' := fun heq => (h _ (List.mem_of_mem_head? heq)).1 rfl
  have hantes : s.takeWhile esDeRuta = s :=
    List.takeWhile_eq_self_iff.2 fun c hc => by simp [esDeRuta, (h c hc).2.1, (h c hc).2.2.1]
  have hultima : (Text.cutLast '/' s).2.takeWhile (fun c => decide (c ≠ ';')) =
      (Text.cutLast '/' s).2 := by
    refine List.takeWhile_eq_self_iff.2 fun c hc => decide_eq_true (h c ?_).1
    rw [← take_append_cutLast s]
    exact List.mem_append_right _ hc
  simp only [ruta, if_neg hhead, hantes, hultima, take_append_cutLast]

/-- A path on its own, where it does not start with two slashes. -/
theorem parseURL_literal {s : List Char} (h : EsLiteral s) (hhost : (servidor s).1 = []) :
    parseURL s = ⟨[], [], s, [], [], []⟩ := by
  have hservidor : servidor s = ([], s) := by
    unfold servidor at hhost ⊢
    split
    · cases hhost
    · rfl
  have hcolon : ':' ∉ s := fun hc => (h _ hc).2.2.2.1 rfl
  simp [parseURL, esquema_of_notMem hcolon, hservidor, ruta_eq_self h, desde]

theorem parseURL_origen {origen s : List Char} (ho : EsOrigen origen) (h : EsLiteral s)
    (hs : s.head? = some '/') : ∃ scheme netLoc, netLoc ≠ [] ∧ origen = scheme ++ netLoc ∧
      parseURL (origen ++ s) = ⟨scheme, netLoc, s, [], [], []⟩ := by
  obtain ⟨host, hhost, rfl⟩ := ho
  obtain ⟨t, rfl⟩ : ∃ t, s = '/' :: t := by
    cases s with
    | nil => cases hs
    | cons c t => exact ⟨t, by rw [Option.some_inj.1 hs]⟩
  have htake : (host ++ '/' :: t).takeWhile esDeHost = host := by
    rw [List.takeWhile_append_of_pos hhost, List.takeWhile_cons_of_neg (by decide), List.append_nil]
  have hdrop : (host ++ '/' :: t).dropWhile esDeHost = '/' :: t := by
    rw [List.dropWhile_append_of_pos hhost, List.dropWhile_cons_of_neg (by decide)]
  refine ⟨"https".toList ++ [':'], '/' :: '/' :: host, List.cons_ne_nil _ _, by simp, ?_⟩
  rw [List.append_assoc, List.cons_append, parseURL, esquema_append (by decide)
    (Text.forall_mem_of_all (by decide))]
  simp [servidor, htake, hdrop, ruta_eq_self h, desde]

theorem trimmed_origen {origen s : List Char} (ho : EsOrigen origen) (h : EsLiteral s) (hne : s ≠ []) :
    AttributeList.Trimmed esEspacio (origen ++ s) := by
  obtain ⟨host, -, rfl⟩ := ho
  refine ⟨fun c hc => ?_, fun c hc => ?_⟩
  · obtain rfl : 'h' = c := Option.some_inj.1 hc
    decide
  · rw [List.getLast?_append_of_ne_nil _ hne] at hc
    exact (h c (List.mem_of_getLast? hc)).2.2.2.2

theorem EsLiteral.trimmed {s : List Char} (h : EsLiteral s) : AttributeList.Trimmed esEspacio s :=
  ⟨fun c hc => (h c (List.mem_of_mem_head? hc)).2.2.2.2,
    fun c hc => (h c (List.mem_of_mem_getLast? hc)).2.2.2.2⟩

end UrlToolkit

/-- **A relative path takes the place of the last part of its base**,
where all parts are names. -/
theorem resolveUrl_descenso (location : String) {base rel : String} {origen dir file : List Char}
    (ho : EsOrigen origen) (hbase : base.toList = origen ++ (dir ++ '/' :: file))
    (hdir : IsDescent dir) (hfile : '/' ∉ file) (hrel : IsDescent ('/' :: rel.toList))
    (hlit : EsLiteral (dir ++ '/' :: file)) (hlit' : EsLiteral rel.toList) :
    (resolveUrl location base rel).toList = origen ++ (dir ++ '/' :: rel.toList) := by
  have hcolon : ':' ∉ rel.toList := fun hc => (hlit' _ hc).2.2.2.1 rfl
  have hesquema : conEsquema rel.toList = false := by
    rw [conEsquema, Bool.and_eq_false_iff]
    refine .inr (decide_eq_false fun h => hcolon ?_)
    exact (List.dropWhile_sublist _).subset (List.mem_of_mem_head? h)
  have hbarras : base.toList.tails.any (['/', '/'].isPrefixOf ·) = true := by
    obtain ⟨host, -, rfl⟩ := ho
    refine List.any_eq_true.2 ⟨'/' :: '/' :: (host ++ (dir ++ '/' :: file)), ?_, rfl⟩
    rw [List.mem_tails, hbase]
    exact ⟨"https".toList ++ [':'], by simp⟩
  have hne : rel.toList ≠ [] := by
    intro h
    rw [h] at hrel
    exact (isName_of_isDescent hrel List.not_mem_nil).ne_nil rfl
  -- a name stands first in a relative path, so it has no host
  have hcabeza : rel.toList.head? ≠ some '/' := by
    intro h
    obtain ⟨t, ht⟩ := List.head?_eq_some_iff.1 h
    rw [ht] at hrel
    have hvacio : IsDescent ['/'] := (@IsDescent.split ['/'] t hrel).1
    exact (isName_of_isDescent hvacio List.not_mem_nil).ne_nil rfl
  have hhost : (servidor rel.toList).1 = [] := by
    unfold servidor
    split
    · rename_i heq
      rw [heq] at hcabeza
      exact absurd rfl hcabeza
    · rfl
  have hbarra : (dir ++ '/' :: file).head? = some '/' := by
    obtain ⟨es, rfl, -⟩ := hdir
    cases es <;> rfl
  obtain ⟨scheme, netLoc, hnetLoc, horigen, hparse⟩ := parseURL_origen ho hlit hbarra
  have hrecorta : sinEspacios base.toList = base.toList := by
    rw [hbase]
    exact AttributeList.trim_eq_self (trimmed_origen ho hlit (by simp))
  have hrecorta' : sinEspacios rel.toList = rel.toList := AttributeList.trim_eq_self hlit'.trimmed
  have hpartes : partesBase base.toList = ⟨scheme, netLoc, dir ++ '/' :: file, [], [], []⟩ := by
    simp [partesBase, hbase, hparse, hnetLoc]
  have hcarpeta : (dir ++ '/' :: file).take ((dir ++ '/' :: file).length -
      (Text.cutLast '/' (dir ++ '/' :: file)).2.length) ++ rel.toList = dir ++ '/' :: rel.toList := by
    have hcorte : dir ++ '/' :: file = (dir ++ ['/']) ++ file := by simp
    rw [Text.cutLast_append hfile, hcorte, List.length_append, Nat.add_sub_cancel,
      List.take_left, List.append_assoc]
    rfl
  have hnormal : normalizePath (dir ++ '/' :: rel.toList) = dir ++ '/' :: rel.toList :=
    normalizePath_eq_self (hdir.append hrel)
  have hbuild : buildAbsoluteURL base.toList rel.toList = origen ++ (dir ++ '/' :: rel.toList) := by
    simp only [buildAbsoluteURL, hrecorta, hrecorta', if_neg hne, parseURL_literal hlit' hhost, hpartes]
    simp only [ne_eq, not_true_eq_false, if_false, if_neg hcabeza, hne, not_false_eq_true, if_true, hcarpeta,
      hnormal, buildURLFromParts, horigen, List.append_nil]
  simp only [resolveUrl, hesquema, hbarras, if_true, Bool.false_eq_true, if_false, String.toList_ofList,
    hbuild]

end HlsXcoder
