import HlsXcoder.Entrada
import HlsXcoder.ServidorWeb.Caminos

/-!
# What the patterns of the files take

The files of a stream are asked for in three places: beside its playlist,
below `subtitulo` and below `audio`, where a language stands before the
name (`Rama`). A name is taken as it is, or up to the number of a segment,
and only numbers of at most twenty digits are (`Rama.lang_numerada_iff`).

A dot in a pattern is any character, a slash too, so a template could
read a path in more ways than one. It does not: beside the playlist at
most one slash is read (`Rama.count_slash_le`), and a path below a
directory has two (`reads_elementosHls_iff`).
-/

namespace HlsXcoder

open Mux Regexp

/-- Where a file is asked for. -/
inductive Rama where
  | raiz
  | subtitulo
  | audio
  deriving DecidableEq, Repr

/-! ## The patterns -/

/-- The classes of the patterns. -/
def claseFilename : CharClass := ⟨false, [('a', 'z'), ('|', '|'), ('0', '9')]⟩

def claseSubName : CharClass := ⟨false, [('a', 'z'), (',', ',')]⟩

def claseAudioName : CharClass :=
  ⟨false, [('a', 'z'), ('|', '|'), ('_', '_'), ('|', '|'), ('0', '9')]⟩

/-- A text, character by character. -/
def letras (s : String) : List Re := s.toList.map fun c => .char (.single c)

/-- Characters of a class, of a number within bounds. -/
def veces (k : CharClass) (min max : ℕ) : Re := .rep (.char k) min (some max) true

def opcional (r : Re) : Re := .rep r 0 (some 1) true

/-- The bitrate before the name of a subtitle. -/
def antesDeGuion : Re := opcional (.seq (veces digito 2 15) (.char (.single '-')))

namespace Rama

/-- The elements before the name of a file. -/
def elementos : Rama → List Elem
  | raiz => []
  | subtitulo => [.word "subtitulo".toList, .var "subName:(?:[a-z,]{2,20})".toList]
  | audio => [.word "audio".toList, .var "audioName:(?:[a-z|_|0-9]{2,20})".toList]

/-- The patterns of the names, the one with a number last. -/
def patrones : Rama → List String
  | raiz => ["[a-z|0-9]{1,20}.m3u8", "(?:init.mp4)",
      "[a-z|0-9]{0,20}(?:-)?segment-[0-9]{1,20}.(?:ts|m4s)"]
  | subtitulo => ["(?:(?:[0-9]{2,15}-)?subtitulo(?:_vtt)?.m3u8)",
      "(?:(?:[0-9]{2,15}-)?[a-z,]{2,20})[0-9]{1,20}.(?:ts|m4s|vtt)"]
  | audio => ["(?:audio.m3u8)", "(?:init.mp4)", "(?:audio)[0-9]{1,20}[.].{1,10}"]

/-- The expressions without a number. -/
def fijas : Rama → List Re
  | raiz => [.cat ([veces claseFilename 1 20] ++ .char .dot :: letras "m3u8"),
      .cat (letras "init" ++ .char .dot :: letras "mp4")]
  | subtitulo => [.cat ((antesDeGuion :: letras "subtitulo" ++ [opcional (Re.lit "_vtt".toList)]) ++
      .char .dot :: letras "m3u8")]
  | audio => [.cat (letras "audio" ++ .char .dot :: letras "m3u8"),
      .cat (letras "init" ++ .char .dot :: letras "mp4")]

/-- What stands before the number of a segment. -/
def prefijo : Rama → List Re
  | raiz => veces claseFilename 0 20 :: opcional (.char (.single '-')) :: letras "segment-"
  | subtitulo => [.seq antesDeGuion (veces claseSubName 2 20)]
  | audio => [Re.lit "audio".toList]

/-- What stands behind it. -/
def sufijo : Rama → List Re
  | raiz => [.char .dot, .any (Re.lit "ts".toList) [Re.lit "m4s".toList]]
  | subtitulo => [.char .dot, .any (Re.lit "ts".toList) [Re.lit "m4s".toList, Re.lit "vtt".toList]]
  | audio => [.char (.single '.'), veces .dot 1 10]

/-- The expression of the segments. -/
def numerada (rama : Rama) : Re := .cat (rama.prefijo ++ veces digito 1 20 :: rama.sufijo)

def expresiones (rama : Rama) : List Re := rama.fijas ++ [rama.numerada]

theorem map_compile (rama : Rama) :
    (rama.patrones.map fun s => compile s.toList) = rama.expresiones.map some := by
  cases rama <;> decide +kernel

/-- The expression of the language. -/
def idioma : Rama → Option Re
  | raiz => none
  | subtitulo => some (veces claseSubName 2 20)
  | audio => some (veces claseAudioName 2 20)

/-- What the templates take for the language, which beside the playlist
there is none of. -/
def Toma (rama : Rama) (l : List Char) : Prop := ∀ r ∈ rama.idioma, r.Lang l

/-- The parts of a path before the name of the file. -/
def partes : Rama → List Char → List (List Char)
  | raiz, _ => []
  | subtitulo, l => ["subtitulo".toList, l]
  | audio, l => ["audio".toList, l]

/-- The values of the variables before the name. -/
def valores : Rama → List Char → List (List Char × List Char)
  | raiz, _ => []
  | subtitulo, l => [("subName".toList, l)]
  | audio, l => [("audioName".toList, l)]

end Rama

/-- **The templates of the files** are those of their places. -/
theorem mem_elementosHls_iff {es : List Elem} : es ∈ elementosHls ↔ ∃ rama : Rama,
    ∃ s ∈ rama.patrones, es = rama.elementos ++ [.var ("filename:".toList ++ s.toList)] := by
  constructor
  · intro hes
    simp only [elementosHls, List.mem_cons, List.not_mem_nil, or_false] at hes
    obtain rfl | rfl | rfl | rfl | rfl | rfl | rfl | rfl := hes
    · exact ⟨.raiz, _, .head _, rfl⟩
    · exact ⟨.raiz, _, .tail _ (.tail _ (.head _)), rfl⟩
    · exact ⟨.raiz, _, .tail _ (.head _), rfl⟩
    · exact ⟨.subtitulo, _, .head _, rfl⟩
    · exact ⟨.subtitulo, _, .tail _ (.head _), rfl⟩
    · exact ⟨.audio, _, .head _, rfl⟩
    · exact ⟨.audio, _, .tail _ (.tail _ (.head _)), rfl⟩
    · exact ⟨.audio, _, .tail _ (.head _), rfl⟩
  · rintro ⟨rama, s, hs, rfl⟩
    cases rama <;> simp only [Rama.patrones, List.mem_cons, List.not_mem_nil, or_false] at hs
    · obtain rfl | rfl | rfl := hs <;> simp [elementosHls, Rama.elementos]
    · obtain rfl | rfl := hs <;> simp [elementosHls, Rama.elementos]
    · obtain rfl | rfl | rfl := hs <;> simp [elementosHls, Rama.elementos]

/-! ## What is read behind the path -/

variable {rama : Rama} {path l w : List Char} {vs : List (List Char × List Char)}

theorem nameAndPattern_filename (s : List Char) :
    nameAndPattern ("filename:".toList ++ s) = ("filename".toList, s) := by
  have hname : "filename:".toList ++ s =
      'f' :: 'i' :: 'l' :: 'e' :: 'n' :: 'a' :: 'm' :: 'e' :: ':' :: s := rfl
  rw [hname]
  rfl

theorem compile_subName : nameAndPattern "subName:(?:[a-z,]{2,20})".toList =
      ("subName".toList, "(?:[a-z,]{2,20})".toList) ∧
    compile "(?:[a-z,]{2,20})".toList = some (veces claseSubName 2 20) := by
  decide +kernel

theorem compile_audioName : nameAndPattern "audioName:(?:[a-z|_|0-9]{2,20})".toList =
      ("audioName".toList, "(?:[a-z|_|0-9]{2,20})".toList) ∧
    compile "(?:[a-z|_|0-9]{2,20})".toList = some (veces claseAudioName 2 20) := by
  decide +kernel

/-- A variable behind a text reads a part of the path behind the text. -/
theorem reads_word_var_iff {t u : List Char} {name pattern : List Char} {r : Re}
    (hname : nameAndPattern u = (name, pattern)) (hr : compile pattern = some r) :
    Reads [.word t, .var u] path vs ↔ ∃ l, r.Lang l ∧ path = pathOf [t, l] ∧ vs = [(name, l)] := by
  constructor
  · intro h
    cases h with
    | word h =>
      cases h with
      | var hre hl h =>
        cases h
        rw [hname] at hre ⊢
        obtain rfl := Option.some.inj (hr.symm.trans hre)
        exact ⟨_, hl, by simp [pathOf], rfl⟩
  · rintro ⟨l, hl, rfl, rfl⟩
    have hre : compile (nameAndPattern u).2 = some r := by rw [hname, hr]
    have h := Reads.word (t := t) (.var hre hl .nil)
    rw [hname] at h
    simpa [pathOf] using h

theorem Rama.reads_elementos_iff : Reads rama.elementos path vs ↔
    ∃ l, rama.Toma l ∧ path = pathOf (rama.partes l) ∧ vs = rama.valores l := by
  cases rama with
  | raiz =>
    constructor
    · intro h
      cases h
      exact ⟨[], nofun, rfl, rfl⟩
    · rintro ⟨l, -, rfl, rfl⟩
      exact .nil
  | subtitulo =>
    rw [Rama.elementos, reads_word_var_iff compile_subName.1 compile_subName.2]
    simp [Rama.Toma, Rama.idioma, Rama.partes, Rama.valores]
  | audio =>
    rw [Rama.elementos, reads_word_var_iff compile_audioName.1 compile_audioName.2]
    simp [Rama.Toma, Rama.idioma, Rama.partes, Rama.valores]

/-- The name of a file is described by one of the expressions of its
place. -/
theorem Rama.exists_patron_iff {r : Re} :
    (∃ s ∈ rama.patrones, compile s.toList = some r) ↔ r ∈ rama.expresiones := by
  have hmem : some r ∈ (rama.patrones.map fun s => compile s.toList) ↔
      some r ∈ rama.expresiones.map some := by rw [rama.map_compile]
  simpa using hmem

/-- **What the templates of a place read.** -/
theorem Rama.exists_reads_iff : (∃ s ∈ rama.patrones,
      Reads (rama.elementos ++ [.var ("filename:".toList ++ s.toList)]) path vs) ↔
    ∃ l w, rama.Toma l ∧ (∃ r ∈ rama.expresiones, r.Lang w) ∧
      path = pathOf (rama.partes l) ++ '/' :: w ∧
      vs = rama.valores l ++ [("filename".toList, w)] := by
  constructor
  · rintro ⟨s, hs, h⟩
    obtain ⟨p₁, vs₁, p₂, vs₂, h₁, h₂, rfl, rfl⟩ := reads_append.1 h
    obtain ⟨l, hl, rfl, rfl⟩ := Rama.reads_elementos_iff.1 h₁
    cases h₂ with
    | var hre hw h₂ =>
      cases h₂
      rw [nameAndPattern_filename] at hre ⊢
      exact ⟨l, _, hl, ⟨_, Rama.exists_patron_iff.1 ⟨s, hs, hre⟩, hw⟩, by simp, rfl⟩
  · rintro ⟨l, w, hl, ⟨r, hr, hw⟩, rfl, rfl⟩
    obtain ⟨s, hs, hre⟩ := Rama.exists_patron_iff.2 hr
    have hre' : compile (nameAndPattern ("filename:".toList ++ s.toList)).2 = some r := by
      rw [nameAndPattern_filename, hre]
    have h₂ := Reads.var hre' hw .nil
    rw [nameAndPattern_filename, List.append_nil] at h₂
    exact ⟨s, hs, reads_append.2
      ⟨_, _, _, _, Rama.reads_elementos_iff.2 ⟨l, hl, rfl, rfl⟩, h₂, rfl, rfl⟩⟩

/-! ## One reading of each path -/

/-- Around one character of any class, at most one slash. -/
theorem count_slash_le {k : CharClass} {rs ss : List Re}
    (hrs : ((Re.cat rs).classes.all fun k => !k.mem '/') = true)
    (hss : ((Re.cat ss).classes.all fun k => !k.mem '/') = true)
    (h : (Re.cat (rs ++ .char k :: ss)).Lang w) : w.count '/' ≤ 1 := by
  obtain ⟨u, _, rfl, hu, hv⟩ := Re.lang_cat_append.1 h
  obtain ⟨_, v, rfl, ⟨c, -, rfl⟩, hss'⟩ := Re.lang_cat_cons.1 hv
  rw [List.count_append, List.count_append, List.count_eq_zero_of_not_mem (Re.not_mem_of_lang hrs hu),
    List.count_eq_zero_of_not_mem (Re.not_mem_of_lang hss hss'), Nat.zero_add, Nat.add_zero]
  exact List.count_le_length

/-- **Beside the playlist at most one slash is read.** -/
theorem Rama.count_slash_le {r : Re} (hr : r ∈ Rama.raiz.expresiones) (h : r.Lang w) :
    w.count '/' ≤ 1 := by
  simp only [Rama.expresiones, Rama.fijas, Rama.numerada, List.mem_append, List.mem_cons,
    List.not_mem_nil, or_false] at hr
  obtain (rfl | rfl) | rfl := hr
  · exact HlsXcoder.count_slash_le (by decide +kernel) (by decide +kernel) h
  · exact HlsXcoder.count_slash_le (by decide +kernel) (by decide +kernel) h
  · have heq : Rama.raiz.prefijo ++ veces digito 1 20 :: Rama.raiz.sufijo =
        (Rama.raiz.prefijo ++ [veces digito 1 20]) ++
          .char .dot :: [.any (Re.lit "ts".toList) [Re.lit "m4s".toList]] := by
      simp [Rama.sufijo]
    rw [heq] at h
    exact HlsXcoder.count_slash_le (by decide +kernel) (by decide +kernel) h

/-- What is taken for a language has no slash. -/
theorem Rama.slash_notMem_of_toma (hne : rama ≠ .raiz) (h : rama.Toma l) : '/' ∉ l := by
  cases rama with
  | raiz => exact absurd rfl hne
  | subtitulo => exact Re.not_mem_of_lang (by decide) (h _ rfl)
  | audio => exact Re.not_mem_of_lang (by decide) (h _ rfl)

theorem Rama.slash_notMem_partes (hl : rama ≠ .raiz → '/' ∉ l) : ∀ p ∈ rama.partes l, '/' ∉ p := by
  cases rama with
  | raiz => exact nofun
  | subtitulo => exact List.forall_mem_cons.2 ⟨by decide, by simpa [Rama.partes] using hl (by decide)⟩
  | audio => exact List.forall_mem_cons.2 ⟨by decide, by simpa [Rama.partes] using hl (by decide)⟩

theorem Rama.length_partes : (rama.partes l).length = if rama = .raiz then 0 else 2 := by
  cases rama <;> rfl

/-- **The path of a file is read in one way**: in its own place, under its
language and its name. -/
theorem reads_elementosHls_iff (hl : rama ≠ .raiz → '/' ∉ l) (hw : '/' ∉ w) :
    (∃ es ∈ elementosHls, Reads es (pathOf (rama.partes l) ++ '/' :: w) vs) ↔
      rama.Toma l ∧ (∃ r ∈ rama.expresiones, r.Lang w) ∧
        vs = rama.valores l ++ [("filename".toList, w)] := by
  constructor
  · rintro ⟨es, hes, h⟩
    obtain ⟨rama', s, hs, rfl⟩ := mem_elementosHls_iff.1 hes
    obtain ⟨l', w', hl', ⟨r, hr, hw'⟩, hpath, rfl⟩ := Rama.exists_reads_iff.1 ⟨s, hs, h⟩
    have hslash' (hne : rama' ≠ .raiz) : '/' ∉ l' := Rama.slash_notMem_of_toma hne hl'
    have hpartes := Rama.slash_notMem_partes hl
    have hpartes' := Rama.slash_notMem_partes hslash'
    -- the slashes of both tell whether there is a directory
    have hlen : (rama.partes l).length = (rama'.partes l').length := by
      have hcount := congrArg (List.count '/') hpath
      rw [List.count_append, List.count_append, List.count_cons_self, List.count_cons_self,
        count_pathOf hpartes, count_pathOf hpartes', List.count_eq_zero_of_not_mem hw] at hcount
      rw [Rama.length_partes, Rama.length_partes] at *
      by_cases hraiz : rama = .raiz <;> by_cases hraiz' : rama' = .raiz
      · rw [hraiz, hraiz']
      · rw [if_pos hraiz, if_neg hraiz'] at hcount
        omega
      · have hle := Rama.count_slash_le (hraiz' ▸ hr) hw'
        rw [if_neg hraiz, if_pos hraiz'] at hcount
        omega
      · rw [if_neg hraiz, if_neg hraiz']
    obtain ⟨heq, rfl⟩ := pathOf_append_inj hlen hpartes hpartes' hpath
    obtain ⟨rfl, hidioma⟩ : rama = rama' ∧ (rama ≠ .raiz → l = l') := by
      cases rama <;> cases rama' <;> simp_all [Rama.partes]
    cases rama with
    | raiz => exact ⟨nofun, ⟨r, hr, hw'⟩, rfl⟩
    | subtitulo | audio =>
      obtain rfl := hidioma (by decide)
      exact ⟨hl', ⟨r, hr, hw'⟩, rfl⟩
  · rintro ⟨htoma, hw', rfl⟩
    obtain ⟨s, hs, h⟩ := Rama.exists_reads_iff.2 ⟨l, w, htoma, hw', rfl, rfl⟩
    exact ⟨_, mem_elementosHls_iff.2 ⟨rama, s, hs, rfl⟩, h⟩

/-! ## The page -/

theorem compile_html : compile "(?:index.html)".toList =
    some (.cat (letras "index" ++ .char .dot :: letras "html")) := by
  decide +kernel

theorem compile_resources : compile "(?:.{2,100}[.](?:js|css|png))".toList =
    some (.cat [veces .dot 2 100, .char (.single '.'),
      .any (Re.lit "js".toList) [Re.lit "css".toList, Re.lit "png".toList]]) := by
  decide +kernel

/-- What the templates of the player read is the page, but for its dot, or
ends as its resources do. -/
theorem reads_reproductor {es : List Elem} (hes : es ∈ elementosReproductor) (h : Reads es path vs) :
    path.length = 11 ∧ "html".toList <:+ path ∨ ∃ x ∈ ["js", "css", "png"], x.toList <:+ path := by
  simp only [elementosReproductor, List.mem_cons, List.not_mem_nil, or_false] at hes
  obtain rfl | rfl := hes
  · obtain ⟨r, w, hre, hl, rfl⟩ := h.of_var
    have hname : (nameAndPattern "html:(?:index.html)".toList).2 = "(?:index.html)".toList := by
      decide +kernel
    rw [hname, compile_html] at hre
    obtain rfl := Option.some.inj hre
    obtain ⟨a, _, rfl, ha, h⟩ := Re.lang_cat_append.1 hl
    obtain ⟨b, x, rfl, ⟨c, -, rfl⟩, hx⟩ := Re.lang_cat_cons.1 h
    obtain rfl : a = "index".toList := Re.lang_lit.1 ha
    obtain rfl : x = "html".toList := Re.lang_lit.1 hx
    exact .inl ⟨rfl, "/index".toList ++ [c], by simp⟩
  · obtain ⟨r, w, hre, hl, rfl⟩ := h.of_var
    have hname : (nameAndPattern "resources:(?:.{2,100}[.](?:js|css|png))".toList).2 =
        "(?:.{2,100}[.](?:js|css|png))".toList := by
      decide +kernel
    rw [hname, compile_resources] at hre
    obtain rfl := Option.some.inj hre
    simp only [Re.lang_cat_cons] at hl
    obtain ⟨u, _, rfl, -, v, _, rfl, -, x, y, rfl, hx, rfl⟩ := hl
    simp only [Re.any, Re.lang_alt, Re.lang_lit] at hx
    have hfin : x <:+ '/' :: (u ++ (v ++ (x ++ []))) := ⟨'/' :: (u ++ v), by simp⟩
    right
    obtain rfl | rfl | rfl := hx
    · exact ⟨"js", by simp, hfin⟩
    · exact ⟨"css", by simp, hfin⟩
    · exact ⟨"png", by simp, hfin⟩

/-! ## The number of a segment -/

open Text (Fenced)

namespace Rama

variable {u v : List Char} {ext : String}

/-- The extensions of the segments. -/
def extensiones : Rama → List String
  | raiz | audio => ["ts", "m4s"]
  | subtitulo => ["ts", "m4s", "vtt"]

theorem lang_sufijo (hext : ext ∈ rama.extensiones) :
    (Re.cat rama.sufijo).Lang ('.' :: ext.toList) := by
  have hall : (rama.extensiones.all fun ext =>
      (Re.cat rama.sufijo).accepts ('.' :: ext.toList)) = true := by
    cases rama <;> decide +kernel
  exact Re.accepts_iff.1 (List.all_eq_true.1 hall ext hext)

/-- Behind a number stands a dot, or some character and no dot. -/
theorem forma_sufijo (h : (Re.cat rama.sufijo).Lang v) :
    ∃ c x, v = c :: x ∧ (c = '.' ∨ '.' ∉ x) := by
  cases rama with
  | raiz | subtitulo =>
    obtain ⟨_, x, rfl, ⟨c, -, rfl⟩, hx⟩ := Re.lang_cat_cons.1 h
    exact ⟨c, x, rfl, .inr (Re.not_mem_of_lang (by decide) hx)⟩
  | audio =>
    obtain ⟨_, x, rfl, ⟨c, hc, rfl⟩, -⟩ := Re.lang_cat_cons.1 h
    exact ⟨c, x, rfl, .inl (CharClass.mem_single.1 hc)⟩

theorem punto_notMem_of_prefijo (h : (Re.cat rama.prefijo).Lang u) : '.' ∉ u := by
  cases rama <;> exact Re.not_mem_of_lang (by decide +kernel) h

/-- What stands before a number ends in no digit. -/
theorem fenced_prefijo (h : (Re.cat rama.prefijo).Lang u) :
    Fenced (fun c : Char => c.isDigit = true) u.reverse := by
  cases rama with
  | raiz =>
    have heq : Rama.raiz.prefijo =
        [veces claseFilename 0 20, opcional (.char (.single '-'))] ++ letras "segment-" := rfl
    rw [heq] at h
    obtain ⟨x, y, rfl, -, hy⟩ := Re.lang_cat_append.1 h
    obtain rfl : y = "segment-".toList := Re.lang_lit.1 hy
    simp [Text.fenced_cons]
  | subtitulo =>
    obtain ⟨x, y, rfl, -, hy⟩ := h
    obtain ⟨hclase, hlen, -⟩ := Re.lang_rep_char.1 hy
    obtain ⟨z, c, rfl⟩ := (List.eq_nil_or_concat' y).resolve_left (List.ne_nil_of_length_pos (by omega))
    have hc := hclase c (by simp)
    rw [List.reverse_append, List.reverse_append, List.reverse_singleton, List.singleton_append,
      List.cons_append, Text.fenced_cons]
    intro hdigit
    simp only [claseSubName, CharClass.mem, Char.isDigit, Char.le_def, List.any_cons, List.any_nil,
      Bool.or_false, Bool.false_bne, Bool.or_eq_true, Bool.and_eq_true, decide_eq_true_eq,
      ge_iff_le] at hc hdigit
    grind
  | audio =>
    obtain rfl : u = "audio".toList := Re.lang_lit.1 h
    simp [Text.fenced_cons]

/-- **A segment is taken where its name is**, and its number has at most
twenty digits. -/
theorem lang_numerada_iff (hu : Fenced (fun c : Char => c.isDigit = true) u.reverse)
    (hpunto : '.' ∉ u) {ancho n : ℕ} (hancho : ancho ≤ 20) (hext : ext ∈ rama.extensiones) :
    rama.numerada.Lang (u ++ Text.pad ancho n ++ '.' :: ext.toList) ↔
      (Re.cat rama.prefijo).Lang u ∧ n < 10 ^ 20 := by
  have hdigitos {ds : List Char} (h : ∀ c ∈ ds, c.isDigit = true) : '.' ∉ ds := fun hc =>
    absurd (h _ hc) (by decide)
  have hpad : ∀ c ∈ Text.pad ancho n, c.isDigit = true := fun c hc => Text.isDigit_of_mem_pad hc
  rw [← Text.length_pad_le_iff hancho (by decide)]
  constructor
  · intro h
    obtain ⟨u', _, heq, hu', h⟩ := Re.lang_cat_append.1 h
    obtain ⟨ds, v, rfl, hds, hv⟩ := Re.lang_cat_cons.1 h
    obtain ⟨hclase, -, hlen⟩ := Re.lang_rep_char.1 hds
    have hds' : ∀ c ∈ ds, c.isDigit = true := fun c hc => mem_digito.1 (hclase c hc)
    obtain ⟨c, x, rfl, hc⟩ := forma_sufijo hv
    -- the only dot before the extension is the one behind the number
    have hnombre : '.' ∉ u ++ Text.pad ancho n := by
      rw [List.mem_append, not_or]
      exact ⟨hpunto, hdigitos hpad⟩
    have hnombre' : '.' ∉ u' ++ ds := by
      rw [List.mem_append, not_or]
      exact ⟨punto_notMem_of_prefijo hu', hdigitos hds'⟩
    rw [← List.append_assoc] at heq
    obtain rfl : c = '.' := by
      refine hc.elim id fun hx => ?_
      have hmem : '.' ∈ u' ++ ds ++ c :: x := heq ▸ by simp
      rw [List.mem_append, List.mem_cons] at hmem
      exact (hmem.resolve_left hnombre').elim Eq.symm fun h => absurd h hx
    obtain ⟨heq, -⟩ := Text.append_cons_inj_left hnombre hnombre' heq
    have hrev : (Text.pad ancho n).reverse ++ u.reverse = ds.reverse ++ u'.reverse := by
      simpa using congrArg List.reverse heq
    obtain ⟨hnum, huu⟩ := Text.span_inj (p := fun c : Char => c.isDigit = true)
      (fun c hc => hpad c (List.mem_reverse.1 hc)) (fun c hc => hds' c (List.mem_reverse.1 hc)) hu
      (fenced_prefijo hu') hrev
    rw [List.reverse_injective hnum, List.reverse_injective huu]
    exact ⟨hu', hlen 20 rfl⟩
  · rintro ⟨hu', hlen⟩
    rw [List.append_assoc]
    refine Re.lang_cat_append.2 ⟨u, _, rfl, hu', Re.lang_cat_cons.2 ⟨_, _, rfl, ?_, lang_sufijo hext⟩⟩
    refine Re.lang_rep_char.2 ⟨fun c hc => mem_digito.2 (hpad c hc), Text.length_pad_pos _ _, ?_⟩
    intro k hk
    obtain rfl := Option.some.inj hk
    exact hlen

/-- Names without a number end in a digit. -/
theorem getLast?_of_fijas {r : Re} (hr : r ∈ rama.fijas) (h : r.Lang v) :
    v.getLast? = some '8' ∨ v.getLast? = some '4' := by
  have hfin {rs : List Re} {s : String} (hs : s ≠ "") (h : (Re.cat (rs ++ .char .dot :: letras s)).Lang v) :
      v.getLast? = s.toList.getLast? := by
    obtain ⟨a, _, rfl, -, h⟩ := Re.lang_cat_append.1 h
    obtain ⟨b, x, rfl, -, hx⟩ := Re.lang_cat_cons.1 h
    obtain rfl : x = s.toList := Re.lang_lit.1 hx
    rw [← List.append_assoc, List.getLast?_append_of_ne_nil _ (by simpa using hs)]
  have hm3u8 : "m3u8".toList.getLast? = some '8' := by decide
  have hmp4 : "mp4".toList.getLast? = some '4' := by decide
  cases rama <;> simp only [fijas, List.mem_cons, List.not_mem_nil, or_false] at hr
  · obtain rfl | rfl := hr
    · exact .inl ((hfin (by decide) h).trans hm3u8)
    · exact .inr ((hfin (by decide) h).trans hmp4)
  · subst hr
    exact .inl ((hfin (by decide) h).trans hm3u8)
  · obtain rfl | rfl := hr
    · exact .inl ((hfin (by decide) h).trans hm3u8)
    · exact .inr ((hfin (by decide) h).trans hmp4)

/-- **A segment is taken by the expression of the segments alone.** -/
theorem exists_lang_iff_numerada (hext : ext ∈ rama.extensiones) :
    (∃ r ∈ rama.expresiones, r.Lang (u ++ '.' :: ext.toList)) ↔
      rama.numerada.Lang (u ++ '.' :: ext.toList) := by
  constructor
  · rintro ⟨r, hr, h⟩
    rw [expresiones, List.mem_append, List.mem_singleton] at hr
    obtain hr | rfl := hr
    · have hlast := getLast?_of_fijas hr h
      rw [List.getLast?_append_of_ne_nil _ (List.cons_ne_nil _ _)] at hlast
      cases rama <;> simp only [extensiones, List.mem_cons, List.not_mem_nil, or_false] at hext
      · obtain rfl | rfl := hext <;> simp at hlast
      · obtain rfl | rfl | rfl := hext <;> simp at hlast
      · obtain rfl | rfl := hext <;> simp at hlast
    · exact h
  · exact fun h => ⟨_, List.mem_append_right _ (List.mem_singleton_self _), h⟩

end Rama

end HlsXcoder
