import HlsXcoder.ServidorWeb.Patrones

/-!
# Subpaths with braces

The subpath of the URLs goes into the templates as it is, so braces in it
make variables. The request for a file has the subpath as it is too, and
is answered where the template of the subpath takes its own text off the
front of the request: any text without braces does, and so does `{a}`,
whose pattern takes one element of a path.

What a pattern means is a parameter, which is the parser's where that
covers the syntax (`Covers`).
-/

namespace HlsXcoder

open Mux

section Subpath

variable (compile : List Char → Option Pattern) (configuration : Config)

/-- The text the templates start with. -/
def textoSubpath : List Char := '/' :: configuration.urlSubpath.toList

/-- The elements behind the subpath. -/
def elementosResto (encoding : Option Codificacion) : List Elem :=
  .var "mediaId:[0-9|a-z|-]+".toList :: elementosNombre encoding

/-- **Only its own text** is taken off the front of a request, of all that
leaves something a route reads. -/
def TextoUnico (r : List (Piece Var)) (resto : List Char) : Prop :=
  ∀ q p vs, textoSubpath configuration ++ resto = q ++ p → Takes r [] q p vs →
    (∃ encoding ∈ caminos configuration.encodings, ∃ m : Manejador, ∃ es ∈ m.elementos, ∃ vs',
      Reads (elementosResto encoding ++ es) p vs') → q = textoSubpath configuration

/-- **The subpath is read as it is written** in the request for a file of a
place: its template takes its own text and no other, and no variable of its
own says where the file is. -/
structure SubpathPropio (encoding : Option Codificacion) (rama : Rama) (resto : List Char)
    (r : List (Piece Var)) : Prop where
  expresion : newRouteRegexp compile (textoSubpath configuration) = .ok r
  propio : ∃ vs, Takes r [] (textoSubpath configuration) resto vs
  unico : TextoUnico configuration r resto
  path : encoding = none → ∀ v, .var v ∈ r → v.name ≠ "path".toList
  audioName : rama ≠ .audio → ∀ v, .var v ∈ r → v.name ≠ "audioName".toList
  subName : rama = .raiz → ∀ v, .var v ∈ r → v.name ≠ "subName".toList

/-- What the subpath takes has as many slashes as its text. -/
def Alineado : Prop := ∀ r, newRouteRegexp compile (textoSubpath configuration) = .ok r →
  ∀ q p vs, Takes r [] q p vs → q.count '/' = (textoSubpath configuration).count '/'

end Subpath

variable {compile : List Char → Option Pattern} {configuration : Config}
  {encoding : Option Codificacion}

/-! ## Subpaths without braces -/

theorem newRouteRegexp_sinLlaves {s : List Char} (ho : '{' ∉ s) (hc : '}' ∉ s) :
    newRouteRegexp compile s = .ok [.lit s] := by
  have hpieces : bracePieces s = some [.lit s] := by
    rw [bracePieces, foldlM_step_of_not_mem ho hc]
    rfl
  exact (newRouteRegexp_eq_ok_iff hpieces).2 ⟨rfl, rfl⟩

theorem takes_lit_iff {t before q rest : List Char} {vs : List (List Char × List Char)} :
    Takes [.lit t] before q rest vs ↔ q = t ∧ vs = [] := by
  constructor
  · intro h
    cases h with
    | lit h =>
      cases h
      exact ⟨List.append_nil t, rfl⟩
  · rintro ⟨rfl, rfl⟩
    have h : Takes [.lit q] before (q ++ []) rest [] := .lit .nil
    rwa [List.append_nil] at h

section SinLlaves

variable (ho : '{' ∉ configuration.urlSubpath.toList) (hc : '}' ∉ configuration.urlSubpath.toList)

include ho hc

theorem newRouteRegexp_textoSubpath :
    newRouteRegexp compile (textoSubpath configuration) = .ok [.lit (textoSubpath configuration)] := by
  refine newRouteRegexp_sinLlaves ?_ ?_ <;> rw [textoSubpath, List.mem_cons, not_or]
  · exact ⟨by decide, ho⟩
  · exact ⟨by decide, hc⟩

theorem alineado_of_sinLlaves : Alineado compile configuration := by
  intro r hr q p vs ht
  rw [newRouteRegexp_textoSubpath ho hc] at hr
  obtain rfl := Except.ok.inj hr
  rw [(takes_lit_iff.1 ht).1]

/-- **A subpath without braces is read as it is written.** -/
theorem subpathPropio_of_sinLlaves (rama : Rama) (resto : List Char) :
    SubpathPropio compile configuration encoding rama resto [.lit (textoSubpath configuration)] where
  expresion := newRouteRegexp_textoSubpath ho hc
  propio := ⟨[], takes_lit_iff.2 ⟨rfl, rfl⟩⟩
  unico _ _ _ _ ht _ := (takes_lit_iff.1 ht).1
  path _ _ hv := by simp at hv
  audioName _ _ hv := by simp at hv
  subName _ _ hv := by simp at hv

end SinLlaves

/-- Braces that do not balance make no route. -/
theorem alineado_of_depth (h : depth 0 configuration.urlSubpath.toList ≠ some 0) :
    Alineado compile configuration := by
  intro r hr
  obtain ⟨ps, hps, -⟩ := newRouteRegexp_eq_ok hr
  have hdepth : depth 0 (textoSubpath configuration) = some 0 :=
    depth_of_bracePieces (by rw [hps]; rfl)
  exact absurd hdepth h

/-! ## The routes -/

section Rutas

variable (hcompile : Covers compile) (h : Nombrada configuration)

theorem balanced_elementosResto (hnombre : ∀ c ∈ encoding, EsNombre c.nombre) :
    ∀ e ∈ elementosResto encoding, e.Balanced := by
  have hcamino := @balanced_elementosCamino default encoding (by decide) (by decide)
    fun c hc => depth_of_not_mem (fun hb => absurd ((hnombre c hc).2 _ hb) (by decide))
      (fun hb => absurd ((hnombre c hc).2 _ hb) (by decide)) 0
  exact fun e he => hcamino e (List.mem_cons_of_mem _ he)

theorem compiles_elementosResto (hnombre : ∀ c ∈ encoding, EsNombre c.nombre) :
    ∀ e ∈ elementosResto encoding, e.compiles = true := fun e he =>
  @compiles_elementosCamino default encoding hnombre e (List.mem_cons_of_mem _ he)

/-- What is read behind the subpath: an identifier, and the name of the
encoding. -/
theorem reads_elementosResto_iff (hnombre : ∀ c ∈ encoding, EsNombre c.nombre) {path : List Char}
    {vs : List (List Char × List Char)} : Reads (elementosResto encoding) path vs ↔
      ∃ id, id ≠ [] ∧ (∀ c ∈ id, claseMediaId.mem c = true) ∧
        path = restoCamino encoding id ∧ vs = valoresCamino encoding id := by
  have hpath (configuration : Config) (id : List Char) :
      pathOf (partesCamino configuration encoding id) =
        '/' :: (configuration.urlSubpath.toList ++ restoCamino encoding id) := by
    simp [partesCamino, restoCamino, pathOf]
  -- behind a subpath without braces
  have hword : Reads (elementosResto encoding) path vs ↔
      Reads (elementosCamino default encoding)
        ('/' :: ((default : Config).urlSubpath.toList ++ path)) vs := by
    constructor
    · exact fun h => .word h
    · intro h
      generalize hq : '/' :: ((default : Config).urlSubpath.toList ++ path) = q at h
      cases h with
      | word h =>
        obtain ⟨-, hq⟩ := List.cons.inj hq
        rwa [List.append_cancel_left hq]
  rw [hword, reads_elementosCamino_iff hnombre]
  refine exists_congr fun id => and_congr_right fun _ => and_congr_right fun _ =>
    and_congr_left fun _ => ?_
  rw [hpath, List.cons.injEq, eq_self_iff_true, true_and, List.append_cancel_left_eq]

theorem template_camino (es : List Elem) : template (elementosCamino configuration encoding ++ es) =
    textoSubpath configuration ++ template (elementosResto encoding ++ es) := rfl

section Registradas

variable (hmem : encoding ∈ caminos configuration.encodings) {m : Manejador} {es : List Elem}
  (hes : es ∈ m.elementos)

include h hmem hes

theorem balanced_resto : ∀ e ∈ elementosResto encoding ++ es, e.Balanced :=
  List.forall_mem_append.2 ⟨balanced_elementosResto (h.nombre hmem), m.balanced es hes⟩

/-- A route that matches has a subpath with an expression. -/
theorem exists_expresion {path : List Char} {vs : List (List Char × List Char)}
    (hvs : vs ∈ (rutaDePlantilla compile m
      (template (elementosCamino configuration encoding ++ es))).matches path) :
    ∃ r, newRouteRegexp compile (textoSubpath configuration) = .ok r := by
  rw [template_camino] at hvs
  cases hr : newRouteRegexp compile
      (textoSubpath configuration ++ template (elementosResto encoding ++ es)) with
  | ok r => exact exists_of_newRouteRegexp_append (balanced_resto h hmem hes) hr
  | error f =>
    rw [Route.matches, rutaDePlantilla, hr] at hvs
    cases hvs

include hcompile in
/-- **What a route matches**: what the subpath takes, an identifier and the
name of its encoding, and what its own elements read of the rest. -/
theorem matches_subpath_iff {r : List (Piece Var)}
    (hr : newRouteRegexp compile (textoSubpath configuration) = .ok r) {path : List Char}
    {vs : List (List Char × List Char)} :
    vs ∈ (rutaDePlantilla compile m
      (template (elementosCamino configuration encoding ++ es))).matches path ↔
        ∃ q id p vs₁ vs₂, id ≠ [] ∧ (∀ c ∈ id, claseMediaId.mem c = true) ∧
          path = q ++ (restoCamino encoding id ++ p) ∧
          Takes r [] q (restoCamino encoding id ++ p) vs₁ ∧ Reads es p vs₂ ∧
          vs = vs₁ ++ (valoresCamino encoding id ++ vs₂) := by
  have hnombre := h.nombre hmem
  have hc : ∀ e ∈ elementosResto encoding ++ es, e.compiles = true :=
    List.forall_mem_append.2 ⟨compiles_elementosResto hnombre, m.compiles es hes⟩
  obtain ⟨r', hr', hmatch⟩ := newRouteRegexp_append (balanced_resto h hmem hes) hcompile hc hr
  rw [template_camino, Route.matches, rutaDePlantilla, hr']
  simp only [Except.toOption]
  rw [hmatch]
  constructor
  · rintro ⟨q, _, vs₁, _, rfl, ht, hreads, rfl⟩
    obtain ⟨p₁, w₁, p₂, w₂, h₁, h₂, rfl, rfl⟩ := reads_append.1 hreads
    obtain ⟨id, hne, hclase, rfl, rfl⟩ := (reads_elementosResto_iff hnombre).1 h₁
    exact ⟨q, id, p₂, vs₁, w₂, hne, hclase, rfl, ht, h₂, rfl⟩
  · rintro ⟨q, id, p, vs₁, vs₂, hne, hclase, rfl, ht, hreads, rfl⟩
    have h₁ := (reads_elementosResto_iff hnombre).2 ⟨id, hne, hclase, rfl, rfl⟩
    exact ⟨q, _, vs₁, _, rfl, ht, reads_append.2 ⟨_, _, _, _, h₁, hreads, rfl, rfl⟩, rfl⟩

end Registradas

include h hcompile in
/-- All routes are registered where the subpath has an expression. -/
theorem handlers_subpath {r : List (Piece Var)}
    (hr : newRouteRegexp compile (textoSubpath configuration) = .ok r) :
    handlers configuration compile configuration.encodings =
      some (rutas configuration compile configuration.encodings) := by
  refine handlers_eq_rutas fun encoding hmem m es hes => ?_
  have hc : ∀ e ∈ elementosResto encoding ++ es, e.compiles = true :=
    List.forall_mem_append.2 ⟨compiles_elementosResto (h.nombre hmem), m.compiles es hes⟩
  obtain ⟨r', hr', -⟩ := newRouteRegexp_append (balanced_resto h hmem hes) hcompile hc hr
  rw [template_camino, hr']
  exact nofun

/-- What is read behind the subpath starts with a slash. -/
theorem exists_slash_of_resto {es : List Elem} {p : List Char} {vs : List (List Char × List Char)}
    (h : Reads (elementosResto encoding ++ es) p vs) : ∃ u, p = '/' :: u :=
  h.exists_slash (by simp [elementosResto])

/-- **An aligned subpath takes only its own text.** -/
theorem Alineado.textoUnico (ha : Alineado compile configuration) {r : List (Piece Var)}
    (hr : newRouteRegexp compile (textoSubpath configuration) = .ok r) (t : List Char) :
    TextoUnico configuration r ('/' :: t) := by
  rintro q p vs heq ht ⟨_, _, _, _, _, _, hreads⟩
  obtain ⟨u, rfl⟩ := exists_slash_of_resto hreads
  exact (Text.append_cons_inj_of_count (ha r hr q _ vs ht).symm heq).1.symm

include hcompile h in
/-- **What the routes match behind the subpath**, where it takes only its
own text: what their elements read there, under the identifier and the name
of the path. -/
theorem TextoUnico.matches_iff (hmem : encoding ∈ caminos configuration.encodings)
    {r : List (Piece Var)} (hr : newRouteRegexp compile (textoSubpath configuration) = .ok r)
    {t : List Char}
    (hu : TextoUnico configuration r (restoCamino encoding configuration.mediaId.toList ++ '/' :: t))
    {m : Manejador} {vs : List (List Char × List Char)} :
    (∃ route ∈ rutas configuration compile configuration.encodings, route.handler = m ∧
        vs ∈ route.matches (textoSubpath configuration ++
          (restoCamino encoding configuration.mediaId.toList ++ '/' :: t))) ↔
      ∃ es ∈ m.elementos, ∃ vs₁ vs₂,
        Takes r [] (textoSubpath configuration)
          (restoCamino encoding configuration.mediaId.toList ++ '/' :: t) vs₁ ∧
        Reads es ('/' :: t) vs₂ ∧
        vs = vs₁ ++ (valoresCamino encoding configuration.mediaId.toList ++ vs₂) := by
  constructor
  · rintro ⟨route, hroute, hhandler, hvs⟩
    obtain ⟨encoding', hmem', m', es, hes, rfl⟩ := mem_rutas_iff.1 hroute
    obtain rfl : m' = m := hhandler
    obtain ⟨q, id, p, vs₁, vs₂, hne, hclase, hpath, ht, hreads, rfl⟩ :=
      (matches_subpath_iff hcompile h hmem' hes hr).1 hvs
    have hresto := (reads_elementosResto_iff (h.nombre hmem')).2 ⟨id, hne, hclase, rfl, rfl⟩
    obtain rfl := hu q _ vs₁ hpath ht ⟨encoding', hmem', m', es, hes, _,
      reads_append.2 ⟨_, _, _, _, hresto, hreads, rfl, rfl⟩⟩
    rw [List.append_cancel_left_eq] at hpath
    have hes' : es ≠ [] := by
      rintro rfl
      cases m' <;> simp [Manejador.elementos, elementosHls, elementosReproductor] at hes
    obtain ⟨u, rfl⟩ := hreads.exists_slash hes'
    obtain ⟨rfl, hnombre, rfl⟩ := h.resto_inj hmem hmem' hclase hpath
    refine ⟨es, hes, vs₁, vs₂, hpath ▸ ht, hreads, ?_⟩
    rw [valoresCamino, valoresCamino, hnombre]
  · rintro ⟨es, hes, vs₁, vs₂, ht, hreads, rfl⟩
    exact ⟨_, mem_rutas_iff.2 ⟨encoding, hmem, m, es, hes, rfl⟩, rfl,
      (matches_subpath_iff hcompile h hmem hes hr).2 ⟨_, _, _, _, _, h.mediaId_ne,
        fun c hc => mem_claseMediaId (h.mediaId c hc), rfl, ht, hreads, rfl⟩⟩

end Rutas

/-! ## A variable for a subpath -/

/-- The pattern of a variable that has none: one element of a path. -/
def unElemento : Regexp.Re := .rep (.char ⟨true, [('/', '/')]⟩) 1 none true

theorem compile_unElemento : Regexp.compile "[^/]+".toList = some unElemento := by
  decide +kernel

theorem lang_unElemento_iff {p : List Char} : unElemento.Lang p ↔ p ≠ [] ∧ '/' ∉ p := by
  have hclase (c : Char) : Regexp.CharClass.mem ⟨true, [('/', '/')]⟩ c = true ↔ c ≠ '/' := by
    have hnot : Regexp.CharClass.mem ⟨true, [('/', '/')]⟩ c = !(Regexp.CharClass.single '/').mem c := by
      simp [Regexp.CharClass.mem, Regexp.CharClass.single]
    rw [hnot, Bool.not_eq_true', ← Bool.not_eq_true, Regexp.CharClass.mem_single]
  rw [unElemento, Regexp.Re.lang_rep_char]
  simp only [hclase, Option.mem_def, reduceCtorEq, false_imp_iff, implies_true, and_true]
  rw [and_comm, Nat.one_le_iff_ne_zero, ne_eq, List.length_eq_zero_iff]
  exact and_congr_right fun _ => ⟨fun h hc => h _ hc rfl, fun h c hc => ne_of_mem_of_not_mem hc h⟩

section Llave

variable {name : List Char}

theorem nameAndPattern_of_not_mem (h : ':' ∉ name) :
    nameAndPattern name = (name, "[^/]+".toList) := by
  have hdrop : name.dropWhile (· ≠ ':') = [] :=
    List.dropWhile_eq_nil_iff.2 fun c hc => by simpa using ne_of_mem_of_not_mem hc h
  rw [nameAndPattern, hdrop]

variable (hcompile : Covers compile) (hne : name ≠ []) (hchars : ∀ c ∈ ['{', '}', ':', '/'], c ∉ name)
  (hsub : configuration.urlSubpath.toList = '{' :: (name ++ ['}']))

include hcompile hne hchars hsub

theorem newRouteRegexp_llave : newRouteRegexp compile (textoSubpath configuration) =
    .ok [.lit ['/'], .var ⟨name, .ofRe unElemento⟩, .lit []] := by
  have hb : ∀ e ∈ [Elem.var name], e.Balanced := by
    rw [List.forall_mem_singleton]
    exact .var (depth_of_not_mem (hchars _ (by simp)) (hchars _ (by simp)) 0)
  have htemplate : textoSubpath configuration = template [Elem.var name] := by
    simp [textoSubpath, hsub, template, Elem.text]
  have hv : newVar compile name = .ok ⟨name, .ofRe unElemento⟩ := by
    rw [newVar, nameAndPattern_of_not_mem (hchars _ (by simp)), if_neg (by simp [hne]),
      hcompile _ _ compile_unElemento]
  rw [htemplate]
  refine (newRouteRegexp_eq_ok_iff (bracePieces_template hb)).2 ⟨?_, rfl⟩
  rw [pieces, pieces, newVars, newVars, newVars, hv]
  rfl

theorem takes_llave_iff {r : List (Piece Var)}
    (hr : newRouteRegexp compile (textoSubpath configuration) = .ok r) {q rest : List Char}
    {vs : List (List Char × List Char)} :
    Takes r [] q rest vs ↔ ∃ p, p ≠ [] ∧ '/' ∉ p ∧ q = '/' :: p ∧ vs = [(name, p)] := by
  rw [newRouteRegexp_llave hcompile hne hchars hsub] at hr
  obtain rfl := Except.ok.inj hr
  constructor
  · intro h
    cases h with
    | lit h => 
      cases h with
      | var hp h =>
        rw [takes_lit_iff] at h
        obtain ⟨rfl, rfl⟩ := h
        obtain ⟨hne, hslash⟩ := lang_unElemento_iff.1 (Pattern.mem_takes_ofRe.1 hp).2
        exact ⟨_, hne, hslash, by simp, rfl⟩
  · rintro ⟨p, hne, hslash, rfl, rfl⟩
    have h : Takes [.lit []] ('/' :: p) [] rest [] := takes_lit_iff.2 ⟨rfl, rfl⟩
    have h : Takes [.var ⟨name, .ofRe unElemento⟩, .lit []] ['/'] (p ++ []) rest [(name, p)] :=
      .var (Pattern.mem_takes_ofRe.2 ⟨rfl, lang_unElemento_iff.2 ⟨hne, hslash⟩⟩) h
    rw [List.append_nil] at h
    exact .lit h

theorem alineado_llave : Alineado compile configuration := by
  intro r hr q p vs ht
  obtain ⟨p, -, hslash, rfl, -⟩ := (takes_llave_iff hcompile hne hchars hsub hr).1 ht
  have hname : '/' ∉ name := hchars _ (by simp)
  simp [textoSubpath, hsub, List.count_eq_zero_of_not_mem, hslash, hname]

/-- **A subpath of one variable is read as it is written**, unless the name
of the variable says where a file is. -/
theorem subpathPropio_llave (rama : Rama) (t : List Char)
    (hnombres : name ∉ ["path".toList, "audioName".toList, "subName".toList]) :
    ∃ r, SubpathPropio compile configuration encoding rama ('/' :: t) r := by
  have hr := newRouteRegexp_llave hcompile hne hchars hsub
  have hv (v : Var) (h : Piece.var v ∈ [.lit ['/'], .var ⟨name, .ofRe unElemento⟩, .lit []]) :
      v.name = name := by
    simp only [List.mem_cons, reduceCtorEq, Piece.var.injEq, false_or, List.not_mem_nil, or_false] at h
    rw [h]
  simp only [List.mem_cons, List.not_mem_nil, or_false, not_or] at hnombres
  obtain ⟨hpath, haudio, hsubName⟩ := hnombres
  refine ⟨_, hr, ⟨_, (takes_llave_iff hcompile hne hchars hsub hr).2
      ⟨configuration.urlSubpath.toList, ?_, ?_, rfl, rfl⟩⟩,
    (alineado_llave hcompile hne hchars hsub).textoUnico hr t, fun _ v h => (hv v h).symm ▸ hpath,
    fun _ v h => (hv v h).symm ▸ haudio, fun _ v h => (hv v h).symm ▸ hsubName⟩
  · simp [hsub]
  · simp [hsub, hchars]

end Llave
end HlsXcoder
