import HlsXcoder.Ejecucion
import HlsXcoder.ServidorWeb.Registro

/-!
# Behind the path of an encoding

The templates of an encoding start with its path, and its requests do so
too. Where the subpath has no braces the path of a request is read as it
was written, so that a request is answered as its rest is: which routes
match it, and with which values, is what the elements of a handler read
behind the path (`Enrutable.matches_camino_iff`).
-/

namespace HlsXcoder

open Mux

/-! ## What the path reads -/

section Partes

variable (configuration : Config) (encoding : Option Codificacion)

/-- The parts of the path of an encoding. -/
def partesNombre : Option Codificacion → List (List Char)
  | none => []
  | some codificacion => [codificacion.nombre.toList]

def partesCamino (id : List Char) : List (List Char) :=
  [configuration.urlSubpath.toList, id] ++ partesNombre encoding

/-- The path behind the subpath. -/
def restoCamino (id : List Char) : List Char :=
  pathOf (id :: partesNombre encoding)

def valoresNombre : Option Codificacion → List (List Char × List Char)
  | none => []
  | some codificacion => [("path".toList, codificacion.nombre.toList)]

def valoresCamino (id : List Char) : List (List Char × List Char) :=
  ("mediaId".toList, id) :: valoresNombre encoding

end Partes

variable {configuration : Config} {encoding : Option Codificacion}

theorem reads_elementosNombre_iff (hnombre : ∀ c ∈ encoding, EsNombre c.nombre) {path : List Char}
    {vs : List (List Char × List Char)} : Reads (elementosNombre encoding) path vs ↔
      path = pathOf (partesNombre encoding) ∧ vs = valoresNombre encoding := by
  cases encoding with
  | none =>
    constructor
    · intro h
      cases h
      exact ⟨rfl, rfl⟩
    · rintro ⟨rfl, rfl⟩
      exact .nil
  | some c =>
    have hre : Regexp.compile (nameAndPattern ("path:".toList ++ c.nombre.toList)).2 =
        some (Regexp.Re.lit c.nombre.toList) := by
      rw [nameAndPattern_path]
      exact Regexp.compile_plain (hnombre c rfl).2
    constructor
    · intro h
      cases h with
      | var hre' hl h =>
        cases h
        obtain rfl := Option.some.inj (hre.symm.trans hre')
        obtain rfl := Regexp.Re.lang_lit.1 hl
        rw [nameAndPattern_path]
        exact ⟨rfl, rfl⟩
    · rintro ⟨rfl, rfl⟩
      have h := Reads.var hre (Regexp.Re.lang_lit.2 rfl) .nil
      rwa [nameAndPattern_path] at h

/-- **The path of an encoding** reads its subpath, an identifier and its
name. -/
theorem reads_elementosCamino_iff (hnombre : ∀ c ∈ encoding, EsNombre c.nombre) {path : List Char}
    {vs : List (List Char × List Char)} : Reads (elementosCamino configuration encoding) path vs ↔
      ∃ id, id ≠ [] ∧ (∀ c ∈ id, claseMediaId.mem c = true) ∧
        path = pathOf (partesCamino configuration encoding id) ∧ vs = valoresCamino encoding id := by
  have hre : Regexp.compile (nameAndPattern "mediaId:[0-9|a-z|-]+".toList).2 =
      some (.rep (.char claseMediaId) 1 none true) := by
    rw [nameAndPattern_mediaId]
    exact compile_mediaId
  constructor
  · intro h
    cases h with
    | word h =>
      cases h with
      | var hre' hl h =>
        obtain rfl := Option.some.inj (hre.symm.trans hre')
        obtain ⟨hclase, hlen, -⟩ := Regexp.Re.lang_rep_char.1 hl
        obtain ⟨rfl, rfl⟩ := (reads_elementosNombre_iff hnombre).1 h
        rw [nameAndPattern_mediaId]
        exact ⟨_, List.ne_nil_of_length_pos hlen, hclase, by simp [partesCamino, pathOf], rfl⟩
  · rintro ⟨id, hne, hclase, rfl, rfl⟩
    have hl : (Regexp.Re.rep (.char claseMediaId) 1 none true).Lang id :=
      Regexp.Re.lang_rep_char.2 ⟨hclase, List.length_pos_iff.2 hne, by simp⟩
    have h := Reads.word (t := configuration.urlSubpath.toList)
      (.var hre hl ((reads_elementosNombre_iff hnombre).2 ⟨rfl, rfl⟩))
    have hpath : pathOf (partesCamino configuration encoding id) =
        '/' :: (configuration.urlSubpath.toList ++ '/' :: (id ++ pathOf (partesNombre encoding))) := by
      simp [partesCamino, pathOf]
    rw [nameAndPattern_mediaId] at h
    rw [hpath]
    exact h

/-! ## Who the routes are for -/

theorem mem_claseMediaId {c : Char} (hc : c.isDigit = true) : claseMediaId.mem c = true := by
  simp only [Char.isDigit, ge_iff_le, Bool.and_eq_true, decide_eq_true_eq] at hc
  simp only [claseMediaId, Regexp.CharClass.mem, Char.le_def, List.any_cons, Bool.and_eq_true,
    Bool.or_eq_true, decide_eq_true_eq, Bool.false_bne]
  exact .inl hc

theorem slash_notMem_of_clase {id : List Char} (hid : ∀ c ∈ id, claseMediaId.mem c = true) :
    '/' ∉ id := fun hc => absurd (hid _ hc) (by decide)

theorem length_partesNombre {encodings : List Codificacion} {encoding encoding' : Option Codificacion}
    (hmem : encoding ∈ caminos encodings) (hmem' : encoding' ∈ caminos encodings) :
    (partesNombre encoding).length = (partesNombre encoding').length := by
  rw [caminos] at hmem hmem'
  by_cases hnil : encodings = []
  · rw [if_pos hnil, List.mem_singleton] at hmem hmem'
    rw [hmem, hmem']
  · rw [if_neg hnil, List.mem_map] at hmem hmem'
    obtain ⟨c, -, rfl⟩ := hmem
    obtain ⟨c', -, rfl⟩ := hmem'
    rfl

/-- Who the routes are for are the encoders. -/
theorem codificacionDeIndice_mem_caminos (i : Fin (encodingsNumber configuration)) :
    codificacionDeIndice configuration i ∈ caminos configuration.encodings := by
  rw [caminos, codificacionDeIndice]
  split
  · rename_i hnil
    simp [hnil]
  · rename_i hnil
    have hi : (i : ℕ) < configuration.encodings.length := i.isLt.trans_eq (if_neg hnil)
    rw [List.getElem?_eq_getElem hi]
    exact List.mem_map_of_mem (List.getElem_mem hi)

/-- A configuration with digits in the identifier, and names of encodings. -/
structure Nombrada (configuration : Config) : Prop where
  mediaId_ne : configuration.mediaId.toList ≠ []
  mediaId : ∀ c ∈ configuration.mediaId.toList, c.isDigit = true
  nombres : ∀ c ∈ configuration.encodings, EsNombre c.nombre

namespace Nombrada

variable (h : Nombrada configuration)

include h

theorem nombre (hmem : encoding ∈ caminos configuration.encodings) :
    ∀ c ∈ encoding, EsNombre c.nombre := by
  rintro c rfl
  refine h.nombres c ?_
  rw [caminos] at hmem
  split at hmem
  · simp at hmem
  · simpa using hmem

/-- The identifier and the name in a path have no slash. -/
theorem slash_notMem_partes (hmem : encoding ∈ caminos configuration.encodings) {id : List Char}
    (hid : ∀ c ∈ id, claseMediaId.mem c = true) : ∀ p ∈ id :: partesNombre encoding, '/' ∉ p := by
  rw [List.forall_mem_cons]
  refine ⟨slash_notMem_of_clase hid, ?_⟩
  cases encoding with
  | none => exact nofun
  | some c =>
    rw [partesNombre, List.forall_mem_singleton]
    exact fun hc => absurd ((h.nombre hmem c rfl).2 _ hc) (by decide)

/-- **Behind the subpath a path is cut in one way**: as many parts are read
of all, so they agree part by part. -/
theorem resto_inj {encoding' : Option Codificacion}
    (hmem : encoding ∈ caminos configuration.encodings)
    (hmem' : encoding' ∈ caminos configuration.encodings) {id t u : List Char}
    (hid : ∀ c ∈ id, claseMediaId.mem c = true)
    (heq : restoCamino encoding configuration.mediaId.toList ++ '/' :: t =
      restoCamino encoding' id ++ '/' :: u) :
    id = configuration.mediaId.toList ∧ valoresNombre encoding' = valoresNombre encoding ∧ u = t := by
  have hlen : (configuration.mediaId.toList :: partesNombre encoding).length =
      (id :: partesNombre encoding').length := by
    simp [length_partesNombre hmem hmem']
  obtain ⟨hpartes, rfl⟩ := pathOf_append_inj hlen
    (h.slash_notMem_partes hmem fun c hc => mem_claseMediaId (h.mediaId c hc))
    (h.slash_notMem_partes hmem' hid) heq
  obtain ⟨hid, hnombre⟩ := List.cons.inj hpartes
  refine ⟨hid.symm, ?_, rfl⟩
  cases encoding <;> cases encoding' <;> simp_all [valoresNombre, partesNombre]

end Nombrada

/-- A configuration whose paths are read as they are written: digits in
the identifier, no braces in the subpath, and names of encodings. -/
structure Enrutable (configuration : Config) : Prop where
  mediaId_ne : configuration.mediaId.toList ≠ []
  mediaId : ∀ c ∈ configuration.mediaId.toList, c.isDigit = true
  abre : '{' ∉ configuration.urlSubpath.toList
  cierra : '}' ∉ configuration.urlSubpath.toList
  nombres : ∀ c ∈ configuration.encodings, EsNombre c.nombre

namespace Enrutable

variable (h : Enrutable configuration)

include h

theorem nombrada : Nombrada configuration :=
  ⟨h.mediaId_ne, h.mediaId, h.nombres⟩

theorem nombre (hmem : encoding ∈ caminos configuration.encodings) :
    ∀ c ∈ encoding, EsNombre c.nombre :=
  h.nombrada.nombre hmem

/-- **All routes are registered.** -/
theorem handlers_eq : handlers configuration compilePattern configuration.encodings =
    some (rutas configuration compilePattern configuration.encodings) := by
  refine handlers_eq_rutas fun encoding hmem m es hes => ?_
  obtain ⟨r, hr, -⟩ := newRouteRegexp_plantilla h.abre h.cierra (h.nombre hmem) hes
  rw [hr]
  exact nofun

/-- **What a route matches** is what its template reads. -/
theorem matches_iff (hmem : encoding ∈ caminos configuration.encodings) {m : Manejador}
    {es : List Elem} (hes : es ∈ m.elementos) {path : List Char}
    {vs : List (List Char × List Char)} :
    vs ∈ (rutaDePlantilla compilePattern m
      (template (elementosCamino configuration encoding ++ es))).matches path ↔
        ∃ id p vs', id ≠ [] ∧ (∀ c ∈ id, claseMediaId.mem c = true) ∧ Reads es p vs' ∧
          path = pathOf (partesCamino configuration encoding id) ++ p ∧
          vs = valoresCamino encoding id ++ vs' := by
  obtain ⟨r, hr, hnew⟩ := newRouteRegexp_plantilla h.abre h.cierra (h.nombre hmem) hes
  rw [Route.matches, rutaDePlantilla, hr]
  simp only [Except.toOption]
  rw [mem_matchFrom_iff hnew]
  constructor
  · rintro ⟨_, rfl, hreads⟩
    obtain ⟨p₁, vs₁, p₂, vs₂, h₁, h₂, rfl, rfl⟩ := reads_append.1 hreads
    obtain ⟨id, hne, hclase, rfl, rfl⟩ := (reads_elementosCamino_iff (h.nombre hmem)).1 h₁
    exact ⟨id, p₂, vs₂, hne, hclase, h₂, rfl, rfl⟩
  · rintro ⟨id, p, vs', hne, hclase, h₂, rfl, rfl⟩
    have h₁ : Reads (elementosCamino configuration encoding) _ _ :=
      (reads_elementosCamino_iff (h.nombre hmem)).2 ⟨id, hne, hclase, rfl, rfl⟩
    exact ⟨_, rfl, reads_append.2 ⟨_, _, _, _, h₁, h₂, rfl, rfl⟩⟩

/-- **Behind the path of an encoding the routes match what their elements
read** there, under the identifier and the name of the path. -/
theorem matches_camino_iff (hmem : encoding ∈ caminos configuration.encodings) {m : Manejador}
    {rest : List Char} {vs : List (List Char × List Char)} :
    (∃ r ∈ rutas configuration compilePattern configuration.encodings, r.handler = m ∧
        vs ∈ r.matches (pathOf (partesCamino configuration encoding configuration.mediaId.toList) ++
          '/' :: rest)) ↔
      ∃ es ∈ m.elementos, ∃ vs', Reads es ('/' :: rest) vs' ∧
        vs = valoresCamino encoding configuration.mediaId.toList ++ vs' := by
  constructor
  · rintro ⟨r, hr, hhandler, hvs⟩
    obtain ⟨encoding', hmem', m', es, hes, rfl⟩ := mem_rutas_iff.1 hr
    obtain rfl : m' = m := hhandler
    obtain ⟨id, p, vs', -, hclase, hreads, hpath, rfl⟩ := (h.matches_iff hmem' hes).1 hvs
    have hne : es ≠ [] := by
      rintro rfl
      cases m' <;> simp [Manejador.elementos, elementosHls, elementosReproductor] at hes
    obtain ⟨t, rfl⟩ := hreads.exists_slash hne
    have hcamino (encoding : Option Codificacion) (id t : List Char) :
        pathOf (partesCamino configuration encoding id) ++ '/' :: t =
          ('/' :: configuration.urlSubpath.toList) ++ (restoCamino encoding id ++ '/' :: t) := by
      simp [partesCamino, restoCamino, pathOf]
    rw [hcamino, hcamino, List.append_cancel_left_eq] at hpath
    obtain ⟨rfl, hnombre, rfl⟩ := h.nombrada.resto_inj hmem hmem' hclase hpath
    refine ⟨es, hes, vs', hreads, ?_⟩
    rw [valoresCamino, valoresCamino, hnombre]
  · rintro ⟨es, hes, vs', hreads, rfl⟩
    exact ⟨_, mem_rutas_iff.2 ⟨encoding, hmem, m, es, hes, rfl⟩, rfl,
      (h.matches_iff hmem hes).2 ⟨_, _, _, h.mediaId_ne,
        fun c hc => mem_claseMediaId (h.mediaId c hc), hreads, rfl, rfl⟩⟩

/-- **Who answers, where all that is read behind the path agrees.** -/
theorem route_camino (hmem : encoding ∈ caminos configuration.encodings) {m : Manejador}
    {rest : List Char} {vs : List (List Char × List Char)}
    (hsome : ∃ es ∈ m.elementos, Reads es ('/' :: rest) vs)
    (hagree : ∀ m' : Manejador, ∀ es ∈ m'.elementos, ∀ vs', Reads es ('/' :: rest) vs' →
      m' = m ∧ vs' = vs) :
    route (rutas configuration compilePattern configuration.encodings) "GET"
      (pathOf (partesCamino configuration encoding configuration.mediaId.toList) ++ '/' :: rest) =
        some (m, extractVars (valoresCamino encoding configuration.mediaId.toList ++ vs)) := by
  obtain ⟨es, hes, hreads⟩ := hsome
  refine route_eq_of_agree ?_ fun r hr vs' hvs' => ?_
  · obtain ⟨r, hr, -, hvs⟩ := (h.matches_camino_iff hmem).2 ⟨es, hes, vs, hreads, rfl⟩
    obtain ⟨encoding', -, m', es', -, rfl⟩ := mem_rutas_iff.1 hr
    exact ⟨_, hr, by simp [rutaDePlantilla], List.ne_nil_of_mem hvs⟩
  · obtain ⟨es', hes', vs'', hreads', rfl⟩ := (h.matches_camino_iff hmem).1 ⟨r, hr, rfl, hvs'⟩
    obtain ⟨hm, rfl⟩ := hagree _ es' hes' vs'' hreads'
    exact ⟨hm, rfl⟩

/-- What is answered is read behind the path. -/
theorem exists_reads_of_route (hmem : encoding ∈ caminos configuration.encodings) {m : Manejador}
    {rest : List Char} {vars : String → Option String}
    (hroute : route (rutas configuration compilePattern configuration.encodings) "GET"
      (pathOf (partesCamino configuration encoding configuration.mediaId.toList) ++ '/' :: rest) =
        some (m, vars)) : ∃ es ∈ m.elementos, ∃ vs, Reads es ('/' :: rest) vs := by
  obtain ⟨r, hr, vs, hvs, hhandler, -⟩ := exists_of_route hroute
  obtain ⟨es, hes, vs', hreads, -⟩ := (h.matches_camino_iff hmem).1 ⟨r, hr, hhandler, hvs⟩
  exact ⟨es, hes, vs', hreads⟩

end Enrutable

end HlsXcoder
