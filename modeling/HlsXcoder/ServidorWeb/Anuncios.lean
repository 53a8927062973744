import HlsXcoder.Codificacion.Directorios
import HlsXcoder.ServidorWeb.Patrones

/-!
# The advertised addresses

An encoder posts the address of its page and that of its master playlist.
The routes of the server, the address that the page plays and the
directory of the encoding are built elsewhere, each on its own.

They agree for every encoding, whichever routes come before
(`anuncios_iff`). All routes that match such an address belong to one
handler and read the same values, so their order is of no account. What
can fail is the path of the address: the router sends a path with an
empty subpath elsewhere, and an `ip` that ends the host early puts
something before it or cuts it off.
-/

namespace HlsXcoder

open Mux FileTree

/-! ## The addresses -/

/-- What an encoder posts. -/
structure UrlData where
  id : String
  urlHls : String
  urlM3u8 : String
  deriving DecidableEq, Repr

/-- The name of an encoding in its addresses. -/
def codiUrl : Option Codificacion → String
  | none => ""
  | some codificacion => codificacion.nombre ++ "/"

variable (configuration : Config) (encoding : Option Codificacion)

/-- What an encoder posts, where there is a server. -/
def urlData : Option UrlData :=
  if configuration.wn then none
  else some
    { id := configuration.tid
      urlHls := "https://" ++ configuration.ip ++ "/" ++ configuration.urlSubpath ++ "/" ++
        configuration.mediaId ++ "/" ++ codiUrl encoding ++ "index.html"
      urlM3u8 := "https://" ++ configuration.ip ++ "/" ++ configuration.urlSubpath ++ "/" ++
        configuration.mediaId ++ "/" ++ codiUrl encoding ++ "hls.m3u8" }

/-- The routes of the server, where it is started and no template stops
the program. -/
def inicializarServidorWeb (compile : List Char → Option Pattern) : Option (List (Route Manejador)) :=
  if configuration.wn = false ∧ configuration.test = false then
    handlers configuration compile configuration.encodings
  else none

/-- The characters that end the host of an address. -/
def terminaHost (c : Char) : Bool := c == '/' || c == '?' || c == '#'

/-- The characters that end its path. -/
def terminaRuta (c : Char) : Bool := c == '?' || c == '#'

/-- The path of an address: from the end of the host to the query or the
fragment. -/
def urlPath (url : String) : List Char :=
  ((url.toList.drop "https://".length).dropWhile fun c => !terminaHost c).takeWhile fun c =>
    !terminaRuta c

/-- **The posted addresses agree with the routes**: the first leads to the
page, which plays the second, and the second to the playlist that the
encoder has created. -/
structure Anuncio (entorno : Entorno) (routes : List (Route Manejador)) (data : UrlData) : Prop where
  pagina : ∃ vars, serveHTTP routes "GET" (urlPath data.urlHls) = .handle .paginaWebVideoPlayer vars ∧
    (∀ page, Manejador.paginaWebVideoPlayer.atender entorno configuration vars = .pagina page →
      page.hlsUrl = data.urlM3u8) ∧
    (entorno.parseFiles (configuration.videoplayerPath ++ "/index.html") = true →
      (tamano configuration).isSome = true →
        ∃ page, Manejador.paginaWebVideoPlayer.atender entorno configuration vars = .pagina page)
  lista : ∃ vars mediaFile contentType,
    serveHTTP routes "GET" (urlPath data.urlM3u8) = .handle .hls vars ∧
      Manejador.hls.atender entorno configuration vars = .fichero mediaFile contentType ∧
      ∀ programa, Operacion.create mediaFile ∈ operaciones configuration programa encoding

/-! ## What the routes read -/

/-- The file of a handler that the addresses name. -/
def Manejador.fichero : Manejador → String
  | hls => "hls.m3u8"
  | paginaWebVideoPlayer => "index.html"

/-- What its templates read of that file. -/
def Manejador.valores : Manejador → List (List Char × List Char)
  | hls => [("filename".toList, "hls.m3u8".toList)]
  | paginaWebVideoPlayer => [("html".toList, "index.html".toList)]

variable {configuration encoding}

/-- **Each of these files is read by its own handler**, in one way. -/
theorem Manejador.readings_fichero (m m' : Manejador) :
    (m'.elementos.flatMap fun es => readings es ('/' :: m.fichero.toList)) =
      if m' = m then [m.valores] else [] := by
  cases m <;> cases m' <;> decide +kernel

theorem reads_fichero {m m' : Manejador} {es : List Elem} (hes : es ∈ m'.elementos)
    {vs : List (List Char × List Char)} (h : Reads es ('/' :: m.fichero.toList) vs) :
    m' = m ∧ vs = m.valores := by
  have hmem : vs ∈ m'.elementos.flatMap fun es => readings es ('/' :: m.fichero.toList) :=
    List.mem_flatMap.2 ⟨es, hes, (mem_readings_iff (m'.compiles es hes)).2 h⟩
  rw [m.readings_fichero] at hmem
  split at hmem
  · rename_i heq
    exact ⟨heq, List.mem_singleton.1 hmem⟩
  · cases hmem

theorem Manejador.exists_reads_fichero (m : Manejador) :
    ∃ es ∈ m.elementos, Reads es ('/' :: m.fichero.toList) m.valores := by
  have hmem : m.valores ∈ m.elementos.flatMap fun es => readings es ('/' :: m.fichero.toList) := by
    rw [m.readings_fichero, if_pos rfl]
    exact List.mem_singleton_self _
  obtain ⟨es, hes, h⟩ := List.mem_flatMap.1 hmem
  exact ⟨es, hes, (mem_readings_iff (m.compiles es hes)).1 h⟩

/-! ## Who answers -/

/-- A configuration whose addresses are made of names: digits in the
identifier, letters and digits in the subpath, and names of encodings. -/
structure Publicable (configuration : Config) : Prop where
  mediaId_ne : configuration.mediaId.toList ≠ []
  mediaId : ∀ c ∈ configuration.mediaId.toList, c.isDigit = true
  urlSubpath : ∀ c ∈ configuration.urlSubpath.toList, c.isAlphanum = true
  nombres : ∀ c ∈ configuration.encodings, EsNombre c.nombre

theorem isPlain_ne {c d : Char} (hc : Regexp.IsPlain c) (hd : ¬ Regexp.IsPlain d) : c ≠ d := by
  rintro rfl
  exact hd hc

/-- Letters, digits and underscores make a name. -/
theorem isName_of_isPlain {p : List Char} (hne : p ≠ []) (hp : ∀ c ∈ p, Regexp.IsPlain c) :
    IsName p where
  noSlash hc := absurd (hp _ hc) (by decide)
  ne_nil := hne
  ne_dot := by
    rintro rfl
    exact absurd (hp '.' (by simp)) (by decide)
  ne_dots := by
    rintro rfl
    exact absurd (hp '.' (by simp)) (by decide)

namespace Publicable

variable (h : Publicable configuration)

include h

theorem isPlain_mediaId {c : Char} (hc : c ∈ configuration.mediaId.toList) : Regexp.IsPlain c :=
  .inl (by simp [Char.isAlphanum, h.mediaId c hc])

theorem enrutable : Enrutable configuration where
  mediaId_ne := h.mediaId_ne
  mediaId := h.mediaId
  abre hc := absurd (h.urlSubpath _ hc) (by decide)
  cierra hc := absurd (h.urlSubpath _ hc) (by decide)
  nombres := h.nombres

/-- The parts of a path are made of letters, digits and underscores. -/
theorem isPlain_of_mem_partesCamino (hmem : encoding ∈ caminos configuration.encodings) :
    ∀ p ∈ partesCamino configuration encoding configuration.mediaId.toList,
      ∀ c ∈ p, Regexp.IsPlain c := by
  rw [partesCamino, List.forall_mem_append, List.forall_mem_cons, List.forall_mem_singleton]
  refine ⟨⟨fun c hc => .inl (h.urlSubpath c hc), fun c hc => h.isPlain_mediaId hc⟩, ?_⟩
  cases encoding with
  | none => simp [partesNombre]
  | some c =>
    rw [partesNombre, List.forall_mem_singleton]
    exact (h.enrutable.nombre hmem c rfl).2

/-- What stands in a path for the elements of an encoding has no slash. -/
theorem slash_notMem_partesCamino (hmem : encoding ∈ caminos configuration.encodings)
    {id : List Char} (hid : ∀ c ∈ id, claseMediaId.mem c = true) :
    ∀ p ∈ partesCamino configuration encoding id, '/' ∉ p := by
  have hsub : '/' ∉ configuration.urlSubpath.toList := fun hc =>
    absurd (h.urlSubpath _ hc) (by decide)
  exact List.forall_mem_cons.2 ⟨hsub, h.enrutable.nombrada.slash_notMem_partes hmem hid⟩

/-- **Who answers an address.** -/
theorem route_eq (hmem : encoding ∈ caminos configuration.encodings) (m : Manejador) :
    route (rutas configuration compilePattern configuration.encodings) "GET"
      (pathOf (partesCamino configuration encoding configuration.mediaId.toList) ++ '/' :: m.fichero.toList) =
        some (m, extractVars (valoresCamino encoding configuration.mediaId.toList ++ m.valores)) :=
  h.enrutable.route_camino hmem m.exists_reads_fichero fun _ _ hes _ hreads => reads_fichero hes hreads

end Publicable

/-! ## The path of an address -/

variable (configuration encoding) in
/-- The address of a file of an encoding. -/
def direccion (m : Manejador) : String :=
  "https://" ++ configuration.ip ++ "/" ++ configuration.urlSubpath ++ "/" ++
    configuration.mediaId ++ "/" ++ codiUrl encoding ++ m.fichero

variable (configuration encoding) in
/-- The path of a file of an encoding. -/
def rutaPublicada (m : Manejador) : List Char :=
  pathOf (partesCamino configuration encoding configuration.mediaId.toList) ++ '/' :: m.fichero.toList

theorem toList_direccion (m : Manejador) : (direccion configuration encoding m).toList =
    "https://".toList ++ (configuration.ip.toList ++ rutaPublicada configuration encoding m) := by
  unfold direccion
  cases encoding <;> simp [rutaPublicada, codiUrl, partesCamino, partesNombre, pathOf]

theorem urlPath_direccion (m : Manejador) : urlPath (direccion configuration encoding m) =
    ((configuration.ip.toList ++ rutaPublicada configuration encoding m).dropWhile fun c =>
      !terminaHost c).takeWhile fun c => !terminaRuta c := by
  rw [urlPath, toList_direccion]
  rfl

namespace Publicable

variable (h : Publicable configuration)

include h

theorem terminaRuta_rutaPublicada (hmem : encoding ∈ caminos configuration.encodings)
    (m : Manejador) : ∀ c ∈ rutaPublicada configuration encoding m, (!terminaRuta c) = true := by
  have hplain (c : Char) (hc : Regexp.IsPlain c) : (!terminaRuta c) = true := by
    simp [terminaRuta, isPlain_ne hc (d := '?') (by decide), isPlain_ne hc (d := '#') (by decide)]
  have hfichero : m.fichero.toList.all (fun c => !terminaRuta c) = true := by cases m <;> decide
  rw [rutaPublicada, List.forall_mem_append, List.forall_mem_cons]
  refine ⟨fun c hc => ?_, rfl, List.all_eq_true.1 hfichero⟩
  obtain ⟨p, hp, hc⟩ := List.mem_flatMap.1 hc
  obtain rfl | hc := List.mem_cons.1 hc
  · rfl
  · exact hplain c (h.isPlain_of_mem_partesCamino hmem p hp c hc)

/-- **Behind a host the path is what the encoder put there.** -/
theorem urlPath_of_host (hmem : encoding ∈ caminos configuration.encodings)
    (hip : ∀ c ∈ configuration.ip.toList, terminaHost c = false) (m : Manejador) :
    urlPath (direccion configuration encoding m) = rutaPublicada configuration encoding m := by
  have hslash : ∃ t, rutaPublicada configuration encoding m = '/' :: t := ⟨_, rfl⟩
  have hruta := h.terminaRuta_rutaPublicada hmem m
  obtain ⟨t, ht⟩ := hslash
  rw [urlPath_direccion, List.dropWhile_append_of_pos fun c hc => by simp [hip c hc], ht,
    List.dropWhile_cons_of_neg (by decide), ← ht]
  exact List.takeWhile_eq_self_iff.2 hruta

/-- **A host that ends early** leaves something before the path, or the
same path of both addresses. -/
theorem urlPath_of_not_host (hmem : encoding ∈ caminos configuration.encodings)
    (hip : ¬ ∀ c ∈ configuration.ip.toList, terminaHost c = false) :
    (∃ b, ∀ m, urlPath (direccion configuration encoding m) =
      '/' :: (b ++ rutaPublicada configuration encoding m)) ∨
    urlPath (direccion configuration encoding .paginaWebVideoPlayer) =
      urlPath (direccion configuration encoding .hls) := by
  have hresto : configuration.ip.toList.dropWhile (fun c => !terminaHost c) ≠ [] := by
    simpa [List.dropWhile_eq_nil_iff] using hip
  have hpath (m : Manejador) : urlPath (direccion configuration encoding m) =
      (configuration.ip.toList.dropWhile (fun c => !terminaHost c) ++
        rutaPublicada configuration encoding m).takeWhile fun c => !terminaRuta c := by
    rw [urlPath_direccion, List.dropWhile_append, if_neg (by simpa using hresto)]
  obtain ⟨d, b, hb⟩ := List.exists_cons_of_ne_nil hresto
  have hd : terminaHost d = true := by
    have hhead := List.head_dropWhile_not (fun c => !terminaHost c) hresto
    simpa [hb] using hhead
  by_cases hquery : ∀ c ∈ d :: b, (!terminaRuta c) = true
  · left
    refine ⟨b, fun m => ?_⟩
    have hslash : d = '/' := by
      have hruta := hquery d List.mem_cons_self
      simp only [terminaHost, terminaRuta, Bool.not_eq_true', Bool.or_eq_true, Bool.or_eq_false_iff,
        beq_iff_eq, beq_eq_false_iff_ne] at hd hruta
      tauto
    rw [hpath, hb, List.takeWhile_append_of_pos hquery,
      List.takeWhile_eq_self_iff.2 (h.terminaRuta_rutaPublicada hmem m), hslash, List.cons_append]
  · right
    have hcut (t : List Char) : ((d :: b) ++ t).takeWhile (fun c => !terminaRuta c) =
        (d :: b).takeWhile fun c => !terminaRuta c := by
      rw [List.takeWhile_append, if_neg]
      exact fun hlen => hquery (List.takeWhile_eq_self_iff.1
        ((List.takeWhile_prefix _).eq_of_length hlen))
    rw [hpath, hpath, hb, hcut, hcut]

end Publicable

/-! ## The answers -/

section Respuestas

variable {id : List Char}

theorem extractVars_mediaId (m : Manejador) :
    extractVars (valoresCamino encoding id ++ m.valores) "mediaId" = some (String.ofList id) := by
  cases encoding <;> cases m <;> rfl

theorem extractVars_path (m : Manejador) :
    extractVars (valoresCamino encoding id ++ m.valores) "path" =
      encoding.map fun codificacion => codificacion.nombre := by
  cases encoding with
  | none => cases m <;> rfl
  | some c =>
    have h : extractVars (valoresCamino (some c) id ++ m.valores) "path" =
        some (String.ofList c.nombre.toList) := by
      cases m <;> rfl
    rw [h, String.ofList_toList]
    rfl

variable (configuration encoding) in
/-- The page plays the posted playlist. -/
theorem atender_pagina (entorno : Entorno) (hmedia : id = configuration.mediaId.toList)
    (hnombre : ∀ c ∈ encoding, c.nombre ≠ "") :
    Manejador.paginaWebVideoPlayer.atender entorno configuration
        (extractVars (valoresCamino encoding id ++ Manejador.paginaWebVideoPlayer.valores)) =
      if entorno.parseFiles (configuration.videoplayerPath ++ "/index.html") = false then .notFound
      else (tamano configuration).elim .panic fun t => .pagina
        { hlsUrl := direccion configuration encoding .hls
          vumeter := if configuration.vumeter then "block" else "none"
          rWidth := t.1
          rHeight := t.2 } := by
  have hhtml : extractVars (valoresCamino encoding id ++ Manejador.paginaWebVideoPlayer.valores)
      "html" = some "index.html" := by
    cases encoding <;> rfl
  have hurl : "https://" ++ configuration.ip ++ "/" ++ configuration.urlSubpath ++ "/" ++
      configuration.mediaId ++ (if (encoding.map fun c => c.nombre).getD "" ≠ "" then
        "/" ++ (encoding.map fun c => c.nombre).getD "" else
          (encoding.map fun c => c.nombre).getD "") ++ "/hls.m3u8" =
        direccion configuration encoding .hls := by
    have hnone (p : String) : p ++ "" ++ "/hls.m3u8" = p ++ "/" ++ "" ++ "hls.m3u8" := by
      rw [← String.toList_inj]
      simp
    have hsome (p x : String) : p ++ ("/" ++ x) ++ "/hls.m3u8" =
        p ++ "/" ++ (x ++ "/") ++ "hls.m3u8" := by
      rw [← String.toList_inj]
      simp
    cases encoding with
    | none => exact hnone _
    | some c =>
      rw [Option.map_some, Option.getD_some, if_pos (hnombre c rfl)]
      exact hsome _ c.nombre
  rw [Manejador.atender, manejadorPaginaWebVideoPlayer, extractVars_mediaId, extractVars_path, hhtml,
    hmedia, String.ofList_toList]
  cases htam : tamano configuration with
  | none => simp only [Option.elim_none]
  | some t => simp only [hurl, Option.elim_some]

theorem servirFichero_hls (entorno : Entorno) (mediaBase : String) :
    ∃ contentType, servirFichero entorno mediaBase "hls.m3u8" 0 =
      .fichero (mediaBase ++ "/hls.m3u8") contentType := by
  have hfile : mediaBase ++ "/hls.m3u8" = mediaBase ++ "/" ++ "hls.m3u8" := by
    rw [String.append_assoc]
    rfl
  rw [hfile]
  exact servirFichero_media entorno mediaBase 0 (by decide)

variable (configuration encoding) in
/-- The playlist is the one the encoder has created. -/
theorem atender_hls (entorno : Entorno) (hmedia : id = configuration.mediaId.toList) :
    ∃ contentType, Manejador.hls.atender entorno configuration
      (extractVars (valoresCamino encoding id ++ Manejador.hls.valores)) =
        .fichero (codificacionPath configuration encoding ++ "/hls.m3u8") contentType := by
  have hfilename : extractVars (valoresCamino encoding id ++ Manejador.hls.valores) "filename" =
      some "hls.m3u8" := by
    cases encoding <;> rfl
  have hstreams : extractVars (valoresCamino encoding id ++ Manejador.hls.valores) "audioName" = none ∧
      extractVars (valoresCamino encoding id ++ Manejador.hls.valores) "subName" = none := by
    cases encoding <;> exact ⟨rfl, rfl⟩
  rw [Manejador.atender, manejadorHLS, extractVars_mediaId, extractVars_path, hfilename, hstreams.1,
    hstreams.2, hmedia, String.ofList_toList]
  cases encoding with
  | none => exact servirFichero_hls entorno _
  | some c => exact servirFichero_hls entorno _

end Respuestas

/-! ## Addresses that do not come through -/

theorem publicable (hmedia : configuration.mediaId = generarIdentificador configuration.input)
    (hsub : ∀ c ∈ configuration.urlSubpath.toList, c.isAlphanum = true)
    (hnombres : ∀ c ∈ configuration.encodings, EsNombre c.nombre) : Publicable configuration where
  mediaId_ne := by
    rw [hmedia]
    exact generarIdentificador_ne_nil _
  mediaId := by
    rw [hmedia]
    exact fun c hc => isDigit_of_mem_generarIdentificador hc
  urlSubpath := hsub
  nombres := hnombres

theorem urlData_eq (hwn : configuration.wn = false) : urlData configuration encoding = some
    { id := configuration.tid
      urlHls := direccion configuration encoding .paginaWebVideoPlayer
      urlM3u8 := direccion configuration encoding .hls } := by
  rw [urlData, hwn]
  rfl

theorem eq_direccion_of_urlData {data : UrlData}
    (hdata : urlData configuration encoding = some data) : data =
      { id := configuration.tid
        urlHls := direccion configuration encoding .paginaWebVideoPlayer
        urlM3u8 := direccion configuration encoding .hls } := by
  cases hwn : configuration.wn with
  | true => simp [urlData, hwn] at hdata
  | false => exact Option.some.inj (hdata.symm.trans (urlData_eq hwn))

theorem eq_rutas_of_inicializar {routes : List (Route Manejador)}
    (hroutes : inicializarServidorWeb configuration compilePattern = some routes) :
    routes = rutas configuration compilePattern configuration.encodings := by
  rw [inicializarServidorWeb] at hroutes
  split at hroutes
  · exact eq_rutas_of_handlers hroutes
  · cases hroutes

namespace Publicable

variable (h : Publicable configuration)

include h

/-- **Nothing more than its path leads to the page.** -/
theorem not_matches_append (hmem : encoding ∈ caminos configuration.encodings) {r : Route Manejador}
    (hr : r ∈ rutas configuration compilePattern configuration.encodings)
    (hhandler : r.handler = .paginaWebVideoPlayer) (b : List Char) :
    r.matches ('/' :: (b ++ rutaPublicada configuration encoding .paginaWebVideoPlayer)) = [] := by
  refine List.eq_nil_iff_forall_not_mem.2 fun vs hvs => ?_
  obtain ⟨encoding', hmem', m', es, hes, rfl⟩ := mem_rutas_iff.1 hr
  obtain rfl : m' = .paginaWebVideoPlayer := hhandler
  obtain ⟨id, p, vs', -, hclase, hreads, hpath, -⟩ := (h.enrutable.matches_iff hmem' hes).1 hvs
  have hne : es ≠ [] := by
    rintro rfl
    simp [Manejador.elementos, elementosReproductor] at hes
  obtain ⟨t, rfl⟩ := hreads.exists_slash hne
  rw [rutaPublicada, ← List.append_assoc, ← List.cons_append] at hpath
  -- the path ends as the page does, so no resource is read
  have hlast : (pathOf (partesCamino configuration encoding' id) ++ '/' :: t).getLast? = some 'l' := by
    rw [← hpath]
    simp [Manejador.fichero, List.getLast?_append, List.getLast?_cons]
  rw [List.getLast?_append_of_ne_nil _ (List.cons_ne_nil _ _)] at hlast
  have hlen : ('/' :: t).length = 11 := by
    obtain ⟨hlen, -⟩ | ⟨x, hx, b, hb⟩ := reads_reproductor hes hreads
    · exact hlen
    · rw [← hb] at hlast
      simp only [List.mem_cons, List.not_mem_nil, or_false] at hx
      obtain rfl | rfl | rfl := hx <;> simp at hlast
  obtain ⟨hcamino, -⟩ := List.append_inj' hpath (by rw [hlen]; rfl)
  -- the slashes of the parts are as many on both sides
  have hcount := congrArg (List.count '/') hcamino
  rw [← List.cons_append, List.count_append, List.count_cons_self,
    count_pathOf (h.slash_notMem_partesCamino hmem fun c hc =>
      mem_claseMediaId (h.enrutable.mediaId c hc)),
    count_pathOf (h.slash_notMem_partesCamino hmem' hclase)] at hcount
  have hpartes := length_partesNombre hmem hmem'
  simp only [partesCamino, List.length_append, List.length_cons, List.length_nil] at hcount
  omega

/-- The parts of a path and its file are names, behind a subpath. -/
theorem isName_partes (hsub : configuration.urlSubpath ≠ "")
    (hmem : encoding ∈ caminos configuration.encodings) (m : Manejador) :
    ∀ p ∈ partesCamino configuration encoding configuration.mediaId.toList ++ [m.fichero.toList],
      IsName p := by
  have hplain := h.isPlain_of_mem_partesCamino hmem
  have hfichero : IsName m.fichero.toList := by cases m <;> decide
  rw [List.forall_mem_append, List.forall_mem_singleton]
  refine ⟨fun p hp => isName_of_isPlain ?_ (hplain p hp), hfichero⟩
  simp only [partesCamino, List.cons_append, List.nil_append, List.mem_cons] at hp
  obtain rfl | rfl | hp := hp
  · simpa using hsub
  · exact h.mediaId_ne
  · cases encoding with
    | none => cases hp
    | some c =>
      obtain rfl := List.mem_singleton.1 hp
      simpa using (h.enrutable.nombre hmem c rfl).1

/-- **The dispatch of an address.** -/
theorem serveHTTP_eq (hmem : encoding ∈ caminos configuration.encodings)
    (hsub : configuration.urlSubpath ≠ "")
    (hip : ∀ c ∈ configuration.ip.toList, terminaHost c = false) (m : Manejador) :
    serveHTTP (rutas configuration compilePattern configuration.encodings) "GET"
      (urlPath (direccion configuration encoding m)) =
        .handle m (extractVars (valoresCamino encoding configuration.mediaId.toList ++ m.valores)) := by
  have hruta : rutaPublicada configuration encoding m =
      pathOf (partesCamino configuration encoding configuration.mediaId.toList ++
        [m.fichero.toList]) := by
    rw [pathOf_append]
    simp [rutaPublicada, pathOf]
  rw [serveHTTP_eq_handle, h.urlPath_of_host hmem hip]
  refine ⟨?_, h.route_eq hmem m⟩
  rw [hruta]
  exact cleanPath_pathOf (by simp) (h.isName_partes hsub hmem m)

/-- **What addresses that come through rely on.** -/
theorem host_of_anuncio (hmem : encoding ∈ caminos configuration.encodings) {entorno : Entorno}
    {routes : List (Route Manejador)} {data : UrlData}
    (hroutes : inicializarServidorWeb configuration compilePattern = some routes)
    (hdata : urlData configuration encoding = some data)
    (ha : Anuncio configuration encoding entorno routes data) :
    configuration.urlSubpath ≠ "" ∧ ∀ c ∈ configuration.ip.toList, terminaHost c = false := by
  obtain ⟨⟨vars, hpagina, -⟩, ⟨vars', -, -, hlista, -⟩⟩ := ha
  obtain rfl := eq_direccion_of_urlData hdata
  obtain rfl := eq_rutas_of_inicializar hroutes
  have hip : ∀ c ∈ configuration.ip.toList, terminaHost c = false := by
    by_contra hip
    obtain ⟨b, hb⟩ | heq := h.urlPath_of_not_host hmem hip
    · rw [hb, serveHTTP_eq_handle] at hpagina
      obtain ⟨r, hr, vs, hvs, hhandler, -⟩ := exists_of_route hpagina.2
      rw [h.not_matches_append hmem hr hhandler] at hvs
      cases hvs
    · rw [heq, hlista] at hpagina
      cases hpagina
  refine ⟨fun hsub => ?_, hip⟩
  rw [h.urlPath_of_host hmem hip, serveHTTP_eq_handle] at hpagina
  have hruta : ∃ q, rutaPublicada configuration encoding .paginaWebVideoPlayer = '/' :: '/' :: q :=
    ⟨_, by simp [rutaPublicada, partesCamino, pathOf, hsub]; rfl⟩
  obtain ⟨q, hq⟩ := hruta
  exact cleanPath_ne_slashes _ q (hpagina.1.trans hq)

/-- **Behind a host and a subpath the addresses agree with the routes.** -/
theorem anuncio (hmem : encoding ∈ caminos configuration.encodings)
    (hsub : configuration.urlSubpath ≠ "")
    (hip : ∀ c ∈ configuration.ip.toList, terminaHost c = false) (entorno : Entorno) :
    Anuncio configuration encoding entorno
      (rutas configuration compilePattern configuration.encodings)
      { id := configuration.tid
        urlHls := direccion configuration encoding .paginaWebVideoPlayer
        urlM3u8 := direccion configuration encoding .hls } := by
  have hpage := atender_pagina configuration encoding entorno rfl fun c hc => (h.enrutable.nombre hmem c hc).1
  obtain ⟨contentType, hlista⟩ :=
    atender_hls configuration encoding entorno rfl
  refine ⟨⟨_, h.serveHTTP_eq hmem hsub hip _, fun page heq => ?_, fun hparse htam => ?_⟩,
    ⟨_, _, contentType, h.serveHTTP_eq hmem hsub hip _, hlista, fun programa => ?_⟩⟩
  · rw [hpage] at heq
    split at heq
    · cases heq
    · cases htam : tamano configuration with
      | none => simp [htam] at heq
      | some t =>
        rw [htam] at heq
        obtain rfl := Respuesta.pagina.inj heq
        rfl
  · obtain ⟨t, htam⟩ := Option.isSome_iff_exists.1 htam
    rw [hpage, hparse, htam]
    exact ⟨_, rfl⟩
  · simp [operaciones]

end Publicable

/-- **The advertised addresses, the page and the routes agree** exactly
where the subpath is not empty and no character of the `ip` ends the
host. -/
theorem anuncios_iff (entorno : Entorno) (configuration : Config) (hwn : configuration.wn = false)
    (htest : configuration.test = false)
    (hmedia : configuration.mediaId = generarIdentificador configuration.input)
    (hsub : ∀ c ∈ configuration.urlSubpath.toList, c.isAlphanum = true)
    (hnombres : ∀ c ∈ configuration.encodings, EsNombre c.nombre)
    (i : Fin (encodingsNumber configuration)) :
    (∃ routes data, inicializarServidorWeb configuration compilePattern = some routes ∧
      urlData configuration (codificacionDeIndice configuration i) = some data ∧
        Anuncio configuration (codificacionDeIndice configuration i) entorno routes data) ↔
      configuration.urlSubpath ≠ "" ∧ ∀ c ∈ configuration.ip.toList, terminaHost c = false := by
  have h := publicable hmedia hsub hnombres
  have hmem := codificacionDeIndice_mem_caminos i
  constructor
  · rintro ⟨routes, data, hroutes, hdata, ha⟩
    exact h.host_of_anuncio hmem hroutes hdata ha
  · rintro ⟨hne, hip⟩
    refine ⟨_, _, ?_, urlData_eq hwn, h.anuncio hmem hne hip entorno⟩
    rw [inicializarServidorWeb, if_pos ⟨hwn, htest⟩, h.enrutable.handlers_eq]

/-- One encoding, served under a subpath. -/
def configuracionAnunciada (urlSubpath : String) : Config :=
  { Config.minima with
    ip := "localhost:8080", urlSubpath := urlSubpath, mediaId := generarIdentificador ""
    encodings := [⟨"h264", []⟩] }

theorem anuncios_streaming : ∃ routes data,
    inicializarServidorWeb (configuracionAnunciada "streaming") compilePattern = some routes ∧
      urlData (configuracionAnunciada "streaming") (some ⟨"h264", []⟩) = some data ∧
        Anuncio (configuracionAnunciada "streaming") (some ⟨"h264", []⟩) ⟨fun _ => "", fun _ => true⟩
          routes data :=
  (anuncios_iff ⟨fun _ => "", fun _ => true⟩ (configuracionAnunciada "streaming") rfl rfl rfl
    (Text.forall_mem_of_all (by decide)) (by decide) ⟨0, by decide⟩).2
      ⟨by decide, Text.forall_mem_of_all (by decide)⟩

/-- **An empty subpath puts two slashes in front**: the router sends the
request to another path, which no route matches. -/
theorem not_anuncios : ¬ ∀ (entorno : Entorno) (configuration : Config), configuration.wn = false →
    configuration.test = false →
    configuration.mediaId = generarIdentificador configuration.input →
    (∀ c ∈ configuration.urlSubpath.toList, c.isAlphanum = true) →
    (∀ c ∈ configuration.encodings, EsNombre c.nombre) →
    ∀ i : Fin (encodingsNumber configuration), ∃ routes data,
      inicializarServidorWeb configuration compilePattern = some routes ∧
        urlData configuration (codificacionDeIndice configuration i) = some data ∧
          Anuncio configuration (codificacionDeIndice configuration i) entorno routes data := by
  intro h
  have hsub : ∀ c ∈ (configuracionAnunciada "").urlSubpath.toList, c.isAlphanum = true :=
    Text.forall_mem_of_all (by decide)
  have hnombres : ∀ c ∈ (configuracionAnunciada "").encodings, EsNombre c.nombre := by decide
  obtain ⟨routes, data, hroutes, hdata, ha⟩ := h ⟨fun _ => "", fun _ => true⟩
    (configuracionAnunciada "") rfl rfl rfl hsub hnombres ⟨0, by decide⟩
  exact ((publicable rfl hsub hnombres).host_of_anuncio (codificacionDeIndice_mem_caminos _) hroutes
    hdata ha).1 rfl

end HlsXcoder
