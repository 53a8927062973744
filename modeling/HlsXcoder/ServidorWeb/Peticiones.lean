import HlsXcoder.Codificacion.Ficheros
import HlsXcoder.ServidorWeb.Anuncios
import HlsXcoder.ServidorWeb.Subpath

/-!
# The requests for the files of a command

Each file a command writes should be reached at its own address: below
the path of its encoding, with `subtitulo` for the directory
`subtitulos`. The names come from one place and the patterns of the
routes from another. They agree but for five things. No route takes the
`init.mp4` of a subtitle, only those of the variants and of the audio
streams. A language is taken where it has between two and twenty
characters, all lower case, and for an audio stream no comma. The number
of a segment is taken up to twenty digits. A file is only where the
request looks for it if ffmpeg puts neither the variant nor a number into
the directory of the encoding. And with braces in the subpath the request
may be read another way (`SubpathPropio`).
-/

namespace HlsXcoder

open Mux OptionGroups

/-! ## The addresses -/

/-- The address of a file, below the directory of its encoding: the
directory `subtitulos` is written `subtitulo`. -/
def uriDeFichero (fichero : String) : String :=
  if "subtitulos/".toList.isPrefixOf fichero.toList then
    "subtitulo/" ++ .ofList (fichero.toList.drop "subtitulos/".toList.length)
  else fichero

theorem uriDeFichero_subtitulos (s : String) :
    uriDeFichero ("subtitulos/" ++ s) = "subtitulo/" ++ s := by
  rw [uriDeFichero, if_pos (by simp [List.isPrefixOf])]
  simp

theorem uriDeFichero_of_not_prefix {s : String} (h : ¬ "subtitulos/".toList <+: s.toList) :
    uriDeFichero s = s :=
  if_neg fun hpre => h (List.isPrefixOf_iff_prefix.1 hpre)

section Peticion

variable (compile : List Char → Option Pattern) (configuration : Config)
  (encoding : Option Codificacion)

/-- The path of the request for a file of an encoding. -/
def peticion (fichero : String) : String :=
  "/" ++ configuration.urlSubpath ++ "/" ++ configuration.mediaId ++ "/" ++ codiUrl encoding ++
    uriDeFichero fichero

/-- What stands behind the subpath in it. -/
def restoPeticion (fichero : String) : List Char :=
  restoCamino encoding configuration.mediaId.toList ++ '/' :: (uriDeFichero fichero).toList

/-- **A file is reached at its own address**: the request for it goes to
the handler of the files, which resolves it to that file. -/
def EnSuDireccion (entorno : Entorno) (f : String) : Prop :=
  ∃ routes fichero vars contentType,
    handlers configuration compile configuration.encodings = some routes ∧
      f = codificacionPath configuration encoding ++ "/" ++ fichero ∧
      route routes "GET" (peticion configuration encoding fichero).toList = some (.hls, vars) ∧
      manejadorHLS entorno configuration vars = .fichero f contentType

variable {configuration encoding}

theorem toList_peticion (fichero : String) : (peticion configuration encoding fichero).toList =
    pathOf (partesCamino configuration encoding configuration.mediaId.toList) ++
      '/' :: (uriDeFichero fichero).toList := by
  cases encoding <;> simp [peticion, codiUrl, partesCamino, partesNombre, pathOf]

/-- The request starts with the subpath as it is written. -/
theorem toList_peticion_eq_append (fichero : String) :
    (peticion configuration encoding fichero).toList =
      textoSubpath configuration ++ restoPeticion configuration encoding fichero := by
  rw [toList_peticion]
  simp [partesCamino, restoPeticion, restoCamino, textoSubpath, pathOf]

end Peticion

/-! ## The place of a file -/

namespace Pista

/-- Where its files are asked for. -/
def rama : Pista → Rama
  | video _ | defecto => .raiz
  | quemado _ _ | teletexto _ => .subtitulo
  | audio _ => .audio

/-- The path of one of its files, below the directory of the encoding. -/
def relativa (t : Pista) (nombre : String) : String :=
  match t with
  | video _ | defecto => nombre
  | quemado _ language | teletexto language => "subtitulos/" ++ language ++ "/" ++ nombre
  | audio language => "audio/" ++ language ++ "/" ++ nombre

theorem ruta_relativa (t : Pista) (path nombre : String) :
    path ++ t.carpeta ++ "/" ++ nombre = path ++ "/" ++ t.relativa nombre := by
  rw [← String.toList_inj]
  cases t <;> simp [carpeta, relativa]

/-- **The address of a file is the path that its place reads.** -/
theorem toList_uriDeFichero (t : Pista) {nombre : String} (h : '/' ∉ nombre.toList) :
    '/' :: (uriDeFichero (t.relativa nombre)).toList =
      pathOf (t.rama.partes t.idioma.toList) ++ '/' :: nombre.toList := by
  cases t with
  | video | defecto =>
    rw [relativa, uriDeFichero_of_not_prefix fun hpre => h (hpre.subset (by simp))]
    rfl
  | quemado b l | teletexto l =>
    rw [relativa, String.append_assoc, String.append_assoc, uriDeFichero_subtitulos]
    simp [rama, idioma, Rama.partes, pathOf]
  | audio l =>
    rw [relativa, uriDeFichero_of_not_prefix fun hpre => by simp at hpre]
    simp [rama, idioma, Rama.partes, pathOf]

end Pista

variable {configuration : Config} {programa : Programa} {encoding : Option Codificacion}

/-! ## The answer -/

section Valores

variable (encoding) (t : Pista) (id : List Char) (nombre : String)

/-- What the routes read of the request for a file. -/
abbrev valoresPedidos : List (List Char × List Char) :=
  valoresCamino encoding id ++ (t.rama.valores t.idioma.toList ++ [("filename".toList, nombre.toList)])

theorem extractVars_mediaId_pedido :
    extractVars (valoresPedidos encoding t id nombre) "mediaId" = some (String.ofList id) := by
  cases encoding <;> cases t <;> rfl

theorem extractVars_filename :
    extractVars (valoresPedidos encoding t id nombre) "filename" = some nombre := by
  have h : extractVars (valoresPedidos encoding t id nombre) "filename" =
      some (String.ofList nombre.toList) := by
    cases encoding <;> cases t <;> rfl
  rw [h, String.ofList_toList]

theorem extractVars_path_pedido : extractVars (valoresPedidos encoding t id nombre) "path" =
    encoding.map fun codificacion => String.ofList codificacion.nombre.toList := by
  cases encoding <;> cases t <;> rfl

theorem extractVars_audioName_pedido :
    extractVars (valoresPedidos encoding t id nombre) "audioName" =
      if t.rama = .audio then some (String.ofList t.idioma.toList) else none := by
  cases encoding <;> cases t <;> rfl

theorem extractVars_subName_pedido : extractVars (valoresPedidos encoding t id nombre) "subName" =
    if t.rama = .subtitulo then some (String.ofList t.idioma.toList) else none := by
  cases encoding <;> cases t <;> rfl

/-- **The handler looks for a file where it was written.** -/
theorem carpetaPedida_eq : carpetaPedida (extractVars (valoresPedidos encoding t id nombre)) =
    (encoding.elim "" fun codificacion => "/" ++ codificacion.nombre) ++ t.carpeta := by
  rw [carpetaPedida, extractVars_path_pedido, extractVars_audioName_pedido,
    extractVars_subName_pedido]
  cases encoding <;> cases t <;> simp [Pista.rama, Pista.idioma, Pista.carpeta]

/-- A name before a directory makes another directory. -/
theorem elim_append_eq_self_iff {path : Option String} {x : String} :
    path.elim "" ("/" ++ ·) ++ x = x ↔ path = none := by
  cases path with
  | none => simp
  | some v =>
    refine iff_of_false (fun h => ?_) (by simp)
    have hlen := congrArg String.length h
    have hbarra : "/".length = 1 := rfl
    simp only [Option.elim_some, String.length_append] at hlen
    omega

theorem elim_append_eq_empty_iff {path audioName subName : Option String} :
    path.elim "" ("/" ++ ·) ++
        audioName.elim (subName.elim "" ("/subtitulos/" ++ ·)) ("/audio/" ++ ·) = "" ↔
      path = none ∧ audioName = none ∧ subName = none := by
  cases path <;> cases audioName <;> cases subName <;> simp

theorem elim_append_eq_subtitulos_iff {path audioName : Option String} {l : String}
    (hl : '/' ∉ l.toList) :
    path.elim "" ("/" ++ ·) ++ audioName.elim ("/subtitulos/" ++ l) ("/audio/" ++ ·) =
        "/subtitulos/" ++ l ↔ path = none ∧ audioName = none := by
  cases audioName with
  | none => simpa using @elim_append_eq_self_iff path ("/subtitulos/" ++ l)
  | some v =>
    refine iff_of_false (fun h => ?_) (by simp)
    have hlist := congrArg String.toList h
    cases path with
    | none => simp at hlist
    | some u =>
      -- three slashes against two
      have hcount := congrArg (List.count '/') hlist
      simp [List.count_eq_zero_of_not_mem hl] at hcount
      omega

variable {t} in
/-- **It looks there whatever was read before**, unless that has a name
that the place of the file has not. -/
theorem carpetaPedida_append_iff (hidioma : '/' ∉ t.idioma.toList)
    (vs : List (List Char × List Char)) :
    carpetaPedida (extractVars (vs ++ valoresPedidos encoding t id nombre)) =
        (encoding.elim "" fun codificacion => "/" ++ codificacion.nombre) ++ t.carpeta ↔
      (encoding = none → "path".toList ∉ vs.map Prod.fst) ∧
        (t.rama ≠ .audio → "audioName".toList ∉ vs.map Prod.fst) ∧
        (t.rama = .raiz → "subName".toList ∉ vs.map Prod.fst) := by
  rw [carpetaPedida, extractVars_append vs, extractVars_append vs, extractVars_append vs,
    extractVars_path_pedido, extractVars_audioName_pedido, extractVars_subName_pedido,
    ← extractVars_eq_none_iff, ← extractVars_eq_none_iff, ← extractVars_eq_none_iff]
  generalize extractVars vs "path" = path
  generalize extractVars vs "audioName" = audioName
  generalize extractVars vs "subName" = subName
  -- the name of the encoding stands before both directories
  obtain ⟨path', hpath', heq⟩ : ∃ path' : Option String, (path' = none ↔ (encoding = none → path = none)) ∧
      ∀ x, ((encoding.map fun codificacion => String.ofList codificacion.nombre.toList).or path).elim ""
          (fun path => "/" ++ path) ++ x =
        (encoding.elim "" fun codificacion => "/" ++ codificacion.nombre) ++
          (path'.elim "" ("/" ++ ·) ++ x) := by
    cases encoding with
    | none => exact ⟨path, by simp, by simp⟩
    | some c => exact ⟨none, by simp, by simp⟩
  rw [heq, String.append_right_inj, ← hpath']
  cases t with
  | video | defecto =>
    simpa [Pista.rama, Pista.carpeta] using @elim_append_eq_empty_iff path' audioName subName
  | quemado b l | teletexto l =>
    simpa [Pista.rama, Pista.carpeta, Pista.idioma] using
      @elim_append_eq_subtitulos_iff path' audioName l hidioma
  | audio l =>
    simpa [Pista.rama, Pista.carpeta, Pista.idioma] using
      @elim_append_eq_self_iff path' ("/audio/" ++ l)

end Valores

/-- **The answer to a request for a file**, whatever was read before it. -/
theorem manejadorHLS_append (entorno : Entorno) (t : Pista) {nombre : String}
    (h : ext nombre ∈ [".m3u8", ".ts", ".mp4", ".vtt", ".m4s"]) (vs : List (List Char × List Char)) :
    ∃ contentType, manejadorHLS entorno configuration
        (extractVars (vs ++ valoresPedidos encoding t configuration.mediaId.toList nombre)) =
      .fichero (rutaHls configuration ++ carpetaPedida
        (extractVars (vs ++ valoresPedidos encoding t configuration.mediaId.toList nombre)) ++ "/" ++
          nombre) contentType := by
  have hmedia : extractVars (vs ++ valoresPedidos encoding t configuration.mediaId.toList nombre)
      "mediaId" = some configuration.mediaId := by
    rw [extractVars_append, extractVars_mediaId_pedido, String.ofList_toList]
    rfl
  have hfile : extractVars (vs ++ valoresPedidos encoding t configuration.mediaId.toList nombre)
      "filename" = some nombre := by
    rw [extractVars_append, extractVars_filename]
    rfl
  rw [manejadorHLS_eq hmedia hfile]
  exact servirFichero_media _ _ _ h

/-- **The request for a file is answered with that file.** -/
theorem manejadorHLS_pedido (entorno : Entorno) (t : Pista) {nombre : String}
    (h : ext nombre ∈ [".m3u8", ".ts", ".mp4", ".vtt", ".m4s"]) : ∃ contentType,
      manejadorHLS entorno configuration
          (extractVars (valoresPedidos encoding t configuration.mediaId.toList nombre)) =
        .fichero (codificacionPath configuration encoding ++ t.carpeta ++ "/" ++ nombre)
          contentType := by
  obtain ⟨contentType, hanswer⟩ :=
    @manejadorHLS_append configuration encoding entorno t nombre h []
  rw [List.nil_append, carpetaPedida_eq, ← String.append_assoc] at hanswer
  have hbase : rutaHls configuration ++
      (encoding.elim "" fun codificacion => "/" ++ codificacion.nombre) =
        codificacionPath configuration encoding := by
    cases encoding <;> simp [codificacionPath, String.append_assoc]
  exact ⟨contentType, hbase ▸ hanswer⟩

/-! ## The files that are reached -/

/-- The extensions of the files of a command. -/
def extensionesEscritas : List String := ["m3u8", "mp4", "ts", "m4s", "vtt"]

/-- The page is no file of a command. -/
theorem not_reads_reproductor {es : List Elem} (hes : es ∈ elementosReproductor) {e : String}
    (he : e ∈ extensionesEscritas) (a : List Char) {vs : List (List Char × List Char)} :
    ¬ Reads es (a ++ '.' :: e.toList) vs := by
  have hfin : ∀ e ∈ extensionesEscritas, ∀ x ∈ ["html", "js", "css", "png"],
      ¬ x.toList <:+ '.' :: e.toList ∧ ¬ '.' :: e.toList <:+ x.toList := by decide
  intro h
  have hx : ∃ x ∈ ["html", "js", "css", "png"], x.toList <:+ a ++ '.' :: e.toList := by
    obtain ⟨-, hhtml⟩ | ⟨x, hx, hsuf⟩ := reads_reproductor hes h
    · exact ⟨"html", by simp, hhtml⟩
    · exact ⟨x, List.mem_cons_of_mem _ hx, hsuf⟩
  obtain ⟨x, hx, hsuf⟩ := hx
  obtain hxe | hex := List.suffix_or_suffix_of_suffix hsuf (List.suffix_append a _)
  · exact (hfin e he x hx).1 hxe
  · exact (hfin e he x hx).2 hex

/-- The extensions are of files that are served, and have neither slash nor
dot. -/
theorem forma_extension : ∀ e ∈ extensionesEscritas, '/' ∉ e.toList ∧ '.' ∉ e.toList ∧
    "." ++ e ∈ [".m3u8", ".ts", ".mp4", ".vtt", ".m4s"] := by
  decide

section Alcance

variable (h : Enrutable configuration) (hmem : encoding ∈ caminos configuration.encodings)
  {t : Pista} (hidioma : '/' ∉ t.idioma.toList) {s e : String} (hs : '/' ∉ s.toList)
  (he : e ∈ extensionesEscritas)

include hs he in
theorem slash_notMem_nombre : '/' ∉ (s ++ "." ++ e).toList := by
  have hnombre : (s ++ "." ++ e).toList = s.toList ++ '.' :: e.toList := by simp
  rw [hnombre, List.mem_append, List.mem_cons, not_or, not_or]
  exact ⟨hs, by decide, (forma_extension e he).1⟩

include hidioma hs he in
/-- What the routes of the files read of the request for one. -/
theorem reads_peticion_iff {vs : List (List Char × List Char)} : (∃ es ∈ elementosHls,
      Reads es ('/' :: (uriDeFichero (t.relativa (s ++ "." ++ e))).toList) vs) ↔
    t.rama.Toma t.idioma.toList ∧ (∃ r ∈ t.rama.expresiones, r.Lang (s ++ "." ++ e).toList) ∧
      vs = t.rama.valores t.idioma.toList ++ [("filename".toList, (s ++ "." ++ e).toList)] := by
  rw [Pista.toList_uriDeFichero t (slash_notMem_nombre hs he)]
  exact reads_elementosHls_iff (fun _ => hidioma) (slash_notMem_nombre hs he)

include h hmem hidioma hs he in
/-- **Who answers the request for a file** whose language and name the
routes of its place take. -/
theorem route_peticion (htoma : t.rama.Toma t.idioma.toList)
    (hlang : ∃ r ∈ t.rama.expresiones, r.Lang (s ++ "." ++ e).toList) :
    route (rutas configuration compilePattern configuration.encodings) "GET"
        (peticion configuration encoding (t.relativa (s ++ "." ++ e))).toList =
      some (.hls, extractVars
        (valoresPedidos encoding t configuration.mediaId.toList (s ++ "." ++ e))) := by
  rw [toList_peticion]
  refine h.route_camino hmem ((reads_peticion_iff hidioma hs he).2 ⟨htoma, hlang, rfl⟩)
    fun m' es hes vs' hread => ?_
  cases m' with
  | hls => exact ⟨rfl, ((reads_peticion_iff hidioma hs he).1 ⟨es, hes, hread⟩).2.2⟩
  | paginaWebVideoPlayer =>
    have hnombre : pathOf (t.rama.partes t.idioma.toList) ++ '/' :: (s ++ "." ++ e).toList =
        (pathOf (t.rama.partes t.idioma.toList) ++ '/' :: s.toList) ++ '.' :: e.toList := by simp
    rw [Pista.toList_uriDeFichero t (slash_notMem_nombre hs he), hnombre] at hread
    exact absurd hread (not_reads_reproductor hes he _)

end Alcance

section Subpath

variable {compile : List Char → Option Pattern} (hcompile : Covers compile)
  (h : Nombrada configuration) (hmem : encoding ∈ caminos configuration.encodings)
  {t : Pista} (hidioma : '/' ∉ t.idioma.toList) {s e : String} (hs : '/' ∉ s.toList)
  (he : e ∈ extensionesEscritas)

include hidioma hs he in
/-- **The answer is the file**, whatever is read before it, unless that has
a name that the place of the file has not. -/
theorem manejadorHLS_append_iff (entorno : Entorno) (vs : List (List Char × List Char)) :
    (∃ contentType, manejadorHLS entorno configuration
        (extractVars (vs ++ valoresPedidos encoding t configuration.mediaId.toList (s ++ "." ++ e))) =
      .fichero (codificacionPath configuration encoding ++ "/" ++ t.relativa (s ++ "." ++ e))
        contentType) ↔
      (encoding = none → "path".toList ∉ vs.map Prod.fst) ∧
        (t.rama ≠ .audio → "audioName".toList ∉ vs.map Prod.fst) ∧
        (t.rama = .raiz → "subName".toList ∉ vs.map Prod.fst) := by
  obtain ⟨hbarra, hpunto, hext⟩ := forma_extension e he
  rw [← ext_append hs hbarra hpunto] at hext
  obtain ⟨contentType, hanswer⟩ := @manejadorHLS_append configuration encoding entorno t _ hext vs
  have hcamino : codificacionPath configuration encoding =
      rutaHls configuration ++ encoding.elim "" fun codificacion => "/" ++ codificacion.nombre := by
    cases encoding <;> simp [codificacionPath, String.append_assoc]
  rw [hanswer, ← carpetaPedida_append_iff encoding configuration.mediaId.toList (s ++ "." ++ e) hidioma,
    ← Pista.ruta_relativa, hcamino]
  simp only [Respuesta.fichero.injEq, exists_and_left, exists_eq', and_true, String.append_assoc,
    String.append_right_inj]
  simp only [← String.append_assoc, String.append_left_inj]

include h in
/-- Where a file is reached the subpath has an expression. -/
theorem exists_expresion_of_enSuDireccion {entorno : Entorno} {f : String}
    (halcanzado : EnSuDireccion compile configuration encoding entorno f) :
    ∃ r, newRouteRegexp compile (textoSubpath configuration) = .ok r := by
  obtain ⟨routes, fichero, vars, -, hroutes, -, hroute, -⟩ := halcanzado
  obtain rfl := eq_rutas_of_handlers hroutes
  obtain ⟨ruta, hruta, vs, hvs, -, -⟩ := exists_of_route hroute
  obtain ⟨encoding', hmem', m, es, hes, rfl⟩ := mem_rutas_iff.1 hruta
  exact exists_expresion h hmem' hes hvs

variable {r : List (Piece Var)}
  (hr : newRouteRegexp compile (textoSubpath configuration) = .ok r)
  (hu : TextoUnico configuration r
    (restoPeticion configuration encoding (t.relativa (s ++ "." ++ e))))

include hcompile h hmem hidioma hs he hr hu

/-- **What matches the request for a file**, where the subpath takes only
its own text: the routes of the files, with what the subpath takes before
the language and the name. -/
theorem matches_peticion {ruta : Route Manejador}
    (hruta : ruta ∈ rutas configuration compile configuration.encodings)
    {vs : List (List Char × List Char)}
    (hvs : vs ∈ ruta.matches (peticion configuration encoding (t.relativa (s ++ "." ++ e))).toList) :
    ruta.handler = .hls ∧ t.rama.Toma t.idioma.toList ∧
      (∃ r ∈ t.rama.expresiones, r.Lang (s ++ "." ++ e).toList) ∧
      ∃ vs₁, Takes r [] (textoSubpath configuration)
          (restoPeticion configuration encoding (t.relativa (s ++ "." ++ e))) vs₁ ∧
        vs = vs₁ ++ valoresPedidos encoding t configuration.mediaId.toList (s ++ "." ++ e) := by
  rw [toList_peticion_eq_append] at hvs
  obtain ⟨es, hes, vs₁, vs₂, ht, hread, rfl⟩ :=
    (hu.matches_iff hcompile h hmem hr).1 ⟨ruta, hruta, rfl, hvs⟩
  cases hm : ruta.handler with
  | hls =>
    rw [hm] at hes
    obtain ⟨htoma, hlang, rfl⟩ := (reads_peticion_iff hidioma hs he).1 ⟨es, hes, hread⟩
    exact ⟨rfl, htoma, hlang, vs₁, ht, rfl⟩
  | paginaWebVideoPlayer =>
    rw [hm] at hes
    have hnombre : pathOf (t.rama.partes t.idioma.toList) ++ '/' :: (s ++ "." ++ e).toList =
        (pathOf (t.rama.partes t.idioma.toList) ++ '/' :: s.toList) ++ '.' :: e.toList := by simp
    rw [Pista.toList_uriDeFichero t (slash_notMem_nombre hs he), hnombre] at hread
    exact absurd hread (not_reads_reproductor hes he _)

/-- A file that is reached lies in the directory of the encoding, and the
request for it is read as it is written. -/
theorem eq_of_enSuDireccion {entorno : Entorno} {base : String}
    (hbase : base.toList.count '/' = (codificacionPath configuration encoding).toList.count '/')
    (halcanzado : EnSuDireccion compile configuration encoding entorno
      (base ++ "/" ++ t.relativa (s ++ "." ++ e))) :
    base = codificacionPath configuration encoding ∧ t.rama.Toma t.idioma.toList ∧
      (∃ r ∈ t.rama.expresiones, r.Lang (s ++ "." ++ e).toList) ∧
      SubpathPropio compile configuration encoding t.rama
        (restoPeticion configuration encoding (t.relativa (s ++ "." ++ e))) r := by
  obtain ⟨routes, fichero, vars, contentType, hroutes, heq, hroute, hanswer⟩ := halcanzado
  obtain rfl := eq_rutas_of_handlers hroutes
  -- as many slashes stand before the file on both sides
  have hcut := congrArg String.toList heq
  simp only [String.toList_append, String.reduceToList, List.append_assoc, List.cons_append,
    List.nil_append] at hcut
  obtain ⟨hpath, hfichero⟩ := Text.append_cons_inj_of_count hbase hcut
  obtain rfl := String.toList_inj.1 hfichero
  obtain rfl := String.toList_inj.1 hpath
  obtain ⟨ruta, hruta, vs, hvs, -, rfl⟩ := exists_of_route hroute
  obtain ⟨-, htoma, hlang, vs₁, ht, rfl⟩ :=
    matches_peticion hcompile h hmem hidioma hs he hr hu hruta hvs
  obtain ⟨hp, ha, hsub⟩ := (manejadorHLS_append_iff hidioma hs he entorno vs₁).1 ⟨_, hanswer⟩
  exact ⟨rfl, htoma, hlang, hr, ⟨vs₁, ht⟩, hu, fun hnone => ht.notMem_map_fst.1 (hp hnone),
    fun hrama => ht.notMem_map_fst.1 (ha hrama), fun hrama => ht.notMem_map_fst.1 (hsub hrama)⟩

/-- A file of the encoding's directory is reached where the routes take the
request for it. -/
theorem enSuDireccion_of_propio (entorno : Entorno) (htoma : t.rama.Toma t.idioma.toList)
    (hlang : ∃ r ∈ t.rama.expresiones, r.Lang (s ++ "." ++ e).toList)
    (hpropio : SubpathPropio compile configuration encoding t.rama
      (restoPeticion configuration encoding (t.relativa (s ++ "." ++ e))) r) :
    EnSuDireccion compile configuration encoding entorno
      (codificacionPath configuration encoding ++ "/" ++ t.relativa (s ++ "." ++ e)) := by
  obtain ⟨vs, ht⟩ := hpropio.propio
  obtain ⟨es, hes, hread⟩ := (reads_peticion_iff hidioma hs he).2 ⟨htoma, hlang, rfl⟩
  obtain ⟨ruta, hruta, -, hvs⟩ := (hu.matches_iff hcompile h hmem hr (m := .hls)).2
    ⟨es, hes, vs, _, ht, hread, rfl⟩
  rw [← restoPeticion, ← toList_peticion_eq_append] at hvs
  have hmethod : "GET" ∈ ruta.methods := by
    obtain ⟨_, _, _, _, _, rfl⟩ := mem_rutas_iff.1 hruta
    exact List.mem_singleton_self _
  obtain ⟨m, vars, hroute⟩ := exists_route ⟨ruta, hruta, hmethod, List.ne_nil_of_mem hvs⟩
  -- the route that answers may be another one, but it reads the same file
  obtain ⟨ruta', hruta', vs', hvs', rfl, rfl⟩ := exists_of_route hroute
  obtain ⟨hm, -, -, vs₁, ht₁, rfl⟩ :=
    matches_peticion hcompile h hmem hidioma hs he hr hu hruta' hvs'
  rw [hm] at hroute
  obtain ⟨contentType, hanswer⟩ := (manejadorHLS_append_iff hidioma hs he entorno vs₁).2
    ⟨fun hnone => ht₁.notMem_map_fst.2 (hpropio.path hnone),
      fun hrama => ht₁.notMem_map_fst.2 (hpropio.audioName hrama),
      fun hrama => ht₁.notMem_map_fst.2 (hpropio.subName hrama)⟩
  exact ⟨_, _, _, contentType, handlers_subpath hcompile h hr, rfl, hroute, hanswer⟩

/-- **A file is reached exactly where** it lies in the directory of the
encoding, the routes of its place take its language and its name, and the
subpath is read as it is written. -/
theorem enSuDireccion_iff (entorno : Entorno) {base : String}
    (hbase : base.toList.count '/' = (codificacionPath configuration encoding).toList.count '/') :
    EnSuDireccion compile configuration encoding entorno
        (base ++ t.carpeta ++ "/" ++ s ++ "." ++ e) ↔
      base = codificacionPath configuration encoding ∧ t.rama.Toma t.idioma.toList ∧
        (∃ r ∈ t.rama.expresiones, r.Lang (s ++ "." ++ e).toList) ∧
        SubpathPropio compile configuration encoding t.rama
          (restoPeticion configuration encoding (t.relativa (s ++ "." ++ e))) r := by
  have hruta : base ++ t.carpeta ++ "/" ++ s ++ "." ++ e =
      base ++ "/" ++ t.relativa (s ++ "." ++ e) := by
    rw [← Pista.ruta_relativa]
    simp only [String.append_assoc]
  rw [hruta]
  constructor
  · exact eq_of_enSuDireccion hcompile h hmem hidioma hs he hr hu hbase
  · rintro ⟨rfl, htoma, hlang, hpropio⟩
    exact enSuDireccion_of_propio hcompile h hmem hidioma hs he hr hu entorno htoma hlang hpropio

end Subpath

/-! ## The names -/

open Regexp

/-- A bitrate as the command line gives it. -/
def EsBitrateCorto (b : String) : Prop := EsBitrate b ∧ b.length ≤ 5

theorem exists_lang_iff_accepts {rama : Rama} {w : List Char} :
    (∃ r ∈ rama.expresiones, r.Lang w) ↔ (rama.expresiones.any fun r => r.accepts w) = true := by
  simp only [List.any_eq_true, Re.accepts_iff]

theorem claseFilename_of_isDigit {c : Char} (hc : c.isDigit = true) : claseFilename.mem c = true := by
  simp only [Char.isDigit, ge_iff_le, Bool.and_eq_true, decide_eq_true_eq] at hc
  simp only [claseFilename, CharClass.mem, Char.le_def, List.any_cons, Bool.or_eq_true,
    Bool.and_eq_true, decide_eq_true_eq, Bool.false_bne]
  exact .inr (.inr (.inl hc))

namespace EsBitrateCorto

variable {b : String}

theorem lang_claseFilename (h : EsBitrateCorto b) {min : ℕ} (hmin : min ≤ 1) :
    (veces claseFilename min 20).Lang b.toList := by
  have hlen : 2 ≤ b.toList.length ∧ b.toList.length ≤ 5 := by
    rw [String.length_toList]
    exact ⟨h.1.1, h.2⟩
  refine Re.lang_rep_char.2 ⟨fun c hc => claseFilename_of_isDigit (h.1.isDigit hc), by omega, ?_⟩
  intro n hn
  obtain rfl := Option.some.inj hn
  omega

/-- A bitrate before the name of a subtitle, or none. -/
theorem lang_antesDeGuion (h : b = "" ∨ EsBitrateCorto b) :
    antesDeGuion.Lang (if b = "" then "" else b ++ "-").toList := by
  rw [antesDeGuion, opcional, Re.lang_opt]
  split
  · exact .inl rfl
  · rename_i hne
    have hb := h.resolve_left hne
    have hlen : 2 ≤ b.toList.length ∧ b.toList.length ≤ 5 := by
      rw [String.length_toList]
      exact ⟨hb.1.1, hb.2⟩
    refine .inr ⟨b.toList, ['-'], by simp, ?_, '-', by decide, rfl⟩
    refine Re.lang_rep_char.2 ⟨fun c hc => mem_digito.2 (hb.1.isDigit hc), hlen.1, ?_⟩
    intro n hn
    obtain rfl := Option.some.inj hn
    omega

end EsBitrateCorto

theorem Pista.ancho_le (t : Pista) : t.ancho ≤ 20 := by
  cases t <;> simp [Pista.ancho]

/-- Segments of both types are taken wherever they are. -/
theorem Rama.extension_mem (rama : Rama) (enc : String) :
    (if enc = "hevc" then "m4s" else "ts") ∈ rama.extensiones := by
  split <;> cases rama <;> decide

section Nombres

variable (hb : ∀ b ∈ bitratesDe encoding, EsBitrateCorto b) {t : Pista}
  (ht : t ∈ pistas programa encoding)

include hb ht

theorem bitrate_of_quemado {b l : String} (h : t = .quemado b l) : b = "" ∨ EsBitrateCorto b := by
  subst h
  obtain ⟨-, -, hmem | ⟨-, rfl⟩⟩ := quemado_mem_pistas.1 ht
  · exact .inr (hb b hmem)
  · exact .inl rfl

/-- **The playlist of a track is taken** in its place. -/
theorem exists_lang_lista : ∃ r ∈ t.rama.expresiones, r.Lang (t.lista ++ "." ++ "m3u8").toList := by
  cases t with
  | video b =>
    refine ⟨_, .head _, Re.lang_cat_append.2 ⟨b.toList, '.' :: "m3u8".toList, by simp [Pista.lista],
      (hb b (video_mem_pistas.1 ht)).lang_claseFilename (Nat.le_refl 1), ?_⟩⟩
    exact Re.accepts_iff.1 (by decide +kernel)
  | quemado b l =>
    refine ⟨_, .head _, Re.lang_cat_append.2 ⟨((if b = "" then "" else b ++ "-") ++ "subtitulo").toList,
      '.' :: "m3u8".toList, by simp [Pista.lista], ?_, Re.accepts_iff.1 (by decide +kernel)⟩⟩
    rw [String.toList_append]
    refine Re.lang_cat_cons.2 ⟨_, _, rfl,
      EsBitrateCorto.lang_antesDeGuion (bitrate_of_quemado hb ht rfl), ?_⟩
    exact Re.accepts_iff.1 (by decide +kernel)
  | defecto | audio l | teletexto l =>
    rw [Pista.rama, Pista.lista, exists_lang_iff_accepts]
    decide +kernel

/-- **What stands before the number of a segment is taken** in its
place. -/
theorem lang_prefijo_segmento : (Re.cat t.rama.prefijo).Lang t.segmento.toList := by
  cases t with
  | video b =>
    rw [Pista.segmento, String.toList_append]
    exact Re.lang_cat_cons.2 ⟨b.toList, "-segment-".toList, rfl,
      (hb b (video_mem_pistas.1 ht)).lang_claseFilename (Nat.zero_le 1),
      Re.accepts_iff.1 (by decide +kernel)⟩
  | quemado b l =>
    rw [Pista.segmento, String.toList_append]
    exact ⟨_, _, rfl, EsBitrateCorto.lang_antesDeGuion (bitrate_of_quemado hb ht rfl),
      Re.accepts_iff.1 (by decide +kernel)⟩
  | defecto | audio l | teletexto l =>
    rw [Pista.rama, Pista.segmento, ← Re.accepts_iff]
    decide +kernel

/-- **The names of a track's files are taken** in its place, but for long
numbers and the `init.mp4` of a subtitle. -/
theorem exists_lang_iff {enc : String} {k : Option ℕ} {s e : String} (h : t.Nombra enc k s e) :
    (∃ r ∈ t.rama.expresiones, r.Lang (s ++ "." ++ e).toList) ↔
      (∀ n ∈ k, n < 10 ^ 20) ∧ (t.rama = .subtitulo → e ≠ "mp4") := by
  have hchars := esNombre_of_mem_pistas (fun b hb' => (hb b hb').1) ht
  -- a segment: what stands before its number, the number, and its extension
  have hnumerada {u : String} (hu : Text.Fenced (fun c : Char => c.isDigit = true) u.toList.reverse)
      (hpunto : '.' ∉ u.toList) (hpre : (Re.cat t.rama.prefijo).Lang u.toList) {ancho : ℕ}
      (hancho : ancho ≤ 20) (n : ℕ) {ext : String} (hext : ext ∈ t.rama.extensiones) :
      (∃ r ∈ t.rama.expresiones, r.Lang (u ++ .ofList (Text.pad ancho n) ++ "." ++ ext).toList) ↔
        n < 10 ^ 20 := by
    have heq : (u ++ .ofList (Text.pad ancho n) ++ "." ++ ext).toList =
        u.toList ++ Text.pad ancho n ++ '.' :: ext.toList := by simp
    rw [heq, Rama.exists_lang_iff_numerada hext, Rama.lang_numerada_iff hu hpunto hancho hext]
    exact and_iff_right hpre
  cases h with
  | lista => simpa using exists_lang_lista hb ht
  | listaVtt hvtt =>
    have hlang : ∃ r ∈ t.rama.expresiones, r.Lang (t.lista ++ "_vtt" ++ "." ++ "m3u8").toList := by
      cases t <;> cases hvtt
      rw [Pista.rama, Pista.lista, exists_lang_iff_accepts]
      decide +kernel
    simpa using hlang
  | inicial =>
    rw [exists_lang_iff_accepts]
    cases hr : t.rama with
    | raiz | audio => exact iff_of_true (by decide +kernel) ⟨by simp, by simp⟩
    | subtitulo => exact iff_of_false (by decide +kernel) fun h => h.2 rfl rfl
  | segmento n =>
    rw [hnumerada (Pista.fenced_segmento t) (not_mem_of_esNombre hchars.2 (by decide))
      (lang_prefijo_segmento hb ht) t.ancho_le n (t.rama.extension_mem _)]
    have hne : (if enc = "hevc" then "m4s" else "ts") ≠ "mp4" := by split <;> decide
    simp [hne]
  | segmentoVtt hvtt n =>
    cases t <;> cases hvtt
    have hlista : (Re.cat Rama.subtitulo.prefijo).Lang "subtitulo".toList :=
      Re.accepts_iff.1 (by decide +kernel)
    rw [hnumerada (by simp [Pista.lista, Text.fenced_cons]) (not_mem_of_esNombre hchars.1 (by decide))
      hlista (Nat.zero_le _) n (by simp [Pista.rama, Rama.extensiones])]
    simp

end Nombres

/-! ## The languages -/

/-- **The languages that the routes take**: of two to twenty characters,
which are lower case letters and, for an audio stream, digits and
underscores, for a subtitle, commas. -/
def Pista.IdiomaServido : Pista → Prop
  | video _ | defecto => True
  | quemado _ language | teletexto language => (2 ≤ language.length ∧ language.length ≤ 20) ∧
      ∀ c ∈ language.toList, c.isLower = true ∨ c = ','
  | audio language => (2 ≤ language.length ∧ language.length ≤ 20) ∧
      ∀ c ∈ language.toList, c.isLower = true ∨ c.isDigit = true ∨ c = '_'

theorem lang_veces_iff {k : CharClass} {s : String} :
    (veces k 2 20).Lang s.toList ↔
      (2 ≤ s.length ∧ s.length ≤ 20) ∧ ∀ c ∈ s.toList, k.mem c = true := by
  rw [veces, Re.lang_rep_char, String.length_toList, and_comm]
  simp

theorem le_le_iff {c d : Char} : d ≤ c ∧ c ≤ d ↔ c = d :=
  ⟨fun h => Char.le_antisymm h.2 h.1, fun h => h ▸ ⟨Char.le_refl _, Char.le_refl _⟩⟩

theorem isLower_iff_le {c : Char} : c.isLower = true ↔ 'a' ≤ c ∧ c ≤ 'z' := by
  unfold Char.isLower
  simp only [ge_iff_le, Bool.and_eq_true, decide_eq_true_eq, Char.le_def]

theorem isDigit_iff_le {c : Char} : c.isDigit = true ↔ '0' ≤ c ∧ c ≤ '9' := by
  unfold Char.isDigit
  simp only [ge_iff_le, Bool.and_eq_true, decide_eq_true_eq, Char.le_def]

theorem mem_claseSubName {c : Char} : claseSubName.mem c = true ↔ c.isLower = true ∨ c = ',' := by
  simp only [claseSubName, CharClass.mem, List.any_cons, List.any_nil, Bool.or_false, Bool.false_bne,
    Bool.or_eq_true, Bool.and_eq_true, decide_eq_true_eq, le_le_iff, isLower_iff_le]

theorem mem_claseAudioName {c : Char} (hc : esDeIdioma c = true) :
    claseAudioName.mem c = true ↔ c.isLower = true ∨ c.isDigit = true ∨ c = '_' := by
  have hbarra : c ≠ '|' := by
    rintro rfl
    exact absurd hc (by decide)
  simp only [claseAudioName, CharClass.mem, List.any_cons, List.any_nil, Bool.or_false,
    Bool.false_bne, Bool.or_eq_true, Bool.and_eq_true, decide_eq_true_eq, le_le_iff, isLower_iff_le,
    isDigit_iff_le, hbarra, false_or]
  exact or_congr_right or_comm

/-- **The languages taken are those.** -/
theorem toma_iff {t : Pista} (h : t.nombres = [] ∨ EsIdioma t.idioma) :
    t.rama.Toma t.idioma.toList ↔ t.IdiomaServido := by
  cases t with
  | video | defecto => exact iff_of_true nofun trivial
  | quemado b l | teletexto l =>
    simp only [Pista.rama, Rama.Toma, Rama.idioma, Option.mem_def, Option.some.injEq, forall_eq',
      Pista.idioma, Pista.IdiomaServido, lang_veces_iff, mem_claseSubName]
  | audio l =>
    have hl := h.resolve_left (by simp [Pista.nombres])
    simp only [Pista.rama, Rama.Toma, Rama.idioma, Option.mem_def, Option.some.injEq, forall_eq',
      Pista.idioma, Pista.IdiomaServido, lang_veces_iff]
    refine and_congr_right fun _ => forall₂_congr fun c hc => mem_claseAudioName ?_
    exact List.all_eq_true.1 hl.chars c hc

/-! ## When a file is reached -/

/-- **The files that the routes serve**, by the directory with the variant
in it, the track, the number and the extension. -/
structure Servible (path dir : String) (t : Pista) (k : Option ℕ) (e : String) : Prop where
  ruta : numerado k dir = path
  numero : ∀ n ∈ k, n < 10 ^ 20
  idioma : t.IdiomaServido
  inicial : t.rama = .subtitulo → e ≠ "mp4"

theorem extension_of_nombra {enc : String} {t : Pista} {k : Option ℕ} {s e : String}
    (h : t.Nombra enc k s e) : e ∈ extensionesEscritas := by
  cases h with
  | lista | listaVtt | inicial | segmentoVtt => decide
  | segmento n => split <;> decide

section Servido

variable (compile : List Char → Option Pattern) (configuration : Config) (programa : Programa)
  (encoding : Option Codificacion)

/-- **A file that is reached**: the routes serve it, and the subpath is read
as it is written in the request for it. -/
def Servido (f : String) : Prop :=
  ∃ t ∈ pistas programa encoding, ∃ dir ∈ formatName (codificacionPath configuration encoding),
    ∃ k s e, t.Nombra (codificacionNombre programa encoding) k s e ∧
      f = numerado k dir ++ t.carpeta ++ "/" ++ s ++ "." ++ e ∧
      Servible (codificacionPath configuration encoding) dir t k e ∧
      ∃ r, SubpathPropio compile configuration encoding t.rama
        (restoPeticion configuration encoding (t.relativa (s ++ "." ++ e))) r

end Servido

/-- **When the file of a track is reached**, where the subpath takes only
its own text. -/
theorem enSuDireccion_nombra_iff {compile : List Char → Option Pattern} (hcompile : Covers compile)
    (h : Nombrada configuration) (hmem : encoding ∈ caminos configuration.encodings)
    (entorno : Entorno) (hP : programa.ConIdiomas) (hb : ∀ b ∈ bitratesDe encoding, EsBitrateCorto b)
    {t : Pista} (ht : t ∈ pistas programa encoding) {enc : String} {k : Option ℕ} {s e : String}
    (hn : t.Nombra enc k s e) {dir : String}
    (hdir : dir ∈ formatName (codificacionPath configuration encoding)) {r : List (Piece Var)}
    (hr : newRouteRegexp compile (textoSubpath configuration) = .ok r)
    (hu : TextoUnico configuration r
      (restoPeticion configuration encoding (t.relativa (s ++ "." ++ e)))) :
    EnSuDireccion compile configuration encoding entorno
        (numerado k dir ++ t.carpeta ++ "/" ++ s ++ "." ++ e) ↔
      Servible (codificacionPath configuration encoding) dir t k e ∧
        SubpathPropio compile configuration encoding t.rama
          (restoPeticion configuration encoding (t.relativa (s ++ "." ++ e))) r := by
  have hchars := esNombre_of_mem_pistas (fun b hb' => (hb b hb').1) ht
  rw [enSuDireccion_iff hcompile h hmem (not_mem_idioma hP ht (by decide))
      (Pista.nombra_chars hchars hn).1 (extension_of_nombra hn) hr hu entorno
      ((count_numerado k dir).trans (count_formatName hdir)),
    toma_iff (esIdioma_of_mem_pistas hP ht), exists_lang_iff hb ht hn]
  constructor
  · rintro ⟨hruta, hidioma, ⟨hnumero, hinicial⟩, hpropio⟩
    exact ⟨⟨hruta, hnumero, hidioma, hinicial⟩, hpropio⟩
  · rintro ⟨hs, hpropio⟩
    exact ⟨hs.ruta, hs.idioma, ⟨hs.numero, hs.inicial⟩, hpropio⟩

open FileTree in
/-- **Behind a subpath that is a name** the router takes the request for a
file as it is. -/
theorem serveHTTP_peticion (h : Enrutable configuration)
    (hmem : encoding ∈ caminos configuration.encodings) (hsub : IsName configuration.urlSubpath.toList)
    (hP : programa.ConIdiomas) (hb : ∀ b ∈ bitratesDe encoding, EsBitrateCorto b) {t : Pista}
    (ht : t ∈ pistas programa encoding) {enc : String} {k : Option ℕ} {s e : String}
    (hn : t.Nombra enc k s e) {routes : List (Route Manejador)} {vars : String → Option String} :
    serveHTTP routes "GET" (peticion configuration encoding (t.relativa (s ++ "." ++ e))).toList =
        .handle .hls vars ↔
      route routes "GET" (peticion configuration encoding (t.relativa (s ++ "." ++ e))).toList =
        some (.hls, vars) := by
  have hchars := esNombre_of_mem_pistas (fun b hb' => (hb b hb').1) ht
  have hnombre := Pista.isName_of_nombra hchars hn
  have hcamino : ∀ p ∈ partesCamino configuration encoding configuration.mediaId.toList, IsName p := by
    rw [partesCamino, List.forall_mem_append, List.forall_mem_cons, List.forall_mem_singleton]
    refine ⟨⟨hsub, isName_of_isPlain h.mediaId_ne fun c hc => .inl ?_⟩, ?_⟩
    · simp [Char.isAlphanum, h.mediaId c hc]
    · cases encoding with
      | none => exact List.forall_mem_nil _
      | some c =>
        rw [partesNombre, List.forall_mem_singleton]
        exact isName_of_isPlain (by simpa using (h.nombre hmem c rfl).1) (h.nombre hmem c rfl).2
  have hpartes : ∀ p ∈ t.rama.partes t.idioma.toList, IsName p := by
    have hidioma := esIdioma_of_mem_pistas hP ht
    cases t with
    | video | defecto => exact List.forall_mem_nil _
    | quemado b l | teletexto l =>
      have hl := isName_of_esIdioma (hidioma.resolve_left (by simp [Pista.nombres]))
      exact List.forall_mem_cons.2 ⟨by decide, List.forall_mem_singleton.2 hl⟩
    | audio l =>
      have hl := isName_of_esIdioma (hidioma.resolve_left (by simp [Pista.nombres]))
      exact List.forall_mem_cons.2 ⟨by decide, List.forall_mem_singleton.2 hl⟩
  have hruta : (peticion configuration encoding (t.relativa (s ++ "." ++ e))).toList =
      pathOf (partesCamino configuration encoding configuration.mediaId.toList ++
        (t.rama.partes t.idioma.toList ++ [(s ++ "." ++ e).toList])) := by
    rw [toList_peticion, Pista.toList_uriDeFichero t hnombre.noSlash, pathOf_append, pathOf_append]
    simp [pathOf]
  -- the parts of the path are names, so there is nothing to clean
  rw [serveHTTP_eq_handle, and_iff_right]
  rw [hruta]
  refine cleanPath_pathOf (by simp) ?_
  rw [List.forall_mem_append, List.forall_mem_append, List.forall_mem_singleton]
  exact ⟨hcamino, hpartes, hnombre⟩

/-- The configuration of a command line. -/
theorem nombrada_of_obtenerArgumentos {youtubeDl : String → Option String} {flags : Flags}
    (hc : obtenerArgumentos youtubeDl flags = some (true, configuration))
    (hnombres : ∀ c ∈ configuration.encodings, EsNombre c.nombre) : Nombrada configuration := by
  obtain ⟨input, ms, -, -, rfl⟩ := obtenerArgumentos_accepted hc
  exact ⟨generarIdentificador_ne_nil _, fun c hc => isDigit_of_mem_generarIdentificador hc, hnombres⟩

/-- The bitrates of a command that is built. -/
theorem esBitrateCorto_of_comando {youtubeDl : String → Option String} {flags : Flags}
    (hc : obtenerArgumentos youtubeDl flags = some (true, configuration))
    {i : Fin (encodingsNumber configuration)}
    (hcons : Construible programa (codificacionDeIndice configuration i)) :
    ∀ b ∈ bitratesDe (codificacionDeIndice configuration i), EsBitrateCorto b := by
  intro b hb
  cases hcod : codificacionDeIndice configuration i with
  | none => simp [hcod, bitratesDe] at hb
  | some codificacion =>
    have hcap := hcons.1 b hb
    rw [hcod] at hb
    obtain ⟨hlen, hdigits⟩ :=
      bitrates_of_mem_encodings hc (mem_encodings_of_codificacionDeIndice hcod) hb
    exact ⟨esBitrate_of_isSome (List.all_eq_true.2 hdigits) hcap, hlen⟩

/-- A command line with one encoding of fmp4 segments. -/
def flagsHevc : Flags := { i := "entrada.ts", cv := ["hevc:2800"] }

def configuracionHevc : Config :=
  configuracionDe flagsHevc "entrada.ts" [⟨"hevc", ["2800"]⟩] false

theorem obtenerArgumentos_flagsHevc :
    obtenerArgumentos (fun _ => none) flagsHevc = some (true, configuracionHevc) := by
  decide +kernel

/-- A program with an audio stream and a subtitle. -/
def programaHevc : Programa :=
  { (default : Programa) with
    audio := [{ (default : Stream) with language := "spa_257" }]
    subtitulos := [{ (default : Stream) with language := "spa" }] }

theorem conIdiomas_programaHevc : programaHevc.ConIdiomas := by
  intro elem helem
  simp only [programaHevc, List.cons_append, List.nil_append, List.mem_cons, List.not_mem_nil,
    or_false] at helem
  obtain rfl | rfl := helem <;> exact ⟨by decide, by decide⟩

theorem construible_programaHevc : Construible programaHevc (some ⟨"hevc", ["2800"]⟩) :=
  ⟨by decide, by decide⟩

end HlsXcoder
