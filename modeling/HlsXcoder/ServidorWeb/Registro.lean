import HlsXcoder.Codificacion.Salidas
import HlsXcoder.Lib.MuxRegexp
import HlsXcoder.ServidorWeb.Rutas

/-!
# The routes that are registered

The templates of the server are made of elements: those of the path of an
encoding, and behind them those of a handler. The routes are those of all
these templates, and of no others (`eq_rutas_of_handlers`). They are all
registered unless a template stops the program (`handlers_eq_rutas`).
-/

namespace HlsXcoder

open Mux

/-! ## The paths of the encodings -/

/-- Who the routes are for: each encoding, or the copy mode. -/
def caminos (encodings : List Codificacion) : List (Option Codificacion) :=
  if encodings = [] then [none] else encodings.map some

/-- What an encoding adds to the path. -/
def rutaDe : Option Codificacion → String
  | none => ""
  | some codificacion => "/\x7bpath:" ++ codificacion.nombre ++ "\x7d"

def elementosNombre : Option Codificacion → List Elem
  | none => []
  | some codificacion => [.var ("path:".toList ++ codificacion.nombre.toList)]

/-- The elements of the path of an encoding. -/
def elementosCamino (configuration : Config) (encoding : Option Codificacion) : List Elem :=
  [.word configuration.urlSubpath.toList, .var "mediaId:[0-9|a-z|-]+".toList] ++
    elementosNombre encoding

theorem rutasDe_eq (encodings : List Codificacion) :
    rutasDe encodings = (caminos encodings).map rutaDe := by
  rw [rutasDe, caminos]
  split
  · rfl
  · rw [List.map_map]
    rfl

theorem finalPath_eq (configuration : Config) (encoding : Option Codificacion) :
    (finalPath configuration (rutaDe encoding)).toList =
      template (elementosCamino configuration encoding) := by
  cases encoding <;> simp [finalPath, rutaDe, elementosCamino, elementosNombre, template, Elem.text]

/-- The path of an encoding is cut into its elements where the subpath has
no braces and those of the name balance. -/
theorem balanced_elementosCamino {configuration : Config} (encoding : Option Codificacion)
    (ho : '{' ∉ configuration.urlSubpath.toList) (hc : '}' ∉ configuration.urlSubpath.toList)
    (hnombre : ∀ c ∈ encoding, depth 0 c.nombre.toList = some 0) :
    ∀ e ∈ elementosCamino configuration encoding, e.Balanced := by
  rw [elementosCamino, List.forall_mem_append, List.forall_mem_cons, List.forall_mem_singleton]
  refine ⟨⟨.word ho hc, .var (by decide)⟩, ?_⟩
  cases encoding with
  | none => simp [elementosNombre]
  | some c =>
    rw [elementosNombre, List.forall_mem_singleton]
    have hpath : depth 0 "path:".toList = some 0 := by decide
    refine .var ?_
    rw [depth_append, hpath]
    exact hnombre c rfl

/-! ## The templates -/

/-- The elements that the templates of the files of a stream add to their
path. -/
def elementosHls : List (List Elem) :=
  let var (s : String) : Elem := .var s.toList
  let subtitulo : List Elem := [.word "subtitulo".toList, var "subName:(?:[a-z,]{2,20})"]
  let audio : List Elem := [.word "audio".toList, var "audioName:(?:[a-z|_|0-9]{2,20})"]
  [[var "filename:[a-z|0-9]{1,20}.m3u8"],
    [var "filename:[a-z|0-9]{0,20}(?:-)?segment-[0-9]{1,20}.(?:ts|m4s)"],
    [var "filename:(?:init.mp4)"],
    subtitulo ++ [var "filename:(?:(?:[0-9]{2,15}-)?subtitulo(?:_vtt)?.m3u8)"],
    subtitulo ++ [var "filename:(?:(?:[0-9]{2,15}-)?[a-z,]{2,20})[0-9]{1,20}.(?:ts|m4s|vtt)"],
    audio ++ [var "filename:(?:audio.m3u8)"],
    audio ++ [var "filename:(?:audio)[0-9]{1,20}[.].{1,10}"],
    audio ++ [var "filename:(?:init.mp4)"]]

/-- The elements that the templates of the player add. -/
def elementosReproductor : List (List Elem) :=
  let var (s : String) : Elem := .var s.toList
  [[var "html:(?:index.html)"], [var "resources:(?:.{2,100}[.](?:js|css|png))"]]

theorem plantillasHls_eq (path : String) : (plantillasHls path).map String.toList =
    elementosHls.map fun es => path.toList ++ template es := by
  simp [plantillasHls, elementosHls, maxcharsize, template, Elem.text]

theorem plantillasReproductor_eq (path : String) : (plantillasReproductor path).map String.toList =
    elementosReproductor.map fun es => path.toList ++ template es := by
  simp [plantillasReproductor, elementosReproductor, template, Elem.text]

theorem balanced_elementosHls : ∀ es ∈ elementosHls, ∀ e ∈ es, e.Balanced := by
  decide +kernel

theorem balanced_elementosReproductor : ∀ es ∈ elementosReproductor, ∀ e ∈ es, e.Balanced := by
  decide +kernel

/-- The elements a handler's templates add to their path. -/
def Manejador.elementos : Manejador → List (List Elem)
  | hls => elementosHls
  | paginaWebVideoPlayer => elementosReproductor

theorem Manejador.balanced : ∀ (m : Manejador), ∀ es ∈ m.elementos, ∀ e ∈ es, e.Balanced
  | hls => balanced_elementosHls
  | paginaWebVideoPlayer => balanced_elementosReproductor

/-! ## The patterns -/

theorem Manejador.compiles (m : Manejador) : ∀ es ∈ m.elementos, ∀ e ∈ es, e.compiles = true := by
  cases m <;> decide +kernel

/-- A name of letters, digits and underscores. -/
def EsNombre (nombre : String) : Prop := nombre ≠ "" ∧ ∀ c ∈ nombre.toList, Regexp.IsPlain c

instance : DecidablePred EsNombre := fun nombre =>
  decidable_of_iff (nombre ≠ "" ∧ (nombre.toList.all fun c => decide (Regexp.IsPlain c)) = true)
    (and_congr_right fun _ => by simp)

/-- The pattern of the identifiers, of digits, letters and dashes. -/
def claseMediaId : Regexp.CharClass :=
  ⟨false, [('0', '9'), ('|', '|'), ('a', 'z'), ('|', '|'), ('-', '-')]⟩

theorem compile_mediaId : Regexp.compile "[0-9|a-z|-]+".toList =
    some (.rep (.char claseMediaId) 1 none true) := by
  decide +kernel

theorem nameAndPattern_mediaId : nameAndPattern "mediaId:[0-9|a-z|-]+".toList =
    ("mediaId".toList, "[0-9|a-z|-]+".toList) := by
  decide +kernel

theorem nameAndPattern_path (nombre : List Char) :
    nameAndPattern ("path:".toList ++ nombre) = ("path".toList, nombre) := by
  have hpath : "path:".toList ++ nombre = 'p' :: 'a' :: 't' :: 'h' :: ':' :: nombre := rfl
  rw [hpath]
  rfl

theorem compiles_elementosCamino {configuration : Config} {encoding : Option Codificacion}
    (hnombre : ∀ c ∈ encoding, EsNombre c.nombre) :
    ∀ e ∈ elementosCamino configuration encoding, e.compiles = true := by
  rw [elementosCamino, List.forall_mem_append, List.forall_mem_cons, List.forall_mem_singleton]
  refine ⟨⟨rfl, by decide +kernel⟩, ?_⟩
  cases encoding with
  | none => simp [elementosNombre]
  | some c =>
    obtain ⟨hne, hplain⟩ := hnombre c rfl
    rw [elementosNombre, List.forall_mem_singleton, Elem.compiles, nameAndPattern_path,
      Regexp.compile_plain hplain]
    simp [hne]

/-- **A template behind a name has an expression**, where the subpath has
no braces. -/
theorem newRouteRegexp_plantilla {configuration : Config} {encoding : Option Codificacion}
    (ho : '{' ∉ configuration.urlSubpath.toList) (hc : '}' ∉ configuration.urlSubpath.toList)
    (hnombre : ∀ c ∈ encoding, EsNombre c.nombre) {m : Manejador} {es : List Elem}
    (hes : es ∈ m.elementos) : ∃ r,
      newRouteRegexp compilePattern (template (elementosCamino configuration encoding ++ es)) = .ok r ∧
        newVars compilePattern (pieces [] (elementosCamino configuration encoding ++ es)) = .ok r := by
  refine newRouteRegexp_template (List.forall_mem_append.2 ⟨?_, m.balanced es hes⟩)
    (List.forall_mem_append.2 ⟨compiles_elementosCamino hnombre, m.compiles es hes⟩)
  refine balanced_elementosCamino encoding ho hc fun c hc => depth_of_not_mem ?_ ?_ 0
  · exact fun hbrace => absurd ((hnombre c hc).2 _ hbrace) (by decide)
  · exact fun hbrace => absurd ((hnombre c hc).2 _ hbrace) (by decide)

/-! ## The routes -/

/-- The templates of a handler. -/
def Manejador.plantillas : Manejador → String → List String
  | hls => plantillasHls
  | paginaWebVideoPlayer => plantillasReproductor

theorem Manejador.plantillas_eq (m : Manejador) (path : String) :
    (m.plantillas path).map String.toList = m.elementos.map fun es => path.toList ++ template es := by
  cases m with
  | hls => exact plantillasHls_eq path
  | paginaWebVideoPlayer => exact plantillasReproductor_eq path

section Rutas

variable (configuration : Config) (compile : List Char → Option Pattern)
  (encodings : List Codificacion)

/-- The route of a handler behind a template. -/
def rutaDePlantilla (m : Manejador) (tpl : List Char) : Route Manejador :=
  ⟨(newRouteRegexp compile tpl).toOption, ["GET"], m⟩

/-- The routes behind the path of an encoding. -/
def rutasDeCamino (encoding : Option Codificacion) : List (Route Manejador) :=
  [Manejador.hls, .paginaWebVideoPlayer].flatMap fun m => m.elementos.map fun es =>
    rutaDePlantilla compile m (template (elementosCamino configuration encoding ++ es))

/-- The routes of all templates. -/
def rutas : List (Route Manejador) :=
  (caminos encodings).flatMap (rutasDeCamino configuration compile)

variable {configuration compile encodings} {routes : List (Route Manejador)} {r : Route Manejador}

theorem mem_rutas_iff : r ∈ rutas configuration compile encodings ↔
    ∃ encoding ∈ caminos encodings, ∃ m : Manejador, ∃ es ∈ m.elementos,
      r = rutaDePlantilla compile m (template (elementosCamino configuration encoding ++ es)) := by
  have hm (m : Manejador) : m ∈ [Manejador.hls, .paginaWebVideoPlayer] := by cases m <;> simp
  simp only [rutas, rutasDeCamino, List.mem_flatMap, List.mem_map, hm, true_and, eq_comm]

theorem map_plantillas (m : Manejador) (encoding : Option Codificacion) :
    ((m.plantillas (finalPath configuration (rutaDe encoding))).map fun tpl =>
      rutaDePlantilla compile m tpl.toList) = m.elementos.map fun es =>
        rutaDePlantilla compile m (template (elementosCamino configuration encoding ++ es)) := by
  have hmap := congrArg (List.map (rutaDePlantilla compile m))
    (m.plantillas_eq (finalPath configuration (rutaDe encoding)))
  simpa only [List.map_map, Function.comp_def, finalPath_eq, ← template_append] using hmap

theorem eq_rutas_of_anhadirRutas {encoding : Option Codificacion} {rs : List (Route Manejador)}
    (h : anhadirRutas configuration compile (rutaDe encoding) = some rs) :
    rs = rutasDeCamino configuration compile encoding := by
  simp only [anhadirRutas, Option.bind_eq_bind, Option.bind_eq_some_iff, Option.some.injEq] at h
  obtain ⟨hls, hhls, reproductor, hreproductor, rfl⟩ := h
  rw [eq_map_of_mapM (fun _ _ _ h => handleFunc_eq_some h) hhls,
    eq_map_of_mapM (fun _ _ _ h => handleFunc_eq_some h) hreproductor]
  exact congrArg₂ (· ++ ·) (map_plantillas .hls encoding)
    ((map_plantillas .paginaWebVideoPlayer encoding).trans (List.append_nil _).symm)

/-- **The routes of the server are those of its templates.** -/
theorem eq_rutas_of_handlers (h : handlers configuration compile encodings = some routes) :
    routes = rutas configuration compile encodings := by
  simp only [handlers, Option.bind_eq_bind, Option.bind_eq_some_iff, Option.some.injEq] at h
  obtain ⟨rss, hrss, rfl⟩ := h
  rw [rutasDe_eq, List.mapM_map] at hrss
  rw [eq_map_of_mapM (fun _ _ _ h => eq_rutas_of_anhadirRutas h) hrss, rutas, List.flatMap_def]

/-- **All of them are registered** where no template has groups of its
own. -/
theorem handlers_eq_rutas (h : ∀ encoding ∈ caminos encodings, ∀ m : Manejador, ∀ es ∈ m.elementos,
    newRouteRegexp compile (template (elementosCamino configuration encoding ++ es)) ≠
      .error .captures) :
    handlers configuration compile encodings = some (rutas configuration compile encodings) := by
  have hm (encoding) (he : encoding ∈ caminos encodings) (m : Manejador) :
      (m.plantillas (finalPath configuration (rutaDe encoding))).mapM
        (fun tpl => handleFunc compile tpl m ["GET"]) =
          some (m.elementos.map fun es =>
            rutaDePlantilla compile m (template (elementosCamino configuration encoding ++ es))) := by
    rw [mapM_eq_some (g := fun tpl => rutaDePlantilla compile m tpl.toList), map_plantillas]
    intro tpl htpl
    have hmem := List.mem_map_of_mem (f := String.toList) htpl
    rw [m.plantillas_eq, List.mem_map] at hmem
    obtain ⟨es, hes, heq⟩ := hmem
    rw [finalPath_eq, ← template_append] at heq
    exact handleFunc_of_ne (heq ▸ h encoding he m es hes)
  have hcamino (encoding) (he : encoding ∈ caminos encodings) :
      anhadirRutas configuration compile (rutaDe encoding) =
        some (rutasDeCamino configuration compile encoding) := by
    have hhls := hm encoding he .hls
    have hreproductor := hm encoding he .paginaWebVideoPlayer
    simp only [Manejador.plantillas] at hhls hreproductor
    simp [anhadirRutas, anhadirRutasHls, anhadirRutasReproductor, hhls, hreproductor, rutasDeCamino]
  have hcaminos : ((caminos encodings).map rutaDe).mapM (anhadirRutas configuration compile) =
      some ((caminos encodings).map (rutasDeCamino configuration compile)) := by
    rw [List.mapM_map]
    exact mapM_eq_some hcamino
  rw [handlers, rutasDe_eq, hcaminos, Option.bind_eq_bind, Option.bind_some, rutas, List.flatMap_def]

end Rutas

end HlsXcoder
