import HlsXcoder.Codificacion.Programa
import HlsXcoder.Configuracion
import HlsXcoder.Lib.Mux
import Mathlib.Data.List.TakeWhile

/-!
# The web server

The routes of the server and the two handlers behind them: `manejadorHLS`
serves the files of a stream, `manejadorPaginaWebVideoPlayer` the page of
the player and its resources. A handler reads the variables of the route
that matched and answers with a file, a page or an error.

The name of an encoding and the subpath of the URLs go into the templates
of the routes as they are, so braces in them are read as variables.

The MIME table and the templates on disk are not the server's own: they
are an `Entorno`.
-/

namespace HlsXcoder

open Mux

/-- What the server finds around it: the MIME types by extension, and
whether a page can be read as a template. -/
structure Entorno where
  typeByExtension : String → String
  parseFiles : String → Bool

/-- What the page of the player is filled in with. -/
structure FormatoDePagina where
  hlsUrl : String
  vumeter : String
  rWidth : String
  rHeight : String
  deriving DecidableEq, Repr

inductive Respuesta where
  | fichero (mediaFile contentType : String)
  | pagina (data : FormatoDePagina)
  | notFound
  | vacia
  | panic
  deriving DecidableEq, Repr

/-- The extension of a file name: its last element from the last dot
on. -/
def ext (filename : String) : String :=
  let elemento := filename.toList.reverse.takeWhile (· ≠ '/')
  if '.' ∈ elemento then String.ofList ('.' :: (elemento.takeWhile (· ≠ '.')).reverse) else ""

/-- Serves a file. Where the MIME table knows the extension the file is
looked for as it is, else scripts, styles and images have directories of
their own. -/
def servirFichero (entorno : Entorno) (mediaBase filename : String) (tipoStream : ℕ) : Respuesta :=
  let extension := ext filename
  let mediaFile := mediaBase ++ "/" ++ filename
  let tipo := if tipoStream = 1 then "audio" else "video"
  let contentType := entorno.typeByExtension extension
  if contentType ≠ "" then .fichero mediaFile contentType
  else match extension with
    | ".m3u8" => .fichero mediaFile "application/x-mpegURL"
    | ".ts" => .fichero mediaFile (tipo ++ "/MP2T")
    | ".mp4" => .fichero mediaFile (tipo ++ "/mp4")
    | ".vtt" => .fichero mediaFile "text/vtt"
    | ".m4s" => .fichero mediaFile "text/plain"
    | ".js" => .fichero (mediaBase ++ "/js/" ++ filename) "text/javascript"
    | ".css" => .fichero (mediaBase ++ "/styles/" ++ filename) "text/css"
    | ".png" => .fichero (mediaBase ++ "/img/" ++ filename) "image/png"
    | _ => .fichero mediaFile contentType

/-- The extension of a name is what stands behind its last dot. -/
theorem ext_append {s e : String} (hs : '/' ∉ s.toList) (he : '/' ∉ e.toList) (hp : '.' ∉ e.toList) :
    ext (s ++ "." ++ e) = "." ++ e := by
  have hrev : (s ++ "." ++ e).toList.reverse = e.toList.reverse ++ '.' :: s.toList.reverse := by simp
  have hname : (s ++ "." ++ e).toList.reverse.takeWhile (· ≠ '/') =
      (s ++ "." ++ e).toList.reverse := by
    refine List.takeWhile_eq_self_iff.2 fun c hc => ?_
    rw [hrev, List.mem_append, List.mem_cons, List.mem_reverse, List.mem_reverse] at hc
    obtain hc | rfl | hc := hc
    · simpa using ne_of_mem_of_not_mem hc he
    · decide
    · simpa using ne_of_mem_of_not_mem hc hs
  have hext : (e.toList.reverse ++ '.' :: s.toList.reverse).takeWhile (· ≠ '.') =
      e.toList.reverse := by
    rw [List.takeWhile_append_of_pos fun c hc => by
      simpa using ne_of_mem_of_not_mem (List.mem_reverse.1 hc) hp, List.takeWhile_cons_of_neg (by simp),
      List.append_nil]
  rw [ext]
  simp only [hname]
  rw [hrev, hext, if_pos (by simp), List.reverse_reverse, ← String.toList_inj]
  simp

/-- **The files of a stream are served from where they are asked for.** -/
theorem servirFichero_media (entorno : Entorno) (mediaBase : String) {filename : String}
    (tipoStream : ℕ) (h : ext filename ∈ [".m3u8", ".ts", ".mp4", ".vtt", ".m4s"]) :
    ∃ contentType, servirFichero entorno mediaBase filename tipoStream =
      .fichero (mediaBase ++ "/" ++ filename) contentType := by
  simp only [List.mem_cons, List.not_mem_nil, or_false] at h
  simp only [servirFichero]
  split
  · exact ⟨_, rfl⟩
  · obtain h | h | h | h | h := h <;> rw [h] <;> exact ⟨_, rfl⟩

/-! ## The handlers -/

/-- Who answers a route. -/
inductive Manejador where
  | hls
  | paginaWebVideoPlayer
  deriving DecidableEq, Repr

variable (entorno : Entorno) (configuration : Config)

/-- The directory of a stream. -/
def mediaBase (mediaId : String) : String := configuration.output ++ "/" ++ mediaId ++ "/hls"

def manejadorHLS (vars : String → Option String) : Respuesta :=
  match vars "mediaId", vars "filename" with
  | some mediaId, some filename =>
    let mediaBase := mediaBase configuration mediaId
    let mediaBase := match vars "path" with
      | some path => mediaBase ++ "/" ++ path
      | none => mediaBase
    match vars "audioName", vars "subName" with
    | some audioName, _ => servirFichero entorno (mediaBase ++ "/audio/" ++ audioName) filename 1
    | none, some subName => servirFichero entorno (mediaBase ++ "/subtitulos/" ++ subName) filename 1
    | none, none => servirFichero entorno mediaBase filename 0
  | _, _ => .notFound

/-- The size the page gives the player, unless the resolution has no
height. -/
def tamano : Option (String × String) :=
  if configuration.resolution ≠ "" ∧ configuration.rf = true then
    match split configuration.resolution 'x' with
    | rWidth :: rHeight :: _ => some (rWidth, rHeight)
    | _ => none
  else some ("auto", "auto")

/-- Where the handler looks for a file, below the directory of the
stream. -/
def carpetaPedida (vars : String → Option String) : String :=
  ((vars "path").elim "" fun path => "/" ++ path) ++
    (vars "audioName").elim ((vars "subName").elim "" fun subName => "/subtitulos/" ++ subName)
      fun audioName => "/audio/" ++ audioName

variable {entorno configuration} in
/-- **What the handler serves**: the file of the request, in the directory
that the other variables name. -/
theorem manejadorHLS_eq {vars : String → Option String} {mediaId filename : String}
    (hmedia : vars "mediaId" = some mediaId) (hfile : vars "filename" = some filename) :
    manejadorHLS entorno configuration vars = servirFichero entorno
      (mediaBase configuration mediaId ++ carpetaPedida vars) filename
      (if vars "audioName" = none ∧ vars "subName" = none then 0 else 1) := by
  rw [manejadorHLS, hmedia, hfile, carpetaPedida]
  cases vars "path" <;> cases vars "audioName" <;> cases vars "subName" <;>
    simp [String.append_assoc]

def manejadorPaginaWebVideoPlayer (vars : String → Option String) : Respuesta :=
  let path := (vars "path").getD ""
  let path := if path ≠ "" then "/" ++ path else path
  match vars "mediaId", vars "html", vars "resources" with
  | none, _, _ => .vacia
  | some mediaId, some _, _ =>
    if entorno.parseFiles (configuration.videoplayerPath ++ "/index.html") = false then .notFound
    else match tamano configuration with
      | none => .panic
      | some (rWidth, rHeight) => .pagina
        { hlsUrl := "https://" ++ configuration.ip ++ "/" ++ configuration.urlSubpath ++ "/" ++
            mediaId ++ path ++ "/hls.m3u8"
          vumeter := if configuration.vumeter then "block" else "none"
          rWidth := rWidth
          rHeight := rHeight }
  | some _, none, some resource => servirFichero entorno configuration.videoplayerPath resource 0
  | some _, none, none => .vacia

def Manejador.atender : Manejador → (String → Option String) → Respuesta
  | hls => manejadorHLS entorno configuration
  | paginaWebVideoPlayer => manejadorPaginaWebVideoPlayer entorno configuration

/-! ## The routes -/

/-- The most characters a variable takes. -/
def maxcharsize : String := "20"

/-- The templates of the files of a stream. Braces are written by their
codes. -/
def plantillasHls (path : String) : List String :=
  [path ++ "/\x7bfilename:[a-z|0-9]\x7b1," ++ maxcharsize ++ "\x7d.m3u8\x7d",
    path ++ "/\x7bfilename:[a-z|0-9]\x7b0," ++ maxcharsize ++
      "\x7d(?:-)?segment-[0-9]\x7b1," ++ maxcharsize ++ "\x7d.(?:ts|m4s)\x7d",
    path ++ "/\x7bfilename:(?:init.mp4)\x7d",
    path ++ "/subtitulo/\x7bsubName:(?:[a-z,]\x7b2," ++ maxcharsize ++
      "\x7d)\x7d/\x7bfilename:(?:(?:[0-9]\x7b2,15\x7d-)?subtitulo(?:_vtt)?.m3u8)\x7d",
    path ++ "/subtitulo/\x7bsubName:(?:[a-z,]\x7b2," ++ maxcharsize ++
      "\x7d)\x7d/\x7bfilename:(?:(?:[0-9]\x7b2,15\x7d-)?[a-z,]\x7b2," ++ maxcharsize ++
      "\x7d)[0-9]\x7b1," ++ maxcharsize ++ "\x7d.(?:ts|m4s|vtt)\x7d",
    path ++ "/audio/\x7baudioName:(?:[a-z|_|0-9]\x7b2," ++ maxcharsize ++
      "\x7d)\x7d/\x7bfilename:(?:audio.m3u8)\x7d",
    path ++ "/audio/\x7baudioName:(?:[a-z|_|0-9]\x7b2," ++ maxcharsize ++
      "\x7d)\x7d/\x7bfilename:(?:audio)[0-9]\x7b1," ++ maxcharsize ++ "\x7d[.].\x7b1,10\x7d\x7d",
    path ++ "/audio/\x7baudioName:(?:[a-z|_|0-9]\x7b2," ++ maxcharsize ++
      "\x7d)\x7d/\x7bfilename:(?:init.mp4)\x7d"]

/-- The templates of the player. -/
def plantillasReproductor (path : String) : List String :=
  [path ++ "/\x7bhtml:(?:index.html)\x7d", path ++ "/\x7bresources:(?:.\x7b2,100\x7d[.](?:js|css|png))\x7d"]

variable (compile : List Char → Option Pattern)

def anhadirRutasHls (path : String) : Option (List (Route Manejador)) :=
  (plantillasHls path).mapM fun tpl => handleFunc compile tpl .hls ["GET"]

def anhadirRutasReproductor (path : String) : Option (List (Route Manejador)) :=
  (plantillasReproductor path).mapM fun tpl => handleFunc compile tpl .paginaWebVideoPlayer ["GET"]

/-- The path the templates of an encoding start with. -/
def finalPath (path : String) : String :=
  "/" ++ configuration.urlSubpath ++ "/\x7bmediaId:[0-9|a-z|-]+\x7d" ++ path

def anhadirRutas (path : String) : Option (List (Route Manejador)) := do
  some ((← anhadirRutasHls compile (finalPath configuration path)) ++
    (← anhadirRutasReproductor compile (finalPath configuration path)))

/-- What the encodings add to the path: the name of each as the pattern of
a variable. -/
def rutasDe (encodings : List Codificacion) : List String :=
  if encodings = [] then [""]
  else encodings.map fun codificacion => "/\x7bpath:" ++ codificacion.nombre ++ "\x7d"

/-- **The routes of the server**, unless a template stops the program. -/
def handlers (encodings : List Codificacion) : Option (List (Route Manejador)) := do
  some (← (rutasDe encodings).mapM (anhadirRutas configuration compile)).flatten

/-- **The answer to a request.** -/
def atender (routes : List (Route Manejador)) (method path : String) : Respuesta :=
  match route routes method path.toList with
  | some (manejador, vars) => manejador.atender entorno configuration vars
  | none => .notFound

end HlsXcoder
