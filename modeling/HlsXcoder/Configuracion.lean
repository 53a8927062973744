import Mathlib.Init

/-!
# The configuration

What the command line leaves behind for the other packages. The sets of
languages and of stream identifiers are lists, read for membership and
for being empty.
-/

namespace HlsXcoder

/-- A video encoding: the name of the codec, which is also the directory
of its files, and the bitrates asked for. -/
structure Codificacion where
  nombre : String
  bitrates : List String
  deriving DecidableEq, Repr, Inhabited

/-- The configuration of a run. -/
structure Config where
  input : String
  output : String
  ip : String
  port : String
  resolution : String
  mediaId : String
  urlSubpath : String
  audioCodificacion : String
  audioBitrate : String
  hlsFragments : Int
  hlsTime : Int
  idPrograma : String
  disableStreaming : Bool
  re : Bool
  hwaccel : Bool
  nvenc : Bool
  sn : Bool
  an : Bool
  log : Bool
  subLang : List String
  audioLang : List String
  streams : List String
  encodings : List Codificacion
  wn : Bool
  videoplayerPath : String
  vumeter : Bool
  test : Bool
  deint : Bool
  rf : Bool
  tid : String
  server : String
  deriving DecidableEq, Repr, Inhabited

/-- No flag but a directory and an identifier. -/
def Config.minima : Config := { (default : Config) with output := "salida", mediaId := "7" }

end HlsXcoder
