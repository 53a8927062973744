import HlsXcoder.Codificacion.Sonda
import HlsXcoder.Lib.Firsts

/-!
# The streams of each program

The line loop puts every stream line into the program being read, and a
header starts its program anew. What a program holds is therefore a fold
over its own lines, those since its last header (`programas_recorrer`):
the audio that passes the options, the last video, and the subtitles that
pass them and come first in their language.

The summary is put together apart from the programs, from the same lines
but all of them.
-/

namespace HlsXcoder

open Regexp

/-- A line that was read as a stream, with the groups of its match. -/
structure LineaStream where
  linea : String
  stream : ℕ → String

namespace LineaStream

variable (configuration : Config) (s : LineaStream)

def elem : Stream := streamElement s.stream

/-- The key the audio filter looks up. -/
def clave : String := audioKey s.elem

/-- The language a subtitle is kept under. -/
def idioma : String := languageOr s.elem "default"

/-- The stream is among those listed, if any are. -/
def listado : Bool := configuration.streams.isEmpty || configuration.streams.contains (s.stream 2)

/-- A line that sets the video. -/
def esVideo : Bool := s.listado configuration && s.stream 4 = "Video"

/-- A line that adds an audio stream. -/
def esAudio : Bool := s.listado configuration && s.stream 4 = "Audio" && !configuration.an &&
  idiomaPedido configuration.audioLang s.clave

/-- A line that adds a subtitle stream, unless its language is there. -/
def esSubtitulo : Bool := s.listado configuration && s.stream 4 = "Subtitle" && !configuration.sn &&
  idiomaPedido configuration.subLang s.idioma

/-- What a pattern captures in the line. -/
def captura (r : Re) : String := (findStringSubmatch r s.linea).elim "" (· 1)

def video : Stream := { s.elem with fps := s.captura fpsReg, chroma := s.captura chromaReg }

def subtitulo : Stream := { s.elem with language := s.idioma }

/-! ## What a line adds to its program -/

def trasVideo (video : Stream) : Stream := if s.esVideo configuration then s.video else video

def trasAudio (audio : List Stream) : List Stream :=
  if s.esAudio configuration then audio ++ [{ s.elem with language := audioLanguage s.elem audio }]
  else audio

def trasSubtitulo (subtitulos : List Stream) : List Stream :=
  if s.esSubtitulo configuration ∧ s.idioma ∉ subtitulos.map Stream.language then
    subtitulos ++ [s.subtitulo]
  else subtitulos

/-- The program after one of its lines. -/
def tras (P : Programa) : Programa :=
  { P with video := s.trasVideo configuration P.video
           audio := s.trasAudio configuration P.audio
           subtitulos := s.trasSubtitulo configuration P.subtitulos }

/-! ## What a line adds to the summary -/

def entradasVideo : List String :=
  if s.esVideo configuration then
    ["_".intercalate [s.stream 1, pids s.elem, s.stream 3, s.stream 4, s.stream 5,
      s.captura fpsReg, s.captura chromaReg]]
  else []

def entradasAudio : List String :=
  if s.esAudio configuration then
    ["_".intercalate [s.stream 1, pids s.elem, languageOr s.elem "none", s.stream 4, s.stream 5]]
  else []

def entradasSubtitulo (subtitulos : List Stream) : List String :=
  if s.esSubtitulo configuration ∧ s.idioma ∉ subtitulos.map Stream.language then
    ["_".intercalate [s.stream 1, pids s.elem, s.stream 3, s.stream 4, s.stream 5]]
  else []

end LineaStream

/-! ## The lines of each program -/

/-- Where the loop is: the program being read, and the lines of each
program since its last header. -/
structure Recorrido where
  programId : String
  suyas : String → List LineaStream

def Recorrido.inicial : Recorrido := ⟨"", fun _ => []⟩

/-- One line. -/
def Recorrido.paso (configuration : Config) (r : Recorrido) (linea : String) : Recorrido :=
  match clasificar configuration linea with
  | .programa id => ⟨id, Function.update r.suyas id []⟩
  | .stream stream =>
    if r.programId = "" then ⟨"-1", Function.update r.suyas "-1" [⟨linea, stream⟩]⟩
    else ⟨r.programId, Function.update r.suyas r.programId
      (r.suyas r.programId ++ [⟨linea, stream⟩])⟩
  | .servicio _ | .otra => r

/-- **The stream lines of a program** since its last header. -/
def suyas (configuration : Config) (lineas : List String) (id : String) : List LineaStream :=
  (lineas.foldl (Recorrido.paso configuration) .inicial).suyas id

section Lineas

variable {configuration : Config} {linea : String} {stream : ℕ → String} {l l' : Lectura}

/-- A line that adds nothing. -/
theorem LineaStream.tras_eq_self {s : LineaStream} (hv : s.esVideo configuration = false)
    (ha : s.esAudio configuration = false) {P : Programa}
    (hs : s.trasSubtitulo configuration P.subtitulos = P.subtitulos) :
    s.tras configuration P = P := by
  simp [tras, trasVideo, trasAudio, hv, ha, hs]

/-- What a stream line does to the reading, where `P` is the program being
read. -/
def Lectura.anadir (l : Lectura) (configuration : Config) (s : LineaStream) (P : Programa) :
    Lectura :=
  { l with
    programas := Function.update l.programas l.programId (some (s.tras configuration P))
    vid2 := l.vid2 ++ s.entradasVideo configuration
    aud2 := l.aud2 ++ s.entradasAudio configuration
    sub2 := l.sub2 ++ s.entradasSubtitulo configuration P.subtitulos }

theorem Lectura.anadir_eq_self {s : LineaStream} {P : Programa}
    (hP : l.programas l.programId = some P) (hv : s.esVideo configuration = false)
    (ha : s.esAudio configuration = false)
    (hs : ¬ (s.esSubtitulo configuration = true ∧
      s.idioma ∉ P.subtitulos.map Stream.language)) :
    l.anadir configuration s P = l := by
  have htras : s.tras configuration P = P := LineaStream.tras_eq_self hv ha (if_neg hs)
  rw [Lectura.anadir, htras, ← hP, Function.update_eq_self, LineaStream.entradasVideo,
    LineaStream.entradasAudio, LineaStream.entradasSubtitulo, if_neg hs]
  simp [hv, ha]

section Tipos

variable {P : Programa} (hl : (⟨linea, stream⟩ : LineaStream).listado configuration = true)
include hl

theorem leerVideo_anadir (htipo : stream 4 = "Video")
    (h : leerVideo linea stream P l = some l') :
    l' = l.anadir configuration ⟨linea, stream⟩ P := by
  simp only [leerVideo, Option.bind_eq_bind, Option.bind_eq_some_iff, Option.some.injEq] at h
  obtain ⟨fps, hfps, chroma, hchroma, rfl⟩ := h
  simp [Lectura.anadir, Lectura.poner, LineaStream.tras, LineaStream.trasVideo,
    LineaStream.trasAudio, LineaStream.trasSubtitulo, LineaStream.entradasVideo,
    LineaStream.entradasAudio, LineaStream.entradasSubtitulo, LineaStream.esVideo,
    LineaStream.esAudio, LineaStream.esSubtitulo, LineaStream.video, LineaStream.captura,
    LineaStream.elem, htipo, hl, hfps, hchroma, pids, decimalId]

theorem leerAudio_anadir (hP : l.programas l.programId = some P) (htipo : stream 4 = "Audio") :
    leerAudio configuration stream P l = l.anadir configuration ⟨linea, stream⟩ P := by
  have hpasa : (⟨linea, stream⟩ : LineaStream).esAudio configuration =
      !(configuration.an || !idiomaPedido configuration.audioLang (audioKey (streamElement stream))) := by
    simp [LineaStream.esAudio, hl, htipo, LineaStream.clave, LineaStream.elem]
  rw [leerAudio]
  split
  · rename_i hfuera
    rw [Lectura.anadir_eq_self hP]
    · simp [LineaStream.esVideo, htipo]
    · rw [hpasa, hfuera]
      rfl
    · simp [LineaStream.esSubtitulo, htipo]
  · rename_i hdentro
    rw [Bool.not_eq_true] at hdentro
    rw [hdentro] at hpasa
    simp [Lectura.anadir, Lectura.poner, LineaStream.tras, LineaStream.trasVideo,
      LineaStream.trasAudio, LineaStream.trasSubtitulo, LineaStream.entradasVideo,
      LineaStream.entradasAudio, LineaStream.entradasSubtitulo, LineaStream.esVideo,
      LineaStream.esSubtitulo, LineaStream.elem, htipo, hpasa]

theorem leerSubtitulo_anadir (hP : l.programas l.programId = some P)
    (htipo : stream 4 = "Subtitle") :
    leerSubtitulo configuration stream P l = l.anadir configuration ⟨linea, stream⟩ P := by
  have hpasa : (⟨linea, stream⟩ : LineaStream).esSubtitulo configuration =
      !(configuration.sn || !idiomaPedido configuration.subLang
        (languageOr (streamElement stream) "default")) := by
    simp [LineaStream.esSubtitulo, hl, htipo, LineaStream.idioma, LineaStream.elem]
  have hnueva : (P.subtitulos.any fun s => s.language =
      languageOr (streamElement stream) "default") = false ↔
      (⟨linea, stream⟩ : LineaStream).idioma ∉ P.subtitulos.map Stream.language := by
    simp [LineaStream.idioma, LineaStream.elem]
  simp only [leerSubtitulo]
  split
  · rename_i hfuera
    rw [Lectura.anadir_eq_self hP]
    · simp [LineaStream.esVideo, htipo]
    · simp [LineaStream.esAudio, htipo]
    · rintro ⟨hes, hno⟩
      rw [hpasa, Bool.not_eq_true'] at hes
      rw [hes, Bool.false_or, hnueva.2 hno] at hfuera
      cases hfuera
  · rename_i hdentro
    rw [Bool.not_eq_true, Bool.or_eq_false_iff] at hdentro
    rw [hdentro.1] at hpasa
    have hno := hnueva.1 hdentro.2
    rw [Lectura.anadir, LineaStream.tras, LineaStream.trasSubtitulo, LineaStream.entradasSubtitulo,
      if_pos ⟨hpasa, hno⟩, if_pos ⟨hpasa, hno⟩]
    simp [Lectura.poner, LineaStream.trasVideo, LineaStream.trasAudio, LineaStream.entradasVideo,
      LineaStream.entradasAudio, LineaStream.esVideo, LineaStream.esAudio, LineaStream.subtitulo,
      LineaStream.idioma, LineaStream.elem, htipo]

end Tipos

/-- **What a stream line does**: it adds itself to the program being read
and to the summary. -/
theorem leerStream_anadir (h : leerStream configuration linea stream l = some l') :
    ∃ P, l.programas l.programId = some P ∧ l' = l.anadir configuration ⟨linea, stream⟩ P := by
  simp only [leerStream, Option.bind_eq_bind, Option.bind_eq_some_iff] at h
  obtain ⟨P, hP, h⟩ := h
  refine ⟨P, hP, ?_⟩
  have hlistado : (!configuration.streams.isEmpty && !configuration.streams.contains (stream 2)) =
      !(⟨linea, stream⟩ : LineaStream).listado configuration := by
    simp [LineaStream.listado]
  rw [hlistado] at h
  cases hl : (⟨linea, stream⟩ : LineaStream).listado configuration with
  | false =>
    rw [hl] at h
    obtain rfl := Option.some.inj h
    rw [Lectura.anadir_eq_self hP] <;>
      simp [LineaStream.esVideo, LineaStream.esAudio, LineaStream.esSubtitulo, hl]
  | true =>
    rw [hl] at h
    simp only [Bool.not_true, Bool.false_eq_true, if_false] at h
    split at h
    · rename_i htipo
      exact leerVideo_anadir hl htipo h
    · rename_i htipo
      obtain rfl := Option.some.inj h
      exact leerAudio_anadir hl hP htipo
    · rename_i htipo
      obtain rfl := Option.some.inj h
      exact leerSubtitulo_anadir hl hP htipo
    · rename_i hv ha hs
      obtain rfl := Option.some.inj h
      have hv : ¬ stream 4 = "Video" := hv
      have ha : ¬ stream 4 = "Audio" := ha
      have hs : ¬ stream 4 = "Subtitle" := hs
      rw [Lectura.anadir_eq_self hP] <;>
        simp [LineaStream.esVideo, LineaStream.esAudio, LineaStream.esSubtitulo, hv, ha, hs]

end Lineas

/-! ## A program is made of its lines -/

/-- A program after some of its lines. -/
def plegar (configuration : Config) (ss : List LineaStream) (P : Programa) : Programa :=
  ss.foldl (fun P s => s.tras configuration P) P

theorem plegar_concat (configuration : Config) (ss : List LineaStream) (s : LineaStream)
    (P : Programa) :
    plegar configuration (ss ++ [s]) P = s.tras configuration (plegar configuration ss P) := by
  simp [plegar]

theorem plegar_partes (configuration : Config) (ss : List LineaStream) (P : Programa) :
    plegar configuration ss P = { P with
      video := ss.foldl (fun v s => s.trasVideo configuration v) P.video
      audio := ss.foldl (fun a s => s.trasAudio configuration a) P.audio
      subtitulos := ss.foldl (fun t s => s.trasSubtitulo configuration t) P.subtitulos } := by
  induction ss generalizing P with
  | nil => rfl
  | cons s ss ih => exact ih _

/-- The program of an id and a name that some lines make. -/
def programaDe (configuration : Config) (id nombre : String) (ss : List LineaStream) : Programa :=
  plegar configuration ss { (default : Programa) with id := id, nombre := nombre }

theorem programaDe_concat (configuration : Config) (id nombre : String) (ss : List LineaStream)
    (s : LineaStream) : programaDe configuration id nombre (ss ++ [s]) =
      s.tras configuration (programaDe configuration id nombre ss) :=
  plegar_concat configuration ss s _

theorem programaDe_nombre (configuration : Config) (id nombre nuevo : String)
    (ss : List LineaStream) : { programaDe configuration id nombre ss with nombre := nuevo } =
      programaDe configuration id nuevo ss := by
  simp [programaDe, plegar_partes]

theorem audio_programaDe (configuration : Config) (id nombre : String) (ss : List LineaStream) :
    (programaDe configuration id nombre ss).audio =
      ss.foldl (fun audio s => s.trasAudio configuration audio) [] := by
  rw [programaDe, plegar_partes]
  rfl

theorem subtitulos_programaDe (configuration : Config) (id nombre : String)
    (ss : List LineaStream) : (programaDe configuration id nombre ss).subtitulos =
      ss.foldl (fun subtitulos s => s.trasSubtitulo configuration subtitulos) [] := by
  rw [programaDe, plegar_partes]
  rfl

theorem video_programaDe (configuration : Config) (id nombre : String) (ss : List LineaStream) :
    (programaDe configuration id nombre ss).video =
      ss.foldl (fun video s => s.trasVideo configuration video) default := by
  rw [programaDe, plegar_partes]
  rfl

/-- The reading is where the lines lead: every program is made of its own,
under some name. -/
structure Recorrido.Lleva (configuration : Config) (r : Recorrido) (l : Lectura) : Prop where
  programId : l.programId = r.programId
  programas : ∀ id P, l.programas id = some P →
    ∃ nombre, P = programaDe configuration id nombre (r.suyas id)

section Lleva

variable {configuration : Config} {r : Recorrido} {linea : String} {l l' : Lectura}
  {w : Option String}

theorem Recorrido.lleva_inicial (configuration : Config) :
    Recorrido.inicial.Lleva configuration .inicial :=
  ⟨rfl, fun id P h => by simp [Lectura.inicial] at h⟩

/-- One program is put back, with the lines it is made of. -/
theorem Recorrido.Lleva.update (h : r.Lleva configuration l) {id : String} {ss : List LineaStream}
    {P : Programa} (hid : l'.programId = id) (hprog : l'.programas = Function.update l.programas id (some P))
    (hP : ∃ nombre, P = programaDe configuration id nombre ss) :
    (⟨id, Function.update r.suyas id ss⟩ : Recorrido).Lleva configuration l' := by
  refine ⟨hid, fun id' P' hP' => ?_⟩
  rw [hprog] at hP'
  by_cases hc : id' = id
  · subst hc
    simp only [Function.update_self, Option.some.injEq] at hP' ⊢
    exact hP' ▸ hP
  · simp only [Function.update_of_ne hc] at hP' ⊢
    exact h.programas id' P' hP'

/-- **Every line keeps the reading where the lines lead.** -/
theorem Recorrido.Lleva.paso (h : r.Lleva configuration l)
    (hlinea : leerLinea configuration linea l = some (w, l')) :
    (r.paso configuration linea).Lleva configuration l' := by
  rw [Recorrido.paso]
  cases pasoLinea_of_leerLinea hlinea with
  | @programa id hc =>
    rw [hc]
    exact h.update rfl rfl ⟨"", rfl⟩
  | servicioSuelto hc hid =>
    rw [hc]
    exact h
  | @servicio nombre P hc hid hP =>
    rw [hc]
    obtain ⟨previo, heq⟩ := h.programas _ _ hP
    have hmismo : r = ⟨l.programId, Function.update r.suyas l.programId (r.suyas l.programId)⟩ := by
      rw [Function.update_eq_self, h.programId]
    rw [hmismo]
    exact h.update rfl rfl ⟨nombre, by rw [heq, programaDe_nombre, h.programId]⟩
  | @streamSuelto stream l₁ hc hid hl₁ =>
    obtain ⟨P, hP, rfl⟩ := leerStream_anadir hl₁
    have hnuevo : P = { (default : Programa) with id := "-1", nombre := "No name" } := by
      simpa [sinPrograma, Lectura.poner] using hP.symm
    rw [hc, ← h.programId]
    simp only [hid, if_true]
    refine h.update (P := (⟨linea, stream⟩ : LineaStream).tras configuration P) rfl ?_
      ⟨"No name", by rw [hnuevo]; rfl⟩
    simp [Lectura.anadir, sinPrograma, Lectura.poner]
  | @stream stream l₁ hc hid hl₁ =>
    obtain ⟨P, hP, rfl⟩ := leerStream_anadir hl₁
    obtain ⟨nombre, heq⟩ := h.programas _ _ hP
    rw [hc, ← h.programId]
    simp only [hid, if_false]
    refine h.update rfl rfl ⟨nombre, ?_⟩
    rw [programaDe_concat, heq, h.programId]
  | otra hc =>
    rw [hc]
    exact h

theorem Recorrido.Lleva.leerLineas (h : r.Lleva configuration l) {lineas : List String}
    {programa programa' : Programa}
    (hleer : leerLineas configuration lineas (programa, l) = some (programa', l')) :
    (lineas.foldl (Recorrido.paso configuration) r).Lleva configuration l' := by
  induction lineas generalizing r l programa with
  | nil =>
    obtain ⟨-, rfl⟩ := Prod.mk.inj (Option.some.inj hleer)
    exact h
  | cons linea lineas ih =>
    simp only [HlsXcoder.leerLineas, Option.bind_eq_bind, Option.bind_eq_some_iff] at hleer
    obtain ⟨⟨w, l₁⟩, hlinea, hleer⟩ := hleer
    exact ih (h.paso hlinea) hleer

/-- **Every program is made of its own lines**, those since its last
header. -/
theorem programas_recorrer {lineas : List String} {previo programa : Programa}
    (h : leerLineas configuration lineas (previo, .inicial) = some (programa, l)) {id : String}
    {P : Programa} (hP : l.programas id = some P) :
    ∃ nombre, P = programaDe configuration id nombre (suyas configuration lineas id) :=
  ((Recorrido.lleva_inicial configuration).leerLineas h).programas id P hP

end Lleva

end HlsXcoder
