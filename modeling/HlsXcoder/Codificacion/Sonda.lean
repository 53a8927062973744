import HlsXcoder.Configuracion
import HlsXcoder.Codificacion.Programa
import HlsXcoder.Lib.Regexp.Find
import HlsXcoder.Lib.Regexp.Parse
import Mathlib.Logic.Function.Basic

/-!
# Reading the report of the probe

`obtenerStreamsPost` reads the report line by line. A line is the header
of a program, the name of its service or one of its streams, tried in
this order, and the first two only count where no streams were listed on
the command line. What it keeps of its own is a `Lectura`: the programs
by their id, the id of the one being read, and the summary it posts.

The line loop also writes the id of the program being read to the package
variable `programa`, and the selection after the loop reads it back. A
line is therefore read in two parts: what it does to the reading, and the
id it writes to the variable, if any.

A pattern that does not match where the source indexes its groups, and an
id without a program, stop the program.
-/

namespace HlsXcoder

open Regexp

def streamReg : Re := mustCompile
  ("Stream #0:([0-9]+)(?:\\[((?:0[xX])?[[:xdigit:]]+)\\])?" ++
    "(?:\\(([a-zA-Z]{3}(?:,[a-zA-Z]{3})*?)\\))?: ([a-zA-Z]+): ([a-z0-9_]+)")

def fpsReg : Re := mustCompile ",[ ]*([0-9.]+) fps[ ]*,"

def progReg : Re := mustCompile "Program ([0-9]+)"

def chromaReg : Re := mustCompile ",[ ]*yuv([0-9]+)p[ ]*"

def serviceName : Re := mustCompile "service_name[ ]*: (.+)"

/-- The groups of the match of a line. -/
def findStringSubmatch (r : Re) (linea : String) : Option (ℕ → String) :=
  (r.find linea.toList).map fun m i => String.ofList (m.group i)

/-- What the line loop keeps of its own. -/
structure Lectura where
  programas : String → Option Programa
  programId : String
  sid : String
  name : String
  vid2 : List String
  aud2 : List String
  sub2 : List String

def Lectura.inicial : Lectura := ⟨fun _ => none, "", "", "", [], [], []⟩

/-- A program put under its id. -/
def Lectura.poner (l : Lectura) (programa : Programa) : Lectura :=
  { l with programas := Function.update l.programas l.programId (some programa) }

/-! ## Streams -/

/-- The stream of a line, before its kind is looked at. -/
def streamElement (stream : ℕ → String) : Stream where
  id := stream 1
  hexaId := stream 2
  format := stream 5
  language := stream 3
  fps := ""
  chroma := ""

/-- The decimal text of a PID. -/
def decimalId (elem : Stream) : String := toString (hex2int elem.hexaId)

/-- The PID as the summary shows it. -/
def pids (elem : Stream) : String := "_".intercalate [elem.hexaId, decimalId elem]

/-- The language of a stream, or the name of streams without one. -/
def languageOr (elem : Stream) (sinIdioma : String) : String :=
  if elem.language = "" then sinIdioma else elem.language

/-- The first key of an audio stream: its language and its PID. -/
def audioKey (elem : Stream) : String := languageOr elem "none" ++ "_" ++ decimalId elem

/-- The key of an audio stream, with the PID again for each stream before
it that has the same key. -/
def audioLanguage (elem : Stream) (audio : List Stream) : String :=
  audio.foldl (fun language a =>
    if language = a.language then language ++ "_" ++ decimalId elem else language) (audioKey elem)

/-- Whether a language is among those listed, all of them where none is
listed. -/
def idiomaPedido (lang : List String) (language : String) : Bool :=
  lang.isEmpty || lang.contains language

/-- A video stream, which replaces the one before it. -/
def leerVideo (linea : String) (stream : ℕ → String) (programa : Programa) (l : Lectura) :
    Option Lectura := do
  let fps ← findStringSubmatch fpsReg linea
  let chroma ← findStringSubmatch chromaReg linea
  let elem := { streamElement stream with fps := fps 1, chroma := chroma 1 }
  some { l.poner { programa with video := elem } with
    vid2 := l.vid2 ++ ["_".intercalate
      [stream 1, pids elem, stream 3, stream 4, stream 5, elem.fps, elem.chroma]] }

/-- An audio stream. -/
def leerAudio (configuration : Config) (stream : ℕ → String) (programa : Programa) (l : Lectura) :
    Lectura :=
  let elem := streamElement stream
  -- the filter sees the key before it is told apart from the earlier ones
  if configuration.an || !idiomaPedido configuration.audioLang (audioKey elem) then l
  else { l.poner { programa with audio := programa.audio ++
        [{ elem with language := audioLanguage elem programa.audio }] } with
      aud2 := l.aud2 ++ ["_".intercalate
        [stream 1, pids elem, languageOr elem "none", stream 4, stream 5]] }

/-- A subtitle stream; one of a language already there is dropped. -/
def leerSubtitulo (configuration : Config) (stream : ℕ → String) (programa : Programa)
    (l : Lectura) : Lectura :=
  let elem := streamElement stream
  let language := languageOr elem "default"
  if configuration.sn || !idiomaPedido configuration.subLang language ||
      programa.subtitulos.any fun s => s.language = language
  then l
  else { l.poner { programa with subtitulos := programa.subtitulos ++
        [{ elem with language := language }] } with
      sub2 := l.sub2 ++ ["_".intercalate [stream 1, pids elem, stream 3, stream 4, stream 5]] }

/-- A stream line, in the program being read. -/
def leerStream (configuration : Config) (linea : String) (stream : ℕ → String) (l : Lectura) :
    Option Lectura := do
  let programa ← l.programas l.programId
  if !configuration.streams.isEmpty && !configuration.streams.contains (stream 2) then some l
  else match stream 4 with
    | "Video" => leerVideo linea stream programa l
    | "Audio" => some (leerAudio configuration stream programa l)
    | "Subtitle" => some (leerSubtitulo configuration stream programa l)
    | _ => some l

/-! ## Lines -/

/-- The header of a program, which starts it anew. -/
def leerPrograma (l : Lectura) (programId : String) : Lectura :=
  { l with programId := programId, sid := programId }.poner
    { (default : Programa) with id := programId }

/-- The program of the streams that come before any header. -/
def sinPrograma (l : Lectura) : Lectura :=
  { l with programId := "-1", sid := "-1", name := "No name" }.poner
    { (default : Programa) with id := "-1", nombre := "No name" }

/-- What a line is. -/
inductive ClaseLinea where
  | programa (programId : String)
  | servicio (nombre : String)
  | stream (stream : ℕ → String)
  | otra

/-- The class of a line, the first of the three patterns that is found in
it. -/
def clasificar (configuration : Config) (linea : String) : ClaseLinea :=
  let streamsOk := !configuration.streams.isEmpty
  match if streamsOk then none else findStringSubmatch progReg linea with
  | some m => .programa (m 1)
  | none => match if streamsOk then none else findStringSubmatch serviceName linea with
    | some m => .servicio (m 1)
    | none => match findStringSubmatch streamReg linea with
      | some stream => .stream stream
      | none => .otra

/-- **One line**: the id it writes to `programa`, and the reading after
it. -/
def leerLinea (configuration : Config) (linea : String) (l : Lectura) :
    Option (Option String × Lectura) :=
  match clasificar configuration linea with
  | .programa programId =>
    some (if configuration.idPrograma = "" ∨ configuration.idPrograma = programId
      then some programId else none, leerPrograma l programId)
  | .servicio nombre =>
    if l.programId = "" then some (none, l)
    else do
      let programa ← l.programas l.programId
      some (none, { l.poner { programa with nombre := nombre } with name := nombre })
  | .stream stream =>
    if l.programId = "" then do
      some (if configuration.idPrograma = "" then some "-1" else none,
        ← leerStream configuration linea stream (sinPrograma l))
    else do some (none, ← leerStream configuration linea stream l)
  | .otra => some (none, l)

/-- The write of a line to the package variable. -/
def Programa.escribirId (programa : Programa) : Option String → Programa
  | some id => { programa with id := id }
  | none => programa

/-- The line loop of one encoder, by itself. -/
def leerLineas (configuration : Config) :
    List String → Programa × Lectura → Option (Programa × Lectura)
  | [], p => some p
  | linea :: lineas, (programa, l) => do
    let (id, l') ← leerLinea configuration linea l
    leerLineas configuration lineas (programa.escribirId id, l')

/-- The summary that is posted. -/
def Lectura.resumen (l : Lectura) : String :=
  "SID:" ++ l.sid ++ ",ServiceName:" ++ l.name ++ ",VideoStreams:" ++ " / ".intercalate l.vid2 ++
    ",AudioStreams:" ++ " / ".intercalate l.aud2 ++ ",SubtitleStreams:" ++ " / ".intercalate l.sub2

/-- **What a run of one encoder leaves in `programa`**, and the summary it
posts. -/
def obtenerStreamsPost (configuration : Config) (lineas : List String) (programa : Programa) :
    Option (Programa × String) := do
  let (programa, l) ← leerLineas configuration lineas (programa, .inicial)
  some (← l.programas programa.id, l.resumen)

/-! ## What the line loop does to a program -/

/-- **A property of the programs that every line keeps**, by what a line
can do to one: start it, name its service, or add a stream to it. The
property may depend on the id the program stands under. -/
structure Conserva (Q : String → Programa → Prop) : Prop where
  nuevo : ∀ id nombre, Q id { (default : Programa) with id := id, nombre := nombre }
  servicio : ∀ {id P}, Q id P → ∀ nombre, Q id { P with nombre := nombre }
  video : ∀ {id P linea stream}, findStringSubmatch streamReg linea = some stream → Q id P →
    ∀ fps chroma, Q id { P with video := { streamElement stream with fps := fps, chroma := chroma } }
  audio : ∀ {id P linea stream}, findStringSubmatch streamReg linea = some stream → Q id P →
    Q id { P with audio := P.audio ++ [{ streamElement stream with
      language := audioLanguage (streamElement stream) P.audio }] }
  subtitulo : ∀ {id P linea stream}, findStringSubmatch streamReg linea = some stream → Q id P →
    languageOr (streamElement stream) "default" ∉ P.subtitulos.map Stream.language →
    Q id { P with subtitulos := P.subtitulos ++ [{ streamElement stream with
      language := languageOr (streamElement stream) "default" }] }

/-- Every program has a property, under its id. -/
def Lectura.Cumple (l : Lectura) (Q : String → Programa → Prop) : Prop :=
  ∀ id P, l.programas id = some P → Q id P

theorem Lectura.cumple_inicial (Q : String → Programa → Prop) : Lectura.inicial.Cumple Q := by
  intro id P h
  simp [Lectura.inicial] at h

@[simp] theorem Lectura.programId_poner (l : Lectura) (programa : Programa) :
    (l.poner programa).programId = l.programId := rfl

/-- Putting a program under its own id keeps the others where they
are. -/
theorem Lectura.Cumple.poner {l l' : Lectura} {Q : String → Programa → Prop} (h : l.Cumple Q)
    {programa : Programa} (hprograma : Q l.programId programa)
    (hl' : l'.programas = (l.poner programa).programas) : l'.Cumple Q := by
  intro id P hP
  rw [hl'] at hP
  by_cases hc : id = l.programId
  · subst hc
    simp only [Lectura.poner, Function.update_self, Option.some.injEq] at hP
    rw [← hP]
    exact hprograma
  · simp only [Lectura.poner, Function.update_of_ne hc] at hP
    exact h id P hP

/-- What a stream line does: it leaves the reading as it is, or puts the
program being read back with a stream more. -/
theorem leerStream_cases {configuration : Config} {linea : String} {stream : ℕ → String}
    (hs : findStringSubmatch streamReg linea = some stream) {l l' : Lectura}
    (h : leerStream configuration linea stream l = some l') :
    l' = l ∨ ∃ P P', l.programas l.programId = some P ∧
      (∀ {Q : String → Programa → Prop}, Conserva Q → Q l.programId P → Q l.programId P') ∧
      l'.programId = l.programId ∧ l'.programas = (l.poner P').programas := by
  simp only [leerStream, Option.bind_eq_bind, Option.bind_eq_some_iff] at h
  obtain ⟨P, hP, h⟩ := h
  split at h
  · exact .inl (Option.some.inj h).symm
  · split at h
    · simp only [leerVideo, Option.bind_eq_bind, Option.bind_eq_some_iff, Option.some.injEq] at h
      obtain ⟨fps, -, chroma, -, rfl⟩ := h
      exact .inr ⟨P, _, hP, fun hQ h => hQ.video hs h (fps 1) (chroma 1), rfl, rfl⟩
    · obtain rfl := Option.some.inj h
      rw [leerAudio]
      split
      · exact .inl rfl
      · exact .inr ⟨P, _, hP, fun hQ h => hQ.audio hs h, rfl, rfl⟩
    · obtain rfl := Option.some.inj h
      rw [leerSubtitulo]
      split
      · exact .inl rfl
      · rename_i hnueva
        simp only [Bool.or_eq_true, List.any_eq_true, decide_eq_true_eq, not_or, not_exists,
          not_and] at hnueva
        refine .inr ⟨P, _, hP, fun hQ h => hQ.subtitulo hs h fun hmem => ?_, rfl, rfl⟩
        obtain ⟨e, he, heq⟩ := List.mem_map.1 hmem
        exact hnueva.2 e he heq
    · exact .inl (Option.some.inj h).symm

theorem programId_leerStream {configuration : Config} {linea : String} {stream : ℕ → String}
    (hs : findStringSubmatch streamReg linea = some stream) {l l' : Lectura}
    (h : leerStream configuration linea stream l = some l') : l'.programId = l.programId := by
  obtain rfl | ⟨-, -, -, -, hid, -⟩ := leerStream_cases hs h
  · rfl
  · exact hid

theorem findStringSubmatch_of_clasificar {configuration : Config} {linea : String}
    {stream : ℕ → String} (h : clasificar configuration linea = .stream stream) :
    findStringSubmatch streamReg linea = some stream := by
  simp only [clasificar] at h
  split at h
  · cases h
  · split at h
    · cases h
    · split at h
      · rename_i hs
        obtain rfl := ClaseLinea.stream.inj h
        exact hs
      · cases h

theorem Lectura.Cumple.leerStream {Q : String → Programa → Prop} (hQ : Conserva Q)
    {configuration : Config} {linea : String} {stream : ℕ → String}
    (hs : findStringSubmatch streamReg linea = some stream) {l l' : Lectura} (hl : l.Cumple Q)
    (h : leerStream configuration linea stream l = some l') : l'.Cumple Q := by
  obtain rfl | ⟨P, P', hP, hpaso, -, hprog⟩ := leerStream_cases hs h
  · exact hl
  · exact hl.poner (hpaso hQ (hl _ _ hP)) hprog

/-- **What a line does**, by its class and whether a program is being read:
the id it writes, and the reading after it. -/
inductive PasoLinea (configuration : Config) (linea : String) (l : Lectura) :
    Option String → Lectura → Prop
  | programa {id : String} (hc : clasificar configuration linea = .programa id) :
    PasoLinea configuration linea l
      (if configuration.idPrograma = "" ∨ configuration.idPrograma = id then some id else none)
      (leerPrograma l id)
  | servicioSuelto {nombre : String} (hc : clasificar configuration linea = .servicio nombre)
      (hid : l.programId = "") : PasoLinea configuration linea l none l
  | servicio {nombre : String} {P : Programa}
      (hc : clasificar configuration linea = .servicio nombre) (hid : l.programId ≠ "")
      (hP : l.programas l.programId = some P) :
    PasoLinea configuration linea l none { l.poner { P with nombre := nombre } with name := nombre }
  | streamSuelto {stream : ℕ → String} {l' : Lectura}
      (hc : clasificar configuration linea = .stream stream) (hid : l.programId = "")
      (hl' : leerStream configuration linea stream (sinPrograma l) = some l') :
    PasoLinea configuration linea l (if configuration.idPrograma = "" then some "-1" else none) l'
  | stream {stream : ℕ → String} {l' : Lectura}
      (hc : clasificar configuration linea = .stream stream) (hid : l.programId ≠ "")
      (hl' : leerStream configuration linea stream l = some l') :
    PasoLinea configuration linea l none l'
  | otra (hc : clasificar configuration linea = .otra) : PasoLinea configuration linea l none l

/-- A line that is read takes one of these steps. -/
theorem pasoLinea_of_leerLinea {configuration : Config} {linea : String} {l l' : Lectura}
    {w : Option String} (h : leerLinea configuration linea l = some (w, l')) :
    PasoLinea configuration linea l w l' := by
  rw [leerLinea] at h
  cases hc : clasificar configuration linea with
  | programa id =>
    rw [hc] at h
    obtain ⟨rfl, rfl⟩ := Prod.mk.inj (Option.some.inj h)
    exact .programa hc
  | servicio nombre =>
    simp only [hc, Option.bind_eq_bind] at h
    split at h
    · rename_i hid
      obtain ⟨rfl, rfl⟩ := Prod.mk.inj (Option.some.inj h)
      exact .servicioSuelto hc hid
    · rename_i hid
      simp only [Option.bind_eq_some_iff, Option.some.injEq, Prod.mk.injEq] at h
      obtain ⟨P, hP, rfl, rfl⟩ := h
      exact .servicio hc hid hP
  | stream stream =>
    simp only [hc, Option.bind_eq_bind] at h
    split at h
    all_goals
      rename_i hid
      simp only [Option.bind_eq_some_iff, Option.some.injEq, Prod.mk.injEq] at h
      obtain ⟨l₁, hl₁, rfl, rfl⟩ := h
    · exact .streamSuelto hc hid hl₁
    · exact .stream hc hid hl₁
  | otra =>
    rw [hc] at h
    obtain ⟨rfl, rfl⟩ := Prod.mk.inj (Option.some.inj h)
    exact .otra hc

/-- **Every line keeps what every line keeps of a program.** -/
theorem Lectura.Cumple.leerLinea {Q : String → Programa → Prop} (hQ : Conserva Q)
    {configuration : Config} {linea : String} {l l' : Lectura} {w : Option String}
    (hl : l.Cumple Q) (h : leerLinea configuration linea l = some (w, l')) : l'.Cumple Q := by
  cases pasoLinea_of_leerLinea h with
  | @programa id hc =>
    have hl' : ({ l with programId := id, sid := id } : Lectura).Cumple Q := hl
    exact hl'.poner (hQ.nuevo id "") rfl
  | servicioSuelto hc hid => exact hl
  | @servicio nombre P hc hid hP => exact hl.poner (hQ.servicio (hl _ _ hP) nombre) rfl
  | streamSuelto hc hid hl' =>
    have hsuelta : ({ l with programId := "-1", sid := "-1", name := "No name" } : Lectura).Cumple Q :=
      hl
    have hsin : (sinPrograma l).Cumple Q := hsuelta.poner (hQ.nuevo "-1" "No name") rfl
    exact hsin.leerStream hQ (findStringSubmatch_of_clasificar hc) hl'
  | stream hc hid hl' => exact hl.leerStream hQ (findStringSubmatch_of_clasificar hc) hl'
  | otra hc => exact hl

/-- **A run of the line loop keeps it too.** -/
theorem Lectura.Cumple.leerLineas {Q : String → Programa → Prop} (hQ : Conserva Q)
    {configuration : Config} {lineas : List String} {p p' : Programa × Lectura}
    (hl : p.2.Cumple Q) (h : leerLineas configuration lineas p = some p') : p'.2.Cumple Q := by
  induction lineas generalizing p with
  | nil =>
    obtain rfl := Option.some.inj h
    exact hl
  | cons linea lineas ih =>
    obtain ⟨programa, l⟩ := p
    simp only [HlsXcoder.leerLineas, Option.bind_eq_bind, Option.bind_eq_some_iff] at h
    obtain ⟨⟨w, l₁⟩, hlinea, h⟩ := h
    exact ih (hl.leerLinea hQ hlinea) h

/-- **So does the selection**: what every line keeps holds of the program
that is selected, under its own id. -/
theorem Conserva.obtenerStreamsPost {Q : String → Programa → Prop} (hQ : Conserva Q)
    {configuration : Config} {lineas : List String} {previo programa : Programa} {resumen : String}
    (h : obtenerStreamsPost configuration lineas previo = some (programa, resumen)) :
    ∃ id, Q id programa := by
  simp only [HlsXcoder.obtenerStreamsPost, Option.bind_eq_bind, Option.bind_eq_some_iff,
    Option.some.injEq, Prod.mk.injEq] at h
  obtain ⟨⟨leido, l⟩, hleer, P, hP, rfl, -⟩ := h
  exact ⟨leido.id, Lectura.Cumple.leerLineas hQ (Lectura.cumple_inicial Q) hleer _ _ hP⟩

/-! ## The languages of a probed program -/

/-- The characters of the languages of a probed program. -/
def esDeIdioma (c : Char) : Bool := c.isAlphanum || c = ',' || c = '_'

/-- The languages of a probed program: letters, digits, commas and
underscores. -/
structure EsIdioma (language : String) : Prop where
  ne_empty : language ≠ ""
  chars : language.toList.all esDeIdioma = true

def Programa.ConIdiomas (programa : Programa) : Prop :=
  ∀ elem ∈ programa.audio ++ programa.subtitulos, EsIdioma elem.language

/-- The letters of the pattern of the streams. -/
def letra : CharClass := ⟨false, [('a', 'z'), ('A', 'Z')]⟩

theorem mem_letra {c : Char} : letra.mem c = true ↔ c.isAlpha = true := by
  unfold Char.isAlpha Char.isUpper Char.isLower
  simp only [letra, CharClass.mem, List.any_cons, List.any_nil, Bool.or_false, Bool.false_bne,
    Bool.or_eq_true, Bool.and_eq_true, decide_eq_true_eq]
  exact or_comm

/-- A language tag is made of letters and commas. -/
theorem letra_grupo {linea : String} {stream : ℕ → String}
    (h : findStringSubmatch streamReg linea = some stream) :
    ∀ c ∈ (stream 3).toList, c.isAlpha = true ∨ c = ',' := by
  obtain ⟨m, hm, rfl⟩ := Option.map_eq_some_iff.1 h
  rw [String.toList_ofList]
  refine Re.forall_mem_group [letra, .single ','] (by decide +kernel) (fun k hk c hc => ?_) hm
  obtain rfl | hk := List.mem_cons.1 hk
  · exact .inl (mem_letra.1 hc)
  · rw [List.mem_singleton.1 hk, CharClass.mem_single] at hc
    exact .inr hc

theorem chars_grupo {linea : String} {stream : ℕ → String}
    (h : findStringSubmatch streamReg linea = some stream) :
    (stream 3).toList.all esDeIdioma = true := by
  rw [List.all_eq_true]
  intro c hc
  obtain hc | rfl := letra_grupo h c hc
  · simp [esDeIdioma, Char.isAlphanum, hc]
  · rfl

theorem EsIdioma.append {a b : String} (ha : EsIdioma a) (hb : b.toList.all esDeIdioma = true) :
    EsIdioma (a ++ b) := by
  refine ⟨fun h => ha.ne_empty ?_, ?_⟩
  · exact (show a = "" ∧ b = "" by simpa using h).1
  · rw [String.toList_append, List.all_append, ha.chars, hb]
    rfl

theorem chars_decimalId (elem : Stream) : (decimalId elem).toList.all esDeIdioma = true := by
  rw [List.all_eq_true]
  intro c hc
  simp only [decimalId, Nat.toString_eq_repr, Nat.repr, String.toList_ofList] at hc
  have hdigit := Nat.isDigit_of_mem_toDigits (by decide) (by decide) hc
  simp [esDeIdioma, Char.isAlphanum, hdigit]

theorem esIdioma_languageOr {elem : Stream} (h : elem.language.toList.all esDeIdioma = true)
    {sinIdioma : String} (hs : EsIdioma sinIdioma) : EsIdioma (languageOr elem sinIdioma) := by
  unfold languageOr
  split
  · exact hs
  · rename_i hne
    exact ⟨hne, h⟩

/-- The key of an audio stream stays a language, however often its PID is
put behind it. -/
theorem esIdioma_audioLanguage {elem : Stream} (h : elem.language.toList.all esDeIdioma = true)
    (audio : List Stream) : EsIdioma (audioLanguage elem audio) := by
  have hdecimal : ("_" ++ decimalId elem).toList.all esDeIdioma = true := by
    rw [String.toList_append, List.all_append, chars_decimalId]
    rfl
  have hkey : EsIdioma (audioKey elem) := by
    rw [audioKey, String.append_assoc]
    exact (esIdioma_languageOr h ⟨by decide, by decide⟩).append hdecimal
  unfold audioLanguage
  generalize audioKey elem = language at hkey
  induction audio generalizing language with
  | nil => exact hkey
  | cons a audio ih =>
    rw [List.foldl_cons]
    refine ih _ ?_
    split
    · rw [String.append_assoc]
      exact hkey.append hdecimal
    · exact hkey

/-! ## The ids that are written -/

/-- The id a line announces, after the program being read. -/
def anuncia (configuration : Config) (programId linea : String) : Option String :=
  match clasificar configuration linea with
  | .programa programId => some programId
  | .stream _ => if programId = "" then some "-1" else none
  | .servicio _ | .otra => none

/-- The ids a report announces. -/
def anuncios (configuration : Config) : String → List String → List String
  | _, [] => []
  | programId, linea :: lineas => match anuncia configuration programId linea with
    | some id => id :: anuncios configuration id lineas
    | none => anuncios configuration programId lineas

/-- Every program stands under its own id and has languages of the
probe. -/
def Lectura.Coherente (l : Lectura) : Prop :=
  ∀ id P, l.programas id = some P → P.id = id ∧ P.ConIdiomas

theorem Lectura.coherente_inicial : Lectura.inicial.Coherente := Lectura.cumple_inicial _

/-- **Every line keeps the programs under their own ids**, with languages
of the probe. -/
theorem conserva_coherente : Conserva fun id P => P.id = id ∧ P.ConIdiomas where
  nuevo id nombre := ⟨rfl, fun e he => by cases he⟩
  servicio h nombre := h
  video _ h fps chroma := h
  audio {id P linea stream} hs h := by
    refine ⟨h.1, fun e he => ?_⟩
    rw [List.append_assoc, List.mem_append, List.mem_append, List.mem_singleton] at he
    obtain he | rfl | he := he
    · exact h.2 e (List.mem_append_left _ he)
    · exact esIdioma_audioLanguage (chars_grupo hs) P.audio
    · exact h.2 e (List.mem_append_right _ he)
  subtitulo {id P linea stream} hs h _ := by
    refine ⟨h.1, fun e he => ?_⟩
    rw [← List.append_assoc, List.mem_append, List.mem_singleton] at he
    obtain he | rfl := he
    · exact h.2 e he
    · exact esIdioma_languageOr (chars_grupo hs) ⟨by decide, by decide⟩

/-- **Which id a line leaves being read.** It announces one, which becomes
the one being read and may be written to the variable, or it keeps the id
being read and writes nothing. -/
theorem leerLinea_cases {configuration : Config} {linea : String} {l l' : Lectura}
    {w : Option String} (h : leerLinea configuration linea l = some (w, l')) :
    (∃ id, anuncia configuration l.programId linea = some id ∧ l'.programId = id ∧
        (w = none ∨ w = some id ∧
          (configuration.idPrograma = "" ∨ configuration.idPrograma = id))) ∨
      anuncia configuration l.programId linea = none ∧ l'.programId = l.programId ∧ w = none := by
  rw [anuncia]
  cases pasoLinea_of_leerLinea h with
  | @programa id hc =>
    rw [hc]
    refine .inl ⟨id, rfl, rfl, ?_⟩
    by_cases hid : configuration.idPrograma = "" ∨ configuration.idPrograma = id
    · exact .inr ⟨if_pos hid, hid⟩
    · exact .inl (if_neg hid)
  | servicioSuelto hc hid => exact .inr ⟨by rw [hc], rfl, rfl⟩
  | servicio hc hid hP => exact .inr ⟨by rw [hc], rfl, rfl⟩
  | streamSuelto hc hid hl' =>
    -- streams before any header are those of the program without a number
    have hprog := programId_leerStream (findStringSubmatch_of_clasificar hc) hl'
    rw [hc]
    refine .inl ⟨"-1", if_pos hid, hprog, ?_⟩
    by_cases hvacio : configuration.idPrograma = ""
    · exact .inr ⟨if_pos hvacio, .inl hvacio⟩
    · exact .inl (if_neg hvacio)
  | stream hc hid hl' =>
    have hprog := programId_leerStream (findStringSubmatch_of_clasificar hc) hl'
    rw [hc]
    exact .inr ⟨if_neg hid, hprog, rfl⟩
  | otra hc => exact .inr ⟨by rw [hc], rfl, rfl⟩

/-- The ids a report writes to the variable. -/
def escritos (configuration : Config) : List String → Lectura → List String
  | [], _ => []
  | linea :: lineas, l => match leerLinea configuration linea l with
    | some (w, l') => w.toList ++ escritos configuration lineas l'
    | none => []

/-- **A written id is one of those announced**, and the one asked for, if
any was. -/
theorem mem_anuncios_of_mem_escritos {configuration : Config} {lineas : List String} {l : Lectura}
    {id : String} (h : id ∈ escritos configuration lineas l) :
    id ∈ anuncios configuration l.programId lineas ∧
      (configuration.idPrograma = "" ∨ configuration.idPrograma = id) := by
  induction lineas generalizing l with
  | nil => simp [escritos] at h
  | cons linea lineas ih =>
    rw [escritos] at h
    cases hlinea : leerLinea configuration linea l with
    | none => simp [hlinea] at h
    | some p =>
      obtain ⟨w, l'⟩ := p
      rw [hlinea] at h
      obtain h | h := List.mem_append.1 h
      · obtain ⟨id', ha, -, hw⟩ | ⟨-, -, hw⟩ := leerLinea_cases hlinea
        · obtain hw | ⟨hw, hid⟩ := hw
          · simp [hw] at h
          · obtain rfl : id = id' := by simpa [hw] using h
            exact ⟨by simp [anuncios, ha], hid⟩
        · simp [hw] at h
      · obtain ⟨hmem, hid⟩ := ih h
        refine ⟨?_, hid⟩
        obtain ⟨id', ha, hprog, -⟩ | ⟨ha, hprog, -⟩ := leerLinea_cases hlinea
        · rw [anuncios, ha, ← hprog]
          exact List.mem_cons_of_mem _ hmem
        · rw [anuncios, ha, ← hprog]
          exact hmem

@[simp] theorem Programa.id_escribirId (programa : Programa) (w : Option String) :
    (programa.escribirId w).id = w.getD programa.id := by
  cases w <;> rfl

/-- Reading two reports one after the other. -/
theorem leerLineas_append (configuration : Config) (a b : List String) (p : Programa × Lectura) :
    leerLineas configuration (a ++ b) p =
      (leerLineas configuration a p).bind (leerLineas configuration b) := by
  induction a generalizing p with
  | nil => rfl
  | cons linea a ih =>
    obtain ⟨programa, l⟩ := p
    simp only [List.cons_append, leerLineas, Option.bind_eq_bind]
    cases leerLinea configuration linea l with
    | none => rfl
    | some q => simp [ih]

/-- What a reading leaves behind: the last id written, and the programs
under their ids. -/
theorem leerLineas_spec {configuration : Config} {lineas : List String} {programa programa' : Programa}
    {l l' : Lectura} (h : leerLineas configuration lineas (programa, l) = some (programa', l')) :
    programa'.id = (escritos configuration lineas l).getLastD programa.id ∧
      (l.Coherente → l'.Coherente) ∧
      ∀ resto, escritos configuration (lineas ++ resto) l =
        escritos configuration lineas l ++ escritos configuration resto l' := by
  induction lineas generalizing programa l with
  | nil =>
    obtain ⟨rfl, rfl⟩ := Prod.mk.inj (Option.some.inj h)
    exact ⟨rfl, id, fun _ => rfl⟩
  | cons linea lineas ih =>
    simp only [leerLineas, Option.bind_eq_bind, Option.bind_eq_some_iff] at h
    obtain ⟨⟨w, l₁⟩, hlinea, h⟩ := h
    obtain ⟨hid, hcoh, hresto⟩ := ih h
    refine ⟨?_, fun hl => hcoh (Lectura.Cumple.leerLinea conserva_coherente hl hlinea), fun resto => ?_⟩
    · rw [hid, escritos, hlinea, Programa.id_escribirId]
      cases w with
      | none => rfl
      | some id => exact List.getLastD_cons.symm
    · simp [escritos, hlinea, hresto resto]

/-- **The languages of the program that is selected.** -/
theorem conIdiomas_of_obtenerStreamsPost {configuration : Config} {lineas : List String}
    {previo programa : Programa} {resumen : String}
    (h : obtenerStreamsPost configuration lineas previo = some (programa, resumen)) :
    programa.ConIdiomas := by
  simp only [obtenerStreamsPost, Option.bind_eq_bind, Option.bind_eq_some_iff, Option.some.injEq,
    Prod.mk.injEq] at h
  obtain ⟨⟨leido, l⟩, hleer, P, hP, rfl, -⟩ := h
  exact ((leerLineas_spec hleer).2.1 Lectura.coherente_inicial _ _ hP).2

end HlsXcoder
