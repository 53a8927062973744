import HlsXcoder.Configuracion
import HlsXcoder.Codificacion.Programa
import HlsXcoder.Lib.Regexp.Find
import HlsXcoder.Lib.Regexp.Parse
import HlsXcoder.Lib.Text

/-!
# The command line

`obtenerArgumentos` turns the flags into a configuration. Each value of
`-cv` gives one encoding: the codec before the colon, which is rewritten
(`h265` becomes `hevc`, and `_nvenc` is taken out), and the bitrates after
it. A value that the pattern of `-cv` finds nothing in ends the reading
of them and makes the command line be refused.

The address of an input on YouTube is asked of another program, which is
a parameter here; where it fails, the program ends.
-/

namespace HlsXcoder

open Regexp

/-- The values of the flags, with their defaults. -/
structure Flags where
  i : String := ""
  o : String := "./media"
  videoplayerPath : String := "./www"
  ip : String := "localhost"
  port : Int := 8080
  r : String := ""
  sid : String := ""
  hlsListSize : Int := 30
  ds : Bool := false
  urlSubpath : String := "streaming"
  hlsTime : Int := 10
  re : Bool := false
  sn : Bool := false
  an : Bool := false
  vumeter : Bool := false
  test : Bool := false
  wn : Bool := false
  subLang : String := ""
  audioLang : String := ""
  streams : String := ""
  hwaccel : Bool := false
  log : Bool := false
  deint : Bool := false
  rf : Bool := false
  ca : String := ""
  tid : String := ""
  cv : List String := []
  deriving DecidableEq, Repr

/-- The identifier of an input: the FNV-1a hash of its bytes. -/
def generarIdentificador (s : String) : String :=
  let suma := (s.toList.flatMap String.utf8EncodeChar).foldl
    (fun h b => (h ^^^ b.toUInt32) * 16777619) (2166136261 : UInt32)
  toString suma.toNat

/-! ## The input -/

def rYoutube : Re := mustCompile "https://www.youtube.com/"

def rUdp : Re :=
  mustCompile "udp://([a-z|A-Z]+|([0-9]{1,3}\\.){3}[0-9]{1,3}):[0-9]{1,6}(/.+)*"

/-- The text without a suffix, if it ends in it. -/
def trimSuffix (s suffix : String) : String :=
  if suffix.toList.isSuffixOf s.toList then
    String.ofList (s.toList.take (s.length - suffix.length))
  else s

/-- The input ffmpeg reads. The other protocols the source looks for keep
their input as it is. -/
def transformarEntrada (youtubeDl : String → Option String) (input : String) : Option String :=
  if (rUdp.find input.toList).isSome then some (input ++ "?fifo_size=557753")
  else if (rYoutube.find input.toList).isSome then
    (youtubeDl input).map fun out => trimSuffix out "\n"
  else some input

/-! ## The encodings -/

def rCodificaciones : Re := mustCompile "([^:]{1,10})(?::([0-9]{1,5}(?:,[0-9]{1,5})*))?"

/-- The codec of a found value, with `h265` under its other name. -/
def codecDe (submatches : Found) : String :=
  let codec := String.ofList (submatches.group 1)
  if contiene codec "h265" then
    String.ofList (Text.replaceAll "h265".toList "hevc".toList codec.toList)
  else codec

/-- The encoding of a found value. -/
def codificacionDe (submatches : Found) : Codificacion where
  nombre :=
    let codec := codecDe submatches
    if contiene codec "_nvenc" then
      String.ofList (Text.replaceAll "_nvenc".toList [] codec.toList)
    else codec
  bitrates := (split (String.ofList (submatches.group 2)) ',').filter (· ≠ "")

/-- The encoding a value of `-cv` asks for. -/
def codificacionPedida (codificacionFlag : String) : Option Codificacion :=
  (rCodificaciones.find codificacionFlag.toList).map codificacionDe

example : codificacionPedida "h265_nvenc:2800,1400" = some ⟨"hevc", ["2800", "1400"]⟩ := by
  decide +kernel

/-- What the loop over the values of `-cv` leaves behind. -/
structure LecturaCv where
  ok : Bool
  codificaciones : List Codificacion
  nvenc : Bool
  deriving DecidableEq, Repr

/-- One more encoding. -/
def LecturaCv.anhadir (l : LecturaCv) (submatches : Found) : LecturaCv :=
  { l with codificaciones := l.codificaciones ++ [codificacionDe submatches],
           nvenc := l.nvenc || contiene (codecDe submatches) "_nvenc" }

/-- The loop over the values of `-cv`, which a refused value breaks. -/
def LecturaCv.leer (l : LecturaCv) : List String → LecturaCv
  | [] => l
  | codificacionFlag :: rest => match rCodificaciones.find codificacionFlag.toList with
    | none => { l with ok := false }
    | some submatches => (l.anhadir submatches).leer rest

/-! ## The configuration -/

/-- The codec and the bitrate of the audio. -/
def audioDe (codificacionBitrateAudio : String) : String × String :=
  let audioCodArray := split codificacionBitrateAudio ':'
  (audioCodArray.headD "", audioCodArray.getD 1 "")

/-- The set of the elements listed. -/
def conjunto (lista : String) : List String := (split lista ',').filter (· ≠ "")

/-- The configuration of the flags, once the input and the encodings are
known. -/
def configuracionDe (flags : Flags) (input : String) (codificaciones : List Codificacion)
    (nvenc : Bool) : Config where
  ip := flags.ip ++ ":" ++ itoa flags.port
  port := itoa flags.port
  input := input
  output := flags.o
  videoplayerPath := flags.videoplayerPath
  resolution := flags.r
  encodings := codificaciones
  hlsFragments := flags.hlsListSize
  hlsTime := flags.hlsTime
  idPrograma := flags.sid
  tid := flags.tid
  audioBitrate := (audioDe flags.ca).2
  subLang := conjunto flags.subLang
  audioLang := conjunto flags.audioLang
  streams := conjunto flags.streams
  sn := flags.sn
  an := flags.an
  wn := flags.wn
  re := flags.re
  vumeter := flags.vumeter
  deint := flags.deint
  rf := flags.rf
  test := flags.test
  nvenc := nvenc
  hwaccel := flags.hwaccel
  disableStreaming := flags.ds
  log := flags.log
  audioCodificacion := (audioDe flags.ca).1
  urlSubpath := flags.urlSubpath
  server := flags.ip
  mediaId := generarIdentificador input

/-- **The configuration of a command line**, and whether it is
accepted. -/
def obtenerArgumentos (youtubeDl : String → Option String) (flags : Flags) :
    Option (Bool × Config) := do
  let lectura := LecturaCv.leer ⟨decide (0 < flags.i.length), [], false⟩ flags.cv
  let input ← transformarEntrada youtubeDl flags.i
  some (lectura.ok, configuracionDe flags input lectura.codificaciones lectura.nvenc)

/-! ## What an accepted command line gives -/

/-- A value of `-cv` that asks for the GPU. -/
def pideNvenc (codificacionFlag : String) : Bool :=
  (rCodificaciones.find codificacionFlag.toList).any fun m => contiene (codecDe m) "_nvenc"

/-- **What the loop has read**, where it was never broken. -/
theorem LecturaCv.leer_eq {l : LecturaCv} {cv : List String} (h : (l.leer cv).ok = true) :
    l.ok = true ∧ ∃ ms : List Found, cv.map (rCodificaciones.find ·.toList) = ms.map some ∧
      l.leer cv = ⟨true, l.codificaciones ++ ms.map codificacionDe, l.nvenc || cv.any pideNvenc⟩ := by
  induction cv generalizing l with
  | nil => exact ⟨h, [], rfl, by rw [← (h : l.ok = true)]; simp [leer]⟩
  | cons v cv ih =>
    rw [leer] at h ⊢
    cases hv : rCodificaciones.find v.toList with
    | none => rw [hv] at h; simp at h
    | some m =>
      rw [hv] at h
      obtain ⟨hok, ms, hms, heq⟩ := ih (l := l.anhadir m) h
      have hnvenc : pideNvenc v = contiene (codecDe m) "_nvenc" := by simp [pideNvenc, hv]
      refine ⟨hok, m :: ms, by simp [hms, hv], ?_⟩
      refine Eq.trans heq ?_
      simp only [anhadir, hnvenc, List.map_cons, List.any_cons, List.append_assoc,
        List.singleton_append, Bool.or_assoc]

/-- **The configuration of an accepted command line.** -/
theorem obtenerArgumentos_accepted {youtubeDl : String → Option String} {flags : Flags}
    {configuration : Config} (h : obtenerArgumentos youtubeDl flags = some (true, configuration)) :
    ∃ (input : String) (ms : List Found), transformarEntrada youtubeDl flags.i = some input ∧
      flags.cv.map (rCodificaciones.find ·.toList) = ms.map some ∧
      configuration =
        configuracionDe flags input (ms.map codificacionDe) (flags.cv.any pideNvenc) := by
  rw [obtenerArgumentos] at h
  cases hi : transformarEntrada youtubeDl flags.i with
  | none => simp [hi] at h
  | some input =>
    simp only [hi, Option.bind_eq_bind, Option.bind_some, Option.some.injEq, Prod.mk.injEq] at h
    obtain ⟨-, ms, hms, heq⟩ := LecturaCv.leer_eq h.1
    refine ⟨input, ms, rfl, hms, ?_⟩
    rw [← h.2, heq, List.nil_append, Bool.false_or]

/-- **The encoding of a position is read off the value of that
position.** -/
theorem encodings_getElem? {youtubeDl : String → Option String} {flags : Flags}
    {configuration : Config} (h : obtenerArgumentos youtubeDl flags = some (true, configuration))
    (i : ℕ) : configuration.encodings[i]? = flags.cv[i]?.bind codificacionPedida := by
  obtain ⟨input, ms, -, hms, rfl⟩ := obtenerArgumentos_accepted h
  have hi : (flags.cv.map (rCodificaciones.find ·.toList))[i]? = (ms.map some)[i]? := by rw [hms]
  simp only [List.getElem?_map] at hi
  simp only [configuracionDe, List.getElem?_map]
  cases hcv : flags.cv[i]? with
  | none => simpa [hcv] using hi.symm
  | some v =>
    rw [hcv] at hi
    cases hm : ms[i]? with
    | none => simp [hm] at hi
    | some m =>
      have hfind : rCodificaciones.find v.toList = some m := by simpa [hm] using hi
      simp [codificacionPedida, hfind]

theorem isSome_codificacionPedida {youtubeDl : String → Option String} {flags : Flags} {c : Config}
    {i : ℕ} {v : String} (hc : obtenerArgumentos youtubeDl flags = some (true, c))
    (hv : flags.cv[i]? = some v) : (codificacionPedida v).isSome = true := by
  obtain ⟨-, ms, -, hms, -⟩ := obtenerArgumentos_accepted hc
  have hmem : rCodificaciones.find v.toList ∈ ms.map some := by
    rw [← hms]
    exact List.mem_map.2 ⟨v, List.mem_of_getElem? hv, rfl⟩
  obtain ⟨m, -, hm⟩ := List.mem_map.1 hmem
  simp [codificacionPedida, ← hm]

/-! ## The shape of what is read -/

/-- The identifier of an input is a decimal numeral. -/
theorem isDigit_of_mem_generarIdentificador {s : String} {c : Char}
    (h : c ∈ (generarIdentificador s).toList) : c.isDigit = true := by
  simp only [generarIdentificador, Nat.toString_eq_repr, Nat.repr, String.toList_ofList] at h
  exact Nat.isDigit_of_mem_toDigits (by decide) (by decide) h

theorem generarIdentificador_ne_nil (s : String) : (generarIdentificador s).toList ≠ [] := by
  simp [generarIdentificador, Nat.toString_eq_repr, Nat.repr]

/-- The digits of the pattern of `-cv`. -/
def digito : CharClass := ⟨false, [('0', '9')]⟩

theorem mem_digito {c : Char} : digito.mem c = true ↔ c.isDigit = true := by
  simp [digito, CharClass.mem, Char.isDigit, Char.le_def]

/-- A numeral of the pattern of `-cv`. -/
def numeral : Re := .rep (.char digito) 1 (some 5) true

/-- The second group of the pattern: numerals between commas. -/
theorem groups_rCodificaciones {t : Re} (h : (2, t) ∈ rCodificaciones.groups) :
    t = .seq numeral (.rep (.seq (.char (.single ',')) numeral) 0 none true) := by
  have hgroups : rCodificaciones.groups =
      [(1, .rep (.char ⟨true, [(':', ':')]⟩) 1 (some 10) true),
        (2, .seq numeral (.rep (.seq (.char (.single ',')) numeral) 0 none true))] := by
    decide +kernel
  simpa [hgroups] using h

/-- **Numerals between commas are what cutting at the commas gives
back.** -/
theorem lang_splitOn {w : List Char}
    (h : (Re.seq numeral (.rep (.seq (.char (.single ',')) numeral) 0 none true)).Lang w) :
    ∀ d ∈ w.splitOn ',', numeral.Lang d := by
  obtain ⟨u, v, rfl, hu, ws, rfl, hws, -⟩ := h
  have hds : ∃ ds : List (List Char), u ++ ws.flatten = [','].intercalate (u :: ds) ∧
      ∀ d ∈ ds, numeral.Lang d := by
    clear hu
    induction ws generalizing u with
    | nil => exact ⟨[], by simp, by simp⟩
    | cons w ws ih =>
      obtain ⟨c, d, rfl, ⟨c', hc', rfl⟩, hd⟩ := hws w (by simp)
      obtain ⟨ds, heq, hds⟩ := ih (u := d) fun x hx => hws x (by simp [hx])
      rw [CharClass.mem_single] at hc'
      exact ⟨d :: ds, by simp [hc', heq], by simpa [hd] using hds⟩
  obtain ⟨ds, heq, hds⟩ := hds
  have hall : ∀ d ∈ u :: ds, numeral.Lang d := by simpa [hu] using hds
  rw [heq, List.splitOn_intercalate ',' _ (by simp)]
  · exact hall
  · intro d hd hcomma
    have hdigit := mem_digito.1 ((Re.lang_rep_char.1 (hall d hd)).1 ',' hcomma)
    revert hdigit
    decide

/-- **The bitrates of an encoding are numerals of at most five
digits.** -/
theorem bitrates_codificacionPedida {v : String} {codificacion : Codificacion}
    (h : codificacionPedida v = some codificacion) {b : String} (hb : b ∈ codificacion.bitrates) :
    b.length ≤ 5 ∧ ∀ c ∈ b.toList, c.isDigit = true := by
  obtain ⟨m, hm, rfl⟩ := Option.map_eq_some_iff.1 h
  simp only [codificacionDe, split, List.mem_filter, List.mem_map, String.toList_ofList,
    decide_eq_true_eq] at hb
  obtain ⟨⟨d, hd, rfl⟩, hne⟩ := hb
  obtain hnil | ⟨t, ht, hl⟩ := Re.group_of_find hm 2
  · simp only [hnil, List.splitOn_nil, List.mem_singleton] at hd
    exact absurd (by rw [hd]) hne
  · rw [groups_rCodificaciones ht] at hl
    obtain ⟨hdigits, -, hlen⟩ := Re.lang_rep_char.1 (lang_splitOn hl d hd)
    refine ⟨?_, fun c hc => mem_digito.1 (hdigits c (by simpa using hc))⟩
    rw [← String.length_toList, String.toList_ofList]
    exact hlen 5 rfl

/-- **The bitrates of an accepted command line** are numerals of at most
five digits. -/
theorem bitrates_of_mem_encodings {youtubeDl : String → Option String} {flags : Flags} {c : Config}
    (hc : obtenerArgumentos youtubeDl flags = some (true, c)) {codificacion : Codificacion}
    (hcod : codificacion ∈ c.encodings) {b : String} (hb : b ∈ codificacion.bitrates) :
    b.length ≤ 5 ∧ ∀ d ∈ b.toList, d.isDigit = true := by
  obtain ⟨i, hi⟩ := List.getElem?_of_mem hcod
  rw [encodings_getElem? hc] at hi
  obtain ⟨v, -, hv⟩ := Option.bind_eq_some_iff.1 hi
  exact bitrates_codificacionPedida hv hb

end HlsXcoder
