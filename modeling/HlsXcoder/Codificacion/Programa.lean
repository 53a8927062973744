import HlsXcoder.Lib.Text

/-!
# Programs and their streams

A program is what one run transcodes: a video stream, and the audio and
subtitle streams kept of it. The functions here read one stream or one
numeral: the stream specifier `-map` takes (`getMapId`), the rate cap of
a bitrate (`calcularBitrateMaximo`) and the decimal value of a PID
(`hex2int`).

A slice out of range stops the Go program, so a function that may do
that returns an `Option`.
-/

namespace HlsXcoder

/-- A video, audio or subtitle stream of the input. -/
structure Stream where
  id : String
  hexaId : String
  format : String
  language : String
  fps : String
  chroma : String
  deriving DecidableEq, Repr, Inhabited

/-- The program chosen from the input. -/
structure Programa where
  id : String
  nombre : String
  video : Stream
  audio : List Stream
  subtitulos : List Stream
  deriving DecidableEq, Repr, Inhabited

/-- The decimal text of an integer. -/
def itoa (n : Int) : String := toString n

/-- Whether a text contains another one. -/
def contiene (s t : String) : Bool := s.toList.tails.any fun r => t.toList.isPrefixOf r

/-- The pieces of a text between two separators. -/
def split (s : String) (sep : Char) : List String := (s.toList.splitOn sep).map String.ofList

/-- The value of a run of decimal digits. -/
def valorDecimal (ds : List Char) : ℕ := Nat.ofDigitChars 10 ds 0

/-- A decimal integer, with an optional sign. -/
def atoi (s : List Char) : Option Int :=
  let natural (ds : List Char) : Option ℕ :=
    if ds ≠ [] ∧ ds.all Char.isDigit then some (valorDecimal ds) else none
  match s with
  | '-' :: ds => (natural ds).map fun n => -(n : Int)
  | '+' :: ds => (natural ds).map fun n => (n : Int)
  | ds => (natural ds).map fun n => (n : Int)

/-- The rate cap of a bitrate, from its first two bytes. A bitrate of
fewer than two bytes is sliced out of range; one that does not start with
a number is its own cap. -/
def calcularBitrateMaximo (bitrate : String) : Option String :=
  match bitrate.toList with
  | [] => none
  | [c] => if c.utf8Size < 2 then none else some bitrate
  | c :: d :: _ => match atoi [c, d] with
    | none => some bitrate
    | some num => some (itoa (7 * num + num * 100))

/-- The stream specifier of a stream: its index where it has no PID,
otherwise its PID. -/
def getMapId (stream : Stream) : String :=
  if stream.hexaId = "" then "0:" ++ stream.id
  else if stream.id = "" then "0:v:0"
  else "i:" ++ stream.hexaId

/-- The text with every `0x` removed, left to right. -/
def quitar0x : List Char → List Char
  | '0' :: 'x' :: cs => quitar0x cs
  | c :: cs => c :: quitar0x cs
  | [] => []

/-- The value of a hexadecimal digit. -/
def digitoHex (c : Char) : Option ℕ :=
  if c.isDigit then some (c.toNat - '0'.toNat)
  else if 'a' ≤ c ∧ c ≤ 'f' then some (c.toNat - 'a'.toNat + 10)
  else if 'A' ≤ c ∧ c ≤ 'F' then some (c.toNat - 'A'.toNat + 10)
  else none

/-- An unsigned hexadecimal number of 64 bits, read digit by digit: `0`
at the first character that is no digit, the largest value at the first
digit that does not fit. -/
def parseUint16 : ℕ → List Char → ℕ
  | n, [] => n
  | n, c :: cs => match digitoHex c with
    | none => 0
    | some d => if 2 ^ 64 ≤ n * 16 + d then 2 ^ 64 - 1 else parseUint16 (n * 16 + d) cs

/-- The value of a PID. -/
def hex2int (hexStr : String) : ℕ := parseUint16 0 (quitar0x hexStr.toList)

/-- The frames per second of a stream, rounded to the nearest integer; a
text that is no numeral counts as `0`. This is exact where the numeral has
at most two decimals, as ffprobe prints them, and at most fifteen digits.
The source rounds a `float64`, which for longer numerals need not round
as the decimal does, and does not fit an `int` from `2 ^ 63` on. -/
def fpsInt (fps : String) : ℕ :=
  let entera := fps.toList.takeWhile Char.isDigit
  match fps.toList.dropWhile Char.isDigit with
  | [] => valorDecimal entera
  | '.' :: decimales =>
    if decimales.all Char.isDigit then
      (2 * valorDecimal (entera ++ decimales) + 10 ^ decimales.length) /
        (2 * 10 ^ decimales.length)
    else 0
  | _ => 0

/-- An integer of 64 bits, wrapped around. -/
def int64 (n : Int) : Int := n.bmod (2 ^ 64)

/-- The bitrates of the claims: decimal numerals of at least two
digits. -/
def EsBitrate (b : String) : Prop := 2 ≤ b.length ∧ b.toList.all Char.isDigit = true

instance : DecidablePred EsBitrate := fun _ => inferInstanceAs (Decidable (_ ∧ _))

theorem EsBitrate.isDigit {b : String} (h : EsBitrate b) {c : Char} (hc : c ∈ b.toList) :
    c.isDigit = true :=
  List.all_eq_true.1 h.2 c hc

theorem exists_cons_of_esBitrate {b : String} (hb : EsBitrate b) :
    ∃ d ds, b.toList = d :: ds ∧ d.isDigit = true := by
  obtain ⟨d, ds, hd⟩ := List.exists_cons_of_ne_nil (l := b.toList) fun hnil => by
    have := hb.1
    simp [← String.length_toList, hnil] at this
  exact ⟨d, ds, hd, hb.isDigit (by simp [hd])⟩

/-- **A bitrate of two digits or more has a rate cap.** -/
theorem calcularBitrateMaximo_isSome {b : String} (h : 2 ≤ b.length) :
    (calcularBitrateMaximo b).isSome := by
  rw [← String.length_toList] at h
  unfold calcularBitrateMaximo
  split
  · rename_i hb; simp [hb] at h
  · rename_i hb; simp [hb] at h
  · split <;> rfl

/-- Digits that have a rate cap are at least two. -/
theorem esBitrate_of_isSome {b : String} (hd : b.toList.all Char.isDigit = true)
    (h : (calcularBitrateMaximo b).isSome = true) : EsBitrate b := by
  refine ⟨?_, hd⟩
  rw [← String.length_toList]
  unfold calcularBitrateMaximo at h
  match hb : b.toList with
  | [] => simp [hb] at h
  | [c] =>
    -- a digit is a single byte
    have hc : c.isDigit = true := by simpa [hb] using hd
    have hsize : c.utf8Size = 1 := by
      have hle := (Char.isDigit_iff_toNat.1 hc).2
      rw [Char.utf8Size_eq_one_iff, UInt32.le_iff_toNat_le]
      exact Nat.le_trans hle (by decide)
    simp [hb, hsize] at h
  | c :: d :: ds => simp

/-- A stream specifier never starts with a dash or a bracket. -/
theorem getMapId_toList (s : Stream) :
    ∃ t, (getMapId s).toList = '0' :: t ∨ (getMapId s).toList = 'i' :: t := by
  unfold getMapId
  split
  · exact ⟨':' :: s.id.toList, Or.inl (by simp)⟩
  · split
    · exact ⟨[':', 'v', ':', '0'], Or.inl (by simp)⟩
    · exact ⟨':' :: s.hexaId.toList, Or.inr (by simp)⟩

example : getMapId { (default : Stream) with id := "1", hexaId := "0x100" } = "i:0x100" := by decide
example : calcularBitrateMaximo "2800" = some "2996" := by decide
example : hex2int "0x1FF" = 511 := by decide
example : fpsInt "29.97" = 30 := by decide

end HlsXcoder
