import HlsXcoder.Codificacion.Informe
import HlsXcoder.Lib.Regexp.Captures

/-!
# The streams of the report

A stream has a line of its own, with its index, its PID where the format
shows PIDs, its language tag, if any, and its type, and lines of metadata
below.

The pattern of the streams is not anchored and its tag is optional, so a
line need not read as what it is; but where it reads as a stream at all,
its index and its PID are read back (`grupos_flujo`).
-/

namespace HlsXcoder

open Regexp

/-- A stream of the report. -/
structure Flujo where
  indice : ℕ
  pid : Option ℕ
  language : Option String
  tipo : String
  descripcion : String
  detalle : List String
  deriving DecidableEq, Repr

/-- The PID as it is printed, without its brackets. -/
def Flujo.hexaId (f : Flujo) : String :=
  match f.pid with
  | some pid => "0x" ++ String.ofList (Nat.toDigits 16 pid)
  | none => ""

/-- What identifies a stream: its index and its PID. -/
def Flujo.clave (f : Flujo) : String × String := (toString f.indice, f.hexaId)

def Flujo.textoPid (f : Flujo) : String :=
  match f.pid with
  | some _ => "[" ++ f.hexaId ++ "]"
  | none => ""

def Flujo.textoLanguage (f : Flujo) : String :=
  match f.language with
  | some language => "(" ++ language ++ ")"
  | none => ""

/-- The line of a stream. -/
def Flujo.linea (f : Flujo) : String :=
  "    Stream #0:" ++ toString f.indice ++ f.textoPid ++ f.textoLanguage ++ ": " ++ f.tipo ++ ": " ++
    f.descripcion

def Flujo.lineas (f : Flujo) : List String := f.linea :: f.detalle

/-- A line that is neither the header of a program nor a stream. -/
def Neutra (linea : String) : Prop :=
  findStringSubmatch progReg linea = none ∧ findStringSubmatch streamReg linea = none

instance : DecidablePred Neutra := fun linea =>
  decidable_of_iff ((findStringSubmatch progReg linea).isNone = true ∧
    (findStringSubmatch streamReg linea).isNone = true) (by simp [Neutra])

/-- **A stream whose text looks like no header**, neither that of a
program nor that of another stream. -/
structure Flujo.Valido (f : Flujo) : Prop where
  progReg : findStringSubmatch progReg f.linea = none
  unico : ∀ a b, f.linea.toList = a ++ "Stream #0:".toList ++ b → a = "    ".toList
  detalle : ∀ linea ∈ f.detalle, Neutra linea

/-! ## The pattern of the streams -/

/-- The hexadecimal digits of the patterns. -/
def xdigit : CharClass := ⟨false, [('0', '9'), ('A', 'F'), ('a', 'f')]⟩

/-- A PID. -/
def hexaReg : Re :=
  .seq (.rep (.seq (.char (.single '0')) (.char ⟨false, [('x', 'x'), ('X', 'X')]⟩)) 0 (some 1) true)
    (.rep (.char xdigit) 1 none true)

/-- A code of three letters. -/
def codigoReg : Re := .rep (.char letra) 3 (some 3) true

/-- A language tag: codes between commas. -/
def tagReg : Re := .seq codigoReg (.rep (.seq (.char (.single ',')) codigoReg) 0 none false)

/-- The characters of a codec. -/
def codecClase : CharClass := ⟨false, [('a', 'z'), ('0', '9'), ('_', '_')]⟩

/-- An expression between two characters. -/
def entre (a : Char) (r : Re) (b : Char) : Re :=
  Re.cat [.char (.single a), r, .char (.single b)]

/-- The form of a stream line: a start, an index, two optional fields, and
a type and a codec behind colons. -/
def formaStream (inicio dosPuntos : List Char) : Re :=
  Re.cat ((inicio.map fun d => .char (.single d)) ++
    .group 1 (.rep (.char cifra) 1 none true) ::
    .rep (entre '[' (.group 2 hexaReg) ']') 0 (some 1) true ::
    .rep (entre '(' (.group 3 tagReg) ')') 0 (some 1) true ::
    ((dosPuntos.map fun d => .char (.single d)) ++
      .group 4 (.rep (.char letra) 1 none true) ::
      ((dosPuntos.map fun d => .char (.single d)) ++
        [.group 5 (.rep (.char codecClase) 1 none true)])))

theorem streamReg_eq : streamReg = formaStream "Stream #0:".toList [':', ' '] := by
  decide +kernel

theorem parses_entre {a b : Char} {i : ℕ} {r : Re} (hr : r.groups = []) {w : List Char}
    {cs : List (ℕ × List Char)} (h : (entre a (.group i r) b).Parses w cs) :
    ∃ v, w = a :: (v ++ [b]) ∧ r.Lang v ∧ cs = [(i, v)] := by
  obtain ⟨_, _, _, _, rfl, rfl, ⟨⟨c, hc, rfl⟩, rfl⟩, hresto⟩ := Re.Parses.cat_cons h
  obtain ⟨v, _, _, _, rfl, rfl, hv, ⟨⟨d, hd, rfl⟩, rfl⟩⟩ := Re.Parses.cat_cons hresto
  obtain ⟨hlang, rfl⟩ := hv.group_plain hr
  rw [CharClass.mem_single.1 hc, CharClass.mem_single.1 hd]
  exact ⟨v, rfl, hlang, by simp⟩

/-- An optional field of a stream line: left out, or between its
brackets. -/
def Campo (a : Char) (i : ℕ) (r : Re) (b : Char) (w : List Char) (cs : List (ℕ × List Char)) : Prop :=
  w = [] ∧ cs = [] ∨ ∃ v, w = a :: (v ++ [b]) ∧ r.Lang v ∧ cs = [(i, v)]

/-- **A text that reads as a stream**, by its fields. -/
theorem parses_formaStream {inicio dosPuntos w : List Char} {cs : List (ℕ × List Char)}
    (h : (formaStream inicio dosPuntos).Parses w cs) :
    ∃ w₁ w₂ w₃ w₄ w₅ cs₂ cs₃,
      w = inicio ++ (w₁ ++ (w₂ ++ (w₃ ++ (dosPuntos ++ (w₄ ++ (dosPuntos ++ w₅)))))) ∧
      cs = [(5, w₅), (4, w₄)] ++ cs₃ ++ cs₂ ++ [(1, w₁)] ∧
      (∀ c ∈ w₁, cifra.mem c = true) ∧ Campo '[' 2 hexaReg ']' w₂ cs₂ ∧
      Campo '(' 3 tagReg ')' w₃ cs₃ ∧ (∀ c ∈ w₄, letra.mem c = true) := by
  obtain ⟨_, rfl, hr₀⟩ := h.cat_lit
  obtain ⟨w₁, _, _, _, rfl, rfl, h₁, hr₁⟩ := Re.Parses.cat_cons hr₀
  obtain ⟨w₂, _, cs₂, _, rfl, rfl, h₂, hr₂⟩ := Re.Parses.cat_cons hr₁
  obtain ⟨w₃, _, cs₃, _, rfl, rfl, h₃, hr₃⟩ := Re.Parses.cat_cons hr₂
  obtain ⟨_, rfl, hr₄⟩ := hr₃.cat_lit
  obtain ⟨w₄, _, _, _, rfl, rfl, h₄, hr₅⟩ := Re.Parses.cat_cons hr₄
  obtain ⟨w₅, rfl, h₅⟩ := hr₅.cat_lit
  obtain ⟨hl₁, rfl⟩ := h₁.group_plain rfl
  obtain ⟨hl₄, rfl⟩ := h₄.group_plain rfl
  obtain ⟨-, rfl⟩ := Re.Parses.group_plain rfl h₅
  refine ⟨w₁, w₂, w₃, w₄, w₅, cs₂, cs₃, by simp, by simp, (Re.lang_rep_char.1 hl₁).1, ?_, ?_,
    (Re.lang_rep_char.1 hl₄).1⟩
  · exact h₂.opt.imp_right (parses_entre rfl)
  · exact h₃.opt.imp_right (parses_entre rfl)

/-- A search for the form finds its fields in the text, one after the
other. -/
theorem find_formaStream {r : Re} {inicio w : List Char} {m : Found}
    (hr : r = formaStream inicio [':', ' ']) (h : r.find w = some m) :
    ∃ a w₁ w₂ w₃ w₄ w₅ cs₂ cs₃,
      w = (a ++ inicio) ++ (w₁ ++ (w₂ ++ (w₃ ++ ':' :: ' ' :: (w₄ ++ ':' :: ' ' :: w₅)))) ∧
      (∃ codec, m.captures = (5, codec) :: (4, w₄) :: (cs₃ ++ (cs₂ ++ [(1, w₁)]))) ∧
      (∀ c ∈ w₁, cifra.mem c = true) ∧ Campo '[' 2 hexaReg ']' w₂ cs₂ ∧
      Campo '(' 3 tagReg ')' w₃ cs₃ ∧ (∀ c ∈ w₄, letra.mem c = true) := by
  obtain ⟨a, b, hw, hp⟩ := Re.parses_of_find h
  rw [hr] at hp
  obtain ⟨w₁, w₂, w₃, w₄, w₅, cs₂, cs₃, hwhole, hcs, h₁, h₂, h₃, h₄⟩ := parses_formaStream hp
  refine ⟨a, w₁, w₂, w₃, w₄, w₅ ++ b, cs₂, cs₃, ?_, ⟨w₅, by simp [hcs]⟩, h₁, h₂, h₃, h₄⟩
  rw [hw, hwhole]
  simp

/-! ## Reading a stream line -/

/-- A text that is empty or starts with a character. -/
def Abre (a : Char) (w : List Char) : Prop := w = [] ∨ ∃ v, w = a :: v

theorem Campo.abre {a b : Char} {i : ℕ} {r : Re} {w : List Char} {cs : List (ℕ × List Char)}
    (h : Campo a i r b w cs) : Abre a w :=
  h.imp And.left fun ⟨_, hw, _⟩ => ⟨_, hw⟩

/-- What follows the index is no digit. -/
theorem fenced_campos {u v t : List Char} (hu : Abre '[' u) (hv : Abre '(' v) :
    Text.Fenced (fun c => cifra.mem c = true) (u ++ (v ++ ':' :: t)) := by
  obtain rfl | ⟨u, rfl⟩ := hu
  · obtain rfl | ⟨v, rfl⟩ := hv
    · exact Text.fenced_cons.2 (by decide)
    · exact Text.fenced_cons.2 (by decide)
  · exact Text.fenced_cons.2 (by decide)

/-- What follows the PID starts no PID. -/
theorem campo_ne {v t u : List Char} (hv : Abre '(' v) : v ++ ':' :: t ≠ '[' :: u := by
  obtain rfl | ⟨v, rfl⟩ := hv <;> simp

section Linea

variable {f : Flujo} {m : Found}

theorem abre_textoPid (f : Flujo) : Abre '[' f.textoPid.toList := by
  rw [Flujo.textoPid]
  split
  · exact .inr ⟨f.hexaId.toList ++ [']'], by simp⟩
  · exact .inl rfl

theorem abre_textoLanguage (f : Flujo) : Abre '(' f.textoLanguage.toList := by
  rw [Flujo.textoLanguage]
  split
  · rename_i language _
    exact .inr ⟨language.toList ++ [')'], by simp⟩
  · exact .inl rfl

theorem toList_campos (indice pid language tipo descripcion : String) :
    ("    Stream #0:" ++ indice ++ pid ++ language ++ ": " ++ tipo ++ ": " ++ descripcion).toList =
      "    ".toList ++ ("Stream #0:".toList ++ (indice.toList ++ (pid.toList ++ (language.toList ++
        ':' :: ' ' :: (tipo.toList ++ ':' :: ' ' :: descripcion.toList))))) := by
  have hinicio : "    Stream #0:".toList = "    ".toList ++ "Stream #0:".toList := by simp
  repeat rw [String.toList_append]
  rw [hinicio]
  repeat rw [List.append_assoc]
  rfl

theorem toList_linea (f : Flujo) : f.linea.toList = "    ".toList ++ ("Stream #0:".toList ++
    ((toString f.indice).toList ++ (f.textoPid.toList ++ (f.textoLanguage.toList ++
      ':' :: ' ' :: (f.tipo.toList ++ ':' :: ' ' :: f.descripcion.toList))))) :=
  toList_campos (toString f.indice) f.textoPid f.textoLanguage f.tipo f.descripcion

theorem exists_of_mem_toDigits {b n : ℕ} (hb : 1 < b) {c : Char} (h : c ∈ Nat.toDigits b n) :
    ∃ d < b, Nat.digitChar d = c := by
  induction n using Nat.strongRecOn with
  | ind n ih =>
    rw [Nat.toDigits_eq_if hb] at h
    split at h
    · rename_i hlt
      exact ⟨n, hlt, (List.mem_singleton.1 h).symm⟩
    · rename_i hge
      obtain h | h := List.mem_append.1 h
      · exact ih (n / b) (Nat.div_lt_self (by omega) hb) h
      · exact ⟨n % b, Nat.mod_lt _ (by omega), (List.mem_singleton.1 h).symm⟩

theorem hexaReg_hexaId {pid : ℕ} (h : f.pid = some pid) : hexaReg.Lang f.hexaId.toList := by
  refine ⟨"0x".toList, Nat.toDigits 16 pid, ?_, Re.lang_opt.2 (.inr ?_), Re.lang_rep_char.2 ⟨?_, ?_, ?_⟩⟩
  · rw [Flujo.hexaId, h]
    exact String.toList_append.trans (congrArg _ String.toList_ofList)
  · exact ⟨['0'], ['x'], by decide, ⟨'0', by decide, rfl⟩, 'x', by decide, rfl⟩
  · intro c hc
    obtain ⟨d, hd, rfl⟩ := exists_of_mem_toDigits (b := 16) (by decide) hc
    have hcifras : ∀ d < 16, xdigit.mem (Nat.digitChar d) = true := by decide
    exact hcifras d hd
  · exact List.length_pos_iff.2 Nat.toDigits_ne_nil
  · simp

/-- The PID is read where it was printed, and as it was. -/
theorem pid_unico {u v s t w : List Char} {cs : List (ℕ × List Char)} (hu : Abre '(' u)
    (hv : Abre '(' v) (hw : Campo '[' 2 hexaReg ']' w cs)
    (h : f.textoPid.toList ++ (u ++ ':' :: s) = w ++ (v ++ ':' :: t)) :
    (cs = [] ∧ f.hexaId = "" ∨ cs = [(2, f.hexaId.toList)]) ∧ u ++ ':' :: s = v ++ ':' :: t := by
  rw [Flujo.textoPid] at h
  cases hpid : f.pid with
  | none =>
    simp only [hpid, String.toList_empty, List.nil_append] at h
    obtain ⟨rfl, rfl⟩ | ⟨x, rfl, -, rfl⟩ := hw
    · exact ⟨.inl ⟨rfl, by rw [Flujo.hexaId, hpid]⟩, h⟩
    · exact absurd h (campo_ne hu)
  | some pid =>
    have htexto : ("[" ++ f.hexaId ++ "]").toList = '[' :: (f.hexaId.toList ++ [']']) := by simp
    simp only [hpid, htexto, List.cons_append, List.append_assoc, List.nil_append] at h
    obtain ⟨rfl, rfl⟩ | ⟨x, rfl, hx, rfl⟩ := hw
    · exact absurd h.symm (campo_ne hv)
    · simp only [List.cons_append, List.append_assoc, List.nil_append, List.cons.injEq,
        true_and] at h
      obtain ⟨rfl, hresto⟩ :=
        Text.append_cons_inj_left (Re.not_mem_of_lang (by decide) (hexaReg_hexaId hpid))
          (Re.not_mem_of_lang (by decide) hx) h
      exact ⟨.inr rfl, hresto⟩

/-- **A stream that reads as one** is read with its own index and PID,
whatever its tag. -/
theorem partes_flujo (hf : f.Valido) (h : streamReg.find f.linea.toList = some m) :
    m.group 1 = (toString f.indice).toList ∧ m.group 2 = f.hexaId.toList ∧
      ∃ w cs resto, f.textoLanguage.toList ++
          ':' :: ' ' :: (f.tipo.toList ++ ':' :: ' ' :: f.descripcion.toList) =
        w ++ ':' :: ' ' :: (m.group 4 ++ ':' :: ' ' :: resto) ∧
        Campo '(' 3 tagReg ')' w cs ∧ (∀ c ∈ m.group 4, letra.mem c = true) := by
  obtain ⟨a, w₁, w₂, w₃, w₄, w₅, cs₂, cs₃, hw, ⟨codec, hcs⟩, h₁, h₂, h₃, h₄⟩ :=
    find_formaStream streamReg_eq h
  obtain rfl : a = "    ".toList := hf.unico a _ hw
  rw [toList_linea, List.append_assoc] at hw
  have hcampos := List.append_cancel_left (List.append_cancel_left hw)
  -- the index is the whole run of digits
  obtain ⟨rfl, hpid⟩ := Text.span_inj (fun c hc => mem_cifra_toString hc) h₁
    (fenced_campos (abre_textoPid f) (abre_textoLanguage f)) (fenced_campos h₂.abre h₃.abre) hcampos
  obtain ⟨hcs₂, hlanguage⟩ := pid_unico (abre_textoLanguage f) h₃.abre h₂ hpid
  have hg₄ : m.group 4 = w₄ := by simp [Found.group, hcs, List.lookup_cons]
  refine ⟨?_, ?_, w₃, cs₃, w₅, by rw [hg₄, hlanguage], h₃, hg₄ ▸ h₄⟩
  · obtain ⟨-, rfl⟩ | ⟨v, -, -, rfl⟩ := h₃ <;> obtain ⟨rfl, -⟩ | rfl := hcs₂ <;>
      simp [Found.group, hcs, List.lookup_cons]
  · obtain ⟨-, rfl⟩ | ⟨v, -, -, rfl⟩ := h₃ <;> obtain ⟨rfl, hvacio⟩ | rfl := hcs₂ <;>
      simp [Found.group, List.lookup_cons, *]

/-- A stream is read under its own index and PID. -/
theorem clave_flujo (hf : f.Valido) {stream : ℕ → String}
    (h : findStringSubmatch streamReg f.linea = some stream) : (stream 1, stream 2) = f.clave := by
  obtain ⟨m, hm, rfl⟩ := Option.map_eq_some_iff.1 h
  obtain ⟨h₁, h₂, -⟩ := partes_flujo hf hm
  simp only [Flujo.clave, h₁, h₂, String.ofList_toList]

/-- A stream line without another place where a stream may start. -/
theorem Flujo.valido_of (hprog : (findStringSubmatch progReg f.linea).isNone = true)
    (hunico : ∀ i < f.linea.toList.length + 1,
      "Stream #0:".toList.isPrefixOf (f.linea.toList.drop i) = true → i = 4)
    (hdetalle : ∀ linea ∈ f.detalle, Neutra linea) : f.Valido := by
  refine ⟨Option.isNone_iff_eq_none.1 hprog, fun a b h => ?_, hdetalle⟩
  have hlong : a.length = 4 := by
    refine hunico a.length ?_ ?_
    · rw [h]
      simp only [List.length_append]
      omega
    · rw [h, List.append_assoc, List.drop_left, List.isPrefixOf_iff_prefix]
      exact List.prefix_append _ _
  rw [toList_linea, List.append_assoc] at h
  exact (List.append_inj_left h hlong.symm).symm

/-! ## Tags -/

/-- A stream without a tag, or with a tag of three-letter codes between
commas. -/
def Flujo.TagLegible (f : Flujo) : Prop := ∀ language ∈ f.language, tagReg.Lang language.toList

/-- A stream printed as the probe prints them: the type in letters, a
codec behind it, and no bracket in the tag. -/
structure Flujo.Corriente (f : Flujo) : Prop where
  tipo : f.tipo ≠ ""
  letras : ∀ c ∈ f.tipo.toList, letra.mem c = true
  codec : ∃ c ∈ f.descripcion.toList.head?, codecClase.mem c = true
  tag : ∀ language ∈ f.language, ')' ∉ language.toList

theorem tipo_flujo (hf : f.Valido) (hc : f.Corriente) (h : streamReg.find f.linea.toList = some m) :
    f.TagLegible ∧ m.group 4 = f.tipo.toList := by
  obtain ⟨-, -, w, cs, resto, hcampos, hw, hletras⟩ := partes_flujo hf h
  have htipo : ∀ {s t : List Char}, f.tipo.toList ++ ':' :: s = m.group 4 ++ ':' :: t →
      m.group 4 = f.tipo.toList := fun h =>
    (Text.span_inj hc.letras hletras (Text.fenced_cons.2 (by decide))
      (Text.fenced_cons.2 (by decide)) h).1.symm
  rw [Flujo.textoLanguage] at hcampos
  cases hlanguage : f.language with
  | none =>
    simp only [hlanguage, String.toList_empty, List.nil_append] at hcampos
    obtain ⟨rfl, -⟩ | ⟨v, rfl, -, -⟩ := hw
    · have hresto : f.tipo.toList ++ ':' :: ' ' :: f.descripcion.toList =
          m.group 4 ++ ':' :: ' ' :: resto := by simpa using hcampos
      exact ⟨by simp [Flujo.TagLegible, hlanguage], htipo hresto⟩
    · simp at hcampos
  | some language =>
    have htexto : ("(" ++ language ++ ")").toList = '(' :: (language.toList ++ [')']) := by simp
    simp only [hlanguage, htexto, List.cons_append, List.append_assoc, List.nil_append] at hcampos
    obtain ⟨rfl, -⟩ | ⟨v, rfl, hv, -⟩ := hw
    · simp at hcampos
    · simp only [List.cons_append, List.append_assoc, List.nil_append, List.cons.injEq,
        true_and] at hcampos
      obtain ⟨rfl, hresto⟩ := Text.append_cons_inj_left
        (hc.tag language (by rw [hlanguage]; rfl)) (Re.not_mem_of_lang (by decide) hv) hcampos
      have hresto : f.tipo.toList ++ ':' :: ' ' :: f.descripcion.toList =
          m.group 4 ++ ':' :: ' ' :: resto := by simpa using hresto
      exact ⟨by simpa [Flujo.TagLegible, hlanguage] using hv, htipo hresto⟩

theorem lang_entre {a b : Char} {i : ℕ} {r : Re} {v : List Char} (hv : r.Lang v) :
    (entre a (.group i r) b).Lang (a :: (v ++ [b])) := by
  refine Re.lang_cat_cons.2 ⟨[a], v ++ [b], rfl, ⟨a, by simp, rfl⟩, ?_⟩
  exact Re.lang_cat_cons.2 ⟨v, [b], rfl, hv, b, by simp, rfl⟩

theorem lang_formaStream {inicio dosPuntos w₁ w₂ w₃ w₄ w₅ : List Char}
    (h₁ : (Re.rep (.char cifra) 1 none true).Lang w₁)
    (h₂ : w₂ = [] ∨ (entre '[' (.group 2 hexaReg) ']').Lang w₂)
    (h₃ : w₃ = [] ∨ (entre '(' (.group 3 tagReg) ')').Lang w₃)
    (h₄ : (Re.rep (.char letra) 1 none true).Lang w₄)
    (h₅ : (Re.rep (.char codecClase) 1 none true).Lang w₅) :
    (formaStream inicio dosPuntos).Lang
      (inicio ++ (w₁ ++ (w₂ ++ (w₃ ++ (dosPuntos ++ (w₄ ++ (dosPuntos ++ w₅))))))) := by
  refine Re.lang_cat_lit.2 ⟨_, rfl, Re.lang_cat_cons.2 ⟨w₁, _, rfl, h₁, ?_⟩⟩
  refine Re.lang_cat_cons.2 ⟨w₂, _, rfl, Re.lang_opt.2 h₂, ?_⟩
  refine Re.lang_cat_cons.2 ⟨w₃, _, rfl, Re.lang_opt.2 h₃, ?_⟩
  refine Re.lang_cat_lit.2 ⟨_, rfl, Re.lang_cat_cons.2 ⟨w₄, _, rfl, h₄, ?_⟩⟩
  exact Re.lang_cat_lit.2 ⟨w₅, rfl, h₅⟩

/-- **A stream reads as one exactly where its tag is legible.** -/
theorem find_flujo_isSome_iff (hf : f.Valido) (hc : f.Corriente) :
    (streamReg.find f.linea.toList).isSome = true ↔ f.TagLegible := by
  constructor
  · intro h
    obtain ⟨m, hm⟩ := Option.isSome_iff_exists.1 h
    exact (tipo_flujo hf hc hm).1
  · intro htag
    rw [Re.find_isSome_iff]
    obtain ⟨c, hc₅, hcodec⟩ := hc.codec
    obtain ⟨resto, hdescripcion⟩ := List.head?_eq_some_iff.1 hc₅
    refine ⟨"    ".toList, "Stream #0:".toList ++ ((toString f.indice).toList ++
      (f.textoPid.toList ++ (f.textoLanguage.toList ++
        ([':', ' '] ++ (f.tipo.toList ++ ([':', ' '] ++ [c])))))), resto, ?_, ?_⟩
    · rw [toList_linea, hdescripcion]
      simp only [List.append_assoc, List.cons_append, List.nil_append]
    · rw [streamReg_eq]
      refine lang_formaStream (Re.lang_rep_char.2 ⟨fun d hd => mem_cifra_toString hd, ?_, by simp⟩)
        ?_ ?_ (Re.lang_rep_char.2 ⟨hc.letras, ?_, by simp⟩)
        (Re.lang_rep_char.2 ⟨by simpa using hcodec, by simp, by simp⟩)
      · exact List.length_pos_iff.2 fun h => toString_ne_empty f.indice (String.toList_eq_nil_iff.1 h)
      · rw [Flujo.textoPid]
        split
        · rename_i pid hpid
          have htexto : ("[" ++ f.hexaId ++ "]").toList = '[' :: (f.hexaId.toList ++ [']']) := by simp
          exact .inr (htexto ▸ lang_entre (hexaReg_hexaId hpid))
        · exact .inl rfl
      · rw [Flujo.textoLanguage]
        split
        · rename_i language hlanguage
          have htexto : ("(" ++ language ++ ")").toList = '(' :: (language.toList ++ [')']) := by simp
          exact .inr (htexto ▸ lang_entre (htag language hlanguage))
        · exact .inl rfl
      · exact List.length_pos_iff.2 fun h => hc.tipo (String.toList_eq_nil_iff.1 h)

end Linea

end HlsXcoder
