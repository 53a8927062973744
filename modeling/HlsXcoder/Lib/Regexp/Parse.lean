import HlsXcoder.Lib.Regexp.Match

/-!
# Reading a pattern

Patterns are texts in the syntax of RE2. A text is cut into tokens
(`lex`) and the tokens are folded over a stack of open groups (`parse`).
What is covered is literals and escaped punctuation, `.`, bracketed
classes with ranges, negation and `[:xdigit:]`, capturing and
non-capturing groups, `|`, and the repetitions `*`, `+`, `?` and `{m,n}`,
greedy or lazy. Anything else is refused: anchors, flags, named groups
and the classes named by a letter.

A pattern of letters, digits and underscores describes itself alone
(`compile_plain`).
-/

namespace Regexp

/-- The class of one character. -/
def CharClass.single (c : Char) : CharClass := ⟨false, [(c, c)]⟩

@[simp] theorem CharClass.mem_single {c d : Char} : (CharClass.single c).mem d = true ↔ d = c := by
  simp only [CharClass.single, CharClass.mem, List.any_cons, List.any_nil, Bool.or_false,
    Bool.false_bne, Bool.and_eq_true, decide_eq_true_eq]
  exact ⟨fun h => Char.le_antisymm h.2 h.1, fun h => h ▸ ⟨Char.le_refl _, Char.le_refl _⟩⟩

/-- Any character but the newline. -/
def CharClass.dot : CharClass := ⟨true, [('\n', '\n')]⟩

@[simp] theorem CharClass.mem_dot {c : Char} : CharClass.dot.mem c = true ↔ c ≠ '\n' := by
  have h : CharClass.dot.mem c = !(CharClass.single '\n').mem c := by
    simp [CharClass.dot, CharClass.single, CharClass.mem]
  rw [h, Bool.not_eq_true', Bool.eq_false_iff, ne_eq, CharClass.mem_single]

/-- Letters, digits and the underscore, which no pattern syntax touches. -/
def IsPlain (c : Char) : Prop := c.isAlphanum = true ∨ c = '_'

instance : DecidablePred IsPlain := fun _ => inferInstanceAs (Decidable (_ ∨ _))

inductive Token where
  | char (k : CharClass)
  | openGroup (capturing : Bool)
  | closeGroup
  | bar
  | rep (min : ℕ) (max : Option ℕ) (greedy : Bool)
  deriving DecidableEq, Repr

/-! ## Tokens -/

/-- The members of a bracketed class, up to the bracket that closes it.
A bracket in first place is a member. -/
def lexMembers : ℕ → List (Char × Char) → List Char → Option (List (Char × Char) × List Char)
  | 0, _, _ => none
  | _ + 1, _, [] => none
  | n + 1, acc, '[' :: ':' :: 'x' :: 'd' :: 'i' :: 'g' :: 'i' :: 't' :: ':' :: ']' :: cs =>
    lexMembers n (acc ++ [('0', '9'), ('A', 'F'), ('a', 'f')]) cs
  | n + 1, acc, '\\' :: c :: cs =>
    if c.isAlphanum then none else lexMembers n (acc ++ [(c, c)]) cs
  | n + 1, acc, c :: cs =>
    if c = ']' ∧ acc ≠ [] then some (acc, cs)
    else match cs with
      | '-' :: d :: rest =>
        if d = ']' then lexMembers n (acc ++ [(c, c)]) cs
        else lexMembers n (acc ++ [(c, d)]) rest
      | _ => lexMembers n (acc ++ [(c, c)]) cs

/-- A bracketed class, after its opening bracket. -/
def lexClass (cs : List Char) : Option (CharClass × List Char) :=
  match cs with
  | '^' :: rest => (lexMembers rest.length [] rest).map fun m => (⟨true, m.1⟩, m.2)
  | _ => (lexMembers cs.length [] cs).map fun m => (⟨false, m.1⟩, m.2)

/-- A numeral and what follows it. -/
def lexNat (cs : List Char) : Option (ℕ × List Char) :=
  match cs.takeWhile Char.isDigit with
  | [] => none
  | ds => some (Nat.ofDigitChars 10 ds 0, cs.dropWhile Char.isDigit)

/-- Counted bounds `m}`, `m,}` or `m,n}`, after the opening brace. -/
def lexBounds (cs : List Char) : Option (ℕ × Option ℕ × List Char) :=
  match lexNat cs with
  | some (m, '}' :: rest) => some (m, some m, rest)
  | some (m, ',' :: '}' :: rest) => some (m, none, rest)
  | some (m, ',' :: rest) => match lexNat rest with
    | some (n, '}' :: rest) => some (m, some n, rest)
    | _ => none
  | _ => none

/-- A repetition is lazy when a question mark follows it. -/
def lexLazy (cs : List Char) : Bool × List Char :=
  match cs with
  | '?' :: rest => (false, rest)
  | _ => (true, cs)

/-- The tokens of a pattern. -/
def lex : ℕ → List Char → Option (List Token)
  | _, [] => some []
  | 0, _ :: _ => none
  | n + 1, c :: cs =>
    let repeated (min : ℕ) (max : Option ℕ) (rest : List Char) :=
      (lex n (lexLazy rest).2).map (.rep min max (lexLazy rest).1 :: ·)
    let literal (k : CharClass) (rest : List Char) := (lex n rest).map (.char k :: ·)
    match c with
    | '(' => match cs with
      | '?' :: ':' :: rest => (lex n rest).map (.openGroup false :: ·)
      | '?' :: _ => none
      | _ => (lex n cs).map (.openGroup true :: ·)
    | ')' => (lex n cs).map (.closeGroup :: ·)
    | '|' => (lex n cs).map (.bar :: ·)
    | '*' => repeated 0 none cs
    | '+' => repeated 1 none cs
    | '?' => repeated 0 (some 1) cs
    | '{' => match lexBounds cs with
      | some (min, max, rest) => repeated min max rest
      | none => literal (.single '{') cs
    | '.' => literal .dot cs
    | '[' => (lexClass cs).bind fun k => literal k.1 k.2
    | '\\' => match cs with
      | d :: rest => if d.isAlphanum then none else literal (.single d) rest
      | [] => none
    | '^' | '$' => none
    | c => literal (.single c) cs

/-! ## Expressions -/

/-- Expressions in sequence. -/
def Re.cat : List Re → Re
  | [] => .empty
  | [r] => r
  | r :: rs => .seq r (cat rs)

/-- Alternatives, in the order they are tried. -/
def Re.any : Re → List Re → Re
  | r, [] => r
  | r, s :: ss => .alt r (any s ss)

/-- An open group: its number if it captures, the alternatives closed so
far and the sequence being read, both latest first. -/
structure Frame where
  capture : Option ℕ
  alts : List Re
  cur : List Re

def Frame.push (f : Frame) (r : Re) : Frame := { f with cur := r :: f.cur }

/-- The expression of a group, when it closes. -/
def Frame.close (f : Frame) : Re :=
  let body := match (Re.cat f.cur.reverse :: f.alts).reverse with
    | [] => .empty
    | r :: rs => Re.any r rs
  match f.capture with
  | some i => .group i body
  | none => body

/-- The stack of open groups, innermost first, and the next group
number. -/
structure Stack where
  top : Frame
  below : List Frame
  next : ℕ

def Stack.start : Stack := ⟨⟨none, [], []⟩, [], 1⟩

/-- One token. -/
def Stack.step (s : Stack) : Token → Option Stack
  | .char k => some { s with top := s.top.push (.char k) }
  | .openGroup capturing =>
    some ⟨⟨if capturing then some s.next else none, [], []⟩, s.top :: s.below,
      if capturing then s.next + 1 else s.next⟩
  | .bar => some { s with top := { s.top with alts := Re.cat s.top.cur.reverse :: s.top.alts,
                                              cur := [] } }
  | .closeGroup => match s.below with
    | f :: fs => some { s with top := f.push s.top.close, below := fs }
    | [] => none
  | .rep min max greedy => match s.top.cur with
    | r :: rs => some { s with top := { s.top with cur := .rep r min max greedy :: rs } }
    | [] => none

/-- The expression the tokens spell. -/
def parse (ts : List Token) : Option Re :=
  match ts.foldlM Stack.step Stack.start with
  | some ⟨f, [], _⟩ => some f.close
  | _ => none

/-- **A pattern, read.** -/
def compile (p : List Char) : Option Re := (lex p.length p).bind parse

/-- The expression of a pattern known to be well formed. -/
def mustCompile (pattern : String) : Re := (compile pattern.toList).getD .empty

/-! ## Plain patterns -/

/-- The expression of one text. -/
def Re.lit (w : List Char) : Re := Re.cat (w.map fun c => .char (.single c))

@[simp] theorem Re.lang_cat_cons {r : Re} {rs : List Re} {w : List Char} :
    (Re.cat (r :: rs)).Lang w ↔ ∃ u v, w = u ++ v ∧ r.Lang u ∧ (Re.cat rs).Lang v := by
  cases rs with
  | nil => simp [Re.cat]
  | cons s ss => simp [Re.cat]

/-- A literal expression describes its own text. -/
@[simp] theorem Re.lang_lit {w v : List Char} : (Re.lit w).Lang v ↔ v = w := by
  induction w generalizing v with
  | nil => simp [Re.lit, Re.cat]
  | cons c w ih =>
    rw [Re.lit, List.map_cons, Re.lang_cat_cons]
    constructor
    · rintro ⟨u, t, rfl, ⟨d, hd, rfl⟩, ht⟩
      rw [CharClass.mem_single.1 hd, ih.1 ht, List.singleton_append]
    · rintro rfl
      exact ⟨[c], w, rfl, ⟨c, by simp, rfl⟩, ih.2 rfl⟩

@[simp] theorem Re.groups_lit (w : List Char) : (Re.lit w).groups = [] := by
  induction w with
  | nil => rfl
  | cons c w ih =>
    cases w with
    | nil => rfl
    | cons d w => exact ih

/-- Expressions in sequence are read one part after the other. -/
theorem Re.lang_cat_append {rs ss : List Re} {w : List Char} :
    (Re.cat (rs ++ ss)).Lang w ↔ ∃ u v, w = u ++ v ∧ (Re.cat rs).Lang u ∧ (Re.cat ss).Lang v := by
  induction rs generalizing w with
  | nil => simp [Re.cat]
  | cons r rs ih =>
    simp only [List.cons_append, Re.lang_cat_cons, ih]
    constructor
    · rintro ⟨u, _, rfl, hu, v, x, rfl, hv, hx⟩
      exact ⟨u ++ v, x, by simp, ⟨u, v, rfl, hu, hv⟩, hx⟩
    · rintro ⟨_, x, rfl, ⟨u, v, rfl, hu, hv⟩, hx⟩
      exact ⟨u, v ++ x, by simp, hu, v, x, rfl, hv, hx⟩

/-- A literal before expressions describes its own text before theirs. -/
theorem Re.lang_cat_lit {t : List Char} {rs : List Re} {w : List Char} :
    (Re.cat ((t.map fun c => .char (.single c)) ++ rs)).Lang w ↔
      ∃ v, w = t ++ v ∧ (Re.cat rs).Lang v := by
  rw [Re.lang_cat_append]
  constructor
  · rintro ⟨u, v, rfl, hu, hv⟩
    obtain rfl : u = t := Re.lang_lit.1 hu
    exact ⟨v, rfl, hv⟩
  · rintro ⟨v, rfl, hv⟩
    exact ⟨t, v, rfl, Re.lang_lit.2 rfl, hv⟩

theorem lex_cons_plain {n : ℕ} {c : Char} {cs : List Char} (hc : IsPlain c) :
    lex (n + 1) (c :: cs) = (lex n cs).map (.char (.single c) :: ·) := by
  rw [lex] <;> rintro rfl <;> exact absurd hc (by decide)

theorem lex_plain {w : List Char} (hw : ∀ c ∈ w, IsPlain c) :
    lex w.length w = some (w.map fun c => .char (.single c)) := by
  induction w with
  | nil => rfl
  | cons c w ih =>
    rw [List.length_cons, lex_cons_plain (hw c (by simp)), ih fun d hd => hw d (by simp [hd])]
    rfl

theorem foldlM_step_chars (w : List Char) (s : Stack) :
    (w.map fun c => Token.char (.single c)).foldlM Stack.step s =
      some { s with top := { s.top with
        cur := (w.map fun c => Re.char (.single c)).reverse ++ s.top.cur } } := by
  induction w generalizing s with
  | nil => rfl
  | cons c w ih =>
    rw [List.map_cons, List.foldlM_cons, Stack.step, Option.bind_eq_bind, Option.bind_some, ih]
    simp [Frame.push]

/-- **A plain pattern describes itself alone.** -/
theorem compile_plain {w : List Char} (hw : ∀ c ∈ w, IsPlain c) :
    compile w = some (Re.lit w) := by
  rw [compile, lex_plain hw, Option.bind_some, parse, foldlM_step_chars]
  simp [Stack.start, Frame.close, Re.any, Re.lit]

end Regexp
