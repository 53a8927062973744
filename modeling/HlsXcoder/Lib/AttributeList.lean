import HlsXcoder.Lib.Text
import Mathlib.Data.List.TakeWhile

/-!
# Lists of attributes

A list of attributes is a text `key=value,key="value",...`. It is read
forgivingly, by cutting the text at every piece that looks like an
attribute: a key is whatever stands before the next `=`, and a value ends
with its closing quote or at the next comma. What is left between two
such pieces is read as an attribute too, and where it has no `=` the
whole list is refused.

Lists that are written with legal items are read back item by item
(`parse_text`), and of two items of one name the first counts (`get`).
The blanks and the ends of line are parameters.
-/

namespace AttributeList

/-! ## Writing -/

/-- One attribute, with or without quotes around its value. -/
structure Item where
  name : List Char
  value : List Char
  quoted : Bool
  deriving DecidableEq, Repr

namespace Item

def valueChars (a : Item) : List Char := if a.quoted then '"' :: a.value ++ ['"'] else a.value

def chars (a : Item) : List Char := a.name ++ '=' :: a.valueChars

end Item

/-- The text of a list. -/
def text (items : List Item) : List Char := [','].intercalate (items.map Item.chars)

/-! ## Reading -/

section Reader

/-- The value at the head of a text. -/
def valueAt : List Char → List Char
  | '"' :: s =>
    if '"' ∈ s then '"' :: s.takeWhile (· ≠ '"') ++ ['"'] else ('"' :: s).takeWhile (· ≠ ',')
  | s => s.takeWhile (· ≠ ',')

/-- The attribute at the head of a text. -/
def keyvalueAt (s : List Char) : Option (List Char) :=
  if '=' ∈ s then some (s.takeWhile (· ≠ '=') ++ '=' :: valueAt (s.dropWhile (· ≠ '=')).tail)
  else none

/-- The attribute a text is cut at here, and how many characters the cut
takes: a comma and an attribute or, at the start, an attribute alone. -/
def separatorAt (start : Bool) (s : List Char) : Option (List Char × ℕ) :=
  ((if start then keyvalueAt s else none).map fun kv => (kv, kv.length)).or
    (match s with
      | ',' :: s => (keyvalueAt s).map fun kv => (kv, kv.length + 1)
      | _ => none)

/-- The pieces of a text, after skipping what is left of the last cut. -/
def splitFrom : Bool → ℕ → List Char → List Char → List (List Char)
  | _, _, piece, [] => [piece.reverse]
  | _, k + 1, piece, _ :: s => splitFrom false k piece s
  | start, 0, piece, c :: s =>
    match separatorAt start (c :: s) with
    | some (kv, n) => piece.reverse :: kv :: splitFrom false (n - 1) [] s
    | none => splitFrom false 0 (c :: piece) s

def split (s : List Char) : List (List Char) := splitFrom true 0 [] s

variable (blank newline : Char → Bool)

def trim (s : List Char) : List Char := ((s.dropWhile blank).reverse.dropWhile blank).reverse

def isQuote (c : Char) : Bool := c = '"' || c = '\''

/-- A value without the quotes around it. -/
def unquote : List Char → List Char
  | [] => []
  | c :: s =>
    if isQuote c && s.getLast?.any isQuote && s.dropLast.all (!newline ·) then s.dropLast else c :: s

/-- The name and the value of one piece. -/
def readItem (piece : List Char) : Option (List Char × List Char) :=
  if '=' ∈ piece then
    some (trim blank (piece.takeWhile (· ≠ '=')),
      unquote newline (trim blank ((piece.dropWhile (· ≠ '=')).tail.takeWhile (!newline ·))))
  else none

/-- **The attributes of a text**, none where some piece of it is none. -/
def parse (s : List Char) : Option (List (List Char × List Char)) :=
  ((split s).filter (· ≠ [])).mapM (readItem blank newline)

/-- The value of a name: the first of them counts. -/
def get (attributes : List (List Char × List Char)) (name : List Char) : Option (List Char) :=
  (attributes.find? fun a => a.1 = name).map Prod.snd

end Reader

/-! ## Round trip -/

section RoundTrip

variable {blank newline : Char → Bool}

/-- A text that neither starts nor ends with a blank. -/
def Trimmed (blank : Char → Bool) (s : List Char) : Prop :=
  (∀ c ∈ s.head?, blank c = false) ∧ ∀ c ∈ s.getLast?, blank c = false

theorem dropWhile_append_blank {l s : List Char} (hl : ∀ c ∈ l, blank c = true)
    (hs : ∀ c ∈ s.head?, blank c = false) : (l ++ s).dropWhile blank = s := by
  rw [List.dropWhile_append_of_pos hl]
  cases s with
  | nil => rfl
  | cons c s => rw [List.dropWhile_cons_of_neg (by simp [hs c rfl])]

/-- **What is trimmed is what stands between the blanks.** -/
theorem trim_append {l s r : List Char} (hl : ∀ c ∈ l, blank c = true) (hs : Trimmed blank s)
    (hr : ∀ c ∈ r, blank c = true) : trim blank (l ++ (s ++ r)) = s := by
  cases s with
  | nil =>
    have hall : ∀ c ∈ l ++ r, blank c = true := fun c hc => (List.mem_append.1 hc).elim (hl c) (hr c)
    rw [List.nil_append, trim, List.dropWhile_eq_nil_iff.2 hall]
    rfl
  | cons c s =>
    have hdrop : (l ++ (c :: s ++ r)).dropWhile blank = c :: s ++ r :=
      dropWhile_append_blank hl fun d hd => hs.1 d hd
    have hrev : (c :: s ++ r).reverse.dropWhile blank = (c :: s).reverse := by
      rw [List.reverse_append]
      refine dropWhile_append_blank (fun c hc => hr c (List.mem_reverse.1 hc)) ?_
      rw [List.head?_reverse]
      exact hs.2
    rw [trim, hdrop, hrev, List.reverse_reverse]

theorem trim_eq_self {s : List Char} (hs : Trimmed blank s) : trim blank s = s := by
  have h := trim_append (List.forall_mem_nil _) hs (List.forall_mem_nil _)
  rwa [List.nil_append, List.append_nil] at h

/-- **What can be written and read back.** -/
structure Item.Legal (blank newline : Char → Bool) (a : Item) : Prop where
  name : '=' ∉ a.name ∧ Trimmed blank a.name
  newline : ∀ c ∈ a.name ++ a.value, newline c = false
  quoted : a.quoted = true → '"' ∉ a.value
  bare : a.quoted = false →
    ',' ∉ a.value ∧ (∀ c ∈ a.value, isQuote c = false) ∧ Trimmed blank a.value

theorem takeWhile_append_cons {c : Char} {a : List Char} (ha : c ∉ a) (s : List Char) :
    (a ++ c :: s).takeWhile (· ≠ c) = a := by
  rw [List.takeWhile_append_of_pos fun d hd => by simpa using ne_of_mem_of_not_mem hd ha]
  simp

theorem dropWhile_append_cons {c : Char} {a : List Char} (ha : c ∉ a) (s : List Char) :
    (a ++ c :: s).dropWhile (· ≠ c) = c :: s := by
  rw [List.dropWhile_append_of_pos fun d hd => by simpa using ne_of_mem_of_not_mem hd ha]
  simp

/-- A text that a list goes on with: none, or one behind a comma. -/
def Next (s : List Char) : Prop := ∀ c ∈ s.head?, c = ','

/-- **A value ends where it was written to end.** -/
theorem valueAt_append {a : Item} (h : a.Legal blank newline) {s : List Char} (hs : Next s) :
    valueAt (a.valueChars ++ s) = a.valueChars := by
  cases hq : a.quoted with
  | true =>
    have hchars : a.valueChars ++ s = '"' :: (a.value ++ '"' :: s) := by
      simp [Item.valueChars, hq]
    rw [hchars, valueAt, if_pos (by simp), takeWhile_append_cons (h.quoted hq), Item.valueChars,
      if_pos hq]
  | false =>
    obtain ⟨hcomma, hquote, -⟩ := h.bare hq
    have hchars : a.valueChars = a.value := by simp [Item.valueChars, hq]
    have htake : (a.value ++ s).takeWhile (· ≠ ',') = a.value := by
      rw [List.takeWhile_append_of_pos fun d hd => by simpa using ne_of_mem_of_not_mem hd hcomma]
      cases s with
      | nil => simp
      | cons c s => simp [hs c rfl]
    rw [hchars]
    -- what stands first is no quote
    unfold valueAt
    split
    · rename_i t heq
      have hmem : '"' ∈ a.value := by
        cases hv : a.value with
        | nil =>
          rw [hv, List.nil_append] at heq
          have := hs '"' (by rw [heq]; rfl)
          exact absurd this (by decide)
        | cons c v =>
          rw [hv, List.cons_append, List.cons.injEq] at heq
          rw [heq.1]
          exact List.mem_cons_self
      exact absurd (hquote _ hmem) (by decide)
    · exact htake

theorem keyvalueAt_append {a : Item} (h : a.Legal blank newline) {s : List Char} (hs : Next s) :
    keyvalueAt (a.chars ++ s) = some a.chars := by
  have hchars : a.chars ++ s = a.name ++ '=' :: (a.valueChars ++ s) := by
    simp [Item.chars]
  rw [keyvalueAt, hchars, if_pos (by simp), takeWhile_append_cons h.name.1,
    dropWhile_append_cons h.name.1, List.tail_cons, valueAt_append h hs]
  rfl

/-- What a cut takes is skipped. -/
theorem splitFrom_append (w s : List Char) :
    splitFrom false w.length [] (w ++ s) = splitFrom false 0 [] s := by
  induction w with
  | nil => rfl
  | cons c w ih =>
    rw [List.length_cons, List.cons_append, splitFrom]
    exact ih

/-- The items after the first one. -/
def rest (items : List Item) : List Char := items.flatMap fun a => ',' :: a.chars

theorem next_rest (items : List Item) : Next (rest items) := by
  intro c hc
  cases items with
  | nil => cases hc
  | cons a items => exact (Option.some_inj.1 hc).symm

theorem text_cons (a : Item) (items : List Item) : text (a :: items) = a.chars ++ rest items := by
  induction items generalizing a with
  | nil => simp [text, rest]
  | cons b items ih =>
    have hcons : text (a :: b :: items) = a.chars ++ ',' :: text (b :: items) := by
      simp [text, List.intercalate_cons_cons]
    rw [hcons, ih]
    simp [rest]

theorem splitFrom_rest {items : List Item} (h : ∀ a ∈ items, a.Legal blank newline) :
    splitFrom false 0 [] (rest items) = items.flatMap (fun a => [[], a.chars]) ++ [[]] := by
  induction items with
  | nil => rfl
  | cons a items ih =>
    obtain ⟨ha, hitems⟩ := List.forall_mem_cons.1 h
    have hcons : rest (a :: items) = ',' :: (a.chars ++ rest items) := rfl
    have hcut : separatorAt false (',' :: (a.chars ++ rest items)) =
        some (a.chars, a.chars.length + 1) := by
      simp [separatorAt, keyvalueAt_append ha (next_rest items)]
    rw [hcons, splitFrom, hcut]
    simp only [Nat.add_sub_cancel]
    rw [splitFrom_append, ih hitems]
    rfl

/-- **A list is cut into its items.** -/
theorem split_text {a : Item} {items : List Item} (ha : a.Legal blank newline)
    (h : ∀ b ∈ items, b.Legal blank newline) :
    split (text (a :: items)) = [] :: a.chars :: (items.flatMap (fun b => [[], b.chars]) ++ [[]]) := by
  obtain ⟨c, w, hw⟩ := List.exists_cons_of_ne_nil (l := a.chars) (by simp [Item.chars])
  have hcut : separatorAt true (c :: (w ++ rest items)) = some (a.chars, a.chars.length) := by
    have hkv := keyvalueAt_append ha (next_rest items)
    rw [hw, List.cons_append] at hkv
    simp [separatorAt, hkv, hw]
  rw [text_cons, split, hw, List.cons_append, splitFrom, hcut]
  simp only [hw, List.length_cons, Nat.add_sub_cancel, List.reverse_nil]
  rw [splitFrom_append, splitFrom_rest h]

theorem trimmed_quoted (hblank : blank '"' = false) (v : List Char) :
    Trimmed blank ('"' :: v ++ ['"']) := by
  refine ⟨fun c hc => ?_, fun c hc => ?_⟩
  · obtain rfl := Option.some_inj.1 hc
    exact hblank
  · rw [List.getLast?_concat] at hc
    obtain rfl := Option.some_inj.1 hc
    exact hblank

theorem unquote_quoted {v : List Char} (hv : ∀ c ∈ v, newline c = false) :
    unquote newline ('"' :: v ++ ['"']) = v := by
  have hall : v.all (!newline ·) = true := List.all_eq_true.2 fun c hc => by simp [hv c hc]
  rw [List.cons_append, unquote]
  simp only [List.getLast?_append, List.getLast?_singleton, Option.some_or, Option.any_some,
    List.dropLast_concat, hall]
  simp +decide

theorem unquote_bare {v : List Char} (hv : ∀ c ∈ v, isQuote c = false) : unquote newline v = v := by
  cases v with
  | nil => rfl
  | cons c v => rw [unquote, hv c List.mem_cons_self, if_neg (by simp)]

theorem newline_valueChars {a : Item} (h : a.Legal blank newline) (hnewline : newline '"' = false) :
    ∀ c ∈ a.valueChars, newline c = false := by
  intro c hc
  rw [Item.valueChars] at hc
  split at hc
  · simp only [List.cons_append, List.mem_cons, List.mem_append, List.not_mem_nil, or_false] at hc
    rcases hc with rfl | hc | rfl
    · exact hnewline
    · exact h.newline c (List.mem_append_right _ hc)
    · exact hnewline
  · exact h.newline c (List.mem_append_right _ hc)

/-- **A piece is read as the item it was written for.** -/
theorem readItem_chars {a : Item} (h : a.Legal blank newline) (hblank : blank '"' = false)
    (hnewline : newline '"' = false) : readItem blank newline a.chars = some (a.name, a.value) := by
  have hvalue := newline_valueChars h hnewline
  have htake : a.valueChars.takeWhile (!newline ·) = a.valueChars :=
    List.takeWhile_eq_self_iff.2 fun c hc => by simp [hvalue c hc]
  have hread : unquote newline (trim blank a.valueChars) = a.value := by
    cases hq : a.quoted with
    | true =>
      rw [Item.valueChars, if_pos hq, trim_eq_self (trimmed_quoted hblank _),
        unquote_quoted fun c hc => h.newline c (List.mem_append_right _ hc)]
    | false =>
      obtain ⟨-, hquote, htrim⟩ := h.bare hq
      rw [Item.valueChars, if_neg (by simp [hq]), trim_eq_self htrim, unquote_bare hquote]
  rw [readItem, Item.chars, if_pos (by simp), takeWhile_append_cons h.name.1,
    dropWhile_append_cons h.name.1, List.tail_cons, htake, hread, trim_eq_self h.name.2]

/-- **A list of legal items is read back.** -/
theorem parse_text {items : List Item} (hne : items ≠ []) (h : ∀ a ∈ items, a.Legal blank newline)
    (hblank : blank '"' = false) (hnewline : newline '"' = false) :
    parse blank newline (text items) = some (items.map fun a => (a.name, a.value)) := by
  obtain ⟨a, items, rfl⟩ := List.exists_cons_of_ne_nil hne
  obtain ⟨ha, hitems⟩ := List.forall_mem_cons.1 h
  have hchars (b : Item) : b.chars ≠ [] := by simp [Item.chars]
  have hfilter : (split (text (a :: items))).filter (· ≠ []) = (a :: items).map Item.chars := by
    rw [split_text ha hitems]
    have hflat (xs : List Item) :
        (xs.flatMap (fun b : Item => [[], b.chars]) ++ [[]]).filter (· ≠ []) = xs.map Item.chars := by
      induction xs with
      | nil => rfl
      | cons b xs ih =>
        rw [List.flatMap_cons, List.append_assoc, List.filter_append, ih]
        simp [hchars b]
    rw [List.filter_cons_of_neg (by simp), List.filter_cons_of_pos (by simp [hchars a]), hflat]
    rfl
  rw [parse, hfilter, List.mapM_map]
  have hmap (xs : List Item) (hxs : ∀ b ∈ xs, b.Legal blank newline) :
      xs.mapM (readItem blank newline ∘ Item.chars) = some (xs.map fun b => (b.name, b.value)) := by
    induction xs with
    | nil => rfl
    | cons b xs ih =>
      obtain ⟨hb, hxs⟩ := List.forall_mem_cons.1 hxs
      rw [List.mapM_cons, Function.comp, readItem_chars hb hblank hnewline, ih hxs]
      rfl
  exact hmap _ h

/-! The text of a list, as one line. -/

theorem newline_chars {a : Item} (h : a.Legal blank newline)
    (hnewline : newline '"' = false ∧ newline '=' = false) : ∀ c ∈ a.chars, newline c = false := by
  intro c hc
  rw [Item.chars, List.mem_append, List.mem_cons] at hc
  rcases hc with hc | rfl | hc
  · exact h.newline c (List.mem_append_left _ hc)
  · exact hnewline.2
  · exact newline_valueChars h hnewline.1 c hc

theorem newline_text {items : List Item} (h : ∀ a ∈ items, a.Legal blank newline)
    (hnewline : newline '"' = false ∧ newline '=' = false ∧ newline ',' = false) :
    ∀ c ∈ text items, newline c = false := by
  have hchars {a : Item} (ha : a ∈ items) := newline_chars (h a ha) ⟨hnewline.1, hnewline.2.1⟩
  cases items with
  | nil => exact List.forall_mem_nil _
  | cons a items =>
    intro c hc
    rw [text_cons, List.mem_append, rest, List.mem_flatMap] at hc
    rcases hc with hc | ⟨b, hb, hc⟩
    · exact hchars List.mem_cons_self c hc
    · obtain rfl | hc := List.mem_cons.1 hc
      · exact hnewline.2.2
      · exact hchars (List.mem_cons_of_mem _ hb) c hc

theorem getLast?_chars {a : Item} (h : a.Legal blank newline)
    (hblank : blank '"' = false ∧ blank '=' = false) : ∀ c ∈ a.chars.getLast?, blank c = false := by
  intro c hc
  cases hq : a.quoted with
  | true =>
    rw [Item.chars, Item.valueChars, if_pos hq, ← List.cons_append, ← List.append_assoc,
      List.getLast?_concat] at hc
    obtain rfl := Option.some_inj.1 hc
    exact hblank.1
  | false =>
    rw [Item.chars, Item.valueChars, if_neg (by simp [hq]), List.getLast?_append,
      List.getLast?_cons] at hc
    obtain rfl := Option.some_inj.1 hc
    cases hv : a.value.getLast? with
    | none => exact hblank.2
    | some d => exact (h.bare hq).2.2.2 d hv

/-- A list ends with one of its items. -/
theorem exists_text_eq {items : List Item} (hne : items ≠ []) :
    ∃ a ∈ items, ∃ s, text items = s ++ a.chars := by
  obtain ⟨a, items, rfl⟩ := List.exists_cons_of_ne_nil hne
  obtain rfl | ⟨items, b, rfl⟩ := List.eq_nil_or_concat items
  · exact ⟨a, List.mem_cons_self, [], by simp [text_cons, rest]⟩
  · exact ⟨b, by simp, a.chars ++ rest items ++ [','], by simp [text_cons, rest]⟩

/-- A list does not end with a blank. -/
theorem getLast?_text {items : List Item} (h : ∀ a ∈ items, a.Legal blank newline)
    (hblank : blank '"' = false ∧ blank '=' = false) : ∀ c ∈ (text items).getLast?, blank c = false := by
  intro c hc
  cases items with
  | nil => cases hc
  | cons b items =>
    obtain ⟨a, ha, s, hs⟩ := exists_text_eq (List.cons_ne_nil b items)
    have hne : a.chars ≠ [] := by simp [Item.chars]
    rw [hs, List.getLast?_append, List.getLast?_eq_some_getLast hne, Option.some_or] at hc
    obtain rfl := Option.some_inj.1 hc
    exact getLast?_chars (h a ha) hblank _ (List.getLast?_eq_some_getLast hne)

end RoundTrip

end AttributeList
