import Mathlib.Data.List.Nodup
import Mathlib.Logic.Relation

/-!
# Filter graphs

A filter graph is written as chains of filters, `;` between the chains
and `,` between the filters of one. A filter may have labels in brackets
before it, the links it takes, and after it, the links it gives; within a
chain each filter feeds the next. A label some filter takes and none
gives is open: it names a stream of an input.

`Graph.read` reads a graph from its text, and `read_text` says that it
finds again the graph whose text it is given, where no label and no
filter has one of the four characters in it. Quotes, escapes and blanks
are not read.
-/

namespace FilterGraph

/-- A filter: the labels before it, its name with its arguments, the
labels after it. -/
structure Filter where
  inputs : List String
  spec : String
  outputs : List String
  deriving DecidableEq, Repr

/-- The filters of a chain, each of which feeds the next. -/
abbrev Chain := List Filter

abbrev Graph := List Chain

/-- The name of a filter, without its arguments. -/
def Filter.name (f : Filter) : String := .ofList (f.spec.toList.takeWhile (· ≠ '='))

/-! ## Text -/

def labels (ls : List String) : List Char := ls.flatMap fun l => '[' :: (l.toList ++ [']'])

def Filter.chars (f : Filter) : List Char := labels f.inputs ++ f.spec.toList ++ labels f.outputs

def chainChars (c : Chain) : List Char := [','].intercalate (c.map Filter.chars)

/-- The text of a graph. -/
def Graph.text (g : Graph) : String := .ofList ([';'].intercalate (g.map chainChars))

/-! ## Reading -/

/-- The labels before a filter, from its text cut at the closing
brackets, and the rest of it. -/
def readInputs : List (List Char) → List String × List (List Char)
  | ('[' :: l) :: ps => let (ls, rest) := readInputs ps; (.ofList l :: ls, rest)
  | ps => ([], ps)

/-- The labels after a filter, from the same. -/
def readOutputs : List (List Char) → Option (List String)
  | [[]] => some []
  | ('[' :: l) :: ps => (readOutputs ps).map (.ofList l :: ·)
  | _ => none

def readFilter (t : List Char) : Option Filter :=
  let (ins, rest) := readInputs (t.splitOn ']')
  match rest with
  | [] => none
  | p :: ps => match p.splitOn '[' with
    | [spec] => if ps = [] then some ⟨ins, .ofList spec, []⟩ else none
    | [spec, l] => (readOutputs ps).map fun outs => ⟨ins, .ofList spec, .ofList l :: outs⟩
    | _ => none

def readChain (t : List Char) : Option Chain := (t.splitOn ',').mapM readFilter

/-- **The graph of a text.** -/
def Graph.read (s : String) : Option Graph := (s.toList.splitOn ';').mapM readChain

/-! ## What is written is read again -/

/-- The characters that cut a text. -/
def cuts : List Char := ['[', ']', ',', ';']

/-- No character of a label or filter cuts the text. -/
def Plain (s : String) : Prop := ∀ c ∈ s.toList, c ∉ cuts

instance (s : String) : Decidable (Plain s) := List.decidableBAll (· ∉ cuts) s.toList

theorem Plain.not_mem {s : String} (h : Plain s) {c : Char} (hc : c ∈ cuts) : c ∉ s.toList :=
  fun hmem => h c hmem hc

theorem Plain.append {s t : String} (hs : Plain s) (ht : Plain t) : Plain (s ++ t) := by
  intro c hc
  rw [String.toList_append, List.mem_append] at hc
  exact hc.elim (hs c) (ht c)

/-- The text of the labels and of the filter can be told apart. -/
structure Filter.Legal (f : Filter) : Prop where
  inputs : ∀ l ∈ f.inputs, Plain l
  spec : Plain f.spec
  nonempty : f.spec ≠ ""
  outputs : ∀ l ∈ f.outputs, Plain l

theorem splitOn_labels_cons {l : String} (hl : Plain l) (ls : List String) (t : List Char) :
    (labels (l :: ls) ++ t).splitOn ']' = ('[' :: l.toList) :: (labels ls ++ t).splitOn ']' := by
  have hcut : labels (l :: ls) ++ t = ('[' :: l.toList) ++ ']' :: (labels ls ++ t) := by
    simp [labels]
  rw [hcut, List.splitOn_append_cons_self_of_not_mem]
  simpa using hl.not_mem (c := ']') (by decide)

theorem readInputs_labels {ls : List String} (hls : ∀ l ∈ ls, Plain l) {t : List Char}
    (ht : readInputs (t.splitOn ']') = ([], t.splitOn ']')) :
    readInputs ((labels ls ++ t).splitOn ']') = (ls, t.splitOn ']') := by
  induction ls with
  | nil => exact ht
  | cons l ls ih =>
    rw [splitOn_labels_cons (hls l List.mem_cons_self), readInputs,
      ih fun l hl => hls l (List.mem_cons_of_mem _ hl)]
    simp

theorem readOutputs_labels {ls : List String} (hls : ∀ l ∈ ls, Plain l) :
    readOutputs ((labels ls).splitOn ']') = some ls := by
  induction ls with
  | nil => rfl
  | cons l ls ih =>
    have hcut := splitOn_labels_cons (hls l List.mem_cons_self) ls []
    rw [List.append_nil, List.append_nil] at hcut
    rw [hcut, readOutputs, ih fun l hl => hls l (List.mem_cons_of_mem _ hl)]
    simp

theorem readFilter_chars {f : Filter} (h : f.Legal) : readFilter f.chars = some f := by
  obtain ⟨ins, spec, outs⟩ := f
  have hclose : ']' ∉ spec.toList := h.spec.not_mem (by decide)
  have hopen : '[' ∉ spec.toList := h.spec.not_mem (by decide)
  obtain ⟨c, cs, hspec⟩ := List.exists_cons_of_ne_nil (l := spec.toList)
    (by simpa using h.nonempty)
  have hc : c ≠ '[' := by
    rintro rfl
    exact hopen (by simp [hspec])
  cases outs with
  | nil =>
    have hsplit : (spec.toList ++ labels []).splitOn ']' = [spec.toList] := by
      simpa [labels] using List.splitOn_eq_singleton hclose
    have hins := readInputs_labels h.inputs (t := spec.toList ++ labels [])
      (by rw [hsplit, hspec]; simp [readInputs, hc])
    rw [readFilter, Filter.chars, List.append_assoc, hins, hsplit]
    simp [List.splitOn_eq_singleton hopen]
  | cons o outs =>
    have ho : Plain o := h.outputs o List.mem_cons_self
    have hcut : spec.toList ++ labels (o :: outs) =
        (spec.toList ++ '[' :: o.toList) ++ ']' :: labels outs := by simp [labels]
    have hsplit : (spec.toList ++ labels (o :: outs)).splitOn ']' =
        (spec.toList ++ '[' :: o.toList) :: (labels outs).splitOn ']' := by
      rw [hcut, List.splitOn_append_cons_self_of_not_mem]
      simpa [hclose] using ho.not_mem (c := ']') (by decide)
    have hins := readInputs_labels h.inputs (t := spec.toList ++ labels (o :: outs))
      (by rw [hsplit, hspec]; simp [readInputs, hc])
    have hlabel : (spec.toList ++ '[' :: o.toList).splitOn '[' = [spec.toList, o.toList] := by
      rw [List.splitOn_append_cons_self_of_not_mem hopen,
        List.splitOn_eq_singleton (ho.not_mem (by decide))]
    rw [readFilter, Filter.chars, List.append_assoc, hins, hsplit]
    simp [hlabel, readOutputs_labels fun l hl => h.outputs l (List.mem_cons_of_mem _ hl)]

theorem mem_labels {ls : List String} {c : Char} (h : c ∈ labels ls) :
    c = '[' ∨ c = ']' ∨ ∃ l ∈ ls, c ∈ l.toList := by
  obtain ⟨l, hl, hc⟩ := List.mem_flatMap.1 h
  rw [List.mem_cons, List.mem_append, List.mem_singleton] at hc
  obtain hc | hc | hc := hc
  · exact .inl hc
  · exact .inr (.inr ⟨l, hl, hc⟩)
  · exact .inr (.inl hc)

/-- A filter is cut off by the separators. -/
theorem Filter.Legal.not_mem_chars {f : Filter} (h : f.Legal) {c : Char} (hc : c = ',' ∨ c = ';') :
    c ∉ f.chars := by
  have hcuts : c ∈ cuts := by obtain rfl | rfl := hc <;> decide
  have hlabels {ls : List String} (hls : ∀ l ∈ ls, Plain l) : c ∉ labels ls := by
    intro hmem
    obtain rfl | rfl | ⟨l, hl, hmem⟩ := mem_labels hmem
    · revert hc
      decide
    · revert hc
      decide
    · exact (hls l hl).not_mem hcuts hmem
  rw [Filter.chars, List.mem_append, List.mem_append]
  rintro ((hmem | hmem) | hmem)
  · exact hlabels h.inputs hmem
  · exact h.spec.not_mem hcuts hmem
  · exact hlabels h.outputs hmem

/-- Reading each part, where each is read. -/
theorem mapM_map_eq {α β : Type*} {print : β → α} {parse : α → Option β} {xs : List β}
    (h : ∀ x ∈ xs, parse (print x) = some x) : (xs.map print).mapM parse = some xs := by
  induction xs with
  | nil => rfl
  | cons x xs ih =>
    rw [List.map_cons, List.mapM_cons, h x List.mem_cons_self,
      ih fun y hy => h y (List.mem_cons_of_mem _ hy)]
    rfl

/-- A graph whose text can be cut again. -/
structure Graph.Legal (g : Graph) : Prop where
  ne_nil : g ≠ []
  chains : ∀ c ∈ g, c ≠ []
  filters : ∀ c ∈ g, ∀ f ∈ c, f.Legal

theorem readChain_chainChars {c : Chain} (hne : c ≠ []) (h : ∀ f ∈ c, f.Legal) :
    readChain (chainChars c) = some c := by
  rw [readChain, chainChars, List.splitOn_intercalate _ _ (by simpa using hne)]
  · exact mapM_map_eq fun f hf => readFilter_chars (h f hf)
  · intro t ht
    obtain ⟨f, hf, rfl⟩ := List.mem_map.1 ht
    exact (h f hf).not_mem_chars (.inl rfl)

theorem not_mem_chainChars {c : Chain} (h : ∀ f ∈ c, f.Legal) : ';' ∉ chainChars c := by
  induction c with
  | nil => simp [chainChars]
  | cons f c ih =>
    have hf := (h f List.mem_cons_self).not_mem_chars (.inr rfl)
    have hc := ih fun f hf => h f (List.mem_cons_of_mem _ hf)
    cases c with
    | nil => simpa [chainChars] using hf
    | cons f' c =>
      simp only [chainChars, List.map_cons, List.intercalate_cons_cons, List.mem_append,
        List.mem_singleton] at hc ⊢
      rintro ((hmem | hmem) | hmem)
      · exact hf hmem
      · revert hmem
        decide
      · exact hc hmem

/-- **A graph is read from its text.** -/
theorem Graph.read_text {g : Graph} (h : g.Legal) : Graph.read g.text = some g := by
  rw [Graph.read, Graph.text, String.toList_ofList,
    List.splitOn_intercalate _ _ (by simpa using h.ne_nil)]
  · exact mapM_map_eq fun c hc => readChain_chainChars (h.chains c hc) (h.filters c hc)
  · intro t ht
    obtain ⟨c, hc, rfl⟩ := List.mem_map.1 ht
    exact not_mem_chainChars (h.filters c hc)

/-! ## Links -/

/-- The labels a chain takes. -/
def chainInputs (c : Chain) : List String := c.flatMap Filter.inputs

/-- The labels a chain gives. -/
def chainOutputs (c : Chain) : List String := c.flatMap Filter.outputs

/-- The labels that are taken and not given. -/
def Graph.openInputs (g : Graph) : List String :=
  (g.flatMap chainInputs).filter fun l => l ∉ g.flatMap chainOutputs

/-- The labels that are given and not taken. -/
def Graph.openOutputs (g : Graph) : List String :=
  (g.flatMap chainOutputs).filter fun l => l ∉ g.flatMap chainInputs

/-- A graph with all its links tied: but for the sources, the streams it
may take of the inputs, each label is given once, and what is given is
taken once or left open. -/
structure Graph.WellFormed (sources : List String) (g : Graph) : Prop where
  ne_nil : g ≠ []
  chains : ∀ c ∈ g, c ≠ []
  filters : ∀ c ∈ g, ∀ f ∈ c, f.spec ≠ ""
  given : ∀ l ∈ g.flatMap chainInputs ++ g.flatMap chainOutputs, l ∉ sources →
    (g.flatMap chainOutputs).count l = 1
  taken : ∀ l ∈ g.flatMap chainOutputs,
    (g.flatMap chainInputs).count l = 1 ∨ l ∈ g.openOutputs

/-- The links are tied where no label is given twice or is a source, and
what is taken apart from the sources is given, and not taken twice. -/
theorem Graph.Legal.wellFormed {g : Graph} (hg : g.Legal) {sources : List String}
    (hout : (g.flatMap chainOutputs).Nodup) (hsources : ∀ l ∈ g.flatMap chainOutputs, l ∉ sources)
    (hin : ((g.flatMap chainInputs).filter fun l => l ∉ sources).Nodup)
    (hgiven : ∀ l ∈ g.flatMap chainInputs, l ∉ sources → l ∈ g.flatMap chainOutputs) :
    g.WellFormed sources where
  ne_nil := hg.ne_nil
  chains := hg.chains
  filters := fun c hc f hf => (hg.filters c hc f hf).nonempty
  given := fun l hl hsource => by
    refine List.count_eq_one_of_mem hout ?_
    exact (List.mem_append.1 hl).elim (hgiven l · hsource) id
  taken := fun l hl => by
    by_cases htaken : l ∈ g.flatMap chainInputs
    · have hsource : decide (l ∉ sources) = true := by simpa using hsources l hl
      have hcount := List.count_eq_one_of_mem hin (List.mem_filter.2 ⟨htaken, hsource⟩)
      rw [List.count_filter (p := fun l => decide (l ∉ sources)) hsource] at hcount
      exact .inl hcount
    · exact .inr (List.mem_filter.2 ⟨hl, by simpa using htaken⟩)

/-- One chain leads from a label to another. -/
def Graph.Leads (g : Graph) (a b : String) : Prop :=
  ∃ c ∈ g, a ∈ chainInputs c ∧ b ∈ chainOutputs c

/-- A filter takes what comes in under a label, directly or through other
chains. -/
def Graph.Takes (g : Graph) (a : String) (f : Filter) : Prop :=
  ∃ b ∈ f.inputs, Relation.ReflTransGen g.Leads a b

example : Graph.read "[0:1]scale=2[a];[a][i:0x1]overlay,hflip[b]" =
    some [[⟨["0:1"], "scale=2", ["a"]⟩], [⟨["a", "i:0x1"], "overlay", []⟩, ⟨[], "hflip", ["b"]⟩]] := by
  decide +kernel

end FilterGraph
