import HlsXcoder.Codificacion.Programa
import HlsXcoder.Lib.Text
import Mathlib.Data.List.ReduceOption
import Mathlib.Data.List.TakeWhile
import Mathlib.Logic.Function.Basic

/-!
# The quality menu of the player

The page of the player adds a menu of the variants to the controls. The
menu names a variant by the address of its playlist, which is all it
knows of it, and a click on an item enables the variants it stands for
and disables the others.

The player keeps whether a variant is enabled under its address, so two
variants of one address are enabled together. A menu is built with the
item `Auto` selected and the variants enabled that it stands for, and
after any clicks the enabled variants are those of the item that is
selected (`coherente_tras`).
-/

namespace HlsXcoder

/-! ## Numbers -/

/-- The blanks and ends of line that `Number` strips. -/
def esEspacio (c : Char) : Bool :=
  c.toNat ∈ [0x9, 0xA, 0xB, 0xC, 0xD, 0x20, 0xA0, 0x1680, 0x2028, 0x2029, 0x202F, 0x205F, 0x3000,
    0xFEFF] || (0x2000 ≤ c.toNat && c.toNat ≤ 0x200A)

def sinEspacios (s : List Char) : List Char :=
  ((s.dropWhile esEspacio).reverse.dropWhile esEspacio).reverse

/-- One digit or more. -/
def sonDigitos (digito : Char → Bool) (s : List Char) : Bool := s ≠ [] && s.all digito

def sinSigno : List Char → List Char
  | '+' :: s | '-' :: s => s
  | s => s

/-- An exponent, or nothing. -/
def esExponente : List Char → Bool
  | [] => true
  | c :: s => (c = 'e' || c = 'E') && sonDigitos Char.isDigit (sinSigno s)

/-- A decimal number without its sign. -/
def esDecimal (s : List Char) : Bool :=
  let entera := s.takeWhile Char.isDigit
  s = "Infinity".toList ||
    match s.dropWhile Char.isDigit with
    | '.' :: resto =>
      (entera ≠ [] || resto.takeWhile Char.isDigit ≠ []) &&
        esExponente (resto.dropWhile Char.isDigit)
    | resto => entera ≠ [] && esExponente resto

def esHexadecimal (c : Char) : Bool := c.isDigit || ('a' ≤ c && c ≤ 'f') || ('A' ≤ c && c ≤ 'F')

/-- An integer in one of the other bases, by the letter of its prefix. -/
def esOtraBase : List Char → Bool
  | '0' :: letra :: s =>
    (letra.toLower = 'x' && sonDigitos esHexadecimal s) ||
      (letra.toLower = 'o' && sonDigitos (fun c => '0' ≤ c && c ≤ '7') s) ||
      (letra.toLower = 'b' && sonDigitos (fun c => c = '0' || c = '1') s)
  | _ => false

/-- A text that `Number` converts. The empty one counts as zero. -/
def esNumero (s : List Char) : Bool :=
  let s := sinEspacios s
  s = [] || esDecimal (sinSigno s) || esOtraBase s

/-- What is not there is no number. -/
def isNaN (value : Option String) : Bool := value.all fun s => !esNumero s.toList

/-- **Digits are a number**, however many. -/
theorem isNaN_of_isDigit {s : String} (h : ∀ c ∈ s.toList, c.isDigit = true) :
    isNaN (some s) = false := by
  have hespacio (c : Char) (hc : c ∈ s.toList) : esEspacio c = false := by
    have hdigit := Char.isDigit_iff_toNat.1 (h c hc)
    have h0 : '0'.toNat = 48 := rfl
    have h9 : '9'.toNat = 57 := rfl
    simp only [esEspacio, List.mem_cons, List.not_mem_nil, or_false, Bool.or_eq_false_iff,
      decide_eq_false_iff_not, Bool.and_eq_false_iff]
    omega
  have hdrop {p : Char → Bool} : ∀ {s : List Char}, (∀ c ∈ s, p c = false) → s.dropWhile p = s := by
    intro s hs
    cases s with
    | nil => rfl
    | cons c s => rw [List.dropWhile_cons_of_neg (by simp [hs c])]
  have hblancos : sinEspacios s.toList = s.toList := by
    rw [sinEspacios, hdrop hespacio, hdrop fun c hc => hespacio c (List.mem_reverse.1 hc),
      List.reverse_reverse]
  have hsigno : sinSigno s.toList = s.toList := by
    unfold sinSigno
    split
    · rename_i heq
      exact absurd (h '+' (by simp [heq])) (by decide)
    · rename_i heq
      exact absurd (h '-' (by simp [heq])) (by decide)
    · rfl
  have htake : s.toList.takeWhile Char.isDigit = s.toList := List.takeWhile_eq_self_iff.2 h
  have hresto : s.toList.dropWhile Char.isDigit = [] := List.dropWhile_eq_nil_iff.2 h
  have hnumero : esNumero s.toList = true := by
    simp only [esNumero, hblancos, hsigno]
    by_cases hnil : s.toList = []
    · simp [hnil]
    · simp [esDecimal, htake, hresto, hnil, esExponente]
  simp [isNaN, hnumero]

/-! ## The labels -/

/-- A level of the menu. A name or an id that a level does not have is
empty. -/
structure Level where
  name : String := ""
  id : String
  bandwidth : Option ℕ
  deriving DecidableEq, Repr

/-- What the menu cuts an address at. -/
def esCorte (c : Char) : Bool := c = '/' || c = '-'

/-- The fields of an address, but for what follows its first dot. -/
def camposDeId (id : String) : List String :=
  (Text.splitRuns esCorte ((split id '.').headD "").toList).map String.ofList

/-- The label of a level by its id. -/
def levelNameDeId (id : String) : String :=
  let temp := (split id '.').headD ""
  let tempArray := camposDeId id
  if tempArray.length ≤ 1 then
    if isNaN (some temp) then temp else temp ++ "kb"
  else if tempArray.headD "" = "subtitulo" then
    let levelName := "sub/" ++ tempArray.getD 1 ""
    if isNaN tempArray[2]? then levelName else levelName ++ "/" ++ tempArray.getD 2 "" ++ "kb"
  else temp

/-- The label of a level, if it has one. The bandwidth is rounded to the
nearest. -/
def levelName (level : Level) : Option String :=
  if level.name ≠ "" then some level.name
  else if level.id ≠ "" then some (levelNameDeId level.id)
  else match level.bandwidth with
    | none | some 0 => none
    | some bandwidth => some (toString ((bandwidth + 512) / 1024) ++ "kb")

/-! ## The menu -/

/-- A variant, as the player shows it to the page. -/
structure Representation where
  id : String
  bandwidth : Option ℕ
  deriving DecidableEq, Repr

/-- An item of the menu. -/
structure MenuItem where
  label : String
  value : Option ℕ
  id : String
  selected : Bool
  deriving DecidableEq, Repr

def levelAuto : Level := { name := "Auto", id := "auto", bandwidth := none }

/-- The item of a level; none where it has no label. -/
def itemDe (level : Level) : Option MenuItem :=
  (levelName level).map fun levelName =>
    { label := levelName, value := level.bandwidth, id := level.id,
      selected := level.name = "Auto" }

variable (representations : List Representation)

/-- The items of the menu. One variant alone needs no menu. -/
def createItems : List (Option MenuItem) :=
  if representations.length ≤ 1 then []
  else (levelAuto :: representations.map fun r =>
    { id := r.id, bandwidth := r.bandwidth }).map itemDe

/-- Whether `Auto` stands for a variant. -/
def esDeAuto (id : String) : Bool := (split id '/').headD "" ≠ "subtitulo"

/-- Enables the variants that `Auto` stands for, and disables the others. -/
def selectAuto (enabled : String → Bool) : String → Bool :=
  representations.foldl (fun enabled element =>
    Function.update enabled element.id (esDeAuto element.id)) enabled

/-- What a click on an item does to the variants, by the id of the
item. -/
def onClick (selected : String) (enabled : String → Bool) : String → Bool :=
  representations.foldl (fun enabled element =>
    if selected = "auto" then selectAuto representations enabled
    else Function.update enabled element.id (element.id = selected)) enabled

/-- The menu on the page, and which variants are enabled. -/
structure Menu where
  items : List MenuItem
  enabled : String → Bool

/-- The menu as it is built. -/
def Menu.crear (enabled : String → Bool) : Menu :=
  { items := (createItems representations).reduceOption
    enabled := selectAuto representations enabled }

/-- A click on an item, by its place. -/
def Menu.pulsar (menu : Menu) (k : ℕ) : Menu := match menu.items[k]? with
  | none => menu
  | some clickedItem =>
    { items := menu.items.mapIdx fun i item => { item with selected := i = k }
      enabled := onClick representations clickedItem.id menu.enabled }

/-- The menu after clicks. -/
def Menu.tras (menu : Menu) (clics : List ℕ) : Menu :=
  clics.foldl (Menu.pulsar representations) menu

/-! ## What is enabled -/

variable {representations}

/-- **A loop that writes one entry per step** by a rule of its own leaves
the entries it never writes. -/
theorem foldl_update {α κ β : Type} [DecidableEq κ] (key : α → κ) (value : κ → β) (xs : List α)
    (f : κ → β) (k : κ) :
    xs.foldl (fun f x => Function.update f (key x) (value (key x))) f k =
      if k ∈ xs.map key then value k else f k := by
  induction xs generalizing f with
  | nil => simp
  | cons x xs ih =>
    rw [List.foldl_cons, ih, List.map_cons]
    by_cases hxs : k ∈ xs.map key
    · rw [if_pos hxs, if_pos (List.mem_cons_of_mem _ hxs)]
    · rw [if_neg hxs]
      by_cases hk : k = key x
      · rw [hk, Function.update_self, if_pos List.mem_cons_self]
      · rw [Function.update_of_ne hk, if_neg]
        simpa [hk] using hxs

theorem selectAuto_apply (enabled : String → Bool) (id : String) :
    selectAuto representations enabled id =
      if id ∈ representations.map Representation.id then esDeAuto id else enabled id :=
  foldl_update Representation.id esDeAuto representations enabled id

/-- The variants an item stands for, by its id. -/
def representa (selected id : String) : Bool :=
  if selected = "auto" then esDeAuto id else id = selected

/-- **A click enables what the item stands for**, and disables the other
variants. -/
theorem onClick_apply (selected : String) (enabled : String → Bool) (id : String) :
    onClick representations selected enabled id =
      if id ∈ representations.map Representation.id then representa selected id else enabled id := by
  by_cases hauto : selected = "auto"
  · -- the loop enables the same variants over and over
    have hloop (xs : List Representation) (enabled : String → Bool) :
        xs.foldl (fun enabled _ => selectAuto representations enabled) enabled id =
          if xs = [] then enabled id else selectAuto representations enabled id := by
      induction xs generalizing enabled with
      | nil => rfl
      | cons x xs ih =>
        rw [List.foldl_cons, ih, if_neg (List.cons_ne_nil x xs)]
        split
        · rfl
        · simp only [selectAuto_apply]
          split <;> rfl
    simp only [onClick, hauto, if_true]
    rw [hloop, representa, if_pos rfl, selectAuto_apply]
    split
    · rename_i hnil
      simp [hnil]
    · rfl
  · simp only [onClick, hauto, if_false]
    rw [foldl_update Representation.id (fun id => decide (id = selected)), representa, if_neg hauto]

/-! ## The menu over its clicks -/

def itemAuto : MenuItem := { label := "Auto", value := none, id := "auto", selected := true }

/-- The item of a variant that has an address. -/
def itemDeVariante (r : Representation) : MenuItem :=
  { label := levelNameDeId r.id, value := r.bandwidth, id := r.id, selected := false }

/-- **The items of a menu**: `Auto`, and one for each variant. -/
theorem createItems_eq (hlen : 1 < representations.length) (hid : ∀ r ∈ representations, r.id ≠ "") :
    createItems representations = (itemAuto :: representations.map itemDeVariante).map some := by
  have hitem (r : Representation) (hr : r ∈ representations) :
      itemDe { id := r.id, bandwidth := r.bandwidth } = some (itemDeVariante r) := by
    simp [itemDe, levelName, hid r hr, itemDeVariante]
  have hauto : itemDe levelAuto = some itemAuto := rfl
  rw [createItems, if_neg (by omega), List.map_cons, List.map_cons, hauto, List.map_map, List.map_map]
  exact congrArg _ (List.map_congr_left hitem)

variable (representations) in
/-- **A coherent menu**: it has an item for each variant and `Auto`, one
of them is selected, and the variants it stands for are enabled, no
others. -/
structure Menu.Coherente (menu : Menu) : Prop where
  ids : menu.items.map MenuItem.id = "auto" :: representations.map Representation.id
  elegido : ∃ (k : ℕ) (elegido : MenuItem), menu.items[k]? = some elegido ∧
    (∀ (i : ℕ) (item : MenuItem), menu.items[i]? = some item → item.selected = decide (i = k)) ∧
      ∀ r ∈ representations, menu.enabled r.id = representa elegido.id r.id

theorem coherente_crear (hlen : 1 < representations.length)
    (hid : ∀ r ∈ representations, r.id ≠ "") (enabled : String → Bool) :
    (Menu.crear representations enabled).Coherente representations := by
  have hitems : (Menu.crear representations enabled).items =
      itemAuto :: representations.map itemDeVariante := by
    rw [Menu.crear, createItems_eq hlen hid, List.reduceOption, List.filterMap_map]
    exact List.filterMap_some
  refine ⟨?_, 0, itemAuto, ?_, fun i item hi => ?_, fun r hr => ?_⟩
  · rw [hitems, List.map_cons, List.map_map]
    rfl
  · rw [hitems]
    rfl
  · rw [hitems] at hi
    cases i with
    | zero =>
      obtain rfl := Option.some.inj hi
      rfl
    | succ i =>
      rw [List.getElem?_cons_succ, List.getElem?_map, Option.map_eq_some_iff] at hi
      obtain ⟨r, -, rfl⟩ := hi
      rfl
  · exact (selectAuto_apply enabled r.id).trans (if_pos (List.mem_map_of_mem hr))

/-- **A click keeps a menu coherent**, and selects the item clicked on. -/
theorem Menu.Coherente.pulsar {menu : Menu} (h : menu.Coherente representations) (k : ℕ) :
    (menu.pulsar representations k).Coherente representations := by
  rw [Menu.pulsar]
  cases hk : menu.items[k]? with
  | none => exact h
  | some clickedItem =>
    refine ⟨?_, k, { clickedItem with selected := true }, ?_, fun i item hi => ?_, fun r hr => ?_⟩
    · rw [← h.ids]
      refine List.ext_getElem? fun i => ?_
      rw [List.getElem?_map, List.getElem?_mapIdx, Option.map_map, List.getElem?_map]
      rfl
    · simp [hk]
    · rw [List.getElem?_mapIdx, Option.map_eq_some_iff] at hi
      obtain ⟨item, -, rfl⟩ := hi
      rfl
    · exact (onClick_apply clickedItem.id menu.enabled r.id).trans (if_pos (List.mem_map_of_mem hr))

/-- **A coherent menu leaves a variant to play**, where `Auto` stands for
one. -/
theorem Menu.Coherente.exists_enabled {menu : Menu} (h : menu.Coherente representations)
    (hauto : ∃ r ∈ representations, esDeAuto r.id = true) :
    ∃ r ∈ representations, menu.enabled r.id = true := by
  obtain ⟨k, elegido, hk, -, henabled⟩ := h.elegido
  have hid := List.mem_map_of_mem (f := MenuItem.id) (List.mem_of_getElem? hk)
  rw [h.ids, List.mem_cons, List.mem_map] at hid
  by_cases helegido : elegido.id = "auto"
  · obtain ⟨r, hr, hesDe⟩ := hauto
    refine ⟨r, hr, ?_⟩
    rw [henabled r hr, representa, if_pos helegido, hesDe]
  · obtain ⟨r, hr, heq⟩ := hid.resolve_left helegido
    refine ⟨r, hr, ?_⟩
    rw [henabled r hr, representa, if_neg helegido]
    exact decide_eq_true heq

/-- Clicks keep a menu coherent. -/
theorem Menu.Coherente.tras {menu : Menu} (h : menu.Coherente representations) (clics : List ℕ) :
    (menu.tras representations clics).Coherente representations := by
  induction clics generalizing menu with
  | nil => exact h
  | cons k clics ih => exact ih (h.pulsar k)

/-- **The menu is coherent after any clicks.** -/
theorem coherente_tras (hlen : 1 < representations.length)
    (hid : ∀ r ∈ representations, r.id ≠ "") (enabled : String → Bool) (clics : List ℕ) :
    ((Menu.crear representations enabled).tras representations clics).Coherente representations :=
  (coherente_crear hlen hid enabled).tras clics

end HlsXcoder
