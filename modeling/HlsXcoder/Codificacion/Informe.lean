import HlsXcoder.Codificacion.Sonda
import HlsXcoder.Lib.Regexp.First

/-!
# The report of the probe

The report is the text of `av_dump_format`, cut at its newlines: a
preamble about the input, the programs, each under a header of its own,
and what is left.

The pattern of the headers reads the id of a header back
(`progReg_cabecera`), whatever name follows it. It may read a header in
the lines between too, so the headers found in a report are those of its
programs only where it finds none there (`Informe.Valido`).
-/

namespace HlsXcoder

open Regexp

/-- The header of a program. -/
def cabecera (id : ℕ) (nombre : String) : String :=
  "  Program " ++ toString id ++ " " ++ nombre

/-- A program of the report, with the lines below its header. -/
structure Seccion where
  id : ℕ
  nombre : String
  lineas : List String

/-- A report, by its parts. -/
structure Informe where
  preambulo : List String
  programas : List Seccion
  resto : List String

/-- The lines of a report. -/
def Informe.lineas (informe : Informe) : List String :=
  informe.preambulo ++
    (informe.programas.flatMap fun s => cabecera s.id s.nombre :: s.lineas) ++ informe.resto

/-- The lines of a report that are no header. -/
def Informe.otras (informe : Informe) : List String :=
  informe.preambulo ++ informe.programas.flatMap Seccion.lineas ++ informe.resto

/-- **A report with headers of its own only**: the ids of the programs are
pairwise distinct, and no other line reads as a header. -/
structure Informe.Valido (informe : Informe) : Prop where
  ids : (informe.programas.map Seccion.id).Nodup
  otras : ∀ linea ∈ informe.otras, findStringSubmatch progReg linea = none

theorem Informe.valido_of {informe : Informe} (hids : (informe.programas.map Seccion.id).Nodup)
    (hotras : (informe.otras.all fun linea => (findStringSubmatch progReg linea).isNone) = true) :
    informe.Valido :=
  ⟨hids, fun linea hl => Option.isNone_iff_eq_none.1 (List.all_eq_true.1 hotras linea hl)⟩

/-! ## Headers -/

/-- The digits of the patterns. -/
def cifra : CharClass := ⟨false, [('0', '9')]⟩

theorem mem_cifra {c : Char} : cifra.mem c = true ↔ c.isDigit = true := by
  simp only [cifra, CharClass.mem, List.any_cons, List.any_nil, Bool.or_false, Bool.false_bne,
    Char.isDigit, Bool.and_eq_true, decide_eq_true_eq]
  exact Iff.rfl

theorem progReg_eq : progReg = Re.cat (("Program ".toList.map fun d => .char (.single d)) ++
    [.group 1 (.rep (.char cifra) 1 none true)]) := by
  decide +kernel

theorem mem_cifra_toString {n : ℕ} {c : Char} (h : c ∈ (toString n).toList) :
    cifra.mem c = true := by
  rw [mem_cifra]
  simp only [Nat.toString_eq_repr, Nat.repr, String.toList_ofList] at h
  exact Nat.isDigit_of_mem_toDigits (by decide) (by decide) h

theorem toString_ne_empty (n : ℕ) : toString n ≠ "" := by
  simp [Nat.toString_eq_repr, Nat.repr]

theorem toString_injective {n m : ℕ} (h : toString n = toString m) : n = m := by
  refine @Text.pad_injective 0 0 n m ?_
  simpa [Text.pad, Nat.toString_eq_repr, Nat.repr] using congrArg String.toList h

/-- **A header reads as the header of its own program.** -/
theorem progReg_cabecera (id : ℕ) (nombre : String) :
    ∃ m, findStringSubmatch progReg (cabecera id nombre) = some m ∧ m 1 = toString id := by
  have hrun : (progReg.run ("Program ".toList ++ (toString id).toList ++ (' ' :: nombre.toList),
      [])).head? = some (' ' :: nombre.toList, [(1, (toString id).toList)]) := by
    rw [progReg_eq, List.append_assoc, Re.run_cat_lit]
    refine Re.head_run_group (Re.head_run_rep_char (fun c hc => mem_cifra_toString hc) ?_ ?_ (by simp))
    · rw [Text.fenced_cons]
      decide
    · have := toString_ne_empty id
      simp only [ne_eq, ← String.toList_inj, String.toList_empty] at this
      exact List.length_pos_iff.2 this
  have hfind : progReg.find (cabecera id nombre).toList =
      some ⟨"Program ".toList ++ (toString id).toList, [(1, (toString id).toList)]⟩ := by
    have hsplit : (cabecera id nombre).toList = "  ".toList ++
        ("Program ".toList ++ (toString id).toList ++ (' ' :: nombre.toList)) := by
      simp [cabecera]
    rw [hsplit, Re.find_append, Re.find_of_head hrun]
    intro d hd t
    obtain rfl : d = ' ' := by simpa using hd
    rw [progReg_eq]
    exact Re.run_cat_cons_eq_nil (by decide)
  refine ⟨_, by rw [findStringSubmatch, hfind, Option.map_some], ?_⟩
  simp only [Found.group, List.lookup_cons_self, Option.getD_some, String.ofList_toList]

/-- The id of a header. -/
def idCabecera (configuration : Config) (linea : String) : Option String :=
  match clasificar configuration linea with
  | .programa programId => some programId
  | _ => none

theorem progReg_of_clasificar {configuration : Config} {linea id : String}
    (h : clasificar configuration linea = .programa id) :
    ∃ m, findStringSubmatch progReg linea = some m ∧ m 1 = id := by
  simp only [clasificar] at h
  split at h
  · rename_i m hm
    split at hm
    · cases hm
    · exact ⟨m, hm, ClaseLinea.programa.inj h⟩
  · split at h
    · cases h
    · split at h <;> cases h

/-- The id of a header is a numeral. -/
theorem lang_idCabecera {configuration : Config} {linea id : String}
    (h : idCabecera configuration linea = some id) :
    (Re.rep (.char cifra) 1 none true).Lang id.toList := by
  rw [idCabecera] at h
  split at h
  · rename_i programId hc
    obtain rfl := Option.some.inj h
    obtain ⟨m, hm, rfl⟩ := progReg_of_clasificar hc
    obtain ⟨m, hfind, rfl⟩ := Option.map_eq_some_iff.1 hm
    rw [String.toList_ofList]
    exact Re.lang_group_of_find (by decide +kernel) (by rw [progReg_eq]; simp [Re.cat, Re.groups])
      hfind
  · cases h

/-- Every id of a header has a digit. -/
theorem idCabecera_ne_empty {configuration : Config} {linea id : String}
    (h : idCabecera configuration linea = some id) : id ≠ "" := by
  rintro rfl
  have hlang := lang_idCabecera h
  rw [Re.lang_rep_char] at hlang
  simp at hlang

theorem isDigit_of_mem_idCabecera {configuration : Config} {linea id : String}
    (h : idCabecera configuration linea = some id) : ∀ c ∈ id.toList, c.isDigit = true :=
  fun c hc => mem_cifra.1 ((Re.lang_rep_char.1 (lang_idCabecera h)).1 c hc)

theorem clasificar_cabecera {configuration : Config} (hstreams : configuration.streams = [])
    (id : ℕ) (nombre : String) :
    clasificar configuration (cabecera id nombre) = .programa (toString id) := by
  obtain ⟨m, hm, hid⟩ := progReg_cabecera id nombre
  simp [clasificar, hstreams, hm, hid]

theorem idCabecera_cabecera {configuration : Config} (hstreams : configuration.streams = [])
    (id : ℕ) (nombre : String) :
    idCabecera configuration (cabecera id nombre) = some (toString id) := by
  rw [idCabecera, clasificar_cabecera hstreams]

theorem idCabecera_eq_none {configuration : Config} {linea : String}
    (h : findStringSubmatch progReg linea = none) : idCabecera configuration linea = none := by
  rw [idCabecera]
  split
  · rename_i hc
    obtain ⟨m, hm, -⟩ := progReg_of_clasificar hc
    rw [h] at hm
    cases hm
  · rfl

/-- **The headers of a report** are those of its programs, in order. -/
theorem Informe.Valido.filterMap_idCabecera {informe : Informe} (h : informe.Valido)
    {configuration : Config} (hstreams : configuration.streams = []) :
    informe.lineas.filterMap (idCabecera configuration) =
      informe.programas.map fun s => toString s.id := by
  have hotras : ∀ lineas ⊆ informe.otras, lineas.filterMap (idCabecera configuration) = [] := by
    intro lineas hlineas
    rw [List.filterMap_eq_nil_iff]
    exact fun linea hl => idCabecera_eq_none (h.otras linea (hlineas hl))
  have hprogramas : ∀ programas ⊆ informe.programas,
      (programas.flatMap fun s => cabecera s.id s.nombre :: s.lineas).filterMap
        (idCabecera configuration) = programas.map fun s => toString s.id := by
    intro programas hsub
    induction programas with
    | nil => rfl
    | cons s programas ih =>
      obtain ⟨hs, hresto⟩ := List.cons_subset.1 hsub
      have hlineas : s.lineas ⊆ informe.otras := fun linea hl => by
        rw [Informe.otras, List.mem_append, List.mem_append]
        exact .inl (.inr (List.mem_flatMap.2 ⟨s, hs, hl⟩))
      rw [List.flatMap_cons, List.filterMap_append, List.filterMap_cons,
        idCabecera_cabecera hstreams, hotras s.lineas hlineas, ih hresto, List.map_cons]
      rfl
  rw [Informe.lineas, List.filterMap_append, List.filterMap_append,
    hprogramas _ (List.Subset.refl _), hotras _ fun linea hl => ?_, hotras _ fun linea hl => ?_,
    List.nil_append, List.append_nil]
  · simp [Informe.otras, hl]
  · simp [Informe.otras, hl]

end HlsXcoder
