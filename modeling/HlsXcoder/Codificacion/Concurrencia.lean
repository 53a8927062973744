import HlsXcoder.Ejecucion
import HlsXcoder.Codificacion.Argumentos
import HlsXcoder.Codificacion.Sonda
import HlsXcoder.Lib.Interleaving

/-!
# The package variable `programa`

Every encoder reads the report of its own probe, selects a program,
writes the master playlist and builds its arguments. All of them go
through the package variable `programa`: the line loop writes its id, the
selection reads the id back and replaces the whole value, and playlist
and arguments are built from it.

An encoder that stops the program has no further step here.
-/

namespace HlsXcoder

/-- How far an encoder has got, and what it has built. -/
inductive Fase where
  | lee (pendientes : List String) (l : Lectura)
  | seleccionado
  | escrito (lista : List LineaM3U8)
  | construido (lista : List LineaM3U8) (argumentos : List String)

def Fase.lista : Fase → Option (List LineaM3U8)
  | .escrito lista | .construido lista _ => some lista
  | _ => none

def Fase.argumentos : Fase → Option (List String)
  | .construido _ argumentos => some argumentos
  | _ => none

section Pasos

variable (configuration : Config) (lineas : List String)

/-- The next step of an encoder on the shared `programa`. -/
def pasoCodificador (i : Fin (encodingsNumber configuration)) :
    Fase → Programa → Option (Fase × Programa)
  | .lee (linea :: pendientes) l, programa => do
    let (id, l') ← leerLinea configuration linea l
    some (.lee pendientes l', programa.escribirId id)
  | .lee [] l, programa => do some (.seleccionado, ← l.programas programa.id)
  | .seleccionado, programa =>
    let bitrates := bitratesDe (codificacionDeIndice configuration i)
    some (.escrito (generarArchivoM3U8 programa bitrates), programa)
  | .escrito lista, programa => do
    let argumentos ←
      inicializarFfmpegEncoding configuration programa (codificacionDeIndice configuration i)
    some (.construido lista argumentos, programa)
  | .construido _ _, _ => none

/-- A step of the encoder `i`. -/
def PasoCodificador (i : Fin (encodingsNumber configuration)) (f : Fase) (programa : Programa)
    (f' : Fase) (programa' : Programa) : Prop :=
  pasoCodificador configuration i f programa = some (f', programa')

/-- The runs of the encoders, all with the same report. -/
def RunCodificadores (fases : Fin (encodingsNumber configuration) → Fase) (programa : Programa) :
    Prop :=
  Interleaving.Runs (PasoCodificador configuration)
    (fun _ => .lee lineas .inicial, default) (fases, programa)

/-- What an encoder selects by itself. -/
def seleccionSola : Option Programa := (obtenerStreamsPost configuration lineas default).map Prod.fst

end Pasos

section Aserciones

variable {configuration : Config} {lineas : List String}

/-- The id an encoder ends up with by itself. -/
def idFinal (configuration : Config) (lineas : List String) : String :=
  (escritos configuration lineas .inicial).getLastD ""

/-- What an encoder relies on: `R` relates the variable it would have by
itself to the one there is. -/
def Fase.Vale (configuration : Config) (lineas : List String) (R : Programa → Programa → Prop)
    (i : Fin (encodingsNumber configuration)) (f : Fase) (programa : Programa) : Prop :=
  let encoding := codificacionDeIndice configuration i
  match f with
  | .lee pendientes l => ∃ hechas solo, lineas = hechas ++ pendientes ∧
      leerLineas configuration hechas (default, .inicial) = some (solo, l) ∧ R solo programa
  | .seleccionado => seleccionSola configuration lineas = some programa
  | .escrito lista => seleccionSola configuration lineas = some programa ∧
      lista = generarArchivoM3U8 programa (bitratesDe encoding)
  | .construido lista argumentos => seleccionSola configuration lineas = some programa ∧
      lista = generarArchivoM3U8 programa (bitratesDe encoding) ∧
      inicializarFfmpegEncoding configuration programa encoding = some argumentos

theorem seleccionSola_eq {solo : Programa} {l : Lectura}
    (h : leerLineas configuration lineas (default, .inicial) = some (solo, l)) :
    seleccionSola configuration lineas = l.programas (idFinal configuration lineas) := by
  have hid : solo.id = idFinal configuration lineas := (leerLineas_spec h).1
  simp only [seleccionSola, obtenerStreamsPost, h, Option.bind_eq_bind, Option.bind_some, hid]
  cases l.programas (idFinal configuration lineas) <;> rfl

theorem id_seleccionSola {programa : Programa}
    (h : seleccionSola configuration lineas = some programa) :
    programa.id = idFinal configuration lineas := by
  cases hl : leerLineas configuration lineas (default, .inicial) with
  | none => simp [seleccionSola, obtenerStreamsPost, hl] at h
  | some p =>
    obtain ⟨solo, l⟩ := p
    rw [seleccionSola_eq hl] at h
    exact ((leerLineas_spec hl).2.1 Lectura.coherente_inicial _ _ h).1

/-- **An encoder keeps what it relies on**, and leaves in the variable
what a line writes or what it selects by itself. -/
theorem Fase.Vale.paso {R : Programa → Programa → Prop}
    (hescribir : ∀ solo programa w, (∀ id ∈ w, id ∈ escritos configuration lineas .inicial) →
      R solo programa → R (solo.escribirId w) (programa.escribirId w))
    (hfinal : ∀ solo programa, R solo programa → solo.id = idFinal configuration lineas →
      programa.id = idFinal configuration lineas)
    {i : Fin (encodingsNumber configuration)} {f f' : Fase} {programa programa' : Programa}
    (h : f.Vale configuration lineas R i programa)
    (hp : PasoCodificador configuration i f programa f' programa') :
    f'.Vale configuration lineas R i programa' ∧
      ((∃ w : Option String, (∀ id ∈ w, id ∈ escritos configuration lineas .inicial) ∧
          programa' = programa.escribirId w) ∨
        seleccionSola configuration lineas = some programa') := by
  rw [PasoCodificador] at hp
  cases f with
  | lee pendientes l =>
    obtain ⟨hechas, solo, hlineas, hleer, hR⟩ := h
    cases pendientes with
    | nil =>
      -- all lines are read: the program is the one of the id in the variable
      rw [List.append_nil] at hlineas
      subst hlineas
      simp only [pasoCodificador, Option.bind_eq_bind, Option.bind_eq_some_iff, Option.some.injEq,
        Prod.mk.injEq] at hp
      obtain ⟨P, hP, rfl, rfl⟩ := hp
      have hid := hfinal solo programa hR (leerLineas_spec hleer).1
      have hsola : seleccionSola configuration lineas = some P := by
        rw [seleccionSola_eq hleer, ← hid, hP]
      exact ⟨hsola, .inr hsola⟩
    | cons linea pendientes =>
      -- one line more is read, and its id written to the variable
      simp only [pasoCodificador, Option.bind_eq_bind, Option.bind_eq_some_iff, Option.some.injEq,
        Prod.mk.injEq] at hp
      obtain ⟨⟨w, l'⟩, hlinea, rfl, rfl⟩ := hp
      have hw : ∀ id ∈ w, id ∈ escritos configuration lineas .inicial := by
        intro id hid
        rw [hlineas, (leerLineas_spec hleer).2.2, escritos, hlinea]
        simp [Option.mem_def.1 hid]
      refine ⟨⟨hechas ++ [linea], solo.escribirId w, by simp [hlineas], ?_, hescribir _ _ _ hw hR⟩,
        .inl ⟨w, hw, rfl⟩⟩
      rw [leerLineas_append, hleer]
      simp [leerLineas, hlinea]
  | seleccionado =>
    obtain ⟨rfl, rfl⟩ := Prod.mk.inj (Option.some.inj hp)
    exact ⟨⟨h, rfl⟩, .inr h⟩
  | escrito lista =>
    simp only [pasoCodificador, Option.bind_eq_bind, Option.bind_eq_some_iff, Option.some.injEq,
      Prod.mk.injEq] at hp
    obtain ⟨argumentos, hargs, rfl, rfl⟩ := hp
    exact ⟨⟨h.1, h.2, hargs⟩, .inr h.1⟩
  | construido lista argumentos => simp [pasoCodificador] at hp

theorem eq_idFinal
    (hunico : ∀ x ∈ escritos configuration lineas .inicial,
      ∀ y ∈ escritos configuration lineas .inicial, x = y) {id : String}
    (hid : id ∈ escritos configuration lineas .inicial) : id = idFinal configuration lineas := by
  have hne := List.ne_nil_of_mem hid
  rw [idFinal, List.getLastD_eq_getLast?, List.getLast?_eq_some_getLast hne]
  exact hunico _ hid _ (List.getLast_mem hne)

/-- The variable has the final id wherever it would have it if there was
one encoder. -/
def MismoId (configuration : Config) (lineas : List String) (solo programa : Programa) : Prop :=
  solo.id = idFinal configuration lineas → programa.id = idFinal configuration lineas

theorem MismoId.escribirId
    (hunico : ∀ x ∈ escritos configuration lineas .inicial,
      ∀ y ∈ escritos configuration lineas .inicial, x = y)
    {solo programa : Programa} {w : Option String}
    (hw : ∀ id ∈ w, id ∈ escritos configuration lineas .inicial)
    (h : MismoId configuration lineas solo programa) :
    MismoId configuration lineas (solo.escribirId w) (programa.escribirId w) := by
  cases w with
  | none => exact h
  | some id => exact fun _ => eq_idFinal hunico (hw id rfl)

/-- **One encoder disturbs no other** where all the ids written are one:
what it writes to the variable is what the other selects too. -/
theorem Fase.Vale.undisturbed
    (hunico : ∀ x ∈ escritos configuration lineas .inicial,
      ∀ y ∈ escritos configuration lineas .inicial, x = y)
    {i : Fin (encodingsNumber configuration)} {f : Fase} {programa programa' : Programa}
    (h : f.Vale configuration lineas (MismoId configuration lineas) i programa)
    (hp : (∃ w : Option String, (∀ id ∈ w, id ∈ escritos configuration lineas .inicial) ∧
        programa' = programa.escribirId w) ∨ seleccionSola configuration lineas = some programa') :
    f.Vale configuration lineas (MismoId configuration lineas) i programa' := by
  have hid : programa'.id = programa.id ∨ programa'.id = idFinal configuration lineas := by
    obtain ⟨w, hw, rfl⟩ | hsel := hp
    · cases w with
      | none => exact .inl rfl
      | some id => exact .inr (eq_idFinal hunico (hw id rfl))
    · exact .inr (id_seleccionSola hsel)
  have hsola : seleccionSola configuration lineas = some programa → programa' = programa := by
    intro hsel
    obtain ⟨w, hw, rfl⟩ | hsel' := hp
    · cases w with
      | none => rfl
      | some id =>
        have heq : id = programa.id :=
          (eq_idFinal hunico (hw id rfl)).trans (id_seleccionSola hsel).symm
        rw [Programa.escribirId, heq]
    · exact Option.some.inj (hsel'.symm.trans hsel)
  cases f with
  | lee pendientes l =>
    -- while it reads, only the id in the variable counts
    obtain ⟨hechas, solo, hlineas, hleer, hR⟩ := h
    refine ⟨hechas, solo, hlineas, hleer, fun hsolo => ?_⟩
    obtain hid | hid := hid
    · rw [hid]
      exact hR hsolo
    · exact hid
  -- afterwards the variable holds what it selected, which nobody changes
  | seleccionado => rw [hsola h]; exact h
  | escrito lista => rw [hsola h.1]; exact h
  | construido lista argumentos => rw [hsola h.1]; exact h

/-- The playlist and the arguments of an encoder are built from one
program, the one it selects by itself. -/
def Fase.DeUnPrograma (configuration : Config) (lineas : List String)
    (i : Fin (encodingsNumber configuration)) (f : Fase) : Prop :=
  let encoding := codificacionDeIndice configuration i
  ∀ lista, f.lista = some lista →
    ∃ P, seleccionSola configuration lineas = some P ∧
      lista = generarArchivoM3U8 P (bitratesDe encoding) ∧
      ∀ argumentos, f.argumentos = some argumentos →
        inicializarFfmpegEncoding configuration P encoding = some argumentos

theorem Fase.Vale.deUnPrograma {R : Programa → Programa → Prop}
    {i : Fin (encodingsNumber configuration)} {f : Fase} {programa : Programa}
    (h : f.Vale configuration lineas R i programa) : f.DeUnPrograma configuration lineas i := by
  intro lista hlista
  cases f with
  | lee pendientes l => simp [Fase.lista] at hlista
  | seleccionado => simp [Fase.lista] at hlista
  | escrito lista' =>
    obtain rfl := Option.some.inj hlista
    exact ⟨programa, h.1, h.2, by simp [Fase.argumentos]⟩
  | construido lista' argumentos =>
    obtain rfl := Option.some.inj hlista
    exact ⟨programa, h.1, h.2.1, fun argumentos' h' => by
      rw [← Option.some.inj h']
      exact h.2.2⟩

/-- **Encoders do not disturb each other's program** where there is only
one of them, where a program was asked for, or where the report announces
only one id. -/
theorem programaSolo {fases : Fin (encodingsNumber configuration) → Fase} {programa : Programa}
    (h : encodingsNumber configuration ≤ 1 ∨ configuration.idPrograma ≠ "" ∨
      ∀ x ∈ anuncios configuration "" lineas, ∀ y ∈ anuncios configuration "" lineas, x = y)
    (hrun : RunCodificadores configuration lineas fases programa)
    (i : Fin (encodingsNumber configuration)) : (fases i).DeUnPrograma configuration lineas i := by
  obtain hone | hunico : encodingsNumber configuration ≤ 1 ∨
      ∀ x ∈ escritos configuration lineas .inicial,
        ∀ y ∈ escritos configuration lineas .inicial, x = y := by
    obtain hone | hprog | hanuncios := h
    · exact .inl hone
    · refine .inr fun x hx y hy => ?_
      have hx' := (mem_anuncios_of_mem_escritos hx).2.resolve_left hprog
      have hy' := (mem_anuncios_of_mem_escritos hy).2.resolve_left hprog
      rw [← hx', ← hy']
    · exact .inr fun x hx y hy => hanuncios x (mem_anuncios_of_mem_escritos hx).1 y
        (mem_anuncios_of_mem_escritos hy).1
  · -- alone, an encoder finds the variable as it left it
    have hvale := Interleaving.forall_of_runs
      (P := fun i f g => f.Vale configuration lineas (fun solo programa => solo = programa) i g)
      (fun i f g f' g' hf hp => (hf.paso (fun _ _ w _ hR => by rw [hR])
        (fun _ _ hR hid => by rw [← hR, hid]) hp).1)
      (fun i j hij => absurd (Fin.ext (by omega)) hij) hrun
      (fun _ => ⟨[], default, rfl, rfl, rfl⟩) i
    exact hvale.deUnPrograma
  · have hvale := Interleaving.forall_of_runs
      (P := fun i f g => f.Vale configuration lineas (MismoId configuration lineas) i g)
      (fun i f g f' g' hf hp => (hf.paso (fun _ _ _ hw hR => hR.escribirId hunico hw)
        (fun _ _ hR hid => hR hid) hp).1)
      (fun i j _ f m g m' g' hf hm hp => hf.undisturbed hunico
        (hm.paso (fun _ _ _ hw hR => hR.escribirId hunico hw) (fun _ _ hR hid => hR hid) hp).2)
      hrun (fun _ => ⟨[], default, rfl, rfl, fun hid => hid⟩) i
    exact hvale.deUnPrograma

end Aserciones

/-- Two encoders. -/
def configuracionDos (idPrograma : String) : Config :=
  { Config.minima with encodings := [⟨"h264", []⟩, ⟨"hevc", []⟩], idPrograma := idPrograma }

/-- A report with two programs, of one video each. -/
def informeDos : List String :=
  ["  Program 1 ", "Stream #0:0[0x100]: Video: h264, yuv420p, 25 fps, ",
    "  Program 2 ", "Stream #0:1[0x200]: Video: h264, yuv420p, 25 fps, "]

/-- The first encoder reads the report to its end and the second one its
first line; then the first one selects its program and builds from it. -/
def turnosDos (idPrograma : String) : Option ((Fin 2 → Fase) × Programa) :=
  Interleaving.schedule (pasoCodificador (configuracionDos idPrograma) : Fin 2 → _)
    [0, 0, 0, 0, 1, 0, 0, 0] (fun _ => .lee informeDos .inicial, default)

theorem runCodificadores_turnosDos {idPrograma : String} {s : (Fin 2 → Fase) × Programa}
    (h : turnosDos idPrograma = some s) :
    RunCodificadores (configuracionDos idPrograma) informeDos s.1 s.2 :=
  Interleaving.runs_of_schedule h

/-- With the first program asked for, the first encoder builds from it
whatever the second one reads meanwhile. -/
theorem programaSolo_pedido : ∃ s, turnosDos "1" = some s ∧ (s.1 0).argumentos.isSome = true ∧
    (s.1 0).DeUnPrograma (configuracionDos "1") informeDos (0 : Fin 2) := by
  have h : (turnosDos "1").any (fun s => (s.1 0).argumentos.isSome) = true := by decide +kernel
  obtain ⟨s, hs, hargs⟩ := (Option.any_eq_true _ _).1 h
  exact ⟨s, hs, hargs, programaSolo (.inr (.inl (by decide))) (runCodificadores_turnosDos hs) _⟩

/-- With none asked for, the second encoder makes the first one select the
first program, which it would not select by itself. -/
theorem programaSolo_dos : ∃ fases programa,
    RunCodificadores (configuracionDos "") informeDos fases programa ∧
      ¬ (fases (0 : Fin 2)).DeUnPrograma (configuracionDos "") informeDos (0 : Fin 2) := by
  have h : (turnosDos "").any (fun s => (s.1 0).lista.isSome &&
      (s.1 0).argumentos.any fun argumentos => (seleccionSola (configuracionDos "") informeDos).bind
        (inicializarFfmpegEncoding (configuracionDos "") · (some ⟨"h264", []⟩)) ≠
          some argumentos) = true := by
    decide +kernel
  obtain ⟨s, hs, hcheck⟩ := (Option.any_eq_true _ _).1 h
  simp only [Bool.and_eq_true, Option.isSome_iff_exists, Option.any_eq_true,
    decide_eq_true_eq] at hcheck
  obtain ⟨⟨lista, hlista⟩, argumentos, hargs, hne⟩ := hcheck
  refine ⟨s.1, s.2, runCodificadores_turnosDos hs, fun hde => ?_⟩
  obtain ⟨P, hP, -, heq⟩ := hde lista hlista
  rw [hP, Option.bind_some] at hne
  exact hne (heq argumentos hargs)

end HlsXcoder
