import HlsXcoder.Codificacion.Flujos
import HlsXcoder.Codificacion.Metadatos
import HlsXcoder.Lib.Firsts
import Mathlib.Algebra.GroupWithZero.Nat

/-!
# Reading a report with its streams

What a program holds after some lines is said by the streams that were
read in it (`Recoge`). A line that is neither header nor stream changes
nothing but names, a stream line adds its stream, and a header starts
another program, so the report is read line by line, then section by
section (`Volcado.Valido.leer`).

The line loop has no case for the line above the streams of no program:
what follows goes to the last program.
-/

namespace HlsXcoder

open Regexp

/-! ## What a stream is read as -/

section Lectura

variable (configuration : Config)

/-- The match a stream is read by. -/
def Flujo.leido (f : Flujo) : Option (ℕ → String) :=
  match clasificar configuration f.linea with
  | .stream stream => some stream
  | _ => none

/-- The type a stream is read as, where it is read as one. -/
def Flujo.tipoLeido (f : Flujo) : Option String := (f.leido configuration).map (· 4)

/-- The language a subtitle stream is kept under. -/
def Flujo.idioma (f : Flujo) : String :=
  match f.leido configuration with
  | some stream => languageOr (streamElement stream) "default"
  | none => ""

end Lectura

/-- What identifies a stream that was read. -/
def Stream.clave (elem : Stream) : String × String := (elem.id, elem.hexaId)

/-- **What a program holds** after some streams were read in it: all the
audio, the last video, and the subtitles that came first in their
language. -/
structure Recoge (configuration : Config) (flujos : List Flujo) (programa : Programa) : Prop where
  audio : programa.audio.map Stream.clave =
    (flujos.filter fun f => f.tipoLeido configuration = some "Audio").map Flujo.clave
  video : programa.video.clave =
    ((flujos.filter fun f => f.tipoLeido configuration = some "Video").getLast?).elim ("", "")
      Flujo.clave
  subtitulos : programa.subtitulos.map (fun s => (s.clave, s.language)) =
    (Firsts.firsts (fun f : Flujo => f.tipoLeido configuration = some "Subtitle")
      (Flujo.idioma configuration) flujos).map fun f => (f.clave, f.idioma configuration)

/-- No option that leaves streams out. -/
structure Config.SinFiltros (configuration : Config) : Prop where
  streams : configuration.streams = []
  an : configuration.an = false
  sn : configuration.sn = false
  audioLang : configuration.audioLang = []
  subLang : configuration.subLang = []

section Lineas

variable {configuration : Config} {l l' : Lectura} {w : Option String} {P : Programa}
  {flujos : List Flujo}

theorem recoge_nuevo (id nombre : String) :
    Recoge configuration [] { (default : Programa) with id := id, nombre := nombre } :=
  ⟨rfl, rfl, rfl⟩

theorem Recoge.sinNombre {P' : Programa} (h : Recoge configuration flujos P)
    (hP : P'.sinNombre = P.sinNombre) : Recoge configuration flujos P' := by
  rw [Programa.sinNombre, Programa.sinNombre, Programa.mk.injEq] at hP
  obtain ⟨-, -, hvideo, haudio, hsubtitulos⟩ := hP
  exact ⟨haudio ▸ h.audio, hvideo ▸ h.video, hsubtitulos ▸ h.subtitulos⟩

/-- What a program collects is read off it without its name. -/
theorem Recoge.exists_of_sinNombre (h : Recoge configuration flujos P) {id : String}
    (hid : l.sinNombre.programas id = some P.sinNombre) :
    ∃ P', l.programas id = some P' ∧ Recoge configuration flujos P' := by
  rw [Lectura.programas_sinNombre, Option.map_eq_some_iff] at hid
  obtain ⟨P', hP', heq⟩ := hid
  exact ⟨P', hP', h.sinNombre heq⟩

/-- **The program being read**, with the streams read in it so far, and
the other programs, names apart. -/
structure Lectura.Lleva (l : Lectura) (configuration : Config) (id : String)
    (otros : String → Option Programa) (flujos : List Flujo) : Prop where
  programId : l.programId = id
  ne_empty : id ≠ ""
  programas : ∃ P, Recoge configuration flujos P ∧
    l.sinNombre.programas = Function.update otros id (some P.sinNombre)

theorem Lectura.Lleva.exists_programa {id : String} {otros : String → Option Programa}
    (h : l.Lleva configuration id otros flujos) :
    ∃ P, l.programas l.programId = some P ∧ Recoge configuration flujos P := by
  obtain ⟨P, hP, hprog⟩ := h.programas
  rw [h.programId]
  exact hP.exists_of_sinNombre (by rw [hprog, Function.update_self])

theorem Lectura.Lleva.situada {id : String} {otros : String → Option Programa}
    (h : l.Lleva configuration id otros flujos) : l.Situada := by
  obtain ⟨P, hP, -⟩ := h.exists_programa
  exact .inr (by rw [hP]; rfl)

theorem suceso_neutra (hstreams : configuration.streams = []) {linea : String} (h : Neutra linea) :
    suceso configuration linea = .nada := by
  rw [suceso, clasificar, h.1, h.2, hstreams]
  cases findStringSubmatch serviceName linea <;> rfl

/-- **Lines that are neither header nor stream change nothing but
names.** -/
theorem leerLineas_neutras (hstreams : configuration.streams = []) {lineas : List String}
    (hneutras : ∀ linea ∈ lineas, Neutra linea) (hl : l.Situada) {programa programa' : Programa}
    (h : leerLineas configuration lineas (programa, l) = some (programa', l')) :
    l'.sinNombre = l.sinNombre := by
  induction lineas generalizing programa l with
  | nil =>
    obtain ⟨-, rfl⟩ := Prod.mk.inj (Option.some.inj h)
    rfl
  | cons linea lineas ih =>
    simp only [leerLineas, Option.bind_eq_bind, Option.bind_eq_some_iff] at h
    obtain ⟨⟨w, l₁⟩, hlinea, h⟩ := h
    rw [List.forall_mem_cons] at hneutras
    have hnada := leerLinea_nada (suceso_neutra hstreams hneutras.1) hl
    rw [hlinea] at hnada
    obtain ⟨-, hl₁⟩ := Prod.mk.inj (Option.some.inj hnada)
    rw [ih hneutras.2 (hl.leerLinea hlinea) h]
    exact hl₁

theorem tipoLeido_eq {f : Flujo} {stream : ℕ → String} (h : f.leido configuration = some stream) :
    f.tipoLeido configuration = some (stream 4) := by
  rw [Flujo.tipoLeido, h]
  rfl

/-- A line that is read as none of the three types adds nothing. -/
theorem Recoge.concat_otro {f : Flujo} (h : Recoge configuration flujos P)
    (hf : ∀ tipo ∈ f.tipoLeido configuration, tipo ≠ "Video" ∧ tipo ≠ "Audio" ∧ tipo ≠ "Subtitle") :
    Recoge configuration (flujos ++ [f]) P := by
  have hno : ∀ tipo, tipo = "Video" ∨ tipo = "Audio" ∨ tipo = "Subtitle" →
      f.tipoLeido configuration ≠ some tipo := by
    rintro tipo htipo heq
    obtain ⟨hv, ha, hs⟩ := hf tipo heq
    obtain rfl | rfl | rfl := htipo
    · exact hv rfl
    · exact ha rfl
    · exact hs rfl
  refine ⟨?_, ?_, ?_⟩
  · simp [List.filter_append, hno "Audio" (by simp), h.audio]
  · simp [List.filter_append, hno "Video" (by simp), h.video]
  · simp [Firsts.firsts_concat, Firsts.keep, hno "Subtitle" (by simp), h.subtitulos]

theorem Recoge.concat_video {f : Flujo} (h : Recoge configuration flujos P)
    (hf : f.tipoLeido configuration = some "Video") {elem : Stream} (helem : elem.clave = f.clave) :
    Recoge configuration (flujos ++ [f]) { P with video := elem } := by
  refine ⟨?_, ?_, ?_⟩
  · simp [List.filter_append, hf, h.audio]
  · simp [List.filter_append, hf, helem]
  · simp [Firsts.firsts_concat, Firsts.keep, hf, h.subtitulos]

theorem Recoge.concat_audio {f : Flujo} (h : Recoge configuration flujos P)
    (hf : f.tipoLeido configuration = some "Audio") {elem : Stream} (helem : elem.clave = f.clave) :
    Recoge configuration (flujos ++ [f]) { P with audio := P.audio ++ [elem] } := by
  refine ⟨?_, ?_, ?_⟩
  · simp [List.filter_append, hf, h.audio, helem]
  · simp [List.filter_append, hf, h.video]
  · simp [Firsts.firsts_concat, Firsts.keep, hf, h.subtitulos]

/-- The languages of the subtitles are those kept. -/
theorem Recoge.languages (h : Recoge configuration flujos P) :
    P.subtitulos.map Stream.language =
      (Firsts.firsts (fun f : Flujo => f.tipoLeido configuration = some "Subtitle")
        (Flujo.idioma configuration) flujos).map (Flujo.idioma configuration) := by
  have hlanguage := congrArg (List.map Prod.snd) h.subtitulos
  rwa [List.map_map, List.map_map] at hlanguage

theorem Recoge.concat_subtitulo {f : Flujo} (h : Recoge configuration flujos P)
    (hf : f.tipoLeido configuration = some "Subtitle") {elem : Stream} (helem : elem.clave = f.clave)
    (hlanguage : elem.language = f.idioma configuration)
    (hnuevo : f.idioma configuration ∉ P.subtitulos.map Stream.language) :
    Recoge configuration (flujos ++ [f]) { P with subtitulos := P.subtitulos ++ [elem] } := by
  refine ⟨?_, ?_, ?_⟩
  · simp [List.filter_append, hf, h.audio]
  · simp [List.filter_append, hf, h.video]
  · rw [h.languages] at hnuevo
    rw [Firsts.firsts_concat, Firsts.keep, if_pos ⟨decide_eq_true hf, hnuevo⟩, List.map_append,
      List.map_append, h.subtitulos, List.map_singleton, List.map_singleton, helem, hlanguage]

theorem Recoge.concat_repetido {f : Flujo} (h : Recoge configuration flujos P)
    (hf : f.tipoLeido configuration = some "Subtitle")
    (hrepetido : f.idioma configuration ∈ P.subtitulos.map Stream.language) :
    Recoge configuration (flujos ++ [f]) P := by
  refine ⟨?_, ?_, ?_⟩
  · simp [List.filter_append, hf, h.audio]
  · simp [List.filter_append, hf, h.video]
  · rw [h.languages] at hrepetido
    rw [Firsts.firsts_concat, Firsts.keep, if_neg fun hn => hn.2 hrepetido, h.subtitulos]

/-- **A stream line adds its stream** to the program being read. -/
theorem leerStream_recoge (hc : configuration.SinFiltros) {f : Flujo} {stream : ℕ → String}
    {linea : String} (hleido : f.leido configuration = some stream)
    (hclave : (stream 1, stream 2) = f.clave) (hP : l.programas l.programId = some P)
    (hR : Recoge configuration flujos P) (h : leerStream configuration linea stream l = some l') :
    ∃ P', Recoge configuration (flujos ++ [f]) P' ∧ l'.programId = l.programId ∧
      l'.programas = (l.poner P').programas := by
  have htipo := tipoLeido_eq hleido
  have hidioma : f.idioma configuration = languageOr (streamElement stream) "default" := by
    rw [Flujo.idioma, hleido]
  simp only [leerStream, hP, hc.streams, List.isEmpty_nil, Bool.not_true, Bool.false_and,
    Bool.false_eq_true, if_false, Option.bind_eq_bind, Option.bind_some] at h
  split at h
  -- the video is replaced
  · rename_i hvideo
    simp only [leerVideo, Option.bind_eq_bind, Option.bind_eq_some_iff, Option.some.injEq] at h
    obtain ⟨fps, -, chroma, -, rfl⟩ := h
    refine ⟨_, hR.concat_video (by rw [htipo, hvideo]) ?_, rfl, rfl⟩
    exact hclave
  -- an audio stream is always added
  · rename_i haudio
    obtain rfl := Option.some.inj h
    simp only [leerAudio, hc.an, hc.audioLang, idiomaPedido, List.isEmpty_nil, Bool.true_or,
      Bool.not_true, Bool.or_false, Bool.false_eq_true, if_false]
    refine ⟨_, hR.concat_audio (by rw [htipo, haudio]) ?_, rfl, rfl⟩
    exact hclave
  -- a subtitle is added unless its language is there
  · rename_i hsubtitulo
    obtain rfl := Option.some.inj h
    simp only [leerSubtitulo, hc.sn, hc.subLang, idiomaPedido, List.isEmpty_nil, Bool.true_or,
      Bool.not_true, Bool.false_or, Bool.or_false]
    have hlista : (P.subtitulos.any fun s => s.language =
        languageOr (streamElement stream) "default") = true ↔
          f.idioma configuration ∈ P.subtitulos.map Stream.language := by
      simp [hidioma]
    by_cases hrepetido : f.idioma configuration ∈ P.subtitulos.map Stream.language
    · rw [if_pos (hlista.2 hrepetido)]
      refine ⟨P, hR.concat_repetido (by rw [htipo, hsubtitulo]) hrepetido, rfl, ?_⟩
      rw [Lectura.poner, ← hP, Function.update_eq_self]
    · rw [if_neg fun hany => hrepetido (hlista.1 hany)]
      refine ⟨_, hR.concat_subtitulo (by rw [htipo, hsubtitulo]) ?_ hidioma.symm hrepetido, rfl, rfl⟩
      exact hclave
  -- other types leave no trace
  · rename_i hv ha hs
    obtain rfl := Option.some.inj h
    refine ⟨P, hR.concat_otro ?_, rfl, ?_⟩
    · rw [htipo]
      rintro tipo ⟨rfl⟩
      exact ⟨hv, ha, hs⟩
    · rw [Lectura.poner, ← hP, Function.update_eq_self]

/-! ## Line by line -/

theorem Lectura.Lleva.poner {id : String} {otros : String → Option Programa} {flujos' : List Flujo}
    (h : l.Lleva configuration id otros flujos) {P' : Programa}
    (hR : Recoge configuration flujos' P') (hid : l'.programId = l.programId)
    (hprog : l'.programas = (l.poner P').programas) : l'.Lleva configuration id otros flujos' := by
  obtain ⟨P, -, hotros⟩ := h.programas
  refine ⟨hid.trans h.programId, h.ne_empty, P', hR, ?_⟩
  have hl' : l'.sinNombre.programas = (l.poner P').sinNombre.programas := by
    simp only [Lectura.sinNombre, hprog]
  rw [hl', Lectura.sinNombre_poner]
  simp only [Lectura.poner, hotros, Lectura.programId_sinNombre, h.programId, Function.update_idem]

theorem Lectura.Lleva.neutras {id : String} {otros : String → Option Programa}
    (h : l.Lleva configuration id otros flujos) (hc : configuration.SinFiltros)
    {lineas : List String} (hneutras : ∀ linea ∈ lineas, Neutra linea) {programa programa' : Programa}
    (hleer : leerLineas configuration lineas (programa, l) = some (programa', l')) :
    l'.Lleva configuration id otros flujos := by
  have hl' := leerLineas_neutras hc.streams hneutras h.situada hleer
  refine ⟨?_, h.ne_empty, ?_⟩
  · rw [← l'.programId_sinNombre, hl', l.programId_sinNombre, h.programId]
  · rw [hl']
    exact h.programas

theorem Lectura.Lleva.flujo {id : String} {otros : String → Option Programa}
    (h : l.Lleva configuration id otros flujos) (hc : configuration.SinFiltros) {f : Flujo}
    (hf : f.Valido) (hlinea : leerLinea configuration f.linea l = some (w, l')) :
    l'.Lleva configuration id otros (flujos ++ [f]) := by
  obtain ⟨P, hP, hR⟩ := h.exists_programa
  have hno : f.leido configuration = none → l'.sinNombre = l.sinNombre →
      l'.Lleva configuration id otros (flujos ++ [f]) := by
    intro hleido hl'
    obtain ⟨Q, hQ, hotros⟩ := h.programas
    refine ⟨?_, h.ne_empty, Q, hQ.concat_otro ?_, by rw [hl', hotros]⟩
    · rw [← l'.programId_sinNombre, hl', l.programId_sinNombre, h.programId]
    · rw [Flujo.tipoLeido, hleido]
      simp
  have hnada : suceso configuration f.linea = .nada → l'.sinNombre = l.sinNombre := by
    intro hs
    have hlee := leerLinea_nada hs h.situada
    rw [hlinea] at hlee
    exact (Prod.mk.inj (Option.some.inj hlee)).2
  cases hclase : clasificar configuration f.linea with
  | programa programId =>
    obtain ⟨m, hm, -⟩ := progReg_of_clasificar hclase
    rw [hf.progReg] at hm
    cases hm
  | servicio nombre => exact hno (by rw [Flujo.leido, hclase]) (hnada (by rw [suceso, hclase]))
  | otra => exact hno (by rw [Flujo.leido, hclase]) (hnada (by rw [suceso, hclase]))
  | stream stream =>
    have hne : l.programId ≠ "" := h.programId ▸ h.ne_empty
    rw [leerLinea, hclase] at hlinea
    simp only [if_neg hne, Option.bind_eq_bind, Option.bind_eq_some_iff, Option.some.injEq,
      Prod.mk.injEq] at hlinea
    obtain ⟨l₁, hl₁, -, rfl⟩ := hlinea
    obtain ⟨P', hR', hid, hprog⟩ := leerStream_recoge hc (by rw [Flujo.leido, hclase])
      (clave_flujo hf (findStringSubmatch_of_clasificar hclase)) hP hR hl₁
    exact h.poner hR' hid hprog

/-- **Reading streams, one after the other**, adds them to the program
being read. -/
theorem Lectura.Lleva.sucesivos {id : String} {otros : String → Option Programa} {leidos nuevos : List Flujo}
    (h : l.Lleva configuration id otros leidos) (hc : configuration.SinFiltros)
    (hnuevos : ∀ f ∈ nuevos, f.Valido) {programa programa' : Programa}
    (hleer : leerLineas configuration (nuevos.flatMap Flujo.lineas) (programa, l) =
      some (programa', l')) : l'.Lleva configuration id otros (leidos ++ nuevos) := by
  induction nuevos generalizing leidos programa l with
  | nil =>
    obtain ⟨-, rfl⟩ := Prod.mk.inj (Option.some.inj hleer)
    rwa [List.append_nil]
  | cons f nuevos ih =>
    rw [List.forall_mem_cons] at hnuevos
    rw [List.flatMap_cons, Flujo.lineas, List.cons_append, leerLineas, Option.bind_eq_bind,
      Option.bind_eq_some_iff] at hleer
    obtain ⟨⟨w, l₁⟩, hlinea, hleer⟩ := hleer
    simp only [leerLineas_append, Option.bind_eq_some_iff] at hleer
    obtain ⟨⟨programa₂, l₂⟩, hdetalle, hleer⟩ := hleer
    have h₁ := h.flujo hc hnuevos.1 hlinea
    have h₂ := h₁.neutras hc hnuevos.1.detalle hdetalle
    rw [List.append_cons]
    exact ih h₂ hnuevos.2 hleer

/-- The header of a program starts it, whatever was read before. -/
theorem lleva_leerPrograma {id : String} (hid : id ≠ "") :
    (leerPrograma l id).Lleva configuration id l.sinNombre.programas [] := by
  refine ⟨rfl, hid, { (default : Programa) with id := id }, recoge_nuevo id "", ?_⟩
  rw [leerPrograma_sinNombre]
  rfl

end Lineas

/-! ## The report -/

/-- A program of the report, with its streams. -/
structure Emision where
  id : ℕ
  nombre : String
  metadatos : List String
  flujos : List Flujo

def Emision.seccion (e : Emision) : Seccion :=
  ⟨e.id, e.nombre, e.metadatos ++ e.flujos.flatMap Flujo.lineas⟩

/-- What `av_dump_format` prints: the programs with their streams, and the
streams of none. -/
structure Volcado where
  preambulo : List String
  programas : List Emision
  nbStreams : ℕ
  sueltos : List Flujo
  cola : List String

/-- The line above the streams of no program, printed where the programs
do not account for all streams. -/
def Volcado.noProgram (v : Volcado) : List String :=
  if v.programas ≠ [] ∧ (v.programas.map fun e => e.flujos.length).sum < v.nbStreams
  then ["  No Program"] else []

def Volcado.informe (v : Volcado) : Informe :=
  ⟨v.preambulo, v.programas.map Emision.seccion,
    v.noProgram ++ (v.sueltos.flatMap Flujo.lineas ++ v.cola)⟩

/-- **A report that can be told apart**: the programs have distinct ids,
the streams of a program distinct indices, the streams of none indices of
their own, and no metadata looks like a header. -/
structure Volcado.Valido (v : Volcado) : Prop where
  ids : (v.programas.map Emision.id).Nodup
  indices : ∀ e ∈ v.programas, (e.flujos.map Flujo.indice).Nodup
  ajenos : ∀ e ∈ v.programas, ∀ f ∈ e.flujos, ∀ g ∈ v.sueltos, f.indice ≠ g.indice
  preambulo : ∀ linea ∈ v.preambulo, Neutra linea
  metadatos : ∀ e ∈ v.programas, ∀ linea ∈ e.metadatos, Neutra linea
  flujos : ∀ e ∈ v.programas, ∀ f ∈ e.flujos, f.Valido
  sueltos : ∀ f ∈ v.sueltos, f.Valido
  cola : ∀ linea ∈ v.cola, Neutra linea

theorem Volcado.neutra_noProgram (v : Volcado) : ∀ linea ∈ v.noProgram, Neutra linea := by
  intro linea hl
  rw [Volcado.noProgram] at hl
  split at hl
  · rw [List.mem_singleton.1 hl, Neutra, ← Option.isNone_iff_eq_none, ← Option.isNone_iff_eq_none]
    decide +kernel
  · cases hl

section Secciones

variable {configuration : Config} {l l' : Lectura} {programa programa' : Programa}

/-- A section leaves its own streams in its program. -/
theorem lleva_seccion (hc : configuration.SinFiltros) {e : Emision}
    (hmetadatos : ∀ linea ∈ e.metadatos, Neutra linea) (hflujos : ∀ f ∈ e.flujos, f.Valido)
    (h : leerLineas configuration (cabecera e.id e.nombre :: e.seccion.lineas) (programa, l) =
      some (programa', l')) :
    l'.Lleva configuration (toString e.id) l.sinNombre.programas e.flujos := by
  simp only [leerLineas, leerLinea, clasificar_cabecera hc.streams, Option.bind_eq_bind,
    Option.bind_some, Emision.seccion, leerLineas_append, Option.bind_eq_some_iff] at h
  obtain ⟨⟨programa₁, l₁⟩, hmeta, h⟩ := h
  have h₁ := (lleva_leerPrograma (toString_ne_empty e.id)).neutras hc hmetadatos hmeta
  exact h₁.sucesivos hc hflujos h

/-- **Reading programs, one after the other**, leaves each with its own
streams, and the programs of before where they are. -/
theorem leerLineas_secciones (hc : configuration.SinFiltros) {es : List Emision}
    (hids : (es.map Emision.id).Nodup) (hmetadatos : ∀ e ∈ es, ∀ linea ∈ e.metadatos, Neutra linea)
    (hflujos : ∀ e ∈ es, ∀ f ∈ e.flujos, f.Valido)
    (h : leerLineas configuration (es.flatMap fun e => cabecera e.id e.nombre :: e.seccion.lineas)
      (programa, l) = some (programa', l')) :
    (∀ id, (∀ e ∈ es, toString e.id ≠ id) →
        l'.sinNombre.programas id = l.sinNombre.programas id) ∧
      ∀ e ∈ es, ∃ P, Recoge configuration e.flujos P ∧
        l'.sinNombre.programas (toString e.id) = some P.sinNombre := by
  induction es generalizing programa l with
  | nil =>
    obtain ⟨-, rfl⟩ := Prod.mk.inj (Option.some.inj h)
    exact ⟨fun _ _ => rfl, fun e he => by cases he⟩
  | cons e es ih =>
    rw [List.forall_mem_cons] at hmetadatos hflujos
    rw [List.map_cons, List.nodup_cons] at hids
    rw [List.flatMap_cons, leerLineas_append, Option.bind_eq_some_iff] at h
    obtain ⟨⟨programa₁, l₁⟩, hseccion, h⟩ := h
    have hlleva := lleva_seccion hc hmetadatos.1 hflujos.1 hseccion
    obtain ⟨P, hP, hprog⟩ := hlleva.programas
    obtain ⟨hotros, hresto⟩ := ih hids.2 hmetadatos.2 hflujos.2 h
    refine ⟨fun id hid => ?_, fun e' he' => ?_⟩
    · rw [List.forall_mem_cons] at hid
      rw [hotros id hid.2, hprog, Function.update_of_ne hid.1.symm]
    · obtain rfl | he' := List.mem_cons.1 he'
      · refine ⟨P, hP, ?_⟩
        rw [hotros, hprog, Function.update_self]
        intro e'' he'' heq
        exact hids.1 (toString_injective heq ▸ List.mem_map_of_mem he'')
      · exact hresto e' he'

end Secciones

/-- The streams that are read in a program: its own, and those of none
after the last one. -/
def Volcado.leidosEn (v : Volcado) (e : Emision) (despues : List Emision) : List Flujo :=
  e.flujos ++ if despues.isEmpty then v.sueltos else []

theorem Volcado.lineas_eq (v : Volcado) : v.informe.lineas = v.preambulo ++
    ((v.programas.flatMap fun e => cabecera e.id e.nombre :: e.seccion.lineas) ++
      (v.noProgram ++ (v.sueltos.flatMap Flujo.lineas ++ v.cola))) := by
  rw [Informe.lineas, Volcado.informe, List.append_assoc, List.flatMap_map]
  rfl

/-- **What the line loop leaves behind**: the programs of the report, each
with what was read in it. -/
theorem Volcado.Valido.leer {v : Volcado} (hv : v.Valido) {configuration : Config}
    (hc : configuration.SinFiltros) {previo programa : Programa} {l : Lectura}
    (h : leerLineas configuration v.informe.lineas (previo, .inicial) = some (programa, l)) :
    (v.programas ≠ [] → ∀ id P, l.programas id = some P → ∃ e ∈ v.programas, toString e.id = id) ∧
      ∀ antes e despues, v.programas = antes ++ e :: despues →
        ∃ P, l.programas (toString e.id) = some P ∧
          Recoge configuration (v.leidosEn e despues) P := by
  obtain hvacio | ⟨antes₀, u, hprogramas⟩ := List.eq_nil_or_concat v.programas
  · refine ⟨fun hne => absurd hvacio hne, fun antes e despues heq => ?_⟩
    rw [hvacio] at heq
    simp at heq
  rw [List.concat_eq_append] at hprogramas
  rw [Volcado.lineas_eq, hprogramas, List.flatMap_append] at h
  simp only [leerLineas_append, Option.bind_eq_some_iff, List.flatMap_singleton] at h
  obtain ⟨⟨programa₁, l₁⟩, hpreambulo, ⟨programa₃, l₃⟩, ⟨⟨programa₂, l₂⟩, hantes, hultimo⟩,
    ⟨programa₄, l₄⟩, hno, ⟨programa₅, l₅⟩, hsueltos, hcola⟩ := h
  have hmem : ∀ e ∈ antes₀, e ∈ v.programas := fun e he => by simp [hprogramas, he]
  have hu : u ∈ v.programas := by simp [hprogramas]
  have hids := hv.ids
  rw [hprogramas, List.map_append, List.map_singleton, List.nodup_append] at hids
  have hinicio := leerLineas_neutras hc.streams hv.preambulo (.inl rfl) hpreambulo
  obtain ⟨hotros, hpropios⟩ := leerLineas_secciones hc hids.1
    (fun e he => hv.metadatos e (hmem e he)) (fun e he => hv.flujos e (hmem e he)) hantes
  -- the last program goes on to the end of the report
  have hfin := (((lleva_seccion hc (hv.metadatos u hu) (hv.flujos u hu) hultimo).neutras hc
    v.neutra_noProgram hno).sucesivos hc hv.sueltos hsueltos).neutras hc hv.cola hcola
  obtain ⟨Q, hQ, hprog⟩ := hfin.programas
  refine ⟨fun _ id P hid => ?_, fun antes e despues heq => ?_⟩
  · by_contra hno
    replace hno : ∀ e ∈ v.programas, toString e.id ≠ id := fun e he heq => hno ⟨e, he, heq⟩
    have hid' : l.sinNombre.programas id = none := by
      rw [hprog, Function.update_of_ne (hno u hu).symm, hotros id fun e he => hno e (hmem e he),
        hinicio]
      rfl
    rw [Lectura.programas_sinNombre, hid] at hid'
    cases hid'
  · obtain rfl | ⟨despues, x, rfl⟩ := List.eq_nil_or_concat despues
    · rw [hprogramas] at heq
      obtain ⟨rfl, he⟩ := List.append_inj' heq rfl
      obtain rfl : u = e := by simpa using he
      exact hQ.exists_of_sinNombre (by rw [hprog, Function.update_self])
    · rw [List.concat_eq_append, hprogramas, ← List.cons_append, ← List.append_assoc] at heq
      obtain ⟨rfl, -⟩ := List.append_inj' heq rfl
      have he : e ∈ antes ++ e :: despues := by simp
      obtain ⟨P, hP, hPprog⟩ := hpropios e he
      have hne : toString e.id ≠ toString u.id := fun hid =>
        hids.2.2 _ (List.mem_map_of_mem he) _ (List.mem_singleton.2 rfl) (toString_injective hid)
      obtain ⟨P', hP', hrecoge⟩ := hP.exists_of_sinNombre (l := l)
        (by rw [hprog, Function.update_of_ne hne, hPprog])
      exact ⟨P', hP', by simpa [Volcado.leidosEn] using hrecoge⟩

end HlsXcoder
