import HlsXcoder.Codificacion.Atribucion
import HlsXcoder.Codificacion.Idiomas
import HlsXcoder.Codificacion.Seleccion

/-!
# Streams listed on the command line

Where streams are listed no header counts, and all streams are read in one
program, the one of the streams before any header. What it holds is a
matter of the streams the report prints, as often as it prints them: a
stream that two programs share is there twice (`listados_iff`).

The program has a number no program of a report has, so it is found only
where no program is asked for.
-/

namespace HlsXcoder

/-- What a line is read as, where it is read as a stream. -/
def LineaStream.deLinea (configuration : Config) (linea : String) : Option LineaStream :=
  match clasificar configuration linea with
  | .stream stream => some ⟨linea, stream⟩
  | _ => none

/-- What a stream of the report is read as. -/
def LineaStream.deFlujo (configuration : Config) (f : Flujo) : Option LineaStream :=
  deLinea configuration f.linea

/-- The streams that a report prints, as often as it prints them. -/
def Volcado.impresos (v : Volcado) : List Flujo := v.programas.flatMap Emision.flujos ++ v.sueltos

/-- A report where, besides, no header of a program looks like a stream
and two streams of one index are the same. -/
structure Volcado.Distinto (v : Volcado) : Prop extends v.Valido where
  cabeceras : ∀ e ∈ v.programas, findStringSubmatch streamReg (cabecera e.id e.nombre) = none
  mismos : ∀ f ∈ v.impresos, ∀ g ∈ v.impresos, f.indice = g.indice → f = g

/-- **The streams listed and no others**: a program that holds each audio
stream listed exactly once, and no video but of those listed. -/
structure Listados (configuration : Config) (v : Volcado) (programa : Programa) : Prop where
  unicos : (programa.audio.map Stream.clave).Nodup
  audio : ∀ clave, clave ∈ programa.audio.map Stream.clave ↔
    ∃ f ∈ v.impresos, f.tipo = "Audio" ∧ f.hexaId ∈ configuration.streams ∧ f.clave = clave
  video : programa.video = default ∨
    ∃ f ∈ v.impresos, f.hexaId ∈ configuration.streams ∧ f.clave = programa.video.clave

/-- The lines of a report that are read as streams. -/
def Volcado.leidas (configuration : Config) (v : Volcado) : List LineaStream :=
  v.informe.lineas.filterMap (LineaStream.deLinea configuration)

/-- **A report the streams listed are read from**: no program is asked
for, some line is read as a stream, all lines are legible, the lines read
as audio listed are those of the audio streams listed, one of each, and
the last one read as a video listed is that of a stream listed. -/
structure Listable (configuration : Config) (v : Volcado) : Prop where
  pedido : configuration.idPrograma = ""
  leida : v.leidas configuration ≠ []
  legibles : ∀ linea ∈ v.informe.lineas, LineaLegible configuration linea
  unicas : (((v.leidas configuration).filter (LineaStream.audioListado configuration)).map
    (·.elem.clave)).Nodup
  audio : ∀ clave, clave ∈ ((v.leidas configuration).filter
      (LineaStream.audioListado configuration)).map (·.elem.clave) ↔
    ∃ f ∈ v.impresos, f.tipo = "Audio" ∧ f.hexaId ∈ configuration.streams ∧ f.clave = clave
  video : ∀ s ∈ ((v.leidas configuration).filter (LineaStream.esVideo configuration)).getLast?,
    ∃ f ∈ v.impresos, f.hexaId ∈ configuration.streams ∧ f.clave = s.elem.clave

section Seleccion

variable {configuration : Config} (hstreams : configuration.streams ≠ [])
include hstreams

/-! ## The one program -/

/-- Where streams are listed a line is a stream or nothing. -/
theorem clasificar_listados (linea : String) :
    clasificar configuration linea = match findStringSubmatch streamReg linea with
      | some stream => .stream stream
      | none => .otra := by
  have hok : (!configuration.streams.isEmpty) = true := by simpa using hstreams
  cases h : findStringSubmatch streamReg linea with
  | none => simp only [clasificar, hok, if_true, h]
  | some stream => simp only [clasificar, hok, if_true, h]

theorem idCabecera_listados (linea : String) : idCabecera configuration linea = none := by
  rw [idCabecera, clasificar_listados hstreams]
  cases findStringSubmatch streamReg linea <;> rfl

/-- **What is announced**: the program of no header, once a stream is
read. -/
theorem anuncios_listados (lineas : List String) : anuncios configuration "" lineas =
    if lineas.filterMap (LineaStream.deLinea configuration) = [] then [] else ["-1"] := by
  induction lineas with
  | nil => rfl
  | cons linea lineas ih =>
    have hresto : anuncios configuration "-1" lineas = [] := by
      rw [anuncios_of_ne (by decide), List.filterMap_eq_nil_iff]
      exact fun linea _ => idCabecera_listados hstreams linea
    rw [anuncios, anuncia, List.filterMap_cons, LineaStream.deLinea, clasificar_listados hstreams]
    cases findStringSubmatch streamReg linea with
    | none => exact ih
    | some stream => simp [hresto]

/-- **The streams of that program are all that are read.** -/
theorem suyas_listados (lineas : List String) : suyas configuration lineas "-1" =
    lineas.filterMap (LineaStream.deLinea configuration) := by
  have hplegar : ∀ (lineas : List String) (r : Recorrido),
      r.programId = "-1" ∨ r.programId = "" ∧ r.suyas "-1" = [] →
      (lineas.foldl (Recorrido.paso configuration) r).suyas "-1" =
        r.suyas "-1" ++ lineas.filterMap (LineaStream.deLinea configuration) := by
    intro lineas
    induction lineas with
    | nil => simp
    | cons linea lineas ih =>
      intro r hr
      rw [List.foldl_cons, List.filterMap_cons, Recorrido.paso, LineaStream.deLinea,
        clasificar_listados hstreams]
      cases findStringSubmatch streamReg linea with
      | none => exact ih r hr
      | some stream =>
        obtain hid | ⟨hid, hvacio⟩ := hr
        · simp only [hid, show "-1" ≠ "" by decide, if_false]
          rw [ih _ (.inl rfl)]
          simp
        · simp only [hid, if_true]
          rw [ih _ (.inl rfl)]
          simp [hvacio]
  exact hplegar lineas .inicial (.inr ⟨rfl, rfl⟩)

/-- **Where the selection finds the program**, and what it holds. -/
theorem seleccion_listados {lineas : List String} {P : Programa} {resumen : String}
    (h : obtenerStreamsPost configuration lineas default = some (P, resumen)) :
    configuration.idPrograma = "" ∧ lineas.filterMap (LineaStream.deLinea configuration) ≠ [] ∧
      ∃ nombre, P = programaDe configuration "-1" nombre
        (lineas.filterMap (LineaStream.deLinea configuration)) := by
  simp only [obtenerStreamsPost, Option.bind_eq_bind, Option.bind_eq_some_iff, Option.some.injEq,
    Prod.mk.injEq] at h
  obtain ⟨⟨solo, l⟩, hleer, Q, hQ, rfl, -⟩ := h
  have hacaba : (leerLineas configuration lineas (default, .inicial)).isSome = true := by
    rw [hleer]
    rfl
  have hid : solo.id = idFinal configuration lineas := (leerLineas_spec hleer).1
  have hmem : solo.id ∈ anuncios configuration "" lineas := by
    have hesta := (isSome_programas_leerLineas hleer solo.id).1 (by rw [hQ]; rfl)
    simpa [Lectura.inicial] using hesta
  have hcabeceras : lineas.filterMap (idCabecera configuration) = [] :=
    List.filterMap_eq_nil_iff.2 fun linea _ => idCabecera_listados hstreams linea
  rw [anuncios_listados hstreams] at hmem
  split at hmem
  · cases hmem
  · rename_i hlee
    obtain hmenos := List.mem_singleton.1 hmem
    refine ⟨?_, hlee, ?_⟩
    · by_contra hpedido
      rw [hid, idFinal, escritos_eq hacaba, if_neg hpedido, hcabeceras, List.filter_nil] at hmenos
      exact absurd hmenos (by decide)
    · rw [← suyas_listados hstreams]
      exact programas_recorrer hleer (hmenos ▸ hQ)

/-- It finds it where no program is asked for and some stream is read. -/
theorem exists_seleccion_listados {lineas : List String}
    (hacaba : (leerLineas configuration lineas (default, .inicial)).isSome = true)
    (hpedido : configuration.idPrograma = "")
    (hlee : lineas.filterMap (LineaStream.deLinea configuration) ≠ []) :
    ∃ P resumen, obtenerStreamsPost configuration lineas default = some (P, resumen) := by
  have hfinal : idFinal configuration lineas = "-1" := by
    rw [idFinal, escritos_eq hacaba, if_pos hpedido]
    simp [Lectura.inicial, anuncios_listados hstreams, hlee]
  have hsel := idSeleccion_eq hacaba
  rw [hfinal, anuncios_listados hstreams, if_neg hlee, if_pos (List.mem_singleton.2 rfl)] at hsel
  obtain ⟨⟨P, resumen⟩, hP, -⟩ := Option.map_eq_some_iff.1 hsel
  exact ⟨P, resumen, hP⟩

end Seleccion

/-! ## The streams of the report -/

section Flujos

variable {configuration : Config} {v : Volcado}

theorem deLinea_eq_none {linea : String} (h : findStringSubmatch streamReg linea = none) :
    LineaStream.deLinea configuration linea = none := by
  rw [LineaStream.deLinea]
  split
  · rename_i stream hc
    rw [findStringSubmatch_of_clasificar hc] at h
    cases h
  · rfl

/-- Lines that look like no stream bring none. -/
theorem filterMap_neutras {lineas : List String}
    (h : ∀ linea ∈ lineas, findStringSubmatch streamReg linea = none) :
    lineas.filterMap (LineaStream.deLinea configuration) = [] :=
  List.filterMap_eq_nil_iff.2 fun linea hl => deLinea_eq_none (h linea hl)

theorem filterMap_flujos {fs : List Flujo} (h : ∀ f ∈ fs, f.Valido) :
    (fs.flatMap Flujo.lineas).filterMap (LineaStream.deLinea configuration) =
      fs.filterMap (LineaStream.deFlujo configuration) := by
  induction fs with
  | nil => rfl
  | cons f fs ih =>
    rw [List.forall_mem_cons] at h
    have hlineas : f.lineas.filterMap (LineaStream.deLinea configuration) =
        [f].filterMap (LineaStream.deFlujo configuration) := by
      rw [Flujo.lineas, ← List.singleton_append, List.filterMap_append,
        filterMap_neutras fun linea hl => (h.1.detalle linea hl).2, List.append_nil]
      rfl
    rw [List.flatMap_cons, List.filterMap_append, hlineas, ih h.2, ← List.filterMap_append]
    rfl

/-- **The streams that are read are those printed.** -/
theorem Volcado.Distinto.filterMap_deLinea (hv : v.Distinto) :
    v.informe.lineas.filterMap (LineaStream.deLinea configuration) =
      v.impresos.filterMap (LineaStream.deFlujo configuration) := by
  have hprogramas : ∀ es ⊆ v.programas,
      (es.flatMap fun e => cabecera e.id e.nombre :: e.seccion.lineas).filterMap
        (LineaStream.deLinea configuration) =
      (es.flatMap Emision.flujos).filterMap (LineaStream.deFlujo configuration) := by
    intro es hes
    induction es with
    | nil => rfl
    | cons e es ih =>
      obtain ⟨he, hresto⟩ := List.cons_subset.1 hes
      rw [List.flatMap_cons, List.flatMap_cons, List.filterMap_append, List.filterMap_append,
        ih hresto, List.filterMap_cons, deLinea_eq_none (hv.cabeceras e he), Emision.seccion,
        List.filterMap_append, filterMap_neutras fun linea hl => (hv.metadatos e he linea hl).2,
        filterMap_flujos (hv.flujos e he), List.nil_append]
  rw [Volcado.lineas_eq, List.filterMap_append, List.filterMap_append, List.filterMap_append,
    List.filterMap_append, hprogramas _ (List.Subset.refl _), filterMap_flujos hv.sueltos,
    filterMap_neutras fun linea hl => (hv.preambulo linea hl).2,
    filterMap_neutras fun linea hl => (v.neutra_noProgram linea hl).2,
    filterMap_neutras fun linea hl => (hv.cola linea hl).2, List.nil_append, List.nil_append,
    List.append_nil, ← List.filterMap_append]
  rfl

theorem Volcado.Distinto.valido_of_mem (hv : v.Distinto) {f : Flujo} (hf : f ∈ v.impresos) :
    f.Valido := by
  obtain hf | hf := List.mem_append.1 hf
  · obtain ⟨e, he, hf⟩ := List.mem_flatMap.1 hf
    exact hv.flujos e he f hf
  · exact hv.sueltos f hf

theorem Volcado.Distinto.clave_inj (hv : v.Distinto) {f g : Flujo} (hf : f ∈ v.impresos)
    (hg : g ∈ v.impresos) (h : f.clave = g.clave) : f = g :=
  hv.mismos f hf g hg (toString_injective (congrArg Prod.fst h))

/-- A stream that is read has its own index and PID. -/
theorem deFlujo_eq_some {f : Flujo} (hf : f.Valido) {s : LineaStream}
    (h : LineaStream.deFlujo configuration f = some s) :
    s.elem.clave = f.clave ∧ f.tipoLeido configuration = some (s.stream 4) := by
  rw [LineaStream.deFlujo, LineaStream.deLinea] at h
  split at h
  · rename_i stream hc
    obtain rfl := Option.some.inj h
    exact ⟨clave_flujo hf (findStringSubmatch_of_clasificar hc),
      tipoLeido_eq (by rw [Flujo.leido, hc])⟩
  · cases h

theorem deFlujo_eq_none {f : Flujo} (h : LineaStream.deFlujo configuration f = none) :
    f.tipoLeido configuration = none := by
  rw [LineaStream.deFlujo, LineaStream.deLinea] at h
  split at h
  · cases h
  · rename_i hno
    rw [Flujo.tipoLeido, Flujo.leido]
    split
    · rename_i stream hc
      exact absurd hc (hno stream)
    · rfl

/-- The audio streams listed, as they are read. -/
def Flujo.audioListado (configuration : Config) (f : Flujo) : Bool :=
  decide (f.hexaId ∈ configuration.streams) && decide (f.tipoLeido configuration = some "Audio")

/-- The keys of the audio lines that count are those of their streams. -/
theorem claves_audioListado (hstreams : configuration.streams ≠ []) {fs : List Flujo}
    (h : ∀ f ∈ fs, f.Valido) :
    ((fs.filterMap (LineaStream.deFlujo configuration)).filter
        (LineaStream.audioListado configuration)).map (·.elem.clave) =
      (fs.filter (Flujo.audioListado configuration)).map Flujo.clave := by
  induction fs with
  | nil => rfl
  | cons f fs ih =>
    rw [List.forall_mem_cons] at h
    rw [List.filterMap_cons, List.filter_cons]
    cases hs : LineaStream.deFlujo configuration f with
    | none => simpa [Flujo.audioListado, deFlujo_eq_none hs] using ih h.2
    | some s =>
      obtain ⟨hclave, htipo⟩ := deFlujo_eq_some h.1 hs
      have hhexa : s.stream 2 = f.hexaId := congrArg Prod.snd hclave
      have hlista : s.audioListado configuration = f.audioListado configuration := by
        have hvacio : configuration.streams.isEmpty = false := by simpa using hstreams
        simp [LineaStream.audioListado, LineaStream.listado, Flujo.audioListado, hvacio, hhexa, htipo]
      simp only [List.filter_cons, hlista]
      cases f.audioListado configuration with
      | false => exact ih h.2
      | true => simp [ih h.2, hclave]

/-- The keys of the audio of a program. -/
theorem claves_audio {ss : List LineaStream} {audio : List Stream}
    (h : List.Forall₂ EntradaDe ss audio) :
    audio.map Stream.clave = ss.map (·.elem.clave) := by
  induction h with
  | nil => rfl
  | cons he _ ih =>
    rw [List.map_cons, List.map_cons, ih, Stream.clave, he.id, he.hexaId]
    rfl

variable (configuration) in
/-- The video of a program is the last of its video lines. -/
theorem foldl_trasVideo (ss : List LineaStream) :
    ss.foldl (fun v s => s.trasVideo configuration v) default =
      (ss.filter (LineaStream.esVideo configuration)).getLast?.elim default LineaStream.video := by
  induction ss using List.reverseRecOn with
  | nil => rfl
  | append_singleton ss s ih =>
    rw [List.foldl_concat, List.filter_append, LineaStream.trasVideo]
    cases hs : s.esVideo configuration with
    | true => simp [hs]
    | false => simp [hs, ih]

/-- A stream that was read has an index. -/
theorem id_ne_of_mem_leidas {s : LineaStream} (hs : s ∈ v.leidas configuration) : s.elem.id ≠ "" := by
  obtain ⟨linea, -, hlinea⟩ := List.mem_filterMap.1 hs
  rw [LineaStream.deLinea] at hlinea
  split at hlinea
  · rename_i stream hc
    obtain rfl := Option.some.inj hlinea
    exact (captado_streamElement (findStringSubmatch_of_clasificar hc)).id_ne_empty
  · cases hlinea

variable (configuration) in
/-- The lines are legible where those of the streams are. -/
theorem legibles_iff (lineas : List String) : (∀ linea ∈ lineas, LineaLegible configuration linea) ↔
    ∀ s ∈ lineas.filterMap (LineaStream.deLinea configuration), LineaLegible configuration s.linea := by
  constructor
  · intro h s hs
    obtain ⟨linea, hl, hlinea⟩ := List.mem_filterMap.1 hs
    rw [LineaStream.deLinea] at hlinea
    split at hlinea
    · obtain rfl := Option.some.inj hlinea
      exact h linea hl
    · cases hlinea
  · intro h linea hl stream hc
    have hlinea : LineaStream.deLinea configuration linea = some ⟨linea, stream⟩ := by
      rw [LineaStream.deLinea, hc]
    exact h _ (List.mem_filterMap.2 ⟨linea, hl, hlinea⟩) stream hc

end Flujos

section Informe

variable {configuration : Config} {v : Volcado}

theorem Volcado.Distinto.legibles_iff (hv : v.Distinto) :
    (∀ linea ∈ v.informe.lineas, LineaLegible configuration linea) ↔
      ∀ f ∈ v.impresos, LineaLegible configuration f.linea := by
  have himpresos := HlsXcoder.legibles_iff configuration (v.impresos.map Flujo.linea)
  rw [List.forall_mem_map, List.filterMap_map] at himpresos
  rw [himpresos, HlsXcoder.legibles_iff, hv.filterMap_deLinea]
  rfl

/-- **What the program holds**, by the lines that are read as streams. -/
theorem listados_programaDe (han : configuration.an = false) (hlang : configuration.audioLang = [])
    (nombre : String) :
    Listados configuration v (programaDe configuration "-1" nombre (v.leidas configuration)) ↔
      (((v.leidas configuration).filter (LineaStream.audioListado configuration)).map
        (·.elem.clave)).Nodup ∧
      (∀ clave, clave ∈ ((v.leidas configuration).filter
          (LineaStream.audioListado configuration)).map (·.elem.clave) ↔
        ∃ f ∈ v.impresos, f.tipo = "Audio" ∧ f.hexaId ∈ configuration.streams ∧ f.clave = clave) ∧
      (∀ s ∈ ((v.leidas configuration).filter (LineaStream.esVideo configuration)).getLast?,
        ∃ f ∈ v.impresos, f.hexaId ∈ configuration.streams ∧ f.clave = s.elem.clave) := by
  have hclaves : (programaDe configuration "-1" nombre (v.leidas configuration)).audio.map
      Stream.clave = ((v.leidas configuration).filter
        (LineaStream.audioListado configuration)).map (·.elem.clave) := by
    rw [audio_programaDe, claves_audio (forall₂_trasAudio han hlang _)]
  have hvideo := video_programaDe configuration "-1" nombre (v.leidas configuration)
  rw [foldl_trasVideo] at hvideo
  constructor
  · intro h
    refine ⟨hclaves ▸ h.unicos, hclaves ▸ h.audio, fun s hs => ?_⟩
    have hleida := List.mem_of_mem_filter (List.mem_of_getLast? hs)
    have hsuyo := h.video
    rw [hvideo, hs, Option.elim_some] at hsuyo
    refine hsuyo.resolve_left fun hvacio => id_ne_of_mem_leidas hleida ?_
    exact congrArg Stream.id hvacio
  · rintro ⟨hunicas, haudio, hsuyo⟩
    refine ⟨hclaves ▸ hunicas, hclaves ▸ haudio, ?_⟩
    rw [hvideo]
    cases hs : ((v.leidas configuration).filter (LineaStream.esVideo configuration)).getLast? with
    | none => exact .inl rfl
    | some s => exact .inr (hsuyo s hs)

/-- What is listed and read as audio is what is listed and audio, where
what is listed is read so. -/
theorem filter_audioListado (h : ∀ f ∈ v.impresos, f.hexaId ∈ configuration.streams →
      (f.tipoLeido configuration = some "Audio" ↔ f.tipo = "Audio")) :
    v.impresos.filter (Flujo.audioListado configuration) =
      v.impresos.filter fun f => f.tipo = "Audio" ∧ f.hexaId ∈ configuration.streams := by
  refine List.filter_congr fun f hf => ?_
  by_cases hlista : f.hexaId ∈ configuration.streams
  · simp [Flujo.audioListado, hlista, h f hf hlista]
  · simp [Flujo.audioListado, hlista]

/-- A line is read where the report can be told apart exactly where some
stream is. -/
theorem Volcado.Distinto.leidas_ne (hv : v.Distinto) : v.leidas configuration ≠ [] ↔
    ∃ f ∈ v.impresos, (f.tipoLeido configuration).isSome = true := by
  rw [Volcado.leidas, hv.filterMap_deLinea, ne_eq, List.filterMap_eq_nil_iff]
  simp only [not_forall, exists_prop]
  refine exists_congr fun f => and_congr_right fun hf => ?_
  cases hleido : LineaStream.deFlujo configuration f with
  | none => simp [deFlujo_eq_none hleido]
  | some s => simp [(deFlujo_eq_some (hv.valido_of_mem hf) hleido).2]

section Distinto

variable (hv : v.Distinto) (hstreams : configuration.streams ≠ [])
include hv hstreams

/-- The keys of what is read as audio listed are those of streams. -/
theorem Volcado.Distinto.claves_leidas :
    ((v.leidas configuration).filter (LineaStream.audioListado configuration)).map (·.elem.clave) =
      (v.impresos.filter (Flujo.audioListado configuration)).map Flujo.clave := by
  have hclaves := claves_audioListado hstreams fun f hf => hv.valido_of_mem hf
  rwa [← hv.filterMap_deLinea, ← Volcado.leidas] at hclaves

/-- What is listed is read as audio where it is, as the keys of the streams
of a report are distinct. -/
theorem Volcado.Distinto.tipoLeido_iff (h : Listable configuration v) {f : Flujo}
    (hf : f ∈ v.impresos) (hlista : f.hexaId ∈ configuration.streams) :
    f.tipoLeido configuration = some "Audio" ↔ f.tipo = "Audio" := by
  have haudio := h.audio f.clave
  rw [hv.claves_leidas hstreams] at haudio
  constructor
  · intro hleido
    have hmem : f ∈ v.impresos.filter (Flujo.audioListado configuration) := by
      simp [Flujo.audioListado, hf, hlista, hleido]
    obtain ⟨g, hg, htipo, -, hclave⟩ := haudio.1 (List.mem_map_of_mem hmem)
    rwa [hv.clave_inj hf hg hclave.symm]
  · intro htipo
    obtain ⟨g, hg, hclave⟩ := List.mem_map.1 (haudio.2 ⟨f, hf, htipo, hlista, rfl⟩)
    obtain ⟨hgv, hleido⟩ := List.mem_filter.1 hg
    simp only [Flujo.audioListado, Bool.and_eq_true, decide_eq_true_eq] at hleido
    rw [hv.clave_inj hf hgv hclave.symm]
    exact hleido.2

/-- What is read as a video listed is a stream listed. -/
theorem Volcado.Distinto.exists_video {s : LineaStream} (hs : s ∈ v.leidas configuration)
    (hvideo : s.esVideo configuration = true) :
    ∃ f ∈ v.impresos, f.hexaId ∈ configuration.streams ∧ f.clave = s.elem.clave := by
  rw [Volcado.leidas, hv.filterMap_deLinea] at hs
  obtain ⟨f, hf, hleido⟩ := List.mem_filterMap.1 hs
  obtain ⟨hclave, -⟩ := deFlujo_eq_some (hv.valido_of_mem hf) hleido
  have hhexa : s.stream 2 = f.hexaId := congrArg Prod.snd hclave
  have hvacio : configuration.streams.isEmpty = false := by simpa using hstreams
  simp only [LineaStream.esVideo, LineaStream.listado, hvacio, Bool.false_or, Bool.and_eq_true,
    List.contains_iff_mem] at hvideo
  exact ⟨f, hf, hhexa ▸ hvideo.1, hclave.symm⟩

/-- **Where a report can be told apart**, the streams listed are read from
it if no program is asked for, some stream is read at all, the videos
listed have a frame rate and a chroma, what is listed is read as audio
where it is, and no audio stream listed is printed twice. -/
theorem Volcado.Distinto.listable_iff :
    Listable configuration v ↔ configuration.idPrograma = "" ∧
      (∃ f ∈ v.impresos, (f.tipoLeido configuration).isSome = true) ∧
      (∀ f ∈ v.impresos, LineaLegible configuration f.linea) ∧
      (∀ f ∈ v.impresos, f.hexaId ∈ configuration.streams →
        (f.tipoLeido configuration = some "Audio" ↔ f.tipo = "Audio")) ∧
      (v.impresos.filter fun f => f.tipo = "Audio" ∧ f.hexaId ∈ configuration.streams).Nodup := by
  have hclaves := hv.claves_leidas hstreams
  constructor
  · intro h
    have htipos f (hf : f ∈ v.impresos) := hv.tipoLeido_iff hstreams h hf
    refine ⟨h.pedido, hv.leidas_ne.1 h.leida, hv.legibles_iff.1 h.legibles, htipos, ?_⟩
    rw [← filter_audioListado htipos]
    exact (hclaves ▸ h.unicas).of_map
  · rintro ⟨hpedido, hleido, hlegibles, htipos, hunicos⟩
    refine ⟨hpedido, hv.leidas_ne.2 hleido, hv.legibles_iff.2 hlegibles, ?_, fun clave => ?_,
      fun s hs => ?_⟩
    · rw [hclaves, filter_audioListado htipos]
      exact hunicos.map_on fun f hf g hg => hv.clave_inj (List.mem_of_mem_filter hf)
        (List.mem_of_mem_filter hg)
    · rw [hclaves, filter_audioListado htipos]
      simp [List.mem_map, and_assoc]
    · obtain ⟨hleida, hvideo⟩ := List.mem_filter.1 (List.mem_of_getLast? hs)
      exact hv.exists_video hstreams hleida hvideo

end Distinto

/-- **The streams listed are selected exactly where** the report is one
they are read from: where it can be told apart, no program is asked for,
some stream is read at all, the videos listed have a frame rate and a
chroma, what is listed is read as audio where it is, and no audio stream
listed is printed twice. -/
theorem listados_iff (configuration : Config) (v : Volcado) (hstreams : configuration.streams ≠ [])
    (han : configuration.an = false) (hlang : configuration.audioLang = []) :
    ((∃ P resumen, obtenerStreamsPost configuration v.informe.lineas default = some (P, resumen) ∧
        Listados configuration v P) ↔ Listable configuration v) ∧
      (v.Distinto → (Listable configuration v ↔ configuration.idPrograma = "" ∧
        (∃ f ∈ v.impresos, (f.tipoLeido configuration).isSome = true) ∧
        (∀ f ∈ v.impresos, LineaLegible configuration f.linea) ∧
        (∀ f ∈ v.impresos, f.hexaId ∈ configuration.streams →
          (f.tipoLeido configuration = some "Audio" ↔ f.tipo = "Audio")) ∧
        (v.impresos.filter fun f => f.tipo = "Audio" ∧ f.hexaId ∈ configuration.streams).Nodup)) := by
  refine ⟨?_, fun hv => hv.listable_iff hstreams⟩
  constructor
  · rintro ⟨P, resumen, hsel, hP⟩
    obtain ⟨hpedido, hne, nombre, rfl⟩ := seleccion_listados hstreams hsel
    have hacaba : (leerLineas configuration v.informe.lineas (default, .inicial)).isSome = true := by
      obtain ⟨p, hleer, -⟩ := Option.bind_eq_some_iff.1 hsel
      rw [hleer]
      rfl
    obtain ⟨hunicas, haudio, hvideo⟩ := (listados_programaDe han hlang nombre).1 hP
    exact ⟨hpedido, hne, (leerLineas_isSome_iff _ _ _).1 hacaba, hunicas, haudio, hvideo⟩
  · intro h
    have hacaba := (leerLineas_isSome_iff configuration v.informe.lineas default).2 h.legibles
    obtain ⟨P, resumen, hsel⟩ := exists_seleccion_listados hstreams hacaba h.pedido h.leida
    obtain ⟨-, -, nombre, rfl⟩ := seleccion_listados hstreams hsel
    exact ⟨_, resumen, hsel, (listados_programaDe han hlang nombre).2 ⟨h.unicas, h.audio, h.video⟩⟩

end Informe

theorem distinto_volcado : (volcado []).Distinto where
  toValido := valido_volcado (by simp)
  cabeceras := by
    simp only [volcado, List.forall_mem_singleton, ← Option.isNone_iff_eq_none]
    decide +kernel
  mismos := by decide +kernel

theorem listados_audio : ∃ P resumen,
    obtenerStreamsPost { Config.minima with streams := ["0x101"] } (volcado []).informe.lineas default =
        some (P, resumen) ∧
      Listados { Config.minima with streams := ["0x101"] } (volcado []) P := by
  have hacaba : (leerLineas { Config.minima with streams := ["0x101"] }
      (volcado []).informe.lineas (default, .inicial)).isSome = true := by
    decide +kernel
  obtain ⟨hsel, hdistinto⟩ := listados_iff { Config.minima with streams := ["0x101"] } (volcado [])
    (by decide) rfl rfl
  refine hsel.2 ((hdistinto distinto_volcado).2
    ⟨rfl, by decide +kernel, ?_, by decide +kernel, by decide +kernel⟩)
  exact distinto_volcado.legibles_iff.1 ((leerLineas_isSome_iff _ _ _).1 hacaba)

/-- The program that is asked for has no header left to be found by. -/
theorem not_listados : ¬ ∀ (configuration : Config) (v : Volcado), configuration.streams ≠ [] →
    configuration.an = false → configuration.audioLang = [] → configuration.subLang = [] →
    v.impresos ≠ [] → v.Distinto → ∃ P resumen,
      obtenerStreamsPost configuration v.informe.lineas default = some (P, resumen) ∧
        Listados configuration v P := by
  intro h
  obtain ⟨P, resumen, hsel, -⟩ := h { Config.minima with streams := ["0x101"], idPrograma := "1" }
    (volcado []) (by decide) rfl rfl rfl (by simp [volcado, Volcado.impresos]) distinto_volcado
  exact absurd (seleccion_listados (by decide) hsel).1 (by decide)

end HlsXcoder
