import HlsXcoder.Codificacion.Concurrencia
import HlsXcoder.Codificacion.Informe
import HlsXcoder.Codificacion.Paradas

/-!
# The program that is selected

The line loop writes the id of each header that counts to the variable
and looks the program up when the report has ended. The help of `-sid`
says that the first program is taken where none is asked for; but every
header counts there, so it is the last one that stays
(`seleccionCorrecta_iff`). A program that is asked for is found, and one
that is not listed stops the encoder, unless some other line reads as its
header.
-/

namespace HlsXcoder

section Bucle

variable {configuration : Config} {linea : String} {l l' : Lectura} {w : Option String}

/-! ## What is written, and what is there -/

/-- What a line writes to the variable. -/
theorem escribe_leerLinea (h : leerLinea configuration linea l = some (w, l')) :
    w = if configuration.idPrograma = "" then anuncia configuration l.programId linea
      else (idCabecera configuration linea).filter (configuration.idPrograma = ·) := by
  rw [anuncia, idCabecera]
  cases pasoLinea_of_leerLinea h with
  | @programa id hc =>
    by_cases hvacio : configuration.idPrograma = ""
    · simp [hc, hvacio]
    · by_cases hid : configuration.idPrograma = id <;> simp [hc, hvacio, hid, Option.filter]
  | servicioSuelto hc hid => simp [hc]
  | servicio hc hid hP => simp [hc]
  | streamSuelto hc hid hl' => simp [hc, hid]
  | stream hc hid hl' => simp [hc, hid]
  | otra hc => simp [hc]

/-- **The ids a report writes**: all it announces where no program was
asked for, else the headers of the one that was. -/
theorem escritos_eq {lineas : List String} {programa : Programa}
    (h : (leerLineas configuration lineas (programa, l)).isSome = true) :
    escritos configuration lineas l =
      if configuration.idPrograma = "" then anuncios configuration l.programId lineas
      else (lineas.filterMap (idCabecera configuration)).filter (configuration.idPrograma = ·) := by
  induction lineas generalizing programa l with
  | nil => simp [escritos, anuncios]
  | cons linea lineas ih =>
    rw [leerLineas, Option.bind_eq_bind] at h
    cases hlinea : leerLinea configuration linea l with
    | none => simp [hlinea] at h
    | some p =>
      obtain ⟨w, l'⟩ := p
      rw [hlinea, Option.bind_some] at h
      simp only [escritos, hlinea]
      rw [escribe_leerLinea hlinea, ih h]
      by_cases hvacio : configuration.idPrograma = ""
      · simp only [hvacio, if_true, anuncios]
        obtain ⟨id, ha, hprog, -⟩ | ⟨ha, hprog, -⟩ := leerLinea_cases hlinea
        · simp [ha, hprog]
        · simp [ha, hprog]
      · simp only [hvacio, if_false, List.filterMap_cons]
        cases hid : idCabecera configuration linea with
        | none => rfl
        | some id => by_cases heq : configuration.idPrograma = id <;> simp [heq, Option.filter]

theorem Lectura.isSome_programas_poner (l : Lectura) (programa : Programa) (id : String) :
    ((l.poner programa).programas id).isSome = true ↔
      (l.programas id).isSome = true ∨ l.programId = id := by
  by_cases hid : id = l.programId
  · simp [Lectura.poner, hid]
  · simp [Lectura.poner, hid, Ne.symm hid]

theorem isSome_programas_leerStream {stream : ℕ → String}
    (hs : findStringSubmatch streamReg linea = some stream)
    (h : leerStream configuration linea stream l = some l') (id : String) :
    (l'.programas id).isSome = true ↔ (l.programas id).isSome = true := by
  obtain rfl | ⟨P, P', hP, -, -, hprog⟩ := leerStream_cases hs h
  · rfl
  · rw [hprog, Lectura.isSome_programas_poner]
    refine or_iff_left_of_imp fun hid => ?_
    rw [← hid, hP]
    rfl

/-- **A program is there once its id is announced.** -/
theorem isSome_programas_leerLinea (h : leerLinea configuration linea l = some (w, l'))
    (id : String) : (l'.programas id).isSome = true ↔
      (l.programas id).isSome = true ∨ anuncia configuration l.programId linea = some id := by
  rw [anuncia]
  cases pasoLinea_of_leerLinea h with
  | programa hc => rw [hc, leerPrograma, Lectura.isSome_programas_poner, Option.some.injEq]
  | servicioSuelto hc hid => simp [hc]
  | servicio hc hid hP =>
    simp only [hc, reduceCtorEq, or_false]
    refine (Lectura.isSome_programas_poner l _ id).trans (or_iff_left_of_imp fun heq => ?_)
    rw [← heq, hP]
    rfl
  | streamSuelto hc hid hl' =>
    rw [isSome_programas_leerStream (findStringSubmatch_of_clasificar hc) hl']
    simp only [hc, hid, if_true, Option.some.injEq]
    exact Lectura.isSome_programas_poner _ _ _
  | stream hc hid hl' =>
    rw [isSome_programas_leerStream (findStringSubmatch_of_clasificar hc) hl']
    simp [hc, hid]
  | otra hc => simp [hc]

/-- **The programs of a reading are those announced.** -/
theorem isSome_programas_leerLineas {lineas : List String} {programa programa' : Programa}
    (h : leerLineas configuration lineas (programa, l) = some (programa', l')) (id : String) :
    (l'.programas id).isSome = true ↔
      (l.programas id).isSome = true ∨ id ∈ anuncios configuration l.programId lineas := by
  induction lineas generalizing programa l with
  | nil =>
    obtain ⟨-, rfl⟩ := Prod.mk.inj (Option.some.inj h)
    simp [anuncios]
  | cons linea lineas ih =>
    simp only [leerLineas, Option.bind_eq_bind, Option.bind_eq_some_iff] at h
    obtain ⟨⟨w, l₁⟩, hlinea, h⟩ := h
    rw [ih h, isSome_programas_leerLinea hlinea, anuncios]
    obtain ⟨id', ha, hprog, -⟩ | ⟨ha, hprog, -⟩ := leerLinea_cases hlinea
    · simp only [ha, hprog, Option.some.injEq, List.mem_cons, or_assoc]
      exact or_congr_right (or_congr_left eq_comm)
    · simp [ha, hprog]

/-- What a report announces after its first id: its headers. -/
theorem anuncios_of_ne {programId : String} (hid : programId ≠ "") (lineas : List String) :
    anuncios configuration programId lineas = lineas.filterMap (idCabecera configuration) := by
  induction lineas generalizing programId with
  | nil => rfl
  | cons linea lineas ih =>
    rw [anuncios, List.filterMap_cons]
    cases hc : clasificar configuration linea with
    | programa id =>
      have hcab : idCabecera configuration linea = some id := by rw [idCabecera, hc]
      simp only [anuncia, hc, hcab, ih (idCabecera_ne_empty hcab)]
    | servicio nombre => simp only [anuncia, idCabecera, hc, ih hid]
    | stream stream => simp only [anuncia, idCabecera, hc, hid, if_false, ih hid]
    | otra => simp only [anuncia, idCabecera, hc, ih hid]

variable (configuration) in
/-- **What a report announces**: its headers, after the id of the streams
before any, if there are such. -/
theorem anuncios_inicial (lineas : List String) :
    anuncios configuration "" lineas = lineas.filterMap (idCabecera configuration) ∨
      anuncios configuration "" lineas =
        "-1" :: lineas.filterMap (idCabecera configuration) := by
  induction lineas with
  | nil => exact .inl rfl
  | cons linea lineas ih =>
    rw [anuncios, List.filterMap_cons]
    cases hc : clasificar configuration linea with
    | programa id =>
      have hcab : idCabecera configuration linea = some id := by rw [idCabecera, hc]
      simp only [anuncia, hc, hcab, anuncios_of_ne (idCabecera_ne_empty hcab), true_or]
    | servicio nombre => simpa only [anuncia, idCabecera, hc] using ih
    | stream stream =>
      simp only [anuncia, idCabecera, hc, if_true,
        anuncios_of_ne (show "-1" ≠ "" by decide), or_true]
    | otra => simpa only [anuncia, idCabecera, hc] using ih

/-! ## The selection -/

/-- The id of the program that a report selects. -/
def idSeleccion (configuration : Config) (lineas : List String) : Option String :=
  (obtenerStreamsPost configuration lineas default).map fun p => p.1.id

/-- **The selection takes the last id written**, if it was announced. -/
theorem idSeleccion_eq {lineas : List String}
    (h : (leerLineas configuration lineas (default, .inicial)).isSome = true) :
    idSeleccion configuration lineas =
      if idFinal configuration lineas ∈ anuncios configuration "" lineas
      then some (idFinal configuration lineas) else none := by
  obtain ⟨⟨solo, l⟩, hleer⟩ := Option.isSome_iff_exists.1 h
  have hid : solo.id = idFinal configuration lineas := (leerLineas_spec hleer).1
  have hesta := isSome_programas_leerLineas hleer (idFinal configuration lineas)
  simp only [Lectura.inicial, Option.isSome_none, Bool.false_eq_true, false_or] at hesta
  simp only [idSeleccion, obtenerStreamsPost, hleer, Option.bind_eq_bind, Option.bind_some, hid]
  cases hP : l.programas (idFinal configuration lineas) with
  | none => rw [if_neg (by simp [← hesta, hP])]; rfl
  | some P =>
    have hcoh := (leerLineas_spec hleer).2.1 Lectura.coherente_inicial _ _ hP
    rw [if_pos (hesta.1 (by rw [hP]; rfl))]
    simp [hcoh.1]

end Bucle

/-- **The right program**: the report is read to its end, and what is
selected is the first program listed where none is asked for, the one
that is asked for where it is listed, and nothing where it is not. -/
structure SeleccionCorrecta (configuration : Config) (informe : Informe) : Prop where
  acaba : (leerLineas configuration informe.lineas (default, .inicial)).isSome = true
  primero : configuration.idPrograma = "" → ∀ s ∈ informe.programas.head?,
    idSeleccion configuration informe.lineas = some (toString s.id)
  pedido : ∀ s ∈ informe.programas, configuration.idPrograma = toString s.id →
    idSeleccion configuration informe.lineas = some (toString s.id)
  ausente : configuration.idPrograma ≠ "" →
    (∀ s ∈ informe.programas, configuration.idPrograma ≠ toString s.id) →
    idSeleccion configuration informe.lineas = none

section Informe

variable {configuration : Config} {lineas : List String} {informe : Informe}

theorem mem_anuncios_of_mem {id : String} (h : id ∈ lineas.filterMap (idCabecera configuration)) :
    id ∈ anuncios configuration "" lineas := by
  obtain heq | heq := anuncios_inicial configuration lineas
  · rw [heq]
    exact h
  · rw [heq]
    exact List.mem_cons_of_mem _ h

/-- **Without a program asked for, the last header found is selected.** -/
theorem idSeleccion_ultimo
    (hacaba : (leerLineas configuration lineas (default, .inicial)).isSome = true)
    (hvacio : configuration.idPrograma = "") {id : String}
    (hid : (lineas.filterMap (idCabecera configuration)).getLast? = some id) :
    idSeleccion configuration lineas = some id := by
  have hfinal : idFinal configuration lineas = id := by
    rw [idFinal, escritos_eq hacaba, if_pos hvacio]
    obtain ⟨antes, hleidas⟩ := List.getLast?_eq_some_iff.1 hid
    obtain heq | heq := anuncios_inicial configuration lineas
    · simp [Lectura.inicial, heq, hleidas]
    · simp only [Lectura.inicial, heq, hleidas, List.getLastD_eq_getLast?, ← List.cons_append,
        List.getLast?_concat, Option.getD_some]
  rw [idSeleccion_eq hacaba, hfinal, if_pos (mem_anuncios_of_mem (List.mem_of_getLast? hid))]

/-- **A program that is asked for is selected if its header is found.** -/
theorem idSeleccion_pedido
    (hacaba : (leerLineas configuration lineas (default, .inicial)).isSome = true)
    (hpedido : configuration.idPrograma ≠ "") :
    idSeleccion configuration lineas =
      if configuration.idPrograma ∈ lineas.filterMap (idCabecera configuration)
      then some configuration.idPrograma else none := by
  have hescritos : escritos configuration lineas .inicial =
      (lineas.filterMap (idCabecera configuration)).filter (configuration.idPrograma = ·) := by
    rw [escritos_eq hacaba, if_neg hpedido]
  rw [idSeleccion_eq hacaba]
  by_cases hlista : configuration.idPrograma ∈ lineas.filterMap (idCabecera configuration)
  · have hfinal : idFinal configuration lineas = configuration.idPrograma := by
      have hmem : configuration.idPrograma ∈
          (lineas.filterMap (idCabecera configuration)).filter (configuration.idPrograma = ·) :=
        List.mem_filter.2 ⟨hlista, decide_eq_true rfl⟩
      rw [idFinal, hescritos, List.getLastD_eq_getLast?,
        List.getLast?_eq_some_getLast (List.ne_nil_of_mem hmem), Option.getD_some]
      have hultimo := List.mem_filter.1 (List.getLast_mem (List.ne_nil_of_mem hmem))
      exact (of_decide_eq_true hultimo.2).symm
    rw [hfinal, if_pos hlista, if_pos (mem_anuncios_of_mem hlista)]
  · -- nothing is written, and no header has the empty id
    have hfinal : idFinal configuration lineas = "" := by
      rw [idFinal, hescritos, List.filter_eq_nil_iff.2]
      · rfl
      · intro id hid heq
        rw [decide_eq_true_eq] at heq
        exact hlista (heq ▸ hid)
    have hvacio : "" ∉ lineas.filterMap (idCabecera configuration) := by
      intro hmem
      obtain ⟨linea, -, hlinea⟩ := List.mem_filterMap.1 hmem
      exact idCabecera_ne_empty hlinea rfl
    rw [hfinal, if_neg hlista, if_neg]
    obtain heq | heq := anuncios_inicial configuration lineas <;> rw [heq]
    · exact hvacio
    · simpa using hvacio

/-- The header of each program listed is found. -/
theorem mem_leidas_of_mem (hstreams : configuration.streams = []) {s : Seccion}
    (hs : s ∈ informe.programas) :
    toString s.id ∈ informe.lineas.filterMap (idCabecera configuration) := by
  refine List.mem_filterMap.2 ⟨cabecera s.id s.nombre, ?_, idCabecera_cabecera hstreams s.id s.nombre⟩
  rw [Informe.lineas, List.mem_append, List.mem_append]
  exact .inl (.inr (List.mem_flatMap.2 ⟨s, hs, List.mem_cons_self⟩))

variable (configuration informe) in
/-- **A report to select from**: every line is legible; where no program is
asked for, the last header found has the id of the first program listed;
and no header is found with the id asked for but that of a program
listed. -/
structure Seleccionable : Prop where
  legibles : ∀ linea ∈ informe.lineas, LineaLegible configuration linea
  ultima : configuration.idPrograma = "" → ∀ s ∈ informe.programas.head?,
    (informe.lineas.filterMap (idCabecera configuration)).getLast? = some (toString s.id)
  listada : configuration.idPrograma ∈ informe.lineas.filterMap (idCabecera configuration) →
    configuration.idPrograma ∈ informe.programas.map (toString ·.id)

/-- Where no line but the headers reads as one, a single program is listed
or one is asked for. -/
theorem Informe.Valido.seleccionable_iff (h : informe.Valido) (hprogramas : informe.programas ≠ [])
    (hstreams : configuration.streams = []) : Seleccionable configuration informe ↔
      (∀ linea ∈ informe.lineas, LineaLegible configuration linea) ∧
        (configuration.idPrograma = "" → informe.programas.length = 1) := by
  obtain ⟨s, resto, hlista⟩ := List.exists_cons_of_ne_nil hprogramas
  have hleidas := h.filterMap_idCabecera hstreams
  constructor
  · intro hs
    refine ⟨hs.legibles, fun hvacio => ?_⟩
    have hultima := hs.ultima hvacio s (by simp [hlista])
    rw [hleidas, List.getLast?_map, List.getLast?_eq_some_getLast hprogramas, Option.map_some,
      Option.some.injEq] at hultima
    have hid : (informe.programas.getLast hprogramas).id = s.id := toString_injective hultima
    have hids := h.ids
    by_contra hlargo
    have hresto : resto ≠ [] := by
      rintro rfl
      exact hlargo (by simp [hlista])
    -- the last program is below the first, so their ids differ
    simp only [hlista, List.getLast_cons hresto] at hid
    rw [hlista, List.map_cons, List.nodup_cons] at hids
    exact hids.1 (hid ▸ List.mem_map_of_mem (List.getLast_mem hresto))
  · rintro ⟨hlegibles, huno⟩
    refine ⟨hlegibles, fun hvacio t ht => ?_, fun hmem => hleidas ▸ hmem⟩
    obtain ⟨u, hu⟩ := List.length_eq_one_iff.1 (huno hvacio)
    obtain rfl : u = t := by simpa [hu] using ht
    rw [hleidas, hu]
    rfl

/-- **The right program is selected exactly where** the report is one to
select from: where it has no headers but its own, every line is legible and
either a program is asked for or only one is listed. -/
theorem seleccionCorrecta_iff (configuration : Config) (informe : Informe)
    (hprogramas : informe.programas ≠ []) (hstreams : configuration.streams = []) :
    (SeleccionCorrecta configuration informe ↔ Seleccionable configuration informe) ∧
      (informe.Valido → (Seleccionable configuration informe ↔
        (∀ linea ∈ informe.lineas, LineaLegible configuration linea) ∧
          (configuration.idPrograma = "" → informe.programas.length = 1))) := by
  refine ⟨?_, fun h => h.seleccionable_iff hprogramas hstreams⟩
  have hacaba := leerLineas_isSome_iff configuration informe.lineas default
  constructor
  · intro h
    refine ⟨hacaba.1 h.acaba, fun hvacio t ht => ?_, fun hmem => ?_⟩
    · have hs := mem_leidas_of_mem hstreams (List.mem_of_head? ht)
      have hultima := List.getLast?_eq_some_getLast (List.ne_nil_of_mem hs)
      have hprimero := h.primero hvacio t ht
      rw [idSeleccion_ultimo h.acaba hvacio hultima] at hprimero
      rw [hultima, hprimero]
    · by_contra hausente
      have hpedido : configuration.idPrograma ≠ "" := by
        intro hvacio
        obtain ⟨linea, -, hlinea⟩ := List.mem_filterMap.1 hmem
        exact idCabecera_ne_empty hlinea hvacio
      have hnada := h.ausente hpedido fun t ht hid =>
        hausente (hid ▸ List.mem_map_of_mem ht)
      rw [idSeleccion_pedido h.acaba hpedido, if_pos hmem] at hnada
      cases hnada
  · intro h
    have hleer := hacaba.2 h.legibles
    refine ⟨hleer, fun hvacio t ht => ?_, fun t ht hpedido => ?_, fun hpedido hausente => ?_⟩
    · exact idSeleccion_ultimo hleer hvacio (h.ultima hvacio t ht)
    · rw [idSeleccion_pedido hleer (hpedido ▸ toString_ne_empty t.id), hpedido,
        if_pos (mem_leidas_of_mem hstreams ht)]
    · rw [idSeleccion_pedido hleer hpedido, if_neg]
      intro hmem
      obtain ⟨t, ht, hid⟩ := List.mem_map.1 (h.listada hmem)
      exact hausente t ht hid.symm

end Informe

/-- Two programs, an audio stream each. -/
def informeDosProgramas : Informe where
  preambulo := ["Input #0, mpegts, from 'udp://239.0.0.1:1234':",
    "  Duration: N/A, start: 1.400000, bitrate: N/A"]
  programas := [⟨1, "", ["    Metadata:", "      service_name    : La Uno",
      "    Stream #0:0[0x100]: Audio: mp2, 48000 Hz, stereo"]⟩,
    ⟨2, "", ["    Metadata:", "      service_name    : La Dos",
      "    Stream #0:1[0x200]: Audio: mp2, 48000 Hz, stereo"]⟩]
  resto := [""]

theorem valido_informeDosProgramas : informeDosProgramas.Valido :=
  Informe.valido_of (by decide) (by decide +kernel)

theorem seleccionCorrecta_pedido :
    SeleccionCorrecta { Config.minima with idPrograma := "2" } informeDosProgramas := by
  obtain ⟨hsel, hvalido⟩ := seleccionCorrecta_iff { Config.minima with idPrograma := "2" }
    informeDosProgramas (by decide) rfl
  refine hsel.2 ((hvalido valido_informeDosProgramas).2 ⟨?_, by decide⟩)
  exact (leerLineas_isSome_iff _ _ default).1 (by decide +kernel)

/-- Where none is asked for, the second of two programs is selected. -/
theorem not_seleccionCorrecta : ¬ ∀ (configuration : Config) (informe : Informe),
    informe.Valido → informe.programas ≠ [] → configuration.streams = [] →
      SeleccionCorrecta configuration informe := by
  intro h
  have hs := h .minima informeDosProgramas valido_informeDosProgramas (by decide) rfl
  have hultimo : idSeleccion .minima informeDosProgramas.lineas = some "2" := by
    refine idSeleccion_ultimo hs.acaba rfl ?_
    rw [valido_informeDosProgramas.filterMap_idCabecera rfl]
    rfl
  have hprimero := hs.primero rfl _ rfl
  rw [hultimo] at hprimero
  exact absurd hprimero (by decide)

end HlsXcoder
