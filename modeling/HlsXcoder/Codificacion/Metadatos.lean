import HlsXcoder.Codificacion.Informe
import HlsXcoder.Codificacion.Paradas

/-!
# The metadata of the report

The broadcaster writes the values of the metadata, the name of a service
among them, and the probe prints them on lines of their own. The patterns
of the line loop are not anchored, so a value is tried like any other
text.

What a line does to the structure, that is to the programs, their streams
and the id that is selected, is its `Suceso`: the header of a program, a
stream that is taken, one that is left out, or nothing. A stream that is
left out is nothing either once a program has been started. Two reports of
the same events are read alike (`leerLineas_congr`), so values that bring
no event of their own change nothing but names (`estructura_of_sucesos`).
A value that reads as the header of a program or as a stream does.
-/

namespace HlsXcoder

/-! ## Metadata lines -/

/-- A line of metadata, with its value behind its key. -/
def dumpMetadata (sangria clave valor : String) : String :=
  sangria ++ "  " ++ clave ++ String.ofList (List.replicate (16 - clave.utf8ByteSize) ' ') ++ ": " ++
    valor

/-- Two lines that are the same but for the value of a metadata line. -/
def MismaLinea (x y : String) : Prop :=
  x = y ∨ ∃ sangria ∈ ["  ", "    "], ∃ clave v w : String,
    '\n' ∉ v.toList ∧ '\n' ∉ w.toList ∧
      x = dumpMetadata sangria clave v ∧ y = dumpMetadata sangria clave w

/-! ## Events -/

/-- What a line is to the structure: the header of a program, a stream
that is taken, one that is left out by its PID, its kind or its language,
or nothing. -/
inductive Suceso where
  | programa (programId : String)
  | video (elem : Stream) (fps chroma : Option String)
  | audio (elem : Stream)
  | subtitulo (elem : Stream)
  | descartado
  | nada
  deriving DecidableEq, Repr

section Sucesos

variable (configuration : Config)

/-- The event of a stream line. -/
def sucesoDeStream (linea : String) (stream : ℕ → String) : Suceso :=
  let elem := streamElement stream
  if !configuration.streams.isEmpty && !configuration.streams.contains (stream 2) then .descartado
  else match stream 4 with
    | "Video" => .video elem ((findStringSubmatch fpsReg linea).map (· 1))
      ((findStringSubmatch chromaReg linea).map (· 1))
    | "Audio" =>
      if configuration.an || !idiomaPedido configuration.audioLang (audioKey elem) then .descartado
      else .audio elem
    | "Subtitle" =>
      if configuration.sn || !idiomaPedido configuration.subLang (languageOr elem "default")
      then .descartado else .subtitulo elem
    | _ => .descartado

/-- The event of a line. -/
def suceso (linea : String) : Suceso :=
  match clasificar configuration linea with
  | .programa programId => .programa programId
  | .stream stream => sucesoDeStream configuration linea stream
  | .servicio _ | .otra => .nada

/-- A stream that is left out is nothing once a program has been
started. -/
def Suceso.visto (abierto : Bool) : Suceso → Suceso
  | descartado => if abierto then nada else descartado
  | s => s

/-- Whether a program has been started after it. -/
def Suceso.abre (abierto : Bool) : Suceso → Bool
  | nada => abierto
  | _ => true

/-- **The events of a report.** -/
def sucesos : Bool → List String → List Suceso
  | _, [] => []
  | abierto, linea :: lineas => (suceso configuration linea).visto abierto ::
    sucesos ((suceso configuration linea).abre abierto) lineas

end Sucesos

theorem Suceso.visto_inj {abierto : Bool} {s t : Suceso} (h : s.visto abierto = t.visto abierto) :
    s = t ∨ abierto = true ∧ (s = .nada ∨ s = .descartado) ∧ (t = .nada ∨ t = .descartado) := by
  cases abierto <;> cases s <;> cases t <;> simp_all [visto]

theorem Suceso.abre_congr {abierto : Bool} {s t : Suceso} (h : s.visto abierto = t.visto abierto) :
    s.abre abierto = t.abre abierto := by
  obtain rfl | ⟨rfl, hs, ht⟩ := visto_inj h
  · rfl
  · obtain rfl | rfl := hs <;> obtain rfl | rfl := ht <;> rfl

/-! ## Names left out -/

def Programa.sinNombre (programa : Programa) : Programa := { programa with nombre := "" }

/-- A reading without the names. -/
def Lectura.sinNombre (l : Lectura) : Lectura :=
  { l with programas := Option.map Programa.sinNombre ∘ l.programas, name := "" }

/-- **The structure**: the id that is selected, and the programs without
their names. -/
def estructura (p : Programa × Lectura) : String × (String → Option Programa) :=
  (p.1.id, p.2.sinNombre.programas)

@[simp] theorem Lectura.programId_sinNombre (l : Lectura) : l.sinNombre.programId = l.programId :=
  rfl

@[simp] theorem Lectura.programas_sinNombre (l : Lectura) (id : String) :
    l.sinNombre.programas id = (l.programas id).map Programa.sinNombre := rfl

theorem Lectura.sinNombre_poner (l : Lectura) (programa : Programa) :
    (l.poner programa).sinNombre = l.sinNombre.poner programa.sinNombre := by
  simp only [Lectura.sinNombre, Lectura.poner, Function.comp_update, Option.map_some]

section Lineas

variable {configuration : Config} {linea x y : String} {l l' : Lectura}

/-- A stream is read without looking at a name. -/
theorem leerStream_sinNombre (stream : ℕ → String) :
    leerStream configuration linea stream l.sinNombre =
      (leerStream configuration linea stream l).map Lectura.sinNombre := by
  simp only [leerStream, Lectura.programas_sinNombre, Lectura.programId_sinNombre,
    Option.bind_eq_bind]
  cases l.programas l.programId with
  | none => rfl
  | some P =>
    simp only [Option.map_some, Option.bind_some]
    split
    · rfl
    · split
      · simp only [leerVideo, Option.bind_eq_bind]
        cases findStringSubmatch fpsReg linea with
        | none => rfl
        | some fps =>
          cases findStringSubmatch chromaReg linea with
          | none => rfl
          | some chroma =>
            simp only [Option.bind_some, Option.map_some, Lectura.sinNombre, Lectura.poner,
              Function.comp_update, Programa.sinNombre]
      · rw [leerAudio, leerAudio]
        split
        · rfl
        · simp only [Lectura.sinNombre, Lectura.poner, Function.comp_update, Option.map_some,
            Programa.sinNombre]
      · rw [leerSubtitulo, leerSubtitulo, Option.map_some, apply_ite Lectura.sinNombre]
        refine congrArg some (if_congr Iff.rfl rfl ?_)
        simp only [Lectura.sinNombre, Lectura.poner, Function.comp_update, Option.map_some,
          Programa.sinNombre]
      · rfl

/-- A stream line is read by its event. -/
theorem leerStream_eq {stream : ℕ → String} {P : Programa} (hP : l.programas l.programId = some P) :
    leerStream configuration linea stream l = match sucesoDeStream configuration linea stream with
      | .video .. => leerVideo linea stream P l
      | .audio _ => some (leerAudio configuration stream P l)
      | .subtitulo _ => some (leerSubtitulo configuration stream P l)
      | _ => some l := by
  rw [leerStream, hP, sucesoDeStream, Option.bind_eq_bind, Option.bind_some]
  split
  · rfl
  · generalize stream 4 = tipo
    split
    · rfl
    · by_cases hno : (configuration.an ||
        !idiomaPedido configuration.audioLang (audioKey (streamElement stream))) = true
      · simp only [if_pos hno, leerAudio]
      · simp only [if_neg hno]
    · by_cases hno : (configuration.sn ||
        !idiomaPedido configuration.subLang (languageOr (streamElement stream) "default")) = true
      · simp only [leerSubtitulo, hno, Bool.true_or, if_true]
      · simp only [if_neg hno]
    · simp only

/-- What an event says of the line. -/
theorem sucesoDeStream_cases (configuration : Config) (linea : String) (stream : ℕ → String) :
    match sucesoDeStream configuration linea stream with
      | .video elem fps chroma => stream 4 = "Video" ∧ streamElement stream = elem ∧
        (findStringSubmatch fpsReg linea).map (· 1) = fps ∧
        (findStringSubmatch chromaReg linea).map (· 1) = chroma
      | .audio elem => stream 4 = "Audio" ∧ streamElement stream = elem
      | .subtitulo elem => stream 4 = "Subtitle" ∧ streamElement stream = elem
      | .descartado => True
      | _ => False := by
  generalize hs : sucesoDeStream configuration linea stream = s
  rw [sucesoDeStream] at hs
  split at hs
  · subst hs
    trivial
  · split at hs
    · rename_i h
      subst hs
      exact ⟨h, rfl, rfl, rfl⟩
    · rename_i h
      split at hs <;> subst hs
      · trivial
      · exact ⟨h, rfl⟩
    · rename_i h
      split at hs <;> subst hs
      · trivial
      · exact ⟨h, rfl⟩
    · subst hs
      trivial

theorem streamElement_inj {s t : ℕ → String} (h : streamElement s = streamElement t) :
    s 1 = t 1 ∧ s 3 = t 3 ∧ s 5 = t 5 := by
  simp only [streamElement, Stream.mk.injEq] at h
  exact ⟨h.1, h.2.2.2.1, h.2.2.1⟩

theorem leerVideo_congr {s t : ℕ → String} (h : streamElement s = streamElement t) (h4 : s 4 = t 4)
    (hfps : (findStringSubmatch fpsReg x).map (· 1) = (findStringSubmatch fpsReg y).map (· 1))
    (hchroma : (findStringSubmatch chromaReg x).map (· 1) =
      (findStringSubmatch chromaReg y).map (· 1)) (P : Programa) :
    leerVideo x s P l = leerVideo y t P l := by
  obtain ⟨h1, h3, h5⟩ := streamElement_inj h
  simp only [leerVideo, Option.bind_eq_bind, h, h1, h3, h4, h5]
  cases hx : findStringSubmatch fpsReg x <;> cases hy : findStringSubmatch fpsReg y <;>
    cases hx' : findStringSubmatch chromaReg x <;> cases hy' : findStringSubmatch chromaReg y <;>
    simp_all

/-- **Streams of one event are read alike.** -/
theorem leerStream_congr {s t : ℕ → String}
    (h : sucesoDeStream configuration x s = sucesoDeStream configuration y t) :
    leerStream configuration x s l = leerStream configuration y t l := by
  cases hP : l.programas l.programId with
  | none => simp [leerStream, hP]
  | some P =>
    have hx := sucesoDeStream_cases configuration x s
    have hy := sucesoDeStream_cases configuration y t
    rw [leerStream_eq hP, leerStream_eq hP]
    rw [h] at hx ⊢
    cases hsuceso : sucesoDeStream configuration y t with
    | video elem fps chroma =>
      rw [hsuceso] at hx hy
      obtain ⟨hs, helem, hfps, hchroma⟩ := hx
      obtain ⟨ht, helem', hfps', hchroma'⟩ := hy
      exact leerVideo_congr (helem.trans helem'.symm) (hs.trans ht.symm) (hfps.trans hfps'.symm)
        (hchroma.trans hchroma'.symm) P
    | audio elem =>
      rw [hsuceso] at hx hy
      have helem := hx.2.trans hy.2.symm
      obtain ⟨h1, -, h5⟩ := streamElement_inj helem
      simp only [leerAudio, helem, h1, hx.1.trans hy.1.symm, h5]
    | subtitulo elem =>
      rw [hsuceso] at hx hy
      have helem := hx.2.trans hy.2.symm
      obtain ⟨h1, h3, h5⟩ := streamElement_inj helem
      simp only [leerSubtitulo, helem, h1, h3, hx.1.trans hy.1.symm, h5]
    | _ => rfl

/-- A stream that is left out changes nothing. -/
theorem leerStream_descartado {stream : ℕ → String}
    (h : sucesoDeStream configuration linea stream = .descartado)
    (hl : (l.programas l.programId).isSome = true) :
    leerStream configuration linea stream l = some l := by
  obtain ⟨P, hP⟩ := Option.isSome_iff_exists.1 hl
  rw [leerStream_eq hP, h]

theorem leerPrograma_sinNombre (programId : String) :
    (leerPrograma l programId).sinNombre = leerPrograma l.sinNombre programId :=
  Lectura.sinNombre_poner _ _

theorem sinPrograma_congr (h : l.sinNombre = l'.sinNombre) :
    (sinPrograma l).sinNombre = (sinPrograma l').sinNombre := by
  have hl : ∀ m : Lectura, (sinPrograma m).sinNombre =
      ({ m.sinNombre with programId := "-1", sid := "-1" } : Lectura).poner
        { (default : Programa) with id := "-1" } := fun m => Lectura.sinNombre_poner _ _
  rw [hl, hl, h]

/-- The event of a line is that of its class. -/
theorem suceso_cases (configuration : Config) (linea : String) :
    (∃ programId, clasificar configuration linea = .programa programId ∧
        suceso configuration linea = .programa programId) ∨
      (∃ stream, clasificar configuration linea = .stream stream ∧
        suceso configuration linea = sucesoDeStream configuration linea stream ∧
        suceso configuration linea ≠ .nada ∧
        ∀ programId, suceso configuration linea ≠ .programa programId) ∨
      suceso configuration linea = .nada ∧
        ((∃ nombre, clasificar configuration linea = .servicio nombre) ∨
          clasificar configuration linea = .otra) := by
  rw [suceso]
  cases hc : clasificar configuration linea with
  | programa programId => exact .inl ⟨programId, rfl, rfl⟩
  | stream stream =>
    refine .inr (.inl ⟨stream, rfl, rfl, ?_⟩)
    have h := sucesoDeStream_cases configuration linea stream
    cases hs : sucesoDeStream configuration linea stream with
    | programa | nada =>
      rw [hs] at h
      exact h.elim
    | _ => simp [hs]
  | servicio nombre => exact .inr (.inr ⟨rfl, .inl ⟨nombre, rfl⟩⟩)
  | otra => exact .inr (.inr ⟨rfl, .inr rfl⟩)

/-- A line without an event leaves the reading as it is, names apart. -/
theorem leerLinea_nada (hx : suceso configuration x = .nada) (hs : l.Situada) :
    (leerLinea configuration x l).map (Prod.map id Lectura.sinNombre) =
      some (none, l.sinNombre) := by
  obtain ⟨programId, -, hprograma⟩ | ⟨stream, -, -, hno, -⟩ | ⟨-, ⟨nombre, hc⟩ | hc⟩ :=
    suceso_cases configuration x
  · cases hprograma.symm.trans hx
  · exact absurd hx hno
  · rw [leerLinea, hc]
    by_cases hid : l.programId = ""
    · simp [hid]
    · obtain ⟨P, hP⟩ := Option.isSome_iff_exists.1 (hs.resolve_left hid)
      simp only [hid, if_false, hP, Option.bind_eq_bind, Option.bind_some, Option.map_some,
        Prod.map_apply, id, Lectura.sinNombre, Lectura.poner, Function.comp_update,
        Programa.sinNombre, Option.some.injEq, Prod.mk.injEq, true_and]
      -- the program put back is the one that was there, names apart
      rw [Function.update_eq_self_iff.2]
      simp [hP, Programa.sinNombre]
  · rw [leerLinea, hc]
    rfl

/-- Nor does a stream that is left out, once a program has been started. -/
theorem leerLinea_descartado (hx : suceso configuration x = .descartado) (hs : l.Situada)
    (hid : l.programId ≠ "") : leerLinea configuration x l = some (none, l) := by
  obtain ⟨programId, -, hprograma⟩ | ⟨stream, hc, hstream, -⟩ | ⟨hnada, -⟩ :=
    suceso_cases configuration x
  · cases hprograma.symm.trans hx
  · rw [leerLinea, hc]
    simp only [if_neg hid, leerStream_descartado (hstream.symm.trans hx) (hs.resolve_left hid),
      Option.bind_eq_bind, Option.bind_some]
  · cases hnada.symm.trans hx

/-- **Two lines of one event are read alike**, names apart. -/
theorem leerLinea_congr (hxy : suceso configuration x = suceso configuration y)
    (hl : l.sinNombre = l'.sinNombre) (hs : l.Situada) (hs' : l'.Situada) :
    (leerLinea configuration x l).map (Prod.map id Lectura.sinNombre) =
      (leerLinea configuration y l').map (Prod.map id Lectura.sinNombre) := by
  have hid : l.programId = l'.programId := by
    rw [← l.programId_sinNombre, hl, l'.programId_sinNombre]
  obtain ⟨programId, hcx, hx⟩ | ⟨s, hcx, hx, hno, hno'⟩ | ⟨hx, -⟩ := suceso_cases configuration x
  · obtain ⟨programId', hcy, hy⟩ | ⟨-, -, -, -, hno⟩ | ⟨hy, -⟩ := suceso_cases configuration y
    · rw [hx, hy] at hxy
      obtain rfl := Suceso.programa.inj hxy
      rw [leerLinea, leerLinea, hcx, hcy]
      simp only [Option.map_some, Prod.map_apply, id, leerPrograma_sinNombre, hl]
    · exact absurd (hxy.symm.trans hx) (hno _)
    · cases hx.symm.trans (hxy.trans hy)
  · obtain ⟨programId', -, hy⟩ | ⟨t, hcy, hy, -, -⟩ | ⟨hy, -⟩ := suceso_cases configuration y
    · exact absurd (hxy.trans hy) (hno' _)
    · rw [hx, hy] at hxy
      have hleer : ∀ {m m' : Lectura}, m.sinNombre = m'.sinNombre →
          (leerStream configuration x s m).map Lectura.sinNombre =
            (leerStream configuration y t m').map Lectura.sinNombre := by
        intro m m' hm
        rw [← leerStream_sinNombre, ← leerStream_sinNombre, hm, leerStream_congr hxy]
      have hpar : ∀ (w : Option String) (m : Option Lectura),
          (m.bind fun l₁ => some (w, l₁)).map (Prod.map id Lectura.sinNombre) =
            (m.map Lectura.sinNombre).map (Prod.mk w) := by
        intro w m
        cases m <;> rfl
      rw [leerLinea, leerLinea, hcx, hcy, hid]
      by_cases hvacio : l'.programId = ""
      · simp only [hvacio, if_true, Option.bind_eq_bind, hpar, hleer (sinPrograma_congr hl)]
      · simp only [hvacio, if_false, Option.bind_eq_bind, hpar, hleer hl]
    · exact absurd (hxy.trans hy) hno
  · rw [leerLinea_nada hx hs, leerLinea_nada (hxy ▸ hx) hs', hl]

/-- **So are two that are alike where they stand.** -/
theorem leerLinea_visto {abierto : Bool}
    (hxy : (suceso configuration x).visto abierto = (suceso configuration y).visto abierto)
    (habierto : abierto = true → l.programId ≠ "") (hl : l.sinNombre = l'.sinNombre)
    (hs : l.Situada) (hs' : l'.Situada) :
    (leerLinea configuration x l).map (Prod.map id Lectura.sinNombre) =
      (leerLinea configuration y l').map (Prod.map id Lectura.sinNombre) := by
  obtain hxy | ⟨hab, hx, hy⟩ := Suceso.visto_inj hxy
  · exact leerLinea_congr hxy hl hs hs'
  · have hid : l.programId = l'.programId := by
      rw [← l.programId_sinNombre, hl, l'.programId_sinNombre]
    have hocioso {x : String} {l : Lectura} (hs : l.Situada) (hne : l.programId ≠ "")
        (hx : suceso configuration x = .nada ∨ suceso configuration x = .descartado) :
        (leerLinea configuration x l).map (Prod.map id Lectura.sinNombre) =
          some (none, l.sinNombre) := by
      obtain hx | hx := hx
      · exact leerLinea_nada hx hs
      · rw [leerLinea_descartado hx hs hne]
        rfl
    rw [hocioso hs (habierto hab) hx, hocioso hs' (hid ▸ habierto hab) hy, hl]

/-- A program has been started where the events say so. -/
theorem programId_ne_of_abre {abierto : Bool} {w : Option String}
    (h : leerLinea configuration x l = some (w, l')) (habierto : abierto = true → l.programId ≠ "")
    (habre : (suceso configuration x).abre abierto = true) : l'.programId ≠ "" := by
  have hstream {stream : ℕ → String} {m : Lectura} (hc : clasificar configuration x = .stream stream)
      (hm : m.programId ≠ "") (hl' : leerStream configuration x stream m = some l') :
      l'.programId ≠ "" := by
    obtain rfl | ⟨-, -, -, -, hid, -⟩ := leerStream_cases (findStringSubmatch_of_clasificar hc) hl'
    · exact hm
    · rwa [hid]
  cases pasoLinea_of_leerLinea h with
  | @programa programId hc =>
    have hid : idCabecera configuration x = some programId := by rw [idCabecera, hc]
    exact idCabecera_ne_empty hid
  | servicioSuelto hc hid =>
    rw [suceso, hc] at habre
    exact habierto habre
  | servicio hc hid hP => exact hid
  | streamSuelto hc hid hl' => exact hstream hc (by simp [sinPrograma]) hl'
  | stream hc hid hl' => exact hstream hc hid hl'
  | otra hc =>
    rw [suceso, hc] at habre
    exact habierto habre

/-- **Reports of the same events leave the same structure.** -/
theorem leerLineas_congr {a b : List String} (hlong : a.length = b.length) {abierto : Bool}
    (hs : sucesos configuration abierto a = sucesos configuration abierto b) {programa : Programa}
    (habierto : abierto = true → l.programId ≠ "") (hl : l.sinNombre = l'.sinNombre)
    (hsit : l.Situada) (hsit' : l'.Situada) :
    (leerLineas configuration a (programa, l)).map estructura =
      (leerLineas configuration b (programa, l')).map estructura := by
  induction a generalizing b programa l l' abierto with
  | nil =>
    rw [List.length_eq_zero_iff.1 hlong.symm]
    simp only [leerLineas, Option.map_some, estructura, hl]
  | cons x a ih =>
    obtain ⟨y, b, rfl⟩ := List.exists_cons_of_length_eq_add_one hlong.symm
    rw [sucesos, sucesos, List.cons.injEq] at hs
    obtain ⟨hvisto, hs⟩ := hs
    rw [← Suceso.abre_congr hvisto] at hs
    have hlinea := leerLinea_visto hvisto habierto hl hsit hsit'
    simp only [leerLineas, Option.bind_eq_bind]
    cases hx : leerLinea configuration x l with
    | none =>
      rw [hx] at hlinea
      rw [Option.map_eq_none_iff.1 hlinea.symm]
      rfl
    | some p =>
      obtain ⟨w, m⟩ := p
      rw [hx, Option.map_some, Eq.comm, Option.map_eq_some_iff] at hlinea
      obtain ⟨⟨w', m'⟩, hy, hwm⟩ := hlinea
      obtain ⟨rfl, hm⟩ := Prod.mk.inj hwm
      rw [hy]
      exact ih (Nat.succ.inj hlong) hs (programId_ne_of_abre hx habierto) hm.symm
        (hsit.leerLinea hx) (hsit'.leerLinea hy)

end Lineas

/-- **Values without an event change nothing but names**: two reports that
differ in the values of metadata lines leave the same structure where the
values bring the same events. -/
theorem estructura_of_sucesos {configuration : Config} {a b : List String}
    (hab : List.Forall₂ MismaLinea a b)
    (hs : sucesos configuration false a = sucesos configuration false b) (previo : Programa) :
    (leerLineas configuration a (previo, .inicial)).map estructura =
      (leerLineas configuration b (previo, .inicial)).map estructura :=
  leerLineas_congr hab.length_eq hs nofun rfl (.inl rfl) (.inl rfl)

/-- The report of one program with an audio stream, by the name of its
service. -/
def informeServicio (nombre : String) : List String :=
  ["Input #0, mpegts, from 'udp://239.0.0.1:1234':",
    "  Program 1 ",
    "    Metadata:",
    dumpMetadata "    " "service_name" nombre,
    "    Stream #0:0[0x100]: Audio: mp2, 48000 Hz, stereo"]

theorem mismaLinea_servicio {v w : String} (hv : '\n' ∉ v.toList) (hw : '\n' ∉ w.toList) :
    List.Forall₂ MismaLinea (informeServicio v) (informeServicio w) := by
  have hrfl : ∀ x, MismaLinea x x := fun x => .inl rfl
  exact .cons (hrfl _) <| .cons (hrfl _) <| .cons (hrfl _) <|
    .cons (.inr ⟨_, by simp, _, _, _, hv, hw, rfl, rfl⟩) <| .cons (hrfl _) .nil

theorem estructura_servicio :
    (leerLineas .minima (informeServicio "La Uno") (default, .inicial)).map estructura =
      (leerLineas .minima (informeServicio "La Dos") (default, .inicial)).map estructura :=
  estructura_of_sucesos (mismaLinea_servicio (by decide) (by decide)) (by decide +kernel) default

/-- A service by the name of `Program 2` is read as the header of a
program, which takes the streams that follow. -/
theorem estructura_servicio_ne : ¬ ∀ (configuration : Config) (a b : List String),
    List.Forall₂ MismaLinea a b → ∀ previo : Programa,
      (leerLineas configuration a (previo, .inicial)).map estructura =
        (leerLineas configuration b (previo, .inicial)).map estructura := by
  intro h
  have heq := congrArg (Option.map Prod.fst) (h .minima _ _
    (mismaLinea_servicio (v := "La Uno") (w := "Program 2") (by decide) (by decide)) default)
  revert heq
  simp only [Option.map_map]
  decide +kernel

end HlsXcoder
