import HlsXcoder.Codificacion.Listados

/-!
# The summary that is posted

While it reads the report, `obtenerStreamsPost` also puts a summary
together: an id, the name of a service, and an entry for each stream it
keeps. The id and the name are the last ones seen, the entries those of
all the programs, so the summary is that of the selected program only
where nothing before the last header is left in it
(`resumen_iff`).
-/

namespace HlsXcoder

open Regexp

/-! ## What a summary says -/

/-- The text of a summary. -/
def textoResumen (sid name : String) (video audio subtitulo : List String) : String :=
  "SID:" ++ sid ++ ",ServiceName:" ++ name ++ ",VideoStreams:" ++ " / ".intercalate video ++
    ",AudioStreams:" ++ " / ".intercalate audio ++
    ",SubtitleStreams:" ++ " / ".intercalate subtitulo

/-- The entries of the subtitles that some lines add to those of a
program. -/
def entradasSubtitulos (configuration : Config) : List Stream → List LineaStream → List String
  | _, [] => []
  | subtitulos, s :: ss => s.entradasSubtitulo configuration subtitulos ++
      entradasSubtitulos configuration (s.trasSubtitulo configuration subtitulos) ss

/-- **The summary of one program**, from its own lines. -/
def resumenDe (configuration : Config) (programa : Programa) (ss : List LineaStream) : String :=
  textoResumen programa.id programa.nombre (ss.flatMap (·.entradasVideo configuration))
    (ss.flatMap (·.entradasAudio configuration)) (entradasSubtitulos configuration [] ss)

/-- The name a line gives to the summary: that of the service, once a
program is being read, or that of the streams without one. -/
def nombra (configuration : Config) (programId linea : String) : Option String :=
  match clasificar configuration linea with
  | .servicio nombre => if programId = "" then none else some nombre
  | .stream _ => if programId = "" then some "No name" else none
  | .programa _ | .otra => none

/-- The names a report gives to the summary. -/
def nombrados (configuration : Config) : String → List String → List String
  | _, [] => []
  | programId, linea :: lineas => (nombra configuration programId linea).toList ++
      nombrados configuration ((anuncia configuration programId linea).getD programId) lineas

/-- A stream line that is kept, where its program has no subtitle yet. -/
def LineaStream.seGuarda (configuration : Config) (s : LineaStream) : Bool :=
  s.esVideo configuration || s.esAudio configuration || s.esSubtitulo configuration

/-- **Nothing before the last header is left in the summary**: that header
is the one of the program the selection takes, a line after it names the
service unless no line before gives a name, and no stream before it is
kept. -/
structure SinRestos (configuration : Config) (previo : Programa) (lineas antes tras : List String)
    (id : String) : Prop where
  pedido : configuration.idPrograma = "" ∨
    (if configuration.idPrograma ∈ lineas.filterMap (idCabecera configuration)
      then configuration.idPrograma else previo.id) = id
  nombre : (∃ linea ∈ tras, ∃ nombre, clasificar configuration linea = .servicio nombre) ∨
    nombrados configuration "" antes = []
  streams : ∀ s ∈ antes.filterMap (LineaStream.deLinea configuration),
    s.seGuarda configuration = false

section Linea

variable {configuration : Config} {linea : String} {l l' : Lectura} {w : Option String}

/-! ## What a line adds -/

theorem programId_leerLinea (h : leerLinea configuration linea l = some (w, l')) :
    l'.programId = (anuncia configuration l.programId linea).getD l.programId := by
  obtain ⟨id, ha, hprog, -⟩ | ⟨ha, hprog, -⟩ := leerLinea_cases h <;> simp [ha, hprog]

/-- The id and the name of the summary after a line. -/
theorem sid_name_leerLinea (h : leerLinea configuration linea l = some (w, l')) :
    (l.sid = l.programId → l'.sid = l'.programId) ∧
      l'.name = (nombra configuration l.programId linea).getD l.name := by
  rw [nombra]
  cases pasoLinea_of_leerLinea h with
  | programa hc => simp [hc, leerPrograma, Lectura.poner]
  | servicioSuelto hc hid => simp [hc, hid]
  | servicio hc hid hP => simp [hc, hid, Lectura.poner]
  | streamSuelto hc hid hl' =>
    obtain ⟨P, -, rfl⟩ := leerStream_anadir hl'
    simp [hc, hid, Lectura.anadir, sinPrograma, Lectura.poner]
  | stream hc hid hl' =>
    obtain ⟨P, -, rfl⟩ := leerStream_anadir hl'
    simp [hc, hid, Lectura.anadir]
  | otra hc => simp [hc]

/-- The entries of video and audio after a line. -/
theorem entradas_leerLinea (h : leerLinea configuration linea l = some (w, l')) :
    l'.vid2 = l.vid2 ++ (LineaStream.deLinea configuration linea).toList.flatMap
        (·.entradasVideo configuration) ∧
      l'.aud2 = l.aud2 ++ (LineaStream.deLinea configuration linea).toList.flatMap
        (·.entradasAudio configuration) := by
  rw [LineaStream.deLinea]
  cases pasoLinea_of_leerLinea h with
  | programa hc => simp [hc, leerPrograma, Lectura.poner]
  | servicioSuelto hc hid => simp [hc]
  | servicio hc hid hP => simp [hc, Lectura.poner]
  | streamSuelto hc hid hl' =>
    obtain ⟨P, -, rfl⟩ := leerStream_anadir hl'
    simp [hc, Lectura.anadir, sinPrograma, Lectura.poner]
  | stream hc hid hl' =>
    obtain ⟨P, -, rfl⟩ := leerStream_anadir hl'
    simp [hc, Lectura.anadir]
  | otra hc => simp [hc]

end Linea

section Lineas

variable {configuration : Config} {lineas : List String} {l l' : Lectura}
  {programa programa' : Programa}

/-- **The id, the name and the entries after a run of lines.** -/
theorem sid_name_leerLineas
    (h : leerLineas configuration lineas (programa, l) = some (programa', l')) :
    (l.sid = l.programId → l'.sid = l'.programId) ∧
      l'.name = (nombrados configuration l.programId lineas).getLastD l.name := by
  induction lineas generalizing programa l with
  | nil =>
    obtain ⟨-, rfl⟩ := Prod.mk.inj (Option.some.inj h)
    exact ⟨id, rfl⟩
  | cons linea lineas ih =>
    simp only [leerLineas, Option.bind_eq_bind, Option.bind_eq_some_iff] at h
    obtain ⟨⟨w, l₁⟩, hlinea, h⟩ := h
    obtain ⟨hsid, hname⟩ := sid_name_leerLinea hlinea
    obtain ⟨hsid', hname'⟩ := ih h
    refine ⟨hsid' ∘ hsid, ?_⟩
    rw [hname', hname, programId_leerLinea hlinea, nombrados]
    cases nombra configuration l.programId linea with
    | none => rfl
    | some nombre => exact List.getLastD_cons.symm

theorem entradas_leerLineas
    (h : leerLineas configuration lineas (programa, l) = some (programa', l')) :
    l'.vid2 = l.vid2 ++ (lineas.filterMap (LineaStream.deLinea configuration)).flatMap
        (·.entradasVideo configuration) ∧
      l'.aud2 = l.aud2 ++ (lineas.filterMap (LineaStream.deLinea configuration)).flatMap
        (·.entradasAudio configuration) := by
  induction lineas generalizing programa l with
  | nil =>
    obtain ⟨-, rfl⟩ := Prod.mk.inj (Option.some.inj h)
    simp
  | cons linea lineas ih =>
    simp only [leerLineas, Option.bind_eq_bind, Option.bind_eq_some_iff] at h
    obtain ⟨⟨w, l₁⟩, hlinea, h⟩ := h
    obtain ⟨hvideo, haudio⟩ := entradas_leerLinea hlinea
    obtain ⟨hvideo', haudio'⟩ := ih h
    rw [hvideo', hvideo, haudio', haudio, List.filterMap_cons]
    cases LineaStream.deLinea configuration linea with
    | none => simp
    | some s => simp

/-- As long as no subtitle is in the summary, no program has one, and the
first line of one puts it there. -/
theorem sinSubtitulos_leerLinea {linea : String} {w : Option String}
    (h : leerLinea configuration linea l = some (w, l'))
    (hl : l.sub2 = [] → l.Cumple fun _ P => P.subtitulos = []) :
    (l'.sub2 = [] → l'.Cumple fun _ P => P.subtitulos = []) ∧
      (l'.sub2 = [] ↔ l.sub2 = [] ∧ ∀ s ∈ LineaStream.deLinea configuration linea,
        s.esSubtitulo configuration = false) := by
  -- a stream line in the program it is added to
  have hstream {l : Lectura} {stream : ℕ → String} (hl : l.sub2 = [] → l.Cumple fun _ P =>
      P.subtitulos = []) (hl' : leerStream configuration linea stream l = some l') :
      (l'.sub2 = [] → l'.Cumple fun _ P => P.subtitulos = []) ∧
        (l'.sub2 = [] ↔ l.sub2 = [] ∧
          (⟨linea, stream⟩ : LineaStream).esSubtitulo configuration = false) := by
    obtain ⟨P, hP, rfl⟩ := leerStream_anadir hl'
    have hiff : (l.anadir configuration ⟨linea, stream⟩ P).sub2 = [] ↔ l.sub2 = [] ∧
        (⟨linea, stream⟩ : LineaStream).esSubtitulo configuration = false := by
      simp only [Lectura.anadir, List.append_eq_nil_iff]
      refine and_congr_right fun hsub => ?_
      simp [LineaStream.entradasSubtitulo, hl hsub _ _ hP]
    refine ⟨fun hsub => ?_, hiff⟩
    obtain ⟨hvacio, hno⟩ := hiff.1 hsub
    have htras : ((⟨linea, stream⟩ : LineaStream).tras configuration P).subtitulos = [] := by
      simpa [LineaStream.tras, LineaStream.trasSubtitulo, hno] using hl hvacio _ _ hP
    exact (hl hvacio).poner htras rfl
  rw [LineaStream.deLinea]
  cases pasoLinea_of_leerLinea h with
  | @programa id hc =>
    refine ⟨fun hsub => ?_, by simp [hc, leerPrograma, Lectura.poner]⟩
    have hl' : ({ l with programId := id, sid := id } : Lectura).Cumple fun _ P =>
        P.subtitulos = [] := hl hsub
    exact hl'.poner rfl rfl
  | servicioSuelto hc hid => exact ⟨hl, by simp [hc]⟩
  | @servicio nombre P hc hid hP =>
    refine ⟨fun hsub => ?_, by simp [hc, Lectura.poner]⟩
    have hvacio : P.subtitulos = [] := hl hsub _ _ hP
    have hnombrado : ({ P with nombre := nombre } : Programa).subtitulos = [] := hvacio
    exact (hl hsub).poner hnombrado rfl
  | streamSuelto hc hid hl' =>
    have hsin : (sinPrograma l).sub2 = [] → (sinPrograma l).Cumple fun _ P =>
        P.subtitulos = [] := by
      intro hsub
      have hl' : ({ l with programId := "-1", sid := "-1", name := "No name" } : Lectura).Cumple
          fun _ P => P.subtitulos = [] := hl hsub
      exact hl'.poner rfl rfl
    have hsub : (sinPrograma l).sub2 = l.sub2 := rfl
    simpa [hc, hsub] using hstream hsin hl'
  | stream hc hid hl' => simpa [hc] using hstream hl hl'
  | otra hc => exact ⟨hl, by simp [hc]⟩

/-- **No subtitle is in the summary exactly where no line of one was
read.** -/
theorem sub2_leerLineas (h : leerLineas configuration lineas (programa, l) = some (programa', l'))
    (hl : l.sub2 = [] → l.Cumple fun _ P => P.subtitulos = []) :
    l'.sub2 = [] ↔ l.sub2 = [] ∧ ∀ s ∈ lineas.filterMap (LineaStream.deLinea configuration),
      s.esSubtitulo configuration = false := by
  induction lineas generalizing programa l with
  | nil =>
    obtain ⟨-, rfl⟩ := Prod.mk.inj (Option.some.inj h)
    simp
  | cons linea lineas ih =>
    simp only [leerLineas, Option.bind_eq_bind, Option.bind_eq_some_iff] at h
    obtain ⟨⟨w, l₁⟩, hlinea, h⟩ := h
    obtain ⟨hl₁, hiff⟩ := sinSubtitulos_leerLinea hlinea hl
    rw [ih h hl₁, hiff, List.filterMap_cons]
    cases LineaStream.deLinea configuration linea with
    | none => simp
    | some s => simp [and_assoc]

end Lineas

/-! ## The lines after a header -/

section Tramo

variable {configuration : Config} {l l' : Lectura}

theorem entradasSubtitulos_append (configuration : Config) (subtitulos : List Stream)
    (a b : List LineaStream) : entradasSubtitulos configuration subtitulos (a ++ b) =
      entradasSubtitulos configuration subtitulos a ++ entradasSubtitulos configuration
        (a.foldl (fun t s => s.trasSubtitulo configuration t) subtitulos) b := by
  induction a generalizing subtitulos with
  | nil => rfl
  | cons s a ih =>
    rw [List.cons_append, entradasSubtitulos, entradasSubtitulos, ih, List.append_assoc,
      List.foldl_cons]

/-- A line without header, in the program being read. -/
theorem tramo_leerLinea {linea : String} {w : Option String} {P : Programa}
    (h : leerLinea configuration linea l = some (w, l')) (hid : l.programId ≠ "")
    (hP : l.programas l.programId = some P) (hno : idCabecera configuration linea = none) :
    ∃ P', l'.programId = l.programId ∧ l'.programas l.programId = some P' ∧
      P'.nombre = (nombra configuration l.programId linea).getD P.nombre ∧
      P'.subtitulos = (LineaStream.deLinea configuration linea).toList.foldl
        (fun t s => s.trasSubtitulo configuration t) P.subtitulos ∧
      l'.sub2 = l.sub2 ++ entradasSubtitulos configuration P.subtitulos
        (LineaStream.deLinea configuration linea).toList := by
  rw [nombra, LineaStream.deLinea]
  cases pasoLinea_of_leerLinea h with
  | programa hc => simp [idCabecera, hc] at hno
  | servicioSuelto hc hvacio => exact absurd hvacio hid
  | @servicio nombre P' hc _ hP' =>
    obtain rfl : P = P' := by simpa [hP] using hP'
    exact ⟨{ P with nombre := nombre }, by
      simp [hc, hid, Lectura.poner, entradasSubtitulos]⟩
  | streamSuelto hc hvacio hl' => exact absurd hvacio hid
  | @stream stream l₁ hc _ hl' =>
    obtain ⟨P', hP', rfl⟩ := leerStream_anadir hl'
    obtain rfl : P = P' := by simpa [hP] using hP'
    exact ⟨(⟨linea, stream⟩ : LineaStream).tras configuration P, by
      simp [hc, hid, Lectura.anadir, LineaStream.tras, entradasSubtitulos]⟩
  | otra hc => exact ⟨P, by simp [hc, hP, entradasSubtitulos]⟩

/-- **A run without headers** goes on with the program being read: it
names it, and adds its streams. -/
theorem tramo_leerLineas {lineas : List String} {programa programa' P : Programa}
    (h : leerLineas configuration lineas (programa, l) = some (programa', l'))
    (hid : l.programId ≠ "") (hP : l.programas l.programId = some P)
    (hno : ∀ linea ∈ lineas, idCabecera configuration linea = none) :
    ∃ P', l'.programId = l.programId ∧ l'.programas l.programId = some P' ∧
      P'.nombre = (nombrados configuration l.programId lineas).getLastD P.nombre ∧
      l'.sub2 = l.sub2 ++ entradasSubtitulos configuration P.subtitulos
        (lineas.filterMap (LineaStream.deLinea configuration)) := by
  induction lineas generalizing programa l P with
  | nil =>
    obtain ⟨-, rfl⟩ := Prod.mk.inj (Option.some.inj h)
    exact ⟨P, rfl, hP, rfl, by simp [entradasSubtitulos]⟩
  | cons linea lineas ih =>
    simp only [leerLineas, Option.bind_eq_bind, Option.bind_eq_some_iff] at h
    obtain ⟨⟨w, l₁⟩, hlinea, h⟩ := h
    obtain ⟨hno, hnos⟩ := List.forall_mem_cons.1 hno
    obtain ⟨P₁, hprog, hP₁, hnombre, hsubs, hsub2⟩ := tramo_leerLinea hlinea hid hP hno
    obtain ⟨P', hprog', hP', hnombre', hsub2'⟩ := ih h (hprog ▸ hid) (hprog ▸ hP₁) hnos
    refine ⟨P', hprog'.trans hprog, hprog ▸ hP', ?_, ?_⟩
    · rw [hnombre', hnombre, nombrados, ← programId_leerLinea hlinea]
      cases nombra configuration l.programId linea with
      | none => rfl
      | some nombre => exact List.getLastD_cons.symm
    · rw [hsub2', hsub2, hsubs, List.append_assoc, ← entradasSubtitulos_append,
        List.filterMap_cons]
      cases LineaStream.deLinea configuration linea <;> rfl

variable (configuration) in
/-- The lines of a run without headers are those of the program being
read. -/
theorem suyas_tramo {lineas : List String} (r : Recorrido) (hid : r.programId ≠ "")
    (hno : ∀ linea ∈ lineas, idCabecera configuration linea = none) :
    (lineas.foldl (Recorrido.paso configuration) r).suyas r.programId =
      r.suyas r.programId ++ lineas.filterMap (LineaStream.deLinea configuration) := by
  induction lineas generalizing r with
  | nil => simp
  | cons linea lineas ih =>
    obtain ⟨hno, hnos⟩ := List.forall_mem_cons.1 hno
    rw [List.foldl_cons, List.filterMap_cons, Recorrido.paso, LineaStream.deLinea]
    cases hc : clasificar configuration linea with
    | programa id => simp [idCabecera, hc] at hno
    | servicio nombre => exact ih r hid hnos
    | stream stream =>
      simp only [hid, if_false]
      have hresto := ih ⟨r.programId, Function.update r.suyas r.programId
        (r.suyas r.programId ++ [⟨linea, stream⟩])⟩ hid hnos
      simpa using hresto
    | otra => exact ih r hid hnos

/-- After a header, the names are those of the services. -/
theorem nombrados_ne_nil {lineas : List String} {programId : String} (hid : programId ≠ "")
    (hno : ∀ linea ∈ lineas, idCabecera configuration linea = none) :
    nombrados configuration programId lineas ≠ [] ↔
      ∃ linea ∈ lineas, ∃ nombre, clasificar configuration linea = .servicio nombre := by
  induction lineas with
  | nil => simp [nombrados]
  | cons linea lineas ih =>
    obtain ⟨hno, hnos⟩ := List.forall_mem_cons.1 hno
    rw [nombrados, nombra, anuncia]
    cases hc : clasificar configuration linea with
    | programa id => simp [idCabecera, hc] at hno
    | servicio nombre => simp [hc, hid]
    | stream stream => simp [hc, hid, ← ih hnos]
    | otra => simp [hc, ← ih hnos]

/-! ## A report without headers -/

/-- **The streams of no header**, where there is none: nothing is read, or
they are one program. -/
theorem sueltos_leerLineas {lineas : List String} {programa programa' : Programa}
    (h : leerLineas configuration lineas (programa, l) = some (programa', l'))
    (hid : l.programId = "") (hno : ∀ linea ∈ lineas, idCabecera configuration linea = none) :
    l' = l ∨ ∃ P', l'.programId = "-1" ∧ l'.programas "-1" = some P' ∧
      P'.nombre = (nombrados configuration "" lineas).getLastD "" ∧
      l'.sub2 = l.sub2 ++ entradasSubtitulos configuration []
        (lineas.filterMap (LineaStream.deLinea configuration)) := by
  induction lineas generalizing programa with
  | nil =>
    obtain ⟨-, rfl⟩ := Prod.mk.inj (Option.some.inj h)
    exact .inl rfl
  | cons linea lineas ih =>
    simp only [leerLineas, Option.bind_eq_bind, Option.bind_eq_some_iff] at h
    obtain ⟨⟨w, l₁⟩, hlinea, h⟩ := h
    obtain ⟨hno', hnos⟩ := List.forall_mem_cons.1 hno
    cases pasoLinea_of_leerLinea hlinea with
    | programa hc => simp [idCabecera, hc] at hno'
    | servicioSuelto hc _ =>
      simpa [nombrados, nombra, anuncia, LineaStream.deLinea, hc] using ih h hnos
    | servicio hc hne => exact absurd hid hne
    | @streamSuelto stream l₁ hc _ hl₁ =>
      -- from here on it is the program without a number that is read
      have hsin : leerLineas configuration (linea :: lineas) (programa.escribirId
          (if configuration.idPrograma = "" then some "-1" else none), sinPrograma l) =
          some (programa', l') := by
        have hne : (sinPrograma l).programId ≠ "" := by simp [sinPrograma]
        rw [leerLineas, leerLinea, hc]
        simp only [hne, if_false, hl₁]
        exact h
      have hnueva : (sinPrograma l).programas (sinPrograma l).programId =
          some { (default : Programa) with id := "-1", nombre := "No name" } := by
        simp [sinPrograma, Lectura.poner]
      obtain ⟨P', hprog, hP', hnombre, hsub2⟩ :=
        tramo_leerLineas hsin (by simp [sinPrograma]) hnueva hno
      refine .inr ⟨P', hprog, hP', hnombre.trans ?_, hsub2⟩
      simp [nombrados, nombra, anuncia, hc, sinPrograma, Lectura.poner, List.getLast?_cons]
    | stream hc hne => exact absurd hid hne
    | otra hc => simpa [nombrados, nombra, anuncia, LineaStream.deLinea, hc] using ih h hnos

/-- The lines of a report without headers are those of that program. -/
theorem suyas_sueltas {lineas : List String} (r : Recorrido) (hid : r.programId = "")
    (hr : r.suyas "-1" = []) (hno : ∀ linea ∈ lineas, idCabecera configuration linea = none) :
    (lineas.foldl (Recorrido.paso configuration) r).suyas "-1" =
      lineas.filterMap (LineaStream.deLinea configuration) := by
  induction lineas with
  | nil => exact hr
  | cons linea lineas ih =>
    obtain ⟨hno', hnos⟩ := List.forall_mem_cons.1 hno
    rw [List.foldl_cons, List.filterMap_cons, Recorrido.paso, LineaStream.deLinea]
    cases hc : clasificar configuration linea with
    | programa id => simp [idCabecera, hc] at hno'
    | servicio nombre => exact ih hnos
    | stream stream =>
      simp only [hid, if_true]
      have hresto := suyas_tramo configuration
        ⟨"-1", Function.update r.suyas "-1" [⟨linea, stream⟩]⟩ (by simp) hnos
      simpa using hresto
    | otra => exact ih hnos

end Tramo

/-! ## What is left in the summary -/

section Restos

variable {configuration : Config}

/-- The name of a service has a character. -/
theorem ne_empty_of_servicio {linea nombre : String}
    (h : clasificar configuration linea = .servicio nombre) : nombre ≠ "" := by
  obtain ⟨m, hm, rfl⟩ : ∃ m, findStringSubmatch serviceName linea = some m ∧ m 1 = nombre := by
    simp only [clasificar] at h
    split at h
    · cases h
    · split at h
      · rename_i m hm
        split at hm
        · cases hm
        · exact ⟨m, hm, ClaseLinea.servicio.inj h⟩
      · split at h <;> cases h
  obtain ⟨m, hfind, rfl⟩ := Option.map_eq_some_iff.1 hm
  have hgroups : serviceName.groups =
      [(1, .rep (.char ⟨true, [('\n', '\n')]⟩) 1 none true)] := by decide +kernel
  have hlang : (Re.rep (.char ⟨true, [('\n', '\n')]⟩) 1 none true).Lang (m.group 1) :=
    Re.lang_group_of_find (by decide +kernel) (fun t ht => by simpa [hgroups] using ht) hfind
  rw [Re.lang_rep_char] at hlang
  intro hvacio
  have hnil : m.group 1 = [] := by simpa using hvacio
  simp [hnil] at hlang

/-- No name is empty. -/
theorem ne_empty_of_mem_nombrados {programId : String} {lineas : List String} {nombre : String}
    (h : nombre ∈ nombrados configuration programId lineas) : nombre ≠ "" := by
  induction lineas generalizing programId with
  | nil => cases h
  | cons linea lineas ih =>
    rw [nombrados, List.mem_append, Option.mem_toList] at h
    obtain h | h := h
    · rw [nombra] at h
      split at h
      · rename_i nombre' hc
        split at h
        · cases h
        · obtain rfl := Option.some.inj h
          exact ne_empty_of_servicio hc
      · split at h
        · rw [← Option.some.inj h]
          decide
        · cases h
      · cases h
      · cases h
    · exact ih h

/-- No entry is empty. -/
theorem ne_empty_of_mem_entradas {s : LineaStream} {subtitulos : List Stream} {e : String}
    (h : e ∈ s.entradasVideo configuration ∨ e ∈ s.entradasAudio configuration ∨
      e ∈ s.entradasSubtitulo configuration subtitulos) : e ≠ "" := by
  rw [LineaStream.entradasVideo, LineaStream.entradasAudio, LineaStream.entradasSubtitulo] at h
  obtain h | h | h := h
  all_goals
    split at h
    · rw [List.mem_singleton.1 h]
      simp
    · cases h

/-- No entry of a summary is empty. -/
def Lectura.SinVacias (l : Lectura) : Prop := ∀ e ∈ l.vid2 ++ l.aud2 ++ l.sub2, e ≠ ""

theorem Lectura.SinVacias.anadir {l : Lectura} (h : l.SinVacias) (s : LineaStream) (P : Programa) :
    (l.anadir configuration s P).SinVacias := by
  intro e he
  simp only [Lectura.anadir, List.mem_append] at he
  have hentrada (h : e ∈ s.entradasVideo configuration ∨ e ∈ s.entradasAudio configuration ∨
      e ∈ s.entradasSubtitulo configuration P.subtitulos) : e ≠ "" := ne_empty_of_mem_entradas h
  simp only [Lectura.SinVacias, List.mem_append] at h
  obtain (((he | he) | (he | he)) | (he | he)) := he
  · exact h e (.inl (.inl he))
  · exact hentrada (.inl he)
  · exact h e (.inl (.inr he))
  · exact hentrada (.inr (.inl he))
  · exact h e (.inr he)
  · exact hentrada (.inr (.inr he))

theorem sinVacias_leerLineas {lineas : List String} {programa programa' : Programa}
    {l l' : Lectura} (h : leerLineas configuration lineas (programa, l) = some (programa', l'))
    (hl : l.SinVacias) : l'.SinVacias := by
  induction lineas generalizing programa l with
  | nil =>
    obtain ⟨-, rfl⟩ := Prod.mk.inj (Option.some.inj h)
    exact hl
  | cons linea lineas ih =>
    simp only [leerLineas, Option.bind_eq_bind, Option.bind_eq_some_iff] at h
    obtain ⟨⟨w, l₁⟩, hlinea, h⟩ := h
    refine ih h ?_
    cases pasoLinea_of_leerLinea hlinea with
    | programa hc => exact hl
    | servicioSuelto hc hid => exact hl
    | servicio hc hid hP => exact hl
    | streamSuelto hc hid hl' =>
      obtain ⟨P, -, rfl⟩ := leerStream_anadir hl'
      exact Lectura.SinVacias.anadir (l := sinPrograma l) hl _ P
    | stream hc hid hl' =>
      obtain ⟨P, -, rfl⟩ := leerStream_anadir hl'
      exact hl.anadir _ P
    | otra hc => exact hl

/-- **Nothing is in the summary exactly where no line of a stream was
kept.** -/
theorem entradas_eq_nil_iff {lineas : List String} {programa programa' : Programa} {l : Lectura}
    (h : leerLineas configuration lineas (programa, .inicial) = some (programa', l)) :
    (l.vid2 = [] ∧ l.aud2 = [] ∧ l.sub2 = []) ↔
      ∀ s ∈ lineas.filterMap (LineaStream.deLinea configuration),
        s.seGuarda configuration = false := by
  obtain ⟨hvideo, haudio⟩ := entradas_leerLineas h
  have hsub := sub2_leerLineas h fun _ => Lectura.cumple_inicial _
  simp only [Lectura.inicial, List.nil_append, true_and] at hvideo haudio hsub
  rw [hvideo, haudio, hsub, List.flatMap_eq_nil_iff, List.flatMap_eq_nil_iff, ← forall₂_and,
    ← forall₂_and]
  refine forall₂_congr fun s _ => ?_
  simp [LineaStream.seGuarda, LineaStream.entradasVideo, LineaStream.entradasAudio, and_assoc]

end Restos

/-! ## The text -/

section Texto

/-- Entries put before others make the text longer. -/
theorem length_intercalate_lt (sep : String) {a : List String} (b : List String) (hne : a ≠ [])
    (ha : ∀ e ∈ a, e ≠ "") :
    (sep.intercalate b).length < (sep.intercalate (a ++ b)).length := by
  induction a with
  | nil => exact absurd rfl hne
  | cons e a ih =>
    obtain ⟨he, ha⟩ := List.forall_mem_cons.1 ha
    have hpos : 0 < e.length := Nat.pos_of_ne_zero fun h => he (String.length_eq_zero_iff.1 h)
    by_cases hresto : a ++ b = []
    · obtain ⟨rfl, rfl⟩ := List.append_eq_nil_iff.1 hresto
      simpa using hpos
    · rw [List.cons_append, String.intercalate_cons_of_ne_nil hresto, String.length_append,
        String.length_append]
      by_cases hnil : a = []
      · subst hnil
        simp only [List.nil_append]
        omega
      · have := ih hnil ha
        omega

theorem length_intercalate_le (sep : String) {a : List String} (b : List String)
    (ha : ∀ e ∈ a, e ≠ "") :
    (sep.intercalate b).length ≤ (sep.intercalate (a ++ b)).length := by
  by_cases hnil : a = []
  · rw [hnil, List.nil_append]
  · exact Nat.le_of_lt (length_intercalate_lt sep b hnil ha)

/-- **A summary tells its id.** -/
theorem textoResumen_sid {sid sid' name name' : String} {v v' a a' t t' : List String}
    (hsid : ',' ∉ sid.toList) (hsid' : ',' ∉ sid'.toList)
    (h : textoResumen sid name v a t = textoResumen sid' name' v' a' t') : sid = sid' := by
  have hcomma : ",ServiceName:".toList = ',' :: "ServiceName:".toList := by decide
  have hchars := congrArg String.toList h
  unfold textoResumen at hchars
  simp only [String.toList_append, List.append_assoc, hcomma, List.cons_append] at hchars
  obtain ⟨hid, -⟩ := Text.span_inj (p := (· ≠ ',')) (fun c hc => by rintro rfl; exact hsid hc)
    (fun c hc => by rintro rfl; exact hsid' hc) (Text.fenced_cons.2 (by simp))
    (Text.fenced_cons.2 (by simp)) (List.append_cancel_left hchars)
  exact String.toList_inj.1 hid

/-- **What is left in a summary makes it another text**, for it makes it
longer. -/
theorem textoResumen_restos {sid name name' : String} {v v' a a' t t' : List String}
    (hname : name' = "" ∨ name' = name) (hv : ∀ e ∈ v, e ≠ "") (ha : ∀ e ∈ a, e ≠ "")
    (ht : ∀ e ∈ t, e ≠ "") (h : textoResumen sid name (v ++ v') (a ++ a') (t ++ t') =
      textoResumen sid name' v' a' t') :
    name = name' ∧ v = [] ∧ a = [] ∧ t = [] := by
  have hlen := congrArg String.length h
  unfold textoResumen at hlen
  simp only [String.length_append] at hlen
  have hvle := length_intercalate_le " / " v' hv
  have hale := length_intercalate_le " / " a' ha
  have htle := length_intercalate_le " / " t' ht
  have hnamele : name'.length ≤ name.length := by
    obtain rfl | rfl := hname
    · simp
    · exact le_rfl
  refine ⟨?_, ?_, ?_, ?_⟩
  · obtain rfl | rfl := hname
    · refine String.length_eq_zero_iff.1 ?_
      simp only [String.length_empty] at hlen
      omega
    · rfl
  · by_contra hne
    have := length_intercalate_lt " / " v' hne hv
    omega
  · by_contra hne
    have := length_intercalate_lt " / " a' hne ha
    omega
  · by_contra hne
    have := length_intercalate_lt " / " t' hne ht
    omega

end Texto

/-! ## Whose summary it is -/

section Seleccion

variable {configuration : Config} {previo : Programa} {lineas : List String}

/-- No id that is announced has a comma. -/
theorem comma_not_mem_anuncios {id : String} (h : id ∈ anuncios configuration "" lineas) :
    ',' ∉ id.toList := by
  have hcabecera (hid : id ∈ lineas.filterMap (idCabecera configuration)) : ',' ∉ id.toList := by
    obtain ⟨linea, -, hlinea⟩ := List.mem_filterMap.1 hid
    intro hcomma
    have hdigit := isDigit_of_mem_idCabecera hlinea ',' hcomma
    revert hdigit
    decide
  obtain heq | heq := anuncios_inicial configuration lineas
  · exact hcabecera (heq ▸ h)
  · rw [heq, List.mem_cons] at h
    obtain rfl | h := h
    · decide
    · exact hcabecera h

/-- What a selection is read from. -/
theorem lectura_of_obtenerStreamsPost {programa : Programa} {resumen : String}
    (h : obtenerStreamsPost configuration lineas previo = some (programa, resumen)) :
    ∃ solo l, leerLineas configuration lineas (previo, .inicial) = some (solo, l) ∧
      l.programas solo.id = some programa ∧ programa.id = solo.id ∧ resumen = l.resumen ∧
      ',' ∉ solo.id.toList := by
  simp only [obtenerStreamsPost, Option.bind_eq_bind, Option.bind_eq_some_iff, Option.some.injEq,
    Prod.mk.injEq] at h
  obtain ⟨⟨solo, l⟩, hleer, P, hP, rfl, rfl⟩ := h
  have hid := ((leerLineas_spec hleer).2.1 Lectura.coherente_inicial _ _ hP).1
  refine ⟨solo, l, hleer, hP, hid, rfl, ?_⟩
  have hesta := (isSome_programas_leerLineas hleer solo.id).1 (by rw [hP]; rfl)
  exact comma_not_mem_anuncios (by simpa [Lectura.inicial] using hesta)

/-- **Which id the selection looks up**, where the report has a header. -/
theorem id_leerLineas {antes tras : List String} {cabecera id : String} {solo : Programa}
    {l : Lectura}
    (h : leerLineas configuration (antes ++ cabecera :: tras) (previo, .inicial) = some (solo, l))
    (hid : idCabecera configuration cabecera = some id)
    (hno : ∀ linea ∈ tras, idCabecera configuration linea = none) :
    solo.id = id ↔ configuration.idPrograma = "" ∨
      (if configuration.idPrograma ∈ (antes ++ cabecera :: tras).filterMap (idCabecera configuration)
        then configuration.idPrograma else previo.id) = id := by
  have hsome : (leerLineas configuration (antes ++ cabecera :: tras)
      (previo, .inicial)).isSome = true := by
    rw [h]
    rfl
  rw [(leerLineas_spec h).1, escritos_eq hsome]
  by_cases hvacio : configuration.idPrograma = ""
  · have hcabeceras : (antes ++ cabecera :: tras).filterMap (idCabecera configuration) =
        antes.filterMap (idCabecera configuration) ++ [id] := by
      rw [List.filterMap_append, List.filterMap_cons, hid, List.filterMap_eq_nil_iff.2 hno]
    simp only [hvacio, if_true, true_or, iff_true, Lectura.inicial]
    obtain heq | heq := anuncios_inicial configuration (antes ++ cabecera :: tras)
    · rw [heq, hcabeceras, List.getLastD_concat]
    · rw [heq, hcabeceras, ← List.cons_append, List.getLastD_concat]
  · simp only [hvacio, if_false, false_or]
    generalize (antes ++ cabecera :: tras).filterMap (idCabecera configuration) = ids
    by_cases hmem : configuration.idPrograma ∈ ids
    · have hfilter : configuration.idPrograma ∈ ids.filter (configuration.idPrograma = ·) :=
        List.mem_filter.2 ⟨hmem, decide_eq_true rfl⟩
      have hultimo := List.getLast_mem (List.ne_nil_of_mem hfilter)
      rw [if_pos hmem, List.getLastD_eq_getLast?,
        List.getLast?_eq_some_getLast (List.ne_nil_of_mem hfilter), Option.getD_some,
        ← of_decide_eq_true (List.mem_filter.1 hultimo).2]
    · rw [if_neg hmem, List.filter_eq_nil_iff.2]
      · rfl
      · intro id' hid' heq
        rw [decide_eq_true_eq] at heq
        exact hmem (heq ▸ hid')

/-- The name that is left of some names before others. -/
theorem getLastD_iff {antes tras : List String} (h : ∀ nombre ∈ antes, nombre ≠ "") :
    tras.getLastD (antes.getLastD "") = tras.getLastD "" ↔ tras ≠ [] ∨ antes = [] := by
  obtain rfl | ⟨tras, nombre, rfl⟩ := List.eq_nil_or_concat' tras
  · obtain rfl | ⟨antes, nombre, rfl⟩ := List.eq_nil_or_concat' antes
    · simp
    · simpa using h nombre (by simp)
  · simp

theorem getLastD_cases (tras : List String) (nombre : String) :
    tras.getLastD "" = "" ∨ tras.getLastD "" = tras.getLastD nombre := by
  obtain rfl | ⟨tras, nombre', rfl⟩ := List.eq_nil_or_concat' tras <;> simp

/-- **The summary after the last header** is that of the selected program
exactly where nothing before is left in it. -/
theorem resumen_tras_cabecera {antes tras : List String} {cabecera id : String}
    {programa : Programa} {resumen : String}
    (h : obtenerStreamsPost configuration (antes ++ cabecera :: tras) previo =
      some (programa, resumen))
    (hid : idCabecera configuration cabecera = some id)
    (hno : ∀ linea ∈ tras, idCabecera configuration linea = none) :
    resumen = resumenDe configuration programa
        (suyas configuration (antes ++ cabecera :: tras) programa.id) ↔
      SinRestos configuration previo (antes ++ cabecera :: tras) antes tras id := by
  obtain ⟨solo, l, hleer, hP, hsolo, rfl, hcomma⟩ := lectura_of_obtenerStreamsPost h
  have hpedido := id_leerLineas hleer hid hno
  have hne := idCabecera_ne_empty hid
  have hc : clasificar configuration cabecera = .programa id := by
    rw [idCabecera] at hid
    split at hid
    · rename_i id' hc
      rw [hc, Option.some.inj hid]
    · cases hid
  -- what is read before the header, and behind it in its program
  rw [leerLineas_append] at hleer
  obtain ⟨⟨p₁, l₁⟩, hantes, htras⟩ := Option.bind_eq_some_iff.1 hleer
  have hvacias := sinVacias_leerLineas hantes (by simp [Lectura.SinVacias, Lectura.inicial])
  have hkept := entradas_eq_nil_iff hantes
  have hname₁ : l₁.name = (nombrados configuration "" antes).getLastD "" :=
    (sid_name_leerLineas hantes).2
  simp only [leerLineas, leerLinea, hc, Option.bind_eq_bind, Option.bind_some] at htras
  obtain ⟨P', hprog, hP', hnombre, hsub⟩ := tramo_leerLineas htras hne
    (P := { (default : Programa) with id := id }) (by simp [leerPrograma, Lectura.poner]) hno
  obtain ⟨hsid, hname⟩ := sid_name_leerLineas htras
  obtain ⟨hvideo, haudio⟩ := entradas_leerLineas htras
  have hsuyas : suyas configuration (antes ++ cabecera :: tras) id =
      tras.filterMap (LineaStream.deLinea configuration) := by
    rw [suyas, List.foldl_append, List.foldl_cons, Recorrido.paso, hc]
    refine (suyas_tramo configuration ⟨id, _⟩ hne hno).trans ?_
    simp
  simp only [leerPrograma, Lectura.poner] at hprog hP' hnombre hsub hsid hname hvideo haudio
  have hresumen : l.resumen = textoResumen id l.name l.vid2 l.aud2 l.sub2 := by
    rw [← hprog, ← hsid trivial]
    rfl
  have hnombres : l.name = P'.nombre ↔ (∃ linea ∈ tras, ∃ nombre,
      clasificar configuration linea = .servicio nombre) ∨ nombrados configuration "" antes = [] := by
    rw [hname, hnombre, hname₁, ← nombrados_ne_nil hne hno]
    exact getLastD_iff fun nombre => ne_empty_of_mem_nombrados
  rw [hresumen]
  constructor
  · intro heq
    -- the ids stand at the front of both texts, and have no comma
    have hcommaid : ',' ∉ id.toList := fun hmem => by
      have hdigit := isDigit_of_mem_idCabecera hid ',' hmem
      revert hdigit
      decide
    obtain rfl : solo.id = id := by
      rw [resumenDe, hsolo] at heq
      exact (textoResumen_sid hcommaid hcomma heq).symm
    obtain rfl : programa = P' := Option.some.inj (hP.symm.trans hP')
    rw [resumenDe, hsolo, hsuyas, hvideo, haudio, hsub] at heq
    have hrestos := textoResumen_restos
      (by rw [hname, hnombre]; exact getLastD_cases _ _)
      (fun e he => hvacias e (by simp [he])) (fun e he => hvacias e (by simp [he]))
      (fun e he => hvacias e (by simp [he])) heq
    exact ⟨hpedido.1 rfl, hnombres.1 hrestos.1, hkept.1 hrestos.2⟩
  · intro hs
    obtain rfl : solo.id = id := hpedido.2 hs.pedido
    obtain rfl : programa = P' := Option.some.inj (hP.symm.trans hP')
    obtain ⟨hv, ha, ht⟩ := hkept.2 hs.streams
    rw [resumenDe, hsolo, hsuyas, hvideo, haudio, hsub, hv, ha, ht, hnombres.2 hs.nombre]
    rfl

/-- Without headers nothing is left in it. -/
theorem resumen_sin_cabecera {programa : Programa} {resumen : String}
    (h : obtenerStreamsPost configuration lineas previo = some (programa, resumen))
    (hno : ∀ linea ∈ lineas, idCabecera configuration linea = none) :
    resumen = resumenDe configuration programa (suyas configuration lineas programa.id) := by
  obtain ⟨solo, l, hleer, hP, hsolo, rfl, -⟩ := lectura_of_obtenerStreamsPost h
  have hesta := (isSome_programas_leerLineas hleer solo.id).1 (by rw [hP]; rfl)
  simp only [Lectura.inicial, Option.isSome_none, Bool.false_eq_true, false_or] at hesta
  obtain hmenos : solo.id = "-1" := by
    obtain heq | heq := anuncios_inicial configuration lineas <;>
      rw [heq, List.filterMap_eq_nil_iff.2 hno] at hesta
    · cases hesta
    · exact List.mem_singleton.1 hesta
  obtain ⟨hsid, hname⟩ := sid_name_leerLineas hleer
  obtain ⟨hvideo, haudio⟩ := entradas_leerLineas hleer
  have hsuyas : suyas configuration lineas "-1" =
      lineas.filterMap (LineaStream.deLinea configuration) := suyas_sueltas .inicial rfl rfl hno
  obtain rfl | ⟨P', hprog, hP', hnombre, hsub⟩ := sueltos_leerLineas hleer rfl hno
  · simp [Lectura.inicial] at hP
  · obtain rfl : programa = P' := by
      rw [hmenos] at hP
      exact Option.some.inj (hP.symm.trans hP')
    have hid := hsid rfl
    simp only [Lectura.inicial, List.nil_append] at hname hvideo haudio hsub
    rw [resumenDe, hsolo, hmenos, hsuyas, ← hvideo, ← haudio, ← hsub, hnombre, ← hname, ← hprog,
      ← hid]
    rfl

/-- A report has no header, or a last one. -/
theorem exists_ultima_cabecera (configuration : Config) (lineas : List String) :
    (∀ linea ∈ lineas, idCabecera configuration linea = none) ∨
      ∃ antes cabecera tras id, lineas = antes ++ cabecera :: tras ∧
        idCabecera configuration cabecera = some id ∧
          ∀ linea ∈ tras, idCabecera configuration linea = none := by
  induction lineas with
  | nil => exact .inl (by simp)
  | cons linea lineas ih =>
    obtain hno | ⟨antes, cabecera, tras, id, rfl, hid, hno⟩ := ih
    · cases hlinea : idCabecera configuration linea with
      | none => exact .inl (List.forall_mem_cons.2 ⟨hlinea, hno⟩)
      | some id => exact .inr ⟨[], linea, lineas, id, rfl, hlinea, hno⟩
    · exact .inr ⟨linea :: antes, cabecera, tras, id, rfl, hid, hno⟩

end Seleccion

/-- **The summary that is posted is that of the selected program exactly
where nothing before the last header is left in it.** -/
theorem resumen_iff (configuration : Config) (lineas : List String) (previo : Programa)
    {programa : Programa} {resumen : String}
    (h : obtenerStreamsPost configuration lineas previo = some (programa, resumen)) :
    resumen = resumenDe configuration programa (suyas configuration lineas programa.id) ↔
      ∀ antes cabecera tras id, lineas = antes ++ cabecera :: tras →
        idCabecera configuration cabecera = some id →
        (∀ linea ∈ tras, idCabecera configuration linea = none) →
          SinRestos configuration previo lineas antes tras id := by
  constructor
  · rintro heq antes cabecera tras id rfl hid hno
    exact (resumen_tras_cabecera h hid hno).1 heq
  · intro hs
    obtain hno | ⟨antes, cabecera, tras, id, rfl, hid, hno⟩ :=
      exists_ultima_cabecera configuration lineas
    · exact resumen_sin_cabecera h hno
    · exact (resumen_tras_cabecera h hid hno).2 (hs _ _ _ _ rfl hid hno)

/-- A report of one program. -/
theorem resumen_un_programa : ∃ programa resumen,
    obtenerStreamsPost .minima ["  Program 1", "      service_name    : La Uno",
        "    Stream #0:0[0x100]: Audio: mp2, 48000 Hz, stereo"] default =
      some (programa, resumen) ∧
    resumen = resumenDe .minima programa (suyas .minima ["  Program 1",
      "      service_name    : La Uno", "    Stream #0:0[0x100]: Audio: mp2, 48000 Hz, stereo"]
      programa.id) := by
  have hsome : (obtenerStreamsPost .minima ["  Program 1", "      service_name    : La Uno",
      "    Stream #0:0[0x100]: Audio: mp2, 48000 Hz, stereo"] default).isSome = true := by
    decide +kernel
  obtain ⟨⟨programa, resumen⟩, h⟩ := Option.isSome_iff_exists.1 hsome
  refine ⟨programa, resumen, h, (resumen_iff .minima _ default h).2 ?_⟩
  intro antes cabecera tras id heq hid _
  cases antes with
  | nil => exact ⟨.inl rfl, .inr rfl, by simp⟩
  | cons linea antes =>
    -- no line but the first is a header
    have hresto : ∀ linea ∈ ["      service_name    : La Uno",
        "    Stream #0:0[0x100]: Audio: mp2, 48000 Hz, stereo"],
        (idCabecera .minima linea).isNone = true := by decide +kernel
    have hmem := hresto cabecera (by rw [(List.cons.inj heq).2]; simp)
    simp [hid] at hmem

/-- Where the first of two programs is asked for, the id posted is that of
the second. -/
theorem not_resumen : ¬ ∀ (configuration : Config) (lineas : List String) (programa : Programa)
    (resumen : String), configuration.streams = [] →
      obtenerStreamsPost configuration lineas default = some (programa, resumen) →
      resumen = resumenDe configuration programa (suyas configuration lineas programa.id) := by
  intro h
  have hsome : (obtenerStreamsPost { Config.minima with idPrograma := "1" }
      informeDosProgramas.lineas default).isSome = true := by
    decide +kernel
  obtain ⟨⟨programa, resumen⟩, hsel⟩ := Option.isSome_iff_exists.1 hsome
  have heq := h _ _ _ _ rfl hsel
  have hlineas : informeDosProgramas.lineas = informeDosProgramas.lineas.take 6 ++
      cabecera 2 "" :: informeDosProgramas.lineas.drop 7 := by decide
  have htras : ∀ linea ∈ informeDosProgramas.lineas.drop 7,
      (idCabecera { Config.minima with idPrograma := "1" } linea).isNone = true := by
    decide +kernel
  rw [hlineas] at hsel heq
  have hrestos := (resumen_tras_cabecera hsel (idCabecera_cabecera rfl 2 "") fun linea hl =>
    Option.isNone_iff_eq_none.1 (htras linea hl)).1 heq
  have hpedido := hrestos.pedido
  revert hpedido
  decide +kernel

end HlsXcoder
