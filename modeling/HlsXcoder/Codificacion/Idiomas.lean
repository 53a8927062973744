import HlsXcoder.Codificacion.Claves
import HlsXcoder.Codificacion.Recorrido

/-!
# Streams selected by language

The languages kept in a program name its directories and its playlists,
so they are made distinct: the PID goes behind the language of an audio
stream, once more for each clash, and of the subtitles of one language
only the first is kept (`subtitulosReferencia`).

The filter of the audio languages is asked for the key with the PID
behind, which is no code of a language, so it lets no stream through.
-/

namespace HlsXcoder

variable {configuration : Config} {lineas : List String} {previo programa : Programa}
  {l : Lectura} {id : String} {P : Programa}

/-! ## Subtitles -/

/-- **The subtitles of a program**, as they are meant: the streams listed
and in the languages asked for, the first of each language. -/
def subtitulosReferencia (configuration : Config) (ss : List LineaStream) : List Stream :=
  Firsts.firsts (fun _ => true) Stream.language
    (((ss.filter fun s => s.stream 4 = "Subtitle").map LineaStream.subtitulo).filter fun e =>
      (configuration.streams = [] ∨ e.hexaId ∈ configuration.streams) ∧
        (configuration.subLang = [] ∨ e.language ∈ configuration.subLang))

/-- A subtitle line counts where the reference keeps its stream. -/
theorem esSubtitulo_iff (hsn : configuration.sn = false) (s : LineaStream) :
    s.esSubtitulo configuration = true ↔ s.stream 4 = "Subtitle" ∧
      (configuration.streams = [] ∨ s.subtitulo.hexaId ∈ configuration.streams) ∧
        (configuration.subLang = [] ∨ s.subtitulo.language ∈ configuration.subLang) := by
  have hhexa : s.subtitulo.hexaId = s.stream 2 := rfl
  have hidioma : s.subtitulo.language = s.idioma := rfl
  simp only [LineaStream.esSubtitulo, LineaStream.listado, idiomaPedido, hsn, hhexa, hidioma,
    Bool.not_false, Bool.and_true, Bool.and_eq_true, Bool.or_eq_true, List.isEmpty_iff,
    List.contains_iff_mem, decide_eq_true_eq]
  tauto

/-- The loop keeps the subtitles of the reference. -/
theorem foldl_trasSubtitulo (hsn : configuration.sn = false) (ss : List LineaStream) :
    ss.foldl (fun subtitulos s => s.trasSubtitulo configuration subtitulos) [] =
      subtitulosReferencia configuration ss := by
  induction ss using List.reverseRecOn with
  | nil => rfl
  | append_singleton ss s ih =>
    have hpasa := esSubtitulo_iff hsn s
    have hclave : s.subtitulo.language = s.idioma := rfl
    rw [List.foldl_concat, ih, LineaStream.trasSubtitulo]
    by_cases hes : s.esSubtitulo configuration = true
    · have hmas : subtitulosReferencia configuration (ss ++ [s]) =
          Firsts.keep (fun _ => true) Stream.language (subtitulosReferencia configuration ss)
            s.subtitulo := by
        obtain ⟨htipo, hfiltros⟩ := hpasa.1 hes
        rw [subtitulosReferencia, subtitulosReferencia, ← Firsts.firsts_concat, List.filter_append,
          List.map_append, List.filter_append]
        simp [htipo, hfiltros]
      rw [hmas, Firsts.keep, hclave]
      simp [hes]
    · have hmenos : subtitulosReferencia configuration (ss ++ [s]) =
          subtitulosReferencia configuration ss := by
        rw [hpasa] at hes
        rw [subtitulosReferencia, subtitulosReferencia, List.filter_append, List.map_append,
          List.filter_append]
        by_cases htipo : s.stream 4 = "Subtitle"
        · have hfiltros := not_and.1 hes htipo
          simp [htipo, hfiltros]
        · simp [htipo]
      rw [hmenos, if_neg fun h => hes h.1]

/-- **The subtitles of each program are those of the reference**, and
their languages are distinct. -/
theorem subtitulos_eq_referencia (configuration : Config) (hsn : configuration.sn = false)
    (lineas : List String) (previo programa : Programa) (l : Lectura)
    (h : leerLineas configuration lineas (previo, .inicial) = some (programa, l)) (id : String)
    (P : Programa) (hP : l.programas id = some P) :
    P.subtitulos = subtitulosReferencia configuration (suyas configuration lineas id) ∧
      (P.subtitulos.map Stream.language).Nodup := by
  obtain ⟨nombre, rfl⟩ := programas_recorrer h hP
  rw [subtitulos_programaDe, foldl_trasSubtitulo hsn]
  exact ⟨rfl, Firsts.nodup_map_firsts _⟩

/-- Three subtitles of a program, two of one language. -/
def lineasSubtitulos : List String :=
  ["  Program 1 ", "    Stream #0:0[0x100](spa): Subtitle: dvb_subtitle",
    "    Stream #0:1[0x101](spa): Subtitle: dvb_subtitle",
    "    Stream #0:2[0x102]: Subtitle: dvb_teletext"]

theorem subtitulos_eq_referencia_repetido : ∃ programa l P,
    leerLineas .minima lineasSubtitulos (default, .inicial) = some (programa, l) ∧
      l.programas "1" = some P ∧ P.subtitulos.map Stream.language = ["spa", "default"] ∧
      P.subtitulos = subtitulosReferencia .minima (suyas .minima lineasSubtitulos "1") ∧
      (P.subtitulos.map Stream.language).Nodup := by
  have hleido : ((leerLineas .minima lineasSubtitulos (default, .inicial)).bind fun p =>
      (p.2.programas "1").map fun P => P.subtitulos.map Stream.language) =
        some ["spa", "default"] := by
    decide +kernel
  obtain ⟨⟨programa, l⟩, hleer, hP⟩ := Option.bind_eq_some_iff.1 hleido
  obtain ⟨P, hP, hidiomas⟩ := Option.map_eq_some_iff.1 hP
  exact ⟨programa, l, P, hleer, hP, hidiomas,
    subtitulos_eq_referencia .minima rfl lineasSubtitulos default programa l hleer "1" P hP⟩

/-! ## PIDs -/

/-- The value of lower-case hexadecimal digits. -/
def valorHex (ds : List Char) : ℕ := ds.foldl (fun n c => n * 16 + (digitoHex c).getD 0) 0

/-- How a PID is printed: as `0x` and lower-case hexadecimal digits, or
not at all, which counts as zero. -/
inductive PidImpreso : String → ℕ → Prop
  | ausente : PidImpreso "" 0
  | hexadecimal (ds : List Char) (hds : ∀ c ∈ ds, c.isDigit = true ∨ 'a' ≤ c ∧ c ≤ 'f')
      (hvalor : valorHex ds < 2 ^ 64) : PidImpreso ("0x" ++ String.ofList ds) (valorHex ds)

theorem quitar0x_eq_self {cs : List Char} (h : 'x' ∉ cs) : quitar0x cs = cs := by
  fun_induction quitar0x cs with
  | case1 cs ih => simp at h
  | case2 c cs _ ih => rw [ih fun hx => h (List.mem_cons_of_mem _ hx)]
  | case3 => rfl

/-- Digits that fit are read to their value. -/
theorem parseUint16_eq {ds : List Char} (hds : ∀ c ∈ ds, (digitoHex c).isSome = true) {n : ℕ}
    (hvalor : ds.foldl (fun n c => n * 16 + (digitoHex c).getD 0) n < 2 ^ 64) :
    parseUint16 n ds = ds.foldl (fun n c => n * 16 + (digitoHex c).getD 0) n := by
  -- a value never shrinks as digits are read
  have hcrece : ∀ (ds : List Char) (n : ℕ),
      n ≤ ds.foldl (fun n c => n * 16 + (digitoHex c).getD 0) n := by
    intro ds
    induction ds with
    | nil => exact fun n => Nat.le_refl n
    | cons c ds ih =>
      exact fun n => Nat.le_trans (show n ≤ n * 16 + (digitoHex c).getD 0 by omega) (ih _)
  induction ds generalizing n with
  | nil => rfl
  | cons c ds ih =>
    rw [List.forall_mem_cons] at hds
    obtain ⟨d, hd⟩ := Option.isSome_iff_exists.1 hds.1
    rw [List.foldl_cons, hd, Option.getD_some] at hvalor ⊢
    have hle := hcrece ds (n * 16 + d)
    rw [parseUint16, hd]
    simp only
    rw [if_neg (by omega)]
    exact ih hds.2 hvalor

/-- **The PID is read to its value.** -/
theorem PidImpreso.hex2int {texto : String} {n : ℕ} (h : PidImpreso texto n) :
    hex2int texto = n := by
  cases h with
  | ausente => rfl
  | hexadecimal ds hds hvalor =>
    have hx : 'x' ∉ ds := fun hmem => absurd (hds 'x' hmem) (by decide)
    have htexto : ("0x" ++ String.ofList ds).toList = '0' :: 'x' :: ds := by simp
    rw [HlsXcoder.hex2int, htexto, quitar0x, quitar0x_eq_self hx]
    refine parseUint16_eq (fun c hc => ?_) hvalor
    obtain hdigit | hletra := hds c hc
    · simp [digitoHex, hdigit]
    · unfold digitoHex
      split
      · rfl
      · rfl

/-! ## Audio -/

/-- **The entry of an audio line**: the stream of the line, under its tag
and the decimal PID, put behind it once or more. -/
structure EntradaDe (s : LineaStream) (e : Stream) : Prop where
  id : e.id = s.stream 1
  hexaId : e.hexaId = s.stream 2
  format : e.format = s.stream 5
  language : ∀ pid, PidImpreso (s.stream 2) pid →
    ∃ m, e.language = claveAudio (languageOr s.elem "none", toString pid) m

/-- An audio line that counts where no language is asked for. -/
def LineaStream.audioListado (configuration : Config) (s : LineaStream) : Bool :=
  s.listado configuration && s.stream 4 = "Audio"

theorem esAudio_eq (han : configuration.an = false) (hlang : configuration.audioLang = [])
    (s : LineaStream) : s.esAudio configuration = s.audioListado configuration := by
  simp [LineaStream.esAudio, LineaStream.audioListado, han, hlang, idiomaPedido]

/-- The entry a line makes, whatever stands before it. -/
theorem entradaDe_audioLanguage (s : LineaStream) (audio : List Stream) :
    EntradaDe s { s.elem with language := audioLanguage s.elem audio } := by
  refine ⟨rfl, rfl, rfl, fun pid hpid => ?_⟩
  obtain ⟨m, hm⟩ := clavesAudio.exists_probe (claseAudio s.elem) (audio.map Stream.language)
  have hdecimal : decimalId s.elem = toString pid := by
    rw [decimalId, ← hpid.hex2int]
    rfl
  refine ⟨m, ?_⟩
  rw [← hdecimal]
  exact (audioLanguage_eq s.elem audio).trans hm

/-- The loop makes one entry of each audio line, in order. -/
theorem forall₂_trasAudio (han : configuration.an = false) (hlang : configuration.audioLang = [])
    (ss : List LineaStream) :
    List.Forall₂ EntradaDe (ss.filter (LineaStream.audioListado configuration))
      (ss.foldl (fun audio s => s.trasAudio configuration audio) []) := by
  induction ss using List.reverseRecOn with
  | nil => exact .nil
  | append_singleton ss s ih =>
    rw [List.foldl_concat, List.filter_append, LineaStream.trasAudio, esAudio_eq han hlang]
    cases hs : s.audioListado configuration with
    | true =>
      simp only [List.filter_cons, hs, if_true, List.filter_nil]
      exact List.rel_append ih (.cons (entradaDe_audioLanguage s _) .nil)
    | false =>
      simp only [List.filter_cons, hs, Bool.false_eq_true, if_false, List.filter_nil, List.append_nil]
      exact ih

/-- The program a stream line is read in: the one being read, or a new one
where there is none. -/
def Lectura.leyendo (l : Lectura) : Option Programa :=
  if l.programId = "" then some { (default : Programa) with id := "-1", nombre := "No name" }
  else l.programas l.programId

/-- **An audio line adds its entry** at the end of the program it is read
in, and leaves the others as they are. -/
theorem leerLinea_audio (han : configuration.an = false) (hlang : configuration.audioLang = [])
    {linea : String} {stream : ℕ → String} (hc : clasificar configuration linea = .stream stream)
    (haudio : (⟨linea, stream⟩ : LineaStream).audioListado configuration = true) {l' : Lectura}
    {w : Option String} (h : leerLinea configuration linea l = some (w, l')) :
    ∃ P e, l.leyendo = some P ∧ EntradaDe ⟨linea, stream⟩ e ∧ l'.programas =
      Function.update l.programas l'.programId (some { P with audio := P.audio ++ [e] }) := by
  have htipo : stream 4 = "Audio" := by
    simp only [LineaStream.audioListado, Bool.and_eq_true, decide_eq_true_eq] at haudio
    exact haudio.2
  have htras : ∀ P : Programa, (⟨linea, stream⟩ : LineaStream).tras configuration P =
      { P with audio := P.audio ++ [{ streamElement stream with
        language := audioLanguage (streamElement stream) P.audio }] } := by
    intro P
    rw [← esAudio_eq han hlang] at haudio
    simp [LineaStream.tras, LineaStream.trasVideo, LineaStream.trasAudio, LineaStream.trasSubtitulo,
      haudio, LineaStream.esVideo, LineaStream.esSubtitulo, htipo, LineaStream.elem]
  cases pasoLinea_of_leerLinea h with
  | streamSuelto hc' hid hl' =>
    obtain rfl := ClaseLinea.stream.inj (hc.symm.trans hc')
    obtain ⟨P, hP, rfl⟩ := leerStream_anadir hl'
    have hnuevo : P = { (default : Programa) with id := "-1", nombre := "No name" } := by
      simpa [sinPrograma, Lectura.poner] using hP.symm
    refine ⟨P, _, by rw [Lectura.leyendo, if_pos hid, hnuevo],
      entradaDe_audioLanguage ⟨linea, stream⟩ P.audio, ?_⟩
    simp only [Lectura.anadir, htras, LineaStream.elem]
    simp [sinPrograma, Lectura.poner]
  | stream hc' hid hl' =>
    obtain rfl := ClaseLinea.stream.inj (hc.symm.trans hc')
    obtain ⟨P, hP, rfl⟩ := leerStream_anadir hl'
    refine ⟨P, _, by rw [Lectura.leyendo, if_neg hid, hP],
      entradaDe_audioLanguage ⟨linea, stream⟩ P.audio, ?_⟩
    simp only [Lectura.anadir, htras, LineaStream.elem]
  | programa hc' | servicioSuelto hc' | servicio hc' | otra hc' => rw [hc'] at hc; cases hc

/-- **The keys of the audio streams are unique and no stream is lost**: at
every point of the report the keys of a program are distinct, its entries
are those of its audio lines, in order, and an audio line adds its own at
the end. -/
theorem audio_unico (configuration : Config) (han : configuration.an = false)
    (hlang : configuration.audioLang = []) (lineas : List String) (previo programa : Programa)
    (l : Lectura) (h : leerLineas configuration lineas (previo, .inicial) = some (programa, l)) :
    (∀ id P, l.programas id = some P → (P.audio.map Stream.language).Nodup ∧
      List.Forall₂ EntradaDe
        ((suyas configuration lineas id).filter (LineaStream.audioListado configuration)) P.audio) ∧
    ∀ linea stream w l', clasificar configuration linea = .stream stream →
      (⟨linea, stream⟩ : LineaStream).audioListado configuration = true →
      leerLinea configuration linea l = some (w, l') →
      ∃ P e, l.leyendo = some P ∧ EntradaDe ⟨linea, stream⟩ e ∧ l'.programas =
        Function.update l.programas l'.programId (some { P with audio := P.audio ++ [e] }) := by
  refine ⟨fun id P hP => ⟨?_, ?_⟩, fun linea stream w l' hc haudio hlinea =>
    leerLinea_audio han hlang hc haudio hlinea⟩
  · exact (Lectura.Cumple.leerLineas conserva_conClaves (Lectura.cumple_inicial _) h id P hP).nodup_audio
  · obtain ⟨nombre, rfl⟩ := programas_recorrer h hP
    rw [audio_programaDe]
    exact forall₂_trasAudio han hlang _

/-- Three audio streams of a program, two of one language and PID. -/
def lineasAudio : List String :=
  ["  Program 1 ", "    Stream #0:0[0x100](spa): Audio: mp2", "    Stream #0:1[0x101]: Audio: mp2",
    "    Stream #0:0[0x100](spa): Audio: mp2"]

theorem audio_unico_repetido : ∃ programa l P,
    leerLineas .minima lineasAudio (default, .inicial) = some (programa, l) ∧
      l.programas "1" = some P ∧
      P.audio.map Stream.language = ["spa_256", "none_257", "spa_256_256"] ∧
      (P.audio.map Stream.language).Nodup := by
  have hleido : ((leerLineas .minima lineasAudio (default, .inicial)).bind fun p =>
      (p.2.programas "1").map fun P => P.audio.map Stream.language) =
        some ["spa_256", "none_257", "spa_256_256"] := by
    decide +kernel
  obtain ⟨⟨programa, l⟩, hleer, hP⟩ := Option.bind_eq_some_iff.1 hleido
  obtain ⟨P, hP, hidiomas⟩ := Option.map_eq_some_iff.1 hP
  exact ⟨programa, l, P, hleer, hP, hidiomas,
    ((audio_unico .minima rfl rfl lineasAudio default programa l hleer).1 "1" P hP).1⟩

/-! ## The filter of the audio languages -/

/-- **The filter selects by language**: an audio stream of the program is
kept exactly where its tag is one of those asked for. -/
def FiltraIdioma (configuration : Config) (ss : List LineaStream) (P : Programa) : Prop :=
  ∀ s ∈ ss, s.stream 4 = "Audio" →
    ((∃ e ∈ P.audio, e.id = s.stream 1 ∧ e.hexaId = s.stream 2 ∧ e.format = s.stream 5) ↔
      s.stream 3 ∈ configuration.audioLang)

/-- The key the filter looks up is no code of a language. -/
theorem clave_not_mem (hcodigos : ∀ codigo ∈ configuration.audioLang, '_' ∉ codigo.toList)
    (s : LineaStream) : s.clave ∉ configuration.audioLang := by
  intro hmem
  refine hcodigos _ hmem ?_
  simp [LineaStream.clave, audioKey]

/-- **So no audio stream passes it.** -/
theorem foldl_trasAudio_filtro (hlang : configuration.audioLang ≠ [])
    (hcodigos : ∀ codigo ∈ configuration.audioLang, '_' ∉ codigo.toList) (ss : List LineaStream)
    (audio : List Stream) :
    ss.foldl (fun audio s => s.trasAudio configuration audio) audio = audio := by
  induction ss generalizing audio with
  | nil => rfl
  | cons s ss ih =>
    have hfuera : s.esAudio configuration = false := by
      simp [LineaStream.esAudio, idiomaPedido, hlang, clave_not_mem hcodigos s]
    rw [List.foldl_cons, LineaStream.trasAudio, hfuera]
    exact ih audio

/-- **The filter selects by language exactly where** no audio stream of
the program has a language that is asked for. -/
theorem filtraIdioma_iff (configuration : Config) (hlang : configuration.audioLang ≠ [])
    (hcodigos : ∀ codigo ∈ configuration.audioLang, '_' ∉ codigo.toList) (lineas : List String)
    (previo programa : Programa) (l : Lectura)
    (h : leerLineas configuration lineas (previo, .inicial) = some (programa, l)) (id : String)
    (P : Programa) (hP : l.programas id = some P) :
    FiltraIdioma configuration (suyas configuration lineas id) P ↔
      ∀ s ∈ suyas configuration lineas id, s.stream 4 = "Audio" →
        s.stream 3 ∉ configuration.audioLang := by
  obtain ⟨nombre, rfl⟩ := programas_recorrer h hP
  have hvacio : (programaDe configuration id nombre (suyas configuration lineas id)).audio = [] := by
    rw [audio_programaDe, foldl_trasAudio_filtro hlang hcodigos]
  simp [FiltraIdioma, hvacio]

theorem filtraIdioma_otro : ∃ programa l P,
    leerLineas { Config.minima with audioLang := ["eng"] } lineasAudio (default, .inicial) =
        some (programa, l) ∧ l.programas "1" = some P ∧
      FiltraIdioma { Config.minima with audioLang := ["eng"] }
        (suyas { Config.minima with audioLang := ["eng"] } lineasAudio "1") P := by
  have hleido : ((leerLineas { Config.minima with audioLang := ["eng"] } lineasAudio
      (default, .inicial)).bind fun p => p.2.programas "1").isSome = true := by
    decide +kernel
  have htipos : ((suyas { Config.minima with audioLang := ["eng"] } lineasAudio "1").all fun s =>
      s.stream 3 ≠ "eng") = true := by
    decide +kernel
  obtain ⟨P, hP⟩ := Option.isSome_iff_exists.1 hleido
  obtain ⟨⟨programa, l⟩, hleer, hP⟩ := Option.bind_eq_some_iff.1 hP
  refine ⟨programa, l, P, hleer, hP, (filtraIdioma_iff { Config.minima with audioLang := ["eng"] }
    (by decide) (by decide) lineasAudio default programa l hleer "1" P hP).2 fun s hs _ => ?_⟩
  simpa using List.all_eq_true.1 htipos s hs

/-- The Spanish audio that is asked for is not there. -/
theorem not_filtraIdioma : ¬ ∀ (configuration : Config) (lineas : List String)
    (previo programa : Programa) (l : Lectura) (id : String) (P : Programa),
    configuration.an = false → configuration.streams = [] → configuration.audioLang ≠ [] →
    (∀ codigo ∈ configuration.audioLang, '_' ∉ codigo.toList) →
    leerLineas configuration lineas (previo, .inicial) = some (programa, l) →
    l.programas id = some P →
      FiltraIdioma configuration (suyas configuration lineas id) P := by
  intro h
  have hleido : ((leerLineas { Config.minima with audioLang := ["spa"] } lineasAudio
      (default, .inicial)).bind fun p => (p.2.programas "1").map Programa.audio) = some [] := by
    decide +kernel
  have htipos : ((suyas { Config.minima with audioLang := ["spa"] } lineasAudio "1").any fun s =>
      s.stream 4 = "Audio" && s.stream 3 = "spa") = true := by
    decide +kernel
  obtain ⟨⟨programa, l⟩, hleer, hP⟩ := Option.bind_eq_some_iff.1 hleido
  obtain ⟨P, hP, haudio⟩ := Option.map_eq_some_iff.1 hP
  obtain ⟨s, hs, htipo⟩ := List.any_eq_true.1 htipos
  simp only [Bool.and_eq_true, decide_eq_true_eq] at htipo
  obtain ⟨e, he, -⟩ := (h { Config.minima with audioLang := ["spa"] } lineasAudio default programa l
    "1" P rfl rfl (by decide) (by decide) hleer hP s hs htipo.1).2 (by simp [htipo.2])
  rw [haudio] at he
  cases he

end HlsXcoder
