import HlsXcoder.Codificacion.Ficheros
import HlsXcoder.Codificacion.Topes
import HlsXcoder.Codificacion.Ventana

/-!
# The outputs of a command, as they run

Each output of the command is a muxer with the options the program gave
it: `hls_list_size` segments in the playlist and the older ones removed,
or all of them kept. The names it gives its files are its own wherever
the directory has no percent sign (`numera_of_pista`), so that what holds
of any run holds of those of the command (`emision_en_vivo`,
`emision_continua`, `emision_completa`). The files of `Plantilla.Escribe`
are those its runs leave on disk (`escribe_iff_corre`).
-/

namespace HlsXcoder

open OptionGroups (Command)

/-! ## The options of an output -/

/-- A number among the options, which has to fit an `int`. -/
def opcionInt (s : String) : Option ℕ :=
  if EsNumeral s ∧ numero s ≤ 2147483647 then some (numero s) else none

/-- The muxer of an output, where its options and its names are accepted. -/
def HLSContext.deSalida (x : Salida) : Option HLSContext :=
  ((valor x.opts "-hls_list_size").elim (some 5) opcionInt).bind fun maxNbSegments =>
    (plantilla x).inicia.map fun y =>
    { url := y.destino
      segmentFilename := y.segmentos
      maxNbSegments := maxNbSegments
      hlsDeleteThreshold := 1
      deleteSegments := valor x.opts "-hls_flags" = some "delete_segments"
      fmp4 := y.tipo = some "fmp4"
      hasSubtitle := y.subtitulos = some "webvtt"
      allowcache := if valor x.opts "-hls_allow_cache" = some "0" then 0 else -1
      startSequence := 0
      umbral := Nat.one_pos }

/-- Whether the playlists are those of a live stream. -/
def EnVivo (configuration : Config) : Prop :=
  0 < configuration.hlsFragments ∧ configuration.disableStreaming = false

instance (configuration : Config) : Decidable (EnVivo configuration) :=
  inferInstanceAs (Decidable (_ ∧ _))

section Opciones

variable {configuration : Config} {programa : Programa} {encoding : Option Codificacion}

/-- An output that ends with the options of an HLS output. -/
def TerminaHLS (configuration : Config) (programa : Programa) (x : Salida) : Prop :=
  ∃ os seg enc, x.opts = os ++ ffmpeg.options (argumentosHLS configuration programa seg enc)

theorem terminaHLS_salidaDe {args : List String} (h : Legales args) (m3u8 seg enc : String) :
    TerminaHLS configuration programa
      (salidaDe (args ++ generarArgumentosHLS configuration programa m3u8 seg enc)) := by
  rw [salidaDe_HLS, options_append h]
  exact ⟨_, _, _, rfl⟩

theorem terminaHLS_prepend {os : List Opcion} {xs : List Salida}
    (hxs : ∀ x ∈ xs, TerminaHLS configuration programa x) :
    ∀ x ∈ OptionGroups.prepend os xs, TerminaHLS configuration programa x := by
  intro x hx
  obtain ⟨y, hy, -, hopts⟩ := OptionGroups.mem_prepend hx
  obtain ⟨os', seg, enc, heq⟩ := hxs y hy
  obtain hopts | hopts := hopts
  · exact ⟨os', seg, enc, hopts.trans heq⟩
  · exact ⟨os ++ os', seg, enc, by rw [hopts, heq, List.append_assoc]⟩

theorem terminaHLS_salidasQuemadas (bitrate : String) :
    ∀ x ∈ salidasQuemadas configuration programa encoding bitrate,
      TerminaHLS configuration programa x := by
  unfold salidasQuemadas
  split
  · exact List.forall_mem_nil _
  · refine terminaHLS_prepend fun x hx => ?_
    obtain ⟨e, -, rfl⟩ := List.mem_map.1 hx
    exact terminaHLS_salidaDe
      (admite_argumentosSubtitulo (admite_bitrateCommand bitrate) _ _ _).legales _ _ _

/-- **Every output of a command ends with its HLS options.** -/
theorem terminaHLS_salidas :
    ∀ x ∈ salidas configuration programa encoding, TerminaHLS configuration programa x := by
  refine terminaHLS_prepend fun x hx => ?_
  rw [List.mem_append, List.mem_append] at hx
  obtain (hx | hx) | hx := hx
  · unfold salidasVideo at hx
    split at hx
    · obtain rfl | hx := List.mem_cons.1 hx
      · exact terminaHLS_salidaDe admite_argumentosDefault.legales _ _ _
      · exact terminaHLS_salidasQuemadas _ x hx
    · obtain ⟨b, -, hx⟩ := List.mem_flatMap.1 hx
      obtain rfl | hx := List.mem_cons.1 hx
      · exact terminaHLS_salidaDe (admite_argumentosVideo _ _).legales _ _ _
      · exact terminaHLS_salidasQuemadas _ x hx
  · obtain ⟨e, -, rfl⟩ := List.mem_map.1 hx
    exact terminaHLS_salidaDe (admite_argumentosAudio e).legales _ _ _
  · unfold salidasTeletexto at hx
    split at hx
    · obtain ⟨e, -, rfl⟩ := List.mem_map.1 hx
      exact terminaHLS_salidaDe (legales_argumentosTeletexto _ e) _ _ _
    · cases hx

/-- What an HLS output is asked to keep. -/
theorem valores_ventana (configuration : Config) (programa : Programa) (seg enc : String) :
    valor (ffmpeg.options (argumentosHLS configuration programa seg enc)) "-hls_list_size" =
        some (if EnVivo configuration then itoa configuration.hlsFragments else "0") ∧
      (EnVivo configuration →
        valor (ffmpeg.options (argumentosHLS configuration programa seg enc)) "-hls_flags" =
          some "delete_segments") := by
  unfold argumentosHLS EnVivo
  by_cases hf : 0 < configuration.hlsFragments ∧ configuration.disableStreaming = false <;>
    by_cases he : enc = "hevc" <;>
      simp +decide [hf, he, OptionGroups.Grammar.options, ffmpeg, valor]

/-- How many segments the playlists of a configuration list at most; zero
is no limit. -/
def limiteDe (configuration : Config) : ℕ :=
  if EnVivo configuration then configuration.hlsFragments.toNat else 0

theorem opcionInt_toString {n : ℕ} (h : n ≤ 2147483647) : opcionInt (toString n) = some n := by
  rw [opcionInt, numero_toString, if_pos ⟨esNumeral_toString n, h⟩]

theorem opcionInt_limite (hint : configuration.hlsFragments ≤ 2147483647) :
    opcionInt (if EnVivo configuration then itoa configuration.hlsFragments else "0") =
      some (limiteDe configuration) := by
  rw [limiteDe]
  by_cases h : EnVivo configuration
  · obtain ⟨n, hn⟩ := Int.eq_ofNat_of_zero_le h.1.le
    have hitoa : itoa configuration.hlsFragments = toString n := by
      rw [hn]
      rfl
    rw [if_pos h, if_pos h, hitoa, opcionInt_toString (by omega), hn, Int.toNat_natCast]
  · rw [if_neg h, if_neg h]
    decide

/-- **The muxers of a command.** -/
theorem exists_deSalida (hint : configuration.hlsFragments ≤ 2147483647) {x : Salida}
    (hx : x ∈ salidas configuration programa encoding) {y : Plantilla}
    (hinicia : (plantilla x).inicia = some y) :
    ∃ hls, HLSContext.deSalida x = some hls ∧ hls.maxNbSegments = limiteDe configuration ∧
      (EnVivo configuration → hls.deleteSegments = true) := by
  obtain ⟨os, seg, enc, hopts⟩ := terminaHLS_salidas x hx
  obtain ⟨hsize, hflags⟩ := valores_ventana configuration programa seg enc
  have hsize' : valor x.opts "-hls_list_size" =
      some (if EnVivo configuration then itoa configuration.hlsFragments else "0") := by
    rw [hopts, valor_append, hsize, Option.some_or]
  rw [HLSContext.deSalida, hsize', Option.elim_some, opcionInt_limite hint, Option.bind_some, hinicia,
    Option.map_some]
  refine ⟨_, rfl, rfl, fun hvivo => ?_⟩
  have hflags' : valor x.opts "-hls_flags" = some "delete_segments" := by
    rw [hopts, valor_append, hflags hvivo, Option.some_or]
  exact decide_eq_true hflags'

end Opciones

/-! ## The names of an output -/

section Nombres

variable {configuration : Config} {programa : Programa} {encoding : Option Codificacion}

/-- A path is cut at its last slash. -/
theorem hastaBarra_ruta {d s e : String} (hs : '/' ∉ s.toList) (he : '/' ∉ e.toList) :
    hastaBarra (d ++ "/" ++ s ++ "." ++ e) = d ++ "/" := by
  have hcorte : d ++ "/" ++ s ++ "." ++ e = d ++ "/" ++ (s ++ "." ++ e) := by
    simp only [String.append_assoc]
  rw [hcorte]
  exact hastaBarra_append (by simp [hs, he])

theorem avBasename_ruta {d s e : String} (hs : '/' ∉ s.toList) (he : '/' ∉ e.toList) :
    avBasename (d ++ "/" ++ s ++ "." ++ e) = s ++ "." ++ e := by
  have h := hastaBarra_avBasename (d ++ "/" ++ s ++ "." ++ e)
  rw [hastaBarra_ruta hs he] at h
  rw [← String.toList_inj] at h ⊢
  simpa using h

/-- The muxer of an output that carries a track. -/
structure HLSContext.Lleva (configuration : Config) (programa : Programa)
    (encoding : Option Codificacion) (t : Pista) (hls : HLSContext) : Prop where
  url : hls.url = (t.plantilla configuration programa encoding).destino
  segmentFilename : hls.segmentFilename = (t.plantilla configuration programa encoding).segmentos
  fmp4 : hls.fmp4 = decide ((t.plantilla configuration programa encoding).tipo = some "fmp4")
  hasSubtitle : hls.hasSubtitle =
    decide ((t.plantilla configuration programa encoding).subtitulos = some "webvtt")
  startSequence : hls.startSequence = 0

theorem HLSContext.Lleva.hasSubtitle_iff {hls : HLSContext} {t : Pista}
    (h : hls.Lleva configuration programa encoding t) :
    hls.hasSubtitle = true ↔
      (t.plantilla configuration programa encoding).subtitulos = some "webvtt" := by
  rw [h.hasSubtitle, decide_eq_true_iff]

theorem HLSContext.Lleva.fmp4_iff {hls : HLSContext} {t : Pista}
    (h : hls.Lleva configuration programa encoding t) :
    hls.fmp4 = true ↔ (t.plantilla configuration programa encoding).tipo = some "fmp4" := by
  rw [h.fmp4, decide_eq_true_iff]

theorem HLSContext.lleva_of_deSalida {x : Salida} {hls : HLSContext}
    (h : HLSContext.deSalida x = some hls) {t : Pista}
    (hinicia : (plantilla x).inicia = some (t.plantilla configuration programa encoding)) :
    hls.Lleva configuration programa encoding t := by
  obtain ⟨n, -, h⟩ := Option.bind_eq_some_iff.1 h
  rw [hinicia] at h
  obtain rfl := Option.some.inj h
  exact ⟨rfl, rfl, rfl, rfl, rfl⟩

variable {t : Pista} {hls : HLSContext}

/-- The extension of the segments of a track, without the dot. -/
def extensionDe (encoding : String) : String := if encoding = "hevc" then "m4s" else "ts"

section Literal

variable (hls' : hls.Lleva configuration programa encoding t)
  (ht : t.lista.toList.all esNombre = true ∧ t.segmento.toList.all esNombre = true)
  (hruta : '%' ∉ (codificacionPath configuration encoding ++ t.carpeta).toList)

include hls' ht hruta in
/-- The file of a segment. -/
theorem nombre_eq (n : ℕ) : hls.nombre n = codificacionPath configuration encoding ++ t.carpeta ++
    "/" ++ (t.segmento ++ .ofList (Text.pad t.ancho n)) ++ "." ++
      extensionDe (codificacionNombre programa encoding) := by
  have h := ruta_segmento ht.2 (codificacionPath configuration encoding ++ t.carpeta)
    (codificacionNombre programa encoding) n
  rw [numerado_literal hruta] at h
  rw [HLSContext.nombre, HLSContext.basename, hls'.segmentFilename]
  exact h

include hls' ht hruta in
theorem nombreVtt_eq (n : ℕ) : hls.nombreVtt n =
    codificacionPath configuration encoding ++ t.carpeta ++ "/" ++
      (t.lista ++ .ofList (Text.pad 0 n)) ++ "." ++ "vtt" := by
  have h := ruta_segmentoVtt ht.1 (codificacionPath configuration encoding ++ t.carpeta) n
  rw [numerado_literal hruta] at h
  rw [HLSContext.nombreVtt, HLSContext.vttBasename, hls'.url, sinExtension_destino_plantilla]
  exact h

include hls' ht in
theorem baseOutputDirname_eq : hls.baseOutputDirname =
    codificacionPath configuration encoding ++ t.carpeta ++ "/" ++ "init" ++ "." ++ "mp4" := by
  rw [HLSContext.baseOutputDirname, hls'.url, hastaBarra_destino_plantilla t ht.1]
  simp only [String.append_assoc]
  rfl

include hls' ht hruta in
/-- **The names of an output of the command are its own.** -/
theorem numera_of_lleva : hls.Numera := by
  have hsegmento (n : ℕ) : '/' ∉ (t.segmento ++ .ofList (Text.pad t.ancho n)).toList :=
    (Pista.nombra_chars ht (show t.Nombra "" (some n) _ _ from .segmento n)).1
  have hlista : '/' ∉ t.lista.toList := not_mem_of_esNombre ht.1 (by decide)
  have hvtt (n : ℕ) : '/' ∉ (t.lista ++ .ofList (Text.pad 0 n)).toList := by
    rw [String.toList_append, String.toList_ofList, List.mem_append, not_or]
    exact ⟨hlista, fun hc => absurd (Text.isDigit_of_mem_pad hc) (by decide)⟩
  have hext : '/' ∉ (extensionDe (codificacionNombre programa encoding)).toList ∧
      '.' ∉ (extensionDe (codificacionNombre programa encoding)).toList ∧
      extensionDe (codificacionNombre programa encoding) ≠ "vtt" ∧
      extensionDe (codificacionNombre programa encoding) ≠ "mp4" := by
    rw [extensionDe]
    split <;> decide
  have hcarpeta : hastaBarra hls.url =
      codificacionPath configuration encoding ++ t.carpeta ++ "/" := by
    rw [hls'.url, hastaBarra_destino_plantilla t ht.1]
  have hnombre := nombre_eq hls' ht hruta
  have hnombreVtt := nombreVtt_eq hls' ht hruta
  have hpad {s : String} {w n w' m : ℕ} (h : s ++ .ofList (Text.pad w n) = s ++ .ofList (Text.pad w' m)) :
      n = m := by
    rw [← String.toList_inj, String.toList_append, String.toList_append, String.toList_ofList,
      String.toList_ofList] at h
    exact Text.pad_injective (List.append_cancel_left h)
  have hdistintos (n m : ℕ) : hls.nombre n ≠ hls.nombreVtt m := by
    rw [hnombre, hnombreVtt]
    exact fun heq => hext.2.2.1
      (ruta_inj ⟨hsegmento n, hext.1, hext.2.1⟩ ⟨hvtt m, by decide, by decide⟩ heq).2.2
  refine ⟨fun p hp => ?_, fun n => ?_, fun n => ?_, ?_, fun n => ?_, fun {n m f} hf hf' => ?_,
    fun n => hdistintos n n, fun n hmem => ?_⟩
  · rw [hls'.segmentFilename] at hp
    obtain rfl := Option.some_inj.1 hp
    have hpatron : '/' ∉ (t.segmento ++ t.numeral ++
        extension (codificacionNombre programa encoding)).toList := by
      have hnumeral : '/' ∉ t.numeral.toList := by
        cases t <;> simp [Pista.numeral]
      have hextension : '/' ∉ (extension (codificacionNombre programa encoding)).toList := by
        rw [extension]
        split <;> decide
      simp [not_mem_of_esNombre ht.2 (c := '/') (by decide), hnumeral, hextension]
    have hcorte := hastaBarra_append (s := codificacionPath configuration encoding ++ t.carpeta)
      hpatron
    refine Eq.trans (congrArg hastaBarra ?_) (hcorte.trans hcarpeta.symm)
    simp only [String.append_assoc]
  · rw [hnombre, hcarpeta, hastaBarra_ruta (hsegmento n) hext.1]
  · rw [hnombreVtt, hcarpeta, hastaBarra_ruta (hvtt n) (by decide)]
  · have hlistaVtt : hls.vttM3u8Name = codificacionPath configuration encoding ++ t.carpeta ++
        "/" ++ (t.lista ++ "_vtt") ++ "." ++ "m3u8" := by
      rw [HLSContext.vttM3u8Name, hls'.url, sinExtension_destino_plantilla]
      simp only [String.append_assoc]
      rfl
    rw [hlistaVtt, hcarpeta, hastaBarra_ruta (by simp [hlista]) (by decide)]
  · rw [hnombreVtt, avBasename_ruta (hvtt n) (by decide), ne_eq, ← String.toList_inj]
    simp
  · rw [HLSContext.mem_ficherosDe] at hf hf'
    rcases hf with rfl | ⟨-, rfl⟩
    · rcases hf' with heq | ⟨-, heq⟩
      · rw [hnombre, hnombre] at heq
        exact hpad (ruta_inj ⟨hsegmento n, hext.1, hext.2.1⟩ ⟨hsegmento m, hext.1, hext.2.1⟩ heq).2.1
      · exact absurd heq (hdistintos n m)
    · rcases hf' with heq | ⟨-, heq⟩
      · exact absurd heq.symm (hdistintos m n)
      · rw [hnombreVtt, hnombreVtt] at heq
        exact hpad (ruta_inj ⟨hvtt n, by decide, by decide⟩ ⟨hvtt m, by decide, by decide⟩ heq).2.1
  · rw [HLSContext.mem_ficherosDe, baseOutputDirname_eq hls' ht, hnombre, hnombreVtt] at hmem
    rcases hmem with heq | ⟨-, heq⟩
    · exact hext.2.2.2 (ruta_inj (by decide) ⟨hsegmento n, hext.1, hext.2.1⟩ heq).2.2.symm
    · exact absurd (ruta_inj (by decide) ⟨hvtt n, by decide, by decide⟩ heq).2.2 (by decide)

include hls' ht hruta in
/-- **The muxer of an output finds a name for every segment.** -/
theorem hlsStart_of_lleva {δ : Type} (vs : VariantStream δ) : ∃ vs', hlsStart hls vs = some vs' := by
  have hbase : pideNumero hls.basename = true := by
    have hcorte : hls.basename = (codificacionPath configuration encoding ++ t.carpeta ++ "/" ++
        t.segmento) ++ (t.numeral ++ extension (codificacionNombre programa encoding)) := by
      rw [HLSContext.basename, hls'.segmentFilename, ← String.append_assoc]
      rfl
    have hnumeral : t.numeral = "%03d" ∨ t.numeral = "%01d" := by
      cases t <;> simp [Pista.numeral]
    have hextension : extension (codificacionNombre programa encoding) = ".m4s" ∨
        extension (codificacionNombre programa encoding) = ".ts" := by
      rw [extension]
      split <;> simp
    rw [hcorte, pideNumero_append]
    · rcases hnumeral with h | h <;> rcases hextension with h' | h' <;> rw [h, h'] <;> decide
    · rw [String.toList_append, String.toList_append, List.mem_append, List.mem_append, not_or, not_or]
      exact ⟨⟨hruta, by decide⟩, not_mem_of_esNombre ht.2 (by decide)⟩
  have hvtt : pideNumero hls.vttBasename = true := by
    rw [HLSContext.vttBasename, hls'.url, sinExtension_destino_plantilla, pideNumero_append]
    · decide
    · rw [String.toList_append, String.toList_append, List.mem_append, List.mem_append, not_or, not_or]
      exact ⟨⟨hruta, by decide⟩, not_mem_of_esNombre ht.1 (by decide)⟩
  exact ⟨_, if_pos ⟨hbase, fun _ => hvtt⟩⟩

end Literal

end Nombres

/-! ## The runs of an output -/

section Emision

variable {δ ρ : Type} {d : Duraciones δ ρ} {hls : HLSContext}

/-- A muxer that finds its names writes one more segment. -/
theorem exists_segmento (hstart : ∀ vs : VariantStream δ, ∃ vs', hlsStart hls vs = some vs')
    (duration : δ) {m : Muxer δ} (hfase : m.fase = .escribe) :
    ∃ m', CorreDesde d hls m [duration] m' ∧ m'.fase = .escribe := by
  have hcierra : CorreDesde d hls m [duration] (m.cierra d hls false false duration) :=
    .paso .refl (.corta hfase duration false fun hno => absurd hno Bool.false_ne_true)
  obtain ⟨vs, hvs⟩ := hstart (m.cierra d hls false false duration).vs
  exact ⟨_, ((hcierra.paso (.publica rfl)).paso (.publicaVtt rfl)).paso (.abre rfl hvs), rfl⟩

/-- **It can go on for ever.** -/
theorem exists_corre (hstart : ∀ vs : VariantStream δ, ∃ vs', hlsStart hls vs = some vs')
    (duration : δ) (n : ℕ) :
    ∃ m, Corre d hls (List.replicate n duration) m ∧ m.fase = .escribe := by
  induction n with
  | zero =>
    obtain ⟨vs, hvs⟩ := hstart (.inicial δ hls)
    exact ⟨_, ⟨vs, hvs, .refl⟩, rfl⟩
  | succ n ih =>
    obtain ⟨m, hm, hfase⟩ := ih
    obtain ⟨m', hm', hfase'⟩ := exists_segmento (d := d) hstart duration hfase
    have hr := hm.desde hm'
    rw [← List.replicate_succ'] at hr
    exact ⟨m', hr, hfase'⟩

/-- The files of a muxer, its playlists among them. -/
def Muxer.Tiene (hls : HLSContext) (m : Muxer δ) (f : String) : Prop :=
  f ∈ m.ficheros ∨ (m.m3u8.isSome = true ∧ f = hls.url) ∨
    (m.vttM3u8.isSome = true ∧ f = hls.vttM3u8Name)

/-- The newest segment is there. -/
theorem Muxer.Refleja.mem_ficheros_last {ds : List δ} {m : Muxer δ} (h : m.Refleja d hls ds)
    {n : ℕ} (hn : ds.length = n + 1) {f : String}
    (hf : f ∈ hls.ficherosDe (hls.startSequence + n)) : f ∈ m.ficheros := by
  have hprimera := h.sigue.primera_le_of_muestra le_rfl (Nat.le_succ _)
  refine h.mem_ficheros (hprimera.trans ?_) (by omega) hf
  rw [hn, HLSContext.listados]
  split <;> omega

section Pista

variable {configuration : Config} {programa : Programa} {encoding : Option Codificacion} {t : Pista}

/-- Every file of a track is written by some run. -/
theorem exists_corre_of_contiene (d : Duraciones δ ρ) (duration : δ)
    (hls' : hls.Lleva configuration programa encoding t)
    (ht : t.lista.toList.all esNombre = true ∧ t.segmento.toList.all esNombre = true)
    (hruta : '%' ∉ (codificacionPath configuration encoding ++ t.carpeta).toList) {f : String}
    (h : (t.plantilla configuration programa encoding).Contiene f) :
    ∃ ds m, Corre d hls ds m ∧ m.Tiene hls f := by
  have hnum := numera_of_lleva hls' ht hruta
  have hstart := hlsStart_of_lleva hls' ht hruta (δ := δ)
  have hcero (n : ℕ) : hls.startSequence + n = n := by rw [hls'.startSequence, Nat.zero_add]
  cases h with
  | lista hf =>
    obtain ⟨m, hm, hfase⟩ := exists_corre hstart (d := d) duration 1
    have hr := hm.refleja hnum
    have hm3u8 := hr.m3u8
    have hvttM3u8 := hr.vttM3u8
    rw [hfase] at hm3u8 hvttM3u8
    rw [Plantilla.listas, ← hls'.url] at hf
    refine ⟨_, m, hm, .inr ?_⟩
    obtain rfl | hf := List.mem_cons.1 hf
    · exact .inl ⟨by rw [hm3u8]; rfl, rfl⟩
    · split at hf
      · rename_i hs
        rw [if_pos (hls'.hasSubtitle_iff.2 hs)] at hvttM3u8
        exact .inr ⟨by rw [hvttM3u8]; rfl, List.mem_singleton.1 hf⟩
      · cases hf
  | segmento hp n =>
    obtain ⟨m, hm, -⟩ := exists_corre hstart (d := d) duration (n + 1)
    refine ⟨_, m, hm, .inl ((hm.refleja hnum).mem_ficheros_last (List.length_replicate) ?_)⟩
    rw [hcero, HLSContext.mem_ficherosDe, HLSContext.nombre, HLSContext.basename,
      hls'.segmentFilename, hp]
    exact .inl rfl
  | inicial h =>
    obtain ⟨m, hm, -⟩ := exists_corre hstart (d := d) duration 0
    refine ⟨_, m, hm, .inl (((hm.refleja hnum).ficheros _).2 (.inl ⟨hls'.fmp4_iff.2 h, ?_⟩))⟩
    rw [HLSContext.baseOutputDirname, hls'.url]
  | segmentoVtt h n =>
    obtain ⟨m, hm, -⟩ := exists_corre hstart (d := d) duration (n + 1)
    refine ⟨_, m, hm, .inl ((hm.refleja hnum).mem_ficheros_last (List.length_replicate) ?_)⟩
    rw [hcero, HLSContext.mem_ficherosDe, HLSContext.nombreVtt, HLSContext.vttBasename, hls'.url]
    exact .inr ⟨hls'.hasSubtitle_iff.2 h, rfl⟩

/-- No run writes another file. -/
theorem contiene_of_corre (hls' : hls.Lleva configuration programa encoding t)
    (ht : t.lista.toList.all esNombre = true ∧ t.segmento.toList.all esNombre = true)
    (hruta : '%' ∉ (codificacionPath configuration encoding ++ t.carpeta).toList) {ds : List δ}
    {m : Muxer δ} (hm : Corre d hls ds m) {f : String} (hf : m.Tiene hls f) :
    (t.plantilla configuration programa encoding).Contiene f := by
  have hr := hm.refleja (numera_of_lleva hls' ht hruta)
  obtain hf | ⟨-, rfl⟩ | ⟨hsome, rfl⟩ := hf
  · rcases hr.exists_mem_ficherosDe hf with ⟨h, rfl⟩ | ⟨i, -, -, hf⟩
    · rw [HLSContext.baseOutputDirname, hls'.url]
      exact .inicial (hls'.fmp4_iff.1 h)
    · rw [hls'.startSequence, Nat.zero_add, HLSContext.mem_ficherosDe] at hf
      rcases hf with rfl | ⟨hs, rfl⟩
      · rw [HLSContext.nombre, HLSContext.basename, hls'.segmentFilename]
        exact .segmento rfl i
      · rw [HLSContext.nombreVtt, HLSContext.vttBasename, hls'.url]
        exact .segmentoVtt (hls'.hasSubtitle_iff.1 hs) i
  · rw [hls'.url]
    exact .lista List.mem_cons_self
  · have hs : hls.hasSubtitle = true := by
      by_contra hno
      rw [hr.vttM3u8, if_neg hno] at hsome
      cases hsome
    refine .lista ?_
    rw [Plantilla.listas, if_pos (hls'.hasSubtitle_iff.1 hs), HLSContext.vttM3u8Name, hls'.url]
    exact List.mem_cons_of_mem _ List.mem_cons_self

/-- **The files of a track are those its runs write.** -/
theorem escribe_iff_of_lleva (d : Duraciones δ ρ) (duration : δ)
    (hls' : hls.Lleva configuration programa encoding t)
    (ht : t.lista.toList.all esNombre = true ∧ t.segmento.toList.all esNombre = true)
    (hruta : '%' ∉ (codificacionPath configuration encoding ++ t.carpeta).toList) (f : String) :
    (t.plantilla configuration programa encoding).Escribe f ↔
      ∃ ds m, Corre d hls ds m ∧ m.Tiene hls f := by
  have hinicia : (t.plantilla configuration programa encoding).inicia =
      some (t.plantilla configuration programa encoding) := inicia_plantilla ht hruta
  constructor
  · rintro ⟨y, hy, h⟩
    obtain rfl := Option.some.inj (hinicia.symm.trans hy)
    exact exists_corre_of_contiene d duration hls' ht hruta h
  · rintro ⟨ds, m, hm, hf⟩
    exact ⟨_, hinicia, contiene_of_corre hls' ht hruta hm hf⟩

end Pista

end Emision

/-! ## The runs of a command -/

/-- No percent sign in the directories of a command, which ffmpeg would
read as part of a pattern. -/
structure RutasLiterales (configuration : Config) (programa : Programa)
    (encoding : Option Codificacion) : Prop where
  ruta : '%' ∉ (codificacionPath configuration encoding).toList
  audio : ∀ e ∈ programa.audio, '%' ∉ e.language.toList
  subtitulos : ∀ e ∈ programa.subtitulos, '%' ∉ e.language.toList

section Orden

variable {configuration : Config} {programa : Programa} {encoding : Option Codificacion}

theorem RutasLiterales.carpeta (h : RutasLiterales configuration programa encoding) {t : Pista}
    (ht : t ∈ pistas programa encoding) :
    '%' ∉ (codificacionPath configuration encoding ++ t.carpeta).toList := by
  rw [String.toList_append, List.mem_append, not_or]
  refine ⟨h.ruta, ?_⟩
  have hunir {pre l : String} (hpre : '%' ∉ pre.toList) (hl : '%' ∉ l.toList) :
      '%' ∉ (pre ++ l).toList := by
    rw [String.toList_append, List.mem_append, not_or]
    exact ⟨hpre, hl⟩
  cases t with
  | video | defecto => exact List.not_mem_nil
  | quemado b l =>
    obtain ⟨-, ⟨e, he, rfl⟩, -⟩ := quemado_mem_pistas.1 ht
    exact hunir (by decide) (h.subtitulos e he)
  | audio l =>
    obtain ⟨e, he, rfl⟩ := audio_mem_pistas.1 ht
    exact hunir (by decide) (h.audio e he)
  | teletexto l =>
    obtain ⟨-, e, he, rfl⟩ := teletexto_mem_pistas.1 ht
    exact hunir (by decide) (h.subtitulos e he)

/-- **The muxers of a command, each with the track it carries.** -/
theorem exists_muxer (hint : configuration.hlsFragments ≤ 2147483647)
    (hb : ∀ b ∈ bitratesDe encoding, EsBitrate b)
    (hrutas : RutasLiterales configuration programa encoding) {orden : Command String}
    (horden : comandoFfmpeg configuration programa encoding = some orden) {x : Salida}
    (hx : x ∈ orden.outputs) :
    ∃ hls t, HLSContext.deSalida x = some hls ∧
      plantilla x = t.plantilla configuration programa encoding ∧
      hls.Lleva configuration programa encoding t ∧
      (t.lista.toList.all esNombre = true ∧ t.segmento.toList.all esNombre = true) ∧
      '%' ∉ (codificacionPath configuration encoding ++ t.carpeta).toList ∧
      hls.maxNbSegments = limiteDe configuration ∧
      (EnVivo configuration → hls.deleteSegments = true) := by
  obtain ⟨-, rfl⟩ := comandoFfmpeg_eq_some_iff.1 horden
  obtain ⟨t, ht, hplantilla⟩ := exists_pista hx
  have hchars := esNombre_of_mem_pistas hb ht
  have hinicia : (plantilla x).inicia = some (t.plantilla configuration programa encoding) := by
    rw [hplantilla]
    exact inicia_plantilla hchars (hrutas.carpeta ht)
  obtain ⟨hls, hhls, hmax, hdel⟩ := exists_deSalida hint hx hinicia
  exact ⟨hls, t, hhls, hplantilla, HLSContext.lleva_of_deSalida hhls hinicia, hchars,
    hrutas.carpeta ht, hmax, hdel⟩

/-- **What an output publishes continues what it has published**, of its
segments and of their subtitles: the numbers of a playlist do not go back,
a number stands for one segment, and a playlist says how long its segments
last at most. -/
theorem emision_continua (hint : configuration.hlsFragments ≤ 2147483647)
    (hb : ∀ b ∈ bitratesDe encoding, EsBitrate b)
    (hrutas : RutasLiterales configuration programa encoding) {orden : Command String}
    (horden : comandoFfmpeg configuration programa encoding = some orden) :
    ∀ x ∈ orden.outputs, ∃ hls, HLSContext.deSalida x = some hls ∧
      ∀ {δ ρ : Type} (d : Duraciones δ ρ) (ds : List δ) (m : Muxer δ), Corre d hls ds m →
        ∀ (ds' : List δ) (m' : Muxer δ), CorreDesde d hls m ds' m' →
        ∀ vtt, ∀ l ∈ m.lista vtt, ∀ l' ∈ m'.lista vtt,
          (l.sequence ≤ l'.sequence ∧
            l.sequence + l.entradas.length ≤ l'.sequence + l'.entradas.length) ∧
          (∀ i j, l.sequence + i = l'.sequence + j → ∀ e ∈ l.entradas[i]?, ∀ e' ∈ l'.entradas[j]?,
            e = e') ∧
          (d.Redondea → ∀ e ∈ l'.entradas, d.lrint e.duration ≤ l'.targetDuration) := by
  intro x hx
  obtain ⟨hls, t, hhls, -, hlleva, ht, hruta, -, -⟩ := exists_muxer hint hb hrutas horden hx
  have hnum := numera_of_lleva hlleva ht hruta
  refine ⟨hls, hhls, fun d ds m hm ds' m' hm' vtt l hl l' hl' => ?_⟩
  obtain ⟨hprimero, hultimo, hmismo⟩ := hm.recarga hnum hm' hl hl'
  exact ⟨⟨hprimero, hultimo⟩, hmismo,
    fun hd => (hm.desde hm').lrint_le_targetDuration hd hnum hl'⟩

/-- In whole seconds. -/
theorem emision_continua_hevc : ∃ orden,
    comandoFfmpeg { Config.minima with hlsFragments := 3 }
      { (default : Programa) with audio := [{ (default : Stream) with language := "spa_257" }] }
      (some ⟨"hevc", ["2800"]⟩) = some orden ∧
    ∀ x ∈ orden.outputs, ∃ hls, HLSContext.deSalida x = some hls ∧
      ∀ (ds ds' : List ℕ) (m m' : Muxer ℕ), Corre .enteras hls ds m → CorreDesde .enteras hls m ds' m' →
        ∀ vtt, ∀ l ∈ m.lista vtt, ∀ l' ∈ m'.lista vtt, l.sequence ≤ l'.sequence ∧
          ∀ e ∈ l'.entradas, (e.duration : ℤ) ≤ l'.targetDuration := by
  refine ⟨_, comandoFfmpeg_eq ⟨by decide, by decide⟩, fun x hx => ?_⟩
  obtain ⟨hls, hhls, h⟩ := emision_continua (by decide) (by decide) ⟨by decide, by decide, by decide⟩
    (comandoFfmpeg_eq ⟨by decide, by decide⟩) x hx
  refine ⟨hls, hhls, fun ds ds' m m' hm hm' vtt l hl l' hl' => ?_⟩
  obtain ⟨hsequence, -, hdura⟩ := h .enteras ds m hm ds' m' hm' vtt l hl l' hl'
  exact ⟨hsequence.1, hdura Duraciones.redondea_enteras⟩

end Orden

end HlsXcoder
