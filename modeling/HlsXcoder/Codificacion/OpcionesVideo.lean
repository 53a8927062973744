import HlsXcoder.Codificacion.Plantillas

/-!
# The options of video of a variant

`videoCommands` starts with the codec, its preset and profile, the size,
the pixel format and the filter, and the loop over the bitrates appends
one output after another to it. An option applies to the next output
alone, so these belong to the variant of the first bitrate, and the
variants after it have none of them. The variants of an encoding are thus
encoded alike exactly when it has a single bitrate.
-/

namespace HlsXcoder

open OptionGroups

/-- The flags of codec, preset, profile, size, pixel format and filter. -/
def esOpcionVideo (o : Opcion) : Bool :=
  o.flag ∈ ["-c:v", "-vcodec", "-preset", "-profile:v", "-s", "-pix_fmt", "-vf"]

def opcionesVideo (x : Salida) : List Opcion := x.opts.filter esOpcionVideo

/-- The output is the main variant of a bitrate, by its playlist. -/
def EsVariante (configuration : Config) (encoding : Option Codificacion) (bitrate : String)
    (x : Salida) : Prop :=
  x.target = codificacionPath configuration encoding ++ "/" ++ bitrate ++ ".m3u8"

/-- **Every variant of an encoding is encoded alike**: the command has a
main variant for each bitrate, and its options of video are those it has
in the command for that bitrate alone. -/
def VariantesIguales (configuration : Config) (programa : Programa) (codificacion : Codificacion) :
    Prop :=
  ∃ orden, comandoFfmpeg configuration programa (some codificacion) = some orden ∧
    ∀ b ∈ codificacion.bitrates,
      (∃ x ∈ orden.outputs, EsVariante configuration (some codificacion) b x) ∧
      ∃ sola, comandoFfmpeg configuration programa (some ⟨codificacion.nombre, [b]⟩) = some sola ∧
        (∃ y ∈ sola.outputs, EsVariante configuration (some codificacion) b y) ∧
        ∀ x ∈ orden.outputs, ∀ y ∈ sola.outputs,
          EsVariante configuration (some codificacion) b x →
          EsVariante configuration (some codificacion) b y → opcionesVideo x = opcionesVideo y

variable {configuration : Config} {programa : Programa} {encoding : Option Codificacion}

/-! ## The main variant is one output -/

theorem target_eq_destino (x : Salida) : x.target = (plantilla x).destino := rfl

theorem esVariante_salidaVideo (b : String) :
    EsVariante configuration encoding b (salidaVideo configuration programa encoding b) := by
  rw [EsVariante, salidaVideo, argumentosVideo, salidaDe_HLS]

/-- A track with a directory of its own is no main variant: a bitrate
starts with a digit. -/
theorem not_esVariante_of_carpeta {b : String} (hb : EsBitrate b) {x : Salida} {t : Pista}
    (hx : plantilla x = t.plantilla configuration programa encoding) (ht : t.carpeta ≠ "") :
    ¬ EsVariante configuration encoding b x := by
  have hcarpeta : ∃ c cs, t.carpeta.toList = '/' :: c :: cs ∧ c.isDigit = false := by
    cases t with
    | video | defecto => exact absurd rfl ht
    | quemado | teletexto => exact ⟨'s', _, by simp [Pista.carpeta]; rfl, by decide⟩
    | audio => exact ⟨'a', _, by simp [Pista.carpeta]; rfl, by decide⟩
  obtain ⟨c, cs, hc, hdig⟩ := hcarpeta
  obtain ⟨d, ds, hd, hdig'⟩ := exists_cons_of_esBitrate hb
  intro h
  rw [EsVariante, target_eq_destino, hx, Pista.destino_plantilla, ← String.toList_inj] at h
  simp only [String.toList_append, List.append_assoc, List.append_cancel_left_eq, hc, hd,
    String.reduceToList, List.cons_append, List.nil_append, List.cons.injEq, true_and] at h
  rw [h.1, hdig'] at hdig
  cases hdig

theorem not_esVariante_quemada {b b' : String} (hb : EsBitrate b) {x : Salida}
    (hx : x ∈ salidasQuemadas configuration programa encoding b') :
    ¬ EsVariante configuration encoding b x := by
  have hmem := List.mem_map_of_mem (f := plantilla) hx
  rw [map_plantilla_salidasQuemadas, pistasQuemadas] at hmem
  split at hmem
  · cases hmem
  · obtain ⟨t, ht, heq⟩ := List.mem_map.1 hmem
    obtain ⟨e, -, rfl⟩ := List.mem_map.1 ht
    exact not_esVariante_of_carpeta hb heq.symm (by simp [Pista.carpeta])

theorem not_esVariante_audio {b : String} (hb : EsBitrate b) {x : Salida}
    (hx : x ∈ salidasAudio configuration programa encoding) :
    ¬ EsVariante configuration encoding b x := by
  obtain ⟨e, -, rfl⟩ := List.mem_map.1 hx
  exact not_esVariante_of_carpeta hb (plantilla_argumentosAudio e) (by simp [Pista.carpeta])

theorem not_esVariante_teletexto {b : String} (hb : EsBitrate b) {x : Salida}
    (hx : x ∈ salidasTeletexto configuration programa encoding) :
    ¬ EsVariante configuration encoding b x := by
  unfold salidasTeletexto at hx
  split at hx
  · obtain ⟨e, -, rfl⟩ := List.mem_map.1 hx
    exact not_esVariante_of_carpeta hb (plantilla_argumentosTeletexto _ e) (by simp [Pista.carpeta])
  · cases hx

/-! ## The first output alone has options of video -/

/-- An option that is none of video. -/
def noVideo (o : Opcion) : Bool := !esOpcionVideo o

theorem opcionesVideo_salidaVideo (b : String) :
    opcionesVideo (salidaVideo configuration programa encoding b) = [] := by
  have hmap : Admite noVideo ["-map", getMapId programa.video, "-b:v", b ++ "k",
      "-maxrate", ((calcularBitrateMaximo b).getD "") ++ "k", "-an", "-sn"] := by
    simp +decide [Admite, Grammar.options, Grammar.legal, ffmpeg, noVideo, esOpcionVideo]
  have hhls (seg enc : String) : Admite noVideo (argumentosHLS configuration programa seg enc) := by
    refine ((Admite.append ?_ ?_).append ?_).append ?_
    · simp +decide [Admite, Grammar.options, Grammar.legal, ffmpeg, noVideo, esOpcionVideo]
    · split <;>
        simp +decide [Admite, Grammar.options, Grammar.legal, ffmpeg, noVideo, esOpcionVideo]
    · split <;>
        simp +decide [Admite, Grammar.options, Grammar.legal, ffmpeg, noVideo, esOpcionVideo]
    · decide
  rw [opcionesVideo, salidaVideo, argumentosVideo, salidaDe_HLS, List.filter_eq_nil_iff]
  intro o ho
  have := List.all_eq_true.1 (hmap.append (hhls _ _)).all o ho
  simpa [noVideo] using this

/-- The codec stands among the options built before the loop. -/
theorem exists_codec_cabecera (configuration : Config) (programa : Programa) (codificacion : Codificacion) :
    ∃ o ∈ ffmpeg.options (cabeceraVideo configuration programa (some codificacion)),
      o.flag = "-c:v" := by
  have hcodec (resto : List String) : ∃ o ∈ ffmpeg.options ((if configuration.nvenc then
      ["-map_chapters", "-1", "-c:v", codificacion.nombre ++ "_nvenc", "-preset", "llhp",
        "-zerolatency", "1", "-cbr", "1", "-rc", "cbr", "-rc-lookahead", "50",
        "-profile:v", "baseline"]
      else ["-map_chapters", "-1", "-c:v", "libx264", "-preset", "ultrafast",
        "-tune", "zerolatency", "-profile:v", "baseline", "-level:v", "3.2"]) ++ resto),
      o.flag = "-c:v" := by
    split <;> simp +decide [Grammar.options, ffmpeg]
  have hmov : Legales (if contiene configuration.input "rtp" = false ∧
      contiene configuration.input "udp" = false ∧ contiene configuration.input "rtsp" = true then
      ["-movflags", "frag_keyframe+empty_moov"] else []) := by
    split <;> decide
  simp only [cabeceraVideo, List.append_assoc]
  rw [options_append hmov]
  obtain ⟨o, ho, hflag⟩ := hcodec _
  exact ⟨o, List.mem_append_right _ ho, hflag⟩

/-! ## When the variants are encoded alike -/

/-- The outputs of the command for a single bitrate. -/
theorem salidas_single (nombre b : String) :
    salidas configuration programa (some ⟨nombre, [b]⟩) =
      ⟨ffmpeg.options (cabeceraVideo configuration programa (some ⟨nombre, [b]⟩)) ++
          (salidaVideo configuration programa (some ⟨nombre, [b]⟩) b).opts,
        (salidaVideo configuration programa (some ⟨nombre, [b]⟩) b).target⟩ ::
        (salidasQuemadas configuration programa (some ⟨nombre, [b]⟩) b ++
          salidasAudio configuration programa (some ⟨nombre, [b]⟩) ++
          salidasTeletexto configuration programa (some ⟨nombre, [b]⟩)) := by
  simp [salidas, salidasVideo, bitratesDe, prepend]

/-- In the command for a single bitrate the first output is the main
variant, and no other is. -/
theorem eq_of_esVariante_single {nombre b : String} (hb : EsBitrate b) {x : Salida}
    (hx : x ∈ salidas configuration programa (some ⟨nombre, [b]⟩))
    (hv : EsVariante configuration (some ⟨nombre, [b]⟩) b x) :
    x = ⟨ffmpeg.options (cabeceraVideo configuration programa (some ⟨nombre, [b]⟩)) ++
        (salidaVideo configuration programa (some ⟨nombre, [b]⟩) b).opts,
      (salidaVideo configuration programa (some ⟨nombre, [b]⟩) b).target⟩ := by
  rw [salidas_single, List.mem_cons, List.mem_append, List.mem_append] at hx
  obtain hx | (hx | hx) | hx := hx
  · exact hx
  · exact absurd hv (not_esVariante_quemada hb hx)
  · exact absurd hv (not_esVariante_audio hb hx)
  · exact absurd hv (not_esVariante_teletexto hb hx)

theorem esVariante_single (nombre b : String) : ∃ x ∈ salidas configuration programa
    (some ⟨nombre, [b]⟩), EsVariante configuration (some ⟨nombre, [b]⟩) b x := by
  rw [salidas_single]
  exact ⟨_, List.mem_cons_self, esVariante_salidaVideo b⟩

/-- **A second bitrate has none of the options of video.** -/
theorem not_variantesIguales_of_two {nombre b b' : String} {bs : List String} :
    ¬ VariantesIguales configuration programa ⟨nombre, b :: b' :: bs⟩ := by
  rintro ⟨orden, horden, h⟩
  obtain ⟨-, sola, hsola, -, higuales⟩ := h b' (by simp)
  obtain ⟨-, rfl⟩ := comandoFfmpeg_eq_some_iff.1 horden
  obtain ⟨-, rfl⟩ := comandoFfmpeg_eq_some_iff.1 hsola
  have hx : salidaVideo configuration programa (some ⟨nombre, b :: b' :: bs⟩) b' ∈
      salidas configuration programa (some ⟨nombre, b :: b' :: bs⟩) := by
    simp [salidas, salidasVideo, bitratesDe, prepend]
  have hy := List.mem_cons_self (a := (⟨ffmpeg.options (cabeceraVideo configuration programa
      (some ⟨nombre, [b']⟩)) ++ (salidaVideo configuration programa (some ⟨nombre, [b']⟩) b').opts,
    (salidaVideo configuration programa (some ⟨nombre, [b']⟩) b').target⟩ : Salida))
    (l := salidasQuemadas configuration programa (some ⟨nombre, [b']⟩) b' ++
          salidasAudio configuration programa (some ⟨nombre, [b']⟩) ++
          salidasTeletexto configuration programa (some ⟨nombre, [b']⟩))
  rw [← salidas_single] at hy
  have heq := higuales _ hx _ hy (esVariante_salidaVideo b') (esVariante_salidaVideo b')
  obtain ⟨o, ho, hflag⟩ := exists_codec_cabecera configuration programa ⟨nombre, [b']⟩
  rw [opcionesVideo_salidaVideo, opcionesVideo, List.filter_append, eq_comm,
    List.append_eq_nil_iff, List.filter_eq_nil_iff] at heq
  exact heq.1 o ho (by simp [esOpcionVideo, hflag])

/-- **The variants of an encoding are encoded alike exactly when it has a
single bitrate**, as long as the command is built at all. -/
theorem variantesIguales_iff (configuration : Config) (programa : Programa)
    (codificacion : Codificacion) (hbitrates : ∀ b ∈ codificacion.bitrates, EsBitrate b)
    (hn : codificacion.bitrates ≠ []) :
    VariantesIguales configuration programa codificacion ↔
      codificacion.bitrates.length = 1 ∧
        (teletextSubtitle programa = true → programa.audio ≠ []) := by
  obtain ⟨nombre, bitrates⟩ := codificacion
  obtain ⟨b, bs, rfl⟩ := List.exists_cons_of_ne_nil hn
  constructor
  · intro h
    obtain ⟨orden, horden, -⟩ := id h
    refine ⟨?_, (comandoFfmpeg_eq_some_iff.1 horden).1.2⟩
    cases bs with
    | nil => rfl
    | cons b' bs => exact absurd h not_variantesIguales_of_two
  · rintro ⟨hlen, haudio⟩
    obtain rfl : bs = [] := by simpa using hlen
    have hb : EsBitrate b := hbitrates b List.mem_cons_self
    have hcomando : comandoFfmpeg configuration programa (some ⟨nombre, [b]⟩) =
        some (comando configuration programa (some ⟨nombre, [b]⟩)) :=
      comandoFfmpeg_eq ⟨fun b' hb' => calcularBitrateMaximo_isSome (hbitrates b' hb').1, haudio⟩
    refine ⟨_, hcomando, fun b' hb' => ?_⟩
    obtain rfl := List.mem_singleton.1 hb'
    refine ⟨esVariante_single nombre b', _, hcomando, esVariante_single nombre b', ?_⟩
    intro x hx y hy hvx hvy
    rw [eq_of_esVariante_single hb hx hvx, eq_of_esVariante_single hb hy hvy]

theorem variantesIguales_una : VariantesIguales
    .minima default ⟨"h264", ["2800"]⟩ :=
  (variantesIguales_iff _ _ _ (by decide) (by decide)).2 (by decide)

/-- Two bitrates, and the second variant has no codec. -/
theorem variantesIguales_dos : ¬ VariantesIguales
    .minima default
    ⟨"h264", ["2800", "1400"]⟩ :=
  not_variantesIguales_of_two

end HlsXcoder
