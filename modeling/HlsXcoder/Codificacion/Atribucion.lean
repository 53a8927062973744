import HlsXcoder.Codificacion.Volcado

/-!
# The streams of each program

Below the header of a program the report lists its streams, and after the
last program, under `No Program`, the streams of none. The line loop puts
these into the last program, too, and misses a stream whose tag is not
made of three-letter codes. From what each program holds after the loop
it is read off when every program holds its own streams and no others
(`atribucion_iff`).
-/

namespace HlsXcoder

open Regexp

/-- A program holds a stream, in one of its lists or as its video. -/
def Programa.Contiene (programa : Programa) (clave : String × String) : Prop :=
  clave ∈ programa.audio.map Stream.clave ∨ clave ∈ programa.subtitulos.map Stream.clave ∨
    programa.video.clave = clave

/-- **A program holds its own streams**: all of its audio streams in the
order they were printed, no subtitles but its own, and its last video. -/
structure Suyos (flujos : List Flujo) (programa : Programa) : Prop where
  audio : programa.audio.map Stream.clave =
    (flujos.filter fun f => f.tipo = "Audio").map Flujo.clave
  subtitulos : ∀ s ∈ programa.subtitulos, ∃ f ∈ flujos, f.tipo = "Subtitle" ∧ s.clave = f.clave
  video : programa.video.clave =
    ((flujos.filter fun f => f.tipo = "Video").getLast?).elim ("", "") Flujo.clave

/-- **Every stream is in its program**: each program listed holds its own,
and none holds a stream that belongs to no program. -/
structure Volcado.Atribuido (v : Volcado) (l : Lectura) : Prop where
  propios : ∀ e ∈ v.programas, ∃ P, l.programas (toString e.id) = some P ∧ Suyos e.flujos P
  sueltos : v.programas ≠ [] → ∀ id P, l.programas id = some P →
    ∀ f ∈ v.sueltos, ¬ P.Contiene f.clave

/-- **Streams read as what they are**, where it counts: the audio streams
and the last video of the program are read as such and no other stream is,
a stream wrongly read as a subtitle repeats a language, and what is read
of the streams of others is at most a subtitle that repeats one, too. -/
structure BienLeidos (configuration : Config) (propios ajenos : List Flujo) : Prop where
  audio : ∀ f ∈ propios, f.tipoLeido configuration = some "Audio" ↔ f.tipo = "Audio"
  video : (propios.filter fun f => f.tipoLeido configuration = some "Video").getLast? =
    (propios.filter fun f => f.tipo = "Video").getLast?
  subtitulos : ∀ antes f despues, propios = antes ++ f :: despues →
    f.tipoLeido configuration = some "Subtitle" → f.tipo = "Subtitle" ∨
      ∃ g ∈ antes, g.tipoLeido configuration = some "Subtitle" ∧
        g.idioma configuration = f.idioma configuration
  ajenos : ∀ f ∈ ajenos, f.tipoLeido configuration ≠ some "Audio" ∧
    f.tipoLeido configuration ≠ some "Video" ∧
    (f.tipoLeido configuration = some "Subtitle" →
      ∃ g ∈ propios, g.tipoLeido configuration = some "Subtitle" ∧
        g.idioma configuration = f.idioma configuration)

section Propios

variable {configuration : Config} {propios ajenos : List Flujo} {P : Programa}

theorem indice_of_clave {f g : Flujo} (h : f.clave = g.clave) : f.indice = g.indice :=
  toString_injective (congrArg Prod.fst h)

theorem clave_ne {f : Flujo} : f.clave ≠ ("", "") := fun h =>
  toString_ne_empty f.indice (congrArg Prod.fst h)

/-- The key of a stream, or none, says which stream it is. -/
theorem elim_clave_inj {o o' : Option Flujo}
    (hinj : ∀ f ∈ o, ∀ g ∈ o', f.clave = g.clave → f = g)
    (h : o.elim ("", "") Flujo.clave = o'.elim ("", "") Flujo.clave) : o = o' := by
  cases o with
  | none =>
    cases o' with
    | none => rfl
    | some g => exact absurd h.symm clave_ne
  | some f =>
    cases o' with
    | none => exact absurd h clave_ne
    | some g => rw [hinj f rfl g rfl h]

/-- The subtitles a program holds are those kept. -/
theorem Recoge.mem_subtitulos (h : Recoge configuration (propios ++ ajenos) P) {clave : String × String} :
    clave ∈ P.subtitulos.map Stream.clave ↔ ∃ f ∈ Firsts.firsts
      (fun f : Flujo => f.tipoLeido configuration = some "Subtitle") (Flujo.idioma configuration)
      (propios ++ ajenos), f.clave = clave := by
  have hclaves := congrArg (List.map Prod.fst) h.subtitulos
  rw [List.map_map, List.map_map] at hclaves
  rw [show P.subtitulos.map Stream.clave = _ from hclaves, List.mem_map]
  rfl

/-- **What a stream is read as**, where its line is printed as the probe
prints them: as what it is if its tag is legible, else as nothing. -/
theorem tipoLeido_corriente (hstreams : configuration.streams = []) {f : Flujo} (hf : f.Valido)
    (hc : f.Corriente) (hservicio : findStringSubmatch serviceName f.linea = none) :
    (f.TagLegible → f.tipoLeido configuration = some f.tipo) ∧
      (¬ f.TagLegible → f.tipoLeido configuration = none) := by
  have hclase : f.tipoLeido configuration =
      (streamReg.find f.linea.toList).map fun m => String.ofList (m.group 4) := by
    rw [Flujo.tipoLeido, Flujo.leido, clasificar, hf.progReg, hservicio, hstreams,
      findStringSubmatch]
    cases streamReg.find f.linea.toList <;> rfl
  rw [hclase, ← find_flujo_isSome_iff hf hc]
  cases hfind : streamReg.find f.linea.toList with
  | none => simp
  | some m => simp [(tipo_flujo hf hc hfind).2]

theorem filter_tipoLeido_eq_nil {tipo : String}
    (h : ∀ f ∈ ajenos, f.tipoLeido configuration ≠ some tipo) :
    (ajenos.filter fun f => f.tipoLeido configuration = some tipo) = [] := by
  rw [List.filter_eq_nil_iff]
  intro f hf
  rw [decide_eq_true_eq]
  exact h f hf

/-- The two ways a stream may stand in what is read in a program. -/
theorem split_leidos {antes despues : List Flujo} {f : Flujo}
    (h : propios ++ ajenos = antes ++ f :: despues) :
    (∃ medio, propios = antes ++ f :: medio) ∨ (f ∈ ajenos ∧ propios ⊆ antes) := by
  obtain ⟨medio, rfl, hajenos⟩ | ⟨medio, hpropios, hmedio⟩ := List.append_eq_append_iff.1 h
  · exact .inr ⟨by simp [hajenos], List.subset_append_left _ _⟩
  · cases medio with
    | nil =>
      rw [List.nil_append] at hmedio
      exact .inr ⟨by simp [← hmedio], by simp [hpropios]⟩
    | cons g medio =>
      obtain ⟨rfl, -⟩ := List.cons.inj hmedio
      exact .inl ⟨medio, hpropios⟩

section Leidos

variable (h : Recoge configuration (propios ++ ajenos) P)

include h

/-- The keys of what is read as audio are those the program holds. -/
theorem Recoge.clave_mem_audio {f : Flujo} (hf : f ∈ propios ++ ajenos)
    (hleido : f.tipoLeido configuration = some "Audio") : f.clave ∈ P.audio.map Stream.clave := by
  rw [h.audio]
  exact List.mem_map_of_mem (List.mem_filter.2 ⟨hf, decide_eq_true hleido⟩)

/-- Where the program holds no stream of others, none of them is read as a
video: the last video read would be one of theirs. -/
theorem Recoge.tipoLeido_ne_video (hno : ∀ f ∈ ajenos, ¬ P.Contiene f.clave) :
    ∀ f ∈ ajenos, f.tipoLeido configuration ≠ some "Video" := by
  intro f hf hleido
  have hne : ajenos.filter (fun f => f.tipoLeido configuration = some "Video") ≠ [] :=
    List.ne_nil_of_mem (List.mem_filter.2 ⟨hf, decide_eq_true hleido⟩)
  have hlast := List.getLast?_eq_some_getLast hne
  have hv := h.video
  rw [List.filter_append, List.getLast?_append, hlast] at hv
  exact hno _ (List.mem_filter.1 (List.getLast_mem hne)).1 (.inr (.inr hv))

/-- A stream read as a subtitle is held, or one before has its language. -/
theorem Recoge.mem_subtitulos_or {antes despues : List Flujo} {f : Flujo}
    (heq : propios ++ ajenos = antes ++ f :: despues)
    (hleido : f.tipoLeido configuration = some "Subtitle") :
    f.clave ∈ P.subtitulos.map Stream.clave ∨ ∃ g ∈ antes,
      g.tipoLeido configuration = some "Subtitle" ∧
        g.idioma configuration = f.idioma configuration := by
  by_cases hrepetido : ∃ g ∈ antes, g.tipoLeido configuration = some "Subtitle" ∧
      g.idioma configuration = f.idioma configuration
  · exact .inr hrepetido
  · exact .inl (h.mem_subtitulos.2 ⟨f, Firsts.mem_firsts.2 ⟨antes, despues, heq,
      decide_eq_true hleido, fun g hg hg' hid => hrepetido ⟨g, hg, of_decide_eq_true hg', hid⟩⟩, rfl⟩)

/-- The language of a stream read as a subtitle is that of one the program
holds, and where it holds none of others, of one of its own. -/
theorem Recoge.exists_idioma (hno : ∀ f ∈ ajenos, ¬ P.Contiene f.clave) {f : Flujo}
    (hf : f ∈ propios ++ ajenos) (hleido : f.tipoLeido configuration = some "Subtitle") :
    ∃ g ∈ propios, g.tipoLeido configuration = some "Subtitle" ∧
      g.idioma configuration = f.idioma configuration := by
  have hidioma : f.idioma configuration ∈ (Firsts.firsts
      (fun f : Flujo => f.tipoLeido configuration = some "Subtitle") (Flujo.idioma configuration)
      (propios ++ ajenos)).map (Flujo.idioma configuration) :=
    Firsts.mem_map_firsts.2 ⟨f, hf, decide_eq_true hleido, rfl⟩
  obtain ⟨g, hg, hid⟩ := List.mem_map.1 hidioma
  obtain ⟨antes, despues, heq, hgleido, -⟩ := Firsts.mem_firsts.1 hg
  have hgmem : g ∈ propios ++ ajenos := by simp [heq]
  obtain hgp | hga := List.mem_append.1 hgmem
  · exact ⟨g, hgp, of_decide_eq_true hgleido, hid⟩
  · exact absurd (.inr (.inl (h.mem_subtitulos.2 ⟨g, hg, rfl⟩))) (hno g hga)

/-- **A program that holds its own streams and none of others** has read
them well. -/
theorem bienLeidos_of_suyos (hpropios : (propios.map Flujo.indice).Nodup)
    (hajenos : ∀ f ∈ propios, ∀ g ∈ ajenos, f.indice ≠ g.indice) (hs : Suyos propios P)
    (hno : ∀ f ∈ ajenos, ¬ P.Contiene f.clave) : BienLeidos configuration propios ajenos := by
  -- the key of a stream of the program says which of its streams it is
  have hinj : ∀ f ∈ propios, ∀ g ∈ propios, f.clave = g.clave → f = g := fun f hf g hg heq =>
    List.inj_on_of_nodup_map hpropios hf hg (indice_of_clave heq)
  have hvideo := h.tipoLeido_ne_video hno
  refine ⟨fun f hf => ⟨fun hleido => ?_, fun htipo => ?_⟩, ?_, fun antes f despues heq hleido => ?_,
    fun f hf => ⟨fun hleido => ?_, hvideo f hf,
      h.exists_idioma hno (List.mem_append_right _ hf)⟩⟩
  · have hmem := h.clave_mem_audio (List.mem_append_left _ hf) hleido
    rw [hs.audio] at hmem
    obtain ⟨g, hg, heq⟩ := List.mem_map.1 hmem
    obtain ⟨hg, htipo⟩ := List.mem_filter.1 hg
    exact hinj g hg f hf heq ▸ of_decide_eq_true htipo
  · have hmem : f.clave ∈ P.audio.map Stream.clave := by
      rw [hs.audio]
      exact List.mem_map_of_mem (List.mem_filter.2 ⟨hf, decide_eq_true htipo⟩)
    rw [h.audio] at hmem
    obtain ⟨g, hg, heq⟩ := List.mem_map.1 hmem
    obtain ⟨hg, hleido⟩ := List.mem_filter.1 hg
    obtain hg | hg := List.mem_append.1 hg
    · exact hinj g hg f hf heq ▸ of_decide_eq_true hleido
    · exact absurd (indice_of_clave heq.symm) (hajenos f hf g hg)
  · have hv := h.video
    rw [List.filter_append, filter_tipoLeido_eq_nil hvideo, List.append_nil, hs.video] at hv
    refine (elim_clave_inj (fun f hf g hg heq => hinj f ?_ g ?_ heq) hv).symm
    · exact (List.mem_filter.1 (List.mem_of_getLast? hf)).1
    · exact (List.mem_filter.1 (List.mem_of_getLast? hg)).1
  · have hpartes : propios ++ ajenos = antes ++ f :: (despues ++ ajenos) := by simp [heq]
    refine (h.mem_subtitulos_or hpartes hleido).imp_left fun hmem => ?_
    obtain ⟨s, hsub, hclave⟩ := List.mem_map.1 hmem
    obtain ⟨g, hg, htipo, hgclave⟩ := hs.subtitulos s hsub
    have hf : f ∈ propios := by simp [heq]
    exact hinj g hg f hf (hgclave.symm.trans hclave) ▸ htipo
  · exact hno f hf (.inl (h.clave_mem_audio (List.mem_append_right _ hf) hleido))

end Leidos

theorem suyos_of_bienLeidos (h : Recoge configuration (propios ++ ajenos) P)
    (hb : BienLeidos configuration propios ajenos) : Suyos propios P := by
  refine ⟨?_, fun s hsub => ?_, ?_⟩
  · rw [h.audio, List.filter_append, filter_tipoLeido_eq_nil fun f hf => (hb.ajenos f hf).1,
      List.append_nil]
    exact congrArg _ (List.filter_congr fun f hf => by simp [hb.audio f hf])
  · obtain ⟨f, hf, hclave⟩ := h.mem_subtitulos.1 (List.mem_map_of_mem hsub)
    obtain ⟨antes, despues, heq, hleido, hprimero⟩ := Firsts.mem_firsts.1 hf
    have hleido := of_decide_eq_true hleido
    obtain ⟨medio, hpropios⟩ | ⟨hf', hantes⟩ := split_leidos heq
    · refine ⟨f, by simp [hpropios], ?_, hclave.symm⟩
      obtain htipo | ⟨g, hg, hgleido, hid⟩ := hb.subtitulos antes f medio hpropios hleido
      · exact htipo
      · exact absurd hid (hprimero g hg (decide_eq_true hgleido))
    · -- a subtitle of the others repeats a language, so it was not kept
      obtain ⟨g, hg, hgleido, hid⟩ := (hb.ajenos f hf').2.2 hleido
      exact absurd hid (hprimero g (hantes hg) (decide_eq_true hgleido))
  · rw [h.video, List.filter_append, filter_tipoLeido_eq_nil fun f hf => (hb.ajenos f hf).2.1,
      List.append_nil, hb.video]

/-- A program that holds its own streams holds none of others. -/
theorem Suyos.not_contiene (hs : Suyos propios P)
    (hajenos : ∀ f ∈ propios, ∀ g ∈ ajenos, f.indice ≠ g.indice) :
    ∀ g ∈ ajenos, ¬ P.Contiene g.clave := by
  rintro g hg (hmem | hmem | hmem)
  · rw [hs.audio] at hmem
    obtain ⟨f, hf, heq⟩ := List.mem_map.1 hmem
    exact hajenos f (List.mem_filter.1 hf).1 g hg (indice_of_clave heq)
  · obtain ⟨s, hsub, heq⟩ := List.mem_map.1 hmem
    obtain ⟨f, hf, -, hclave⟩ := hs.subtitulos s hsub
    exact hajenos f hf g hg (indice_of_clave (hclave.symm.trans heq))
  · rw [hs.video] at hmem
    cases hlast : (propios.filter fun f => f.tipo = "Video").getLast? with
    | none => exact clave_ne (by rw [← hmem, hlast]; rfl)
    | some f =>
      rw [hlast] at hmem
      exact hajenos f (List.mem_filter.1 (List.mem_of_getLast? hlast)).1 g hg (indice_of_clave hmem)

theorem getLast?_filter {α : Type*} {p : α → Bool} {l : List α} (h : ∀ a ∈ l.getLast?, p a = true) :
    (l.filter p).getLast? = l.getLast? := by
  obtain rfl | ⟨l, a, rfl⟩ := List.eq_nil_or_concat l
  · rfl
  · have ha : p a = true := h a (by simp)
    simp [List.filter_append, ha]

section Corrientes

variable (hstreams : configuration.streams = [])
  (hcorriente : ∀ f ∈ propios, f.Valido ∧ f.Corriente ∧ findStringSubmatch serviceName f.linea = none)

include hstreams hcorriente

/-- A stream is read as what it is where its tag is legible. -/
theorem tipoLeido_eq_some_iff {f : Flujo} (hf : f ∈ propios) {tipo : String} :
    f.tipoLeido configuration = some tipo ↔ f.TagLegible ∧ f.tipo = tipo := by
  obtain ⟨hv, hc, hservicio⟩ := hcorriente f hf
  obtain ⟨hsi, hno⟩ := tipoLeido_corriente hstreams hv hc hservicio
  by_cases htag : f.TagLegible
  · simp [hsi htag, htag]
  · simp [hno htag, htag]

/-- The last video is the last one read where its tag is legible. -/
theorem getLast?_video_leido
    (hvideo : ∀ f ∈ (propios.filter fun f => f.tipo = "Video").getLast?, f.TagLegible) :
    (propios.filter fun f => f.tipoLeido configuration = some "Video").getLast? =
      (propios.filter fun f => f.tipo = "Video").getLast? := by
  have hleidos : (propios.filter fun f => f.tipoLeido configuration = some "Video") =
      (propios.filter fun f => f.tipo = "Video").filter
        fun f => f.tipoLeido configuration = some "Video" := by
    rw [List.filter_filter]
    refine List.filter_congr fun f hf => ?_
    have htipo : f.tipoLeido configuration = some "Video" ↔ f.TagLegible ∧ f.tipo = "Video" :=
      tipoLeido_eq_some_iff hstreams hcorriente hf
    by_cases hv : f.tipo = "Video" <;> simp [hv, htipo]
  rw [hleidos]
  refine getLast?_filter fun f hf => decide_eq_true ?_
  obtain ⟨hmem, htipo⟩ := List.mem_filter.1 (List.mem_of_getLast? hf)
  exact (tipoLeido_eq_some_iff hstreams hcorriente hmem).2 ⟨hvideo f hf, of_decide_eq_true htipo⟩

end Corrientes

/-- **Streams printed as the probe prints them** are read as what they are
exactly where the tags of the audio streams and of the last video are
legible and the streams of others bring neither audio nor video nor a
language that is new. -/
theorem bienLeidos_corrientes_iff (hstreams : configuration.streams = [])
    (hcorriente : ∀ f ∈ propios ++ ajenos, f.Valido ∧ f.Corriente ∧
      findStringSubmatch serviceName f.linea = none) :
    BienLeidos configuration propios ajenos ↔
      (∀ f ∈ propios, f.tipo = "Audio" → f.TagLegible) ∧
        (∀ f ∈ (propios.filter fun f => f.tipo = "Video").getLast?, f.TagLegible) ∧
        ∀ f ∈ ajenos, f.TagLegible → f.tipo ≠ "Audio" ∧ f.tipo ≠ "Video" ∧
          (f.tipo = "Subtitle" → ∃ g ∈ propios, g.TagLegible ∧ g.tipo = "Subtitle" ∧
            g.idioma configuration = f.idioma configuration) := by
  have hleido : ∀ f ∈ propios ++ ajenos, ∀ tipo,
      f.tipoLeido configuration = some tipo ↔ f.TagLegible ∧ f.tipo = tipo :=
    fun f hf tipo => tipoLeido_eq_some_iff hstreams hcorriente hf
  have hp : ∀ f ∈ propios, f ∈ propios ++ ajenos := fun f hf => List.mem_append_left _ hf
  have ha : ∀ f ∈ ajenos, f ∈ propios ++ ajenos := fun f hf => List.mem_append_right _ hf
  constructor
  · intro hb
    refine ⟨fun f hf htipo => ((hleido f (hp f hf) _).1 ((hb.audio f hf).2 htipo)).1,
      fun f hf => ?_, fun f hf htag => ⟨fun htipo => ?_, fun htipo => ?_, fun htipo => ?_⟩⟩
    · have hlast := hb.video ▸ hf
      obtain ⟨hmem, hvideo⟩ := List.mem_filter.1 (List.mem_of_getLast? hlast)
      exact ((hleido f (hp f hmem) _).1 (of_decide_eq_true hvideo)).1
    · exact (hb.ajenos f hf).1 ((hleido f (ha f hf) _).2 ⟨htag, htipo⟩)
    · exact (hb.ajenos f hf).2.1 ((hleido f (ha f hf) _).2 ⟨htag, htipo⟩)
    · obtain ⟨g, hg, hgleido, hid⟩ := (hb.ajenos f hf).2.2 ((hleido f (ha f hf) _).2 ⟨htag, htipo⟩)
      obtain ⟨hgtag, hgtipo⟩ := (hleido g (hp g hg) _).1 hgleido
      exact ⟨g, hg, hgtag, hgtipo, hid⟩
  · rintro ⟨haudio, hvideo, hajenos⟩
    refine ⟨fun f hf => ?_, ?_, fun antes f despues heq hf => ?_, fun f hf => ⟨fun h => ?_,
      fun h => ?_, fun h => ?_⟩⟩
    · rw [hleido f (hp f hf)]
      exact ⟨And.right, fun htipo => ⟨haudio f hf htipo, htipo⟩⟩
    · exact getLast?_video_leido hstreams (fun f hf => hcorriente f (hp f hf)) hvideo
    · exact .inl ((hleido f (hp f (by simp [heq])) _).1 hf).2
    · obtain ⟨htag, htipo⟩ := (hleido f (ha f hf) _).1 h
      exact (hajenos f hf htag).1 htipo
    · obtain ⟨htag, htipo⟩ := (hleido f (ha f hf) _).1 h
      exact (hajenos f hf htag).2.1 htipo
    · obtain ⟨htag, htipo⟩ := (hleido f (ha f hf) _).1 h
      obtain ⟨g, hg, hgtag, hgtipo, hid⟩ := (hajenos f hf htag).2.2 htipo
      exact ⟨g, hg, (hleido g (hp g hg) _).2 ⟨hgtag, hgtipo⟩, hid⟩

end Propios

theorem legible_of_clasificar {configuration : Config} {linea : String}
    (h : ∀ stream, clasificar configuration linea = .stream stream → stream 4 ≠ "Video") :
    LineaLegible configuration linea :=
  fun stream hs hvideo => absurd hvideo (h stream hs)

/-- **The lines of a report are legible where its streams are.** -/
theorem Volcado.Valido.legible {v : Volcado} (hv : v.Valido) {configuration : Config}
    (hstreams : configuration.streams = [])
    (hpropios : ∀ e ∈ v.programas, ∀ f ∈ e.flujos, LineaLegible configuration f.linea)
    (hsueltos : ∀ f ∈ v.sueltos, LineaLegible configuration f.linea) :
    ∀ linea ∈ v.informe.lineas, LineaLegible configuration linea := by
  have hneutra : ∀ linea, Neutra linea → LineaLegible configuration linea := fun linea hn =>
    legible_of_clasificar fun stream hs => by
      have hs := findStringSubmatch_of_clasificar hs
      rw [hn.2] at hs
      cases hs
  have hflujos : ∀ fs : List Flujo, (∀ f ∈ fs, f.Valido) →
      (∀ f ∈ fs, LineaLegible configuration f.linea) →
      ∀ linea ∈ fs.flatMap Flujo.lineas, LineaLegible configuration linea := by
    intro fs hval hleg linea hl
    obtain ⟨f, hf, hl⟩ := List.mem_flatMap.1 hl
    obtain rfl | hl := List.mem_cons.1 hl
    · exact hleg f hf
    · exact hneutra linea ((hval f hf).detalle linea hl)
  intro linea hl
  rw [Volcado.lineas_eq] at hl
  simp only [List.mem_append, List.mem_flatMap (b := linea) (l := v.programas), List.mem_cons,
    Emision.seccion] at hl
  obtain hl | ⟨e, he, rfl | hl | hl⟩ | hl | hl | hl := hl
  · exact hneutra linea (hv.preambulo linea hl)
  · refine legible_of_clasificar fun stream hs => ?_
    rw [clasificar_cabecera hstreams] at hs
    cases hs
  · exact hneutra linea (hv.metadatos e he linea hl)
  · exact hflujos e.flujos (hv.flujos e he) (hpropios e he) linea hl
  · exact hneutra linea (v.neutra_noProgram linea hl)
  · exact hflujos v.sueltos hv.sueltos hsueltos linea hl
  · exact hneutra linea (hv.cola linea hl)

/-- **Every stream is in its program exactly where** every line is legible
and the streams read in each program are read as what they are. -/
theorem atribucion_iff {v : Volcado} (hv : v.Valido) {configuration : Config}
    (hc : configuration.SinFiltros) (previo : Programa) :
    (∃ programa l, leerLineas configuration v.informe.lineas (previo, .inicial) = some (programa, l) ∧
        v.Atribuido l) ↔
      (∀ linea ∈ v.informe.lineas, LineaLegible configuration linea) ∧
        ∀ antes e despues, v.programas = antes ++ e :: despues →
          BienLeidos configuration e.flujos (if despues.isEmpty then v.sueltos else []) := by
  rw [← leerLineas_isSome_iff configuration v.informe.lineas previo]
  constructor
  · rintro ⟨programa, l, hleer, ha⟩
    refine ⟨by rw [hleer]; rfl, fun antes e despues heq => ?_⟩
    obtain ⟨P, hP, hR⟩ := (hv.leer hc hleer).2 antes e despues heq
    have he : e ∈ v.programas := by simp [heq]
    obtain ⟨P', hP', hs⟩ := ha.propios e he
    obtain rfl : P = P' := Option.some.inj (hP.symm.trans hP')
    refine bienLeidos_of_suyos hR (hv.indices e he) (fun f hf g hg => ?_) hs fun f hf => ?_
    · split at hg
      · exact hv.ajenos e he f hf g hg
      · cases hg
    · split at hf
      · exact ha.sueltos (List.ne_nil_of_mem he) _ P hP f hf
      · cases hf
  · rintro ⟨hacaba, hb⟩
    obtain ⟨⟨programa, l⟩, hleer⟩ := Option.isSome_iff_exists.1 hacaba
    obtain ⟨hlistados, hleidos⟩ := hv.leer hc hleer
    have hsuyos : ∀ e ∈ v.programas, ∃ P, l.programas (toString e.id) = some P ∧
        Suyos e.flujos P := by
      intro e he
      obtain ⟨antes, despues, heq⟩ := List.append_of_mem he
      obtain ⟨P, hP, hR⟩ := hleidos antes e despues heq
      exact ⟨P, hP, suyos_of_bienLeidos hR (hb antes e despues heq)⟩
    refine ⟨programa, l, hleer, hsuyos, fun hne id P hP => ?_⟩
    obtain ⟨e, he, rfl⟩ := hlistados hne id P hP
    obtain ⟨P', hP', hs⟩ := hsuyos e he
    obtain rfl : P = P' := Option.some.inj (hP.symm.trans hP')
    exact hs.not_contiene (hv.ajenos e he)

/-! ## A report -/

/-- A video stream, an audio stream, and the report of one program with
both, above the streams of none. -/
def flujoVideo : Flujo where
  indice := 0
  pid := some 256
  language := none
  tipo := "Video"
  descripcion := "h264, yuv420p, 25 fps, 25 tbr"
  detalle := []

def flujoAudio (indice pid : ℕ) (language : String) : Flujo where
  indice := indice
  pid := some pid
  language := some language
  tipo := "Audio"
  descripcion := "mp2, 48000 Hz, stereo"
  detalle := []

def volcado (sueltos : List Flujo) : Volcado where
  preambulo := ["Input #0, mpegts, from 'entrada.ts':"]
  programas := [⟨1, "", [], [flujoVideo, flujoAudio 1 257 "spa"]⟩]
  nbStreams := 2 + sueltos.length
  sueltos := sueltos
  cola := [""]

section Ejemplo

theorem sinFiltros_minima : Config.minima.SinFiltros := ⟨rfl, rfl, rfl, rfl, rfl⟩

theorem corriente_flujoVideo : flujoVideo.Valido ∧ flujoVideo.Corriente ∧
    findStringSubmatch serviceName flujoVideo.linea = none := by
  refine ⟨Flujo.valido_of (by decide +kernel) (by decide +kernel) (by simp [flujoVideo]), ⟨by decide,
    List.all_eq_true.1 (by decide), ⟨'h', by decide, by decide⟩, by simp [flujoVideo]⟩, ?_⟩
  rw [← Option.isNone_iff_eq_none]
  decide +kernel

theorem corriente_flujoAudio {indice pid : ℕ} {language : String}
    (hf : (flujoAudio indice pid language).Valido) (htag : ')' ∉ language.toList)
    (hservicio : (findStringSubmatch serviceName (flujoAudio indice pid language).linea).isNone = true) :
    (flujoAudio indice pid language).Valido ∧ (flujoAudio indice pid language).Corriente ∧
      findStringSubmatch serviceName (flujoAudio indice pid language).linea = none :=
  ⟨hf, ⟨by simp [flujoAudio], List.all_eq_true.1 (by simp only [flujoAudio]; decide),
    ⟨'m', by simp [flujoAudio], by decide⟩, by simpa [flujoAudio] using htag⟩,
    Option.isNone_iff_eq_none.1 hservicio⟩

theorem corriente_propio : (flujoAudio 1 257 "spa").Valido ∧ (flujoAudio 1 257 "spa").Corriente ∧
    findStringSubmatch serviceName (flujoAudio 1 257 "spa").linea = none :=
  corriente_flujoAudio (Flujo.valido_of (by decide +kernel) (by decide +kernel) (by simp [flujoAudio]))
    (by decide) (by decide +kernel)

theorem tagLegible_flujoAudio {indice pid : ℕ} {language : String}
    (h : tagReg.accepts language.toList = true) : (flujoAudio indice pid language).TagLegible := by
  simpa [Flujo.TagLegible, flujoAudio] using Re.accepts_iff.1 h

theorem tagLegible_propio : (flujoAudio 1 257 "spa").TagLegible :=
  tagLegible_flujoAudio (by decide +kernel)

theorem valido_volcado {sueltos : List Flujo} (hsueltos : ∀ f ∈ sueltos, f.Valido ∧ 1 < f.indice) :
    (volcado sueltos).Valido where
  ids := by simp [volcado]
  indices := by simp [volcado, flujoVideo, flujoAudio]
  ajenos := by
    intro e he f hf g hg
    obtain rfl := List.mem_singleton.1 he
    have hg := (hsueltos g hg).2
    simp only [List.mem_cons, List.not_mem_nil, or_false] at hf
    obtain rfl | rfl := hf <;> simp only [flujoVideo, flujoAudio] <;> omega
  preambulo := by
    simp only [volcado]
    decide +kernel
  metadatos := by simp [volcado]
  flujos := by
    simp only [volcado, List.forall_mem_singleton, List.forall_mem_cons]
    exact ⟨corriente_flujoVideo.1, corriente_propio.1⟩
  sueltos := fun f hf => (hsueltos f hf).1
  cola := by
    simp only [volcado]
    decide +kernel

theorem atribucion_completa : ∃ programa l,
    leerLineas .minima (volcado []).informe.lineas (default, .inicial) = some (programa, l) ∧
      (volcado []).Atribuido l := by
  refine (atribucion_iff (valido_volcado (by simp)) sinFiltros_minima default).2 ⟨?_, ?_⟩
  · refine (valido_volcado (by simp)).legible rfl (fun e he f hf => ?_) (by simp [volcado])
    obtain rfl := List.mem_singleton.1 he
    simp only [List.mem_cons, List.not_mem_nil, or_false] at hf
    obtain rfl | rfl := hf
    · exact fun stream _ _ _ => ⟨by decide +kernel, by decide +kernel⟩
    · refine legible_of_clasificar fun stream hs hvideo => ?_
      have hleido : (flujoAudio 1 257 "spa").tipoLeido .minima = some "Audio" :=
        (tipoLeido_corriente rfl corriente_propio.1 corriente_propio.2.1 corriente_propio.2.2).1
          tagLegible_propio
      have hstream : (flujoAudio 1 257 "spa").leido .minima = some stream := by rw [Flujo.leido, hs]
      rw [tipoLeido_eq hstream, hvideo] at hleido
      exact absurd (Option.some.inj hleido) (by decide)
  · intro antes e despues heq
    obtain ⟨rfl, rfl⟩ : e = _ ∧ despues = [] := by
      cases antes with
      | nil => exact ⟨(List.cons.inj heq).1.symm, (List.cons.inj heq).2.symm⟩
      | cons x antes => simp [volcado] at heq
    refine (bienLeidos_corrientes_iff rfl ?_).2 ⟨?_, ?_, by simp [volcado]⟩
    · simp only [volcado, List.isEmpty_nil, if_true, List.append_nil, List.forall_mem_cons]
      exact ⟨corriente_flujoVideo, corriente_propio, by simp⟩
    · simp only [List.forall_mem_cons]
      exact ⟨by simp [flujoVideo], fun _ => tagLegible_propio, by simp⟩
    · simp [flujoVideo, flujoAudio, Flujo.TagLegible]

/-- An audio stream under `No Program` is put into the last program. -/
theorem not_atribucion : ¬ ∀ (v : Volcado) (configuration : Config), v.Valido →
    configuration.SinFiltros → ∀ previo : Programa, ∃ programa l,
      leerLineas configuration v.informe.lineas (previo, .inicial) = some (programa, l) ∧
        v.Atribuido l := by
  intro h
  have hsuelto := @corriente_flujoAudio 2 258 "eng"
    (Flujo.valido_of (by decide +kernel) (by decide +kernel) (by simp [flujoAudio]))
    (by decide) (by decide +kernel)
  have hv : (volcado [flujoAudio 2 258 "eng"]).Valido :=
    valido_volcado (by simpa using ⟨hsuelto.1, by decide⟩)
  obtain ⟨programa, l, hleer, ha⟩ := h _ .minima hv sinFiltros_minima default
  obtain ⟨P, hP, hR⟩ := (hv.leer sinFiltros_minima hleer).2 [] _ [] rfl
  obtain ⟨P', hP', hs⟩ := ha.propios _ List.mem_cons_self
  obtain rfl : P = P' := Option.some.inj (hP.symm.trans hP')
  have hb := bienLeidos_of_suyos hR (hv.indices _ List.mem_cons_self)
    (hv.ajenos _ List.mem_cons_self) hs (ha.sueltos (List.cons_ne_nil _ _) _ P hP)
  -- the stream of none was read as audio
  exact (hb.ajenos _ List.mem_cons_self).1 ((tipoLeido_corriente rfl hsuelto.1 hsuelto.2.1
    hsuelto.2.2).1 (tagLegible_flujoAudio (by decide +kernel)))

end Ejemplo

end HlsXcoder
