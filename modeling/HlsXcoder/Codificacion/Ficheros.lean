import HlsXcoder.Codificacion.Muxer
import Mathlib.Data.List.Nodup
import Mathlib.Data.List.Pairwise

/-!
# The outputs of one command and their files

No two outputs of a command should write to one file. The names of the
segments and of the playlists tell the tracks of a command apart, up to
their language (`sinIdioma_of_nombra`), and the directory tells the
languages apart. What is left is `init.mp4`, whose name is the same for
every fmp4 output: the variants of two bitrates write it to the same
directory.

ffmpeg puts the variant and the number of a segment wherever the path of
the pattern asks for one, so the directories of the languages have to stay
distinct once they are in place. The languages of a probed program have no
percent sign, and are as they are.
-/

namespace HlsXcoder

open OptionGroups

/-- The directories of the languages are distinct, whatever number is put
into them. -/
def IdiomasDistintos (path : String) (es : List Stream) : Prop :=
  es.Pairwise fun e e' => ∀ dir ∈ formatName (path ++ e.language),
    ∀ dir' ∈ formatName (path ++ e'.language), ∀ n, replaceIntData dir n ≠ replaceIntData dir' n

/-- **When the outputs of a command share no file**: it does not write the
fmp4 variants of two bitrates, unless ffmpeg refuses them, and its
languages have directories of their own. -/
structure PistasSeparadas (path : String) (programa : Programa) (encoding : Option Codificacion) :
    Prop where
  hevc : codificacionNombre programa encoding = "hevc" → (bitratesDe encoding).length ≤ 1 ∨
    ∀ t ∈ pistasVideo programa encoding, formatName (path ++ t.carpeta) = none
  audio : IdiomasDistintos (path ++ "/audio/") programa.audio
  subtitulos : IdiomasDistintos (path ++ "/subtitulos/") programa.subtitulos

/-- **The outputs of a command share no file**, and none of them writes
the master playlist. -/
structure FicherosDisjuntos (ruta : String) (orden : Command String) : Prop where
  disjuntos : orden.outputs.Pairwise fun x y =>
    ∀ f, (plantilla x).Escribe f → ¬ (plantilla y).Escribe f
  sinMaestra : ∀ x ∈ orden.outputs, ¬ (plantilla x).Escribe (ruta ++ "/hls.m3u8")

variable {configuration : Config} {programa : Programa} {encoding : Option Codificacion}

/-! ## Tracks but for their language -/

namespace Pista

/-- A track with its language taken out. -/
def sinIdioma : Pista → Pista
  | video bitrate => video bitrate
  | defecto => defecto
  | quemado bitrate _ => quemado bitrate ""
  | audio _ => audio ""
  | teletexto _ => teletexto ""

def idioma : Pista → String
  | video _ | defecto => ""
  | quemado _ language | audio language | teletexto language => language

theorem eq_of_sinIdioma {t t' : Pista} (h : t.sinIdioma = t'.sinIdioma)
    (hi : t.idioma = t'.idioma) : t = t' := by
  cases t <;> cases t' <;> simp_all [sinIdioma, idioma]

/-- The directory of a track, numbered, with the language at its end. -/
theorem numerado_carpeta (k : Option ℕ) (path : String) (t : Pista) :
    numerado k (path ++ t.carpeta) = numerado k path ++ t.sinIdioma.carpeta ++ numerado k t.idioma := by
  have hempty : numerado k "" = "" := numerado_literal (by decide) k
  have hdir {d : String} (hd : '%' ∉ d.toList) (l : String) :
      numerado k (path ++ "/" ++ d ++ "/" ++ l) =
        numerado k path ++ "/" ++ d ++ "/" ++ numerado k l := by
    rw [numerado_barra, numerado_barra, numerado_literal hd]
  have hsubs : "/subtitulos/" = "/" ++ "subtitulos" ++ "/" := rfl
  have haudio : "/audio/" = "/" ++ "audio" ++ "/" := rfl
  cases t with
  | video | defecto => simp [carpeta, sinIdioma, idioma, hempty]
  | quemado b l | teletexto l =>
    simp only [carpeta, sinIdioma, idioma, String.append_empty, hsubs, ← String.append_assoc]
    exact hdir (by decide) l
  | audio l =>
    simp only [carpeta, sinIdioma, idioma, String.append_empty, haudio, ← String.append_assoc]
    exact hdir (by decide) l

/-- A language without percent signs is no part of the pattern. -/
theorem numerado_carpeta_literal {t : Pista} (h : '%' ∉ t.idioma.toList) (k : Option ℕ)
    (path : String) : numerado k (path ++ t.carpeta) = numerado k path ++ t.carpeta := by
  have hnone (path : String) := numerado_carpeta none path t
  rw [numerado_carpeta, numerado_literal h]
  exact (hnone _).symm

/-- Behind the slash the directory of a track has no percent sign but in
its language. -/
theorem exists_carpeta {t : Pista} (h : '%' ∉ t.idioma.toList) :
    t.carpeta = "" ∨ ∃ r : String, '%' ∉ r.toList ∧ ∀ path, path ++ t.carpeta = path ++ "/" ++ r := by
  have hunir {d : String} (hd : '%' ∉ d.toList) : '%' ∉ (d ++ t.idioma).toList := by
    rw [String.toList_append, List.mem_append, not_or]
    exact ⟨hd, h⟩
  have hcorte (d path : String) : path ++ ("/" ++ d ++ t.idioma) = path ++ "/" ++ (d ++ t.idioma) := by
    simp only [String.append_assoc]
  cases t with
  | video | defecto => exact .inl rfl
  | quemado | teletexto => exact .inr ⟨_, hunir (d := "subtitulos/") (by decide), hcorte "subtitulos/"⟩
  | audio => exact .inr ⟨_, hunir (d := "audio/") (by decide), hcorte "audio/"⟩

/-- Nor is it part of the name the variant is put into. -/
theorem formatName_carpeta {t : Pista} (h : '%' ∉ t.idioma.toList) (path : String) :
    formatName (path ++ t.carpeta) = (formatName path).map (· ++ t.carpeta) := by
  obtain hcarpeta | ⟨r, hr, hcarpeta⟩ := exists_carpeta h
  · simp only [hcarpeta, String.append_empty, Option.map_id']
  · simp only [hcarpeta, formatName_barra_literal hr]

theorem marcaVariante_carpeta {t : Pista} (h : '%' ∉ t.idioma.toList) (path : String) :
    marcaVariante (path ++ t.carpeta).toList = marcaVariante path.toList := by
  obtain hcarpeta | ⟨r, hr, hcarpeta⟩ := exists_carpeta h
  · rw [hcarpeta, String.append_empty]
  · rw [hcarpeta, marcaVariante_barra_literal hr]

/-- The bitrate before the name of a burned track is found again. -/
theorem prefijo_inj {b b' : String}
    (h : ((if b = "" then "" else b ++ "-") ++ "subtitulo") =
      (if b' = "" then "" else b' ++ "-") ++ "subtitulo") : b = b' := by
  have hpre := String.toList_inj.2 h
  simp only [String.toList_append, List.append_cancel_right_eq] at hpre
  split at hpre <;> split at hpre
  · simp_all
  · simp at hpre
  · simp at hpre
  · exact String.toList_inj.1 (by simpa using hpre)

/-- The name of the segments tells the tracks apart, up to language. -/
theorem sinIdioma_of_segmento {t t' : Pista} (h : t.segmento = t'.segmento) :
    t.sinIdioma = t'.sinIdioma := by
  -- the names of different kinds end differently
  have hrev := congrArg (fun s => s.toList.reverse) h
  cases t <;> cases t' <;> simp [segmento] at hrev
  case video.video => rw [String.toList_inj.1 hrev]
  case quemado.quemado => rw [sinIdioma, sinIdioma, prefijo_inj h]
  case defecto.defecto | audio.audio | teletexto.teletexto => rfl

/-- A variant is named by digits alone, which no other track is. -/
theorem eq_video_of_lista {b : String} (hb : EsBitrate b) {t : Pista} (h : t.lista = b) :
    t = .video b := by
  have hletter {c : Char} (hc : c.isDigit = false) : c ∉ t.lista.toList := by
    intro hmem
    rw [h] at hmem
    rw [hb.isDigit hmem] at hc
    cases hc
  cases t with
  | video b' => rw [← h]; rfl
  | defecto => exact absurd (hletter (c := 't') (by decide)) (by simp [lista])
  | quemado => exact absurd (hletter (c := 'o') (by decide)) (by simp [lista])
  | audio | teletexto => exact absurd (hletter (c := 'o') (by decide)) (by simp [lista])

/-- **The name of the playlist tells the tracks of a command apart**, up
to language. -/
theorem sinIdioma_of_lista (hb : ∀ b ∈ bitratesDe encoding, EsBitrate b) {t t' : Pista}
    (ht : t ∈ pistas programa encoding) (ht' : t' ∈ pistas programa encoding)
    (h : t.lista = t'.lista) : t.sinIdioma = t'.sinIdioma := by
  have hvideo {t t' : Pista} (ht : t ∈ pistas programa encoding) (h : t.lista = t'.lista)
      {b : String} (heq : t = .video b) : t' = t := by
    subst heq
    exact eq_video_of_lista (hb b (video_mem_pistas.1 ht)) h.symm
  by_cases hv : ∃ b, t = .video b
  · obtain ⟨b, rfl⟩ := hv
    rw [hvideo ht h rfl]
  by_cases hv' : ∃ b, t' = .video b
  · obtain ⟨b, rfl⟩ := hv'
    rw [hvideo ht' h.symm rfl]
  have hrev := congrArg (fun s => s.toList.reverse) h
  cases t <;> cases t' <;> simp [lista] at hrev hv hv'
  case quemado.quemado => rw [sinIdioma, sinIdioma, prefijo_inj h]
  case quemado.teletexto =>
    rw [quemado_mem_pistas] at ht
    rw [teletexto_mem_pistas, ht.1] at ht'
    cases ht'.1
  case teletexto.quemado =>
    rw [quemado_mem_pistas] at ht'
    rw [teletexto_mem_pistas, ht'.1] at ht
    cases ht.1
  case defecto.defecto | audio.audio | teletexto.teletexto => rfl

/-- The name of the segments ends in no digit. -/
theorem fenced_segmento (t : Pista) :
    Text.Fenced (fun c : Char => c.isDigit = true) t.segmento.toList.reverse := by
  cases t <;> simp [segmento, Text.fenced_cons]

/-- **The names of a command's files tell its tracks apart**, up to
language and but for `init.mp4`. -/
theorem sinIdioma_of_nombra (hb : ∀ b ∈ bitratesDe encoding, EsBitrate b) {t t' : Pista}
    (ht : t ∈ pistas programa encoding) (ht' : t' ∈ pistas programa encoding) {enc : String}
    {k k' : Option ℕ} {s s' e e' : String} (h : t.Nombra enc k s e) (h' : t'.Nombra enc k' s' e')
    (hs : s = s') (he : e = e') :
    k = k' ∧ (t.sinIdioma = t'.sinIdioma ∨ enc = "hevc" ∧ k = none) := by
  have hvtt {t t' : Pista} (ht : t ∈ pistas programa encoding) : t.lista ≠ t'.lista ++ "_vtt" := by
    intro h
    have hmem : '_' ∈ t.lista.toList := by rw [h]; simp
    exact not_mem_of_esNombre (esNombre_of_mem_pistas hb ht).1 (by decide) hmem
  have hteletexto {t t' : Pista} (h : t.webvtt = true) (h' : t'.webvtt = true) :
      t.sinIdioma = t'.sinIdioma := by
    cases t <;> cases h
    cases t' <;> cases h'
    rfl
  -- the extension leaves the cases where both names are of one kind
  cases h <;> cases h' <;> try (exact absurd he (by decide))
  case lista.lista => exact ⟨rfl, Or.inl (sinIdioma_of_lista hb ht ht' hs)⟩
  case lista.listaVtt => exact absurd hs (hvtt ht)
  case listaVtt.lista => exact absurd hs.symm (hvtt ht')
  case listaVtt.listaVtt h h' => exact ⟨rfl, Or.inl (hteletexto h h')⟩
  case inicial.inicial h _ => exact ⟨rfl, Or.inr ⟨h, rfl⟩⟩
  case segmento.segmento n n' =>
    have hs' := String.toList_inj.2 hs
    simp only [String.toList_append, String.toList_ofList] at hs'
    obtain ⟨hseg, rfl⟩ := Text.append_pad_inj (fenced_segmento t) (fenced_segmento t') hs'
    exact ⟨rfl, Or.inl (sinIdioma_of_segmento (String.toList_inj.1 hseg))⟩
  case segmentoVtt.segmentoVtt h n h' n' =>
    have hlista : t.lista = t'.lista := by
      cases t <;> cases h
      cases t' <;> cases h'
      rfl
    have hs' := String.toList_inj.2 hs
    simp only [String.toList_append, String.toList_ofList, hlista, List.append_cancel_left_eq] at hs'
    rw [Text.pad_injective hs']
    exact ⟨rfl, Or.inl (hteletexto h h')⟩
  all_goals split at he <;> exact absurd he (by decide)

end Pista

/-! ## Two tracks of a command -/

/-- What ffmpeg writes for a track. -/
abbrev Pista.Escribe (configuration : Config) (programa : Programa)
    (encoding : Option Codificacion) (t : Pista) : String → Prop :=
  (t.plantilla configuration programa encoding).Escribe

/-- Languages with one directory are one language. -/
theorem IdiomasDistintos.inj {path : String} {es : List Stream} (h : IdiomasDistintos path es)
    {e e' : Stream} (he : e ∈ es) (he' : e' ∈ es) {dir dir' : String}
    (hdir : dir ∈ formatName (path ++ e.language)) (hdir' : dir' ∈ formatName (path ++ e'.language))
    {k : Option ℕ} (heq : numerado k dir = numerado k dir') : e.language = e'.language := by
  by_contra hne
  have hsymm : Std.Symm fun e e' : Stream => ∀ dir ∈ formatName (path ++ e.language),
      ∀ dir' ∈ formatName (path ++ e'.language), ∀ n, replaceIntData dir n ≠ replaceIntData dir' n :=
    ⟨fun e e' h dir hdir dir' hdir' n => (h dir' hdir' dir hdir n).symm⟩
  have hdistintos := List.Pairwise.forall h he he' (fun h => hne (by rw [h])) dir hdir dir' hdir'
  cases k with
  | none => exact hdistintos 0 (congrArg (replaceIntData · 0) heq)
  | some n => exact hdistintos n heq

section Carpetas

variable {path : String} (ha : IdiomasDistintos (path ++ "/audio/") programa.audio)
  (hs : IdiomasDistintos (path ++ "/subtitulos/") programa.subtitulos)

include ha hs in
/-- **The directory tells apart the languages of a kind**, numbered or
not. -/
theorem eq_idioma {t t' : Pista} (ht : t ∈ pistas programa encoding)
    (ht' : t' ∈ pistas programa encoding)
    (hclase : t.sinIdioma.carpeta = t'.sinIdioma.carpeta) {dir dir' : String}
    (hdir : dir ∈ formatName (path ++ t.carpeta)) (hdir' : dir' ∈ formatName (path ++ t'.carpeta))
    {k : Option ℕ} (heq : numerado k dir = numerado k dir') : t.idioma = t'.idioma := by
  have hsubtitulo {e e' : Stream} (he : e ∈ programa.subtitulos) (he' : e' ∈ programa.subtitulos)
      (hdir : dir ∈ formatName (path ++ ("/subtitulos/" ++ e.language)))
      (hdir' : dir' ∈ formatName (path ++ ("/subtitulos/" ++ e'.language))) :
      e.language = e'.language := by
    rw [← String.append_assoc] at hdir hdir'
    exact hs.inj he he' hdir hdir' heq
  cases t <;> cases t' <;> simp [Pista.sinIdioma, Pista.carpeta] at hclase <;> try rfl
  case quemado.quemado =>
    obtain ⟨-, ⟨e, he, rfl⟩, -⟩ := quemado_mem_pistas.1 ht
    obtain ⟨-, ⟨e', he', rfl⟩, -⟩ := quemado_mem_pistas.1 ht'
    exact hsubtitulo he he' hdir hdir'
  case quemado.teletexto =>
    rw [quemado_mem_pistas] at ht
    rw [teletexto_mem_pistas, ht.1] at ht'
    cases ht'.1
  case audio.audio =>
    obtain ⟨e, he, rfl⟩ := audio_mem_pistas.1 ht
    obtain ⟨e', he', rfl⟩ := audio_mem_pistas.1 ht'
    rw [Pista.carpeta, ← String.append_assoc] at hdir hdir'
    exact ha.inj he he' hdir hdir' heq
  case teletexto.quemado =>
    rw [quemado_mem_pistas] at ht'
    rw [teletexto_mem_pistas, ht'.1] at ht
    cases ht.1
  case teletexto.teletexto =>
    obtain ⟨-, e, he, rfl⟩ := teletexto_mem_pistas.1 ht
    obtain ⟨-, e', he', rfl⟩ := teletexto_mem_pistas.1 ht'
    exact hsubtitulo he he' hdir hdir'

/-- A track goes to the directory of the encoding or to that of its
language. -/
theorem carpeta_cases (t : Pista) : t.sinIdioma.carpeta = "" ∧ t.carpeta = "" ∨
    ∃ d ∈ ["audio", "subtitulos"], t.sinIdioma.carpeta = "/" ++ d ++ "/" ∧
      t.carpeta = "/" ++ d ++ "/" ++ t.idioma := by
  cases t with
  | video | defecto => exact .inl ⟨rfl, rfl⟩
  | quemado | teletexto => exact .inr ⟨"subtitulos", by simp, rfl, rfl⟩
  | audio => exact .inr ⟨"audio", by simp, rfl, rfl⟩

/-- The kinds have directories of their own, with the variant in place. -/
theorem clase_of_formatName {t t' : Pista} {dir : String}
    (hdir : dir ∈ formatName (path ++ t.carpeta)) (hdir' : dir ∈ formatName (path ++ t'.carpeta)) :
    t.sinIdioma.carpeta = t'.sinIdioma.carpeta := by
  have hcount := (count_formatName hdir).symm.trans (count_formatName hdir')
  simp only [String.toList_append, List.count_append] at hcount
  have hclases : ∀ d ∈ ["audio", "subtitulos"], '/' ∉ d.toList ∧ '%' ∉ d.toList := by decide
  have hbarras (d l : String) : 0 < ("/" ++ d ++ "/" ++ l).toList.count '/' := by
    simp [List.count_append]
  obtain ⟨h, hc⟩ | ⟨d, hd, h, hc⟩ := carpeta_cases t <;>
    obtain ⟨h', hc'⟩ | ⟨d', hd', h', hc'⟩ := carpeta_cases t'
  · rw [h, h']
  · -- a path below the directory of the encoding has more slashes
    have := hbarras d' t'.idioma
    rw [hc, hc'] at hcount
    simp only [String.toList_empty, List.count_nil] at hcount
    omega
  · have := hbarras d t.idioma
    rw [hc, hc'] at hcount
    simp only [String.toList_empty, List.count_nil] at hcount
    omega
  · have hcorte (d l : String) : path ++ ("/" ++ d ++ "/" ++ l) = path ++ "/" ++ d ++ "/" ++ l := by
      simp only [String.append_assoc]
    rw [hc, hcorte] at hdir
    rw [hc', hcorte] at hdir'
    obtain ⟨p, r, rfl, hp⟩ := exists_of_formatName_eq (hclases d hd).2 hdir
    obtain ⟨p', r', heq, hp'⟩ := exists_of_formatName_eq (hclases d' hd').2 hdir'
    have htexto : p.toList ++ '/' :: (d.toList ++ '/' :: r.toList) =
        p'.toList ++ '/' :: (d'.toList ++ '/' :: r'.toList) := by
      simpa using String.toList_inj.2 heq
    have hresto := (Text.append_cons_inj_of_count (hp.trans hp'.symm) htexto).2
    have hd := (Text.append_cons_inj_left (hclases d hd).1 (hclases d' hd').1 hresto).1
    rw [h, h', String.toList_inj.1 hd]

/-- With at most one bitrate every track has a directory of its own. -/
theorem eq_of_idioma (hlen : (bitratesDe encoding).length ≤ 1) {t t' : Pista}
    (ht : t ∈ pistas programa encoding) (ht' : t' ∈ pistas programa encoding)
    (hclase : t.sinIdioma.carpeta = t'.sinIdioma.carpeta) (hidioma : t.idioma = t'.idioma) :
    t = t' := by
  have hunico {b b' : String} (hb : b ∈ bitratesDe encoding) (hb' : b' ∈ bitratesDe encoding) :
      b = b' := by
    obtain ⟨c, hc⟩ | hnil : (∃ c, bitratesDe encoding = [c]) ∨ bitratesDe encoding = [] := by
      cases hbs : bitratesDe encoding with
      | nil => exact Or.inr rfl
      | cons c cs => exact Or.inl ⟨c, by simpa [hbs] using hlen⟩
    · simp_all
    · simp_all
  -- the directory gives the kind and the language, and there is one bitrate
  cases t <;> cases t' <;> simp [Pista.sinIdioma, Pista.carpeta, Pista.idioma] at hclase hidioma
  case video.video => rw [hunico (video_mem_pistas.1 ht) (video_mem_pistas.1 ht')]
  case defecto.defecto => rfl
  case video.defecto =>
    rw [video_mem_pistas, defecto_mem_pistas.1 ht'] at ht
    cases ht
  case defecto.video =>
    rw [video_mem_pistas, defecto_mem_pistas.1 ht] at ht'
    cases ht'
  case quemado.teletexto =>
    rw [quemado_mem_pistas] at ht
    rw [teletexto_mem_pistas, ht.1] at ht'
    cases ht'.1
  case teletexto.quemado =>
    rw [quemado_mem_pistas] at ht'
    rw [teletexto_mem_pistas, ht'.1] at ht
    cases ht.1
  case quemado.quemado b l b' l' =>
    obtain ⟨-, -, hb⟩ := quemado_mem_pistas.1 ht
    obtain ⟨-, -, hb'⟩ := quemado_mem_pistas.1 ht'
    have hbb : b = b' := by
      obtain hb | ⟨hnil, rfl⟩ := hb <;> obtain hb' | ⟨hnil', rfl⟩ := hb'
      · exact hunico hb hb'
      · simp [hnil'] at hb
      · simp [hnil] at hb'
      · rfl
    rw [hbb, hidioma]
  case audio.audio | teletexto.teletexto => rw [hidioma]

end Carpetas

/-- The name of a file has no slash, and its extension no dot. -/
theorem Pista.nombra_chars {t : Pista} (ht : t.lista.toList.all esNombre = true ∧
      t.segmento.toList.all esNombre = true) {enc : String} {k : Option ℕ} {s e : String}
    (h : t.Nombra enc k s e) : '/' ∉ s.toList ∧ '/' ∉ e.toList ∧ '.' ∉ e.toList := by
  have hlista := not_mem_of_esNombre ht.1 (c := '/') (by decide)
  have hsegmento := not_mem_of_esNombre ht.2 (c := '/') (by decide)
  have hpad (w n : ℕ) : '/' ∉ Text.pad w n := fun hc => absurd (Text.isDigit_of_mem_pad hc) (by decide)
  cases h with
  | lista => exact ⟨hlista, by decide, by decide⟩
  | listaVtt => exact ⟨by simp [hlista], by decide, by decide⟩
  | inicial => exact ⟨by decide, by decide, by decide⟩
  | segmento n =>
    refine ⟨by simp [hsegmento, hpad], ?_⟩
    split <;> decide
  | segmentoVtt _ n => exact ⟨by simp [hlista, hpad], by decide, by decide⟩

/-- A path is cut into its directory, its name and its extension. -/
theorem ruta_inj {d d' s s' e e' : String} (hs : '/' ∉ s.toList ∧ '/' ∉ e.toList ∧ '.' ∉ e.toList)
    (hs' : '/' ∉ s'.toList ∧ '/' ∉ e'.toList ∧ '.' ∉ e'.toList)
    (h : d ++ "/" ++ s ++ "." ++ e = d' ++ "/" ++ s' ++ "." ++ e') : d = d' ∧ s = s' ∧ e = e' := by
  rw [← String.toList_inj] at h
  simp only [String.toList_append, String.reduceToList, List.append_assoc, List.cons_append,
    List.nil_append] at h
  obtain ⟨hd, hname⟩ := Text.append_cons_inj_right (by simp [hs.1, hs.2.1])
    (by simp [hs'.1, hs'.2.1]) h
  obtain ⟨hn, he⟩ := Text.append_cons_inj_right hs.2.2 hs'.2.2 hname
  exact ⟨String.toList_inj.1 hd, String.toList_inj.1 hn, String.toList_inj.1 he⟩

theorem exists_teletexto_of_mem {t : Pista} (h : t ∈ pistasTeletexto programa) :
    ∃ l, t = .teletexto l := by
  unfold pistasTeletexto at h
  split at h
  · obtain ⟨e, -, rfl⟩ := List.mem_map.1 h
    exact ⟨_, rfl⟩
  · cases h

/-- **Two tracks of a command share no file.** -/
theorem not_escribe_of_ne (hb : ∀ b ∈ bitratesDe encoding, EsBitrate b)
    (h : PistasSeparadas (codificacionPath configuration encoding) programa encoding) {t t' : Pista}
    (ht : t ∈ pistas programa encoding) (ht' : t' ∈ pistas programa encoding) (hne : t ≠ t')
    {f : String} (hf : t.Escribe configuration programa encoding f) :
    ¬ t'.Escribe configuration programa encoding f := by
  intro hf'
  have hchars := esNombre_of_mem_pistas hb ht
  have hchars' := esNombre_of_mem_pistas hb ht'
  obtain ⟨dir, hdir, k, s, e, hn, rfl⟩ := (escribe_iff hchars f).1 hf
  obtain ⟨dir', hdir', k', s', e', hn', heq⟩ := (escribe_iff hchars' _).1 hf'
  obtain ⟨hruta, hss, hee⟩ := ruta_inj (Pista.nombra_chars hchars hn)
    (Pista.nombra_chars hchars' hn') heq
  obtain ⟨rfl, hsin | ⟨hevc, rfl⟩⟩ := Pista.sinIdioma_of_nombra hb ht ht' hn hn' hss hee
  · have hidioma := eq_idioma h.audio h.subtitulos ht ht' (congrArg Pista.carpeta hsin) hdir hdir' hruta
    exact hne (Pista.eq_of_sinIdioma hsin hidioma)
  · -- both write `init.mp4`, each in its own directory
    obtain rfl : dir = dir' := hruta
    have hclase := clase_of_formatName hdir hdir'
    have hidioma := eq_idioma h.audio h.subtitulos ht ht' hclase hdir hdir' (k := none) rfl
    obtain hlen | hnone := h.hevc hevc
    · exact hne (eq_of_idioma hlen ht ht' hclase hidioma)
    · -- the variants and the burned subtitles write nothing, and the others are their languages
      have hotra {t : Pista} (ht : t ∈ pistas programa encoding)
          (hdir : dir ∈ formatName (codificacionPath configuration encoding ++ t.carpeta)) :
          (∃ l, t = .audio l) ∨ ∃ l, t = .teletexto l := by
        obtain ht | ht := List.mem_append.1 ht
        · obtain ht | ht := List.mem_append.1 ht
          · rw [hnone t ht] at hdir
            cases hdir
          · obtain ⟨e, -, rfl⟩ := List.mem_map.1 ht
            exact .inl ⟨_, rfl⟩
        · exact .inr (exists_teletexto_of_mem ht)
      obtain ⟨l, rfl⟩ | ⟨l, rfl⟩ := hotra ht hdir <;>
        obtain ⟨l', rfl⟩ | ⟨l', rfl⟩ := hotra ht' hdir' <;>
          simp [Pista.sinIdioma, Pista.carpeta, Pista.idioma] at hclase hidioma hne
      · exact hne hidioma
      · exact hne hidioma

/-- No track writes the master playlist. -/
theorem not_escribe_maestra (hb : ∀ b ∈ bitratesDe encoding, EsBitrate b) {t : Pista}
    (ht : t ∈ pistas programa encoding) (path : String) :
    ¬ t.Escribe configuration programa encoding (path ++ "/hls.m3u8") := by
  intro h
  have hchars := esNombre_of_mem_pistas hb ht
  obtain ⟨dir, -, k, s, e, hn, heq⟩ := (escribe_iff hchars _).1 h
  have hmaestra : path ++ "/hls.m3u8" = path ++ "/" ++ "hls" ++ "." ++ "m3u8" := by
    simp only [String.append_assoc]
    rfl
  obtain ⟨-, hs, he⟩ := ruta_inj (by decide) (Pista.nombra_chars hchars hn)
    (hmaestra.symm.trans heq)
  have hlista : t.lista ≠ "hls" := by
    intro hl
    have hrev := congrArg (fun s => s.toList.reverse) hl
    cases t <;> simp [Pista.lista] at hrev
    case video b =>
      -- a bitrate is made of digits
      have hmem : 'h' ∈ b.toList := by
        rw [show b = "hls" from hl]
        decide
      exact absurd ((hb b (video_mem_pistas.1 ht)).isDigit hmem) (by decide)
  cases hn
  case lista => exact hlista hs.symm
  case listaVtt =>
    have hrev := congrArg (fun s => s.toList.reverse) hs
    simp at hrev
  case inicial => exact absurd he (by decide)
  case segmento => split at he <;> exact absurd he (by decide)
  case segmentoVtt => exact absurd he (by decide)

/-! ## When the outputs share no file -/

/-- Two tracks are distinct, unless their output is refused. -/
def Pista.Aparte (path : String) (t t' : Pista) : Prop :=
  t = t' → formatName (path ++ t.carpeta) = none

/-- Tracks of one kind are as many as their languages. -/
theorem IdiomasDistintos.aparte {path ruta : String} {es : List Stream}
    (h : IdiomasDistintos ruta es) {g : String → Pista} (hg : Function.Injective g)
    (hruta : ∀ l, ruta ++ l = path ++ (g l).carpeta) :
    (es.map fun e => g e.language).Pairwise (Pista.Aparte path) := by
  refine List.pairwise_map.2 (h.imp fun {e e'} hdir heq => ?_)
  have hlanguage := hg heq
  rw [← hruta, Option.eq_none_iff_forall_not_mem]
  intro dir hd
  exact hdir dir hd dir (by rwa [← hlanguage]) 0 rfl

theorem exists_quemado_of_mem {t : Pista} {b : String} (h : t ∈ pistasQuemadas programa b) :
    ∃ l, t = .quemado b l := by
  obtain ⟨-, e, -, rfl⟩ := mem_pistasQuemadas.1 h
  exact ⟨_, rfl⟩

/-- The variants and the burned subtitles are tracks of their own kinds. -/
theorem ne_of_mem_pistasVideo {t : Pista} (h : t ∈ pistasVideo programa encoding) (l : String) :
    t ≠ .audio l ∧ t ≠ .teletexto l := by
  unfold pistasVideo at h
  split at h
  · obtain rfl | h := List.mem_cons.1 h
    · exact ⟨by simp, by simp⟩
    · obtain ⟨l', rfl⟩ := exists_quemado_of_mem h
      exact ⟨by simp, by simp⟩
  · obtain ⟨b, -, h⟩ := List.mem_flatMap.1 h
    obtain rfl | h := List.mem_cons.1 h
    · exact ⟨by simp, by simp⟩
    · obtain ⟨l', rfl⟩ := exists_quemado_of_mem h
      exact ⟨by simp, by simp⟩

section Aparte

variable {path : String} (ha : IdiomasDistintos (path ++ "/audio/") programa.audio)
  (hs : IdiomasDistintos (path ++ "/subtitulos/") programa.subtitulos)

include hs in
theorem aparte_pistasQuemadas (b : String) :
    (pistasQuemadas programa b).Pairwise (Pista.Aparte path) := by
  unfold pistasQuemadas
  split
  · exact List.Pairwise.nil
  · exact hs.aparte (fun l l' h => by cases h; rfl) fun l => String.append_assoc ..

include hs in
theorem aparte_pistasVideo (hn : (bitratesDe encoding).Nodup) :
    (pistasVideo programa encoding).Pairwise (Pista.Aparte path) := by
  unfold pistasVideo
  split
  · refine List.pairwise_cons.2 ⟨fun t ht heq => ?_, aparte_pistasQuemadas hs ""⟩
    obtain ⟨l, hl⟩ := exists_quemado_of_mem ht
    cases heq.trans hl
  · refine List.pairwise_flatMap.2 ⟨fun b _ => List.pairwise_cons.2 ⟨fun t ht heq => ?_,
      aparte_pistasQuemadas hs b⟩, hn.imp fun {b b'} hne => ?_⟩
    · obtain ⟨l, hl⟩ := exists_quemado_of_mem ht
      cases heq.trans hl
    · -- every track of a block carries the bitrate of the block
      rintro t ht _ ht' rfl
      obtain rfl | ht := List.mem_cons.1 ht
      · obtain h | ht' := List.mem_cons.1 ht'
        · cases h
          exact absurd rfl hne
        · obtain ⟨l, hl⟩ := exists_quemado_of_mem ht'
          cases hl
      · obtain ⟨l, rfl⟩ := exists_quemado_of_mem ht
        obtain h | ht' := List.mem_cons.1 ht'
        · cases h
        · obtain ⟨l', hl⟩ := exists_quemado_of_mem ht'
          cases hl
          exact absurd rfl hne

include hs in
theorem aparte_pistasTeletexto : (pistasTeletexto programa).Pairwise (Pista.Aparte path) := by
  unfold pistasTeletexto
  split
  · exact hs.aparte (fun l l' h => by cases h; rfl) fun l => String.append_assoc ..
  · exact List.Pairwise.nil

include ha hs in
theorem aparte_pistas (hn : (bitratesDe encoding).Nodup) :
    (pistas programa encoding).Pairwise (Pista.Aparte path) := by
  have haudio : (programa.audio.map fun e => Pista.audio e.language).Pairwise (Pista.Aparte path) :=
    ha.aparte (fun l l' h => by cases h; rfl) fun l => String.append_assoc ..
  refine List.pairwise_append.2 ⟨List.pairwise_append.2 ⟨aparte_pistasVideo hs hn, haudio, ?_⟩,
    aparte_pistasTeletexto hs, ?_⟩
  · rintro t ht _ ht' rfl
    obtain ⟨e, -, rfl⟩ := List.mem_map.1 ht'
    exact absurd rfl (ne_of_mem_pistasVideo ht _).1
  · rintro t ht _ ht' rfl
    obtain ⟨l, rfl⟩ := exists_teletexto_of_mem ht'
    obtain ht | ht := List.mem_append.1 ht
    · exact absurd rfl (ne_of_mem_pistasVideo ht l).2
    · simp at ht

end Aparte

/-- The outputs of a command share files as its tracks do. -/
theorem pairwise_salidas {R : Plantilla → Plantilla → Prop} :
    ((salidas configuration programa encoding).Pairwise fun x y => R (plantilla x) (plantilla y)) ↔
      (pistas programa encoding).Pairwise fun t t' =>
        R (t.plantilla configuration programa encoding) (t'.plantilla configuration programa encoding) := by
  rw [← List.pairwise_map (f := plantilla), map_plantilla_salidas, List.pairwise_map]

/-- **Distinct tracks, and the command shares no file.** -/
theorem ficherosDisjuntos_of (hb : ∀ b ∈ bitratesDe encoding, EsBitrate b)
    (hn : (bitratesDe encoding).Nodup)
    (h : PistasSeparadas (codificacionPath configuration encoding) programa encoding) :
    FicherosDisjuntos (codificacionPath configuration encoding)
      (comando configuration programa encoding) where
  disjuntos := by
    refine (pairwise_salidas (R := fun x y => ∀ f, x.Escribe f → ¬ y.Escribe f)).2 ?_
    refine (aparte_pistas h.audio h.subtitulos hn).imp_of_mem fun {t t'} ht ht' haparte f hf => ?_
    by_cases heq : t = t'
    · obtain ⟨dir, hdir, -⟩ := (escribe_iff (esNombre_of_mem_pistas hb ht) f).1 hf
      rw [haparte heq] at hdir
      cases hdir
    · exact not_escribe_of_ne hb h ht ht' heq hf
  sinMaestra := by
    intro x hx
    obtain ⟨t, ht, heq⟩ := exists_pista hx
    rw [heq]
    exact not_escribe_maestra hb ht _

/-- Tracks that differ in their language alone share a segment where the
language does not tell them apart. -/
theorem idiomasDistintos_of_pairwise {g : String → Pista} {ruta : String}
    (hruta : ∀ l, codificacionPath configuration encoding ++ (g l).carpeta = ruta ++ l)
    (hsegmento : ∀ l l', (g l).segmento = (g l').segmento ∧ (g l).ancho = (g l').ancho)
    {es : List Stream} (hchars : ∀ e ∈ es, (g e.language).lista.toList.all esNombre = true ∧
      (g e.language).segmento.toList.all esNombre = true)
    (h : (es.map fun e => g e.language).Pairwise fun t t' =>
      ∀ f, t.Escribe configuration programa encoding f →
        ¬ t'.Escribe configuration programa encoding f) : IdiomasDistintos ruta es := by
  rw [List.pairwise_map] at h
  refine h.imp_of_mem fun {e e'} he he' hdis dir hdir dir' hdir' n heq => ?_
  rw [← hruta] at hdir hdir'
  refine hdis _ ((escribe_iff (hchars e he) _).2 ⟨dir, hdir, some n, _, _, .segmento n, rfl⟩)
    ((escribe_iff (hchars e' he') _).2 ⟨dir', hdir', some n, _, _, .segmento n, ?_⟩)
  obtain ⟨hs, hw⟩ := hsegmento e.language e'.language
  have hnum : numerado (some n) dir = numerado (some n) dir' := heq
  rw [hnum, hs, hw]

/-- Of every variant of several bitrates, and of every burned subtitle,
there is another in its directory. -/
theorem exists_ne_of_mem_pistasVideo (hn : (bitratesDe encoding).Nodup)
    (hlen : ¬ (bitratesDe encoding).length ≤ 1) {t : Pista} (ht : t ∈ pistasVideo programa encoding) :
    ∃ t' ∈ pistasVideo programa encoding, t ≠ t' ∧ t'.carpeta = t.carpeta := by
  have hotro (b : String) : ∃ b' ∈ bitratesDe encoding, b ≠ b' := by
    by_contra hall
    push Not at hall
    match hbs : bitratesDe encoding with
    | [] | [_] => simp [hbs] at hlen
    | c :: c' :: cs =>
      rw [hbs] at hall hn
      have hc : c = c' := (hall c (by simp)).symm.trans (hall c' (by simp))
      simp [hc] at hn
  have hnil : bitratesDe encoding ≠ [] := by
    intro h
    simp [h] at hlen
  unfold pistasVideo at ht ⊢
  rw [if_neg hnil] at ht ⊢
  obtain ⟨b, -, ht⟩ := List.mem_flatMap.1 ht
  obtain ⟨b', hb', hne⟩ := hotro b
  obtain rfl | hq := List.mem_cons.1 ht
  · exact ⟨.video b', List.mem_flatMap.2 ⟨b', hb', List.mem_cons_self⟩, by simpa using hne, rfl⟩
  · obtain ⟨htele, e, he, rfl⟩ := mem_pistasQuemadas.1 hq
    have hmem : Pista.quemado b' e.language ∈ pistasQuemadas programa b' :=
      mem_pistasQuemadas.2 ⟨htele, e, he, rfl⟩
    exact ⟨.quemado b' e.language, List.mem_flatMap.2 ⟨b', hb', List.mem_cons_of_mem _ hmem⟩,
      by simpa using hne, rfl⟩

/-- The variants of several bitrates share their `init.mp4`, unless none of
them starts. -/
theorem formatName_eq_none_of_pairwise (hb : ∀ b ∈ bitratesDe encoding, EsBitrate b)
    (hn : (bitratesDe encoding).Nodup) (hevc : codificacionNombre programa encoding = "hevc")
    (hlen : ¬ (bitratesDe encoding).length ≤ 1)
    (h : (pistasVideo programa encoding).Pairwise fun t t' => ∀ f,
      t.Escribe configuration programa encoding f → ¬ t'.Escribe configuration programa encoding f)
    {t : Pista} (ht : t ∈ pistasVideo programa encoding) :
    formatName (codificacionPath configuration encoding ++ t.carpeta) = none := by
  by_contra hsome
  obtain ⟨dir, hdir⟩ := Option.ne_none_iff_exists'.1 hsome
  obtain ⟨t', ht', hne, hcarpeta⟩ := exists_ne_of_mem_pistasVideo hn hlen ht
  have hchars {t : Pista} (ht : t ∈ pistasVideo programa encoding) := esNombre_of_mem_pistas hb
    (List.mem_append_left (pistasTeletexto programa)
      (List.mem_append_left (programa.audio.map fun e => .audio e.language) ht))
  have hsymm : Std.Symm fun t t' : Pista => ∀ f, t.Escribe configuration programa encoding f →
      ¬ t'.Escribe configuration programa encoding f := ⟨fun t t' h f hf hf' => h f hf' hf⟩
  refine List.Pairwise.forall h ht ht' hne _
    ((escribe_iff (hchars ht) _).2 ⟨dir, hdir, none, _, _, .inicial hevc, rfl⟩)
    ((escribe_iff (hchars ht') _).2 ⟨dir, ?_, none, _, _, .inicial hevc, rfl⟩)
  rwa [hcarpeta]

/-- The burned tracks of the first bitrate, or of the video without one. -/
theorem exists_sublist_pistasQuemadas (programa : Programa) (encoding : Option Codificacion) :
    ∃ b, (b ∈ bitratesDe encoding ∨ bitratesDe encoding = [] ∧ b = "") ∧
      (pistasQuemadas programa b).Sublist (pistasVideo programa encoding) := by
  unfold pistasVideo
  cases hbs : bitratesDe encoding with
  | nil => exact ⟨"", Or.inr ⟨rfl, rfl⟩, List.sublist_cons_self _ _⟩
  | cons b bs =>
    refine ⟨b, Or.inl List.mem_cons_self, ?_⟩
    rw [if_neg (List.cons_ne_nil _ _), List.flatMap_cons]
    exact (List.sublist_cons_self _ _).trans (List.sublist_append_left _ _)

/-- **A command that shares no file has one bitrate where it writes
`init.mp4`, and directories of their own for its languages.** -/
theorem of_ficherosDisjuntos (hb : ∀ b ∈ bitratesDe encoding, EsBitrate b)
    (hn : (bitratesDe encoding).Nodup)
    (h : FicherosDisjuntos (codificacionPath configuration encoding)
      (comando configuration programa encoding)) :
    PistasSeparadas (codificacionPath configuration encoding) programa encoding := by
  have hpistas : (pistas programa encoding).Pairwise fun t t' => ∀ f,
      t.Escribe configuration programa encoding f → ¬ t'.Escribe configuration programa encoding f :=
    (pairwise_salidas (R := fun x y => ∀ f, x.Escribe f → ¬ y.Escribe f)).1 h.disjuntos
  have hchars {t : Pista} (ht : t ∈ pistas programa encoding) := esNombre_of_mem_pistas hb ht
  obtain ⟨⟨hvideo, haudio, -⟩, htele, -⟩ := (List.pairwise_append.1 hpistas).imp_left
    List.pairwise_append.1
  have hsubtitulos (l : String) : codificacionPath configuration encoding ++ ("/subtitulos/" ++ l) =
      codificacionPath configuration encoding ++ "/subtitulos/" ++ l := (String.append_assoc ..).symm
  refine ⟨fun hevc => or_iff_not_imp_left.2 fun hlen _ ht =>
    formatName_eq_none_of_pairwise hb hn hevc hlen hvideo ht, ?_, ?_⟩
  · exact idiomasDistintos_of_pairwise (g := .audio) (fun l => (String.append_assoc ..).symm)
      (fun _ _ => ⟨rfl, rfl⟩) (fun e he => hchars (audio_mem_pistas.2 ⟨e, he, rfl⟩)) haudio
  · by_cases ht : teletextSubtitle programa = true
    · unfold pistasTeletexto at htele
      rw [if_pos ht] at htele
      exact idiomasDistintos_of_pairwise (g := .teletexto) hsubtitulos (fun _ _ => ⟨rfl, rfl⟩)
        (fun e he => hchars (teletexto_mem_pistas.2 ⟨ht, e, he, rfl⟩)) htele
    · have hf := Bool.eq_false_iff.2 ht
      obtain ⟨b, hbm, hsub⟩ := exists_sublist_pistasQuemadas programa encoding
      have hq := hvideo.sublist hsub
      unfold pistasQuemadas at hq
      rw [if_neg ht] at hq
      exact idiomasDistintos_of_pairwise (g := .quemado b) hsubtitulos (fun _ _ => ⟨rfl, rfl⟩)
        (fun e he => hchars (quemado_mem_pistas.2 ⟨hf, ⟨e, he, rfl⟩, hbm⟩)) hq

/-- **The outputs of a command share no file exactly when** it does not
write the fmp4 variants of two bitrates, and its languages have directories
of their own once variant and number are in place. -/
theorem ficherosDisjuntos_iff (configuration : Config) (programa : Programa)
    (encoding : Option Codificacion) (hb : ∀ b ∈ bitratesDe encoding, EsBitrate b)
    (hn : (bitratesDe encoding).Nodup) (orden : Command String)
    (horden : comandoFfmpeg configuration programa encoding = some orden) :
    FicherosDisjuntos (codificacionPath configuration encoding) orden ↔
      PistasSeparadas (codificacionPath configuration encoding) programa encoding := by
  obtain ⟨-, rfl⟩ := comandoFfmpeg_eq_some_iff.1 horden
  exact ⟨of_ficherosDisjuntos hb hn, ficherosDisjuntos_of hb hn⟩

/-- Languages without percent signs, as a probe finds them, are as they
are. -/
theorem idiomasDistintos_of_nodup {es : List Stream} (h : (es.map Stream.language).Nodup)
    (hp : ∀ e ∈ es, '%' ∉ e.language.toList) (ruta : String) : IdiomasDistintos (ruta ++ "/") es := by
  refine (List.pairwise_map.1 h).imp_of_mem fun {e e'} he he' hne dir hdir dir' hdir' n heq => hne ?_
  rw [formatName_barra_literal (hp e he)] at hdir
  rw [formatName_barra_literal (hp e' he')] at hdir'
  obtain ⟨base, hbase, rfl⟩ := Option.map_eq_some_iff.1 hdir
  obtain ⟨base', hbase', rfl⟩ := Option.map_eq_some_iff.1 hdir'
  obtain rfl : base = base' := Option.some.inj (hbase.symm.trans hbase')
  have hnum : numerado (some n) (base ++ "/" ++ e.language) =
      numerado (some n) (base ++ "/" ++ e'.language) := heq
  rw [numerado_barra, numerado_barra, numerado_literal (hp e he), numerado_literal (hp e' he'),
    ← String.toList_inj] at hnum
  simp only [String.toList_append, List.append_cancel_left_eq] at hnum
  exact String.toList_inj.1 hnum

/-- Distinct languages as a probe finds them have directories of their
own. -/
theorem pistasSeparadas_of_nodup {path : String}
    (hevc : codificacionNombre programa encoding = "hevc" → (bitratesDe encoding).length ≤ 1)
    (hdistintos : ∀ es ∈ [programa.audio, programa.subtitulos], (es.map Stream.language).Nodup ∧
      ∀ e ∈ es, '%' ∉ e.language.toList) : PistasSeparadas path programa encoding where
  hevc h := .inl (hevc h)
  audio := by
    obtain ⟨hn, hp⟩ := hdistintos programa.audio (by simp)
    have hruta : path ++ "/audio/" = path ++ "/audio" ++ "/" := by
      rw [String.append_assoc]
      rfl
    rw [hruta]
    exact idiomasDistintos_of_nodup hn hp _
  subtitulos := by
    obtain ⟨hn, hp⟩ := hdistintos programa.subtitulos (by simp)
    have hruta : path ++ "/subtitulos/" = path ++ "/subtitulos" ++ "/" := by
      rw [String.append_assoc]
      rfl
    rw [hruta]
    exact idiomasDistintos_of_nodup hn hp _

theorem ficherosDisjuntos_hevc : ∃ orden, comandoFfmpeg .minima
    { (default : Programa) with audio := [{ (default : Stream) with language := "spa_257" },
      { (default : Stream) with language := "eng_258" }] } (some ⟨"hevc", ["2800"]⟩) = some orden ∧
    FicherosDisjuntos "salida/7/hls/hevc" orden := by
  exact ⟨_, comandoFfmpeg_eq ⟨by decide, by decide⟩, (ficherosDisjuntos_iff .minima _
    (some ⟨"hevc", ["2800"]⟩) (by decide) (by decide) _
    (comandoFfmpeg_eq ⟨by decide, by decide⟩)).2 (pistasSeparadas_of_nodup (by decide) (by decide))⟩

/-- Two fmp4 variants write one `init.mp4`. -/
theorem ficherosDisjuntos_dos : ∃ orden,
    comandoFfmpeg .minima default (some ⟨"hevc", ["2800", "1400"]⟩) = some orden ∧
    ¬ FicherosDisjuntos "salida/7/hls/hevc" orden := by
  have hdos (h : FicherosDisjuntos (codificacionPath .minima (some ⟨"hevc", ["2800", "1400"]⟩))
      (comando .minima default (some ⟨"hevc", ["2800", "1400"]⟩))) : False := by
    obtain hlen | hnone := (of_ficherosDisjuntos (by decide) (by decide) h).hevc (by decide)
    · exact absurd hlen (by decide)
    · exact absurd (hnone (.video "2800") (by decide)) (by decide +kernel)
  exact ⟨_, comandoFfmpeg_eq ⟨by decide, by decide⟩, hdos⟩

end HlsXcoder
