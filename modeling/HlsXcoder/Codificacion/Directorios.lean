import HlsXcoder.Ejecucion
import HlsXcoder.Entrada
import HlsXcoder.Codificacion.Ficheros
import HlsXcoder.Codificacion.Sonda
import HlsXcoder.Lib.FileTree
import HlsXcoder.Lib.Interleaving

/-!
# The directories of the encodings

Before it starts ffmpeg, an encoder removes and makes again the directory
of its encoding, creates the master playlist there, and then removes and
makes again a directory for each audio and subtitle stream. While ffmpeg
runs it writes the files of the outputs and deletes old segments.

All of it happens below the directory of the encoding, whose name comes
from the command line. Two encoders leave each other alone where neither
directory contains the other (`arbolesPropios`).

Errors of removing and of making directories are dropped, as the source
drops them; a playlist that cannot be created ends the program. A step on
a path that goes up behind a name has any outcome here: where it leads
depends on what stands on the way.
-/

namespace HlsXcoder

open FileTree OptionGroups

/-- A step on the file system before ffmpeg is started, on the path of a
text. -/
inductive Operacion where
  | removeAll (ruta : String)
  | mkdirAll (ruta : String)
  | create (ruta : String)

section Modelo

variable (configuration : Config) (programa : Programa) (encoding : Option Codificacion)

/-- The directories of the burned subtitles, for one bitrate. -/
def carpetasQuemadas : List String :=
  if teletextSubtitle programa then []
  else programa.subtitulos.map fun elem =>
    codificacionPath configuration encoding ++ "/subtitulos/" ++ elem.language

/-- The directories of the streams, in the order they are made. -/
def carpetas : List String :=
  (if bitratesDe encoding = [] then carpetasQuemadas configuration programa encoding
    else (bitratesDe encoding).flatMap fun _ => carpetasQuemadas configuration programa encoding) ++
  (programa.audio.map fun elem =>
    codificacionPath configuration encoding ++ "/audio/" ++ elem.language) ++
  if teletextSubtitle programa then programa.subtitulos.map fun elem =>
    codificacionPath configuration encoding ++ "/subtitulos/" ++ elem.language
  else []

/-- What an encoder does before it starts ffmpeg: `generarArchivoM3U8`, and
then the directories. -/
def operaciones : List Operacion :=
  let filePath := codificacionPath configuration encoding
  [.removeAll filePath, .mkdirAll filePath, .create (filePath ++ "/hls.m3u8")] ++
    (carpetas configuration programa encoding).flatMap fun path => [.removeAll path, .mkdirAll path]

end Modelo

/-- The path of a text, from a working directory. -/
def ruta (cwd : FileTree.Path) (s : String) : FileTree.Path := resolve cwd s.toList

def Operacion.texto : Operacion → String
  | removeAll s | mkdirAll s | create s => s

/-- What an operation does, by the encoder `i`, on the path of a straight
text. -/
def Operacion.aplicar {ι : Type} (cwd : FileTree.Path) (i : ι) : Operacion → Files ι → Option (Files ι)
  | removeAll s, t => some (FileTree.removeAll (ruta cwd s) t)
  | mkdirAll s, t => some (FileTree.mkdirAll (ruta cwd s) t)
  | create s, t => FileTree.create (ruta cwd s) i t

/-- An encoder with operations still to do, or with ffmpeg running. -/
inductive FaseFicheros where
  | previo (pendientes : List Operacion)
  | ffmpeg

section Pasos

variable (cwd : FileTree.Path) (configuration : Config)
  (programas : Fin (encodingsNumber configuration) → Programa)

/-- The operations of an encoder. -/
abbrev operacionesDe (i : Fin (encodingsNumber configuration)) : List Operacion :=
  operaciones configuration (programas i) (codificacionDeIndice configuration i)

/-- The files ffmpeg writes for an encoder, those it renames among them. -/
def EscribeDe (i : Fin (encodingsNumber configuration)) (f : String) : Prop :=
  ∃ orden, comandoFfmpeg configuration (programas i) (codificacionDeIndice configuration i) =
    some orden ∧ ∃ x ∈ orden.outputs, (plantilla x).Escribe f ∨ (plantilla x).Temporal f

/-- The directories ffmpeg makes for an encoder. -/
def FormaDe (i : Fin (encodingsNumber configuration)) (d : String) : Prop :=
  ∃ orden, comandoFfmpeg configuration (programas i) (codificacionDeIndice configuration i) =
    some orden ∧ ∃ x ∈ orden.outputs, (plantilla x).Forma d

/-- The steps of the encoders on the file system, where each file carries
its writer. ffmpeg runs on what the operations have left. -/
inductive PasoFicheros (i : Fin (encodingsNumber configuration)) : FaseFicheros →
    Files (Fin (encodingsNumber configuration)) → FaseFicheros →
    Files (Fin (encodingsNumber configuration)) → Prop
  | operar {op : Operacion} {pendientes : List Operacion} {t t'}
      (h : IsStraight op.texto.toList → op.aplicar cwd i t = some t') :
      PasoFicheros i (.previo (op :: pendientes)) t (.previo pendientes) t'
  | arrancar {t} : PasoFicheros i (.previo []) t .ffmpeg t
  | formar {d : String} {t t'} (hd : FormaDe configuration programas i d)
      (h : IsStraight d.toList → t' = mkdirAll (ruta cwd d) t) : PasoFicheros i .ffmpeg t .ffmpeg t'
  | escribir {f : String} {t t'} (hf : EscribeDe configuration programas i f)
      (h : IsStraight f.toList → create (ruta cwd f) i t = some t') :
      PasoFicheros i .ffmpeg t .ffmpeg t'
  | borrar {f : String} {t t'} (hf : EscribeDe configuration programas i f)
      (h : IsStraight f.toList → t' = unlink (ruta cwd f) t) : PasoFicheros i .ffmpeg t .ffmpeg t'

/-- The runs of the encoders from any tree. -/
def RunFicheros (t₀ : Files (Fin (encodingsNumber configuration)))
    (fases : Fin (encodingsNumber configuration) → FaseFicheros)
    (t : Files (Fin (encodingsNumber configuration))) : Prop :=
  Interleaving.Runs (PasoFicheros cwd configuration programas)
    (fun i => .previo (operacionesDe configuration programas i), t₀) (fases, t)

end Pasos

/-! ## The directories as paths -/

section Rutas

variable {configuration : Config} {programa : Programa} {encoding : Option Codificacion}

theorem isName_of_esIdioma {l : String} (h : EsIdioma l) : IsName l.toList := by
  have hnot {c : Char} (hc : esDeIdioma c = false) : c ∉ l.toList := fun hmem => by
    rw [List.all_eq_true.1 h.chars c hmem] at hc
    cases hc
  have hpunto := hnot (c := '.') (by decide)
  refine ⟨hnot (by decide), fun hnil => h.ne_empty (String.toList_inj.1 hnil), ?_, ?_⟩ <;>
  · intro heq
    simp [heq] at hpunto

theorem codificacionPath_ne_nil (configuration : Config) (encoding : Option Codificacion) :
    (codificacionPath configuration encoding).toList ≠ [] := by
  cases encoding <;> simp [codificacionPath, rutaHls]

/-- The path of a directory two names below another. -/
theorem ruta_dos (cwd : FileTree.Path) {path d l : String} (hpath : path.toList ≠ [])
    (hd : IsName d.toList) (hl : IsName l.toList) :
    ruta cwd (path ++ "/" ++ d ++ "/" ++ l) = ruta cwd path ++ [d.toList, l.toList] := by
  have htext : (path ++ "/" ++ d ++ "/" ++ l).toList =
      (path.toList ++ '/' :: d.toList) ++ '/' :: l.toList := by simp
  rw [ruta, htext, resolve_append_name cwd (by simp) hl, resolve_append_name cwd hpath hd, ruta,
    List.append_assoc]
  rfl

theorem ruta_uno (cwd : FileTree.Path) {path l : String} (hpath : path.toList ≠ [])
    (hl : IsName l.toList) : ruta cwd (path ++ "/" ++ l) = ruta cwd path ++ [l.toList] := by
  have htext : (path ++ "/" ++ l).toList = path.toList ++ '/' :: l.toList := by simp
  rw [ruta, htext, resolve_append_name cwd hpath hl, ruta]

/-- The names of the directory of a track, below that of the encoding. -/
def Pista.nombres : Pista → FileTree.Path
  | video _ | defecto => []
  | quemado _ language | teletexto language => ["subtitulos".toList, language.toList]
  | audio language => ["audio".toList, language.toList]

theorem ruta_carpeta (cwd : FileTree.Path) {t : Pista} (ht : t.nombres = [] ∨ EsIdioma t.idioma) :
    ruta cwd (codificacionPath configuration encoding ++ t.carpeta) =
      ruta cwd (codificacionPath configuration encoding) ++ t.nombres := by
  have hpath := codificacionPath_ne_nil configuration encoding
  have hsubs : "/subtitulos/" = "/" ++ "subtitulos" ++ "/" := rfl
  have haudio : "/audio/" = "/" ++ "audio" ++ "/" := rfl
  have hname {d : String} (hd : d = "subtitulos" ∨ d = "audio") : IsName d.toList := by
    obtain rfl | rfl := hd <;> exact ⟨by decide, by decide, by decide, by decide⟩
  cases t with
  | video | defecto => simp [Pista.carpeta, Pista.nombres]
  | quemado b l | teletexto l =>
    have hl := isName_of_esIdioma (ht.resolve_left (by simp [Pista.nombres]))
    rw [Pista.carpeta, hsubs, ← String.append_assoc, ← String.append_assoc, ← String.append_assoc]
    exact ruta_dos cwd hpath (hname (.inl rfl)) hl
  | audio l =>
    have hl := isName_of_esIdioma (ht.resolve_left (by simp [Pista.nombres]))
    rw [Pista.carpeta, haudio, ← String.append_assoc, ← String.append_assoc, ← String.append_assoc]
    exact ruta_dos cwd hpath (hname (.inr rfl)) hl

/-- The language of a track is one of the program. -/
theorem esIdioma_of_mem_pistas (hP : programa.ConIdiomas) {t : Pista}
    (ht : t ∈ pistas programa encoding) : t.nombres = [] ∨ EsIdioma t.idioma := by
  cases t with
  | video | defecto => exact .inl rfl
  | quemado b l =>
    obtain ⟨-, ⟨e, he, rfl⟩, -⟩ := quemado_mem_pistas.1 ht
    exact .inr (hP e (List.mem_append_right _ he))
  | audio l =>
    obtain ⟨e, he, rfl⟩ := audio_mem_pistas.1 ht
    exact .inr (hP e (List.mem_append_left _ he))
  | teletexto l =>
    obtain ⟨-, e, he, rfl⟩ := teletexto_mem_pistas.1 ht
    exact .inr (hP e (List.mem_append_right _ he))

/-- A character of no language stands in none of the program. -/
theorem not_mem_idioma (hP : programa.ConIdiomas) {t : Pista} (ht : t ∈ pistas programa encoding)
    {c : Char} (hc : esDeIdioma c = false) : c ∉ t.idioma.toList := by
  obtain hnil | hi := esIdioma_of_mem_pistas hP ht
  · cases t with
    | video | defecto => exact List.not_mem_nil
    | quemado | audio | teletexto => simp [Pista.nombres] at hnil
  · intro hmem
    rw [List.all_eq_true.1 hi.chars _ hmem] at hc
    cases hc

/-- **The directories that are made are those of the tracks** that have
one of their own. -/
theorem carpetas_eq : carpetas configuration programa encoding =
    ((pistas programa encoding).filter fun t => t.nombres ≠ []).map fun t =>
      codificacionPath configuration encoding ++ t.carpeta := by
  have hquemadas (bitrate : String) : carpetasQuemadas configuration programa encoding =
      ((pistasQuemadas programa bitrate).filter fun t => t.nombres ≠ []).map fun t =>
        codificacionPath configuration encoding ++ t.carpeta := by
    unfold carpetasQuemadas pistasQuemadas
    split
    · rfl
    · simp [List.filter_map, Function.comp_def, Pista.nombres, Pista.carpeta, String.append_assoc]
  have haudio : (programa.audio.map fun elem =>
      codificacionPath configuration encoding ++ "/audio/" ++ elem.language) =
      ((programa.audio.map fun elem => Pista.audio elem.language).filter
        fun t => t.nombres ≠ []).map fun t => codificacionPath configuration encoding ++ t.carpeta := by
    simp [List.filter_map, Function.comp_def, Pista.nombres, Pista.carpeta, String.append_assoc]
  have hteletexto : (if teletextSubtitle programa then programa.subtitulos.map fun elem =>
      codificacionPath configuration encoding ++ "/subtitulos/" ++ elem.language else []) =
      ((pistasTeletexto programa).filter fun t => t.nombres ≠ []).map fun t =>
        codificacionPath configuration encoding ++ t.carpeta := by
    unfold pistasTeletexto
    split
    · simp [List.filter_map, Function.comp_def, Pista.nombres, Pista.carpeta, String.append_assoc]
    · rfl
  rw [carpetas, pistas, List.filter_append, List.filter_append, List.map_append, List.map_append,
    haudio, hteletexto]
  congr 2
  unfold pistasVideo
  split
  · rw [List.filter_cons_of_neg (by simp [Pista.nombres]), ← hquemadas]
  · rw [List.filter_flatMap, List.map_flatMap]
    congr 1
    funext bitrate
    rw [List.filter_cons_of_neg (by simp [Pista.nombres]), ← hquemadas]

theorem mem_carpetas {path : String} : path ∈ carpetas configuration programa encoding ↔
    ∃ t ∈ pistas programa encoding, t.nombres ≠ [] ∧
      codificacionPath configuration encoding ++ t.carpeta = path := by
  rw [carpetas_eq]
  simp only [List.mem_map, List.mem_filter, decide_eq_true_eq, and_assoc]

end Rutas

/-! ## What an encoder has made -/

section Hechas

variable {ι : Type} {cwd R : FileTree.Path} {i : ι} {t t' : Files ι}

/-- A directory of a stream, two names below that of the encoding. -/
def EsCarpeta (R D : FileTree.Path) : Prop :=
  ∃ a l, a ≠ "hls.m3u8".toList ∧ D = R ++ [a, l]

theorem EsCarpeta.debajo {D : FileTree.Path} (h : EsCarpeta R D) : R <+: D := by
  obtain ⟨a, l, -, rfl⟩ := h
  exact List.prefix_append _ _

theorem EsCarpeta.eq_of_le {D E : FileTree.Path} (hD : EsCarpeta R D) (hE : EsCarpeta R E)
    (h : D <+: E) : D = E := by
  obtain ⟨a, l, -, rfl⟩ := hD
  obtain ⟨b, m, -, rfl⟩ := hE
  exact h.eq_of_length (by simp)

/-- A directory of a stream is not above that of the encoding or the
master playlist. -/
theorem EsCarpeta.not_le_of_length {D : FileTree.Path} (h : EsCarpeta R D) {q : FileTree.Path}
    (hq : q.length ≤ R.length + 1) : ¬ D <+: q := by
  obtain ⟨a, l, -, rfl⟩ := h
  intro hpre
  have := hpre.length_le
  simp at this
  omega

theorem EsCarpeta.not_le_maestra {D : FileTree.Path} (h : EsCarpeta R D) :
    ¬ R ++ ["hls.m3u8".toList] <+: D := by
  obtain ⟨a, l, ha, rfl⟩ := h
  intro hpre
  rw [List.prefix_append_right_inj, List.cons_prefix_cons] at hpre
  exact ha hpre.1.symm

/-- The directories made, after one more operation. -/
def Operacion.dejar (cwd : FileTree.Path) (made : List FileTree.Path) :
    Operacion → List FileTree.Path
  | removeAll s => made.filter fun D => ¬ ruta cwd s <+: D
  | mkdirAll s => ruta cwd s :: made
  | create _ => made

/-- The directories made and not removed since. -/
def creadas (cwd : FileTree.Path) (hechas : List Operacion) : List FileTree.Path :=
  hechas.foldl (Operacion.dejar cwd) []

/-- What stands while the directories of the streams are made: the
directory of the encoding, its master playlist and no other file, and the
directories made. -/
structure Listo (R : FileTree.Path) (i : ι) (made : List FileTree.Path) (t : Files ι) : Prop where
  arriba : ∀ q, q <+: R → t q = some .dir
  maestra : t (R ++ ["hls.m3u8".toList]) = some (.file i)
  ficheros : ∀ q c, R <+: q → t q = some (.file c) → q = R ++ ["hls.m3u8".toList]
  debajo : ∀ D ∈ made, R <+: D
  made : ∀ D ∈ made, t D = some .dir

theorem Listo.removeAll {made : List FileTree.Path} (h : Listo R i made t) {D : FileTree.Path}
    (hD : EsCarpeta R D) :
    Listo R i (made.filter fun E => ¬ D <+: E) (FileTree.removeAll D t) := by
  refine ⟨fun q hq => ?_, ?_, fun q c hq hc => ?_, fun E hE => ?_, fun E hE => ?_⟩
  · have hlen := hq.length_le
    rw [removeAll_of_not_le (hD.not_le_of_length (by omega))]
    exact h.arriba q hq
  · rw [removeAll_of_not_le (hD.not_le_of_length (by simp))]
    exact h.maestra
  · by_cases hDq : D <+: q
    · rw [removeAll_of_le hDq] at hc
      cases hc
    · rw [removeAll_of_not_le hDq] at hc
      exact h.ficheros q c hq hc
  · exact h.debajo E (List.mem_of_mem_filter hE)
  · have hno : ¬ D <+: E := by simpa using List.of_mem_filter hE
    rw [removeAll_of_not_le hno]
    exact h.made E (List.mem_of_mem_filter hE)

theorem Listo.mkdirAll {made : List FileTree.Path} (h : Listo R i made t) {D : FileTree.Path}
    (hD : EsCarpeta R D) : Listo R i (D :: made) (FileTree.mkdirAll D t) := by
  have hkeep {q : FileTree.Path} (hq : t q ≠ none) : FileTree.mkdirAll D t q = t q := by
    obtain heq | ⟨-, hnone, -⟩ := mkdirAll_cases D t q
    · exact heq
    · exact absurd hnone hq
  have hdir {q : FileTree.Path} (hq : t q = some .dir) : FileTree.mkdirAll D t q = some .dir := by
    rw [hkeep (by rw [hq]; simp), hq]
  -- the only file below the directory of the encoding does not stand in the way
  have hfree : blocked D t = false := by
    refine blocked_eq_false_iff.2 fun r hr c hc => ?_
    obtain hrR | hRr := List.prefix_or_prefix_of_prefix hr hD.debajo
    · rw [h.arriba r hrR] at hc
      cases hc
    · obtain rfl := h.ficheros r c hRr hc
      exact hD.not_le_maestra hr
  refine ⟨fun q hq => hdir (h.arriba q hq), ?_, fun q c hq hc => ?_, fun E hE => ?_, fun E hE => ?_⟩
  · rw [hkeep (by rw [h.maestra]; simp)]
    exact h.maestra
  · obtain heq | ⟨-, -, hmade⟩ := mkdirAll_cases D t q
    · exact h.ficheros q c hq (heq ▸ hc)
    · rw [hmade] at hc
      cases hc
  · obtain rfl | hE := List.mem_cons.1 hE
    · exact hD.debajo
    · exact h.debajo E hE
  · obtain rfl | hE := List.mem_cons.1 hE
    · exact mkdirAll_of_not_blocked hfree (List.prefix_refl _)
    · exact hdir (h.made E hE)

/-- What an encoder has made is not undone below another directory. -/
theorem Listo.undisturbed {made : List FileTree.Path} (h : Listo R i made t) {S : FileTree.Path}
    (hb : Below S t t') (hSR : ¬ S <+: R) (hRS : ¬ R <+: S) : Listo R i made t' := by
  have heq {q : FileTree.Path} (hq : R <+: q) : t' q = t q := hb.eq_of_le hSR hRS hq
  refine ⟨fun q hq => ?_, ?_, fun q c hq hc => ?_, h.debajo, fun D hD => ?_⟩
  · obtain hsame | ⟨-, hdir⟩ := hb.cases_of_above hSR hq
    · rw [hsame]
      exact h.arriba q hq
    · exact hdir
  · rw [heq (List.prefix_append _ _)]
    exact h.maestra
  · exact h.ficheros q c hq (heq hq ▸ hc)
  · rw [heq (h.debajo D hD)]
    exact h.made D hD

end Hechas

/-! ## Every step stays below the directory of its encoding -/

section Encoder

variable {cwd : FileTree.Path} {configuration : Config} {programa : Programa}
  {encoding : Option Codificacion} {ι : Type} {i : ι} {t t' : Files ι}

theorem ruta_maestra (cwd : FileTree.Path) (configuration : Config)
    (encoding : Option Codificacion) :
    ruta cwd (codificacionPath configuration encoding ++ "/hls.m3u8") =
      ruta cwd (codificacionPath configuration encoding) ++ ["hls.m3u8".toList] := by
  have hname : IsName "hls.m3u8".toList := ⟨by decide, by decide, by decide, by decide⟩
  rw [← ruta_uno cwd (codificacionPath_ne_nil configuration encoding) hname, String.append_assoc]
  rfl

theorem esCarpeta_of_mem_carpetas (cwd : FileTree.Path) (hP : programa.ConIdiomas) {path : String}
    (hpath : path ∈ carpetas configuration programa encoding) :
    EsCarpeta (ruta cwd (codificacionPath configuration encoding)) (ruta cwd path) := by
  obtain ⟨t, ht, hne, rfl⟩ := mem_carpetas.1 hpath
  rw [ruta_carpeta cwd (esIdioma_of_mem_pistas hP ht)]
  cases t with
  | video | defecto => exact absurd rfl hne
  | quemado b l | teletexto l => exact ⟨_, _, by decide, rfl⟩
  | audio l => exact ⟨_, _, by decide, rfl⟩

/-- How far the preparation of an encoder has got: the directory removed,
made, the playlist created, and then the directories of the streams. -/
def Preparado (cwd R : FileTree.Path) (i : ι) : List Operacion → Files ι → Prop
  | [], _ => True
  | [_], t => ∀ q, R <+: q → t q = none
  | [_, _], t => (∀ q, R <+: q → q ≠ R → t q = none) ∧
      (t R = none ∨ ∀ q, q <+: R → t q = some .dir)
  | _ :: _ :: _ :: hechas, t => Listo R i (creadas cwd hechas) t

/-- **The preparation of an encoder is not undone below another
directory.** -/
theorem Preparado.undisturbed {R S : FileTree.Path} {hechas : List Operacion}
    (h : Preparado cwd R i hechas t) (hb : Below S t t') (hSR : ¬ S <+: R) (hRS : ¬ R <+: S) :
    Preparado cwd R i hechas t' := by
  have heq {q : FileTree.Path} (hq : R <+: q) : t' q = t q := hb.eq_of_le hSR hRS hq
  match hechas, h with
  | [], _ => trivial
  | [_], h => exact fun q hq => (heq hq).trans (h q hq)
  | [_, _], h =>
    refine ⟨fun q hq hne => (heq hq).trans (h.1 q hq hne), ?_⟩
    obtain hnone | hdir := h.2
    · exact .inl ((heq (List.prefix_refl _)).trans hnone)
    · refine .inr fun q hq => ?_
      obtain hsame | ⟨-, hmade⟩ := hb.cases_of_above hSR hq
      · rw [hsame]
        exact hdir q hq
      · exact hmade
  | _ :: _ :: _ :: _, h => exact Listo.undisturbed h hb hSR hRS

/-- Where a directory was removed, making it leaves nothing below it. -/
theorem mkdirAll_of_removed {R : FileTree.Path} (h : ∀ q, R <+: q → t q = none) :
    (∀ q, R <+: q → q ≠ R → mkdirAll R t q = none) ∧
      (mkdirAll R t R = none ∨ ∀ q, q <+: R → mkdirAll R t q = some .dir) := by
  refine ⟨fun q hq hne => ?_, ?_⟩
  · obtain heq | ⟨hpre, -, -⟩ := mkdirAll_cases _ t q
    · rw [heq, h q hq]
    · exact absurd (hpre.eq_of_length_le hq.length_le) hne
  · cases hblocked : blocked R t with
    | false => exact .inr fun q hq => mkdirAll_of_not_blocked hblocked hq
    | true =>
      rw [mkdirAll_of_blocked hblocked]
      exact .inl (h _ (List.prefix_refl _))

/-- **The playlist is created in a new directory**, which then holds
nothing else. -/
theorem listo_of_create {R : FileTree.Path} (hbajo : ∀ q, R <+: q → q ≠ R → t q = none)
    (hraiz : t R = none ∨ ∀ q, q <+: R → t q = some .dir)
    (ha : create (R ++ ["hls.m3u8".toList]) i t = some t') : Listo R i [] t' := by
  obtain ⟨hdir, -, hfile, hother⟩ := create_eq_some ha
  rw [List.dropLast_concat] at hdir
  refine ⟨fun q hq => ?_, hfile, fun q c hq hc => ?_, fun D hD => absurd hD List.not_mem_nil,
    fun D hD => absurd hD List.not_mem_nil⟩
  · have hne : q ≠ R ++ ["hls.m3u8".toList] := by
      rintro rfl
      have hlen := hq.length_le
      rw [List.length_append, List.length_singleton] at hlen
      omega
    rw [hother q hne]
    obtain hnone | hall := hraiz
    · rw [hnone] at hdir
      cases hdir
    · exact hall q hq
  · by_contra hne
    rw [hother q hne] at hc
    by_cases hqR : q = R
    · rw [← hqR, hc] at hdir
      cases hdir
    · rw [hbajo q hq hqR] at hc
      cases hc

/-- The operations behind the playlist are on the directories of the
streams. -/
theorem Listo.paso {R : FileTree.Path} {hechas : List Operacion} {path : String}
    (h : Listo R i (creadas cwd hechas) t) (hcarpeta : EsCarpeta R (ruta cwd path)) {op : Operacion}
    (hop : op ∈ [Operacion.removeAll path, Operacion.mkdirAll path])
    (ha : op.aplicar cwd i t = some t') :
    Listo R i (creadas cwd (hechas ++ [op])) t' ∧ Below R t t' := by
  rw [creadas, List.foldl_append]
  simp only [List.mem_cons, List.not_mem_nil, or_false] at hop
  obtain rfl | rfl := hop
  · obtain rfl := Option.some.inj ha
    exact ⟨h.removeAll hcarpeta, below_removeAll hcarpeta.debajo⟩
  · obtain rfl := Option.some.inj ha
    exact ⟨h.mkdirAll hcarpeta, below_mkdirAll hcarpeta.debajo⟩

/-- **An operation of an encoder takes its preparation one step further**,
below the directory of the encoding. -/
theorem Preparado.paso (hP : programa.ConIdiomas) {hechas pendientes : List Operacion}
    {op : Operacion} (hops : operaciones configuration programa encoding = hechas ++ op :: pendientes)
    (h : Preparado cwd (ruta cwd (codificacionPath configuration encoding)) i hechas t)
    (ha : op.aplicar cwd i t = some t') :
    Preparado cwd (ruta cwd (codificacionPath configuration encoding)) i (hechas ++ [op]) t' ∧
      Below (ruta cwd (codificacionPath configuration encoding)) t t' := by
  rw [operaciones] at hops
  -- the first three operations are fixed: they remove and make the directory, and create the playlist
  match hechas, h with
  | [], _ =>
    obtain rfl := (List.cons.inj hops).1
    obtain rfl := Option.some.inj ha
    exact ⟨fun q hq => removeAll_of_le hq, below_removeAll (List.prefix_refl _)⟩
  | [_], h =>
    obtain rfl := (List.cons.inj (List.cons.inj hops).2).1
    obtain rfl := Option.some.inj ha
    exact ⟨mkdirAll_of_removed h, below_mkdirAll (List.prefix_refl _)⟩
  | [_, _], h =>
    obtain rfl := (List.cons.inj (List.cons.inj (List.cons.inj hops).2).2).1
    rw [Operacion.aplicar, ruta_maestra] at ha
    exact ⟨listo_of_create h.1 h.2 ha, below_create (List.prefix_append _ _) ha⟩
  | _ :: _ :: _ :: hechas, h =>
    have hrest : (carpetas configuration programa encoding).flatMap
        (fun path => [Operacion.removeAll path, Operacion.mkdirAll path]) =
          hechas ++ op :: pendientes := (List.cons.inj (List.cons.inj (List.cons.inj hops).2).2).2
    have hmem : op ∈ hechas ++ op :: pendientes := by simp
    rw [← hrest] at hmem
    obtain ⟨path, hpath, hop⟩ := List.mem_flatMap.1 hmem
    exact Listo.paso h (esCarpeta_of_mem_carpetas cwd hP hpath) hop ha

theorem mem_creadas {R : FileTree.Path} {paths : List String}
    (hpaths : ∀ path ∈ paths, EsCarpeta R (ruta cwd path)) {path : String} (hpath : path ∈ paths) :
    ruta cwd path ∈ creadas cwd
      (paths.flatMap fun path => [Operacion.removeAll path, Operacion.mkdirAll path]) := by
  suffices h : ∀ (D : FileTree.Path) (acc : List FileTree.Path),
      EsCarpeta R D → D ∈ acc ∨ D ∈ paths.map (ruta cwd) →
      D ∈ (paths.flatMap fun path => [Operacion.removeAll path, Operacion.mkdirAll path]).foldl
        (Operacion.dejar cwd) acc from
    h _ [] (hpaths path hpath) (.inr (List.mem_map_of_mem hpath))
  clear hpath path
  induction paths with
  | nil => simp
  | cons path paths ih =>
    intro D acc hD hmem
    refine ih (fun p hp => hpaths p (List.mem_cons_of_mem _ hp)) D _ hD ?_
    -- a directory removed with another below it is that one, and made again
    by_cases hle : ruta cwd path <+: D
    · obtain rfl := (hpaths path List.mem_cons_self).eq_of_le hD hle
      exact .inl List.mem_cons_self
    · obtain hacc | hrest := hmem
      · exact .inl (List.mem_cons_of_mem _ (List.mem_filter.2 ⟨hacc, by simpa using hle⟩))
      · obtain rfl | hrest := List.mem_cons.1 hrest
        · exact absurd (List.prefix_refl _) hle
        · exact .inr hrest

/-- **When an encoder starts ffmpeg**, its playlist and the directories of
all its tracks are there. -/
theorem Preparado.completo (hP : programa.ConIdiomas)
    (h : Preparado cwd (ruta cwd (codificacionPath configuration encoding)) i
      (operaciones configuration programa encoding) t) :
    t (ruta cwd (codificacionPath configuration encoding) ++ ["hls.m3u8".toList]) =
        some (.file i) ∧
      ∀ p ∈ pistas programa encoding,
        t (ruta cwd (codificacionPath configuration encoding) ++ p.nombres) = some .dir := by
  have hlisto : Listo (ruta cwd (codificacionPath configuration encoding)) i (creadas cwd
      ((carpetas configuration programa encoding).flatMap fun path =>
        [Operacion.removeAll path, Operacion.mkdirAll path])) t := h
  refine ⟨hlisto.maestra, fun p hp => ?_⟩
  by_cases hnil : p.nombres = []
  · rw [hnil, List.append_nil]
    exact hlisto.arriba _ (List.prefix_refl _)
  · rw [← ruta_carpeta cwd (esIdioma_of_mem_pistas hP hp)]
    exact hlisto.made _ (mem_creadas (fun path hpath => esCarpeta_of_mem_carpetas cwd hP hpath)
      (mem_carpetas.2 ⟨p, hp, hnil, rfl⟩))

/-! ## Where ffmpeg writes -/

theorem Pista.isName_of_nombra {p : Pista} (hp : p.lista.toList.all esNombre = true ∧
      p.segmento.toList.all esNombre = true) {enc : String} {k : Option ℕ} {s e : String}
    (h : p.Nombra enc k s e) : IsName (s ++ "." ++ e).toList := by
  obtain ⟨hs, he, hdot⟩ := nombra_chars hp h
  have hne : e.toList ≠ [] := by
    cases h with
    | segmento n => split <;> decide
    | lista | listaVtt | inicial | segmentoVtt => decide
  -- the name does not end in a dot
  have hlast {l : List Char} (hl : l.getLast? = some '.') : (s ++ "." ++ e).toList ≠ l := by
    rintro rfl
    rw [String.toList_append, List.getLast?_append_of_ne_nil _ hne] at hl
    exact hdot (List.mem_of_getLast? hl)
  refine ⟨by simp [hs, he], by simp, hlast rfl, hlast rfl⟩

/-- The files of an output, by the directory of its encoding. -/
theorem escribe_pista_iff (hP : programa.ConIdiomas) (hb : ∀ b ∈ bitratesDe encoding, EsBitrate b)
    {t : Pista} (ht : t ∈ pistas programa encoding) (f : String) :
    (t.plantilla configuration programa encoding).Escribe f ↔
      ∃ dir ∈ formatName (codificacionPath configuration encoding), ∃ k s e,
        t.Nombra (codificacionNombre programa encoding) k s e ∧
          f = numerado k dir ++ t.carpeta ++ "/" ++ s ++ "." ++ e := by
  have hidioma := not_mem_idioma hP ht (c := '%') (by decide)
  rw [escribe_iff (esNombre_of_mem_pistas hb ht), Pista.formatName_carpeta hidioma]
  constructor
  · rintro ⟨_, hmap, k, s, e, hn, rfl⟩
    obtain ⟨dir, hdir, rfl⟩ := Option.map_eq_some_iff.1 hmap
    exact ⟨dir, hdir, k, s, e, hn, by rw [Pista.numerado_carpeta_literal hidioma]⟩
  · rintro ⟨dir, hdir, k, s, e, hn, rfl⟩
    exact ⟨_, Option.map_eq_some_iff.2 ⟨dir, hdir, rfl⟩, k, s, e, hn,
      by rw [Pista.numerado_carpeta_literal hidioma]⟩

/-- ffmpeg puts nothing into the path of an encoding, unless it refuses the
outputs. -/
structure RutaLiteral (path : String) : Prop where
  variante : formatName path ≠ none → marcaVariante path.toList = false
  numero : ∀ n, replaceIntData path n = path

theorem rutaLiteral_of_not_mem {path : String} (h : '%' ∉ path.toList) : RutaLiteral path where
  variante _ := by simpa [marcaVariante] using marcaVariante_literal h []
  numero n := replaceIntData_literal h n

theorem RutaLiteral.eq_of_mem {path dir : String} (h : RutaLiteral path) (hdir : dir ∈ formatName path) :
    dir = path := by
  have hmarca := h.variante (by rw [hdir]; simp)
  rw [formatName, if_pos hmarca] at hdir
  exact (Option.some.inj hdir).symm

section Escrito

variable (hP : programa.ConIdiomas)
  (hdigits : ∀ b ∈ bitratesDe encoding, b.toList.all Char.isDigit = true)
  (hliteral : RutaLiteral (codificacionPath configuration encoding)) {orden : Command String}
  (horden : comandoFfmpeg configuration programa encoding = some orden) {x : Salida}
  (hx : x ∈ orden.outputs)

include hdigits horden hx in
theorem exists_pista_of_orden : ∃ p ∈ pistas programa encoding,
    plantilla x = p.plantilla configuration programa encoding ∧
      ∀ b ∈ bitratesDe encoding, EsBitrate b := by
  obtain ⟨hcons, rfl⟩ := comandoFfmpeg_eq_some_iff.1 horden
  obtain ⟨p, hp, heq⟩ := exists_pista hx
  exact ⟨p, hp, heq, fun b hb => esBitrate_of_isSome (hdigits b hb) (hcons.1 b hb)⟩

include hP hdigits hliteral horden hx

/-- **A file of the command lies in the directory of its track**, where
ffmpeg puts nothing into that of the encoding. -/
theorem texto_escrito {f : String} (hf : (plantilla x).Escribe f ∨ (plantilla x).Temporal f) :
    ∃ p ∈ pistas programa encoding, ∃ name : String, IsName name.toList ∧
      f = codificacionPath configuration encoding ++ p.carpeta ++ "/" ++ name := by
  obtain ⟨p, hp, heq, hb⟩ := exists_pista_of_orden hdigits horden hx
  have hchars := esNombre_of_mem_pistas hb hp
  rw [heq] at hf
  have hescrito {f : String} (hf : (p.plantilla configuration programa encoding).Escribe f) :
      ∃ name : String, IsName name.toList ∧
        f = codificacionPath configuration encoding ++ p.carpeta ++ "/" ++ name := by
    obtain ⟨dir, hdir, k, s, e, hn, rfl⟩ := (escribe_pista_iff hP hb hp f).1 hf
    obtain rfl := hliteral.eq_of_mem hdir
    have hnumero : numerado k (codificacionPath configuration encoding) =
        codificacionPath configuration encoding := by
      cases k with
      | none => rfl
      | some n => rw [numerado, hliteral.numero n]
    refine ⟨s ++ "." ++ e, Pista.isName_of_nombra hchars hn, ?_⟩
    rw [hnumero]
    simp only [String.append_assoc]
  refine ⟨p, hp, ?_⟩
  obtain hf | ⟨y, hy, l, hl, rfl⟩ := hf
  · exact hescrito hf
  · obtain ⟨name, hname, rfl⟩ := hescrito ⟨y, hy, .lista hl⟩
    -- the name it is renamed from is one as well
    have htmp {d : List Char} (hd : d.getLast? ≠ some 'p') : (name ++ ".tmp").toList ≠ d := by
      rintro rfl
      rw [String.toList_append, List.getLast?_append_of_ne_nil _ (by decide)] at hd
      exact hd (by decide)
    refine ⟨name ++ ".tmp", ⟨?_, htmp (by simp), htmp (by simp), htmp (by simp)⟩, String.append_assoc ..⟩
    rw [String.toList_append, List.mem_append, not_or]
    exact ⟨hname.noSlash, by decide⟩

theorem ruta_escrito (cwd : FileTree.Path) {f : String}
    (hf : (plantilla x).Escribe f ∨ (plantilla x).Temporal f) :
    ∃ p ∈ pistas programa encoding, ∃ name, ruta cwd f =
      ruta cwd (codificacionPath configuration encoding) ++ p.nombres ++ [name] := by
  obtain ⟨p, hp, name, hname, rfl⟩ := texto_escrito hP hdigits hliteral horden hx hf
  have hne : (codificacionPath configuration encoding ++ p.carpeta).toList ≠ [] := by
    rw [String.toList_append]
    exact List.append_ne_nil_of_left_ne_nil (codificacionPath_ne_nil configuration encoding) _
  exact ⟨p, hp, name.toList,
    by rw [ruta_uno cwd hne hname, ruta_carpeta cwd (esIdioma_of_mem_pistas hP hp)]⟩

/-- There ffmpeg makes no directory. -/
theorem not_forma (d : String) : ¬ (plantilla x).Forma d := by
  rintro ⟨s, hs, hmarca, s', hs', -⟩
  obtain ⟨p, hp, heq, hb⟩ := exists_pista_of_orden hdigits horden hx
  have hchars := esNombre_of_mem_pistas hb hp
  rw [heq] at hs
  have hidioma := not_mem_idioma hP hp (c := '%') (by decide)
  have hnombres := sinVariante_nombres hchars (codificacionNombre programa encoding)
  -- the playlist and the segments have one directory
  obtain ⟨name, hname, rfl⟩ : ∃ name ∈ [p.lista ++ ".m3u8",
      p.segmento ++ p.numeral ++ extension (codificacionNombre programa encoding)],
      s = codificacionPath configuration encoding ++ p.carpeta ++ "/" ++ name := by
    obtain rfl | hs := hs
    · refine ⟨_, List.mem_cons_self, ?_⟩
      rw [Pista.destino_plantilla]
      simp only [String.append_assoc]
    · obtain rfl := Option.some_inj.1 hs
      refine ⟨_, List.mem_cons_of_mem _ List.mem_cons_self, ?_⟩
      simp only [String.append_assoc]
  obtain ⟨hbarra, hm, hv⟩ := hnombres name hname
  rw [avDirname_append hbarra, Pista.marcaVariante_carpeta hidioma] at hmarca
  rw [formatName_barra hm hv, Pista.formatName_carpeta hidioma] at hs'
  have hsome : formatName (codificacionPath configuration encoding) ≠ none := by
    rintro hnone
    rw [hnone] at hs'
    cases hs'
  rw [hliteral.variante hsome] at hmarca
  cases hmarca

end Escrito

/-! ## Straight paths -/

section Rectas

variable (hP : programa.ConIdiomas)
  (hrecta : IsStraight (codificacionPath configuration encoding).toList)

theorem recta_append {s e : String} (hs : IsStraight s.toList) (he : IsName e.toList) :
    IsStraight (s ++ "/" ++ e).toList := by
  have htext : (s ++ "/" ++ e).toList = s.toList ++ '/' :: e.toList := by simp
  rw [htext]
  exact hs.append_name he

include hP hrecta

/-- **The directories of the tracks are as straight as that of the
encoding.** -/
theorem recta_carpeta {p : Pista} (hp : p ∈ pistas programa encoding) :
    IsStraight (codificacionPath configuration encoding ++ p.carpeta).toList := by
  have hclases : ∀ d ∈ ["audio", "subtitulos"], IsName d.toList := by decide
  obtain ⟨-, hcarpeta⟩ | ⟨d, hd, -, hcarpeta⟩ := carpeta_cases p
  · rwa [hcarpeta, String.append_empty]
  · have hcorte : codificacionPath configuration encoding ++ ("/" ++ d ++ "/" ++ p.idioma) =
        codificacionPath configuration encoding ++ "/" ++ d ++ "/" ++ p.idioma := by
      simp only [String.append_assoc]
    have hidioma : EsIdioma p.idioma := by
      refine (esIdioma_of_mem_pistas hP hp).resolve_left fun hnil => ?_
      cases p with
      | video | defecto => simp [Pista.carpeta] at hcarpeta
      | quemado | audio | teletexto => simp [Pista.nombres] at hnil
    rw [hcarpeta, hcorte]
    exact recta_append (recta_append hrecta (hclases d hd)) (isName_of_esIdioma hidioma)

theorem recta_of_mem_operaciones {op : Operacion}
    (hop : op ∈ operaciones configuration programa encoding) : IsStraight op.texto.toList := by
  rw [operaciones, List.mem_append] at hop
  obtain hop | hop := hop
  · simp only [List.mem_cons, List.not_mem_nil, or_false] at hop
    obtain rfl | rfl | rfl := hop
    · exact hrecta
    · exact hrecta
    · have hmaestra : codificacionPath configuration encoding ++ "/hls.m3u8" =
          codificacionPath configuration encoding ++ "/" ++ "hls.m3u8" := by
        rw [String.append_assoc]
        rfl
      rw [Operacion.texto, hmaestra]
      exact recta_append hrecta ⟨by decide, by decide, by decide, by decide⟩
  · obtain ⟨path, hpath, hop⟩ := List.mem_flatMap.1 hop
    obtain ⟨p, hp, -, rfl⟩ := mem_carpetas.1 hpath
    have hcarpeta := recta_carpeta hP hrecta hp
    simp only [List.mem_cons, List.not_mem_nil, or_false] at hop
    obtain rfl | rfl := hop <;> exact hcarpeta

end Rectas

end Encoder

/-! ## Runs -/

section Runs

variable {cwd : FileTree.Path} {configuration : Config}
  {programas : Fin (encodingsNumber configuration) → Programa}

/-- The directory of an encoder's encoding. -/
abbrev arbolDe (cwd : FileTree.Path) (configuration : Config)
    (i : Fin (encodingsNumber configuration)) : FileTree.Path :=
  ruta cwd (codificacionPath configuration (codificacionDeIndice configuration i))

/-- The paths an encoder makes or writes. -/
inductive Suya (cwd : FileTree.Path) (configuration : Config)
    (programas : Fin (encodingsNumber configuration) → Programa)
    (i : Fin (encodingsNumber configuration)) : FileTree.Path → Prop
  | directorio {path : String} (h : .mkdirAll path ∈ operacionesDe configuration programas i) :
      Suya cwd configuration programas i (ruta cwd path)
  | maestra {path : String} (h : .create path ∈ operacionesDe configuration programas i) :
      Suya cwd configuration programas i (ruta cwd path)
  | formada {d : String} (h : FormaDe configuration programas i d) :
      Suya cwd configuration programas i (ruta cwd d)
  | fichero {f : String} (h : EscribeDe configuration programas i f) :
      Suya cwd configuration programas i (ruta cwd f)

/-- **A step leaves the paths of an encoder alone**: it changes none of
those the encoder makes or writes, and above its directory it at most
makes directories that are missing. -/
structure NoEstorba (cwd : FileTree.Path) (configuration : Config)
    (programas : Fin (encodingsNumber configuration) → Programa)
    (i : Fin (encodingsNumber configuration))
    (t t' : Files (Fin (encodingsNumber configuration))) : Prop where
  propias : ∀ q, Suya cwd configuration programas i q → t' q = t q
  arriba : ∀ q, q <+: arbolDe cwd configuration i → t' q = t q ∨ t q = none ∧ t' q = some .dir

/-- The conditions under which the encoders keep to themselves: no
directory of an encoding contains another's, the text of none goes up
behind a name, and ffmpeg puts nothing into any. -/
structure ArbolesPropios (cwd : FileTree.Path) (configuration : Config) : Prop where
  disjuntos : ∀ i j, i ≠ j → ¬ arbolDe cwd configuration i <+: arbolDe cwd configuration j
  rectas : ∀ i : Fin (encodingsNumber configuration),
    IsStraight (codificacionPath configuration (codificacionDeIndice configuration i)).toList
  literales : ∀ i : Fin (encodingsNumber configuration),
    RutaLiteral (codificacionPath configuration (codificacionDeIndice configuration i))

/-- The bitrates of an accepted command line are digits. -/
theorem digitos_bitratesDe {youtubeDl : String → Option String} {flags : Flags}
    (hc : obtenerArgumentos youtubeDl flags = some (true, configuration))
    (i : Fin (encodingsNumber configuration)) :
    ∀ b ∈ bitratesDe (codificacionDeIndice configuration i), b.toList.all Char.isDigit = true := by
  intro b hb
  cases hcod : codificacionDeIndice configuration i with
  | none => simp [hcod, bitratesDe] at hb
  | some codificacion =>
    rw [hcod] at hb
    exact List.all_eq_true.2 (bitrates_of_mem_encodings hc
      (mem_encodings_of_codificacionDeIndice hcod) hb).2

/-- What holds of an encoder on the file system: its preparation is as far
as its operations have got. -/
def FaseFicheros.Vale (cwd : FileTree.Path) (configuration : Config)
    (programas : Fin (encodingsNumber configuration) → Programa)
    (i : Fin (encodingsNumber configuration)) (f : FaseFicheros)
    (t : Files (Fin (encodingsNumber configuration))) : Prop :=
  match f with
  | .previo pendientes => ∃ hechas, operacionesDe configuration programas i = hechas ++ pendientes ∧
      Preparado cwd (arbolDe cwd configuration i) i hechas t
  | .ffmpeg => True

/-- The paths of an encoder are below the directory of its encoding. -/
theorem Suya.debajo (hP : ∀ i, (programas i).ConIdiomas)
    (hdigits : ∀ i : Fin (encodingsNumber configuration),
      ∀ b ∈ bitratesDe (codificacionDeIndice configuration i), b.toList.all Char.isDigit = true)
    (ha : ArbolesPropios cwd configuration) {i : Fin (encodingsNumber configuration)}
    {q : FileTree.Path} (h : Suya cwd configuration programas i q) :
    arbolDe cwd configuration i <+: q := by
  cases h with
  | directorio h =>
    rw [operacionesDe, operaciones, List.mem_append] at h
    obtain h | h := h
    · obtain rfl : _ = codificacionPath configuration (codificacionDeIndice configuration i) := by
        simpa using h
      exact List.prefix_refl _
    · obtain ⟨path, hpath, hop⟩ := List.mem_flatMap.1 h
      obtain rfl : _ = path := by simpa using hop
      exact (esCarpeta_of_mem_carpetas cwd (hP i) hpath).debajo
  | maestra h =>
    rw [operacionesDe, operaciones, List.mem_append] at h
    obtain h | h := h
    · obtain rfl : _ = codificacionPath configuration (codificacionDeIndice configuration i) ++
          "/hls.m3u8" := by simpa using h
      rw [ruta_maestra]
      exact List.prefix_append _ _
    · obtain ⟨path, -, hop⟩ := List.mem_flatMap.1 h
      simp at hop
  | formada h =>
    obtain ⟨orden, horden, x, hx, hd⟩ := h
    exact absurd hd (not_forma (hP i) (hdigits i) (ha.literales i) horden hx _)
  | fichero h =>
    obtain ⟨orden, horden, x, hx, hf⟩ := h
    obtain ⟨p, -, name, heq⟩ := ruta_escrito (hP i) (hdigits i) (ha.literales i) horden hx cwd hf
    rw [heq, List.append_assoc]
    exact List.prefix_append _ _

/-- The files of an encoder have straight paths. -/
theorem recta_escrito (hP : ∀ i, (programas i).ConIdiomas)
    (hdigits : ∀ i : Fin (encodingsNumber configuration),
      ∀ b ∈ bitratesDe (codificacionDeIndice configuration i), b.toList.all Char.isDigit = true)
    (ha : ArbolesPropios cwd configuration) {i : Fin (encodingsNumber configuration)} {f : String}
    (h : EscribeDe configuration programas i f) : IsStraight f.toList := by
  obtain ⟨orden, horden, x, hx, hf⟩ := h
  obtain ⟨p, hp, name, hname, rfl⟩ :=
    texto_escrito (hP i) (hdigits i) (ha.literales i) horden hx hf
  exact recta_append (recta_carpeta (hP i) (ha.rectas i) hp) hname

/-- **A step of an encoder keeps what holds of it**, below the directory
of its encoding. -/
theorem FaseFicheros.Vale.paso (hP : ∀ i, (programas i).ConIdiomas)
    (hdigits : ∀ i : Fin (encodingsNumber configuration),
      ∀ b ∈ bitratesDe (codificacionDeIndice configuration i), b.toList.all Char.isDigit = true)
    (ha : ArbolesPropios cwd configuration) {i : Fin (encodingsNumber configuration)}
    {f f' : FaseFicheros} {t t' : Files (Fin (encodingsNumber configuration))}
    (h : f.Vale cwd configuration programas i t)
    (hp : PasoFicheros cwd configuration programas i f t f' t') :
    f'.Vale cwd configuration programas i t' ∧ Below (arbolDe cwd configuration i) t t' := by
  cases hp with
  | @operar op _ _ _ hop =>
    obtain ⟨hechas, hops, hprep⟩ := h
    have hmem : op ∈ operacionesDe configuration programas i := by
      rw [hops]
      exact List.mem_append_right _ List.mem_cons_self
    have hrecta := recta_of_mem_operaciones (hP i) (ha.rectas i) hmem
    obtain ⟨hprep', hbelow⟩ := Preparado.paso (hP i) hops hprep (hop hrecta)
    exact ⟨⟨hechas ++ [_], by rw [hops, List.append_assoc]; rfl, hprep'⟩, hbelow⟩
  | arrancar => exact ⟨trivial, fun q => .inl rfl⟩
  | formar hd hmkdir =>
    obtain ⟨orden, horden, x, hx, hd⟩ := hd
    exact absurd hd (not_forma (hP i) (hdigits i) (ha.literales i) horden hx _)
  | escribir hf hcreate =>
    have hrecta := recta_escrito hP hdigits ha hf
    exact ⟨trivial, below_create ((Suya.fichero hf).debajo hP hdigits ha) (hcreate hrecta)⟩
  | borrar hf hunlink =>
    obtain rfl := hunlink (recta_escrito hP hdigits ha hf)
    exact ⟨trivial, below_unlink ((Suya.fichero hf).debajo hP hdigits ha)⟩

/-- **A step of another encoder does not undo it.** -/
theorem FaseFicheros.Vale.undisturbed (ha : ArbolesPropios cwd configuration)
    {i j : Fin (encodingsNumber configuration)} (hij : i ≠ j) {f : FaseFicheros}
    {t t' : Files (Fin (encodingsNumber configuration))} (h : f.Vale cwd configuration programas i t)
    (hb : Below (arbolDe cwd configuration j) t t') : f.Vale cwd configuration programas i t' := by
  cases f with
  | previo pendientes =>
    obtain ⟨hechas, hops, hprep⟩ := h
    exact ⟨hechas, hops,
      hprep.undisturbed hb (ha.disjuntos j i (Ne.symm hij)) (ha.disjuntos i j hij)⟩
  | ffmpeg => trivial

/-- **Encodings own disjoint trees** where no directory of an encoding
contains another's and their paths are what their texts say: no step of
another encoder removes or writes a path of an encoder, and when it starts
ffmpeg the directories of its files are there and its master playlist is
the one it wrote. -/
theorem arbolesPropios {youtubeDl : String → Option String} {flags : Flags}
    (hc : obtenerArgumentos youtubeDl flags = some (true, configuration))
    (hP : ∀ i, (programas i).ConIdiomas) (ha : ArbolesPropios cwd configuration)
    {t₀ t : Files (Fin (encodingsNumber configuration))}
    {fases : Fin (encodingsNumber configuration) → FaseFicheros}
    (hrun : RunFicheros cwd configuration programas t₀ fases t)
    (i : Fin (encodingsNumber configuration)) :
    (∀ j, j ≠ i → ∀ f' t', PasoFicheros cwd configuration programas j (fases j) t f' t' →
      NoEstorba cwd configuration programas i t t') ∧
    (fases i = .previo [] →
      (∀ f, EscribeDe configuration programas i f → t (ruta cwd f).dropLast = some .dir) ∧
      t (ruta cwd (codificacionPath configuration (codificacionDeIndice configuration i) ++
        "/hls.m3u8")) = some (.file i)) := by
  have hdigits := digitos_bitratesDe hc
  have hvale := Interleaving.forall_of_runs
    (P := fun i f t => f.Vale cwd configuration programas i t)
    (fun i f t f' t' hf hp => (hf.paso hP hdigits ha hp).1)
    (fun i j hij f m t m' t' hf hm hp => hf.undisturbed ha hij (hm.paso hP hdigits ha hp).2)
    hrun (fun i => ⟨[], rfl, trivial⟩)
  refine ⟨fun j hji f' t' hp => ?_, fun hfase => ?_⟩
  · have hbelow := ((hvale j).paso hP hdigits ha hp).2
    have hne := ha.disjuntos j i hji
    exact ⟨fun q hq => hbelow.eq_of_le hne (ha.disjuntos i j (Ne.symm hji))
      (hq.debajo hP hdigits ha), fun q hq => hbelow.cases_of_above hne hq⟩
  · have hi : (fases i).Vale cwd configuration programas i t := hvale i
    rw [hfase] at hi
    obtain ⟨hechas, hops, hprep⟩ := hi
    rw [List.append_nil] at hops
    subst hops
    obtain ⟨hmaestra, hcarpetas⟩ := hprep.completo (hP i)
    refine ⟨fun f hf => ?_, by rw [ruta_maestra]; exact hmaestra⟩
    obtain ⟨orden, horden, x, hx, hf⟩ := hf
    obtain ⟨p, hp, name, heq⟩ := ruta_escrito (hP i) (hdigits i) (ha.literales i) horden hx cwd hf
    rw [heq, List.dropLast_concat]
    exact hcarpetas p hp

/-- One more operation of an encoder. -/
theorem RunFicheros.operar {t₀ t t' : Files (Fin (encodingsNumber configuration))}
    {fases : Fin (encodingsNumber configuration) → FaseFicheros}
    (hrun : RunFicheros cwd configuration programas t₀ fases t)
    (i : Fin (encodingsNumber configuration)) {op : Operacion} {pendientes : List Operacion}
    (hfase : fases i = .previo (op :: pendientes)) (hop : op.aplicar cwd i t = some t') :
    RunFicheros cwd configuration programas t₀ (Function.update fases i (.previo pendientes)) t' :=
  .tail hrun (.turn i (by rw [hfase]; exact .operar fun _ => hop))

end Runs

/-- The configuration of a file with two encodings. -/
def configuracionArboles (nombre : String) (nvenc : Bool) : Config :=
  configuracionDe { i := "entrada.ts" } "entrada.ts" [⟨"h264", []⟩, ⟨nombre, []⟩] nvenc

/-- The directory of an encoding in it. -/
def directorioArboles (nombre : String) : String :=
  codificacionPath (configuracionArboles nombre false) (some ⟨nombre, []⟩)

/-- Operations of two encoders whose programs have a video alone: the
first one makes its directory and its playlist, then the second one
removes its directory. -/
theorem runFicheros_arboles (cwd : FileTree.Path) (nombre : String) (nvenc : Bool) :
    ∃ fases : Fin 2 → FaseFicheros, fases 0 = .previo [] ∧
      RunFicheros cwd (configuracionArboles nombre nvenc) (fun _ => default) (fun _ => none) fases
        (removeAll (ruta cwd (directorioArboles nombre)) fun q =>
          if q = ruta cwd (directorioArboles "h264" ++ "/hls.m3u8") then some (.file (0 : Fin 2))
          else mkdirAll (ruta cwd (directorioArboles "h264"))
            (removeAll (ruta cwd (directorioArboles "h264")) fun _ => none) q) := by
  have hmkdir (p : FileTree.Path) : mkdirAll p (removeAll p fun _ => none) p =
      some (.dir : Node (Fin 2)) := by
    refine mkdirAll_of_not_blocked (blocked_eq_false_iff.2 fun r _ c => ?_) (List.prefix_refl _)
    simp [removeAll]
  have hmaestra : (ruta cwd (directorioArboles "h264" ++ "/hls.m3u8")).dropLast =
      ruta cwd (directorioArboles "h264") := by
    rw [directorioArboles, ruta_maestra, List.dropLast_concat]
  have hlibre : mkdirAll (ruta cwd (directorioArboles "h264"))
      (removeAll (ruta cwd (directorioArboles "h264")) fun _ => none)
      (ruta cwd (directorioArboles "h264" ++ "/hls.m3u8")) = (none : Option (Node (Fin 2))) := by
    rw [directorioArboles, ruta_maestra, mkdirAll, if_neg fun h => ?_]
    · simp [removeAll]
    · have := h.2.length_le
      rw [List.length_append, List.length_singleton] at this
      omega
  have hcreate : create (ruta cwd (directorioArboles "h264" ++ "/hls.m3u8")) (0 : Fin 2)
      (mkdirAll (ruta cwd (directorioArboles "h264"))
        (removeAll (ruta cwd (directorioArboles "h264")) fun _ => none)) = some _ :=
    if_pos ⟨by simp [hmaestra, hmkdir, Node.isFile], by simp [hlibre]⟩
  have hinicio : RunFicheros cwd (configuracionArboles nombre nvenc) (fun _ => default)
    (fun _ => none) _ _ := .refl
  have hrun := ((hinicio.operar (0 : Fin 2) rfl rfl).operar (0 : Fin 2) rfl rfl).operar (0 : Fin 2)
    rfl hcreate
  exact ⟨_, rfl, hrun.operar (1 : Fin 2) rfl rfl⟩

/-- Below different names the two encoders keep to themselves. -/
theorem arbolesPropios_hevc : ∃ (fases : Fin 2 → FaseFicheros) (t : Files (Fin 2)),
    RunFicheros [] (configuracionArboles "hevc" false) (fun _ => default) (fun _ => none) fases t ∧
      t (ruta [] (directorioArboles "h264" ++ "/hls.m3u8")) = some (.file (0 : Fin 2)) := by
  obtain ⟨fases, hfase, hrun⟩ := runFicheros_arboles [] "hevc" false
  have hc : obtenerArgumentos (fun _ => none) { i := "entrada.ts", cv := ["h264", "h265"] } =
      some (true, configuracionArboles "hevc" false) := by decide +kernel
  refine ⟨fases, _, hrun, ((arbolesPropios hc (fun _ _ he => by cases he) ⟨?_, ?_, fun i => ?_⟩ hrun
    (0 : Fin 2)).2 hfase).2⟩
  · decide +kernel
  · decide +kernel
  · refine rutaLiteral_of_not_mem ?_
    revert i
    decide +kernel

/-- With and without the GPU, `h264` is one name: the second encoder
removes the playlist of the first. -/
theorem arbolesPropios_nvenc :
    obtenerArgumentos (fun _ => none) { i := "entrada.ts", cv := ["h264", "h264_nvenc"] } =
        some (true, configuracionArboles "h264" true) ∧
      ∃ (fases : Fin 2 → FaseFicheros) (t : Files (Fin 2)),
        RunFicheros [] (configuracionArboles "h264" true) (fun _ => default) (fun _ => none) fases t ∧
        fases 0 = .previo [] ∧
        t (ruta [] (directorioArboles "h264" ++ "/hls.m3u8")) = none := by
  obtain ⟨fases, hfase, hrun⟩ := runFicheros_arboles [] "h264" true
  refine ⟨by decide +kernel, fases, _, hrun, hfase, removeAll_of_le ?_⟩
  rw [directorioArboles, ruta_maestra]
  exact List.prefix_append _ _

end HlsXcoder
