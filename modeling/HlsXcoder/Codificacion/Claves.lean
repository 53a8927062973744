import HlsXcoder.Codificacion.Sonda
import HlsXcoder.Lib.Numbering

/-!
# The streams of a probed program

The key of an audio stream is its language and the decimal text of its
PID, with the PID again for each stream before it that has the same key;
a subtitle whose language is there already is dropped. Both leave the
languages of a program distinct (`conserva_conClaves`).

The id of a stream is a numeral and its PID, where it has one, is made of
letters and digits (`conserva_deSonda`). A program without a video has
the video of a fresh program, whose fields are all empty.
-/

namespace HlsXcoder

open Regexp

/-! ## Audio keys -/

/-- What the first key of an audio stream is made of. -/
def claseAudio (elem : Stream) : String × String := (languageOr elem "none", decimalId elem)

/-- The keys of one language and PID, by how often the PID is put behind
once more. -/
def claveAudio (o : String × String) : ℕ → String
  | 0 => o.1 ++ "_" ++ o.2
  | m + 1 => claveAudio o m ++ "_" ++ o.2

/-- The pieces of a key between underscores. -/
theorem splitOn_claveAudio {o : String × String} (h : '_' ∉ o.1.toList ∧ '_' ∉ o.2.toList) (m : ℕ) :
    (claveAudio o m).toList.splitOn '_' =
      o.1.toList :: List.replicate (m + 1) o.2.toList := by
  induction m with
  | zero => simp [claveAudio, List.splitOn_append_cons_self, List.splitOn_eq_singleton h.1,
      List.splitOn_eq_singleton h.2]
  | succ m ih =>
    have htext : (claveAudio o (m + 1)).toList = (claveAudio o m).toList ++ '_' :: o.2.toList := by
      simp [claveAudio]
    rw [htext, List.splitOn_append_cons_self, ih, List.splitOn_eq_singleton h.2, List.cons_append,
      ← List.replicate_succ']

/-- The keys of the audio streams, as numbered names. -/
def clavesAudio : Numbering.Scheme (String × String) String where
  valid o := '_' ∉ o.1.toList ∧ '_' ∉ o.2.toList
  name := claveAudio
  next o language := language ++ "_" ++ o.2
  next_name _ _ := rfl
  name_inj {o o' m m'} ho ho' h := by
    have hsplit := congrArg (fun s => s.toList.splitOn '_') h
    simp only [splitOn_claveAudio ho, splitOn_claveAudio ho', List.cons.injEq,
      List.replicate_succ] at hsplit
    obtain ⟨hlang, hdec, hrep⟩ := hsplit
    refine ⟨Prod.ext (String.toList_inj.1 hlang) (String.toList_inj.1 hdec), ?_⟩
    simpa using congrArg List.length hrep

theorem audioLanguage_eq (elem : Stream) (audio : List Stream) : audioLanguage elem audio =
    clavesAudio.probe (claseAudio elem) (audio.map Stream.language) := by
  rw [audioLanguage, Numbering.Scheme.probe, List.foldl_map]
  rfl

theorem valid_claseAudio {linea : String} {stream : ℕ → String}
    (h : findStringSubmatch streamReg linea = some stream) :
    clavesAudio.valid (claseAudio (streamElement stream)) := by
  refine ⟨?_, fun hmem => ?_⟩
  · simp only [claseAudio, languageOr]
    split
    · decide
    · intro hmem
      have hletra := letra_grupo h '_' hmem
      revert hletra
      decide
  · simp only [claseAudio, decimalId, Nat.toString_eq_repr, Nat.repr, String.toList_ofList] at hmem
    have hdigit := Nat.isDigit_of_mem_toDigits (by decide) (by decide) hmem
    revert hdigit
    decide

/-- **The keys of a program**: those of its audio streams are numbered
within their language and PID, and the languages of its subtitles are
distinct. -/
structure Programa.ConClaves (programa : Programa) : Prop where
  audio : ∃ os, (∀ o ∈ os, clavesAudio.valid o) ∧
    programa.audio.map Stream.language = clavesAudio.names [] os
  subtitulos : (programa.subtitulos.map Stream.language).Nodup

theorem conserva_conClaves : Conserva fun _ P => P.ConClaves where
  nuevo _ _ := ⟨⟨[], by simp, rfl⟩, List.nodup_nil⟩
  servicio h _ := ⟨h.audio, h.subtitulos⟩
  video _ h _ _ := ⟨h.audio, h.subtitulos⟩
  audio {id P linea stream} hs h := by
    obtain ⟨⟨os, hos, hnames⟩, hsubs⟩ := h
    refine ⟨⟨os ++ [claseAudio (streamElement stream)], fun o ho => ?_, ?_⟩, hsubs⟩
    · obtain ho | ho := List.mem_append.1 ho
      · exact hos o ho
      · rw [List.mem_singleton.1 ho]
        exact valid_claseAudio hs
    · rw [List.map_append, List.map_singleton, audioLanguage_eq, hnames,
        Numbering.Scheme.probe_names (valid_claseAudio hs) hos, Numbering.Scheme.names_concat]
      rfl
  subtitulo {id P linea stream} _ h hnueva := by
    refine ⟨h.audio, ?_⟩
    rw [List.map_append, List.map_singleton, List.nodup_append]
    refine ⟨h.subtitulos, List.nodup_singleton _, fun a ha b hb heq => hnueva ?_⟩
    rwa [heq, List.mem_singleton.1 hb] at ha

/-- **The languages of a program tell its streams apart.** -/
theorem Programa.ConClaves.nodup_audio {programa : Programa} (h : programa.ConClaves) :
    (programa.audio.map Stream.language).Nodup := by
  obtain ⟨os, hos, hnames⟩ := h.audio
  rw [hnames]
  exact Numbering.Scheme.nodup_names hos []

/-! ## Ids and PIDs -/

/-- A stream that was read off a line. -/
structure Stream.Captado (s : Stream) : Prop where
  id_ne_empty : s.id ≠ ""
  id_digits : ∀ c ∈ s.id.toList, c.isDigit = true
  hexaId_chars : ∀ c ∈ s.hexaId.toList, c.isAlphanum = true

/-- The streams of a program were read off lines, and so was its video,
unless it has none. -/
structure Programa.DeSonda (programa : Programa) : Prop where
  video : programa.video = default ∨ programa.video.Captado
  streams : ∀ elem ∈ programa.audio ++ programa.subtitulos, elem.Captado

/-- The digits of a PID. -/
def cifraHex : CharClass := ⟨false, [('0', '9'), ('A', 'F'), ('a', 'f')]⟩

theorem captado_streamElement {linea : String} {stream : ℕ → String}
    (h : findStringSubmatch streamReg linea = some stream) : (streamElement stream).Captado := by
  obtain ⟨m, hm, rfl⟩ := Option.map_eq_some_iff.1 h
  have hid : (Re.rep (.char ⟨false, [('0', '9')]⟩) 1 none true).Lang (m.group 1) := by
    refine Re.lang_group_of_find (r := streamReg) (by decide +kernel) (fun t ht => ?_) hm
    have hgroups : (streamReg.groups.all fun g => g.1 ≠ 1 ||
        g.2 = .rep (.char ⟨false, [('0', '9')]⟩) 1 none true) = true := by decide +kernel
    simpa using List.all_eq_true.1 hgroups _ ht
  obtain ⟨hdigits, hmin, -⟩ := Re.lang_rep_char.1 hid
  refine ⟨fun hnil => ?_, fun c hc => ?_, fun c hc => ?_⟩
  · have hempty : m.group 1 = [] := by
      have := congrArg String.toList hnil
      simpa [streamElement] using this
    rw [hempty] at hmin
    simp at hmin
  · have hmem := hdigits c (by simpa [streamElement] using hc)
    simpa [CharClass.mem, Char.isDigit, Char.le_def] using hmem
  · have hx : CharClass.mem ⟨false, [('x', 'x'), ('X', 'X')]⟩ c = true ∨
        (CharClass.single '0').mem c = true ∨ cifraHex.mem c = true := by
      refine Re.forall_mem_group (r := streamReg) (i := 2)
        (P := fun c => CharClass.mem ⟨false, [('x', 'x'), ('X', 'X')]⟩ c = true ∨
          (CharClass.single '0').mem c = true ∨ cifraHex.mem c = true)
        [⟨false, [('x', 'x'), ('X', 'X')]⟩, .single '0', cifraHex]
        (by decide +kernel) (fun k hk c hc => ?_) hm c (by simpa [streamElement] using hc)
      simp only [List.mem_cons, List.not_mem_nil, or_false] at hk
      obtain rfl | rfl | rfl := hk
      · exact .inl hc
      · exact .inr (.inl hc)
      · exact .inr (.inr hc)
    simp only [CharClass.mem, cifraHex, CharClass.single, List.any_cons, List.any_nil, Bool.or_false,
      Bool.false_bne, Bool.or_eq_true, Bool.and_eq_true, decide_eq_true_eq, Char.le_def] at hx
    unfold Char.isAlphanum Char.isAlpha Char.isUpper Char.isLower Char.isDigit
    simp only [Bool.or_eq_true, Bool.and_eq_true, decide_eq_true_eq, ge_iff_le]
    grind

theorem conserva_deSonda : Conserva fun _ P => P.DeSonda where
  nuevo _ _ := ⟨.inl rfl, fun e he => by cases he⟩
  servicio h _ := ⟨h.video, h.streams⟩
  video hs h _ _ := by
    obtain ⟨hne, hdigits, hchars⟩ := captado_streamElement hs
    exact ⟨.inr ⟨hne, hdigits, hchars⟩, h.streams⟩
  audio {id P linea stream} hs h := by
    obtain ⟨hne, hdigits, hchars⟩ := captado_streamElement hs
    refine ⟨h.video, fun e he => ?_⟩
    rw [List.append_assoc, List.mem_append, List.mem_append, List.mem_singleton] at he
    obtain he | rfl | he := he
    · exact h.streams e (List.mem_append_left _ he)
    · exact ⟨hne, hdigits, hchars⟩
    · exact h.streams e (List.mem_append_right _ he)
  subtitulo {id P linea stream} hs h _ := by
    obtain ⟨hne, hdigits, hchars⟩ := captado_streamElement hs
    refine ⟨h.video, fun e he => ?_⟩
    rw [← List.append_assoc, List.mem_append, List.mem_singleton] at he
    obtain he | rfl := he
    · exact h.streams e he
    · exact ⟨hne, hdigits, hchars⟩

end HlsXcoder
