import HlsXcoder.Entrada
import HlsXcoder.Codificacion.Argumentos
import Mathlib.Data.List.Infix

/-!
# The options of a protocol

Two pieces of code look at the protocol of the input.
`transformarEntrada` searches the address for patterns, and adds the size
of the fifo to one of udp; `inicializarFfmpegEncoding` asks, in a fixed
order, which of five names the address contains, and puts the options of
that protocol before the input. Neither looks at the scheme alone, so
both can be led astray by a host, a path or a query, and the theorem here
says when they are not.
-/

namespace HlsXcoder

open Regexp

/-! ## What an address contains -/

theorem contiene_iff {s t : String} : contiene s t = true ↔ t.toList <:+: s.toList := by
  simp only [contiene, List.any_eq_true, List.mem_tails, List.isPrefixOf_iff_prefix,
    List.infix_iff_prefix_suffix]
  exact ⟨fun ⟨r, hr, hpre⟩ => ⟨r, hpre, hr⟩, fun ⟨r, hpre, hr⟩ => ⟨r, hr, hpre⟩⟩

/-- A text that starts with a character foreign to `p`, and does not
contain it, adds no occurrence of it. -/
theorem contiene_append {s t p : String} {c : Char} {cs : List Char} (ht : t.toList = c :: cs)
    (hc : c ∉ p.toList) (hp : contiene t p = false) : contiene (s ++ t) p = contiene s p := by
  rw [Bool.eq_iff_iff, contiene_iff, contiene_iff, String.toList_append,
    List.infix_append_iff_ne_nil]
  refine ⟨?_, .inl⟩
  rintro (h | h | ⟨l₁, l₂, -, hne, hl, -, hpre⟩)
  · exact h
  · rw [Bool.eq_false_iff] at hp
    exact absurd (contiene_iff.2 h) hp
  · obtain ⟨d, ds, rfl⟩ := List.exists_cons_of_ne_nil hne
    rw [ht, List.cons_prefix_cons] at hpre
    exact absurd (by rw [hl, hpre.1]; simp) hc

/-! ## The names looked for -/

/-- The names looked for in an address, in order, with their options. -/
def protocolos : List (String × List String) :=
  [("rtp", ["-probesize", "6M", "-analyzeduration", "6M"]),
    ("udp", ["-probesize", "3M", "-analyzeduration", "3M"]),
    ("rtsp", ["-rtsp_transport", "tcp"]), ("rtmp", ["-f", "flv"]), ("http", ["-re"])]

/-- The first name contained gives the options. -/
theorem preInputProtocolo_eq (s : String) : preInputProtocolo s =
    ((protocolos.find? fun p => contiene s p.1).map Prod.snd).getD [] := by
  simp only [preInputProtocolo, protocolos, List.find?_cons, List.find?_nil]
  repeat' split
  all_goals simp_all

/-- The size of the fifo adds none of the names. -/
theorem contiene_fifo (s : String) {p : String × List String} (hp : p ∈ protocolos) :
    contiene (s ++ "?fifo_size=557753") p.1 = contiene s p.1 := by
  have hfifo : "?fifo_size=557753".toList = '?' :: "fifo_size=557753".toList := by decide
  simp only [protocolos, List.mem_cons, List.not_mem_nil, or_false] at hp
  obtain rfl | rfl | rfl | rfl | rfl := hp <;> exact contiene_append hfifo (by decide) (by decide)

theorem preInputProtocolo_fifo (s : String) :
    preInputProtocolo (s ++ "?fifo_size=557753") = preInputProtocolo s := by
  have hfifo : ∀ p ∈ protocolos, contiene (s ++ "?fifo_size=557753") p.1 = contiene s p.1 :=
    fun p hp => contiene_fifo s hp
  simp only [protocolos, List.mem_cons, List.not_mem_nil, or_false, forall_eq_or_imp,
    forall_eq] at hfifo
  obtain ⟨hrtp, hudp, hrtsp, hrtmp, hhttp⟩ := hfifo
  simp only [preInputProtocolo, hrtp, hudp, hrtsp, hrtmp, hhttp]

/-! ## What a scheme asks for -/

/-- The options a scheme asks for. -/
def opcionesDeEsquema (esquema : String) : List String :=
  if esquema = "rtp" then ["-probesize", "6M", "-analyzeduration", "6M"]
  else if esquema = "udp" then ["-probesize", "3M", "-analyzeduration", "3M"]
  else if esquema = "rtsp" then ["-rtsp_transport", "tcp"]
  else if esquema = "rtmp" then ["-f", "flv"]
  else if esquema = "http" ∨ esquema = "https" then ["-re"]
  else []

/-- The name a scheme is looked for by. -/
def nombreDe (esquema : String) : String := if esquema = "https" then "http" else esquema

/-- The names looked for before that of a scheme, all of them where it has
none. -/
def anteriores (esquema : String) : List (String × List String) :=
  protocolos.takeWhile fun p => p.1 ≠ nombreDe esquema

theorem opcionesDeEsquema_eq (esquema : String) : opcionesDeEsquema esquema =
    ((protocolos.find? fun p => p.1 = nombreDe esquema).map Prod.snd).getD [] := by
  by_cases hs : esquema = "https"
  · subst hs
    decide
  · simp only [opcionesDeEsquema, protocolos, nombreDe, if_neg hs, List.find?_cons, List.find?_nil]
    repeat' split
    all_goals simp_all

/-- Two tests, one of which implies the other, find the same where the
weaker one finds nothing before. -/
theorem find?_eq_find?_iff {α : Type} {p q : α → Bool} (xs : List α)
    (h : ∀ x ∈ xs, q x = true → p x = true) :
    xs.find? p = xs.find? q ↔ ∀ x ∈ xs.takeWhile (fun x => !q x), p x = false := by
  induction xs with
  | nil => simp
  | cons x xs ih =>
    obtain ⟨hx, hxs⟩ := List.forall_mem_cons.1 h
    by_cases hq : q x = true
    · simp [hq, hx hq]
    by_cases hp : p x = true
    · have hne : xs.find? q ≠ some x := fun hfind => hq (List.find?_some hfind)
      simp [hq, hp, hne.symm]
    · simp [hq, hp, ih hxs]

/-- Different names have different options. -/
theorem find?_inj {p q : String × List String → Bool}
    (h : ((protocolos.find? p).map Prod.snd).getD [] = ((protocolos.find? q).map Prod.snd).getD []) :
    protocolos.find? p = protocolos.find? q := by
  have hinj : ∀ x ∈ protocolos, x.2 ≠ [] ∧ ∀ y ∈ protocolos, x.2 = y.2 → x = y := by decide
  cases hx : protocolos.find? p with
  | none =>
    cases hy : protocolos.find? q with
    | none => rfl
    | some y => exact absurd (by simpa [hx, hy] using h.symm) (hinj y (List.mem_of_find?_eq_some hy)).1
  | some x =>
    have hmem := hinj x (List.mem_of_find?_eq_some hx)
    cases hy : protocolos.find? q with
    | none => exact absurd (by simpa [hx, hy] using h) hmem.1
    | some y =>
      exact congrArg some (hmem.2 y (List.mem_of_find?_eq_some hy) (by simpa [hx, hy] using h))

/-- **The options are those of the scheme** exactly when no name looked
for before its own is contained. -/
theorem preInputProtocolo_iff {esquema s : String} (h : contiene s esquema = true) :
    preInputProtocolo s = opcionesDeEsquema esquema ↔
      ∀ p ∈ anteriores esquema, contiene s p.1 = false := by
  have hnombre : contiene s (nombreDe esquema) = true := by
    unfold nombreDe
    split
    · rename_i hs
      subst hs
      exact contiene_iff.2 (List.IsInfix.trans (by decide) (contiene_iff.1 h))
    · exact h
  rw [preInputProtocolo_eq, opcionesDeEsquema_eq]
  have hfind := find?_eq_find?_iff protocolos (p := fun p => contiene s p.1)
    (q := fun p => p.1 = nombreDe esquema) fun p _ hp => by
      rw [of_decide_eq_true hp]
      exact hnombre
  simp only [← decide_not] at hfind
  rw [anteriores, ← hfind]
  exact ⟨find?_inj, fun h => by rw [h]⟩

/-! ## When both pieces go by the scheme -/

/-- The input options of an address go by its scheme: the size of the fifo
is added to udp alone, and the options before the input are those of the
scheme, whatever the other program answers. -/
def OpcionesPorEsquema (youtubeDl : String → Option String) (esquema s : String) : Prop :=
  ∀ entrada, transformarEntrada youtubeDl s = some entrada →
    (entrada = s ++ "?fifo_size=557753" → esquema = "udp") ∧
      preInputProtocolo entrada = opcionesDeEsquema esquema

/-- Nothing in an address leads the two pieces astray: the pattern of udp
is found in udp alone, that of YouTube nowhere it is looked for, and no
name that comes before the one of the scheme is contained. -/
structure SinDesvio (esquema s : String) : Prop where
  udp : (rUdp.find s.toList).isSome = true → esquema = "udp"
  youtube : (rYoutube.find s.toList).isSome = true → (rUdp.find s.toList).isSome = true
  anteriores : ∀ p ∈ anteriores esquema, contiene s p.1 = false

section Esquema

variable {esquema resto : String}

variable (esquema resto) in
theorem contiene_esquema : contiene (esquema ++ "://" ++ resto) esquema = true := by
  rw [contiene_iff, String.toList_append, String.toList_append, List.append_assoc]
  exact (List.prefix_append _ _).isInfix

/-- What ffmpeg reads, where no page of YouTube is looked for. -/
theorem exists_transformarEntrada {s : String}
    (h : (rYoutube.find s.toList).isSome = true → (rUdp.find s.toList).isSome = true)
    (youtubeDl : String → Option String) :
    ∃ entrada, transformarEntrada youtubeDl s = some entrada ∧
      preInputProtocolo entrada = preInputProtocolo s ∧
        (entrada = s ++ "?fifo_size=557753" → (rUdp.find s.toList).isSome = true) := by
  by_cases hudp : (rUdp.find s.toList).isSome = true
  · exact ⟨_, if_pos hudp, preInputProtocolo_fifo s, fun _ => hudp⟩
  · refine ⟨s, ?_, rfl, fun hs => ?_⟩
    · rw [transformarEntrada, if_neg hudp, if_neg fun hyt => hudp (h hyt)]
    · have hlen := congrArg String.length hs
      rw [String.length_append] at hlen
      have hfifo : 0 < "?fifo_size=557753".length := by decide
      omega

/-- What the other program answers may have other options. -/
theorem exists_respuesta (esquema : String) :
    ∃ out, preInputProtocolo (trimSuffix out "\n") ≠ opcionesDeEsquema esquema := by
  by_cases hnil : opcionesDeEsquema esquema = []
  · exact ⟨"rtp", by rw [hnil]; decide⟩
  · exact ⟨"", fun h => hnil (by rw [← h]; decide)⟩

/-- **The input options go by the scheme exactly when nothing in the
address leads the two pieces astray.** -/
theorem opcionesPorEsquema_iff (esquema resto : String) :
    (∀ youtubeDl, OpcionesPorEsquema youtubeDl esquema (esquema ++ "://" ++ resto)) ↔
      SinDesvio esquema (esquema ++ "://" ++ resto) := by
  have hesquema := contiene_esquema esquema resto
  generalize esquema ++ "://" ++ resto = s at hesquema ⊢
  constructor
  · intro h
    have hyoutube : (rYoutube.find s.toList).isSome = true →
        (rUdp.find s.toList).isSome = true := by
      intro hyt
      by_contra hudp
      obtain ⟨out, hout⟩ := exists_respuesta esquema
      have hentrada : transformarEntrada (fun _ => some out) s = some (trimSuffix out "\n") := by
        rw [transformarEntrada, if_neg hudp, if_pos hyt]
        rfl
      exact hout (h _ _ hentrada).2
    obtain ⟨entrada, hentrada, hopciones, -⟩ := exists_transformarEntrada hyoutube fun _ => none
    refine ⟨fun hudp => ?_, hyoutube, ?_⟩
    · exact (h (fun _ => none) _ (if_pos hudp)).1 rfl
    · rw [← preInputProtocolo_iff hesquema, ← hopciones]
      exact (h _ _ hentrada).2
  · intro h youtubeDl entrada hentrada
    obtain ⟨entrada', hentrada', hopciones, hfifo⟩ := exists_transformarEntrada h.youtube youtubeDl
    obtain rfl : entrada = entrada' := by simpa [hentrada] using hentrada'
    refine ⟨fun hs => h.udp (hfifo hs), ?_⟩
    rw [hopciones]
    exact (preInputProtocolo_iff hesquema).2 h.anteriores

end Esquema

/-- The name of a host may hold that of another protocol. -/
theorem not_opcionesPorEsquema : ¬ ∀ youtubeDl,
    OpcionesPorEsquema youtubeDl "http" ("http" ++ "://" ++ "sportpremium.tv/live.m3u8") := by
  intro h
  have hentrada : transformarEntrada (fun _ => none) ("http" ++ "://" ++ "sportpremium.tv/live.m3u8") =
      some ("http" ++ "://" ++ "sportpremium.tv/live.m3u8") := by
    decide +kernel
  have hopciones := (h _ _ hentrada).2
  revert hopciones
  decide +kernel

end HlsXcoder
