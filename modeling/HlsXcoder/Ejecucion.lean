import HlsXcoder.Configuracion
import Mathlib.Data.Fintype.Card
import Mathlib.Data.List.FinRange
import Mathlib.Logic.Relation

/-!
# The processes of a run

`main` starts two goroutines and waits for one message.
`InicializarCodificaciones` starts an encoder for each encoding, prints
one result from each and then sends the message. `InicializarServidorWeb`
starts the web server, unless it is disabled, and sends the same message
if the server ever returns. All channels are unbuffered, so a send and
its receive are one step of both processes.

An encoder works and then sends its result; the steps by which it works
are left out here, and so is ending the whole program from within
(`log.Fatal`). Once `main` has returned nothing runs.
-/

namespace HlsXcoder

/-- How many encoders a run has: one per encoding, and one where none was
asked for. -/
def encodingsNumber (configuration : Config) : ℕ :=
  if configuration.encodings = [] then 1 else configuration.encodings.length

/-- The encoding of an encoder, none in the copy mode. -/
def codificacionDeIndice (configuration : Config) (i : Fin (encodingsNumber configuration)) :
    Option Codificacion :=
  configuration.encodings[(i : ℕ)]?

/-- Whatever the encoder, its encoding is one of the command line. -/
theorem mem_encodings_of_codificacionDeIndice {configuration : Config}
    {i : Fin (encodingsNumber configuration)} {codificacion : Codificacion}
    (h : codificacionDeIndice configuration i = some codificacion) :
    codificacion ∈ configuration.encodings :=
  List.mem_of_getElem? h

inductive FaseMain where
  | inicio
  | codificacionesLanzadas
  | espera
  | imprime
  | fin
  deriving DecidableEq

/-- `InicializarCodificaciones`: `lanza k` has started `k` encoders,
`espera i` has printed `i` results, `imprime i e` holds the next one. -/
inductive FaseCodificaciones (n : ℕ) where
  | sinLanzar
  | inicio
  | lanza (k : ℕ)
  | espera (i : ℕ)
  | imprime (i : ℕ) (e : Fin n)
  | envia
  | fin
  deriving DecidableEq

inductive FaseCodificador where
  | sinLanzar
  | trabaja
  | envia
  | fin
  deriving DecidableEq

/-- `InicializarServidorWeb`. -/
inductive FaseServidor where
  | sinLanzar
  | inicio
  | espera
  | imprime
  | envia
  | fin
  deriving DecidableEq

/-- `arrancarServidorWeb`. -/
inductive FaseArranque where
  | sinLanzar
  | sirve
  | envia
  | fin
  deriving DecidableEq

/-- The goroutines of a run with `n` encoders, and the results printed so
far. -/
structure Estado (n : ℕ) where
  main : FaseMain
  codificaciones : FaseCodificaciones n
  codificador : Fin n → FaseCodificador
  servidor : FaseServidor
  arranque : FaseArranque
  impresos : List (Fin n)

def Estado.inicial (n : ℕ) : Estado n :=
  ⟨.inicio, .sinLanzar, fun _ => .sinLanzar, .sinLanzar, .sinLanzar, []⟩

/-- Who takes a step; a receive is a step of the receiver. -/
inductive Proceso (n : ℕ) where
  | main
  | codificaciones
  | codificador (e : Fin n)
  | servidor
  | arranque

section Pasos

variable (configuration : Config) (servidorVuelve : Bool)

/-- The steps of the program. The web server returns only where
`servidorVuelve` says so. -/
inductive Paso : Proceso (encodingsNumber configuration) →
    Estado (encodingsNumber configuration) → Estado (encodingsNumber configuration) → Prop
  | lanzarCodificaciones {s} (h : s.main = .inicio) :
      Paso .main s { s with main := .codificacionesLanzadas, codificaciones := .inicio }
  | lanzarServidor {s} (h : s.main = .codificacionesLanzadas) :
      Paso .main s { s with main := .espera, servidor := .inicio }
  | recibirCodificaciones {s} (h : s.main = .espera) (hc : s.codificaciones = .envia) :
      Paso .main s { s with main := .imprime, codificaciones := .fin }
  | recibirServidor {s} (h : s.main = .espera) (hs : s.servidor = .envia) :
      Paso .main s { s with main := .imprime, servidor := .fin }
  | terminar {s} (h : s.main = .imprime) : Paso .main s { s with main := .fin }
  -- with `Test` the streams are shown and there are no encoders
  | mostrar {s} (hm : s.main ≠ .fin) (ht : configuration.test = true)
      (h : s.codificaciones = .inicio) :
      Paso .codificaciones s { s with codificaciones := .envia }
  | empezar {s} (hm : s.main ≠ .fin) (ht : configuration.test = false)
      (h : s.codificaciones = .inicio) :
      Paso .codificaciones s { s with codificaciones := .lanza 0 }
  | lanzar {s} (hm : s.main ≠ .fin) (e : Fin (encodingsNumber configuration))
      (h : s.codificaciones = .lanza e) :
      Paso .codificaciones s { s with
        codificaciones := .lanza (e + 1)
        codificador := Function.update s.codificador e .trabaja }
  | lanzados {s} (hm : s.main ≠ .fin)
      (h : s.codificaciones = .lanza (encodingsNumber configuration)) :
      Paso .codificaciones s { s with codificaciones := .espera 0 }
  | recibir {s} {i : ℕ} (hm : s.main ≠ .fin) (h : s.codificaciones = .espera i)
      (hi : i < encodingsNumber configuration) (e : Fin (encodingsNumber configuration))
      (he : s.codificador e = .envia) :
      Paso .codificaciones s { s with
        codificaciones := .imprime i e
        codificador := Function.update s.codificador e .fin }
  | imprimir {s} {i : ℕ} {e : Fin (encodingsNumber configuration)} (hm : s.main ≠ .fin)
      (h : s.codificaciones = .imprime i e) :
      Paso .codificaciones s { s with
        codificaciones := .espera (i + 1)
        impresos := s.impresos ++ [e] }
  | acabar {s} (hm : s.main ≠ .fin)
      (h : s.codificaciones = .espera (encodingsNumber configuration)) :
      Paso .codificaciones s { s with codificaciones := .envia }
  | codificado {s} (hm : s.main ≠ .fin) (e : Fin (encodingsNumber configuration))
      (h : s.codificador e = .trabaja) :
      Paso (.codificador e) s { s with codificador := Function.update s.codificador e .envia }
  | sinServidor {s} (hm : s.main ≠ .fin) (hw : configuration.wn = true ∨ configuration.test = true)
      (h : s.servidor = .inicio) : Paso .servidor s { s with servidor := .fin }
  | arrancar {s} (hm : s.main ≠ .fin) (hw : configuration.wn = false ∧ configuration.test = false)
      (h : s.servidor = .inicio) :
      Paso .servidor s { s with servidor := .espera, arranque := .sirve }
  | recibirArranque {s} (hm : s.main ≠ .fin) (h : s.servidor = .espera)
      (ha : s.arranque = .envia) :
      Paso .servidor s { s with servidor := .imprime, arranque := .fin }
  | imprimirArranque {s} (hm : s.main ≠ .fin) (h : s.servidor = .imprime) :
      Paso .servidor s { s with servidor := .envia }
  | volver {s} (hm : s.main ≠ .fin) (hv : servidorVuelve = true) (h : s.arranque = .sirve) :
      Paso .arranque s { s with arranque := .envia }

/-- The states a run reaches. -/
def Alcanzable (s : Estado (encodingsNumber configuration)) : Prop :=
  Relation.ReflTransGen (fun s s' => ∃ p, Paso configuration servidorVuelve p s s')
    (.inicial (encodingsNumber configuration)) s

end Pasos

/-! ## What holds in every run -/

variable {n : ℕ}

/-- How many encoders have been started. -/
def FaseCodificaciones.lanzados : FaseCodificaciones n → ℕ
  | .sinLanzar | .inicio => 0
  | .lanza k => k
  | .espera _ | .imprime _ _ | .envia | .fin => n

/-- How many results have been printed, as the loop counts them. -/
def FaseCodificaciones.contados : FaseCodificaciones n → ℕ
  | .sinLanzar | .inicio | .lanza _ => 0
  | .espera i | .imprime i _ => i
  | .envia | .fin => n

/-- The result received and not printed. -/
def FaseCodificaciones.pendiente : FaseCodificaciones n → List (Fin n)
  | .imprime _ e => [e]
  | _ => []

/-- **The invariant of a run** whose only sender of the last message is
`InicializarCodificaciones`. -/
structure Estado.Invariante (wn : Bool) (s : Estado n) : Prop where
  inicio : s.main = .inicio → s.codificaciones = .sinLanzar
  limite : s.codificaciones.lanzados ≤ n
  lanzado : ∀ e, s.codificador e = .sinLanzar ↔ s.codificaciones.lanzados ≤ e
  recibido : ∀ e, s.codificador e = .fin ↔ e ∈ s.impresos ++ s.codificaciones.pendiente
  nodup : (s.impresos ++ s.codificaciones.pendiente).Nodup
  cuenta : s.impresos.length = s.codificaciones.contados
  servidor : s.servidor ≠ .imprime ∧ s.servidor ≠ .envia
  arranque : s.arranque ≠ .envia
  sirve : s.arranque = .sirve → wn = false
  final : s.main = .imprime ∨ s.main = .fin → s.codificaciones = .fin

theorem Estado.invariante_inicial (wn : Bool) (n : ℕ) : (Estado.inicial n).Invariante wn := by
  constructor <;> simp [Estado.inicial, FaseCodificaciones.lanzados, FaseCodificaciones.pendiente,
    FaseCodificaciones.contados]

/-- Which encoders are in a phase, after one of them has moved. -/
theorem update_eq_iff {f : Fin n → FaseCodificador} {P Q : Fin n → Prop} {e : Fin n}
    {v w : FaseCodificador} (hf : ∀ x, f x = w ↔ P x) (hother : ∀ x, x ≠ e → (P x ↔ Q x))
    (hself : v = w ↔ Q e) (x : Fin n) : Function.update f e v x = w ↔ Q x := by
  by_cases hx : x = e
  · rw [hx, Function.update_self]
    exact hself
  · rw [Function.update_of_ne hx, hf x]
    exact hother x hx

/-- **Every step keeps the invariant.** -/
theorem Paso.invariante {configuration : Config} {servidorVuelve : Bool}
    {p : Proceso (encodingsNumber configuration)} {s s' : Estado (encodingsNumber configuration)}
    (htest : configuration.test = false) (hweb : configuration.wn = true ∨ servidorVuelve = false)
    (hp : Paso configuration servidorVuelve p s s') (h : s.Invariante configuration.wn) :
    s'.Invariante configuration.wn := by
  obtain ⟨hini, hlim, hlan, hrec, hnod, hcue, hser, harr, hsir, hfin⟩ := h
  cases hp with
  | lanzarCodificaciones hm =>
    rw [hini hm] at hlim hlan hrec hnod hcue
    exact ⟨by simp, hlim, hlan, hrec, hnod, hcue, hser, harr, hsir, by simp⟩
  | lanzarServidor hm => exact ⟨by simp, hlim, hlan, hrec, hnod, hcue, by simp, harr, hsir, by simp⟩
  | recibirCodificaciones hm hc =>
    rw [hc] at hlim hlan hrec hnod hcue
    exact ⟨by simp, hlim, hlan, hrec, hnod, hcue, hser, harr, hsir, by simp⟩
  -- the server has no result to give
  | recibirServidor hm hs => exact absurd hs hser.2
  | terminar hm => exact ⟨by simp, hlim, hlan, hrec, hnod, hcue, hser, harr, hsir, fun _ => hfin (.inl hm)⟩
  | mostrar hm ht hc => simp [htest] at ht
  | empezar hm ht hc =>
    rw [hc] at hini hlim hlan hrec hnod hcue hfin
    exact ⟨by simpa using hini, hlim, hlan, hrec, hnod, hcue, hser, harr, hsir, by simpa using hfin⟩
  | lanzar hm e hc =>
    rw [hc] at hini hlim hlan hrec hnod hcue hfin
    refine ⟨by simpa using hini, e.isLt, update_eq_iff hlan (fun x hx => ?_) ?_,
      update_eq_iff hrec (fun x _ => Iff.rfl) ?_, hnod, hcue, hser, harr, hsir,
      by simpa using hfin⟩
    · have hne : (x : ℕ) ≠ e := fun h => hx (Fin.ext h)
      simp only [FaseCodificaciones.lanzados]
      omega
    · simp [FaseCodificaciones.lanzados]
    · -- nothing has been received before the encoders are started
      have hnil : s.impresos = [] := List.length_eq_zero_iff.1 hcue
      simp [hnil, FaseCodificaciones.pendiente]
  | lanzados hm hc =>
    rw [hc] at hini hlim hlan hrec hnod hcue hfin
    exact ⟨by simpa using hini, hlim, hlan, hrec, hnod, hcue, hser, harr, hsir, by simpa using hfin⟩
  | recibir hm hc hi e he =>
    rw [hc] at hini hlim hlan hrec hnod hcue hfin
    -- who still sends has not been received
    have hnuevo : e ∉ s.impresos := by
      have := hrec e
      simpa [he, FaseCodificaciones.pendiente] using this
    refine ⟨by simpa using hini, hlim, update_eq_iff hlan (fun x _ => Iff.rfl) ?_,
      update_eq_iff hrec (fun x hx => ?_) ?_, ?_, hcue, hser, harr, hsir, by simpa using hfin⟩
    · have hl := hlan e
      rw [he] at hl
      simpa only [reduceCtorEq, FaseCodificaciones.lanzados] using hl
    · simp [hx, FaseCodificaciones.pendiente]
    · simp [FaseCodificaciones.pendiente]
    · have hnodup : s.impresos.Nodup := by simpa [FaseCodificaciones.pendiente] using hnod
      simpa [FaseCodificaciones.pendiente] using hnodup.concat hnuevo
  | @imprimir _ i e hm hc =>
    rw [hc] at hini hlim hlan hrec hnod hcue hfin
    refine ⟨by simpa using hini, hlim, hlan, ?_, ?_, ?_, hser, harr, hsir, by simpa using hfin⟩
    · simpa [FaseCodificaciones.pendiente] using hrec
    · simpa [FaseCodificaciones.pendiente] using hnod
    · simpa [FaseCodificaciones.contados] using hcue
  | acabar hm hc =>
    rw [hc] at hini hlim hlan hrec hnod hcue hfin
    exact ⟨by simpa using hini, hlim, hlan, hrec, hnod, hcue, hser, harr, hsir, by simpa using hfin⟩
  | codificado hm e he =>
    have hl := hlan e
    have hr := hrec e
    refine ⟨hini, hlim, update_eq_iff hlan (fun x _ => Iff.rfl) ?_,
      update_eq_iff hrec (fun x _ => Iff.rfl) ?_, hnod, hcue, hser, harr, hsir, hfin⟩
    · simpa [he] using hl
    · simpa [he] using hr
  | sinServidor hm hw hs => exact ⟨hini, hlim, hlan, hrec, hnod, hcue, by simp, harr, hsir, hfin⟩
  | arrancar hm hw hs => exact ⟨hini, hlim, hlan, hrec, hnod, hcue, by simp, by simp, fun _ => hw.1, hfin⟩
  | recibirArranque hm hs ha => exact absurd ha harr
  | imprimirArranque hm hs => exact absurd hs hser.1
  | volver hm hv ha =>
    have hwn := hsir ha
    simp [hv, hwn] at hweb

/-- **The invariant of a run.** -/
theorem Alcanzable.invariante {configuration : Config} {servidorVuelve : Bool}
    {s : Estado (encodingsNumber configuration)}
    (htest : configuration.test = false) (hweb : configuration.wn = true ∨ servidorVuelve = false)
    (hs : Alcanzable configuration servidorVuelve s) : s.Invariante configuration.wn := by
  induction hs with
  | refl => exact Estado.invariante_inicial _ _
  | tail _ hp ih =>
    obtain ⟨p, hp⟩ := hp
    exact hp.invariante htest hweb ih

/-- Once `InicializarCodificaciones` sends its message, each result has
been printed once. -/
theorem Estado.Invariante.count_impresos {wn : Bool} {s : Estado n} (h : s.Invariante wn)
    (hcon : s.codificaciones.contados = n) (e : Fin n) : s.impresos.count e = 1 := by
  have hlen : s.impresos.length = n := h.cuenta.trans hcon
  have hnodup : s.impresos.Nodup := (List.nodup_append.1 h.nodup).1
  -- `n` results without repetition are the results of all `n` encoders
  have huniv : s.impresos.toFinset = Finset.univ := by
    apply Finset.eq_univ_of_card
    rw [List.toFinset_card_of_nodup hnodup, hlen, Fintype.card_fin]
  have hmem : e ∈ s.impresos := by
    rw [← List.mem_toFinset, huniv]
    exact Finset.mem_univ e
  exact List.count_eq_one_of_mem hnodup hmem

/-- **An encoder that has ended keeps `InicializarCodificaciones`
going** until its result is printed. -/
theorem Estado.Invariante.exists_paso {configuration : Config} {servidorVuelve : Bool}
    {s : Estado (encodingsNumber configuration)} (htest : configuration.test = false)
    (h : s.Invariante configuration.wn) {e : Fin (encodingsNumber configuration)}
    (he : s.codificador e = .envia ∨ s.codificador e = .fin) (hno : e ∉ s.impresos) :
    ∃ s', Paso configuration servidorVuelve .codificaciones s s' := by
  have hlan : ¬ s.codificaciones.lanzados ≤ e := by
    rw [← h.lanzado e]
    rcases he with he | he <;> simp [he]
  have hcon : s.codificaciones.contados ≠ encodingsNumber configuration := fun hcon =>
    hno (List.count_pos_iff.1 (by rw [h.count_impresos hcon e]; omega))
  have hm : s.main ≠ .fin := fun hm => by
    rw [h.final (.inr hm)] at hcon
    exact hcon rfl
  cases hc : s.codificaciones with
  | sinLanzar => rw [hc] at hlan; simp [FaseCodificaciones.lanzados] at hlan
  | inicio => exact ⟨_, .empezar hm htest hc⟩
  | lanza k =>
    have hk := h.limite
    rw [hc, FaseCodificaciones.lanzados] at hk
    rcases Nat.lt_or_ge k (encodingsNumber configuration) with hlt | hge
    · exact ⟨_, .lanzar hm ⟨k, hlt⟩ hc⟩
    · obtain rfl : k = encodingsNumber configuration := by omega
      exact ⟨_, .lanzados hm hc⟩
  | espera i =>
    -- those received are distinct, so one is still missing
    have hrec := h.recibido e
    have hcue := h.cuenta
    have hlen := (List.nodup_append.1 h.nodup).1.length_le_card
    rw [hc] at hrec hcue hcon
    rw [Fintype.card_fin, hcue] at hlen
    simp only [FaseCodificaciones.pendiente, List.append_nil] at hrec
    have hi : i < encodingsNumber configuration := lt_of_le_of_ne hlen hcon
    rcases he with he | he
    · exact ⟨_, .recibir hm hc hi e he⟩
    · exact absurd (hrec.1 he) hno
  | imprime i e' => exact ⟨_, .imprimir hm hc⟩
  | envia => rw [hc] at hcon; exact absurd rfl hcon
  | fin => rw [hc] at hcon; exact absurd rfl hcon

/-- **The program ends only after every encoding has reported.** Where
the web server does not return, `main` receives its message in states
where each result has been printed once, and an encoder that has ended
and is not yet reported never leaves the run stuck: the process that
collects the results has a step. -/
theorem programaFinalizado {configuration : Config} {servidorVuelve : Bool}
    (htest : configuration.test = false) (hweb : configuration.wn = true ∨ servidorVuelve = false)
    {s : Estado (encodingsNumber configuration)} (hs : Alcanzable configuration servidorVuelve s) :
    (∀ p s', Paso configuration servidorVuelve p s s' → s.main = .espera → s'.main ≠ .espera →
        ∀ e, s.impresos.count e = 1) ∧
      ∀ e, s.codificador e = .envia ∨ s.codificador e = .fin → e ∉ s.impresos →
        ∃ s', Paso configuration servidorVuelve .codificaciones s s' := by
  have h := hs.invariante htest hweb
  refine ⟨fun p s' hp hm hm' e => ?_, fun e he hno => h.exists_paso htest he hno⟩
  cases hp with
  | recibirCodificaciones _ hc => exact h.count_impresos (by rw [hc]; rfl) e
  | recibirServidor _ hserv => exact absurd hserv h.servidor.2
  | terminar hm'' => simp [hm] at hm''
  | lanzarCodificaciones hm'' => simp [hm] at hm''
  | lanzarServidor hm'' => simp [hm] at hm''
  | _ => exact absurd hm hm'

/-- Two encoders, of which the second one ends first, from the start to the
message. -/
theorem programaFinalizado_dos : ∃ s s' : Estado 2,
    Alcanzable { Config.minima with encodings := [⟨"h264", []⟩, ⟨"hevc", []⟩] } false s ∧
      Paso { Config.minima with encodings := [⟨"h264", []⟩, ⟨"hevc", []⟩] } false .main s s' ∧
      s'.main = .imprime ∧ s.impresos = [1, 0] ∧ ∀ e, s.impresos.count e = 1 := by
  have h : Alcanzable { Config.minima with encodings := [⟨"h264", []⟩, ⟨"hevc", []⟩] } false _ :=
    Relation.ReflTransGen.refl
    |>.tail ⟨_, .lanzarCodificaciones rfl⟩
    |>.tail ⟨_, .lanzarServidor rfl⟩
    |>.tail ⟨_, .empezar (by simp) rfl rfl⟩
    |>.tail ⟨_, .lanzar (by simp) ⟨0, by decide⟩ rfl⟩
    |>.tail ⟨_, .lanzar (by simp) ⟨1, by decide⟩ rfl⟩
    |>.tail ⟨_, .lanzados (by simp) rfl⟩
    |>.tail ⟨_, .codificado (by simp) ⟨1, by decide⟩ rfl⟩
    |>.tail ⟨_, .codificado (by simp) ⟨0, by decide⟩ rfl⟩
    |>.tail ⟨_, .recibir (by simp) rfl (by decide) ⟨1, by decide⟩ rfl⟩
    |>.tail ⟨_, .imprimir (by simp) rfl⟩
    |>.tail ⟨_, .recibir (by simp) rfl (by decide) ⟨0, by decide⟩ rfl⟩
    |>.tail ⟨_, .imprimir (by simp) rfl⟩
    |>.tail ⟨_, .acabar (by simp) rfl⟩
  exact ⟨_, _, h, .recibirCodificaciones rfl rfl, rfl, rfl,
    (programaFinalizado rfl (.inr rfl) h).1 _ _ (.recibirCodificaciones rfl rfl) rfl (by simp)⟩

end HlsXcoder
