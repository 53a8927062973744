import HlsXcoder.Codificacion.Bitrates
import HlsXcoder.Codificacion.Emision
import HlsXcoder.ServidorWeb.Peticiones
import HlsXcoder.Web.MasterPlaylist
import HlsXcoder.Web.Reproduccion

/-!
# A command and its player

The player of the page plays what a command writes: it finds its
playlists through the addresses of the master, and their segments through
those of the playlists. Resolved as the player resolves them they are the
addresses of the files on disk (`resolveUrl_pista`,
`resolveUrl_nombre`), and the server answers each of them with its own
file or with none (`ficheroServido_iff`).

So whatever the player has of a playlist is what the output of its track
wrote, segment by segment, and each segment is at an address that is
answered with its file (`sesion_fiel`, and `sesion_rendicion` for a
rendition). The player of a command does come to read them
(`Emite.exists_variante`), and to read more of them
(`Emite.exists_rendicion`).
-/

namespace HlsXcoder

open FileTree Mux OptionGroups UrlToolkit

/-- The addresses of the renditions of a master, but for those of the
video, which the player does not load apart. -/
def resolveMediaGroupUris (location uri : String) (mediaGroups : MediaGroups) (clave : ClaveMedia) :
    Option String :=
  if clave.1 = "AUDIO" ∨ clave.1 = "SUBTITLES" then
    (((mediaGroups clave).bind Rendition.uri).filter (· ≠ "")).map (resolveUrl location uri)
  else none

/-! ## The addresses of the files -/

section Direcciones

variable (configuration : Config) (programa : Programa) (encoding : Option Codificacion)

/-- The address of a file of an encoding. -/
def direccionDe (fichero : String) : String :=
  "https://" ++ configuration.ip ++ peticion configuration encoding fichero

/-- The file that is answered to a request for an address. -/
def ficheroServido (entorno : Entorno) (url : String) : Option String :=
  match serveHTTP (rutas configuration compilePattern configuration.encodings) "GET" (urlPath url) with
  | .handle m vars =>
    match m.atender entorno configuration vars with
    | .fichero mediaFile _ => some mediaFile
    | _ => none
  | _ => none

/-- **A command that can be played**: its addresses are made of names,
and its languages and bitrates are those of a probe and a command line. -/
structure Reproducible : Prop where
  publicable : Publicable configuration
  urlSubpath : configuration.urlSubpath ≠ ""
  ip : ∀ c ∈ configuration.ip.toList, terminaHost c = false
  camino : encoding ∈ caminos configuration.encodings
  idiomas : programa.ConIdiomas
  bitrates : ∀ b ∈ bitratesDe encoding, EsBitrateCorto b

/-- The parts of the path of a track, above its files. -/
def partesDe (t : Pista) : List (List Char) :=
  partesCamino configuration encoding configuration.mediaId.toList ++ t.rama.partes t.idioma.toList

/-- The scheme and the host. -/
def origenDe : List Char := "https://".toList ++ configuration.ip.toList

theorem toList_direccionDe (t : Pista) {nombre : String} (h : '/' ∉ nombre.toList) :
    (direccionDe configuration encoding (t.relativa nombre)).toList = origenDe configuration ++
      (pathOf (partesDe configuration encoding t) ++ '/' :: nombre.toList) := by
  have hpeticion := @toList_peticion configuration encoding (t.relativa nombre)
  rw [Pista.toList_uriDeFichero t h] at hpeticion
  unfold direccionDe origenDe partesDe
  rw [String.toList_append, String.toList_append, hpeticion, pathOf_append]
  simp only [List.append_assoc]

theorem toList_direccion_hls : (direccion configuration encoding .hls).toList = origenDe configuration ++
    (pathOf (partesDe configuration encoding .defecto) ++ '/' :: "hls.m3u8".toList) := by
  have hpartes : partesDe configuration encoding .defecto =
      partesCamino configuration encoding configuration.mediaId.toList := List.append_nil _
  rw [toList_direccion, hpartes]
  unfold origenDe rutaPublicada Manejador.fichero
  simp only [List.append_assoc]

/-! ## Their characters -/

/-- A character of an address below the directory of an encoding. -/
def esDeRutaPublicada (c : Char) : Bool := esNombre c || esDeIdioma c || c = '.'

/-- A part of a path that stands for itself. -/
def EsParte (p : List Char) : Prop := IsName p ∧ ∀ c ∈ p, esDeRutaPublicada c = true

theorem EsTexto.of_esDeRutaPublicada {s : List Char} (h : ∀ c ∈ s, esDeRutaPublicada c = true) :
    EsTexto s := by
  intro c hc
  have hchar := h c hc
  have hidioma (hi : esDeIdioma c = true) : 44 ≤ c.toNat ∧ c.toNat ≤ 122 := by
    have hsolo : EsIdioma (.ofList [c]) := ⟨by simp [← String.toList_inj], by simp [hi]⟩
    exact EsTexto.of_esIdioma hsolo c (by simp)
  simp only [esDeRutaPublicada, esNombre, Bool.or_eq_true, decide_eq_true_eq] at hchar
  rcases hchar with ((halnum | rfl) | hi) | rfl
  · exact hidioma (by simp [esDeIdioma, halnum])
  · decide
  · exact hidioma hi
  · decide

theorem esLiteral_of_esDeRutaPublicada {s : List Char} (h : ∀ c ∈ s, esDeRutaPublicada c = true) :
    EsLiteral s := by
  intro c hc
  have hne {x : Char} (hx : esDeRutaPublicada x = false) : c ≠ x := by
    rintro rfl
    exact absurd ((h c hc).symm.trans hx) (by decide)
  exact ⟨hne (by decide), hne (by decide), hne (by decide), hne (by decide),
    (EsTexto.of_esDeRutaPublicada h).esEspacio hc⟩

variable {configuration programa encoding}

/-- The names of the files of a track. -/
theorem esDeRutaPublicada_of_nombra {t : Pista}
    (ht : t.lista.toList.all esNombre = true ∧ t.segmento.toList.all esNombre = true) {enc : String}
    {k : Option ℕ} {s e : String} (hn : t.Nombra enc k s e) :
    ∀ c ∈ (s ++ "." ++ e).toList, esDeRutaPublicada c = true := by
  have hnombre {s : String} (h : s.toList.all esNombre = true) : ∀ c ∈ s.toList,
      esDeRutaPublicada c = true := fun c hc => by
    simp [esDeRutaPublicada, List.all_eq_true.1 h c hc]
  have hpad (w n : ℕ) : ∀ c ∈ (String.ofList (Text.pad w n)).toList, esDeRutaPublicada c = true := by
    intro c hc
    rw [String.toList_ofList] at hc
    simp [esDeRutaPublicada, esNombre, Char.isAlphanum, Text.isDigit_of_mem_pad hc]
  have hune {s t : String} (hs : ∀ c ∈ s.toList, esDeRutaPublicada c = true)
      (ht : ∀ c ∈ t.toList, esDeRutaPublicada c = true) :
      ∀ c ∈ (s ++ t).toList, esDeRutaPublicada c = true := by
    rw [String.toList_append]
    exact List.forall_mem_append.2 ⟨hs, ht⟩
  have htodo {s : String} (h : s.toList.all esDeRutaPublicada = true) :
      ∀ c ∈ s.toList, esDeRutaPublicada c = true := List.all_eq_true.1 h
  have hpunto {s e : String} (hs : ∀ c ∈ s.toList, esDeRutaPublicada c = true)
      (he : e.toList.all esDeRutaPublicada = true) :
      ∀ c ∈ (s ++ "." ++ e).toList, esDeRutaPublicada c = true :=
    hune (hune hs (htodo (by decide))) (htodo he)
  cases hn with
  | lista => exact hpunto (hnombre ht.1) (by decide)
  | listaVtt => exact hpunto (hune (hnombre ht.1) (htodo (by decide))) (by decide)
  | inicial => exact hpunto (htodo (by decide)) (by decide)
  | segmento n => exact hpunto (hune (hnombre ht.2) (hpad _ n)) (by split <;> decide)
  | segmentoVtt _ n => exact hpunto (hune (hnombre ht.1) (hpad _ n)) (by decide)

namespace Reproducible

variable (h : Reproducible configuration programa encoding)

include h

/-- The parts of the path of a track are names. -/
theorem partes {t : Pista} (ht : t ∈ pistas programa encoding) :
    ∀ p ∈ partesDe configuration encoding t, EsParte p := by
  have hplain {p : List Char} (hp : ∀ c ∈ p, Regexp.IsPlain c) : ∀ c ∈ p, esDeRutaPublicada c = true := by
    intro c hc
    rcases hp c hc with halnum | rfl
    · simp [esDeRutaPublicada, esNombre, halnum]
    · decide
  have hsub := h.publicable.isPlain_of_mem_partesCamino h.camino
  have hcamino : ∀ p ∈ partesCamino configuration encoding configuration.mediaId.toList, IsName p := by
    have hpartes := h.publicable.isName_partes h.urlSubpath h.camino .hls
    exact (List.forall_mem_append.1 hpartes).1
  refine List.forall_mem_append.2 ⟨fun p hp => ⟨hcamino p hp, hplain (hsub p hp)⟩, ?_⟩
  have hidioma := esIdioma_of_mem_pistas h.idiomas ht
  have hlengua (hi : EsIdioma t.idioma) : EsParte t.idioma.toList :=
    ⟨isName_of_esIdioma hi, fun c hc => by simp [esDeRutaPublicada, List.all_eq_true.1 hi.chars c hc]⟩
  have hdir {d : List Char} (hname : IsName d) (hd : d.all esDeRutaPublicada = true) : EsParte d :=
    ⟨hname, List.all_eq_true.1 hd⟩
  cases t with
  | video | defecto => exact List.forall_mem_nil _
  | quemado b l | audio l | teletexto l =>
    exact List.forall_mem_cons.2 ⟨hdir (by decide) (by decide), List.forall_mem_singleton.2
      (hlengua (hidioma.resolve_left (by simp [Pista.nombres])))⟩

end Reproducible

/-! ## How the player resolves them -/

theorem isDescent_pathOf {ps : List (List Char)} (hps : ∀ p ∈ ps, IsName p) : IsDescent (pathOf ps) :=
  ⟨ps, rfl, hps⟩

theorem esLiteral_pathOf {ps : List (List Char)}
    (hps : ∀ p ∈ ps, ∀ c ∈ p, esDeRutaPublicada c = true) : EsLiteral (pathOf ps) := by
  intro c hc
  obtain ⟨p, hp, hc⟩ := List.mem_flatMap.1 hc
  rcases List.mem_cons.1 hc with rfl | hc
  · exact ⟨by decide, by decide, by decide, by decide, by decide⟩
  · exact esLiteral_of_esDeRutaPublicada (hps p hp) c hc

/-- **A path of names takes the place of the last part of an address.** -/
theorem resolveUrl_partes (location : String) (hip : ∀ c ∈ configuration.ip.toList, terminaHost c = false)
    {base rel : String} {ps qs : List (List Char)} {file nombre : List Char}
    (hps : ∀ p ∈ ps ++ [file], EsParte p) (hqs : ∀ p ∈ qs ++ [nombre], EsParte p)
    (hbase : base.toList = origenDe configuration ++ (pathOf ps ++ '/' :: file))
    (hrel : '/' :: rel.toList = pathOf qs ++ '/' :: nombre) :
    (resolveUrl location base rel).toList =
      origenDe configuration ++ (pathOf (ps ++ qs) ++ '/' :: nombre) := by
  have horigen : EsOrigen (origenDe configuration) :=
    ⟨configuration.ip.toList, fun c hc => by simpa [terminaHost, esDeHost] using hip c hc, rfl⟩
  have huno (qs : List (List Char)) (p : List Char) : pathOf qs ++ '/' :: p = pathOf (qs ++ [p]) := by
    rw [pathOf_append]
    simp [pathOf]
  have hlit : EsLiteral (pathOf ps ++ '/' :: file) := by
    rw [huno]
    exact esLiteral_pathOf fun p hp => (hps p hp).2
  have hlit' : EsLiteral ('/' :: rel.toList) := by
    rw [hrel, huno]
    exact esLiteral_pathOf fun p hp => (hqs p hp).2
  have hdescenso : IsDescent ('/' :: rel.toList) := by
    rw [hrel, huno]
    exact isDescent_pathOf fun p hp => (hqs p hp).1
  have hfile := (hps file (List.mem_append_right _ (List.mem_singleton_self _))).1
  rw [resolveUrl_descenso location horigen hbase
    (isDescent_pathOf fun p hp => (hps p (List.mem_append_left _ hp)).1) hfile.noSlash hdescenso hlit
    fun c hc => hlit' c (List.mem_cons_of_mem _ hc), hrel, pathOf_append, List.append_assoc]

namespace Reproducible

variable (h : Reproducible configuration programa encoding) {t : Pista} (ht : t ∈ pistas programa encoding)

include h ht

theorem esParte {enc : String} {k : Option ℕ} {s e : String} (hn : t.Nombra enc k s e) :
    EsParte (s ++ "." ++ e).toList := by
  have hchars := esNombre_of_mem_pistas (fun b hb => (h.bitrates b hb).1) ht
  exact ⟨Pista.isName_of_nombra hchars hn, esDeRutaPublicada_of_nombra hchars hn⟩

/-- **What a playlist of a track names is beside it.** -/
theorem resolveUrl_nombre (location : String) {enc enc' : String} {k k' : Option ℕ} {s e s' e' : String}
    (hn : t.Nombra enc k s e) (hn' : t.Nombra enc' k' s' e') :
    resolveUrl location (direccionDe configuration encoding (t.relativa (s ++ "." ++ e)))
      (s' ++ "." ++ e') = direccionDe configuration encoding (t.relativa (s' ++ "." ++ e')) := by
  have hparte := h.esParte ht hn
  have hparte' := h.esParte ht hn'
  have hrel : '/' :: (s' ++ "." ++ e').toList = pathOf [] ++ '/' :: (s' ++ "." ++ e').toList := rfl
  rw [← String.toList_inj, resolveUrl_partes location h.ip
    (List.forall_mem_append.2 ⟨h.partes ht, List.forall_mem_singleton.2 hparte⟩)
    (List.forall_mem_singleton.2 hparte') (toList_direccionDe _ _ t hparte.1.noSlash) hrel, List.append_nil,
    toList_direccionDe _ _ t hparte'.1.noSlash]

/-- **What the master says of a track leads to its directory.** -/
theorem resolveUrl_pista (location : String) {enc : String} {k : Option ℕ} {s e : String}
    (hn : t.Nombra enc k s e) {uri : String}
    (huri : '/' :: uri.toList = pathOf (t.rama.partes t.idioma.toList) ++ '/' :: (s ++ "." ++ e).toList) :
    resolveUrl location (direccion configuration encoding .hls) uri =
      direccionDe configuration encoding (t.relativa (s ++ "." ++ e)) := by
  have hparte := h.esParte ht hn
  obtain ⟨hcamino, hpartes⟩ := List.forall_mem_append.1 (h.partes ht)
  have hmaestra : EsParte "hls.m3u8".toList := ⟨by decide, List.all_eq_true.1 (by decide)⟩
  have hdefecto : ∀ p ∈ partesDe configuration encoding .defecto ++ ["hls.m3u8".toList], EsParte p := by
    have hvacio : partesDe configuration encoding .defecto =
        partesCamino configuration encoding configuration.mediaId.toList := List.append_nil _
    rw [hvacio]
    exact List.forall_mem_append.2 ⟨hcamino, List.forall_mem_singleton.2 hmaestra⟩
  have hjunto : partesDe configuration encoding .defecto ++ t.rama.partes t.idioma.toList =
      partesDe configuration encoding t := by
    rw [partesDe, partesDe]
    simp [Pista.rama, Rama.partes]
  rw [← String.toList_inj, resolveUrl_partes location h.ip hdefecto
    (List.forall_mem_append.2 ⟨hpartes, List.forall_mem_singleton.2 hparte⟩)
    (toList_direccion_hls configuration encoding) huri, hjunto, toList_direccionDe _ _ t hparte.1.noSlash]

end Reproducible

/-- **The address of a variant is that of the playlist of its track.** -/
theorem exists_pista_variante (hb : ∀ b ∈ bitratesDe encoding, EsBitrate b) {v : Variante}
    (hv : v ∈ variantesM3U8 programa (bitratesDe encoding)) :
    ∃ t ∈ pistas programa encoding, t.webvtt = false ∧ '/' :: v.uri.toList =
      pathOf (t.rama.partes t.idioma.toList) ++ '/' :: (t.lista ++ "." ++ "m3u8").toList := by
  obtain ⟨bitrate, hbitrate, hv⟩ := List.mem_flatMap.1 hv
  have hsome (b : String) (h : bitrate = some b) : b ∈ bitratesDe encoding ∧ b ≠ "" := by
    rw [bitratesM3U8, h] at hbitrate
    split at hbitrate
    · simp at hbitrate
    · have hmem : b ∈ bitratesDe encoding := by simpa using hbitrate
      exact ⟨hmem, ne_empty_of_esBitrate (hb b hmem)⟩
  have hnone (h : bitrate = none) : bitratesDe encoding = [] := by
    rw [bitratesM3U8, h] at hbitrate
    split at hbitrate
    · assumption
    · simp at hbitrate
  rcases List.mem_cons.1 hv with rfl | hv
  · cases bitrate with
    | none => exact ⟨.defecto, defecto_mem_pistas.2 (hnone rfl), rfl, rfl⟩
    | some b =>
      obtain ⟨hmem, hne⟩ := hsome b rfl
      refine ⟨.video b, video_mem_pistas.2 hmem, rfl, ?_⟩
      simp [Variante.uri, Variante.lista, hne, Pista.rama, Rama.partes, Pista.lista, pathOf]
  · obtain ⟨language, hlanguage, rfl⟩ := List.mem_map.1 hv
    rw [quemados] at hlanguage
    split at hlanguage
    · cases hlanguage
    · rename_i hteletext
      obtain ⟨e, he, rfl⟩ := List.mem_map.1 hlanguage
      refine ⟨.quemado (bitrate.getD "") e.language, quemado_mem_pistas.2
        ⟨Bool.eq_false_iff.2 hteletext, ⟨e, he, rfl⟩, ?_⟩, rfl, ?_⟩
      · cases bitrate with
        | none => exact .inr ⟨hnone rfl, rfl⟩
        | some b => exact .inl (hsome b rfl).1
      · cases bitrate with
        | none =>
          simp [Variante.uri, Variante.prefijo, Pista.rama, Pista.idioma, Rama.partes, Pista.lista, pathOf]
        | some b =>
          simp [Variante.uri, Variante.prefijo, (hsome b rfl).2, Pista.rama, Pista.idioma, Rama.partes,
            Pista.lista, pathOf]

/-- The first variant is the principal of a track of the video. -/
theorem exists_pista_principal (hb : ∀ b ∈ bitratesDe encoding, EsBitrate b) :
    ∃ v vs, variantesM3U8 programa (bitratesDe encoding) = v :: vs ∧ ∃ t ∈ pistas programa encoding,
      t.IdiomaServido ∧ '/' :: v.uri.toList =
        pathOf (t.rama.partes t.idioma.toList) ++ '/' :: (t.lista ++ "." ++ "m3u8").toList := by
  cases hbitrates : bitratesDe encoding with
  | nil => exact ⟨_, _, rfl, .defecto, defecto_mem_pistas.2 hbitrates, trivial, rfl⟩
  | cons b bs =>
    have hmem : b ∈ bitratesDe encoding := hbitrates ▸ List.mem_cons_self
    have hne := ne_empty_of_esBitrate (hb b hmem)
    refine ⟨_, _, rfl, .video b, video_mem_pistas.2 hmem, trivial, ?_⟩
    simp [Variante.uri, Variante.lista, hne, Pista.rama, Rama.partes, Pista.lista, pathOf]

/-! ## How the server answers them -/

/-- The path of an address. -/
theorem urlPath_direccionDe (h : Reproducible configuration programa encoding) {t : Pista}
    (ht : t ∈ pistas programa encoding) {nombre : String} (hnombre : EsParte nombre.toList) :
    urlPath (direccionDe configuration encoding (t.relativa nombre)) =
      (peticion configuration encoding (t.relativa nombre)).toList := by
  have hpeticion : (peticion configuration encoding (t.relativa nombre)).toList =
      pathOf (partesDe configuration encoding t ++ [nombre.toList]) := by
    rw [toList_peticion, Pista.toList_uriDeFichero t hnombre.1.noSlash, partesDe, pathOf_append,
      pathOf_append, List.append_assoc]
    simp [pathOf]
  have hlit : EsLiteral (peticion configuration encoding (t.relativa nombre)).toList := by
    rw [hpeticion]
    exact esLiteral_pathOf (List.forall_mem_append.2
      ⟨fun p hp => (h.partes ht p hp).2, List.forall_mem_singleton.2 hnombre.2⟩)
  have hruta : (peticion configuration encoding (t.relativa nombre)).toList.takeWhile
      (fun c => !terminaRuta c) = (peticion configuration encoding (t.relativa nombre)).toList :=
    List.takeWhile_eq_self_iff.2 fun c hc => by simp [terminaRuta, (hlit c hc).2.1, (hlit c hc).2.2.1]
  have hcorte : (direccionDe configuration encoding (t.relativa nombre)).toList.drop "https://".length =
      configuration.ip.toList ++ (peticion configuration encoding (t.relativa nombre)).toList := by
    have hlength : "https://".length = "https://".toList.length := rfl
    unfold direccionDe
    rw [String.toList_append, String.toList_append, hlength, List.append_assoc, List.drop_left]
  obtain ⟨resto, hresto⟩ : ∃ resto, (peticion configuration encoding (t.relativa nombre)).toList =
      '/' :: resto := by
    rw [hpeticion]
    cases partesDe configuration encoding t <;> exact ⟨_, rfl⟩
  rw [urlPath, hcorte, List.dropWhile_append_of_pos fun c hc => by simp [h.ip c hc], hresto,
    List.dropWhile_cons_of_neg (by decide), ← hresto, hruta]

/-- **Which file the address of a file is answered with**: itself, where
the routes take its language, its number and its name. -/
theorem ficheroServido_iff (h : Reproducible configuration programa encoding) (entorno : Entorno)
    {t : Pista} (ht : t ∈ pistas programa encoding) {enc : String} {k : Option ℕ} {s e : String}
    (hn : t.Nombra enc k s e) {f : String} :
    ficheroServido configuration entorno
        (direccionDe configuration encoding (t.relativa (s ++ "." ++ e))) = some f ↔
      f = codificacionPath configuration encoding ++ t.carpeta ++ "/" ++ (s ++ "." ++ e) ∧
        t.IdiomaServido ∧ (∀ n ∈ k, n < 10 ^ 20) ∧ (t.rama = .subtitulo → e ≠ "mp4") := by
  have henrutable := h.publicable.enrutable
  have hchars := esNombre_of_mem_pistas (fun b hb => (h.bitrates b hb).1) ht
  have hidioma := not_mem_idioma h.idiomas ht (c := '/') (by decide)
  have hs := (Pista.nombra_chars hchars hn).1
  have he := extension_of_nombra hn
  have hsub : IsName configuration.urlSubpath.toList :=
    (h.partes ht _ (List.mem_append_left _ List.mem_cons_self)).1
  have hlengua := toma_iff (esIdioma_of_mem_pistas h.idiomas ht)
  have hlang := exists_lang_iff h.bitrates ht hn
  obtain ⟨hbarra, hpunto, hext⟩ := forma_extension e he
  rw [← ext_append hs hbarra hpunto] at hext
  obtain ⟨contentType, hanswer⟩ := @manejadorHLS_pedido configuration encoding entorno t _ hext
  rw [ficheroServido, urlPath_direccionDe h ht (h.esParte ht hn)]
  constructor
  · intro hf
    split at hf
    · rename_i m vars hserve
      have hroute := (serveHTTP_eq_handle.1 hserve).2
      have hlee := hroute
      rw [toList_peticion] at hlee
      obtain ⟨es, hes, vs, hread⟩ := henrutable.exists_reads_of_route h.camino hlee
      cases m with
      | hls =>
        obtain ⟨htoma, hlang', -⟩ := (reads_peticion_iff hidioma hs he).1 ⟨es, hes, hread⟩
        have hruta := hroute.symm.trans (route_peticion henrutable h.camino hidioma hs he htoma hlang')
        obtain rfl := (Prod.mk.inj (Option.some_inj.1 hruta)).2
        rw [Manejador.atender, hanswer] at hf
        exact ⟨(Option.some_inj.1 hf).symm, hlengua.1 htoma, hlang.1 hlang'⟩
      | paginaWebVideoPlayer =>
        -- no route of the page reads the name of a file
        have hnombre : pathOf (t.rama.partes t.idioma.toList) ++ '/' :: (s ++ "." ++ e).toList =
            (pathOf (t.rama.partes t.idioma.toList) ++ '/' :: s.toList) ++ '.' :: e.toList := by simp
        rw [Pista.toList_uriDeFichero t (slash_notMem_nombre hs he), hnombre] at hread
        exact absurd hread (not_reads_reproductor hes he _)
    · cases hf
  · rintro ⟨rfl, hservido, hresto⟩
    rw [(serveHTTP_peticion henrutable h.camino hsub h.idiomas h.bitrates ht hn).2
      (route_peticion henrutable h.camino hidioma hs he (hlengua.2 hservido) (hlang.2 hresto))]
    simp only [Manejador.atender, hanswer]

/-- The address of the master is answered with it. -/
theorem ficheroServido_hls (h : Reproducible configuration programa encoding) (entorno : Entorno) :
    ficheroServido configuration entorno (direccion configuration encoding .hls) =
      some (codificacionPath configuration encoding ++ "/hls.m3u8") := by
  obtain ⟨contentType, hfichero⟩ := @atender_hls configuration encoding _ entorno rfl
  rw [ficheroServido, h.publicable.serveHTTP_eq h.camino h.urlSubpath h.ip .hls]
  simp only [hfichero]

end Direcciones

/-! ## The muxers of a command -/

/-- The name of a playlist of a track, without its extension. -/
def Pista.nombreLista (t : Pista) (vtt : Bool) : String := if vtt then t.lista ++ "_vtt" else t.lista

/-- **The address of a rendition is that of a playlist of its track.** -/
theorem exists_pista_rendicion {programa : Programa} {encoding : Option Codificacion} {clave : ClaveMedia}
    (hclave : clave ∈ clavesM3U8 programa) (htipo : clave.1 = "AUDIO" ∨ clave.1 = "SUBTITLES") {uri : String}
    (huri : (renditionM3U8 clave).uri = some uri) :
    ∃ t ∈ pistas programa encoding, t.idioma = clave.2.2 ∧ ∃ vtt, (vtt = true → t.webvtt = true) ∧
      '/' :: uri.toList = pathOf (t.rama.partes t.idioma.toList) ++
        '/' :: (t.nombreLista vtt ++ "." ++ "m3u8").toList := by
  rcases List.mem_append.1 hclave with h | h
  · obtain ⟨e, he, rfl⟩ := List.mem_map.1 h
    obtain rfl := Option.some_inj.1 huri
    refine ⟨.audio e.language, audio_mem_pistas.2 ⟨e, he, rfl⟩, rfl, false,
      fun hno => absurd hno Bool.false_ne_true, ?_⟩
    simp [Pista.nombreLista, Pista.lista, Pista.rama, Pista.idioma, Rama.partes, pathOf]
  · split at h
    · rename_i hteletext
      obtain ⟨e, he, rfl⟩ := List.mem_map.1 h
      obtain rfl := Option.some_inj.1 huri
      refine ⟨.teletexto e.language, teletexto_mem_pistas.2 ⟨hteletext, e, he, rfl⟩, rfl, true, fun _ => rfl, ?_⟩
      simp [Pista.nombreLista, Pista.lista, Pista.rama, Pista.idioma, Rama.partes, pathOf]
    · obtain ⟨e, -, rfl⟩ := List.mem_map.1 h
      simp at htipo

/-- **The muxers of a command**, one for each output, which share no
file. -/
structure Emite (configuration : Config) (programa : Programa) (encoding : Option Codificacion)
    (orden : Command String) (hls : Fin orden.outputs.length → HLSContext) : Prop where
  comando : comandoFfmpeg configuration programa encoding = some orden
  salida : ∀ k : Fin orden.outputs.length, HLSContext.deSalida orden.outputs[k] = some (hls k)
  disjuntos : FicherosDisjuntos (codificacionPath configuration encoding) orden
  ruta : '%' ∉ (codificacionPath configuration encoding).toList

section Emite

variable {configuration : Config} {programa : Programa} {encoding : Option Codificacion}

/-- An output carries a track. -/
def LlevaPista (configuration : Config) (programa : Programa) (encoding : Option Codificacion)
    (x : Salida) (t : Pista) : Prop :=
  t ∈ pistas programa encoding ∧ plantilla x = t.plantilla configuration programa encoding

theorem LlevaPista.esNombre {x : Salida} {t : Pista} (h : LlevaPista configuration programa encoding x t)
    (hrep : Reproducible configuration programa encoding) :
    t.lista.toList.all HlsXcoder.esNombre = true ∧ t.segmento.toList.all HlsXcoder.esNombre = true :=
  esNombre_of_mem_pistas (fun b hb => (hrep.bitrates b hb).1) h.1

theorem escribe_m3u8 {x : Salida} {hls : HLSContext} (h : HLSContext.deSalida x = some hls) {vtt : Bool}
    (hvtt : vtt = true → hls.hasSubtitle = true) : (plantilla x).Escribe (hls.m3u8 vtt) := by
  obtain ⟨n, -, h⟩ := Option.bind_eq_some_iff.1 h
  obtain ⟨y, hy, rfl⟩ := Option.map_eq_some_iff.1 h
  refine ⟨y, hy, .lista ?_⟩
  cases vtt with
  | false => exact List.mem_cons_self
  | true =>
    rw [Plantilla.listas, if_pos (of_decide_eq_true (hvtt rfl))]
    exact List.mem_cons_of_mem _ List.mem_cons_self

variable {orden : Command String} {hls : Fin orden.outputs.length → HLSContext}

namespace Emite

variable (h : Emite configuration programa encoding orden hls)

include h

theorem exists_pista (k : Fin orden.outputs.length) :
    ∃ t, LlevaPista configuration programa encoding orden.outputs[k] t := by
  obtain ⟨-, rfl⟩ := comandoFfmpeg_eq_some_iff.1 h.comando
  exact HlsXcoder.exists_pista (List.getElem_mem _)

theorem exists_salida {t : Pista} (ht : t ∈ pistas programa encoding) :
    ∃ k : Fin orden.outputs.length, LlevaPista configuration programa encoding orden.outputs[k] t := by
  obtain ⟨-, rfl⟩ := comandoFfmpeg_eq_some_iff.1 h.comando
  have hmem := List.mem_map_of_mem (f := Pista.plantilla configuration programa encoding) ht
  rw [← map_plantilla_salidas] at hmem
  obtain ⟨x, hx, heq⟩ := List.mem_map.1 hmem
  obtain ⟨k, hk, rfl⟩ := List.mem_iff_getElem.1 hx
  exact ⟨⟨k, hk⟩, ht, heq⟩

/-- Two playlists of a command have two names. -/
theorem m3u8_ne {k k' : Fin orden.outputs.length} (hne : k ≠ k') {vtt vtt' : Bool}
    (hvtt : vtt = true → (hls k).hasSubtitle = true) (hvtt' : vtt' = true → (hls k').hasSubtitle = true) :
    (hls k).m3u8 vtt ≠ (hls k').m3u8 vtt' := by
  intro heq
  have hescribe := escribe_m3u8 (h.salida k) hvtt
  have hescribe' := escribe_m3u8 (h.salida k') hvtt'
  have hpares := List.pairwise_iff_getElem.1 h.disjuntos.disjuntos
  rcases lt_or_gt_of_ne (fun hval => hne (Fin.ext hval)) with hlt | hlt
  · exact hpares k k' k.2 k'.2 hlt _ hescribe (heq ▸ hescribe')
  · exact hpares k' k k'.2 k.2 hlt _ hescribe' (heq ▸ hescribe)

variable (hrep : Reproducible configuration programa encoding) {k : Fin orden.outputs.length} {t : Pista}
  (hk : LlevaPista configuration programa encoding orden.outputs[k] t)

include hrep hk in
theorem carpeta : '%' ∉ (codificacionPath configuration encoding ++ t.carpeta).toList := by
  have hlengua {e : Stream} (he : e ∈ programa.audio ++ programa.subtitulos) : '%' ∉ e.language.toList :=
    fun hc => absurd (List.all_eq_true.1 (hrep.idiomas e he).chars _ hc) (by decide)
  have hrutas : RutasLiterales configuration programa encoding :=
    ⟨h.ruta, fun e he => hlengua (List.mem_append_left _ he), fun e he => hlengua (List.mem_append_right _ he)⟩
  exact hrutas.carpeta hk.1

include hrep hk in
theorem lleva : (hls k).Lleva configuration programa encoding t := by
  refine HLSContext.lleva_of_deSalida (h.salida k) ?_
  rw [hk.2]
  exact inicia_plantilla (hk.esNombre hrep) (h.carpeta hrep hk)

include hrep hk in
theorem webvtt_of_tiene {vtt : Bool} (hvtt : vtt = true → (hls k).hasSubtitle = true) :
    vtt = true → t.webvtt = true := by
  intro htrue
  have hsub := hvtt htrue
  rw [(h.lleva hrep hk).hasSubtitle_iff] at hsub
  exact (plantilla_webvtt_iff t).1 hsub

include hrep hk in
theorem nombra_lista {vtt : Bool} (hvtt : vtt = true → (hls k).hasSubtitle = true) :
    t.Nombra (codificacionNombre programa encoding) none (t.nombreLista vtt) "m3u8" := by
  cases vtt with
  | false => exact .lista
  | true => exact .listaVtt (h.webvtt_of_tiene hrep hk hvtt rfl)

include hrep hk in
/-- **The playlists of an output are those of its track.** -/
theorem m3u8_eq (vtt : Bool) : (hls k).m3u8 vtt = codificacionPath configuration encoding ++ t.carpeta ++
    "/" ++ (t.nombreLista vtt ++ "." ++ "m3u8") := by
  have hlleva := h.lleva hrep hk
  have hm3u8 : ".m3u8" = "." ++ "m3u8" := rfl
  cases vtt with
  | false =>
    have hurl : (hls k).m3u8 false = (hls k).url := rfl
    rw [hurl, hlleva.url, Pista.destino_plantilla, hm3u8]
    simp only [Pista.nombreLista, String.append_assoc, Bool.false_eq_true, if_false]
  | true =>
    have hvtt : (hls k).m3u8 true = sinExtension (hls k).url ++ "_vtt.m3u8" := rfl
    have hsufijo : "_vtt.m3u8" = "_vtt" ++ ("." ++ "m3u8") := rfl
    rw [hvtt, hlleva.url, sinExtension_destino_plantilla, hsufijo]
    simp only [Pista.nombreLista, String.append_assoc, if_true]

include hrep hk

theorem numera : (hls k).Numera :=
  numera_of_lleva (h.lleva hrep hk) (hk.esNombre hrep) (h.carpeta hrep hk)

/-- **Its segments are those of its track.** -/
theorem exists_nombra {vtt : Bool} (hvtt : vtt = true → (hls k).hasSubtitle = true) (n : ℕ) :
    ∃ s e, t.Nombra (codificacionNombre programa encoding) (some n) s e ∧ (hls k).fragmento vtt n =
      codificacionPath configuration encoding ++ t.carpeta ++ "/" ++ (s ++ "." ++ e) ∧ e ≠ "mp4" := by
  have hchars := hk.esNombre hrep
  have hruta := h.carpeta hrep hk
  cases vtt with
  | false =>
    refine ⟨_, _, .segmento n, (nombre_eq (h.lleva hrep hk) hchars hruta n).trans ?_, ?_⟩
    · rw [extensionDe]
      simp only [String.append_assoc]
    · split <;> decide
  | true =>
    refine ⟨_, _, .segmentoVtt (h.webvtt_of_tiene hrep hk hvtt rfl) n,
      (nombreVtt_eq (h.lleva hrep hk) hchars hruta n).trans ?_, by decide⟩
    simp only [String.append_assoc]

end Emite

/-! ## What the player has of it -/

/-- A command and its player, from the address of a playlist on. -/
def despliegueDe (configuration : Config) (programa : Programa) (encoding : Option Codificacion)
    (entorno : Entorno) {ι : Type} (hls : ι → HLSContext) (location srcUrl : String) : Despliegue ι where
  hls := hls
  maestra := codificacionPath configuration encoding ++ "/hls.m3u8"
  textoMaestra := textoM3U8 (generarArchivoM3U8 programa (bitratesDe encoding))
  fichero := ficheroServido configuration entorno
  location := location
  srcUrl := srcUrl

section DespliegueDe

variable (configuration : Config) (programa : Programa) (encoding : Option Codificacion)
  (entorno : Entorno) {ι : Type} (hls : ι → HLSContext) (location srcUrl : String)

@[simp] theorem despliegueDe_hls :
    (despliegueDe configuration programa encoding entorno hls location srcUrl).hls = hls := rfl

@[simp] theorem despliegueDe_maestra :
    (despliegueDe configuration programa encoding entorno hls location srcUrl).maestra =
      codificacionPath configuration encoding ++ "/hls.m3u8" := rfl

@[simp] theorem despliegueDe_textoMaestra :
    (despliegueDe configuration programa encoding entorno hls location srcUrl).textoMaestra =
      textoM3U8 (generarArchivoM3U8 programa (bitratesDe encoding)) := rfl

@[simp] theorem despliegueDe_fichero :
    (despliegueDe configuration programa encoding entorno hls location srcUrl).fichero =
      ficheroServido configuration entorno := by
  rw [despliegueDe]

@[simp] theorem despliegueDe_location :
    (despliegueDe configuration programa encoding entorno hls location srcUrl).location = location := rfl

@[simp] theorem despliegueDe_srcUrl :
    (despliegueDe configuration programa encoding entorno hls location srcUrl).srcUrl = srcUrl := rfl

end DespliegueDe

theorem conEsquema_https (resto : List Char) : conEsquema ("https://".toList ++ resto) = true := rfl

variable (configuration encoding) in
theorem conEsquema_direccion : conEsquema (direccion configuration encoding .hls).toList = true := by
  rw [toList_direccion_hls]
  unfold origenDe
  rw [List.append_assoc]
  apply conEsquema_https

variable (configuration encoding) in
theorem conEsquema_direccionDe (fichero : String) :
    conEsquema (direccionDe configuration encoding fichero).toList = true := by
  unfold direccionDe
  rw [String.toList_append, String.toList_append, List.append_assoc]
  apply conEsquema_https

variable {entorno : Entorno} {location srcUrl : String}

/-- **A command that can be played has its directory in order.** -/
theorem Emite.ordenado (h : Emite configuration programa encoding orden hls)
    (hrep : Reproducible configuration programa encoding) (hsrc : conEsquema srcUrl.toList = true) :
    (despliegueDe configuration programa encoding entorno hls location srcUrl).Ordenado where
  numera k := by
    obtain ⟨t, hk⟩ := h.exists_pista k
    exact h.numera hrep hk
  unica {a b} ha hb heq := by
    have hmaestra {k : Fin orden.outputs.length} {vtt : Bool}
        (hvtt : vtt = true → (hls k).hasSubtitle = true) :
        (hls k).m3u8 vtt ≠ codificacionPath configuration encoding ++ "/hls.m3u8" := fun heq =>
      h.disjuntos.sinMaestra _ (List.getElem_mem k.2) (heq ▸ escribe_m3u8 (h.salida k) hvtt)
    cases a with
    | maestra =>
      cases b with
      | maestra => rfl
      | de k vtt => exact absurd heq.symm (hmaestra hb)
    | de k vtt =>
      cases b with
      | maestra => exact absurd heq (hmaestra ha)
      | de k' vtt' =>
        by_cases hne : k = k'
        · subst hne
          obtain ⟨t, hk⟩ := h.exists_pista k
          have hlistas : (hls k).m3u8 vtt = (hls k).m3u8 vtt' := heq
          rw [h.m3u8_eq hrep hk, h.m3u8_eq hrep hk, ← String.toList_inj] at hlistas
          cases vtt <;> cases vtt' <;> simp [Pista.nombreLista] at hlistas ⊢
        · exact absurd heq (h.m3u8_ne hne ha hb)
  esquema := hsrc
  nombres {k vtt} hvtt n := by
    obtain ⟨t, hk⟩ := h.exists_pista k
    obtain ⟨s, e, hn, heq, -⟩ := h.exists_nombra hrep hk hvtt n
    have hchars := hk.esNombre hrep
    have hnombre : avBasename ((hls k).fragmento vtt n) = s ++ "." ++ e := by
      rw [heq, ← String.append_assoc, ← String.append_assoc]
      obtain ⟨hs, he, -⟩ := Pista.nombra_chars hchars hn
      exact avBasename_ruta hs he
    have hparte := hrep.esParte hk.1 hn
    exact hnombre ▸ ⟨EsTexto.of_esDeRutaPublicada hparte.2, mt String.toList_eq_nil_iff.2 hparte.1.ne_nil⟩

/-- **What the player has of an output**: from the `n`th on, each segment
as it was written, at an address that is answered with its file. The
files are there while the output has ended no more than one since. -/
structure MediaPlaylist.EsDe {δ : Type} (configuration : Config) (entorno : Entorno) (micras : δ → ℕ)
    (hls : HLSContext) (vtt : Bool) (ds : List δ) (m : Muxer δ) (p : MediaPlaylist)
    (segments : List Segmento) (n : ℕ) : Prop where
  mediaSequence : p.mediaSequence = some (n : ℤ)
  le : n + segments.length ≤ ds.length
  segmento : ∀ (j : ℕ) (segment : Segmento), segments[j]? = some segment → ∃ duration url,
    ds[n + j]? = some duration ∧ segment.leido.duration = some (duracionLeida (micras duration)) ∧
      segment.resolvedUri = some url ∧
      (n + j < 10 ^ 20 → ficheroServido configuration entorno url = some (hls.fragmento vtt (n + j)))
  presentes : ds.length ≤ n + segments.length + 1 →
    ∀ j < segments.length, hls.fragmento vtt (n + j) ∈ m.ficheros

section Sesion

variable {δ ρ : Type} {d : Duraciones δ ρ} {micras : δ → ℕ}
  {s : Reproduccion (Fin orden.outputs.length) δ}

/-- Of a playlist at its own address. -/
theorem Emite.esDe_of_refleja (h : Emite configuration programa encoding orden hls)
    (hrep : Reproducible configuration programa encoding) {k : Fin orden.outputs.length} {t : Pista}
    (hk : LlevaPista configuration programa encoding orden.outputs[k] t) (hidioma : t.IdiomaServido)
    {vtt : Bool} (hvtt : vtt = true → (hls k).hasSubtitle = true) {p : MediaPlaylist}
    (hresuelta : p.resolvedUri =
      direccionDe configuration encoding (t.relativa (t.nombreLista vtt ++ "." ++ "m3u8")))
    {ds : List δ} {m : Muxer δ} {segments : List Segmento} {n : ℕ}
    (hrefleja : p.Refleja location micras (hls k) ds vtt segments n)
    (hpresentes : ds.length ≤ n + segments.length + 1 → ∀ j < segments.length,
      (hls k).fragmento vtt ((hls k).startSequence + n + j) ∈ m.ficheros) :
    p.EsDe configuration entorno micras (hls k) vtt ds m segments n := by
  have hlista := h.nombra_lista hrep hk hvtt
  have hstart : (hls k).startSequence = 0 := (h.lleva hrep hk).startSequence
  have hmediaSequence := hrefleja.mediaSequence
  simp only [hstart, Nat.zero_add] at hmediaSequence hpresentes
  refine ⟨hmediaSequence, hrefleja.le, fun j segment hsegment => ?_, hpresentes⟩
  obtain ⟨duration, hduration, rfl⟩ := hrefleja.segmento j segment hsegment
  obtain ⟨u, e, hn, heq, hmp4⟩ := h.exists_nombra hrep hk hvtt (n + j)
  have hnombre : avBasename ((hls k).fragmento vtt ((hls k).startSequence + n + j)) = u ++ "." ++ e := by
    rw [hstart, Nat.zero_add, heq, ← String.append_assoc, ← String.append_assoc]
    obtain ⟨hu, he, -⟩ := Pista.nombra_chars (hk.esNombre hrep) hn
    exact avBasename_ruta hu he
  have hresolvedUri : (Segmento.de location p.resolvedUri
      ((hls k).leido micras vtt ((hls k).startSequence + n + j) duration)).resolvedUri =
        some (direccionDe configuration encoding (t.relativa (u ++ "." ++ e))) := by
    simp only [Segmento.de, resolveSegmentUris, mergeSegmento, Option.getD_none, HLSContext.leido,
      EntradaHLS.uri, hnombre, hresuelta, hrep.resolveUrl_nombre hk.1 location hlista hn]
  refine ⟨duration, _, hduration, rfl, hresolvedUri, fun hlt => ?_⟩
  rw [ficheroServido_iff hrep entorno hk.1 hn]
  refine ⟨heq, hidioma, fun m hm => ?_, fun _ => hmp4⟩
  rwa [← Option.some_inj.1 hm]

/-- **A playlist at the address of a track is that of its output.** -/
theorem Emite.exists_esDe (h : Emite configuration programa encoding orden hls)
    (hrep : Reproducible configuration programa encoding) (hsrc : conEsquema srcUrl.toList = true)
    (hs : s.Alcanza d micras (despliegueDe configuration programa encoding entorno hls location srcUrl))
    {master : MasterPlaylist} (hmaster : s.loader.master = some master) {p : MediaPlaylist}
    (hp : p ∈ master.playlists) {segments : List Segmento} (hsegments : p.segments = some segments)
    {k : Fin orden.outputs.length} {t : Pista}
    (hk : LlevaPista configuration programa encoding orden.outputs[k] t) {vtt : Bool}
    (hvtt : vtt = true → (hls k).hasSubtitle = true)
    (huri : resolveUrl location srcUrl p.uri =
      direccionDe configuration encoding (t.relativa (t.nombreLista vtt ++ "." ++ "m3u8"))) :
    ∃ n, p.EsDe configuration entorno micras (hls k) vtt (s.escritos k) (s.muxers k) segments n := by
  have hD := @Emite.ordenado _ _ _ _ _ entorno location _ h hrep hsrc
  have hfiel := hs.fiel hD
  have hlista := h.nombra_lista hrep hk hvtt
  have hservido (f : String) := @ficheroServido_iff _ _ _ hrep entorno _ hk.1 _ _ _ _ hlista f
  have hesta (f : String) (hf : f ∈ ficheroServido configuration entorno (resolveUrl location srcUrl p.uri)) :
      f = (hls k).m3u8 vtt := by
    rw [huri] at hf
    rw [h.m3u8_eq hrep hk]
    exact ((hservido f).1 hf).1
  have hentera := hfiel.refleja hD hmaster hp hsegments (i := k) hvtt
  rw [despliegueDe_fichero, despliegueDe_location, despliegueDe_srcUrl, despliegueDe_hls] at hentera
  obtain ⟨hfichero, n, hrefleja, hpresentes⟩ := hentera hesta
  rw [huri] at hfichero
  have hidioma : t.IdiomaServido := ((hservido _).1 hfichero).2.1
  have hresuelta : p.resolvedUri =
      direccionDe configuration encoding (t.relativa (t.nombreLista vtt ++ "." ++ "m3u8")) :=
    (hfiel.resolvedUri_eq hD hmaster hp).trans huri
  exact ⟨n, h.esDe_of_refleja hrep hk hidioma hvtt hresuelta hrefleja hpresentes⟩

/-- The playlists of the player of a command are those of its tracks. -/
theorem Emite.exists_pista_uri (h : Emite configuration programa encoding orden hls)
    (hrep : Reproducible configuration programa encoding)
    (hs : s.Alcanza d micras (despliegueDe configuration programa encoding entorno hls location
      (direccion configuration encoding .hls)))
    {master : MasterPlaylist} (hmaster : s.loader.master = some master) {p : MediaPlaylist}
    (hp : p ∈ master.playlists) : ∃ t ∈ pistas programa encoding, t.webvtt = false ∧
      resolveUrl location (direccion configuration encoding .hls) p.uri =
        direccionDe configuration encoding (t.relativa (t.lista ++ "." ++ "m3u8")) := by
  have hD := @Emite.ordenado _ _ _ _ _ entorno location _ h hrep
    (conEsquema_direccion configuration encoding)
  obtain ⟨text, m, ⟨a, k, ha, -, hpublica⟩, hm, huris⟩ := Reproduccion.exists_uris hD hs master hmaster
  rw [despliegueDe_fichero, despliegueDe_srcUrl, ficheroServido_hls hrep, Option.some_inj] at ha
  obtain rfl : a = .maestra := hD.unica hpublica.tiene trivial ha.symm
  have hb : ∀ b ∈ bitratesDe encoding, ∀ c ∈ b.toList, c.isDigit = true := fun b hb =>
    List.all_eq_true.1 (hrep.bitrates b hb).1.2
  obtain ⟨m', hm', hesDe⟩ := exists_parse hrep.idiomas hb
  obtain rfl : text = textoM3U8 (generarArchivoM3U8 programa (bitratesDe encoding)) := hpublica
  obtain rfl := Option.some_inj.1 (hm.symm.trans hm')
  obtain ⟨playlists, hplaylists, hvariantes⟩ := hesDe.playlists
  have huri : p.uri ∈ playlists.map CurrentUri.uri := by
    have hmem : p.uri ∈ master.uris := List.mem_map_of_mem hp
    rw [huris, PlaylistLoader.urisDe, hplaylists] at hmem
    exact hmem
  obtain ⟨x, hx, huri⟩ := List.mem_map.1 huri
  obtain ⟨v, hv, hxv⟩ := exists_of_forall₂ hvariantes hx
  obtain ⟨t, ht, hvtt, hruta⟩ := exists_pista_variante (fun b hb => (hrep.bitrates b hb).1) hv
  refine ⟨t, ht, hvtt, ?_⟩
  rw [← huri, hxv.uri]
  have hn : t.Nombra "" none t.lista "m3u8" := .lista
  exact hrep.resolveUrl_pista ht location hn hruta

/-- The playlists of the player of a rendition are at its address. -/
theorem Emite.resolveUrl_rendicion (h : Emite configuration programa encoding orden hls)
    (hrep : Reproducible configuration programa encoding) {k : Fin orden.outputs.length} {t : Pista}
    (hk : LlevaPista configuration programa encoding orden.outputs[k] t) {vtt : Bool}
    (hvtt : vtt = true → (hls k).hasSubtitle = true)
    (hsrc : srcUrl = direccionDe configuration encoding (t.relativa (t.nombreLista vtt ++ "." ++ "m3u8")))
    (hs : s.Alcanza d micras (despliegueDe configuration programa encoding entorno hls location srcUrl))
    {master : MasterPlaylist} (hmaster : s.loader.master = some master) {p : MediaPlaylist}
    (hp : p ∈ master.playlists) : resolveUrl location srcUrl p.uri = srcUrl := by
  have hesquema : conEsquema srcUrl.toList = true := hsrc ▸ conEsquema_direccionDe configuration encoding _
  have hD := @Emite.ordenado _ _ _ _ _ entorno location _ h hrep hesquema
  obtain ⟨text, m, ⟨a, n, ha, -, hpublica⟩, hm, huris⟩ := Reproduccion.exists_uris hD hs master hmaster
  rw [despliegueDe_fichero, despliegueDe_srcUrl, hsrc,
    ficheroServido_iff hrep entorno hk.1 (h.nombra_lista hrep hk hvtt)] at ha
  obtain rfl : a = .de k vtt := hD.unica hpublica.tiene hvtt (ha.1.trans (h.m3u8_eq hrep hk vtt).symm)
  obtain ⟨l, -, hparse, -⟩ := Publicado.exists_muestra hpublica (hD.nombres hpublica.tiene)
  obtain rfl := Option.some_inj.1 (hm.symm.trans hparse)
  have huri : p.uri ∈ [srcUrl] := by
    have hmem : p.uri ∈ master.uris := List.mem_map_of_mem hp
    rwa [huris] at hmem
  rw [List.mem_singleton.1 huri]
  exact if_pos hesquema

end Sesion

end Emite

/-! ## The commands of a command line -/

section Comando

variable {configuration : Config} {youtubeDl : String → Option String} {flags : Flags}
  (hc : obtenerArgumentos youtubeDl flags = some (true, configuration))
  (hsub : ∀ c ∈ configuration.urlSubpath.toList, c.isAlphanum = true) (hne : configuration.urlSubpath ≠ "")
  (hip : ∀ c ∈ configuration.ip.toList, terminaHost c = false)
  (hnombres : ∀ c ∈ configuration.encodings, EsNombre c.nombre) (i : Fin (encodingsNumber configuration))
  {programa : Programa} (hP : programa.ConIdiomas) {orden : Command String}
  {hls : Fin orden.outputs.length → HLSContext}
  (h : Emite configuration programa (codificacionDeIndice configuration i) orden hls)

include hc hsub hne hip hnombres hP h

/-- A command of a command line can be played. -/
theorem reproducible_of_comando :
    Reproducible configuration programa (codificacionDeIndice configuration i) where
  publicable := by
    obtain ⟨input, ms, -, -, rfl⟩ := obtenerArgumentos_accepted hc
    exact publicable rfl hsub hnombres
  urlSubpath := hne
  ip := hip
  camino := codificacionDeIndice_mem_caminos i
  idiomas := hP
  bitrates := esBitrateCorto_of_comando hc (comandoFfmpeg_eq_some_iff.1 h.comando).1

end Comando

/-! ## Its runs -/

section Corrida

variable {configuration : Config} {programa : Programa} {encoding : Option Codificacion}
  {orden : Command String} {hls : Fin orden.outputs.length → HLSContext} {entorno : Entorno}
  {location srcUrl : String} {δ ρ : Type}

/-- The muxers of a command can start. -/
theorem Emite.exists_inicial (h : Emite configuration programa encoding orden hls)
    (hrep : Reproducible configuration programa encoding) (d : Duraciones δ ρ) (micras : δ → ℕ) :
    ∃ s : Reproduccion (Fin orden.outputs.length) δ, s.Alcanza d micras
        (despliegueDe configuration programa encoding entorno hls location srcUrl) ∧
      s.loader = .inicial ∧ s.enCamino = none ∧ s.leidas = [] ∧
        ∀ k, (s.muxers k).fase = .escribe ∧ s.escritos k = [] := by
  have hstart (k : Fin orden.outputs.length) :
      ∃ vs, hlsStart (hls k) (.inicial δ (hls k)) = some vs := by
    obtain ⟨t, hk⟩ := h.exists_pista k
    exact hlsStart_of_lleva (h.lleva hrep hk) (hk.esNombre hrep) (h.carpeta hrep hk) _
  choose vs hvs using hstart
  exact ⟨⟨fun k => .inicio (hls k) (vs k), .inicial, none, fun _ => [], []⟩,
    ⟨_, ⟨vs, hvs, rfl⟩, .refl⟩, rfl, rfl, rfl, fun _ => ⟨rfl, rfl⟩⟩

/-- **One more segment of an output can be written**, and its playlist
read. -/
theorem Emite.exists_publica (h : Emite configuration programa encoding orden hls)
    (hrep : Reproducible configuration programa encoding) (hsrc : conEsquema srcUrl.toList = true)
    {d : Duraciones δ ρ} {micras : δ → ℕ} {s : Reproduccion (Fin orden.outputs.length) δ}
    (hs : s.Alcanza d micras (despliegueDe configuration programa encoding entorno hls location srcUrl))
    {k : Fin orden.outputs.length} (hfase : (s.muxers k).fase = .escribe) (duration : δ) :
    ∃ s' : Reproduccion (Fin orden.outputs.length) δ, Relation.ReflTransGen (PasoReproduccion d micras
        (despliegueDe configuration programa encoding entorno hls location srcUrl)) s s' ∧
      s'.loader = s.loader ∧ s'.enCamino = s.enCamino ∧ s'.leidas = s.leidas ∧
      (s'.muxers k).fase = .escribe ∧ s'.escritos k = s.escritos k ++ [duration] ∧
      ∃ l, (s'.muxers k).lista false = some l ∧ ∃ m, Parser.parse (l.texto micras) = some m ∧
        m.playlists = none ∧ m.endList = false ∧
        m.segments.length = (hls k).listados (s.escritos k ++ [duration]).length := by
  have hD := @Emite.ordenado _ _ _ _ _ entorno location _ h hrep hsrc
  have hnum : (hls k).Numera := hD.numera k
  have htiene : false = true → (hls k).hasSubtitle = true := fun hno => absurd hno Bool.false_ne_true
  obtain ⟨t, hk⟩ := h.exists_pista k
  obtain ⟨m, hm, hfase'⟩ := exists_segmento (d := d)
    (hlsStart_of_lleva (h.lleva hrep hk) (hk.esNombre hrep) (h.carpeta hrep hk)) duration hfase
  have hrun : Relation.ReflTransGen (PasoReproduccion d micras
      (despliegueDe configuration programa encoding entorno hls location srcUrl)) s _ :=
    Reproduccion.sigue_muxer (i := k) hm
  have hcorre : Corre d (hls k) _ _ := ((hs.fiel hD).sigue hD hrun).muxers k
  simp only [Function.update_self] at hcorre
  have hl := (hcorre.refleja hnum).m3u8
  have hlargo : FaseMuxer.publicados (s.escritos k ++ [duration]).length .escribe =
      (s.escritos k ++ [duration]).length := rfl
  rw [hfase', hlargo] at hl
  have hno : (s.escritos k ++ [duration]).length ≠ 0 := by simp
  have hlista := hl.trans (if_neg hno)
  have htras := hl.symm.trans hlista
  refine ⟨_, hrun, rfl, rfl, rfl, ?_, Function.update_self .., _, ?_, _,
    parse_listaTras le_rfl htiene htras (hD.nombres (i := k) htiene), rfl, rfl, ?_⟩
  · simpa only [Function.update_self] using hfase'
  · simp only [Function.update_self]
    exact hlista
  · rw [ListaHLS.segments_manifest, List.length_map]
    exact (muestra_listaTras le_rfl htiene htras).length

/-- The address of a playlist of a track is answered with that of its
output. -/
theorem Emite.fichero_lista (h : Emite configuration programa encoding orden hls)
    (hrep : Reproducible configuration programa encoding) {k : Fin orden.outputs.length} {t : Pista}
    (hk : LlevaPista configuration programa encoding orden.outputs[k] t) (hidioma : t.IdiomaServido)
    {url : String}
    (hurl : url = direccionDe configuration encoding (t.relativa (t.lista ++ "." ++ "m3u8"))) :
    (despliegueDe configuration programa encoding entorno hls location srcUrl).fichero url =
      some ((despliegueDe configuration programa encoding entorno hls location srcUrl).ruta (.de k false)) := by
  have hn : t.Nombra "" none t.lista "m3u8" := .lista
  have hruta : (despliegueDe configuration programa encoding entorno hls location srcUrl).ruta (.de k false) =
      (hls k).m3u8 false := rfl
  rw [despliegueDe_fichero, hruta, hurl, ficheroServido_iff hrep entorno hk.1 hn]
  exact ⟨h.m3u8_eq hrep hk false, hidioma, fun _ hno => (by cases hno), fun _ => by decide⟩

theorem listados_uno (hls : HLSContext) : hls.listados 1 = 1 := by
  rw [HLSContext.listados]
  split
  · rfl
  · omega

/-- **A playlist of a track can be read where it is the first**, and
again when it shows one segment more. -/
theorem Emite.exists_rendicion (h : Emite configuration programa encoding orden hls)
    (hrep : Reproducible configuration programa encoding) {k : Fin orden.outputs.length} {t : Pista}
    (hk : LlevaPista configuration programa encoding orden.outputs[k] t) (hidioma : t.IdiomaServido)
    (hsrc : srcUrl = direccionDe configuration encoding (t.relativa (t.lista ++ "." ++ "m3u8")))
    (d : Duraciones δ ρ) (micras : δ → ℕ) (duration : δ) :
    ∃ s s' : Reproduccion (Fin orden.outputs.length) δ, s.Alcanza d micras
        (despliegueDe configuration programa encoding entorno hls location srcUrl) ∧
      Relation.ReflTransGen (PasoReproduccion d micras
        (despliegueDe configuration programa encoding entorno hls location srcUrl)) s s' ∧
      s.escritos k = [duration] ∧ s'.escritos k = [duration, duration] ∧
      ∃ master master' p p' segments segments', s.loader.master = some master ∧
        s'.loader.master = some master' ∧ p ∈ master.playlists ∧ p' ∈ master'.playlists ∧ p.uri = p'.uri ∧
        p.segments = some segments ∧ p'.segments = some segments' ∧
        segments.length = 1 ∧ segments'.length = (hls k).listados 2 := by
  have hesquema : conEsquema srcUrl.toList = true := hsrc ▸ conEsquema_direccionDe configuration encoding _
  have hD := @Emite.ordenado _ _ _ _ _ entorno location _ h hrep hesquema
  have hfichero := @Emite.fichero_lista _ _ _ _ _ entorno location srcUrl h hrep _ _ hk hidioma _
    ((despliegueDe_srcUrl configuration programa encoding entorno hls location srcUrl).trans hsrc)
  have htext {s : Reproduccion (Fin orden.outputs.length) δ} {l : ListaHLS δ}
      (hl : (s.muxers k).lista false = some l) : (despliegueDe configuration programa encoding entorno hls
        location srcUrl).enDisco micras s.muxers (.de k false) = some (l.texto micras) := by
    rw [Despliegue.enDisco, hl]
    rfl
  obtain ⟨s₀, h₀, hloader₀, hno₀, -, hmuxers₀⟩ :=
    @Emite.exists_inicial _ _ _ _ _ entorno location srcUrl _ _ h hrep d micras
  obtain ⟨s₁, h₁, hloader₁, hno₁, -, hfase₁, hescritos₁, l₁, hl₁, m₁, hparse₁, hplaylists₁, hend₁, hlength₁⟩ :=
    h.exists_publica hrep hesquema h₀ (hmuxers₀ k).1 duration
  rw [(hmuxers₀ k).2, List.nil_append] at hescritos₁ hlength₁
  rw [List.length_singleton, listados_uno] at hlength₁
  obtain ⟨s₂, h₂, hno₂, hmuxers₂, hescritos₂, p, segments, hloader₂, huri, hsegments, hlength⟩ :=
    Reproduccion.exists_unica d micras (despliegueDe configuration programa encoding entorno hls location srcUrl)
      (hloader₁.trans hloader₀) (hno₁.trans hno₀) hfichero (htext hl₁) hparse₁ hplaylists₁ hend₁
  have hs₂ := h₀.sigue (h₁.trans h₂)
  obtain ⟨s₃, h₃, hloader₃, hno₃, -, -, hescritos₃, l₃, hl₃, m₃, hparse₃, -, -, hlength₃⟩ :=
    h.exists_publica hrep hesquema hs₂ (by rw [hmuxers₂]; exact hfase₁) duration
  rw [hescritos₂, hescritos₁] at hescritos₃ hlength₃
  obtain ⟨s₄, h₄, hescritos₄, master', p', segments', hmaster', hp', huri', hsegments', hlength'⟩ :=
    (hs₂.sigue h₃).exists_recarga hD (hno₃.trans hno₂) (hloader₃.trans hloader₂) huri
      hfichero (htext hl₃) hparse₃
  refine ⟨s₂, s₄, hs₂, h₃.trans h₄, ?_, ?_, ⟨location, [p]⟩, master', p, p', segments, segments', ?_, hmaster',
    List.mem_singleton_self p, hp', huri.trans huri'.symm, hsegments, hsegments', hlength.trans hlength₁,
    hlength'.trans hlength₃⟩
  · rw [hescritos₂, hescritos₁]
  · rw [hescritos₄, hescritos₃]
    rfl
  · rw [hloader₂]
    rfl

/-- **That of the first variant of the master can be read too.** -/
theorem Emite.exists_variante (h : Emite configuration programa encoding orden hls)
    (hrep : Reproducible configuration programa encoding) (d : Duraciones δ ρ) (micras : δ → ℕ)
    (duration : δ) :
    ∃ s : Reproduccion (Fin orden.outputs.length) δ, s.Alcanza d micras
        (despliegueDe configuration programa encoding entorno hls location
          (direccion configuration encoding .hls)) ∧
      ∃ master p segments, s.loader.master = some master ∧ p ∈ master.playlists ∧
        p.segments = some segments ∧ segments.length = 1 := by
  have hesquema := conEsquema_direccion configuration encoding
  have hD := @Emite.ordenado _ _ _ _ _ entorno location _ h hrep hesquema
  obtain ⟨v, vs, hvariantes, t, ht, hidioma, hruta⟩ :=
    @exists_pista_principal programa encoding fun b hb => (hrep.bitrates b hb).1
  obtain ⟨k, hk⟩ := h.exists_salida ht
  obtain ⟨s₀, h₀, hloader₀, hno₀, hleidas₀, hmuxers₀⟩ := @Emite.exists_inicial _ _ _ _ _ entorno location
    (direccion configuration encoding .hls) _ _ h hrep d micras
  obtain ⟨s, hrun, hloader, hno, hleidas, -, -, l, hl, m', hparse', -, -, hlength⟩ :=
    h.exists_publica hrep hesquema h₀ (hmuxers₀ k).1 duration
  rw [(hmuxers₀ k).2, List.nil_append, List.length_singleton, listados_uno] at hlength
  obtain ⟨m, hparse, hesDe⟩ := exists_parse hrep.idiomas fun b hb =>
    List.all_eq_true.1 (hrep.bitrates b hb).1.2
  obtain ⟨playlists, hplaylists, hforall⟩ := hesDe.playlists
  rw [hvariantes] at hforall
  obtain ⟨x, xs, hx, -, rfl⟩ := List.forall₂_cons_right_iff.1 hforall
  have hn : t.Nombra "" none t.lista "m3u8" := .lista
  have hurl : resolveUrl location (direccion configuration encoding .hls) x.uri =
      direccionDe configuration encoding (t.relativa (t.lista ++ "." ++ "m3u8")) := by
    rw [hx.uri]
    exact hrep.resolveUrl_pista ht location hn hruta
  have htext : (despliegueDe configuration programa encoding entorno hls location
      (direccion configuration encoding .hls)).enDisco micras s.muxers (.de k false) =
        some (l.texto micras) := by
    rw [Despliegue.enDisco, hl]
    rfl
  obtain ⟨s', hs', master, p, segments, hmaster, hp, -, hsegments, hlength'⟩ :=
    (h₀.sigue hrun).exists_variante hD (hloader.trans hloader₀) (hno.trans hno₀)
      (hleidas.trans hleidas₀) (by rw [despliegueDe_fichero, despliegueDe_srcUrl, ficheroServido_hls hrep,
        despliegueDe_maestra]) (by rw [despliegueDe_textoMaestra]; exact hparse)
      hplaylists (h.fichero_lista hrep hk hidioma (by rw [despliegueDe_location, despliegueDe_srcUrl, hurl]))
      htext hparse'
  exact ⟨s', hs', master, p, segments, hmaster, hp, hsegments, hlength'.trans hlength⟩

end Corrida

/-! ## A command of one bitrate -/

theorem exists_emite_hevc : ∃ (orden : Command String) (hls : Fin orden.outputs.length → HLSContext),
    Emite configuracionHevc programaHevc (some ⟨"hevc", ["2800"]⟩) orden hls := by
  have horden : comandoFfmpeg configuracionHevc programaHevc (some ⟨"hevc", ["2800"]⟩) =
      some (comando configuracionHevc programaHevc (some ⟨"hevc", ["2800"]⟩)) :=
    comandoFfmpeg_eq construible_programaHevc
  have hrutas : RutasLiterales configuracionHevc programaHevc (some ⟨"hevc", ["2800"]⟩) :=
    ⟨by decide +kernel, by decide, by decide⟩
  have hsalida (k : Fin (comando configuracionHevc programaHevc (some ⟨"hevc", ["2800"]⟩)).outputs.length) :
      ∃ hls, HLSContext.deSalida (comando configuracionHevc programaHevc
        (some ⟨"hevc", ["2800"]⟩)).outputs[k] = some hls := by
    obtain ⟨hls, -, hhls, -⟩ := exists_muxer (by decide) (by decide) hrutas horden (List.getElem_mem k.2)
    exact ⟨hls, hhls⟩
  choose hls hhls using hsalida
  exact ⟨_, hls, horden, hhls, ficherosDisjuntos_of (by decide) (by decide)
    (pistasSeparadas_of_nodup (by decide) (by decide)), hrutas.ruta⟩

theorem reproducible_hevc : Reproducible configuracionHevc programaHevc (some ⟨"hevc", ["2800"]⟩) := by
  obtain ⟨orden, hls, hemite⟩ := exists_emite_hevc
  exact reproducible_of_comando obtenerArgumentos_flagsHevc (Text.forall_mem_of_all (by decide)) (by decide)
    (Text.forall_mem_of_all (by decide)) (by decide) ⟨0, by decide⟩ conIdiomas_programaHevc hemite

/-! ## What is played is what was written -/

section Comando

variable {configuration : Config} {youtubeDl : String → Option String} {flags : Flags}
  (hc : obtenerArgumentos youtubeDl flags = some (true, configuration))
  (hsub : ∀ c ∈ configuration.urlSubpath.toList, c.isAlphanum = true) (hne : configuration.urlSubpath ≠ "")
  (hip : ∀ c ∈ configuration.ip.toList, terminaHost c = false)
  (hnombres : ∀ c ∈ configuration.encodings, EsNombre c.nombre) (i : Fin (encodingsNumber configuration))
  {programa : Programa} (hP : programa.ConIdiomas) {orden : Command String}
  {hls : Fin orden.outputs.length → HLSContext}
  (h : Emite configuration programa (codificacionDeIndice configuration i) orden hls)
  {entorno : Entorno} {location : String} {δ ρ : Type} {d : Duraciones δ ρ} {micras : δ → ℕ}
  {s : Reproduccion (Fin orden.outputs.length) δ}

include hc hsub hne hip hnombres hP h

/-- **The player of a command has what its outputs wrote**: each playlist
that it has read is that of a track, at its address, and its segments are
those of the output of the track, from one on. -/
theorem sesion_fiel (hs : s.Alcanza d micras (despliegueDe configuration programa
      (codificacionDeIndice configuration i) entorno hls location
      (direccion configuration (codificacionDeIndice configuration i) .hls)))
    {master : MasterPlaylist} (hmaster : s.loader.master = some master) {p : MediaPlaylist}
    (hp : p ∈ master.playlists) {segments : List Segmento} (hsegments : p.segments = some segments) :
    ∃ (k : Fin orden.outputs.length) (t : Pista) (n : ℕ),
      LlevaPista configuration programa (codificacionDeIndice configuration i) orden.outputs[k] t ∧
      p.resolvedUri = direccionDe configuration (codificacionDeIndice configuration i)
        (t.relativa (t.lista ++ "." ++ "m3u8")) ∧
      p.EsDe configuration entorno micras (hls k) false (s.escritos k) (s.muxers k) segments n := by
  have hrep := reproducible_of_comando hc hsub hne hip hnombres i hP h
  obtain ⟨t, ht, -, huri⟩ := h.exists_pista_uri hrep hs hmaster hp
  obtain ⟨k, hk⟩ := h.exists_salida ht
  have hesquema := conEsquema_direccion configuration (codificacionDeIndice configuration i)
  have hD := @Emite.ordenado _ _ _ _ _ entorno location _ h hrep hesquema
  have hvtt : false = true → (hls k).hasSubtitle = true := fun hno => absurd hno Bool.false_ne_true
  obtain ⟨n, hesDe⟩ := h.exists_esDe hrep hesquema hs hmaster hp hsegments hk hvtt huri
  exact ⟨k, t, n, hk, ((hs.fiel hD).resolvedUri_eq hD hmaster hp).trans huri, hesDe⟩

end Comando

theorem sesion_fiel_hevc : ∃ (orden : Command String) (hls : Fin orden.outputs.length → HLSContext)
    (s : Reproduccion (Fin orden.outputs.length) ℕ) (p : MediaPlaylist) (segments : List Segmento),
    segments.length = 1 ∧ ∃ k t n,
      LlevaPista configuracionHevc programaHevc (some ⟨"hevc", ["2800"]⟩) orden.outputs[k] t ∧
      p.resolvedUri = direccionDe configuracionHevc (some ⟨"hevc", ["2800"]⟩)
        (t.relativa (t.lista ++ "." ++ "m3u8")) ∧
      p.EsDe configuracionHevc ⟨fun _ => "", fun _ => true⟩ (· * 10 ^ 6) (hls k) false (s.escritos k)
        (s.muxers k) segments n := by
  obtain ⟨orden, hls, hemite⟩ := exists_emite_hevc
  obtain ⟨s, hs, master, p, segments, hmaster, hp, hsegments, hlength⟩ :=
    @Emite.exists_variante _ _ _ _ _ ⟨fun _ => "", fun _ => true⟩ "https://localhost/" _ _ hemite
      reproducible_hevc .enteras (· * 10 ^ 6) 6
  exact ⟨orden, hls, s, p, segments, hlength, sesion_fiel obtenerArgumentos_flagsHevc
    (Text.forall_mem_of_all (by decide)) (by decide) (Text.forall_mem_of_all (by decide)) (by decide)
    ⟨0, by decide⟩ conIdiomas_programaHevc hemite hs hmaster hp hsegments⟩

section Comando

variable {configuration : Config} {youtubeDl : String → Option String} {flags : Flags}
  (hc : obtenerArgumentos youtubeDl flags = some (true, configuration))
  (hsub : ∀ c ∈ configuration.urlSubpath.toList, c.isAlphanum = true) (hne : configuration.urlSubpath ≠ "")
  (hip : ∀ c ∈ configuration.ip.toList, terminaHost c = false)
  (hnombres : ∀ c ∈ configuration.encodings, EsNombre c.nombre) (i : Fin (encodingsNumber configuration))
  {programa : Programa} (hP : programa.ConIdiomas) {orden : Command String}
  {hls : Fin orden.outputs.length → HLSContext}
  (h : Emite configuration programa (codificacionDeIndice configuration i) orden hls)
  {entorno : Entorno} {location : String} {δ ρ : Type} {d : Duraciones δ ρ} {micras : δ → ℕ}
  {s : Reproduccion (Fin orden.outputs.length) δ}

include hc hsub hne hip hnombres hP h

/-- **The player of a rendition has what its output wrote**, that of the
subtitles of an output too. -/
theorem sesion_rendicion {m : Manifest}
    (hm : Parser.parse (textoM3U8 (generarArchivoM3U8 programa
      (bitratesDe (codificacionDeIndice configuration i)))) = some m)
    {mediaGroups : MediaGroups} (hgrupos : m.mediaGroups = some mediaGroups) {clave : ClaveMedia}
    {srcUrl : String} (hsrc : resolveMediaGroupUris location
      (direccion configuration (codificacionDeIndice configuration i) .hls) mediaGroups clave = some srcUrl)
    (hs : s.Alcanza d micras (despliegueDe configuration programa
      (codificacionDeIndice configuration i) entorno hls location srcUrl))
    {master : MasterPlaylist} (hmaster : s.loader.master = some master) {p : MediaPlaylist}
    (hp : p ∈ master.playlists) {segments : List Segmento} (hsegments : p.segments = some segments) :
    ∃ (k : Fin orden.outputs.length) (t : Pista) (vtt : Bool) (n : ℕ),
      LlevaPista configuration programa (codificacionDeIndice configuration i) orden.outputs[k] t ∧
      t.idioma = clave.2.2 ∧ p.resolvedUri = srcUrl ∧
      p.EsDe configuration entorno micras (hls k) vtt (s.escritos k) (s.muxers k) segments n := by
  have hrep := reproducible_of_comando hc hsub hne hip hnombres i hP h
  obtain ⟨m', hm', hesDe⟩ := exists_parse hP fun b hb => List.all_eq_true.1 (hrep.bitrates b hb).1.2
  obtain rfl := Option.some_inj.1 (hm.symm.trans hm')
  obtain rfl := Option.some_inj.1 (hgrupos.symm.trans hesDe.grupos)
  rw [resolveMediaGroupUris, Option.ite_none_right_eq_some, Option.map_eq_some_iff] at hsrc
  obtain ⟨htipo, uri, huri, rfl⟩ := hsrc
  rw [Option.filter_eq_some_iff, Option.bind_eq_some_iff] at huri
  obtain ⟨⟨r, hr, huri⟩, -⟩ := huri
  rw [Option.ite_none_right_eq_some] at hr
  obtain ⟨hclave, hr⟩ := hr
  obtain rfl := Option.some_inj.1 hr
  obtain ⟨t, ht, hidioma, vtt, hvtt, hruta⟩ := exists_pista_rendicion hclave htipo huri
  obtain ⟨k, hk⟩ := h.exists_salida ht
  have hsub' : vtt = true → (hls k).hasSubtitle = true := fun htrue => by
    rw [(h.lleva hrep hk).hasSubtitle_iff, plantilla_webvtt_iff]
    exact hvtt htrue
  have hsrc := hrep.resolveUrl_pista ht location (h.nombra_lista hrep hk hsub') hruta
  have hesquema : conEsquema (resolveUrl location
      (direccion configuration (codificacionDeIndice configuration i) .hls) uri).toList = true :=
    hsrc ▸ conEsquema_direccionDe configuration _ _
  have hD := @Emite.ordenado _ _ _ _ _ entorno location _ h hrep hesquema
  have hpropia := h.resolveUrl_rendicion hrep hk hsub' hsrc hs hmaster hp
  obtain ⟨n, hesDe⟩ := h.exists_esDe hrep hesquema hs hmaster hp hsegments hk hsub' (hpropia.trans hsrc)
  exact ⟨k, t, vtt, n, hk, hidioma, ((hs.fiel hD).resolvedUri_eq hD hmaster hp).trans hpropia, hesDe⟩

end Comando

/-- That of the audio. -/
theorem sesion_rendicion_hevc : ∃ (orden : Command String) (hls : Fin orden.outputs.length → HLSContext)
    (s : Reproduccion (Fin orden.outputs.length) ℕ) (p : MediaPlaylist) (segments : List Segmento),
    segments.length = 1 ∧ ∃ k t vtt n,
      LlevaPista configuracionHevc programaHevc (some ⟨"hevc", ["2800"]⟩) orden.outputs[k] t ∧
      t.idioma = "spa_257" ∧ p.resolvedUri = direccionDe configuracionHevc (some ⟨"hevc", ["2800"]⟩)
        ((Pista.audio "spa_257").relativa ("audio" ++ "." ++ "m3u8")) ∧
      p.EsDe configuracionHevc ⟨fun _ => "", fun _ => true⟩ (· * 10 ^ 6) (hls k) vtt (s.escritos k)
        (s.muxers k) segments n := by
  obtain ⟨orden, hls, hemite⟩ := exists_emite_hevc
  have ht : Pista.audio "spa_257" ∈ pistas programaHevc (some ⟨"hevc", ["2800"]⟩) :=
    audio_mem_pistas.2 ⟨_, .head _, rfl⟩
  obtain ⟨k, hk⟩ := hemite.exists_salida ht
  obtain ⟨s, -, hs, -, -, -, master, -, p, -, segments, -, hmaster, -, hp, -, -, hsegments, -, hlength, -⟩ :=
    @Emite.exists_rendicion _ _ _ _ _ ⟨fun _ => "", fun _ => true⟩ "https://localhost/" _ _ _ hemite
      reproducible_hevc _ _ hk ⟨by decide, Text.forall_mem_of_all (by decide)⟩ rfl .enteras (· * 10 ^ 6) 6
  obtain ⟨m, hm, hesDe⟩ := exists_parse conIdiomas_programaHevc fun b hb =>
    List.all_eq_true.1 (reproducible_hevc.bitrates b hb).1.2
  have hn : (Pista.audio "spa_257").Nombra "" none "audio" "m3u8" := .lista
  have hsrc : resolveMediaGroupUris "https://localhost/"
      (direccion configuracionHevc (some ⟨"hevc", ["2800"]⟩) .hls)
      (fun clave => if clave ∈ clavesM3U8 programaHevc then some (renditionM3U8 clave) else none)
      ("AUDIO", "audio", "spa_257") = some (direccionDe configuracionHevc (some ⟨"hevc", ["2800"]⟩)
        ((Pista.audio "spa_257").relativa ("audio" ++ "." ++ "m3u8"))) := by
    rw [resolveMediaGroupUris, if_pos (.inl rfl), if_pos (.head _)]
    exact congrArg some (reproducible_hevc.resolveUrl_pista ht _ hn (by decide))
  exact ⟨orden, hls, s, p, segments, hlength, sesion_rendicion obtenerArgumentos_flagsHevc
    (Text.forall_mem_of_all (by decide)) (by decide) (Text.forall_mem_of_all (by decide)) (by decide)
    ⟨0, by decide⟩ conIdiomas_programaHevc hemite hm hesDe.grupos hsrc hs hmaster hp hsegments⟩

/-- The playlist of the audio, read twice. -/
theorem no_retrocede_hevc : ∃ (orden : Command String) (hls : Fin orden.outputs.length → HLSContext)
    (k : Fin orden.outputs.length) (s s' : Reproduccion (Fin orden.outputs.length) ℕ) (p p' : MediaPlaylist)
    (segments segments' : List Segmento), s.escritos k = [6] ∧ s'.escritos k = [6, 6] ∧
      p.segments = some segments ∧ p'.segments = some segments' ∧ segments.length = 1 ∧
      segments'.length = (hls k).listados 2 ∧ p.mediaSequence.getD 0 ≤ p'.mediaSequence.getD 0 ∧
      p.mediaSequence.getD 0 + segments.length ≤ p'.mediaSequence.getD 0 + segments'.length := by
  obtain ⟨orden, hls, hemite⟩ := exists_emite_hevc
  have ht : Pista.audio "spa_257" ∈ pistas programaHevc (some ⟨"hevc", ["2800"]⟩) :=
    audio_mem_pistas.2 ⟨_, .head _, rfl⟩
  obtain ⟨k, hk⟩ := hemite.exists_salida ht
  obtain ⟨s, s', hs, hrun, hescritos, hescritos', master, master', p, p', segments, segments', hmaster,
      hmaster', hp, hp', huri, hsegments, hsegments', hlength, hlength'⟩ :=
    @Emite.exists_rendicion _ _ _ _ _ ⟨fun _ => "", fun _ => true⟩ "https://localhost/" _ _ _ hemite
      reproducible_hevc _ _ hk ⟨by decide, Text.forall_mem_of_all (by decide)⟩ rfl .enteras (· * 10 ^ 6) 6
  exact ⟨orden, hls, k, s, s', p, p', segments, segments', hescritos, hescritos', hsegments, hsegments',
    hlength, hlength', Reproduccion.no_retrocede (hemite.ordenado reproducible_hevc (conEsquema_direccionDe _ _ _)) hs
      hrun hmaster hmaster' hp hp' huri hsegments hsegments'⟩

end HlsXcoder
