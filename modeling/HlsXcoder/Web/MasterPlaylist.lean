import HlsXcoder.Web.M3u8Parser
import HlsXcoder.Web.Menu

/-!
# The master playlist, as the player reads it

The parser of the player reads back what `generarArchivoM3U8` wrote: the
renditions by type, group and name, and the variants in order, each with
its address and its attributes (`parse_generarArchivoM3U8`). One
attribute is lost: the name of a burned variant is written without
quotes, so where its language has a comma the rest of the name swallows
the bandwidth that follows it.
-/

namespace HlsXcoder

open AttributeList (Item Trimmed)

/-! ## The text, line by line -/

def Atributo.item (a : Atributo) : Item := ⟨a.nombre.toList, a.valor.toList, a.comillas⟩

theorem toList_listaAtributos (as : List Atributo) :
    (",".intercalate (as.map Atributo.texto)).toList = AttributeList.text (as.map Atributo.item) := by
  have hchars (a : Atributo) : a.texto.toList = a.item.chars := by
    rw [Atributo.texto, Item.chars, Item.valueChars, Atributo.item]
    cases a.comillas <;> simp
  rw [String.toList_intercalate, List.map_map, AttributeList.text, List.map_map]
  exact congrArg _ (List.map_congr_left fun a _ => hchars a)

/-- The lines of a write. -/
def LineaM3U8.lines : LineaM3U8 → List (List Char)
  | media as => ["#EXT-X-MEDIA:".toList ++ AttributeList.text (as.map Atributo.item)]
  | streamInf as uri =>
    ["#EXT-X-STREAM-INF:".toList ++ (AttributeList.text (as.map Atributo.item) ++ [' ']), uri.toList]

theorem texto_media (as : List Atributo) : (LineaM3U8.media as).texto =
    "#EXT-X-MEDIA:" ++ ",".intercalate (as.map Atributo.texto) ++ "\n" := rfl

theorem texto_streamInf (as : List Atributo) (uri : String) : (LineaM3U8.streamInf as uri).texto =
    "#EXT-X-STREAM-INF:" ++ ",".intercalate (as.map Atributo.texto) ++ " \n" ++ uri ++ "\n" := rfl

theorem toList_texto (l : LineaM3U8) : l.texto.toList = l.lines.flatMap (· ++ ['\n']) := by
  have hfin : "\n".toList = ['\n'] := by decide
  have hfin' : " \n".toList = [' ', '\n'] := by decide
  cases l with
  | media as =>
    rw [texto_media, String.toList_append, String.toList_append, toList_listaAtributos, hfin,
      LineaM3U8.lines, List.flatMap_singleton]
  | streamInf as uri =>
    simp only [texto_streamInf, String.toList_append, toList_listaAtributos, hfin, hfin',
      LineaM3U8.lines, List.flatMap_cons, List.flatMap_nil, List.append_nil, List.append_assoc,
      List.cons_append, List.nil_append]

theorem toList_textoM3U8 (lineas : List LineaM3U8) : (textoM3U8 lineas).toList =
    ("#EXTM3U".toList :: (lineas.flatMap LineaM3U8.lines ++ [[]])).flatMap (· ++ ['\n']) := by
  have hjoin : (String.join (lineas.map LineaM3U8.texto)).toList =
      (lineas.flatMap LineaM3U8.lines).flatMap (· ++ ['\n']) := by
    induction lineas with
    | nil => rfl
    | cons l lineas ih =>
      rw [List.map_cons, String.join_cons, String.toList_append, toList_texto, ih, List.flatMap_cons,
        List.flatMap_append]
  rw [textoM3U8, String.toList_append, String.toList_append, hjoin]
  simp

/-! ## What can be read -/

theorem EsTexto.of_esIdioma {language : String} (h : EsIdioma language) : EsTexto language.toList := by
  intro c hc
  have hchar := List.all_eq_true.1 h.chars c hc
  simp only [esDeIdioma, Char.isAlphanum, Bool.or_eq_true, decide_eq_true_eq] at hchar
  rcases hchar with ((halpha | hdigit) | rfl) | rfl
  · have hletra : (65 ≤ c.toNat ∧ c.toNat ≤ 90) ∨ 97 ≤ c.toNat ∧ c.toNat ≤ 122 := by
      rcases (Bool.or_eq_true c.isUpper c.isLower).mp halpha with hupper | hlower
      · exact .inl (of_decide_eq_true hupper)
      · have h := (Bool.and_eq_true _ _).mp hlower
        exact .inr ⟨of_decide_eq_true h.1, of_decide_eq_true h.2⟩
    omega
  · have := Char.isDigit_iff_toNat.1 hdigit
    have h0 : '0'.toNat = 48 := rfl
    have h9 : '9'.toNat = 57 := rfl
    omega
  · decide
  · decide

/-- An attribute that is read back as it was written. -/
def Atributo.Escrito (a : Atributo) : Prop :=
  '=' ∉ a.nombre.toList ∧ EsTexto a.nombre.toList ∧ EsTexto a.valor.toList ∧
    (a.comillas = false → ',' ∉ a.valor.toList)

instance : DecidablePred Atributo.Escrito := fun _ => inferInstanceAs (Decidable (_ ∧ _ ∧ _ ∧ _))

theorem Atributo.escrito_comillas {nombre valor : String}
    (hnombre : '=' ∉ nombre.toList ∧ EsTexto nombre.toList) (hv : EsTexto valor.toList) :
    Escrito ⟨nombre, valor, true⟩ :=
  ⟨hnombre.1, hnombre.2, hv, fun h => absurd h (by simp)⟩

theorem Atributo.Escrito.legal {a : Atributo} (h : a.Escrito) :
    a.item.Legal esEspacio esFinDeLinea := by
  obtain ⟨hnombre, hn, hv, hcoma⟩ := h
  exact ⟨⟨hnombre, hn.trimmed⟩, fun _ hc => (hn.append hv).esFinDeLinea hc,
    fun _ => hv.notMem (by decide), fun h => ⟨hcoma h, fun _ hc => hv.isQuote hc, hv.trimmed⟩⟩

theorem legales_item {as : List Atributo} (h : ∀ a ∈ as, a.Escrito) :
    ∀ a ∈ as.map Atributo.item, a.Legal esEspacio esFinDeLinea := by
  intro a ha
  obtain ⟨b, hb, rfl⟩ := List.mem_map.1 ha
  exact (h b hb).legal

/-! ## What one write is read as -/

section Lectura

/-- The names and the values of attributes. -/
def atributosDe (items : List Item) : Atributos :=
  items.map fun a => (.ofList a.name, .ofList a.value)

/-- What the parser has of a master playlist. -/
def Manifest.maestra (grupos : Option MediaGroups) (conPlaylists : Bool) (uris : List CurrentUri) :
    Manifest :=
  { Manifest.inicial with
    mediaGroups := grupos
    conPlaylists := conPlaylists
    uris := uris }

/-- A variant, as it is read. -/
def CurrentUri.variante (uri : String) (attributes : Atributos) : CurrentUri :=
  { CurrentUri.vacia with
    uri := uri
    attributes := some attributes }

variable {items : List Item} (hne : items ≠ [])
  (hitems : ∀ a ∈ items, a.Legal esEspacio esFinDeLinea)

include hne hitems in
theorem push_media : ParseStream.push ("#EXT-X-MEDIA:".toList ++ AttributeList.text items) =
    some (some (.media (some (atributosDe items)))) :=
  ParseStream.push_tag 11 "#EXT-X-MEDIA" rfl (by decide) (by decide)
    (AttributeList.newline_text hitems (by decide)) (AttributeList.getLast?_text hitems (by decide))
    (ParseStream.conAtributos_text hne hitems)

include hne hitems in
theorem push_streamInf :
    ParseStream.push ("#EXT-X-STREAM-INF:".toList ++ (AttributeList.text items ++ [' '])) =
      some (some (.streamInf (some (atributosDe items)))) := by
  have hpush : ParseStream.push ("#EXT-X-STREAM-INF:".toList ++ AttributeList.text items) =
      some (some (.streamInf (some (atributosDe items)))) :=
    ParseStream.push_tag 10 "#EXT-X-STREAM-INF" rfl (by decide) (by decide)
      (AttributeList.newline_text hitems (by decide)) (AttributeList.getLast?_text hitems (by decide))
      (ParseStream.conAtributos_text hne hitems)
  have htrimmed : Trimmed esEspacio ("#EXT-X-STREAM-INF:".toList ++ AttributeList.text items) := by
    refine ⟨fun c hc => ?_, fun c hc => ?_⟩
    · obtain rfl : '#' = c := Option.some_inj.1 hc
      decide
    · obtain ⟨a, -, t, ht⟩ := AttributeList.exists_text_eq hne
      have hnil : AttributeList.text items ≠ [] := by simp [ht, Item.chars]
      rw [List.getLast?_append, List.getLast?_eq_some_getLast hnil, Option.some_or] at hc
      obtain rfl := Option.some_inj.1 hc
      exact AttributeList.getLast?_text hitems (by decide) _ (List.getLast?_eq_some_getLast hnil)
  rw [← List.append_assoc, ← hpush]
  exact ParseStream.push_trim (List.forall_mem_nil _) htrimmed (List.forall_mem_singleton.2 (by decide))

variable {grupos : Option MediaGroups} {conPlaylists : Bool} {uris : List CurrentUri}

include hne hitems in
/-- **A rendition is read** under its type, its group and its name. -/
theorem leerLinea_media {clave : ClaveMedia}
    (hclave : (atributosDe items).dice "TYPE" = some clave.1 ∧
      (atributosDe items).dice "GROUP-ID" = some clave.2.1 ∧
      (atributosDe items).dice "NAME" = some clave.2.2)
    (htipo : clave.1 ∈ Manifest.tiposMedia) :
    (Manifest.maestra grupos conPlaylists uris).leerLinea
        ("#EXT-X-MEDIA:".toList ++ AttributeList.text items) =
      some (.maestra (some (Function.update (grupos.getD fun _ => none) clave
        (some (Manifest.renditionDe (atributosDe items))))) conPlaylists uris) := by
  obtain ⟨h1, h2, h3⟩ := hclave
  rw [Manifest.leerLinea, push_media hne hitems, Option.bind_some, Option.elim_some, Manifest.leer,
    Manifest.leerMedia]
  simp only [Option.bind_some, h1, h2, h3, Option.map_some, if_pos htipo]
  rfl

/-- **A variant is read** with its attributes, from the two lines of its
write. -/
theorem leerLineas_variante {line line' : List Char} {attributes : Atributos} {uri : String}
    (h : ParseStream.push line = some (some (.streamInf (some attributes))))
    (h' : ParseStream.push line' = some (some (.uri uri))) :
    [line, line'].foldlM Manifest.leerLinea (.maestra grupos conPlaylists uris) =
      some (.maestra (some (grupos.getD fun _ => none)) true
        (uris ++ [.variante uri attributes])) := by
  simp only [List.foldlM_cons, List.foldlM_nil, Manifest.leerLinea, h, h', Option.bind_eq_bind,
    Option.bind_some, Option.elim_some, Manifest.leer, Option.pure_def]
  simp [Manifest.cerrar, Manifest.maestra, Manifest.inicial, CurrentUri.vacia, CurrentUri.variante]

end Lectura

/-! ## The renditions -/

/-- The renditions of a program, by type, group and name. -/
def clavesM3U8 (programa : Programa) : List ClaveMedia :=
  programa.audio.map (fun elem => ("AUDIO", "audio", elem.language)) ++
    if teletextSubtitle programa then
      programa.subtitulos.map fun elem => ("SUBTITLES", "subs", elem.language)
    else programa.subtitulos.map fun elem => ("VIDEO", "videoSubs", elem.language)

/-- **The rendition of a type and a language.** -/
def renditionM3U8 : ClaveMedia → Rendition
  | (tipo, _, language) =>
    if tipo = "AUDIO" then
      { predeterminada := true
        autoselect := true
        language := some language
        uri := some ("audio/" ++ language ++ "/audio.m3u8")
        instreamId := none
        characteristics := none
        forced := none }
    else
      { predeterminada := false
        autoselect := false
        language := some language
        uri := some ("subtitulo/" ++ language ++ "/" ++
          if tipo = "SUBTITLES" then "subtitulo_vtt.m3u8" else "subtitulo.m3u8")
        instreamId := none
        characteristics := none
        forced := some false }

def pares (as : List Atributo) : Atributos := as.map fun a => (a.nombre, a.valor)

theorem atributosDe_item (as : List Atributo) : atributosDe (as.map Atributo.item) = pares as := by
  rw [atributosDe, List.map_map]
  exact List.map_congr_left fun a _ => by simp [Atributo.item]

theorem pares_cons (a : Atributo) (as : List Atributo) :
    pares (a :: as) = (a.nombre, a.valor) :: pares as := rfl

theorem get_cons (a : String × String) (attributes : Atributos) (nombre : String) :
    Atributos.get (a :: attributes) nombre =
      if a.1 = nombre then some a.2 else attributes.get nombre := by
  rw [Atributos.get, List.find?_cons]
  by_cases h : a.1 = nombre <;> simp [h, Atributos.get]

/-- A write whose lines end where they were written to end. -/
def LineaM3U8.SinSaltos (l : LineaM3U8) : Prop := ∀ line ∈ l.lines, '\n' ∉ line

theorem salto_notMem (tag : String) (htag : '\n' ∉ tag.toList) {items : List Item}
    (hitems : ∀ a ∈ items, a.Legal esEspacio esFinDeLinea) {fin : List Char} (hfin : '\n' ∉ fin) :
    '\n' ∉ tag.toList ++ (AttributeList.text items ++ fin) := by
  rw [List.mem_append, List.mem_append, not_or, not_or]
  refine ⟨htag, fun hc => ?_, hfin⟩
  have := AttributeList.newline_text hitems (by decide) _ hc
  exact absurd this (by decide)

/-- A media line puts its rendition under its key. -/
structure PoneRendition (l : LineaM3U8) (clave : ClaveMedia) : Prop where
  saltos : l.SinSaltos
  lee : ∀ grupos conPlaylists uris,
    l.lines.foldlM Manifest.leerLinea (.maestra grupos conPlaylists uris) =
      some (.maestra (some (Function.update (grupos.getD fun _ => none) clave
        (some (renditionM3U8 clave)))) conPlaylists uris)

theorem poneRendition_media {as : List Atributo} (hne : as ≠ []) (h : ∀ a ∈ as, a.Escrito)
    {clave : ClaveMedia} (htipo : clave.1 ∈ Manifest.tiposMedia)
    (hclave : (pares as).dice "TYPE" = some clave.1 ∧
      (pares as).dice "GROUP-ID" = some clave.2.1 ∧
      (pares as).dice "NAME" = some clave.2.2)
    (hrendition : Manifest.renditionDe (pares as) = renditionM3U8 clave) :
    PoneRendition (.media as) clave := by
  rw [← atributosDe_item] at hclave hrendition
  refine ⟨List.forall_mem_singleton.2 ?_, fun grupos conPlaylists uris => ?_⟩
  · have h := salto_notMem "#EXT-X-MEDIA:" (by decide) (legales_item h) List.not_mem_nil
    rwa [List.append_nil] at h
  rw [← hrendition, LineaM3U8.lines, List.foldlM_cons,
    leerLinea_media (mt List.map_eq_nil_iff.1 hne) (legales_item h) hclave htipo]
  rfl

section Renditions

variable {elem : Stream} (h : EsIdioma elem.language)

include h in
theorem poneRendition_lineaAudio :
    PoneRendition (lineaAudio elem) ("AUDIO", "audio", elem.language) := by
  have htexto := EsTexto.of_esIdioma h
  have huri : EsTexto ("audio/" ++ elem.language ++ "/audio.m3u8").toList := by
    rw [String.toList_append, String.toList_append]
    exact (EsTexto.append (by decide) htexto).append (by decide)
  have hne := h.ne_empty
  refine poneRendition_media (List.cons_ne_nil _ _) ?_ List.mem_cons_self ⟨?_, ?_, ?_⟩ ?_
  · simp only [List.forall_mem_cons]
    exact ⟨by decide, by decide, by decide, by decide, Atributo.escrito_comillas (by decide) htexto,
      Atributo.escrito_comillas (by decide) htexto, Atributo.escrito_comillas (by decide) huri,
      List.forall_mem_nil _⟩
  · simp [pares, Atributos.dice, Atributos.get]
  · simp +decide [pares, Atributos.dice, Atributos.get]
  · simp +decide [pares, Atributos.dice, Atributos.get, hne]
  · simp +decide [pares, Manifest.renditionDe, renditionM3U8, Atributos.dice, Atributos.get, hne]

include h in
theorem poneRendition_lineaSubtitulo {tipo grupo fichero : String}
    (htipo : (tipo, grupo, fichero) ∈
      [("SUBTITLES", "subs", "subtitulo_vtt.m3u8"), ("VIDEO", "videoSubs", "subtitulo.m3u8")]) :
    PoneRendition (lineaSubtitulo tipo grupo fichero elem) (tipo, grupo, elem.language) := by
  have htexto := EsTexto.of_esIdioma h
  have huri (fichero : String) (hf : EsTexto fichero.toList) :
      EsTexto ("subtitulo/" ++ elem.language ++ "/" ++ fichero).toList := by
    rw [String.toList_append, String.toList_append, String.toList_append]
    exact ((EsTexto.append (by decide) htexto).append (by decide)).append hf
  have hne := h.ne_empty
  simp only [List.mem_cons, Prod.mk.injEq, List.not_mem_nil, or_false] at htipo
  rcases htipo with ⟨rfl, rfl, rfl⟩ | ⟨rfl, rfl, rfl⟩
  all_goals
    refine poneRendition_media (List.cons_ne_nil _ _) ?_ (by simp [Manifest.tiposMedia]) ⟨?_, ?_, ?_⟩ ?_
    · simp only [List.forall_mem_cons]
      exact ⟨by decide, by decide, Atributo.escrito_comillas (by decide) htexto, by decide, by decide,
        Atributo.escrito_comillas (by decide) (huri _ (by decide)),
        Atributo.escrito_comillas (by decide) htexto, List.forall_mem_nil _⟩
    · simp [pares, Atributos.dice, Atributos.get]
    · simp +decide [pares, Atributos.dice, Atributos.get]
    · simp +decide [pares, Atributos.dice, Atributos.get, hne]
    · simp +decide [pares, Manifest.renditionDe, renditionM3U8, Atributos.dice, Atributos.get, hne]

end Renditions

/-- The lines of several renditions. -/
theorem foldlM_medias {lineas : List LineaM3U8} {claves : List ClaveMedia}
    (h : List.Forall₂ PoneRendition lineas claves) (grupos : Option MediaGroups) (conPlaylists : Bool)
    (uris : List CurrentUri) : ∃ grupos',
      (lineas.flatMap LineaM3U8.lines).foldlM Manifest.leerLinea (.maestra grupos conPlaylists uris) =
        some (.maestra grupos' conPlaylists uris) ∧
      grupos'.getD (fun _ => none) = claves.foldl
        (fun g clave => Function.update g clave (some (renditionM3U8 clave)))
        (grupos.getD fun _ => none) := by
  induction h generalizing grupos with
  | nil => exact ⟨grupos, rfl, rfl⟩
  | cons hl _ ih =>
    obtain ⟨grupos', hfold, hgrupos⟩ := ih (some _)
    refine ⟨grupos', ?_, hgrupos⟩
    rw [List.flatMap_cons, List.foldlM_append, hl.lee]
    exact hfold

theorem forall₂_mediasM3U8 {programa : Programa} (hP : programa.ConIdiomas) :
    List.Forall₂ PoneRendition (mediasM3U8 programa) (clavesM3U8 programa) := by
  have hidioma {elem : Stream} (h : elem ∈ programa.audio ∨ elem ∈ programa.subtitulos) :
      EsIdioma elem.language := hP elem (List.mem_append.2 h)
  have hmap {lineas : List Stream} {f : Stream → LineaM3U8} {g : Stream → ClaveMedia}
      (h : ∀ e ∈ lineas, PoneRendition (f e) (g e)) :
      List.Forall₂ PoneRendition (lineas.map f) (lineas.map g) :=
    List.forall₂_map_left_iff.2 (List.forall₂_map_right_iff.2 (List.forall₂_same.2 h))
  refine List.rel_append (hmap fun e he => poneRendition_lineaAudio (hidioma (.inl he))) ?_
  split
  · exact hmap fun e he => poneRendition_lineaSubtitulo (hidioma (.inr he)) (by simp)
  · exact hmap fun e he => poneRendition_lineaSubtitulo (hidioma (.inr he)) (by simp)

/-! ## The variants -/

/-- A variant whose name is cut at a comma. -/
def Variante.ConComa : Variante → Prop
  | principal _ => False
  | quemada _ language => ',' ∈ language.toList

instance : DecidablePred Variante.ConComa
  | .principal _ => inferInstanceAs (Decidable False)
  | .quemada _ language => inferInstanceAs (Decidable (',' ∈ language.toList))

def CurrentUri.get (p : CurrentUri) (nombre : String) : Option String :=
  p.attributes.bind fun attributes => attributes.get nombre

/-- **What the player has of a variant**: its address, its bandwidth
unless its name has a comma, and the group of its audio. -/
structure CurrentUri.EsDe (programa : Programa) (p : CurrentUri) (v : Variante) : Prop where
  uri : p.uri = v.uri
  bandwidth : p.get "BANDWIDTH" = if v.ConComa then none else some v.bandwidth
  audio : p.get "AUDIO" = if programa.audio = [] then none else some "audio"

/-- A write that is read as a variant. -/
structure PoneVariante (programa : Programa) (l : LineaM3U8) (v : Variante) : Prop where
  saltos : l.SinSaltos
  lee : ∃ p : CurrentUri, p.EsDe programa v ∧ ∀ grupos conPlaylists uris,
    l.lines.foldlM Manifest.leerLinea (.maestra grupos conPlaylists uris) =
      some (.maestra (some (grupos.getD fun _ => none)) true (uris ++ [p]))

theorem poneVariante_streamInf {programa : Programa} {as : List Atributo} (bs : List Atributo)
    {uri : String} {v : Variante} (hne : bs ≠ []) (h : ∀ a ∈ bs, a.Escrito)
    (htexto : AttributeList.text (as.map Atributo.item) = AttributeList.text (bs.map Atributo.item))
    {blancos : List Char} (hblancos : ∀ c ∈ blancos, esEspacio c = true) (hsalto : '\n' ∉ blancos)
    (huri : uri.toList = blancos ++ v.uri.toList) (hv : EsTexto v.uri.toList) (hnil : v.uri ≠ "")
    (hbandwidth : (pares bs).get "BANDWIDTH" =
      if v.ConComa then none else some v.bandwidth)
    (haudio : (pares bs).get "AUDIO" =
      if programa.audio = [] then none else some "audio") :
    PoneVariante programa (.streamInf as uri) v := by
  refine ⟨?_, .variante v.uri (pares bs), ⟨rfl, hbandwidth, haudio⟩,
    fun grupos conPlaylists uris => ?_⟩
  · refine List.forall_mem_cons.2 ⟨?_, List.forall_mem_singleton.2 ?_⟩
    · rw [htexto]
      exact salto_notMem "#EXT-X-STREAM-INF:" (by decide) (legales_item h) (by decide)
    · rw [huri, List.mem_append, not_or]
      exact ⟨hsalto, hv.notMem (by decide)⟩
  have hdireccion := ParseStream.push_direccion hblancos hv (mt String.toList_eq_nil_iff.1 hnil)
  rw [← huri, String.ofList_toList] at hdireccion
  have hinf := push_streamInf (mt List.map_eq_nil_iff.1 hne) (legales_item h)
  rw [← htexto, atributosDe_item] at hinf
  exact leerLineas_variante hinf hdireccion

section Variantes

variable {programa : Programa} {bitrate : Option String}
  (hb : ∀ c ∈ (bitrate.getD "").toList, c.isDigit = true)

include hb in
theorem esTexto_tasa : EsTexto (Variante.tasa bitrate).toList := by
  rw [Variante.tasa]
  split
  · decide
  · exact EsTexto.of_isDigit hb

include hb in
theorem esTexto_bandwidth : EsTexto (Variante.tasa bitrate ++ "000").toList := by
  rw [String.toList_append]
  exact (esTexto_tasa hb).append (by decide)

include hb in
theorem coma_notMem_bandwidth : ',' ∉ (Variante.tasa bitrate ++ "000").toList := by
  rw [String.toList_append, List.mem_append, not_or, Variante.tasa]
  refine ⟨?_, by decide⟩
  split
  · decide
  · exact fun hc => absurd (hb _ hc) (by decide)

include hb in
theorem escrito_bandwidth : Atributo.Escrito ⟨"BANDWIDTH", Variante.tasa bitrate ++ "000", false⟩ :=
  ⟨by simp, by simp +decide, esTexto_bandwidth hb, fun _ => coma_notMem_bandwidth hb⟩

include hb in
/-- **The main variant of a bitrate is read whole.** -/
theorem poneVariante_lineaPrincipal {subtitle : List Atributo} (hs : EsSubtitle subtitle) :
    PoneVariante programa (lineaPrincipal (atributosAudio programa) (atributosVideo programa) subtitle
      (bitrate.getD "")) (.principal bitrate) := by
  have hlista : EsTexto (Variante.lista bitrate).toList := by
    rw [Variante.lista]
    split
    · decide
    · exact EsTexto.of_isDigit hb
  have huri : EsTexto (Variante.principal bitrate).uri.toList := by
    rw [Variante.uri, String.toList_append]
    exact hlista.append (by decide)
  have hresto : ∀ a ∈ subtitle ++ atributosAudio programa ++ atributosVideo programa, a.Escrito := by
    rw [atributosAudio, atributosVideo]
    obtain rfl | rfl := hs <;> split <;> split <;> decide
  have haudio : (pares (subtitle ++ atributosAudio programa ++ atributosVideo programa)).get
      "AUDIO" = if programa.audio = [] then none else some "audio" := by
    rw [atributosAudio, atributosVideo]
    obtain rfl | rfl := hs <;> split <;> split <;> rfl
  refine poneVariante_streamInf (⟨"BANDWIDTH", Variante.tasa bitrate ++ "000", false⟩ ::
      (subtitle ++ atributosAudio programa ++ atributosVideo programa)) (List.cons_ne_nil _ _)
    (List.forall_mem_cons.2 ⟨escrito_bandwidth hb, hresto⟩) ?_ (List.forall_mem_nil _) List.not_mem_nil ?_ huri ?_ ?_
    haudio
  · simp only [List.append_assoc]
    rfl
  · rfl
  · simp [Variante.uri]
  · rfl

/-- A line of two attributes without quotes is also read with the cut at
the first comma of the first value. -/
theorem text_coma (nombre pre post nombre' valor' : List Char) (items : List Item) :
    AttributeList.text (⟨nombre, pre ++ ',' :: post, false⟩ :: ⟨nombre', valor', false⟩ :: items) =
      AttributeList.text
        (⟨nombre, pre, false⟩ :: ⟨post ++ ',' :: nombre', valor', false⟩ :: items) := by
  simp [AttributeList.text_cons, AttributeList.rest, Item.chars, Item.valueChars]

variable {elem : Stream}

include hb in
theorem esTexto_uri_quemada (h : EsTexto elem.language.toList) :
    EsTexto (Variante.quemada bitrate elem.language).uri.toList := by
  have hprefijo : EsTexto (Variante.prefijo bitrate).toList := by
    cases bitrate with
    | none => decide
    | some b =>
      rw [Variante.prefijo, Option.elim_some, String.toList_append]
      exact (EsTexto.of_isDigit hb).append (by decide)
  rw [Variante.uri, String.toList_append, String.toList_append, String.toList_append,
    String.toList_append]
  exact (((EsTexto.append (by decide) h).append (by decide)).append hprefijo).append (by decide)

/-- The address of a burned variant is written behind a blank. -/
theorem toList_uri_quemada (bitrate : Option String) (elem : Stream) :
    (" subtitulo/" ++ elem.language ++ "/" ++ (Variante.prefijo bitrate ++ "subtitulo.m3u8")).toList =
      [' '] ++ (Variante.quemada bitrate elem.language).uri.toList := by
  simp [Variante.uri]

/-- What follows the bandwidth of a burned variant. -/
theorem escrito_subtitles (programa : Programa) :
    ∀ a ∈ (⟨"SUBTITLES", "subs", true⟩ :: atributosAudio programa : List Atributo), a.Escrito := by
  rw [atributosAudio]
  split <;> decide

theorem get_audio_subtitles (programa : Programa) :
    (pares (⟨"SUBTITLES", "subs", true⟩ :: atributosAudio programa)).get "AUDIO" =
      if programa.audio = [] then none else some "audio" := by
  rw [atributosAudio]
  split <;> rfl

include hb in
theorem notMem_tasa {c : Char} (hc : c ∉ "1000".toList) (hdigit : c.isDigit = false) :
    c ∉ (Variante.tasa bitrate).toList := by
  rw [Variante.tasa]
  split
  · exact hc
  · exact notMem_bitrate hb hdigit

include hb in
/-- **A burned variant whose language has no comma is read whole.** -/
theorem poneVariante_sinComa (h : EsTexto elem.language.toList) (hcoma : ',' ∉ elem.language.toList) :
    PoneVariante programa (lineaQuemada (atributosAudio programa) (Variante.tasa bitrate)
      (Variante.prefijo bitrate ++ "subtitulo.m3u8") elem) (.quemada bitrate elem.language) := by
  have hnombre : Atributo.Escrito ⟨"NAME", elem.language ++ "-" ++ Variante.tasa bitrate, false⟩ := by
    refine ⟨by simp, by simp +decide, ?_, fun _ => ?_⟩
    · rw [String.toList_append, String.toList_append]
      exact (h.append (by decide)).append (esTexto_tasa hb)
    · rw [String.toList_append, String.toList_append, List.mem_append, List.mem_append, not_or, not_or]
      exact ⟨⟨hcoma, by decide⟩, notMem_tasa hb (by decide) (by decide)⟩
  refine poneVariante_streamInf (⟨"NAME", elem.language ++ "-" ++ Variante.tasa bitrate, false⟩ ::
      ⟨"BANDWIDTH", Variante.tasa bitrate ++ "000", false⟩ :: ⟨"SUBTITLES", "subs", true⟩ ::
        atributosAudio programa) (List.cons_ne_nil _ _) (List.forall_mem_cons.2 ⟨hnombre,
    List.forall_mem_cons.2 ⟨escrito_bandwidth hb, escrito_subtitles programa⟩⟩) rfl
    (List.forall_mem_singleton.2 (by decide)) (by decide) (toList_uri_quemada bitrate elem)
    (esTexto_uri_quemada hb h) ?_ ?_ (get_audio_subtitles programa)
  · simp [Variante.uri]
  · rw [if_neg (show ¬ (Variante.quemada bitrate elem.language).ConComa from hcoma)]
    rfl

/-- The attribute that the rest of a name cut at a comma becomes. -/
def atributoCortado (bitrate : Option String) (post : List Char) : Atributo :=
  ⟨.ofList ((post ++ '-' :: (Variante.tasa bitrate).toList) ++ ',' :: "BANDWIDTH".toList),
    Variante.tasa bitrate ++ "000", false⟩

include hb in
theorem escrito_atributoCortado {post : List Char} (h : EsTexto post) (higual : '=' ∉ post) :
    (atributoCortado bitrate post).Escrito := by
  refine ⟨?_, ?_, (escrito_bandwidth hb).2.2⟩
  · rw [atributoCortado, String.toList_ofList, List.mem_append, List.mem_append, List.mem_cons,
      not_or, not_or, not_or]
    exact ⟨⟨higual, by decide, notMem_tasa hb (by decide) (by decide)⟩, by decide⟩
  · rw [atributoCortado, String.toList_ofList]
    exact (h.append (EsTexto.append (by decide : EsTexto ['-']) (esTexto_tasa hb))).append
      (by decide : EsTexto (',' :: "BANDWIDTH".toList))

/-- It has a comma, so it is none of the attributes the player looks up. -/
theorem nombre_atributoCortado_ne {nombre : String} (h : ',' ∉ nombre.toList) (post : List Char) :
    (atributoCortado bitrate post).nombre ≠ nombre := by
  rintro rfl
  rw [atributoCortado, String.toList_ofList] at h
  exact h (List.mem_append_right _ List.mem_cons_self)

include hb in
/-- **A burned variant whose language has a comma loses its bandwidth**:
the name ends at the first comma, and the rest of it goes to the next
attribute. -/
theorem poneVariante_conComa (h : EsIdioma elem.language) (hcoma : ',' ∈ elem.language.toList) :
    PoneVariante programa (lineaQuemada (atributosAudio programa) (Variante.tasa bitrate)
      (Variante.prefijo bitrate ++ "subtitulo.m3u8") elem) (.quemada bitrate elem.language) := by
  have htexto := EsTexto.of_esIdioma h
  obtain ⟨pre, post, hlanguage, hpre⟩ := List.eq_append_cons_of_mem hcoma
  have hpartes : EsTexto pre ∧ EsTexto post := by
    refine ⟨fun c hc => htexto c ?_, fun c hc => htexto c ?_⟩ <;> simp [hlanguage, hc]
  have higual : '=' ∉ post := by
    intro hc
    have hchar := List.all_eq_true.1 h.chars '=' (by simp [hlanguage, hc])
    exact absurd hchar (by decide)
  have hnombre : Atributo.Escrito ⟨"NAME", .ofList pre, false⟩ :=
    ⟨by simp, by simp +decide, by rw [String.toList_ofList]; exact hpartes.1,
      fun _ => by rwa [String.toList_ofList]⟩
  have hotro {nombre : String} (hn : ',' ∉ nombre.toList) :
      (atributoCortado bitrate post).nombre ≠ nombre := nombre_atributoCortado_ne hn post
  refine poneVariante_streamInf (⟨"NAME", .ofList pre, false⟩ :: atributoCortado bitrate post ::
      ⟨"SUBTITLES", "subs", true⟩ :: atributosAudio programa) (List.cons_ne_nil _ _)
    (List.forall_mem_cons.2 ⟨hnombre, List.forall_mem_cons.2
      ⟨escrito_atributoCortado hb hpartes.2 higual, escrito_subtitles programa⟩⟩) ?_
    (List.forall_mem_singleton.2 (by decide)) (by decide) (toList_uri_quemada bitrate elem)
    (esTexto_uri_quemada hb htexto) ?_ ?_ ?_
  · have h := text_coma "NAME".toList pre (post ++ '-' :: (Variante.tasa bitrate).toList)
      "BANDWIDTH".toList (Variante.tasa bitrate ++ "000").toList
      (List.map Atributo.item (⟨"SUBTITLES", "subs", true⟩ :: atributosAudio programa))
    simp only [List.map_cons, List.cons_append, List.nil_append, Atributo.item, atributoCortado,
      String.toList_ofList, String.toList_append, hlanguage, List.append_assoc] at h ⊢
    exact h
  · simp [Variante.uri]
  · rw [if_pos (show (Variante.quemada bitrate elem.language).ConComa from hcoma), pares_cons,
      get_cons, if_neg (by simp), pares_cons, get_cons, if_neg (hotro (by decide)), atributosAudio]
    split <;> rfl
  · rw [pares_cons, get_cons, if_neg (by simp), pares_cons, get_cons, if_neg (hotro (by decide)),
      get_audio_subtitles]

include hb in
/-- **A burned variant is read whole but for its bandwidth**, which its
name takes where it has a comma. -/
theorem poneVariante_lineaQuemada (h : EsIdioma elem.language) :
    PoneVariante programa (lineaQuemada (atributosAudio programa) (Variante.tasa bitrate)
      (Variante.prefijo bitrate ++ "subtitulo.m3u8") elem) (.quemada bitrate elem.language) := by
  by_cases hcoma : ',' ∈ elem.language.toList
  · exact poneVariante_conComa hb h hcoma
  · exact poneVariante_sinComa hb (EsTexto.of_esIdioma h) hcoma

end Variantes

section Lineas

variable {programa : Programa} {R : LineaM3U8 → Variante → Prop}
  (hprincipal : ∀ {subtitle : List Atributo} {bitrate : Option String}, EsSubtitle subtitle →
    (∀ c ∈ (bitrate.getD "").toList, c.isDigit = true) →
    R (lineaPrincipal (atributosAudio programa) (atributosVideo programa) subtitle (bitrate.getD ""))
      (.principal bitrate))
  (hquemada : ∀ {bitrate : Option String}, (∀ c ∈ (bitrate.getD "").toList, c.isDigit = true) →
    ∀ e ∈ programa.subtitulos, R (lineaQuemada (atributosAudio programa) (Variante.tasa bitrate)
      (Variante.prefijo bitrate ++ "subtitulo.m3u8") e) (.quemada bitrate e.language))

include hprincipal hquemada in
/-- What holds of the two kinds of lines holds of those of one call. -/
theorem forall₂_llamada {subtitle : List Atributo} (hs : EsSubtitle subtitle)
    (bitrate : Option String) (hb : ∀ c ∈ (bitrate.getD "").toList, c.isDigit = true) :
    List.Forall₂ R (generarM3U8Videos programa (atributosAudio programa) (atributosVideo programa)
      subtitle (bitrate.getD "") (Variante.prefijo bitrate ++ "subtitulo.m3u8")).1
      (variantesDeBitrate programa bitrate) := by
  rw [generarM3U8Videos_fst, variantesDeBitrate, quemados]
  refine .cons (hprincipal hs hb) ?_
  split
  · exact .nil
  · rw [List.map_map]
    exact List.forall₂_map_left_iff.2 (List.forall₂_map_right_iff.2
      (List.forall₂_same.2 fun e he => hquemada hb e he))

include hprincipal hquemada in
/-- **What holds of the two kinds of lines holds of the variants of a
playlist**, in order, and the lines before them are its media lines. -/
theorem forall₂_lineas {bitrates : List String}
    (hb : ∀ b ∈ bitrates, ∀ c ∈ b.toList, c.isDigit = true) :
    ∃ lineas, generarArchivoM3U8 programa bitrates = mediasM3U8 programa ++ lineas ∧
      List.Forall₂ R lineas (variantesM3U8 programa bitrates) := by
  refine ⟨_, generarArchivoM3U8_eq programa bitrates, ?_⟩
  have hs := esSubtitle_atributosSubtitle programa
  rw [variantesM3U8, bitratesM3U8]
  by_cases hnil : bitrates = []
  · rw [if_pos hnil, if_pos hnil, List.flatMap_singleton]
    exact forall₂_llamada hprincipal hquemada hs none (by simp)
  · rw [if_neg hnil, if_neg hnil]
    clear hnil
    generalize atributosSubtitle programa = subtitle at hs
    induction bitrates generalizing subtitle with
    | nil => exact .nil
    | cons b bs ih =>
      rw [List.forall_mem_cons] at hb
      have hsubtitle : EsSubtitle (generarM3U8Videos programa (atributosAudio programa)
          (atributosVideo programa) subtitle b (b ++ "-subtitulo.m3u8")).2 := by
        rw [generarM3U8Videos_snd]
        split
        · exact hs
        · exact .inr rfl
      rw [variantes, List.map_cons, List.flatMap_cons]
      refine List.rel_append ?_ (ih hb.2 _ hsubtitle)
      rw [nombre_quemada]
      exact forall₂_llamada hprincipal hquemada hs (some b) hb.1

end Lineas

/-- The lines of several variants. -/
theorem foldlM_variantes {programa : Programa} {lineas : List LineaM3U8} {vs : List Variante}
    (h : List.Forall₂ (PoneVariante programa) lineas vs) (hne : vs ≠ []) (grupos : Option MediaGroups)
    (conPlaylists : Bool) (uris : List CurrentUri) : ∃ playlists,
      List.Forall₂ (CurrentUri.EsDe programa) playlists vs ∧
      (lineas.flatMap LineaM3U8.lines).foldlM Manifest.leerLinea (.maestra grupos conPlaylists uris) =
        some (.maestra (some (grupos.getD fun _ => none)) true (uris ++ playlists)) := by
  induction h generalizing grupos conPlaylists uris with
  | nil => exact absurd rfl hne
  | @cons l v lineas vs hl hlineas ih =>
    obtain ⟨p, hp, hfold⟩ := hl.lee
    have hcons : ((l :: lineas).flatMap LineaM3U8.lines).foldlM Manifest.leerLinea
        (.maestra grupos conPlaylists uris) = (lineas.flatMap LineaM3U8.lines).foldlM
          Manifest.leerLinea (.maestra (some (grupos.getD fun _ => none)) true (uris ++ [p])) := by
      rw [List.flatMap_cons, List.foldlM_append, hfold]
      rfl
    rw [hcons]
    cases hlineas with
    | nil => exact ⟨[p], .cons hp .nil, rfl⟩
    | cons hl' hlineas' =>
      obtain ⟨playlists, hplaylists, hresto⟩ := ih (List.cons_ne_nil _ _) (some _) true (uris ++ [p])
      refine ⟨p :: playlists, .cons hp hplaylists, ?_⟩
      rw [hresto, List.append_assoc]
      rfl

theorem exists_of_forall₂ {α β : Type*} {R : α → β → Prop} {as : List α} {bs : List β}
    (h : List.Forall₂ R as bs) {a : α} (ha : a ∈ as) : ∃ b ∈ bs, R a b := by
  induction h with
  | nil => cases ha
  | @cons _ b _ _ hab _ ih =>
    rcases List.mem_cons.1 ha with rfl | ha
    · exact ⟨b, List.mem_cons_self, hab⟩
    · obtain ⟨b', hb', h⟩ := ih ha
      exact ⟨b', List.mem_cons_of_mem _ hb', h⟩

/-- **What the player has of a playlist**: the renditions of the audio
and the subtitles under their type, group and language, no others, and
the variants in order. -/
structure Manifest.EsDe (programa : Programa) (bitrates : List String) (m : Manifest) : Prop where
  grupos : m.mediaGroups = some fun clave =>
    if clave ∈ clavesM3U8 programa then some (renditionM3U8 clave) else none
  playlists : ∃ playlists, m.playlists = some playlists ∧
    List.Forall₂ (CurrentUri.EsDe programa) playlists (variantesM3U8 programa bitrates)

theorem exists_parse {programa : Programa} (hP : programa.ConIdiomas) {bitrates : List String}
    (hb : ∀ b ∈ bitrates, ∀ c ∈ b.toList, c.isDigit = true) :
    ∃ m, Parser.parse (textoM3U8 (generarArchivoM3U8 programa bitrates)) = some m ∧
      m.EsDe programa bitrates := by
  obtain ⟨lineas, hlineas, hforall⟩ := forall₂_lineas (R := PoneVariante programa)
    (fun hs hb => poneVariante_lineaPrincipal hb hs)
    (fun hb e he => poneVariante_lineaQuemada hb (hP e (List.mem_append_right _ he))) hb
  have hne : variantesM3U8 programa bitrates ≠ [] := by
    rw [variantesM3U8, bitratesM3U8]
    split
    · simp [variantesDeBitrate]
    · rename_i hnil
      obtain ⟨b, bs, rfl⟩ := List.exists_cons_of_ne_nil hnil
      simp [variantesDeBitrate]
  obtain ⟨grupos, hmedias, hgrupos⟩ := foldlM_medias (forall₂_mediasM3U8 hP) none false []
  obtain ⟨playlists, hplaylists, hvariantes⟩ := foldlM_variantes hforall hne grupos false []
  have hsaltos : ∀ line ∈ "#EXTM3U".toList ::
      ((generarArchivoM3U8 programa bitrates).flatMap LineaM3U8.lines ++ [[]]), '\n' ∉ line := by
    refine List.forall_mem_cons.2 ⟨by decide, List.forall_mem_append.2 ⟨fun line hline => ?_, by simp⟩⟩
    obtain ⟨l, hl, hline⟩ := List.mem_flatMap.1 hline
    rw [hlineas, List.mem_append] at hl
    rcases hl with hl | hl
    · obtain ⟨_, -, h⟩ := exists_of_forall₂ (forall₂_mediasM3U8 hP) hl
      exact h.saltos line hline
    · obtain ⟨_, -, h⟩ := exists_of_forall₂ hforall hl
      exact h.saltos line hline
  have hfold : ("#EXTM3U".toList :: ((generarArchivoM3U8 programa bitrates).flatMap LineaM3U8.lines ++
      [[]])).foldlM Manifest.leerLinea Manifest.inicial =
        some (.maestra (some (grupos.getD fun _ => none)) true ([] ++ playlists)) := by
    have hcabecera : Manifest.inicial.leerLinea "#EXTM3U".toList = some (.maestra none false []) := rfl
    have hvacia (m : Manifest) : [[]].foldlM Manifest.leerLinea m = some m := rfl
    rw [List.foldlM_cons, hcabecera, Option.bind_eq_bind, Option.bind_some, hlineas, List.flatMap_append,
      List.append_assoc, List.foldlM_append, hmedias, Option.bind_eq_bind, Option.bind_some,
      List.foldlM_append, hvariantes]
    exact hvacia _
  refine ⟨_, (Parser.parse_lineas (toList_textoM3U8 _) hsaltos).trans hfold, ?_, playlists, rfl,
    hplaylists⟩
  refine congrArg some (hgrupos.trans (funext fun clave => ?_))
  rw [foldl_update (fun clave => clave) fun clave => some (renditionM3U8 clave), List.map_id']
  congr

/-- **The player reads the master playlist back**, in whatever pieces it
arrives: the renditions and the variants, each with its address, its
audio group and, unless the language of its burned subtitle has a comma,
its bandwidth. -/
theorem parse_generarArchivoM3U8 {programa : Programa} (hP : programa.ConIdiomas)
    {bitrates : List String} (hb : ∀ b ∈ bitrates, ∀ c ∈ b.toList, c.isDigit = true)
    {chunks : List (List Char)}
    (hchunks : chunks.flatten = (textoM3U8 (generarArchivoM3U8 programa bitrates)).toList) :
    ∃ m, ((Parser.inicial.pushAll chunks).bind Parser.finalizar).map Parser.manifest = some m ∧
      m.EsDe programa bitrates := by
  rw [Parser.parse_pushAll, hchunks, String.ofList_toList]
  exact exists_parse hP hb

theorem conIdiomas_programaSubtitulado : programaSubtitulado.ConIdiomas := by
  intro elem helem
  simp only [programaSubtitulado, List.mem_append, List.mem_singleton] at helem
  obtain rfl := helem.resolve_left (List.not_mem_nil)
  exact ⟨by decide, by decide⟩

/-- A playlist that arrives byte by byte. -/
theorem parse_generarArchivoM3U8_subtitulado : ∃ m, ((Parser.inicial.pushAll
      ((textoM3U8 (generarArchivoM3U8 programaSubtitulado ["2800"])).toList.map fun c => [c])).bind
        Parser.finalizar).map Parser.manifest = some m ∧
    m.EsDe programaSubtitulado ["2800"] :=
  parse_generarArchivoM3U8 conIdiomas_programaSubtitulado
    (List.forall_mem_singleton.2 (Text.forall_mem_of_all (by decide)))
    (by rw [← List.flatMap_def, List.flatMap_singleton'])

/-! ## The menu of the playlist that was read -/

/-- The variants, as the player shows them to the page: each by its
address. -/
def representations (m : Manifest) : List Representation :=
  (m.playlists.getD []).map fun p =>
    { id := p.uri
      bandwidth := ((p.get "BANDWIDTH").bind fun s => parseInt s.toList).map Int.toNat }

namespace Menu

theorem labels_pulsar (rs : List Representation) (menu : Menu) (k : ℕ) :
    (menu.pulsar rs k).items.map MenuItem.label = menu.items.map MenuItem.label := by
  rw [pulsar]
  cases menu.items[k]? with
  | none => rfl
  | some clickedItem =>
    refine List.ext_getElem? fun i => ?_
    rw [List.getElem?_map, List.getElem?_mapIdx, Option.map_map, List.getElem?_map]
    rfl

/-- Clicks leave the labels as they are. -/
theorem labels_tras (rs : List Representation) (menu : Menu) (clics : List ℕ) :
    (menu.tras rs clics).items.map MenuItem.label = menu.items.map MenuItem.label := by
  induction clics generalizing menu with
  | nil => rfl
  | cons k clics ih => exact (ih (menu.pulsar rs k)).trans (labels_pulsar rs menu k)

/-- **The menu of some variants**, as it should be at any time: it calls
each what it should be called, the item that is selected says which are
enabled, and some are. -/
structure DeVariantes (vs : List Variante) (rs : List Representation) (menu : Menu) : Prop where
  etiquetas : menu.items.map MenuItem.label = "Auto" :: vs.map Variante.etiqueta
  coherente : menu.Coherente rs
  enabled : ∃ r ∈ rs, menu.enabled r.id = true

end Menu

/-- **From the master playlist to the menu**: of what `generarArchivoM3U8`
writes the player shows the page its variants by their addresses, and
where there are two the menu built of them calls each by its bitrate and
its language, and leaves one to play, after any clicks. -/
theorem menu_generarArchivoM3U8 {programa : Programa} (hP : programa.ConIdiomas)
    {bitrates : List String} (hb : ∀ b ∈ bitrates, ∀ c ∈ b.toList, c.isDigit = true) :
    ∃ m, Parser.parse (textoM3U8 (generarArchivoM3U8 programa bitrates)) = some m ∧
      (representations m).map Representation.id =
        (variantesM3U8 programa bitrates).map Variante.uri ∧
      (1 < (variantesM3U8 programa bitrates).length → ∀ enabled clics,
        ((Menu.crear (representations m) enabled).tras (representations m) clics).DeVariantes
          (variantesM3U8 programa bitrates) (representations m)) := by
  obtain ⟨m, hm, -, playlists, hplaylists, hforall⟩ := exists_parse hP hb
  have hid : (representations m).map Representation.id =
      (variantesM3U8 programa bitrates).map Variante.uri := by
    have huris {ps : List CurrentUri} {vs : List Variante}
        (h : List.Forall₂ (CurrentUri.EsDe programa) ps vs) :
        ps.map CurrentUri.uri = vs.map Variante.uri := by
      induction h with
      | nil => rfl
      | cons hp _ ih => exact congrArg₂ List.cons hp.uri ih
    rw [← huris hforall, representations, hplaylists, Option.getD_some, List.map_map]
    rfl
  have hl : ∀ e ∈ programa.subtitulos, SinCortes e.language := fun e he =>
    sinCortes_of_esIdioma (hP e (List.mem_append_right _ he))
  refine ⟨m, hm, hid, fun hlen enabled clics => ?_⟩
  have hlen' : 1 < (representations m).length := by
    rwa [← List.length_map Representation.id, hid, List.length_map]
  refine ⟨?_, coherente_tras hlen' (ne_empty_of_uris hid) enabled clics,
    exists_enabled_tras programa bitrates hb hlen' (hid.trans (urisVariantes_eq hb).symm) enabled clics⟩
  have hlabels : ((representations m).map itemDeVariante).map MenuItem.label =
      (variantesM3U8 programa bitrates).map Variante.etiqueta := calc
    _ = ((representations m).map Representation.id).map levelNameDeId := by
      simp only [List.map_map, Function.comp_def, itemDeVariante]
    _ = (variantesM3U8 programa bitrates).map fun v => levelNameDeId v.uri := by
      rw [hid, List.map_map, Function.comp_def]
    _ = _ := List.map_congr_left fun v hv => levelNameDeId_uri hl hb hv
  have hitems : (Menu.crear (representations m) enabled).items =
      itemAuto :: (representations m).map itemDeVariante := by
    rw [Menu.crear, createItems_eq hlen' (ne_empty_of_uris hid), List.reduceOption,
      List.filterMap_map]
    exact List.filterMap_some
  rw [Menu.labels_tras, hitems, List.map_cons, hlabels]
  rfl

/-- The menu of a subtitle of two languages, at two bitrates. -/
theorem menu_generarArchivoM3U8_subtitulado : ∃ m,
    Parser.parse (textoM3U8 (generarArchivoM3U8 programaSubtitulado ["2800", "800"])) = some m ∧
      (representations m).map Representation.id =
        (variantesM3U8 programaSubtitulado ["2800", "800"]).map Variante.uri ∧
      (1 < (variantesM3U8 programaSubtitulado ["2800", "800"]).length → ∀ enabled clics,
        ((Menu.crear (representations m) enabled).tras (representations m) clics).DeVariantes
          (variantesM3U8 programaSubtitulado ["2800", "800"]) (representations m)) :=
  menu_generarArchivoM3U8 conIdiomas_programaSubtitulado
    (List.forall_mem_cons.2 ⟨Text.forall_mem_of_all (by decide),
      List.forall_mem_singleton.2 (Text.forall_mem_of_all (by decide))⟩)

end HlsXcoder
