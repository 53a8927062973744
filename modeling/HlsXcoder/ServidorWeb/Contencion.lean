import HlsXcoder.ServidorWeb.Registro

/-!
# No request leaves the served directories

A request path without empty elements and dots only goes down, and so does
every value that takes whole elements of it. The handlers put values and
fixed names behind the directory they serve, so all they serve is below it
(`debajo_of_matches`).

What the templates need for that is that each variable stands between
slashes. The templates of the server do, behind a path that does; the name
of an encoding that closes a brace splits its variable off, and two dots
before it are a value of their own.
-/

namespace HlsXcoder

open Mux FileTree

/-- A file lies below a directory, from wherever both are looked up. -/
def Debajo (base file : String) : Prop :=
  ∀ cwd, resolve cwd base.toList <+: resolve cwd file.toList

/-- A path of templates made of elements, if its braces balance. -/
def Entera (path : String) : Prop :=
  depth 0 path.toList = some 0 → ∃ es, (∀ e ∈ es, e.Balanced) ∧ path.toList = template es

/-! ## The values -/

section Rutas

variable {configuration : Config} {compile : List Char → Option Pattern}
  {encodings : List Codificacion} {routes : List (Route Manejador)} {r : Route Manejador}

/-- **The values of a route only go down**, behind a path that puts its
variables between slashes. -/
theorem descent_of_matches (h : handlers configuration compile encodings = some routes)
    (hentera : ∀ path ∈ rutasDe encodings, Entera (finalPath configuration path)) (hr : r ∈ routes)
    {path : List Char} (hpath : IsDescent path) {vs : List (List Char × List Char)}
    (hvs : vs ∈ r.matches path) : ∀ v ∈ vs, IsDescent ('/' :: v.2) := by
  rw [eq_rutas_of_handlers h, mem_rutas_iff] at hr
  obtain ⟨encoding, hmem, m, es, hes, rfl⟩ := hr
  have hbal := m.balanced es hes
  rw [Route.matches, rutaDePlantilla] at hvs
  cases hnew : newRouteRegexp compile (template (elementosCamino configuration encoding ++ es)) with
  | error e => simp [hnew, Except.toOption] at hvs
  | ok ps =>
    replace hvs : vs ∈ matchFrom ps [] path := by simpa [hnew, Except.toOption] using hvs
    obtain ⟨cortada, hcortada, hnew⟩ := newRouteRegexp_eq_ok hnew
    rw [template_append, ← finalPath_eq] at hcortada
    -- the elements behind the path balance, so the path balances with them
    have hdepth := depth_of_bracePieces (Option.isSome_iff_exists.2 ⟨_, hcortada⟩)
    rw [depth_append, Option.bind_eq_some_iff] at hdepth
    obtain ⟨n, hn, hdepth⟩ := hdepth
    rw [depth_template hbal] at hdepth
    obtain rfl := Option.some.inj hdepth
    have hp : rutaDe encoding ∈ rutasDe encodings := by
      rw [rutasDe_eq]
      exact List.mem_map_of_mem hmem
    obtain ⟨es₀, hbal₀, heq⟩ := hentera _ hp hn
    rw [heq, ← template_append,
      bracePieces_template (List.forall_mem_append.2 ⟨hbal₀, hbal⟩)] at hcortada
    obtain rfl := Option.some.inj hcortada
    obtain ⟨parts, -, rfl, rfl⟩ := parts_of_mem_matchFrom hnew hvs
    exact fun v hv => descent_of_mem_values hpath hv

end Rutas

/-! ## The handlers -/

/-- A file is a directory with a descent behind it. -/
def Bajo (base file : String) : Prop := ∃ t, IsDescent t ∧ file.toList = base.toList ++ t

theorem Bajo.rfl {base : String} : Bajo base base := ⟨[], ⟨[], by simp⟩, by simp⟩

theorem Bajo.trans {a b c : String} (hab : Bajo a b) (hbc : Bajo b c) : Bajo a c := by
  obtain ⟨t, ht, hb⟩ := hab
  obtain ⟨u, hu, hc⟩ := hbc
  exact ⟨t ++ u, ht.append hu, by rw [hc, hb, List.append_assoc]⟩

theorem bajo_barra {base v : String} (hv : IsDescent ('/' :: v.toList)) : Bajo base (base ++ "/" ++ v) :=
  ⟨_, hv, by simp⟩

/-- A fixed directory is one more step down. -/
theorem bajo_carpeta {base d v : String} {e : Name} (he : IsName e)
    (hd : d.toList = '/' :: (e ++ ['/'])) (hv : IsDescent ('/' :: v.toList)) :
    Bajo base (base ++ d ++ v) :=
  ⟨('/' :: e) ++ '/' :: v.toList, (isDescent_name he).append hv, by simp [hd]⟩

theorem Bajo.debajo {base file : String} (h : Bajo base file) (hbase : base ≠ "") :
    Debajo base file := by
  obtain ⟨t, ht, hfile⟩ := h
  intro cwd
  rw [hfile]
  exact resolve_prefix_append cwd (by simpa using hbase) ht

/-- Where a file is looked for: in the directory as it is, or in one of
those of the page. -/
theorem servirFichero_cases {entorno : Entorno} {mediaBase filename mediaFile contentType : String}
    {tipoStream : ℕ}
    (h : servirFichero entorno mediaBase filename tipoStream = .fichero mediaFile contentType) :
    mediaFile = mediaBase ++ "/" ++ filename ∨
      ∃ d ∈ ["/js/", "/styles/", "/img/"], mediaFile = mediaBase ++ d ++ filename := by
  simp only [servirFichero] at h
  split at h
  · exact .inl (Respuesta.fichero.inj h).1.symm
  · split at h
    case h_6 => exact .inr ⟨"/js/", by simp, (Respuesta.fichero.inj h).1.symm⟩
    case h_7 => exact .inr ⟨"/styles/", by simp, (Respuesta.fichero.inj h).1.symm⟩
    case h_8 => exact .inr ⟨"/img/", by simp, (Respuesta.fichero.inj h).1.symm⟩
    all_goals exact .inl (Respuesta.fichero.inj h).1.symm

/-- What is served lies below the directory it is looked for in. -/
theorem bajo_of_servirFichero {entorno : Entorno} {mediaBase filename mediaFile contentType : String}
    {tipoStream : ℕ}
    (h : servirFichero entorno mediaBase filename tipoStream = .fichero mediaFile contentType)
    (hf : IsDescent ('/' :: filename.toList)) : Bajo mediaBase mediaFile := by
  obtain rfl | ⟨d, hd, rfl⟩ := servirFichero_cases h
  · exact bajo_barra hf
  · simp only [List.mem_cons, List.not_mem_nil, or_false] at hd
    obtain rfl | rfl | rfl := hd
    · exact bajo_carpeta (e := "js".toList) (by decide) (by simp) hf
    · exact bajo_carpeta (e := "styles".toList) (by decide) (by simp) hf
    · exact bajo_carpeta (e := "img".toList) (by decide) (by simp) hf

/-- The directory an answer has to stay in. -/
def raiz (configuration : Config) (vars : String → Option String) : Manejador → String
  | .hls => mediaBase configuration ((vars "mediaId").getD "")
  | .paginaWebVideoPlayer => configuration.videoplayerPath

/-- The values of a request stay below the directory of the stream. -/
theorem bajo_carpetaPedida {base : String} {vars : String → Option String}
    (hvars : ∀ name value, vars name = some value → IsDescent ('/' :: value.toList)) :
    Bajo base (base ++ carpetaPedida vars) := by
  have hpath : Bajo base (base ++ (vars "path").elim "" fun path => "/" ++ path) := by
    cases hpath : vars "path" with
    | none =>
      rw [Option.elim_none, String.append_empty]
      exact .rfl
    | some path =>
      rw [Option.elim_some, ← String.append_assoc]
      exact bajo_barra (hvars _ _ hpath)
  rw [carpetaPedida, ← String.append_assoc]
  refine hpath.trans ?_
  cases haudio : vars "audioName" with
  | some audioName =>
    rw [Option.elim_some, ← String.append_assoc]
    exact bajo_carpeta (e := "audio".toList) (by decide) (by simp) (hvars _ _ haudio)
  | none =>
    rw [Option.elim_none]
    cases hsub : vars "subName" with
    | none =>
      rw [Option.elim_none, String.append_empty]
      exact .rfl
    | some subName =>
      rw [Option.elim_some, ← String.append_assoc]
      exact bajo_carpeta (e := "subtitulos".toList) (by decide) (by simp) (hvars _ _ hsub)

/-- **What a handler serves is below its directory**, where the values it
reads only go down. -/
theorem bajo_of_atender {entorno : Entorno} {configuration : Config} {vars : String → Option String}
    (hvars : ∀ name value, vars name = some value → IsDescent ('/' :: value.toList))
    {m : Manejador} {mediaFile contentType : String}
    (h : m.atender entorno configuration vars = .fichero mediaFile contentType) :
    Bajo (raiz configuration vars m) mediaFile := by
  cases m with
  | hls =>
    cases hmedia : vars "mediaId" with
    | none =>
      rw [Manejador.atender, manejadorHLS, hmedia] at h
      cases h
    | some mediaId =>
      cases hfile : vars "filename" with
      | none =>
        rw [Manejador.atender, manejadorHLS, hmedia, hfile] at h
        cases h
      | some filename =>
        rw [Manejador.atender, manejadorHLS_eq hmedia hfile] at h
        rw [raiz, hmedia, Option.getD_some]
        exact (bajo_carpetaPedida hvars).trans (bajo_of_servirFichero h (hvars _ _ hfile))
  | paginaWebVideoPlayer =>
    simp only [Manejador.atender, manejadorPaginaWebVideoPlayer] at h
    split at h
    · cases h
    · split at h
      · cases h
      · split at h <;> cases h
    · rename_i hresource
      exact bajo_of_servirFichero h (hvars _ _ hresource)
    · cases h

/-- **No request leaves the served directories**, where the path of every
encoding puts its variables between slashes and the directory of the
player has a name: whatever the patterns mean, whichever route matches and
whatever its variables take. -/
theorem debajo_of_matches (entorno : Entorno) (compile : List Char → Option Pattern)
    (configuration : Config) (encodings : List Codificacion) (routes : List (Route Manejador))
    (h : handlers configuration compile encodings = some routes)
    (hentera : ∀ path ∈ rutasDe encodings, Entera (finalPath configuration path))
    (hwww : configuration.videoplayerPath ≠ "") (path : String) (hpath : IsDescent path.toList)
    (r : Route Manejador) (hr : r ∈ routes) (vs : List (List Char × List Char))
    (hvs : vs ∈ r.matches path.toList) (mediaFile contentType : String)
    (hsirve : r.handler.atender entorno configuration (extractVars vs) =
      .fichero mediaFile contentType) :
    Debajo (raiz configuration (extractVars vs) r.handler) mediaFile := by
  have hvalues := descent_of_matches h hentera hr hpath hvs
  refine (bajo_of_atender (fun name value hvalue => ?_) hsirve).debajo ?_
  · exact hvalues _ (mem_of_extractVars hvalue)
  · cases r.handler with
    | hls => simp [raiz, mediaBase]
    | paginaWebVideoPlayer => exact hwww

/-! ## The paths of the encodings -/

/-- **The paths of the encodings put their variables between slashes**
where the subpath has no braces and no name closes a brace it has not
opened. -/
theorem entera_finalPath {configuration : Config} {encodings : List Codificacion}
    (ho : '{' ∉ configuration.urlSubpath.toList) (hc : '}' ∉ configuration.urlSubpath.toList)
    (hnombres : ∀ c ∈ encodings, (depth 0 c.nombre.toList).isSome = true) :
    ∀ path ∈ rutasDe encodings, Entera (finalPath configuration path) := by
  rw [rutasDe_eq, List.forall_mem_map]
  intro encoding hmem hdepth
  refine ⟨_, balanced_elementosCamino encoding ho hc fun c hc' => ?_, finalPath_eq configuration encoding⟩
  obtain rfl : encoding = some c := hc'
  have hmem : c ∈ encodings := by
    rw [caminos] at hmem
    split at hmem
    · simp at hmem
    · simpa using hmem
  obtain ⟨n, hn⟩ := Option.isSome_iff_exists.1 (hnombres c hmem)
  have hprefijo := balanced_elementosCamino none ho hc (by simp)
  have hfinal : template (elementosCamino configuration (some c)) =
      template (elementosCamino configuration none) ++
        ("/\x7bpath:".toList ++ (c.nombre.toList ++ ['}'])) := by
    simp [elementosCamino, elementosNombre, template, Elem.text]
  have habre : depth 0 "/\x7bpath:".toList = some 1 := by decide
  -- what the name leaves open stays open behind it
  have hcierra : depth 0 (template (elementosCamino configuration (some c))) = some n := by
    rw [hfinal, depth_append, depth_template hprefijo, Option.bind_some, depth_append, habre,
      Option.bind_some, depth_append, depth_add hn 1, Option.bind_some]
    rfl
  rw [finalPath_eq, hcierra] at hdepth
  rw [hn, Option.some.inj hdepth]

/-! ## Two runs -/

/-- One encoding, served under `streaming`. -/
def configuracionServida (nombre : String) : Config :=
  { Config.minima with
    urlSubpath := "streaming", videoplayerPath := "./www", encodings := [⟨nombre, []⟩] }

/-- A server whose MIME table is empty. -/
def entornoVacio : Entorno := ⟨fun _ => "", fun _ => true⟩

/-- Some route of an encoding serves a playlist for a path, out of a
directory. -/
def sirve (nombre path base mediaFile : String) : Bool :=
  (handlers (configuracionServida nombre) compilePattern [⟨nombre, []⟩]).any fun routes =>
    routes.any fun r => (r.matches path.toList).any fun vs =>
      decide (raiz (configuracionServida nombre) (extractVars vs) r.handler = base) &&
        decide (r.handler.atender entornoVacio (configuracionServida nombre) (extractVars vs) =
          .fichero mediaFile "application/x-mpegURL")

theorem exists_of_sirve {nombre path base mediaFile : String}
    (h : sirve nombre path base mediaFile = true) :
    ∃ routes, handlers (configuracionServida nombre) compilePattern [⟨nombre, []⟩] = some routes ∧
      ∃ r ∈ routes, ∃ vs ∈ r.matches path.toList,
        raiz (configuracionServida nombre) (extractVars vs) r.handler = base ∧
        r.handler.atender entornoVacio (configuracionServida nombre) (extractVars vs) =
          .fichero mediaFile "application/x-mpegURL" := by
  simpa only [sirve, Option.any_eq_true, List.any_eq_true, Bool.and_eq_true, decide_eq_true_eq] using h

/-- **The first template of an encoding is enough**, where none of them
stops the program. -/
theorem sirve_of_primera {nombre path base mediaFile : String}
    (hok : ∀ m : Manejador, ∀ es ∈ m.elementos, newRouteRegexp compilePattern
      (template (elementosCamino (configuracionServida nombre) (some ⟨nombre, []⟩) ++ es)) ≠
        .error .captures)
    (hprimera : ((rutaDePlantilla compilePattern .hls
      (template (elementosCamino (configuracionServida nombre) (some ⟨nombre, []⟩) ++
        [.var "filename:[a-z|0-9]{1,20}.m3u8".toList]))).matches path.toList).any (fun vs =>
          decide (mediaBase (configuracionServida nombre) ((extractVars vs "mediaId").getD "") = base) &&
            decide (manejadorHLS entornoVacio (configuracionServida nombre) (extractVars vs) =
              .fichero mediaFile "application/x-mpegURL")) = true) :
    sirve nombre path base mediaFile = true := by
  have hhandlers : handlers (configuracionServida nombre) compilePattern [⟨nombre, []⟩] =
      some (rutas (configuracionServida nombre) compilePattern [⟨nombre, []⟩]) :=
    handlers_eq_rutas (by simpa [caminos] using hok)
  rw [sirve, hhandlers, Option.any_some, List.any_eq_true]
  exact ⟨_, mem_rutas_iff.2 ⟨some ⟨nombre, []⟩, by simp [caminos], .hls, _, List.mem_cons_self, rfl⟩,
    hprimera⟩

/-- The playlist of an encoding is below the directory of its stream. -/
theorem debajo_h264 : Debajo "salida/7/hls" "salida/7/hls/h264/hls.m3u8" := by
  have hok (m : Manejador) (es) (hes : es ∈ m.elementos) : newRouteRegexp compilePattern
      (template (elementosCamino (configuracionServida "h264") (some ⟨"h264", []⟩) ++ es)) ≠
        .error .captures := by
    obtain ⟨r, hr, -⟩ := @newRouteRegexp_plantilla (configuracionServida "h264") (some ⟨"h264", []⟩)
      (by decide) (by decide) (by simp; decide) m es hes
    rw [hr]
    exact nofun
  have hprimera : sirve "h264" "/streaming/7/h264/hls.m3u8" "salida/7/hls"
      "salida/7/hls/h264/hls.m3u8" = true := sirve_of_primera hok (by decide +kernel)
  obtain ⟨routes, hroutes, r, hr, vs, hvs, hraiz, hsirve⟩ := exists_of_sirve hprimera
  have hentera : ∀ path ∈ rutasDe [⟨"h264", []⟩],
      Entera (finalPath (configuracionServida "h264") path) :=
    entera_finalPath (by decide) (by decide) (by decide)
  have hpath : IsDescent "/streaming/7/h264/hls.m3u8".toList :=
    ⟨["streaming".toList, "7".toList, "h264".toList, "hls.m3u8".toList], by decide, by decide⟩
  rw [← hraiz]
  exact debajo_of_matches entornoVacio compilePattern (configuracionServida "h264") [⟨"h264", []⟩]
    routes hroutes hentera (by decide) "/streaming/7/h264/hls.m3u8" hpath r hr vs hvs _ _ hsirve

/-- A name that closes its brace: `..`, a closing brace, and a variable of
its own. -/
def nombreCerrado : String := "..\x7da\x7bb"

/-- **A name that closes its brace lets two dots through**: the value of
the encoding is then a piece of an element of the path. -/
theorem not_debajo_of_matches : ¬ ∀ (entorno : Entorno) (configuration : Config)
    (encodings : List Codificacion) (routes : List (Route Manejador)),
    handlers configuration compilePattern encodings = some routes →
    ∀ path : String, IsDescent path.toList → ∀ r ∈ routes, ∀ vs ∈ r.matches path.toList,
    ∀ mediaFile contentType, r.handler.atender entorno configuration (extractVars vs) =
        .fichero mediaFile contentType →
      Debajo (raiz configuration (extractVars vs) r.handler) mediaFile := by
  intro h
  have hok (m : Manejador) : ∀ es ∈ m.elementos, newRouteRegexp compilePattern
      (template (elementosCamino (configuracionServida nombreCerrado) (some ⟨nombreCerrado, []⟩) ++ es)) ≠
        .error .captures := by
    cases m <;> decide +kernel
  have hprimera : sirve nombreCerrado "/streaming/7/..ax/hls.m3u8" "salida/7/hls"
      "salida/7/hls/../hls.m3u8" = true := sirve_of_primera hok (by decide +kernel)
  obtain ⟨routes, hroutes, r, hr, vs, hvs, hraiz, hsirve⟩ := exists_of_sirve hprimera
  have hpath : IsDescent "/streaming/7/..ax/hls.m3u8".toList :=
    ⟨["streaming".toList, "7".toList, "..ax".toList, "hls.m3u8".toList], by decide, by decide⟩
  have hdebajo := h entornoVacio (configuracionServida nombreCerrado) [⟨nombreCerrado, []⟩] routes hroutes
    "/streaming/7/..ax/hls.m3u8" hpath r hr vs hvs _ _ hsirve []
  rw [hraiz] at hdebajo
  exact absurd hdebajo (by decide)

end HlsXcoder
