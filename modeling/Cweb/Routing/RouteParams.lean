import Cweb.Lib.Lookup
import Cweb.Routing.DispatchSpec

/-!
# The parameters of a handler

A handler gets the fields of the query and of the body, and over them what its
route captures. The map is shared by all the routes that are tried, and a route
that fails late leaves its captures behind.
-/

namespace Cweb

open Sv Segments Lookup LinearProbe

/-! ## The fields of a request -/

def formField (pair : Bytes) : Option (Bytes × Bytes) :=
  match urlDecode (pair.takeWhile (· ≠ 61)), urlDecode ((pair.dropWhile (· ≠ 61)).drop 1) with
  | some key, some value => some (key, value)
  | _, _ => none

def formFields (s : Bytes) : Option (List (Bytes × Bytes)) := ((svSplit 38 s).filter (· ≠ [])).mapM formField

/-- The parts that are no files. -/
def partFields (parts : List MultipartPart) : List (Bytes × Bytes) :=
  (parts.filter fun part => part.filename = []).map fun part => (part.name, part.content)

/-- The encoded fields and those of a multipart body, each in order. -/
def requestFields (req : HttpRequest) : Option (List (Bytes × Bytes) × List (Bytes × Bytes)) :=
  match if req.query = [] then some [] else formFields req.query with
  | none => none
  | some fields =>
    match httpRequestGetHeader req (ascii "content-type") with
    | none => some (fields, [])
    | some contentType =>
      if svStartsWith contentType (ascii "application/x-www-form-urlencoded") then
        (formFields req.body).map fun more => (fields ++ more, [])
      else if svStartsWith contentType (ascii "multipart/form-data") then
        match multipartBoundary contentType with
        | none => none
        | some boundary => (multipartParse req.body boundary).map fun parts => (fields, partFields parts)
      else some (fields, [])

/-- A decoded field is stored as two C strings. -/
def cstrField (e : Bytes × Bytes) : Bytes × Bytes := (svFromCstr e.1, svFromCstr e.2)

theorem paramsPair_of_ne_nil (m : StrMap) {pair : Bytes} (h : pair ≠ []) :
    paramsPair m pair = (formField pair).map fun e => strmapSet m (svFromCstr e.1) (svFromCstr e.2) := by
  rw [paramsPair, paramsPairWith, if_neg h, formField]
  cases urlDecode (pair.takeWhile (· ≠ 61)) with
  | none => rfl
  | some key =>
    cases urlDecode ((pair.dropWhile (· ≠ 61)).drop 1) with
    | none => rfl
    | some value => rfl

theorem foldlM_paramsPair (pairs : List Bytes) : ∀ m : StrMap, pairs.foldlM paramsPair m =
    ((pairs.filter (· ≠ [])).mapM formField).map fun fields => setAll m (fields.map cstrField) := by
  induction pairs with
  | nil => exact fun _ => rfl
  | cons pair pairs ih =>
    intro m
    rw [List.foldlM_cons]
    rcases eq_or_ne pair [] with rfl | hSome
    · exact ih m
    · rw [paramsPair_of_ne_nil m hSome, List.filter_cons_of_pos (by simpa using hSome), List.mapM_cons]
      cases formField pair with
      | none => rfl
      | some e =>
        rw [Option.map_some, Option.bind_eq_bind, Option.bind_some, ih]
        cases List.mapM formField (List.filter _ pairs) with
        | none => rfl
        | some fields => rfl

theorem paramsParseInto_eq (m : StrMap) (s : Bytes) :
    paramsParseInto m s = (formFields s).map fun fields => setAll m (fields.map cstrField) :=
  foldlM_paramsPair _ m

theorem paramsOfParts_eq (parts : List MultipartPart) : ∀ m :
    StrMap, paramsOfParts m parts = setAll m (partFields parts) := by
  induction parts with
  | nil => exact fun _ => rfl
  | cons part parts ih =>
    intro m
    rw [paramsOfParts, List.foldl_cons, partFields]
    split
    · rename_i hField
      rw [List.filter_cons_of_pos (by simpa using hField)]
      exact ih _
    · rename_i hFile
      rw [List.filter_cons_of_neg (by simpa using hFile)]
      exact ih m

theorem requestMergeParams_eq (req : HttpRequest) (m : StrMap) : requestMergeParams req m =
    (requestFields req).map fun fields => setAll m (fields.1.map cstrField ++ fields.2) := by
  have hQuery : (if req.query = [] then some m else paramsParseInto m req.query) =
      (if req.query = [] then some [] else formFields req.query).map fun fields =>
        setAll m (fields.map cstrField) := by
    split
    · rfl
    · exact paramsParseInto_eq m req.query
  rw [requestMergeParams, requestFields, hQuery]
  cases (if req.query = [] then some [] else formFields req.query) with
  | none => rfl
  | some fields =>
    rw [Option.map_some]
    dsimp only
    cases httpRequestGetHeader req (ascii "content-type") with
    | none => rw [Option.map_some, List.append_nil]
    | some contentType =>
      dsimp only
      split
      · rw [paramsParseInto_eq, Option.map_map]
        congr 1
        funext more
        rw [Function.comp_apply, List.append_nil, List.map_append, setAll_append]
      · split
        · cases multipartBoundary contentType with
          | none => rfl
          | some boundary =>
            dsimp only
            rw [Option.map_map]
            congr 1
            funext parts
            rw [Function.comp_apply, paramsOfParts_eq, setAll_append]
        · rw [Option.map_some, List.append_nil]

/-! ## What is found after setting -/

theorem strmapSet_cstrField (m : StrMap) {e : Bytes × Bytes} (h : 0 ∉ e.1) :
    strmapSet m (cstrField e).1 (cstrField e).2 = strmapSet m e.1 e.2 := by
  have hValue : ∀ m : StrMap, strmapPut m e.1 (svFromCstr e.2) = strmapPut m e.1 e.2 := by
    intro m
    rw [strmapPut, strmapPut, dupOwn_of_not_mem (not_mem_svFromCstr e.2)]
    rfl
  rw [cstrField, svFromCstr_of_not_mem h, strmapSet, strmapSet, hValue, hValue]

theorem setAll_cstrField (ps : List (Bytes × Bytes)) : ∀ m : StrMap, (∀ e ∈ ps, 0 ∉ e.1) →
    setAll m (ps.map cstrField) = setAll m ps := by
  induction ps with
  | nil => exact fun _ _ => rfl
  | cons e ps ih =>
    intro m h
    rw [List.map_cons, setAll, List.foldl_cons, strmapSet_cstrField m (h e List.mem_cons_self)]
    exact ih _ fun e' he' => h e' (List.mem_cons_of_mem _ he')

theorem strmapGet_setAll (ps : List (Bytes × Bytes)) : ∀ m : StrMap, m.WF → (∀ e ∈ ps, 0 ∉ e.1) → ∀ k,
    strmapGet (setAll m ps) k = ((lastOf ps k).map dupOwn).or (strmapGet m k) := by
  induction ps with
  | nil => exact fun _ _ _ _ => rfl
  | cons e ps ih =>
    intro m hWf h k
    have hKey := h e List.mem_cons_self
    have hRest := ih _ (strmapSet_spec hWf hKey e.2).1 (fun e' he' => h e' (List.mem_cons_of_mem _ he')) k
    rw [setAll, List.foldl_cons]
    rw [setAll, strmapGet_strmapSet hWf hKey, Function.update_apply] at hRest
    rw [hRest, lastOf]
    cases lastOf ps k with
    | some v => rfl
    | none =>
      rw [Option.none_or, Option.map_none, Option.none_or]
      rcases eq_or_ne k e.1 with rfl | hNe
      · rw [if_pos rfl, if_pos rfl]
        rfl
      · rw [if_neg hNe, if_neg hNe.symm]
        rfl

theorem strmapPut_stored {m : StrMap} (h : ∀ k v, Stored m.entries k v → 0 ∉ k) (key value : Bytes) :
    ∀ k v, Stored (strmapPut m key value).entries k v → 0 ∉ k := by
  intro k v hStored
  rw [strmapPut] at hStored
  split at hStored
  · exact h k v hStored
  · rcases stored_set hStored with hNew | hOld
    · rw [(Prod.mk.inj hNew).1]
      exact not_mem_dupOwn key
    · exact h k v hOld

theorem strmapSet_stored {m : StrMap} (h : ∀ k v, Stored m.entries k v → 0 ∉ k) (key value : Bytes) :
    ∀ k v, Stored (strmapSet m key value).entries k v → 0 ∉ k := by
  rw [strmapSet]
  split
  · refine strmapPut_stored (fun k v hStored => ?_) key value
    rcases stored_placeAll m.entries _ hStored with ⟨j, hj⟩ | hMem
    · have hNone := (List.mem_replicate.mp (List.mem_of_getElem? hj)).2
      cases hNone
    · exact h k v (List.getElem?_of_mem hMem)
  · exact strmapPut_stored h key value

theorem setAll_stored (ps : List (Bytes × Bytes)) : ∀ m : StrMap, (∀ k v, Stored m.entries k v → 0 ∉ k) →
    ∀ k v, Stored (setAll m ps).entries k v → 0 ∉ k := by
  induction ps with
  | nil => exact fun _ h => h
  | cons e ps ih => exact fun m h => ih _ (strmapSet_stored h e.1 e.2)

theorem not_mem_of_strmapGet_setAll {ps : List (Bytes × Bytes)} {k v : Bytes}
    (h : strmapGet (setAll strmapInit ps) k = some v) : 0 ∉ k := by
  rw [strmapGet] at h
  split at h
  · cases h
  · exact setAll_stored ps strmapInit (fun k v hStored => (strmapInit_wf.cstr k v hStored).1) k v
      (stored_of_lookup h)

/-! ## Which route takes the request -/

/-- The route a request is handed to, with the parameters of its handler. -/
def handedTo (routes : List HttpRoute) (req : HttpRequest) : Option (HttpRoute × StrMap) :=
  match requestMergeParams req strmapInit with
  | none => none
  | some params =>
    match routeLoop (wantedMethod req) req.path routes params none with
    | .matched route params => some (route, params)
    | .unmatched _ => none

theorem dispatch_handedTo {routes : List HttpRoute} {req : HttpRequest} {route : HttpRoute} {params : StrMap}
    (h : handedTo routes req = some (route, params)) (res : HttpResponse) :
    dispatchWithBuffer routes req res = some (handled req route params res) := by
  rw [dispatchWithBuffer_eq, routerDispatch]
  rw [handedTo] at h
  cases hParams : requestMergeParams req strmapInit with
  | none =>
    rw [hParams] at h
    cases h
  | some merged =>
    rw [hParams] at h
    dsimp only at h ⊢
    cases hLoop : routeLoop (wantedMethod req) req.path routes merged none with
    | unmatched allow =>
      rw [hLoop] at h
      cases h
    | matched r m =>
      rw [hLoop] at h
      obtain ⟨rfl, rfl⟩ := Prod.mk.inj (Option.some.inj h)
      rfl

def tried (routes : List HttpRoute) (req : HttpRequest) : List HttpRoute :=
  routes.takeWhile fun route => ¬ Takes (wantedMethod req) req.path route

/-- What the segments of a path are captured as. -/
def captures (pattern path : List Bytes) : List (Bytes × Bytes) :=
  (pattern.zip path).filterMap fun e => (captureName e.1).map fun name => (name, e.2)

theorem writes_of_fits {ps qs : List Bytes} (h : Fits ps qs) : writes ps qs = captures ps qs := by
  induction h with
  | nil => rfl
  | star rest =>
    cases rest with
    | nil => rfl
    | cons q qs => rfl
  | @capture seg name q ps qs hName hSome _ ih =>
    have hStar : seg ≠ [42] := by
      rintro rfl
      rw [captureName_star] at hName
      cases hName
    rw [writes, if_neg hStar, hName]
    dsimp only
    rw [if_neg hSome, ih, captures, captures, List.zip_cons_cons, List.filterMap_cons, hName]
    rfl
  | literal hStar hLiteral _ ih =>
    rw [writes, if_neg hStar, hLiteral]
    dsimp only
    rw [if_pos rfl, ih, captures, captures, List.zip_cons_cons, List.filterMap_cons, hLiteral]
    rfl

theorem mem_writes (ps : List Bytes) : ∀ (qs : List Bytes) {e : Bytes × Bytes}, e ∈ writes ps qs →
    ∃ seg ∈ ps, captureName seg = some e.1 := by
  induction ps with
  | nil => exact fun qs _ h => absurd h List.not_mem_nil
  | cons seg ps ih =>
    intro qs e h
    have hRest : ∀ {qs}, e ∈ writes ps qs → ∃ s ∈ seg :: ps, captureName s = some e.1 := by
      intro qs hMem
      obtain ⟨s, hs, hName⟩ := ih qs hMem
      exact ⟨s, List.mem_cons_of_mem _ hs, hName⟩
    cases qs with
    | nil => exact absurd h List.not_mem_nil
    | cons q qs =>
      rw [writes] at h
      split at h
      · exact absurd h List.not_mem_nil
      · split at h
        · rename_i name hName
          split at h
          · exact absurd h List.not_mem_nil
          · rcases List.mem_cons.mp h with rfl | hLater
            · exact ⟨seg, List.mem_cons_self, hName⟩
            · exact hRest hLater
        · split at h
          · exact hRest h
          · exact absurd h List.not_mem_nil

theorem mem_of_captureName {seg name : Bytes} (h : captureName seg = some name) : ∀ c ∈ name, c ∈ seg := by
  rw [captureName] at h
  split at h
  · obtain rfl := Option.some.inj h
    exact fun c hc => List.mem_of_mem_drop (List.dropLast_subset _ hc)
  · cases h

theorem not_mem_writes {pattern : Bytes} (h : 0 ∉ pattern) (qs : List Bytes) :
    ∀ e ∈ writes (segments 47 pattern) qs, 0 ∉ e.1 := by
  intro e he hNul
  obtain ⟨seg, hSeg, hName⟩ := mem_writes _ _ he
  exact h (mem_of_mem_segments hSeg (mem_of_captureName hName 0 hNul))

/-- The map a handler gets is set from the fields, the captures of the routes tried
in vain, and the captures of its own route. -/
theorem handedTo_spec {routes : List HttpRoute} {req : HttpRequest} {route : HttpRoute} {params : StrMap}
    (h : handedTo routes req = some (route, params)) :
    ∃ fields after, requestFields req = some fields ∧ routes = tried routes req ++ route :: after ∧
      Takes (wantedMethod req) req.path route ∧
      params = setAll strmapInit
        (fields.1.map cstrField ++ fields.2 ++ (stored (wantedMethod req) req.path (tried routes req) ++
        captures (segments 47 route.pattern) (segments 47 req.path))) := by
  rw [handedTo, requestMergeParams_eq] at h
  cases hFields : requestFields req with
  | none =>
    rw [hFields] at h
    cases h
  | some fields =>
    rw [hFields, Option.map_some] at h
    dsimp only at h
    have hTried : ∀ r ∈ tried routes req, ¬ Takes (wantedMethod req) req.path r := by
      intro r hr
      have hNot := List.mem_takeWhile_imp hr
      exact of_decide_eq_true hNot
    have hSplit : routes = tried routes req ++ routes.dropWhile fun route =>
      ¬ Takes (wantedMethod req) req.path route :=
      List.takeWhile_append_dropWhile.symm
    cases hRest : routes.dropWhile fun route => ¬ Takes (wantedMethod req) req.path route with
    | nil =>
      rw [hRest, List.append_nil] at hSplit
      rw [routeLoop_unmatched routes _ none (by rw [hSplit]; exact hTried)] at h
      cases h
    | cons r after =>
      rw [hRest] at hSplit
      have hTakes : Takes (wantedMethod req) req.path r := by
        have hHead :=
          List.head?_dropWhile_not (fun route => decide (¬ Takes (wantedMethod req) req.path route)) routes
        rw [hRest] at hHead
        simpa using hHead
      obtain ⟨allow, hSkip⟩ := routeLoop_skip (tried routes req) (r :: after)
        (setAll strmapInit (fields.1.map cstrField ++ fields.2)) none hTried
      rw [← hSplit, routeLoop_takes hTakes] at hSkip
      rw [hSkip] at h
      obtain ⟨rfl, rfl⟩ := Prod.mk.inj (Option.some.inj h)
      refine ⟨fields, after, rfl, hSplit, hTakes, ?_⟩
      rw [← setAll_append, ← setAll_append, writes_of_fits hTakes.2]

/-! ## The parameters -/

theorem not_mem_stored {routes : List HttpRoute} (h : ∀ route ∈ routes, 0 ∉ route.pattern)
    (want : HttpMethod) (path : Bytes) :
    ∀ e ∈ stored want path routes, 0 ∉ e.1 := by
  intro e he
  obtain ⟨route, hRoute, hWrites⟩ := List.mem_flatMap.mp he
  exact not_mem_writes (h route (List.mem_of_mem_filter hRoute)) _ e hWrites

/-- Names and values are C strings, and what the routes tried in vain have left is
nothing that was not there before, or is written over. -/
structure Undisturbed (fields left own : List (Bytes × Bytes)) : Prop where
  names : ∀ e ∈ fields, 0 ∉ e.1
  values : ∀ name value, lastOf (fields ++ own) name = some value → 0 ∉ value
  left : ∀ name value, lastOf left name = some value → lastOf own name = none →
    lastOf fields name = some (svFromCstr value)

theorem strmapGet_params {encoded parts left own : List (Bytes × Bytes)}
    (hFields : ∀ e ∈ encoded ++ parts, 0 ∉ e.1)
    (hLeft : ∀ e ∈ left, 0 ∉ e.1) (hOwn : ∀ e ∈ own, 0 ∉ e.1) (k : Bytes) :
    strmapGet (setAll strmapInit (encoded.map cstrField ++ parts ++ (left ++ own))) k =
      (lastOf (encoded ++ parts ++ (left ++ own)) k).map svFromCstr := by
  have hNames : ∀ e ∈ encoded ++ parts ++ (left ++ own), 0 ∉ e.1 := by
    intro e he
    rcases List.mem_append.mp he with hField | hLater
    · exact hFields e hField
    · rcases List.mem_append.mp hLater with hTried | hMatched
      · exact hLeft e hTried
      · exact hOwn e hMatched
  have hCut : setAll strmapInit (encoded.map cstrField ++ parts ++ (left ++ own)) =
      setAll strmapInit (encoded ++ parts ++ (left ++ own)) := by
    rw [List.append_assoc, setAll_append, setAll_cstrField _ _ fun e he =>
      hFields e (List.mem_append_left _ he),
      ← setAll_append, ← List.append_assoc]
  rw [hCut, strmapGet_setAll _ _ strmapInit_wf hNames]
  exact Option.or_none

theorem params_exact_iff {encoded parts left own : List (Bytes × Bytes)} (hLeft : ∀ e ∈ left, 0 ∉ e.1)
    (hOwn : ∀ e ∈ own, 0 ∉ e.1) :
    (∀ k, strmapGet (setAll strmapInit (encoded.map cstrField ++ parts ++ (left ++ own))) k =
      lastOf (encoded ++ parts ++ own) k) ↔ Undisturbed (encoded ++ parts) left own := by
  constructor
  · intro hExact
    have hNames : ∀ e ∈ encoded ++ parts, 0 ∉ e.1 := by
      intro e he
      obtain ⟨value, hValue⟩ := Option.ne_none_iff_exists'.mp (lastOf_ne_none (List.mem_append_left own he))
      exact not_mem_of_strmapGet_setAll ((hExact e.1).trans hValue)
    have hGet := strmapGet_params hNames hLeft hOwn
    refine ⟨hNames, ?_, ?_⟩
    · intro name value hLast
      rw [← hExact, hGet] at hLast
      obtain ⟨whole, _, rfl⟩ := Option.map_eq_some_iff.mp hLast
      exact not_mem_svFromCstr whole
    · intro name value hLast hNone
      have hSame := hExact name
      have hOver : lastOf (encoded ++ parts ++ (left ++ own)) name = some value := by
        rw [lastOf_append, lastOf_append left, hNone, hLast]
        rfl
      have hUnder : lastOf (encoded ++ parts ++ own) name = lastOf (encoded ++ parts) name := by
        rw [lastOf_append, hNone, Option.none_or]
      rw [hGet, hOver, hUnder] at hSame
      exact hSame.symm
  · intro h k
    rw [strmapGet_params h.names hLeft hOwn]
    have hValues := h.values k
    rw [lastOf_append] at hValues
    rw [lastOf_append, lastOf_append, lastOf_append _ own]
    cases hMatched : lastOf own k with
    | some value =>
      rw [hMatched] at hValues
      exact congrArg some (svFromCstr_of_not_mem (hValues value rfl))
    | none =>
      rw [hMatched, Option.none_or] at hValues
      rw [Option.none_or, Option.none_or]
      cases hTried : lastOf left k with
      | some value => exact (h.left k value hTried hMatched).symm
      | none =>
        rw [Option.none_or]
        cases hField : lastOf (encoded ++ parts) k with
        | none => rfl
        | some value => exact congrArg some (svFromCstr_of_not_mem (hValues value hField))

/-- The handler called is that of a route that takes the request. Its parameters are
the fields with the captures of the route over them exactly when nothing else has
got in. -/
theorem route_params_iff (calls : List TableCall) (req : HttpRequest) (route : HttpRoute) (params : StrMap)
    (h : handedTo (routesOf calls) req = some (route, params)) :
    (∀ res, dispatchWithBuffer (routesOf calls) req res = some (handled req route params res)) ∧
    ∃ fields, requestFields req = some fields ∧
      ((∀ k, strmapGet params k =
          lastOf (fields.1 ++ fields.2 ++ captures (segments 47 route.pattern) (segments 47 req.path)) k) ↔
        Undisturbed (fields.1 ++ fields.2) (stored (wantedMethod req) req.path (tried (routesOf calls) req))
          (captures (segments 47 route.pattern) (segments 47 req.path))) := by
  obtain ⟨fields, after, hFields, hSplit, hTakes, rfl⟩ := handedTo_spec h
  have hPatterns := routesOf_patterns calls
  refine ⟨dispatch_handedTo h, fields, hFields, params_exact_iff (not_mem_stored ?_ _ _) ?_⟩
  · intro r hr
    exact hPatterns r (hSplit ▸ List.mem_append_left _ hr)
  · rw [← writes_of_fits hTakes.2]
    exact not_mem_writes (hPatterns route (hSplit ▸ List.mem_append_right _ List.mem_cons_self)) _

def askFor (path query : Bytes) : HttpRequest := { requestFor .get path with query := query }

def userRoutes : List TableCall :=
  [.add .get (ascii "/users") (answerWith (ascii "all")),
    .add .get (ascii "/users/<id>") (answerWith (ascii "one"))]

theorem route_params_users :
    ∃ params, handedTo (routesOf userRoutes) (askFor (ascii "/users/42") (ascii "id=7&q=x")) =
        some (⟨.get, ascii "/users/<id>", answerWith (ascii "one"), 0⟩, params) ∧
      (∀ res, dispatchWithBuffer (routesOf userRoutes) (askFor (ascii "/users/42") (ascii "id=7&q=x")) res =
        some (handled (askFor (ascii "/users/42") (ascii "id=7&q=x"))
          ⟨.get, ascii "/users/<id>", answerWith (ascii "one"), 0⟩
          params res)) ∧
      ∀ k, strmapGet params k =
        lastOf [(ascii "id", ascii "7"), (ascii "q", ascii "x"), (ascii "id", ascii "42")] k := by
  have hHanded : handedTo (routesOf userRoutes) (askFor (ascii "/users/42") (ascii "id=7&q=x")) =
      some (⟨.get, ascii "/users/<id>", answerWith (ascii "one"), 0⟩,
        setAll strmapInit [(ascii "id", ascii "7"), (ascii "q", ascii "x"), (ascii "id", ascii "42")]) := rfl
  obtain ⟨hCalled, fields, hFields, hExact⟩ := route_params_iff userRoutes _ _ _ hHanded
  obtain rfl : ([(ascii "id", ascii "7"), (ascii "q", ascii "x")], []) = fields := Option.some.inj hFields
  refine ⟨_, hHanded, hCalled, hExact.mpr ⟨by decide, ?_, nofun⟩⟩
  intro name value hLast
  have hPlain : ∀ e ∈ [(ascii "id", ascii "7"), (ascii "q", ascii "x"), (ascii "id", ascii "42")],
    0 ∉ e.2 := by decide
  exact hPlain _ (mem_of_lastOf hLast)

/-- A route that fails at its last segment has captured the first one. -/
def lateRoutes : List TableCall :=
  [.add .get (ascii "/<a>/x") (answerWith (ascii "x")), .add .get (ascii "/<b>/y") (answerWith (ascii "y"))]

theorem route_params_left : ∃ route params fields,
    handedTo (routesOf lateRoutes) (askFor (ascii "/1/y") (ascii "a=5")) = some (route, params) ∧
      requestFields (askFor (ascii "/1/y") (ascii "a=5")) = some fields ∧
      strmapGet params (ascii "a") = some (ascii "1") ∧
      lastOf (fields.1 ++ fields.2 ++ captures (segments 47 route.pattern) (segments 47 (ascii "/1/y")))
        (ascii "a") =
        some (ascii "5") :=
  ⟨⟨.get, ascii "/<b>/y", answerWith (ascii "y"), 0⟩,
    setAll strmapInit [(ascii "a", ascii "5"), (ascii "a", ascii "1"), (ascii "b", ascii "1")],
    ([(ascii "a", ascii "5")], []),
    rfl, by decide, by decide +kernel, by decide⟩

end Cweb
