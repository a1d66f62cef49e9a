import Cweb.Routing.RouteTable

/-!
# What dispatching does

A request goes to the handler of the first route that takes it. Without one the
answer tells whether the path exists under other methods, and names them.
-/

namespace Cweb

open Sv Segments

/-- The route is for the method wanted and its pattern matches. -/
def Takes (want : HttpMethod) (path : Bytes) (route : HttpRoute) : Prop := route.method = want ∧
    FitsPath route path

instance (route : HttpRoute) (path : Bytes) : Decidable (FitsPath route path) :=
  decidable_of_iff _ (segMatch_iff _ _)

instance (want : HttpMethod) (path : Bytes) (route : HttpRoute) : Decidable (Takes want path route) :=
  inferInstanceAs (Decidable (_ ∧ _))

/-- What the routes for the method that were tried have stored. -/
def stored (want : HttpMethod) (path : Bytes) (routes : List HttpRoute) : List (Bytes × Bytes) :=
  (routes.filter fun route => route.method == want).flatMap fun route =>
    writes (segments 47 route.pattern) (segments 47 path)

theorem setAll_append (m : StrMap) (ps qs : List (Bytes × Bytes)) :
    setAll m (ps ++ qs) = setAll (setAll m ps) qs :=
  List.foldl_append

theorem routeLoop_skip {want : HttpMethod} {path : Bytes} (before : List HttpRoute) (after : List HttpRoute) :
    ∀ (params : StrMap) (allow : Option (List Bytes)), (∀ route ∈ before, ¬ Takes want path route) →
      ∃ allow', routeLoop want path (before ++ after) params allow =
        routeLoop want path after (setAll params (stored want path before)) allow' := by
  induction before with
  | nil => exact fun _ allow _ => ⟨allow, rfl⟩
  | cons route before ih =>
    intro params allow hNone
    have hRest : ∀ r ∈ before, ¬ Takes want path r := fun r hr => hNone r (List.mem_cons_of_mem _ hr)
    have hHere := hNone route List.mem_cons_self
    rw [List.cons_append, routeLoop]
    rcases eq_or_ne route.method want with hMethod | hOther
    · have hFails : segMatch (segments 47 route.pattern) (segments 47 path) = false := by
        rw [← Bool.not_eq_true, segMatch_iff]
        exact fun hFits => hHere ⟨hMethod, hFits⟩
      have hStored : stored want path (route :: before) =
          writes (segments 47 route.pattern) (segments 47 path) ++ stored want path before := by
        rw [stored, List.filter_cons_of_pos (by simpa using hMethod)]
        rfl
      rw [if_pos hMethod, routePathMatches_eq, hFails, hStored, setAll_append]
      exact ih _ allow hRest
    · have hStored : stored want path (route :: before) = stored want path before := by
        rw [stored, List.filter_cons_of_neg (by simpa using hOther)]
        rfl
      rw [if_neg hOther, hStored]
      exact ih params _ hRest

theorem routeLoop_takes {want : HttpMethod} {path : Bytes} {route : HttpRoute} (h : Takes want path route)
    (after : List HttpRoute) (params : StrMap) (allow : Option (List Bytes)) :
    routeLoop want path (route :: after) params allow =
      .matched route (setAll params (writes (segments 47 route.pattern) (segments 47 path))) := by
  rw [routeLoop, if_pos h.1, routePathMatches_eq, segMatch_of_fits h.2]

/-- The methods a path exists under, once no route takes the request. -/
def allowed (path : Bytes) (routes : List HttpRoute) (allow : Option (List Bytes)) : Option (List Bytes) :=
  routes.foldl (fun allow route =>
    if segMatch (segments 47 route.pattern) (segments 47 path) then allowAdd allow route.method
    else allow) allow

theorem routeLoop_unmatched {want : HttpMethod} {path : Bytes} (routes : List HttpRoute) : ∀ (params : StrMap)
    (allow : Option (List Bytes)), (∀ route ∈ routes, ¬ Takes want path route) →
      routeLoop want path routes params allow = .unmatched (allowed path routes allow) := by
  induction routes with
  | nil => exact fun _ _ _ => rfl
  | cons route routes ih =>
    intro params allow hNone
    have hRest : ∀ r ∈ routes, ¬ Takes want path r := fun r hr => hNone r (List.mem_cons_of_mem _ hr)
    have hHere := hNone route List.mem_cons_self
    rw [routeLoop, allowed, List.foldl_cons]
    rcases eq_or_ne route.method want with hMethod | hOther
    · have hFails : segMatch (segments 47 route.pattern) (segments 47 path) = false := by
        rw [← Bool.not_eq_true, segMatch_iff]
        exact fun hFits => hHere ⟨hMethod, hFits⟩
      rw [if_pos hMethod, routePathMatches_eq, hFails, if_neg Bool.false_ne_true]
      exact ih _ allow hRest
    · rw [if_neg hOther, routePathMatches_eq]
      exact ih params _ hRest

theorem mem_allowAdd_iff (allow : Option (List Bytes)) (method : HttpMethod) (name : Bytes) :
    name ∈ (allowAdd allow method).getD [] ↔ name ∈ allow.getD [] ∨ httpMethodName method = some name := by
  rw [allowAdd]
  cases hName : httpMethodName method with
  | none => simp
  | some own =>
    dsimp only
    rw [Option.getD_some]
    split
    · rename_i hIn
      constructor
      · exact .inl
      · rintro (hOld | hOwn)
        · exact hOld
        · rwa [← Option.some.inj hOwn]
    · rw [List.mem_append, List.mem_singleton, Option.some_inj]
      exact or_congr_right eq_comm

theorem allowed_spec (path : Bytes) (routes : List HttpRoute) : ∀ allow : Option (List Bytes),
    ((allowed path routes allow).isSome = true ↔ allow.isSome = true ∨ ∃ route ∈ routes,
      FitsPath route path) ∧
    ∀ name, name ∈ (allowed path routes allow).getD [] ↔ name ∈ allow.getD [] ∨
      ∃ route ∈ routes, FitsPath route path ∧ httpMethodName route.method = some name := by
  induction routes with
  | nil => exact fun allow => ⟨by simp [allowed], by simp [allowed]⟩
  | cons route routes ih =>
    intro allow
    rw [allowed, List.foldl_cons]
    rcases em (FitsPath route path) with hFits | hNot
    · rw [if_pos ((segMatch_iff _ _).mpr hFits)]
      obtain ⟨hSome, hNames⟩ := ih (allowAdd allow route.method)
      have hFound : (allowAdd allow route.method).isSome = true := by
        rw [allowAdd]
        cases httpMethodName route.method <;> rfl
      constructor
      · rw [allowed] at hSome
        rw [hSome]
        exact ⟨fun _ => .inr ⟨route, List.mem_cons_self, hFits⟩, fun _ => .inl hFound⟩
      · intro name
        have hName := hNames name
        rw [allowed] at hName
        rw [hName, mem_allowAdd_iff]
        simp [hFits, or_assoc]
    · rw [if_neg (mt (segMatch_iff _ _).mp hNot)]
      obtain ⟨hSome, hNames⟩ := ih allow
      rw [allowed] at hSome hNames
      refine ⟨?_, ?_⟩
      · rw [hSome]
        simp [hNot]
      · intro name
        rw [hNames]
        simp [hNot]

/-! ## Dispatching -/

/-- The answer of a handler; a HEAD request loses the body. -/
def handled (req : HttpRequest) (route : HttpRoute) (params : StrMap) (res : HttpResponse) : HttpResponse :=
  let res := route.handler req params res
  if req.method = .head then { res with suppressBody := true } else res

/-- The answer when the path exists under other methods only. -/
def notAllowed (req : HttpRequest) (res : HttpResponse) (names : List Bytes) : HttpResponse :=
  if req.method = .options then setAllow (res.apply (.setStatus 200)) names
  else (setAllow (plainAnswer res 405) names).apply (.addBody (ascii "405 method not allowed"))

def notFound (res : HttpResponse) : HttpResponse :=
  (plainAnswer res 404).apply (.addBody (ascii "404 not found"))

theorem routerDispatch_takes {routes : List HttpRoute} {req : HttpRequest} (res : HttpResponse)
    {params : StrMap}
    (hParams : requestMergeParams req strmapInit = some params) {before after : List HttpRoute}
    {route : HttpRoute}
    (hRoutes : routes = before ++ route :: after)
    (hBefore : ∀ r ∈ before, ¬ Takes (wantedMethod req) req.path r)
    (hTakes : Takes (wantedMethod req) req.path route) :
    routerDispatch routes req res = handled req route
      (setAll params (stored (wantedMethod req) req.path before ++
      writes (segments 47 route.pattern) (segments 47 req.path))) res := by
  obtain ⟨allow, hSkip⟩ := routeLoop_skip before (route :: after) params none hBefore
  rw [routerDispatch, hParams]
  dsimp only
  rw [hRoutes, hSkip, routeLoop_takes hTakes, setAll_append]
  rfl

theorem routerDispatch_none {routes : List HttpRoute} {req : HttpRequest} (res : HttpResponse)
    {params : StrMap}
    (hParams : requestMergeParams req strmapInit = some params)
    (hNone : ∀ r ∈ routes, ¬ Takes (wantedMethod req) req.path r) :
    ∃ names, Names names ∧
      (∀ name, name ∈ names ↔ ∃ route ∈ routes, FitsPath route req.path ∧
        httpMethodName route.method = some name) ∧
      ((∃ route ∈ routes, FitsPath route req.path) →
        routerDispatch routes req res = notAllowed req res names) ∧
      ((¬ ∃ route ∈ routes, FitsPath route req.path) → routerDispatch routes req res = notFound res) := by
  have hLoop := routeLoop_unmatched routes params none hNone
  obtain ⟨hSome, hNames⟩ := allowed_spec req.path routes none
  have hKnown := routeLoop_names (wantedMethod req) req.path routes params none names_nil _ hLoop
  refine ⟨(allowed req.path routes none).getD [], hKnown, ?_, ?_, ?_⟩
  · intro name
    rw [hNames]
    exact or_iff_right List.not_mem_nil
  · intro hFits
    obtain ⟨names, hAllowed⟩ := Option.isSome_iff_exists.mp (hSome.mpr (.inr hFits))
    rw [routerDispatch, hParams]
    dsimp only
    rw [hLoop, hAllowed]
    rfl
  · intro hNot
    have hAllowed : allowed req.path routes none = none := by
      rw [← Option.not_isSome_iff_eq_none, hSome]
      exact fun hEither => hEither.elim Bool.noConfusion hNot
    rw [routerDispatch, hParams]
    dsimp only
    rw [hLoop, hAllowed]
    rfl

/-- The dispatcher calls the handler of the first route that takes the request.
If there is none, the path may exist under other methods, and those that have a
name are told, each once. -/
theorem router_dispatch_spec (calls : List TableCall) (req : HttpRequest) (res : HttpResponse)
    (params : StrMap)
    (hParams : requestMergeParams req strmapInit = some params) :
    (∀ before route after, routesOf calls = before ++ route :: after →
      (∀ r ∈ before, ¬ Takes (wantedMethod req) req.path r) → Takes (wantedMethod req) req.path route →
      ∃ m, dispatchWithBuffer (routesOf calls) req res = some (handled req route m res)) ∧
    ((∀ r ∈ routesOf calls, ¬ Takes (wantedMethod req) req.path r) → ∃ names : List Bytes, names.Nodup ∧
      (∀ name, name ∈ names ↔
        ∃ route ∈ routesOf calls, FitsPath route req.path ∧ httpMethodName route.method = some name) ∧
      ((∃ route ∈ routesOf calls, FitsPath route req.path) →
        dispatchWithBuffer (routesOf calls) req res = some (notAllowed req res names)) ∧
      ((¬ ∃ route ∈ routesOf calls, FitsPath route req.path) →
        dispatchWithBuffer (routesOf calls) req res = some (notFound res))) := by
  rw [dispatchWithBuffer_eq]
  constructor
  · intro before route after hRoutes hBefore hTakes
    exact ⟨_, congrArg some (routerDispatch_takes res hParams hRoutes hBefore hTakes)⟩
  · intro hNone
    obtain ⟨names, hNames, hMem, hAllowed, hMissing⟩ := routerDispatch_none res hParams hNone
    exact ⟨names, hNames.nodup, hMem, fun h => congrArg some (hAllowed h),
      fun h => congrArg some (hMissing h)⟩

def answerWith (text : Bytes) : HttpRequest → StrMap → HttpResponse → HttpResponse :=
  fun _ _ res => res.apply (.addBody text)

def requestFor (method : HttpMethod) (path : Bytes) : HttpRequest :=
  { emptyRequest with method := method, target := path, path := path }

/-- A route that is gone, one that fails late and one that takes the request. -/
def fileRoutes : List TableCall :=
  [.add .get (ascii "/files/*") (answerWith (ascii "all")),
    .add .get (ascii "/files/<id>/edit") (answerWith (ascii "edit")),
    .add .get (ascii "/files/<name>") (answerWith (ascii "one")), .remove .get (ascii "/files/*")]

theorem router_dispatch_spec_files :
    ∃ m, dispatchWithBuffer (routesOf fileRoutes) (requestFor .head (ascii "//files//a")) httpResponseInit =
      some (handled (requestFor .head (ascii "//files//a"))
        ⟨.get, ascii "/files/<name>", answerWith (ascii "one"), 0⟩ m
        httpResponseInit) :=
  (router_dispatch_spec fileRoutes (requestFor .head (ascii "//files//a")) httpResponseInit strmapInit rfl).1
    [⟨.get, ascii "/files/<id>/edit", answerWith (ascii "edit"), 0⟩] _ [] (by rfl) (by decide) (by decide)

/-- A method without a name is not told, and a capture without a name matches not
even itself. -/
theorem dispatch_unnamed :
    ((∃ route ∈ routesOf [.add .unknown (ascii "/a") (answerWith [])], FitsPath route (ascii "/a")) ∧
      (dispatchWithBuffer (routesOf [.add .unknown (ascii "/a") (answerWith [])])
        (requestFor .get (ascii "/a"))
        httpResponseInit).map (fun res => (res.status, hasHeader res.headers (ascii "Allow"))) = some
          (405, false)) ∧
    (dispatchWithBuffer (routesOf [.add .get (ascii "/<>") (answerWith [])]) (requestFor .get (ascii "/<>"))
      httpResponseInit).map HttpResponse.status = some 404 := by
  decide

end Cweb
