import Cweb.Http.Params
import Cweb.Http.Response

/-!
# Routing

The first route whose method and pattern fit takes the request. A HEAD request
is taken by the routes for GET, and the body is torn off behind them; the
answers of the router itself keep theirs.
-/

namespace Cweb

open Sv

/-- The next segment behind any slashes, and what is left. -/
def nextSeg (s : Bytes) : Bytes × Bytes := svChopByDelim 47 (s.dropWhile (· = 47))

/-- Whether a pattern matches a path, with the captures on the way; those of a
match that fails later stay. Every round takes a segment of the pattern. -/
def routePathLoop : Nat → Bytes → Bytes → StrMap → Bool × StrMap
  | 0, _, _, m => (false, m)
  | fuel + 1, pattern, path, m =>
    let p := nextSeg pattern
    let q := nextSeg path
    if p.1 = [42] then ((nextSeg p.2).1 = [], m)
    else if p.1 = [] ∨ q.1 = [] then (p.1 = [] ∧ q.1 = [], m)
    else if 2 ≤ p.1.length ∧ p.1.head? = some 60 ∧ p.1.getLast? = some 62 then
      let name := (p.1.drop 1).dropLast
      if name = [] then (false, m) else routePathLoop fuel p.2 q.2 (strmapSet m name q.1)
    else if p.1 ≠ q.1 then (false, m)
    else routePathLoop fuel p.2 q.2 m

def routePathMatches (pattern path : Bytes) (m : StrMap) : Bool × StrMap :=
  routePathLoop (pattern.length + 1) pattern path m

/-- What a handler does to the response is a function of the request, the
captures and what is there already. -/
structure HttpRoute where
  method : HttpMethod
  pattern : Bytes
  handler : HttpRequest → StrMap → HttpResponse → HttpResponse
  timeoutMs : Nat

/-- What the loop over the routes ends with: a match, or the methods the path
exists under, `none` when it does not exist. -/
inductive Routed where
  | matched (route : HttpRoute) (params : StrMap)
  | unmatched (allow : Option (List Bytes))

def allowAdd (allow : Option (List Bytes)) (method : HttpMethod) : Option (List Bytes) :=
  let names := allow.getD []
  match httpMethodName method with
  | none => some names
  | some name => some (if name ∈ names then names else names ++ [name])

def routeLoop (want : HttpMethod) (path : Bytes) : List HttpRoute → StrMap → Option (List Bytes) → Routed
  | [], _, allow => .unmatched allow
  | route :: routes, params, allow =>
    if route.method = want then
      match routePathMatches route.pattern path params with
      | (true, params) => .matched route params
      | (false, params) => routeLoop want path routes params allow
    else
      routeLoop want path routes params
        (if (routePathMatches route.pattern path strmapInit).1 then allowAdd allow route.method else allow)

def plainText : Bytes := ascii "text/plain; charset=utf-8"

def allowText (names : List Bytes) : Bytes := (names.intersperse (ascii ", ")).flatten

def setAllow (res : HttpResponse) (names : List Bytes) : HttpResponse :=
  if names = [] then res else res.apply (.setHeader (ascii "Allow") (allowText names))

def plainAnswer (res : HttpResponse) (status : Nat) : HttpResponse :=
  (res.apply (.setStatus status)).apply (.setHeader (ascii "Content-Type") plainText)

def wantedMethod (req : HttpRequest) : HttpMethod := if req.method = .head then .get else req.method

def routerDispatch (routes : List HttpRoute) (req : HttpRequest) (res : HttpResponse) : HttpResponse :=
  match requestMergeParams req strmapInit with
  | none => (plainAnswer res 400).apply (.addBody (ascii "400 malformed request data"))
  | some params =>
    match routeLoop (wantedMethod req) req.path routes params none with
    | .matched route params =>
      let res := route.handler req params res
      if req.method = .head then { res with suppressBody := true } else res
    | .unmatched (some allow) =>
      if req.method = .options then setAllow (res.apply (.setStatus 200)) allow
      else (setAllow (plainAnswer res 405) allow).apply (.addBody (ascii "405 method not allowed"))
    | .unmatched none => (plainAnswer res 404).apply (.addBody (ascii "404 not found"))

/-- The bytes `serve_connection` writes when the router is its handler. -/
def routedBytes (routes : List HttpRoute) (req : HttpRequest) (date : Bytes) (calls : Nat)
    (keep : Bool) : Option Bytes :=
  writeResponse { routerDispatch routes req httpResponseInit with keepAlive := keep } date calls
    (req.method == .head)

/-! ## Matching -/

theorem routePathLoop_captures (fuel : Nat) : ∀ pattern path (m m' : StrMap),
    (routePathLoop fuel pattern path m).1 = (routePathLoop fuel pattern path m').1 := by
  induction fuel with
  | zero => exact fun _ _ _ _ => rfl
  | succ fuel ih =>
    intro pattern path m m'
    rw [routePathLoop, routePathLoop]
    dsimp only
    split
    · rfl
    · split
      · rfl
      · split
        · split
          · rfl
          · exact ih _ _ _ _
        · split
          · rfl
          · exact ih _ _ _ _

/-- The loop ends with a match exactly when some route for the method has a
pattern that matches. -/
theorem routeLoop_matched_iff (want : HttpMethod) (path : Bytes) (routes : List HttpRoute) : ∀ params allow,
    (∃ route m, routeLoop want path routes params allow = .matched route m) ↔
      ∃ route ∈ routes, route.method = want ∧ (routePathMatches route.pattern path strmapInit).1 = true := by
  induction routes with
  | nil =>
    intro params allow
    rw [routeLoop]
    constructor
    · rintro ⟨_, _, hEq⟩
      cases hEq
    · rintro ⟨_, hMem, _⟩
      exact absurd hMem List.not_mem_nil
  | cons route routes ih =>
    intro params allow
    have hCaptures : (routePathMatches route.pattern path params).1 =
      (routePathMatches route.pattern path strmapInit).1 :=
      routePathLoop_captures _ _ _ _ _
    have hTail : (¬ (route.method = want ∧ (routePathMatches route.pattern path strmapInit).1 = true)) →
        ((∃ r ∈ routes, r.method = want ∧ (routePathMatches r.pattern path strmapInit).1 = true) ↔
          ∃ r ∈ route :: routes, r.method = want ∧
          (routePathMatches r.pattern path strmapInit).1 = true) := by
      intro hNot
      constructor
      · rintro ⟨r, hr, hMatch⟩
        exact ⟨r, List.mem_cons_of_mem _ hr, hMatch⟩
      · rintro ⟨r, hr, hMatch⟩
        obtain rfl | hr := List.mem_cons.mp hr
        · exact absurd hMatch hNot
        · exact ⟨r, hr, hMatch⟩
    rw [routeLoop]
    split
    · rename_i hMethod
      split
      · rename_i m hEq
        rw [hEq] at hCaptures
        exact ⟨fun _ => ⟨route, List.mem_cons_self, hMethod, hCaptures.symm⟩, fun _ => ⟨route, m, rfl⟩⟩
      · rename_i m hEq
        rw [hEq] at hCaptures
        rw [ih]
        exact hTail fun hBoth => Bool.noConfusion (hCaptures.trans hBoth.2)
    · rename_i hMethod
      rw [ih]
      exact hTail fun hBoth => hMethod hBoth.1

/-! ## The head of a response -/

theorem writeResponse_head_of_suppressed {res : HttpResponse} (h : res.suppressBody = true)
    (date : Bytes) (calls : Nat) :
    writeResponse res date calls true = some (httpResponseSerializeHead res date) := by
  have hSerialize : httpResponseSerialize res date = httpResponseSerializeHead res date := by
    rw [httpResponseSerialize, h, Bool.or_true, if_pos rfl, List.append_nil]
  rw [writeResponse, sendStream, hSerialize]
  split
  · rfl
  · split
    · rfl
    · rfl

theorem writeResponse_assembled {res : HttpResponse} (hUpgrade : res.upgrade = false)
    (hPlain : res.streaming = false)
    (hStatus : statusHasNoBody res.status = false) (hKept : res.suppressBody = false) (date : Bytes)
    (calls : Nat)
    (isHead : Bool) :
    writeResponse res date calls isHead = some (httpResponseSerializeHead res date ++ res.body) := by
  rw [writeResponse, httpResponseSerialize, hUpgrade, hPlain, hStatus, hKept]
  rfl

/-- The answers of the router itself are assembled and keep their body. -/
structure KeptAnswer (res : HttpResponse) : Prop where
  upgrade : res.upgrade = false
  plain : res.streaming = false
  status : statusHasNoBody res.status = false
  kept : res.suppressBody = false
  body : res.body ≠ []

theorem KeptAnswer.bytes {res : HttpResponse} (h : KeptAnswer res) (date : Bytes) (calls : Nat)
    (keep : Bool) :
    writeResponse { res with keepAlive := keep } date calls true ≠
      some (httpResponseSerializeHead { res with keepAlive := keep } date) := by
  have hPlain : HttpResponse.streaming { res with keepAlive := keep } = false := h.plain
  have hBytes :=
    @writeResponse_assembled { res with keepAlive := keep } h.upgrade hPlain h.status h.kept date calls true
  rw [hBytes]
  intro hEq
  have hBody := List.append_right_eq_self.mp (Option.some.inj hEq)
  exact h.body hBody

theorem setAllow_kept (res : HttpResponse) (names : List Bytes) :
    (setAllow res names).upgrade = res.upgrade ∧ (setAllow res names).streaming = res.streaming ∧
      (setAllow res names).status = res.status ∧ (setAllow res names).suppressBody = res.suppressBody := by
  rw [setAllow]
  split
  · exact ⟨rfl, rfl, rfl, rfl⟩
  · exact ⟨rfl, rfl, rfl, rfl⟩

theorem plainAnswer_kept {status : Nat} (hStatus : statusHasNoBody status = false) (names : List Bytes)
    {text : Bytes}
    (hText : text ≠ []) :
    KeptAnswer ((setAllow (plainAnswer httpResponseInit status) names).apply (.addBody text)) := by
  obtain ⟨hUpgrade, hStreaming, hSame, hSuppress⟩ := setAllow_kept (plainAnswer httpResponseInit status) names
  refine ⟨hUpgrade, hStreaming, ?_, hSuppress, List.append_ne_nil_of_right_ne_nil _ hText⟩
  change statusHasNoBody (setAllow (plainAnswer httpResponseInit status) names).status = false
  rw [hSame]
  exact hStatus

/-- A HEAD request is answered with a head and nothing behind it exactly when
its parameters are well formed and a route for GET takes its path. -/
theorem head_without_body_iff (routes : List HttpRoute) {req : HttpRequest} (hHead : req.method = .head)
    (date : Bytes)
    (calls : Nat) (keep : Bool) :
    routedBytes routes req date calls keep =
        some (httpResponseSerializeHead { routerDispatch routes req httpResponseInit with keepAlive :=
          keep } date) ↔
      (requestMergeParams req strmapInit).isSome = true ∧
        ∃ route ∈ routes, route.method = .get ∧
        (routePathMatches route.pattern req.path strmapInit).1 = true := by
  have hWant : wantedMethod req = .get := if_pos hHead
  rw [routedBytes, routerDispatch, hWant, hHead]
  cases hParams : requestMergeParams req strmapInit with
  | none =>
    refine ⟨fun hEq => absurd hEq ?_, fun hBoth => Bool.noConfusion hBoth.1⟩
    exact (@plainAnswer_kept 400 (by decide) [] (ascii "400 malformed request data") (by decide)).bytes
      date calls keep
  | some params =>
    have hMatched := routeLoop_matched_iff .get req.path routes params none
    dsimp only
    cases hLoop : routeLoop .get req.path routes params none with
    | matched route m =>
      refine ⟨fun _ => ⟨rfl, hMatched.mp ⟨route, m, hLoop⟩⟩, fun _ => ?_⟩
      exact writeResponse_head_of_suppressed rfl date calls
    | unmatched allow =>
      have hNone : ¬ ∃ route ∈ routes, route.method = .get ∧
          (routePathMatches route.pattern req.path strmapInit).1 = true := by
        rw [← hMatched]
        rintro ⟨route, m, hEq⟩
        rw [hLoop] at hEq
        cases hEq
      refine ⟨fun hEq => absurd hEq ?_, fun hBoth => absurd hBoth.2 hNone⟩
      cases allow with
      | none =>
        exact (@plainAnswer_kept 404 (by decide) [] (ascii "404 not found") (by decide)).bytes date calls keep
      | some names =>
        exact (@plainAnswer_kept 405 (by decide) names (ascii "405 method not allowed")
          (by decide)).bytes date calls keep

/-- A HEAD request for `/`. -/
def headRequest : HttpRequest :=
  { emptyRequest with method := .head, target := ascii "/", path := ascii "/", version := ascii "HTTP/1.1" }

theorem head_without_body_root :
    (requestMergeParams headRequest strmapInit).isSome = true ∧
      routedBytes [⟨.get, ascii "/", fun _ _ res => res.apply (.addBody (ascii "hello")), 0⟩]
        headRequest [] 0 true =
        some (ascii "HTTP/1.1 200 OK\r\nContent-Length: 5\r\nDate: \r\nConnection: keep-alive\r\n\r\n") := by
  have hMatch : ∃ route ∈
    [(⟨.get, ascii "/", fun _ _ res => res.apply (.addBody (ascii "hello")), 0⟩ : HttpRoute)],
      route.method = .get ∧ (routePathMatches route.pattern headRequest.path strmapInit).1 = true :=
    ⟨_, List.mem_singleton_self _, rfl, by decide⟩
  refine ⟨by decide, ?_⟩
  rw [(head_without_body_iff _ rfl [] 0 true).mpr ⟨by decide, hMatch⟩]
  decide +kernel

/-- Without a route the answer to HEAD has a body behind its head. -/
theorem head_not_found_with_body :
    routedBytes [] headRequest [] 0 true ≠
        some
          (httpResponseSerializeHead { routerDispatch [] headRequest httpResponseInit with keepAlive := true } []) ∧
      routedBytes [] headRequest [] 0 true =
        some
          (httpResponseSerializeHead { routerDispatch [] headRequest httpResponseInit with keepAlive := true } [] ++
          ascii "404 not found") := by
  decide +kernel

end Cweb
