import Cweb.Http.Date
import Cweb.Http.GzipCodec
import Cweb.Http.RateBudget
import Cweb.Http.RequestSign

/-!
# The chain of a generated server

The flags of a generated server decide which callbacks stand in front of its pages.
They come in one order: counting, who the client is, the id of the request, the
security headers, the signature, the budget, the password, gzip, entity tags, and
the answers to other origins. Four of them can refuse a request.
-/

namespace Cweb.Chain

open Sv AccessLog ClientIp Ip Sign Middleware Layers Auth RateLimit GzipCodec Etag

variable {ω ζ : Type}

/-! ## The callbacks -/

structure HttpSecurityOptions where
  csp : Option Bytes
  cspReportOnly : Option Bytes
deriving DecidableEq, Repr

def defaultCsp : Bytes := ascii "default-src 'self'; frame-ancestors 'none'; object-src 'none'"

def httpResponseSecurityHeadersOpts (res : HttpResponse) (opts : Option HttpSecurityOptions) : HttpResponse :=
  let res := res.apply (.setHeader (ascii "X-Content-Type-Options") (ascii "nosniff"))
  let res := res.apply (.setHeader (ascii "Referrer-Policy") (ascii "no-referrer"))
  let res := res.apply (.setHeader (ascii "X-Frame-Options") (ascii "DENY"))
  let res :=
    res.apply
      (.setHeader (ascii "Content-Security-Policy") ((opts.bind HttpSecurityOptions.csp).getD defaultCsp))
  match opts.bind HttpSecurityOptions.cspReportOnly with
  | some policy => res.apply (.setHeader (ascii "Content-Security-Policy-Report-Only") policy)
  | none => res

def httpSecurityMiddleware (opts : Option HttpSecurityOptions) :
    HttpMiddlewareFn (Exchange ω) := fun next x =>
  next (x.respond (httpResponseSecurityHeadersOpts x.res opts))

structure HttpSignatureOptions where
  secret : Option Bytes
  maxAgeSeconds : Nat
deriving DecidableEq, Repr

def unsigned (res : HttpResponse) : HttpResponse :=
  ((res.apply (.setStatus 403)).apply
    (.setHeader (ascii "Content-Type") (ascii "text/plain; charset=utf-8"))).apply
    (.addBody (ascii "missing or invalid request signature\r\n"))

def httpSignatureMiddleware (now : Int) (opts : Option HttpSignatureOptions) :
    HttpMiddlewareFn (Exchange ω) := fun next x =>
  let secret := opts.bind HttpSignatureOptions.secret
  let age := (opts.map HttpSignatureOptions.maxAgeSeconds).getD 0
  if svFromCstr (secret.getD []) = [] ∨ httpRequestSignatureVerify now secret age x.req.toHttpRequest ≠ 0 then
    some (x.respond (unsigned x.res))
  else next x

structure HttpCorsOptions where
  origin : Option Bytes
  methods : Option Bytes
  headers : Option Bytes
  credentials : Bool
  maxAge : Int
deriving DecidableEq, Repr

def originMatches (allowed : Option Bytes) (incoming : Bytes) : Bool :=
  match allowed with
  | none => false
  | some allowed => svFromCstr allowed == ascii "*" || incoming == svFromCstr allowed

/-- What both kinds of answers to another origin begin with. -/
def stampOrigin (res : HttpResponse) (origin : Bytes) : HttpResponse :=
  (res.apply (.setHeader (ascii "Access-Control-Allow-Origin") origin)).apply
    (.appendHeader (ascii "Vary") (ascii "Origin"))

def stampCredentials (res : HttpResponse) (opts : HttpCorsOptions) : HttpResponse :=
  if opts.credentials then res.apply (.setHeader (ascii "Access-Control-Allow-Credentials") (ascii "true"))
  else res

def stampPreflightHeaders (res : HttpResponse) (opts : HttpCorsOptions) (origin : Bytes) : HttpResponse :=
  let res := stampOrigin res origin
  let res :=
    res.apply
      (.setHeader (ascii "Access-Control-Allow-Methods")
        (opts.methods.getD (ascii "GET, POST, PUT, DELETE, PATCH, OPTIONS")))
  let res :=
    res.apply
      (.setHeader (ascii "Access-Control-Allow-Headers")
        (opts.headers.getD (ascii "Content-Type, Authorization")))
  let res :=
    if 0 < opts.maxAge then res.apply (.setHeader (ascii "Access-Control-Max-Age") (decimalInt opts.maxAge))
    else res
  stampCredentials res opts

def httpCorsMiddleware (opts : Option HttpCorsOptions) : HttpMiddlewareFn (Exchange ω) := fun next x =>
  let opts := opts.getD ⟨some (ascii "*"), none, none, false, 0⟩
  match httpRequestGetHeader x.req.toHttpRequest (ascii "Origin") with
  | none => next x
  | some origin =>
    if origin = [] then next x
    else if originMatches opts.origin origin = false then next x
    else
      let text := svFromCstr (origin.take 511)
      if x.req.method = .options then
        some (x.respond (stampPreflightHeaders (x.res.apply (.setStatus 204)) opts text))
      else next (x.respond (stampCredentials (stampOrigin x.res text) opts))

/-- The counters wrap around. -/
structure HttpStats where
  requests : Nat
  bytesWritten : Nat
  status2xx : Nat
  status3xx : Nat
  status4xx : Nat
  status5xx : Nat
deriving DecidableEq, Repr

def httpStatsInit : HttpStats := ⟨0, 0, 0, 0, 0, 0⟩

def counted (n more : Nat) : Nat := (n + more) % 2 ^ 64

def httpStatsRecord (s : HttpStats) (res : HttpResponse) : HttpStats :=
  let s := { s with requests := counted s.requests 1, bytesWritten := counted s.bytesWritten res.body.length }
  if 200 ≤ res.status ∧ res.status < 300 then { s with status2xx := counted s.status2xx 1 }
  else if 300 ≤ res.status ∧ res.status < 400 then { s with status3xx := counted s.status3xx 1 }
  else if 400 ≤ res.status ∧ res.status < 500 then { s with status4xx := counted s.status4xx 1 }
  else if 500 ≤ res.status ∧ res.status < 600 then { s with status5xx := counted s.status5xx 1 }
  else s

def httpStatsMiddleware (part : Part ω HttpStats) : HttpMiddlewareFn (Exchange ω) := fun next x =>
  (next x).map fun y => { y with world := part.put (httpStatsRecord (part.get y.world) y.res) y.world }

def tagClient (net : InetPton) (trusted : List HttpCidr) (x : Exchange ω) : Exchange ω :=
  { x with req := { x.req with toTagged := AccessLog.httpClientIpMiddleware net trusted x.req.toTagged } }

def httpClientIpMiddleware (net : InetPton) (trusted : List HttpCidr) : HttpMiddlewareFn (Exchange ω) :=
  fun next x => next (tagClient net trusted x)

/-- `number` is what a minted id is made of. -/
def tagRequest (honorIncoming : Bool) (number : Nat) (x : Exchange ω) : Exchange ω :=
  { x with req :=
    { x.req with toTagged := AccessLog.httpRequestIdMiddleware honorIncoming number x.req.toTagged } }

/-- The id is the one that was chosen, whatever the handler does to the request. -/
def stampId (x y : Exchange ω) : Exchange ω :=
  y.respond (y.res.apply (.setHeader (ascii "X-Request-Id") x.req.requestId))

def httpRequestIdMiddleware (honorIncoming : Bool) (number : Nat) :
    HttpMiddlewareFn (Exchange ω) := fun next x =>
  (next (tagRequest honorIncoming number x)).map (stampId (tagRequest honorIncoming number x))

def httpEtagMiddleware (weak : Bool) : HttpMiddlewareFn (Exchange ω) := fun next x =>
  (next x).map fun y => y.respond (Etag.httpEtagMiddleware Date.httpDateParse weak y.req.toHttpRequest y.res)

/-! ## The server -/

structure World (ω : Type) where
  stats : HttpStats
  limiter : HttpRateLimiter
  site : ω

def statsPart : Part (World ω) HttpStats := ⟨World.stats, fun s w => { w with stats := s }, fun _ _ => rfl⟩

def limiterPart : Part (World ω) HttpRateLimiter :=
  ⟨World.limiter, fun rl w => { w with limiter := rl }, fun _ _ => rfl⟩

/-- The command line. The user and the password of `--basic-auth` are cut to their
buffers before they come here. -/
structure Flags where
  stats : Bool
  trusted : List HttpCidr
  requestId : Bool
  requestIdInherit : Bool
  secure : Bool
  csp : Option Bytes
  cspReportOnly : Option Bytes
  signatureSecret : Option Bytes
  ratePerMin : Nat
  basicAuth : Option (Bytes × Bytes)
  gzip : Bool
  etag : Bool
  corsOrigin : Option Bytes

/-- What the callbacks of one request read: the clocks, and the number of an id. -/
structure Moment where
  now : Nat
  again : Nat
  unix : Int
  number : Nat

def when {α : Type} (b : Bool) (a : α) : List α := if b then [a] else []

def Flags.policies (flags : Flags) : Bool := flags.csp.isSome || flags.cspReportOnly.isSome

def Flags.security (flags : Flags) : Option HttpSecurityOptions :=
  if flags.policies then some ⟨flags.csp, flags.cspReportOnly⟩ else none

def Flags.basic (flags : Flags) : HttpBasicAuthOptions :=
  ⟨flags.basicAuth.map Prod.fst, flags.basicAuth.map Prod.snd, none⟩

variable (net : InetPton) (zl : Zlib ζ)

def cwebChain (flags : Flags) (m : Moment) : List (HttpMiddlewareFn (Exchange (World ω))) :=
  when flags.stats (httpStatsMiddleware statsPart) ++
  when (!flags.trusted.isEmpty) (httpClientIpMiddleware net flags.trusted) ++
  when flags.requestId (httpRequestIdMiddleware flags.requestIdInherit m.number) ++
  when (flags.secure || flags.policies) (httpSecurityMiddleware flags.security) ++
  when flags.signatureSecret.isSome (httpSignatureMiddleware m.unix (some ⟨flags.signatureSecret, 0⟩)) ++
  when (0 < flags.ratePerMin)
    (httpRateLimitMiddleware limiterPart (some httpRateLimitUserKey) m.now m.again) ++
  when flags.basicAuth.isSome (httpBasicAuthMiddleware (some flags.basic)) ++
  when flags.gzip (httpGzipMiddleware zl none) ++
  when flags.etag (httpEtagMiddleware false) ++
  when flags.corsOrigin.isSome (httpCorsMiddleware (some ⟨flags.corsOrigin, none, none, false, 0⟩))

/-- Addresses of proxies alone do not make a server use its chain. -/
def cwebMiddleware (flags : Flags) : Bool :=
  flags.secure || flags.gzip || decide (0 < flags.ratePerMin) || flags.signatureSecret.isSome ||
    flags.basicAuth.isSome ||
    flags.corsOrigin.isSome || flags.stats || flags.etag || flags.requestId || flags.csp.isSome ||
    flags.cspReportOnly.isSome

def cwebDispatch (flags : Flags) (m : Moment) (routerDispatch : HttpHandlerFn (Exchange (World ω))) :
    HttpHandlerFn (Exchange (World ω)) :=
  if cwebMiddleware flags then
    let chain := addAll (cwebChain net zl flags m)
    trampoline (httpMiddlewareBuild chain) routerDispatch (chain.items.length + 1) 0
  else routerDispatch

/-! ## The layers -/

def signEnter (now : Int) (opts : Option HttpSignatureOptions) (x : Exchange ω) :
    Except (Exchange ω) (Exchange ω) :=
  let secret := opts.bind HttpSignatureOptions.secret
  let age := (opts.map HttpSignatureOptions.maxAgeSeconds).getD 0
  if svFromCstr (secret.getD []) = [] ∨ httpRequestSignatureVerify now secret age x.req.toHttpRequest ≠ 0 then
    .error (x.respond (unsigned x.res))
  else .ok x

theorem httpSignatureMiddleware_eq (now : Int) (opts : Option HttpSignatureOptions) :
    (httpSignatureMiddleware now opts : HttpMiddlewareFn (Exchange ω)) =
      (gate (signEnter now opts)).wrap := by
  funext next x
  rw [wrap_gate, httpSignatureMiddleware, signEnter]
  split
  · rfl
  · rfl

def corsEnter (opts : Option HttpCorsOptions) (x : Exchange ω) : Except (Exchange ω) (Exchange ω) :=
  let opts := opts.getD ⟨some (ascii "*"), none, none, false, 0⟩
  match httpRequestGetHeader x.req.toHttpRequest (ascii "Origin") with
  | none => .ok x
  | some origin =>
    if origin = [] then .ok x
    else if originMatches opts.origin origin = false then .ok x
    else
      let text := svFromCstr (origin.take 511)
      if x.req.method = .options then
        .error (x.respond (stampPreflightHeaders (x.res.apply (.setStatus 204)) opts text))
      else .ok (x.respond (stampCredentials (stampOrigin x.res text) opts))

theorem httpCorsMiddleware_eq (opts : Option HttpCorsOptions) :
    (httpCorsMiddleware opts : HttpMiddlewareFn (Exchange ω)) = (gate (corsEnter opts)).wrap := by
  funext next x
  rw [wrap_gate, httpCorsMiddleware, corsEnter]
  dsimp only
  split
  · rfl
  · split
    · rfl
    · split
      · rfl
      · split
        · rfl
        · rfl

def countIn (x : Exchange (World ω)) : Exchange (World ω) :=
  { x with world := statsPart.put (httpStatsRecord (statsPart.get x.world) x.res) x.world }

def frontLayers (flags : Flags) (m : Moment) : List (Layer (Exchange (World ω))) :=
  when flags.stats (after fun _ y => countIn y) ++
  when (!flags.trusted.isEmpty) (before (tagClient net flags.trusted)) ++
  when flags.requestId ⟨fun x => .ok (tagRequest flags.requestIdInherit m.number x),
    fun x => stampId (tagRequest flags.requestIdInherit m.number x)⟩ ++
  when (flags.secure || flags.policies)
    (before fun x => x.respond (httpResponseSecurityHeadersOpts x.res flags.security))

def guardLayers (flags : Flags) (m : Moment) : List (Layer (Exchange (World ω))) :=
  when flags.signatureSecret.isSome (gate (signEnter m.unix (some ⟨flags.signatureSecret, 0⟩))) ++
  when (0 < flags.ratePerMin) (gate (rateEnter limiterPart (some httpRateLimitUserKey) m.now m.again)) ++
  when flags.basicAuth.isSome (gate (basicEnter (some flags.basic)))

def bodyLayers (flags : Flags) : List (Layer (Exchange (World ω))) :=
  when flags.gzip (after fun _ y => y.respond (gzipResponse zl none y.req.toHttpRequest y.res)) ++
  when flags.etag
    (after fun _ y => y.respond (Etag.httpEtagMiddleware Date.httpDateParse false y.req.toHttpRequest y.res))

def originLayers (flags : Flags) : List (Layer (Exchange (World ω))) :=
  when flags.corsOrigin.isSome (gate (corsEnter (some ⟨flags.corsOrigin, none, none, false, 0⟩)))

def cwebLayers (flags : Flags) (m : Moment) : List (Layer (Exchange (World ω))) :=
  frontLayers net flags m ++ (guardLayers flags m ++ (bodyLayers zl flags ++ originLayers flags))

theorem map_when {α β : Type} (f : α → β) (b : Bool) (a : α) : (when b a).map f = when b (f a) := by
  cases b
  · rfl
  · rfl

theorem cwebChain_eq (flags : Flags) (m : Moment) :
    (cwebChain net zl flags m : List (HttpMiddlewareFn (Exchange (World ω)))) =
      (cwebLayers net zl flags m).map Layer.wrap := by
  have hTag : (before (tagClient net flags.trusted) : Layer (Exchange (World ω))).wrap =
    httpClientIpMiddleware net flags.trusted := by
    funext next x
    exact wrap_before _ _ _
  have hSecure :
    (before fun x : Exchange (World ω) =>
      x.respond (httpResponseSecurityHeadersOpts x.res flags.security)).wrap =
      httpSecurityMiddleware flags.security := by
    funext next x
    exact wrap_before _ _ _
  rw [cwebLayers, frontLayers, guardLayers, bodyLayers, originLayers]
  simp only [List.map_append, map_when, hTag, hSecure, ← httpSignatureMiddleware_eq,
    ← httpRateLimitMiddleware_eq, ← httpBasicAuthMiddleware_eq,
    ← httpCorsMiddleware_eq, List.append_assoc]
  rw [cwebChain]
  simp only [List.append_assoc]
  rfl

/-- Without its chain a server has no layers. -/
def installed (flags : Flags) (m : Moment) : List (Layer (Exchange (World ω))) :=
  if cwebMiddleware flags then cwebLayers net zl flags m else []

theorem cwebDispatch_eq (flags : Flags) (m : Moment) (page : HttpHandlerFn (Exchange (World ω))) :
    cwebDispatch net zl flags m page = run (installed net zl flags m) page := by
  rw [cwebDispatch, installed]
  split
  · dsimp only
    rw [trampoline_build _ _ (Nat.lt_succ_self _), items_addAll, cwebChain_eq, nested_wrap]
  · rfl

/-! ## Who is let through -/

/-- The signature that the flags ask for is there. -/
def Signed (flags : Flags) (m : Moment) (req : HttpRequest) : Prop :=
  ∀ secret, flags.signatureSecret = some secret → svFromCstr secret ≠ [] ∧
    httpRequestSignatureVerify m.unix (some secret) 0 req = 0

/-- The limiter behind a request that was looked at. -/
def charged (flags : Flags) (m : Moment) (rl : HttpRateLimiter) (req : Identified) : HttpRateLimiter :=
  if 0 < flags.ratePerMin then (httpRateLimiterAllow rl (limiterKey (some httpRateLimitUserKey) req) m.now).1
  else rl

def InBudget (flags : Flags) (m : Moment) (rl : HttpRateLimiter) (req : Identified) : Prop :=
  0 < flags.ratePerMin → (httpRateLimiterAllow rl (limiterKey (some httpRateLimitUserKey) req) m.now).2 = 0

/-- The credentials are right. Without a user all are. -/
def Known (flags : Flags) (req : HttpRequest) : Prop :=
  flags.basicAuth.isSome → svFromCstr (flags.basic.user.getD []) ≠ [] →
    ∃ name secret, Presents flags.basic req name secret

/-- A question of a browser on behalf of an origin that the flags name. -/
def Preflight (flags : Flags) (req : HttpRequest) : Prop :=
  ∃ allowed origin, flags.corsOrigin = some allowed ∧
    httpRequestGetHeader req (ascii "Origin") = some origin ∧ origin ≠ [] ∧
    originMatches (some allowed) origin = true ∧ req.method = .options

def prepared (flags : Flags) (m : Moment) (x : Exchange (World ω)) : Exchange (World ω) :=
  let x := if flags.trusted.isEmpty then x else tagClient net flags.trusted x
  let x := if flags.requestId then tagRequest flags.requestIdInherit m.number x else x
  if flags.secure || flags.policies then x.respond (httpResponseSecurityHeadersOpts x.res flags.security)
  else x

theorem run_when_after {σ : Type} (b : Bool) (f : σ → σ → σ) (core : σ → Option σ) (s : σ) :
    run (when b (after f)) core s = (core s).map fun t => if b then f s t else t := by
  cases b with
  | false => exact Option.map_id'.symm
  | true => rfl

theorem enter_front (flags : Flags) (m : Moment) (x : Exchange (World ω)) :
    (stack (frontLayers net flags m)).enter x = .ok (prepared net flags m x) := by
  rw [frontLayers, prepared]
  cases flags.stats <;> cases flags.trusted.isEmpty <;> cases flags.requestId <;> cases flags.secure ||
    flags.policies <;> rfl

theorem leave_front {P : Exchange (World ω) → Prop} (flags : Flags) (m : Moment)
    (hCount : ∀ y, P y → P (countIn y))
    (hStamp : ∀ x y : Exchange (World ω), P y → P (stampId x y)) (x y : Exchange (World ω)) (hy : P y) :
    P ((stack (frontLayers net flags m)).leave x y) := by
  have hWhen : ∀ {l : Layer (Exchange (World ω))} {b : Bool} {l'}, l' ∈ when b l → l' = l := by
    intro l b l' h
    cases b with
    | false => cases h
    | true => exact List.mem_singleton.mp h
  refine leave_stack (fun l hl => ?_) (fun l hl => ?_) x y hy
  · simp only [frontLayers, List.mem_append] at hl
    rcases hl with ((hl | hl) | hl) | hl
    · rw [hWhen hl]
      exact fun s => ⟨s, rfl⟩
    · rw [hWhen hl]
      exact fun s => ⟨_, rfl⟩
    · rw [hWhen hl]
      exact fun s => ⟨_, rfl⟩
    · rw [hWhen hl]
      exact fun s => ⟨_, rfl⟩
  · simp only [frontLayers, List.mem_append] at hl
    rcases hl with ((hl | hl) | hl) | hl
    · rw [hWhen hl]
      exact fun _ t ht => hCount t ht
    · rw [hWhen hl]
      exact fun _ _ ht => ht
    · rw [hWhen hl]
      exact fun s t ht => hStamp _ t ht
    · rw [hWhen hl]
      exact fun _ _ ht => ht

@[simp]
theorem status_setHeader (res : HttpResponse) (name value : Bytes) :
    (res.apply (.setHeader name value)).status = res.status := rfl

@[simp]
theorem body_setHeader (res : HttpResponse) (name value : Bytes) :
    (res.apply (.setHeader name value)).body = res.body := rfl

@[simp]
theorem status_appendHeader (res : HttpResponse) (name value : Bytes) :
    (res.apply (.appendHeader name value)).status = res.status := rfl

@[simp]
theorem body_appendHeader (res : HttpResponse) (name value : Bytes) :
    (res.apply (.appendHeader name value)).body = res.body := rfl

theorem body_security (res : HttpResponse) (opts : Option HttpSecurityOptions) :
    (httpResponseSecurityHeadersOpts res opts).body = res.body := by
  rw [httpResponseSecurityHeadersOpts]
  split
  · simp only [body_setHeader]
  · simp only [body_setHeader]

theorem prepared_spec (flags : Flags) (m : Moment) (x : Exchange (World ω)) :
    (prepared net flags m x).req.toHttpRequest = x.req.toHttpRequest ∧
      (prepared net flags m x).req.authUser = x.req.authUser ∧
      (prepared net flags m x).world = x.world ∧ (prepared net flags m x).res.body = x.res.body := by
  have hClient : ∀ (b : Bool) (x : Exchange (World ω)),
      let y := if b then x else tagClient net flags.trusted x
      y.req.toHttpRequest = x.req.toHttpRequest ∧ y.req.authUser = x.req.authUser ∧ y.world = x.world ∧
        y.res = x.res := by
    intro b x
    cases b with
    | false => exact ⟨rfl, rfl, rfl, rfl⟩
    | true => exact ⟨rfl, rfl, rfl, rfl⟩
  have hId : ∀ (b : Bool) (x : Exchange (World ω)),
      let y := if b then tagRequest flags.requestIdInherit m.number x else x
      y.req.toHttpRequest = x.req.toHttpRequest ∧ y.req.authUser = x.req.authUser ∧ y.world = x.world ∧
        y.res = x.res := by
    intro b x
    cases b with
    | false => exact ⟨rfl, rfl, rfl, rfl⟩
    | true => exact ⟨rfl, rfl, rfl, rfl⟩
  obtain ⟨hReq₁, hUser₁, hWorld₁, hRes₁⟩ := hClient flags.trusted.isEmpty x
  obtain ⟨hReq₂, hUser₂, hWorld₂, hRes₂⟩ :=
    hId flags.requestId (if flags.trusted.isEmpty then x else tagClient net flags.trusted x)
  rw [prepared]
  split
  · refine ⟨hReq₂.trans hReq₁, hUser₂.trans hUser₁, hWorld₂.trans hWorld₁, ?_⟩
    rw [Exchange.res_respond, body_security, hRes₂, hRes₁]
  · exact ⟨hReq₂.trans hReq₁, hUser₂.trans hUser₁, hWorld₂.trans hWorld₁,
      congrArg HttpResponse.body (hRes₂.trans hRes₁)⟩

/-- On the way out a response is given the id that was chosen on the way in, and counted. -/
theorem leave_front_eq (flags : Flags) (m : Moment) (x y : Exchange (World ω)) :
    (stack (frontLayers net flags m)).leave x y =
    let y := if flags.requestId then stampId (prepared net flags m x) y else y
    if flags.stats then countIn y else y := by
  rw [frontLayers, prepared]
  cases flags.stats <;> cases flags.trusted.isEmpty <;> cases flags.requestId <;> cases flags.secure ||
    flags.policies <;> rfl

/-! ## The guards in turn -/

theorem run_signature (flags : Flags) (m : Moment) (p : Exchange (World ω)) :
    let layers : List (Layer (Exchange (World ω))) :=
      when flags.signatureSecret.isSome (gate (signEnter m.unix (some ⟨flags.signatureSecret, 0⟩)))
    (Signed flags m p.req.toHttpRequest → ∀ core, run layers core p = core p) ∧
      (¬ Signed flags m p.req.toHttpRequest →
      ∀ core, run layers core p = some (p.respond (unsigned p.res))) := by
  intro layers
  cases hSecret : flags.signatureSecret with
  | none =>
    have hAll : Signed flags m p.req.toHttpRequest := fun secret h => absurd (hSecret.symm.trans h) (by simp)
    exact ⟨fun _ core => by simp only [layers, hSecret]; rfl, fun hNot => absurd hAll hNot⟩
  | some secret =>
    have hSigned : Signed flags m p.req.toHttpRequest ↔
        ¬ (svFromCstr secret = [] ∨
        httpRequestSignatureVerify m.unix (some secret) 0 p.req.toHttpRequest ≠ 0) := by
      rw [not_or, not_not]
      constructor
      · exact fun h => h secret hSecret
      · intro h secret' hSecret'
        obtain rfl := Option.some.inj (hSecret.symm.trans hSecret')
        exact h
    have hOn : layers = [gate (signEnter m.unix (some ⟨some secret, 0⟩))] := by
      simp only [layers, hSecret]
      rfl
    refine ⟨fun h core => ?_, fun h core => ?_⟩
    · have hEnter : signEnter m.unix (some ⟨some secret, 0⟩) p = .ok p := if_neg (hSigned.mp h)
      rw [hOn]
      exact run_gate_ok hEnter core
    · have hEnter : signEnter m.unix (some ⟨some secret, 0⟩) p = .error (p.respond (unsigned p.res)) :=
        if_pos (not_not.mp (mt hSigned.mpr h))
      rw [hOn]
      exact run_gate_error hEnter core

theorem run_budget (flags : Flags) (m : Moment) (p : Exchange (World ω)) :
    let layers : List (Layer (Exchange (World ω))) :=
      when (0 < flags.ratePerMin) (gate (rateEnter limiterPart (some httpRateLimitUserKey) m.now m.again))
    let world : World ω := { p.world with limiter := charged flags m p.world.limiter p.req }
    (InBudget flags m p.world.limiter p.req → ∃ q, (∀ core, run layers core p = core q) ∧
      q.req = p.req ∧ q.world = world ∧ q.res.body = p.res.body) ∧
      (¬ InBudget flags m p.world.limiter p.req → ∃ t, (∀ core, run layers core p = some t) ∧
      t.res.status = 429 ∧ t.world = world) := by
  intro layers world
  by_cases hRate : 0 < flags.ratePerMin
  · have hWorld : world = { p.world with limiter :=
      (httpRateLimiterAllow p.world.limiter (limiterKey (some httpRateLimitUserKey) p.req) m.now).1 } := by
      simp only [world, charged, if_pos hRate]
    obtain ⟨hThrough, hRefused⟩ := rateEnter_cases limiterPart (some httpRateLimitUserKey) m.now m.again p
    have hOn : layers = [gate (rateEnter limiterPart (some httpRateLimitUserKey) m.now m.again)] := by
      simp only [layers, decide_eq_true hRate]
      rfl
    by_cases hAllowed :
      (httpRateLimiterAllow p.world.limiter (limiterKey (some httpRateLimitUserKey) p.req) m.now).2 = 0
    · obtain ⟨q, hEnter, hReq, hLimiter, hBody⟩ : ∃ q,
        rateEnter limiterPart (some httpRateLimitUserKey) m.now m.again p = .ok q ∧ q.req = p.req ∧
          q.world = world ∧ q.res.body = p.res.body := ⟨_, hThrough hAllowed, rfl, hWorld.symm, rfl⟩
      exact ⟨fun _ => ⟨q, fun core => by rw [hOn]; exact run_gate_ok hEnter core, hReq, hLimiter,
        hBody⟩, fun hNot => absurd (fun _ => hAllowed) hNot⟩
    · obtain ⟨b, -, hRefusal⟩ := hRefused hAllowed
      obtain ⟨t, hEnter, hStatus, hLimiter⟩ : ∃ t,
        rateEnter limiterPart (some httpRateLimitUserKey) m.now m.again p = .error t ∧
          t.res.status = 429 ∧ t.world = world := ⟨_, hRefusal, rfl, hWorld.symm⟩
      exact ⟨fun h => absurd (h hRate) hAllowed,
        fun _ => ⟨t, fun core => by rw [hOn]; exact run_gate_error hEnter core, hStatus, hLimiter⟩⟩
  · have hRun : ∀ core, run layers core p = core p := by
      intro core
      simp only [layers, decide_eq_false hRate]
      rfl
    have hWorld : world = p.world := by simp only [world, charged, if_neg hRate]
    exact ⟨fun _ => ⟨p, hRun, rfl, hWorld.symm, rfl⟩, fun hNot => absurd (fun h => absurd h hRate) hNot⟩

theorem run_password (flags : Flags) (p : Exchange (World ω)) :
    let layers : List (Layer (Exchange (World ω))) :=
      when flags.basicAuth.isSome (gate (basicEnter (some flags.basic)))
    (Known flags p.req.toHttpRequest → ∃ q, (∀ core, run layers core p = core q) ∧
      q.req.toHttpRequest = p.req.toHttpRequest ∧ q.world = p.world ∧
        q.res = p.res ∧ (flags.basicAuth.isSome → svFromCstr (flags.basic.user.getD []) ≠ [] →
          ∃ name secret, Presents flags.basic p.req.toHttpRequest name secret ∧
          q.req.authUser = svFromCstr (name.take 127))) ∧
      (¬ Known flags p.req.toHttpRequest → ∃ t, (∀ core, run layers core p = some t) ∧
        t.res.status = 401 ∧ t.world = p.world) := by
  intro layers
  by_cases hAsked : flags.basicAuth.isSome ∧ svFromCstr (flags.basic.user.getD []) ≠ []
  · have hOn : layers = [gate (basicEnter (some flags.basic))] := by
      simp only [layers, hAsked.1]
      rfl
    rcases basicEnter_cases hAsked.2 p with ⟨name, secret, hPresents, hEnter⟩ | ⟨hNone, hEnter⟩
    · obtain ⟨q, hEnter, hReq, hWorld, hRes, hUser⟩ : ∃ q, basicEnter (some flags.basic) p = .ok q ∧
        q.req.toHttpRequest = p.req.toHttpRequest ∧
          q.world = p.world ∧ q.res = p.res ∧ q.req.authUser = svFromCstr (name.take 127) :=
            ⟨_, hEnter, rfl, rfl, rfl, rfl⟩
      refine ⟨fun _ => ⟨q, fun core => by rw [hOn]; exact run_gate_ok hEnter core, hReq, hWorld, hRes,
        fun _ _ => ⟨name, secret, hPresents, hUser⟩⟩, fun hNot => ?_⟩
      exact absurd (fun _ _ => ⟨name, secret, hPresents⟩) hNot
    · obtain ⟨t, hEnter, hStatus, hWorld⟩ : ∃ t, basicEnter (some flags.basic) p = .error t ∧
        t.res.status = 401 ∧ t.world = p.world :=
        ⟨_, hEnter, rfl, rfl⟩
      exact ⟨fun h => absurd (h hAsked.1 hAsked.2) hNone,
        fun _ => ⟨t, fun core => by rw [hOn]; exact run_gate_error hEnter core, hStatus, hWorld⟩⟩
  · have hRun : ∀ core, run layers core p = core p := by
      intro core
      cases hSome : flags.basicAuth.isSome with
      | false =>
        simp only [layers, hSome]
        rfl
      | true =>
        have hUser : svFromCstr (flags.basic.user.getD []) = [] := not_not.mp fun hNe => hAsked ⟨hSome, hNe⟩
        have hEnter : basicEnter (some flags.basic) p = .ok p := if_pos hUser
        simp only [layers, hSome]
        exact run_gate_ok hEnter core
    refine ⟨fun _ => ⟨p, hRun, rfl, rfl, rfl, fun hSome hNe => absurd ⟨hSome, hNe⟩ hAsked⟩, fun hNot => ?_⟩
    exact absurd (fun hSome hNe => absurd ⟨hSome, hNe⟩ hAsked) hNot

theorem stampCredentials_kept (res : HttpResponse) (opts : HttpCorsOptions) :
    (stampCredentials res opts).status = res.status ∧ (stampCredentials res opts).body = res.body := by
  rw [stampCredentials]
  split
  · exact ⟨status_setHeader _ _ _, body_setHeader _ _ _⟩
  · exact ⟨rfl, rfl⟩

theorem stampPreflightHeaders_kept (res : HttpResponse) (opts : HttpCorsOptions) (origin : Bytes) :
    (stampPreflightHeaders res opts origin).status = res.status ∧
      (stampPreflightHeaders res opts origin).body = res.body := by
  rw [stampPreflightHeaders, (stampCredentials_kept _ opts).1, (stampCredentials_kept _ opts).2]
  split
  · simp only [status_setHeader, body_setHeader, status_appendHeader, body_appendHeader, stampOrigin,
      and_self]
  · simp only [status_setHeader, body_setHeader, status_appendHeader, body_appendHeader, stampOrigin,
      and_self]

theorem run_origins (flags : Flags) (p : Exchange (World ω)) :
    (¬ Preflight flags p.req.toHttpRequest → ∃ q, (∀ core, run (originLayers flags) core p = core q) ∧
      q.req = p.req ∧ q.world = p.world) ∧
      (Preflight flags p.req.toHttpRequest → ∃ t, (∀ core, run (originLayers flags) core p = some t) ∧
        t.res.status = 204 ∧
        t.res.body = p.res.body ∧ t.world = p.world) := by
  cases hOrigin : flags.corsOrigin with
  | none =>
    have hOff : (originLayers flags : List (Layer (Exchange (World ω)))) = [] := by
      rw [originLayers, hOrigin]
      rfl
    refine ⟨fun _ => ⟨p, fun core => by rw [hOff]; rfl, rfl, rfl⟩, ?_⟩
    rintro ⟨allowed, -, hAllowed, -⟩
    rw [hOrigin] at hAllowed
    cases hAllowed
  | some allowed =>
    have hOn : (originLayers flags : List (Layer (Exchange (World ω)))) =
      [gate (corsEnter (some ⟨some allowed, none, none, false, 0⟩))] := by
      rw [originLayers, hOrigin]
      rfl
    have hPreflight : Preflight flags p.req.toHttpRequest ↔
      ∃ origin, httpRequestGetHeader p.req.toHttpRequest (ascii "Origin") = some origin ∧
        origin ≠ [] ∧ originMatches (some allowed) origin = true ∧ p.req.method = .options := by
      constructor
      · rintro ⟨allowed', origin, hAllowed, hRest⟩
        obtain rfl := Option.some.inj (hOrigin.symm.trans hAllowed)
        exact ⟨origin, hRest⟩
      · rintro ⟨origin, hRest⟩
        exact ⟨allowed, origin, hOrigin, hRest⟩
    have hEnter : (∃ q, corsEnter (some ⟨some allowed, none, none, false, 0⟩) p = .ok q ∧
      q.req = p.req ∧ q.world = p.world ∧
          ¬ Preflight flags p.req.toHttpRequest) ∨
        ∃ t, corsEnter (some ⟨some allowed, none, none, false, 0⟩) p = .error t ∧ t.res.status = 204 ∧
          t.res.body = p.res.body ∧
          t.world = p.world ∧ Preflight flags p.req.toHttpRequest := by
      rw [corsEnter, hPreflight]
      dsimp only [Option.getD_some]
      cases httpRequestGetHeader p.req.toHttpRequest (ascii "Origin") with
      | none => exact .inl ⟨p, rfl, rfl, rfl, fun ⟨_, h, _⟩ => by cases h⟩
      | some origin =>
        dsimp only
        by_cases hNone : origin = []
        · rw [if_pos hNone]
          refine .inl ⟨p, rfl, rfl, rfl, ?_⟩
          rintro ⟨origin', h, hSome, -⟩
          exact hSome (Option.some.inj h ▸ hNone)
        · rw [if_neg hNone]
          by_cases hOther : originMatches (some allowed) origin = false
          · rw [if_pos hOther]
            refine .inl ⟨p, rfl, rfl, rfl, ?_⟩
            rintro ⟨origin', h, -, hMatches, -⟩
            rw [← Option.some.inj h, hOther] at hMatches
            cases hMatches
          · rw [if_neg hOther]
            by_cases hMethod : p.req.method = .options
            · rw [if_pos hMethod]
              obtain ⟨hStatus, hBody⟩ :=
                stampPreflightHeaders_kept (p.res.apply (.setStatus 204)) ⟨some allowed, none, none, false, 0⟩
                (svFromCstr (origin.take 511))
              exact .inr ⟨_, rfl, hStatus, hBody, rfl, origin, rfl, hNone,
                Bool.eq_true_of_not_eq_false hOther, hMethod⟩
            · rw [if_neg hMethod]
              exact .inl ⟨_, rfl, rfl, rfl, fun ⟨_, _, _, _, h⟩ => hMethod h⟩
    rw [hOn]
    rcases hEnter with ⟨q, hEnter, hReq, hWorld, hNot⟩ | ⟨t, hEnter, hStatus, hBody, hWorld, hIs⟩
    · exact ⟨fun _ => ⟨q, fun core => run_gate_ok hEnter core, hReq, hWorld⟩, fun h => absurd h hNot⟩
    · exact ⟨fun h => absurd hIs h,
        fun _ => ⟨t, fun core => run_gate_error hEnter core, hStatus, hBody, hWorld⟩⟩

/-- What gzip and the entity tags make of a response. -/
def finished (flags : Flags) (y : Exchange (World ω)) : Exchange (World ω) :=
  let y :=
    if flags.etag then y.respond (Etag.httpEtagMiddleware Date.httpDateParse false y.req.toHttpRequest y.res)
    else y
  if flags.gzip then y.respond (gzipResponse zl none y.req.toHttpRequest y.res) else y

theorem run_bodies (flags : Flags) (core : Exchange (World ω) → Option (Exchange (World ω)))
    (p : Exchange (World ω)) :
    run (bodyLayers zl flags) core p = (core p).map (finished zl flags) := by
  rw [bodyLayers, run_append, run_when_after, run_when_after, Option.map_map]
  rfl

theorem finished_empty (flags : Flags) {y : Exchange (World ω)} (h : y.res.body = []) :
    finished zl flags y = y := by
  have hEtag : Etag.httpEtagMiddleware Date.httpDateParse false y.req.toHttpRequest y.res = y.res := by
    rw [Etag.httpEtagMiddleware, if_pos h]
    split
    · rfl
    · split
      · rfl
      · rfl
  have hGzip : gzipResponse zl none y.req.toHttpRequest y.res = y.res := by
    rw [gzipResponse, if_pos (.inr (.inr h))]
  rw [finished, hEtag]
  simp only [Exchange.respond, ite_self, hGzip]

/-- The chain answers without the page, and leaves such a limiter behind. -/
def Refused (flags : Flags) (m : Moment) (x : Exchange (World ω)) (status : Nat)
    (limiter : HttpRateLimiter) : Prop :=
  ∃ t, (∀ page, cwebDispatch net zl flags m page x = some t) ∧ t.res.status = status ∧
    t.world.limiter = limiter ∧ t.world.site = x.world.site

/-- The page is called once, with such a limiter, and for whoever the credentials name. -/
def Admitted (flags : Flags) (m : Moment) (x : Exchange (World ω)) (limiter : HttpRateLimiter) : Prop :=
  ∃ y leave, (∀ page, cwebDispatch net zl flags m page x = (page y).map leave) ∧
    y.req.toHttpRequest = x.req.toHttpRequest ∧
    y.world = { x.world with limiter := limiter } ∧
    (flags.basicAuth.isSome → svFromCstr (flags.basic.user.getD []) ≠ [] →
      ∃ name secret, Presents flags.basic x.req.toHttpRequest name secret ∧
      y.req.authUser = svFromCstr (name.take 127))

theorem cwebDispatch_installed {flags : Flags} (h : cwebMiddleware flags = true) (m : Moment)
    (page : HttpHandlerFn (Exchange (World ω)))
    (x : Exchange (World ω)) : cwebDispatch net zl flags m page x =
      (run (when flags.signatureSecret.isSome (gate (signEnter m.unix (some ⟨flags.signatureSecret, 0⟩))))
        (run (when (0 < flags.ratePerMin)
          (gate (rateEnter limiterPart (some httpRateLimitUserKey) m.now m.again)))
          (run (when flags.basicAuth.isSome (gate (basicEnter (some flags.basic))))
            (fun q => (run (originLayers flags) page q).map (finished zl flags))))
              (prepared net flags m x)).map
        ((stack (frontLayers net flags m)).leave x) := by
  have hBodies : run (bodyLayers zl flags) (run (originLayers flags) page) = fun q =>
    (run (originLayers flags) page q).map (finished zl flags) := by
    funext q
    exact run_bodies zl flags _ q
  rw [cwebDispatch_eq, installed, if_pos h, cwebLayers, run_append, run_append, run_append, hBodies,
    guardLayers, run_append, run_append,
    run_eq_wrap (frontLayers net flags m), Layer.wrap_ok (enter_front net flags m x)]

/-- Who comes to a page of a generated server, and with what answer the others are
sent away: first those without the signature, who are not charged, then those out of
budget, then those without the credentials, and last the preflights. -/
theorem chain_guards (flags : Flags) (m : Moment) {x : Exchange (World ω)} (hFresh : x.res.body = []) :
    let req := x.req.toHttpRequest
    let rl := x.world.limiter
    let caller := (prepared net flags m x).req
    let after := charged flags m rl caller
    (¬ Signed flags m req → Refused net zl flags m x 403 rl) ∧
    (Signed flags m req → ¬ InBudget flags m rl caller → Refused net zl flags m x 429 after) ∧
    (Signed flags m req → InBudget flags m rl caller → ¬ Known flags req →
      Refused net zl flags m x 401 after) ∧
    (Signed flags m req → InBudget flags m rl caller → Known flags req → Preflight flags req →
      Refused net zl flags m x 204 after) ∧
    (Signed flags m req → InBudget flags m rl caller → Known flags req → ¬ Preflight flags req →
      Admitted net zl flags m x after) := by
  intro req rl caller after
  cases hChain : cwebMiddleware flags with
  | false =>
    have hOff : ¬ cwebMiddleware flags = true := by rw [hChain]; exact Bool.false_ne_true
    simp only [cwebMiddleware, Bool.or_eq_false_iff, decide_eq_false_iff_not,
      Option.isSome_eq_false_iff, Option.isNone_iff_eq_none] at hChain
    obtain ⟨⟨⟨⟨⟨⟨⟨⟨⟨⟨-, -⟩, hRate⟩, hSecret⟩, hBasic⟩, hOrigin⟩, -⟩, -⟩, -⟩, -⟩, -⟩ := hChain
    have hSigned : Signed flags m req := fun secret h => absurd (hSecret.symm.trans h) (by simp)
    have hBudget : InBudget flags m rl caller := fun h => absurd h hRate
    have hKnown : Known flags req := fun h => absurd h (by simp [hBasic])
    have hPlain : ¬ Preflight flags req := fun ⟨_, _, h, _⟩ => absurd (hOrigin.symm.trans h) (by simp)
    refine ⟨fun h => absurd hSigned h, fun _ h => absurd hBudget h, fun _ _ h => absurd hKnown h,
      fun _ _ _ h => absurd h hPlain, fun _ _ _ _ => ?_⟩
    have hDirect : ∀ page, cwebDispatch net zl flags m page x = (page x).map id := by
      intro page
      rw [Option.map_id, cwebDispatch, if_neg hOff]
      rfl
    exact ⟨x, id, hDirect, rfl, by simp only [after, charged, if_neg hRate, rl],
      fun h => absurd h (by simp [hBasic])⟩
  | true =>
    obtain ⟨hReq, hUser, hWorld, hBody⟩ := prepared_spec net flags m x
    have hDispatch := fun page => cwebDispatch_installed net zl hChain m page x
    have hLimiter : (prepared net flags m x).world.limiter = rl := congrArg World.limiter hWorld
    have hSite : (prepared net flags m x).world.site = x.world.site := congrArg World.site hWorld
    have hLeave : ∀ y : Exchange (World ω), let t := (stack (frontLayers net flags m)).leave x y
        t.res.status = y.res.status ∧ t.world.limiter = y.world.limiter ∧ t.world.site = y.world.site := by
      intro y
      exact leave_front (P := fun t => t.res.status = y.res.status ∧ t.world.limiter = y.world.limiter ∧
        t.world.site = y.world.site) net flags m
        (fun _ h => h) (fun _ _ h => h) x y ⟨rfl, rfl, rfl⟩
    have hRefused : ∀ {t : Exchange (World ω)} {status limiter}, t.res.status = status →
      t.world.limiter = limiter → t.world.site = x.world.site →
        (∀ page, cwebDispatch net zl flags m page x = (some t).map
          ((stack (frontLayers net flags m)).leave x)) →
          Refused net zl flags m x status limiter := by
      intro t status limiter hStatus hRl hSt hAll
      obtain ⟨hStatus', hRl', hSt'⟩ := hLeave t
      exact ⟨_, hAll, hStatus'.trans hStatus, hRl'.trans hRl, hSt'.trans hSt⟩
    obtain ⟨hPassSign, hStopSign⟩ := run_signature flags m (prepared net flags m x)
    obtain ⟨hPassRate, hStopRate⟩ := run_budget flags m (prepared net flags m x)
    rw [hReq] at hPassSign hStopSign
    rw [hLimiter] at hPassRate hStopRate
    refine ⟨fun hNot => ?_, fun hSigned hNot => ?_, fun hSigned hBudget hNot => ?_,
      fun hSigned hBudget hKnown hIs => ?_,
      fun hSigned hBudget hKnown hNot => ?_⟩
    · exact hRefused (t := (prepared net flags m x).respond (unsigned (prepared net flags m x).res)) rfl
        hLimiter hSite fun page => by
        rw [hDispatch, hStopSign hNot]
    · obtain ⟨t, hRun, hStatus, hEnd⟩ := hStopRate hNot
      exact hRefused hStatus (congrArg World.limiter hEnd) ((congrArg World.site hEnd).trans hSite)
        fun page => by
        rw [hDispatch, hPassSign hSigned, hRun]
    all_goals
      obtain ⟨q, hRunRate, hReqRate, hWorldRate, hBodyRate⟩ := hPassRate hBudget
      obtain ⟨hPassBasic, hStopBasic⟩ := run_password flags q
      have hReqQ : q.req.toHttpRequest = req := (congrArg (fun r => r.toHttpRequest) hReqRate).trans hReq
      rw [hReqQ] at hPassBasic hStopBasic
    · obtain ⟨t, hRun, hStatus, hEnd⟩ := hStopBasic hNot
      exact hRefused hStatus (congrArg World.limiter (hEnd.trans hWorldRate))
        ((congrArg World.site (hEnd.trans hWorldRate)).trans hSite) fun page => by
        rw [hDispatch, hPassSign hSigned, hRunRate, hRun]
    all_goals
      obtain ⟨y, hRunBasic, hReqBasic, hWorldBasic, hResBasic, hNamed⟩ := hPassBasic hKnown
      obtain ⟨hPassOrigin, hStopOrigin⟩ := run_origins flags y
      rw [hReqBasic] at hPassOrigin hStopOrigin
    · obtain ⟨t, hRun, hStatus, hEmpty, hEnd⟩ := hStopOrigin hIs
      have hNothing : t.res.body = [] := by rw [hEmpty, hResBasic, hBodyRate, hBody, hFresh]
      have hAll := hEnd.trans (hWorldBasic.trans hWorldRate)
      exact hRefused hStatus (congrArg World.limiter hAll) ((congrArg World.site hAll).trans hSite)
        fun page => by
        rw [hDispatch, hPassSign hSigned, hRunRate, hRunBasic, hRun, Option.map_some,
          finished_empty zl flags hNothing]
    · obtain ⟨z, hRun, hReqZ, hWorldZ⟩ := hPassOrigin hNot
      refine ⟨z, fun t => (stack (frontLayers net flags m)).leave x (finished zl flags t), fun page =>
        ?_, ?_, ?_, fun hSome hNe => ?_⟩
      · rw [hDispatch, hPassSign hSigned, hRunRate, hRunBasic, hRun, Option.map_map]
        rfl
      · rw [hReqZ, hReqBasic]
      · rw [hWorldZ, hWorldBasic, hWorldRate, hWorld]
      · rw [hReqZ]
        exact hNamed hSome hNe

/-- A server behind a password, with a budget and open to all origins. -/
def lockedFlags : Flags :=
  ⟨true, [], true, false, true, none, none, none, 60, some (ascii "ada", ascii "b:c"), true, true,
    some (ascii "*")⟩

/-- A browser that asks for another origin first. -/
def askingExchange : Exchange (World Unit) :=
  ⟨⟨⟨{ emptyRequest with method := .options, headers := [⟨ascii "Origin", ascii "https://a"⟩] }, [], []⟩, [], []⟩,
    httpResponseInit,
    ⟨httpStatsInit, httpRateLimiterInit 1 60, ()⟩⟩

theorem chain_guards_asking : Refused threeAddresses helloZlib lockedFlags ⟨0, 0, 0, 7⟩ askingExchange 401
    (charged lockedFlags ⟨0, 0, 0, 7⟩ askingExchange.world.limiter
      (prepared threeAddresses lockedFlags ⟨0, 0, 0, 7⟩ askingExchange).req) := by
  refine (chain_guards threeAddresses helloZlib lockedFlags ⟨0, 0, 0, 7⟩ rfl).2.2.1 ?_ ?_ ?_
  · intro secret hSecret
    cases hSecret
  · intro _
    decide +kernel
  · intro hKnown
    obtain ⟨name, secret, auth, hAuth, -⟩ := hKnown rfl (by decide)
    have hNone : httpRequestGetHeader askingExchange.req.toHttpRequest (ascii "authorization") =
      none := by decide
    exact absurd (hNone.symm.trans hAuth) (by simp)

end Cweb.Chain
