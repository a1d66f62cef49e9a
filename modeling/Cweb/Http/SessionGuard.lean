import Cweb.Http.Cookie
import Cweb.Http.HeaderAlgebra
import Cweb.Http.Middleware
import Cweb.Http.SessionSlots

/-!
# Who is logged in

One middleware looks up the session that a cookie names and notes its user and
roles, where no other guard has noted any. The next one refuses a request without a
user or without one of the roles that are asked for. Over the map that the store is
for, a request comes past them when the session of its cookie says so, and the
cookie of a session that was destroyed says nothing.
-/

namespace Cweb.SessionGuard

open Sv Cookie Middleware SessionStore SessionSlots Machine

/-! ## The guards -/

structure HttpSessionAuthOptions where
  cookieName : Option Bytes
  sessionKey : Option Bytes
  rolesKey : Option Bytes
deriving DecidableEq, Repr

structure HttpRequireAuthOptions where
  roles : List Bytes
  loginPath : Option Bytes
  forbiddenPath : Option Bytes
deriving DecidableEq, Repr

abbrev Store := SessionSlots.HttpSessionStore

/-- The token that a request's cookie holds. -/
def cookieToken (req : HttpRequest) (cookieName : Bytes) : Option Bytes :=
  (httpRequestGetHeader req (ascii "cookie")).bind fun h => strmapGet (httpCookieParse strmapInit h)
    (svFromCstr cookieName)

def httpSessionFromCookie (s : Store) (req : HttpRequest) (cookieName : Bytes) (now : Int) :
    Option (Store × Option Nat) :=
  match cookieToken req cookieName with
  | none => some (s, none)
  | some token => SessionSlots.httpSessionOpen s token now

/-- A view that an earlier guard has filled stays. -/
def stashSessionValue (view : Bytes) (value : Option Bytes) : Bytes := if view.length ≠ 0 then view
    else value.getD view

def HttpSessionAuthOptions.cookie (opts : HttpSessionAuthOptions) : Bytes :=
  opts.cookieName.getD (ascii "cweb_session")

def HttpSessionAuthOptions.userKey (opts : HttpSessionAuthOptions) : Bytes :=
  opts.sessionKey.getD (ascii "auth_user")

def HttpSessionAuthOptions.roleKey (opts : HttpSessionAuthOptions) : Bytes :=
  opts.rolesKey.getD (ascii "auth_roles")

/-- Without options, or without a store in them, there is nothing to look up. -/
def httpSessionAuthMiddleware (now : Int) (opts : Option HttpSessionAuthOptions) :
    HttpMiddlewareFn (Exchange Store) := fun next x =>
  match opts with
  | none => next x
  | some opts =>
    match httpSessionFromCookie x.world x.req.toHttpRequest opts.cookie now with
    | none => none
    | some (s, none) => next { x with world := s }
    | some (s, some sesh) =>
      match SessionSlots.httpSessionValue s sesh opts.userKey,
        SessionSlots.httpSessionValue s sesh opts.roleKey with
      | some user, some roles =>
        next { x with
          world := s
          req := { x.req with
            authUser := stashSessionValue x.req.authUser user
            authRoles := stashSessionValue x.req.authRoles roles } }
      | _, _ => none

def holdsAnyRole (list : Bytes) (roles : List Bytes) : Bool :=
  (svSplit 44 list).any fun part => roles.any fun role => svTrim part == svFromCstr role

def httpResponseRedirect (res : HttpResponse) (status : Nat) (location : Bytes) : HttpResponse :=
  let status := if status = 301 ∨ status = 302 ∨ status = 303 ∨ status = 307 ∨ status = 308 then status
    else 302
  let res := res.apply (.setStatus status)
  let res := res.apply (.setHeader (ascii "Location") (svFromCstr location))
  if responseHasHeader res.headers (ascii "Content-Type") then res
  else res.apply (.setHeader (ascii "Content-Type") (ascii "text/plain; charset=utf-8"))

def refuse (res : HttpResponse) (path : Option Bytes) (status : Nat) (text : Bytes) : HttpResponse :=
  match path with
  | some path => httpResponseRedirect res 303 path
  | none =>
    let res := res.apply (.setStatus status)
    let res := res.apply (.setHeader (ascii "Content-Type") (ascii "text/plain; charset=utf-8"))
    res.apply (.addBody text)

def httpRequireAuthMiddleware {ω : Type} (opts : Option HttpRequireAuthOptions) :
    HttpMiddlewareFn (Exchange ω) := fun next x =>
  match opts with
  | none => next x
  | some opts =>
    if x.req.authUser.length = 0 then
      some (x.respond (refuse x.res opts.loginPath 401 (ascii "login required\n")))
    else if opts.roles ≠ [] ∧ ¬ holdsAnyRole x.req.authRoles opts.roles then
      some (x.respond (refuse x.res opts.forbiddenPath 403 (ascii "forbidden\n")))
    else next x

def guarded (now : Int) (sopts : HttpSessionAuthOptions) (ropts : HttpRequireAuthOptions)
    (page : HttpHandlerFn (Exchange Store)) :
    HttpHandlerFn (Exchange Store) :=
  nested [httpSessionAuthMiddleware now (some sopts), httpRequireAuthMiddleware (some ropts)] page

/-! ## What the map says -/

/-- The session that is live under a token and has not expired. -/
def current (m : SessionMap) (token : Option Bytes) (now : Int) : Option Entry :=
  token.bind fun token => (m.live (svFromCstr token)).filter fun e => ¬ e.Expired now

/-- The map when a token has been looked up: an expired session is gone. -/
def lookedUp (m : SessionMap) (token : Option Bytes) (now : Int) : SessionMap :=
  match token with
  | none => m
  | some token =>
    match m.live (svFromCstr token) with
    | none => m
    | some e => if e.Expired now then m.remove (svFromCstr token) else m

/-- A request with the user and the roles of a session. -/
def identified (req : Identified) (sopts : HttpSessionAuthOptions) (e : Option Entry) : Identified :=
  { req with
    authUser := stashSessionValue req.authUser (e.bind fun e => e.data (svFromCstr sopts.userKey))
    authRoles := stashSessionValue req.authRoles (e.bind fun e => e.data (svFromCstr sopts.roleKey)) }

structure Admitted (ropts : HttpRequireAuthOptions) (req : Identified) : Prop where
  user : req.authUser ≠ []
  role : ropts.roles = [] ∨ ∃ part ∈ svSplit 44 req.authRoles, ∃ role ∈ ropts.roles,
    svTrim part = svFromCstr role

theorem holdsAnyRole_iff (list : Bytes) (roles : List Bytes) :
    holdsAnyRole list roles = true ↔ ∃ part ∈ svSplit 44 list, ∃ role ∈ roles,
      svTrim part = svFromCstr role := by
  simp only [holdsAnyRole, List.any_eq_true, beq_iff_eq]

variable {ω : Type}

theorem require_admitted {ropts : HttpRequireAuthOptions} {x : Exchange ω} (h : Admitted ropts x.req)
    (page : HttpHandlerFn (Exchange ω)) :
    httpRequireAuthMiddleware (some ropts) page x = page x := by
  simp only [httpRequireAuthMiddleware]
  rw [if_neg fun hZero => h.user (List.length_eq_zero_iff.mp hZero), if_neg]
  rintro ⟨hRoles, hNone⟩
  exact hNone ((holdsAnyRole_iff _ _).mpr (h.role.resolve_left hRoles))

/-- What a request gets that is not admitted. -/
def refusal (ropts : HttpRequireAuthOptions) (req : Identified) (res : HttpResponse) : HttpResponse :=
  if req.authUser = [] then refuse res ropts.loginPath 401 (ascii "login required\n")
  else refuse res ropts.forbiddenPath 403 (ascii "forbidden\n")

theorem require_refused {ropts : HttpRequireAuthOptions} {x : Exchange ω} (h : ¬ Admitted ropts x.req)
    (page : HttpHandlerFn (Exchange ω)) :
    httpRequireAuthMiddleware (some ropts) page x = some (x.respond (refusal ropts x.req x.res)) := by
  simp only [httpRequireAuthMiddleware, refusal]
  by_cases hUser : x.req.authUser = []
  · rw [if_pos (List.length_eq_zero_iff.mpr hUser), if_pos hUser]
  · rw [if_neg (mt List.length_eq_zero_iff.mp hUser), if_neg hUser, if_pos]
    by_contra hRole
    rw [not_and_or, not_not, not_not, holdsAnyRole_iff] at hRole
    exact h ⟨hUser, hRole⟩

/-! ## The store answers as the map does -/

theorem identified_none (req : Identified) (sopts : HttpSessionAuthOptions) :
    identified req sopts none = req := by
  have hStash : ∀ view : Bytes, stashSessionValue view none = view := by
    intro view
    rw [stashSessionValue]
    split
    · rfl
    · rfl
  rw [identified, Option.bind_none, Option.bind_none, hStash, hStash]

theorem session_continues {x : Exchange Store} {m : SessionMap} (h : SessionSlots.Shows x.world m)
    (now : Int) (sopts : HttpSessionAuthOptions) :
    ∃ s', SessionSlots.Shows s' (lookedUp m (cookieToken x.req.toHttpRequest sopts.cookie) now) ∧
      ∀ next : HttpHandlerFn (Exchange Store),
      httpSessionAuthMiddleware now (some sopts) next x =
        next ⟨identified x.req sopts (current m (cookieToken x.req.toHttpRequest sopts.cookie) now),
          x.res, s'⟩ := by
  simp only [httpSessionAuthMiddleware, httpSessionFromCookie]
  cases hToken : cookieToken x.req.toHttpRequest sopts.cookie with
  | none => exact ⟨x.world, h, fun next => by rw [current, Option.bind_none, identified_none]⟩
  | some token =>
    simp only [SessionSlots.httpSessionOpen, current, lookedUp, Option.bind_some]
    rcases findToken_cases h (svFromCstr token) with ⟨hFind, hNow⟩ |
      ⟨i, p, sesh, hFind, hSlot, hSession, hLive⟩
    · refine ⟨x.world, ?_, ?_⟩
      · rw [hNow]
        exact h
      · intro next
        rw [hFind, hNow, Option.filter_none, identified_none]
    · rw [hFind, hLive.live]
      simp only [sessionAt_eq hSession hLive]
      by_cases hExpired : (entryOf sesh).Expired now
      · obtain ⟨s', hRemove, hShows, _⟩ := removeAt_shows h hSlot hSession hLive
        refine ⟨s', ?_, ?_⟩
        · rw [if_pos hExpired]
          exact hShows
        · intro next
          rw [if_pos ((expired_iff sesh now).mpr hExpired), hRemove,
            Option.filter_some_neg (by simpa using hExpired), identified_none]
          rfl
      · refine ⟨x.world, ?_, ?_⟩
        · rw [if_neg hExpired]
          exact h
        · intro next
          rw [if_neg (mt (expired_iff sesh now).mp hExpired),
            Option.filter_some_pos (by simpa using hExpired)]
          simp only [SessionSlots.httpSessionValue, hLive.read, Option.map_some]
          rfl

theorem guarded_cases {x : Exchange Store} {m : SessionMap} (h : SessionSlots.Shows x.world m)
    (now : Int) (sopts : HttpSessionAuthOptions)
    (ropts : HttpRequireAuthOptions) :
    let token := cookieToken x.req.toHttpRequest sopts.cookie
    let req := identified x.req sopts (current m token now)
    ∃ s', SessionSlots.Shows s' (lookedUp m token now) ∧ ∀ page,
      (Admitted ropts req → guarded now sopts ropts page x = page ⟨req, x.res, s'⟩) ∧
      (¬ Admitted ropts req → guarded now sopts ropts page x = some ⟨req, refusal ropts req x.res, s'⟩) := by
  intro token req
  obtain ⟨s', hShows, hNext⟩ := session_continues h now sopts
  refine ⟨s', hShows, fun page => ⟨?_, ?_⟩⟩
  · exact fun hAdmitted => (hNext _).trans (require_admitted (x := ⟨req, x.res, s'⟩) hAdmitted page)
  · exact fun hRefused => (hNext _).trans (require_refused (x := ⟨req, x.res, s'⟩) hRefused page)

/-! ## Runs of the store -/

theorem runs_show (defaultTtl : Int) {calls : List Call} (hTokens : (generated calls).Nodup) {s : Store}
    {answers : List Answer}
    (hRun : run SessionSlots.call (httpSessionStoreInit defaultTtl) calls = some (s, answers)) :
    ∃ m, run SessionMap.call (SessionMap.empty defaultTtl) calls = some (m, answers) ∧
      SessionSlots.Shows s m := by
  have hStart : Before calls (httpSessionStoreInit defaultTtl) (SessionMap.empty defaultTtl) :=
    ⟨shows_init defaultTtl, hTokens⟩
  rcases run_agree (fun c calls s m h => call_agree c calls h) calls _ _ hStart with ⟨hNone, _⟩ |
    ⟨s', m, xs, hStore, hMap, hBefore⟩
  · rw [hNone] at hRun
    cases hRun
  · obtain ⟨rfl, rfl⟩ := Prod.mk.inj (Option.some.inj (hStore.symm.trans hRun))
    exact ⟨m, hMap, hBefore.1⟩

theorem live_of_call {m m' : SessionMap} {c : Call} {a : Answer} (h : m.call c = some (m', a))
    {t : Bytes} (hLive : m'.live t ≠ none) :
    m.live t ≠ none ∨ t ∈ generated [c] := by
  have hRemove : ∀ token, (m.remove token).live t ≠ none → m.live t ≠ none := by
    intro token hNow
    obtain ⟨e, he⟩ := Option.ne_none_iff_exists'.mp hNow
    rw [((m.live_remove_iff token t e).mp he).2]
    exact Option.some_ne_none e
  have hBind : ∀ n key value token e, m.session n = some (token, e) →
    (m.bind token e key value).live t ≠ none → m.live t ≠ none := by
    intro n key value token e hSession hNow
    by_cases hEq : t = token
    · obtain ⟨token', _, hMap⟩ := Option.bind_eq_some_iff.mp hSession
      obtain ⟨e', hHere, hPair⟩ := Option.map_eq_some_iff.mp hMap
      obtain ⟨rfl, rfl⟩ := Prod.mk.inj hPair
      rw [hEq, hHere]
      exact Option.some_ne_none e'
    · exact fun hNone => hNow ((Function.update_of_ne hEq _ _).trans hNone)
  cases c with
  | create rnd ttl now =>
    cases rnd with
    | none =>
      obtain ⟨rfl, _⟩ := Prod.mk.inj (Option.some.inj h)
      exact .inl hLive
    | some rnd =>
      obtain ⟨rfl, _⟩ := Prod.mk.inj (Option.some.inj h)
      by_cases hEq : t = newToken rnd.toList
      · exact .inr (by rw [hEq]; exact List.mem_cons_self)
      · exact .inl fun hNone => hLive ((Function.update_of_ne hEq _ _).trans hNone)
  | «open» text now =>
    simp only [SessionMap.call] at h
    split at h
    · obtain ⟨rfl, _⟩ := Prod.mk.inj (Option.some.inj h)
      exact .inl hLive
    · split at h
      · obtain ⟨rfl, _⟩ := Prod.mk.inj (Option.some.inj h)
        exact .inl (hRemove _ hLive)
      · obtain ⟨rfl, _⟩ := Prod.mk.inj (Option.some.inj h)
        exact .inl hLive
  | set n key value =>
    obtain ⟨⟨token, e⟩, hSession, hPair⟩ := Option.map_eq_some_iff.mp h
    obtain ⟨rfl, _⟩ := Prod.mk.inj hPair
    exact .inl (hBind n _ _ token e hSession hLive)
  | value n key =>
    obtain ⟨_, _, hPair⟩ := Option.map_eq_some_iff.mp h
    obtain ⟨rfl, _⟩ := Prod.mk.inj hPair
    exact .inl hLive
  | del n key =>
    obtain ⟨⟨token, e⟩, hSession, hPair⟩ := Option.map_eq_some_iff.mp h
    obtain ⟨rfl, _⟩ := Prod.mk.inj hPair
    exact .inl (hBind n _ _ token e hSession hLive)
  | destroy text =>
    obtain ⟨rfl, _⟩ := Prod.mk.inj (Option.some.inj h)
    exact .inl (hRemove _ hLive)
  | reap now =>
    obtain ⟨rfl, _⟩ := Prod.mk.inj (Option.some.inj h)
    exact .inl fun hNone => hLive (congrArg (Option.filter _) hNone)

theorem generated_cons (c : Call) (calls : List Call) :
    generated (c :: calls) = generated [c] ++ generated calls :=
  @List.filterMap_append _ _ [c] calls _

theorem live_of_run (calls : List Call) : ∀ {m m' : SessionMap} {answers : List Answer},
    run SessionMap.call m calls = some (m', answers) →
    ∀ {t : Bytes}, m'.live t ≠ none → m.live t ≠ none ∨ t ∈ generated calls := by
  induction calls with
  | nil =>
    intro m m' answers h t hLive
    obtain ⟨rfl, _⟩ := Prod.mk.inj (Option.some.inj h)
    exact .inl hLive
  | cons c calls ih =>
    intro m m' answers h t hLive
    obtain ⟨⟨m₁, a⟩, hCall, hRest⟩ := Option.bind_eq_some_iff.mp h
    obtain ⟨⟨m₂, rest⟩, hRun, hPair⟩ := Option.map_eq_some_iff.mp hRest
    obtain ⟨rfl, _⟩ := Prod.mk.inj hPair
    rw [generated_cons, List.mem_append]
    rcases ih hRun hLive with hNow | hLater
    · exact (live_of_call hCall hNow).imp id .inl
    · exact .inr (.inr hLater)

/-- Ada logs in and is given two roles. -/
def loginRun : List Call :=
  [.create (some (Vector.replicate 20 1)) 0 100, .set 0 (ascii "auth_user") (ascii "ada"),
    .set 0 (ascii "auth_roles") (ascii "staff, admin")]

def adaToken : Bytes := newToken (List.replicate 20 1)

def storeAfter (calls : List Call) : Store :=
  ((run SessionSlots.call (httpSessionStoreInit 60) calls).map Prod.fst).getD (httpSessionStoreInit 60)

/-- A request with the cookie of her session. -/
def adaRequest : Identified :=
  ⟨⟨{ emptyRequest with headers := [⟨ascii "Cookie", ascii "theme=dark; cweb_session=" ++ adaToken⟩] },
    [], []⟩, [], []⟩

/-- A cookie whose session has been destroyed does not come past the guards any more,
whatever happens to other sessions before and after that. -/
theorem logged_out (defaultTtl : Int) {earlier later : List Call} {text : Bytes}
    (hTokens : (generated (earlier ++ .destroy text :: later)).Nodup)
    (hFresh : svFromCstr text ∉ generated later) {s : Store}
    {answers : List Answer}
    (hRun : run SessionSlots.call (httpSessionStoreInit defaultTtl)
      (earlier ++ .destroy text :: later) = some (s, answers))
    (now : Int) (sopts : HttpSessionAuthOptions) (ropts : HttpRequireAuthOptions) {req : Identified}
    (hUser : req.authUser = [])
    (hCookie : (cookieToken req.toHttpRequest sopts.cookie).map svFromCstr = some (svFromCstr text))
    (res : HttpResponse) :
    ∃ answer, ∀ page, guarded now sopts ropts page ⟨req, res, s⟩ = some answer := by
  obtain ⟨m, hMap, hShows⟩ := runs_show defaultTtl hTokens hRun
  have hGone : m.live (svFromCstr text) = none := by
    rw [run_append] at hMap
    obtain ⟨⟨m₁, answers₁⟩, _, hRest⟩ := Option.bind_eq_some_iff.mp hMap
    obtain ⟨⟨m₂, answers₂⟩, hLater, hPair⟩ := Option.map_eq_some_iff.mp hRest
    obtain ⟨rfl, _⟩ := Prod.mk.inj hPair
    obtain ⟨⟨m₃, a⟩, hDestroy, hTail⟩ := Option.bind_eq_some_iff.mp hLater
    obtain ⟨⟨m₄, answers₄⟩, hRun', hPair'⟩ := Option.map_eq_some_iff.mp hTail
    obtain ⟨rfl, _⟩ := Prod.mk.inj hPair'
    obtain ⟨rfl, _⟩ := Prod.mk.inj (Option.some.inj hDestroy)
    by_contra hLive
    rcases live_of_run later hRun' hLive with hNow | hMade
    · exact hNow (Function.update_self _ _ _)
    · exact hFresh hMade
  obtain ⟨token, hToken, hText⟩ := Option.map_eq_some_iff.mp hCookie
  have hNone : current m (cookieToken req.toHttpRequest sopts.cookie) now = none := by
    rw [current, hToken, Option.bind_some, hText, hGone]
    rfl
  obtain ⟨s', _, hCases⟩ := guarded_cases (x := ⟨req, res, s⟩) hShows now sopts ropts
  rw [hNone, identified_none] at hCases
  exact ⟨_, fun page => (hCases page).2 fun hAdmitted => hAdmitted.user hUser⟩

/-- Ada logs out, and someone else logs in. -/
def logoutRun : List Call := loginRun ++ .destroy adaToken :: [.create (some (Vector.replicate 20 2)) 0 100]

theorem logged_out_ada : ∃ answer, ∀ page,
    guarded 100 ⟨none, none, none⟩ ⟨[], none, none⟩ page
      ⟨adaRequest, httpResponseInit, storeAfter logoutRun⟩ = some answer := by
  have hTokens : (generated logoutRun).Nodup := by decide +kernel
  have hRun : run SessionSlots.call (httpSessionStoreInit 60) logoutRun =
      some (storeAfter logoutRun,
        [.token (some adaToken), .done, .done, .done, .token (some (newToken (List.replicate 20 2)))]) := by
    decide +kernel
  exact logged_out 60 hTokens (by decide +kernel) hRun 100 ⟨none, none, none⟩ ⟨[], none, none⟩ rfl
    (by decide +kernel) httpResponseInit

end Cweb.SessionGuard
