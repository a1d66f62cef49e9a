import Mathlib.Data.List.Infix
import Cweb.Http.Proxy

/-!
# What a target can do to the proxy

A target that starts with a slash and has no scheme mark, blank, newline or NUL
in it only shows up in the request line. Every other one is refused, cut off,
or names the host the proxy connects to.
-/

namespace Cweb.Proxy

open Sv Uri HttpClient

/-! ## The rounds of a request -/

theorem attempt_target (c : HttpClient) (net : Net) (r : Request) (target : Bytes) :
    (attempt c net { r with target := target }).client = (attempt c net r).client ∧
      (attempt c net { r with target := target }).net = (attempt c net r).net ∧
      (attempt c net { r with target := target }).result = (attempt c net r).result := by
  have hSend : ∀ net, sendStep net { r with target := target } = sendStep net r := fun _ => rfl
  rw [attempt, attempt]
  dsimp only
  rcases connectStep c net with ⟨c', net', err | conn⟩
  · exact ⟨rfl, rfl, rfl⟩
  · dsimp only
    rw [hSend]
    rcases sendStep net' r with ⟨net'', reason | reason⟩
    · exact ⟨rfl, rfl, rfl⟩
    · exact ⟨rfl, rfl, rfl⟩

theorem attempts_target (rounds : Nat) (target : Bytes) : ∀ (c : HttpClient) (net : Net) (r : Request),
    (attempts rounds c net { r with target := target }).2.2.2 = (attempts rounds c net r).2.2.2 := by
  induction rounds with
  | zero => exact fun _ _ _ => rfl
  | succ rounds ih =>
    intro c net r
    obtain ⟨hClient, hNet, hResult⟩ := attempt_target c net r target
    rw [attempts, attempts]
    rcases hOther : attempt c net { r with target := target } with ⟨c', net', log, result⟩
    rcases hSame : attempt c net r with ⟨c'', net'', log', result'⟩
    rw [hOther, hSame] at hClient hNet hResult
    obtain ⟨rfl, rfl, rfl⟩ : c' = c'' ∧ net' = net'' ∧ result = result' := ⟨hClient, hNet, hResult⟩
    cases result with
    | none => exact ih c' net' r
    | some outcome => rfl

def requestLine (r : Request) : Bytes := r.methodName ++ ascii " " ++ r.target ++ ascii " HTTP/1.1\r\n"

/-- What a round leaves of where the client connects, and the request it may
have sent. -/
theorem attempt_frame (c : HttpClient) (net : Net) (r : Request) :
    (attempt c net r).client.host = c.host ∧ (attempt c net r).client.port = c.port ∧
      ∀ e ∈ (attempt c net r).log, requestLine r <+: e.request := by
  have hConnected : ∀ {c' net' outcome}, connectStep c net = (c', net', outcome) → c'.host = c.host ∧
    c'.port = c.port := by
    intro c' net' outcome h
    rw [connectStep] at h
    split at h
    · obtain ⟨rfl, _⟩ := Prod.mk.inj h
      exact ⟨rfl, rfl⟩
    · dsimp only at h
      split at h
      · obtain ⟨rfl, _⟩ := Prod.mk.inj h
        exact ⟨rfl, rfl⟩
      · obtain ⟨rfl, _⟩ := Prod.mk.inj h
        exact ⟨rfl, rfl⟩
  obtain ⟨c', net', err, hConnect, hEq⟩ | ⟨c', net', conn, reason, result, hConnect, hEq, _, _⟩ |
    ⟨c', net', conn, hConnect, _, hEq⟩ := attempt_cases c net r
  · rw [hEq]
    exact ⟨(hConnected hConnect).1, (hConnected hConnect).2, fun e he => absurd he List.not_mem_nil⟩
  · rw [hEq]
    exact ⟨(hConnected hConnect).1, (hConnected hConnect).2, fun e he => absurd he List.not_mem_nil⟩
  · rw [hEq]
    refine ⟨(hConnected hConnect).1, (hConnected hConnect).2, ?_⟩
    intro e he
    obtain rfl := List.mem_singleton.mp he
    change requestLine r <+: requestHead c' r ++ r.body
    have hHost : ascii " HTTP/1.1\r\nHost: " = ascii " HTTP/1.1\r\n" ++ ascii "Host: " := by decide
    rw [requestHead, requestLine, hHost]
    simp only [List.append_assoc]
    apply (List.prefix_append_right_inj _).mpr
    apply (List.prefix_append_right_inj _).mpr
    apply (List.prefix_append_right_inj _).mpr
    exact List.prefix_append _ _

theorem attemptsDials_host (rounds : Nat) : ∀ (c : HttpClient) (net : Net) (r : Request),
    ∀ d ∈ attemptsDials rounds c net r, d = (c.host, c.port) := by
  induction rounds with
  | zero => exact fun _ _ _ d hd => absurd hd List.not_mem_nil
  | succ rounds ih =>
    intro c net r d hd
    obtain ⟨hHost, hPort, _⟩ := attempt_frame c net r
    rw [attemptsDials] at hd
    obtain hd | hd := List.mem_append.mp hd
    · split at hd
      · exact List.mem_singleton.mp hd
      · exact absurd hd List.not_mem_nil
    · rcases hAttempt : attempt c net r with ⟨c', net', log, result⟩
      rw [hAttempt] at hHost hPort hd
      cases result with
      | some outcome => exact absurd hd List.not_mem_nil
      | none =>
        have hLater := ih c' net' r d hd
        rw [hLater, ← hHost, ← hPort]

theorem attempts_requests (rounds : Nat) : ∀ (c : HttpClient) (net : Net) (r : Request),
    ∀ e ∈ (attempts rounds c net r).2.2.1, requestLine r <+: e.request := by
  induction rounds with
  | zero => exact fun _ _ _ e he => absurd he List.not_mem_nil
  | succ rounds ih =>
    intro c net r e he
    have hSent := (attempt_frame c net r).2.2
    rw [attempts] at he
    rcases hAttempt : attempt c net r with ⟨c', net', log, result⟩
    rw [hAttempt] at hSent he
    cases result with
    | some outcome => exact hSent e he
    | none =>
      obtain he | he := List.mem_append.mp he
      · exact hSent e he
      · exact ih c' net' r e he

/-! ## The request line -/

/-- The first line of what was sent. -/
def sentLine (request : Bytes) : Bytes := dropCr (svChopByDelim 10 request).1

theorem svChopByDelim_fst (d : UInt8) (s : Bytes) : (svChopByDelim d s).1 = s.takeWhile (· ≠ d) := by
  induction s with
  | nil => rfl
  | cons b s ih =>
    rw [svChopByDelim]
    split
    · rename_i hEq
      rw [List.takeWhile_cons_of_neg (by simpa using hEq)]
    · rename_i hNe
      rw [List.takeWhile_cons_of_pos (by simpa using hNe), ih]

theorem dropCr_isPrefixOf (s : Bytes) : dropCr s <+: s := by
  rw [dropCr]
  split
  · exact List.dropLast_prefix s
  · exact List.prefix_refl s

theorem dropCr_cr (s : Bytes) : dropCr (s ++ [13]) = s := by
  rw [dropCr, List.getLast?_concat, if_pos rfl, List.dropLast_concat]

theorem dropCr_append_cons (front : Bytes) {b : UInt8} (hb : b ≠ 13) (s : Bytes) :
    dropCr (front ++ b :: s) = front ++ b :: dropCr s := by
  by_cases hNil : s = []
  · subst hNil
    rw [dropCr, List.getLast?_concat, if_neg fun hEq => hb (Option.some.inj hEq)]
    rfl
  · obtain ⟨init, last, rfl⟩ : ∃ init last, s = init ++ [last] :=
      ⟨_, _, (List.dropLast_append_getLast hNil).symm⟩
    have hAssoc : front ++ b :: (init ++ [last]) = (front ++ b :: init) ++ [last] := by simp
    rw [hAssoc, dropCr, dropCr, List.getLast?_concat, List.getLast?_concat]
    split
    · rw [List.dropLast_concat, List.dropLast_concat]
    · exact hAssoc.symm

theorem prefix_of_not_mem {p t z : Bytes} {b : UInt8} (h : p <+: t ++ b :: z) (hb : b ∉ p) : p <+: t := by
  obtain hLeft | ⟨q, rfl⟩ := List.prefix_or_prefix_of_prefix h (List.prefix_append t (b :: z))
  · exact hLeft
  · rw [List.prefix_append_right_inj] at h
    cases q with
    | nil =>
      rewrite [List.append_nil]
      exact List.prefix_refl t
    | cons c q =>
      rw [(List.cons_prefix_cons.mp h).1] at hb
      exact absurd (List.mem_append_right _ List.mem_cons_self) hb

/-- A name that can stand in a request line. -/
def NameOk (methodName : Bytes) : Prop := methodName ≠ [] ∧ 32 ∉ methodName ∧ 10 ∉ methodName

instance (methodName : Bytes) : Decidable (NameOk methodName) := inferInstanceAs (Decidable (_ ∧ _ ∧ _))

theorem nameOk_of_method {method : HttpMethod} {methodName : Bytes}
    (h : httpMethodName method = some methodName) :
    NameOk methodName := by
  cases method with
  | unknown => cases h
  | get | post | put | delete | patch | head | options =>
    obtain rfl := Option.some.inj h
    decide

theorem sent_target {r : Request} {request : Bytes} {req got : HttpRequest} (hName : NameOk r.methodName)
    (h : requestLine r <+: request) (hParse : parseRequestLine req (sentLine request) = some got) :
    got.target <+: r.target ∧ got.target ≠ [] ∧ 32 ∉ got.target ∧ 10 ∉ got.target := by
  obtain ⟨extra, rfl⟩ := h
  obtain ⟨_, hBlank, hLf⟩ := hName
  have hRequest : requestLine r ++ extra = r.methodName ++
    32 :: (r.target ++ 32 :: (ascii "HTTP/1.1\r\n" ++ extra)) := by
    have hVersion : ascii " HTTP/1.1\r\n" = 32 :: ascii "HTTP/1.1\r\n" := by decide
    have hOne : ascii " " = [32] := by decide
    rw [requestLine, hVersion, hOne]
    simp
  have hLine : sentLine (requestLine r ++ extra) =
      r.methodName ++
      32 :: dropCr ((r.target ++ 32 :: (ascii "HTTP/1.1\r\n" ++ extra)).takeWhile (· ≠ 10)) := by
    rw [sentLine, hRequest, svChopByDelim_fst, List.takeWhile_append_of_pos,
      List.takeWhile_cons_of_pos (by decide),
      dropCr_append_cons _ (by decide)]
    intro b hb
    exact decide_eq_true fun hEq => hLf (by rw [← hEq]; exact hb)
  rw [hLine, parseRequestLine, svChopByDelim_append 32 _ _ hBlank] at hParse
  dsimp only at hParse
  split at hParse
  · cases hParse
  · rename_i hOk
    rw [not_or, not_or] at hOk
    obtain rfl := Option.some.inj hParse
    change (svChopByDelim 32 _).1 <+: r.target ∧ (svChopByDelim 32 _).1 ≠ [] ∧ 32 ∉ (svChopByDelim 32 _).1 ∧
      10 ∉ (svChopByDelim 32 _).1
    have hSome := hOk.2.1
    rw [svChopByDelim_fst] at hSome ⊢
    have hBlanks : 32 ∉
      (dropCr ((r.target ++ 32 :: (ascii "HTTP/1.1\r\n" ++ extra)).takeWhile (· ≠ 10))).takeWhile (· ≠ 32) :=
      fun hMem => absurd (List.mem_takeWhile_imp hMem) (by decide)
    have hUpTo :
      (dropCr ((r.target ++ 32 :: (ascii "HTTP/1.1\r\n" ++ extra)).takeWhile (· ≠ 10))).takeWhile (· ≠ 32) <+:
        (r.target ++ 32 :: (ascii "HTTP/1.1\r\n" ++ extra)).takeWhile (· ≠ 10) :=
      (List.takeWhile_prefix _).trans (dropCr_isPrefixOf _)
    refine ⟨prefix_of_not_mem (hUpTo.trans (List.takeWhile_prefix _)) hBlanks, hSome, hBlanks, ?_⟩
    intro hMem
    exact absurd (List.mem_takeWhile_imp (hUpTo.subset hMem)) (by decide)

theorem parse_sentLine {r : Request} {request : Bytes} (req : HttpRequest) (hName : NameOk r.methodName)
    (h : requestLine r <+: request) (hSome : r.target ≠ []) (hBlank : 32 ∉ r.target) (hLf : 10 ∉ r.target) :
    ∃ got, parseRequestLine req (sentLine request) = some got ∧ got.target = r.target := by
  obtain ⟨extra, rfl⟩ := h
  obtain ⟨hNameSome, hNameBlank, hNameLf⟩ := hName
  have hRequest : requestLine r ++
    extra = (r.methodName ++ 32 :: (r.target ++ 32 :: ascii "HTTP/1.1") ++ [13]) ++ 10 :: extra := by
    have hVersion : ascii " HTTP/1.1\r\n" = 32 :: ascii "HTTP/1.1" ++ [13, 10] := by decide
    have hOne : ascii " " = [32] := by decide
    rw [requestLine, hVersion, hOne]
    simp
  have hVersionLf : 10 ∉ ascii "HTTP/1.1" := by decide
  have hNot : 10 ∉ r.methodName ++ 32 :: (r.target ++ 32 :: ascii "HTTP/1.1") ++ [13] := by
    simp only [List.mem_append, List.mem_cons, List.mem_nil_iff, or_false, not_or]
    exact ⟨⟨hNameLf, by decide, hLf, by decide, hVersionLf⟩, by decide⟩
  have hLine : sentLine (requestLine r ++ extra) = r.methodName ++
    32 :: (r.target ++ 32 :: ascii "HTTP/1.1") := by
    rw [sentLine, hRequest, svChopByDelim_append 10 _ _ hNot, dropCr_cr]
  have hVersion : svChopByDelim 32 (ascii "HTTP/1.1") = (ascii "HTTP/1.1", []) := by decide
  rw [hLine, parseRequestLine, svChopByDelim_append 32 _ _ hNameBlank]
  dsimp only
  rw [svChopByDelim_append 32 _ _ hBlank]
  dsimp only
  rw [hVersion]
  dsimp only
  rw [if_neg]
  · exact ⟨_, rfl, rfl⟩
  · rintro (hEmpty | hEmpty | hRest)
    · exact hNameSome hEmpty
    · exact hSome hEmpty
    · exact absurd hRest (by decide)

/-! ## Where a target leads -/

theorem splitAt_fst_isPrefixOf (s : Bytes) (c : UInt8) : (splitAt s c).1 <+: s := by
  rw [splitAt]
  split
  · exact List.prefix_refl s
  · exact List.take_prefix _ s

theorem head?_of_prefix {s t : Bytes} {b : UInt8} (h : s <+: t) (hb : s.head? = some b) :
    t.head? = some b := by
  obtain ⟨u, rfl⟩ := h
  rw [List.head?_append, hb]
  rfl

theorem uriParse_host {text : Bytes} {u : Uri} (h : uriParse text = some u) (hHost : u.host ≠ []) :
    text.head? ≠ some 47 ∧ u.path.head? = some 47 := by
  rw [uriParse] at h
  dsimp only at h
  have hPrefix : (splitAt (splitAt text 35).1 63).1 <+: text :=
    (splitAt_fst_isPrefixOf _ _).trans (splitAt_fst_isPrefixOf _ _)
  generalize (splitAt (splitAt text 35).1 63).1 = rest at h hPrefix
  generalize (splitAt (splitAt text 35).1 63).2 = query at h
  generalize (splitAt text 35).2 = fragment at h
  have hNoScheme : some (⟨[], [], [], if rest = [] then ascii "/" else rest, query, fragment⟩ : Uri) ≠
    some u := by
    intro hEq
    rw [← Option.some.inj hEq] at hHost
    exact hHost rfl
  split at h
  · exact absurd h hNoScheme
  · rename_i colon hColon
    split at h
    · split at h
      · rename_i hScheme
        obtain ⟨hp, _, rfl⟩ := Option.map_eq_some_iff.mp h
        constructor
        · intro hSlash
          cases hTake : rest.take colon with
          | nil =>
            rw [hTake] at hScheme
            cases hScheme
          | cons c scheme =>
            rw [hTake, schemeOk, Bool.and_eq_true] at hScheme
            have hHead :=
              head?_of_prefix ((List.take_prefix colon rest).trans hPrefix)
                (by rw [hTake]; exact List.head?_cons)
            rw [hSlash] at hHead
            rw [← Option.some.inj hHead] at hScheme
            exact absurd hScheme.1 (by decide)
        · dsimp only
          split
          · rfl
          · rename_i slash hSlash
            obtain ⟨hLt, hAt, _⟩ := List.findIdx?_eq_some_iff_getElem.mp hSlash
            rw [List.head?_drop, List.getElem?_eq_getElem hLt]
            exact congrArg some (beq_iff_eq.mp hAt)
      · cases h
    · exact absurd h hNoScheme

/-- What resolving a target can come to: the base and the target as it is, or
a host of the target's own. -/
theorem resolveTarget_cases {c c' : HttpClient} {raw target : Bytes}
    (h : resolveTarget c raw = (c', .ok target)) :
    (c' = c ∧ target = raw ∧ raw.head? = some 47 ∧ schemeMark raw = none) ∨
      (raw.head? ≠ some 47 ∧ target.head? = some 47) := by
  rw [resolveTarget] at h
  split at h
  · split at h
    · cases (Prod.mk.inj h).2
    · rename_i u hParse
      split at h
      · cases (Prod.mk.inj h).2
      · rename_i hHost
        obtain ⟨hLetter, hSlash⟩ := uriParse_host hParse hHost
        split at h
        · cases (Prod.mk.inj h).2
        · split at h
          · cases (Prod.mk.inj h).2
          · split at h
            · cases (Prod.mk.inj h).2
            · refine .inr ⟨hLetter, ?_⟩
              rw [← Except.ok.inj (Prod.mk.inj h).2]
              split
              · exact hSlash
              · rw [List.head?_append, hSlash]
                rfl
  · rename_i hRelative
    split at h
    · cases (Prod.mk.inj h).2
    · rename_i hSlash
      split at h
      · cases (Prod.mk.inj h).2
      · obtain ⟨rfl, hTarget⟩ := Prod.mk.inj h
        rw [ne_eq, Decidable.not_not] at hSlash
        refine .inl ⟨rfl, (Except.ok.inj hTarget).symm, hSlash, ?_⟩
        rw [looksAbsolute] at hRelative
        split at hRelative
        · rename_i hNone
          exact hNone
        · rename_i i hMark
          have hZero : i = 0 := by
            by_contra hPos
            exact hRelative (decide_eq_true (Nat.pos_of_ne_zero hPos))
          rw [schemeMark, List.findIdx?_eq_some_iff_getElem] at hMark
          obtain ⟨hLt, hAt, _⟩ := hMark
          subst hZero
          rw [List.getElem_tails, List.drop_zero, List.isPrefixOf_iff_prefix] at hAt
          have hColon := head?_of_prefix hAt rfl
          rw [hSlash] at hColon
          exact absurd hColon (by decide)

theorem resolveTarget_slash {c : HttpClient} {raw : Bytes} (hHost : c.host ≠ [])
    (hSlash : raw.head? = some 47)
    (hMark : schemeMark raw = none) : resolveTarget c raw = (c, .ok raw) := by
  rw [resolveTarget, looksAbsolute, hMark]
  dsimp only
  rw [if_neg Bool.false_ne_true, if_neg (by rw [hSlash]; exact fun h => h rfl), if_neg hHost]

/-! ## The proxy -/

/-- A client as it is opened for one request. -/
structure Fresh (c : HttpClient) : Prop where
  sock : c.sock = none
  host : c.host ≠ []
  opens : c.opens = 0
  rbuf : c.rbuf = []
  sent : c.sent = 0
  redirects : c.redirects = 0

theorem fresh_of_open {base : Bytes} {c : HttpClient} (h : httpClientOpen (some base) = some c) :
    Fresh (httpClientSetRedirects c 0) := by
  rw [httpClientOpen] at h
  split at h
  · cases h
  · split at h
    · rename_i hHost
      obtain ⟨port, _, rfl⟩ := Option.map_eq_some_iff.mp h
      exact ⟨rfl, hHost.2.1, rfl, rfl, rfl, rfl⟩
    · cases h

theorem httpClientReq_eq {c : HttpClient} (h : Fresh c) (net : Net) (url : Bytes) (method : HttpMethod)
    (extraHeaders body : Bytes) :
    (httpClientReq c net url method extraHeaders body).2.2.1 =
        (doRequest c net (svFromCstr url) method (svFromCstr extraHeaders) body).2.2.1 ∧
      (httpClientReq c net url method extraHeaders body).2.2.2.2 =
        (doRequest c net (svFromCstr url) method (svFromCstr extraHeaders) body).2.2.2.2 ∧
      ((httpClientReq c net url method extraHeaders body).2.2.2.2 = true →
        (httpClientReq c net url method extraHeaders body).2.2.2.1 =
          { (doRequest c net (svFromCstr url) method
              (svFromCstr extraHeaders) body).2.2.2.1 with redirects := 0 }) := by
  rw [httpClientReq, h.redirects, followRedirects]
  rcases doRequest c net (svFromCstr url) method (svFromCstr extraHeaders) body with
    ⟨c', net', log, out, ok | ok⟩
  · exact ⟨rfl, rfl, fun h => absurd h Bool.false_ne_true⟩
  · dsimp only
    split
    · exact ⟨rfl, rfl, fun _ => rfl⟩
    · exact ⟨rfl, rfl, fun _ => rfl⟩

theorem Fresh.resolved {c c' : HttpClient} {raw target : Bytes} (h : Fresh c)
    (hTarget : resolveTarget c raw = (c', .ok target)) :
    Fresh c' := by
  rw [resolveTarget] at hTarget
  split at hTarget
  · split at hTarget
    · cases (Prod.mk.inj hTarget).2
    · split at hTarget
      · cases (Prod.mk.inj hTarget).2
      · rename_i hHost
        split at hTarget
        · cases (Prod.mk.inj hTarget).2
        · split at hTarget
          · cases (Prod.mk.inj hTarget).2
          · split at hTarget
            · cases (Prod.mk.inj hTarget).2
            · obtain ⟨rfl, _⟩ := Prod.mk.inj hTarget
              refine ⟨?_, hHost, h.opens, h.rbuf, h.sent, h.redirects⟩
              dsimp only
              split
              · exact h.sock
              · rfl
  · split at hTarget
    · cases (Prod.mk.inj hTarget).2
    · split at hTarget
      · cases (Prod.mk.inj hTarget).2
      · obtain ⟨rfl, _⟩ := Prod.mk.inj hTarget
        exact h

/-- Only the upstream is connected to, its request line carries the target, and
the answer is the one it has for the root. -/
structure Confined (base : Bytes) (up : HttpClient) (req : HttpRequest) (net : Net)
    (res : HttpResponse) : Prop where
  dials : ∀ d ∈ (httpReverseProxy base req net res).dials, d = (up.host, up.port)
  target : ∀ e ∈ (httpReverseProxy base req net res).log,
    ∃ got, parseRequestLine emptyRequest (sentLine e.request) = some got ∧ got.target = req.target
  answer : (httpReverseProxy base req net res).res =
    (httpReverseProxy base { req with target := ascii "/" } net res).res

/-- The target starts with a slash, has no scheme mark, and is one word. -/
def PlainTarget (target : Bytes) : Prop :=
  target.head? = some 47 ∧ schemeMark target = none ∧ 0 ∉ target ∧ 32 ∉ target ∧ 10 ∉ target

instance (target : Bytes) : Decidable (PlainTarget target) := inferInstanceAs (Decidable (_ ∧ _ ∧ _ ∧ _ ∧ _))

/-- An upstream that takes the connection and the request and has no content. -/
def acceptingNet : Net := ⟨[none], [none, none], [.data (ascii "HTTP/1.1 204 No Content\r\n\r\n")]⟩

theorem attempts_accepting {c : HttpClient} (h : Fresh c) (r : Request) :
    (attempts 2 c acceptingNet r).2.2.2.2 = true ∧ (attempts 2 c acceptingNet r).2.2.2.1.status = 204 ∧
      (attempts 2 c acceptingNet r).2.2.1 ≠ [] := by
  have hReads : ∀ method, (readResponse ⟨1, 1⟩ method ⟨[], acceptingNet.recvs⟩).ok = true ∧
      (readResponse ⟨1, 1⟩ method ⟨[], acceptingNet.recvs⟩).out.status = 204 := by
    intro method
    cases method with
    | unknown | get | post | put | delete | patch | head | options => decide +kernel
  have hConnect : connectStep c acceptingNet =
      ({ c with opens := 1, sock := some 1 }, ⟨[], [none, none], acceptingNet.recvs⟩, .ok 1) := by
    rw [connectStep, h.sock, h.opens]
    rfl
  obtain ⟨sends, hSend⟩ : ∃ sends, sendStep ⟨[], [none, none], acceptingNet.recvs⟩ r =
    (⟨[], sends, acceptingNet.recvs⟩, none) := by
    rw [sendStep]
    change ∃ sends, (if r.body = [] then ((⟨[], [none], acceptingNet.recvs⟩ : Net), (none : Option Bytes))
      else (⟨[], [], acceptingNet.recvs⟩, none)) = _
    split
    · exact ⟨_, rfl⟩
    · exact ⟨_, rfl⟩
  have hAttempt : attempt c acceptingNet r =
      sentAttempt { c with opens := 1, sock := some 1 } ⟨[], sends, acceptingNet.recvs⟩ r 1 false := by
    rw [attempt, hConnect, h.sock]
    dsimp only
    rw [hSend]
    rfl
  obtain ⟨hOk, hStatus⟩ := hReads r.method
  have hGot : readResponse ⟨1, c.sent + 1⟩ r.method ⟨c.rbuf, acceptingNet.recvs⟩ =
      readResponse ⟨1, 1⟩ r.method ⟨[], acceptingNet.recvs⟩ := by
    rw [h.sent, h.rbuf]
  rw [attempts, hAttempt, sentAttempt]
  dsimp only
  rw [hGot, hOk]
  exact ⟨rfl, hStatus, List.cons_ne_nil _ _⟩

theorem proxy_of_resolved {base : Bytes} {c c' : HttpClient} {req : HttpRequest} {methodName target : Bytes}
    (hOpen : httpClientOpen (some base) = some c)
    (hMethod : httpMethodName (proxyMethod req.method) = some methodName)
    (hTarget : resolveTarget (httpClientSetRedirects c 0) (svFromCstr req.target) = (c', .ok target))
    (net : Net) (res : HttpResponse) :
    let r : Request :=
      ⟨proxyMethod req.method, methodName, target, svFromCstr (forwardedText req.headers), req.body⟩
    httpReverseProxy base req net res =
      ⟨if (attempts 2 c' net r).2.2.2.2 then relay res { (attempts 2 c' net r).2.2.2.1 with redirects :=
      0 } else badGateway res,
        attemptsDials 2 c' net r, (attempts 2 c' net r).2.2.1⟩ := by
  intro r
  have hRequest : doRequest (httpClientSetRedirects c 0) net (svFromCstr req.target) (proxyMethod req.method)
      (svFromCstr (forwardedText req.headers)) req.body = attempts 2 c' net r := by
    rw [doRequest, hMethod, hTarget]
  have hDials : requestDials (httpClientSetRedirects c 0) net (svFromCstr req.target) (proxyMethod req.method)
      (svFromCstr (forwardedText req.headers)) req.body = attemptsDials 2 c' net r := by
    rw [requestDials, hMethod, hTarget]
  obtain ⟨hLog, hOk, hOut⟩ := httpClientReq_eq (fresh_of_open hOpen) net req.target (proxyMethod req.method)
    (forwardedText req.headers) req.body
  rw [hRequest] at hLog hOk hOut
  rw [httpReverseProxy, hOpen]
  dsimp only
  rw [hDials, hLog, hOk]
  cases hDone : (attempts 2 c' net r).2.2.2.2 with
  | false => rfl
  | true =>
    rw [hDone] at hOk
    rw [hOut hOk]

theorem proxy_of_refused {base : Bytes} {c c' : HttpClient} {req : HttpRequest} {err : Bytes}
    (hOpen : httpClientOpen (some base) = some c)
    (hTarget : resolveTarget (httpClientSetRedirects c 0) (svFromCstr req.target) = (c', .error err))
    (net : Net) (res : HttpResponse) :
    (httpReverseProxy base req net res).res = badGateway res := by
  obtain ⟨_, hOk, _⟩ := httpClientReq_eq (fresh_of_open hOpen) net req.target (proxyMethod req.method)
    (forwardedText req.headers) req.body
  have hFailed : (doRequest (httpClientSetRedirects c 0) net (svFromCstr req.target) (proxyMethod req.method)
      (svFromCstr (forwardedText req.headers)) req.body).2.2.2.2 = false := by
    rw [doRequest, hTarget]
    split
    · rfl
    · rfl
  rw [hFailed] at hOk
  rw [httpReverseProxy, hOpen]
  dsimp only
  rw [hOk]
  rfl

theorem relay_status (res : HttpResponse) (got : HttpClientResult) : (relay res got).status = got.status := by
  rw [relay]
  split
  · rfl
  · rfl

theorem svFromCstr_isPrefixOf (s : Bytes) : svFromCstr s <+: s := List.takeWhile_prefix _

/-- The proxy is confined on every network exactly for the plain targets. -/
theorem confined_iff {base : Bytes} {c : HttpClient} (hOpen : httpClientOpen (some base) = some c)
    {req : HttpRequest}
    {methodName : Bytes} (hMethod : httpMethodName (proxyMethod req.method) =
      some methodName) (res : HttpResponse) :
    (∀ net, Confined base c req net res) ↔ PlainTarget req.target := by
  have hFresh := fresh_of_open hOpen
  have hSlash : resolveTarget (httpClientSetRedirects c 0) (svFromCstr (ascii "/")) =
    (httpClientSetRedirects c 0, .ok (ascii "/")) :=
    resolveTarget_slash hFresh.host (by decide) (by decide)
  have hRoot := fun net =>
    @proxy_of_resolved base c _ { req with target := ascii "/" } methodName _ hOpen hMethod hSlash net res
  have hName := nameOk_of_method hMethod
  constructor
  · intro h
    obtain ⟨_, hTargets, hAnswer⟩ := h acceptingNet
    cases hResolved : resolveTarget (httpClientSetRedirects c 0) (svFromCstr req.target) with
    | mk c' outcome =>
      cases outcome with
      | error err =>
        -- a refused target is answered 502, where the root gets the upstream's 204
        obtain ⟨hDone, hStatus, _⟩ := attempts_accepting hFresh
          ⟨proxyMethod req.method, methodName, ascii "/", svFromCstr (forwardedText req.headers), req.body⟩
        rw [proxy_of_refused hOpen hResolved, hRoot] at hAnswer
        dsimp only at hAnswer
        rw [if_pos hDone] at hAnswer
        have hCodes := congrArg HttpResponse.status hAnswer
        rw [relay_status] at hCodes
        exact absurd (hCodes.trans hStatus) (by change ¬ (502 : Nat) = 204; decide)
      | ok target =>
        have hProxy := proxy_of_resolved hOpen hMethod hResolved acceptingNet res
        rw [hProxy] at hTargets
        obtain ⟨_, _, hSent⟩ := attempts_accepting (hFresh.resolved hResolved)
          ⟨proxyMethod req.method, methodName, target, svFromCstr (forwardedText req.headers), req.body⟩
        obtain ⟨e, he⟩ := List.exists_mem_of_ne_nil _ hSent
        obtain ⟨got, hParse, hGot⟩ := hTargets e he
        obtain ⟨hUpTo, hSome, hBlank, hLf⟩ := sent_target hName (attempts_requests 2 _ _ _ e he) hParse
        rw [hGot] at hUpTo hSome hBlank hLf
        obtain ⟨b, tail, hCons⟩ := List.exists_cons_of_ne_nil hSome
        obtain ⟨_, rfl, hSlashed, hMark⟩ | ⟨hOther, hSlashed⟩ := resolveTarget_cases hResolved
        · -- the target was cut off at a NUL unless it is what was sent
          have hCstr := (svFromCstr_isPrefixOf req.target).eq_of_length_le hUpTo.length_le
          have hNul := not_mem_svFromCstr req.target
          rw [hCstr] at hSlashed hMark hNul
          exact ⟨hSlashed, hMark, hNul, hBlank, hLf⟩
        · -- a URL starts with a letter, and what was sent for it with a slash
          exfalso
          have hHead := head?_of_prefix hUpTo (by rw [hCons]; exact List.head?_cons)
          rw [hSlashed] at hHead
          apply hOther
          rw [hCons, ← Option.some.inj hHead]
          rfl
  · rintro ⟨hSlash, hMark, hNul, hBlank, hLf⟩ net
    have hCstr := svFromCstr_of_not_mem hNul
    have hResolved : resolveTarget (httpClientSetRedirects c 0) (svFromCstr req.target) =
        (httpClientSetRedirects c 0, .ok req.target) := by
      rw [hCstr]
      exact resolveTarget_slash hFresh.host hSlash hMark
    have hProxy := proxy_of_resolved hOpen hMethod hResolved net res
    refine ⟨?_, ?_, ?_⟩
    · rw [hProxy]
      exact attemptsDials_host 2 _ _ _
    · rw [hProxy]
      intro e he
      apply parse_sentLine emptyRequest hName (attempts_requests 2 _ _ _ e he) _ hBlank hLf
      intro hNil
      change req.target = [] at hNil
      rw [hNil] at hSlash
      cases hSlash
    · rw [hProxy, hRoot]
      dsimp only
      have hSame := attempts_target 2 (ascii "/") (httpClientSetRedirects c 0) net
        ⟨proxyMethod req.method, methodName, req.target, svFromCstr (forwardedText req.headers), req.body⟩
      dsimp only at hSame
      rw [hSame]

def requestOfLine (text : Bytes) : HttpRequest := (parseRequestLine emptyRequest text).getD emptyRequest

def upstream : Bytes := ascii "http://upstream:8080"

theorem confined_page :
    (parseRequestLine emptyRequest (ascii "GET /page?id=1 HTTP/1.1")).isSome = true ∧
      ∀ net, Confined upstream ⟨none, ascii "upstream", 8080, 0, 5, [], 0⟩
        (requestOfLine (ascii "GET /page?id=1 HTTP/1.1")) net
        httpResponseInit := by
  refine ⟨by decide, ?_⟩
  apply (@confined_iff upstream ⟨none, ascii "upstream", 8080, 0, 5, [], 0⟩ (by decide)
    (requestOfLine (ascii "GET /page?id=1 HTTP/1.1")) (ascii "GET") (by decide) httpResponseInit).mpr
  decide

/-- A URL in the query makes the proxy refuse, and a URL for a target makes it
connect where the URL says. -/
theorem target_not_confined :
    (parseRequestLine emptyRequest (ascii "GET /go?to=http://a/ HTTP/1.1")).isSome = true ∧
      (httpReverseProxy upstream
        (requestOfLine (ascii "GET /go?to=http://a/ HTTP/1.1")) acceptingNet httpResponseInit).dials = [] ∧
      (httpReverseProxy upstream (requestOfLine (ascii "GET /go?to=http://a/ HTTP/1.1")) acceptingNet
        httpResponseInit).res.status = 502 ∧
      (httpReverseProxy upstream
        (requestOfLine (ascii "GET /go?to=a HTTP/1.1")) acceptingNet httpResponseInit).res.status = 204 ∧
      (parseRequestLine emptyRequest (ascii "GET http://10.0.0.1:9/ HTTP/1.1")).isSome = true ∧
      (routePathMatches (ascii "/*")
        (requestOfLine (ascii "GET http://10.0.0.1:9/ HTTP/1.1")).path strmapInit).1 = true ∧
      (httpReverseProxy upstream
        (requestOfLine (ascii "GET http://10.0.0.1:9/ HTTP/1.1")) acceptingNet httpResponseInit).dials =
        [(ascii "10.0.0.1", 9)] := by
  decide +kernel

end Cweb.Proxy
