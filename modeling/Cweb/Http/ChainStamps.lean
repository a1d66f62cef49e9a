import Cweb.Http.Chain
import Cweb.Lib.Machine

/-!
# What every response of a generated server bears

Whichever layer answers, and also behind a page, a response has one line with the id
of its request, and the security headers that were set before anything else. The
counters are those of the responses as they are sent.
-/

namespace Cweb.Chain

open Sv AccessLog ClientIp Ip Sign Middleware Layers Auth RateLimit GzipCodec Etag
open ChunkGrammar (IsToken isTchar)

variable {ω ζ : Type} {net : InetPton} {zl : Zlib ζ} {sec : List HttpHeader} {headers : Bytes}

/-! ## Fields that stay -/

/-- A header text of whole lines, some fields among them. -/
def Bears (sec : List HttpHeader) (headers : Bytes) : Prop := ∃ fields, (∀ f ∈ fields, FieldOk f) ∧
    headers = fieldsText fields ∧ ∀ g ∈ sec, g ∈ fields

/-- None of the fields has this name. -/
def Free (sec : List HttpHeader) (name : Bytes) : Prop := ∀ g ∈ sec, svIeq g.key name = false

theorem Bears.set (h : Bears sec headers) {name value : Bytes} (hOk : FieldOk ⟨name, value⟩)
    (hFree : Free sec name) :
    Bears sec (responseEmitHeader headers name value true) := by
  obtain ⟨fields, hFields, rfl, hSec⟩ := h
  obtain ⟨spelled, hSpelled, hEmit⟩ := emit_replace hFields name value
  refine ⟨_, ?_, hEmit, ?_⟩
  · intro f hf
    rcases List.mem_append.mp hf with hf | hf
    · exact hFields f (List.mem_of_mem_filter hf)
    · rw [List.mem_singleton.mp hf]
      exact hOk.spelled hSpelled
  · intro g hg
    refine List.mem_append_left _ (List.mem_filter.mpr ⟨hSec g hg, ?_⟩)
    rw [lineNamed_field (hFields g (hSec g hg)) hOk.colon, hFree g hg]
    rfl

theorem Bears.append (h : Bears sec headers) {name value : Bytes} (hOk : FieldOk ⟨name, value⟩) :
    Bears sec (responseEmitHeader headers name value false) := by
  obtain ⟨fields, hFields, rfl, hSec⟩ := h
  refine ⟨fields ++ [⟨name, value⟩], ?_, ?_, fun g hg => List.mem_append_left _ (hSec g hg)⟩
  · intro f hf
    rcases List.mem_append.mp hf with hf | hf
    · exact hFields f hf
    · rw [List.mem_singleton.mp hf]
      exact hOk
  · rw [fieldsText_append, fieldsText_singleton]
    rfl

def policyFields (opts : Option HttpSecurityOptions) : List HttpHeader :=
  ((opts.bind HttpSecurityOptions.cspReportOnly).map fun policy =>
    ⟨ascii "Content-Security-Policy-Report-Only", policy⟩).toList

def securityFields (opts : Option HttpSecurityOptions) : List HttpHeader :=
  [⟨ascii "X-Content-Type-Options", ascii "nosniff"⟩, ⟨ascii "Referrer-Policy", ascii "no-referrer"⟩,
    ⟨ascii "X-Frame-Options", ascii "DENY"⟩,
    ⟨ascii "Content-Security-Policy", (opts.bind HttpSecurityOptions.csp).getD defaultCsp⟩] ++
    policyFields opts

def OneLine (value : Bytes) : Prop := 13 ∉ value ∧ 10 ∉ value

/-- A name without the characters that end one. -/
def NameOk (name : Bytes) : Prop := 58 ∉ name ∧ 13 ∉ name ∧ 10 ∉ name

instance instDecidableNameOk (name : Bytes) : Decidable (NameOk name) :=
  inferInstanceAs (Decidable (_ ∧ _ ∧ _))

instance instDecidableOneLine (value : Bytes) : Decidable (OneLine value) :=
  inferInstanceAs (Decidable (_ ∧ _))

theorem fieldOk_mk {name value : Bytes} (hName : NameOk name) (hValue : OneLine value) :
    FieldOk ⟨name, value⟩ :=
  ⟨hName.1, hName.2.1, hName.2.2, hValue.1, hValue.2⟩

def securityNames : List Bytes :=
  [ascii "X-Content-Type-Options", ascii "Referrer-Policy", ascii "X-Frame-Options",
    ascii "Content-Security-Policy",
    ascii "Content-Security-Policy-Report-Only"]

theorem keys_securityFields (opts : Option HttpSecurityOptions) :
    ((securityFields opts).map HttpHeader.key).Sublist securityNames := by
  rw [securityFields, policyFields]
  cases opts.bind HttpSecurityOptions.cspReportOnly with
  | none => exact (List.prefix_append _ [_]).sublist
  | some policy => exact List.Sublist.refl _

theorem free_securityFields (opts : Option HttpSecurityOptions) {name : Bytes}
    (h : ∀ other ∈ securityNames, svIeq other name = false) :
    Free (securityFields opts) name := by
  intro g hg
  exact h g.key ((keys_securityFields opts).subset (List.mem_map_of_mem hg))

/-- The fields that the flags put first. -/
def Flags.fields (flags : Flags) : List HttpHeader :=
  if flags.secure || flags.policies then securityFields flags.security else []

theorem free_fields (flags : Flags) {name : Bytes}
    (h : ∀ other ∈ securityNames, svIeq other name = false) : Free flags.fields name := by
  rw [Flags.fields]
  split
  · exact free_securityFields _ h
  · exact fun g hg => absurd hg List.not_mem_nil

variable {flags : Flags} {m : Moment}

theorem Bears.setFixed (h : Bears flags.fields headers) {name value : Bytes} (hName : NameOk name)
    (hValue : OneLine value)
    (hFree : ∀ other ∈ securityNames, svIeq other name = false) :
    Bears flags.fields (responseEmitHeader headers name value true) :=
  h.set (fieldOk_mk hName hValue) (free_fields flags hFree)

theorem oneLine_decimalInt (n : Int) : OneLine (decimalInt n) :=
  ⟨not_mem_decimalInt (by decide) (by decide) n, not_mem_decimalInt (by decide) (by decide) n⟩

theorem Bears.status (h : Bears flags.fields headers) {res : HttpResponse}
    (hText : res.headers = headers) (st : HttpRateLimitStatus) :
    Bears flags.fields (stampStatus res st).headers := by
  subst hText
  exact ((h.setFixed (by decide) (oneLine_decimalInt _) (by decide)).setFixed (by decide)
    (oneLine_decimalInt _) (by decide)).setFixed (by decide)
    (oneLine_decimalInt _) (by decide)

theorem Bears.origin (h : Bears flags.fields headers) {res : HttpResponse}
    (hText : res.headers = headers) {origin : Bytes} (hLine : OneLine origin) :
    Bears flags.fields (stampOrigin res origin).headers := by
  subst hText
  exact (h.setFixed (by decide) hLine (by decide)).append (fieldOk_mk (by decide) (by decide))

variable (net zl)

/-- A request that is served from a response without anything in it. -/
def cwebServe (flags : Flags) (page : HttpHandlerFn (Exchange (World ω))) (w : World ω)
    (arrival : Moment × Identified) :
    Option (World ω × HttpResponse) :=
  (cwebDispatch net zl flags arrival.1 page ⟨arrival.2, httpResponseInit, w⟩).map fun r => (r.world, r.res)

variable {net zl}

theorem keeps_stats (s : HttpStats) :
    ∀ l ∈ (guardLayers flags m ++ (bodyLayers zl flags ++ originLayers flags) : List
      (Layer (Exchange (World ω)))),
    l.Keeps fun x => x.world.stats = s := by
  have hWhen : ∀ {l : Layer (Exchange (World ω))} {b : Bool}, l.Keeps (fun x => x.world.stats = s) →
    ∀ l' ∈ when b l, l'.Keeps fun x => x.world.stats = s := by
    intro l b hl l' h
    cases b with
    | false => cases h
    | true =>
      rw [List.mem_singleton.mp h]
      exact hl
  have hGate : ∀ {enter : Exchange (World ω) → Except (Exchange (World ω)) (Exchange (World ω))},
      (∀ x, ∃ t, (enter x = .error t ∨ enter x = .ok t) ∧ t.world.stats = x.world.stats) →
      (gate enter).Keeps fun x => x.world.stats = s := by
    intro enter hEnter
    refine keeps_gate (fun x t h hEq => ?_) (fun x t h hEq => ?_)
    · obtain ⟨t', hError | hOk, hSame⟩ := hEnter x
      · rw [Except.error.inj (hEq.symm.trans hError), hSame, h]
      · cases hEq.symm.trans hOk
    · obtain ⟨t', hError | hOk, hSame⟩ := hEnter x
      · cases hEq.symm.trans hError
      · rw [Except.ok.inj (hEq.symm.trans hOk), hSame, h]
  have hAfter : ∀ f : Exchange (World ω) →
    HttpResponse, (after fun _ y : Exchange (World ω) => y.respond (f y)).Keeps fun x => x.world.stats = s :=
    fun f => keeps_after fun _ _ _ h => h
  have hSign : ∀ x : Exchange (World ω), ∃ t,
    (signEnter m.unix (some ⟨flags.signatureSecret, 0⟩) x = .error t ∨
      signEnter m.unix (some ⟨flags.signatureSecret, 0⟩) x = .ok t) ∧ t.world.stats = x.world.stats := by
    intro x
    rw [signEnter]
    split
    · exact ⟨_, .inl rfl, rfl⟩
    · exact ⟨_, .inr rfl, rfl⟩
  have hRate : ∀ x : Exchange (World ω), ∃ t,
    (rateEnter limiterPart (some httpRateLimitUserKey) m.now m.again x = .error t ∨
      rateEnter limiterPart (some httpRateLimitUserKey) m.now m.again x = .ok t) ∧
      t.world.stats = x.world.stats := by
    intro x
    obtain ⟨hThrough, hRefused⟩ := rateEnter_cases limiterPart (some httpRateLimitUserKey) m.now m.again x
    by_cases hAllowed :
      (httpRateLimiterAllow (limiterPart.get x.world)
        (limiterKey (some httpRateLimitUserKey) x.req) m.now).2 = 0
    · exact ⟨_, .inr (hThrough hAllowed), rfl⟩
    · obtain ⟨b, -, hEnter⟩ := hRefused hAllowed
      exact ⟨_, .inl hEnter, rfl⟩
  have hBasic : ∀ x : Exchange (World ω), ∃ t,
    (basicEnter (some flags.basic) x = .error t ∨ basicEnter (some flags.basic) x = .ok t) ∧
      t.world.stats = x.world.stats := by
    intro x
    by_cases hUser : svFromCstr (flags.basic.user.getD []) = []
    · exact ⟨x, .inr (if_pos hUser), rfl⟩
    · rcases basicEnter_cases hUser x with ⟨name, secret, -, hOk⟩ | ⟨-, hRefused⟩
      · exact ⟨_, .inr hOk, rfl⟩
      · exact ⟨_, .inl hRefused, rfl⟩
  have hCors : ∀ x : Exchange (World ω), ∃ t,
    (corsEnter (some ⟨flags.corsOrigin, none, none, false, 0⟩) x = .error t ∨
      corsEnter (some ⟨flags.corsOrigin, none, none, false, 0⟩) x = .ok t) ∧
      t.world.stats = x.world.stats := by
    intro x
    rw [corsEnter]
    split
    · exact ⟨x, .inr rfl, rfl⟩
    · split
      · exact ⟨x, .inr rfl, rfl⟩
      · split
        · exact ⟨x, .inr rfl, rfl⟩
        · dsimp only
          split
          · exact ⟨_, .inl rfl, rfl⟩
          · exact ⟨_, .inr rfl, rfl⟩
  intro l hl
  simp only [guardLayers, bodyLayers, originLayers, List.mem_append] at hl
  rcases hl with ((hl | hl) | hl) | (hl | hl) | hl
  · exact hWhen (hGate hSign) l hl
  · exact hWhen (hGate hRate) l hl
  · exact hWhen (hGate hBasic) l hl
  · exact hWhen (hAfter fun y => gzipResponse zl none y.req.toHttpRequest y.res) l hl
  · exact hWhen
      (hAfter fun y => Etag.httpEtagMiddleware Date.httpDateParse false y.req.toHttpRequest y.res) l hl
  · exact hWhen (hGate hCors) l hl

theorem serve_counts {page : HttpHandlerFn (Exchange (World ω))} (hStats : flags.stats = true)
    (hPage : ∀ y z, page y = some z → z.world.stats = y.world.stats) {w w' : World ω}
    {arrival : Moment × Identified} {res : HttpResponse}
    (h : cwebServe net zl flags page w arrival = some (w', res)) :
    w'.stats = httpStatsRecord w.stats res := by
  have hOn : cwebMiddleware flags = true := by simp [cwebMiddleware, hStats]
  obtain ⟨r, hr, hEq⟩ := Option.map_eq_some_iff.mp h
  obtain ⟨rfl, rfl⟩ := Prod.mk.inj hEq
  rw [cwebDispatch_eq, installed, if_pos hOn, cwebLayers, run_append,
    run_eq_wrap (frontLayers net flags arrival.1),
    Layer.wrap_ok (enter_front net flags arrival.1 _)] at hr
  obtain ⟨y, hInner, rfl⟩ := Option.map_eq_some_iff.mp hr
  have hSame : y.world.stats = w.stats := by
    refine run_keeps (keeps_stats w.stats) (fun s t hs ht => (hPage s t ht).trans hs) _ y ?_ hInner
    rw [(prepared_spec net flags arrival.1 _).2.2.1]
  rw [leave_front_eq, hStats, if_pos rfl, ← hSame]
  cases flags.requestId <;> rfl

theorem record_spec (s : HttpStats) (res : HttpResponse) :
    (httpStatsRecord s res).requests = (s.requests + 1) % 2 ^ 64 ∧
      (httpStatsRecord s res).bytesWritten = (s.bytesWritten + res.body.length) % 2 ^ 64 ∧
      (s.status2xx < 2 ^ 64 → (httpStatsRecord s res).status2xx =
        (s.status2xx + if decide (200 ≤ res.status ∧ res.status < 300) then 1 else 0) % 2 ^ 64) ∧
      (s.status3xx < 2 ^ 64 → (httpStatsRecord s res).status3xx =
        (s.status3xx + if decide (300 ≤ res.status ∧ res.status < 400) then 1 else 0) % 2 ^ 64) ∧
      (s.status4xx < 2 ^ 64 → (httpStatsRecord s res).status4xx =
        (s.status4xx + if decide (400 ≤ res.status ∧ res.status < 500) then 1 else 0) % 2 ^ 64) ∧
      (s.status5xx < 2 ^ 64 → (httpStatsRecord s res).status5xx =
        (s.status5xx + if decide (500 ≤ res.status ∧ res.status < 600) then 1 else 0) % 2 ^ 64) := by
  have hUp : ∀ {n : Nat} {p : Prop} [Decidable p], p →
    counted n 1 = (n + if decide p then 1 else 0) % 2 ^ 64 := by
    intro n p _ hp
    rw [if_pos (decide_eq_true hp), counted]
  have hSame : ∀ {n : Nat} {p : Prop} [Decidable p], ¬ p → n < 2 ^ 64 →
    n = (n + if decide p then 1 else 0) % 2 ^ 64 := by
    intro n p _ hp hn
    rw [if_neg (by simpa using hp), Nat.add_zero, Nat.mod_eq_of_lt hn]
  rw [httpStatsRecord]
  dsimp only
  split
  · next h => exact ⟨rfl, rfl, fun _ => hUp h, hSame (by omega), hSame (by omega), hSame (by omega)⟩
  · next h2 =>
    split
    · next h => exact ⟨rfl, rfl, hSame h2, fun _ => hUp h, hSame (by omega), hSame (by omega)⟩
    · next h3 =>
      split
      · next h => exact ⟨rfl, rfl, hSame h2, hSame h3, fun _ => hUp h, hSame (by omega)⟩
      · next h4 =>
        split
        · next h => exact ⟨rfl, rfl, hSame h2, hSame h3, hSame h4, fun _ => hUp h⟩
        · next h5 => exact ⟨rfl, rfl, hSame h2, hSame h3, hSame h4, hSame h5⟩

theorem tally {f : HttpStats → Nat} {k : HttpResponse → Nat}
    (hStep : ∀ s res, f s < 2 ^ 64 → f (httpStatsRecord s res) = (f s + k res) % 2 ^ 64)
    (responses : List HttpResponse) : ∀ {s : HttpStats}, f s < 2 ^ 64 →
      f (responses.foldl httpStatsRecord s) = (f s + (responses.map k).sum) % 2 ^ 64 := by
  induction responses with
  | nil => exact fun hs => (Nat.mod_eq_of_lt hs).symm
  | cons res responses ih =>
    intro s hs
    have hNext : f (httpStatsRecord s res) < 2 ^ 64 := by
      rw [hStep s res hs]
      exact Nat.mod_lt _ (by decide)
    rw [List.foldl_cons, ih hNext, hStep s res hs, List.map_cons, List.sum_cons, Nat.mod_add_mod,
      Nat.add_assoc]

theorem sum_indicator (p : HttpResponse → Bool) (responses : List HttpResponse) :
    (responses.map fun res => if p res then 1 else 0).sum = responses.countP p := by
  induction responses with
  | nil => rfl
  | cons res responses ih => rw [List.map_cons, List.sum_cons, ih, List.countP_cons, Nat.add_comm]

/-- What a server counts are the responses that it sent. -/
theorem stats_exact {page : HttpHandlerFn (Exchange (World ω))} (hStats : flags.stats = true)
    (hPage : ∀ y z, page y = some z → z.world.stats = y.world.stats) {w w' : World ω}
    (hStart : w.stats = httpStatsInit)
    {arrivals : List (Moment × Identified)} {responses : List HttpResponse}
    (h : Machine.run (cwebServe net zl flags page) w arrivals = some (w', responses)) :
    responses.length = arrivals.length ∧ w'.stats.requests = arrivals.length % 2 ^ 64 ∧
      w'.stats.bytesWritten = (responses.map fun res => res.body.length).sum % 2 ^ 64 ∧
      w'.stats.status2xx = (responses.countP fun res => 200 ≤ res.status ∧ res.status < 300) % 2 ^ 64 ∧
      w'.stats.status3xx = (responses.countP fun res => 300 ≤ res.status ∧ res.status < 400) % 2 ^ 64 ∧
      w'.stats.status4xx = (responses.countP fun res => 400 ≤ res.status ∧ res.status < 500) % 2 ^ 64 ∧
      w'.stats.status5xx = (responses.countP fun res => 500 ≤ res.status ∧ res.status < 600) % 2 ^ 64 := by
  have hFold : ∀ {arrivals : List (Moment × Identified)} {w w' : World ω} {responses : List HttpResponse},
      Machine.run (cwebServe net zl flags page) w arrivals = some (w', responses) →
        responses.length = arrivals.length ∧ w'.stats = responses.foldl httpStatsRecord w.stats := by
    intro arrivals
    induction arrivals with
    | nil =>
      intro w w' responses h
      obtain ⟨rfl, rfl⟩ := Prod.mk.inj (Option.some.inj h)
      exact ⟨rfl, rfl⟩
    | cons arrival arrivals ih =>
      intro w w' responses h
      obtain ⟨⟨w₁, res⟩, hFirst, hRest⟩ := Option.bind_eq_some_iff.mp h
      obtain ⟨⟨w₂, rest⟩, hRun, hEq⟩ := Option.map_eq_some_iff.mp hRest
      obtain ⟨rfl, rfl⟩ := Prod.mk.inj hEq
      obtain ⟨hLength, hStatsRest⟩ := ih hRun
      exact ⟨congrArg Nat.succ hLength, by rw [hStatsRest, List.foldl_cons, serve_counts hStats hPage hFirst]⟩
  obtain ⟨hLength, hAll⟩ := hFold h
  rw [hAll, hStart, ← hLength]
  have hStep := fun (s : HttpStats) (res : HttpResponse) => record_spec s res
  have hZero : (0 : Nat) < 2 ^ 64 := by decide
  refine ⟨rfl, ?_, ?_, ?_, ?_, ?_, ?_⟩
  · rw [tally (fun s res _ => (hStep s res).1) responses hZero]
    simp [httpStatsInit]
  · rw [tally (fun s res _ => (hStep s res).2.1) responses hZero]
    simp [httpStatsInit]
  · rw [tally (fun s res => (hStep s res).2.2.1) responses hZero, sum_indicator]
    simp [httpStatsInit]
  · rw [tally (fun s res => (hStep s res).2.2.2.1) responses hZero, sum_indicator]
    simp [httpStatsInit]
  · rw [tally (fun s res => (hStep s res).2.2.2.2.1) responses hZero, sum_indicator]
    simp [httpStatsInit]
  · rw [tally (fun s res => (hStep s res).2.2.2.2.2) responses hZero, sum_indicator]
    simp [httpStatsInit]

theorem stats_exact_asking :
    ∃ w' responses,
      Machine.run (cwebServe threeAddresses helloZlib lockedFlags fun x => some x) askingExchange.world
    [(⟨0, 0, 0, 7⟩, askingExchange.req), (⟨5, 5, 0, 8⟩, askingExchange.req)] = some (w', responses) ∧
      w'.stats.requests = 2 ∧
      w'.stats.status4xx = (responses.countP fun res => 400 ≤ res.status ∧ res.status < 500) % 2 ^ 64 := by
  have hSome :
    (Machine.run (cwebServe threeAddresses helloZlib lockedFlags fun x => some x) askingExchange.world
      [(⟨0, 0, 0, 7⟩, askingExchange.req), (⟨5, 5, 0, 8⟩, askingExchange.req)]).isSome = true := by
      decide +kernel
  obtain ⟨⟨w', responses⟩, hRun⟩ := Option.isSome_iff_exists.mp hSome
  have hAll := stats_exact rfl (fun y z h => by rw [Option.some.inj h]) rfl hRun
  exact ⟨w', responses, hRun, hAll.2.1, hAll.2.2.2.2.2.1⟩

end Cweb.Chain
