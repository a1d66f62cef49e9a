import Cweb.Http.Server

/-!
# What follows malformed chunks

A request whose chunks are malformed is answered 400 and released, and then the
pass goes on as if it had been staged: the handler is called with what is left of
the request, and the connection stays open.
-/

namespace Cweb

open Sv H2 Loop

variable {env : ServerEnv}

/-! ## The events of a turn -/

/-- A turn adds events among which no malformed chunks are. -/
def Quiet (m : Conn) (t : Turn Conn) : Prop := ∃ events, t.state.trace = m.trace ++ events ∧
    .badChunks ∉ events

/-- The handler is called first, and the rest of the turn is quiet. -/
def Calls (m : Conn) (t : Turn Conn) : Prop :=
  ∃ req events, t.state.trace = m.trace ++ .called req :: events ∧ .badChunks ∉ events

theorem quiet_same {m : Conn} {t : Turn Conn} (h : t.state.trace = m.trace) : Quiet m t :=
  ⟨[], by rw [h, List.append_nil], List.not_mem_nil⟩

theorem quiet_one {m : Conn} {t : Turn Conn} {e : Event} (h : t.state.trace = m.trace ++ [e])
    (he : e ≠ .badChunks) : Quiet m t :=
  ⟨[e], h, fun hMem => he (List.mem_singleton.mp hMem).symm⟩

theorem Quiet.of_trace {m m' : Conn} {t : Turn Conn} (h : Quiet m' t) (hTrace : m'.trace = m.trace) :
    Quiet m t := by
  obtain ⟨events, hEvents, hNot⟩ := h
  exact ⟨events, by rw [hEvents, hTrace], hNot⟩

theorem Quiet.trans {m m' : Conn} {t : Turn Conn} (h : Quiet m (.again m')) (hNext : Quiet m' t) :
    Quiet m t := by
  obtain ⟨events, hEvents, hNot⟩ := h
  obtain ⟨events', hEvents', hNot'⟩ := hNext
  change m'.trace = m.trace ++ events at hEvents
  refine ⟨events ++ events', by rw [hEvents', hEvents, List.append_assoc], ?_⟩
  intro hMem
  obtain hMem | hMem := List.mem_append.mp hMem
  · exact hNot hMem
  · exact hNot' hMem

theorem Quiet.after {m m' : Conn} {t : Turn Conn} {e : Event} (h : Quiet m' t)
    (hTrace : m'.trace = m.trace ++ [e])
    (he : e ≠ .badChunks) : Quiet m t := by
  obtain ⟨events, hEvents, hNot⟩ := h
  refine ⟨e :: events, by rw [hEvents, hTrace, List.append_assoc, List.singleton_append], ?_⟩
  intro hMem
  obtain hEq | hMem := List.mem_cons.mp hMem
  · exact he hEq.symm
  · exact hNot hMem

theorem Calls.quiet {m : Conn} {t : Turn Conn} (h : Calls m t) : Quiet m t := by
  obtain ⟨req, events, hEvents, hNot⟩ := h
  refine ⟨_, hEvents, ?_⟩
  intro hMem
  obtain hEq | hMem := List.mem_cons.mp hMem
  · cases hEq
  · exact hNot hMem

theorem sendError_quiet (m : Conn) (status : Nat) : Quiet m (.leave (sendError env m status)) :=
  quiet_one rfl nofun

theorem fillMore_quiet (m : Conn) : Quiet m (fillMore env m) := by
  rw [fillMore]
  split
  · rw [stalled]
    split
    · exact quiet_one rfl nofun
    · exact quiet_same rfl
  · exact quiet_same rfl
  · exact quiet_same rfl

theorem handOver_quiet (m : Conn) (req : Option HttpRequest) (consumed : Nat) :
    Quiet m (handOver m req consumed) :=
  quiet_one rfl nofun

theorem callHandler_calls (m : Conn) (req : HttpRequest) (consumed : Nat) :
    Calls m (callHandler env m req consumed) := by
  rw [callHandler]
  dsimp only
  split
  · split
    · exact ⟨_, [.wrote _], List.append_assoc _ _ _, by simp⟩
    · exact ⟨_, [.wrote _, .upgraded _], (List.append_assoc _ _ _).trans (List.append_assoc _ _ _), by simp⟩
  · split
    · exact ⟨_, [.endless], List.append_assoc _ _ _, by simp⟩
    · split
      · exact ⟨_, [.wrote _], List.append_assoc _ _ _, by simp⟩
      · exact ⟨_, [.wrote _], List.append_assoc _ _ _, by simp⟩

theorem dispatch_quiet (m : Conn) (req : HttpRequest) (consumed : Nat) :
    Quiet m (dispatch env m req consumed) := by
  rw [dispatch]
  split
  · exact handOver_quiet m _ consumed
  · split
    · split
      · exact sendError_quiet m 400
      · exact sendError_quiet m 413
      · exact (callHandler_calls m _ consumed).quiet
    · exact (callHandler_calls m req consumed).quiet

theorem dispatch_released (m : Conn) {req : HttpRequest} (h : req.headers = []) (consumed : Nat) :
    Calls m (dispatch env m req consumed) := by
  have hNone : ∀ name, httpRequestGetHeader req name = none := by
    intro name
    rw [httpRequestGetHeader, h]
    rfl
  have hToken : ∀ name token, headerHasToken req name token = false := by
    intro name token
    rw [headerHasToken, hNone]
  have hUpgrade : h2IsUpgradeRequest req = false := by
    rw [h2IsUpgradeRequest, hToken]
    rfl
  have hGzip : isGzip req = false := by
    rw [isGzip, hToken, hToken]
    rfl
  rw [dispatch, if_neg (by rw [hUpgrade]; exact fun hBoth => Bool.false_ne_true hBoth.2),
    if_neg (by rw [hGzip]; exact Bool.false_ne_true)]
  exact callHandler_calls m req consumed

/-- A round is quiet, up to the dispatch of what it stages. -/
def QuietPass (m : Conn) : Pass → Prop
  | .next t => Quiet m t
  | .staged m' _ _ => Quiet m (.again m')

theorem QuietPass.after {m m' : Conn} {pass : Pass} {e : Event} (h : QuietPass m' pass)
    (hTrace : m'.trace = m.trace ++ [e])
    (he : e ≠ .badChunks) : QuietPass m pass := by
  cases pass with
  | next t => exact Quiet.after h hTrace he
  | staged m'' req consumed => exact Quiet.after h hTrace he

theorem drainPass_quiet (m : Conn) (sp : Spill) : QuietPass m (drainPass env m sp) := by
  rw [drainPass]
  dsimp only
  split
  · rw [stalled]
    split
    · exact quiet_one rfl nofun
    · exact quiet_same rfl
  · exact quiet_same rfl
  · split
    · exact (sendError_quiet _ 500).of_trace rfl
    · split
      · rw [spillDone]
        split
        · exact quiet_same rfl
        · exact (sendError_quiet _ 500).of_trace rfl
      · exact quiet_same rfl

theorem readOn_quiet (m : Conn) (req : HttpRequest) : Quiet m (readOn env m req) := by
  rw [readOn]
  split
  · split
    · exact quiet_one rfl nofun
    · split
      · rw [spillStart]
        split
        · exact sendError_quiet m 500
        · exact quiet_same rfl
      · exact sendError_quiet m 413
  · exact fillMore_quiet m

theorem incompleteTurn_quiet (m : Conn) (req : HttpRequest) : Quiet m (incompleteTurn env m req) := by
  rw [incompleteTurn]
  dsimp only
  split
  · split
    · exact sendError_quiet m 417
    · split
      · split
        · exact quiet_one rfl nofun
        · split
          · exact sendError_quiet m 413
          · exact (readOn_quiet _ req).after rfl nofun
      · exact readOn_quiet m req
  · exact readOn_quiet m req

/-- Malformed chunks are answered, and what is left of the request is staged. -/
def FallsPass (m : Conn) (pass : Pass) : Prop :=
  ∃ m' req consumed before answer, pass = .staged m' req consumed ∧ req.headers = [] ∧
    m'.trace = m.trace ++ before ++ [.badChunks] ++ [.wrote answer] ∧ .badChunks ∉ before

theorem FallsPass.after {m m' : Conn} {pass : Pass} {e : Event} (h : FallsPass m' pass)
    (hTrace : m'.trace = m.trace ++ [e])
    (he : e ≠ .badChunks) : FallsPass m pass := by
  obtain ⟨m'', req, consumed, before, answer, hPass, hHeaders, hEvents, hNot⟩ := h
  refine ⟨m'', req, consumed, e :: before, answer, hPass, hHeaders, ?_, ?_⟩
  · rw [hEvents, hTrace, List.append_assoc m.trace, List.singleton_append]
  · intro hMem
    obtain hEq | hMem := List.mem_cons.mp hMem
    · exact he hEq.symm
    · exact hNot hMem

theorem unfoldedPass_cases (m : Conn) (req : HttpRequest) (consumed : Nat) (moved : Bytes → ReadBuffer)
    (held : ReadBuffer → Bytes) (unfolded : Unfolded) :
    QuietPass m (unfoldedPass env m req consumed moved held unfolded) ∨
      FallsPass m (unfoldedPass env m req consumed moved held unfolded) := by
  cases unfolded with
  | complete payload left overread => exact .inl (quiet_same rfl)
  | incomplete payload =>
    left
    rw [unfoldedPass]
    dsimp only
    split
    · exact (sendError_quiet _ 413).of_trace rfl
    · exact (fillMore_quiet _).of_trace rfl
  | malformed payload =>
    exact .inr ⟨_, _, _, [], _, rfl, rfl, by rw [List.append_nil]; rfl, List.not_mem_nil⟩
  | wild => exact .inl (quiet_one rfl nofun)

theorem overreadPass_cases (m : Conn) : QuietPass m (overreadPass env m) ∨
    FallsPass m (overreadPass env m) := by
  have hMark : (m.log [.overread]).trace = m.trace ++ [.overread] := rfl
  rw [overreadPass]
  split
  · exact .inl ((sendError_quiet _ 400).after hMark nofun)
  · rename_i req consumed _
    split
    · exact (unfoldedPass_cases (m.log [.overread]) req consumed _ _ _).imp (·.after hMark nofun)
        (·.after hMark nofun)
    · exact .inl (quiet_one rfl nofun)

theorem servePass_cases (m : Conn) : QuietPass m (servePass env m) ∨ FallsPass m (servePass env m) := by
  rw [servePass]
  split
  · left
    change Quiet m (sniffTurn env m)
    rw [sniffTurn]
    split
    · exact fillMore_quiet m
    · split
      · exact fillMore_quiet m
      · split
        · exact handOver_quiet m none _
        · exact quiet_same rfl
  · exact .inl (drainPass_quiet m _)
  · rw [parsePass]
    split
    · exact .inl (incompleteTurn_quiet m _)
    · exact .inl (sendError_quiet m 400)
    · exact overreadPass_cases m
    · split
      · exact unfoldedPass_cases m _ _ _ _ _
      · exact .inl (quiet_same rfl)

/-- Malformed chunks are answered, and then the handler is called. -/
def Falls (m : Conn) (t : Turn Conn) : Prop :=
  ∃ before answer req events, t.state.trace = m.trace ++ before ++
    .badChunks :: .wrote answer :: .called req :: events ∧
    .badChunks ∉ before ∧ .badChunks ∉ events

theorem serveTurn_cases (m : Conn) : Quiet m (serveTurn env m) ∨ Falls m (serveTurn env m) := by
  have hPass := @servePass_cases env m
  rw [serveTurn]
  split
  · rename_i t hNext
    rw [hNext] at hPass
    obtain hQuiet | ⟨_, _, _, _, _, hStaged, _⟩ := hPass
    · exact .inl hQuiet
    · cases hStaged
  · rename_i m' req consumed hStaged
    rw [hStaged] at hPass
    obtain hQuiet | ⟨_, _, _, before, answer, hEq, hHeaders, hTrace, hBefore⟩ := hPass
    · exact .inl (hQuiet.trans (dispatch_quiet m' req consumed))
    · right
      obtain ⟨rfl, rfl, rfl⟩ := Pass.staged.inj hEq
      obtain ⟨called, events, hEvents, hNot⟩ := @dispatch_released env m' req hHeaders consumed
      refine ⟨before, answer, called, events, ?_, hBefore, hNot⟩
      rw [hEvents, hTrace]
      exact (List.append_assoc _ _ _).trans (List.append_assoc _ _ _)

/-! ## Runs -/

/-- Behind malformed chunks there is one answer and nothing else. -/
def RejectedOnce (trace : List Event) : Prop :=
  ∀ before after, trace = before ++ .badChunks :: after → ∃ answer, after = [.wrote answer]

/-- Behind malformed chunks there is an answer and a call of the handler. -/
def FallsThrough (trace : List Event) : Prop :=
  ∀ before after, trace = before ++ .badChunks :: after → ∃ answer req events,
    after = .wrote answer :: .called req :: events

theorem FallsThrough.append {trace events : List Event} (h : FallsThrough trace)
    (hQuiet : .badChunks ∉ events) :
    FallsThrough (trace ++ events) := by
  intro before after hEq
  obtain ⟨mid, rfl, rfl⟩ | ⟨mid, rfl, hMid⟩ := List.append_eq_append_iff.mp hEq
  · exact absurd (List.mem_append_right _ List.mem_cons_self) hQuiet
  · cases mid with
    | nil =>
      rw [List.nil_append] at hMid
      exact absurd (by rw [← hMid]; exact List.mem_cons_self) hQuiet
    | cons e mid =>
      obtain ⟨rfl, rfl⟩ := List.cons.inj hMid
      obtain ⟨answer, req, rest, rfl⟩ := h before mid rfl
      exact ⟨answer, req, rest ++ events, rfl⟩

theorem Falls.through {m : Conn} {t : Turn Conn} (h : Falls m t) (hBefore : FallsThrough m.trace) :
    FallsThrough t.state.trace := by
  obtain ⟨quiet, answer, req, events, hEvents, hQuiet, hNot⟩ := h
  have hBefore := hBefore.append hQuiet
  intro before after hEq
  rw [hEvents] at hEq
  obtain ⟨mid, rfl, hMid⟩ | ⟨mid, hTrace, hMid⟩ := List.append_eq_append_iff.mp hEq
  · cases mid with
    | nil => exact ⟨answer, req, events, (List.cons.inj hMid).2.symm⟩
    | cons e mid =>
      have hLater : .badChunks ∈ mid ++ .badChunks :: after := List.mem_append_right _ List.mem_cons_self
      have hTail : .wrote answer :: .called req :: events = mid ++ .badChunks :: after :=
        (List.cons.inj hMid).2
      rw [← hTail] at hLater
      obtain hEq | hLater := List.mem_cons.mp hLater
      · cases hEq
      · obtain hEq | hLater := List.mem_cons.mp hLater
        · cases hEq
        · exact absurd hLater hNot
  · cases mid with
    | nil => exact ⟨answer, req, events, (List.cons.inj hMid).2⟩
    | cons e mid =>
      obtain ⟨rfl, rfl⟩ := List.cons.inj hMid
      obtain ⟨answer', req', rest, rfl⟩ := hBefore before mid hTrace
      exact ⟨answer', req', _, rfl⟩

theorem serveTurn_through {m : Conn} (h : FallsThrough m.trace) :
    FallsThrough (serveTurn env m).state.trace := by
  obtain ⟨events, hEvents, hNot⟩ | hFalls := @serveTurn_cases env m
  · rw [hEvents]
    exact h.append hNot
  · exact hFalls.through h

theorem runs_through {arrivals : List Arrival} {m : Conn} (h : Runs env arrivals m) :
    FallsThrough m.trace := by
  have hServes : ∀ {m}, Serves env arrivals m → FallsThrough m.trace := by
    intro m hServes
    refine Visits.invariant (P := fun m => FallsThrough m.trace) hServes ?_ ?_
    · intro before after hEq
      exact absurd hEq.symm (List.append_ne_nil_of_right_ne_nil _ (List.cons_ne_nil _ _))
    · intro m₁ m₂ _ hBefore hTurn
      have hAfter := @serveTurn_through env m₁ hBefore
      rw [hTurn] at hAfter
      exact hAfter
  obtain hServes' | ⟨m', hServes', hLeave⟩ := h
  · exact hServes hServes'
  · have hAfter := @serveTurn_through env m' (hServes hServes')
    rw [hLeave] at hAfter
    exact hAfter

/-- In no run are malformed chunks answered once and for all. -/
theorem rejected_once_iff {arrivals : List Arrival} {m : Conn} (h : Runs env arrivals m) :
    RejectedOnce m.trace ↔ .badChunks ∉ m.trace := by
  constructor
  · intro hOnce hMem
    obtain ⟨before, after, hEq⟩ := List.append_of_mem hMem
    obtain ⟨answer, hAfter⟩ := hOnce before after hEq
    obtain ⟨answer', req, events, hThrough⟩ := runs_through h before after hEq
    rw [hAfter] at hThrough
    exact absurd (List.cons.inj hThrough).2 (List.cons_ne_nil _ _).symm
  · intro hNot before after hEq
    rw [hEq] at hNot
    exact absurd (List.mem_append_right _ List.mem_cons_self) hNot

/-! ## A request behind malformed chunks -/

/-- A server that answers every request with an empty page. -/
def pageEnv : ServerEnv where
  handler _ := httpResponseInit
  writeOk _ := true
  date _ := ascii "Thu, 01 Jan 1970 00:00:00 GMT"
  inflate bytes _ := .ok bytes
  maxBody := 65536
  maxInflated := 65536
  remote := ascii "127.0.0.1"
  config := none
  tls := false
  routeTimeout _ := false
  producerCalls := 0
  fresh := []
  canOpen := true
  canWrite _ := true
  canMap := true

def hiddenRequest : Bytes :=
  ascii "POST /a HTTP/1.1\r\nTransfer-Encoding: chunked\r\n\r\nGET /b HTTP/1.1\r\n\r\n"

def hiddenRun : Conn := run (serveTurn pageEnv) 10 (serveStart pageEnv [.data hiddenRequest])

theorem rejected_once_hidden : Runs pageEnv [.data hiddenRequest] hiddenRun ∧
    ¬ RejectedOnce hiddenRun.trace := by
  have hRuns : Runs pageEnv [.data hiddenRequest] hiddenRun := run_visits 10 _
  refine ⟨hRuns, ?_⟩
  rw [rejected_once_iff hRuns]
  decide +kernel

/-- The handler is called with the refused request, and with its body as the
next one. -/
theorem malformed_chunks_dispatched :
    ¬ RejectedOnce hiddenRun.trace ∧ hiddenRun.trace.head? = some .badChunks ∧
      hiddenRun.calls.map HttpRequest.target = [ascii "/a", ascii "/b"] := by
  have hHead : hiddenRun.trace = [] ++ .badChunks :: hiddenRun.trace.tail := by decide +kernel
  refine ⟨?_, by decide +kernel, by decide +kernel⟩
  intro hOnce
  obtain ⟨answer, hAfter⟩ := hOnce _ _ hHead
  have hLength := congrArg List.length hAfter
  exact absurd hLength (by rw [List.length_singleton]; decide +kernel)

end Cweb
