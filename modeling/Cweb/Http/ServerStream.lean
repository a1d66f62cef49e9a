import Cweb.Http.Server
import Cweb.Http.SplitParse

/-!
# Requests in a stream

The server without reads and without a buffer: all bytes of the connection are there
from the start, and a turn takes the request they begin with. Of a request whose
head does not tell how long its body is the handler sees the head only. A
connection may show what the stream shows, up to the bytes that are still to come
when another protocol takes over.
-/

namespace Cweb

open Sv H2 Loop

/-! ## Requests without an unmeasured body -/

/-- Whether the head tells where the body ends. -/
def measured (req : HttpRequest) : Bool :=
  (httpRequestGetHeader req (ascii "content-length")).isSome ||
    (httpRequestGetHeader req (ascii "transfer-encoding")).isSome

def HttpRequest.blind (req : HttpRequest) : HttpRequest := if measured req then req
    else { req with body := [] }

theorem blind_of_measured {req : HttpRequest} (h : measured req = true) : req.blind = req := by
  rw [HttpRequest.blind, if_pos h]

theorem blind_body {req : HttpRequest} (h : measured req = false) (body : Bytes) :
    ({ req with body := body } : HttpRequest).blind =
    req.blind := by
  have hSame : measured { req with body := body } = false := h
  rw [HttpRequest.blind, HttpRequest.blind, if_neg (ne_true_of_eq_false h),
    if_neg (ne_true_of_eq_false hSame)]

theorem blind_remote (req : HttpRequest) (remote : Bytes) :
    ({ req with remote := remote } : HttpRequest).blind =
    { req.blind with remote := remote } := by
  have hSame : measured { req with remote := remote } = measured req := rfl
  rw [HttpRequest.blind, HttpRequest.blind, hSame]
  split <;> rfl

theorem blind_method (req : HttpRequest) : req.blind.method = req.method := by
  rw [HttpRequest.blind]
  split <;> rfl

theorem connKeepAlive_blind (req : HttpRequest) : connKeepAlive req.blind = connKeepAlive req := by
  rw [HttpRequest.blind]
  split <;> rfl

theorem h2IsUpgradeRequest_blind (req : HttpRequest) :
    h2IsUpgradeRequest req.blind = h2IsUpgradeRequest req := by
  rw [HttpRequest.blind]
  split <;> rfl

theorem isGzip_blind (req : HttpRequest) : isGzip req.blind = isGzip req := by
  rw [HttpRequest.blind]
  split <;> rfl

/-- The handler does not look at bodies that are not measured. -/
def Blind (env : ServerEnv) : Prop := ∀ calls :
    List HttpRequest, env.handler (calls.map HttpRequest.blind) = env.handler calls

/-- An event with the bytes that are to come once it has happened. -/
def Event.shown (later : Bytes) : Event → Event
  | .called req => .called req.blind
  | .upgraded leftover => .upgraded (leftover ++ later)
  | .handover req leftover => .handover (req.map HttpRequest.blind) (leftover ++ later)
  | e => e

/-! ## The stream -/

structure Stream where
  phase : Phase
  rest : Bytes
  calls : List HttpRequest
  trace : List Event

def Stream.log (s : Stream) (events : List Event) : Stream := { s with trace := s.trace ++ events }

def streamError (env : ServerEnv) (s : Stream) (status : Nat) : Stream :=
  s.log [.wrote (httpResponseSerialize (errorResponse status) (env.date s.calls.length))]

def streamCall (env : ServerEnv) (s : Stream) (req : HttpRequest) (rest : Bytes) : Turn Stream :=
  let keep := connKeepAlive req
  let req := { req with remote := env.remote }
  let calls := s.calls ++ [req]
  let res := { env.handler calls with keepAlive := keep }
  let date := env.date s.calls.length
  let s := { s.log [.called req] with calls := calls, rest := rest }
  if res.upgrade then
    let s := s.log [.wrote (httpResponseSerialize res date)]
    .leave (if env.tls then s else s.log [.upgraded rest])
  else
    match writeResponse res date env.producerCalls (req.method == .head) with
    | none => .leave (s.log [.endless])
    | some wire => if keep then .again (s.log [.wrote wire]) else .leave (s.log [.wrote wire])

def streamDispatch (env : ServerEnv) (s : Stream) (req : HttpRequest) (rest : Bytes) : Turn Stream :=
  if env.tls = false ∧ h2IsUpgradeRequest req then .leave (s.log [.handover (some req) rest])
  else if isGzip req then
    match env.inflate req.body env.maxInflated with
    | .bad => .leave (streamError env s 400)
    | .tooBig => .leave (streamError env s 413)
    | .ok bytes => streamCall env s { req with body := bytes } rest
  else streamCall env s req rest

/-- A stream that breaks off in a request ends there. So does one with chunks that
are malformed. -/
def streamTurn (env : ServerEnv) (s : Stream) : Turn Stream :=
  match s.phase with
  | .sniff =>
    if s.rest.length < 3 ∨ s.rest.take 3 = ascii "PRI" ∧ s.rest.length < h2Magic.length then .leave s
    else if h2Magic.isPrefixOf s.rest then .leave (s.log [.handover none (s.rest.drop h2Magic.length)])
    else .again { s with phase := .serve }
  | .serve =>
    match httpRequestParseAdv s.rest [] with
    | .incomplete _ => .leave s
    | .error => .leave (streamError env s 400)
    | .overread => .leave s
    | .ok req consumed =>
      if httpRequestGetHeader req (ascii "transfer-encoding") = none then
        streamDispatch env s req.blind (s.rest.drop consumed)
      else
        match httpRequestDecodeChunked req [] with
        | .complete payload left _ => streamDispatch env s { req with body := payload } left
        | _ => .leave s

def streamStart (env : ServerEnv) (bytes : Bytes) : Stream :=
  ⟨if env.tls then .serve else .sniff, bytes, [], []⟩

/-! ## A connection and its stream -/

/-- The first trace has what the second has, with 100 Continue in between. -/
inductive Continued : List Event → List Event → Prop where
  | nil : Continued [] []
  | same {e : Event} {trace trace' : List Event} (h : Continued trace trace') : Continued (e :: trace)
    (e :: trace')
  | wait {trace trace' : List Event} (h : Continued trace trace') : Continued
    (.wrote continueText :: trace) trace'

theorem Continued.refl (trace : List Event) : Continued trace trace := by
  induction trace with
  | nil => exact .nil
  | cons e trace ih => exact .same ih

theorem Continued.append {trace trace' : List Event} (h : Continued trace trace') (events : List Event) :
    Continued (trace ++ events) (trace' ++ events) := by
  induction h with
  | nil => exact .refl events
  | same _ ih => exact .same ih
  | wait _ ih => exact .wait ih

theorem Continued.concat {trace trace' : List Event} (h : Continued trace trace') :
    Continued (trace ++ [.wrote continueText]) trace' := by
  induction h with
  | nil => exact .wait .nil
  | same _ ih => exact .same ih
  | wait _ ih => exact .wait ih

/-- The bytes that the peer is still to send. -/
def ahead (arrivals : List Arrival) : Bytes :=
  arrivals.flatMap fun a =>
    match a with
    | .data bytes => bytes
    | _ => []

/-- The connection has done what was done with the stream. -/
structure Agrees (m : Conn) (s : Stream) : Prop where
  reads : ∀ a ∈ m.arrivals, ∃ bytes, a = .data bytes ∧ bytes ≠ []
  phase : m.phase = s.phase
  spill : m.spill = none
  calls : m.calls.map HttpRequest.blind = s.calls
  trace : ∀ later, Continued (m.trace.map (Event.shown later)) s.trace

/-- What is buffered and what is to come is the rest of the stream. -/
structure Shows (m : Conn) (s : Stream) : Prop extends Agrees m s where
  rest : m.rb.view ++ ahead m.arrivals = s.rest

/-- The connection ends as the stream does. -/
structure Ended (m : Conn) (s : Stream) : Prop where
  calls : m.calls.map HttpRequest.blind = s.calls
  trace : Continued (m.trace.map (Event.shown (ahead m.arrivals))) s.trace

theorem Agrees.ended {m : Conn} {s : Stream} (h : Agrees m s) : Ended m s := ⟨h.calls, h.trace _⟩

theorem Agrees.length {m : Conn} {s : Stream} (h : Agrees m s) : m.calls.length = s.calls.length := by
  rw [← h.calls, List.length_map]

theorem Agrees.ended_log {m : Conn} {s : Stream} (h : Agrees m s) {e e' : Event}
    (he : e.shown (ahead m.arrivals) = e') :
    Ended (m.log [e]) (s.log [e']) := by
  refine ⟨h.calls, ?_⟩
  rw [Conn.log, Stream.log, List.map_append, List.map_singleton, he]
  exact (h.trace _).append [e']

theorem Agrees.sendError {m : Conn} {s : Stream} (h : Agrees m s) (env : ServerEnv) (status : Nat) :
    Ended (sendError env m status) (streamError env s status) := by
  rw [Cweb.sendError, streamError, h.length]
  exact h.ended_log rfl

theorem Agrees.of_rb {m : Conn} {s : Stream} (h : Agrees m s) (rb : ReadBuffer) :
    Agrees { m with rb := rb } s :=
  ⟨h.reads, h.phase, h.spill, h.calls, h.trace⟩

theorem Shows.continues {m : Conn} {s : Stream} (h : Shows m s) :
    Shows { m.log [.wrote continueText] with continueSent := true } s := by
  refine ⟨⟨h.reads, h.phase, h.spill, h.calls, fun later => ?_⟩, h.rest⟩
  rw [Conn.log, List.map_append]
  exact (h.trace later).concat

/-- A request is dispatched by both, and `left` is what is buffered behind it. -/
inductive SameTurn (left : Bytes) (arrivals : List Arrival) : Turn Conn → Turn Stream → Prop where
  | again {m : Conn} {s : Stream} (h : Shows m s) (hPhase : m.phase = .serve) (hView : m.rb.view = left)
      (hArrivals : m.arrivals = arrivals) : SameTurn left arrivals (.again m) (.again s)
  | leave {m : Conn} {s : Stream} (h : Ended m s) : SameTurn left arrivals (.leave m) (.leave s)

section Dispatch

variable {env : ServerEnv} {m : Conn} {s : Stream} {req : HttpRequest} {consumed : Nat}

theorem rbDiscard_view (b : ReadBuffer) (n : Nat) : (rbDiscard b n).view = b.view.drop n := by
  rw [rbDiscard]
  dsimp only
  by_cases hLe : n ≤ b.count
  · rw [Nat.min_eq_left hLe]
  · rw [ReadBuffer.count] at hLe
    rw [Nat.min_eq_right (by rw [ReadBuffer.count]; omega), ReadBuffer.count, List.drop_length,
      List.drop_eq_nil_of_le (by omega)]

theorem callHandler_same (hBlind : Blind env) (h : Agrees m s) (hPhase : m.phase = .serve) :
    SameTurn (m.rb.view.drop consumed) m.arrivals (callHandler env m req consumed)
      (streamCall env s req.blind (m.rb.view.drop consumed ++ ahead m.arrivals)) := by
  obtain ⟨seen, hSeen⟩ : ∃ seen : HttpRequest, seen = { req with remote := env.remote } := ⟨_, rfl⟩
  have hShown : seen.blind = { req.blind with remote := env.remote } := by
    rw [hSeen]
    exact blind_remote req env.remote
  have hCalls : (m.calls ++ [seen]).map HttpRequest.blind = s.calls ++ [seen.blind] := by
    rw [List.map_append, h.calls, List.map_singleton]
  have hCalled : Agrees { m.log [.called seen] with calls :=
    m.calls ++ [seen] } { s.log [.called seen.blind] with
      calls := s.calls ++ [seen.blind], rest := m.rb.view.drop consumed ++ ahead m.arrivals } := by
    refine ⟨h.reads, h.phase, h.spill, hCalls, fun later => ?_⟩
    rw [Conn.log, Stream.log, List.map_append, List.map_singleton, Event.shown]
    exact (h.trace later).append [.called seen.blind]
  rw [callHandler, streamCall]
  dsimp only
  rw [connKeepAlive_blind, ← hSeen, ← hShown, ← hCalls, hBlind (m.calls ++ [seen]), hCalls, ← h.length,
    blind_method]
  split
  · apply SameTurn.leave
    split
    · exact hCalled.ended_log rfl
    · refine ⟨hCalled.calls, ?_⟩
      rw [Conn.log, Conn.log, Stream.log, Stream.log, List.map_append, List.map_append]
      exact ((hCalled.trace _).append [.wrote _]).append [.upgraded _]
  · generalize writeResponse _ _ _ _ = out
    cases out with
    | none => exact .leave (hCalled.ended_log rfl)
    | some wire =>
      have hWrote : ∀ later,
        Continued ((m.trace ++ [Event.called seen] ++ [Event.wrote wire]).map (Event.shown later))
          (s.trace ++ [Event.called seen.blind] ++ [Event.wrote wire]) := by
        intro later
        rw [List.map_append]
        exact (hCalled.trace later).append [.wrote wire]
      dsimp only
      split
      · refine .again ⟨⟨h.reads, h.phase, h.spill, hCalls, hWrote⟩, ?_⟩ hPhase (rbDiscard_view _ _) rfl
        exact congrArg (· ++ ahead m.arrivals) (rbDiscard_view _ _)
      · exact .leave ⟨hCalls, hWrote _⟩

/-- A request that is inflated is measured, so that the body is the same. -/
theorem dispatch_same (hBlind : Blind env) (h : Agrees m s) (hPhase : m.phase = .serve)
    (hGzip : measured req = false → isGzip req = false) :
    SameTurn (m.rb.view.drop consumed) m.arrivals (dispatch env m req consumed)
      (streamDispatch env s req.blind (m.rb.view.drop consumed ++ ahead m.arrivals)) := by
  rw [dispatch, streamDispatch, h2IsUpgradeRequest_blind, isGzip_blind]
  split
  · exact .leave (h.ended_log rfl)
  · split
    · rename_i hIs
      have hMeasured : measured req = true := by
        by_contra hNot
        rw [hGzip (Bool.eq_false_iff.mpr hNot)] at hIs
        cases hIs
      rw [blind_of_measured hMeasured]
      cases env.inflate req.body env.maxInflated with
      | bad => exact .leave (h.sendError env 400)
      | tooBig => exact .leave (h.sendError env 413)
      | ok bytes =>
        have hSame := @callHandler_same env m s { req with body := bytes } consumed hBlind h hPhase
        rw [@blind_of_measured { req with body := bytes } hMeasured] at hSame
        exact hSame
    · exact callHandler_same hBlind h hPhase

end Dispatch

end Cweb
