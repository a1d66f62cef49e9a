import Cweb.Http.Server
import Cweb.Http.H2Loop

/-!
# The read buffers of a connection

Reads, unfolding and discarding keep the live bytes within the buffer. Two
places write without a look at its capacity: what came behind a body in a file is
parked behind the head, and what is left at a handover goes to the buffer of the
HTTP/2 loop.
-/

namespace Cweb

open Sv H2 Loop

variable {env : ServerEnv} {arrivals : List Arrival}

/-! ## The buffers of a run -/

/-- The states of the frame loop on a buffer that starts with `rb`. -/
def LoopRuns (env : H2Env) (c : H2Conn) (rb : Bytes) (reads : List Bytes) (l : H2Loop) : Prop :=
  Visits (loopTurn env) (loopStart c rb reads) l ∨
    ∃ l', Visits (loopTurn env) (loopStart c rb reads) l' ∧ loopTurn env l' = .leave l

/-- How many live bytes a read buffer holds and how many it can, in the states
of the HTTP/1.1 loop, when a request is staged, at a handover, and in the states of
the frame loop behind a handover or the negotiation of TLS. -/
inductive HasBuffer (env : ServerEnv) (arrivals : List Arrival) : Nat → Nat → Prop where
  | serving {m : Conn} (h : Runs env arrivals m) : HasBuffer env arrivals m.rb.count m.rb.capacity
  | staged {m m' : Conn} {req : HttpRequest} {consumed : Nat} (h : Serves env arrivals m)
      (hStaged : servePass env m = .staged m' req consumed) : HasBuffer env arrivals m'.rb.count
      m'.rb.capacity
  | handed {m : Conn} {req : Option HttpRequest} {leftover : Bytes} (h : Runs env arrivals m)
      (hOver : .handover req leftover ∈ m.trace) : HasBuffer env arrivals leftover.length h2BufferCap
  | framed {m : Conn} {req : Option HttpRequest} {leftover : Bytes} {c : H2Conn} {reads : List Bytes}
    {l : H2Loop}
      (h : Runs env arrivals m) (hOver : .handover req leftover ∈ m.trace)
        (hStart : h2Start env.toH2Env req = some c)
      (hLoop : LoopRuns env.toH2Env c leftover reads l) : HasBuffer env arrivals l.rb.length h2BufferCap
  | negotiated {c : H2Conn} {reads : List Bytes} {l : H2Loop} (hStart : h2Start env.toH2Env none = some c)
      (hLoop : LoopRuns env.toH2Env c [] reads l) : HasBuffer env arrivals l.rb.length h2BufferCap

/-- What the unchecked writes rely on: the bytes behind a spilled body fit in
behind its head, and at most 64 KiB are left at a handover. -/
structure Roomy (env : ServerEnv) (m : Conn) : Prop where
  surplus : ∀ sp bytes, m.phase = .serve → m.spill = some sp → (ioRecv stageSize m.arrivals).1 = .data bytes →
    (sp.req.contentLength.toNat ≤ sp.written.length ∨ env.canWrite sp.written.length = true) →
      m.rb.count + (bytes.length - (sp.req.contentLength.toNat - sp.written.length)) ≤ m.rb.capacity
  preface : m.phase = .sniff → h2Magic.isPrefixOf m.rb.view = true → m.rb.count ≤ h2BufferCap + h2Magic.length
  upgrade : ∀ m' req consumed, servePass env m = .staged m' req consumed → env.tls = false →
    h2IsUpgradeRequest req = true → m'.rb.count ≤ h2BufferCap + consumed

/-! ## The frame loop -/

theorem loopTurn_rb {env : H2Env} {l : H2Loop} (h : l.rb.length ≤ h2BufferCap) :
    (loopTurn env l).state.rb.length ≤ h2BufferCap := by
  rw [loopTurn]
  split
  · have hShorter : (skipMagic l.rb).length ≤ l.rb.length := by
      rw [skipMagic]
      split
      · rw [List.length_drop]
        omega
      · exact Nat.le_refl _
    rw [headTurn]
    split
    · exact hShorter.trans h
    · exact hShorter.trans h
  · rw [frameTurn]
    split
    · exact h
    · rename_i f rest hPeek
      have hShorter := (h2FramePeek_frame hPeek []).2
      dsimp only
      split
      · change rest.length ≤ _
        omega
      · change rest.length ≤ _
        omega
    · split
      · exact h
      · rw [h2Fill]
        split
        · exact h
        · change (l.rb ++ (netRecv (h2BufferCap - l.rb.length) l.reads).1).length ≤ _
          have hTake : (netRecv (h2BufferCap - l.rb.length) l.reads).1.length ≤
            h2BufferCap - l.rb.length := by
            cases l.reads with
            | nil => exact Nat.zero_le _
            | cons bytes reads =>
              rw [netRecv, List.length_take]
              exact Nat.min_le_left _ _
          rw [List.length_append]
          omega

theorem loopRuns_rb {env : H2Env} {c : H2Conn} {rb : Bytes} {reads : List Bytes} {l : H2Loop}
    (hStart : rb.length ≤ h2BufferCap)
    (h : LoopRuns env c rb reads l) : l.rb.length ≤ h2BufferCap := by
  have hVisits : ∀ {l}, Visits (loopTurn env) (loopStart c rb reads) l → l.rb.length ≤ h2BufferCap := by
    intro l hVisits
    apply Visits.invariant (P := fun l => l.rb.length ≤ h2BufferCap) hVisits hStart
    intro l₁ l₂ _ hBefore hTurn
    have hAfter := @loopTurn_rb env l₁ hBefore
    rw [hTurn] at hAfter
    exact hAfter
  obtain hVisited | ⟨l', hVisited, hLeave⟩ := h
  · exact hVisits hVisited
  · have hAfter := @loopTurn_rb env l' (hVisits hVisited)
    rw [hLeave] at hAfter
    exact hAfter

/-! ## The HTTP/1.1 loop -/

/-- The buffer is within its bounds, and what was handed over as well. -/
structure BuffersOk (m : Conn) : Prop where
  within : m.rb.Within
  handed : ∀ req leftover, .handover req leftover ∈ m.trace → leftover.length ≤ h2BufferCap

theorem BuffersOk.log {m : Conn} (h : BuffersOk m) (e : Event)
    (he : ∀ req leftover, e ≠ .handover req leftover) :
    BuffersOk (m.log [e]) := by
  refine ⟨h.within, ?_⟩
  intro req leftover hMem
  obtain hMem | hMem := List.mem_append.mp hMem
  · exact h.handed req leftover hMem
  · exact absurd (List.mem_singleton.mp hMem).symm (he req leftover)

theorem BuffersOk.sendError {m : Conn} (h : BuffersOk m) (status : Nat) :
    BuffersOk (sendError env m status) := h.log _ nofun

theorem BuffersOk.stalled {m : Conn} (h : BuffersOk m) : BuffersOk (stalled env m) := by
  rw [Cweb.stalled]
  split
  · exact h.sendError _
  · exact h

theorem fillMore_buffers {m : Conn} (h : BuffersOk m) : BuffersOk (fillMore env m).state := by
  have hRead : BuffersOk { m with arrivals := (ioRecv (rbRoom m.rb) m.arrivals).2 } := ⟨h.within, h.handed⟩
  rw [fillMore]
  dsimp only
  split
  · exact hRead.stalled
  · exact hRead
  · exact ⟨rbCommit_within h.within _, h.handed⟩

theorem handOver_buffers {m : Conn} (h : BuffersOk m) (req : Option HttpRequest) {consumed : Nat}
    (hRoom : m.rb.count ≤ h2BufferCap + consumed) : BuffersOk (handOver m req consumed).state := by
  refine ⟨h.within, ?_⟩
  intro req' leftover hMem
  obtain hMem | hMem := List.mem_append.mp hMem
  · exact h.handed req' leftover hMem
  · obtain ⟨_, rfl⟩ := Event.handover.inj (List.mem_singleton.mp hMem)
    rw [ReadBuffer.count] at hRoom
    rw [List.length_drop]
    omega

theorem callHandler_buffers {m : Conn} (h : BuffersOk m) (req : HttpRequest) (consumed : Nat) :
    BuffersOk (callHandler env m req consumed).state := by
  have hCalled : ∀ req calls, BuffersOk { m.log [.called req] with calls := calls } :=
    fun req calls => ⟨h.within, (h.log (.called req) nofun).handed⟩
  have hLast : ∀ req calls wire active sent,
    BuffersOk { Conn.log { m.log [.called req] with calls := calls } [.wrote wire] with
      routeTimeoutActive := active, rb := rbDiscard m.rb consumed, continueSent := sent } :=
    fun req calls wire active sent =>
      ⟨rbDiscard_within h.within consumed, ((hCalled req calls).log (.wrote wire) nofun).handed⟩
  rw [callHandler]
  dsimp only
  split
  · split
    · exact (hCalled _ _).log (.wrote _) nofun
    · exact ((hCalled _ _).log (.wrote _) nofun).log (.upgraded _) nofun
  · split
    · exact (hCalled _ _).log .endless nofun
    · split
      · exact hLast _ _ _ _ _
      · exact hLast _ _ _ _ _

theorem dispatch_buffers {m : Conn} (h : BuffersOk m) {req : HttpRequest} {consumed : Nat}
    (hRoom : env.tls = false → h2IsUpgradeRequest req = true → m.rb.count ≤ h2BufferCap + consumed) :
    BuffersOk (dispatch env m req consumed).state := by
  rw [dispatch]
  split
  · rename_i hUpgrade
    exact handOver_buffers h _ (hRoom hUpgrade.1 hUpgrade.2)
  · split
    · split
      · exact h.sendError 400
      · exact h.sendError 413
      · exact callHandler_buffers h _ consumed
    · exact callHandler_buffers h req consumed

def PassOk : Pass → Prop
  | .next t => BuffersOk t.state
  | .staged m _ _ => BuffersOk m

theorem drainPass_buffers {m : Conn} (h : BuffersOk m) {sp : Spill}
    (hRoom : ∀ bytes, (ioRecv stageSize m.arrivals).1 = .data bytes →
      (sp.req.contentLength.toNat ≤ sp.written.length ∨ env.canWrite sp.written.length = true) →
        m.rb.count + (bytes.length - (sp.req.contentLength.toNat - sp.written.length)) ≤ m.rb.capacity) :
    PassOk (drainPass env m sp) := by
  have hRead : BuffersOk { m with arrivals := (ioRecv stageSize m.arrivals).2 } := ⟨h.within, h.handed⟩
  rw [drainPass]
  dsimp only
  split
  · exact hRead.stalled
  · exact hRead
  · rename_i bytes hGot
    split
    · exact hRead.sendError 500
    · rename_i hWritten
      have hFits :
        (if bytes.drop (min bytes.length (sp.req.contentLength.toNat - sp.written.length)) = [] then m.rb
          else rbPark m.rb
            (bytes.drop (min bytes.length (sp.req.contentLength.toNat - sp.written.length)))).Within := by
        split
        · exact h.within
        · rename_i hSurplus
          have hLonger : sp.req.contentLength.toNat - sp.written.length < bytes.length := by
            by_contra hShort
            rw [Nat.min_eq_left (by omega), List.drop_length] at hSurplus
            exact hSurplus rfl
          rw [rbPark_within_iff, List.length_drop, Nat.min_eq_right (by omega)]
          apply hRoom bytes hGot
          by_contra hFails
          rw [not_or] at hFails
          rw [Nat.min_eq_right (by omega)] at hWritten
          exact hWritten ⟨by omega, Bool.not_eq_true _ ▸ hFails.2⟩
      split
      · rw [spillDone]
        dsimp only
        split
        · exact ⟨hFits, h.handed⟩
        · have hParked : BuffersOk { m with
              arrivals := (ioRecv stageSize m.arrivals).2
              rb := if bytes.drop (min bytes.length (sp.req.contentLength.toNat - sp.written.length)) =
                [] then m.rb
                else rbPark m.rb
                  (bytes.drop (min bytes.length (sp.req.contentLength.toNat - sp.written.length)))
              spill := none } := ⟨hFits, h.handed⟩
          exact hParked.sendError 500
      · exact ⟨h.within, h.handed⟩

theorem readOn_buffers {m : Conn} (h : BuffersOk m) (req : HttpRequest) :
    BuffersOk (readOn env m req).state := by
  rw [readOn]
  split
  · split
    · exact h.log .fault nofun
    · split
      · rw [spillStart]
        split
        · exact h.sendError 500
        · exact ⟨rbTruncate_within h.within _, h.handed⟩
      · exact h.sendError 413
  · exact fillMore_buffers h

theorem incompleteTurn_buffers {m : Conn} (h : BuffersOk m) (req : HttpRequest) :
    BuffersOk (incompleteTurn env m req).state := by
  rw [incompleteTurn]
  dsimp only
  split
  · split
    · exact h.sendError 417
    · split
      · split
        · exact h.log .fault nofun
        · split
          · exact h.sendError 413
          · apply readOn_buffers
            exact ⟨h.within, (h.log (.wrote continueText) nofun).handed⟩
      · exact readOn_buffers h req
  · exact readOn_buffers h req

theorem slide_count {rb : ReadBuffer} {req : HttpRequest} {payload : Bytes}
    (hBody : req.body <+: rb.view.drop req.bodyOffset)
    (hPayload : payload.length ≤ req.body.length) (hOffset : req.bodyOffset ≤ rb.count) :
    (slide rb req payload).count = rb.count := by
  have hLe := hBody.length_le
  rw [List.length_drop] at hLe
  rw [ReadBuffer.count] at hOffset ⊢
  rw [ReadBuffer.count, slide, List.length_append, List.length_append, List.length_take,
    List.length_drop, List.length_drop]
  omega

theorem unfoldedPass_buffers {m : Conn} (h : BuffersOk m) {req : HttpRequest} {consumed : Nat}
    {moved : Bytes → ReadBuffer}
    {held : ReadBuffer → Bytes} {unfolded : Unfolded}
    (hMoved : BuffersOk { m with rb := moved unfolded.payload }) :
    PassOk (unfoldedPass env m req consumed moved held unfolded) := by
  cases unfolded with
  | complete payload left overread => exact hMoved
  | incomplete payload =>
    rw [unfoldedPass]
    dsimp only
    split
    · exact hMoved.sendError 413
    · exact fillMore_buffers hMoved
  | malformed payload =>
    have hLogged : BuffersOk { m.log [.badChunks] with rb := moved payload } :=
      ⟨hMoved.within, (h.log .badChunks nofun).handed⟩
    exact hLogged.sendError 400
  | wild => exact h.log .fault nofun

theorem chunkedPass_buffers {m : Conn} (h : BuffersOk m) {req : HttpRequest} {consumed : Nat}
    (hParse : httpRequestParseAdv m.rb.view m.rb.behind = .ok req consumed) :
    PassOk (chunkedPass env m req consumed) := by
  obtain ⟨hOffset, hBody⟩ := httpRequestParseAdv_ok hParse
  have hDecode := decodeChunked_payload req m.rb.behind
  have hSlid : ∀ {payload : Bytes}, payload.length ≤ req.body.length →
    BuffersOk { m with rb := slide m.rb req payload } := by
    intro payload hPayload
    refine ⟨?_, h.handed⟩
    rw [ReadBuffer.Within, slide_count hBody hPayload hOffset]
    exact h.within
  exact unfoldedPass_buffers h (hSlid hDecode)

theorem overreadPass_buffers {m : Conn} (h : BuffersOk m) : PassOk (overreadPass env m) := by
  have hMarked : BuffersOk (m.log [.overread]) := h.log .overread nofun
  rw [overreadPass]
  split
  · exact hMarked.sendError 400
  · split
    · exact unfoldedPass_buffers hMarked ⟨h.within, hMarked.handed⟩
    · exact hMarked

theorem servePass_buffers {m : Conn} (h : BuffersOk m) (hRoomy : Roomy env m) : PassOk (servePass env m) := by
  have hPreface := hRoomy.preface
  have hSurplus := hRoomy.surplus
  rw [servePass]
  split
  · rename_i _ hPhase
    change BuffersOk (sniffTurn env m).state
    rw [sniffTurn]
    split
    · exact fillMore_buffers h
    · split
      · exact fillMore_buffers h
      · split
        · rename_i hMagic
          exact handOver_buffers h none (hPreface hPhase hMagic)
        · exact ⟨h.within, h.handed⟩
  · rename_i sp hPhase hSpill
    exact drainPass_buffers h fun bytes hGot hWrites => hSurplus sp bytes hPhase hSpill hGot hWrites
  · rw [parsePass]
    split
    · exact incompleteTurn_buffers h _
    · exact h.sendError 400
    · exact overreadPass_buffers h
    · rename_i hParse
      split
      · exact chunkedPass_buffers h hParse
      · exact h

theorem serveTurn_buffers {m : Conn} (h : BuffersOk m) (hRoomy : Roomy env m) :
    BuffersOk (serveTurn env m).state := by
  have hPass := servePass_buffers h hRoomy
  rw [serveTurn]
  split
  · rename_i t hNext
    rw [hNext] at hPass
    exact hPass
  · rename_i m' req consumed hStaged
    rw [hStaged] at hPass
    exact dispatch_buffers hPass (hRoomy.upgrade m' req consumed hStaged)

/-! ## Runs -/

theorem serves_buffers {m : Conn} (h : Serves env arrivals m)
    (hRoomy : ∀ m, Serves env arrivals m → Roomy env m) :
    BuffersOk m := by
  refine Visits.invariant (P := BuffersOk) h
    ⟨rbInit_within _ _, fun req leftover hMem => absurd hMem List.not_mem_nil⟩ ?_
  intro m₁ m₂ hServes hBefore hTurn
  have hAfter := serveTurn_buffers hBefore (hRoomy m₁ hServes)
  rw [hTurn] at hAfter
  exact hAfter

theorem runs_buffers {m : Conn} (h : Runs env arrivals m)
    (hRoomy : ∀ m, Serves env arrivals m → Roomy env m) : BuffersOk m := by
  obtain hServes | ⟨m', hServes, hLeave⟩ := h
  · exact serves_buffers hServes hRoomy
  · have hAfter := serveTurn_buffers (serves_buffers hServes hRoomy) (hRoomy m' hServes)
    rw [hLeave] at hAfter
    exact hAfter

theorem runs_of_leave {m m' : Conn} (h : Serves env arrivals m)
    (hPass : servePass env m = .next (.leave m')) :
    Runs env arrivals m' := by
  right
  refine ⟨m, h, ?_⟩
  rw [serveTurn, hPass]

theorem surplus_within
    (hWithin : ∀ count capacity, HasBuffer env arrivals count capacity → count ≤ capacity) {m : Conn}
    (h : Serves env arrivals m) {sp : Spill} {bytes : Bytes} (hPhase : m.phase = .serve)
    (hSpill : m.spill = some sp)
    (hGot : (ioRecv stageSize m.arrivals).1 = .data bytes)
    (hWrites : sp.req.contentLength.toNat ≤ sp.written.length ∨ env.canWrite sp.written.length = true) :
    m.rb.count + (bytes.length - (sp.req.contentLength.toNat - sp.written.length)) ≤ m.rb.capacity := by
  have hHere := hWithin _ _ (.serving (.inl h))
  by_cases hShort : bytes.length ≤ sp.req.contentLength.toNat - sp.written.length
  · rw [Nat.sub_eq_zero_of_le hShort]
    exact hHere
  · have hTake : min bytes.length (sp.req.contentLength.toNat - sp.written.length) =
        sp.req.contentLength.toNat - sp.written.length := Nat.min_eq_right (by omega)
    have hSurplus : bytes.drop (sp.req.contentLength.toNat - sp.written.length) ≠ [] := by
      intro hNil
      have hLength := congrArg List.length hNil
      rw [List.length_drop, List.length_nil] at hLength
      omega
    have hDone : sp.req.contentLength.toNat ≤
        (sp.written ++ bytes.take (sp.req.contentLength.toNat - sp.written.length)).length := by
      rw [List.length_append, List.length_take]
      omega
    have hParked : (rbPark m.rb (bytes.drop (sp.req.contentLength.toNat - sp.written.length))).count ≤
      m.rb.capacity →
        m.rb.count + (bytes.length - (sp.req.contentLength.toNat - sp.written.length)) ≤ m.rb.capacity := by
      intro hLe
      rw [ReadBuffer.count, rbPark, List.length_append, List.length_drop] at hLe
      exact hLe
    have hCan : ¬ (0 < sp.req.contentLength.toNat - sp.written.length ∧
      env.canWrite sp.written.length = false) := by
      rintro ⟨hSome, hFails⟩
      obtain hNone | hCan := hWrites
      · omega
      · rw [hCan] at hFails
        cases hFails
    have hPass : servePass env m = spillDone env { m with arrivals := (ioRecv stageSize m.arrivals).2 }
        { sp with written := sp.written ++ bytes.take (sp.req.contentLength.toNat - sp.written.length) }
        (bytes.drop (sp.req.contentLength.toNat - sp.written.length)) := by
      have hDrain : servePass env m = drainPass env m sp := by rw [servePass, hPhase, hSpill]
      rw [hDrain, drainPass]
      dsimp only
      rw [hGot]
      dsimp only
      rw [hTake, if_neg hCan, if_pos hDone]
    rw [spillDone, if_neg hSurplus] at hPass
    dsimp only at hPass
    apply hParked
    split at hPass
    · exact hWithin _ _ (.staged h hPass)
    · exact hWithin _ _ (.serving (runs_of_leave h hPass))

theorem handover_within
    (hWithin : ∀ count capacity, HasBuffer env arrivals count capacity → count ≤ capacity) {m m' : Conn}
    (h : Serves env arrivals m) {req : Option HttpRequest} {consumed : Nat}
    (hTurn : serveTurn env m = handOver m' req consumed) :
    m'.rb.count ≤ h2BufferCap + consumed := by
  have hMem : .handover req (m'.rb.view.drop consumed) ∈
    (m'.log [.handover req (m'.rb.view.drop consumed)]).trace :=
    List.mem_append_right _ (List.mem_singleton_self _)
  have hLe := hWithin _ _ (.handed (.inr ⟨m, h, hTurn⟩) hMem)
  rw [List.length_drop] at hLe
  rw [ReadBuffer.count]
  omega

/-- Every read buffer of a connection is within its capacity exactly when every
state at the head of the loop leaves room for the unchecked writes. -/
theorem buffers_within_iff (env : ServerEnv) (arrivals : List Arrival) :
    (∀ count capacity, HasBuffer env arrivals count capacity → count ≤ capacity) ↔
      ∀ m, Serves env arrivals m → Roomy env m := by
  constructor
  · intro hWithin m h
    refine ⟨?_, ?_, ?_⟩
    · intro sp bytes hPhase hSpill hGot hWrites
      exact surplus_within hWithin h hPhase hSpill hGot hWrites
    · intro hPhase hMagic
      have hLong : h2Magic.length ≤ m.rb.count := (List.isPrefixOf_iff_prefix.mp hMagic).length_le
      have hMagicLength : 3 ≤ h2Magic.length := by decide
      apply handover_within hWithin h
      rw [serveTurn, servePass, hPhase]
      dsimp only
      rw [sniffTurn, if_neg (by omega), if_neg (by omega), if_pos hMagic]
    · intro m' req consumed hStaged hTls hUpgrade
      apply handover_within hWithin h
      rw [serveTurn, hStaged]
      dsimp only
      rw [dispatch, if_pos ⟨hTls, hUpgrade⟩]
  · intro hRoomy count capacity h
    cases h with
    | serving h => exact (runs_buffers h hRoomy).within
    | staged h hStaged =>
      rename_i m m' req consumed
      have hPass := servePass_buffers (serves_buffers h hRoomy) (hRoomy m h)
      rw [hStaged] at hPass
      exact hPass.within
    | handed h hOver => exact (runs_buffers h hRoomy).handed _ _ hOver
    | framed h hOver hStart hLoop => exact loopRuns_rb ((runs_buffers h hRoomy).handed _ _ hOver) hLoop
    | negotiated hStart hLoop => exact loopRuns_rb (Nat.zero_le _) hLoop

/-! ## An overflow -/

/-- A server with 64 bytes for a request and a directory for bodies. -/
def uploadEnv : ServerEnv where
  handler _ := httpResponseInit
  writeOk _ := true
  date _ := []
  inflate bytes _ := .ok bytes
  maxBody := 64
  maxInflated := 64
  remote := []
  config := some true
  tls := false
  routeTimeout _ := false
  producerCalls := 0
  fresh := []
  canOpen := true
  canWrite _ := true
  canMap := true

/-- A body of 80 bytes with 40 bytes behind it, in three reads. -/
def upload : List Arrival :=
  [.data (ascii "POST / HTTP/1.1\r\nContent-Length: 80\r\n\r\n"), .data (List.replicate 25 97),
    .data (List.replicate 55 97 ++ List.replicate 40 98)]

/-- What came behind the body is written behind a head of 39 bytes. -/
theorem surplus_overflow : HasBuffer uploadEnv upload 79 64 := by
  have hServes : Serves uploadEnv upload (steps (serveTurn uploadEnv) 4 (serveStart uploadEnv upload)) :=
    visits_steps 4 (by decide +kernel)
  obtain ⟨m', req, consumed, hStaged, hCount, hCapacity⟩ : ∃ m' req consumed,
      servePass uploadEnv (steps (serveTurn uploadEnv) 4 (serveStart uploadEnv upload)) =
      .staged m' req consumed ∧
        m'.rb.count = 79 ∧ m'.rb.capacity = 64 := by
    have hCounts :
      (match servePass uploadEnv (steps (serveTurn uploadEnv) 4 (serveStart uploadEnv upload)) with
        | .staged m' _ _ => (m'.rb.count, m'.rb.capacity)
        | .next _ => (0, 0)) = (79, 64) := by decide +kernel
    split at hCounts
    · rename_i m' req consumed hStaged
      exact ⟨m', req, consumed, hStaged, (Prod.mk.inj hCounts).1, (Prod.mk.inj hCounts).2⟩
    · exact absurd hCounts (by decide)
  rw [← hCount, ← hCapacity]
  exact .staged hServes hStaged

end Cweb
