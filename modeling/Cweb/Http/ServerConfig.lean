import Cweb.Http.H2Loop
import Cweb.Http.ServerReject

/-!
# The configuration of a connection

A configuration that is missing and one that is all zeros leave every knob at its
default. The turns that read more of a request ask the configuration for its
directory without looking whether it is there.
-/

namespace Cweb

open Sv H2 Loop

/-- The fields a connection is served with. -/
structure HttpServerConfig where
  maxBody : Nat
  bodyDir : Option Bytes
  maxInflated : Nat
  ioTimeoutMs : Nat
deriving DecidableEq, Repr

def zeroConfig : HttpServerConfig := ⟨0, none, 0, 0⟩

def requestBufferCap : Nat := 64 * 1024

def requestTimeoutMs : Nat := 5000

def gzipMaxInflatedDefault : Nat := 128 * 1024 * 1024

/-- A field of the configuration, or the default when it is 0 or there is none. -/
def knob (cfg : Option HttpServerConfig) (field : HttpServerConfig → Nat) (default : Nat) : Nat :=
  match cfg with
  | none => default
  | some cfg => if 0 < field cfg then field cfg else default

def timeoutMs (cfg : Option HttpServerConfig) : Nat := knob cfg HttpServerConfig.ioTimeoutMs requestTimeoutMs

/-- What a plaintext connection is served in. -/
def serveEnv (world : ServerEnv) (cfg : Option HttpServerConfig) : ServerEnv :=
  { world with
    maxBody := knob cfg HttpServerConfig.maxBody requestBufferCap
    maxInflated := knob cfg HttpServerConfig.maxInflated gzipMaxInflatedDefault
    config := cfg.map fun cfg => cfg.bodyDir.isSome
    tls := false }

/-- What the HTTP/2 engine takes it over in. -/
def engineEnv (world : ServerEnv) (cfg : Option HttpServerConfig) : H2Env :=
  { world.toH2Env with
    maxBody := knob cfg HttpServerConfig.maxBody h2BufferCap
    maxInflated := knob cfg HttpServerConfig.maxInflated gzipMaxInflatedDefault }

/-- What a client sends may depend on the deadline it is given. -/
def configStart (world : ServerEnv) (client : Nat → List Arrival) (cfg : Option HttpServerConfig) : Conn :=
  serveStart (serveEnv world cfg) (client (timeoutMs cfg))

def httpServeConnectionConfig (world : ServerEnv) (client : Nat → List Arrival)
    (cfg : Option HttpServerConfig)
    (turns : Nat) : Conn :=
  run (serveTurn (serveEnv world cfg)) turns (configStart world client cfg)

def httpServeConnection (world : ServerEnv) (client : Nat → List Arrival) (turns : Nat) : Conn :=
  httpServeConnectionConfig world client none turns

/-- A field of the configuration is read, and it is not there. -/
def ReadsNull (env : ServerEnv) (m : Conn) : Prop :=
  m.phase = .serve ∧ m.spill = none ∧ ∃ req, httpRequestParseAdv m.rb.view m.rb.behind = .incomplete req ∧
    incompleteTurn env m req = .leave (m.log [.fault])

structure SameAsZero (world : ServerEnv) (client : Nat → List Arrival) : Prop where
  steps : ∀ turns, httpServeConnection world client turns = httpServeConnectionConfig world client
    (some zeroConfig) turns
  engine : ∀ upgrade rb reads, h2Serve (engineEnv world none) upgrade rb reads =
    h2Serve (engineEnv world (some zeroConfig)) upgrade rb reads
  noNull : ∀ m, Visits (serveTurn (serveEnv world none)) (configStart world client none) m →
    ¬ ReadsNull (serveEnv world none) m

def expectation (m : Conn) (req : HttpRequest) : Int := expectInterest (m.rb.view.take req.bodyOffset)

/-- The client has not been answered yet about what it expects. -/
def Undecided (m : Conn) (req : HttpRequest) : Prop := m.continueSent = false ∧ 0 < req.bodyOffset

/-- A request that is not all there, and whose client waits for `100 Continue` or has
filled the buffer. -/
def AsksConfig (m : Conn) : Prop :=
  m.phase = .serve ∧ m.spill = none ∧ ∃ req, httpRequestParseAdv m.rb.view m.rb.behind = .incomplete req ∧
    (Undecided m req ∧ 0 < expectation m req ∨
      m.rb.capacity ≤ m.rb.count ∧ ¬ (Undecided m req ∧ expectation m req < 0))

/-! ## One turn -/

variable {world : ServerEnv}

theorem readOn_zero {m : Conn} {req : HttpRequest} (h : ¬ m.rb.capacity ≤ m.rb.count) :
    readOn (serveEnv world none) m req = readOn (serveEnv world (some zeroConfig)) m req := by
  rw [readOn, readOn, if_neg h, if_neg h]
  rfl

theorem readOn_null {m : Conn} {req : HttpRequest} (h : m.rb.capacity ≤ m.rb.count) :
    readOn (serveEnv world none) m req = .leave (m.log [.fault]) := by
  rw [readOn, if_pos h]
  rfl

theorem incompleteTurn_zero {m : Conn} {req : HttpRequest}
    (hWaits : ¬ (Undecided m req ∧ 0 < expectation m req))
    (hFull : ¬ (m.rb.capacity ≤ m.rb.count ∧ ¬ (Undecided m req ∧ expectation m req < 0))) :
    incompleteTurn (serveEnv world none) m req = incompleteTurn (serveEnv world (some zeroConfig)) m req := by
  rw [incompleteTurn, incompleteTurn]
  split
  · rename_i hUndecided
    dsimp only
    split
    · rfl
    · rename_i hKnown
      have hNo : ¬ 0 < expectInterest (m.rb.view.take req.bodyOffset) :=
        fun hWant => hWaits ⟨hUndecided, hWant⟩
      rw [if_neg hNo, if_neg hNo]
      refine readOn_zero ?_
      exact fun hRoom => hFull ⟨hRoom, fun hRefused => hKnown hRefused.2⟩
  · rename_i hDecided
    refine readOn_zero ?_
    exact fun hRoom => hFull ⟨hRoom, fun hRefused => hDecided hRefused.1⟩

theorem serveTurn_zero {m : Conn} (h : ¬ AsksConfig m) :
    serveTurn (serveEnv world none) m = serveTurn (serveEnv world (some zeroConfig)) m := by
  have hPass : servePass (serveEnv world none) m = servePass (serveEnv world (some zeroConfig)) m := by
    rw [servePass, servePass]
    split
    · rfl
    · rfl
    · rename_i hPhase hSpill
      rw [parsePass, parsePass]
      split
      · rename_i req hParse
        congr 1
        refine incompleteTurn_zero ?_ ?_
        · exact fun hWaits => h ⟨hPhase, hSpill, req, hParse, .inl hWaits⟩
        · exact fun hFull => h ⟨hPhase, hSpill, req, hParse, .inr hFull⟩
      · rfl
      · rfl
      · rfl
  rw [serveTurn, serveTurn, hPass]
  rfl

/-! ## Where the configuration is asked -/

theorem sendError_ne_fault {env : ServerEnv} (m m' : Conn) (status : Nat) (h : m'.trace = m.trace) :
    sendError env m' status ≠ m.log [.fault] := by
  intro hEq
  have hTrace := congrArg Conn.trace hEq
  rw [sendError, Conn.log, Conn.log] at hTrace
  dsimp only at hTrace
  rw [h] at hTrace
  cases List.append_cancel_left hTrace

theorem fillMore_ne_fault {env : ServerEnv} (m : Conn) : fillMore env m ≠ .leave (m.log [.fault]) := by
  have hSilent : ∀ m' : Conn, m'.trace = m.trace → m' ≠ m.log [.fault] := by
    rintro m' hSame hEq
    have hTrace := congrArg Conn.trace hEq
    rw [hSame] at hTrace
    exact absurd hTrace.symm (by simp [Conn.log])
  intro h
  rw [fillMore] at h
  dsimp only at h
  split at h
  · have hLeft := Turn.leave.inj h
    rw [stalled] at hLeft
    split at hLeft
    · exact absurd hLeft (sendError_ne_fault m _ _ rfl)
    · exact absurd hLeft (hSilent _ rfl)
  · exact absurd (Turn.leave.inj h) (hSilent _ rfl)
  · cases h

theorem readOn_fault {m : Conn} {req : HttpRequest}
    (h : readOn (serveEnv world none) m req = .leave (m.log [.fault])) :
    m.rb.capacity ≤ m.rb.count := by
  rw [readOn] at h
  split at h
  · assumption
  · exact absurd h (fillMore_ne_fault m)

theorem readsNull_iff {m : Conn} : ReadsNull (serveEnv world none) m ↔ AsksConfig m := by
  constructor
  · rintro ⟨hPhase, hSpill, req, hParse, hFault⟩
    refine ⟨hPhase, hSpill, req, hParse, ?_⟩
    rw [incompleteTurn] at hFault
    split at hFault
    · rename_i hUndecided
      dsimp only at hFault
      split at hFault
      · exact absurd (Turn.leave.inj hFault) (sendError_ne_fault m m 417 rfl)
      · rename_i hKnown
        by_cases hWant : 0 < expectation m req
        · exact .inl ⟨hUndecided, hWant⟩
        · change ¬ 0 < expectInterest (m.rb.view.take req.bodyOffset) at hWant
          rw [if_neg hWant] at hFault
          exact .inr ⟨readOn_fault hFault, fun hRefused => hKnown hRefused.2⟩
    · rename_i hDecided
      exact .inr ⟨readOn_fault hFault, fun hRefused => hDecided hRefused.1⟩
  · rintro ⟨hPhase, hSpill, req, hParse, hAsks⟩
    refine ⟨hPhase, hSpill, req, hParse, ?_⟩
    rw [incompleteTurn]
    split
    · rename_i hUndecided
      dsimp only
      have hKnown : ¬ expectation m req < 0 := by
        intro hRefused
        obtain ⟨_, hWant⟩ | ⟨_, hNot⟩ := hAsks
        · omega
        · exact hNot ⟨hUndecided, hRefused⟩
      change ¬ expectInterest (m.rb.view.take req.bodyOffset) < 0 at hKnown
      rw [if_neg hKnown]
      split
      · rfl
      · rename_i hNo
        obtain ⟨_, hWant⟩ | ⟨hFull, _⟩ := hAsks
        · exact absurd hWant hNo
        · exact readOn_null hFull
    · rename_i hDecided
      obtain ⟨hUndecided, _⟩ | ⟨hFull, _⟩ := hAsks
      · exact absurd hUndecided hDecided
      · exact readOn_null hFull

/-! ## Whole connections -/

theorem run_zero (turns : Nat) :
    ∀ m, (∀ m', Visits (serveTurn (serveEnv world none)) m m' → ¬ AsksConfig m') →
    run (serveTurn (serveEnv world none)) turns m = run
      (serveTurn (serveEnv world (some zeroConfig))) turns m := by
  induction turns with
  | zero => exact fun _ _ => rfl
  | succ turns ih =>
    intro m h
    have hTurn := @serveTurn_zero world m (h m (Visits.refl m))
    cases hNext : serveTurn (serveEnv world none) m with
    | leave m' => rw [run_leave hNext, run_leave (hTurn.symm.trans hNext)]
    | again m' =>
      rw [run_again hNext, run_again (hTurn.symm.trans hNext)]
      exact ih m' fun m'' hVisits => h m'' (hVisits.head hNext)

/-- A missing configuration is as good as one of zeros exactly when no incomplete
request waits for `100 Continue` or fills the buffer. -/
theorem sameAsZero_iff (world : ServerEnv) (client : Nat → List Arrival) : SameAsZero world client ↔
    ∀ m, Visits (serveTurn (serveEnv world none)) (configStart world client none) m → ¬ AsksConfig m := by
  constructor
  · intro h m hVisits hAsks
    exact h.noNull m hVisits (readsNull_iff.mpr hAsks)
  · intro h
    constructor
    · exact fun turns => run_zero turns _ h
    · exact fun _ _ _ => rfl
    · exact fun m hVisits hReads => h m hVisits (readsNull_iff.mp hReads)

def waitingClient : List Arrival :=
  [.data (ascii "POST / HTTP/1.1\r\nExpect: 100-continue\r\nContent-Length: 1\r\n\r\n")]

/-- The client is told to go on when there is a configuration. -/
theorem waitingClient_crashes : ¬ SameAsZero pageEnv fun _ => waitingClient := by
  intro h
  have hTrace := congrArg Conn.trace (h.steps 4)
  have hNull : (httpServeConnection pageEnv (fun _ => waitingClient) 4).trace = [.fault] := by decide +kernel
  have hZero : (httpServeConnectionConfig pageEnv (fun _ => waitingClient) (some zeroConfig) 4).trace =
      [.wrote continueText] := by decide +kernel
  rw [hNull, hZero] at hTrace
  cases hTrace

end Cweb
