import Cweb.Lib.Loop
import Cweb.Http.H2Idle

/-!
# The main loop over the bytes of a connection

One turn is a pass through the head of the outer loop or through the inner
loop over the frames in the buffer, with the read behind it. The inner loop looks
for an error only behind a frame. The loop ends with the stream, and every
connection it passes is one a run of frames reaches.
-/

namespace Cweb.H2

open Loop

variable {env : H2Env}

/-- `top` tells that the loop is at its head. `taken` counts the bytes taken
off the front of the stream so far. -/
structure H2Loop where
  conn : H2Conn
  rb : Bytes
  reads : List Bytes
  top : Bool
  taken : Nat

/-- The bytes still to come, buffered or not. -/
def H2Loop.ahead (m : H2Loop) : Bytes := m.rb ++ m.reads.flatten

/-- One read of at most `room` bytes, and the reads to come. Nothing comes
once the peer has closed. -/
def netRecv (room : Nat) : List Bytes → Bytes × List Bytes
  | [] => ([], [])
  | bytes :: reads => (bytes.take room, if room < bytes.length then bytes.drop room :: reads else reads)

def h2Fill (m : H2Loop) : Turn H2Loop :=
  let got := netRecv (h2BufferCap - m.rb.length) m.reads
  if got.1 = [] then .leave m else .again { m with rb := m.rb ++ got.1, reads := got.2, top := true }

def headTurn (env : H2Env) (m : H2Loop) : Turn H2Loop :=
  let rb := skipMagic m.rb
  let c := settle env m.conn
  let m := { m with conn := c, rb := rb, top := false, taken := m.taken + (m.rb.length - rb.length) }
  if c.error ≠ none ∨ h2ClientGoawayDone c then .leave m else .again m

def frameTurn (env : H2Env) (m : H2Loop) : Turn H2Loop :=
  match h2FramePeek m.rb with
  | .tooLarge => .leave { m with conn := h2ConnError m.conn .frameSize }
  | .frame f rest =>
    let c := h2ProcessFrame env m.conn f
    let m := { m with conn := c, rb := rest, taken := m.taken + (m.rb.length - rest.length) }
    if c.error ≠ none then .leave m else .again { m with conn := settle env c }
  | .incomplete => if m.conn.error ≠ none ∨ h2ClientGoawayDone m.conn then .leave m else h2Fill m

def loopTurn (env : H2Env) (m : H2Loop) : Turn H2Loop := if m.top then headTurn env m else frameTurn env m

def loopStart (c : H2Conn) (rb : Bytes) (reads : List Bytes) : H2Loop := ⟨c, rb, reads, true, 0⟩

/-- A read turns unread bytes into buffered ones, everything else uses up
buffered bytes or leaves the head of the loop. -/
def H2Loop.work (m : H2Loop) : Nat := 4 * m.reads.flatten.length + 2 * m.rb.length + (if m.top then 1 else 0)

def h2LoopEnd (env : H2Env) (m : H2Loop) : H2Conn := (run (loopTurn env) (m.work + 1) m).conn

/-- `rb` is what was buffered before the handover. -/
def h2Serve (env : H2Env) (upgrade : Option HttpRequest) (rb : Bytes) (reads : List Bytes) : H2Conn :=
  match h2Start env upgrade with
  | none => h2Init
  | some c =>
    let c := h2LoopEnd env (loopStart c rb reads)
    h2SendGoaway env c c.lastStreamId ((c.error.map H2Error.code).getD 0)

/-! ## Frames at the front of a buffer -/

/-- A buffer too short for a frame header, or the length of the frame and what
follows the header. -/
theorem h2FramePeek_cases (rb : Bytes) :
    (rb.length < 9 ∧ h2FramePeek rb = .incomplete) ∨
      ∃ (len : Nat) (rest : Bytes) (g : Bytes → H2Frame), rb.length = rest.length + 9 ∧
        ∀ more, h2FramePeek (rb ++ more) =
        if h2MaxFrameSize < len then .tooLarge
        else if (rest ++ more).length < len then .incomplete
        else .frame (g ((rest ++ more).take len)) ((rest ++ more).drop len) := by
  rcases rb with _ |
    ⟨l0, _ | ⟨l1, _ | ⟨l2, _ | ⟨type, _ | ⟨flags, _ | ⟨i0, _ | ⟨i1, _ | ⟨i2, _ | ⟨i3, rest⟩⟩⟩⟩⟩⟩⟩⟩⟩
  case cons.cons.cons.cons.cons.cons.cons.cons.cons =>
    exact .inr ⟨l0.toNat * 2 ^ 16 + l1.toNat * 2 ^ 8 + l2.toNat, rest,
      fun payload => ⟨frameTypeOf type, flags, rd32 [i0, i1, i2, i3] % 2 ^ 31, payload⟩, rfl, fun _ => rfl⟩
  all_goals exact .inl ⟨by simp, rfl⟩

theorem h2FramePeek_short {rb : Bytes} (h : rb.length < 9) : h2FramePeek rb = .incomplete := by
  obtain ⟨_, hPeek⟩ | ⟨_, rest, _, hLen, _⟩ := h2FramePeek_cases rb
  · exact hPeek
  · omega

theorem h2FramePeek_incomplete {rb : Bytes} (h : h2FramePeek rb = .incomplete) :
    rb.length < 9 + h2MaxFrameSize := by
  obtain ⟨hShort, _⟩ | ⟨len, rest, g, hLen, hPeek⟩ := h2FramePeek_cases rb
  · omega
  · have hNow := hPeek []
    rw [List.append_nil, List.append_nil, h] at hNow
    split at hNow
    · cases hNow
    · split at hNow
      · omega
      · cases hNow

theorem h2FramePeek_tooLarge {rb : Bytes} (h : h2FramePeek rb = .tooLarge) (more : Bytes) :
    h2FramePeek (rb ++ more) = .tooLarge := by
  obtain ⟨_, hPeek⟩ | ⟨len, rest, g, _, hPeek⟩ := h2FramePeek_cases rb
  · rw [hPeek] at h
    cases h
  · have hNow := hPeek []
    rw [List.append_nil, List.append_nil, h] at hNow
    split at hNow
    · rename_i hLarge
      rw [hPeek more, if_pos hLarge]
    · split at hNow <;> cases hNow

theorem h2FramePeek_frame {rb rest : Bytes} {f : H2Frame} (h : h2FramePeek rb = .frame f rest)
    (more : Bytes) :
    h2FramePeek (rb ++ more) = .frame f (rest ++ more) ∧ rest.length + 9 ≤ rb.length := by
  obtain ⟨_, hPeek⟩ | ⟨len, payload, g, hLen, hPeek⟩ := h2FramePeek_cases rb
  · rw [hPeek] at h
    cases h
  · have hNow := hPeek []
    rw [List.append_nil, List.append_nil, h] at hNow
    split at hNow
    · cases hNow
    · rename_i hSmall
      split at hNow
      · cases hNow
      · rename_i hWhole
        have hLe : len ≤ payload.length := by omega
        obtain ⟨hf, hRest⟩ := Peek.frame.inj hNow
        have hLonger : ¬ (payload ++ more).length < len := by
          rw [List.length_append]
          omega
        rw [hPeek more, if_neg hSmall, if_neg hLonger, List.take_append_of_le_length hLe,
          List.drop_append_of_le_length hLe, ← hf, ← hRest]
        refine ⟨rfl, ?_⟩
        rw [hRest, List.length_drop]
        omega

theorem netRecv_flatten (room : Nat) (reads : List Bytes) :
    (netRecv room reads).1 ++ (netRecv room reads).2.flatten = reads.flatten := by
  cases reads with
  | nil => rfl
  | cons bytes reads =>
    rw [netRecv]
    dsimp only
    split
    · rw [List.flatten_cons, List.flatten_cons, ← List.append_assoc, List.take_append_drop]
    · rw [List.flatten_cons, List.take_of_length_le (by omega)]

theorem netRecv_ne_nil {room : Nat} {reads : List Bytes} (h : ∀ bytes ∈ reads, bytes ≠ []) :
    ∀ bytes ∈ (netRecv room reads).2, bytes ≠ [] := by
  cases reads with
  | nil => exact h
  | cons bytes reads =>
    intro b hb
    rw [netRecv] at hb
    dsimp only at hb
    split at hb
    · rename_i hRoom
      obtain rfl | hb := List.mem_cons.mp hb
      · apply List.ne_nil_of_length_pos
        rw [List.length_drop]
        omega
      · exact h b (List.mem_cons_of_mem _ hb)
    · exact h b (List.mem_cons_of_mem _ hb)

theorem netRecv_eq_nil {room : Nat} {reads : List Bytes} (h : ∀ bytes ∈ reads, bytes ≠ []) (hRoom : 0 < room)
    (hNil : (netRecv room reads).1 = []) : reads = [] := by
  cases reads with
  | nil => rfl
  | cons bytes reads =>
    rw [netRecv] at hNil
    dsimp only at hNil
    obtain hZero | hBytes := List.take_eq_nil_iff.mp hNil
    · omega
    · exact absurd hBytes (h bytes List.mem_cons_self)

/-! ## Runs -/

theorem loopTurn_work {m m' : H2Loop} (h : loopTurn env m = .again m') : m'.work < m.work := by
  rw [loopTurn] at h
  split at h
  · rename_i hTop
    rw [headTurn] at h
    split at h
    · cases h
    · obtain rfl := Turn.again.inj h
      rw [H2Loop.work, H2Loop.work, if_pos hTop]
      have hShorter : (skipMagic m.rb).length ≤ m.rb.length := by
        rw [skipMagic]
        split
        · rw [List.length_drop]
          omega
        · exact Nat.le_refl _
      dsimp only
      rw [if_neg Bool.false_ne_true]
      omega
  · rename_i hTop
    rw [frameTurn] at h
    split at h
    · cases h
    · rename_i f rest hPeek
      dsimp only at h
      split at h
      · cases h
      · obtain rfl := Turn.again.inj h
        have hShorter := (h2FramePeek_frame hPeek []).2
        rw [H2Loop.work, H2Loop.work]
        dsimp only
        omega
    · split at h
      · cases h
      · rw [h2Fill] at h
        split at h
        · cases h
        · rename_i hSome
          obtain rfl := Turn.again.inj h
          have hPos := List.length_pos_iff.mpr hSome
          have hLen := congrArg List.length (netRecv_flatten (h2BufferCap - m.rb.length) m.reads)
          rw [List.length_append] at hLen
          rw [H2Loop.work, H2Loop.work, if_neg hTop]
          dsimp only
          rw [if_pos rfl, List.length_append]
          omega

/-- Between two frames there is no error, or settling failed behind the last one. -/
def Between (env : H2Env) (c : H2Conn) : Prop :=
  c.error = none ∧ Reachable env c ∨
    ∃ c₁ f, Reachable env c₁ ∧ c₁.error = none ∧ FailsBehind env c₁ f ∧ c = frameStep env c₁ f

theorem Between.reachable {c : H2Conn} (h : Between env c) : Reachable env c := by
  obtain ⟨_, hReach⟩ | ⟨c₁, f, hReach, hOk, _, rfl⟩ := h
  · exact hReach
  · exact hReach.frame f hOk

theorem Between.process {c : H2Conn} (h : Between env c) (f : H2Frame) :
    ((h2ProcessFrame env c f).error ≠ none → Reachable env (h2ProcessFrame env c f)) ∧
      ((h2ProcessFrame env c f).error = none → Between env (settle env (h2ProcessFrame env c f))) := by
  obtain ⟨hOk, hReach⟩ | ⟨c₁, f₁, hReach, hOk, hFails, rfl⟩ := h
  · have hNext := hReach.frame f hOk
    constructor
    · intro hError
      rw [frameStep, if_neg hError] at hNext
      exact hNext
    · intro hHandled
      have hStep : frameStep env c f = settle env (h2ProcessFrame env c f) := if_pos hHandled
      by_cases hFailed : (frameStep env c f).error = none
      · exact .inl ⟨hStep ▸ hFailed, hStep ▸ hNext⟩
      · exact .inr ⟨c, f, hReach, hOk, ⟨hHandled, hFailed⟩, hStep.symm⟩
  · exact ⟨fun _ => hReach.behind hOk hFails f, fun hHandled =>
      absurd (h2ProcessFrame_error f hHandled) hFails.failed⟩

theorem loopTurn_reachable {upgrade : Option HttpRequest} {c : H2Conn} (hStart : h2Start env upgrade = some c)
    {rb : Bytes} {reads : List Bytes} {m : H2Loop} (h : Visits (loopTurn env) (loopStart c rb reads) m) :
    if m.top then Reachable env (settle env m.conn) else Between env m.conn := by
  refine h.invariant (P := fun m => if m.top then Reachable env (settle env m.conn) else Between env m.conn)
    ⟨upgrade, c, hStart, .start⟩ ?_
  intro m m' _ hPrev hTurn
  rw [loopTurn] at hTurn
  split at hTurn
  · rename_i hTop
    rw [if_pos hTop] at hPrev
    rw [headTurn] at hTurn
    split at hTurn
    · cases hTurn
    · rename_i hGo
      obtain rfl := Turn.again.inj hTurn
      exact .inl ⟨not_not.mp (not_or.mp hGo).1, hPrev⟩
  · rename_i hTop
    rw [if_neg hTop] at hPrev
    rw [frameTurn] at hTurn
    split at hTurn
    · cases hTurn
    · rename_i f _ _
      dsimp only at hTurn
      split at hTurn
      · cases hTurn
      · rename_i hNext
        obtain rfl := Turn.again.inj hTurn
        rw [if_neg hTop]
        exact (hPrev.process f).2 (not_not.mp hNext)
    · split at hTurn
      · cases hTurn
      · rename_i hGo
        rw [h2Fill] at hTurn
        split at hTurn
        · cases hTurn
        · obtain rfl := Turn.again.inj hTurn
          exact hPrev.reachable.turn (not_not.mp (not_or.mp hGo).1)

/-- Whatever the client sends and however it is cut into reads, the loop ends in a
state of a run, or there with a frame that is too large. -/
theorem h2LoopEnd_reachable {upgrade : Option HttpRequest} {c : H2Conn}
    (hStart : h2Start env upgrade = some c)
    (rb : Bytes) (reads : List Bytes) :
    ∃ c', Reachable env c' ∧
      (h2LoopEnd env (loopStart c rb reads) = c' ∨
        h2LoopEnd env (loopStart c rb reads) = h2ConnError c' .frameSize) := by
  obtain ⟨m, hVisits, hLeave⟩ :=
    @ends_run _ (loopTurn env) H2Loop.work ((loopStart c rb reads).work + 1) (loopStart c rb reads)
    (fun _ _ _ h => loopTurn_work h) (Nat.lt_succ_self _)
  rw [h2LoopEnd]
  have hPrev := loopTurn_reachable hStart hVisits
  rw [loopTurn] at hLeave
  split at hLeave
  · rename_i hTop
    rw [if_pos hTop] at hPrev
    rw [headTurn] at hLeave
    split at hLeave
    · rw [← Turn.leave.inj hLeave]
      exact ⟨_, hPrev, .inl rfl⟩
    · cases hLeave
  · rename_i hTop
    rw [if_neg hTop] at hPrev
    rw [frameTurn] at hLeave
    split at hLeave
    · rw [← Turn.leave.inj hLeave]
      exact ⟨_, hPrev.reachable, .inr rfl⟩
    · rename_i f _ _
      dsimp only at hLeave
      split at hLeave
      · rename_i hError
        rw [← Turn.leave.inj hLeave]
        exact ⟨_, (hPrev.process f).1 hError, .inl rfl⟩
      · cases hLeave
    · split at hLeave
      · rw [← Turn.leave.inj hLeave]
        exact ⟨_, hPrev.reachable, .inl rfl⟩
      · rw [h2Fill] at hLeave
        split at hLeave
        · rw [← Turn.leave.inj hLeave]
          exact ⟨_, hPrev.reachable, .inl rfl⟩
        · cases hLeave

end Cweb.H2
