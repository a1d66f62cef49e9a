import Mathlib.Data.List.Nodup
import Cweb.Http.H2PumpBody

/-!
# Bodies along a run

At every point where the connection is settled the frames written on a stream
carry a prefix of its body, all of it once the stream has ended, and nothing is
written on an ended stream afterwards.
-/

namespace Cweb.H2

open SwapRemove Sv

variable {env : H2Env}

theorem pumpBody_delivering (hWrites : ∀ n, env.writeOk n = true) (fuel : Nat) :
    ∀ {c : H2Conn} {i : Nat}, Delivering c → Distinct c →
      (∀ s, c.streams[i]? = some s → s.reset = false) → (∀ s, c.streams[i]? = some s → s.headersSent = true) →
      Delivering (pumpBody env fuel c i) := by
  induction fuel with
  | zero => exact fun hc _ _ _ => hc
  | succ fuel ih =>
    intro c i hc hDistinct hReset hSent
    rw [pumpBody]
    cases hAt : c.streams[i]? with
    | none => exact hc
    | some s =>
      dsimp only
      split
      · exact hc
      · rename_i hGo
        have hEnded : s.localEnded = false := Bool.not_eq_true _ ▸ (not_or.mp hGo).1
        have hSteps := @pumpRound_steps env c i s hAt ⟨hEnded, hReset s hAt⟩
        obtain ⟨hNext, g, hStreams, hStill⟩ :=
          pumpRound_delivering hWrites hc hDistinct hAt (hSent s hAt) hEnded
        rcases hRound : pumpRound env c i s with ⟨c', _ | _⟩
        · rw [hRound] at hNext
          exact hNext
        · rw [hRound] at hNext hSteps hStreams
          dsimp only at hNext hSteps hStreams ⊢
          refine ih hNext (hSteps.distinct hDistinct) (hSteps.not_reset hReset) ?_
          intro t ht
          rw [hStreams, List.getElem?_modify_eq, hAt] at ht
          obtain rfl := Option.some.inj ht
          exact hStill

theorem pumpStream_delivering (hWrites : ∀ n, env.writeOk n = true) {c : H2Conn} (hc : Delivering c)
    (hDistinct : Distinct c) (i : Nat) : Delivering (pumpStream env c i).1 := by
  rw [pumpStream]
  cases hAt : c.streams[i]? with
  | none => exact hc
  | some s =>
    dsimp only
    split
    · exact hc
    · rename_i hGo
      obtain ⟨hReset, hGo⟩ := not_or.mp hGo
      obtain ⟨hEnded, hReady⟩ := not_or.mp hGo
      have hReset : ∀ t, c.streams[i]? = some t → t.reset = false := by
        intro t ht
        obtain rfl : t = s := Option.some.inj (ht.symm.trans hAt)
        exact Bool.not_eq_true _ ▸ hReset
      have hEnded : s.localEnded = false := Bool.not_eq_true _ ▸ hEnded
      have hReady : s.responseReady = true := not_not.mp hReady
      cases hSent : s.headersSent with
      | true =>
        change Delivering (pumpBody env (c.connSendWindow.toNat + 1) c i)
        refine pumpBody_delivering hWrites _ hc hDistinct hReset ?_
        intro t ht
        obtain rfl := Option.some.inj (hAt.symm.trans ht)
        exact hSent
      | false =>
        rw [if_neg Bool.false_ne_true]
        by_cases hOk : c.error = none
        · obtain ⟨hHead, hStreams⟩ := pumpHead_delivering hWrites hc hDistinct hAt hSent hReady hOk
          split
          · have hSteps := @pumpHead_steps env c i s hAt ⟨hEnded, hReset s hAt⟩
            refine pumpBody_delivering hWrites _ hHead (hSteps.distinct hDistinct)
              ((hSteps.mono (by simp)).not_reset hReset) ?_
            intro t ht
            rw [hStreams, List.getElem?_modify_eq, hAt] at ht
            obtain rfl := Option.some.inj ht
            rw [headOut]
            split <;> rfl
          · exact hHead
        · rw [pumpHead, if_pos hOk]
          exact hc

theorem pumpFrom_delivering (hWrites : ∀ n, env.writeOk n = true) (left : Nat) :
    ∀ {i : Nat} {c : H2Conn}, Delivering c → Distinct c → Delivering (pumpFrom env left i c) := by
  induction left with
  | zero => exact fun hc _ => hc
  | succ left ih =>
    intro i c hc hDistinct
    have hSteps := @pumpStream_steps env c i
    have hNext := pumpStream_delivering hWrites hc hDistinct i
    rw [pumpFrom]
    rcases hStream : pumpStream env c i with ⟨c', _ | _⟩
    · rw [hStream] at hNext
      exact hNext
    · rw [hStream] at hNext hSteps
      exact ih hNext (hSteps.distinct hDistinct)

/-! ## Settling -/

/-- The connection with its responses pumped, before the sweep. -/
def pumped (env : H2Env) (c : H2Conn) : H2Conn := h2Pump env (h2DispatchReady env c)

theorem pumped_delivering (hWrites : ∀ n, env.writeOk n = true) {c : H2Conn} (hc : Delivering c)
    (hDistinct : Distinct c) : Delivering (pumped env c) := by
  have hReady := @h2DispatchReady_delivering env c hc
  rw [pumped, h2Pump]
  split
  · exact pumpFrom_delivering hWrites _ hReady ((h2DispatchReady_steps c).distinct hDistinct)
  · exact hReady

theorem settle_delivering (hWrites : ∀ n, env.writeOk n = true) {c : H2Conn} (hc : Delivering c)
    (hDistinct : Distinct c) : Delivering (settle env c) :=
  (@h2Sweep_steps env (pumped env c)).delivering (by simp [Kind.Aside])
    (pumped_delivering hWrites hc hDistinct)

theorem h2ProcessFrame_delivering {c : H2Conn} (hc : Delivering c) (f : H2Frame) :
    Delivering (h2ProcessFrame env c f) := by
  refine (handleFrame_steps { c with trace := c.trace ++ [.recv f] } f).delivering (by simp [Kind.Aside]) ?_
  constructor
  · intro s hs
    rw [carried_recv]
    exact hc.streams s hs
  · intro id hId
    rw [carried_recv]
    exact hc.unopened id hId

/-- The states on which a run settles the connection. -/
inductive SettlePoint (env : H2Env) (c₀ : H2Conn) : H2Conn → Prop where
  | start : SettlePoint env c₀ c₀
  | turn {c : H2Conn} : Run env c₀ c → c.error = none → SettlePoint env c₀ c
  | frame {c : H2Conn} (f : H2Frame) : Run env c₀ c → c.error = none → (h2ProcessFrame env c f).error = none →
      SettlePoint env c₀ (h2ProcessFrame env c f)

theorem run_delivering (hWrites : ∀ n, env.writeOk n = true) {c₀ c : H2Conn}
    (hInit : Delivering c₀ ∧ Distinct c₀)
    (h : Run env c₀ c) : Delivering c ∧ Distinct c := by
  induction h with
  | start => exact ⟨settle_delivering hWrites hInit.1 hInit.2, (settle_steps c₀).distinct hInit.2⟩
  | turn _ _ ih => exact ⟨settle_delivering hWrites ih.1 ih.2, (settle_steps _).distinct ih.2⟩
  | frame f _ _ ih =>
    have hFrame := @h2ProcessFrame_delivering env _ ih.1 f
    have hDistinct := @h2ProcessFrame_distinct env _ ih.2 f
    rw [frameStep]
    split
    · exact ⟨settle_delivering hWrites hFrame hDistinct, (settle_steps _).distinct hDistinct⟩
    · exact ⟨hFrame, hDistinct⟩
  | behind f g _ _ _ _ _ ih => exact ⟨h2ProcessFrame_delivering ih.1 g, h2ProcessFrame_distinct ih.2 g⟩

theorem SettlePoint.delivering (hWrites : ∀ n, env.writeOk n = true) {c₀ p : H2Conn}
    (hInit : Delivering c₀ ∧ Distinct c₀) (h : SettlePoint env c₀ p) : Delivering p ∧ Distinct p := by
  cases h with
  | start => exact hInit
  | turn hRun _ => exact run_delivering hWrites hInit hRun
  | frame f hRun _ _ =>
    obtain ⟨hc, hDistinct⟩ := run_delivering hWrites hInit hRun
    exact ⟨h2ProcessFrame_delivering hc f, h2ProcessFrame_distinct hDistinct f⟩

theorem delivering_start {upgrade : Option HttpRequest} {c : H2Conn} (h : h2Start env upgrade = some c) :
    Delivering c := by
  refine (h2Start_steps h).delivering (by simp [Kind.Aside]) ?_
  obtain ⟨writes, events, hEq, hText⟩ := @prologueStart_eq env upgrade
  rw [hEq]
  refine ⟨fun s hs => absurd hs List.not_mem_nil, fun id _ => ?_⟩
  rw [carried, sent_text hText]
  rfl

/-! ## Ended streams -/

/-- The stream has ended or is gone, and these are its frames. -/
structure Closed (id : Nat) (frames : List H2Frame) (c : H2Conn) : Prop where
  known : id ≤ c.lastStreamId
  ended : ∀ s ∈ c.streams, s.id = id → s.localEnded = true
  frames : carried id c.trace = frames

theorem Kind.Touches.localEnded {k : Kind} {s s' : H2Stream} (h : k.Touches s s')
    (hEnded : s.localEnded = true) :
    s'.localEnded = true := by
  cases k with
  | finish =>
    rw [h]
    change (s.localEnded || s'.localEnded) = true
    rw [hEnded, Bool.true_or]
  | _ =>
    rw [h]
    exact hEnded

theorem Kind.Sends.not_closed {k : Kind} {c : H2Conn} {f : H2Frame} (h : k.Sends c f) {id : Nat}
    (hEnded : ∀ s ∈ c.streams, s.id = id → s.localEnded = true) : carries id f = false := by
  have hOpen : (∃ s ∈ c.streams, s.id = f.streamId ∧ s.Sending) → carries id f = false := by
    rintro ⟨s, hs, hId, hLive, _⟩
    apply carries_of_id_ne
    intro hEq
    rw [hEnded s hs (hId.trans hEq)] at hLive
    cases hLive
  cases k with
  | base => obtain h | h | h | h := h <;> (apply carries_of_type_ne <;> simp [h])
  | credit => apply carries_of_type_ne <;> simp [show f.type = .window from h]
  | head => exact hOpen h.2
  | deliver => exact hOpen h.2
  | _ => exact h.elim

theorem Step.closed {id : Nat} {frames : List H2Frame} {k : Kind} {c c' : H2Conn} (h : Step env k c c')
    (hc : Closed id frames c) : Closed id frames c' := by
  cases h with
  | fail _ _ e =>
    rw [h2ConnError_eq]
    exact ⟨hc.known, hc.ended, hc.frames⟩
  | send _ _ f hSends =>
    refine ⟨?_, ?_, ?_⟩
    · rw [(h2SendFrame_windows c f).2]
      exact hc.known
    · rw [h2SendFrame_streams]
      exact hc.ended
    · rw [carried_sendFrame (hSends.not_closed hc.ended)]
      exact hc.frames
  | conn _ _ _ hChange =>
    cases k <;> (rw [hChange]; exact ⟨hc.known, hc.ended, hc.frames⟩)
  | streams _ _ l hTouch =>
    refine ⟨hc.known, ?_, hc.frames⟩
    intro s' hs' hId
    obtain ⟨s, hs, hR⟩ := mem_of_forall₂ hTouch hs'
    exact hR.localEnded (hc.ended s hs (hR.id_eq.symm.trans hId))
  | opened _ s hOpens =>
    have hNew := hOpens.1
    have hKnown := hc.known
    refine ⟨Nat.le_of_lt (Nat.lt_of_le_of_lt hKnown hNew), ?_, hc.frames⟩
    intro t ht hId
    obtain ht | ht := List.mem_append.mp ht
    · exact hc.ended t ht hId
    · obtain rfl := List.mem_singleton.mp ht
      omega
  | drop _ i hi => exact ⟨hc.known, fun s hs => hc.ended s (mem_of_mem_swapRemove hi hs), hc.frames⟩

theorem Steps.closed {id : Nat} {frames : List H2Frame} {ks : List Kind} {c c' : H2Conn}
    (h : Steps env ks c c')
    (hc : Closed id frames c) : Closed id frames c' :=
  h.preserves (fun _ _ _ _ hStep => hStep.closed) hc

theorem h2ProcessFrame_closed {id : Nat} {frames : List H2Frame} {c : H2Conn} (h : Closed id frames c)
    (f : H2Frame) :
    Closed id frames (h2ProcessFrame env c f) := by
  apply (handleFrame_steps { c with trace := c.trace ++ [.recv f] } f).closed
  refine ⟨h.known, h.ended, ?_⟩
  rw [carried_recv]
  exact h.frames

theorem run_closed {id : Nat} {frames : List H2Frame} {p c : H2Conn} (hp : Closed id frames (pumped env p))
    (h : Run env p c) : Closed id frames c := by
  induction h with
  | start => exact (@h2Sweep_steps env _).closed hp
  | turn _ _ ih => exact (settle_steps _).closed ih
  | frame f _ _ ih =>
    rw [frameStep]
    split
    · exact (settle_steps _).closed (h2ProcessFrame_closed ih f)
    · exact h2ProcessFrame_closed ih f
  | behind f g _ _ _ _ _ ih => exact h2ProcessFrame_closed ih g

/-- At every settling the DATA payloads of a stream are a prefix of its body.
Once the stream has ended they are all of it, a producer has no more to give,
the last HEADERS or DATA frame alone has END_STREAM, and later none follows. -/
theorem body_delivered (hWrites : ∀ n, env.writeOk n = true) {upgrade : Option HttpRequest} {c₀ p : H2Conn}
    (hStart : h2Start env upgrade = some c₀) (hPoint : SettlePoint env c₀ p) {s : H2Stream}
    (hs : s ∈ (pumped env p).streams) :
    bodyOf (carried s.id (pumped env p).trace) <+: entityBody s ∧
    (s.localEnded = true →
      bodyOf (carried s.id (pumped env p).trace) = entityBody s ∧ (bodyless s = false → Exhausted s) ∧
      EndsOnce (carried s.id (pumped env p).trace) ∧
      ∀ c, Run env p c → carried s.id c.trace = carried s.id (pumped env p).trace) := by
  obtain ⟨hDelivering, hDistinct⟩ :=
    hPoint.delivering hWrites ⟨delivering_start hStart, distinct_start hStart⟩
  have hPumped : Distinct (pumped env p) :=
    (h2Pump_steps _).distinct ((h2DispatchReady_steps p).distinct hDistinct)
  have hDelivery := (pumped_delivering hWrites hDelivering hDistinct).streams s hs
  refine ⟨hDelivery.prefix_body, ?_⟩
  intro hEnded
  obtain ⟨hBody, hExhausted, hOnce⟩ := hDelivery.ended hEnded
  refine ⟨hBody, hExhausted, hOnce, ?_⟩
  intro c hRun
  refine (run_closed ⟨(hPumped.bound s hs).2, ?_, rfl⟩ hRun).frames
  intro t ht hId
  obtain rfl : t = s := List.inj_on_of_nodup_map hPumped.nodup ht hs hId
  exact hEnded

/-- Queued chunks, one of them empty. -/
def queueEnv : H2Env :=
  { plainEnv with handler := fun _ => { httpResponseInit with streamChunks := [[1, 2], [], [3]] } }

/-- The client opens its window once the first chunk has used it up. -/
def queuePoint : H2Conn :=
  h2ProcessFrame queueEnv
    (plainRun queueEnv [⟨.settings, 0, 0, [0, 4, 0, 0, 0, 2]⟩, ⟨.headers, 5, 1, [0x82, 0x86, 0x84]⟩])
    ⟨.window, 0, 1, [0, 0, 0, 5]⟩

theorem body_delivered_queue :
    ∃ s ∈ (pumped queueEnv queuePoint).streams, s.localEnded = true ∧
      bodyOf (carried s.id (pumped queueEnv queuePoint).trace) = entityBody s ∧ entityBody s = [1, 2, 3] := by
  have hStart : h2Start queueEnv none = some (h2SendSettings queueEnv h2Init) := rfl
  have hPoint : SettlePoint queueEnv (h2SendSettings queueEnv h2Init) queuePoint :=
    .frame _ (Run.start.run _) (by decide +kernel) (by decide +kernel)
  have hFacts : (pumped queueEnv queuePoint).streams.map (fun s => (s.localEnded, entityBody s)) =
      [(true, [1, 2, 3])] := by decide +kernel
  obtain ⟨s, hs, hEq⟩ := List.mem_map.mp (hFacts ▸ List.mem_singleton_self (true, ([1, 2, 3] : Bytes)))
  obtain ⟨hEnded, hBody⟩ := Prod.mk.inj hEq
  exact ⟨s, hs, hEnded, ((body_delivered (fun _ => rfl) hStart hPoint hs).2 hEnded).1, hBody⟩

/-- All the frames written on a stream. -/
def framesOn (id : Nat) (trace : List Event) : List H2Frame := (sent trace).filter fun f => f.streamId == id

theorem framesOn_append (id : Nat) (trace : List Event) {frames : List H2Frame}
    (h : ∀ f ∈ frames, f.streamId = id) :
    framesOn id (trace ++ frames.map Event.sent) = framesOn id trace ++ frames := by
  have hAll : frames.filter (fun f => f.streamId == id) = frames :=
    List.filter_eq_self.mpr fun f hf => beq_iff_eq.mpr (h f hf)
  rw [framesOn, sent_append_map, List.filter_append, hAll]
  rfl

theorem not_endsOnce {frames : List H2Frame} {f : H2Frame} (h : f.endStream = false) :
    ¬ EndsOnce (frames ++ [f]) := by
  rintro ⟨front, g, hSplit, hLast, _⟩
  have hSame : f = g := List.singleton_inj.mp (List.append_inj' hSplit rfl).2
  rw [hSame, hLast] at h
  cases h

/-! ## Header blocks of several frames -/

theorem headerFrames_more (id : Nat) (endStream : Bool) (fuel : Nat) :
    ∀ rest, ∀ f ∈ headerFrames id endStream fuel false rest, f.endStream = false ∧ f.streamId = id := by
  induction fuel with
  | zero => exact fun _ f hf => absurd hf List.not_mem_nil
  | succ fuel ih =>
    intro rest f hf
    rw [headerFrames] at hf
    obtain rfl | hf := List.mem_cons.mp hf
    · refine ⟨?_, rfl⟩
      simp only [H2Frame.endStream, Bool.false_and, Bool.false_eq_true, if_false]
      split <;> rfl
    · split at hf
      · exact absurd hf List.not_mem_nil
      · exact ih _ f hf

theorem headerFrames_long {blk : Bytes} (h : h2MaxFrameSize < blk.length) (id : Nat) (endStream : Bool) :
    ∃ front f, headerFrames id endStream (blk.length + 1) true blk = front ++ [f] ∧ f.endStream = false ∧
      ∀ g ∈ front ++ [f], g.streamId = id := by
  have hLeft : blk.drop h2MaxFrameSize ≠ [] := by
    rw [Ne, List.drop_eq_nil_iff]
    omega
  have hMore := headerFrames_more id endStream blk.length (blk.drop h2MaxFrameSize)
  have hSome : headerFrames id endStream blk.length false (blk.drop h2MaxFrameSize) ≠ [] := by
    obtain ⟨n, hn⟩ := Nat.exists_eq_add_of_lt h
    rw [hn, headerFrames]
    exact List.cons_ne_nil _ _
  rw [headerFrames]
  simp only [if_neg hLeft]
  obtain ⟨front, f, hSplit⟩ := List.eq_nil_or_concat _ |>.resolve_left hSome
  rw [List.concat_eq_append] at hSplit
  rw [hSplit] at hMore ⊢
  refine ⟨_ :: front, f, rfl, (hMore f (List.mem_append_right _ (List.mem_singleton_self f))).1, ?_⟩
  rw [List.cons_append, List.forall_mem_cons]
  exact ⟨rfl, fun g hg => (hMore g hg).2⟩

theorem h2Pump_bodyless (hWrites : ∀ n, env.writeOk n = true) {c : H2Conn} {s : H2Stream}
    (hStreams : c.streams = [s]) (hOk : c.error = none)
    (hReset : s.reset = false) (hEnded : s.localEnded = false) (hReady : s.responseReady = true)
    (hSent : s.headersSent = false)
    (hNone : bodyless s = true) {blk : Bytes} (hBlk : responseBlock s.res (env.date c.heads) = blk) :
    (h2Pump env c).streams = [endLocal { s with headersSent := true, bodyOff := 0 }] ∧
      (h2Pump env c).trace = c.trace ++
      (headerFrames s.id true (blk.length + 1) true blk).map Event.sent := by
  have hSome : blk ≠ [] := hBlk ▸ responseBlock_ne_nil s.res (env.date c.heads)
  obtain ⟨writes, hSend⟩ :=
    sendFrames_of_writeOk hWrites (headerFrames s.id true (blk.length + 1) true blk) { c with heads :=
    c.heads + 1 }
    (headerFrames_len _ _ _ _ _)
  have hAt : c.streams[0]? = some s := by
    rw [hStreams]
    rfl
  have hHead : pumpHead env c 0 s =
      ((({ c with
            heads := c.heads + 1, writes := writes,
            trace := c.trace ++ (headerFrames s.id true (blk.length + 1) true blk).map Event.sent } :
              H2Conn).modifyStream 0
          fun s => { s with headersSent := true, bodyOff := 0 }).modifyStream 0 endLocal, true) := by
    have hBlock : h2SendHeaderBlock env { c with heads := c.heads + 1 } s.id blk true =
        sendFrames env { c with heads := c.heads + 1 }
          (headerFrames s.id true (blk.length + 1) true blk) := by
      rw [h2SendHeaderBlock, if_neg hSome, List.append_nil]
    rw [pumpHead, if_neg (not_not.mpr hOk)]
    dsimp only
    rw [hBlk, hNone, hBlock, hSend]
    rfl
  have hStream := pumpStream.eq_def env c 0
  rw [hAt] at hStream
  dsimp only at hStream
  rw [hReset, hEnded, hReady, hSent, if_neg (by decide), if_neg Bool.false_ne_true, hHead, if_pos rfl,
    pumpBody] at hStream
  rw [h2Pump, if_pos hOk, hStreams, List.length_singleton, pumpFrom, hStream]
  simp [pumpFrom, H2Conn.modifyStream, hStreams, endLocal]

/-- An answer without a body whose header block takes two frames. -/
def longHeaderEnv : H2Env :=
  { plainEnv with
    handler :=
    fun _ => { httpResponseInit with status := 204, headers := ascii "x: " ++ List.replicate 16390 97 } }

def longHeaderPoint : H2Conn :=
  h2ProcessFrame longHeaderEnv (plainRun longHeaderEnv [⟨.settings, 0, 0, []⟩])
    ⟨.headers, 5, 1, [0x82, 0x86, 0x84]⟩

theorem headerLineFields_letters {v : Bytes} (hv : ∀ b ∈ v, b = 97) (hSome : v ≠ []) :
    headerLineFields (ascii "x: " ++ v) = ([(ascii "x", v)], false) := by
  have hLine : ascii "x: " ++ v = 120 :: 58 :: 32 :: v := rfl
  have hLast : (120 :: 58 :: 32 :: v).getLast? ≠ some 13 := by
    obtain ⟨front, b, hConcat⟩ := List.eq_nil_or_concat v |>.resolve_left hSome
    rw [List.concat_eq_append] at hConcat
    subst hConcat
    obtain rfl := hv b (List.mem_append_right _ (List.mem_singleton_self b))
    have hEnd : (120 :: 58 :: 32 :: (front ++ [97])).getLast? = some 97 :=
      @List.getLast?_concat _ (120 :: 58 :: 32 :: front) 97
    rw [hEnd]
    decide
  have hTrim : svTrim (32 :: v) = v := by
    rw [svTrim_blank, svTrim_solid]
    intro b hb
    rw [hv b hb]
    rfl
  have hName : (120 :: 58 :: 32 :: v).takeWhile (· ≠ 58) = [120] := rfl
  have hFields : headerLineFields (120 :: 58 :: 32 :: v) = ([([120], svTrim (32 :: v))], false) := by
    have hKeep : ¬ (2 ≤ (120 :: 58 :: 32 :: v).length ∧ (120 :: 58 :: 32 :: v).getLast? = some 13) :=
      fun hBoth => hLast hBoth.2
    rw [headerLineFields, if_neg hKeep, hName, if_neg (by simp)]
    rfl
  rw [hLine, hFields, hTrim]
  rfl

theorem length_responseBlock {res : HttpResponse} {name v : Bytes} {isDate : Bool}
    (h : (svSplit 10 res.headers).map headerLineFields = [([(name, v)], isDate)])
    (date : Bytes) : v.length ≤ (responseBlock res date).length := by
  rw [responseBlock, h]
  simp only [List.flatMap_cons, List.flatMap_nil,
    List.append_nil, Hpack.hpackEncodeField, Hpack.hpEncStr, List.length_append]
  omega

theorem length_longHeader (date : Bytes) :
    h2MaxFrameSize < (responseBlock
      { httpResponseInit with status := 204, headers := ascii "x: " ++ List.replicate 16390 97 } date).length := by
  have hLetters : ∀ b ∈ List.replicate 16390 97, b = (97 : UInt8) := fun b hb => List.eq_of_mem_replicate hb
  have hNone : 10 ∉ ascii "x: " ++ List.replicate 16390 97 := by
    intro hMem
    rcases List.mem_append.mp hMem with hMem | hMem
    · exact absurd hMem (by decide)
    · exact absurd (hLetters 10 hMem) (by decide)
  have hFields := headerLineFields_letters hLetters (by rw [List.replicate_succ]; exact List.cons_ne_nil _ _)
  have hLength := @length_responseBlock
    { httpResponseInit with status := 204, headers := ascii "x: " ++ List.replicate 16390 97 } (ascii "x") _ false
    (by rw [svSplit_last hNone (List.append_ne_nil_of_left_ne_nil (by decide) _),
      List.map_singleton, hFields]) date
  rw [List.length_replicate] at hLength
  exact Nat.lt_of_lt_of_le (by decide) hLength

theorem longHeaderPoint_ready : ∃ s, (h2DispatchReady longHeaderEnv longHeaderPoint).streams = [s] ∧
    (h2DispatchReady longHeaderEnv longHeaderPoint).error = none ∧ s.reset = false ∧ s.localEnded = false ∧
    s.responseReady = true ∧ s.headersSent = false ∧ s.res = longHeaderEnv.handler [] := by
  have hOk : longHeaderPoint.error = none := by decide +kernel
  have hFacts : longHeaderPoint.streams.map (fun s => ((s.reset, s.localEnded, s.headersSent),
      decide (s.dispatched ∨ s.reset ∨ ¬ s.remoteEnded),
        decide (s.bodyTooBig ∨ (longHeaderEnv.maxBody : Int) < s.req.contentLength),
      decide (headerHasToken s.req (ascii "content-encoding") (ascii "gzip") ∨
        headerHasToken s.req (ascii "content-encoding") (ascii "x-gzip")))) =
      [((false, false, false), false, false, false)] := by decide +kernel
  obtain ⟨s, hStreams, hStream⟩ := List.map_eq_singleton_iff.mp hFacts
  simp only [Prod.mk.injEq, decide_eq_false_iff_not] at hStream
  obtain ⟨⟨hReset, hEnded, hSent⟩, hOpen, hSmall, hPlain⟩ := hStream
  have hAt : longHeaderPoint.streams[0]? = some s := by
    rw [hStreams]
    rfl
  have hDispatch : h2DispatchReady longHeaderEnv longHeaderPoint =
      h2Dispatch longHeaderEnv longHeaderPoint 0 { s with req := { s.req with body := s.body } } := by
    rw [h2DispatchReady, if_pos hOk, hStreams, List.length_singleton, dispatchFrom, dispatchFrom,
      dispatchStream, hAt]
    dsimp only
    rw [if_neg hOpen, if_neg hSmall, if_neg hPlain]
  rw [hDispatch, h2Dispatch, hStreams]
  exact ⟨_, rfl, hOk, hReset, hEnded, rfl, hSent, rfl⟩

/-- A CONTINUATION frame follows the HEADERS frame that has END_STREAM. -/
theorem continuation_after_end_stream :
    ∃ c₀ p s, h2Start longHeaderEnv none = some c₀ ∧ SettlePoint longHeaderEnv c₀ p ∧
      s ∈ (pumped longHeaderEnv p).streams ∧ s.reset = false ∧ s.localEnded = true ∧
      ¬ EndsOnce (framesOn s.id (pumped longHeaderEnv p).trace) := by
  have hPoint : SettlePoint longHeaderEnv (h2SendSettings longHeaderEnv h2Init) longHeaderPoint :=
    .frame _ (Run.start.run _) (by decide +kernel) (by decide +kernel)
  obtain ⟨s, hStreams, hOk, hReset, hEnded, hReady, hSent, hRes⟩ := longHeaderPoint_ready
  have hNone : bodyless s = true := by
    rw [bodyless, hRes]
    rfl
  have hWrites : ∀ n, longHeaderEnv.writeOk n = true := fun _ => rfl
  obtain ⟨hPumped, hTrace⟩ := h2Pump_bodyless hWrites hStreams hOk hReset hEnded hReady hSent hNone rfl
  have hLong : h2MaxFrameSize <
    (responseBlock s.res
      (longHeaderEnv.date (h2DispatchReady longHeaderEnv longHeaderPoint).heads)).length := by
    rw [hRes]
    exact length_longHeader _
  obtain ⟨front, f, hFrames, hLast, hIds⟩ := headerFrames_long hLong s.id true
  rw [hFrames] at hTrace
  refine ⟨_, _, endLocal { s with headersSent := true, bodyOff := 0 }, rfl, hPoint, ?_, hReset, rfl, ?_⟩
  · rw [pumped, hPumped]
    exact List.mem_singleton_self _
  · have hOn : framesOn s.id (pumped longHeaderEnv longHeaderPoint).trace =
        framesOn s.id (h2DispatchReady longHeaderEnv longHeaderPoint).trace ++ front ++ [f] := by
      rw [pumped, hTrace, framesOn_append s.id _ hIds, List.append_assoc]
    change ¬ EndsOnce (framesOn s.id _)
    rw [hOn]
    exact not_endsOnce hLast

end Cweb.H2
