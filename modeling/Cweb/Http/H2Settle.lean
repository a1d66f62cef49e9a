import Cweb.Http.H2Steps

/-!
# What settling can do

Dispatching only answers, pumping only delivers and sweeping only drops
streams.
-/

namespace Cweb.H2

variable {env : H2Env}

theorem h2Dispatch_steps (c : H2Conn) (i : Nat) (s s' : H2Stream) (hAt : c.streams[i]? = some s)
    (h : Kind.answer.Touches s s') : Steps env [.answer] c (h2Dispatch env c i s') := by
  have hCall : Steps env [.answer] c { c with calls := c.calls ++ [s'.req] } :=
    Steps.conn .answer (by simp) rfl
  refine hCall.trans (Steps.modify .answer (by simp) ?_)
  intro t ht
  obtain rfl : t = s := Option.some.inj (ht.symm.trans hAt)
  rw [h]
  rfl

theorem dispatchStream_steps (c : H2Conn) (i : Nat) : Steps env [.answer] c (dispatchStream env c i) := by
  have hDirect : ∀ status, Steps env [.answer] c (c.modifyStream i fun s => h2DirectError s status) :=
    fun status => Steps.modify .answer (by simp) fun s _ => rfl
  rw [dispatchStream]
  split
  · exact Steps.refl c
  · rename_i hAt
    split
    · exact Steps.refl c
    · split
      · exact hDirect 413
      · split
        · split
          · exact hDirect 400
          · exact hDirect 413
          · exact h2Dispatch_steps c i _ _ hAt rfl
        · exact h2Dispatch_steps c i _ _ hAt rfl

theorem dispatchFrom_steps (left : Nat) : ∀ i c, Steps env [.answer] c (dispatchFrom env left i c) := by
  induction left with
  | zero => exact fun _ c => Steps.refl c
  | succ left ih => exact fun i c => (dispatchStream_steps c i).trans (ih _ _)

theorem h2DispatchReady_steps (c : H2Conn) : Steps env [.answer] c (h2DispatchReady env c) := by
  rw [h2DispatchReady]
  split
  · exact dispatchFrom_steps _ 0 c
  · exact Steps.refl c

/-- Only the places in the body sources change. -/
def CursorMoves (s s' : H2Stream) : Prop :=
  s' = { s with
    queueI := s'.queueI, queueOff := s'.queueOff, bodyOff := s'.bodyOff, fnEof := s'.fnEof, fnCaps :=
    s'.fnCaps }

theorem skipDrained_moves (fuel : Nat) : ∀ s, CursorMoves s (skipDrained fuel s) := by
  induction fuel with
  | zero => exact fun s => rfl
  | succ fuel ih =>
    intro s
    rw [skipDrained]
    split
    · rfl
    · split
      · have h := ih { s with queueI := s.queueI + 1, queueOff := 0 }
        rw [CursorMoves] at h ⊢
        rw [h]
      · rfl

theorem h2NextData_moves (s : H2Stream) (room : Int) : CursorMoves s (h2NextData s room).1 := by
  have hSkip := skipDrained_moves s.res.streamChunks.length s
  have hChunk : ∀ (t : H2Stream) ch, CursorMoves t (nextChunk t ch room).1 := by
    intro t ch
    rw [nextChunk]
    split
    · rfl
    · dsimp only
      split <;> rfl
  have hProduced : ∀ (t : H2Stream) fn, CursorMoves t (nextProduced t fn room).1 := by
    intro t fn
    rw [nextProduced]
    split
    · rfl
    · split
      · rfl
      · dsimp only
        split <;> rfl
  have hTrans : ∀ t, CursorMoves (skipDrained s.res.streamChunks.length s) t → CursorMoves s t := by
    intro t ht
    rw [CursorMoves] at ht hSkip ⊢
    rw [ht, hSkip]
  rw [h2NextData]
  split
  · dsimp only
    split
    · exact hTrans _ (hChunk _ _)
    · split
      · exact hSkip
      · exact hTrans _ (hProduced _ _)
  · rw [nextAssembled]
    split
    · rfl
    · split <;> rfl

theorem h2SendData_steps {c : H2Conn} {id : Nat} (hOpen : ∃ s ∈ c.streams, s.id = id ∧ s.Sending)
    (i : Nat) (src : Bytes)
    (eof : Bool) : Steps env [.deliver] c (h2SendData env c i id src eof) := by
  have hSend : Steps env [.deliver] c (h2SendFrame env c ⟨.data, if eof then 1 else 0, id, src⟩).1 :=
    (Step.send .deliver c _ ⟨rfl, hOpen⟩).toSteps (by simp)
  rw [h2SendData]
  split
  · rename_i hEq
    rw [hEq] at hSend
    exact hSend.trans (Steps.failIn .deliver _ (by simp))
  · rename_i c' hEq
    rw [hEq] at hSend
    have hConn : Steps env [.deliver] c' { c' with connSendWindow := c'.connSendWindow - src.length } :=
      Steps.conn .deliver (by simp) rfl
    exact (hSend.trans hConn).trans (Steps.modify .deliver (by simp) (by intro s _; rfl))

theorem Steps.modify_endLocal {ks : List Kind} (c : H2Conn) (i : Nat) (hk : Kind.finish ∈ ks) :
    Steps env ks c (c.modifyStream i endLocal) := by
  refine Steps.modify .finish hk ?_
  intro s _
  rw [Kind.Touches, endLocal, Bool.or_true]

theorem pumpRound_steps {c : H2Conn} {i : Nat} {s : H2Stream} (hAt : c.streams[i]? = some s)
    (hSending : s.Sending) :
    Steps env [.head, .deliver, .finish] c (pumpRound env c i s).1 := by
  have hMoves := h2NextData_moves s (min c.connSendWindow s.sendWindow)
  have hCursor : Steps env [.head, .deliver, .finish] c
      (c.modifyStream i fun _ => (h2NextData s (min c.connSendWindow s.sendWindow)).1) := by
    refine Steps.modify .deliver (by simp) ?_
    intro t ht
    obtain rfl : t = s := Option.some.inj (ht.symm.trans hAt)
    rw [CursorMoves] at hMoves
    rw [Kind.Touches, hMoves]
  rw [pumpRound]
  dsimp only
  split
  · rename_i hEq
    rw [hEq] at hCursor
    exact hCursor
  · rename_i s' src eof hEq
    rw [hEq] at hCursor hMoves
    dsimp only at hMoves
    split
    · exact hCursor
    · have hOpen : ∃ t ∈ (c.modifyStream i fun _ => s').streams, t.id = s.id ∧ t.Sending := by
        refine ⟨s', ?_, by rw [hMoves], by rw [hMoves]; exact hSending⟩
        refine List.mem_of_getElem? (i := i) ?_
        rw [H2Conn.modifyStream, List.getElem?_modify_eq, hAt]
        rfl
      have hSend := hCursor.trans ((h2SendData_steps hOpen i src eof).mono (by simp))
      split
      · exact hSend.trans (Steps.modify_endLocal _ i (by simp))
      · exact hSend

/-- What the pump leaves as it is in a stream. -/
def H2Stream.fixed (s : H2Stream) : Nat × Bool × Bool × Bool := (s.id, s.reset, s.dispatched, s.remoteEnded)

theorem Kind.Touches.fixed_eq {k : Kind} (hk : k ∈ [Kind.head, .deliver, .finish]) {s s' : H2Stream}
    (h : k.Touches s s') : s'.fixed = s.fixed := by
  simp only [List.mem_cons, List.not_mem_nil, or_false] at hk
  obtain rfl | rfl | rfl := hk
  all_goals
    rw [h]
    rfl

theorem touches_map_fixed {k : Kind} (hk : k ∈ [Kind.head, .deliver, .finish]) {l l' : List H2Stream}
    (h : List.Forall₂ k.Touches l l') : l'.map H2Stream.fixed = l.map H2Stream.fixed := by
  induction h with
  | nil => rfl
  | cons hHead _ ih => rw [List.map_cons, List.map_cons, hHead.fixed_eq hk, ih]

theorem Step.map_fixed {k : Kind} (hk : k ∈ [Kind.head, .deliver, .finish]) {c c' : H2Conn}
    (h : Step env k c c') : c'.streams.map H2Stream.fixed = c.streams.map H2Stream.fixed := by
  cases h with
  | fail _ _ e => rw [h2ConnError_eq]
  | send _ _ f _ => rw [h2SendFrame_streams]
  | conn _ _ _ hChange =>
    simp only [List.mem_cons, List.not_mem_nil, or_false] at hk
    obtain rfl | rfl | rfl := hk <;> rw [hChange]
  | streams _ _ l hTouch => exact touches_map_fixed hk hTouch
  | opened => simp at hk
  | drop => simp at hk

theorem Steps.map_fixed {c c' : H2Conn} (h : Steps env [.head, .deliver, .finish] c c') :
    c'.streams.map H2Stream.fixed = c.streams.map H2Stream.fixed :=
  h.preserves (P := fun c' => c'.streams.map H2Stream.fixed = c.streams.map H2Stream.fixed)
    (fun _ hk _ _ hStep hEq => (hStep.map_fixed hk).trans hEq) rfl

theorem Steps.getElem?_fixed {c c' : H2Conn} (h : Steps env [.head, .deliver, .finish] c c') {i : Nat}
    {s' : H2Stream} (hAt : c'.streams[i]? = some s') : ∃ s, c.streams[i]? = some s ∧ s'.fixed = s.fixed := by
  have hEq : (c'.streams.map H2Stream.fixed)[i]? = (c.streams.map H2Stream.fixed)[i]? := by rw [h.map_fixed]
  rw [List.getElem?_map, List.getElem?_map, hAt] at hEq
  obtain ⟨s, hs, hFixed⟩ := Option.map_eq_some_iff.mp hEq.symm
  exact ⟨s, hs, hFixed.symm⟩

theorem Steps.not_reset {c c' : H2Conn} (h : Steps env [.head, .deliver, .finish] c c') {i : Nat}
    (hReset : ∀ s, c.streams[i]? = some s → s.reset = false) : ∀ s, c'.streams[i]? = some s →
      s.reset = false := by
  intro s' hAt
  obtain ⟨s, hs, hFixed⟩ := h.getElem?_fixed hAt
  exact (Prod.mk.inj (Prod.mk.inj hFixed).2).1.trans (hReset s hs)

theorem pumpBody_steps (fuel : Nat) : ∀ c i, (∀ s, c.streams[i]? = some s → s.reset = false) →
    Steps env [.head, .deliver, .finish] c (pumpBody env fuel c i) := by
  induction fuel with
  | zero => exact fun c _ _ => Steps.refl c
  | succ fuel ih =>
    intro c i hReset
    rw [pumpBody]
    split
    · exact Steps.refl c
    · rename_i s hAt
      split
      · exact Steps.refl c
      · rename_i hGo
        have hRound : Steps env [.head, .deliver, .finish] c (pumpRound env c i s).1 :=
          pumpRound_steps hAt ⟨Bool.not_eq_true _ ▸ (not_or.mp hGo).1, hReset s hAt⟩
        split
        · rename_i hEq
          rw [hEq] at hRound
          exact hRound
        · rename_i hEq
          rw [hEq] at hRound
          exact hRound.trans (ih _ _ (hRound.not_reset hReset))

theorem headerFrames_types (id : Nat) (endStream : Bool) (fuel : Nat) :
    ∀ first rest, ∀ f ∈ headerFrames id endStream fuel first rest,
      (f.type = .headers ∨ f.type = .cont) ∧ f.streamId = id := by
  induction fuel with
  | zero => exact fun _ _ f hf => absurd hf List.not_mem_nil
  | succ fuel ih =>
    intro first rest f hf
    rw [headerFrames] at hf
    obtain rfl | hf := List.mem_cons.mp hf
    · cases first
      · exact ⟨.inr rfl, rfl⟩
      · exact ⟨.inl rfl, rfl⟩
    · split at hf
      · exact absurd hf List.not_mem_nil
      · exact ih _ _ f hf

theorem sendFrames_steps (frames : List H2Frame) :
    ∀ c, (∀ f ∈ frames, (f.type = .headers ∨ f.type = .cont) ∧ ∃ s ∈ c.streams, s.id = f.streamId ∧
      s.Sending) →
      Steps env [.head] c (sendFrames env c frames).1 := by
  induction frames with
  | nil => exact fun c _ => Steps.refl c
  | cons f frames ih =>
    intro c h
    have hSend : Steps env [.head] c (h2SendFrame env c f).1 :=
      (Step.send .head c f (h f List.mem_cons_self)).toSteps (by simp)
    have hStreams := h2SendFrame_streams env c f
    rw [sendFrames]
    split
    · rename_i hEq
      rw [hEq] at hSend hStreams
      refine hSend.trans (ih _ ?_)
      intro g hg
      rw [hStreams]
      exact h g (List.mem_cons_of_mem _ hg)
    · rename_i hEq
      rw [hEq] at hSend
      exact hSend

theorem h2SendHeaderBlock_steps {c : H2Conn} {id : Nat} (hOpen : ∃ s ∈ c.streams, s.id = id ∧ s.Sending)
    (blk : Bytes)
    (endStream : Bool) : Steps env [.head] c (h2SendHeaderBlock env c id blk endStream).1 := by
  refine sendFrames_steps _ c ?_
  intro f hf
  obtain hf | hf := List.mem_append.mp hf
  · obtain ⟨hType, rfl⟩ := headerFrames_types _ _ _ _ _ f hf
    exact ⟨hType, hOpen⟩
  · split at hf
    · obtain rfl := List.mem_singleton.mp hf
      exact ⟨.inl rfl, hOpen⟩
    · exact absurd hf List.not_mem_nil

theorem pumpHead_steps {c : H2Conn} {i : Nat} {s : H2Stream} (hAt : c.streams[i]? = some s)
    (hSending : s.Sending) :
    Steps env [.head, .finish] c (pumpHead env c i s).1 := by
  rw [pumpHead]
  split
  · exact Steps.refl c
  · dsimp only
    have hDate : Steps env [.head, .finish] c { c with heads := c.heads + 1 } :=
      Steps.conn .head (by simp) rfl
    have hOpen : ∃ t ∈ ({ c with heads := c.heads + 1 } : H2Conn).streams, t.id = s.id ∧ t.Sending :=
      ⟨s, List.mem_of_getElem? hAt, rfl, hSending⟩
    have hBlock := hDate.trans
      ((h2SendHeaderBlock_steps hOpen (responseBlock s.res (env.date c.heads)) (bodyless s)).mono (by simp))
    split
    · rename_i hEq
      rw [hEq] at hBlock
      exact hBlock.trans (Steps.failIn .head _ (by simp))
    · rename_i c' hEq
      rw [hEq] at hBlock
      have hMark : Steps env [.head, .finish] c'
          (c'.modifyStream i fun s => { s with headersSent := true, bodyOff := 0 }) :=
        Steps.modify .head (by simp) fun s _ => rfl
      dsimp only
      split
      · exact (hBlock.trans hMark).trans (Steps.modify_endLocal _ i (by simp))
      · exact hBlock.trans hMark

theorem pumpStream_steps (c : H2Conn) (i : Nat) :
    Steps env [.head, .deliver, .finish] c (pumpStream env c i).1 := by
  rw [pumpStream]
  split
  · exact Steps.refl c
  · rename_i s hAt
    split
    · exact Steps.refl c
    · rename_i hGo
      have hReset : s.reset = false := Bool.not_eq_true _ ▸ (not_or.mp hGo).1
      have hEnded : s.localEnded = false := Bool.not_eq_true _ ▸ (not_or.mp (not_or.mp hGo).2).1
      have hHead : Steps env [.head, .deliver, .finish] c (if s.headersSent then (c, true)
        else pumpHead env c i s).1 := by
        split
        · exact Steps.refl c
        · exact (pumpHead_steps hAt ⟨hEnded, hReset⟩).mono (by simp)
      dsimp only
      generalize (if s.headersSent then (c, true) else pumpHead env c i s) = head at hHead ⊢
      split
      · refine hHead.trans (pumpBody_steps _ _ i (hHead.not_reset ?_))
        intro t ht
        obtain rfl : t = s := Option.some.inj (ht.symm.trans hAt)
        exact hReset
      · exact hHead

theorem pumpFrom_steps (left : Nat) :
    ∀ i c, Steps env [.head, .deliver, .finish] c (pumpFrom env left i c) := by
  induction left with
  | zero => exact fun _ c => Steps.refl c
  | succ left ih =>
    intro i c
    have hStream : Steps env [.head, .deliver, .finish] c (pumpStream env c i).1 := pumpStream_steps c i
    rw [pumpFrom]
    split
    · rename_i hEq
      rw [hEq] at hStream
      exact hStream
    · rename_i hEq
      rw [hEq] at hStream
      exact hStream.trans (ih _ _)

theorem h2Pump_steps (c : H2Conn) : Steps env [.head, .deliver, .finish] c (h2Pump env c) := by
  rw [h2Pump]
  split
  · exact pumpFrom_steps _ 0 c
  · exact Steps.refl c

theorem sweepFrom_steps (i : Nat) : ∀ c, Steps env [.drop] c (sweepFrom i c) := by
  induction i with
  | zero => exact fun c => Steps.refl c
  | succ i ih =>
    intro c
    rw [sweepFrom]
    split
    · exact ih c
    · rename_i hAt
      split
      · exact ((Step.drop c i (List.getElem?_eq_some_iff.mp hAt).1).toSteps (by simp)).trans (ih _)
      · exact ih c

theorem h2Sweep_steps (c : H2Conn) : Steps env [.drop] c (h2Sweep c) := sweepFrom_steps _ c

theorem settle_steps (c : H2Conn) : Steps env [.answer, .head, .deliver, .finish, .drop] c (settle env c) :=
  (((h2DispatchReady_steps c).mono (by simp)).trans ((h2Pump_steps _).mono (by simp))).trans
    ((h2Sweep_steps _).mono (by simp))

/-! ## The prologue -/

/-- The connection the prologue starts from, with the answer to an upgrade
written or not. -/
def prologueStart (env : H2Env) (upgrade : Option HttpRequest) : H2Conn :=
  match upgrade with
  | none => h2Init
  | some _ => (h2WriteText env h2Init upgrade101).1

theorem h2SendSettings_steps (c : H2Conn) : Steps env [.base, .grant, .opened] c (h2SendSettings env c) :=
  (Step.send .base c _ (.inr (.inl rfl))).toSteps (by simp)

theorem upgradeSettings_steps {c c' : H2Conn} {src : HttpRequest} (h : upgradeSettings c src = some c') :
    Steps env [.base, .grant] c c' := by
  rw [upgradeSettings] at h
  split at h
  · obtain rfl := Option.some.inj h
    exact Steps.refl c
  · split at h
    · cases h
    · split at h
      · cases h
      · dsimp only at h
        split at h
        · obtain rfl := Option.some.inj h
          exact h2ApplySettings_steps c _
        · cases h

theorem Step.lastStreamId_eq {k : Kind} {c c' : H2Conn} (h : Step env k c c') (hk : k ≠ .opened) :
    c'.lastStreamId = c.lastStreamId := by
  cases h with
  | fail _ _ e => rw [h2ConnError_eq]
  | send _ _ f _ =>
    obtain ⟨hEq, _⟩ | ⟨writes, hEq⟩ | ⟨writes, hEq⟩ := h2SendFrame_cases env c f
    · rw [hEq, h2ConnError_eq]
    · rw [hEq]
    · rw [hEq]
  | conn _ _ _ hChange =>
    cases k <;> rw [hChange]
  | streams => rfl
  | opened => exact absurd rfl hk
  | drop => rfl

theorem Steps.lastStreamId_eq {ks : List Kind} {c c' : H2Conn} (h : Steps env ks c c')
    (hk : Kind.opened ∉ ks) :
    c'.lastStreamId = c.lastStreamId :=
  h.preserves (P := fun c' => c'.lastStreamId = c.lastStreamId)
    (fun _ hMem _ _ hStep hEq => (hStep.lastStreamId_eq fun hEq => hk (hEq ▸ hMem)).trans hEq) rfl

theorem prologueStart_eq (upgrade : Option HttpRequest) :
    ∃ writes events, prologueStart env upgrade = { h2Init with writes := writes, trace := events } ∧
      ∀ e ∈ events, ∃ bytes, e = Event.text bytes := by
  cases upgrade with
  | none => exact ⟨0, [], rfl, fun e he => absurd he List.not_mem_nil⟩
  | some src =>
    rw [prologueStart, h2WriteText]
    split
    · refine ⟨1, [.text upgrade101], rfl, ?_⟩
      intro e he
      exact ⟨_, List.mem_singleton.mp he⟩
    · exact ⟨1, [], rfl, fun e he => absurd he List.not_mem_nil⟩

theorem h2Start_steps {upgrade : Option HttpRequest} {c : H2Conn} (h : h2Start env upgrade = some c) :
    Steps env [.base, .grant, .opened] (prologueStart env upgrade) c := by
  cases upgrade with
  | none =>
    obtain rfl := Option.some.inj h
    exact h2SendSettings_steps h2Init
  | some src =>
    simp only [h2Start] at h
    split at h
    · cases h
    · rename_i c' hText
      obtain ⟨c'', hSettings, rfl⟩ := Option.map_eq_some_iff.mp h
      have hStart : prologueStart env (some src) = c' := by
        rw [prologueStart, hText]
      have hLast : c''.lastStreamId = 0 := by
        rw [(@upgradeSettings_steps env _ _ _ hSettings).lastStreamId_eq (by simp), ← hStart]
        obtain ⟨_, _, hEq, _⟩ := @prologueStart_eq env (some src)
        rw [hEq]
        rfl
      rw [hStart]
      have hApply : Steps env [.base, .grant, .opened] c' c'' :=
        (upgradeSettings_steps hSettings).mono (by simp)
      have hOpen : Step env .opened c'' (h2AddUpgradeStream env c'' src) :=
        Step.opened c'' _ ⟨by rw [hLast]; exact Nat.one_pos, rfl⟩
      exact (hApply.trans (hOpen.toSteps (by simp))).trans (h2SendSettings_steps _)

end Cweb.H2
