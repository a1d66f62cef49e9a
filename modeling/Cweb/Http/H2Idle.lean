import Cweb.Http.H2BodyRun

/-!
# Settling twice

Settling leaves every stream answered, waiting for a window or ended. Such a
connection stays as it is when it is settled again, so the turns of the loop in
which no frame was taken change nothing.
-/

namespace Cweb.H2

open SwapRemove

variable {env : H2Env}

/-- Dispatching has nothing to do for the stream. -/
def Served (s : H2Stream) : Prop := s.dispatched = true ∨ s.reset = true ∨ s.remoteEnded = false

/-- Neither has the pump, with this much left of the connection's window. -/
def Idle (window : Int) (s : H2Stream) : Prop :=
  s.reset = true ∨ s.localEnded = true ∨ s.responseReady = false ∨
    s.headersSent = true ∧ min window s.sendWindow ≤ 0 ∧ ∀ room ≤ 0, h2NextData s room = (s, none)

theorem Idle.mono {window window' : Int} {s : H2Stream} (h : Idle window s) (hLe : window' ≤ window) :
    Idle window' s := by
  obtain h | h | h | ⟨hSent, hRoom, hNone⟩ := h
  · exact .inl h
  · exact .inr (.inl h)
  · exact .inr (.inr (.inl h))
  · refine .inr (.inr (.inr ⟨hSent, ?_, hNone⟩))
    omega

/-! ## Dispatching -/

theorem modify_eq_self {l : List H2Stream} {i : Nat} {s : H2Stream} (h : l[i]? = some s) :
    l.modify i (fun _ => s) = l := by
  apply List.ext_getElem?
  intro j
  rw [List.getElem?_modify]
  split
  · rename_i hEq
    subst hEq
    rw [h]
    rfl
  · exact Option.map_id_apply

theorem getElem?_modify_of_ne {l : List H2Stream} {i j : Nat} (g : H2Stream → H2Stream) (h : i ≠ j) :
    (l.modify i g)[j]? = l[j]? := by
  simp [h]

theorem modifyStream_eq_self {c : H2Conn} {i : Nat} {s : H2Stream} (h : c.streams[i]? = some s) :
    c.modifyStream i (fun _ => s) = c := by
  rw [H2Conn.modifyStream, modify_eq_self h]

theorem dispatchStream_of_served {c : H2Conn} {i : Nat} (h : ∀ s, c.streams[i]? = some s → Served s) :
    dispatchStream env c i = c := by
  rw [dispatchStream]
  cases hAt : c.streams[i]? with
  | none => rfl
  | some s =>
    dsimp only
    apply if_pos
    obtain h | h | h := h s hAt
    · exact .inl h
    · exact .inr (.inl h)
    · exact .inr (.inr (by rw [h]; exact Bool.false_ne_true))

theorem dispatchFrom_of_served (left : Nat) : ∀ i {c : H2Conn}, (∀ s ∈ c.streams, Served s) →
    dispatchFrom env left i c = c := by
  induction left with
  | zero => exact fun _ _ _ => rfl
  | succ left ih =>
    intro i c h
    rw [dispatchFrom, dispatchStream_of_served fun s hs => h s (List.mem_of_getElem? hs)]
    exact ih (i + 1) h

theorem dispatchStream_served (c : H2Conn) (i : Nat) :
    (∀ s, (dispatchStream env c i).streams[i]? = some s → Served s) ∧
      ∀ j, i ≠ j → (dispatchStream env c i).streams[j]? = c.streams[j]? := by
  have hModify : ∀ g : H2Stream → H2Stream, (∀ s, Served (g s)) →
      (∀ s, (c.streams.modify i g)[i]? = some s → Served s) ∧ ∀ j, i ≠ j →
      (c.streams.modify i g)[j]? = c.streams[j]? := by
    intro g hg
    constructor
    · intro s hs
      rw [List.getElem?_modify_eq] at hs
      obtain ⟨t, _, rfl⟩ := Option.map_eq_some_iff.mp hs
      exact hg t
    · intro j hj
      exact getElem?_modify_of_ne _ hj
  rw [dispatchStream]
  cases hAt : c.streams[i]? with
  | none =>
    refine ⟨fun s hs => ?_, fun _ _ => rfl⟩
    rw [hAt] at hs
    cases hs
  | some s =>
    dsimp only
    split
    · rename_i hSkip
      refine ⟨fun t ht => ?_, fun _ _ => rfl⟩
      obtain rfl : t = s := Option.some.inj (ht.symm.trans hAt)
      obtain h | h | h := hSkip
      · exact .inl h
      · exact .inr (.inl h)
      · exact .inr (.inr (Bool.not_eq_true _ ▸ h))
    · split
      · exact hModify _ fun _ => .inl rfl
      · split
        · split
          · exact hModify _ fun _ => .inl rfl
          · exact hModify _ fun _ => .inl rfl
          · exact hModify _ fun _ => .inl rfl
        · exact hModify _ fun _ => .inl rfl

theorem dispatchFrom_served (left : Nat) : ∀ i {c : H2Conn},
    (∀ j s, j < i → c.streams[j]? = some s → Served s) →
      ∀ j s, j < i + left → (dispatchFrom env left i c).streams[j]? = some s → Served s := by
  induction left with
  | zero => exact fun _ _ h => h
  | succ left ih =>
    intro i c h j s hj
    obtain ⟨hHere, hOthers⟩ := @dispatchStream_served env c i
    refine ih (i + 1) ?_ j s (by omega)
    intro k t hk ht
    by_cases hEq : k = i
    · subst hEq
      exact hHere t ht
    · rw [hOthers k (Ne.symm hEq)] at ht
      exact h k t (by omega) ht

theorem Step.length_of_answer {c c' : H2Conn} (h : Step env .answer c c') :
    c'.streams.length = c.streams.length := by
  cases h with
  | fail => rw [h2ConnError_eq]
  | send => rw [h2SendFrame_streams]
  | conn _ _ _ hChange => rw [hChange]
  | streams _ _ l hTouch => exact hTouch.length_eq.symm

theorem dispatchFrom_length (left i : Nat) (c : H2Conn) :
    (dispatchFrom env left i c).streams.length = c.streams.length := by
  refine (dispatchFrom_steps left i c).preserves (P := fun c' => c'.streams.length = c.streams.length) ?_ rfl
  intro k hk _ _ hStep hEq
  obtain rfl := List.mem_singleton.mp hk
  exact hStep.length_of_answer.trans hEq

theorem h2DispatchReady_served {c : H2Conn} (hOk : c.error = none) :
    ∀ s ∈ (h2DispatchReady env c).streams, Served s := by
  intro s hs
  rw [h2DispatchReady, if_pos hOk] at hs
  obtain ⟨j, hj⟩ := List.mem_iff_getElem?.mp hs
  have hLt := (List.getElem?_eq_some_iff.mp hj).1
  rw [dispatchFrom_length] at hLt
  exact dispatchFrom_served _ 0 (fun _ _ hLt => absurd hLt (Nat.not_lt_zero _)) j s (by omega) hj

/-! ## What keeps the pump waiting -/

theorem skipDrained_eq_self {s : H2Stream}
    (h : ∀ ch, s.res.streamChunks[s.queueI]? = some ch → ch.length - s.queueOff ≠ 0) (fuel : Nat) :
    skipDrained fuel s = s := by
  cases fuel with
  | zero => rfl
  | succ fuel =>
    rw [skipDrained]
    cases hAt : s.res.streamChunks[s.queueI]? with
    | none => rfl
    | some ch => exact if_neg (h ch hAt)

/-- Without a payload it is the window that is missing, and asking again
changes nothing. -/
theorem h2NextData_blocked {s s' : H2Stream} {room : Int} (h : h2NextData s room = (s', none)) :
    room ≤ 0 ∧ ∀ room' ≤ 0, h2NextData s' room' = (s', none) := by
  rw [h2NextData] at h
  split at h
  · rename_i hStreaming
    have hRes : (skipDrained s.res.streamChunks.length s).res = s.res := by rw [skipDrained_moves]
    have hRest : ∀ ch, (skipDrained s.res.streamChunks.length s).res.streamChunks[
        (skipDrained s.res.streamChunks.length s).queueI]? = some ch →
          ch.length - (skipDrained s.res.streamChunks.length s).queueOff ≠ 0 :=
      fun ch hAt => skipDrained_rest s.res.streamChunks.length (s := s) (by omega) hAt
    generalize skipDrained s.res.streamChunks.length s = t at h hRes hRest
    dsimp only at h
    -- what is drained has been skipped, so the next call stands before the same chunk or producer
    have hChunk : ∀ ch, t.res.streamChunks[t.queueI]? = some ch →
      ∀ room', h2NextData t room' = nextChunk t ch room' := by
      intro ch hAt room'
      rw [h2NextData, hRes, if_pos hStreaming, ← hRes]
      dsimp only
      rw [skipDrained_eq_self hRest, hAt]
    have hProduce : ∀ fn, t.res.streamChunks[t.queueI]? = none → t.res.streamFn = some fn →
        ∀ room', h2NextData t room' = nextProduced t fn room' := by
      intro fn hAt hFn room'
      rw [h2NextData, hRes, if_pos hStreaming, ← hRes]
      dsimp only
      rw [skipDrained_eq_self hRest, hAt]
      dsimp only
      rw [hFn]
    cases hAt : t.res.streamChunks[t.queueI]? with
    | some ch =>
      rw [hAt] at h
      dsimp only at h
      rw [nextChunk] at h
      split at h
      · rename_i hRoom
        obtain rfl := (Prod.mk.inj h).1
        refine ⟨hRoom, ?_⟩
        intro room' hRoom'
        rw [hChunk ch hAt, nextChunk, if_pos hRoom']
      · cases h
    | none =>
      rw [hAt] at h
      dsimp only at h
      cases hFn : t.res.streamFn with
      | none =>
        rw [hFn] at h
        cases h
      | some fn =>
        rw [hFn] at h
        dsimp only at h
        rw [nextProduced] at h
        split at h
        · cases h
        · rename_i hEof
          split at h
          · rename_i hRoom
            obtain rfl := (Prod.mk.inj h).1
            refine ⟨hRoom, ?_⟩
            intro room' hRoom'
            rw [hProduce fn hAt hFn, nextProduced, if_neg hEof, if_pos hRoom']
          · dsimp only at h
            split at h <;> cases h
  · rename_i hStreaming
    rw [nextAssembled] at h
    split at h
    · cases h
    · rename_i hLeft
      split at h
      · rename_i hRoom
        obtain rfl := (Prod.mk.inj h).1
        refine ⟨hRoom, ?_⟩
        intro room' hRoom'
        rw [h2NextData, if_neg hStreaming, nextAssembled, if_neg hLeft, if_pos hRoom']
      · cases h

/-! ## A pump with nothing to do -/

theorem pumpStream_of_idle {c : H2Conn} {i : Nat}
    (h : ∀ s, c.streams[i]? = some s → Idle c.connSendWindow s) :
    pumpStream env c i = (c, true) := by
  rw [pumpStream]
  cases hAt : c.streams[i]? with
  | none => rfl
  | some s =>
    dsimp only
    split
    · rfl
    · rename_i hGo
      obtain ⟨hReset, hGo⟩ := not_or.mp hGo
      obtain ⟨hEnded, hReady⟩ := not_or.mp hGo
      obtain h | h | h | ⟨hSent, hRoom, hNone⟩ := h s hAt
      · exact absurd h hReset
      · exact absurd h hEnded
      · exact absurd (by rw [h]; exact Bool.false_ne_true) hReady
      · have hRound : pumpRound env c i s = (c, false) := by
          rw [pumpRound]
          dsimp only
          rw [hNone _ hRoom]
          dsimp only
          rw [modifyStream_eq_self hAt]
        rw [hSent]
        change (pumpBody env (c.connSendWindow.toNat + 1) c i, true) = (c, true)
        rw [pumpBody, hAt]
        dsimp only
        split
        · rfl
        · rw [hRound]

theorem pumpFrom_of_idle (left : Nat) : ∀ i {c : H2Conn}, (∀ s ∈ c.streams, Idle c.connSendWindow s) →
    pumpFrom env left i c = c := by
  induction left with
  | zero => exact fun _ _ _ => rfl
  | succ left ih =>
    intro i c h
    rw [pumpFrom, pumpStream_of_idle fun s hs => h s (List.mem_of_getElem? hs)]
    exact ih (i + 1) h

/-! ## What the pump leaves -/

/-- The part of the pump that serves slot `i` leaves the other streams alone
and gives nothing back to the connection's window. -/
structure Serves (i : Nat) (c c' : H2Conn) : Prop where
  others : ∀ j, i ≠ j → c'.streams[j]? = c.streams[j]?
  window : c'.connSendWindow ≤ c.connSendWindow

theorem Serves.same {i : Nat} {c c' : H2Conn} (hStreams : c'.streams = c.streams)
    (hWindow : c'.connSendWindow = c.connSendWindow) : Serves i c c' :=
  ⟨fun _ _ => by rw [hStreams], hWindow.le⟩

theorem Serves.refl (i : Nat) (c : H2Conn) : Serves i c c := Serves.same rfl rfl

theorem Serves.trans {i : Nat} {c c' c'' : H2Conn} (h : Serves i c c') (h' : Serves i c' c'') :
    Serves i c c'' :=
  ⟨fun j hj => (h'.others j hj).trans (h.others j hj), h'.window.trans h.window⟩

theorem Serves.modify {i : Nat} {c c' : H2Conn} (h : Serves i c c') (g : H2Stream → H2Stream) :
    Serves i c (c'.modifyStream i g) :=
  ⟨fun j hj => (getElem?_modify_of_ne g hj).trans (h.others j hj), h.window⟩

theorem serves_connError (i : Nat) (c : H2Conn) (e : H2Error) : Serves i c (h2ConnError c e) := by
  rw [h2ConnError_eq]
  exact Serves.same rfl rfl

theorem serves_sendFrame (i : Nat) (c : H2Conn) (f : H2Frame) : Serves i c (h2SendFrame env c f).1 := by
  obtain ⟨hEq, _⟩ | ⟨writes, hEq⟩ | ⟨writes, hEq⟩ := h2SendFrame_cases env c f
  · rw [hEq]
    exact serves_connError i c _
  · rw [hEq]
    exact Serves.same rfl rfl
  · rw [hEq]
    exact Serves.same rfl rfl

theorem serves_sendFrames (i : Nat) (frames : List H2Frame) :
    ∀ c, Serves i c (sendFrames env c frames).1 := by
  induction frames with
  | nil => exact fun c => Serves.refl i c
  | cons f frames ih =>
    intro c
    have hSend := @serves_sendFrame env i c f
    rw [sendFrames]
    split
    · rename_i hEq
      rw [hEq] at hSend
      exact hSend.trans (ih _)
    · rename_i hEq
      rw [hEq] at hSend
      exact hSend

theorem serves_sendData (i : Nat) (c : H2Conn) (id : Nat) (src : Bytes) (eof : Bool) :
    Serves i c (h2SendData env c i id src eof) := by
  have hSend := @serves_sendFrame env i c ⟨.data, if eof then 1 else 0, id, src⟩
  rw [h2SendData]
  split
  · rename_i hEq
    rw [hEq] at hSend
    exact hSend.trans (serves_connError i _ _)
  · rename_i c' hEq
    rw [hEq] at hSend
    refine hSend.trans ⟨fun j hj => getElem?_modify_of_ne _ hj, ?_⟩
    change c'.connSendWindow - src.length ≤ c'.connSendWindow
    omega

theorem pumpRound_serves (c : H2Conn) (i : Nat) (s : H2Stream) : Serves i c (pumpRound env c i s).1 := by
  rw [pumpRound]
  dsimp only
  split
  · exact (Serves.refl i c).modify _
  · split
    · exact (Serves.refl i c).modify _
    · have hSend := fun s' src eof =>
        ((Serves.refl i c).modify fun _ => s').trans (@serves_sendData env i _ s.id src eof)
      split
      · exact (hSend _ _ _).modify _
      · exact hSend _ _ _

theorem pumpHead_serves (c : H2Conn) (i : Nat) (s : H2Stream) : Serves i c (pumpHead env c i s).1 := by
  rw [pumpHead]
  split
  · exact Serves.refl i c
  · dsimp only
    have hDate : Serves i c { c with heads := c.heads + 1 } := Serves.same rfl rfl
    have hBlock : Serves i c (h2SendHeaderBlock env { c with heads := c.heads + 1 } s.id
        (responseBlock s.res (env.date c.heads)) (bodyless s)).1 := by
      rw [h2SendHeaderBlock]
      exact hDate.trans (serves_sendFrames i _ _)
    split
    · rename_i hEq
      rw [hEq] at hBlock
      exact hBlock.trans (serves_connError i _ _)
    · rename_i hEq
      rw [hEq] at hBlock
      dsimp only
      split
      · exact (hBlock.modify _).modify _
      · exact hBlock.modify _

theorem pumpBody_serves (fuel : Nat) : ∀ c i, Serves i c (pumpBody env fuel c i) := by
  induction fuel with
  | zero => exact fun c i => Serves.refl i c
  | succ fuel ih =>
    intro c i
    rw [pumpBody]
    split
    · exact Serves.refl i c
    · rename_i s _
      split
      · exact Serves.refl i c
      · have hRound := @pumpRound_serves env c i s
        split
        · rename_i hEq
          rw [hEq] at hRound
          exact hRound
        · rename_i hEq
          rw [hEq] at hRound
          exact hRound.trans (ih _ _)

theorem pumpStream_serves (c : H2Conn) (i : Nat) : Serves i c (pumpStream env c i).1 := by
  rw [pumpStream]
  split
  · exact Serves.refl i c
  · rename_i s _
    split
    · exact Serves.refl i c
    · have hHead : Serves i c (if s.headersSent then (c, true) else pumpHead env c i s).1 := by
        split
        · exact Serves.refl i c
        · exact pumpHead_serves c i s
      dsimp only
      generalize (if s.headersSent then (c, true) else pumpHead env c i s) = head at hHead ⊢
      split
      · exact hHead.trans (pumpBody_serves _ _ i)
      · exact hHead

theorem pumpRound_idle {c : H2Conn} {i : Nat} {s : H2Stream} (hAt : c.streams[i]? = some s)
    (hSent : s.headersSent = true) :
    ∃ s', (pumpRound env c i s).1.streams[i]? = some s' ∧ s'.headersSent = true ∧
      ((pumpRound env c i s).2 = false → Idle (pumpRound env c i s).1.connSendWindow s') := by
  have hMoves := h2NextData_moves s (min c.connSendWindow s.sendWindow)
  have hModify : ∀ g : H2Stream → H2Stream, (c.modifyStream i g).streams[i]? = some (g s) := by
    intro g
    rw [H2Conn.modifyStream, List.getElem?_modify_eq, hAt]
    rfl
  rw [pumpRound]
  dsimp only
  rcases hNext : h2NextData s (min c.connSendWindow s.sendWindow) with ⟨s', _ | ⟨src, eof⟩⟩
  · obtain ⟨hRoom, hAgain⟩ := h2NextData_blocked hNext
    rw [hNext, CursorMoves] at hMoves
    dsimp only at hMoves ⊢
    have hSent' : s'.headersSent = true := by
      rw [hMoves]
      exact hSent
    have hWindow : s'.sendWindow = s.sendWindow := by rw [hMoves]
    refine ⟨s', hModify _, hSent', fun _ => .inr (.inr (.inr ⟨hSent', ?_, hAgain⟩))⟩
    rw [hWindow]
    exact hRoom
  · rw [hNext, CursorMoves] at hMoves
    dsimp only at hMoves ⊢
    have hSent' : s'.headersSent = true := by
      rw [hMoves]
      exact hSent
    split
    · rename_i hStuck
      obtain ⟨_, hRoom⟩ := h2NextData_length hNext
      have hPos := hRoom.resolve_left hStuck.1
      omega
    · obtain ⟨t, ht, hSentT⟩ : ∃ t,
        (h2SendData env (c.modifyStream i fun _ => s') i s.id src eof).streams[i]? = some t ∧
          t.headersSent = true := by
        rw [h2SendData]
        have hStreams :=
          h2SendFrame_streams env (c.modifyStream i fun _ => s') ⟨.data, if eof then 1 else 0, s.id, src⟩
        split
        · rename_i hEq
          rw [hEq] at hStreams
          rw [h2ConnError_eq]
          dsimp only at hStreams ⊢
          rw [hStreams]
          exact ⟨s', hModify _, hSent'⟩
        · rename_i hEq
          rw [hEq] at hStreams
          dsimp only at hStreams ⊢
          rw [List.getElem?_modify_eq, hStreams, hModify]
          exact ⟨_, rfl, hSent'⟩
      split
      · refine ⟨endLocal t, ?_, hSentT, fun _ => .inr (.inl rfl)⟩
        rw [H2Conn.modifyStream, List.getElem?_modify_eq, ht]
        rfl
      · refine ⟨t, ht, hSentT, ?_⟩
        intro hFalse
        cases hFalse

theorem pumpBody_idle (fuel : Nat) : ∀ {c : H2Conn} {i : Nat} {s : H2Stream}, c.streams[i]? = some s →
    s.headersSent = true → c.connSendWindow.toNat < fuel → (pumpBody env fuel c i).error = none →
      ∀ s', (pumpBody env fuel c i).streams[i]? = some s' →
        Idle (pumpBody env fuel c i).connSendWindow s' := by
  induction fuel with
  | zero => exact fun _ _ h => absurd h (Nat.not_lt_zero _)
  | succ fuel ih =>
    intro c i s hAt hSent hFuel hOk s' hs'
    rw [pumpBody, hAt] at hOk hs' ⊢
    dsimp only at hOk hs' ⊢
    split
    · rename_i hStop
      rw [if_pos hStop] at hOk hs'
      obtain rfl : s = s' := Option.some.inj (hAt.symm.trans hs')
      exact .inr (.inl (hStop.resolve_right fun hErr => hErr hOk))
    · rename_i hGo
      rw [if_neg hGo] at hOk hs'
      obtain ⟨t, ht, hSentT, hIdle⟩ := @pumpRound_idle env c i s hAt hSent
      rcases hRound : pumpRound env c i s with ⟨c', _ | _⟩
      · rw [hRound] at ht hIdle hOk hs'
        obtain rfl : t = s' := Option.some.inj (ht.symm.trans hs')
        exact hIdle rfl
      · rw [hRound] at ht hOk hs'
        dsimp only at ht hOk hs' ⊢
        obtain hError | hLess := pumpRound_uses hRound
        · exfalso
          cases fuel with
          | zero => exact hError hOk
          | succ fuel =>
            rw [pumpBody, ht] at hOk
            dsimp only at hOk
            rw [if_pos (.inr hError)] at hOk
            exact hError hOk
        · exact ih ht hSentT (by omega) hOk s' hs'

theorem sendFrames_streams (frames : List H2Frame) :
    ∀ c, (sendFrames env c frames).1.streams = c.streams := by
  induction frames with
  | nil => exact fun _ => rfl
  | cons f frames ih =>
    intro c
    have hSend := h2SendFrame_streams env c f
    rw [sendFrames]
    split
    · rename_i hEq
      rw [hEq] at hSend
      exact (ih _).trans hSend
    · rename_i hEq
      rw [hEq] at hSend
      exact hSend

/-- The head goes out and its stream is in place, unless the connection fails. -/
theorem pumpHead_out {c : H2Conn} {i : Nat} {s : H2Stream} (hAt : c.streams[i]? = some s)
    (hOk : (pumpHead env c i s).1.error = none) :
    (pumpHead env c i s).2 = true ∧ ∃ s', (pumpHead env c i s).1.streams[i]? = some s' ∧
      s'.headersSent = true := by
  rw [pumpHead] at hOk ⊢
  split at hOk
  · rename_i hErr
    exact absurd hOk hErr
  · rename_i hGo
    rw [if_neg hGo]
    dsimp only at hOk ⊢
    have hStreams : (h2SendHeaderBlock env { c with heads := c.heads + 1 } s.id
        (responseBlock s.res (env.date c.heads)) (bodyless s)).1.streams = c.streams := by
      rw [h2SendHeaderBlock, sendFrames_streams]
    split at hOk
    · exact absurd hOk (h2ConnError_error_ne_none _ _)
    · rename_i c' hEq
      rw [hEq] at hStreams
      dsimp only at hStreams ⊢
      refine ⟨rfl, ?_⟩
      split
      · rw [H2Conn.modifyStream, H2Conn.modifyStream, List.getElem?_modify_eq, List.getElem?_modify_eq,
          hStreams, hAt]
        exact ⟨_, rfl, rfl⟩
      · rw [H2Conn.modifyStream, List.getElem?_modify_eq, hStreams, hAt]
        exact ⟨_, rfl, rfl⟩

theorem pumpStream_idle {c : H2Conn} {i : Nat} (hOk : (pumpStream env c i).1.error = none) :
    (pumpStream env c i).2 = true ∧
      ∀ s, (pumpStream env c i).1.streams[i]? = some s → Idle (pumpStream env c i).1.connSendWindow s := by
  rw [pumpStream] at hOk ⊢
  cases hAt : c.streams[i]? with
  | none =>
    refine ⟨rfl, fun s hs => ?_⟩
    dsimp only at hs
    rw [hAt] at hs
    cases hs
  | some s =>
    rw [hAt] at hOk
    dsimp only at hOk ⊢
    split
    · rename_i hSkip
      refine ⟨rfl, fun t ht => ?_⟩
      obtain rfl : t = s := Option.some.inj (ht.symm.trans hAt)
      obtain h | h | h := hSkip
      · exact .inl h
      · exact .inr (.inl h)
      · exact .inr (.inr (.inl (Bool.not_eq_true _ ▸ h)))
    · rename_i hGo
      rw [if_neg hGo] at hOk
      cases hSent : s.headersSent with
      | true =>
        rw [hSent] at hOk
        exact ⟨rfl, pumpBody_idle _ hAt hSent (Nat.lt_succ_self _) hOk⟩
      | false =>
        rw [hSent, if_neg Bool.false_ne_true] at hOk
        rw [if_neg Bool.false_ne_true]
        have hHead : (pumpHead env c i s).1.error = none := by
          split at hOk
          · obtain ⟨hReset, hEnded⟩ := not_or.mp hGo
            have hSending : s.Sending :=
              ⟨Bool.not_eq_true _ ▸ (not_or.mp hEnded).1, Bool.not_eq_true _ ▸ hReset⟩
            have hSteps : Steps env [.head, .deliver, .finish] c (pumpHead env c i s).1 :=
              (pumpHead_steps hAt hSending).mono (by simp)
            refine (pumpBody_steps _ _ i (hSteps.not_reset ?_)).error_mono hOk
            intro t ht
            obtain rfl : t = s := Option.some.inj (ht.symm.trans hAt)
            exact hSending.2
          · exact hOk
        obtain ⟨hOut, s', hAt', hSent'⟩ := pumpHead_out hAt hHead
        rw [if_pos hOut] at hOk ⊢
        exact ⟨rfl, pumpBody_idle _ hAt' hSent' (Nat.lt_succ_self _) hOk⟩

theorem pumpFrom_idle (left : Nat) : ∀ i {c : H2Conn}, (pumpFrom env left i c).error = none →
    (∀ j s, j < i → c.streams[j]? = some s → Idle c.connSendWindow s) →
      ∀ j s, j < i + left → (pumpFrom env left i c).streams[j]? = some s →
        Idle (pumpFrom env left i c).connSendWindow s := by
  induction left with
  | zero => exact fun _ _ _ h => h
  | succ left ih =>
    intro i c hOk h j s hj
    have hRest := fun c' => @pumpFrom_steps env left (i + 1) c'
    rw [pumpFrom] at hOk ⊢
    have hServes := @pumpStream_serves env c i
    have hIdle := @pumpStream_idle env c i
    rcases hStream : pumpStream env c i with ⟨c', _ | _⟩
    · rw [hStream] at hIdle hOk
      cases (hIdle hOk).1
    · rw [hStream] at hIdle hOk hServes
      dsimp only at hIdle hOk hServes ⊢
      refine ih (i + 1) hOk ?_ j s (by omega)
      intro k t hk ht
      by_cases hEq : k = i
      · subst k
        exact (hIdle ((hRest c').error_mono hOk)).2 t ht
      · rw [hServes.others k (Ne.symm hEq)] at ht
        exact (h k t (by omega) ht).mono hServes.window

theorem h2Pump_idle {c : H2Conn} (hOk : (h2Pump env c).error = none) :
    ∀ s ∈ (h2Pump env c).streams, Idle (h2Pump env c).connSendWindow s := by
  intro s hs
  have hBefore : c.error = none := (h2Pump_steps c).error_mono hOk
  have hFixed := (@h2Pump_steps env c).map_fixed
  rw [h2Pump, if_pos hBefore] at hOk hs hFixed ⊢
  obtain ⟨j, hj⟩ := List.mem_iff_getElem?.mp hs
  have hLt := (List.getElem?_eq_some_iff.mp hj).1
  have hLength := congrArg List.length hFixed
  rw [List.length_map, List.length_map] at hLength
  exact pumpFrom_idle _ 0 hOk (fun _ _ hLt => absurd hLt (Nat.not_lt_zero _)) j s (by omega) hj

/-! ## Settling -/

theorem sweepFrom_of_live (i : Nat) : ∀ {c : H2Conn}, (∀ s ∈ c.streams, s.done = false) →
    sweepFrom i c = c := by
  induction i with
  | zero => exact fun _ => rfl
  | succ i ih =>
    intro c h
    rw [sweepFrom]
    cases hAt : c.streams[i]? with
    | none => exact ih h
    | some s =>
      dsimp only
      rw [h s (List.mem_of_getElem? hAt), if_neg Bool.false_ne_true]
      exact ih h

theorem sweepFrom_subset (i : Nat) : ∀ c : H2Conn,
    (∀ s ∈ (sweepFrom i c).streams, s ∈ c.streams) ∧ (sweepFrom i c).connSendWindow = c.connSendWindow := by
  induction i with
  | zero => exact fun c => ⟨fun _ hs => hs, rfl⟩
  | succ i ih =>
    intro c
    rw [sweepFrom]
    split
    · exact ih c
    · rename_i hAt
      split
      · obtain ⟨hMem, hWindow⟩ := ih (h2FreeStream c i)
        exact ⟨fun t ht => mem_of_mem_swapRemove (List.getElem?_eq_some_iff.mp hAt).1 (hMem t ht), hWindow⟩
      · exact ih c

theorem settle_idle {c : H2Conn} (hOk : (settle env c).error = none) :
    ∀ s ∈ (settle env c).streams, Served s ∧ Idle (settle env c).connSendWindow s := by
  have hPump : (h2Pump env (h2DispatchReady env c)).error = none := (@h2Sweep_steps env _).error_mono hOk
  have hReady : (h2DispatchReady env c).error = none := (h2Pump_steps _).error_mono hPump
  have hBefore : c.error = none := (h2DispatchReady_steps c).error_mono hReady
  obtain ⟨hMem, hWindow⟩ := sweepFrom_subset (h2Pump env (h2DispatchReady env c)).streams.length
    (h2Pump env (h2DispatchReady env c))
  intro s hs
  have hs' := hMem s hs
  refine ⟨?_, ?_⟩
  · obtain ⟨i, hi⟩ := List.mem_iff_getElem?.mp hs'
    obtain ⟨t, ht, hFixed⟩ := (@h2Pump_steps env (h2DispatchReady env c)).getElem?_fixed hi
    obtain ⟨_, hFixed⟩ := Prod.mk.inj hFixed
    obtain ⟨hReset, hFixed⟩ := Prod.mk.inj hFixed
    obtain ⟨hDispatched, hEnded⟩ := Prod.mk.inj hFixed
    have hServed := h2DispatchReady_served hBefore t (List.mem_of_getElem? ht)
    rw [Served, hReset, hDispatched, hEnded]
    exact hServed
  · have hIdle := h2Pump_idle hPump s hs'
    rw [settle, h2Sweep, hWindow]
    exact hIdle

theorem settle_settle {c : H2Conn} (hOk : (settle env c).error = none) :
    settle env (settle env c) = settle env c := by
  have hRest := settle_idle hOk
  have hLive := h2Sweep_live (h2Pump env (h2DispatchReady env c))
  have hDispatch : h2DispatchReady env (settle env c) = settle env c := by
    rw [h2DispatchReady, if_pos hOk]
    exact dispatchFrom_of_served _ 0 fun s hs => (hRest s hs).1
  have hPump : h2Pump env (settle env c) = settle env c := by
    rw [h2Pump, if_pos hOk]
    exact pumpFrom_of_idle _ 0 fun s hs => (hRest s hs).2
  calc
    settle env (settle env c) = h2Sweep (h2Pump env (h2DispatchReady env (settle env c))) := rfl
    _ = h2Sweep (settle env c) := by rw [hDispatch, hPump]
    _ = settle env c := sweepFrom_of_live _ hLive

end Cweb.H2
