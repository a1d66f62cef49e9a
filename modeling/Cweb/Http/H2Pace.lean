import Cweb.Http.H2Grant

/-!
# Pumping within the windows

One round of the pump takes at most what both windows leave, so the ledger
holds after every DATA frame and at the end of every pump.
-/

namespace Cweb.H2

open SwapRemove

variable {env : H2Env} {w : Nat}

/-! ## Producers -/

/-- No stream has a producer that returns more than it was offered. -/
def Fair (c : H2Conn) : Prop := ∀ s ∈ c.streams, ∀ fn, s.res.streamFn = some fn → Capped fn

def CappedHandler (env : H2Env) : Prop := ∀ calls fn, (env.handler calls).streamFn = some fn → Capped fn

theorem Kind.Touches.res_eq {k : Kind} {s s' : H2Stream} (h : k.Touches s s') (hk : k ≠ .answer) :
    s'.res = s.res := by
  cases k with
  | answer => exact absurd rfl hk
  | _ => rw [h]

theorem Step.fair {k : Kind} {c c' : H2Conn} (h : Step env k c c') (hk : k ≠ .answer) (hc : Fair c) :
    Fair c' := by
  cases h with
  | fail _ _ e =>
    rw [h2ConnError_eq]
    exact hc
  | send _ _ f _ =>
    rw [Fair, h2SendFrame_streams]
    exact hc
  | conn _ _ _ hChange =>
    cases k <;> (rw [hChange]; exact hc)
  | streams _ _ l hTouch =>
    intro s' hs' fn hFn
    obtain ⟨s, hs, hR⟩ := mem_of_forall₂ hTouch hs'
    rw [hR.res_eq hk] at hFn
    exact hc s hs fn hFn
  | opened _ s hOpens =>
    intro t ht fn hFn
    obtain ht | ht := List.mem_append.mp ht
    · exact hc t ht fn hFn
    · obtain rfl := List.mem_singleton.mp ht
      rw [hOpens.2] at hFn
      cases hFn
  | drop _ i hi => exact fun s hs => hc s (mem_of_mem_swapRemove hi hs)

theorem Steps.fair {ks : List Kind} {c c' : H2Conn} (h : Steps env ks c c') (hk : Kind.answer ∉ ks)
    (hc : Fair c) :
    Fair c' :=
  h.preserves (fun _ hMem _ _ hStep => hStep.fair fun hEq => hk (hEq ▸ hMem)) hc

theorem fair_modify {c : H2Conn} (hc : Fair c) (i : Nat) {g : H2Stream → H2Stream}
    (hg : ∀ s fn, (g s).res.streamFn = some fn → Capped fn) : Fair (c.modifyStream i g) := by
  intro t ht fn hFn
  obtain ht | ⟨s, _, rfl⟩ := mem_of_mem_modify ht
  · exact hc t ht fn hFn
  · exact hg s fn hFn

theorem dispatchStream_fair (hEnv : CappedHandler env) {c : H2Conn} (hc : Fair c) (i : Nat) :
    Fair (dispatchStream env c i) := by
  have hDirect : ∀ status, Fair (c.modifyStream i fun s => h2DirectError s status) := by
    intro status
    refine fair_modify hc i ?_
    intro s fn hFn
    cases hFn
  have hHandled : ∀ s, Fair (h2Dispatch env c i s) := by
    intro s t ht fn hFn
    obtain ht | ⟨_, _, rfl⟩ := mem_of_mem_modify ht
    · exact hc t ht fn hFn
    · exact hEnv _ fn hFn
  rw [dispatchStream]
  split
  · exact hc
  · split
    · exact hc
    · split
      · exact hDirect 413
      · split
        · split
          · exact hDirect 400
          · exact hDirect 413
          · exact hHandled _
        · exact hHandled _

theorem dispatchFrom_fair (hEnv : CappedHandler env) (left : Nat) :
    ∀ i c, Fair c → Fair (dispatchFrom env left i c) := by
  induction left with
  | zero => exact fun _ _ hc => hc
  | succ left ih => exact fun i c hc => ih _ _ (dispatchStream_fair hEnv hc i)

theorem h2DispatchReady_fair (hEnv : CappedHandler env) {c : H2Conn} (hc : Fair c) :
    Fair (h2DispatchReady env c) := by
  rw [h2DispatchReady]
  split
  · exact dispatchFrom_fair hEnv _ 0 c hc
  · exact hc

/-! ## One round -/

theorem dataCap_le {room : Int} (h : 0 < room) : (dataCap room : Int) ≤ room ∧
    dataCap room ≤ h2MaxFrameSize := by
  rw [dataCap]
  split <;> omega

theorem skipDrained_res (fuel : Nat) (s : H2Stream) : (skipDrained fuel s).res = s.res := by
  rw [skipDrained_moves fuel s]

theorem h2NextData_fits {s s' : H2Stream} {room : Int} {src : Bytes} {eof : Bool}
    (hFair : ∀ fn, s.res.streamFn = some fn → Capped fn) (h : h2NextData s room = (s', some (src, eof))) :
    src = [] ∨ 0 < room ∧ src.length ≤ dataCap room := by
  rw [h2NextData] at h
  split at h
  · dsimp only at h
    split at h
    · rw [nextChunk] at h
      split at h
      · cases h
      · obtain ⟨_, h⟩ := Prod.mk.inj h
        obtain ⟨rfl, _⟩ := Prod.mk.inj (Option.some.inj h)
        refine .inr ⟨by omega, ?_⟩
        rw [List.length_take]
        omega
    · split at h
      · obtain ⟨_, h⟩ := Prod.mk.inj h
        obtain ⟨rfl, _⟩ := Prod.mk.inj (Option.some.inj h)
        exact .inl rfl
      · rename_i fn hFn
        rw [skipDrained_res] at hFn
        rw [nextProduced] at h
        split at h
        · obtain ⟨_, h⟩ := Prod.mk.inj h
          obtain ⟨rfl, _⟩ := Prod.mk.inj (Option.some.inj h)
          exact .inl rfl
        · split at h
          · cases h
          · dsimp only at h
            split at h
            · obtain ⟨_, h⟩ := Prod.mk.inj h
              obtain ⟨rfl, _⟩ := Prod.mk.inj (Option.some.inj h)
              exact .inl rfl
            · obtain ⟨_, h⟩ := Prod.mk.inj h
              obtain ⟨rfl, _⟩ := Prod.mk.inj (Option.some.inj h)
              exact .inr ⟨by omega, hFair fn hFn _ _⟩
  · rw [nextAssembled] at h
    split at h
    · obtain ⟨_, h⟩ := Prod.mk.inj h
      obtain ⟨rfl, _⟩ := Prod.mk.inj (Option.some.inj h)
      exact .inl rfl
    · split at h
      · cases h
      · obtain ⟨_, h⟩ := Prod.mk.inj h
        obtain ⟨rfl, _⟩ := Prod.mk.inj (Option.some.inj h)
        refine .inr ⟨by omega, ?_⟩
        rw [List.length_take]
        omega

theorem SendLedger.modify {c : H2Conn} {i : Nat} {s : H2Stream} {g : H2Stream → H2Stream}
    (hc : SendLedger w c)
    (hDistinct : Distinct c) (hAt : c.streams[i]? = some s) (hId : (g s).id = s.id)
    (hWindow : (g s).sendWindow = s.sendWindow) : SendLedger w (c.modifyStream i g) := by
  refine ⟨hc.conn, hc.range, hc.init, ?_, hc.unopened, hc.paced⟩
  intro t ht
  obtain rfl | ⟨ht, _⟩ := mem_modify hDistinct.nodup hAt ht
  · rw [hId, hWindow]
    exact hc.streams s (List.mem_of_getElem? hAt)
  · exact hc.streams t ht

theorem h2SendData_sendLedger {c c' : H2Conn} {i : Nat} {s : H2Stream} {src : Bytes} {eof : Bool}
    (hc : SendLedger w c) (hDistinct : Distinct c) (hAt : c.streams[i]? = some s)
    (hFits : (src.length : Int) ≤ c.connSendWindow)
    (hPaced : 0 < src.length → (src.length : Int) ≤ s.sendWindow ∧ src.length ≤ h2MaxFrameSize)
    (h : h2SendData env c i s.id src eof = c') (hOk : c'.error = none) : SendLedger w c' := by
  have hMem := List.mem_of_getElem? hAt
  rw [h2SendData] at h
  obtain ⟨hEq, _⟩ | ⟨writes, hEq⟩ | ⟨writes, hEq⟩ :=
    h2SendFrame_cases env c ⟨.data, if eof then 1 else 0, s.id, src⟩
  · rw [hEq] at h
    subst h
    exact absurd hOk (h2ConnError_error_ne_none _ _)
  · rw [hEq] at h
    subst h
    have hLen : H2Frame.dataLen ⟨.data, if eof then 1 else 0, s.id, src⟩ = src.length := rfl
    refine ⟨?_, ?_, ?_, ?_, ?_, ?_⟩
    · dsimp only
      rw [connWindow, received_sent, sent_sent, total_append, hLen, hc.conn, connWindow]
      omega
    · have hRange := hc.range
      dsimp only
      omega
    · dsimp only
      rw [received_sent]
      exact hc.init
    · intro t ht
      dsimp only at ht ⊢
      rw [streamWindow, received_sent, sent_sent, total_append]
      obtain rfl | ⟨ht, hNe⟩ := mem_modify hDistinct.nodup hAt ht
      · have hOn : H2Frame.dataLenOn s.id ⟨.data, if eof then 1 else 0, s.id, src⟩ = src.length :=
          if_pos ⟨rfl, rfl⟩
        dsimp only
        rw [hOn, hc.streams s hMem, streamWindow]
        omega
      · have hOn : H2Frame.dataLenOn t.id ⟨.data, if eof then 1 else 0, s.id, src⟩ = 0 :=
          if_neg fun hAnd => hNe hAnd.2.symm
        rw [hOn, hc.streams t ht, streamWindow, Nat.add_zero]
    · intro id hId
      have hBound := hDistinct.bound s hMem
      have hOn : H2Frame.dataLenOn id ⟨.data, if eof then 1 else 0, s.id, src⟩ = 0 := by
        refine if_neg fun hAnd => ?_
        have hEq : s.id = id := hAnd.2
        have hId : c.lastStreamId < id := hId
        omega
      dsimp only
      rw [received_sent, sent_sent, total_append, hOn]
      exact hc.unopened id hId
    · refine paced_append hc.paced _ ?_
      intro f hf _ hPos
      obtain rfl := Event.sent.inj hf
      obtain ⟨hStream, hMax⟩ := hPaced hPos
      rw [hc.streams s hMem] at hStream
      rw [hc.conn] at hFits
      exact ⟨hFits, hStream, hMax⟩
  · rw [hEq] at h
    subst h
    exact absurd hOk (h2ConnError_error_ne_none _ _)

theorem pumpRound_sendLedger {c : H2Conn} {i : Nat} {s : H2Stream} (hc : SendLedger w c)
    (hDistinct : Distinct c)
    (hFair : Fair c) (hAt : c.streams[i]? = some s) (hOk : (pumpRound env c i s).1.error = none) :
    SendLedger w (pumpRound env c i s).1 := by
  have hMem := List.mem_of_getElem? hAt
  have hMoves := h2NextData_moves s (min c.connSendWindow s.sendWindow)
  rw [pumpRound] at hOk ⊢
  rcases hNext : h2NextData s (min c.connSendWindow s.sendWindow) with ⟨s', _ | ⟨src, eof⟩⟩
  · rw [hNext] at hMoves
    dsimp only at hMoves ⊢
    exact hc.modify hDistinct hAt (by rw [hMoves]) (by rw [hMoves])
  · have hFits := h2NextData_fits (hFair s hMem) hNext
    rw [hNext] at hMoves hOk
    dsimp only at hMoves hOk ⊢
    have hId : s'.id = s.id := by rw [hMoves]
    have hWindow : s'.sendWindow = s.sendWindow := by rw [hMoves]
    have hCursor : SendLedger w (c.modifyStream i fun _ => s') := hc.modify hDistinct hAt hId hWindow
    split
    · exact hCursor
    · rename_i hRoom
      rw [if_neg hRoom] at hOk
      have hAt' : (c.modifyStream i fun _ => s').streams[i]? = some s' := by
        rw [H2Conn.modifyStream, List.getElem?_modify_eq, hAt]
        rfl
      have hDistinct' : Distinct (c.modifyStream i fun _ => s') := by
        refine (Steps.modify .deliver List.mem_cons_self ?_ : Steps env [.deliver] c _).distinct hDistinct
        intro t ht
        obtain rfl : t = s := Option.some.inj (ht.symm.trans hAt)
        rw [Kind.Touches, hMoves]
      have hConn : (src.length : Int) ≤ (c.modifyStream i fun _ => s').connSendWindow := by
        change (src.length : Int) ≤ c.connSendWindow
        obtain rfl | ⟨hPos, hLen⟩ := hFits
        · exact hc.range.1
        · have hCap := (dataCap_le hPos).1
          omega
      have hPaced : 0 < src.length → (src.length : Int) ≤ s'.sendWindow ∧ src.length ≤ h2MaxFrameSize := by
        intro hNonempty
        obtain rfl | ⟨hPos, hLen⟩ := hFits
        · cases hNonempty
        · obtain ⟨hCap, hMax⟩ := dataCap_le hPos
          rw [hWindow]
          omega
      rw [← hId] at hOk ⊢
      have hSend : (h2SendData env (c.modifyStream i fun _ => s') i s'.id src eof).error = none → SendLedger w
          (h2SendData env (c.modifyStream i fun _ => s') i s'.id src eof) :=
        fun hNone => h2SendData_sendLedger hCursor hDistinct' hAt' hConn hPaced rfl hNone
      split
      · rename_i hEof
        rw [if_pos hEof] at hOk
        exact (Steps.modify_endLocal _ i List.mem_cons_self : Steps env [.finish] _ _).sendLedger
          (by simp) (by simp)
          (hSend hOk)
      · rename_i hMore
        rw [if_neg hMore] at hOk
        exact hSend hOk

/-! ## The pump -/

theorem pumpBody_sendLedger (fuel : Nat) : ∀ {c : H2Conn} {i : Nat}, SendLedger w c → Distinct c → Fair c →
    (∀ s, c.streams[i]? = some s → s.reset = false) → (pumpBody env fuel c i).error = none →
      SendLedger w (pumpBody env fuel c i) := by
  induction fuel with
  | zero => exact fun hc _ _ _ _ => hc
  | succ fuel ih =>
    intro c i hc hDistinct hFair hReset hOk
    rw [pumpBody] at hOk ⊢
    rcases hAt : c.streams[i]? with _ | s
    · exact hc
    · rw [hAt] at hOk
      dsimp only at hOk ⊢
      split
      · exact hc
      · rename_i hGo
        rw [if_neg hGo] at hOk
        have hSteps := @pumpRound_steps env c i s hAt ⟨Bool.not_eq_true _ ▸ (not_or.mp hGo).1, hReset s hAt⟩
        have hLedger := @pumpRound_sendLedger env w c i s hc hDistinct hFair hAt
        rcases hRound : pumpRound env c i s with ⟨c', _ | _⟩
        · rw [hRound] at hOk hLedger
          exact hLedger hOk
        · rw [hRound] at hOk hLedger hSteps
          dsimp only at hOk hLedger hSteps ⊢
          have hReset' := hSteps.not_reset hReset
          have hNone : c'.error = none := (pumpBody_steps fuel c' i hReset').error_mono hOk
          exact ih (hLedger hNone) (hSteps.distinct hDistinct) (hSteps.fair (by simp) hFair) hReset' hOk

theorem pumpStream_sendLedger {c : H2Conn} {i : Nat} (hc : SendLedger w c) (hDistinct : Distinct c)
    (hFair : Fair c)
    (hOk : (pumpStream env c i).1.error = none) : SendLedger w (pumpStream env c i).1 := by
  rw [pumpStream] at hOk ⊢
  rcases hAt : c.streams[i]? with _ | s
  · exact hc
  · rw [hAt] at hOk
    dsimp only at hOk ⊢
    split
    · exact hc
    · rename_i hGo
      rw [if_neg hGo] at hOk
      have hReset : ∀ t, c.streams[i]? = some t → t.reset = false := by
        intro t ht
        obtain rfl : t = s := Option.some.inj (ht.symm.trans hAt)
        exact Bool.not_eq_true _ ▸ (not_or.mp hGo).1
      have hEnded : s.localEnded = false := Bool.not_eq_true _ ▸ (not_or.mp (not_or.mp hGo).2).1
      have hHead : Steps env [.head, .finish] c (if s.headersSent then (c, true)
        else pumpHead env c i s).1 := by
        split
        · exact Steps.refl c
        · exact pumpHead_steps hAt ⟨hEnded, hReset s hAt⟩
      generalize (if s.headersSent then (c, true) else pumpHead env c i s) = head at hHead hOk ⊢
      have hLedger := hHead.sendLedger (by simp) (by simp) hc
      split
      · rename_i hBody
        rw [if_pos hBody] at hOk
        exact pumpBody_sendLedger _ hLedger (hHead.distinct hDistinct) (hHead.fair (by simp) hFair)
          ((hHead.mono (by simp)).not_reset hReset) hOk
      · exact hLedger

theorem pumpFrom_sendLedger (left : Nat) : ∀ {i : Nat} {c : H2Conn}, SendLedger w c → Distinct c → Fair c →
    (pumpFrom env left i c).error = none → SendLedger w (pumpFrom env left i c) := by
  induction left with
  | zero => exact fun hc _ _ _ => hc
  | succ left ih =>
    intro i c hc hDistinct hFair hOk
    have hSteps := @pumpStream_steps env c i
    have hLedger := @pumpStream_sendLedger env w c i hc hDistinct hFair
    rw [pumpFrom] at hOk ⊢
    rcases hStream : pumpStream env c i with ⟨c', _ | _⟩
    · rw [hStream] at hOk hLedger
      exact hLedger hOk
    · rw [hStream] at hOk hLedger hSteps
      dsimp only at hOk hLedger hSteps ⊢
      have hNone : c'.error = none := (pumpFrom_steps left (i + 1) c').error_mono hOk
      exact ih (hLedger hNone) (hSteps.distinct hDistinct) (hSteps.fair (by simp) hFair) hOk

theorem settle_sendLedger (hEnv : CappedHandler env) {c : H2Conn} (hc : SendLedger w c)
    (hDistinct : Distinct c)
    (hFair : Fair c) (hOk : (settle env c).error = none) : SendLedger w (settle env c) ∧
      Fair (settle env c) := by
  have hReady : SendLedger w (h2DispatchReady env c) :=
    (h2DispatchReady_steps c).sendLedger (by simp) (by simp) hc
  have hReadyFair : Fair (h2DispatchReady env c) := h2DispatchReady_fair hEnv hFair
  have hNone : (h2Pump env (h2DispatchReady env c)).error = none := (@h2Sweep_steps env _).error_mono hOk
  refine ⟨(@h2Sweep_steps env _).sendLedger (by simp) (by simp) ?_, (@h2Sweep_steps env _).fair (by simp) ?_⟩
  · rw [h2Pump] at hNone ⊢
    split
    · rename_i hGo
      rw [if_pos hGo] at hNone
      exact pumpFrom_sendLedger _ hReady ((h2DispatchReady_steps c).distinct hDistinct) hReadyFair hNone
    · exact hReady
  · exact (h2Pump_steps _).fair (by simp) hReadyFair

/-! ## Along a run -/

theorem handled_sendLedger {c c' : H2Conn} {f : H2Frame} (hSettled : Settled c) (hc : SendLedger w c)
    (h : Handled env { c with trace := c.trace ++ [.recv f] } f c') (hOk : c'.error = none) :
    SendLedger w c' := by
  have hRecv : f.type ≠ .settings → f.type ≠ .window →
    SendLedger w { c with trace := c.trace ++ [.recv f] } :=
    fun hSettings hWindow => hc.recv_other hSettings fun id _ => incrementOn_of_ne hWindow id
  cases h with
  | data hType =>
    exact (h2OnData_steps _ f).sendLedger (by simp) (by simp) (hRecv (by simp [hType]) (by simp [hType]))
  | headers hType =>
    exact (h2OnHeadersStart_steps _ f).sendLedger (by simp) (by simp)
      (hRecv (by simp [hType]) (by simp [hType]))
  | cont hType =>
    exact (h2OnCont_steps _ f).sendLedger (by simp) (by simp) (hRecv (by simp [hType]) (by simp [hType]))
  | priority hType =>
    exact (h2OnPriority_steps _ f).sendLedger (by simp) (by simp) (hRecv (by simp [hType]) (by simp [hType]))
  | rst hType =>
    exact (@h2OnRst_steps env _ f).sendLedger (by simp) (by simp) (hRecv (by simp [hType]) (by simp [hType]))
  | settings hType => exact h2OnSettings_sendLedger hType hc rfl hOk
  | ping hType =>
    exact (h2OnPing_steps _ f).sendLedger (by simp) (by simp) (hRecv (by simp [hType]) (by simp [hType]))
  | goaway hType =>
    exact (@h2OnGoaway_steps env _ f).sendLedger (by simp) (by simp)
      (hRecv (by simp [hType]) (by simp [hType]))
  | window hType => exact h2OnWindow_sendLedger hType hc hSettled rfl hOk
  | unknown code hType => exact hRecv (by simp [hType]) (by simp [hType])

theorem handled_fair {c c' : H2Conn} {f : H2Frame} (h : Handled env c f c') (hc : Fair c) : Fair c' := by
  cases h with
  | data => exact (h2OnData_steps _ f).fair (by simp) hc
  | headers => exact (h2OnHeadersStart_steps _ f).fair (by simp) hc
  | cont => exact (h2OnCont_steps _ f).fair (by simp) hc
  | priority => exact (h2OnPriority_steps _ f).fair (by simp) hc
  | rst => exact (@h2OnRst_steps env _ f).fair (by simp) hc
  | settings => exact (h2OnSettings_steps _ f).fair (by simp) hc
  | ping => exact (h2OnPing_steps _ f).fair (by simp) hc
  | goaway => exact (@h2OnGoaway_steps env _ f).fair (by simp) hc
  | window => exact (h2OnWindow_steps _ f).fair (by simp) hc
  | unknown => exact hc

/-- The connection before its first frame, whatever the initial window. -/
theorem sendLedger_init {writes : Nat} {events : List Event}
    (hText : ∀ e ∈ events, ∃ bytes, e = Event.text bytes) :
    SendLedger w { h2Init with writes := writes, trace := events, clientInitWindow := w } := by
  have hRange : (0 : Int) ≤ h2InitialWindow ∧ (h2InitialWindow : Int) ≤ maxWindow := by decide
  refine ⟨?_, hRange, ?_, fun s hs => absurd hs List.not_mem_nil, ?_, ?_⟩
  · rw [connWindow, received_text hText, sent_text hText]
    rfl
  · rw [received_text hText]
    rfl
  · intro id _
    rw [received_text hText, sent_text hText]
    exact ⟨rfl, rfl⟩
  · intro pre f post hEq
    have hMem : Event.sent f ∈ events := by
      rw [show events = pre ++ .sent f :: post from hEq]
      exact List.mem_append_right _ List.mem_cons_self
    obtain ⟨bytes, hSent⟩ := hText _ hMem
    cases hSent

theorem upgradeSettings_eq {c c' : H2Conn} {src : HttpRequest} (h : upgradeSettings c src = some c')
    (hStreams : c.streams = []) : c' = { c with clientInitWindow := c'.clientInitWindow } := by
  rw [upgradeSettings] at h
  split at h
  · obtain rfl := Option.some.inj h
    rfl
  · split at h
    · cases h
    · split at h
      · cases h
      · dsimp only at h
        split at h
        · rename_i hNone
          obtain rfl := Option.some.inj h
          rw [h2ApplySettings_eq hNone, H2Conn.reinit, hStreams, List.map_nil, ← hStreams]
        · cases h

theorem h2SendSettings_clientInitWindow (c : H2Conn) :
    (h2SendSettings env c).clientInitWindow = c.clientInitWindow := by
  rw [h2SendSettings]
  obtain ⟨hEq, _⟩ | ⟨writes, hEq⟩ | ⟨writes, hEq⟩ :=
    h2SendFrame_cases env c ⟨.settings, 0, 0, [0, 3, 0, 0, 0, UInt8.ofNat h2MaxConcurrentStreams]⟩
  · rw [hEq, h2ConnError_eq]
  · rw [hEq]
  · rw [hEq]

theorem sendLedger_start {upgrade : Option HttpRequest} {c : H2Conn} (h : h2Start env upgrade = some c) :
    SendLedger c.clientInitWindow c := by
  cases upgrade with
  | none =>
    obtain rfl := Option.some.inj h
    rw [h2SendSettings_clientInitWindow]
    exact SendLedger.send (sendLedger_init (by simp)) H2FrameType.noConfusion
  | some src =>
    simp only [h2Start] at h
    split at h
    · cases h
    · rename_i c' hText
      obtain ⟨c'', hSettings, rfl⟩ := Option.map_eq_some_iff.mp h
      obtain ⟨writes, events, hEq, hEvents⟩ := @prologueStart_eq env (some src)
      rw [prologueStart, hText] at hEq
      change c' = { h2Init with writes := writes, trace := events } at hEq
      have hInit : SendLedger c''.clientInitWindow c'' := by
        rw [upgradeSettings_eq hSettings (by rw [hEq]; rfl), hEq]
        exact sendLedger_init hEvents
      have hLast : c''.lastStreamId = 0 := by
        rw [upgradeSettings_eq hSettings (by rw [hEq]; rfl), hEq]
        rfl
      have hOpen : Step env .opened c'' (h2AddUpgradeStream env c'' src) :=
        Step.opened c'' _ ⟨by rw [hLast]; exact Nat.one_pos, rfl⟩
      rw [h2SendSettings_clientInitWindow]
      exact SendLedger.send (hOpen.sendLedger (by simp) (by simp) hInit) H2FrameType.noConfusion

theorem fair_start {upgrade : Option HttpRequest} {c : H2Conn} (h : h2Start env upgrade = some c) :
    Fair c := by
  refine (h2Start_steps h).fair (by simp) ?_
  obtain ⟨writes, events, hEq, _⟩ := @prologueStart_eq env upgrade
  rw [hEq]
  exact fun s hs => absurd hs List.not_mem_nil

theorem run_sendLedger (hEnv : CappedHandler env) {upgrade : Option HttpRequest} {c₀ c : H2Conn}
    (hStart : h2Start env upgrade = some c₀) (h : Run env c₀ c) (hOk : c.error = none) :
    SendLedger c₀.clientInitWindow c := by
  refine (h.invariant (P := fun c => SendLedger c₀.clientInitWindow c ∧ Fair c) hStart
    ⟨sendLedger_start hStart, fair_start hStart⟩ ?_ ?_ hOk).2.1
  · intro c hDistinct hNone hc
    exact settle_sendLedger hEnv hc.1 hDistinct hc.2 hNone
  · intro c c' f hSettled hc hHandled hNone
    exact ⟨handled_sendLedger hSettled hc.1 hHandled hNone, handled_fair hHandled hc.2⟩

/-- The windows are what was granted less what was used, and every DATA frame
fitted them when it was sent. -/
theorem send_windows (hEnv : CappedHandler env) {upgrade : Option HttpRequest} {c₀ c : H2Conn}
    (hStart : h2Start env upgrade = some c₀) (h : Run env c₀ c) (hOk : c.error = none) :
    c.connSendWindow = connWindow c.trace ∧
    (∀ s ∈ c.streams, s.sendWindow = c.clientInitWindow +
      total (H2Frame.incrementOn s.id) (received c.trace) -
      total (H2Frame.dataLenOn s.id) (sent c.trace)) ∧
    c.clientInitWindow = initWindow c₀.clientInitWindow (received c.trace) ∧
    Paced c₀.clientInitWindow c.trace ∧ 0 ≤ c.connSendWindow ∧ c.connSendWindow ≤ 2 ^ 31 - 1 := by
  have hLedger := run_sendLedger hEnv hStart h hOk
  refine ⟨hLedger.conn, ?_, hLedger.init, hLedger.paced, hLedger.range.1, hLedger.range.2⟩
  intro s hs
  rw [hLedger.streams s hs, streamWindow, ← hLedger.init]

def trickleEnv : H2Env :=
  { plainEnv with
    handler := fun _ => { httpResponseInit with
      streamFn := some fun caps => if caps.length = 1 then [7].take (caps.getLast?.getD 0) else [] } }

/-- The client's initial window is one byte. -/
def trickleRun : H2Conn :=
  plainRun trickleEnv [⟨.settings, 0, 0, [0, 4, 0, 0, 0, 1]⟩, ⟨.headers, 5, 1, [0x82, 0x86, 0x84]⟩]

theorem trickleEnv_capped : CappedHandler trickleEnv := by
  intro calls fn hFn caps cap
  obtain rfl := Option.some.inj hFn
  dsimp only
  split
  · rw [List.length_take, List.getLast?_concat]
    exact Nat.min_le_left _ _
  · exact Nat.zero_le _

theorem send_windows_trickle :
    trickleRun.streams.map H2Stream.sendWindow = [0] ∧
      trickleRun.connSendWindow = connWindow trickleRun.trace ∧
      Paced h2InitialWindow trickleRun.trace := by
  have hStart : h2Start trickleEnv none = some (h2SendSettings trickleEnv h2Init) := rfl
  have h := send_windows trickleEnv_capped hStart (Run.start.run
    [⟨.settings, 0, 0, [0, 4, 0, 0, 0, 1]⟩, ⟨.headers, 5, 1, [0x82, 0x86, 0x84]⟩]) (by decide +kernel)
  exact ⟨by decide +kernel, h.1, h.2.2.2.1⟩

end Cweb.H2
