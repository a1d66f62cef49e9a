import Cweb.Http.H2SendLedger

/-!
# Grants

SETTINGS moves the windows of all open streams at once, and may take them below
zero; WINDOW_UPDATE raises one window.
-/

namespace Cweb.H2

variable {env : H2Env}

/-! ## Settings -/

/-- The connection once the client's initial window is `w`. -/
def H2Conn.reinit (c : H2Conn) (w : Nat) : H2Conn :=
  { c with
    clientInitWindow := w
    streams :=
      c.streams.map fun s => { s with sendWindow := s.sendWindow + ((w : Int) - c.clientInitWindow) } }

theorem reinit_self (c : H2Conn) : c.reinit c.clientInitWindow = c := by
  rw [H2Conn.reinit, Int.sub_self]
  simp only [Int.add_zero, List.map_id_fun', id_eq]

theorem reinit_reinit (c : H2Conn) (v w : Nat) : (c.reinit v).reinit w = c.reinit w := by
  simp only [H2Conn.reinit, List.map_map, H2Conn.mk.injEq, true_and, and_true]
  refine List.map_congr_left ?_
  intro s _
  simp only [Function.comp_apply, H2Stream.mk.injEq, true_and]
  omega

theorem shiftWindows_eq {delta : Int} {l : List H2Stream} (h : (shiftWindows delta l).2 = false) :
    (shiftWindows delta l).1 = l.map fun s => { s with sendWindow := s.sendWindow + delta } := by
  induction l with
  | nil => rfl
  | cons s l ih =>
    rw [shiftWindows] at h ⊢
    dsimp only at h ⊢
    split at h
    · cases h
    · rename_i hFits
      rw [if_neg hFits, List.map_cons, ih h]

theorem applySetting_eq {c c' : H2Conn} {id val : Nat} (h : applySetting c id val = c')
    (hOk : c'.error = none) :
    c' = c.reinit (if id = 4 then val else c.clientInitWindow) := by
  have hSame : ∀ id : Nat, id ≠ 4 → c = c.reinit (if id = 4 then val else c.clientInitWindow) := by
    intro id hNe
    rw [if_neg hNe, reinit_self]
  rw [applySetting.eq_def] at h
  split at h
  · split at h
    · subst h
      exact absurd hOk (h2ConnError_error_ne_none c _)
    · subst h
      exact hSame 2 (by decide)
  · rw [if_pos rfl]
    split at h
    · subst h
      exact absurd hOk (h2ConnError_error_ne_none c _)
    · dsimp only at h
      split at h
      · subst h
        exact absurd hOk (h2ConnError_error_ne_none _ _)
      · rename_i hShift
        rw [shiftWindows_eq (Bool.not_eq_true _ ▸ hShift)] at h
        exact h.symm
  · split at h
    · subst h
      exact absurd hOk (h2ConnError_error_ne_none c _)
    · subst h
      exact hSame 5 (by decide)
  · rename_i hNe _
    subst h
    exact hSame id hNe

theorem applySettingsLoop_eq (fuel : Nat) : ∀ {c : H2Conn} {p : Bytes},
    (applySettingsLoop fuel c p).error = none →
      applySettingsLoop fuel c p = c.reinit (initAfter fuel c.clientInitWindow p) := by
  induction fuel with
  | zero => exact fun _ => (reinit_self _).symm
  | succ fuel ih =>
    intro c p hOk
    have hPrev : c.error = none := (@applySettingsLoop_steps plainEnv (fuel + 1) c p).error_mono hOk
    rw [applySettingsLoop] at hOk ⊢
    rw [initAfter]
    by_cases hEnd : p = []
    · rw [if_pos (.inl hEnd), if_pos hEnd, reinit_self]
    · have hMore : ¬ (p = [] ∨ c.error ≠ none) := fun h => h.elim hEnd fun hErr => hErr hPrev
      rw [if_neg hMore] at hOk ⊢
      rw [if_neg hEnd, ih hOk,
        applySetting_eq rfl ((@applySettingsLoop_steps plainEnv fuel _ (p.drop 6)).error_mono hOk),
        reinit_reinit]
      rfl

theorem h2ApplySettings_eq {c : H2Conn} {payload : Bytes} (hOk : (h2ApplySettings c payload).error = none) :
    h2ApplySettings c payload = c.reinit (initAfter payload.length c.clientInitWindow payload) := by
  rw [h2ApplySettings] at hOk ⊢
  split at hOk
  · exact absurd hOk (h2ConnError_error_ne_none c _)
  · rename_i hSize
    rw [if_neg hSize]
    exact applySettingsLoop_eq _ hOk

/-! ## Frames and the ledger -/

theorem initWindow_append (w : Nat) (frames : List H2Frame) (f : H2Frame) :
    initWindow w (frames ++ [f]) = f.initWindow (initWindow w frames) := by
  simp [initWindow]

theorem initWindow_of_ne {f : H2Frame} (h : f.type ≠ .settings) (w : Nat) : f.initWindow w = w :=
  if_neg fun hAnd => h hAnd.1

theorem connWindow_recv (trace : List Event) (f : H2Frame) :
    connWindow (trace ++ [.recv f]) = connWindow trace + f.incrementOn 0 := by
  rw [connWindow, connWindow, received_recv, sent_recv, total_append]
  omega

theorem paced_recv {w : Nat} {trace : List Event} (h : Paced w trace) (f : H2Frame) :
    Paced w (trace ++ [.recv f]) :=
  paced_append h _ fun _ hEq => Event.noConfusion hEq

theorem SendLedger.recv {w : Nat} {c c' : H2Conn} {f : H2Frame} (hc : SendLedger w c)
    (hTrace : c'.trace = c.trace ++ [.recv f])
    (hConn : c'.connSendWindow = c.connSendWindow + f.incrementOn 0)
    (hMax : c'.connSendWindow ≤ maxWindow) (hInit : c'.clientInitWindow = f.initWindow c.clientInitWindow)
    (hStreams : ∀ t ∈ c'.streams, ∃ s ∈ c.streams, t.id = s.id ∧
      t.sendWindow = s.sendWindow + f.incrementOn s.id + (c'.clientInitWindow - c.clientInitWindow))
    (hLast : c'.lastStreamId = c.lastStreamId) (hKnown : ∀ id, c.lastStreamId < id → f.incrementOn id = 0) :
    SendLedger w c' := by
  refine ⟨?_, ?_, ?_, ?_, ?_, ?_⟩
  · rw [hTrace, connWindow_recv, hConn, hc.conn]
  · refine ⟨?_, hMax⟩
    have hNonneg := hc.range.1
    omega
  · rw [hTrace, received_recv, initWindow_append, ← hc.init, hInit]
  · intro t ht
    obtain ⟨s, hs, hId, hEq⟩ := hStreams t ht
    have hOld := hc.streams s hs
    rw [streamWindow, ← hc.init] at hOld
    rw [hTrace, streamWindow, received_recv, initWindow_append, ← hc.init, ← hInit, sent_recv,
      total_append, hId, hEq,
      hOld]
    omega
  · intro id hId
    rw [hLast] at hId
    rw [hTrace, received_recv, sent_recv, total_append, hKnown id hId]
    exact hc.unopened id hId
  · rw [hTrace]
    exact paced_recv hc.paced f

theorem SendLedger.recv_other {w : Nat} {c : H2Conn} {f : H2Frame} (hc : SendLedger w c)
    (hSettings : f.type ≠ .settings)
    (hWindow : ∀ id, (id = 0 ∨ c.lastStreamId < id ∨ ∃ s ∈ c.streams, s.id = id) → f.incrementOn id = 0) :
    SendLedger w { c with trace := c.trace ++ [.recv f] } := by
  refine hc.recv rfl ?_ hc.range.2 (initWindow_of_ne hSettings _).symm ?_ rfl fun id hId =>
    hWindow id (.inr (.inl hId))
  · rw [hWindow 0 (.inl rfl)]
    exact (Int.add_zero _).symm
  · intro t ht
    refine ⟨t, ht, rfl, ?_⟩
    rw [hWindow t.id (.inr (.inr ⟨t, ht, rfl⟩))]
    simp

theorem h2OnSettings_sendLedger {w : Nat} {c c' : H2Conn} {f : H2Frame} (hType : f.type = .settings)
    (hc : SendLedger w c) (h : h2OnSettings env { c with trace := c.trace ++ [.recv f] } f = c')
    (hOk : c'.error = none) : SendLedger w c' := by
  have hInc : ∀ id, f.incrementOn id = 0 := incrementOn_of_ne (by simp [hType])
  rw [h2OnSettings] at h
  split at h
  · subst h
    exact absurd hOk (h2ConnError_error_ne_none _ _)
  · split at h
    · rename_i hAck
      split at h
      · subst h
        exact absurd hOk (h2ConnError_error_ne_none _ _)
      · subst h
        have hSame : f.initWindow c.clientInitWindow = c.clientInitWindow := by
          rw [H2Frame.initWindow, if_neg (fun hAnd => Bool.noConfusion (hAck.symm.trans hAnd.2))]
        refine hc.recv rfl ?_ hc.range.2 hSame.symm ?_ rfl fun id _ => hInc id
        · rw [hInc]
          exact (Int.add_zero _).symm
        · intro t ht
          refine ⟨t, ht, rfl, ?_⟩
          rw [hInc]
          simp
    · rename_i hAck
      dsimp only at h
      split at h
      · rename_i hNone
        subst h
        refine SendLedger.send ?_ H2FrameType.noConfusion
        have hSame : f.initWindow c.clientInitWindow =
          initAfter f.payload.length c.clientInitWindow f.payload :=
          if_pos ⟨hType, Bool.not_eq_true _ ▸ hAck⟩
        rw [h2ApplySettings_eq hNone]
        refine hc.recv rfl ?_ hc.range.2 hSame.symm ?_ rfl fun id _ => hInc id
        · rw [hInc]
          exact (Int.add_zero _).symm
        · intro t ht
          obtain ⟨s, hs, rfl⟩ := List.mem_map.mp ht
          refine ⟨s, hs, rfl, ?_⟩
          rw [hInc]
          simp [H2Conn.reinit]
      · rename_i hSome
        subst h
        exact absurd hOk hSome

theorem windowOnStream_sendLedger {w : Nat} {c : H2Conn} {i : Nat} {s : H2Stream} {f : H2Frame}
    (hType : f.type = .window) (hc : SendLedger w c) (hDistinct : Distinct c) (hAt : c.streams[i]? = some s)
    (hId : s.id = f.streamId) (hLive : s.reset = false) :
    SendLedger w (windowOnStream env { c with trace := c.trace ++ [.recv f] } i s (windowIncrement f)) := by
  have hSettings : f.type ≠ .settings := by simp [hType]
  have hBound := hDistinct.bound s (List.mem_of_getElem? hAt)
  have hOther : ∀ id, id ≠ s.id → f.incrementOn id = 0 := by
    intro id hNe
    exact if_neg fun hAnd => hNe (hAnd.2.symm.trans hId.symm)
  have hRaised : SendLedger w (H2Conn.modifyStream { c with trace := c.trace ++ [.recv f] } i
      fun s => { s with sendWindow := s.sendWindow + windowIncrement f }) := by
    refine hc.recv rfl ?_ hc.range.2 (initWindow_of_ne hSettings _).symm ?_ rfl ?_
    · rw [hOther 0 hBound.1.symm]
      exact (Int.add_zero _).symm
    · intro t ht
      obtain rfl | ⟨ht, hNe⟩ := mem_modify hDistinct.nodup hAt ht
      · refine ⟨s, List.mem_of_getElem? hAt, rfl, ?_⟩
        rw [H2Frame.incrementOn, if_pos ⟨hType, hId.symm⟩]
        exact (by simp [H2Conn.modifyStream])
      · refine ⟨t, ht, rfl, ?_⟩
        rw [hOther t.id hNe]
        exact (by simp [H2Conn.modifyStream])
    · intro id hNew
      exact hOther id (by omega)
  rw [windowOnStream, if_neg (by rw [hLive]; exact Bool.false_ne_true)]
  dsimp only
  split
  · exact ((Steps.streamError _ _ (by simp)).trans
      (Steps.modify .base (by simp) (by intro s _; rfl)) : Steps env [.base] _ _).sendLedger (by simp)
        (by simp) hRaised
  · exact hRaised

theorem h2OnWindow_sendLedger {w : Nat} {c c' : H2Conn} {f : H2Frame} (hType : f.type = .window)
    (hc : SendLedger w c) (hSettled : Settled c)
    (h : h2OnWindow env { c with trace := c.trace ++ [.recv f] } f = c')
    (hOk : c'.error = none) : SendLedger w c' := by
  have hSettings : f.type ≠ .settings := by simp [hType]
  rw [h2OnWindow] at h
  split at h
  · subst h
    exact absurd hOk (h2ConnError_error_ne_none _ _)
  · split at h
    · rename_i hZero
      split at h
      · subst h
        exact absurd hOk (h2ConnError_error_ne_none _ _)
      · subst h
        refine SendLedger.send (hc.recv_other hSettings ?_) H2FrameType.noConfusion
        intro id _
        rw [H2Frame.incrementOn, hZero]
        exact ite_self _
    · split at h
      · rename_i hConn
        dsimp only at h
        split at h
        · subst h
          exact absurd hOk (h2ConnError_error_ne_none _ _)
        · rename_i hMax
          subst h
          have hOther : ∀ id, id ≠ 0 → f.incrementOn id = 0 := by
            intro id hNe
            exact if_neg fun hAnd => hNe (hAnd.2.symm.trans hConn)
          refine hc.recv rfl ?_ (not_lt.mp hMax) (initWindow_of_ne hSettings _).symm ?_ rfl ?_
          · rw [H2Frame.incrementOn, if_pos ⟨hType, hConn⟩]
          · intro t ht
            refine ⟨t, ht, rfl, ?_⟩
            rw [hOther t.id (hSettled.distinct.bound t ht).1]
            simp
          · intro id hId
            exact hOther id (by omega)
      · rename_i hStream
        split at h
        · rename_i hNone
          split at h
          · subst h
            exact absurd hOk (h2ConnError_error_ne_none _ _)
          · rename_i hKnown
            subst h
            refine hc.recv_other hSettings ?_
            intro id hId
            refine if_neg fun hAnd => ?_
            rw [← hAnd.2] at hId
            obtain hId | hId | ⟨s, hs, hId⟩ := hId
            · exact hStream hId
            · exact hKnown hId
            · exact h2FindStream_none hNone s hs hId
        · rename_i i hFound
          obtain ⟨s, hAt, hId⟩ := h2FindStream_some hFound
          rw [hAt] at h
          subst h
          exact windowOnStream_sendLedger hType hc hSettled.distinct hAt hId
            (hSettled.not_reset s (List.mem_of_getElem? hAt))

end Cweb.H2
