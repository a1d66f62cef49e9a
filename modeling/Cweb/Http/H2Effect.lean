import Cweb.Http.H2Each

/-!
# What one frame does to the streams

A frame leaves every stream where it is in its life, except that it may reset
it, end its client side with END_STREAM or open one new stream.
-/

namespace Cweb.H2

open SwapRemove

variable {env : H2Env}

/-- The stream before and after a frame. -/
structure Kept (f : H2Frame) (s s' : H2Stream) : Prop where
  id : s'.id = s.id
  dispatched : s'.dispatched = s.dispatched
  ready : s'.responseReady = s.responseReady
  ended : s'.localEnded = s.localEnded
  reset : s.reset = true → s'.reset = true
  remote : s'.remoteEnded = s.remoteEnded ∨ f.type = .data ∧ f.endStream = true ∧ s.id = f.streamId

theorem Kept.refl (f : H2Frame) (s : H2Stream) : Kept f s s := ⟨rfl, rfl, rfl, rfl, fun h => h, .inl rfl⟩

theorem Kept.trans {f : H2Frame} {s s' s'' : H2Stream} (h : Kept f s s') (h' : Kept f s' s'') :
    Kept f s s'' := by
  refine ⟨h'.id.trans h.id, h'.dispatched.trans h.dispatched, h'.ready.trans h.ready, h'.ended.trans h.ended,
    fun hReset => h'.reset (h.reset hReset), ?_⟩
  obtain hSame | ⟨hType, hEnd, hId⟩ := h'.remote
  · rw [hSame]
    exact h.remote
  · exact .inr ⟨hType, hEnd, h.id.symm.trans hId⟩

def Keeps (f : H2Frame) (c c' : H2Conn) : Prop := List.Forall₂ (Kept f) c.streams c'.streams

theorem Kept.setReset (f : H2Frame) (s : H2Stream) : Kept f s { s with reset := true } :=
  ⟨rfl, rfl, rfl, rfl, fun _ => rfl, .inl rfl⟩

theorem Kept.of_grant {f : H2Frame} {s s' : H2Stream} (h : Kind.grant.Touches s s') : Kept f s s' := by
  rw [h]
  exact ⟨rfl, rfl, rfl, rfl, fun h => h, .inl rfl⟩

theorem Kept.lax (f : H2Frame) : Lax (Kept f) where
  refl := Kept.refl f
  trans := fun _ _ _ => Kept.trans
  reset := Kept.setReset f
  grant := fun _ _ => Kept.of_grant

theorem Keeps.same {f : H2Frame} {c c' : H2Conn} (h : c'.streams = c.streams) : Keeps f c c' :=
  Each.same (Kept.lax f) h

theorem Keeps.refl (f : H2Frame) (c : H2Conn) : Keeps f c c := Keeps.same rfl

theorem Keeps.trans {f : H2Frame} {c c' c'' : H2Conn} (h : Keeps f c c') (h' : Keeps f c' c'') :
    Keeps f c c'' :=
  Each.trans (Kept.lax f) h h'

theorem Keeps.connError (f : H2Frame) (c : H2Conn) (e : H2Error) : Keeps f c (h2ConnError c e) :=
  Each.connError (Kept.lax f) c e

theorem Keeps.sendFrame (f : H2Frame) (c : H2Conn) (g : H2Frame) : Keeps f c (h2SendFrame env c g).1 :=
  Each.sendFrame (Kept.lax f) c g

theorem Keeps.streamError (f : H2Frame) (c : H2Conn) (id : Nat) (e : H2Error) :
    Keeps f c (h2SendStreamError env c id e) :=
  Each.streamError (Kept.lax f) c id e

theorem Keeps.modify {f : H2Frame} {c : H2Conn} {i : Nat} {g : H2Stream → H2Stream}
    (h : ∀ s, c.streams[i]? = some s → Kept f s (g s)) : Keeps f c (c.modifyStream i g) :=
  Each.modify (Kept.lax f) h

/-! ## Frames on streams -/

theorem dataBody_keeps {c : H2Conn} {i : Nat} {s : H2Stream} {f : H2Frame} (data : Bytes)
    (hAt : ∃ t, c.streams[i]? = some t ∧ t.id = s.id ∧ t.remoteEnded = s.remoteEnded) (hType : f.type = .data)
    (hId : s.id = f.streamId) : Keeps f c (dataBody env c i s f data) := by
  obtain ⟨t, hAt, hIdT, hEndedT⟩ := hAt
  rw [dataBody]
  split
  · exact (Keeps.streamError f c _ _).trans (Keeps.modify fun s _ => Kept.setReset f s)
  · rename_i hOpen
    dsimp only
    have hTaken : Keeps f c (c.modifyStream i fun t =>
        { t with
          reqBytes := s.reqBytes + data.length
          bodyTooBig := s.bodyTooBig || decide (env.maxBody < s.body.length + data.length)
          body := if s.bodyTooBig || decide (env.maxBody < s.body.length + data.length) then t.body
            else t.body ++ data
          remoteEnded := f.endStream }) := by
      refine Keeps.modify fun u hu => ⟨rfl, rfl, rfl, rfl, fun h => h, ?_⟩
      obtain rfl : u = t := Option.some.inj (hu.symm.trans hAt)
      cases hEnd : f.endStream with
      | true => exact .inr ⟨hType, rfl, hIdT.trans hId⟩
      | false =>
        left
        rw [hEndedT]
        exact (Bool.not_eq_true _ ▸ hOpen).symm
    split
    · exact (hTaken.trans (Keeps.streamError f _ _ _)).trans (Keeps.modify fun s _ => Kept.setReset f s)
    · exact hTaken

theorem dataOnStream_keeps {c : H2Conn} {i : Nat} {s : H2Stream} {f : H2Frame} (data : Bytes)
    (hAt : c.streams[i]? = some s) (hType : f.type = .data) (hId : s.id = f.streamId) :
    Keeps f c (dataOnStream env c i s f data) := by
  rw [dataOnStream]
  split
  · exact Keeps.refl f c
  · dsimp only
    have hWindow : Keeps f c (c.modifyStream i fun s => { s with recvWindow := s.recvWindow - f.len }) :=
      Keeps.modify fun s _ => ⟨rfl, rfl, rfl, rfl, fun h => h, .inl rfl⟩
    refine hWindow.trans ?_
    split
    · exact (Keeps.streamError f _ _ _).trans (Keeps.modify fun s _ => Kept.setReset f s)
    · refine (Keeps.sendFrame f _ _).trans (dataBody_keeps data ?_ hType hId)
      refine ⟨{ s with recvWindow := s.recvWindow - f.len }, ?_, rfl, rfl⟩
      rw [h2SendFrame_streams, H2Conn.modifyStream, List.getElem?_modify_eq, hAt]
      rfl

theorem h2OnData_keeps (c : H2Conn) {f : H2Frame} (hType : f.type = .data) :
    Keeps f c (h2OnData env c f) := by
  rw [h2OnData]
  split
  · exact Keeps.connError f c _
  · split
    · exact Keeps.connError f c _
    · split
      · exact Keeps.connError f c _
      · dsimp only
        have hWindow : Keeps f c
          (h2SendWindowUpdate env { c with connRecvWindow := c.connRecvWindow - f.len } 0 f.len) :=
          Keeps.same (h2SendFrame_streams env _ _)
        refine hWindow.trans ?_
        split
        · split
          · exact Keeps.connError f _ _
          · exact Keeps.streamError f _ _ _
        · rename_i i hFind
          obtain ⟨s, hAt, hId⟩ := h2FindStream_some hFind
          rw [hAt]
          exact dataOnStream_keeps _ hAt hType hId

theorem h2ApplySettings_keeps (f : H2Frame) (c : H2Conn) (payload : Bytes) :
    Keeps f c (h2ApplySettings c payload) :=
  h2ApplySettings_each (Kept.lax f) c payload

/-! ## Header blocks -/

/-- The block of `f` has opened stream `id`, and nothing was sent. -/
structure Opened (c c' : H2Conn) (id : Nat) (endStream : Bool) : Prop where
  streams : ∃ req window, c'.streams = c.streams ++ [newStream id endStream req window]
  fresh : c.lastStreamId < id
  odd : id % 2 = 1
  room : c.streams.length < h2MaxConcurrentStreams
  last : c'.lastStreamId = id
  trace : c'.trace = c.trace

theorem swapRemove_concat (l : List H2Stream) (s : H2Stream) : swapRemove (l ++ [s]) l.length = l := by
  rw [swapRemove, List.getLast?_concat]
  dsimp only
  rw [List.set_append_right _ _ (Nat.le_refl _), Nat.sub_self, List.set_cons_zero, List.dropLast_concat]

theorem openStream_effect {c : H2Conn} {id : Nat} {endStream : Bool} {req : HttpRequest}
    (hFresh : c.lastStreamId < id) (hOdd : id % 2 = 1) :
    Opened c (openStream env c (newStream id endStream req c.clientInitWindow)) id endStream ∨
      (openStream env c (newStream id endStream req c.clientInitWindow)).streams = c.streams ∧
        (openStream env c (newStream id endStream req c.clientInitWindow)).lastStreamId = id := by
  rw [openStream]
  dsimp only
  split
  · right
    refine ⟨?_, ?_⟩
    · rw [h2FreeStream, h2SendStreamError, h2SendFrame_streams]
      dsimp only
      rw [List.length_append, List.length_singleton, Nat.add_sub_cancel]
      exact swapRemove_concat c.streams _
    · rw [h2FreeStream, h2SendStreamError]
      exact (@Steps.lastStreamId_eq env [.base] _ _ (Steps.streamError _ _ (by simp)) (by simp)).trans rfl
  · rename_i hRoom
    rw [List.length_append, List.length_singleton] at hRoom
    exact .inl ⟨⟨req, _, rfl⟩, hFresh, hOdd, by omega, rfl, rfl⟩

theorem h2RequestFromBlock_streams (c : H2Conn) (blk : Bytes) :
    (h2RequestFromBlock env c blk).1.streams = c.streams ∧
      (h2RequestFromBlock env c blk).1.trace = c.trace := by
  rw [h2RequestFromBlock]
  split
  · rw [h2ConnError_eq]
    exact ⟨rfl, rfl⟩
  · exact ⟨rfl, rfl⟩

theorem h2OnHeaderBlockFinish_effect (c : H2Conn) (id : Nat) (endStream : Bool) (blk : Bytes) :
    Opened c (h2OnHeaderBlockFinish env c id endStream blk) id endStream ∨
      (h2OnHeaderBlockFinish env c id endStream blk).streams = c.streams ∧
        c.lastStreamId ≤ (h2OnHeaderBlockFinish env c id endStream blk).lastStreamId := by
  have hError : ∀ e, (h2ConnError c e).streams = c.streams ∧
    c.lastStreamId ≤ (h2ConnError c e).lastStreamId := by
    intro e
    rw [h2ConnError_eq]
    exact ⟨rfl, le_refl _⟩
  have hReset : ∀ (c : H2Conn) e, c.lastStreamId ≤ (h2SendStreamError env c id e).lastStreamId := by
    intro c e
    exact ((@Steps.lastStreamId_eq env [.base] _ _ (Steps.streamError _ _ (by simp)) (by simp))).ge
  have hBlock := @h2RequestFromBlock_streams env c blk
  have hLast := @h2RequestFromBlock_lastStreamId env c blk
  rw [h2OnHeaderBlockFinish]
  split
  · exact .inr (hError _)
  · rename_i hOdd
    split
    · exact .inr ⟨h2SendFrame_streams env c _, hReset c _⟩
    · split
      · exact .inr (hError _)
      · rename_i hNew
        split
        · exact .inr (hError _)
        · split
          · rename_i hEq
            rw [hEq] at hBlock hLast
            exact .inr ⟨hBlock.1, hLast.ge⟩
          · rename_i c' hEq
            rw [hEq] at hBlock hLast
            exact .inr ⟨(h2SendFrame_streams env c' _).trans hBlock.1, hLast.ge.trans (hReset c' _)⟩
          · rename_i c' req hEq
            rw [hEq] at hBlock hLast
            dsimp only at hBlock hLast
            obtain hOpened | ⟨hSame, hId⟩ := @openStream_effect env c' id endStream req (by omega) (by omega)
            · obtain ⟨req', window, hStreams⟩ := hOpened.streams
              have hRoom := hOpened.room
              rw [hBlock.1] at hStreams hRoom
              exact .inl ⟨⟨req', window, hStreams⟩, by omega, hOpened.odd, hRoom, hOpened.last,
                hOpened.trace.trans hBlock.2⟩
            · exact .inr ⟨hSame.trans hBlock.1, by omega⟩

theorem clearBlock_streams (c : H2Conn) : (clearBlock c).streams = c.streams := rfl

theorem takeFragment_streams (c : H2Conn) (f : H2Frame) :
    (takeFragment env c f).streams = c.streams ∧ (takeFragment env c f).lastStreamId = c.lastStreamId := by
  rw [takeFragment]
  split
  · exact ⟨rfl, rfl⟩
  · split
    · refine ⟨h2SendFrame_streams env _ _, ?_⟩
      exact (h2SendFrame_windows _ _).2
    · exact ⟨rfl, rfl⟩

/-- Taking a fragment sends nothing unless the block is given up. -/
theorem takeFragment_trace {c : H2Conn} {f : H2Frame} (h : (takeFragment env c f).hbAbort = false) :
    (takeFragment env c f).trace = c.trace ∧ (takeFragment env c f).hbEndStream = c.hbEndStream ∧
      (takeFragment env c f).hbStream = c.hbStream := by
  rw [takeFragment] at h ⊢
  split
  · exact ⟨rfl, rfl, rfl⟩
  · rename_i hTaking
    split
    · rename_i hLarge
      rw [if_neg hTaking, if_pos hLarge, h2SendStreamError] at h
      have hView := congrArg HeaderView.hbAbort (@headerView_sendFrame env { c with hbAbort := true }
        ⟨.rst, 0, f.streamId, wr32 H2Error.cancel.code⟩)
      rw [headerView] at hView
      exact absurd (hView.symm.trans h) (by simp [headerView])
    · exact ⟨rfl, rfl, rfl⟩

/-- The frame `f` ends a header block, whose HEADERS frame had END_STREAM or
not. -/
def Completes (c : H2Conn) (f : H2Frame) (endStream : Bool) : Prop :=
  f.type = .headers ∧ endStream = f.endStream ∨
    f.type = .cont ∧ c.hbStream = f.streamId ∧ c.hbStream ≠ 0 ∧ endStream = c.hbEndStream

/-- A frame opens the stream whose header block it ends, or keeps the streams
that there are. -/
structure Effect (env : H2Env) (f : H2Frame) (c c' : H2Conn) : Prop where
  streams : (∃ endStream, Opened c c' f.streamId endStream ∧ Completes c f endStream) ∨ Keeps f c c'
  last : c.lastStreamId ≤ c'.lastStreamId

theorem Effect.keeps {f : H2Frame} {c c' : H2Conn} (h : Keeps f c c')
    (hLast : c'.lastStreamId = c.lastStreamId) :
    Effect env f c c' := ⟨.inr h, hLast.ge⟩

theorem Effect.connError (f : H2Frame) (c : H2Conn) (e : H2Error) : Effect env f c (h2ConnError c e) := by
  refine Effect.keeps (Keeps.connError f c e) ?_
  rw [h2ConnError_eq]

/-- A frame of a header block touches no stream but the one it opens. -/
structure BlockEffect (f : H2Frame) (c c' : H2Conn) : Prop where
  streams : (∃ endStream, Opened c c' f.streamId endStream ∧ Completes c f endStream) ∨ c'.streams = c.streams
  last : c.lastStreamId ≤ c'.lastStreamId

theorem BlockEffect.connError (f : H2Frame) (c : H2Conn) (e : H2Error) :
    BlockEffect f c (h2ConnError c e) := by
  rw [h2ConnError_eq]
  exact ⟨.inr rfl, le_refl _⟩

theorem BlockEffect.effect {f : H2Frame} {c c' : H2Conn} (h : BlockEffect f c c') : Effect env f c c' :=
  ⟨h.streams.imp_right Keeps.same, h.last⟩

theorem h2OnCont_effect {c : H2Conn} {f : H2Frame} (hType : f.type = .cont) :
    BlockEffect f c (h2OnCont env c f) := by
  rw [h2OnCont]
  split
  · exact BlockEffect.connError f c _
  · rename_i hBlock
    split
    · exact BlockEffect.connError f c _
    · rename_i hId
      obtain ⟨hStreams, hLast⟩ := @takeFragment_streams env c f
      dsimp only
      split
      · split
        · exact ⟨.inr hStreams, hLast.ge⟩
        · rename_i hAbort
          obtain ⟨hTrace, hEnd, hStream⟩ := takeFragment_trace (Bool.not_eq_true _ ▸ hAbort)
          have hSame : (takeFragment env c f).hbStream = f.streamId := hStream.trans (not_not.mp hId).symm
          rw [hSame]
          obtain hOpened | ⟨hSame, hLe⟩ :=
            @h2OnHeaderBlockFinish_effect env (clearBlock (takeFragment env c f))
            f.streamId (takeFragment env c f).hbEndStream (takeFragment env c f).hb
          · obtain ⟨req, window, hNew⟩ := hOpened.streams
            have hFresh := hOpened.fresh
            have hRoom := hOpened.room
            rw [clearBlock_streams, hStreams] at hNew hRoom
            refine ⟨.inl ⟨_, ⟨⟨req, window, hNew⟩, ?_, hOpened.odd, hRoom, hOpened.last, ?_⟩, ?_⟩, ?_⟩
            · exact hLast ▸ hFresh
            · exact hOpened.trace.trans hTrace
            · exact .inr ⟨hType, (not_not.mp hId).symm, hBlock, hEnd⟩
            · rw [hOpened.last]
              exact (hLast ▸ hFresh : c.lastStreamId < f.streamId).le
          · exact ⟨.inr (hSame.trans hStreams), hLast.symm.le.trans hLe⟩
      · exact ⟨.inr hStreams, hLast.ge⟩

theorem h2OnHeadersStart_effect {c : H2Conn} {f : H2Frame} (hType : f.type = .headers) :
    BlockEffect f c (h2OnHeadersStart env c f) := by
  rw [h2OnHeadersStart]
  split
  · exact BlockEffect.connError f c _
  · have hBegun : ∀ e, BlockEffect f c (h2ConnError
        { c with hbStream := f.streamId, hbEndStream := f.endStream, hbAbort := false, hb := [] } e) := by
      intro e
      rw [h2ConnError_eq]
      exact ⟨.inr rfl, le_refl _⟩
    dsimp only
    split
    · exact hBegun _
    · split
      · exact hBegun _
      · split
        · rename_i frag _ _ _
          obtain hOpened | ⟨hSame, hLe⟩ := @h2OnHeaderBlockFinish_effect env
            (clearBlock
              { c with hbStream := f.streamId, hbEndStream := f.endStream, hbAbort := false, hb := [] })
            f.streamId f.endStream frag
          · have hFresh : c.lastStreamId < f.streamId := hOpened.fresh
            refine ⟨.inl ⟨_, ⟨hOpened.streams, hFresh, hOpened.odd,
              hOpened.room, hOpened.last, hOpened.trace⟩,
              .inl ⟨hType, rfl⟩⟩, ?_⟩
            rw [hOpened.last]
            exact hFresh.le
          · exact ⟨.inr hSame, hLe⟩
        · exact ⟨.inr rfl, le_refl _⟩

theorem handleFrame_effect (c : H2Conn) (f : H2Frame) : Effect env f c (handleFrame env c f) := by
  rw [handleFrame]
  split
  · exact Effect.connError f c _
  · split
    · exact Effect.connError f c _
    · cases hType : f.type with
      | data => exact Effect.keeps (h2OnData_keeps c hType) ((h2OnData_steps c f).lastStreamId_eq (by simp))
      | headers => exact (h2OnHeadersStart_effect hType).effect
      | cont => exact (h2OnCont_effect hType).effect
      | priority =>
        exact Effect.keeps (h2OnPriority_each (Kept.lax f) c f)
          ((h2OnPriority_steps c f).lastStreamId_eq (by simp))
      | rst =>
        exact Effect.keeps (h2OnRst_each (Kept.lax f) c f)
          ((@h2OnRst_steps env c f).lastStreamId_eq (by simp))
      | settings =>
        exact Effect.keeps (h2OnSettings_each (Kept.lax f) c f)
          ((h2OnSettings_steps c f).lastStreamId_eq (by simp))
      | ping =>
        exact Effect.keeps (h2OnPing_each (Kept.lax f) c f)
          ((h2OnPing_steps c f).lastStreamId_eq (by simp))
      | goaway =>
        exact Effect.keeps (h2OnGoaway_each (Kept.lax f) c f)
          ((@h2OnGoaway_steps env c f).lastStreamId_eq (by simp))
      | window =>
        exact Effect.keeps (h2OnWindow_each (Kept.lax f) c f)
          ((h2OnWindow_steps c f).lastStreamId_eq (by simp))
      | pushPromise => exact Effect.connError f c _
      | unknown code => exact Effect.keeps (Keeps.refl f c) rfl

end Cweb.H2
