import Cweb.Http.H2Serve

/-!
# Padding

DATA and HEADERS may carry padding behind their data. It should be taken off
whatever its length, and a frame refused when it has less to take off than it
says. Padding may fill the whole frame.
-/

namespace Cweb.H2

open Sv

variable {env : H2Env}

/-! ## Frames that are padded -/

/-- DATA comes for an open stream, and both windows have room for the frame. -/
structure Receives (c : H2Conn) (i : Nat) (s : H2Stream) (f : H2Frame) : Prop where
  running : c.error = none
  stream : f.streamId ≠ 0
  found : h2FindStream c f.streamId = some i
  slot : c.streams[i]? = some s
  unreset : s.reset = false
  unended : s.remoteEnded = false
  conn : f.len ≤ c.connRecvWindow % 2 ^ 64
  own : f.len ≤ s.recvWindow

/-- The payload is the pad length and `p`. -/
structure PaddedData (f : H2Frame) (pad : UInt8) (p : Bytes) : Prop where
  padded : f.padded = true
  payload : f.payload = pad :: p

/-- The payload is the pad length, the priority block if there is one, and `p`. -/
structure PaddedHeaders (f : H2Frame) (pad : UInt8) (p : Bytes) : Prop where
  padded : f.padded = true
  stream : f.streamId ≠ 0
  payload : ∃ block, f.payload = pad :: (block ++ p) ∧ block.length = if f.priorityFlag then 5 else 0
  fits : f.len ≤ h2MaxFrameSize

/-- The stream has taken `d` into its body, unless the body is over the limit. -/
structure TookData (env : H2Env) (i : Nat) (s : H2Stream) (d : Bytes) (c : H2Conn) : Prop where
  running : c.error = none
  stream : ∃ s', c.streams[i]? = some s' ∧ s'.reqBytes = s.reqBytes + d.length ∧
    s'.body = if s.bodyTooBig = true ∨ env.maxBody < s.body.length + d.length then s.body else s.body ++ d

/-- A header block of the frame begins with `d`, or is `d`. -/
def startBlock (env : H2Env) (c : H2Conn) (f : H2Frame) (d : Bytes) : H2Conn :=
  let c := { c with hbStream := f.streamId, hbEndStream := f.endStream, hbAbort := false, hb := [] }
  if f.endHeaders then h2OnHeaderBlockFinish env (clearBlock c) f.streamId f.endStream d
  else { c with hb := d }

/-- What is in front of `pad` bytes of padding is taken, and there is an error when
there are fewer bytes than that. -/
structure Unpads (pad : UInt8) (p : Bytes) (c' : H2Conn) (took : Bytes → Prop) : Prop where
  refused : p.length < pad.toNat → c'.error ≠ none
  taken : ∀ d padding : Bytes, p = d ++ padding → padding.length = pad.toNat → took d

/-! ## Frames that are sent on the way -/

theorem h2SendFrame_error {c : H2Conn} {f : H2Frame} (h : f.len ≤ h2MaxFrameSize) :
    (h2SendFrame env c f).1.error = c.error := by
  obtain ⟨_, hLarge⟩ | ⟨writes, hEq⟩ | ⟨writes, hEq⟩ := h2SendFrame_cases env c f
  · omega
  · rw [hEq]
  · rw [hEq]

theorem h2SendStreamError_error (c : H2Conn) (id : Nat) (e : H2Error) :
    (h2SendStreamError env c id e).error = c.error :=
  h2SendFrame_error (show (4 : Nat) ≤ 16384 by decide)

theorem h2SendWindowUpdate_error (c : H2Conn) (id inc : Nat) :
    (h2SendWindowUpdate env c id inc).error = c.error :=
  h2SendFrame_error (show (4 : Nat) ≤ 16384 by decide)

/-! ## DATA -/

theorem dataBody_takes {c : H2Conn} {i : Nat} {s t : H2Stream} (f : H2Frame) (d : Bytes)
    (hOk : c.error = none)
    (hAt : c.streams[i]? = some t) (hOpen : s.remoteEnded = false) (hBody : t.body = s.body) :
    TookData env i s d (dataBody env c i s f d) := by
  have hBig : (s.bodyTooBig || decide (env.maxBody < s.body.length + d.length)) = true ↔
      s.bodyTooBig = true ∨ env.maxBody < s.body.length + d.length := by
    rw [Bool.or_eq_true, decide_eq_true_eq]
  have hTaken : (if (s.bodyTooBig || decide (env.maxBody < s.body.length + d.length)) = true then t.body
    else t.body ++ d) =
      if s.bodyTooBig = true ∨ env.maxBody < s.body.length + d.length then s.body else s.body ++ d := by
    rw [hBody]
    simp only [hBig]
  rw [dataBody, if_neg (by rw [hOpen]; exact Bool.false_ne_true)]
  dsimp only
  split
  · constructor
    · change (h2SendStreamError env _ _ _).error = none
      rw [h2SendStreamError_error]
      exact hOk
    · rw [H2Conn.modifyStream, h2SendStreamError, h2SendFrame_streams, H2Conn.modifyStream,
        List.getElem?_modify_eq,
        List.getElem?_modify_eq, hAt]
      exact ⟨_, rfl, rfl, hTaken⟩
  · refine ⟨hOk, ?_⟩
    rw [H2Conn.modifyStream, List.getElem?_modify_eq, hAt]
    exact ⟨_, rfl, rfl, hTaken⟩

theorem h2OnData_taken {c : H2Conn} {i : Nat} {s : H2Stream} {f : H2Frame} {d : Bytes}
    (hOpen : Receives c i s f)
    (hData : dataPayload f = some d) : TookData env i s d (h2OnData env c f) := by
  rw [h2OnData, if_neg hOpen.stream, hData]
  dsimp only
  rw [if_neg (not_lt.mpr hOpen.conn)]
  have hStreams :
    (h2SendWindowUpdate env { c with connRecvWindow := c.connRecvWindow - f.len } 0 f.len).streams =
      c.streams := h2SendFrame_streams env _ _
  have hError :
    (h2SendWindowUpdate env { c with connRecvWindow := c.connRecvWindow - f.len } 0 f.len).error = none := by
    rw [h2SendWindowUpdate_error]
    exact hOpen.running
  generalize h2SendWindowUpdate env { c with connRecvWindow := c.connRecvWindow - f.len } 0 f.len =
    m at hStreams hError ⊢
  have hFind : h2FindStream m f.streamId = some i := by
    rw [h2FindStream, hStreams]
    exact hOpen.found
  have hAt : m.streams[i]? = some s := by
    rw [hStreams]
    exact hOpen.slot
  rw [hFind]
  simp only [hAt]
  rw [dataOnStream, if_neg (by rw [hOpen.unreset]; exact Bool.false_ne_true)]
  dsimp only
  rw [if_neg (not_lt.mpr hOpen.own)]
  refine @dataBody_takes env _ i s { s with recvWindow := s.recvWindow - f.len } f d ?_ ?_ hOpen.unended rfl
  · rw [h2SendWindowUpdate_error]
    exact hError
  · rw [h2SendWindowUpdate, h2SendFrame_streams, H2Conn.modifyStream, List.getElem?_modify_eq, hAt]
    rfl

/-- DATA is unpadded rightly unless the padding is all there is. -/
theorem data_unpads_iff {c : H2Conn} {i : Nat} {s : H2Stream} {f : H2Frame} {pad : UInt8} {p : Bytes}
    (hOpen : Receives c i s f)
    (hFrame : PaddedData f pad p) :
    Unpads pad p (h2OnData env c f) (fun d => TookData env i s d (h2OnData env c f)) ↔
      p.length ≠ pad.toNat := by
  have hNone : p.length ≤ pad.toNat → (h2OnData env c f).error ≠ none := by
    intro hShort
    have hData : dataPayload f = none := by
      rw [dataPayload, if_pos hFrame.padded, hFrame.payload]
      exact if_pos hShort
    rw [h2OnData, if_neg hOpen.stream, hData]
    exact h2ConnError_error_ne_none c _
  constructor
  · intro h hLength
    exact hNone hLength.le (h.taken [] p rfl hLength).running
  · intro hLength
    refine ⟨fun hShort => hNone hShort.le, ?_⟩
    rintro d padding rfl hPadding
    rw [List.length_append] at hLength
    refine h2OnData_taken hOpen ?_
    rw [dataPayload, if_pos hFrame.padded, hFrame.payload]
    dsimp only
    rw [if_neg (by rw [List.length_append]; omega), List.length_append, ← hPadding, Nat.add_sub_cancel,
      List.take_left]

/-! ## HEADERS -/

theorem headersFragment_padded {f : H2Frame} {pad : UInt8} {p : Bytes} (h : PaddedHeaders f pad p) :
    headersFragment f = if p.length < pad.toNat then none else some (p.take (p.length - pad.toNat)) := by
  obtain ⟨block, hPayload, hBlock⟩ := h.payload
  rw [headersFragment, if_pos h.padded, hPayload]
  dsimp only
  cases hPriority : f.priorityFlag with
  | false =>
    rw [hPriority, if_neg Bool.false_ne_true] at hBlock
    obtain rfl := List.length_eq_zero_iff.mp hBlock
    rw [if_neg (fun hBoth => Bool.false_ne_true hBoth.1), if_neg Bool.false_ne_true]
    rfl
  | true =>
    rw [hPriority, if_pos rfl] at hBlock
    have hEnough : ¬ (block ++ p).length < 5 := by
      rw [List.length_append]
      omega
    rw [if_neg (fun hBoth => hEnough hBoth.2), if_pos rfl, List.drop_left' hBlock]

theorem headers_unpads {c : H2Conn} {f : H2Frame} {pad : UInt8} {p : Bytes} (h : PaddedHeaders f pad p) :
    Unpads pad p (h2OnHeadersStart env c f) (fun d => h2OnHeadersStart env c f = startBlock env c f d) := by
  constructor
  · intro hShort
    rw [h2OnHeadersStart, if_neg h.stream, headersFragment_padded h, if_pos hShort]
    exact h2ConnError_error_ne_none _ _
  · rintro d padding rfl hPadding
    have hFits := h.fits
    obtain ⟨block, hPayload, _⟩ := h.payload
    have hCap : ¬ h2HeaderBlockCap < d.length := by
      rw [H2Frame.len, hPayload, List.length_cons, List.length_append, List.length_append] at hFits
      have hMax : h2MaxFrameSize = 16384 := rfl
      have hBlockCap : h2HeaderBlockCap = 262144 := rfl
      omega
    have hFragment : headersFragment f = some d := by
      rw [headersFragment_padded h, if_neg (by rw [List.length_append]; omega), List.length_append,
        ← hPadding,
        Nat.add_sub_cancel, List.take_left]
    rw [h2OnHeadersStart, if_neg h.stream, hFragment]
    dsimp only
    rw [if_neg hCap]
    rfl

/-! ## Both -/

/-- Padding is taken off DATA and HEADERS alike exactly when DATA has something in
front of it. -/
theorem unpads_iff {c : H2Conn} {i : Nat} {s : H2Stream} {f : H2Frame} {pad : UInt8} {p : Bytes}
    (hOpen : Receives c i s f)
    (hFrame : PaddedData f pad p) :
    (Unpads pad p (h2OnData env c f) (fun d => TookData env i s d (h2OnData env c f)) ∧
      ∀ (m : H2Conn) (g : H2Frame) (pad' : UInt8) (q : Bytes), PaddedHeaders g pad' q →
        Unpads pad' q (h2OnHeadersStart env m g) (fun d => h2OnHeadersStart env m g = startBlock env m g d)) ↔
      p.length ≠ pad.toNat := by
  rw [data_unpads_iff hOpen hFrame]
  exact ⟨fun h => h.1, fun h => ⟨h, fun m g pad' q hHeaders => headers_unpads hHeaders⟩⟩

def oneStream : H2Conn :=
  { h2Init with streams :=
    [newStream 1 false emptyRequest 65535], lastStreamId := 1, gotClientSettings := true }

def paddedHi : H2Frame := ⟨.data, 8, 1, 2 :: ascii "hi" ++ [0, 0]⟩

theorem paddedHi_unpads :
    (Unpads 2 (ascii "hi" ++ [0, 0]) (h2OnData plainEnv oneStream paddedHi)
        (fun d => TookData plainEnv 0 (newStream 1 false emptyRequest 65535) d
          (h2OnData plainEnv oneStream paddedHi)) ∧
      ∀ (m : H2Conn) (g : H2Frame) (pad' : UInt8) (q : Bytes), PaddedHeaders g pad' q →
        Unpads pad' q (h2OnHeadersStart plainEnv m g)
          (fun d => h2OnHeadersStart plainEnv m g = startBlock plainEnv m g d)) ↔
      (ascii "hi" ++ [0, 0]).length ≠ (2 : UInt8).toNat :=
  @unpads_iff plainEnv oneStream 0 (newStream 1 false emptyRequest 65535) paddedHi 2 (ascii "hi" ++ [0, 0])
    ⟨rfl, by decide, by decide +kernel, rfl, rfl, rfl, by decide +kernel, by decide +kernel⟩
      ⟨by decide +kernel, rfl⟩

def paddedEmpty : H2Frame := ⟨.data, 8, 1, [2, 0, 0]⟩

/-- Padding that fills the frame is taken for too much of it. -/
theorem paddedEmpty_refused : Receives oneStream 0 (newStream 1 false emptyRequest 65535) paddedEmpty ∧
    PaddedData paddedEmpty 2 [0, 0] ∧
    ¬ Unpads 2 [0, 0] (h2OnData plainEnv oneStream paddedEmpty)
      (fun d => TookData plainEnv 0 (newStream 1 false emptyRequest 65535) d
        (h2OnData plainEnv oneStream paddedEmpty)) := by
  refine ⟨⟨rfl, by decide, by decide +kernel, rfl, rfl, rfl, by decide +kernel, by decide +kernel⟩,
    ⟨by decide +kernel, rfl⟩, ?_⟩
  intro h
  have hError : (h2OnData plainEnv oneStream paddedEmpty).error = some .protocol := by decide +kernel
  have hNone := (h.taken [] [0, 0] rfl rfl).running
  rw [hError] at hNone
  cases hNone

end Cweb.H2
