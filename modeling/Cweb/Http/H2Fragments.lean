import Cweb.Http.H2PumpBody

/-!
# A header block in fragments

The sender cuts a block into frames of the largest size, the receiver puts the
fragments together until one ends the headers. What is written is read back as
the frames that were sent, and the receiver finishes the block once, on the last
of them.
-/

namespace Cweb.H2

open Hpack

/-! ## Frames on the wire -/

def H2FrameType.code : H2FrameType → UInt8
  | .data => 0
  | .headers => 1
  | .priority => 2
  | .rst => 3
  | .settings => 4
  | .pushPromise => 5
  | .ping => 6
  | .goaway => 7
  | .window => 8
  | .cont => 9
  | .unknown code => code

def frameHeader (f : H2Frame) : Bytes :=
  [UInt8.ofNat (f.len / 2 ^ 16), UInt8.ofNat (f.len / 2 ^ 8), UInt8.ofNat f.len, f.type.code, f.flags,
    UInt8.ofNat (f.streamId / 2 ^ 24 % 2 ^ 7), UInt8.ofNat (f.streamId / 2 ^ 16),
    UInt8.ofNat (f.streamId / 2 ^ 8),
    UInt8.ofNat f.streamId]

/-- The writes of one frame: an empty payload takes none. -/
def frameWrites (f : H2Frame) : List Bytes := frameHeader f :: if f.payload = [] then [] else [f.payload]

def wire (frames : List H2Frame) : Bytes := (frames.flatMap frameWrites).flatten

theorem wire_cons (f : H2Frame) (frames : List H2Frame) :
    wire (f :: frames) = frameHeader f ++ (f.payload ++ wire frames) := by
  rw [wire, List.flatMap_cons, List.flatten_append, frameWrites, List.flatten_cons, List.append_assoc]
  rcases hPayload : f.payload with _ | ⟨b, payload⟩
  · rfl
  · simp [wire]

theorem length_le_wire (frames : List H2Frame) : frames.length ≤ (wire frames).length := by
  induction frames with
  | nil => exact Nat.le_refl 0
  | cons f frames ih =>
    rw [wire_cons, List.length_append, List.length_append, List.length_cons]
    have hHeader : (frameHeader f).length = 9 := rfl
    omega

/-- A type that the frame header can carry back. -/
def H2FrameType.Known (t : H2FrameType) : Prop := frameTypeOf t.code = t

theorem h2FramePeek_wire {f : H2Frame} (hLen : f.len ≤ h2MaxFrameSize) (hType : f.type.Known)
    (hId : f.streamId < 2 ^ 31) (rest : Bytes) :
    h2FramePeek (frameHeader f ++ (f.payload ++ rest)) = .frame f rest := by
  have hSize : h2MaxFrameSize = 16384 := rfl
  have hLength : (UInt8.ofNat (f.len / 2 ^ 16)).toNat * 2 ^ 16 + (UInt8.ofNat (f.len / 2 ^ 8)).toNat * 2 ^ 8 +
      (UInt8.ofNat f.len).toNat = f.len := by
    simp only [UInt8.toNat_ofNat']
    omega
  have hStream : rd32 [UInt8.ofNat (f.streamId / 2 ^ 24 % 2 ^ 7), UInt8.ofNat (f.streamId / 2 ^ 16),
      UInt8.ofNat (f.streamId / 2 ^ 8), UInt8.ofNat f.streamId] % 2 ^ 31 = f.streamId := by
    simp only [rd32, UInt8.toNat_ofNat']
    omega
  have hWhole : ¬(f.payload ++ rest).length < f.len := by
    rw [List.length_append, H2Frame.len]
    omega
  simp only [frameHeader, List.cons_append, List.nil_append, h2FramePeek, hLength, hStream]
  rw [if_neg (by omega), if_neg hWhole]
  rw [show frameTypeOf f.type.code = f.type from hType, H2Frame.len, List.take_left', List.drop_left'] <;> rfl

/-- The frames at the front of a buffer and what is left of it. -/
def framesIn : Nat → Bytes → List H2Frame × Bytes
  | 0, rb => ([], rb)
  | fuel + 1, rb =>
    match h2FramePeek rb with
    | .frame f rest => (f :: (framesIn fuel rest).1, (framesIn fuel rest).2)
    | _ => ([], rb)

theorem framesIn_wire (frames : List H2Frame) : ∀ fuel, frames.length ≤ fuel →
    (∀ f ∈ frames, f.len ≤ h2MaxFrameSize ∧ f.type.Known ∧ f.streamId < 2 ^ 31) →
    framesIn fuel (wire frames) = (frames, []) := by
  induction frames with
  | nil =>
    rintro (_ | fuel) _ _ <;> rfl
  | cons f frames ih =>
    rintro (_ | fuel) hFuel hAll
    · exact absurd hFuel (Nat.not_succ_le_zero _)
    · obtain ⟨hLen, hType, hId⟩ := hAll f List.mem_cons_self
      rw [framesIn, wire_cons, h2FramePeek_wire hLen hType hId]
      dsimp only
      rw [ih fuel (Nat.le_of_succ_le_succ hFuel) fun g hg => hAll g (List.mem_cons_of_mem f hg)]

/-! ## What is sent -/

theorem sendFrames_trace {env : H2Env} (frames : List H2Frame) :
    ∀ {c : H2Conn}, (sendFrames env c frames).2 = true →
    (sendFrames env c frames).1.trace = c.trace ++ frames.map .sent := by
  induction frames with
  | nil =>
    intro c _
    rw [sendFrames, List.map_nil, List.append_nil]
  | cons f frames ih =>
    intro c h
    rw [sendFrames] at h ⊢
    rcases h2SendFrame_cases env c f with ⟨hEq, _⟩ | ⟨writes, hEq⟩ | ⟨writes, hEq⟩
    · rw [hEq] at h
      cases h
    · rw [hEq] at h ⊢
      dsimp only at h ⊢
      rw [ih h, List.map_cons, List.append_assoc]
      rfl
    · rw [hEq] at h
      cases h

/-- The frames of a block that is not empty. -/
def blockFrames (id : Nat) (endStream : Bool) (blk : Bytes) : List H2Frame :=
  headerFrames id endStream (blk.length + 1) true blk

theorem h2SendHeaderBlock_eq (env : H2Env) (c : H2Conn) (id : Nat) {blk : Bytes} (hBlk : blk ≠ [])
    (endStream : Bool) :
    h2SendHeaderBlock env c id blk endStream = sendFrames env c (blockFrames id endStream blk) := by
  rw [h2SendHeaderBlock, if_neg hBlk, List.append_nil]
  rfl

def fragmentFlags (endStream first last : Bool) : UInt8 :=
  (if last then 4 else 0) + (if first && endStream then 1 else 0)

def fragmentFrame (id : Nat) (endStream first last : Bool) (payload : Bytes) : H2Frame :=
  ⟨if first then .headers else .cont, fragmentFlags endStream first last, id, payload⟩

theorem fragmentFlags_bits : ∀ endStream first last : Bool,
    (fragmentFlags endStream first last).toNat.testBit 2 = last ∧
      (fragmentFlags endStream first last).toNat.testBit 0 = (first && endStream) ∧
      (fragmentFlags endStream first last).toNat.testBit 3 = false ∧
      (fragmentFlags endStream first last).toNat.testBit 5 = false := by decide

theorem fragmentFrame_flags (id : Nat) (endStream first last : Bool) (payload : Bytes) :
    (fragmentFrame id endStream first last payload).endHeaders = last ∧
      (fragmentFrame id endStream first last payload).endStream = (first && endStream) ∧
      (fragmentFrame id endStream first last payload).padded = false ∧
      (fragmentFrame id endStream first last payload).priorityFlag = false :=
  fragmentFlags_bits endStream first last

theorem headerFrames_cases (id : Nat) (endStream : Bool) (fuel : Nat) (first : Bool) (rest : Bytes) :
    rest.drop h2MaxFrameSize = [] ∧
        headerFrames id endStream (fuel + 1) first rest = [fragmentFrame id endStream first true rest] ∨
      rest.drop h2MaxFrameSize ≠ [] ∧ headerFrames id endStream (fuel + 1) first rest =
        fragmentFrame id endStream first false (rest.take h2MaxFrameSize) ::
          headerFrames id endStream fuel false (rest.drop h2MaxFrameSize) := by
  rcases eq_or_ne (rest.drop h2MaxFrameSize) [] with hLeft | hLeft
  · refine .inl ⟨hLeft, ?_⟩
    rw [headerFrames, hLeft, List.take_of_length_le (List.drop_eq_nil_iff.mp hLeft)]
    rfl
  · refine .inr ⟨hLeft, ?_⟩
    rw [headerFrames, if_neg hLeft, if_neg hLeft]
    rfl

/-- END_HEADERS is on the last frame and on no other one. -/
def EndsOnLast (frames : List H2Frame) : Prop :=
  ∃ front last, frames = front ++ [last] ∧ last.endHeaders = true ∧ ∀ f ∈ front, f.endHeaders = false

theorem EndsOnLast.cons {f : H2Frame} {frames : List H2Frame} (hf : f.endHeaders = false)
    (h : EndsOnLast frames) :
    EndsOnLast (f :: frames) := by
  obtain ⟨front, last, rfl, hLast, hFront⟩ := h
  refine ⟨f :: front, last, rfl, hLast, ?_⟩
  rintro g hg
  rcases List.mem_cons.mp hg with rfl | hg
  · exact hf
  · exact hFront g hg

theorem headerFrames_ends (id : Nat) (endStream : Bool) (fuel : Nat) : ∀ (first : Bool) {rest : Bytes},
    rest.length < fuel → EndsOnLast (headerFrames id endStream fuel first rest) := by
  induction fuel with
  | zero =>
    intro first rest h
    exact absurd h (Nat.not_lt_zero _)
  | succ fuel ih =>
    intro first rest h
    rcases headerFrames_cases id endStream fuel first rest with ⟨_, hEq⟩ | ⟨hLeft, hEq⟩
    · rw [hEq]
      exact ⟨[], _, rfl, (fragmentFrame_flags id endStream first true rest).1, List.forall_mem_nil _⟩
    · rw [hEq]
      apply EndsOnLast.cons (fragmentFrame_flags id endStream first false _).1
      apply ih
      have hPos := List.length_pos_iff.mpr hLeft
      have hCap : 0 < h2MaxFrameSize := by decide
      rw [List.length_drop] at hPos ⊢
      omega

theorem headerFrames_known (id : Nat) (endStream : Bool) (fuel : Nat) : ∀ (first : Bool) (rest : Bytes),
    ∀ f ∈ headerFrames id endStream fuel first rest, f.type.Known ∧ f.streamId = id := by
  induction fuel with
  | zero =>
    intro first rest f hf
    exact absurd hf List.not_mem_nil
  | succ fuel ih =>
    intro first rest f hf
    have hFragment : ∀ last payload, (fragmentFrame id endStream first last payload).type.Known := by
      intro last payload
      cases first <;> rfl
    rcases headerFrames_cases id endStream fuel first rest with ⟨_, hEq⟩ | ⟨_, hEq⟩
    · rw [hEq] at hf
      obtain rfl := List.mem_singleton.mp hf
      exact ⟨hFragment _ _, rfl⟩
    · rw [hEq] at hf
      rcases List.mem_cons.mp hf with rfl | hf
      · exact ⟨hFragment _ _, rfl⟩
      · exact ih false _ f hf

/-! ## What is received -/

/-- A call of `h2_on_header_block_finish`. -/
structure FinishCall where
  id : Nat
  endStream : Bool
  blk : Bytes
deriving DecidableEq, Repr

/-- A handler up to the call it may end with. -/
abbrev BlockStep := H2Conn × Option FinishCall

def BlockStep.finish (env : H2Env) (r : BlockStep) : H2Conn :=
  match r.2 with
  | none => r.1
  | some call => h2OnHeaderBlockFinish env r.1 call.id call.endStream call.blk

def contCall (env : H2Env) (c : H2Conn) (f : H2Frame) : BlockStep :=
  if c.hbStream = 0 then (h2ConnError c .protocol, none)
  else if f.streamId ≠ c.hbStream then (h2ConnError c .protocol, none)
  else
    let c := takeFragment env c f
    if f.endHeaders then
      if c.hbAbort then (clearBlock c, none) else (clearBlock c, some ⟨c.hbStream, c.hbEndStream, c.hb⟩)
    else (c, none)

def headersStartCall (c : H2Conn) (f : H2Frame) : BlockStep :=
  if f.streamId = 0 then (h2ConnError c .protocol, none)
  else
    let c := { c with hbStream := f.streamId, hbEndStream := f.endStream, hbAbort := false, hb := [] }
    match headersFragment f with
    | none => (h2ConnError c .protocol, none)
    | some frag =>
      if h2HeaderBlockCap < frag.length then (h2ConnError c .calm, none)
      else if f.endHeaders then (clearBlock c, some ⟨f.streamId, f.endStream, frag⟩)
      else ({ c with hb := frag }, none)

theorem h2OnCont_eq (env : H2Env) (c : H2Conn) (f : H2Frame) :
    h2OnCont env c f = (contCall env c f).finish env := by
  rw [h2OnCont, contCall]
  split
  · rfl
  · split
    · rfl
    · dsimp only
      split
      · split <;> rfl
      · rfl

theorem h2OnHeadersStart_eq (env : H2Env) (c : H2Conn) (f : H2Frame) :
    h2OnHeadersStart env c f = (headersStartCall c f).finish env := by
  rw [h2OnHeadersStart, headersStartCall]
  split
  · rfl
  · cases headersFragment f with
    | none => rfl
    | some frag =>
      dsimp only
      split
      · rfl
      · split <;> rfl

/-- HEADERS to the one handler, CONTINUATION to the other. -/
def feedFrame (env : H2Env) (c : H2Conn) (f : H2Frame) : BlockStep :=
  match f.type with
  | .headers => headersStartCall c f
  | .cont => contCall env c f
  | _ => (c, none)

/-- The connection after the frames and the calls made on the way. -/
def feedFrames (env : H2Env) : H2Conn → List H2Frame → H2Conn × List FinishCall
  | c, [] => (c, [])
  | c, f :: frames =>
    let r := feedFrame env c f
    let q := feedFrames env (r.finish env) frames
    (q.1, r.2.toList ++ q.2)

theorem feedFrames_of_none {env : H2Env} {c c' : H2Conn} {f : H2Frame} (h : feedFrame env c f = (c', none))
    (frames : List H2Frame) : feedFrames env c (f :: frames) = feedFrames env c' frames := by
  rw [feedFrames, h]
  rfl

/-- The handlers of the connection run on the frames in turn. -/
def handleFrames (env : H2Env) (c : H2Conn) (frames : List H2Frame) : H2Conn :=
  frames.foldl (fun c f => match f.type with
    | .headers => h2OnHeadersStart env c f
    | .cont => h2OnCont env c f
    | _ => c) c

theorem feedFrames_conn (env : H2Env) (frames : List H2Frame) :
    ∀ c, (feedFrames env c frames).1 = handleFrames env c frames := by
  induction frames with
  | nil =>
    intro c
    rfl
  | cons f frames ih =>
    intro c
    rw [feedFrames, handleFrames, List.foldl_cons]
    dsimp only
    rw [ih, handleFrames]
    congr 1
    rw [feedFrame]
    cases f.type with
    | headers => exact (h2OnHeadersStart_eq env c f).symm
    | cont => exact (h2OnCont_eq env c f).symm
    | _ => rfl

theorem contCall_fragment (env : H2Env) {c : H2Conn} (hStream : c.hbStream ≠ 0) (hAbort : c.hbAbort = false)
    (endStream last : Bool) {payload : Bytes} (hFits : c.hb.length + payload.length ≤ h2HeaderBlockCap) :
    contCall env c (fragmentFrame c.hbStream endStream false last payload) =
      if last then (clearBlock c, some ⟨c.hbStream, c.hbEndStream, c.hb ++ payload⟩)
      else ({ c with hb := c.hb ++ payload }, none) := by
  have hTake : takeFragment env c (fragmentFrame c.hbStream endStream false last payload) =
      { c with hb := c.hb ++ payload } := by
    rw [takeFragment, if_neg (by rw [hAbort]; exact Bool.false_ne_true)]
    exact if_neg (Nat.not_lt.mpr hFits)
  rw [contCall, if_neg hStream, if_neg (fun h => h rfl), hTake,
    (fragmentFrame_flags c.hbStream endStream false last payload).1]
  dsimp only
  rw [hAbort]
  cases last <;> rfl

theorem headersFragment_fragment (id : Nat) (endStream last : Bool) (payload : Bytes) :
    headersFragment (fragmentFrame id endStream true last payload) = some payload := by
  obtain ⟨_, _, hPadded, hPriority⟩ := fragmentFrame_flags id endStream true last payload
  simp only [headersFragment, hPadded, hPriority, Bool.false_eq_true, if_false, false_and,
    Nat.not_lt_zero, Nat.sub_zero]
  exact congrArg some List.take_length

/-- The first fragment starts a new block whatever was being assembled. -/
theorem headersStartCall_fragment (c : H2Conn) {id : Nat} (hId : id ≠ 0) (endStream last : Bool)
    {payload : Bytes}
    (hFits : payload.length ≤ h2HeaderBlockCap) :
    headersStartCall c (fragmentFrame id endStream true last payload) =
      if last then (clearBlock c, some ⟨id, endStream, payload⟩)
      else ({ c with hbStream := id, hbEndStream := endStream, hbAbort := false, hb := payload }, none) := by
  obtain ⟨hEnd, hStream, _⟩ := fragmentFrame_flags id endStream true last payload
  have hNe : (fragmentFrame id endStream true last payload).streamId ≠ 0 := hId
  rw [headersStartCall, if_neg hNe, headersFragment_fragment, hEnd, hStream]
  dsimp only
  rw [if_neg (Nat.not_lt.mpr hFits)]
  cases last <;> rfl

theorem feedFrames_cont (env : H2Env) (endStream : Bool) (fuel : Nat) : ∀ {c : H2Conn} {rest : Bytes},
    rest.length < fuel → c.hbStream ≠ 0 → c.hbAbort = false → c.hb.length + rest.length ≤ h2HeaderBlockCap →
    feedFrames env c (headerFrames c.hbStream endStream fuel false rest) =
      (h2OnHeaderBlockFinish env (clearBlock c) c.hbStream c.hbEndStream (c.hb ++ rest),
        [⟨c.hbStream, c.hbEndStream, c.hb ++ rest⟩]) := by
  induction fuel with
  | zero =>
    intro c rest h
    exact absurd h (Nat.not_lt_zero _)
  | succ fuel ih =>
    intro c rest hFuel hStream hAbort hFits
    have hFeed : ∀ last payload, feedFrame env c (fragmentFrame c.hbStream endStream false last payload) =
        contCall env c (fragmentFrame c.hbStream endStream false last payload) := fun _ _ => rfl
    rcases headerFrames_cases c.hbStream endStream fuel false rest with ⟨_, hEq⟩ | ⟨hLeft, hEq⟩
    · rw [hEq, feedFrames, hFeed, contCall_fragment env hStream hAbort endStream true hFits]
      rfl
    · have hTake := List.length_take_le' h2MaxFrameSize rest
      have hPos := List.length_pos_iff.mpr hLeft
      have hMax : 0 < h2MaxFrameSize := by decide
      rw [List.length_drop] at hPos
      have hRest : feedFrames env { c with hb := c.hb ++ rest.take h2MaxFrameSize }
          (headerFrames c.hbStream endStream fuel false (rest.drop h2MaxFrameSize)) = _ :=
        ih (by rw [List.length_drop]; omega) hStream hAbort
          (by rw [List.length_append, List.length_take, List.length_drop]; omega)
      have hCall :=
        (hFeed false (rest.take h2MaxFrameSize)).trans
          (contCall_fragment env hStream hAbort endStream false (by omega))
      rw [hEq, feedFrames_of_none hCall, hRest, List.append_assoc, List.take_append_drop]
      rfl

/-- The frames of a block make the receiver finish that block, once, and change
nothing but the block it assembles. -/
theorem feedFrames_block (env : H2Env) (c : H2Conn) {id : Nat} (hId : id ≠ 0) (endStream : Bool) {blk : Bytes}
    (hCap : blk.length ≤ h2HeaderBlockCap) : feedFrames env c (blockFrames id endStream blk) =
      (h2OnHeaderBlockFinish env (clearBlock c) id endStream blk, [⟨id, endStream, blk⟩]) := by
  have hFeed : ∀ last payload, feedFrame env c (fragmentFrame id endStream true last payload) =
      headersStartCall c (fragmentFrame id endStream true last payload) := fun _ _ => rfl
  rw [blockFrames]
  rcases headerFrames_cases id endStream blk.length true blk with ⟨_, hEq⟩ | ⟨hLeft, hEq⟩
  · rw [hEq, feedFrames, hFeed, headersStartCall_fragment c hId endStream true hCap]
    rfl
  · have hTake := List.length_take_le' h2MaxFrameSize blk
    have hPos := List.length_pos_iff.mpr hLeft
    have hMax : 0 < h2MaxFrameSize := by decide
    rw [List.length_drop] at hPos
    have hRest : feedFrames env
        { c with hbStream := id, hbEndStream := endStream, hbAbort := false, hb := blk.take h2MaxFrameSize }
        (headerFrames id endStream blk.length false (blk.drop h2MaxFrameSize)) = _ :=
      feedFrames_cont env endStream blk.length (by rw [List.length_drop]; omega) hId rfl
        (by rw [List.length_take, List.length_drop]; omega)
    have hCall :=
      (hFeed false (blk.take h2MaxFrameSize)).trans
        (headersStartCall_fragment c hId endStream false (by omega))
    rw [hEq, feedFrames_of_none hCall, hRest, List.take_append_drop]
    rfl

/-- A block of up to 256 KiB that is sent is written in frames that read back as
they were sent, none larger than allowed and the last one alone ending the headers,
and a receiver of these frames finishes the same block once. -/
theorem header_block_round_trip (env : H2Env) (c : H2Conn) {id : Nat} (hOdd : id % 2 = 1) (hId : id < 2 ^ 31)
    (endStream : Bool) {blk : Bytes} (hBlk : 1 ≤ blk.length) (hCap : blk.length ≤ h2HeaderBlockCap)
    (hSent : (h2SendHeaderBlock env c id blk endStream).2 = true) :
    ∃ frames, (h2SendHeaderBlock env c id blk endStream).1.trace = c.trace ++ frames.map .sent ∧
      framesIn (wire frames).length (wire frames) = (frames, []) ∧
      (∀ f ∈ frames, f.len ≤ h2MaxFrameSize) ∧ EndsOnLast frames ∧
      ∀ (receiver : H2Env) (d : H2Conn), feedFrames receiver d frames =
          (h2OnHeaderBlockFinish receiver (clearBlock d) id endStream blk, [⟨id, endStream, blk⟩]) ∧
        handleFrames receiver d frames = h2OnHeaderBlockFinish receiver (clearBlock d) id endStream blk := by
  have hNe : blk ≠ [] := List.length_pos_iff.mp hBlk
  rw [h2SendHeaderBlock_eq env c id hNe endStream] at hSent ⊢
  have hSize := headerFrames_len id endStream (blk.length + 1) true blk
  refine ⟨blockFrames id endStream blk, sendFrames_trace _ hSent, ?_, hSize,
    headerFrames_ends id endStream _ true (Nat.lt_succ_self _), ?_⟩
  · apply framesIn_wire
    · exact length_le_wire _
    · rintro f hf
      obtain ⟨hKnown, hStream⟩ := headerFrames_known id endStream _ true blk f hf
      exact ⟨hSize f hf, hKnown, hStream ▸ hId⟩
  · intro receiver d
    have hFeed := feedFrames_block receiver d (show id ≠ 0 by omega) endStream hCap
    exact ⟨hFeed, (feedFrames_conn receiver _ d).symm.trans (congrArg Prod.fst hFeed)⟩

theorem h2SendHeaderBlock_ok {env : H2Env} (hWrites : ∀ n, env.writeOk n = true) (c : H2Conn) (id : Nat)
    {blk : Bytes}
    (hBlk : blk ≠ []) (endStream : Bool) : (h2SendHeaderBlock env c id blk endStream).2 = true := by
  obtain ⟨writes, hSend⟩ :=
    sendFrames_of_writeOk hWrites (blockFrames id endStream blk) c (headerFrames_len _ _ _ _ _)
  rw [h2SendHeaderBlock_eq env c id hBlk, hSend]

theorem header_block_round_trip_two_frames :
    ∃ frames, (h2SendHeaderBlock plainEnv h2Init 1 (List.replicate 20000 65) true).1.trace = [] ++
      frames.map .sent ∧
      framesIn (wire frames).length (wire frames) = (frames, []) ∧
      (∀ f ∈ frames, f.len ≤ h2MaxFrameSize) ∧ EndsOnLast frames ∧
      ∀ (receiver : H2Env) (d : H2Conn), feedFrames receiver d frames =
          (h2OnHeaderBlockFinish receiver (clearBlock d) 1 true (List.replicate 20000 65),
            [⟨1, true, List.replicate 20000 65⟩]) ∧
        handleFrames receiver d frames =
          h2OnHeaderBlockFinish receiver (clearBlock d) 1 true (List.replicate 20000 65) := by
  have hLength : (List.replicate 20000 (65 : UInt8)).length = 20000 := List.length_replicate
  have hNe : List.replicate 20000 (65 : UInt8) ≠ [] := List.length_pos_iff.mp (by omega)
  exact header_block_round_trip plainEnv h2Init rfl (by decide) true (by omega) (by rw [hLength]; decide)
    (h2SendHeaderBlock_ok (fun _ => rfl) h2Init 1 hNe true)

end Cweb.H2
