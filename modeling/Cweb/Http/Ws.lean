import Mathlib.Data.List.GetD
import Cweb.Lib.BigEndian
import Cweb.Http.Server

/-!
# Frames of a WebSocket

A connection reads through a staging buffer of its own that holds a whole frame, with
its header and key, before the payload is unmasked. What the client sends is the
encoding of the server's own sender with the mask bit, the key and the masked payload.
-/

namespace Cweb.Ws

/-! ## The connection -/

inductive WsOp where
  | cont
  | text
  | bin
  | close
  | ping
  | pong
deriving DecidableEq, Repr

def WsOp.code : WsOp → UInt8
  | .cont => 0x0
  | .text => 0x1
  | .bin => 0x2
  | .close => 0x8
  | .ping => 0x9
  | .pong => 0xa

def WsOp.control (op : WsOp) : Bool := 0x8 ≤ op.code

structure WsConn where
  rb : ReadBuffer
  arrivals : List Arrival
deriving DecidableEq, Repr

def stagingCapacity (leftover : Bytes) : Nat :=
  let cap := leftover.length + 4096
  if cap < 4096 * 16 then 4096 * 16 else cap

/-- The connection that the application gets, `fresh` what new memory happens to hold. -/
def wsTrampoline (fresh leftover : Bytes) (arrivals : List Arrival) : WsConn :=
  ⟨rbPark (rbInit fresh (stagingCapacity leftover)) leftover, arrivals⟩

/-! ## Reading a frame -/

/-- Each read brings a byte at least, so the loop ends after `need` of them. -/
def wsEnsureFuel (need : Nat) : Nat → WsConn → Bool × WsConn
  | 0, conn => (decide (need ≤ conn.rb.count), conn)
  | fuel + 1, conn =>
    if need ≤ conn.rb.count then (true, conn)
    else if rbRoom conn.rb = 0 then (false, conn)
    else
      match ioRecv (rbRoom conn.rb) conn.arrivals with
      | (.data bytes, arrivals) => wsEnsureFuel need fuel ⟨rbCommit conn.rb bytes, arrivals⟩
      | (.timeout, arrivals) => (false, { conn with arrivals })
      | (.closed, arrivals) => (false, { conn with arrivals })

def wsEnsure (need : Nat) (conn : WsConn) : Bool × WsConn := wsEnsureFuel need need conn

/-- What is asked of the first two bytes. -/
def headOk (b0 b1 : UInt8) : Bool :=
  let opcode := b0 &&& 0x0f
  let control := decide (0x8 ≤ opcode)
  (b0 &&& 0x70) == 0 &&
    (if control then opcode == WsOp.close.code || opcode == WsOp.ping.code || opcode == WsOp.pong.code
      else opcode == WsOp.cont.code || opcode == WsOp.text.code || opcode == WsOp.bin.code) &&
    !(control && ((b0 &&& 0x80) == 0 || decide (125 < (b1 &&& 0x7f)))) &&
    (b1 &&& 0x80) != 0

/-- The size of the header without the key, and the length of the payload. -/
def frameLength (short : Nat) (conn : WsConn) : Option (Nat × Nat) × WsConn :=
  if short = 126 then
    match wsEnsure 4 conn with
    | (false, conn) => (none, conn)
    | (true, conn) => (some (4, BigEndian.value ((conn.rb.view.drop 2).take 2)), conn)
  else if short = 127 then
    match wsEnsure 10 conn with
    | (false, conn) => (none, conn)
    | (true, conn) =>
      if (conn.rb.view.getD 2 0 &&& 0x80) ≠ 0 then (none, conn)
      else (some (10, BigEndian.value ((conn.rb.view.drop 2).take 8)), conn)
  else (some (2, short), conn)

def maskWith (mask s : Bytes) : Bytes := s.mapIdx fun i b => b ^^^ mask.getD (i % 4) 0

structure WsFrame where
  fin : Bool
  opcode : UInt8
  payloadLen : Nat
deriving DecidableEq, Repr

/-- The key and the payload, when all of the frame is there: the result, 0 for a close
frame and 1 for the others, the frame, and what is written to the caller's payload. -/
def framePayload (b0 : UInt8) (hdr len : Nat) (conn : WsConn) : Option (Nat × WsFrame × Bytes) × WsConn :=
  match wsEnsure (hdr + 4 + len) conn with
  | (false, conn) => (none, conn)
  | (true, conn) =>
    let opcode := b0 &&& 0x0f
    let payload := maskWith ((conn.rb.view.drop hdr).take 4) ((conn.rb.view.drop (hdr + 4)).take len)
    (some (if opcode = WsOp.close.code then 0 else 1, ⟨(b0 &&& 0x80) != 0, opcode, len⟩, payload),
      { conn with rb := rbDiscard conn.rb (hdr + 4 + len) })

/-- Nothing stands for the result -1. -/
def httpWsReadFrame (payloadCap : Nat) (conn : WsConn) : Option (Nat × WsFrame × Bytes) × WsConn :=
  match wsEnsure 2 conn with
  | (false, conn) => (none, conn)
  | (true, conn) =>
    let b0 := conn.rb.view.getD 0 0
    let b1 := conn.rb.view.getD 1 0
    if ¬ headOk b0 b1 then (none, conn)
    else
      match frameLength (b1 &&& 0x7f).toNat conn with
      | (none, conn) => (none, conn)
      | (some (hdr, len), conn) => if payloadCap < len then (none, conn) else framePayload b0 hdr len conn

/-! ## Sending a frame -/

def wsHeader (opcode : UInt8) (len : Nat) (fin : Bool) : Bytes :=
  ((if fin then 0x80 else 0x00) ||| (opcode &&& 0x0f)) ::
    if len ≤ 125 then [UInt8.ofNat len]
    else if len ≤ 0xffff then [126, UInt8.ofNat (len >>> 8), UInt8.ofNat len]
    else 127 :: (List.range 8).map fun i => UInt8.ofNat (len >>> (56 - 8 * i))

def httpWsSend (opcode : UInt8) (payload : Bytes) (fin : Bool) : Bytes :=
  wsHeader opcode payload.length fin ++ payload

/-- A frame of a client. -/
structure ClientFrame where
  opcode : WsOp
  fin : Bool
  key : Vector UInt8 4
  payload : Bytes
  control : opcode.control = true → fin = true ∧ payload.length ≤ 125

/-- What the sender writes, with the mask bit set, the key put in and the payload masked. -/
def ClientFrame.wire (f : ClientFrame) : Bytes :=
  (wsHeader f.opcode.code f.payload.length f.fin).modify 1 (· ||| 0x80) ++ f.key.toList ++
    maskWith f.key.toList f.payload

/-! ## The bytes to come -/

/-- What is buffered and the reads to come make up the stream, and each read brings
something. -/
structure Feeds (conn : WsConn) (cap : Nat) (stream : Bytes) : Prop where
  capacity : conn.rb.capacity = cap
  within : conn.rb.Within
  reads : ∃ chunks : List Bytes, (∀ c ∈ chunks, c ≠ []) ∧ conn.arrivals = chunks.map .data ∧
    conn.rb.view ++ chunks.flatten = stream

variable {conn conn' : WsConn} {cap need : Nat} {stream : Bytes}

theorem Feeds.view_prefix (h : Feeds conn cap stream) : conn.rb.view <+: stream := by
  obtain ⟨chunks, -, -, hStream⟩ := h.reads
  exact ⟨chunks.flatten, hStream⟩

theorem Feeds.drop_take (h : Feeds conn cap stream) {a b : Nat} (hLe : a + b ≤ conn.rb.count) :
    (conn.rb.view.drop a).take b = (stream.drop a).take b := by
  obtain ⟨rest, hRest⟩ := h.view_prefix
  rw [ReadBuffer.count] at hLe
  rw [← hRest, List.drop_append_of_le_length (by omega), List.take_append_of_le_length]
  rw [List.length_drop]
  omega

theorem Feeds.getD (h : Feeds conn cap stream) {i : Nat} (hLt : i < conn.rb.count) :
    conn.rb.view.getD i 0 = stream.getD i 0 := by
  obtain ⟨rest, hRest⟩ := h.view_prefix
  rw [← hRest, List.getD_append _ _ _ _ hLt]

theorem rbCommit_take {b : ReadBuffer} {bytes : Bytes} (h : bytes.length ≤ rbRoom b) :
    (rbCommit b bytes).view = b.view ++ bytes := by
  rw [rbCommit, rbPark, List.take_of_length_le h]

theorem ioRecv_data {room : Nat} {arrivals arrivals' : List Arrival} {bytes : Bytes}
    (h : ioRecv room arrivals = (.data bytes, arrivals')) :
    bytes ≠ [] ∧ bytes.length ≤ room := by
  cases arrivals with
  | nil => cases h
  | cons arrival arrivals =>
    cases arrival with
    | timeout => cases h
    | broken => cases h
    | data chunk =>
      rw [ioRecv, Prod.mk.injEq] at h
      have hFirst := h.1
      split at hFirst
      · cases hFirst
      · rename_i hSome
        cases hFirst
        exact ⟨hSome, List.length_take_le _ _⟩

theorem Feeds.recv (h : Feeds conn cap stream) (hRoom : rbRoom conn.rb ≠ 0)
    (hMore : conn.rb.count < stream.length) :
    ∃ bytes arrivals, ioRecv (rbRoom conn.rb) conn.arrivals = (.data bytes, arrivals) ∧
      Feeds ⟨rbCommit conn.rb bytes, arrivals⟩ cap stream := by
  obtain ⟨chunks, hChunks, hArrivals, hStream⟩ := h.reads
  cases chunks with
  | nil =>
    rw [List.flatten_nil, List.append_nil] at hStream
    rw [ReadBuffer.count, hStream] at hMore
    omega
  | cons chunk chunks =>
    have hChunk : chunk.take (rbRoom conn.rb) ≠ [] := by
      have hSome := hChunks chunk List.mem_cons_self
      simp [hSome, hRoom]
    have hFits : (chunk.take (rbRoom conn.rb)).length ≤ rbRoom conn.rb := List.length_take_le _ _
    have hWithin : (rbCommit conn.rb (chunk.take (rbRoom conn.rb))).Within := rbCommit_within h.within _
    have hRecv : ioRecv (rbRoom conn.rb) conn.arrivals = (.data (chunk.take (rbRoom conn.rb)),
        if rbRoom conn.rb < chunk.length then .data (chunk.drop (rbRoom conn.rb)) :: chunks.map .data
        else chunks.map .data) := by
      rw [hArrivals, List.map_cons, ioRecv, if_neg hChunk]
    refine ⟨_, _, hRecv, h.capacity, hWithin, ?_⟩
    rw [rbCommit_take hFits]
    by_cases hLong : rbRoom conn.rb < chunk.length
    · refine ⟨chunk.drop (rbRoom conn.rb) :: chunks, ?_, if_pos hLong, ?_⟩
      · intro c hc
        obtain rfl | hc := List.mem_cons.mp hc
        · simp [hLong]
        · exact hChunks c (List.mem_cons_of_mem _ hc)
      · rw [List.flatten_cons, List.append_assoc, ← List.append_assoc (chunk.take _),
          List.take_append_drop, ← List.flatten_cons, hStream]
    · refine ⟨chunks, fun c hc => hChunks c (List.mem_cons_of_mem _ hc), if_neg hLong, ?_⟩
      rw [List.take_of_length_le (Nat.le_of_not_lt hLong), List.append_assoc, ← List.flatten_cons, hStream]

theorem Feeds.ensureFuel (hNeed : need ≤ cap) (hStream : need ≤ stream.length) (fuel : Nat) :
    ∀ {conn}, Feeds conn cap stream → need ≤ conn.rb.count + fuel →
      ∃ conn', wsEnsureFuel need fuel conn = (true, conn') ∧ Feeds conn' cap stream ∧
        need ≤ conn'.rb.count := by
  induction fuel with
  | zero =>
    intro conn h hFuel
    rw [Nat.add_zero] at hFuel
    exact ⟨conn, by rw [wsEnsureFuel, decide_eq_true hFuel], h, hFuel⟩
  | succ fuel ih =>
    intro conn h hFuel
    rw [wsEnsureFuel]
    by_cases hThere : need ≤ conn.rb.count
    · exact ⟨conn, if_pos hThere, h, hThere⟩
    · have hRoom : rbRoom conn.rb ≠ 0 := by
        rw [rbRoom, h.capacity]
        omega
      obtain ⟨bytes, arrivals, hRecv, hNext⟩ := h.recv hRoom (by omega)
      obtain ⟨hSome, hFits⟩ := ioRecv_data hRecv
      have hCount : (rbCommit conn.rb bytes).count = conn.rb.count + bytes.length := by
        rw [ReadBuffer.count, rbCommit_take hFits, List.length_append]
        rfl
      have hPos := List.length_pos_of_ne_nil hSome
      rw [if_neg hThere, if_neg hRoom, hRecv]
      apply ih hNext
      rw [hCount]
      omega

theorem Feeds.ensure (h : Feeds conn cap stream) (hNeed : need ≤ cap) (hStream : need ≤ stream.length) :
    ∃ conn', wsEnsure need conn = (true, conn') ∧ Feeds conn' cap stream ∧ need ≤ conn'.rb.count :=
  Feeds.ensureFuel hNeed hStream need h (Nat.le_add_left _ _)

theorem within_ensureFuel (fuel : Nat) : ∀ {conn}, conn.rb.Within →
    wsEnsureFuel need fuel conn = (true, conn') →
    conn'.rb.Within ∧ conn'.rb.capacity = conn.rb.capacity ∧ need ≤ conn'.rb.count := by
  induction fuel with
  | zero =>
    intro conn hWithin h
    rw [wsEnsureFuel, Prod.mk.injEq, decide_eq_true_eq] at h
    obtain ⟨hThere, rfl⟩ := h
    exact ⟨hWithin, rfl, hThere⟩
  | succ fuel ih =>
    intro conn hWithin h
    rw [wsEnsureFuel] at h
    split at h
    · rename_i hThere
      cases h
      exact ⟨hWithin, rfl, hThere⟩
    · split at h
      · cases h
      · split at h
        · have hNext := fun hIn => ih hIn h
          exact hNext (rbCommit_within hWithin _)
        · cases h
        · cases h

theorem ensure_le (hWithin : conn.rb.Within) (h : wsEnsure need conn = (true, conn')) :
    need ≤ conn.rb.capacity := by
  obtain ⟨hWithin', hCapacity, hThere⟩ := within_ensureFuel _ hWithin h
  rw [← hCapacity]
  exact hThere.trans hWithin'

/-! ## The parts of a frame -/

def firstByte (op : WsOp) (fin : Bool) : UInt8 := (if fin then 0x80 else 0x00) ||| (op.code &&& 0x0f)

def shortLength (len : Nat) : Nat := if len ≤ 125 then len else if len ≤ 0xffff then 126 else 127

/-- The size of the header without the key. -/
def headerSize (len : Nat) : Nat := if len ≤ 125 then 2 else if len ≤ 0xffff then 4 else 10

theorem wsHeader_eq (op : WsOp) (len : Nat) (fin : Bool) : wsHeader op.code len fin =
    firstByte op fin :: UInt8.ofNat (shortLength len) :: BigEndian.bytes (headerSize len - 2) len := by
  rw [wsHeader, firstByte, shortLength, headerSize]
  apply congrArg
  by_cases hShort : len ≤ 125
  · simp [hShort, BigEndian.bytes]
  · by_cases hMiddle : len ≤ 0xffff
    · simp [hShort, hMiddle, BigEndian.bytes, Nat.shiftRight_eq_div_pow]
    · simp [hShort, hMiddle, BigEndian.bytes, Nat.shiftRight_eq_div_pow, Nat.div_div_eq_div_mul,
        List.range_succ]

theorem shortLength_lt (len : Nat) : shortLength len < 128 := by
  rw [shortLength]
  split
  · omega
  · split
    · decide
    · decide

theorem firstByte_fin : ∀ op fin, ((firstByte op fin &&& 0x80) != 0) = fin := by
  intro op fin
  cases op <;> cases fin <;> decide

theorem firstByte_opcode : ∀ op fin, firstByte op fin &&& 0x0f = op.code := by
  intro op fin
  cases op <;> cases fin <;> decide

theorem masked_short {n : Nat} (h : n < 128) : ((UInt8.ofNat n ||| 0x80) &&& 0x7f).toNat = n := by
  have hAll : ∀ n : Fin 128, ((UInt8.ofNat n ||| 0x80) &&& 0x7f).toNat = n := by decide +kernel
  exact hAll ⟨n, h⟩

theorem headOk_masked {op : WsOp} {fin : Bool} {n : Nat} (hByte : n < 128)
    (hControl : op.control = true → fin = true ∧ n ≤ 125) :
    headOk (firstByte op fin) (UInt8.ofNat n ||| 0x80) = true := by
  have hAll : ∀ n : Fin 128, ((UInt8.ofNat n ||| 0x80) &&& 0x80) ≠ 0 ∧
      (n.val ≤ 125 → ¬ 125 < ((UInt8.ofNat n ||| 0x80) &&& 0x7f)) := by decide +kernel
  obtain ⟨hMask, hSmall⟩ := hAll ⟨n, hByte⟩
  have hFlag : decide (0x8 ≤ op.code) = op.control := rfl
  rw [headOk, firstByte_opcode, bne_iff_ne.mpr hMask, hFlag]
  cases hOp : op.control with
  | true =>
    obtain ⟨rfl, hLe⟩ := hControl hOp
    rw [decide_eq_false (hSmall hLe)]
    cases op <;> first | decide | cases hOp
  | false =>
    rw [Bool.false_and]
    cases op <;> cases fin <;> first | decide | cases hOp

theorem maskWith_maskWith (key s : Bytes) : maskWith key (maskWith key s) = s := by
  rw [maskWith, maskWith, List.mapIdx_mapIdx]
  apply List.ext_getElem
  · simp
  · intro i h₁ h₂
    simp [UInt8.xor_assoc]

@[simp]
theorem length_maskWith (key s : Bytes) : (maskWith key s).length = s.length := List.length_mapIdx

def ClientFrame.head (f : ClientFrame) : Bytes :=
  firstByte f.opcode f.fin :: (UInt8.ofNat (shortLength f.payload.length) ||| 0x80) ::
    BigEndian.bytes (headerSize f.payload.length - 2) f.payload.length

theorem ClientFrame.length_head (f : ClientFrame) : f.head.length = headerSize f.payload.length := by
  rw [ClientFrame.head, List.length_cons, List.length_cons, BigEndian.length_bytes, headerSize]
  split
  · rfl
  · split
    · rfl
    · rfl

theorem ClientFrame.wire_eq (f : ClientFrame) (rest : Bytes) :
    f.wire ++ rest = f.head ++ (f.key.toList ++ (maskWith f.key.toList f.payload ++ rest)) := by
  rw [ClientFrame.wire, wsHeader_eq]
  simp [List.modify, ClientFrame.head]

/-! ## What is read -/

variable {b0 b1 : UInt8} {len payloadCap : Nat} {rest : Bytes}

theorem Feeds.frameLength {tail : Bytes}
    (h : Feeds conn cap (b0 :: b1 :: (BigEndian.bytes (headerSize len - 2) len ++ tail)))
    (hCap : 10 ≤ cap) (hLen : len < 2 ^ 63) :
    ∃ conn', frameLength (shortLength len) conn = (some (headerSize len, len), conn') ∧
      Feeds conn' cap (b0 :: b1 :: (BigEndian.bytes (headerSize len - 2) len ++ tail)) := by
  rw [Ws.frameLength, shortLength, headerSize] at *
  by_cases hShort : len ≤ 125
  · refine ⟨conn, ?_, h⟩
    rw [if_pos hShort, if_neg (by omega), if_neg (by omega), if_pos hShort]
  · by_cases hMiddle : len ≤ 0xffff
    · simp only [if_neg hShort, if_pos hMiddle] at h ⊢
      obtain ⟨conn', hEnsure, hFeeds, hThere⟩ := @Feeds.ensure _ _ 4 _ h (by omega) (by simp)
      refine ⟨conn', ?_, hFeeds⟩
      have hTwo : (conn'.rb.view.drop 2).take 2 = BigEndian.bytes 2 len := by
        rw [hFeeds.drop_take hThere, List.drop_succ_cons, List.drop_succ_cons, List.drop_zero]
        exact List.take_left' (BigEndian.length_bytes 2 len)
      rw [hEnsure]
      dsimp only
      rw [hTwo, BigEndian.value_bytes, Nat.mod_eq_of_lt (by omega)]
      rfl
    · simp only [if_neg hShort, if_neg hMiddle] at h ⊢
      obtain ⟨conn', hEnsure, hFeeds, hThere⟩ := @Feeds.ensure _ _ 10 _ h (by omega) (by simp)
      refine ⟨conn', ?_, hFeeds⟩
      have hEight : (conn'.rb.view.drop 2).take 8 = BigEndian.bytes 8 len := by
        rw [hFeeds.drop_take hThere, List.drop_succ_cons, List.drop_succ_cons, List.drop_zero]
        exact List.take_left' (BigEndian.length_bytes 8 len)
      have hClear : conn'.rb.view.getD 2 0 &&& 0x80 = 0 := by
        have hAll : ∀ n : Fin 128, UInt8.ofNat n &&& 0x80 = 0 := by decide +kernel
        rw [hFeeds.getD (by omega), BigEndian.bytes_first]
        exact hAll ⟨len / 256 ^ 7, by omega⟩
      rw [hEnsure]
      dsimp only
      rw [hClear, hEight, BigEndian.value_bytes, Nat.mod_eq_of_lt (by omega)]
      rfl

theorem Feeds.readFrame (f : ClientFrame) (h : Feeds conn cap (f.wire ++ rest)) (hCap : 10 ≤ cap)
    (hLen : f.payload.length < 2 ^ 63)
    (hPayload : f.payload.length ≤ payloadCap) :
    ∃ conn', Feeds conn' cap (f.wire ++ rest) ∧ httpWsReadFrame payloadCap conn =
      framePayload (firstByte f.opcode f.fin) (headerSize f.payload.length) f.payload.length conn' := by
  have hWire := f.wire_eq rest
  obtain ⟨conn₁, hEnsure, hFeeds, hThere⟩ :=
    @Feeds.ensure _ _ 2 _ h (by omega) (by rw [hWire]; simp [ClientFrame.head])
  have hFirst : conn₁.rb.view.getD 0 0 = firstByte f.opcode f.fin := by
    rw [hFeeds.getD (by omega), hWire]
    rfl
  have hSecond : conn₁.rb.view.getD 1 0 = UInt8.ofNat (shortLength f.payload.length) ||| 0x80 := by
    rw [hFeeds.getD (by omega), hWire]
    rfl
  have hByte := shortLength_lt f.payload.length
  have hOk : headOk (firstByte f.opcode f.fin) (UInt8.ofNat (shortLength f.payload.length) ||| 0x80) =
    true := by
    apply headOk_masked hByte
    intro hControl
    obtain ⟨hFin, hLe⟩ := f.control hControl
    rw [shortLength, if_pos hLe]
    exact ⟨hFin, hLe⟩
  have hParts : f.wire ++
    rest = firstByte f.opcode f.fin :: (UInt8.ofNat (shortLength f.payload.length) ||| 0x80) ::
      (BigEndian.bytes (headerSize f.payload.length - 2) f.payload.length ++ _) := hWire
  rw [hParts] at hFeeds
  obtain ⟨conn₂, hLength, hFeeds'⟩ := hFeeds.frameLength hCap hLen
  rw [← hParts] at hFeeds'
  refine ⟨conn₂, hFeeds', ?_⟩
  rw [httpWsReadFrame, hEnsure]
  dsimp only
  rw [hFirst, hSecond, if_neg (by rw [hOk]; decide), masked_short hByte, hLength]
  exact if_neg (Nat.not_lt.mpr hPayload)

theorem Feeds.discard (h : Feeds conn cap stream) {n : Nat} (hThere : n ≤ conn.rb.count) :
    Feeds { conn with rb := rbDiscard conn.rb n } cap (stream.drop n) := by
  obtain ⟨chunks, hChunks, hArrivals, hStream⟩ := h.reads
  refine ⟨h.capacity, rbDiscard_within h.within n, chunks, hChunks, hArrivals, ?_⟩
  rw [← hStream, List.drop_append_of_le_length hThere, rbDiscard, Nat.min_eq_left hThere]

def ClientFrame.result (f : ClientFrame) : Nat × WsFrame × Bytes :=
  (if f.opcode = .close then 0 else 1, ⟨f.fin, f.opcode.code, f.payload.length⟩, f.payload)

theorem code_close (op : WsOp) : op.code = WsOp.close.code ↔ op = .close := by
  cases op <;> decide

theorem framePayload_fits (f : ClientFrame) (h : Feeds conn cap (f.wire ++ rest))
    (hFits : headerSize f.payload.length + 4 + f.payload.length ≤ cap) :
    ∃ conn', framePayload (firstByte f.opcode f.fin) (headerSize f.payload.length) f.payload.length conn =
      (some f.result, conn') ∧ Feeds conn' cap rest := by
  have hHeader := f.length_head
  have hKey : f.key.toList.length = 4 := f.key.length_toList
  have hWire := f.wire_eq rest
  have hStream : headerSize f.payload.length + 4 + f.payload.length ≤ (f.wire ++ rest).length := by
    rw [hWire, List.length_append, List.length_append, List.length_append, length_maskWith, hHeader, hKey]
    omega
  obtain ⟨conn', hEnsure, hFeeds, hThere⟩ := h.ensure hFits hStream
  have hMask : (conn'.rb.view.drop (headerSize f.payload.length)).take 4 = f.key.toList := by
    rw [hFeeds.drop_take (by omega), hWire, List.drop_left' hHeader, List.take_left' hKey]
  have hBehind : (f.wire ++ rest).drop (headerSize f.payload.length + 4) =
    maskWith f.key.toList f.payload ++ rest := by
    rw [hWire, ← List.drop_drop, List.drop_left' hHeader, List.drop_left' hKey]
  have hMasked : (conn'.rb.view.drop (headerSize f.payload.length + 4)).take f.payload.length =
    maskWith f.key.toList f.payload := by
    rw [hFeeds.drop_take hThere, hBehind, List.take_left' (length_maskWith _ _)]
  refine ⟨
    { conn' with rb := rbDiscard conn'.rb (headerSize f.payload.length + 4 + f.payload.length) }, ?_, ?_⟩
  · rw [framePayload, hEnsure]
    dsimp only
    rw [hMask, hMasked, maskWith_maskWith, firstByte_fin, firstByte_opcode, ClientFrame.result]
    simp only [code_close]
  · have hRest := hFeeds.discard hThere
    rwa [← List.drop_drop, hBehind, List.drop_left' (length_maskWith _ _)] at hRest

/-! ## What is too long -/

theorem framePayload_some {hdr : Nat} {r : Nat × WsFrame × Bytes}
    (h : framePayload b0 hdr len conn = (some r, conn')) :
    (conn.rb.Within → hdr + 4 + len ≤ conn.rb.capacity) ∧ r.2.2.length ≤ len := by
  rw [framePayload] at h
  split at h
  · cases h
  · rename_i hEnsure
    cases h
    refine ⟨fun hWithin => ensure_le hWithin hEnsure, ?_⟩
    rw [length_maskWith]
    exact List.length_take_le _ _

theorem frameLength_lt {short hdr : Nat} (hShort : short < 128)
    (h : frameLength short conn = (some (hdr, len), conn')) :
    len < 2 ^ 63 := by
  rw [frameLength] at h
  split at h
  · split at h
    · cases h
    · rename_i next hEnsure
      cases h
      have hValue := BigEndian.value_lt ((conn'.rb.view.drop 2).take 2)
      have hTwo : ((conn'.rb.view.drop 2).take 2).length ≤ 2 := List.length_take_le _ _
      calc _ < 256 ^ ((conn'.rb.view.drop 2).take 2).length := hValue
        _ ≤ 256 ^ 2 := Nat.pow_le_pow_right (by decide) hTwo
        _ ≤ 2 ^ 63 := by decide
  · split at h
    · split at h
      · cases h
      · split at h
        · cases h
        · rename_i next hEnsure hClear
          cases h
          rw [not_not, List.getD_eq_getElem?_getD] at hClear
          have hFirst : ((conn'.rb.view.drop 2).take 8)[0]? = conn'.rb.view[2]? := by
            rw [List.getElem?_take_of_lt (by decide), List.getElem?_drop]
          have hEight : ((conn'.rb.view.drop 2).take 8).length ≤ 8 := List.length_take_le _ _
          cases hBytes : (conn'.rb.view.drop 2).take 8 with
          | nil => decide
          | cons b s =>
            rw [hBytes] at hFirst hEight
            rw [← hFirst] at hClear
            have hAll : ∀ n : Fin 256, UInt8.ofNat n &&& 0x80 = 0 → n.val < 128 := by decide +kernel
            have hByte := hAll ⟨b.toNat, b.toNat_lt⟩
            rw [UInt8.ofNat_toNat] at hByte
            have hHalf := BigEndian.two_mul_value_lt (hByte hClear) s
            have hPow : 256 ^ (s.length + 1) ≤ 256 ^ 8 := Nat.pow_le_pow_right (by decide) hEight
            omega
    · cases h
      omega

theorem readFrame_lt {r : Nat × WsFrame × Bytes} (h : httpWsReadFrame payloadCap conn = (some r, conn')) :
    r.2.2.length < 2 ^ 63 := by
  rw [httpWsReadFrame] at h
  split at h
  · cases h
  · rename_i conn₁ hEnsure
    dsimp only at h
    split at h
    · cases h
    · split at h
      · cases h
      · rename_i hdr len conn₂ hLength
        split at h
        · cases h
        · have hShort : (conn₁.rb.view.getD 1 0 &&& 0x7f).toNat < 128 := by
            rw [UInt8.toNat_and]
            exact Nat.lt_succ_of_le Nat.and_le_right
          exact (framePayload_some h).2.trans_lt (frameLength_lt hShort hLength)

/-! ## One frame on a new connection -/

theorem stagingCapacity_eq (leftover : Bytes) :
    stagingCapacity leftover = max 65536 (leftover.length + 4096) := by
  simp only [stagingCapacity]
  split
  · omega
  · omega

theorem le_stagingCapacity (leftover : Bytes) : 10 ≤ stagingCapacity leftover := by
  rw [stagingCapacity_eq]
  exact (by decide : 10 ≤ 65536).trans (Nat.le_max_left _ _)

theorem feeds_trampoline (fresh : Bytes) {leftover : Bytes} {reads : List Bytes}
    (hReads : ∀ c ∈ reads, c ≠ [])
    (hStream : leftover ++ reads.flatten = stream) :
    Feeds (wsTrampoline fresh leftover (reads.map .data)) (stagingCapacity leftover) stream := by
  refine ⟨?_, ?_, reads, hReads, rfl, hStream⟩
  · simp only [wsTrampoline, rbPark, rbInit]
  · rw [wsTrampoline, rbPark_within_iff]
    simp only [rbInit, ReadBuffer.count, List.length_nil, stagingCapacity_eq]
    omega

/-- The frame as it was sent is read, and what follows it is next. -/
def Delivers (payloadCap : Nat) (conn : WsConn) (f : ClientFrame) (rest : Bytes) : Prop :=
  ∃ conn', httpWsReadFrame payloadCap conn = (some f.result, conn') ∧ Feeds conn' conn.rb.capacity rest

theorem Feeds.delivers_iff (f : ClientFrame) (h : Feeds conn cap (f.wire ++ rest)) (hCap : 10 ≤ cap)
    (hPayload : f.payload.length ≤ payloadCap) : Delivers payloadCap conn f rest ↔
      headerSize f.payload.length + 4 + f.payload.length ≤ cap ∧ f.payload.length < 2 ^ 63 := by
  constructor
  · rintro ⟨conn', hRead, -⟩
    have hLen : f.payload.length < 2 ^ 63 := readFrame_lt hRead
    obtain ⟨conn₁, hFeeds, hSame⟩ := h.readFrame f hCap hLen hPayload
    rw [hSame] at hRead
    have hLe := (framePayload_some hRead).1 hFeeds.within
    rw [hFeeds.capacity] at hLe
    exact ⟨hLe, hLen⟩
  · rintro ⟨hFits, hLen⟩
    obtain ⟨conn₁, hFeeds, hSame⟩ := h.readFrame f hCap hLen hPayload
    obtain ⟨conn', hRead, hRest⟩ := framePayload_fits f hFeeds hFits
    refine ⟨conn', hSame.trans hRead, ?_⟩
    rw [h.capacity]
    exact hRest

/-- A frame is delivered exactly if all of it fits into the staging buffer. -/
theorem frame_codec_iff (f : ClientFrame) (fresh leftover rest : Bytes) (reads : List Bytes)
    (payloadCap : Nat)
    (hReads : ∀ c ∈ reads, c ≠ []) (hStream : leftover ++ reads.flatten = f.wire ++ rest)
    (hPayload : f.payload.length ≤ payloadCap) :
    Delivers payloadCap (wsTrampoline fresh leftover (reads.map .data)) f rest ↔
      headerSize f.payload.length + 4 + f.payload.length ≤ stagingCapacity leftover ∧
        f.payload.length < 2 ^ 63 :=
  (feeds_trampoline fresh hReads hStream).delivers_iff f (le_stagingCapacity leftover) hPayload

def textFrame : ClientFrame := ⟨.text, false, #v[1, 2, 3, 4], ascii "hello", by decide⟩

theorem frame_codec_text :
    Delivers 5 (wsTrampoline [] (textFrame.wire.take 3) ([textFrame.wire.drop 3 ++ ascii "more"].map .data))
    textFrame (ascii "more") :=
  (frame_codec_iff textFrame [] (textFrame.wire.take 3)
    (ascii "more") [textFrame.wire.drop 3 ++ ascii "more"] 5
    (by decide +kernel) (by decide +kernel) (by decide)).mpr ⟨by decide +kernel, by decide +kernel⟩

theorem ClientFrame.wire_ne_nil (f : ClientFrame) : f.wire ≠ [] := by
  intro hNil
  have hWire := f.wire_eq []
  rw [hNil] at hWire
  cases hWire

theorem not_delivers_large (f : ClientFrame) (hLength : f.payload.length = 65536) :
    ¬ Delivers 65536 (wsTrampoline [] [] ([f.wire].map .data)) f [] := by
  have hFeeds : Feeds (wsTrampoline [] [] ([f.wire].map .data)) (stagingCapacity []) (f.wire ++ []) := by
    apply feeds_trampoline
    · simpa using f.wire_ne_nil
    · simp
  rw [hFeeds.delivers_iff f (le_stagingCapacity []) hLength.le, hLength]
  decide

def largeFrame : ClientFrame := ⟨.bin, true, #v[1, 2, 3, 4], List.replicate 65536 0, by decide⟩

theorem frame_beyond_staging : largeFrame.payload.length ≤ 65536 ∧
    ¬ Delivers 65536 (wsTrampoline [] [] ([largeFrame.wire].map .data)) largeFrame [] :=
  ⟨List.length_replicate.le, not_delivers_large largeFrame List.length_replicate⟩

end Cweb.Ws
