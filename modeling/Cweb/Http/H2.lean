import Cweb.Http.Hpack
import Cweb.Http.Message

/-!
# The state of an HTTP/2 connection

Frames, streams and the connection. The outcome of every socket write, the
handler and the clock are inputs. The trace lists the frames taken from the
client and the frames written to it in full, in the order they happened; the
answer to an upgrade is plain text.
-/

namespace Cweb.H2

open HpackTable

inductive H2FrameType where
  | data
  | headers
  | priority
  | rst
  | settings
  | pushPromise
  | ping
  | goaway
  | window
  | cont
  | unknown (code : UInt8)
deriving DecidableEq, Repr

def frameTypeOf (code : UInt8) : H2FrameType :=
  match code.toNat with
  | 0 => .data
  | 1 => .headers
  | 2 => .priority
  | 3 => .rst
  | 4 => .settings
  | 5 => .pushPromise
  | 6 => .ping
  | 7 => .goaway
  | 8 => .window
  | 9 => .cont
  | _ => .unknown code

inductive H2Error where
  | protocol
  | internal
  | flow
  | streamClosed
  | frameSize
  | refused
  | cancel
  | compression
  | calm
deriving DecidableEq, Repr

def H2Error.code : H2Error → Nat
  | .protocol => 1
  | .internal => 2
  | .flow => 3
  | .streamClosed => 5
  | .frameSize => 6
  | .refused => 7
  | .cancel => 8
  | .compression => 9
  | .calm => 11

structure H2Frame where
  type : H2FrameType
  flags : UInt8
  streamId : Nat
  payload : Bytes
deriving DecidableEq, Repr

def H2Frame.len (f : H2Frame) : Nat := f.payload.length

/-- END_STREAM, and ACK on SETTINGS and PING. -/
def H2Frame.endStream (f : H2Frame) : Bool := f.flags.toNat.testBit 0

def H2Frame.endHeaders (f : H2Frame) : Bool := f.flags.toNat.testBit 2

def H2Frame.padded (f : H2Frame) : Bool := f.flags.toNat.testBit 3

def H2Frame.priorityFlag (f : H2Frame) : Bool := f.flags.toNat.testBit 5

/-- A slot of the stream array. Every slot in use is open, so the flag that
says so is left out; `fnCaps` are the capacities the producer was offered. -/
structure H2Stream where
  id : Nat
  remoteEnded : Bool
  dispatched : Bool
  responseReady : Bool
  headersSent : Bool
  localEnded : Bool
  reset : Bool
  bodyTooBig : Bool
  req : HttpRequest
  res : HttpResponse
  body : Bytes
  reqBytes : Nat
  queueI : Nat
  queueOff : Nat
  bodyOff : Nat
  bodySent : Nat
  fnEof : Bool
  fnCaps : List Nat
  recvWindow : Int
  sendWindow : Int

inductive Event where
  | recv (f : H2Frame)
  | sent (f : H2Frame)
  | text (bytes : Bytes)
deriving DecidableEq, Repr

inductive Inflated where
  | ok (bytes : Bytes)
  | bad
  | tooBig
deriving DecidableEq, Repr

/-- `handler` is given the requests of the connection so far, the current one
last. `writeOk` is the outcome of each write and `date` the clock's text for
each response head. `inflate` stands for the zlib call. -/
structure H2Env where
  handler : List HttpRequest → HttpResponse
  writeOk : Nat → Bool
  date : Nat → Bytes
  inflate : Bytes → Nat → Inflated
  maxBody : Nat
  maxInflated : Nat
  remote : Bytes

structure H2Conn where
  hpack : Hpack
  streams : List H2Stream
  lastStreamId : Nat
  gotClientSettings : Bool
  clientGoaway : Bool
  clientGoawayLast : Nat
  connRecvWindow : Int
  connSendWindow : Int
  clientInitWindow : Nat
  error : Option H2Error
  hbStream : Nat
  hb : Bytes
  hbEndStream : Bool
  hbAbort : Bool
  writes : Nat
  heads : Nat
  calls : List HttpRequest
  trace : List Event

def h2InitialWindow : Nat := 65535

def h2MaxFrameSize : Nat := 16384

def h2HeaderBlockCap : Nat := 256 * 1024

def h2MaxHeaderList : Nat := 256 * 1024

def h2MaxConcurrentStreams : Nat := 100

def maxWindow : Int := 0x7fffffff

def h2Init : H2Conn :=
  ⟨hpackInit, [], 0, false, false, 0, h2InitialWindow, h2InitialWindow, h2InitialWindow, none, 0, [],
    false, false,
    0, 0, [], []⟩

def h2FindStream (c : H2Conn) (id : Nat) : Option Nat := c.streams.findIdx? fun s => s.id == id

def H2Conn.modifyStream (c : H2Conn) (i : Nat) (g : H2Stream → H2Stream) : H2Conn :=
  { c with streams := c.streams.modify i g }

/-- Only the first error is kept. -/
def h2ConnError (c : H2Conn) (e : H2Error) : H2Conn :=
  match c.error with
  | none => { c with error := some e }
  | some _ => c

def rd16 (p : Bytes) : Nat :=
  match p with
  | a :: b :: _ => a.toNat * 2 ^ 8 + b.toNat
  | _ => 0

def rd32 (p : Bytes) : Nat :=
  match p with
  | a :: b :: c :: d :: _ => a.toNat * 2 ^ 24 + b.toNat * 2 ^ 16 + c.toNat * 2 ^ 8 + d.toNat
  | _ => 0

def wr32 (v : Nat) : Bytes :=
  [UInt8.ofNat (v / 2 ^ 24), UInt8.ofNat (v / 2 ^ 16), UInt8.ofNat (v / 2 ^ 8), UInt8.ofNat v]

/-! ## Writing frames -/

/-- The frame header and then, unless it is empty, the payload: whether each
write went through, and how many were made. -/
def writeFrame (env : H2Env) (writes len : Nat) : Nat × Bool :=
  if env.writeOk writes then
    if len = 0 then (writes + 1, true) else (writes + 2, env.writeOk (writes + 1))
  else (writes + 1, false)

/-- The connection and whether the call returned 0. -/
def h2SendFrame (env : H2Env) (c : H2Conn) (f : H2Frame) : H2Conn × Bool :=
  if h2MaxFrameSize < f.len then (h2ConnError c .frameSize, false)
  else
    let w := writeFrame env c.writes f.len
    if w.2 then ({ c with writes := w.1, trace := c.trace ++ [.sent f] }, true)
    else ({ c with writes := w.1 }, false)

def h2SendGoaway (env : H2Env) (c : H2Conn) (lastStream err : Nat) : H2Conn :=
  (h2SendFrame env c ⟨.goaway, 0, 0, wr32 (lastStream % 2 ^ 31) ++ wr32 err⟩).1

def h2SendStreamError (env : H2Env) (c : H2Conn) (streamId : Nat) (e : H2Error) : H2Conn :=
  (h2SendFrame env c ⟨.rst, 0, streamId, wr32 e.code⟩).1

def h2SendSettings (env : H2Env) (c : H2Conn) : H2Conn :=
  (h2SendFrame env c ⟨.settings, 0, 0, [0, 3, 0, 0, 0, UInt8.ofNat h2MaxConcurrentStreams]⟩).1

def h2SettingsAck (env : H2Env) (c : H2Conn) : H2Conn := (h2SendFrame env c ⟨.settings, 1, 0, []⟩).1

def h2SendWindowUpdate (env : H2Env) (c : H2Conn) (streamId inc : Nat) : H2Conn :=
  (h2SendFrame env c ⟨.window, 0, streamId, wr32 inc⟩).1

theorem h2SendFrame_cases (env : H2Env) (c : H2Conn) (f : H2Frame) :
    h2SendFrame env c f = (h2ConnError c .frameSize, false) ∧ h2MaxFrameSize < f.len ∨
    (∃ writes, h2SendFrame env c f = ({ c with writes := writes, trace := c.trace ++ [.sent f] }, true)) ∨
    ∃ writes, h2SendFrame env c f = ({ c with writes := writes }, false) := by
  rw [h2SendFrame]
  split
  · rename_i hLarge
    exact .inl ⟨rfl, hLarge⟩
  · dsimp only
    split
    · exact .inr (.inl ⟨_, rfl⟩)
    · exact .inr (.inr ⟨_, rfl⟩)

theorem h2ConnError_eq (c : H2Conn) (e : H2Error) :
    h2ConnError c e = { c with error := some (c.error.getD e) } := by
  rw [h2ConnError]
  cases h : c.error with
  | none => rfl
  | some e' =>
    dsimp only [Option.getD_some]
    rw [← h]

@[simp]
theorem h2ConnError_error_ne_none (c : H2Conn) (e : H2Error) : (h2ConnError c e).error ≠ none := by
  rw [h2ConnError_eq]
  exact Option.some_ne_none _

@[simp]
theorem h2SendFrame_streams (env : H2Env) (c : H2Conn) (f : H2Frame) :
    (h2SendFrame env c f).1.streams = c.streams := by
  obtain ⟨hEq, _⟩ | ⟨writes, hEq⟩ | ⟨writes, hEq⟩ := h2SendFrame_cases env c f
  · rw [hEq, h2ConnError_eq]
  · rw [hEq]
  · rw [hEq]

end Cweb.H2
