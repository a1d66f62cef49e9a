import Cweb.Http.H2

/-!
# The sending side of a connection

A response becomes a header block and DATA frames. The three body sources,
assembled bytes, queued chunks and the producer, each keep a cursor in the
stream and take at most what the two windows and the frame size leave. Pumping
visits the streams in array order and stops at each one when the windows are
used up.
-/

namespace Cweb.H2

open Sv Hpack

def connSpecName (name : Bytes) : Bool :=
  [ascii "connection", ascii "keep-alive", ascii "proxy-connection", ascii "transfer-encoding",
    ascii "upgrade"].any
    fun bad => svIeq name bad

/-! ## Header blocks -/

/-- The fields of one line of the response's header text, and whether it is
the date. -/
def headerLineFields (line : Bytes) : List (Bytes × Bytes) × Bool :=
  let line := if 2 ≤ line.length ∧ line.getLast? = some 13 then line.dropLast else line
  let name := line.takeWhile (· ≠ 58)
  if name = [] ∨ name.length = line.length then ([], false)
  else
    (if connSpecName name || svIeq name (ascii "content-length") then []
      else [((name.take 256).map tolower, svTrim (line.drop (name.length + 1)))],
      svIeq name (ascii "date"))

/-- The encoded block of a response, with the clock's date unless the handler
set one. -/
def responseBlock (res : HttpResponse) (date : Bytes) : Bytes :=
  let lines := (svSplit 10 res.headers).map headerLineFields
  hpackEncodeStatus (res.status % 2 ^ 16) ++
    (lines.flatMap fun l => l.1.flatMap fun e => hpackEncodeField e.1 e.2) ++
    (if lines.any Prod.snd then [] else hpackEncodeField (ascii "date") date)

/-- A block cut into a HEADERS frame and CONTINUATION frames. -/
def headerFrames (id : Nat) (endStream : Bool) : Nat → Bool → Bytes → List H2Frame
  | 0, _, _ => []
  | fuel + 1, first, rest =>
    let left := rest.drop h2MaxFrameSize
    let flags := (if left = [] then 4 else 0) + (if first && endStream then 1 else 0)
    ⟨if first then .headers else .cont, flags, id, rest.take h2MaxFrameSize⟩ ::
      (if left = [] then [] else headerFrames id endStream fuel false left)

/-- Send until a frame does not go out. -/
def sendFrames (env : H2Env) : H2Conn → List H2Frame → H2Conn × Bool
  | c, [] => (c, true)
  | c, f :: frames =>
    match h2SendFrame env c f with
    | (c, true) => sendFrames env c frames
    | (c, false) => (c, false)

def h2SendHeaderBlock (env : H2Env) (c : H2Conn) (id : Nat) (blk : Bytes) (endStream : Bool) :
    H2Conn × Bool :=
  sendFrames env c (headerFrames id endStream (blk.length + 1) true blk ++
    (if blk = [] then [⟨.headers, if endStream then 5 else 4, id, []⟩] else []))

/-! ## Body data -/

def dataCap (room : Int) : Nat := if (h2MaxFrameSize : Int) < room then h2MaxFrameSize else room.toNat

/-- Step over queued chunks that have been sent in full. -/
def skipDrained : Nat → H2Stream → H2Stream
  | 0, s => s
  | fuel + 1, s =>
    match s.res.streamChunks[s.queueI]? with
    | none => s
    | some ch =>
      if ch.length - s.queueOff = 0 then skipDrained fuel { s with queueI := s.queueI + 1, queueOff := 0 }
      else s

def nextChunk (s : H2Stream) (ch : Bytes) (room : Int) : H2Stream × Option (Bytes × Bool) :=
  if room ≤ 0 then (s, none)
  else
    let take := min (ch.length - s.queueOff) (dataCap room)
    let s' := if s.queueOff + take = ch.length then { s with queueI := s.queueI + 1, queueOff := 0 }
      else { s with queueOff := s.queueOff + take }
    (s', some ((ch.drop s.queueOff).take take,
      decide (s.res.streamChunks.length ≤ s'.queueI) && s.res.streamFn.isNone))

def nextProduced (s : H2Stream) (fn : List Nat → Bytes) (room : Int) : H2Stream × Option (Bytes × Bool) :=
  if s.fnEof then (s, some ([], true))
  else if room ≤ 0 then (s, none)
  else
    let caps := s.fnCaps ++ [dataCap room]
    if fn caps = [] ∨ h2MaxFrameSize < (fn caps).length then
      ({ s with fnCaps := caps, fnEof := true }, some ([], true))
    else ({ s with fnCaps := caps }, some (fn caps, false))

def nextAssembled (s : H2Stream) (room : Int) : H2Stream × Option (Bytes × Bool) :=
  if s.res.body.length - s.bodyOff = 0 then (s, some ([], true))
  else if room ≤ 0 then (s, none)
  else
    let take := min (s.res.body.length - s.bodyOff) (dataCap room)
    ({ s with bodyOff := s.bodyOff + take },
      some ((s.res.body.drop s.bodyOff).take take, decide (s.res.body.length ≤ s.bodyOff + take)))

/-- The next payload and whether it ends the body, `none` when the windows
leave no room. The stream's cursors are moved. -/
def h2NextData (s : H2Stream) (room : Int) : H2Stream × Option (Bytes × Bool) :=
  if s.res.streaming then
    let s := skipDrained s.res.streamChunks.length s
    match s.res.streamChunks[s.queueI]? with
    | some ch => nextChunk s ch room
    | none =>
      match s.res.streamFn with
      | none => (s, some ([], true))
      | some fn => nextProduced s fn room
  else nextAssembled s room

def h2SendData (env : H2Env) (c : H2Conn) (i : Nat) (id : Nat) (src : Bytes) (eof : Bool) : H2Conn :=
  match h2SendFrame env c ⟨.data, if eof then 1 else 0, id, src⟩ with
  | (c, false) => h2ConnError c .internal
  | (c, true) =>
    { c with
      connSendWindow := c.connSendWindow - src.length
      streams := c.streams.modify i fun s =>
        { s with sendWindow := s.sendWindow - src.length, bodySent := s.bodySent + src.length } }

/-! ## Pumping -/

/-- The stream has ended on this side; its access line is written. -/
def endLocal (s : H2Stream) : H2Stream := { s with localEnded := true, responseReady := false }

/-- One round of the inner loop of `h2_pump`, and whether it goes on. -/
def pumpRound (env : H2Env) (c : H2Conn) (i : Nat) (s : H2Stream) : H2Conn × Bool :=
  let room := min c.connSendWindow s.sendWindow
  match h2NextData s room with
  | (s', none) => (c.modifyStream i fun _ => s', false)
  | (s', some (src, eof)) =>
    if src ≠ [] ∧ room ≤ 0 then (c.modifyStream i fun _ => s', false)
    else
      let c := h2SendData env (c.modifyStream i fun _ => s') i s.id src eof
      if eof then (c.modifyStream i endLocal, false) else (c, true)

/-- Every round but the last takes at least one byte of the windows. -/
def pumpBody (env : H2Env) : Nat → H2Conn → Nat → H2Conn
  | 0, c, _ => c
  | fuel + 1, c, i =>
    match c.streams[i]? with
    | none => c
    | some s =>
      if s.localEnded ∨ c.error ≠ none then c
      else
        match pumpRound env c i s with
        | (c, false) => c
        | (c, true) => pumpBody env fuel c i

/-- Whether the response carries no body, so that its HEADERS frame ends the
stream. -/
def bodyless (s : H2Stream) : Bool :=
  let noBody := decide (s.res.status < 200) || s.res.status == 204 || s.res.status == 304
  let wantBody := !noBody && !s.res.suppressBody && !(s.req.method == .head)
  !(wantBody && (s.res.streaming || !s.res.body.isEmpty))

/-- Send the header block of stream `i`; `false` leaves the loop over the
streams. -/
def pumpHead (env : H2Env) (c : H2Conn) (i : Nat) (s : H2Stream) : H2Conn × Bool :=
  if c.error ≠ none then (c, false)
  else
    let blk := responseBlock s.res (env.date c.heads)
    match h2SendHeaderBlock env { c with heads := c.heads + 1 } s.id blk (bodyless s) with
    | (c, false) => (h2ConnError c .internal, false)
    | (c, true) =>
      let c := c.modifyStream i fun s => { s with headersSent := true, bodyOff := 0 }
      (if bodyless s then c.modifyStream i endLocal else c, true)

def pumpStream (env : H2Env) (c : H2Conn) (i : Nat) : H2Conn × Bool :=
  match c.streams[i]? with
  | none => (c, true)
  | some s =>
    if s.reset ∨ s.localEnded ∨ ¬ s.responseReady then (c, true)
    else
      let head := if s.headersSent then (c, true) else pumpHead env c i s
      if head.2 then (pumpBody env (head.1.connSendWindow.toNat + 1) head.1 i, true) else head

def pumpFrom (env : H2Env) : Nat → Nat → H2Conn → H2Conn
  | 0, _, c => c
  | left + 1, i, c =>
    match pumpStream env c i with
    | (c, false) => c
    | (c, true) => pumpFrom env left (i + 1) c

def h2Pump (env : H2Env) (c : H2Conn) : H2Conn :=
  if c.error = none then pumpFrom env c.streams.length 0 c else c

end Cweb.H2
