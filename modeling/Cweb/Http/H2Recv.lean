import Cweb.Http.H2Request
import Cweb.Lib.SwapRemove

/-!
# The receiving side of a connection

One handler for each frame type, the assembly of header blocks, dispatching
requests that have ended and sweeping streams that are done.
-/

namespace Cweb.H2

open Sv SwapRemove

/-! ## Settings -/

/-- Shift the windows up to the first that leaves its range. -/
def shiftWindows (delta : Int) : List H2Stream → List H2Stream × Bool
  | [] => ([], false)
  | s :: streams =>
    let s := { s with sendWindow := s.sendWindow + delta }
    if maxWindow < s.sendWindow then (s :: streams, true)
    else
      let rest := shiftWindows delta streams
      (s :: rest.1, rest.2)

def applySetting (c : H2Conn) (id val : Nat) : H2Conn :=
  match id with
  | 2 => if 1 < val then h2ConnError c .protocol else c
  | 4 =>
    if 0x7fffffff < val then h2ConnError c .flow
    else
      let shifted := shiftWindows ((val : Int) - c.clientInitWindow) c.streams
      let c := { c with clientInitWindow := val, streams := shifted.1 }
      if shifted.2 then h2ConnError c .flow else c
  | 5 => if val < h2MaxFrameSize ∨ 0xffffff < val then h2ConnError c .protocol else c
  | _ => c

def applySettingsLoop : Nat → H2Conn → Bytes → H2Conn
  | 0, c, _ => c
  | fuel + 1, c, p =>
    if p = [] ∨ c.error ≠ none then c
    else applySettingsLoop fuel (applySetting c (rd16 p) (rd32 (p.drop 2))) (p.drop 6)

def h2ApplySettings (c : H2Conn) (payload : Bytes) : H2Conn :=
  if payload.length % 6 ≠ 0 then h2ConnError c .frameSize
  else applySettingsLoop payload.length c payload

/-! ## Frames on streams -/

/-- The payload of a DATA frame without its padding, `none` when the padding
leaves nothing in front of it. -/
def dataPayload (f : H2Frame) : Option Bytes :=
  if f.padded then
    match f.payload with
    | [] => none
    | pad :: p => if p.length ≤ pad.toNat then none else some (p.take (p.length - pad.toNat))
  else some f.payload

/-- The part of `h2_on_data` behind the stream's own window. -/
def dataBody (env : H2Env) (c : H2Conn) (i : Nat) (s : H2Stream) (f : H2Frame) (data : Bytes) : H2Conn :=
  if s.remoteEnded then
    (h2SendStreamError env c s.id .streamClosed).modifyStream i fun s => { s with reset := true }
  else
    let reqBytes := s.reqBytes + data.length
    let tooBig := s.bodyTooBig || decide (env.maxBody < s.body.length + data.length)
    let c := c.modifyStream i fun s =>
      { s with
        reqBytes := reqBytes
        bodyTooBig := tooBig
        body := if tooBig then s.body else s.body ++ data
        remoteEnded := f.endStream }
    if f.endStream && decide (0 ≤ s.req.contentLength) && decide ((reqBytes : Int) ≠ s.req.contentLength) then
      (h2SendStreamError env c s.id .protocol).modifyStream i fun s => { s with reset := true }
    else c

def dataOnStream (env : H2Env) (c : H2Conn) (i : Nat) (s : H2Stream) (f : H2Frame) (data : Bytes) : H2Conn :=
  if s.reset then c
  else
    let c := c.modifyStream i fun s => { s with recvWindow := s.recvWindow - f.len }
    if s.recvWindow < f.len then
      (h2SendStreamError env c s.id .flow).modifyStream i fun s => { s with reset := true }
    else dataBody env (h2SendWindowUpdate env c s.id f.len) i s f data

/-- The connection window is compared as an unsigned number. -/
def h2OnData (env : H2Env) (c : H2Conn) (f : H2Frame) : H2Conn :=
  if f.streamId = 0 then h2ConnError c .protocol
  else
    match dataPayload f with
    | none => h2ConnError c .protocol
    | some data =>
      if c.connRecvWindow % 2 ^ 64 < f.len then h2ConnError c .flow
      else
        let c := { c with connRecvWindow := c.connRecvWindow - f.len }
        let c := h2SendWindowUpdate env c 0 f.len
        match h2FindStream c f.streamId with
        | none =>
          if c.lastStreamId < f.streamId then h2ConnError c .protocol
          else h2SendStreamError env c f.streamId .streamClosed
        | some i =>
          match c.streams[i]? with
          | none => c
          | some s => dataOnStream env c i s f data

def h2OnPriority (env : H2Env) (c : H2Conn) (f : H2Frame) : H2Conn :=
  if f.streamId = 0 then h2ConnError c .protocol
  else if f.len ≠ 5 then
    if h2FindStream c f.streamId ≠ none then h2SendStreamError env c f.streamId .frameSize
    else h2ConnError c .protocol
  else c

def h2OnRst (c : H2Conn) (f : H2Frame) : H2Conn :=
  if f.len ≠ 4 then h2ConnError c .frameSize
  else if f.streamId = 0 then h2ConnError c .protocol
  else
    match h2FindStream c f.streamId with
    | none => if c.lastStreamId < f.streamId then h2ConnError c .protocol else c
    | some i => c.modifyStream i fun s => { s with reset := true }

def h2OnSettings (env : H2Env) (c : H2Conn) (f : H2Frame) : H2Conn :=
  if f.streamId ≠ 0 then h2ConnError c .protocol
  else if f.endStream then
    if f.len ≠ 0 then h2ConnError c .frameSize else c
  else
    let c := h2ApplySettings { c with gotClientSettings := true } f.payload
    if c.error = none then h2SettingsAck env c else c

def h2OnPing (env : H2Env) (c : H2Conn) (f : H2Frame) : H2Conn :=
  if f.len ≠ 8 then h2ConnError c .frameSize
  else if f.streamId ≠ 0 then h2ConnError c .protocol
  else if f.endStream then c
  else (h2SendFrame env c ⟨.ping, 1, 0, f.payload⟩).1

def h2OnGoaway (c : H2Conn) (f : H2Frame) : H2Conn :=
  if f.len < 8 then h2ConnError c .frameSize
  else if f.streamId ≠ 0 then h2ConnError c .protocol
  else { c with clientGoaway := true, clientGoawayLast := rd32 f.payload % 2 ^ 31 }

def windowIncrement (f : H2Frame) : Nat := rd32 f.payload % 2 ^ 31

def windowOnStream (env : H2Env) (c : H2Conn) (i : Nat) (s : H2Stream) (inc : Nat) : H2Conn :=
  if s.reset then c
  else
    let c := c.modifyStream i fun s => { s with sendWindow := s.sendWindow + inc }
    if maxWindow < s.sendWindow + inc then
      (h2SendStreamError env c s.id .flow).modifyStream i fun s => { s with reset := true }
    else c

def h2OnWindow (env : H2Env) (c : H2Conn) (f : H2Frame) : H2Conn :=
  if f.len ≠ 4 then h2ConnError c .frameSize
  else if windowIncrement f = 0 then
    if f.streamId = 0 then h2ConnError c .protocol else h2SendStreamError env c f.streamId .protocol
  else if f.streamId = 0 then
    let c := { c with connSendWindow := c.connSendWindow + windowIncrement f }
    if maxWindow < c.connSendWindow then h2ConnError c .flow else c
  else
    match h2FindStream c f.streamId with
    | none => if c.lastStreamId < f.streamId then h2ConnError c .protocol else c
    | some i =>
      match c.streams[i]? with
      | none => c
      | some s => windowOnStream env c i s (windowIncrement f)

/-! ## Header blocks -/

def h2FreeStream (c : H2Conn) (i : Nat) : H2Conn := { c with streams := swapRemove c.streams i }

/-- A new stream, dropped at once when it is one too many. -/
def openStream (env : H2Env) (c : H2Conn) (s : H2Stream) : H2Conn :=
  let c := { c with streams := c.streams ++ [s], lastStreamId := s.id }
  if h2MaxConcurrentStreams < c.streams.length then
    h2FreeStream (h2SendStreamError env c s.id .refused) (c.streams.length - 1)
  else c

def h2OnHeaderBlockFinish (env : H2Env) (c : H2Conn) (id : Nat) (endStream : Bool) (blk : Bytes) : H2Conn :=
  if id % 2 = 0 then h2ConnError c .protocol
  else if c.clientGoaway ∧ c.clientGoawayLast < id then h2SendStreamError env c id .refused
  else if id ≤ c.lastStreamId then h2ConnError c .protocol
  else if h2FindStream c id ≠ none then h2ConnError c .protocol
  else
    match h2RequestFromBlock env c blk with
    | (c, .compression) => c
    | (c, .malformed) => h2SendStreamError env c id .protocol
    | (c, .request req) => openStream env c (newStream id endStream req c.clientInitWindow)

def clearBlock (c : H2Conn) : H2Conn :=
  { c with hbStream := 0, hb := [], hbEndStream := false, hbAbort := false }

/-- Take a fragment into the block, unless the block has outgrown its cap. -/
def takeFragment (env : H2Env) (c : H2Conn) (f : H2Frame) : H2Conn :=
  if c.hbAbort then c
  else if h2HeaderBlockCap < c.hb.length + f.len then
    h2SendStreamError env { c with hbAbort := true } f.streamId .cancel
  else { c with hb := c.hb ++ f.payload }

def h2OnCont (env : H2Env) (c : H2Conn) (f : H2Frame) : H2Conn :=
  if c.hbStream = 0 then h2ConnError c .protocol
  else if f.streamId ≠ c.hbStream then h2ConnError c .protocol
  else
    let c := takeFragment env c f
    if f.endHeaders then
      if c.hbAbort then clearBlock c
      else h2OnHeaderBlockFinish env (clearBlock c) c.hbStream c.hbEndStream c.hb
    else c

/-- The fragment of a HEADERS frame without padding and priority. -/
def headersFragment (f : H2Frame) : Option Bytes :=
  let unpadded : Option (Nat × Bytes) :=
    if f.padded then
      match f.payload with
      | [] => none
      | pad :: p => some (pad.toNat, p)
    else some (0, f.payload)
  match unpadded with
  | none => none
  | some (pad, p) =>
    if f.priorityFlag ∧ p.length < 5 then none
    else
      let p := if f.priorityFlag then p.drop 5 else p
      if p.length < pad then none else some (p.take (p.length - pad))

def h2OnHeadersStart (env : H2Env) (c : H2Conn) (f : H2Frame) : H2Conn :=
  if f.streamId = 0 then h2ConnError c .protocol
  else
    let c := { c with hbStream := f.streamId, hbEndStream := f.endStream, hbAbort := false, hb := [] }
    match headersFragment f with
    | none => h2ConnError c .protocol
    | some frag =>
      if h2HeaderBlockCap < frag.length then h2ConnError c .calm
      else if f.endHeaders then h2OnHeaderBlockFinish env (clearBlock c) f.streamId f.endStream frag
      else { c with hb := frag }

def handleFrame (env : H2Env) (c : H2Conn) (f : H2Frame) : H2Conn :=
  if ¬ c.gotClientSettings ∧ (f.type ≠ .settings ∨ f.endStream) then h2ConnError c .protocol
  else if c.hbStream ≠ 0 ∧ (f.type ≠ .cont ∨ f.streamId ≠ c.hbStream) then h2ConnError c .protocol
  else
    match f.type with
    | .data => h2OnData env c f
    | .headers => h2OnHeadersStart env c f
    | .cont => h2OnCont env c f
    | .priority => h2OnPriority env c f
    | .rst => h2OnRst c f
    | .settings => h2OnSettings env c f
    | .ping => h2OnPing env c f
    | .goaway => h2OnGoaway c f
    | .window => h2OnWindow env c f
    | .pushPromise => h2ConnError c .protocol
    | .unknown _ => c

def h2ProcessFrame (env : H2Env) (c : H2Conn) (f : H2Frame) : H2Conn :=
  handleFrame env { c with trace := c.trace ++ [.recv f] } f

/-! ## Dispatching and sweeping -/

def errorBody : Bytes := ascii "cweb error page (it hurts us too)\r\n"

def h2DirectError (s : H2Stream) (status : Nat) : H2Stream :=
  { s with
    dispatched := true
    responseReady := true
    res := { httpResponseInit with
      status := status
      headers := ascii "Content-Type: text/plain; charset=utf-8\r\n"
      body := errorBody } }

def h2Dispatch (env : H2Env) (c : H2Conn) (i : Nat) (s : H2Stream) : H2Conn :=
  let calls := c.calls ++ [s.req]
  { c with
    calls := calls
    streams := c.streams.modify i fun _ =>
      { s with dispatched := true, responseReady := true, res := env.handler calls } }

/-- A stream whose request has ended gets its answer. -/
def dispatchStream (env : H2Env) (c : H2Conn) (i : Nat) : H2Conn :=
  match c.streams[i]? with
  | none => c
  | some s =>
    if s.dispatched ∨ s.reset ∨ ¬ s.remoteEnded then c
    else if s.bodyTooBig ∨ (env.maxBody : Int) < s.req.contentLength then
      c.modifyStream i fun s => h2DirectError s 413
    else if headerHasToken s.req (ascii "content-encoding") (ascii "gzip") ∨
        headerHasToken s.req (ascii "content-encoding") (ascii "x-gzip") then
      match env.inflate s.body env.maxInflated with
      | .bad => c.modifyStream i fun s => h2DirectError s 400
      | .tooBig => c.modifyStream i fun s => h2DirectError s 413
      | .ok bytes => h2Dispatch env c i { s with body := [], req := { s.req with body := bytes } }
    else h2Dispatch env c i { s with req := { s.req with body := s.body } }

def dispatchFrom (env : H2Env) : Nat → Nat → H2Conn → H2Conn
  | 0, _, c => c
  | left + 1, i, c => dispatchFrom env left (i + 1) (dispatchStream env c i)

def h2DispatchReady (env : H2Env) (c : H2Conn) : H2Conn :=
  if c.error = none then dispatchFrom env c.streams.length 0 c else c

def H2Stream.done (s : H2Stream) : Bool := s.reset || (s.localEnded && s.remoteEnded)

/-- From the last slot down, so that the one that moves into a freed slot has
been looked at. -/
def sweepFrom : Nat → H2Conn → H2Conn
  | 0, c => c
  | i + 1, c =>
    match c.streams[i]? with
    | none => sweepFrom i c
    | some s => sweepFrom i (if s.done then h2FreeStream c i else c)

def h2Sweep (c : H2Conn) : H2Conn := sweepFrom c.streams.length c

end Cweb.H2
