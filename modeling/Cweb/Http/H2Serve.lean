import Cweb.Http.H2Recv
import Cweb.Utils.Strbuf

/-!
# Serving a connection

The prologue with its optional upgrade request, the loop over frames and the
reads in between. Between two frames the connection is settled: requests that
have ended are dispatched, responses are pumped and finished streams swept.
-/

namespace Cweb.H2

open Sv

/-- The fields of an upgrade request without those that belong to the connection. -/
def upgradeFields (src : HttpRequest) : List HttpHeader :=
  let hasHost := src.headers.any fun h => svIeq h.key (ascii "host")
  let kept := src.headers.filter fun h => !(connSpecName h.key || svIeq h.key (ascii "http2-settings"))
  let authority := (httpRequestGetHeader src (ascii ":authority")).orElse fun _ =>
    httpRequestGetHeader src (ascii "host")
  let host : List HttpHeader :=
    match hasHost, authority with
    | false, some value => [⟨ascii "host", value⟩]
    | _, _ => []
  kept ++ host

/-- A name and a value are copied behind one another, and viewed where the storage is
then. -/
def storeField (st : Strbuf × List StrbufView) (h : HttpHeader) : Strbuf × List StrbufView :=
  let sb := strbufAppend (strbufAppend st.1 h.key.length) h.value.length
  (sb, st.2 ++ [⟨sb.moves, st.1.count, h.key.length⟩, ⟨sb.moves, st.1.count + h.key.length, h.value.length⟩])

/-- The storage of the upgrade stream, and the views its request is made of. The
storage goes on growing while they are taken. -/
def upgradeStorage (src : HttpRequest) : Strbuf × List StrbufView :=
  let sb := strbufAppend strbufInit src.path.length
  let (path, query) := splitQuery src.path
  (upgradeFields src).foldl storeField (sb, [⟨sb.moves, 0, src.path.length⟩, ⟨sb.moves, 0, path.length⟩,
    ⟨sb.moves, src.path.length - query.length, query.length⟩])

/-- The upgrade request becomes stream 1. Its texts are what the views of
`upgradeStorage` show as they are taken; those the storage does not back at the end
are of memory that was given back. -/
def h2AddUpgradeStream (env : H2Env) (c : H2Conn) (src : HttpRequest) : H2Conn :=
  let req : HttpRequest :=
    { method := src.method
      target := src.path
      path := (splitQuery src.path).1
      query := (splitQuery src.path).2
      version := ascii "HTTP/2.0"
      body := []
      contentLength := if 0 ≤ src.contentLength then src.contentLength else src.body.length
      bodyOffset := 0
      remote := env.remote
      headers := upgradeFields src }
  { c with
    streams := c.streams ++
      [{ newStream 1 true req c.clientInitWindow with body := src.body, reqBytes := src.body.length }]
    lastStreamId := 1 }

def b64Value (ch : UInt8) : Option Nat :=
  if 65 ≤ ch ∧ ch ≤ 90 then some (ch.toNat - 65)
  else if 97 ≤ ch ∧ ch ≤ 122 then some (ch.toNat - 97 + 26)
  else if 48 ≤ ch ∧ ch ≤ 57 then some (ch.toNat - 48 + 52)
  else if ch = 45 then some 62
  else if ch = 95 then some 63
  else none

/-- `acc` is a 32-bit accumulator with `nbits` bits not given out yet. -/
def b64Loop : Nat → Nat → Bytes → Option Bytes
  | _, _, [] => some []
  | acc, nbits, ch :: s =>
    if ch = 61 then some []
    else
      match b64Value ch with
      | none => none
      | some v =>
        let acc := (acc * 64 + v) % 2 ^ 32
        if 8 ≤ nbits + 6 then
          (b64Loop acc (nbits + 6 - 8) s).map fun out => UInt8.ofNat (acc / 2 ^ (nbits + 6 - 8)) :: out
        else b64Loop acc (nbits + 6) s

def h2B64urlDecode (s : Bytes) : Option Bytes := b64Loop 0 0 s

def upgrade101 : Bytes :=
  ascii "HTTP/1.1 101 Switching Protocols\r\nConnection: Upgrade\r\nUpgrade: h2c\r\n\r\n"

def h2WriteText (env : H2Env) (c : H2Conn) (bytes : Bytes) : H2Conn × Bool :=
  if env.writeOk c.writes then ({ c with writes := c.writes + 1, trace := c.trace ++ [.text bytes] }, true)
  else ({ c with writes := c.writes + 1 }, false)

/-- The settings an upgrade request carries in its header, `none` when they
cannot be applied. -/
def upgradeSettings (c : H2Conn) (src : HttpRequest) : Option H2Conn :=
  match httpRequestGetHeader src (ascii "http2-settings") with
  | none => some c
  | some hs =>
    match h2B64urlDecode hs with
    | none => none
    | some payload =>
      if payload.length % 6 ≠ 0 then none
      else
        let c := h2ApplySettings c payload
        if c.error = none then some c else none

/-- The connection when the loop begins, `none` when the prologue gives up. -/
def h2Start (env : H2Env) (upgrade : Option HttpRequest) : Option H2Conn :=
  match upgrade with
  | none => some (h2SendSettings env h2Init)
  | some src =>
    match h2WriteText env h2Init upgrade101 with
    | (_, false) => none
    | (c, true) => (upgradeSettings c src).map fun c => h2SendSettings env (h2AddUpgradeStream env c src)

def settle (env : H2Env) (c : H2Conn) : H2Conn := h2Sweep (h2Pump env (h2DispatchReady env c))

def frameStep (env : H2Env) (c : H2Conn) (f : H2Frame) : H2Conn :=
  let c := h2ProcessFrame env c f
  if c.error = none then settle env c else c

/-- The frame is handled, and settling fails behind it. -/
structure FailsBehind (env : H2Env) (c : H2Conn) (f : H2Frame) : Prop where
  handled : (h2ProcessFrame env c f).error = none
  failed : (frameStep env c f).error ≠ none

/-- The states at the top of the loop and between frames, from the one the
prologue left. Settling that fails behind a frame is noticed behind the next one. -/
inductive Run (env : H2Env) (c₀ : H2Conn) : H2Conn → Prop where
  | start : Run env c₀ (settle env c₀)
  | turn {c : H2Conn} : Run env c₀ c → c.error = none → Run env c₀ (settle env c)
  | frame {c : H2Conn} (f : H2Frame) : Run env c₀ c → c.error = none → Run env c₀ (frameStep env c f)
  | behind {c : H2Conn} (f g : H2Frame) : Run env c₀ c → c.error = none → FailsBehind env c f →
      Run env c₀ (frameStep env c f) → Run env c₀ (h2ProcessFrame env (frameStep env c f) g)

def Reachable (env : H2Env) (c : H2Conn) : Prop := ∃ upgrade c₀, h2Start env upgrade = some c₀ ∧ Run env c₀ c

theorem Reachable.turn {env : H2Env} {c : H2Conn} (h : Reachable env c) (hOk : c.error = none) :
    Reachable env (settle env c) := by
  obtain ⟨upgrade, c₀, hStart, hRun⟩ := h
  exact ⟨upgrade, c₀, hStart, hRun.turn hOk⟩

theorem Reachable.frame {env : H2Env} {c : H2Conn} (h : Reachable env c) (f : H2Frame)
    (hOk : c.error = none) :
    Reachable env (frameStep env c f) := by
  obtain ⟨upgrade, c₀, hStart, hRun⟩ := h
  exact ⟨upgrade, c₀, hStart, hRun.frame f hOk⟩

theorem Reachable.behind {env : H2Env} {c : H2Conn} (h : Reachable env c) {f : H2Frame} (hOk : c.error = none)
    (hFails : FailsBehind env c f) (g : H2Frame) :
    Reachable env (h2ProcessFrame env (frameStep env c f) g) := by
  obtain ⟨upgrade, c₀, hStart, hRun⟩ := h
  exact ⟨upgrade, c₀, hStart, hRun.behind f g hOk hFails (hRun.frame f hOk)⟩

/-- The frames of a client one after the other, up to an error. -/
def runFrames (env : H2Env) (c : H2Conn) (frames : List H2Frame) : H2Conn :=
  frames.foldl (fun c f => if c.error = none then frameStep env c f else c) c

theorem Run.run {env : H2Env} {c₀ : H2Conn} (frames : List H2Frame) :
    ∀ {c : H2Conn}, Run env c₀ c → Run env c₀ (runFrames env c frames) := by
  induction frames with
  | nil => exact fun h => h
  | cons f frames ih =>
    intro c h
    rw [runFrames, List.foldl_cons]
    split
    · rename_i hOk
      exact ih (h.frame f hOk)
    · exact ih h

/-- The frames of a client that starts with prior knowledge. -/
def plainRun (env : H2Env) (frames : List H2Frame) : H2Conn :=
  runFrames env (settle env (h2SendSettings env h2Init)) frames

theorem plainRun_concat {env : H2Env} {frames : List H2Frame} (f : H2Frame)
    (hOk : (plainRun env frames).error = none) :
    plainRun env (frames ++ [f]) = frameStep env (plainRun env frames) f := by
  rw [plainRun, runFrames, List.foldl_append, List.foldl_cons, List.foldl_nil]
  exact if_pos hOk

theorem reachable_plainRun (env : H2Env) (frames : List H2Frame) : Reachable env (plainRun env frames) :=
  ⟨none, _, rfl, Run.start.run frames⟩

/-- Empty answers over a socket that takes everything. -/
def plainEnv : H2Env := ⟨fun _ => httpResponseInit, fun _ => true, fun _ => [], fun _ _ => .bad, 100, 100, []⟩

/-! ## Frames from bytes -/

inductive Peek where
  | incomplete
  | tooLarge
  | frame (f : H2Frame) (rest : Bytes)
deriving DecidableEq, Repr

def h2FramePeek (rb : Bytes) : Peek :=
  match rb with
  | l0 :: l1 :: l2 :: type :: flags :: i0 :: i1 :: i2 :: i3 :: rest =>
    let len := l0.toNat * 2 ^ 16 + l1.toNat * 2 ^ 8 + l2.toNat
    if h2MaxFrameSize < len then .tooLarge
    else if rest.length < len then .incomplete
    else .frame ⟨frameTypeOf type, flags, rd32 [i0, i1, i2, i3] % 2 ^ 31, rest.take len⟩ (rest.drop len)
  | _ => .incomplete

def h2ClientGoawayDone (c : H2Conn) : Bool := c.clientGoaway && c.streams.isEmpty

def h2Magic : Bytes := ascii "PRI * HTTP/2.0\r\n\r\nSM\r\n\r\n"

def h2BufferCap : Nat := 64 * 1024

def skipMagic (rb : Bytes) : Bytes := if h2Magic.isPrefixOf rb then rb.drop h2Magic.length else rb

end Cweb.H2
