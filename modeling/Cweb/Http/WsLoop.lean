import Cweb.Lib.Loop
import Cweb.Http.Ws

/-!
# The conversation on a WebSocket

The loop reads frame after frame, answers a ping with its payload and a close with a
close, and hands the others to the application. However the bytes arrive, this is what
the frames in them say one by one.
-/

namespace Cweb.Ws

open Loop

/-! ## What is sent -/

/-- The sending side of a socket: what the peer is given, and how much each call of
`send` to come takes. Nothing stands for an error. -/
structure Outlet where
  wire : Bytes
  sends : List (Option Nat)
deriving DecidableEq, Repr

def sendLeft (wire : Bytes) : List (Option Nat) → Bytes → Bool × Outlet
  | sends, [] => (true, ⟨wire, sends⟩)
  | [], _ :: _ => (false, ⟨wire, []⟩)
  | none :: sends, _ :: _ => (false, ⟨wire, sends⟩)
  | some n :: sends, b :: left =>
    if n = 0 then (false, ⟨wire, sends⟩)
    else sendLeft (wire ++ (b :: left).take n) sends ((b :: left).drop n)

def netSendAll (buf : Bytes) (out : Outlet) : Bool × Outlet := sendLeft out.wire out.sends buf

/-- All of a text is sent, or a part from its front and the sender is told. -/
def Sent (text : Bytes) (out : Outlet) (r : Bool × Outlet) : Prop :=
  ∃ sent, sent <+: text ∧ r.2.wire = out.wire ++ sent ∧ (r.1 = true ↔ sent = text)

theorem sendLeft_sent (sends : List (Option Nat)) :
    ∀ wire left, Sent left ⟨wire, sends⟩ (sendLeft wire sends left) := by
  induction sends with
  | nil =>
    intro wire left
    cases left with
    | nil => exact ⟨[], List.nil_prefix, (List.append_nil wire).symm, by simp [sendLeft]⟩
    | cons b left => exact ⟨[], List.nil_prefix, (List.append_nil wire).symm, by simp [sendLeft]⟩
  | cons outcome sends ih =>
    intro wire left
    cases left with
    | nil => exact ⟨[], List.nil_prefix, by simp [sendLeft], by simp [sendLeft]⟩
    | cons b left =>
      cases outcome with
      | none => exact ⟨[], List.nil_prefix, (List.append_nil wire).symm, by simp [sendLeft]⟩
      | some n =>
        by_cases hNone : n = 0
        · exact ⟨[], List.nil_prefix, by simp [sendLeft, hNone], by simp [sendLeft, hNone]⟩
        · obtain ⟨sent, hSent, hWire, hAll⟩ := ih (wire ++ (b :: left).take n) ((b :: left).drop n)
          have hCut := List.take_append_drop n (b :: left)
          refine ⟨(b :: left).take n ++ sent, ?_, ?_, ?_⟩
          · have hWhole := (List.prefix_append_right_inj ((b :: left).take n)).mpr hSent
            rwa [hCut] at hWhole
          · rw [sendLeft, if_neg hNone, hWire, List.append_assoc]
          · rw [sendLeft, if_neg hNone, hAll]
            constructor
            · rintro rfl
              exact hCut
            · intro hSame
              exact List.append_cancel_left (hSame.trans hCut.symm)

theorem netSendAll_sent (buf : Bytes) (out : Outlet) : Sent buf out (netSendAll buf out) :=
  sendLeft_sent out.sends out.wire buf

theorem Sent.stop {text : Bytes} {out : Outlet} {r : Bool × Outlet} (h : Sent text out r)
    (hStop : r.1 = false) (more : Bytes) :
    Sent (text ++ more) out r := by
  obtain ⟨sent, hSent, hWire, hAll⟩ := h
  rw [hStop] at hAll
  refine ⟨sent, hSent.trans (List.prefix_append _ _), hWire, ?_⟩
  rw [hStop]
  refine ⟨fun h => absurd h Bool.false_ne_true, ?_⟩
  rintro rfl
  obtain ⟨rest, hRest⟩ := hSent
  obtain ⟨hMore, -⟩ : more = [] ∧ rest = [] := by simpa using hRest
  exact hAll.mpr (by rw [hMore, List.append_nil])

theorem Sent.andThen {text more : Bytes} {out : Outlet} {r r' : Bool × Outlet} (h : Sent text out r)
    (hOk : r.1 = true)
    (h' : Sent more r.2 r') : Sent (text ++ more) out r' := by
  obtain ⟨sent, -, hWire, hAll⟩ := h
  obtain ⟨sent', hSent', hWire', hAll'⟩ := h'
  obtain rfl := hAll.mp hOk
  refine ⟨sent ++ sent', (List.prefix_append_right_inj sent).mpr hSent', ?_, ?_⟩
  · rw [hWire', hWire, List.append_assoc]
  · rw [hAll', List.append_cancel_left_eq]

/-- The header goes out first, and the payload when that did. -/
def wsSendOn (opcode : UInt8) (payload : Bytes) (fin : Bool) (out : Outlet) : Bool × Outlet :=
  match netSendAll (wsHeader opcode payload.length fin) out with
  | (false, out) => (false, out)
  | (true, out) => if payload = [] then (true, out) else netSendAll payload out

/-- However short the writes are, a frame goes out whole and in order, or a part from its
front and the sender is told. -/
theorem frame_sent_whole (opcode : UInt8) (payload : Bytes) (fin : Bool) (out : Outlet) :
    Sent (httpWsSend opcode payload fin) out (wsSendOn opcode payload fin out) := by
  have hHeader := netSendAll_sent (wsHeader opcode payload.length fin) out
  rw [wsSendOn, httpWsSend]
  split
  · next out₁ hStop =>
    rw [hStop] at hHeader
    exact hHeader.stop rfl payload
  · next out₁ hOk =>
    rw [hOk] at hHeader
    by_cases hNone : payload = []
    · subst hNone
      rw [if_pos rfl, List.append_nil]
      exact hHeader
    · rw [if_neg hNone]
      exact hHeader.andThen rfl (netSendAll_sent payload out₁)

def httpWsSendClose (code : UInt16) (out : Outlet) : Bool × Outlet :=
  wsSendOn WsOp.close.code [(code >>> 8).toUInt8, code.toUInt8] true out

def httpWsSendPong (payload : Bytes) (out : Outlet) : Bool × Outlet :=
  wsSendOn WsOp.pong.code payload true out

/-! ## The loop -/

/-- What the application works on: the sending side, and what it keeps itself. -/
structure Talk (ω : Type*) where
  out : Outlet
  world : ω

/-- A message handler answers with 0 to go on. -/
abbrev WsOnMessage (ω : Type*) := WsFrame → Bytes → Talk ω → Int × Talk ω

structure WsTurn (ω : Type*) where
  conn : WsConn
  talk : Talk ω
  ret : Option Int

variable {ω : Type*}

def Talk.on (t : Talk ω) (send : Outlet → Bool × Outlet) : Talk ω := { t with out := (send t.out).2 }

/-- One turn of the loop; what the sends answer is not looked at. -/
def wsLoopTurn (onMessage : Option (WsOnMessage ω)) (bufCap : Nat) (s : WsTurn ω) : Turn (WsTurn ω) :=
  match httpWsReadFrame bufCap s.conn with
  | (none, conn) => .leave ⟨conn, s.talk, some (-1)⟩
  | (some (r, frame, payload), conn) =>
    if r = 0 then .leave ⟨conn, s.talk.on (httpWsSendClose 1000), some 0⟩
    else if frame.opcode = WsOp.ping.code then .again ⟨conn, s.talk.on (httpWsSendPong payload), none⟩
    else if frame.opcode = WsOp.pong.code then .again ⟨conn, s.talk, none⟩
    else
      match onMessage with
      | none => .again ⟨conn, s.talk, none⟩
      | some handle =>
        match handle frame payload s.talk with
        | (rc, talk) => if rc = 0 then .again ⟨conn, talk, none⟩ else .leave ⟨conn, talk, some 0⟩

def Arrival.size : Arrival → Nat
  | .data bytes => bytes.length
  | _ => 0

def WsConn.pending (conn : WsConn) : Nat := conn.rb.count + (conn.arrivals.map Arrival.size).sum

variable {conn conn' : WsConn} {cap need payloadCap : Nat} {stream rest : Bytes} {b0 : UInt8}

variable {onMessage : Option (WsOnMessage ω)}

/-- More is to come behind all that was to come. -/
def WsConn.more (conn : WsConn) (extra : List Arrival) : WsConn :=
  { conn with arrivals := conn.arrivals ++ extra }

theorem more_rb (conn : WsConn) (extra : List Arrival) : (conn.more extra).rb = conn.rb := rfl

theorem ioRecv_append {room : Nat} {arrivals arrivals' : List Arrival} {bytes : Bytes}
    (h : ioRecv room arrivals = (.data bytes, arrivals'))
    (extra : List Arrival) : ioRecv room (arrivals ++ extra) = (.data bytes, arrivals' ++ extra) := by
  cases arrivals with
  | nil => cases h
  | cons arrival arrivals =>
    cases arrival with
    | timeout => cases h
    | broken => cases h
    | data chunk =>
      rw [ioRecv, Prod.mk.injEq] at h
      obtain ⟨hFirst, rfl⟩ := h
      rw [List.cons_append, ioRecv, hFirst]
      split
      · rfl
      · rfl

theorem ensureFuel_more (extra : List Arrival) (fuel : Nat) :
    ∀ {conn}, wsEnsureFuel need fuel conn = (true, conn') →
    wsEnsureFuel need fuel (conn.more extra) = (true, conn'.more extra) := by
  induction fuel with
  | zero =>
    intro conn h
    rw [wsEnsureFuel, Prod.mk.injEq] at h
    obtain ⟨hThere, rfl⟩ := h
    exact Prod.ext hThere rfl
  | succ fuel ih =>
    intro conn h
    rw [wsEnsureFuel] at h ⊢
    split at h
    · next hThere =>
      cases h
      exact if_pos hThere
    · next hShort =>
      rw [more_rb, if_neg hShort]
      split at h
      · cases h
      · next hRoom =>
        rw [if_neg hRoom]
        split at h
        · next hRecv =>
          have hMore := ih h
          rw [WsConn.more, ioRecv_append hRecv]
          exact hMore
        · cases h
        · cases h

theorem ensure_more (h : wsEnsure need conn = (true, conn')) (extra : List Arrival) :
    wsEnsure need (conn.more extra) = (true, conn'.more extra) := ensureFuel_more extra need h

theorem frameLength_more {short hdr len : Nat} (h : frameLength short conn = (some (hdr, len), conn'))
    (extra : List Arrival) :
    frameLength short (conn.more extra) = (some (hdr, len), conn'.more extra) := by
  rw [frameLength] at h ⊢
  split at h
  · next hTwo =>
    rw [if_pos hTwo]
    split at h
    · cases h
    · next hEnsure =>
      cases h
      rw [ensure_more hEnsure]
      rfl
  · next hTwo =>
    rw [if_neg hTwo]
    split at h
    · next hEight =>
      rw [if_pos hEight]
      split at h
      · cases h
      · next conn₁ hEnsure =>
        rw [ensure_more hEnsure]
        dsimp only [WsConn.more]
        split at h
        · cases h
        · next hClear =>
          cases h
          exact if_neg hClear
    · next hEight =>
      rw [if_neg hEight]
      cases h
      rfl

theorem framePayload_more {hdr len : Nat} {r : Nat × WsFrame × Bytes}
    (h : framePayload b0 hdr len conn = (some r, conn'))
    (extra : List Arrival) : framePayload b0 hdr len (conn.more extra) = (some r, conn'.more extra) := by
  rw [framePayload] at h ⊢
  split at h
  · cases h
  · next hEnsure =>
    cases h
    rw [ensure_more hEnsure]
    rfl

theorem readFrame_more {r : Nat × WsFrame × Bytes}
    (h : httpWsReadFrame payloadCap conn = (some r, conn')) (extra : List Arrival) :
    httpWsReadFrame payloadCap (conn.more extra) = (some r, conn'.more extra) := by
  rw [httpWsReadFrame] at h ⊢
  split at h
  · cases h
  · next conn₁ hEnsure =>
    rw [ensure_more hEnsure]
    dsimp only [WsConn.more] at h ⊢
    split at h
    · cases h
    · next hOk =>
      rw [if_neg hOk]
      split at h
      · cases h
      · next hLength =>
        have hMore := frameLength_more hLength extra
        rw [WsConn.more] at hMore
        rw [hMore]
        dsimp only
        split at h
        · cases h
        · next hFits =>
          rw [if_neg hFits]
          exact framePayload_more h extra

theorem readFrame_le {r : Nat × WsFrame × Bytes} (h : httpWsReadFrame payloadCap conn = (some r, conn'))
    {large : Nat}
    (hLarge : payloadCap ≤ large) : r.2.2.length ≤ payloadCap ∧
      httpWsReadFrame large conn = (some r, conn') := by
  rw [httpWsReadFrame] at h ⊢
  split at h
  · cases h
  · dsimp only at h ⊢
    split at h
    · cases h
    · next hOk =>
      rw [if_neg hOk]
      split at h
      · cases h
      · split at h
        · cases h
        · next hFits =>
          rw [if_neg (by omega)]
          exact ⟨(framePayload_some h).2.trans (Nat.le_of_not_lt hFits), h⟩

/-! ## Frame by frame -/

/-- The caller has room for the payload, and the connection for all of the frame. -/
def ClientFrame.Fits (cap bufCap : Nat) (f : ClientFrame) : Prop :=
  f.payload.length ≤ bufCap ∧ headerSize f.payload.length + 4 + f.payload.length ≤ cap

instance instDecidableFits (cap bufCap : Nat) (f : ClientFrame) : Decidable (f.Fits cap bufCap) :=
  inferInstanceAs (Decidable (_ ∧ _))

theorem Feeds.readFrame_fits {f : ClientFrame} (h : Feeds conn cap (f.wire ++ rest)) (hCap : 10 ≤ cap)
    (hLen : f.payload.length < 2 ^ 63)
    (hFits : f.Fits cap payloadCap) :
    ∃ conn', httpWsReadFrame payloadCap conn = (some f.result, conn') ∧ Feeds conn' cap rest := by
  have hDelivers := (h.delivers_iff f hCap hFits.1).mpr ⟨hFits.2, hLen⟩
  rwa [Delivers, h.capacity] at hDelivers

theorem Feeds.readFrame_unfit {f : ClientFrame} (h : Feeds conn cap (f.wire ++ rest)) (hCap : 10 ≤ cap)
    (hLen : f.payload.length < 2 ^ 63)
    (hFits : ¬ f.Fits cap payloadCap) : ∃ conn', httpWsReadFrame payloadCap conn = (none, conn') := by
  cases hRead : httpWsReadFrame payloadCap conn with
  | mk r conn' =>
    cases r with
    | none => exact ⟨conn', rfl⟩
    | some r =>
      obtain ⟨hPayload, hLarge⟩ := readFrame_le hRead (Nat.le_max_left payloadCap f.payload.length)
      obtain ⟨conn₁, hFeeds, hSame⟩ := h.readFrame f hCap hLen (Nat.le_max_right payloadCap f.payload.length)
      rw [hSame] at hLarge
      have hRoom := (framePayload_some hLarge).1 hFeeds.within
      rw [hFeeds.capacity] at hRoom
      obtain ⟨conn₂, hResult, -⟩ := framePayload_fits f hFeeds hRoom
      rw [hResult] at hLarge
      cases hLarge
      exact absurd ⟨hPayload, hRoom⟩ hFits

/-- What is there of a frame is less than all of it. -/
def Unfinished (rest : Bytes) : Prop := ∃ (f : ClientFrame)
    (missing : Bytes), f.payload.length < 2 ^ 63 ∧ missing ≠ [] ∧ rest ++ missing = f.wire

theorem Feeds.more (h : Feeds conn cap stream) {extra : Bytes} (hSome : extra ≠ []) :
    Feeds (conn.more [.data extra]) cap (stream ++ extra) := by
  obtain ⟨chunks, hChunks, hArrivals, hStream⟩ := h.reads
  refine ⟨h.capacity, h.within, chunks ++ [extra], ?_, ?_, ?_⟩
  · intro c hc
    obtain hc | hc := List.mem_append.mp hc
    · exact hChunks c hc
    · rwa [List.mem_singleton.mp hc]
  · rw [WsConn.more, hArrivals, List.map_append]
    rfl
  · rw [more_rb, List.flatten_append, ← List.append_assoc, hStream, List.flatten_singleton]

theorem Feeds.readFrame_unfinished (h : Feeds conn cap rest) (hCap : 10 ≤ cap) (hRest : Unfinished rest) :
    ∃ conn', httpWsReadFrame payloadCap conn = (none, conn') := by
  obtain ⟨f, missing, hLen, hMissing, hWire⟩ := hRest
  cases hRead : httpWsReadFrame payloadCap conn with
  | mk r conn' =>
    cases r with
    | none => exact ⟨conn', rfl⟩
    | some r =>
      -- with the rest of the frame behind it, the same frame is read, and the rest is still to come
      have hMore := readFrame_more hRead [.data missing]
      have hFeeds : Feeds (conn.more [.data missing]) cap (f.wire ++ []) := by
        rw [List.append_nil, ← hWire]
        exact h.more hMissing
      by_cases hFits : f.Fits cap payloadCap
      · obtain ⟨conn₁, hSame, hLeft⟩ := hFeeds.readFrame_fits hCap hLen hFits
        rw [hMore] at hSame
        cases hSame
        obtain ⟨chunks, -, hArrivals, hNone⟩ := hLeft.reads
        have hLast : Arrival.data missing ∈ chunks.map Arrival.data := by
          rw [← hArrivals, WsConn.more]
          exact List.mem_append_right _ (List.mem_singleton_self _)
        obtain ⟨c, hc, hEq⟩ := List.mem_map.mp hLast
        cases hEq
        have hFlat := (List.append_eq_nil_iff.mp hNone).2
        exact absurd (List.flatten_eq_nil_iff.mp hFlat missing hc) hMissing
      · obtain ⟨conn₁, hNone⟩ := hFeeds.readFrame_unfit hCap hLen hFits
        rw [hMore] at hNone
        cases hNone

/-- What is done about a data frame, with the result of the loop if it is left there. -/
def deliver (onMessage : Option (WsOnMessage ω)) (f : ClientFrame) (t : Talk ω) : Option Int × Talk ω :=
  match onMessage with
  | none => (none, t)
  | some handle =>
    match handle ⟨f.fin, f.opcode.code, f.payload.length⟩ f.payload t with
    | (rc, t) => (if rc = 0 then none else some 0, t)

def reply (onMessage : Option (WsOnMessage ω)) (f : ClientFrame) (t : Talk ω) : Option Int × Talk ω :=
  match f.opcode with
  | .close => (some 0, t.on (httpWsSendClose 1000))
  | .ping => (none, t.on (httpWsSendPong f.payload))
  | .pong => (none, t)
  | .cont => deliver onMessage f t
  | .text => deliver onMessage f t
  | .bin => deliver onMessage f t

def converse (onMessage : Option (WsOnMessage ω)) (cap bufCap : Nat) : List ClientFrame → Talk ω →
    Int × Talk ω
  | [], t => (-1, t)
  | f :: fs, t =>
    if f.Fits cap bufCap then
      match reply onMessage f t with
      | (none, t) => converse onMessage cap bufCap fs t
      | (some rc, t) => (rc, t)
    else (-1, t)

def replyTurn (conn : WsConn) : Option Int × Talk ω → Turn (WsTurn ω)
  | (none, t) => .again ⟨conn, t, none⟩
  | (some rc, t) => .leave ⟨conn, t, some rc⟩

theorem wsLoopTurn_reply {f : ClientFrame} {talk : Talk ω}
    (h : httpWsReadFrame payloadCap conn = (some f.result, conn')) :
    wsLoopTurn onMessage payloadCap ⟨conn, talk, none⟩ = replyTurn conn' (reply onMessage f talk) := by
  have hDeliver : ¬ f.opcode = .close → ¬ f.opcode.code = WsOp.ping.code → ¬ f.opcode.code = WsOp.pong.code →
      wsLoopTurn onMessage payloadCap ⟨conn, talk, none⟩ = replyTurn conn' (deliver onMessage f talk) := by
    intro hOpen hPing hPong
    rw [wsLoopTurn, h, ClientFrame.result, if_neg hOpen]
    dsimp only
    rw [if_neg (by decide), if_neg hPing, if_neg hPong]
    cases onMessage with
    | none => rfl
    | some handle =>
      dsimp only [deliver]
      split
      · rfl
      · rfl
  rw [reply]
  cases hOp : f.opcode with
  | close =>
    rw [wsLoopTurn, h, ClientFrame.result, hOp]
    rfl
  | ping =>
    rw [wsLoopTurn, h, ClientFrame.result, hOp]
    rfl
  | pong =>
    rw [wsLoopTurn, h, ClientFrame.result, hOp]
    rfl
  | cont => exact hDeliver (by rw [hOp]; decide) (by rw [hOp]; decide) (by rw [hOp]; decide)
  | text => exact hDeliver (by rw [hOp]; decide) (by rw [hOp]; decide) (by rw [hOp]; decide)
  | bin => exact hDeliver (by rw [hOp]; decide) (by rw [hOp]; decide) (by rw [hOp]; decide)

/-- All of the frames are there, or those up to a close. -/
def Whole (fs : List ClientFrame) (rest : Bytes) : Prop := (∃ f ∈ fs, f.opcode = .close) ∨ Unfinished rest

theorem Whole.tail {f : ClientFrame} {fs : List ClientFrame} (h : Whole (f :: fs) rest) {talk talk' : Talk ω}
    (hReply : reply onMessage f talk = (none, talk')) : Whole fs rest := by
  obtain ⟨g, hg, hClose⟩ | hRest := h
  · obtain rfl | hg := List.mem_cons.mp hg
    · rw [reply, hClose] at hReply
      cases hReply
    · exact .inl ⟨g, hg, hClose⟩
  · exact .inr hRest

theorem Feeds.converse (hCap : 10 ≤ cap) (fs : List ClientFrame) : ∀ {conn} {talk : Talk ω},
    Feeds conn cap ((fs.map ClientFrame.wire).flatten ++ rest) → (∀ f ∈ fs, f.payload.length < 2 ^ 63) →
      Whole fs rest →
      ∃ conn', Ends (wsLoopTurn onMessage payloadCap) ⟨conn, talk, none⟩
        ⟨conn', (converse onMessage cap payloadCap fs talk).2,
          some (converse onMessage cap payloadCap fs talk).1⟩ := by
  induction fs with
  | nil =>
    intro conn talk h _ hWhole
    obtain ⟨f, hf, -⟩ | hRest := hWhole
    · cases hf
    · obtain ⟨conn', hRead⟩ := h.readFrame_unfinished hCap hRest
      refine ⟨conn', .of_leave ?_⟩
      rw [wsLoopTurn, hRead, Ws.converse]
  | cons f fs ih =>
    intro conn talk h hLen hWhole
    rw [List.map_cons, List.flatten_cons, List.append_assoc] at h
    rw [Ws.converse]
    by_cases hFits : f.Fits cap payloadCap
    · obtain ⟨conn₁, hRead, hNext⟩ := h.readFrame_fits hCap (hLen f List.mem_cons_self) hFits
      have hTurn := @wsLoopTurn_reply _ _ _ _ onMessage f talk hRead
      rw [if_pos hFits]
      cases hReply : reply onMessage f talk with
      | mk rc talk' =>
        rw [hReply] at hTurn
        cases rc with
        | none =>
          obtain ⟨conn', hEnds⟩ :=
            ih hNext (fun g hg => hLen g (List.mem_cons_of_mem _ hg)) (hWhole.tail hReply)
          exact ⟨conn', hEnds.head hTurn⟩
        | some rc => exact ⟨conn₁, .of_leave hTurn⟩
    · obtain ⟨conn', hRead⟩ := h.readFrame_unfit hCap (hLen f List.mem_cons_self) hFits
      refine ⟨conn', .of_leave ?_⟩
      rw [if_neg hFits, wsLoopTurn, hRead]

end Cweb.Ws
