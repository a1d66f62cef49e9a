import Cweb.Http.H2Streams
import Cweb.Http.H2Trace

/-!
# The decoder against the header blocks of a connection

The header blocks a client has completed are read off the frames alone: a
HEADERS frame opens a block, CONTINUATION frames extend it and END_HEADERS
completes it. Two handlers end a block without decoding it, the one that finds
it over the cap and the one that refuses its stream after the client's GOAWAY.
On every other run the decoder has seen exactly these blocks in order.
-/

namespace Cweb.H2

open HpackTable Hpack

variable {env : H2Env}

/-- A complete header block, with the last stream the client's GOAWAY named by
then. -/
structure HeaderBlock where
  stream : Nat
  bytes : Bytes
  goaway : Option Nat
deriving DecidableEq, Repr

/-- `stream` is 0 when no block is open. -/
structure Assembly where
  stream : Nat
  bytes : Bytes
  goaway : Option Nat
  blocks : List HeaderBlock
deriving DecidableEq, Repr

def Assembly.extend (a : Assembly) (stream : Nat) (bytes : Bytes) (last : Bool) : Assembly :=
  if last then { a with stream := 0, bytes := [], blocks := a.blocks ++ [⟨stream, bytes, a.goaway⟩] }
  else { a with stream := stream, bytes := bytes }

def Assembly.take (a : Assembly) (f : H2Frame) : Assembly :=
  match f.type with
  | .headers => a.extend f.streamId ((headersFragment f).getD []) f.endHeaders
  | .cont => a.extend f.streamId (a.bytes ++ f.payload) f.endHeaders
  | .goaway => { a with goaway := some (rd32 f.payload % 2 ^ 31) }
  | _ => a

def assemble (frames : List H2Frame) : Assembly := frames.foldl Assembly.take ⟨0, [], none, []⟩

def decodeAll (blocks : List HeaderBlock) : Hpack :=
  blocks.foldl (fun hp b => (hpackDecodeBlock hp b.bytes).1) hpackInit

/-- Within the cap, and not of a stream behind the client's GOAWAY. -/
def HeaderBlock.Taken (b : HeaderBlock) : Prop :=
  b.bytes.length ≤ h2HeaderBlockCap ∧ ∀ last ∈ b.goaway, b.stream ≤ last

instance (b : HeaderBlock) : Decidable b.Taken :=
  inferInstanceAs (Decidable (_ ∧ _))

/-! ## Steps that leave the decoder alone -/

/-- The parts of a connection that header blocks change. -/
structure HeaderView where
  hpack : Hpack
  hbStream : Nat
  hb : Bytes
  hbEndStream : Bool
  hbAbort : Bool
  clientGoaway : Bool
  clientGoawayLast : Nat
  frames : List H2Frame

def headerView (c : H2Conn) : HeaderView :=
  ⟨c.hpack, c.hbStream, c.hb, c.hbEndStream, c.hbAbort, c.clientGoaway, c.clientGoawayLast, received c.trace⟩

theorem headerView_connError (c : H2Conn) (e : H2Error) : headerView (h2ConnError c e) = headerView c := by
  rw [h2ConnError_eq]
  rfl

theorem headerView_sendFrame (c : H2Conn) (f : H2Frame) :
    headerView (h2SendFrame env c f).1 = headerView c := by
  obtain ⟨hEq, _⟩ | ⟨writes, hEq⟩ | ⟨writes, hEq⟩ := h2SendFrame_cases env c f
  · rw [hEq]
    exact headerView_connError c _
  · rw [hEq]
    simp only [headerView, received_sent]
  · rw [hEq]
    rfl

theorem Step.headerView_eq {k : Kind} {c c' : H2Conn} (h : Step env k c c') (hk : k ≠ .header) :
    headerView c' = headerView c := by
  cases h with
  | fail _ _ e => exact headerView_connError c e
  | send _ _ f _ => exact headerView_sendFrame c f
  | conn _ _ _ hChange =>
    cases k with
    | header => exact absurd rfl hk
    | finish => rw [hChange]
    | opened => rw [hChange]
    | drop => rw [hChange]
    | _ =>
      rw [hChange]
      rfl
  | streams => rfl
  | opened => rfl
  | drop => rfl

theorem Steps.headerView_eq {ks : List Kind} {c c' : H2Conn} (h : Steps env ks c c') (hk : Kind.header ∉ ks) :
    headerView c' = headerView c :=
  h.preserves (P := fun c' => headerView c' = headerView c)
    (fun _ hMem _ _ hStep hEq => (hStep.headerView_eq fun hEq => hk (hEq ▸ hMem)).trans hEq) rfl

/-! ## The invariant of a run -/

/-- The connection's own assembly is that of the frames, except for the bytes
of a block over the cap, and every block taken so far has been decoded. -/
structure Synced (v : HeaderView) : Prop where
  stream : v.hbStream = (assemble v.frames).stream
  bytes : v.hbAbort = false → v.hb = (assemble v.frames).bytes
  abort : v.hbAbort = true → h2HeaderBlockCap < (assemble v.frames).bytes.length
  goaway : (assemble v.frames).goaway = if v.clientGoaway then some v.clientGoawayLast else none
  decoded : (∀ b ∈ (assemble v.frames).blocks, b.Taken) → v.hpack = decodeAll (assemble v.frames).blocks

theorem assemble_append (frames : List H2Frame) (f : H2Frame) :
    assemble (frames ++ [f]) = (assemble frames).take f := by
  simp [assemble]

theorem decodeAll_append (blocks : List HeaderBlock) (b : HeaderBlock) :
    decodeAll (blocks ++ [b]) = (hpackDecodeBlock (decodeAll blocks) b.bytes).1 := by
  simp [decodeAll]

theorem h2OnHeaderBlockFinish_view {c c' : H2Conn} {id : Nat} {endStream : Bool} {blk : Bytes}
    (h : h2OnHeaderBlockFinish env c id endStream blk = c') (hOk : c'.error = none) :
    (c.clientGoaway = true ∧ c.clientGoawayLast < id ∧ headerView c' = headerView c) ∨
      headerView c' = { headerView c with hpack := (hpackDecodeBlock c.hpack blk).1 } := by
  rw [h2OnHeaderBlockFinish] at h
  split at h
  · subst h
    exact absurd hOk (h2ConnError_error_ne_none c _)
  · split at h
    · rename_i hGoaway
      subst h
      exact .inl ⟨hGoaway.1, hGoaway.2, headerView_sendFrame c _⟩
    · split at h
      · subst h
        exact absurd hOk (h2ConnError_error_ne_none c _)
      · rename_i hNew
        split at h
        · subst h
          exact absurd hOk (h2ConnError_error_ne_none c _)
        · refine .inr ?_
          rw [h2RequestFromBlock] at h
          rcases hBlock : hpackDecodeBlock c.hpack blk with ⟨hp, fields | fields⟩
          · rw [hBlock] at h
            subst h
            exact absurd hOk (h2ConnError_error_ne_none _ _)
          · rw [hBlock] at h
            dsimp only at h
            split at h
            · rename_i hEq
              cases hReq : requestOfFields env.remote fields <;> simp [hReq] at hEq
            · rename_i c'' hEq
              obtain ⟨rfl, _⟩ := Prod.mk.inj hEq
              subst h
              exact headerView_sendFrame _ _
            · rename_i c'' req hEq
              obtain ⟨rfl, _⟩ := Prod.mk.inj hEq
              subst h
              refine (openStream_steps ⟨?_, rfl⟩).headerView_eq (by simp)
              exact not_le.mp hNew

/-- A completed block keeps the two sides together if it is decoded whenever
it is one to take. -/
theorem synced_of_complete {v : HeaderView} {a : Assembly} {id : Nat} {bytes : Bytes}
    (hFrames : assemble v.frames = a.extend id bytes true) (hStream : v.hbStream = 0) (hBytes : v.hb = [])
    (hAbort : v.hbAbort = false)
    (hGoaway : a.goaway = if v.clientGoaway then some v.clientGoawayLast else none)
    (hDecoded : (∀ b ∈ a.blocks, b.Taken) → HeaderBlock.Taken ⟨id, bytes, a.goaway⟩ →
      v.hpack = (hpackDecodeBlock (decodeAll a.blocks) bytes).1) : Synced v := by
  rw [Assembly.extend, if_pos rfl] at hFrames
  refine ⟨?_, ?_, ?_, ?_, ?_⟩
  · rw [hFrames, hStream]
  · intro _
    rw [hFrames, hBytes]
  · intro hTrue
    rw [hAbort] at hTrue
    cases hTrue
  · rw [hFrames]
    exact hGoaway
  · rw [hFrames]
    dsimp only
    intro hAll
    rw [decodeAll_append]
    exact hDecoded (fun b hb => hAll b (List.mem_append_left _ hb)) (hAll _ (by simp))

theorem finish_synced {c c' : H2Conn} {id : Nat} {endStream : Bool} {blk : Bytes} {a : Assembly}
    (h : h2OnHeaderBlockFinish env (clearBlock c) id endStream blk = c') (hOk : c'.error = none)
    (hFrames : assemble (received c.trace) = a.extend id blk true)
    (hGoaway : a.goaway = if c.clientGoaway then some c.clientGoawayLast else none)
    (hDecoded : (∀ b ∈ a.blocks, b.Taken) → c.hpack = decodeAll a.blocks) : Synced (headerView c') := by
  obtain ⟨hClient, hLast, hView⟩ | hView := h2OnHeaderBlockFinish_view h hOk
  · rw [hView]
    refine synced_of_complete (v := headerView (clearBlock c)) hFrames rfl rfl rfl hGoaway ?_
    intro _ hTaken
    have hClient : c.clientGoaway = true := hClient
    have hLast : c.clientGoawayLast < id := hLast
    rw [hClient, if_pos rfl] at hGoaway
    have hLe : id ≤ c.clientGoawayLast := hTaken.2 _ hGoaway
    omega
  · rw [hView]
    refine synced_of_complete hFrames rfl rfl rfl hGoaway ?_
    intro hAll _
    change (hpackDecodeBlock c.hpack blk).1 = _
    rw [hDecoded hAll]

theorem h2OnHeadersStart_synced {c c' : H2Conn} {f : H2Frame} {a : Assembly}
    (h : h2OnHeadersStart env c f = c') (hOk : c'.error = none)
    (hFrames : assemble (received c.trace) = a.extend f.streamId ((headersFragment f).getD []) f.endHeaders)
    (hGoaway : a.goaway = if c.clientGoaway then some c.clientGoawayLast else none)
    (hDecoded : (∀ b ∈ a.blocks, b.Taken) → c.hpack = decodeAll a.blocks) : Synced (headerView c') := by
  rw [h2OnHeadersStart] at h
  split at h
  · subst h
    exact absurd hOk (h2ConnError_error_ne_none _ _)
  · dsimp only at h
    split at h
    · subst h
      exact absurd hOk (h2ConnError_error_ne_none _ _)
    · rename_i frag hFrag
      rw [hFrag, Option.getD_some] at hFrames
      split at h
      · subst h
        exact absurd hOk (h2ConnError_error_ne_none _ _)
      · split at h
        · rename_i hEnd
          rw [hEnd] at hFrames
          exact finish_synced h hOk hFrames hGoaway hDecoded
        · rename_i hEnd
          rw [Bool.not_eq_true] at hEnd
          rw [hEnd, Assembly.extend, if_neg Bool.false_ne_true] at hFrames
          subst h
          refine ⟨?_, ?_, ?_, ?_, ?_⟩
          · change f.streamId = (assemble (received c.trace)).stream
            rw [hFrames]
          · intro _
            change frag = (assemble (received c.trace)).bytes
            rw [hFrames]
          · intro hTrue
            cases hTrue
          · change (assemble (received c.trace)).goaway = _
            rw [hFrames]
            exact hGoaway
          · change (∀ b ∈ (assemble (received c.trace)).blocks, b.Taken) →
              c.hpack = decodeAll (assemble (received c.trace)).blocks
            rw [hFrames]
            exact hDecoded

theorem takeFragment_view (c : H2Conn) (f : H2Frame) {bytes : Bytes}
    (hBytes : c.hbAbort = false → c.hb = bytes)
    (hAbort : c.hbAbort = true → h2HeaderBlockCap < bytes.length) :
    ∃ hb abort, headerView (takeFragment env c f) = { headerView c with hb := hb, hbAbort := abort } ∧
      (abort = false → hb = bytes ++ f.payload) ∧
      (abort = true → h2HeaderBlockCap < (bytes ++ f.payload).length) := by
  rw [takeFragment]
  split
  · rename_i hTrue
    refine ⟨c.hb, c.hbAbort, rfl, ?_, ?_⟩
    · intro hFalse
      rw [hTrue] at hFalse
      cases hFalse
    · intro _
      have hOver := hAbort hTrue
      rw [List.length_append]
      omega
  · rename_i hFalse
    rw [Bool.not_eq_true] at hFalse
    have hb := hBytes hFalse
    split
    · rename_i hOver
      refine ⟨c.hb, true, headerView_sendFrame _ _, fun hEq => Bool.noConfusion hEq, ?_⟩
      intro _
      rw [List.length_append, ← hb]
      exact hOver
    · refine ⟨c.hb ++ f.payload, c.hbAbort, rfl, ?_, ?_⟩
      · intro _
        rw [hb]
      · intro hTrue
        rw [hFalse] at hTrue
        cases hTrue

theorem h2OnCont_synced {c c' : H2Conn} {f : H2Frame} {a : Assembly}
    (h : h2OnCont env c f = c') (hOk : c'.error = none)
    (hFrames : assemble (received c.trace) = a.extend f.streamId (a.bytes ++ f.payload) f.endHeaders)
    (hBytes : c.hbAbort = false → c.hb = a.bytes)
    (hAbort : c.hbAbort = true → h2HeaderBlockCap < a.bytes.length)
    (hGoaway : a.goaway = if c.clientGoaway then some c.clientGoawayLast else none)
    (hDecoded : (∀ b ∈ a.blocks, b.Taken) → c.hpack = decodeAll a.blocks) : Synced (headerView c') := by
  obtain ⟨hb, abort, hView, hTaken, hOver⟩ := @takeFragment_view env c f _ hBytes hAbort
  rw [h2OnCont] at h
  split at h
  · subst h
    exact absurd hOk (h2ConnError_error_ne_none _ _)
  · split at h
    · subst h
      exact absurd hOk (h2ConnError_error_ne_none _ _)
    · rename_i hSame
      rw [not_not] at hSame
      dsimp only at h
      generalize takeFragment env c f = t at h hView
      simp only [headerView, HeaderView.mk.injEq] at hView
      obtain ⟨hHpack, hStream, hHb, hEnd, hAb, hClient, hLast, hTrace⟩ := hView
      rw [← hTrace] at hFrames
      rw [← hClient, ← hLast] at hGoaway
      rw [← hHpack] at hDecoded
      split at h
      · rename_i hFinal
        rw [hFinal] at hFrames
        split at h
        · rename_i hTrue
          subst h
          refine synced_of_complete (v := headerView (clearBlock t)) hFrames rfl rfl rfl hGoaway ?_
          intro _ hFits
          have hLong := hOver (hAb.symm.trans hTrue)
          have hShort : (a.bytes ++ f.payload).length ≤ h2HeaderBlockCap := hFits.1
          omega
        · rename_i hFalse
          rw [Bool.not_eq_true] at hFalse
          rw [hHb, hTaken (hAb.symm.trans hFalse), hStream, ← hSame] at h
          exact finish_synced h hOk hFrames hGoaway hDecoded
      · rename_i hMore
        rw [Bool.not_eq_true] at hMore
        rw [hMore, Assembly.extend, if_neg Bool.false_ne_true] at hFrames
        subst h
        refine ⟨?_, ?_, ?_, ?_, ?_⟩
        · change t.hbStream = (assemble (received t.trace)).stream
          rw [hFrames, hStream, hSame]
        · intro hFalse
          change t.hb = (assemble (received t.trace)).bytes
          rw [hFrames, hHb]
          exact hTaken (hAb.symm.trans hFalse)
        · intro hTrue
          change h2HeaderBlockCap < (assemble (received t.trace)).bytes.length
          rw [hFrames]
          exact hOver (hAb.symm.trans hTrue)
        · change (assemble (received t.trace)).goaway = _
          rw [hFrames]
          exact hGoaway
        · change (∀ b ∈ (assemble (received t.trace)).blocks, b.Taken) →
            t.hpack = decodeAll (assemble (received t.trace)).blocks
          rw [hFrames]
          exact hDecoded

theorem synced_of_other {c c' : H2Conn} {f : H2Frame} (h : Synced (headerView c))
    (hView : headerView c' = { headerView c with frames := (headerView c).frames ++ [f] })
    (hTake : (assemble (headerView c).frames).take f = assemble (headerView c).frames) : Synced
      (headerView c') := by
  have hFrames : assemble (headerView c').frames = assemble (headerView c).frames := by
    rw [hView]
    exact (assemble_append _ f).trans hTake
  obtain ⟨hStream, hBytes, hAbort, hGoaway, hDecoded⟩ := h
  rw [← hFrames] at hStream hBytes hAbort hGoaway hDecoded
  rw [hView] at hStream hBytes hAbort hGoaway hDecoded ⊢
  exact ⟨hStream, hBytes, hAbort, hGoaway, hDecoded⟩

theorem headerView_recv (c : H2Conn) (f : H2Frame) :
    headerView { c with trace := c.trace ++ [.recv f] } =
      { headerView c with frames := (headerView c).frames ++ [f] } := by
  simp only [headerView, received_recv]

theorem h2OnGoaway_synced {c c' : H2Conn} {f : H2Frame} (h : Synced (headerView c)) (hType : f.type = .goaway)
    (hc' : h2OnGoaway { c with trace := c.trace ++ [.recv f] } f = c') (hOk : c'.error = none) :
    Synced (headerView c') := by
  have hFrames : assemble (received (c.trace ++ [.recv f])) =
      { assemble (received c.trace) with goaway := some (rd32 f.payload % 2 ^ 31) } := by
    rw [received_recv, assemble_append, Assembly.take, hType]
  rw [h2OnGoaway] at hc'
  split at hc'
  · subst hc'
    exact absurd hOk (h2ConnError_error_ne_none _ _)
  · split at hc'
    · subst hc'
      exact absurd hOk (h2ConnError_error_ne_none _ _)
    · subst hc'
      obtain ⟨hStream, hBytes, hAbort, _, hDecoded⟩ := h
      refine ⟨?_, ?_, ?_, ?_, ?_⟩
      · change c.hbStream = (assemble (received (c.trace ++ [.recv f]))).stream
        rw [hFrames]
        exact hStream
      · change c.hbAbort = false → c.hb = (assemble (received (c.trace ++ [.recv f]))).bytes
        rw [hFrames]
        exact hBytes
      · change c.hbAbort = true → h2HeaderBlockCap < (assemble (received (c.trace ++ [.recv f]))).bytes.length
        rw [hFrames]
        exact hAbort
      · change (assemble (received (c.trace ++ [.recv f]))).goaway = some (rd32 f.payload % 2 ^ 31)
        rw [hFrames]
      · change (∀ b ∈ (assemble (received (c.trace ++ [.recv f]))).blocks, b.Taken) →
          c.hpack = decodeAll (assemble (received (c.trace ++ [.recv f]))).blocks
        rw [hFrames]
        exact hDecoded

theorem handled_synced {c c' : H2Conn} {f : H2Frame} (h : Synced (headerView c))
    (hc' : Handled env { c with trace := c.trace ++ [.recv f] } f c') (hOk : c'.error = none) :
    Synced (headerView c') := by
  have hFrames : assemble (received (c.trace ++ [.recv f])) = (assemble (received c.trace)).take f := by
    rw [received_recv, assemble_append]
  have hOther : ∀ {ks : List Kind}, Steps env ks { c with trace := c.trace ++ [.recv f] } c' →
    Kind.header ∉ ks →
      (assemble (received c.trace)).take f = assemble (received c.trace) → Synced (headerView c') :=
    fun hSteps hk hTake => synced_of_other h ((hSteps.headerView_eq hk).trans (headerView_recv c f)) hTake
  cases hc' with
  | data hType => exact hOther (h2OnData_steps _ f) (by simp) (by rw [Assembly.take, hType])
  | headers hType =>
    rw [Assembly.take, hType] at hFrames
    exact h2OnHeadersStart_synced rfl hOk hFrames h.goaway h.decoded
  | cont hType =>
    rw [Assembly.take, hType] at hFrames
    exact h2OnCont_synced rfl hOk hFrames h.bytes h.abort h.goaway h.decoded
  | priority hType => exact hOther (h2OnPriority_steps _ f) (by simp) (by rw [Assembly.take, hType])
  | rst hType => exact hOther (h2OnRst_steps _ f) (by simp) (by rw [Assembly.take, hType])
  | settings hType => exact hOther (h2OnSettings_steps _ f) (by simp) (by rw [Assembly.take, hType])
  | ping hType => exact hOther (h2OnPing_steps _ f) (by simp) (by rw [Assembly.take, hType])
  | goaway hType => exact h2OnGoaway_synced h hType rfl hOk
  | window hType => exact hOther (h2OnWindow_steps _ f) (by simp) (by rw [Assembly.take, hType])
  | unknown code hType => exact @hOther [] (Steps.refl _) (by simp) (by rw [Assembly.take, hType])

theorem synced_start {upgrade : Option HttpRequest} {c : H2Conn} (h : h2Start env upgrade = some c) :
    Synced (headerView c) := by
  have hInit : headerView (prologueStart env upgrade) = headerView h2Init := by
    obtain ⟨writes, events, hEq, hText⟩ := @prologueStart_eq env upgrade
    rw [hEq]
    simp only [headerView, received_text hText]
    rfl
  rw [(h2Start_steps h).headerView_eq (by simp), hInit]
  exact ⟨rfl, fun _ => rfl, fun hTrue => Bool.noConfusion hTrue, rfl, fun _ => rfl⟩

theorem headerView_settle (c : H2Conn) : headerView (settle env c) = headerView c :=
  (settle_steps c).headerView_eq (by simp)

theorem reachable_synced {c : H2Conn} (h : Reachable env c) (hOk : c.error = none) :
    Synced (headerView c) := by
  obtain ⟨upgrade, c₀, hStart, hRun⟩ := h
  refine (hRun.invariant (P := fun c => Synced (headerView c)) hStart (synced_start hStart) ?_ ?_ hOk).2
  · intro c _ _ hc
    rw [headerView_settle]
    exact hc
  · intro c c' f _ hc hHandled hNone
    exact handled_synced hc hHandled hNone

/-- The decoder has run over the completed blocks in the order they arrived. -/
theorem hpack_eq_decodeAll {c : H2Conn} (h : Reachable env c) (hOk : c.error = none)
    (hTaken : ∀ b ∈ (assemble (received c.trace)).blocks, b.Taken) :
    c.hpack = decodeAll (assemble (received c.trace)).blocks :=
  (reachable_synced h hOk).decoded hTaken

/-- A GET whose last field enters the dynamic table. -/
def indexedGet : H2Frame := ⟨.headers, 5, 1, [0x82, 0x86, 0x84, 0x40, 1, 97, 1, 98]⟩

def indexedRun : H2Conn := plainRun plainEnv [⟨.settings, 0, 0, []⟩, indexedGet]

theorem hpack_eq_decodeAll_indexed :
    indexedRun.hpack ≠ hpackInit ∧
      indexedRun.hpack = decodeAll (assemble (received indexedRun.trace)).blocks :=
  ⟨by decide +kernel,
    hpack_eq_decodeAll (reachable_plainRun plainEnv _) (by decide +kernel) (by decide +kernel)⟩

/-- The same request behind a GOAWAY is refused and its field never enters the
table. -/
theorem hpack_skips_refused_block :
    ∃ c, Reachable plainEnv c ∧ c.error = none ∧ c.hpack ≠ decodeAll (assemble (received c.trace)).blocks :=
  ⟨_, reachable_plainRun plainEnv
      [⟨.settings, 0, 0, []⟩, ⟨.goaway, 0, 0, [0, 0, 0, 0, 0, 0, 0, 0]⟩, indexedGet],
    by decide +kernel, by decide +kernel⟩

end Cweb.H2
