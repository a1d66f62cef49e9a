import Cweb.Http.Gzip
import Cweb.Http.H2
import Cweb.Http.HeaderAlgebra
import Cweb.Http.Middleware
import Cweb.Lib.Loop

/-!
# Gzip bodies

A request body is inflated in steps until it is as long as it may be. A response
body is deflated in one call, behind the handler, for clients that ask for it.
The library that does the work is a parameter, with what its manual says of it.
-/

namespace Cweb.GzipCodec

open Sv H2 Gzip Etag Middleware Loop

/-! ## The library -/

inductive InflateCode where
  | ok
  | streamEnd
  | bufError
  | other
deriving DecidableEq, Repr

/-- What a call of `inflate` comes to: how much input it took, and the output. -/
structure InflateCall (ζ : Type) where
  state : ζ
  used : Nat
  made : Bytes
  code : InflateCode

/-- `start` is a decoder for the gzip framing. `inflate` is given the input that is
at hand and the room for output; `deflate` is given all of its input. -/
structure Zlib (ζ : Type) where
  start : Option ζ
  inflate : ζ → Bytes → Nat → InflateCall ζ
  compressBound : Nat → Nat
  deflate : Bytes → Nat → Option Bytes
  crc32 : Bytes → Nat

variable {ζ : Type} {zl : Zlib ζ}

/-! ## Inflating -/

/-- `unread` is the input that the library was given and did not take, `later` what
it has not been given. -/
structure Inflating (ζ : Type) where
  z : ζ
  unread : Bytes
  later : Bytes
  out : Bytes
  room : Nat
  rc : Int

def Inflating.fresh (c : Inflating ζ) : Bytes := if c.unread = [] then c.later.take (2 ^ 30) else c.unread

def Inflating.call (zl : Zlib ζ) (c : Inflating ζ) : InflateCall ζ := zl.inflate c.z c.fresh c.room

/-- Behind the call. -/
def Inflating.called (zl : Zlib ζ) (c : Inflating ζ) : Inflating ζ :=
  { z := (c.call zl).state
    unread := c.fresh.drop (c.call zl).used
    later := if c.unread = [] then c.later.drop (2 ^ 30) else c.later
    out := c.out ++ (c.call zl).made
    room := c.room - (c.call zl).made.length
    rc := c.rc }

def inflateTurn (zl : Zlib ζ) (cap step : Nat) (c : Inflating ζ) : Turn (Inflating ζ) :=
  let code := (c.call zl).code
  let c := c.called zl
  if code = .streamEnd then .leave c
  else if code ≠ .ok ∧ code ≠ .bufError then .leave { c with rc := -1 }
  else if c.room = 0 then
    if cap ≤ c.out.length then .leave { c with rc := -2 }
    else .again { c with room := min (cap - c.out.length) step }
  else if c.unread = [] ∨ code = .bufError then .leave { c with rc := -1 }
  else .again c

def inflatingStart (src : Bytes) (cap : Nat) (z : ζ) : Inflating ζ := ⟨z, [], src, [], min cap 65536, 0⟩

def Inflating.result (c : Inflating ζ) : Inflated := if c.rc = -2 then .tooBig
    else if c.rc = -1 then .bad else .ok c.out

/-- The bound on the turns is never reached. -/
def httpGzipDecompress (zl : Zlib ζ) (src : Bytes) (cap : Nat) : Inflated :=
  if cap = 0 then .tooBig
  else
    match zl.start with
    | none => .bad
    | some z =>
      (run (inflateTurn zl cap (min cap 65536)) (src.length + cap + 1) (inflatingStart src cap z)).result

/-- A call stays within its input and its room, and one that says `ok` gets on. -/
structure Zlib.Fair (zl : Zlib ζ) : Prop where
  used : ∀ z unread room, (zl.inflate z unread room).used ≤ unread.length
  made : ∀ z unread room, (zl.inflate z unread room).made.length ≤ room
  progress : ∀ z unread room, (zl.inflate z unread room).code = .ok →
    0 < (zl.inflate z unread room).used ∨ 0 < (zl.inflate z unread room).made.length

/-- `R z input rest` is a decoder with a whole stream in front of it that still
gives `rest`. A call gives as much of that as there is room for. -/
structure Zlib.Streams (zl : Zlib ζ) (R : ζ → Bytes → Bytes → Prop) : Prop where
  made : ∀ z input rest room, R z input rest → 0 < room → (zl.inflate z input room).made = rest.take room
  goesOn : ∀ z input rest room, R z input rest → 0 < room →
    ((zl.inflate z input room).code = .streamEnd ∧ rest.length ≤ room) ∨
      ((zl.inflate z input room).code = .ok ∨ (zl.inflate z input room).code = .bufError) ∧
      room ≤ rest.length ∧
        R (zl.inflate z input room).state (input.drop (zl.inflate z input room).used) (rest.drop room)

variable {cap step : Nat} {c c' : Inflating ζ}

theorem inflateTurn_again (h : inflateTurn zl cap step c = .again c') :
    ((c.called zl).room = 0 ∧ (c.called zl).out.length < cap ∧
      c' = { c.called zl with room := min (cap - (c.called zl).out.length) step }) ∨
      ((c.called zl).room ≠ 0 ∧ (c.call zl).code = .ok ∧ c' = c.called zl) := by
  simp only [inflateTurn] at h
  split at h
  · cases h
  · split at h
    · cases h
    · next hEnd hCode =>
      split at h
      · next hFull =>
        split at h
        · cases h
        · next hBelow => exact .inl ⟨hFull, not_le.mp hBelow, (Turn.again.inj h).symm⟩
      · next hRoom =>
        split at h
        · cases h
        · next hMore =>
          rw [not_or] at hMore
          refine .inr ⟨hRoom, ?_, (Turn.again.inj h).symm⟩
          rw [not_and_or, not_not, not_not] at hCode
          exact hCode.resolve_right hMore.2

theorem inflateTurn_leave (h : inflateTurn zl cap step c = .leave c') :
    (c' = c.called zl ∧ (c.call zl).code = .streamEnd) ∨ c' = { c.called zl with rc := -1 } ∨
      c' = { c.called zl with rc := -2 } := by
  simp only [inflateTurn] at h
  split at h
  · next hEnd => exact .inl ⟨(Turn.leave.inj h).symm, hEnd⟩
  · split at h
    · exact .inr (.inl (Turn.leave.inj h).symm)
    · split at h
      · split at h
        · exact .inr (.inr (Turn.leave.inj h).symm)
        · cases h
      · split at h
        · exact .inr (.inl (Turn.leave.inj h).symm)
        · cases h

/-- The output and the room for more of it never come to more than the ceiling. -/
structure Within (cap : Nat) (c : Inflating ζ) : Prop where
  room : 0 < c.room
  memory : c.out.length + c.room ≤ cap
  fine : c.rc = 0

theorem Within.called (hFair : zl.Fair) (h : Within cap c) :
    (c.called zl).out.length = c.out.length + (c.call zl).made.length ∧
      (c.called zl).out.length + (c.called zl).room ≤ cap ∧
      (c.call zl).made.length ≤ c.room ∧ (c.called zl).rc = 0 := by
  have hMade : (c.call zl).made.length ≤ c.room := hFair.made _ _ _
  have hMemory := h.memory
  refine ⟨List.length_append, ?_, hMade, h.fine⟩
  rw [Inflating.called, List.length_append]
  dsimp only
  omega

theorem Within.again (hFair : zl.Fair) (hStep : 0 < step) (h : Within cap c)
    (hTurn : inflateTurn zl cap step c = .again c') : Within cap c' := by
  obtain ⟨-, hMemory, -, hFine⟩ := h.called hFair
  obtain ⟨-, hBelow, rfl⟩ | ⟨hRoom, -, rfl⟩ := inflateTurn_again hTurn
  · exact ⟨by dsimp only; omega, by dsimp only; omega, hFine⟩
  · exact ⟨Nat.pos_of_ne_zero hRoom, hMemory, hFine⟩

/-- The input that is left, and how far the output is from the ceiling. -/
def ahead (cap : Nat) (c : Inflating ζ) : Nat := c.unread.length + c.later.length + (cap - c.out.length)

theorem ahead_again (hFair : zl.Fair) (h : Within cap c)
    (hTurn : inflateTurn zl cap step c = .again c') : ahead cap c' < ahead cap c := by
  obtain ⟨hOut, hMemory, hMade, -⟩ := h.called hFair
  have hUsed : (c.call zl).used ≤ c.fresh.length := hFair.used _ _ _
  have hRoom := h.room
  have hBefore := h.memory
  have hInput : (c.called zl).unread.length + (c.called zl).later.length +
    (c.call zl).used = c.unread.length + c.later.length := by
    rw [Inflating.called, List.length_drop]
    dsimp only
    rw [Inflating.fresh] at hUsed ⊢
    split at hUsed
    · next hNone =>
      rw [if_pos hNone, if_pos hNone, hNone, List.length_drop, List.length_nil]
      rw [List.length_take] at hUsed ⊢
      omega
    · next hSome =>
      rw [if_neg hSome, if_neg hSome]
      omega
  have hGain : 0 < (c.call zl).used ∨ 0 < (c.call zl).made.length := by
    obtain ⟨hFull, -⟩ | ⟨-, hCode, -⟩ := inflateTurn_again hTurn
    · right
      rw [Inflating.called] at hFull
      dsimp only at hFull
      omega
    · exact hFair.progress _ _ _ hCode
  have hAhead : ahead cap c' = ahead cap (c.called zl) := by
    obtain ⟨-, -, rfl⟩ | ⟨-, -, rfl⟩ := inflateTurn_again hTurn
    · rfl
    · rfl
  rw [hAhead, ahead, ahead, hOut]
  omega

/-- The decoder stands somewhere in a whole stream. -/
structure Holds (R : ζ → Bytes → Bytes → Prop) (content : Bytes) (c : Inflating ζ) (rest : Bytes) : Prop where
  stream : R c.z c.fresh rest
  sofar : c.out ++ rest = content
  given : c.unread = [] → c.later.length ≤ 2 ^ 30
  once : c.unread ≠ [] → c.later = []

theorem Holds.called {R : ζ → Bytes → Bytes → Prop} (hR : zl.Streams R) {content rest : Bytes}
    (hRoom : 0 < c.room) (h : Holds R content c rest) :
    ((c.call zl).code = .streamEnd ∧ (c.called zl).out = content) ∨
      ((c.call zl).code = .ok ∨ (c.call zl).code = .bufError) ∧ (c.called zl).room = 0 ∧
        ∀ room, Holds R content { c.called zl with room := room } (rest.drop c.room) := by
  have hMade : (c.call zl).made = rest.take c.room := hR.made _ _ _ _ h.stream hRoom
  obtain ⟨hEnd, hLast⟩ | ⟨hCode, hMore, hNext⟩ := hR.goesOn _ _ _ _ h.stream hRoom
  · refine .inl ⟨hEnd, ?_⟩
    rw [Inflating.called]
    dsimp only
    rw [hMade, List.take_of_length_le hLast]
    exact h.sofar
  · refine .inr ⟨hCode, ?_, fun room => ?_⟩
    · rw [Inflating.called]
      dsimp only
      rw [hMade, List.length_take, Nat.min_eq_left hMore, Nat.sub_self]
    · have hLater : (c.called zl).later = [] := by
        rw [Inflating.called]
        dsimp only
        split
        · next hNone => exact List.drop_eq_nil_of_le (h.given hNone)
        · next hSome => exact h.once hSome
      have hFresh : ({ c.called zl with room := room } : Inflating ζ).fresh = (c.called zl).unread := by
        rw [Inflating.fresh]
        dsimp only
        split
        · next hNone => rw [hLater, hNone, List.take_nil]
        · rfl
      refine ⟨?_, ?_, fun _ => ?_, fun _ => hLater⟩
      · rw [hFresh]
        exact hNext
      · have hOut : (c.called zl).out = c.out ++ rest.take c.room := congrArg (c.out ++ ·) hMade
        dsimp only
        rw [hOut, List.append_assoc, List.take_append_drop]
        exact h.sofar
      · dsimp only
        rw [hLater]
        exact Nat.zero_le _

/-- From a place in a whole stream the loop is left with the content, or because
there is more of it than is allowed. At the ceiling itself the library decides. -/
theorem inflate_ends {R : ζ → Bytes → Bytes → Prop} (hFair : zl.Fair) (hR : zl.Streams R)
    (hStep : 0 < step) {content : Bytes} {c c' : Inflating ζ}
    (hWithin : Within cap c) {rest : Bytes} (h : Holds R content c rest)
    (hEnds : Ends (inflateTurn zl cap step) c c') :
    (c'.rc = 0 ∧ c'.out = content ∧ content.length ≤ cap) ∨ (c'.rc = -2 ∧ cap ≤ content.length) := by
  obtain ⟨last, hVisits, hLeave⟩ := hEnds
  have hKept : Within cap last ∧ ∃ rest, Holds R content last rest := by
    refine hVisits.invariant (P := fun c => Within cap c ∧ ∃ rest, Holds R content c rest)
      ⟨hWithin, rest, h⟩ ?_
    rintro c₁ c₂ - ⟨hWithin₁, rest₁, h₁⟩ hTurn
    refine ⟨hWithin₁.again hFair hStep hTurn, rest₁.drop c₁.room, ?_⟩
    obtain ⟨hEnd, -⟩ | ⟨-, hFull, hNext⟩ := h₁.called hR hWithin₁.room
    · simp [inflateTurn, hEnd] at hTurn
    · obtain ⟨-, -, rfl⟩ | ⟨hRoom, -, -⟩ := inflateTurn_again hTurn
      · exact hNext _
      · exact absurd hFull hRoom
  obtain ⟨hWithin', rest', h'⟩ := hKept
  obtain ⟨hOut, hMemory, -, hFine⟩ := hWithin'.called hFair
  obtain ⟨hEnd, hAll⟩ | ⟨hCode, hFull, hNext⟩ := h'.called hR hWithin'.room
  · simp only [inflateTurn, hEnd, if_true] at hLeave
    obtain rfl := Turn.leave.inj hLeave
    exact .inl ⟨hFine, hAll, by rw [← hAll]; omega⟩
  · have hNotEnd : (last.call zl).code ≠ .streamEnd := by
      rintro hEnd
      rw [hEnd] at hCode
      rcases hCode with hCode | hCode
      · cases hCode
      · cases hCode
    simp only [inflateTurn] at hLeave
    rw [if_neg hNotEnd, if_neg (by rw [not_and_or, not_not, not_not]; exact hCode), if_pos hFull] at hLeave
    split at hLeave
    · next hCeiling =>
      obtain rfl := Turn.leave.inj hLeave
      refine .inr ⟨rfl, ?_⟩
      have hLength := congrArg List.length (hNext 0).sofar
      rw [List.length_append] at hLength
      dsimp only at hLength
      omega
    · cases hLeave

theorem within_start (src : Bytes) {cap : Nat} (hCap : 0 < cap) (z : ζ) :
    Within cap (inflatingStart src cap z) where
  room := lt_min hCap (by decide)
  memory := by
    rw [inflatingStart, List.length_nil, Nat.zero_add]
    exact Nat.min_le_left _ _
  fine := rfl

theorem decompress_ends (hFair : zl.Fair) (src : Bytes) {cap : Nat} (hCap : 0 < cap) {z : ζ}
    (hStart : zl.start = some z) :
    ∃ c, Ends (inflateTurn zl cap (min cap 65536)) (inflatingStart src cap z) c ∧
      httpGzipDecompress zl src cap = c.result := by
  have hStep : 0 < min cap 65536 := lt_min hCap (by decide)
  refine ⟨_, ends_run (ahead cap) (src.length + cap + 1) _ ?_ ?_, ?_⟩
  · intro c c' hVisits hTurn
    have hWithin := hVisits.invariant (within_start src hCap z) fun _ _ _ h hBody => h.again hFair hStep hBody
    exact ahead_again hFair hWithin hTurn
  · rw [ahead, inflatingStart]
    simp
  · rw [httpGzipDecompress, if_neg hCap.ne', hStart]

theorem le_ceiling (hFair : zl.Fair) (src : Bytes) {cap : Nat} {out : Bytes}
    (h : httpGzipDecompress zl src cap = .ok out) : out.length ≤ cap := by
  rcases Nat.eq_zero_or_pos cap with rfl | hCap
  · rw [httpGzipDecompress, if_pos rfl] at h
    cases h
  · cases hStart : zl.start with
    | none =>
      rw [httpGzipDecompress, if_neg hCap.ne', hStart] at h
      cases h
    | some z =>
      obtain ⟨c, ⟨last, hVisits, hLeave⟩, hResult⟩ := decompress_ends hFair src hCap hStart
      have hStep : 0 < min cap 65536 := lt_min hCap (by decide)
      have hWithin := hVisits.invariant (within_start src hCap z) fun _ _ _ h hBody =>
        h.again hFair hStep hBody
      obtain ⟨-, hMemory, -, -⟩ := hWithin.called hFair
      have hOut : c.out = (last.called zl).out := by
        obtain ⟨rfl, -⟩ | rfl | rfl := inflateTurn_leave hLeave
        · rfl
        · rfl
        · rfl
      rw [hResult, Inflating.result] at h
      split at h
      · cases h
      · split at h
        · cases h
        · rw [← Inflated.ok.inj h, hOut]
          omega

/-- Whatever the library does within its manual: inflating ends, its output and the
room for more never exceed the ceiling, and a whole stream of at most 2^30 bytes
gives its content when that is shorter than the ceiling, and is refused as too big
when it is longer. -/
theorem decompress_exact (hFair : zl.Fair) (src : Bytes) (cap : Nat) :
    (∀ z c, 0 < cap → zl.start = some z →
      Visits (inflateTurn zl cap (min cap 65536)) (inflatingStart src cap z) c →
        c.out.length + c.room ≤ cap) ∧
    (∀ z, 0 < cap → zl.start = some z →
      ∃ c, Ends (inflateTurn zl cap (min cap 65536)) (inflatingStart src cap z) c ∧
        httpGzipDecompress zl src cap = c.result) ∧
    (∀ out, httpGzipDecompress zl src cap = .ok out → out.length ≤ cap) ∧
    ∀ R z content, zl.Streams R → zl.start = some z → R z src content → src.length ≤ 2 ^ 30 →
      (content.length < cap → httpGzipDecompress zl src cap = .ok content) ∧
        (cap < content.length → httpGzipDecompress zl src cap = .tooBig) := by
  refine ⟨?_, fun z hCap hStart => decompress_ends hFair src hCap hStart, fun out h =>
    le_ceiling hFair src h, ?_⟩
  · intro z c hCap hStart hVisits
    have hStep : 0 < min cap 65536 := lt_min hCap (by decide)
    exact (hVisits.invariant (within_start src hCap z) fun _ _ _ h hBody => h.again hFair hStep hBody).memory
  · intro R z content hR hStart hStream hShort
    rcases Nat.eq_zero_or_pos cap with rfl | hCap
    · refine ⟨fun h => absurd h (Nat.not_lt_zero _), fun _ => ?_⟩
      rw [httpGzipDecompress, if_pos rfl]
    · obtain ⟨c, hEnds, hResult⟩ := decompress_ends hFair src hCap hStart
      have hHolds : Holds R content (inflatingStart src cap z) content := by
        refine ⟨?_, List.nil_append _, fun _ => hShort, fun hSome => absurd rfl hSome⟩
        rw [Inflating.fresh, inflatingStart, if_pos rfl, List.take_of_length_le hShort]
        exact hStream
      have hCases := inflate_ends hFair hR (lt_min hCap (by decide)) (within_start src hCap z) hHolds hEnds
      constructor
      · intro hLess
        obtain ⟨hFine, hOut, -⟩ | ⟨-, hMore⟩ := hCases
        · rw [hResult, Inflating.result, hFine, hOut]
          rfl
        · omega
      · intro hMore
        obtain ⟨-, -, hLess⟩ | ⟨hBig, -⟩ := hCases
        · omega
        · rw [hResult, Inflating.result, if_pos hBig]

/-! ## Deflating -/

def gzipHead : Bytes := [0x1f, 0x8b, 0x08, 0x00, 0x00, 0x00, 0x00, 0x00, 0x02, 0xff]

def le32 (n : Nat) : Bytes :=
  [UInt8.ofNat n, UInt8.ofNat (n / 2 ^ 8), UInt8.ofNat (n / 2 ^ 16), UInt8.ofNat (n / 2 ^ 24)]

/-- The library counts in 32 bits. -/
def httpGzipCompress (zl : Zlib ζ) (src : Bytes) : Option Bytes :=
  let seen := src.take (src.length % 2 ^ 32)
  (zl.deflate seen (zl.compressBound src.length % 2 ^ 32)).map fun raw => gzipHead ++ raw ++
    (le32 (zl.crc32 seen) ++ le32 src.length)

structure HttpGzipOpts where
  minBytes : Nat
  types : Option Bytes
deriving DecidableEq, Repr

def defaultTypes : Bytes :=
  ascii ("text/html text/css text/plain text/xml text/javascript " ++
    "application/javascript application/json application/xml application/xhtml+xml")

/-- A type starts with one of the words of the list. -/
def typeIsCompressible (ctype : Option Bytes) (opts : Option HttpGzipOpts) : Bool :=
  match ctype with
  | none => false
  | some ctype => (svSplit 32 (svFromCstr ((opts.bind HttpGzipOpts.types).getD defaultTypes))).any
    fun word => word ≠ [] && svStartsWith ctype word

def minBytes (opts : Option HttpGzipOpts) : Nat :=
  match opts with
  | some opts => if opts.minBytes ≠ 0 then opts.minBytes else 1024
  | none => 1024

def contentEncoding : Bytes := ascii "Content-Encoding"

/-- A callback keeps the body from being gzipped, queued chunks do not. -/
def gzipResponse (zl : Zlib ζ) (opts : Option HttpGzipOpts) (req : HttpRequest) (res : HttpResponse) :
    HttpResponse :=
  if res.streamFn.isSome ∨ res.suppressBody ∨ res.body = [] then res
  else if res.status ≠ 200 then res
  else if clientWantsGzip req = false then res
  else if responseHasHeader res.headers contentEncoding then res
  else if typeIsCompressible (getHeaderScan res.headers (ascii "Content-Type")) opts = false then res
  else if res.body.length < minBytes opts then res
  else
    match httpGzipCompress zl res.body with
    | none => res
    | some gz =>
      ({ res with body := gz }.apply (.setHeader contentEncoding (ascii "gzip"))).apply
        (.appendHeader (ascii "Vary") (ascii "Accept-Encoding"))

def httpGzipMiddleware {ω : Type} (zl : Zlib ζ) (opts : Option HttpGzipOpts) :
    HttpMiddlewareFn (Exchange ω) := fun next x =>
  (next x).map fun x => x.respond (gzipResponse zl opts x.req.toHttpRequest x.res)

/-! ## What a client gets -/

/-- What is sent of a response without a callback. -/
def entity (res : HttpResponse) : Bytes := if res.streamChunks = [] then res.body
    else res.streamChunks.flatten

/-- What a client makes of a response that undoes the encoding it is told. -/
def clientBody (gunzip : Bytes → Option Bytes) (res : HttpResponse) : Option Bytes :=
  match httpResponseGetHeader res.headers contentEncoding with
  | some coding => if svIeq coding (ascii "gzip") then gunzip (entity res) else some (entity res)
  | none => some (entity res)

/-- A client's inflater takes what the library deflates, in its frame. -/
def Undoes (zl : Zlib ζ) (gunzip : Bytes → Option Bytes) : Prop :=
  ∀ text room raw, zl.deflate text room = some raw → text.length < 2 ^ 32 →
    gunzip (gzipHead ++ raw ++ (le32 (zl.crc32 text) ++ le32 text.length)) = some text

theorem gzipResponse_cases (zl : Zlib ζ) (opts : Option HttpGzipOpts) (req : HttpRequest)
    (res : HttpResponse) :
    gzipResponse zl opts req res = res ∨
      (clientWantsGzip req = true ∧ res.status = 200 ∧ responseHasHeader res.headers contentEncoding = false ∧
        ∃ gz, httpGzipCompress zl res.body = some gz ∧ gzipResponse zl opts req res =
          ({ res with body := gz }.apply (.setHeader contentEncoding (ascii "gzip"))).apply
            (.appendHeader (ascii "Vary") (ascii "Accept-Encoding"))) := by
  rw [gzipResponse]
  split
  · exact .inl rfl
  · split
    · exact .inl rfl
    · next hStatus =>
      split
      · exact .inl rfl
      · next hWants =>
        split
        · exact .inl rfl
        · next hPlain =>
          split
          · exact .inl rfl
          · split
            · exact .inl rfl
            · split
              · exact .inl rfl
              · next gz hGz =>
                exact .inr ⟨Bool.eq_true_of_not_eq_false hWants, not_not.mp hStatus,
                  Bool.eq_false_of_not_eq_true hPlain, gz, hGz, rfl⟩

theorem le32_mod (n : Nat) : le32 (n % 2 ^ 32) = le32 n := by
  have hByte : ∀ k, k ≤ 24 → UInt8.ofNat (n % 2 ^ 32 / 2 ^ k) = UInt8.ofNat (n / 2 ^ k) := by
    intro k hk
    apply UInt8.toNat_inj.mp
    rw [UInt8.toNat_ofNat', UInt8.toNat_ofNat']
    have hSplit : (2 : Nat) ^ 32 = 2 ^ k * 2 ^ (32 - k) := by rw [← pow_add, Nat.add_sub_cancel' (by omega)]
    have hEight : (2 : Nat) ^ (32 - k) = 2 ^ 8 * 2 ^ (24 - k) := by
      rw [← pow_add]
      congr 1
      omega
    rw [hSplit, Nat.mod_mul_right_div_self, hEight, Nat.mod_mul_right_mod]
  rw [le32, le32, hByte 8 (by omega), hByte 16 (by omega), hByte 24 (by omega)]
  have hLow := hByte 0 (by omega)
  rw [pow_zero, Nat.div_one, Nat.div_one] at hLow
  rw [hLow]

theorem compress_undone {gunzip : Bytes → Option Bytes} (hUndoes : Undoes zl gunzip) {src gz : Bytes}
    (h : httpGzipCompress zl src = some gz) :
    gunzip gz = some (src.take (src.length % 2 ^ 32)) := by
  obtain ⟨raw, hRaw, rfl⟩ := Option.map_eq_some_iff.mp h
  have hLess : src.length % 2 ^ 32 < 2 ^ 32 := Nat.mod_lt _ (by norm_num)
  have hLength : (src.take (src.length % 2 ^ 32)).length = src.length % 2 ^ 32 := by
    rw [List.length_take]
    exact Nat.min_eq_left (Nat.mod_le _ _)
  have hFrame := hUndoes _ _ raw hRaw (by rw [hLength]; exact hLess)
  rwa [hLength, le32_mod] at hFrame

theorem setHeader_absent {headers name : Bytes} (h : responseHasHeader headers name = false) (value : Bytes) :
    responseEmitHeader headers name value true = headers ++ headerLine name value := by
  rw [responseHasHeader_eq, List.any_eq_false] at h
  have hKeep : ∀ line ∈ headerLinesOf headers, (!lineNamed name line) = true := by
    intro line hLine
    rw [Bool.not_eq_true']
    exact Bool.eq_false_of_not_eq_true (h line hLine)
  have hNone : (headerLinesOf headers).find? (lineNamed name) = none := List.find?_eq_none.mpr h
  rw [responseEmitHeader, if_neg (by decide)]
  dsimp only
  rw [hNone, List.filter_eq_self.mpr hKeep, flatten_headerLinesOf]
  rfl

/-- A response leaves the middleware as it is, or gzipped for a client that asked
for that, with two lines more. What such a client gets out of it is what the handler
wrote, as long as that is shorter than 2^32 bytes. Queued chunks go out as they are,
whatever the lines say. -/
theorem gzip_transparent {gunzip : Bytes → Option Bytes} (hUndoes : Undoes zl gunzip)
    (opts : Option HttpGzipOpts) (req : HttpRequest)
    {res : HttpResponse} (hMade : MadeOf FieldOk res.headers) :
    let sent := gzipResponse zl opts req res
    (sent ≠ res → clientWantsGzip req = true ∧ sent.status = 200 ∧ clientBody gunzip res = some (entity res) ∧
      sent.headers = res.headers ++ headerLine contentEncoding (ascii "gzip") ++
      headerLine (ascii "Vary") (ascii "Accept-Encoding")) ∧
    (res.streamChunks = [] →
      (clientBody gunzip sent = clientBody gunzip res ↔ sent = res ∨ res.body.length < 2 ^ 32)) ∧
    (res.streamChunks ≠ [] → sent ≠ res → clientBody gunzip sent = gunzip res.streamChunks.flatten) := by
  intro sent
  obtain hSame | ⟨hWants, hStatus, hPlain, gz, hGz, hSent⟩ := gzipResponse_cases zl opts req res
  · exact ⟨fun hNe => absurd hSame hNe, fun _ => iff_of_true (by rw [show sent = res from hSame])
      (.inl hSame),
      fun _ hNe => absurd hSame hNe⟩
  · obtain ⟨fields, hFields, hText⟩ := hMade
    have hHeaders : sent.headers = res.headers ++ headerLine contentEncoding (ascii "gzip") ++
      headerLine (ascii "Vary") (ascii "Accept-Encoding") := by
      rw [show sent = _ from hSent, HttpResponse.apply, HttpResponse.apply]
      dsimp only
      rw [setHeader_absent hPlain]
      rfl
    have hBefore : httpResponseGetHeader res.headers contentEncoding = none := by
      rw [← Option.isNone_iff_eq_none, ← getHeaderScan_eq]
      have hAgree := @agree_fieldsText fields contentEncoding hFields (by decide)
      rw [← hText] at hAgree
      rw [← Option.not_isSome, hAgree.getter, ← hAgree.response, hPlain]
      rfl
    have hCoding : httpResponseGetHeader sent.headers contentEncoding = some (ascii "gzip") := by
      have hAll : ∀ f ∈ fields ++
        [⟨contentEncoding, ascii "gzip"⟩, ⟨ascii "Vary", ascii "Accept-Encoding"⟩], FieldOk f := by
        intro f hf
        rcases List.mem_append.mp hf with hf | hf
        · exact hFields f hf
        · simp only [List.mem_cons, List.not_mem_nil, or_false] at hf
          rcases hf with rfl | rfl
          · exact ⟨by decide, by decide, by decide, by decide, by decide⟩
          · exact ⟨by decide, by decide, by decide, by decide, by decide⟩
      have hFind : fields.find? (fun f => svIeq f.key contentEncoding) = none := by
        rw [hText, getHeader_fieldsText hFields (by decide)] at hBefore
        exact Option.map_eq_none_iff.mp hBefore
      have hSplit : sent.headers = fieldsText
        (fields ++ [⟨contentEncoding, ascii "gzip"⟩, ⟨ascii "Vary", ascii "Accept-Encoding"⟩]) := by
        rw [hHeaders, hText, fieldsText_append, List.append_assoc]
        rfl
      rw [hSplit, getHeader_fieldsText hAll (by decide), List.find?_append, hFind]
      rfl
    have hBody : sent.body = gz := by
      rw [show sent = _ from hSent]
      rfl
    have hQueue : sent.streamChunks = res.streamChunks := by
      rw [show sent = _ from hSent]
      rfl
    have hOwn : clientBody gunzip res = some (entity res) := by rw [clientBody, hBefore]
    have hTheirs : clientBody gunzip sent = gunzip (entity sent) := by
      rw [clientBody, hCoding]
      exact if_pos (by decide)
    refine ⟨fun _ => ⟨hWants, ?_, hOwn, hHeaders⟩, ?_, ?_⟩
    · rw [show sent = _ from hSent]
      exact hStatus
    · intro hNone
      have hEntity : entity sent = gz := by rw [entity, hQueue, if_pos hNone, hBody]
      have hPlainEntity : entity res = res.body := if_pos hNone
      rw [hTheirs, hEntity, compress_undone hUndoes hGz, hOwn, hPlainEntity, Option.some_inj]
      constructor
      · intro hTake
        right
        have hLength := congrArg List.length hTake
        rw [List.length_take] at hLength
        have hLess : res.body.length % 2 ^ 32 < 2 ^ 32 := Nat.mod_lt _ (by norm_num)
        omega
      · rintro (hSame | hShort)
        · exfalso
          have hLengths := congrArg List.length (congrArg HttpResponse.headers hSame)
          rw [hHeaders, List.length_append, List.length_append] at hLengths
          have hLine : (headerLine contentEncoding (ascii "gzip")).length = 24 := by decide
          omega
        · rw [Nat.mod_eq_of_lt hShort, List.take_length]
    · intro hSome _
      rw [hTheirs, entity, hQueue, if_neg hSome]

/-! ## One stream -/

def helloText : Bytes := ascii "hello"

def helloRaw : Bytes := [203, 72, 205, 201, 201, 7, 0]

def helloStream : Bytes := gzipHead ++ helloRaw ++ ([134, 166, 16, 54] ++ [5, 0, 0, 0])

/-- A library that knows one text. Its decoder counts what it gave of it. -/
def helloZlib : Zlib Nat where
  start := some 0
  inflate n input room :=
    let made := (helloText.drop n).take room
    if n = 0 ∧ input ≠ helloStream then ⟨n, 0, [], .other⟩
    else if helloText.length ≤ n + room then ⟨n + made.length, input.length, made, .streamEnd⟩
    else if input = [] ∧ made = [] then ⟨n, 0, [], .bufError⟩
    else ⟨n + made.length, input.length, made, .ok⟩
  compressBound n := n + 13
  deflate text _ := if text = helloText then some helloRaw else none
  crc32 _ := 907060870

/-- The decoder has given some of the text, and was shown the stream for it. -/
def HelloAt (n : Nat) (input rest : Bytes) : Prop := rest = helloText.drop n ∧ (n = 0 → input = helloStream)

theorem helloZlib_fair : helloZlib.Fair where
  used n input room := by
    simp only [helloZlib]
    split
    · exact Nat.zero_le _
    · split
      · exact Nat.le_refl _
      · split
        · exact Nat.zero_le _
        · exact Nat.le_refl _
  made n input room := by
    simp only [helloZlib]
    split
    · exact Nat.zero_le _
    · split
      · exact List.length_take_le _ _
      · split
        · exact Nat.zero_le _
        · exact List.length_take_le _ _
  progress n input room h := by
    simp only [helloZlib] at h ⊢
    split at h
    · cases h
    · next hShown =>
      rw [if_neg hShown]
      split at h
      · cases h
      · next hMore =>
        rw [if_neg hMore]
        split at h
        · cases h
        · next hSome =>
          rw [if_neg hSome]
          rw [not_and_or] at hSome
          rcases hSome with hInput | hMade
          · exact .inl (List.length_pos_of_ne_nil hInput)
          · exact .inr (List.length_pos_of_ne_nil hMade)

theorem helloZlib_streams : helloZlib.Streams HelloAt where
  made n input rest room h hRoom := by
    obtain ⟨rfl, hShown⟩ := h
    simp only [helloZlib]
    rw [if_neg fun hOther => hOther.2 (hShown hOther.1)]
    split
    · rfl
    · split
      · next hNone => exact hNone.2.symm
      · rfl
  goesOn n input rest room h hRoom := by
    obtain ⟨rfl, hShown⟩ := h
    simp only [helloZlib]
    rw [if_neg fun hOther => hOther.2 (hShown hOther.1)]
    split
    · next hLast => exact .inl ⟨rfl, by rw [List.length_drop]; omega⟩
    · next hMore =>
      have hMade : ((helloText.drop n).take room).length = room := by
        rw [List.length_take, List.length_drop]
        omega
      right
      split
      · next hNone =>
        rw [hNone.2, List.length_nil] at hMade
        omega
      · refine ⟨.inl rfl, by rw [List.length_drop]; omega, ?_, ?_⟩
        · rw [hMade, List.drop_drop]
        · intro hZero
          have hNone : n + ((helloText.drop n).take room).length = 0 := hZero
          omega

theorem decompress_exact_hello : httpGzipDecompress helloZlib helloStream 6 = .ok helloText ∧
    httpGzipDecompress helloZlib helloStream 4 = .tooBig := by
  have h :=
    fun cap =>
      (decompress_exact helloZlib_fair helloStream cap).2.2.2 HelloAt 0 helloText helloZlib_streams rfl
        ⟨rfl, fun _ => rfl⟩ (by decide)
  exact ⟨(h 6).1 (by decide), (h 4).2 (by decide)⟩

def helloRequest : HttpRequest :=
  { emptyRequest with headers := [⟨ascii "Accept-Encoding", ascii "br, gzip"⟩] }

def helloResponse : HttpResponse :=
  buildResponse [.setHeader (ascii "Content-Type") (ascii "text/plain"), .addBody helloText]

def helloGunzip (gz : Bytes) : Option Bytes := if gz = helloStream then some helloText else none

theorem helloZlib_undone : Undoes helloZlib helloGunzip := by
  intro text room raw hRaw _
  simp only [helloZlib] at hRaw
  split at hRaw
  · next hText =>
    obtain rfl := Option.some.inj hRaw
    rw [hText]
    decide
  · cases hRaw

theorem gzip_transparent_hello :
    clientBody helloGunzip (gzipResponse helloZlib (some ⟨1, none⟩) helloRequest helloResponse) =
      clientBody helloGunzip helloResponse := by
  have hMade : MadeOf FieldOk helloResponse.headers :=
    ⟨[⟨ascii "Content-Type", ascii "text/plain"⟩], fun f hf => by
      rw [List.mem_singleton.mp hf]
      exact ⟨by decide, by decide, by decide, by decide, by decide⟩, by decide⟩
  exact ((gzip_transparent helloZlib_undone (some ⟨1, none⟩) helloRequest hMade).2.1 rfl).mpr
    (.inr (by decide))

end Cweb.GzipCodec
