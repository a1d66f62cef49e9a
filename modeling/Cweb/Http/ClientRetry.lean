import Cweb.Http.HttpClient
import Cweb.Http.ChunkSplits

/-!
# How often a request is written

A request goes out once, and once more on a new connection when the kept one
turns out to be dead. Whether anything came back is noted while the head is
read and not afterwards, so that a response whose head was in the read-ahead
buffer already counts as unanswered however much of its body arrives.
-/

namespace Cweb.HttpClient

/-! ## What the socket delivers -/

def Recv.bytes : Recv → Bytes
  | .data bytes => bytes.take 8192
  | _ => []

/-- The bytes that came while the outcomes went from `before` to `after`. -/
def received (before after : List Recv) : Bytes :=
  (before.take (before.length - after.length)).flatMap Recv.bytes

def Arrives : List Recv → Prop
  | .data piece :: _ => piece ≠ []
  | _ => False

@[simp]
theorem received_self (recvs : List Recv) : received recvs recvs = [] := by
  rw [received, Nat.sub_self]
  rfl

theorem received_cons (r : Recv) (recvs : List Recv) : received (r :: recvs) recvs = r.bytes := by
  rw [received, List.length_cons, Nat.add_sub_cancel_left]
  simp

theorem received_ne_nil {piece : Bytes} (hPiece : piece ≠ []) {recvs after : List Recv}
    (h : after <:+ recvs) :
    received (.data piece :: recvs) after ≠ [] := by
  have hLength := h.length_le
  have hTake : List.length recvs + 1 - after.length = recvs.length - after.length + 1 := by omega
  rw [received, List.length_cons, hTake, List.take_succ_cons, List.flatMap_cons]
  rcases piece with _ | ⟨b, piece⟩
  · exact absurd rfl hPiece
  · exact List.cons_ne_nil b _

theorem suffix_refilling (stamp : Stamp) : Refilling stamp fun w w' => w'.recvs <:+ w.recvs where
  refl w := List.suffix_refl w.recvs
  trans h h' := h'.trans h
  refill w := by
    rw [refill]
    rcases w with ⟨rbuf, _ | ⟨r, recvs⟩⟩
    · exact List.suffix_refl _
    · cases r with
      | data piece =>
        dsimp only
        split <;> exact List.suffix_cons _ _
      | _ => exact List.suffix_cons _ _

/-! ## How a body breaks off -/

inductive Framing where
  | chunked
  | counted (cl : Nat)
  | toClose
deriving DecidableEq, Repr

/-- How the body behind a head is framed, `none` when nothing is read for it. -/
def framing (method : HttpMethod) (status : Nat) (head : Bytes) : Option Framing :=
  if method = .head ∨ status = 204 ∨ status = 304 then none
  else if headHasToken head (ascii "transfer-encoding") (ascii "chunked") then some .chunked
  else
    match headContentLength head with
    | none => some .toClose
    | some cl => if clientMaxBody < cl then none else some (.counted cl)

/-- The buffer holds more than a response may be, with `base` bytes in front of the body's text. -/
def Big (base : Nat) (text : Bytes) : Prop := clientMaxBody + clientHeadCap < base + text.length

/-- With this text there, more is read. -/
def Framing.Waits (base : Nat) (text : Bytes) : Framing → Prop
  | .chunked => (feed chunkStart text []).2.2.2 = .more ∧ ¬Big base text
  | .counted cl => text.length < cl
  | .toClose => True

/-- With this text there after a read, the response is given up. -/
def Framing.Refuses (base : Nat) (text : Bytes) : Framing → Prop
  | .chunked => IsBad (feed chunkStart text []).2.2.2 ∨ (feed chunkStart text []).2.2.2 = .more ∧
    Big base text
  | .counted _ => Big base text
  | .toClose => Big base text

/-- What the socket does next breaks the body off: it is closed in the middle,
fails, or delivers what is refused. -/
def Breaks (f : Framing) (base : Nat) : List Recv → Bytes → Prop
  | .data piece :: recvs, text =>
    if piece = [] then f ≠ .toClose
    else
      f.Refuses base (text ++ piece.take 8192) ∨
        (f.Waits base (text ++ piece.take 8192) ∧ Breaks f base recvs (text ++ piece.take 8192))
  | .closed :: _, _ => f ≠ .toClose
  | _, _ => True

/-- The body is not all there, some of it arrives, and then it breaks off. -/
structure BreaksLate (f : Framing) (base : Nat) (recvs : List Recv) (text : Bytes) : Prop where
  waits : f.Waits base text
  arrives : Arrives recvs
  breaks : Breaks f base recvs text

/-- The wire after a read that delivers `piece`. -/
def Wire.push (stamp : Stamp) (piece : Bytes) (recvs : List Recv) (w : Wire) : Wire :=
  ⟨w.rbuf ++ (piece.take 8192).map fun b => ⟨b, stamp⟩, recvs⟩

theorem refill_cases (stamp : Stamp) (w : Wire) :
    (∃ piece recvs, w.recvs = .data piece :: recvs ∧ piece ≠ [] ∧
      refill stamp w = (w.push stamp piece recvs, .arrived)) ∨
    (∃ w', refill stamp w = (w', .closed) ∧ received w.recvs w'.recvs = [] ∧ ¬Arrives w.recvs ∧
      ∀ f base text, Breaks f base w.recvs text ↔ f ≠ .toClose) ∨
    (∃ w' err, refill stamp w = (w', .failed err) ∧ received w.recvs w'.recvs = [] ∧ ¬Arrives w.recvs ∧
      ∀ f base text, Breaks f base w.recvs text) := by
  obtain ⟨rbuf, recvs⟩ := w
  rcases recvs with _ | ⟨r, recvs⟩
  · exact .inr (.inr ⟨_, _, rfl, received_self _, id, fun _ _ _ => trivial⟩)
  · cases r with
    | data piece =>
      rcases eq_or_ne piece [] with rfl | hPiece
      · refine .inr (.inl ⟨⟨rbuf, recvs⟩, rfl, received_cons _ _, fun h => h rfl, fun f base text => ?_⟩)
        rw [Breaks, if_pos rfl]
      · refine .inl ⟨piece, recvs, rfl, hPiece, ?_⟩
        simp only [refill, if_neg hPiece]
        rfl
    | timeout => exact .inr (.inr ⟨⟨rbuf, recvs⟩, _, rfl, received_cons _ _, id, fun _ _ _ => trivial⟩)
    | error reason => exact .inr (.inr ⟨⟨rbuf, recvs⟩, _, rfl, received_cons _ _, id, fun _ _ _ => trivial⟩)
    | closed => exact .inr (.inl ⟨⟨rbuf, recvs⟩, rfl, received_cons _ _, id, fun _ _ _ => Iff.rfl⟩)

/-- The body's text: what the buffer holds behind the head. -/
def Wire.behind (w : Wire) (base : Nat) : Bytes := w.text.drop base

theorem push_text (stamp : Stamp) (piece : Bytes) (recvs : List Recv) (w : Wire) :
    (w.push stamp piece recvs).text = w.text ++ piece.take 8192 := by
  simp [Wire.push, Wire.text, Function.comp_def]

theorem push_behind {w : Wire} {base : Nat} (hBase : base ≤ w.rbuf.length) (stamp : Stamp) (piece : Bytes)
    (recvs : List Recv) : (w.push stamp piece recvs).behind base = w.behind base ++ piece.take 8192 := by
  rw [Wire.behind, push_text, List.drop_append_of_le_length (by rw [Wire.text_length]; exact hBase)]
  rfl

theorem push_base {w : Wire} {base : Nat} (hBase : base ≤ w.rbuf.length) (stamp : Stamp) (piece : Bytes)
    (recvs : List Recv) : base ≤ (w.push stamp piece recvs).rbuf.length := by
  rw [Wire.push, List.length_append]
  omega

theorem tooBig_iff {w : Wire} {base : Nat} (hBase : base ≤ w.rbuf.length) : tooBig w = true ↔
    Big base (w.behind base) := by
  rw [tooBig, decide_eq_true_eq, Big, Wire.behind, List.length_drop, Wire.text_length]
  have : base + (w.rbuf.length - base) = w.rbuf.length := by omega
  rw [this]

theorem breaks_arrived {f : Framing} {base : Nat} {piece : Bytes} (hPiece : piece ≠ [])
    {recvs : List Recv} {text : Bytes} :
    Breaks f base (.data piece :: recvs) text ↔ f.Refuses base (text ++ piece.take 8192) ∨
      (f.Waits base (text ++ piece.take 8192) ∧ Breaks f base recvs (text ++ piece.take 8192)) := by
  rw [Breaks, if_neg hPiece]

/-! ## The arms of the reader -/

def Failed {α : Type} (r : Except Bytes α) : Prop := ∃ err, r = .error err

theorem not_failed_ok {α : Type} (a : α) : ¬Failed (.ok a : Except Bytes α) := by
  rintro ⟨err, h⟩
  exact nomatch h

theorem failed_error {α : Type} (err : Bytes) : Failed (.error err : Except Bytes α) := ⟨err, rfl⟩

/-- A reader that fails, having read something on the way. -/
def FailsLate {α : Type} (before : List Recv) (w : Wire) (r : Except Bytes α) : Prop :=
  Failed r ∧ received before w.recvs ≠ []

theorem not_failsLate_self {α : Type} (w : Wire) (r : Except Bytes α) : ¬FailsLate w.recvs w r := by
  rintro ⟨_, h⟩
  exact h (received_self w.recvs)

theorem counted_failed {stamp : Stamp} {base cl : Nat} (fuel : Nat) :
    ∀ {w : Wire}, base ≤ w.rbuf.length → w.recvs.length < fuel →
    (Failed (readCounted stamp fuel w (base + cl)).2 ↔
      (w.behind base).length < cl ∧ Breaks (.counted cl) base w.recvs (w.behind base)) := by
  induction fuel with
  | zero =>
    intro w _ h
    exact absurd h (Nat.not_lt_zero _)
  | succ fuel ih =>
    intro w hBase hFuel
    have hBehind : (w.behind base).length = w.rbuf.length - base := by
      rw [Wire.behind, List.length_drop, Wire.text_length]
    rw [readCounted]
    rcases Nat.lt_or_ge w.rbuf.length (base + cl) with hShort | hAll
    · rw [if_neg (Nat.not_le.mpr hShort), and_iff_right (by omega)]
      rcases refill_cases stamp w with ⟨piece, recvs, hRecvs, hPiece, hRefill⟩ |
        ⟨w', hRefill, _, _, hBreaks⟩ |
        ⟨w', err, hRefill, _, _, hBreaks⟩
      · have hBase' := push_base hBase stamp piece recvs
        rw [hRefill, hRecvs, breaks_arrived hPiece, ← push_behind hBase stamp piece recvs]
        dsimp only
        rcases em (Big base ((w.push stamp piece recvs).behind base)) with hBig | hFits
        · rw [if_pos ((tooBig_iff hBase').mpr hBig)]
          exact iff_of_true (failed_error _) (.inl hBig)
        · rw [if_neg (fun h => hFits ((tooBig_iff hBase').mp h))]
          rw [hRecvs, List.length_cons] at hFuel
          refine (ih hBase' (Nat.lt_of_succ_lt_succ hFuel)).trans ?_
          exact (or_iff_right hFits).symm
      · rw [hRefill]
        exact iff_of_true (failed_error _) ((hBreaks _ _ _).mpr (by rintro ⟨⟩))
      · rw [hRefill]
        exact iff_of_true (failed_error _) (hBreaks _ _ _)
    · rw [if_pos hAll]
      exact iff_of_false (not_failed_ok _) fun h => by omega

theorem toClose_failed {stamp : Stamp} {base : Nat} (fuel : Nat) : ∀ {w : Wire}, base ≤ w.rbuf.length →
    w.recvs.length < fuel →
    (Failed (readToClose stamp fuel w).2 ↔ Breaks .toClose base w.recvs (w.behind base)) := by
  induction fuel with
  | zero =>
    intro w _ h
    exact absurd h (Nat.not_lt_zero _)
  | succ fuel ih =>
    intro w hBase hFuel
    rw [readToClose]
    rcases refill_cases stamp w with ⟨piece, recvs, hRecvs, hPiece, hRefill⟩ | ⟨w', hRefill, _, _, hBreaks⟩ |
      ⟨w', err, hRefill, _, _, hBreaks⟩
    · have hBase' := push_base hBase stamp piece recvs
      rw [hRefill, hRecvs, breaks_arrived hPiece, ← push_behind hBase stamp piece recvs]
      dsimp only
      rcases em (Big base ((w.push stamp piece recvs).behind base)) with hBig | hFits
      · rw [if_pos ((tooBig_iff hBase').mpr hBig)]
        exact iff_of_true (failed_error _) (.inl hBig)
      · rw [if_neg (fun h => hFits ((tooBig_iff hBase').mp h))]
        rw [hRecvs, List.length_cons] at hFuel
        refine (ih hBase' (Nat.lt_of_succ_lt_succ hFuel)).trans ?_
        exact ((or_iff_right hFits).trans (and_iff_right trivial)).symm
    · rw [hRefill]
      exact iff_of_false (not_failed_ok _) fun h => (hBreaks _ _ _).mp h rfl
    · rw [hRefill]
      exact iff_of_true (failed_error _) (hBreaks _ _ _)

/-- How far the decoder is: it has read the text up to `pos` and wants more. -/
structure Decoded (base : Nat) (w : Wire) (cr : ChunkReader) (pos : Nat) (body : Bytes) : Prop where
  ready : cr.Ready
  text : ∃ fed, w.behind base = fed ++ w.text.drop pos ∧ feed chunkStart fed [] = (cr, [], body, .more)

theorem decoded_start {base : Nat} (w : Wire) : Decoded base w chunkStart base [] where
  ready := chunkStart_ready
  text := ⟨[], rfl, rfl⟩

theorem Decoded.feed {base : Nat} {w : Wire} {cr : ChunkReader} {pos : Nat} {body : Bytes}
    (h : Decoded base w cr pos body) :
    (HttpClient.feed chunkStart (w.behind base) []).2.2.2 =
      (HttpClient.feed cr (w.text.drop pos) body).2.2.2 ∧
      ∀ cr' left body', HttpClient.feed cr (w.text.drop pos) body = (cr', left, body', .more) →
        left = [] ∧ cr'.Ready ∧ HttpClient.feed chunkStart (w.behind base) [] = (cr', [], body', .more) := by
  obtain ⟨hReady, seen, hText, hSeen⟩ := h
  have hAgree : Agree IsBad (HttpClient.feed chunkStart (w.behind base) [])
    (HttpClient.feed cr (w.text.drop pos) body) := by
    rw [hText]
    cases fed seen [] chunkStart_ready with
    | bad why hBad =>
      have hAlone := hBad []
      rw [List.append_nil, hSeen] at hAlone
      cases hAlone
    | done cr' left body' hDone =>
      have hAlone := hDone []
      rw [List.append_nil, List.append_nil, hSeen] at hAlone
      cases hAlone
    | more cr' body' _ hAlone hMore =>
      obtain ⟨rfl, hEq⟩ := Prod.mk.inj (hSeen.symm.trans hAlone)
      obtain ⟨rfl, _⟩ := Prod.mk.inj (Prod.mk.inj hEq).2
      exact hMore _
  refine ⟨hAgree.1, fun cr' left body' hFeed => ?_⟩
  cases fed (w.text.drop pos) body hReady with
  | bad why hBad =>
    have hAlone := hBad []
    rw [List.append_nil, hFeed] at hAlone
    cases hAlone
  | done cr'' left' body'' hDone =>
    have hAlone := hDone []
    rw [List.append_nil, List.append_nil, hFeed] at hAlone
    cases hAlone
  | more cr'' body'' hReady' hAlone _ =>
    have hEq := hFeed.symm.trans hAlone
    simp only [Prod.mk.injEq] at hEq
    obtain ⟨rfl, rfl, rfl, _⟩ := hEq
    refine ⟨rfl, hReady', (hAgree.2 ?_).trans hFeed⟩
    rw [hFeed]
    exact nofun

theorem chunked_failed {stamp : Stamp} {base : Nat} (fuel : Nat) : ∀ {w : Wire} {cr : ChunkReader}
    {pos : Nat} {body : Bytes},
    base ≤ w.rbuf.length → pos ≤ w.rbuf.length → Decoded base w cr pos body → w.recvs.length < fuel →
    (Failed (readChunked stamp fuel w cr pos body).2.2 ↔ Framing.chunked.Refuses base (w.behind base) ∨
      (Framing.chunked.Waits base (w.behind base) ∧ Breaks .chunked base w.recvs (w.behind base))) := by
  induction fuel with
  | zero =>
    intro w cr pos body _ _ _ h
    exact absurd h (Nat.not_lt_zero _)
  | succ fuel ih =>
    intro w cr pos body hBase hPos hDecoded hFuel
    obtain ⟨hOutcome, hMore⟩ := hDecoded.feed
    rw [Framing.Refuses, Framing.Waits, hOutcome]
    simp only [readChunked]
    rw [← HttpClient.feed]
    rcases hFeed : HttpClient.feed cr (w.text.drop pos) body with ⟨cr', left, body', _ | _ | why⟩
    · obtain ⟨rfl, hReady', hAll⟩ := hMore cr' left body' hFeed
      have hNotBad : ¬IsBad FeedOutcome.more := by rintro ⟨_, ⟨⟩⟩
      dsimp only
      rw [or_iff_right hNotBad, eq_self_iff_true, true_and, true_and]
      rcases em (Big base (w.behind base)) with hBig | hFits
      · rw [if_pos ((tooBig_iff hBase).mpr hBig)]
        exact iff_of_true (failed_error _) (.inl hBig)
      · rw [if_neg (fun h => hFits ((tooBig_iff hBase).mp h)), or_iff_right hFits, and_iff_right hFits]
        rcases refill_cases stamp w with ⟨piece, recvs, hRecvs, hPiece, hRefill⟩ |
          ⟨w', hRefill, _, _, hBreaks⟩ |
          ⟨w', err, hRefill, _, _, hBreaks⟩
        · have hBase' := push_base hBase stamp piece recvs
          have hPos' := push_base (Nat.le_refl w.rbuf.length) stamp piece recvs
          rw [hRefill, hRecvs, breaks_arrived hPiece, ← push_behind hBase stamp piece recvs]
          rw [hRecvs, List.length_cons] at hFuel
          refine ih hBase' hPos' ⟨hReady', w.behind base, ?_, hAll⟩ (Nat.lt_of_succ_lt_succ hFuel)
          rw [push_behind hBase, push_text, List.length_nil, Nat.sub_zero, ← Wire.text_length, List.drop_left]
        · rw [hRefill]
          exact iff_of_true (failed_error _) ((hBreaks _ _ _).mpr (by rintro ⟨⟩))
        · rw [hRefill]
          exact iff_of_true (failed_error _) (hBreaks _ _ _)
    · refine iff_of_false (not_failed_ok _) ?_
      rintro ((⟨why, h⟩ | ⟨h, _⟩) | ⟨⟨h, _⟩, _⟩) <;> cases h
    · exact iff_of_true (failed_error _) (.inl (.inl ⟨why, rfl⟩))

/-! ## Failing late -/

/-- A reader that starts with a read has received something just if that read delivered. -/
theorem received_iff (stamp : Stamp) {w w₁ : Wire}
    (hArrived : ∀ w', refill stamp w = (w', .arrived) → w₁.recvs <:+ w'.recvs)
    (hOther : ∀ w' r, refill stamp w = (w', r) → r ≠ .arrived → w₁ = w') :
    received w.recvs w₁.recvs ≠ [] ↔ Arrives w.recvs := by
  rcases refill_cases stamp w with ⟨piece, recvs, hRecvs, hPiece, hRefill⟩ | ⟨w', hRefill, hNone, hNot, _⟩ |
    ⟨w', err, hRefill, hNone, hNot, _⟩
  · have hSuffix := hArrived _ hRefill
    rw [hRecvs]
    exact iff_of_true (received_ne_nil hPiece hSuffix) hPiece
  · rw [hOther w' _ hRefill nofun]
    exact iff_of_false (fun h => h hNone) hNot
  · rw [hOther w' _ hRefill nofun]
    exact iff_of_false (fun h => h hNone) hNot

theorem counted_failsLate (stamp : Stamp) {base cl : Nat} {w : Wire} (hBase : base ≤ w.rbuf.length) :
    FailsLate w.recvs (readCounted stamp (w.recvs.length + 1) w (base + cl)).1
        (readCounted stamp (w.recvs.length + 1) w (base + cl)).2 ↔
      BreaksLate (.counted cl) base w.recvs (w.behind base) := by
  have hBehind : (w.behind base).length = w.rbuf.length - base := by
    rw [Wire.behind, List.length_drop, Wire.text_length]
  have hReceived : (w.behind base).length < cl →
      (received w.recvs (readCounted stamp (w.recvs.length + 1) w (base + cl)).1.recvs ≠ [] ↔
      Arrives w.recvs) := by
    intro hShort
    have hMore : ¬base + cl ≤ w.rbuf.length := by omega
    refine received_iff stamp (fun w' hRefill => ?_) fun w' r hRefill hOther => ?_
    · rw [readCounted, if_neg hMore, hRefill]
      dsimp only
      split
      · exact List.suffix_refl _
      · exact (suffix_refilling stamp).readCounted _ _ _
    · rw [readCounted, if_neg hMore, hRefill]
      cases r with
      | arrived => exact absurd rfl hOther
      | _ => rfl
  rw [FailsLate, counted_failed _ hBase (Nat.lt_succ_self _)]
  constructor
  · rintro ⟨⟨hShort, hBreaks⟩, hGot⟩
    exact ⟨hShort, (hReceived hShort).mp hGot, hBreaks⟩
  · rintro ⟨hShort, hArrives, hBreaks⟩
    exact ⟨⟨hShort, hBreaks⟩, (hReceived hShort).mpr hArrives⟩

theorem toClose_failsLate (stamp : Stamp) {base : Nat} {w : Wire} (hBase : base ≤ w.rbuf.length) :
    FailsLate w.recvs (readToClose stamp (w.recvs.length + 1) w).1
      (readToClose stamp (w.recvs.length + 1) w).2 ↔
      BreaksLate .toClose base w.recvs (w.behind base) := by
  have hReceived : received w.recvs (readToClose stamp (w.recvs.length + 1) w).1.recvs ≠ [] ↔
    Arrives w.recvs := by
    refine received_iff stamp (fun w' hRefill => ?_) fun w' r hRefill hOther => ?_
    · rw [readToClose, hRefill]
      dsimp only
      split
      · exact List.suffix_refl _
      · exact (suffix_refilling stamp).readToClose _ _
    · rw [readToClose, hRefill]
      cases r with
      | arrived => exact absurd rfl hOther
      | _ => rfl
  rw [FailsLate, toClose_failed _ hBase (Nat.lt_succ_self _), hReceived]
  constructor
  · rintro ⟨hBreaks, hArrives⟩
    exact ⟨trivial, hArrives, hBreaks⟩
  · rintro ⟨_, hArrives, hBreaks⟩
    exact ⟨hBreaks, hArrives⟩

theorem chunked_failsLate (stamp : Stamp) {base : Nat} {w : Wire} (hBase : base ≤ w.rbuf.length) :
    FailsLate w.recvs (readChunked stamp (w.recvs.length + 1) w chunkStart base []).1
        (readChunked stamp (w.recvs.length + 1) w chunkStart base []).2.2 ↔
      BreaksLate .chunked base w.recvs (w.behind base) := by
  have hStart : chunkFeed (w.text.drop base).length chunkStart (w.text.drop base) [] = feed chunkStart
    (w.behind base) [] := rfl
  have hReceived : Framing.chunked.Waits base (w.behind base) →
      (received w.recvs (readChunked stamp (w.recvs.length + 1) w chunkStart base []).1.recvs ≠ [] ↔
      Arrives w.recvs) := by
    rintro ⟨hMore, hFits⟩
    rcases hFeed : feed chunkStart (w.behind base) [] with ⟨cr, left, body, o⟩
    rw [hFeed] at hMore
    obtain rfl : o = .more := hMore
    have hSmall : ¬tooBig w = true := fun h => hFits ((tooBig_iff hBase).mp h)
    refine received_iff stamp (fun w' hRefill => ?_) fun w' r hRefill hOther => ?_
    · simp only [readChunked, hStart, hFeed, if_neg hSmall, hRefill]
      exact (suffix_refilling stamp).readChunked _ _ _ _ _
    · cases r with
      | arrived => exact absurd rfl hOther
      | _ => simp only [readChunked, hStart, hFeed, if_neg hSmall, hRefill]
  rw [FailsLate, chunked_failed _ hBase hBase (decoded_start w) (Nat.lt_succ_self _)]
  constructor
  · rintro ⟨hRefuses | ⟨hWaits, hBreaks⟩, hGot⟩
    · -- a text that is refused is refused before anything is read
      have hUnread : (readChunked stamp (w.recvs.length + 1) w chunkStart base []).1 = w := by
        rcases hFeed : feed chunkStart (w.behind base) [] with ⟨cr, left, body, o⟩
        rw [Framing.Refuses, hFeed] at hRefuses
        simp only [readChunked, hStart, hFeed]
        rcases hRefuses with ⟨why, hBad⟩ | ⟨hMore, hBig⟩
        · obtain rfl : o = .bad why := hBad
          rfl
        · obtain rfl : o = .more := hMore
          dsimp only
          rw [if_pos ((tooBig_iff hBase).mpr hBig)]
      rw [hUnread] at hGot
      exact absurd (received_self w.recvs) hGot
    · exact ⟨hWaits, (hReceived hWaits).mp hGot, hBreaks⟩
  · rintro ⟨hWaits, hArrives, hBreaks⟩
    exact ⟨.inr ⟨hWaits, hBreaks⟩, (hReceived hWaits).mpr hArrives⟩

theorem readBody_failsLate (stamp : Stamp) (method : HttpMethod) (status : Nat) (head : Bytes)
    {base : Nat} {w : Wire}
    (hBase : base ≤ w.rbuf.length) :
    FailsLate w.recvs (readBody stamp method status head base w).1
      (readBody stamp method status head base w).2.2 ↔
      ∃ f, framing method status head = some f ∧ BreaksLate f base w.recvs (w.behind base) := by
  have hNone : ∀ {o : Option Framing}, o = none → ¬∃ f, o = some f ∧
    BreaksLate f base w.recvs (w.behind base) := by
    rintro o rfl ⟨f, h, _⟩
    exact nomatch h
  have hSome : ∀ {o : Option Framing} {f : Framing}, o = some f →
      (BreaksLate f base w.recvs (w.behind base) ↔ ∃ f, o = some f ∧
      BreaksLate f base w.recvs (w.behind base)) := by
    rintro o f rfl
    refine ⟨fun h => ⟨f, rfl, h⟩, ?_⟩
    rintro ⟨f', h, hBreaks⟩
    rwa [Option.some.inj h]
  have hSame : ∀ {α : Type} {r : Except Bytes α} {r' : Except Bytes (Nat × Bool)},
    (Failed r ↔ Failed r') → ∀ w',
      FailsLate w.recvs w' r' ↔ FailsLate w.recvs w' r := fun h w' => and_congr_left fun _ => h.symm
  rw [readBody, framing]
  split
  · exact iff_of_false (not_failsLate_self w _) (hNone rfl)
  · split
    · refine Iff.trans ?_ ((chunked_failsLate stamp hBase).trans (hSome rfl))
      rcases readChunked stamp (w.recvs.length + 1) w chunkStart base [] with ⟨w', body, err | stop⟩
      · exact hSame (iff_of_true (failed_error _) (failed_error _)) w'
      · exact hSame (iff_of_false (not_failed_ok _) (not_failed_ok _)) w'
    · cases headContentLength head with
      | none =>
        refine Iff.trans ?_ ((toClose_failsLate stamp hBase).trans (hSome rfl))
        rcases readToClose stamp (w.recvs.length + 1) w with ⟨w', err | _⟩
        · exact hSame (iff_of_true (failed_error _) (failed_error _)) w'
        · exact hSame (iff_of_false (not_failed_ok _) (not_failed_ok _)) w'
      | some cl =>
        dsimp only
        split
        · exact iff_of_false (not_failsLate_self w _) (hNone rfl)
        · refine Iff.trans ?_ ((counted_failsLate stamp hBase).trans (hSome rfl))
          rcases readCounted stamp (w.recvs.length + 1) w (base + cl) with ⟨w', err | _⟩
          · exact hSame (iff_of_true (failed_error _) (failed_error _)) w'
          · exact hSame (iff_of_false (not_failed_ok _) (not_failed_ok _)) w'

/-- The buffer holds a whole head already, and the body behind it breaks off late. -/
def UnnoticedBreak (method : HttpMethod) (buffered : Bytes) (recvs : List Recv) : Prop :=
  ∃ sep status f, findHeadSep buffered = some sep ∧ parseStatusLine (buffered.take (sep + 2)) = some status ∧
    framing method status (buffered.take (sep + 2)) = some f ∧
    BreaksLate f (sep + 4) recvs (buffered.drop (sep + 4))

theorem readHead_touched (stamp : Stamp) (fuel : Nat) : ∀ w, (readHead stamp fuel w true).2.1 = true := by
  induction fuel with
  | zero => exact fun _ => rfl
  | succ fuel ih =>
    intro w
    rw [readHead]
    split
    · rfl
    · split
      · rfl
      · split
        · exact ih _
        · rfl
        · rfl

theorem readHead_unfinished (stamp : Stamp) (fuel : Nat) {w : Wire} (hSep : findHeadSep w.text = none) :
    (readHead stamp (fuel + 1) w false).2.1 = true ∨
      ∃ w' err, readHead stamp (fuel + 1) w false = (w', false, .error err) ∧
        received w.recvs w'.recvs = [] := by
  rw [readHead, hSep]
  dsimp only
  split
  · exact .inr ⟨w, _, rfl, received_self _⟩
  · rcases refill_cases stamp w with ⟨piece, recvs, _, _, hRefill⟩ | ⟨w', hRefill, hNone, _⟩ |
      ⟨w', err, hRefill, hNone, _⟩
    · rw [hRefill]
      exact .inl (readHead_touched stamp fuel _)
    · rw [hRefill]
      exact .inr ⟨w', _, rfl, hNone⟩
    · rw [hRefill]
      exact .inr ⟨w', _, rfl, hNone⟩

/-- A response fails after something came without that being noticed just if its head was there before. -/
theorem readResponse_unnoticed (stamp : Stamp) (method : HttpMethod) (w : Wire) :
    ((readResponse stamp method w).ok = false ∧ (readResponse stamp method w).touched = false ∧
      received w.recvs (readResponse stamp method w).wire.recvs ≠ []) ↔
        UnnoticedBreak method w.text w.recvs := by
  rcases hSep : findHeadSep w.text with _ | sep
  · refine iff_of_false ?_ ?_
    · rintro ⟨_, hTouched, hGot⟩
      rcases readHead_unfinished stamp w.recvs.length hSep with hNoticed | ⟨w', err, hHead, hNone⟩
      · have hAll : (readResponse stamp method w).touched =
          (readHead stamp (w.recvs.length + 1) w false).2.1 := by
          rw [readResponse]
          rcases readHead stamp (w.recvs.length + 1) w false with ⟨w', touched, err | sep⟩
          · rfl
          · dsimp only
            split
            · rfl
            · split <;> rfl
        rw [hAll, hNoticed] at hTouched
        cases hTouched
      · rw [readResponse, hHead] at hGot
        exact hGot hNone
    · rintro ⟨sep, _, _, h, _⟩
      rw [hSep] at h
      cases h
  · have hHead : readHead stamp (w.recvs.length + 1) w false = (w, false, .ok sep) := by rw [readHead, hSep]
    rw [readResponse, hHead]
    dsimp only
    rcases hStatus : parseStatusLine (w.text.take (sep + 2)) with _ | status
    · refine iff_of_false (fun h => h.2.2 (received_self _)) ?_
      rintro ⟨sep', status, _, hSep', hStatus', _⟩
      obtain rfl := Option.some.inj (hSep.symm.trans hSep')
      rw [hStatus] at hStatus'
      cases hStatus'
    · have hBase : sep + 4 ≤ w.rbuf.length := by
        rw [← Wire.text_length]
        exact findHeadSep_length hSep
      have hBody := readBody_failsLate stamp method status (w.text.take (sep + 2)) hBase
      have hUnnoticed : (∃ f, framing method status (w.text.take (sep + 2)) = some f ∧
          BreaksLate f (sep + 4) w.recvs (w.behind (sep + 4))) ↔ UnnoticedBreak method w.text w.recvs := by
        constructor
        · rintro ⟨f, hFraming, hBreaks⟩
          exact ⟨sep, status, f, hSep, hStatus, hFraming, hBreaks⟩
        · rintro ⟨sep', status', f, hSep', hStatus', hFraming, hBreaks⟩
          obtain rfl := Option.some.inj (hSep.symm.trans hSep')
          obtain rfl := Option.some.inj (hStatus.symm.trans hStatus')
          exact ⟨f, hFraming, hBreaks⟩
      rw [← hUnnoticed, ← hBody]
      dsimp only
      rcases readBody stamp method status (w.text.take (sep + 2)) (sep + 4) w with
        ⟨w', body, err | ⟨stop, closed⟩⟩
      · constructor
        · rintro ⟨_, _, hGot⟩
          exact ⟨failed_error _, hGot⟩
        · rintro ⟨_, hGot⟩
          exact ⟨rfl, rfl, hGot⟩
      · refine iff_of_false (fun h => absurd h.1 Bool.noConfusion) fun h => not_failed_ok _ h.1

/-! ## Rounds -/

/-- A request written on a connection, and the bytes that came on it before the round was over. -/
structure Written where
  conn : Nat
  received : Bytes
deriving DecidableEq, Repr

/-- Once there is a connection the request is written, also if sending it fails half-way. -/
def roundWrites (c : HttpClient) (net : Net) (r : Request) : List Written :=
  match connectStep c net with
  | (_, _, .error _) => []
  | (_, net', .ok conn) => [⟨conn, received net'.recvs (attempt c net r).net.recvs⟩]

/-- The writes of the loop, followed for a number of rounds. -/
def writes : Nat → HttpClient → Net → Request → List Written
  | 0, _, _, _ => []
  | rounds + 1, c, net, r =>
    roundWrites c net r ++
      match (attempt c net r).result with
      | some _ => []
      | none => writes rounds (attempt c net r).client (attempt c net r).net r

def requestWrites (rounds : Nat) (c : HttpClient) (net : Net) (raw : Bytes) (method : HttpMethod)
    (extraHeaders body : Bytes) : List Written :=
  match httpMethodName method with
  | none => []
  | some methodName =>
    match resolveTarget c raw with
    | (_, .error _) => []
    | (c, .ok target) => writes rounds c net ⟨method, methodName, target, extraHeaders, body⟩

/-- Written at most twice, once unless the method is idempotent, and a second time
only if nothing had come. -/
structure RetrySafe (method : HttpMethod) (ws : List Written) : Prop where
  twice : ws.length ≤ 2
  once : idempotent method = false → ws.length ≤ 1
  unanswered : ∀ first second rest, ws = first :: second :: rest → first.received = []

theorem writes_eq (rounds : Nat) (c : HttpClient) (net : Net) (r : Request) :
    writes (rounds + 2) c net r = roundWrites c net r ++
      match (attempt c net r).result with
      | some _ => []
      | none => roundWrites (attempt c net r).client (attempt c net r).net r := by
  rw [writes]
  congr 1
  cases hResult : (attempt c net r).result with
  | some _ => rfl
  | none =>
    obtain ⟨_, hClosed⟩ := sock_of_retry hResult
    dsimp only
    rw [writes]
    cases hAgain : (attempt (attempt c net r).client (attempt c net r).net r).result with
    | some _ => exact List.append_nil _
    | none => exact absurd hClosed (sock_of_retry hAgain).1

theorem roundWrites_length (c : HttpClient) (net : Net) (r : Request) : (roundWrites c net r).length ≤ 1 := by
  rw [roundWrites]
  split
  · exact Nat.zero_le 1
  · exact Nat.le_refl 1

theorem sendStep_recvs (net : Net) (r : Request) :
    (sendStep net r).1.recvs = net.recvs ∧ (sendStep net r).1.connects = net.connects := by
  have hSend : ∀ n : Net, n.sendAll.1.recvs = n.recvs ∧ n.sendAll.1.connects = n.connects := by
    rintro ⟨connects, _ | ⟨o, sends⟩, recvs⟩ <;> exact ⟨rfl, rfl⟩
  obtain ⟨hRecvs, hConnects⟩ := hSend net
  rw [sendStep]
  rcases hOut : net.sendAll with ⟨net', _ | reason⟩
  · rw [hOut] at hRecvs hConnects
    dsimp only
    split
    · exact ⟨hRecvs, hConnects⟩
    · exact ⟨(hSend net').1.trans hRecvs, (hSend net').2.trans hConnects⟩
  · rw [hOut] at hRecvs hConnects
    exact ⟨hRecvs, hConnects⟩

/-- A request on a kept connection is sent again behind what came for it. -/
structure ResentBlind (c : HttpClient) (net : Net) (r : Request) : Prop where
  reused : c.sock ≠ none
  idempotent : idempotent r.method = true
  sent : (sendStep net r).2 = none
  unnoticed : UnnoticedBreak r.method (c.rbuf.map Rcvd.byte) net.recvs
  reconnects : net.connects.head? = some none

theorem connectStep_reused {c : HttpClient} {conn : Nat} (h : c.sock = some conn) (net : Net) :
    connectStep c net = (c, net, .ok conn) := by
  rw [connectStep, h]

/-- The round on a kept connection leaves the outcomes of connecting alone, and is
followed by another one after something came just if the response breaks off
unnoticed. -/
theorem attempt_reused {c : HttpClient} {conn : Nat} (hSock : c.sock = some conn) (net : Net) (r : Request) :
    (attempt c net r).net.connects = net.connects ∧
      ((attempt c net r).result = none ∧ received net.recvs (attempt c net r).net.recvs ≠ [] ↔
        idempotent r.method = true ∧ (sendStep net r).2 = none ∧
          UnnoticedBreak r.method (c.rbuf.map Rcvd.byte) net.recvs) := by
  obtain ⟨hRecvs, hConnects⟩ := sendStep_recvs net r
  rw [attempt, connectStep_reused hSock net, hSock]
  dsimp only [Option.isSome_some]
  rcases hSend : sendStep net r with ⟨net', _ | reason⟩
  · rw [hSend] at hRecvs hConnects
    dsimp only at hRecvs hConnects ⊢
    refine ⟨hConnects, ?_⟩
    have hRead := readResponse_unnoticed ⟨conn, c.sent + 1⟩ r.method ⟨c.rbuf, net'.recvs⟩
    simp only [sentAttempt, Bool.true_and]
    rw [← hRecvs]
    refine Iff.trans ?_ (and_congr_right fun _ => hRead.trans (and_iff_right trivial).symm)
    rcases readResponse ⟨conn, c.sent + 1⟩ r.method ⟨c.rbuf, net'.recvs⟩ with
      ⟨w, out, ok, dead, touched, parsed⟩
    dsimp only
    cases ok <;> cases touched <;> cases hIdempotent : idempotent r.method <;> simp
  · rw [hSend] at hRecvs hConnects
    dsimp only at hRecvs hConnects ⊢
    refine ⟨hConnects, iff_of_false ?_ fun h => Option.some_ne_none _ h.2.1⟩
    rintro ⟨_, hGot⟩
    rw [hRecvs] at hGot
    exact hGot (received_self _)

theorem roundWrites_unconnected {c : HttpClient} (hSock : c.sock = none) (net : Net) (r : Request) :
    roundWrites c net r ≠ [] ↔ net.connects.head? = some none := by
  rw [roundWrites, connectStep, hSock]
  rcases net with ⟨_ | ⟨_ | reason, connects⟩, sends, recvs⟩
  · exact iff_of_false (fun h => h rfl) nofun
  · exact iff_of_true (List.cons_ne_nil _ _) rfl
  · exact iff_of_false (fun h => h rfl) nofun

theorem idempotent_of_retry {c : HttpClient} {net : Net} {r : Request} (h : (attempt c net r).result = none) :
    idempotent r.method = true := by
  rw [attempt] at h
  rcases hConnect : connectStep c net with ⟨c', net', err | conn⟩
  · rw [hConnect] at h
    cases h
  · rw [hConnect] at h
    dsimp only at h
    rcases hSend : sendStep net' r with ⟨net'', _ | reason⟩
    · rw [hSend] at h
      simp only [sentAttempt] at h
      split at h
      next hRetry =>
        simp only [Bool.and_eq_true] at hRetry
        exact hRetry.2.1.2
      next => cases h
    · rw [hSend] at h
      dsimp only at h
      split at h
      next hRetry =>
        rw [Bool.and_eq_true] at hRetry
        exact hRetry.2
      next => cases h

/-- The writes of one request, whatever the state of the client and the outcomes of the socket. -/
theorem writes_safe_iff (rounds : Nat) (c : HttpClient) (net : Net) (r : Request) :
    RetrySafe r.method (writes (rounds + 2) c net r) ↔ ¬ResentBlind c net r := by
  have hFirst := roundWrites_length c net r
  rw [writes_eq]
  rcases hResult : (attempt c net r).result with _ | result
  · obtain ⟨hReused, hClosed⟩ := sock_of_retry hResult
    obtain ⟨conn, hSock⟩ := Option.ne_none_iff_exists'.mp hReused
    have hIdempotent := idempotent_of_retry hResult
    obtain ⟨hConnects, hUnnoticed⟩ := attempt_reused hSock net r
    have hSecond := roundWrites_length (attempt c net r).client (attempt c net r).net r
    have hAgain := roundWrites_unconnected hClosed (attempt c net r).net r
    have hOne : roundWrites c net r = [⟨conn, received net.recvs (attempt c net r).net.recvs⟩] := by
      rw [roundWrites, connectStep_reused hSock net]
    rw [hResult, and_iff_right rfl, and_iff_right hIdempotent] at hUnnoticed
    rw [hConnects] at hAgain
    dsimp only
    rw [hOne, List.singleton_append]
    constructor
    · rintro ⟨_, _, hUnanswered⟩ ⟨_, _, hSent, hBreak, hReconnects⟩
      obtain ⟨second, rest, hWrites⟩ := List.exists_cons_of_ne_nil (hAgain.mpr hReconnects)
      rw [hWrites] at hUnanswered
      exact hUnnoticed.mpr ⟨hSent, hBreak⟩ (hUnanswered _ _ _ rfl)
    · intro hNot
      refine ⟨?_, ?_, ?_⟩
      · rw [List.length_cons]
        omega
      · rw [hIdempotent]
        exact nofun
      · intro first second rest hWrites
        obtain ⟨rfl, hRest⟩ := List.cons.inj hWrites
        have hReconnects := hAgain.mp (by rw [hRest]; exact List.cons_ne_nil _ _)
        by_contra hGot
        obtain ⟨hSent, hBreak⟩ := hUnnoticed.mp hGot
        exact hNot ⟨hReused, hIdempotent, hSent, hBreak, hReconnects⟩
  · dsimp only
    rw [List.append_nil]
    refine iff_of_true ⟨by omega, fun _ => hFirst, ?_⟩ ?_
    · intro first second rest hWrites
      rw [hWrites, List.length_cons, List.length_cons] at hFirst
      omega
    · rintro ⟨hReused, hIdempotent, hSent, hBreak, _⟩
      obtain ⟨conn, hSock⟩ := Option.ne_none_iff_exists'.mp hReused
      obtain ⟨hNone, _⟩ := (attempt_reused hSock net r).2.mpr ⟨hIdempotent, hSent, hBreak⟩
      rw [hResult] at hNone
      exact nomatch hNone

/-- A resolved request that is sent again behind what came for it. -/
def ResendsBlind (c : HttpClient) (net : Net) (raw : Bytes) (method : HttpMethod)
    (extraHeaders body : Bytes) : Prop :=
  ∃ methodName c' target, httpMethodName method = some methodName ∧ resolveTarget c raw = (c', .ok target) ∧
    ResentBlind c' net ⟨method, methodName, target, extraHeaders, body⟩

theorem retrySafe_nil (method : HttpMethod) : RetrySafe method [] :=
  ⟨Nat.zero_le 2, fun _ => Nat.zero_le 1, fun _ _ _ h => nomatch h⟩

/-- However long the loop may run, a request is written safely just if it is not
sent again behind a response whose head was buffered when it was written. -/
theorem request_writes_safe_iff (rounds : Nat) (c : HttpClient) (net : Net) (raw : Bytes)
    (method : HttpMethod)
    (extraHeaders body : Bytes) :
    RetrySafe method (requestWrites (rounds + 2) c net raw method extraHeaders body) ↔
      ¬ResendsBlind c net raw method extraHeaders body := by
  rw [requestWrites]
  rcases hName : httpMethodName method with _ | methodName
  · refine iff_of_true (retrySafe_nil method) ?_
    rintro ⟨_, _, _, h, _⟩
    rw [hName] at h
    exact nomatch h
  · rcases hTarget : resolveTarget c raw with ⟨c', err | target⟩
    · refine iff_of_true (retrySafe_nil method) ?_
      rintro ⟨_, _, _, _, h, _⟩
      rw [hTarget] at h
      exact nomatch h
    · dsimp only
      rw [writes_safe_iff rounds c' net ⟨method, methodName, target, extraHeaders, body⟩]
      refine not_congr ⟨fun h => ⟨methodName, c', target, hName, hTarget, h⟩, ?_⟩
      rintro ⟨_, _, _, hName', hTarget', h⟩
      obtain rfl := Option.some.inj (hName.symm.trans hName')
      rw [hTarget] at hTarget'
      obtain ⟨rfl, hOk⟩ := Prod.mk.inj hTarget'
      obtain rfl := Except.ok.inj hOk
      exact h

/-- The answer to the first request and, with it, a head that nobody asked for; two
bytes later the server is gone. -/
def earlyHead : Net :=
  ⟨[none, none], [none, none, none],
    [.data (ascii "HTTP/1.1 200 OK\r\nContent-Length: 0\r\n\r\nHTTP/1.1 200 OK\r\nContent-Length: 5\r\n\r\n"),
      .data (ascii "he"), .closed]⟩

def openedClient : HttpClient := ⟨none, ascii "h", 80, 0, 5, [], 0⟩

/-- The second request on a client is written again behind the two bytes that came for it. -/
theorem resent_behind_answer : httpClientOpen (some (ascii "http://h/")) = some openedClient ∧
    requestWrites 2 (doRequest openedClient earlyHead (ascii "/") .get [] []).1
        (doRequest openedClient earlyHead (ascii "/") .get [] []).2.1 (ascii "/") .get [] [] =
      [⟨1, ascii "he"⟩, ⟨2, []⟩] ∧
    ¬RetrySafe .get (requestWrites 2 (doRequest openedClient earlyHead (ascii "/") .get [] []).1
      (doRequest openedClient earlyHead (ascii "/") .get [] []).2.1 (ascii "/") .get [] []) := by
  have hWrites : requestWrites 2 (doRequest openedClient earlyHead (ascii "/") .get [] []).1
      (doRequest openedClient earlyHead (ascii "/") .get [] []).2.1 (ascii "/") .get [] [] =
        [⟨1, ascii "he"⟩, ⟨2, []⟩] := by decide +kernel
  refine ⟨by decide +kernel, hWrites, fun hSafe => ?_⟩
  have hNothing := hSafe.unanswered _ _ _ hWrites
  exact absurd hNothing (by decide)

end Cweb.HttpClient
