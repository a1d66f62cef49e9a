import Cweb.Http.ClientGrowth

/-!
# Where a chunked body is cut

The decoder may run out of bytes anywhere: inside a size line, a payload, the
CRLF behind it or a trailer line. What it keeps between two feeds is enough to
go on as if the bytes had come at once, so that the result does not depend on
how the text was cut. The argument goes byte by byte.
-/

namespace Cweb.HttpClient

/-- A reader between two rounds: it owes payload while it is in one, and has not
seen all of a terminator while it looks for it. -/
structure ChunkReader.Ready (cr : ChunkReader) : Prop where
  payload : cr.phase = .payload → 0 < cr.pending
  terminator : cr.phase = .terminator → cr.crlfSeen < 2

theorem chunkStart_ready : chunkStart.Ready := ⟨nofun, nofun⟩

theorem ready_size (pending seen : Nat) (line : Bytes) :
    ChunkReader.Ready ⟨.size, pending, seen, line⟩ := ⟨nofun, nofun⟩

theorem ready_trailers (pending seen : Nat) (line : Bytes) :
    ChunkReader.Ready ⟨.trailers, pending, seen, line⟩ :=
  ⟨nofun, nofun⟩

theorem ready_payload {pending : Nat} (h : 0 < pending) (seen : Nat) (line : Bytes) :
    ChunkReader.Ready ⟨.payload, pending, seen, line⟩ := ⟨fun _ => h, nofun⟩

theorem ready_terminator {seen : Nat} (h : seen < 2) (pending : Nat) (line : Bytes) :
    ChunkReader.Ready ⟨.terminator, pending, seen, line⟩ := ⟨nofun, fun _ => h⟩

/-- Two results of a feed that a caller cannot tell apart: a malformed text leaves nothing to look at. -/
def Agree {ω : Type} (bad : ω → Prop) (r r' : ChunkReader × Bytes × Bytes × ω) : Prop :=
  r.2.2.2 = r'.2.2.2 ∧ (¬bad r'.2.2.2 → r = r')

def IsBad (o : FeedOutcome) : Prop := ∃ why, o = .bad why

def IsBadRound (o : Option FeedOutcome) : Prop := ∃ why, o = some (.bad why)

/-- What one byte in front of any others does to a round. -/
inductive Took (cr : ChunkReader) (b : UInt8) (body : Bytes) : Prop where
  | bad (why : Bytes) (h : ∀ rest, (chunkStep cr (b :: rest) body).2.2.2 = some (.bad why))
  | done (cr' : ChunkReader) (h : ∀ rest, chunkStep cr (b :: rest) body = (cr', rest, body, some .done))
  | whole (cr' : ChunkReader) (body' : Bytes) (hReady : cr'.Ready)
      (h : ∀ rest, chunkStep cr (b :: rest) body = (cr', rest, body', none))
  | part (cr' : ChunkReader) (body' : Bytes) (hReady : cr'.Ready)
    (hAlone : chunkFeed 1 cr [b] body = (cr', [], body', .more))
      (h : ∀ rest, rest ≠ [] → Agree IsBadRound (chunkStep cr (b :: rest) body) (chunkStep cr' rest body'))

theorem chunkLine_newline (line rest : Bytes) : chunkLine line (10 :: rest) = some (line, 10 :: rest) := by
  rw [chunkLine, if_pos rfl]

theorem chunkLine_short {b : UInt8} (hb : b ≠ 10) {line : Bytes} (hShort : line.length < 266) (rest : Bytes) :
    chunkLine line (b :: rest) = chunkLine (line ++ [b]) rest := by
  rw [chunkLine, if_neg hb, if_neg (Nat.not_le.mpr hShort)]

theorem chunkLine_long {b : UInt8} (hb : b ≠ 10) {line : Bytes} (hLong : 266 ≤ line.length) (rest : Bytes) :
    chunkLine line (b :: rest) = none := by
  rw [chunkLine, if_neg hb, if_pos hLong]

theorem took_size (pending seen : Nat) (line : Bytes) (b : UInt8) (body : Bytes) :
    Took ⟨.size, pending, seen, line⟩ b body := by
  rcases eq_or_ne b 10 with rfl | hb
  · rcases hSize : chunkSize 0 0 line with why | _ | n
    · exact .bad why fun rest => by simp only [chunkStep, chunkLine_newline, hSize]
    · exact .whole ⟨.trailers, pending, seen, []⟩ body (ready_trailers _ _ _) fun rest => by
        simp only [chunkStep, chunkLine_newline, hSize]
    · exact .whole ⟨.payload, n + 1, seen, []⟩ body (ready_payload (Nat.succ_pos n) _ _) fun rest => by
        simp only [chunkStep, chunkLine_newline, hSize]
  · rcases Nat.lt_or_ge line.length 266 with hShort | hLong
    · refine .part ⟨.size, pending, seen, line ++ [b]⟩ body (ready_size _ _ _) ?_ fun rest _ => ?_
      · simp only [chunkFeed, chunkStep, chunkLine_short hb hShort []]
        rfl
      · simp only [chunkStep, chunkLine_short hb hShort]
        rcases chunkLine (line ++ [b]) rest with _ | ⟨line', _ | ⟨c, left⟩⟩
        · exact ⟨rfl, fun h => absurd ⟨_, rfl⟩ h⟩
        · exact ⟨rfl, fun _ => rfl⟩
        · refine ⟨?_, ?_⟩ <;> rcases chunkSize 0 0 line' with why | _ | n <;> first | rfl | exact fun _ => rfl
    · exact .bad (ascii "chunk size line too long") fun rest => by
        simp only [chunkStep, chunkLine_long hb hLong]

theorem took_trailers (pending seen : Nat) (line : Bytes) (b : UInt8) (body : Bytes) :
    Took ⟨.trailers, pending, seen, line⟩ b body := by
  rcases eq_or_ne b 10 with rfl | hb
  · rcases em (line = [] ∨ line = [13]) with hBlank | hField
    · exact .done ⟨.trailers, pending, seen, line⟩ fun rest => by
        simp only [chunkStep, chunkLine_newline, if_pos hBlank]
    · exact .whole ⟨.trailers, pending, seen, []⟩ body (ready_trailers _ _ _) fun rest => by
        simp only [chunkStep, chunkLine_newline, if_neg hField]
  · rcases Nat.lt_or_ge line.length 266 with hShort | hLong
    · refine .part ⟨.trailers, pending, seen, line ++ [b]⟩ body (ready_trailers _ _ _) ?_ fun rest _ => ?_
      · simp only [chunkFeed, chunkStep, chunkLine_short hb hShort []]
        rfl
      · simp only [chunkStep, chunkLine_short hb hShort]
        rcases chunkLine (line ++ [b]) rest with _ | ⟨line', _ | ⟨c, left⟩⟩
        · exact ⟨rfl, fun h => absurd ⟨_, rfl⟩ h⟩
        · exact ⟨rfl, fun _ => rfl⟩
        · exact ⟨rfl, fun _ => rfl⟩
    · exact .bad (ascii "trailer line too long") fun rest => by simp only [chunkStep, chunkLine_long hb hLong]

theorem took_payload {pending : Nat} (hPending : 0 < pending) (seen : Nat) (line : Bytes) (b : UInt8)
    (body : Bytes) :
    Took ⟨.payload, pending, seen, line⟩ b body := by
  have hMin : ∀ rest : Bytes, min (b :: rest).length pending = 1 + min rest.length (pending - 1) := by
    intro rest
    rw [List.length_cons]
    omega
  rcases Nat.lt_or_ge clientMaxBody (body.length + 1) with hFull | hFits
  · refine .bad (ascii "body too large") fun rest => ?_
    simp only [chunkStep, hMin]
    rw [if_pos (by omega)]
  · rcases Nat.lt_or_ge 1 pending with hMore | hLast
    · refine .part ⟨.payload, pending - 1, seen, line⟩ (body ++ [b]) (ready_payload (by omega) _ _) ?_
        fun rest _ => ?_
      · have hOne : min [b].length pending = 1 := by rw [List.length_singleton]; omega
        simp only [chunkFeed, chunkStep, hOne]
        rw [if_neg (by omega), if_neg (by omega)]
        rfl
      · simp only [chunkStep, hMin]
        have hLength : body.length + (1 + min rest.length (pending - 1)) =
            (body ++ [b]).length + min rest.length (pending - 1) := by
          rw [List.length_append, List.length_singleton]
          omega
        rw [hLength, ← Nat.sub_sub, Nat.add_comm 1, List.drop_succ_cons, List.take_succ_cons]
        split
        · exact ⟨rfl, fun h => absurd ⟨_, rfl⟩ h⟩
        · refine ⟨rfl, fun _ => ?_⟩
          rw [List.append_assoc, List.singleton_append]
    · obtain rfl : pending = 1 := by omega
      refine .whole ⟨.terminator, 0, 0, line⟩ (body ++ [b]) (ready_terminator (by decide) _ _) fun rest => ?_
      simp only [chunkStep, hMin]
      rw [Nat.sub_self, Nat.min_zero, Nat.add_zero, if_neg (by omega), Nat.sub_self, if_pos rfl]
      rfl

theorem took_terminator (pending : Nat) {seen : Nat} (hSeen : seen < 2) (line : Bytes) (b : UInt8)
    (body : Bytes) :
    Took ⟨.terminator, pending, seen, line⟩ b body := by
  rcases em (b = if seen = 0 then 13 else 10) with hWant | hOther
  · have hCrlf : ∀ rest, chunkCrlf seen (b :: rest) = chunkCrlf (seen + 1) rest := fun rest => by
      rw [chunkCrlf, if_neg (Nat.not_le.mpr hSeen), if_pos hWant]
    rcases Nat.lt_or_ge (seen + 1) 2 with hFirst | hSecond
    · refine .part ⟨.terminator, pending, seen + 1, line⟩ body (ready_terminator hFirst _ _) ?_
        fun rest _ => ?_
      · have hNone : chunkCrlf (seen + 1) [] = (seen + 1, [], true) := rfl
        simp only [chunkFeed, chunkStep, hCrlf, hNone]
        rw [if_neg (by omega)]
      · simp only [chunkStep, hCrlf]
        rcases chunkCrlf (seen + 1) rest with ⟨seen', left, _ | _⟩
        · exact ⟨rfl, fun h => absurd ⟨_, rfl⟩ h⟩
        · exact ⟨rfl, fun _ => rfl⟩
    · have hBoth : ∀ rest, chunkCrlf (seen + 1) rest = (seen + 1, rest, true) := by
        rintro (_ | ⟨c, rest⟩)
        · rfl
        · rw [chunkCrlf, if_pos hSecond]
      refine .whole ⟨.size, pending, seen + 1, line⟩ body (ready_size _ _ _) fun rest => ?_
      simp only [chunkStep, hCrlf, hBoth]
      rw [if_pos (by omega)]
  · have hCrlf : ∀ rest, chunkCrlf seen (b :: rest) = (seen, rest, false) := fun rest => by
      rw [chunkCrlf, if_neg (Nat.not_le.mpr hSeen), if_neg hOther]
    exact .bad (ascii "chunk payload not CRLF terminated") fun rest => by simp only [chunkStep, hCrlf]

theorem took {cr : ChunkReader} (h : cr.Ready) (b : UInt8) (body : Bytes) : Took cr b body := by
  obtain ⟨phase, pending, seen, line⟩ := cr
  cases phase with
  | size => exact took_size pending seen line b body
  | payload => exact took_payload (h.payload rfl) seen line b body
  | terminator => exact took_terminator pending (h.terminator rfl) line b body
  | trailers => exact took_trailers pending seen line b body

/-! ## Whole feeds -/

/-- A round takes a byte and leaves a reader that may go round again, or leaves nothing. -/
theorem chunkStep_ready (rest : Bytes) : ∀ {cr cr' : ChunkReader} {body left body' : Bytes}
    {o : Option FeedOutcome},
    cr.Ready → rest ≠ [] → chunkStep cr rest body = (cr', left, body', o) →
    (o = none → cr'.Ready ∧ left.length < rest.length) ∧ (o = some .more → cr'.Ready ∧ left = []) := by
  induction rest with
  | nil =>
    intro cr cr' body left body' o _ hSome
    exact absurd rfl hSome
  | cons b tail ih =>
    intro cr cr' body left body' o hReady _ hStep
    cases took hReady b body with
    | bad why h =>
      have hBad := h tail
      rw [hStep] at hBad
      obtain rfl : o = some (.bad why) := hBad
      exact ⟨nofun, nofun⟩
    | done cr'' h =>
      have hEq := hStep.symm.trans (h tail)
      simp only [Prod.mk.injEq] at hEq
      obtain ⟨_, _, _, rfl⟩ := hEq
      exact ⟨nofun, nofun⟩
    | whole cr'' body'' hReady' h =>
      have hEq := hStep.symm.trans (h tail)
      simp only [Prod.mk.injEq] at hEq
      obtain ⟨rfl, rfl, _, rfl⟩ := hEq
      exact ⟨fun _ => ⟨hReady', Nat.lt_succ_self _⟩, nofun⟩
    | part cr'' body'' hReady' hAlone h =>
      rcases eq_or_ne tail [] with rfl | hTail
      · rcases o with _ | o
        · rcases left with _ | ⟨c, left⟩
          all_goals
            simp only [chunkFeed, hStep, Prod.mk.injEq, reduceCtorEq, false_and, and_false] at hAlone
          obtain ⟨rfl, _⟩ := hAlone
          exact ⟨fun _ => ⟨hReady', Nat.one_pos⟩, nofun⟩
        · simp only [chunkFeed, hStep, Prod.mk.injEq] at hAlone
          obtain ⟨rfl, rfl, _⟩ := hAlone
          exact ⟨nofun, fun _ => ⟨hReady', rfl⟩⟩
      · obtain ⟨hOutcome, hSame⟩ := h tail hTail
        rw [hStep] at hOutcome hSame
        rcases em (IsBadRound o) with ⟨why, rfl⟩ | hGood
        · exact ⟨nofun, nofun⟩
        · have hGo := hSame (hOutcome ▸ hGood)
          obtain ⟨hNone, hMore⟩ := ih hReady' hTail hGo.symm
          exact ⟨fun ho => ⟨(hNone ho).1, Nat.lt_succ_of_lt (hNone ho).2⟩, hMore⟩

theorem chunkFeed_step (fuel : Nat) (cr : ChunkReader) {rest : Bytes} (hSome : rest ≠ []) (body : Bytes) :
    chunkFeed (fuel + 1) cr rest body = match chunkStep cr rest body with
      | (cr, rest, body, some outcome) => (cr, rest, body, outcome)
      | (cr, rest, body, none) => chunkFeed fuel cr rest body := by
  rcases rest with _ | ⟨b, rest⟩
  · exact absurd rfl hSome
  · rfl

theorem chunkFeed_fuel (fuel : Nat) : ∀ {fuel' : Nat} {cr : ChunkReader} {rest : Bytes}
    (body : Bytes), cr.Ready →
    rest.length ≤ fuel → rest.length ≤ fuel' →
      chunkFeed fuel cr rest body = chunkFeed fuel' cr rest body := by
  induction fuel with
  | zero =>
    intro fuel' cr rest body _ hFuel _
    rw [List.eq_nil_of_length_eq_zero (Nat.le_zero.mp hFuel)]
    cases fuel' <;> rfl
  | succ fuel ih =>
    intro fuel' cr rest body hReady hFuel hFuel'
    rcases eq_or_ne rest [] with rfl | hSome
    · cases fuel' <;> rfl
    · have hPos := List.length_pos_iff.mpr hSome
      obtain ⟨n, rfl⟩ : ∃ n, fuel' = n + 1 := ⟨fuel' - 1, by omega⟩
      rw [chunkFeed_step fuel cr hSome, chunkFeed_step n cr hSome]
      rcases hStep : chunkStep cr rest body with ⟨cr', left, body', _ | o⟩
      · obtain ⟨hReady', hLess⟩ := (chunkStep_ready rest hReady hSome hStep).1 rfl
        exact ih body' hReady' (by omega) (by omega)
      · rfl

/-- `chunk_feed` on a buffer. -/
def feed (cr : ChunkReader) (buf body : Bytes) : ChunkReader × Bytes × Bytes × FeedOutcome :=
  chunkFeed buf.length cr buf body

theorem feed_step {cr : ChunkReader} (hReady : cr.Ready) {rest : Bytes} (hSome : rest ≠ []) (body : Bytes) :
    feed cr rest body = match chunkStep cr rest body with
      | (cr, rest, body, some outcome) => (cr, rest, body, outcome)
      | (cr, rest, body, none) => feed cr rest body := by
  have hPos := List.length_pos_iff.mpr hSome
  obtain ⟨n, hn⟩ : ∃ n, rest.length = n + 1 := ⟨rest.length - 1, by omega⟩
  rw [feed, hn, chunkFeed_step n cr hSome]
  rcases hStep : chunkStep cr rest body with ⟨cr', left, body', _ | o⟩
  · obtain ⟨hReady', hLess⟩ := (chunkStep_ready rest hReady hSome hStep).1 rfl
    exact chunkFeed_fuel n body' hReady' (by omega) (Nat.le_refl _)
  · rfl

theorem Agree.trans {ω : Type} {bad : ω → Prop} {r r' r'' : ChunkReader × Bytes × Bytes × ω}
    (h : Agree bad r r')
    (h' : Agree bad r' r'') : Agree bad r r'' := by
  refine ⟨h.1.trans h'.1, fun hGood => ?_⟩
  exact (h.2 (h'.1 ▸ hGood)).trans (h'.2 hGood)

theorem Agree.symm {ω : Type} {bad : ω → Prop} {r r' : ChunkReader × Bytes × Bytes × ω} (h : Agree bad r r') :
    Agree bad r' r := ⟨h.1.symm, fun hGood => (h.2 (h.1 ▸ hGood)).symm⟩

theorem agree_feed {cr cr' : ChunkReader} (hReady : cr.Ready) (hReady' : cr'.Ready) {x y : Bytes}
    (hx : x ≠ []) (hy : y ≠ [])
    {body body' : Bytes} (h : Agree IsBadRound (chunkStep cr x body) (chunkStep cr' y body')) :
    Agree IsBad (feed cr x body) (feed cr' y body') := by
  rw [feed_step hReady hx, feed_step hReady' hy]
  rcases em (IsBadRound (chunkStep cr' y body').2.2.2) with ⟨why, hBad⟩ | hGood
  · have hBoth := h.1.trans hBad
    rcases hStep : chunkStep cr x body with ⟨cr₁, left, body₁, o⟩
    rcases hStep' : chunkStep cr' y body' with ⟨cr₂, left', body₂, o'⟩
    rw [hStep] at hBoth
    rw [hStep'] at hBad
    obtain rfl : o = some (.bad why) := hBoth
    obtain rfl : o' = some (.bad why) := hBad
    exact ⟨rfl, fun hGood => absurd ⟨why, rfl⟩ hGood⟩
  · rw [h.2 hGood]
    exact ⟨rfl, fun _ => rfl⟩

/-- What feeding `x` says about feeding more: the verdict is out, or the rest may be
fed to the reader that is left. -/
inductive Fed (cr : ChunkReader) (x body : Bytes) : Prop where
  | bad (why : Bytes) (h : ∀ y, (feed cr (x ++ y) body).2.2.2 = .bad why)
  | done (cr' : ChunkReader) (left body' : Bytes)
    (h : ∀ y, feed cr (x ++ y) body = (cr', left ++ y, body', .done))
  | more (cr' : ChunkReader) (body' : Bytes) (hReady : cr'.Ready)
    (hAlone : feed cr x body = (cr', [], body', .more))
      (h : ∀ y, Agree IsBad (feed cr (x ++ y) body) (feed cr' y body'))

/-- The same for a reader that agrees with another one on everything that starts with a byte. -/
theorem Fed.of_agree {cr cr' : ChunkReader} {b : UInt8} {x body body' : Bytes} (hFed : Fed cr' x body')
    (h : ∀ z, Agree IsBad (feed cr (b :: z) body) (feed cr' z body')) : Fed cr (b :: x) body := by
  cases hFed with
  | bad why hBad => exact .bad why fun y => (h (x ++ y)).1.trans (hBad y)
  | done cr'' left body'' hDone =>
    refine .done cr'' left body'' fun y => ?_
    refine ((h (x ++ y)).2 ?_).trans (hDone y)
    rw [hDone y]
    exact nofun
  | more cr'' body'' hReady hAlone hMore =>
    refine .more cr'' body'' hReady ?_ fun y => (h (x ++ y)).trans (hMore y)
    refine ((h x).2 ?_).trans hAlone
    rw [hAlone]
    exact nofun

theorem fed (x : Bytes) : ∀ {cr : ChunkReader} (body : Bytes), cr.Ready → Fed cr x body := by
  induction x with
  | nil =>
    intro cr body hReady
    exact .more cr body hReady rfl fun y => ⟨rfl, fun _ => rfl⟩
  | cons b x ih =>
    intro cr body hReady
    have hSome : ∀ z, b :: z ≠ [] := fun z => List.cons_ne_nil b z
    cases took hReady b body with
    | bad why h =>
      refine .bad why fun y => ?_
      have hBad := h (x ++ y)
      rw [List.cons_append, feed_step hReady (hSome _)]
      rcases hStep : chunkStep cr (b :: (x ++ y)) body with ⟨cr', left, body', o⟩
      rw [hStep] at hBad
      obtain rfl : o = some (.bad why) := hBad
      rfl
    | done cr' h =>
      refine .done cr' x body fun y => ?_
      rw [List.cons_append, feed_step hReady (hSome _), h]
    | whole cr' body' hReady' h =>
      refine (ih body' hReady').of_agree fun z => ?_
      rw [feed_step hReady (hSome z), h z]
      exact ⟨rfl, fun _ => rfl⟩
    | part cr' body' hReady' hAlone h =>
      refine (ih body' hReady').of_agree fun z => ?_
      rcases eq_or_ne z [] with rfl | hz
      · have hOne : feed cr [b] body = feed cr' [] body' := hAlone
        rw [hOne]
        exact ⟨rfl, fun _ => rfl⟩
      · exact agree_feed hReady hReady' (hSome z) hz (h z hz)

/-! ## Pieces -/

/-- The return value of `chunk_feed`. -/
def FeedOutcome.code : FeedOutcome → Int
  | .more => 0
  | .done => 1
  | .bad _ => -1

theorem code_eq_bad_iff (o : FeedOutcome) : o.code = -1 ↔ IsBad o := by
  cases o with
  | more => exact ⟨nofun, nofun⟩
  | done => exact ⟨nofun, nofun⟩
  | bad why => exact ⟨fun _ => ⟨why, rfl⟩, fun _ => rfl⟩

structure ChunkRun where
  reader : ChunkReader
  body : Bytes
  consumed : Nat
  outcome : FeedOutcome
deriving DecidableEq, Repr

/-- Feed one piece after the other up to the first result that is not 0. -/
def feedPieces (cr : ChunkReader) (body : Bytes) (consumed : Nat) : List Bytes → ChunkRun
  | [] => ⟨cr, body, consumed, .more⟩
  | piece :: pieces =>
    match feed cr piece body with
    | (cr, left, body, .more) => feedPieces cr body (consumed + (piece.length - left.length)) pieces
    | (cr, left, body, outcome) => ⟨cr, body, consumed + (piece.length - left.length), outcome⟩

theorem feedPieces_flatten (pieces : List Bytes) : ∀ {cr : ChunkReader} (body : Bytes)
    (consumed : Nat), cr.Ready →
    (feedPieces cr body consumed pieces).outcome = (feed cr pieces.flatten body).2.2.2 ∧
      (¬IsBad (feed cr pieces.flatten body).2.2.2 → feedPieces cr body consumed pieces =
        ⟨(feed cr pieces.flatten body).1, (feed cr pieces.flatten body).2.2.1,
          consumed + (pieces.flatten.length - (feed cr pieces.flatten body).2.1.length),
          (feed cr pieces.flatten body).2.2.2⟩) := by
  induction pieces with
  | nil =>
    intro cr body consumed _
    exact ⟨rfl, fun _ => rfl⟩
  | cons piece pieces ih =>
    intro cr body consumed hReady
    rw [List.flatten_cons, feedPieces]
    cases fed piece body hReady with
    | bad why h =>
      have hAlone := h []
      rw [List.append_nil] at hAlone
      rw [h pieces.flatten]
      refine ⟨?_, fun hGood => absurd ⟨why, rfl⟩ hGood⟩
      rcases hFeed : feed cr piece body with ⟨cr', left, body', o⟩
      rw [hFeed] at hAlone
      obtain rfl : o = .bad why := hAlone
      rfl
    | done cr' left body' h =>
      have hAlone := h []
      rw [List.append_nil, List.append_nil] at hAlone
      rw [hAlone, h pieces.flatten]
      refine ⟨rfl, fun _ => ?_⟩
      simp only [List.length_append, Nat.add_sub_add_right]
    | more cr' body' hReady' hAlone h =>
      obtain ⟨hOutcome, hSame⟩ := ih body' (consumed + (piece.length - ([] : Bytes).length)) hReady'
      obtain ⟨hWhole, hWholeSame⟩ := h pieces.flatten
      have hLength := chunkFeed_length pieces.flatten.length cr' pieces.flatten body'
      rw [hAlone]
      refine ⟨hOutcome.trans hWhole.symm, fun hGood => ?_⟩
      rw [hWhole] at hGood
      rw [hWholeSame hGood]
      refine (hSame hGood).trans ?_
      rw [← feed] at hLength
      congr 1
      rw [List.length_nil, List.length_append]
      omega

/-- However a text is cut into pieces, the decoder comes to the same result, and
unless the text is malformed to the same reader, body and number of bytes. -/
theorem chunk_feed_splits {text : Bytes} {xs ys : List Bytes} (hx : xs.flatten = text)
    (hy : ys.flatten = text) :
    (feedPieces chunkStart [] 0 xs).outcome.code = (feedPieces chunkStart [] 0 ys).outcome.code ∧
      ((feedPieces chunkStart [] 0 xs).outcome.code ≠ -1 →
        feedPieces chunkStart [] 0 xs = feedPieces chunkStart [] 0 ys) := by
  obtain ⟨hOutcome, hSame⟩ := feedPieces_flatten xs [] 0 chunkStart_ready
  obtain ⟨hOutcome', hSame'⟩ := feedPieces_flatten ys [] 0 chunkStart_ready
  rw [hx] at hOutcome hSame
  rw [hy] at hOutcome' hSame'
  refine ⟨by rw [hOutcome, hOutcome'], fun hCode => ?_⟩
  have hGood : ¬IsBad (feed chunkStart text []).2.2.2 := by
    rw [← hOutcome, ← code_eq_bad_iff]
    exact hCode
  rw [hSame hGood, hSame' hGood]

theorem chunk_feed_splits_hello :
    (feedPieces chunkStart [] 0 [ascii "5\r\nhel", ascii "lo\r", ascii "\n0\r\n\r\nHT"]).outcome.code =
        (feedPieces chunkStart [] 0 ((ascii "5\r\nhello\r\n0\r\n\r\nHT").map fun b => [b])).outcome.code ∧
      ((feedPieces chunkStart [] 0 [ascii "5\r\nhel",
        ascii "lo\r", ascii "\n0\r\n\r\nHT"]).outcome.code ≠ -1 →
        feedPieces chunkStart [] 0 [ascii "5\r\nhel", ascii "lo\r", ascii "\n0\r\n\r\nHT"] =
          feedPieces chunkStart [] 0 ((ascii "5\r\nhello\r\n0\r\n\r\nHT").map fun b => [b])) :=
  @chunk_feed_splits (ascii "5\r\nhello\r\n0\r\n\r\nHT") _ _ (by decide) (by decide)

end Cweb.HttpClient
