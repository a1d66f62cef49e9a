import Cweb.Http.H2Settle

/-!
# The body of a response

What a stream's cursors have passed is a prefix of the body, each payload is
the part they pass next, and the payload that is marked as the last one leaves
nothing behind them.
-/

namespace Cweb.H2

/-! ## The body -/

/-- What one call of the producer adds; a result that cannot be framed ends the
body like an empty one. -/
def output (fn : List Nat → Bytes) (caps : List Nat) : Bytes :=
  if h2MaxFrameSize < (fn caps).length then [] else fn caps

/-- What a producer gave for the capacities it was offered. -/
def producedBy (fn : List Nat → Bytes) (caps : List Nat) : Bytes :=
  (List.range caps.length).flatMap fun n => output fn (caps.take (n + 1))

def produced (s : H2Stream) : Bytes :=
  match s.res.streamFn with
  | none => []
  | some fn => producedBy fn s.fnCaps

def queued (s : H2Stream) : Bytes := s.res.streamChunks.flatten

/-- The bytes the response has for its body. -/
def fullBody (s : H2Stream) : Bytes := if s.res.streaming then queued s ++ produced s else s.res.body

/-- Answers to HEAD and those with a status that allows none have no body, nor
have those that suppress it. -/
def noBody (s : H2Stream) : Bool :=
  decide (s.res.status < 200) || s.res.status == 204 || s.res.status == 304 || s.res.suppressBody ||
    s.req.method == .head

def entityBody (s : H2Stream) : Bytes := if noBody s then [] else fullBody s

/-- A producer, if there is one, has no more to give. -/
def Exhausted (s : H2Stream) : Prop :=
  ∀ fn, s.res.streamFn = some fn → fn s.fnCaps = [] ∨ h2MaxFrameSize < (fn s.fnCaps).length

def taken (s : H2Stream) : Bytes :=
  if s.res.streaming then
    (s.res.streamChunks.take s.queueI).flatten ++ ((s.res.streamChunks[s.queueI]?).getD []).take s.queueOff ++
      produced s
  else s.res.body.take s.bodyOff

structure CursorOk (s : H2Stream) : Prop where
  queue : s.queueI ≤ s.res.streamChunks.length
  order : s.fnCaps ≠ [] → s.queueI = s.res.streamChunks.length
  eof : s.fnEof = true → s.queueI = s.res.streamChunks.length ∧ Exhausted s

theorem producedBy_append (fn : List Nat → Bytes) (caps : List Nat) (cap : Nat) :
    producedBy fn (caps ++ [cap]) = producedBy fn caps ++ output fn (caps ++ [cap]) := by
  rw [producedBy, List.length_append, List.length_singleton, List.range_succ, List.flatMap_append,
    List.flatMap_singleton]
  congr 1
  · rw [producedBy, List.flatMap_def, List.flatMap_def]
    congr 1
    refine List.map_congr_left ?_
    intro n hn
    have hLt := List.mem_range.mp hn
    rw [List.take_append_of_le_length (by omega)]
  · rw [List.take_of_length_le (by simp)]

theorem output_eq_nil {fn : List Nat → Bytes} {caps : List Nat}
    (h : fn caps = [] ∨ h2MaxFrameSize < (fn caps).length) : output fn caps = [] := by
  rw [output]
  split
  · rfl
  · rename_i hSmall
    exact h.resolve_right hSmall

theorem produced_of_none {s : H2Stream} (h : s.res.streamFn = none) : produced s = [] := by
  rw [produced, h]

theorem produced_of_caps_nil {s : H2Stream} (h : s.fnCaps = []) : produced s = [] := by
  rw [produced]
  split
  · rfl
  · rw [h]
    rfl

/-! ## The cursors -/

theorem take_succ_flatten {l : List Bytes} {i : Nat} {ch : Bytes} (h : l[i]? = some ch) :
    (l.take (i + 1)).flatten = (l.take i).flatten ++ ch := by
  rw [List.take_add_one, h, Option.toList_some, List.flatten_append, List.flatten_singleton]

theorem taken_of_queue {s : H2Stream} (hStreaming : s.res.streaming = true)
    (hEnd : s.queueI = s.res.streamChunks.length) : taken s = queued s ++ produced s := by
  have hNone : s.res.streamChunks[s.queueI]? = none := by
    rw [hEnd]
    exact List.getElem?_eq_none_iff.mpr (Nat.le_refl _)
  rw [taken, if_pos hStreaming, hNone, Option.getD_none, List.take_nil, List.append_nil, hEnd,
    List.take_of_length_le (Nat.le_refl _)]
  rfl

theorem taken_prefix {s : H2Stream} (h : CursorOk s) : taken s <+: fullBody s := by
  rw [fullBody]
  split
  · rename_i hStreaming
    by_cases hCaps : s.fnCaps = []
    · rw [produced_of_caps_nil hCaps, List.append_nil, taken, if_pos hStreaming, produced_of_caps_nil hCaps,
        List.append_nil]
      cases hAt : s.res.streamChunks[s.queueI]? with
      | none =>
        rw [Option.getD_none, List.take_nil, List.append_nil, queued]
        conv_rhs => rw [← List.take_append_drop s.queueI s.res.streamChunks]
        rw [List.flatten_append]
        exact List.prefix_append _ _
      | some ch =>
        rw [Option.getD_some, queued]
        have hSplit : s.res.streamChunks.flatten =
            (s.res.streamChunks.take s.queueI).flatten ++ ch ++
            (s.res.streamChunks.drop (s.queueI + 1)).flatten := by
          rw [← take_succ_flatten hAt, ← List.flatten_append, List.take_append_drop]
        rw [hSplit, List.append_assoc]
        refine (List.prefix_append_right_inj _).mpr ?_
        exact (List.take_prefix _ _).trans (List.prefix_append _ _)
    · refine ⟨[], ?_⟩
      rw [List.append_nil, taken_of_queue hStreaming (h.order hCaps)]
  · rename_i hStreaming
    rw [taken, if_neg hStreaming]
    exact List.take_prefix _ _

theorem skipDrained_taken (fuel : Nat) : ∀ {s : H2Stream}, s.res.streaming = true → CursorOk s →
    taken (skipDrained fuel s) = taken s ∧ CursorOk (skipDrained fuel s) := by
  induction fuel with
  | zero => exact fun _ h => ⟨rfl, h⟩
  | succ fuel ih =>
    intro s hStreaming h
    rw [skipDrained]
    cases hAt : s.res.streamChunks[s.queueI]? with
    | none => exact ⟨rfl, h⟩
    | some ch =>
      dsimp only
      split
      · rename_i hDrained
        have hLt := (List.getElem?_eq_some_iff.mp hAt).1
        have hNext : CursorOk { s with queueI := s.queueI + 1, queueOff := 0 } := by
          refine ⟨hLt, ?_, ?_⟩
          · intro hCaps
            have hEnd := h.order hCaps
            omega
          · intro hEof
            have hEnd := (h.eof hEof).1
            omega
        obtain ⟨hTaken, hOk⟩ := ih (s := { s with queueI := s.queueI + 1, queueOff := 0 }) hStreaming hNext
        have hWhole : ch.take s.queueOff = ch := List.take_of_length_le (by omega)
        refine ⟨hTaken.trans ?_, hOk⟩
        rw [taken, if_pos hStreaming, taken, if_pos hStreaming, hAt, Option.getD_some, List.take_zero,
          List.append_nil,
          take_succ_flatten hAt, hWhole]
        rfl
      · exact ⟨rfl, h⟩

theorem skipDrained_rest (fuel : Nat) : ∀ {s : H2Stream}, s.res.streamChunks.length ≤ s.queueI + fuel →
    ∀ {ch : Bytes}, (skipDrained fuel s).res.streamChunks[(skipDrained fuel s).queueI]? = some ch →
      ch.length - (skipDrained fuel s).queueOff ≠ 0 := by
  induction fuel with
  | zero =>
    intro s hFuel ch hAt
    have hLt := (List.getElem?_eq_some_iff.mp hAt).1
    change s.queueI < s.res.streamChunks.length at hLt
    omega
  | succ fuel ih =>
    intro s hFuel ch hAt
    rw [skipDrained] at hAt ⊢
    cases hNow : s.res.streamChunks[s.queueI]? with
    | none =>
      rw [hNow] at hAt
      dsimp only at hAt
      rw [hNow] at hAt
      cases hAt
    | some now =>
      rw [hNow] at hAt
      dsimp only at hAt ⊢
      split
      · rename_i hDrained
        rw [if_pos hDrained] at hAt
        refine ih ?_ hAt
        change s.res.streamChunks.length ≤ s.queueI + 1 + fuel
        omega
      · rename_i hLeft
        rw [if_neg hLeft, hNow] at hAt
        obtain rfl := Option.some.inj hAt
        exact hLeft

/-! ## The next payload -/

theorem nextChunk_taken {s s' : H2Stream} {ch src : Bytes} {room : Int} {eof : Bool}
    (hStreaming : s.res.streaming = true) (hOk : CursorOk s) (hAt : s.res.streamChunks[s.queueI]? = some ch)
    (h : nextChunk s ch room = (s', some (src, eof))) :
    taken s' = taken s ++ src ∧ CursorOk s' ∧ (eof = true → taken s' = fullBody s' ∧ Exhausted s') := by
  have hLt := (List.getElem?_eq_some_iff.mp hAt).1
  have hCaps : s.fnCaps = [] := by
    by_contra hCaps
    have hEnd := hOk.order hCaps
    omega
  have hEof : s.fnEof = false := by
    rw [← Bool.not_eq_true]
    intro hTrue
    have hEnd := (hOk.eof hTrue).1
    omega
  have hNone : ∀ t : H2Stream, t.fnCaps = s.fnCaps → produced t = [] :=
    fun t hSame => produced_of_caps_nil (hSame.trans hCaps)
  have hBefore : taken s = (s.res.streamChunks.take s.queueI).flatten ++ ch.take s.queueOff := by
    rw [taken, if_pos hStreaming, hAt, Option.getD_some, hNone _ rfl, List.append_nil]
  rw [nextChunk] at h
  split at h
  · cases h
  · dsimp only at h
    obtain ⟨hNext, hData⟩ := Prod.mk.inj h
    obtain ⟨rfl, rfl⟩ := Prod.mk.inj (Option.some.inj hData)
    subst hNext
    split
    · rename_i hWhole
      have hNext : taken { s with queueI := s.queueI + 1, queueOff := 0 } =
          (s.res.streamChunks.take s.queueI).flatten ++ ch := by
        have hNil : produced { s with queueI := s.queueI + 1, queueOff := 0 } = [] := hNone _ rfl
        rw [taken, if_pos hStreaming, List.take_zero, List.append_nil, take_succ_flatten hAt, hNil,
          List.append_nil]
      refine ⟨?_, ⟨hLt, fun hNe => absurd hCaps hNe, fun hTrue => ?_⟩, ?_⟩
      · rw [hNext, hBefore, List.append_assoc,
          ← List.take_add, hWhole, List.take_of_length_le (Nat.le_refl _)]
      · rw [show s.fnEof = true from hTrue] at hEof
        cases hEof
      · intro hLast
        rw [Bool.and_eq_true, decide_eq_true_iff] at hLast
        obtain ⟨hEnd, hQueueOnly⟩ := hLast
        change s.res.streamChunks.length ≤ s.queueI + 1 at hEnd
        refine ⟨?_, fun fn hFn => ?_⟩
        · rw [fullBody, if_pos hStreaming]
          exact taken_of_queue hStreaming (show s.queueI + 1 = s.res.streamChunks.length by omega)
        · change s.res.streamFn = some fn at hFn
          rw [hFn] at hQueueOnly
          cases hQueueOnly
    · refine ⟨?_, ⟨hOk.queue, fun hNe => absurd hCaps hNe, fun hTrue => ?_⟩, ?_⟩
      · rw [taken, if_pos hStreaming, hBefore]
        have hNil :
            produced { s with queueOff := s.queueOff + min (ch.length - s.queueOff) (dataCap room) } = [] :=
          hNone _ rfl
        dsimp only
        rw [hAt, Option.getD_some, hNil, List.append_nil, List.append_assoc, ← List.take_add]
      · rw [show s.fnEof = true from hTrue] at hEof
        cases hEof
      · intro hLast
        rw [Bool.and_eq_true, decide_eq_true_iff] at hLast
        have hEnd : s.res.streamChunks.length ≤ s.queueI := hLast.1
        omega

theorem nextProduced_taken {s s' : H2Stream} {fn : List Nat → Bytes} {src : Bytes} {room : Int} {eof : Bool}
    (hStreaming : s.res.streaming = true) (hOk : CursorOk s) (hEnd : s.queueI = s.res.streamChunks.length)
    (hFn : s.res.streamFn = some fn) (h : nextProduced s fn room = (s', some (src, eof))) :
    taken s' = taken s ++ src ∧ CursorOk s' ∧ (eof = true → taken s' = fullBody s' ∧ Exhausted s') := by
  have hFull : ∀ t : H2Stream, t.res = s.res → t.queueI = s.queueI → taken t = queued s ++ produced t := by
    intro t hRes hQueue
    rw [taken_of_queue (hRes ▸ hStreaming) (by rw [hRes, hQueue, hEnd]), queued, hRes]
    rfl
  have hProduced : ∀ caps, produced { s with fnCaps := caps } = producedBy fn caps := by
    intro caps
    rw [produced, hFn]
  rw [nextProduced] at h
  split at h
  · rename_i hEof
    obtain ⟨hNext, hData⟩ := Prod.mk.inj h
    obtain ⟨rfl, rfl⟩ := Prod.mk.inj (Option.some.inj hData)
    subst hNext
    refine ⟨(List.append_nil _).symm, hOk, fun _ => ⟨?_, (hOk.eof hEof).2⟩⟩
    rw [hFull s rfl rfl, fullBody, if_pos hStreaming]
  · split at h
    · cases h
    · dsimp only at h
      have hMore : produced { s with fnCaps := s.fnCaps ++ [dataCap room] } =
          produced s ++ output fn (s.fnCaps ++ [dataCap room]) := by
        rw [hProduced, producedBy_append, produced, hFn]
      split at h
      · rename_i hDone
        obtain ⟨hNext, hData⟩ := Prod.mk.inj h
        obtain ⟨rfl, rfl⟩ := Prod.mk.inj (Option.some.inj hData)
        subst hNext
        have hSame : produced { s with fnCaps := s.fnCaps ++ [dataCap room], fnEof := true } =
          produced s := by
          rw [output_eq_nil hDone, List.append_nil] at hMore
          exact hMore
        have hExhausted : Exhausted { s with fnCaps := s.fnCaps ++ [dataCap room], fnEof := true } := by
          intro fn' hFn'
          obtain rfl := Option.some.inj (hFn.symm.trans hFn')
          exact hDone
        have hAfter := hFull { s with fnCaps := s.fnCaps ++ [dataCap room], fnEof := true } rfl rfl
        refine ⟨?_, ⟨hOk.queue, fun _ => hEnd, fun _ => ⟨hEnd, hExhausted⟩⟩, fun _ => ⟨?_, hExhausted⟩⟩
        · rw [hAfter, hSame, hFull s rfl rfl, List.append_nil]
        · rw [hAfter, fullBody, if_pos hStreaming]
          rfl
      · rename_i hNotEof _ hMoreBytes
        obtain ⟨hNext, hData⟩ := Prod.mk.inj h
        obtain ⟨rfl, rfl⟩ := Prod.mk.inj (Option.some.inj hData)
        subst hNext
        refine ⟨?_, ⟨hOk.queue, fun _ => hEnd, fun hTrue => absurd hTrue hNotEof⟩, fun hFalse =>
          Bool.noConfusion hFalse⟩
        rw [hFull { s with fnCaps := s.fnCaps ++ [dataCap room] } rfl rfl, hMore, hFull s rfl rfl,
          List.append_assoc]
        congr 2
        rw [output, if_neg (fun hLong => hMoreBytes (.inr hLong))]

theorem nextAssembled_taken {s s' : H2Stream} {src : Bytes} {room : Int} {eof : Bool}
    (hStreaming : s.res.streaming = false) (hOk : CursorOk s)
    (h : nextAssembled s room = (s', some (src, eof))) :
    taken s' = taken s ++ src ∧ CursorOk s' ∧ (eof = true → taken s' = fullBody s' ∧ Exhausted s') := by
  have hExhausted : ∀ t : H2Stream, t.res = s.res → Exhausted t := by
    intro t hRes fn hFn
    rw [HttpResponse.streaming, ← hRes, hFn] at hStreaming
    cases hStreaming
  have hAssembled : ∀ t : H2Stream, t.res = s.res → taken t = s.res.body.take t.bodyOff ∧
    fullBody t = s.res.body := by
    intro t hRes
    rw [taken, fullBody, hRes, hStreaming]
    exact ⟨rfl, rfl⟩
  rw [nextAssembled] at h
  split at h
  · rename_i hDone
    obtain ⟨hNext, hData⟩ := Prod.mk.inj h
    obtain ⟨rfl, rfl⟩ := Prod.mk.inj (Option.some.inj hData)
    subst hNext
    refine ⟨(List.append_nil _).symm, hOk, fun _ => ⟨?_, hExhausted s rfl⟩⟩
    rw [(hAssembled s rfl).1, (hAssembled s rfl).2, List.take_of_length_le (by omega)]
  · split at h
    · cases h
    · dsimp only at h
      obtain ⟨hNext, hData⟩ := Prod.mk.inj h
      obtain ⟨rfl, rfl⟩ := Prod.mk.inj (Option.some.inj hData)
      subst hNext
      have hAfter := hAssembled
        { s with bodyOff := s.bodyOff + min (s.res.body.length - s.bodyOff) (dataCap room) } rfl
      refine ⟨?_, ⟨hOk.queue, hOk.order, hOk.eof⟩, fun hLast => ⟨?_, hExhausted _ rfl⟩⟩
      · rw [hAfter.1, (hAssembled s rfl).1]
        exact List.take_add
      · rw [hAfter.1, hAfter.2]
        exact List.take_of_length_le (decide_eq_true_iff.mp hLast)

theorem h2NextData_taken {s s' : H2Stream} {src : Bytes} {room : Int} {eof : Bool} (hOk : CursorOk s)
    (h : h2NextData s room = (s', some (src, eof))) :
    taken s' = taken s ++ src ∧ CursorOk s' ∧ (eof = true → taken s' = fullBody s' ∧ Exhausted s') := by
  rw [h2NextData] at h
  split at h
  · rename_i hStreaming
    dsimp only at h
    have hRes : (skipDrained s.res.streamChunks.length s).res = s.res := by
      rw [skipDrained_moves]
    obtain ⟨hTaken, hSkipped⟩ := skipDrained_taken s.res.streamChunks.length hStreaming hOk
    rw [← hTaken]
    generalize skipDrained s.res.streamChunks.length s = t at h hRes hSkipped
    rw [← hRes] at hStreaming
    split at h
    · rename_i ch hAt
      exact nextChunk_taken hStreaming hSkipped hAt h
    · rename_i hNone
      have hEnd : t.queueI = t.res.streamChunks.length :=
        Nat.le_antisymm hSkipped.queue (List.getElem?_eq_none_iff.mp hNone)
      split at h
      · rename_i hFn
        obtain ⟨hNext, hData⟩ := Prod.mk.inj h
        obtain ⟨rfl, rfl⟩ := Prod.mk.inj (Option.some.inj hData)
        subst hNext
        refine ⟨(List.append_nil _).symm, hSkipped, fun _ => ⟨?_, fun fn hSome => ?_⟩⟩
        · rw [taken_of_queue hStreaming hEnd, fullBody, if_pos hStreaming]
        · rw [hFn] at hSome
          cases hSome
      · rename_i fn hFn
        exact nextProduced_taken hStreaming hSkipped hEnd hFn h
  · rename_i hStreaming
    exact nextAssembled_taken (Bool.not_eq_true _ ▸ hStreaming) hOk h

theorem h2NextData_none {s s' : H2Stream} {room : Int} (hOk : CursorOk s)
    (h : h2NextData s room = (s', none)) :
    taken s' = taken s ∧ CursorOk s' := by
  rw [h2NextData] at h
  split at h
  · rename_i hStreaming
    dsimp only at h
    have hSkip := skipDrained_taken s.res.streamChunks.length hStreaming hOk
    generalize skipDrained s.res.streamChunks.length s = t at h hSkip
    have hSame : s' = t := by
      split at h
      · rw [nextChunk] at h
        split at h
        · exact (Prod.mk.inj h).1.symm
        · cases h
      · split at h
        · cases h
        · rw [nextProduced] at h
          split at h
          · cases h
          · split at h
            · exact (Prod.mk.inj h).1.symm
            · dsimp only at h
              split at h <;> cases h
    rw [hSame]
    exact hSkip
  · rw [nextAssembled] at h
    split at h
    · cases h
    · split at h
      · obtain rfl := (Prod.mk.inj h).1
        exact ⟨rfl, hOk⟩
      · cases h

/-- A payload fits a frame, and takes room unless it is empty. -/
theorem h2NextData_length {s s' : H2Stream} {src : Bytes} {room : Int} {eof : Bool}
    (h : h2NextData s room = (s', some (src, eof))) : src.length ≤ h2MaxFrameSize ∧
      (src = [] ∨ 0 < room) := by
  have hCap : ∀ room, 0 < room → dataCap room ≤ h2MaxFrameSize := by
    intro room hPos
    rw [dataCap]
    split <;> omega
  rw [h2NextData] at h
  split at h
  · dsimp only at h
    split at h
    · rw [nextChunk] at h
      split at h
      · cases h
      · have hPos := hCap room (by omega)
        obtain ⟨rfl, _⟩ := Prod.mk.inj (Option.some.inj (Prod.mk.inj h).2)
        rw [List.length_take]
        exact ⟨by omega, .inr (by omega)⟩
    · split at h
      · obtain ⟨rfl, _⟩ := Prod.mk.inj (Option.some.inj (Prod.mk.inj h).2)
        exact ⟨Nat.zero_le _, .inl rfl⟩
      · rw [nextProduced] at h
        split at h
        · obtain ⟨rfl, _⟩ := Prod.mk.inj (Option.some.inj (Prod.mk.inj h).2)
          exact ⟨Nat.zero_le _, .inl rfl⟩
        · split at h
          · cases h
          · rename_i hRoom
            dsimp only at h
            split at h
            · obtain ⟨rfl, _⟩ := Prod.mk.inj (Option.some.inj (Prod.mk.inj h).2)
              exact ⟨Nat.zero_le _, .inl rfl⟩
            · rename_i hSmall
              obtain ⟨rfl, _⟩ := Prod.mk.inj (Option.some.inj (Prod.mk.inj h).2)
              exact ⟨not_lt.mp (not_or.mp hSmall).2, .inr (not_le.mp hRoom)⟩
  · rw [nextAssembled] at h
    split at h
    · obtain ⟨rfl, _⟩ := Prod.mk.inj (Option.some.inj (Prod.mk.inj h).2)
      exact ⟨Nat.zero_le _, .inl rfl⟩
    · split at h
      · cases h
      · have hPos := hCap room (by omega)
        obtain ⟨rfl, _⟩ := Prod.mk.inj (Option.some.inj (Prod.mk.inj h).2)
        rw [List.length_take]
        exact ⟨by omega, .inr (by omega)⟩

theorem h2NextData_progress {s s' : H2Stream} {src : Bytes} {room : Int}
    (h : h2NextData s room = (s', some (src, false))) : src ≠ [] := by
  have hCap : ∀ room, 0 < room → 0 < dataCap room := by
    intro room hPos
    rw [dataCap]
    split
    · decide
    · omega
  have hTake : ∀ (l : Bytes) {off n : Nat}, l.length - off ≠ 0 → 0 < n →
      (l.drop off).take (min (l.length - off) n) ≠ [] := by
    intro l off n hLeft hPos hNil
    have hLen := congrArg List.length hNil
    rw [List.length_take, List.length_drop, List.length_nil] at hLen
    omega
  rw [h2NextData] at h
  split at h
  · dsimp only at h
    split at h
    · rename_i ch hAt
      have hLeft := skipDrained_rest s.res.streamChunks.length (s := s) (by omega) hAt
      rw [nextChunk] at h
      split at h
      · cases h
      · rename_i hRoom
        obtain ⟨rfl, _⟩ := Prod.mk.inj (Option.some.inj (Prod.mk.inj h).2)
        exact hTake ch hLeft (hCap room (not_le.mp hRoom))
    · split at h
      · cases h
      · rw [nextProduced] at h
        split at h
        · cases h
        · split at h
          · cases h
          · dsimp only at h
            split at h
            · cases h
            · rename_i hMore
              obtain ⟨rfl, _⟩ := Prod.mk.inj (Option.some.inj (Prod.mk.inj h).2)
              exact (not_or.mp hMore).1
  · rw [nextAssembled] at h
    split at h
    · cases h
    · rename_i hLeft
      split at h
      · cases h
      · rename_i hRoom
        obtain ⟨rfl, _⟩ := Prod.mk.inj (Option.some.inj (Prod.mk.inj h).2)
        exact hTake s.res.body hLeft (hCap room (not_le.mp hRoom))

theorem entityBody_of_bodyless {s : H2Stream} (h : bodyless s = true) : entityBody s = [] := by
  rw [entityBody]
  split
  · rfl
  · rename_i hWant
    simp only [noBody, Bool.or_eq_true, not_or, Bool.not_eq_true] at hWant
    obtain ⟨⟨⟨⟨hLow, h204⟩, h304⟩, hSuppress⟩, hHead⟩ := hWant
    simp only [bodyless, hLow, h204, h304, hSuppress, hHead] at h
    simp only [Bool.or_self, Bool.not_false, Bool.and_self, Bool.true_and, Bool.not_eq_true',
      Bool.or_eq_false_iff,
      Bool.not_eq_false'] at h
    rw [fullBody, h.1, if_neg Bool.false_ne_true]
    exact List.isEmpty_iff.mp h.2

theorem entityBody_of_not_bodyless {s : H2Stream} (h : bodyless s = false) : entityBody s = fullBody s := by
  rw [entityBody, if_neg]
  intro hNone
  simp only [noBody, Bool.or_eq_true] at hNone
  obtain (((hNone | hNone) | hNone) | hNone) | hNone := hNone <;> simp [bodyless, hNone] at h

end Cweb.H2
