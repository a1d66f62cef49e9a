import Cweb.Http.HeadText

/-!
# Chunks read back

What the server writes for a chunked body the client's decoder reads back, in
whatever pieces it arrives.
-/

namespace Cweb

open Sv HttpClient

/-! ## Chunk sizes -/

theorem hexDigitChar_facts {d : Nat} (h : d < 16) :
    hexDigit (hexDigitChar d) = some d ∧ hexDigitChar d ≠ 13 ∧ hexDigitChar d ≠ 59 ∧ hexDigitChar d ≠ 10 := by
  have hAll : ∀ d < 16, hexDigit (hexDigitChar d) = some d ∧ hexDigitChar d ≠ 13 ∧ hexDigitChar d ≠ 59 ∧
      hexDigitChar d ≠ 10 := by decide
  exact hAll d h

theorem chunkSize_digit {d n digits : Nat} (hd : d < 16) (hFits : n * 16 + d ≤ clientMaxBody) (rest : Bytes) :
    chunkSize n digits (hexDigitChar d :: rest) = chunkSize (n * 16 + d) (digits + 1) rest := by
  obtain ⟨hDigit, hCr, hSemi, _⟩ := hexDigitChar_facts hd
  rw [chunkSize, if_neg (by rintro (h | h); exacts [hCr h, hSemi h]), hDigit]
  dsimp only
  rw [if_neg (by omega)]

theorem chunkSize_hexFuel (fuel : Nat) : ∀ {n acc digits : Nat} (rest : Bytes), n ≤ fuel →
    acc * 16 ^ (hexFuel fuel n).length + n ≤ clientMaxBody →
      chunkSize acc digits (hexFuel fuel n ++ rest) =
        chunkSize (acc * 16 ^ (hexFuel fuel n).length + n) (digits + (hexFuel fuel n).length) rest := by
  induction fuel with
  | zero =>
    intro n acc digits rest hn hFits
    obtain rfl : n = 0 := by omega
    rw [hexFuel] at hFits ⊢
    rw [List.length_singleton, Nat.pow_one, Nat.add_zero] at hFits ⊢
    rw [List.singleton_append, chunkSize_digit (by omega) (by omega)]
    rfl
  | succ fuel ih =>
    intro n acc digits rest hn hFits
    rw [hexFuel] at hFits ⊢
    split
    · rename_i hSmall
      rw [if_pos hSmall, List.length_singleton, Nat.pow_one] at hFits
      rw [List.length_singleton, Nat.pow_one, List.singleton_append, chunkSize_digit hSmall hFits]
    · rename_i hLarge
      rw [if_neg hLarge, List.length_append, List.length_singleton, Nat.pow_succ] at hFits
      have hPow : acc * (16 ^ (hexFuel fuel (n / 16)).length * 16) = acc * 16 ^
        (hexFuel fuel (n / 16)).length * 16 :=
        (Nat.mul_assoc _ _ _).symm
      rw [hPow] at hFits
      have hStep := @ih (n / 16) acc digits (hexDigitChar (n % 16) :: rest) (by omega) (by omega)
      rw [List.length_append, List.length_singleton, Nat.pow_succ, List.append_assoc,
        List.singleton_append, hStep,
        chunkSize_digit (Nat.mod_lt _ (by decide)) (by omega), hPow]
      congr 1
      omega

theorem hexFuel_length_pos (fuel n : Nat) : 0 < (hexFuel fuel n).length := by
  cases fuel with
  | zero => exact Nat.one_pos
  | succ fuel =>
    rw [hexFuel]
    split
    · exact Nat.one_pos
    · rw [List.length_append, List.length_singleton]
      omega

theorem hexFuel_length_le (fuel : Nat) : ∀ {n k : Nat}, n < 16 ^ (k + 1) →
    (hexFuel fuel n).length ≤ k + 1 := by
  induction fuel with
  | zero =>
    intro n k _
    rw [hexFuel, List.length_singleton]
    omega
  | succ fuel ih =>
    intro n k hn
    rw [hexFuel]
    split
    · rw [List.length_singleton]
      omega
    · rename_i hLarge
      cases k with
      | zero => exact absurd hn hLarge
      | succ k =>
        have hDiv : n / 16 < 16 ^ (k + 1) := by
          rw [Nat.pow_succ] at hn
          omega
        have hLe := ih hDiv
        rw [List.length_append, List.length_singleton]
        omega

theorem not_mem_hexFuel (fuel : Nat) : ∀ n, 10 ∉ hexFuel fuel n := by
  induction fuel with
  | zero =>
    intro n hMem
    exact (hexDigitChar_facts (Nat.mod_lt n (by decide))).2.2.2 (List.mem_singleton.mp hMem).symm
  | succ fuel ih =>
    intro n hMem
    rw [hexFuel] at hMem
    split at hMem
    · rename_i hSmall
      exact (hexDigitChar_facts hSmall).2.2.2 (List.mem_singleton.mp hMem).symm
    · obtain hMem | hMem := List.mem_append.mp hMem
      · exact ih _ hMem
      · exact (hexDigitChar_facts (Nat.mod_lt n (by decide))).2.2.2 (List.mem_singleton.mp hMem).symm

theorem chunkSize_hex {n : Nat} (h : n ≤ clientMaxBody) : chunkSize 0 0 (hex n ++ [13]) = .ok n := by
  have hHex := @chunkSize_hexFuel n n 0 0 [13] (Nat.le_refl n) (by omega)
  rw [Nat.zero_mul, Nat.zero_add, Nat.zero_add] at hHex
  have hPos := hexFuel_length_pos n n
  rw [hex, hHex, chunkSize, if_pos (.inl rfl), if_neg (by omega)]

/-! ## The text of a chunked body -/

def chunksText (chunks : List Bytes) : Bytes := chunks.flatMap chunkFrame ++ lastChunk

/-- The first line of it without its newline, and what stands behind. -/
def sizeLine : List Bytes → Bytes
  | [] => ascii "0\r"
  | ch :: _ => hex ch.length ++ [13]

def behindSize : List Bytes → Bytes
  | [] => crlf
  | ch :: chunks => ch ++ crlf ++ chunksText chunks

theorem chunksText_eq (chunks : List Bytes) :
    chunksText chunks = sizeLine chunks ++ 10 :: behindSize chunks := by
  cases chunks with
  | nil => decide
  | cons ch chunks =>
    rw [chunksText, List.flatMap_cons]
    simp [chunkFrame, sizeLine, behindSize, chunksText, crlf]

/-- Chunks as the server sends them, within the client's cap. -/
def ChunksOk (chunks : List Bytes) : Prop := ∀ ch ∈ chunks, ch ≠ [] ∧ ch.length ≤ clientMaxBody

theorem not_mem_sizeLine (chunks : List Bytes) : 10 ∉ sizeLine chunks := by
  cases chunks with
  | nil => decide
  | cons ch chunks =>
    intro hMem
    obtain hMem | hMem := List.mem_append.mp hMem
    · exact not_mem_hexFuel _ _ hMem
    · exact absurd (List.mem_singleton.mp hMem) (by decide)

theorem sizeLine_length {chunks : List Bytes} (h : ChunksOk chunks) : (sizeLine chunks).length ≤ 266 := by
  cases chunks with
  | nil => decide
  | cons ch chunks =>
    have hCap : ch.length < 16 ^ (6 + 1) := by
      have hLe := (h ch List.mem_cons_self).2
      rw [clientMaxBody] at hLe
      omega
    have hLe := @hexFuel_length_le ch.length ch.length 6 hCap
    rw [sizeLine, hex, List.length_append, List.length_singleton]
    omega

theorem chunkSize_sizeLine {chunks : List Bytes} (h : ChunksOk chunks) :
    chunkSize 0 0 (sizeLine chunks) = .ok (match chunks with | [] => 0 | ch :: _ => ch.length) := by
  cases chunks with
  | nil => rfl
  | cons ch chunks => exact chunkSize_hex (h ch List.mem_cons_self).2

theorem chunkLine_line {text : Bytes} (hLf : 10 ∉ text) (rest : Bytes) :
    ∀ {acc : Bytes}, acc.length + text.length ≤ 266 →
    chunkLine acc (text ++ 10 :: rest) = some (acc ++ text, 10 :: rest) := by
  induction text with
  | nil =>
    intro acc _
    rw [List.nil_append, chunkLine, if_pos rfl, List.append_nil]
  | cons b text ih =>
    intro acc hLength
    rw [List.length_cons] at hLength
    have hb : b ≠ 10 := fun hEq => hLf (by rw [hEq]; exact List.mem_cons_self)
    rw [List.cons_append, chunkLine, if_neg hb, if_neg (by omega),
      ih (fun hMem => hLf (List.mem_cons_of_mem _ hMem))
        (by rw [List.length_append, List.length_singleton]; omega),
      List.append_assoc, List.singleton_append]

theorem chunkLine_part {text : Bytes} (hLf : 10 ∉ text) : ∀ {acc : Bytes}, acc.length + text.length ≤ 266 →
    chunkLine acc text = some (acc ++ text, []) := by
  induction text with
  | nil =>
    intro acc _
    rw [chunkLine, List.append_nil]
  | cons b text ih =>
    intro acc hLength
    rw [List.length_cons] at hLength
    have hb : b ≠ 10 := fun hEq => hLf (by rw [hEq]; exact List.mem_cons_self)
    rw [chunkLine, if_neg hb, if_neg (by omega),
      ih (fun hMem => hLf (List.mem_cons_of_mem _ hMem))
        (by rw [List.length_append, List.length_singleton]; omega),
      List.append_assoc, List.singleton_append]

theorem chunkLine_cases {text tail buf later acc : Bytes} (hLf : 10 ∉ text)
    (hLength : acc.length + text.length ≤ 266)
    (hSplit : buf ++ later = text ++ 10 :: tail) :
    (∃ text', text = buf ++ text' ∧ later = text' ++ 10 :: tail ∧ chunkLine acc buf = some (acc ++ buf, [])) ∨
    (∃ left, tail = left ++ later ∧ buf.length = text.length + 1 + left.length ∧
      chunkLine acc buf = some (acc ++ text, 10 :: left)) := by
  obtain ⟨text', rfl, rfl⟩ | ⟨more, rfl, hTail⟩ := List.append_eq_append_iff.mp hSplit
  · refine .inl ⟨text', rfl, rfl, chunkLine_part (fun hMem => hLf (List.mem_append_left _ hMem)) ?_⟩
    rw [List.length_append] at hLength
    omega
  · cases more with
    | nil =>
      refine .inl ⟨[], by rw [List.append_nil, List.append_nil], hTail.symm, ?_⟩
      rw [List.append_nil]
      exact chunkLine_part hLf hLength
    | cons b left =>
      obtain ⟨rfl, rfl⟩ := List.cons.inj hTail
      refine .inr ⟨left, rfl, ?_, chunkLine_line hLf left hLength⟩
      rw [List.length_append, List.length_cons]
      omega

theorem chunkCrlf_cases {buf later tail : Bytes} {seen : Nat} (hSome : buf ≠ []) (hSeen : seen < 2)
    (hSplit : buf ++ later = crlf.drop seen ++ tail) :
    ∃ seen' left, chunkCrlf seen buf = (seen', left, true) ∧ left.length < buf.length ∧
      ((seen' < 2 ∧ left = [] ∧ later = crlf.drop seen' ++ tail) ∨ (seen' = 2 ∧ left ++ later = tail)) := by
  have hLast : ∀ {buf : Bytes}, buf ≠ [] → buf ++ later = 10 :: tail →
      ∃ left, chunkCrlf 1 buf = (2, left, true) ∧ left.length < buf.length ∧ left ++ later = tail := by
    intro buf hSome hSplit
    cases buf with
    | nil => exact absurd rfl hSome
    | cons b left =>
      obtain ⟨rfl, hTail⟩ := List.cons.inj hSplit
      refine ⟨left, ?_, Nat.lt_succ_self _, hTail⟩
      rw [chunkCrlf, if_neg (by decide), if_pos (by rfl)]
      cases left with
      | nil => rfl
      | cons b left => rw [chunkCrlf, if_pos (Nat.le_refl 2)]
  obtain rfl | rfl : seen = 0 ∨ seen = 1 := by omega
  · cases buf with
    | nil => exact absurd rfl hSome
    | cons b buf =>
      obtain ⟨rfl, hTail⟩ := List.cons.inj hSplit
      rw [chunkCrlf, if_neg (by decide), if_pos (by rfl)]
      by_cases hEmpty : buf = []
      · subst hEmpty
        exact ⟨1, [], rfl, Nat.one_pos, .inl ⟨by decide, rfl, hTail⟩⟩
      · obtain ⟨left, hEq, hLess, hLeft⟩ := hLast hEmpty hTail
        exact ⟨2, left, hEq, by rw [List.length_cons]; omega, .inr ⟨rfl, hLeft⟩⟩
  · obtain ⟨left, hEq, hLess, hLeft⟩ := hLast hSome hSplit
    exact ⟨2, left, hEq, hLess, .inr ⟨rfl, hLeft⟩⟩

/-! ## The decoder on the way -/

/-- Where the decoder stands in the text of a chunked body with `rest` behind
it: the payload it still owes and the bytes it has not seen. -/
inductive Feeding (rest : Bytes) : ChunkReader → Bytes → Bytes → Prop where
  | size {pending seen : Nat} {seenLine text : Bytes} {chunks : List Bytes} (hChunks : ChunksOk chunks)
      (hLine : sizeLine chunks = seenLine ++ text) :
      Feeding rest ⟨.size, pending, seen, seenLine⟩ chunks.flatten (text ++ 10 :: (behindSize chunks ++ rest))
  | payload {seen : Nat} {ch : Bytes} {chunks : List Bytes} (hChunks : ChunksOk chunks) (hSome : ch ≠ []) :
      Feeding rest ⟨.payload, ch.length, seen, []⟩ (ch ++ chunks.flatten)
        (ch ++ (crlf ++ chunksText chunks ++ rest))
  | terminator {pending seen : Nat} {chunks : List Bytes} (hChunks : ChunksOk chunks) (hSeen : seen < 2) :
      Feeding rest ⟨.terminator, pending, seen, []⟩ chunks.flatten
        (crlf.drop seen ++ (chunksText chunks ++ rest))
  | trailers {pending seen : Nat} {seenLine text : Bytes} (hLine : [13] = seenLine ++ text) :
      Feeding rest ⟨.trailers, pending, seen, seenLine⟩ [] (text ++ 10 :: rest)

theorem feeding_start {chunks : List Bytes} (hChunks : ChunksOk chunks) (rest : Bytes) :
    Feeding rest chunkStart chunks.flatten (chunksText chunks ++ rest) := by
  have hStart := @Feeding.size rest 0 0 [] (sizeLine chunks) chunks hChunks rfl
  rw [chunksText_eq, List.append_assoc, List.cons_append]
  exact hStart

theorem Feeding.suffix {rest owed stream : Bytes} {cr : ChunkReader} (h : Feeding rest cr owed stream) :
    ∃ front, front ≠ [] ∧ stream = front ++ rest := by
  cases h with
  | @size pending seen seenLine text chunks hChunks hLine => exact ⟨text ++ 10 :: behindSize chunks, by
    simp, by simp⟩
  | @payload seen ch chunks hChunks hSome => exact ⟨ch ++ (crlf ++ chunksText chunks), by
    simp [hSome], by simp⟩
  | @terminator pending seen chunks hChunks hSeen =>
    have hText : chunksText chunks ≠ [] := by
      rw [chunksText_eq]
      simp
    exact ⟨crlf.drop seen ++ chunksText chunks, by simp [hText], by simp⟩
  | @trailers pending seen seenLine text hLine => exact ⟨text ++ [10], by simp, by simp⟩

/-- What a round of the decoder can come to in the middle of a body. -/
inductive Fed (rest later total : Bytes) (size : Nat) :
    ChunkReader × Bytes × Bytes × Option FeedOutcome → Prop where
  | again {cr : ChunkReader} {left body owed : Bytes} (h : Feeding rest cr owed (left ++ later))
    (hTotal : body ++ owed = total)
      (hLess : left.length < size) : Fed rest later total size (cr, left, body, none)
  | more {cr : ChunkReader} {body owed : Bytes} (h : Feeding rest cr owed later)
    (hTotal : body ++ owed = total) :
      Fed rest later total size (cr, [], body, some .more)
  | done {cr : ChunkReader} {left : Bytes} (h : left ++ later = rest) : Fed rest later total size
    (cr, left, total, some .done)

section Rounds

variable {rest buf later body : Bytes} {pending seen : Nat} {seenLine text : Bytes}
  {chunks : List Bytes} (hSome : buf ≠ [])

theorem chunkStep_size_fed (hChunks : ChunksOk chunks) (hLine : sizeLine chunks = seenLine ++ text)
    (hStream : buf ++ later = text ++ 10 :: (behindSize chunks ++ rest)) :
    Fed rest later (body ++ chunks.flatten) buf.length
      (chunkStep ⟨.size, pending, seen, seenLine⟩ buf body) := by
  have hLength := sizeLine_length hChunks
  have hLf := not_mem_sizeLine chunks
  rw [hLine, List.length_append] at hLength
  rw [hLine, List.mem_append, not_or] at hLf
  obtain ⟨text', rfl, rfl, hPart⟩ | ⟨left, hTail, hLess, hWhole⟩ := chunkLine_cases hLf.2 hLength hStream
  · rw [chunkStep]
    dsimp only
    rw [hPart]
    rw [← List.append_assoc] at hLine
    exact .more (.size hChunks hLine) rfl
  · rw [chunkStep]
    dsimp only
    rw [hWhole]
    dsimp only
    rw [← hLine, chunkSize_sizeLine hChunks]
    cases chunks with
    | nil =>
      have hTrailers := @Feeding.trailers rest pending seen [] [13] rfl
      refine @Fed.again _ _ _ _ _ _ _ [] ?_ rfl (by omega)
      rw [← hTail]
      exact hTrailers
    | cons ch chunks =>
      have hCh := hChunks ch List.mem_cons_self
      have hPayload :=
        @Feeding.payload rest seen ch chunks (fun c hc => hChunks c (List.mem_cons_of_mem _ hc)) hCh.1
      dsimp only
      split
      · rename_i hError
        exact absurd hError nofun
      · rename_i hZero
        exact absurd (List.length_eq_zero_iff.mp (Except.ok.inj hZero)) hCh.1
      · rename_i hSize
        refine @Fed.again _ _ _ _ _ _ _ (ch ++ chunks.flatten) ?_ rfl (by omega)
        rw [← Except.ok.inj hSize, ← hTail, behindSize]
        simp only [List.append_assoc] at hPayload ⊢
        exact hPayload

theorem chunkStep_trailers_fed (hLine : [13] = seenLine ++ text)
    (hStream : buf ++ later = text ++ 10 :: rest) :
    Fed rest later (body ++ []) buf.length (chunkStep ⟨.trailers, pending, seen, seenLine⟩ buf body) := by
  have hLength := congrArg List.length hLine
  rw [List.length_append, List.length_singleton] at hLength
  have hLf : 10 ∉ text := fun hMem =>
    absurd (show (10 : UInt8) ∈ [13] by rw [hLine]; exact List.mem_append_right _ hMem) (by decide)
  have hFitsLine : seenLine.length + text.length ≤ 266 := by omega
  obtain ⟨text', rfl, rfl, hPart⟩ | ⟨left, hTail, hLess, hWhole⟩ := chunkLine_cases hLf hFitsLine hStream
  · rw [chunkStep]
    dsimp only
    rw [hPart]
    rw [← List.append_assoc] at hLine
    exact .more (.trailers hLine) rfl
  · rw [chunkStep]
    dsimp only
    rw [hWhole]
    dsimp only
    rw [← hLine, if_pos (.inr rfl), List.append_nil]
    exact .done hTail.symm

include hSome

theorem chunkStep_payload_fed {ch : Bytes} (hChunks : ChunksOk chunks) (hCh : ch ≠ [])
    (hStream : buf ++ later = ch ++ (crlf ++ chunksText chunks ++ rest))
    (hFits : (body ++ (ch ++ chunks.flatten)).length ≤ clientMaxBody) :
    Fed rest later (body ++ (ch ++ chunks.flatten)) buf.length
      (chunkStep ⟨.payload, ch.length, seen, []⟩ buf body) := by
  have hPos := List.length_pos_of_ne_nil hSome
  have hChPos := List.length_pos_of_ne_nil hCh
  have hTerm := @Feeding.terminator rest 0 0 chunks hChunks (by decide)
  rw [List.length_append, List.length_append] at hFits
  rw [chunkStep]
  dsimp only
  rw [if_neg (by omega)]
  obtain ⟨ch', rfl, rfl⟩ | ⟨more, rfl, hTail⟩ := List.append_eq_append_iff.mp hStream
  · rw [List.length_append, Nat.min_eq_left (by omega), List.drop_length, List.take_length,
      Nat.add_sub_cancel_left]
    by_cases hDone : ch' = []
    · subst hDone
      rw [List.length_nil, if_pos rfl, List.append_nil, List.nil_append, ← List.append_assoc,
        List.append_assoc crlf]
      exact .again hTerm rfl hPos
    · rw [if_neg fun hZero => hDone (List.length_eq_zero_iff.mp hZero)]
      exact .again (.payload hChunks hDone) (by simp only [List.append_assoc]) hPos
  · rw [List.length_append, Nat.min_eq_right (by omega), List.drop_left, List.take_left, Nat.sub_self,
      if_pos rfl,
      ← List.append_assoc]
    refine .again ?_ rfl (by omega)
    rw [← hTail, List.append_assoc]
    exact hTerm

theorem chunkStep_terminator_fed (hChunks : ChunksOk chunks) (hSeen : seen < 2)
    (hStream : buf ++ later = crlf.drop seen ++ (chunksText chunks ++ rest)) :
    Fed rest later (body ++ chunks.flatten) buf.length
      (chunkStep ⟨.terminator, pending, seen, []⟩ buf body) := by
  have hPos := List.length_pos_of_ne_nil hSome
  obtain ⟨seen', left, hCrlf, hLess, ⟨hPart, rfl, hLater⟩ | ⟨rfl, hLeft⟩⟩ :=
    chunkCrlf_cases hSome hSeen hStream
  · rw [chunkStep]
    dsimp only
    rw [hCrlf]
    dsimp only
    rw [if_neg (by omega), hLater]
    exact .again (.terminator hChunks hPart) rfl hPos
  · rw [chunkStep]
    dsimp only
    rw [hCrlf]
    dsimp only
    rw [if_pos rfl]
    refine .again ?_ rfl hLess
    rw [hLeft, chunksText_eq, List.append_assoc, List.cons_append]
    exact @Feeding.size rest pending 2 [] (sizeLine chunks) chunks hChunks rfl

theorem chunkStep_fed {owed : Bytes} {cr : ChunkReader} (h : Feeding rest cr owed (buf ++ later))
    (hFits : (body ++ owed).length ≤ clientMaxBody) :
    Fed rest later (body ++ owed) buf.length (chunkStep cr buf body) := by
  generalize hStream : buf ++ later = stream at h
  cases h with
  | size hChunks hLine => exact chunkStep_size_fed hChunks hLine hStream
  | payload hChunks hCh => exact chunkStep_payload_fed hSome hChunks hCh hStream hFits
  | terminator hChunks hSeen => exact chunkStep_terminator_fed hSome hChunks hSeen hStream
  | trailers hLine => exact chunkStep_trailers_fed hLine hStream

end Rounds

/-- What feeding a part of the rest comes to. -/
inductive FedAll (rest later total : Bytes) : ChunkReader × Bytes × Bytes × FeedOutcome → Prop where
  | more {cr : ChunkReader} {body owed : Bytes} (h : Feeding rest cr owed later)
    (hTotal : body ++ owed = total) :
      FedAll rest later total (cr, [], body, .more)
  | done {cr : ChunkReader} {left : Bytes} (h : left ++ later = rest) : FedAll rest later total
    (cr, left, total, .done)

theorem chunkFeed_fed {rest later : Bytes} (fuel : Nat) : ∀ {cr : ChunkReader} {owed buf body : Bytes},
    buf.length ≤ fuel →
    Feeding rest cr owed (buf ++ later) → (body ++ owed).length ≤ clientMaxBody →
      FedAll rest later (body ++ owed) (chunkFeed fuel cr buf body) := by
  induction fuel with
  | zero =>
    intro cr owed buf body hFuel h _
    obtain rfl := List.length_eq_zero_iff.mp (Nat.le_zero.mp hFuel)
    rw [chunkFeed]
    exact .more h rfl
  | succ fuel ih =>
    intro cr owed buf body hFuel h hFits
    cases hBuf : buf with
    | nil =>
      rw [hBuf] at h
      rw [chunkFeed]
      exact .more h rfl
    | cons b tail =>
      rw [chunkFeed.eq_def]
      dsimp only
      rw [← hBuf]
      have hSome : buf ≠ [] := by rw [hBuf]; exact List.cons_ne_nil _ _
      have hStep := chunkStep_fed hSome h hFits
      generalize chunkStep cr buf body = step at hStep ⊢
      cases hStep with
      | again hFeeding hTotal hLess =>
        rw [← hTotal] at hFits ⊢
        exact ih (by omega) hFeeding hFits
      | more hFeeding hTotal => exact .more hFeeding hTotal
      | done hLeft => exact .done hLeft

end Cweb
