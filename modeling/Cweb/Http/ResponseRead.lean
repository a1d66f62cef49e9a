import Cweb.Http.ResponseHead
import Cweb.Http.ChunkFeed

/-!
# Reading back what was written

A response goes over the wire and is cut into reads at any places. The client
reads it back, unless it was a stream under a status without a body, or the
raw bytes that pile up behind the head pass the cap of the read-ahead buffer.
-/

namespace Cweb

open Sv HttpClient

/-! ## Reads -/

/-- The outcomes of reads that give a text piece by piece, each piece within
what one read takes. -/
inductive Delivers : List Recv → Bytes → Prop where
  | nil : Delivers [] []
  | cons {piece data : Bytes} {recvs : List Recv} (hSome : piece ≠ []) (hFits : piece.length ≤ 8192)
      (h : Delivers recvs data) : Delivers (.data piece :: recvs) (piece ++ data)

/-- The bytes of the reads that were not asked for. -/
def undelivered : List Recv → Bytes
  | .data bytes :: recvs => bytes ++ undelivered recvs
  | _ => []

theorem Delivers.undelivered_eq {recvs : List Recv} {data : Bytes} (h : Delivers recvs data) :
    undelivered recvs = data := by
  induction h with
  | nil => rfl
  | cons hSome hFits h ih => rw [undelivered, ih]

theorem Delivers.append {recvs recvs' : List Recv} {data data' : Bytes} (h : Delivers recvs data)
    (h' : Delivers recvs' data') : Delivers (recvs ++ recvs') (data ++ data') := by
  induction h with
  | nil => exact h'
  | cons hSome hFits h ih =>
    rw [List.append_assoc]
    exact .cons hSome hFits ih

theorem delivers_bytes (data : Bytes) : Delivers (data.map fun b => .data [b]) data := by
  induction data with
  | nil => exact .nil
  | cons b data ih => exact .cons (List.cons_ne_nil _ _) (by rw [List.length_singleton]; omega) ih

theorem refill_data {stamp : Stamp} {w : Wire} {piece : Bytes} {recvs : List Recv}
    (hRecvs : w.recvs = .data piece :: recvs)
    (hSome : piece ≠ []) (hFits : piece.length ≤ 8192) :
    refill stamp w = (⟨w.rbuf ++ piece.map fun b => ⟨b, stamp⟩, recvs⟩, .arrived) := by
  rw [refill, hRecvs]
  dsimp only
  rw [if_neg hSome, List.take_of_length_le hFits]

theorem text_append (rbuf : List Rcvd) (recvs : List Recv) (piece : Bytes) (stamp : Stamp) :
    Wire.text ⟨rbuf ++ piece.map fun b => ⟨b, stamp⟩, recvs⟩ = rbuf.map Rcvd.byte ++ piece := by
  rw [Wire.text, List.map_append, List.map_map]
  congr 1
  exact List.map_id _

/-! ## The head -/

theorem readHead_head {lines : List Bytes} (hLines : ∀ text ∈ lines, LineOk text) (hNonempty : lines ≠ [])
    (hCap : (headText lines).length ≤ clientHeadCap) {more : Bytes} {stamp : Stamp} {tail : List Recv}
    {recvs : List Recv}
    {data : Bytes} (h : Delivers recvs data) : ∀ {w : Wire} {fuel : Nat}
    {touched : Bool}, w.recvs = recvs ++ tail →
      recvs.length < fuel → w.text ++ data = headText lines ++ more →
        w.rbuf.length < (headText lines).length + 8192 →
        ∃ w' touched' recvs' data',
          readHead stamp fuel w touched = (w', touched', .ok ((headText lines).length - 4)) ∧
          w'.recvs = recvs' ++ tail ∧ Delivers recvs' data' ∧ w'.text ++ data' = headText lines ++ more ∧
          (headText lines).length ≤ w'.rbuf.length ∧ w'.rbuf.length < (headText lines).length + 8192 := by
  induction h with
  | nil =>
    intro w fuel touched hRecvs hFuel hText hBound
    obtain ⟨fuel, rfl⟩ : ∃ k, fuel = k + 1 := ⟨fuel - 1, by omega⟩
    have hAll : (headText lines).length ≤ w.text.length := by
      have hLen := congrArg List.length hText
      rw [List.length_append, List.length_append, List.length_nil] at hLen
      omega
    have hFind := findHeadSep_head hLines hNonempty ⟨[], hText⟩
    rw [if_pos hAll] at hFind
    rw [readHead, hFind]
    refine ⟨w, touched, [], [], rfl, hRecvs, .nil, hText, ?_, hBound⟩
    rw [Wire.text_length] at hAll
    exact hAll
  | @cons piece data recvs hSome hFits h ih =>
    intro w fuel touched hRecvs hFuel hText hBound
    obtain ⟨fuel, rfl⟩ : ∃ k, fuel = k + 1 := ⟨fuel - 1, by omega⟩
    have hFind := findHeadSep_head hLines hNonempty ⟨_, hText⟩
    rw [Wire.text_length] at hFind
    rw [readHead, hFind]
    split
    · rename_i hSep
      split at hSep
      · rename_i hAll
        rw [← Option.some.inj hSep]
        exact ⟨w, touched, _, _, rfl, hRecvs, .cons hSome hFits h, hText, hAll, hBound⟩
      · cases hSep
    · rename_i hSep
      split at hSep
      · cases hSep
      · rename_i hPart
        have hPiece : (piece.map fun b => (⟨b, stamp⟩ : Rcvd)).length = piece.length := List.length_map _
        rw [if_neg (by omega), @refill_data stamp w piece (recvs ++ tail) hRecvs hSome hFits]
        refine ih rfl ?_ ?_ ?_
        · rw [List.length_cons] at hFuel
          omega
        · rw [text_append, ← hText, List.append_assoc]
          rfl
        · rw [List.length_append, hPiece]
          omega

/-! ## A counted body -/

theorem readCounted_ok {stamp : Stamp} {upTo : Nat} {recvs : List Recv} {data : Bytes}
    (h : Delivers recvs data) :
    ∀ {w : Wire} {fuel : Nat}, w.recvs = recvs → recvs.length < fuel → upTo ≤ (w.text ++ data).length →
      upTo + min ((w.text ++ data).length - upTo) 8191 ≤ clientMaxBody + clientHeadCap →
        ∃ w', readCounted stamp fuel w upTo = (w', .ok ()) ∧ upTo ≤ w'.rbuf.length ∧
          w'.text ++ undelivered w'.recvs = w.text ++ data := by
  induction h with
  | nil =>
    intro w fuel hRecvs hFuel hAll hCap
    obtain ⟨fuel, rfl⟩ : ∃ k, fuel = k + 1 := ⟨fuel - 1, by omega⟩
    rw [List.append_nil, Wire.text_length] at hAll
    rw [readCounted, if_pos hAll]
    refine ⟨w, rfl, hAll, ?_⟩
    rw [hRecvs]
    rfl
  | @cons piece data recvs hSome hFits h ih =>
    intro w fuel hRecvs hFuel hAll hCap
    obtain ⟨fuel, rfl⟩ : ∃ k, fuel = k + 1 := ⟨fuel - 1, by omega⟩
    rw [readCounted]
    split
    · rename_i hThere
      refine ⟨w, rfl, hThere, ?_⟩
      rw [hRecvs, undelivered, h.undelivered_eq]
    · rename_i hPart
      rw [@refill_data stamp w piece recvs hRecvs hSome hFits]
      dsimp only
      have hText := text_append w.rbuf recvs piece stamp
      have hWhole : w.rbuf.map Rcvd.byte ++ piece ++ data = w.text ++ (piece ++ data) :=
        List.append_assoc _ _ _
      have hNotBig : tooBig ⟨w.rbuf ++ piece.map fun b => ⟨b, stamp⟩, recvs⟩ = false := by
        rw [tooBig, decide_eq_false_iff_not, List.length_append, List.length_map]
        rw [List.length_append, List.length_append, Wire.text_length] at hCap hAll
        omega
      rw [hNotBig, if_neg Bool.false_ne_true]
      rw [List.length_cons] at hFuel
      rw [← hWhole, ← hText] at hAll hCap ⊢
      exact ih rfl (by omega) hAll hCap

theorem readCounted_tooBig {stamp : Stamp} {upTo : Nat} {last : Bytes} {tail recvs : List Recv} {data : Bytes}
    (hLast : last ≠ []) (hLastFits : last.length ≤ 8192) (h : Delivers recvs data) :
    ∀ {w : Wire} {fuel : Nat}, w.recvs = recvs ++ .data last :: tail → recvs.length < fuel →
      w.rbuf.length + data.length + 1 = upTo → clientMaxBody + clientHeadCap < w.rbuf.length +
        data.length + last.length →
        ∃ w' err, readCounted stamp fuel w upTo = (w', .error err) := by
  induction h with
  | nil =>
    intro w fuel hRecvs hFuel hUpTo hBig
    obtain ⟨fuel, rfl⟩ : ∃ k, fuel = k + 1 := ⟨fuel - 1, by omega⟩
    rw [List.length_nil] at hUpTo hBig
    have hTooBig : tooBig ⟨w.rbuf ++ last.map fun b => ⟨b, stamp⟩, tail⟩ = true := by
      rw [tooBig, decide_eq_true_iff, List.length_append, List.length_map]
      omega
    rw [readCounted, if_neg (by omega), @refill_data stamp w last tail hRecvs hLast hLastFits]
    dsimp only
    rw [hTooBig, if_pos rfl]
    exact ⟨_, _, rfl⟩
  | @cons piece data recvs hSome hFits h ih =>
    intro w fuel hRecvs hFuel hUpTo hBig
    obtain ⟨fuel, rfl⟩ : ∃ k, fuel = k + 1 := ⟨fuel - 1, by omega⟩
    rw [List.length_append] at hUpTo hBig
    have hPos := List.length_pos_of_ne_nil hSome
    rw [readCounted, if_neg (by omega),
      @refill_data stamp w piece (recvs ++ .data last :: tail) hRecvs hSome hFits]
    dsimp only
    split
    · exact ⟨_, _, rfl⟩
    · rw [List.length_cons] at hFuel
      refine ih rfl (by omega) ?_ ?_
      · rw [List.length_append, List.length_map]
        omega
      · rw [List.length_append, List.length_map]
        omega

/-! ## A chunked body -/

theorem readChunked_step {stamp : Stamp} {rest total later : Bytes} {w : Wire} {fuel pos : Nat}
    {cr : ChunkReader}
    {body owed : Bytes} (hFeeding : Feeding rest cr owed (w.text.drop pos ++ later))
    (hTotal : body ++ owed = total)
    (hFits : total.length ≤ clientMaxBody) :
    (∃ stop, readChunked stamp (fuel + 1) w cr pos body = (w, total, .ok stop) ∧
      w.text.drop stop ++ later = rest) ∨
    (∃ cr' body' owed', Feeding rest cr' owed' later ∧ body' ++ owed' = total ∧
      readChunked stamp (fuel + 1) w cr pos body =
        if tooBig w then (w, body', .error bodyCapError)
        else
          match refill stamp w with
          | (w', .arrived) => readChunked stamp fuel w' cr' w.rbuf.length body'
          | (w', r) => (w', body', .error (midBody r))) := by
  obtain ⟨front, _, hStream⟩ := hFeeding.suffix
  have hFed := chunkFeed_fed (w.text.drop pos).length (Nat.le_refl _) hFeeding (by rw [hTotal]; exact hFits)
  rw [readChunked]
  dsimp only
  generalize chunkFeed (w.text.drop pos).length cr (w.text.drop pos) body = fed at hFed ⊢
  rw [hTotal] at hFed
  cases hFed with
  | @more cr' body' owed' hLater hOwed => exact .inr ⟨cr', body', owed', hLater, hOwed, rfl⟩
  | @done cr' left hLeft =>
    have hText : w.text.drop pos = front ++ left := by
      rw [← hLeft, ← List.append_assoc] at hStream
      exact List.append_cancel_right hStream
    have hWhole : w.text = (w.text.take pos ++ front) ++ left := by
      rw [List.append_assoc, ← hText, List.take_append_drop]
    have hStop : w.rbuf.length - left.length = (w.text.take pos ++ front).length := by
      have hLength := congrArg List.length hWhole
      rw [Wire.text_length, List.length_append] at hLength
      omega
    refine .inl ⟨_, rfl, ?_⟩
    rw [hStop, hWhole, List.drop_left', hLeft]
    rw [← hWhole]

theorem drop_text_piece (w : Wire) (piece : Bytes) (stamp : Stamp) (recvs : List Recv) :
    (Wire.text ⟨w.rbuf ++ piece.map fun b => ⟨b, stamp⟩, recvs⟩).drop w.rbuf.length = piece := by
  rw [text_append]
  exact List.drop_left' (List.length_map _)

theorem readChunked_ok {stamp : Stamp} {rest total : Bytes} (hFits : total.length ≤ clientMaxBody)
    {recvs : List Recv}
    {data : Bytes} (h : Delivers recvs data) :
    ∀ {w : Wire} {fuel pos : Nat} {cr : ChunkReader} {body owed : Bytes}, w.recvs = recvs →
      recvs.length < fuel →
      Feeding rest cr owed (w.text.drop pos ++ data) → body ++ owed = total →
      w.rbuf.length + data.length ≤ clientMaxBody + clientHeadCap + 1 + rest.length →
        ∃ w' stop, readChunked stamp fuel w cr pos body = (w', total, .ok stop) ∧
          w'.text.drop stop ++ undelivered w'.recvs = rest := by
  induction h with
  | nil =>
    intro w fuel pos cr body owed hRecvs hFuel hFeeding hTotal hCap
    obtain ⟨fuel, rfl⟩ : ∃ k, fuel = k + 1 := ⟨fuel - 1, by omega⟩
    obtain ⟨stop, hRead, hRest⟩ | ⟨cr', body', owed', hLater, _, _⟩ :=
      @readChunked_step stamp _ _ _ w fuel pos _ _ _ hFeeding hTotal hFits
    · refine ⟨w, stop, hRead, ?_⟩
      rw [hRecvs]
      exact hRest
    · obtain ⟨front, hFront, hNil⟩ := hLater.suffix
      exact absurd (List.append_eq_nil_iff.mp hNil.symm).1 hFront
  | @cons piece data recvs hSome hPiece h ih =>
    intro w fuel pos cr body owed hRecvs hFuel hFeeding hTotal hCap
    obtain ⟨fuel, rfl⟩ : ∃ k, fuel = k + 1 := ⟨fuel - 1, by omega⟩
    obtain ⟨stop, hRead, hRest⟩ | ⟨cr', body', owed', hLater, hOwed, hRead⟩ :=
      @readChunked_step stamp _ _ _ w fuel pos _ _ _ hFeeding hTotal hFits
    · refine ⟨w, stop, hRead, ?_⟩
      rw [hRecvs, undelivered, h.undelivered_eq]
      exact hRest
    · obtain ⟨front, hFront, hSplit⟩ := hLater.suffix
      have hLength := congrArg List.length hSplit
      have hPos := List.length_pos_of_ne_nil hFront
      rw [List.length_append] at hCap
      rw [List.length_append, List.length_append] at hLength
      have hNotBig : tooBig w = false := by
        rw [tooBig, decide_eq_false_iff_not]
        omega
      rw [hRead, hNotBig, if_neg Bool.false_ne_true, @refill_data stamp w piece recvs hRecvs hSome hPiece]
      dsimp only
      rw [List.length_cons] at hFuel
      refine ih rfl (by omega) ?_ hOwed ?_
      · rw [drop_text_piece]
        exact hLater
      · rw [List.length_append, List.length_map]
        omega

theorem readChunked_tooBig {stamp : Stamp} {rest total back : Bytes} (hFits : total.length ≤ clientMaxBody)
    (hBack : rest.length < back.length) {tail recvs : List Recv} {data : Bytes} (h : Delivers recvs data) :
    ∀ {w : Wire} {fuel pos : Nat} {cr : ChunkReader} {body owed : Bytes}, w.recvs = recvs ++ tail →
      recvs.length < fuel →
      Feeding rest cr owed (w.text.drop pos ++ (data ++ back)) → body ++ owed = total →
      clientMaxBody + clientHeadCap < w.rbuf.length + data.length →
        ∃ w' body' err, readChunked stamp fuel w cr pos body = (w', body', .error err) := by
  have hNotDone : ∀ {w : Wire} {data : Bytes} {stop : Nat}, w.text.drop stop ++ (data ++ back) ≠ rest := by
    intro w data stop hEq
    have hLength := congrArg List.length hEq
    rw [List.length_append, List.length_append] at hLength
    omega
  induction h with
  | nil =>
    intro w fuel pos cr body owed hRecvs hFuel hFeeding hTotal hBig
    obtain ⟨fuel, rfl⟩ : ∃ k, fuel = k + 1 := ⟨fuel - 1, by omega⟩
    obtain ⟨stop, hRead, hRest⟩ | ⟨cr', body', owed', hLater, _, hRead⟩ :=
      @readChunked_step stamp _ _ _ w fuel pos _ _ _ hFeeding hTotal hFits
    · exact absurd hRest hNotDone
    · have hTooBig : tooBig w = true := by
        rw [tooBig, decide_eq_true_iff]
        exact hBig
      rw [hRead, hTooBig, if_pos rfl]
      exact ⟨_, _, _, rfl⟩
  | @cons piece data recvs hSome hPiece h ih =>
    intro w fuel pos cr body owed hRecvs hFuel hFeeding hTotal hBig
    obtain ⟨fuel, rfl⟩ : ∃ k, fuel = k + 1 := ⟨fuel - 1, by omega⟩
    obtain ⟨stop, hRead, hRest⟩ | ⟨cr', body', owed', hLater, hOwed, hRead⟩ :=
      @readChunked_step stamp _ _ _ w fuel pos _ _ _ hFeeding hTotal hFits
    · exact absurd hRest hNotDone
    · rw [hRead]
      split
      · exact ⟨_, _, _, rfl⟩
      · rw [@refill_data stamp w piece (recvs ++ tail) hRecvs hSome hPiece]
        dsimp only
        rw [List.length_cons] at hFuel
        rw [List.length_append] at hBig
        refine ih rfl (by omega) ?_ hOwed ?_
        · rw [drop_text_piece, ← List.append_assoc]
          exact hLater
        · rw [List.length_append, List.length_map]
          omega

/-! ## A whole response -/

variable {fields : List HttpHeader} {res : HttpResponse} {date : Bytes}

theorem headText_length_ge (fields : List HttpHeader) (res : HttpResponse) (date : Bytes) :
    4 ≤ (headText (headLinesOf fields res date)).length := by
  rw [headText, headLinesOf, linesText, List.flatMap_cons, List.length_append, List.length_append,
    List.length_append]
  have hCrlf : crlf.length = 2 := rfl
  omega

theorem readResponse_head (h : HeadOk fields res date)
    (hCap : (headText (headLinesOf fields res date)).length ≤ clientHeadCap)
    {stamp : Stamp} {tail recvs : List Recv} {data more : Bytes} (hData : Delivers recvs data)
    (hText : data = headText (headLinesOf fields res date) ++ more) :
    ∃ w recvs' data', w.recvs = recvs' ++ tail ∧ Delivers recvs' data' ∧
      w.text ++ data' = headText (headLinesOf fields res date) ++ more ∧
      (headText (headLinesOf fields res date)).length ≤ w.rbuf.length ∧
      w.rbuf.length < (headText (headLinesOf fields res date)).length + 8192 ∧
      (∀ {w' body stop closed},
        readBody stamp .get res.status (linesText (headLinesOf fields res date))
            (headText (headLinesOf fields res date)).length w = (w', body, .ok (stop, closed)) →
          (readResponse stamp .get ⟨[], recvs ++ tail⟩).ok = true ∧
          (readResponse stamp .get ⟨[], recvs ++ tail⟩).out.status = res.status ∧
          (readResponse stamp .get ⟨[], recvs ++ tail⟩).out.body = body ∧
          (readResponse stamp .get ⟨[], recvs ++ tail⟩).wire = ⟨w'.rbuf.drop stop, w'.recvs⟩) ∧
      (∀ {w' body err},
        readBody stamp .get res.status (linesText (headLinesOf fields res date))
            (headText (headLinesOf fields res date)).length w = (w', body, .error err) →
          (readResponse stamp .get ⟨[], recvs ++ tail⟩).ok = false) := by
  have hFour := headText_length_ge fields res date
  obtain ⟨w, touched, recvs', data', hRead, hRecvs, hDelivers, hWhole, hThere, hBound⟩ :=
    @readHead_head _ h.lineOk (List.cons_ne_nil _ _) hCap more stamp tail recvs data hData ⟨[], recvs ++ tail⟩
      ((recvs ++ tail).length + 1) false rfl (by rw [List.length_append]; omega) hText
      (by change 0 < _; omega)
  have hHead : w.text.take ((headText (headLinesOf fields res date)).length - 4 + 2) = linesText
    (headLinesOf fields res date) := by
    have hLength : (headText (headLinesOf fields res date)).length - 4 +
      2 = (linesText (headLinesOf fields res date)).length := by
      have hSum : (headText (headLinesOf fields res date)).length =
        (linesText (headLinesOf fields res date)).length + 2 :=
        List.length_append
      omega
    have hTake := congrArg (List.take (linesText (headLinesOf fields res date)).length) hWhole
    rw [List.take_append_of_le_length (by rw [Wire.text_length]; omega), headText, List.append_assoc,
      List.take_left] at hTake
    rw [hLength]
    exact hTake
  have hBase : (headText (headLinesOf fields res date)).length - 4 +
    4 = (headText (headLinesOf fields res date)).length := by
    omega
  refine ⟨w, recvs', data', hRecvs, hDelivers, hWhole, hThere, hBound, ?_, ?_⟩
  · intro w' body stop closed hBody
    rw [readResponse, hRead]
    dsimp only
    rw [hHead, h.status_eq]
    dsimp only
    rw [hBase, hBody]
    exact ⟨rfl, rfl, rfl, rfl⟩
  · intro w' body err hBody
    rw [readResponse, hRead]
    dsimp only
    rw [hHead, h.status_eq]
    dsimp only
    rw [hBase, hBody]

/-- The call gives the status and the body and leaves what comes after. -/
def ReadsBack (stamp : Stamp) (recvs : List Recv) (status : Nat) (body rest : Bytes) : Prop :=
  (readResponse stamp .get ⟨[], recvs⟩).ok = true ∧
    (readResponse stamp .get ⟨[], recvs⟩).out.status = status ∧
    (readResponse stamp .get ⟨[], recvs⟩).out.body = body ∧
    (readResponse stamp .get ⟨[], recvs⟩).wire.text ++
      undelivered (readResponse stamp .get ⟨[], recvs⟩).wire.recvs = rest

instance (stamp : Stamp) (recvs : List Recv) (status : Nat) (body rest : Bytes) :
    Decidable (ReadsBack stamp recvs status body rest) :=
  inferInstanceAs (Decidable (_ ∧ _ ∧ _ ∧ _))

theorem readsBack_unique {stamp : Stamp} {recvs : List Recv} {status : Nat} {body rest body' rest' : Bytes}
    (h : ReadsBack stamp recvs status body rest) (h' : ReadsBack stamp recvs status body' rest') :
    body = body' ∧ rest = rest' :=
  ⟨h.2.2.1.symm.trans h'.2.2.1, h.2.2.2.symm.trans h'.2.2.2⟩

/-- The body of a response whose stream gives these chunks. -/
def responseBody (res : HttpResponse) (chunks : List Bytes) : Bytes :=
  if res.streaming then chunks.flatten else res.body

def framedSize (chunks : List Bytes) : Nat :=
  (chunks.map fun ch => (hex ch.length).length + ch.length + 4).sum + 5

/-- No stream and no body under a status without one, and all that is held at
once while the body is incomplete is within the cap. -/
def Framed (res : HttpResponse) (date : Bytes) (chunks : List Bytes) (rest : Bytes) : Prop :=
  if statusHasNoBody res.status then res.streaming = false ∧ res.body = []
  else if res.streaming then
    (httpResponseSerializeHead res date).length + framedSize chunks ≤ clientMaxBody + clientHeadCap + 1
  else
    (httpResponseSerializeHead res date).length + res.body.length +
      min rest.length 8191 ≤ clientMaxBody + clientHeadCap

theorem chunksText_length (chunks : List Bytes) : (chunksText chunks).length = framedSize chunks := by
  rw [chunksText, framedSize, List.length_append, List.length_flatMap]
  have hFrame : (fun ch => (chunkFrame ch).length) = fun ch : Bytes => (hex ch.length).length +
    ch.length + 4 := by
    funext ch
    rw [chunkFrame, List.length_append, List.length_append, List.length_append]
    have hCrlf : crlf.length = 2 := rfl
    omega
  rw [hFrame]
  rfl

/-! ## What is written -/

theorem produced_ok (fn : List Nat → Bytes) (calls : Nat) : ∀ {caps : List Nat} {chunks : List Bytes},
    producedChunks fn calls caps = some chunks → ∀ ch ∈ chunks, ch ≠ [] := by
  induction calls with
  | zero =>
    intro caps chunks h
    cases h
  | succ calls ih =>
    intro caps chunks h ch hCh
    rw [producedChunks] at h
    split at h
    · rw [← Option.some.inj h] at hCh
      exact absurd hCh List.not_mem_nil
    · rename_i hMore
      obtain ⟨later, hLater, rfl⟩ := Option.map_eq_some_iff.mp h
      obtain rfl | hCh := List.mem_cons.mp hCh
      · exact fun hEmpty => hMore (.inl hEmpty)
      · exact ih hLater ch hCh

theorem streamed_ok {calls : Nat} {chunks : List Bytes} (h : streamedChunks res calls = some chunks) :
    ∀ ch ∈ chunks, ch ≠ [] := by
  have hQueued : ∀ ch ∈ res.streamChunks.filter (· ≠ []), ch ≠ [] :=
    fun ch hCh => of_decide_eq_true (List.mem_filter.mp hCh).2
  rw [streamedChunks] at h
  split at h
  · rw [← Option.some.inj h]
    exact hQueued
  · obtain ⟨made, hMade, rfl⟩ := Option.map_eq_some_iff.mp h
    intro ch hCh
    obtain hCh | hCh := List.mem_append.mp hCh
    · exact hQueued ch hCh
    · exact produced_ok _ _ hMade ch hCh

theorem chunksOk_of_streamed {calls : Nat} {chunks : List Bytes} (h : streamedChunks res calls = some chunks)
    (hFits : chunks.flatten.length ≤ clientMaxBody) : ChunksOk chunks :=
  fun ch hCh => ⟨streamed_ok h ch hCh, (List.sublist_flatten_of_mem hCh).length_le.trans hFits⟩

/-- What stands behind the head. -/
def payloadText (res : HttpResponse) (chunks : List Bytes) : Bytes :=
  if res.streaming then chunksText chunks else if statusHasNoBody res.status then [] else res.body

theorem writeResponse_eq (hKept : res.suppressBody = false) (hUpgrade : res.upgrade = false) {calls : Nat}
    {chunks : List Bytes} {wire : Bytes} (hChunks : streamedChunks res calls = some chunks)
    (hWire : writeResponse res date calls false = some wire) :
    wire = httpResponseSerializeHead res date ++ payloadText res chunks := by
  rw [writeResponse, hUpgrade, if_neg Bool.false_ne_true] at hWire
  rw [payloadText]
  split at hWire
  · rename_i hStreaming
    rw [sendStream, if_neg (by decide), hChunks, httpResponseSerialize, hStreaming] at hWire
    rw [if_pos hStreaming, ← Option.some.inj hWire, chunksText]
    simp
  · rename_i hPlain
    rw [Bool.not_eq_true] at hPlain
    rw [← Option.some.inj hWire, httpResponseSerialize, hPlain, hKept, Bool.false_or, Bool.or_false]
    rfl

/-! ## The kinds of bodies -/

/-- A head within the cap and its text. -/
structure Sent (fields : List HttpHeader) (res : HttpResponse) (date head : Bytes) : Prop where
  ok : HeadOk fields res date
  text : head = headText (headLinesOf fields res date)
  cap : head.length ≤ clientHeadCap

theorem behind_head {w : Wire} {head data more : Bytes} (hText : w.text ++ data = head ++ more)
    (hThere : head.length ≤ w.rbuf.length) : w.text.drop head.length ++ data = more := by
  have hDrop := congrArg (List.drop head.length) hText
  rw [List.drop_append_of_le_length (by rw [Wire.text_length]; exact hThere), List.drop_left] at hDrop
  exact hDrop

theorem text_drop (w : Wire) (n : Nat) : Wire.text ⟨w.rbuf.drop n, w.recvs⟩ = w.text.drop n := List.map_drop

theorem readBody_none {stamp : Stamp} {status : Nat} (h : statusHasNoBody status = true) (hLow : 200 ≤ status)
    (head : Bytes) (base : Nat) (w : Wire) :
    readBody stamp .get status head base w = (w, [], .ok (base, false)) := by
  rw [readBody, if_pos]
  rw [statusHasNoBody, Bool.or_eq_true, Bool.or_eq_true, decide_eq_true_iff, beq_iff_eq, beq_iff_eq] at h
  obtain (hInformational | h204) | h304 := h
  · omega
  · exact .inr (.inl h204)
  · exact .inr (.inr h304)

theorem not_none {status : Nat} (h : statusHasNoBody status = false) :
    ¬ (HttpMethod.get = HttpMethod.head ∨ status = 204 ∨ status = 304) := by
  rintro (hHead | rfl | rfl)
  · cases hHead
  · cases h
  · cases h

theorem reads_none {head : Bytes} (hSent : Sent fields res date head)
    (hNone : statusHasNoBody res.status = true) {stamp : Stamp}
    {recvs : List Recv} {more : Bytes} (h : Delivers recvs (head ++ more)) :
    ReadsBack stamp recvs res.status [] more := by
  obtain ⟨hOk, rfl, hCap⟩ := hSent
  obtain ⟨w, recvs', data', hRecvs, hDelivers, hText, hThere, _, hDone, _⟩ :=
    @readResponse_head _ _ _ hOk hCap stamp [] recvs _ more h rfl
  rw [List.append_nil] at hDone hRecvs
  obtain ⟨hRead, hStatus, hBody, hWire⟩ := hDone (readBody_none hNone hOk.low _ _ w)
  refine ⟨hRead, hStatus, hBody, ?_⟩
  rw [hWire, text_drop, hRecvs, hDelivers.undelivered_eq]
  exact behind_head hText hThere

theorem readBody_chunked (hOk : HeadOk fields res date) (hBody : statusHasNoBody res.status = false)
    (hStreaming : res.streaming = true) {stamp : Stamp} {base : Nat} {w : Wire} :
    readBody stamp .get res.status (linesText (headLinesOf fields res date)) base w =
      match readChunked stamp (w.recvs.length + 1) w chunkStart base [] with
      | (w, body, .ok stop) => (w, body, .ok (stop, false))
      | (w, body, .error err) => (w, body, .error err) := by
  have hChunked := hOk.chunked_eq
  rw [hBody, hStreaming] at hChunked
  rewrite [readBody, if_neg (not_none hBody), if_pos (by exact hChunked)]
  rfl

theorem reads_chunked {head : Bytes} (hSent : Sent fields res date head)
    (hBody : statusHasNoBody res.status = false)
    (hStreaming : res.streaming = true) {chunks : List Bytes} (hChunks : ChunksOk chunks)
    (hFits : chunks.flatten.length ≤ clientMaxBody)
    (hSize : head.length + framedSize chunks ≤ clientMaxBody + clientHeadCap + 1)
    {stamp : Stamp} {recvs : List Recv} {rest : Bytes}
    (h : Delivers recvs (head ++ (chunksText chunks ++ rest))) :
    ReadsBack stamp recvs res.status chunks.flatten rest := by
  obtain ⟨hOk, rfl, hCap⟩ := hSent
  obtain ⟨w, recvs', data', hRecvs, hDelivers, hText, hThere, _, hDone, _⟩ :=
    @readResponse_head _ _ _ hOk hCap stamp [] recvs _ _ h rfl
  rw [List.append_nil] at hDone hRecvs
  have hFeeding := feeding_start hChunks rest
  rw [← behind_head hText hThere] at hFeeding
  have hLength := congrArg List.length hText
  rw [List.length_append, List.length_append, List.length_append, Wire.text_length, chunksText_length]
    at hLength
  obtain ⟨w', stop, hChunked, hRest⟩ :=
    @readChunked_ok stamp rest _ hFits recvs' data' hDelivers w (w.recvs.length + 1) _ _ _ _
    hRecvs (by rw [hRecvs]; omega) hFeeding (List.nil_append _) (by omega)
  have hRead :=
    @readBody_chunked _ _ _ hOk hBody hStreaming stamp (headText (headLinesOf fields res date)).length w
  rw [hChunked] at hRead
  obtain ⟨hGot, hStatus, hGotBody, hWire⟩ := hDone hRead
  refine ⟨hGot, hStatus, hGotBody, ?_⟩
  rw [hWire, text_drop]
  exact hRest

theorem fails_chunked {head : Bytes} (hSent : Sent fields res date head)
    (hBody : statusHasNoBody res.status = false)
    (hStreaming : res.streaming = true) {chunks : List Bytes} (hChunks : ChunksOk chunks)
    (hFits : chunks.flatten.length ≤ clientMaxBody)
    (hSize : clientMaxBody + clientHeadCap + 1 < head.length + framedSize chunks)
    (stamp : Stamp) (rest : Bytes) :
    ∃ recvs, Delivers recvs (head ++ (chunksText chunks ++ rest)) ∧
      (readResponse stamp .get ⟨[], recvs⟩).ok = false := by
  obtain ⟨hOk, rfl, hCap⟩ := hSent
  have hNe : chunksText chunks ≠ [] := by
    rw [chunksText_eq]
    simp
  obtain ⟨init, last, hInit⟩ : ∃ init last, chunksText chunks = init ++ [last] :=
    ⟨_, _, (List.dropLast_append_getLast hNe).symm⟩
  have hInitLength := congrArg List.length hInit
  rw [chunksText_length, List.length_append, List.length_singleton] at hInitLength
  have hTail := delivers_bytes (last :: rest)
  have hFront := delivers_bytes (headText (headLinesOf fields res date) ++ init)
  have hAll := hFront.append hTail
  have hWhole : headText (headLinesOf fields res date) ++ init ++ last :: rest =
      headText (headLinesOf fields res date) ++ (chunksText chunks ++ rest) := by
    rw [hInit]
    simp
  rw [hWhole] at hAll
  refine ⟨_, hAll, ?_⟩
  obtain ⟨w, recvs', data', hRecvs, hDelivers, hText, hThere, _, _, hFails⟩ :=
    @readResponse_head _ _ _ hOk hCap stamp ((last :: rest).map fun b => .data [b]) _ _ _ hFront rfl
  have hFeeding := feeding_start hChunks rest
  have hBehind := behind_head hText hThere
  have hStream : chunksText chunks ++ rest =
      w.text.drop (headText (headLinesOf fields res date)).length ++ (data' ++ last :: rest) := by
    rw [← List.append_assoc, hBehind, hInit]
    simp
  rw [hStream] at hFeeding
  have hLength := congrArg List.length hText
  rw [List.length_append, List.length_append, Wire.text_length] at hLength
  obtain ⟨w', body', err, hChunked⟩ :=
    @readChunked_tooBig stamp rest _ (last :: rest) hFits
      (Nat.lt_succ_self _) _ recvs' data' hDelivers w (w.recvs.length + 1) _ _ _ _
      hRecvs (by rw [hRecvs, List.length_append]; omega) hFeeding (List.nil_append _) (by omega)
  have hRead :=
    @readBody_chunked _ _ _ hOk hBody hStreaming stamp (headText (headLinesOf fields res date)).length w
  rw [hChunked] at hRead
  exact hFails hRead

theorem readBody_counted (hOk : HeadOk fields res date) (hBody : statusHasNoBody res.status = false)
    (hPlain : res.streaming = false) (hFits : res.body.length ≤ clientMaxBody) {stamp : Stamp}
    {base : Nat} {w : Wire} :
    readBody stamp .get res.status (linesText (headLinesOf fields res date)) base w =
      match readCounted stamp (w.recvs.length + 1) w (base + res.body.length) with
      | (w, .ok ()) => (w, (w.text.drop base).take res.body.length, .ok (base + res.body.length, false))
      | (w, .error err) => (w, [], .error err) := by
  have hChunked := hOk.chunked_eq
  rw [hBody, hPlain] at hChunked
  rw [readBody, if_neg (not_none hBody), if_neg (by rw [hChunked]; exact Bool.false_ne_true),
    hOk.length_eq hBody hPlain hFits]
  dsimp only
  rewrite [if_neg (by omega)]
  rfl

theorem reads_counted {head : Bytes} (hSent : Sent fields res date head)
    (hBody : statusHasNoBody res.status = false)
    (hPlain : res.streaming = false) (hFits : res.body.length ≤ clientMaxBody) {stamp : Stamp}
    {recvs : List Recv} {rest : Bytes}
    (hSize : head.length + res.body.length + min rest.length 8191 ≤ clientMaxBody + clientHeadCap)
    (h : Delivers recvs (head ++ (res.body ++ rest))) : ReadsBack stamp recvs res.status res.body rest := by
  obtain ⟨hOk, rfl, hCap⟩ := hSent
  obtain ⟨w, recvs', data', hRecvs, hDelivers, hText, hThere, _, hDone, _⟩ :=
    @readResponse_head _ _ _ hOk hCap stamp [] recvs _ _ h rfl
  rw [List.append_nil] at hDone hRecvs
  have hLength := congrArg List.length hText
  rw [List.length_append, List.length_append, List.length_append, Wire.text_length] at hLength
  obtain ⟨w', hCounted, hAll, hText'⟩ :=
    @readCounted_ok stamp
      ((headText (headLinesOf fields res date)).length + res.body.length) recvs' data' hDelivers w
      (w.recvs.length + 1) hRecvs (by rw [hRecvs]; omega)
        (by rw [List.length_append, Wire.text_length]; omega)
      (by rw [List.length_append, Wire.text_length]; omega)
  rw [hText] at hText'
  have hBehind := behind_head hText' (by omega)
  have hBodyThere : res.body.length ≤
    (w'.text.drop (headText (headLinesOf fields res date)).length).length := by
    rw [List.length_drop, Wire.text_length]
    omega
  have hTake := congrArg (List.take res.body.length) hBehind
  rw [List.take_append_of_le_length hBodyThere, List.take_left] at hTake
  have hRest := congrArg (List.drop res.body.length) hBehind
  rw [List.drop_append_of_le_length hBodyThere, List.drop_left, List.drop_drop] at hRest
  have hRead :=
    @readBody_counted _ _ _ hOk hBody hPlain hFits stamp (headText (headLinesOf fields res date)).length w
  rw [hCounted] at hRead
  obtain ⟨hGot, hStatus, hGotBody, hWire⟩ := hDone hRead
  refine ⟨hGot, hStatus, hGotBody.trans hTake, ?_⟩
  rw [hWire, text_drop]
  exact hRest

theorem fails_counted {head : Bytes} (hSent : Sent fields res date head)
    (hBody : statusHasNoBody res.status = false)
    (hPlain : res.streaming = false) (hFits : res.body.length ≤ clientMaxBody) (stamp : Stamp) {rest : Bytes}
    (hSize : clientMaxBody + clientHeadCap < head.length + res.body.length + min rest.length 8191) :
    ∃ recvs, Delivers recvs (head ++ (res.body ++ rest)) ∧
      (readResponse stamp .get ⟨[], recvs⟩).ok = false := by
  obtain ⟨hOk, rfl, hCap⟩ := hSent
  have hNe : res.body ≠ [] := by
    intro hNil
    rw [hNil, List.length_nil, clientMaxBody, clientHeadCap] at hSize
    rw [clientHeadCap] at hCap
    omega
  obtain ⟨init, last, hInit⟩ : ∃ init last, res.body = init ++ [last] :=
    ⟨_, _, (List.dropLast_append_getLast hNe).symm⟩
  have hInitLength := congrArg List.length hInit
  rw [List.length_append, List.length_singleton] at hInitLength
  have hLastLength : (last :: rest.take 8191).length = min rest.length 8191 + 1 := by
    rw [List.length_cons, List.length_take, Nat.min_comm]
  have hLast : (last :: rest.take 8191).length ≤ 8192 := by omega
  have hTail := Delivers.cons (List.cons_ne_nil _ _) hLast (delivers_bytes (rest.drop 8191))
  have hFront := delivers_bytes (headText (headLinesOf fields res date) ++ init)
  have hAll := hFront.append hTail
  have hWhole : headText (headLinesOf fields res date) ++ init ++ (last :: rest.take 8191 ++ rest.drop 8191) =
      headText (headLinesOf fields res date) ++ (res.body ++ rest) := by
    rw [hInit, List.cons_append, List.take_append_drop]
    simp
  rw [hWhole] at hAll
  refine ⟨_, hAll, ?_⟩
  obtain ⟨w, recvs', data', hRecvs, hDelivers, hText, hThere, _, _, hFails⟩ :=
    @readResponse_head _ _ _ hOk hCap stamp
      (.data (last :: rest.take 8191) :: (rest.drop 8191).map fun b => .data [b]) _ _ _ hFront rfl
  have hLength := congrArg List.length hText
  rw [List.length_append, List.length_append, Wire.text_length] at hLength
  obtain ⟨w', err, hCounted⟩ :=
    @readCounted_tooBig stamp
      ((headText (headLinesOf fields res date)).length + res.body.length) _ _ recvs' data'
      (List.cons_ne_nil _ _) hLast hDelivers w (w.recvs.length + 1) hRecvs
        (by rw [hRecvs, List.length_append]; omega)
      (by omega) (by rw [hLastLength]; omega)
  have hRead :=
    @readBody_counted _ _ _ hOk hBody hPlain hFits stamp (headText (headLinesOf fields res date)).length w
  rw [hCounted] at hRead
  exact hFails hRead

/-! ## Every response -/

/-- A response built by the calls is read back however it is cut exactly when
it is framed as the client expects. -/
theorem response_read_iff {ops : List ResponseOp} (hOps : ∀ op ∈ ops, OpOk op) {keepAlive : Bool}
    {res : HttpResponse}
    (hRes : res = { buildResponse ops with keepAlive := keepAlive }) (hLow : 200 ≤ res.status)
    (hHigh : res.status ≤ 599)
    {date : Bytes} (hDate : 13 ∉ date ∧ 10 ∉ date) {calls : Nat} {chunks : List Bytes} {wire : Bytes}
    (hChunks : streamedChunks res calls = some chunks)
      (hWire : writeResponse res date calls false = some wire)
    (hBody : (responseBody res chunks).length ≤ clientMaxBody)
    (hHead : (httpResponseSerializeHead res date).length ≤ clientHeadCap) (stamp : Stamp) (rest : Bytes) :
    (∀ recvs, Delivers recvs (wire ++ rest) →
      ReadsBack stamp recvs res.status (responseBody res chunks) rest) ↔
      Framed res date chunks rest := by
  have hBuilt : Built res := by
    obtain ⟨hFields, hKept, hUpgrade⟩ := buildResponse_built hOps
    rw [hRes]
    exact ⟨hFields, hKept, hUpgrade⟩
  obtain ⟨fields, hFields, hText⟩ := hBuilt.fields
  have hSent : Sent fields res date (httpResponseSerializeHead res date) :=
    ⟨⟨hLow, hHigh, hFields, hDate⟩, serializeHead_eq hLow hText date, hHead⟩
  rw [writeResponse_eq hBuilt.kept hBuilt.upgrade hChunks hWire, List.append_assoc, payloadText, Framed]
  rw [responseBody] at hBody ⊢
  cases hNone : statusHasNoBody res.status with
  | true =>
    rw [if_pos rfl]
    constructor
    · intro h
      obtain ⟨hEmpty, hRest⟩ :=
        readsBack_unique (reads_none hSent hNone (delivers_bytes _)) (h _ (delivers_bytes _))
      cases hStreaming : res.streaming with
      | true =>
        rw [hStreaming, if_pos rfl] at hRest
        have hLength := congrArg List.length hRest
        rw [List.length_append, chunksText_length, framedSize] at hLength
        omega
      | false =>
        rw [hStreaming] at hEmpty
        exact ⟨rfl, hEmpty.symm⟩
    · rintro ⟨hPlain, hEmpty⟩ recvs h
      rw [hPlain] at h ⊢
      have hRead := @reads_none _ _ _ _ hSent hNone stamp _ _ h
      rw [if_neg Bool.false_ne_true, hEmpty]
      exact hRead
  | false =>
    rw [if_neg Bool.false_ne_true, if_neg Bool.false_ne_true]
    cases hStreaming : res.streaming with
    | true =>
      rw [hStreaming, if_pos rfl] at hBody
      rw [if_pos rfl, if_pos rfl, if_pos rfl]
      have hOk := chunksOk_of_streamed hChunks hBody
      constructor
      · intro h
        by_contra hLarge
        obtain ⟨recvs, hRecvs, hFails⟩ := fails_chunked hSent hNone hStreaming hOk hBody (by omega) stamp rest
        rw [(h recvs hRecvs).1] at hFails
        cases hFails
      · intro hSize recvs h
        exact reads_chunked hSent hNone hStreaming hOk hBody hSize h
    | false =>
      rw [hStreaming, if_neg Bool.false_ne_true] at hBody
      rw [if_neg Bool.false_ne_true, if_neg Bool.false_ne_true, if_neg Bool.false_ne_true]
      constructor
      · intro h
        by_contra hLarge
        obtain ⟨recvs, hRecvs, hFails⟩ :=
          @fails_counted _ _ _ _ hSent hNone hStreaming hBody stamp rest (by omega)
        rw [(h recvs hRecvs).1] at hFails
        cases hFails
      · intro hSize recvs h
        exact reads_counted hSent hNone hStreaming hBody hSize h

theorem response_read_hello :
    Framed { buildResponse [.addBody (ascii "hello")] with keepAlive := true }
      (ascii "Thu, 01 Jan 1970 00:00:00 GMT") []
        (ascii "HTTP/1.1") ∧
      ∀ recvs,
        Delivers recvs
          (httpResponseSerialize { buildResponse [.addBody (ascii "hello")] with keepAlive := true }
          (ascii "Thu, 01 Jan 1970 00:00:00 GMT") ++ ascii "HTTP/1.1") →
        ReadsBack ⟨1, 1⟩ recvs 200 (ascii "hello") (ascii "HTTP/1.1") := by
  have hFramed : Framed { buildResponse [.addBody (ascii "hello")] with keepAlive := true }
      (ascii "Thu, 01 Jan 1970 00:00:00 GMT") [] (ascii "HTTP/1.1") := by
    rw [Framed]
    decide +kernel
  refine ⟨hFramed, ?_⟩
  apply (@response_read_iff [.addBody (ascii "hello")] ?_ true _ rfl (by decide) (by decide)
    (ascii "Thu, 01 Jan 1970 00:00:00 GMT")
    (by decide) 0 [] _ rfl rfl (by decide) (by decide +kernel) ⟨1, 1⟩ (ascii "HTTP/1.1")).mpr hFramed
  intro op hOp
  rw [List.mem_singleton.mp hOp]
  trivial

/-- A stream under a status without a body, and what is written for it. -/
def noContentStream : HttpResponse :=
  { buildResponse [.setStatus 204, .streamWrite (ascii "hi")] with keepAlive := true }

def noContentWire : Bytes :=
  (writeResponse noContentStream (ascii "Thu, 01 Jan 1970 00:00:00 GMT") 0 false).getD []

/-- The chunks are taken for what comes next. -/
theorem stream_left_behind :
    streamedChunks noContentStream 0 = some [ascii "hi"] ∧
      writeResponse noContentStream (ascii "Thu, 01 Jan 1970 00:00:00 GMT") 0 false = some noContentWire ∧
      Delivers [.data noContentWire] (noContentWire ++ []) ∧
      ¬ ReadsBack ⟨1, 1⟩ [.data noContentWire] 204 (responseBody noContentStream [ascii "hi"]) [] ∧
      (readResponse ⟨1, 1⟩ .get ⟨[], [.data noContentWire]⟩).wire.text = ascii "2\r\nhi\r\n0\r\n\r\n" := by
  refine ⟨rfl, rfl, ?_, by decide +kernel, by decide +kernel⟩
  apply Delivers.cons (by decide +kernel) (by decide +kernel) .nil

end Cweb
