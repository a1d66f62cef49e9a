import Mathlib.Data.List.Infix
import Cweb.Http.ClientRead

/-!
# The read-ahead buffer while a response is read

Reading only adds bytes with the stamp of the request that is being answered,
behind whatever the buffer held before, and a response that is read to its end
takes at least one byte from the front.
-/

namespace Cweb.HttpClient

open Sv

/-- Bytes with this stamp were added at the end of the buffer. -/
def Grows (stamp : Stamp) (w w' : Wire) : Prop :=
  ∃ got, w'.rbuf = w.rbuf ++ got ∧ ∀ b ∈ got, b.stamp = stamp

theorem Grows.refl (stamp : Stamp) (w : Wire) : Grows stamp w w :=
  ⟨[], by simp, fun b hb => absurd hb List.not_mem_nil⟩

theorem Grows.trans {stamp : Stamp} {w w' w'' : Wire} (h : Grows stamp w w') (h' : Grows stamp w' w'') :
    Grows stamp w w'' := by
  obtain ⟨got, hEq, hStamp⟩ := h
  obtain ⟨got', hEq', hStamp'⟩ := h'
  refine ⟨got ++ got', by rw [hEq', hEq, List.append_assoc], ?_⟩
  intro b hb
  obtain hb | hb := List.mem_append.mp hb
  · exact hStamp b hb
  · exact hStamp' b hb

theorem Grows.length_le {stamp : Stamp} {w w' : Wire} (h : Grows stamp w w') :
    w.rbuf.length ≤ w'.rbuf.length := by
  obtain ⟨got, hEq, _⟩ := h
  rw [hEq, List.length_append]
  omega

/-- What a read of the socket keeps, reading a response keeps. -/
structure Refilling (stamp : Stamp) (R : Wire → Wire → Prop) : Prop where
  refl : ∀ w, R w w
  trans : ∀ {w w' w''}, R w w' → R w' w'' → R w w''
  refill : ∀ w, R w (refill stamp w).1

section Refilling

variable {stamp : Stamp} {R : Wire → Wire → Prop} (hR : Refilling stamp R)

include hR

theorem Refilling.of_refill {w w' : Wire} {r : Refill} (h : HttpClient.refill stamp w = (w', r)) :
    R w w' := by
  have hRefill := hR.refill w
  rwa [h] at hRefill

theorem Refilling.readHead (fuel : Nat) : ∀ w touched, R w (readHead stamp fuel w touched).1 := by
  induction fuel with
  | zero => exact fun w _ => hR.refl w
  | succ fuel ih =>
    intro w touched
    rw [HttpClient.readHead]
    split
    · exact hR.refl w
    · split
      · exact hR.refl w
      · split
        · rename_i hRefill
          exact hR.trans (hR.of_refill hRefill) (ih _ _)
        · rename_i hRefill
          exact hR.of_refill hRefill
        · rename_i hRefill
          exact hR.of_refill hRefill

theorem Refilling.readChunked (fuel : Nat) :
    ∀ w cr pos body, R w (readChunked stamp fuel w cr pos body).1 := by
  induction fuel with
  | zero => exact fun w _ _ _ => hR.refl w
  | succ fuel ih =>
    intro w cr pos body
    simp only [HttpClient.readChunked]
    split
    · exact hR.refl w
    · exact hR.refl w
    · split
      · exact hR.refl w
      · split
        · rename_i hRefill
          exact hR.trans (hR.of_refill hRefill) (ih _ _ _ _)
        · rename_i hRefill
          exact hR.of_refill hRefill

theorem Refilling.readCounted (fuel : Nat) : ∀ w upTo, R w (readCounted stamp fuel w upTo).1 := by
  induction fuel with
  | zero => exact fun w _ => hR.refl w
  | succ fuel ih =>
    intro w upTo
    rw [HttpClient.readCounted]
    split
    · exact hR.refl w
    · split
      · rename_i hRefill
        split
        · exact hR.of_refill hRefill
        · exact hR.trans (hR.of_refill hRefill) (ih _ _)
      · rename_i hRefill
        exact hR.of_refill hRefill

theorem Refilling.readToClose (fuel : Nat) : ∀ w, R w (readToClose stamp fuel w).1 := by
  induction fuel with
  | zero => exact fun w => hR.refl w
  | succ fuel ih =>
    intro w
    rw [HttpClient.readToClose]
    split
    · rename_i hRefill
      exact hR.of_refill hRefill
    · rename_i hRefill
      exact hR.of_refill hRefill
    · rename_i hRefill
      split
      · exact hR.of_refill hRefill
      · exact hR.trans (hR.of_refill hRefill) (ih _)

theorem Refilling.readBody (method : HttpMethod) (status : Nat) (head : Bytes) (base : Nat) (w : Wire) :
    R w (readBody stamp method status head base w).1 := by
  have hChunked := hR.readChunked (w.recvs.length + 1) w chunkStart base []
  have hClose := hR.readToClose (w.recvs.length + 1) w
  rw [HttpClient.readBody]
  split
  · exact hR.refl w
  · split
    · split <;> (rename_i hEq; rw [hEq] at hChunked; exact hChunked)
    · split
      · split
        · exact hR.refl w
        · rename_i cl _ _
          have hCounted := hR.readCounted (w.recvs.length + 1) w (base + cl)
          split <;> (rename_i hEq; rw [hEq] at hCounted; exact hCounted)
      · split <;> (rename_i hEq; rw [hEq] at hClose; exact hClose)

end Refilling

theorem grows_refilling (stamp : Stamp) : Refilling stamp (Grows stamp) where
  refl := Grows.refl stamp
  trans := Grows.trans
  refill w := by
    rw [refill]
    split
    · exact Grows.refl stamp w
    · exact Grows.refl stamp w
    · exact Grows.refl stamp w
    · exact Grows.refl stamp w
    · split
      · exact Grows.refl stamp w
      · refine ⟨_, rfl, ?_⟩
        intro b hb
        obtain ⟨byte, _, rfl⟩ := List.mem_map.mp hb
        rfl

theorem grows_of_refill {stamp : Stamp} {w w' : Wire} {r : Refill} (h : refill stamp w = (w', r)) :
    Grows stamp w w' := (grows_refilling stamp).of_refill h

theorem readHead_grows (stamp : Stamp) (fuel : Nat) (w : Wire) (touched : Bool) :
    Grows stamp w (readHead stamp fuel w touched).1 := (grows_refilling stamp).readHead fuel w touched

theorem readToClose_grows (stamp : Stamp) (fuel : Nat) (w : Wire) :
    Grows stamp w (readToClose stamp fuel w).1 :=
  (grows_refilling stamp).readToClose fuel w

theorem readBody_grows (stamp : Stamp) (method : HttpMethod) (status : Nat) (head : Bytes) (base : Nat)
    (w : Wire) : Grows stamp w (readBody stamp method status head base w).1 :=
  (grows_refilling stamp).readBody method status head base w

/-! ## Where a response ends -/

theorem chunkLine_length {line rest line' rest' : Bytes} (h : chunkLine line rest = some (line', rest')) :
    rest'.length ≤ rest.length := by
  induction rest generalizing line with
  | nil =>
    obtain ⟨_, rfl⟩ := Prod.mk.inj (Option.some.inj h)
    exact Nat.le_refl _
  | cons b rest ih =>
    rw [chunkLine] at h
    split at h
    · obtain ⟨_, rfl⟩ := Prod.mk.inj (Option.some.inj h)
      exact Nat.le_refl _
    · split at h
      · cases h
      · exact (ih h).trans (Nat.le_succ _)

theorem chunkCrlf_length (rest : Bytes) : ∀ seen, (chunkCrlf seen rest).2.1.length ≤ rest.length := by
  induction rest with
  | nil => exact fun _ => Nat.le_refl _
  | cons b rest ih =>
    intro seen
    rw [chunkCrlf]
    by_cases hSeen : 2 ≤ seen
    · rw [if_pos hSeen]
    · rw [if_neg hSeen]
      by_cases hWant : b = (if seen = 0 then 13 else 10)
      · rw [if_pos hWant]
        exact (ih _).trans (Nat.le_succ _)
      · rw [if_neg hWant]
        exact Nat.le_succ _

theorem chunkStep_length (cr : ChunkReader) (rest body : Bytes) :
    (chunkStep cr rest body).2.1.length ≤ rest.length := by
  have hLine : ∀ {line b rest'}, chunkLine cr.line rest = some (line, b :: rest') →
      rest'.length ≤ rest.length := by
    intro line b rest' h
    have hLength := chunkLine_length h
    rw [List.length_cons] at hLength
    omega
  have hCrlf := chunkCrlf_length rest cr.crlfSeen
  rw [chunkStep]
  split
  · split
    · exact Nat.le_refl _
    · exact Nat.zero_le _
    · rename_i hEq
      split <;> exact hLine hEq
  · dsimp only
    split
    · exact Nat.le_refl _
    · simp
  · split <;> (rename_i hEq; rw [hEq] at hCrlf; exact hCrlf)
  · split
    · exact Nat.le_refl _
    · exact Nat.zero_le _
    · rename_i hEq
      split <;> exact hLine hEq

theorem chunkFeed_length (fuel : Nat) :
    ∀ cr rest body, (chunkFeed fuel cr rest body).2.1.length ≤ rest.length := by
  induction fuel with
  | zero =>
    intro cr rest body
    cases rest <;> exact Nat.le_refl _
  | succ fuel ih =>
    intro cr rest body
    cases rest with
    | nil => exact Nat.le_refl _
    | cons b rest =>
      have hStep := chunkStep_length cr (b :: rest) body
      rw [chunkFeed.eq_def]
      dsimp only
      split
      · rename_i hEq
        rw [hEq] at hStep
        exact hStep
      · rename_i hEq
        rw [hEq] at hStep
        exact (ih _ _ _).trans hStep

theorem readChunked_pos (stamp : Stamp) (fuel : Nat) :
    ∀ w cr pos body stop, 0 < pos → pos ≤ w.rbuf.length →
      (readChunked stamp fuel w cr pos body).2.2 = .ok stop → 0 < stop := by
  induction fuel with
  | zero =>
    intro w cr pos body stop _ _ h
    cases h
  | succ fuel ih =>
    intro w cr pos body stop hPos hLe h
    have hLength := chunkFeed_length (w.text.drop pos).length cr (w.text.drop pos) body
    have hText : (w.text.drop pos).length = w.rbuf.length - pos := by
      rw [List.length_drop, Wire.text, List.length_map]
    simp only [readChunked] at h
    split at h
    · rename_i hFeed
      rw [hFeed] at hLength
      obtain rfl := Except.ok.inj h
      dsimp only at hLength
      omega
    · cases h
    · rename_i hFeed
      rw [hFeed] at hLength
      dsimp only at hLength
      split at h
      · cases h
      · split at h
        · rename_i hRefill
          have hMore := (grows_of_refill hRefill).length_le
          exact ih _ _ _ _ stop (by omega) (by omega) h
        · cases h

theorem readBody_pos {stamp : Stamp} {method : HttpMethod} {status : Nat} {head : Bytes} {base : Nat}
    {w w' : Wire} {body : Bytes} {stop : Nat} {closed : Bool} (hPos : 0 < base) (hLe : base ≤ w.rbuf.length)
    (h : readBody stamp method status head base w = (w', body, .ok (stop, closed))) : 0 < stop := by
  have hChunked := readChunked_pos stamp (w.recvs.length + 1) w chunkStart base []
  have hClose := readToClose_grows stamp (w.recvs.length + 1) w
  rw [readBody] at h
  split at h
  · cases h
    exact hPos
  · split at h
    · split at h
      · rename_i hEq
        cases h
        exact hChunked _ hPos hLe (by rw [hEq])
      · cases h
    · split at h
      · split at h
        · cases h
        · split at h
          · cases h
            omega
          · cases h
      · split at h
        · rename_i hEq
          rw [hEq] at hClose
          have hMore := hClose.length_le
          cases h
          exact Nat.lt_of_lt_of_le hPos (hLe.trans hMore)
        · cases h

theorem findHeadSep_length {data : Bytes} {sep : Nat} (h : findHeadSep data = some sep) :
    sep + 4 ≤ data.length := by
  obtain ⟨hLess, hPrefix, _⟩ := List.findIdx?_eq_some_iff_getElem.mp h
  rw [List.getElem_tails, List.isPrefixOf_iff_prefix] at hPrefix
  have hLength := hPrefix.length_le
  rw [List.length_drop] at hLength
  have hMark : (ascii "\r\n\r\n").length = 4 := by decide
  omega

theorem readHead_sep (stamp : Stamp) (fuel : Nat) :
    ∀ w touched sep, (readHead stamp fuel w touched).2.2 = .ok sep →
      sep + 4 ≤ (readHead stamp fuel w touched).1.rbuf.length := by
  induction fuel with
  | zero =>
    intro w touched sep h
    cases h
  | succ fuel ih =>
    intro w touched sep h
    rw [readHead] at h ⊢
    split at h
    · rename_i hSep
      obtain rfl := Except.ok.inj h
      have hLength := findHeadSep_length hSep
      rwa [Wire.text, List.length_map] at hLength
    · split at h
      · cases h
      · rename_i hCap
        rw [if_neg hCap]
        split at h
        · exact ih _ _ _ h
        · cases h
        · cases h

end Cweb.HttpClient
