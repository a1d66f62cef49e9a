import Mathlib.Data.List.Basic

/-!
# Hashing by blocks

A text is hashed by a chain of compressions, one for each of its whole blocks.
A buffer hashes a text that comes in pieces: it keeps the chaining value of the
whole blocks so far and what stands behind the last of them.
-/

namespace BlockHash

variable {β σ : Type*} {n : Nat} {compress : σ → List β → σ} {iv : σ}

def blocks (n : Nat) (s : List β) : List (List β) :=
  (List.range (s.length / n)).map fun i => (s.drop (n * i)).take n

def chain (compress : σ → List β → σ) (n : Nat) (iv : σ) (s : List β) : σ := (blocks n s).foldl compress iv

theorem blocks_nil : blocks n ([] : List β) = [] := by
  rw [blocks, List.length_nil, Nat.zero_div]
  rfl

theorem blocks_concat (hn : 0 < n) {s block : List β} (hs : n ∣ s.length) (hb : block.length = n) :
    blocks n (s ++ block) = blocks n s ++ [block] := by
  obtain ⟨k, hk⟩ := hs
  have hCount : (s ++ block).length / n = k + 1 := by
    rw [List.length_append, hk, hb, ← Nat.mul_succ, Nat.mul_div_cancel_left _ hn]
  rw [blocks, blocks, hCount, hk, Nat.mul_div_cancel_left _ hn, List.range_succ, List.map_append]
  congr 1
  · apply List.map_congr_left
    intro i hi
    have hLe : n * (i + 1) ≤ n * k := Nat.mul_le_mul_left n (List.mem_range.mp hi)
    rw [Nat.mul_succ] at hLe
    rw [List.drop_append_of_le_length (by omega),
      List.take_append_of_le_length (by rw [List.length_drop]; omega)]
  · rw [List.map_singleton, ← hk, List.drop_left, List.take_of_length_le (Nat.le_of_eq hb)]

theorem chain_concat (hn : 0 < n) {s block : List β} (hs : n ∣ s.length) (hb : block.length = n) :
    chain compress n iv (s ++ block) = compress (chain compress n iv s) block := by
  rw [chain, blocks_concat hn hs hb, List.foldl_append]
  rfl

/-! ## Buffers -/

structure Buffer (σ β : Type*) where
  state : σ
  pending : List β

/-- The next piece, when there is room for it. -/
def Buffer.feed (compress : σ → List β → σ) (n : Nat) (b : Buffer σ β) (piece : List β) : Buffer σ β :=
  if (b.pending ++ piece).length = n then ⟨compress b.state (b.pending ++ piece), []⟩
  else ⟨b.state, b.pending ++ piece⟩

/-- What a buffer stands for between two pieces. -/
structure Buffer.Holds (compress : σ → List β → σ) (n : Nat) (iv : σ) (s : List β) (b : Buffer σ β) :
    Prop where
  split : ∃ whole, s = whole ++ b.pending ∧ n ∣ whole.length ∧ b.state = chain compress n iv whole
  room : b.pending.length < n

theorem Buffer.Holds.start (hn : 0 < n) : Buffer.Holds (β := β) compress n iv [] ⟨iv, []⟩ :=
  ⟨⟨[], rfl, Nat.dvd_zero n, by rw [chain, blocks_nil]; rfl⟩, hn⟩

theorem Buffer.Holds.fill {s piece : List β} {b : Buffer σ β} (h : Buffer.Holds compress n iv s b)
    (hFull : (b.pending ++ piece).length = n) :
    Buffer.Holds compress n iv (s ++ piece) ⟨compress b.state (b.pending ++ piece), []⟩ := by
  obtain ⟨whole, hs, hWhole, hState⟩ := h.split
  have hn : 0 < n := Nat.zero_lt_of_lt h.room
  refine ⟨⟨whole ++ (b.pending ++ piece), ?_, ?_, ?_⟩, hn⟩
  · rw [hs, List.append_nil, List.append_assoc]
  · rw [List.length_append, hFull]
    exact Nat.dvd_add hWhole (Nat.dvd_refl n)
  · rw [chain_concat hn hWhole hFull, ← hState]

theorem Buffer.Holds.keep {s piece : List β} {b : Buffer σ β} (h : Buffer.Holds compress n iv s b)
    (hRoom : (b.pending ++ piece).length < n) :
    Buffer.Holds compress n iv (s ++ piece) ⟨b.state, b.pending ++ piece⟩ := by
  obtain ⟨whole, hs, hWhole, hState⟩ := h.split
  exact ⟨⟨whole, by rw [hs, List.append_assoc], hWhole, hState⟩, hRoom⟩

theorem Buffer.Holds.feed {s piece : List β} {b : Buffer σ β} (h : Buffer.Holds compress n iv s b)
    (hFit : (b.pending ++ piece).length ≤ n) :
    Buffer.Holds compress n iv (s ++ piece) (b.feed compress n piece) := by
  rw [Buffer.feed]
  split
  · next hFull => exact h.fill hFull
  · next hPart => exact h.keep (Nat.lt_of_le_of_ne hFit hPart)

theorem Buffer.Holds.length_pending {s : List β} {b : Buffer σ β} (h : Buffer.Holds compress n iv s b) :
    b.pending.length = s.length % n := by
  obtain ⟨whole, hs, ⟨k, hk⟩, _⟩ := h.split
  rw [hs, List.length_append, hk, Nat.mul_add_mod, Nat.mod_eq_of_lt h.room]

theorem Buffer.Holds.state_eq {s : List β} {b : Buffer σ β} (h : Buffer.Holds compress n iv s b)
    (hEmpty : b.pending = []) :
    b.state = chain compress n iv s := by
  obtain ⟨whole, hs, _, hState⟩ := h.split
  rw [hs, hEmpty, List.append_nil, hState]

end BlockHash
