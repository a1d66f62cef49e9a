import Mathlib.Data.List.Basic
import Mathlib.Algebra.Group.Nat.Defs

/-!
# Keyed hashing

HMAC of RFC 2104 over a hash function with its block length, and PBKDF2 of
RFC 8018 over a pseudorandom function with its output length.
-/

namespace Mac

def xor (x y : List UInt8) : List UInt8 := List.zipWith (· ^^^ ·) x y

theorem xor_zeros (y : List UInt8) : xor (List.replicate y.length 0) y = y := by
  induction y with
  | nil => rfl
  | cons b y ih =>
    rw [List.length_cons, List.replicate_succ, xor, List.zipWith_cons_cons, UInt8.zero_xor]
    exact congrArg (b :: ·) ih

theorem xor_take (n : Nat) : ∀ x y : List UInt8, xor (x.take n) y = (xor x y).take n := by
  induction n with
  | zero => exact fun _ _ => rfl
  | succ n ih =>
    intro x y
    cases x with
    | nil => rfl
    | cons a x =>
      cases y with
      | nil => rfl
      | cons b y => exact congrArg ((a ^^^ b) :: ·) (ih x y)

/-! ## HMAC -/

/-- The key, or its hash when it is longer than a block, filled with zeros. -/
def blockKey (hash : List UInt8 → List UInt8) (len : Nat) (key : List UInt8) : List UInt8 :=
  (if key.length ≤ len then key else hash key).rightpad len 0

def hmac (hash : List UInt8 → List UInt8) (len : Nat) (key text : List UInt8) : List UInt8 :=
  hash (xor (blockKey hash len key) (List.replicate len 0x5c) ++
    hash (xor (blockKey hash len key) (List.replicate len 0x36) ++ text))

/-! ## PBKDF2 -/

/-- The number in four bytes, the highest first. -/
def int (i : Nat) : List UInt8 := [24, 16, 8, 0].map fun k => UInt8.ofNat (i / 2 ^ k)

/-- The chain of outputs for one block, from its first. -/
def chain (prf : List UInt8 → List UInt8 → List UInt8) (password salt : List UInt8) (i : Nat) :
    Nat → List UInt8
  | 0 => prf password (salt ++ int i)
  | j + 1 => prf password (chain prf password salt i j)

/-- The exclusive or of so many outputs of the chain. -/
def block (prf : List UInt8 → List UInt8 → List UInt8) (len : Nat) (password salt : List UInt8)
    (count i : Nat) : List UInt8 :=
  (List.range count).foldl (fun t j => xor t (chain prf password salt i j)) (List.replicate len 0)

theorem block_one {prf : List UInt8 → List UInt8 → List UInt8} {len : Nat} (password salt : List UInt8)
    (i : Nat)
    (hLen : (chain prf password salt i 0).length = len) :
    block prf len password salt 1 i = chain prf password salt i 0 := by
  rw [block, List.range_one, List.foldl_cons, List.foldl_nil, ← hLen, xor_zeros]

theorem block_succ (prf : List UInt8 → List UInt8 → List UInt8) (len : Nat) (password salt : List UInt8)
    (count i : Nat) :
    block prf len password salt (count + 1) i =
      xor (block prf len password salt count i) (chain prf password salt i count) := by
  rw [block, List.range_succ, List.foldl_append]
  rfl

/-- The first `outLen` bytes of the blocks, which are counted from one. -/
def pbkdf2 (prf : List UInt8 → List UInt8 → List UInt8) (len : Nat) (password salt : List UInt8)
    (count outLen : Nat) :
    List UInt8 :=
  ((List.range ((outLen + len - 1) / len)).flatMap fun i =>
    block prf len password salt count (i + 1)).take outLen

end Mac
