import Cweb.Lib.Sha256

/-!
# SHA-1

The hash function of FIPS 180-1 on texts of whole bytes. Words, blocks and
padding are those of SHA-256; the function of a round and its constant depend on
the twenty rounds it is one of.
-/

namespace Fips.Sha1

def f (t : Nat) (x y z : Word) : Word :=
  if t < 20 then x &&& y ||| ~~~x &&& z
  else if t < 40 then x ^^^ y ^^^ z
  else if t < 60 then x &&& y ||| x &&& z ||| y &&& z
  else x ^^^ y ^^^ z

def K (t : Nat) : Word :=
  if t < 20 then 0x5a827999#32
  else if t < 40 then 0x6ed9eba1#32
  else if t < 60 then 0x8f1bbcdc#32
  else 0xca62c1d6#32

def schedule (block : List UInt8) (t : Nat) : Word :=
  if t < 16 then word block t
  else
    (schedule block (t - 3) ^^^ schedule block (t - 8) ^^^ schedule block (t - 14) ^^^ schedule block
      (t - 16)).rotateLeft 1

theorem schedule_lt (block : List UInt8) {t : Nat} (ht : t < 16) : schedule block t = word block t := by
  rw [schedule, if_pos ht]

theorem schedule_ge (block : List UInt8) {t : Nat} (ht : 16 ≤ t) : schedule block t =
    (schedule block (t - 3) ^^^ schedule block (t - 8) ^^^ schedule block (t - 14) ^^^ schedule block
      (t - 16)).rotateLeft 1 := by
  rw [schedule, if_neg (Nat.not_lt.mpr ht)]

/-- The five working variables, and the five words of a hash value. -/
@[ext] structure Words where
  a : Word
  b : Word
  c : Word
  d : Word
  e : Word
deriving DecidableEq, Repr

def round (t : Nat) (w : Word) (v : Words) : Words :=
  ⟨v.a.rotateLeft 5 + f t v.b v.c v.d + v.e + w + K t, v.a, v.b.rotateLeft 30, v.c, v.d⟩

def Words.add (u v : Words) : Words := ⟨u.a + v.a, u.b + v.b, u.c + v.c, u.d + v.d, u.e + v.e⟩

def compress (H : Words) (block : List UInt8) : Words :=
  H.add ((List.range 80).foldl (fun v t => round t (schedule block t) v) H)

def initial : Words := ⟨0x67452301#32, 0xefcdab89#32, 0x98badcfe#32, 0x10325476#32, 0xc3d2e1f0#32⟩

def Words.bytes (v : Words) : List UInt8 := [v.a, v.b, v.c, v.d, v.e].flatMap bytesOfWord

/-- The digest of a message of fewer than 2 ^ 61 bytes. -/
def sha1 (m : List UInt8) : List UInt8 := (BlockHash.chain compress 64 initial (pad m)).bytes

end Fips.Sha1
