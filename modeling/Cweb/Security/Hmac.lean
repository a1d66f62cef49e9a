import Cweb.Lib.Mac
import Cweb.Lib.Sha256
import Cweb.Utils.Sv

/-!
# SHA-256 and HMAC

The digest is computed in a context that takes the message in pieces. What is
left in the block from before is whatever the memory held.
-/

namespace Cweb.Hmac

/-! ## SHA-256 -/

def rotr (x n : UInt32) : UInt32 := x >>> n ||| x <<< (32 - n)

def shr (x n : UInt32) : UInt32 := x >>> n

def ch (x y z : UInt32) : UInt32 := (x &&& y) ^^^ (~~~x &&& z)

def maj (x y z : UInt32) : UInt32 := (x &&& y) ^^^ (x &&& z) ^^^ (y &&& z)

def SIG0 (x : UInt32) : UInt32 := rotr x 2 ^^^ rotr x 13 ^^^ rotr x 22

def SIG1 (x : UInt32) : UInt32 := rotr x 6 ^^^ rotr x 11 ^^^ rotr x 25

def sig0 (x : UInt32) : UInt32 := rotr x 7 ^^^ rotr x 18 ^^^ shr x 3

def sig1 (x : UInt32) : UInt32 := rotr x 17 ^^^ rotr x 19 ^^^ shr x 10

def K : Vector UInt32 64 := #v[
  0x428a2f98, 0x71374491, 0xb5c0fbcf, 0xe9b5dba5, 0x3956c25b,
  0x59f111f1, 0x923f82a4, 0xab1c5ed5, 0xd807aa98, 0x12835b01,
  0x243185be, 0x550c7dc3, 0x72be5d74, 0x80deb1fe, 0x9bdc06a7,
  0xc19bf174, 0xe49b69c1, 0xefbe4786, 0x0fc19dc6, 0x240ca1cc,
  0x2de92c6f, 0x4a7484aa, 0x5cb0a9dc, 0x76f988da, 0x983e5152,
  0xa831c66d, 0xb00327c8, 0xbf597fc7, 0xc6e00bf3, 0xd5a79147,
  0x06ca6351, 0x14292967, 0x27b70a85, 0x2e1b2138, 0x4d2c6dfc,
  0x53380d13, 0x650a7354, 0x766a0abb, 0x81c2c92e, 0x92722c85,
  0xa2bfe8a1, 0xa81a664b, 0xc24b8b70, 0xc76c51a3, 0xd192e819,
  0xd6990624, 0xf40e3585, 0x106aa070, 0x19a4c116, 0x1e376c08,
  0x2748774c, 0x34b0bcb5, 0x391c0cb3, 0x4ed8aa4a, 0x5b9cca4f,
  0x682e6ff3, 0x748f82ee, 0x78a5636f, 0x84c87814, 0x8cc70208,
  0x90befffa, 0xa4506ceb, 0xbef9a3f7, 0xc67178f2]

structure Sha256Ctx where
  h : Vector UInt32 8
  /-- Message bytes processed so far. -/
  bytes : UInt64
  block : Vector UInt8 64
  used : Nat
deriving DecidableEq, Repr

def sha256Init (ctx : Sha256Ctx) : Sha256Ctx :=
  { ctx with
    h := #v[0x6a09e667, 0xbb67ae85, 0x3c6ef372, 0xa54ff53a, 0x510e527f, 0x9b05688c, 0x1f83d9ab, 0x5be0cd19]
    bytes := 0
    used := 0 }

def loadBe32 (p : Bytes) : UInt32 :=
  (p.getD 0 0).toUInt32 <<< 24 ||| (p.getD 1 0).toUInt32 <<< 16 ||| (p.getD 2 0).toUInt32 <<< 8 |||
    (p.getD 3 0).toUInt32

def storeBe32 (v : UInt32) : Bytes := [(v >>> 24).toUInt8, (v >>> 16).toUInt8, (v >>> 8).toUInt8, v.toUInt8]

/-- The words of the block, in front of what the array held. -/
def loadWords (block : Bytes) (count : Nat) : Vector UInt32 64 :=
  (List.range count).foldl (fun w i => w.set! i (loadBe32 (block.drop (4 * i)))) (Vector.replicate 64 0)

/-- The array when its words below `16 + count` are computed. -/
def extendWords (w : Vector UInt32 64) (count : Nat) : Vector UInt32 64 :=
  (List.range' 16 count).foldl
    (fun w i => w.set! i (sig1 w[i - 2]! + w[i - 7]! + sig0 w[i - 15]! + w[i - 16]!)) w

def schedule (block : Bytes) : Vector UInt32 64 := extendWords (loadWords block 16) 48

/-- The local variables of the rounds. -/
structure Locals where
  a : UInt32
  b : UInt32
  c : UInt32
  d : UInt32
  e : UInt32
  f : UInt32
  g : UInt32
  h : UInt32
deriving DecidableEq, Repr

def round (k w : UInt32) (v : Locals) : Locals :=
  let t1 := v.h + SIG1 v.e + ch v.e v.f v.g + k + w
  let t2 := SIG0 v.a + maj v.a v.b v.c
  ⟨t1 + t2, v.a, v.b, v.c, v.d + t1, v.e, v.f, v.g⟩

def rounds (w : Vector UInt32 64) (v : Locals) : Locals :=
  (List.range 64).foldl (fun v i => round K[i]! w[i]! v) v

def sha256Compress (ctx : Sha256Ctx) (block : Bytes) : Sha256Ctx :=
  let h := ctx.h
  let v := rounds (schedule block) ⟨h[0], h[1], h[2], h[3], h[4], h[5], h[6], h[7]⟩
  { ctx with h :=
    #v[h[0] + v.a, h[1] + v.b, h[2] + v.c, h[3] + v.d, h[4] + v.e, h[5] + v.f, h[6] + v.g, h[7] + v.h] }

def hashWords (h : Vector UInt32 8) : Fips.Words :=
  ⟨h[0].toBitVec, h[1].toBitVec, h[2].toBitVec, h[3].toBitVec, h[4].toBitVec, h[5].toBitVec,
    h[6].toBitVec, h[7].toBitVec⟩

/-- The block with some data copied to an offset. -/
def memcpy (block : Vector UInt8 64) (off : Nat) (data : Bytes) : Vector UInt8 64 :=
  Vector.ofFn fun i => if off ≤ i.val then data.getD (i.val - off) block[i] else block[i]

/-- `ctx->block[ctx->used++] = b` -/
def Sha256Ctx.put (ctx : Sha256Ctx) (b : UInt8) : Sha256Ctx :=
  { ctx with block := memcpy ctx.block ctx.used [b], used := ctx.used + 1 }

def Sha256Ctx.copy (ctx : Sha256Ctx) (data : Bytes) : Sha256Ctx :=
  { ctx with block := memcpy ctx.block ctx.used data, used := ctx.used + data.length }

/-- The block compressed, and empty again. -/
def Sha256Ctx.flush (ctx : Sha256Ctx) : Sha256Ctx := { sha256Compress ctx ctx.block.toList with used := 0 }

def updateLoop : Nat → Sha256Ctx → Bytes → Sha256Ctx
  | 0, ctx, _ => ctx
  | fuel + 1, ctx, data =>
    if data = [] then ctx
    else
      let take := if 64 - ctx.used < data.length then 64 - ctx.used else data.length
      let ctx := ctx.copy (data.take take)
      updateLoop fuel (if ctx.used = 64 then ctx.flush else ctx) (data.drop take)

def sha256Update (ctx : Sha256Ctx) (data : Bytes) : Sha256Ctx :=
  updateLoop data.length { ctx with bytes := ctx.bytes + UInt64.ofNat data.length } data

/-- Zeros up to an offset. -/
def zeroTo (bound : Nat) : Nat → Sha256Ctx → Sha256Ctx
  | 0, ctx => ctx
  | fuel + 1, ctx => if ctx.used < bound then zeroTo bound fuel (ctx.put 0) else ctx

/-- A block with no room for the length is filled up and compressed. -/
def makeRoom (ctx : Sha256Ctx) : Sha256Ctx := if 56 < ctx.used then (zeroTo 64 64 ctx).flush else ctx

def sha256Final (ctx : Sha256Ctx) : Bytes :=
  let bits := ctx.bytes * 8
  let ctx := zeroTo 56 64 (makeRoom (ctx.put 0x80))
  let block := memcpy ctx.block 56 ((List.range 8).map fun i => (bits >>> UInt64.ofNat (56 - 8 * i)).toUInt8)
  (sha256Compress { ctx with block := block } block.toList).h.toList.flatMap storeBe32

def uninitialised : Sha256Ctx := ⟨Vector.replicate 8 0, 0, Vector.replicate 64 0, 0⟩

def sha256 (data : Bytes) : Bytes := sha256Final (sha256Update (sha256Init uninitialised) data)

/-! ## HMAC -/

def hmacSha256 (key msg : Bytes) : Bytes :=
  let k := memcpy (Vector.replicate 64 0) 0 (if key.length ≤ 64 then key else sha256 key)
  let ipad := k.map (· ^^^ 0x36)
  let opad := k.map (· ^^^ 0x5c)
  let inner := sha256Final (sha256Update (sha256Update (sha256Init uninitialised) ipad.toList) msg)
  sha256Final (sha256Update (sha256Update (sha256Init uninitialised) opad.toList) inner)

def digits : Bytes := ascii "0123456789abcdef"

def hmacSha256Hex (key msg : Bytes) : Bytes :=
  (hmacSha256 key msg).flatMap fun (b : UInt8) =>
    [digits.getD (b >>> 4 : UInt8).toNat 0, digits.getD (b &&& 0x0f : UInt8).toNat 0]

/-- Whether the ranges are the same, without a stop at the first difference. -/
def secureByteEqual (a b : Bytes) : Bool :=
  (List.zip a b).foldl (fun diff p => diff ||| (p.1 ^^^ p.2)) 0 == 0

end Cweb.Hmac
