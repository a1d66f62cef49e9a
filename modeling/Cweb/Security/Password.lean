import Cweb.Security.Hmac
import Cweb.Utils.Base64

/-!
# Stored passwords

A password is stored as the text `pbkdf2$<iterations>$<salt>$<hash>`, with the
salt and the hash in base64.
-/

namespace Cweb.Password

open Sv Hmac Base64

/-! ## PBKDF2 -/

/-- The first message of a block: the salt and the block's number. -/
def firstMessage (salt : Bytes) (blockIndex : UInt32) : Bytes :=
  salt ++ [((blockIndex >>> 24) &&& 0xff).toUInt8, ((blockIndex >>> 16) &&& 0xff).toUInt8,
    ((blockIndex >>> 8) &&& 0xff).toUInt8, (blockIndex &&& 0xff).toUInt8]

/-- `u` and the bytes at the cursor, of which there may be fewer. -/
def pbkdf2Round (pw : Bytes) (s : Bytes × Bytes) : Bytes × Bytes :=
  let u := hmacSha256 pw s.1
  (u, List.zipWith (· ^^^ ·) s.2 u)

def roundLoop (pw : Bytes) : Nat → Bytes × Bytes → Bytes × Bytes
  | 0, s => s
  | rounds + 1, s => roundLoop pw rounds (pbkdf2Round pw s)

def blockLoop (pw salt : Bytes) (iterations : UInt32) : Nat → UInt32 → Nat → Bytes
  | 0, _, _ => []
  | fuel + 1, blockIndex, remaining =>
    if remaining = 0 then []
    else
      let u := hmacSha256 pw (firstMessage salt blockIndex)
      let chunk := if remaining < 32 then remaining else 32
      (roundLoop pw (iterations.toNat - 1) (u, u.take chunk)).2 ++
        blockLoop pw salt iterations fuel (blockIndex + 1) (remaining - chunk)

def pbkdf2HmacSha256 (pw salt : Bytes) (iterations : UInt32) (outLen : Nat) : Bytes :=
  blockLoop pw salt iterations outLen 1 outLen

/-! ## Records -/

/-- The work factor of a call with no iterations. -/
def pbkdf2Iterations : UInt32 := 200000

def passwordHashMax : Nat := 128

/-- The texts of the iterations, the salt and the hash. -/
def parseRecord (encoded : Bytes) : Option (Bytes × Bytes × Bytes) :=
  let (scheme, encoded) := svChopByDelim 36 encoded
  let (iters, encoded) := svChopByDelim 36 encoded
  let (salt, hash) := svChopByDelim 36 encoded
  if scheme = ascii "pbkdf2" then some (iters, salt, hash) else none

def usedIterations (iterations : UInt32) : UInt32 := if iterations = 0 then pbkdf2Iterations else iterations

def recordText (salt : Bytes) (iterations : UInt32) (dk : Bytes) : Bytes :=
  ascii "pbkdf2$" ++ decimal iterations.toNat ++ [36] ++ base64EncodeInto salt ++ [36] ++ base64EncodeInto dk

/-- What is written to `out`, with its NUL. The salt is what the random source
gave, and the password is a C string. -/
def cwebPasswordHash (random : Option (Vector UInt8 16)) (password : Bytes) (iterations : UInt32)
    (outSize : Nat) : Option Bytes :=
  let iterations := usedIterations iterations
  match random with
  | none => none
  | some salt =>
    let dk := pbkdf2HmacSha256 (svFromCstr password) salt.toList iterations 32
    let record := recordText salt.toList iterations dk
    if outSize < record.length + 1 then none else some (record ++ [0])

/-- Null pointers are refused. -/
def cwebPasswordVerify (password encoded : Option Bytes) : Bool :=
  match password, encoded with
  | some password, some encoded =>
    match parseRecord (svFromCstr encoded) with
    | none => false
    | some (itersSv, saltSv, hashSv) =>
      match svToI64 itersSv with
      | none => false
      | some iterations =>
        if iterations < 1 ∨ 100000000 < iterations then false
        else
          match base64DecodeInto saltSv, base64DecodeInto hashSv with
          | some salt, some hash =>
            if salt.length = 0 ∨ hash.length ≠ 32 then false
            else secureByteEqual
              (pbkdf2HmacSha256 (svFromCstr password) salt (UInt32.ofNat iterations.toNat) 32) hash
          | _, _ => false
  | _, _ => false

end Cweb.Password
