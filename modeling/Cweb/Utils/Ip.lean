import Cweb.Utils.Sv

/-!
# Addresses and networks

An address is read by `inet_pton`, which is not part of the program and stands
here for itself. It is handed a C string, so a view with a NUL byte in it is
read only up to that byte.
-/

namespace Cweb.Ip

open Sv

/-- The four bytes of an IPv4 address, the sixteen of an IPv6 address. -/
structure InetPton where
  v4 : Bytes → Option Bytes
  v6 : Bytes → Option Bytes

structure HttpCidr where
  addr : Bytes
  prefixBits : Nat
  v6 : Bool
deriving DecidableEq, Repr

/-- The address in a sixteen-byte image, and whether it is an IPv6 address. -/
def parseIp (net : InetPton) (ip : Bytes) : Option (Bytes × Bool) :=
  if 45 < ip.length then none
  else
    let buf := svFromCstr ip
    if 46 ∈ buf then (net.v4 buf).map fun a => (List.replicate 12 0 ++ a, false)
    else (net.v6 buf).map fun a => (a, true)

def prefixMask (rem : Nat) : UInt8 := UInt8.ofNat (255 * 2 ^ (8 - rem))

/-- The comparison of `http_cidr_contains`, from byte `base` of the images on. -/
def sameBits (base : Nat) (a : Bytes) (c : HttpCidr) : Bool :=
  let full := c.prefixBits / 8
  let rem := c.prefixBits % 8
  ((List.range full).all fun i => a.getD (base + i) 0 == c.addr.getD (base + i) 0) &&
    (rem == 0 ||
      a.getD (base + full) 0 &&& prefixMask rem == c.addr.getD (base + full) 0 &&& prefixMask rem)

def httpCidrContains (net : InetPton) (c : HttpCidr) (ip : Bytes) : Int :=
  match parseIp net ip with
  | none => -1
  | some (a, v6) => if v6 = c.v6 ∧ sameBits (if v6 then 0 else 12) a c then 1 else 0

theorem httpCidrContains_of_none {net : InetPton} {ip : Bytes} (h : parseIp net ip = none) (c : HttpCidr) :
    httpCidrContains net c ip = -1 := by
  rw [httpCidrContains, h]

theorem httpCidrContains_of_some {net : InetPton} {ip : Bytes} (h : parseIp net ip ≠ none) (c : HttpCidr) :
    httpCidrContains net c ip = 0 ∨ httpCidrContains net c ip = 1 := by
  obtain ⟨⟨a, v6⟩, hSome⟩ := Option.ne_none_iff_exists'.mp h
  rw [httpCidrContains, hSome]
  dsimp only
  by_cases hHolds : v6 = c.v6 ∧ sameBits (if v6 then 0 else 12) a c
  · rw [if_pos hHolds]
    exact .inr rfl
  · rw [if_neg hHolds]
    exact .inl rfl

end Cweb.Ip
