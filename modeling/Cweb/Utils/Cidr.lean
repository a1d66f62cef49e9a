import Cweb.Lib.BigEndian
import Cweb.Utils.Ip
import Mathlib.Data.List.GetD

/-!
# Addresses in a network

A network holds an address of its family whose first bits are its own. What is
an address is decided by `inet_pton` on the whole view. The function reads less
than that of a view with a NUL byte in it, and takes an address with a dot in it
for one of IPv4.
-/

namespace Cweb.Ip

open Sv BigEndian

/-! ## Networks and addresses -/

/-- What is documented of `inet_pton`: four numbers of three digits with dots
between them, or up to eight groups of four hexadecimal digits with colons between
them and possibly four such numbers at their end. -/
structure InetPton.Documented (net : InetPton) : Prop where
  v4_octets : ∀ {s a}, net.v4 s = some a → a.length = 4
  v4_dot : ∀ {s a}, net.v4 s = some a → 46 ∈ s
  v4_colon : ∀ {s a}, net.v4 s = some a → 58 ∉ s
  v4_length : ∀ {s a}, net.v4 s = some a → s.length ≤ 15
  v6_octets : ∀ {s a}, net.v6 s = some a → a.length = 16
  v6_colon : ∀ {s a}, net.v6 s = some a → 58 ∈ s
  v6_length : ∀ {s a}, net.v6 s = some a → s.length ≤ 45

structure Network extends HttpCidr where
  length_addr : addr.length = 16
  prefix_le : prefixBits ≤ if v6 then 128 else 32

def familyBase (v6 : Bool) : Nat := if v6 then 0 else 12

def Network.octets (c : Network) : Bytes := c.addr.drop (familyBase c.v6)

/-- A view that is the text of an address as a whole. -/
def TextAddress (net : InetPton) (ip : Bytes) (v6 : Bool) (a : Bytes) : Prop :=
  0 ∉ ip ∧ (if v6 then net.v6 ip else net.v4 ip) = some a

def Network.Holds (c : Network) (v6 : Bool) (a : Bytes) : Prop :=
  v6 = c.v6 ∧ top c.prefixBits a = top c.prefixBits c.octets

/-! ## The comparison with its reads -/

def sameBytes (a b : Bytes) : Nat → Nat → Option Bool
  | 0, _ => some true
  | count + 1, i => a[i]?.bind fun x => b[i]?.bind fun y => if x ≠ y then some false
    else sameBytes a b count (i + 1)

/-- The comparison, with no result when it reads behind an image. -/
def sameBitsChecked (base : Nat) (a : Bytes) (c : HttpCidr) : Option Bool :=
  let full := c.prefixBits / 8
  let rem := c.prefixBits % 8
  (sameBytes a c.addr full base).bind fun same =>
    if same = false then some false
    else if rem ≠ 0 then
      a[base + full]?.bind fun x => c.addr[base + full]?.map fun y =>
        x &&& prefixMask rem == y &&& prefixMask rem
    else some true

def httpCidrContainsChecked (net : InetPton) (c : HttpCidr) (ip : Bytes) : Option Int :=
  match parseIp net ip with
  | none => some (-1)
  | some (a, v6) =>
    if v6 ≠ c.v6 then some 0
    else (sameBitsChecked (if v6 then 0 else 12) a c).map fun same => if same then 1 else 0

theorem sameBytes_eq (a b : Bytes) (count : Nat) : ∀ i, i + count ≤ a.length → i + count ≤ b.length →
    sameBytes a b count i = some (decide ((a.drop i).take count = (b.drop i).take count)) := by
  induction count with
  | zero =>
    intro i _ _
    simp [sameBytes]
  | succ count ih =>
    intro i ha hb
    have hiA : i < a.length := by omega
    have hiB : i < b.length := by omega
    rw [sameBytes, List.getElem?_eq_getElem hiA, List.getElem?_eq_getElem hiB, Option.bind_some,
      Option.bind_some,
      List.drop_eq_getElem_cons hiA, List.drop_eq_getElem_cons hiB, List.take_succ_cons, List.take_succ_cons]
    split
    · next hNe => simp [hNe]
    · next hEq =>
      rw [ih (i + 1) (by omega) (by omega)]
      simp [not_not.mp hEq]

theorem all_sameBytes (a b : Bytes) (base count : Nat) (ha : base + count ≤ a.length)
    (hb : base + count ≤ b.length) :
    ((List.range count).all fun i => a.getD (base + i) 0 == b.getD (base + i) 0) =
      decide ((a.drop base).take count = (b.drop base).take count) := by
  rw [Bool.eq_iff_iff, List.all_eq_true, decide_eq_true_eq]
  constructor
  · intro hAll
    apply List.ext_getElem
    · simp only [List.length_take, List.length_drop]
      omega
    · intro i hi hi'
      simp only [List.length_take, List.length_drop] at hi
      have hSame := hAll i (List.mem_range.mpr (by omega))
      rw [List.getD_eq_getElem _ _ (by omega), List.getD_eq_getElem _ _ (by omega), beq_iff_eq] at hSame
      rw [List.getElem_take, List.getElem_take, List.getElem_drop, List.getElem_drop, hSame]
  · intro hTake i hi
    have hAt := congrArg (·[i]?) hTake
    simp only [List.getElem?_take, List.mem_range.mp hi, if_true, List.getElem?_drop] at hAt
    rw [List.getD_eq_getElem?_getD, List.getD_eq_getElem?_getD, hAt, beq_iff_eq]

theorem and_prefixMask (b : UInt8) {rem : Nat} (hRem : rem < 8) :
    (b &&& prefixMask rem).toNat = b.toNat / 2 ^ (8 - rem) * 2 ^ (8 - rem) := by
  have hAll : ∀ rem : Fin 8, ∀ n : Fin 256, (UInt8.ofNat n &&& prefixMask rem).toNat = n / 2 ^
    (8 - rem.val) * 2 ^ (8 - rem.val) := by
    decide +kernel
  have hByte := hAll ⟨rem, hRem⟩ ⟨b.toNat, b.toNat_lt⟩
  rw [UInt8.ofNat_toNat] at hByte
  exact hByte

theorem and_prefixMask_inj (b b' : UInt8) {rem : Nat} (hRem : rem < 8) :
    b &&& prefixMask rem = b' &&& prefixMask rem ↔ b.toNat / 2 ^ (8 - rem) = b'.toNat / 2 ^ (8 - rem) := by
  rw [← UInt8.toNat_inj, and_prefixMask b hRem, and_prefixMask b' hRem]
  exact Nat.mul_left_inj (Nat.pos_iff_ne_zero.mp (Nat.pow_pos (by decide)))

section Images

variable {base : Nat} {a : Bytes} {c : HttpCidr}

theorem sameBitsChecked_eq (ha : a.length = 16) (hc : c.addr.length = 16)
    (hRoom : 8 * base + c.prefixBits ≤ 128) :
    sameBitsChecked base a c = some (sameBits base a c) := by
  have hFull : base + c.prefixBits / 8 ≤ 16 := by omega
  rw [sameBitsChecked, sameBits, sameBytes_eq a c.addr _ base (ha.symm ▸ hFull) (hc.symm ▸ hFull),
    all_sameBytes a c.addr base _ (ha.symm ▸ hFull) (hc.symm ▸ hFull),
    Option.bind_some]
  by_cases hSame : (a.drop base).take (c.prefixBits / 8) = (c.addr.drop base).take (c.prefixBits / 8)
  · rw [decide_eq_true hSame, Bool.true_and, if_neg (Bool.noConfusion)]
    split
    · next hRem =>
      have hIn : base + c.prefixBits / 8 < 16 := by omega
      have hZero : (c.prefixBits % 8 == 0) = false := beq_eq_false_iff_ne.mpr hRem
      rw [hZero, Bool.false_or, List.getElem?_eq_getElem (ha.symm ▸ hIn),
        List.getElem?_eq_getElem (hc.symm ▸ hIn),
        List.getD_eq_getElem _ _ (ha.symm ▸ hIn), List.getD_eq_getElem _ _ (hc.symm ▸ hIn)]
      rfl
    · next hRem =>
      have hZero : (c.prefixBits % 8 == 0) = true := beq_iff_eq.mpr (not_not.mp hRem)
      rw [hZero, Bool.true_or]
  · rw [decide_eq_false hSame, if_pos rfl, Bool.false_and]

theorem sameBits_iff (ha : a.length = 16) (hc : c.addr.length = 16) (hRoom : 8 * base + c.prefixBits ≤ 128) :
    sameBits base a c = true ↔ top c.prefixBits (a.drop base) = top c.prefixBits (c.addr.drop base) := by
  have hFull : base + c.prefixBits / 8 ≤ 16 := by omega
  have hBits : c.prefixBits = 8 * (c.prefixBits / 8) + c.prefixBits % 8 := (Nat.div_add_mod _ _).symm
  have hLengthA : (a.drop base).length = 16 - base := by rw [List.length_drop, ha]
  have hLengthC : (c.addr.drop base).length = 16 - base := by rw [List.length_drop, hc]
  rw [sameBits, all_sameBytes a c.addr base _ (ha.symm ▸ hFull) (hc.symm ▸ hFull), Bool.and_eq_true,
    decide_eq_true_eq, Bool.or_eq_true, beq_iff_eq]
  by_cases hRem : c.prefixBits % 8 = 0
  · have hWhole : c.prefixBits = 8 * (c.prefixBits / 8) := by omega
    rw [hWhole, Nat.mul_div_cancel_left _ (by decide), top_whole, top_whole]
    constructor
    · rintro ⟨hTake, _⟩
      rw [hTake]
    · intro hValue
      refine ⟨value_injective ?_ hValue, .inl (Nat.mul_mod_right _ _)⟩
      rw [List.length_take, List.length_take, hLengthA, hLengthC]
  · have hIn : base + c.prefixBits / 8 < 16 := by omega
    have hByteA : c.prefixBits / 8 < (a.drop base).length := by omega
    have hByteC : c.prefixBits / 8 < (c.addr.drop base).length := by omega
    have hTop :=
      @top_eq_iff (c.prefixBits / 8) (c.prefixBits % 8) _ _ hByteA hByteC (Nat.mod_lt _ (by decide)).le
    rw [← hBits] at hTop
    rw [hTop, List.getElem_drop, List.getElem_drop, List.getD_eq_getElem _ _ (ha.symm ▸ hIn),
      List.getD_eq_getElem _ _ (hc.symm ▸ hIn),
      beq_iff_eq, and_prefixMask_inj _ _ (Nat.mod_lt _ (by decide)), or_iff_right hRem]

end Images

namespace Network

theorem room (c : Network) : 8 * familyBase c.v6 + c.prefixBits ≤ 128 := by
  have hPrefix := c.prefix_le
  rw [familyBase]
  split at hPrefix
  · next hSix =>
    rw [if_pos hSix]
    omega
  · next hFour =>
    rw [if_neg hFour]
    omega

end Network

/-! ## Membership -/

/-- What the function promises of a network and a view. -/
structure Membership (net : InetPton) (c : Network) (ip : Bytes) : Prop where
  inside : httpCidrContains net c.toHttpCidr ip = 1 ↔ ∃ v6 a, TextAddress net ip v6 a ∧ c.Holds v6 a
  outside : httpCidrContains net c.toHttpCidr ip = 0 ↔ ∃ v6 a, TextAddress net ip v6 a ∧ ¬ c.Holds v6 a
  unreadable : httpCidrContains net c.toHttpCidr ip = -1 ↔ ¬ ∃ v6 a, TextAddress net ip v6 a
  reads : httpCidrContainsChecked net c.toHttpCidr ip = some (httpCidrContains net c.toHttpCidr ip)

/-- A text that the function takes for an address: one of IPv6 with no dot in it,
or one of IPv4. -/
def Taken (net : InetPton) (s : Bytes) : Prop := net.v4 s ≠ none ∨ 46 ∉ s ∧ net.v6 s ≠ none

/-- An IPv6 address that ends in dotted numbers. -/
def Dotted (net : InetPton) (s : Bytes) : Prop := 46 ∈ s ∧ net.v6 s ≠ none

/-- The view does not go on behind an address and a NUL byte, and is no dotted
IPv6 address. -/
def ReadWhole (net : InetPton) (ip : Bytes) : Prop :=
  ¬ (0 ∈ ip ∧ ip.length ≤ 45 ∧ Taken net (svFromCstr ip)) ∧ ¬ (0 ∉ ip ∧ Dotted net ip)

section Documented

variable {net : InetPton} {c : Network} {ip : Bytes} {v6 v6' : Bool} {a a' : Bytes}

theorem parseIp_eq_some {img : Bytes} (h : parseIp net ip = some (img, v6)) :
    ip.length ≤ 45 ∧ ∃ a, img = List.replicate (familyBase v6) 0 ++ a ∧
      if v6 then 46 ∉ svFromCstr ip ∧ net.v6 (svFromCstr ip) = some a
        else net.v4 (svFromCstr ip) = some a := by
  rw [parseIp] at h
  split at h
  · cases h
  · next hShort =>
    refine ⟨Nat.le_of_not_lt hShort, ?_⟩
    dsimp only at h
    split at h
    · obtain ⟨a, hFour, hEq⟩ := Option.map_eq_some_iff.mp h
      obtain ⟨rfl, rfl⟩ := Prod.mk.inj hEq
      exact ⟨a, rfl, hFour⟩
    · next hDot =>
      obtain ⟨a, hSix, hEq⟩ := Option.map_eq_some_iff.mp h
      obtain ⟨rfl, rfl⟩ := Prod.mk.inj hEq
      exact ⟨a, rfl, hDot, hSix⟩

theorem Taken.parseIp_ne_none (h : Taken net (svFromCstr ip)) (hNet : net.Documented)
    (hShort : ip.length ≤ 45) : parseIp net ip ≠ none := by
  rw [parseIp, if_neg (Nat.not_lt.mpr hShort)]
  dsimp only
  split
  · next hDot =>
    rw [Ne, Option.map_eq_none_iff]
    exact h.resolve_right fun hSix => hSix.1 hDot
  · next hDot =>
    rw [Ne, Option.map_eq_none_iff]
    rcases h with hFour | hSix
    · obtain ⟨a, hSome⟩ := Option.ne_none_iff_exists'.mp hFour
      exact absurd (hNet.v4_dot hSome) hDot
    · exact hSix.2

theorem length_image (hNet : net.Documented) {img : Bytes} (h : parseIp net ip = some (img, v6)) :
    img.length = 16 := by
  obtain ⟨_, a, rfl, hText⟩ := parseIp_eq_some h
  rw [List.length_append, List.length_replicate]
  cases v6 with
  | false => rw [hNet.v4_octets hText, familyBase, if_neg Bool.noConfusion]
  | true => rw [hNet.v6_octets hText.2, familyBase, if_pos rfl]

theorem contains_checked (hNet : net.Documented) (c : Network) (ip : Bytes) :
    httpCidrContainsChecked net c.toHttpCidr ip = some (httpCidrContains net c.toHttpCidr ip) := by
  rw [httpCidrContainsChecked, httpCidrContains]
  cases hParse : parseIp net ip with
  | none => rfl
  | some read =>
    obtain ⟨img, v6⟩ := read
    dsimp only
    by_cases hFamily : v6 = c.v6
    · subst hFamily
      have hReads := sameBitsChecked_eq (length_image hNet hParse) c.length_addr c.room
      rw [familyBase] at hReads
      rw [if_neg (not_not.mpr rfl), hReads, Option.map_some]
      simp only [true_and]
    · rw [if_pos hFamily, if_neg fun h => hFamily h.1]

theorem TextAddress.unique (h : TextAddress net ip v6 a) (h' : TextAddress net ip v6' a')
    (hNet : net.Documented) : v6 = v6' ∧ a = a' := by
  have hText := h.2
  have hText' := h'.2
  cases v6 with
  | false =>
    cases v6' with
    | false => exact ⟨rfl, Option.some.inj (hText.symm.trans hText')⟩
    | true => exact absurd (hNet.v6_colon hText') (hNet.v4_colon hText)
  | true =>
    cases v6' with
    | false => exact absurd (hNet.v6_colon hText) (hNet.v4_colon hText')
    | true => exact ⟨rfl, Option.some.inj (hText.symm.trans hText')⟩

theorem TextAddress.parseIp (h : TextAddress net ip v6 a) (hNet : net.Documented)
    (hDotted : ¬ Dotted net ip) :
    parseIp net ip = some (List.replicate (familyBase v6) 0 ++ a, v6) := by
  obtain ⟨hNul, hText⟩ := h
  rw [Ip.parseIp, svFromCstr_of_not_mem hNul]
  dsimp only
  cases v6 with
  | false =>
    have hFour : net.v4 ip = some a := hText
    have hShort := hNet.v4_length hFour
    rw [if_neg (by omega), if_pos (hNet.v4_dot hFour), hFour]
    rfl
  | true =>
    have hSix : net.v6 ip = some a := hText
    have hNone : 46 ∉ ip := fun hDot => hDotted ⟨hDot, by rw [hSix]; exact Option.some_ne_none a⟩
    rw [if_neg (Nat.not_lt.mpr (hNet.v6_length hSix)), if_neg hNone, hSix]
    rfl

theorem TextAddress.holds_iff (h : TextAddress net ip v6 a) (hNet : net.Documented)
    (hDotted : ¬ Dotted net ip) (c : Network) :
    (v6 = c.v6 ∧ sameBits (familyBase v6) (List.replicate (familyBase v6) 0 ++ a) c.toHttpCidr = true) ↔
      c.Holds v6 a := by
  have hLength := length_image hNet (h.parseIp hNet hDotted)
  constructor
  · rintro ⟨rfl, hSame⟩
    rw [sameBits_iff hLength c.length_addr c.room, List.drop_left' List.length_replicate] at hSame
    exact ⟨rfl, hSame⟩
  · rintro ⟨rfl, hTop⟩
    refine ⟨rfl, ?_⟩
    rw [sameBits_iff hLength c.length_addr c.room, List.drop_left' List.length_replicate]
    exact hTop

theorem TextAddress.contains (h : TextAddress net ip v6 a) (hNet : net.Documented)
    (hDotted : ¬ Dotted net ip) (c : Network) :
    c.Holds v6 a ∧ httpCidrContains net c.toHttpCidr ip = 1 ∨ ¬ c.Holds v6 a ∧
      httpCidrContains net c.toHttpCidr ip = 0 := by
  have hIff := h.holds_iff hNet hDotted c
  rw [familyBase] at hIff
  rw [httpCidrContains, h.parseIp hNet hDotted]
  dsimp only
  rw [familyBase]
  by_cases hHolds : c.Holds v6 a
  · exact .inl ⟨hHolds, if_pos (hIff.mpr hHolds)⟩
  · exact .inr ⟨hHolds, if_neg fun hBoth => hHolds (hIff.mp hBoth)⟩

/-- What is no address is taken for none, unless something else is read. -/
theorem parseIp_eq_none (hRead : ReadWhole net ip) (hNone : ¬ ∃ v6 a, TextAddress net ip v6 a) :
    parseIp net ip = none := by
  by_contra hSome
  obtain ⟨⟨img, v6⟩, hParse⟩ := Option.ne_none_iff_exists'.mp hSome
  obtain ⟨hShort, a, _, hText⟩ := parseIp_eq_some hParse
  by_cases hNul : 0 ∈ ip
  · refine hRead.1 ⟨hNul, hShort, ?_⟩
    cases v6 with
    | false => exact .inl (ne_of_eq_of_ne hText (Option.some_ne_none a))
    | true => exact .inr ⟨hText.1, ne_of_eq_of_ne hText.2 (Option.some_ne_none a)⟩
  · rw [svFromCstr_of_not_mem hNul] at hText
    refine hNone ⟨v6, a, hNul, ?_⟩
    cases v6 with
    | false => exact hText
    | true => exact hText.2

theorem Dotted.contains (h : Dotted net ip) (hNet : net.Documented) (hNul : 0 ∉ ip) (c : HttpCidr) :
    httpCidrContains net c ip = -1 := by
  refine httpCidrContains_of_none ?_ c
  obtain ⟨b, hSix⟩ := Option.ne_none_iff_exists'.mp h.2
  have hNone : net.v4 ip = none := by
    rw [Option.eq_none_iff_forall_ne_some]
    intro a hFour
    exact hNet.v4_colon hFour (hNet.v6_colon hSix)
  rw [parseIp, svFromCstr_of_not_mem hNul]
  dsimp only
  rw [if_pos h.1, hNone]
  split <;> rfl

/-- The function keeps its promise on the views that it reads whole, and on no
others. -/
theorem membership_iff (hNet : net.Documented) (c : Network) (ip : Bytes) : Membership net c ip ↔
    ReadWhole net ip := by
  constructor
  · intro hKeeps
    constructor
    · rintro ⟨hNul, hShort, hTaken⟩
      have hNone : ¬ ∃ v6 a, TextAddress net ip v6 a := fun ⟨_, _, hText⟩ => hText.1 hNul
      have hRead := httpCidrContains_of_some (hTaken.parseIp_ne_none hNet hShort) c.toHttpCidr
      have hMinus := hKeeps.unreadable.mpr hNone
      omega
    · rintro ⟨hNul, hDotted⟩
      obtain ⟨a, hSix⟩ := Option.ne_none_iff_exists'.mp hDotted.2
      exact hKeeps.unreadable.mp (hDotted.contains hNet hNul c.toHttpCidr) ⟨true, a, hNul, hSix⟩
  · intro hRead
    by_cases hText : ∃ v6 a, TextAddress net ip v6 a
    · obtain ⟨v6, a, hText⟩ := hText
      have hUnique : ∀ {v6' a'}, TextAddress net ip v6' a' → (c.Holds v6' a' ↔ c.Holds v6 a) := by
        intro v6' a' hText'
        obtain ⟨rfl, rfl⟩ := hText'.unique hText hNet
        exact Iff.rfl
      refine ⟨?_, ?_, ?_, contains_checked hNet c ip⟩
      all_goals
        rcases hText.contains hNet (fun hDotted => hRead.2 ⟨hText.1, hDotted⟩) c with
          ⟨hHolds, hResult⟩ | ⟨hHolds, hResult⟩
      all_goals rw [hResult]
      · exact ⟨fun _ => ⟨v6, a, hText, hHolds⟩, fun _ => rfl⟩
      · exact ⟨fun h => absurd h (by decide), fun ⟨v6', a', hText', hHolds'⟩ =>
          absurd ((hUnique hText').mp hHolds') hHolds⟩
      · exact ⟨fun h => absurd h (by decide), fun ⟨v6', a', hText', hNot⟩ =>
          absurd ((hUnique hText').mpr hHolds) hNot⟩
      · exact ⟨fun _ => ⟨v6, a, hText, hHolds⟩, fun _ => rfl⟩
      · exact ⟨fun h => absurd h (by decide), fun hNone => absurd ⟨v6, a, hText⟩ hNone⟩
      · exact ⟨fun h => absurd h (by decide), fun hNone => absurd ⟨v6, a, hText⟩ hNone⟩
    · have hResult := httpCidrContains_of_none (parseIp_eq_none hRead hText) c.toHttpCidr
      refine ⟨?_, ?_, ?_, contains_checked hNet c ip⟩
      all_goals rw [hResult]
      · exact ⟨fun h => absurd h (by decide), fun ⟨v6, a, h, _⟩ => absurd ⟨v6, a, h⟩ hText⟩
      · exact ⟨fun h => absurd h (by decide), fun ⟨v6, a, h, _⟩ => absurd ⟨v6, a, h⟩ hText⟩
      · exact ⟨fun _ => hText, fun _ => rfl⟩

end Documented

/-- Two addresses as `inet_pton` reads them. -/
def sampleNet : InetPton where
  v4 s := if s = ascii "1.2.3.4" then some [1, 2, 3, 4] else none
  v6 s := if s = ascii "::ffff:1.2.3.4" then some (List.replicate 10 0 ++ [255, 255, 1, 2, 3, 4]) else none

theorem sampleNet_documented : sampleNet.Documented := by
  constructor
  all_goals
    intro s a h
    obtain ⟨rfl, hSome⟩ := Option.ite_none_right_eq_some.mp h
  · exact Option.some.inj hSome ▸ rfl
  · decide
  · decide
  · decide
  · exact Option.some.inj hSome ▸ rfl
  · decide
  · decide

/-- The network 1.2.3.0/24. -/
def sampleSubnet : Network := ⟨⟨List.replicate 12 0 ++ [1, 2, 3, 0], 24, false⟩, rfl, by decide⟩

/-- The network of all IPv6 addresses. -/
def everySix : Network := ⟨⟨List.replicate 16 0, 0, true⟩, rfl, by decide⟩

theorem membership_subnet : Membership sampleNet sampleSubnet (ascii "1.2.3.4") := by
  refine (membership_iff sampleNet_documented sampleSubnet _).mpr ⟨fun h => ?_, fun h => ?_⟩
  · exact absurd h.1 (by decide)
  · exact h.2.2 (by decide)

theorem dotted_or_cut : sampleNet.Documented ∧ ¬ Membership sampleNet everySix (ascii "::ffff:1.2.3.4") ∧
    ¬ Membership sampleNet sampleSubnet (ascii "1.2.3.4" ++ 0 :: ascii "x") := by
  refine ⟨sampleNet_documented, fun h => ?_, fun h => ?_⟩
  · exact h.unreadable.mp (by decide) ⟨true, _, by decide, rfl⟩
  · obtain ⟨_, _, hText, _⟩ := h.inside.mp (by decide)
    exact hText.1 (by decide)

end Cweb.Ip
