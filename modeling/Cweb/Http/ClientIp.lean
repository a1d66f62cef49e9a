import Cweb.Utils.Cidr

/-!
# The client behind trusted proxies

The `X-Forwarded-For` value is split from the left into an array of 32 hops,
blank ones left out, and the array is scanned from the right for an address
that belongs to no trusted network. Hops behind the 32nd never get into the
array. A hop is a view into the header, so it carries its offset.
-/

namespace Cweb.ClientIp

open Sv Ip

structure Hop where
  start : Nat
  text : Bytes
deriving DecidableEq, Repr

/-- Where the resolved view points. -/
inductive Resolved where
  | peer
  | hop (h : Hop)
deriving DecidableEq, Repr

def isBlank (b : UInt8) : Bool := b == 32 || b == 9

def trimHop (h : Hop) : Hop :=
  let text := h.text.dropWhile isBlank
  ⟨h.start + (h.text.length - text.length), text.rdropWhile isBlank⟩

def hopLimit : Nat := 32

def splitHops (xff : Bytes) : Nat → Nat → List Hop → List Hop
  | 0, _, hops => hops
  | fuel + 1, i, hops =>
    if i ≤ xff.length ∧ hops.length < hopLimit then
      let e := (xff.drop i).takeWhile (· ≠ 44)
      let h := trimHop ⟨i, e⟩
      splitHops xff fuel (i + e.length + 1) (if h.text = [] then hops else hops ++ [h])
    else hops

/-- Whether the hop is an address, and whether a trusted network holds it. -/
def hopVerdict (net : InetPton) (hop : Bytes) : List HttpCidr → Bool × Bool
  | [] => (false, false)
  | c :: rest =>
    let r := httpCidrContains net c hop
    if r = 1 then (true, true)
    else
      let verdict := hopVerdict net hop rest
      (r == 0 || verdict.1, verdict.2)

/-- The scan, over the hops from the right. -/
def scanHops (net : InetPton) (trusted : List HttpCidr) : List Hop → Option Hop
  | [] => none
  | hop :: left =>
    match hopVerdict net hop.text trusted with
    | (false, _) => scanHops net trusted left
    | (true, true) => scanHops net trusted left
    | (true, false) => some hop

def peerTrusted (net : InetPton) (trusted : List HttpCidr) (peer : Bytes) : Bool :=
  trusted.any fun c => httpCidrContains net c peer == 1

def httpClientIpResolve (net : InetPton) (trusted : List HttpCidr) (peer xff : Bytes) : Resolved :=
  if trusted = [] ∨ xff = [] then .peer
  else if peerTrusted net trusted peer then
    match scanHops net trusted (splitHops xff (xff.length + 1) 0 []).reverse with
    | some hop => .hop hop
    | none => .peer
  else .peer

/-! ## The hops of the whole header -/

/-- The pieces between the commas, with their offsets. -/
def elements : Nat → Bytes → List Hop
  | start, [] => [⟨start, []⟩]
  | start, b :: rest =>
    if b = 44 then ⟨start, []⟩ :: elements (start + 1) rest
    else
      match elements (start + 1) rest with
      | [] => [⟨start, [b]⟩]
      | first :: more => ⟨start, b :: first.text⟩ :: more

def kept (pieces : List Hop) : List Hop := (pieces.map trimHop).filter fun h => !h.text.isEmpty

def hopsOf (xff : Bytes) : List Hop := kept (elements 0 xff)

def Picked (net : InetPton) (trusted : List HttpCidr) (hop : Hop) : Prop :=
  parseIp net hop.text ≠ none ∧ ∀ c ∈ trusted, httpCidrContains net c hop.text ≠ 1

instance (net : InetPton) (trusted : List HttpCidr) (hop : Hop) : Decidable (Picked net trusted hop) :=
  inferInstanceAs (Decidable (_ ∧ _))

theorem elements_eq (start : Nat) (xs : Bytes) :
    elements start xs = ⟨start, xs.takeWhile (· ≠ 44)⟩ ::
      match xs.dropWhile (· ≠ 44) with
      | [] => []
      | _ :: rest => elements (start + (xs.takeWhile (· ≠ 44)).length + 1) rest := by
  induction xs generalizing start with
  | nil => rfl
  | cons b rest ih =>
    rw [elements]
    by_cases hComma : b = 44
    · subst hComma
      rfl
    · rw [if_neg hComma, ih]
      have hKeep : decide (b ≠ 44) = true := by simpa using hComma
      rw [List.takeWhile_cons_of_pos (p := fun x : UInt8 => decide (x ≠ 44)) hKeep,
        List.dropWhile_cons_of_pos (p := fun x : UInt8 => decide (x ≠ 44)) hKeep]
      dsimp only
      congr 1
      rw [List.length_cons, show start + 1 + (rest.takeWhile (· ≠ 44)).length + 1 =
        start + ((rest.takeWhile (· ≠ 44)).length + 1) + 1 by omega]

theorem kept_cons (h : Hop) (pieces : List Hop) :
    kept (h :: pieces) = if (trimHop h).text = [] then kept pieces else trimHop h :: kept pieces := by
  rw [kept, List.map_cons, List.filter_cons]
  by_cases hNil : (trimHop h).text = []
  · rw [if_pos hNil, if_neg (by simp [hNil])]
    rfl
  · rw [if_neg hNil, if_pos (by simpa using hNil)]
    rfl

theorem kept_nil : kept [] = [] := rfl

theorem takeWhile_dropWhile_cons {xs rest : Bytes} {b : UInt8} (h : xs.dropWhile (· ≠ 44) = b :: rest) :
    b = 44 ∧ xs.drop ((xs.takeWhile (· ≠ 44)).length + 1) = rest := by
  constructor
  · have hHead := List.head?_dropWhile_not (fun x : UInt8 => decide (x ≠ 44)) xs
    rw [h] at hHead
    simpa using hHead
  · have hSplit := List.takeWhile_append_dropWhile (p := fun x : UInt8 => decide (x ≠ 44)) (l := xs)
    generalize xs.takeWhile (fun x : UInt8 => decide (x ≠ 44)) = e at hSplit ⊢
    rw [← hSplit, h, List.drop_append, List.drop_of_length_le (by omega), Nat.add_sub_cancel_left]
    rfl

/-- The hops from an offset on, none when it lies behind the header. -/
def hopsFrom (xff : Bytes) (i : Nat) : List Hop :=
  if i ≤ xff.length then kept (elements i (xff.drop i)) else []

theorem hopsFrom_eq {xff : Bytes} {i : Nat} (hIn : i ≤ xff.length) :
    let e := (xff.drop i).takeWhile (· ≠ 44)
    let h := trimHop ⟨i, e⟩
    hopsFrom xff i =
      if h.text = [] then hopsFrom xff (i + e.length + 1) else h :: hopsFrom xff (i + e.length + 1) := by
  have hRest : kept (match (xff.drop i).dropWhile (· ≠ 44) with
      | [] => []
      | _ :: rest => elements (i + ((xff.drop i).takeWhile (· ≠ 44)).length + 1) rest) =
      hopsFrom xff (i + ((xff.drop i).takeWhile (· ≠ 44)).length + 1) := by
    have hSplit := congrArg List.length
      (List.takeWhile_append_dropWhile (p := fun x : UInt8 => decide (x ≠ 44)) (l := xff.drop i))
    rw [List.length_append, List.length_drop] at hSplit
    rw [hopsFrom]
    cases hBehind : (xff.drop i).dropWhile (· ≠ 44) with
    | nil =>
      rw [hBehind, List.length_nil] at hSplit
      rw [if_neg (by omega)]
      rfl
    | cons b rest =>
      rw [hBehind, List.length_cons] at hSplit
      have hDrop := (takeWhile_dropWhile_cons hBehind).2
      rw [List.drop_drop] at hDrop
      rw [if_pos (by omega), Nat.add_assoc, hDrop]
  intro e h
  rw [hopsFrom, if_pos hIn, elements_eq, kept_cons, hRest]

theorem splitHops_eq (xff : Bytes) (fuel : Nat) :
    ∀ (i : Nat) (hops : List Hop), hops.length ≤ hopLimit → xff.length < i + fuel →
      splitHops xff fuel i hops = hops ++ (hopsFrom xff i).take (hopLimit - hops.length) := by
  induction fuel with
  | zero =>
    intro i hops _ hFuel
    rw [splitHops, hopsFrom, if_neg (by omega), List.take_nil, List.append_nil]
  | succ fuel ih =>
    intro i hops hRoom hFuel
    rw [splitHops]
    by_cases hIn : i ≤ xff.length
    · by_cases hFull : hops.length < hopLimit
      · rw [if_pos ⟨hIn, hFull⟩, hopsFrom_eq hIn]
        dsimp only
        split
        · exact ih _ hops hRoom (by omega)
        · have hLength : ∀ h : Hop, (hops ++ [h]).length = hops.length + 1 := fun h => by simp
          rw [ih _ _ (by rw [hLength]; omega) (by omega), hLength, List.append_assoc, List.singleton_append,
            ← List.take_succ_cons, show hopLimit - (hops.length + 1) + 1 = hopLimit - hops.length by omega]
      · have hZero : hopLimit - hops.length = 0 := by omega
        rw [if_neg (fun h => hFull h.2), hZero, List.take_zero, List.append_nil]
    · rw [if_neg (fun h => hIn h.1), hopsFrom, if_neg hIn, List.take_nil, List.append_nil]

theorem splitHops_hopsOf (xff : Bytes) :
    splitHops xff (xff.length + 1) 0 [] = (hopsOf xff).take hopLimit := by
  rw [splitHops_eq xff _ 0 [] (Nat.zero_le _) (by omega), hopsFrom, if_pos (Nat.zero_le _)]
  rfl

/-! ## Offsets -/

theorem elements_spec (start : Nat) (xs : Bytes) :
    ∃ first more, elements start xs = first :: more ∧ first.start = start ∧
      (∀ h ∈ more, start + first.text.length < h.start) ∧
      more.Pairwise fun a b => a.start + a.text.length < b.start := by
  induction xs generalizing start with
  | nil => exact ⟨_, _, rfl, rfl, nofun, .nil⟩
  | cons b rest ih =>
    obtain ⟨first, more, hEq, hStart, hBehind, hMore⟩ := ih (start + 1)
    rw [elements, hEq]
    split
    · refine ⟨_, _, rfl, rfl, ?_, List.pairwise_cons.mpr ⟨?_, hMore⟩⟩
      · intro h hh
        obtain rfl | hh := List.mem_cons.mp hh
        · rw [List.length_nil]
          omega
        · have hLater := hBehind h hh
          rw [List.length_nil]
          omega
      · intro h hh
        rw [hStart]
        exact hBehind h hh
    · refine ⟨_, _, rfl, rfl, ?_, hMore⟩
      intro h hh
      have hLater := hBehind h hh
      rw [List.length_cons]
      omega

theorem elements_pairwise (start : Nat) (xs : Bytes) :
    (elements start xs).Pairwise fun a b => a.start + a.text.length < b.start := by
  obtain ⟨first, more, hEq, hStart, hBehind, hMore⟩ := elements_spec start xs
  rw [hEq]
  refine List.pairwise_cons.mpr ⟨?_, hMore⟩
  intro h hh
  rw [hStart]
  exact hBehind h hh

theorem trimHop_start (h : Hop) :
    h.start ≤ (trimHop h).start ∧ (trimHop h).start ≤ h.start + h.text.length := by
  rw [trimHop]
  dsimp only
  omega

theorem hopsOf_nodup (xff : Bytes) : (hopsOf xff).Nodup := by
  have hStarts : ((elements 0 xff).map trimHop).Pairwise fun a b => a.start < b.start := by
    rw [List.pairwise_map]
    apply (elements_pairwise 0 xff).imp
    intro a b hab
    have ha := (trimHop_start a).2
    have hb := (trimHop_start b).1
    omega
  apply List.Pairwise.imp ?_ (hStarts.filter _)
  rintro a b hab rfl
  omega

def Hop.moved (d : Nat) (h : Hop) : Hop := ⟨h.start + d, h.text⟩

def Resolved.moved (d : Nat) : Resolved → Resolved
  | .peer => .peer
  | .hop h => .hop (h.moved d)

theorem elements_moved (start d : Nat) (xs : Bytes) :
    elements (start + d) xs = (elements start xs).map (Hop.moved d) := by
  induction xs generalizing start with
  | nil => rfl
  | cons b rest ih =>
    have hRest := ih (start + 1)
    rw [Nat.add_right_comm] at hRest
    rw [elements, elements, hRest]
    split
    · rfl
    · cases elements (start + 1) rest with
      | nil => rfl
      | cons first more => rfl

theorem elements_append (start : Nat) (front xs : Bytes) :
    elements start (front ++ 44 :: xs) = elements start front ++ elements (start + front.length + 1) xs := by
  induction front generalizing start with
  | nil => rfl
  | cons b front ih =>
    have hLength : start + 1 + front.length + 1 = start + (front.length + 1) + 1 := by omega
    obtain ⟨first, more, hEq, _⟩ := elements_spec (start + 1) front
    rw [List.cons_append, elements, elements, ih, hEq, List.length_cons, hLength]
    split
    · rfl
    · rfl

theorem trimHop_moved (d : Nat) (h : Hop) : trimHop (h.moved d) = (trimHop h).moved d := by
  simp only [trimHop, Hop.moved]
  congr 1
  omega

theorem kept_moved (d : Nat) (pieces : List Hop) :
    kept (pieces.map (Hop.moved d)) = (kept pieces).map (Hop.moved d) := by
  induction pieces with
  | nil => rfl
  | cons h pieces ih =>
    rw [List.map_cons, kept_cons, kept_cons, trimHop_moved, ih]
    by_cases hNil : (trimHop h).text = []
    · rw [if_pos hNil, if_pos (show ((trimHop h).moved d).text = [] from hNil)]
    · rw [if_neg hNil, if_neg (show ((trimHop h).moved d).text ≠ [] from hNil), List.map_cons]

theorem hopsOf_append (front xff : Bytes) :
    hopsOf (front ++ 44 :: xff) = hopsOf front ++ (hopsOf xff).map (Hop.moved (front.length + 1)) := by
  have hMoved := elements_moved 0 (front.length + 1) xff
  rw [← Nat.add_assoc] at hMoved
  rw [hopsOf, elements_append, hMoved, kept, List.map_append, List.filter_append]
  exact congrArg (hopsOf front ++ ·) (kept_moved _ _)

/-! ## The scan -/

theorem hopVerdict_of_none {net : InetPton} {hop : Bytes} (h : parseIp net hop = none)
    (trusted : List HttpCidr) : hopVerdict net hop trusted = (false, false) := by
  induction trusted with
  | nil => rfl
  | cons c rest ih =>
    rw [hopVerdict, httpCidrContains_of_none h, ih]
    rfl

theorem hopVerdict_of_some {net : InetPton} {hop : Bytes} (h : parseIp net hop ≠ none)
    {trusted : List HttpCidr} (hTrusted : trusted ≠ []) :
    hopVerdict net hop trusted = (true, trusted.any fun c => httpCidrContains net c hop == 1) := by
  have hHeld : ∀ trusted : List HttpCidr,
      (hopVerdict net hop trusted).2 = trusted.any fun c => httpCidrContains net c hop == 1 := by
    intro trusted
    induction trusted with
    | nil => rfl
    | cons c rest ih =>
      rw [hopVerdict, List.any_cons]
      obtain hZero | hOne := httpCidrContains_of_some h c
      · rw [hZero]
        exact ih
      · rw [hOne]
        rfl
  apply Prod.ext
  · cases trusted with
    | nil => exact absurd rfl hTrusted
    | cons c rest =>
      rw [hopVerdict]
      obtain hZero | hOne := httpCidrContains_of_some h c
      · rw [hZero]
        rfl
      · rw [hOne]
        rfl
  · exact hHeld trusted

theorem scanHops_eq {net : InetPton} {trusted : List HttpCidr} (hTrusted : trusted ≠ []) (hops : List Hop) :
    scanHops net trusted hops = hops.find? fun h => decide (Picked net trusted h) := by
  induction hops with
  | nil => rfl
  | cons hop left ih =>
    rw [scanHops, List.find?_cons, ih]
    by_cases hParse : parseIp net hop.text = none
    · have hNot : ¬ Picked net trusted hop := fun hPicked => hPicked.1 hParse
      rw [hopVerdict_of_none hParse, decide_eq_false hNot]
    · rw [hopVerdict_of_some hParse hTrusted]
      cases hAny : trusted.any fun c => httpCidrContains net c hop.text == 1 with
      | true =>
        obtain ⟨c, hc, hHolds⟩ := List.any_eq_true.mp hAny
        have hNot : ¬ Picked net trusted hop := fun hPicked => hPicked.2 c hc (by simpa using hHolds)
        rw [decide_eq_false hNot]
      | false =>
        have hPicked : Picked net trusted hop := by
          refine ⟨hParse, ?_⟩
          intro c hc hHolds
          have hNo := List.any_eq_false.mp hAny c hc
          simp [hHolds] at hNo
        rw [decide_eq_true hPicked]

/-! ## The last hop of a kind -/

/-- The last of the hops that is of the kind. -/
def IsLast (p : Hop → Prop) (hops : List Hop) (hop : Hop) : Prop :=
  ∃ left right, hops = left ++ hop :: right ∧ p hop ∧ ∀ h ∈ right, ¬ p h

section Last

variable {p : Hop → Prop} {hops : List Hop} {hop hop' : Hop}

theorem isLast_iff_find? [DecidablePred p] :
    IsLast p hops hop ↔ hops.reverse.find? (fun h => decide (p h)) = some hop := by
  rw [List.find?_eq_some_iff_append]
  constructor
  · rintro ⟨left, right, hSplit, hIs, hRight⟩
    refine ⟨decide_eq_true hIs, right.reverse, left.reverse, ?_, ?_⟩
    · rw [hSplit, List.reverse_append, List.reverse_cons, List.append_assoc]
      rfl
    · intro h hh
      rw [decide_eq_false (hRight h (List.mem_reverse.mp hh))]
      rfl
  · rintro ⟨hIs, right, left, hSplit, hRight⟩
    refine ⟨left.reverse, right.reverse, ?_, of_decide_eq_true hIs, ?_⟩
    · rw [← List.reverse_inj, hSplit, List.reverse_append, List.reverse_cons, List.reverse_reverse,
        List.reverse_reverse, List.append_assoc]
      rfl
    · intro h hh
      simpa using hRight h (List.mem_reverse.mp hh)

theorem IsLast.unique (h : IsLast p hops hop) (h' : IsLast p hops hop') : hop = hop' := by
  classical
  rw [isLast_iff_find?] at h h'
  exact Option.some.inj (h.symm.trans h')

theorem exists_isLast (h : ∃ hop ∈ hops, p hop) : ∃ hop, IsLast p hops hop := by
  classical
  obtain ⟨hop, hIn, hIs⟩ := h
  cases hFind : hops.reverse.find? (fun h => decide (p h)) with
  | some r => exact ⟨r, isLast_iff_find?.mpr hFind⟩
  | none => exact absurd (decide_eq_true hIs) (List.find?_eq_none.mp hFind hop (List.mem_reverse.mpr hIn))

theorem IsLast.mem (h : IsLast p hops hop) : hop ∈ hops := by
  obtain ⟨left, right, rfl, _⟩ := h
  exact List.mem_append_right left List.mem_cons_self

theorem IsLast.is (h : IsLast p hops hop) : p hop := by
  obtain ⟨_, _, _, hIs, _⟩ := h
  exact hIs

theorem isLast_append_iff {more : List Hop} (hMore : ∀ h ∈ more, ¬ p h) : IsLast p (hops ++ more) hop ↔
    IsLast p hops hop := by
  classical
  have hNone : more.reverse.find? (fun h => decide (p h)) = none := by
    rw [List.find?_eq_none]
    intro h hh
    simpa using hMore h (List.mem_reverse.mp hh)
  rw [isLast_iff_find?, isLast_iff_find?, List.reverse_append, List.find?_append, hNone, Option.none_or]

theorem IsLast.behind {left right : List Hop} {h : Hop} (hLast : IsLast p hops hop)
    (hSplit : hops = left ++ h :: right)
    (hIs : p h) (hNe : h ≠ hop) : hop ∈ right := by
  obtain ⟨front, back, hEq, _, hBack⟩ := hLast
  rw [hEq] at hSplit
  rcases List.append_eq_append_iff.mp hSplit with ⟨middle, rfl, hRest⟩ | ⟨middle, rfl, hRest⟩
  · cases middle with
    | nil => exact absurd (List.cons.inj hRest).1.symm hNe
    | cons first middle =>
      have hIn : h ∈ back := by
        rw [(List.cons.inj hRest).2]
        exact List.mem_append_right middle List.mem_cons_self
      exact absurd hIs (hBack h hIn)
  · cases middle with
    | nil => exact absurd (List.cons.inj hRest).1 hNe
    | cons first middle =>
      rw [(List.cons.inj hRest).2]
      exact List.mem_append_right middle List.mem_cons_self

end Last

/-! ## Addresses outside the networks -/

/-- The text of an address that no trusted network holds. -/
def OutsideText (net : InetPton) (trusted : List Network) (text : Bytes) : Prop :=
  ∃ v6 a, TextAddress net text v6 a ∧ ∀ c ∈ trusted, ¬ c.Holds v6 a

def Outside (net : InetPton) (trusted : List Network) (hop : Hop) : Prop := OutsideText net trusted hop.text

/-- The last hop of the whole header that is an address outside. -/
def Rightmost (net : InetPton) (trusted : List Network) (xff : Bytes) : Hop → Prop :=
  IsLast (Outside net trusted) (hopsOf xff)

/-- The peer is an address of a trusted network. -/
def TrustedPeer (net : InetPton) (trusted : List Network) (peer : Bytes) : Prop :=
  ∃ v6 a, TextAddress net peer v6 a ∧ ∃ c ∈ trusted, c.Holds v6 a

/-- A hop that is an address outside only up to its first NUL byte. -/
structure CutOff (net : InetPton) (trusted : List Network) (hop : Hop) : Prop where
  nul : 0 ∈ hop.text
  short : hop.text.length ≤ 45
  outside : OutsideText net trusted (svFromCstr hop.text)
  plain : ¬ Dotted net (svFromCstr hop.text)

def cidrs (trusted : List Network) : List HttpCidr := trusted.map Network.toHttpCidr

section Documented

variable {net : InetPton} (hNet : net.Documented) {trusted : List Network}

include hNet

theorem parseIp_isSome_iff {text : Bytes} (hNul : 0 ∉ text) (hPlain : ¬ Dotted net text) :
    parseIp net text ≠ none ↔ ∃ v6 a, TextAddress net text v6 a := by
  constructor
  · intro hSome
    by_contra hNone
    exact hSome (parseIp_eq_none ⟨fun hCut => hNul hCut.1, fun hDotted => hPlain hDotted.2⟩ hNone)
  · rintro ⟨v6, a, hText⟩
    rw [hText.parseIp hNet hPlain]
    exact Option.some_ne_none _

theorem contains_eq_one_iff {text : Bytes} {v6 : Bool} {a : Bytes} (hText : TextAddress net text v6 a)
    (hPlain : ¬ Dotted net text)
    (c : Network) : httpCidrContains net c.toHttpCidr text = 1 ↔ c.Holds v6 a := by
  rcases hText.contains hNet hPlain c with ⟨hHolds, hResult⟩ | ⟨hNot, hResult⟩
  · exact ⟨fun _ => hHolds, fun _ => hResult⟩
  · exact ⟨fun hOne => absurd (hResult.symm.trans hOne) (by decide), fun hHolds => absurd hHolds hNot⟩

theorem picked_text_iff {text : Bytes} (hNul : 0 ∉ text) :
    (parseIp net text ≠ none ∧ ∀ c ∈ cidrs trusted, httpCidrContains net c text ≠ 1) ↔
      OutsideText net trusted text ∧ ¬ Dotted net text := by
  rw [cidrs, List.forall_mem_map]
  by_cases hDotted : Dotted net text
  · have hNone : parseIp net text = none := by
      by_contra hSome
      have hRead := httpCidrContains_of_some hSome ⟨[], 0, false⟩
      have hMinus := hDotted.contains hNet hNul ⟨[], 0, false⟩
      omega
    exact ⟨fun h => absurd hNone h.1, fun h => absurd hDotted h.2⟩
  · rw [parseIp_isSome_iff hNet hNul hDotted]
    constructor
    · rintro ⟨⟨v6, a, hText⟩, hNot⟩
      exact ⟨⟨v6, a, hText,
        fun c hc hHolds => hNot c hc ((contains_eq_one_iff hNet hText hDotted c).mpr hHolds)⟩, hDotted⟩
    · rintro ⟨⟨v6, a, hText, hNot⟩, _⟩
      exact ⟨⟨v6, a, hText⟩, fun c hc hOne => hNot c hc ((contains_eq_one_iff hNet hText hDotted c).mp hOne)⟩

/-- The scan stops at the addresses outside that are not dotted ones of IPv6, and
at hops that are such an address up to a NUL byte. -/
theorem picked_iff (hop : Hop) :
    Picked net (cidrs trusted) hop ↔ Outside net trusted hop ∧ ¬ Dotted net hop.text ∨
      CutOff net trusted hop := by
  by_cases hNul : 0 ∈ hop.text
  · have hOutside : ¬ Outside net trusted hop := fun ⟨_, _, hText, _⟩ => hText.1 hNul
    rw [or_iff_right fun h => hOutside h.1]
    by_cases hShort : hop.text.length ≤ 45
    · have hParse : parseIp net hop.text = parseIp net (svFromCstr hop.text) := by
        have hLength : (svFromCstr hop.text).length ≤ 45 := (List.takeWhile_prefix _).length_le.trans hShort
        rw [parseIp, parseIp, if_neg (Nat.not_lt.mpr hShort), if_neg (Nat.not_lt.mpr hLength),
          svFromCstr_of_not_mem (not_mem_svFromCstr hop.text)]
      have hContains : ∀ c, httpCidrContains net c hop.text = httpCidrContains net c
        (svFromCstr hop.text) := by
        intro c
        rw [httpCidrContains, httpCidrContains, hParse]
      rw [Picked, hParse]
      simp only [hContains]
      rw [picked_text_iff hNet (not_mem_svFromCstr hop.text)]
      exact ⟨fun h => ⟨hNul, hShort, h.1, h.2⟩, fun h => ⟨h.outside, h.plain⟩⟩
    · have hNone : parseIp net hop.text = none := by rw [parseIp, if_pos (by omega)]
      exact ⟨fun h => absurd hNone h.1, fun h => absurd h.short hShort⟩
  · rw [or_iff_left fun h : CutOff net trusted hop => hNul h.nul]
    exact picked_text_iff hNet hNul

theorem peerTrusted_iff {peer : Bytes} (hPeer : TrustedPeer net trusted peer) :
    peerTrusted net (cidrs trusted) peer = true ↔ ¬ Dotted net peer := by
  obtain ⟨v6, a, hText, c, hc, hHolds⟩ := hPeer
  rw [peerTrusted, cidrs, List.any_map, List.any_eq_true]
  constructor
  · rintro ⟨c', _, hOne⟩ hDotted
    rw [Function.comp_apply, hDotted.contains hNet hText.1, beq_iff_eq] at hOne
    exact absurd hOne (by decide)
  · intro hPlain
    refine ⟨c, hc, ?_⟩
    rw [Function.comp_apply, beq_iff_eq]
    exact (contains_eq_one_iff hNet hText hPlain c).mpr hHolds

end Documented

/-! ## The resolved client -/

/-- The last address outside, whatever stands in front of it. -/
def ResolvesRightmost (net : InetPton) (trusted : List Network) (peer xff : Bytes) : Prop :=
  ∃ hop, Rightmost net trusted xff hop ∧ httpClientIpResolve net (cidrs trusted) peer xff = .hop hop

/-- The addresses outside all get into the array, the last one of them is written
without a dotted tail, as the peer is, and no hop of the array behind it is an
address outside up to a NUL byte. -/
structure Legible (net : InetPton) (trusted : List Network) (peer xff : Bytes) : Prop where
  within : ∀ hop ∈ (hopsOf xff).drop hopLimit, ¬ Outside net trusted hop
  plain : ∀ hop, Rightmost net trusted xff hop → ¬ Dotted net hop.text
  whole : ∀ left hop right, (hopsOf xff).take hopLimit = left ++ hop :: right → CutOff net trusted hop →
    ∃ h ∈ right, Outside net trusted h
  peer : ¬ Dotted net peer

/-- What a client writes in front of the header does not change the result. -/
def Unforged (net : InetPton) (trusted : List Network) (peer front xff : Bytes) : Prop :=
  httpClientIpResolve net (cidrs trusted) peer (front ++ 44 :: xff) =
    (httpClientIpResolve net (cidrs trusted) peer xff).moved (front.length + 1)

theorem httpClientIpResolve_eq {net : InetPton} {trusted : List HttpCidr} {peer xff : Bytes}
    (hPeer : peerTrusted net trusted peer = true) (hHops : hopsOf xff ≠ []) :
    httpClientIpResolve net trusted peer xff =
      match ((hopsOf xff).take hopLimit).reverse.find? (fun h => decide (Picked net trusted h)) with
      | some hop => .hop hop
      | none => .peer := by
  have hTrusted : trusted ≠ [] := by
    rintro rfl
    cases hPeer
  have hXff : xff ≠ [] := by
    rintro rfl
    exact hHops rfl
  rw [httpClientIpResolve, if_neg (by rw [not_or]; exact ⟨hTrusted, hXff⟩), if_pos hPeer, splitHops_hopsOf,
    scanHops_eq hTrusted]

theorem resolves_hop_iff {net : InetPton} {trusted : List HttpCidr} {peer xff : Bytes} {hop : Hop}
    (hPeer : peerTrusted net trusted peer = true) (hHops : hopsOf xff ≠ []) :
    httpClientIpResolve net trusted peer xff = .hop hop ↔
      IsLast (Picked net trusted) ((hopsOf xff).take hopLimit) hop := by
  rw [httpClientIpResolve_eq hPeer hHops, isLast_iff_find?]
  cases ((hopsOf xff).take hopLimit).reverse.find? (fun h => decide (Picked net trusted h)) with
  | none => exact ⟨nofun, nofun⟩
  | some found =>
    exact ⟨fun h => congrArg some (Resolved.hop.inj h), fun h => congrArg Resolved.hop (Option.some.inj h)⟩

theorem Rightmost.append {net : InetPton} {trusted : List Network} {xff : Bytes} {hop : Hop}
    (h : Rightmost net trusted xff hop) (front : Bytes) :
    Rightmost net trusted (front ++ 44 :: xff) (hop.moved (front.length + 1)) := by
  obtain ⟨left, right, hSplit, hOutside, hRight⟩ := h
  refine ⟨hopsOf front ++ left.map (Hop.moved (front.length + 1)),
    right.map (Hop.moved (front.length + 1)), ?_, hOutside, ?_⟩
  · rw [hopsOf_append, hSplit, List.map_append, List.map_cons, List.append_assoc]
  · intro h hh
    obtain ⟨old, hOld, rfl⟩ := List.mem_map.mp hh
    exact hRight old hOld

section Resolved

variable {net : InetPton} (hNet : net.Documented) {trusted : List Network} {peer xff : Bytes}

include hNet

theorem legible_of_resolves (hPeer : TrustedPeer net trusted peer) (hHops : hopsOf xff ≠ [])
    (h : ResolvesRightmost net trusted peer xff) : Legible net trusted peer xff := by
  obtain ⟨hop, hRight, hResolve⟩ := h
  have hPlainPeer : ¬ Dotted net peer := by
    intro hDotted
    have hNo : ¬ peerTrusted net (cidrs trusted) peer = true :=
      fun hYes => (peerTrusted_iff hNet hPeer).mp hYes hDotted
    rw [httpClientIpResolve, if_neg hNo] at hResolve
    split at hResolve <;> cases hResolve
  have hLast := (resolves_hop_iff ((peerTrusted_iff hNet hPeer).mpr hPlainPeer) hHops).mp hResolve
  have hNul : 0 ∉ hop.text := by
    obtain ⟨_, _, hText, _⟩ := hRight.is
    exact hText.1
  refine ⟨?_, ?_, ?_, hPlainPeer⟩
  · -- an address outside behind the array would stand behind the last one
    intro h hDropped hIs
    obtain ⟨left, right, hSplit⟩ := List.append_of_mem hDropped
    have hWhole : hopsOf xff = ((hopsOf xff).take hopLimit ++ left) ++ h :: right := by
      rw [List.append_assoc, ← hSplit, List.take_append_drop]
    have hApart := List.disjoint_take_drop (hopsOf_nodup xff) (Nat.le_refl hopLimit) hLast.mem
    have hBehind := hRight.behind hWhole hIs (by rintro rfl; exact hApart hDropped)
    exact hApart (by rw [hSplit]; exact List.mem_append_right left (List.mem_cons_of_mem h hBehind))
  · intro hop' hRight'
    obtain rfl := hRight.unique hRight'
    rcases (picked_iff hNet hop).mp hLast.is with hPlain | hCut
    · exact hPlain.2
    · exact absurd hCut.nul hNul
  · intro left h right hSplit hCut
    refine ⟨hop, hLast.behind hSplit ((picked_iff hNet h).mpr (.inr hCut)) ?_, hRight.is⟩
    rintro rfl
    exact hNul hCut.nul

theorem resolves_of_legible (hPeer : TrustedPeer net trusted peer)
    (hOutside : ∃ hop ∈ hopsOf xff, Outside net trusted hop)
    (h : Legible net trusted peer xff) : ResolvesRightmost net trusted peer xff := by
  have hHops : hopsOf xff ≠ [] := by
    obtain ⟨hop, hIn, _⟩ := hOutside
    exact List.ne_nil_of_mem hIn
  obtain ⟨hop, hRight⟩ := exists_isLast hOutside
  refine ⟨hop, hRight, (resolves_hop_iff ((peerTrusted_iff hNet hPeer).mpr h.peer) hHops).mpr ?_⟩
  have hArray : IsLast (Outside net trusted) ((hopsOf xff).take hopLimit) hop := by
    rw [← isLast_append_iff h.within, List.take_append_drop]
    exact hRight
  obtain ⟨left, right, hSplit, hIs, hNone⟩ := hArray
  refine ⟨left, right, hSplit, (picked_iff hNet hop).mpr (.inl ⟨hIs, h.plain hop hRight⟩), ?_⟩
  intro h' hh' hPicked
  rcases (picked_iff hNet h').mp hPicked with hPlain | hCut
  · exact hNone h' hh' hPlain.1
  · obtain ⟨front, back, rfl⟩ := List.append_of_mem hh'
    have hSplit' : (hopsOf xff).take hopLimit = (left ++ hop :: front) ++ h' :: back := by
      rw [hSplit, List.append_assoc, List.cons_append]
    obtain ⟨h'', hIn, hIs''⟩ := h.whole _ h' back hSplit' hCut
    exact hNone h'' (List.mem_append_right front (List.mem_cons_of_mem h' hIn)) hIs''

theorem resolvesRightmost_iff (hPeer : TrustedPeer net trusted peer)
    (hOutside : ∃ hop ∈ hopsOf xff, Outside net trusted hop) :
    ResolvesRightmost net trusted peer xff ↔ Legible net trusted peer xff := by
  have hHops : hopsOf xff ≠ [] := by
    obtain ⟨hop, hIn, _⟩ := hOutside
    exact List.ne_nil_of_mem hIn
  exact ⟨legible_of_resolves hNet hPeer hHops, resolves_of_legible hNet hPeer hOutside⟩

theorem unforged_iff (hPeer : TrustedPeer net trusted peer)
    (hOutside : ∃ hop ∈ hopsOf xff, Outside net trusted hop)
    (hLegible : Legible net trusted peer xff) (front : Bytes) :
    Unforged net trusted peer front xff ↔ Legible net trusted peer (front ++ 44 :: xff) := by
  obtain ⟨hop, hRight, hResolve⟩ := (resolvesRightmost_iff hNet hPeer hOutside).mpr hLegible
  have hMoved := hRight.append front
  rw [← resolvesRightmost_iff hNet hPeer ⟨_, hMoved.mem, hMoved.is⟩, Unforged, hResolve]
  constructor
  · intro hSame
    exact ⟨_, hMoved, hSame⟩
  · rintro ⟨hop', hRight', hResolve'⟩
    rw [hResolve', hRight'.unique hMoved]
    rfl

end Resolved

/-- The header names the last address outside, and nothing written in front of it
changes that, as far as the header can be read. -/
theorem client_ip_iff {net : InetPton} (hNet : net.Documented) {trusted : List Network} {peer : Bytes}
    (hPeer : TrustedPeer net trusted peer) {xff : Bytes}
    (hOutside : ∃ hop ∈ hopsOf xff, Outside net trusted hop) :
    (ResolvesRightmost net trusted peer xff ↔ Legible net trusted peer xff) ∧
      (Legible net trusted peer xff → ∀ front,
        (Unforged net trusted peer front xff ↔ Legible net trusted peer (front ++ 44 :: xff))) :=
  ⟨resolvesRightmost_iff hNet hPeer hOutside, unforged_iff hNet hPeer hOutside⟩

/-- Three addresses, as `inet_pton` reads them. -/
def threeAddresses : InetPton where
  v4 text :=
    if text = ascii "10.0.0.1" then some [10, 0, 0, 1]
    else if text = ascii "6.6.6.6" then some [6, 6, 6, 6]
    else if text = ascii "9.9.9.9" then some [9, 9, 9, 9]
    else none
  v6 _ := none

/-- And one of them written as an IPv6 address. -/
def fourAddresses : InetPton where
  v4 := threeAddresses.v4
  v6 text := if text = ascii "::ffff:9.9.9.9" then some (List.replicate 10 0 ++ [255, 255, 9, 9, 9, 9])
    else none

theorem fourAddresses_documented : fourAddresses.Documented := by
  have hFour : ∀ {s a}, fourAddresses.v4 s = some a →
      (s = ascii "10.0.0.1" ∨ s = ascii "6.6.6.6" ∨ s = ascii "9.9.9.9") ∧ a.length = 4 := by
    intro s a h
    simp only [fourAddresses, threeAddresses] at h
    split at h
    · exact ⟨.inl ‹_›, Option.some.inj h ▸ rfl⟩
    · split at h
      · exact ⟨.inr (.inl ‹_›), Option.some.inj h ▸ rfl⟩
      · split at h
        · exact ⟨.inr (.inr ‹_›), Option.some.inj h ▸ rfl⟩
        · cases h
  have hSix : ∀ {s a}, fourAddresses.v6 s = some a → s = ascii "::ffff:9.9.9.9" ∧ a.length = 16 := by
    intro s a h
    obtain ⟨hText, hSome⟩ := Option.ite_none_right_eq_some.mp h
    exact ⟨hText, Option.some.inj hSome ▸ rfl⟩
  refine ⟨fun h => (hFour h).2, ?_, ?_, ?_, fun h => (hSix h).2, ?_, ?_⟩
  · rintro s a h
    rcases (hFour h).1 with rfl | rfl | rfl <;> decide
  · rintro s a h
    rcases (hFour h).1 with rfl | rfl | rfl <;> decide
  · rintro s a h
    rcases (hFour h).1 with rfl | rfl | rfl <;> decide
  · rintro s a h
    rw [(hSix h).1]
    decide
  · rintro s a h
    rw [(hSix h).1]
    decide

/-- The network 10.0.0.0/8. -/
def tenNet : Network := ⟨⟨List.replicate 12 0 ++ [10, 0, 0, 0], 8, false⟩, rfl, by decide⟩

theorem trusted_ten : TrustedPeer fourAddresses [tenNet] (ascii "10.0.0.1") :=
  ⟨false, [10, 0, 0, 1], ⟨by decide, rfl⟩, tenNet, List.mem_singleton_self tenNet, rfl, by decide⟩

theorem outside_nine : OutsideText fourAddresses [tenNet] (ascii "9.9.9.9") := by
  refine ⟨false, [9, 9, 9, 9], ⟨by decide, rfl⟩, ?_⟩
  intro c hc hHolds
  rw [List.mem_singleton.mp hc] at hHolds
  exact absurd hHolds.2 (by decide)

theorem outside_dotted : OutsideText fourAddresses [tenNet] (ascii "::ffff:9.9.9.9") := by
  refine ⟨true, List.replicate 10 0 ++ [255, 255, 9, 9, 9, 9], ⟨by decide, rfl⟩, ?_⟩
  intro c hc hHolds
  rw [List.mem_singleton.mp hc] at hHolds
  exact absurd hHolds.1 (by decide)

theorem client_ip_one_hop :
    (ResolvesRightmost fourAddresses [tenNet] (ascii "10.0.0.1") (ascii "9.9.9.9") ↔
        Legible fourAddresses [tenNet] (ascii "10.0.0.1") (ascii "9.9.9.9")) ∧
      (Legible fourAddresses [tenNet] (ascii "10.0.0.1") (ascii "9.9.9.9") → ∀ front,
        (Unforged fourAddresses [tenNet] (ascii "10.0.0.1") front (ascii "9.9.9.9") ↔
          Legible fourAddresses [tenNet] (ascii "10.0.0.1") (front ++ 44 :: ascii "9.9.9.9"))) :=
  client_ip_iff fourAddresses_documented trusted_ten ⟨⟨0, ascii "9.9.9.9"⟩, by decide, outside_nine⟩

/-- Thirty-two hops that a client makes up. -/
def forgedHops : Bytes := ascii "6.6.6.6" ++ (List.replicate 31 (44 :: ascii "6.6.6.6")).flatten

/-- The client sends 32 hops of its own, and the address that the proxy appends is
not looked at. Or the proxy appends it as an IPv6 address with a dotted tail. -/
theorem forged_client :
    ¬ Unforged fourAddresses [tenNet] (ascii "10.0.0.1") forgedHops (ascii "9.9.9.9") ∧
      ¬ ResolvesRightmost fourAddresses [tenNet] (ascii "10.0.0.1") (forgedHops ++ 44 :: ascii "9.9.9.9") ∧
      ¬ ResolvesRightmost fourAddresses [tenNet] (ascii "10.0.0.1") (ascii "6.6.6.6, ::ffff:9.9.9.9") := by
  have hBehind : Rightmost fourAddresses [tenNet] (forgedHops ++ 44 :: ascii "9.9.9.9")
    ⟨256, ascii "9.9.9.9"⟩ :=
    ⟨hopsOf forgedHops, [], by decide +kernel, outside_nine, nofun⟩
  have hTail : Rightmost fourAddresses [tenNet] (ascii "6.6.6.6, ::ffff:9.9.9.9")
    ⟨9, ascii "::ffff:9.9.9.9"⟩ :=
    ⟨[⟨0, ascii "6.6.6.6"⟩], [], by decide +kernel, outside_dotted, nofun⟩
  refine ⟨?_, ?_, ?_⟩
  · rw [Unforged]
    decide +kernel
  · rintro ⟨hop, hRight, hResolve⟩
    rw [hRight.unique hBehind] at hResolve
    exact absurd hResolve (by decide +kernel)
  · rintro ⟨hop, hRight, hResolve⟩
    rw [hRight.unique hTail] at hResolve
    exact absurd hResolve (by decide +kernel)

end Cweb.ClientIp
