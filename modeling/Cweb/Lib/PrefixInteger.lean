import Mathlib.Data.List.Basic
import Mathlib.Algebra.Group.Nat.Defs

/-!
# Integers with a prefix

An integer that starts in the low bits of an octet and goes on, when these are
all set, in groups of seven bits, the lowest first. The top bit of a group's
octet says that another one follows. Leading zero groups are not excluded, so
an integer has many encodings.
-/

namespace PrefixInteger

/-- What the groups stand for. -/
def groupsValue : List UInt8 → Nat
  | [] => 0
  | b :: groups => b.toNat % 128 + 128 * groupsValue groups

/-- Groups of which exactly the last one is marked as the last. -/
inductive Closed : List UInt8 → Prop where
  | last {b : UInt8} : b.toNat < 128 → Closed [b]
  | more {b : UInt8} {groups : List UInt8} : 128 ≤ b.toNat → Closed groups → Closed (b :: groups)

/-- The octets encode a number behind a prefix of so many bits. -/
inductive Encodes (nbits : Nat) : List UInt8 → Nat → Prop where
  | small {b : UInt8} : b.toNat % 2 ^ nbits < 2 ^ nbits - 1 → Encodes nbits [b] (b.toNat % 2 ^ nbits)
  | large {b : UInt8} {groups : List UInt8} : b.toNat % 2 ^ nbits = 2 ^ nbits - 1 → Closed groups →
      Encodes nbits (b :: groups) (2 ^ nbits - 1 + groupsValue groups)

@[simp] theorem groupsValue_cons (b : UInt8) (groups : List UInt8) :
    groupsValue (b :: groups) = b.toNat % 128 + 128 * groupsValue groups := rfl

theorem not_closed_nil : ¬Closed [] := nofun

theorem closed_cons_iff {b : UInt8} {groups : List UInt8} :
    Closed (b :: groups) ↔ (b.toNat < 128 ∧ groups = []) ∨ (128 ≤ b.toNat ∧ Closed groups) := by
  constructor
  · intro h
    cases h with
    | last hb => exact .inl ⟨hb, rfl⟩
    | more hb hGroups => exact .inr ⟨hb, hGroups⟩
  · rintro (⟨hb, rfl⟩ | ⟨hb, hGroups⟩)
    · exact .last hb
    · exact .more hb hGroups

theorem closed_concat {groups : List UInt8} {b : UInt8} (h : ∀ c ∈ groups, 128 ≤ c.toNat)
    (hb : b.toNat < 128) : Closed (groups ++ [b]) := by
  induction groups with
  | nil => exact .last hb
  | cons c groups ih => exact .more (h c List.mem_cons_self) (ih fun c hc => h c (List.mem_cons_of_mem _ hc))

/-- The octets begin with closed groups of a value, in at most `n` octets. -/
def Begins (n : Nat) (bytes : List UInt8) (value : Nat) (rest : List UInt8) : Prop :=
  ∃ groups, Closed groups ∧ bytes = groups ++ rest ∧ value = groupsValue groups ∧ groups.length ≤ n

theorem not_begins_nil {n value : Nat} {rest : List UInt8} : ¬Begins n [] value rest := by
  rintro ⟨groups, hClosed, hEq, -, -⟩
  exact not_closed_nil ((List.append_eq_nil_iff.mp hEq.symm).1 ▸ hClosed)

theorem begins_zero {bytes rest : List UInt8} {value : Nat} : ¬Begins 0 bytes value rest := by
  rintro ⟨groups, hClosed, -, -, hLength⟩
  exact not_closed_nil (List.length_eq_zero_iff.mp (Nat.le_zero.mp hLength) ▸ hClosed)

theorem begins_last {n value : Nat} {b : UInt8} {bytes rest : List UInt8} (h : b.toNat < 128) :
    Begins (n + 1) (b :: bytes) value rest ↔ value = b.toNat ∧ bytes = rest := by
  constructor
  · rintro ⟨groups, hClosed, hEq, rfl, -⟩
    cases groups with
    | nil => exact absurd hClosed not_closed_nil
    | cons c groups =>
      obtain ⟨rfl, hRest⟩ := List.cons.inj hEq
      rcases closed_cons_iff.mp hClosed with ⟨-, rfl⟩ | ⟨hLarge, -⟩
      · exact ⟨by simp [groupsValue, Nat.mod_eq_of_lt h], hRest⟩
      · omega
  · rintro ⟨rfl, rfl⟩
    exact ⟨[b], .last h, rfl, by simp [groupsValue, Nat.mod_eq_of_lt h], by simp⟩

theorem begins_more {n value : Nat} {b : UInt8} {bytes rest : List UInt8} (h : 128 ≤ b.toNat) :
    Begins (n + 1) (b :: bytes) value rest ↔ ∃ v, Begins n bytes v rest ∧
      value = b.toNat % 128 + 128 * v := by
  constructor
  · rintro ⟨groups, hClosed, hEq, rfl, hLength⟩
    cases groups with
    | nil => exact absurd hClosed not_closed_nil
    | cons c groups =>
      obtain ⟨rfl, hRest⟩ := List.cons.inj hEq
      rcases closed_cons_iff.mp hClosed with ⟨hSmall, -⟩ | ⟨-, hGroups⟩
      · omega
      · exact ⟨groupsValue groups, ⟨groups, hGroups, hRest, rfl, Nat.le_of_succ_le_succ hLength⟩, rfl⟩
  · rintro ⟨-, ⟨groups, hClosed, rfl, rfl, hLength⟩, rfl⟩
    exact ⟨b :: groups, .more h hClosed, rfl, rfl, Nat.succ_le_succ hLength⟩

/-! ## Reading -/

/-- What closed groups at the front stand for, and what follows them. -/
def readGroups : List UInt8 → Option (Nat × List UInt8)
  | [] => none
  | b :: bytes =>
    if b.toNat < 128 then some (b.toNat, bytes)
    else (readGroups bytes).map fun r => (b.toNat % 128 + 128 * r.1, r.2)

/-- The integer at the front, however long it is. -/
def read (nbits : Nat) : List UInt8 → Option (Nat × List UInt8)
  | [] => none
  | b :: bytes =>
    if b.toNat % 2 ^ nbits < 2 ^ nbits - 1 then some (b.toNat % 2 ^ nbits, bytes)
    else (readGroups bytes).map fun r => (2 ^ nbits - 1 + r.1, r.2)

theorem readGroups_iff (bytes : List UInt8) : ∀ {value rest},
    readGroups bytes = some (value, rest) ↔ Begins bytes.length bytes value rest := by
  induction bytes with
  | nil => exact fun {_ _} => iff_of_false nofun not_begins_nil
  | cons b bytes ih =>
    intro value rest
    rw [readGroups, List.length_cons]
    split
    · rename_i hLast
      rw [begins_last hLast, Option.some.injEq, Prod.mk.injEq]
      exact and_congr_left' eq_comm
    · rename_i hMore
      rw [begins_more (Nat.not_lt.mp hMore)]
      constructor
      · intro h
        obtain ⟨r, hr, hEq⟩ := Option.map_eq_some_iff.mp h
        obtain ⟨rfl, rfl⟩ := Prod.mk.inj hEq
        exact ⟨r.1, ih.mp hr, rfl⟩
      · rintro ⟨v, hBegins, rfl⟩
        rw [ih.mpr hBegins]
        rfl

theorem read_iff {nbits : Nat} {bytes : List UInt8} {value : Nat} {rest : List UInt8} :
    read nbits bytes = some (value, rest) ↔ ∃ enc, Encodes nbits enc value ∧ bytes = enc ++ rest := by
  cases bytes with
  | nil =>
    refine iff_of_false nofun ?_
    rintro ⟨enc, hEncodes, hEq⟩
    rw [(List.append_eq_nil_iff.mp hEq.symm).1] at hEncodes
    cases hEncodes
  | cons b bytes =>
    rw [read]
    split
    · rename_i hSmall
      constructor
      · intro h
        obtain ⟨rfl, rfl⟩ := Prod.mk.inj (Option.some.inj h)
        exact ⟨[b], .small hSmall, rfl⟩
      · rintro ⟨enc, hEncodes, hEq⟩
        cases hEncodes with
        | small =>
          obtain ⟨rfl, rfl⟩ := List.cons.inj hEq
          rfl
        | large hFull =>
          obtain ⟨rfl, _⟩ := List.cons.inj hEq
          omega
    · rename_i hFull
      constructor
      · intro h
        obtain ⟨r, hr, hEq⟩ := Option.map_eq_some_iff.mp h
        obtain ⟨rfl, rfl⟩ := Prod.mk.inj hEq
        obtain ⟨groups, hClosed, rfl, hValue, _⟩ := (readGroups_iff bytes).mp hr
        have hMod : b.toNat % 2 ^ nbits < 2 ^ nbits := Nat.mod_lt _ (Nat.two_pow_pos nbits)
        refine ⟨b :: groups, ?_, rfl⟩
        rw [hValue]
        exact .large (by omega) hClosed
      · rintro ⟨enc, hEncodes, hEq⟩
        cases hEncodes with
        | small hSmall =>
          obtain ⟨rfl, _⟩ := List.cons.inj hEq
          exact absurd hSmall hFull
        | @large c groups _ hClosed =>
          obtain ⟨rfl, rfl⟩ := List.cons.inj hEq
          have hRead : readGroups (groups ++ rest) = some (groupsValue groups, rest) :=
            (readGroups_iff _).mpr ⟨groups, hClosed, rfl, rfl, by rw [List.length_append]; omega⟩
          change (readGroups (groups ++ rest)).map _ = _
          rw [hRead]
          rfl

end PrefixInteger
