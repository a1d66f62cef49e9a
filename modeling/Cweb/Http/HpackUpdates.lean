import Mathlib.Data.List.Chain
import Cweb.Http.HpackInteger

/-!
# Size updates and the limit of the protocol

The decoder keeps one number for two: the limit the protocol grants and the
size the peer's encoder has chosen below it. An update that shrinks the table
takes the limit down with it, so that a later one within the protocol's limit
is refused. The size of an update is what its encoding stands for, and not what
the decoder's integers of 64 bits make of it.
-/

namespace Cweb.Hpack

open HpackTable

def hpackDefaultMaxTableSize : Nat := 4096

def hpackSetMaxTableSize (hp : Hpack) (size : Nat) : Hpack := hpShrinkTo hp size

inductive HpackCall where
  | decodeBlock (data : Bytes)
  | setMaxTableSize (size : Nat)
deriving DecidableEq, Repr

def hpackCall (hp : Hpack) : HpackCall → Hpack
  | .decodeBlock data => (hpackDecodeBlock hp data).1
  | .setMaxTableSize size => hpackSetMaxTableSize hp size

def hpackRun (calls : List HpackCall) : Hpack := calls.foldl hpackCall hpackInit

/-- The size update at the front of a block, as it is encoded, and what follows it. -/
def frontUpdate (p : Bytes) : Option (Nat × Bytes) :=
  match p with
  | [] => none
  | b :: _ => if b.toNat / 32 = 1 then PrefixInteger.read 5 p else none

/-- The size updates at the front of a block that the decoder comes to, and
whether it accepts them. -/
def updateAnswers : Nat → Hpack → Bytes → List (Nat × Bool)
  | 0, _, _ => []
  | fuel + 1, hp, p =>
    match frontUpdate p with
    | none => []
    | some (size, rest) =>
      match hpRepresentation hp false p with
      | (_, none) => [(size, false)]
      | (hp, some _) => (size, true) :: updateAnswers fuel hp rest

/-- The sizes of these updates, whoever reads them. -/
def frontSizes : Nat → Bytes → List Nat
  | 0, _ => []
  | fuel + 1, p =>
    match frontUpdate p with
    | none => []
    | some (size, rest) => size :: frontSizes fuel rest

/-- The limit of the protocol, and the sizes within it that were received since
it was set. -/
structure Budget where
  limit : Nat
  sizes : List Nat
deriving DecidableEq, Repr

def Budget.step (b : Budget) : HpackCall → Budget
  | .decodeBlock data =>
    ⟨b.limit, b.sizes ++ (frontSizes data.length data).takeWhile fun size => decide (size ≤ b.limit)⟩
  | .setMaxTableSize size => ⟨size, []⟩

def budget (calls : List HpackCall) : Budget := calls.foldl Budget.step ⟨hpackDefaultMaxTableSize, []⟩

/-- Every update at the start of a block is accepted exactly when the limit of
the protocol allows it. -/
def LimitDecides (calls : List HpackCall) : Prop :=
  ∀ n data, calls[n]? = some (.decodeBlock data) →
    ∀ u ∈ updateAnswers data.length (hpackRun (calls.take n)) data, u.2 = true ↔
    u.1 ≤ (budget (calls.take n)).limit

/-- No size within the limit is larger than one received before it. -/
def NeverGrows (calls : List HpackCall) : Prop := ∀ n, (budget (calls.take n)).sizes.IsChain (· ≥ ·)

/-- The updates up to the first one over the limit are encoded so that the decoder can
read them: none with a group that its integers cannot take, and those within the limit
in 11 octets and below 2^32. -/
def PlainFront (limit : Nat) : Nat → Bytes → Prop
  | 0, _ => True
  | fuel + 1, p =>
    ∀ size rest, frontUpdate p = some (size, rest) → ¬LateGroup 5 p ∧
      (size ≤ limit → p.length ≤ rest.length + 11 ∧ size < 2 ^ 32 ∧ PlainFront limit fuel rest)

def PlainlyEncoded (calls : List HpackCall) : Prop :=
  ∀ n data, calls[n]? = some (.decodeBlock data) → PlainFront (budget (calls.take n)).limit data.length data

/-! ## One update -/

theorem hpIntRest_closed (bytes : Bytes) : ∀ {mult out v : Nat}
    {rest : Bytes}, hpIntRest mult out bytes = some (v, rest) →
    (PrefixInteger.readGroups bytes).isSome = true := by
  induction bytes with
  | nil => exact fun h => nomatch h
  | cons b bytes ih =>
    intro mult out v rest h
    rw [hpIntRest] at h
    rw [PrefixInteger.readGroups]
    split
    · rfl
    · rename_i hMore
      rw [Option.isSome_map]
      split at h
      · cases h
      · rw [if_pos (Nat.not_lt.mp hMore)] at h
        split at h
        · cases h
        · exact ih h

theorem hpInt_closed {nbits : Nat} {p : Bytes} (h : PrefixInteger.read nbits p = none) :
    hpInt nbits p = none := by
  cases p with
  | nil => rfl
  | cons b p =>
    rw [PrefixInteger.read] at h
    rw [hpInt]
    split
    · rename_i hSmall
      rw [if_pos hSmall] at h
      cases h
    · rename_i hFull
      rw [if_neg hFull, Option.map_eq_none_iff] at h
      cases hRead : hpIntRest 1 (2 ^ nbits - 1) p with
      | none => rfl
      | some r =>
        have hSome := hpIntRest_closed p hRead
        rw [h] at hSome
        cases hSome

theorem hpInt_plain {p rest : Bytes} {v : Nat} (hLate : ¬LateGroup 5 p)
    (h : PrefixInteger.read 5 p = some (v, rest)) :
    (hpInt 5 p = none ∨ hpInt 5 p = some (v, rest)) ∧
      (p.length ≤ rest.length + 11 → v < 2 ^ 32 → hpInt 5 p = some (v, rest)) := by
  have hReads := ((readsInteger_iff 5 (by decide) p).mpr hLate).reads
  constructor
  · cases hRead : hpInt 5 p with
    | none => exact .inl rfl
    | some r =>
      obtain ⟨enc, hEncodes, hEq, _⟩ := (hReads r.1 r.2).mp hRead
      rw [PrefixInteger.read_iff.mpr ⟨enc, hEncodes, hEq⟩] at h
      exact .inr h
  · intro hLength hFits
    obtain ⟨enc, hEncodes, rfl⟩ := PrefixInteger.read_iff.mp h
    rw [List.length_append] at hLength
    exact (hReads v rest).mpr ⟨enc, hEncodes, rfl, by omega, hFits⟩

/-! ## One block -/

theorem hpRepresentation_update {hp : Hpack} {p rest : Bytes} {size limit : Nat}
    (hCap : hp.dynMaxCapacity ≤ limit)
    (hLate : ¬LateGroup 5 p) (hPlain : size ≤ limit → p.length ≤ rest.length + 11 ∧ size < 2 ^ 32)
    (h : frontUpdate p = some (size, rest)) :
    (hp.dynMaxCapacity < size ∧ hpRepresentation hp false p = (hp, none)) ∨
      (size ≤ hp.dynMaxCapacity ∧ hpRepresentation hp false p = (hpShrinkTo hp size, some (none, rest))) := by
  cases p with
  | nil => cases h
  | cons b p =>
    rw [frontUpdate] at h
    split at h
    · rename_i hUpdate
      rw [hpRepresentation, if_pos hUpdate, if_neg Bool.false_ne_true]
      obtain ⟨hEither, hRead⟩ := hpInt_plain hLate h
      rcases Nat.lt_or_ge limit size with hOver | hWithin
      · have hLarge : hp.dynMaxCapacity < size := by omega
        obtain hNone | hSome := hEither
        · rw [hNone]
          exact .inl ⟨hLarge, rfl⟩
        · rw [hSome]
          dsimp only
          rw [if_pos hLarge]
          exact .inl ⟨hLarge, rfl⟩
      · obtain ⟨hLength, hFits⟩ := hPlain hWithin
        rw [hRead hLength hFits]
        dsimp only
        split
        · rename_i hLarge
          exact .inl ⟨hLarge, rfl⟩
        · rename_i hFits
          exact .inr ⟨not_lt.mp hFits, rfl⟩
    · cases h

/-- What a decoder with this capacity answers. -/
def answersOf : Nat → List Nat → List (Nat × Bool)
  | _, [] => []
  | cap, size :: sizes => if size ≤ cap then (size, true) :: answersOf size sizes else [(size, false)]

def capacityBehind : Nat → List Nat → Nat
  | cap, [] => cap
  | cap, size :: sizes => if size ≤ cap then capacityBehind size sizes else cap

theorem updateAnswers_eq {limit : Nat} (fuel : Nat) : ∀ (hp : Hpack) (p : Bytes), hp.dynMaxCapacity ≤ limit →
    PlainFront limit fuel p → updateAnswers fuel hp p = answersOf hp.dynMaxCapacity (frontSizes fuel p) := by
  induction fuel with
  | zero => exact fun _ _ _ _ => rfl
  | succ fuel ih =>
    intro hp p hCap hPlain
    rw [updateAnswers, frontSizes]
    cases hFront : frontUpdate p with
    | none => rfl
    | some u =>
      obtain ⟨size, rest⟩ := u
      obtain ⟨hLate, hWithin⟩ := hPlain size rest hFront
      dsimp only
      rw [answersOf]
      obtain ⟨hLarge, hRead⟩ | ⟨hFits, hRead⟩ :=
        hpRepresentation_update hCap hLate (fun hLe => ⟨(hWithin hLe).1, (hWithin hLe).2.1⟩) hFront
      · rw [hRead, if_neg (not_le.mpr hLarge)]
      · rw [hRead, if_pos hFits]
        dsimp only
        rw [ih _ _ (hFits.trans hCap) (hWithin (hFits.trans hCap)).2.2]
        rfl

theorem hpRepresentation_capacity (hp : Hpack) {anyField : Bool} {p : Bytes}
    (h : anyField = true ∨ frontUpdate p = none) :
    (hpRepresentation hp anyField p).1.dynMaxCapacity = hp.dynMaxCapacity ∧
      ∀ rest, (hpRepresentation hp anyField p).2 ≠ some (none, rest) := by
  have hInsert : ∀ name value, (hpDynInsert hp name value).dynMaxCapacity = hp.dynMaxCapacity := by
    intro name value
    simp only [hpDynInsert]
    split <;> rfl
  cases p with
  | nil => exact ⟨rfl, by rintro _ ⟨⟩⟩
  | cons b p =>
    rw [hpRepresentation]
    split
    · rename_i hUpdate
      split
      · exact ⟨rfl, by rintro _ ⟨⟩⟩
      · rename_i hFirst
        obtain hField | hNone := h
        · exact absurd hField hFirst
        · rw [frontUpdate, if_pos hUpdate] at hNone
          rw [hpInt_closed hNone]
          exact ⟨rfl, by rintro _ ⟨⟩⟩
    · split
      · split
        · exact ⟨rfl, by rintro _ ⟨⟩⟩
        · split
          · exact ⟨rfl, by rintro _ ⟨⟩⟩
          · exact ⟨rfl, by rintro _ ⟨⟩⟩
      · split
        · split
          · exact ⟨rfl, by rintro _ ⟨⟩⟩
          · exact ⟨hInsert _ _, by rintro _ ⟨⟩⟩
        · split
          · exact ⟨rfl, by rintro _ ⟨⟩⟩
          · exact ⟨rfl, by rintro _ ⟨⟩⟩

theorem hpDecodeLoop_capacity_fields (fuel : Nat) : ∀ {hp : Hpack} {fields : List Field}
    (p : Bytes), fields ≠ [] →
    (hpDecodeLoop fuel hp fields p).1.dynMaxCapacity = hp.dynMaxCapacity := by
  induction fuel with
  | zero =>
    intro hp fields p _
    cases p <;> rfl
  | succ fuel ih =>
    intro hp fields p hFields
    cases p with
    | nil => rfl
    | cons b p =>
      obtain ⟨hCapacity, hUpdate⟩ := @hpRepresentation_capacity hp (!fields.isEmpty) (b :: p)
        (.inl (by simpa using hFields))
      rw [hpDecodeLoop]
      · rcases hRead : hpRepresentation hp (!fields.isEmpty) (b :: p) with ⟨hp', _ | ⟨_ | e, rest⟩⟩
        · rw [hRead] at hCapacity
          exact hCapacity
        · rw [hRead] at hUpdate
          exact absurd rfl (hUpdate rest)
        · rw [hRead] at hCapacity
          exact (ih rest (List.append_ne_nil_of_right_ne_nil _ (List.cons_ne_nil _ _))).trans hCapacity
      · simp

theorem hpDecodeLoop_capacity {limit : Nat} (fuel : Nat) : ∀ (hp : Hpack)
    (p : Bytes), hp.dynMaxCapacity ≤ limit →
    PlainFront limit fuel p →
      (hpDecodeLoop fuel hp [] p).1.dynMaxCapacity = capacityBehind hp.dynMaxCapacity
        (frontSizes fuel p) := by
  induction fuel with
  | zero =>
    intro hp p _ _
    cases p <;> rfl
  | succ fuel ih =>
    intro hp p hCap hPlain
    cases p with
    | nil => rfl
    | cons b p =>
      rw [hpDecodeLoop, frontSizes]
      · cases hFront : frontUpdate (b :: p) with
        | none =>
          obtain ⟨hCapacity, hUpdate⟩ := @hpRepresentation_capacity hp false (b :: p) (.inr hFront)
          rcases hRead : hpRepresentation hp (!List.isEmpty []) (b :: p) with ⟨hp', _ | ⟨_ | e, rest⟩⟩
          · rw [List.isEmpty_nil, Bool.not_true] at hRead
            rw [hRead] at hCapacity
            exact hCapacity
          · rw [List.isEmpty_nil, Bool.not_true] at hRead
            rw [hRead] at hUpdate
            exact absurd rfl (hUpdate rest)
          · rw [List.isEmpty_nil, Bool.not_true] at hRead
            rw [hRead] at hCapacity
            exact (hpDecodeLoop_capacity_fields fuel rest (List.cons_ne_nil _ _)).trans hCapacity
        | some u =>
          obtain ⟨size, rest⟩ := u
          rw [List.isEmpty_nil, Bool.not_true]
          dsimp only
          rw [capacityBehind]
          obtain ⟨hLate, hWithin⟩ := hPlain size rest hFront
          obtain ⟨hLarge, hRead⟩ | ⟨hFits, hRead⟩ :=
            hpRepresentation_update hCap hLate (fun hLe => ⟨(hWithin hLe).1, (hWithin hLe).2.1⟩) hFront
          · rw [hRead, if_neg (not_le.mpr hLarge)]
          · rw [hRead, if_pos hFits]
            exact ih _ _ (hFits.trans hCap) (hWithin (hFits.trans hCap)).2.2
      · simp

/-! ## Answers and sizes -/

theorem answersOf_iff {limit : Nat} (sizes : List Nat) : ∀ {cap}, cap ≤ limit →
    ((∀ u ∈ answersOf cap sizes, u.2 = true ↔ u.1 ≤ limit) ↔
      (cap :: sizes.takeWhile fun size => decide (size ≤ limit)).IsChain (· ≥ ·)) := by
  induction sizes with
  | nil =>
    intro cap _
    simp [answersOf]
  | cons size sizes ih =>
    intro cap hCap
    rw [answersOf]
    split
    · rename_i hFits
      have hLimit : size ≤ limit := hFits.trans hCap
      rw [List.takeWhile_cons_of_pos (by simpa using hLimit), List.isChain_cons_cons, ← ih hLimit,
        List.forall_mem_cons]
      simp [hFits, hLimit]
    · rename_i hLarge
      rw [List.forall_mem_cons]
      rcases Nat.lt_or_ge limit size with hOver | hLimit
      · rw [List.takeWhile_cons_of_neg (by simpa using hOver)]
        simp [hOver]
      · rw [List.takeWhile_cons_of_pos (by simpa using hLimit), List.isChain_cons_cons]
        simp [hLarge, hLimit]

theorem capacityBehind_eq {limit : Nat} (sizes : List Nat) : ∀ {cap}, cap ≤ limit →
    (cap :: sizes.takeWhile fun size => decide (size ≤ limit)).IsChain (· ≥ ·) →
      capacityBehind cap sizes = (sizes.takeWhile fun size => decide (size ≤ limit)).getLastD cap := by
  induction sizes with
  | nil => exact fun _ _ => rfl
  | cons size sizes ih =>
    intro cap hCap hChain
    rw [capacityBehind]
    rcases Nat.lt_or_ge limit size with hOver | hLimit
    · rw [if_neg (by omega), List.takeWhile_cons_of_neg (by simpa using hOver)]
      rfl
    · rw [List.takeWhile_cons_of_pos (by simpa using hLimit)] at hChain ⊢
      rw [List.isChain_cons_cons] at hChain
      rw [if_pos hChain.1, ih hLimit hChain.2, List.getLastD_cons]

/-! ## Runs -/

/-- The decoder's capacity is the last size received, or the limit. -/
structure InStep (hp : Hpack) (b : Budget) : Prop where
  capacity : hp.dynMaxCapacity = b.sizes.getLastD b.limit
  within : ∀ size ∈ b.sizes, size ≤ b.limit

theorem InStep.capacity_le {hp : Hpack} {b : Budget} (h : InStep hp b) : hp.dynMaxCapacity ≤ b.limit := by
  rw [h.capacity, List.getLastD_eq_getLast?]
  cases hLast : b.sizes.getLast? with
  | none => exact Nat.le_refl _
  | some size => exact h.within size (List.mem_of_getLast? hLast)

theorem isChain_append_iff {limit : Nat} {sizes new : List Nat} (hSizes : sizes.IsChain (· ≥ ·))
    (hNew : ∀ size ∈ new, size ≤ limit) :
    (sizes ++ new).IsChain (· ≥ ·) ↔ (sizes.getLastD limit :: new).IsChain (· ≥ ·) := by
  rw [List.isChain_append, List.isChain_cons, List.getLastD_eq_getLast?]
  constructor
  · rintro ⟨_, hChain, hJoin⟩
    refine ⟨?_, hChain⟩
    intro size hHead
    cases hLast : sizes.getLast? with
    | none => exact hNew size (List.mem_of_mem_head? hHead)
    | some last => exact hJoin last hLast size hHead
  · rintro ⟨hJoin, hChain⟩
    refine ⟨hSizes, hChain, ?_⟩
    intro last hLast size hHead
    have hLe := hJoin size hHead
    rw [Option.mem_def.mp hLast] at hLe
    exact hLe

theorem front_within (limit : Nat) (sizes : List Nat) :
    ∀ size ∈ sizes.takeWhile fun size => decide (size ≤ limit), size ≤ limit := by
  intro size hMem
  simpa using List.mem_takeWhile_imp hMem

theorem InStep.call {hp : Hpack} {b : Budget} (h : InStep hp b) (hSizes : b.sizes.IsChain (· ≥ ·))
    {call : HpackCall}
    (hPlain : ∀ data, call = .decodeBlock data → PlainFront b.limit data.length data)
    (hNext : (b.step call).sizes.IsChain (· ≥ ·)) : InStep (hpackCall hp call) (b.step call) := by
  cases call with
  | setMaxTableSize size => exact ⟨rfl, fun _ hMem => absurd hMem List.not_mem_nil⟩
  | decodeBlock data =>
    have hNew := front_within b.limit (frontSizes data.length data)
    rw [Budget.step, isChain_append_iff hSizes hNew, ← h.capacity] at hNext
    refine ⟨?_, ?_⟩
    · change (hpDecodeLoop data.length hp [] data).1.dynMaxCapacity = _
      rw [hpDecodeLoop_capacity _ _ _ h.capacity_le (hPlain data rfl),
        capacityBehind_eq _ h.capacity_le hNext, h.capacity, Budget.step,
        List.getLastD_eq_getLast?, List.getLastD_eq_getLast?, List.getLastD_eq_getLast?, List.getLast?_append]
      cases (List.takeWhile (fun size => decide (size ≤ b.limit))
        (frontSizes data.length data)).getLast? <;> rfl
    · intro size hMem
      obtain hOld | hMem := List.mem_append.mp hMem
      · exact h.within size hOld
      · exact hNew size hMem

theorem hpackRun_concat (calls : List HpackCall) (call : HpackCall) :
    hpackRun (calls ++ [call]) = hpackCall (hpackRun calls) call := List.foldl_concat ..

theorem budget_concat (calls : List HpackCall) (call : HpackCall) :
    budget (calls ++ [call]) = (budget calls).step call := List.foldl_concat ..

theorem neverGrows_concat (calls : List HpackCall) (call : HpackCall) :
    NeverGrows (calls ++ [call]) ↔ NeverGrows calls ∧ ((budget calls).step call).sizes.IsChain (· ≥ ·) := by
  constructor
  · intro h
    refine ⟨?_, ?_⟩
    · intro n
      have hTake := h (min n calls.length)
      rwa [List.take_append_of_le_length (Nat.min_le_right _ _), ← List.take_eq_take_min] at hTake
    · have hWhole := h (calls ++ [call]).length
      rwa [List.take_length, budget_concat] at hWhole
  · rintro ⟨hCalls, hLast⟩ n
    rcases Nat.lt_or_ge calls.length n with hAll | hPart
    · rw [List.take_of_length_le (by rw [List.length_append, List.length_singleton]; omega), budget_concat]
      exact hLast
    · rw [List.take_append_of_le_length hPart]
      exact hCalls n

theorem limitDecides_concat (calls : List HpackCall) (call : HpackCall) :
    LimitDecides (calls ++ [call]) ↔ LimitDecides calls ∧ ∀ data, call = .decodeBlock data →
      ∀ u ∈ updateAnswers data.length (hpackRun calls) data, u.2 = true ↔ u.1 ≤ (budget calls).limit := by
  constructor
  · intro h
    refine ⟨?_, ?_⟩
    · intro n data hn
      obtain ⟨hLess, _⟩ := List.getElem?_eq_some_iff.mp hn
      have hAt := h n data (by rw [List.getElem?_append_left hLess, hn])
      rwa [List.take_append_of_le_length hLess.le] at hAt
    · rintro data rfl
      have hAt := h calls.length data (by simp)
      rwa [List.take_left] at hAt
  · rintro ⟨hCalls, hLast⟩ n data hn
    obtain ⟨hLess, _⟩ := List.getElem?_eq_some_iff.mp hn
    rw [List.length_append, List.length_singleton] at hLess
    rcases Nat.lt_or_ge n calls.length with hPart | hEnd
    · rw [List.getElem?_append_left hPart] at hn
      rw [List.take_append_of_le_length hPart.le]
      exact hCalls n data hn
    · obtain rfl : n = calls.length := by omega
      rw [List.getElem?_concat_length] at hn
      rw [List.take_left]
      exact hLast data (Option.some.inj hn)

theorem plainlyEncoded_concat {calls : List HpackCall} {call : HpackCall}
    (h : PlainlyEncoded (calls ++ [call])) :
    PlainlyEncoded calls ∧ ∀ data, call = .decodeBlock data →
      PlainFront (budget calls).limit data.length data := by
  constructor
  · intro n data hn
    obtain ⟨hLess, _⟩ := List.getElem?_eq_some_iff.mp hn
    have hAt := h n data (by rw [List.getElem?_append_left hLess, hn])
    rwa [List.take_append_of_le_length hLess.le] at hAt
  · rintro data rfl
    have hAt := h calls.length data (by simp)
    rwa [List.take_left] at hAt

theorem inStep_run {calls : List HpackCall} (hPlain : PlainlyEncoded calls) (h : NeverGrows calls) :
    InStep (hpackRun calls) (budget calls) := by
  induction calls using List.reverseRecOn with
  | nil => exact ⟨rfl, fun _ hMem => absurd hMem List.not_mem_nil⟩
  | append_singleton calls call ih =>
    obtain ⟨hCalls, hLast⟩ := (neverGrows_concat calls call).mp h
    obtain ⟨hPlainCalls, hPlainLast⟩ := plainlyEncoded_concat hPlain
    have hSizes := hCalls calls.length
    rw [List.take_length] at hSizes
    rw [hpackRun_concat, budget_concat]
    exact (ih hPlainCalls hCalls).call hSizes hPlainLast hLast

/-- In a run of blocks and new limits whose updates can be read, every size update at
the start of a block is accepted exactly when the limit of the protocol allows it, if
and only if no update within the limit asks for more than one before it did. -/
theorem limitDecides_iff {calls : List HpackCall} (hPlain : PlainlyEncoded calls) : LimitDecides calls ↔
    NeverGrows calls := by
  induction calls using List.reverseRecOn with
  | nil => exact ⟨fun _ n => by rw [List.take_nil]; exact .nil, fun _ n data hn => by cases hn⟩
  | append_singleton calls call ih =>
    obtain ⟨hPlainCalls, hPlainLast⟩ := plainlyEncoded_concat hPlain
    rw [limitDecides_concat, neverGrows_concat, ih hPlainCalls]
    apply and_congr_right
    intro hCalls
    have hInStep := inStep_run hPlainCalls hCalls
    have hSizes := hCalls calls.length
    rw [List.take_length] at hSizes
    cases call with
    | setMaxTableSize size => exact ⟨fun _ => .nil, fun _ data hEq => by cases hEq⟩
    | decodeBlock data =>
      have hNew := front_within (budget calls).limit (frontSizes data.length data)
      rw [Budget.step, isChain_append_iff hSizes hNew, ← hInStep.capacity,
        ← answersOf_iff _ hInStep.capacity_le,
        ← updateAnswers_eq _ _ _ hInStep.capacity_le (hPlainLast data rfl)]
      constructor
      · exact fun h => h data rfl
      · rintro h _ ⟨⟩
        exact h

theorem not_lateGroup_short {nbits : Nat} {p : Bytes} (h : p.length ≤ 10) : ¬LateGroup nbits p := by
  rintro ⟨b, tail, rfl, _, groups, last, rest, rfl, hNine, _⟩
  rw [List.length_cons, List.length_append, List.length_cons, hNine] at h
  omega

theorem plainFront_short {limit : Nat} (fuel : Nat) : ∀ {p : Bytes}, p.length ≤ 10 →
    (∀ size ∈ frontSizes fuel p, size < 2 ^ 32) → PlainFront limit fuel p := by
  induction fuel with
  | zero => exact fun _ _ => trivial
  | succ fuel ih =>
    intro p hShort hSizes size rest hFront
    rw [frontSizes, hFront] at hSizes
    have hRest : rest.length ≤ p.length := by
      cases p with
      | nil => cases hFront
      | cons b p =>
        rw [frontUpdate] at hFront
        split at hFront
        · obtain ⟨enc, _, hEq⟩ := PrefixInteger.read_iff.mp hFront
          rw [hEq, List.length_append]
          exact Nat.le_add_left _ _
        · cases hFront
    refine ⟨not_lateGroup_short hShort, fun _ => ⟨by omega, hSizes size List.mem_cons_self, ih (by omega) ?_⟩⟩
    exact fun s hs => hSizes s (List.mem_cons_of_mem _ hs)

theorem limitDecides_shrinking :
    LimitDecides [.decodeBlock [0x3f, 0xe1, 0x1f], .decodeBlock [0x20]] ↔
      NeverGrows [.decodeBlock [0x3f, 0xe1, 0x1f], .decodeBlock [0x20]] := by
  refine limitDecides_iff ?_
  intro n data hn
  match n, hn with
  | 0, hn =>
    cases hn
    exact plainFront_short _ (by decide) (by decide)
  | 1, hn =>
    cases hn
    exact plainFront_short _ (by decide) (by decide)
  | n + 2, hn => cases hn

/-- An encoder empties the table and takes its old size again in the next
block. -/
theorem grown_update_refused :
    ¬ LimitDecides [.decodeBlock [0x20], .decodeBlock [0x3f, 0xe1, 0x1f]] := by
  intro h
  have hAnswer := h 1 [0x3f, 0xe1, 0x1f] rfl (4096, false) (by decide)
  exact absurd (hAnswer.mpr (by decide)) Bool.false_ne_true

end Cweb.Hpack
