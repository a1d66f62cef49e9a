import Cweb.Http.Hpack

/-!
# Reading back what the encoder wrote

The decoder of a peer, with a limit on its strings. The server's own is the one
with a limit of 64 KiB. A field is read back when the length of its value has
32 bits; of a longer value only the low bits of the length go out.
-/

namespace Cweb.Hpack

open HpackTable Sv

/-! ## A peer's decoder -/

def readString (cap : Nat) (p : Bytes) : Option (Bytes × Bytes) :=
  match p with
  | [] => none
  | first :: _ =>
    match hpInt 7 p with
    | none => none
    | some (len, rest) =>
      if cap < len ∨ rest.length < len then none
      else if 128 ≤ first.toNat then (huffDecode (rest.take len)).map fun s => (s, rest.drop len)
      else some (rest.take len, rest.drop len)

def readLiteral (cap : Nat) (hp : Hpack) (nbits : Nat) (p : Bytes) : Option (Field × Bytes) :=
  match hpInt nbits p with
  | none => none
  | some (idx, rest) =>
    let name : Option (Bytes × Bytes) :=
      if idx = 0 then readString cap rest else (hpLookup hp idx).map fun e => (e.name, rest)
    match name with
    | none => none
    | some (name, rest) => (readString cap rest).map fun v => (⟨name, v.1⟩, v.2)

def readRepresentation (cap : Nat) (hp : Hpack) (anyField : Bool) (p : Bytes) :
    Hpack × Option (Option Field × Bytes) :=
  match p with
  | [] => (hp, none)
  | b :: _ =>
    if b.toNat / 32 = 1 then
      if anyField then (hp, none)
      else
        match hpInt 5 p with
        | none => (hp, none)
        | some (size, rest) =>
          if hp.dynMaxCapacity < size then (hp, none) else (hpShrinkTo hp size, some (none, rest))
    else if 128 ≤ b.toNat then
      match hpInt 7 p with
      | none => (hp, none)
      | some (idx, rest) =>
        match hpLookup hp idx with
        | none => (hp, none)
        | some e => (hp, some (some e, rest))
    else if 64 ≤ b.toNat then
      match readLiteral cap hp 6 p with
      | none => (hp, none)
      | some (e, rest) => (hpDynInsert hp e.name e.value, some (some e, rest))
    else
      match readLiteral cap hp 4 p with
      | none => (hp, none)
      | some (e, rest) => (hp, some (some e, rest))

def readLoop (cap : Nat) : Nat → Hpack → List Field → Bytes → Option (List Field)
  | _, _, fields, [] => some fields
  | 0, _, _, _ => none
  | fuel + 1, hp, fields, p =>
    match readRepresentation cap hp (!fields.isEmpty) p with
    | (_, none) => none
    | (hp, some (none, rest)) => readLoop cap fuel hp fields rest
    | (hp, some (some e, rest)) => readLoop cap fuel hp (fields ++ [e]) rest

/-- The fields of a block for a peer with this dynamic table. -/
def readBlock (cap : Nat) (hp : Hpack) (data : Bytes) : Option (List Field) :=
  readLoop cap data.length hp [] data

/-! ## Integers -/

theorem hpIntRest_encRest (fuel : Nat) : ∀ {value mult out : Nat} (rest : Bytes), 0 < mult →
    value < 128 ^ (fuel + 1) →
    out + value * mult < 2 ^ 32 →
      hpIntRest mult out (hpEncRest fuel value ++ rest) = some (out + value * mult, rest) := by
  have hLast : ∀ {value mult out : Nat} (rest : Bytes), value < 128 → out + value * mult < 2 ^ 32 →
      hpIntRest mult out ([UInt8.ofNat value] ++ rest) = some (out + value * mult, rest) := by
    intro value mult out rest hSmall hFits
    have hByte : (UInt8.ofNat value).toNat = value := by
      rw [UInt8.toNat_ofNat']
      omega
    have hAdd : value % 128 * mult % 2 ^ 64 = value * mult := by
      rw [Nat.mod_eq_of_lt hSmall]
      omega
    rw [List.singleton_append, hpIntRest, hByte, hAdd, if_neg (by omega), if_neg (by omega)]
  induction fuel with
  | zero =>
    intro value mult out rest _ hValue hFits
    exact hLast rest (by omega) hFits
  | succ fuel ih =>
    intro value mult out rest hMult hValue hFits
    rw [hpEncRest]
    split
    · rename_i hLarge
      have hByte : (UInt8.ofNat (value % 128 + 128)).toNat = value % 128 + 128 := by
        rw [UInt8.toNat_ofNat']
        omega
      -- the value splits into the octet and what the later ones add
      have hSplit : value * mult = value % 128 * mult + value / 128 * (mult * 128) := by
        calc
          value * mult = (value % 128 + 128 * (value / 128)) * mult := by rw [Nat.mod_add_div]
          _ = value % 128 * mult + value / 128 * (mult * 128) := by
            rw [Nat.add_mul, Nat.mul_comm 128 (value / 128), Nat.mul_assoc, Nat.mul_comm 128 mult]
      have hMultLe : 128 * mult ≤ value * mult := Nat.mul_le_mul_right _ hLarge
      have hAdd : (value % 128 + 128) % 128 * mult % 2 ^ 64 = value % 128 * mult := by
        rw [Nat.add_mod_right, Nat.mod_mod]
        omega
      have hMult64 : mult * 128 % 2 ^ 64 = mult * 128 := Nat.mod_eq_of_lt (by omega)
      rw [List.cons_append, hpIntRest, hByte, hAdd, hMult64, if_neg (by omega), if_pos (by omega),
        if_neg (by omega), hSplit,
        ← Nat.add_assoc]
      refine ih rest (by omega) ?_ (by omega)
      rw [Nat.pow_succ] at hValue
      omega
    · rename_i hSmall
      exact hLast rest (by omega) hFits

theorem hpInt_encInt {value nbits pattern : Nat} (hValue : value < 2 ^ 32) (hPattern : 2 ^ nbits ∣ pattern)
    (hOctet : pattern + 2 ^ nbits ≤ 256) (rest : Bytes) :
    hpInt nbits (hpEncInt value nbits pattern ++ rest) = some (value, rest) := by
  have hPos : 0 < 2 ^ nbits := Nat.two_pow_pos nbits
  have hLow : ∀ {v}, v < 2 ^ nbits → (UInt8.ofNat (pattern + v)).toNat % 2 ^ nbits = v := by
    intro v hv
    obtain ⟨k, rfl⟩ := hPattern
    have hByte : (2 ^ nbits * k + v) % 2 ^ 8 = 2 ^ nbits * k + v := Nat.mod_eq_of_lt (by omega)
    rw [UInt8.toNat_ofNat', hByte, Nat.mul_add_mod, Nat.mod_eq_of_lt hv]
  rw [hpEncInt]
  split
  · rename_i hSmall
    rw [List.singleton_append, hpInt, hLow (by omega)]
    exact if_pos hSmall
  · rename_i hLarge
    rw [List.cons_append, hpInt, hLow (by omega)]
    rw [if_neg (Nat.lt_irrefl _), hpIntRest_encRest 5 rest Nat.one_pos (by omega) (by omega)]
    congr 2
    omega

theorem hpEncInt_head {value nbits pattern : Nat} (rest : Bytes) :
    ∃ v < 2 ^ nbits, ∃ tail, hpEncInt value nbits pattern ++ rest = UInt8.ofNat (pattern + v) :: tail := by
  have hPos : 0 < 2 ^ nbits := Nat.two_pow_pos nbits
  rw [hpEncInt]
  split
  · exact ⟨value, by omega, rest, rfl⟩
  · exact ⟨2 ^ nbits - 1, by omega, _, rfl⟩

/-! ## Strings -/

/-- The part of a string that its encoded length covers. -/
def lengthSent (s : Bytes) : Nat := s.length % 2 ^ 32

theorem readString_encStr {cap : Nat} {s : Bytes} (hCap : lengthSent s ≤ cap) (rest : Bytes) :
    readString cap (hpEncStr s ++ rest) = some (s.take (lengthSent s), s.drop (lengthSent s) ++ rest) := by
  have hLe : lengthSent s ≤ s.length := Nat.mod_le _ _
  have hRead : hpInt 7 (hpEncStr s ++ rest) = some (lengthSent s, s ++ rest) := by
    rw [hpEncStr, List.append_assoc]
    exact hpInt_encInt (Nat.mod_lt _ (by decide)) (Nat.dvd_zero _) (by decide) _
  obtain ⟨v, hv, tail, hHead⟩ := @hpEncInt_head (lengthSent s) 7 0 (s ++ rest)
  have hBytes : hpEncStr s ++ rest = UInt8.ofNat (0 + v) :: tail := by
    rw [hpEncStr, List.append_assoc]
    exact hHead
  have hOctet : (UInt8.ofNat (0 + v)).toNat = v := by
    rw [UInt8.toNat_ofNat']
    omega
  rw [hBytes] at hRead ⊢
  rw [readString]
  rw [hRead]
  dsimp only
  rw [if_neg (by rw [List.length_append]; omega), if_neg (by omega), List.take_append_of_le_length hLe,
    List.drop_append_of_le_length hLe]

theorem readString_short {cap : Nat} {s : Bytes} (hCap : s.length ≤ cap) (hShort : s.length < 2 ^ 32)
    (rest : Bytes) :
    readString cap (hpEncStr s ++ rest) = some (s, rest) := by
  have hLength : lengthSent s = s.length := Nat.mod_eq_of_lt hShort
  rw [readString_encStr (by omega), hLength, List.take_of_length_le (Nat.le_refl _),
    List.drop_of_length_le (Nat.le_refl _),
    List.nil_append]

/-! ## Fields -/

theorem hpStaticIndex_lookup (hp : Hpack) {name : Bytes} (h : hpStaticIndex name ≠ 0) :
    hpStaticIndex name ≤ 61 ∧ ∃ e, hpLookup hp (hpStaticIndex name) = some e ∧ e.name = name := by
  rw [hpStaticIndex] at h ⊢
  cases hFind : hpackStaticTable.findIdx? fun e => e.name == name with
  | none =>
    rw [hFind] at h
    exact absurd rfl h
  | some i =>
    obtain ⟨hLt, hName, _⟩ := List.findIdx?_eq_some_iff_getElem.mp hFind
    have hLength : hpackStaticTable.length = 61 := by decide
    dsimp only
    refine ⟨by omega, hpackStaticTable[i], ?_, beq_iff_eq.mp hName⟩
    rw [hpLookup, if_pos (by omega), Nat.add_sub_cancel, List.getElem?_eq_getElem hLt]

theorem readRepresentation_literal {cap idx : Nat} {hp : Hpack} (anyField : Bool) {tail rest : Bytes}
    {e : Field}
    (h : readLiteral cap hp 4 (hpEncInt idx 4 0 ++ tail) = some (e, rest)) :
    readRepresentation cap hp anyField (hpEncInt idx 4 0 ++ tail) = (hp, some (some e, rest)) := by
  obtain ⟨v, hv, tail', hHead⟩ := @hpEncInt_head idx 4 0 tail
  have hOctet : (UInt8.ofNat (0 + v)).toNat = v := by
    rw [UInt8.toNat_ofNat']
    omega
  rw [hHead] at h ⊢
  rw [readRepresentation, hOctet, if_neg (by omega), if_neg (by omega), if_neg (by omega), h]

theorem readLiteral_spelled {cap : Nat} (hCap : 2 ^ 32 ≤ cap) (hp : Hpack) {name : Bytes}
    (hName : name.length < 2 ^ 32)
    (value rest : Bytes) :
    readLiteral cap hp 4 (hpEncInt 0 4 0 ++ (hpEncStr name ++ (hpEncStr value ++ rest))) =
      some (⟨name, value.take (lengthSent value)⟩, value.drop (lengthSent value) ++ rest) := by
  have hSent : lengthSent value < 2 ^ 32 := Nat.mod_lt _ (by decide)
  rw [readLiteral, hpInt_encInt (by decide) (Nat.dvd_zero _) (by decide)]
  dsimp only
  rw [if_pos rfl, readString_short (by omega) hName]
  dsimp only
  rw [readString_encStr (by omega)]
  rfl

theorem readLiteral_indexed {cap : Nat} (hCap : 2 ^ 32 ≤ cap) (hp : Hpack) {name : Bytes}
    (hIdx : hpStaticIndex name ≠ 0)
    (value rest : Bytes) :
    readLiteral cap hp 4 (hpEncInt (hpStaticIndex name) 4 0 ++ (hpEncStr value ++ rest)) =
      some (⟨name, value.take (lengthSent value)⟩, value.drop (lengthSent value) ++ rest) := by
  have hSent : lengthSent value < 2 ^ 32 := Nat.mod_lt _ (by decide)
  obtain ⟨hLe, e, hLookup, rfl⟩ := hpStaticIndex_lookup hp hIdx
  rw [readLiteral, hpInt_encInt (by omega) (Nat.dvd_zero _) (by decide)]
  dsimp only
  rw [if_neg hIdx, hLookup, Option.map_some]
  dsimp only
  rw [readString_encStr (by omega)]
  rfl

theorem readRepresentation_field {cap : Nat} (hCap : 2 ^ 32 ≤ cap) (hp : Hpack) (anyField : Bool)
    {name : Bytes}
    (hName : name.length < 2 ^ 32) (value rest : Bytes) :
    readRepresentation cap hp anyField (hpackEncodeField name value ++ rest) =
      (hp, some (some ⟨name, value.take (lengthSent value)⟩, value.drop (lengthSent value) ++ rest)) := by
  rw [hpackEncodeField]
  split
  · rw [List.append_assoc, List.append_assoc]
    exact readRepresentation_literal anyField (readLiteral_spelled hCap hp hName value rest)
  · rename_i hIdx
    rw [List.append_assoc]
    exact readRepresentation_literal anyField (readLiteral_indexed hCap hp hIdx value rest)

def statusField (status : Nat) : Field := ⟨ascii ":status", decimal status⟩

theorem readRepresentation_status {cap : Nat} (hCap : 2 ^ 32 ≤ cap) (hp : Hpack) {status : Nat}
    (hShort : (decimal status).length < 2 ^ 32) (rest : Bytes) :
    readRepresentation cap hp false (hpackEncodeStatus status ++ rest) =
      (hp, some (some (statusField status), rest)) := by
  rw [hpackEncodeStatus.eq_def]
  split
  · rfl
  · rfl
  · rfl
  · rfl
  · rfl
  · rfl
  · rfl
  · have hLength : lengthSent (decimal status) = (decimal status).length := Nat.mod_eq_of_lt hShort
    have hLiteral := @readLiteral_spelled cap hCap hp (ascii ":status") (by decide) (decimal status) rest
    rw [hLength, List.take_of_length_le (Nat.le_refl _), List.drop_of_length_le (Nat.le_refl _),
      List.nil_append] at hLiteral
    rw [List.append_assoc, List.append_assoc]
    exact readRepresentation_literal false hLiteral

/-! ## Blocks -/

def encodeFields (fields : List Field) : Bytes := fields.flatMap fun e => hpackEncodeField e.name e.value

/-- A field whose two lengths have 32 bits. -/
def ShortField (e : Field) : Prop := e.name.length < 2 ^ 32 ∧ e.value.length < 2 ^ 32

theorem encodeFields_cons (e : Field) (fields : List Field) :
    encodeFields (e :: fields) = hpackEncodeField e.name e.value ++ encodeFields fields := List.flatMap_cons

theorem readLoop_step {cap fuel : Nat} {hp hp' : Hpack} {fields : List Field} {e : Field} {p rest : Bytes}
    (h : readRepresentation cap hp (!fields.isEmpty) p = (hp', some (some e, rest))) :
    readLoop cap (fuel + 1) hp fields p = readLoop cap fuel hp' (fields ++ [e]) rest := by
  cases p with
  | nil => cases h
  | cons b p =>
    rw [readLoop, h]
    simp

theorem readLoop_prefix {cap : Nat} (fuel : Nat) : ∀ {hp : Hpack} {fields out : List Field} {p : Bytes},
    readLoop cap fuel hp fields p = some out → fields <+: out := by
  induction fuel with
  | zero =>
    intro hp fields out p h
    cases p with
    | nil => exact Option.some.inj h ▸ List.prefix_refl _
    | cons b p => cases h
  | succ fuel ih =>
    intro hp fields out p h
    cases p with
    | nil => exact Option.some.inj h ▸ List.prefix_refl _
    | cons b p =>
      rw [readLoop] at h
      · rcases hRead : readRepresentation cap hp (!fields.isEmpty) (b :: p) with ⟨hp', _ | ⟨_ | e, rest⟩⟩
        · rw [hRead] at h
          cases h
        · rw [hRead] at h
          exact ih h
        · rw [hRead] at h
          exact (List.prefix_append _ _).trans (ih h)
      · simp

theorem readLoop_fields {cap : Nat} (hCap : 2 ^ 32 ≤ cap) (hp : Hpack) (fuel : Nat) (rest : Bytes)
    (fields : List Field) :
    ∀ done, (∀ e ∈ fields, ShortField e) →
      readLoop cap (fuel + fields.length) hp done (encodeFields fields ++ rest) = readLoop cap fuel hp
        (done ++ fields) rest := by
  induction fields with
  | nil =>
    intro done _
    rw [List.append_nil]
    rfl
  | cons e fields ih =>
    intro done hShort
    obtain ⟨hName, hValue⟩ := hShort e List.mem_cons_self
    have hLength : lengthSent e.value = e.value.length := Nat.mod_eq_of_lt hValue
    have hRead := readRepresentation_field hCap hp (!done.isEmpty) hName e.value (encodeFields fields ++ rest)
    rw [hLength, List.take_of_length_le (Nat.le_refl _), List.drop_of_length_le (Nat.le_refl _),
      List.nil_append] at hRead
    rw [encodeFields_cons, List.append_assoc, List.length_cons, ← Nat.add_assoc, readLoop_step hRead,
      ih _ fun k hk => hShort k (List.mem_cons_of_mem _ hk), List.append_assoc]
    rfl

theorem hpEncInt_ne_nil (value nbits pattern : Nat) : hpEncInt value nbits pattern ≠ [] := by
  rw [hpEncInt]
  split
  · exact List.cons_ne_nil _ _
  · exact List.cons_ne_nil _ _

theorem length_le_encodeFields (fields : List Field) : fields.length ≤ (encodeFields fields).length := by
  induction fields with
  | nil => exact Nat.le_refl _
  | cons e fields ih =>
    have hPos : 0 < (hpackEncodeField e.name e.value).length := by
      rw [hpackEncodeField]
      have hFirst := fun idx => List.length_pos_iff.mpr (hpEncInt_ne_nil idx 4 0)
      split
      · rw [List.length_append, List.length_append]
        have hZero := hFirst 0
        omega
      · rw [List.length_append]
        have hIdx := hFirst (hpStaticIndex e.name)
        omega
    rw [encodeFields_cons, List.length_append, List.length_cons]
    omega

theorem hpackEncodeStatus_length_pos (status : Nat) : 0 < (hpackEncodeStatus status).length := by
  rw [hpackEncodeStatus.eq_def]
  split
  · decide
  · decide
  · decide
  · decide
  · decide
  · decide
  · decide
  · rw [List.length_append, List.length_append]
    have hFirst := List.length_pos_iff.mpr (hpEncInt_ne_nil 0 4 0)
    omega

theorem readBlock_start {cap : Nat} (hCap : 2 ^ 32 ≤ cap) (hp : Hpack) {status : Nat}
    (hStatus : (decimal status).length < 2 ^ 32) {fields : List Field}
    (hShort : ∀ e ∈ fields, ShortField e) (rest : Bytes) :
    ∃ fuel, rest.length ≤ fuel ∧
      readBlock cap hp (hpackEncodeStatus status ++ (encodeFields fields ++ rest)) =
        readLoop cap fuel hp (statusField status :: fields) rest := by
  have hFields := length_le_encodeFields fields
  have hPos := hpackEncodeStatus_length_pos status
  obtain ⟨fuel, hFuel⟩ : ∃ fuel, (hpackEncodeStatus status ++ (encodeFields fields ++ rest)).length =
      fuel + fields.length + 1 := by
    refine ⟨(hpackEncodeStatus status ++ (encodeFields fields ++ rest)).length - fields.length - 1, ?_⟩
    rw [List.length_append, List.length_append]
    omega
  refine ⟨fuel, ?_, ?_⟩
  · rw [List.length_append, List.length_append] at hFuel
    omega
  · rw [readBlock, hFuel, readLoop_step (readRepresentation_status hCap hp hStatus _), List.nil_append,
      readLoop_fields hCap hp fuel rest fields [statusField status] hShort]
    rfl

theorem readBlock_encoded {cap : Nat} (hCap : 2 ^ 32 ≤ cap) (hp : Hpack) {status : Nat}
    (hStatus : (decimal status).length < 2 ^ 32) {fields : List Field} (hShort : ∀ e ∈ fields, ShortField e) :
    readBlock cap hp (hpackEncodeStatus status ++ encodeFields fields) = some
      (statusField status :: fields) := by
  obtain ⟨fuel, _, hRead⟩ := readBlock_start hCap hp hStatus hShort []
  rw [List.append_nil] at hRead
  rw [hRead]
  cases fuel with
  | zero => rfl
  | succ fuel => rfl

theorem readBlock_cut {cap : Nat} (hCap : 2 ^ 32 ≤ cap) (hp : Hpack) {status : Nat}
    (hStatus : (decimal status).length < 2 ^ 32) {fields behind out : List Field}
    (hShort : ∀ e ∈ fields, ShortField e)
    {e : Field} (hName : e.name.length < 2 ^ 32)
    (h : readBlock cap hp (hpackEncodeStatus status ++ encodeFields (fields ++ e :: behind)) = some out) :
    statusField status :: fields ++ [⟨e.name, e.value.take (lengthSent e.value)⟩] <+: out := by
  have hSplit : encodeFields (fields ++ e :: behind) =
      encodeFields fields ++ (hpackEncodeField e.name e.value ++ encodeFields behind) := by
    rw [encodeFields, List.flatMap_append, List.flatMap_cons]
    rfl
  obtain ⟨fuel, hFuel, hRead⟩ :=
    readBlock_start hCap hp hStatus hShort (hpackEncodeField e.name e.value ++ encodeFields behind)
  have hOne := length_le_encodeFields (e :: behind)
  rw [encodeFields_cons, List.length_cons] at hOne
  obtain ⟨fuel, rfl⟩ : ∃ k, fuel = k + 1 := ⟨fuel - 1, by omega⟩
  rw [hSplit, hRead,
    readLoop_step (readRepresentation_field hCap hp _ hName e.value (encodeFields behind))] at h
  exact readLoop_prefix fuel h

end Cweb.Hpack
