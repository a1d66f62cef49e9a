import Cweb.Http.HpackRead

/-!
# What the encoder writes the decoder reads

A block of a status and fields within the decoder's own limit on strings comes
back as it was, whatever the decoder has in its dynamic table. The table stays
as it is.
-/

namespace Cweb.Hpack

open HpackTable Sv

/-! ## Strings and literals within the limit -/

theorem hpString_encStr {s : Bytes} (h : s.length ≤ hpackMaxStringLen) (rest : Bytes) :
    hpString (hpEncStr s ++ rest) = some (s, rest) := by
  have hShort : s.length < 2 ^ 32 := lt_of_le_of_lt h (by decide)
  exact readString_short h hShort rest

theorem hpLiteral_spelled (hp : Hpack) {name value : Bytes} (hName : name.length ≤ hpackMaxStringLen)
    (hValue : value.length ≤ hpackMaxStringLen) (rest : Bytes) :
    hpLiteral hp 4 (hpEncInt 0 4 0 ++ (hpEncStr name ++ (hpEncStr value ++ rest))) = some
      (⟨name, value⟩, rest) := by
  rw [hpLiteral, hpInt_encInt (by decide) (Nat.dvd_zero _) (by decide)]
  dsimp only
  rw [if_pos rfl, hpString_encStr hName]
  dsimp only
  rw [hpString_encStr hValue]
  rfl

theorem hpLiteral_indexed (hp : Hpack) {name value : Bytes} (hIdx : hpStaticIndex name ≠ 0)
    (hValue : value.length ≤ hpackMaxStringLen) (rest : Bytes) :
    hpLiteral hp 4 (hpEncInt (hpStaticIndex name) 4 0 ++ (hpEncStr value ++ rest)) = some
      (⟨name, value⟩, rest) := by
  obtain ⟨hLe, e, hLookup, rfl⟩ := hpStaticIndex_lookup hp hIdx
  rw [hpLiteral, hpInt_encInt (by omega) (Nat.dvd_zero _) (by decide)]
  dsimp only
  rw [if_neg hIdx, hLookup, Option.map_some]
  dsimp only
  rw [hpString_encStr hValue]
  rfl

theorem hpRepresentation_literal {idx : Nat} {hp : Hpack} (anyField : Bool) {tail rest : Bytes} {e : Field}
    (h : hpLiteral hp 4 (hpEncInt idx 4 0 ++ tail) = some (e, rest)) :
    hpRepresentation hp anyField (hpEncInt idx 4 0 ++ tail) = (hp, some (some e, rest)) :=
  @readRepresentation_literal hpackMaxStringLen idx hp anyField tail rest e h

/-- The two lengths are within the decoder's limit. -/
def WithinLimit (e : Field) : Prop := e.name.length ≤ hpackMaxStringLen ∧ e.value.length ≤ hpackMaxStringLen

theorem hpRepresentation_field (hp : Hpack) (anyField : Bool) {e : Field} (h : WithinLimit e) (rest : Bytes) :
    hpRepresentation hp anyField (hpackEncodeField e.name e.value ++ rest) = (hp, some (some e, rest)) := by
  obtain ⟨hName, hValue⟩ := h
  rw [hpackEncodeField]
  split
  · rw [List.append_assoc, List.append_assoc]
    exact hpRepresentation_literal anyField (hpLiteral_spelled hp hName hValue rest)
  · rename_i hIdx
    rw [List.append_assoc]
    exact hpRepresentation_literal anyField (hpLiteral_indexed hp hIdx hValue rest)

theorem hpRepresentation_status (hp : Hpack) {status : Nat} (h : status ≤ 999) (rest : Bytes) :
    hpRepresentation hp false (hpackEncodeStatus status ++ rest) =
      (hp, some (some (statusField status), rest)) := by
  rw [hpackEncodeStatus.eq_def]
  split
  · rfl
  · rfl
  · rfl
  · rfl
  · rfl
  · rfl
  · rfl
  · rw [List.append_assoc, List.append_assoc]
    have hName : (ascii ":status").length ≤ hpackMaxStringLen := by decide
    exact hpRepresentation_literal false
      (hpLiteral_spelled hp hName ((length_decimal_le h).trans (by decide)) rest)

/-! ## Blocks -/

theorem hpDecodeLoop_step {fuel : Nat} {hp hp' : Hpack} {fields : List Field} {e : Field} {p rest : Bytes}
    (h : hpRepresentation hp (!fields.isEmpty) p = (hp', some (some e, rest))) :
    hpDecodeLoop (fuel + 1) hp fields p = hpDecodeLoop fuel hp' (fields ++ [e]) rest := by
  cases p with
  | nil => cases h
  | cons b p =>
    rw [hpDecodeLoop, h]
    simp

theorem hpDecodeLoop_fields (hp : Hpack) (fuel : Nat) (fields : List Field) :
    ∀ done, (∀ e ∈ fields, WithinLimit e) →
    hpDecodeLoop (fuel + fields.length) hp done (encodeFields fields) = (hp, some (done ++ fields)) := by
  induction fields with
  | nil =>
    intro done _
    rw [List.append_nil]
    cases fuel <;> rfl
  | cons e fields ih =>
    intro done h
    rw [encodeFields_cons, List.length_cons, ← Nat.add_assoc,
      hpDecodeLoop_step (hpRepresentation_field hp _ (h e List.mem_cons_self) _),
      ih _ fun e he => h e (List.mem_cons_of_mem _ he), List.append_assoc, List.singleton_append]

/-- The block of a status and fields is read back by any decoder, which stays as
it was. -/
theorem hpackDecodeBlock_encode (hp : Hpack) {status : Nat} (hStatus : status ≤ 999)
    {fields : List Field} (hFields : ∀ e ∈ fields, WithinLimit e) :
    hpackDecodeBlock hp (hpackEncodeStatus status ++ encodeFields fields) =
      (hp, some (statusField status :: fields)) := by
  have hPos := hpackEncodeStatus_length_pos status
  have hLength := length_le_encodeFields fields
  rw [hpackDecodeBlock, List.length_append]
  obtain ⟨fuel, hFuel⟩ : ∃ fuel, (hpackEncodeStatus status).length + (encodeFields fields).length =
      fuel + fields.length + 1 :=
        ⟨(hpackEncodeStatus status).length + (encodeFields fields).length - fields.length - 1, by omega⟩
  rw [hFuel, hpDecodeLoop_step (hpRepresentation_status hp hStatus _),
    hpDecodeLoop_fields hp fuel fields _ hFields]
  rfl

/-- A status that is spelled out, a name of the static table and one that is
not. -/
theorem hpackDecodeBlock_encode_created :
    hpackDecodeBlock hpackInit (hpackEncodeStatus 201 ++
        encodeFields [⟨ascii "content-type", ascii "text/html"⟩, ⟨ascii "x-empty", []⟩]) =
      (hpackInit,
        some [⟨ascii ":status", ascii "201"⟩, ⟨ascii "content-type", ascii "text/html"⟩,
          ⟨ascii "x-empty", []⟩]) := by
  have hFields : ∀ e ∈
    ([⟨ascii "content-type", ascii "text/html"⟩, ⟨ascii "x-empty", []⟩] : List HpackTable.Field),
      WithinLimit e := by
    simp only [WithinLimit, List.forall_mem_cons]
    decide
  exact @hpackDecodeBlock_encode hpackInit 201 (by decide) _ hFields

end Cweb.Hpack
