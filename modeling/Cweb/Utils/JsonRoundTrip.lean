import Cweb.Utils.JsonMeaning

/-!
# What is written

The text that is written for a tree is one of the grammar, compact or with white
space, and the tree that it is read as holds the texts of the numbers. So parsing
it gives the tree back.
-/

namespace Cweb.Json

open Sv JsonText

/-! ## Strings -/

theorem hexValue_hexDigitChar {d : Nat} (h : d < 16) : JsonText.hexValue (hexDigitChar d) = some d := by
  have hAll : ∀ d < 16, JsonText.hexValue (hexDigitChar d) = some d := by decide
  exact hAll d h

theorem escape_control {c : UInt8} (h : c < 0x20) :
    Escape [117, 48, 48, hexDigitChar (c.toNat / 16), hexDigitChar (c.toNat % 16)] [c] := by
  have hLess : c.toNat < 32 := h
  have hHex : IsHex4 [48, 48, hexDigitChar (c.toNat / 16), hexDigitChar (c.toNat % 16)] c.toNat :=
    ⟨48, 48, _, _, 0, 0, c.toNat / 16, c.toNat % 16, rfl, rfl, rfl, hexValue_hexDigitChar (by omega),
      hexValue_hexDigitChar (by omega),
      by omega⟩
  have hUtf8 : utf8 c.toNat = [c] := by
    rw [← utf8Append_eq (by rw [Nat.isValidChar]; omega), utf8Append, if_pos (by omega), UInt8.ofNat_toNat]
  rw [← hUtf8]
  exact .unicode hHex (by rw [High]; omega) (by rw [Low]; omega)

theorem serChar_cases (c : UInt8) :
    (serChar c = [c] ∧ 32 ≤ c ∧ c ≠ 34 ∧ c ≠ 92) ∨ ∃ e, serChar c = 92 :: e ∧ Escape e [c] := by
  unfold serChar
  split_ifs with hQuote hBackslash hB hF hN hR hT hControl
  · exact .inr ⟨_, rfl, .short (by subst hQuote; decide)⟩
  · exact .inr ⟨_, rfl, .short (by subst hBackslash; decide)⟩
  · exact .inr ⟨_, rfl, .short (by subst hB; decide)⟩
  · exact .inr ⟨_, rfl, .short (by subst hF; decide)⟩
  · exact .inr ⟨_, rfl, .short (by subst hN; decide)⟩
  · exact .inr ⟨_, rfl, .short (by subst hR; decide)⟩
  · exact .inr ⟨_, rfl, .short (by subst hT; decide)⟩
  · exact .inr ⟨_, rfl, escape_control hControl⟩
  · exact .inl ⟨rfl, UInt8.not_lt.mp hControl, hQuote, hBackslash⟩

theorem chars_serChar (s : Bytes) : Chars (s.flatMap serChar) s := by
  induction s with
  | nil => exact .nil
  | cons c s ih =>
    rw [List.flatMap_cons]
    rcases serChar_cases c with ⟨hRaw, hPlain⟩ | ⟨e, hEscaped, hEscape⟩
    · rw [hRaw]
      exact .raw hPlain ih
    · rw [hEscaped]
      exact .escape hEscape ih

/-! ## White space -/

theorem ws_lead (spaces : Int) (depth : Nat) : Ws (lead spaces depth) := by
  intro c hc
  unfold lead at hc
  split at hc
  · rw [indent] at hc
    rcases List.mem_cons.mp hc with rfl | hSpace
    · rfl
    · rw [List.eq_of_mem_replicate hSpace]
      rfl
  · exact absurd hc List.not_mem_nil

theorem listed_trailing {γ : Type} (bytes : γ → Bytes) {ws : Bytes} (hWs : Ws ws) {xs : List γ}
    (hSome : xs ≠ []) :
    ∃ pieces : List (γ × Bytes), pieces.map Prod.fst = xs ∧ (∀ p ∈ pieces, Ws p.2) ∧
      listed bytes pieces = commas (xs.map bytes) ++ ws := by
  induction xs with
  | nil => exact absurd rfl hSome
  | cons x xs ih =>
    rcases eq_or_ne xs [] with rfl | hMore
    · refine ⟨[(x, ws)], rfl, List.forall_mem_singleton.mpr hWs, ?_⟩
      rw [listed_singleton, List.map_singleton, commas, Segments.text_singleton]
    · obtain ⟨pieces, rfl, hPieces, hText⟩ := ih hMore
      have hPiecesSome : pieces ≠ [] := mt (fun h => h ▸ rfl) hMore
      refine ⟨(x, []) :: pieces, rfl, List.forall_mem_cons.mpr ⟨List.forall_mem_nil _, hPieces⟩, ?_⟩
      rw [listed_cons bytes _ hPiecesSome, hText, List.map_cons, commas, commas,
        Segments.text_cons (mt List.map_eq_nil_iff.mp hMore), List.append_assoc]
      rfl

theorem isValue_array {number : Bytes → Prop} {items : List Item} (hSome : items ≠ []) {ws : Bytes}
    (hEnd : Ws ws)
    (hWs : ∀ i ∈ items, Ws i.before) (hValues : ∀ i ∈ items, IsValue number i.text i.value) :
    IsValue number (91 :: (commas (items.map Item.bytes) ++ (ws ++ [93])))
      (.array (items.map Item.value)) := by
  obtain ⟨pieces, rfl, hPieces, hText⟩ := listed_trailing Item.bytes hEnd hSome
  have hPiecesSome : pieces ≠ [] := mt (fun h => h ▸ rfl) hSome
  rw [← List.append_assoc, ← hText, List.map_map]
  exact .array hPiecesSome (fun p hp => ⟨hWs _ (List.mem_map_of_mem hp), hPieces p hp⟩) fun p hp =>
    hValues _ (List.mem_map_of_mem hp)

theorem isValue_object {number : Bytes → Prop} {members : List Member} (hSome : members ≠ [])
    {ws : Bytes} (hEnd : Ws ws)
    (hWs : ∀ m ∈ members, Ws m.before ∧ Ws m.after ∧ Ws m.item.before)
    (hKeys : ∀ m ∈ members, Chars m.keyText m.key)
    (hValues : ∀ m ∈ members, IsValue number m.item.text m.item.value) :
    IsValue number (123 :: (commas (members.map Member.bytes) ++ (ws ++ [125])))
      (.object (members.map fun m => (m.key, m.item.value))) := by
  obtain ⟨pieces, rfl, hPieces, hText⟩ := listed_trailing Member.bytes hEnd hSome
  have hPiecesSome : pieces ≠ [] := mt (fun h => h ▸ rfl) hSome
  rw [← List.append_assoc, ← hText, List.map_map]
  refine .object hPiecesSome (fun p hp => ?_) (fun p hp => hKeys _ (List.mem_map_of_mem hp)) fun p hp =>
    hValues _ (List.mem_map_of_mem hp)
  obtain ⟨hBefore, hAfter, hItem⟩ := hWs _ (List.mem_map_of_mem hp)
  exact ⟨hBefore, hAfter, hItem, hPieces p hp⟩

/-! ## Trees -/

/-- Printing gives a number of the RFC that fits the buffer, and reading it gives the
number back. -/
structure Printing (finite : ν → Prop) (print : ν → Bytes) (strtod : Bytes → ν) : Prop where
  number {n : ν} : finite n → IsNumber JsonText.Whole (print n)
  short {n : ν} : finite n → (print n).length ≤ 63
  inverse {n : ν} : finite n → strtod (print n) = n

/-- Numbers are finite, strings and keys are C strings, and the keys of an object are
distinct. -/
def WellFormed (finite : ν → Prop) (v : JsonValue ν) : Prop := v.Every finite (fun s => 0 ∉ s) List.Nodup

section RoundTrip

variable {finite : ν → Prop} {print : ν → Bytes} {strtod : Bytes → ν}

def written (print : ν → Bytes) (v : JsonValue ν) : JsonValue Bytes := v.rebuild print id id

theorem Printing.accepted (h : Printing finite print strtod) {n : ν} (hn : finite n) : Accepted (print n) :=
  ⟨((whole_iff _).mp (h.number hn)).1, h.short hn⟩

theorem Printing.svFromCstr_take (h : Printing finite print strtod) {n : ν} (hn : finite n) :
    svFromCstr ((print n).take 63) = print n := by
  rw [List.take_of_length_le (h.short hn), svFromCstr_of_not_mem (isNumber_not_mem_zero (h.accepted hn).1)]

theorem isValue_serString {s : Bytes} (h : 0 ∉ s) : IsValue Accepted (serString s) (.string s) := by
  rw [serString, svFromCstr_of_not_mem h]
  exact .string (chars_serChar s)

/-! ## Containers -/

theorem serItems_eq (spaces : Int) (depth : Nat) (items : List (JsonValue ν)) :
    serItems print spaces depth items = items.map fun v => lead spaces depth ++ ser print spaces depth v := by
  induction items with
  | nil => rw [serItems, List.map_nil]
  | cons v items ih => rw [serItems, ih, List.map_cons]

theorem serMembers_eq (spaces : Int) (depth : Nat) (members : List (Bytes × JsonValue ν)) :
    serMembers print spaces depth members = members.map fun e => lead spaces depth ++
      (serString e.1 ++ ((if 0 < spaces then ascii ": " else ascii ":") ++ ser print spaces depth e.2)) := by
  induction members with
  | nil => rw [serMembers, List.map_nil]
  | cons e members ih => rw [serMembers, ih, List.map_cons]

theorem written_array (items : List (JsonValue ν)) :
    written print (.array items) = .array (items.map (written print)) :=
  Value.rebuild_array print id id items

theorem written_object (members : List (Bytes × JsonValue ν)) :
    written print (.object members) = .object (members.map fun e => (e.1, written print e.2)) :=
  Value.rebuild_object print id id members

def itemOf (print : ν → Bytes) (spaces : Int) (depth : Nat) (v : JsonValue ν) : Item :=
  ⟨lead spaces depth, ser print spaces depth v, written print v⟩

def memberOf (print : ν → Bytes) (spaces : Int) (depth : Nat) (e : Bytes × JsonValue ν) : Member :=
  ⟨lead spaces depth, e.1.flatMap serChar, e.1, [],
    ⟨if 0 < spaces then [32] else [], ser print spaces depth e.2, written print e.2⟩⟩

theorem memberOf_bytes (spaces : Int) (depth : Nat) {e : Bytes × JsonValue ν} (h : 0 ∉ e.1) :
    (memberOf print spaces depth e).bytes = lead spaces depth ++
      (serString e.1 ++ ((if 0 < spaces then ascii ": " else ascii ":") ++ ser print spaces depth e.2)) := by
  have hColon : (if 0 < spaces then ascii ": " else ascii ":") = 58 :: (if 0 < spaces then [32] else []) := by
    split
    · rfl
    · rfl
  rw [hColon, serString, svFromCstr_of_not_mem h, Member.bytes]
  simp only [memberOf, Item.bytes, List.cons_append, List.append_assoc, List.nil_append]

theorem isValue_serArray (spaces : Int) (depth : Nat) {items : List (JsonValue ν)}
    (h : ∀ v ∈ items, IsValue Accepted (ser print spaces (depth + 1) v) (written print v)) :
    IsValue Accepted (ser print spaces depth (.array items)) (written print (.array items)) := by
  rw [ser, serItems_eq, written_array]
  rcases eq_or_ne items [] with rfl | hSome
  · exact @IsValue.emptyArray Accepted [] (List.forall_mem_nil _)
  · have hArray :=
      @isValue_array Accepted (items.map (itemOf print spaces (depth + 1)))
        (mt List.map_eq_nil_iff.mp hSome) _
      (ws_lead spaces depth) (List.forall_mem_map.mpr fun _ _ => ws_lead spaces (depth + 1))
        (List.forall_mem_map.mpr h)
    rw [List.map_map, List.map_map] at hArray
    rw [if_neg hSome]
    exact hArray

theorem isValue_serObject (spaces : Int) (depth : Nat) {members : List (Bytes × JsonValue ν)}
    (hKeys : ∀ e ∈ members, 0 ∉ e.1)
    (h : ∀ e ∈ members, IsValue Accepted (ser print spaces (depth + 1) e.2) (written print e.2)) :
    IsValue Accepted (ser print spaces depth (.object members)) (written print (.object members)) := by
  have hBytes : members.map (Member.bytes ∘ memberOf print spaces (depth + 1)) = serMembers print spaces
    (depth + 1) members := by
    rw [serMembers_eq]
    exact List.map_congr_left fun e he => memberOf_bytes spaces (depth + 1) (hKeys e he)
  rw [ser, written_object]
  rcases eq_or_ne members [] with rfl | hSome
  · rw [serMembers]
    exact @IsValue.emptyObject Accepted [] (List.forall_mem_nil _)
  · have hColon : Ws (if 0 < spaces then [32] else []) := by
      split
      · exact List.forall_mem_singleton.mpr rfl
      · exact List.forall_mem_nil _
    have hObject :=
      @isValue_object Accepted (members.map (memberOf print spaces (depth + 1)))
        (mt List.map_eq_nil_iff.mp hSome) _
      (ws_lead spaces depth)
        (List.forall_mem_map.mpr fun _ _ => ⟨ws_lead spaces (depth + 1), List.forall_mem_nil _, hColon⟩)
      (List.forall_mem_map.mpr fun e _ => chars_serChar e.1) (List.forall_mem_map.mpr h)
    rw [List.map_map, List.map_map, hBytes] at hObject
    rw [if_neg hSome]
    exact hObject

/-- The text that is written is one of the grammar, whatever the white space. -/
theorem isValue_ser (hPrint : Printing finite print strtod) (spaces : Int) {v : JsonValue ν}
    (h : WellFormed finite v) :
    ∀ depth, IsValue Accepted (ser print spaces depth v) (written print v) := by
  induction h with
  | null => exact fun _ => by rw [ser]; exact .null
  | bool b =>
    intro depth
    rw [ser]
    cases b with
    | false => exact .false
    | true => exact .true
  | number hn =>
    intro depth
    rw [ser, hPrint.svFromCstr_take hn]
    exact .number (hPrint.accepted hn)
  | string hs =>
    intro depth
    rw [ser]
    exact isValue_serString hs
  | array _ ih => exact fun depth => isValue_serArray spaces depth fun v hv => ih v hv (depth + 1)
  | object hKeys _ _ ih =>
      exact fun depth => isValue_serObject spaces depth hKeys fun e he => ih e he (depth + 1)

theorem build_written (hPrint : Printing finite print strtod) {v : JsonValue ν} (h : WellFormed finite v) :
    (owned strtod).build (written print v) = v := by
  induction h with
  | null => rfl
  | bool b => rfl
  | number hn => exact congrArg Value.number (hPrint.inverse hn)
  | string hs => exact congrArg Value.string (svFromCstr_of_not_mem hs)
  | @array items _ ih =>
    rw [written_array, Builder.build, Value.rebuild_array, List.map_map]
    exact congrArg Value.array ((List.map_congr_left ih).trans (List.map_id items))
  | @object members hKeys hNodup _ ih =>
    have hEach : members.map (fun e => (svFromCstr e.1, (owned strtod).build (written print e.2))) =
      members.map id := by
      refine List.map_congr_left fun e he => ?_
      rw [svFromCstr_of_not_mem (hKeys e he), ih e he]
      rfl
    rw [written_object, build_owned_object, List.map_map]
    refine congrArg Value.object ((congrArg lastMembers (hEach.trans (List.map_id members))).trans ?_)
    exact lastMembers_of_nodup hNodup

/-- Writing a tree, compact or with any number of spaces, and parsing the text gives
the tree. -/
theorem json_round_trip (hPrint : Printing finite print strtod) (v : JsonValue ν)
    (hWithin : v.Within jsonMaxDepth)
    (hWell : WellFormed finite v) : jsonParse strtod (jsonSerialize print v) = .ok v ∧
      ∀ n : Int, jsonParse strtod (jsonSerializePretty print n v) = .ok v := by
  have hSer : ∀ spaces : Int, jsonParse strtod (ser print spaces 0 v) = .ok v := by
    intro spaces
    have hText : IsText Accepted (ser print spaces 0 v) (written print v) :=
      ⟨[], _, [], (List.append_nil _).symm, List.forall_mem_nil _, List.forall_mem_nil _,
        isValue_ser hPrint spaces hWell 0⟩
    refine (parseWhole_ok_iff _ _ _).mpr ⟨written print v, ⟨hText, Value.within_rebuild print id hWithin⟩, ?_⟩
    exact (build_written hPrint hWell).symm
  exact ⟨hSer 0, fun n => hSer _⟩

end RoundTrip

def printDigit (n : Nat) : Bytes := [UInt8.ofNat (48 + n)]

theorem printing_digit : Printing (· < 10) printDigit readDecimal where
  number := by
    intro n hn
    have hDigit : ∀ n < 10, isDigit (UInt8.ofNat (48 + n)) = true := by decide
    refine ⟨[], printDigit n, [], [], rfl, .inl rfl,
      ⟨⟨nofun, List.forall_mem_singleton.mpr (hDigit n hn)⟩, ?_⟩, .inl rfl, .inl rfl⟩
    intro hZero
    exact congrArg (fun c => [c]) (Option.some.inj hZero)
  short := fun _ => (show 1 ≤ 63 by decide)
  inverse := by
    intro n hn
    have hRead : ∀ n < 10, readDecimal (printDigit n) = n := by decide
    exact hRead n hn

/-- A tree with an escape and with containers in each other. -/
def nested : JsonValue Nat := .object [(ascii "k", .array [.number 7, .string [1, 34]])]

theorem json_round_trip_nested : jsonParse readDecimal (jsonSerialize printDigit nested) = .ok nested ∧
    ∀ n : Int, jsonParse readDecimal (jsonSerializePretty printDigit n nested) = .ok nested := by
  refine json_round_trip printing_digit nested ?_ ?_
  · intro c hc
    rw [List.mem_singleton.mp hc]
    exact List.forall_mem_cons.mpr
      ⟨within_of_childless rfl _, List.forall_mem_singleton.mpr (within_of_childless rfl _)⟩
  · refine .object (List.forall_mem_singleton.mpr (by decide)) (by decide) (List.forall_mem_singleton.mpr ?_)
    exact .array
      (List.forall_mem_cons.mpr ⟨.number (by decide), List.forall_mem_singleton.mpr (.string (by decide))⟩)

end Cweb.Json
