import Cweb.Utils.JsonTokens

/-!
# The parser and the grammar

A text is accepted exactly when the grammar reads it as a tree that is not too
deep, and what is built is built from that tree. Since the parser can as well
build the tree itself, there is at most one.
-/

namespace Cweb.Json

open Sv JsonText

/-- The tree that is built from the tree of a text. -/
def Builder.build (b : Builder ν) (tree : JsonValue Bytes) : JsonValue ν :=
  tree.rebuild b.number b.text fun members => members.foldl (fun done e => b.set done e.1 e.2) []

/-! ## What may follow -/

theorem skipWs_close {ws : Bytes} (h : Ws ws) {c : UInt8} (hc : isWs c = false) (rest : Bytes) :
    skipWs (ws ++ c :: rest) = c :: rest := by
  refine skipWs_of_ws h ?_
  intro d hd
  cases hd
  exact hc

theorem skipWs_ws {ws : Bytes} (h : Ws ws) : skipWs ws = [] := by
  have hNone := @skipWs_of_ws ws h [] nofun
  rwa [List.append_nil] at hNone

theorem follows_cons {c : UInt8} (h : isdigit c = false ∧ c ≠ 46 ∧ c ≠ 101 ∧ c ≠ 69) (rest : Bytes) :
    Follows (c :: rest) := by
  intro d hd
  cases hd
  exact h

theorem follows_of_ws {ws : Bytes} (h : Ws ws) {rest : Bytes} (hRest : Follows rest) :
    Follows (ws ++ rest) := by
  cases ws with
  | nil => exact hRest
  | cons c ws =>
    have hWs := h c List.mem_cons_self
    simp only [isWs, Bool.or_eq_true, beq_iff_eq] at hWs
    refine follows_cons ?_ (ws ++ rest)
    rcases hWs with ((rfl | rfl) | rfl) | rfl
    · decide
    · decide
    · decide
    · decide

/-! ## Elements -/

theorem listed_singleton {γ : Type} (bytes : γ → Bytes) (p : γ × Bytes) :
    listed bytes [p] = bytes p.1 ++ p.2 :=
  @Segments.text_singleton UInt8 44 _

theorem listed_cons {γ : Type} (bytes : γ → Bytes) (p : γ × Bytes) {pieces : List (γ × Bytes)}
    (h : pieces ≠ []) :
    listed bytes (p :: pieces) = bytes p.1 ++ (p.2 ++ 44 :: listed bytes pieces) := by
  rw [listed, List.map_cons, commas, Segments.text_cons (mt List.map_eq_nil_iff.mp h), List.append_assoc]
  rfl

theorem length_listed {γ : Type} (bytes : γ → Bytes) (pieces : List (γ × Bytes)) :
    pieces.length ≤ (listed bytes pieces).length + 1 := by
  induction pieces with
  | nil => exact Nat.zero_le _
  | cons p pieces ih =>
    rcases eq_or_ne pieces [] with rfl | hMore
    · exact Nat.le_add_left 1 _
    · rw [listed_cons bytes p hMore]
      simp only [List.length_append, List.length_cons]
      omega

section Elements

variable {α σ γ : Type} {element : Bytes → Parsed α} {add : σ → α →
  σ} {close : UInt8} {unterminated expected : Bytes}
  {bytes : γ → Bytes} {val : γ → α}

theorem elementsLoop_complete (hClose : close ≠ 44 ∧ isWs close = false)
    (hEnds : isdigit close = false ∧ close ≠ 46 ∧ close ≠ 101 ∧ close ≠ 69) (pieces : List (γ × Bytes)) :
    ∀ (fuel : Nat) (done : σ) (rest : Bytes), pieces ≠ [] → pieces.length ≤ fuel → (∀ p ∈ pieces, Ws p.2) →
      (∀ p ∈ pieces, ∀ rest, Follows rest → element (bytes p.1 ++ rest) = .ok (val p.1, rest)) →
      elementsLoop element add close unterminated expected fuel done (listed bytes pieces ++ close :: rest) =
        .ok (pieces.foldl (fun done p => add done (val p.1)) done, rest) := by
  induction pieces with
  | nil => exact fun _ _ _ h => absurd rfl h
  | cons p pieces ih =>
    intro fuel done rest _ hFuel hWs hElement
    rw [List.length_cons] at hFuel
    obtain ⟨fuel, rfl⟩ : ∃ fuel', fuel = fuel' + 1 := ⟨fuel - 1, by omega⟩
    have hAfter := hWs p List.mem_cons_self
    have hHere := hElement p List.mem_cons_self
    rcases eq_or_ne pieces [] with rfl | hMore
    · rw [listed_singleton, List.append_assoc, elementsLoop,
        hHere _ (follows_of_ws hAfter (follows_cons hEnds rest))]
      dsimp only
      rw [skipWs_close hAfter hClose.2]
      dsimp only
      rw [if_neg hClose.1, if_pos rfl]
      rfl
    · rw [listed_cons bytes p hMore, List.append_assoc, List.append_assoc, List.cons_append, elementsLoop,
        hHere _ (follows_of_ws hAfter (follows_cons (by decide) _))]
      dsimp only
      rw [skipWs_close hAfter (by decide)]
      dsimp only
      rw [if_pos rfl]
      exact ih fuel _ rest hMore (by omega) (fun q hq => hWs q (List.mem_cons_of_mem _ hq))
        fun q hq => hElement q (List.mem_cons_of_mem _ hq)

theorem elementsLoop_sound {Q : γ → Prop}
    (hElement : ∀ s x rest, element s = .ok (x, rest) → ∃ p, s = bytes p ++ rest ∧ Q p ∧ x = val p)
    (fuel : Nat) :
    ∀ (done out : σ)
    (s rest : Bytes), elementsLoop element add close unterminated expected fuel done s = .ok (out, rest) →
      ∃ pieces : List (γ × Bytes), pieces ≠ [] ∧ s = listed bytes pieces ++ close :: rest ∧
        (∀ p ∈ pieces, Q p.1 ∧ Ws p.2) ∧
        out = pieces.foldl (fun done p => add done (val p.1)) done := by
  induction fuel with
  | zero => exact fun _ _ _ _ h => by cases h
  | succ fuel ih =>
    intro done out s rest h
    rw [elementsLoop] at h
    split at h
    · cases h
    · rename_i x left hParsed
      obtain ⟨p, rfl, hQ, rfl⟩ := hElement _ _ _ hParsed
      obtain ⟨ws, hLeft, hWs⟩ := skipWs_spec left
      split at h
      · cases h
      · rename_i c more hSkip
        rw [hSkip] at hLeft
        split at h
        · rename_i hComma
          obtain ⟨pieces, hSome, rfl, hPieces, rfl⟩ := ih _ _ _ _ h
          refine ⟨(p, ws) :: pieces, List.cons_ne_nil _ _, ?_,
            List.forall_mem_cons.mpr ⟨⟨hQ, hWs⟩, hPieces⟩, rfl⟩
          rw [listed_cons bytes (p, ws) hSome, hLeft, hComma]
          simp only [List.append_assoc, List.cons_append]
        · split at h
          · rename_i hEnd
            obtain ⟨rfl, rfl⟩ := Prod.mk.inj (Except.ok.inj h)
            refine ⟨[(p, ws)], List.cons_ne_nil _ _, ?_, List.forall_mem_singleton.mpr ⟨hQ, hWs⟩, rfl⟩
            rw [listed_singleton, List.append_assoc, hLeft, hEnd]
          · cases h

/-- An element may have white space in front of it, and does not start like the end. -/
structure Elementary (element : Bytes → Parsed α) (close : UInt8) : Prop where
  skip : ∀ s, element (skipWs s) = element s
  refuse : ∀ s rest x left, skipWs s = close :: rest → element s ≠ .ok (x, left)

theorem elementsLoop_skipWs (h : Elementary element close) (fuel : Nat) (done : σ) (s : Bytes) :
    elementsLoop element add close unterminated expected (fuel + 1) done (skipWs s) =
      elementsLoop element add close unterminated expected (fuel + 1) done s := by
  rw [elementsLoop, elementsLoop, h.skip]

theorem parseElements_eq (element : Bytes → Parsed α) (add : σ → α → σ) (close : UInt8)
    (unterminated expected : Bytes)
    (empty : σ) (s : Bytes) : parseElements element add close unterminated expected empty s =
      if (skipWs s).head? = some close then .ok (empty, (skipWs s).drop 1)
      else elementsLoop element add close unterminated expected (s.length + 1) empty (skipWs s) := by
  rw [parseElements]
  cases skipWs s with
  | nil => rfl
  | cons c rest =>
    rcases eq_or_ne c close with rfl | hNe
    · exact (if_pos rfl).trans (if_pos rfl).symm
    · exact (if_neg hNe).trans (if_neg fun hEq => hNe (Option.some.inj hEq)).symm

theorem parseElements_empty {ws : Bytes} (hWs : Ws ws) (hClose : isWs close = false) (empty : σ)
    (rest : Bytes) :
    parseElements element add close unterminated expected empty (ws ++ close :: rest) = .ok
      (empty, rest) := by
  rw [parseElements_eq, skipWs_close hWs hClose]
  exact if_pos rfl

theorem parseElements_complete (h : Elementary element close) (hClose : close ≠ 44 ∧ isWs close = false)
    (hEnds : isdigit close = false ∧ close ≠ 46 ∧ close ≠ 101 ∧ close ≠ 69) {pieces : List (γ × Bytes)}
    (hSome : pieces ≠ [])
    (hWs : ∀ p ∈ pieces, Ws p.2)
    (hElement : ∀ p ∈ pieces, ∀ rest, Follows rest → element (bytes p.1 ++ rest) = .ok (val p.1, rest))
    (empty : σ)
    (rest : Bytes) :
    parseElements element add close unterminated expected empty (listed bytes pieces ++ close :: rest) =
      .ok (pieces.foldl (fun done p => add done (val p.1)) empty, rest) := by
  have hLoop : elementsLoop element add close unterminated expected
    ((listed bytes pieces ++ close :: rest).length + 1) empty
      (listed bytes pieces ++ close :: rest) = .ok
        (pieces.foldl (fun done p => add done (val p.1)) empty, rest) := by
    have hLength := length_listed bytes pieces
    refine elementsLoop_complete hClose hEnds pieces _ _ _ hSome ?_ hWs hElement
    rw [List.length_append]
    omega
  rw [parseElements_eq, if_neg, elementsLoop_skipWs h, hLoop]
  intro hHead
  obtain ⟨t, ht⟩ := List.head?_eq_some_iff.mp hHead
  rw [elementsLoop] at hLoop
  split at hLoop
  · cases hLoop
  · rename_i x left hParsed
    exact h.refuse _ _ _ _ ht hParsed

theorem parseElements_sound (h : Elementary element close) {Q : γ → Prop}
    (hElement : ∀ s x rest, element s = .ok (x, rest) → ∃ p, s = bytes p ++ rest ∧ Q p ∧ x = val p)
    {empty out : σ}
    {s rest : Bytes}
    (hParsed : parseElements element add close unterminated expected empty s = .ok (out, rest)) :
    (∃ ws, s = ws ++ close :: rest ∧ Ws ws ∧ out = empty) ∨
      ∃ pieces : List (γ × Bytes), pieces ≠ [] ∧ s = listed bytes pieces ++ close :: rest ∧
        (∀ p ∈ pieces, Q p.1 ∧ Ws p.2) ∧
        out = pieces.foldl (fun done p => add done (val p.1)) empty := by
  rw [parseElements_eq] at hParsed
  split at hParsed
  · rename_i hHead
    obtain ⟨t, ht⟩ := List.head?_eq_some_iff.mp hHead
    obtain ⟨ws, hSplit, hWs⟩ := skipWs_spec s
    rw [ht] at hParsed hSplit
    obtain ⟨rfl, rfl⟩ := Prod.mk.inj (Except.ok.inj hParsed)
    exact .inl ⟨ws, hSplit, hWs, rfl⟩
  · rw [elementsLoop_skipWs h] at hParsed
    exact .inr (elementsLoop_sound hElement _ _ _ _ _ hParsed)

end Elements

/-! ## Members -/

theorem skipWs_skipWs (s : Bytes) : skipWs (skipWs s) = skipWs s := by
  rw [skipWs_eq, skipWs_eq, List.dropWhile_idempotent]

theorem parseKey_complete {before keyText key after : Bytes} (hBefore : Ws before)
    (hKey : Chars keyText key) (hAfter : Ws after)
    (rest : Bytes) :
    parseKey (before ++ 34 :: (keyText ++ 34 :: (after ++ 58 :: rest))) = .ok (key, rest) := by
  rw [parseKey, skipWs_close hBefore (by decide), if_neg fun hNot => hNot rfl,
    (parseStringRaw_ok_iff _ (after ++ 58 :: rest) key).mpr ⟨keyText, rfl, hKey⟩]
  dsimp only
  rw [skipWs_close hAfter (by decide)]
  rfl

theorem parseKey_sound {s key rest : Bytes} (h : parseKey s = .ok (key, rest)) : ∃ before keyText after,
    s = before ++ 34 :: (keyText ++ 34 :: (after ++ 58 :: rest)) ∧ Ws before ∧ Chars keyText key ∧
      Ws after := by
  rw [parseKey] at h
  obtain ⟨before, hSplit, hBefore⟩ := skipWs_spec s
  split at h
  · cases h
  · split at h
    · cases h
    · rename_i k left hParsed
      obtain ⟨keyText, hText, hChars⟩ := (parseStringRaw_ok_iff _ _ _).mp hParsed
      obtain ⟨after, hLeft, hAfter⟩ := skipWs_spec left
      split at h
      · cases h
      · rename_i c more hSkip
        split at h
        · rename_i hColon
          obtain ⟨rfl, rfl⟩ := Prod.mk.inj (Except.ok.inj h)
          rw [hSkip, hColon] at hLeft
          refine ⟨before, keyText, after, ?_, hBefore, hChars, hAfter⟩
          rw [hSplit, hText, hLeft]
        · cases h

theorem ok_of_map {α β : Type} {x : Except Bytes α} {f : α → β} {y : β} (h : x.map f = .ok y) :
    ∃ a, x = .ok a ∧ y = f a := by
  cases x with
  | error why => cases h
  | ok a => exact ⟨a, rfl, (Except.ok.inj h).symm⟩

theorem parseMember_elementary (value : Bytes → Parsed (JsonValue ν)) :
    Elementary (parseMember value) 125 where
  skip := by
    intro s
    rw [parseMember, parseMember, parseKey, parseKey, skipWs_skipWs]
  refuse := by
    intro s rest x left hSkip hParsed
    have hHead : (125 :: rest : Bytes).head? ≠ some 34 := fun hEq => absurd (Option.some.inj hEq) (by decide)
    rw [parseMember, parseKey, hSkip, if_pos hHead] at hParsed
    cases hParsed

theorem parseMember_complete {value : Bytes → Parsed (JsonValue ν)} {m : Member}
    (hWs : Ws m.before ∧ Ws m.after)
    (hKey : Chars m.keyText m.key) {v : JsonValue ν} {rest : Bytes}
    (hValue : value (m.item.bytes ++ rest) = .ok (v, rest)) :
    parseMember value (m.bytes ++ rest) = .ok ((m.key, v), rest) := by
  have hBytes : m.bytes ++ rest = m.before ++
    34 :: (m.keyText ++ 34 :: (m.after ++ 58 :: (m.item.bytes ++ rest))) := by
    rw [Member.bytes]
    simp only [List.append_assoc, List.cons_append]
  rw [hBytes, parseMember, parseKey_complete hWs.1 hKey hWs.2]
  dsimp only
  rw [hValue]
  rfl

theorem parseMember_sound {value : Bytes → Parsed (JsonValue ν)} {build : JsonValue Bytes → JsonValue ν}
    {Q : Item → Prop}
    (hValue : ∀ s v rest, value s = .ok (v, rest) → ∃ i : Item, s = i.bytes ++ rest ∧ Q i ∧
      v = build i.value) (s : Bytes)
    (x : Bytes × JsonValue ν) (rest : Bytes) (h : parseMember value s = .ok (x, rest)) :
    ∃ m : Member, s = m.bytes ++ rest ∧ (Ws m.before ∧ Ws m.after ∧ Chars m.keyText m.key ∧ Q m.item) ∧
      x = (m.key, build m.item.value) := by
  rw [parseMember] at h
  split at h
  · cases h
  · rename_i key left hKey
    obtain ⟨before, keyText, after, rfl, hBefore, hChars, hAfter⟩ := parseKey_sound hKey
    obtain ⟨⟨v, end'⟩, hParsed, hEq⟩ := ok_of_map h
    obtain ⟨rfl, rfl⟩ := Prod.mk.inj hEq
    obtain ⟨i, rfl, hQ, rfl⟩ := hValue _ _ _ hParsed
    refine ⟨⟨before, keyText, key, after, i⟩, ?_, ⟨hBefore, hAfter, hChars, hQ⟩, rfl⟩
    rw [Member.bytes]
    simp only [List.append_assoc, List.cons_append]

/-! ## Values -/

theorem parseValue_skipWs (b : Builder ν) (levels : Nat) (s : Bytes) :
    parseValue b levels (skipWs s) = parseValue b levels s := by
  cases levels with
  | zero => rfl
  | succ levels => rw [parseValue, parseValue, skipWs_skipWs]

theorem parseValue_elementary (b : Builder ν) (levels : Nat) : Elementary (parseValue b levels) 93 where
  skip := parseValue_skipWs b levels
  refuse := by
    intro s rest x left hSkip hParsed
    cases levels with
    | zero => cases hParsed
    | succ levels =>
      rw [parseValue, hSkip] at hParsed
      cases hParsed

theorem build_array (b : Builder ν) (items : List (Item × Bytes)) :
    b.build (.array (items.map fun i => i.1.value)) = .array (items.map fun i => b.build i.1.value) := by
  rw [Builder.build, Value.rebuild_array, List.map_map]
  rfl

theorem build_object (b : Builder ν) (members : List (Member × Bytes)) :
    b.build (.object (members.map fun m => (m.1.key, m.1.item.value))) =
      .object (members.foldl (fun done m => b.set done m.1.key (b.build m.1.item.value)) []) := by
  rw [Builder.build, Value.rebuild_object, List.map_map, List.foldl_map]
  rfl

theorem foldl_concat {α β : Type} (f : α → β) (xs : List α) : ∀ done : List β,
    xs.foldl (fun done x => done ++ [f x]) done = done ++ xs.map f := by
  induction xs with
  | nil => exact fun done => (List.append_nil done).symm
  | cons x xs ih =>
    intro done
    rw [List.foldl_cons, ih, List.append_assoc]
    rfl

theorem parseWord_ok_iff {word s rest : Bytes} {v w : JsonValue ν} :
    parseWord word v s = .ok (w, rest) ↔ s = word ++ rest ∧ w = v := by
  rw [parseWord]
  constructor
  · intro h
    split at h
    · rename_i hPrefix
      obtain ⟨t, rfl⟩ := List.isPrefixOf_iff_prefix.mp hPrefix
      rw [List.drop_left] at h
      obtain ⟨rfl, rfl⟩ := Prod.mk.inj (Except.ok.inj h)
      exact ⟨rfl, rfl⟩
    · cases h
  · rintro ⟨rfl, rfl⟩
    rw [if_pos (List.isPrefixOf_iff_prefix.mpr (List.prefix_append _ _)), List.drop_left]

theorem within_of_childless {v : JsonValue ν} (h : v.children = []) (n : Nat) : v.Within n := by
  cases n with
  | zero => exact h
  | succ n =>
    rw [Value.Within, h]
    exact fun c hc => absurd hc List.not_mem_nil

theorem within_of_children {v : JsonValue ν} {levels : Nat} (hSome : v.children ≠ [])
    (h : ∀ c ∈ v.children, ∃ n, levels = n + 1 ∧ c.Within n) : v.Within levels := by
  obtain ⟨c, children, hChildren⟩ := List.exists_cons_of_ne_nil hSome
  obtain ⟨n, rfl, _⟩ := h c (hChildren ▸ List.mem_cons_self)
  intro d hd
  obtain ⟨m, hm, hWithin⟩ := h d hd
  rwa [← Nat.succ.inj hm] at hWithin

/-- A value has been read that is within some levels. -/
def Reading (b : Builder ν) (levels : Nat) (s : Bytes) (v : JsonValue ν) (rest : Bytes) : Prop :=
  ∃ text tree, s = text ++ rest ∧ IsValue Accepted text tree ∧ tree.Within levels ∧ v = b.build tree

/-- What an item is when its value has been parsed. -/
def Fine (levels : Nat) (i : Item) : Prop :=
  Ws i.before ∧ IsValue Accepted i.text i.value ∧ ∃ n, levels = n + 1 ∧ i.value.Within n

section Containers

variable {b : Builder ν} {levels : Nat} {s rest : Bytes} {v : JsonValue ν}
  (hValue : ∀ s v rest, parseValue b levels s = .ok (v, rest) →
    ∃ i : Item, s = i.bytes ++ rest ∧ Fine levels i ∧ v = b.build i.value)

include hValue

theorem parseArray_sound (h : parseArray (parseValue b levels) s = .ok (v, rest)) :
    Reading b levels (91 :: s) v rest := by
  obtain ⟨⟨out, left⟩, hParsed, hEq⟩ := ok_of_map h
  obtain ⟨rfl, rfl⟩ := Prod.mk.inj hEq
  rcases parseElements_sound (parseValue_elementary b levels) hValue hParsed with
    ⟨ws, rfl, hWs, rfl⟩ | ⟨items, hSome, rfl, hItems, rfl⟩
  · exact ⟨_, _, by simp, .emptyArray hWs, within_of_childless rfl levels, rfl⟩
  · have hIs : IsValue Accepted (91 :: (listed Item.bytes items ++ [93]))
      (.array (items.map fun i => i.1.value)) :=
      .array hSome (fun i hi => ⟨(hItems i hi).1.1, (hItems i hi).2⟩) fun i hi => (hItems i hi).1.2.1
    refine ⟨_, _, by simp, hIs, within_of_children ?_ ?_, ?_⟩
    · exact mt List.map_eq_nil_iff.mp hSome
    · intro c hc
      obtain ⟨i, hi, rfl⟩ := List.mem_map.mp hc
      exact (hItems i hi).1.2.2
    · rw [build_array, foldl_concat, List.nil_append]

theorem parseObject_sound (h : parseObject b (parseValue b levels) s = .ok (v, rest)) :
    Reading b levels (123 :: s) v rest := by
  obtain ⟨⟨out, left⟩, hParsed, hEq⟩ := ok_of_map h
  obtain ⟨rfl, rfl⟩ := Prod.mk.inj hEq
  rcases parseElements_sound (parseMember_elementary (parseValue b levels))
    (parseMember_sound hValue) hParsed with
    ⟨ws, rfl, hWs, rfl⟩ | ⟨members, hSome, rfl, hMembers, rfl⟩
  · exact ⟨_, _, by simp, .emptyObject hWs, within_of_childless rfl levels, rfl⟩
  · have hWs : ∀ m ∈ members, Ws m.1.before ∧ Ws m.1.after ∧ Ws m.1.item.before ∧ Ws m.2 :=
      fun m hm => ⟨(hMembers m hm).1.1, (hMembers m hm).1.2.1, (hMembers m hm).1.2.2.2.1, (hMembers m hm).2⟩
    have hIs : IsValue Accepted (123 :: (listed Member.bytes members ++ [125]))
        (.object (members.map fun m => (m.1.key, m.1.item.value))) :=
      .object hSome hWs (fun m hm => (hMembers m hm).1.2.2.1) fun m hm => (hMembers m hm).1.2.2.2.2.1
    refine ⟨_, _, by simp, hIs, within_of_children ?_ ?_, ?_⟩
    · exact mt List.map_eq_nil_iff.mp (mt List.map_eq_nil_iff.mp hSome)
    · intro c hc
      rw [Value.children, List.map_map] at hc
      obtain ⟨m, hm, rfl⟩ := List.mem_map.mp hc
      exact (hMembers m hm).1.2.2.2.2.2
    · rw [build_object]

end Containers

theorem parseValue_sound (b : Builder ν) (levels : Nat) : ∀ (s : Bytes) (v : JsonValue ν) (rest : Bytes),
    parseValue b levels s = .ok (v, rest) → ∃ i : Item, s = i.bytes ++ rest ∧ Fine levels i ∧
      v = b.build i.value := by
  induction levels with
  | zero => exact fun _ _ _ h => by cases h
  | succ levels ih =>
    intro s v rest h
    rw [parseValue] at h
    obtain ⟨ws, hSplit, hWs⟩ := skipWs_spec s
    cases hSkip : skipWs s with
    | nil =>
      rw [hSkip] at h
      cases h
    | cons c t =>
      rw [hSkip] at h hSplit
      dsimp only at h
      have hReading : Reading b levels (c :: t) v rest := by
        split at h
        · rename_i hBrace
          rw [hBrace]
          exact parseObject_sound ih h
        · split at h
          · rename_i hBracket
            rw [hBracket]
            exact parseArray_sound ih h
          · split at h
            · obtain ⟨⟨out, left⟩, hParsed, hEq⟩ := ok_of_map h
              obtain ⟨rfl, rfl⟩ := Prod.mk.inj hEq
              obtain ⟨text, hText, hChars⟩ := (parseStringRaw_ok_iff _ _ _).mp hParsed
              exact ⟨34 :: (text ++ [34]), .string out, by
                simp [hText], .string hChars, within_of_childless rfl levels, rfl⟩
            · split at h
              · obtain ⟨hText, rfl⟩ := parseWord_ok_iff.mp h
                exact ⟨_, _, hText, .null, within_of_childless rfl levels, rfl⟩
              · split at h
                · obtain ⟨hText, rfl⟩ := parseWord_ok_iff.mp h
                  exact ⟨_, _, hText, .true, within_of_childless rfl levels, rfl⟩
                · split at h
                  · obtain ⟨hText, rfl⟩ := parseWord_ok_iff.mp h
                    exact ⟨_, _, hText, .false, within_of_childless rfl levels, rfl⟩
                  · split at h
                    · obtain ⟨lexeme, hText, hNumber, rfl⟩ := parseNumber_sound h
                      exact ⟨_, _, hText, .number hNumber, within_of_childless rfl levels, rfl⟩
                    · cases h
      obtain ⟨text, tree, hText, hIs, hWithin, rfl⟩ := hReading
      refine ⟨⟨ws, text, tree⟩, ?_, ⟨hWs, hIs, levels, rfl, hWithin⟩, rfl⟩
      rw [hSplit, hText, Item.bytes, List.append_assoc]

/-! ## The grammar is accepted -/

theorem accepted_head {s : Bytes} (h : Accepted s) : ∃ c t, s = c :: t ∧ (c = 45 ∨ isdigit c = true) := by
  obtain ⟨sign, int, frac, exp, rfl, hSign, ⟨hSome, hDigits⟩, _, _⟩ := h.1
  obtain ⟨d, int, rfl⟩ := List.exists_cons_of_ne_nil hSome
  rcases hSign with rfl | rfl
  · exact ⟨d, _, rfl, .inr (hDigits d List.mem_cons_self)⟩
  · exact ⟨45, _, rfl, .inl rfl⟩

theorem parseValue_number (b : Builder ν) (levels : Nat) {c : UInt8} (h : c = 45 ∨ isdigit c = true)
    {ws : Bytes} (hWs : Ws ws)
    (rest : Bytes) : parseValue b (levels + 1) (ws ++ c :: rest) = parseNumber b.number (c :: rest) := by
  have hNot : ∀ d : UInt8, d ≠ 45 → isdigit d = false → c ≠ d := by
    rintro d hMinus hDigit rfl
    rcases h with hEq | hTrue
    · exact hMinus hEq
    · rw [hDigit] at hTrue
      cases hTrue
  have hBlank : isWs c = false := by
    rw [isWs, beq_false_of_ne (hNot 32 (by decide) (by decide)),
      beq_false_of_ne (hNot 9 (by decide) (by decide)),
      beq_false_of_ne (hNot 10 (by decide) (by decide)), beq_false_of_ne (hNot 13 (by decide) (by decide))]
    rfl
  rw [parseValue, skipWs_close hWs hBlank]
  dsimp only
  rw [if_neg (hNot 123 (by decide) (by decide)), if_neg (hNot 91 (by decide) (by decide)),
    if_neg (hNot 34 (by decide) (by decide)), if_neg (hNot 110 (by decide) (by decide)),
    if_neg (hNot 116 (by decide) (by decide)), if_neg (hNot 102 (by decide) (by decide)), if_pos h]

theorem parseArray_complete (b : Builder ν) {levels : Nat} {items : List (Item × Bytes)} (hSome : items ≠ [])
    (hWs : ∀ i ∈ items, Ws i.2)
    (hValue : ∀ i ∈ items, ∀ rest, Follows rest →
      parseValue b levels (i.1.bytes ++ rest) = .ok (b.build i.1.value, rest))
    (rest : Bytes) : parseArray (parseValue b levels) (listed Item.bytes items ++ 93 :: rest) =
      .ok (b.build (.array (items.map fun i => i.1.value)), rest) := by
  rw [parseArray, @parseElements_complete _ _ _ (parseValue b levels) _ 93 _ _ Item.bytes
    (fun i => b.build i.value)
    (parseValue_elementary b levels) (by decide) (by decide) _ hSome hWs hValue, build_array,
    foldl_concat, List.nil_append]
  rfl

theorem parseObject_complete (b : Builder ν) {levels : Nat} {members : List (Member × Bytes)}
    (hSome : members ≠ [])
    (hWs : ∀ m ∈ members, (Ws m.1.before ∧ Ws m.1.after) ∧ Ws m.2)
    (hKeys : ∀ m ∈ members, Chars m.1.keyText m.1.key)
    (hValue : ∀ m ∈ members, ∀ rest, Follows rest →
      parseValue b levels (m.1.item.bytes ++ rest) = .ok (b.build m.1.item.value, rest)) (rest : Bytes) :
    parseObject b (parseValue b levels) (listed Member.bytes members ++ 125 :: rest) =
      .ok (b.build (.object (members.map fun m => (m.1.key, m.1.item.value))), rest) := by
  have hMember : ∀ m ∈ members, ∀ rest, Follows rest →
      parseMember (parseValue b levels) (m.1.bytes ++ rest) = .ok ((m.1.key, b.build m.1.item.value), rest) :=
    fun m hm rest hFollows => parseMember_complete (hWs m hm).1 (hKeys m hm) (hValue m hm rest hFollows)
  rw [parseObject, @parseElements_complete _ _ _ (parseMember (parseValue b levels)) _ 125 _ _ Member.bytes
    (fun m => (m.key, b.build m.item.value)) (parseMember_elementary _) (by decide) (by decide) _ hSome
    (fun m hm => (hWs m hm).2) hMember, build_object]
  rfl

theorem parseValue_child {b : Builder ν} {parent : JsonValue Bytes} {levels : Nat}
    (hWithin : parent.Within levels) {i : Item}
    (hChild : i.value ∈ parent.children) (hWs : Ws i.before)
    (hRead : ∀ (levels : Nat) (ws rest : Bytes), Ws ws → i.value.Within levels → Follows rest →
      parseValue b (levels + 1) (ws ++ (i.text ++ rest)) = .ok (b.build i.value, rest)) (rest : Bytes)
      (hFollows : Follows rest) :
    parseValue b levels (i.bytes ++ rest) = .ok (b.build i.value, rest) := by
  cases levels with
  | zero =>
    rw [Value.Within] at hWithin
    rw [hWithin] at hChild
    exact absurd hChild List.not_mem_nil
  | succ levels =>
    rw [Item.bytes, List.append_assoc]
    exact hRead levels _ rest hWs (hWithin _ hChild) hFollows

theorem parseValue_complete (b : Builder ν) {text : Bytes} {tree : JsonValue Bytes}
    (h : IsValue Accepted text tree) :
    ∀ (levels : Nat) (ws rest : Bytes), Ws ws → tree.Within levels → Follows rest →
      parseValue b (levels + 1) (ws ++ (text ++ rest)) = .ok (b.build tree, rest) := by
  induction h with
  | null =>
    intro levels ws rest hWs _ _
    rw [List.cons_append, parseValue, skipWs_close hWs (by decide)]
    change parseWord (ascii "null") .null (ascii "null" ++ rest) = _
    exact parseWord_ok_iff.mpr ⟨rfl, rfl⟩
  | true =>
    intro levels ws rest hWs _ _
    rw [List.cons_append, parseValue, skipWs_close hWs (by decide)]
    change parseWord (ascii "true") (.bool true) (ascii "true" ++ rest) = _
    exact parseWord_ok_iff.mpr ⟨rfl, rfl⟩
  | false =>
    intro levels ws rest hWs _ _
    rw [List.cons_append, parseValue, skipWs_close hWs (by decide)]
    change parseWord (ascii "false") (.bool false) (ascii "false" ++ rest) = _
    exact parseWord_ok_iff.mpr ⟨rfl, rfl⟩
  | number hNumber =>
    intro levels ws rest hWs _ hFollows
    obtain ⟨c, t, rfl, hHead⟩ := accepted_head hNumber
    rw [List.cons_append, parseValue_number b levels hHead hWs]
    exact parseNumber_complete b.number hNumber hFollows
  | @string text out hChars =>
    intro levels ws rest hWs _ _
    rw [List.cons_append, parseValue, skipWs_close hWs (by decide), List.append_assoc]
    change (parseStringRaw (34 :: (text ++ 34 :: rest))).map _ = _
    rw [(parseStringRaw_ok_iff _ rest out).mpr ⟨text, rfl, hChars⟩]
    rfl
  | @emptyArray ws' hWs' =>
    intro levels ws rest hWs _ _
    rw [List.cons_append, parseValue, skipWs_close hWs (by decide), List.append_assoc]
    change parseArray (parseValue b levels) (ws' ++ 93 :: rest) = _
    rw [parseArray, parseElements_empty hWs' (by decide)]
    rfl
  | @array items hSome hWs' _ ih =>
    intro levels ws rest hWs hWithin _
    rw [List.cons_append, parseValue, skipWs_close hWs (by decide), List.append_assoc]
    change parseArray (parseValue b levels) (listed Item.bytes items ++ 93 :: rest) = _
    refine parseArray_complete b hSome (fun i hi => (hWs' i hi).2) (fun i hi => ?_) rest
    exact parseValue_child hWithin (List.mem_map_of_mem hi) (hWs' i hi).1 (ih i hi)
  | @emptyObject ws' hWs' =>
    intro levels ws rest hWs _ _
    rw [List.cons_append, parseValue, skipWs_close hWs (by decide), List.append_assoc]
    change parseObject b (parseValue b levels) (ws' ++ 125 :: rest) = _
    rw [parseObject, parseElements_empty hWs' (by decide)]
    rfl
  | @object members hSome hWs' hKeys _ ih =>
    intro levels ws rest hWs hWithin _
    rw [List.cons_append, parseValue, skipWs_close hWs (by decide), List.append_assoc]
    change parseObject b (parseValue b levels) (listed Member.bytes members ++ 125 :: rest) = _
    refine parseObject_complete b hSome
      (fun m hm => ⟨⟨(hWs' m hm).1, (hWs' m hm).2.1⟩, (hWs' m hm).2.2.2⟩) hKeys (fun m hm => ?_) rest
    have hChild : m.1.item.value ∈ Value.children
      (.object (members.map fun m => (m.1.key, m.1.item.value))) := by
      rw [Value.children, List.map_map]
      exact List.mem_map_of_mem hm
    exact parseValue_child hWithin hChild (hWs' m hm).2.2.1 (ih m hm)

/-! ## Whole texts -/

/-- A tree that a text is read as, not too deep. -/
def Reads (s : Bytes) (tree : JsonValue Bytes) : Prop := IsText Accepted s tree ∧ tree.Within jsonMaxDepth

theorem parseWhole_ok_iff (b : Builder ν) (s : Bytes) (v : JsonValue ν) :
    parseWhole b s = .ok v ↔ ∃ tree, Reads s tree ∧ v = b.build tree := by
  constructor
  · intro h
    rw [parseWhole, parseValue_skipWs] at h
    split at h
    · cases h
    · rename_i root left hParsed
      obtain ⟨i, rfl, ⟨hWs, hIs, n, hLevels, hWithin⟩, rfl⟩ := parseValue_sound b _ _ _ _ hParsed
      obtain ⟨after, hLeft, hAfter⟩ := skipWs_spec left
      obtain rfl : jsonMaxDepth = n := Nat.succ.inj hLevels
      split at h
      · rename_i hEnd
        rw [hEnd, List.append_nil] at hLeft
        obtain rfl := Except.ok.inj h
        refine ⟨i.value,
          ⟨⟨i.before, i.text, left, List.append_assoc _ _ _, hWs, hLeft ▸ hAfter, hIs⟩, hWithin⟩, rfl⟩
      · cases h
  · rintro ⟨tree, ⟨⟨before, text, after, rfl, hBefore, hAfter, hIs⟩, hWithin⟩, rfl⟩
    have hFollows : Follows after := by
      have hEnd := follows_of_ws hAfter (show Follows [] from nofun)
      rwa [List.append_nil] at hEnd
    rw [parseWhole, parseValue_skipWs,
      parseValue_complete b hIs jsonMaxDepth before after hBefore hWithin hFollows]
    dsimp only
    rw [skipWs_ws hAfter]
    rfl

/-- A builder that leaves everything as it is. -/
def plain : Builder Bytes := ⟨id, id, fun members key v => members ++ [(key, v)]⟩

theorem build_plain (tree : JsonValue Bytes) : plain.build tree = tree := by
  induction tree using Value.ind with
  | null => rfl
  | bool b => rfl
  | number n => rfl
  | string s => rfl
  | array items ih =>
    rw [Builder.build, Value.rebuild_array]
    exact congrArg Value.array ((List.map_congr_left ih).trans (List.map_id items))
  | object members ih =>
    have hEach : members.map (fun e => (e.1, plain.build e.2)) = members.map id := by
      refine List.map_congr_left fun e he => ?_
      rw [ih e he]
      rfl
    rw [Builder.build, Value.rebuild_object]
    refine congrArg Value.object ((foldl_concat (@id (Bytes × JsonValue Bytes)) _ []).trans ?_)
    rw [List.nil_append, List.map_id]
    exact hEach.trans (List.map_id members)

theorem Reads.unique {s : Bytes} {tree tree' : JsonValue Bytes} (h : Reads s tree)
    (h' : Reads s tree') : tree = tree' := by
  have hFirst := (parseWhole_ok_iff plain s tree).mpr ⟨tree, h, (build_plain tree).symm⟩
  have hSecond := (parseWhole_ok_iff plain s tree').mpr ⟨tree', h', (build_plain tree').symm⟩
  exact Except.ok.inj (hFirst.symm.trans hSecond)

end Cweb.Json
