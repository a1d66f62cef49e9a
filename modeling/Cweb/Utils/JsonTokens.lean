import Cweb.Utils.Json

/-!
# The tokens of JSON texts

What the parser takes off a text as white space, as a string or as a number is
what the grammar says, and the other way round a token of the grammar is taken
off whole, whatever follows that could not go on with it.
-/

namespace Cweb.Json

open Sv JsonText

/-! ## White space -/

theorem skipWs_eq (s : Bytes) : skipWs s = s.dropWhile isWs := by
  have hTest : (fun c : UInt8 => decide (c = 32 ∨ c = 9 ∨ c = 10 ∨ c = 13)) = isWs := by
    funext c
    rw [isWs, Bool.or_assoc, Bool.or_assoc, Bool.decide_or, Bool.decide_or, Bool.decide_or]
    rfl
  rw [skipWs, hTest]

theorem skipWs_of_ws {ws : Bytes} (h : Ws ws) {s : Bytes} (hHead : ∀ c, s.head? = some c → isWs c = false) :
    skipWs (ws ++ s) = s := by
  rw [skipWs_eq, List.dropWhile_append_of_pos h]
  cases s with
  | nil => rfl
  | cons c s => exact List.dropWhile_cons_of_neg (Bool.not_eq_true _ ▸ hHead c rfl)

theorem skipWs_spec (s : Bytes) : ∃ ws, s = ws ++ skipWs s ∧ Ws ws := by
  rw [skipWs_eq]
  exact ⟨s.takeWhile isWs, List.takeWhile_append_dropWhile.symm, fun c hc => List.mem_takeWhile_imp hc⟩

/-! ## Escapes -/

theorem hexVal_eq (c : UInt8) : hexVal c = JsonText.hexValue c := by
  rw [hexVal, JsonText.hexValue]
  split
  · rfl
  · split
    · rename_i hLower
      have hLe := UInt8.le_iff_toNat_le.mp hLower.1
      congr 1
      change 97 ≤ c.toNat at hLe
      omega
    · split
      · rename_i hUpper
        have hLe := UInt8.le_iff_toNat_le.mp hUpper.1
        congr 1
        change 65 ≤ c.toNat at hLe
        omega
      · rfl

theorem hexValue_lt {c : UInt8} {x : Nat} (h : JsonText.hexValue c = some x) : x < 16 := by
  rw [JsonText.hexValue] at h
  split at h
  · rename_i hDigit
    have hLe := UInt8.le_iff_toNat_le.mp hDigit.2
    change c.toNat ≤ 57 at hLe
    have hx := Option.some.inj h
    omega
  · split at h
    · rename_i hLower
      have hLe := UInt8.le_iff_toNat_le.mp hLower.2
      change c.toNat ≤ 102 at hLe
      have hx := Option.some.inj h
      omega
    · split at h
      · rename_i hUpper
        have hLe := UInt8.le_iff_toNat_le.mp hUpper.2
        change c.toNat ≤ 70 at hLe
        have hx := Option.some.inj h
        omega
      · cases h

theorem shift_or {x y : Nat} (h : y < 16) : x <<< 4 ||| y = x * 16 + y := by
  rw [← Nat.shiftLeft_add_eq_or_of_lt h, Nat.shiftLeft_eq]

theorem parseHex4_ok_iff (s rest : Bytes) (u : Nat) : parseHex4 s = .ok (u, rest) ↔
    ∃ hex, s = hex ++ rest ∧ IsHex4 hex u := by
  constructor
  · intro h
    rw [parseHex4.eq_def] at h
    split at h
    · rename_i a b c d s
      split at h
      · rename_i x y z w hx hy hz hw
        rw [hexVal_eq] at hx hy hz hw
        rw [shift_or (hexValue_lt hy), shift_or (hexValue_lt hz), shift_or (hexValue_lt hw)] at h
        obtain ⟨rfl, rfl⟩ := Prod.mk.inj (Except.ok.inj h)
        exact ⟨[a, b, c, d], rfl, a, b, c, d, x, y, z, w, rfl, hx, hy, hz, hw, rfl⟩
      · cases h
    · cases h
  · rintro ⟨_, rfl, a, b, c, d, x, y, z, w, rfl, hx, hy, hz, hw, rfl⟩
    have hAll : [a, b, c, d] ++ rest = a :: b :: c :: d :: rest := rfl
    rw [hAll, parseHex4, hexVal_eq, hexVal_eq, hexVal_eq, hexVal_eq, hx, hy, hz, hw]
    dsimp only
    rw [shift_or (hexValue_lt hy), shift_or (hexValue_lt hz), shift_or (hexValue_lt hw)]

theorem or_low (a : Nat) {n x : Nat} (h : x < 2 ^ n) : a <<< n ||| x = x + a <<< n := by
  rw [← Nat.shiftLeft_add_eq_or_of_lt h, Nat.add_comm]

theorem low_six (x : Nat) : x &&& 0x3F = x % 0x40 := Nat.and_two_pow_sub_one_eq_mod x 6

theorem continuation (x : Nat) : 0x80 ||| x &&& 0x3F = x % 0x40 + 0x80 := by
  rw [low_six]
  have hLess : x % 0x40 < 2 ^ 6 := Nat.mod_lt x (by decide)
  exact or_low 2 hLess

theorem utf8Append_eq {cp : Nat} (h : Nat.isValidChar cp) : utf8Append cp = utf8 cp := by
  have hVal : (Char.ofNat cp).val.toNat = cp := by
    rw [Char.ofNat, dif_pos h]
    rfl
  have hLess : cp < 0x110000 := h.elim (fun hLow => by omega) And.right
  rw [utf8Append, utf8, String.utf8EncodeChar, hVal]
  simp only [continuation, Nat.shiftRight_eq_div_pow]
  rcases Nat.lt_or_ge cp 0x80 with hOne | hMore
  · rw [if_pos hOne, if_pos (Nat.le_of_lt_succ hOne)]
  · rw [if_neg (Nat.not_lt.mpr hMore), if_neg (Nat.not_le.mpr hMore)]
    rcases Nat.lt_or_ge cp 0x800 with hTwo | hMore
    · have hFirst : 0xC0 ||| cp / 2 ^ 6 = cp / 64 % 0x20 + 0xC0 := by
        rw [Nat.mod_eq_of_lt (by omega)]
        exact or_low 6 (show cp / 64 < 2 ^ 5 by omega)
      rw [if_pos hTwo, if_pos (Nat.le_of_lt_succ hTwo), hFirst]
    · rw [if_neg (Nat.not_lt.mpr hMore), if_neg (Nat.not_le.mpr hMore)]
      rcases Nat.lt_or_ge cp 0x10000 with hThree | hMore
      · have hFirst : 0xE0 ||| cp / 2 ^ 12 = cp / 4096 % 0x10 + 0xE0 := by
          rw [Nat.mod_eq_of_lt (by omega)]
          exact or_low 14 (show cp / 4096 < 2 ^ 4 by omega)
        rw [if_pos hThree, if_pos (Nat.le_of_lt_succ hThree), hFirst]
      · have hFirst : 0xF0 ||| cp / 2 ^ 18 = cp / 262144 % 0x08 + 0xF0 := by
          rw [Nat.mod_eq_of_lt (by omega)]
          exact or_low 30 (show cp / 262144 < 2 ^ 3 by omega)
        rw [if_neg (Nat.not_lt.mpr hMore), if_neg (Nat.not_le.mpr hMore), hFirst]

theorem hex4_lt {hex : Bytes} {u : Nat} (h : IsHex4 hex u) : u < 0x10000 := by
  obtain ⟨_, _, _, _, x, y, z, w, _, hx, hy, hz, hw, rfl⟩ := h
  have hx := hexValue_lt hx
  have hy := hexValue_lt hy
  have hz := hexValue_lt hz
  have hw := hexValue_lt hw
  omega

theorem utf8Append_unit {hex : Bytes} {u : Nat} (h : IsHex4 hex u) (hHigh : ¬ High u) (hLow : ¬ Low u) :
    utf8Append u = utf8 u := by
  have hLess := hex4_lt h
  rw [High] at hHigh
  rw [Low] at hLow
  exact utf8Append_eq (by rw [Nat.isValidChar]; omega)

theorem utf8Append_pair {hi lo : Nat} (hHigh : High hi) (hLow : Low lo) :
    utf8Append (0x10000 + (hi - 0xD800) <<< 10 + (lo - 0xDC00)) = utf8
      (0x10000 + (hi - 0xD800) * 0x400 + (lo - 0xDC00)) := by
  obtain ⟨_, hHi⟩ := hHigh
  obtain ⟨_, hLo⟩ := hLow
  rw [Nat.shiftLeft_eq]
  exact utf8Append_eq (by rw [Nat.isValidChar]; omega)

theorem parseLow_ok_iff {hi : Nat} (hHigh : High hi) (s rest out : Bytes) : parseLow hi s = .ok (out, rest) ↔
    ∃ low lo, s = 92 :: 117 :: (low ++ rest) ∧ IsHex4 low lo ∧ Low lo ∧
      out = utf8 (0x10000 + (hi - 0xD800) * 0x400 + (lo - 0xDC00)) := by
  constructor
  · intro h
    rw [parseLow.eq_def] at h
    split at h
    · split at h
      · cases h
      · rename_i lo left hSecond
        obtain ⟨low, rfl, hHex⟩ := (parseHex4_ok_iff _ _ _).mp hSecond
        split at h
        · rename_i hLow
          obtain ⟨rfl, rfl⟩ := Prod.mk.inj (Except.ok.inj h)
          exact ⟨low, lo, rfl, hHex, hLow, utf8Append_pair hHigh hLow⟩
        · cases h
    · cases h
  · rintro ⟨low, lo, rfl, hHex, hLow, hOut⟩
    rw [parseLow, (parseHex4_ok_iff _ rest lo).mpr ⟨low, rfl, hHex⟩, hOut, ← utf8Append_pair hHigh hLow]
    exact if_pos hLow

theorem parseUnicode_ok_iff (s rest out : Bytes) :
    parseUnicode s = .ok (out, rest) ↔ ∃ e, s = e ++ rest ∧ Escape (117 :: e) out := by
  constructor
  · intro h
    rw [parseUnicode] at h
    split at h
    · cases h
    · rename_i cp left hFirst
      obtain ⟨hex, rfl, hHex⟩ := (parseHex4_ok_iff _ _ _).mp hFirst
      split at h
      · rename_i hHigh
        obtain ⟨low, lo, rfl, hHex', hLow, hOut⟩ := (parseLow_ok_iff hHigh _ _ _).mp h
        refine ⟨hex ++ 92 :: 117 :: low, (List.append_assoc hex (92 :: 117 :: low) rest).symm, ?_⟩
        rw [hOut]
        exact .pair hHex hHigh hHex' hLow
      · rename_i hHigh
        split at h
        · cases h
        · rename_i hLow
          obtain ⟨rfl, rfl⟩ := Prod.mk.inj (Except.ok.inj h)
          refine ⟨hex, rfl, ?_⟩
          rw [utf8Append_unit hHex hHigh hLow]
          exact .unicode hHex hHigh hLow
  · rintro ⟨e, rfl, hEscape⟩
    rw [parseUnicode]
    cases hEscape with
    | short hMem =>
      have hShort : ∀ e ∈ escapes, e.1 ≠ 117 := by simp [escapes]
      exact absurd rfl (hShort _ hMem)
    | @unicode _ u hHex hHigh hLow =>
      rw [(parseHex4_ok_iff _ rest u).mpr ⟨e, rfl, hHex⟩, ← utf8Append_unit hHex hHigh hLow]
      exact (if_neg hHigh).trans (if_neg hLow)
    | @pair high low hi lo hHex hHigh hHex' hLow =>
      rw [(parseHex4_ok_iff _ (92 :: 117 :: (low ++ rest)) hi).mpr
        ⟨high, List.append_assoc high (92 :: 117 :: low) rest, hHex⟩]
      exact (if_pos hHigh).trans ((parseLow_ok_iff hHigh _ _ _).mpr ⟨low, lo, rfl, hHex', hLow, rfl⟩)

theorem parseEscape_ok_iff (s rest out : Bytes) :
    parseEscape s = .ok (out, rest) ↔ ∃ e, s = e ++ rest ∧ Escape e out := by
  constructor
  · intro h
    cases s with
    | nil => cases h
    | cons e s =>
      have hShort : ∀ {c : UInt8}, (e, c) ∈ escapes → (Except.ok ([c], s) : Parsed Bytes) = .ok (out, rest) →
          ∃ t, e :: s = t ++ rest ∧ Escape t out := by
        intro c hMem hOk
        obtain ⟨rfl, rfl⟩ := Prod.mk.inj (Except.ok.inj hOk)
        exact ⟨[e], rfl, .short hMem⟩
      rw [parseEscape] at h
      split at h
      · rename_i hSame
        rcases hSame with rfl | rfl | rfl
        · exact hShort (by decide) h
        · exact hShort (by decide) h
        · exact hShort (by decide) h
      · split at h
        · exact hShort (by simp [*, escapes]) h
        · split at h
          · exact hShort (by simp [*, escapes]) h
          · split at h
            · exact hShort (by simp [*, escapes]) h
            · split at h
              · exact hShort (by simp [*, escapes]) h
              · split at h
                · exact hShort (by simp [*, escapes]) h
                · split at h
                  · rename_i hUnicode
                    obtain ⟨t, rfl, hEscape⟩ := (parseUnicode_ok_iff _ _ _).mp h
                    exact ⟨117 :: t, by rw [hUnicode]; rfl, hEscape⟩
                  · cases h
  · rintro ⟨e, rfl, hEscape⟩
    cases hEscape with
    | @short e c hMem =>
      have hAll : ∀ p ∈ escapes, ∀ rest, parseEscape (p.1 :: rest) = .ok ([p.2], rest) := by
        simp [escapes, parseEscape]
      exact hAll (e, c) hMem rest
    | unicode hHex hHigh hLow => exact (parseUnicode_ok_iff _ _ _).mpr ⟨_, rfl, .unicode hHex hHigh hLow⟩
    | pair hHex hHigh hHex' hLow =>
      exact (parseUnicode_ok_iff _ _ _).mpr ⟨_, rfl, .pair hHex hHigh hHex' hLow⟩

/-! ## Strings -/

theorem stringLoop_sound (fuel : Nat) : ∀ {acc s out rest : Bytes}, stringLoop fuel acc s = .ok (out, rest) →
    ∃ text new, s = text ++ 34 :: rest ∧ Chars text new ∧ out = acc ++ new := by
  induction fuel with
  | zero =>
    intro acc s out rest h
    cases h
  | succ fuel ih =>
    intro acc s out rest h
    cases s with
    | nil => cases h
    | cons c s =>
      rw [stringLoop] at h
      split at h
      · rename_i hQuote
        obtain ⟨rfl, rfl⟩ := Prod.mk.inj (Except.ok.inj h)
        exact ⟨[], [], by rw [hQuote]; rfl, .nil, (List.append_nil acc).symm⟩
      · rename_i hQuote
        split at h
        · rename_i hBackslash
          split at h
          · cases h
          · rename_i bytes left hParsed
            obtain ⟨e, rfl, hEscape⟩ := (parseEscape_ok_iff _ _ _).mp hParsed
            obtain ⟨text, new, rfl, hChars, rfl⟩ := ih h
            refine ⟨92 :: (e ++ text), bytes ++ new, ?_, .escape hEscape hChars, List.append_assoc _ _ _⟩
            rw [hBackslash, List.cons_append, List.append_assoc]
        · rename_i hBackslash
          split at h
          · cases h
          · rename_i hControl
            obtain ⟨text, new, rfl, hChars, rfl⟩ := ih h
            exact ⟨c :: text, c :: new, rfl, .raw ⟨UInt8.not_lt.mp hControl, hQuote, hBackslash⟩ hChars,
              List.append_assoc _ _ _⟩

theorem stringLoop_complete {text new : Bytes} (h : Chars text new) : ∀ (fuel : Nat)
    (acc rest : Bytes), text.length < fuel →
    stringLoop fuel acc (text ++ 34 :: rest) = .ok (acc ++ new, rest) := by
  induction h with
  | nil =>
    intro fuel acc rest hFuel
    obtain ⟨fuel, rfl⟩ := Nat.exists_eq_add_one.mpr hFuel
    rw [List.append_nil]
    rfl
  | @raw c text out hPlain _ ih =>
    intro fuel acc rest hFuel
    rw [List.length_cons] at hFuel
    obtain ⟨fuel, rfl⟩ : ∃ fuel', fuel = fuel' + 1 := ⟨fuel - 1, by omega⟩
    rw [List.cons_append, stringLoop, if_neg hPlain.2.1, if_neg hPlain.2.2,
      if_neg (UInt8.not_lt.mpr hPlain.1),
      ih fuel _ rest (by omega), List.append_assoc]
    rfl
  | @escape e bytes text out hEscape _ ih =>
    intro fuel acc rest hFuel
    rw [List.length_cons, List.length_append] at hFuel
    obtain ⟨fuel, rfl⟩ : ∃ fuel', fuel = fuel' + 1 := ⟨fuel - 1, by omega⟩
    rw [List.cons_append, List.append_assoc, stringLoop, if_neg (by decide), if_pos rfl,
      (parseEscape_ok_iff _ (text ++ 34 :: rest) bytes).mpr ⟨e, rfl, hEscape⟩]
    dsimp only
    rw [ih fuel _ rest (by omega), List.append_assoc]

theorem parseStringRaw_ok_iff (s rest out : Bytes) :
    parseStringRaw s = .ok (out, rest) ↔ ∃ text, s = 34 :: (text ++ 34 :: rest) ∧ Chars text out := by
  constructor
  · intro h
    rw [parseStringRaw.eq_def] at h
    split at h
    · obtain ⟨text, new, rfl, hChars, rfl⟩ := stringLoop_sound _ h
      exact ⟨text, rfl, hChars⟩
    · cases h
  · rintro ⟨text, rfl, hChars⟩
    rw [parseStringRaw, stringLoop_complete hChars _ _ rest (by rw [List.length_append]; omega)]
    rfl

/-! ## Numbers -/

/-- The text does not go on with a digit. -/
def NoDigit (s : Bytes) : Prop := ∀ c, s.head? = some c → isdigit c = false

/-- The text does not go on with what a number could go on with. -/
def Follows (s : Bytes) : Prop := ∀ c, s.head? = some c → isdigit c = false ∧ c ≠ 46 ∧ c ≠ 101 ∧ c ≠ 69

theorem skipDigits_ok_iff (why p q : Bytes) : skipDigits why p = .ok q ↔ ∃ digits, p = digits ++ q ∧
    Digits digits ∧ NoDigit q := by
  constructor
  · intro h
    rw [skipDigits.eq_def] at h
    split at h
    · cases h
    · rename_i c s
      split at h
      · rename_i hDigit
        obtain rfl := Except.ok.inj h
        refine ⟨(c :: s).takeWhile isdigit, List.takeWhile_append_dropWhile.symm,
          ⟨?_, fun d hd => List.mem_takeWhile_imp hd⟩, ?_⟩
        · rw [List.takeWhile_cons_of_pos hDigit]
          exact List.cons_ne_nil _ _
        · intro d hd
          have hNot := List.head?_dropWhile_not isdigit (c :: s)
          rw [hd] at hNot
          exact hNot
      · cases h
  · rintro ⟨digits, rfl, ⟨hSome, hDigits⟩, hStop⟩
    obtain ⟨c, digits, rfl⟩ := List.exists_cons_of_ne_nil hSome
    have hIs : ∀ d ∈ c :: digits, isdigit d = true := hDigits
    have hDrop : (c :: digits ++ q).dropWhile isdigit = q := by
      rw [List.dropWhile_append_of_pos hIs]
      cases q with
      | nil => rfl
      | cons d q => exact List.dropWhile_cons_of_neg (Bool.not_eq_true _ ▸ hStop d rfl)
    rw [List.cons_append, skipDigits, if_pos (hIs c List.mem_cons_self)]
    exact congrArg Except.ok hDrop

theorem scanFraction_sound {p q : Bytes} (h : scanFraction p = .ok q) : ∃ frac, p = frac ++ q ∧
    Fraction frac := by
  rw [scanFraction.eq_def] at h
  split at h
  · obtain ⟨digits, rfl, hDigits, _⟩ := (skipDigits_ok_iff _ _ _).mp h
    exact ⟨46 :: digits, rfl, .inr ⟨digits, rfl, hDigits⟩⟩
  · obtain rfl := Except.ok.inj h
    exact ⟨[], rfl, .inl rfl⟩

theorem dropSign_sound (signs : List UInt8) (s : Bytes) :
    ∃ sign, s = sign ++ dropSign signs s ∧ (sign = [] ∨ ∃ c ∈ signs, sign = [c]) := by
  rw [dropSign.eq_def]
  split
  · exact ⟨[], rfl, .inl rfl⟩
  · rename_i c rest
    split
    · rename_i hSign
      exact ⟨[c], rfl, .inr ⟨c, hSign, rfl⟩⟩
    · exact ⟨[], rfl, .inl rfl⟩

theorem scanExponent_sound {p q : Bytes} (h : scanExponent p = .ok q) : ∃ exp, p = exp ++ q ∧
    Exponent exp := by
  rw [scanExponent.eq_def] at h
  split at h
  · obtain rfl := Except.ok.inj h
    exact ⟨[], rfl, .inl rfl⟩
  · rename_i e t
    split at h
    · rename_i hE
      obtain ⟨digits, hRest, hDigits, _⟩ := (skipDigits_ok_iff _ _ _).mp h
      obtain ⟨sign, hSplit, hSign⟩ := dropSign_sound [43, 45] t
      rw [hRest] at hSplit
      refine ⟨e :: (sign ++ digits), ?_, .inr ⟨e, sign, digits, rfl, hE, ?_, hDigits⟩⟩
      · rw [hSplit, List.cons_append, List.append_assoc]
      · rcases hSign with hNone | ⟨c, hMem, hOne⟩
        · exact .inl hNone
        · right
          simpa [hOne] using hMem
    · obtain rfl := Except.ok.inj h
      exact ⟨[], rfl, .inl rfl⟩

theorem scanNumber_sound {s q : Bytes} (h : scanNumber s = .ok q) : ∃ lexeme, s = lexeme ++ q ∧
    IsNumber Digits lexeme := by
  rw [scanNumber] at h
  split at h
  · cases h
  · rename_i afterInt hInt
    split at h
    · cases h
    · rename_i afterFrac hFrac
      obtain ⟨int, hSplit, hDigits, _⟩ := (skipDigits_ok_iff _ _ _).mp hInt
      obtain ⟨frac, rfl, hFraction⟩ := scanFraction_sound hFrac
      obtain ⟨exp, rfl, hExponent⟩ := scanExponent_sound h
      obtain ⟨sign, hWhole, hSign⟩ := dropSign_sound [45] s
      refine ⟨sign ++ (int ++ (frac ++ exp)), ?_, sign, int, frac, exp, rfl, ?_, hDigits, hFraction,
        hExponent⟩
      · rw [hSplit] at hWhole
        rw [hWhole]
        simp only [List.append_assoc]
      · rcases hSign with hNone | ⟨c, hMem, hOne⟩
        · exact .inl hNone
        · right
          rw [hOne, List.mem_singleton.mp hMem]

theorem skipDigits_complete {digits q : Bytes} (why : Bytes) (h : Digits digits) (hStop : NoDigit q) :
    skipDigits why (digits ++ q) = .ok q :=
  (skipDigits_ok_iff _ _ _).mpr ⟨digits, rfl, h, hStop⟩

theorem Follows.noDigit {s : Bytes} (h : Follows s) : NoDigit s := fun c hc => (h c hc).1

theorem dropSign_digits {signs : List UInt8} (hSigns : ∀ c ∈ signs, isdigit c = false) {sign digits : Bytes}
    (hSign : sign = [] ∨ ∃ c ∈ signs, sign = [c]) (hDigits : Digits digits) (rest : Bytes) :
    dropSign signs (sign ++ (digits ++ rest)) = digits ++ rest := by
  rcases hSign with rfl | ⟨c, hMem, rfl⟩
  · obtain ⟨d, digits, rfl⟩ := List.exists_cons_of_ne_nil hDigits.1
    have hDigit : isdigit d = true := hDigits.2 d List.mem_cons_self
    rw [List.nil_append, List.cons_append, dropSign, if_neg]
    intro hIn
    exact Bool.noConfusion ((hSigns d hIn).symm.trans hDigit)
  · exact if_pos hMem

theorem scanExponent_complete {exp rest : Bytes} (h : Exponent exp) (hFollows : Follows rest) :
    scanExponent (exp ++ rest) = .ok rest := by
  rcases h with rfl | ⟨e, sign, digits, rfl, hE, hSign, hDigits⟩
  · rw [List.nil_append, scanExponent.eq_def]
    split
    · rfl
    · rename_i c t
      obtain ⟨_, _, hSmall, hLarge⟩ := hFollows c rfl
      rw [if_neg (not_or.mpr ⟨hSmall, hLarge⟩)]
  · have hSigns : sign = [] ∨ ∃ c ∈ ([43, 45] : List UInt8), sign = [c] := by
      rcases hSign with hNone | hPlus | hMinus
      · exact .inl hNone
      · exact .inr ⟨43, by decide, hPlus⟩
      · exact .inr ⟨45, by decide, hMinus⟩
    have hNoDigits : ∀ c ∈ ([43, 45] : List UInt8), isdigit c = false :=
      List.forall_mem_cons.mpr ⟨rfl, List.forall_mem_singleton.mpr rfl⟩
    rw [List.cons_append, List.append_assoc, scanExponent, if_pos hE,
      dropSign_digits hNoDigits hSigns hDigits]
    exact skipDigits_complete _ hDigits hFollows.noDigit

theorem exponent_head {exp rest : Bytes} (h : Exponent exp) (hFollows : Follows rest) :
    ∀ c, (exp ++ rest).head? = some c → isdigit c = false ∧ c ≠ 46 := by
  intro c hc
  rcases h with rfl | ⟨e, sign, digits, rfl, hE, _, _⟩
  · exact ⟨(hFollows c hc).1, (hFollows c hc).2.1⟩
  · cases hc
    rcases hE with rfl | rfl
    · decide
    · decide

theorem scanFraction_complete {frac exp rest : Bytes} (hFrac : Fraction frac) (hExp : Exponent exp)
    (hFollows : Follows rest) :
    scanFraction (frac ++ (exp ++ rest)) = .ok (exp ++ rest) := by
  have hHead := exponent_head hExp hFollows
  rcases hFrac with rfl | ⟨digits, rfl, hDigits⟩
  · rw [List.nil_append, scanFraction.eq_def]
    split
    · rename_i q hPoint
      rw [hPoint] at hHead
      exact absurd rfl (hHead 46 rfl).2
    · rfl
  · exact skipDigits_complete _ hDigits fun c hc => (hHead c hc).1

theorem scanNumber_complete {lexeme rest : Bytes} (h : IsNumber Digits lexeme) (hFollows : Follows rest) :
    scanNumber (lexeme ++ rest) = .ok rest := by
  obtain ⟨sign, int, frac, exp, rfl, hSign, hInt, hFrac, hExp⟩ := h
  have hSigns : sign = [] ∨ ∃ c ∈ ([45] : List UInt8), sign = [c] :=
    hSign.imp_right fun hMinus => ⟨45, by decide, hMinus⟩
  have hStop : NoDigit (frac ++ (exp ++ rest)) := by
    intro c hc
    rcases hFrac with rfl | ⟨digits, rfl, _⟩
    · exact (exponent_head hExp hFollows c hc).1
    · cases hc
      decide
  have hWhole : sign ++ (int ++ (frac ++ exp)) ++ rest = sign ++ (int ++ (frac ++ (exp ++ rest))) := by
    simp only [List.append_assoc]
  rw [hWhole, scanNumber, dropSign_digits (List.forall_mem_singleton.mpr rfl) hSigns hInt,
    skipDigits_complete _ hInt hStop]
  dsimp only
  rw [scanFraction_complete hFrac hExp hFollows]
  exact scanExponent_complete hExp hFollows

def Accepted (s : Bytes) : Prop := IsNumber Digits s ∧ s.length ≤ 63

theorem parseNumber_sound {number : Bytes → ν} {s rest : Bytes} {v : JsonValue ν}
    (h : parseNumber number s = .ok (v, rest)) :
    ∃ lexeme, s = lexeme ++ rest ∧ Accepted lexeme ∧ v = .number (number lexeme) := by
  rw [parseNumber] at h
  split at h
  · cases h
  · rename_i p hScan
    obtain ⟨lexeme, rfl, hNumber⟩ := scanNumber_sound hScan
    rw [List.length_append, Nat.add_sub_cancel] at h
    dsimp only at h
    rw [List.take_left] at h
    split at h
    · cases h
    · rename_i hShort
      obtain ⟨rfl, rfl⟩ := Prod.mk.inj (Except.ok.inj h)
      exact ⟨lexeme, rfl, ⟨hNumber, by omega⟩, rfl⟩

theorem parseNumber_complete (number : Bytes → ν) {lexeme rest : Bytes} (h : Accepted lexeme)
    (hFollows : Follows rest) :
    parseNumber number (lexeme ++ rest) = .ok (.number (number lexeme), rest) := by
  have hShort := h.2
  rw [parseNumber, scanNumber_complete h.1 hFollows]
  dsimp only
  rw [List.length_append, Nat.add_sub_cancel, List.take_left, if_neg (by omega)]

end Cweb.Json
