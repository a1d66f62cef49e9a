import Cweb.Lib.Calendar
import Cweb.Utils.Sv

/-!
# HTTP dates

The server writes dates in one form of 29 characters and reads no other one.
The reader subtracts the digit zero from whatever stands at the places of the
digits, and does not know how long a month is.
-/

namespace Cweb.Date

open Sv Calendar

/-- The broken-down time, with the year itself and the offset from UTC in seconds. -/
structure Tm where
  wday : Fin 7
  mday : Nat
  mon : Fin 12
  year : Int
  hour : Nat
  min : Nat
  sec : Nat
  off : Int

def wdays (wday : Fin 7) : Bytes :=
  [ascii "Sun", ascii "Mon", ascii "Tue", ascii "Wed", ascii "Thu", ascii "Fri", ascii "Sat"].getD wday []

def months (mon : Fin 12) : Bytes :=
  [ascii "Jan", ascii "Feb", ascii "Mar", ascii "Apr", ascii "May", ascii "Jun",
    ascii "Jul", ascii "Aug", ascii "Sep", ascii "Oct", ascii "Nov", ascii "Dec"].getD mon []

/-- `%0wd` of a number that is not negative. -/
def padded (width n : Nat) : Bytes := List.replicate (width - (decimal n).length) 48 ++ decimal n

/-- `%0wd` -/
def paddedInt (width : Nat) : Int → Bytes
  | .ofNat n => padded width n
  | .negSucc n => 45 :: padded (width - 1) (n + 1)

def monthIndex (mon : Bytes) : Option (Fin 12) := (List.finRange 12).find? fun i => mon == months i

/-- The arithmetic is that of `unsigned`, but for the year and the result. -/
def daysFromCivil (y : Int) (m d : Nat) : Int :=
  let y : Int := if m ≤ 2 then y - 1 else y
  let era : Int := (if 0 ≤ y then y else y - 399).tdiv 400
  let yoe : Nat := ((y - era * 400) % 2 ^ 32).toNat
  let doy : Nat :=
    ((153 * ((m + if 2 < m then 2 ^ 32 - 3 else 9) % 2 ^ 32) + 2) % 2 ^ 32 / 5 + d + (2 ^ 32 - 1)) % 2 ^ 32
  let doe : Nat := (yoe * 365 + yoe / 4 + (2 ^ 32 - yoe / 100) + doy) % 2 ^ 32
  era * 146097 + doe - 719468

/-- `tm` is what `gmtime_r` gives. -/
def httpDateRfc7231 (tm : Tm) (bufsize : Nat) : Bytes :=
  (wdays tm.wday ++ ascii ", " ++ padded 2 tm.mday ++ ascii " " ++ months tm.mon ++ ascii " " ++
    decimalInt tm.year ++ ascii " " ++
    padded 2 tm.hour ++ ascii ":" ++ padded 2 tm.min ++ ascii ":" ++ padded 2 tm.sec ++
    ascii " GMT").take (bufsize - 1)

def charAt (text : Bytes) (i : Nat) : UInt8 := text.getD i 0

/-- A character minus the digit zero. Characters are signed. -/
def digitOf (c : UInt8) : Int := (if c.toNat < 128 then (c.toNat : Int) else c.toNat - 256) - 48

def digitAt (text : Bytes) (i : Nat) : Int := digitOf (charAt text i)

def httpDateParse (text : Bytes) : Int :=
  if text.length ≠ 29 then -1
  else if charAt text 3 ≠ 44 ∨ charAt text 4 ≠ 32 ∨ charAt text 7 ≠ 32 ∨ charAt text 11 ≠ 32 ∨
    charAt text 16 ≠ 32 ∨
      charAt text 19 ≠ 58 ∨ charAt text 22 ≠ 58 ∨ charAt text 25 ≠ 32 ∨
      (text.drop 26).take 3 ≠ ascii "GMT" then -1
  else
    match monthIndex [charAt text 8, charAt text 9, charAt text 10] with
    | none => -1
    | some month =>
      let d := digitAt text 5 * 10 + digitAt text 6
      let y := digitAt text 12 * 1000 + digitAt text 13 * 100 + digitAt text 14 * 10 + digitAt text 15
      let h := digitAt text 17 * 10 + digitAt text 18
      let mi := digitAt text 20 * 10 + digitAt text 21
      let s := digitAt text 23 * 10 + digitAt text 24
      if d < 1 ∨ 31 < d ∨ y < 1970 ∨ 23 < h ∨ 59 < mi ∨ 60 < s then -1
      else daysFromCivil y (month + 1) d.toNat * 86400 + (h * 3600 + mi * 60 + s)

/-! ## The fields of a time -/

/-- The seconds since the epoch that a clock on the wall shows. -/
def wallOf (year : Int) (mon : Fin 12) (mday hour min sec : Int) : Int :=
  (dayNumber year mon mday - 719528) * 86400 + (hour * 3600 + min * 60 + sec)

def Tm.wall (tm : Tm) : Int := wallOf tm.year tm.mon tm.mday tm.hour tm.min tm.sec

/-- The moment that the fields stand for, which is what `mktime` is for. -/
def Tm.moment (tm : Tm) : Int := tm.wall - tm.off

/-- A date of the calendar and a time of the day, which may be a leap second. -/
structure Tm.Real (tm : Tm) : Prop where
  one_le_mday : 1 ≤ tm.mday
  mday_le : tm.mday ≤ monthLength (isLeap tm.year) tm.mon
  hour_lt : tm.hour < 24
  min_lt : tm.min < 60
  sec_le : tm.sec ≤ 60

def Tm.Real.date {tm : Tm} (h : tm.Real) : Calendar.Date :=
  ⟨tm.year, tm.mon, tm.mday, h.one_le_mday, h.mday_le⟩

/-- The fields are those of a moment, in the zone of their offset. -/
structure Denotes (t : Int) (tm : Tm) : Prop extends tm.Real where
  sec_lt : tm.sec < 60
  wall_eq : tm.wall = t + tm.off
  wday_eq : (tm.wday : Int) = (dayNumber tm.year tm.mon tm.mday + 6) % 7

/-- What `gmtime_r` is assumed to give, for the years of four digits from 1970 on. -/
def IsGmtime (gmtime : Int → Tm) : Prop :=
  ∀ t, 0 ≤ t → t < 253402300800 → Denotes t (gmtime t) ∧ (gmtime t).off = 0

/-! ## Days -/

theorem daysFromCivil_eras {y y' : Int} {m d doy : Nat} (hYear : (if m ≤ 2 then y - 1 else y) = y')
    (hy : 0 ≤ y')
    (hDoy : ((153 * ((m + if 2 < m then 2 ^ 32 - 3 else 9) % 2 ^ 32) + 2) % 2 ^ 32 / 5 + d +
      (2 ^ 32 - 1)) % 2 ^ 32 = doy)
    (hLess : doy < 400) :
    daysFromCivil y m d = 365 * y' + y' / 4 - y' / 100 + y' / 400 + doy - 719468 := by
  obtain ⟨era, yoe, hSmall, rfl⟩ : ∃ (era : Int) (yoe : Nat), yoe < 400 ∧ y' = 400 * era + yoe :=
    ⟨y' / 400, (y' % 400).toNat, by omega, by omega⟩
  have hEra : (400 * era + yoe : Int).tdiv 400 = era := by
    rw [Int.tdiv_eq_ediv_of_nonneg hy]
    omega
  have hYoe : ((400 * era + yoe - era * 400 : Int) % 2 ^ 32).toNat = yoe := by omega
  have hDoe : (yoe * 365 + yoe / 4 + (2 ^ 32 - yoe / 100) + doy) % 2 ^ 32 = yoe * 365 +
    yoe / 4 - yoe / 100 + doy := by omega
  have hFourth : (400 * era + yoe : Int) / 4 = 100 * era + (yoe / 4 : Nat) := by omega
  have hCentury : (400 * era + yoe : Int) / 100 = 4 * era + (yoe / 100 : Nat) := by omega
  have hLong : (400 * era + yoe : Int) / 400 = era := by omega
  simp only [daysFromCivil, hYear, hDoy, if_pos hy, hEra, hYoe, hDoe, hFourth, hCentury, hLong]
  clear hYear hy hDoy hEra hYoe hDoe hFourth hCentury hLong
  omega

/-- The days from the first of March on to the start of a month. -/
def marchDays (month : Fin 12) : Nat := [306, 337, 0, 31, 61, 92, 122, 153, 184, 214, 245, 275].getD month 0

theorem marchDays_eq (month : Fin 12) :
    (153 * ((month.val + 1 + if 2 < month.val + 1 then 2 ^ 32 - 3 else 9) % 2 ^ 32) + 2) % 2 ^ 32 / 5 =
      marchDays month := by
  revert month
  decide

theorem marchDays_le (month : Fin 12) : marchDays month ≤ 337 := by
  revert month
  decide

theorem daysBeforeMonth_march (leap : Bool) (month : Fin 12) :
    daysBeforeMonth leap month + (if month.val + 1 ≤ 2 then 306 else 0) =
      marchDays month + (if month.val + 1 ≤ 2 then 0 else if leap = true then 60 else 59) := by
  revert leap month
  decide

theorem daysFromCivil_eq {y d : Int} (month : Fin 12) (hy : 1 ≤ y) (hd : 1 ≤ d) (hMax : d ≤ 31) :
    daysFromCivil y (month + 1) d.toNat = dayNumber y month d - 719528 := by
  have hLeap : isLeap y = true ↔ y % 4 = 0 ∧ (¬y % 100 = 0 ∨ y % 400 = 0) := by simp [isLeap]
  have hLe := marchDays_le month
  have hMarch := daysBeforeMonth_march (isLeap y) month
  have hDoy :
    ((153 * ((month.val + 1 + if 2 < month.val + 1 then 2 ^ 32 - 3 else 9) % 2 ^ 32) + 2) % 2 ^ 32 / 5 +
    d.toNat + (2 ^ 32 - 1)) %
      2 ^ 32 = marchDays month + (d.toNat - 1) := by
    rw [marchDays_eq]
    omega
  by_cases hEarly : month.val + 1 ≤ 2
  · rw [daysFromCivil_eras (if_pos hEarly) (by omega) hDoy (by omega), dayNumber, daysBeforeYear]
    simp only [if_pos hEarly, Nat.add_zero] at hMarch
    omega
  · rw [daysFromCivil_eras (if_neg hEarly) (by omega) hDoy (by omega), dayNumber, daysBeforeYear]
    simp only [if_neg hEarly, Nat.add_zero, hLeap] at hMarch
    split at hMarch <;> omega

/-! ## Texts of the one form -/

/-- The characters that differ between dates. -/
structure Letters where
  (n0 n1 n2 d0 d1 m0 m1 m2 y0 y1 y2 y3 h0 h1 i0 i1 s0 s1 : UInt8)

namespace Letters

variable (l : Letters)

def text : Bytes :=
  [l.n0, l.n1, l.n2, 44, 32, l.d0, l.d1, 32, l.m0, l.m1, l.m2, 32, l.y0, l.y1, l.y2, l.y3, 32, l.h0,
    l.h1, 58, l.i0, l.i1, 58, l.s0, l.s1,
    32, 71, 77, 84]

def day : Int := digitOf l.d0 * 10 + digitOf l.d1

def year : Int := digitOf l.y0 * 1000 + digitOf l.y1 * 100 + digitOf l.y2 * 10 + digitOf l.y3

def hour : Int := digitOf l.h0 * 10 + digitOf l.h1

def minute : Int := digitOf l.i0 * 10 + digitOf l.i1

def second : Int := digitOf l.s0 * 10 + digitOf l.s1

/-- The characters at the places of the digits. -/
def digits : Bytes := [l.d0, l.d1, l.y0, l.y1, l.y2, l.y3, l.h0, l.h1, l.i0, l.i1, l.s0, l.s1]

/-- The fields pass the checks of the reader. -/
structure InRange : Prop where
  one_le_day : 1 ≤ l.day
  day_le : l.day ≤ 31
  le_year : 1970 ≤ l.year
  hour_le : l.hour ≤ 23
  minute_le : l.minute ≤ 59
  second_le : l.second ≤ 60

end Letters

theorem exists_letters {text : Bytes} (h : httpDateParse text ≠ -1) : ∃ l : Letters, text = l.text := by
  rw [httpDateParse] at h
  split at h
  · exact absurd rfl h
  · rename_i hLength
    split at h
    · exact absurd rfl h
    · rename_i hMarks
      rw [not_not] at hLength
      simp only [not_or, not_not] at hMarks
      obtain ⟨h3, h4, h7, h11, h16, h19, h22, h25, hZone⟩ := hMarks
      match text, hLength with
      | [c0, c1, c2, c3, c4, c5, c6, c7, c8, c9, c10, c11, c12, c13, c14, c15, c16, c17, c18, c19, c20,
        c21, c22, c23, c24, c25, c26, c27,
          c28], _ =>
        refine ⟨⟨c0, c1, c2, c5, c6, c8, c9, c10, c12, c13, c14, c15, c17, c18, c20, c21, c23, c24⟩, ?_⟩
        obtain rfl : c3 = 44 := h3
        obtain rfl : c4 = 32 := h4
        obtain rfl : c7 = 32 := h7
        obtain rfl : c11 = 32 := h11
        obtain rfl : c16 = 32 := h16
        obtain rfl : c19 = 58 := h19
        obtain rfl : c22 = 58 := h22
        obtain rfl : c25 = 32 := h25
        obtain ⟨rfl, rfl, rfl⟩ : c26 = 71 ∧ c27 = 77 ∧ c28 = 84 := by
          have hGmt : [c26, c27, c28] = [71, 77, 84] := hZone
          simpa using hGmt
        rfl

theorem httpDateParse_text (l : Letters) : httpDateParse l.text =
    match monthIndex [l.m0, l.m1, l.m2] with
    | none => -1
    | some month =>
      if l.day < 1 ∨ 31 < l.day ∨ l.year < 1970 ∨ 23 < l.hour ∨ 59 < l.minute ∨ 60 < l.second then -1
      else daysFromCivil l.year (month + 1) l.day.toNat * 86400 +
        (l.hour * 3600 + l.minute * 60 + l.second) := by
  rw [httpDateParse, if_neg (by simp [Letters.text]), if_neg (by simp [Letters.text, charAt]; decide)]
  rfl

theorem httpDateParse_of_inRange {l : Letters} {month : Fin 12}
    (hMonth : monthIndex [l.m0, l.m1, l.m2] = some month) (h : l.InRange) :
    httpDateParse l.text = wallOf l.year month l.day l.hour l.minute l.second := by
  obtain ⟨hDay, hDayMax, hYear, hHour, hMinute, hSecond⟩ := h
  have hDays := daysFromCivil_eq month (by omega : 1 ≤ l.year) hDay hDayMax
  rw [httpDateParse_text, hMonth]
  dsimp only
  rw [if_neg (by omega), hDays, wallOf]

theorem inRange_of_parse {text : Bytes} (h : 0 ≤ httpDateParse text) :
    ∃ (l : Letters) (month : Fin 12), text = l.text ∧ monthIndex [l.m0, l.m1, l.m2] = some month ∧
      l.InRange := by
  obtain ⟨l, rfl⟩ := exists_letters (by omega : httpDateParse text ≠ -1)
  rw [httpDateParse_text] at h
  split at h
  · exact absurd h (by decide)
  · rename_i month hMonth
    split at h
    · exact absurd h (by decide)
    · exact ⟨l, month, rfl, hMonth, by omega, by omega, by omega, by omega, by omega, by omega⟩

/-! ## Writing a date -/

theorem padded_two {n : Nat} (h : n < 100) : padded 2 n = [digitChar (n / 10), digitChar (n % 10)] := by
  rw [padded]
  rcases Nat.lt_or_ge n 10 with hSmall | hLarge
  · rw [decimal_of_lt hSmall, Nat.div_eq_of_lt hSmall, Nat.mod_eq_of_lt hSmall]
    rfl
  · rw [decimal_of_ge hLarge, decimal_of_lt (by omega)]
    rfl

theorem decimal_four {n : Nat} (hLow : 1000 ≤ n) (hHigh : n ≤ 9999) :
    decimal n = [digitChar (n / 10 / 10 / 10), digitChar (n / 10 / 10 % 10), digitChar (n / 10 % 10),
      digitChar (n % 10)] := by
  rw [decimal_of_ge (by omega), decimal_three (by omega) (by omega)]
  rfl

@[simp] theorem digitOf_digitChar {d : Nat} (h : d < 10) : digitOf (digitChar d) = d := by
  rw [digitOf, digitChar_toNat h, if_pos (by omega)]
  omega

theorem digitOf_of_isdigit {c : UInt8} (h : isdigit c = true) : digitOf c = (c.toNat : Int) - 48 ∧
    48 ≤ c.toNat ∧ c.toNat ≤ 57 := by
  obtain ⟨hLow, hHigh⟩ := (isdigit_iff c).mp h
  exact ⟨by rw [digitOf, if_pos (by omega)], hLow, hHigh⟩

/-- The letters of a time in the year `y`. -/
def lettersOf (tm : Tm) (y : Nat) : Letters where
  n0 := (wdays tm.wday).getD 0 0
  n1 := (wdays tm.wday).getD 1 0
  n2 := (wdays tm.wday).getD 2 0
  d0 := digitChar (tm.mday / 10)
  d1 := digitChar (tm.mday % 10)
  m0 := (months tm.mon).getD 0 0
  m1 := (months tm.mon).getD 1 0
  m2 := (months tm.mon).getD 2 0
  y0 := digitChar (y / 10 / 10 / 10)
  y1 := digitChar (y / 10 / 10 % 10)
  y2 := digitChar (y / 10 % 10)
  y3 := digitChar (y % 10)
  h0 := digitChar (tm.hour / 10)
  h1 := digitChar (tm.hour % 10)
  i0 := digitChar (tm.min / 10)
  i1 := digitChar (tm.min % 10)
  s0 := digitChar (tm.sec / 10)
  s1 := digitChar (tm.sec % 10)

theorem wdays_three (wday : Fin 7) :
    wdays wday = [(wdays wday).getD 0 0, (wdays wday).getD 1 0, (wdays wday).getD 2 0] := by
  revert wday
  decide

theorem months_three (mon : Fin 12) :
    months mon = [(months mon).getD 0 0, (months mon).getD 1 0, (months mon).getD 2 0] := by
  revert mon
  decide

theorem monthIndex_months (mon : Fin 12) : monthIndex (months mon) = some mon := by
  revert mon
  decide

theorem months_of_monthIndex {name : Bytes} {mon : Fin 12} (h : monthIndex name = some mon) :
    name = months mon := by
  simpa using List.find?_some h

theorem Tm.Real.mday_le_31 {tm : Tm} (h : tm.Real) : tm.mday ≤ 31 :=
  h.mday_le.trans (monthLength_le _ _)

theorem httpDateRfc7231_eq {tm : Tm} {y : Nat} (hReal : tm.Real) (hYear : tm.year = y) (hLow : 1000 ≤ y)
    (hHigh : y ≤ 9999)
    {bufsize : Nat} (hBuf : 30 ≤ bufsize) : httpDateRfc7231 tm bufsize = (lettersOf tm y).text := by
  have hDay := hReal.mday_le_31
  have hHour := hReal.hour_lt
  have hMin := hReal.min_lt
  have hSec := hReal.sec_le
  have hDecimal : decimalInt (y : Int) = decimal y := rfl
  rw [httpDateRfc7231, hYear, hDecimal, decimal_four hLow hHigh, padded_two (by omega : tm.mday < 100),
    padded_two (by omega : tm.hour < 100),
    padded_two (by omega : tm.min < 100), padded_two (by omega : tm.sec < 100), wdays_three, months_three]
  have hComma : ascii ", " = [44, 32] := by decide
  have hBlank : ascii " " = [32] := by decide
  have hColon : ascii ":" = [58] := by decide
  have hZone : ascii " GMT" = [32, 71, 77, 84] := by decide
  simp only [hComma, hBlank, hColon, hZone, List.cons_append, List.nil_append]
  exact List.take_of_length_le (Nat.le_sub_one_of_lt hBuf)

theorem monthIndex_lettersOf (tm : Tm) (y : Nat) :
    monthIndex [(lettersOf tm y).m0, (lettersOf tm y).m1, (lettersOf tm y).m2] = some tm.mon :=
  (congrArg monthIndex (months_three tm.mon).symm).trans (monthIndex_months tm.mon)

theorem fields_lettersOf {tm : Tm} {y : Nat} (hReal : tm.Real) (hHigh : y ≤ 9999) :
    (lettersOf tm y).day = tm.mday ∧ (lettersOf tm y).year = y ∧ (lettersOf tm y).hour = tm.hour ∧
      (lettersOf tm y).minute = tm.min ∧ (lettersOf tm y).second = tm.sec := by
  have hDay := hReal.mday_le_31
  have hHour := hReal.hour_lt
  have hMin := hReal.min_lt
  have hSec := hReal.sec_le
  have hPair : ∀ {n : Nat}, n < 100 → digitOf (digitChar (n / 10)) * 10 +
    digitOf (digitChar (n % 10)) = n := by
    intro n hn
    rw [digitOf_digitChar (by omega), digitOf_digitChar (by omega)]
    omega
  refine ⟨hPair (by omega), ?_, hPair (by omega), hPair (by omega), hPair (by omega)⟩
  change digitOf (digitChar _) * 1000 + digitOf (digitChar _) * 100 + digitOf (digitChar _) * 10 +
    digitOf (digitChar _) = _
  rw [digitOf_digitChar (by omega), digitOf_digitChar (by omega), digitOf_digitChar (by omega),
    digitOf_digitChar (by omega)]
  omega

theorem httpDateParse_rfc7231 {tm : Tm} (hReal : tm.Real) (hLow : 1970 ≤ tm.year)
    (hHigh : tm.year ≤ 9999) {bufsize : Nat}
    (hBuf : 30 ≤ bufsize) : httpDateParse (httpDateRfc7231 tm bufsize) = tm.wall := by
  obtain ⟨y, hYear⟩ := Int.eq_ofNat_of_zero_le (by omega : 0 ≤ tm.year)
  obtain ⟨hDay, hYear', hHour, hMinute, hSecond⟩ := @fields_lettersOf tm y hReal (by omega)
  have hOne := hReal.one_le_mday
  have hDayMax := hReal.mday_le_31
  have hHourMax := hReal.hour_lt
  have hMinMax := hReal.min_lt
  have hSecMax := hReal.sec_le
  rw [httpDateRfc7231_eq hReal hYear (by omega) (by omega) hBuf,
    httpDateParse_of_inRange (monthIndex_lettersOf tm y)
    ⟨by omega, by omega, by omega, by omega, by omega, by omega⟩, hDay, hYear', hHour, hMinute, hSecond,
    Tm.wall, hYear]

theorem Denotes.year_bounds {t : Int} {tm : Tm} (h : Denotes t tm) (hOff : tm.off = 0) (hFrom : 0 ≤ t)
    (hTo : t < 253402300800) :
    1970 ≤ tm.year ∧ tm.year ≤ 9999 := by
  have hBounds : daysBeforeYear tm.year ≤ dayNumber tm.year tm.mon tm.mday ∧
      dayNumber tm.year tm.mon tm.mday < daysBeforeYear (tm.year + 1) := h.toReal.date.number_bounds
  have hWall := h.wall_eq
  have hHour := h.hour_lt
  have hMin := h.min_lt
  have hSec := h.sec_lt
  rw [Tm.wall, wallOf] at hWall
  have hFirst : daysBeforeYear 1970 = 719528 := by decide
  have hEnd : daysBeforeYear 10000 = 3652425 := by decide
  constructor
  · by_contra hNot
    have hMono : daysBeforeYear (tm.year + 1) ≤ daysBeforeYear 1970 := daysBeforeYear_mono (by omega)
    omega
  · by_contra hNot
    have hMono : daysBeforeYear 10000 ≤ daysBeforeYear tm.year := daysBeforeYear_mono (by omega)
    omega

def civilTime (t : Int) : Tm :=
  let date := dateOf (t / 86400 + 719528).toNat
  let second := (t % 86400).toNat
  ⟨Fin.ofNat 7 ((t / 86400 + 719528 + 6) % 7).toNat, date.day, date.month, date.year, second / 3600,
    second / 60 % 60, second % 60, 0⟩

theorem isGmtime_civilTime : IsGmtime civilTime := by
  intro t hFrom _
  have hNumber := number_dateOf (t / 86400 + 719528).toNat
  have hDay : dayNumber (dateOf (t / 86400 + 719528).toNat).year (dateOf (t / 86400 + 719528).toNat).month
      (dateOf (t / 86400 + 719528).toNat).day = t / 86400 + 719528 := by
    rw [← Date.number, hNumber]
    omega
  refine ⟨⟨⟨Date.one_le_day _, Date.day_le _, ?_, ?_, ?_⟩, ?_, ?_, ?_⟩, rfl⟩
  · change (t % 86400).toNat / 3600 < 24
    omega
  · change (t % 86400).toNat / 60 % 60 < 60
    omega
  · change (t % 86400).toNat % 60 ≤ 60
    omega
  · change (t % 86400).toNat % 60 < 60
    omega
  · simp only [Tm.wall, wallOf, civilTime, hDay]
    omega
  · simp only [civilTime, hDay, Fin.val_ofNat]
    omega

/-- What is written for a moment is read as that moment. -/
theorem date_roundtrip {gmtime : Int → Tm} (hGmtime : IsGmtime gmtime) {bufsize : Nat} (hBuf : 30 ≤ bufsize) :
    ∀ t, 0 ≤ t → t < 253402300800 → httpDateParse (httpDateRfc7231 (gmtime t) bufsize) = t := by
  intro t hFrom hTo
  obtain ⟨hDenotes, hOff⟩ := hGmtime t hFrom hTo
  obtain ⟨hLow, hHigh⟩ := hDenotes.year_bounds hOff hFrom hTo
  rw [httpDateParse_rfc7231 hDenotes.toReal hLow hHigh hBuf, hDenotes.wall_eq, hOff, Int.add_zero]

theorem date_roundtrip_november : httpDateParse (httpDateRfc7231 (civilTime 784111777) 30) = 784111777 :=
  date_roundtrip isGmtime_civilTime (Nat.le_refl 30) 784111777 (by decide) (by decide)

/-! ## Accepted texts -/

/-- Where the digits stand. -/
def digitPlaces : List Nat := [5, 6, 12, 13, 14, 15, 17, 18, 20, 21, 23, 24]

/-- A text that is read as a moment denotes it: it has digits, and behind the
name of the day it is what is written for a real time that is this moment. But
for a leap second that time is the one of `gmtime_r`. -/
structure DateExact (gmtime : Int → Tm) (text : Bytes) (t : Int) : Prop where
  digits : ∀ i ∈ digitPlaces, isdigit (charAt text i) = true
  real : ∃ tm : Tm, tm.Real ∧ 1970 ≤ tm.year ∧ tm.year ≤ 9999 ∧ tm.wall = t ∧
    text.drop 5 = (httpDateRfc7231 tm 30).drop 5
  formats : (text.drop 23).take 2 ≠ ascii "60" → (httpDateRfc7231 (gmtime t) 30).drop 5 = text.drop 5

/-- A text of the form passes the checks although a digit is none, or a day not
one of its month. -/
def Misread (text : Bytes) : Prop :=
  ∃ (l : Letters) (month : Fin 12), text = l.text ∧ monthIndex [l.m0, l.m1, l.m2] = some month ∧ l.InRange ∧
    0 ≤ wallOf l.year month l.day l.hour l.minute l.second ∧
    ((∃ c ∈ l.digits, isdigit c = false) ∨ (monthLength (isLeap l.year) month : Int) < l.day)

theorem text_injective {l l' : Letters} (h : l.text.drop 5 = l'.text.drop 5) :
    l.digits = l'.digits ∧ [l.m0, l.m1, l.m2] = [l'.m0, l'.m1, l'.m2] := by
  simp only [Letters.text, List.drop_succ_cons, List.drop_zero, List.cons.injEq] at h
  simp only [Letters.digits, List.cons.injEq]
  tauto

theorem drop_text {l l' : Letters} (hDigits : l.digits = l'.digits)
    (hMonth : [l.m0, l.m1, l.m2] = [l'.m0, l'.m1, l'.m2]) :
    l.text.drop 5 = l'.text.drop 5 := by
  simp only [Letters.digits, List.cons.injEq] at hDigits hMonth
  simp only [Letters.text, List.drop_succ_cons, List.drop_zero, List.cons.injEq]
  tauto

theorem digits_eq (l : Letters) : digitPlaces.map (charAt l.text) = l.digits := rfl

theorem digitChar_of_isdigit {c : UInt8} (h : isdigit c = true) {n : Nat} (hn : (n : Int) = digitOf c) :
    digitChar n = c := by
  obtain ⟨hEq, hLow, hHigh⟩ := digitOf_of_isdigit h
  apply UInt8.toNat_inj.mp
  rw [digitChar_toNat (by omega)]
  omega

theorem lettersOf_eq {l : Letters} {tm : Tm} {y : Nat} (h : ∀ c ∈ l.digits, isdigit c = true)
    (hDay : (tm.mday : Int) = l.day)
    (hYear : (y : Int) = l.year) (hHour : (tm.hour : Int) = l.hour) (hMin : (tm.min : Int) = l.minute)
    (hSec : (tm.sec : Int) = l.second) :
    (lettersOf tm y).digits = l.digits := by
  have hPair : ∀ {c c' : UInt8} {n : Nat}, isdigit c = true → isdigit c' = true →
    (n : Int) = digitOf c * 10 + digitOf c' →
      digitChar (n / 10) = c ∧ digitChar (n % 10) = c' := by
    intro c c' n hc hc' hn
    have hFirst := digitOf_of_isdigit hc
    have hSecond := digitOf_of_isdigit hc'
    exact ⟨digitChar_of_isdigit hc (by omega), digitChar_of_isdigit hc' (by omega)⟩
  simp only [Letters.digits, List.forall_mem_cons] at h
  obtain ⟨hd0, hd1, hy0, hy1, hy2, hy3, hh0, hh1, hi0, hi1, hs0, hs1, -⟩ := h
  have hY0 := digitOf_of_isdigit hy0
  have hY1 := digitOf_of_isdigit hy1
  have hY2 := digitOf_of_isdigit hy2
  have hY3 := digitOf_of_isdigit hy3
  rw [Letters.year] at hYear
  obtain ⟨eD0, eD1⟩ := hPair hd0 hd1 hDay
  obtain ⟨eH0, eH1⟩ := hPair hh0 hh1 hHour
  obtain ⟨eI0, eI1⟩ := hPair hi0 hi1 hMin
  obtain ⟨eS0, eS1⟩ := hPair hs0 hs1 hSec
  have eY0 : digitChar (y / 10 / 10 / 10) = l.y0 := digitChar_of_isdigit hy0 (by omega)
  have eY1 : digitChar (y / 10 / 10 % 10) = l.y1 := digitChar_of_isdigit hy1 (by omega)
  have eY2 : digitChar (y / 10 % 10) = l.y2 := digitChar_of_isdigit hy2 (by omega)
  have eY3 : digitChar (y % 10) = l.y3 := digitChar_of_isdigit hy3 (by omega)
  simp only [Letters.digits, lettersOf, eD0, eD1, eY0, eY1, eY2, eY3, eH0, eH1, eI0, eI1, eS0, eS1]

theorem fields_unique {tm tm' : Tm} (h : tm.Real) (h' : tm'.Real) (hSec : tm.sec < 60)
    (hSec' : tm'.sec < 60) (hWall : tm.wall = tm'.wall) :
    tm.mday = tm'.mday ∧ tm.mon = tm'.mon ∧ tm.year = tm'.year ∧ tm.hour = tm'.hour ∧ tm.min = tm'.min ∧
      tm.sec = tm'.sec := by
  have hHour := h.hour_lt
  have hMin := h.min_lt
  have hHour' := h'.hour_lt
  have hMin' := h'.min_lt
  simp only [Tm.wall, wallOf] at hWall
  have hNumber : h.date.number = h'.date.number := by
    change dayNumber tm.year tm.mon tm.mday = dayNumber tm'.year tm'.mon tm'.mday
    omega
  have hDate : h.date = h'.date := Date.number_injective hNumber
  have hDay : dayNumber tm.year tm.mon tm.mday = dayNumber tm'.year tm'.mon tm'.mday := hNumber
  exact ⟨congrArg Calendar.Date.day hDate, congrArg Calendar.Date.month hDate,
    congrArg Calendar.Date.year hDate, by omega, by omega, by omega⟩

/-- The time that the fields of a text give. -/
def Letters.tm (l : Letters) (month : Fin 12) : Tm :=
  ⟨0, l.day.toNat, month, l.year, l.hour.toNat, l.minute.toNat, l.second.toNat, 0⟩

theorem Letters.bounds {l : Letters} (h : ∀ c ∈ l.digits, isdigit c = true) :
    0 ≤ l.hour ∧ 0 ≤ l.minute ∧ 0 ≤ l.second ∧ l.year ≤ 9999 := by
  simp only [Letters.digits, List.forall_mem_cons] at h
  obtain ⟨-, -, hy0, hy1, hy2, hy3, hh0, hh1, hi0, hi1, hs0, hs1, -⟩ := h
  have hY0 := digitOf_of_isdigit hy0
  have hY1 := digitOf_of_isdigit hy1
  have hY2 := digitOf_of_isdigit hy2
  have hY3 := digitOf_of_isdigit hy3
  have hH0 := digitOf_of_isdigit hh0
  have hH1 := digitOf_of_isdigit hh1
  have hI0 := digitOf_of_isdigit hi0
  have hI1 := digitOf_of_isdigit hi1
  have hS0 := digitOf_of_isdigit hs0
  have hS1 := digitOf_of_isdigit hs1
  simp only [Letters.hour, Letters.minute, Letters.second, Letters.year]
  omega

theorem Letters.second_ne {l : Letters} (h : ∀ c ∈ l.digits, isdigit c = true)
    (hText : (l.text.drop 23).take 2 ≠ ascii "60") :
    l.second ≠ 60 := by
  intro hSixty
  simp only [Letters.digits, List.forall_mem_cons] at h
  obtain ⟨-, -, -, -, -, -, -, -, -, -, hs0, hs1, -⟩ := h
  have hS0 := digitOf_of_isdigit hs0
  have hS1 := digitOf_of_isdigit hs1
  rw [Letters.second] at hSixty
  have hSix : digitChar 6 = l.s0 := digitChar_of_isdigit hs0 (by omega)
  have hZero : digitChar 0 = l.s1 := digitChar_of_isdigit hs1 (by omega)
  apply hText
  change [l.s0, l.s1] = _
  rw [← hSix, ← hZero]
  rfl

theorem Letters.real_tm {l : Letters} {month : Fin 12} (hRange : l.InRange)
    (h : ∀ c ∈ l.digits, isdigit c = true)
    (hDay : l.day ≤ monthLength (isLeap l.year) month) :
    (l.tm month).Real ∧ (l.tm month).wall = wallOf l.year month l.day l.hour l.minute l.second := by
  obtain ⟨hOne, hMax, hYear, hHour, hMinute, hSecond⟩ := hRange
  obtain ⟨hHour0, hMinute0, hSecond0, -⟩ := Letters.bounds h
  constructor
  · constructor <;> simp only [Letters.tm] <;> omega
  · simp only [Tm.wall, Letters.tm, Int.toNat_of_nonneg hHour0, Int.toNat_of_nonneg hMinute0,
      Int.toNat_of_nonneg hSecond0,
      Int.toNat_of_nonneg (by omega : 0 ≤ l.day)]

theorem drop_rfc7231 {l : Letters} {month : Fin 12} {tm : Tm}
    (hMonth : monthIndex [l.m0, l.m1, l.m2] = some month) (hRange : l.InRange)
    (h : ∀ c ∈ l.digits, isdigit c = true) (hReal : tm.Real) (hDay : tm.mday = (l.tm month).mday)
    (hMon : tm.mon = month)
    (hYear : tm.year = l.year) (hHour : tm.hour = (l.tm month).hour) (hMin : tm.min = (l.tm month).min)
    (hSec : tm.sec = (l.tm month).sec) : (httpDateRfc7231 tm 30).drop 5 = l.text.drop 5 := by
  obtain ⟨hOne, hMax, hYearMin, hHourMax, hMinuteMax, hSecondMax⟩ := hRange
  obtain ⟨hHour0, hMinute0, hSecond0, hYearMax⟩ := Letters.bounds h
  obtain ⟨y, hy⟩ := Int.eq_ofNat_of_zero_le (by omega : 0 ≤ l.year)
  simp only [Letters.tm] at hDay hHour hMin hSec
  rw [httpDateRfc7231_eq hReal (hYear.trans hy) (by omega) (by omega) (Nat.le_refl 30)]
  apply drop_text
  · exact lettersOf_eq h (by omega) hy.symm (by omega) (by omega) (by omega)
  · have hName := months_of_monthIndex hMonth
    rw [hName, ← hMon]
    exact (months_three tm.mon).symm

theorem Letters.day_congr {l l' : Letters} (h : l.digits = l'.digits) : l.day = l'.day ∧
    l.year = l'.year := by
  simp only [Letters.digits, List.cons.injEq] at h
  obtain ⟨h0, h1, h2, h3, h4, h5, -⟩ := h
  constructor
  · simp only [Letters.day, h0, h1]
  · simp only [Letters.year, h2, h3, h4, h5]

theorem forall_digits {l : Letters} : (∀ i ∈ digitPlaces, isdigit (charAt l.text i) = true) ↔
    ∀ c ∈ l.digits, isdigit c = true := by
  rw [← digits_eq, List.forall_mem_map]

theorem wall_lt {tm : Tm} {t : Int} (hReal : tm.Real) (hSec : tm.sec < 60) (hYear : tm.year ≤ 9999)
    (hWall : tm.wall = t) :
    t < 253402300800 := by
  have hBounds : dayNumber tm.year tm.mon tm.mday < daysBeforeYear (tm.year + 1) := hReal.date.number_bounds.2
  have hMono : daysBeforeYear (tm.year + 1) ≤ daysBeforeYear 10000 := daysBeforeYear_mono (by omega)
  have hEnd : daysBeforeYear 10000 = 3652425 := by decide
  have hHour := hReal.hour_lt
  have hMin := hReal.min_lt
  rw [← hWall, Tm.wall, wallOf]
  omega

theorem not_exact_of_misread (gmtime : Int → Tm) {text : Bytes} (h : Misread text) :
    0 ≤ httpDateParse text ∧ ¬DateExact gmtime text (httpDateParse text) := by
  obtain ⟨l, month, rfl, hMonth, hRange, hFrom, hBad⟩ := h
  rw [httpDateParse_of_inRange hMonth hRange]
  refine ⟨hFrom, ?_⟩
  rintro ⟨hDigits, ⟨tm, hReal, hLow, hHigh, -, hText⟩, -⟩
  rw [forall_digits] at hDigits
  rcases hBad with ⟨c, hc, hNo⟩ | hLong
  · exact absurd (hDigits c hc) (Bool.eq_false_iff.mp hNo)
  · obtain ⟨y, hy⟩ := Int.eq_ofNat_of_zero_le (by omega : 0 ≤ tm.year)
    rw [httpDateRfc7231_eq hReal hy (by omega) (by omega) (Nat.le_refl 30)] at hText
    obtain ⟨hSame, hName⟩ := text_injective hText
    obtain ⟨hDay, hYear, -⟩ := @fields_lettersOf tm y hReal (by omega)
    rw [hName, monthIndex_lettersOf] at hMonth
    obtain ⟨hSameDay, hSameYear⟩ := Letters.day_congr hSame
    obtain rfl := Option.some.inj hMonth
    have hLength := hReal.mday_le
    rw [hSameDay, hSameYear, hDay, hYear, ← hy] at hLong
    omega

/-- The reader is exact but for texts that pass its checks by accident. -/
theorem parse_exact_iff {gmtime : Int → Tm} (hGmtime : IsGmtime gmtime) (text : Bytes) :
    (∀ t, 0 ≤ t → httpDateParse text = t → DateExact gmtime text t) ↔ ¬Misread text := by
  constructor
  · intro h hMisread
    obtain ⟨hFrom, hNot⟩ := not_exact_of_misread gmtime hMisread
    exact hNot (h _ hFrom rfl)
  · intro hNot t hFrom hParse
    obtain ⟨l, month, rfl, hMonth, hRange⟩ := inRange_of_parse (hParse.symm ▸ hFrom)
    rw [httpDateParse_of_inRange hMonth hRange] at hParse
    have hDigits : ∀ c ∈ l.digits, isdigit c = true := by
      intro c hc
      by_contra hNo
      exact hNot ⟨l, month, rfl, hMonth, hRange, hParse.symm ▸ hFrom, .inl ⟨c, hc, Bool.eq_false_iff.mpr hNo⟩⟩
    have hDay : l.day ≤ monthLength (isLeap l.year) month := by
      by_contra hLong
      exact hNot ⟨l, month, rfl, hMonth, hRange, hParse.symm ▸ hFrom, .inr (by omega)⟩
    obtain ⟨hReal, hWall⟩ := Letters.real_tm hRange hDigits hDay
    obtain ⟨-, -, -, hYearMax⟩ := Letters.bounds hDigits
    have hYearMin := hRange.le_year
    refine ⟨forall_digits.mpr hDigits, ⟨l.tm month, hReal, hYearMin, hYearMax, hWall.trans hParse, ?_⟩,
      fun hSixty => ?_⟩
    · exact (drop_rfc7231 hMonth hRange hDigits hReal rfl rfl rfl rfl rfl rfl).symm
    · have hSecond : (l.tm month).sec < 60 := by
        have hNe := Letters.second_ne hDigits hSixty
        have hMax := hRange.second_le
        simp only [Letters.tm]
        omega
      obtain ⟨hDenotes, hOff⟩ := hGmtime t hFrom (wall_lt hReal hSecond hYearMax (hWall.trans hParse))
      have hSame : (gmtime t).wall = (l.tm month).wall := by
        rw [hDenotes.wall_eq, hOff, Int.add_zero, hWall, hParse]
      obtain ⟨eDay, eMon, eYear, eHour, eMin, eSec⟩ :=
        fields_unique hDenotes.toReal hReal hDenotes.sec_lt hSecond hSame
      exact drop_rfc7231 hMonth hRange hDigits hDenotes.toReal eDay eMon eYear eHour eMin eSec

/-- `Sun, 06 Nov 1994 08:49:37 GMT` -/
def november : Letters := ⟨83, 117, 110, 48, 54, 78, 111, 118, 49, 57, 57, 52, 48, 56, 52, 57, 51, 55⟩

/-- `Wed, 31 Feb 2021 00:00:00 GMT` -/
def february : Letters := ⟨87, 101, 100, 51, 49, 70, 101, 98, 50, 48, 50, 49, 48, 48, 48, 48, 48, 48⟩

theorem parse_exact_november : IsGmtime civilTime ∧ DateExact civilTime november.text 784111777 := by
  refine ⟨isGmtime_civilTime, (parse_exact_iff isGmtime_civilTime november.text).mpr ?_ 784111777
    (by decide) (by decide +kernel)⟩
  rintro ⟨l, month, hText, hMonth, -, -, hBad⟩
  obtain ⟨hDigits, hName⟩ := text_injective (congrArg (List.drop 5) hText)
  obtain ⟨hDay, hYear⟩ := Letters.day_congr hDigits
  rw [← hName] at hMonth
  obtain rfl : (10 : Fin 12) = month := Option.some.inj (Eq.trans (by decide) hMonth)
  rw [← hDigits, ← hDay, ← hYear] at hBad
  revert hBad
  decide

theorem parse_february : february.text = ascii "Wed, 31 Feb 2021 00:00:00 GMT" ∧
    httpDateParse february.text = 1614729600 ∧
    ∀ gmtime, ¬DateExact gmtime february.text 1614729600 := by
  have hParse : httpDateParse february.text = 1614729600 := by decide +kernel
  refine ⟨by decide, hParse, fun gmtime => ?_⟩
  have hMisread : Misread february.text :=
    ⟨february, 1, rfl, by decide, ⟨by decide, by decide, by decide, by decide, by decide, by decide⟩, by
      decide, .inr (by decide)⟩
  have hNot := (not_exact_of_misread gmtime hMisread).2
  rwa [hParse] at hNot

end Cweb.Date
