import Cweb.Http.AccessLog

/-!
# The time in the two access logs

The server takes the offset for what `mktime` adds to the wall clock, but
`mktime` already takes the offset off again. The middleware leaves the offset
to `strftime`.
-/

namespace Cweb.AccessLog

open Sv Date

/-- The text of a time as an access log has it: its fields and its offset. -/
def clfText (tm : Tm) : Bytes :=
  stamp tm (paddedInt 4 tm.year) ++ zone tm.off (tm.off.tdiv 3600).natAbs ((tm.off.tmod 3600).tdiv 60).natAbs

/-- Both logs show one text, and its wall clock less its offset is the moment. -/
structure SameTime (mktime : Tm → Int) (t : Int) (tm : Tm) : Prop where
  same : clfTimestamp tm = ascii "[" ++ httpDateClf mktime t tm ++ ascii "]"
  shown : ∃ shown : Tm, shown.Real ∧ httpDateClf mktime t tm = clfText shown ∧ shown.wall - shown.off = t

/-! ## The year -/

theorem padded_eq_decimal_iff (width n : Nat) : padded width n = decimal n ↔ width ≤ (decimal n).length := by
  rw [padded, List.append_left_eq_self, List.replicate_eq_nil_iff]
  exact Nat.sub_eq_zero_iff_le

theorem decimalInt_eq_paddedInt_iff (y : Int) : decimalInt y = paddedInt 4 y ↔ 4 ≤ (decimalInt y).length := by
  cases y with
  | ofNat n => exact eq_comm.trans (padded_eq_decimal_iff 4 n)
  | negSucc n =>
    simp only [decimalInt, paddedInt, List.cons.injEq, true_and, List.length_cons]
    rw [eq_comm, padded_eq_decimal_iff]
    omega

/-! ## The zone -/

theorem length_zone {off : Int} {hours minutes : Nat} (hHours : hours < 100) (hMinutes : minutes < 100) :
    (zone off hours minutes).length = 5 := by
  rw [zone, padded_two hHours, padded_two hMinutes]
  split <;> rfl

theorem hours_eq (off : Int) : (off.tdiv 3600).natAbs = off.natAbs / 3600 := Int.natAbs_tdiv off 3600

theorem minutes_eq (off : Int) : ((off.tmod 3600).tdiv 60).natAbs = off.natAbs % 3600 / 60 := by
  rw [Int.natAbs_tdiv, Int.natAbs_tmod]
  rfl

theorem zone_eq_zero_iff {off : Int} (hRange : off.natAbs ≤ 50400) (hMinute : off % 60 = 0) :
    zone off (off.natAbs / 3600) (off.natAbs % 3600 / 60) = zone 0 0 0 ↔ off = 0 := by
  constructor
  · intro h
    rw [zone, zone, padded_two (by omega), padded_two (by omega), padded_two (by decide)] at h
    obtain ⟨h, hMinutes⟩ := List.append_inj' h rfl
    obtain ⟨-, hHours⟩ := List.append_inj' h rfl
    have hDigit : ∀ {n : Nat}, n < 10 → digitChar n = digitChar 0 → n = 0 := by
      intro n hn hEq
      have hNat := congrArg UInt8.toNat hEq
      rw [digitChar_toNat hn, digitChar_toNat (by decide)] at hNat
      omega
    simp only [List.cons.injEq, and_true] at hMinutes hHours
    have h1 := hDigit (by omega) hMinutes.1
    have h2 := hDigit (by omega) hMinutes.2
    have h3 := hDigit (by omega) hHours.1
    have h4 := hDigit (by omega) hHours.2
    omega
  · rintro rfl
    rfl

/-! ## The two logs -/

theorem stamp_injective (tm : Tm) {year year' : Bytes} (h : stamp tm year = stamp tm year') :
    year = year' := by
  simpa [stamp] using h

theorem httpDateClf_eq {mktime : Tm → Int} {t : Int} {tm : Tm} (hMktime : mktime tm = t) :
    httpDateClf mktime t tm = (stamp tm (paddedInt 4 tm.year) ++ zone 0 0 0).take 39 := by
  rw [httpDateClf, hMktime, Int.sub_self]
  rfl

theorem length_paddedInt_le {y : Int} (hLow : -2 ^ 31 ≤ y) (hHigh : y < 2 ^ 31) :
    (paddedInt 4 y).length ≤ 11 := by
  have hDecimal : ∀ {n : Nat}, n ≤ 2 ^ 31 → (decimal n).length ≤ 10 :=
    fun hn => length_decimal_of_lt 9 (by omega)
  cases y with
  | ofNat n =>
    have hn := @hDecimal n (by simp only [Int.ofNat_eq_natCast] at hHigh; omega)
    simp only [paddedInt, padded, List.length_append, List.length_replicate]
    omega
  | negSucc n =>
    have hn := @hDecimal (n + 1) (by omega)
    simp only [paddedInt, padded, List.length_cons, List.length_append, List.length_replicate]
    omega

theorem take_clf {tm : Tm} (hReal : tm.Real) (hLow : -2 ^ 31 ≤ tm.year) (hHigh : tm.year < 2 ^ 31) :
    (stamp tm (paddedInt 4 tm.year) ++ zone 0 0 0).take 39 = stamp tm (paddedInt 4 tm.year) ++
      zone 0 0 0 := by
  have hDay := hReal.mday_le_31
  have hHour := hReal.hour_lt
  have hMin := hReal.min_lt
  have hSec := hReal.sec_le
  have hYear := length_paddedInt_le hLow hHigh
  have hZone : (zone 0 0 0).length = 5 := by decide
  apply List.take_of_length_le
  rw [stamp, padded_two (by omega : tm.mday < 100), padded_two (by omega : tm.hour < 100),
    padded_two (by omega : tm.min < 100),
    padded_two (by omega : tm.sec < 100), months_three]
  have hSlash : (ascii "/").length = 1 := rfl
  have hColon : (ascii ":").length = 1 := rfl
  have hBlank : (ascii " ").length = 1 := rfl
  simp only [List.length_append, List.length_cons, List.length_nil, hZone, hSlash, hColon, hBlank]
  omega

/-- For every moment and every zone of whole minutes: the logs agree exactly in
UTC, in the years that have four characters. -/
theorem clf_time_iff {mktime : Tm → Int} {t : Int} {tm : Tm} (hLocal : Denotes t tm)
    (hWest : -43200 ≤ tm.off) (hEast : tm.off ≤ 50400)
    (hMinute : tm.off % 60 = 0) (hLow : -2 ^ 31 ≤ tm.year) (hHigh : tm.year < 2 ^ 31)
    (hMktime : mktime tm = t) :
    SameTime mktime t tm ↔ tm.off = 0 ∧ 4 ≤ (decimalInt tm.year).length := by
  have hText : httpDateClf mktime t tm = stamp tm (paddedInt 4 tm.year) ++ zone 0 0 0 :=
    (httpDateClf_eq hMktime).trans (take_clf hLocal.toReal hLow hHigh)
  constructor
  · rintro ⟨hSame, -⟩
    rw [hText, clfTimestamp, hours_eq, minutes_eq] at hSame
    simp only [List.append_assoc] at hSame
    obtain hSame := List.append_cancel_left hSame
    rw [← List.append_assoc, ← List.append_assoc (stamp tm _)] at hSame
    obtain hSame := List.append_cancel_right hSame
    obtain ⟨hStamp, hZone⟩ := List.append_inj' hSame ((length_zone (by omega) (by omega)).trans rfl)
    exact ⟨(zone_eq_zero_iff (by omega) hMinute).mp hZone,
      (decimalInt_eq_paddedInt_iff tm.year).mp (stamp_injective tm hStamp)⟩
  · rintro ⟨hUtc, hFour⟩
    have hZone : zone tm.off (tm.off.tdiv 3600).natAbs ((tm.off.tmod 3600).tdiv 60).natAbs = zone 0 0 0 := by
      rw [hUtc]
      rfl
    refine ⟨?_, tm, hLocal.toReal, ?_, ?_⟩
    · rw [hText, clfTimestamp, hZone, (decimalInt_eq_paddedInt_iff tm.year).mpr hFour,
        List.append_assoc (ascii "[")]
    · rw [hText, clfText, hZone]
    · rw [hLocal.wall_eq, Int.add_sub_cancel]

def tenInUtc : Tm := ⟨1, 1, 5, 2026, 10, 0, 0, 0⟩

theorem clf_time_utc : Denotes noonInUtc tenInUtc ∧ SameTime Tm.moment noonInUtc tenInUtc := by
  have hLocal : Denotes noonInUtc tenInUtc :=
    ⟨⟨by decide, by decide, by decide, by decide, by decide⟩, by decide, by decide, by decide⟩
  refine ⟨hLocal, (clf_time_iff hLocal ?_ ?_ ?_ ?_ ?_ ?_).mpr ?_⟩ <;> decide

/-- Two hours east of UTC the server shows the local time as one of UTC. -/
theorem clf_time_east : Denotes noonInUtc noonOfJune ∧ Tm.moment noonOfJune = noonInUtc ∧
    httpDateClf Tm.moment noonInUtc noonOfJune = ascii "01/Jun/2026:12:00:00 +0000" ∧
    clfTimestamp noonOfJune = ascii "[01/Jun/2026:12:00:00 +0200]" ∧
      ¬SameTime Tm.moment noonInUtc noonOfJune := by
  refine ⟨⟨⟨by decide, by decide, by decide, by decide, by decide⟩, by decide, by decide, by decide⟩, by
    decide, by decide +kernel,
    by decide +kernel, fun h => ?_⟩
  exact absurd h.same (by decide +kernel)

end Cweb.AccessLog
