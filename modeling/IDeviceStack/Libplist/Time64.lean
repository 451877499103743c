/-
# `Libplist.Time64` — the calendar of `time64.c`

`gmtime64_r` breaks a number of seconds down into a date, `timegm64` puts a date back
together.  Both go through the years, and one of them through the months, one by one,
after they have taken off whole cycles of 400 years.

* `Time64_T` and `Year` are `Int`: from an `int` year, or from a `Time64_T`, no sum here
  leaves 64 bits.  The products of `timegm64` with `tm_hour` and `tm_min` are of type `int`, and
  fit it for any time of a day.  `tm_year` is an `int`, and `gmtime64_r` fails where a year is
  none.  Division and `%` are those of C, towards zero.
* A table is read at an index that may be outside of it; then there is no result.
* `tm_isdst` is always 0 and left out; `SHOULD_USE_SYSTEM_GMTIME` is 0 in this build.

**Proved here.**  `gmtime64_r` gives a date that `check_tm` accepts and that stands for
the seconds it was given (`gmtime64R_spec`); `timegm64` gives the seconds of any date
whose month is one (`timegm64_eq`), and reads outside of its table for any other
(`timegm64_isSome`).
-/
import IDeviceStack.Lib.Calendar
import Mathlib.Algebra.Order.Ring.Int

namespace IDeviceStack.Libplist

open Lib Option

/-! ## Tables -/

/-- `IS_LEAP`; `n` counts from 1900. -/
def isLeap (n : Int) : Bool :=
  (n + 1900).tmod 400 = 0 ∨ (n + 1900).tmod 4 = 0 ∧ (n + 1900).tmod 100 ≠ 0

def daysInMonth (leap : Bool) : List Int :=
  if leap then [31, 29, 31, 30, 31, 30, 31, 31, 30, 31, 30, 31]
  else [31, 28, 31, 30, 31, 30, 31, 31, 30, 31, 30, 31]

def julianDaysByMonth (leap : Bool) : List Int :=
  if leap then [0, 31, 60, 91, 121, 152, 182, 213, 244, 274, 305, 335]
  else [0, 31, 59, 90, 120, 151, 181, 212, 243, 273, 304, 334]

def lengthOfYear (leap : Bool) : Int := if leap then 366 else 365

def daysInGregorianCycle : Int := 365 * 400 + 100 - 4 + 1

/-- The entry at an index, if there is one. -/
def entry (table : List Int) (i : Int) : Option Int := if 0 ≤ i then table[i.toNat]? else none

/-! ## Dates -/

/-- `struct tm`; the year counts from 1900, and the month from 0. -/
structure TM where
  sec : Int
  min : Int
  hour : Int
  mday : Int
  mon : Int
  year : Int
  wday : Int
  yday : Int
  deriving DecidableEq, Repr

/-- The asserts of `check_tm`. -/
def checkTm (tm : TM) : Prop :=
  (0 ≤ tm.sec ∧ tm.sec ≤ 61) ∧ (0 ≤ tm.min ∧ tm.min ≤ 59) ∧ (0 ≤ tm.hour ∧ tm.hour ≤ 23) ∧
    (1 ≤ tm.mday ∧ ∀ days ∈ entry (daysInMonth (isLeap tm.year)) tm.mon, tm.mday ≤ days) ∧
    (0 ≤ tm.mon ∧ tm.mon ≤ 11) ∧ (0 ≤ tm.wday ∧ tm.wday ≤ 6) ∧
    (0 ≤ tm.yday ∧ tm.yday ≤ lengthOfYear (isLeap tm.year))

/-! ## `timegm64` -/

/-- `while (year < orig_year)`. -/
def addYears (origYear : Int) : Nat → Int → Int → Option Int
  | 0, _, _ => none
  | fuel + 1, year, days =>
    if year < origYear then addYears origYear fuel (year + 1) (days + lengthOfYear (isLeap year))
    else some days

/-- `do ... while (year >= orig_year)`. -/
def subYears (origYear : Int) : Nat → Int → Int → Option Int
  | 0, _, _ => none
  | fuel + 1, year, days =>
    let days := days - lengthOfYear (isLeap year)
    if year - 1 ≥ origYear then subYears origYear fuel (year - 1) days else some days

/-- The days up to the first one of a year, which has been brought near to 1970. -/
def daysToYear (origYear days : Int) : Option Int :=
  if origYear > 70 then addYears origYear (origYear.natAbs + 1) 70 days
  else if origYear < 70 then subYears origYear (origYear.natAbs + 71) 69 days
  else some days

def timegm64 (date : TM) : Option Int := do
  let cycles := if date.year > 100 ∨ date.year < -300 then (date.year - 100).tdiv 400 else 0
  let origYear := date.year - cycles * 400
  let days ← daysToYear origYear (cycles * daysInGregorianCycle)
  let julian ← entry (julianDaysByMonth (isLeap origYear)) date.mon
  let days := days + julian + (date.mday - 1)
  some (days * 60 * 60 * 24 + date.hour * 60 * 60 + date.min * 60 + date.sec)

/-! ## `gmtime64_r` -/

def cheatDays : Int := 1199145600 / 24 / 60 / 60
def cheatYears : Int := 108

/-- `WRAP`: `a` and `b`. -/
def wrap (a b m : Int) : Int × Int := if a < 0 then (a + m, b - 1) else (a, b)

/-- The years from `year` on: `m` and `year`. -/
def yearsUp : Nat → Int → Int → Option (Int × Int)
  | 0, _, _ => none
  | fuel + 1, m, year =>
    if m ≥ lengthOfYear (isLeap year) then
      yearsUp fuel (m - lengthOfYear (isLeap year)) (year + 1)
    else some (m, year)

/-- The years down from `year`. -/
def yearsDown : Nat → Int → Int → Option (Int × Int)
  | 0, _, _ => none
  | fuel + 1, m, year =>
    if m < -lengthOfYear (isLeap year) then
      yearsDown fuel (m + lengthOfYear (isLeap year)) (year - 1)
    else some (m, year)

/-- The months from `mon` on: `m` and `v_tm_mon`. -/
def monthsUp (leap : Bool) : Nat → Int → Int → Option (Int × Int)
  | 0, _, _ => none
  | fuel + 1, m, mon => do
      let days ← entry (daysInMonth leap) mon
      if m ≥ days then monthsUp leap fuel (m - days) (mon + 1) else some (m, mon)

/-- The months down from `mon`; in the end `m` counts from the first day of the month. -/
def monthsDown (leap : Bool) : Nat → Int → Int → Option (Int × Int)
  | 0, _, _ => none
  | fuel + 1, m, mon => do
      let days ← entry (daysInMonth leap) mon
      if m < -days then monthsDown leap fuel (m + days) (mon - 1) else some (m + days, mon)

/-- The year, the month and the day of the month, from 0, of the day `m` of a year. -/
def breakDays (m year : Int) : Option (Int × Int × Int) :=
  if m ≥ 0 then do
    let cycles := m.tdiv daysInGregorianCycle
    let m := m - cycles * daysInGregorianCycle
    let (m, year) ← yearsUp (m.natAbs + 1) m (year + cycles * 400)
    let (m, mon) ← monthsUp (isLeap year) 12 m 0
    some (year, mon, m)
  else do
    let cycles := m.tdiv daysInGregorianCycle + 1
    let m := m - cycles * daysInGregorianCycle
    let (m, year) ← yearsDown (m.natAbs + 1) m (year - 1 + cycles * 400)
    let (m, mon) ← monthsDown (isLeap year) 12 m 11
    some (year, mon, m)

/-- The search for the year begins in 2008, or in 1970. -/
def breakFromEpoch (tday : Int) : Option (Int × Int × Int) :=
  if tday ≥ cheatDays then breakDays (tday - cheatDays) cheatYears else breakDays tday 70

def gmtime64R (time : Int) : Option TM := do
  let (sec, min) := wrap (time.tmod 60) ((time.tdiv 60).tmod 60) 60
  let (min, hour) := wrap min (((time.tdiv 60).tdiv 60).tmod 24) 60
  let (hour, tday) := wrap hour (((time.tdiv 60).tdiv 60).tdiv 24) 24
  let wday := (tday + 4).tmod 7
  let wday := if wday < 0 then wday + 7 else wday
  let (year, mon, m) ← breakFromEpoch tday
  if -2 ^ 31 ≤ year ∧ year < 2 ^ 31 then do
    let julian ← entry (julianDaysByMonth (isLeap year)) mon
    some ⟨sec, min, hour, m + 1, mon, year, wday, julian + m⟩
  else none

/-! ## Years and months -/

theorem isLeap_eq (n : Int) : isLeap n = decide (IsLeap (n + 1900)) := by
  simp only [isLeap, tmod_eq_zero_iff, ne_eq]
  rfl

theorem lengthOfYear_eq (n : Int) : lengthOfYear (isLeap n) = yearLength (n + 1900) := by
  rw [isLeap_eq, lengthOfYear, yearLength]
  simp only [decide_eq_true_eq]

theorem lengthOfYear_bounds (leap : Bool) : 365 ≤ lengthOfYear leap ∧ lengthOfYear leap ≤ 366 := by
  cases leap
  · decide
  · decide

/-- The first day of a year that counts from 1900. -/
def yearStart (year : Int) : Int := newYear (year + 1900)

theorem yearStart_succ (year : Int) :
    yearStart (year + 1) = yearStart year + lengthOfYear (isLeap year) := by
  rw [yearStart, yearStart, lengthOfYear_eq, ← newYear_succ]
  congr 1
  omega

theorem yearStart_cycles (year k : Int) :
    yearStart (year - k * 400) = yearStart year - k * daysInGregorianCycle := by
  rw [yearStart, yearStart, daysInGregorianCycle]
  have hcycle := newYear_add_cycles (year + 1900) (-k)
  have hyear : year - k * 400 + 1900 = year + 1900 + 400 * -k := by omega
  rw [hyear, hcycle]
  omega

theorem isLeap_cycles (year k : Int) : isLeap (year - k * 400) = isLeap year := by
  have hyear : year - k * 400 + 1900 = year + 1900 + 400 * -k := by omega
  rw [isLeap_eq, isLeap_eq, hyear]
  simp only [isLeap_add_cycles]

theorem entry_month (leap : Bool) {mon : Int} (h : 0 ≤ mon ∧ mon ≤ 11) :
    ∃ days julian, entry (daysInMonth leap) mon = some days ∧
      entry (julianDaysByMonth leap) mon = some julian ∧ (28 ≤ days ∧ days ≤ 31) ∧ 0 ≤ julian ∧
      julian + days ≤ lengthOfYear leap ∧
      (mon = 0 → julian = 0) ∧ (mon = 11 → julian + days = lengthOfYear leap) ∧
      (mon < 11 → entry (julianDaysByMonth leap) (mon + 1) = some (julian + days)) := by
  obtain ⟨n, rfl⟩ := Int.eq_ofNat_of_zero_le h.1
  have hn : n < 12 := by omega
  have hall : ∀ leap : Bool, ∀ n < 12,
      (entry (daysInMonth leap) (Int.ofNat n)).any fun days =>
        (entry (julianDaysByMonth leap) (Int.ofNat n)).any fun julian =>
          (28 ≤ days ∧ days ≤ 31) ∧ 0 ≤ julian ∧ julian + days ≤ lengthOfYear leap ∧
          (Int.ofNat n = 0 → julian = 0) ∧
          (Int.ofNat n = 11 → julian + days = lengthOfYear leap) ∧
          (Int.ofNat n < 11 →
            entry (julianDaysByMonth leap) (Int.ofNat n + 1) = some (julian + days)) := by
    decide
  have hentry := hall leap n hn
  obtain ⟨days, hdays, hentry⟩ := (any_eq_true _ _).mp hentry
  obtain ⟨julian, hjulian, hentry⟩ := (any_eq_true _ _).mp hentry
  exact ⟨days, julian, hdays, hjulian, of_decide_eq_true hentry⟩

theorem entry_eq_none {leap : Bool} {mon : Int} (h : ¬ (0 ≤ mon ∧ mon ≤ 11)) :
    entry (julianDaysByMonth leap) mon = none := by
  have hlen : (julianDaysByMonth leap).length = 12 := by
    cases leap
    · rfl
    · rfl
  rw [entry]
  split
  · refine List.getElem?_eq_none ?_
    omega
  · rfl

/-! ## `timegm64` -/

theorem addYears_spec {origYear year : Int} {fuel : Nat} (h : year ≤ origYear)
    (hfuel : origYear - year < fuel) (days : Int) :
    addYears origYear fuel year days = some (days + yearStart origYear - yearStart year) := by
  induction fuel generalizing year days with
  | zero => omega
  | succ fuel ih =>
    rw [addYears]
    by_cases hlt : year < origYear
    · have hsucc := yearStart_succ year
      rw [if_pos hlt, ih (by omega) (by omega), hsucc]
      congr 1
      omega
    · obtain rfl : year = origYear := by omega
      rw [if_neg hlt]
      congr 1
      omega

theorem subYears_spec {origYear year : Int} {fuel : Nat} (h : origYear ≤ year)
    (hfuel : year - origYear < fuel) (days : Int) :
    subYears origYear fuel year days = some (days + yearStart origYear - yearStart (year + 1)) := by
  induction fuel generalizing year days with
  | zero => omega
  | succ fuel ih =>
    have hsucc := yearStart_succ year
    rw [subYears]
    by_cases hle : year - 1 ≥ origYear
    · have hyear : year - 1 + 1 = year := by omega
      rw [if_pos hle, ih hle (by omega), hyear, hsucc]
      congr 1
      omega
    · obtain rfl : year = origYear := by omega
      rw [if_neg hle, hsucc]
      congr 1
      omega

/-- **The years** of `timegm64`. -/
theorem daysToYear_spec (origYear days : Int) :
    daysToYear origYear days = some (days + yearStart origYear) := by
  have h1970 : yearStart 70 = 0 := newYear_1970
  rw [daysToYear]
  by_cases hafter : origYear > 70
  · rw [if_pos hafter, addYears_spec (by omega) (by omega), h1970]
    congr 1
    omega
  by_cases hbefore : origYear < 70
  · have hnext : yearStart (69 + 1) = 0 := h1970
    rw [if_neg hafter, if_pos hbefore, subYears_spec (by omega) (by omega), hnext]
    congr 1
    omega
  · obtain rfl : origYear = 70 := by omega
    rw [if_neg hafter, if_neg hbefore, h1970, Int.add_zero]

/-- The seconds that a date stands for, whose month begins with the day `julian`. -/
def TM.seconds (tm : TM) (julian : Int) : Int :=
  (((yearStart tm.year + julian + (tm.mday - 1)) * 24 + tm.hour) * 60 + tm.min) * 60 + tm.sec

theorem timegm64_eq (date : TM) :
    timegm64 date =
      (entry (julianDaysByMonth (isLeap date.year)) date.mon).map date.seconds := by
  rw [timegm64]
  generalize (if date.year > 100 ∨ date.year < -300 then (date.year - 100).tdiv 400 else 0) = cycles
  simp only [daysToYear_spec, isLeap_cycles, yearStart_cycles]
  cases entry (julianDaysByMonth (isLeap date.year)) date.mon with
  | none => rfl
  | some julian =>
    rw [map_some, TM.seconds]
    refine congrArg some ?_
    omega

/-- **`timegm64`** of a date whose month is none reads outside of its table. -/
theorem timegm64_isSome (date : TM) : (timegm64 date).isSome ↔ 0 ≤ date.mon ∧ date.mon ≤ 11 := by
  rw [timegm64_eq, isSome_map]
  constructor
  · intro h
    by_contra hmon
    rw [entry_eq_none hmon] at h
    cases h
  · intro h
    obtain ⟨days, julian, -, hjulian, -⟩ := entry_month (isLeap date.year) h
    rw [hjulian]
    rfl

/-! ## `gmtime64_r` -/

theorem yearsUp_spec (fuel : Nat) (m year : Int) (hm : 0 ≤ m) (hfuel : m < fuel) :
    ∃ m' year', yearsUp fuel m year = some (m', year') ∧
      yearStart year' + m' = yearStart year + m ∧ 0 ≤ m' ∧ m' < lengthOfYear (isLeap year') := by
  induction fuel generalizing m year with
  | zero => omega
  | succ fuel ih =>
    have hbounds := lengthOfYear_bounds (isLeap year)
    have hsucc := yearStart_succ year
    rw [yearsUp]
    by_cases hmore : m ≥ lengthOfYear (isLeap year)
    · obtain ⟨m', year', hrun, hsame, hrange⟩ :=
        ih (m - lengthOfYear (isLeap year)) (year + 1) (by omega) (by omega)
      exact ⟨m', year', by rw [if_pos hmore, hrun], by omega, hrange⟩
    · exact ⟨m, year, if_neg hmore, rfl, hm, by omega⟩

theorem yearsDown_spec (fuel : Nat) (m year : Int) (hm : m < 0) (hfuel : -m < fuel) :
    ∃ m' year', yearsDown fuel m year = some (m', year') ∧
      yearStart (year' + 1) + m' = yearStart (year + 1) + m ∧ m' < 0 ∧
      -lengthOfYear (isLeap year') ≤ m' := by
  induction fuel generalizing m year with
  | zero => omega
  | succ fuel ih =>
    have hbounds := lengthOfYear_bounds (isLeap year)
    have hsucc := yearStart_succ year
    rw [yearsDown]
    by_cases hmore : m < -lengthOfYear (isLeap year)
    · obtain ⟨m', year', hrun, hsame, hrange⟩ :=
        ih (m + lengthOfYear (isLeap year)) (year - 1) (by omega) (by omega)
      have hyear : year - 1 + 1 = year := by omega
      rw [hyear] at hsame
      exact ⟨m', year', by rw [if_pos hmore, hrun], by omega, hrange⟩
    · exact ⟨m, year, if_neg hmore, rfl, hm, by omega⟩

/-- What the months leave of the day `total` of a year. -/
def MonthOf (leap : Bool) (total : Int) (m mon : Int) : Prop :=
  (0 ≤ mon ∧ mon ≤ 11) ∧ ∃ days julian, entry (daysInMonth leap) mon = some days ∧
    entry (julianDaysByMonth leap) mon = some julian ∧ julian + m = total ∧ 0 ≤ m ∧ m < days

theorem monthsUp_spec {leap : Bool} (fuel : Nat) (m : Int) {mon julian total : Int}
    (hmon : 0 ≤ mon ∧ mon ≤ 11) (hfuel : 12 - mon ≤ fuel)
    (hjulian : entry (julianDaysByMonth leap) mon = some julian) (htotal : julian + m = total)
    (hm : 0 ≤ m) (hlt : total < lengthOfYear leap) :
    ∃ m' mon', monthsUp leap fuel m mon = some (m', mon') ∧ MonthOf leap total m' mon' := by
  induction fuel generalizing m mon julian with
  | zero => omega
  | succ fuel ih =>
    obtain ⟨days, julian', hdays, hjulian', hmin, hpos, hle, hfirst, hlast, hnext⟩ :=
      entry_month leap hmon
    obtain rfl : julian' = julian := some.inj (hjulian'.symm.trans hjulian)
    rw [monthsUp, hdays]
    by_cases hmore : m ≥ days
    · have h11 : mon < 11 := by
        by_contra hge
        have hend := hlast (by omega)
        omega
      obtain ⟨m', mon', hrun, hof⟩ := ih (m - days)
        (show 0 ≤ mon + 1 ∧ mon + 1 ≤ 11 by omega) (by omega)
        (hnext h11) (by omega) (by omega)
      exact ⟨m', mon', by rw [bind_eq_bind, bind_some, if_pos hmore, hrun], hof⟩
    · refine ⟨m, mon, by rw [bind_eq_bind, bind_some, if_neg hmore], hmon, days,
        julian', hdays, hjulian, htotal, hm, by omega⟩

theorem monthsDown_spec {leap : Bool} (fuel : Nat) (m : Int) {mon days julian total : Int}
    (hmon : 0 ≤ mon ∧ mon ≤ 11) (hfuel : mon + 1 ≤ fuel)
    (hdays : entry (daysInMonth leap) mon = some days)
    (hjulian : entry (julianDaysByMonth leap) mon = some julian)
    (htotal : julian + days + m = total) (hm : m < 0) (hpos : 0 ≤ total) :
    ∃ m' mon', monthsDown leap fuel m mon = some (m', mon') ∧ MonthOf leap total m' mon' := by
  induction fuel generalizing m mon days julian with
  | zero => omega
  | succ fuel ih =>
    rw [monthsDown, hdays]
    by_cases hmore : m < -days
    · have h0 : 0 < mon := by
        by_contra hle
        obtain ⟨-, julian', -, hjulian', -, -, -, hfirst, -⟩ := entry_month leap hmon
        obtain rfl : julian' = julian := some.inj (hjulian'.symm.trans hjulian)
        have hstart := hfirst (by omega)
        omega
      -- the month before ends where this one begins
      obtain ⟨days', julian', hdays', hjulian', -, -, -, -, -, hnext⟩ :=
        entry_month leap (show 0 ≤ mon - 1 ∧ mon - 1 ≤ 11 by omega)
      have hprev := hnext (by omega)
      rw [show mon - 1 + 1 = mon by omega, hjulian] at hprev
      have hbegin := some.inj hprev
      obtain ⟨m', mon', hrun, hof⟩ := ih (m + days)
        (show 0 ≤ mon - 1 ∧ mon - 1 ≤ 11 by omega) (by omega)
        hdays' hjulian' (by omega) (by omega)
      exact ⟨m', mon', by rw [bind_eq_bind, bind_some, if_pos hmore, hrun], hof⟩
    · refine ⟨m + days, mon, by rw [bind_eq_bind, bind_some, if_neg hmore], hmon,
        days, julian, hdays, hjulian, by omega, by omega, by omega⟩

/-- **The day `m` of a year**, or before it. -/
theorem breakDays_spec (m year : Int) :
    ∃ year' mon' m', breakDays m year = some (year', mon', m') ∧
      MonthOf (isLeap year') (yearStart year + m - yearStart year') m' mon' := by
  have hcycle : 0 < daysInGregorianCycle := by decide
  obtain ⟨hsplit, hup, hdown⟩ := tdiv_tmod m hcycle
  rw [Int.mul_comm] at hsplit
  rw [breakDays]
  by_cases hm : m ≥ 0
  · have hrange := hup hm
    generalize m.tdiv daysInGregorianCycle = cycles at hsplit ⊢
    obtain ⟨m', year', hyears, hsame, hpos, hlt⟩ :=
      yearsUp_spec ((m - cycles * daysInGregorianCycle).natAbs + 1)
        (m - cycles * daysInGregorianCycle) (year + cycles * 400)
        (by omega) (by omega)
    have hstart := yearStart_cycles (year + cycles * 400) cycles
    rw [show year + cycles * 400 - cycles * 400 = year by omega] at hstart
    have hzero : entry (julianDaysByMonth (isLeap year')) 0 = some 0 := by
      cases isLeap year'
      · rfl
      · rfl
    obtain ⟨m'', mon', hmonths, hof⟩ := monthsUp_spec 12 m'
      (show (0 : Int) ≤ 0 ∧ (0 : Int) ≤ 11 by decide) (by decide) hzero (Int.zero_add m') hpos hlt
    refine ⟨year', mon', m'', ?_, ?_⟩
    · simp only [if_pos hm, hyears, hmonths, bind_eq_bind, bind_some]
    · rw [show yearStart year + m - yearStart year' = m' by omega]
      exact hof
  · have hrange := hdown (by omega)
    generalize m.tdiv daysInGregorianCycle = cycles at hsplit ⊢
    have hmore : (cycles + 1) * daysInGregorianCycle = cycles * daysInGregorianCycle +
        daysInGregorianCycle := by rw [Int.add_mul, Int.one_mul]
    obtain ⟨m', year', hyears, hsame, hneg, hge⟩ :=
      yearsDown_spec ((m - (cycles + 1) * daysInGregorianCycle).natAbs + 1)
        (m - (cycles + 1) * daysInGregorianCycle) (year - 1 + (cycles + 1) * 400)
        (by omega) (by omega)
    have hstart := yearStart_cycles (year - 1 + (cycles + 1) * 400 + 1) (cycles + 1)
    rw [show year - 1 + (cycles + 1) * 400 + 1 - (cycles + 1) * 400 = year by omega] at hstart
    have hsucc := yearStart_succ year'
    obtain ⟨days, julian, hdays, hjulian, -, -, -, -, hlast, -⟩ :=
      entry_month (isLeap year') (show (0 : Int) ≤ 11 ∧ (11 : Int) ≤ 11 by decide)
    obtain ⟨m'', mon', hmonths, hof⟩ := monthsDown_spec 12 m'
      (show (0 : Int) ≤ 11 ∧ (11 : Int) ≤ 11 by decide) (by decide) hdays hjulian rfl hneg
      (by have hend := hlast rfl; omega)
    refine ⟨year', mon', m'', ?_, ?_⟩
    · simp only [if_neg hm, hyears, hmonths, bind_eq_bind, bind_some]
    · have hend := hlast rfl
      rw [show yearStart year + m - yearStart year' = julian + days + m' by omega]
      exact hof

theorem breakFromEpoch_spec (tday : Int) :
    ∃ year mon m, breakFromEpoch tday = some (year, mon, m) ∧
      MonthOf (isLeap year) (tday - yearStart year) m mon := by
  rw [breakFromEpoch]
  split
  · obtain ⟨year, mon, m, hrun, hof⟩ := breakDays_spec (tday - cheatDays) cheatYears
    have hcheat : yearStart cheatYears = cheatDays := by decide
    rw [hcheat, show cheatDays + (tday - cheatDays) = tday by omega] at hof
    exact ⟨year, mon, m, hrun, hof⟩
  · obtain ⟨year, mon, m, hrun, hof⟩ := breakDays_spec tday 70
    have h1970 : yearStart 70 = 0 := newYear_1970
    rw [h1970, Int.zero_add] at hof
    exact ⟨year, mon, m, hrun, hof⟩

theorem wrap_spec {a b m : Int} (h : -m ≤ a ∧ a < m) :
    0 ≤ (wrap a b m).1 ∧ (wrap a b m).1 < m ∧ (wrap a b m).2 * m + (wrap a b m).1 = b * m + a ∧
      b - 1 ≤ (wrap a b m).2 ∧ (wrap a b m).2 ≤ b := by
  rw [wrap]
  split
  · refine ⟨by omega, by omega, ?_, by omega, by omega⟩
    rw [Int.sub_mul, Int.one_mul]
    omega
  · exact ⟨by omega, h.2, rfl, by omega, by omega⟩

theorem clock_spec (time : Int) : let smh := wrap (time.tmod 60) ((time.tdiv 60).tmod 60) 60
    let mh := wrap smh.2 (((time.tdiv 60).tdiv 60).tmod 24) 60
    let hd := wrap mh.2 (((time.tdiv 60).tdiv 60).tdiv 24) 24
    (0 ≤ smh.1 ∧ smh.1 < 60) ∧ (0 ≤ mh.1 ∧ mh.1 < 60) ∧ (0 ≤ hd.1 ∧ hd.1 < 24) ∧
      ((hd.2 * 24 + hd.1) * 60 + mh.1) * 60 + smh.1 = time := by
  obtain ⟨h1, hup1, hdown1⟩ := tdiv_tmod time (b := 60) (by decide)
  obtain ⟨h2, hup2, hdown2⟩ := tdiv_tmod (time.tdiv 60) (b := 60) (by decide)
  obtain ⟨h3, hup3, hdown3⟩ := tdiv_tmod ((time.tdiv 60).tdiv 60) (b := 24) (by decide)
  obtain ⟨hs, hs', hsum1, hb1, hb1'⟩ :=
    wrap_spec (a := time.tmod 60) (b := (time.tdiv 60).tmod 60) (m := 60) (by omega)
  obtain ⟨hm, hm', hsum2, hb2, hb2'⟩ :=
    wrap_spec (a := (wrap (time.tmod 60) ((time.tdiv 60).tmod 60) 60).2)
      (b := ((time.tdiv 60).tdiv 60).tmod 24) (m := 60) (by omega)
  obtain ⟨hh, hh', hsum3, -, -⟩ :=
    wrap_spec (a := (wrap (wrap (time.tmod 60) ((time.tdiv 60).tmod 60) 60).2
        (((time.tdiv 60).tdiv 60).tmod 24) 60).2)
      (b := ((time.tdiv 60).tdiv 60).tdiv 24) (m := 24) (by omega)
  exact ⟨⟨hs, hs'⟩, ⟨hm, hm'⟩, ⟨hh, hh'⟩, by omega⟩

/-- **`gmtime64_r`** gives a date that `check_tm` accepts, and that stands for the seconds; it fails
where the year is no `int`. -/
theorem gmtime64R_spec (time : Int) :
    ∃ tm julian, gmtime64R time = (if -2 ^ 31 ≤ tm.year ∧ tm.year < 2 ^ 31 then some tm else none) ∧
      checkTm tm ∧ tm.sec ≤ 59 ∧ entry (julianDaysByMonth (isLeap tm.year)) tm.mon = some julian ∧
      tm.seconds julian = time ∧ yearStart tm.year * 86400 ≤ time ∧
      time < yearStart (tm.year + 1) * 86400 := by
  obtain ⟨hsec, hmin, hhour, htime⟩ := clock_spec time
  obtain ⟨sec, min, hs⟩ : ∃ sec min,
      wrap (time.tmod 60) ((time.tdiv 60).tmod 60) 60 = (sec, min) := ⟨_, _, rfl⟩
  simp only [hs] at hsec hmin hhour htime
  obtain ⟨min, hour, hm⟩ : ∃ min' hour,
      wrap min (((time.tdiv 60).tdiv 60).tmod 24) 60 = (min', hour) := ⟨_, _, rfl⟩
  simp only [hm] at hmin hhour htime
  obtain ⟨hour, tday, hh⟩ : ∃ hour' tday,
      wrap hour (((time.tdiv 60).tdiv 60).tdiv 24) 24 = (hour', tday) := ⟨_, _, rfl⟩
  simp only [hh] at hhour htime
  obtain ⟨year, mon, m, hbreak, hmon, days, julian, hdays, hjulian, hday, hpos, hlt⟩ :=
    breakFromEpoch_spec tday
  obtain ⟨days', julian', hdays', hjulian', -, hstart, hend, -⟩ := entry_month (isLeap year) hmon
  obtain rfl : days' = days := some.inj (hdays'.symm.trans hdays)
  obtain rfl : julian' = julian := some.inj (hjulian'.symm.trans hjulian)
  obtain ⟨-, hup, hdown⟩ := tdiv_tmod (tday + 4) (b := 7) (by decide)
  have hsucc := yearStart_succ year
  refine ⟨⟨sec, min, hour, m + 1, mon, year,
    if (tday + 4).tmod 7 < 0 then (tday + 4).tmod 7 + 7 else (tday + 4).tmod 7, julian' + m⟩, julian',
    ?_, ?_, by show sec ≤ 59; omega, hjulian, ?_, ?_, ?_⟩
  · simp only [gmtime64R, hs, hm, hh, hbreak, hjulian, bind_eq_bind, bind_some]
  · refine ⟨⟨hsec.1, by show sec ≤ 61; omega⟩, ⟨hmin.1, by show min ≤ 59; omega⟩,
      ⟨hhour.1, by show hour ≤ 23; omega⟩, ⟨by show 1 ≤ m + 1; omega, ?_⟩, hmon, ?_,
      by show 0 ≤ julian' + m; omega, by show julian' + m ≤ lengthOfYear (isLeap year); omega⟩
    · intro d hd
      obtain rfl : days' = d := some.inj (hdays.symm.trans hd)
      show m + 1 ≤ days'
      omega
    · show 0 ≤ (if (tday + 4).tmod 7 < 0 then (tday + 4).tmod 7 + 7 else (tday + 4).tmod 7) ∧
        (if (tday + 4).tmod 7 < 0 then (tday + 4).tmod 7 + 7 else (tday + 4).tmod 7) ≤ 6
      split <;> omega
  · show (((yearStart year + julian' + (m + 1 - 1)) * 24 + hour) * 60 + min) * 60 + sec = time
    rw [show yearStart year + julian' + (m + 1 - 1) = tday by omega]
    exact htime
  · show yearStart year * 86400 ≤ time
    omega
  · show time < yearStart (year + 1) * 86400
    omega

/-- **There and back.** -/
theorem timegm64_gmtime64R {time : Int} {tm : TM} (h : gmtime64R time = some tm) :
    timegm64 tm = some time := by
  obtain ⟨tm', julian, hrun, -, -, hjulian, hseconds, -⟩ := gmtime64R_spec time
  rw [hrun] at h
  split at h
  · obtain rfl := some.inj h
    rw [timegm64_eq, hjulian, map_some, hseconds]
  · cases h

end IDeviceStack.Libplist
