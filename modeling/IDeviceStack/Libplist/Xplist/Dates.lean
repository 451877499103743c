/-
# `Libplist.Xplist.Dates` — the text of a date

`parse_date` reads six numbers with `sscanf` and looks neither at how many it got nor
at what they are, and `timegm64` looks the month up in a table.  `node_to_xml` writes
the numbers that `gmtime64_r` gives with `strftime`.

* A number that is no `int` has no meaning for `sscanf`; what is stored then is a
  parameter, and so are the width of `%Y` and the conversions of a `double`.
* `tm_mon` and `tm_year` of the smallest `int` would wrap around; they stay outside of
  the calendar here as there.

**Proved here.**  `dates_iff`; and with the dates, `plistFromXml_robust`.
-/
import IDeviceStack.Libplist.Time64
import IDeviceStack.Libplist.Xplist.Entities
import IDeviceStack.Libplist.Xplist.Integers
import IDeviceStack.Libplist.Xplist.Robust

namespace IDeviceStack.Libplist.Xplist

open Lib

/-! ## Reading -/

/-- `%d`: the number, and what is behind it. -/
def scanInt (s : List UInt8) : Option (Int × List UInt8) :=
  let s := s.dropWhile isSpace
  let isNegative := s.headD 0 = ch '-'
  let s := if s.headD 0 = ch '-' ∨ s.headD 0 = ch '+' then s.tail else s
  let digits := digitsOf 10 s
  if digits = [] then none
  else some (if isNegative then -(numeral 10 digits : Int) else numeral 10 digits,
    s.drop digits.length)

/-- `sscanf`, for a format of `%d`s with the characters `seps` behind them: the numbers, up to the
first thing that does not match. -/
def sscanf : List UInt8 → List UInt8 → List Int
  | [], _ => []
  | c :: seps, s =>
    match scanInt s with
    | none => []
    | some (v, []) => [v]
    | some (v, d :: rest) => if d = c then v :: sscanf seps rest else [v]

/-- What the C library and the machine decide: the `int` that is stored for a number, the text of
`%Y`, and the conversions between integers and `double`. -/
structure TimeLib where
  storeInt : Int → Int
  year : Int → List UInt8
  toDouble : Int → UInt64
  toInt : UInt64 → Int

/-- `PLIST_SSCANF_FORMAT`, less its `%d`s. -/
def dateSeps : List UInt8 := lit "--T::Z"

/-- `parse_date`: a field that is not read stays 0. -/
def parseDate (lib : TimeLib) (strval : List UInt8) : TM :=
  let fields := (sscanf dateSeps strval).map lib.storeInt
  { year := fields.getD 0 0 - 1900
    mon := fields.getD 1 0 - 1
    mday := fields.getD 2 0
    hour := fields.getD 3 0
    min := fields.getD 4 0
    sec := fields.getD 5 0
    wday := 0
    yday := 0 }

/-- `strval`: the content up to the length of its first part. -/
def dateStrval (tp : TextPart) (content : List UInt8 × Nat) : List UInt8 :=
  cstr ((content.1.take content.2).take tp.length)

theorem dateData_strval (conv : Conv) (tp : TextPart) (content : List UInt8 × Nat)
    (h : 11 ≤ content.2 ∧ content.2 < 32) :
    dateData conv tp content =
      .scalar (.date (conv.toDouble (conv.timegm (dateStrval tp content) - 978307200))) 8 := by
  rw [dateData, if_pos h, dateStrval]

/-! ## Writing -/

def twoDigits (n : Int) : List UInt8 :=
  [UInt8.ofNat (48 + n.toNat / 10), UInt8.ofNat (48 + n.toNat % 10)]

/-- `strftime`, for `"%Y-%m-%dT%H:%M:%SZ"`. -/
def strftime (lib : TimeLib) (tm : TM) : List UInt8 :=
  lib.year (tm.year + 1900) ++ ch '-' :: (twoDigits (tm.mon + 1) ++ ch '-' ::
    (twoDigits tm.mday ++ ch 'T' :: (twoDigits tm.hour ++ ch ':' ::
      (twoDigits tm.min ++ ch ':' :: (twoDigits tm.sec ++ [ch 'Z'])))))

/-- The text of a date, if there is one: it has to fit into 24 bytes. -/
def dateVal (lib : TimeLib) (realval : UInt64) : Option (List UInt8) := do
  let btime ← gmtime64R (lib.toInt realval + 978307200)
  let val := strftime lib btime
  if val.length < 24 then some val else none

/-- The parts of the C standard that are relied on. -/
structure TimeLib.Standard (lib : TimeLib) : Prop where
  storeInt : ∀ v, -2 ^ 31 ≤ v → v < 2 ^ 31 → lib.storeInt v = v
  year : ∀ y : Int, 1 ≤ y → y ≤ 9999 → (lib.year y ≠ [] ∧ (lib.year y).length ≤ 4) ∧
    (∀ c ∈ lib.year y, digitValue c < 10) ∧ (numeral 10 (lib.year y) : Int) = y
  exact : ∀ n : Int, -2 ^ 53 < n → n < 2 ^ 53 → lib.toInt (lib.toDouble n) = n

/-! ## Numbers -/

/-- `a` is a number with value `v`, and there may be blanks before it. -/
inductive IsInt : List UInt8 → Int → Prop where
  | plain {w ds : List UInt8} (blanks : ∀ c ∈ w, isSpace c) (digits : ∀ c ∈ ds, digitValue c < 10)
      (some : ds ≠ []) : IsInt (w ++ ds) (numeral 10 ds)
  | plus {w ds : List UInt8} (blanks : ∀ c ∈ w, isSpace c) (digits : ∀ c ∈ ds, digitValue c < 10)
      (some : ds ≠ []) : IsInt (w ++ ch '+' :: ds) (numeral 10 ds)
  | minus {w ds : List UInt8} (blanks : ∀ c ∈ w, isSpace c) (digits : ∀ c ∈ ds, digitValue c < 10)
      (some : ds ≠ []) : IsInt (w ++ ch '-' :: ds) (-(numeral 10 ds : Int))

/-- No digit follows. -/
def NoDigit (s : List UInt8) : Prop := ∀ c ∈ s.head?, ¬ digitValue c < 10

/-- The second number of a date. -/
def MonthField (s : List UInt8) (m : Int) : Prop :=
  ∃ a b rest y, s = a ++ ch '-' :: (b ++ rest) ∧ IsInt a y ∧ IsInt b m ∧ NoDigit rest

theorem digitsOf_noDigit {ds rest : List UInt8} (hds : ∀ c ∈ ds, digitValue c < 10)
    (hrest : NoDigit rest) : digitsOf 10 (ds ++ rest) = ds := by
  rw [digitsOf, List.takeWhile_append_of_pos fun c hc => by simpa using hds c hc]
  cases rest with
  | nil => simp
  | cons c rest =>
    rw [List.takeWhile_cons_of_neg (by simpa using hrest c (by simp)), List.append_nil]

theorem dropWhile_blanks {w s : List UInt8} (hw : ∀ c ∈ w, isSpace c)
    (hs : isSpace (s.headD 0) = false) : (w ++ s).dropWhile isSpace = s := by
  rw [List.dropWhile_append_of_pos hw]
  cases s with
  | nil => rfl
  | cons c s => exact List.dropWhile_cons_of_neg (by simpa using hs)

theorem scanInt_isInt {a rest : List UInt8} {v : Int} (h : IsInt a v) (hrest : NoDigit rest) :
    scanInt (a ++ rest) = some (v, rest) := by
  cases h with
  | @plain w ds hw hds hne =>
    obtain ⟨c, cs, rfl⟩ := List.exists_cons_of_ne_nil hne
    have hc := plain_of_digit (hds c List.mem_cons_self)
    rw [List.append_assoc, scanInt, dropWhile_blanks hw (by simpa using hc.1)]
    simp only [List.cons_append, List.headD_cons, hc.2.1, hc.2.2.1, or_self, if_false]
    rw [← List.cons_append, digitsOf_noDigit hds hrest, if_neg hne, List.drop_left]
  | @plus w ds hw hds hne =>
    rw [List.append_assoc, scanInt, dropWhile_blanks hw (by rfl)]
    simp only [List.cons_append, List.headD_cons, or_true, if_true, List.tail_cons]
    rw [digitsOf_noDigit hds hrest, if_neg hne, if_neg (by decide), List.drop_left]
  | @minus w ds hw hds hne =>
    rw [List.append_assoc, scanInt, dropWhile_blanks hw (by rfl)]
    simp only [List.cons_append, List.headD_cons, true_or, if_true, List.tail_cons]
    rw [digitsOf_noDigit hds hrest, if_neg hne, List.drop_left]

theorem digitsOf_split (u : List UInt8) :
    u = digitsOf 10 u ++ u.drop (digitsOf 10 u).length ∧ (∀ c ∈ digitsOf 10 u, digitValue c < 10) ∧
      NoDigit (u.drop (digitsOf 10 u).length) := by
  have hsplit : digitsOf 10 u ++ u.dropWhile (digitValue · < 10) = u :=
    List.takeWhile_append_dropWhile
  have hdrop : u.drop (digitsOf 10 u).length = u.dropWhile (digitValue · < 10) := by
    have h := congrArg (List.drop (digitsOf 10 u).length) hsplit
    rwa [List.drop_left, eq_comm] at h
  refine ⟨by rw [hdrop, hsplit], fun c hc => by simpa using List.mem_takeWhile_imp hc, ?_⟩
  intro c hc
  rw [hdrop] at hc
  have hnot := List.head?_dropWhile_not (digitValue · < 10) u
  rw [hc] at hnot
  simpa using hnot

/-- **`%d`** reads a number, and as much of it as there is. -/
theorem scanInt_eq_some {s rest : List UInt8} {v : Int} :
    scanInt s = some (v, rest) ↔ ∃ a, s = a ++ rest ∧ IsInt a v ∧ NoDigit rest := by
  constructor
  · intro h
    obtain ⟨w, t, hs, hw, ht⟩ : ∃ w t, s = w ++ t ∧ (∀ c ∈ w, isSpace c) ∧
        s.dropWhile isSpace = t :=
      ⟨_, _, List.takeWhile_append_dropWhile.symm, fun c hc => List.mem_takeWhile_imp hc, rfl⟩
    rw [scanInt, ht] at h
    by_cases hsign : t.headD 0 = ch '-' ∨ t.headD 0 = ch '+'
    · obtain ⟨c, u, rfl⟩ : ∃ c u, t = c :: u := by
        cases t with
        | nil => exact absurd hsign (by decide)
        | cons c u => exact ⟨c, u, rfl⟩
      simp only [if_pos hsign, List.tail_cons] at h
      obtain ⟨hu, hdigits, hrest⟩ := digitsOf_split u
      split at h
      · cases h
      · rename_i hne
        simp only [Option.some.injEq, Prod.mk.injEq] at h
        obtain ⟨hv, rfl⟩ := h
        refine ⟨w ++ c :: digitsOf 10 u, by rw [hs, List.append_assoc, List.cons_append, ← hu], ?_,
          hrest⟩
        rcases hsign with hc | hc
        · rw [if_pos hc] at hv
          rw [← hv, show c = ch '-' from hc]
          exact .minus hw hdigits hne
        · rw [if_neg (by rw [hc]; decide)] at hv
          rw [← hv, show c = ch '+' from hc]
          exact .plus hw hdigits hne
    · simp only [if_neg hsign] at h
      obtain ⟨hu, hdigits, hrest⟩ := digitsOf_split t
      split at h
      · cases h
      · rename_i hne
        simp only [Option.some.injEq, Prod.mk.injEq] at h
        obtain ⟨hv, rfl⟩ := h
        refine ⟨w ++ digitsOf 10 t, by rw [hs, List.append_assoc, ← hu], ?_, hrest⟩
        rw [if_neg fun hc => hsign (.inl hc)] at hv
        rw [← hv]
        exact .plain hw hdigits hne
  · rintro ⟨a, rfl, ha, hrest⟩
    exact scanInt_isInt ha hrest

/-! ## The month -/

theorem noDigit_cons {c : UInt8} (hc : ¬ digitValue c < 10) (s : List UInt8) :
    NoDigit (c :: s) := by
  intro d hd
  obtain rfl : c = d := by simpa using hd
  exact hc

theorem sscanf_month (s : List UInt8) (m : Int) :
    (sscanf dateSeps s)[1]? = some m ↔ MonthField s m := by
  have hseps : dateSeps = ch '-' :: ch '-' :: lit "T::Z" := rfl
  constructor
  · intro h
    rw [hseps, sscanf] at h
    split at h
    · simp at h
    · simp at h
    · rename_i y d rest hy
      split at h
      · rename_i hd
        obtain ⟨a, rfl, ha, -⟩ := scanInt_eq_some.mp hy
        rw [hd]
        have hfirst : (sscanf (ch '-' :: lit "T::Z") rest)[0]? = some m := by simpa using h
        have hm : ∃ rest', scanInt rest = some (m, rest') := by
          rw [sscanf] at hfirst
          split at hfirst
          · simp at hfirst
          · rename_i v hv
            exact ⟨[], by simpa using hv.trans (by simpa using hfirst)⟩
          · rename_i v d' rest' hv
            refine ⟨d' :: rest', ?_⟩
            rw [hv]
            split at hfirst
            · simpa using hfirst
            · simpa using hfirst
        obtain ⟨rest', hm⟩ := hm
        obtain ⟨b, rfl, hb, hrest'⟩ := scanInt_eq_some.mp hm
        exact ⟨a, b, rest', y, rfl, ha, hb, hrest'⟩
      · simp at h
  · rintro ⟨a, b, rest, y, rfl, ha, hb, hrest⟩
    have hy := scanInt_isInt ha (noDigit_cons (by decide : ¬ digitValue (ch '-') < 10) (b ++ rest))
    have hm := scanInt_isInt hb hrest
    rw [hseps, sscanf, hy]
    simp only [if_true, List.getElem?_cons_succ]
    rw [sscanf, hm]
    cases rest with
    | nil => rfl
    | cons d rest =>
      simp only
      split <;> rfl

/-- **Which texts have a month.** -/
theorem parseDate_month (lib : TimeLib) (s : List UInt8) :
    (0 ≤ (parseDate lib s).mon ∧ (parseDate lib s).mon ≤ 11) ↔
      ∃ m, MonthField s m ∧ 1 ≤ lib.storeInt m ∧ lib.storeInt m ≤ 12 := by
  have hmon : (parseDate lib s).mon = (((sscanf dateSeps s)[1]?).map lib.storeInt).getD 0 - 1 := by
    rw [parseDate]
    simp only [List.getD_eq_getElem?_getD, List.getElem?_map]
  rw [hmon]
  constructor
  · intro h
    cases hm : (sscanf dateSeps s)[1]? with
    | none =>
      rw [hm] at h
      simp at h
    | some m =>
      rw [hm, Option.map_some, Option.getD_some] at h
      exact ⟨m, (sscanf_month s m).mp hm, by omega, by omega⟩
  · rintro ⟨m, hm, hlow, hhigh⟩
    rw [(sscanf_month s m).mpr hm, Option.map_some, Option.getD_some]
    omega

/-! ## There and back -/

theorem twoDigits_isInt {n : Int} (hn : 0 ≤ n) (hn' : n < 100) :
    IsInt (twoDigits n) n ∧ ∀ c ∈ twoDigits n, digitValue c < 10 := by
  have h1 := digitValue_ofNat (n.toNat / 10) (by omega)
  have h2 := digitValue_ofNat (n.toNat % 10) (by omega)
  have hdigits : ∀ c ∈ twoDigits n, digitValue c < 10 := by
    intro c hc
    rw [twoDigits, List.mem_cons, List.mem_singleton] at hc
    rcases hc with rfl | rfl
    · rw [h1]
      omega
    · rw [h2]
      omega
  have hvalue : (numeral 10 (twoDigits n) : Int) = n := by
    rw [twoDigits, numeral, List.foldl_cons, List.foldl_cons, List.foldl_nil, h1, h2]
    omega
  refine ⟨?_, hdigits⟩
  have hint := IsInt.plain (w := []) (by simp) hdigits (by simp [twoDigits])
  rwa [hvalue, List.nil_append] at hint

theorem sscanf_field {a rest seps : List UInt8} {v : Int} {c : UInt8} (ha : IsInt a v)
    (hc : ¬ digitValue c < 10) : sscanf (c :: seps) (a ++ c :: rest) = v :: sscanf seps rest := by
  rw [sscanf, scanInt_isInt ha (noDigit_cons hc rest)]
  simp only [if_true]

/-- A date that `strftime` can write in a text that `sscanf` can read. -/
structure Writable (tm : TM) : Prop where
  year : 1 ≤ tm.year + 1900 ∧ tm.year + 1900 ≤ 9999
  mon : 0 ≤ tm.mon ∧ tm.mon ≤ 11
  mday : 1 ≤ tm.mday ∧ tm.mday ≤ 31
  hour : 0 ≤ tm.hour ∧ tm.hour ≤ 23
  min : 0 ≤ tm.min ∧ tm.min ≤ 59
  sec : 0 ≤ tm.sec ∧ tm.sec ≤ 59

theorem TimeLib.Standard.year_isInt {lib : TimeLib} (hlib : lib.Standard) {y : Int} (hy : 1 ≤ y)
    (hy' : y ≤ 9999) : IsInt (lib.year y) y := by
  obtain ⟨⟨hne, -⟩, hdigits, hvalue⟩ := hlib.year y hy hy'
  have hint := IsInt.plain (w := []) (by simp) hdigits hne
  rwa [hvalue, List.nil_append] at hint

/-- **`parse_date` undoes `strftime`.** -/
theorem parseDate_strftime {lib : TimeLib} (hlib : lib.Standard) {tm : TM} (h : Writable tm) :
    parseDate lib (strftime lib tm) = { tm with wday := 0, yday := 0 } := by
  obtain ⟨hyear, hmon, hmday, hhour, hmin, hsec⟩ := h
  have hscan : sscanf dateSeps (strftime lib tm) =
      [tm.year + 1900, tm.mon + 1, tm.mday, tm.hour, tm.min, tm.sec] := by
    have hseps : dateSeps = [ch '-', ch '-', ch 'T', ch ':', ch ':', ch 'Z'] := rfl
    rw [hseps, strftime, sscanf_field (hlib.year_isInt hyear.1 hyear.2) (by decide),
      sscanf_field (twoDigits_isInt (by omega) (by omega)).1 (by decide),
      sscanf_field (twoDigits_isInt (by omega) (by omega)).1 (by decide),
      sscanf_field (twoDigits_isInt (by omega) (by omega)).1 (by decide),
      sscanf_field (twoDigits_isInt (by omega) (by omega)).1 (by decide),
      sscanf_field (twoDigits_isInt (by omega) (by omega)).1 (by decide), sscanf]
  have hstore (v : Int) (hv : 0 ≤ v) (hv' : v ≤ 9999) : lib.storeInt v = v :=
    hlib.storeInt v (by omega) (by omega)
  rw [parseDate, hscan]
  simp only [List.map_cons, List.map_nil, List.getD_cons_zero, List.getD_cons_succ]
  rw [hstore _ (by omega) (by omega), hstore _ (by omega) (by omega),
    hstore _ (by omega) (by omega), hstore _ (by omega) (by omega), hstore _ (by omega) (by omega),
    hstore _ (by omega) (by omega), Int.add_sub_cancel, Int.add_sub_cancel]

theorem gmtime64R_writable {time : Int} (hfirst : newYear 1 * 86400 ≤ time)
    (hlast : time < newYear 10000 * 86400) :
    ∃ tm, gmtime64R time = some tm ∧ Writable tm ∧ timegm64 tm = some time := by
  obtain ⟨tm, julian, hrun, hcheck, hsec, hjulian, -, hstart, hend⟩ := gmtime64R_spec time
  obtain ⟨hsec0, hmin, hhour, ⟨hmday, hmday'⟩, hmon, -, -⟩ := hcheck
  have hyear : 1 ≤ tm.year + 1900 := by
    by_contra hlt
    rcases Int.lt_or_eq_of_le (show tm.year + 1 + 1900 ≤ 1 by omega) with h | h
    · have hmono := newYear_strictMono h
      rw [yearStart] at hend
      omega
    · rw [yearStart, h] at hend
      omega
  have hyear' : tm.year + 1900 ≤ 9999 := by
    by_contra hgt
    rcases Int.lt_or_eq_of_le (show 10000 ≤ tm.year + 1900 by omega) with h | h
    · have hmono := newYear_strictMono h
      rw [yearStart] at hstart
      omega
    · rw [yearStart, ← h] at hstart
      omega
  rw [if_pos (by omega)] at hrun
  obtain ⟨days, -, hdays, -, hle, -⟩ := entry_month (isLeap tm.year) hmon
  have hdays := hmday' days hdays
  exact ⟨tm, hrun, ⟨⟨hyear, hyear'⟩, hmon, ⟨hmday, by omega⟩, hhour, hmin, ⟨hsec0.1, hsec⟩⟩,
    timegm64_gmtime64R hrun⟩

theorem strftime_plain {lib : TimeLib} (hlib : lib.Standard) {tm : TM} (h : Writable tm) :
    17 ≤ (strftime lib tm).length ∧ (strftime lib tm).length ≤ 20 ∧
      (∀ c ∈ strftime lib tm, c ≠ ch '<' ∧ c ≠ 0) ∧
      ∀ c ∈ (strftime lib tm).head?, isBlank c = false := by
  obtain ⟨hyear, hmon, hmday, hhour, hmin, hsec⟩ := h
  obtain ⟨⟨hne, hlen⟩, hdigits, -⟩ := hlib.year _ hyear.1 hyear.2
  have hlength : (strftime lib tm).length = (lib.year (tm.year + 1900)).length + 16 := by
    simp [strftime, twoDigits]
  have hpos := List.length_pos_of_ne_nil hne
  have htwo {n : Int} (hn : 0 ≤ n) (hn' : n < 100) : ∀ c ∈ twoDigits n, c ≠ ch '<' ∧ c ≠ 0 :=
    fun c hc => (plain_of_digit ((twoDigits_isInt hn hn').2 c hc)).2.2.2.2
  refine ⟨by omega, by omega, ?_, ?_⟩
  · have hfirst : ∀ c ∈ lib.year (tm.year + 1900), c ≠ ch '<' ∧ c ≠ 0 :=
      fun c hc => (plain_of_digit (hdigits c hc)).2.2.2.2
    simp only [strftime, List.forall_mem_append, List.forall_mem_cons]
    -- the numbers and the separators in turn
    exact ⟨hfirst, by decide, htwo (by omega) (by omega), by decide, htwo (by omega) (by omega),
      by decide, htwo (by omega) (by omega), by decide, htwo (by omega) (by omega), by decide,
      htwo (by omega) (by omega), by decide, List.forall_mem_nil _⟩
  · intro c hc
    obtain ⟨d, ds, hds⟩ := List.exists_cons_of_ne_nil hne
    rw [strftime, hds, List.cons_append, List.head?_cons] at hc
    obtain rfl : d = c := Option.some.inj hc
    exact (plain_of_digit (hdigits d (by rw [hds]; exact List.mem_cons_self))).2.2.2.1

theorem readContent_date (conv : Conv) {text : List UInt8} {pos : Nat} {val s : List UInt8}
    (hlen : 11 ≤ val.length) (hlen' : val.length < 32) (hval : ∀ c ∈ val, c ≠ ch '<' ∧ c ≠ 0)
    (hhead : ∀ c ∈ val.head?, isBlank c = false) (h : text.drop pos = val ++ (closeTag "date" ++ s))
    (wantsKey : Bool) :
    readContent conv text ⟨lit "date", 4, false⟩ pos wantsKey =
      .ok (.node (.scalar (.date (conv.toDouble (conv.timegm val - 978307200))) 8)
        (pos + val.length + (closeTag "date").length) false) := by
  have htext : text.drop pos = val ++ ch '<' :: ch '/' :: (lit "date" ++ ch '>' :: s) := by
    rw [h]
    simp [closeTag]
  have hne : val ≠ [] := by
    rintro rfl
    simp at hlen
  have hparts := getTextParts_skip (w := []) (by decide) (by simp) (fun c hc => (hval c hc).1) hhead
    htext
  have hcontent := textPartsGetContent_plain htext
  have hstrval : dateStrval ⟨pos, val.length, false⟩
      (val ++ ch '<' :: ch '/' :: (lit "date" ++ ch '>' :: s), val.length) = val := by
    simp only [dateStrval, List.take_left, List.take_length]
    exact cstr_of_nulFree fun c hc => (hval c hc).2
  have hdata := dateData_strval conv ⟨pos, val.length, false⟩
    (val ++ ch '<' :: ch '/' :: (lit "date" ++ ch '>' :: s), val.length) ⟨hlen, hlen'⟩
  rw [hstrval] at hdata
  rw [readContent, if_neg (by decide), if_neg (by decide), if_neg (by decide), if_neg (by decide),
    if_neg (by decide), if_neg (by decide), if_neg (by decide), if_neg (by decide), if_pos rfl,
    textContent]
  have hname : (lit "date").length = 4 := rfl
  rw [hname, plainParts_of_ne_nil hne] at hparts
  simp only [List.length_nil, Nat.add_zero] at hparts
  simp only [Bool.false_eq_true, if_false, hparts, ok_bind, hcontent, hdata]
  rfl

/-- The conversions of reader and writer are those of the library; where `timegm64` reads outside of
its table nothing is said. -/
structure Conv.Dates (conv : Conv) (pconv : PrintConv) (lib : TimeLib) : Prop where
  timegm : ∀ s v, timegm64 (parseDate lib s) = some v → conv.timegm s = v
  toDouble : conv.toDouble = lib.toDouble
  strftime : pconv.strftime = dateVal lib

/-- **A date comes back**, wherever it is written. -/
theorem readsAs_date {conv : Conv} {pconv : PrintConv} {lib : TimeLib}
    (hconv : conv.Dates pconv lib) (hlib : lib.Standard) (depth : Nat) {t : Int}
    (hfirst : newYear 1 * 86400 ≤ t + 978307200) (hlast : t + 978307200 < newYear 10000 * 86400) :
    ReadsAs conv (scalarToXml pconv depth 8 (.date (lib.toDouble t)))
      (.scalar (.date (lib.toDouble t)) 8) := by
  obtain ⟨tm, hgmtime, htm, htimegm⟩ := gmtime64R_writable hfirst hlast
  obtain ⟨hlen, hlen', hplain, hhead⟩ := strftime_plain hlib htm
  have hbounds : newYear 1 = -719162 ∧ newYear 10000 = 2932897 := by decide
  rw [hbounds.1] at hfirst
  rw [hbounds.2] at hlast
  have hval : dateVal lib (lib.toDouble t) = some (strftime lib tm) := by
    rw [dateVal, hlib.exact t (by omega) (by omega), hgmtime]
    simp only [Option.bind_eq_bind, Option.bind_some]
    rw [if_pos (by omega)]
  have hback : conv.timegm (strftime lib tm) = t + 978307200 := by
    refine hconv.timegm _ _ ?_
    rw [parseDate_strftime hlib htm]
    exact htimegm
  rw [scalarToXml, hconv.strftime, hval]
  refine readsAs_text conv "date" rfl (by decide) (by decide) (by decide) (by decide) (by decide)
    (by decide) fun text pos rest h wantsKey => ?_
  have hread := readContent_date conv (by omega) (by omega) hplain hhead h wantsKey
  rwa [hback, Int.add_sub_cancel, hconv.toDouble] at hread

theorem rereadAs_scalar {conv : Conv} {pconv : PrintConv} {value : Scalar} {length : Nat}
    (hread : ReadsAs conv (scalarToXml pconv 0 length value) (.scalar value length))
    (hlen : (plistToXml pconv (.scalar value length)).1.length < 2 ^ 32) :
    RereadAs conv pconv (.scalar value length) (.scalar value length) := by
  obtain ⟨text, htext⟩ : ∃ text, (plistToXml pconv (.scalar value length)).1 = text := ⟨_, rfl⟩
  have hxml : text = xmlPlistProlog ++ (tabs 0 ++ scalarToXml pconv 0 length value ++ [10] ++
      xmlPlistEpilog) := by
    rw [← htext, plistToXml, nodeToXml, List.append_assoc]
  have hlength : (plistToXml pconv (.scalar value length)).2 = text.length := by
    rw [← htext]
    exact Nat.mod_eq_of_lt hlen
  have hne : text.length ≠ 0 := by
    rw [hxml, xmlPlistProlog, xmlLine_eq]
    simp
  obtain ⟨hprolog, hrest⟩ := turns_prolog conv hxml
  rw [tabs, List.replicate_zero, List.nil_append, List.append_assoc] at hrest
  refine ⟨[⟨.scalar value length, none⟩], 0, by rfl, fun fuel hfuel => ?_⟩
  rw [htext] at hfuel ⊢
  rw [hlength, plistFromXml, if_neg hne, List.take_length, nodeFromXml,
    parseLoop_turns hprolog (parseLoop_scalar hread hrest) fuel (by
      show text.length - 0 < fuel
      omega)]
  rfl

/-- **Dates.**  The month that `timegm64` gets is one of its table exactly if the second number of
the text, as it is stored, is 1 to 12; and a date of the years 1 to 9999 comes back. -/
theorem dates_iff {conv : Conv} {pconv : PrintConv} {lib : TimeLib} (hconv : conv.Dates pconv lib)
    (hlib : lib.Standard) :
    (∀ tp content, 11 ≤ content.2 ∧ content.2 < 32 →
      dateData conv tp content =
        .scalar (.date (conv.toDouble (conv.timegm (dateStrval tp content) - 978307200))) 8 ∧
      (((0 ≤ (parseDate lib (dateStrval tp content)).mon ∧
          (parseDate lib (dateStrval tp content)).mon ≤ 11) ∧
          (timegm64 (parseDate lib (dateStrval tp content))).isSome) ↔
        ∃ m, MonthField (dateStrval tp content) m ∧ 1 ≤ lib.storeInt m ∧ lib.storeInt m ≤ 12)) ∧
      ∀ t : Int, newYear 1 * 86400 ≤ t + 978307200 → t + 978307200 < newYear 10000 * 86400 →
        (∀ depth, ReadsAs conv (scalarToXml pconv depth 8 (.date (lib.toDouble t)))
          (.scalar (.date (lib.toDouble t)) 8)) ∧
        RereadAs conv pconv (.scalar (.date (lib.toDouble t)) 8)
          (.scalar (.date (lib.toDouble t)) 8) := by
  refine ⟨fun tp content hlen => ⟨dateData_strval conv tp content hlen, ?_⟩,
    fun t hfirst hlast => ?_⟩
  · rw [timegm64_isSome, and_self]
    exact parseDate_month lib _
  · have hread (depth : Nat) := readsAs_date hconv hlib depth hfirst hlast
    refine ⟨hread, rereadAs_scalar (hread 0) ?_⟩
    have hepilog : xmlPlistEpilog.length = 9 := rfl
    have hopen : (openTag "date").length = 6 := rfl
    have hclose : (closeTag "date").length = 7 := rfl
    simp only [plistToXml, nodeToXml, List.length_append, xmlPlistProlog_length, hepilog, tabs,
      List.length_replicate, List.length_singleton]
    have hpiece : (scalarToXml pconv 0 8 (.date (lib.toDouble t))).length ≤ 36 := by
      rw [scalarToXml, hconv.strftime]
      cases hval : dateVal lib (lib.toDouble t) with
      | none => exact (by decide : (emptyTag "date").length ≤ 36)
      | some val =>
        obtain ⟨tm, -, hval⟩ := Option.bind_eq_some_iff.mp hval
        have hlt : val.length < 24 := by
          simp only at hval
          split at hval
          · rename_i hlt
            rwa [← Option.some.inj hval]
          · cases hval
        simp only [List.length_append, hopen, hclose]
        omega
    omega

/-! ## A library -/

/-- The `double` of an integer below `2 ^ 53`: sign, exponent and fraction. -/
def doubleOfInt (n : Int) : UInt64 :=
  if n = 0 then 0
  else UInt64.ofNat ((if n < 0 then 2 ^ 63 else 0) + (1023 + n.natAbs.log2) * 2 ^ 52 +
    (n.natAbs * 2 ^ (52 - n.natAbs.log2) - 2 ^ 52))

/-- The integer part of a `double` below `2 ^ 53`. -/
def intOfDouble (x : UInt64) : Int :=
  let m : Nat := (x.toNat % 2 ^ 52 + 2 ^ 52) / 2 ^ (1075 - x.toNat / 2 ^ 52 % 2 ^ 11)
  if x.toNat ≥ 2 ^ 63 then -(m : Int) else m

theorem intOfDouble_doubleOfInt {n : Int} (hn : -2 ^ 53 < n) (hn' : n < 2 ^ 53) :
    intOfDouble (doubleOfInt n) = n := by
  rw [doubleOfInt]
  split
  · rename_i h
    rw [h]
    decide +kernel
  · rename_i hne
    have hpos : n.natAbs ≠ 0 := by omega
    obtain ⟨e, he⟩ : ∃ e, n.natAbs.log2 = e := ⟨_, rfl⟩
    have hlow : 2 ^ e ≤ n.natAbs := by
      rw [← he]
      exact Nat.log2_self_le hpos
    have hhigh : n.natAbs < 2 ^ (e + 1) := by
      rw [← he]
      exact Nat.lt_log2_self
    have hele : e ≤ 52 := by
      rw [← he]
      have := (Nat.log2_lt hpos).mpr (show n.natAbs < 2 ^ 53 by omega)
      omega
    have hpow : 2 ^ e * 2 ^ (52 - e) = 2 ^ 52 := by rw [← Nat.pow_add, Nat.add_sub_cancel' hele]
    obtain ⟨f, hf⟩ : ∃ f, n.natAbs * 2 ^ (52 - e) = f := ⟨_, rfl⟩
    have hfrac : 2 ^ 52 ≤ f ∧ f < 2 ^ 53 := by
      constructor
      · rw [← hf, ← hpow]
        exact Nat.mul_le_mul_right _ hlow
      · rw [← hf]
        calc n.natAbs * 2 ^ (52 - e) < 2 ^ (e + 1) * 2 ^ (52 - e) :=
              Nat.mul_lt_mul_of_pos_right hhigh (Nat.two_pow_pos _)
          _ = 2 ^ 53 := by rw [Nat.pow_succ', Nat.mul_assoc, hpow]; decide
    have hm : f / 2 ^ (52 - e) = n.natAbs := by
      rw [← hf]
      exact Nat.mul_div_cancel _ (Nat.two_pow_pos _)
    rw [he, hf, intOfDouble, UInt64.toNat_ofNat']
    split
    · rename_i hneg
      obtain ⟨x, hx⟩ : ∃ x, (2 ^ 63 + (1023 + e) * 2 ^ 52 + (f - 2 ^ 52)) % 2 ^ 64 = x := ⟨_, rfl⟩
      have hexp : 1075 - x / 2 ^ 52 % 2 ^ 11 = 52 - e := by omega
      have hfr : x % 2 ^ 52 + 2 ^ 52 = f := by omega
      rw [hx]
      simp only [hexp, hfr, hm]
      rw [if_pos (by omega)]
      omega
    · rename_i hneg
      obtain ⟨x, hx⟩ : ∃ x, (0 + (1023 + e) * 2 ^ 52 + (f - 2 ^ 52)) % 2 ^ 64 = x := ⟨_, rfl⟩
      have hexp : 1075 - x / 2 ^ 52 % 2 ^ 11 = 52 - e := by omega
      have hfr : x % 2 ^ 52 + 2 ^ 52 = f := by omega
      rw [hx]
      simp only [hexp, hfr, hm]
      rw [if_neg (by omega)]
      omega

/-- A number that is no `int` becomes the nearest one, and `%Y` is not padded. -/
def plainLib : TimeLib where
  storeInt v := max (-2 ^ 31) (min v (2 ^ 31 - 1))
  year y := decimal y.toNat
  toDouble := doubleOfInt
  toInt := intOfDouble

theorem plainLib_standard : plainLib.Standard where
  storeInt v hlow hhigh := by
    show max (-2 ^ 31) (min v (2 ^ 31 - 1)) = v
    omega
  year y hlow hhigh := by
    obtain ⟨c, s, hc, hdigits, hvalue, -⟩ := decimal_spec y.toNat
    have hlen : (decimal y.toNat).length ≤ 4 := by
      rw [decimal, if_neg (by omega), List.length_map, List.length_reverse,
        Nat.digits_length_le_iff (by decide)]
      omega
    refine ⟨⟨?_, hlen⟩, hdigits, ?_⟩
    · show decimal y.toNat ≠ []
      rw [hc]
      simp
    · show (numeral 10 (decimal y.toNat) : Int) = y
      rw [numeral, hvalue]
      omega
  exact n hlow hhigh := intOfDouble_doubleOfInt hlow hhigh

def plainConv : Conv := ⟨fun _ => 0, fun s => (timegm64 (parseDate plainLib s)).getD 0, doubleOfInt⟩

def plainPrint : PrintConv := ⟨fun _ => [], dateVal plainLib⟩

theorem plainConv_dates : plainConv.Dates plainPrint plainLib where
  timegm s v h := by
    show (timegm64 (parseDate plainLib s)).getD 0 = v
    rw [h, Option.getD_some]
  toDouble := rfl
  strftime := rfl

/-- The last month, and the last second of the year 1. -/
theorem dates_iff_year_one :
    (((0 ≤ (parseDate plainLib (dateStrval ⟨0, 20, false⟩ (lit "2001-12-01T00:00:00Z", 20))).mon ∧
        (parseDate plainLib (dateStrval ⟨0, 20, false⟩ (lit "2001-12-01T00:00:00Z", 20))).mon ≤ 11) ∧
        (timegm64 (parseDate plainLib
          (dateStrval ⟨0, 20, false⟩ (lit "2001-12-01T00:00:00Z", 20)))).isSome) ↔
      ∃ m, MonthField (dateStrval ⟨0, 20, false⟩ (lit "2001-12-01T00:00:00Z", 20)) m ∧
        1 ≤ plainLib.storeInt m ∧ plainLib.storeInt m ≤ 12) ∧
      RereadAs plainConv plainPrint (.scalar (.date (plainLib.toDouble (-63082368001))) 8)
        (.scalar (.date (plainLib.toDouble (-63082368001))) 8) := by
  have h := dates_iff plainConv_dates plainLib_standard
  exact ⟨(h.1 ⟨0, 20, false⟩ (lit "2001-12-01T00:00:00Z", 20) ⟨by decide, by decide⟩).2,
    (h.2 (-63082368001) (by decide) (by decide)).2⟩

/-- A text without numbers has month -1, and month 13 is one too many. -/
theorem dates_without_month :
    (parseDate plainLib (dateStrval ⟨0, 11, false⟩ (lit "hello world", 11))).mon = -1 ∧
      timegm64 (parseDate plainLib (dateStrval ⟨0, 11, false⟩ (lit "hello world", 11))) = none ∧
      (parseDate plainLib (dateStrval ⟨0, 20, false⟩ (lit "2001-13-01T00:00:00Z", 20))).mon = 12 ∧
      ¬ ∀ tp content, 11 ≤ content.2 ∧ content.2 < 32 →
        0 ≤ (parseDate plainLib (dateStrval tp content)).mon ∧
          (parseDate plainLib (dateStrval tp content)).mon ≤ 11 := by
  have hmon :
      (parseDate plainLib (dateStrval ⟨0, 11, false⟩ (lit "hello world", 11))).mon = -1 := by
    decide
  refine ⟨hmon, ?_, by decide, fun h => ?_⟩
  · rw [← Option.not_isSome_iff_eq_none, timegm64_isSome, hmon]
    decide
  · have hrange := h ⟨0, 11, false⟩ (lit "hello world", 11) ⟨by decide, by decide⟩
    rw [hmon] at hrange
    exact absurd hrange.1 (by decide)

/-! ## The dates of a run -/

/-- The text of each date that a turn of the main loop comes to, as `parse_date` gets it, is as `P`
says. -/
def DatesOfRun (conv : Conv) (text : List UInt8) (P : List UInt8 → Prop) : Prop :=
  ∀ e s, Run conv text e s → s.pos < text.length → s.err = false →
    ∀ p, p = s.pos + span text isBlank s.pos → text[p]? = some (ch '<') →
    ∀ tag pos tp rest pos' content, readTag text (p + 1) = .ok (some (tag, pos)) →
      tag.isEmpty = false → tag.name = lit "date" →
      getTextParts text tag.name tag.len true pos = .ok (some (tp :: rest), pos') →
      textPartsGetContent text tp rest = .ok (some content) →
      11 ≤ content.2 ∧ content.2 < 32 → P (dateStrval tp content)

/-- **Any buffer is read.**  Whatever the bytes are, `plist_from_xml` returns, and `timegm64` finds
every month in its table, if every turn of the loop of `node_from_xml` finds a tag with lengths that
fit in an `int`, and each date has a month between 1 and 12. -/
theorem plistFromXml_robust (lib : TimeLib) (conv : Conv) (plistXml : List UInt8) (length : Nat)
    (hm : MeasuredRun conv (plistXml.take length))
    (hdates : DatesOfRun conv (plistXml.take length) fun strval =>
      ∃ m, MonthField strval m ∧ 1 ≤ lib.storeInt m ∧ lib.storeInt m ≤ 12) :
    Robust conv (plistXml.take length) ∧
      DatesOfRun conv (plistXml.take length)
        (fun strval => (timegm64 (parseDate lib strval)).isSome) ∧
      ∃ r, ∀ fuel > length, plistFromXml conv plistXml length fuel = .ok r := by
  have hrobust := nodeFromXml_robust conv _ hm
  refine ⟨hrobust, ?_, hrobust.returns⟩
  intro e s hrun hlt herr p hp htag tag pos tp rest pos' content hread hempty hname hparts hcontent
    hlen
  rw [timegm64_isSome, parseDate_month]
  exact hdates e s hrun hlt herr p hp htag tag pos tp rest pos' content hread hempty hname hparts
    hcontent hlen

/-- A date of December. -/
def oneDate : List UInt8 := lit "<plist><date>2001-12-01T00:00:00Z</date></plist>"

theorem plistFromXml_robust_oneDate :
    Robust plainConv (oneDate.take 48) ∧
      DatesOfRun plainConv (oneDate.take 48)
        (fun strval => (timegm64 (parseDate plainLib strval)).isSome) ∧
      ∃ r, ∀ fuel > 48, plistFromXml plainConv oneDate 48 fuel = .ok r := by
  refine plistFromXml_robust plainLib plainConv oneDate 48
    (MeasuredRun.of_length _ (by decide)) ?_
  intro e s _ _ _ p _ htag tag pos tp rest pos' content hread _ hname hparts hcontent _
  have hlt : p < 48 := (List.getElem?_eq_some_iff.mp htag).1
  have hplaces : ∀ p < 48, (oneDate.take 48)[p]? = some (ch '<') →
      p = 0 ∨ p = 7 ∨ p = 33 ∨ p = 40 := by decide +kernel
  have hnames : ∀ p ∈ [0, 33, 40], (readTag (oneDate.take 48) (p + 1)).map
      (·.map fun r => r.1.name) ≠ .ok (some (lit "date")) := by decide +kernel
  have hno (hp : p ∈ [0, 33, 40]) : False := by
    refine hnames p hp ?_
    rw [hread, ← hname]
    rfl
  rcases hplaces p hlt htag with rfl | rfl | rfl | rfl
  · exact (hno (by decide)).elim
  · cases hread
    cases hparts
    cases hcontent
    exact (parseDate_month plainLib _).mp (by decide +kernel)
  · exact (hno (by decide)).elim
  · exact (hno (by decide)).elim

end IDeviceStack.Libplist.Xplist
