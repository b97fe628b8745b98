/-
Accounting windows.  A window prefix (`60`, `daily`, `monthly`) and an
instant in Unix seconds determine the id of the current window
(`currentWindowID`) and its bounds (`windowBounds`).  Days and months are
those of the proleptic Gregorian calendar in UTC, computed as the `time`
package does: a day number since January 1 of year 1 is cut into cycles of
400, 100, 4 and 1 years.

An instant lies in one window of each length: the stored bounds of a window
contain `now` only if its id is the one `currentWindowID` gives at `now`
(`currentWindowID_of_bounds`).
-/
import Mathlib.Data.Nat.Find
import Hoorific.Core

namespace Hoorific

/-! ### The calendar -/

namespace Calendar

def isLeap (year : Int) : Bool := year % 4 == 0 && (year % 100 != 0 || year % 400 == 0)

/-- Days from January 1 of year 1 to January 1 of `year`. -/
def daysBeforeYear (year : Int) : Int :=
  365 * (year - 1) + (year - 1) / 4 - (year - 1) / 100 + (year - 1) / 400

/-- Days from January 1 to the first of each month of an ordinary year. -/
def cumulativeDays : List Int := [0, 31, 59, 90, 120, 151, 181, 212, 243, 273, 304, 334]

/-- Days of a year before its month `month` (1 to 12). -/
def daysBeforeMonth (leap : Bool) (month : Int) : Int :=
  cumulativeDays.getD (month - 1).toNat 0 + if leap && decide (month > 2) then 1 else 0

/-- The day number of January 1, 1970. -/
def epochDay : Int := 719162

variable (now : Int)

/-- The day number an instant lies in. -/
def dayNumber : Int := now / 86400 + epochDay

/-- Year and zero-based day of the year of a day number. -/
def yearAndDay (day : Int) : Int × Int :=
  let n400 := day / 146097
  let d := day % 146097
  let n100 := min (d / 36524) 3
  let d := d - n100 * 36524
  let n4 := d / 1461
  let d := d % 1461
  let n1 := min (d / 365) 3
  (400 * n400 + 100 * n100 + 4 * n4 + n1 + 1, d - n1 * 365)

/-- `t.Year()`. -/
def year : Int := (yearAndDay (dayNumber now)).1

/-- `t.YearDay()`, counted from 1. -/
def yearDay : Int := (yearAndDay (dayNumber now)).2 + 1

/-- `t.Month()`: the last month that has begun. -/
def month : Int :=
  let leap := isLeap (year now)
  ((List.range 12).countP fun m : Nat => decide (daysBeforeMonth leap (m + 1) < yearDay now) : Nat)

/-- `t.Day()`: the day of the month, counted from 1. -/
def dayOfMonth : Int := yearDay now - daysBeforeMonth (isLeap (year now)) (month now)

/-- `time.Date(year, month, day, 0, 0, 0, 0, time.UTC).Unix()`, with month 13
read as January of the next year. -/
def date (year month day : Int) : Int :=
  let y := if month > 12 then year + 1 else year
  let m := if month > 12 then month - 12 else month
  (daysBeforeYear y + daysBeforeMonth (isLeap y) m + (day - 1) - epochDay) * 86400

example : (year 1709210096, month 1709210096, dayOfMonth 1709210096, yearDay 1709210096)
    = (2024, 2, 29, 60) := by decide

/-! ### The calendar is consistent -/

/-- The days before a year grow by the length of the year. -/
theorem daysBeforeYear_succ (year : Int) :
    daysBeforeYear (year + 1) = daysBeforeYear year + 365 + if isLeap year then 1 else 0 := by
  simp only [daysBeforeYear, isLeap, Bool.and_eq_true, Bool.or_eq_true, beq_iff_eq, bne_iff_ne]
  split <;> omega

theorem daysBeforeYear_mono {y z : Int} (h : y < z) :
    daysBeforeYear (y + 1) ≤ daysBeforeYear z := by
  simp only [daysBeforeYear]
  omega

/-- The days before a year that is given by its cycles of 400, 100, 4 and 1 years. -/
theorem daysBeforeYear_cycles {n400 n100 n4 n1 : Int} (h100 : 0 ≤ n100 ∧ n100 ≤ 3)
    (h4 : 0 ≤ n4 ∧ n4 ≤ 24) (h1 : 0 ≤ n1 ∧ n1 ≤ 3) :
    daysBeforeYear (400 * n400 + 100 * n100 + 4 * n4 + n1 + 1) =
      146097 * n400 + 36524 * n100 + 1461 * n4 + 365 * n1 := by
  have hyears : 400 * n400 + 100 * n100 + 4 * n4 + n1 + 1 - 1 =
      400 * n400 + 100 * n100 + 4 * n4 + n1 := by omega
  have hby4 : (400 * n400 + 100 * n100 + 4 * n4 + n1) / 4 = 100 * n400 + 25 * n100 + n4 := by
    omega
  have hby400 : (400 * n400 + 100 * n100 + 4 * n4 + n1) / 400 = n400 := by omega
  rw [daysBeforeYear, hyears, hby4]
  omega

/-- **`yearAndDay` cuts a day number into cycles**: the rest is a day of the
year, and it is the 366th only in a leap year. -/
theorem yearAndDay_spec (day : Int) :
    daysBeforeYear (yearAndDay day).1 + (yearAndDay day).2 = day ∧ 0 ≤ (yearAndDay day).2 ∧
      day < daysBeforeYear ((yearAndDay day).1 + 1) := by
  simp only [yearAndDay]
  generalize hn400 : day / 146097 = n400
  generalize hn100 : min (day % 146097 / 36524) 3 = n100
  generalize hd100 : day % 146097 - n100 * 36524 = d100
  generalize hn4 : d100 / 1461 = n4
  generalize hn1 : min (d100 % 1461 / 365) 3 = n1
  have h100 : 0 ≤ n100 ∧ n100 ≤ 3 := by omega
  have h4 : 0 ≤ n4 ∧ n4 ≤ 24 := by omega
  have h1 : 0 ≤ n1 ∧ n1 ≤ 3 := by omega
  have hrest : 0 ≤ d100 % 1461 - n1 * 365 ∧ (d100 % 1461 - n1 * 365 ≤ 364 ∨
      d100 % 1461 - n1 * 365 = 365 ∧ n1 = 3 ∧ (n4 = 24 → n100 = 3)) := by omega
  have hsum : daysBeforeYear (400 * n400 + 100 * n100 + 4 * n4 + n1 + 1) +
      (d100 % 1461 - n1 * 365) = day := by
    rw [daysBeforeYear_cycles h100 h4 h1]
    omega
  refine ⟨hsum, hrest.1, ?_⟩
  rw [daysBeforeYear_succ]
  rcases hrest.2 with hshort | ⟨hlong, hlast, hcentury⟩
  · split <;> omega
  have hleap : isLeap (400 * n400 + 100 * n100 + 4 * n4 + n1 + 1) = true := by
    simp only [isLeap, Bool.and_eq_true, Bool.or_eq_true, beq_iff_eq, bne_iff_ne]
    omega
  rw [if_pos hleap]
  omega

theorem yearAndDay_eq {day year : Int} (h : daysBeforeYear year ≤ day)
    (h' : day < daysBeforeYear (year + 1)) :
    yearAndDay day = (year, day - daysBeforeYear year) := by
  obtain ⟨hsum, hnonneg, hlt⟩ := yearAndDay_spec day
  have hyear : (yearAndDay day).1 = year := by
    rcases Int.lt_trichotomy (yearAndDay day).1 year with hbefore | heq | hafter
    · have hle := daysBeforeYear_mono hbefore
      omega
    · exact heq
    · have hle := daysBeforeYear_mono hafter
      omega
  rw [hyear] at hsum
  refine Prod.ext hyear ?_
  show (yearAndDay day).2 = day - daysBeforeYear year
  omega

/-- The months of a year begin one after the other, within the year. -/
theorem daysBeforeMonth_mono : ∀ (leap : Bool) (i j : Fin 12), i ≤ j →
    daysBeforeMonth leap (i + 1 : Nat) ≤ daysBeforeMonth leap (j + 1 : Nat) := by decide

theorem daysBeforeMonth_bounds : ∀ (leap : Bool) (i : Fin 12),
    0 ≤ daysBeforeMonth leap (i + 1 : Nat) ∧ daysBeforeMonth leap (i + 1 : Nat) ≤ 335 := by decide

theorem count_months {leap : Bool} {day : Int} {m : Fin 12}
    (h : daysBeforeMonth leap (m + 1 : Nat) < day)
    (h' : m.val + 1 < 12 → day ≤ daysBeforeMonth leap (m + 1 + 1 : Nat)) :
    (List.range 12).countP
    (fun i : Nat => decide (daysBeforeMonth leap (i + 1) < day)) = m + 1 := by
  have hiff : ∀ i ∈ List.range 12,
      (decide (daysBeforeMonth leap (i + 1) < day) = true ↔ decide (i < m.val + 1) = true) := by
    intro i hi
    have hi' : i < 12 := List.mem_range.1 hi
    rw [decide_eq_true_iff, decide_eq_true_iff]
    constructor
    · intro hlt
      rcases Nat.lt_or_ge i (m + 1) with hle | hge
      · exact hle
      have hmono := daysBeforeMonth_mono leap ⟨m + 1, by omega⟩ ⟨i, hi'⟩ hge
      have hday := h' (by omega)
      exact absurd (Int.lt_of_lt_of_le hlt hday) (Int.not_lt.2 hmono)
    · intro hle
      have hmono := daysBeforeMonth_mono leap ⟨i, hi'⟩ m (Nat.le_of_lt_succ hle)
      exact Int.lt_of_le_of_lt hmono h
  have hcount : ∀ m : Fin 12, (List.range 12).countP (fun i => decide (i < m.val + 1)) = m + 1 := by
    decide
  rw [List.countP_congr hiff, hcount]

/-- The month of an instant is the one its day lies in. -/
theorem exists_month : ∃ m : Fin 12, month now = (m + 1 : Nat) ∧
    daysBeforeMonth (isLeap (year now)) (m + 1 : Nat) < yearDay now ∧
    (m.val + 1 < 12 → yearDay now ≤ daysBeforeMonth (isLeap (year now)) (m + 1 + 1 : Nat)) := by
  have hnonneg := (yearAndDay_spec (dayNumber now)).2.1
  let begun (m : Nat) : Prop := daysBeforeMonth (isLeap (year now)) (m + 1 : Nat) < yearDay now
  have hfirst : begun 0 := by
    have hzero : ∀ leap, daysBeforeMonth leap (0 + 1 : Nat) = 0 := by decide
    show daysBeforeMonth _ _ < yearDay now
    rw [hzero, yearDay]
    omega
  -- the last month that has begun
  have hlast : begun (Nat.findGreatest begun 11) := Nat.findGreatest_spec (Nat.zero_le 11) hfirst
  have hnext : Nat.findGreatest begun 11 + 1 < 12 → yearDay now ≤
      daysBeforeMonth (isLeap (year now)) (Nat.findGreatest begun 11 + 1 + 1 : Nat) := fun hlt =>
    Int.not_lt.1 (Nat.findGreatest_is_greatest (Nat.lt_succ_self _) (Nat.le_of_lt_succ hlt))
  let m : Fin 12 := ⟨Nat.findGreatest begun 11, Nat.lt_succ_of_le (Nat.findGreatest_le 11)⟩
  exact ⟨m, congrArg Nat.cast (count_months (m := m) hlast hnext), hlast, hnext⟩

theorem date_of_instant :
    date (year now) (month now) (dayOfMonth now) = (dayNumber now - epochDay) * 86400 := by
  obtain ⟨m, hmonth, -⟩ := exists_month now
  have hday := (yearAndDay_spec (dayNumber now)).1
  rw [date, if_neg (by omega), if_neg (by omega), dayOfMonth, yearDay, year] at *
  omega

variable {now}

theorem date_first {y month : Int} (h : month ≤ 12) :
    date y month 1 = (daysBeforeYear y + daysBeforeMonth (isLeap y) month - epochDay) * 86400 := by
  rw [date, if_neg (by omega), if_neg (by omega)]
  omega

/-- An instant lies between the first of a month and the first of the next one if
its day does; the end of December is the end of the year. -/
theorem between_firsts_iff {y : Int} {m : Fin 12} :
    date y (m + 1 : Nat) 1 ≤ now ∧ now < date y ((m + 1 : Nat) + 1) 1 ↔
      daysBeforeYear y + daysBeforeMonth (isLeap y) (m + 1 : Nat) ≤ dayNumber now ∧
        dayNumber now < daysBeforeYear (y + 1) ∧ (m.val + 1 < 12 → dayNumber now <
          daysBeforeYear y + daysBeforeMonth (isLeap y) (m + 1 + 1 : Nat)) := by
  have hsucc := daysBeforeYear_succ y
  rw [date_first (by omega), dayNumber]
  rcases Nat.lt_or_ge (m + 1) 12 with hlt | hge
  · have hnext : daysBeforeMonth (isLeap y) ((m + 1 : Nat) + 1) ≤ 335 :=
      (daysBeforeMonth_bounds (isLeap y) ⟨m + 1, hlt⟩).2
    rw [date_first (by omega), Int.natCast_succ (m.val + 1)]
    split at hsucc <;> omega
  · have hjanuary : ((m + 1 : Nat) : Int) + 1 - 12 = 1 := by omega
    have hzero : ∀ leap, daysBeforeMonth leap 1 = 0 := by decide
    rw [date, if_pos (by omega), if_pos (by omega), hjanuary, hzero]
    omega

/-- An instant between the first of a month and the first of the next one lies
in that month. -/
theorem month_of_bounds {y : Int} {m : Fin 12}
    (h : date y (m + 1 : Nat) 1 ≤ now ∧ now < date y ((m + 1 : Nat) + 1) 1) :
    year now = y ∧ month now = (m + 1 : Nat) := by
  have hmonth := daysBeforeMonth_bounds (isLeap y) m
  obtain ⟨hle, hend, hnext⟩ := between_firsts_iff.1 h
  have hyear : yearAndDay (dayNumber now) = (y, dayNumber now - daysBeforeYear y) :=
    yearAndDay_eq (by omega) hend
  have hyear' : year now = y := by rw [year, hyear]
  have hyearDay : yearDay now = dayNumber now - daysBeforeYear y + 1 := by rw [yearDay, hyear]
  refine ⟨hyear', ?_⟩
  simp only [month, hyear', hyearDay]
  rw [count_months (m := m) (by omega) fun hlt => ?_]
  omega

theorem bounds_of_month (now : Int) :
    date (year now) (month now) 1 ≤ now ∧ now < date (year now) (month now + 1) 1 := by
  obtain ⟨m, hm, hbegun, hnext⟩ := exists_month now
  obtain ⟨hsum, -, hend⟩ := yearAndDay_spec (dayNumber now)
  rw [yearDay] at hbegun hnext
  rw [hm, between_firsts_iff]
  refine ⟨?_, hend, fun hlt => ?_⟩
  · rw [year] at *
    omega
  · have hday := hnext hlt
    rw [year] at *
    omega

end Calendar

/-! ### Window ids and bounds -/

/-- The window a `window_id` belongs to: the text before its colon. -/
def WindowID.window : WindowID → Window
  | .total => .total
  | .minute _ => .minute
  | .daily _ _ => .daily
  | .monthly _ _ => .monthly
  | .other s => .other s

/-- The id of the window that contains `now`; `other ""` for a window without ids. -/
def currentWindowID (now : Int) : Window → WindowID
  | .minute => .minute (now.tdiv 60 * 60)
  | .daily => .daily (Calendar.year now) (Calendar.yearDay now)
  | .monthly => .monthly (Calendar.year now) (Calendar.month now)
  | .total => .other ""
  | .other _ => .other ""

/-- The bounds of the window that contains `now`, the end excluded. -/
def windowBounds (now : Int) : Window → Int × Int
  | .minute =>
    let start := now.tdiv 60 * 60
    (start, start + 60)
  | .daily =>
    let start := Calendar.date (Calendar.year now) (Calendar.month now) (Calendar.dayOfMonth now)
    (start, start + 86400)
  | .monthly =>
    (Calendar.date (Calendar.year now) (Calendar.month now) 1,
      Calendar.date (Calendar.year now) (Calendar.month now + 1) 1)
  | .total => (0, 0)
  | .other _ => (0, 0)

/-- A window's current id, when it has one, belongs to that window. -/
theorem currentWindowID_window {now : Int} {w : Window} (h : currentWindowID now w ≠ .other "") :
    (currentWindowID now w).window = w := by
  cases w with
  | minute | daily | monthly => rfl
  | total | other => exact absurd rfl h

theorem currentWindowID_ne_total (now : Int) (w : Window) : currentWindowID now w ≠ .total := by
  cases w <;> simp [currentWindowID]

example : windowBounds 1709210096 .monthly = (1706745600, 1709251200) := by decide

/-- **One window per instant**: the window that contains `now` is the current
one. -/
theorem currentWindowID_of_bounds {t now : Int} {w : Window} (hnow : 0 ≤ now)
    (h : (windowBounds t w).1 ≤ now ∧ now < (windowBounds t w).2) :
    currentWindowID now w = currentWindowID t w := by
  cases w with
  | total | other =>
    simp only [windowBounds] at h
    omega
  | minute =>
    simp only [windowBounds] at h
    generalize hq : t.tdiv 60 = q at h
    have hsame : now.tdiv 60 = q := by
      rw [Int.tdiv_eq_ediv_of_nonneg hnow]
      omega
    rw [currentWindowID, currentWindowID, hsame, hq]
  | daily =>
    simp only [windowBounds, Calendar.date_of_instant] at h
    have hsame : Calendar.dayNumber now = Calendar.dayNumber t := by
      simp only [Calendar.dayNumber] at *
      omega
    simp only [currentWindowID, Calendar.year, Calendar.yearDay, hsame]
  | monthly =>
    simp only [windowBounds] at h
    obtain ⟨m, hm, -⟩ := Calendar.exists_month t
    rw [hm] at h
    obtain ⟨hyear, hmonth⟩ := Calendar.month_of_bounds h
    rw [currentWindowID, currentWindowID, hyear, hmonth, hm]

/-! ### Windows partition time -/

/-- An instant lies in a window. -/
def Within (now : Int) (bounds : Int × Int) : Prop := bounds.1 ≤ now ∧ now < bounds.2

/-- `windowBounds` in 64-bit arithmetic: the last window ends after the last instant,
and its end wraps around. -/
def windowBounds64 (now : Int) (w : Window) : Int × Int :=
  ((windowBounds now w).1, (windowBounds now w).2.bmod (2 ^ 64))

/-- The windows that have bounds. -/
def boundedWindows : List Window := [.minute, .daily, .monthly]

variable {s t now : Int} {w : Window}

theorem within_windowBounds (hw : w ∈ boundedWindows) (hnow : 0 ≤ now) :
    Within now (windowBounds now w) := by
  rw [Within]
  cases w with
  | minute =>
    rw [windowBounds, Int.tdiv_eq_ediv_of_nonneg hnow]
    omega
  | daily =>
    simp only [windowBounds, Calendar.date_of_instant, Calendar.dayNumber]
    omega
  | monthly => exact Calendar.bounds_of_month now
  | total | other => simp [boundedWindows] at hw

/-- The bounds of a window are told by its id. -/
theorem windowBounds_of_id (h : currentWindowID s w = currentWindowID t w) :
    windowBounds s w = windowBounds t w := by
  cases w with
  | minute =>
    injection h with h
    rw [windowBounds, windowBounds, h]
  | daily =>
    injection h with hyear hday
    simp only [windowBounds, Calendar.dayOfMonth, Calendar.month, hyear, hday]
  | monthly =>
    injection h with hyear hmonth
    rw [windowBounds, windowBounds, hyear, hmonth]
  | total | other => rfl

theorem id_of_start (hw : w ∈ boundedWindows) (hs : 0 ≤ s) (ht : 0 ≤ t)
    (h : (windowBounds s w).1 = (windowBounds t w).1) :
    currentWindowID s w = currentWindowID t w := by
  have hin := within_windowBounds hw hs
  have hin' := within_windowBounds hw ht
  rcases Int.le_total s t with hle | hle
  · exact currentWindowID_of_bounds hs ⟨h ▸ hin.1, Int.lt_of_le_of_lt hle hin'.2⟩
  · exact (currentWindowID_of_bounds ht ⟨h ▸ hin'.1, Int.lt_of_le_of_lt hle hin.2⟩).symm

/-- **Windows partition time**, up to the window that 64 bits cut off: an instant lies
in its window, and ids, bounds and instants agree. -/
theorem windows_partition (hw : w ∈ boundedWindows) :
    (∀ now, 0 ≤ now → (windowBounds now w).2 < 2 ^ 63 → Within now (windowBounds64 now w)) ∧
      ∀ s t, 0 ≤ s → 0 ≤ t →
        (currentWindowID s w = currentWindowID t w ↔ windowBounds64 s w = windowBounds64 t w) ∧
        ((windowBounds s w).2 < 2 ^ 63 →
          (windowBounds64 s w = windowBounds64 t w ↔ Within t (windowBounds64 s w))) := by
  have hfits : ∀ now, 0 ≤ now → (windowBounds now w).2 < 2 ^ 63 →
      windowBounds64 now w = windowBounds now w := by
    intro now hnow hend
    have hin := within_windowBounds hw hnow
    exact Prod.ext rfl (Int.bmod_eq_of_le (by have := hin.2; omega) (by omega))
  have hids : ∀ s t, 0 ≤ s → 0 ≤ t →
      (currentWindowID s w = currentWindowID t w ↔ windowBounds64 s w = windowBounds64 t w) := by
    refine fun s t hs ht => ⟨fun h => ?_, fun h => id_of_start hw hs ht (Prod.mk.inj h).1⟩
    rw [windowBounds64, windowBounds64, windowBounds_of_id h]
  refine ⟨fun now hnow hend => ?_, fun s t hs ht => ⟨hids s t hs ht, fun hend => ?_⟩⟩
  · rw [hfits now hnow hend]
    exact within_windowBounds hw hnow
  · rw [← hids s t hs ht, hfits s hs hend]
    constructor
    · intro h
      rw [windowBounds_of_id h]
      exact within_windowBounds hw ht
    · exact fun h => (currentWindowID_of_bounds ht h).symm

/-- A leap day and the first day of its month lie in one window. -/
theorem windows_partition_leap_day :
    Within 1706745600 (windowBounds64 1709210096 .monthly) ∧
      currentWindowID 1709210096 .monthly = currentWindowID 1706745600 .monthly := by
  obtain ⟨hid, hwithin⟩ :=
    (windows_partition (w := .monthly) (by decide)).2 1709210096 1706745600 (by decide) (by decide)
  exact ⟨(hwithin (by decide)).1 (by decide), hid.2 (by decide)⟩

/-- The last instant is not in its window. -/
theorem last_instant_outside :
    windowBounds64 (2 ^ 63 - 1) .minute = (9223372036854775800, -9223372036854775756) ∧
      ¬ Within (2 ^ 63 - 1) (windowBounds64 (2 ^ 63 - 1) .minute) :=
  ⟨by decide, fun h => absurd h.2 (by decide)⟩

end Hoorific
