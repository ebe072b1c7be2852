import Mathlib.Data.Nat.Basic
import Mathlib.Order.Monotone.Basic
import Mathlib.Tactic.IntervalCases

/-!
# The Gregorian calendar counted from March

Days and months are numbered from the first of March of year 0, so that the
leap day is the last day of a year. Counting a date and naming a count with
truncating divisions are inverse to each other, and counting keeps the order.
-/

namespace BT816Display.Gregorian

/-- Years with a leap day. -/
def IsLeap (year : ℕ) : Prop := year%4=0 ∧ (year%100≠0 ∨ year%400=0)

instance (year : ℕ) : Decidable (IsLeap year) := instDecidableAnd

/-- Days of a month, January being 1. -/
def monthLength (year month : ℕ) : ℕ :=
  if month=2 then if IsLeap year then 29 else 28
  else if month=4 ∨ month=6 ∨ month=9 ∨ month=11 then 30
  else 31

/-- A day of the calendar. -/
structure Date where
  /-- Year. -/
  year : ℕ
  /-- Month, January being 1. -/
  month : ℕ
  /-- Day of the month. -/
  day : ℕ
  deriving DecidableEq

/-- The date exists. -/
structure Date.Valid (d : Date) : Prop where
  /-- Months start at 1. -/
  month_pos : 1≤d.month
  /-- December is the last month. -/
  month_le : d.month≤12
  /-- Days start at 1. -/
  day_pos : 1≤d.day
  /-- The day is in the month. -/
  day_le : d.day ≤ monthLength d.year d.month

/-- Calendar order. -/
def Date.Before (d d' : Date) : Prop :=
  d.year<d'.year ∨ d.year=d'.year ∧
    (d.month<d'.month ∨ d.month=d'.month ∧ d.day<d'.day)

theorem monthLength_ge (year month : ℕ) : 28 ≤ monthLength year month := by
  unfold monthLength
  split_ifs <;> omega

theorem monthLength_le (year month : ℕ) : monthLength year month≤31 := by
  unfold monthLength
  split_ifs <;> omega

/-- The leap years repeat every 400 years. -/
theorem isLeap_add (year k : ℕ) : IsLeap (year+400*k) ↔ IsLeap year := by
  unfold IsLeap
  omega

/-- The calendar repeats every 400 years. -/
theorem monthLength_add (year month k : ℕ) :
    monthLength (year+400*k) month=monthLength year month := by
  unfold monthLength
  simp only [isLeap_add]

/-! ## Counting days -/

/-- Leap days of the years 1 to `year`. -/
def leapDays (year : ℕ) : ℕ := year/4-year/100+year/400

theorem leapDays_succ (year : ℕ) :
    leapDays (year+1)=leapDays year+if IsLeap (year+1) then 1 else 0 := by
  have h4 : (year+1)/4=year/4+if (year+1)%4=0 then 1 else 0 := by split_ifs <;> omega
  have h100 : (year+1)/100=year/100+if (year+1)%100=0 then 1 else 0 := by split_ifs <;> omega
  have h400 : (year+1)/400=year/400+if (year+1)%400=0 then 1 else 0 := by split_ifs <;> omega
  have hle : year/100≤year/4 := by omega
  have hcentury : (year+1)%100=0 → (year+1)%4=0 := by omega
  have hcycle : (year+1)%400=0 → (year+1)%100=0 := by omega
  unfold leapDays
  rw [h4,h100,h400]
  clear h4 h100 h400
  generalize year/4=q4 at *
  generalize year/100=q100 at *
  generalize year/400=q400 at *
  by_cases h400 : (year+1)%400=0
  · have h100 := hcycle h400
    have h4 := hcentury h100
    have hleap : IsLeap (year+1) := ⟨h4,Or.inr h400⟩
    rw [if_pos h4,if_pos h100,if_pos h400,if_pos hleap]
    omega
  · by_cases h100 : (year+1)%100=0
    · have h4 := hcentury h100
      have hleap : ¬IsLeap (year+1) := fun h => h.2.elim (absurd h100) h400
      rw [if_pos h4,if_pos h100,if_neg h400,if_neg hleap]
      omega
    · by_cases h4 : (year+1)%4=0
      · have hleap : IsLeap (year+1) := ⟨h4,Or.inl h100⟩
        rw [if_pos h4,if_neg h100,if_neg h400,if_pos hleap]
        omega
      · have hleap : ¬IsLeap (year+1) := fun h => h4 h.1
        rw [if_neg h4,if_neg h100,if_neg h400,if_neg hleap]
        rfl

/-- Months since March of year 0. -/
def monthNumber (year month : ℕ) : ℕ := 12*year+month-3

/-- Year of a month number. -/
def yearOf (n : ℕ) : ℕ := (n+2)/12

/-- Month of a month number. -/
def monthOf (n : ℕ) : ℕ := (n+2)%12+1

/-- Days before a month. -/
def monthStart (n : ℕ) : ℕ := 365*(n/12)+leapDays (n/12)+(153*(n%12)+2)/5

/-- Days since the first of March of year 0. -/
def dayNumber (d : Date) : ℕ := monthStart (monthNumber d.year d.month)+(d.day-1)

/-- A month number gives back its year and month. -/
theorem yearOf_monthNumber {year month : ℕ} (h1 : 1 ≤ month) (h12 : month≤12)
    (hc : 3≤12*year+month) : yearOf (monthNumber year month)=year ∧
      monthOf (monthNumber year month)=month := by
  unfold yearOf monthOf monthNumber
  omega

/-- Days before a month that starts in its year. -/
theorem monthStart_eq {q r : ℕ} (hr : r<12) :
    monthStart (12*q+r)=365*q+leapDays q+(153*r+2)/5 := by
  have hq : (12*q+r)/12=q := by omega
  have hm : (12*q+r)%12=r := by omega
  unfold monthStart
  rw [hq,hm]

/-- A month starts where the one before ends. -/
theorem monthStart_succ (n : ℕ) :
    monthStart (n+1)=monthStart n+monthLength (yearOf n) (monthOf n) := by
  obtain ⟨q,r,rfl,hr⟩ : ∃ q r,n=12*q+r ∧ r<12 := ⟨n/12,n%12,by omega,by omega⟩
  have hleap := leapDays_succ q
  by_cases h11 : r=11
  · subst h11
    have hy : yearOf (12*q+11)=q+1 := by unfold yearOf; omega
    have hm : monthOf (12*q+11)=2 := by unfold monthOf; omega
    have hs : monthStart (12*q+11+1)=365*(q+1)+leapDays (q+1) :=
      monthStart_eq (q:=q+1) (r:=0) (by omega)
    rw [hs,monthStart_eq hr,hy,hm,monthLength,if_pos rfl]
    split_ifs at hleap ⊢ <;> omega
  · rw [Nat.add_assoc,monthStart_eq hr,monthStart_eq (r:=r+1) (by omega)]
    by_cases h10 : r=10
    · have hm : monthOf (12*q+r)=1 := by unfold monthOf; omega
      subst h10
      rw [hm]
      rfl
    · have hm : monthOf (12*q+r)=r+3 := by unfold monthOf; omega
      have hlength : (153*r+2)/5+monthLength (yearOf (12*q+r)) (r+3)=(153*(r+1)+2)/5 := by
        have hr9 : r≤9 := by omega
        interval_cases r <;> rfl
      rw [hm]
      omega

theorem monthStart_strictMono : StrictMono monthStart := by
  refine strictMono_nat_of_lt_succ fun n => ?_
  have hpos := monthLength_ge (yearOf n) (monthOf n)
  rw [monthStart_succ]
  omega

/-! ## Naming days -/

/-- Century of a day number. -/
def century (n : ℕ) : ℕ := (4*n+3)/146097

/-- Days since the start of the century. -/
def dayOfCentury (n : ℕ) : ℕ := n-146097*century n/4

/-- Year of the century. -/
def yearOfCentury (n : ℕ) : ℕ := (4*dayOfCentury n+3)/1461

/-- Days since March of the year. -/
def dayOfYear (n : ℕ) : ℕ := dayOfCentury n-1461*yearOfCentury n/4

/-- Months since March of the year. -/
def monthOfYear (n : ℕ) : ℕ := (5*dayOfYear n+2)/153

/-- The date of a day number. -/
def civil (n : ℕ) : Date where
  year := 100*century n+yearOfCentury n+monthOfYear n/10
  month := monthOfYear n+3-12*(monthOfYear n/10)
  day := dayOfYear n-(153*monthOfYear n+2)/5+1

/-- Leap years within a century. -/
theorem isLeap_century {b d : ℕ} (hd : d≤99) :
    IsLeap (100*b+d+1) ↔ d%4=3 ∧ (d≠99 ∨ b%4=3) := by
  unfold IsLeap
  have h4 : (100*b+d+1)%4=(d+1)%4 := by omega
  rw [h4]
  by_cases h99 : d=99
  · subst h99
    omega
  · have h100 : (100*b+d+1)%100=d+1 := by omega
    rw [h100]
    omega

/-- Days before a century that starts in March. -/
theorem century_days (b : ℕ) : 146097*b/4=36524*b+b/4 := by omega

/-- Days before a year of a century. -/
theorem year_days (d : ℕ) : 1461*d/4=365*d+d/4 := by omega

/-- A day number is split at the start of its century. -/
theorem century_split (n : ℕ) : n=36524*century n+century n/4+dayOfCentury n ∧
    dayOfCentury n<36524+if century n%4=3 then 1 else 0 := by
  have hb : century n=(4*n+3)/146097 := rfl
  have hc : dayOfCentury n=n-146097*century n/4 := rfl
  rw [century_days] at hc
  generalize century n=b at *
  refine ⟨by omega,?_⟩
  split_ifs <;> omega

theorem yearOfCentury_le (n : ℕ) : yearOfCentury n≤99 := by
  have hc := (century_split n).2
  unfold yearOfCentury
  split_ifs at hc <;> omega

/-- A day of a century is split at the start of its year, which has a leap day
at its end when the next year is a leap year. -/
theorem year_split (n : ℕ) :
    dayOfCentury n=365*yearOfCentury n+yearOfCentury n/4+dayOfYear n ∧
      dayOfYear n<365+if IsLeap (100*century n+yearOfCentury n+1) then 1 else 0 := by
  have hc := (century_split n).2
  have hle := yearOfCentury_le n
  have hd : yearOfCentury n=(4*dayOfCentury n+3)/1461 := rfl
  have he : dayOfYear n=dayOfCentury n-1461*yearOfCentury n/4 := rfl
  rw [year_days] at he
  generalize yearOfCentury n=d at *
  generalize dayOfCentury n=c at *
  refine ⟨by omega,?_⟩
  by_cases h : IsLeap (100*century n+d+1)
  · rw [if_pos h]
    omega
  · rw [if_neg h]
    rw [isLeap_century hle] at h
    split_ifs at hc <;> omega

/-- A day of a year is in its month. -/
theorem month_split (n : ℕ) : monthOfYear n≤11 ∧ (153*monthOfYear n+2)/5≤dayOfYear n ∧
    dayOfYear n<(153*(monthOfYear n+1)+2)/5 := by
  have he := (year_split n).2
  have hm : monthOfYear n=(5*dayOfYear n+2)/153 := rfl
  generalize dayOfYear n=e at *
  refine ⟨?_,by omega,by omega⟩
  split_ifs at he <;> omega

/-- The month of a day number. -/
theorem civil_month (n : ℕ) :
    monthNumber (civil n).year (civil n).month=
      12*(100*century n+yearOfCentury n)+monthOfYear n := by
  have hm := (month_split n).1
  unfold monthNumber civil
  dsimp only
  omega

theorem leapDays_century {b d : ℕ} (hd : d≤99) : leapDays (100*b+d)=24*b+b/4+d/4 := by
  have h4 : (100*b+d)/4=25*b+d/4 := by omega
  have h100 : (100*b+d)/100=b := by omega
  have h400 : (100*b+d)/400=b/4 := by omega
  unfold leapDays
  omega

/-- A day number is at or behind the start of its month. -/
theorem civil_start (n : ℕ) :
    n=monthStart (monthNumber (civil n).year (civil n).month)+((civil n).day-1) := by
  have hcentury := (century_split n).1
  have hyear := (year_split n).1
  obtain ⟨hm,hlow,-⟩ := month_split n
  rw [civil_month,monthStart_eq (by omega),leapDays_century (yearOfCentury_le n)]
  unfold civil
  dsimp only
  omega

/-- A day number is before the start of the next month. -/
theorem civil_end (n : ℕ) : n < monthStart (monthNumber (civil n).year (civil n).month+1) := by
  have hcentury := (century_split n).1
  obtain ⟨hyear,hlast⟩ := year_split n
  obtain ⟨hm,-,hhigh⟩ := month_split n
  have hleap := leapDays_century (b:=century n) (yearOfCentury_le n)
  rw [civil_month]
  by_cases h11 : monthOfYear n=11
  · have hsucc := leapDays_succ (100*century n+yearOfCentury n)
    rw [h11,show 12*(100*century n+yearOfCentury n)+11+1=
        12*(100*century n+yearOfCentury n+1)+0 by omega,monthStart_eq (by omega),hsucc,hleap]
    omega
  · rw [Nat.add_assoc,monthStart_eq (by omega),hleap]
    omega

/-- Dates from March of year 0 on. -/
def Date.Counted (d : Date) : Prop := 3≤12*d.year+d.month

/-- A date is counted before the next month starts. -/
theorem Date.Valid.dayNumber_lt {d : Date} (h : d.Valid) (hc : d.Counted) :
    dayNumber d < monthStart (monthNumber d.year d.month+1) := by
  have hday := h.day_le
  have hpos := h.day_pos
  obtain ⟨hy,hm⟩ := yearOf_monthNumber h.month_pos h.month_le hc
  rw [monthStart_succ,hy,hm]
  unfold dayNumber
  omega

/-- Later dates have larger numbers. -/
theorem dayNumber_lt_of_before {d d' : Date} (h : d.Valid) (hc : d.Counted) (h' : d'.Valid)
    (hb : d.Before d') : dayNumber d<dayNumber d' := by
  have hlt := h.dayNumber_lt hc
  have h1 := h.month_pos
  have h12 := h.month_le
  have h1' := h'.month_pos
  have h12' := h'.month_le
  unfold Date.Counted at hc
  by_cases hmonth : monthNumber d.year d.month < monthNumber d'.year d'.month
  · have hnext : monthNumber d.year d.month+1 ≤ monthNumber d'.year d'.month := hmonth
    have hle := monthStart_strictMono.monotone hnext
    unfold dayNumber at hlt ⊢
    omega
  · have hd := h.day_pos
    unfold monthNumber at hmonth
    rcases hb with hy|⟨hy,hm|⟨hm,hday⟩⟩
    · omega
    · omega
    · unfold dayNumber
      rw [hy,hm]
      omega

/-- Two dates are the same or one is before the other. -/
theorem Date.trichotomy (d d' : Date) : d.Before d' ∨ d=d' ∨ d'.Before d := by
  obtain ⟨y,m,a⟩ := d
  obtain ⟨y',m',a'⟩ := d'
  unfold Date.Before
  simp only [Date.mk.injEq]
  omega

/-- A date that is not before another has no smaller number. -/
theorem dayNumber_le_of_not_before {d d' : Date} (h : d.Valid) (hc : d.Counted)
    (h' : d'.Valid) (hb : ¬d'.Before d) : dayNumber d≤dayNumber d' := by
  rcases d.trichotomy d' with hlt|rfl|hlt
  · exact (dayNumber_lt_of_before h hc h' hlt).le
  · exact le_rfl
  · exact absurd hlt hb

/-- Dates with the same number are the same. -/
theorem dayNumber_inj {d d' : Date} (h : d.Valid) (hc : d.Counted) (h' : d'.Valid)
    (hc' : d'.Counted) (he : dayNumber d=dayNumber d') : d=d' := by
  rcases d.trichotomy d' with hb|heq|hb
  · exact absurd he (dayNumber_lt_of_before h hc h' hb).ne
  · exact heq
  · exact absurd he (dayNumber_lt_of_before h' hc' h hb).ne'

theorem civil_counted (n : ℕ) : (civil n).Counted := by
  have hm := (month_split n).1
  unfold Date.Counted civil
  dsimp only
  omega

/-- The date of a day number is counted back to it. -/
theorem dayNumber_civil (n : ℕ) : dayNumber (civil n)=n := (civil_start n).symm

/-- The date of a day number exists. -/
theorem civil_valid (n : ℕ) : (civil n).Valid := by
  have hm := (month_split n).1
  have hstart := civil_start n
  have hend := civil_end n
  have hpos : 1≤(civil n).month ∧ (civil n).month≤12 ∧ 1≤(civil n).day := by
    unfold civil
    dsimp only
    omega
  obtain ⟨hy,hmo⟩ := yearOf_monthNumber hpos.1 hpos.2.1 (civil_counted n)
  rw [monthStart_succ,hy,hmo] at hend
  exact ⟨hpos.1,hpos.2.1,hpos.2.2,by omega⟩

/-- Naming the number of a date gives the date. -/
theorem civil_dayNumber {d : Date} (h : d.Valid) (hc : d.Counted) : civil (dayNumber d)=d :=
  dayNumber_inj (civil_valid _) (civil_counted _) h hc (dayNumber_civil _)

end BT816Display.Gregorian
