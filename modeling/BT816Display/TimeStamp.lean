import BT816Display.Clock
import BT816Display.Lib.ByteMemory
import BT816Display.Lib.Gregorian

/-!
# From seconds back to calendar time

cur_time.c, message_archive.c and draw_trend_menu.c each hold a copy of the
same decoder of the 32-bit time. Its divisions name the days as the calendar
does, and its 8-bit variables are wide enough for every time.
-/

namespace BT816Display.TimeStamp

open ByteMemory Clock Gregorian

/-! ## The decoder -/

/-- The variables of the decoder, with what is assigned to the 8-bit ones. -/
structure Decoding where
  /-- ace, the day. -/
  ace : UInt32
  /-- Value assigned to b. -/
  wideB : UInt32
  /-- b, a century. -/
  b : UInt8
  /-- ace, the day of the century. -/
  aceOfCentury : UInt32
  /-- Value assigned to d. -/
  wideD : UInt32
  /-- d, a year of the century. -/
  d : UInt8
  /-- ace, the day of the year. -/
  aceOfYear : UInt32
  /-- Value assigned to m. -/
  wideM : UInt32
  /-- m, a month from March on. -/
  m : UInt8
  /-- Value assigned to date. -/
  wideDate : UInt32
  /-- Value assigned to month. -/
  wideMonth : ℤ
  /-- Value assigned to year. -/
  wideYear : ℤ
  /-- Value assigned to hour. -/
  wideHour : UInt32
  /-- Value assigned to min. -/
  wideMin : UInt32
  /-- Value assigned to sec. -/
  wideSec : UInt32

/-- The fields of the decoded time. -/
def Decoding.time (x : Decoding) : ErtcTime where
  year := UInt8.ofInt x.wideYear
  month := UInt8.ofInt x.wideMonth
  day := x.wideDate.toUInt8
  hour := x.wideHour.toUInt8
  min := x.wideMin.toUInt8
  sec := x.wideSec.toUInt8

/-- The statements that the three decoders share. -/
def decode (value : UInt32) : Decoding :=
  let ace : UInt32 := value/86400+32044+UInt32.ofInt jd0
  let wideB := (4*ace+3)/146097
  let b := wideB.toUInt8
  let aceOfCentury := ace-UInt32.ofInt (Int.tdiv (146097*b.toNat) 4)
  let wideD := (4*aceOfCentury+3)/1461
  let d := wideD.toUInt8
  let aceOfYear := aceOfCentury-UInt32.ofInt (Int.tdiv (1461*d.toNat) 4)
  let wideM := (5*aceOfYear+2)/153
  let m := wideM.toUInt8
  {
    ace := ace
    wideB := wideB
    b := b
    aceOfCentury := aceOfCentury
    wideD := wideD
    d := d
    aceOfYear := aceOfYear
    wideM := wideM
    m := m
    wideDate := aceOfYear-UInt32.ofInt (Int.tdiv (153*m.toNat+2) 5)+1
    wideMonth := m.toNat+3-12*Int.tdiv m.toNat 10
    wideYear := 100*b.toNat+d.toNat-4800+Int.tdiv m.toNat 10-2000
    wideHour := value/3600%24
    wideMin := value/60%60
    wideSec := value%60 }

/-- time_from_uint32: the time that the clock is set to. -/
def timeFromUint32 (value : UInt32) : ErtcTime := (decode value).time

/-- The fields of a time in the order of the texts. -/
def timeFields (t : ErtcTime) : List UInt32 :=
  [t.hour.toUInt32,t.min.toUInt32,t.sec.toUInt32,t.day.toUInt32,t.month.toUInt32,t.year.toUInt32]

/-- draw_time: the six numbers of the text. -/
def drawTime (tm : UInt32) : List UInt32 := timeFields (decode tm).time

/-- Characters up to the end of the buffer, and the terminating zero. -/
def putText (maxLength : ℕ) : List UInt8 → ℕ → Mem UInt8 → ℕ×Mem UInt8
  | [],res,outBuf => (res+1,store outBuf res [0])
  | c::cs,res,outBuf =>
    let outBuf := store outBuf res [c]
    if res+1≥maxLength then (maxLength-1,store outBuf (maxLength-1) [0])
    else putText maxLength cs (res+1) outBuf

/-- The two digits of a number below 100. -/
def twoDigits (value : UInt8) : List UInt8 := [value/10+48,value%10+48]

/-- A time as hh:mm:ss dd/mm/yy. -/
def timeText (t : ErtcTime) : List UInt8 :=
  twoDigits t.hour++58::twoDigits t.min++58::twoDigits t.sec++32::twoDigits t.day++
    47::twoDigits t.month++47::twoDigits t.year

/-- get_archive_message_time: the result and the text. -/
def getArchiveMessageTime (time : UInt32) (outBuf : Mem UInt8) (maxLength : UInt16) :
    ℕ×Mem UInt8 :=
  let outBuf := store outBuf 0 (List.replicate maxLength.toNat 0)
  putText maxLength.toNat (timeText (decode time).time) 0 outBuf

/-! ## Words -/

/-- JD0 of the source. -/
theorem toNat_jd0 : (UInt32.ofInt jd0).toNat=2451911 := by decide

/-- A byte as an unsigned word. -/
theorem toUInt32_eq_ofInt (x : UInt8) : x.toUInt32=UInt32.ofInt x.toNat := by
  apply UInt32.toNat_inj.mp
  unfold UInt32.ofInt
  rw [UInt32.toNat_ofNat',UInt8.toNat_toUInt32]
  have hx := x.toNat_lt
  omega

/-- A signed value that a byte holds. -/
theorem toNat_ofInt_byte {x : ℤ} {n : ℕ} (hx : x=n) (h : n<256) : (UInt8.ofInt x).toNat=n := by
  subst hx
  unfold UInt8.ofInt
  rw [UInt8.toNat_ofNat']
  omega

/-- A signed value that a 16-bit word holds. -/
theorem toNat_ofInt_half {x : ℤ} {n : ℕ} (hx : x=n) (h : n<65536) : (UInt16.ofInt x).toNat=n := by
  subst hx
  unfold UInt16.ofInt
  rw [UInt16.toNat_ofNat']
  omega

/-- A truncated quotient of naturals, as an unsigned word. -/
theorem toNat_ofInt_tdiv {a k : ℕ} (h : a/k<2^32) :
    (UInt32.ofInt (Int.tdiv a k)).toNat=a/k := by
  have hdiv : Int.tdiv a k=((a/k : ℕ) : ℤ) := rfl
  rw [hdiv]
  generalize a/k=q at h
  unfold UInt32.ofInt
  rw [UInt32.toNat_ofNat']
  omega

/-- Days from the first of March of the year -4800 to the epoch. -/
abbrev epochDay : ℕ := 2483955

/-- Number of the day of a time. -/
def dayOf (value : UInt32) : ℕ := value.toNat/86400+epochDay

/-- The day of every value is between the first and the last one of 32 bits. -/
theorem dayOf_bounds (value : UInt32) : 2483955≤dayOf value ∧ dayOf value<2533666 := by
  have h := value.toNat_lt
  unfold dayOf epochDay
  omega

/-- Every 8-bit variable of the decoder takes the value assigned to it. -/
structure Decoding.NoBitLost (x : Decoding) : Prop where
  /-- b. -/
  b : x.b.toNat=x.wideB.toNat
  /-- d. -/
  d : x.d.toNat=x.wideD.toNat
  /-- m. -/
  m : x.m.toNat=x.wideM.toNat
  /-- date. -/
  date : x.time.day.toNat=x.wideDate.toNat
  /-- month. -/
  month : (x.time.month.toNat : ℤ)=x.wideMonth
  /-- year. -/
  year : (x.time.year.toNat : ℤ)=x.wideYear
  /-- hour. -/
  hour : x.time.hour.toNat=x.wideHour.toNat
  /-- min. -/
  min : x.time.min.toNat=x.wideMin.toNat
  /-- sec. -/
  sec : x.time.sec.toNat=x.wideSec.toNat

/-- A day count less a truncated quotient. -/
theorem toNat_sub_tdiv {ace : UInt32} {a k n : ℕ} (h : ace.toNat=n) (hk : a/k≤n) :
    (ace-UInt32.ofInt (Int.tdiv a k)).toNat=n-a/k := by
  have hlt := ace.toNat_lt
  have hquot := toNat_ofInt_tdiv (a:=a) (k:=k) (by omega)
  have hle : UInt32.ofInt (Int.tdiv a k)≤ace := by
    rw [UInt32.le_iff_toNat_le,hquot,h]
    exact hk
  rw [UInt32.toNat_sub_of_le _ _ hle,hquot,h]

/-- A word below 256 in a byte. -/
theorem toNat_toUInt8_of_lt {x : UInt32} {n : ℕ} (hx : x.toNat=n) (h : n<256) :
    x.toUInt8.toNat=n := by
  rw [UInt32.toNat_toUInt8,hx]
  exact Nat.mod_eq_of_lt h

/-- A linear step and its division stay below 2^32. -/
theorem toNat_step {x k a c : UInt32} {n : ℕ} (hx : x.toNat=n)
    (h : k.toNat*n+a.toNat<2^32) : ((k*x+a)/c).toNat=(k.toNat*n+a.toNat)/c.toNat := by
  rw [UInt32.toNat_div,UInt32.toNat_add,UInt32.toNat_mul,hx]
  congr 1
  omega

/-! ## Times of the clock -/

/-- The date of a time. -/
def calendarDate (t : ErtcTime) : Date := ⟨t.year.toNat+2000,t.month.toNat,t.day.toNat⟩

/-- The date with its year counted from -4800. -/
def shifted (t : ErtcTime) : Date := ⟨t.year.toNat+6800,t.month.toNat,t.day.toNat⟩

/-- Seconds since midnight. -/
def secondOfDay (t : ErtcTime) : ℕ := t.hour.toNat*3600+t.min.toNat*60+t.sec.toNat

/-- A time that the clock can hold: an existing date of the years 2000 to 2099
and an existing time of day. -/
structure ValidTime (t : ErtcTime) : Prop where
  /-- Two digits are kept of the year. -/
  year : t.year.toNat≤99
  /-- The date exists. -/
  date : (calendarDate t).Valid
  /-- Hour. -/
  hour : t.hour.toNat≤23
  /-- Minute. -/
  min : t.min.toNat≤59
  /-- Second. -/
  sec : t.sec.toNat≤59

/-- Calendar order of times. -/
def Earlier (t t' : ErtcTime) : Prop :=
  (calendarDate t).Before (calendarDate t') ∨
    calendarDate t=calendarDate t' ∧ secondOfDay t<secondOfDay t'

/-- 4800 years are twelve whole cycles of the calendar. -/
theorem shifted_valid_iff (t : ErtcTime) : (shifted t).Valid ↔ (calendarDate t).Valid := by
  have hlen : monthLength (t.year.toNat+6800) t.month.toNat=
      monthLength (t.year.toNat+2000) t.month.toNat :=
    monthLength_add (t.year.toNat+2000) t.month.toNat 12
  constructor
  · intro h
    refine ⟨h.month_pos,h.month_le,h.day_pos,?_⟩
    have hday : t.day.toNat ≤ monthLength (t.year.toNat+6800) t.month.toNat := h.day_le
    rwa [hlen] at hday
  · intro h
    refine ⟨h.month_pos,h.month_le,h.day_pos,?_⟩
    have hday : t.day.toNat ≤ monthLength (t.year.toNat+2000) t.month.toNat := h.day_le
    rwa [←hlen] at hday

/-- A time in order has a date that is counted. -/
theorem shifted_counted (t : ErtcTime) : (shifted t).Counted := by
  unfold shifted Date.Counted
  dsimp only
  omega

/-- The shift of the epoch keeps the order of the dates. -/
theorem shifted_before_iff (t t' : ErtcTime) :
    (shifted t).Before (shifted t') ↔ (calendarDate t).Before (calendarDate t') := by
  unfold shifted calendarDate Date.Before
  dsimp only
  omega

/-- A valid time of day is less than a day. -/
theorem secondOfDay_lt {t : ErtcTime} (h : ValidTime t) : secondOfDay t<86400 := by
  have hh := h.hour
  have hm := h.min
  have hs := h.sec
  unfold secondOfDay
  omega

/-- The day number of the formula with its year that starts in March. -/
theorem dayNumber_shifted {t : ErtcTime} {a : ℕ} (h1 : 1≤t.month.toNat) (h12 : t.month.toNat≤12)
    (ha : a=if t.month.toNat≤2 then 1 else 0) :
    dayNumber (shifted t)=365*(t.year.toNat+6800-a)+leapDays (t.year.toNat+6800-a)+
      (153*(t.month.toNat+12*a-3)+2)/5+(t.day.toNat-1) := by
  have hn : monthNumber (t.year.toNat+6800) t.month.toNat=
      12*(t.year.toNat+6800-a)+(t.month.toNat+12*a-3) := by
    unfold monthNumber
    split_ifs at ha <;> omega
  have hr : t.month.toNat+12*a-3<12 := by
    split_ifs at ha <;> omega
  unfold dayNumber shifted
  rw [hn,monthStart_eq hr]

/-- The time is the number of seconds since the epoch, modulo 2^32. -/
theorem timeToUint32_eq {t : ErtcTime} (h1 : 1≤t.month.toNat) (h12 : t.month.toNat≤12)
    (hday : 1≤t.day.toNat) : timeToUint32 t=
      UInt32.ofInt (((dayNumber (shifted t) : ℤ)-epochDay)*86400+secondOfDay t) := by
  obtain ⟨a,ha⟩ : ∃ a,a=if t.month.toNat≤2 then 1 else 0 := ⟨_,rfl⟩
  have hyear := t.year.toNat_lt
  have haNat : (UInt8.ofInt (Int.tdiv (14-t.month.toNat) 12)).toNat=a := by
    refine toNat_ofInt_byte ?_ (by split_ifs at ha <;> omega)
    rw [Int.tdiv_eq_ediv_of_nonneg (by omega)]
    split_ifs at ha <;> omega
  have hy : (UInt16.ofInt (t.year.toNat+2000+4800-a)).toNat=t.year.toNat+6800-a :=
    toNat_ofInt_half (by split_ifs at ha <;> omega) (by omega)
  have hm : (UInt8.ofInt (t.month.toNat+12*a-3)).toNat=t.month.toNat+12*a-3 :=
    toNat_ofInt_byte (by split_ifs at ha <;> omega) (by split_ifs at ha <;> omega)
  have h86400 : (86400 : UInt32)=UInt32.ofInt 86400 := by decide
  have h32045 : (32045 : UInt32)=UInt32.ofInt 32045 := by decide
  rw [dayNumber_shifted h1 h12 ha]
  unfold timeToUint32 secondOfDay
  dsimp only
  rw [haNat,hy,hm,toUInt32_eq_ofInt,toUInt32_eq_ofInt,h86400,h32045]
  generalize t.year.toNat+6800-a=y
  generalize t.month.toNat+12*a-3=m
  have hdm : Int.tdiv (153*m+2) 5=((153*m+2)/5 : ℕ) := rfl
  have hd4 : Int.tdiv y 4=(y/4 : ℕ) := rfl
  have hd100 : Int.tdiv (-y) 100=-(y/100 : ℕ) := by rw [Int.neg_tdiv]; rfl
  have hd400 : Int.tdiv y 400=(y/400 : ℕ) := rfl
  rw [hdm,hd4,hd100,hd400]
  have hle : y/100≤y/4 := by omega
  simp only [UInt32.sub_eq_add_neg,←UInt32.ofInt_neg,←UInt32.ofInt_add,←UInt32.ofInt_mul]
  congr 1
  unfold leapDays jd0 epochDay
  push_cast
  omega

/-! ## The decoder names days -/

section Decode

variable (value : UInt32)

/-- Every value lies in the century of 2000 or in the one of 2100. -/
theorem century_bounds : 68 ≤ century (dayOf value) ∧ century (dayOf value)≤69 := by
  obtain ⟨hlow,hhigh⟩ := dayOf_bounds value
  unfold century
  omega

/-- A century has 36525 days at most. -/
theorem dayOfCentury_lt (n : ℕ) : dayOfCentury n<36525 := by
  have hc := (century_split n).2
  split_ifs at hc <;> omega

/-- A year has 366 days at most. -/
theorem dayOfYear_lt (n : ℕ) : dayOfYear n<366 := by
  have he := (year_split n).2
  split_ifs at he <;> omega

/-- The day number of the decoder. -/
theorem decode_ace : (decode value).ace.toNat=dayOf value := by
  have hv := value.toNat_lt
  have h86400 : (86400 : UInt32).toNat=86400 := rfl
  have h32044 : (32044 : UInt32).toNat=32044 := rfl
  unfold decode
  dsimp only
  rw [UInt32.toNat_add,UInt32.toNat_add,toNat_jd0,UInt32.toNat_div,h86400,h32044]
  unfold dayOf epochDay
  omega

/-- The century before it is cut to 16 bits. -/
theorem decode_wideB : (decode value).wideB.toNat=century (dayOf value) := by
  have hn := (dayOf_bounds value).2
  exact toNat_step (decode_ace value) (by change 4*_+3<_; omega)

/-- And behind the cut. -/
theorem decode_b : (decode value).b.toNat=century (dayOf value) := by
  have hle := (century_bounds value).2
  exact toNat_toUInt8_of_lt (decode_wideB value) (by omega)

/-- The day in its century. -/
theorem decode_aceOfCentury :
    (decode value).aceOfCentury.toNat=dayOfCentury (dayOf value) := by
  have hlow := (dayOf_bounds value).1
  have hsub := toNat_sub_tdiv (a:=146097*century (dayOf value)) (k:=4) (decode_ace value)
    (by unfold century; omega)
  rw [←decode_b] at hsub
  rw [dayOfCentury,←decode_b]
  exact hsub

/-- The year in the century before it is cut. -/
theorem decode_wideD : (decode value).wideD.toNat=yearOfCentury (dayOf value) := by
  have hc := dayOfCentury_lt (dayOf value)
  exact toNat_step (decode_aceOfCentury value) (by change 4*_+3<_; omega)

/-- And behind the cut. -/
theorem decode_d : (decode value).d.toNat=yearOfCentury (dayOf value) := by
  have hle := yearOfCentury_le (dayOf value)
  exact toNat_toUInt8_of_lt (decode_wideD value) (by omega)

/-- The day in its year. -/
theorem decode_aceOfYear : (decode value).aceOfYear.toNat=dayOfYear (dayOf value) := by
  have hsplit := (year_split (dayOf value)).1
  have hsub := toNat_sub_tdiv (a:=1461*yearOfCentury (dayOf value)) (k:=4)
    (decode_aceOfCentury value) (by rw [year_days]; omega)
  rw [←decode_d] at hsub
  rw [dayOfYear,←decode_d]
  exact hsub

/-- The month before it is cut. -/
theorem decode_wideM : (decode value).wideM.toNat=monthOfYear (dayOf value) := by
  have he := dayOfYear_lt (dayOf value)
  exact toNat_step (decode_aceOfYear value) (by change 5*_+2<_; omega)

/-- And behind the cut. -/
theorem decode_m : (decode value).m.toNat=monthOfYear (dayOf value) := by
  have hle := (month_split (dayOf value)).1
  exact toNat_toUInt8_of_lt (decode_wideM value) (by omega)

/-- The day of the month before it is cut. -/
theorem decode_wideDate : (decode value).wideDate.toNat=(civil (dayOf value)).day := by
  obtain ⟨-,hlow,-⟩ := month_split (dayOf value)
  have he := dayOfYear_lt (dayOf value)
  have hsub := toNat_sub_tdiv (a:=153*monthOfYear (dayOf value)+2) (k:=5)
    (decode_aceOfYear value) hlow
  have h1 : (1 : UInt32).toNat=1 := rfl
  rw [←decode_m] at hsub
  have hdate : (decode value).wideDate.toNat=
      (dayOfYear (dayOf value)-(153*(decode value).m.toNat+2)/5+1)%2^32 := by
    rw [←hsub,←h1]
    exact UInt32.toNat_add _ _
  rw [hdate,decode_m]
  unfold civil
  dsimp only
  omega

/-- The month of the date before it is cut. -/
theorem decode_wideMonth : (decode value).wideMonth=(civil (dayOf value)).month := by
  obtain ⟨hle,-⟩ := month_split (dayOf value)
  have hmonth : (decode value).wideMonth=
      (decode value).m.toNat+3-12*Int.tdiv (decode value).m.toNat 10 := rfl
  have hdiv : Int.tdiv (decode value).m.toNat 10=((decode value).m.toNat/10 : ℕ) := rfl
  rw [hmonth,hdiv,decode_m]
  unfold civil
  dsimp only
  omega

/-- The year of the date before it is cut. -/
theorem decode_wideYear : (decode value).wideYear+6800=(civil (dayOf value)).year := by
  have hyear : (decode value).wideYear=100*(decode value).b.toNat+(decode value).d.toNat-4800+
      Int.tdiv (decode value).m.toNat 10-2000 := rfl
  have hdiv : Int.tdiv (decode value).m.toNat 10=((decode value).m.toNat/10 : ℕ) := rfl
  rw [hyear,hdiv,decode_b,decode_d,decode_m]
  unfold civil
  dsimp only
  push_cast
  omega

/-- The 8-bit variables are wide enough for every time. -/
theorem noBitLost : (decode value).NoBitLost := by
  have hdate := decode_wideDate value
  have hmonth := decode_wideMonth value
  have hyear := decode_wideYear value
  obtain ⟨hlow,hhigh⟩ := century_bounds value
  have hd := yearOfCentury_le (dayOf value)
  have hm := (month_split (dayOf value)).1
  have hvalid := civil_valid (dayOf value)
  have hday := hvalid.day_le.trans (monthLength_le _ _)
  have hmonth12 := hvalid.month_le
  have hcivil : (civil (dayOf value)).year=100*century (dayOf value)+
      yearOfCentury (dayOf value)+monthOfYear (dayOf value)/10 := rfl
  have hwideYear : (decode value).wideYear=((civil (dayOf value)).year-6800 : ℕ) := by omega
  refine ⟨?_,?_,?_,?_,?_,?_,?_,?_,?_⟩
  · rw [decode_b,decode_wideB]
  · rw [decode_d,decode_wideD]
  · rw [decode_m,decode_wideM]
  · exact toNat_toUInt8_of_lt rfl (by omega)
  · rw [hmonth]
    exact congrArg Nat.cast (toNat_ofInt_byte hmonth (by omega))
  · rw [hwideYear]
    exact congrArg Nat.cast (toNat_ofInt_byte hwideYear (by omega))
  · refine toNat_toUInt8_of_lt rfl ?_
    have hh : (decode value).wideHour.toNat=value.toNat/3600%24 := rfl
    omega
  · refine toNat_toUInt8_of_lt rfl ?_
    have hh : (decode value).wideMin.toNat=value.toNat/60%60 := rfl
    omega
  · refine toNat_toUInt8_of_lt rfl ?_
    have hh : (decode value).wideSec.toNat=value.toNat%60 := rfl
    omega

/-- The decoded date is the one of the day's number. -/
theorem shifted_timeFromUint32 : shifted (timeFromUint32 value)=civil (dayOf value) := by
  have hlost := noBitLost value
  have hy : (timeFromUint32 value).year.toNat+6800=(civil (dayOf value)).year := by
    have hyear := decode_wideYear value
    rw [←hlost.year] at hyear
    exact_mod_cast hyear
  have hm : (timeFromUint32 value).month.toNat=(civil (dayOf value)).month := by
    have hmonth := decode_wideMonth value
    rw [←hlost.month] at hmonth
    exact_mod_cast hmonth
  have hd : (timeFromUint32 value).day.toNat=(civil (dayOf value)).day :=
    hlost.date.trans (decode_wideDate value)
  unfold shifted
  rw [hy,hm,hd]

/-- The decoded time of day. -/
theorem secondOfDay_timeFromUint32 :
    (timeFromUint32 value).hour.toNat=value.toNat/3600%24 ∧
      (timeFromUint32 value).min.toNat=value.toNat/60%60 ∧
      (timeFromUint32 value).sec.toNat=value.toNat%60 := by
  have hlost := noBitLost value
  exact ⟨hlost.hour,hlost.min,hlost.sec⟩

/-- Every decoded date exists. -/
theorem calendarDate_timeFromUint32_valid : (calendarDate (timeFromUint32 value)).Valid := by
  rw [←shifted_valid_iff,shifted_timeFromUint32]
  exact civil_valid _

/-- Encoding a decoded time gives the time back. -/
theorem timeToUint32_timeFromUint32 : timeToUint32 (timeFromUint32 value)=value := by
  have hvalid := calendarDate_timeFromUint32_valid value
  obtain ⟨hh,hm,hs⟩ := secondOfDay_timeFromUint32 value
  have hlt := value.toNat_lt
  rw [timeToUint32_eq hvalid.month_pos hvalid.month_le hvalid.day_pos,shifted_timeFromUint32,
    dayNumber_civil]
  have hsum : ((dayOf value : ℤ)-epochDay)*86400+secondOfDay (timeFromUint32 value)=
      value.toNat := by
    unfold secondOfDay dayOf
    rw [hh,hm,hs]
    push_cast
    omega
  rw [hsum]
  apply UInt32.toNat_inj.mp
  unfold UInt32.ofInt
  rw [UInt32.toNat_ofNat']
  omega

end Decode

end BT816Display.TimeStamp
