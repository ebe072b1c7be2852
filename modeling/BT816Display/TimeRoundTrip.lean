import BT816Display.TimeStamp

/-!
# Times that survive the encoding

The 32-bit time and the calendar name the same seconds from the first of
January 2001 to the end of 2099. A date of the year 2000 lies before the
epoch, and the wrapped time is decoded to another time of day.
-/

namespace BT816Display.TimeRoundTrip

open ByteMemory Clock Gregorian TimeStamp

/-! ## Numbers of the days -/

/-- The first of January of a year. -/
def newYear (year : ℕ) : Date := ⟨year,1,1⟩

/-- The first of January is a date. -/
theorem newYear_valid (year : ℕ) : (newYear year).Valid where
  month_pos := le_rfl
  month_le := (by decide : 1≤12)
  day_pos := le_rfl
  day_le := (by decide : 1≤28).trans (monthLength_ge _ _)

/-- From year 1 on its day has a number. -/
theorem newYear_counted {year : ℕ} (h : 1≤year) : (newYear year).Counted := by
  unfold Date.Counted newYear
  dsimp only
  omega

/-- The first days of 2000, 2001 and 2100, counted from -4800. -/
theorem dayNumber_newYear :
    dayNumber (newYear 6800)=2483589 ∧ dayNumber (newYear 6801)=2483955 ∧
      dayNumber (newYear 6900)=2520114 := ⟨rfl,rfl,rfl⟩

section Valid

variable {t : ErtcTime}

/-- A valid time has a valid date. -/
theorem shifted_valid (h : ValidTime t) : (shifted t).Valid := (shifted_valid_iff t).mpr h.date

/-- A date is at or behind the first day of its year. -/
theorem newYear_le (h : ValidTime t) {year : ℕ} (hy : year≤t.year.toNat) :
    dayNumber (newYear (year+6800))≤dayNumber (shifted t) := by
  have hmonth := h.date.month_pos
  have hday := h.date.day_pos
  refine dayNumber_le_of_not_before (newYear_valid _) (newYear_counted (by omega))
    (shifted_valid h) ?_
  unfold Date.Before shifted newYear
  dsimp only [calendarDate] at hmonth hday ⊢
  omega

/-- A date is before the first day of a later year. -/
theorem lt_newYear (h : ValidTime t) (year : ℕ) (hy : t.year.toNat<year) :
    dayNumber (shifted t)<dayNumber (newYear (year+6800)) := by
  refine dayNumber_lt_of_before (shifted_valid h) (shifted_counted t) (newYear_valid _) ?_
  unfold Date.Before shifted newYear
  dsimp only
  omega

/-- Days of the years 2001 to 2099. -/
theorem dayNumber_bounds (h : ValidTime t) (h1 : 1≤t.year.toNat) :
    2483955≤dayNumber (shifted t) ∧ dayNumber (shifted t)<2520114 := by
  obtain ⟨-,hlow,hhigh⟩ := dayNumber_newYear
  have hyear := h.year
  exact ⟨hlow ▸ newYear_le h h1,hhigh ▸ lt_newYear h 100 (by omega)⟩

/-- Days of the year 2000. -/
theorem dayNumber_bounds_2000 (h : ValidTime t) (h0 : t.year.toNat=0) :
    2483589≤dayNumber (shifted t) ∧ dayNumber (shifted t)<2483955 := by
  obtain ⟨hlow,hhigh,-⟩ := dayNumber_newYear
  exact ⟨hlow ▸ newYear_le h (Nat.zero_le _),hhigh ▸ lt_newYear h 1 (by omega)⟩

/-- The time kept is the number of seconds since the epoch, modulo 2^32. -/
theorem toNat_timeToUint32_mod (h : ValidTime t) : ((timeToUint32 t).toNat : ℤ)=
    (((dayNumber (shifted t) : ℤ)-epochDay)*86400+secondOfDay t)%2^32 := by
  rw [timeToUint32_eq h.date.month_pos h.date.month_le h.date.day_pos]
  unfold UInt32.ofInt
  rw [UInt32.toNat_ofNat']
  omega

/-- From 2001 on the encoding does not wrap. -/
theorem toNat_timeToUint32 (h : ValidTime t) (h1 : 1≤t.year.toNat) :
    (timeToUint32 t).toNat=(dayNumber (shifted t)-epochDay)*86400+secondOfDay t := by
  obtain ⟨hlow,hhigh⟩ := dayNumber_bounds h h1
  have hsec := secondOfDay_lt h
  have hvalue := toNat_timeToUint32_mod h
  unfold epochDay at hvalue ⊢
  omega

/-- In 2000 it wraps once. -/
theorem toNat_timeToUint32_2000 (h : ValidTime t) (h0 : t.year.toNat=0) :
    (timeToUint32 t).toNat+(epochDay-dayNumber (shifted t))*86400=2^32+secondOfDay t := by
  obtain ⟨hlow,hhigh⟩ := dayNumber_bounds_2000 h h0
  have hsec := secondOfDay_lt h
  have hvalue := toNat_timeToUint32_mod h
  unfold epochDay at hvalue ⊢
  omega

/-- Decoding an encoded time of the years 2001 to 2099 gives it back. -/
theorem timeFromUint32_timeToUint32 (h : ValidTime t) (h1 : 1≤t.year.toNat) :
    timeFromUint32 (timeToUint32 t)=t := by
  obtain ⟨hlow,hhigh⟩ := dayNumber_bounds h h1
  have hsec := secondOfDay_lt h
  have hvalue := toNat_timeToUint32 h h1
  have hday : dayOf (timeToUint32 t)=dayNumber (shifted t) := by
    unfold dayOf
    rw [hvalue]
    unfold epochDay
    omega
  have hdate := shifted_timeFromUint32 (timeToUint32 t)
  rw [hday,civil_dayNumber (shifted_valid h) (shifted_counted t)] at hdate
  obtain ⟨hh,hm,hs⟩ := secondOfDay_timeFromUint32 (timeToUint32 t)
  unfold shifted at hdate
  rw [Date.mk.injEq] at hdate
  obtain ⟨hy,hmonth,hd⟩ := hdate
  rw [hvalue] at hh hm hs
  have h24 := h.hour
  have h60 := h.min
  have h60' := h.sec
  unfold secondOfDay at hh hm hs
  generalize timeFromUint32 (timeToUint32 t)=t' at *
  obtain ⟨y,mo,d,hr,mi,se⟩ := t
  obtain ⟨y',mo',d',hr',mi',se'⟩ := t'
  dsimp only at *
  have e1 : y'=y := UInt8.toNat_inj.mp (by omega)
  have e2 : mo'=mo := UInt8.toNat_inj.mp (by omega)
  have e3 : d'=d := UInt8.toNat_inj.mp (by omega)
  have e4 : hr'=hr := UInt8.toNat_inj.mp (by omega)
  have e5 : mi'=mi := UInt8.toNat_inj.mp (by omega)
  have e6 : se'=se := UInt8.toNat_inj.mp (by omega)
  rw [e1,e2,e3,e4,e5,e6]

/-- The time decoded from an encoded one of the year 2000 is another time of day. -/
theorem timeFromUint32_2000 (h : ValidTime t) (h0 : t.year.toNat=0) :
    timeFromUint32 (timeToUint32 t)≠t := by
  obtain ⟨hlow,hhigh⟩ := dayNumber_bounds_2000 h h0
  have hsec := secondOfDay_lt h
  have hvalue := toNat_timeToUint32_2000 h h0
  obtain ⟨hh,hm,hs⟩ := secondOfDay_timeFromUint32 (timeToUint32 t)
  intro he
  rw [he] at hh hm hs
  have hday : secondOfDay t=(timeToUint32 t).toNat%86400 := by
    unfold secondOfDay
    rw [hh,hm,hs]
    omega
  -- 2^32 is no whole number of days
  unfold epochDay at hvalue
  omega

end Valid

/-! ## The text of a record's time -/

/-- A text that fits is written with its zero behind it. -/
theorem putText_fits {maxLength : ℕ} (text : List UInt8) {res : ℕ} (outBuf : Mem UInt8)
    (h : res+text.length < maxLength) : putText maxLength text res outBuf=
      (res+text.length+1,store outBuf res (text++[0])) := by
  induction text generalizing res outBuf with
  | nil => rfl
  | cons c text ih =>
    rw [List.length_cons] at h
    rw [putText,if_neg (by omega),ih _ (by omega),List.length_cons]
    refine Prod.ext (by dsimp only; omega) ?_
    exact store_store_append outBuf res [c] (text++[0])

/-- The text of a time has seventeen characters. -/
theorem timeText_length (t : ErtcTime) : (timeText t).length=17 := rfl

/-- A buffer of 18 bytes holds the text of the decoded time. -/
theorem getArchiveMessageTime_text (time : UInt32) (outBuf : Mem UInt8) {maxLength : UInt16}
    (h : 18 ≤ maxLength.toNat) : load (getArchiveMessageTime time outBuf maxLength).2 0 18=
      timeText (timeFromUint32 time)++[0] := by
  unfold getArchiveMessageTime
  dsimp only
  rw [putText_fits _ _ (by rw [timeText_length]; omega)]
  exact load_store_self _ 0 (timeText (timeFromUint32 time)++[0])

/-- Two digits determine a number. -/
theorem eq_of_digits {value value' : UInt8} (htens : value/10+48=value'/10+48)
    (hones : value%10+48=value'%10+48) : value=value' := by
  have h10 : (10 : UInt8).toNat=10 := rfl
  have htens' := congrArg UInt8.toNat (UInt8.add_left_inj 48 |>.mp htens)
  have hones' := congrArg UInt8.toNat (UInt8.add_left_inj 48 |>.mp hones)
  rw [UInt8.toNat_div,UInt8.toNat_div,h10] at htens'
  rw [UInt8.toNat_mod,UInt8.toNat_mod,h10] at hones'
  exact UInt8.toNat_inj.mp (by omega)

/-- The text determines the time. -/
theorem timeText_inj {t t' : ErtcTime} (h : timeText t=timeText t') : t=t' := by
  unfold timeText twoDigits at h
  simp only [List.cons_append,List.nil_append,List.cons.injEq] at h
  obtain ⟨hh,hh',-,hm,hm',-,hs,hs',-,hd,hd',-,hmo,hmo',-,hy,hy',-⟩ := h
  obtain ⟨y,mo,d,hr,mi,se⟩ := t
  obtain ⟨y',mo',d',hr',mi',se'⟩ := t'
  rw [ErtcTime.mk.injEq]
  exact ⟨eq_of_digits hy hy',eq_of_digits hmo hmo',eq_of_digits hd hd',eq_of_digits hh hh',
    eq_of_digits hm hm',eq_of_digits hs hs'⟩

/-- For every time the clock can hold, the text of the archive shows that time
exactly when its year is not 2000. -/
theorem message_time_iff {t : ErtcTime} (h : ValidTime t) (outBuf : Mem UInt8)
    {maxLength : UInt16} (hmax : 18 ≤ maxLength.toNat) :
    load (getArchiveMessageTime (timeToUint32 t) outBuf maxLength).2 0 18=timeText t++[0] ↔
      t.year≠0 := by
  rw [getArchiveMessageTime_text _ _ hmax]
  constructor
  · intro htext hyear
    have ht := timeText_inj (List.append_cancel_right htext)
    exact timeFromUint32_2000 h (congrArg UInt8.toNat hyear) ht
  · intro hyear
    have h1 : 1≤t.year.toNat := by
      by_contra h0
      exact hyear (UInt8.toNat_inj.mp (by change _=0; omega))
    rw [timeFromUint32_timeToUint32 h h1]

/-- Noon of the last leap day before 2099. -/
def leapNoon : ErtcTime := ⟨96,2,29,12,0,0⟩

/-- Noon on the 29th of February is a valid time. -/
theorem leapNoon_valid : ValidTime leapNoon :=
  ⟨by decide,⟨by decide,by decide,by decide,by decide⟩,by decide,by decide,by decide⟩

/-- Its text is read back. -/
theorem leapNoon_text : load (getArchiveMessageTime (timeToUint32 leapNoon)
    (fun _ => 0) 65).2 0 18=timeText leapNoon++[0] :=
  (message_time_iff leapNoon_valid _ (by decide)).mpr (by decide)

/-- The first midnight of 2000. -/
def midnight2000 : ErtcTime := ⟨0,1,1,0,0,0⟩

/-- The first midnight of 2000 is a valid time. -/
theorem midnight2000_valid : ValidTime midnight2000 :=
  ⟨by decide,⟨by decide,by decide,by decide,by decide⟩,by decide,by decide,by decide⟩

/-- The first midnight of 2000 is shown as 06:28:16 of another day. -/
theorem midnight2000_lost : ¬∀ (t : ErtcTime) (outBuf : Mem UInt8) (maxLength : UInt16),
    ValidTime t → 18 ≤ maxLength.toNat →
      load (getArchiveMessageTime (timeToUint32 t) outBuf maxLength).2 0 18=timeText t++[0] := by
  intro h
  have htext := h midnight2000 (fun _ => 0) 65 midnight2000_valid (by decide)
  rw [getArchiveMessageTime_text _ _ (by decide)] at htext
  have ht := timeText_inj (List.append_cancel_right htext)
  exact timeFromUint32_2000 midnight2000_valid rfl ht

/-! ## Every second from 2001 to 2099 -/

/-- The last second of 2099. -/
def lastSecond : UInt32 := 3124137599

example : timeToUint32 ⟨99,12,31,23,59,59⟩=lastSecond := by decide

/-- A decoded time up to the end of 2099 is one of the clock. -/
theorem timeFromUint32_valid {value : UInt32} (h : value ≤ lastSecond) :
    ValidTime (timeFromUint32 value) ∧ 1≤(timeFromUint32 value).year.toNat := by
  have hle : value.toNat≤3124137599 := h
  have hdate := shifted_timeFromUint32 value
  obtain ⟨hh,hm,hs⟩ := secondOfDay_timeFromUint32 value
  obtain ⟨-,hfirst,hlast⟩ := dayNumber_newYear
  have hvalid := calendarDate_timeFromUint32_valid value
  have hshifted := (shifted_valid_iff _).mpr hvalid
  have hnumber : dayNumber (shifted (timeFromUint32 value))=value.toNat/86400+2483955 := by
    rw [hdate,dayNumber_civil]
    rfl
  have hhigh : (timeFromUint32 value).year.toNat≤99 := by
    by_contra hyear
    have hafter := dayNumber_le_of_not_before (newYear_valid 6900)
      (newYear_counted (by omega)) hshifted (by
        unfold Date.Before shifted newYear
        have hmonth := hvalid.month_pos
        have hday := hvalid.day_pos
        dsimp only [calendarDate] at hmonth hday ⊢
        omega)
    omega
  have hlow : 1≤(timeFromUint32 value).year.toNat := by
    by_contra hyear
    have hbefore := dayNumber_lt_of_before hshifted (shifted_counted _) (newYear_valid 6801) (by
        unfold Date.Before shifted newYear
        dsimp only
        omega)
    omega
  exact ⟨⟨hhigh,hvalid,by omega,by omega,by omega⟩,hlow⟩

/-- The encoding of the years 2001 to 2099 keeps the calendar order. -/
theorem timeToUint32_lt_iff {t t' : ErtcTime} (h : ValidTime t) (h' : ValidTime t')
    (h1 : 1≤t.year.toNat) (h1' : 1≤t'.year.toNat) :
    timeToUint32 t<timeToUint32 t' ↔ Earlier t t' := by
  have hsec := secondOfDay_lt h
  have hsec' := secondOfDay_lt h'
  have hlow := (dayNumber_bounds h h1).1
  have hlow' := (dayNumber_bounds h' h1').1
  rw [UInt32.lt_iff_toNat_lt,toNat_timeToUint32 h h1,toNat_timeToUint32 h' h1']
  unfold epochDay
  have hlt : (shifted t).Before (shifted t') → dayNumber (shifted t)<dayNumber (shifted t') :=
    dayNumber_lt_of_before (shifted_valid h) (shifted_counted t) (shifted_valid h')
  have hgt : (shifted t').Before (shifted t) → dayNumber (shifted t')<dayNumber (shifted t) :=
    dayNumber_lt_of_before (shifted_valid h') (shifted_counted t') (shifted_valid h)
  rcases (shifted t).trichotomy (shifted t') with hb|he|hb
  · have hnum := hlt hb
    exact iff_of_true (by omega) (Or.inl ((shifted_before_iff t t').mp hb))
  · have hdate : calendarDate t=calendarDate t' := by
      unfold shifted at he
      unfold calendarDate
      rw [Date.mk.injEq] at he ⊢
      exact ⟨by omega,he.2⟩
    have hnot : ¬(calendarDate t).Before (calendarDate t') := by
      rw [hdate]
      unfold Date.Before
      omega
    rw [he]
    unfold Earlier
    exact ⟨fun hs => Or.inr ⟨hdate,by omega⟩,fun hs => by have := (hs.resolve_left hnot).2; omega⟩
  · have hnum := hgt hb
    refine iff_of_false (by omega) ?_
    rintro (hbefore|⟨hdate,-⟩)
    · have hnum' := hlt ((shifted_before_iff t t').mpr hbefore)
      omega
    · have hafter := (shifted_before_iff t' t).mp hb
      rw [hdate] at hafter
      unfold Date.Before at hafter
      omega

end BT816Display.TimeRoundTrip
