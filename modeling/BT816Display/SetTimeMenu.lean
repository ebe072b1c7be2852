import BT816Display.DigitEditor
import BT816Display.Lib.Runs
import BT816Display.TimeStamp

/-!
# The clock editor of set_time_menu.c

Every digit sets the whole clock: the field under edit takes the new value
and the other fields are those the clock shows. Each field is held to its own
limits only, so a day can be set that its month does not have.
-/

namespace BT816Display.SetTimeMenu

open Clock DigitEditor Gregorian Keys Runs TimeStamp
open Menu (MenuList)
open TrendEdit (paramCnt putDigit)

/-- The enumeration that names the fields of the clock. -/
inductive Link where
  /-- HOUR_LINK. -/
  | hour
  /-- MIN_LINK. -/
  | min
  /-- SEC_LINK. -/
  | sec
  /-- DATE_LINK. -/
  | date
  /-- MONTH_LINK. -/
  | month
  /-- YEAR_LINK. -/
  | year
  deriving DecidableEq

/-- The field of a time. -/
def Link.get (t : ErtcTime) : Link → UInt8
  | .hour => t.hour
  | .min => t.min
  | .sec => t.sec
  | .date => t.day
  | .month => t.month
  | .year => t.year

/-- A time with one field changed. -/
def Link.set (t : ErtcTime) (value : UInt8) : Link → ErtcTime
  | .hour => {t with hour := value}
  | .min => {t with min := value}
  | .sec => {t with sec := value}
  | .date => {t with day := value}
  | .month => {t with month := value}
  | .year => {t with year := value}

/-- max_val. -/
def Link.maxVal : Link → UInt16
  | .hour => 23
  | .min | .sec => 59
  | .date => 31
  | .month => 12
  | .year => 99

/-- min_val. -/
def Link.minVal : Link → UInt16
  | .hour | .min | .sec | .year => 0
  | .date | .month => 1

/-- The order of the fields on the screen. -/
def linkOf : ℕ → Link
  | 0 => .hour
  | 1 => .min
  | 2 => .sec
  | 3 => .date
  | 4 => .month
  | _ => .year

/-- A call that sets the clock. -/
inductive ClockSet where
  /-- ertc_date_set. -/
  | date (year month day : UInt8)
  /-- ertc_time_set. -/
  | time (hour min sec : UInt8)
  deriving DecidableEq

/-- The clock after a call. -/
def ClockSet.apply (rtc : ErtcTime) : ClockSet → ErtcTime
  | .date year month day => {rtc with year := year,month := month,day := day}
  | .time hour min sec => {rtc with hour := hour,min := min,sec := sec}

/-- The date or time of a call exists. -/
def ClockSet.Exists : ClockSet → Prop
  | .date year month day => year.toNat≤99 ∧ Date.Valid ⟨year.toNat+2000,month.toNat,day.toNat⟩
  | .time hour min sec => hour.toNat≤23 ∧ min.toNat≤59 ∧ sec.toNat≤59

/-- The variables of the screen, the clock and the calls made so far. -/
structure TimeUi where
  /-- The running clock. -/
  rtc : ErtcTime
  /-- params and pos. -/
  fields : Fields Link
  /-- prev_key. -/
  prevKey : UInt16
  /-- current_menu. -/
  currentMenu : MenuList
  /-- Calls of ertc_date_set and ertc_time_set in order. -/
  sets : List ClockSet

/-- A field of the screen when it is opened. -/
def timeParam (devTime : ErtcTime) (i : ℕ) : Param Link where
  value := ((linkOf i).get devTime).toUInt16
  maxVal := (linkOf i).maxVal
  minVal := (linkOf i).minVal
  width := 2
  link := linkOf i
  editFlag := if i=0 then 1 else 0

/-- init_time_menu. -/
def initTimeMenu (s : TimeUi) : TimeUi := {s with fields := ⟨timeParam s.rtc,1⟩}

/-- The fields that are not under edit follow the clock. -/
def followClock (devTime : ErtcTime) (f : Fields Link) : Fields Link :=
  {f with params := fun i =>
    if i<paramCnt ∧ (f.params i).editFlag=0 then
      {f.params i with value := ((f.params i).link.get devTime).toUInt16}
    else f.params i}

/-- update_time_menu, without the drawing. -/
def updateTimeMenu (s : TimeUi) : TimeUi :=
  {s with fields := holdCursor (followClock s.rtc s.fields)}

/-- update_date_time_value. -/
def updateDateTimeValue (s : TimeUi) (curPar : ℕ) (num : UInt8) : TimeUi :=
  if curPar≥paramCnt then s
  else
    match newValue (s.fields.params curPar) s.fields.pos num with
    | none => s
    | some value =>
      let devTime := (s.fields.params curPar).link.set s.rtc value.toUInt8
      let dateSet := ClockSet.date devTime.year devTime.month devTime.day
      let timeSet := ClockSet.time devTime.hour devTime.min devTime.sec
      {s with
        rtc := timeSet.apply (dateSet.apply s.rtc)
        fields := posToRight (s.fields.setValue curPar value)
        sets := s.sets++[dateSet,timeSet]}

/-- The keys of set_time_menu. -/
def setTimeKey (s : TimeUi) (key : UInt16) : TimeUi :=
  if key=keyLeft ∨ key=keyEnter then {s with currentMenu := .config}
  else if key=keyRight then {s with fields := posToRight s.fields}
  else
    match digit key with
    | some num =>
      if s.prevKey≠key then updateDateTimeValue s (getCurParam s.fields) num else s
    | none => s

/-- set_time_menu. -/
def setTimeMenu (s : TimeUi) (key : UInt16) : TimeUi :=
  {setTimeKey (updateTimeMenu s) key with prevKey := kept key}

/-! ## Runs -/

/-- What happens to the screen and the clock. -/
inductive TimeEvent where
  /-- KEY_2 in config_menu. -/
  | enter
  /-- The screen is shown for a key. -/
  | key (key : UInt16)
  /-- The clock has come to another time. -/
  | elapse (now : {t : ErtcTime // ValidTime t})

/-- One event. -/
def timeStep (s : TimeUi) : TimeEvent → TimeUi
  | .enter =>
    if s.currentMenu=.config then {initTimeMenu s with currentMenu := .setTime} else s
  | .key key => if s.currentMenu=.setTime then setTimeMenu s key else s
  | .elapse now => {s with rtc := now}

/-- The configuration screen at some time. -/
def start (rtc : ErtcTime) : TimeUi where
  rtc := rtc
  fields := ⟨fun _ => ⟨0,0,0,0,.hour,0⟩,1⟩
  prevKey := 0
  currentMenu := .config
  sets := []

/-- Events in order. -/
def timeRun (rtc : ErtcTime) (events : List TimeEvent) : TimeUi :=
  events.foldl timeStep (start rtc)

/-! ## Dates that a digit sets -/

/-- The number that the two digits of a field spell after a digit. -/
def spelled (s : TimeUi) (num : UInt8) : ℕ :=
  let value := (s.fields.params (getCurParam s.fields)).value.toNat
  if s.fields.pos=1 then num.toNat*10+value%10 else value/10*10+num.toNat

/-- The date of a clock with a number in one of its fields, held to the limits
of the field, exists. -/
def DateFits (rtc : ErtcTime) (n : ℕ) : Link → Prop
  | .hour | .min | .sec => True
  | .date => min 31 (max 1 n) ≤ monthLength (rtc.year.toNat+2000) rtc.month.toNat
  | .month => rtc.day.toNat ≤ monthLength (rtc.year.toNat+2000) (min 12 (max 1 n))
  | .year => rtc.day.toNat ≤ monthLength (n+2000) rtc.month.toNat

/-- The number that a digit spells fits the date of the clock. -/
def DigitFits (s : TimeUi) (num : UInt8) : Prop :=
  DateFits s.rtc (spelled s num) (s.fields.params (getCurParam s.fields)).link

/-- A digit typed in the screen fits. -/
def KeyFits (s : TimeUi) : TimeEvent → Prop
  | .key key => s.currentMenu=.setTime → s.prevKey≠key → ∀ num,digit key=some num → DigitFits s num
  | _ => True

/-! ## The fields of an open screen -/

/-- The fields keep their constants, and their values are in range. -/
structure Laid (f : Fields Link) : Prop where
  /-- width. -/
  width : ∀ i<paramCnt,(f.params i).width=2
  /-- link. -/
  link : ∀ i<paramCnt,(f.params i).link=linkOf i
  /-- min_val. -/
  minVal : ∀ i<paramCnt,(f.params i).minVal=(linkOf i).minVal
  /-- max_val. -/
  maxVal : ∀ i<paramCnt,(f.params i).maxVal=(linkOf i).maxVal
  /-- value. -/
  value : ∀ i<paramCnt,(f.params i).value ≤ (linkOf i).maxVal

/-- A laid out field is as wide as its parameter. -/
theorem Laid.widths {f : Fields Link} (h : Laid f) : DigitWidths f := by
  intro i hi
  rw [h.width i hi]
  decide

/-- Fields with the same numbers are laid out as well. -/
theorem Laid.of_sameNumbers {f f' : Fields Link} (h : Laid f) (hs : SameNumbers f f') :
    Laid f' where
  width := fun i hi => (hs.width i).trans (h.width i hi)
  link := fun i hi => (hs.link i).trans (h.link i hi)
  minVal := fun i hi => (hs.minVal i).trans (h.minVal i hi)
  maxVal := fun i hi => (hs.maxVal i).trans (h.maxVal i hi)
  value := fun i hi => by rw [hs.value i]; exact h.value i hi

/-- The least value of a parameter is at most its greatest. -/
theorem Link.minVal_le (l : Link) : l.minVal ≤ l.maxVal := by cases l <;> decide

/-- The fields of a time of the clock are in range. -/
theorem Link.get_le {t : ErtcTime} (h : ValidTime t) (l : Link) :
    (l.get t).toUInt16 ≤ l.maxVal := by
  have hday := h.date.day_le.trans (monthLength_le _ _)
  rw [UInt16.le_iff_toNat_le,UInt8.toNat_toUInt16]
  cases l with
  | hour => exact h.hour
  | min => exact h.min
  | sec => exact h.sec
  | date => exact hday
  | month => exact h.date.month_le
  | year => exact h.year

/-- What holds in the open screen. -/
structure Open (s : TimeUi) : Prop where
  /-- The fields. -/
  laid : Laid s.fields
  /-- One field is under edit. -/
  editing : ∃ cur,Editing s.fields cur

/-- The screen of a valid time opens laid out on that time. -/
theorem initTimeMenu_open {s : TimeUi} (h : ValidTime s.rtc) : Open (initTimeMenu s) where
  laid := ⟨fun _ _ => rfl,fun _ _ => rfl,fun _ _ => rfl,fun _ _ => rfl,
    fun i _ => Link.get_le h (linkOf i)⟩
  editing := by
    refine ⟨0,by decide,fun i _ => ?_,le_rfl,(by decide : 1≤2)⟩
    change (if i=0 then (1 : UInt16) else 0)≠0 ↔ i=0
    split
    next hi => exact iff_of_true (by decide) hi
    next hi => exact iff_of_false (not_not_intro rfl) hi

/-- Fields whose values stay in range stay laid out. -/
theorem Laid.of_onlyValues {f f' : Fields Link} (h : Laid f) (hv : OnlyValues f f')
    (hle : ∀ i<paramCnt,(f'.params i).value ≤ (linkOf i).maxVal) : Laid f' where
  width := fun i hi => (hv.width i).trans (h.width i hi)
  link := fun i hi => (hv.link i).trans (h.link i hi)
  minVal := fun i hi => (hv.minVal i).trans (h.minVal i hi)
  maxVal := fun i hi => (hv.maxVal i).trans (h.maxVal i hi)
  value := hle

/-- Following the clock changes values only. -/
theorem followClock_onlyValues (t : ErtcTime) (f : Fields Link) :
    OnlyValues f (followClock t f) := by
  refine ⟨rfl,?_,?_,?_,?_,?_⟩ <;>
  · intro i
    unfold followClock
    dsimp only
    split <;> rfl

/-- The number under edit does not follow the clock. -/
theorem followClock_cur {t : ErtcTime} {f : Fields Link} {cur : ℕ} (h : Editing f cur) :
    (followClock t f).params cur=f.params cur := by
  have hflag := (h.flag cur h.lt).mpr rfl
  exact if_neg fun hc => hflag hc.2

/-- Following a valid clock keeps the fields laid out. -/
theorem followClock_laid {t : ErtcTime} {f : Fields Link} (ht : ValidTime t) (h : Laid f) :
    Laid (followClock t f) := by
  refine h.of_onlyValues (followClock_onlyValues t f) fun i hi => ?_
  unfold followClock
  dsimp only
  split
  · dsimp only
    rw [h.link i hi]
    exact Link.get_le ht _
  · exact h.value i hi

/-- Showing the screen. -/
theorem updateTimeMenu_eq {s : TimeUi} {cur : ℕ} (h : Editing s.fields cur) :
    updateTimeMenu s={s with fields := followClock s.rtc s.fields} := by
  have hshown := h.of_onlyValues (followClock_onlyValues s.rtc s.fields)
  unfold updateTimeMenu
  rw [hshown.holdCursor]

/-- A tick of a valid clock keeps the screen open. -/
theorem Open.updateTimeMenu {s : TimeUi} (h : Open s) (ht : ValidTime s.rtc) :
    Open (updateTimeMenu s) := by
  obtain ⟨cur,hcur⟩ := h.editing
  rw [updateTimeMenu_eq hcur]
  exact ⟨followClock_laid ht h.laid,cur,hcur.of_onlyValues (followClock_onlyValues _ _)⟩

/-! ## One digit -/

/-- The date of a time. -/
def dateSet (t : ErtcTime) : ClockSet := .date t.year t.month t.day

/-- The time of day of a time. -/
def timeSet (t : ErtcTime) : ClockSet := .time t.hour t.min t.sec

/-- The date and the time can be set exactly when the whole is valid. -/
theorem sets_exist_iff_valid (t : ErtcTime) :
    (dateSet t).Exists ∧ (timeSet t).Exists ↔ ValidTime t := by
  constructor
  · rintro ⟨⟨hyear,hdate⟩,hhour,hmin,hsec⟩
    exact ⟨hyear,hdate,hhour,hmin,hsec⟩
  · intro h
    exact ⟨⟨h.year,h.date⟩,h.hour,h.min,h.sec⟩

/-- A clock with one field set holds an existing time exactly when the new
date fits. -/
theorem set_valid_iff {rtc : ErtcTime} (h : ValidTime rtc) {n : ℕ} (hn : n≤99) (l : Link)
    {value : UInt8} (hv : value.toNat=min l.maxVal.toNat (max l.minVal.toNat n)) :
    ValidTime (l.set rtc value) ↔ DateFits rtc n l := by
  have hdate := h.date
  have hmonth := hdate.month_pos
  have hmonth12 := hdate.month_le
  cases l with
  | hour =>
    have h23 : value.toNat≤23 := by rw [hv]; exact min_le_left _ _
    exact iff_of_true ⟨h.year,hdate,h23,h.min,h.sec⟩ trivial
  | min =>
    have h59 : value.toNat≤59 := by rw [hv]; exact min_le_left _ _
    exact iff_of_true ⟨h.year,hdate,h.hour,h59,h.sec⟩ trivial
  | sec =>
    have h59 : value.toNat≤59 := by rw [hv]; exact min_le_left _ _
    exact iff_of_true ⟨h.year,hdate,h.hour,h.min,h59⟩ trivial
  | date =>
    have hday : value.toNat=min 31 (max 1 n) := hv
    unfold DateFits
    rw [←hday]
    constructor
    · exact fun ht => ht.date.day_le
    · exact fun hle => ⟨h.year,⟨hmonth,hmonth12,by change 1≤value.toNat; omega,hle⟩,
        h.hour,h.min,h.sec⟩
  | month =>
    have hm : value.toNat=min 12 (max 1 n) := hv
    unfold DateFits
    rw [←hm]
    constructor
    · exact fun ht => ht.date.day_le
    · exact fun hle => ⟨h.year,⟨by change 1≤value.toNat; omega,by change value.toNat≤12; omega,
        hdate.day_pos,hle⟩,h.hour,h.min,h.sec⟩
  | year =>
    have hy : value.toNat=n := by
      have hv' : value.toNat=min 99 (max 0 n) := hv
      omega
    unfold DateFits
    rw [←hy]
    constructor
    · exact fun ht => ht.date.day_le
    · exact fun hle => ⟨by change value.toNat≤99; omega,⟨hmonth,hmonth12,hdate.day_pos,hle⟩,
        h.hour,h.min,h.sec⟩

section Digit

variable {s : TimeUi} {cur : ℕ}

/-- The greatest value has two digits. -/
theorem Link.maxVal_le (l : Link) : l.maxVal.toNat≤99 := by cases l <;> decide

/-- The new value of the field under edit is the spelled number between the
limits of the field. -/
theorem entered_toNat (hl : Laid s.fields) (hcur : Editing s.fields cur) {num : UInt8}
    (hnum : num.toNat≤9) : ∃ value,newValue (s.fields.params cur) s.fields.pos num=some value ∧
      spelled s num≤99 ∧
      value.toNat=min (linkOf cur).maxVal.toNat (max (linkOf cur).minVal.toNat (spelled s num)) := by
  have hlt := hcur.lt
  have hmax := hl.maxVal cur hlt
  have hmin := hl.minVal cur hlt
  have hle := Link.minVal_le (linkOf cur)
  have hp1 := hcur.pos_pos
  have hp2 := hcur.pos_le
  have hvalue : (s.fields.params cur).value.toNat≤99 :=
    (UInt16.le_iff_toNat_le.mp (hl.value cur hlt)).trans (Link.maxVal_le _)
  rw [hl.width cur hlt] at hp2
  have h2 : (2 : UInt16).toNat=2 := rfl
  have hplace := @place_toNat 2 s.fields.pos (by decide) hp1 hp2
  have hspelled : (putDigit (s.fields.params cur).value (place 2 s.fields.pos) num).toNat=
      spelled s num ∧ spelled s num≤99 := by
    unfold spelled
    rw [hcur.getCurParam]
    dsimp only
    by_cases hpos : s.fields.pos=1
    · rw [if_pos hpos,hpos,show place 2 1=1 from rfl,putDigit_tens (by omega) hnum]
      omega
    · have hpos2 : s.fields.pos=2 := by
        have hne : s.fields.pos.toNat≠1 := fun h1 => hpos (UInt8.toNat_inj.mp h1)
        exact UInt8.toNat_inj.mp (by change s.fields.pos.toNat=2; omega)
      rw [if_neg hpos,hpos2,show place 2 2=2 from rfl,putDigit_units (by omega) hnum]
      omega
  refine ⟨_,hcur.newValue hl.widths num,hspelled.2,?_⟩
  rw [clamp_toNat (by rw [hmin,hmax]; exact hle),hmin,hmax,hl.width cur hlt,hspelled.1]

/-- A digit that counts: the calls it makes and the clock behind them. -/
theorem updateDateTimeValue_eq (h : Open s) (hcur : Editing s.fields cur) {num : UInt8}
    (hnum : num.toNat≤9) : ∃ value,
      updateDateTimeValue s (getCurParam s.fields) num=
        {s with
          rtc := (linkOf cur).set s.rtc value
          fields := posToRight (s.fields.setValue cur value.toUInt16)
          sets := s.sets++[dateSet ((linkOf cur).set s.rtc value),
            timeSet ((linkOf cur).set s.rtc value)]} ∧
      spelled s num≤99 ∧
      value.toNat=min (linkOf cur).maxVal.toNat (max (linkOf cur).minVal.toNat (spelled s num)) := by
  obtain ⟨value,hnew,hspelled,hvalue⟩ := entered_toNat h.laid hcur hnum
  have hmax := Link.maxVal_le (linkOf cur)
  have hbyte : value.toUInt8.toNat=value.toNat := by
    rw [UInt16.toNat_toUInt8]
    omega
  have hword : value.toUInt8.toUInt16=value := by
    apply UInt16.toNat_inj.mp
    rw [UInt8.toNat_toUInt16,hbyte]
  refine ⟨value.toUInt8,?_,hspelled,hbyte.trans hvalue⟩
  unfold updateDateTimeValue
  rw [hcur.getCurParam,if_neg (Nat.not_le.mpr hcur.lt),hnew,h.laid.link cur hcur.lt,hword]
  rfl

/-- The field under edit with a value in its range. -/
theorem Laid.setValue {f : Fields Link} (h : Laid f) {value : UInt16}
    (hv : value ≤ (linkOf cur).maxVal) : Laid (f.setValue cur value) := by
  refine h.of_onlyValues (setValue_onlyValues f cur value) fun i hi => ?_
  rw [setValue_value]
  split
  next hc => rw [hc]; exact hv
  next => exact h.value i hi

/-- Moving the cursor on. -/
theorem Open.posToRight {f : Fields Link} (h : Laid f) (hcur : Editing f cur) :
    Laid (posToRight f) ∧ ∃ cur',Editing (posToRight f) cur' :=
  ⟨h.of_sameNumbers (posToRight_sameNumbers _),posToRight_editing hcur h.widths⟩

end Digit

/-- Showing the screen leaves the number under edit, the cursor and the clock. -/
theorem digitFits_updateTimeMenu {s : TimeUi} (h : Open s) (num : UInt8) :
    DigitFits (updateTimeMenu s) num ↔ DigitFits s num := by
  obtain ⟨cur,hcur⟩ := h.editing
  have hshown := hcur.of_onlyValues (followClock_onlyValues s.rtc s.fields)
  have hspelled : spelled {s with fields := followClock s.rtc s.fields} num=spelled s num := by
    unfold spelled
    rw [hshown.getCurParam,hcur.getCurParam,followClock_cur hcur]
    rfl
  unfold DigitFits
  rw [updateTimeMenu_eq hcur,hspelled,hshown.getCurParam,hcur.getCurParam,followClock_cur hcur]

/-- A step makes calls that exist exactly when something fits, and then leaves
an open screen with an existing time on the clock. -/
def Sets (s s' : TimeUi) (fits : Prop) : Prop :=
  ∃ new,s'.sets=s.sets++new ∧ ((∀ c∈new,c.Exists) ↔ fits) ∧
    ((∀ c∈new,c.Exists) → Open s' ∧ ValidTime s'.rtc)

/-- A step without calls. -/
theorem Sets.quiet {s s' : TimeUi} {fits : Prop} (hsets : s'.sets=s.sets) (hfits : fits)
    (hopen : Open s') (ht : ValidTime s'.rtc) : Sets s s' fits := by
  have hnone : ∀ c∈([] : List ClockSet),c.Exists := List.forall_mem_nil _
  exact ⟨[],by rw [hsets,List.append_nil],iff_of_true hnone hfits,fun _ => ⟨hopen,ht⟩⟩

/-- A digit that counts sets an existing time exactly when it fits. -/
theorem updateDateTimeValue_sets {s : TimeUi} {cur : ℕ} (h : Open s) (ht : ValidTime s.rtc)
    (hcur : Editing s.fields cur) {num : UInt8} (hnum : num.toNat≤9) (prevKey : UInt16) :
    Sets s {updateDateTimeValue s (getCurParam s.fields) num with prevKey := prevKey}
      (DigitFits s num) := by
  obtain ⟨value,heq,hspelled,hvalue⟩ := updateDateTimeValue_eq h hcur hnum
  have hfits : DigitFits s num ↔ ValidTime ((linkOf cur).set s.rtc value) := by
    unfold DigitFits
    rw [hcur.getCurParam,h.laid.link cur hcur.lt]
    exact (set_valid_iff ht hspelled (linkOf cur) hvalue).symm
  have hle : value.toUInt16 ≤ (linkOf cur).maxVal := by
    rw [UInt16.le_iff_toNat_le,UInt8.toNat_toUInt16,hvalue]
    exact min_le_left _ _
  have hmoved := Open.posToRight (h.laid.setValue hle)
    (hcur.of_onlyValues (setValue_onlyValues s.fields cur value.toUInt16))
  have hcalls : (∀ c∈[dateSet ((linkOf cur).set s.rtc value),
      timeSet ((linkOf cur).set s.rtc value)],c.Exists) ↔ DigitFits s num := by
    rw [List.forall_mem_cons,List.forall_mem_singleton,sets_exist_iff_valid,hfits]
  rw [heq]
  exact ⟨_,rfl,hcalls,fun hnew => ⟨⟨hmoved.1,hmoved.2⟩,hfits.mp (hcalls.mp hnew)⟩⟩

/-- What one key in the open screen does to the clock. -/
theorem setTimeMenu_sets {s : TimeUi} (h : Open s) (ht : ValidTime s.rtc) (key : UInt16) :
    Sets s (setTimeMenu s key)
      (s.prevKey≠key → ∀ num,digit key=some num → DigitFits s num) := by
  have hopen := h.updateTimeMenu ht
  have hfits := digitFits_updateTimeMenu h
  obtain ⟨cur₀,hcur₀⟩ := h.editing
  have hshown := updateTimeMenu_eq hcur₀
  have hrtc : (updateTimeMenu s).rtc=s.rtc := by rw [hshown]
  have hsets : (updateTimeMenu s).sets=s.sets := by rw [hshown]
  have hprev : (updateTimeMenu s).prevKey=s.prevKey := by rw [hshown]
  unfold setTimeMenu
  generalize updateTimeMenu s=shown at hopen hfits hrtc hsets hprev ⊢
  rw [←hrtc] at ht
  obtain ⟨cur,hcur⟩ := hopen.editing
  unfold setTimeKey
  by_cases hleave : key=keyLeft ∨ key=keyEnter
  · have hdigit := digit_of_move (hleave.imp_right Or.inl)
    rw [if_pos hleave,hdigit]
    exact Sets.quiet hsets nofun ⟨hopen.laid,hopen.editing⟩ ht
  · rw [if_neg hleave]
    by_cases hright : key=keyRight
    · have hdigit := digit_of_move (Or.inr (Or.inr hright))
      have hmoved := Open.posToRight hopen.laid hcur
      rw [if_pos hright,hdigit]
      exact Sets.quiet hsets nofun ⟨hmoved.1,hmoved.2⟩ ht
    · rw [if_neg hright]
      cases hdigit : digit key with
      | none => exact Sets.quiet hsets nofun ⟨hopen.laid,hopen.editing⟩ ht
      | some num =>
        dsimp only
        rw [hprev]
        by_cases hnew : s.prevKey≠key
        · rw [if_pos hnew]
          obtain ⟨new,hcalls,hexist,hkeep⟩ :=
            updateDateTimeValue_sets hopen ht hcur (digit_le hdigit) (kept key)
          refine ⟨new,by rw [hcalls,hsets],hexist.trans ((hfits num).trans ?_),hkeep⟩
          exact ⟨fun hf _ num' hn => Option.some.inj hn ▸ hf,fun hf => hf hnew num rfl⟩
        · rw [if_neg hnew]
          exact Sets.quiet hsets (fun hk => absurd hk hnew) ⟨hopen.laid,hopen.editing⟩ ht

/-! ## Runs from the configuration screen -/

/-- What holds as long as all calls exist. -/
structure RunInv (s : TimeUi) : Prop where
  /-- The clock holds an existing time. -/
  rtc : ValidTime s.rtc
  /-- The screen, while it is open. -/
  screen : s.currentMenu=.setTime → Open s
  /-- All calls so far. -/
  sets : ∀ c∈s.sets,c.Exists

/-- One event. -/
theorem timeStep_spec {s : TimeUi} (h : RunInv s) (event : TimeEvent) :
    ((∀ c∈(timeStep s event).sets,c.Exists) ↔ KeyFits s event) ∧
      (KeyFits s event → RunInv (timeStep s event)) := by
  cases event with
  | enter =>
    unfold timeStep KeyFits
    dsimp only
    by_cases hmenu : s.currentMenu=.config
    · rw [if_pos hmenu]
      have hopen := initTimeMenu_open h.rtc
      exact ⟨iff_of_true h.sets trivial,
        fun _ => ⟨h.rtc,fun _ => ⟨hopen.laid,hopen.editing⟩,h.sets⟩⟩
    · rw [if_neg hmenu]
      exact ⟨iff_of_true h.sets trivial,fun _ => h⟩
  | elapse now =>
    refine ⟨iff_of_true h.sets trivial,fun _ => ⟨now.property,fun hmenu => ?_,h.sets⟩⟩
    have hopen := h.screen hmenu
    exact ⟨hopen.laid,hopen.editing⟩
  | key key =>
    unfold timeStep KeyFits
    dsimp only
    by_cases hmenu : s.currentMenu=.setTime
    · rw [if_pos hmenu]
      obtain ⟨new,hsets,hexist,hkeep⟩ := setTimeMenu_sets (h.screen hmenu) h.rtc key
      have hall : (∀ c∈(setTimeMenu s key).sets,c.Exists) ↔ ∀ c∈new,c.Exists := by
        rw [hsets,List.forall_mem_append]
        exact ⟨fun hc => hc.2,fun hc => ⟨h.sets,hc⟩⟩
      refine ⟨hall.trans (hexist.trans ⟨fun hf _ => hf,fun hf => hf hmenu⟩),fun hf => ?_⟩
      have hnew := hexist.mpr (hf hmenu)
      obtain ⟨hopen,ht⟩ := hkeep hnew
      exact ⟨ht,fun _ => hopen,hall.mpr hnew⟩
    · rw [if_neg hmenu]
      exact ⟨iff_of_true h.sets fun hk => absurd hk hmenu,fun _ => h⟩

/-- One more event is one more step. -/
@[simp] theorem timeRun_concat (rtc : ErtcTime) (events : List TimeEvent) (event : TimeEvent) :
    timeRun rtc (events++[event])=timeStep (timeRun rtc events) event := List.foldl_concat ..

/-- From every time of the clock and for every sequence of keys and passing
time: at every moment all dates and times that were set exist, exactly when
every digit spells a number that fits the date of the clock. -/
theorem sets_exist_iff {rtc : ErtcTime} (h : ValidTime rtc) (events : List TimeEvent) :
    Throughout (fun pre => ∀ c∈(timeRun rtc pre).sets,c.Exists) events ↔
      InputsMeet (fun pre event => KeyFits (timeRun rtc pre) event) events := by
  refine throughout_iff_inputsMeet ?_
    (fun pre (hinv : RunInv (timeRun rtc pre)) => hinv.sets) ?_ ?_ events
  · exact ⟨h,nofun,List.forall_mem_nil _⟩
  · intro pre event hinv hfits
    rw [timeRun_concat]
    exact (timeStep_spec hinv event).2 hfits
  · intro pre event hinv hfits
    rw [timeRun_concat]
    exact fun hsets => hfits ((timeStep_spec hinv event).1.mp hsets)

/-- Noon of the fifteenth of February 2023. -/
def february15 : ErtcTime := ⟨23,2,15,12,0,0⟩

/-- The 15th of February is a valid time. -/
theorem february15_valid : ValidTime february15 :=
  ⟨by decide,⟨by decide,by decide,by decide,by decide⟩,by decide,by decide,by decide⟩

/-- The cursor on the tens of the day. -/
def toDay : List TimeEvent := .enter::List.replicate 6 (.key keyRight)

/-- A 3 typed for the 15 sets the 31 of February. -/
theorem february31_set : (timeRun february15 (toDay++[.key key3])).sets=
      [.date 23 2 31,.time 12 0 0] ∧
    ¬∀ c∈(timeRun february15 (toDay++[.key key3])).sets,c.Exists := by
  have hsets : (timeRun february15 (toDay++[.key key3])).sets=
      [.date 23 2 31,.time 12 0 0] := by decide +kernel
  refine ⟨hsets,fun h => ?_⟩
  rw [hsets] at h
  have hday := (h (.date 23 2 31) List.mem_cons_self).2.day_le
  exact absurd hday (by decide)

/-- A 2 typed there sets the 25 of February. -/
theorem february25_set : Throughout
    (fun pre => ∀ c∈(timeRun february15 pre).sets,c.Exists) (toDay++[.key key2]) := by
  refine (sets_exist_iff february15_valid _).mpr (InputsMeet.concat ?_ ?_)
  · intro pre event post he
    have hmem : event∈toDay := by
      rw [←he]
      exact List.mem_append_right _ List.mem_cons_self
    rcases List.mem_cons.mp hmem with rfl|hright
    · trivial
    · rw [List.eq_of_mem_replicate hright]
      intro _ _ num hnum
      have hnone : digit keyRight=none := rfl
      rw [hnone] at hnum
      cases hnum
  · intro _ _ num hnum
    obtain rfl : 2=num := Option.some.inj hnum
    have hlink : ((timeRun february15 toDay).fields.params
        (getCurParam (timeRun february15 toDay).fields)).link=.date := by decide +kernel
    unfold DigitFits
    rw [hlink]
    unfold DateFits
    decide +kernel

end BT816Display.SetTimeMenu
