import BT816Display.Lib.Pager
import BT816Display.LcdTask

/-!
# The two lists as pages

What alarm_info_menu and state_menu show of the records of the archive and of
the active messages, and where their keys move the first row.
-/

namespace BT816Display.ListScreens

open ByteMemory Keys MessageArchive MessageConf MessageScanner MessageList ArchiveSlots
open ArchiveReboot LcdTask Pager
open PlcData (Val)
open ArrayAccess (Arrays)

/-! ## The archive -/

section

variable {stack : Mem UInt8} {s : Archive} {h : List StoredRecord}

/-- The records that the archive can show. -/
def kept (h : List StoredRecord) : List StoredRecord := h.take 256

/-- At most 256 records are kept. -/
theorem kept_length (h : List StoredRecord) : (kept h).length=min h.length 256 := by
  rw [kept,List.length_take,Nat.min_comm]

/-- The count read is the number of records kept. -/
theorem cnt_toNat (hs : ShowsHistory stack s h) :
    (UInt16.ofNat (getArchiveRecordsCnt stack s)).toNat=(kept h).length := by
  rw [hs.1,kept_length]
  exact UInt16.toNat_ofNat_of_lt' (by have hsize : UInt16.size=65536 := rfl; omega)

/-- The rows are the records from the first one on. -/
theorem alarmRows_eq (hs : ShowsHistory stack s h) {cnt : UInt16}
    (hcnt : cnt.toNat=(kept h).length) (first : UInt16) (fuel i : ℕ) :
    alarmRows stack s first cnt fuel i=(shown fuel (first.toNat+i) (kept h)).map view := by
  induction fuel generalizing i with
  | zero => rfl
  | succ fuel ih =>
    rw [alarmRows,hcnt]
    by_cases hend : first.toNat+i≥(kept h).length
    · rw [if_pos hend,shown,List.drop_eq_nil_of_le hend]
      rfl
    · have hlt : first.toNat+i<(kept h).length := by omega
      have hbound := kept_length h
      have hrec : getRecordWithOffsetFromLast stack (first.toNat+i) s=
          some (view (kept h)[first.toNat+i]) := by
        rw [hs.2 _ (by omega),List.getElem?_eq_getElem (by omega)]
        simp only [kept,List.getElem_take,Option.map_some]
      rw [if_neg hend,hrec,shown_cons hlt,List.map_cons,ih]
      rfl

end

/-- Where a key moves the first row of a list of `n` entries. -/
def moved (n : ℕ) (key : UInt16) (first : ℕ) : ℕ :=
  if key=keyUp then up 10 first else if key=keyDown then down 10 n first else first

/-- The test for a second page, in numbers. -/
theorem ge_ten_iff (first : UInt16) : first≥10 ↔ first.toNat≥10 := UInt16.le_iff_toNat_le

/-- The first row brought down to that of the last screen of a full list. -/
theorem min_toNat (first cap : UInt16) :
    (if first>cap then cap else first).toNat=min first.toNat cap.toNat := by
  split
  case isTrue h =>
    have h := UInt16.lt_iff_toNat_lt.mp h
    omega
  case isFalse h =>
    have h := UInt16.le_iff_toNat_le.mp (UInt16.not_lt.mp h)
    omega

/-- The keys move the first row by a screen. -/
theorem listKey_toNat (first key : UInt16) {n : ℕ} (hn : n<65526) :
    (listKey n first key).toNat=moved n key first.toNat := by
  have h10 : (10 : UInt16).toNat=10 := rfl
  unfold listKey moved
  by_cases hup : key=keyUp
  · rw [if_pos hup,if_pos hup,up]
    by_cases h : first≥10
    · rw [if_pos h,if_pos ((ge_ten_iff first).mp h),UInt16.toNat_sub_of_le _ _ h,h10]
    · rw [if_neg h,if_neg (mt (ge_ten_iff first).mpr h)]
      rfl
  · rw [if_neg hup,if_neg hup]
    by_cases hdown : key=keyDown
    · rw [if_pos hdown,if_pos hdown,down]
      split
      case isTrue h =>
        rw [UInt16.toNat_add,h10]
        omega
      case isFalse h => rfl
    · rw [if_neg hdown,if_neg hdown]

/-- The sign for newer entries tells of a whole screen of them. -/
theorem upSign_eq (first : UInt16) {cap : ℕ} (hcap : 10 ≤ cap) :
    decide (first≥10)=decide (10 ≤ min first.toNat cap) := by
  rw [decide_eq_decide,ge_ten_iff]
  omega

/-- The sign for older entries is right for a list that is not too long. -/
theorem downSign_eq (first : ℕ) {n cap : ℕ} (hn : n ≤ cap+10) :
    decide (first+10<n)=decide (min first cap+10<n) := by
  rw [decide_eq_decide]
  omega

/-- What the alarm screen shows of a list whose first row is `top`. -/
structure AlarmShown (l : List StoredRecord) (top : ℕ) (key : UInt16) (frame : AlarmFrame)
    (after : UInt16) : Prop where
  /-- There is a screen of newer records. -/
  upSign : frame.upSign=decide (10≤top)
  /-- There are older records. -/
  downSign : frame.downSign=decide (top+10<l.length)
  /-- The rows. -/
  rows : frame.rows=(shown 10 top l).map view
  /-- The first row afterwards. -/
  after : after.toNat=moved l.length key top

/-- The first row of the alarm screen for a list of `n` records. -/
def alarmTop (n : ℕ) (first : UInt16) : ℕ := if n=0 then 0 else min first.toNat 246

/-- The alarm screen shows the records that the archive can show. -/
theorem alarmList_shown {stack : Mem UInt8} {s : Archive} {h : List StoredRecord}
    (hs : ShowsHistory stack s h) (first key : UInt16) :
    AlarmShown (kept h) (alarmTop (kept h).length first) key (alarmList stack s first key).1
      (alarmList stack s first key).2 := by
  have hcnt := cnt_toNat hs
  have hlen := kept_length h
  obtain ⟨cnt,hdef⟩ : ∃ cnt,cnt=UInt16.ofNat (getArchiveRecordsCnt stack s) := ⟨_,rfl⟩
  rw [←hdef] at hcnt
  have hzero : cnt=0 ↔ (kept h).length=0 := by
    rw [←hcnt]
    exact ⟨fun he => by rw [he]; rfl,fun he => UInt16.toNat_inj.mp he⟩
  obtain ⟨first',hfirst⟩ : ∃ first' : UInt16,first'=if cnt=0 then 0 else first := ⟨_,rfl⟩
  have htop : min first'.toNat 246=alarmTop (kept h).length first := by
    rw [hfirst,alarmTop]
    by_cases h0 : cnt=0
    · rw [if_pos h0,if_pos (hzero.mp h0)]
      rfl
    · rw [if_neg h0,if_neg (mt hzero.mpr h0)]
  have h246 : (if first'>246 then 246 else first').toNat=min first'.toNat 246 := min_toNat first' 246
  rw [←htop]
  unfold alarmList
  rw [←hdef]
  dsimp only
  rw [←hfirst]
  constructor
  · exact upSign_eq first' (by omega)
  · dsimp only
    rw [hcnt]
    exact downSign_eq _ (by omega)
  · dsimp only
    rw [alarmRows_eq hs hcnt,Nat.add_zero,h246]
  · rw [listKey_toNat _ _ (by omega),hcnt,h246]

/-! ## The active messages -/

section

variable (flash : Mem UInt8) (vars : ConfigVars) {conf : Messages} (cl : Arrays Val)

/-- A row names an active message. -/
def RowShows (conf : Messages) (cl : Arrays Val) (i : ℕ) (row : BitMessageConf×Option (List UInt8)) : Prop :=
  Shows cl (conf i) row.1 ∧ row.2=getMessageName flash vars i

/-- The rows are the active messages from the first one on. -/
theorem messageRows_spec (first : UInt16) {fuel i : ℕ} (hi : first.toNat+i+fuel≤256)
    {table : Messages} (h : Follows conf table) :
    Follows conf (messageRows flash vars cl first fuel i table).value.1 ∧
      List.Forall₂ (RowShows flash vars conf cl)
        (shown fuel (first.toNat+i) (activeMessages cl conf))
        (messageRows flash vars cl first fuel i table).value.2 := by
  induction fuel generalizing i table with
  | zero => exact ⟨h,List.Forall₂.nil⟩
  | succ fuel ih =>
    have hsize : UInt8.size=256 := rfl
    have hnum : (UInt8.ofNat (i+first.toNat)).toNat=first.toNat+i := by
      rw [UInt8.toNat_ofNat_of_lt' (by omega),Nat.add_comm]
    obtain ⟨hfollows,hfound⟩ := getMessageByNumber_spec flash vars cl h (UInt8.ofNat (i+first.toNat))
    rw [hnum] at hfound
    rw [messageRows,Traced.bind_value]
    by_cases hlt : first.toNat+i<(activeMessages cl conf).length
    · rw [List.getElem?_eq_getElem hlt] at hfound
      obtain ⟨m,hshows,hm⟩ := hfound
      obtain ⟨hrest,hrows⟩ := @ih (i+1) (by omega) _ hfollows
      rw [hm,shown_cons hlt]
      exact ⟨hrest,List.Forall₂.cons ⟨hshows,rfl⟩ hrows⟩
    · rw [List.getElem?_eq_none (by omega)] at hfound
      dsimp only at hfound
      rw [hfound,shown,List.drop_eq_nil_of_le (by omega)]
      exact ⟨hfollows,List.Forall₂.nil⟩

/-- What the state screen shows of the active messages when its first row is `top`. -/
structure StateShown (conf : Messages) (plcCanLink : UInt8) (top : ℕ) (prevKey key : UInt16)
    (frame : StateFrame) (after : UInt16) : Prop where
  /-- There is a screen of messages before. -/
  upSign : frame.upSign=decide (10≤top)
  /-- There are messages behind. -/
  downSign : frame.downSign=decide (top+10<(activeMessages cl conf).length)
  /-- The rows. -/
  rows : List.Forall₂ (RowShows flash vars conf cl) (shown 10 top (activeMessages cl conf))
    frame.rows
  /-- The text for a system in order. -/
  systemOk : frame.systemOk=decide (activeMessages cl conf=[] ∧ plcCanLink≠0)
  /-- The first row afterwards. -/
  after : after.toNat=
    let first := if activeMessages cl conf=[] then 0 else top
    if key≠prevKey then moved (activeMessages cl conf).length key first else first

/-- The first row is one of the table, and the first one of all without messages. -/
theorem stateFirst_toNat {cnt : UInt8} (hzero : cnt=0 ↔ activeMessages cl conf=[])
    (first : UInt16) : (stateFirst first cnt).toNat=
      if activeMessages cl conf=[] then 0 else min first.toNat 53 := by
  have h53 : (if first>53 then 53 else first).toNat=min first.toNat 53 := min_toNat first 53
  unfold stateFirst
  by_cases h0 : cnt=0
  · rw [if_pos h0,if_pos (hzero.mp h0)]
    rfl
  · rw [if_neg h0,if_neg (mt hzero.mpr h0),h53]

/-- The rows are a page of the active messages. -/
theorem shownMessages_spec {cnt : UInt8} (hzero : cnt=0 ↔ activeMessages cl conf=[])
    (first : UInt16) {table : Messages} (h : Follows conf table) :
    Follows conf (shownMessages flash vars cl (stateFirst first cnt) cnt table).value.1 ∧
      List.Forall₂ (RowShows flash vars conf cl)
        (shown 10 (min first.toNat 53) (activeMessages cl conf))
        (shownMessages flash vars cl (stateFirst first cnt) cnt table).value.2 := by
  have hfirst := stateFirst_toNat cl hzero first
  unfold shownMessages
  by_cases h0 : cnt=0
  · rw [if_neg (fun hne => hne h0),hzero.mp h0,shown,List.drop_nil]
    exact ⟨h,List.Forall₂.nil⟩
  · rw [if_pos h0]
    rw [if_neg (mt hzero.mpr h0)] at hfirst
    have hrows := @messageRows_spec flash vars conf cl (stateFirst first cnt) 10 0 (by omega) table h
    rwa [hfirst,Nat.add_zero] at hrows

/-- The state screen shows the active messages. -/
theorem stateList_shown (plcCanLink : UInt8) (prevKey first key : UInt16) {table : Messages}
    (h : Follows conf table) :
    Follows conf (stateList flash vars cl plcCanLink prevKey first key table).value.1 ∧
      StateShown flash vars cl conf plcCanLink (min first.toNat 53) prevKey key
        (stateList flash vars cl plcCanLink prevKey first key table).value.2.1
        (stateList flash vars cl plcCanLink prevKey first key table).value.2.2 := by
  obtain ⟨hfollows,hcount⟩ := getActiveMessagesCnt_spec cl h
  have hmax := activeMessages_length cl conf
  have h63 : maxMsgCnt=63 := rfl
  obtain ⟨active,hactive⟩ : ∃ active,active=(getActiveMessagesCnt cl table).value := ⟨_,rfl⟩
  rw [←hactive] at hfollows hcount
  have hcnt : active.2.toUInt8.toNat=(activeMessages cl conf).length := by
    rw [UInt16.toNat_toUInt8,hcount]
    exact Nat.mod_eq_of_lt (by omega)
  have hzero : active.2.toUInt8=0 ↔ activeMessages cl conf=[] := by
    rw [←List.length_eq_zero_iff,←hcnt]
    exact ⟨fun he => by rw [he]; rfl,fun he => UInt8.toNat_inj.mp he⟩
  have hfirst := stateFirst_toNat cl hzero first
  have hshown := shownMessages_spec flash vars cl hzero first hfollows
  have hstate : stateList flash vars cl plcCanLink prevKey first key table=
      (getActiveMessagesCnt cl table>>=fun active => shownMessages flash vars cl
        (stateFirst first active.2.toUInt8) active.2.toUInt8 active.1>>=fun shown =>
          pure (shown.1,⟨decide (first≥10),decide (first.toNat+10<active.2.toUInt8.toNat),shown.2,
            decide (active.2.toUInt8=0 ∧ plcCanLink≠0)⟩,
            if key≠prevKey then
              listKey active.2.toUInt8.toNat (stateFirst first active.2.toUInt8) key
            else stateFirst first active.2.toUInt8)) := rfl
  rw [hstate,Traced.bind_value,←hactive,Traced.bind_value,Traced.pure_value]
  refine ⟨hshown.1,⟨upSign_eq first (by omega),?_,hshown.2,?_,?_⟩⟩
  · dsimp only
    rw [hcnt]
    exact downSign_eq _ (by omega)
  · exact decide_eq_decide.mpr (and_congr_left fun _ => hzero)
  · dsimp only
    rw [←hfirst,←hcnt]
    by_cases hnew : key≠prevKey
    · rw [if_pos hnew,if_pos hnew,listKey_toNat _ _ (by omega)]
    · rw [if_neg hnew,if_neg hnew]

/-- The rows of a screen add no record. -/
theorem messageRows_quiet (first : UInt16) (fuel i : ℕ) (table : Messages) :
    Quiet table (messageRows flash vars cl first fuel i table) := by
  induction fuel generalizing i table with
  | zero => exact Quiet.pure []
  | succ fuel ih =>
    rw [messageRows]
    refine (getMessageByNumber_quiet cl flash vars _ table).bind ?_
    split
    · exact (ih (i+1) _).bind (Quiet.pure _)
    · exact Quiet.pure []

/-- The state screen leaves the last scan alone. -/
theorem stateList_quiet (plcCanLink : UInt8) (prevKey first key : UInt16) (table : Messages) :
    Quiet table (stateList flash vars cl plcCanLink prevKey first key table) := by
  refine (getActiveMessagesCnt_quiet cl table).bind (Quiet.bind ?_ (Quiet.pure _))
  unfold shownMessages
  split
  · exact messageRows_quiet flash vars cl _ 10 0 _
  · exact Quiet.pure []

end

end BT816Display.ListScreens
