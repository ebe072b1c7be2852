import BT816Display.DigitEditor
import BT816Display.Lib.SlotList
import BT816Display.TrendHistory

/-!
# The screens that configure the trends

trend_config_menu.c opens three screens. One adds a trend behind the others,
one edits all of them, and one deletes the trend that is chosen. What they
leave is saved in the battery-backed registers, from which init_trends loads
it after a reboot.
-/

namespace BT816Display.TrendConfig

open DigitEditor (Fields Param SameNumbers)
open Keys SlotList TrendData
open Menu (MenuList)
open TrendEdit (EditParam EditUi Link editTrendMenu initEditTrendMenu paramCnt zeroTrend)
open TrendHistory (Confirms)

/-- The variables of the three screens and those they share. -/
structure ConfigUi where
  /-- The stored trends, current_menu and the variables of edit_trend_menu.c. -/
  edit : EditUi
  /-- tr of add_trend_menu.c. -/
  tr : Trend
  /-- params and pos of add_trend_menu.c. -/
  fields : Fields Link
  /-- prev_key of add_trend_menu.c. -/
  addKey : UInt16
  /-- cur_trend of delete_trend_menu.c. -/
  curTrend : UInt8
  /-- prev_key of delete_trend_menu.c. -/
  deleteKey : UInt16

/-- The stored trends. -/
abbrev ConfigUi.store (s : ConfigUi) : TrendStore := s.edit.store

/-- Another screen. -/
def ConfigUi.select (s : ConfigUi) (menu : MenuList) : ConfigUi :=
  {s with edit := {s.edit with currentMenu := menu}}

/-- Other stored trends. -/
def ConfigUi.setStore (s : ConfigUi) (store : TrendStore) : ConfigUi :=
  {s with edit := {s.edit with store := store}}

/-! ## add_trend_menu.c -/

/-- One field of the screen for a new trend. -/
def addParam (tr : Trend) (link : Link) (maxVal minVal width editFlag : UInt16) : Param Link where
  value := (link.get tr).toUInt16
  maxVal := maxVal
  minVal := minVal
  width := width
  link := link
  editFlag := editFlag

/-- The fields of the screen for a new trend. -/
def addParams (tr : Trend) : ℕ → Param Link
  | 0 => addParam tr .devAddr 255 0 3 1
  | 1 => addParam tr .inpNum 14 1 2 0
  | 2 => addParam tr .maxAlarm 255 0 3 0
  | 3 => addParam tr .maxWarn 255 0 3 0
  | 4 => addParam tr .minAlarm 255 0 3 0
  | _ => addParam tr .minWarn 255 0 3 0

/-- init_add_trend_menu. -/
def initAddTrendMenu (s : ConfigUi) : ConfigUi :=
  {s with tr := getNewTrend,fields := ⟨addParams getNewTrend,1⟩}

/-- update_param_value. -/
def updateParamValue (s : ConfigUi) (curPar : ℕ) (num : UInt8) : ConfigUi :=
  if curPar≥paramCnt then s
  else
    match DigitEditor.newValue (s.fields.params curPar) s.fields.pos num with
    | none => s
    | some value =>
      {s with
        tr := (s.fields.params curPar).link.set s.tr value.toUInt8
        fields := DigitEditor.posToRight (s.fields.setValue curPar value)}

/-- The keys of add_trend_menu while there is a free slot. -/
def addTrendKey (s : ConfigUi) (key : UInt16) : ConfigUi :=
  if key=keyLeft ∨ key=keyExit then s.select .trendConf
  else if key=keyDown ∨ key=keyEnter then
    (s.setStore (saveTrends (addTrend s.store s.tr).1)).select .trendConf
  else if key=keyRight then {s with fields := DigitEditor.posToRight s.fields}
  else
    match digit key with
    | some num =>
      if s.addKey≠key then updateParamValue s (DigitEditor.getCurParam s.fields) num else s
    | none => s

/-- The keys of add_trend_menu while all slots are in use. -/
def fullKey (s : ConfigUi) (key : UInt16) : ConfigUi :=
  if key=keyLeft ∨ key=keyExit ∨ key=keyDown ∨ key=keyEnter then s.select .trendConf else s

/-- add_trend_menu, without the drawing. -/
def addTrendMenu (s : ConfigUi) (key : UInt16) : ConfigUi :=
  {if s.store.trCnt.toNat≥trendMaxCnt then fullKey s key
    else addTrendKey {s with fields := DigitEditor.holdCursor s.fields} key with addKey := kept key}

/-! ## delete_trend_menu.c -/

/-- init_delete_trend_info_menu. -/
def initDeleteTrendInfoMenu (s : ConfigUi) : ConfigUi := {s with curTrend := 0}

/-- The keys of delete_trend_info_menu. -/
def deleteTrendKey (s : ConfigUi) (key : UInt16) : ConfigUi :=
  if key=keyEnter then
    {s.setStore (saveTrends (deleteTrend s.store (s.curTrend+1))) with curTrend := 0}
  else if key=keyLeft ∨ key=keyExit then s.select .trendConf
  else if key=keyUp then if s.curTrend≠0 then {s with curTrend := s.curTrend-1} else s
  else if key=keyDown then
    if s.curTrend.toNat+1<s.store.trCnt.toNat then {s with curTrend := s.curTrend+1} else s
  else s

/-- delete_trend_info_menu, without the drawing. -/
def deleteTrendInfoMenu (s : ConfigUi) (key : UInt16) : ConfigUi :=
  {if key≠s.deleteKey then deleteTrendKey s key else s with deleteKey := kept key}

/-! ## trend_config_menu.c -/

/-- trend_config_menu, without the drawing. -/
def trendConfigMenu (s : ConfigUi) (key : UInt16) : ConfigUi :=
  if key=key1 then s.select .trendInfo
  else if key=key2 then (initAddTrendMenu s).select .addTrend
  else if key=key3 then ConfigUi.select {s with edit := initEditTrendMenu s.edit} .editTrend
  else if key=key4 then (initDeleteTrendInfoMenu s).select .deleteTrend
  else if key=keyLeft then s.select .config
  else s

/-! ## Power-up -/

/-- What init_trends loads from the registers. -/
def loadTrends (bpr : ℕ → UInt32) : TrendStore :=
  let trCnt := (bpr 7).toUInt8
  let tr0 := loadParams bpr 8 getNewTrend
  let tr1 := loadParams bpr 11 getNewTrend
  let tr2 := loadParams bpr 14 getNewTrend
  let tr0 := checkInpNum tr2.inpNum (checkInpNum tr1.inpNum (checkInpNum tr0.inpNum tr0))
  {
    trends := fun i => if i=0 then tr0 else if i=1 then tr1 else tr2
    trCnt := if trCnt.toNat>trendMaxCnt then 3 else trCnt
    bpr := bpr }

/-- init_trends initialises registers that are not marked and loads them. -/
theorem initTrends_eq (bpr : ℕ → UInt32) : initTrends bpr=
    loadTrends (if bpr 6≠0x1234 then bprDataWrites bpr defaultWrites else bpr) := rfl

/-- The registers as init_trends leaves them. Whether it can write them is a
parameter: main calls it before init_cur_time, which calls
pwc_battery_powered_domain_access. -/
def initRegisters (access : Bool) (bpr : ℕ → UInt32) : ℕ → UInt32 :=
  if access=true ∧ bpr 6≠0x1234 then bprDataWrites bpr defaultWrites else bpr

/-- The registers as init_cur_time leaves them: it resets the battery-powered
domain when the mark of the clock is missing. -/
def initCurTime (bpr : ℕ → UInt32) : ℕ → UInt32 :=
  if bpr 1≠0x1234 then Function.update (fun _ => 0) 1 0x1234 else bpr

/-- init_trends and init_cur_time in the order of main. -/
def boot (access : Bool) (bpr : ℕ → UInt32) : TrendStore :=
  {loadTrends (initRegisters access bpr) with bpr := initCurTime (initRegisters access bpr)}

/-- Registers that can be written are those of init_trends. -/
theorem boot_access (bpr : ℕ → UInt32) :
    boot true bpr={initTrends bpr with bpr := initCurTime (initTrends bpr).bpr} := by
  unfold boot initRegisters
  rw [initTrends_eq]
  simp only [true_and]
  rfl

/-- The variables after power-up. -/
def start (access : Bool) (bpr : ℕ → UInt32) : ConfigUi where
  edit := {TrendEdit.start bpr with store := boot access bpr}
  tr := zeroTrend
  fields := ⟨fun _ => ⟨0,0,0,0,.devAddr,0⟩,1⟩
  addKey := 0
  curTrend := 0
  deleteKey := 0

/-! ## Runs -/

/-- What happens to the configuration. -/
inductive ConfigOp where
  /-- Another screen or a datagram selects a screen. -/
  | select (menu : MenuList)
  /-- The current screen is shown for a key. -/
  | key (key : UInt16)
  /-- The CAN interrupt delivers a value of an analogue input. -/
  | point (curLongTime : UInt32) (nodeAddr inpNum value : UInt8)
  /-- A register of the password or the network address is written. -/
  | otherData (dt : ℕ) (data : UInt32)
  /-- The panel is switched off and on. -/
  | reboot

/-- The screens that trend_config_menu alone opens. -/
def IsTrendScreen (menu : MenuList) : Prop := menu=.addTrend ∨ menu=.editTrend ∨ menu=.deleteTrend

instance (menu : MenuList) : Decidable (IsTrendScreen menu) := inferInstanceAs (Decidable (_ ∨ _))

/-- The registers of the clock and of the trends. -/
def IsTrendData (dt : ℕ) : Prop := dt=1 ∨ 6≤dt ∧ dt≤16

instance (dt : ℕ) : Decidable (IsTrendData dt) := inferInstanceAs (Decidable (_ ∨ _))

/-- The current screen for a key. -/
def showKey (s : ConfigUi) (key : UInt16) : ConfigUi :=
  match s.edit.currentMenu with
  | .trendConf => trendConfigMenu s key
  | .addTrend => addTrendMenu s key
  | .editTrend => {s with edit := editTrendMenu s.edit key}
  | .deleteTrend => deleteTrendInfoMenu s key
  | _ => s

/-- One operation. -/
def configStep (access : Bool) (s : ConfigUi) : ConfigOp → ConfigUi
  | .select menu => if IsTrendScreen menu then s else s.select menu
  | .key key => showKey s key
  | .point curLongTime nodeAddr inpNum value =>
    s.setStore {s.store with
      trends := checkAndAddDataToTrendFromCan s.store.trends curLongTime nodeAddr inpNum value}
  | .otherData dt data =>
    if IsTrendData dt then s
    else s.setStore {s.store with bpr := Function.update s.store.bpr dt data}
  | .reboot => start access s.store.bpr

/-- Operations in order from power-up. -/
def configRun (access : Bool) (bpr : ℕ → UInt32) (ops : List ConfigOp) : ConfigUi :=
  ops.foldl (configStep access) (start access bpr)

theorem configRun_concat (access : Bool) (bpr : ℕ → UInt32) (ops : List ConfigOp) (op : ConfigOp) :
    configRun access bpr (ops++[op])=configStep access (configRun access bpr ops) op := by
  unfold configRun
  rw [List.foldl_append]
  rfl

/-! ## The configured trends as a list -/

/-- The parameters of a trend. -/
def slotParams (trends : ℕ → Trend) (i : ℕ) : Link → UInt8 := fun link => link.get (trends i)

/-- The parameters of the configured trends. -/
def configured (s : TrendStore) : List (Link → UInt8) := entries (slotParams s.trends) s.trCnt.toNat

/-- As many trends with the same parameters in all slots. -/
structure SameConfig (s s' : TrendStore) : Prop where
  /-- tr_cnt. -/
  count : s.trCnt=s'.trCnt
  /-- The parameters of each slot. -/
  params : ∀ i<trendMaxCnt,slotParams s.trends i=slotParams s'.trends i

theorem SameConfig.refl (s : TrendStore) : SameConfig s s := ⟨rfl,fun _ _ => rfl⟩

theorem SameConfig.trans {s s' s'' : TrendStore} (h : SameConfig s s') (h' : SameConfig s' s'') :
    SameConfig s s'' where
  count := h.count.trans h'.count
  params := fun i hi => (h.params i hi).trans (h'.params i hi)

theorem SameConfig.symm {s s' : TrendStore} (h : SameConfig s s') : SameConfig s' s where
  count := h.count.symm
  params := fun i hi => (h.params i hi).symm

/-- The input number is one of the parameters. -/
theorem SameConfig.inpNum {s s' : TrendStore} (h : SameConfig s s') {i : ℕ} (hi : i<trendMaxCnt) :
    (s.trends i).inpNum=(s'.trends i).inpNum := congrFun (h.params i hi) .inpNum

/-- The list is read from the slots there are. -/
theorem SameConfig.configured {s s' : TrendStore} (h : SameConfig s s')
    (hcount : s'.trCnt.toNat≤trendMaxCnt) : configured s=configured s' := by
  unfold TrendConfig.configured
  rw [h.count]
  exact entries_congr fun i hi => h.params i (by omega)

/-- The operation adds the trend that was entered. -/
def Adds (s : ConfigUi) (op : ConfigOp) : Prop :=
  s.edit.currentMenu=.addTrend ∧ s.store.trCnt.toNat<trendMaxCnt ∧
    (op=.key keyDown ∨ op=.key keyEnter)

/-- The operation deletes the trend that is chosen. -/
def Deletes (s : ConfigUi) (op : ConfigOp) : Prop :=
  s.edit.currentMenu=.deleteTrend ∧ keyEnter≠s.deleteKey ∧ op=.key keyEnter

/-- The operation confirms the edited trends. -/
def Edits (s : ConfigUi) (op : ConfigOp) : Prop := ∃ key,op=.key key ∧ Confirms s.edit key

theorem Edits.menu {s : ConfigUi} {op : ConfigOp} (h : Edits s op) :
    s.edit.currentMenu=.editTrend := by
  obtain ⟨key,_,hc⟩ := h
  exact hc.1

/-- What an operation does to the configured trends and to their slots. -/
structure Meets (s : ConfigUi) (op : ConfigOp) (s' : ConfigUi) : Prop where
  /-- There are as many trends as slots at most. -/
  count : s'.store.trCnt.toNat≤trendMaxCnt
  /-- An added trend stands behind the others. -/
  adds : Adds s op → configured s'.store=configured s.store++[fun link => link.get s.tr]
  /-- The trend to be deleted is one of those there are. -/
  chosen : Deletes s op → configured s.store≠[] → s.curTrend.toNat<(configured s.store).length
  /-- A deleted trend is removed, and the others keep their order. -/
  deletes : Deletes s op →
    configured s'.store=(configured s.store).eraseIdx s.curTrend.toNat
  /-- Edited trends replace those there were. -/
  edits : Edits s op → s'.store.trCnt=s.store.trCnt ∧
    ∀ i<trendMaxCnt,slotParams s'.store.trends i=slotParams s.edit.tmpTrends i
  /-- No other operation changes a parameter of a slot, and no reboot does. -/
  others : ¬Adds s op → ¬Deletes s op → ¬Edits s op → SameConfig s'.store s.store

end BT816Display.TrendConfig
