import BT816Display.Keys
import BT816Display.Menu
import BT816Display.TrendData

/-!
# The editor of the trend parameters

edit_trend_menu.c works on a copy of the three trends that it takes when the
screen is opened and writes back whole when the operator confirms. Meanwhile
the CAN interrupt adds points to the stored trends.
-/

namespace BT816Display.TrendEdit

open ByteMemory TrendData Keys
open Menu (MenuList)

/-- The enumeration that names the parameters of a trend. -/
inductive Link where
  /-- DEV_ADDR. -/
  | devAddr
  /-- INP_NUM. -/
  | inpNum
  /-- MIN_WARN. -/
  | minWarn
  /-- MIN_ALARM. -/
  | minAlarm
  /-- MAX_WARN. -/
  | maxWarn
  /-- MAX_ALARM. -/
  | maxAlarm
  deriving DecidableEq

/-- The parameter of a trend. -/
def Link.get (tr : Trend) : Link → UInt8
  | .devAddr => tr.devAddr
  | .inpNum => tr.inpNum
  | .minWarn => tr.minWarn
  | .minAlarm => tr.minAlarm
  | .maxWarn => tr.maxWarn
  | .maxAlarm => tr.maxAlarm

/-- A point leaves the parameters of its trend alone. -/
theorem Link.get_addDataToTrend (tr : Trend) (point : TrendPoint) (link : Link) :
    link.get (addDataToTrend tr point)=link.get tr := by
  unfold addDataToTrend
  dsimp only
  split_ifs <;> cases link <;> rfl

/-- A value from the CAN bus leaves the parameters of the trends alone. -/
theorem Link.get_checkAndAddDataToTrendFromCan (trends : ℕ → Trend) (curLongTime : UInt32)
    (nodeAddr inpNum value : UInt8) (i : ℕ) (link : Link) :
    link.get (checkAndAddDataToTrendFromCan trends curLongTime nodeAddr inpNum value i)=
      link.get (trends i) := by
  unfold checkAndAddDataToTrendFromCan
  split_ifs
  · exact link.get_addDataToTrend _ _
  · rfl

/-- A trend with one parameter changed. -/
def Link.set (tr : Trend) (value : UInt8) : Link → Trend
  | .devAddr => {tr with devAddr := value}
  | .inpNum => {tr with inpNum := value}
  | .minWarn => {tr with minWarn := value}
  | .minAlarm => {tr with minAlarm := value}
  | .maxWarn => {tr with maxWarn := value}
  | .maxAlarm => {tr with maxAlarm := value}

/-- edit_param, without its place on the screen. -/
structure EditParam where
  /-- value. -/
  value : UInt16
  /-- max_val. -/
  maxVal : UInt16
  /-- min_val. -/
  minVal : UInt16
  /-- width, the number of digits. -/
  width : UInt16
  /-- link. -/
  link : Link
  /-- edit_flag. -/
  editFlag : UInt16

/-- PARAM_CNT. -/
abbrev paramCnt : ℕ := 6

/-- The variables of the editor and those it shares. -/
structure EditUi where
  /-- The stored trends. -/
  store : TrendStore
  /-- tmp_trends. -/
  tmpTrends : ℕ → Trend
  /-- cur_trend. -/
  curTrend : UInt8
  /-- params. -/
  params : ℕ → EditParam
  /-- pos, the digit under the cursor. -/
  pos : UInt8
  /-- prev_key. -/
  prevKey : UInt16
  /-- current_menu. -/
  currentMenu : MenuList

/-- The trend that is edited. -/
def EditUi.ptr (s : EditUi) : Trend := s.tmpTrends s.curTrend.toNat

/-- One field of the screen for a trend. -/
def editParam (ptr : Trend) (link : Link) (maxVal minVal width editFlag : UInt16) : EditParam where
  value := (link.get ptr).toUInt16
  maxVal := maxVal
  minVal := minVal
  width := width
  link := link
  editFlag := editFlag

/-- The fields of the screen for a trend. -/
def paramsOf (ptr : Trend) : ℕ → EditParam
  | 0 => editParam ptr .devAddr 255 0 3 1
  | 1 => editParam ptr .inpNum 14 1 2 0
  | 2 => editParam ptr .maxAlarm 255 0 3 0
  | 3 => editParam ptr .maxWarn 255 0 3 0
  | 4 => editParam ptr .minAlarm 255 0 3 0
  | _ => editParam ptr .minWarn 255 0 3 0

/-- update_params_by_trend_num. -/
def updateParamsByTrendNum (s : EditUi) (num : UInt8) : EditUi :=
  if num.toNat≥trendMaxCnt then s else {s with params := paramsOf s.ptr}

/-- init_edit_trend_menu. -/
def initEditTrendMenu (s : EditUi) : EditUi :=
  let s := {s with
    curTrend := 0
    tmpTrends := fun i => if i<trendMaxCnt then s.store.trends i else s.tmpTrends i}
  {updateParamsByTrendNum s s.curTrend with pos := 1}

/-- get_cur_param. -/
def getCurParam (s : EditUi) : ℕ :=
  ((List.range paramCnt).find? fun i => (s.params i).editFlag≠0).getD 0

/-- A field with another edit_flag. -/
def EditUi.setEditFlag (s : EditUi) (i : ℕ) (editFlag : UInt16) : EditUi :=
  {s with params := Function.update s.params i {s.params i with editFlag := editFlag}}

/-- pos_to_right. -/
def posToRight (s : EditUi) : EditUi :=
  let curPar := getCurParam s
  let s := s.setEditFlag curPar 1
  let width := (s.params curPar).width
  let s := if s.pos=0 then {s with pos := 1} else s
  let s := if s.pos.toUInt16>width then {s with pos := width.toUInt8} else s
  if s.pos.toUInt16<width then {s with pos := s.pos+1}
  else
    let s := s.setEditFlag curPar 0
    let curPar := if curPar+1≥paramCnt then 0 else curPar+1
    {s.setEditFlag curPar 1 with pos := 1}

/-- A value with one of its three digits replaced. -/
def putDigit (value : UInt16) (index num : UInt8) : UInt16 :=
  let n0 := if index=0 then num.toUInt16 else value/100
  let n1 := if index=1 then num.toUInt16 else value%100/10
  let n2 := if index=2 then num.toUInt16 else value%10
  n0*100+n1*10+n2

/-- A value between the limits of its field. -/
def clamp (p : EditParam) (value : UInt16) : UInt16 :=
  let value := if value<p.minVal then p.minVal else value
  if value>p.maxVal then p.maxVal else value

/-- update_param_value. -/
def updateParamValue (s : EditUi) (curPar : ℕ) (num : UInt8) : EditUi :=
  if curPar≥paramCnt then s
  else
    let p := s.params curPar
    let index := (3-p.width.toUInt8)+(s.pos-1)
    if index≥3 then s
    else
      let newValue := clamp p (putDigit p.value index num)
      posToRight {s with
        tmpTrends := Function.update s.tmpTrends s.curTrend.toNat
          (p.link.set s.ptr newValue.toUInt8)
        params := Function.update s.params curPar {p with value := newValue}}

/-- What update_data does besides showing the fields. -/
def updateData (s : EditUi) : EditUi :=
  (List.range paramCnt).foldl (fun s i =>
    if (s.params i).editFlag≠0 ∧ s.pos.toUInt16>(s.params i).width then
      {s with pos := (s.params i).width.toUInt8}
    else s) s

/-- A trend with its points cleared. -/
def clearPoints (tr : Trend) : Trend :=
  {tr with point := ByteMemory.store tr.point 0 (List.replicate trendSize blankPoint)}

/-- The cases KEY_LEFT and KEY_ENTER of edit_trend_menu. -/
def confirm (s : EditUi) : EditUi :=
  {s with
    store := saveTrends {s.store with
      trends := fun i => if i<trendMaxCnt then s.tmpTrends i else s.store.trends i}
    tmpTrends := fun i => if i<trendMaxCnt then clearPoints (s.tmpTrends i) else s.tmpTrends i
    currentMenu := .trendConf}

/-- The keys of edit_trend_menu. -/
def editTrendKey (s : EditUi) (key : UInt16) : EditUi :=
  if key=keyLeft ∨ key=keyEnter then confirm s
  else if key=keyExit then {s with currentMenu := .trendConf}
  else if key=keyUp then
    let s := if s.curTrend≠0 then {s with curTrend := s.curTrend-1} else s
    updateParamsByTrendNum s s.curTrend
  else if key=keyDown then
    let s := if s.curTrend.toNat+1<s.store.trCnt.toNat then {s with curTrend := s.curTrend+1} else s
    updateParamsByTrendNum s s.curTrend
  else if key=keyRight then posToRight s
  else
    match digit key with
    | some num => updateParamValue s (getCurParam s) num
    | none => s

/-- edit_trend_menu. -/
def editTrendMenu (s : EditUi) (key : UInt16) : EditUi :=
  let s := if s.store.trCnt≠0 then updateData s else s
  {if key≠s.prevKey then editTrendKey s key else s with prevKey := kept key}

/-! ## Runs -/

/-- What happens while the editor is open. -/
inductive EditEvent where
  /-- The current screen is shown for a key. -/
  | key (key : UInt16)
  /-- The CAN interrupt delivers a value of an analogue input. -/
  | point (curLongTime : UInt32) (nodeAddr inpNum value : UInt8)

/-- What happens to the trends. -/
inductive TrendOp where
  /-- Another screen or a datagram selects a screen. -/
  | select (menu : MenuList)
  /-- KEY_3 in trend_config_menu. -/
  | openEdit
  /-- An event for the editor, or a point at any time. -/
  | edit (event : EditEvent)
  /-- KEY_ENTER or KEY_DOWN in add_trend_menu, with the parameters entered there. -/
  | add (params : Link → UInt8)
  /-- KEY_ENTER in delete_trend_info_menu. -/
  | delete (trendNum : UInt8)

/-- A new trend with parameters. -/
def newTrendWith (params : Link → UInt8) : Trend :=
  {getNewTrend with
    devAddr := params .devAddr
    inpNum := params .inpNum
    minWarn := params .minWarn
    minAlarm := params .minAlarm
    maxWarn := params .maxWarn
    maxAlarm := params .maxAlarm}

/-- One event. -/
def editStep (s : EditUi) : EditEvent → EditUi
  | .key key => if s.currentMenu=.editTrend then editTrendMenu s key else s
  | .point curLongTime nodeAddr inpNum value =>
    {s with store := {s.store with
      trends := checkAndAddDataToTrendFromCan s.store.trends curLongTime nodeAddr inpNum value}}

/-- One operation. -/
def trendStep (s : EditUi) : TrendOp → EditUi
  | .select menu => if menu=.editTrend then s else {s with currentMenu := menu}
  | .openEdit =>
    if s.currentMenu=.trendConf then {initEditTrendMenu s with currentMenu := .editTrend} else s
  | .edit event => editStep s event
  | .add params =>
    if s.currentMenu=.addTrend then
      if s.store.trCnt.toNat≥trendMaxCnt then {s with currentMenu := .trendConf}
      else
        {s with
          store := saveTrends (addTrend s.store (newTrendWith params)).1
          currentMenu := .trendConf}
    else s
  | .delete trendNum =>
    if s.currentMenu=.deleteTrend then
      {s with store := saveTrends (deleteTrend s.store trendNum)}
    else s

/-- A static trend before the program writes it. -/
def zeroTrend : Trend := ⟨fun _ => ⟨0,0⟩,0,0,0,0,0,0,0,0,0⟩

/-- The variables at power-up, with the registers as the battery kept them. -/
def start (bpr : ℕ → UInt32) : EditUi where
  store := initTrends bpr
  tmpTrends := fun _ => zeroTrend
  curTrend := 0
  params := fun _ => ⟨0,0,0,0,.devAddr,0⟩
  pos := 1
  prevKey := 0
  currentMenu := .state

/-- Operations in order from power-up. -/
def trendRun (bpr : ℕ → UInt32) (ops : List TrendOp) : EditUi := ops.foldl trendStep (start bpr)

end BT816Display.TrendEdit
