import BT816Display.Keys
import BT816Display.PasswordStore
import BT816Display.UdpLoader

/-!
# The screens of the panel

Each screen is a function of the key pressed that may select the next screen.
One of them asks for a password on behalf of three others. The loader's
datagrams select a screen too, and can come while a screen is being drawn.
-/

namespace BT816Display.Menu

open ByteMemory BigEndian Keys PasswordStore

/-- menu_list_t. -/
inductive MenuList where
  /-- MENU_STATE. -/
  | state
  /-- MENU_MAIN. -/
  | main
  /-- MENU_APPL_INFO. -/
  | applInfo
  /-- MENU_CLUST_INFO. -/
  | clustInfo
  /-- MENU_ALARM_LIST. -/
  | alarmList
  /-- MENU_PASSWD. -/
  | passwd
  /-- MENU_CLR_ALARMS. -/
  | clrAlarms
  /-- MENU_DIAGNOSTIC. -/
  | diagnostic
  /-- MENU_DIAGNOSTIC2. -/
  | diagnostic2
  /-- MENU_PC21_STATE. -/
  | pc21State
  /-- MENU_CROSS_REF. -/
  | crossRef
  /-- MENU_GLOB_INT. -/
  | globInt
  /-- MENU_GLOB_BITS. -/
  | globBits
  /-- MENU_CONFIG. -/
  | config
  /-- MENU_SET_TIME. -/
  | setTime
  /-- MENU_SYS_CFG. -/
  | sysCfg
  /-- MENU_EDIT_VAR. -/
  | editVar
  /-- MENU_PROG. -/
  | prog
  /-- MENU_TREND_CONF. -/
  | trendConf
  /-- MENU_ADD_TREND. -/
  | addTrend
  /-- MENU_TREND_INFO. -/
  | trendInfo
  /-- MENU_DELETE_TREND. -/
  | deleteTrend
  /-- MENU_EDIT_TREND. -/
  | editTrend
  /-- MENU_DRAW_TREND. -/
  | drawTrend
  /-- MENU_HELP. -/
  | help
  /-- MENU_PC21. -/
  | pc21
  /-- MENU_MNEMO. -/
  | mnemo
  /-- MENU_MANAGE. -/
  | manage
  /-- MENU_DIAGN. -/
  | diagn
  /-- MENU_DI. -/
  | di
  /-- MENU_DO. -/
  | do_
  /-- MENU_AI. -/
  | ai
  /-- MENU_CLUST_BITS. -/
  | clustBits
  /-- MENU_NET_BITS. -/
  | netBits
  /-- MENU_CLUST_REGS. -/
  | clustRegs
  /-- MENU_NET_REGS. -/
  | netRegs
  /-- MENU_EDIT_U16. -/
  | editU16
  /-- MENU_IP_CONFIG. -/
  | ipConfig
  /-- MENU_IP_SET. -/
  | ipSet
  deriving DecidableEq

/-- CLR_ALARM_LIST. -/
abbrev clrAlarmList : UInt16 := 1

/-- CONFIG_ACCESS. -/
abbrev configAccess : UInt16 := 2

/-- PASSWORD_SET1. -/
abbrev passwordSet1 : UInt16 := 3

/-- PASSWORD_SET2. -/
abbrev passwordSet2 : UInt16 := 4

/-- The variables that decide which screen is shown and what it may do. -/
structure Ui where
  /-- current_menu. -/
  currentMenu : MenuList
  /-- prog_mode_flag. -/
  progModeFlag : UInt8
  /-- prog_menu_cmd. -/
  progMenuCmd : UInt8
  /-- The static prev_key of each screen that has one. -/
  prevKey : MenuList → UInt16
  /-- cmd of password_menu.c. -/
  cmd : UInt16
  /-- The password and where it is saved. -/
  store : Store
  /-- tmp_passwd. -/
  tmpPasswd : Mem UInt8
  /-- new_passwd. -/
  newPasswd : Mem UInt8
  /-- pos of password_menu.c. -/
  pos : ℕ

/-- What the screens read that other tasks write. -/
structure Env where
  /-- used_plc[0] is set and plc_type[0] is PC21_1. -/
  pc21Used : Bool
  /-- var_cnt of the variables shown. -/
  varCnt : ℕ

/-- What a screen does besides showing and selecting screens. -/
inductive Effect where
  /-- set_passwd_cmd. -/
  | setPasswdCmd (value : UInt16)
  /-- passwd_menu takes a digit. -/
  | digit (d : UInt8)
  /-- set_passwd_value. -/
  | setPasswdValue (ds : List UInt8)
  /-- clear_archive. -/
  | clearArchive
  /-- write_var_to_plc. -/
  | writeVarToPlc
  deriving DecidableEq

/-- What a screen leaves: its variables, the screen it assigns to
current_menu last, and its effects. -/
structure Outcome where
  /-- The variables without that assignment. -/
  ui : Ui
  /-- The screen assigned, if any. -/
  target : Option MenuList
  /-- The effects in order. -/
  effects : List Effect

/-- Nothing is selected. -/
def stay (s : Ui) : Outcome := ⟨s,none,[]⟩

/-- A screen is selected. -/
def go (s : Ui) (menu : MenuList) : Outcome := ⟨s,some menu,[]⟩

/-! ## Password -/

/-- user_password. -/
def userPassword : List UInt8 := [1,1,1,1,1,1]

/-- secret_passw. -/
def secretPassw : List UInt8 := [3,4,1,6,7,1]

/-- check_tmp_passwd. -/
def checkTmpPasswd (s : Ui) : Bool :=
  let res :=
    if s.cmd=clrAlarmList then decide (userPassword=load s.tmpPasswd 0 6)
    else decide (load s.store.passwd 0 6=load s.tmpPasswd 0 6)
  if res=false then decide (secretPassw=load s.tmpPasswd 0 6) else res

/-- clear_tmp_password. -/
def clearTmpPassword (s : Ui) : Ui :=
  {s with
    tmpPasswd := fun _ => 0
    pos := 0
    prevKey := Function.update s.prevKey .passwd 0}

/-- set_passwd_cmd. -/
def setPasswdCmd (s : Ui) (value : UInt16) : Ui := clearTmpPassword {s with cmd := value}

/-- A screen asks for a password. -/
def askPassword (s : Ui) (value : UInt16) : Outcome :=
  ⟨setPasswdCmd s value,some .passwd,[.setPasswdCmd value]⟩

/-- A digit goes into tmp_passwd. -/
def enterDigit (s : Ui) (d : UInt8) : Ui :=
  {s with tmpPasswd := store s.tmpPasswd s.pos [d],pos := s.pos+1}

/-- The switch of passwd_menu. -/
def passwdKey (s : Ui) (key : UInt16) : Outcome :=
  if key=keyLeft then go {s with cmd := 0} .main
  else
    match digit key with
    | some d => if s.prevKey .passwd≠key then ⟨enterDigit s d,none,[.digit d]⟩ else stay s
    | none => stay s

/-- Six digits have been entered. -/
def passwdFull (o : Outcome) : Outcome :=
  let s := o.ui
  if s.cmd=passwordSet1 then
    {o with
      ui := {s with
        newPasswd := store s.newPasswd 0 (load s.tmpPasswd 0 6)
        cmd := passwordSet2
        pos := 0}}
  else if s.cmd=passwordSet2 then
    if load s.newPasswd 0 6=load s.tmpPasswd 0 6 then
      ⟨{s with store := PasswordStore.setPasswdValue s.store s.newPasswd,pos := 0},some .config,
        o.effects++[.setPasswdValue (load s.newPasswd 0 6)]⟩
    else {o with ui := {s with cmd := passwordSet1,pos := 0}}
  else if checkTmpPasswd s=true then
    let s' := {s with cmd := 0,pos := 0}
    if s.cmd=clrAlarmList then ⟨s',some .main,o.effects++[.clearArchive]⟩
    else if s.cmd=configAccess then ⟨s',some .config,o.effects⟩
    else ⟨s',some .main,o.effects⟩
  else {o with ui := clearTmpPassword s}

/-- passwd_menu. -/
def passwdMenu (s : Ui) (key : UInt16) : Outcome :=
  let o := passwdKey s key
  let o := if o.ui.pos≥6 then passwdFull o else o
  {o with ui := {o.ui with prevKey := Function.update o.ui.prevKey .passwd (kept key)}}

/-! ## Other screens -/

/-- A screen that one key leaves. -/
def onLeft (menu : MenuList) (s : Ui) (key : UInt16) : Outcome :=
  if key=keyLeft then go s menu else stay s

/-- A screen that looks at a key only when it is not its prev_key. -/
def onNewKey (screen : MenuList) (prev : UInt16 → UInt16) (f : Ui → UInt16 → Outcome) (s : Ui)
    (key : UInt16) : Outcome :=
  let o := if key≠s.prevKey screen then f s key else stay s
  {o with ui := {o.ui with prevKey := Function.update o.ui.prevKey screen (prev key)}}

/-- The program mode is entered. -/
def goProg (s : Ui) : Outcome := go {s with progModeFlag := 1,progMenuCmd := 1} .prog

/-- state_menu; its prev_key has sixteen bits. -/
def stateMenu : Ui → UInt16 → Outcome :=
  onNewKey .state id fun s key =>
    if key=key0 then goProg s
    else if key=keyRight ∨ key=keyEnter ∨ key=keyExit then go s .main
    else stay s

/-- main_menu. -/
def mainMenu (s : Ui) (key : UInt16) : Outcome :=
  if key=key1 then go s .applInfo
  else if key=key2 then go s .clustInfo
  else if key=key3 then go s .alarmList
  else if key=key4 then go s .diagnostic
  else if key=key5 then askPassword s configAccess
  else if key=key6 then go s .drawTrend
  else if key=key7 then go s .mnemo
  else if key=key0 then goProg s
  else if key=keyLeft ∨ key=keyExit then go s .state
  else stay s

/-- appl_info_menu. -/
def applInfoMenu : Ui → UInt16 → Outcome := onLeft .main

/-- cluster_state_menu. -/
def clusterStateMenu : Ui → UInt16 → Outcome := onLeft .main

/-- alarm_info_menu. -/
def alarmInfoMenu (s : Ui) (key : UInt16) : Outcome :=
  if key=keyLeft then go s .main else if key=keyRight then go s .clrAlarms else stay s

/-- clear_alarms_menu. -/
def clearAlarmsMenu : Ui → UInt16 → Outcome :=
  onNewKey .clrAlarms kept fun s key =>
    if key=keyLeft then go s .main
    else if key=keyRight then askPassword s clrAlarmList
    else stay s

/-- diagnostic_menu. -/
def diagnosticMenu (env : Env) : Ui → UInt16 → Outcome :=
  onNewKey .diagnostic kept fun s key =>
    if key=keyLeft then go s .main
    else if key=keyRight then go s .diagnostic2
    else if key=key0 ∧ env.pc21Used=true then go s .pc21State
    else stay s

/-- diagnostic_menu2. -/
def diagnosticMenu2 : Ui → UInt16 → Outcome :=
  onNewKey .diagnostic2 kept fun s key =>
    if key=keyLeft then go s .diagnostic
    else if key=key1 then go s .crossRef
    else if key=key2 then go s .globInt
    else if key=key3 then go s .globBits
    else stay s

/-- pc21_state_menu. -/
def pc21StateMenu : Ui → UInt16 → Outcome := onNewKey .pc21State kept (onLeft .diagnostic)

/-- cross_reference_menu. -/
def crossReferenceMenu : Ui → UInt16 → Outcome := onNewKey .crossRef kept (onLeft .diagnostic2)

/-- global_integers_menu. -/
def globalIntegersMenu : Ui → UInt16 → Outcome := onNewKey .globInt kept (onLeft .diagnostic2)

/-- global_bits_menu. -/
def globalBitsMenu : Ui → UInt16 → Outcome := onNewKey .globBits kept (onLeft .diagnostic2)

/-- config_menu. -/
def configMenu (s : Ui) (key : UInt16) : Outcome :=
  if key=keyLeft then go s .main
  else if key=key1 then go s .sysCfg
  else if key=key2 then go s .setTime
  else if key=key3 then go s .trendConf
  else if key=key4 then askPassword s passwordSet1
  else if key=key5 then go s .ipConfig
  else stay s

/-- set_time_menu. -/
def setTimeMenu (s : Ui) (key : UInt16) : Outcome :=
  if key=keyLeft ∨ key=keyEnter then go s .config else stay s

/-- system_confug_menu. -/
def systemConfugMenu (env : Env) (s : Ui) (key : UInt16) : Outcome :=
  if key=keyLeft then go s .config
  else if (key=keyRight ∨ key=keyEnter) ∧ env.varCnt≠0 then go s .editVar
  else stay s

/-- edit_var_menu. -/
def editVarMenu (s : Ui) (key : UInt16) : Outcome :=
  if key=keyLeft then go s .sysCfg
  else if key=keyEnter then ⟨s,some .sysCfg,[.writeVarToPlc]⟩
  else stay s

/-- prog_menu. -/
def progMenu (s : Ui) (key : UInt16) : Outcome :=
  let s := {s with progMenuCmd := 0}
  if key=keyLeft ∨ key=keyEnter ∨ key=keyExit then go {s with progModeFlag := 0} .main else stay s

/-- trend_config_menu. -/
def trendConfigMenu (s : Ui) (key : UInt16) : Outcome :=
  if key=key1 then go s .trendInfo
  else if key=key2 then go s .addTrend
  else if key=key3 then go s .editTrend
  else if key=key4 then go s .deleteTrend
  else if key=keyLeft then go s .config
  else stay s

/-- add_trend_menu; it leaves by the same keys whether there is room for a trend or not. -/
def addTrendMenu (s : Ui) (key : UInt16) : Outcome :=
  if key=keyLeft ∨ key=keyExit ∨ key=keyDown ∨ key=keyEnter then go s .trendConf else stay s

/-- trend_info_menu. -/
def trendInfoMenu : Ui → UInt16 → Outcome :=
  onNewKey .trendInfo kept fun s key =>
    if key=keyLeft ∨ key=keyEnter ∨ key=keyExit then go s .trendConf else stay s

/-- delete_trend_info_menu. -/
def deleteTrendInfoMenu : Ui → UInt16 → Outcome :=
  onNewKey .deleteTrend kept fun s key =>
    if key=keyLeft ∨ key=keyExit then go s .trendConf else stay s

/-- edit_trend_menu. -/
def editTrendMenu : Ui → UInt16 → Outcome :=
  onNewKey .editTrend kept fun s key =>
    if key=keyLeft ∨ key=keyEnter ∨ key=keyExit then go s .trendConf else stay s

/-- draw_trend_menu. -/
def drawTrendMenu : Ui → UInt16 → Outcome :=
  onNewKey .drawTrend kept fun s key =>
    if key=keyLeft ∨ key=keyEnter ∨ key=keyExit then go s .main else stay s

/-- help_menu. -/
def helpMenu : Ui → UInt16 → Outcome := onLeft .main

/-- pc21_menu. -/
def pc21Menu : Ui → UInt16 → Outcome := onLeft .main

/-- mnemo_menu. -/
def mnemoMenu : Ui → UInt16 → Outcome := onLeft .main

/-- manage_menu. -/
def manageMenu (env : Env) (s : Ui) (key : UInt16) : Outcome :=
  if key=keyLeft then go s .main
  else if key=keyRight ∧ env.varCnt≠0 then go s .editU16
  else stay s

/-- diagn_menu. -/
def diagnMenu (s : Ui) (key : UInt16) : Outcome :=
  if key=key1 then go s .di
  else if key=key2 then go s .ai
  else if key=key3 then go s .do_
  else if key=key4 then go s .clustBits
  else if key=key5 then go s .netBits
  else if key=key6 then go s .clustRegs
  else if key=key7 then go s .netRegs
  else if key=keyLeft then go s .main
  else stay s

/-- di_menu. -/
def diMenu : Ui → UInt16 → Outcome := onLeft .diagn

/-- do_menu. -/
def doMenu : Ui → UInt16 → Outcome := onLeft .diagn

/-- ai_menu. -/
def aiMenu : Ui → UInt16 → Outcome := onLeft .diagn

/-- clust_bits_menu. -/
def clustBitsMenu : Ui → UInt16 → Outcome := onLeft .diagn

/-- net_bits_menu. -/
def netBitsMenu : Ui → UInt16 → Outcome := onLeft .diagn

/-- clust_regs_menu. -/
def clustRegsMenu : Ui → UInt16 → Outcome := onLeft .diagn

/-- net_regs_menu. -/
def netRegsMenu : Ui → UInt16 → Outcome := onLeft .diagn

/-- edit_u16_menu. -/
def editU16Menu (s : Ui) (key : UInt16) : Outcome :=
  if key=keyLeft then go s .manage
  else if key=keyRight then ⟨s,some .manage,[.writeVarToPlc]⟩
  else stay s

/-- ip_config_menu. -/
def ipConfigMenu (s : Ui) (key : UInt16) : Outcome :=
  if key=keyLeft then go s .config
  else if key=key1 ∨ key=key2 ∨ key=key3 then go s .ipSet
  else stay s

/-- ip_set_menu. -/
def ipSetMenu (s : Ui) (key : UInt16) : Outcome :=
  if key=keyExit ∨ key=keyEnter then go s .ipConfig else stay s

/-- screen. -/
def screen (env : Env) : MenuList → Ui → UInt16 → Outcome
  | .state => stateMenu
  | .main => mainMenu
  | .applInfo => applInfoMenu
  | .clustInfo => clusterStateMenu
  | .alarmList => alarmInfoMenu
  | .passwd => passwdMenu
  | .clrAlarms => clearAlarmsMenu
  | .diagnostic => diagnosticMenu env
  | .diagnostic2 => diagnosticMenu2
  | .pc21State => pc21StateMenu
  | .crossRef => crossReferenceMenu
  | .globInt => globalIntegersMenu
  | .globBits => globalBitsMenu
  | .config => configMenu
  | .setTime => setTimeMenu
  | .sysCfg => systemConfugMenu env
  | .editVar => editVarMenu
  | .prog => progMenu
  | .trendConf => trendConfigMenu
  | .addTrend => addTrendMenu
  | .trendInfo => trendInfoMenu
  | .deleteTrend => deleteTrendInfoMenu
  | .editTrend => editTrendMenu
  | .drawTrend => drawTrendMenu
  | .help => helpMenu
  | .pc21 => pc21Menu
  | .mnemo => mnemoMenu
  | .manage => manageMenu env
  | .diagn => diagnMenu
  | .di => diMenu
  | .do_ => doMenu
  | .ai => aiMenu
  | .clustBits => clustBitsMenu
  | .netBits => netBitsMenu
  | .clustRegs => clustRegsMenu
  | .netRegs => netRegsMenu
  | .editU16 => editU16Menu
  | .ipConfig => ipConfigMenu
  | .ipSet => ipSetMenu

/-! ## Runs -/

/-- The loader's datagrams that select a screen. -/
inductive UdpCommand where
  /-- Command 0x03. -/
  | setProgramMode
  /-- Command 0x04. -/
  | leaveProgramMode
  deriving DecidableEq

/-- A datagram of the loader. -/
def udp (s : Ui) : UdpCommand → Ui
  | .setProgramMode => {s with progModeFlag := 1,progMenuCmd := 1,currentMenu := .prog}
  | .leaveProgramMode => {s with progModeFlag := 0,currentMenu := .state}

/-- Several datagrams. -/
def udpAll (s : Ui) (commands : List UdpCommand) : Ui := commands.foldl udp s

/-- display_menu with datagrams that come while the screen is shown: some after
it has been looked up, and some right before it assigns current_menu. -/
def displayMenu (s : Ui) (env : Env) (key : UInt16) (early late : List UdpCommand) :
    Ui×List Effect :=
  let o := screen env s.currentMenu (udpAll s early) key
  let s := udpAll o.ui late
  match o.target with
  | some menu => ({s with currentMenu := menu},o.effects)
  | none => (s,o.effects)

/-- What happens to the screens. -/
inductive UiOp where
  /-- A screen is shown for a key, with datagrams meanwhile. -/
  | display (key : UInt16) (env : Env) (early late : List UdpCommand)
  /-- A datagram comes between two screens. -/
  | datagram (command : UdpCommand)

/-- Execute one operation. -/
def uiStep (s : Ui) : UiOp → Ui×List Effect
  | .display key env early late => displayMenu s env key early late
  | .datagram command => (udp s command,[])

/-- The digits entered since the last set_passwd_cmd, after one more effect. -/
def enteredAfter (ds : List UInt8) : Effect → List UInt8
  | .setPasswdCmd _ => []
  | .digit d => ds++[d]
  | _ => ds

/-- The variables with the digits entered since the last set_passwd_cmd. -/
structure UiRun where
  /-- The variables. -/
  ui : Ui
  /-- The digits. -/
  entered : List UInt8

/-- Execute one operation of a run. -/
def uiRunStep (r : UiRun) (op : UiOp) : UiRun :=
  ⟨(uiStep r.ui op).1,(uiStep r.ui op).2.foldl enteredAfter r.entered⟩

/-- Execute a sequence of operations. -/
def uiRun (s₀ : Ui) (ops : List UiOp) : UiRun := ops.foldl uiRunStep ⟨s₀,[]⟩

@[simp] theorem uiRun_concat (s₀ : Ui) (ops : List UiOp) (op : UiOp) :
    uiRun s₀ (ops++[op])=uiRunStep (uiRun s₀ ops) op := List.foldl_concat ..

/-! ## Datagrams -/

/-- The screens as the loader tells them apart. -/
def loaderMenu : MenuList → UdpLoader.MenuList
  | .state => .state
  | .prog => .prog
  | _ => .other

/-- The loader and the screens see the same variables. -/
structure SameScreen (l : UdpLoader.Loader) (s : Ui) : Prop where
  /-- current_menu. -/
  menu : l.currentMenu=loaderMenu s.currentMenu
  /-- prog_mode_flag. -/
  flag : l.progModeFlag=s.progModeFlag
  /-- prog_menu_cmd. -/
  cmd : l.progMenuCmd=s.progMenuCmd

/-- The command of a datagram that selects a screen, if it is one. -/
def udpCommand (rx : Mem UInt8) : Option UdpCommand :=
  if rx 0≥1 ∧ (rx 1=0x42 ∧ rx 2=0x54) ∧ rx 3=1 then
    if join16 (rx 6) (rx 7)=0x03 then some .setProgramMode
    else if join16 (rx 6) (rx 7)=0x04 then some .leaveProgramMode
    else none
  else none

theorem sameScreen_command {l : UdpLoader.Loader} {s : Ui} (h : SameScreen l s) (rx : Mem UInt8)
    (rxCnt : ℕ) :
    SameScreen (UdpLoader.command l rx rxCnt).loader
      (if join16 (rx 6) (rx 7)=0x03 then udp s .setProgramMode
        else if join16 (rx 6) (rx 7)=0x04 then udp s .leaveProgramMode else s) := by
  unfold UdpLoader.command
  dsimp only
  by_cases h0 : join16 (rx 6) (rx 7)=0x00
  · rw [if_pos h0,if_neg (by rw [h0]; decide),if_neg (by rw [h0]; decide)]
    exact ⟨h.menu,h.flag,h.cmd⟩
  · by_cases h1 : join16 (rx 6) (rx 7)=0x01
    · rw [if_neg h0,if_pos h1,if_neg (by rw [h1]; decide),if_neg (by rw [h1]; decide)]
      unfold UdpLoader.updateFlash
      dsimp only
      split_ifs
      all_goals exact ⟨h.menu,h.flag,h.cmd⟩
    · by_cases h2 : join16 (rx 6) (rx 7)=0x02
      · rw [if_neg h0,if_neg h1,if_pos h2,if_neg (by rw [h2]; decide),if_neg (by rw [h2]; decide)]
        unfold UdpLoader.readFlash
        dsimp only
        split_ifs
        all_goals exact ⟨h.menu,h.flag,h.cmd⟩
      · rw [if_neg h0,if_neg h1,if_neg h2]
        split_ifs
        · exact ⟨rfl,rfl,rfl⟩
        · exact ⟨rfl,rfl,h.cmd⟩
        · exact h

/-- A datagram of any content acts on the screens as its command, or not at all. -/
theorem sameScreen_udpAnswer {l : UdpLoader.Loader} {s : Ui} (h : SameScreen l s) (rx : Mem UInt8)
    (rxCnt : ℕ) :
    SameScreen (UdpLoader.udpAnswer l rx rxCnt).loader (udpAll s (udpCommand rx).toList) := by
  unfold udpCommand
  by_cases hreq : rx 0≥1 ∧ (rx 1=0x42 ∧ rx 2=0x54) ∧ rx 3=1
  · rw [if_pos hreq,UdpLoader.udpAnswer_of_request l hreq]
    have hc := sameScreen_command (l:=(l.answer 0 [0x01,0x42,0x54]).answer 3
      [0x00,rx 4,rx 5,rx 6,rx 7]) ⟨h.menu,h.flag,h.cmd⟩ rx rxCnt
    split_ifs at hc ⊢
    all_goals exact hc
  · rw [if_neg hreq]
    rcases UdpLoader.udpAnswer_of_other l hreq rxCnt with ha|ha
    all_goals
      rw [ha]
      exact ⟨h.menu,h.flag,h.cmd⟩

/-- Datagrams leave the password alone. -/
theorem udpAll_password (s : Ui) (commands : List UdpCommand) :
    (udpAll s commands).cmd=s.cmd ∧ (udpAll s commands).store=s.store ∧
      (udpAll s commands).tmpPasswd=s.tmpPasswd ∧ (udpAll s commands).newPasswd=s.newPasswd ∧
        (udpAll s commands).pos=s.pos ∧ (udpAll s commands).prevKey=s.prevKey := by
  induction commands generalizing s with
  | nil => exact ⟨rfl,rfl,rfl,rfl,rfl,rfl⟩
  | cons c commands ih =>
    have h := ih (udp s c)
    cases c <;> exact h

/-- Datagrams select the state screen or the program screen, or nothing. -/
theorem udpAll_currentMenu (s : Ui) (commands : List UdpCommand) :
    (udpAll s commands).currentMenu=s.currentMenu ∨
      (udpAll s commands).currentMenu=.state ∨ (udpAll s commands).currentMenu=.prog := by
  induction commands generalizing s with
  | nil => exact Or.inl rfl
  | cons c commands ih =>
    rcases ih (udp s c) with h|h
    · right
      cases c
      · exact Or.inr h
      · exact Or.inl h
    · exact Or.inr h

end BT816Display.Menu
