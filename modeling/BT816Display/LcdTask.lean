import BT816Display.ArchiveText
import BT816Display.ArchiveReboot
import BT816Display.Menu
import BT816Display.MessageList

/-!
# The console of the panel

lcd_task_function scans the messages, shows the selected screen for the key
pressed and clears the archive when a screen asks for it. Two of the screens
are lists: alarm_info_menu shows the archive and state_menu the active
messages, each ten rows at a time. The other tasks are those of `PanelRun`;
the record of a lost link goes into the same archive.

The operations of the other tasks come between any two rounds of the scan. A
round of the scan, a screen and an operation of another task are a step each.
For the archive this is an assumption: add_record_to_archive waits for the
flash before it stores last_rec_ptr, and it is taken not to be called again,
nor the archive shown or cleared, while a call of it waits. So is it for the
state screen, whose lookups are taken to find the same bits.
-/

namespace BT816Display.LcdTask

open ArrayAccess ByteMemory BigEndian Keys MessageArchive MessageConf MessageScanner
open ArchiveText (msgArchCheckFlash)
open PlcData (Val)
open PanelRun (System PanelOp panelStep checkCanRecord)
open Menu (Ui Effect UdpCommand displayMenu udp)

/-- The cases KEY_UP and KEY_DOWN of both lists, for `cnt` entries. -/
def listKey (cnt : ℕ) (first key : UInt16) : UInt16 :=
  if key=keyUp then if first≥10 then first-10 else 0
  else if key=keyDown then if first.toNat+10<cnt then first+10 else first
  else first

/-! ## The list of the archive -/

/-- What the list of the alarm screen shows; a record without a text leaves
its row blank. -/
structure AlarmFrame where
  /-- up_sign. -/
  upSign : Bool
  /-- down_sign. -/
  downSign : Bool
  /-- The records of the rows, from the top. -/
  rows : List ReadRecord

/-- The loop of alarm_info_menu, with the rounds left. -/
def alarmRows (stack : Mem UInt8) (s : Archive) (first cnt : UInt16) : ℕ → ℕ → List ReadRecord
  | 0,_ => []
  | fuel+1,i =>
    if first.toNat+i≥cnt.toNat then []
    else match getRecordWithOffsetFromLast stack (first.toNat+i) s with
      | some rec => rec::alarmRows stack s first cnt fuel (i+1)
      | none => []

/-- alarm_info_menu: what it shows, and first_visible_alarm_num afterwards. -/
def alarmList (stack : Mem UInt8) (s : Archive) (first key : UInt16) : AlarmFrame×UInt16 :=
  let cnt := UInt16.ofNat (getArchiveRecordsCnt stack s)
  let first := if cnt=0 then 0 else first
  let upSign := decide (first≥10)
  let downSign := decide (first.toNat+10<cnt.toNat)
  let first := if first>246 then 246 else first
  (⟨upSign,downSign,alarmRows stack s first cnt 10 0⟩,listKey cnt.toNat first key)

/-! ## The list of the active messages -/

/-- What the list of the state screen shows. -/
structure StateFrame where
  /-- up_sign. -/
  upSign : Bool
  /-- down_sign. -/
  downSign : Bool
  /-- The messages of the rows with their names, from the top. -/
  rows : List (BitMessageConf×Option (List UInt8))
  /-- The text for a system in order. -/
  systemOk : Bool

section

variable (flash : Mem UInt8) (vars : ConfigVars)

/-- The loop of state_menu, with the rounds left. -/
def messageRows (cl : Arrays Val) (first : UInt16) :
    ℕ → ℕ → Messages → Scan (Messages×List (BitMessageConf×Option (List UInt8)))
  | 0,_,msgConf => return (msgConf,[])
  | fuel+1,i,msgConf => do
    let found ← getMessageByNumber cl flash vars (UInt8.ofNat (i+first.toNat)) msgConf
    match found.2 with
    | some message =>
      let rest ← messageRows cl first fuel (i+1) found.1
      return (rest.1,message::rest.2)
    | none => return (found.1,[])

/-- The rows, when a message is active. -/
def shownMessages (cl : Arrays Val) (first : UInt16) (cnt : UInt8) (msgConf : Messages) :
    Scan (Messages×List (BitMessageConf×Option (List UInt8))) :=
  if cnt≠0 then messageRows flash vars cl first 10 0 msgConf else return (msgConf,[])

/-- The first row as it is shown. -/
def stateFirst (first : UInt16) (cnt : UInt8) : UInt16 :=
  let first := if first>53 then 53 else first
  if cnt=0 then 0 else first

/-- state_menu: what it shows, and first_visible_message_num afterwards. -/
def stateList (cl : Arrays Val) (plcCanLink : UInt8) (prevKey first key : UInt16)
    (msgConf : Messages) : Scan (Messages×StateFrame×UInt16) := do
  let active ← getActiveMessagesCnt cl msgConf
  let cnt := active.2.toUInt8
  let upSign := decide (first≥10)
  let downSign := decide (first.toNat+10<cnt.toNat)
  let shown ← shownMessages flash vars cl (stateFirst first cnt) cnt active.1
  return (shown.1,⟨upSign,downSign,shown.2,decide (cnt=0 ∧ plcCanLink≠0)⟩,
    if key≠prevKey then listKey cnt.toNat (stateFirst first cnt) key else stateFirst first cnt)

end

/-! ## The task -/

/-- The panel as lcd_task_function and the other tasks share it. -/
structure Console where
  /-- The variables of the other tasks. -/
  system : System
  /-- msg_conf. -/
  msgConf : Messages
  /-- The archive. -/
  archive : Archive
  /-- The variables of the screens. -/
  ui : Ui
  /-- first_visible_alarm_num. -/
  firstVisibleAlarmNum : UInt16
  /-- first_visible_message_num. -/
  firstVisibleMessageNum : UInt16
  /-- prev_key of lcd_task_function. -/
  prevKey : UInt16

/-- What a round of the task finds when it shows a screen. -/
structure Frame where
  /-- The result of get_pressed_keys. -/
  key : UInt16
  /-- The variables of other tasks that the screens read. -/
  menuEnv : Menu.Env
  /-- Datagrams that come when the screen has been looked up. -/
  early : List UdpCommand
  /-- Datagrams that come before the screen selects the next one. -/
  late : List UdpCommand
  /-- The clock and the stack that the archive finds. -/
  env : Env

/-- key_cmd: a key counts once, when it comes down. -/
def Console.keyCmd (c : Console) (f : Frame) : UInt16 :=
  if f.key≠0 ∧ f.key≠c.prevKey then f.key else 0

/-- init_state_menu for a datagram that leaves the program mode. -/
def restarted (commands : List UdpCommand) (first : UInt16) : UInt16 :=
  if .leaveProgramMode∈commands then 0 else first

/-- Records passed to add_record_to_archive one after another. -/
def addAll (records : List (Env×MessageRecord)) (s : Archive) : Archive :=
  records.foldl (fun s a => addRecordToArchive a.1 a.2 s) s

section

variable (flash : Mem UInt8) (vars : ConfigVars)

/-- state_menu on the variables of the console. -/
def Console.stateMenu (c : Console) (f : Frame) : Messages×StateFrame×UInt16 :=
  (stateList flash vars c.system.panel.arrays c.system.panel.plcCanLink (c.ui.prevKey .state)
    (restarted f.early c.firstVisibleMessageNum) (c.keyCmd f) c.msgConf).value

/-- alarm_info_menu on the variables of the console. -/
def Console.alarmInfoMenu (c : Console) (f : Frame) : AlarmFrame×UInt16 :=
  alarmList f.env.stack c.archive c.firstVisibleAlarmNum (c.keyCmd f)

/-- first_visible_alarm_num behind the screen shown: main_menu starts the list
that it selects at its top. -/
def Console.nextAlarmNum (c : Console) (f : Frame) : UInt16 :=
  if c.ui.currentMenu=.alarmList then (c.alarmInfoMenu f).2
  else if c.ui.currentMenu=.main ∧ c.keyCmd f=key3 then 0
  else c.firstVisibleAlarmNum

/-- first_visible_message_num behind the screen shown. -/
def Console.nextMessageNum (c : Console) (f : Frame) : UInt16 :=
  if c.ui.currentMenu=.state then (c.stateMenu flash vars f).2.2
  else if c.ui.currentMenu=.main ∧ (c.keyCmd f=keyLeft ∨ c.keyCmd f=keyExit) then 0
  else restarted f.early c.firstVisibleMessageNum

/-- The screens and what they ask for. -/
def Console.menu (c : Console) (f : Frame) : Ui×List Effect :=
  displayMenu c.ui f.menuEnv (c.keyCmd f) f.early f.late

/-- The part of a round of lcd_task_function behind scan_messages. -/
def display (c : Console) (f : Frame) : Console :=
  let r := c.menu f
  {c with
    msgConf := if c.ui.currentMenu=.state then (c.stateMenu flash vars f).1 else c.msgConf
    archive := if .clearArchive∈r.2 then clearArchive f.env c.archive else c.archive
    ui := r.1
    firstVisibleAlarmNum := c.nextAlarmNum f
    firstVisibleMessageNum := restarted f.late (c.nextMessageNum flash vars f)
    prevKey := f.key}

/-- What happens to the console. -/
inductive ConsoleOp where
  /-- An operation of another task; `env` is for the record that it may add. -/
  | panel (env : Env) (op : PanelOp)
  /-- A round of the loop of scan_messages, and what it finds. -/
  | scan (i : Fin maxMsgCnt) (env : Env) (time : UInt32) (stack : Mem UInt8)
  /-- The rest of a round of lcd_task_function. -/
  | display (f : Frame)
  /-- A datagram between two screens. -/
  | datagram (command : UdpCommand)

/-- What a round of scan_messages finds. -/
def Console.seen (c : Console) (time : UInt32) (stack : Mem UInt8) : Seen :=
  ⟨c.system.panel.arrays,fun _ => time,fun _ => stack⟩

/-- A round of scan_messages, with the archive that takes its record. -/
def scan (c : Console) (i : Fin maxMsgCnt) (env : Env) (time : UInt32) (stack : Mem UInt8) :
    Console :=
  let r := scanMessage (c.seen time stack) i (c.msgConf i)
  {c with
    msgConf := Function.update c.msgConf i r.value
    archive := addAll (r.commands.map fun x => (env,x.2)) c.archive}

@[simp] theorem scan_msgConf (c : Console) (i : Fin maxMsgCnt) (env : Env) (time : UInt32)
    (stack : Mem UInt8) : (scan c i env time stack).msgConf=
      Function.update c.msgConf i (scanMessage (c.seen time stack) i (c.msgConf i)).value := rfl

@[simp] theorem scan_archive (c : Console) (i : Fin maxMsgCnt) (env : Env) (time : UInt32)
    (stack : Mem UInt8) : (scan c i env time stack).archive=
      addAll ((scanMessage (c.seen time stack) i (c.msgConf i)).commands.map fun x => (env,x.2))
        c.archive := rfl

/-- One operation, with no result behind an array index out of bounds. -/
def consoleStep (c : Console) : ConsoleOp → Option Console
  | .panel env op => (panelStep c.system op).map fun system => {c with
      system := system
      archive := addAll ((system.records.drop c.system.records.length).map (env,·)) c.archive}
  | .scan i env time stack => some (scan c i env time stack)
  | .display f => some (display flash vars c f)
  | .datagram command => some {c with
      ui := udp c.ui command
      firstVisibleMessageNum := restarted [command] c.firstVisibleMessageNum}

/-- Operations in order. -/
def consoleRun (c : Console) (ops : List ConsoleOp) : Option Console :=
  ops.foldlM (consoleStep flash vars) c

/-- Rounds of the scan with nothing between them are the loop of scan_messages. -/
theorem scan_rounds (c : Console) (l : List (Fin maxMsgCnt)) (env : ℕ → Env) (time : ℕ → UInt32)
    (stack : ℕ → Mem UInt8) :
    consoleRun flash vars c (l.map fun i => .scan i (env i) (time i) (stack i))=
      let r := Traced.rows (scanMessage ⟨c.system.panel.arrays,time,stack⟩) (l.map Fin.val) c.msgConf
      some {c with
        msgConf := r.value
        archive := addAll (r.commands.map fun x => (env x.1,x.2)) c.archive} := by
  induction l generalizing c with
  | nil => rfl
  | cons i l ih =>
    have htag : (scanMessage (c.seen (time i) (stack i)) i (c.msgConf i)).commands.map
        (fun x => (env i,x.2))=(scanMessage ⟨c.system.panel.arrays,time,stack⟩ i
          (c.msgConf i)).commands.map fun x => (env x.1,x.2) := by
      refine List.map_congr_left fun x hx => ?_
      rw [scanMessage_tag _ _ _ x hx]
    rw [List.map_cons,consoleRun,List.foldlM_cons]
    refine (ih (scan c i (env i) (time i) (stack i))).trans ?_
    dsimp only [scan]
    rw [htag,List.map_cons,Traced.rows_cons,Traced.bind_value,Traced.bind_commands,
      Traced.bind_commands,Traced.pure_commands,List.append_nil,List.map_append,addAll,addAll,addAll,
      List.foldl_append]
    rfl

/-- All of them make scan_messages. -/
theorem scan_all (c : Console) (env : ℕ → Env) (time : ℕ → UInt32) (stack : ℕ → Mem UInt8) :
    consoleRun flash vars c
        ((List.finRange maxMsgCnt).map fun i => .scan i (env i) (time i) (stack i))=
      let r := scanMessages ⟨c.system.panel.arrays,time,stack⟩ c.msgConf
      some {c with
        msgConf := r.value
        archive := addAll (r.commands.map fun x => (env x.1,x.2)) c.archive} := by
  rw [scan_rounds,List.map_coe_finRange_eq_range]
  rfl

end

/-! ## Power-up -/

/-- MSG_ARCH_CHECK_FLASH as read_config records it. -/
def checkFlashRecord (time : UInt32) : MessageRecord where
  ptr := fun _ => 1
  time := time
  messageId := msgArchCheckFlash
  messageType := 0
  length := 1

/-- What the calls before the loop of lcd_task_function find. -/
structure PowerUp where
  /-- For init_archive. -/
  initEnv : Env
  /-- For the record of read_config. -/
  flashEnv : Env
  /-- Its time. -/
  flashTime : UInt32
  /-- For the record of a missing link. -/
  linkEnv : Env
  /-- Its time. -/
  linkTime : UInt32

/-- The records of the calls before the loop. -/
def startRecords (u : PowerUp) (s : System) : List (Env×MessageRecord) :=
  (u.flashEnv,checkFlashRecord u.flashTime)::
    if s.panel.plcCanLink=0 then [(u.linkEnv,checkCanRecord u.linkTime)] else []

/-- The console of a new panel when the loop of lcd_task_function starts. -/
def startConsole (u : PowerUp) (s : System) (table : MessageTable) (ui : Ui) : Console where
  system := s
  msgConf := table.msgConf
  archive := addAll (startRecords u s) (ArchiveRun.start u.initEnv)
  ui := ui
  firstVisibleAlarmNum := 0
  firstVisibleMessageNum := 0
  prevKey := 0

end BT816Display.LcdTask
