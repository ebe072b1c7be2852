import BT816Display.ListScreens
import BT816Display.MenuAccess

/-!
# The alarm log of the panel

What the archive is for: a log of the messages that came up, of every loss of
the link and of the start, since it was last cleared. A board with the last
value of each bit and the log says so; the archive of `LcdTask` shows the log
of the board after every run of the tasks, the screens and the datagrams.
-/

namespace BT816Display.AlarmBoard

open ByteMemory BigEndian MessageArchive MessageConf MessageScanner MessageList ArchiveSlots
open ArchiveRam ArchiveReboot LcdTask ListScreens
open ArchiveText (msgArchCheckFlash)
open PanelRun (System PanelOp TimesOut msgArchCheckCan checkCanRecord panelStep)
open Menu (Ui)
open MenuAccess (factoryUi)
open PlcData (zeroPanel)

/-- The bits as last scanned, and the log, newest record first. -/
structure Board where
  /-- The value of the bit of each message at the last scan. -/
  last : ℕ → UInt8
  /-- The records since the log was cleared. -/
  log : List StoredRecord

/-- What the board hears of. -/
inductive Incident where
  /-- A scan looks at a message and finds its bit. -/
  | scan (i : ℕ) (bit : UInt8) (time : UInt32)
  /-- The link is lost. -/
  | linkLost (time : UInt32)
  /-- The log is cleared. -/
  | clear
  /-- Nothing that is logged. -/
  | quiet

/-- The record of a message that came up. -/
def alarm (m : BitMessageConf) (bit : UInt8) (time : UInt32) : StoredRecord where
  time := time
  messageId := msgArchBit
  messageType := m.messageType
  data := 1::m.varType::split16 m.varIndex++[bit]
  short := by simp [split16]

/-- The record of a lost link. -/
def linkLoss (time : UInt32) : StoredRecord := ⟨time,msgArchCheckCan,0,[0],by simp⟩

/-- The record of the test of the flash at the start. -/
def flashTest (time : UInt32) : StoredRecord := ⟨time,msgArchCheckFlash,0,[1],by simp⟩

section

variable (conf : Messages)

/-- A message comes up: its bit is nonzero and is not what it last was. -/
def Rises (last : ℕ → UInt8) (i : ℕ) (bit : UInt8) : Prop :=
  (conf i).used≠0 ∧ bit≠last i ∧ bit≠0

instance (last : ℕ → UInt8) (i : ℕ) (bit : UInt8) : Decidable (Rises conf last i bit) :=
  inferInstanceAs (Decidable (_ ∧ _))

/-- The record that a look at a message makes, if any. -/
def risen (last : ℕ → UInt8) (i : ℕ) (bit : UInt8) (time : UInt32) : List StoredRecord :=
  if Rises conf last i bit then [alarm (conf i) bit time] else []

/-- The board after an incident. -/
def Board.after (b : Board) : Incident → Board
  | .scan i bit time =>
    ⟨if (conf i).used≠0 then Function.update b.last i bit else b.last,
      risen conf b.last i bit time++b.log⟩
  | .linkLost time => {b with log := linkLoss time::b.log}
  | .clear => {b with log := []}
  | .quiet => b

end

/-- The board of a panel that starts. -/
def startBoard (u : PowerUp) (s : System) : Board where
  last _ := 0
  log := (if s.panel.plcCanLink=0 then [linkLoss u.linkTime] else [])++[flashTest u.flashTime]

/-- What the board hears of an operation. -/
def heard (conf : Messages) (c : Console) : ConsoleOp → Incident
  | .panel _ (.tick time) =>
    if TimesOut c.system ∧ c.system.panel.plcCanLink≠0 then .linkLost time else .quiet
  | .scan i _ time _ => .scan i (bitOf c.system.panel.arrays (conf i)) time
  | .display f => if .clearArchive∈(c.menu f).2 then .clear else .quiet
  | _ => .quiet

section

variable (flash : Mem UInt8) (vars : ConfigVars)

/-- What the board hears of a run. -/
def incidents (conf : Messages) (c : Console) : List ConsoleOp → List Incident
  | [] => []
  | op::ops => heard conf c op::
    match consoleStep flash vars c op with
    | some c' => incidents conf c' ops
    | none => []

/-- The console keeps the board: msg_conf its bits and the archive its log. -/
structure Keeps (table : MessageTable) (c : Console) (b : Board) : Prop where
  /-- The messages are those of the configuration. -/
  follows : Follows table.msgConf c.msgConf
  /-- prev_value is the last value of the bit. -/
  last : ∀ i < maxMsgCnt,(table.msgConf i).used≠0 → (c.msgConf i).prevValue=b.last i
  /-- The archive shows the log. -/
  log : RamWindow (·=zeroSlot) c.archive b.log

/-! ## Records passed on -/

theorem unread_zero (stack : Mem UInt8) : Unread stack (·=zeroSlot) := by
  rintro slot rfl
  exact ⟨checkSlot_zero stack,readSlot_zero stack⟩

/-- The archive after some records shows them in front of its log. -/
theorem window_addAll {s : Archive} {h : List StoredRecord} (hw : RamWindow (·=zeroSlot) s h)
    (records : List (Env×MessageRecord)) :
    RamWindow (·=zeroSlot) (addAll records s) ((records.map fun a => stored a.2).reverse++h) :=
  RamWindow.addAll records hw

/-- A record of a scan as it is kept. -/
theorem stored_record (seen : Seen) (i : ℕ) (m : BitMessageConf) :
    stored (record seen i m)=alarm m m.value (seen.time i) := by
  have hload : load (store (seen.stack i) 0 (recBody m)) 0 5=recBody m :=
    load_store_self (seen.stack i) 0 (recBody m)
  exact StoredRecord.ext rfl rfl rfl hload

/-- What an operation of another task records. -/
theorem panelStep_records {s s' : System} {op : PanelOp} (hs : panelStep s op=some s') :
    s'.records.drop s.records.length=
      match op with
      | .tick time => PanelRun.timeoutRecords s time
      | _ => [] := by
  cases PanelRun.panelStep_stepped hs with
  | receive rx q h => exact List.drop_length
  | write var q h => exact List.drop_length
  | reset => exact List.drop_length
  | tick time =>
    rw [(PanelRun.networkTick_ticked s time).records]
    exact List.drop_left
  | sample diState =>
    rw [(PanelRun.updateDiData_sampled s diState).records]
    exact List.drop_length

/-- The setting of a message has the value of its last scan. -/
theorem prevValue_of_setting {m m' : BitMessageConf} (h : setting m=setting m') :
    m.prevValue=m'.prevValue := (BitMessageConf.mk.inj h).2.2.2.2.1

namespace Keeps

variable {table : MessageTable} {c : Console} {b : Board}

theorem watching (h : Keeps table c b) {i : ℕ} (hi : i < maxMsgCnt) : Watching (c.msgConf i) :=
  (h.follows.same i).watching (table.watching i hi)

/-- A scan calls for the record of a message exactly when it comes up. -/
theorem callsFor_iff (h : Keeps table c b) (time : UInt32) (stack : Mem UInt8) {i : ℕ}
    (hi : i < maxMsgCnt) : CallsFor (c.seen time stack) (c.msgConf i) ↔
      Rises table.msgConf b.last i (bitOf c.system.panel.arrays (table.msgConf i)) := by
  have hsame := h.follows.same i
  have hbit : bitOf (c.seen time stack).cl (c.msgConf i)=
      bitOf c.system.panel.arrays (table.msgConf i) := bitOf_congr hsame c.system.panel.arrays
  unfold CallsFor Rises
  rw [hbit,hsame.used]
  constructor
  · rintro ⟨hused,hne,h0⟩
    exact ⟨hused,by rwa [←h.last i hi hused],h0⟩
  · rintro ⟨hused,hne,h0⟩
    exact ⟨hused,by rwa [h.last i hi hused],h0⟩

/-- The records of a round of a scan. -/
theorem scanMessage_stored (h : Keeps table c b) (time : UInt32) (stack : Mem UInt8)
    {i : ℕ} (hi : i < maxMsgCnt) :
    ((scanMessage (c.seen time stack) i (c.msgConf i)).commands.map fun x => stored x.2)=
      risen table.msgConf b.last i (bitOf c.system.panel.arrays (table.msgConf i)) time := by
  have hsame := h.follows.same i
  have hbit : bitOf (c.seen time stack).cl (c.msgConf i)=
      bitOf c.system.panel.arrays (table.msgConf i) := bitOf_congr hsame c.system.panel.arrays
  have halarm : stored (record (c.seen time stack) i
      {c.msgConf i with value := bitOf (c.seen time stack).cl (c.msgConf i)})=
      alarm (table.msgConf i) (bitOf c.system.panel.arrays (table.msgConf i)) time := by
    rw [stored_record,hbit]
    unfold alarm
    simp only [hsame.messageType,hsame.varType,hsame.varIndex]
    rfl
  unfold risen
  by_cases hcalls : CallsFor (c.seen time stack) (c.msgConf i)
  · rw [if_pos ((h.callsFor_iff time stack hi).mp hcalls),scanMessage_commands,if_pos hcalls.1,
      refresh_value _ (h.watching hi hcalls.1),addRecord_commands,if_pos hcalls.2,
      List.map_singleton,halarm]
  · rw [if_neg (mt (h.callsFor_iff time stack hi).mpr hcalls),scanMessage_commands]
    by_cases hused : (c.msgConf i).used≠0
    · rw [if_pos hused,refresh_value _ (h.watching hi hused),addRecord_commands,
        if_neg fun hr => hcalls ⟨hused,hr⟩]
      rfl
    · rw [if_neg hused]
      rfl

/-- The value that a round of a scan keeps. -/
theorem scanMessage_prevValue (h : Keeps table c b) (time : UInt32) (stack : Mem UInt8) {i : ℕ}
    (hi : i < maxMsgCnt) (hused : (table.msgConf i).used≠0) :
    (scanMessage (c.seen time stack) i (c.msgConf i)).value.prevValue=
      bitOf c.system.panel.arrays (table.msgConf i) := by
  have hsame := h.follows.same i
  have hscan := scanMessage_setting (c.seen time stack) i (h.watching hi)
  rw [if_pos (by rwa [hsame.used])] at hscan
  exact (congrArg BitMessageConf.prevValue hscan).trans
    (bitOf_congr hsame c.system.panel.arrays)

/-- A round of a scan logs its message when it rises. -/
theorem scan (h : Keeps table c b) (i : Fin maxMsgCnt) (env : Env) (time : UInt32)
    (stack : Mem UInt8) :
    Keeps table (LcdTask.scan c i env time stack)
      (b.after table.msgConf (.scan i (bitOf c.system.panel.arrays (table.msgConf i)) time)) := by
  constructor
  · rw [scan_msgConf]
    exact scanMessage_follows h.follows (c.seen time stack) i
  · intro k hk hused
    rw [scan_msgConf,Board.after]
    dsimp only
    by_cases hki : k=i
    · subst hki
      rw [if_pos hused,Function.update_self,Function.update_self]
      exact h.scanMessage_prevValue time stack hk hused
    · rw [Function.update_of_ne hki,h.last k hk hused]
      split
      · rw [Function.update_of_ne hki]
      · rfl
  · have hstored := h.scanMessage_stored time stack i.isLt
    have hw := window_addAll h.log
      ((scanMessage (c.seen time stack) i (c.msgConf i)).commands.map fun x => (env,x.2))
    have hone (bit : UInt8) : (risen table.msgConf b.last i bit time).reverse=
        risen table.msgConf b.last i bit time := by
      unfold risen
      split <;> rfl
    rw [List.map_map] at hw
    rw [scan_archive,Board.after]
    dsimp only
    rw [←hone,←hstored]
    exact hw

/-- A screen reads bits into msg_conf, and leaves the last scan. -/
theorem display (h : Keeps table c b) (f : Frame) :
    Keeps table (LcdTask.display flash vars c f)
      (b.after table.msgConf (heard table.msgConf c (.display f))) := by
  obtain ⟨hfollows,-⟩ := stateList_shown flash vars c.system.panel.arrays
    c.system.panel.plcCanLink (c.ui.prevKey .state) (restarted f.early c.firstVisibleMessageNum)
    (c.keyCmd f) h.follows
  have hquiet := (stateList_quiet flash vars c.system.panel.arrays c.system.panel.plcCanLink
    (c.ui.prevKey .state) (restarted f.early c.firstVisibleMessageNum) (c.keyCmd f)
    c.msgConf).settings
  have hlast (b' : Board) (hb : b'.last=b.last) : ∀ i < maxMsgCnt,(table.msgConf i).used≠0 →
      ((LcdTask.display flash vars c f).msgConf i).prevValue=b'.last i := by
    intro i hi hused
    rw [hb,←h.last i hi hused]
    unfold LcdTask.display
    dsimp only
    split
    · exact prevValue_of_setting (hquiet i)
    · rfl
  have hsame : Follows table.msgConf (LcdTask.display flash vars c f).msgConf := by
    unfold LcdTask.display
    dsimp only
    split
    · exact hfollows
    · exact h.follows
  rw [heard]
  by_cases hclear : Menu.Effect.clearArchive∈(c.menu f).2
  · rw [if_pos hclear,Board.after]
    refine ⟨hsame,hlast _ rfl,?_⟩
    unfold LcdTask.display
    dsimp only
    rw [if_pos hclear]
    exact RamWindow.of_clear (E:=(·=zeroSlot)) rfl f.env c.archive
  · rw [if_neg hclear,Board.after]
    refine ⟨hsame,hlast b rfl,?_⟩
    unfold LcdTask.display
    dsimp only
    rw [if_neg hclear]
    exact h.log

/-- The other tasks log the loss of the link. -/
theorem panel (h : Keeps table c b) (env : Env) {op : PanelOp} {s : System}
    (hs : panelStep c.system op=some s) :
    Keeps table {c with
      system := s
      archive := addAll ((s.records.drop c.system.records.length).map (env,·)) c.archive}
      (b.after table.msgConf (heard table.msgConf c (.panel env op))) := by
  have hw := window_addAll h.log ((s.records.drop c.system.records.length).map (env,·))
  rw [panelStep_records hs] at hw ⊢
  have hquiet : Keeps table {c with system := s,archive := addAll [] c.archive} b :=
    ⟨h.follows,h.last,h.log⟩
  cases op with
  | tick time =>
    dsimp only [heard,PanelRun.timeoutRecords] at hw ⊢
    by_cases hlost : TimesOut c.system ∧ c.system.panel.plcCanLink≠0
    · rw [if_pos hlost] at hw ⊢
      rw [if_pos hlost]
      exact ⟨h.follows,h.last,hw⟩
    · rw [if_neg hlost] at hw ⊢
      rw [if_neg hlost]
      exact hquiet
  | receive rx => exact hquiet
  | write var => exact hquiet
  | reset => exact hquiet
  | sample diState => exact hquiet

/-- Every operation takes the board with it. -/
theorem step (h : Keeps table c b) {op : ConsoleOp} {c' : Console}
    (hs : consoleStep flash vars c op=some c') :
    Keeps table c' (b.after table.msgConf (heard table.msgConf c op)) := by
  cases op with
  | panel env op =>
    obtain ⟨s,hpanel,rfl⟩ := Option.map_eq_some_iff.mp hs
    exact h.panel env hpanel
  | scan i env time stack =>
    obtain rfl := Option.some.inj hs
    exact h.scan i env time stack
  | display f =>
    obtain rfl := Option.some.inj hs
    exact h.display flash vars f
  | datagram command =>
    obtain rfl := Option.some.inj hs
    exact ⟨h.follows,h.last,h.log⟩

/-- A console that starts keeps a board that starts. -/
theorem start (u : PowerUp) (s : System) (table : MessageTable) (ui : Ui) :
    Keeps table (startConsole u s table ui) (startBoard u s) where
  follows := by
    refine ⟨fun i => sameConf_refl (table.msgConf i),fun i hi _ => ?_⟩
    exact (table.clear i hi).1
  last i hi _ := (table.clear i hi).2
  log := by
    have hclear : RamWindow (·=zeroSlot) (ArchiveRun.start u.initEnv) [] := by
      rw [ArchiveLog.start_eq_clear]
      exact RamWindow.of_clear (E:=(·=zeroSlot)) rfl _ _
    have hw := window_addAll hclear (startRecords u s)
    have hlog : ((startRecords u s).map fun a => stored a.2).reverse++[]=(startBoard u s).log := by
      unfold startRecords startBoard
      split <;> rfl
    dsimp only [startConsole]
    rwa [hlog] at hw

end Keeps

/-! ## Runs -/

/-- Every frame received in a run is in range. -/
def FramesInRange (ops : List ConsoleOp) : Prop :=
  ∀ env rx,.panel env (.receive rx)∈ops → PanelRun.FrameInRange rx

/-- An operation has a result when its frame, if any, is in range. -/
theorem consoleStep_isSome (c : Console) {op : ConsoleOp}
    (h : ∀ env rx,op=.panel env (.receive rx) → PanelRun.FrameInRange rx) :
    ∃ c',consoleStep flash vars c op=some c' := by
  cases op with
  | panel env op =>
    obtain ⟨s,hs⟩ := Option.isSome_iff_exists.mp
      (@PanelRun.panelStep_isSome c.system op fun rx he => h env rx (by rw [he]))
    exact ⟨_,Option.map_eq_some_iff.mpr ⟨s,hs,rfl⟩⟩
  | scan i env time stack => exact ⟨_,rfl⟩
  | display f => exact ⟨_,rfl⟩
  | datagram command => exact ⟨_,rfl⟩

/-- A run keeps the board, and what every operation keeps beside it. -/
theorem keeps_run {table : MessageTable} {P : Console → Board → Prop}
    (hP : ∀ {c b op c'},Keeps table c b → P c b → consoleStep flash vars c op=some c' →
      P c' (b.after table.msgConf (heard table.msgConf c op)))
    {c : Console} {b : Board} (h : Keeps table c b) (hc : P c b)
    {ops : List ConsoleOp} (hops : FramesInRange ops) :
    ∃ c' b',consoleRun flash vars c ops=some c' ∧ Keeps table c' b' ∧ P c' b' ∧
      b'=(incidents flash vars table.msgConf c ops).foldl (·.after table.msgConf) b := by
  induction ops generalizing c b with
  | nil => exact ⟨c,b,rfl,h,hc,rfl⟩
  | cons op ops ih =>
    obtain ⟨c',hstep⟩ := @consoleStep_isSome flash vars c op fun env rx he =>
      hops env rx (by rw [he]; exact List.mem_cons_self)
    obtain ⟨c'',b'',hrun,hkeeps,hend,hb⟩ := ih (h.step flash vars hstep) (hP h hc hstep)
      fun env rx he => hops env rx (List.mem_cons_of_mem _ he)
    refine ⟨c'',b'',?_,hkeeps,hend,?_⟩
    · rw [consoleRun,List.foldlM_cons,hstep]
      exact hrun
    · rw [incidents,hstep]
      exact hb

/-- The board after a run of a new panel. -/
def boardAfter (u : PowerUp) (s : System) (table : MessageTable) (ui : Ui)
    (ops : List ConsoleOp) : Board :=
  (incidents flash vars table.msgConf (startConsole u s table ui) ops).foldl
    (·.after table.msgConf) (startBoard u s)

theorem Keeps.showsHistory {table : MessageTable} {c : Console} {b : Board} (h : Keeps table c b)
    (stack : Mem UInt8) : ShowsHistory stack c.archive b.log := by
  refine ⟨getArchiveRecordsCnt_of_window h.log (unread_zero stack),fun k hk => ?_⟩
  rw [getRecordWithOffsetFromLast_of_window h.log (unread_zero stack) k,Nat.mod_eq_of_lt hk]

end

/-- The clock of a run. -/
def clock : Env := ⟨⟨24,2,11,4,8,30⟩,fun _ => 0⟩

/-- A panel is switched on for the first time. -/
def firstPower : PowerUp := ⟨clock,clock,1,clock,2⟩

/-- The event that sets the first cluster bit. -/
def bitEvent : CanRx.CanRxMessage := ⟨0x40F,4,fun i => [3,16,1,1].getD i 0⟩

/-- A node reports and the first cluster bit is set between two looks at its
message. -/
def firstRounds : List ConsoleOp :=
  [.panel clock (.receive ⟨0x409,2,fun _ => 0⟩),.scan 0 clock 3 fun _ => 0,
    .panel clock (.receive bitEvent),.scan 0 clock 4 fun _ => 0]

theorem firstRounds_inRange : FramesInRange firstRounds := by
  intro env rx h
  simp only [firstRounds,List.mem_cons,List.not_mem_nil,or_false] at h
  rcases h with he|he|he|he
  · obtain ⟨-,hop⟩ := ConsoleOp.panel.inj he
    obtain rfl := PanelRun.PanelOp.receive.inj hop
    exact Or.inr (Or.inl (by decide))
  · cases he
  · obtain ⟨-,hop⟩ := ConsoleOp.panel.inj he
    obtain rfl := PanelRun.PanelOp.receive.inj hop
    exact Or.inr (Or.inr (by decide))
  · cases he

/-- The board of these operations. -/
def firstBoard : Board :=
  boardAfter (fun _ => 0) zeroVars firstPower (PanelRun.start zeroPanel) oneMessage factoryUi
    firstRounds

end BT816Display.AlarmBoard
