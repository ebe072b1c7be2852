import BT816Display.AlarmBoard

/-!
# What the operator sees of the alarms

The alarm screen shows the log page by page and is entered at its newest
record. It has a row while there is a record, if only a blank one for a record
without a text, and every record that the archive keeps can be brought into
view. The state screen shows the active messages, and can have no row while
there are some.
-/

namespace BT816Display.AlarmScreens

open ByteMemory Keys MessageArchive MessageConf MessageScanner MessageList ArchiveSlots
open ArchiveReboot LcdTask ListScreens AlarmBoard Pager
open Menu MenuAccess
open PanelRun (System)
open PlcData (Val zeroPanel)
open ArrayAccess (Arrays)

/-! ## The ways to the alarm screen -/

/-- No network command opens the alarm list. -/
theorem udp_alarmList {s : Ui} {command : UdpCommand}
    (h : (udp s command).currentMenu=.alarmList) : s.currentMenu=.alarmList := by
  cases command <;> cases h

/-- Nor do several of them. -/
theorem udpAll_alarmList {s : Ui} {commands : List UdpCommand}
    (h : (udpAll s commands).currentMenu=.alarmList) : s.currentMenu=.alarmList := by
  induction commands generalizing s with
  | nil => exact h
  | cons command commands ih => exact udp_alarmList (ih h)

/-- passwd_menu does not select the alarm screen. -/
theorem passwdMenu_target (s : Ui) (key : UInt16) :
    (passwdMenu s key).target≠some .alarmList ∧ (passwdMenu s key).ui.currentMenu=s.currentMenu := by
  have hkey : (passwdKey s key).target≠some .alarmList ∧
      (passwdKey s key).ui.currentMenu=s.currentMenu := by
    rcases passwdKey_cases s key with h|h|⟨d,h⟩ <;> rw [h] <;> exact ⟨nofun,rfl⟩
  have hfull (o : Outcome) (ho : o.target≠some .alarmList) :
      (passwdFull o).target≠some .alarmList ∧ (passwdFull o).ui.currentMenu=o.ui.currentMenu := by
    unfold passwdFull
    dsimp only
    split_ifs <;> exact ⟨by first | exact ho | nofun,rfl⟩
  unfold passwdMenu
  dsimp only
  split_ifs
  · exact ⟨(hfull _ hkey.1).1,(hfull _ hkey.1).2.trans hkey.2⟩
  · exact hkey

/-- Only KEY_3 of the main screen selects the alarm screen. -/
theorem mainMenu_alarmList {s : Ui} {key : UInt16} (h : (mainMenu s key).target=some .alarmList) :
    key=key3 := by
  unfold mainMenu at h
  by_contra hne
  rw [if_neg hne] at h
  split_ifs at h <;> cases h

/-- The keys enter the alarm list from the main menu alone. -/
theorem alarmList_mem_edges {menu : MenuList} (h : .alarmList∈edges menu) : menu=.main := by
  cases menu <;> revert h <;> decide

/-- Datagrams leave the alarm list on the screen only when it was there before. -/
theorem reset_alarmList {menu : MenuList} (h : Reset menu .alarmList) : menu=.alarmList := by
  rcases h with h|h|h
  · exact h.symm
  · cases h
  · cases h

/-- The alarm screen is on after a round when it was on before, or when the
main screen has selected it; the archive is not cleared then. -/
theorem displayMenu_alarmList {s : Ui} {env : Menu.Env} {key : UInt16} {early late : List UdpCommand}
    (h : (displayMenu s env key early late).1.currentMenu=.alarmList) :
    .clearArchive∉(displayMenu s env key early late).2 ∧
      (s.currentMenu=.alarmList ∨ s.currentMenu=.main ∧ key=key3) := by
  obtain ⟨hsome,hnone,-,-,-,-,heffects⟩ := displayMenu_ui s env key early late
  rw [h] at hsome hnone
  rw [heffects]
  by_cases hpasswd : s.currentMenu=.passwd
  · obtain ⟨htarget,hcur⟩ := passwdMenu_target (udpAll s early) key
    rw [hpasswd] at hsome hnone
    cases ht : (passwdMenu (udpAll s early) key).target with
    | none =>
      have hold := udpAll_alarmList (hcur.symm.trans (reset_alarmList (hnone ht)))
      rw [hpasswd] at hold
      cases hold
    | some t =>
      rw [←hsome t ht] at ht
      exact absurd ht htarget
  · have hord := ordinary_screen env hpasswd (udpAll s early) key
    obtain ⟨o,ho⟩ : ∃ o,o=screen env s.currentMenu (udpAll s early) key := ⟨_,rfl⟩
    rw [←ho] at hord hsome hnone ⊢
    cases hord with
    | stay s' hcur =>
      have hold : s'.currentMenu=.alarmList := reset_alarmList (hnone rfl)
      exact ⟨List.not_mem_nil,Or.inl (udpAll_alarmList (hcur.symm.trans hold))⟩
    | go s' ht =>
      obtain rfl := hsome _ rfl
      have hmain := alarmList_mem_edges ht
      rw [hmain] at ho
      exact ⟨List.not_mem_nil,Or.inr ⟨hmain,mainMenu_alarmList (congrArg Outcome.target ho).symm⟩⟩
    | ask s' hpos hcmd => cases hsome _ rfl
    | write s' ht hw =>
      obtain rfl := hsome _ rfl
      rw [alarmList_mem_edges ht] at hw
      exact absurd hw (by decide)

/-! ## The first row of the alarm screen -/

/-- A key keeps the first row on the list. -/
theorem moved_starts {n top : ℕ} (h : Starts n top) (key : UInt16) : Starts n (moved n key top) := by
  have hback := h.turn 10 top false
  have hon := h.turn 10 top true
  rw [turn,Nat.min_self] at hback hon
  unfold moved
  split_ifs
  · exact hback
  · exact hon
  · exact h

/-- The page shown starts at a line a page starts at. -/
theorem alarmTop_starts {n : ℕ} {first : UInt16} (h : Starts n first.toNat) :
    Starts n (alarmTop n first) := by
  unfold alarmTop
  split
  · exact Or.inl rfl
  · exact h.min 246

/-- The alarm screen starts at a record that can be shown, or at the top. -/
def OnList (c : Console) (b : Board) : Prop :=
  c.ui.currentMenu=.alarmList → Starts (kept b.log).length c.firstVisibleAlarmNum.toNat

/-- Unless it is cleared, the log grows. -/
theorem log_grows (conf : Messages) (b : Board) {i : Incident} (hi : i≠.clear) :
    (kept b.log).length≤(kept (b.after conf i).log).length := by
  have hlen : b.log.length≤(b.after conf i).log.length := by
    cases i with
    | scan i bit time =>
      rw [Board.after,List.length_append]
      exact Nat.le_add_left ..
    | linkLost time => exact Nat.le_succ _
    | clear => exact absurd rfl hi
    | quiet => exact Nat.le_refl _
  rw [kept_length,kept_length]
  omega

section

variable (flash : Mem UInt8) (vars : ConfigVars) {table : MessageTable} {c c' : Console} {b : Board}

/-- Every operation keeps the alarm screen on the list. -/
theorem OnList.step (hk : Keeps table c b) (h : OnList c b) {op : ConsoleOp}
    (hs : consoleStep flash vars c op=some c') :
    OnList c' (b.after table.msgConf (heard table.msgConf c op)) := by
  intro hmenu
  cases op with
  | panel env op =>
    obtain ⟨s,-,rfl⟩ := Option.map_eq_some_iff.mp hs
    refine (h hmenu).mono (log_grows _ b ?_)
    cases op <;> dsimp only [heard] <;> (try split) <;> nofun
  | scan i env time stack =>
    obtain rfl := Option.some.inj hs
    exact (h hmenu).mono (log_grows _ b nofun)
  | datagram command =>
    obtain rfl := Option.some.inj hs
    exact absurd hmenu (by cases command <;> nofun)
  | display f =>
    obtain rfl := Option.some.inj hs
    obtain ⟨hclear,hfrom⟩ := displayMenu_alarmList (s:=c.ui) hmenu
    have hquiet : heard table.msgConf c (.display f)=.quiet := if_neg hclear
    rw [hquiet,Board.after]
    dsimp only [display,Console.nextAlarmNum]
    by_cases hon : c.ui.currentMenu=.alarmList
    · have hshown := alarmList_shown (hk.showsHistory f.env.stack) c.firstVisibleAlarmNum (c.keyCmd f)
      rw [if_pos hon,Console.alarmInfoMenu,hshown.after]
      exact moved_starts (alarmTop_starts (h hon)) _
    · rw [if_neg hon,if_pos (hfrom.resolve_left hon)]
      exact Or.inl rfl

end

/-! ## Keys pressed on a list -/

/-- A round that finds a key, and no datagram while its screen is shown. -/
def pressing (f : Frame) (key : UInt16) : Frame := {f with key := key,early := [],late := []}

/-- KEY_DOWN or KEY_UP. -/
def pageKey (on : Bool) : UInt16 := if on=true then keyDown else keyUp

/-- Keys of a list, each one after the keys have been released. -/
def presses (f : Frame) (keys : List Bool) : List ConsoleOp :=
  keys.flatMap fun on => [.display (pressing f 0),.display (pressing f (pageKey on))]

/-- A key of the list is one the reader of keys knows. -/
theorem pageKey_mem (on : Bool) : pageKey on∈[0,keyUp,keyDown] := by cases on <;> decide

/-- The keys of a list are none of those that leave its screen. -/
theorem listKey_ne : ∀ key∈[0,keyUp,keyDown],
    ∀ other∈[keyLeft,keyRight,keyEnter,keyExit,key0],key≠other := by
  simp only [List.forall_mem_cons,List.not_mem_nil,false_implies,implies_true]
  decide

/-- A key of the list is not the idle key. -/
theorem pageKey_ne_zero (on : Bool) : pageKey on≠0 := by cases on <;> decide

/-- A key moves the first row by a screen. -/
theorem moved_pageKey (n top : ℕ) (on : Bool) : moved n (pageKey on) top=
    if on=true then down 10 n top else up 10 top := by
  cases on <;> rfl

/-- When the keys are up no command is given. -/
theorem keyCmd_released (c : Console) (f : Frame) : c.keyCmd (pressing f 0)=0 :=
  if_neg fun h => h.1 rfl

/-- A key pressed after they were up is the command given. -/
theorem keyCmd_pressed {c : Console} (hc : c.prevKey=0) (f : Frame) (on : Bool) :
    c.keyCmd (pressing f (pageKey on))=pageKey on := by
  have hne := pageKey_ne_zero on
  exact if_pos ⟨hne,by rw [hc]; exact hne⟩

section

variable (flash : Mem UInt8) (vars : ConfigVars)

/-- What one press keeps and moves, many presses keep and move. -/
theorem presses_run {Q : ℕ → Console → Prop} {p cap n : ℕ} (f : Frame)
    (hQ : ∀ {first c} (on : Bool),Q first c → Q (turn p cap n first on)
      (display flash vars (display flash vars c (pressing f 0)) (pressing f (pageKey on))))
    (keys : List Bool) {first : ℕ} {c : Console} (h : Q first c) :
    ∃ c',consoleRun flash vars c (presses f keys)=some c' ∧ Q (turns p cap n first keys) c' := by
  induction keys generalizing first c with
  | nil => exact ⟨c,rfl,h⟩
  | cons on keys ih =>
    obtain ⟨c',hrun,hend⟩ := ih (hQ on h)
    exact ⟨c',hrun,hend⟩

/-- The alarm screen is shown from a first row on. -/
structure OnAlarms (table : MessageTable) (b : Board) (first : ℕ) (c : Console) : Prop where
  /-- The board is kept. -/
  keeps : Keeps table c b
  /-- The screen. -/
  menu : c.ui.currentMenu=.alarmList
  /-- Its first row. -/
  first : c.firstVisibleAlarmNum.toNat=first

section

variable {table : MessageTable} {b : Board} {first : ℕ} {c : Console}

/-- A key of the list stays on the alarm screen. -/
theorem menu_on_alarms {c : Console} (h : c.ui.currentMenu=.alarmList) (f : Frame) {key : UInt16}
    (hkey : key∈[0,keyUp,keyDown]) (hcmd : c.keyCmd (pressing f key)=key) :
    c.menu (pressing f key)=(c.ui,[]) := by
  have hother := listKey_ne key hkey
  unfold Console.menu displayMenu
  rw [h,hcmd]
  dsimp only [screen,alarmInfoMenu]
  rw [if_neg (hother keyLeft (by decide)),if_neg (hother keyRight (by decide))]
  rfl

/-- A round on the alarm screen that does not leave it. -/
theorem OnAlarms.display (h : OnAlarms table b first c) (hn : kept b.log≠[]) (f : Frame)
    {key : UInt16} (hkey : key∈[0,keyUp,keyDown]) (hcmd : c.keyCmd (pressing f key)=key) :
    OnAlarms table b (moved (kept b.log).length key (min first 246))
      (LcdTask.display flash vars c (pressing f key)) := by
  have hmenu := menu_on_alarms h.menu f hkey hcmd
  have hheard : heard table.msgConf c (.display (pressing f key))=.quiet := by
    rw [heard,hmenu]
    rfl
  have hkeeps := h.keeps.display flash vars (pressing f key)
  rw [hheard] at hkeeps
  refine ⟨hkeeps,?_,?_⟩
  · dsimp only [LcdTask.display]
    rw [hmenu]
    exact h.menu
  · have hshown := alarmList_shown (h.keeps.showsHistory (pressing f key).env.stack)
      c.firstVisibleAlarmNum (c.keyCmd (pressing f key))
    have hafter := hshown.after
    rw [hcmd,alarmTop,if_neg (mt List.length_eq_zero_iff.mp hn),h.first] at hafter
    dsimp only [LcdTask.display,Console.nextAlarmNum,Console.alarmInfoMenu]
    rw [if_pos h.menu,hcmd]
    exact hafter

/-- A key that is pressed after a release turns the page. -/
theorem OnAlarms.press (h : OnAlarms table b first c) (hn : kept b.log≠[]) (f : Frame) (on : Bool) :
    OnAlarms table b (turn 10 246 (kept b.log).length first on)
      (LcdTask.display flash vars (LcdTask.display flash vars c (pressing f 0))
        (pressing f (pageKey on))) := by
  have hreleased := h.display flash vars hn f List.mem_cons_self (keyCmd_released c f)
  have hpressed := hreleased.display flash vars hn f (pageKey_mem on)
    (keyCmd_pressed rfl f on)
  have hrest : moved (kept b.log).length 0 (min first 246)=min first 246 := rfl
  rwa [hrest,Nat.min_assoc,Nat.min_self,moved_pageKey] at hpressed

end

/-- What the operator sees of the log on the alarm screen. -/
structure ShowsLog (log : List StoredRecord) (c : Console) (f : Frame) : Prop where
  /-- The rows are a page of the log, newest record first. -/
  page : ∃ top,Starts (kept log).length top ∧
    AlarmShown (kept log) top (c.keyCmd f) (c.alarmInfoMenu f).1 (c.alarmInfoMenu f).2
  /-- The screen has no row for an empty log only. -/
  blank : (c.alarmInfoMenu f).1.rows=[] ↔ log=[]
  /-- Keys bring every record that is kept into view. -/
  reach : ∀ i (hi : i<(kept log).length),∃ keys c' row,
    consoleRun flash vars c (presses f keys)=some c' ∧ c'.ui.currentMenu=.alarmList ∧ row<10 ∧
      (c'.alarmInfoMenu (pressing f 0)).1.rows[row]?=some (view (kept log)[i])

end

/-! ## The state screen -/

/-- The state screen is shown from a first row on. -/
structure OnMessages (table : MessageTable) (cl : Arrays Val) (first : ℕ) (c : Console) : Prop where
  /-- The messages are those of the configuration. -/
  follows : Follows table.msgConf c.msgConf
  /-- The bits stay. -/
  arrays : c.system.panel.arrays=cl
  /-- The screen. -/
  menu : c.ui.currentMenu=.state
  /-- Its first row. -/
  first : c.firstVisibleMessageNum.toNat=first

section

variable (flash : Mem UInt8) (vars : ConfigVars) {table : MessageTable} {cl : Arrays Val}

/-- The state screen while no datagram comes. -/
theorem stateMenu_pressing (c : Console) (f : Frame) (key : UInt16) :
    c.stateMenu flash vars (pressing f key)=(stateList flash vars c.system.panel.arrays
      c.system.panel.plcCanLink (c.ui.prevKey .state) c.firstVisibleMessageNum
      (c.keyCmd (pressing f key)) c.msgConf).value := rfl

section

variable {first : ℕ} {c : Console}

/-- A key of the list stays on the state screen. -/
theorem menu_on_state {c : Console} (h : c.ui.currentMenu=.state) (f : Frame) {key : UInt16}
    (hkey : key∈[0,keyUp,keyDown]) (hcmd : c.keyCmd (pressing f key)=key) :
    c.menu (pressing f key)=
      ({c.ui with prevKey := Function.update c.ui.prevKey .state key},[]) := by
  have hother := listKey_ne key hkey
  have hleave : ¬(key=keyRight ∨ key=keyEnter ∨ key=keyExit) := by
    rintro (he|he|he)
    · exact hother keyRight (by decide) he
    · exact hother keyEnter (by decide) he
    · exact hother keyExit (by decide) he
  unfold Console.menu displayMenu
  rw [h,hcmd]
  dsimp only [screen,stateMenu,onNewKey,pressing,udpAll,List.foldl_nil]
  rw [if_neg (hother key0 (by decide)),if_neg hleave,ite_self]
  rfl

/-- A round on the state screen that does not leave it. -/
theorem OnMessages.display (h : OnMessages table cl first c)
    (hn : activeMessages cl table.msgConf≠[]) (f : Frame) {key : UInt16}
    (hkey : key∈[0,keyUp,keyDown]) (hcmd : c.keyCmd (pressing f key)=key)
    (hnew : key=0 ∨ key≠c.ui.prevKey .state) :
    OnMessages table cl (moved (activeMessages cl table.msgConf).length key (min first 53))
        (LcdTask.display flash vars c (pressing f key)) ∧
      (LcdTask.display flash vars c (pressing f key)).ui.prevKey .state=key := by
  have hmenu := menu_on_state h.menu f hkey hcmd
  obtain ⟨hfollows,hshown⟩ := stateList_shown flash vars c.system.panel.arrays
    c.system.panel.plcCanLink (c.ui.prevKey .state) c.firstVisibleMessageNum key h.follows
  have hstate := stateMenu_pressing flash vars c f key
  rw [hcmd] at hstate
  rw [←hstate] at hfollows hshown
  have hafter := hshown.after
  rw [h.arrays,if_neg hn,h.first] at hafter
  have hmoved : (c.stateMenu flash vars (pressing f key)).2.2.toNat=
      moved (activeMessages cl table.msgConf).length key (min first 53) := by
    rw [hafter]
    rcases hnew with rfl|hnew
    · exact ite_self _
    · exact if_pos hnew
  refine ⟨⟨?_,h.arrays,?_,?_⟩,?_⟩
  · dsimp only [LcdTask.display]
    rw [if_pos h.menu]
    exact hfollows
  · dsimp only [LcdTask.display]
    rw [hmenu]
    exact h.menu
  · rw [←hmoved]
    dsimp only [LcdTask.display,Console.nextMessageNum]
    rw [if_pos h.menu]
    rfl
  · dsimp only [LcdTask.display]
    rw [hmenu]
    dsimp only
    exact Function.update_self ..

/-- A key that is pressed after a release turns the page. -/
theorem OnMessages.press (h : OnMessages table cl first c)
    (hn : activeMessages cl table.msgConf≠[]) (f : Frame) (on : Bool) :
    OnMessages table cl (turn 10 53 (activeMessages cl table.msgConf).length first on)
      (LcdTask.display flash vars (LcdTask.display flash vars c (pressing f 0))
        (pressing f (pageKey on))) := by
  obtain ⟨hreleased,hprev⟩ := h.display flash vars hn f List.mem_cons_self (keyCmd_released c f)
    (Or.inl rfl)
  obtain ⟨hpressed,-⟩ := hreleased.display flash vars hn f (pageKey_mem on)
    (keyCmd_pressed rfl f on) (Or.inr (by rw [hprev]; exact pageKey_ne_zero on))
  have hrest : moved (activeMessages cl table.msgConf).length 0 (min first 53)=min first 53 := rfl
  rwa [hrest,Nat.min_assoc,Nat.min_self,moved_pageKey] at hpressed

end

/-- What the operator sees of the active messages on the state screen. -/
structure ShowsMessages (conf : Messages) (cl : Arrays Val) (c : Console) (f : Frame) : Prop where
  /-- The rows are a page of the active messages, and the text for a system in
  order is there when there are none and the link is. -/
  page : StateShown flash vars cl conf c.system.panel.plcCanLink
    (min (restarted f.early c.firstVisibleMessageNum).toNat 53) (c.ui.prevKey .state) (c.keyCmd f)
    (c.stateMenu flash vars f).2.1 (c.stateMenu flash vars f).2.2
  /-- There are no rows when the messages end before the first one. -/
  blank : (c.stateMenu flash vars f).2.1.rows=[] ↔
    (activeMessages cl conf).length≤ min (restarted f.early c.firstVisibleMessageNum).toNat 53
  /-- Keys bring every active message into view as long as the bits stay. -/
  reach : ∀ i (hi : i<(activeMessages cl conf).length),∃ keys c' row message,
    consoleRun flash vars c (presses f keys)=some c' ∧ c'.ui.currentMenu=.state ∧ row<10 ∧
      (c'.stateMenu flash vars (pressing f 0)).2.1.rows[row]?=some message ∧
        RowShows flash vars conf cl (activeMessages cl conf)[i] message

/-- For every run of the tasks, the screens and the datagrams on a new panel,
the state screen shows a page of the messages that are active now, has no row
exactly when they end before it, and can be brought to every one of them. -/
theorem state_screen_shows_messages (u : PowerUp) (s : System) (table : MessageTable) (ui : Ui)
    (ops : List ConsoleOp) (hops : FramesInRange ops) {c : Console}
    (hrun : consoleRun flash vars (startConsole u s table ui) ops=some c)
    (hmenu : c.ui.currentMenu=.state) (f : Frame) :
    ShowsMessages flash vars table.msgConf c.system.panel.arrays c f := by
  obtain ⟨c',b,hrun',hkeeps,-,-⟩ := keeps_run flash vars (P:=fun _ _ => True) (fun _ _ _ => trivial)
    (Keeps.start u s table ui) trivial hops
  obtain rfl := Option.some.inj (hrun.symm.trans hrun')
  obtain ⟨-,hpage⟩ := stateList_shown flash vars c.system.panel.arrays c.system.panel.plcCanLink
    (c.ui.prevKey .state) (restarted f.early c.firstVisibleMessageNum) (c.keyCmd f) hkeeps.follows
  refine ⟨hpage,?_,?_⟩
  · have hlen := hpage.rows.length_eq
    rw [←shown_eq_nil_iff (p:=10) (by omega),←List.length_eq_zero_iff,←List.length_eq_zero_iff,hlen]
    rfl
  · intro i hi
    have hn : activeMessages c.system.panel.arrays table.msgConf≠[] :=
      List.ne_nil_of_length_pos (Nat.zero_lt_of_lt hi)
    have h63 : (activeMessages c.system.panel.arrays table.msgConf).length≤53+10 :=
      activeMessages_length c.system.panel.arrays table.msgConf
    obtain ⟨keys,row,hrow,hview⟩ := exists_turns_shown (by omega) h63
      c.firstVisibleMessageNum.toNat hi
    obtain ⟨c',hpresses,hend⟩ := presses_run flash vars
      (Q:=OnMessages table c.system.panel.arrays) f (fun on h => h.press flash vars hn f on) keys
      ⟨hkeeps.follows,rfl,hmenu,rfl⟩
    obtain ⟨-,hshown⟩ := stateList_shown flash vars c'.system.panel.arrays
      c'.system.panel.plcCanLink (c'.ui.prevKey .state) c'.firstVisibleMessageNum
      (c'.keyCmd (pressing f 0)) hend.follows
    have hrows := hshown.rows
    rw [←stateMenu_pressing,hend.arrays,hend.first] at hrows
    obtain ⟨message,hmessage,hshows⟩ := exists_row_of_forall₂ hrows hview
    exact ⟨keys,c',row,message,hpresses,hend.menu,hrow,hmessage,hshows⟩

end

/-! ## A run -/

/-- KEY_3 is pressed on the main screen. -/
def alarmKey : List ConsoleOp := [.display ⟨key3,⟨false,0⟩,[],[],clock⟩]

/-- A new panel that shows the main screen. -/
def onMain : Console :=
  startConsole firstPower (PanelRun.start zeroPanel) oneMessage {factoryUi with currentMenu := .main}

/-- A new panel that leaves the program mode shows the message whose bit was set. -/
theorem state_screen_shows_first_messages : ∃ c,
    consoleRun (fun _ => 0) zeroVars
        (startConsole firstPower (PanelRun.start zeroPanel) oneMessage factoryUi)
        (firstRounds++[.datagram .leaveProgramMode])=some c ∧
      (activeMessages c.system.panel.arrays oneMessage.msgConf).length=1 ∧
        ∀ f,ShowsMessages (fun _ => 0) zeroVars oneMessage.msgConf c.system.panel.arrays c f := by
  have hframes : FramesInRange (firstRounds++[.datagram .leaveProgramMode]) := by
    intro env rx h
    rcases List.mem_append.mp h with h|h
    · exact firstRounds_inRange env rx h
    · cases List.mem_singleton.mp h
  refine ⟨_,rfl,by decide +kernel,fun f => ?_⟩
  exact state_screen_shows_messages (fun _ => 0) zeroVars firstPower (PanelRun.start zeroPanel)
    oneMessage factoryUi (firstRounds++[.datagram .leaveProgramMode]) hframes rfl rfl f

end BT816Display.AlarmScreens
