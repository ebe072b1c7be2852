import BT816Display.Menu

/-!
# Access to the protected screens

Which screens are reached with and without a password. The screens form a
graph in which the protected ones can only be entered by passwd_menu, and an
invariant ties its buffers to the digits entered since a screen asked for a
password.
-/

namespace BT816Display.MenuAccess

open ByteMemory Runs Keys PasswordStore Menu

/-- Screens that show or change the configuration. -/
def protectedMenus : List MenuList :=
  [.config,.sysCfg,.editVar,.setTime,.trendConf,.addTrend,.trendInfo,.deleteTrend,.editTrend,
    .ipConfig,.ipSet]

/-- The screen is a protected one. -/
def Protected (menu : MenuList) : Prop := menu∈protectedMenus

instance (menu : MenuList) : Decidable (Protected menu) :=
  inferInstanceAs (Decidable (menu∈protectedMenus))

/-! ## The graph of the screens other than passwd_menu -/

/-- The screens that a screen selects without a password. -/
def edges : MenuList → List MenuList
  | .state => [.prog,.main]
  | .main => [.applInfo,.clustInfo,.alarmList,.diagnostic,.drawTrend,.mnemo,.prog,.state]
  | .alarmList => [.main,.clrAlarms]
  | .passwd => []
  | .diagnostic => [.main,.diagnostic2,.pc21State]
  | .diagnostic2 => [.diagnostic,.crossRef,.globInt,.globBits]
  | .pc21State => [.diagnostic]
  | .crossRef | .globInt | .globBits => [.diagnostic2]
  | .config => [.main,.sysCfg,.setTime,.trendConf,.ipConfig]
  | .setTime => [.config]
  | .sysCfg => [.config,.editVar]
  | .editVar => [.sysCfg]
  | .trendConf => [.trendInfo,.addTrend,.editTrend,.deleteTrend,.config]
  | .addTrend | .trendInfo | .deleteTrend | .editTrend => [.trendConf]
  | .manage => [.main,.editU16]
  | .diagn => [.di,.ai,.do_,.clustBits,.netBits,.clustRegs,.netRegs,.main]
  | .di | .do_ | .ai | .clustBits | .netBits | .clustRegs | .netRegs => [.diagn]
  | .editU16 => [.manage]
  | .ipConfig => [.config,.ipSet]
  | .ipSet => [.ipConfig]
  | .applInfo | .clustInfo | .clrAlarms | .prog | .drawTrend | .help | .pc21 | .mnemo => [.main]

/-- The passwords that screens ask for. -/
def asks : MenuList → List UInt16
  | .main => [configAccess]
  | .clrAlarms => [clrAlarmList]
  | .config => [passwordSet1]
  | _ => []

/-- Screens that write variables. -/
def writers : List MenuList := [.editVar,.editU16]

/-- What a screen other than passwd_menu does; `cur` is current_menu when it starts. -/
inductive Ordinary (menu cur : MenuList) : Outcome → Prop
  /-- Select nothing. -/
  | stay (s : Ui) (hcur : s.currentMenu=cur) : Ordinary menu cur ⟨s,none,[]⟩
  /-- Follow an edge. -/
  | go (s : Ui) {t : MenuList} (ht : t∈edges menu) : Ordinary menu cur ⟨s,some t,[]⟩
  /-- Ask for a password. -/
  | ask (s : Ui) (hpos : s.pos=0) (hcmd : s.cmd∈asks menu) :
      Ordinary menu cur ⟨s,some .passwd,[.setPasswdCmd s.cmd]⟩
  /-- Write a variable and follow an edge. -/
  | write (s : Ui) {t : MenuList} (ht : t∈edges menu) (hw : menu∈writers) :
      Ordinary menu cur ⟨s,some t,[.writeVarToPlc]⟩

theorem ordinary_onLeft {menu t : MenuList} (ht : t∈edges menu) (s : Ui) (key : UInt16) :
    Ordinary menu s.currentMenu (onLeft t s key) := by
  unfold onLeft
  split
  · exact .go s ht
  · exact .stay s rfl

/-- A screen that looks at new keys only does nothing else. -/
theorem ordinary_onNewKey {menu : MenuList} (at_ : MenuList) (prev : UInt16 → UInt16)
    {f : Ui → UInt16 → Outcome} (h : ∀ s key,Ordinary menu s.currentMenu (f s key)) (s : Ui)
    (key : UInt16) : Ordinary menu s.currentMenu (onNewKey at_ prev f s key) := by
  have hkeep : ∀ o,Ordinary menu s.currentMenu o →
      Ordinary menu s.currentMenu {o with
        ui := {o.ui with prevKey := Function.update o.ui.prevKey at_ (prev key)}} := by
    intro o ho
    cases ho with
    | stay s' hcur => exact .stay {s' with prevKey := _} hcur
    | go s' ht => exact .go _ ht
    | ask s' hpos hcmd => exact .ask {s' with prevKey := _} hpos hcmd
    | write s' ht hw => exact .write _ ht hw
  unfold onNewKey
  apply hkeep
  split
  · exact h s key
  · exact .stay s rfl

theorem ordinary_ask {menu : MenuList} {value : UInt16} (h : value∈asks menu) (s : Ui)
    (cur : MenuList) : Ordinary menu cur (askPassword s value) := .ask (setPasswdCmd s value) rfl h

/-- A screen that chooses between two ordinary outcomes. -/
theorem ordinary_ite {menu cur : MenuList} {c : Prop} [Decidable c] {o o' : Outcome}
    (h : Ordinary menu cur o) (h' : Ordinary menu cur o') :
    Ordinary menu cur (if c then o else o') := by
  split
  · exact h
  · exact h'

/-- Every screen but passwd_menu is an ordinary one. -/
theorem ordinary_screen (env : Env) {menu : MenuList} (hm : menu≠.passwd) (s : Ui) (key : UInt16) :
    Ordinary menu s.currentMenu (screen env menu s key) := by
  cases menu
  case passwd => exact absurd rfl hm
  case applInfo | clustInfo | help | pc21 | mnemo | di | do_ | ai | clustBits | netBits | clustRegs |
      netRegs => exact ordinary_onLeft (by decide) s key
  case pc21State | crossRef | globInt | globBits =>
    exact ordinary_onNewKey _ _ (fun s key => ordinary_onLeft (by decide) s key) s key
  case state | clrAlarms | diagnostic | diagnostic2 | trendInfo | deleteTrend | editTrend |
      drawTrend =>
    dsimp only [screen,stateMenu,clearAlarmsMenu,diagnosticMenu,diagnosticMenu2,trendInfoMenu,
      deleteTrendInfoMenu,editTrendMenu,drawTrendMenu]
    refine ordinary_onNewKey _ _ (fun s key => ?_) s key
    repeat' refine ordinary_ite ?_ ?_
    all_goals
      first | exact .go _ (by decide) | exact ordinary_ask (by decide) _ _ | exact .stay _ rfl
  case editVar | editU16 =>
    dsimp only [screen,editVarMenu,editU16Menu]
    split_ifs
    · exact .go _ (by decide)
    · exact .write _ (by decide) (by decide)
    · exact .stay _ rfl
  all_goals
    dsimp only [screen,mainMenu,alarmInfoMenu,configMenu,setTimeMenu,systemConfugMenu,progMenu,
      trendConfigMenu,addTrendMenu,manageMenu,diagnMenu,ipConfigMenu,ipSetMenu]
    repeat' refine ordinary_ite ?_ ?_
    all_goals
      first | exact .go _ (by decide) | exact ordinary_ask (by decide) _ _ | exact .stay _ rfl

/-- No edge leads into the protected screens. -/
theorem edges_unprotected {menu t : MenuList} (ht : t∈edges menu) (hp : Protected t) :
    Protected menu := by
  revert t
  cases menu <;> decide

/-- No edge leads to the writing screens that no other screen selects. -/
theorem edges_unreachable {menu t : MenuList} (ht : t∈edges menu) (hmenu : menu∉[.manage,.editU16]) :
    t∉[.manage,.editU16] := by
  revert t
  cases menu <;> revert hmenu <;> decide

/-- No edge leads to passwd_menu. -/
theorem passwd_not_mem_edges (menu : MenuList) : MenuList.passwd∉edges menu := by
  cases menu <;> decide

/-- Only a protected screen asks for a new password. -/
theorem asks_change {menu : MenuList} {value : UInt16} (h : value∈asks menu)
    (hv : value∈[passwordSet1,passwordSet2]) : Protected menu := by
  have hset1 : passwordSet1∈asks menu → Protected menu := by cases menu <;> decide
  have hset2 : passwordSet2∈asks menu → Protected menu := by cases menu <;> decide
  rcases List.mem_cons.mp hv with rfl|hv
  · exact hset1 h
  · rw [List.mem_singleton.mp hv] at h
    exact hset2 h

/-- The mode PASSWORD_SET2 is never asked for. -/
theorem asks_ne {menu : MenuList} {value : UInt16} (h : value∈asks menu) : value≠passwordSet2 := by
  have hnone : passwordSet2∉asks menu := by cases menu <;> decide
  exact fun he => hnone (he ▸ h)

/-! ## passwd_menu -/

/-- The buffers hold the digits entered last: in the mode PASSWORD_SET2 the
first entry and what has been typed since, and what has been typed otherwise. -/
def Typed (s : Ui) (ds : List UInt8) : Prop :=
  (if s.cmd=passwordSet2 then load s.newPasswd 0 6 else [])++load s.tmpPasswd 0 s.pos <:+ ds

/-- The effects are digits. -/
def Digits (effects : List Effect) : Prop := ∀ e∈effects,∃ d,e=.digit d

/-- What passwd_menu does in a mode and with a password, when `ds` are the
digits entered, this key's included. -/
inductive Attempt (cur : MenuList) (cmd : UInt16) (passwd ds : List UInt8) (o : Outcome) : Prop
  /-- More digits are needed. -/
  | typing (ht : o.target=none) (hcur : o.ui.currentMenu=cur) (hpos : o.ui.pos<6)
      (hty : Typed o.ui ds)
      (hcmd : o.ui.cmd∈[passwordSet1,passwordSet2] → cmd∈[passwordSet1,passwordSet2])
      (he : Digits o.effects)
  /-- Back to the main screen. -/
  | left (ht : o.target=some .main) (he : Digits o.effects)
  /-- The archive is cleared. -/
  | cleared (ht : o.target=some .main) (hcmd : cmd=clrAlarmList) (six : List UInt8)
      (hsix : six=userPassword ∨ six=secretPassw) (hend : six <:+ ds)
      (he : ∀ e∈o.effects,(∃ d,e=.digit d) ∨ e=.clearArchive)
  /-- Access to the configuration is granted. -/
  | granted (ht : o.target=some .config) (hcmd : cmd=configAccess) (six : List UInt8)
      (hsix : six=passwd ∨ six=secretPassw) (hend : six <:+ ds) (he : Digits o.effects)
  /-- The password is changed. -/
  | changed (ht : o.target=some .config) (hcmd : cmd=passwordSet2) (six : List UInt8)
      (hlen : six.length=6) (hend : six++six <:+ ds) (hmem : .setPasswdValue six∈o.effects)
      (he : ∀ e∈o.effects,(∃ d,e=.digit d) ∨ e=.setPasswdValue six)

/-- A digit is appended to what has been typed. -/
theorem typed_enterDigit {s : Ui} {ds : List UInt8} (h : Typed s ds) (d : UInt8) :
    Typed (enterDigit s d) (ds++[d]) := by
  have hprev : load (store s.tmpPasswd s.pos [d]) 0 s.pos=load s.tmpPasswd 0 s.pos :=
    load_store_disjoint (by omega)
  have hself : load (store s.tmpPasswd s.pos [d]) s.pos 1=[d] :=
    load_store_self s.tmpPasswd s.pos [d]
  have hload : load (store s.tmpPasswd s.pos [d]) 0 (s.pos+1)=load s.tmpPasswd 0 s.pos++[d] := by
    rw [load_append,Nat.zero_add,hprev,hself]
  obtain ⟨earlier,he⟩ := h
  refine ⟨earlier,?_⟩
  unfold enterDigit
  dsimp only
  rw [hload,←List.append_assoc,←List.append_assoc,List.append_assoc earlier,he]

/-- A correct entry is one of the two passwords of its mode. -/
theorem checkTmpPasswd_cases {s : Ui} (h : checkTmpPasswd s=true) :
    load s.tmpPasswd 0 6=(if s.cmd=clrAlarmList then userPassword else load s.store.passwd 0 6) ∨
      load s.tmpPasswd 0 6=secretPassw := by
  unfold checkTmpPasswd at h
  dsimp only at h
  by_cases hc : s.cmd=clrAlarmList
  · rw [if_pos hc] at h ⊢
    by_cases hu : userPassword=load s.tmpPasswd 0 6
    · exact Or.inl hu.symm
    · rw [decide_eq_false hu,if_pos rfl] at h
      exact Or.inr (of_decide_eq_true h).symm
  · rw [if_neg hc] at h ⊢
    by_cases hu : load s.store.passwd 0 6=load s.tmpPasswd 0 6
    · exact Or.inl hu.symm
    · rw [decide_eq_false hu,if_pos rfl] at h
      exact Or.inr (of_decide_eq_true h).symm

/-- Nothing has been typed when no digit is in the buffer. -/
theorem typed_of_empty {s : Ui} (hpos : s.pos=0) (hcmd : s.cmd≠passwordSet2) (ds : List UInt8) :
    Typed s ds := by
  unfold Typed
  rw [if_neg hcmd,hpos]
  exact List.nil_suffix

/-- What six digits do. -/
theorem attempt_passwdFull {o : Outcome} {ds : List UInt8} (hpos : o.ui.pos=6)
    (hty : Typed o.ui ds) (ht : o.target=none) (he : Digits o.effects) :
    Attempt o.ui.currentMenu o.ui.cmd (load o.ui.store.passwd 0 6) ds (passwdFull o) := by
  have hwith : ∀ x,∀ e∈o.effects++[x],(∃ d,e=.digit d) ∨ e=x := by
    intro x e hm
    rcases List.mem_append.mp hm with hd|hx
    · exact Or.inl (he e hd)
    · exact Or.inr (List.mem_singleton.mp hx)
  have hsix : o.ui.cmd≠passwordSet2 → load o.ui.tmpPasswd 0 6 <:+ ds := by
    intro hc
    unfold Typed at hty
    rwa [if_neg hc,hpos,List.nil_append] at hty
  unfold passwdFull
  dsimp only
  by_cases h1 : o.ui.cmd=passwordSet1
  · have hnew := load_store_self o.ui.newPasswd 0 (load o.ui.tmpPasswd 0 6)
    rw [load_length] at hnew
    rw [if_pos h1]
    refine .typing ht rfl (Nat.succ_pos 5) ?_ (fun _ => ?_) he
    · unfold Typed
      dsimp only
      rw [if_pos rfl,hnew]
      exact (List.append_nil _).symm ▸ hsix (by rw [h1]; decide)
    · rw [h1]
      decide
  · rw [if_neg h1]
    by_cases h2 : o.ui.cmd=passwordSet2
    · rw [if_pos h2]
      by_cases heq : load o.ui.newPasswd 0 6=load o.ui.tmpPasswd 0 6
      · unfold Typed at hty
        rw [if_pos h2,hpos,←heq] at hty
        rw [if_pos heq]
        exact .changed rfl h2 (load o.ui.newPasswd 0 6) (load_length _ _ _) hty
          (List.mem_append_right _ (List.mem_singleton.mpr rfl)) (hwith _)
      · rw [if_neg heq]
        have hne : passwordSet1≠passwordSet2 := by decide
        refine .typing ht rfl (Nat.succ_pos 5) (typed_of_empty rfl hne ds) (fun _ => ?_) he
        rw [h2]
        decide
    · rw [if_neg h2]
      by_cases hcheck : checkTmpPasswd o.ui=true
      · have hcases := checkTmpPasswd_cases hcheck
        rw [if_pos hcheck]
        by_cases hclr : o.ui.cmd=clrAlarmList
        · rw [if_pos hclr] at hcases ⊢
          exact .cleared rfl hclr _ hcases (hsix h2) (hwith _)
        · rw [if_neg hclr] at hcases ⊢
          by_cases hcfg : o.ui.cmd=configAccess
          · rw [if_pos hcfg]
            exact .granted rfl hcfg _ hcases (hsix h2) he
          · rw [if_neg hcfg]
            exact .left rfl he
      · rw [if_neg hcheck]
        exact .typing ht rfl (Nat.succ_pos 5)
          (typed_of_empty (s:=clearTmpPassword o.ui) rfl h2 ds) (fun h => h) he

/-- The effects of six digits are no more digits. -/
theorem passwdFull_entered (o : Outcome) (ds : List UInt8) :
    (passwdFull o).effects.foldl enteredAfter ds=o.effects.foldl enteredAfter ds := by
  unfold passwdFull
  dsimp only
  split_ifs
  all_goals first | rfl | exact List.foldl_append ..

/-- A key leaves passwd_menu, is a digit or is nothing to it. -/
theorem passwdKey_cases (s : Ui) (key : UInt16) :
    passwdKey s key=go {s with cmd := 0} .main ∨ passwdKey s key=stay s ∨
      ∃ d,passwdKey s key=⟨enterDigit s d,none,[.digit d]⟩ := by
  unfold passwdKey
  by_cases hleft : key=keyLeft
  · exact Or.inl (if_pos hleft)
  · right
    rw [if_neg hleft]
    cases digit key with
    | none => exact Or.inl rfl
    | some d =>
      dsimp only
      split
      · exact Or.inr ⟨d,rfl⟩
      · exact Or.inl rfl

/-- What passwd_menu does with a key. -/
theorem attempt_passwdMenu {s : Ui} {ds : List UInt8} (hpos : s.pos<6) (hty : Typed s ds)
    (key : UInt16) :
    Attempt s.currentMenu s.cmd (load s.store.passwd 0 6)
      ((passwdMenu s key).effects.foldl enteredAfter ds) (passwdMenu s key) := by
  have hkeep : ∀ o ds',Attempt s.currentMenu s.cmd (load s.store.passwd 0 6) ds' o →
      Attempt s.currentMenu s.cmd (load s.store.passwd 0 6) ds' {o with
        ui := {o.ui with prevKey := Function.update o.ui.prevKey .passwd (kept key)}} := by
    intro o ds' ho
    cases ho with
    | typing ht hcur hp hty hcmd he => exact .typing ht hcur hp hty hcmd he
    | left ht he => exact .left ht he
    | cleared ht hcmd six hsix hend he => exact .cleared ht hcmd six hsix hend he
    | granted ht hcmd six hsix hend he => exact .granted ht hcmd six hsix hend he
    | changed ht hcmd six hlen hend hmem he => exact .changed ht hcmd six hlen hend hmem he
  have hnone : Digits [] := fun e h => absurd h List.not_mem_nil
  unfold passwdMenu
  dsimp only
  apply hkeep
  rcases passwdKey_cases s key with h|h|⟨d,h⟩
  · have hp : ¬(go {s with cmd := 0} MenuList.main).ui.pos≥6 := Nat.not_le.mpr hpos
    rw [h,if_neg hp]
    exact .left rfl hnone
  · have hp : ¬(stay s).ui.pos≥6 := Nat.not_le.mpr hpos
    rw [h,if_neg hp]
    exact .typing rfl rfl hpos hty (fun h => h) hnone
  · have htyped := typed_enterDigit hty d
    have hone : Digits [.digit d] := fun e h => ⟨d,List.mem_singleton.mp h⟩
    have hsucc : (enterDigit s d).pos=s.pos+1 := rfl
    rw [h]
    dsimp only
    by_cases hfull : (enterDigit s d).pos≥6
    · have hsix : (enterDigit s d).pos=6 := by omega
      rw [if_pos hfull,passwdFull_entered]
      exact attempt_passwdFull (o:=⟨enterDigit s d,none,[.digit d]⟩) hsix htyped rfl hone
    · rw [if_neg hfull]
      exact .typing rfl rfl (Nat.not_le.mp hfull) htyped (fun h => h) hone

/-! ## One operation -/

/-- The screens the datagrams leave alone or select. -/
def Reset (before after : MenuList) : Prop := after=before ∨ after=.state ∨ after=.prog

theorem Reset.trans {a b c : MenuList} (h : Reset a b) (h' : Reset b c) : Reset a c := by
  rcases h' with rfl|h'
  · exact h
  · exact Or.inr h'

/-- Of the protected screens and passwd_menu the datagrams select none. -/
theorem Reset.eq {a b : MenuList} (h : Reset a b) (hb : Protected b ∨ b=.passwd) : b=a := by
  rcases h with h|rfl|rfl
  · exact h
  · exact absurd hb (by decide)
  · exact absurd hb (by decide)

/-- The screen and the variables behind display_menu. -/
theorem displayMenu_ui (s : Ui) (env : Env) (key : UInt16) (early late : List UdpCommand) :
    let o := screen env s.currentMenu (udpAll s early) key
    let ui := (displayMenu s env key early late).1
    (∀ t,o.target=some t → ui.currentMenu=t) ∧
      (o.target=none → Reset o.ui.currentMenu ui.currentMenu) ∧
        ui.cmd=o.ui.cmd ∧ ui.tmpPasswd=o.ui.tmpPasswd ∧ ui.newPasswd=o.ui.newPasswd ∧
          ui.pos=o.ui.pos ∧ (displayMenu s env key early late).2=o.effects := by
  have hp := udpAll_password (screen env s.currentMenu (udpAll s early) key).ui late
  have hr := udpAll_currentMenu (screen env s.currentMenu (udpAll s early) key).ui late
  unfold displayMenu
  dsimp only
  cases (screen env s.currentMenu (udpAll s early) key).target with
  | none =>
    exact ⟨fun t h => absurd h (by simp),fun _ => hr,hp.1,hp.2.2.1,hp.2.2.2.1,hp.2.2.2.2.1,rfl⟩
  | some menu =>
    exact ⟨fun t h => Option.some.inj h,fun h => absurd h (by simp),hp.1,hp.2.2.1,hp.2.2.2.1,
      hp.2.2.2.2.1,rfl⟩

/-- The buffers do not depend on the screen. -/
theorem typed_congr {s s' : Ui} (hcmd : s'.cmd=s.cmd) (htmp : s'.tmpPasswd=s.tmpPasswd)
    (hnew : s'.newPasswd=s.newPasswd) (hpos : s'.pos=s.pos) {ds : List UInt8} (h : Typed s ds) :
    Typed s' ds := by
  unfold Typed at h ⊢
  rw [hcmd,htmp,hnew,hpos]
  exact h

/-- passwd_menu is shown with its buffers filled by the digits entered, and the
screens that nothing else selects are not shown. -/
structure Shown (r : UiRun) : Prop where
  /-- The screen can be reached. -/
  reached : r.ui.currentMenu∉[.manage,.editU16]
  /-- There is room for a digit. -/
  room : r.ui.currentMenu=.passwd → r.ui.pos<6
  /-- The buffers. -/
  typed : r.ui.currentMenu=.passwd → Typed r.ui r.entered

/-- What one operation does to the screen shown, the password menu and the digits. -/
inductive Move (r r' : UiRun) (effects : List Effect) : Prop
  /-- Nothing is selected, or a datagram selects a screen. -/
  | reset (hr : Reset r.ui.currentMenu r'.ui.currentMenu)
      (hp : r'.ui.currentMenu=.passwd → r'.ui.pos<6 ∧ Typed r'.ui r'.entered ∧
        (r'.ui.cmd∈[passwordSet1,passwordSet2] → r.ui.cmd∈[passwordSet1,passwordSet2]))
      (he : Digits effects)
  /-- A screen follows an edge, and may write a variable. -/
  | edge (ht : r'.ui.currentMenu∈edges r.ui.currentMenu)
      (he : ∀ e∈effects,e=.writeVarToPlc ∧ r.ui.currentMenu∈writers)
  /-- A screen asks for a password. -/
  | ask (ht : r'.ui.currentMenu=.passwd) (hcmd : r'.ui.cmd∈asks r.ui.currentMenu)
      (hpos : r'.ui.pos=0) (he : ∀ e∈effects,∃ value,e=.setPasswdCmd value)
  /-- passwd_menu is left. -/
  | left (hm : r.ui.currentMenu=.passwd) (ht : r'.ui.currentMenu=.main) (he : Digits effects)
  /-- passwd_menu clears the archive. -/
  | cleared (hm : r.ui.currentMenu=.passwd) (ht : r'.ui.currentMenu=.main) (six : List UInt8)
      (hsix : six=userPassword ∨ six=secretPassw) (hend : six <:+ r'.entered)
      (he : ∀ e∈effects,(∃ d,e=.digit d) ∨ e=.clearArchive)
  /-- passwd_menu grants access. -/
  | granted (hm : r.ui.currentMenu=.passwd) (ht : r'.ui.currentMenu=.config)
      (hcmd : r.ui.cmd=configAccess) (six : List UInt8)
      (hsix : six=load r.ui.store.passwd 0 6 ∨ six=secretPassw) (hend : six <:+ r'.entered)
      (he : Digits effects)
  /-- passwd_menu sets a password. -/
  | changed (hm : r.ui.currentMenu=.passwd) (ht : r'.ui.currentMenu=.config)
      (hcmd : r.ui.cmd=passwordSet2) (six : List UInt8) (hlen : six.length=6)
      (hend : six++six <:+ r'.entered) (hmem : .setPasswdValue six∈effects)
      (he : ∀ e∈effects,(∃ d,e=.digit d) ∨ e=.setPasswdValue six)

/-- Every operation is one of these. -/
theorem move_step {r : UiRun} (h : Shown r) (op : UiOp) :
    Move r (uiRunStep r op) (uiStep r.ui op).2 := by
  cases op with
  | datagram command =>
    have hnone : Digits [] := fun e he => absurd he List.not_mem_nil
    cases command with
    | setProgramMode =>
      have hm : (uiRunStep r (.datagram .setProgramMode)).ui.currentMenu=.prog := rfl
      exact .reset (Or.inr (Or.inr hm)) (fun hp => absurd (hm.symm.trans hp) (by decide)) hnone
    | leaveProgramMode =>
      have hm : (uiRunStep r (.datagram .leaveProgramMode)).ui.currentMenu=.state := rfl
      exact .reset (Or.inr (Or.inl hm)) (fun hp => absurd (hm.symm.trans hp) (by decide)) hnone
  | display key env early late =>
    have hudp := udpAll_password r.ui early
    have hearly := udpAll_currentMenu r.ui early
    obtain ⟨hsome,hnone,hcmd,htmp,hnew,hpos,heff⟩ := displayMenu_ui r.ui env key early late
    change Move r (uiRunStep r (.display key env early late)) (displayMenu r.ui env key early late).2
    by_cases hm : r.ui.currentMenu=.passwd
    · have htyped : Typed (udpAll r.ui early) r.entered :=
        typed_congr hudp.1 hudp.2.2.1 hudp.2.2.2.1 hudp.2.2.2.2.1 (h.typed hm)
      have hattempt := attempt_passwdMenu (by rw [hudp.2.2.2.2.1]; exact h.room hm) htyped key
      have hentered : (uiRunStep r (.display key env early late)).entered=
          (passwdMenu (udpAll r.ui early) key).effects.foldl enteredAfter r.entered := by
        change (displayMenu r.ui env key early late).2.foldl enteredAfter r.entered=_
        rw [heff,hm]
        rfl
      rw [hudp.1,hudp.2.1,←hentered] at hattempt
      rw [heff]
      rw [hm] at hsome hnone hcmd htmp hnew hpos ⊢
      cases hattempt with
      | typing ht hcur hroom hty hset he =>
        refine .reset ?_ (fun _ => ⟨?_,?_,?_⟩) he
        · rw [hm]
          refine Reset.trans ?_ (hcur ▸ hnone ht)
          rw [←hm]
          exact hearly
        · exact hpos ▸ hroom
        · exact typed_congr hcmd htmp hnew hpos hty
        · exact fun hin => hset (hcmd ▸ hin)
      | left ht he => exact .left hm (hsome _ ht) he
      | cleared ht _ six hsix hend he => exact .cleared hm (hsome _ ht) six hsix hend he
      | granted ht hc six hsix hend he => exact .granted hm (hsome _ ht) hc six hsix hend he
      | changed ht hc six hlen hend hmem he =>
        exact .changed hm (hsome _ ht) hc six hlen hend hmem he
    · have hordinary := ordinary_screen env hm (udpAll r.ui early) key
      rw [heff]
      generalize screen env r.ui.currentMenu (udpAll r.ui early) key=o at *
      cases hordinary with
      | stay s hcur =>
        have hreset : Reset r.ui.currentMenu
            (uiRunStep r (.display key env early late)).ui.currentMenu :=
          Reset.trans hearly (hcur ▸ hnone rfl)
        exact .reset hreset (fun hp => absurd ((hreset.eq (Or.inr hp)).symm.trans hp) hm)
          fun e he => absurd he List.not_mem_nil
      | go s ht =>
        exact .edge ((hsome _ rfl).symm ▸ ht) fun e he => absurd he List.not_mem_nil
      | write s ht hw =>
        exact .edge ((hsome _ rfl).symm ▸ ht) fun e he => ⟨List.mem_singleton.mp he,hw⟩
      | ask s h0 hin =>
        exact .ask (hsome _ rfl) (hcmd.symm ▸ hin) (hpos.trans h0)
          fun e he => ⟨_,List.mem_singleton.mp he⟩

/-- Every operation keeps passwd_menu in step with the digits entered. -/
theorem Shown.step {r : UiRun} (h : Shown r) (op : UiOp) : Shown (uiRunStep r op) := by
  have hto : ∀ menu,(uiRunStep r op).ui.currentMenu=menu → menu∉[.manage,.editU16] →
      menu≠.passwd → Shown (uiRunStep r op) := by
    intro menu hm hin hne
    exact ⟨hm ▸ hin,fun hp => absurd (hm.symm.trans hp) hne,
      fun hp => absurd (hm.symm.trans hp) hne⟩
  cases move_step h op with
  | reset hr hp he =>
    refine ⟨?_,fun hm => (hp hm).1,fun hm => (hp hm).2.1⟩
    rcases hr with hr|hr|hr
    · rw [hr]
      exact h.reached
    · rw [hr]
      decide
    · rw [hr]
      decide
  | edge ht he =>
    exact hto _ rfl (edges_unreachable ht h.reached) fun hp =>
      passwd_not_mem_edges r.ui.currentMenu (hp ▸ ht)
  | ask ht hcmd hpos he =>
    refine ⟨by rw [ht]; decide,fun _ => ?_,fun _ => typed_of_empty hpos (asks_ne hcmd) _⟩
    rw [hpos]
    exact Nat.succ_pos 5
  | left hm ht he => exact hto _ ht (by decide) (by decide)
  | cleared hm ht => exact hto _ ht (by decide) (by decide)
  | granted hm ht => exact hto _ ht (by decide) (by decide)
  | changed hm ht => exact hto _ ht (by decide) (by decide)

/-! ## Runs -/

/-- The panel as it starts. -/
def start (s : Ui) : Ui := {s with currentMenu := .state}

theorem shown_run (s : Ui) (ops : List UiOp) : Shown (uiRun (start s) ops) := by
  induction ops using List.reverseRecOn with
  | nil =>
    have hm : (uiRun (start s) []).ui.currentMenu=.state := rfl
    exact ⟨by rw [hm]; decide,fun hp => absurd (hm.symm.trans hp) (by decide),
      fun hp => absurd (hm.symm.trans hp) (by decide)⟩
  | append_singleton ops op ih =>
    rw [uiRun_concat]
    exact ih.step op

/-- passwd_menu grants access to the configuration for six digits, entered one
after the other, that are the password or the built-in one. -/
structure Access (s : Ui) (pre : List UiOp) (op : UiOp) : Prop where
  /-- The screen. -/
  menu : (uiRun (start s) pre).ui.currentMenu=.passwd
  /-- The mode. -/
  cmd : (uiRun (start s) pre).ui.cmd=configAccess
  /-- The digits. -/
  digits : ∃ six,(six=load (uiRun (start s) pre).ui.store.passwd 0 6 ∨ six=secretPassw) ∧
    six <:+ (uiRun (start s) (pre++[op])).entered

/-- Access has been granted before. -/
def Accessed (s : Ui) (ops : List UiOp) : Prop :=
  ∃ pre op post,pre++op::post=ops ∧ Access s pre op

/-- The effects of an operation. -/
def effects (s : Ui) (pre : List UiOp) (op : UiOp) : List Effect :=
  (uiStep (uiRun (start s) pre).ui op).2

/-- passwd_menu ends a change of the password. -/
structure Change (s : Ui) (pre : List UiOp) (op : UiOp) : Prop where
  /-- The screen. -/
  menu : (uiRun (start s) pre).ui.currentMenu=.passwd
  /-- The mode. -/
  cmd : (uiRun (start s) pre).ui.cmd=passwordSet2
  /-- The new password is set. -/
  set : ∃ six,.setPasswdValue six∈effects s pre op

/-- Access control in one operation of a run. -/
structure Controlled (s : Ui) (pre : List UiOp) (op : UiOp) : Prop where
  /-- A protected screen is entered by access or at the end of a change. -/
  entry : ¬Protected (uiRun (start s) pre).ui.currentMenu →
    Protected (uiRun (start s) (pre++[op])).ui.currentMenu → Access s pre op ∨ Change s pre op
  /-- A password is set after access and two equal entries of six digits. -/
  change : ∀ six,.setPasswdValue six∈effects s pre op →
    Accessed s pre ∧ six.length=6 ∧ six++six <:+ (uiRun (start s) (pre++[op])).entered
  /-- The archive is cleared by passwd_menu after six digits. -/
  clear : .clearArchive∈effects s pre op →
    (uiRun (start s) pre).ui.currentMenu=.passwd ∧
      ∃ six,(six=userPassword ∨ six=secretPassw) ∧
        six <:+ (uiRun (start s) (pre++[op])).entered
  /-- A variable is written by edit_var_menu. -/
  write : .writeVarToPlc∈effects s pre op → (uiRun (start s) pre).ui.currentMenu=.editVar

/-- The configuration is open: a protected screen is shown, or passwd_menu is
taking a new password. -/
def Open (r : UiRun) : Prop :=
  Protected r.ui.currentMenu ∨
    r.ui.currentMenu=.passwd ∧ r.ui.cmd∈[passwordSet1,passwordSet2]

theorem not_open_main {r : UiRun} (hm : r.ui.currentMenu=.main) : ¬Open r := by
  unfold Open
  rw [hm]
  rintro (h|h)
  · exact absurd h (by decide)
  · exact absurd h.1 (by decide)

/-- Only access opens the configuration. -/
theorem access_of_open {s : Ui} {pre : List UiOp} {op : UiOp} (h : ¬Open (uiRun (start s) pre))
    (ho : Open (uiRun (start s) (pre++[op]))) : Access s pre op := by
  have hmove := move_step (shown_run s pre) op
  rw [uiRun_concat] at ho
  cases hmove with
  | reset hr hp he =>
    rcases ho with hprot|⟨hm,hcmd⟩
    · exact absurd (Or.inl (hr.eq (Or.inl hprot) ▸ hprot)) h
    · exact absurd (Or.inr ⟨(hr.eq (Or.inr hm)).symm.trans hm,(hp hm).2.2 hcmd⟩) h
  | edge ht he =>
    rcases ho with hprot|⟨hm,-⟩
    · exact absurd (Or.inl (edges_unprotected ht hprot)) h
    · exact absurd (hm ▸ ht) (passwd_not_mem_edges _)
  | ask ht hcmd hpos he =>
    rcases ho with hprot|⟨-,hset⟩
    · rw [ht] at hprot
      exact absurd hprot (by decide)
    · exact absurd (Or.inl (asks_change hcmd hset)) h
  | left hm ht he => exact absurd ho (not_open_main ht)
  | cleared hm ht => exact absurd ho (not_open_main ht)
  | granted hm ht hcmd six hsix hend he =>
    refine ⟨hm,hcmd,six,hsix,?_⟩
    rw [uiRun_concat]
    exact hend
  | changed hm ht hcmd => exact absurd (Or.inr ⟨hm,by rw [hcmd]; decide⟩) h

/-- An open configuration has been opened by access. -/
theorem accessed_of_open {s : Ui} {ops : List UiOp} (h : Open (uiRun (start s) ops)) :
    Accessed s ops := by
  have h0 : ¬Open (uiRun (start s) []) := by
    rintro (hp|hp)
    · exact absurd (show MenuList.state∈protectedMenus from hp) (by decide)
    · exact absurd (show MenuList.state=.passwd from hp.1) (by decide)
  obtain ⟨pre,op,post,he,hpre,hentry⟩ :=
    exists_entry (P:=fun ops => Open (uiRun (start s) ops)) h0 h
  exact ⟨pre,op,post,he,access_of_open hpre hentry⟩

/-- A protected screen is entered by access or at the end of a change. -/
theorem entry_of_move {s : Ui} {pre : List UiOp} {op : UiOp}
    (hbefore : ¬Protected (uiRun (start s) pre).ui.currentMenu)
    (hafter : Protected (uiRun (start s) (pre++[op])).ui.currentMenu) :
    Access s pre op ∨ Change s pre op := by
  have hmove := move_step (shown_run s pre) op
  have hconcat := uiRun_concat (start s) pre op
  rw [hconcat] at hafter
  cases hmove with
  | reset hr hp he => exact absurd (hr.eq (Or.inl hafter) ▸ hafter) hbefore
  | edge ht he => exact absurd (edges_unprotected ht hafter) hbefore
  | ask ht hcmd hpos he => exact absurd (ht ▸ hafter) (by decide)
  | left hm ht he => exact absurd (ht ▸ hafter) (by decide)
  | cleared hm ht => exact absurd (ht ▸ hafter) (by decide)
  | granted hm ht hcmd six hsix hend he => exact Or.inl ⟨hm,hcmd,six,hsix,hconcat ▸ hend⟩
  | changed hm ht hcmd six hlen hend hmem he => exact Or.inr ⟨hm,hcmd,six,hmem⟩

/-- What an effect says about the operation it belongs to. -/
def Caused (r r' : UiRun) : Effect → Prop
  | .setPasswdCmd _ | .digit _ => True
  | .setPasswdValue six => Open r ∧ six.length=6 ∧ six++six <:+ r'.entered
  | .clearArchive => r.ui.currentMenu=.passwd ∧
      ∃ six,(six=userPassword ∨ six=secretPassw) ∧ six <:+ r'.entered
  | .writeVarToPlc => r.ui.currentMenu∈writers

theorem caused_of_digits {r r' : UiRun} {effects : List Effect} (h : Digits effects) :
    ∀ e∈effects,Caused r r' e := by
  intro e he
  obtain ⟨d,rfl⟩ := h e he
  trivial

theorem caused_of_move {r r' : UiRun} {effects : List Effect} (h : Move r r' effects) :
    ∀ e∈effects,Caused r r' e := by
  cases h with
  | reset hr hp he => exact caused_of_digits he
  | left hm ht he => exact caused_of_digits he
  | granted hm ht hcmd six hsix hend he => exact caused_of_digits he
  | edge ht he =>
    intro e hmem
    obtain ⟨rfl,hw⟩ := he e hmem
    exact hw
  | ask ht hcmd hpos he =>
    intro e hmem
    obtain ⟨value,rfl⟩ := he e hmem
    trivial
  | cleared hm ht six hsix hend he =>
    intro e hmem
    rcases he e hmem with ⟨d,rfl⟩|rfl
    · trivial
    · exact ⟨hm,six,hsix,hend⟩
  | changed hm ht hcmd six hlen hend _ he =>
    intro e hmem
    rcases he e hmem with ⟨d,rfl⟩|rfl
    · trivial
    · exact ⟨Or.inr ⟨hm,by rw [hcmd]; decide⟩,hlen,hend⟩

/-- Every operation of a run is under access control. -/
theorem controlled_of_move (s : Ui) (pre : List UiOp) (op : UiOp) : Controlled s pre op := by
  have hshown := shown_run s pre
  have hcaused := caused_of_move (move_step hshown op)
  rw [←uiRun_concat] at hcaused
  refine ⟨entry_of_move,fun six h => ?_,fun h => hcaused _ h,fun h => ?_⟩
  · obtain ⟨hopen,hlen,hend⟩ := hcaused _ h
    exact ⟨accessed_of_open hopen,hlen,hend⟩
  · have hreached := hshown.reached
    rcases List.mem_cons.mp (hcaused _ h) with hm|hm
    · exact hm
    · rw [List.mem_singleton.mp hm] at hreached
      exact absurd hreached (by decide)

/-- In every run from the state screen, with datagrams at any time, the
protected screens, the password, the archive and the variables of the PLC are
under access control. -/
theorem access_controlled (s : Ui) (ops : List UiOp) : InputsMeet (Controlled s) ops :=
  fun pre op _ _ => controlled_of_move s pre op

/-- A panel with the factory password. -/
def factoryUi : Ui where
  currentMenu := .state
  progModeFlag := 0
  progMenuCmd := 0
  prevKey := fun _ => 0
  cmd := 0
  store := ⟨factoryDigits,fun _ => 0⟩
  tmpPasswd := fun _ => 0
  newPasswd := fun _ => 0
  pos := 0

/-- A key is pressed. -/
def press (key : UInt16) : UiOp := .display key ⟨false,0⟩ [] []

/-- The configuration is opened with the factory password, which is entered as
the new one too, all but its last digit the second time. -/
def changeKeys : List UiOp :=
  [keyEnter,key5,key1,key2,key3,key4,key5,key6,key4,key1,key2,key3,key4,key5,key6,key1,key2,key3,
    key4,key5].map press

/-- The last digit enters the configuration from passwd_menu in the mode
PASSWORD_SET2, so not by access. -/
theorem change_enters_config :
    ¬Protected (uiRun (start factoryUi) changeKeys).ui.currentMenu ∧
      Protected (uiRun (start factoryUi) (changeKeys++[press key6])).ui.currentMenu ∧
        ¬Access factoryUi changeKeys (press key6) := by
  have hcmd : (uiRun (start factoryUi) changeKeys).ui.cmd=passwordSet2 := by decide +kernel
  refine ⟨by decide +kernel,by decide +kernel,fun h => ?_⟩
  rw [h.cmd] at hcmd
  exact absurd hcmd (by decide)

end BT816Display.MenuAccess
