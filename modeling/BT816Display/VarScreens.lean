import BT816Display.Keys
import BT816Display.Menu
import BT816Display.PanelRun

/-!
# The screens of the variables

system_confug_menu lists the variables that an operator can write, ten at a
time, and opens edit_var_menu for the one under the cursor. The list is in the
flash of the display, one record of 64 bytes for each variable.
-/

namespace BT816Display.VarScreens

open ByteMemory BigEndian ArrayAccess PlcData CanCmd PanelRun Keys Runs
open Menu (MenuList)

/-- A variable as get_manage_var loads it. -/
structure LoadedVar where
  /-- Name, with the zero behind it. -/
  name : List UInt8
  /-- Limits, value and link. -/
  var : ManageVar
  /-- Length of the list. -/
  varCnt : UInt16

/-- The loaded list of variables. -/
structure VarList where
  /-- The flash of the display. -/
  flash : Mem UInt8
  /-- edit_var_addr. -/
  editVarAddr : UInt32
  /-- edit_var_cnt. -/
  editVarCnt : UInt16

/-- Byte `j` of record `i`. -/
def VarList.byte (l : VarList) (i : UInt16) (j : ℕ) : UInt8 :=
  l.flash ((l.editVarAddr+64*i.toUInt32).toNat+j)

/-- The link type for its byte in a record; other bytes leave it as it was. -/
def linkTypeOf (byte : UInt8) : Option UInt16 :=
  if byte=0 then some varLinkClBit
  else if byte=1 then some varLinkClReg
  else if byte=2 then some varLinkNetBit
  else if byte=3 then some varLinkNetReg
  else none

/-- The value of a variable in the cluster structure. -/
def valueOf (m : Arrays Val) (linkType linkIndex : UInt16) : UInt32 :=
  let n := linkIndex.toNat
  if linkType=varLinkClReg then
    if n<clusterRegsCnt then (m .clClusterRegs n : UInt16).toUInt32 else 0
  else if linkType=varLinkNetReg then
    if n<netRegsCnt then (m .clNetRegs n : UInt16).toUInt32 else 0
  else if linkType=varLinkClBit then
    if n<clustBitsCnt then (m .clClusterBits n : UInt8).toUInt32 else 0
  else if linkType=varLinkNetBit then
    if n<netBitsCnt then (m .clNetBits n : UInt8).toUInt32 else 0
  else 0

/-- get_manage_var, with the link type that its result holds before. -/
def getManageVar (l : VarList) (m : Arrays Val) (i linkType : UInt16) : Option LoadedVar :=
  if l.editVarAddr≠0 ∧ i<l.editVarCnt then
    let linkType := (linkTypeOf (l.byte i 40)).getD linkType
    let linkIndex := join16 (l.byte i 41) (l.byte i 42)
    some {
      name := (List.range 40).map (l.byte i)++[0]
      var := {
        min := (join16 (l.byte i 43) (l.byte i 44)).toUInt32
        max := (join16 (l.byte i 45) (l.byte i 46)).toUInt32
        value := valueOf m linkType linkIndex
        linkType := linkType
        linkIndex := linkIndex }
      varCnt := l.editVarCnt }
  else none

/-- The variables of the two screens. -/
structure VarUi where
  /-- current_menu. -/
  currentMenu : MenuList
  /-- offset, the first variable shown. -/
  offset : UInt16
  /-- curs_pos, the row of the cursor. -/
  cursPos : UInt16
  /-- edit_var of system_config_menu.c. -/
  cached : LoadedVar
  /-- edit_var of edit_var_menu.c. -/
  editVar : LoadedVar
  /-- u16var_text of edit_var_menu.c. -/
  text : Mem UInt8
  /-- var_x_pos of edit_var_menu.c. -/
  varXPos : UInt16
  /-- The shared variables. -/
  panel : Panel
  /-- Arguments of write_var_to_plc. -/
  writes : List ManageVar

/-- Five blanks and the zero behind them. -/
def blankText (text : Mem UInt8) : Mem UInt8 := store text 0 [0x20,0x20,0x20,0x20,0x20,0]

/-- set_edit_var. -/
def setEditVar (s : VarUi) (var : LoadedVar) : VarUi :=
  {s with editVar := var,varXPos := 0,text := blankText s.text}

/-- Rows of a page. -/
abbrev row : ℕ := 10

/-- One row of the page: the length of the list, once it is known, and the
variable under the cursor. -/
def showRow (l : VarList) (stack : ℕ → UInt16) (s : VarUi) (page : UInt16×LoadedVar) (i : ℕ) :
    UInt16×LoadedVar :=
  match getManageVar l s.panel.arrays (s.offset+UInt16.ofNat i) (stack i) with
  | some var => (var.varCnt,if UInt16.ofNat i=s.cursPos then var else page.2)
  | none => page

/-- The page of system_confug_menu; the local variable of each row holds any
link type before. -/
def showPage (l : VarList) (stack : ℕ → UInt16) (s : VarUi) : UInt16×LoadedVar :=
  (List.range row).foldl (showRow l stack s) (0,s.cached)

/-- system_confug_menu. -/
def systemConfugMenu (l : VarList) (stack : ℕ → UInt16) (s : VarUi) (key : UInt16) : VarUi :=
  let varCnt := (showPage l stack s).1
  let s := {s with cached := (showPage l stack s).2}
  if key=keyUp then
    if s.cursPos≠0 then {s with cursPos := s.cursPos-1}
    else if s.offset≠0 then {s with offset := s.offset-1} else s
  else if key=keyDown then
    if s.cursPos.toNat < row-1 then {s with cursPos := s.cursPos+1}
    else if varCnt≠0 ∧ s.offset.toNat+s.cursPos.toNat<varCnt.toNat-1 then
      {s with offset := s.offset+1}
    else s
  else if key=keyLeft then {s with currentMenu := .config}
  else if key=keyRight ∨ key=keyEnter then
    let s := setEditVar s s.cached
    if varCnt≠0 then {s with currentMenu := .editVar} else s
  else s

/-- The number typed so far; the digit 9 ends it like a blank. -/
def typedNumber : List UInt8 → UInt16 → UInt16
  | [],v => v
  | c::rest,v =>
    if c≥0x30 ∧ c<0x39 then typedNumber rest (v*10+(c-0x30).toUInt16) else v

/-- The cases KEY_0 to KEY_9 of edit_var_menu. -/
def typeDigit (s : VarUi) (d : UInt8) : VarUi :=
  let s := if s.varXPos=0 then {s with text := blankText s.text} else s
  let s := {s with text := store s.text s.varXPos.toNat [0x30+d],varXPos := s.varXPos+1}
  if s.varXPos≥5 then {s with varXPos := 0} else s

/-- edit_var_menu, with no result behind an array index out of bounds. -/
def editVarMenu (s : VarUi) (key : UInt16) : Option VarUi :=
  let value := (typedNumber (load s.text 0 5) 0).toUInt32
  let s := {s with editVar := {s.editVar with var := {s.editVar.var with value := value}}}
  match digit key with
  | some d => some (typeDigit s d)
  | none =>
    if key=keyLeft then some {s with currentMenu := .sysCfg}
    else if key=keyExit then some {s with text := blankText s.text,varXPos := 0}
    else if key=keyEnter then
      (writeVarToPlc s.panel s.editVar.var).map fun r =>
        {s with
          panel := r.1
          editVar := {s.editVar with var := r.2}
          writes := s.writes++[s.editVar.var]
          currentMenu := .sysCfg}
    else some s

/-- system_confug_menu selects the screens that the model of all screens says. -/
theorem systemConfugMenu_menu (l : VarList) (stack : ℕ → UInt16) (s : VarUi) (ui : Menu.Ui)
    {env : Menu.Env} (henv : env.varCnt=(showPage l stack s).1.toNat) (key : UInt16) :
    (systemConfugMenu l stack s key).currentMenu=
      (Menu.systemConfugMenu env ui key).target.getD s.currentMenu := by
  have hcnt : env.varCnt≠0 ↔ (showPage l stack s).1≠0 := by
    rw [henv,ne_eq,ne_eq,←UInt16.toNat_inj]
    rfl
  unfold systemConfugMenu Menu.systemConfugMenu
  dsimp only
  by_cases hl : key=keyLeft
  · subst hl
    rfl
  · rw [if_neg hl,if_neg hl,apply_ite VarUi.currentMenu,apply_ite VarUi.currentMenu]
    by_cases hr : key=keyRight ∨ key=keyEnter
    · have hu : key≠keyUp ∧ key≠keyDown := by
        rcases hr with rfl|rfl <;> decide
      rw [if_neg hu.1,if_neg hu.2,if_pos hr]
      by_cases hv : (showPage l stack s).1≠0
      · rw [if_pos hv,if_pos ⟨hr,hcnt.mpr hv⟩]
        rfl
      · rw [if_neg hv,if_neg fun h => hv (hcnt.mp h.2)]
        rfl
    · have hno : ¬((key=keyRight ∨ key=keyEnter) ∧ env.varCnt≠0) := fun h => hr h.1
      rw [if_neg hr,if_neg hno]
      split_ifs <;> rfl

theorem typeDigit_menu (s : VarUi) (d : UInt8) : (typeDigit s d).currentMenu=s.currentMenu := by
  unfold typeDigit
  dsimp only
  split_ifs <;> rfl

/-- edit_var_menu selects the screens that the model of all screens says. -/
theorem editVarMenu_menu (s : VarUi) (ui : Menu.Ui) (key : UInt16) :
    (editVarMenu s key).map VarUi.currentMenu=
      some ((Menu.editVarMenu ui key).target.getD s.currentMenu) := by
  obtain ⟨r,hr,-⟩ := writeVarToPlc_written s.panel
    {s.editVar.var with value := (typedNumber (load s.text 0 5) 0).toUInt32}
  unfold editVarMenu
  dsimp only
  rw [hr]
  cases hd : digit key with
  | some d =>
    have hl : key≠keyLeft := fun h => by
      rw [h,digit_of_move (Or.inl rfl)] at hd
      exact nomatch hd
    have he : key≠keyEnter := fun h => by
      rw [h,digit_of_move (Or.inr (Or.inl rfl))] at hd
      exact nomatch hd
    dsimp only
    rw [Menu.editVarMenu,if_neg hl,if_neg he]
    exact congrArg some (typeDigit_menu _ d)
  | none =>
    dsimp only
    by_cases hx : key=keyExit
    · subst hx
      rfl
    · rw [Menu.editVarMenu,if_neg hx]
      split_ifs <;> rfl

/-! ## Runs -/

/-- What happens to the screens. -/
inductive VarOp where
  /-- The current screen is shown for a key. -/
  | key (key : UInt16) (stack : ℕ → UInt16)
  /-- Another screen or a datagram selects a screen other than edit_var_menu,
  which only system_confug_menu selects. -/
  | select (menu : MenuList)
  /-- The rest of the program changes the shared variables. -/
  | panel (p : Panel)

/-- One operation. -/
def varStep (l : VarList) (s : VarUi) : VarOp → Option VarUi
  | .key key stack =>
    if s.currentMenu=.sysCfg then some (systemConfugMenu l stack s key)
    else if s.currentMenu=.editVar then editVarMenu s key
    else some s
  | .select menu => some (if menu=.editVar then s else {s with currentMenu := menu})
  | .panel p => some {s with panel := p}

/-- Operations in order. -/
def varRun (l : VarList) (s : VarUi) (ops : List VarOp) : Option VarUi := ops.foldlM (varStep l) s

/-- A variable of zeros. -/
def zeroVar : LoadedVar := ⟨[],⟨0,0,0,0,0⟩,0⟩

/-- The variables before the first key. -/
def start (p : Panel) : VarUi where
  currentMenu := .state
  offset := 0
  cursPos := 0
  cached := zeroVar
  editVar := zeroVar
  text := blankText fun _ => 0
  varXPos := 0
  panel := p
  writes := []

theorem varRun_concat (l : VarList) (s : VarUi) (ops : List VarOp) (op : VarOp) :
    varRun l s (ops++[op])=(varRun l s ops).bind fun s' => varStep l s' op :=
  foldlM_concat (varStep l) s ops op

/-- edit_var_menu has a result. -/
theorem editVarMenu_isSome (s : VarUi) (key : UInt16) : (editVarMenu s key).isSome := by
  obtain ⟨r,hr,-⟩ := writeVarToPlc_written s.panel
    {s.editVar.var with value := (typedNumber (load s.text 0 5) 0).toUInt32}
  unfold editVarMenu
  dsimp only
  rw [hr]
  cases digit key with
  | some d => rfl
  | none =>
    dsimp only
    split_ifs <;> rfl

/-- Every operation has a result. -/
theorem varStep_isSome (l : VarList) (s : VarUi) (op : VarOp) : (varStep l s op).isSome := by
  cases op with
  | key key stack =>
    unfold varStep
    split_ifs
    · rfl
    · exact editVarMenu_isSome s key
    · rfl
  | select menu => rfl
  | panel p => rfl

/-- Every run has a result. -/
theorem varRun_isSome (l : VarList) (s : VarUi) (ops : List VarOp) : (varRun l s ops).isSome := by
  obtain ⟨s',hs',-⟩ := foldlM_invariant (G:=fun _ => True) (K:=fun _ => True) (s:=s) trivial
    (fun s op _ => varStep_isSome l s op) (fun _ _ _ _ _ => trivial) fun op (_ : op∈ops) => trivial
  exact Option.isSome_iff_exists.mpr ⟨s',hs'⟩

end BT816Display.VarScreens
