import BT816Display.Lib.Runs
import BT816Display.PanelAgreement
import BT816Display.VarScreens

/-!
# The variable under the cursor

The cursor moves down to the last row of a page whether or not a variable is
shown there. On a list of fewer than ten variables it leaves the list, and the
variable that was under it last is edited.
-/

namespace BT816Display.VarCursor

open ByteMemory BigEndian ArrayAccess PlcData CanCmd PanelRun Keys PanelAgreement VarScreens Runs
open Menu (MenuList)

/-- A loaded variable is the one of record `i`. -/
structure IsRecord (l : VarList) (i : UInt16) (e : LoadedVar) : Prop where
  /-- The name. -/
  name : e.name=(List.range 40).map (l.byte i)++[0]
  /-- The kind, when the record has one. -/
  linkType : ∀ t,linkTypeOf (l.byte i 40)=some t → e.var.linkType=t
  /-- The number. -/
  linkIndex : e.var.linkIndex=join16 (l.byte i 41) (l.byte i 42)
  /-- The lower limit. -/
  min : e.var.min=(join16 (l.byte i 43) (l.byte i 44)).toUInt32
  /-- The upper limit. -/
  max : e.var.max=(join16 (l.byte i 45) (l.byte i 46)).toUInt32

/-- A loaded variable with another value is still that of its record. -/
theorem IsRecord.setValue {l : VarList} {i : UInt16} {e : LoadedVar} (h : IsRecord l i e)
    (value : UInt32) : IsRecord l i {e with var := {e.var with value := value}} :=
  ⟨h.name,h.linkType,h.linkIndex,h.min,h.max⟩

/-- What is loaded carries the length of the list and is the record at the index asked for. -/
theorem getManageVar_isRecord {l : VarList} {m : Arrays Val} {i t : UInt16} {e : LoadedVar}
    (h : getManageVar l m i t=some e) : e.varCnt=l.editVarCnt ∧ IsRecord l i e := by
  unfold getManageVar at h
  dsimp only at h
  split_ifs at h with hin
  cases h
  refine ⟨rfl,rfl,fun t' ht => ?_,rfl,rfl,rfl⟩
  dsimp only
  rw [ht]
  rfl

/-- A variable is loaded exactly for an index below the length of the list. -/
theorem getManageVar_isSome_iff {l : VarList} {m : Arrays Val} {i t : UInt16}
    (h : l.editVarAddr≠0) : (getManageVar l m i t).isSome ↔ i<l.editVarCnt := by
  unfold getManageVar
  dsimp only
  by_cases hi : i<l.editVarCnt
  · rw [if_pos ⟨h,hi⟩]
    exact iff_of_true rfl hi
  · rw [if_neg fun hin => hi hin.2]
    exact iff_of_false (by decide) hi

/-- The cursor is on a variable of the list, and edit_var_menu has the one under it. -/
structure OnList (l : VarList) (s : VarUi) : Prop where
  /-- The cursor is on the list. -/
  below : s.offset.toNat+s.cursPos.toNat<l.editVarCnt.toNat
  /-- The cursor is on the page. -/
  onPage : s.cursPos.toNat≤9
  /-- The list is scrolled while a full page is left only. -/
  page : s.offset.toNat=0 ∨ s.offset.toNat+9<l.editVarCnt.toNat
  /-- The variable that is edited. -/
  opened : s.currentMenu=.editVar → IsRecord l (s.offset+s.cursPos) s.editVar

variable {l : VarList} {s : VarUi}

/-- Rows of the page by their number. -/
theorem OnList.row_toNat (h : OnList l s) {i : ℕ} (hi : i<10) :
    (s.offset+UInt16.ofNat i).toNat=s.offset.toNat+i := by
  have hlt := l.editVarCnt.toNat_lt
  have hoffset : s.offset.toNat+i<65536 := by
    rcases h.page with h0|h9 <;> omega
  rw [UInt16.toNat_add,UInt16.toNat_ofNat',Nat.mod_eq_of_lt (by omega : i<2^16),
    Nat.mod_eq_of_lt hoffset]

/-- After the first rows the length of the list is known, and the variable
under the cursor once its row has been shown. -/
theorem showRows_spec (hl : l.editVarAddr≠0) (h : OnList l s) (stack : ℕ → UInt16) {n : ℕ}
    (hn : n≤10) :
    (0<n → ((List.range n).foldl (showRow l stack s) (0,s.cached)).1=l.editVarCnt) ∧
      (s.cursPos.toNat<n → IsRecord l (s.offset+s.cursPos)
        ((List.range n).foldl (showRow l stack s) (0,s.cached)).2) := by
  induction n with
  | zero => exact ⟨fun h0 => absurd h0 (by omega),fun h0 => absurd h0 (by omega)⟩
  | succ n ih =>
    obtain ⟨hcnt,hrecord⟩ := ih (by omega)
    have hrow := h.row_toNat (i:=n) (by omega)
    have hbelow := h.below
    rw [List.range_succ,List.foldl_append,List.foldl_cons,List.foldl_nil]
    unfold showRow
    cases hvar : getManageVar l s.panel.arrays (s.offset+UInt16.ofNat n) (stack n) with
    | some var =>
      obtain ⟨hlen,hrec⟩ := getManageVar_isRecord hvar
      dsimp only
      refine ⟨fun _ => hlen,fun hlt => ?_⟩
      by_cases hn' : UInt16.ofNat n=s.cursPos
      · rw [if_pos hn',←hn']
        exact hrec
      · rw [if_neg hn']
        refine hrecord ?_
        have hne : s.cursPos.toNat≠n := by
          intro he
          refine hn' (UInt16.toNat_inj.mp ?_)
          rw [UInt16.toNat_ofNat',he]
          exact Nat.mod_eq_of_lt (by omega)
        omega
    | none =>
      have hout : ¬s.offset+UInt16.ofNat n<l.editVarCnt := by
        rw [←getManageVar_isSome_iff (m:=s.panel.arrays) (t:=stack n) hl,hvar]
        decide
      have hge : l.editVarCnt.toNat ≤ s.offset.toNat+n := by
        rw [←hrow]
        exact Nat.le_of_not_lt hout
      dsimp only
      exact ⟨fun _ => hcnt (by omega),fun _ => hrecord (by omega)⟩

/-- The page shows the length of the list and the variable under the cursor. -/
theorem showPage_spec (hl : l.editVarAddr≠0) (h : OnList l s) (stack : ℕ → UInt16) :
    (showPage l stack s).1=l.editVarCnt ∧
      IsRecord l (s.offset+s.cursPos) (showPage l stack s).2 := by
  obtain ⟨hcnt,hrecord⟩ := showRows_spec hl h stack (n:=10) le_rfl
  have hpage := h.onPage
  exact ⟨hcnt (by omega),hrecord (by omega)⟩

/-! ## Keys of the list -/

/-- The last row of the screen. -/
theorem row_pred : row-1=9 := rfl

/-- A number other than zero can be counted down. -/
theorem toNat_pred {n : UInt16} (h : n≠0) : (n-1).toNat=n.toNat-1 ∧ 0<n.toNat := by
  have hpos : 0<n.toNat := Nat.pos_of_ne_zero fun h0 => h (UInt16.toNat_inj.mp h0)
  exact ⟨UInt16.toNat_sub_of_le n 1 (UInt16.le_iff_toNat_le.mpr hpos),hpos⟩

/-- A number below a bound of sixteen bits can be counted up. -/
theorem toNat_next {n : UInt16} {m : ℕ} (h : n.toNat < m) (hm : m<65536) :
    (n+1).toNat=n.toNat+1 := by
  rw [UInt16.toNat_add,UInt16.toNat_one]
  exact Nat.mod_eq_of_lt (by omega)

/-- The key moves the cursor down from the last variable of the list. -/
def LeavesList (l : VarList) (s : VarUi) (key : UInt16) : Prop :=
  key=keyDown ∧ s.cursPos.toNat<9 ∧ l.editVarCnt.toNat ≤ s.offset.toNat+s.cursPos.toNat+1

/-- KEY_UP. -/
theorem OnList.up (h : OnList l s) (stack : ℕ → UInt16) (hmenu : s.currentMenu=.sysCfg) :
    OnList l (systemConfugMenu l stack s keyUp) := by
  have hnot : (MenuList.sysCfg)≠.editVar := by decide
  obtain ⟨hbelow,honPage,hpage,-⟩ := h
  unfold systemConfugMenu
  dsimp only
  rw [if_pos rfl]
  split_ifs with hcurs hoffset
  · obtain ⟨hpred,hpos⟩ := toNat_pred hcurs
    refine ⟨?_,?_,hpage,fun he => absurd (hmenu.symm.trans he) hnot⟩ <;> dsimp only <;>
    rw [hpred] <;> omega
  · obtain ⟨hpred,hpos⟩ := toNat_pred hoffset
    refine ⟨?_,honPage,?_,fun he => absurd (hmenu.symm.trans he) hnot⟩ <;> dsimp only <;>
    rw [hpred] <;> omega
  · exact ⟨hbelow,honPage,hpage,fun he => absurd (hmenu.symm.trans he) hnot⟩

/-- KEY_DOWN, unless it leaves the list. -/
theorem OnList.down (hl : l.editVarAddr≠0) (h : OnList l s) (stack : ℕ → UInt16)
    (hmenu : s.currentMenu=.sysCfg) (hstay : ¬LeavesList l s keyDown) :
    OnList l (systemConfugMenu l stack s keyDown) := by
  have hnot : (MenuList.sysCfg)≠.editVar := by decide
  have hcnt := (showPage_spec hl h stack).1
  have hlt := l.editVarCnt.toNat_lt
  obtain ⟨hbelow,honPage,hpage,-⟩ := h
  unfold systemConfugMenu
  dsimp only
  rw [if_neg (by decide),if_pos rfl,hcnt,row_pred]
  split_ifs with hcurs hend
  · have hnext := toNat_next hcurs (by decide)
    have hroom : ¬l.editVarCnt.toNat ≤ s.offset.toNat+s.cursPos.toNat+1 :=
      fun hle => hstay ⟨rfl,hcurs,hle⟩
    refine ⟨?_,?_,hpage,fun he => absurd (hmenu.symm.trans he) hnot⟩ <;> dsimp only <;>
    rw [hnext] <;> omega
  · have hnine : s.cursPos.toNat=9 := by omega
    have hnext := toNat_next (n:=s.offset) (m:=65535) (by omega) (by decide)
    refine ⟨?_,honPage,?_,fun he => absurd (hmenu.symm.trans he) hnot⟩ <;> dsimp only <;>
    rw [hnext] <;> omega
  · exact ⟨hbelow,honPage,hpage,fun he => absurd (hmenu.symm.trans he) hnot⟩

/-- KEY_DOWN on the last variable of a short list. -/
theorem not_below_of_leavesList {stack : ℕ → UInt16} {key : UInt16}
    (h : LeavesList l s key) : ¬(systemConfugMenu l stack s key).offset.toNat+
      (systemConfugMenu l stack s key).cursPos.toNat<l.editVarCnt.toNat := by
  obtain ⟨rfl,hcurs,hle⟩ := h
  have hnext := toNat_next hcurs (by decide)
  unfold systemConfugMenu
  dsimp only
  rw [if_neg (by decide),if_pos rfl,row_pred,if_pos hcurs]
  dsimp only
  rw [hnext]
  omega

/-- KEY_RIGHT and KEY_ENTER open edit_var_menu on the variable under the cursor. -/
theorem OnList.opens (hl : l.editVarAddr≠0) (h : OnList l s) (stack : ℕ → UInt16) {key : UInt16}
    (hkey : key=keyRight ∨ key=keyEnter) :
    let s' := systemConfugMenu l stack s key
    s'.currentMenu=.editVar ∧ s'.offset=s.offset ∧ s'.cursPos=s.cursPos ∧
      IsRecord l (s.offset+s.cursPos) s'.editVar := by
  obtain ⟨hcnt,hrecord⟩ := showPage_spec hl h stack
  have hbelow := h.below
  have hpos : l.editVarCnt≠0 := by
    intro h0
    rw [h0] at hbelow
    exact absurd hbelow (Nat.not_lt_zero _)
  have hothers : key≠keyUp ∧ key≠keyDown ∧ key≠keyLeft := by
    rcases hkey with rfl|rfl <;> decide
  unfold systemConfugMenu setEditVar
  dsimp only
  rw [if_neg hothers.1,if_neg hothers.2.1,if_neg hothers.2.2,if_pos hkey,hcnt,if_pos hpos]
  exact ⟨rfl,rfl,rfl,hrecord⟩

/-- A key of the list keeps the cursor on it unless it leaves the list. -/
theorem OnList.key (hl : l.editVarAddr≠0) (h : OnList l s) (stack : ℕ → UInt16)
    {key : UInt16} (hmenu : s.currentMenu=.sysCfg) (hstay : ¬LeavesList l s key) :
    OnList l (systemConfugMenu l stack s key) := by
  have hnot : (MenuList.sysCfg)≠.editVar := by decide
  by_cases hup : key=keyUp
  · subst hup
    exact h.up stack hmenu
  by_cases hdown : key=keyDown
  · subst hdown
    exact h.down hl stack hmenu hstay
  by_cases hopen : key=keyRight ∨ key=keyEnter
  · obtain ⟨-,hoffset,hcurs,hrecord⟩ := h.opens hl stack hopen
    obtain ⟨hbelow,honPage,hpage,-⟩ := h
    rw [←hoffset,←hcurs] at hbelow hrecord
    rw [←hcurs] at honPage
    rw [←hoffset] at hpage
    exact ⟨hbelow,honPage,hpage,fun _ => hrecord⟩
  obtain ⟨hbelow,honPage,hpage,-⟩ := h
  unfold systemConfugMenu
  dsimp only
  rw [if_neg hup,if_neg hdown]
  by_cases hleft : key=keyLeft
  · rw [if_pos hleft]
    exact ⟨hbelow,honPage,hpage,nofun⟩
  · rw [if_neg hleft,if_neg hopen]
    exact ⟨hbelow,honPage,hpage,fun he => absurd (hmenu.symm.trans he) hnot⟩

/-! ## Runs -/

/-- An edited variable of the kind and number of a variable stands for it. -/
theorem Linked.of_written {var : ManageVar} {v : Variable} (hv : v.index<v.kind.count)
    (ht : var.linkType=v.kind.linkType) (hi : var.linkIndex.toNat=v.index) : Linked var v :=
  ⟨ht,hi,hv⟩

/-- A write leaves every variable but the linked one alone. -/
theorem written_other {var : ManageVar} {p q : Panel} (h : Written var p q) {v : Variable}
    (hv : ¬Linked var v) : plcVar q.arrays v=plcVar p.arrays v ∧ clVar q.arrays v=clVar p.arrays v := by
  rcases h.arrays with he|⟨w,a,b,hw,-,he,ht,hi⟩
  · rw [he]
    exact ⟨rfl,rfl⟩
  · have hne : v≠w := fun hvw => hv (hvw ▸ Linked.of_written hw ht hi)
    rw [he]
    exact ⟨plcVar_setVar_of_ne _ _ _ _ hne,clVar_setVar_of_ne _ _ _ _ hne⟩

/-- write_var_to_plc changes nothing of its argument but the value. -/
theorem writeVarToPlc_value {p : Panel} {var : ManageVar} {r : Panel×ManageVar}
    (h : writeVarToPlc p var=some r) : ∃ value,r.2={var with value := value} := by
  unfold writeVarToPlc at h
  dsimp only at h
  split_ifs at h
  · cases h
    exact ⟨var.value,rfl⟩
  · obtain ⟨q,-,rfl⟩ := Option.map_eq_some_iff.mp h
    exact ⟨_,rfl⟩

/-- The variables of the list behind a key of edit_var_menu: the cursor stays,
and the variable edited is the same but for its value. -/
structure Edited (l : VarList) (s s' : VarUi) : Prop where
  /-- The first row. -/
  offset : s'.offset=s.offset
  /-- The cursor. -/
  cursPos : s'.cursPos=s.cursPos
  /-- The variable. -/
  editVar : ∀ i,IsRecord l i s.editVar → IsRecord l i s'.editVar

/-- Typing a digit does not change which record is edited. -/
theorem typeDigit_edited {e : LoadedVar} (he : ∀ i,IsRecord l i s.editVar → IsRecord l i e)
    (d : UInt8) : Edited l s (typeDigit {s with editVar := e} d) := by
  unfold typeDigit
  dsimp only
  split_ifs <;> exact ⟨rfl,rfl,he⟩

/-- Nor does any key of the edit screen. -/
theorem editVarMenu_edited {s' : VarUi} {key : UInt16} (h : editVarMenu s key=some s') :
    Edited l s s' := by
  have hvalue (value : UInt32) : ∀ i,IsRecord l i s.editVar →
      IsRecord l i {s.editVar with var := {s.editVar.var with value := value}} :=
    fun _ hi => hi.setValue value
  unfold editVarMenu at h
  dsimp only at h
  cases hd : digit key with
  | some d =>
    rw [hd] at h
    cases h
    exact typeDigit_edited (hvalue _) d
  | none =>
    rw [hd] at h
    dsimp only at h
    split_ifs at h
    · cases h
      exact ⟨rfl,rfl,hvalue _⟩
    · cases h
      exact ⟨rfl,rfl,hvalue _⟩
    · obtain ⟨r,hr,rfl⟩ := Option.map_eq_some_iff.mp h
      obtain ⟨value,hr2⟩ := writeVarToPlc_value hr
      refine ⟨rfl,rfl,fun i hi => ?_⟩
      dsimp only
      rw [hr2]
      exact hi.setValue value
    · cases h
      exact ⟨rfl,rfl,hvalue _⟩

/-- The operation does not move the cursor off the list. -/
def StaysOnList (l : VarList) (s : VarUi) (op : VarOp) : Prop :=
  ∀ key stack,op=.key key stack → s.currentMenu=.sysCfg → ¬LeavesList l s key

/-- An operation keeps the cursor on the list unless it moves it off. -/
theorem OnList.step {s' : VarUi} {op : VarOp} (hl : l.editVarAddr≠0) (h : OnList l s)
    (hs : varStep l s op=some s') (hop : StaysOnList l s op) : OnList l s' := by
  cases op with
  | key key stack =>
    unfold varStep at hs
    dsimp only at hs
    split_ifs at hs with hmenu hedit
    · cases hs
      exact h.key hl stack hmenu (hop key stack rfl hmenu)
    · have he := editVarMenu_edited (l:=l) hs
      obtain ⟨hbelow,honPage,hpage,hopened⟩ := h
      have hrecord := he.editVar _ (hopened hedit)
      rw [←he.offset,←he.cursPos] at hbelow hrecord
      rw [←he.cursPos] at honPage
      rw [←he.offset] at hpage
      exact ⟨hbelow,honPage,hpage,fun _ => hrecord⟩
    · cases hs
      exact h
  | select menu =>
    cases hs
    split_ifs with hmenu
    · exact h
    · exact ⟨h.below,h.onPage,h.page,fun he => absurd he hmenu⟩
  | panel p =>
    cases hs
    exact ⟨h.below,h.onPage,h.page,h.opened⟩

/-- An operation that moves the cursor off the list. -/
theorem exists_step_of_leaves {op : VarOp} (hop : ¬StaysOnList l s op) :
    ∃ s',varStep l s op=some s' ∧ ¬s'.offset.toNat+s'.cursPos.toNat<l.editVarCnt.toNat := by
  unfold StaysOnList at hop
  push Not at hop
  obtain ⟨key,stack,rfl,hmenu,hleaves⟩ := hop
  exact ⟨_,if_pos hmenu,not_below_of_leavesList hleaves⟩

/-- After a run the cursor is on a variable of the list. -/
def CursorOnList (l : VarList) (p : Panel) (ops : List VarOp) : Prop :=
  ∀ s,varRun l (start p) ops=some s → s.offset.toNat+s.cursPos.toNat<l.editVarCnt.toNat

/-- After a run KEY_RIGHT and KEY_ENTER open the variable under the cursor. -/
def OpensUnderCursor (l : VarList) (p : Panel) (ops : List VarOp) (op : VarOp) : Prop :=
  ∀ s s' key stack,varRun l (start p) ops=some s → s.currentMenu=.sysCfg →
    (key=keyRight ∨ key=keyEnter) → op=.key key stack → varStep l s op=some s' →
      s'.currentMenu=.editVar ∧ IsRecord l (s.offset+s.cursPos) s'.editVar

/-- After a run KEY_ENTER in edit_var_menu writes the number typed to the
variable under the cursor and to no other. -/
def WritesUnderCursor (l : VarList) (p : Panel) (ops : List VarOp) (op : VarOp) : Prop :=
  ∀ s s' stack,varRun l (start p) ops=some s → s.currentMenu=.editVar →
    op=.key keyEnter stack → varStep l s op=some s' →
      ∃ var,s'.writes=s.writes++[var] ∧
        IsRecord l (s.offset+s.cursPos) {s.editVar with var := var} ∧
          var.value=(typedNumber (load s.text 0 5) 0).toUInt32 ∧
            (∃ r,writeVarToPlc s.panel var=some r ∧ s'.panel=r.1) ∧
              ∀ v,¬Linked var v → plcVar s'.panel.arrays v=plcVar s.panel.arrays v ∧
                clVar s'.panel.arrays v=clVar s.panel.arrays v

/-- After a run the operation does not move the cursor off the list: it is not
KEY_DOWN on the last variable of a list of fewer than ten. -/
def StaysOnListAfter (l : VarList) (p : Panel) (ops : List VarOp) (op : VarOp) : Prop :=
  ∀ s,varRun l (start p) ops=some s → StaysOnList l s op

/-- After a run whose operations keep the cursor on the list. -/
def OnListAfter (l : VarList) (p : Panel) (ops : List VarOp) : Prop :=
  ∀ s,varRun l (start p) ops=some s → OnList l s

/-- At power on the cursor is on the list. -/
theorem onListAfter_nil (p : Panel) (hcnt : 1 ≤ l.editVarCnt.toNat) : OnListAfter l p [] := by
  intro s hs
  cases hs
  exact ⟨hcnt,Nat.zero_le 9,Or.inl rfl,nofun⟩

/-- A run that stays on the list and a step that stays on it make a longer such run. -/
theorem onListAfter_concat {p : Panel} {ops : List VarOp} {op : VarOp} (hl : l.editVarAddr≠0)
    (h : OnListAfter l p ops) (hop : StaysOnListAfter l p ops op) : OnListAfter l p (ops++[op]) := by
  intro s' hs'
  rw [varRun_concat] at hs'
  obtain ⟨s,hs,hstep⟩ := Option.bind_eq_some_iff.mp hs'
  exact (h s hs).step hl hstep (hop s hs)

/-- A step off the list is not on the list. -/
theorem not_cursorOnList_concat {p : Panel} {ops : List VarOp} {op : VarOp}
    (hop : ¬StaysOnListAfter l p ops op) : ¬CursorOnList l p (ops++[op]) := by
  intro hafter
  refine hop fun s hs => ?_
  by_contra hnot
  obtain ⟨s',hstep,hout⟩ := exists_step_of_leaves hnot
  refine hout (hafter s' ?_)
  rw [varRun_concat,hs]
  exact hstep

/-- A run on the list opens the variable under the cursor. -/
theorem opens_of_onListAfter {p : Panel} {ops : List VarOp} (hl : l.editVarAddr≠0)
    (h : OnListAfter l p ops) (op : VarOp) : OpensUnderCursor l p ops op := by
  intro s s' key stack hs hmenu hkey hop hstep
  subst hop
  cases (if_pos hmenu).symm.trans hstep
  obtain ⟨hedit,-,-,hrecord⟩ := (h s hs).opens hl stack hkey
  exact ⟨hedit,hrecord⟩

/-- A run on the list writes the variable under the cursor. -/
theorem writes_of_onListAfter {p : Panel} {ops : List VarOp} (h : OnListAfter l p ops)
    (op : VarOp) : WritesUnderCursor l p ops op := by
  intro s s' stack hs hmenu hop hstep
  subst hop
  have hnot : s.currentMenu≠.sysCfg := by rw [hmenu]; decide
  have hrecord := (h s hs).opened hmenu
  unfold varStep editVarMenu at hstep
  dsimp only at hstep
  rw [if_neg hnot,if_pos hmenu] at hstep
  obtain ⟨r,hr,rfl⟩ := Option.map_eq_some_iff.mp hstep
  obtain ⟨r',hr',hw⟩ := writeVarToPlc_written s.panel
    {s.editVar.var with value := (typedNumber (load s.text 0 5) 0).toUInt32}
  cases hr'.symm.trans hr
  exact ⟨_,rfl,hrecord.setValue _,rfl,⟨r,hr,rfl⟩,fun v hv => written_other hw hv⟩

/-- In a run on a loaded list the cursor is always on a variable, KEY_RIGHT and
KEY_ENTER open it, and what is confirmed is written to it, exactly when the
cursor is never moved down from the last variable of a short list. -/
theorem cursor_iff (l : VarList) (p : Panel) (hl : l.editVarAddr≠0)
    (hcnt : 1 ≤ l.editVarCnt.toNat) (ops : List VarOp) :
    (Throughout (CursorOnList l p) ops ∧ InputsMeet (OpensUnderCursor l p) ops ∧
      InputsMeet (WritesUnderCursor l p) ops) ↔ InputsMeet (StaysOnListAfter l p) ops := by
  have hiff := throughout_iff_inputsMeet (onListAfter_nil p hcnt)
    (fun _ h s hs => (h s hs).below) (fun _ _ => onListAfter_concat hl)
    (fun _ _ _ => not_cursorOnList_concat) ops
  refine ⟨fun h => hiff.mp h.1,fun h => ⟨hiff.mpr h,?_,?_⟩⟩
  · intro pre op post he
    rw [←he] at h
    exact opens_of_onListAfter hl (inv_of_inputsMeet (onListAfter_nil p hcnt)
      (fun _ _ => onListAfter_concat hl) h.of_append) op
  · intro pre op post he
    rw [←he] at h
    exact writes_of_onListAfter (inv_of_inputsMeet (onListAfter_nil p hcnt)
      (fun _ _ => onListAfter_concat hl) h.of_append) op

/-- The cursor does not leave a list of ten variables or more. -/
theorem staysOnList_of_long (h : OnList l s) (hlong : 10≤l.editVarCnt.toNat) (op : VarOp) :
    StaysOnList l s op := by
  intro key stack _ _ hleaves
  obtain ⟨-,hcurs,hle⟩ := hleaves
  rcases h.page with h0|h9 <;> omega

/-- A list of one variable, cluster bit 0. -/
def oneVar : VarList := ⟨fun _ => 0,64,1⟩

/-- A key, with zeros on the stack. -/
def press (key : UInt16) : VarOp := .key key fun _ => 0

/-- The variable is opened. -/
theorem cursor_oneVar :
    (Throughout (CursorOnList oneVar zeroPanel) [.select .sysCfg,press keyEnter] ∧
      InputsMeet (OpensUnderCursor oneVar zeroPanel) [.select .sysCfg,press keyEnter] ∧
        InputsMeet (WritesUnderCursor oneVar zeroPanel) [.select .sysCfg,press keyEnter]) ↔
      InputsMeet (StaysOnListAfter oneVar zeroPanel) [.select .sysCfg,press keyEnter] :=
  cursor_iff oneVar zeroPanel (by decide) (by decide) _

/-- KEY_DOWN moves the cursor behind the only variable, and KEY_ENTER opens
this variable from there. -/
theorem cursor_leaves_oneVar :
    ((varRun oneVar (start zeroPanel) [.select .sysCfg,press keyDown,press keyEnter]).map fun s =>
      (s.currentMenu,s.offset,s.cursPos))=some (.editVar,0,1) ∧
      ¬Throughout (CursorOnList oneVar zeroPanel)
        [.select .sysCfg,press keyDown,press keyEnter] := by
  have hrun : ((varRun oneVar (start zeroPanel) [.select .sysCfg,press keyDown,press keyEnter]).map
      fun s => (s.currentMenu,s.offset,s.cursPos))=some (.editVar,0,1) := by decide +kernel
  refine ⟨hrun,fun h => ?_⟩
  obtain ⟨s,hs,he⟩ := Option.map_eq_some_iff.mp hrun
  have hbelow := h _ [] (List.append_nil _) s hs
  simp only [Prod.mk.injEq] at he
  rw [he.2.1,he.2.2] at hbelow
  exact absurd hbelow (by decide)

end BT816Display.VarCursor
