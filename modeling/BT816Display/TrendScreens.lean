import BT816Display.TrendStorage

/-!
# What the screens of the trends do

The editors hold an input number to the inputs there are, and every screen
either saves the trends it has changed or leaves them alone.
-/

namespace BT816Display.TrendScreens

open Keys TrendConfig TrendData TrendStorage
open DigitEditor (Fields Param SameNumbers)
open TrendEdit (EditUi Link editTrendMenu initEditTrendMenu)

/-! ## Editing -/

/-- The input number is held to the inputs there are. -/
def Limits (f : Fields Link) : Prop :=
  ∀ i,(f.params i).link=.inpNum → (f.params i).minVal=1 ∧ (f.params i).maxVal=14

/-- Values, flags and cursor do not matter for the limits. -/
theorem Limits.congr {f f' : Fields Link} (h : Limits f)
    (hlink : ∀ i,(f'.params i).link=(f.params i).link)
    (hmin : ∀ i,(f'.params i).minVal=(f.params i).minVal)
    (hmax : ∀ i,(f'.params i).maxVal=(f.params i).maxVal) : Limits f' := by
  intro i hi
  rw [hmin,hmax]
  exact h i ((hlink i).symm.trans hi)

/-- Fields with the same numbers have the same limits. -/
theorem Limits.of_sameNumbers {f f' : Fields Link} (h : Limits f) (hs : SameNumbers f f') :
    Limits f' := h.congr hs.link hs.minVal hs.maxVal

/-- A value typed in leaves the limits alone. -/
theorem Limits.setValue {f : Fields Link} (h : Limits f) (j : ℕ) (value : UInt16) :
    Limits (f.setValue j value) := by
  have hv := DigitEditor.setValue_onlyValues f j value
  exact h.congr hv.link hv.minVal hv.maxVal

/-- A new value of the parameter under edit leaves the input number in range. -/
theorem Limits.set {f : Fields Link} (h : Limits f) {j : ℕ} {tr : Trend} (htr : InpOk tr.inpNum)
    (value : UInt16) : InpOk
      ((f.params j).link.set tr (DigitEditor.clamp (f.params j) value).toUInt8).inpNum := by
  generalize hp : f.params j=p
  cases hlink : p.link with
  | inpNum =>
    obtain ⟨hmin,hmax⟩ := h j (hp ▸ hlink)
    rw [hp] at hmin hmax
    have hclamp := DigitEditor.clamp_toNat (p:=p) (by rw [hmin,hmax]; decide) value
    have h1 : (1 : UInt16).toNat=1 := rfl
    have h14 : (14 : UInt16).toNat=14 := rfl
    rw [hmin,hmax,h1,h14] at hclamp
    change InpOk (DigitEditor.clamp p value).toUInt8
    have hbyte : (DigitEditor.clamp p value).toUInt8.toNat=min 14 (max 1 value.toNat) := by
      rw [UInt16.toNat_toUInt8,hclamp]
      omega
    refine ⟨fun h0 => ?_,fun hgt => ?_⟩
    · rw [h0] at hbyte
      have hz : (0 : UInt8).toNat=0 := rfl
      omega
    · have hgt' : (14 : UInt8).toNat<(DigitEditor.clamp p value).toUInt8.toNat :=
        UInt8.lt_iff_toNat_lt.mp hgt
      have hz : (14 : UInt8).toNat=14 := rfl
      omega
  | _ => exact htr

/-- The fields of edit_trend_menu.c as those of a digit editor. -/
def fieldsOf (s : EditUi) : Fields Link where
  params := fun i => ⟨(s.params i).value,(s.params i).maxVal,(s.params i).minVal,(s.params i).width,
    (s.params i).link,(s.params i).editFlag⟩
  pos := s.pos

/-- The flags are those of the fields. -/
theorem fieldsOf_setEditFlag (s : EditUi) (i : ℕ) (editFlag : UInt16) :
    fieldsOf (s.setEditFlag i editFlag)=(fieldsOf s).setEditFlag i editFlag := by
  unfold fieldsOf EditUi.setEditFlag Fields.setEditFlag
  congr 1
  funext j
  dsimp only
  by_cases hj : j=i
  · rw [hj,Function.update_self,Function.update_self]
  · rw [Function.update_of_ne hj,Function.update_of_ne hj]

/-- pos_to_right of edit_trend_menu.c is that of the other editors. -/
theorem fieldsOf_posToRight (s : EditUi) :
    fieldsOf (TrendEdit.posToRight s)=DigitEditor.posToRight (fieldsOf s) := by
  unfold TrendEdit.posToRight DigitEditor.posToRight
  dsimp only
  rw [show DigitEditor.getCurParam (fieldsOf s)=TrendEdit.getCurParam s from rfl,
    ←fieldsOf_setEditFlag]
  generalize TrendEdit.getCurParam s=cur
  generalize s.setEditFlag cur 1=s'
  have hfirst : fieldsOf (if s'.pos=0 then {s' with pos := 1} else s')=
      if (fieldsOf s').pos=0 then {fieldsOf s' with pos := 1} else fieldsOf s' :=
    apply_ite fieldsOf _ _ _
  rw [←hfirst]
  generalize (if s'.pos=0 then {s' with pos := 1} else s')=s1
  have hlast (width : UInt16) :
      fieldsOf (if s1.pos.toUInt16>width then {s1 with pos := width.toUInt8} else s1)=
        if (fieldsOf s1).pos.toUInt16>width then {fieldsOf s1 with pos := width.toUInt8}
        else fieldsOf s1 := apply_ite fieldsOf _ _ _
  rw [←hlast]
  refine (apply_ite fieldsOf _ _ _).trans (if_congr Iff.rfl rfl ?_)
  rw [←fieldsOf_setEditFlag,←fieldsOf_setEditFlag]
  rfl

/-- The copies and the fields of the editor of the stored trends keep the input
numbers in range. -/
structure EditReady (s : EditUi) : Prop where
  /-- tmp_trends. -/
  copies : InputsOk s.tmpTrends
  /-- params. -/
  limits : Limits (fieldsOf s)

/-- Moving the digit keeps the editor ready. -/
theorem posToRight_ready {s : EditUi} (h : EditReady s) : EditReady (TrendEdit.posToRight s) where
  copies := by
    have htmp : (TrendEdit.posToRight s).tmpTrends=s.tmpTrends := by
      unfold TrendEdit.posToRight
      dsimp only
      split_ifs <;> rfl
    rw [htmp]
    exact h.copies
  limits := by
    rw [fieldsOf_posToRight]
    exact h.limits.of_sameNumbers (DigitEditor.posToRight_sameNumbers _)

/-- So does a step to another trend. -/
theorem updateParamsByTrendNum_ready {s : EditUi} (h : EditReady s) (num : UInt8) :
    EditReady (TrendEdit.updateParamsByTrendNum s num) := by
  unfold TrendEdit.updateParamsByTrendNum
  split
  · exact h
  · refine ⟨h.copies,fun i hi => ?_⟩
    match i with
    | 1 => exact ⟨rfl,rfl⟩
    | 0 | 2 | 3 | 4 | _+5 => exact absurd hi nofun

/-- A value of a field is typed into the fields. -/
theorem fieldsOf_setValue (s : EditUi) (tmpTrends : ℕ → Trend) (j : ℕ) (value : UInt16) :
    fieldsOf {s with
      tmpTrends := tmpTrends
      params := Function.update s.params j {s.params j with value := value}}=
        (fieldsOf s).setValue j value := by
  unfold fieldsOf Fields.setValue
  congr 1
  funext i
  dsimp only
  by_cases hi : i=j
  · rw [hi,Function.update_self,Function.update_self]
  · rw [Function.update_of_ne hi,Function.update_of_ne hi]

/-- A digit leaves the input numbers in range. -/
theorem updateParamValue_ready {s : EditUi} (h : EditReady s) (curPar : ℕ) (num : UInt8) :
    EditReady (TrendEdit.updateParamValue s curPar num) := by
  unfold TrendEdit.updateParamValue
  dsimp only
  split_ifs
  · exact h
  · exact h
  · refine posToRight_ready ⟨fun i hi => ?_,?_⟩
    · dsimp only
      by_cases hcur : i=s.curTrend.toNat
      · rw [hcur,Function.update_self]
        exact h.limits.set (h.copies _ (hcur ▸ hi)) _
      · rw [Function.update_of_ne hcur]
        exact h.copies i hi
    · rw [fieldsOf_setValue]
      exact h.limits.setValue _ _

/-- A key leaves the input numbers of the editor in range. -/
theorem editTrendKey_ready {s : EditUi} (h : EditReady s) (key : UInt16) :
    EditReady (TrendEdit.editTrendKey s key) := by
  unfold TrendEdit.editTrendKey
  dsimp only
  split_ifs
  · refine ⟨fun i hi => ?_,h.limits⟩
    change InpOk (if i<trendMaxCnt then TrendEdit.clearPoints (s.tmpTrends i)
      else s.tmpTrends i).inpNum
    rw [if_pos hi]
    exact h.copies i hi
  · exact ⟨h.copies,h.limits⟩
  · refine updateParamsByTrendNum_ready ?_ _
    exact ⟨h.copies,h.limits⟩
  · exact updateParamsByTrendNum_ready h _
  · refine updateParamsByTrendNum_ready ?_ _
    exact ⟨h.copies,h.limits⟩
  · exact updateParamsByTrendNum_ready h _
  · exact posToRight_ready h
  · cases digit key with
    | some num => exact updateParamValue_ready h _ num
    | none => exact h

/-- Every key leaves the editor of a trend ready. -/
theorem editTrendMenu_ready {s : EditUi} (h : EditReady s) (key : UInt16) :
    EditReady (editTrendMenu s key) := by
  obtain ⟨pos,hpos⟩ := TrendHistory.editTrendMenu_eq s key
  have hshown : EditReady {s with pos := pos} := ⟨h.copies,h.limits⟩
  rw [hpos]
  split
  · have hkey := editTrendKey_ready hshown key
    exact ⟨hkey.copies,hkey.limits⟩
  · exact ⟨h.copies,h.limits⟩

/-- Opening the editor copies the stored trends. -/
theorem initEditTrendMenu_ready {s : EditUi} (h : InputsOk s.store.trends) :
    EditReady (initEditTrendMenu s) where
  copies := by
    intro i hi
    rw [(TrendHistory.initEditTrendMenu_eq s).2 i,if_pos hi]
    exact h i hi
  limits := by
    intro i hi
    match i with
    | 1 => exact ⟨rfl,rfl⟩
    | 0 | 2 | 3 | 4 | _+5 => exact absurd hi nofun

/-- The trend that is entered and the fields of its screen keep the input
number in range. -/
structure AddReady (s : ConfigUi) : Prop where
  /-- tr. -/
  entered : InpOk s.tr.inpNum
  /-- params. -/
  limits : Limits s.fields

/-- Every key that counts leaves the screen of a new trend ready. -/
theorem addTrendKey_ready {s : ConfigUi} (h : AddReady s) (key : UInt16) :
    AddReady (addTrendKey s key) := by
  unfold addTrendKey
  split_ifs
  · exact ⟨h.entered,h.limits⟩
  · exact ⟨h.entered,h.limits⟩
  · exact ⟨h.entered,h.limits.of_sameNumbers (DigitEditor.posToRight_sameNumbers _)⟩
  · cases digit key with
    | none => exact h
    | some num =>
      dsimp only
      unfold TrendConfig.updateParamValue DigitEditor.newValue
      dsimp only
      split_ifs
      · exact h
      · exact h
      · refine ⟨h.limits.set h.entered _,?_⟩
        exact (h.limits.setValue _ _).of_sameNumbers (DigitEditor.posToRight_sameNumbers _)
  · split <;> exact h

/-- The last key is no part of that. -/
theorem AddReady.with_key {s : ConfigUi} (h : AddReady s) (key : UInt16) :
    AddReady {s with addKey := key} := ⟨h.entered,h.limits⟩

/-- Nor are fields with limits. -/
theorem AddReady.with_fields {s : ConfigUi} (h : AddReady s) {f : Fields Link} (hf : Limits f) :
    AddReady {s with fields := f} := ⟨h.entered,hf⟩

/-- Nor is the screen that is selected. -/
theorem AddReady.select {s : ConfigUi} (h : AddReady s) (menu : Menu.MenuList) :
    AddReady (s.select menu) := ⟨h.entered,h.limits⟩

/-- Every key leaves the screen of a new trend ready. -/
theorem addTrendMenu_ready {s : ConfigUi} (h : AddReady s) (key : UInt16) :
    AddReady (addTrendMenu s key) := by
  unfold addTrendMenu
  refine AddReady.with_key ?_ _
  split
  · unfold fullKey
    split
    · exact h.select _
    · exact h
  · exact addTrendKey_ready (h.with_fields
      (h.limits.of_sameNumbers (DigitEditor.holdCursor_sameNumbers s.fields))) key

/-- It is ready when it is opened. -/
theorem initAddTrendMenu_ready (s : ConfigUi) : AddReady (initAddTrendMenu s) where
  entered := (by decide : InpOk 1)
  limits := by
    intro i hi
    match i with
    | 1 => exact ⟨rfl,rfl⟩
    | 0 | 2 | 3 | 4 | _+5 => exact absurd hi nofun

/-! ## One operation -/

/-- The stored trends behind a confirmed edit. -/
def edited (s : ConfigUi) : TrendStore :=
  {s.store with trends := fun i => if i<trendMaxCnt then s.edit.tmpTrends i else s.store.trends i}

/-- Stored trends with the same configuration in memory and in the registers. -/
structure Untouched (s s' : TrendStore) : Prop where
  /-- Numbers and parameters. -/
  same : SameConfig s s'
  /-- Registers. -/
  data : ∀ dt,IsTrendData dt → s.bpr dt=s'.bpr dt

/-- A store is left alone by what changes nothing. -/
theorem Untouched.refl (s : TrendStore) : Untouched s s := ⟨SameConfig.refl s,fun _ _ => rfl⟩

/-- An operation but a reboot saves added, deleted or edited trends, or leaves
the configuration alone. -/
def StoreCases (s : ConfigUi) (op : ConfigOp) (store : TrendStore) : Prop :=
  Adds s op ∧ store=saveTrends (addTrend s.store s.tr).1 ∨
    Deletes s op ∧ store=saveTrends (deleteTrend s.store (s.curTrend+1)) ∨
    Edits s op ∧ store=saveTrends (edited s) ∨
    (¬Adds s op ∧ ¬Deletes s op ∧ ¬Edits s op) ∧ Untouched store s.store

/-- A key of the screen of a new trend adds a trend at most. -/
theorem addTrendMenu_store {s : ConfigUi} (hm : s.edit.currentMenu=.addTrend) (key : UInt16) :
    StoreCases s (.key key) (addTrendMenu s key).store := by
  have hnot (ha : ¬Adds s (.key key)) :
      ¬Adds s (.key key) ∧ ¬Deletes s (.key key) ∧ ¬Edits s (.key key) :=
    ⟨ha,fun hd => absurd (hm.symm.trans hd.1) (by decide),
      fun he => absurd (hm.symm.trans he.menu) (by decide)⟩
  unfold addTrendMenu
  by_cases hfull : s.store.trCnt.toNat≥trendMaxCnt
  · have hstore : (fullKey s key).store=s.store := by
      unfold fullKey
      split <;> rfl
    rw [if_pos hfull]
    refine Or.inr (Or.inr (Or.inr ⟨hnot fun ha => absurd ha.2.1 (by omega),?_⟩))
    change Untouched (fullKey s key).store s.store
    rw [hstore]
    exact Untouched.refl _
  · rw [if_neg hfull]
    by_cases hk : key=keyDown ∨ key=keyEnter
    · refine Or.inl ⟨⟨hm,by omega,hk.imp (congrArg _) (congrArg _)⟩,?_⟩
      rcases hk with rfl|rfl <;> rfl
    · have hstore : (addTrendKey {s with fields := DigitEditor.holdCursor s.fields} key).store=
          s.store := by
        unfold addTrendKey
        rw [if_neg hk]
        split_ifs
        · rfl
        · rfl
        · cases digit key with
          | none => rfl
          | some num =>
            dsimp only
            unfold TrendConfig.updateParamValue
            dsimp only
            split_ifs
            · rfl
            · split <;> rfl
        · split <;> rfl
      refine Or.inr (Or.inr (Or.inr ⟨hnot fun ha => hk ?_,?_⟩))
      · exact ha.2.2.imp ConfigOp.key.inj ConfigOp.key.inj
      · change Untouched (addTrendKey _ key).store s.store
        rw [hstore]
        exact Untouched.refl _

/-- A key of the screen of deletion deletes one at most. -/
theorem deleteTrendInfoMenu_store {s : ConfigUi} (hm : s.edit.currentMenu=.deleteTrend)
    (key : UInt16) : StoreCases s (.key key) (deleteTrendInfoMenu s key).store := by
  have hnot (hd : ¬Deletes s (.key key)) :
      ¬Adds s (.key key) ∧ ¬Deletes s (.key key) ∧ ¬Edits s (.key key) :=
    ⟨fun ha => absurd (hm.symm.trans ha.1) (by decide),hd,
      fun he => absurd (hm.symm.trans he.menu) (by decide)⟩
  unfold deleteTrendInfoMenu
  by_cases hkey : key≠s.deleteKey
  · rw [if_pos hkey]
    by_cases henter : key=keyEnter
    · subst henter
      exact Or.inr (Or.inl ⟨⟨hm,hkey,rfl⟩,rfl⟩)
    · refine Or.inr (Or.inr (Or.inr ⟨hnot fun hd => henter (ConfigOp.key.inj hd.2.2),?_⟩))
      change Untouched (deleteTrendKey s key).store s.store
      unfold deleteTrendKey
      rw [if_neg henter]
      split_ifs <;> exact Untouched.refl _
  · rw [if_neg hkey]
    refine Or.inr (Or.inr (Or.inr ⟨hnot fun hd => hkey ?_,Untouched.refl _⟩))
    rw [ConfigOp.key.inj hd.2.2]
    exact hd.2.1

/-- A key of the editor changes the parameters at most. -/
theorem editTrendMenu_store {s : ConfigUi} (hm : s.edit.currentMenu=.editTrend) (key : UInt16) :
    StoreCases s (.key key) (editTrendMenu s.edit key).store := by
  have hnot (he : ¬Edits s (.key key)) :
      ¬Adds s (.key key) ∧ ¬Deletes s (.key key) ∧ ¬Edits s (.key key) :=
    ⟨fun ha => absurd (hm.symm.trans ha.1) (by decide),
      fun hd => absurd (hm.symm.trans hd.1) (by decide),he⟩
  obtain ⟨pos,hpos⟩ := TrendHistory.editTrendMenu_eq s.edit key
  rw [hpos]
  by_cases hkey : key≠s.edit.prevKey
  · rw [if_pos hkey]
    by_cases hconfirm : key=keyLeft ∨ key=keyEnter
    · refine Or.inr (Or.inr (Or.inl ⟨⟨key,rfl,hm,hkey,hconfirm⟩,?_⟩))
      change (TrendEdit.editTrendKey _ key).store=_
      unfold TrendEdit.editTrendKey
      rw [if_pos hconfirm]
      rfl
    · have hedits : ¬Edits s (.key key) := by
        rintro ⟨key',hop,hc⟩
        rw [←ConfigOp.key.inj hop] at hc
        exact hconfirm hc.2.2
      refine Or.inr (Or.inr (Or.inr ⟨hnot hedits,?_⟩))
      change Untouched (TrendEdit.editTrendKey _ key).store s.store
      by_cases hexit : key=keyExit
      · unfold TrendEdit.editTrendKey
        rw [if_neg hconfirm,if_pos hexit]
        exact Untouched.refl _
      · obtain ⟨hleft,henter⟩ := not_or.mp hconfirm
        rw [(TrendHistory.editTrendKey_edits _ hleft henter hexit).store]
        exact Untouched.refl _
  · have hedits : ¬Edits s (.key key) := by
      rintro ⟨key',hop,hc⟩
      rw [←ConfigOp.key.inj hop] at hc
      exact hkey hc.2.1
    rw [if_neg hkey]
    exact Or.inr (Or.inr (Or.inr ⟨hnot hedits,Untouched.refl _⟩))

/-- An operation that is none of the three. -/
theorem StoreCases.of_untouched {s : ConfigUi} {op : ConfigOp} {store : TrendStore}
    (hadds : ¬Adds s op) (hdeletes : ¬Deletes s op) (hedits : ¬Edits s op)
    (h : Untouched store s.store) : StoreCases s op store :=
  Or.inr (Or.inr (Or.inr ⟨⟨hadds,hdeletes,hedits⟩,h⟩))

/-- A key of the list of trends changes none. -/
theorem trendConfigMenu_store (s : ConfigUi) (key : UInt16) :
    (trendConfigMenu s key).store=s.store := by
  unfold trendConfigMenu
  split_ifs
  · rfl
  · rfl
  · exact (TrendHistory.initEditTrendMenu_eq s.edit).1
  · rfl
  · rfl
  · rfl

/-- What a key does to the store, on every screen. -/
theorem showKey_store (s : ConfigUi) (key : UInt16) :
    StoreCases s (.key key) (showKey s key).store := by
  have hnone (hadd : s.edit.currentMenu≠.addTrend) (hedit : s.edit.currentMenu≠.editTrend)
      (hdelete : s.edit.currentMenu≠.deleteTrend) {store : TrendStore} (h : store=s.store) :
      StoreCases s (.key key) store := by
    rw [h]
    exact .of_untouched (fun ha => hadd ha.1) (fun hd => hdelete hd.1) (fun he => hedit he.menu)
      (Untouched.refl _)
  unfold showKey
  split
  next hm =>
    rw [hm] at hnone
    exact hnone (by decide) (by decide) (by decide) (trendConfigMenu_store s key)
  next hm => exact addTrendMenu_store hm key
  next hm => exact editTrendMenu_store hm key
  next hm => exact deleteTrendInfoMenu_store hm key
  next hconf hadd hedit hdelete => exact hnone hadd hedit hdelete rfl

/-- What an operation but a reboot does to the stored trends. -/
theorem configStep_store (access : Bool) (s : ConfigUi) {op : ConfigOp} (h : op≠.reboot) :
    StoreCases s op (configStep access s op).store := by
  have hnone (hkey : ∀ key,op≠.key key) {store : TrendStore} (hs : Untouched store s.store) :
      StoreCases s op store := by
    refine .of_untouched (fun ha => ?_) (fun hd => hkey _ hd.2.2) (fun he => ?_) hs
    · exact ha.2.2.elim (hkey _) (hkey _)
    · obtain ⟨key,hop,_⟩ := he
      exact hkey key hop
  cases op with
  | key key => exact showKey_store s key
  | reboot => exact absurd rfl h
  | select menu =>
    refine hnone nofun ?_
    unfold configStep
    dsimp only
    split <;> exact Untouched.refl _
  | point curLongTime nodeAddr inpNum value =>
    refine hnone nofun ⟨⟨rfl,fun i _ => ?_⟩,fun _ _ => rfl⟩
    funext link
    exact link.get_checkAndAddDataToTrendFromCan _ _ _ _ _ i
  | otherData dt data =>
    refine hnone nofun ?_
    unfold configStep
    dsimp only
    split
    next => exact Untouched.refl _
    next hdt =>
      refine ⟨⟨rfl,fun _ _ => rfl⟩,fun dt' hdt' => Function.update_of_ne ?_ _ _⟩
      rintro rfl
      exact hdt hdt'

/-! ## The screens stay in range -/

/-- The screens keep the input numbers in range and choose a trend there is. -/
structure Screens (s : ConfigUi) : Prop where
  /-- add_trend_menu. -/
  add : s.edit.currentMenu=.addTrend → AddReady s
  /-- edit_trend_menu. -/
  edit : s.edit.currentMenu=.editTrend → EditReady s.edit
  /-- delete_trend_info_menu. -/
  delete : s.edit.currentMenu=.deleteTrend →
    s.curTrend=0 ∨ s.curTrend.toNat<s.store.trCnt.toNat

/-- Another screen than the three is shown. -/
theorem Screens.of_not {s : ConfigUi} (h : ¬IsTrendScreen s.edit.currentMenu) : Screens s where
  add := fun hm => absurd (Or.inl hm) h
  edit := fun hm => absurd (Or.inr (Or.inl hm)) h
  delete := fun hm => absurd (Or.inr (Or.inr hm)) h

/-- The list of trends opens its screens as the inputs allow. -/
theorem trendConfigMenu_screens {s : ConfigUi} (hm : s.edit.currentMenu=.trendConf)
    (h : InputsOk s.store.trends) (key : UInt16) : Screens (trendConfigMenu s key) := by
  unfold trendConfigMenu
  split_ifs
  · exact .of_not (show ¬IsTrendScreen .trendInfo by decide)
  · exact ⟨fun _ => (initAddTrendMenu_ready s).select _,nofun,nofun⟩
  · have hready := initEditTrendMenu_ready h
    exact ⟨nofun,fun _ => ⟨hready.copies,hready.limits⟩,nofun⟩
  · exact ⟨nofun,nofun,fun _ => Or.inl rfl⟩
  · exact .of_not (show ¬IsTrendScreen .config by decide)
  · exact .of_not (by rw [hm]; decide)

/-- The screen that deletes trends chooses one there is. -/
theorem deleteTrendInfoMenu_screens {s : ConfigUi} (hm : s.edit.currentMenu=.deleteTrend)
    (h : s.curTrend=0 ∨ s.curTrend.toNat<s.store.trCnt.toNat) (key : UInt16) :
    Screens (deleteTrendInfoMenu s key) := by
  have hone : (1 : UInt8).toNat=1 := rfl
  have hscreen {s' : ConfigUi} (hm' : s'.edit.currentMenu=.deleteTrend)
      (h' : s'.curTrend=0 ∨ s'.curTrend.toNat<s'.store.trCnt.toNat) : Screens s' :=
    ⟨fun ha => absurd (hm'.symm.trans ha) (by decide),
      fun he => absurd (hm'.symm.trans he) (by decide),fun _ => h'⟩
  unfold deleteTrendInfoMenu deleteTrendKey
  split_ifs with hkey henter hleave hup hnot hdown hless
  · exact hscreen hm (Or.inl rfl)
  · exact .of_not (show ¬IsTrendScreen .trendConf by decide)
  · refine hscreen hm (Or.inr ?_)
    have hlt := h.resolve_left hnot
    have hpos := Nat.pos_of_ne_zero fun h0 => hnot (UInt8.toNat_inj.mp h0)
    dsimp only
    rw [UInt8.toNat_sub,hone]
    change _<s.store.trCnt.toNat
    have hbyte := s.store.trCnt.toNat_lt
    omega
  · exact hscreen hm h
  · refine hscreen hm (Or.inr ?_)
    dsimp only
    rw [UInt8.toNat_add,hone]
    change _<s.store.trCnt.toNat
    omega
  · exact hscreen hm h
  · exact hscreen hm h
  · exact hscreen hm h

/-- add_trend_menu stays or goes back. -/
theorem addTrendMenu_menu (s : ConfigUi) (key : UInt16) :
    (addTrendMenu s key).edit.currentMenu=s.edit.currentMenu ∨
      (addTrendMenu s key).edit.currentMenu=.trendConf := by
  unfold addTrendMenu
  split
  · unfold fullKey
    split
    · exact Or.inr rfl
    · exact Or.inl rfl
  · unfold addTrendKey
    split_ifs
    · exact Or.inr rfl
    · exact Or.inr rfl
    · exact Or.inl rfl
    · left
      cases digit key with
      | none => rfl
      | some num =>
        dsimp only
        unfold TrendConfig.updateParamValue
        dsimp only
        split_ifs
        · rfl
        · split <;> rfl
    · left
      split <;> rfl

/-- edit_trend_menu stays or goes back. -/
theorem editTrendMenu_menu (s : EditUi) (key : UInt16) :
    (editTrendMenu s key).currentMenu=s.currentMenu ∨
      (editTrendMenu s key).currentMenu=.trendConf := by
  obtain ⟨pos,hpos⟩ := TrendHistory.editTrendMenu_eq s key
  rw [hpos]
  split
  · by_cases hleave : key=keyLeft ∨ key=keyEnter ∨ key=keyExit
    · exact Or.inr (TrendHistory.editTrendKey_leaves _ hleave)
    · obtain ⟨hleft,henter,hexit⟩ := not_or.mp hleave |>.imp_right not_or.mp
      exact Or.inl (TrendHistory.editTrendKey_edits {s with pos := pos} hleft henter hexit).menu
  · exact Or.inl rfl

/-- An operation keeps the screens. -/
theorem Screens.step {access : Bool} {s : ConfigUi} (hs : Screens s)
    (h : InputsOk s.store.trends) (op : ConfigOp) : Screens (configStep access s op) := by
  cases op with
  | select menu =>
    unfold configStep
    dsimp only
    split
    next => exact hs
    next hmenu => exact .of_not hmenu
  | key key =>
    unfold configStep showKey
    dsimp only
    split
    next hm => exact trendConfigMenu_screens hm h key
    next hm =>
      have hready := addTrendMenu_ready (hs.add hm) key
      have hmenu := addTrendMenu_menu s key
      rw [hm] at hmenu
      rcases hmenu with hmenu|hmenu
      · exact ⟨fun _ => hready,fun he => absurd (hmenu.symm.trans he) (by decide),
          fun hd => absurd (hmenu.symm.trans hd) (by decide)⟩
      · exact .of_not (by rw [hmenu]; decide)
    next hm =>
      have hready := editTrendMenu_ready (hs.edit hm) key
      have hmenu := editTrendMenu_menu s.edit key
      rw [hm] at hmenu
      rcases hmenu with hmenu|hmenu
      · exact ⟨fun ha => absurd (hmenu.symm.trans ha) (by decide),fun _ => hready,
          fun hd => absurd (hmenu.symm.trans hd) (by decide)⟩
      · exact .of_not (show ¬IsTrendScreen (editTrendMenu s.edit key).currentMenu by
          rw [hmenu]; decide)
    next hm => exact deleteTrendInfoMenu_screens hm (hs.delete hm) key
    next => exact hs
  | point curLongTime nodeAddr inpNum value =>
    exact ⟨fun hm => ⟨(hs.add hm).entered,(hs.add hm).limits⟩,
      fun hm => ⟨(hs.edit hm).copies,(hs.edit hm).limits⟩,hs.delete⟩
  | otherData dt data =>
    unfold configStep
    dsimp only
    split
    · exact hs
    · exact ⟨fun hm => ⟨(hs.add hm).entered,(hs.add hm).limits⟩,
        fun hm => ⟨(hs.edit hm).copies,(hs.edit hm).limits⟩,hs.delete⟩
  | reboot => exact .of_not (show ¬IsTrendScreen .state by decide)

end BT816Display.TrendScreens
