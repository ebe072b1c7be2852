import BT816Display.TrendScreens

/-!
# The digit editors of the trend screens

add_trend_menu.c and edit_trend_menu.c show the six parameters of a trend and
put digits into them. The numbers on the screen and the parameters of the
trend are written side by side, by each digit and by each change of the
trend, so they stay equal whatever the keys are.
-/

namespace BT816Display.TrendEditors

open DigitEditor (Editing Fields Param SameNumbers DigitWidths place)
open Keys TrendConfig TrendData TrendScreens TrendStorage
open TrendEdit (EditEvent EditUi Link editParam editTrendMenu initEditTrendMenu paramCnt paramsOf
  putDigit updateData updateParamsByTrendNum)

/-- What an operator can rely on while a trend is edited. -/
structure Consistent (f : Fields Link) (tr : Trend) : Prop where
  /-- One parameter alone has edit_flag set. -/
  flag : ∃! i,i<paramCnt ∧ (f.params i).editFlag≠0
  /-- pos is on a digit of it. -/
  cursor : ∀ i<paramCnt,(f.params i).editFlag≠0 →
    1≤f.pos.toNat ∧ f.pos.toNat≤(f.params i).width.toNat
  /-- The index that update_param_value computes is one of three digits. -/
  digit : ∀ i<paramCnt,(f.params i).editFlag≠0 → (place (f.params i).width f.pos).toNat≤2
  /-- Every value is between the limits of its parameter. -/
  range : ∀ i<paramCnt,(f.params i).minVal ≤ (f.params i).value ∧
    (f.params i).value ≤ (f.params i).maxVal
  /-- The trend has the values that are shown. -/
  field : ∀ i<paramCnt,((f.params i).link.get tr).toUInt16=(f.params i).value

/-! ## The numbers of a trend -/

/-- The constants of the six parameters. -/
structure Laid (f : Fields Link) : Prop where
  /-- Every parameter is shown once. -/
  link : ∀ i<paramCnt,∀ j<paramCnt,(f.params i).link=(f.params j).link → i=j
  /-- The limits are in order. -/
  limits : ∀ i<paramCnt,(f.params i).minVal ≤ (f.params i).maxVal
  /-- A byte holds every value. -/
  byte : ∀ i<paramCnt,(f.params i).maxVal.toNat≤255
  /-- A value has one to three digits. -/
  widths : DigitWidths f

/-- Other values leave the constants alone. -/
theorem Laid.congr {f f' : Fields Link} (h : Laid f)
    (hlink : ∀ i,(f'.params i).link=(f.params i).link)
    (hmin : ∀ i,(f'.params i).minVal=(f.params i).minVal)
    (hmax : ∀ i,(f'.params i).maxVal=(f.params i).maxVal)
    (hwidth : ∀ i,(f'.params i).width=(f.params i).width) : Laid f' where
  link := fun i hi j hj hij => h.link i hi j hj (by rw [←hlink,←hlink,hij])
  limits := fun i hi => by rw [hmin,hmax]; exact h.limits i hi
  byte := fun i hi => by rw [hmax]; exact h.byte i hi
  widths := fun i hi => by rw [hwidth]; exact h.widths i hi

/-- The numbers on the screen are the parameters of the trend, and in range. -/
structure Shows (f : Fields Link) (tr : Trend) : Prop where
  /-- The constants. -/
  laid : Laid f
  /-- The values are in range. -/
  range : ∀ i<paramCnt,(f.params i).minVal ≤ (f.params i).value ∧
    (f.params i).value ≤ (f.params i).maxVal
  /-- They are those of the trend. -/
  field : ∀ i<paramCnt,((f.params i).link.get tr).toUInt16=(f.params i).value

/-- One of the shown numbers is under edit. -/
def Edited (f : Fields Link) (tr : Trend) : Prop := Shows f tr ∧ ∃ cur,Editing f cur

/-- What is being edited agrees with its fields. -/
theorem Edited.consistent {f : Fields Link} {tr : Trend} (h : Edited f tr) : Consistent f tr := by
  obtain ⟨hshows,cur,hcur⟩ := h
  have honly {i : ℕ} (hi : i<paramCnt) (hflag : (f.params i).editFlag≠0) : i=cur :=
    (hcur.flag i hi).mp hflag
  exact {
    flag := ⟨cur,⟨hcur.lt,(hcur.flag cur hcur.lt).mpr rfl⟩,fun i hi => honly hi.1 hi.2⟩
    cursor := fun i hi hflag => by
      rw [honly hi hflag]
      exact ⟨hcur.pos_pos,hcur.pos_le⟩
    digit := fun i hi hflag => by
      rw [honly hi hflag,DigitEditor.place_toNat (hshows.laid.widths cur hcur.lt).2 hcur.pos_pos
        hcur.pos_le]
      have hle := hcur.pos_le
      omega
    range := hshows.range
    field := hshows.field }

/-- Flags and cursor do not matter for what is shown. -/
theorem Shows.of_sameNumbers {f f' : Fields Link} {tr : Trend} (h : Shows f tr)
    (hs : SameNumbers f f') : Shows f' tr where
  laid := h.laid.congr hs.link hs.minVal hs.maxVal hs.width
  range := fun i hi => by
    rw [hs.minVal,hs.maxVal,hs.value]
    exact h.range i hi
  field := fun i hi => by
    rw [hs.link,hs.value]
    exact h.field i hi

/-- A trend with the same parameters is shown as well. -/
theorem Shows.of_params {f : Fields Link} {tr tr' : Trend} (h : Shows f tr)
    (hparams : ∀ link : Link,link.get tr'=link.get tr) : Shows f tr' where
  laid := h.laid
  range := h.range
  field := fun i hi => by
    rw [hparams]
    exact h.field i hi

/-- A field that was set reads the value set. -/
theorem get_set_self (link : Link) (tr : Trend) (value : UInt8) :
    link.get (link.set tr value)=value := by
  cases link <;> rfl

/-- A parameter that is set leaves the others alone. -/
theorem get_set_of_ne {link link' : Link} (h : link≠link') (tr : Trend) (value : UInt8) :
    link.get (link'.set tr value)=link.get tr := by
  cases link <;> cases link' <;> first | rfl | exact absurd rfl h

/-- A value between limits of a byte is shown as the trend stores it. -/
theorem clamp_byte {p : Param Link} (hlimits : p.minVal ≤ p.maxVal) (hbyte : p.maxVal.toNat≤255)
    (value : UInt16) : (DigitEditor.clamp p value).toUInt8.toUInt16=DigitEditor.clamp p value := by
  have hclamp := DigitEditor.clamp_toNat hlimits value
  apply UInt16.toNat_inj.mp
  rw [UInt8.toNat_toUInt16,UInt16.toNat_toUInt8]
  omega

/-- A new value is written to the number and to the trend. -/
theorem Shows.setValue {f : Fields Link} {tr : Trend} (h : Shows f tr) {cur : ℕ}
    (hcur : cur<paramCnt) (value : UInt16) :
    Shows (f.setValue cur (DigitEditor.clamp (f.params cur) value))
      ((f.params cur).link.set tr (DigitEditor.clamp (f.params cur) value).toUInt8) := by
  have hlimits := h.laid.limits cur hcur
  have hbyte := h.laid.byte cur hcur
  have hclamp := DigitEditor.clamp_toNat hlimits value
  generalize hnew : DigitEditor.clamp (f.params cur) value=new at hclamp ⊢
  have hv := DigitEditor.setValue_onlyValues f cur new
  refine ⟨h.laid.congr hv.link hv.minVal hv.maxVal hv.width,fun i hi => ?_,fun i hi => ?_⟩
  · rw [hv.minVal,hv.maxVal,DigitEditor.setValue_value]
    split
    next hc =>
      have hle := UInt16.le_iff_toNat_le.mp hlimits
      rw [hc,UInt16.le_iff_toNat_le,UInt16.le_iff_toNat_le]
      omega
    next => exact h.range i hi
  · rw [hv.link,DigitEditor.setValue_value]
    split
    next hc => rw [hc,get_set_self,←hnew,clamp_byte hlimits hbyte]
    next hc =>
      rw [get_set_of_ne fun hl => hc (h.laid.link i hi cur hcur hl)]
      exact h.field i hi

/-- The cursor moves to the right. -/
theorem Edited.posToRight {f : Fields Link} {tr : Trend} (h : Edited f tr) :
    Edited (DigitEditor.posToRight f) tr := by
  obtain ⟨hshows,cur,hcur⟩ := h
  exact ⟨hshows.of_sameNumbers (DigitEditor.posToRight_sameNumbers f),
    DigitEditor.posToRight_editing hcur hshows.laid.widths⟩

/-- A digit is entered: both writes, and the cursor moves on. -/
theorem Edited.enter {f : Fields Link} {tr : Trend} (h : Edited f tr) {cur : ℕ}
    (hcur : Editing f cur) (value : UInt16) :
    Edited (DigitEditor.posToRight (f.setValue cur (DigitEditor.clamp (f.params cur) value)))
      ((f.params cur).link.set tr (DigitEditor.clamp (f.params cur) value).toUInt8) := by
  refine Edited.posToRight ⟨h.1.setValue hcur.lt value,cur,?_⟩
  exact hcur.of_onlyValues (DigitEditor.setValue_onlyValues f cur _)

/-! ## The fields as they are laid out -/

/-- The constants and the flags do not depend on the trend. -/
theorem addParams_constants (tr tr' : Trend) (i : ℕ) :
    (addParams tr i).link=(addParams tr' i).link ∧
      (addParams tr i).minVal=(addParams tr' i).minVal ∧
      (addParams tr i).maxVal=(addParams tr' i).maxVal ∧
      (addParams tr i).width=(addParams tr' i).width ∧
      (addParams tr i).editFlag=(addParams tr' i).editFlag := by
  match i with
  | 0 | 1 | 2 | 3 | 4 | _+5 => exact ⟨rfl,rfl,rfl,rfl,rfl⟩

/-- The fields opened show the parameters of the trend. -/
theorem addParams_value (tr : Trend) (i : ℕ) :
    (addParams tr i).value=((addParams tr i).link.get tr).toUInt16 := by
  match i with
  | 0 | 1 | 2 | 3 | 4 | _+5 => rfl

/-- The fields opened are laid out. -/
theorem addParams_laid (tr : Trend) (pos : UInt8) : Laid ⟨addParams tr,pos⟩ := by
  have hnew : Laid ⟨addParams getNewTrend,pos⟩ := by
    constructor
    · exact (by decide : ∀ i<paramCnt,∀ j<paramCnt,
        (addParams getNewTrend i).link=(addParams getNewTrend j).link → i=j)
    · exact (by decide : ∀ i<paramCnt,
        (addParams getNewTrend i).minVal ≤ (addParams getNewTrend i).maxVal)
    · exact (by decide : ∀ i<paramCnt,(addParams getNewTrend i).maxVal.toNat≤255)
    · exact (by decide : ∀ i<paramCnt,1≤(addParams getNewTrend i).width.toNat ∧
        (addParams getNewTrend i).width.toNat≤3)
  have hconst := addParams_constants tr getNewTrend
  exact hnew.congr (fun i => (hconst i).1) (fun i => (hconst i).2.1) (fun i => (hconst i).2.2.1)
    fun i => (hconst i).2.2.2.1

/-- The fields of a trend with an input number in range, with the cursor on a
digit of the first one. -/
theorem addParams_edited {tr : Trend} (h : InpOk tr.inpNum) {pos : UInt8} (h1 : 1≤pos.toNat)
    (h3 : pos.toNat≤3) : Edited ⟨addParams tr,pos⟩ tr := by
  have hbyte (b : UInt8) : (0 : UInt16)≤b.toUInt16 ∧ b.toUInt16≤255 := by
    have hb := b.toNat_lt
    have h255 : (255 : UInt16).toNat=255 := rfl
    refine ⟨UInt16.zero_le,?_⟩
    rw [UInt16.le_iff_toNat_le,UInt8.toNat_toUInt16,h255]
    omega
  have hinp : (1 : UInt16)≤tr.inpNum.toUInt16 ∧ tr.inpNum.toUInt16≤14 := by
    have h14 : (14 : UInt16).toNat=14 := rfl
    have h1' : (1 : UInt16).toNat=1 := rfl
    have hpos := Nat.pos_of_ne_zero fun h0 => h.1 (UInt8.toNat_inj.mp h0)
    have hle : tr.inpNum.toNat≤14 := UInt8.le_iff_toNat_le.mp (UInt8.not_lt.mp h.2)
    rw [UInt16.le_iff_toNat_le,UInt16.le_iff_toNat_le,UInt8.toNat_toUInt16,h14,h1']
    omega
  refine ⟨⟨addParams_laid tr pos,fun i _ => ?_,fun i _ => (addParams_value tr i).symm⟩,0,
    by decide,fun i hi => ?_,h1,h3⟩
  · match i with
    | 1 => exact hinp
    | 0 | 2 | 3 | 4 | _+5 => exact hbyte _
  · dsimp only
    rw [(addParams_constants tr getNewTrend i).2.2.2.2]
    exact (by decide : ∀ i<paramCnt,(addParams getNewTrend i).editFlag≠0 ↔ i=0) i hi

/-! ## add_trend_menu -/

/-- A digit of add_trend_menu. -/
theorem updateParamValue_edited {s : ConfigUi} (h : Edited s.fields s.tr) (num : UInt8) :
    Edited (TrendConfig.updateParamValue s (DigitEditor.getCurParam s.fields) num).fields
      (TrendConfig.updateParamValue s (DigitEditor.getCurParam s.fields) num).tr := by
  obtain ⟨hshows,cur,hcur⟩ := h
  unfold TrendConfig.updateParamValue
  rw [hcur.getCurParam,if_neg (Nat.not_le.mpr hcur.lt),hcur.newValue hshows.laid.widths num]
  exact Edited.enter ⟨hshows,cur,hcur⟩ hcur _

/-- A key of add_trend_menu. -/
theorem addTrendKey_edited {s : ConfigUi} (h : Edited s.fields s.tr) (key : UInt16) :
    Edited (addTrendKey s key).fields (addTrendKey s key).tr := by
  unfold addTrendKey
  split_ifs
  · exact h
  · exact h
  · exact h.posToRight
  · cases digit key with
    | none => exact h
    | some num => exact updateParamValue_edited h num
  · cases digit key with
    | none => exact h
    | some num => exact h

/-- Every key of the new trend screen keeps its fields in step with the trend. -/
theorem addTrendMenu_edited {s : ConfigUi} (h : Edited s.fields s.tr) (key : UInt16) :
    Edited (addTrendMenu s key).fields (addTrendMenu s key).tr := by
  unfold addTrendMenu
  dsimp only
  split
  · unfold fullKey
    split
    · exact h
    · exact h
  · refine addTrendKey_edited ?_ key
    obtain ⟨hshows,cur,hcur⟩ := h
    dsimp only
    rw [hcur.holdCursor]
    exact ⟨hshows,cur,hcur⟩

/-- The screen for a new trend over any keys. -/
theorem addTrendMenu_run (s : ConfigUi) (keys : List UInt16) :
    Edited (keys.foldl addTrendMenu (initAddTrendMenu s)).fields
      (keys.foldl addTrendMenu (initAddTrendMenu s)).tr := by
  have hinit : Edited (initAddTrendMenu s).fields (initAddTrendMenu s).tr :=
    addParams_edited (by decide) (by decide) (by decide)
  generalize initAddTrendMenu s=opened at hinit ⊢
  induction keys generalizing opened with
  | nil => exact hinit
  | cons key keys ih => exact ih _ (addTrendMenu_edited hinit key)

/-! ## edit_trend_menu -/

/-- The editor of the stored trends shows the trend that it edits. -/
structure EditorReady (s : EditUi) : Prop where
  /-- The shown trend. -/
  edited : Edited (fieldsOf s) s.ptr
  /-- The edited trend is one of the copies. -/
  cur : s.curTrend.toNat<trendMaxCnt
  /-- There are as many trends as slots at most. -/
  count : s.store.trCnt.toNat≤trendMaxCnt

/-- Showing the fields does nothing to an editor with one number under edit. -/
theorem updateData_of_editing {s : EditUi} {cur : ℕ} (h : Editing (fieldsOf s) cur) :
    updateData s=s := by
  have hfields : fieldsOf (updateData s)=DigitEditor.holdCursor (fieldsOf s) := by
    unfold updateData DigitEditor.holdCursor
    refine (List.foldl_hom fieldsOf fun s' i => ?_).symm
    by_cases hmove : (s'.params i).editFlag≠0 ∧ s'.pos.toUInt16>(s'.params i).width
    · rw [if_pos hmove]
      exact if_pos hmove
    · rw [if_neg hmove]
      exact if_neg hmove
  obtain ⟨pos,hpos⟩ := TrendHistory.updateData_eq s
  rw [h.holdCursor,hpos] at hfields
  have hsame : pos=s.pos := congrArg Fields.pos hfields
  rw [hpos,hsame]

/-- The fields of a trend with an input number in range. The cursor stays
where it is. -/
theorem updateParams_ready {s : EditUi} (hcopies : InputsOk s.tmpTrends)
    (hcur : s.curTrend.toNat<trendMaxCnt) (hcount : s.store.trCnt.toNat≤trendMaxCnt)
    (h1 : 1 ≤ s.pos.toNat) (h3 : s.pos.toNat≤3) :
    EditorReady (updateParamsByTrendNum s s.curTrend) := by
  have hfields : fieldsOf {s with params := paramsOf s.ptr}=⟨addParams s.ptr,s.pos⟩ := by
    unfold fieldsOf
    congr 1
    funext i
    match i with
    | 0 | 1 | 2 | 3 | 4 | _+5 => rfl
  unfold updateParamsByTrendNum
  rw [if_neg (Nat.not_le.mpr hcur)]
  refine ⟨?_,hcur,hcount⟩
  rw [hfields]
  exact addParams_edited (hcopies _ hcur) h1 h3

/-- Another trend is chosen. -/
theorem EditorReady.choose {s : EditUi} (h : EditorReady s) (hcopies : InputsOk s.tmpTrends)
    {curTrend : UInt8} (hcur : curTrend.toNat<trendMaxCnt) :
    EditorReady (updateParamsByTrendNum {s with curTrend := curTrend} curTrend) := by
  obtain ⟨hshows,cur,hcursor⟩ := h.edited
  have h3 : s.pos.toNat≤3 := hcursor.pos_le.trans (hshows.laid.widths cur hcursor.lt).2
  exact updateParams_ready (s:={s with curTrend := curTrend}) hcopies hcur h.count
    hcursor.pos_pos h3

/-- pos_to_right changes flags and the cursor only. -/
theorem posToRight_rest (s : EditUi) : (TrendEdit.posToRight s).ptr=s.ptr ∧
    (TrendEdit.posToRight s).curTrend=s.curTrend ∧ (TrendEdit.posToRight s).store=s.store := by
  unfold TrendEdit.posToRight
  dsimp only
  split_ifs <;> exact ⟨rfl,rfl,rfl⟩

/-- Moving the cursor right keeps the editor ready. -/
theorem posToRight_editorReady {s : EditUi} (hcur : s.curTrend.toNat<trendMaxCnt)
    (hcount : s.store.trCnt.toNat≤trendMaxCnt)
    (h : Edited (DigitEditor.posToRight (fieldsOf s)) s.ptr) :
    EditorReady (TrendEdit.posToRight s) := by
  obtain ⟨hptr,hnum,hstore⟩ := posToRight_rest s
  refine ⟨?_,by rw [hnum]; exact hcur,by rw [hstore]; exact hcount⟩
  rw [fieldsOf_posToRight,hptr]
  exact h

/-- A digit of edit_trend_menu. -/
theorem updateParamValue_editorReady {s : EditUi} (h : EditorReady s) (num : UInt8) :
    EditorReady (TrendEdit.updateParamValue s (TrendEdit.getCurParam s) num) := by
  obtain ⟨hshows,cur,hcur⟩ := h.edited
  have hgot : TrendEdit.getCurParam s=cur := hcur.getCurParam
  have hplace := DigitEditor.place_toNat (hshows.laid.widths cur hcur.lt).2 hcur.pos_pos hcur.pos_le
  have hindex : ¬(3-(s.params cur).width.toUInt8)+(s.pos-1)≥3 := by
    have hle := hcur.pos_le
    have h3 : (3 : UInt8).toNat=3 := rfl
    change ¬place ((fieldsOf s).params cur).width (fieldsOf s).pos≥3
    rw [ge_iff_le,UInt8.le_iff_toNat_le,hplace,h3]
    omega
  unfold TrendEdit.updateParamValue
  rw [hgot,if_neg (Nat.not_le.mpr hcur.lt)]
  dsimp only
  rw [if_neg hindex]
  refine posToRight_editorReady h.cur h.count ?_
  have henter := h.edited.enter hcur
    (putDigit (s.params cur).value (place (s.params cur).width s.pos) num)
  rw [fieldsOf_setValue]
  unfold EditUi.ptr
  dsimp only
  rw [Function.update_self]
  exact henter

/-- A trend with its points cleared has the same parameters. -/
theorem get_clearPoints (link : Link) (tr : Trend) :
    link.get (TrendEdit.clearPoints tr)=link.get tr := by
  cases link <;> rfl

/-- Confirming keeps the editor ready. -/
theorem confirm_editorReady {s : EditUi} (h : EditorReady s) :
    EditorReady (TrendEdit.confirm s) := by
  have hptr : (TrendEdit.confirm s).ptr=TrendEdit.clearPoints s.ptr := if_pos h.cur
  refine ⟨?_,h.cur,h.count⟩
  rw [hptr]
  obtain ⟨hshows,hcur⟩ := h.edited
  exact ⟨hshows.of_params fun link => get_clearPoints link s.ptr,hcur⟩

/-- A key of edit_trend_menu. -/
theorem editTrendKey_editorReady {s : EditUi} (h : EditorReady s) (hready : EditReady s)
    (key : UInt16) : EditorReady (TrendEdit.editTrendKey s key) := by
  have h1 : (1 : UInt8).toNat=1 := rfl
  have hmax : trendMaxCnt=3 := rfl
  have hcur := h.cur
  have hcount := h.count
  unfold TrendEdit.editTrendKey
  dsimp only
  split_ifs with _ _ _ hup _ hdown
  · exact confirm_editorReady h
  · exact ⟨h.edited,h.cur,h.count⟩
  · refine h.choose hready.copies ?_
    have hpos := Nat.pos_of_ne_zero fun h0 => hup (UInt8.toNat_inj.mp h0)
    rw [UInt8.toNat_sub,h1]
    omega
  · exact h.choose hready.copies hcur
  · refine h.choose hready.copies ?_
    rw [UInt8.toNat_add,h1]
    omega
  · exact h.choose hready.copies hcur
  · exact posToRight_editorReady hcur hcount h.edited.posToRight
  · cases digit key with
    | none => exact h
    | some num => exact updateParamValue_editorReady h num

/-- Every key of the trend editor keeps it ready. -/
theorem editTrendMenu_editorReady {s : EditUi} (h : EditorReady s) (hready : EditReady s)
    (key : UInt16) : EditorReady (editTrendMenu s key) := by
  have hshown : (if s.store.trCnt≠0 then updateData s else s)=s := by
    obtain ⟨_,cur,hcur⟩ := h.edited
    split
    · exact updateData_of_editing hcur
    · rfl
  unfold editTrendMenu
  rw [hshown]
  dsimp only
  split
  · have hkey := editTrendKey_editorReady h hready key
    exact ⟨hkey.edited,hkey.cur,hkey.count⟩
  · exact ⟨h.edited,h.cur,h.count⟩

/-- Opening the editor shows the first trend. -/
theorem initEditTrendMenu_editorReady {s : EditUi} (hinputs : InputsOk s.store.trends)
    (hcount : s.store.trCnt.toNat≤trendMaxCnt) : EditorReady (initEditTrendMenu s) := by
  have hcopies := (initEditTrendMenu_ready hinputs).copies
  have hopened := updateParams_ready (s:={s with
    curTrend := 0
    tmpTrends := fun i => if i<trendMaxCnt then s.store.trends i else s.tmpTrends i
    pos := 1}) hcopies (by decide : (0 : UInt8).toNat<trendMaxCnt) hcount
    (by decide : 1≤(1 : UInt8).toNat) (by decide : (1 : UInt8).toNat≤3)
  exact ⟨hopened.edited,hopened.cur,hopened.count⟩

/-- A key for the screen, or a point that the CAN interrupt delivers. -/
def editorStep (s : EditUi) : EditEvent → EditUi
  | .key key => editTrendMenu s key
  | .point curLongTime nodeAddr inpNum value =>
    {s with store := {s.store with
      trends := checkAndAddDataToTrendFromCan s.store.trends curLongTime nodeAddr inpNum value}}

/-- The screen for the stored trends over any keys and points. -/
theorem editTrendMenu_run {s : EditUi} (hinputs : InputsOk s.store.trends)
    (hcount : s.store.trCnt.toNat≤trendMaxCnt) (events : List EditEvent) :
    EditorReady (events.foldl editorStep (initEditTrendMenu s)) := by
  have hinit := initEditTrendMenu_editorReady hinputs hcount
  have hready := initEditTrendMenu_ready hinputs
  generalize initEditTrendMenu s=opened at hinit hready ⊢
  induction events generalizing opened with
  | nil => exact hinit
  | cons event events ih =>
    cases event with
    | key key =>
      exact ih _ (editTrendMenu_editorReady hinit hready key) (editTrendMenu_ready hready key)
    | point curLongTime nodeAddr inpNum value =>
      exact ih _ ⟨hinit.edited,hinit.cur,hinit.count⟩ ⟨hready.copies,hready.limits⟩

/-- Whatever the variables were before, behind any keys for the screen of a
new trend, and behind any keys for the screen of stored trends with numbers
of inputs: one parameter is under edit, the cursor is on a digit of it, and
the edited trend has the values that are shown, all in range. -/
theorem trendEditors_consistent {s : EditUi} (hinputs : InputsOk s.store.trends)
    (hcount : s.store.trCnt.toNat≤trendMaxCnt) (events : List EditEvent) (ui : ConfigUi)
    (keys : List UInt16) :
    Consistent (keys.foldl addTrendMenu (initAddTrendMenu ui)).fields
      (keys.foldl addTrendMenu (initAddTrendMenu ui)).tr ∧
    Consistent (fieldsOf (events.foldl editorStep (initEditTrendMenu s)))
      (events.foldl editorStep (initEditTrendMenu s)).ptr ∧
    (events.foldl editorStep (initEditTrendMenu s)).curTrend.toNat<trendMaxCnt := by
  have hedit := editTrendMenu_run hinputs hcount events
  exact ⟨(addTrendMenu_run ui keys).consistent,hedit.edited.consistent,hedit.cur⟩

/-- A panel with two new trends. -/
def twoTrends : EditUi :=
  {TrendEdit.start (fun _ => 0) with store := {initTrends (fun _ => 0) with trCnt := 2}}

/-- Both screens behind some keys; the second changes the trend meanwhile. -/
theorem trendEditors_consistent_two :
    Consistent ([keyRight,key2,key5].foldl addTrendMenu
        (initAddTrendMenu (TrendConfig.start true fun _ => 0))).fields
      ([keyRight,key2,key5].foldl addTrendMenu
        (initAddTrendMenu (TrendConfig.start true fun _ => 0))).tr ∧
    Consistent (fieldsOf ([.key keyRight,.key keyDown,.key key2].foldl editorStep
        (initEditTrendMenu twoTrends)))
      ([.key keyRight,.key keyDown,.key key2].foldl editorStep (initEditTrendMenu twoTrends)).ptr ∧
    ([.key keyRight,.key keyDown,.key key2].foldl editorStep
      (initEditTrendMenu twoTrends)).curTrend.toNat<trendMaxCnt := by
  have hinputs : InputsOk twoTrends.store.trends := by
    intro i hi
    match i,hi with
    | 0,_ | 1,_ | 2,_ => decide
  exact trendEditors_consistent hinputs (by decide) [.key keyRight,.key keyDown,.key key2]
    (TrendConfig.start true fun _ => 0) [keyRight,key2,key5]

end BT816Display.TrendEditors
