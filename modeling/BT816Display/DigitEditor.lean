import BT816Display.TrendEdit

/-!
# The digit editor of three screens

add_trend_menu.c, edit_trend_menu.c and set_time_menu.c hold copies of the
same editor: six numbers, one of them under edit, and a cursor that replaces
one digit after the other and moves on to the next number.
-/

namespace BT816Display.DigitEditor

open TrendEdit (paramCnt putDigit)

variable {L : Type}

/-- edit_param, without its place on the screen. -/
structure Param (L : Type) where
  /-- value. -/
  value : UInt16
  /-- max_val. -/
  maxVal : UInt16
  /-- min_val. -/
  minVal : UInt16
  /-- width, the number of digits. -/
  width : UInt16
  /-- link. -/
  link : L
  /-- edit_flag. -/
  editFlag : UInt16

/-- The variables of the editor. -/
structure Fields (L : Type) where
  /-- params. -/
  params : ℕ → Param L
  /-- pos, the digit under the cursor. -/
  pos : UInt8

/-- get_cur_param. -/
def getCurParam (f : Fields L) : ℕ :=
  ((List.range paramCnt).find? fun i => (f.params i).editFlag≠0).getD 0

/-- A number with another edit_flag. -/
def Fields.setEditFlag (f : Fields L) (i : ℕ) (editFlag : UInt16) : Fields L :=
  {f with params := Function.update f.params i {f.params i with editFlag := editFlag}}

/-- A number with another value. -/
def Fields.setValue (f : Fields L) (i : ℕ) (value : UInt16) : Fields L :=
  {f with params := Function.update f.params i {f.params i with value := value}}

/-- pos_to_right. -/
def posToRight (f : Fields L) : Fields L :=
  let curPar := getCurParam f
  let f := f.setEditFlag curPar 1
  let width := (f.params curPar).width
  let f := if f.pos=0 then {f with pos := 1} else f
  let f := if f.pos.toUInt16>width then {f with pos := width.toUInt8} else f
  if f.pos.toUInt16<width then {f with pos := f.pos+1}
  else
    let f := f.setEditFlag curPar 0
    let curPar := if curPar+1≥paramCnt then 0 else curPar+1
    {f.setEditFlag curPar 1 with pos := 1}

/-- A value between the limits of its number. -/
def clamp (p : Param L) (value : UInt16) : UInt16 :=
  let value := if value<p.minVal then p.minVal else value
  if value>p.maxVal then p.maxVal else value

/-- The value with a digit replaced under the cursor; none when there is no
such digit. -/
def newValue (p : Param L) (pos num : UInt8) : Option UInt16 :=
  let index := (3-p.width.toUInt8)+(pos-1)
  if index≥3 then none else some (clamp p (putDigit p.value index num))

/-- The cursor of a shown screen: it is held to the width of the number. -/
def holdCursor (f : Fields L) : Fields L :=
  (List.range paramCnt).foldl (fun f i =>
    if (f.params i).editFlag≠0 ∧ f.pos.toUInt16>(f.params i).width then
      {f with pos := (f.params i).width.toUInt8}
    else f) f

/-! ## One number is under edit -/

/-- The number `cur` alone is under edit, and the cursor is on one of its digits. -/
structure Editing (f : Fields L) (cur : ℕ) : Prop where
  /-- There is such a number. -/
  lt : cur<paramCnt
  /-- Its flag is the only one. -/
  flag : ∀ i<paramCnt,(f.params i).editFlag≠0 ↔ i=cur
  /-- Digits are counted from 1. -/
  pos_pos : 1≤f.pos.toNat
  /-- The cursor is on a digit. -/
  pos_le : f.pos.toNat≤(f.params cur).width.toNat

/-- The number behind `cur`. -/
def nextParam (cur : ℕ) : ℕ := if cur+1≥paramCnt then 0 else cur+1

/-- The next parameter is a parameter. -/
theorem nextParam_lt (cur : ℕ) : nextParam cur<paramCnt := by
  unfold nextParam
  split
  · decide
  · omega

/-- The number under edit is found by its flag. -/
theorem Editing.getCurParam {f : Fields L} {cur : ℕ} (h : Editing f cur) :
    getCurParam f=cur := by
  have hfind : (List.range paramCnt).find? (fun i => decide ((f.params i).editFlag≠0))=
      some cur := by
    rw [List.find?_range_eq_some]
    refine ⟨decide_eq_true ((h.flag cur h.lt).mpr rfl),List.mem_range.mpr h.lt,fun j hj => ?_⟩
    have hne : ¬(f.params j).editFlag≠0 := fun hf =>
      absurd ((h.flag j (hj.trans h.lt)).mp hf) hj.ne
    rw [decide_eq_false hne]
    rfl
  unfold DigitEditor.getCurParam
  rw [hfind]
  rfl

/-- The numbers of another editor state, whatever flags and cursor are. -/
structure SameNumbers (f f' : Fields L) : Prop where
  /-- value. -/
  value : ∀ i,(f'.params i).value=(f.params i).value
  /-- width. -/
  width : ∀ i,(f'.params i).width=(f.params i).width
  /-- link. -/
  link : ∀ i,(f'.params i).link=(f.params i).link
  /-- min_val. -/
  minVal : ∀ i,(f'.params i).minVal=(f.params i).minVal
  /-- max_val. -/
  maxVal : ∀ i,(f'.params i).maxVal=(f.params i).maxVal

/-- Every field holds the numbers it holds. -/
theorem SameNumbers.refl (f : Fields L) : SameNumbers f f :=
  ⟨fun _ => rfl,fun _ => rfl,fun _ => rfl,fun _ => rfl,fun _ => rfl⟩

/-- Holding the same numbers is transitive. -/
theorem SameNumbers.trans {f f' f'' : Fields L} (h : SameNumbers f f')
    (h' : SameNumbers f' f'') : SameNumbers f f'' where
  value := fun i => (h'.value i).trans (h.value i)
  width := fun i => (h'.width i).trans (h.width i)
  link := fun i => (h'.link i).trans (h.link i)
  minVal := fun i => (h'.minVal i).trans (h.minVal i)
  maxVal := fun i => (h'.maxVal i).trans (h.maxVal i)

/-- The cursor belongs to no number. -/
theorem SameNumbers.cursor {f f' : Fields L} (h : SameNumbers f f') (pos : UInt8) :
    SameNumbers f {f' with pos := pos} := ⟨h.value,h.width,h.link,h.minVal,h.maxVal⟩

/-- A flag belongs to no number's value or constants. -/
theorem setEditFlag_sameNumbers (f : Fields L) (j : ℕ) (editFlag : UInt16) :
    SameNumbers f (f.setEditFlag j editFlag) := by
  refine ⟨?_,?_,?_,?_,?_⟩ <;>
  · intro i
    unfold Fields.setEditFlag
    dsimp only
    by_cases hi : i=j
    · rw [hi,Function.update_self]
    · rw [Function.update_of_ne hi]

/-- Setting an edit flag sets that one flag. -/
theorem setEditFlag_editFlag (f : Fields L) (j : ℕ) (editFlag : UInt16) (i : ℕ) :
    ((f.setEditFlag j editFlag).params i).editFlag=
      if i=j then editFlag else (f.params i).editFlag := by
  unfold Fields.setEditFlag
  dsimp only
  split
  next hi => rw [hi,Function.update_self]
  next hi => rw [Function.update_of_ne hi]

/-- What pos_to_right does to an editor with one number under edit. -/
theorem Editing.posToRight_eq {f : Fields L} {cur : ℕ} (h : Editing f cur) :
    posToRight f=
      if f.pos.toUInt16<(f.params cur).width then {f.setEditFlag cur 1 with pos := f.pos+1}
      else {((f.setEditFlag cur 1).setEditFlag cur 0).setEditFlag (nextParam cur) 1 with
        pos := 1} := by
  have hwidth := (setEditFlag_sameNumbers f cur 1).width cur
  have hpos : (f.setEditFlag cur 1).pos=f.pos := rfl
  have hne : f.pos≠0 := by
    intro h0
    have hp := h.pos_pos
    rw [h0] at hp
    exact absurd hp (by decide)
  have hle : ¬f.pos.toUInt16>(f.params cur).width := by
    have hp := h.pos_le
    rw [gt_iff_lt,UInt16.lt_iff_toNat_lt,UInt8.toNat_toUInt16]
    omega
  unfold posToRight
  rw [h.getCurParam]
  dsimp only
  rw [hwidth,hpos,if_neg hne,hpos,if_neg hle,hpos]
  rfl

/-- pos_to_right changes flags and the cursor only. -/
theorem posToRight_sameNumbers (f : Fields L) : SameNumbers f (posToRight f) := by
  have hon := setEditFlag_sameNumbers f (getCurParam f) 1
  unfold posToRight
  dsimp only
  split_ifs <;>
    first
    | exact hon.cursor _
    | exact ((hon.trans (setEditFlag_sameNumbers _ _ 0)).trans
        (setEditFlag_sameNumbers _ _ 1)).cursor 1

/-- A shown screen changes the cursor only. -/
theorem holdCursor_sameNumbers (f : Fields L) : SameNumbers f (holdCursor f) := by
  unfold holdCursor
  generalize List.range paramCnt=indices
  induction indices generalizing f with
  | nil => exact SameNumbers.refl f
  | cons i indices ih =>
    rw [List.foldl_cons]
    split
    · exact ((SameNumbers.refl f).cursor _).trans (ih _)
    · exact ih f

/-- Every number has one to three digits. -/
def DigitWidths (f : Fields L) : Prop :=
  ∀ i<paramCnt,1≤(f.params i).width.toNat ∧ (f.params i).width.toNat≤3

/-- pos_to_right leaves one number under edit. -/
theorem posToRight_editing {f : Fields L} {cur : ℕ} (h : Editing f cur)
    (hwidth : DigitWidths f) : ∃ cur',Editing (posToRight f) cur' := by
  have hp := h.pos_le
  rw [h.posToRight_eq]
  split
  next hlt =>
    rw [UInt16.lt_iff_toNat_lt,UInt8.toNat_toUInt16] at hlt
    have hw := (hwidth cur h.lt).2
    have h1 : (1 : UInt8).toNat=1 := rfl
    have hpos : (f.pos+1).toNat=f.pos.toNat+1 := by
      rw [UInt8.toNat_add,h1]
      omega
    refine ⟨cur,h.lt,fun i hi => ?_,?_,?_⟩
    · dsimp only
      rw [setEditFlag_editFlag]
      split
      next hc => exact iff_of_true (by decide) hc
      next => exact h.flag i hi
    · dsimp only
      omega
    · dsimp only
      rw [(setEditFlag_sameNumbers f cur 1).width]
      omega
  next =>
    have hnext := nextParam_lt cur
    refine ⟨nextParam cur,hnext,fun i hi => ?_,le_rfl,?_⟩
    · dsimp only
      rw [setEditFlag_editFlag,setEditFlag_editFlag,setEditFlag_editFlag]
      split
      next hn => exact iff_of_true (by decide) hn
      next hn =>
        refine iff_of_false ?_ hn
        split
        next => exact not_not_intro rfl
        next hc => exact fun hf => hc ((h.flag i hi).mp hf)
    · dsimp only
      rw [(setEditFlag_sameNumbers _ _ _).width,(setEditFlag_sameNumbers _ _ _).width,
        (setEditFlag_sameNumbers _ _ _).width]
      exact (hwidth _ hnext).1

/-! ## Values -/

/-- Another editor state in which values at most are different. -/
structure OnlyValues (f f' : Fields L) : Prop where
  /-- pos. -/
  pos : f'.pos=f.pos
  /-- edit_flag. -/
  editFlag : ∀ i,(f'.params i).editFlag=(f.params i).editFlag
  /-- width. -/
  width : ∀ i,(f'.params i).width=(f.params i).width
  /-- link. -/
  link : ∀ i,(f'.params i).link=(f.params i).link
  /-- min_val. -/
  minVal : ∀ i,(f'.params i).minVal=(f.params i).minVal
  /-- max_val. -/
  maxVal : ∀ i,(f'.params i).maxVal=(f.params i).maxVal

/-- Values do not matter for what is under edit. -/
theorem Editing.of_onlyValues {f f' : Fields L} {cur : ℕ} (h : Editing f cur)
    (hv : OnlyValues f f') : Editing f' cur where
  lt := h.lt
  flag := fun i hi => by rw [hv.editFlag i]; exact h.flag i hi
  pos_pos := by rw [hv.pos]; exact h.pos_pos
  pos_le := by rw [hv.pos,hv.width cur]; exact h.pos_le

/-- Setting a value sets that one value. -/
theorem setValue_value (f : Fields L) (j : ℕ) (value : UInt16) (i : ℕ) :
    ((f.setValue j value).params i).value=if i=j then value else (f.params i).value := by
  unfold Fields.setValue
  dsimp only
  split
  next hi => rw [hi,Function.update_self]
  next hi => rw [Function.update_of_ne hi]

/-- Setting a value changes values only. -/
theorem setValue_onlyValues (f : Fields L) (j : ℕ) (value : UInt16) :
    OnlyValues f (f.setValue j value) := by
  refine ⟨rfl,?_,?_,?_,?_,?_⟩ <;>
  · intro i
    unfold Fields.setValue
    dsimp only
    by_cases hi : i=j
    · rw [hi,Function.update_self]
    · rw [Function.update_of_ne hi]

/-- The clamped value as a natural number. -/
theorem clamp_toNat {p : Param L} (h : p.minVal ≤ p.maxVal) (value : UInt16) :
    (clamp p value).toNat=min p.maxVal.toNat (max p.minVal.toNat value.toNat) := by
  unfold clamp
  simp only [UInt16.le_iff_toNat_le,UInt16.lt_iff_toNat_lt,gt_iff_lt] at *
  split_ifs <;> omega

/-- The place of the cursor among three digits. -/
def place (width : UInt16) (pos : UInt8) : UInt8 := (3-width.toUInt8)+(pos-1)

/-- The place of a cursor position, counted from the hundreds. -/
theorem place_toNat {width : UInt16} {pos : UInt8} (h3 : width.toNat≤3) (h1 : 1≤pos.toNat)
    (hp : pos.toNat≤width.toNat) : (place width pos).toNat=2+pos.toNat-width.toNat := by
  have hw : width.toUInt8.toNat=width.toNat := by
    rw [UInt16.toNat_toUInt8]
    omega
  have h3' : (3 : UInt8).toNat=3 := rfl
  have h1' : (1 : UInt8).toNat=1 := rfl
  unfold place
  rw [UInt8.toNat_add,UInt8.toNat_sub,UInt8.toNat_sub,hw,h3',h1']
  omega

/-- With the cursor on a digit there is a new value. -/
theorem Editing.newValue {f : Fields L} {cur : ℕ} (h : Editing f cur) (hwidth : DigitWidths f)
    (num : UInt8) : newValue (f.params cur) f.pos num=some (clamp (f.params cur)
      (putDigit (f.params cur).value (place (f.params cur).width f.pos) num)) := by
  have hplace := place_toNat (hwidth cur h.lt).2 h.pos_pos h.pos_le
  have hp := h.pos_le
  have hlt : ¬place (f.params cur).width f.pos≥3 := by
    rw [ge_iff_le,UInt8.le_iff_toNat_le,hplace]
    change ¬3≤_
    omega
  unfold DigitEditor.newValue
  exact if_neg hlt

section Digits

variable {value : UInt16} {num : UInt8}

/-- Typing at the second place replaces the tens. -/
theorem putDigit_tens (hv : value.toNat<1000) (hn : num.toNat≤9) :
    (putDigit value 1 num).toNat=value.toNat/100*100+num.toNat*10+value.toNat%10 := by
  have h100 : (100 : UInt16).toNat=100 := rfl
  have h10 : (10 : UInt16).toNat=10 := rfl
  unfold putDigit
  dsimp only
  rw [if_neg (by decide),if_pos rfl,if_neg (by decide),UInt16.toNat_add,UInt16.toNat_add,
    UInt16.toNat_mul,UInt16.toNat_mul,UInt16.toNat_div,UInt16.toNat_mod,UInt8.toNat_toUInt16,
    h100,h10]
  omega

/-- Typing at the third place replaces the units. -/
theorem putDigit_units (hv : value.toNat<1000) (hn : num.toNat≤9) :
    (putDigit value 2 num).toNat=value.toNat/10*10+num.toNat := by
  have h100 : (100 : UInt16).toNat=100 := rfl
  have h10 : (10 : UInt16).toNat=10 := rfl
  unfold putDigit
  dsimp only
  rw [if_neg (by decide),if_neg (by decide),if_pos rfl,UInt16.toNat_add,UInt16.toNat_add,
    UInt16.toNat_mul,UInt16.toNat_mul,UInt16.toNat_div,UInt16.toNat_div,UInt16.toNat_mod,
    UInt8.toNat_toUInt16,h100,h10]
  omega

end Digits

/-- A shown screen does not move the cursor of an editor with one number under edit. -/
theorem Editing.holdCursor {f : Fields L} {cur : ℕ} (h : Editing f cur) : holdCursor f=f := by
  unfold DigitEditor.holdCursor
  generalize hrange : List.range paramCnt=indices
  have hall : ∀ i∈indices,i<paramCnt := by
    intro i hi
    rw [←hrange] at hi
    exact List.mem_range.mp hi
  clear hrange
  induction indices with
  | nil => rfl
  | cons i indices ih =>
    have hi := hall i List.mem_cons_self
    have hstay : ¬((f.params i).editFlag≠0 ∧ f.pos.toUInt16>(f.params i).width) := by
      rintro ⟨hflag,hpos⟩
      obtain rfl := (h.flag i hi).mp hflag
      have hp := h.pos_le
      rw [gt_iff_lt,UInt16.lt_iff_toNat_lt,UInt8.toNat_toUInt16] at hpos
      omega
    rw [List.foldl_cons,if_neg hstay]
    exact ih fun j hj => hall j (List.mem_cons_of_mem _ hj)

end BT816Display.DigitEditor
