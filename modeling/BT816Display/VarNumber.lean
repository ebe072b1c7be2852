import Mathlib.Data.List.TakeWhile
import BT816Display.PanelAgreement
import BT816Display.VarScreens

/-!
# The number typed in edit_var_menu

Every frame reads the number from the text of the frame before. The loop takes
characters below '9' only, so a 9 ends the number, and it computes in 16 bits.
-/

namespace BT816Display.VarNumber

open ByteMemory PlcData CanCmd Keys PanelAgreement VarScreens

/-! ## Reading the text -/

/-- One more decimal digit. -/
def appendDigit (n : ℕ) (d : UInt8) : ℕ := n*10+d.toNat

/-- The number of typed digits. -/
def decimal (ds : List UInt8) : ℕ := ds.foldl appendDigit 0

/-- The digits in front of the first 9. -/
def beforeNine (ds : List UInt8) : List UInt8 := ds.takeWhile (·≠9)

/-- Nothing stands before a leading nine. -/
theorem beforeNine_nine (ds : List UInt8) : beforeNine (9::ds)=[] :=
  List.takeWhile_cons_of_neg (by decide)

/-- Another digit stands before the nines behind it. -/
theorem beforeNine_cons {d : UInt8} (h : d≠9) (ds : List UInt8) :
    beforeNine (d::ds)=d::beforeNine ds :=
  List.takeWhile_cons_of_pos (decide_eq_true h)

/-- The text of some digits in a field of five characters. -/
def textOf (ds : List UInt8) : List UInt8 :=
  ds.map (0x30+·)++List.replicate (5-ds.length) 0x20

/-- The number typed so far matters modulo 2^16 only. -/
theorem foldl_appendDigit_mod (ds : List UInt8) {m n : ℕ} (h : m%65536=n%65536) :
    ds.foldl appendDigit m%65536=ds.foldl appendDigit n%65536 := by
  induction ds generalizing m n with
  | nil => exact h
  | cons d ds ih =>
    rw [List.foldl_cons,List.foldl_cons]
    apply ih
    unfold appendDigit
    omega

/-- The loop reads the digits in front of the first 9, in 16 bits. -/
theorem typedNumber_digits (ds : List UInt8) (h : ∀ d∈ds,d.toNat≤9) (k : ℕ) (v : UInt16) :
    (typedNumber (ds.map (0x30+·)++List.replicate k 0x20) v).toNat=
      (beforeNine ds).foldl appendDigit v.toNat%65536 := by
  induction ds generalizing v with
  | nil =>
    have hv := v.toNat_lt
    have hblank : typedNumber (List.replicate k 0x20) v=v := by
      cases k with
      | zero => rfl
      | succ k =>
        rw [List.replicate_succ,typedNumber]
        exact if_neg (by decide)
    rw [List.map_nil,List.nil_append,hblank]
    exact (Nat.mod_eq_of_lt hv).symm
  | cons d ds ih =>
    obtain ⟨hd,hds⟩ := List.forall_mem_cons.mp h
    have hchar : (0x30+d).toNat=48+d.toNat := by
      have hzero : (0x30 : UInt8).toNat=48 := rfl
      rw [UInt8.toNat_add,hzero]
      exact Nat.mod_eq_of_lt (by omega)
    rw [List.map_cons,List.cons_append,typedNumber]
    by_cases hnine : d=9
    · subst hnine
      rw [if_neg (by decide),beforeNine_nine]
      exact (Nat.mod_eq_of_lt v.toNat_lt).symm
    · have hne : d.toNat≠9 := fun he => hnine (UInt8.toNat_inj.mp he)
      have hdigit : 0x30+d≥0x30 ∧ 0x30+d<0x39 := by
        rw [ge_iff_le,UInt8.le_iff_toNat_le,UInt8.lt_iff_toNat_lt,hchar]
        exact ⟨Nat.le_add_right 48 _,(by omega : 48+d.toNat<57)⟩
      have hback : 0x30+d-0x30=d := by
        rw [UInt8.add_comm]
        exact UInt8.add_sub_cancel d 0x30
      rw [if_pos hdigit,hback,ih hds,beforeNine_cons hnine,List.foldl_cons]
      apply foldl_appendDigit_mod
      have hten : (10 : UInt16).toNat=10 := rfl
      rw [UInt16.toNat_add,UInt16.toNat_mul,UInt8.toNat_toUInt16,hten]
      unfold appendDigit
      omega

/-! ## Typing -/

/-- A key that no case of the screen takes. -/
def Idle (key : UInt16) : Prop :=
  key≠keyLeft ∧ key≠keyExit ∧ key≠keyEnter ∧ digit key=none

/-- Whether a key is idle can be decided. -/
instance (key : UInt16) : Decidable (Idle key) := inferInstanceAs (Decidable (_ ∧ _))

/-- One frame: the shared variables as the rest of the program has left them,
and the key. -/
abbrev Frame := Panel×UInt16

/-- The digits of some frames. -/
def typedDigits (frames : List Frame) : List UInt8 := frames.filterMap fun f => digit f.2

/-- Frames in which one to five digits are typed and nothing else. -/
structure Typing where
  /-- The frames. -/
  frames : List Frame
  /-- Every key is a digit or has no case. -/
  only : ∀ f∈frames,(digit f.2).isSome ∨ Idle f.2
  /-- There is a digit. -/
  some_digit : 1 ≤ (typedDigits frames).length
  /-- The field has room for them. -/
  room : (typedDigits frames).length≤5

/-- The screen in one frame. -/
def showFrame (s : VarUi) (f : Frame) : Option VarUi := editVarMenu {s with panel := f.1} f.2

/-- The digits typed so far are in the field, and the cursor is behind them. -/
structure Entered (s : VarUi) (ds : List UInt8) : Prop where
  /-- The text. -/
  text : load s.text 0 5=textOf ds
  /-- The cursor; it is back at the start behind five digits. -/
  cursor : s.varXPos.toNat=ds.length%5
  /-- The field has room for them. -/
  room : ds.length≤5

/-- Everything that the typing leaves alone. -/
structure SameVar (e : LoadedVar) (s : VarUi) : Prop where
  /-- min. -/
  min : s.editVar.var.min=e.var.min
  /-- max. -/
  max : s.editVar.var.max=e.var.max
  /-- link_type. -/
  linkType : s.editVar.var.linkType=e.var.linkType
  /-- link_index. -/
  linkIndex : s.editVar.var.linkIndex=e.var.linkIndex

/-- The blank field is the text of no digits. -/
theorem load_blankText (text : Mem UInt8) : load (blankText text) 0 5=textOf [] := rfl

/-- After the variable is loaded nothing has been typed. -/
theorem setEditVar_entered (s : VarUi) (e : LoadedVar) : Entered (setEditVar s e) [] :=
  ⟨load_blankText s.text,rfl,by decide⟩

/-- Loading a variable edits that variable. -/
theorem setEditVar_sameVar (s : VarUi) (e : LoadedVar) : SameVar e (setEditVar s e) :=
  ⟨rfl,rfl,rfl,rfl⟩

/-- One more character in the field. -/
theorem textOf_concat {ds : List UInt8} (hroom : ds.length<5) (d : UInt8) :
    (textOf ds).set ds.length (0x30+d)=textOf (ds++[d]) := by
  have hblanks : List.replicate (5-ds.length) (0x20 : UInt8)=
      0x20::List.replicate (5-(ds++[d]).length) 0x20 := by
    rw [←List.replicate_succ,List.length_append,List.length_singleton]
    exact congrArg (List.replicate · 0x20) (by omega)
  unfold textOf
  rw [hblanks,List.map_append,List.set_append_right _ _ (by rw [List.length_map]),List.length_map,
    Nat.sub_self,List.append_assoc]
  rfl

/-- A digit typed into a field with room is appended to its text. -/
theorem load_typed {text : Mem UInt8} {ds : List UInt8} (h : load text 0 5=textOf ds)
    (hroom : ds.length<5) (d : UInt8) :
    load (store text ds.length [0x30+d]) 0 5=textOf (ds++[d]) := by
  have hcell := load_store_cell text 0 ds.length 5 (0x30+d)
  rw [Nat.zero_add] at hcell
  rw [hcell,h,textOf_concat hroom]

/-- A typed digit stands behind the others. -/
theorem typeDigit_entered {s : VarUi} {ds : List UInt8} (h : Entered s ds) (hroom : ds.length<5)
    (d : UInt8) : Entered (typeDigit s d) (ds++[d]) := by
  have hcursor : s.varXPos.toNat=ds.length := by rw [h.cursor,Nat.mod_eq_of_lt hroom]
  have hfive : (5 : UInt16).toNat=5 := rfl
  have hnext : (s.varXPos+1).toNat=ds.length+1 := by
    have hone : (1 : UInt16).toNat=1 := rfl
    rw [UInt16.toNat_add,hcursor,hone]
    omega
  have hlen : (ds++[d]).length=ds.length+1 := List.length_append
  -- the field is blank again before the first digit, as it was
  have hblank : load (if s.varXPos=0 then blankText s.text else s.text) 0 5=textOf ds := by
    split
    case isTrue hzero =>
      have hnil : ds=[] := by
        rw [hzero] at hcursor
        exact List.length_eq_zero_iff.mp hcursor.symm
      rw [hnil]
      exact load_blankText s.text
    case isFalse => exact h.text
  have htext : (typeDigit s d).text=
      store (if s.varXPos=0 then blankText s.text else s.text) s.varXPos.toNat [0x30+d] := by
    unfold typeDigit
    dsimp only
    split_ifs <;> rfl
  have hpos : (typeDigit s d).varXPos=if s.varXPos+1≥5 then 0 else s.varXPos+1 := by
    unfold typeDigit
    dsimp only
    split_ifs <;> rfl
  refine ⟨?_,?_,by omega⟩
  · rw [htext,hcursor]
    exact load_typed hblank hroom d
  · rw [hpos,hlen]
    split
    case isTrue hge =>
      rw [ge_iff_le,UInt16.le_iff_toNat_le,hnext,hfive] at hge
      have hlast : ds.length+1=5 := by omega
      rw [hlast]
      rfl
    case isFalse hlt =>
      rw [ge_iff_le,UInt16.le_iff_toNat_le,hnext,hfive] at hlt
      rw [hnext,Nat.mod_eq_of_lt (by omega)]

/-- A digit does not change the variable edited. -/
theorem typeDigit_editVar (s : VarUi) (d : UInt8) : (typeDigit s d).editVar=s.editVar := by
  unfold typeDigit
  dsimp only
  split_ifs <;> rfl

/-- The value read in a frame, which the next one replaces. -/
def shown (s : VarUi) (p : Panel) : VarUi :=
  let value := (typedNumber (load s.text 0 5) 0).toUInt32
  {s with panel := p, editVar := {s.editVar with var := {s.editVar.var with value := value}}}

/-- A frame with a digit key types the digit. -/
theorem showFrame_digit (s : VarUi) (p : Panel) {key : UInt16} {d : UInt8}
    (h : digit key=some d) : showFrame s (p,key)=some (typeDigit (shown s p) d) := by
  unfold showFrame editVarMenu
  dsimp only
  rw [h]
  rfl

/-- A frame with an idle key types nothing. -/
theorem showFrame_idle (s : VarUi) (p : Panel) {key : UInt16} (h : Idle key) :
    showFrame s (p,key)=some (shown s p) := by
  obtain ⟨hleft,hexit,henter,hdigit⟩ := h
  unfold showFrame editVarMenu
  dsimp only
  rw [hdigit]
  dsimp only
  rw [if_neg hleft,if_neg hexit,if_neg henter]
  rfl

/-- A frame of typing adds its digit and keeps the variable. -/
theorem showFrame_typing {s : VarUi} {ds : List UInt8} {e : LoadedVar} {f : Frame}
    (h : Entered s ds) (hvar : SameVar e s) (hkey : (digit f.2).isSome ∨ Idle f.2)
    (hroom : (ds++typedDigits [f]).length≤5) :
    ∃ s',showFrame s f=some s' ∧ Entered s' (ds++typedDigits [f]) ∧ SameVar e s' := by
  obtain ⟨p,key⟩ := f
  have hshown : Entered (shown s p) ds := ⟨h.text,h.cursor,h.room⟩
  have hsame : SameVar e (shown s p) := ⟨hvar.min,hvar.max,hvar.linkType,hvar.linkIndex⟩
  rcases hkey with hsome|hidle
  · obtain ⟨d,hd⟩ := Option.isSome_iff_exists.mp hsome
    have htyped : typedDigits [(p,key)]=[d] := List.filterMap_cons_some hd
    rw [htyped,List.length_append,List.length_singleton] at hroom
    rw [htyped]
    refine ⟨_,showFrame_digit s p hd,typeDigit_entered hshown (by omega) d,?_⟩
    refine ⟨?_,?_,?_,?_⟩ <;> rw [typeDigit_editVar]
    exacts [hsame.min,hsame.max,hsame.linkType,hsame.linkIndex]
  · have htyped : typedDigits [(p,key)]=[] := List.filterMap_cons_none hidle.2.2.2
    rw [htyped,List.append_nil]
    exact ⟨_,showFrame_idle s p hidle,hshown,hsame⟩

/-- Frames of typing leave all their digits in the field. -/
theorem typing_entered {s : VarUi} {ds : List UInt8} {e : LoadedVar} {frames : List Frame}
    (h : Entered s ds) (hvar : SameVar e s)
    (honly : ∀ f∈frames,(digit f.2).isSome ∨ Idle f.2)
    (hroom : (ds++typedDigits frames).length≤5) :
    ∃ s',frames.foldlM showFrame s=some s' ∧ Entered s' (ds++typedDigits frames) ∧
      SameVar e s' := by
  induction frames generalizing s ds with
  | nil => exact ⟨s,rfl,by rw [typedDigits,List.filterMap_nil,List.append_nil]; exact h,hvar⟩
  | cons f frames ih =>
    obtain ⟨hkey,honly⟩ := List.forall_mem_cons.mp honly
    have hsplit : ds++typedDigits (f::frames)=(ds++typedDigits [f])++typedDigits frames := by
      rw [List.append_assoc]
      exact congrArg (ds++·) (List.filterMap_append (l:=[f]))
    rw [hsplit] at hroom ⊢
    have hone : (ds++typedDigits [f]).length≤5 :=
      (List.length_append ▸ Nat.le_add_right _ _).trans hroom
    obtain ⟨s',hs',hentered,hsame⟩ := showFrame_typing h hvar hkey hone
    obtain ⟨s'',hs'',hend⟩ := ih hentered hsame honly hroom
    refine ⟨s'',?_,hend⟩
    rw [List.foldlM_cons,hs']
    exact hs''

/-! ## Writing the number -/

/-- What an element of a kind keeps of a value: a bit is one byte. -/
def elementValue (kind : VarKind) (value : UInt32) : ℕ :=
  match kind with
  | .clustBit | .netBit => value.toUInt8.toNat
  | .clustReg | .netReg => value.toUInt16.toNat

/-- A write puts the limited value into both copies of the linked element. -/
theorem writeVarToPlc_linked {p : Panel} {var : ManageVar} {v : Variable} (hlink : p.plcCanLink≠0)
    (h : Linked var v) : ∃ q,writeVarToPlc p var=some q ∧
      plcVar q.1.arrays v=elementValue v.kind (clamp var) ∧
      clVar q.1.arrays v=elementValue v.kind (clamp var) := by
  obtain ⟨kind,index⟩ := v
  obtain ⟨ht,hi,hlt⟩ := h
  cases kind with
  | clustBit =>
    exact ⟨_,writeVarToPlc_clustBit hlink ht hi hlt,plcVar_setVar _ ⟨.clustBit,index⟩ _ _,
      clVar_setVar _ ⟨.clustBit,index⟩ _ _⟩
  | clustReg =>
    exact ⟨_,writeVarToPlc_clustReg hlink ht hi hlt,plcVar_setVar _ ⟨.clustReg,index⟩ _ _,
      clVar_setVar _ ⟨.clustReg,index⟩ _ _⟩
  | netBit =>
    exact ⟨_,writeVarToPlc_netBit hlink ht hi hlt,plcVar_setVar _ ⟨.netBit,index⟩ _ _,
      clVar_setVar _ ⟨.netBit,index⟩ _ _⟩
  | netReg =>
    exact ⟨_,writeVarToPlc_netReg hlink ht hi hlt,plcVar_setVar _ ⟨.netReg,index⟩ _ _,
      clVar_setVar _ ⟨.netReg,index⟩ _ _⟩

/-- A variable with limits of 16 bits in their order. -/
structure EditedVar where
  /-- The variable. -/
  loaded : LoadedVar
  /-- The limits are in order. -/
  le : loaded.var.min≤loaded.var.max
  /-- The upper limit has 16 bits. -/
  lt : loaded.var.max.toNat<65536

/-- A number held to the limits of a variable. -/
def EditedVar.limit (e : EditedVar) (n : ℕ) : ℕ :=
  max e.loaded.var.min.toNat (min n e.loaded.var.max.toNat)

/-- A number held to the limits has sixteen bits. -/
theorem EditedVar.limit_lt (e : EditedVar) (n : ℕ) : e.limit n<65536 := by
  have hle := UInt32.le_iff_toNat_le.mp e.le
  have hlt := e.lt
  unfold limit
  omega

/-- The clamp of the source on a variable with these limits. -/
theorem clamp_toNat {e : EditedVar} {var : ManageVar} (hmin : var.min=e.loaded.var.min)
    (hmax : var.max=e.loaded.var.max) : (clamp var).toNat=e.limit var.value.toNat := by
  have hle := UInt32.le_iff_toNat_le.mp e.le
  unfold clamp EditedVar.limit
  rw [←hmin,←hmax] at *
  dsimp only
  split_ifs with hgt hlow hlow <;>
    simp only [gt_iff_lt,UInt32.lt_iff_toNat_lt] at * <;> omega

/-- A bit takes the low byte of the number, and a register all of it. -/
theorem elementValue_limit {e : EditedVar} {n : ℕ} {value : UInt32} (h : value.toNat=e.limit n)
    (kind : VarKind) : elementValue kind value=
      match kind with
      | .clustBit | .netBit => e.limit n%256
      | .clustReg | .netReg => e.limit n := by
  have hbit : value.toUInt8.toNat=e.limit n%256 := by rw [UInt32.toNat_toUInt8,h]
  have hreg : value.toUInt16.toNat=e.limit n := by
    rw [UInt32.toNat_toUInt16,h]
    exact Nat.mod_eq_of_lt (e.limit_lt n)
  cases kind with
  | clustBit => exact hbit
  | clustReg => exact hreg
  | netBit => exact hbit
  | netReg => exact hreg

/-- A panel whose controller is connected. -/
structure LinkedPanel where
  /-- The panel. -/
  panel : Panel
  /-- plc_can_link. -/
  up : panel.plcCanLink≠0

/-- The element that a variable is linked to holds a number, in both copies,
behind typing it and ENTER. -/
def Stores (s : VarUi) (e : EditedVar) (typing : Typing) (p : LinkedPanel) (n : ℕ) : Prop :=
  ∃ s' v,(typing.frames++[(p.panel,keyEnter)]).foldlM showFrame (setEditVar s e.loaded)=some s' ∧
    Linked e.loaded.var v ∧ plcVar s'.panel.arrays v=n ∧ clVar s'.panel.arrays v=n

/-- The number that the screen makes of the digits. -/
def readNumber (ds : List UInt8) : ℕ := decimal (beforeNine ds)%65536

/-- ENTER behind the digits writes the number read, held to the limits. -/
theorem enter_writes (s : VarUi) (e : EditedVar) (typing : Typing) (p : LinkedPanel) {v : Variable}
    (h : Linked e.loaded.var v) :
    ∃ s',(typing.frames++[(p.panel,keyEnter)]).foldlM showFrame (setEditVar s e.loaded)=some s' ∧
      ∃ value : UInt32,value.toNat=e.limit (readNumber (typedDigits typing.frames)) ∧
        plcVar s'.panel.arrays v=elementValue v.kind value ∧
        clVar s'.panel.arrays v=elementValue v.kind value := by
  obtain ⟨s',hs',hentered,hsame⟩ := typing_entered (setEditVar_entered s e.loaded)
    (setEditVar_sameVar s e.loaded) typing.only typing.room
  rw [List.nil_append] at hentered
  have hle : ∀ d∈typedDigits typing.frames,d.toNat≤9 := by
    intro d hd
    obtain ⟨f,-,hf⟩ := List.mem_filterMap.mp hd
    exact digit_le hf
  have hread : (typedNumber (load s'.text 0 5) 0).toNat=
      readNumber (typedDigits typing.frames) := by
    rw [hentered.text]
    exact typedNumber_digits _ hle _ 0
  have hshown : SameVar e.loaded (shown s' p.panel) :=
    ⟨hsame.min,hsame.max,hsame.linkType,hsame.linkIndex⟩
  have hlinked : Linked (shown s' p.panel).editVar.var v :=
    ⟨hshown.linkType.trans h.1,(congrArg UInt16.toNat hshown.linkIndex).trans h.2.1,h.2.2⟩
  obtain ⟨q,hq,hplc,hcl⟩ := writeVarToPlc_linked p.up hlinked
  obtain ⟨s'',henter,hpanel⟩ : ∃ s'',showFrame s' (p.panel,keyEnter)=some s'' ∧ s''.panel=q.1 :=
    ⟨_,congrArg (Option.map _) hq,rfl⟩
  rw [←hpanel] at hplc hcl
  refine ⟨s'',?_,clamp (shown s' p.panel).editVar.var,?_,hplc,hcl⟩
  · rw [Runs.foldlM_concat,hs']
    exact henter
  · rw [clamp_toNat hshown.min hshown.max,←hread]
    exact congrArg e.limit (UInt16.toNat_toUInt32 _)

/-- The typed number is stored exactly when the element keeps it of the number read. -/
theorem stores_iff (s : VarUi) (e : EditedVar) (typing : Typing) (p : LinkedPanel) (n : ℕ) :
    Stores s e typing p n ↔ ∃ v,Linked e.loaded.var v ∧
      (match v.kind with
        | .clustBit | .netBit => e.limit (readNumber (typedDigits typing.frames))%256
        | .clustReg | .netReg => e.limit (readNumber (typedDigits typing.frames)))=n := by
  constructor
  · rintro ⟨s',v,hs',hv,hplc,-⟩
    obtain ⟨s'',hs'',value,hvalue,hplc',-⟩ := enter_writes s e typing p hv
    rw [hs'] at hs''
    cases hs''
    exact ⟨v,hv,by rw [←elementValue_limit hvalue,←hplc',hplc]⟩
  · rintro ⟨v,hv,hn⟩
    obtain ⟨s',hs',value,hvalue,hplc,hcl⟩ := enter_writes s e typing p hv
    rw [elementValue_limit hvalue,hn] at hplc hcl
    exact ⟨s',v,hs',hv,hplc,hcl⟩

/-! ## The condition -/

/-- Appending digits never makes a number smaller. -/
theorem le_foldl_appendDigit (ds : List UInt8) (n : ℕ) : n≤ds.foldl appendDigit n := by
  induction ds generalizing n with
  | nil => exact le_refl n
  | cons d ds ih =>
    refine le_trans ?_ (ih (appendDigit n d))
    unfold appendDigit
    omega

/-- The number read is at most the one typed. -/
theorem readNumber_le (ds : List UInt8) : readNumber ds≤decimal ds := by
  have hsplit : decimal ds=(ds.dropWhile (·≠9)).foldl appendDigit (decimal (beforeNine ds)) := by
    unfold decimal beforeNine
    rw [←List.foldl_append,List.takeWhile_append_dropWhile]
  rw [hsplit]
  exact (Nat.mod_le _ _).trans (le_foldl_appendDigit _ _)

/-- The digits behind a 9 are missing. -/
theorem foldl_beforeNine_lt {ds : List UInt8} (h : 9∈ds) (n : ℕ) :
    (beforeNine ds).foldl appendDigit n<ds.foldl appendDigit n := by
  induction ds generalizing n with
  | nil => exact absurd h List.not_mem_nil
  | cons d ds ih =>
    by_cases hd : d=9
    · subst hd
      have hnine : (9 : UInt8).toNat=9 := rfl
      have hle := le_foldl_appendDigit ds (appendDigit n 9)
      rw [beforeNine_nine,List.foldl_nil,List.foldl_cons]
      unfold appendDigit at hle ⊢
      omega
    · rw [beforeNine_cons hd,List.foldl_cons,List.foldl_cons]
      exact ih ((List.mem_cons.mp h).resolve_left (Ne.symm hd)) (appendDigit n d)

/-- It is the one typed exactly when there is no 9 and it has 16 bits. -/
theorem readNumber_eq_iff (ds : List UInt8) :
    readNumber ds=decimal ds ↔ 9∉ds ∧ decimal ds<65536 := by
  constructor
  · intro h
    have hlt : decimal ds<65536 := by
      rw [←h]
      exact Nat.mod_lt _ (by decide)
    refine ⟨fun hnine => ?_,hlt⟩
    have hless := foldl_beforeNine_lt hnine 0
    have hmod : readNumber ds≤decimal (beforeNine ds) := Nat.mod_le _ _
    unfold decimal at *
    omega
  · rintro ⟨hnine,hlt⟩
    have hall : beforeNine ds=ds := List.takeWhile_eq_self_iff.mpr fun d hd =>
      decide_eq_true fun he => hnine (he ▸ hd)
    unfold readNumber
    rw [hall,Nat.mod_eq_of_lt hlt]

/-- The digits are read as they are typed, or the limits leave both numbers the
same value. -/
def ReadRight (e : EditedVar) (ds : List UInt8) : Prop :=
  9∉ds ∧ decimal ds<65536 ∨ decimal ds≤e.loaded.var.min.toNat ∨
    e.loaded.var.max.toNat ≤ readNumber ds ∨ e.loaded.var.min=e.loaded.var.max

/-- The typed digits give a variable the typed number. -/
structure TypedRight (e : EditedVar) (ds : List UInt8) : Prop where
  /-- The variable is linked to an element. -/
  linked : ∃ v,Linked e.loaded.var v
  /-- The number read is as good as the one typed. -/
  number : ReadRight e ds
  /-- A bit keeps eight bits. -/
  bit : e.loaded.var.linkType=varLinkClBit ∨ e.loaded.var.linkType=varLinkNetBit →
    e.limit (decimal ds)≤255

/-- The number read is the number typed, after the limits, exactly when it is read right. -/
theorem limit_eq_iff (e : EditedVar) (ds : List UInt8) :
    e.limit (readNumber ds)=e.limit (decimal ds) ↔ ReadRight e ds := by
  have hle := UInt32.le_iff_toNat_le.mp e.le
  have hread := readNumber_le ds
  unfold ReadRight
  rw [←readNumber_eq_iff,←UInt32.toNat_inj]
  unfold EditedVar.limit
  omega

/-- Holding to the limits keeps the order of numbers. -/
theorem limit_mono (e : EditedVar) {m n : ℕ} (h : m≤n) : e.limit m≤e.limit n :=
  max_le_max_left _ (min_le_min_right _ h)

/-- For every variable with limits of 16 bits, every typing of one to five
digits and every connected panel: ENTER stores the typed number, held to the
limits, exactly when the condition holds. -/
theorem stores_typed_iff (s : VarUi) (e : EditedVar) (typing : Typing) (p : LinkedPanel) :
    Stores s e typing p (e.limit (decimal (typedDigits typing.frames))) ↔
      TypedRight e (typedDigits typing.frames) := by
  rw [stores_iff]
  have hmono := limit_mono e (readNumber_le (typedDigits typing.frames))
  have hiff := limit_eq_iff e (typedDigits typing.frames)
  constructor
  · rintro ⟨⟨kind,index⟩,hv,hn⟩
    have hbit (h : e.limit (readNumber (typedDigits typing.frames))%256=
        e.limit (decimal (typedDigits typing.frames))) :
        TypedRight e (typedDigits typing.frames) :=
      ⟨⟨_,hv⟩,hiff.mp (by omega),fun _ => by omega⟩
    have hreg (hkind : ¬(kind.linkType=varLinkClBit ∨ kind.linkType=varLinkNetBit))
        (h : e.limit (readNumber (typedDigits typing.frames))=
          e.limit (decimal (typedDigits typing.frames))) :
        TypedRight e (typedDigits typing.frames) :=
      ⟨⟨_,hv⟩,hiff.mp h,fun ht => absurd (hv.1 ▸ ht) hkind⟩
    cases kind with
    | clustBit => exact hbit hn
    | clustReg => exact hreg (by decide) hn
    | netBit => exact hbit hn
    | netReg => exact hreg (by decide) hn
  · rintro ⟨⟨⟨kind,index⟩,hv⟩,hnumber,hbit⟩
    have heq := hiff.mpr hnumber
    refine ⟨⟨kind,index⟩,hv,?_⟩
    rw [heq]
    cases kind with
    | clustBit => exact Nat.mod_eq_of_lt (Nat.lt_succ_of_le (hbit (Or.inl hv.1)))
    | clustReg => rfl
    | netBit => exact Nat.mod_eq_of_lt (Nat.lt_succ_of_le (hbit (Or.inr hv.1)))
    | netReg => rfl

/-- Cluster register 0 with all values of 16 bits. -/
def wideVar : EditedVar where
  loaded := {zeroVar with var := ⟨0,65535,0,varLinkClReg,0⟩}
  le := by decide
  lt := by decide

/-- One frame for the key 9. -/
def typing9 : Typing where
  frames := [(zeroPanel,key9)]
  only f hf := Or.inl (by rw [List.mem_singleton.mp hf]; rfl)
  some_digit := by decide
  room := by decide

/-- A connected panel. -/
def connected : LinkedPanel := ⟨{zeroPanel with plcCanLink := 1},by decide⟩

/-- Typing 9 stores 0. -/
theorem not_stores_typed : ¬∀ (s : VarUi) (e : EditedVar) (typing : Typing) (p : LinkedPanel),
    Stores s e typing p (e.limit (decimal (typedDigits typing.frames))) := by
  intro h
  have hstores := h (start zeroPanel) wideVar typing9 connected
  obtain ⟨⟨kind,index⟩,-,hn⟩ := (stores_iff _ _ _ _ _).mp hstores
  dsimp only at hn
  cases kind <;> exact absurd hn (by decide)

/-! ## The copy in menu.c -/

/-- edit_u16_menu, on the variables of the same names in menu.c. -/
def editU16Menu (s : VarUi) (key : UInt16) : Option VarUi :=
  let value := (typedNumber (load s.text 0 5) 0).toUInt32
  let s := {s with editVar := {s.editVar with var := {s.editVar.var with value := value}}}
  match digit key with
  | some d => some (typeDigit s d)
  | none =>
    if key=keyLeft then some {s with currentMenu := .manage}
    else if key=keyExit ∨ key=keyEnter then some {s with text := blankText s.text,varXPos := 0}
    else if key=keyRight then
      (writeVarToPlc s.panel s.editVar.var).map fun r =>
        {s with
          panel := r.1
          editVar := {s.editVar with var := r.2}
          writes := s.writes++[s.editVar.var]
          currentMenu := .manage}
    else some s

/-- That screen in one frame. -/
def showU16Frame (s : VarUi) (f : Frame) : Option VarUi := editU16Menu {s with panel := f.1} f.2

/-- While digits are typed it does what edit_var_menu does. -/
theorem showU16Frame_typing (s : VarUi) {f : Frame} (hkey : (digit f.2).isSome ∨ Idle f.2)
    (hright : f.2≠keyRight) : showU16Frame s f=showFrame s f := by
  obtain ⟨p,key⟩ := f
  rcases hkey with hsome|hidle
  · obtain ⟨d,hd⟩ := Option.isSome_iff_exists.mp hsome
    rw [showFrame_digit s p hd]
    unfold showU16Frame editU16Menu
    dsimp only
    rw [hd]
    rfl
  · rw [showFrame_idle s p hidle]
    obtain ⟨hleft,hexit,henter,hdigit⟩ := hidle
    unfold showU16Frame editU16Menu
    dsimp only
    rw [hdigit]
    dsimp only
    rw [if_neg hleft,if_neg (not_or.mpr ⟨hexit,henter⟩),if_neg hright]
    rfl

/-- Its key RIGHT writes what ENTER writes there. -/
theorem showU16Frame_right (s : VarUi) (p : Panel) :
    (showU16Frame s (p,keyRight)).map VarUi.panel=(showFrame s (p,keyEnter)).map VarUi.panel := by
  have hright : showU16Frame s (p,keyRight)=
      (writeVarToPlc p (shown s p).editVar.var).map fun r =>
        {shown s p with
          panel := r.1
          editVar := {(shown s p).editVar with var := r.2}
          writes := s.writes++[(shown s p).editVar.var]
          currentMenu := .manage} := rfl
  have henter : showFrame s (p,keyEnter)=
      (writeVarToPlc p (shown s p).editVar.var).map fun r =>
        {shown s p with
          panel := r.1
          editVar := {(shown s p).editVar with var := r.2}
          writes := s.writes++[(shown s p).editVar.var]
          currentMenu := .sysCfg} := rfl
  rw [hright,henter,Option.map_map,Option.map_map]
  rfl

/-- Typing and RIGHT there leave the shared variables as typing and ENTER here. -/
theorem editU16Menu_panel (s : VarUi) (typing : Typing)
    (hright : ∀ f∈typing.frames,f.2≠keyRight) (p : Panel) :
    ((typing.frames++[(p,keyRight)]).foldlM showU16Frame s).map VarUi.panel=
      ((typing.frames++[(p,keyEnter)]).foldlM showFrame s).map VarUi.panel := by
  obtain ⟨frames,hframes⟩ : ∃ frames,typing.frames=frames := ⟨_,rfl⟩
  have honly := typing.only
  rw [hframes] at honly hright ⊢
  clear hframes
  induction frames generalizing s with
  | nil =>
    rw [Runs.foldlM_concat,Runs.foldlM_concat]
    exact showU16Frame_right s p
  | cons f frames ih =>
    obtain ⟨hkey,honly⟩ := List.forall_mem_cons.mp honly
    obtain ⟨hf,hright⟩ := List.forall_mem_cons.mp hright
    rw [List.cons_append,List.cons_append,List.foldlM_cons,List.foldlM_cons,
      showU16Frame_typing s hkey hf]
    cases showFrame s f with
    | none => rfl
    | some s' => exact ih s' hright honly

end BT816Display.VarNumber
