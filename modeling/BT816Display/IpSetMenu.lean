import BT816Display.Lib.BigEndian
import BT816Display.Lib.ByteMemory
import BT816Display.Menu

/-!
# The address editor of ip_set_menu.c

A digit key replaces one decimal digit of a byte and moves the cursor on; the
other digits are still those of the old byte. The three addresses are kept in
backup registers behind a mark, with defaults while there is none.
-/

namespace BT816Display.IpSetMenu

open ByteMemory BigEndian Keys
open Menu (MenuList)

/-- The backup registers by number. -/
abbrev Bpr := ℕ → UInt32

/-- The kinds of address: IP_TYPE_ADDR, IP_TYPE_MASK and IP_TYPE_GATE. -/
inductive IpType where
  /-- IP_TYPE_ADDR. -/
  | addr
  /-- IP_TYPE_MASK. -/
  | mask
  /-- IP_TYPE_GATE. -/
  | gate
  deriving DecidableEq

/-! ## The registers, from config.c -/

/-- The first lines of all six functions: defaults when there is no mark. -/
def initIp (bpr : Bpr) : Bpr :=
  if bpr 17≠0x1234 then
    let bpr := Function.update bpr 17 0x1234
    let bpr := Function.update bpr 18 0xC0A80102
    let bpr := Function.update bpr 19 0xFFFFFF00
    Function.update bpr 20 0xC0A80101
  else bpr

/-- The four bytes of a register and the registers behind the call. -/
def readIp (dt : ℕ) (bpr : Bpr) : List UInt8×Bpr := (split32 (initIp bpr dt),initIp bpr)

/-- Four bytes into a register. -/
def setIp (dt : ℕ) (ptr : Mem UInt8) (bpr : Bpr) : Bpr :=
  Function.update (initIp bpr) dt (join32 (ptr 0) (ptr 1) (ptr 2) (ptr 3))

/-- read_ip_addr. -/
def readIpAddr : Bpr → List UInt8×Bpr := readIp 18

/-- read_ip_mask. -/
def readIpMask : Bpr → List UInt8×Bpr := readIp 19

/-- read_ip_gate. -/
def readIpGate : Bpr → List UInt8×Bpr := readIp 20

/-- set_ip_addr. -/
def setIpAddr : Mem UInt8 → Bpr → Bpr := setIp 18

/-- set_ip_mask. -/
def setIpMask : Mem UInt8 → Bpr → Bpr := setIp 19

/-- set_ip_gate. -/
def setIpGate : Mem UInt8 → Bpr → Bpr := setIp 20

/-- The read function of a kind. -/
def IpType.read : IpType → Bpr → List UInt8×Bpr
  | addr => readIpAddr
  | mask => readIpMask
  | gate => readIpGate

/-- The set function of a kind. -/
def IpType.set : IpType → Mem UInt8 → Bpr → Bpr
  | addr => setIpAddr
  | mask => setIpMask
  | gate => setIpGate

/-! ## The screen -/

/-- The variables of the screen, current_menu and the registers. -/
structure IpUi where
  /-- ip_data. -/
  ipData : Mem UInt8
  /-- curs_pos. -/
  cursPos : UInt8
  /-- num_pos. -/
  numPos : UInt8
  /-- ip_type. -/
  ipType : IpType
  /-- current_menu. -/
  currentMenu : MenuList
  /-- The backup registers. -/
  bpr : Bpr

/-- cursor_to_right. -/
def cursorToRight (ui : IpUi) : IpUi :=
  let ui := {ui with cursPos := ui.cursPos+1}
  if ui.cursPos≥3 then
    let ui := {ui with cursPos := 0, numPos := ui.numPos+1}
    if ui.numPos≥4 then {ui with numPos := 3, cursPos := 2} else ui
  else ui

/-- cursor_to_left. -/
def cursorToLeft (ui : IpUi) : IpUi :=
  if ui.cursPos≠0 then {ui with cursPos := ui.cursPos-1}
  else if ui.numPos≠0 then {ui with numPos := ui.numPos-1, cursPos := 2}
  else ui

/-- A byte with one decimal digit replaced, cut to eight bits. -/
def replaceDigit (value cursPos num : UInt8) : UInt8 :=
  let a1 := if cursPos=0 then num else value/100
  let a2 := if cursPos=1 then num else value%100/10
  let a3 := if cursPos=2 then num else value%10
  a1*100+a2*10+a3

/-- update_value. -/
def updateValue (num : UInt8) (ui : IpUi) : IpUi :=
  if num≤9 ∧ ui.numPos<4 then
    let i := ui.numPos.toNat
    {ui with ipData := Function.update ui.ipData i (replaceDigit (ui.ipData i) ui.cursPos num)}
  else ui

/-- set_ip_type. -/
def setIpType (value : IpType) (ui : IpUi) : IpUi :=
  let (ptr,bpr) := value.read ui.bpr
  {ui with ipData := store ui.ipData 0 ptr, cursPos := 0, numPos := 0, ipType := value, bpr := bpr}

/-- ip_set_menu. -/
def ipSetMenu (ui : IpUi) (key : UInt16) : IpUi :=
  if key=keyExit then {ui with currentMenu := .ipConfig}
  else if key=keyLeft then cursorToLeft ui
  else if key=keyRight then cursorToRight ui
  else
    match digit key with
    | some num => cursorToRight (updateValue num ui)
    | none =>
      if key=keyEnter then
        {ui with currentMenu := .ipConfig, bpr := ui.ipType.set ui.ipData ui.bpr}
      else ui

/-! ## Typing -/

/-- A key that no case of the screen takes. -/
def Idle (key : UInt16) : Prop :=
  key≠keyExit ∧ key≠keyLeft ∧ key≠keyRight ∧ key≠keyEnter ∧ digit key=none

/-- Whether a key is idle can be decided. -/
instance (key : UInt16) : Decidable (Idle key) := inferInstanceAs (Decidable (_ ∧ _))

/-- Frames in which some digits are typed and nothing else. -/
structure Typing (ds : List UInt8) where
  /-- The key of each frame. -/
  keys : List UInt16
  /-- Every key is a digit or has no case. -/
  only : ∀ key∈keys,(digit key).isSome ∨ Idle key
  /-- The digits are those typed. -/
  digits : keys.filterMap digit=ds

/-- One digit typed. -/
def typeDigit (ui : IpUi) (num : UInt8) : IpUi := cursorToRight (updateValue num ui)

/-- A digit key is none of the others. -/
theorem ipSetMenu_digit (ui : IpUi) {key : UInt16} {num : UInt8} (h : digit key=some num) :
    ipSetMenu ui key=typeDigit ui num := by
  have hmove : ¬(key=keyLeft ∨ key=keyEnter ∨ key=keyRight) := fun hm => by
    rw [digit_of_move hm] at h
    cases h
  have hexit : key≠keyExit := fun he => by
    rw [he,(by decide : digit keyExit=none)] at h
    cases h
  unfold ipSetMenu
  rw [if_neg hexit,if_neg fun hl => hmove (Or.inl hl),
    if_neg fun hr => hmove (Or.inr (Or.inr hr)),h]
  rfl

/-- An idle key leaves the editor as it is. -/
theorem ipSetMenu_idle (ui : IpUi) {key : UInt16} (h : Idle key) : ipSetMenu ui key=ui := by
  obtain ⟨hexit,hleft,hright,henter,hdigit⟩ := h
  unfold ipSetMenu
  rw [if_neg hexit,if_neg hleft,if_neg hright,hdigit]
  exact if_neg henter

/-- Frames of typing do what their digits do. -/
theorem typing_run {ds : List UInt8} (typing : Typing ds) (ui : IpUi) :
    typing.keys.foldl ipSetMenu ui=ds.foldl typeDigit ui := by
  obtain ⟨keys,only,rfl⟩ := typing
  dsimp only
  induction keys generalizing ui with
  | nil => rfl
  | cons key keys ih =>
    obtain ⟨hkey,hkeys⟩ := List.forall_mem_cons.mp only
    rw [List.foldl_cons,ih _ hkeys]
    rcases hkey with hsome|hidle
    · obtain ⟨num,hnum⟩ := Option.isSome_iff_exists.mp hsome
      rw [List.filterMap_cons_some hnum,List.foldl_cons,ipSetMenu_digit ui hnum]
    · rw [List.filterMap_cons_none hidle.2.2.2.2,ipSetMenu_idle ui hidle]

/-! ## One byte -/

/-- The three digits of a byte. -/
def digits3 (t : UInt8) : List UInt8 := [t/100,t%100/10,t%10]

/-- What typing the digits of `t` over a byte leaves. -/
def typedByte (v t : UInt8) : UInt8 :=
  replaceDigit (replaceDigit (replaceDigit v 0 (t/100)) 1 (t%100/10)) 2 (t%10)

/-- Typing at the first place replaces the hundreds, and the byte may wrap. -/
theorem replaceDigit_hundreds (v num : UInt8) :
    (replaceDigit v 0 num).toNat=(num.toNat*100+v.toNat%100)%256 := by
  unfold replaceDigit
  simp [UInt8.toNat_add,UInt8.toNat_mul,UInt8.toNat_div]
  omega

/-- Typing at the second place replaces the tens. -/
theorem replaceDigit_tens (v num : UInt8) :
    (replaceDigit v 1 num).toNat=(v.toNat/100*100+num.toNat*10+v.toNat%10)%256 := by
  unfold replaceDigit
  simp [UInt8.toNat_add,UInt8.toNat_mul,UInt8.toNat_div]

/-- Typing at the third place replaces the units. -/
theorem replaceDigit_units (v num : UInt8) :
    (replaceDigit v 2 num).toNat=(v.toNat/10*10+num.toNat)%256 := by
  unfold replaceDigit
  simp [UInt8.toNat_add,UInt8.toNat_mul,UInt8.toNat_div]
  omega

/-- The bytes that the digits of `t` can be typed over without leaving eight
bits on the way. -/
def Fits (v t : UInt8) : Prop := t<200 ∨ v%100≤55 ∧ (t<250 ∨ v%10≤5)

/-- Whether a byte can be reached can be decided. -/
instance (v t : UInt8) : Decidable (Fits v t) := inferInstanceAs (Decidable (_ ∨ _))

/-- The byte behind the three digits as a number, with both steps that leave
eight bits. -/
theorem typedByte_toNat (v t : UInt8) : (typedByte v t).toNat=
    let hundreds := (t.toNat/100*100+v.toNat%100)%256
    let tens := (hundreds/100*100+t.toNat%100/10*10+hundreds%10)%256
    (tens/10*10+t.toNat%10)%256 := by
  unfold typedByte
  rw [replaceDigit_units,replaceDigit_tens,replaceDigit_hundreds,UInt8.toNat_div,UInt8.toNat_div,
    UInt8.toNat_mod,UInt8.toNat_mod]
  rfl

/-- The last two digits when the first has not left eight bits. -/
theorem typed_of_hundreds {a b c r : ℕ} (hr : r<100) (h : a*100+r<256) :
    let tens := ((a*100+r)%256/100*100+b*10+(a*100+r)%256%10)%256
    (tens/10*10+c)%256=((a*100+b*10+r%10)%256/10*10+c)%256 := by
  have hdiv : (a*100+r)/100=a := by omega
  have hmod : (a*100+r)%10=r%10 := by omega
  dsimp only
  rw [Nat.mod_eq_of_lt h,hdiv,hmod]

/-- Typing the digits of a byte gives that byte exactly when the old byte lets it fit. -/
theorem typedByte_eq_iff (v t : UInt8) : typedByte v t=t ↔ Fits v t := by
  unfold Fits
  rw [←UInt8.toNat_inj,typedByte_toNat]
  simp only [UInt8.lt_iff_toNat_lt,UInt8.le_iff_toNat_le,UInt8.toNat_mod,UInt8.reduceToNat]
  have ht := t.toNat_lt
  generalize v.toNat=v
  generalize t.toNat=t at ht ⊢
  have hr : v%100<100 := Nat.mod_lt v (by omega)
  have hunits : v%100%10=v%10 := Nat.mod_mod_of_dvd v (by decide)
  have hdigits : t/100*100+t%100/10*10+t%10=t := by omega
  by_cases hfirst : t/100*100+v%100<256
  · rw [typed_of_hundreds hr hfirst,hunits]
    rcases Nat.lt_or_ge (t/100*100+t%100/10*10+v%10) 256 with hsecond|hsecond
    · -- no digit leaves eight bits
      rw [Nat.mod_eq_of_lt hsecond]
      omega
    · -- the tens are lost
      have hhundreds : t/100=2 := by omega
      omega
  · -- the hundreds are lost
    have hhundreds : t/100=2 := by omega
    have hlost : (t/100*100+v%100)%256/100=0 := by omega
    rw [hlost]
    omega

/-! ## Four bytes -/

/-- The digits of an address, byte by byte. -/
def addressDigits (target : List UInt8) : List UInt8 := target.flatMap digits3

/-- A byte has three decimal digits. -/
theorem digits3_le (t : UInt8) : t/100≤9 ∧ t%100/10≤9 ∧ t%10≤9 := by
  have ht := t.toNat_lt
  simp only [UInt8.le_iff_toNat_le,UInt8.toNat_div,UInt8.toNat_mod,UInt8.reduceToNat]
  omega

/-- A screen with another byte. -/
def IpUi.setByte (ui : IpUi) (i : ℕ) (b : UInt8) : IpUi :=
  {ui with ipData := Function.update ui.ipData i b}

/-- A screen with another cursor. -/
def IpUi.setCursor (ui : IpUi) (numPos cursPos : UInt8) : IpUi :=
  {ui with numPos := numPos, cursPos := cursPos}

namespace IpUi

variable (ui : IpUi) (i : ℕ) (b b' numPos cursPos numPos' cursPos' : UInt8)

/-- Setting a byte sets that byte of ip_data. -/
@[simp] theorem setByte_ipData : (ui.setByte i b).ipData=Function.update ui.ipData i b := rfl

/-- Placing the cursor places it on the number. -/
@[simp] theorem setCursor_numPos : (ui.setCursor numPos cursPos).numPos=numPos := rfl

/-- Placing the cursor places it on the digit. -/
@[simp] theorem setCursor_cursPos : (ui.setCursor numPos cursPos).cursPos=cursPos := rfl

/-- The last byte set at a place stays. -/
@[simp] theorem setByte_setByte : (ui.setByte i b).setByte i b'=ui.setByte i b' := by
  unfold setByte
  rw [Function.update_idem]

end IpUi

variable (ui : IpUi) {n c num : UInt8}

/-- A digit replaces the digit under the cursor and leaves the cursor there. -/
theorem updateValue_digit (hnum : num≤9) (hn : n<4) : updateValue num (ui.setCursor n c)=
    (ui.setByte n.toNat (replaceDigit (ui.ipData n.toNat) c num)).setCursor n c := by
  unfold updateValue
  exact if_pos ⟨hnum,hn⟩

/-- Where the cursor goes behind the last digit of a byte. -/
def nextByte (numPos : UInt8) : UInt8×UInt8 := if numPos+1≥4 then (3,2) else (numPos+1,0)

/-- A digit before the last one of a byte. -/
theorem typeDigit_inside {d : UInt8} (hnum : num≤9) (hn : n<4) (hc : c=0 ∧ d=1 ∨ c=1 ∧ d=2) :
    typeDigit (ui.setCursor n c) num=
      (ui.setByte n.toNat (replaceDigit (ui.ipData n.toNat) c num)).setCursor n d := by
  rw [typeDigit,updateValue_digit ui hnum hn]
  unfold cursorToRight
  dsimp only
  rw [IpUi.setCursor_cursPos]
  rcases hc with ⟨rfl,rfl⟩|⟨rfl,rfl⟩
  · exact if_neg (by decide)
  · exact if_neg (by decide)

/-- The last digit of a byte. -/
theorem typeDigit_last (hnum : num≤9) (hn : n<4) : typeDigit (ui.setCursor n 2) num=
    (ui.setByte n.toNat (replaceDigit (ui.ipData n.toNat) 2 num)).setCursor
      (nextByte n).1 (nextByte n).2 := by
  rw [typeDigit,updateValue_digit ui hnum hn]
  unfold cursorToRight nextByte
  dsimp only
  rw [IpUi.setCursor_cursPos,if_pos (by decide),IpUi.setCursor_numPos]
  split <;> rfl

/-- Typing the three digits of a byte. -/
theorem typeByte (t : UInt8) (hn : n<4) {i : ℕ} (hi : n.toNat=i) {m d : UInt8}
    (hnext : nextByte n=(m,d)) : (digits3 t).foldl typeDigit (ui.setCursor n 0)=
      (ui.setByte i (typedByte (ui.ipData i) t)).setCursor m d := by
  obtain ⟨hhundreds,htens,hunits⟩ := digits3_le t
  rw [digits3,List.foldl_cons,List.foldl_cons,List.foldl_cons,List.foldl_nil,
    typeDigit_inside ui hhundreds hn (Or.inl ⟨rfl,rfl⟩),
    typeDigit_inside _ htens hn (Or.inr ⟨rfl,rfl⟩),typeDigit_last _ hunits hn,hnext,hi]
  simp only [IpUi.setByte_ipData,IpUi.setByte_setByte,Function.update_self]
  rfl

/-- What typing four bytes leaves of four old ones. -/
def typedBytes (m : Mem UInt8) (t₀ t₁ t₂ t₃ : UInt8) : Mem UInt8 :=
  let m := Function.update m 0 (typedByte (m 0) t₀)
  let m := Function.update m 1 (typedByte (m 1) t₁)
  let m := Function.update m 2 (typedByte (m 2) t₂)
  Function.update m 3 (typedByte (m 3) t₃)

/-- The four bytes after typing are typed one by one. -/
theorem load_typedBytes (m : Mem UInt8) (t₀ t₁ t₂ t₃ : UInt8) :
    load (typedBytes m t₀ t₁ t₂ t₃) 0 4=
      [typedByte (m 0) t₀,typedByte (m 1) t₁,typedByte (m 2) t₂,typedByte (m 3) t₃] := rfl

/-- Typing twelve digits leaves each byte what its three digits make of it. -/
theorem typeAddress (t₀ t₁ t₂ t₃ : UInt8) :
    (addressDigits [t₀,t₁,t₂,t₃]).foldl typeDigit (ui.setCursor 0 0)=
      IpUi.setCursor {ui with ipData := typedBytes ui.ipData t₀ t₁ t₂ t₃} 3 2 := by
  have hdigits : addressDigits [t₀,t₁,t₂,t₃]=
      digits3 t₀++(digits3 t₁++(digits3 t₂++(digits3 t₃++[]))) := rfl
  rw [hdigits,List.foldl_append,List.foldl_append,List.foldl_append,List.foldl_append,
    List.foldl_nil,
    typeByte ui t₀ (by decide) (by decide : (0 : UInt8).toNat=0) (by decide : nextByte 0=(1,0)),
    typeByte _ t₁ (by decide) (by decide : (1 : UInt8).toNat=1) (by decide : nextByte 1=(2,0)),
    typeByte _ t₂ (by decide) (by decide : (2 : UInt8).toNat=2) (by decide : nextByte 2=(3,0)),
    typeByte _ t₃ (by decide) (by decide : (3 : UInt8).toNat=3) (by decide : nextByte 3=(3,2))]
  rfl

/-! ## The registers behind ENTER -/

/-- Initialising sets the mark. -/
theorem initIp_mark (bpr : Bpr) : initIp bpr 17=0x1234 := by
  unfold initIp
  split
  case isTrue => rfl
  case isFalse h => exact not_not.mp h

/-- Initialising changes nothing when the mark is set. -/
theorem initIp_of_mark {bpr : Bpr} (h : bpr 17=0x1234) : initIp bpr=bpr :=
  if_neg (not_not.mpr h)

/-- A read behind a write. -/
theorem readIp_setIp {dt dt' : ℕ} (hdt : dt≠17) (ptr : Mem UInt8) (bpr : Bpr) :
    (readIp dt' (setIp dt ptr bpr)).1=
      if dt'=dt then load ptr 0 4 else (readIp dt' bpr).1 := by
  have hmark : setIp dt ptr bpr 17=0x1234 := by
    unfold setIp
    rw [Function.update_of_ne hdt.symm,initIp_mark]
  unfold readIp
  rw [initIp_of_mark hmark]
  unfold setIp
  by_cases h : dt'=dt
  · subst h
    rw [if_pos rfl,Function.update_self,split32_join32]
    rfl
  · rw [if_neg h,Function.update_of_ne h]

/-- The register of a kind. -/
def IpType.dt : IpType → ℕ
  | addr => 18
  | mask => 19
  | gate => 20

/-- Each kind reads its own register. -/
theorem IpType.read_eq (kind : IpType) : kind.read=readIp kind.dt := by cases kind <;> rfl

/-- Each kind writes its own register. -/
theorem IpType.set_eq (kind : IpType) : kind.set=setIp kind.dt := by cases kind <;> rfl

/-- No kind is kept in the register of the mark. -/
theorem IpType.dt_ne_mark (kind : IpType) : kind.dt≠17 := by cases kind <;> decide

/-- Different kinds are kept in different registers. -/
theorem IpType.dt_inj {kind kind' : IpType} : kind'.dt=kind.dt ↔ kind'=kind := by
  cases kind <;> cases kind' <;> decide

/-- The address of the screen's kind is the target, and the other two are as
they were read before. -/
def Stored (ui ui' : IpUi) (target : List UInt8) : Prop :=
  (ui.ipType.read ui'.bpr).1=target ∧
    ∀ kind,kind≠ui.ipType → (kind.read ui'.bpr).1=(kind.read ui.bpr).1

/-- ENTER writes the bytes of the screen. -/
theorem stored_enter_iff (ui : IpUi) (ipData : Mem UInt8) (target : List UInt8) (n c : UInt8) :
    Stored ui (ipSetMenu ({ui with ipData := ipData}.setCursor n c) keyEnter) target ↔
      load ipData 0 4=target := by
  have henter : (ipSetMenu ({ui with ipData := ipData}.setCursor n c) keyEnter).bpr=
      setIp ui.ipType.dt ipData ui.bpr := by
    rw [←IpType.set_eq]
    rfl
  unfold Stored
  rw [henter,IpType.read_eq,readIp_setIp ui.ipType.dt_ne_mark,if_pos rfl]
  refine and_iff_left fun kind hkind => ?_
  rw [IpType.read_eq,readIp_setIp ui.ipType.dt_ne_mark,if_neg fun h => hkind (IpType.dt_inj.mp h)]

/-- Entering the screen shows the stored address, with the cursor at the start. -/
theorem setIpType_shows (value : IpType) (ui : IpUi) :
    load (setIpType value ui).ipData 0 4=(value.read ui.bpr).1 ∧
      (setIpType value ui).setCursor 0 0=setIpType value ui := by
  refine ⟨?_,rfl⟩
  have hread : (value.read ui.bpr).1=split32 (initIp ui.bpr value.dt) := by
    rw [IpType.read_eq]
    rfl
  unfold setIpType
  dsimp only
  rw [hread]
  exact load_store_self _ 0 _

/-- For every old content, every kind, all registers and every target: typing
its digits from the start and ENTER stores it exactly when each of its bytes
can be typed over the old one within eight bits. -/
theorem typed_stored_iff (ui : IpUi) (t₀ t₁ t₂ t₃ : UInt8)
    (typing : Typing (addressDigits [t₀,t₁,t₂,t₃])) :
    Stored ui (ipSetMenu (typing.keys.foldl ipSetMenu (ui.setCursor 0 0)) keyEnter)
        [t₀,t₁,t₂,t₃] ↔
      Fits (ui.ipData 0) t₀ ∧ Fits (ui.ipData 1) t₁ ∧ Fits (ui.ipData 2) t₂ ∧
        Fits (ui.ipData 3) t₃ := by
  rw [typing_run,typeAddress,stored_enter_iff,load_typedBytes,←typedByte_eq_iff,←typedByte_eq_iff,
    ←typedByte_eq_iff,←typedByte_eq_iff]
  simp only [List.cons.injEq,and_true]

/-- The keys of 200.0.0.1 with some frames between them. -/
def keys200 : List UInt16 :=
  [0,key2,0,key0,key0,key0,key0,key0,key0,0,key0,key0,key0,key0,key1]

/-- These keys type its digits. -/
def typing200 : Typing (addressDigits [200,0,0,1]) where
  keys := keys200
  only := by
    have hall : keys200.all (fun key => decide ((digit key).isSome ∨ Idle key))=true := by decide
    exact fun key hkey => of_decide_eq_true (List.all_eq_true.mp hall key hkey)
  digits := rfl

/-- The screen is opened for the address while the registers were never set:
over the default 192 the digits of 200 leave 0. -/
theorem not_typed_stored : ¬∀ (ui : IpUi) (t₀ t₁ t₂ t₃ : UInt8)
    (typing : Typing (addressDigits [t₀,t₁,t₂,t₃])),
    Stored ui (ipSetMenu (typing.keys.foldl ipSetMenu (ui.setCursor 0 0)) keyEnter)
      [t₀,t₁,t₂,t₃] := by
  intro h
  have hstored := h (setIpType .addr ⟨fun _ => 0,0,0,.addr,.ipConfig,fun _ => 0⟩) 200 0 0 1
    typing200
  rw [typing_run,typeAddress,stored_enter_iff,load_typedBytes] at hstored
  exact absurd hstored (by decide)

end BT816Display.IpSetMenu
