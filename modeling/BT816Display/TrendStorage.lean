import BT816Display.TrendConfig

/-!
# The trends in the battery-backed registers

save_trends packs two parameters into each register and init_trends unpacks
them again. It checks the input number of each trend it loads, but corrects
that of the first trend whichever it has checked.
-/

namespace BT816Display.TrendStorage

open BigEndian SlotList TrendConfig TrendData
open TrendEdit (Link)

/-! ## Saving and loading -/

/-- A number of an input of a node. -/
def InpOk (inpNum : UInt8) : Prop := inpNum≠0 ∧ ¬inpNum>pc21InpCnt

/-- Whether an input number is right can be decided. -/
instance (inpNum : UInt8) : Decidable (InpOk inpNum) := inferInstanceAs (Decidable (_ ∧ _))

/-- All stored input numbers are numbers of inputs. -/
def InputsOk (trends : ℕ → Trend) : Prop := ∀ i<trendMaxCnt,InpOk (trends i).inpNum

/-- The check of a right number leaves the first trend as it is. -/
theorem checkInpNum_of_ok {inpNum : UInt8} (h : InpOk inpNum) (first : Trend) :
    checkInpNum inpNum first=first := by
  unfold checkInpNum
  dsimp only
  rw [if_neg h.1,if_neg h.2]

/-- What the check of a number leaves of the input number of the first trend. -/
theorem checkInpNum_inpNum (inpNum : UInt8) (first : Trend) :
    (checkInpNum inpNum first).inpNum=
      if inpNum>pc21InpCnt then pc21InpCnt else if inpNum=0 then 1 else first.inpNum := by
  unfold checkInpNum
  dsimp only
  split_ifs <;> rfl

/-- The input numbers are parameters. -/
theorem inputsOk_of_same {s s' : TrendStore} (h : SameConfig s s') (hs : InputsOk s'.trends) :
    InputsOk s.trends := by
  intro i hi
  rw [h.inpNum hi]
  exact hs i hi

/-- The three registers of a trend are loaded as they were saved. -/
theorem get_loadParams {bpr : ℕ → UInt32} {dt : ℕ} {tr : Trend} (tr' : Trend)
    (h : ∀ w∈paramWrites dt tr,bpr w.1=w.2) (link : Link) :
    link.get (loadParams bpr dt tr')=link.get tr := by
  have h0 : bpr dt=(join16 tr.devAddr tr.inpNum).toUInt32 := h _ List.mem_cons_self
  have h1 : bpr (dt+1)=(join16 tr.minWarn tr.minAlarm).toUInt32 :=
    h _ (List.mem_cons_of_mem _ List.mem_cons_self)
  have h2 : bpr (dt+2)=(join16 tr.maxWarn tr.maxAlarm).toUInt32 :=
    h _ (List.mem_cons_of_mem _ (List.mem_cons_of_mem _ List.mem_cons_self))
  cases link <;> simp only [Link.get,loadParams,h0,h1,h2,UInt16.toUInt16_toUInt32,
    UInt16.toUInt8_toUInt32,join16_high,join16_low]

/-- The register from which the parameters of a slot are loaded. -/
def slotData (i : ℕ) : ℕ := 8+3*i

/-- Every slot is saved in its own registers. -/
theorem saveTrends_slot (s : TrendStore) {i : ℕ} (hi : i<trendMaxCnt) :
    ∀ w∈paramWrites (slotData i) (s.trends i),(saveTrends s).bpr w.1=w.2 := by
  refine List.forall_mem_cons.mpr ⟨?_,List.forall_mem_cons.mpr
    ⟨?_,List.forall_mem_singleton.mpr ?_⟩⟩ <;>
  · match i,hi with
    | 0,_ => rfl
    | 1,_ => rfl
    | 2,_ => rfl

/-- The trend loaded for a slot before any input number is checked. -/
def loadedSlot (bpr : ℕ → UInt32) (i : ℕ) : Trend := loadParams bpr (slotData i) getNewTrend

/-- The parameters of a slot come from its own registers when the input
numbers of all slots are in range. -/
theorem loadTrends_trends {bpr : ℕ → UInt32} (h : InputsOk (loadedSlot bpr)) {i : ℕ}
    (hi : i<trendMaxCnt) : (loadTrends bpr).trends i=loadedSlot bpr i := by
  match i,hi with
  | 0,_ =>
    change checkInpNum (loadedSlot bpr 2).inpNum (checkInpNum (loadedSlot bpr 1).inpNum
      (checkInpNum (loadedSlot bpr 0).inpNum (loadedSlot bpr 0)))=_
    rw [checkInpNum_of_ok (h 0 (by decide)),checkInpNum_of_ok (h 1 (by decide)),
      checkInpNum_of_ok (h 2 (by decide))]
  | 1,_ => rfl
  | 2,_ => rfl

/-- No check spoils a right input number of the first trend. -/
theorem checkInpNum_ok {first : Trend} (h : InpOk first.inpNum) (inpNum : UInt8) :
    InpOk (checkInpNum inpNum first).inpNum := by
  rw [checkInpNum_inpNum]
  split_ifs
  · decide
  · decide
  · exact h

/-- The input number loaded for the first trend is in range. -/
theorem loadTrends_first (bpr : ℕ → UInt32) : InpOk ((loadTrends bpr).trends 0).inpNum := by
  have hown (tr : Trend) : InpOk (checkInpNum tr.inpNum tr).inpNum := by
    rw [checkInpNum_inpNum]
    split_ifs with hhigh hzero
    · decide
    · decide
    · exact ⟨hzero,hhigh⟩
  exact checkInpNum_ok (checkInpNum_ok (hown _) _) _

/-- Saved trends are loaded again. -/
theorem loadTrends_saveTrends {s : TrendStore} (hcount : s.trCnt.toNat≤trendMaxCnt)
    (hinputs : InputsOk s.trends) : SameConfig (loadTrends (saveTrends s).bpr) s := by
  have hslot {i : ℕ} (hi : i<trendMaxCnt) (link : Link) :
      link.get (loadedSlot (saveTrends s).bpr i)=link.get (s.trends i) :=
    get_loadParams getNewTrend (saveTrends_slot s hi) link
  have hok : InputsOk (loadedSlot (saveTrends s).bpr) := by
    intro i hi
    have hinp : (loadedSlot (saveTrends s).bpr i).inpNum=(s.trends i).inpNum := hslot hi .inpNum
    rw [hinp]
    exact hinputs i hi
  constructor
  · have hload : ((saveTrends s).bpr 7).toUInt8=s.trCnt := by
      have hsaved : (saveTrends s).bpr 7=s.trCnt.toUInt32 := rfl
      rw [hsaved,UInt8.toUInt8_toUInt32]
    unfold loadTrends
    dsimp only
    rw [hload,if_neg (Nat.not_lt.mpr hcount)]
  · intro i hi
    funext link
    unfold slotParams
    rw [loadTrends_trends hok hi]
    exact hslot hi link

/-- What is loaded depends on the registers of the trends only. -/
theorem loadTrends_congr {bpr bpr' : ℕ → UInt32} (h : ∀ dt,IsTrendData dt → bpr dt=bpr' dt) :
    SameConfig (loadTrends bpr) (loadTrends bpr') := by
  have hparams {dt : ℕ} (h8 : 8≤dt) (h14 : dt≤14) (tr : Trend) :
      loadParams bpr dt tr=loadParams bpr' dt tr := by
    unfold loadParams
    rw [h dt (Or.inr (by omega)),h (dt+1) (Or.inr (by omega)),h (dt+2) (Or.inr (by omega))]
  constructor
  · unfold loadTrends
    dsimp only
    rw [h 7 (Or.inr (by decide))]
  · intro i _
    unfold slotParams loadTrends
    dsimp only
    rw [hparams (by decide) (by decide),hparams (by decide) (by decide),
      hparams (by decide) (by decide)]

/-- The number of trends that is loaded. -/
theorem loadTrends_count (bpr : ℕ → UInt32) : (loadTrends bpr).trCnt.toNat≤trendMaxCnt := by
  unfold loadTrends
  dsimp only
  split
  · decide
  · omega

/-! ## Adding and deleting -/

/-- Storing a trend stores its four parameters. -/
theorem slotParams_update (trends : ℕ → Trend) (n : ℕ) (tr : Trend) :
    slotParams (Function.update trends n tr)=
      Function.update (slotParams trends) n fun link => link.get tr :=
  Function.comp_update (fun (tr : Trend) (link : Link) => link.get tr) trends n tr

/-- A trend is added behind the others. -/
theorem configured_addTrend {s : TrendStore} (h : s.trCnt.toNat<trendMaxCnt) (tr : Trend) :
    configured (addTrend s tr).1=configured s++[fun link => link.get tr] := by
  have hmax : trendMaxCnt=3 := rfl
  have hcount : (s.trCnt+1).toNat=s.trCnt.toNat+1 := by
    have h1 : (1 : UInt8).toNat=1 := rfl
    rw [UInt8.toNat_add,h1]
    omega
  unfold configured addTrend
  rw [if_neg (by omega)]
  dsimp only
  rw [slotParams_update,hcount,entries_append]

/-- The slots behind a deleted trend move down, and the last one is new. -/
theorem deleteTrend_trends {s : TrendStore} {trendNum : UInt8} (h0 : trendNum≠0)
    (hle : trendNum ≤ s.trCnt) {i : ℕ} (hi : i<trendMaxCnt) :
    (deleteTrend s trendNum).trends i=
      if i+1=trendMaxCnt then getNewTrend
      else if trendNum.toNat ≤ i+1 then s.trends (i+1) else s.trends i := by
  have hpos : 1≤trendNum.toNat := Nat.pos_of_ne_zero fun h => h0 (UInt8.toNat_inj.mp h)
  unfold deleteTrend
  dsimp only
  rw [if_pos ⟨h0,hle⟩]
  dsimp only
  by_cases hlast : i+1=trendMaxCnt
  · rw [if_pos hlast,show trendMaxCnt-1=i by omega,Function.update_self]
  · rw [if_neg hlast,Function.update_of_ne (by omega)]
    refine (moveDown_apply s.trends hpos _ i).trans (if_congr ?_ rfl rfl)
    omega

/-- A deleted trend is removed from the list. -/
theorem configured_deleteTrend {s : TrendStore} (hcount : s.trCnt.toNat≤trendMaxCnt)
    {curTrend : UInt8} (h : curTrend.toNat<s.trCnt.toNat) :
    configured (deleteTrend s (curTrend+1))=(configured s).eraseIdx curTrend.toNat := by
  have hmax : trendMaxCnt=3 := rfl
  have h1 : (1 : UInt8).toNat=1 := rfl
  have hnum : (curTrend+1).toNat=curTrend.toNat+1 := by
    rw [UInt8.toNat_add,h1]
    omega
  have h0 : curTrend+1≠0 := by
    intro hz
    rw [hz] at hnum
    exact absurd hnum (by simp)
  have hle : curTrend+1 ≤ s.trCnt := by
    rw [UInt8.le_iff_toNat_le,hnum]
    omega
  have hless : (deleteTrend s (curTrend+1)).trCnt.toNat=s.trCnt.toNat-1 := by
    unfold deleteTrend
    dsimp only
    rw [if_pos ⟨h0,hle⟩]
    dsimp only
    have hless := Nat.pos_of_ne_zero (by omega : s.trCnt.toNat≠0)
    rw [UInt8.toNat_sub,h1]
    omega
  unfold configured
  rw [hless]
  refine entries_erase h (fun k hk => ?_) fun k hk hk' => ?_ <;>
  · funext link
    unfold slotParams
    rw [deleteTrend_trends h0 hle (by omega),if_neg (by omega)]
    first
    | rw [if_neg (by omega)]
    | rw [if_pos (by omega)]

/-- There is no trend to be deleted. -/
theorem deleteTrend_of_none {s : TrendStore} (h : s.trCnt.toNat=0) (trendNum : UInt8) :
    deleteTrend s trendNum=s := by
  have hnot : ¬(trendNum≠0 ∧ trendNum ≤ s.trCnt) := by
    rintro ⟨h0,hle⟩
    have hz := UInt8.le_iff_toNat_le.mp hle
    exact h0 (UInt8.toNat_inj.mp (Nat.eq_zero_of_le_zero (h ▸ hz)))
  unfold deleteTrend
  dsimp only
  rw [if_neg hnot]

/-- A deleted trend leaves input numbers in range. -/
theorem deleteTrend_inputsOk {s : TrendStore} (h : InputsOk s.trends) (trendNum : UInt8) :
    InputsOk (deleteTrend s trendNum).trends := by
  by_cases hnum : trendNum≠0 ∧ trendNum ≤ s.trCnt
  · intro i hi
    rw [deleteTrend_trends hnum.1 hnum.2 hi]
    split_ifs
    · decide
    · exact h (i+1) (by omega)
    · exact h i hi
  · unfold deleteTrend
    dsimp only
    rw [if_neg hnum]
    exact h

/-- An added trend with an input number in range. -/
theorem addTrend_inputsOk {s : TrendStore} (h : InputsOk s.trends) {tr : Trend}
    (htr : InpOk tr.inpNum) : InputsOk (addTrend s tr).1.trends := by
  intro i hi
  unfold addTrend
  split
  · exact h i hi
  · dsimp only
    by_cases hlast : i=s.trCnt.toNat
    · rw [hlast,Function.update_self]
      exact htr
    · rw [Function.update_of_ne hlast]
      exact h i hi

/-- Adding a trend keeps the count within the three slots. -/
theorem addTrend_count {s : TrendStore} (h : s.trCnt.toNat≤trendMaxCnt) (tr : Trend) :
    (addTrend s tr).1.trCnt.toNat≤trendMaxCnt := by
  have h1 : (1 : UInt8).toNat=1 := rfl
  unfold addTrend
  split
  · exact h
  · dsimp only
    rw [UInt8.toNat_add,h1]
    omega

/-- Deleting a trend keeps the count within the three slots. -/
theorem deleteTrend_count {s : TrendStore} (h : s.trCnt.toNat≤trendMaxCnt) (trendNum : UInt8) :
    (deleteTrend s trendNum).trCnt.toNat≤trendMaxCnt := by
  have h1 : (1 : UInt8).toNat=1 := rfl
  unfold deleteTrend
  dsimp only
  split
  next hnum =>
    have hle := UInt8.le_iff_toNat_le.mp hnum.2
    have hpos := Nat.pos_of_ne_zero fun h => hnum.1 (UInt8.toNat_inj.mp h)
    rw [UInt8.toNat_sub,h1]
    omega
  next => exact h

end BT816Display.TrendStorage
