import BT816Display.TrendStorage

/-!
# What init_trends makes of any registers

The registers may hold anything after the battery has been changed, so
init_trends checks what it loads. The checks for the second and the third
trend look at the input number of their own trend and write that of the
first one, so an input number there that is none stays, and alters the first
trend.
-/

namespace BT816Display.TrendSanity

open TrendConfig TrendData TrendStorage

/-- init_trends loads from registers that it has initialised. -/
theorem initTrends_registers (bpr : ℕ → UInt32) :
    initTrends bpr=loadTrends (initRegisters true bpr) := by
  rw [initTrends_eq,initRegisters]
  simp only [true_and]

/-- The three registers of a slot hold the same. -/
def SameSlot (bpr bpr' : ℕ → UInt32) (k : ℕ) : Prop :=
  ∀ j<3,bpr (slotData k+j)=bpr' (slotData k+j)

instance (bpr bpr' : ℕ → UInt32) (k : ℕ) : Decidable (SameSlot bpr bpr' k) :=
  inferInstanceAs (Decidable (∀ j<3,_))

/-- What loading two contents of the registers is meant to give. -/
structure Sanitises (bpr bpr' : ℕ → UInt32) : Prop where
  /-- There are as many trends as slots at most. -/
  count : (loadTrends bpr).trCnt.toNat≤trendMaxCnt ∧ (loadTrends bpr').trCnt.toNat≤trendMaxCnt
  /-- Every input number is that of an input. -/
  inputs : InputsOk (loadTrends bpr).trends ∧ InputsOk (loadTrends bpr').trends
  /-- The parameters of a slot come from its own registers. -/
  slots : ∀ k<trendMaxCnt,SameSlot bpr bpr' k →
    slotParams (loadTrends bpr).trends k=slotParams (loadTrends bpr').trends k

/-- The registers of the second and the third trend hold numbers of inputs. -/
def KnownInputs (bpr : ℕ → UInt32) : Prop := InpOk (bpr 11).toUInt8 ∧ InpOk (bpr 14).toUInt8

/-! ## Single slots -/

/-- A slot is unpacked from its own registers. -/
theorem loadedSlot_congr {bpr bpr' : ℕ → UInt32} {k : ℕ} (h : SameSlot bpr bpr' k) :
    loadedSlot bpr k=loadedSlot bpr' k := by
  have h0 : bpr (slotData k)=bpr' (slotData k) := h 0 (by decide)
  unfold loadedSlot loadParams
  rw [h0,h 1 (by decide),h 2 (by decide)]

/-- The second and the third trend stay as they were unpacked. -/
theorem loadTrends_later (bpr : ℕ → UInt32) {k : ℕ} (h0 : k≠0) (hk : k<trendMaxCnt) :
    (loadTrends bpr).trends k=loadedSlot bpr k := by
  match k,hk with
  | 0,_ => exact absurd rfl h0
  | 1,_ => rfl
  | 2,_ => rfl

/-- With numbers of inputs in the other two slots only the own number of the
first trend is checked. -/
theorem loadTrends_first_of_known {bpr : ℕ → UInt32} (h : KnownInputs bpr) :
    (loadTrends bpr).trends 0=checkInpNum (loadedSlot bpr 0).inpNum (loadedSlot bpr 0) := by
  change checkInpNum (loadedSlot bpr 2).inpNum (checkInpNum (loadedSlot bpr 1).inpNum
    (checkInpNum (loadedSlot bpr 0).inpNum (loadedSlot bpr 0)))=_
  rw [checkInpNum_of_ok (show InpOk (loadedSlot bpr 1).inpNum from h.1),
    checkInpNum_of_ok (show InpOk (loadedSlot bpr 2).inpNum from h.2)]

/-- A number in another slot that is none of an input decides the input
number of the first trend, whatever the registers of the first trend hold. -/
theorem loadTrends_first_of_unknown {bpr : ℕ → UInt32} (h : ¬KnownInputs bpr) :
    ((loadTrends bpr).trends 0).inpNum=1 ∨ ((loadTrends bpr).trends 0).inpNum=pc21InpCnt := by
  have hset {inpNum : UInt8} (hbad : ¬InpOk inpNum) (first : Trend) :
      (checkInpNum inpNum first).inpNum=1 ∨ (checkInpNum inpNum first).inpNum=pc21InpCnt := by
    rw [checkInpNum_inpNum]
    split_ifs with hhigh hzero
    · exact Or.inr rfl
    · exact Or.inl rfl
    · exact absurd ⟨hzero,hhigh⟩ hbad
  have hkeep {first : Trend} (hfirst : first.inpNum=1 ∨ first.inpNum=pc21InpCnt)
      (inpNum : UInt8) :
      (checkInpNum inpNum first).inpNum=1 ∨ (checkInpNum inpNum first).inpNum=pc21InpCnt := by
    by_cases hok : InpOk inpNum
    · rw [checkInpNum_of_ok hok]
      exact hfirst
    · exact hset hok first
  rcases not_and_or.mp h with h1|h2
  · exact hkeep (hset h1 _) _
  · exact hset h2 _

/-- The input numbers are in range when the registers hold such numbers for
the trends whose number is not corrected. -/
theorem inputsOk_iff (bpr : ℕ → UInt32) : InputsOk (loadTrends bpr).trends ↔ KnownInputs bpr := by
  constructor
  · intro h
    have h1 := h 1 (by decide)
    have h2 := h 2 (by decide)
    rw [loadTrends_later bpr (by decide) (by decide)] at h1 h2
    exact ⟨h1,h2⟩
  · intro h k hk
    match k,hk with
    | 0,_ => exact loadTrends_first bpr
    | 1,_ => exact h.1
    | 2,_ => exact h.2

/-! ## All slots -/

/-- With numbers of inputs in both contents no slot alters another one. -/
theorem slots_of_known {bpr bpr' : ℕ → UInt32} (h : KnownInputs bpr) (h' : KnownInputs bpr')
    {k : ℕ} (hk : k<trendMaxCnt) (hsame : SameSlot bpr bpr' k) :
    slotParams (loadTrends bpr).trends k=slotParams (loadTrends bpr').trends k := by
  have hload : (loadTrends bpr).trends k=(loadTrends bpr').trends k := by
    by_cases h0 : k=0
    · rw [h0] at hsame ⊢
      rw [loadTrends_first_of_known h,loadTrends_first_of_known h',loadedSlot_congr hsame]
    · rw [loadTrends_later bpr h0 hk,loadTrends_later bpr' h0 hk,loadedSlot_congr hsame]
  unfold slotParams
  rw [hload]

/-- init_trends sanitises its slots exactly when the registers hold numbers of
inputs for the second and the third trend. -/
theorem sanitises_iff (access : Bool) (bpr bpr' : ℕ → UInt32) :
    Sanitises (initRegisters access bpr) (initRegisters access bpr') ↔
      KnownInputs (initRegisters access bpr) ∧ KnownInputs (initRegisters access bpr') := by
  constructor
  · intro h
    exact ⟨(inputsOk_iff _).mp h.inputs.1,(inputsOk_iff _).mp h.inputs.2⟩
  · rintro ⟨h,h'⟩
    exact {
      count := ⟨loadTrends_count _,loadTrends_count _⟩
      inputs := ⟨(inputsOk_iff _).mpr h,(inputsOk_iff _).mpr h'⟩
      slots := fun _ hk => slots_of_known h h' hk }

/-- Marked registers with the inputs 5, 0 and 15. -/
def alteringRegisters (dt : ℕ) : UInt32 :=
  [0,0,0,0,0,0,0x1234,3,0x0105,0,0xFFFF,0x0100,0,0xFFFF,0x010F,0,0xFFFF].getD dt 0

/-- The number 0 of the second trend and the number 15 of the third one stay,
and the input 5 of the first trend becomes 14. -/
theorem not_sanitises : ¬Sanitises (initRegisters true alteringRegisters) (initRegisters true
      (Function.update (Function.update alteringRegisters 11 0x0101) 14 0x0101)) ∧
    (List.range 3).map (fun k => ((initTrends alteringRegisters).trends k).inpNum)=[14,0,15] := by
  refine ⟨fun h => ?_,by decide⟩
  have hslot := congrFun (h.slots 0 (by decide) (by decide)) .inpNum
  exact absurd hslot (by decide)

end BT816Display.TrendSanity
