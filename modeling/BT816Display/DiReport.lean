import BT816Display.Lib.BitLoop
import BT816Display.PanelRun

/-!
# Reports of the digital inputs

The inputs are sampled in every round of the CAN task and the changed ones
reported in every twentieth. A receiver that replays the reports has an image
of the inputs; an input that differs from it is always waiting to be sent.
-/

namespace BT816Display.DiReport

open ByteMemory BigEndian ArrayAccess PlcData CanTxStack CanCmd CanRx PanelRun BitLoop

/-- A report at the receiver: the states under the mask. -/
def imageStep (image : ℕ → Bool) (packet : TxStackData) : ℕ → Bool := fun i =>
  if bit (packet.data 4).toNat i then bit (packet.data 2).toNat i else image i

/-- The image of the receiver, with no input on at first. -/
def image (digits : List TxStackData) : ℕ → Bool := digits.foldl imageStep fun _ => false

/-! ## Bits -/

/-- The bit of a half-word. -/
theorem bit16_toNat : ∀ i<16,(bit16 i).toNat=2^i := by decide

/-- The bit of a byte. -/
theorem bit8_toNat : ∀ i<8,(bit8 i).toNat=2^i := by decide

/-- A bit that is found set. -/
theorem and_bit16_ne_zero (a : UInt16) {i : ℕ} (hi : i<16) :
    a&&&bit16 i≠0 ↔ bit a.toNat i=true := by
  rw [←UInt16.toNat_inj.ne,UInt16.toNat_and,bit16_toNat i hi]
  exact mask_ne_zero a.toNat i

/-- Two half-words agree in a bit. -/
theorem and_bit16_inj (a b : UInt16) {i : ℕ} (hi : i<16) :
    a&&&bit16 i=b&&&bit16 i ↔ bit a.toNat i=bit b.toNat i := by
  rw [←UInt16.toNat_inj,UInt16.toNat_and,UInt16.toNat_and,bit16_toNat i hi]
  exact mask_inj a.toNat b.toNat i

/-- A bit of a byte that is found set. -/
theorem and_bit8_ne_zero (a : UInt8) {i : ℕ} (hi : i<8) :
    a&&&bit8 i≠0 ↔ bit a.toNat i=true := by
  rw [←UInt8.toNat_inj.ne,UInt8.toNat_and,bit8_toNat i hi]
  exact mask_ne_zero a.toNat i

/-- The inputs that have changed are marked. -/
theorem changed_bit (prev cur update : UInt16) {i : ℕ} (hi : i<8) :
    bit (markChanged prev cur update).toNat i=
      (bit update.toNat i||decide (bit prev.toNat i≠bit cur.toNat i)) := by
  have hset : ∀ (u : UInt16) i,i<8 → (u|||bit16 i).toNat=u.toNat|||2^i := by
    intro u k hk
    rw [UInt16.toNat_or,bit16_toNat k (by omega)]
  refine (testBit_loop hset _ update i).trans ?_
  have hiff : (i<8 ∧ prev&&&bit16 i≠cur&&&bit16 i) ↔ bit prev.toNat i≠bit cur.toNat i := by
    rw [and_iff_right hi]
    exact (and_bit16_inj prev cur (by omega)).not
  simp only [hiff]
  rfl

/-- The states sent are those of the inputs under the mask. -/
theorem sendState_bit (mask : UInt8) (cur : UInt16) {i : ℕ} (hi : i<8) :
    bit (sendState mask cur).toNat i=(bit mask.toNat i&&bit cur.toNat i) := by
  have hset : ∀ (u : UInt8) i,i<8 → (u|||bit8 i).toNat=u.toNat|||2^i := by
    intro u k hk
    rw [UInt8.toNat_or,bit8_toNat k hk]
  have hloop : (fun (state : UInt8) i =>
      if mask&&&bit8 i≠0 then if cur&&&bit16 i≠0 then state|||bit8 i else state else state)=
      fun state i => if mask&&&bit8 i≠0 ∧ cur&&&bit16 i≠0 then state|||bit8 i else state := by
    funext state k
    by_cases hm : mask&&&bit8 k≠0
    · rw [if_pos hm]
      simp only [hm,ne_eq,not_false_eq_true,true_and]
    · rw [if_neg hm,if_neg fun h => hm h.1]
  unfold sendState
  rw [hloop]
  refine (testBit_loop hset _ 0 i).trans ?_
  have hiff : (i<8 ∧ mask&&&bit8 i≠0 ∧ cur&&&bit16 i≠0) ↔
      bit mask.toNat i=true ∧ bit cur.toNat i=true := by
    rw [and_iff_right hi,and_bit8_ne_zero mask hi,and_bit16_ne_zero cur (by omega)]
  simp only [hiff,UInt8.toNat_zero,Nat.zero_testBit,Bool.false_or,Bool.decide_and,
    Bool.decide_eq_true]

/-- The mask sent is the low byte of the marks. -/
theorem diMask_bit (update : UInt16) {i : ℕ} (hi : i<8) :
    bit (update&&&0x00FF&&&0xFF).toUInt8.toNat i=bit update.toNat i := by
  have hbyte : ∀ i<8,(255 : ℕ).testBit i=true := by decide
  unfold bit
  rw [UInt16.toNat_toUInt8,UInt16.toNat_and,UInt16.toNat_and,Nat.testBit_mod_two_pow]
  simp [hi,hbyte i hi]

/-- Sending clears the marks. -/
theorem sent_bit (update : UInt16) {i : ℕ} (hi : i<8) :
    bit (update&&&0xFF00).toNat i=false := by
  have hbyte : ∀ i<8,(65280 : ℕ).testBit i=false := by decide
  unfold bit
  rw [UInt16.toNat_and,Nat.testBit_and]
  simp [hbyte i hi]

/-! ## Runs -/

/-- Every input that differs from the image is marked to be sent. -/
def Pending (s : System) : Prop :=
  ∀ i<8,image s.digits i≠bit s.prevDi.toNat i → bit s.panel.updateDi.toNat i=true

/-- A packet behind others changes the image of the inputs once more. -/
theorem image_concat (digits : List TxStackData) (packet : TxStackData) :
    image (digits++[packet])=imageStep (image digits) packet := List.foldl_concat ..

/-- A report replaces the states under its mask. -/
theorem image_send (s : System) (startBit state fault mask : UInt8) (i : ℕ) :
    image (sendPackedPhysicalDigits s startBit state fault mask).digits i=
      if bit mask.toNat i then bit state.toNat i else image s.digits i := by
  unfold sendPackedPhysicalDigits
  dsimp only
  rw [image_concat]
  rfl

/-- What the report does when nothing that differs from the image is unmarked:
after a report the image shows the inputs. -/
theorem reportDi_spec (s : System) (cur : UInt16)
    (h : ∀ i<8,image s.digits i≠bit cur.toNat i → bit s.panel.updateDi.toNat i=true) :
    (∀ i<8,image (reportDi s cur).digits i=bit cur.toNat i) ∧
      ∀ i<8,bit (reportDi s cur).panel.updateDi.toNat i=false := by
  unfold reportDi
  dsimp only
  by_cases hm : (s.panel.updateDi&&&0x00FF&&&0xFF).toUInt8≠0
  · rw [if_pos hm]
    refine ⟨fun i hi => ?_,fun i hi => sent_bit _ hi⟩
    rw [image_send,sendState_bit _ cur hi,diMask_bit _ hi]
    by_cases hu : bit s.panel.updateDi.toNat i=true
    · rw [if_pos hu,hu,Bool.true_and]
    · rw [if_neg hu]
      by_contra hne
      exact hu (h i hi hne)
  · rw [if_neg hm]
    have hzero : ∀ i<8,bit s.panel.updateDi.toNat i=false := by
      intro i hi
      rw [←diMask_bit _ hi,not_not.mp hm]
      exact Nat.zero_testBit i
    refine ⟨fun i hi => ?_,hzero⟩
    by_contra hne
    exact absurd (h i hi hne) (by rw [hzero i hi]; decide)

/-- The marks when the inputs are compared with the last sample. -/
theorem changed_pending {s : System} (h : Pending s) (diState : UInt8) {i : ℕ} (hi : i<8)
    (hne : image s.digits i≠bit diState.toUInt16.toNat i) :
    bit (markChanged s.prevDi diState.toUInt16 s.panel.updateDi).toNat i=true := by
  rw [changed_bit _ _ _ hi]
  by_cases hold : image s.digits i=bit s.prevDi.toNat i
  · rw [hold] at hne
    rw [decide_eq_true hne,Bool.or_true]
  · rw [h i hi hold,Bool.true_or]

/-- A sample keeps every differing input marked, and when it sends a report the
image shows the sampled inputs. -/
theorem updateDiData_spec {s : System} (h : Pending s) (diState : UInt8) :
    Pending (updateDiData s diState) ∧
      ((updateDiData s diState).digits≠s.digits →
        ∀ i<8,image (updateDiData s diState).digits i=bit diState.toNat i) := by
  have hchanged {i : ℕ} := changed_pending h diState (i:=i)
  unfold updateDiData
  dsimp only
  by_cases ht : s.diTmr+1=20
  · have hspec := reportDi_spec ⟨{s.panel with
      updateDi := markChanged s.prevDi diState.toUInt16 s.panel.updateDi},s.cnt,s.prevDi,s.diTmr+1,
      s.records,s.digits⟩ diState.toUInt16 fun i hi => hchanged hi
    rw [if_pos ht]
    exact ⟨fun i hi hne => absurd (hspec.1 i hi) hne,fun _ i hi => hspec.1 i hi⟩
  · rw [if_neg ht]
    exact ⟨fun i hi => hchanged hi,fun hsent => absurd rfl hsent⟩

/-- Nothing waits at the start. -/
theorem pending_start (p : Panel) : Pending (start p) := by
  intro i _ hne
  exact absurd (Nat.zero_testBit i).symm hne

/-- Every operation keeps the differing inputs marked. -/
theorem pending_step {s s' : System} {op : PanelOp} (h : Pending s)
    (hs : panelStep s op=some s') : Pending s' := by
  cases panelStep_stepped hs with
  | receive rx q hreceived =>
    intro i hi hne
    change bit q.updateDi.toNat i=true
    cases hreceived with
    | ignored hext he =>
      rw [he]
      exact h i hi hne
    | heartbeat hsrv hext harrays hhb hlink hdi =>
      have hall : ∀ i<8,bit (0xFF : UInt16).toNat i=true := by decide
      rw [hdi]
      split_ifs
      · exact h i hi hne
      · exact hall i hi
    | event hsrv hext ht =>
      rw [ht.updateDi]
      exact h i hi hne
  | write var q hw =>
    intro i hi hne
    change bit q.updateDi.toNat i=true
    rw [hw.updateDi]
    exact h i hi hne
  | reset =>
    exact h
  | tick time =>
    have ht := networkTick_ticked s time
    intro i hi hne
    rw [ht.digits,ht.prevDi] at hne
    rw [ht.updateDi]
    exact h i hi hne
  | sample diState =>
    exact (updateDiData_spec h diState).1

/-- No change of an input is lost: after every sample in a run an input that
differs from the image is marked to be sent, and when the sample sends a report
the image shows all inputs. -/
theorem no_change_lost (p : Panel) (ops : List PanelOp) (diState : UInt8) (h : FramesInRange ops) :
    ∃ s,panelRun (start p) ops=some s ∧
      let s' := updateDiData s diState
      (∀ i<8,image s'.digits i≠bit diState.toNat i → bit s'.panel.updateDi.toNat i=true) ∧
        (s'.digits≠s.digits → ∀ i<8,image s'.digits i=bit diState.toNat i) := by
  obtain ⟨s,hs,hpending⟩ := panelRun_invariant (P:=Pending) (pending_start p)
    (fun _ _ _ => pending_step) h
  obtain ⟨hafter,hsent⟩ := updateDiData_spec hpending diState
  exact ⟨s,hs,hafter,hsent⟩

/-- Input 1 goes on after the heartbeat of a panel that was down. -/
theorem no_change_lost_on : ∃ s,panelRun (start zeroPanel) [.receive ⟨0x411,2,fun _ => 0⟩]=some s ∧
    let s' := updateDiData s 0x01
    (∀ i<8,image s'.digits i≠bit (0x01 : UInt8).toNat i → bit s'.panel.updateDi.toNat i=true) ∧
      (s'.digits≠s.digits → ∀ i<8,image s'.digits i=bit (0x01 : UInt8).toNat i) := by
  refine no_change_lost zeroPanel [.receive ⟨0x411,2,fun _ => 0⟩] 0x01 fun rx h => Or.inr (Or.inl ?_)
  cases List.mem_singleton.mp h
  decide

end BT816Display.DiReport
