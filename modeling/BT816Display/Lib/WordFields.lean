import Mathlib.Data.UInt
import Mathlib.Tactic.ByContra

/-!
# Fields of a 32-bit word

A word packed by or from shifted fields: two masks of one operand under the
same opcode, flags, and arguments of 8 and 16 bits widened before or after
they are masked.
-/

namespace BT816Display.WordFields

/-- One bit under two masks. -/
theorem bit_or_and_inj : ∀ o v m n : Bool,
    (o||(v&&m))=(o||(v&&n)) ↔ (v&&((m^^n)&&!o))=false := by
  decide

/-- Two masks of one operand give the same word exactly when the operand is
clear in every bit that only one mask keeps and the opcode does not set. -/
theorem or_and_inj (o v m n : UInt32) :
    o|||(v&&&m)=o|||(v&&&n) ↔ v&&&((m^^^n)&&&~~~o)=0 := by
  simp only [← UInt32.toBitVec_inj,UInt32.toBitVec_or,UInt32.toBitVec_and,UInt32.toBitVec_xor,
    UInt32.toBitVec_not,UInt32.toBitVec_zero,BitVec.eq_of_getLsbD_eq_iff]
  refine forall_congr' fun i => forall_congr' fun hi => ?_
  simp only [BitVec.getLsbD_or,BitVec.getLsbD_and,BitVec.getLsbD_xor,BitVec.getLsbD_not,
    BitVec.getLsbD_zero,hi,decide_true,Bool.true_and]
  exact bit_or_and_inj _ _ _ _

/-- A mask of the lowest bits keeps a word that has no others. -/
theorem and_mask_of_lt (k : ℕ) {x m : UInt32} (hm : m.toNat=2^k-1) (hx : x.toNat<2^k) :
    x&&&m=x := by
  apply UInt32.toNat_inj.mp
  rw [UInt32.toNat_and,hm,Nat.and_two_pow_sub_one_eq_mod,Nat.mod_eq_of_lt hx]

/-- A mask of the lowest bits leaves the remainder. -/
theorem toNat_and_mask (k : ℕ) {x m : UInt32} (hm : m.toNat=2^k-1) :
    (x&&&m).toNat=x.toNat%2^k := by
  rw [UInt32.toNat_and,hm,Nat.and_two_pow_sub_one_eq_mod]

/-- Above a smaller word a word with its lowest bits clear is added. -/
theorem toNat_or_of_lt (k : ℕ) {x y : UInt32} (hx : x.toNat%2^k=0) (hy : y.toNat<2^k) :
    (x|||y).toNat=x.toNat+y.toNat := by
  have hquot := Nat.mul_div_cancel' (Nat.dvd_of_mod_eq_zero hx)
  rw [UInt32.toNat_or,←hquot,Nat.two_pow_add_eq_or_of_lt hy]

/-- A byte is kept by the mask of its width. -/
@[simp] theorem byte_and_mask (x : UInt8) : x.toUInt32&&&255=x.toUInt32 :=
  and_mask_of_lt 8 rfl x.toNat_lt

/-- A half-word is kept by the mask of its width. -/
@[simp] theorem half_and_mask (x : UInt16) : x.toUInt32&&&65535=x.toUInt32 :=
  and_mask_of_lt 16 rfl x.toNat_lt

/-- A half-word is kept by the mask one bit wider. -/
@[simp] theorem half_and_wider (x : UInt16) : x.toUInt32&&&131071=x.toUInt32 :=
  and_mask_of_lt 17 rfl (x.toNat_lt.trans (by decide))

/-- The two lowest bits of a word. -/
theorem and_three_toNat (x : UInt32) : (x&&&3).toNat=x.toNat%4 := by
  rw [UInt32.toNat_and]
  exact Nat.and_two_pow_sub_one_eq_mod x.toNat 2

/-- Clearing the two lowest bits rounds down to a multiple of four. -/
theorem and_not_three_toNat (x : UInt32) : (x&&&~~~3).toNat=x.toNat/4*4 := by
  have hsplit : x.toNat/4*4=(x.toNat>>>2)<<<2 := by
    rw [Nat.shiftRight_eq_div_pow,Nat.shiftLeft_eq]
  have hmask : (~~~(3 : UInt32)).toNat=(2^30-1)<<<2 := rfl
  rw [UInt32.toNat_and,hmask,hsplit]
  apply Nat.eq_of_testBit_eq
  intro i
  simp only [Nat.testBit_and,Nat.testBit_shiftLeft,Nat.testBit_two_pow_sub_one,
    Nat.testBit_shiftRight]
  by_cases hi : 2 ≤ i
  · have hback : 2+(i-2)=i := by omega
    rw [hback]
    by_cases h32 : i<32
    · have hlt : i-2<30 := by omega
      simp [hi,hlt]
    · have hhigh : x.toNat.testBit i=false :=
        Nat.testBit_lt_two_pow
          (x.toNat_lt.trans_le (Nat.pow_le_pow_right (by decide) (by omega)))
      simp [hhigh]
  · simp [hi]

end BT816Display.WordFields
