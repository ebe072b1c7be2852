import Mathlib.Data.Nat.Bitwise
import Mathlib.Tactic.NormNum

/-!
# Big-endian words as bytes

Splitting shifts and masks a word into bytes, most significant first;
joining shifts and ors them together again. The two are inverse.
-/

namespace BT816Display.BigEndian

/-- The four bytes of a word, most significant first. -/
def split32 (w : UInt32) : List UInt8 :=
  [((w>>>24)&&&0xFF).toUInt8,((w>>>16)&&&0xFF).toUInt8,((w>>>8)&&&0xFF).toUInt8,(w&&&0xFF).toUInt8]

/-- The word of four bytes, most significant first. -/
def join32 (b0 b1 b2 b3 : UInt8) : UInt32 :=
  let w := b0.toUInt32
  let w := (w<<<8)|||b1.toUInt32
  let w := (w<<<8)|||b2.toUInt32
  (w<<<8)|||b3.toUInt32

/-- The two bytes of a half-word, most significant first. -/
def split16 (w : UInt16) : List UInt8 := [((w>>>8)&&&0xFF).toUInt8,(w&&&0xFF).toUInt8]

/-- The half-word of two bytes, most significant first. -/
def join16 (b0 b1 : UInt8) : UInt16 := (b0.toUInt16<<<8)|||b1.toUInt16

@[simp] theorem split32_length (w : UInt32) : (split32 w).length=4 := rfl

@[simp] theorem split16_length (w : UInt16) : (split16 w).length=2 := rfl

/-- Appending a byte below a word that leaves room for it is place value. -/
theorem shift_or_toNat (w : UInt32) (b : UInt8) (h : w.toNat<16777216) :
    ((w<<<8)|||b.toUInt32).toNat=w.toNat*256+b.toNat := by
  have hb := b.toNat_lt
  have hj := Nat.shiftLeft_add_eq_or_of_lt (i:=8) (b:=b.toNat) (by omega) w.toNat
  simp only [Nat.shiftLeft_eq,Nat.reducePow] at hj
  simp [Nat.shiftLeft_eq]
  rw [Nat.mod_eq_of_lt (by omega : w.toNat*256<4294967296),←hj]

/-- The value of four joined bytes. -/
theorem join32_toNat (b0 b1 b2 b3 : UInt8) :
    (join32 b0 b1 b2 b3).toNat=((b0.toNat*256+b1.toNat)*256+b2.toNat)*256+b3.toNat := by
  have h0 := b0.toNat_lt
  have h1 := b1.toNat_lt
  have h2 := b2.toNat_lt
  have hw1 := shift_or_toNat b0.toUInt32 b1 (by rw [UInt8.toNat_toUInt32]; omega)
  rw [UInt8.toNat_toUInt32] at hw1
  have hw2 := shift_or_toNat _ b2 (by rw [hw1]; omega)
  have hw3 := shift_or_toNat _ b3 (by rw [hw2,hw1]; omega)
  dsimp only [join32]
  rw [hw3,hw2,hw1]

/-- Masking by 0xFF keeps the lowest byte. -/
theorem and_255 (n : ℕ) : n&&&255=n%256 := Nat.and_two_pow_sub_one_eq_mod n 8

/-- The value of a masked shifted byte of a word. -/
theorem byte32_toNat (w s : UInt32) (h : s.toNat<32) :
    ((w>>>s)&&&0xFF).toUInt8.toNat=w.toNat/2^s.toNat%256 := by
  simp [Nat.shiftRight_eq_div_pow,Nat.mod_eq_of_lt h,and_255]

/-- Joining the bytes of a word gives the word back. -/
theorem join32_split32 (w : UInt32) :
    join32 ((w>>>24)&&&0xFF).toUInt8 ((w>>>16)&&&0xFF).toUInt8 ((w>>>8)&&&0xFF).toUInt8
      (w&&&0xFF).toUInt8=w := by
  have hw := w.toNat_lt
  have h3 := byte32_toNat w 0 (by decide)
  simp only [UInt32.shiftRight_zero,UInt32.toNat_zero,pow_zero,Nat.div_one] at h3
  have hc24 : (24 : UInt32).toNat=24 := rfl
  have hc16 : (16 : UInt32).toNat=16 := rfl
  have hc8 : (8 : UInt32).toNat=8 := rfl
  apply UInt32.toNat_inj.mp
  rw [join32_toNat,byte32_toNat w 24 (by decide),byte32_toNat w 16 (by decide),
    byte32_toNat w 8 (by decide),h3,hc24,hc16,hc8]
  norm_num
  omega

/-- Splitting four joined bytes gives the bytes back. -/
theorem split32_join32 (b0 b1 b2 b3 : UInt8) : split32 (join32 b0 b1 b2 b3)=[b0,b1,b2,b3] := by
  have h0 := b0.toNat_lt
  have h1 := b1.toNat_lt
  have h2 := b2.toNat_lt
  have h3 := b3.toNat_lt
  have hbyte (s : UInt32) (h : s.toNat<32) : (((join32 b0 b1 b2 b3)>>>s)&&&0xFF).toUInt8.toNat=
      (((b0.toNat*256+b1.toNat)*256+b2.toNat)*256+b3.toNat)/2^s.toNat%256 := by
    rw [byte32_toNat _ s h,join32_toNat]
  have hc24 : (24 : UInt32).toNat=24 := rfl
  have hc16 : (16 : UInt32).toNat=16 := rfl
  have hc8 : (8 : UInt32).toNat=8 := rfl
  have hlow := hbyte 0 (by decide)
  simp only [UInt32.shiftRight_zero,UInt32.toNat_zero,pow_zero,Nat.div_one] at hlow
  unfold split32
  refine congrArg₂ _ (UInt8.toNat_inj.mp ?_) (congrArg₂ _ (UInt8.toNat_inj.mp ?_)
    (congrArg₂ _ (UInt8.toNat_inj.mp ?_) (congrArg₂ _ (UInt8.toNat_inj.mp ?_) rfl)))
  · rw [hbyte 24 (by decide),hc24]
    omega
  · rw [hbyte 16 (by decide),hc16]
    omega
  · rw [hbyte 8 (by decide),hc8]
    omega
  · rw [hlow]
    omega

/-- Joining the bytes of a half-word gives the half-word back. -/
theorem join16_split16 (w : UInt16) :
    join16 ((w>>>8)&&&0xFF).toUInt8 (w&&&0xFF).toUInt8=w := by
  have hw := w.toNat_lt
  have hj := Nat.shiftLeft_add_eq_or_of_lt (i:=8) (b:=w.toNat%256) (by omega) (w.toNat/256%256)
  simp only [Nat.shiftLeft_eq,Nat.reducePow] at hj
  apply UInt16.toNat_inj.mp
  simp [join16,Nat.shiftLeft_eq,Nat.shiftRight_eq_div_pow,and_255]
  rw [Nat.mod_eq_of_lt (by omega : w.toNat/256%256*256<65536),←hj]
  omega

/-- The value of two joined bytes. -/
theorem join16_toNat (b0 b1 : UInt8) : (join16 b0 b1).toNat=b0.toNat*256+b1.toNat := by
  have h0 := b0.toNat_lt
  have h1 := b1.toNat_lt
  have hj := Nat.shiftLeft_add_eq_or_of_lt (i:=8) (b:=b1.toNat) (by omega) b0.toNat
  simp only [Nat.shiftLeft_eq,Nat.reducePow] at hj
  simp [join16,Nat.shiftLeft_eq]
  rw [Nat.mod_eq_of_lt (by omega : b0.toNat*256<65536),←hj]

/-- A half-word survives its two bytes. -/
theorem join16_bytes (w : UInt16) : join16 (w>>>8).toUInt8 w.toUInt8=w := by
  have hw := w.toNat_lt
  have h8 : (8 : UInt16).toNat%16=8 := rfl
  apply UInt16.toNat_inj.mp
  rw [join16_toNat,UInt16.toNat_toUInt8,UInt16.toNat_toUInt8,UInt16.toNat_shiftRight,h8,
    Nat.shiftRight_eq_div_pow]
  omega

/-- The upper one of two joined bytes. -/
theorem join16_high (b0 b1 : UInt8) : (join16 b0 b1>>>8).toUInt8=b0 := by
  have h0 := b0.toNat_lt
  have h1 := b1.toNat_lt
  have h8 : (8 : UInt16).toNat%16=8 := rfl
  apply UInt8.toNat_inj.mp
  rw [UInt16.toNat_toUInt8,UInt16.toNat_shiftRight,h8,join16_toNat,Nat.shiftRight_eq_div_pow]
  omega

/-- The lower one of two joined bytes. -/
theorem join16_low (b0 b1 : UInt8) : (join16 b0 b1).toUInt8=b1 := by
  have h1 := b1.toNat_lt
  apply UInt8.toNat_inj.mp
  rw [UInt16.toNat_toUInt8,join16_toNat]
  omega

end BT816Display.BigEndian
