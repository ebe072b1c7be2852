import BT816Display.Crc
import BT816Display.Lib.ReflectedCrc

/-!
# The shift register behind the tables of crc.c

CRCH is the low byte of a reflected register with the polynomial A001 and
CRCL its high byte. An entry of the tables is what eight shifts make of its
index, so a round of the loop takes one byte into the register.
-/

namespace BT816Display.CrcRegister

open Crc ReflectedCrc

/-- The polynomial x^16+x^15+x^2+1, its highest power in the lowest bit. -/
abbrev poly : BitVec 16 := 0xA001

/-- A register with its two bytes swapped. -/
def swapBytes (c : BitVec 16) : BitVec 16 := (c<<<8)|||(c>>>8)

/-- The register of the pair (CRCH,CRCL). -/
def register (crc : UInt8×UInt8) : BitVec 16 :=
  (crc.2.toBitVec.setWidth 16<<<8)^^^crc.1.toBitVec.setWidth 16

/-- All entries of both tables are what eight shifts make of their index. One
pass over the lists, as a look up for each index walks them again. -/
theorem tables_shift : List.zipWith (fun h l => register (h,l)) crc16H crc16L=
    (List.range 256).map fun i => (shift poly)^[8] (BitVec.ofNat 16 i) := by
  decide +kernel

theorem register_table (i : UInt8) : register (crc16H.getD i.toNat 0,crc16L.getD i.toNat 0)=
    (shift poly)^[8] (i.toBitVec.setWidth 16) := by
  have hi := i.toNat_lt
  have hH : i.toNat<crc16H.length := hi.trans_eq (by decide +kernel)
  have hL : i.toNat<crc16L.length := hi.trans_eq (by decide +kernel)
  have hentry := congrArg (·[i.toNat]?) tables_shift
  rw [List.getElem?_zipWith,List.getElem?_eq_getElem hH,List.getElem?_eq_getElem hL,
    List.getElem?_map,List.getElem?_range hi] at hentry
  rw [List.getD_eq_getElem _ _ hH,List.getD_eq_getElem _ _ hL,Option.some.inj hentry]
  exact congrArg _ (BitVec.ofNat_toNat 16 i.toBitVec)

/-- A round of the table loop takes its byte into the register. -/
theorem register_crcStep (crc : UInt8×UInt8) (byte : UInt8) :
    register (crcStep crc byte)=feedByte poly (register crc) byte := by
  obtain ⟨h,l⟩ := crc
  have hroom : (l.toBitVec.setWidth 16).toNat*2^8<2^16 := by
    have hl := l.toNat_lt
    rw [BitVec.toNat_setWidth,UInt8.toNat_toBitVec]
    omega
  have hindex : register (h,l)^^^byte.toBitVec.setWidth 16=
      (l.toBitVec.setWidth 16<<<8)^^^(h^^^byte).toBitVec.setWidth 16 := by
    rw [register,UInt8.toBitVec_xor,BitVec.setWidth_xor,BitVec.xor_assoc]
  have htable := register_table (h^^^byte)
  rw [feedByte,hindex,iterate_shift_xor,iterate_shift_shiftLeft poly 8 hroom,←htable]
  unfold crcStep register
  dsimp only
  rw [UInt8.toBitVec_xor,BitVec.setWidth_xor]
  ac_rfl

/-- The loop computes the register of all bytes. -/
theorem register_crcBytes (bytes : List UInt8) :
    register (crcBytes bytes)=crc poly 0xFFFF bytes := by
  have hloop (pair : UInt8×UInt8) : register (bytes.foldl crcStep pair)=
      crc poly (register pair) bytes := by
    induction bytes generalizing pair with
    | nil => rfl
    | cons byte bytes ih =>
      rw [List.foldl_cons,ih,register_crcStep]
      rfl
  exact hloop (0xFF,0xFF)

/-- CRCH is above CRCL in the result and below it in the register. -/
theorem join_eq_swapBytes (h l : UInt8) : (h.toUInt32<<<8)|||l.toUInt32=
    UInt32.ofBitVec ((swapBytes (register (h,l))).setWidth 32) := by
  apply UInt32.toBitVec_inj.mp
  apply BitVec.eq_of_getLsbD_eq
  intro i hi
  have hhigh (x : UInt8) {j : ℕ} (hj : 8≤j) : x.toBitVec.getLsbD j=false :=
    BitVec.getLsbD_of_ge _ _ hj
  simp only [swapBytes,register,UInt32.toBitVec_or,UInt32.toBitVec_shiftLeft,
    UInt8.toBitVec_toUInt32]
  rcases Nat.lt_or_ge i 8 with h8|h8
  · have h16 : 8+i<16 := by omega
    have h32 : 8+i<32 := by omega
    have hi16 : i<16 := by omega
    simp [h8,h16,h32,hi16,hi]
  · have hl : l.toBitVec.getLsbD i=false := hhigh l h8
    have hi8 : ¬i<8 := by omega
    rcases Nat.lt_or_ge i 16 with h16|h16
    · have hlow : i-8<8 := by omega
      simp [hl,h16,hlow,hi8,hi]
    · have hi16 : ¬i<16 := by omega
      have hh : h.toBitVec.getLsbD (i-8)=false := hhigh h (by omega)
      simp [hl,hh,hi16]

/-- For every byte sequence the table loop returns the bitwise reflected CRC
of the polynomial A001 from FFFF on, with its two bytes swapped. -/
theorem getCRC16_eq (bytes : List UInt8) :
    getCRC16 bytes=UInt32.ofBitVec ((swapBytes (crc poly 0xFFFF bytes)).setWidth 32) := by
  rw [←register_crcBytes]
  exact join_eq_swapBytes _ _

/-- For all byte sequences of one length that differ, but in bits of one
window of 16 only, the checksums differ. -/
theorem getCRC16_ne_of_burst {xs ys : List UInt8} {k : ℕ} (hlen : xs.length=ys.length)
    (hne : xs≠ys) (hwindow : ∀ i,(bits xs)[i]?≠(bits ys)[i]? → k ≤ i ∧ i<k+16) :
    getCRC16 xs≠getCRC16 ys := by
  intro heq
  have hpair : crcBytes xs=crcBytes ys := by
    apply Prod.ext
    · rw [←getCRC16_hi,heq,getCRC16_hi]
    · rw [←getCRC16_lo,heq,getCRC16_lo]
  have hregister := congrArg register hpair
  rw [register_crcBytes,register_crcBytes] at hregister
  exact crc_ne_of_window rfl (by decide) _ hlen hne hwindow hregister

/-- Two frames of three bytes that differ in their middle byte. -/
theorem getCRC16_ne_middle : getCRC16 [1,2,3]≠getCRC16 [1,0xF4,3] := by
  refine getCRC16_ne_of_burst rfl (by decide) (k:=8) ?_
  intro i hdiff
  have hlow : ∀ j<8,(bits [1,2,3])[j]?=(bits [1,0xF4,3])[j]? := by decide
  refine ⟨Nat.not_lt.mp fun hi => hdiff (hlow i hi),Nat.not_le.mp fun hi => hdiff ?_⟩
  rw [List.getElem?_eq_none,List.getElem?_eq_none]
  · exact hi
  · exact hi

end BT816Display.CrcRegister
