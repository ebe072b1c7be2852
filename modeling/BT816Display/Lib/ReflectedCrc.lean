import Mathlib.Data.BitVec
import Mathlib.Data.List.GetD

/-!
# Reflected cyclic redundancy checks

A register of any width that is shifted to its low end. The bit that leaves
it feeds a polynomial back, and the input enters at the low end. The shift is
linear, and with the highest bit in the polynomial it loses nothing, so an
error that fits into the register cannot vanish from it.
-/

namespace BT816Display.ReflectedCrc

variable {w : ℕ} (poly : BitVec w)

/-- One shift of the register. -/
def shift (c : BitVec w) : BitVec w := if c.getLsbD 0 then (c>>>1)^^^poly else c>>>1

/-- A byte enters the register, and eight shifts take it in. -/
def feedByte (c : BitVec w) (byte : UInt8) : BitVec w :=
  (shift poly)^[8] (c^^^byte.toBitVec.setWidth w)

/-- The register behind some bytes. -/
def crc (init : BitVec w) (bytes : List UInt8) : BitVec w := bytes.foldl (feedByte poly) init

/-- One bit enters the register, and one shift takes it in. -/
def feedBit (c : BitVec w) (bit : Bool) : BitVec w :=
  shift poly (c^^^(BitVec.ofBool bit).setWidth w)

/-- The bits of some bytes, those of each byte from the lowest on. -/
def bits (bytes : List UInt8) : List Bool :=
  bytes.flatMap fun byte => (List.range 8).map byte.toBitVec.getLsbD

/-- Every byte gives eight bits. -/
theorem length_bits (bytes : List UInt8) : (bits bytes).length=8*bytes.length := by
  unfold bits
  rw [List.length_flatMap]
  simp [Nat.mul_comm]

/-- Bytes are told apart by their bits. -/
theorem bits_inj {xs ys : List UInt8} (hlen : xs.length=ys.length) (h : bits xs=bits ys) :
    xs=ys := by
  induction xs generalizing ys with
  | nil => exact (List.eq_nil_of_length_eq_zero hlen.symm).symm
  | cons x xs ih =>
    cases ys with
    | nil => exact absurd hlen nofun
    | cons y ys =>
      have hchunk : ((List.range 8).map x.toBitVec.getLsbD).length=
          ((List.range 8).map y.toBitVec.getLsbD).length := by
        rw [List.length_map,List.length_map]
      obtain ⟨hbyte,hrest⟩ := List.append_inj h hchunk
      have hxy : x=y := by
        apply UInt8.toBitVec_inj.mp
        apply BitVec.eq_of_getLsbD_eq
        intro i hi
        exact List.map_inj_left.mp hbyte i (List.mem_range.mpr hi)
      rw [hxy,ih (Nat.succ.inj hlen) hrest]

/-! ## The shift is linear -/

/-- The shift is additive. -/
theorem shift_xor (a b : BitVec w) : shift poly (a^^^b)=shift poly a^^^shift poly b := by
  unfold shift
  rw [BitVec.getLsbD_xor,BitVec.ushiftRight_xor_distrib]
  cases a.getLsbD 0 <;> cases b.getLsbD 0
  case false.false => rfl
  case false.true => exact BitVec.xor_assoc _ _ _
  case true.false =>
    have hcomm : (a>>>1)^^^(b>>>1)^^^poly=(a>>>1)^^^poly^^^(b>>>1) := by ac_rfl
    exact hcomm
  case true.true =>
    have hcancel : (a>>>1)^^^poly^^^((b>>>1)^^^poly)=(a>>>1)^^^(b>>>1)^^^(poly^^^poly) := by
      ac_rfl
    rw [if_pos rfl,if_pos rfl,hcancel,BitVec.xor_self,BitVec.xor_zero]
    rfl

/-- The shift keeps zero. -/
theorem shift_zero : shift poly 0=0 := by
  have h := shift_xor poly 0 0
  rwa [BitVec.xor_self,BitVec.xor_self] at h

/-- So is any number of shifts. -/
theorem iterate_shift_xor (n : ℕ) (a b : BitVec w) :
    (shift poly)^[n] (a^^^b)=(shift poly)^[n] a^^^(shift poly)^[n] b := by
  induction n generalizing a b with
  | zero => rfl
  | succ n ih =>
    simp only [Function.iterate_succ_apply]
    rw [shift_xor,ih]

/-- A register whose lowest bits are clear moves down unchanged. -/
theorem iterate_shift_shiftLeft (n : ℕ) {x : BitVec w} (h : x.toNat*2^n<2^w) :
    (shift poly)^[n] (x<<<n)=x := by
  induction n with
  | zero => exact BitVec.shiftLeft_zero x
  | succ n ih =>
    have hpow : x.toNat*2^(n+1)=x.toNat*2^n*2 := by rw [pow_succ,Nat.mul_assoc]
    have hnat : (x<<<(n+1)).toNat=x.toNat*2^n*2 := by
      rw [BitVec.toNat_shiftLeft,Nat.shiftLeft_eq,Nat.mod_eq_of_lt h,hpow]
    have hnat' : (x<<<n).toNat=x.toNat*2^n := by
      rw [BitVec.toNat_shiftLeft,Nat.shiftLeft_eq,Nat.mod_eq_of_lt (by omega)]
    have hlow : (x<<<(n+1)).getLsbD 0=false := by
      rw [BitVec.getLsbD,hnat,Nat.testBit_zero]
      exact decide_eq_false (by omega)
    have hone : shift poly (x<<<(n+1))=x<<<n := by
      unfold shift
      rw [hlow,if_neg Bool.false_ne_true]
      apply BitVec.eq_of_toNat_eq
      rw [BitVec.toNat_ushiftRight,hnat,hnat',Nat.shiftRight_eq_div_pow]
      omega
    rw [Function.iterate_succ_apply,hone]
    exact ih (by omega)

/-! ## Bits one after another -/

/-- The register that holds some bits, the first of them lowest. -/
def pack : List Bool → BitVec w
  | [] => 0
  | bit::bs => (BitVec.ofBool bit).setWidth w^^^(pack bs<<<1)

/-- The bits of a packed list are the list's. -/
theorem getLsbD_pack (bs : List Bool) (i : ℕ) :
    (pack bs : BitVec w).getLsbD i=(decide (i<w) && bs.getD i false) := by
  induction bs generalizing i with
  | nil => simp [pack]
  | cons bit bs ih =>
    rw [pack,BitVec.getLsbD_xor,BitVec.getLsbD_setWidth,BitVec.getLsbD_shiftLeft,ih]
    cases i with
    | zero => simp
    | succ i =>
      by_cases hi : i+1<w
      · have hi' : i<w := by omega
        simp [hi,hi']
      · simp [hi]

/-- A packed list of n bits is below 2^n. -/
theorem pack_lt (bs : List Bool) : (pack bs : BitVec w).toNat<2^bs.length := by
  apply Nat.lt_pow_two_of_testBit
  intro i hi
  rw [BitVec.testBit_toNat,getLsbD_pack,List.getD_eq_default _ _ hi,Bool.and_false]

/-- Bits that fit into the register enter it like a register of these bits. -/
theorem foldl_feedBit {bs : List Bool} (h : bs.length≤w) (c : BitVec w) :
    bs.foldl (feedBit poly) c=(shift poly)^[bs.length] (c^^^pack bs) := by
  induction bs generalizing c with
  | nil => exact (BitVec.xor_zero (x:=c)).symm
  | cons bit bs ih =>
    rw [List.length_cons] at h
    have hroom : (pack bs : BitVec w).toNat*2^1<2^w := by
      have hlt := pack_lt (w:=w) bs
      have hpow : 2^(bs.length+1)≤2^w := Nat.pow_le_pow_right (by decide) h
      rw [pow_succ] at hpow
      omega
    have hpack : shift poly (pack bs<<<1)=pack bs := iterate_shift_shiftLeft poly 1 hroom
    rw [List.foldl_cons,ih (by omega),List.length_cons,Function.iterate_succ_apply,pack,
      ←BitVec.xor_assoc,shift_xor,hpack]
    rfl

/-- Feeding a zero is a bare shift. -/
theorem feedBit_false (c : BitVec w) : feedBit poly c false=shift poly c := by
  have hbit : (BitVec.ofBool false).setWidth w=0 := BitVec.setWidth_zero w 1
  rw [feedBit,hbit]
  exact congrArg _ BitVec.xor_zero

/-- Bits that are clear shift the register only. -/
theorem foldl_feedBit_false {bs : List Bool} (h : true∉bs) (c : BitVec w) :
    bs.foldl (feedBit poly) c=(shift poly)^[bs.length] c := by
  induction bs generalizing c with
  | nil => rfl
  | cons bit bs ih =>
    obtain ⟨hbit,hbs⟩ := not_or.mp (mt List.mem_cons.mpr h)
    rw [List.foldl_cons,ih hbs,Bool.eq_false_of_not_eq_true (Ne.symm hbit)]
    exact congrArg _ (feedBit_false poly c)

/-- The registers of two inputs differ by the register of their difference. -/
theorem foldl_feedBit_xor (as bs : List Bool) (h : as.length=bs.length) (c d : BitVec w) :
    as.foldl (feedBit poly) c^^^bs.foldl (feedBit poly) d=
      (List.zipWith Bool.xor as bs).foldl (feedBit poly) (c^^^d) := by
  induction as generalizing bs c d with
  | nil =>
    rw [List.eq_nil_of_length_eq_zero h.symm]
    rfl
  | cons a as ih =>
    cases bs with
    | nil => exact absurd h nofun
    | cons b bs =>
      have hstep : feedBit poly c a^^^feedBit poly d b=feedBit poly (c^^^d) (Bool.xor a b) := by
        have hbit : (BitVec.ofBool (Bool.xor a b)).setWidth w=
            (BitVec.ofBool a).setWidth w^^^(BitVec.ofBool b).setWidth w := by
          rw [←BitVec.setWidth_xor,BitVec.ofBool_xor_ofBool]
        unfold feedBit
        rw [←shift_xor,hbit]
        exact congrArg _ (by ac_rfl)
      rw [List.foldl_cons,List.foldl_cons,List.zipWith_cons_cons,List.foldl_cons,
        ih bs (Nat.succ.inj h),hstep]

/-- A byte is taken in bit by bit. -/
theorem feedByte_eq (hw : 8≤w) (c : BitVec w) (byte : UInt8) :
    feedByte poly c byte=((List.range 8).map byte.toBitVec.getLsbD).foldl (feedBit poly) c := by
  have hpack : pack ((List.range 8).map byte.toBitVec.getLsbD)=byte.toBitVec.setWidth w := by
    apply BitVec.eq_of_getLsbD_eq
    intro i hi
    rw [getLsbD_pack,BitVec.getLsbD_setWidth]
    by_cases h8 : i<8
    · simp [h8]
    · have hnone : byte.toBitVec.getLsbD i=false := BitVec.getLsbD_of_ge _ _ (by omega)
      rw [hnone]
      simp [h8]
  rw [foldl_feedBit poly (by rw [List.length_map,List.length_range]; exact hw),hpack]
  rfl

/-- The register takes the bytes in bit by bit. -/
theorem crc_eq (hw : 8≤w) (init : BitVec w) (bytes : List UInt8) :
    crc poly init bytes=(bits bytes).foldl (feedBit poly) init := by
  unfold crc
  induction bytes generalizing init with
  | nil => rfl
  | cons byte bytes ih =>
    rw [List.foldl_cons,ih,feedByte_eq poly hw,←List.foldl_append]
    rfl

/-! ## The shift loses nothing -/

section Lossless

variable {poly} (hpoly : poly.getLsbD (w-1)=true)

include hpoly

/-- The highest bit of a shifted register tells the bit that has left it. -/
theorem shift_eq_zero {c : BitVec w} (h : shift poly c=0) : c=0 := by
  unfold shift at h
  split at h
  case isTrue hlow =>
    have hw : 0<w := BitVec.lt_of_getLsbD hlow
    have hbit := congrArg (fun x : BitVec w => x.getLsbD (w-1)) h
    have hnone : c.getLsbD (1+(w-1))=false := BitVec.getLsbD_of_ge _ _ (by omega)
    rw [BitVec.getLsbD_xor,BitVec.getLsbD_ushiftRight,hnone,hpoly] at hbit
    exact absurd hbit (by simp)
  case isFalse hlow =>
    apply BitVec.eq_of_getLsbD_eq
    intro i _
    have hzero (j : ℕ) : (0 : BitVec w).getLsbD j=false := BitVec.getLsbD_zero
    rw [hzero]
    cases i with
    | zero => exact Bool.eq_false_of_not_eq_true hlow
    | succ i =>
      have hbit := congrArg (fun x : BitVec w => x.getLsbD i) h
      rw [hzero,BitVec.getLsbD_ushiftRight,Nat.add_comm] at hbit
      exact hbit

/-- The shift loses no state, so only zero is shifted to zero. -/
theorem iterate_shift_eq_zero {n : ℕ} {c : BitVec w} (h : (shift poly)^[n] c=0) : c=0 := by
  induction n generalizing c with
  | zero => exact h
  | succ n ih => exact shift_eq_zero hpoly (ih h)

/-- Errors that fit into the register do not vanish in it. -/
theorem foldl_feedBit_ne_zero {bs : List Bool} (h : bs.length≤w) (herror : true∈bs) :
    bs.foldl (feedBit poly) 0≠0 := by
  rw [foldl_feedBit poly h]
  intro hzero
  obtain ⟨i,hi,hbit⟩ := List.mem_iff_getElem.mp herror
  have hpack := congrArg (fun x : BitVec w => x.getLsbD i) (iterate_shift_eq_zero hpoly hzero)
  rw [BitVec.getLsbD_xor,getLsbD_pack,List.getD_eq_getElem _ _ hi,hbit] at hpack
  simp [(by omega : i<w)] at hpack

/-- Errors within a window of the register's width do not vanish, whatever is
in front of the window and behind it. -/
theorem foldl_feedBit_window {bs : List Bool} {k : ℕ} (herror : true∈bs)
    (hwindow : ∀ i,bs[i]?=some true → k ≤ i ∧ i<k+w) : bs.foldl (feedBit poly) 0≠0 := by
  induction bs generalizing k with
  | nil => exact absurd herror List.not_mem_nil
  | cons bit bs ih =>
    cases bit with
    | false =>
      -- a register of zeros stays as it is
      have hzero : feedBit poly 0 false=0 := (feedBit_false poly 0).trans (shift_zero poly)
      rw [List.foldl_cons,hzero]
      refine ih (k:=k-1) ((List.mem_cons.mp herror).resolve_left nofun) fun i hi => ?_
      have h := hwindow (i+1) hi
      omega
    | true =>
      obtain ⟨hk,hpos⟩ := hwindow 0 rfl
      have hrest : true∉(true::bs).drop w := by
        intro hmem
        obtain ⟨j,hj⟩ := List.mem_iff_getElem?.mp hmem
        rw [List.getElem?_drop] at hj
        have h := hwindow (w+j) hj
        omega
      have hfirst : true∈(true::bs).take w := by
        obtain ⟨v,rfl⟩ : ∃ v,w=v+1 := ⟨w-1,by omega⟩
        exact List.mem_cons_self
      intro hzero
      rw [←List.take_append_drop w (true::bs),List.foldl_append,
        foldl_feedBit_false poly hrest] at hzero
      exact foldl_feedBit_ne_zero hpoly (List.length_take_le w _) hfirst
        (iterate_shift_eq_zero hpoly hzero)

/-- Inputs of one length whose differing bits lie in a window of the
register's width leave different registers. -/
theorem crc_ne_of_window (hw : 8≤w) (init : BitVec w) {xs ys : List UInt8} {k : ℕ}
    (hlen : xs.length=ys.length) (hne : xs≠ys)
    (hwindow : ∀ i,(bits xs)[i]?≠(bits ys)[i]? → k ≤ i ∧ i<k+w) :
    crc poly init xs≠crc poly init ys := by
  have hbits : (bits xs).length=(bits ys).length := by rw [length_bits,length_bits,hlen]
  have hdiff (i : ℕ) : (List.zipWith Bool.xor (bits xs) (bits ys))[i]?=some true ↔
      (bits xs)[i]?≠(bits ys)[i]? := by
    rw [List.getElem?_zipWith]
    by_cases hi : i<(bits xs).length
    · rw [List.getElem?_eq_getElem hi,List.getElem?_eq_getElem (hbits ▸ hi)]
      simp
    · rw [List.getElem?_eq_none (by omega),List.getElem?_eq_none (by omega)]
      simp
  have herror : true∈List.zipWith Bool.xor (bits xs) (bits ys) := by
    obtain ⟨i,hi⟩ := not_forall.mp fun h => hne (bits_inj hlen (List.ext_getElem? h))
    exact List.mem_iff_getElem?.mpr ⟨i,(hdiff i).mpr hi⟩
  intro heq
  have hzero := foldl_feedBit_xor poly (bits xs) (bits ys) hbits init init
  rw [←crc_eq poly hw,←crc_eq poly hw,heq,BitVec.xor_self,BitVec.xor_self] at hzero
  exact foldl_feedBit_window hpoly herror (fun i hi => hwindow i ((hdiff i).mp hi)) hzero.symm

end Lossless

end BT816Display.ReflectedCrc
