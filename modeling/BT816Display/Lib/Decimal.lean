import Mathlib.Algebra.Order.Field.Rat
import Mathlib.Data.List.TakeWhile
import Mathlib.Tactic.FieldSimp
import Mathlib.Tactic.Positivity
import Mathlib.Tactic.Ring
import Mathlib.Tactic.Zify

/-!
# Decimal texts

What a conversion of printf writes, and the number that a text denotes: an
optional minus sign, digits, and optionally a point with digits behind it. A
text with anything else in it, a blank or a second sign say, denotes none.
-/

namespace BT816Display.Decimal

/-- The conversion %d. -/
def printD (n : ℤ) : List Char :=
  if n<0 then '-'::Nat.toDigits 10 n.natAbs else Nat.toDigits 10 n.natAbs

/-- The conversion %d with a field width: blanks to the left. -/
def printWidth (w : ℕ) (n : ℤ) : List Char :=
  List.replicate (w-(printD n).length) ' '++printD n

/-- printf for formats of the conversions %d and %d with a width of one digit. -/
def printf : List Char → List ℤ → List Char
  | '%':: 'd'::format,n::args => printD n++printf format args
  | '%'::c:: 'd'::format,n::args => printWidth (c.toNat-48) n++printf format args
  | c::format,args => c::printf format args
  | [],_ => []

/-- The number of a digit string. -/
def natValue (cs : List Char) : Option ℕ :=
  if cs≠[] ∧ cs.all Char.isDigit then some (Nat.ofDigitChars 10 cs 0) else none

/-- The number of a numeral without sign. -/
def denoteUnsigned (cs : List Char) : Option ℚ :=
  let whole := natValue (cs.takeWhile (·≠ '.'))
  match cs.dropWhile (·≠ '.') with
  | [] => whole.map fun n : ℕ => (n : ℚ)
  | _::fraction =>
    whole.bind fun n => (natValue fraction).map fun f : ℕ => (n : ℚ)+f/10^fraction.length

/-- The number that a text denotes. -/
def denote : List Char → Option ℚ
  | '-'::cs => (denoteUnsigned cs).map fun q => -q
  | cs => denoteUnsigned cs

/-! ## Digits -/

/-- The digits of a number denote it. -/
theorem natValue_toDigits (n : ℕ) : natValue (Nat.toDigits 10 n)=some n := by
  have hall : (Nat.toDigits 10 n).all Char.isDigit := by
    rw [List.all_eq_true]
    exact fun c hc => Nat.isDigit_of_mem_toDigits (by decide) (by decide) hc
  rw [natValue,if_pos ⟨Nat.toDigits_ne_nil,hall⟩,Nat.ofDigitChars_ten_toDigits]

/-- A text with another character is no digit string. -/
theorem natValue_of_not_digit {cs : List Char} {c : Char} (hc : c∈cs) (h : c.isDigit=false) :
    natValue cs=none := by
  refine if_neg fun hd => ?_
  have hdigit := List.all_eq_true.mp hd.2 c hc
  rw [h] at hdigit
  exact absurd hdigit (by decide)

/-- A digit is no point. -/
theorem ne_point_of_isDigit {c : Char} (h : c.isDigit) : c≠ '.' := by
  rintro rfl
  exact absurd h (by decide)

/-- A field is a digit string exactly when the number is not negative and fills
the field with digits. -/
theorem natValue_printWidth {w : ℕ} (hw : 0<w) (n : ℤ) :
    natValue (printWidth w n)=
      if 0≤n ∧ (w=1 ∨ 10^(w-1)≤n.natAbs) then some n.natAbs else none := by
  by_cases hn : n<0
  · have hminus : '-'∈printWidth w n := by simp [printWidth,printD,hn]
    rw [natValue_of_not_digit hminus (by decide),if_neg (by omega)]
  have hprint : printD n=Nat.toDigits 10 n.natAbs := if_neg hn
  have hlen : w≤(Nat.toDigits 10 n.natAbs).length ↔ w=1 ∨ 10^(w-1)≤n.natAbs := by
    by_cases h1 : w=1
    · have hpos := Nat.length_toDigits_pos (b:=10) (n:=n.natAbs)
      simp [h1]
      omega
    · have h := Nat.length_toDigits_le_iff (b:=10) (n:=n.natAbs) (k:=w-1) (by decide) (by omega)
      simp only [h1,false_or]
      omega
  by_cases hfill : w=1 ∨ 10^(w-1)≤n.natAbs
  · have hw' := hlen.mpr hfill
    rw [if_pos ⟨by omega,hfill⟩,printWidth,hprint,Nat.sub_eq_zero_of_le hw',List.replicate_zero,
      List.nil_append,natValue_toDigits]
  · have hshort : (Nat.toDigits 10 n.natAbs).length<w := by
      by_contra hge
      exact hfill (hlen.mp (by omega))
    have hblank : ' '∈printWidth w n := by
      rw [printWidth,hprint]
      apply List.mem_append_left
      rw [List.mem_replicate]
      exact ⟨by omega,rfl⟩
    rw [natValue_of_not_digit hblank (by decide),if_neg fun h => hfill h.2]

/-- A filled field of a number that fits has the width of the field. -/
theorem printWidth_length {w : ℕ} {n : ℤ} (hw : 0<w) (hn : 0≤n) (h : n.natAbs<10^w) :
    (printWidth w n).length=w := by
  have hprint : printD n=Nat.toDigits 10 n.natAbs := if_neg (by omega)
  have hlen := (Nat.length_toDigits_le_iff (b:=10) (by decide) hw).mpr h
  rw [printWidth,hprint,List.length_append,List.length_replicate]
  omega

/-! ## Numerals -/

theorem digits_takeWhile (n : ℕ) (cs : List Char) :
    (Nat.toDigits 10 n++ '.'::cs).takeWhile (·≠ '.')=Nat.toDigits 10 n := by
  rw [List.takeWhile_append_of_pos]
  · simp
  · intro c hc
    simpa using ne_point_of_isDigit (Nat.isDigit_of_mem_toDigits (by decide) (by decide) hc)

theorem digits_dropWhile (n : ℕ) (cs : List Char) :
    (Nat.toDigits 10 n++ '.'::cs).dropWhile (·≠ '.')= '.'::cs := by
  rw [List.dropWhile_append_of_pos]
  · simp
  · intro c hc
    simpa using ne_point_of_isDigit (Nat.isDigit_of_mem_toDigits (by decide) (by decide) hc)

/-- The number in front of a point and the digits behind it. -/
theorem denoteUnsigned_point (n : ℕ) (cs : List Char) :
    denoteUnsigned (Nat.toDigits 10 n++ '.'::cs)=
      (natValue cs).map fun f : ℕ => (n : ℚ)+f/10^cs.length := by
  rw [denoteUnsigned,digits_takeWhile,digits_dropWhile,natValue_toDigits]
  rfl

/-- A text that starts with a digit has no sign. -/
theorem denote_digits_append (n : ℕ) (cs : List Char) :
    denote (Nat.toDigits 10 n++cs)=denoteUnsigned (Nat.toDigits 10 n++cs) := by
  cases hd : Nat.toDigits 10 n with
  | nil => exact absurd hd Nat.toDigits_ne_nil
  | cons c tail =>
    have hdigit : c.isDigit :=
      Nat.isDigit_of_mem_toDigits (b:=10) (n:=n) (by decide) (by decide) (hd ▸ List.mem_cons_self)
    have hminus : c≠ '-' := by
      rintro rfl
      exact absurd hdigit (by decide)
    rw [List.cons_append]
    unfold denote
    split
    case h_1 he => exact absurd (List.cons.inj he).1 hminus
    case h_2 => rfl

/-- %d denotes its argument. -/
theorem denote_printD (i : ℤ) : denote (printD i)=some (i : ℚ) := by
  have hdigits : ∀ n : ℕ,denoteUnsigned (Nat.toDigits 10 n)=some (n : ℚ) := by
    intro n
    have hpoint : ∀ c∈Nat.toDigits 10 n,decide (c≠ '.')=true := fun c hc => by
      simpa using ne_point_of_isDigit (Nat.isDigit_of_mem_toDigits (by decide) (by decide) hc)
    rw [denoteUnsigned,List.takeWhile_eq_self_iff.mpr hpoint,List.dropWhile_eq_nil_iff.mpr hpoint,
      natValue_toDigits]
    rfl
  unfold printD
  split
  case isTrue h =>
    have habs : ((i.natAbs : ℤ) : ℚ)=((-i : ℤ) : ℚ) := by
      congr 1
      omega
    rw [denote,hdigits,Option.map_some,← Int.cast_natCast,habs,Int.cast_neg,neg_neg]
  case isFalse h =>
    have habs : (i.natAbs : ℤ)=i := by omega
    have hd := denote_digits_append i.natAbs []
    rw [List.append_nil,hdigits,← Int.cast_natCast,habs] at hd
    exact hd

/-- %d, a point and a text. -/
theorem denote_printD_point (i : ℤ) (cs : List Char) :
    denote (printD i++ '.'::cs)=(natValue cs).map fun f : ℕ =>
      if i<0 then -((i.natAbs : ℚ)+f/10^cs.length) else (i.natAbs : ℚ)+f/10^cs.length := by
  unfold printD
  split
  case isTrue h =>
    rw [List.cons_append,denote,denoteUnsigned_point,Option.map_map]
    rfl
  case isFalse h => rw [denote_digits_append,denoteUnsigned_point]

/-- The quotient and the remainder of a number by a power of ten, printed with a
point between them, denote the fixed-point number exactly when the remainder
is not negative and fills its field. -/
theorem denote_fixed_iff {w : ℕ} (hw : 0<w) (v : ℤ) :
    denote (printD (v.tdiv (10^w))++ '.'::printWidth w (v.tmod (10^w)))=some ((v : ℚ)/10^w) ↔
      0≤v.tmod (10^w) ∧ (w=1 ∨ 10^(w-1)≤(v.tmod (10^w)).natAbs) := by
  have hp : (0 : ℤ)<10^w := by positivity
  rw [denote_printD_point,natValue_printWidth hw]
  constructor
  · intro h
    by_contra hne
    rw [if_neg hne] at h
    exact absurd h (by simp)
  · intro hf
    have hsplit := Int.tmod_add_mul_tdiv v (10^w)
    have hlt : (v.tmod (10^w)).natAbs<10^w := by
      have h := Int.tmod_lt_of_pos v hp
      zify
      rw [abs_of_nonneg hf.1]
      exact h
    have hlen := printWidth_length hw hf.1 hlt
    have hrem : ((v.tmod (10^w)).natAbs : ℚ)=((v.tmod (10^w) : ℤ) : ℚ) := by
      rw [← Int.cast_natCast,Int.natAbs_of_nonneg hf.1]
    have hv : (v : ℚ)=((v.tmod (10^w) : ℤ) : ℚ)+10^w*((v.tdiv (10^w) : ℤ) : ℚ) := by
      exact_mod_cast hsplit.symm
    rw [if_pos hf,Option.map_some,hlen,Option.some.injEq,hrem]
    split
    case isTrue hneg =>
      -- A negative number with a remainder that is not negative has remainder zero.
      have hzero : v.tmod (10^w)=0 := by
        have hvneg : v<0 := by
          by_contra hge
          have := Int.tdiv_nonneg (by omega : 0≤v) hp.le
          omega
        have hneg := Int.tmod_nonneg (10^w) (by omega : 0 ≤ -v)
        rw [Int.neg_tmod] at hneg
        omega
      have habs : ((v.tdiv (10^w)).natAbs : ℚ)= -((v.tdiv (10^w) : ℤ) : ℚ) := by
        rw [← Int.cast_natCast,← Int.cast_neg]
        congr 1
        omega
      rw [hv,hzero,habs]
      field_simp
      simp
    case isFalse hpos =>
      have habs : ((v.tdiv (10^w)).natAbs : ℚ)=((v.tdiv (10^w) : ℤ) : ℚ) := by
        rw [← Int.cast_natCast,Int.natAbs_of_nonneg (by omega)]
      rw [hv,habs]
      field_simp
      ring

end BT816Display.Decimal
