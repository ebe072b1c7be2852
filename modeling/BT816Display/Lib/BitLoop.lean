import Mathlib.Data.Nat.Bitwise
import Mathlib.Tactic.ByContra

/-!
# Loops that set bits

A loop over the bits of a word that sets those with a property, for words of
any width given by their values, and tests of single bits by a mask.
-/

namespace BT816Display.BitLoop

/-- A loop that sets the bits below `n` with a property sets these and no others. -/
theorem testBit_loop {α : Type*} {value : α → ℕ} {set : α → ℕ → α} {n : ℕ}
    (hset : ∀ u i,i<n → value (set u i)=value u|||2^i) (c : ℕ → Prop) [DecidablePred c] (u : α)
    (k : ℕ) :
    (value ((List.range n).foldl (fun u i => if c i then set u i else u) u)).testBit k=
      ((value u).testBit k||decide (k<n ∧ c k)) := by
  induction n with
  | zero => simp
  | succ n ih =>
    have ih := ih fun u i hi => hset u i (by omega)
    rw [List.range_succ,List.foldl_append,List.foldl_cons,List.foldl_nil]
    by_cases hc : c n
    · rw [if_pos hc,hset _ n (by omega),Nat.testBit_or,ih,Nat.testBit_two_pow]
      by_cases hk : n=k
      · subst hk
        simp [hc]
      · have hlt : k<n+1 ↔ k<n := by omega
        simp [hk,hlt]
    · rw [if_neg hc,ih]
      by_cases hk : n=k
      · subst hk
        simp [hc]
      · have hlt : k<n+1 ↔ k<n := by omega
        simp [hlt]

/-- A mask of one bit tests this bit. -/
theorem mask_ne_zero (a i : ℕ) : a&&&2^i≠0 ↔ a.testBit i=true := by
  rw [Nat.and_two_pow]
  cases a.testBit i <;> simp

/-- Two numbers are equal under a mask of one bit exactly when they agree on this bit. -/
theorem mask_inj (a b i : ℕ) : a&&&2^i=b&&&2^i ↔ a.testBit i=b.testBit i := by
  have hpos : 0≠(2 : ℕ)^i := (Nat.two_pow_pos i).ne
  rw [Nat.and_two_pow,Nat.and_two_pow]
  cases a.testBit i <;> cases b.testBit i <;> simp [hpos]

end BT816Display.BitLoop
