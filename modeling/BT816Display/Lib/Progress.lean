import Mathlib.Tactic.Ring

/-!
# Progress by turns

A count that never falls and a rank: in every turn the count rises, or the
rank falls. With a bound on the rank behind every rise the count rises at a
known pace.
-/

namespace BT816Display.Progress

variable {σ : Type*} {count rank : σ → ℕ} {R goal : ℕ}

/-- A turn in which the count rises, or stays and the rank falls. -/
def Advances (count rank : σ → ℕ) (R : ℕ) (s s' : σ) : Prop :=
  count s<count s' ∧ rank s' ≤ R ∨ count s ≤ count s' ∧ rank s' < rank s

/-- An advance never lowers the count. -/
theorem Advances.mono {s s' : σ} (h : Advances count rank R s s') : count s ≤ count s' := by
  rcases h with h|h
  · exact h.1.le
  · exact h.1

/-- A count that never falls. -/
theorem count_le {f : ℕ → σ} {N : ℕ} (h : ∀ k<N,count (f k) ≤ count (f (k+1))) :
    count (f 0) ≤ count (f N) := by
  induction N with
  | zero => exact le_rfl
  | succ N ih => exact (ih fun k hk => h k (by omega)).trans (h N (by omega))

/-- The first rise takes at most one turn more than the rank, every other one
at most one more than the bound. -/
theorem count_after {f : ℕ → σ} {N : ℕ} (hmono : ∀ k<N,count (f k) ≤ count (f (k+1)))
    (h : ∀ k<N,count (f k)<goal → Advances count rank R (f k) (f (k+1))) {n : ℕ}
    (hN : rank (f 0)+1+(R+1)*n ≤ N) : min goal (count (f 0)+(n+1)) ≤ count (f N) := by
  induction N generalizing f n with
  | zero => omega
  | succ N ih =>
    have htail : ∀ k<N,count (f (k+1)) ≤ count (f (k+1+1)) := fun k hk => hmono (k+1) (by omega)
    have hrest {n : ℕ} (hn : rank (f 1)+1+(R+1)*n ≤ N) :
        min goal (count (f 1)+(n+1)) ≤ count (f (N+1)) :=
      ih (f:=fun k => f (k+1)) htail (fun k hk => h (k+1) (by omega)) hn
    have hend : count (f 1) ≤ count (f (N+1)) := count_le (f:=fun k => f (k+1)) htail
    have hstart : count (f 0) ≤ count (f 1) := hmono 0 (by omega)
    by_cases hgoal : count (f 0)<goal
    · have hturn : Advances count rank R (f 0) (f 1) := h 0 (by omega) hgoal
      rcases hturn with ⟨hrise,hbound⟩|⟨hkeep,hfall⟩
      · cases n with
        | zero => omega
        | succ n =>
          have hn : rank (f 1)+1+(R+1)*n ≤ N := by
            rw [Nat.mul_succ] at hN
            omega
          have hcount := hrest hn
          omega
      · have hcount := hrest (n:=n) (by omega)
        omega
    · omega

end BT816Display.Progress
