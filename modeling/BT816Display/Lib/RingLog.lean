import BT816Display.Lib.RingQueue
import Mathlib.Data.List.Rotate

/-!
# A ring of slots read forwards

Read once round from the slot to be written next, a ring of `n` slots lists
its last `n` entries in the order they were written. Reading from another
slot rotates the list, and a walk that steps from slot to slot lists a
beginning of it.
-/

namespace BT816Display.RingLog

open RingWindow RingQueue

variable {σ : Type*} {n j k c : ℕ} {slot slot' : ℕ → σ}

/-- Stepping on after `k` steps goes round as modular arithmetic does. -/
theorem ahead_ahead {l : ℕ} (hj : j<n) (hk : k≤n) (hl : l<n) :
    ahead n (ahead n j k) l=ahead n j ((l+k)%n) := by
  have hm : (l+k)%n=if l+k<n then l+k else l+k-n := by
    split
    · exact Nat.mod_eq_of_lt (by omega)
    · rw [Nat.mod_eq_sub_mod (by omega)]
      exact Nat.mod_eq_of_lt (by omega)
  rw [hm]
  unfold ahead
  split <;> split <;> split <;> split <;> omega

/-- The slots once round from slot `j` on. -/
def ringFrom (n : ℕ) (slot : ℕ → σ) (j : ℕ) : List σ :=
  (List.range n).map fun k => slot (ahead n j k)

/-- The ring read from a position has all its slots. -/
@[simp] theorem ringFrom_length : (ringFrom n slot j).length=n := by
  simp only [ringFrom,List.length_map,List.length_range]

/-- Its k-th slot is the one k ahead of the position. -/
@[simp] theorem getElem_ringFrom (h : k<(ringFrom n slot j).length) :
    (ringFrom n slot j)[k]=slot (ahead n j k) := by
  simp only [ringFrom,List.getElem_map,List.getElem_range]

/-- Two rings read the same from one slot on exactly when they agree in every slot. -/
theorem ringFrom_eq_iff (hj : j<n) :
    ringFrom n slot j=ringFrom n slot' j ↔ ∀ i<n,slot i=slot' i := by
  constructor
  · intro h i hi
    have hc : ∀ k<n,slot (ahead n j k)=slot' (ahead n j k) := fun k hk => by
      have he := congrArg (fun l => l[k]?) h
      simpa only [List.getElem?_eq_getElem,ringFrom_length,hk,getElem_ringFrom,
        Option.some.injEq] using he
    by_cases hij : j ≤ i
    · have hs := hc (i-j) (by omega)
      rwa [ahead,if_pos (by omega),Nat.add_sub_cancel' hij] at hs
    · have hs := hc (i+n-j) (by omega)
      rwa [ahead,if_neg (by omega),show j+(i+n-j)-n=i by omega] at hs
  · intro h
    exact List.map_congr_left fun k hk => h _ (ahead_lt hj (List.mem_range.mp hk))

/-- Writing the next slot drops the oldest entry and appends the new one. -/
theorem ringFrom_write {r : σ} (hj : j<n) (hr : slot' j=r)
    (hs : ∀ i<n,i≠j → slot' i=slot i) :
    ringFrom n slot' (next n j)=(ringFrom n slot j).tail++[r] := by
  apply List.ext_getElem
  · simp only [List.length_append,List.length_tail,ringFrom_length,List.length_singleton]
    omega
  · intro k hk _
    rw [ringFrom_length] at hk
    rw [getElem_ringFrom,ahead_next hj hk]
    by_cases hl : k+1<n
    · rw [List.getElem_append_left (by rw [List.length_tail,ringFrom_length]; omega),
        List.getElem_tail,getElem_ringFrom]
      refine hs _ (ahead_lt hj hl) fun hround => ?_
      exact absurd (ahead_inj hl (by omega) (hround.trans (ahead_zero hj).symm)) k.succ_ne_zero
    · rw [List.getElem_append_right (by rw [List.length_tail,ringFrom_length]; omega),
        List.getElem_singleton]
      rw [show k+1=n by omega,ahead_self,hr]

/-- Reading from `k` slots ahead rotates the list. -/
theorem ringFrom_ahead (hj : j<n) (hk : k≤n) :
    ringFrom n slot (ahead n j k)=(ringFrom n slot j).rotate k := by
  apply List.ext_getElem
  · simp only [List.length_rotate,ringFrom_length]
  · intro l hl _
    rw [ringFrom_length] at hl
    rw [List.getElem_rotate,getElem_ringFrom,getElem_ringFrom,ringFrom_length,
      ahead_ahead hj hk hl]

/-! ## Walks -/

/-- The slots that a walk of `c` steps from slot `j` visits. -/
def positions (n : ℕ) : ℕ → ℕ → List ℕ
  | 0,_ => []
  | c+1,j => j::positions n c (next n j)

/-- Number of consecutive valid slots met on the way forwards, `c` at most. -/
def walkOn (n : ℕ) (valid : ℕ → Bool) : ℕ → ℕ → ℕ
  | 0,_ => 0
  | c+1,j => if valid j=true then walkOn n valid c (next n j)+1 else 0

/-- Every step of a walk stays in the ring. -/
theorem positions_lt (hj : j<n) (c : ℕ) : ∀ i∈positions n c j,i<n := by
  induction c generalizing j with
  | zero => exact fun i hi => nomatch hi
  | succ c ih =>
    intro i hi
    rcases List.mem_cons.mp hi with rfl|hi
    · exact hj
    · exact ih (next_lt hj) i hi

/-- The positions visited are the ones ahead of the start. -/
theorem positions_eq (hj : j<n) (hc : c≤n) : positions n c j=(List.range c).map (ahead n j) := by
  induction c generalizing j with
  | zero => rfl
  | succ c ih =>
    rw [positions,ih (next_lt hj) (by omega),List.range_succ_eq_map,List.map_cons,List.map_map,
      ahead_zero hj]
    refine congrArg (j::·) (List.map_congr_left fun k hk => ?_)
    exact ahead_next hj (by have := List.mem_range.mp hk; omega)

/-- A walk reads a beginning of the ring. -/
theorem map_positions (hj : j<n) (hc : c≤n) :
    (positions n c j).map slot=(ringFrom n slot j).take c := by
  rw [positions_eq hj hc,ringFrom,List.map_map,←List.map_take,List.take_range,
    Nat.min_eq_left hc]
  rfl

/-- The walk counts the valid slots before the first invalid one. -/
theorem walkOn_eq (valid : ℕ → Bool) (c j : ℕ) :
    walkOn n valid c j=((positions n c j).takeWhile valid).length := by
  induction c generalizing j with
  | zero => rfl
  | succ c ih =>
    rw [walkOn,positions,List.takeWhile_cons]
    by_cases hv : valid j=true
    · rw [if_pos hv,if_pos hv,List.length_cons,ih]
    · rw [if_neg hv,if_neg hv,List.length_nil]

end BT816Display.RingLog
