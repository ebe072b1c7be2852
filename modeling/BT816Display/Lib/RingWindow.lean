import Mathlib.Data.List.Basic

/-!
# A ring of slots as a window on a history

A ring of `n` slots is filled forwards and read backwards from the slot
written last. It is a window on a history when the slot `k` steps behind
that one shows the entry that is `k` places back, for every `k` below `n`.
What it means for a slot to show an entry, or none, is a parameter.
-/

namespace BT816Display.RingWindow

variable {σ ρ : Type*} {Holds : Option ρ → σ → Prop}

/-- The slot `k` steps behind slot `j` in a ring of `n`. -/
def behind (n j k : ℕ) : ℕ := if k≤j then j-k else j+n-k

/-- The slot after slot `j` in a ring of `n`. -/
def next (n j : ℕ) : ℕ := if j+1<n then j+1 else 0

/-- A position behind a position is in the ring. -/
theorem behind_lt {n j k : ℕ} (hj : j<n) (hk : k<n) : behind n j k<n := by
  unfold behind
  split <;> omega

/-- The next position is in the ring. -/
theorem next_lt {n j : ℕ} (hj : j<n) : next n j<n := by
  unfold next
  split <;> omega

/-- Nothing behind a position is the position itself. -/
@[simp] theorem behind_zero (n j : ℕ) : behind n j 0=j := by
  simp only [behind,Nat.zero_le,if_true,Nat.sub_zero]

/-- One step behind the slot `k` steps behind is `k+1` steps behind. -/
theorem behind_behind {n j k : ℕ} (hj : j<n) (hk : k+1<n) :
    behind n (behind n j k) 1=behind n j (k+1) := by
  unfold behind
  split <;> split <;> split <;> omega

/-- Stepping back `k` times from one step behind is `k+1` steps behind. -/
theorem behind_one_behind {n j k : ℕ} (hj : j<n) (hk : k+1<n) :
    behind n (behind n j 1) k=behind n j (k+1) := by
  unfold behind
  split <;> split <;> split <;> omega

/-- One step behind and then round the rest of the ring is no step. -/
theorem behind_one_round {n j k : ℕ} (hj : j<n) (hk : k+1=n) : behind n (behind n j 1) k=j := by
  unfold behind
  split <;> split <;> omega

/-- After one step forwards every old distance grows by one. -/
theorem behind_next {n j k : ℕ} (hj : j<n) (hk : k+1<n) :
    behind n (next n j) (k+1)=behind n j k := by
  unfold behind next
  split <;> split <;> split <;> omega

/-- The slot about to be written is none of those that stay in view. -/
theorem behind_ne_next {n j k : ℕ} (hj : j<n) (hk : k+1<n) : behind n j k≠next n j := by
  unfold behind next
  split <;> split <;> omega

/-- The ring of slots, read backwards from slot `j` over the `m` slots in
view, shows the history `h`, whose newest entry comes first. -/
def Window (Holds : Option ρ → σ → Prop) (n m : ℕ) (slot : ℕ → σ) (j : ℕ) (h : List ρ) : Prop :=
  ∀ k < m,Holds h[k]? (slot (behind n j k))

/-- A ring that shows nothing in any slot in view is a window on the empty
history. -/
theorem Window.of_empty {n m j : ℕ} {slot : ℕ → σ}
    (h : ∀ k < m,Holds none (slot (behind n j k))) : Window Holds n m slot j [] := by
  intro k hk
  rw [List.getElem?_nil]
  exact h k hk

/-- Writing the next slot pushes one entry on the history and brings at most
one more slot into view. -/
theorem Window.push {n m m' j : ℕ} {slot slot' : ℕ → σ} {h : List ρ} {r : ρ} (hj : j<n)
    (hm : m' ≤ m+1) (hn : m'≤n) (hw : Window Holds n m slot j h)
    (hr : Holds (some r) (slot' (next n j))) (hs : ∀ i<n,i≠next n j → slot' i=slot i) :
    Window Holds n m' slot' (next n j) (r::h) := by
  intro k hk
  cases k with
  | zero => simpa only [behind_zero,List.getElem?_cons_zero] using hr
  | succ k =>
    have hb := behind_lt hj (by omega : k<n)
    rw [behind_next hj (by omega),List.getElem?_cons_succ,hs _ hb (behind_ne_next hj (by omega))]
    exact hw k (by omega)

/-- A ring that shows in every slot in view what another one shows there is a
window on the same history. -/
theorem Window.mono {n m j : ℕ} {slot slot' : ℕ → σ} {h : List ρ}
    (hw : Window Holds n m slot j h)
    (hs : ∀ k < m,∀ o,Holds o (slot (behind n j k)) → Holds o (slot' (behind n j k))) :
    Window Holds n m slot' j h :=
  fun k hk => hs k hk _ (hw k hk)

/-- Number of consecutive valid slots met on the way backwards, `fuel` at most. -/
def walk (n : ℕ) (valid : ℕ → Bool) : ℕ → ℕ → ℕ
  | 0,_ => 0
  | fuel+1,j => if valid j=true then walk n valid fuel (behind n j 1)+1 else 0

/-- A walk back from the k-th position counts the valid ones left, when they lie in a row. -/
theorem walk_from {n j l : ℕ} {valid : ℕ → Bool} (hj : j<n)
    (hv : ∀ k<n,valid (behind n j k)=true ↔ k<l) :
    ∀ fuel k,k+fuel=n → walk n valid fuel (behind n j k)=min n l-k ∨ l<k := by
  intro fuel
  induction fuel with
  | zero =>
    intro k hk
    by_cases hl : l<k
    · exact Or.inr hl
    · exact Or.inl (by rw [walk]; omega)
  | succ fuel ih =>
    intro k hk
    by_cases hl : l<k
    · exact Or.inr hl
    · left
      rw [walk]
      by_cases hkl : k<l
      · rw [if_pos ((hv k (by omega)).mpr hkl)]
        cases fuel with
        | zero => rw [walk]; omega
        | succ fuel =>
          have hnext := ih (k+1) (by omega)
          rw [behind_behind hj (by omega)]
          omega
      · rw [if_neg (fun h => hkl ((hv k (by omega)).mp h))]
        omega

/-- When exactly the `l` slots nearest behind are valid, the walk over the
whole ring counts them, or all slots if there are fewer. -/
theorem walk_eq {n j l : ℕ} {valid : ℕ → Bool} (hj : j<n)
    (hv : ∀ k<n,valid (behind n j k)=true ↔ k<l) : walk n valid n j=min n l := by
  have h := walk_from hj hv n 0 (Nat.zero_add n)
  rw [behind_zero] at h
  omega

end BT816Display.RingWindow
