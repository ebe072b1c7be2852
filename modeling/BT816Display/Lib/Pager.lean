import Mathlib.Data.List.Basic
import Mathlib.Tactic.Common

/-!
# A list shown page by page

A screen of `p` rows shows a list from a first entry on, and two keys move that
entry by a screen. The first entry is brought down to `cap` before it is used,
as a buffer of `cap+p` entries asks for. When the list has no more entries than
that, the keys bring every one of them into view and never lead behind it.
-/

namespace BT816Display.Pager

variable {α : Type*} {p cap n : ℕ}

/-- The rows of a screen. -/
def shown (p first : ℕ) (l : List α) : List α := (l.drop first).take p

/-- The key that goes back by a screen. -/
def up (p first : ℕ) : ℕ := if first≥p then first-p else 0

/-- The key that goes on by a screen, when there is an entry behind it. -/
def down (p n first : ℕ) : ℕ := if first+p<n then first+p else first

/-- The k-th line shown is the k-th behind the first. -/
theorem shown_getElem? (p first : ℕ) (l : List α) {k : ℕ} (hk : k<p) :
    (shown p first l)[k]?=l[first+k]? := by
  rw [shown,List.getElem?_take_of_lt hk,List.getElem?_drop]

/-- A page shows its length or what is left of the list. -/
theorem shown_length (p first : ℕ) (l : List α) :
    (shown p first l).length=min p (l.length-first) := by
  rw [shown,List.length_take,List.length_drop]

/-- The screen is empty exactly when it starts behind the list. -/
theorem shown_eq_nil_iff (hp : 0<p) (first : ℕ) (l : List α) :
    shown p first l=[] ↔ l.length≤first := by
  rw [←List.length_eq_zero_iff,shown_length]
  omega

/-- One page up, never above the start. -/
theorem up_eq (p first : ℕ) : up p first=first-p := by
  unfold up
  split <;> omega

/-- A loop that shows entries until there is none shows the rows. -/
theorem shown_cons {first : ℕ} {l : List α} (h : first<l.length) :
    shown (p+1) first l=l[first]::shown p (first+1) l := by
  rw [shown,List.drop_eq_getElem_cons h,List.take_succ_cons]
  rfl

/-- Each row stands for its entry. -/
theorem exists_row_of_forall₂ {β : Type*} {R : α → β → Prop} {l : List α} {rows : List β}
    (h : List.Forall₂ R l rows) {k : ℕ} {a : α} (ha : l[k]?=some a) :
    ∃ row,rows[k]?=some row ∧ R a row := by
  induction h generalizing k with
  | nil => cases ha
  | cons hR _ ih =>
    cases k with
    | zero =>
      obtain rfl := Option.some.inj ha
      exact ⟨_,rfl,hR⟩
    | succ k => exact ih ha

/-! ## Keys -/

/-- One key, `true` for going on, after the first entry has been brought down. -/
def turn (p cap n first : ℕ) (on : Bool) : ℕ :=
  if on=true then down p n (min first cap) else up p (min first cap)

/-- Several keys. -/
def turns (p cap n first : ℕ) (keys : List Bool) : ℕ := keys.foldl (turn p cap n) first

/-- The screen starts at an entry of the list, or at its beginning. -/
def Starts (n first : ℕ) : Prop := first=0 ∨ first<n

/-- A first line held to a bound still lies in the list. -/
theorem Starts.min {n first : ℕ} (h : Starts n first) (cap : ℕ) : Starts n (min first cap) := by
  unfold Starts at h ⊢
  omega

/-- The list may grow. -/
theorem Starts.mono {n n' first : ℕ} (h : Starts n first) (hn : n≤n') : Starts n' first := by
  unfold Starts at h ⊢
  omega

/-- No key leads behind the list. -/
theorem Starts.turn {n first : ℕ} (h : Starts n first) (p cap : ℕ) (on : Bool) :
    Starts n (turn p cap n first on) := by
  have hmin := h.min cap
  unfold Starts at hmin ⊢
  cases on with
  | false =>
    rw [Pager.turn,if_neg Bool.false_ne_true,up_eq]
    omega
  | true =>
    rw [Pager.turn,if_pos rfl,down]
    split <;> omega

/-- Going back often enough shows the list from its start. -/
theorem turns_back (p cap n first k : ℕ) :
    turns p cap n first (List.replicate k false)≤first-k*p := by
  induction k generalizing first with
  | zero =>
    rw [Nat.zero_mul]
    exact Nat.le_refl first
  | succ k ih =>
    have hk := ih (up p (min first cap))
    rw [up_eq] at hk
    rw [Nat.succ_mul,List.replicate_succ,turns,List.foldl_cons,turn,if_neg Bool.false_ne_true,up_eq]
    exact Nat.le_trans hk (by omega)

/-- As long as there are entries, going on adds a screen. -/
theorem turns_on {k : ℕ} (hk : k*p<n) (hn : n ≤ cap+p) :
    turns p cap n 0 (List.replicate k true)=k*p := by
  induction k with
  | zero => exact (Nat.zero_mul p).symm
  | succ k ih =>
    rw [Nat.succ_mul] at hk ⊢
    rw [turns] at ih ⊢
    rw [List.replicate_succ',List.foldl_concat,ih (by omega),turn,if_pos rfl,down,
      Nat.min_eq_left (by omega),if_pos hk]

/-- Every entry of a list that is not too long comes into view, wherever the
screen starts. -/
theorem exists_turns_shown (hp : 0<p) {l : List α} (hl : l.length ≤ cap+p) (first : ℕ) {i : ℕ}
    (hi : i<l.length) : ∃ keys row,row<p ∧
      (shown p (min (turns p cap l.length first keys) cap) l)[row]?=some l[i] := by
  have hpage : i/p*p ≤ i := Nat.div_mul_le_self i p
  have hrow : i < i/p*p+p := Nat.lt_div_mul_add hp
  have hback : turns p cap l.length first (List.replicate first false)=0 := by
    have h := turns_back p cap l.length first first
    rwa [Nat.sub_eq_zero_of_le (Nat.le_mul_of_pos_right first hp),Nat.le_zero] at h
  have hturns : turns p cap l.length first
      (List.replicate first false++List.replicate (i/p) true)=i/p*p := by
    rw [turns] at hback ⊢
    rw [List.foldl_append,hback]
    exact turns_on (by omega) hl
  refine ⟨List.replicate first false++List.replicate (i/p) true,i-min (i/p*p) cap,?_,?_⟩
  · omega
  · rw [hturns,shown_getElem? p _ l (by omega),Nat.add_sub_cancel' (by omega),
      List.getElem?_eq_getElem hi]

end BT816Display.Pager
