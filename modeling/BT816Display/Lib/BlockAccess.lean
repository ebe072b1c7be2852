import BT816Display.Lib.ArrayAccess
import BT816Display.Lib.ByteMemory

/-!
# Accesses to blocks of consecutive elements

The loops of a program that read or write consecutive elements, as lists of
accesses. Such a list is in bounds exactly when its last element is, and its
writes store one block.
-/

namespace BT816Display.ArrayAccess

open ByteMemory

variable {κ : Type*} {Val : κ → Type*} {size : κ → ℕ}

/-- All accesses of a list are in bounds. -/
def Within (size : κ → ℕ) (accesses : List (Access Val)) : Prop := ∀ a∈accesses,a.InBounds size

/-- No access at all is within any sizes. -/
@[simp] theorem within_nil : Within size ([] : List (Access Val)) := List.forall_mem_nil _

/-- A sequence is within the sizes when its first access is and the rest are. -/
@[simp] theorem within_cons (a : Access Val) (accesses : List (Access Val)) :
    Within size (a::accesses) ↔ a.InBounds size ∧ Within size accesses := List.forall_mem_cons

/-- Two sequences in a row are within the sizes when both are. -/
@[simp] theorem within_append (as bs : List (Access Val)) :
    Within size (as++bs) ↔ Within size as ∧ Within size bs := List.forall_mem_append

/-- A load at a natural index is in bounds when the index is below the size. -/
theorem load_inBounds_iff (array : κ) (n : ℕ) :
    (Access.load array (n : ℤ) : Access Val).InBounds size ↔ n<size array :=
  ⟨fun h => Int.ofNat_lt.mp h.2,fun h => ⟨Int.natCast_nonneg n,Int.ofNat_lt.mpr h⟩⟩

/-- A store at a natural index is in bounds when the index is below the size. -/
theorem store_inBounds_iff (array : κ) (n : ℕ) (v : Val array) :
    (Access.store array (n : ℤ) v).InBounds size ↔ n<size array :=
  ⟨fun h => Int.ofNat_lt.mp h.2,fun h => ⟨Int.natCast_nonneg n,Int.ofNat_lt.mpr h⟩⟩

/-- Reads of `n` consecutive elements from `a` on. -/
def loads (array : κ) : ℕ → ℕ → List (Access Val)
  | _,0 => []
  | a,n+1 => .load array a::loads array (a+1) n

/-- Writes of consecutive elements from `a` on. -/
def stores (array : κ) : ℕ → List (Val array) → List (Access Val)
  | _,[] => []
  | a,v::vs => .store array a v::stores array (a+1) vs

/-- A block is read in bounds when it is empty or ends inside the array. -/
theorem within_loads_iff (array : κ) (a n : ℕ) :
    Within size (loads array a n : List (Access Val)) ↔ n=0 ∨ a+n ≤ size array := by
  induction n generalizing a with
  | zero => exact iff_of_true within_nil (Or.inl rfl)
  | succ n ih =>
    unfold loads
    rw [within_cons,ih,load_inBounds_iff]
    omega

/-- A block is written in bounds when it is empty or ends inside the array. -/
theorem within_stores_iff (array : κ) (a : ℕ) (vs : List (Val array)) :
    Within size (stores array a vs) ↔ vs.length=0 ∨ a+vs.length ≤ size array := by
  induction vs generalizing a with
  | nil => exact iff_of_true within_nil (Or.inl rfl)
  | cons v vs ih =>
    unfold stores
    rw [within_cons,ih,store_inBounds_iff,List.length_cons]
    omega

/-- The indices read by a block of reads. -/
theorem load_mem_loads_iff (array array' : κ) (a n i : ℕ) :
    (Access.load array' (i : ℤ) : Access Val)∈(loads array a n : List (Access Val)) ↔
      array'=array ∧ a ≤ i ∧ i<a+n := by
  induction n generalizing a with
  | zero => exact iff_of_false List.not_mem_nil (by omega)
  | succ n ih =>
    unfold loads
    rw [List.mem_cons,ih,Access.load.injEq,Int.natCast_inj]
    constructor
    · rintro (⟨ha,hi⟩|⟨ha,hi⟩)
      · exact ⟨ha,by omega⟩
      · exact ⟨ha,by omega⟩
    · rintro ⟨ha,hi⟩
      by_cases he : i=a
      · exact Or.inl ⟨ha,he⟩
      · exact Or.inr ⟨ha,by omega⟩

variable [DecidableEq κ]

/-- Reads change nothing. -/
theorem foldl_loads (array : κ) (a n : ℕ) (m : Arrays Val) :
    (loads array a n).foldl perform m=m := by
  induction n generalizing a with
  | zero => rfl
  | succ n ih => exact ih (a+1)

/-- A block of writes stores the block. -/
theorem foldl_stores (array : κ) (a : ℕ) (vs : List (Val array)) (m : Arrays Val) :
    (stores array a vs).foldl perform m=Function.update m array (store (m array) a vs) := by
  induction vs generalizing a m with
  | nil =>
    have h : store (m array) a []=m array := by
      funext x
      exact store_apply_of_not (by rw [List.length_nil]; omega)
    rw [h,Function.update_eq_self]
    rfl
  | cons v vs ih =>
    have hone : Function.update (m array) a v=store (m array) a [v] := by
      funext x
      by_cases hx : x=a
      · subst hx
        rw [Function.update_self,store_apply_of_lt (Nat.le_refl x) (by simp)]
        simp
      · rw [Function.update_of_ne hx,store_apply_of_not (by rw [List.length_singleton]; omega)]
    have hstep : perform m (Access.store array (a : ℤ) v)=
        Function.update m array (store (m array) a [v]) :=
      congrArg (Function.update m array) hone
    unfold stores
    rw [List.foldl_cons,hstep,ih,Function.update_self,Function.update_idem,
      ←List.length_singleton (a:=v),store_store_append]
    rfl

/-- A block of writes that ends inside the array is performed. -/
theorem performAll_stores (m : Arrays Val) (array : κ) (a : ℕ) (vs : List (Val array))
    (h : a+vs.length ≤ size array) : performAll size m (stores array a vs)=
      some (Function.update m array (store (m array) a vs)) := by
  rw [performAll_of_inBounds ((within_stores_iff array a vs).mpr (Or.inr h)),foldl_stores]

/-- A block of reads that ends inside the array is performed. -/
theorem performAll_loads (m : Arrays Val) (array : κ) (a n : ℕ) (h : a+n ≤ size array) :
    performAll size m (loads array a n)=some m := by
  rw [performAll_of_inBounds ((within_loads_iff array a n).mpr (Or.inr h)),foldl_loads]

/-- Accesses behind others begin with what those leave. -/
theorem performAll_append (m : Arrays Val) (as bs : List (Access Val)) :
    performAll size m (as++bs)=
      (performAll size m as).bind fun m => performAll size m bs := by
  induction as generalizing m with
  | nil => rfl
  | cons a as ih =>
    rw [List.cons_append,performAll,performAll]
    split
    · exact ih (perform m a)
    · rfl

end BT816Display.ArrayAccess
