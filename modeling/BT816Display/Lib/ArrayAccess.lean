import Mathlib.Logic.Function.Basic
import Mathlib.Data.Set.Function

/-!
# Accesses to arrays of declared sizes

A program's arrays are a family of typed arrays by name, each with a declared
size. A list of accesses is performed in order and stops with no result at the
first index outside the declared size, where the language gives none.
-/

namespace BT816Display.ArrayAccess

variable {κ : Type*} {Val : κ → Type*} [DecidableEq κ]

/-- The contents of all arrays. -/
abbrev Arrays (Val : κ → Type*) := (array : κ) → ℕ → Val array

/-- One access to an array element. -/
inductive Access (Val : κ → Type*) where
  /-- Read an element. -/
  | load (array : κ) (index : ℤ)
  /-- Write an element. -/
  | store (array : κ) (index : ℤ) (value : Val array)

/-- The array accessed. -/
def Access.array : Access Val → κ
  | load array _ => array
  | store array _ _ => array

/-- The index accessed. -/
def Access.index : Access Val → ℤ
  | load _ index => index
  | store _ index _ => index

/-- The index is inside the declared size of the array. -/
def Access.InBounds (size : κ → ℕ) (a : Access Val) : Prop := 0≤a.index ∧ a.index<size a.array

instance (size : κ → ℕ) (a : Access Val) : Decidable (a.InBounds size) :=
  inferInstanceAs (Decidable (0≤a.index ∧ a.index<size a.array))

/-- Replace one element. -/
def Arrays.set (m : Arrays Val) (array : κ) (index : ℕ) (value : Val array) : Arrays Val :=
  Function.update m array (Function.update (m array) index value)

@[simp] theorem Arrays.set_same (m : Arrays Val) (array : κ) (index : ℕ) (value : Val array) :
    m.set array index value array index=value := by
  unfold Arrays.set
  rw [Function.update_self,Function.update_self]

/-- Other arrays keep their contents. -/
theorem Arrays.set_of_array_ne (m : Arrays Val) {array array' : κ} (h : array'≠array) (index : ℕ)
    (value : Val array) : m.set array index value array'=m array' :=
  Function.update_of_ne h _ _

/-- Other elements of the array keep their contents. -/
theorem Arrays.set_of_index_ne (m : Arrays Val) (array : κ) {index k : ℕ} (h : k≠index)
    (value : Val array) : m.set array index value array k=m array k := by
  unfold Arrays.set
  rw [Function.update_self,Function.update_of_ne h]

/-- The elements of the array behind a write. -/
theorem Arrays.set_apply (m : Arrays Val) (array : κ) (index k : ℕ) (value : Val array) :
    m.set array index value array k=if k=index then value else m array k := by
  by_cases h : k=index
  · rw [if_pos h,h,Arrays.set_same]
  · rw [if_neg h,Arrays.set_of_index_ne m array h]

/-- A write of one element leaves every other element alone. -/
theorem Arrays.set_other (m : Arrays Val) {array array' : κ} {index k : ℕ}
    (h : array'=array → k≠index) (value : Val array) :
    m.set array index value array' k=m array' k := by
  by_cases ha : array'=array
  · subst ha
    exact Arrays.set_of_index_ne m array' (h rfl) value
  · rw [Arrays.set_of_array_ne m ha]

/-- Writes to different arrays commute. -/
theorem Arrays.set_comm (m : Arrays Val) {array array' : κ} (h : array≠array') (index index' : ℕ)
    (value : Val array) (value' : Val array') :
    (m.set array index value).set array' index' value'=
      (m.set array' index' value').set array index value := by
  unfold Arrays.set
  rw [Function.update_of_ne h.symm,Function.update_of_ne h,Function.update_comm h]

/-- Perform one access. -/
def perform (m : Arrays Val) : Access Val → Arrays Val
  | .load _ _ => m
  | .store array index value => m.set array index.toNat value

/-- Perform accesses in order, up to the first index out of bounds. -/
def performAll (size : κ → ℕ) (m : Arrays Val) : List (Access Val) → Option (Arrays Val)
  | [] => some m
  | a::rest => if a.InBounds size then performAll size (perform m a) rest else none

variable {size : κ → ℕ} {m : Arrays Val} {accesses : List (Access Val)}

/-- Accesses in bounds are all performed. -/
theorem performAll_of_inBounds (h : ∀ a∈accesses,a.InBounds size) :
    performAll size m accesses=some (accesses.foldl perform m) := by
  induction accesses generalizing m with
  | nil => rfl
  | cons a rest ih =>
    unfold performAll
    rw [if_pos (h a List.mem_cons_self),ih fun b hb => h b (List.mem_cons_of_mem a hb),
      List.foldl_cons]

/-- There is a result exactly when all accesses are in bounds. -/
theorem performAll_isSome_iff :
    (performAll size m accesses).isSome ↔ ∀ a∈accesses,a.InBounds size := by
  constructor
  · intro h
    induction accesses generalizing m with
    | nil => exact fun a ha => absurd ha List.not_mem_nil
    | cons a rest ih =>
      unfold performAll at h
      by_cases ha : a.InBounds size
      · rw [if_pos ha] at h
        exact List.forall_mem_cons.mpr ⟨ha,ih h⟩
      · rw [if_neg ha] at h
        cases h
  · intro h
    rw [performAll_of_inBounds h]
    rfl

end BT816Display.ArrayAccess
