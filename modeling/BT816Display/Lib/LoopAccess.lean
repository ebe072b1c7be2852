import BT816Display.Lib.ArrayAccess
import Mathlib.Data.List.Range

/-!
# What loops of accesses do to the arrays

A property of the arrays is kept by a loop when every round keeps it. A loop
whose rounds access their own index only acts on every index by itself.
-/

namespace BT816Display.ArrayAccess

variable {κ : Type*} {Val : κ → Type*}

/-- The accesses of a loop over the indices below `n`. -/
abbrev loop (n : ℕ) (f : ℕ → List (Access Val)) : List (Access Val) := (List.range n).flatMap f

/-- The accesses of a loop are those of its rounds. -/
theorem forall_mem_loop {n : ℕ} {f : ℕ → List (Access Val)} {P : Access Val → Prop} :
    (∀ a∈loop n f,P a) ↔ ∀ i<n,∀ a∈f i,P a := by
  rw [List.forall_mem_flatMap]
  simp only [List.mem_range]

variable [DecidableEq κ]

/-- The accesses keep a property of the arrays. -/
def Keeps (P : Arrays Val → Prop) (accesses : List (Access Val)) : Prop :=
  ∀ m,P m → P (accesses.foldl perform m)

section Keeps

variable {P : Arrays Val → Prop}

/-- Doing nothing keeps the property. -/
theorem keeps_nil : Keeps P [] := fun _ h => h

/-- Two sequences that keep the property keep it in a row. -/
theorem keeps_append {as bs : List (Access Val)} (ha : Keeps P as) (hb : Keeps P bs) :
    Keeps P (as++bs) := by
  intro m h
  rw [List.foldl_append]
  exact hb _ (ha m h)

/-- A loop keeps what its rounds keep. -/
theorem keeps_rounds {ι : Type*} {rounds : List ι} {f : ι → List (Access Val)}
    (h : ∀ i∈rounds,Keeps P (f i)) : Keeps P (rounds.flatMap f) := by
  induction rounds with
  | nil => exact keeps_nil
  | cons i rounds ih =>
    rw [List.flatMap_cons]
    exact keeps_append (h i List.mem_cons_self) (ih fun j hj => h j (List.mem_cons_of_mem i hj))

end Keeps

/-- Accesses that write to other places leave an element alone. -/
theorem foldl_of_not_stored {array : κ} {k : ℕ} {accesses : List (Access Val)}
    (h : ∀ a∈accesses,a.array=array → a.index.toNat≠k) (m : Arrays Val) :
    accesses.foldl perform m array k=m array k := by
  induction accesses generalizing m with
  | nil => rfl
  | cons a accesses ih =>
    rw [List.foldl_cons,ih fun b hb => h b (List.mem_cons_of_mem a hb)]
    have ha := h a List.mem_cons_self
    cases a with
    | load array' index => rfl
    | store array' index value => exact Arrays.set_other m (fun he => (ha he.symm).symm) value

/-- What accesses leave at an element depends on nothing else. -/
theorem foldl_congr {array : κ} {k : ℕ} {m m' : Arrays Val} (h : m array k=m' array k)
    (accesses : List (Access Val)) :
    accesses.foldl perform m array k=accesses.foldl perform m' array k := by
  induction accesses generalizing m m' with
  | nil => exact h
  | cons a accesses ih =>
    refine ih ?_
    cases a with
    | load array' index => exact h
    | store array' index value =>
      change m.set array' index.toNat value array k=m'.set array' index.toNat value array k
      by_cases he : array=array' ∧ k=index.toNat
      · obtain ⟨rfl,rfl⟩ := he
        rw [Arrays.set_same,Arrays.set_same]
      · rw [Arrays.set_other m fun ha hk => he ⟨ha,hk⟩,Arrays.set_other m' fun ha hk => he ⟨ha,hk⟩,h]

/-- A write leaves at its element what it leaves there in any other arrays. -/
theorem foldl_of_stored {array : κ} {index : ℤ} {value : Val array}
    {accesses : List (Access Val)} (h : .store array index value∈accesses) (m m' : Arrays Val) :
    accesses.foldl perform m array index.toNat=accesses.foldl perform m' array index.toNat := by
  obtain ⟨before,after,rfl⟩ := List.append_of_mem h
  rw [List.foldl_append,List.foldl_append,List.foldl_cons,List.foldl_cons]
  refine foldl_congr ?_ after
  exact (Arrays.set_same _ array index.toNat value).trans
    (Arrays.set_same _ array index.toNat value).symm

/-- A loop whose rounds access their own index only does to an index what the
round of this index does. -/
theorem foldl_rounds {f : ℕ → List (Access Val)} {n : ℕ} (h : ∀ i<n,∀ a∈f i,a.index.toNat=i)
    (m : Arrays Val) (array : κ) (k : ℕ) :
    (loop n f).foldl perform m array k=
      if k<n then (f k).foldl perform m array k else m array k := by
  induction n with
  | zero => rfl
  | succ n ih =>
    have ih := ih fun i hi => h i (by omega)
    rw [loop,List.range_succ,List.flatMap_append,List.flatMap_singleton,List.foldl_append]
    by_cases hk : k=n
    · subst hk
      rw [if_neg (by omega)] at ih
      rw [if_pos (by omega)]
      exact foldl_congr ih _
    · have hlt : k<n+1 ↔ k<n := by omega
      rw [foldl_of_not_stored fun a ha _ => by rw [h n (by omega) a ha]; omega,ih]
      simp only [hlt]

end BT816Display.ArrayAccess
