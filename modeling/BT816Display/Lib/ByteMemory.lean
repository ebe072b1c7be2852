import Mathlib.Data.List.Basic
import Mathlib.Tactic.Ring

/-!
# Addressed memory with block reads and stores

A memory is a total map from addresses to cells. Blocks are lists of cells;
a block read lists consecutive cells and a block store overwrites them. The
rules below are the read-over-store laws: the block just stored, a part of
it, and every block that does not meet it.
-/

namespace BT816Display.ByteMemory

variable {β : Type*}

/-- Every address holds exactly one cell. -/
abbrev Mem (β : Type*) := ℕ → β

/-- The block of `n` cells from address `a` on. -/
def load (m : Mem β) (a n : ℕ) : List β := (List.range n).map fun i => m (a+i)

/-- Overwrite the cells from address `a` on by the block `b`. -/
def store (m : Mem β) (a : ℕ) (b : List β) : Mem β :=
  fun x => if a≤x then (b[x-a]?).getD (m x) else m x

/-- Overwrite the part of a block that starts at position `k`. -/
def patch (b : List β) (k : ℕ) (d : List β) : List β :=
  b.take k++d++b.drop (k+d.length)

@[simp] theorem load_length (m : Mem β) (a n : ℕ) : (load m a n).length=n := by
  simp only [load,List.length_map,List.length_range]

@[simp] theorem getElem_load (m : Mem β) (a n i : ℕ) (h : i<(load m a n).length) :
    (load m a n)[i]=m (a+i) := by
  simp only [load,List.getElem_map,List.getElem_range]

theorem getElem?_load (m : Mem β) {a n i : ℕ} (h : i<n) : (load m a n)[i]?=some (m (a+i)) := by
  rw [List.getElem?_eq_getElem (by rw [load_length]; exact h),getElem_load]

/-- Two block reads agree exactly when the cells agree one by one. -/
theorem load_eq_load_iff {m m' : Mem β} {a b n : ℕ} :
    load m a n=load m' b n ↔ ∀ i<n, m (a+i)=m' (b+i) := by
  constructor
  · intro h i hi
    have hc := congrArg (fun l => l[i]?) h
    simpa only [getElem?_load m hi,getElem?_load m' hi,Option.some.injEq] using hc
  · intro h
    apply List.map_congr_left
    intro i hi
    exact h i (List.mem_range.mp hi)

/-- A block read is a given list exactly when it holds its cells. -/
theorem load_eq_iff {m : Mem β} {a : ℕ} {b : List β} :
    load m a b.length=b ↔ ∀ i (h : i<b.length), m (a+i)=b[i] := by
  constructor
  · intro h i hi
    have hc := congrArg (fun l => l[i]?) h
    simpa only [getElem?_load m hi,List.getElem?_eq_getElem hi,Option.some.injEq] using hc
  · intro h
    apply List.ext_getElem (load_length m a _)
    intro i _ hi
    rw [getElem_load]
    exact h i hi

/-- A long read is the concatenation of two adjacent ones. -/
theorem load_append (m : Mem β) (a n k : ℕ) : load m a (n+k)=load m a n++load m (a+n) k := by
  simp only [load,List.range_add,List.map_append,List.map_map,Function.comp_def,Nat.add_assoc]

/-- Storing covers every address of the block. -/
theorem store_apply_of_lt {m : Mem β} {a x : ℕ} {b : List β} (hx : a≤x)
    (hb : x-a<b.length) : store m a b x=b[x-a] := by
  simp only [store,if_pos hx,List.getElem?_eq_getElem hb,Option.getD_some]

/-- Storing leaves every address outside the block alone. -/
theorem store_apply_of_not {m : Mem β} {a x : ℕ} {b : List β}
    (hx : x<a ∨ a+b.length≤x) : store m a b x=m x := by
  unfold store
  split
  · rw [List.getElem?_eq_none (by omega),Option.getD_none]
  · rfl

/-- The block just stored is read back. -/
theorem load_store_self (m : Mem β) (a : ℕ) (b : List β) :
    load (store m a b) a b.length=b := by
  apply load_eq_iff.mpr
  intro i hi
  rw [store_apply_of_lt (Nat.le_add_right a i) (by omega)]
  simp only [Nat.add_sub_cancel_left]

/-- A part of the block just stored is the same part of the list. -/
theorem load_store_part {m : Mem β} {a k n : ℕ} {b : List β} (h : k+n≤b.length) :
    load (store m a b) (a+k) n=(b.drop k).take n := by
  have hl : ((b.drop k).take n).length=n := by
    rw [List.length_take,List.length_drop]
    omega
  apply List.ext_getElem (by rw [load_length,hl])
  intro i hi _
  rw [load_length] at hi
  rw [getElem_load,store_apply_of_lt (by omega) (by omega)]
  simp only [List.getElem_take,List.getElem_drop,Nat.add_assoc,Nat.add_sub_cancel_left]

/-- A store does not change a block that it does not meet. -/
theorem load_store_disjoint {m : Mem β} {a c n : ℕ} {b : List β}
    (h : c+n≤a ∨ a+b.length ≤ c) : load (store m a b) c n=load m c n := by
  apply load_eq_load_iff.mpr
  intro i hi
  exact store_apply_of_not (by omega)

/-- A stored cell is one element of the block around it. -/
theorem load_store_cell (m : Mem β) (a k n : ℕ) (b : β) :
    load (store m (a+k) [b]) a n=(load m a n).set k b := by
  apply List.ext_getElem (by rw [List.length_set,load_length,load_length])
  intro i hi _
  rw [load_length] at hi
  rw [getElem_load,List.getElem_set,getElem_load]
  by_cases h : k=i
  · subst h
    rw [if_pos rfl,store_apply_of_lt (le_refl _) (by rw [Nat.sub_self]; exact Nat.one_pos)]
    simp only [Nat.sub_self,List.getElem_cons_zero]
  · rw [if_neg h]
    exact store_apply_of_not (by rw [List.length_singleton]; omega)

/-- Copying a block and reading a part of the copy reads the original. -/
theorem load_store_load {m m' : Mem β} {a d k n l : ℕ} (h : k+l≤n) :
    load (store m d (load m' a n)) (d+k) l=load m' (a+k) l := by
  apply load_eq_load_iff.mpr
  intro i hi
  rw [store_apply_of_lt (by omega) (by rw [load_length]; omega),getElem_load]
  congr 1
  omega

/-- Two adjacent stores are one store of the concatenation. -/
theorem store_store_append (m : Mem β) (a : ℕ) (b cs : List β) :
    store (store m a b) (a+b.length) cs=store m a (b++cs) := by
  funext x
  by_cases hx : a+b.length≤x
  · by_cases hc : x-(a+b.length)<cs.length
    · rw [store_apply_of_lt hx hc,
        store_apply_of_lt (by omega) (by rw [List.length_append]; omega),
        List.getElem_append_right (by omega)]
      congr 1
      omega
    · rw [store_apply_of_not (by omega),store_apply_of_not (by omega),
        store_apply_of_not (by rw [List.length_append]; omega)]
  · rw [store_apply_of_not (by omega)]
    by_cases ha : a≤x
    · rw [store_apply_of_lt ha (by omega),
        store_apply_of_lt ha (by rw [List.length_append]; omega),
        List.getElem_append_left (by omega)]
    · rw [store_apply_of_not (by omega),store_apply_of_not (by omega)]

/-- A later store that covers an earlier one of the same size replaces it. -/
theorem store_store_same {m : Mem β} {a : ℕ} {b cs : List β} (h : b.length=cs.length) :
    store (store m a b) a cs=store m a cs := by
  funext x
  by_cases hx : a≤x ∧ x-a<cs.length
  · rw [store_apply_of_lt hx.1 hx.2,store_apply_of_lt hx.1 hx.2]
  · rw [store_apply_of_not (by omega),store_apply_of_not (by omega),
      store_apply_of_not (by omega)]

@[simp] theorem patch_length {b d : List β} {k : ℕ} (h : k+d.length≤b.length) :
    (patch b k d).length=b.length := by
  simp only [patch,List.length_append,List.length_take,List.length_drop]
  omega

/-- Inside the patched part a patched block shows the new d. -/
theorem getElem?_patch_of_mem {b d : List β} {k i : ℕ} (hk : k≤b.length) (hi : k ≤ i)
    (hd : i-k<d.length) : (patch b k d)[i]?=d[i-k]? := by
  have ht : (b.take k).length=k := by rw [List.length_take]; omega
  rw [patch,List.append_assoc,List.getElem?_append_right (by omega),
    List.getElem?_append_left (by omega),ht]

/-- Outside the patched part a patched block shows the old d. -/
theorem getElem?_patch_of_not {b d : List β} {k i : ℕ} (hk : k+d.length≤b.length)
    (hi : i<k ∨ k+d.length ≤ i) : (patch b k d)[i]?=b[i]? := by
  have ht : (b.take k).length=k := by rw [List.length_take]; omega
  rcases hi with hi|hi
  · rw [patch,List.append_assoc,List.getElem?_append_left (by omega),List.getElem?_take_of_lt hi]
  · rw [patch,List.getElem?_append_right (by rw [List.length_append]; omega),List.length_append,ht,
      List.getElem?_drop]
    congr 1
    omega

/-- Storing a patched copy of the present block only stores the patch. -/
theorem store_patch_of_block {m : Mem β} {a c : ℕ} {b d : List β}
    (hm : load m c b.length=b) (hc : c≤a) (ha : a-c+d.length≤b.length) :
    store m c (patch b (a-c) d)=store m a d := by
  funext x
  by_cases hx : a≤x ∧ x-a<d.length
  · rw [store_apply_of_lt hx.1 hx.2,store,if_pos (by omega),
      getElem?_patch_of_mem (by omega) (by omega) (by omega),show x-c-(a-c)=x-a by omega,
      List.getElem?_eq_getElem hx.2,Option.getD_some]
  · rw [store_apply_of_not (b:=d) (by omega),store]
    split
    · rw [getElem?_patch_of_not ha (by omega)]
      by_cases hb : x-c<b.length
      · have hcell := load_eq_iff.mp hm (x-c) hb
        rw [show c+(x-c)=x by omega] at hcell
        rw [List.getElem?_eq_getElem hb,Option.getD_some,hcell]
      · rw [List.getElem?_eq_none (by omega),Option.getD_none]
    · rfl

/-- Storing into a part of the block just stored is one store of the patched
block. -/
theorem store_store_part {m : Mem β} {a k : ℕ} {b d : List β}
    (h : k+d.length≤b.length) :
    store (store m a b) (a+k) d=store m a (patch b k d) := by
  have hp := store_patch_of_block (a:=a+k) (load_store_self m a b) (Nat.le_add_right a k)
    (d:=d) (by omega)
  rw [Nat.add_sub_cancel_left] at hp
  rw [←hp,store_store_same (patch_length h).symm]

end BT816Display.ByteMemory
