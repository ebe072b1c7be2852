import Mathlib.Data.List.Range
import Mathlib.Logic.Function.Basic

/-!
# Lists in slots

A list kept in numbered slots of which the first ones are in use. Appending
writes the first free slot, and removing an entry moves those behind it down.
-/

namespace BT816Display.SlotList

variable {α : Type*}

/-- The entries of the slots in use. -/
def entries (slots : ℕ → α) (n : ℕ) : List α := (List.range n).map slots

/-- There are as many entries as were asked for. -/
@[simp] theorem entries_length (slots : ℕ → α) (n : ℕ) : (entries slots n).length=n := by
  rw [entries,List.length_map,List.length_range]

/-- An entry is the slot of its position. -/
@[simp] theorem entries_getElem (slots : ℕ → α) {n i : ℕ} (h : i<(entries slots n).length) :
    (entries slots n)[i]=slots i := by
  simp only [entries,List.getElem_map,List.getElem_range]

/-- Slots that are not in use do not matter. -/
theorem entries_congr {slots slots' : ℕ → α} {n : ℕ} (h : ∀ i<n,slots i=slots' i) :
    entries slots n=entries slots' n :=
  List.map_congr_left fun i hi => h i (List.mem_range.mp hi)

/-- A write of the first free slot appends. -/
theorem entries_append (slots : ℕ → α) (n : ℕ) (x : α) :
    entries (Function.update slots n x) (n+1)=entries slots n++[x] := by
  have hbelow : entries (Function.update slots n x) n=entries slots n :=
    entries_congr fun i hi => Function.update_of_ne (by omega) _ _
  rw [←hbelow]
  simp only [entries,List.range_succ,List.map_append,List.map_singleton,Function.update_self]

/-- Slots whose entries from `i` on are those one slot higher. -/
theorem entries_erase {slots slots' : ℕ → α} {i n : ℕ} (hi : i<n)
    (hbelow : ∀ k < i,slots' k=slots k) (habove : ∀ k,i≤k → k+1<n → slots' k=slots (k+1)) :
    entries slots' (n-1)=(entries slots n).eraseIdx i := by
  refine List.ext_getElem ?_ fun k hk hk' => ?_
  · rw [List.length_eraseIdx,entries_length,entries_length,if_pos hi]
  · rw [entries_length] at hk
    rw [entries_getElem,List.getElem_eraseIdx]
    split
    next hlt => rw [entries_getElem,hbelow k hlt]
    next hge => rw [entries_getElem,habove k (by omega) (by omega)]

/-- The slots with `k` of them, from `n` on, moved down by one. -/
def moveDown (slots : ℕ → α) (n k : ℕ) : ℕ → α :=
  (List.range' n k).foldl (fun slots n => Function.update slots (n-1) (slots n)) slots

/-- A moved slot holds what the next one held. -/
theorem moveDown_apply (slots : ℕ → α) {n : ℕ} (hn : 1≤n) (k i : ℕ) :
    moveDown slots n k i=if n ≤ i+1 ∧ i+1<n+k then slots (i+1) else slots i := by
  induction k generalizing i with
  | zero => exact (if_neg (by omega)).symm
  | succ k ih =>
    have hstep : moveDown slots n (k+1)=
        Function.update (moveDown slots n k) (n+k-1) (moveDown slots n k (n+k)) := by
      unfold moveDown
      rw [List.range'_1_concat,List.foldl_append]
      rfl
    rw [hstep]
    by_cases hi : i=n+k-1
    · rw [hi,Function.update_self,ih,if_neg (by omega),if_pos (by omega)]
      congr 1
      omega
    · rw [Function.update_of_ne hi,ih]
      refine if_congr ?_ rfl rfl
      omega

end BT816Display.SlotList
