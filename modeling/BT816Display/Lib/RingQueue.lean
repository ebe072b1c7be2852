import BT816Display.Lib.RingWindow

/-!
# A ring of slots as a bounded queue

A ring of `n` slots with a read and a write position holds a queue when the
slots from the read position on show its entries, oldest first, the other
slots show nothing, and the write position follows the last entry. A full
and an empty ring have equal positions and differ only in their slots.
-/

namespace BT816Display.RingQueue

open RingWindow

variable {σ ρ : Type*} {Shows : Option ρ → σ → Prop}

/-- The slot `k` steps ahead of slot `j` in a ring of `n`. -/
def ahead (n j k : ℕ) : ℕ := if j+k<n then j+k else j+k-n

/-- A place ahead is one of the ring. -/
theorem ahead_lt {n j k : ℕ} (hj : j<n) (hk : k<n) : ahead n j k<n := by
  unfold ahead
  split <;> omega

/-- Nothing ahead is the place itself. -/
@[simp] theorem ahead_zero {n j : ℕ} (hj : j<n) : ahead n j 0=j := by
  unfold ahead
  split <;> omega

/-- Once round the ring. -/
theorem ahead_self {n j : ℕ} : ahead n j n=j := by
  unfold ahead
  split <;> omega

/-- Ahead of the next place. -/
theorem ahead_next {n j k : ℕ} (hj : j<n) (hk : k<n) : ahead n (next n j) k=ahead n j (k+1) := by
  unfold ahead next
  split <;> split <;> split <;> omega

/-- The next place ahead. -/
theorem next_ahead {n j k : ℕ} (hj : j<n) (hk : k<n) : next n (ahead n j k)=ahead n j (k+1) := by
  unfold ahead next
  split <;> split <;> split <;> omega

/-- Different distances below `n` lead to different slots. -/
theorem ahead_inj {n j k l : ℕ} (hk : k<n) (hl : l<n)
    (h : ahead n j k=ahead n j l) : k=l := by
  unfold ahead at h
  split at h <;> split at h <;> omega

/-- The slots between the read and the write position hold the queue `q`. -/
structure Queue (Shows : Option ρ → σ → Prop) (n : ℕ) (slot : ℕ → σ) (rd wr : ℕ) (q : List ρ) :
    Prop where
  /-- The read position is one of the slots. -/
  rd_lt : rd<n
  /-- The queue fits into the ring. -/
  fits : q.length≤n
  /-- The write position follows the last entry. -/
  write : wr=ahead n rd q.length
  /-- The slots show the queue from the read position on. -/
  slots : ∀ k<n,Shows q[k]? (slot (ahead n rd k))

variable {n rd wr : ℕ} {slot slot' : ℕ → σ} {q : List ρ} {r : ρ}

/-- A ring whose slots all show nothing holds the empty queue. -/
theorem Queue.empty (hn : 0<n) (h : ∀ i<n,Shows none (slot i)) : Queue Shows n slot 0 0 [] where
  rd_lt := hn
  fits := Nat.zero_le n
  write := (ahead_zero hn).symm
  slots := fun k hk => by
    rw [List.getElem?_nil]
    exact h _ (ahead_lt hn hk)

/-- The place to be written next is one of the ring. -/
theorem Queue.wr_lt (h : Queue Shows n slot rd wr q) : wr<n := by
  have hrd := h.rd_lt
  have hfits := h.fits
  rw [h.write]
  unfold ahead
  split <;> omega

/-- The slot at the read position shows the oldest entry. -/
theorem Queue.head (h : Queue Shows n slot rd wr q) : Shows q.head? (slot rd) := by
  have hrd := h.rd_lt
  have h0 := h.slots 0 (by omega)
  rwa [ahead_zero hrd,←List.head?_eq_getElem?] at h0

/-- While the ring is not full the slot at the write position shows nothing. -/
theorem Queue.free (h : Queue Shows n slot rd wr q) (hroom : q.length<n) : Shows none (slot wr) := by
  have hs := h.slots q.length hroom
  rwa [←h.write,List.getElem?_eq_none (Nat.le_refl _)] at hs

/-- In a full ring the slot at the write position shows the oldest entry. -/
theorem Queue.full (h : Queue Shows n slot rd wr q) (hfull : q.length=n) :
    Shows q.head? (slot wr) := by
  rw [h.write,hfull,ahead_self]
  exact h.head

/-- Writing the free slot at the write position appends an entry. -/
theorem Queue.push (h : Queue Shows n slot rd wr q) (hroom : q.length<n)
    (hr : Shows (some r) (slot' wr)) (hs : ∀ i<n,i≠wr → slot' i=slot i) :
    Queue Shows n slot' rd (next n wr) (q++[r]) := by
  have hrd := h.rd_lt
  refine ⟨hrd,by rw [List.length_append,List.length_singleton]; omega,?_,fun k hk => ?_⟩
  · rw [h.write,next_ahead hrd hroom,List.length_append,List.length_singleton]
  · by_cases hkq : k=q.length
    · rw [hkq,List.getElem?_concat_length,←h.write]
      exact hr
    · have hne : ahead n rd k≠wr := fun he => hkq (ahead_inj hk hroom (he.trans h.write))
      have hq : (q++[r])[k]?=q[k]? := by
        by_cases hlt : k<q.length
        · exact List.getElem?_append_left hlt
        · have hl : (q++[r]).length=q.length+1 := List.length_append
          rw [List.getElem?_eq_none (by omega : (q++[r]).length≤k),
            List.getElem?_eq_none (by omega : q.length≤k)]
      rw [hs _ (ahead_lt hrd hk) hne,hq]
      exact h.slots k hk

/-- Changing the free slot at the write position to one that shows nothing keeps the queue. -/
theorem Queue.refill (h : Queue Shows n slot rd wr q) (hroom : q.length<n)
    (hr : Shows none (slot' wr)) (hs : ∀ i<n,i≠wr → slot' i=slot i) :
    Queue Shows n slot' rd wr q := by
  have hrd := h.rd_lt
  refine ⟨hrd,h.fits,h.write,fun k hk => ?_⟩
  by_cases he : ahead n rd k=wr
  · have hkq : k=q.length := ahead_inj hk hroom (he.trans h.write)
    rw [he,hkq,List.getElem?_eq_none (Nat.le_refl _)]
    exact hr
  · rw [hs _ (ahead_lt hrd hk) he]
    exact h.slots k hk

/-- Emptying the slot at the read position takes the oldest entry out. -/
theorem Queue.pop (h : Queue Shows n slot rd wr (r::q)) (hr : Shows none (slot' rd))
    (hs : ∀ i<n,i≠rd → slot' i=slot i) : Queue Shows n slot' (next n rd) wr q := by
  have hrd := h.rd_lt
  have hfits := h.fits
  rw [List.length_cons] at hfits
  refine ⟨next_lt hrd,by omega,?_,fun k hk => ?_⟩
  · rw [h.write,List.length_cons,ahead_next hrd (by omega)]
  · rw [ahead_next hrd hk]
    by_cases hlast : k+1<n
    · have hne : ahead n rd (k+1)≠rd := by
        intro he
        have h0 := ahead_inj hlast (by omega) (he.trans (ahead_zero hrd).symm)
        omega
      have hk1 := h.slots (k+1) hlast
      rwa [List.getElem?_cons_succ,←hs _ (ahead_lt hrd hlast) hne] at hk1
    · rw [show k+1=n by omega,ahead_self,List.getElem?_eq_none (by omega)]
      exact hr

end BT816Display.RingQueue
