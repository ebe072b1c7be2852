import BT816Display.Lib.NorFlash

/-!
# NOR flash with a page buffer

A program command of such a chip fills a page buffer that wraps: whatever is
sent, only the last bytes of one page are programmed, and only in the page of
the start address.
-/

namespace BT816Display.PagedFlash

open ByteMemory NorFlash

variable {P a : ℕ} {bs : List UInt8} {m : Mem UInt8}

/-- Bytes of a transfer that the page buffer has lost. -/
def lost (P : ℕ) (bs : List UInt8) : ℕ := bs.length-P

/-- The place in the kept bytes that an address of the page takes. -/
def slot (P a : ℕ) (bs : List UInt8) (x : ℕ) : ℕ := (x%P+P-(a+lost P bs)%P)%P

/-- A program command with pages of `P` bytes. -/
def program (P a : ℕ) (bs : List UInt8) (m : Mem UInt8) : Mem UInt8 := fun x =>
  if x/P=a/P then (bs[lost P bs+slot P a bs x]?).elim (m x) (m x &&& ·) else m x

/-- Nothing outside the page is programmed. -/
theorem program_of_other_page {x : ℕ} (h : x/P≠a/P) : program P a bs m x=m x := if_neg h

/-- The distance between two places of a ring. -/
theorem ring_distance {P y t : ℕ} (ht : t<P) : ((y+t)%P+P-y%P)%P=t := by
  have hy := Nat.mod_lt y (Nat.zero_lt_of_lt ht)
  have hsum : (y+t)%P=(y%P+t)%P := by rw [Nat.add_mod,Nat.mod_eq_of_lt ht]
  rw [hsum]
  by_cases hwrap : y%P+t<P
  · rw [Nat.mod_eq_of_lt hwrap,show y%P+t+P-y%P=t+P by omega,Nat.add_mod_right,
      Nat.mod_eq_of_lt ht]
  · have hmod : (y%P+t)%P=y%P+t-P := by
      rw [Nat.mod_eq_sub_mod (by omega),Nat.mod_eq_of_lt (by omega)]
    rw [hmod,show y%P+t-P+P-y%P=t by omega,Nat.mod_eq_of_lt ht]

/-- A byte that is sent to the page and not sent over is programmed. -/
theorem program_of_kept {k : ℕ} (hk : k<bs.length) (hpage : (a+k)/P=a/P)
    (hkept : bs.length≤k+P) : program P a bs m (a+k)=m (a+k) &&& bs[k] := by
  have hslot : slot P a bs (a+k)=k-lost P bs := by
    unfold slot
    have hadd : a+k=a+lost P bs+(k-lost P bs) := by
      unfold lost
      omega
    rw [hadd]
    refine ring_distance ?_
    unfold lost
    omega
  have hindex : lost P bs+slot P a bs (a+k)=k := by
    rw [hslot]
    unfold lost
    omega
  unfold program
  rw [if_pos hpage,hindex,List.getElem?_eq_getElem hk]
  rfl

/-- A byte that is sent over gets a later one that belongs outside the page. -/
theorem program_of_lost {k : ℕ} (hP : 0<P) (hpage : (a+k)/P=a/P) (hlost : k+P<bs.length) :
    ∃ (i : ℕ) (hi : i<bs.length),(a+i)/P≠a/P ∧ program P a bs m (a+k)=m (a+k) &&& bs[i] := by
  have hlt : slot P a bs (a+k)<P := Nat.mod_lt _ hP
  have hi : lost P bs+slot P a bs (a+k)<bs.length := by
    unfold lost at hlt ⊢
    omega
  have hmod : (a+(lost P bs+slot P a bs (a+k)))%P=(a+k)%P := by
    have hle := (Nat.mod_lt (a+lost P bs) hP).le
    unfold slot
    rw [←Nat.add_assoc,Nat.add_mod_mod,←Nat.mod_add_mod,
      show (a+lost P bs)%P+((a+k)%P+P-(a+lost P bs)%P)=(a+k)%P+P by omega,
      Nat.add_mod_right,Nat.mod_mod]
  refine ⟨lost P bs+slot P a bs (a+k),hi,fun hsame => ?_,?_⟩
  · -- the same page and the same place in it would be the same byte
    have h1 := Nat.div_add_mod (a+(lost P bs+slot P a bs (a+k))) P
    have h2 := Nat.div_add_mod (a+k) P
    rw [hsame,hmod] at h1
    rw [hpage] at h2
    unfold lost at h1
    omega
  · unfold program
    rw [if_pos hpage,List.getElem?_eq_getElem hi]
    rfl

/-- A byte of a transfer reaches its address: it lies in the first page and
nothing is sent over it. -/
def Reaches (P a : ℕ) (bs : List UInt8) (k : ℕ) : Prop := (a+k)/P=a/P ∧ bs.length≤k+P

instance (P a : ℕ) (bs : List UInt8) (k : ℕ) : Decidable (Reaches P a bs k) :=
  inferInstanceAs (Decidable (_ ∧ _))

theorem blank_and (b : UInt8) : blankByte &&& b=b := UInt8.neg_one_and

/-- Programming a blank block: it is read back exactly when its bytes reach
their addresses or are blank themselves. -/
theorem program_reads_iff (hP : 0<P) (hblank : ∀ i<bs.length,m (a+i)=blankByte) :
    (∀ k (hk : k<bs.length),program P a bs m (a+k)=bs[k]) ↔
      ∀ k (hk : k<bs.length),bs[k]=blankByte ∨ Reaches P a bs k := by
  have hkept {k : ℕ} (hk : k<bs.length) (hr : Reaches P a bs k) :
      program P a bs m (a+k)=bs[k] := by
    rw [program_of_kept hk hr.1 hr.2,hblank k hk,blank_and]
  have hother {k : ℕ} (hk : k<bs.length) (hpage : (a+k)/P≠a/P) :
      program P a bs m (a+k)=blankByte := by
    rw [program_of_other_page hpage,hblank k hk]
  constructor
  · intro h k hk
    by_cases hpage : (a+k)/P=a/P
    · by_cases hlast : bs.length≤k+P
      · exact Or.inr ⟨hpage,hlast⟩
      · obtain ⟨i,hi,hipage,hprog⟩ := program_of_lost (m:=m) hP hpage (Nat.lt_of_not_le hlast)
        have hbi : bs[i]=blankByte := by rw [←h i hi,hother hi hipage]
        rw [←h k hk,hprog,hblank k hk,hbi]
        exact Or.inl rfl
    · rw [←h k hk]
      exact Or.inl (hother hk hpage)
  · intro h k hk
    rcases h k hk with hb|hr
    · by_cases hpage : (a+k)/P=a/P
      · by_cases hlast : bs.length≤k+P
        · exact hkept hk ⟨hpage,hlast⟩
        · obtain ⟨i,hi,hipage,hprog⟩ := program_of_lost (m:=m) hP hpage (Nat.lt_of_not_le hlast)
          have hbi : bs[i]=blankByte := (h i hi).resolve_right fun hr => hipage hr.1
          rw [hprog,hblank k hk,hbi,hb]
          rfl
      · rw [hother hk hpage,hb]
    · exact hkept hk hr

end BT816Display.PagedFlash
