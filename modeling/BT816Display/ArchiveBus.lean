import BT816Display.Zd25Bus

/-!
# Clearing the archive on the bus

clear_archive writes the first record of the page log, which takes it out of
spi3_buf when there is one already. Otherwise it sends thirty erases one after
the other and waits for none of them, so that most fall on a chip that is still
busy with an earlier one.
-/

namespace BT816Display.ArchiveBus

open ByteMemory NorFlash SerialFlash Zd25Bus

section Driver

variable (T : Timing)

/-- clear_archive_page. -/
def clearArchivePage (pageNum : UInt16) : DriverM Unit :=
  let offsetAddr : UInt32 := 0+4096+pageNum.toUInt32*4096
  let sectorPosition := offsetAddr/4096
  do
    zd25WriteEnable T
    zd25SectorErase T (sectorPosition*4096)

/-- The first rounds of the loop of clear_archive. -/
def clearArchivePages : ℕ → DriverM Unit
  | 0 => return ()
  | i+1 => do
    clearArchivePages i
    clearArchivePage T i.toUInt16

/-- clear_archive on the chip, with the pointer record that create_new_page_ptr
has built. -/
def clearArchive (rec : List UInt8) : DriverM Unit := do
  let _ ← zd25FlashWrite T 0 rec 4
  clearArchivePages T 30

end Driver

variable {T : Timing} {k : Core}

/-- The sector of a page. -/
theorem page_sector {i : ℕ} (hi : i<4095) (m : Mem UInt8) :
    Zd25Pages.zd25SectorErase ((0+4096+i.toUInt16.toUInt32*4096)/4096*4096) m=
      exec 4096 (.erase (i+1)) m := by
  have h4096 : (4096 : UInt32).toNat=4096 := rfl
  have hpage : i.toUInt16.toUInt32.toNat=i := by
    rw [UInt16.toNat_toUInt32,Nat.toUInt16_eq,UInt16.toNat_ofNat']
    omega
  have haddr : Zd25Pages.addr24 ((0+4096+i.toUInt16.toUInt32*4096)/4096*4096)=(i+1)*4096 := by
    rw [Zd25Pages.addr24_eq,UInt32.toNat_mul,UInt32.toNat_div,UInt32.zero_add,UInt32.toNat_add,
      UInt32.toNat_mul,hpage,h4096]
    unfold Zd25Pages.chipSize
    omega
  unfold Zd25Pages.zd25SectorErase
  rw [haddr,Nat.mul_div_cancel _ (by decide)]

/-- A page on a chip that is ready at the next tick. -/
theorem clearArchivePage_ready (h : k.busy ≤ 1) {i : ℕ} (hi : i<4095) :
    clearArchivePage T i.toUInt16 (atRest k)=
      some ((),atRest ⟨exec 4096 (.erase (i+1)) k.mem,false,T.erase k.started,k.started+1⟩) := by
  unfold clearArchivePage
  rw [bind_of_some _ (zd25WriteEnable_run k),writeEnable_ready h]
  dsimp only
  rw [zd25SectorErase_run,after_erase]
  unfold erased
  rw [page_sector hi]

/-- A page on a chip that is not. -/
theorem clearArchivePage_busy (h : 2 ≤ k.busy) (hlatch : k.latch=false) (i : ℕ) :
    clearArchivePage T i.toUInt16 (atRest k)=some ((),atRest (k.wait 2)) := by
  have hnil (addr : UInt32) := after_unlatched (T:=T) (k:=k.wait 1) hlatch 0x20 addr []
  simp only [List.append_nil] at hnil
  unfold clearArchivePage
  rw [bind_of_some _ (zd25WriteEnable_run k),writeEnable_busy h]
  dsimp only
  rw [zd25SectorErase_run,hnil,Core.wait_wait]

/-- One erase in how many is taken when each lasts `E` ticks. -/
def stride (E : ℕ) : ℕ := (E+2)/2

/-- An address in a page up to number `n` whose number is a multiple of the stride. -/
def Taken (E n x : ℕ) : Prop := ∃ i ≤ n,i%stride E=0 ∧ x/4096=i+1

instance (E n x : ℕ) : Decidable (Taken E n x) :=
  inferInstanceAs (Decidable (∃ i ≤ n,i%stride E=0 ∧ x/4096=i+1))

/-- The chip after the pages up to number `n`. -/
structure Cleared (E n : ℕ) (m : Mem UInt8) (k : Core) : Prop where
  /-- No command is enabled. -/
  latch : k.latch=false
  /-- What is left of the last erase that was taken. -/
  busy : k.busy=E-2*(n%stride E)
  /-- Every page whose number is a multiple of the stride is erased. -/
  mem : ∀ x,k.mem x=if Taken E n x then blankByte else m x

/-- The residue of the next number. -/
theorem succ_mod {n d : ℕ} (hd : 0<d) :
    (n+1)%d=if n%d+1=d then 0 else n%d+1 := by
  have hlt := Nat.mod_lt n hd
  rw [←Nat.mod_add_mod]
  split
  · next h => rw [h,Nat.mod_self]
  · exact Nat.mod_eq_of_lt (by omega)

/-- An erase that is taken. -/
theorem exec_erase_apply (p : ℕ) (m : Mem UInt8) (x : ℕ) :
    exec 4096 (.erase p) m x=if x/4096=p then blankByte else m x := rfl

theorem Cleared.next {E n : ℕ} {m : Mem UInt8} (hT : ∀ j,T.erase j=E) (hn : n+1<4095)
    (h : Cleared E n m k) : ∃ k',clearArchivePage T (n+1).toUInt16 (atRest k)=some ((),atRest k') ∧
      Cleared E (n+1) m k' := by
  have hpos : 0<stride E := by unfold stride; omega
  have hlt := Nat.mod_lt n hpos
  have hmod := succ_mod (n:=n) hpos
  have hbusy := h.busy
  by_cases hready : k.busy ≤ 1
  · have hturn : n%stride E+1=stride E := by
      unfold stride at *
      omega
    rw [if_pos hturn] at hmod
    refine ⟨_,clearArchivePage_ready hready hn,rfl,?_,fun x => ?_⟩
    · rw [hmod]
      exact hT _
    · dsimp only
      rw [exec_erase_apply,h.mem]
      by_cases hx : x/4096=n+1+1
      · rw [if_pos hx,if_pos ⟨n+1,le_rfl,hmod,hx⟩]
      · rw [if_neg hx]
        refine if_congr ⟨?_,?_⟩ rfl rfl
        · rintro ⟨i,hi,hi'⟩
          exact ⟨i,by omega,hi'⟩
        · rintro ⟨i,hi,hi0,hix⟩
          exact ⟨i,by omega,hi0,hix⟩
  · have hturn : n%stride E+1≠stride E := by
      unfold stride at *
      omega
    rw [if_neg hturn] at hmod
    refine ⟨_,clearArchivePage_busy (by omega) h.latch (n+1),h.latch,?_,fun x => ?_⟩
    · rw [hmod,Core.wait_busy,hbusy]
      omega
    · rw [Core.wait_mem,h.mem]
      refine if_congr ⟨?_,?_⟩ rfl rfl
      · rintro ⟨i,hi,hi'⟩
        exact ⟨i,by omega,hi'⟩
      · rintro ⟨i,hi,hi0,hix⟩
        refine ⟨i,?_,hi0,hix⟩
        -- the page just asked for is not one that is erased
        rcases Nat.lt_or_ge n i with hlast|hle
        · rw [show i=n+1 by omega,hmod] at hi0
          omega
        · exact hle

/-- The loop on a chip that is ready. -/
theorem clearArchivePages_cleared {E : ℕ} (hT : ∀ j,T.erase j=E) (h : k.busy=0) {n : ℕ}
    (hn : n<4095) : ∃ k',clearArchivePages T (n+1) (atRest k)=some ((),atRest k') ∧
      Cleared E n k.mem k' := by
  induction n with
  | zero =>
    refine ⟨_,clearArchivePage_ready (by omega) hn,rfl,?_,fun x => ?_⟩
    · rw [Nat.zero_mod,Nat.mul_zero,Nat.sub_zero]
      exact hT _
    · refine (exec_erase_apply _ _ _).trans (if_congr ⟨fun hx => ?_,?_⟩ rfl rfl)
      · exact ⟨0,le_rfl,Nat.zero_mod _,hx⟩
      · rintro ⟨i,hi,-,hx⟩
        rw [Nat.le_zero.mp hi] at hx
        exact hx
  | succ n ih =>
    obtain ⟨k',hrun,hcleared⟩ := ih (by omega)
    obtain ⟨k'',hnext,hcleared'⟩ := hcleared.next hT hn
    refine ⟨k'',?_,hcleared'⟩
    rw [clearArchivePages,bind_of_some _ hrun]
    exact hnext

/-- clear_archive on a chip that is ready, whose page programs end in time and
whose erases all last `E` ticks. With a first record in the page log it stores
outside of spi3_buf. Without one, only every `stride E`-th of the thirty pages
is erased and the others keep their bytes, and while three or more ticks of the
last erase are left, a write of at most 256 half-words to one sector that
follows at once changes nothing, with status SUCCESS up to 102 ticks. -/
theorem clearArchive_erases {E : ℕ} (hT : Prompt T) (hE : ∀ j,T.erase j=E) (h : k.busy=0)
    {rec : List UInt8} (hrec : rec.length=8) :
    (¬RangeBlank 0 4 k.mem → clearArchive T rec (atRest k)=none) ∧
    (RangeBlank 0 4 k.mem → ∃ k',clearArchive T rec (atRest k)=some ((),atRest k') ∧
      (∀ x,k'.mem x=if Taken E 29 x then blankByte else PagedFlash.program 256 0 rec k.mem x) ∧
      (3 ≤ E-2*(29%stride E) → ∀ writeAddr pBuffer numWrite,InSector writeAddr numWrite →
        numWrite.toNat ≤ 256 → ∃ k'',
          zd25FlashWrite T writeAddr pBuffer numWrite (atRest k')=
            some (statusOf (E-2*(29%stride E)<103),atRest k'') ∧ k''.mem=k'.mem)) := by
  have hin : InSector 0 4 := by decide
  have hpointer := write_inSector (T:=T) h hin (hrec : rec.length=(4 : UInt16).toNat*2) (by decide)
  constructor
  · intro hused
    unfold clearArchive
    rw [bind_apply,hpointer.2 fun hboth => hused hboth.1]
    rfl
  · intro hblank
    obtain ⟨k0,hwrite,hmem⟩ := hpointer.1 ⟨hblank,by decide⟩
    have hidle : k0.busy=0 := by
      rcases zd25FlashWrite_prompt hT h 0 rec 4 with ⟨hnone,-⟩|⟨_,k1,hsome,hk1,-⟩
      · exact absurd (hwrite.symm.trans hnone) (Option.some_ne_none _)
      · obtain ⟨-,hsame⟩ := Prod.mk.inj (Option.some.inj (hwrite.symm.trans hsome))
        cases hsame
        exact hk1
    obtain ⟨k',hpages,hcleared⟩ := clearArchivePages_cleared hE hidle (n:=29) (by decide)
    refine ⟨k',?_,fun x => ?_,fun hleft writeAddr pBuffer numWrite hsector hshort => ?_⟩
    · unfold clearArchive
      rw [bind_of_some _ hwrite]
      exact hpages
    · rw [hcleared.mem,hmem]
      rfl
    · rw [←hcleared.busy] at hleft ⊢
      exact (write_on_busy (T:=T) hcleared.latch hsector pBuffer).2.2.2 hleft hshort

/-- The record of the page log in the cases below. -/
def firstLog : List UInt8 := [0,0,0,1,0,0,0,0]

/-- With erases of 45 ticks the first record behind the clear of an erased chip
is lost; on a chip full of zeros the clear does not get that far. -/
theorem clearArchive_erases_45 :
    (∃ k',clearArchive ⟨fun _ => 3,fun _ => 45⟩ firstLog (atRest erasedChip)=
      some ((),atRest k') ∧ ∃ k'',
        zd25FlashWrite ⟨fun _ => 3,fun _ => 45⟩ 4096 [1,2] 1 (atRest k')=
          some (.success,atRest k'') ∧ k''.mem=k'.mem) ∧
    clearArchive ⟨fun _ => 3,fun _ => 45⟩ firstLog (atRest ⟨fun _ => 0,false,0,0⟩)=none := by
  have hlen : firstLog.length=8 := rfl
  have hT : Prompt ⟨fun _ => 3,fun _ => 45⟩ := fun _ => (by decide : 3<100)
  have hused : ¬RangeBlank 0 4 (fun _ => 0) := fun h => absurd (h 0 (by decide)) (by decide)
  obtain ⟨k',hrun,-,hlost⟩ := (clearArchive_erases hT (E:=45) (k:=erasedChip) (fun _ => rfl) rfl
    hlen).2 fun _ _ => rfl
  exact ⟨⟨k',hrun,hlost (by decide) 4096 [1,2] 1 (by decide) (by decide)⟩,
    (clearArchive_erases hT (E:=45) (k:=⟨fun _ => 0,false,0,0⟩) (fun _ => rfl) rfl hlen).1 hused⟩

end BT816Display.ArchiveBus
