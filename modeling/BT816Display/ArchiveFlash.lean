import BT816Display.ArchiveRam

/-!
# The two kinds of slots on the chip

The pointer log has 512 slots of eight bytes in sector 0; data page `q` has
256 slots of sixteen bytes in sector `q+1`. Every operation of the archive is
described by what it does to these slots: a page pointer goes to one log
slot, a record to one data slot, and writing over a used slot erases the
other slots of its sector.
-/

namespace BT816Display.ArchiveFlash

open ByteMemory NorFlash BigEndian Crc Clock RingWindow Zd25Flash MessageArchive ArchiveSlots
open ArchiveRam

/-- Slot `i` of the pointer log. -/
def ptrSlot (m : Mem UInt8) (i : ℕ) : List UInt8 := load m (8*i) 8

/-- Slot `i` of data page `q`. -/
def dataSlot (m : Mem UInt8) (q i : ℕ) : List UInt8 := load m (pageAddr q+16*i) 16

/-- The page of a number lies behind the sector of the log. -/
theorem pageAddr_eq (q : ℕ) : pageAddr q=4096*(q+1) := by
  dsimp only [pageAddr,zd25AcrhiveStartAddr,archivePageSize]
  omega

/-- A page pointer: a data page and the time at which it was started. -/
structure PagePtr where
  /-- Time stamp. -/
  time : UInt32
  /-- Data page. -/
  page : ℕ
  /-- The page exists. -/
  valid : page<128

/-- The bytes of a page pointer before its checksum. -/
def ptrData (e : PagePtr) : List UInt8 :=
  split32 e.time++[UInt8.ofNat (e.page>>>8),UInt8.ofNat (e.page&&&0xFF)]

/-- The eight bytes of the log slot of a page pointer. -/
def encodePtr (e : PagePtr) : List UInt8 :=
  ptrData e++[(crcBytes (ptrData e)).1,(crcBytes (ptrData e)).2]

/-- A page pointer takes eight bytes. -/
@[simp] theorem encodePtr_length (e : PagePtr) : (encodePtr e).length=8 := rfl

/-- The page number of a pointer is read back. -/
theorem ptr_page_toNat (e : PagePtr) :
    (join16 (UInt8.ofNat (e.page>>>8)) (UInt8.ofNat (e.page&&&0xFF))).toNat=e.page := by
  have hv := e.valid
  have hs : e.page>>>8=0 := by rw [Nat.shiftRight_eq_div_pow]; exact Nat.div_eq_of_lt (by omega)
  rw [join16_toNat,hs,and_255,UInt8.toNat_ofNat',UInt8.toNat_ofNat']
  omega

/-- The log slot that the next page pointer goes to. -/
def logIndex (s : Archive) : ℕ := if s.offsetInPagePtrPage≥4096 then 0 else s.offsetInPagePtrPage/8

/-- The offset into the pointer log is that of a slot or the end of the log. -/
def LogAligned (s : Archive) : Prop := s.offsetInPagePtrPage%8=0

/-- The log has 512 slots. -/
theorem logIndex_lt (s : Archive) : logIndex s<512 := by
  unfold logIndex
  split <;> omega

section CreateNewPagePtr

variable (env : Env) {s : Archive} (e : PagePtr)

/-- A page pointer is one write of its encoding to its log slot. -/
theorem createNewPagePtr_zd25 (ha : LogAligned s) (ht : e.time=timeToUint32 env.rtc) :
    (createNewPagePtr env e.page s).zd25=zd25FlashWrite (8*logIndex s) (encodePtr e) 4 s.zd25 := by
  have ho : (if s.offsetInPagePtrPage≥4096 then 0 else s.offsetInPagePtrPage)=8*logIndex s := by
    unfold LogAligned at ha
    unfold logIndex
    split
    · rfl
    · omega
  unfold createNewPagePtr
  dsimp only [archivePageSize,zd25AcrhiveStartAddr]
  rw [ho,Nat.zero_add,←ht,getCRC16_hi,and_255_toUInt8,getCRC16_lo]
  rfl

/-- A log slot lies in one sector. -/
theorem inSector_log : InSector (8*logIndex s) 4 := by
  have h := logIndex_lt s
  constructor <;> omega

/-- The pointer goes to its log slot. The other log slots stay when that one
was blank and are erased otherwise. -/
theorem ptrSlot_createNewPagePtr (ha : LogAligned s) (ht : e.time=timeToUint32 env.rtc)
    {i : ℕ} (hi : i<512) :
    ptrSlot (createNewPagePtr env e.page s).zd25.mem i=
      if i=logIndex s then encodePtr e
      else if ptrSlot s.zd25.mem (logIndex s)=blank 8 then ptrSlot s.zd25.mem i else blank 8 := by
  have hk := logIndex_lt s
  rw [createNewPagePtr_zd25 env e ha ht]
  unfold ptrSlot
  split
  · rename_i he
    rw [he]
    exact load_zd25FlashWrite_self s.zd25 inSector_log rfl
  · exact load_zd25FlashWrite_beside s.zd25 inSector_log rfl (by omega) (by omega) (by omega)

/-- A page pointer leaves the data pages alone. -/
theorem dataSlot_createNewPagePtr (ha : LogAligned s) (ht : e.time=timeToUint32 env.rtc)
    (q i : ℕ) : dataSlot (createNewPagePtr env e.page s).zd25.mem q i=dataSlot s.zd25.mem q i := by
  have hk := logIndex_lt s
  rw [createNewPagePtr_zd25 env e ha ht]
  apply load_zd25FlashWrite_other s.zd25 inSector_log rfl
  rw [pageAddr_eq]
  omega

/-- After a page pointer the offset is that of the following log slot. -/
theorem offset_createNewPagePtr (ha : LogAligned s) (pageNum : ℕ) :
    (createNewPagePtr env pageNum s).offsetInPagePtrPage=8*(logIndex s+1) := by
  unfold LogAligned at ha
  unfold createNewPagePtr logIndex
  dsimp only [archivePageSize]
  split <;> omega

end CreateNewPagePtr

section WriteRecord

variable {q j : ℕ} {slot : List UInt8}

/-- A record slot lies in one sector. -/
theorem inSector_data (q j : ℕ) : InSector (pageAddr q+16*j) 8 := by
  rw [pageAddr_eq]
  constructor <;> omega

/-- Writing a record leaves the pointer log alone. -/
theorem ptrSlot_write (z : Zd25) (hj : j<256) (hs : slot.length=16) {i : ℕ} (hi : i<512) :
    ptrSlot (zd25FlashWrite (pageAddr q+16*j) slot 8 z).mem i=ptrSlot z.mem i := by
  apply load_zd25FlashWrite_other z (inSector_data q j) hs
  rw [pageAddr_eq]
  omega

/-- A record goes to its data slot. The other slots of its page stay when
that one was blank and are erased otherwise; the other pages stay. -/
theorem dataSlot_write (z : Zd25) (hj : j<256) (hs : slot.length=16) {q' i : ℕ} (hi : i<256) :
    dataSlot (zd25FlashWrite (pageAddr q+16*j) slot 8 z).mem q' i=
      if q'=q then
        if i=j then slot
        else if dataSlot z.mem q j=blankSlot then dataSlot z.mem q i else blankSlot
      else dataSlot z.mem q' i := by
  unfold dataSlot
  split
  · rename_i hq
    rw [hq]
    split
    · rename_i hij
      rw [hij]
      exact load_zd25FlashWrite_self z (inSector_data q j) hs
    · refine load_zd25FlashWrite_beside z (inSector_data q j) hs ?_ ?_ ?_ <;> rw [pageAddr_eq] <;> omega
  · rename_i hq
    apply load_zd25FlashWrite_other z (inSector_data q j) hs
    rw [pageAddr_eq,pageAddr_eq]
    omega

end WriteRecord

section Clear

/-- Clearing a data page erases its sector. -/
theorem clearArchivePage_zd25 (pageNum : ℕ) (s : Archive) :
    (clearArchivePage pageNum s).zd25=s.zd25.issue 4096 (.erase (pageNum+1)) := by
  have hd : (0+4096+pageNum*4096)/4096*4096/4096=pageNum+1 := by omega
  simp only [clearArchivePage,zd25SectorErase,hd]

/-- Erasing a data page leaves the pointer log alone. -/
theorem ptrSlot_clearArchivePage (pageNum : ℕ) (s : Archive) {i : ℕ} (hi : i<512) :
    ptrSlot (clearArchivePage pageNum s).zd25.mem i=ptrSlot s.zd25.mem i := by
  rw [clearArchivePage_zd25]
  exact load_erase_outside (by omega) (by omega)

/-- Erasing a data page blanks its slots and no others. -/
theorem dataSlot_clearArchivePage (pageNum : ℕ) (s : Archive) {q i : ℕ} (hi : i<256) :
    dataSlot (clearArchivePage pageNum s).zd25.mem q i=
      if q=pageNum then blankSlot else dataSlot s.zd25.mem q i := by
  rw [clearArchivePage_zd25]
  unfold dataSlot
  rw [pageAddr_eq]
  split
  · exact load_erase_inside (by omega) (by omega)
  · exact load_erase_outside (by omega) (by omega)

/-- The loop over the data pages erases exactly the listed ones. -/
theorem clearArchivePage_fold_flash (l : List ℕ) : ∀ s : Archive,
    (∀ i<512,ptrSlot (l.foldl (fun s i => clearArchivePage i s) s).zd25.mem i=ptrSlot s.zd25.mem i) ∧
    (∀ q,∀ i<256,dataSlot (l.foldl (fun s i => clearArchivePage i s) s).zd25.mem q i=
      if q∈l then blankSlot else dataSlot s.zd25.mem q i) := by
  induction l with
  | nil => exact fun s => ⟨fun _ _ => rfl,fun q i _ => (if_neg List.not_mem_nil).symm⟩
  | cons p l ih =>
    intro s
    obtain ⟨hp,hd⟩ := ih (clearArchivePage p s)
    constructor
    · intro i hi
      rw [List.foldl_cons,hp i hi,ptrSlot_clearArchivePage p s hi]
    · intro q i hi
      rw [List.foldl_cons,hd q i hi,dataSlot_clearArchivePage p s hi]
      simp only [List.mem_cons]
      by_cases h2 : q∈l
      · rw [if_pos h2,if_pos (Or.inr h2)]
      · by_cases h1 : q=p
        · rw [if_neg h2,if_pos h1,if_pos (Or.inl h1)]
        · rw [if_neg h2,if_neg h1,if_neg (fun h => h.elim h1 h2)]

end Clear

end BT816Display.ArchiveFlash
