import BT816Display.Lib.NorFlash

/-!
# The ZD25 driver of zd25flash.c

Reading copies bytes; writing reads the sector first, programs in place when
the target half-words are all 0xFFFF, and otherwise erases the whole sector
and programs it again with only the new data in it. The chip is taken ideal:
every command completes, so the busy polls succeed and the status is SUCCESS.
-/

namespace BT816Display.Zd25Flash

open ByteMemory NorFlash

/-- Bytes of one erasable sector. -/
abbrev zd25SectorSize : ℕ := 4096

/-- The ZD25 chip with its executed commands. -/
abbrev Zd25 := Chip

/-- An erased chip that has executed no command. -/
def erasedChip : Zd25 := ⟨fun _ => blankByte,[]⟩

/-- Read `numRead` half-words from a byte address on. -/
def zd25FlashRead (z : Zd25) (readAddr numRead : ℕ) : List UInt8 := load z.mem readAddr (numRead*2)

/-- Write enable and sector erase; the command holds any address of the sector. -/
def zd25SectorErase (addr : ℕ) (z : Zd25) : Zd25 :=
  z.issue zd25SectorSize (.erase (addr/zd25SectorSize))

/-- Write enable and one program command of `2*numWrite` bytes. -/
def zd25FlashWriteNocheck (writeAddr : ℕ) (pBuffer : List UInt8) (numWrite : ℕ) (z : Zd25) : Zd25 :=
  z.issue zd25SectorSize (.program writeAddr (pBuffer.take (numWrite*2)))

/-- The scan for a half-word other than 0xFFFF runs to its end. -/
def halfWordsBlank (flashBuf : List UInt8) (sectorOffset sectorRemain : ℕ) : Bool :=
  (List.range sectorRemain).all fun i =>
    flashBuf.getD (2*(sectorOffset+i)) 0==blankByte && flashBuf.getD (2*(sectorOffset+i)+1) 0==blankByte

/-- The sector loop of zd25_flash_write. Every round but the last shortens
`numWrite`, so `numWrite+1` rounds are always enough. -/
def zd25FlashWriteLoop : ℕ → (sectorPosition sectorOffset sectorRemain writeAddr numWrite : ℕ) →
    List UInt8 → Zd25 → Zd25
  | 0,_,_,_,_,_,_,z => z
  | fuel+1,sectorPosition,sectorOffset,sectorRemain,writeAddr,numWrite,pBuffer,z =>
    let flashBuf := zd25FlashRead z (sectorPosition*zd25SectorSize) (zd25SectorSize/2)
    let z' :=
      if halfWordsBlank flashBuf sectorOffset sectorRemain then
        zd25FlashWriteNocheck writeAddr pBuffer sectorRemain z
      else
        let erased := zd25SectorErase (sectorPosition*zd25SectorSize) z
        let flashBuf := zd25FlashRead erased (sectorPosition*zd25SectorSize) (zd25SectorSize/2)
        let flashBuf := patch flashBuf (2*sectorOffset) (pBuffer.take (sectorRemain*2))
        zd25FlashWriteNocheck (sectorPosition*zd25SectorSize) flashBuf (zd25SectorSize/2) erased
    if numWrite=sectorRemain then z'
    else
      let left := numWrite-sectorRemain
      zd25FlashWriteLoop fuel (sectorPosition+1) 0
        (if left>zd25SectorSize/2 then zd25SectorSize/2 else left)
        (writeAddr+sectorRemain*2) left (pBuffer.drop (sectorRemain*2)) z'

/-- Write `numWrite` half-words at a byte address. -/
def zd25FlashWrite (writeAddr : ℕ) (pBuffer : List UInt8) (numWrite : ℕ) (z : Zd25) : Zd25 :=
  let sectorOffset := writeAddr%zd25SectorSize/2
  let sectorRemain := zd25SectorSize/2-sectorOffset
  let sectorRemain := if numWrite ≤ sectorRemain then numWrite else sectorRemain
  zd25FlashWriteLoop (numWrite+1) (writeAddr/zd25SectorSize) sectorOffset sectorRemain writeAddr
    numWrite pBuffer z

/-- The contents of the array just before the last program command of a
write: the sector is erased first when any target byte is in use. -/
def preparedMem (m : Mem UInt8) (a n : ℕ) : Mem UInt8 :=
  if load m a n=blank n then m else exec 4096 (.erase (a/4096)) m

/-- The half-word scan of a freshly read sector recognizes exactly a blank
target block. -/
theorem halfWordsBlank_iff {z : Zd25} {k so n : ℕ} (h : so+n≤2048) :
    halfWordsBlank (zd25FlashRead z (k*4096) (2048)) so n=true ↔
      load z.mem (k*4096+2*so) (n*2)=blank (n*2) := by
  have hget : ∀ j,j<4096 → (zd25FlashRead z (k*4096) (2048)).getD j 0=
      z.mem (k*4096+j) := by
    intro j hj
    rw [List.getD_eq_getElem?_getD,zd25FlashRead,getElem?_load _ (by omega),Option.getD_some]
  simp only [halfWordsBlank,List.all_eq_true,List.mem_range,Bool.and_eq_true,beq_iff_eq]
  constructor
  · intro hs
    apply load_eq_blank_iff.mpr
    intro i hi
    have hp := hs (i/2) (by omega)
    rw [hget _ (by omega),hget _ (by omega)] at hp
    rcases Nat.mod_two_eq_zero_or_one i with he|he
    · rw [show k*4096+2*so+i=k*4096+2*(so+i/2) by omega]
      exact hp.1
    · rw [show k*4096+2*so+i=k*4096+(2*(so+i/2)+1) by omega]
      exact hp.2
  · intro hb i hi
    have hall := load_eq_blank_iff.mp hb
    rw [hget _ (by omega),hget _ (by omega)]
    constructor
    · have hc := hall (2*i) (by omega)
      rwa [show k*4096+2*so+2*i=k*4096+2*(so+i) by omega] at hc
    · have hc := hall (2*i+1) (by omega)
      rwa [show k*4096+2*so+(2*i+1)=k*4096+(2*(so+i)+1) by omega] at hc

/-- Hypotheses under which a write stays inside one sector: an even address
and a nonempty block of half-words up to the end of the sector. -/
structure InSector (a n : ℕ) : Prop where
  /-- The address is that of a half-word. -/
  even : a%2=0
  /-- The block ends inside the sector. -/
  fits : a%4096+n*2≤4096

/-- The commands of a write inside one sector: a single program command into
a blank target, and otherwise an erase of the sector followed by a program
command for all of it. -/
def writeCmds (a n : ℕ) (data : List UInt8) (m : Mem UInt8) : List Cmd :=
  if load m a (n*2)=blank (n*2) then [.program a data]
  else [.erase (a/4096),.program (a/4096*4096) (patch (blank 4096) (a%4096) data)]

theorem writeCmds_of_blank {a n : ℕ} {data : List UInt8} {m : Mem UInt8}
    (h : load m a (n*2)=blank (n*2)) : writeCmds a n data m=[.program a data] := if_pos h

theorem writeCmds_of_used {a n : ℕ} {data : List UInt8} {m : Mem UInt8}
    (h : load m a (n*2)≠blank (n*2)) : writeCmds a n data m=
      [.erase (a/4096),.program (a/4096*4096) (patch (blank 4096) (a%4096) data)] := if_neg h

/-- A write inside one sector issues exactly these commands. -/
theorem zd25FlashWrite_in_sector {a n : ℕ} {data : List UInt8} (z : Zd25) (h : InSector a n)
    (hd : data.length=n*2) :
    zd25FlashWrite a data n z=z.issueAll 4096 (writeCmds a n data z.mem) := by
  have heven := h.even
  have hfits := h.fits
  have hr : n≤2048-a%4096/2 := by omega
  have ha : a/4096*4096+2*(a%4096/2)=a := by omega
  have ho : 2*(a%4096/2)=a%4096 := by omega
  have ht : data.take (n*2)=data := by rw [←hd,List.take_length]
  unfold zd25FlashWrite
  dsimp only [zd25SectorSize]
  rw [if_pos hr,zd25FlashWriteLoop]
  dsimp only [zd25SectorSize,Nat.reduceDiv]
  rw [if_pos rfl]
  by_cases hb : load z.mem a (n*2)=blank (n*2)
  · have hs := (@halfWordsBlank_iff z (a/4096) (a%4096/2) n (by omega)).mpr (by rwa [ha])
    rw [if_pos hs,writeCmds_of_blank hb,zd25FlashWriteNocheck,ht,Chip.issue_eq_issueAll]
  · have hs : ¬halfWordsBlank (zd25FlashRead z (a/4096*4096) (2048))
        (a%4096/2) n=true := by
      intro hs
      have hload := (halfWordsBlank_iff (by omega)).mp hs
      rw [ha] at hload
      exact hb hload
    have hk : a/4096*4096/4096=a/4096 :=
      Nat.mul_div_cancel _ (by omega)
    have her : zd25FlashRead (zd25SectorErase (a/4096*4096) z)
        (a/4096*4096) (2048)=blank 4096 := by
      simp only [zd25FlashRead,zd25SectorErase,Chip.issue_mem,zd25SectorSize,hk]
      exact load_erase_inside (by omega) (by omega)
    have hp : (patch (blank 4096) (a%4096) data).length=4096 := by
      rw [patch_length (by rw [List.length_replicate,hd]; exact hfits),List.length_replicate]
    rw [if_neg hs,writeCmds_of_used hb,her,ho,ht,zd25FlashWriteNocheck,zd25SectorErase,hk,
      List.take_of_length_le (by rw [hp]),Chip.issue_eq_issueAll,Chip.issue_eq_issueAll,
      Chip.issueAll_issueAll]
    rfl

/-- The contents after a write inside one sector: the sector is prepared,
then the target block is stored. -/
theorem zd25FlashWrite_mem {a n : ℕ} {data : List UInt8} (z : Zd25) (h : InSector a n)
    (hd : data.length=n*2) :
    (zd25FlashWrite a data n z).mem=store (preparedMem z.mem a (n*2)) a data := by
  have hfits := h.fits
  rw [zd25FlashWrite_in_sector z h hd,preparedMem,writeCmds]
  split
  · rename_i hb
    rw [Chip.issueAll,replay_cons,replay_nil,exec_program_of_blank (by rwa [hd])]
  · have hp : (patch (blank 4096) (a%4096) data).length=4096 := by
      rw [patch_length (by rw [List.length_replicate,hd]; exact hfits),List.length_replicate]
    have hsec : load (exec 4096 (.erase (a/4096)) z.mem)
        (a/4096*4096) 4096=blank 4096 :=
      load_erase_inside (by omega) (by omega)
    rw [Chip.issueAll,replay_cons,replay_cons,replay_nil,exec_program_of_blank (by rwa [hp])]
    rw [show a%4096=a-a/4096*4096 by omega]
    exact store_patch_of_block (by rwa [List.length_replicate]) (by omega)
      (by rw [hd,List.length_replicate]; omega)

/-- The written block is read back. -/
theorem load_zd25FlashWrite_self {a n : ℕ} {data : List UInt8} (z : Zd25) (h : InSector a n)
    (hd : data.length=n*2) : load (zd25FlashWrite a data n z).mem a (n*2)=data := by
  rw [zd25FlashWrite_mem z h hd,←hd]
  exact load_store_self _ a data

/-- A write changes no block outside its sector. -/
theorem load_zd25FlashWrite_other {a n b l : ℕ} {data : List UInt8} (z : Zd25)
    (h : InSector a n) (hd : data.length=n*2)
    (hb : b+l≤4096*(a/4096) ∨ 4096*(a/4096)+4096≤b) :
    load (zd25FlashWrite a data n z).mem b l=load z.mem b l := by
  have hfits := h.fits
  rw [zd25FlashWrite_mem z h hd,load_store_disjoint (by omega),preparedMem]
  split
  · rfl
  · exact load_erase_outside (by omega) hb

/-- A write into a blank target keeps the rest of its sector; any other write
leaves the rest of its sector erased. -/
theorem load_zd25FlashWrite_beside {a n b l : ℕ} {data : List UInt8} (z : Zd25)
    (h : InSector a n) (hd : data.length=n*2) (h0 : 4096*(a/4096)≤b)
    (h1 : b+l≤4096*(a/4096)+4096) (hb : b+l≤a ∨ a+n*2≤b) :
    load (zd25FlashWrite a data n z).mem b l=
      if load z.mem a (n*2)=blank (n*2) then load z.mem b l else blank l := by
  rw [zd25FlashWrite_mem z h hd,load_store_disjoint (by omega),preparedMem]
  split
  · rfl
  · exact load_erase_inside h0 h1

end BT816Display.Zd25Flash
