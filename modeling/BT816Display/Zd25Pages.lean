import BT816Display.Lib.PagedFlash
import BT816Display.Lib.BigEndian
import BT816Display.Zd25Flash

/-!
# The ZD25 driver on a chip with pages

The driver of zd25flash.c in its own word sizes, on a chip whose program
command wraps inside one page of 256 bytes. Every busy poll ends in time, so
the status is SUCCESS. While it sends, write_data stores what it receives in
spi3_buf; there is no result behind a store outside of this array.
-/

namespace BT816Display.Zd25Pages

open ByteMemory NorFlash PagedFlash
open Zd25Flash (halfWordsBlank halfWordsBlank_iff)

/-- Bytes that three address bytes tell apart. -/
abbrev chipSize : ℕ := 16777216

/-- The address in the three address bytes of a command. -/
def addr24 (addr : UInt32) : ℕ :=
  (((addr>>>16)&&&0xFF).toUInt8.toNat*256+((addr>>>8)&&&0xFF).toUInt8.toNat)*256+
    (addr&&&0xFF).toUInt8.toNat

/-- BUFFER_SIZE of flash_spi.c. -/
abbrev bufferSize : ℕ := 512

/-- A store to an element of spi3_buf. Nothing reads this array. -/
def storeReceived (i : ℕ) : Option Unit := if i<bufferSize then some () else none

/-- The stores of the loop of write_data, from index `i` on. -/
def receiveLoop : (left i : ℕ) → Option Unit
  | 0,_ => some ()
  | left+1,i => (storeReceived i).bind fun _ => receiveLoop left (i+1)

/-- What write_data stores while it sends so many bytes. -/
def receive (len : UInt16) : Option Unit := receiveLoop len.toNat 0

/-- zd25_read_data: the bytes that the chip sends. -/
def zd25ReadData (addr : UInt32) (cnt : UInt16) (z : Mem UInt8) : List UInt8 :=
  (List.range cnt.toNat).map fun i => z ((addr24 addr+i)%chipSize)

/-- zd25_write_data: the four bytes of the command, and the data. -/
def zd25WriteData (addr : UInt32) (cnt : UInt16) (buf : List UInt8) (z : Mem UInt8) :
    Option (Mem UInt8) := do
  receive 4
  receive cnt
  return program 256 (addr24 addr) (buf.take cnt.toNat) z

/-- zd25_sector_erase. -/
def zd25SectorErase (addr : UInt32) (z : Mem UInt8) : Mem UInt8 :=
  exec 4096 (.erase (addr24 addr/4096)) z

/-- zd25_flash_read: the count of bytes is a half-word. -/
def zd25FlashRead (readAddr : UInt32) (numRead : UInt16) (z : Mem UInt8) : List UInt8 :=
  zd25ReadData readAddr (numRead*2) z

/-- The buffer of the caller behind a read. -/
def received (buffer bytes : List UInt8) : List UInt8 := bytes++buffer.drop bytes.length

/-- zd25_flash_write_nocheck. -/
def zd25FlashWriteNocheck (writeAddr : UInt32) (pBuffer : List UInt8) (numWrite : UInt16)
    (z : Mem UInt8) : Option (Mem UInt8) := zd25WriteData writeAddr (numWrite*2) pBuffer z

/-- One round of the loop of zd25_flash_write. -/
def writeSector (sectorPosition : UInt32) (sectorOffset sectorRemain : UInt16)
    (writeAddr : UInt32) (pBuffer : List UInt8) (z : Mem UInt8) : Option (Mem UInt8) :=
  let flashBuf := zd25FlashRead (sectorPosition*4096) 2048 z
  if halfWordsBlank flashBuf sectorOffset.toNat sectorRemain.toNat then
    zd25FlashWriteNocheck writeAddr pBuffer sectorRemain z
  else
    let z := zd25SectorErase (sectorPosition*4096) z
    let flashBuf := zd25FlashRead (sectorPosition*4096) 2048 z
    let flashBuf := patch flashBuf (2*sectorOffset.toNat) (pBuffer.take (sectorRemain.toNat*2))
    zd25FlashWriteNocheck (sectorPosition*4096) flashBuf 2048 z

/-- The loop of zd25_flash_write. Every round but the last shortens numWrite,
so `numWrite+1` rounds are always enough. -/
def zd25FlashWriteLoop : ℕ → (sectorPosition : UInt32) → (sectorOffset sectorRemain : UInt16) →
    (writeAddr : UInt32) → (numWrite : UInt16) → List UInt8 → Mem UInt8 → Option (Mem UInt8)
  | 0,_,_,_,_,_,_,z => some z
  | fuel+1,sectorPosition,sectorOffset,sectorRemain,writeAddr,numWrite,pBuffer,z => do
    let z ← writeSector sectorPosition sectorOffset sectorRemain writeAddr pBuffer z
    if numWrite=sectorRemain then return z
    else
      let left := numWrite-sectorRemain
      zd25FlashWriteLoop fuel (sectorPosition+1) 0 (if left>2048 then 2048 else left)
        (writeAddr+sectorRemain.toUInt32*2) left (pBuffer.drop (sectorRemain.toNat*2)) z

/-- zd25_flash_write. -/
def zd25FlashWrite (writeAddr : UInt32) (pBuffer : List UInt8) (numWrite : UInt16)
    (z : Mem UInt8) : Option (Mem UInt8) :=
  let sectorPosition := writeAddr/4096
  let sectorOffset := (writeAddr%4096/2).toUInt16
  let sectorRemain := 2048-sectorOffset
  let sectorRemain := if numWrite ≤ sectorRemain then numWrite else sectorRemain
  zd25FlashWriteLoop (numWrite.toNat+1) sectorPosition sectorOffset sectorRemain writeAddr
    numWrite pBuffer z

/-! ## One sector -/

/-- The chip joins the three address bytes to the lower 24 bits of the address. -/
theorem addr24_eq (addr : UInt32) : addr24 addr=addr.toNat%chipSize := by
  have h0 := BigEndian.byte32_toNat addr 0 (by decide)
  have h8 := BigEndian.byte32_toNat addr 8 (by decide)
  have h16 := BigEndian.byte32_toNat addr 16 (by decide)
  have hc8 : (8 : UInt32).toNat=8 := rfl
  have hc16 : (16 : UInt32).toNat=16 := rfl
  rw [UInt32.shiftRight_zero,UInt32.toNat_zero,pow_zero,Nat.div_one] at h0
  unfold addr24 chipSize
  rw [h0,h8,h16,hc8,hc16]
  omega

/-- The stores of a transfer stay inside spi3_buf up to its size. -/
theorem receiveLoop_eq : ∀ left i : ℕ,i+left ≤ bufferSize ∨ i<bufferSize →
    receiveLoop left i=if i+left ≤ bufferSize then some () else none
  | 0,i,h => by
    rw [if_pos (by omega)]
    rfl
  | left+1,i,h => by
    have hin : i<bufferSize := by omega
    rw [receiveLoop,storeReceived,if_pos hin,Option.bind_some]
    by_cases hnext : i+1+left ≤ bufferSize ∨ i+1<bufferSize
    · rw [receiveLoop_eq left (i+1) hnext]
      exact if_congr (by omega) rfl rfl
    · obtain ⟨left,rfl⟩ := Nat.exists_eq_succ_of_ne_zero (n:=left) (by omega)
      rw [receiveLoop,storeReceived,if_neg (by omega),if_neg (by omega)]
      rfl

theorem receive_eq (len : UInt16) :
    receive len=if len.toNat ≤ bufferSize then some () else none := by
  unfold receive
  rw [receiveLoop_eq _ _ (Or.inr (by decide)),Nat.zero_add]

/-- A transfer of data that fits spi3_buf is programmed. -/
theorem zd25WriteData_eq (addr : UInt32) (cnt : UInt16) (buf : List UInt8) (z : Mem UInt8) :
    zd25WriteData addr cnt buf z=if cnt.toNat ≤ bufferSize then
      some (program 256 (addr24 addr) (buf.take cnt.toNat) z) else none := by
  unfold zd25WriteData
  rw [receive_eq cnt]
  split <;> rfl

/-- Writing at most a sector's rest of bytes `bs` at an address of the chip.
Over bytes in use the driver sends the whole sector, which spi3_buf cannot take. -/
def writePart (a : ℕ) (bs : List UInt8) (z : Mem UInt8) : Option (Mem UInt8) :=
  if load z a bs.length=blank bs.length ∧ bs.length ≤ bufferSize then some (program 256 a bs z)
  else none

/-- A whole sector is read without leaving the chip. -/
theorem zd25FlashRead_sector {addr : UInt32} {q : ℕ} (hq : q<4096) (haddr : addr24 addr=q*4096)
    (z : Mem UInt8) : zd25FlashRead addr 2048 z=load z (q*4096) 4096 := by
  unfold zd25FlashRead zd25ReadData load
  rw [haddr]
  refine List.map_congr_left fun i hi => ?_
  have hlt : i<4096 := List.mem_range.mp hi
  unfold chipSize
  rw [Nat.mod_eq_of_lt (by omega)]

/-- A round by its scan of the sector: the whole sector does not fit spi3_buf. -/
theorem writeSector_scan (sectorPosition : UInt32) (sectorOffset sectorRemain : UInt16)
    (writeAddr : UInt32) (pBuffer : List UInt8) (z : Mem UInt8) :
    writeSector sectorPosition sectorOffset sectorRemain writeAddr pBuffer z=
      if halfWordsBlank (zd25FlashRead (sectorPosition*4096) 2048 z) sectorOffset.toNat
          sectorRemain.toNat=true ∧ (sectorRemain*2).toNat ≤ bufferSize then
        some (program 256 (addr24 writeAddr) (pBuffer.take (sectorRemain*2).toNat) z)
      else none := by
  have hall : ¬((2048 : UInt16)*2).toNat ≤ bufferSize := by decide
  unfold writeSector zd25FlashWriteNocheck
  dsimp only
  rw [zd25WriteData_eq,zd25WriteData_eq,if_neg hall]
  by_cases hscan : halfWordsBlank (zd25FlashRead (sectorPosition*4096) 2048 z) sectorOffset.toNat
      sectorRemain.toNat=true
  · rw [if_pos hscan]
    exact if_congr (and_iff_right hscan).symm rfl rfl
  · rw [if_neg hscan,if_neg fun h => hscan h.1]

/-- A round of the driver writes the rest of a sector. -/
theorem writeSector_eq {sectorPosition : UInt32} {sectorOffset sectorRemain : UInt16}
    {writeAddr : UInt32} {a : ℕ} {pBuffer : List UInt8} (ha : a<chipSize)
    (hbase : addr24 (sectorPosition*4096)=a/4096*4096) (haddr : addr24 writeAddr=a)
    (hoffset : sectorOffset.toNat*2=a%4096) (hfits : a%4096+sectorRemain.toNat*2≤4096)
    (hlen : sectorRemain.toNat*2≤pBuffer.length) (z : Mem UInt8) :
    writeSector sectorPosition sectorOffset sectorRemain writeAddr pBuffer z=
      writePart a (pBuffer.take (sectorRemain.toNat*2)) z := by
  have hq : a/4096<4096 := by
    unfold chipSize at ha
    omega
  have htake : (pBuffer.take (sectorRemain.toNat*2)).length=sectorRemain.toNat*2 := by
    rw [List.length_take]
    omega
  have hcnt : (sectorRemain*2).toNat=sectorRemain.toNat*2 := by
    have h2 : (2 : UInt16).toNat=2 := rfl
    rw [UInt16.toNat_mul,h2]
    omega
  have hscan := @halfWordsBlank_iff ⟨z,[]⟩ (a/4096) sectorOffset.toNat sectorRemain.toNat
    (by omega)
  have hstart : a/4096*4096+2*sectorOffset.toNat=a := by omega
  rw [hstart] at hscan
  change halfWordsBlank (load z (a/4096*4096) 4096) _ _=true ↔ _ at hscan
  have hblank : load z a (sectorRemain.toNat*2)=blank (sectorRemain.toNat*2) ↔
      halfWordsBlank (zd25FlashRead (sectorPosition*4096) 2048 z) sectorOffset.toNat
        sectorRemain.toNat=true := by
    rw [zd25FlashRead_sector hq hbase z]
    exact hscan.symm
  rw [writeSector_scan,writePart,htake,haddr,hcnt]
  exact if_congr (and_congr_left fun _ => hblank.symm) rfl rfl

/-- Other sectors keep their bytes. -/
theorem writePart_other {a : ℕ} {bs : List UInt8} {z z' : Mem UInt8} {x : ℕ}
    (hz : writePart a bs z=some z') (h : x/4096≠a/4096) : z' x=z x := by
  have hpage : x/256≠a/256 := by omega
  unfold writePart at hz
  split at hz
  · cases hz
    exact program_of_other_page hpage
  · cases hz

/-- The part was blank and fits spi3_buf, and the byte is blank or reaches its
address. -/
def PartFits (z : Mem UInt8) (a : ℕ) (bs : List UInt8) (k : ℕ) (b : UInt8) : Prop :=
  (∀ i<bs.length,z (a+i)=blankByte) ∧ bs.length ≤ bufferSize ∧
    (b=blankByte ∨ Reaches 256 a bs k)

/-- The rest of a sector is read back exactly when all its bytes fit. -/
theorem writePart_reads_iff (a : ℕ) (bs : List UInt8) (z : Mem UInt8) :
    (∃ z',writePart a bs z=some z' ∧ ∀ k (hk : k<bs.length),z' (a+k)=bs[k]) ↔
      ∀ k (hk : k<bs.length),PartFits z a bs k bs[k] := by
  unfold writePart PartFits
  by_cases hpart : load z a bs.length=blank bs.length ∧ bs.length ≤ bufferSize
  · have hblank := load_eq_blank_iff.mp hpart.1
    have hreads := program_reads_iff (P:=256) (by decide) hblank
    rw [if_pos hpart]
    constructor
    · rintro ⟨z',hz',h⟩ k hk
      cases hz'
      exact ⟨hblank,hpart.2,hreads.mp h k hk⟩
    · exact fun h => ⟨_,rfl,hreads.mpr fun k hk => (h k hk).2.2⟩
  · rw [if_neg hpart]
    refine iff_of_false (fun ⟨z',hz',_⟩ => nomatch hz') fun h => ?_
    rcases Nat.eq_zero_or_pos bs.length with hzero|hpos
    · exact hpart (by rw [hzero]; exact ⟨rfl,Nat.zero_le _⟩)
    · exact hpart ⟨load_eq_blank_iff.mpr (h 0 hpos).1,(h 0 hpos).2.1⟩

/-! ## The whole range -/

/-- Half-words up to the end of a sector. -/
def partCnt (w n : ℕ) : ℕ := min n ((4096-w%4096)/2)

/-- Writing bytes sector by sector, from an address that is not yet reduced
to the chip. -/
def writeRange : ℕ → (w n : ℕ) → List UInt8 → Mem UInt8 → Option (Mem UInt8)
  | 0,_,_,_,z => some z
  | fuel+1,w,n,bs,z =>
    (writePart (w%chipSize) (bs.take (partCnt w n*2)) z).bind fun z =>
      if n=partCnt w n then some z
      else writeRange fuel (w+partCnt w n*2) (n-partCnt w n) (bs.drop (partCnt w n*2)) z

/-- What the variables of the loop stand for at the start of a round. -/
structure Round (w n : ℕ) (sectorPosition : UInt32) (sectorOffset sectorRemain : UInt16)
    (writeAddr : UInt32) (numWrite : UInt16) : Prop where
  /-- sector_position. -/
  base : addr24 (sectorPosition*4096)=w%chipSize/4096*4096
  /-- sector_offset. -/
  offset : sectorOffset.toNat*2=w%4096
  /-- sector_remain. -/
  remain : sectorRemain.toNat=partCnt w n
  /-- write_addr. -/
  addr : addr24 writeAddr=w%chipSize
  /-- num_write. -/
  count : numWrite.toNat=n

/-- A round that is not the last one ends at the end of its sector. -/
theorem partCnt_of_ne {w n : ℕ} (hw : w%2=0) (h : n≠partCnt w n) :
    partCnt w n<n ∧ partCnt w n*2=4096-w%4096 := by
  unfold partCnt at *
  omega

theorem partCnt_le (w n : ℕ) : partCnt w n≤n := min_le_left _ _

/-- The next sector position as an address of the chip. -/
theorem sector_step (q : ℕ) : (q+1)%2^32*4096%2^32%16777216=
    (q*4096%2^32%16777216+4096)%16777216 := by omega

/-- The variables of the next round. -/
theorem Round.next {w n : ℕ} {sectorPosition : UInt32} {sectorOffset sectorRemain : UInt16}
    {writeAddr : UInt32} {numWrite : UInt16}
    (h : Round w n sectorPosition sectorOffset sectorRemain writeAddr numWrite)
    (hn : n≠partCnt w n) :
    Round (w+partCnt w n*2) (n-partCnt w n) (sectorPosition+1) 0
      (if numWrite-sectorRemain>2048 then 2048 else numWrite-sectorRemain)
      (writeAddr+sectorRemain.toUInt32*2) (numWrite-sectorRemain) := by
  have heven : w%2=0 := by
    have ho := h.offset
    omega
  obtain ⟨hlt,hend⟩ := partCnt_of_ne heven hn
  have hstart : (w+partCnt w n*2)%4096=0 := by omega
  have hleft : (numWrite-sectorRemain).toNat=n-partCnt w n := by
    rw [UInt16.toNat_sub_of_le,h.count,h.remain]
    rw [UInt16.le_iff_toNat_le,h.count,h.remain]
    exact hlt.le
  have h4096 : (4096 : UInt32).toNat=4096 := rfl
  have h2 : (2 : UInt32).toNat=2 := rfl
  have h1 : (1 : UInt32).toNat=1 := rfl
  have hbase := h.base
  have haddr := h.addr
  rw [addr24_eq,UInt32.toNat_mul,h4096] at hbase
  rw [addr24_eq] at haddr
  unfold chipSize at *
  refine ⟨?_,?_,?_,?_,hleft⟩
  · have hnext : (w+partCnt w n*2)%16777216/4096*4096=
        (w%16777216/4096*4096+4096)%16777216 := by
      clear hbase haddr
      omega
    rw [addr24_eq,UInt32.toNat_mul,UInt32.toNat_add,h4096,h1,hnext,←hbase]
    exact sector_step _
  · rw [UInt16.toNat_zero,Nat.zero_mul,hstart]
  · have h2048 : (2048 : UInt16).toNat=2048 := rfl
    have hmin : partCnt (w+partCnt w n*2) (n-partCnt w n)=min (n-partCnt w n) 2048 := by
      rw [partCnt.eq_1 (w+partCnt w n*2),hstart]
    rw [hmin]
    by_cases hbig : numWrite-sectorRemain>2048
    · rw [if_pos hbig,h2048]
      rw [gt_iff_lt,UInt16.lt_iff_toNat_lt,hleft,h2048] at hbig
      omega
    · rw [if_neg hbig,hleft]
      rw [gt_iff_lt,UInt16.lt_iff_toNat_lt,hleft,h2048] at hbig
      omega
  · rw [addr24_eq,UInt32.toNat_add,UInt32.toNat_mul,UInt16.toNat_toUInt32,h.remain,h2]
    unfold chipSize
    omega

/-- The loop of the driver writes the range sector by sector. -/
theorem zd25FlashWriteLoop_eq : ∀ (fuel w n : ℕ) (sectorPosition : UInt32)
    (sectorOffset sectorRemain : UInt16) (writeAddr : UInt32) (numWrite : UInt16)
    (bs : List UInt8) (z : Mem UInt8),
    Round w n sectorPosition sectorOffset sectorRemain writeAddr numWrite → bs.length=n*2 →
    zd25FlashWriteLoop fuel sectorPosition sectorOffset sectorRemain writeAddr numWrite bs z=
      writeRange fuel w n bs z := by
  intro fuel
  induction fuel with
  | zero => exact fun _ _ _ _ _ _ _ _ _ _ _ => rfl
  | succ fuel ih =>
    intro w n sectorPosition sectorOffset sectorRemain writeAddr numWrite bs z h hbs
    have hle := partCnt_le w n
    have hin : w%4096+partCnt w n*2≤4096 := by
      unfold partCnt
      omega
    have hmod : w%chipSize%4096=w%4096 := by
      unfold chipSize
      omega
    have hsector := @writeSector_eq sectorPosition sectorOffset sectorRemain writeAddr
      (w%chipSize) bs (Nat.mod_lt _ (by decide)) h.base h.addr (by rw [hmod]; exact h.offset)
      (by rw [hmod,h.remain]; exact hin) (by rw [h.remain,hbs]; omega) z
    have hlast : numWrite=sectorRemain ↔ n=partCnt w n := by
      rw [←UInt16.toNat_inj,h.count,h.remain]
    rw [zd25FlashWriteLoop,writeRange,hsector,h.remain]
    refine congrArg (Option.bind _) (funext fun z => ?_)
    by_cases hn : n=partCnt w n
    · rw [if_pos hn,if_pos (hlast.mpr hn)]
      rfl
    · rw [if_neg hn,if_neg (mt hlast.mp hn)]
      refine ih _ _ _ _ _ _ _ _ _ (h.next hn) ?_
      rw [List.length_drop,hbs]
      omega

/-- The part of a range in the sector of its byte `k` begins here. -/
def partStart (w k : ℕ) : ℕ := max w ((w+k)/4096*4096)

/-- And ends here. -/
def partEnd (w l k : ℕ) : ℕ := min (w+l) ((w+k)/4096*4096+4096)

/-- The part of the range in the byte's sector was blank and fits spi3_buf, and
the byte is blank or reaches its address: it lies in the first page of the part
and not so far from its end that a later byte takes its place. -/
def ByteFits (z : Mem UInt8) (w l k : ℕ) (b : UInt8) : Prop :=
  (∀ y,partStart w k ≤ y → y<partEnd w l k → z (y%chipSize)=blankByte) ∧
  partEnd w l k-partStart w k ≤ bufferSize ∧
  (b=blankByte ∨ (w+k)/256=partStart w k/256 ∧ partEnd w l k ≤ w+k+256)

/-- Sectors that the range does not meet keep their bytes. -/
theorem writeRange_other : ∀ (fuel w n : ℕ) (bs : List UInt8) (z z' : Mem UInt8) (x : ℕ),w%2=0 →
    0<n → writeRange fuel w n bs z=some z' →
    (∀ y,w≤y → y<w+n*2 → y%chipSize/4096≠x/4096) → z' x=z x := by
  intro fuel
  induction fuel with
  | zero => exact fun _ _ _ _ _ x _ _ hz _ => congrFun (Option.some.inj hz).symm x
  | succ fuel ih =>
    intro w n bs z z' x hw hn hz h
    obtain ⟨z1,hz1,hz⟩ := Option.bind_eq_some_iff.mp hz
    have hfirst : z1 x=z x := writePart_other hz1 (h w le_rfl (by omega)).symm
    split at hz
    next =>
      cases hz
      exact hfirst
    next hne =>
      obtain ⟨hlt,hend⟩ := partCnt_of_ne hw hne
      rw [ih _ _ _ _ _ _ (by omega) (by omega) hz fun y h0 h1 => h y (by omega) (by omega),hfirst]

/-- The first part of the range is read back exactly when its bytes fit. -/
theorem firstPart_reads_iff {w r : ℕ} {bs : List UInt8} (hlen : r≤bs.length)
    (hend : w+r=min (w+bs.length) (w/4096*4096+4096)) (z : Mem UInt8) :
    (∃ z',writePart (w%chipSize) (bs.take r) z=some z' ∧
      ∀ k (hk : k < r),z' ((w+k)%chipSize)=bs[k]) ↔
      ∀ k (hk : k < r),ByteFits z w bs.length k bs[k] := by
  have htake : (bs.take r).length=r := by
    rw [List.length_take]
    omega
  have hpart := writePart_reads_iff (w%chipSize) (bs.take r) z
  simp only [htake,List.getElem_take] at hpart
  have hplace {k : ℕ} (hk : k < r) : (w+k)%chipSize=w%chipSize+k := by
    unfold chipSize
    omega
  have hfits {k : ℕ} (hk : k < r) (b : UInt8) :
      PartFits z (w%chipSize) (bs.take r) k b ↔ ByteFits z w bs.length k b := by
    have hlow : partStart w k=w := by
      unfold partStart
      omega
    have hhigh : partEnd w bs.length k=w+r := by
      unfold partEnd
      omega
    have hpage : (w%chipSize+k)/256=w%chipSize/256 ↔ (w+k)/256=w/256 := by
      unfold chipSize
      omega
    unfold PartFits ByteFits Reaches
    rw [hlow,hhigh,htake,hpage,Nat.add_sub_cancel_left]
    refine and_congr ⟨fun h y h0 h1 => ?_,fun h i hi => ?_⟩
      (and_congr_right fun _ => or_congr_right (and_congr_right fun _ => by omega))
    · have hy := h (y-w) (by omega)
      rwa [←hplace (by omega),Nat.add_sub_cancel' h0] at hy
    · rw [←hplace hi]
      exact h (w+i) (by omega) (by omega)
  have hread (z' : Mem UInt8) : (∀ k (hk : k < r),z' ((w+k)%chipSize)=bs[k]) ↔
      ∀ k (hk : k < r),z' (w%chipSize+k)=bs[k] :=
    forall₂_congr fun k hk => by rw [hplace hk]
  simp only [hread]
  exact hpart.trans (forall₂_congr fun k hk => hfits hk bs[k])

/-- The bytes behind a part that ends with its sector fit or not whatever the
part is. -/
theorem byteFits_rest {w r l : ℕ} {bs : List UInt8} {z z' : Mem UInt8} (hr : w%4096+r=4096)
    (hl : r≤l) (hround : w%4096+l ≤ chipSize) (hz : writePart (w%chipSize) bs z=some z')
    (k : ℕ) (b : UInt8) : ByteFits z' (w+r) (l-r) k b ↔ ByteFits z w l (r+k) b := by
  have hadd : w+r+(l-r)=w+l := by omega
  have hlow : partStart (w+r) k=partStart w (r+k) := by
    unfold partStart
    omega
  have hhigh : partEnd (w+r) (l-r) k=partEnd w l (r+k) := by
    unfold partEnd
    rw [hadd,Nat.add_assoc]
  unfold ByteFits
  rw [hlow,hhigh,Nat.add_assoc w r k]
  refine and_congr_left fun _ => forall₃_congr fun y h0 h1 => ?_
  unfold partStart partEnd at *
  rw [writePart_other hz]
  unfold chipSize at *
  omega

/-- The numbers below a bound are those below a part of it and those behind. -/
theorem forall_lt_split {l r : ℕ} (h : r≤l) {P : ∀ k,k<l → Prop} :
    (∀ k hk,P k hk) ↔
      (∀ k (hk : k < r),P k (hk.trans_le h)) ∧ ∀ k (hk : k<l-r),P (r+k) (by omega) := by
  refine ⟨fun hall => ⟨fun k _ => hall k _,fun k _ => hall (r+k) _⟩,fun hall k hk => ?_⟩
  by_cases hkr : k < r
  · exact hall.1 k hkr
  · obtain ⟨j,rfl⟩ := Nat.exists_eq_add_of_le (Nat.le_of_not_lt hkr)
    exact hall.2 j (by omega)

/-- A range that does not go round the whole chip is read back exactly when
all its bytes fit. -/
theorem writeRange_reads_iff : ∀ (fuel w n : ℕ) (bs : List UInt8) (z : Mem UInt8),n<fuel →
    w%2=0 → 0<n → bs.length=n*2 → w%4096+n*2 ≤ chipSize →
    ((∃ z',writeRange fuel w n bs z=some z' ∧
      ∀ k (hk : k<bs.length),z' ((w+k)%chipSize)=bs[k]) ↔
      ∀ k (hk : k<bs.length),ByteFits z w bs.length k bs[k]) := by
  intro fuel
  induction fuel with
  | zero => exact fun _ _ _ _ h => absurd h (Nat.not_lt_zero _)
  | succ fuel ih =>
    intro w n bs z hfuel hw hn hbs hround
    have hle := partCnt_le w n
    have hend : w+partCnt w n*2=min (w+bs.length) (w/4096*4096+4096) := by
      rw [hbs]
      unfold partCnt
      omega
    have hfirst := firstPart_reads_iff (r:=partCnt w n*2) (by omega) hend z
    by_cases hlast : n=partCnt w n
    · have hall : bs.length=partCnt w n*2 := by omega
      have hone : writeRange (fuel+1) w n bs z=
          writePart (w%chipSize) (bs.take (partCnt w n*2)) z := by
        rw [writeRange]
        simp only [if_pos hlast]
        exact Option.bind_fun_some _
      rw [hone]
      simp only [←hall] at hfirst ⊢
      exact hfirst
    · obtain ⟨hlt,hsector⟩ := partCnt_of_ne hw hlast
      have hdrop : (bs.drop (partCnt w n*2)).length=bs.length-partCnt w n*2 := List.length_drop
      have hsplit : partCnt w n*2≤bs.length := by omega
      have hrest (z1 : Mem UInt8) := ih (w+partCnt w n*2) (n-partCnt w n)
        (bs.drop (partCnt w n*2)) z1 (by omega) (by omega) (by omega) (by omega)
        (by unfold chipSize at *; omega)
      simp only [hdrop,List.getElem_drop,Nat.add_assoc w] at hrest
      -- later parts lie in other sectors
      have hkeeps {z1 z' : Mem UInt8} (hz' : writeRange fuel (w+partCnt w n*2) (n-partCnt w n)
          (bs.drop (partCnt w n*2)) z1=some z') {k : ℕ} (hk : k<partCnt w n*2) :
          z' ((w+k)%chipSize)=z1 ((w+k)%chipSize) := by
        refine writeRange_other _ _ _ _ _ _ _ (by omega) (by omega) hz' fun y h0 h1 => ?_
        unfold chipSize at *
        omega
      have hbyte {z1 : Mem UInt8}
          (hz1 : writePart (w%chipSize) (bs.take (partCnt w n*2)) z=some z1) (k : ℕ) (b : UInt8) :=
        @byteFits_rest w (partCnt w n*2) bs.length _ z z1 (by omega) (by omega) (by omega) hz1 k b
      rw [writeRange]
      simp only [if_neg hlast]
      constructor
      · rintro ⟨z',hz',h⟩
        obtain ⟨z1,hz1,hz'⟩ := Option.bind_eq_some_iff.mp hz'
        obtain ⟨h0,h1⟩ := (forall_lt_split hsplit).mp h
        have hfront := hfirst.mp ⟨z1,hz1,fun k hk => by rw [←hkeeps hz' hk]; exact h0 k hk⟩
        have hback := (hrest z1).mp ⟨z',hz',h1⟩
        exact (forall_lt_split hsplit).mpr
          ⟨hfront,fun k hk => (hbyte hz1 k _).mp (hback k hk)⟩
      · intro h
        obtain ⟨h0,h1⟩ := (forall_lt_split hsplit).mp h
        obtain ⟨z1,hz1,hfront⟩ := hfirst.mpr h0
        obtain ⟨z',hz',hback⟩ := (hrest z1).mpr fun k hk => (hbyte hz1 k _).mpr (h1 k hk)
        refine ⟨z',Option.bind_eq_some_iff.mpr ⟨z1,hz1,hz'⟩,?_⟩
        exact (forall_lt_split hsplit).mpr
          ⟨fun k hk => by rw [hkeeps hz' hk]; exact hfront k hk,hback⟩

/-- The variables of the first round. -/
theorem round_first {writeAddr : UInt32} (h : writeAddr.toNat%2=0) (numWrite : UInt16) :
    Round writeAddr.toNat numWrite.toNat (writeAddr/4096) (writeAddr%4096/2).toUInt16
      (if numWrite ≤ 2048-(writeAddr%4096/2).toUInt16 then numWrite
        else 2048-(writeAddr%4096/2).toUInt16) writeAddr numWrite := by
  have hw := writeAddr.toNat_lt
  have h4096 : (4096 : UInt32).toNat=4096 := rfl
  have h2 : (2 : UInt32).toNat=2 := rfl
  have h2048 : (2048 : UInt16).toNat=2048 := rfl
  have hoffset : (writeAddr%4096/2).toUInt16.toNat=writeAddr.toNat%4096/2 := by
    rw [UInt32.toNat_toUInt16,UInt32.toNat_div,UInt32.toNat_mod,h4096,h2]
    omega
  have hroom : (2048-(writeAddr%4096/2).toUInt16).toNat=2048-writeAddr.toNat%4096/2 := by
    have hle : (writeAddr%4096/2).toUInt16 ≤ 2048 := by
      rw [UInt16.le_iff_toNat_le,hoffset,h2048]
      omega
    rw [UInt16.toNat_sub_of_le _ _ hle,hoffset,h2048]
  refine ⟨?_,?_,?_,addr24_eq writeAddr,rfl⟩
  · rw [addr24_eq,UInt32.toNat_mul,UInt32.toNat_div,h4096]
    unfold chipSize
    omega
  · rw [hoffset]
    omega
  · unfold partCnt
    by_cases hle : numWrite ≤ 2048-(writeAddr%4096/2).toUInt16
    · rw [if_pos hle]
      rw [UInt16.le_iff_toNat_le,hroom] at hle
      omega
    · rw [if_neg hle,hroom]
      rw [UInt16.le_iff_toNat_le,hroom] at hle
      omega

/-- The driver writes the range sector by sector. -/
theorem zd25FlashWrite_eq {writeAddr : UInt32} (h : writeAddr.toNat%2=0) {numWrite : UInt16}
    {bs : List UInt8} (hbs : bs.length=numWrite.toNat*2) (z : Mem UInt8) :
    zd25FlashWrite writeAddr bs numWrite z=
      writeRange (numWrite.toNat+1) writeAddr.toNat numWrite.toNat bs z :=
  zd25FlashWriteLoop_eq _ _ _ _ _ _ _ _ _ _ (round_first h numWrite) hbs

/-- What a read of the driver leaves in the buffer of the caller. -/
def readBack (readAddr : UInt32) (numRead : UInt16) (buffer : List UInt8) (z : Mem UInt8) :
    List UInt8 := received buffer (zd25FlashRead readAddr numRead z)

theorem zd25FlashRead_length (readAddr : UInt32) (numRead : UInt16) (z : Mem UInt8) :
    (zd25FlashRead readAddr numRead z).length=numRead.toNat*2%65536 := by
  unfold zd25FlashRead zd25ReadData
  rw [List.length_map,List.length_range]
  exact UInt16.toNat_mul numRead 2

theorem zd25FlashRead_getElem (readAddr : UInt32) (numRead : UInt16) (z : Mem UInt8) {k : ℕ}
    (hk : k<(zd25FlashRead readAddr numRead z).length) :
    (zd25FlashRead readAddr numRead z)[k]=z ((readAddr.toNat+k)%chipSize) := by
  have hmap : k<((List.range (numRead*2).toNat).map fun i =>
      z ((addr24 readAddr+i)%chipSize)).length := hk
  have hget := List.getElem_map (h:=hmap)
  rw [List.getElem_range] at hget
  refine hget.trans (congrArg z ?_)
  rw [addr24_eq,Nat.mod_add_mod]

/-- Bytes that leave the same in every buffer fill it. -/
theorem received_eq_iff {bs bytes : List UInt8} (h : bytes.length≤bs.length) :
    (∀ buffer,buffer.length=bs.length → received buffer bytes=bs) ↔ bytes=bs := by
  unfold received
  constructor
  · intro hall
    by_cases hlen : bytes.length=bs.length
    · have hself := hall bs rfl
      rwa [hlen,List.drop_length,List.append_nil] at hself
    · -- the last byte of the buffer is not received
      have hlast (b : UInt8) : bs[bs.length-1]?=some b := by
        have hget : (_ : List UInt8)[bs.length-1]?=bs[bs.length-1]? :=
          congrArg (fun l : List UInt8 => l[bs.length-1]?)
            (hall (List.replicate bs.length b) List.length_replicate)
        rw [List.getElem?_append_right (by omega),List.getElem?_drop,List.getElem?_replicate,
          if_pos (by omega)] at hget
        exact hget.symm
      exact absurd (Option.some.inj ((hlast 0).symm.trans (hlast 1))) (by decide)
  · rintro rfl buffer hbuffer
    rw [←hbuffer,List.drop_length,List.append_nil]

/-- With its count of bytes cut to a half-word, a read fills the buffer only
up to 32767 half-words. -/
theorem readBack_eq_iff (readAddr : UInt32) (numRead : UInt16) {bs : List UInt8}
    (hbs : bs.length=numRead.toNat*2) (z : Mem UInt8) :
    (∀ buffer,buffer.length=bs.length → readBack readAddr numRead buffer z=bs) ↔
      numRead.toNat<32768 ∧
        ∀ k (hk : k<bs.length),z ((readAddr.toNat+k)%chipSize)=bs[k] := by
  have hnum := numRead.toNat_lt
  have hlen := zd25FlashRead_length readAddr numRead z
  refine (received_eq_iff (by omega)).trans ⟨fun h => ?_,fun ⟨hshort,h⟩ => ?_⟩
  · rw [h,hbs] at hlen
    refine ⟨by omega,fun k hk => ?_⟩
    rw [←zd25FlashRead_getElem readAddr numRead z (by rwa [h])]
    simp only [h]
  · refine List.ext_getElem (by omega) fun k hk hk' => ?_
    rw [zd25FlashRead_getElem readAddr numRead z hk,h k hk']

/-- For every even address, every buffer and every prior content of the chip:
the write stays inside spi3_buf and its bytes are read back exactly when they
are fewer than a half-word counts, every sector's part of the range was blank
and no longer than spi3_buf, and every byte that is not blank lies in the first
page of its part with no later byte sent over it. -/
theorem read_back_iff {writeAddr : UInt32} (h : writeAddr.toNat%2=0) {numWrite : UInt16}
    {bs : List UInt8} (hbs : bs.length=numWrite.toNat*2) (z : Mem UInt8) :
    (∃ z',zd25FlashWrite writeAddr bs numWrite z=some z' ∧
      ∀ buffer,buffer.length=bs.length → readBack writeAddr numWrite buffer z'=bs) ↔
    numWrite.toNat<32768 ∧
      ∀ k (hk : k<bs.length),ByteFits z writeAddr.toNat bs.length k bs[k] := by
  have hnum := numWrite.toNat_lt
  simp only [readBack_eq_iff writeAddr numWrite hbs,zd25FlashWrite_eq h hbs]
  have hrange : (∃ z',writeRange (numWrite.toNat+1) writeAddr.toNat numWrite.toNat bs z=some z' ∧
      ∀ k (hk : k<bs.length),z' ((writeAddr.toNat+k)%chipSize)=bs[k]) ↔
      ∀ k (hk : k<bs.length),ByteFits z writeAddr.toNat bs.length k bs[k] := by
    rcases Nat.eq_zero_or_pos numWrite.toNat with hzero|hpos
    · have hnone : bs=[] := List.eq_nil_of_length_eq_zero (by omega)
      subst hnone
      rw [hzero]
      exact iff_of_true ⟨_,rfl,fun k hk => absurd hk (Nat.not_lt_zero k)⟩
        fun k hk => absurd hk (Nat.not_lt_zero k)
    · exact writeRange_reads_iff _ _ _ _ _ (Nat.lt_succ_self _) h hpos hbs
        (by unfold chipSize; omega)
  rw [←hrange]
  constructor
  · exact fun ⟨z',hz',hshort,h⟩ => ⟨hshort,z',hz',h⟩
  · exact fun ⟨hshort,z',hz',h⟩ => ⟨z',hz',hshort,h⟩

/-- A record of the archive. -/
def sampleRecord : List UInt8 := [1,2,3,4,5,6,7,8,9,10,11,12,13,14,15,16]

/-- At the start of an erased data page the record is read back. -/
theorem sampleRecord_read_back : ∃ z',zd25FlashWrite 4096 sampleRecord 8 (fun _ => blankByte)=
    some z' ∧ ∀ buffer,buffer.length=16 → readBack 4096 8 buffer z'=sampleRecord := by
  have haddr : (4096 : UInt32).toNat=4096 := rfl
  have hlen : sampleRecord.length=16 := rfl
  refine (@read_back_iff 4096 rfl 8 sampleRecord rfl _).mpr ⟨by decide,fun k hk => ?_⟩
  rw [hlen] at hk ⊢
  rw [haddr]
  have hstart : partStart 4096 k=4096 := by
    unfold partStart
    omega
  have hend : partEnd 4096 16 k=4112 := by
    unfold partEnd
    omega
  unfold ByteFits
  rw [hstart,hend]
  exact ⟨fun _ _ _ => rfl,by decide,Or.inr ⟨by omega,by omega⟩⟩

/-- Across the end of a page it is lost even on an erased chip: its last eight
bytes go to the start of the page. -/
theorem sampleRecord_lost : ¬∃ z',zd25FlashWrite 4344 sampleRecord 8 (fun _ => blankByte)=
    some z' ∧ ∀ buffer,buffer.length=sampleRecord.length →
      readBack 4344 8 buffer z'=sampleRecord := by
  have haddr : (4344 : UInt32).toNat%2=0 := rfl
  have hlen : sampleRecord.length=(8 : UInt16).toNat*2 := rfl
  simp only [readBack_eq_iff 4344 8 hlen,zd25FlashWrite_eq haddr hlen]
  rintro ⟨z',hz',-,h⟩
  have hfits := (writeRange_reads_iff _ _ _ _ _ (Nat.lt_succ_self _) haddr (by decide) hlen
    (by decide)).mp ⟨z',hz',h⟩ 8 (by decide)
  rcases hfits.2.2 with hblank|⟨hpage,-⟩
  · exact absurd hblank (by decide)
  · exact absurd hpage (by decide)

end BT816Display.Zd25Pages
