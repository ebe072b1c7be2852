import BT816Display.Lib.SerialFlash
import BT816Display.Zd25Pages

/-!
# The ZD25 driver on its bus

The functions of zd25flash.c and flash_spi.c as they drive the chip: select,
one tick, bytes, deselect, and at most 50 polls of the status. When every
operation ends in time a run of calls does what it does on the chip of
`Zd25Pages`; otherwise commands fall on a chip that is still busy. As there,
nothing comes behind a store of write_data outside of spi3_buf.
-/

namespace BT816Display.Zd25Bus

open ByteMemory NorFlash PagedFlash SerialFlash
open Zd25Flash (halfWordsBlank)
open Zd25Pages (bufferSize receive receive_eq)

/-- The chip. -/
abbrev zd25 : Geometry := ⟨256,4096,16777216⟩

/-- error_status. -/
inductive ErrorStatus where
  /-- ERROR. -/
  | error
  /-- SUCCESS. -/
  | success
  deriving DecidableEq

/-- The driver on its bus. -/
abbrev DriverM := StateT Device Option

/-- chip_select with ZD25. -/
def chipSelect : DriverM Unit := modify Device.select

/-- vTaskDelay. -/
def vTaskDelay (ticks : ℕ) : DriverM Unit := modify (·.wait ticks)

/-- write_data: every byte that it receives meanwhile is stored in spi3_buf. -/
def writeData (buf : List UInt8) (len : UInt16) : DriverM Unit := fun c =>
  (receive len).map fun _ => ((),(Device.transfer zd25 (buf.take len.toNat) c).2)

/-- read_data. -/
def readData (len : UInt16) : DriverM (List UInt8) := fun c =>
  some (Device.transfer zd25 (List.replicate len.toNat 0xFF) c)

/-- The header of a command with an address. -/
def header (op : UInt8) (addr : UInt32) : List UInt8 :=
  [op,((addr>>>16)&&&0xFF).toUInt8,((addr>>>8)&&&0xFF).toUInt8,(addr&&&0xFF).toUInt8]

section Driver

variable (T : Timing)

/-- chip_deselect with ZD25. -/
def chipDeselect : DriverM Unit := modify (·.deselect zd25 T)

/-- zd25_write_enable. -/
def zd25WriteEnable : DriverM Unit := do
  chipSelect
  vTaskDelay 1
  writeData [0x06] 1
  chipDeselect T

/-- zd25_read_status_reg. -/
def zd25ReadStatusReg : DriverM UInt16 := do
  chipSelect
  vTaskDelay 1
  writeData [0x05] 1
  let answerBuf ← readData 2
  chipDeselect T
  return (answerBuf.getD 0 0).toUInt16<<<8 ||| (answerBuf.getD 1 0).toUInt16

/-- zd25_read_data. -/
def zd25ReadData (addr : UInt32) (cnt : UInt16) : DriverM (List UInt8) := do
  chipSelect
  vTaskDelay 1
  writeData (header 0x03 addr) 4
  let buf ← readData cnt
  chipDeselect T
  return buf

/-- zd25_write_data. -/
def zd25WriteData (addr : UInt32) (cnt : UInt16) (buf : List UInt8) : DriverM Unit := do
  chipSelect
  vTaskDelay 1
  writeData (header 0x02 addr) 4
  writeData buf cnt
  chipDeselect T

/-- zd25_sector_erase. -/
def zd25SectorErase (addr : UInt32) : DriverM Unit := do
  chipSelect
  vTaskDelay 1
  writeData (header 0x20 addr) 4
  chipDeselect T

/-- zd25_get_busy. -/
def zd25GetBusy : DriverM UInt8 := do
  let reg ← zd25ReadStatusReg T
  return if reg&&&0x01≠0 then 1 else 0

/-- zd25_flash_read. -/
def zd25FlashRead (readAddr : UInt32) (numRead : UInt16) : DriverM (List UInt8) :=
  zd25ReadData T readAddr (numRead*2)

/-- The loop over the remaining polls of both functions: whether one of them
found the chip ready. -/
def pollLoop : ℕ → DriverM Bool
  | 0 => return false
  | i+1 => do
    let busy ← zd25GetBusy T
    if busy=0 then return true
    else
      vTaskDelay 1
      pollLoop i

/-- zd25_flash_write_nocheck. -/
def zd25FlashWriteNocheck (writeAddr : UInt32) (pBuffer : List UInt8) (numWrite : UInt16) :
    DriverM ErrorStatus := do
  zd25WriteEnable T
  zd25WriteData T writeAddr (numWrite*2) pBuffer
  let ready ← pollLoop T 50
  return if ready=true then .success else .error

/-- One round of the loop of zd25_flash_write. -/
def writeSector (sectorPosition : UInt32) (sectorOffset sectorRemain : UInt16)
    (writeAddr : UInt32) (pBuffer : List UInt8) : DriverM ErrorStatus := do
  let flashBuf ← zd25FlashRead T (sectorPosition*4096) 2048
  if halfWordsBlank flashBuf sectorOffset.toNat sectorRemain.toNat=true then
    zd25FlashWriteNocheck T writeAddr pBuffer sectorRemain
  else
    zd25WriteEnable T
    zd25SectorErase T (sectorPosition*4096)
    let _ ← pollLoop T 50
    let flashBuf ← zd25FlashRead T (sectorPosition*4096) 2048
    zd25FlashWriteNocheck T (sectorPosition*4096)
      (patch flashBuf (2*sectorOffset.toNat) (pBuffer.take (sectorRemain.toNat*2))) 2048

/-- The loop of zd25_flash_write. -/
def zd25FlashWriteLoop : ℕ → (sectorPosition : UInt32) → (sectorOffset sectorRemain : UInt16) →
    (writeAddr : UInt32) → (numWrite : UInt16) → List UInt8 → DriverM ErrorStatus
  | 0,_,_,_,_,_,_ => return .success
  | fuel+1,sectorPosition,sectorOffset,sectorRemain,writeAddr,numWrite,pBuffer => do
    let status ← writeSector T sectorPosition sectorOffset sectorRemain writeAddr pBuffer
    if status≠.success then return .error
    else if numWrite=sectorRemain then return .success
    else
      let left := numWrite-sectorRemain
      zd25FlashWriteLoop fuel (sectorPosition+1) 0 (if left>2048 then 2048 else left)
        (writeAddr+sectorRemain.toUInt32*2) left (pBuffer.drop (sectorRemain.toNat*2))

/-- zd25_flash_write. -/
def zd25FlashWrite (writeAddr : UInt32) (pBuffer : List UInt8) (numWrite : UInt16) :
    DriverM ErrorStatus :=
  let sectorPosition := writeAddr/4096
  let sectorOffset := (writeAddr%4096/2).toUInt16
  let sectorRemain := 2048-sectorOffset
  let sectorRemain := if numWrite ≤ sectorRemain then numWrite else sectorRemain
  zd25FlashWriteLoop T (numWrite.toNat+1) sectorPosition sectorOffset sectorRemain writeAddr
    numWrite pBuffer

end Driver

/-! ## Sessions -/

variable {T : Timing} {k : Core}

/-- A chip between two selections. -/
abbrev atRest (k : Core) : Device := ⟨k,none⟩

/-- The chip after a tick and a selection. -/
def after (T : Timing) (k : Core) (bytes : List UInt8) : Device :=
  atRest ((k.wait 1).execute zd25 T bytes)

theorem zd25WriteEnable_run (k : Core) :
    zd25WriteEnable T (atRest k)=some ((),after T k [0x06]) := rfl

theorem zd25SectorErase_run (k : Core) (addr : UInt32) :
    zd25SectorErase T addr (atRest k)=some ((),after T k (header 0x20 addr)) := rfl

/-- A sequence of two calls. -/
theorem bind_apply {α β : Type} (f : DriverM α) (f' : α → DriverM β) (c : Device) :
    (f>>=f') c=(f c).bind fun r => f' r.1 r.2 := rfl

/-- A sequence of two calls of which the first one comes back. -/
theorem bind_of_some {α β : Type} {f : DriverM α} (f' : α → DriverM β) {c : Device} {r : α×Device}
    (h : f c=some r) : (f>>=f') c=f' r.1 r.2 := by
  rw [bind_apply,h,Option.bind_some]

/-- A write of data sends it all when it fits spi3_buf. -/
theorem zd25WriteData_run (k : Core) (addr : UInt32) (cnt : UInt16) (buf : List UInt8) :
    zd25WriteData T addr cnt buf (atRest k)=if cnt.toNat ≤ bufferSize then
      some ((),after T k (header 0x02 addr++buf.take cnt.toNat)) else none := by
  have hdata := transfer_selected (g:=zd25) (k.wait 1) (header 0x02 addr) (buf.take cnt.toNat)
  have hrun : zd25WriteData T addr cnt buf (atRest k)=
      ((receive cnt).map fun _ => ((),(Device.transfer zd25 (buf.take cnt.toNat)
        ⟨k.wait 1,some (header 0x02 addr)⟩).2)).bind fun r => chipDeselect T r.2 := rfl
  rw [hrun,hdata,receive_eq]
  split <;> rfl

/-- What the driver makes of two status bytes. -/
theorem status_busy (k : Core) :
    ((k.status.toUInt16<<<8 ||| k.status.toUInt16)&&&0x01≠0) ↔ k.busy≠0 := by
  have hidle : ∀ latch : Bool,(let status : UInt8 := 0+(if latch=true then 2 else 0)
      (status.toUInt16<<<8 ||| status.toUInt16)&&&0x01)=0 := by decide
  have hbusy : ∀ latch : Bool,(let status : UInt8 := 1+(if latch=true then 2 else 0)
      (status.toUInt16<<<8 ||| status.toUInt16)&&&0x01)≠0 := by decide
  unfold Core.status
  by_cases h : k.busy=0
  · rw [if_pos h]
    exact iff_of_false (fun hne => hne (hidle k.latch)) fun hne => hne h
  · rw [if_neg h]
    exact iff_of_true (hbusy k.latch) h

/-- A poll sees the chip one tick later. -/
theorem zd25GetBusy_run (k : Core) :
    zd25GetBusy T (atRest k)=some (if k.busy ≤ 1 then 0 else 1,atRest (k.wait 1)) := by
  have hexec : (k.wait 1).execute zd25 T [0x05,0xFF,0xFF]=k.wait 1 := by
    unfold Core.execute
    split <;> rfl
  have hrun : zd25GetBusy T (atRest k)=some (if ((k.wait 1).status.toUInt16<<<8 |||
      (k.wait 1).status.toUInt16)&&&0x01≠0 then 1 else 0,
        atRest ((k.wait 1).execute zd25 T [0x05,0xFF,0xFF])) := rfl
  rw [hrun,hexec]
  simp only [status_busy,Core.wait_busy]
  by_cases h : k.busy ≤ 1
  · rw [if_neg (by omega),if_pos h]
  · rw [if_pos (by omega),if_neg h]

/-- A read gets the bytes of a chip that is ready, and otherwise those of a
line that nothing drives. -/
theorem zd25ReadData_run (k : Core) (addr : UInt32) (cnt : UInt16) :
    zd25ReadData T addr cnt (atRest k)=
      some (if k.busy ≤ 1 then Zd25Pages.zd25ReadData addr cnt k.mem
        else List.replicate cnt.toNat 0xFF,atRest (k.wait 1)) := by
  have hdata := transfer_selected (g:=zd25) (k.wait 1) (header 0x03 addr)
    (List.replicate cnt.toNat 0xFF)
  have hrun : zd25ReadData T addr cnt (atRest k)=
      some ((Device.transfer zd25 (List.replicate cnt.toNat 0xFF)
        ⟨k.wait 1,some (header 0x03 addr)⟩).1,
       (Device.transfer zd25 (List.replicate cnt.toNat 0xFF)
        ⟨k.wait 1,some (header 0x03 addr)⟩).2.deselect zd25 T) := rfl
  have hexec : (k.wait 1).execute zd25 T (header 0x03 addr++List.replicate cnt.toNat 0xFF)=
      k.wait 1 := by
    unfold Core.execute header
    split
    · rfl
    · dsimp only [List.cons_append]
      unfold Core.long
      split <;> rfl
  rw [hrun,hdata]
  refine congrArg some (Prod.ext ?_ (congrArg atRest hexec))
  dsimp only
  rw [List.length_replicate]
  by_cases h : k.busy ≤ 1
  · rw [if_pos h]
    refine List.map_congr_left fun i hi => ?_
    have hi := List.mem_range.mp hi
    have hidle : ¬(k.wait 1).busy≠0 := fun hne => hne (by rw [Core.wait_busy]; omega)
    unfold Core.answer header
    dsimp only [List.cons_append,List.nil_append]
    rw [if_neg (by decide),if_neg hidle,if_pos rfl,List.length_take,List.length_replicate,
      Nat.min_eq_left hi.le]
    rfl
  · rw [if_neg h]
    refine List.eq_replicate_iff.mpr ⟨by rw [List.length_map,List.length_range],?_⟩
    intro b hb
    obtain ⟨i,-,rfl⟩ := List.mem_map.mp hb
    have hbusy : (k.wait 1).busy≠0 := by rw [Core.wait_busy]; omega
    unfold Core.answer header
    dsimp only [List.cons_append,List.nil_append]
    rw [if_neg (by decide),if_pos hbusy]

/-- Polling reports whether the chip was ready in time. -/
theorem pollLoop_run (n : ℕ) (k : Core) :
    pollLoop T n (atRest k)=some (decide (k.busy<2*n),atRest (k.wait (2*n))) := by
  induction n generalizing k with
  | zero => rfl
  | succ n ih =>
    rw [pollLoop,bind_of_some _ (zd25GetBusy_run k)]
    dsimp only
    by_cases h : k.busy ≤ 1
    · have hwait : k.wait 1=k.wait (2*(n+1)) := by
        unfold Core.wait
        rw [show k.busy-1=k.busy-2*(n+1) by omega]
      rw [if_pos h,if_pos rfl,decide_eq_true (by omega : k.busy<2*(n+1)),←hwait]
      rfl
    · have hdelay : vTaskDelay 1 (atRest (k.wait 1))=some ((),atRest (k.wait 2)) := by
        rw [←Core.wait_wait k 1 1]
        rfl
      rw [if_neg h,if_neg (by decide),bind_of_some _ hdelay,ih,Core.wait_wait,Core.wait_busy]
      refine congrArg some (Prod.ext (decide_eq_decide.mpr (by omega)) ?_)
      rw [show 2+2*n=2*(n+1) by omega]

/-! ## Operations -/

/-- The chip after write enable and a program command that it takes. -/
def programmed (T : Timing) (k : Core) (addr : UInt32) (bytes : List UInt8) : Core :=
  if bytes=[] then ⟨k.mem,true,0,k.started⟩
  else ⟨program 256 (Zd25Pages.addr24 addr) bytes k.mem,false,T.program k.started,k.started+1⟩

/-- The chip after write enable and an erase command that it takes. -/
def erased (T : Timing) (k : Core) (addr : UInt32) : Core :=
  ⟨Zd25Pages.zd25SectorErase addr k.mem,false,T.erase k.started,k.started+1⟩

/-- The status that polls report. -/
def statusOf (ready : Prop) [Decidable ready] : ErrorStatus := if ready then .success else .error

/-- The outcome of write enable, a program command and the polls. -/
def programOutcome (T : Timing) (k : Core) (addr : UInt32) (bytes : List UInt8) :
    ErrorStatus×Device :=
  (statusOf ((programmed T k addr bytes).busy<100),atRest ((programmed T k addr bytes).wait 100))

/-- Write enable on a chip that is ready at the next tick. -/
theorem writeEnable_ready (h : k.busy ≤ 1) : after T k [0x06]=atRest ⟨k.mem,true,0,k.started⟩ := by
  have hidle : (k.wait 1).busy=0 := by rw [Core.wait_busy]; omega
  unfold after Core.execute
  rw [if_neg (fun hne => hne hidle)]
  unfold Core.short Core.wait
  rw [show k.busy-1=0 by omega]
  rfl

/-- Write enable on a chip that is not. -/
theorem writeEnable_busy (h : 2 ≤ k.busy) : after T k [0x06]=atRest (k.wait 1) := by
  unfold after
  rw [Core.execute_of_busy (by rw [Core.wait_busy]; omega)]

/-- Without the latch no program or erase command is taken. -/
theorem after_unlatched (h : k.latch=false) (op : UInt8) (addr : UInt32) (data : List UInt8) :
    after T k (header op addr++data)=atRest (k.wait 1) := by
  unfold after Core.execute header
  split
  · rfl
  · dsimp only [List.cons_append,List.nil_append]
    unfold Core.long
    rw [if_pos (by rw [Core.wait_latch]; exact h)]

/-- A program command on a chip that is ready and enabled. -/
theorem after_program (m : Mem UInt8) (n : ℕ) (addr : UInt32) (bytes : List UInt8) :
    after T ⟨m,true,0,n⟩ (header 0x02 addr++bytes)=atRest (programmed T ⟨m,true,0,n⟩ addr bytes) := by
  unfold after Core.execute header programmed
  dsimp only [List.cons_append,List.nil_append]
  rw [if_neg fun hne => hne rfl]
  unfold Core.long
  have hlatch : ((⟨m,true,0,n⟩ : Core).wait 1).latch≠false := fun hne => nomatch hne
  rw [if_neg hlatch]
  by_cases h : bytes=[]
  · rw [if_neg (fun hne => hne.2 h),if_neg (fun hne => absurd hne.1 (by decide)),if_pos h]
    rfl
  · rw [if_pos ⟨rfl,h⟩,if_neg h]
    rfl

/-- An erase command on a chip that is ready and enabled. -/
theorem after_erase (m : Mem UInt8) (n : ℕ) (addr : UInt32) :
    after T ⟨m,true,0,n⟩ (header 0x20 addr)=atRest (erased T ⟨m,true,0,n⟩ addr) := rfl

/-- Polls with the status made of them. -/
theorem pollStatus_run (k : Core) :
    (do let ready ← pollLoop T 50; return if ready=true then .success else .error : DriverM
      ErrorStatus) (atRest k)=some (statusOf (k.busy<100),atRest (k.wait 100)) := by
  rw [bind_of_some _ (pollLoop_run 50 k)]
  unfold statusOf
  simp only [decide_eq_true_eq]
  rfl

/-- zd25_flash_write_nocheck with data that does not fit spi3_buf. -/
theorem nocheck_long (k : Core) {numWrite : UInt16} (h : ¬(numWrite*2).toNat ≤ bufferSize)
    (writeAddr : UInt32) (pBuffer : List UInt8) :
    zd25FlashWriteNocheck T writeAddr pBuffer numWrite (atRest k)=none := by
  unfold zd25FlashWriteNocheck
  rw [bind_of_some _ (zd25WriteEnable_run k)]
  dsimp only
  unfold after
  rw [bind_apply,zd25WriteData_run,if_neg h]
  rfl

/-- zd25_flash_write_nocheck on a chip that is ready at the next tick. -/
theorem nocheck_ready (h : k.busy ≤ 1) {numWrite : UInt16} (hfits : (numWrite*2).toNat ≤ bufferSize)
    (writeAddr : UInt32) (pBuffer : List UInt8) :
    zd25FlashWriteNocheck T writeAddr pBuffer numWrite (atRest k)=
      some (programOutcome T k writeAddr (pBuffer.take (numWrite*2).toNat)) := by
  have hwrite := zd25WriteData_run (T:=T) ⟨k.mem,true,0,k.started⟩ writeAddr (numWrite*2) pBuffer
  rw [if_pos hfits,after_program] at hwrite
  unfold zd25FlashWriteNocheck
  rw [bind_of_some _ (zd25WriteEnable_run k),writeEnable_ready h]
  dsimp only
  rw [bind_of_some _ hwrite]
  exact pollStatus_run _

/-- zd25_flash_write_nocheck on a chip that is not: nothing is programmed. -/
theorem nocheck_busy (h : 2 ≤ k.busy) (hlatch : k.latch=false) {numWrite : UInt16}
    (hfits : (numWrite*2).toNat ≤ bufferSize) (writeAddr : UInt32) (pBuffer : List UInt8) :
    zd25FlashWriteNocheck T writeAddr pBuffer numWrite (atRest k)=
      some (statusOf (k.busy<102),atRest (k.wait 102)) := by
  have hlatch' : (k.wait 1).latch=false := hlatch
  have hwrite := zd25WriteData_run (T:=T) (k.wait 1) writeAddr (numWrite*2) pBuffer
  rw [if_pos hfits,after_unlatched hlatch'] at hwrite
  unfold zd25FlashWriteNocheck
  rw [bind_of_some _ (zd25WriteEnable_run k),writeEnable_busy h]
  dsimp only
  rw [bind_of_some _ hwrite]
  refine (pollStatus_run _).trans (congrArg some (Prod.ext ?_ ?_))
  · unfold statusOf
    exact if_congr (by simp only [Core.wait_busy]; omega) rfl rfl
  · simp only [Core.wait_wait]

/-! ## Rounds -/

/-- The base of a sector, as the driver computes it. -/
theorem sectorBase (sectorPosition : UInt32) :
    ∃ q<4096,Zd25Pages.addr24 (sectorPosition*4096)=q*4096 := by
  have h4096 : (4096 : UInt32).toNat=4096 := rfl
  refine ⟨sectorPosition.toNat%4096,Nat.mod_lt _ (by decide),?_⟩
  rw [Zd25Pages.addr24_eq,UInt32.toNat_mul,h4096]
  unfold Zd25Pages.chipSize
  omega

theorem halfWordsBlank_blank {so n : ℕ} (h : so+n ≤ 2048) :
    halfWordsBlank (blank 4096) so n=true := by
  have hget {j : ℕ} (hj : j<4096) : ((blank 4096).getD j 0==blankByte)=true := by
    rw [List.getD_eq_getElem?_getD,List.getElem?_replicate,if_pos hj]
    rfl
  unfold halfWordsBlank
  refine List.all_eq_true.mpr fun i hi => ?_
  have hi := List.mem_range.mp hi
  rw [hget (by omega),hget (by omega)]
  rfl

/-- What the driver reads of a sector. -/
def sectorRead (k : Core) (sectorPosition : UInt32) : List UInt8 :=
  if k.busy ≤ 1 then Zd25Pages.zd25FlashRead (sectorPosition*4096) 2048 k.mem else blank 4096

theorem flashRead_run (k : Core) (sectorPosition : UInt32) :
    zd25FlashRead T (sectorPosition*4096) 2048 (atRest k)=
      some (sectorRead k sectorPosition,atRest (k.wait 1)) := zd25ReadData_run k _ _

/-- A round writes the part to a blank place; otherwise it sends the whole
sector, which spi3_buf cannot take, however long the erase lasts. -/
theorem writeSector_run (k : Core) (sectorPosition : UInt32) (sectorOffset sectorRemain : UInt16)
    (writeAddr : UInt32) (pBuffer : List UInt8) :
    writeSector T sectorPosition sectorOffset sectorRemain writeAddr pBuffer (atRest k)=
      if halfWordsBlank (sectorRead k sectorPosition) sectorOffset.toNat sectorRemain.toNat=true
      then zd25FlashWriteNocheck T writeAddr pBuffer sectorRemain (atRest (k.wait 1))
      else none := by
  unfold writeSector
  rw [bind_of_some _ (flashRead_run k sectorPosition)]
  dsimp only
  by_cases hscan : halfWordsBlank (sectorRead k sectorPosition) sectorOffset.toNat
      sectorRemain.toNat=true
  · rw [if_pos hscan,if_pos hscan]
  · rw [if_neg hscan,if_neg hscan,bind_of_some _ (zd25WriteEnable_run _)]
    dsimp only
    unfold after
    rw [bind_of_some _ (zd25SectorErase_run _ _)]
    dsimp only
    unfold after
    rw [bind_of_some _ (pollLoop_run _ _),bind_of_some _ (flashRead_run _ _)]
    exact nocheck_long _ (by decide) _ _

/-- A round on a chip that is ready, for every duration of its operations. -/
theorem writeSector_idle (h : k.busy=0) (sectorPosition : UInt32)
    (sectorOffset sectorRemain : UInt16) (writeAddr : UInt32) (pBuffer : List UInt8) :
    writeSector T sectorPosition sectorOffset sectorRemain writeAddr pBuffer (atRest k)=
      if halfWordsBlank (Zd25Pages.zd25FlashRead (sectorPosition*4096) 2048 k.mem)
          sectorOffset.toNat sectorRemain.toNat=true ∧ (sectorRemain*2).toNat ≤ bufferSize then
        some (programOutcome T k writeAddr (pBuffer.take (sectorRemain*2).toNat))
      else none := by
  have hbusy : k.busy ≤ 1 := by omega
  have hread : sectorRead k sectorPosition=
      Zd25Pages.zd25FlashRead (sectorPosition*4096) 2048 k.mem := if_pos hbusy
  rw [writeSector_run,hread,Core.wait_of_idle h]
  by_cases hscan : halfWordsBlank (Zd25Pages.zd25FlashRead (sectorPosition*4096) 2048 k.mem)
      sectorOffset.toNat sectorRemain.toNat=true
  · rw [if_pos hscan]
    by_cases hfits : (sectorRemain*2).toNat ≤ bufferSize
    · rw [if_pos ⟨hscan,hfits⟩]
      exact nocheck_ready hbusy hfits _ _
    · rw [if_neg fun hall => hfits hall.2]
      exact nocheck_long _ hfits _ _
  · rw [if_neg hscan,if_neg fun hall => hscan hall.1]

/-! ## Runs of calls -/

/-- Fifty polls see the end of every page program. -/
def Prompt (T : Timing) : Prop := ∀ n,T.program n<100

/-- A call of the driver. -/
inductive Call where
  /-- zd25_flash_read. -/
  | read (readAddr : UInt32) (numRead : UInt16)
  /-- zd25_flash_write. -/
  | write (writeAddr : UInt32) (pBuffer : List UInt8) (numWrite : UInt16)

/-- What a call gives back. -/
inductive Reply where
  /-- The bytes read. -/
  | bytes (buffer : List UInt8)
  /-- The status of a write. -/
  | status (status : ErrorStatus)

/-- A call on the bus. -/
def busCall (T : Timing) : Call → DriverM Reply
  | .read readAddr numRead => do return .bytes (←zd25FlashRead T readAddr numRead)
  | .write writeAddr pBuffer numWrite => do
    return .status (←zd25FlashWrite T writeAddr pBuffer numWrite)

/-- Calls on the bus, one after the other. -/
def busCalls (T : Timing) : List Call → DriverM (List Reply)
  | [] => return []
  | call::calls => do
    let reply ← busCall T call
    return reply::(←busCalls T calls)

/-- A call on the cells alone. -/
def memCall : Call → Mem UInt8 → Option (Reply×Mem UInt8)
  | .read readAddr numRead,m => some (.bytes (Zd25Pages.zd25FlashRead readAddr numRead m),m)
  | .write writeAddr pBuffer numWrite,m =>
    (Zd25Pages.zd25FlashWrite writeAddr pBuffer numWrite m).map fun m => (.status .success,m)

/-- Calls on the cells alone. -/
def memCalls : List Call → Mem UInt8 → Option (List Reply×Mem UInt8)
  | [],m => some ([],m)
  | call::calls,m =>
    (memCall call m).bind fun (reply,m) =>
      (memCalls calls m).map fun (replies,m) => (reply::replies,m)

/-- A result on the bus, at the end of which the chip is ready with its line
high, and the same result on the cells; or a store outside of spi3_buf on both. -/
def Refines {α : Type} (r : Option (α×Device)) (r' : Option (α×Mem UInt8)) : Prop :=
  (r=none ∧ r'=none) ∨ ∃ a k,r=some (a,atRest k) ∧ k.busy=0 ∧ r'=some (a,k.mem)

/-- A first call that refines, and a rest that does from every ready chip. -/
theorem Refines.bind {α β : Type} {r : Option (α×Device)} {r' : Option (α×Mem UInt8)}
    {f : α×Device → Option (β×Device)} {f' : α×Mem UInt8 → Option (β×Mem UInt8)}
    (h : Refines r r') (hf : ∀ a k,k.busy=0 → Refines (f (a,atRest k)) (f' (a,k.mem))) :
    Refines (r.bind f) (r'.bind f') := by
  rcases h with ⟨rfl,rfl⟩|⟨a,k,rfl,hk,rfl⟩
  · exact Or.inl ⟨rfl,rfl⟩
  · exact hf a k hk

theorem program_nil (P a : ℕ) (m : Mem UInt8) : program P a [] m=m := by
  funext x
  unfold program
  split <;> rfl

theorem programmed_mem (k : Core) (addr : UInt32) (bytes : List UInt8) :
    (programmed T k addr bytes).mem=program 256 (Zd25Pages.addr24 addr) bytes k.mem := by
  unfold programmed
  split
  · next hnil => rw [hnil,program_nil]
  · rfl

/-- The outcome of a program command that ends in time. -/
theorem programOutcome_prompt (hT : Prompt T) (k : Core) (addr : UInt32) (bytes : List UInt8) :
    ∃ k',programOutcome T k addr bytes=(ErrorStatus.success,atRest k') ∧ k'.busy=0 ∧
      k'.mem=program 256 (Zd25Pages.addr24 addr) bytes k.mem := by
  have hend : (programmed T k addr bytes).busy<100 := by
    unfold programmed
    split
    · exact Nat.zero_lt_succ _
    · exact hT _
  refine ⟨_,Prod.ext (if_pos hend) rfl,?_,programmed_mem k addr bytes⟩
  rw [Core.wait_busy]
  omega

/-- A round on the bus does what it does on the cells. -/
theorem writeSector_prompt (hT : Prompt T) (h : k.busy=0) (sectorPosition : UInt32)
    (sectorOffset sectorRemain : UInt16) (writeAddr : UInt32) (pBuffer : List UInt8) :
    Refines (writeSector T sectorPosition sectorOffset sectorRemain writeAddr pBuffer (atRest k))
      ((Zd25Pages.writeSector sectorPosition sectorOffset sectorRemain writeAddr pBuffer
        k.mem).map fun m => (.success,m)) := by
  rw [writeSector_idle h,Zd25Pages.writeSector_scan]
  split
  · obtain ⟨k',hout,hk',hmem⟩ := programOutcome_prompt hT k writeAddr
      (pBuffer.take (sectorRemain*2).toNat)
    refine Or.inr ⟨.success,k',congrArg some hout,hk',?_⟩
    rw [hmem]
    rfl
  · exact Or.inl ⟨rfl,rfl⟩

/-- The loop does what it does on the cells, by its rounds. -/
theorem writeLoop_prompt (hT : Prompt T) (fuel : ℕ) (h : k.busy=0) (sectorPosition : UInt32)
    (sectorOffset sectorRemain : UInt16) (writeAddr : UInt32) (numWrite : UInt16)
    (pBuffer : List UInt8) :
    Refines (zd25FlashWriteLoop T fuel sectorPosition sectorOffset sectorRemain writeAddr numWrite
      pBuffer (atRest k))
      ((Zd25Pages.zd25FlashWriteLoop fuel sectorPosition sectorOffset sectorRemain
        writeAddr numWrite pBuffer k.mem).map fun m => (.success,m)) := by
  induction fuel generalizing k sectorPosition sectorOffset sectorRemain writeAddr numWrite
    pBuffer with
  | zero => exact Or.inr ⟨.success,k,rfl,h,rfl⟩
  | succ fuel ih =>
    have hround := writeSector_prompt hT h sectorPosition sectorOffset sectorRemain writeAddr
      pBuffer
    unfold zd25FlashWriteLoop Zd25Pages.zd25FlashWriteLoop
    rw [bind_apply]
    rcases hround with ⟨hnone,hnone'⟩|⟨status,k',hsome,hk',hsome'⟩
    · rw [hnone,Option.map_eq_none_iff.mp hnone']
      exact Or.inl ⟨rfl,rfl⟩
    · obtain ⟨m,hm,he⟩ := Option.map_eq_some_iff.mp hsome'
      cases he
      rw [hsome,hm]
      change Refines ((if ErrorStatus.success≠.success then return .error
        else if numWrite=sectorRemain then return .success else _ : DriverM ErrorStatus)
          (atRest k')) (Option.map _ (if numWrite=sectorRemain then some k'.mem else _))
      rw [if_neg (fun hne => hne rfl)]
      by_cases hlast : numWrite=sectorRemain
      · rw [if_pos hlast,if_pos hlast]
        exact Or.inr ⟨.success,k',rfl,hk',rfl⟩
      · rw [if_neg hlast,if_neg hlast]
        exact ih hk' _ _ _ _ _ _

/-- A write on the bus does what it does on the cells. -/
theorem zd25FlashWrite_prompt (hT : Prompt T) (h : k.busy=0) (writeAddr : UInt32)
    (pBuffer : List UInt8) (numWrite : UInt16) :
    Refines (zd25FlashWrite T writeAddr pBuffer numWrite (atRest k))
      ((Zd25Pages.zd25FlashWrite writeAddr pBuffer numWrite k.mem).map fun m => (.success,m)) :=
  writeLoop_prompt hT (numWrite.toNat+1) h _ _ _ _ _ _

/-- A call on the bus does what it does on the cells. -/
theorem busCall_prompt (hT : Prompt T) (h : k.busy=0) (call : Call) :
    Refines (busCall T call (atRest k)) (memCall call k.mem) := by
  cases call with
  | read readAddr numRead =>
    have hread : zd25FlashRead T readAddr numRead (atRest k)=
        some (Zd25Pages.zd25FlashRead readAddr numRead k.mem,atRest k) := by
      refine (zd25ReadData_run k _ _).trans ?_
      rw [if_pos (by omega),Core.wait_of_idle h]
      rfl
    have hcall : busCall T (.read readAddr numRead) (atRest k)=
        some (Reply.bytes (Zd25Pages.zd25FlashRead readAddr numRead k.mem),atRest k) :=
      bind_of_some _ hread
    exact Or.inr ⟨_,k,hcall,h,rfl⟩
  | write writeAddr pBuffer numWrite =>
    have hcall : busCall T (.write writeAddr pBuffer numWrite) (atRest k)=
        (zd25FlashWrite T writeAddr pBuffer numWrite (atRest k)).bind
          fun r => some (Reply.status r.1,r.2) := bind_apply _ _ _
    have hmem : memCall (.write writeAddr pBuffer numWrite) k.mem=
        (Zd25Pages.zd25FlashWrite writeAddr pBuffer numWrite k.mem).map
          fun m => (.status .success,m) := rfl
    rw [hcall,hmem]
    rcases zd25FlashWrite_prompt hT h writeAddr pBuffer numWrite with
      ⟨hnone,hnone'⟩|⟨status,k',hsome,hk',hsome'⟩
    · rw [hnone,Option.map_eq_none_iff.mp hnone']
      exact Or.inl ⟨rfl,rfl⟩
    · obtain ⟨m,hm,he⟩ := Option.map_eq_some_iff.mp hsome'
      cases he
      rw [hsome,hm]
      exact Or.inr ⟨.status .success,k',rfl,hk',rfl⟩

/-- When every page program ends in time, a chip that is ready runs any
sequence of calls as its cells alone would, for all durations of its erases:
the stores stay inside spi3_buf or not alike, and as long as they do every
write succeeds and stores the same, every read gets the same bytes, and the
chip is ready again behind each of them. -/
theorem busCalls_refine (hT : Prompt T) (h : k.busy=0) (calls : List Call) :
    Refines (busCalls T calls (atRest k)) (memCalls calls k.mem) := by
  induction calls generalizing k with
  | nil => exact Or.inr ⟨[],k,rfl,h,rfl⟩
  | cons call calls ih =>
    unfold busCalls memCalls
    rw [bind_apply]
    refine (busCall_prompt hT h call).bind fun reply k' hk' => ?_
    dsimp only
    rw [bind_apply,Option.map_eq_bind]
    refine (ih hk').bind fun replies k'' hk'' => ?_
    exact Or.inr ⟨reply::replies,k'',rfl,hk'',rfl⟩

/-- A chip that is ready and erased. -/
def erasedChip : Core := ⟨fun _ => blankByte,false,0,0⟩

/-- A record is written to the erased chip and read. -/
theorem busCalls_refine_record :
    Refines (busCalls ⟨fun _ => 3,fun _ => 45⟩ [.write 4096 [1,2,3,4] 2,.read 4096 2]
        (atRest erasedChip))
      (memCalls [.write 4096 [1,2,3,4] 2,.read 4096 2] erasedChip.mem) :=
  busCalls_refine (fun _ => (by decide : 3<100)) rfl _

/-! ## Writes inside one sector -/

section InSector

variable {writeAddr : UInt32} {numWrite : UInt16} {pBuffer : List UInt8}

/-- Half-words from the start of its sector to an address. -/
def offsetOf (writeAddr : UInt32) : UInt16 := (writeAddr%4096/2).toUInt16

theorem offsetOf_toNat (writeAddr : UInt32) :
    (offsetOf writeAddr).toNat=writeAddr.toNat%4096/2 := by
  have h4096 : (4096 : UInt32).toNat=4096 := rfl
  have h2 : (2 : UInt32).toNat=2 := rfl
  unfold offsetOf
  rw [UInt32.toNat_toUInt16,UInt32.toNat_div,UInt32.toNat_mod,h4096,h2]
  omega

/-- The write ends at the end of its sector or before. -/
def InSector (writeAddr : UInt32) (numWrite : UInt16) : Prop :=
  writeAddr.toNat%4096/2+numWrite.toNat ≤ 2048

instance (writeAddr : UInt32) (numWrite : UInt16) : Decidable (InSector writeAddr numWrite) :=
  inferInstanceAs (Decidable (_ ≤ _))

/-- Such a write is no longer than the rest of its sector. -/
theorem InSector.le_remain (h : InSector writeAddr numWrite) :
    numWrite ≤ 2048-offsetOf writeAddr := by
  have hoffset := offsetOf_toNat writeAddr
  have h2048 : (2048 : UInt16).toNat=2048 := rfl
  unfold InSector at h
  rw [UInt16.le_iff_toNat_le,UInt16.toNat_sub_of_le _ _ (by rw [UInt16.le_iff_toNat_le]; omega)]
  omega

/-- Such a write takes one round. -/
theorem zd25FlashWrite_inSector (h : InSector writeAddr numWrite) (pBuffer : List UInt8)
    (c : Device) : zd25FlashWrite T writeAddr pBuffer numWrite c=
      writeSector T (writeAddr/4096) (offsetOf writeAddr) numWrite writeAddr pBuffer c := by
  have hrun : zd25FlashWrite T writeAddr pBuffer numWrite=
      zd25FlashWriteLoop T (numWrite.toNat+1) (writeAddr/4096) (offsetOf writeAddr)
        (if numWrite ≤ 2048-offsetOf writeAddr then numWrite else 2048-offsetOf writeAddr)
        writeAddr numWrite pBuffer := rfl
  rw [hrun,if_pos h.le_remain]
  unfold zd25FlashWriteLoop
  rw [bind_apply]
  rcases writeSector T (writeAddr/4096) (offsetOf writeAddr) numWrite writeAddr pBuffer c with
    _|⟨status,c'⟩
  · rfl
  · cases status with
    | error => rfl
    | success =>
      rw [Option.bind_some]
      dsimp only
      rw [if_neg (fun hne => hne rfl),if_pos rfl]
      rfl

/-- The address of its sector. -/
theorem addr24_sector (writeAddr : UInt32) :
    Zd25Pages.addr24 (writeAddr/4096*4096)/4096=Zd25Pages.addr24 writeAddr/4096 := by
  have h4096 : (4096 : UInt32).toNat=4096 := rfl
  rw [Zd25Pages.addr24_eq,Zd25Pages.addr24_eq,UInt32.toNat_mul,UInt32.toNat_div,h4096]
  unfold Zd25Pages.chipSize
  omega

/-- The half-words of a range are blank. -/
def RangeBlank (writeAddr : UInt32) (numWrite : UInt16) (m : Mem UInt8) : Prop :=
  ∀ i<numWrite.toNat*2,m (Zd25Pages.addr24 writeAddr/2*2+i)=blankByte

/-- What the scan of the sector finds out. -/
theorem scan_iff (h : InSector writeAddr numWrite) (m : Mem UInt8) :
    halfWordsBlank (Zd25Pages.zd25FlashRead (writeAddr/4096*4096) 2048 m)
      (offsetOf writeAddr).toNat numWrite.toNat=true ↔ RangeBlank writeAddr numWrite m := by
  obtain ⟨q,hq,hbase⟩ := sectorBase (writeAddr/4096)
  have hsector := addr24_sector writeAddr
  rw [hbase,Nat.mul_div_cancel _ (by decide)] at hsector
  have hlow : writeAddr.toNat%4096=Zd25Pages.addr24 writeAddr%4096 := by
    rw [Zd25Pages.addr24_eq]
    unfold Zd25Pages.chipSize
    omega
  have hscan := @Zd25Flash.halfWordsBlank_iff ⟨m,[]⟩ q (offsetOf writeAddr).toNat numWrite.toNat
    (by rw [offsetOf_toNat]; exact h)
  change halfWordsBlank (load m (q*4096) 4096) _ _=true ↔ _ at hscan
  rw [Zd25Pages.zd25FlashRead_sector hq hbase,hscan,offsetOf_toNat,
    show q*4096+2*(writeAddr.toNat%4096/2)=Zd25Pages.addr24 writeAddr/2*2 by omega]
  exact load_eq_blank_iff

/-- Its bytes are counted in a half-word. -/
theorem bytes_toNat (h : InSector writeAddr numWrite) : (numWrite*2).toNat=numWrite.toNat*2 := by
  have h2 : (2 : UInt16).toNat=2 := rfl
  unfold InSector at h
  rw [UInt16.toNat_mul,h2]
  omega

theorem fits_iff (h : InSector writeAddr numWrite) :
    (numWrite*2).toNat ≤ bufferSize ↔ numWrite.toNat ≤ 256 := by
  rw [bytes_toNat h]
  unfold bufferSize
  omega

/-- Such a write on a chip that is ready, for every duration of its operations:
to blank bytes and no longer than spi3_buf it programs them, and the status
tells whether the chip was ready in time; any other one stores outside of
spi3_buf. -/
theorem write_inSector (h : k.busy=0) (hin : InSector writeAddr numWrite)
    (hlen : pBuffer.length=numWrite.toNat*2) (hpos : 0<numWrite.toNat) :
    let r := zd25FlashWrite T writeAddr pBuffer numWrite (atRest k)
    (RangeBlank writeAddr numWrite k.mem ∧ numWrite.toNat ≤ 256 → ∃ k',
      r=some (statusOf (T.program k.started<100),atRest k') ∧
        k'.mem=program 256 (Zd25Pages.addr24 writeAddr) pBuffer k.mem) ∧
    (¬(RangeBlank writeAddr numWrite k.mem ∧ numWrite.toNat ≤ 256) → r=none) := by
  have hcnt := bytes_toNat hin
  have hcond : (halfWordsBlank (Zd25Pages.zd25FlashRead (writeAddr/4096*4096) 2048 k.mem)
      (offsetOf writeAddr).toNat numWrite.toNat=true ∧ (numWrite*2).toNat ≤ bufferSize) ↔
        RangeBlank writeAddr numWrite k.mem ∧ numWrite.toNat ≤ 256 := by
    rw [scan_iff hin,fits_iff hin]
  have htake : pBuffer.take (numWrite*2).toNat=pBuffer :=
    List.take_of_length_le (by rw [hcnt,hlen])
  have hsome : pBuffer≠[] := List.ne_nil_of_length_pos (by omega)
  dsimp only
  rw [zd25FlashWrite_inSector hin,writeSector_idle h,htake]
  constructor
  · intro hfits
    rw [if_pos (hcond.mpr hfits)]
    refine ⟨_,congrArg some (Prod.ext ?_ rfl),programmed_mem k _ _⟩
    unfold programOutcome programmed
    rw [if_neg hsome]
  · intro hnot
    rw [if_neg (mt hcond.mp hnot)]

/-- A record on the erased chip, and one over it. -/
theorem write_inSector_record :
    (∃ k',zd25FlashWrite ⟨fun _ => 120,fun _ => 45⟩ 4096 [1,2,3,4] 2 (atRest erasedChip)=
      some (.error,atRest k') ∧ k'.mem=program 256 4096 [1,2,3,4] erasedChip.mem) ∧
    zd25FlashWrite ⟨fun _ => 3,fun _ => 45⟩ 4096 [1,2,3,4] 2 (atRest ⟨fun _ => 0,false,0,0⟩)=
      none := by
  have hblank : RangeBlank 4096 2 erasedChip.mem := fun _ _ => rfl
  have hused : ¬RangeBlank 4096 2 (fun _ => 0) := fun h => absurd (h 0 (by decide)) (by decide)
  exact ⟨(write_inSector (T:=⟨fun _ => 120,fun _ => 45⟩) (k:=erasedChip) rfl
      (by decide : InSector 4096 2) (rfl : [1,2,3,4].length=4) (by decide)).1
        ⟨hblank,by decide⟩,
    (write_inSector (T:=⟨fun _ => 3,fun _ => 45⟩) (k:=⟨fun _ => 0,false,0,0⟩) rfl
      (by decide : InSector 4096 2) (rfl : [1,2,3,4].length=4) (by decide)).2
        fun h => hused h.1⟩

/-- A write on a chip that is still busy with another operation, by the ticks
that this one has left: with none but the next the write is as on a chip that
is ready; with two it programs over what is there without a scan, and from
three on it changes nothing, with status SUCCESS up to 102. Both hold as long
as the bytes fit spi3_buf; more are stored outside of it. -/
theorem write_on_busy (hlatch : k.latch=false) (hin : InSector writeAddr numWrite)
    (pBuffer : List UInt8) :
    let r := zd25FlashWrite T writeAddr pBuffer numWrite (atRest k)
    (k.busy ≤ 1 → r=zd25FlashWrite T writeAddr pBuffer numWrite (atRest (k.wait 1))) ∧
    (2 ≤ k.busy → 256<numWrite.toNat → r=none) ∧
    (k.busy=2 → numWrite.toNat ≤ 256 → ∃ status k',r=some (status,atRest k') ∧
      k'.mem=program 256 (Zd25Pages.addr24 writeAddr) (pBuffer.take (numWrite.toNat*2)) k.mem) ∧
    (3 ≤ k.busy → numWrite.toNat ≤ 256 → ∃ k',
      r=some (statusOf (k.busy<103),atRest k') ∧ k'.mem=k.mem) := by
  have hfits : (offsetOf writeAddr).toNat+numWrite.toNat ≤ 2048 := by
    rw [offsetOf_toNat]
    exact hin
  have hscan (hbusy : 2 ≤ k.busy) : zd25FlashWrite T writeAddr pBuffer numWrite (atRest k)=
      zd25FlashWriteNocheck T writeAddr pBuffer numWrite (atRest (k.wait 1)) := by
    have hread : sectorRead k (writeAddr/4096)=blank 4096 := if_neg (by omega)
    rw [zd25FlashWrite_inSector hin,writeSector_run,hread,if_pos (halfWordsBlank_blank hfits)]
  dsimp only
  refine ⟨fun hready => ?_,fun hbusy hlong => ?_,fun htwo hshort => ?_,fun hbusy hshort => ?_⟩
  · have hidle : (k.wait 1).busy=0 := by rw [Core.wait_busy]; omega
    have hread : sectorRead (k.wait 1) (writeAddr/4096)=sectorRead k (writeAddr/4096) := by
      unfold sectorRead
      rw [if_pos hready,if_pos (by omega)]
      rfl
    rw [zd25FlashWrite_inSector hin,zd25FlashWrite_inSector hin,writeSector_run,writeSector_run,
      hread,Core.wait_of_idle hidle]
  · rw [hscan hbusy]
    exact nocheck_long _ (fun h => absurd ((fits_iff hin).mp h) (Nat.not_le.mpr hlong)) _ _
  · rw [hscan (by omega),nocheck_ready (by rw [Core.wait_busy]; omega)
      ((fits_iff hin).mpr hshort),bytes_toNat hin]
    exact ⟨_,_,rfl,programmed_mem _ _ _⟩
  · have hwaits : 2 ≤ (k.wait 1).busy := by rw [Core.wait_busy]; omega
    have hlatch' : (k.wait 1).latch=false := hlatch
    rw [hscan (by omega),nocheck_busy hwaits hlatch' ((fits_iff hin).mpr hshort)]
    refine ⟨_,congrArg some (Prod.ext ?_ rfl),rfl⟩
    unfold statusOf
    exact if_congr (by rw [Core.wait_busy]; omega) rfl rfl

/-- A write while an erase has 44 ticks left. -/
theorem write_on_busy_44 : ∃ k',
    zd25FlashWrite ⟨fun _ => 3,fun _ => 45⟩ 4096 [1,2,3,4] 2 (atRest ⟨fun _ => 0,false,44,1⟩)=
      some (.success,atRest k') ∧ k'.mem=fun _ => 0 :=
  (write_on_busy (T:=⟨fun _ => 3,fun _ => 45⟩) (k:=⟨fun _ => 0,false,44,1⟩) rfl
    (by decide : InSector 4096 2) [1,2,3,4]).2.2.2 (by decide) (by decide)

end InSector

end BT816Display.Zd25Bus
