import BT816Display.Lib.DataFlash
import BT816Display.Lib.Total
import BT816Display.At45Disk

/-!
# The AT45 driver on its bus

The functions of at45db081e.c and flash_spi.c as they drive the chip: select,
bytes, deselect, and polls of the status without a bound. A page that is
written keeps the chip busy for a time that nobody knows. Whatever these times
are, the loops of the driver end, and a sequence of calls of USER_read and
USER_write does what it does on the chip of `At45Disk`.
-/

namespace BT816Display.At45Bus

open ByteMemory DataFlash Total
open At45Disk (DiskOp Call diskStep diskRun resOk)

/-- The chip, after at45_set_page_256. -/
abbrev at45 : Geometry := ⟨256,4096,0x25,0x08⟩

/-- chip_select with AT45. -/
def chipSelect : StateT Device Option Unit := modify Device.select

/-- write_data: the bytes received meanwhile are dropped. -/
def writeData (buf : List UInt8) : StateT Device Option Unit :=
  modify fun c => (Device.transfer at45 buf c).2

/-- read_data. -/
def readData (len : UInt16) : StateT Device Option (List UInt8) :=
  modifyGet (Device.transfer at45 (List.replicate len.toNat 0xFF))

/-- The address of a page in a command. -/
def pageBytes (pageNum : UInt16) : List UInt8 := [(pageNum>>>8).toUInt8,(pageNum&&&0xFF).toUInt8,0]

section Driver

variable (T : ℕ → ℕ)

/-- chip_deselect with AT45. -/
def chipDeselect : StateT Device Option Unit := modify (·.deselect at45 T)

/-- at45_read_page to a place of a buffer. -/
def at45ReadPage (pageNum : UInt16) (buff : Mem UInt8) (place : ℕ) :
    StateT Device Option (UInt8×Mem UInt8) := do
  if pageNum>4095 then return (0,buff)
  else
    chipSelect
    writeData (0xD2::pageBytes pageNum++[0,0,0,0])
    let data ← readData 256
    chipDeselect T
    return (1,store buff place data)

/-- at45_read_status_reg. -/
def at45ReadStatusReg : StateT Device Option UInt16 := do
  chipSelect
  writeData [0xD7]
  let data ← readData 2
  chipDeselect T
  return (data.getD 0 0).toUInt16 ||| (data.getD 1 0).toUInt16<<<8

/-- A round of the loop of at45_write_page. -/
def poll : StateT Device Option (Option Unit) := do
  let reg ← at45ReadStatusReg T
  return if reg&&&0x8080=0x8080 then some () else none

/-- at45_write_page from a place of a buffer. -/
def at45WritePage (pageNum : UInt16) (buff : Mem UInt8) (place : ℕ) : Program Device UInt8 :=
  fun fuel => do
    if pageNum>4095 then return 0
    else
      chipSelect
      writeData (0x82::pageBytes pageNum)
      writeData (load buff place 256)
      chipDeselect T
      untilSome (poll T) fuel
      return 1

/-- The loop of USER_read over the remaining count. -/
def readLoop (sector : UInt32) : (count place : ℕ) → Mem UInt8 →
    StateT Device Option (Mem UInt8)
  | 0,_,buff => return buff
  | count+1,place,buff => do
    let (_,buff) ← at45ReadPage T (sector*2).toUInt16 buff place
    let (_,buff) ← at45ReadPage T (sector*2+1).toUInt16 buff (place+256)
    readLoop sector count (place+512) buff

/-- USER_read: the result and the buffer. -/
def userRead (buff : Mem UInt8) (sector count : UInt32) :
    StateT Device Option (UInt8×Mem UInt8) := do
  let buff ← readLoop T sector count.toNat 0 buff
  return (resOk,buff)

/-- The loop of USER_write over the remaining count. -/
def writeLoop (buff : Mem UInt8) (sector : UInt32) : (count place : ℕ) → Program Device Unit
  | 0,_ => fun _ => return ()
  | count+1,place => fun fuel => do
    let _ ← at45WritePage T (sector*2).toUInt16 buff place fuel
    let _ ← at45WritePage T (sector*2+1).toUInt16 buff (place+256) fuel
    writeLoop buff sector count (place+512) fuel

/-- USER_write. -/
def userWrite (buff : Mem UInt8) (sector count : UInt32) : Program Device UInt8 := fun fuel => do
  writeLoop T buff sector count.toNat 0 fuel
  return resOk

/-- A call: the result, and the buffer of a read. -/
def busCall (call : Call) : Program Device (UInt8×Option (Mem UInt8)) := fun fuel => do
  match call.val with
  | .read buff sector count =>
    let (res,buff) ← userRead T buff sector count
    return (res,some buff)
  | .write buff sector count =>
    let res ← userWrite T buff sector count fuel
    return (res,none)

/-- A sequence of calls. -/
def busCalls : List Call → Program Device (List (UInt8×Option (Mem UInt8)))
  | [] => fun _ => return []
  | call::calls => fun fuel => do
    let reply ← busCall T call fuel
    let replies ← busCalls calls fuel
    return reply::replies

end Driver

/-- What a call returns on the chip of `At45Disk`. -/
def diskReply (chip : Mem UInt8) (call : Call) : UInt8×Option (Mem UInt8) :=
  match call.val with
  | .read buff sector count =>
    ((At45Disk.userRead chip buff sector count).1,some (At45Disk.userRead chip buff sector count).2)
  | .write buff sector count => ((At45Disk.userWrite chip buff sector count).1,none)

/-- What the calls return there. -/
def diskReplies : Mem UInt8 → List Call → List (UInt8×Option (Mem UInt8))
  | _,[] => []
  | chip,call::calls => diskReply chip call::diskReplies (diskStep chip call) calls

/-! ## Selections -/

variable {T : ℕ → ℕ} {k : Core}

/-- A chip between two selections. -/
abbrev atRest (k : Core) : Device := ⟨k,none⟩

/-- The address of a page. -/
theorem address_pageBytes {pageNum : UInt16} (h : ¬pageNum>4095) :
    address at45 (pageNum>>>8).toUInt8 (pageNum&&&0xFF).toUInt8 0=256*pageNum.toNat := by
  have hle : pageNum.toNat≤4095 := UInt16.le_iff_toNat_le.mp (UInt16.not_lt.mp h)
  have hhigh : (pageNum>>>8).toUInt8.toNat=pageNum.toNat/256 := by
    rw [UInt16.toNat_toUInt8,UInt16.toNat_shiftRight]
    change pageNum.toNat>>>8%256=pageNum.toNat/256
    rw [Nat.shiftRight_eq_div_pow]
    omega
  have hlow : (pageNum&&&0xFF).toUInt8.toNat=pageNum.toNat%256 := by
    rw [UInt16.toNat_toUInt8,UInt16.toNat_and]
    change (pageNum.toNat&&&(2^8-1))%256=pageNum.toNat%256
    rw [Nat.and_two_pow_sub_one_eq_mod,Nat.mod_mod]
  unfold address
  rw [hhigh,hlow]
  change ((pageNum.toNat/256*256+pageNum.toNat%256)*256+0)%(256*4096)=256*pageNum.toNat
  omega

/-- The bytes of a page come after those of its command. -/
theorem answer_pageRead (k : Core) {pageNum : UInt16} (h : ¬pageNum>4095) {data : List UInt8}
    (hdata : data.length<256) :
    k.answer at45 true ((0xD2::pageBytes pageNum++[0,0,0,0])++data)=
      k.mem (256*pageNum.toNat+data.length) := by
  have haddress := address_pageBytes h
  unfold pageBytes Core.answer
  dsimp only [List.cons_append,List.nil_append]
  rw [if_neg (by decide),if_neg (by decide),if_pos rfl,haddress]
  congr 1
  omega

/-- at45_read_page between its selection and its end. -/
theorem at45ReadPage_selections {pageNum : UInt16} (h : ¬pageNum>4095) (buff : Mem UInt8)
    (place : ℕ) (c : Device) :
    let sent := (Device.transfer at45 (0xD2::pageBytes pageNum++[0,0,0,0]) c.select).2
    let received := Device.transfer at45 (List.replicate 256 0xFF) sent
    at45ReadPage T pageNum buff place c=
      some ((1,store buff place received.1),received.2.deselect at45 T) := by
  unfold at45ReadPage
  rw [if_neg h]
  rfl

/-- The page is read as a block of the array. -/
theorem at45ReadPage_run (h : k.busy=0) (pageNum : UInt16) (buff : Mem UInt8) (place : ℕ) :
    at45ReadPage T pageNum buff place (atRest k)=
      some (At45Disk.at45ReadPage k.mem pageNum buff place,atRest k) := by
  unfold At45Disk.at45ReadPage
  by_cases hpage : pageNum>4095
  · unfold at45ReadPage
    rw [if_pos hpage,if_pos hpage]
    rfl
  · have hsend : Device.transfer at45 (0xD2::pageBytes pageNum++[0,0,0,0]) (atRest k).select=_ :=
      transfer_taken h [] (0xD2::pageBytes pageNum++[0,0,0,0])
    have hreceive := transfer_taken (g:=at45) h (0xD2::pageBytes pageNum++[0,0,0,0])
      (List.replicate 256 0xFF)
    rw [at45ReadPage_selections hpage,hsend,List.nil_append,hreceive,if_neg hpage,
      List.length_replicate]
    have hblock : ((List.range 256).map fun i => k.answer at45 true
        ((0xD2::pageBytes pageNum++[0,0,0,0])++(List.replicate 256 0xFF).take i))=
        load k.mem (256*pageNum.toNat) 256 := by
      refine List.map_congr_left fun i hi => ?_
      have hi := List.mem_range.mp hi
      have htake : ((List.replicate 256 (0xFF : UInt8)).take i).length=i := by
        rw [List.length_take,List.length_replicate,Nat.min_eq_left hi.le]
      rw [answer_pageRead k hpage (by omega),htake]
    rw [hblock]
    rfl

/-! ## Polls -/

/-- The test of both ready bits. -/
theorem ready_bits (k k' : Core) :
    ((k.status 0x25).toUInt16 ||| (k'.status 0x08).toUInt16<<<8)&&&0x8080=0x8080 ↔
      k.busy=0 ∧ k'.busy=0 := by
  unfold Core.status
  by_cases h : k.busy=0 <;> by_cases h' : k'.busy=0 <;> simp only [h,h',if_true,if_false] <;> decide

/-- A poll takes three units of time, and sees the chip after one and after two. -/
theorem poll_run (k : Core) :
    poll T (atRest k)=some (if k.busy ≤ 1 then some () else none,atRest (k.wait 3)) := by
  have hrun : poll T (atRest k)=
      some (if (((k.wait 1).status 0x25).toUInt16 |||
        (((k.wait 1).wait 1).status 0x08).toUInt16<<<8)&&&0x8080=0x8080 then some () else none,
        atRest (((k.wait 1).wait 1).wait 1)) := rfl
  rw [hrun]
  simp only [ready_bits,Core.wait_wait,Core.wait_busy]
  by_cases h : k.busy ≤ 1
  · rw [if_pos (by omega),if_pos h]
  · rw [if_neg (by omega),if_neg h]

/-- The loop of at45_write_page ends when the chip is ready, however long that takes. -/
theorem polls_end (k : Core) :
    Ends (untilSome (poll T)) (atRest k) fun _ c => c=atRest {k with busy := 0} := by
  refine ends_untilSome (I:=fun c => ∃ n,c=atRest {k with busy := n}) (fun c => c.core.busy) ?_
    ⟨k.busy,rfl⟩
  rintro _ ⟨n,rfl⟩
  have hround := poll_run (T:=T) {k with busy := n}
  by_cases hn : n ≤ 1
  · rw [if_pos hn] at hround
    have hzero : n-3=0 := by omega
    exact Or.inl ⟨(),_,hround,congrArg (fun busy => atRest {k with busy := busy}) hzero⟩
  · -- both bytes have to be ready: a chip that gets ready between them is polled again
    rw [if_neg hn] at hround
    exact Or.inr ⟨_,hround,⟨n-3,rfl⟩,show n-3<n by omega⟩

/-! ## Pages -/

/-- A chip that is ready and holds `chip`. -/
def Holds (chip : Mem UInt8) (c : Device) : Prop :=
  ∃ k : Core,c=atRest k ∧ k.busy=0 ∧ k.mem=chip

/-- What a program command does. -/
theorem execute_pageWrite (k : Core) {pageNum : UInt16} (h : ¬pageNum>4095) {data : List UInt8}
    (hdata : data.length=256) :
    (k.execute at45 T true (0x82::pageBytes pageNum++data)).mem=
      store k.mem (256*pageNum.toNat) data := by
  have haddress := address_pageBytes h
  have hfill : fill 256 0 data k.buffer=store k.buffer 0 data := fill_eq_store (by omega) k.buffer
  have hload := load_store_self k.buffer 0 data
  rw [hdata] at hload
  unfold pageBytes Core.execute
  dsimp only [List.cons_append,List.nil_append]
  rw [if_pos ⟨rfl,rfl⟩,haddress]
  dsimp only
  rw [Nat.mul_mod_right,hfill,hload,Nat.mul_div_cancel_left _ (by decide),Nat.mul_comm]

/-- at45_write_page between its selections and its polls. -/
theorem at45WritePage_selections {pageNum : UInt16} (h : ¬pageNum>4095) (buff : Mem UInt8)
    (place fuel : ℕ) (c : Device) :
    let sent := (Device.transfer at45 (load buff place 256)
      (Device.transfer at45 (0x82::pageBytes pageNum) c.select).2).2
    at45WritePage T pageNum buff place fuel c=
      (untilSome (poll T) fuel (sent.deselect at45 T)).bind fun r => some (1,r.2) := by
  unfold at45WritePage
  rw [if_neg h]
  rfl

/-- A page is written as a block of the array, and then the chip is ready again. -/
theorem at45WritePage_ends {chip : Mem UInt8} {c : Device} (hc : Holds chip c) (pageNum : UInt16)
    (buff : Mem UInt8) (place : ℕ) :
    Ends (at45WritePage T pageNum buff place) c fun _ c' =>
      Holds (At45Disk.at45WritePage chip pageNum buff place).2 c' := by
  obtain ⟨k,rfl,hk,rfl⟩ := hc
  unfold At45Disk.at45WritePage
  by_cases hpage : pageNum>4095
  · rw [if_pos hpage]
    exact ends_of_run (fun _ => by unfold at45WritePage; rw [if_pos hpage]; rfl) ⟨k,rfl,hk,rfl⟩
  · rw [if_neg hpage]
    have hcommand : Device.transfer at45 (0x82::pageBytes pageNum) (atRest k).select=_ :=
      transfer_taken hk [] (0x82::pageBytes pageNum)
    have hdata := transfer_taken (g:=at45) hk (0x82::pageBytes pageNum) (load buff place 256)
    have hwrite := execute_pageWrite (T:=T) k hpage (load_length buff place 256)
    -- the operation starts when the line goes high behind the data
    let started := k.execute at45 T true (0x82::pageBytes pageNum++load buff place 256)
    obtain ⟨n,_,_,rfl,hn⟩ := polls_end (T:=T) started
    refine ⟨n,1,_,⟨{started with busy := 0},rfl,rfl,hwrite⟩,fun fuel hfuel => ?_⟩
    rw [at45WritePage_selections hpage,hcommand,List.nil_append,hdata]
    exact congrArg (Option.bind · _) (hn fuel hfuel)

/-! ## Loops -/

/-- The loop of USER_read only reads. -/
theorem readLoop_run (h : k.busy=0) (sector : UInt32) (count place : ℕ) (buff : Mem UInt8) :
    readLoop T sector count place buff (atRest k)=
      some (At45Disk.readLoop k.mem sector count place buff,atRest k) := by
  induction count generalizing place buff with
  | zero => rfl
  | succ count ih =>
    have hlow := at45ReadPage_run (T:=T) h (sector*2).toUInt16 buff place
    have hhigh := at45ReadPage_run (T:=T) h (sector*2+1).toUInt16
      (At45Disk.at45ReadPage k.mem (sector*2).toUInt16 buff place).2 (place+256)
    rw [readLoop,At45Disk.readLoop,←ih]
    refine (congrArg (Option.bind · _) hlow).trans ?_
    exact congrArg (Option.bind · _) hhigh

/-- The loop of USER_write ends, and has written what it writes to the pages. -/
theorem writeLoop_ends (buff : Mem UInt8) (sector : UInt32) (count place : ℕ) {chip : Mem UInt8}
    {c : Device} (hc : Holds chip c) :
    Ends (writeLoop T buff sector count place) c fun _ c' =>
      Holds (At45Disk.writeLoop buff sector count place chip) c' := by
  induction count generalizing place chip c with
  | zero => exact ends_of_run (fun _ => rfl) hc
  | succ count ih =>
    have hlow := at45WritePage_ends (T:=T) hc (sector*2).toUInt16 buff place
    refine hlow.bind fun _ c1 h1 => ?_
    have hhigh := at45WritePage_ends (T:=T) h1 (sector*2+1).toUInt16 buff (place+256)
    exact hhigh.bind fun _ c2 h2 => ih (place+512) h2

/-- A call replies as it does on the chip of pages, and leaves that chip ready. -/
theorem busCall_ends {chip : Mem UInt8} {c : Device} (hc : Holds chip c) (call : Call) :
    Ends (busCall T call) c fun reply c' => reply=diskReply chip call ∧
      Holds (diskStep chip call) c' := by
  obtain ⟨op,hcount⟩ := call
  cases op with
  | read buff sector count =>
    obtain ⟨k,rfl,hk,rfl⟩ := hc
    have hloop := readLoop_run (T:=T) hk sector count.toNat 0 buff
    have hread : userRead T buff sector count (atRest k)=
        some (At45Disk.userRead k.mem buff sector count,atRest k) :=
      congrArg (Option.bind · _) hloop
    exact ends_of_run (fun _ => congrArg (Option.bind · _) hread) ⟨rfl,k,rfl,hk,rfl⟩
  | write buff sector count =>
    have hloop := writeLoop_ends (T:=T) buff sector count.toNat 0 hc
    have hwrite := hloop.bind (q:=fun _ _ => pure resOk)
      (R:=fun res c' => res=resOk ∧ Holds (At45Disk.userWrite chip buff sector count).2 c')
      fun _ c' h' => ends_of_run (fun _ => rfl) ⟨rfl,h'⟩
    refine hwrite.bind (q:=fun res _ => pure (res,none)) fun res c' h' => ?_
    exact ends_of_run (fun _ => rfl) ⟨congrArg (·,none) h'.1,h'.2⟩

/-- For all times that the operations of the chip take and every sequence of
calls of USER_read and USER_write: the loops of the driver end, the calls
return and read what they do on the chip of pages, and the chip, ready again,
holds the same bytes. -/
theorem diskCalls_refine (T : ℕ → ℕ) (k : Core) (hready : k.busy=0) (calls : List Call) :
    Ends (busCalls T calls) (atRest k) fun replies c => replies=diskReplies k.mem calls ∧
      Holds (diskRun k.mem calls) c := by
  have hall : ∀ {chip c},Holds chip c → Ends (busCalls T calls) c fun replies c' =>
      replies=diskReplies chip calls ∧ Holds (diskRun chip calls) c' := by
    induction calls with
    | nil => exact fun hc => ends_of_run (fun _ => rfl) ⟨rfl,hc⟩
    | cons call calls ih =>
      intro chip c hc
      refine (busCall_ends hc call).bind fun reply c1 h1 => ?_
      refine (ih h1.2).bind (q:=fun replies _ => pure (reply::replies)) fun replies c2 h2 => ?_
      exact ends_of_run (fun _ => rfl) ⟨by rw [h1.1,h2.1]; rfl,h2.2⟩
  exact hall ⟨k,rfl,hready,rfl⟩
/-- A chip of two written sectors. -/
def writtenChip : Core := ⟨At45Disk.twoSectors,fun _ => 0,0,0⟩

/-- A write of the fourth sector. -/
def writeFourth : Call := ⟨.write (fun _ => 1) 3 1,by decide⟩

theorem diskCalls_refine_fourth :
    Ends (busCalls (fun n => 1000*n+2500) [writeFourth,At45Disk.readTwo]) (atRest writtenChip)
      fun replies c => replies=diskReplies At45Disk.twoSectors [writeFourth,At45Disk.readTwo] ∧
        Holds (diskRun At45Disk.twoSectors [writeFourth,At45Disk.readTwo]) c :=
  diskCalls_refine _ writtenChip rfl _

end BT816Display.At45Bus
