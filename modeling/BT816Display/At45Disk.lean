import BT816Display.Lib.ByteMemory
import BT816Display.Lib.Runs

/-!
# The block device of user_diskio.c

FatFs sees the AT45 chip as a disk of 512-byte sectors, each in two pages of
at45db081e.c. The chip stores in a page what at45_write_page sends.
-/

namespace BT816Display.At45Disk

open ByteMemory Runs

/-- Bytes of a page. -/
abbrev pageSize : ℕ := 256

/-- Bytes of a sector. -/
abbrev sectorSize : ℕ := 512

/-- GET_SECTOR_COUNT of USER_ioctl. -/
abbrev sectorCount : ℕ := 2048

/-- at45_read_page to a place of a buffer: the result and the buffer. -/
def at45ReadPage (chip : Mem UInt8) (pageNum : UInt16) (buff : Mem UInt8) (place : ℕ) :
    UInt8×Mem UInt8 :=
  if pageNum>4095 then (0,buff)
  else (1,store buff place (load chip (pageSize*pageNum.toNat) pageSize))

/-- at45_write_page from a place of a buffer: the result and the chip. -/
def at45WritePage (chip : Mem UInt8) (pageNum : UInt16) (buff : Mem UInt8) (place : ℕ) :
    UInt8×Mem UInt8 :=
  if pageNum>4095 then (0,chip)
  else (1,store chip (pageSize*pageNum.toNat) (load buff place pageSize))

/-- RES_OK. -/
abbrev resOk : UInt8 := 0

/-- The loop of USER_read over the remaining count. -/
def readLoop (chip : Mem UInt8) (sector : UInt32) : (count place : ℕ) → Mem UInt8 → Mem UInt8
  | 0,_,buff => buff
  | count+1,place,buff =>
    let buff := (at45ReadPage chip (sector*2).toUInt16 buff place).2
    let buff := (at45ReadPage chip (sector*2+1).toUInt16 buff (place+256)).2
    readLoop chip sector count (place+512) buff

/-- USER_read: the result and the buffer. -/
def userRead (chip : Mem UInt8) (buff : Mem UInt8) (sector count : UInt32) : UInt8×Mem UInt8 :=
  (resOk,readLoop chip sector count.toNat 0 buff)

/-- The loop of USER_write over the remaining count. -/
def writeLoop (buff : Mem UInt8) (sector : UInt32) : (count place : ℕ) → Mem UInt8 → Mem UInt8
  | 0,_,chip => chip
  | count+1,place,chip =>
    let chip := (at45WritePage chip (sector*2).toUInt16 buff place).2
    let chip := (at45WritePage chip (sector*2+1).toUInt16 buff (place+256)).2
    writeLoop buff sector count (place+512) chip

/-- USER_write: the result and the chip. -/
def userWrite (chip : Mem UInt8) (buff : Mem UInt8) (sector count : UInt32) : UInt8×Mem UInt8 :=
  (resOk,writeLoop buff sector count.toNat 0 chip)

/-! ## Calls -/

/-- A call of USER_read or USER_write. -/
inductive DiskOp where
  /-- USER_read into a buffer. -/
  | read (buff : Mem UInt8) (sector count : UInt32)
  /-- USER_write from a buffer. -/
  | write (buff : Mem UInt8) (sector count : UInt32)

/-- The count of a call. -/
def DiskOp.count : DiskOp → UInt32
  | .read _ _ count => count
  | .write _ _ count => count

/-- A call as FatFs makes it. -/
abbrev Call := {op : DiskOp // 1≤op.count.toNat}

/-- The chip after a call. -/
def diskStep (chip : Mem UInt8) (call : Call) : Mem UInt8 :=
  match call.val with
  | .read _ _ _ => chip
  | .write buff sector count => (userWrite chip buff sector count).2

/-- The chip after a sequence of calls. -/
def diskRun (chip : Mem UInt8) (calls : List Call) : Mem UInt8 := calls.foldl diskStep chip

/-! ## An array of sectors -/

/-- An array of sectors: the contents of those that exist. -/
abbrev Sectors := ℕ → Option (List UInt8)

/-- The sectors that a chip holds. -/
def contents (chip : Mem UInt8) : Sectors := fun s =>
  if s<sectorCount then some (load chip (sectorSize*s) sectorSize) else none

/-- An array after a transfer of sectors to it. -/
def Sectors.write (a : Sectors) (buff : Mem UInt8) (sector count : ℕ) : Sectors := fun s =>
  if sector ≤ s ∧ s<sector+count then some (load buff (sectorSize*(s-sector)) sectorSize) else a s

/-- The array after a call. -/
def arrayStep (a : Sectors) (call : Call) : Sectors :=
  match call.val with
  | .read _ _ _ => a
  | .write buff sector count => a.write buff sector.toNat count.toNat

/-- The last contents written to every sector, or those at first. -/
def lastWritten (chip : Mem UInt8) (calls : List Call) : Sectors :=
  calls.foldl arrayStep (contents chip)

/-- A call does what it does on an array: a read that returns RES_OK leaves in
the buffer what was last written to its sectors, and a write that returns
RES_OK changes its sectors and no others. -/
def Right (chip : Mem UInt8) (calls : List Call) (call : Call) : Prop :=
  match call.val with
  | .read buff sector count =>
    (userRead (diskRun chip calls) buff sector count).1=resOk → ∀ k<count.toNat,
      lastWritten chip calls (sector.toNat+k)=
        some (load (userRead (diskRun chip calls) buff sector count).2 (sectorSize*k) sectorSize)
  | .write buff sector count =>
    (userWrite (diskRun chip calls) buff sector count).1=resOk →
      contents (userWrite (diskRun chip calls) buff sector count).2=
        (lastWritten chip calls).write buff sector.toNat count.toNat

/-- The sectors exist, and the driver's doing every round to the first of them
makes no difference: all sectors read hold the same, or the last sector of the
buffer is the first one and the others are on the chip already. -/
def Fits (chip : Mem UInt8) (call : Call) : Prop :=
  match call.val with
  | .read _ sector count =>
    sector.toNat+count.toNat ≤ sectorCount ∧ ∀ k<count.toNat,
      load chip (sectorSize*(sector.toNat+k)) sectorSize=
        load chip (sectorSize*sector.toNat) sectorSize
  | .write buff sector count =>
    sector.toNat+count.toNat ≤ sectorCount ∧
      load buff (sectorSize*(count.toNat-1)) sectorSize=load buff 0 sectorSize ∧
      ∀ k,1≤k → k<count.toNat →
        load chip (sectorSize*(sector.toNat+k)) sectorSize=load buff (sectorSize*k) sectorSize

/-! ## One round -/

/-- The places of the pages of a sector of the disk. -/
theorem page_place {sector : UInt32} (h : sector.toNat<sectorCount) :
    pageSize*(sector*2).toUInt16.toNat=sectorSize*sector.toNat ∧
      pageSize*(sector*2+1).toUInt16.toNat=sectorSize*sector.toNat+256 := by
  have h2 : (2 : UInt32).toNat=2 := rfl
  have h1 : (1 : UInt32).toNat=1 := rfl
  rw [UInt32.toNat_toUInt16,UInt32.toNat_toUInt16,UInt32.toNat_add,UInt32.toNat_mul,h2,h1]
  unfold sectorCount at h
  unfold pageSize sectorSize
  omega

/-- The sectors of the disk are on the chip. -/
theorem secondPage_lt {sector : ℕ} (h : sector<sectorCount) :
    sectorSize*sector+256<pageSize*4096 := by
  unfold sectorCount at h
  unfold pageSize sectorSize
  omega

/-- A page below the end of the disk is not refused. -/
theorem not_refused {pageNum : UInt16} {a : ℕ} (h : pageSize*pageNum.toNat=a)
    (ha : a<pageSize*4096) : ¬pageNum>4095 := by
  have h4095 : (4095 : UInt16).toNat=4095 := rfl
  rw [gt_iff_lt,UInt16.lt_iff_toNat_lt,h4095]
  unfold pageSize at h ha
  omega

/-- A page of the disk is read from its place. -/
theorem at45ReadPage_place {pageNum : UInt16} {a : ℕ} (h : pageSize*pageNum.toNat=a)
    (ha : a<pageSize*4096) (chip buff : Mem UInt8) (place : ℕ) :
    (at45ReadPage chip pageNum buff place).2=store buff place (load chip a pageSize) := by
  unfold at45ReadPage
  rw [if_neg (not_refused h ha),h]

/-- A page of the disk is written at its place. -/
theorem at45WritePage_place {pageNum : UInt16} {a : ℕ} (h : pageSize*pageNum.toNat=a)
    (ha : a<pageSize*4096) (chip buff : Mem UInt8) (place : ℕ) :
    (at45WritePage chip pageNum buff place).2=store chip a (load buff place pageSize) := by
  unfold at45WritePage
  rw [if_neg (not_refused h ha),h]

/-- Two adjacent blocks are one block. -/
theorem store_pages (m m' : Mem UInt8) (a b : ℕ) :
    store (store m a (load m' b 256)) (a+256) (load m' (b+256) 256)=
      store m a (load m' b 512) := by
  have happend := store_store_append m a (load m' b 256) (load m' (b+256) 256)
  rw [load_length] at happend
  rw [happend,←load_append]

/-- One round of USER_read copies the first sector. -/
theorem readLoop_succ {sector : UInt32} (h : sector.toNat<sectorCount) (chip buff : Mem UInt8)
    (count place : ℕ) : readLoop chip sector (count+1) place buff=
      readLoop chip sector count (place+512)
        (store buff place (load chip (sectorSize*sector.toNat) sectorSize)) := by
  obtain ⟨hlow,hhigh⟩ := page_place h
  have hend := secondPage_lt h
  rw [readLoop,at45ReadPage_place hlow (by omega),at45ReadPage_place hhigh hend,store_pages]

/-- One round of USER_write stores to the first sector. -/
theorem writeLoop_succ {sector : UInt32} (h : sector.toNat<sectorCount) (buff chip : Mem UInt8)
    (count place : ℕ) : writeLoop buff sector (count+1) place chip=
      writeLoop buff sector count (place+512)
        (store chip (sectorSize*sector.toNat) (load buff place sectorSize)) := by
  obtain ⟨hlow,hhigh⟩ := page_place h
  have hend := secondPage_lt h
  rw [writeLoop,at45WritePage_place hlow (by omega),at45WritePage_place hhigh hend,store_pages]

/-- USER_read fills the buffer with the first sector, over and over. -/
theorem load_readLoop {sector : UInt32} (h : sector.toNat<sectorCount) (chip : Mem UInt8) :
    ∀ (count place : ℕ) (buff : Mem UInt8),
      (∀ k<count,load (readLoop chip sector count place buff) (place+sectorSize*k) sectorSize=
        load chip (sectorSize*sector.toNat) sectorSize) ∧
      ∀ a n,a+n≤place → load (readLoop chip sector count place buff) a n=load buff a n := by
  intro count
  induction count with
  | zero => exact fun _ _ => ⟨fun k hk => absurd hk (Nat.not_lt_zero k),fun _ _ _ => rfl⟩
  | succ count ih =>
    intro place buff
    rw [readLoop_succ h]
    obtain ⟨hround,hother⟩ := ih (place+512)
      (store buff place (load chip (sectorSize*sector.toNat) sectorSize))
    constructor
    · intro k hk
      cases k with
      | zero =>
        have hself := load_store_self buff place (load chip (sectorSize*sector.toNat) sectorSize)
        rw [load_length] at hself
        rw [show place+sectorSize*0=place from rfl,hother place sectorSize le_rfl,hself]
      | succ k =>
        have hk' := hround k (by omega)
        rwa [show place+512+sectorSize*k=place+sectorSize*(k+1) by unfold sectorSize; omega] at hk'
    · intro a n hle
      rw [hother a n (by omega)]
      exact load_store_disjoint (Or.inl hle)

/-- USER_write leaves the last sector of the buffer in the first sector. -/
theorem writeLoop_eq {sector : UInt32} (h : sector.toNat<sectorCount) (buff : Mem UInt8) :
    ∀ (count place : ℕ) (chip : Mem UInt8),
      writeLoop buff sector (count+1) place chip=
        store chip (sectorSize*sector.toNat) (load buff (place+sectorSize*count) sectorSize) := by
  intro count
  induction count with
  | zero =>
    intro place chip
    rw [writeLoop_succ h]
    rfl
  | succ count ih =>
    intro place chip
    rw [writeLoop_succ h,ih,store_store_same (by rw [load_length,load_length]),
      show place+512+sectorSize*count=place+sectorSize*(count+1) by unfold sectorSize; omega]

/-! ## Calls one by one -/

/-- The contents of a sector that exists. -/
theorem contents_eq_some_iff {chip : Mem UInt8} {s : ℕ} {b : List UInt8} :
    contents chip s=some b ↔ s<sectorCount ∧ load chip (sectorSize*s) sectorSize=b := by
  unfold contents
  by_cases h : s<sectorCount
  · rw [if_pos h,Option.some.injEq,and_iff_right h]
  · rw [if_neg h]
    exact iff_of_false nofun fun hs => h hs.1

/-- A read of an existing sector delivers it in every place. -/
theorem load_userRead {sector : UInt32} (h : sector.toNat<sectorCount) (chip buff : Mem UInt8)
    {count : UInt32} {k : ℕ} (hk : k<count.toNat) :
    load (userRead chip buff sector count).2 (sectorSize*k) sectorSize=
      load chip (sectorSize*sector.toNat) sectorSize := by
  have hround := (load_readLoop h chip count.toNat 0 buff).1 k hk
  rwa [Nat.zero_add] at hround

/-- A sector of a read is right exactly when it exists and holds what the first
one does. -/
theorem read_iff_fits {chip : Mem UInt8} (buff : Mem UInt8) (sector : UInt32) {count : UInt32}
    (hcount : 1 ≤ count.toNat) :
    (∀ k<count.toNat,contents chip (sector.toNat+k)=
      some (load (userRead chip buff sector count).2 (sectorSize*k) sectorSize)) ↔
    sector.toNat+count.toNat ≤ sectorCount ∧ ∀ k<count.toNat,
      load chip (sectorSize*(sector.toNat+k)) sectorSize=
        load chip (sectorSize*sector.toNat) sectorSize := by
  simp only [contents_eq_some_iff]
  constructor
  · intro h
    have hfirst : sector.toNat<sectorCount := (h 0 hcount).1
    have hlast := (h (count.toNat-1) (by omega)).1
    exact ⟨by omega,fun k hk => (h k hk).2.trans (load_userRead hfirst chip buff hk)⟩
  · rintro ⟨hend,hsame⟩ k hk
    have hfirst : sector.toNat<sectorCount := by omega
    exact ⟨by omega,(hsame k hk).trans (load_userRead hfirst chip buff hk).symm⟩

/-- Storing to one sector changes this sector only. -/
theorem contents_store {s : ℕ} (h : s<sectorCount) (chip : Mem UInt8) {b : List UInt8}
    (hb : b.length=sectorSize) (t : ℕ) :
    contents (store chip (sectorSize*s) b) t=if t=s then some b else contents chip t := by
  by_cases hts : t=s
  · have hself := load_store_self chip (sectorSize*s) b
    rw [hb] at hself
    rw [if_pos hts,hts]
    exact contents_eq_some_iff.mpr ⟨h,hself⟩
  · rw [if_neg hts]
    unfold contents sectorSize at *
    rw [load_store_disjoint (by rw [hb]; omega)]

/-- A write stores the last sector of the buffer to the first sector. -/
theorem contents_userWrite {sector : UInt32} (h : sector.toNat<sectorCount) (chip buff : Mem UInt8)
    {count : UInt32} (hcount : 1 ≤ count.toNat) (t : ℕ) :
    contents (userWrite chip buff sector count).2 t=
      if t=sector.toNat then some (load buff (sectorSize*(count.toNat-1)) sectorSize)
      else contents chip t := by
  have hloop := writeLoop_eq h buff (count.toNat-1) 0 chip
  rw [Nat.sub_add_cancel hcount,Nat.zero_add] at hloop
  unfold userWrite
  dsimp only
  rw [hloop,contents_store h chip (load_length ..)]

theorem Sectors.write_add (a : Sectors) (buff : Mem UInt8) (sector : ℕ) {count k : ℕ}
    (h : k<count) : a.write buff sector count (sector+k)=
      some (load buff (sectorSize*k) sectorSize) := by
  unfold Sectors.write
  rw [if_pos (by omega),Nat.add_sub_cancel_left]

/-- A write is right exactly when its sectors exist, the last sector of the
buffer is the first one, and the others are on the chip already. -/
theorem write_iff_fits {chip : Mem UInt8} (buff : Mem UInt8) (sector : UInt32) {count : UInt32}
    (hcount : 1 ≤ count.toNat) :
    contents (userWrite chip buff sector count).2=
      (contents chip).write buff sector.toNat count.toNat ↔
    sector.toNat+count.toNat ≤ sectorCount ∧
      load buff (sectorSize*(count.toNat-1)) sectorSize=load buff 0 sectorSize ∧
      ∀ k,1≤k → k<count.toNat →
        load chip (sectorSize*(sector.toNat+k)) sectorSize=load buff (sectorSize*k) sectorSize := by
  constructor
  · intro h
    have hat {k : ℕ} (hk : k<count.toNat) :=
      (congrFun h (sector.toNat+k)).trans (Sectors.write_add _ buff sector.toNat hk)
    have hsector : sector.toNat<sectorCount := (contents_eq_some_iff.mp (hat hcount)).1
    have hfirst := hat hcount
    rw [contents_userWrite hsector chip buff hcount,if_pos (Nat.add_zero _)] at hfirst
    have hexist {k : ℕ} (h1 : 1≤k) (hk : k<count.toNat) : sector.toNat+k<sectorCount ∧
        load chip (sectorSize*(sector.toNat+k)) sectorSize=
          load buff (sectorSize*k) sectorSize := by
      have hk' := hat hk
      rw [contents_userWrite hsector chip buff hcount,if_neg (by omega)] at hk'
      exact contents_eq_some_iff.mp hk'
    refine ⟨?_,Option.some.inj hfirst,fun k h1 hk => (hexist h1 hk).2⟩
    by_cases hone : count.toNat=1
    · omega
    · have hlast := (@hexist (count.toNat-1) (by omega) (by omega)).1
      omega
  · rintro ⟨hend,hlast,hrest⟩
    funext t
    rw [contents_userWrite (by omega) chip buff hcount]
    by_cases hrange : sector.toNat≤t ∧ t<sector.toNat+count.toNat
    · obtain ⟨k,rfl⟩ := Nat.exists_eq_add_of_le hrange.1
      rw [Sectors.write_add _ _ _ (by omega)]
      cases k with
      | zero => rw [if_pos (Nat.add_zero _),hlast,Nat.mul_zero]
      | succ k =>
        rw [if_neg (by omega)]
        exact contents_eq_some_iff.mpr ⟨by omega,hrest (k+1) (by omega) (by omega)⟩
    · unfold Sectors.write
      rw [if_neg (by omega),if_neg hrange]

/-! ## Runs -/

theorem diskRun_concat (chip : Mem UInt8) (calls : List Call) (call : Call) :
    diskRun chip (calls++[call])=diskStep (diskRun chip calls) call := List.foldl_concat ..

theorem lastWritten_concat (chip : Mem UInt8) (calls : List Call) (call : Call) :
    lastWritten chip (calls++[call])=arrayStep (lastWritten chip calls) call :=
  List.foldl_concat ..

/-- As long as the chip holds the array, a call is right exactly when it fits. -/
theorem right_iff_fits {chip : Mem UInt8} {calls : List Call}
    (h : contents (diskRun chip calls)=lastWritten chip calls) (call : Call) :
    Right chip calls call ↔ Fits (diskRun chip calls) call := by
  obtain ⟨op,hcount⟩ := call
  unfold Right Fits
  rw [←h]
  cases op with
  | read buff sector count =>
    exact (imp_iff_right rfl).trans (read_iff_fits buff sector hcount)
  | write buff sector count =>
    exact (imp_iff_right rfl).trans (write_iff_fits buff sector hcount)

/-- A call that is right leaves the chip with the array behind it. -/
theorem contents_diskStep {chip : Mem UInt8} {calls : List Call}
    (h : contents (diskRun chip calls)=lastWritten chip calls) {call : Call}
    (hright : Right chip calls call) :
    contents (diskRun chip (calls++[call]))=lastWritten chip (calls++[call]) := by
  rw [diskRun_concat,lastWritten_concat]
  obtain ⟨op,hcount⟩ := call
  cases op with
  | read buff sector count => exact h
  | write buff sector count => exact hright rfl

/-- The sectors of the chip are those of the calls. -/
def Current (chip : Mem UInt8) (calls : List Call) : Prop :=
  contents (diskRun chip calls)=lastWritten chip calls

theorem current_nil (chip : Mem UInt8) : Current chip [] := rfl

/-- For every chip and every sequence of calls: the driver is an array of
sectors throughout exactly when every call fits the chip before it. -/
theorem all_right_iff (chip : Mem UInt8) (calls : List Call) :
    InputsMeet (Right chip) calls ↔
      InputsMeet (fun pre call => Fits (diskRun chip pre) call) calls :=
  inputsMeet_congr (current_nil chip) (fun _ call h => right_iff_fits h call)
    (fun _ _ h hright => contents_diskStep h hright) calls

/-- A chip whose second sector holds ones. -/
def twoSectors : Mem UInt8 := fun x => if x<512 then 0 else 1

/-- A read of two sectors. -/
def readTwo : Call := ⟨.read (fun _ => 0) 0 2,by decide⟩

/-- The second sector of the buffer is the first one of the disk again. -/
theorem readTwo_wrong : ¬InputsMeet (Right twoSectors) [readTwo] := by
  intro h
  have hread := (read_iff_fits (fun _ => 0) 0 (by decide : 1≤(2 : UInt32).toNat)).mp
    (h [] readTwo [] rfl rfl)
  have hsame := load_eq_load_iff.mp (hread.2 1 (by decide)) 0 (by decide)
  exact absurd hsame (by decide)

end BT816Display.At45Disk
