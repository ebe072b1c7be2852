import BT816Display.Lib.BigEndian
import BT816Display.Crc
import BT816Display.Clock
import BT816Display.Zd25Flash

/-!
# The alarm archive of message_archive.c

A RAM buffer of 256 sixteen-byte slots is filled as a ring and mirrored slot
by slot into 128 data pages of the ZD25 chip. The first sector of the chip is
a log of eight-byte page pointers, one for each page started. The functions
below are those of the source after init_archive, which sets zd25_flag and
ext_flash_used once and for all; addresses in arch_buf are byte offsets from
its start.
-/

namespace BT816Display.MessageArchive

open ByteMemory NorFlash BigEndian Crc Clock Zd25Flash

/-- Bytes of one flash page and of the RAM buffer. -/
abbrev archivePageSize : ℕ := 4096

/-- Bytes of a record before its payload. -/
abbrev archiveRecordSysDataLength : ℕ := 10

/-- Bytes of one record slot. -/
abbrev archiveRecordLength : ℕ := 16

/-- Slots of one page. -/
abbrev maxArchiveRecordsCnt : ℕ := archivePageSize/archiveRecordLength

/-- First byte of the archive on the chip. -/
abbrev zd25AcrhiveStartAddr : ℕ := 0

/-- Data pages of the archive on the chip. -/
abbrev zd25ArchivePageCnt : ℕ := 128

/-- What one call finds outside the variables of the module. -/
structure Env where
  /-- The calendar register. -/
  rtc : ErtcTime
  /-- The bytes that follow the local copy of a record on the stack, which
  check_record reads when the length byte exceeds six. -/
  stack : Mem UInt8

/-- A record as the caller of add_record_to_archive passes it. -/
structure MessageRecord where
  /-- Memory at the payload pointer. -/
  ptr : Mem UInt8
  /-- Time stamp. -/
  time : UInt32
  /-- Kind of the message. -/
  messageId : UInt16
  /-- Information, warning or alarm. -/
  messageType : UInt8
  /-- Payload length, not yet checked. -/
  length : UInt8

/-- What get_record_with_offset_from_last has filled in when it returns 1. -/
structure ReadRecord where
  /-- Time stamp. -/
  time : UInt32
  /-- Kind of the message. -/
  messageId : UInt16
  /-- Information, warning or alarm. -/
  messageType : UInt8
  /-- Payload length. -/
  length : UInt8
  /-- The payload bytes copied. -/
  data : List UInt8
  deriving DecidableEq

/-- Calls that the properties speak about; the code never reads them. -/
inductive Call where
  /-- create_new_page_ptr wrote a pointer to a page, stamped with a time. -/
  | newPagePtr (pageNum : ℕ) (time : UInt32)
  /-- clear_archive was entered. -/
  | clearArchive
  deriving DecidableEq

/-- The variables of the module, the chip, and the calls made so far. -/
structure Archive where
  /-- The RAM buffer arch_buf. -/
  archBuf : Mem UInt8
  /-- Offset of the slot written last, or the null pointer. -/
  lastRecPtr : Option ℕ
  /-- Data page being filled. -/
  archivePageNum : ℕ
  /-- Offset in the pointer log for the next page pointer. -/
  offsetInPagePtrPage : ℕ
  /-- The flash chip. -/
  zd25 : Zd25
  /-- Calls so far, oldest first. -/
  calls : List Call

/-- Running variables of the scan over the pointer log. -/
structure SearchVars where
  /-- Page of the best pointer so far. -/
  pageNum : ℕ
  /-- Whether there is one. -/
  foundFlag : Bool
  /-- Its time stamp. -/
  recTime : UInt32
  /-- The global offset_in_page_ptr_page. -/
  offsetInPagePtrPage : ℕ

/-- The do-while loop of search_last_record. The position advances by eight
and the loop breaks at the page size, so 512 rounds are always enough. -/
def searchLoop (archBuf : Mem UInt8) : ℕ → ℕ → SearchVars → SearchVars
  | 0,_,v => v
  | fuel+1,pos,v =>
    if crcMatches (load archBuf pos 6) (archBuf (pos+6)) (archBuf (pos+7))=true then
      let pageTime := join32 (archBuf pos) (archBuf (pos+1)) (archBuf (pos+2)) (archBuf (pos+3))
      let v :=
        if pageTime>v.recTime then
          let num := (join16 (archBuf (pos+4)) (archBuf (pos+5))).toNat
          if num<zd25ArchivePageCnt then ⟨num,true,pageTime,pos+8⟩ else v
        else v
      if pos+8≥archivePageSize then v else searchLoop archBuf fuel (pos+8) v
    else v

/-- Read the pointer log into the RAM buffer and look for the newest pointer. -/
def searchLastRecord (s : Archive) : SearchVars×Archive :=
  let archBuf := store s.archBuf 0 (zd25FlashRead s.zd25 zd25AcrhiveStartAddr (archivePageSize/2))
  let v := searchLoop archBuf (archivePageSize/8) 0 ⟨0,false,0,s.offsetInPagePtrPage⟩
  (v,{s with archBuf := archBuf,offsetInPagePtrPage := v.offsetInPagePtrPage})

/-- Write a page pointer with the present time at the next place of the log. -/
def createNewPagePtr (env : Env) (pageNum : ℕ) (s : Archive) : Archive :=
  let offset := if s.offsetInPagePtrPage≥archivePageSize then 0 else s.offsetInPagePtrPage
  let curTime := timeToUint32 env.rtc
  let body := split32 curTime++[UInt8.ofNat (pageNum>>>8),UInt8.ofNat (pageNum&&&0xFF)]
  let crc := (getCRC16 body).toUInt16
  let entry := body++[(crc>>>8).toUInt8,(crc&&&0xFF).toUInt8]
  {s with
    offsetInPagePtrPage := offset+8
    zd25 := zd25FlashWrite (zd25AcrhiveStartAddr+offset) entry 4 s.zd25
    calls := s.calls++[.newPagePtr pageNum curTime]}

/-- Restart the pointer log at page 0. -/
def clearArchiveConfigPage (env : Env) (s : Archive) : Archive := createNewPagePtr env 0 s

/-- Erase one data page. -/
def clearArchivePage (pageNum : ℕ) (s : Archive) : Archive :=
  let offsetAddr := zd25AcrhiveStartAddr+archivePageSize+pageNum*archivePageSize
  {s with zd25 := zd25SectorErase (offsetAddr/zd25SectorSize*zd25SectorSize) s.zd25}

/-- clear_archive: zero the buffer, restart the log and erase 30 data pages. -/
def clearArchive (env : Env) (s : Archive) : Archive :=
  let s := {s with
    lastRecPtr := none
    archBuf := fun x => if x<archivePageSize then 0 else s.archBuf x
    archivePageNum := 0
    offsetInPagePtrPage := 0
    calls := s.calls++[.clearArchive]}
  (List.range 30).foldl (fun s i => clearArchivePage i s) (clearArchiveConfigPage env s)

/-- The test of check_record on its local copy of a slot. With a length byte
above six the checksum runs on into the bytes of the stack behind it. -/
def checkSlot (stack : Mem UInt8) (buf : List UInt8) : Bool :=
  let length := (buf.getD 7 0).toNat
  let zeroed := patch buf 8 [0,0]
  crcMatches ((zeroed++load stack 0 249).take (archiveRecordSysDataLength+length))
    (buf.getD 8 0) (buf.getD 9 0)

/-- check_record on the slot at an offset of the buffer. -/
def checkRecord (stack archBuf : Mem UInt8) (ptr : ℕ) : Bool :=
  checkSlot stack (load archBuf ptr archiveRecordLength)

/-- The loop of open_archive over the filled slots at the start of a page;
the count reaches 256 in as many rounds. -/
def countLoop (stack archBuf : Mem UInt8) : ℕ → (recCnt ptr : ℕ) → ℕ
  | 0,recCnt,_ => recCnt
  | fuel+1,recCnt,ptr =>
    if checkRecord stack archBuf ptr=true then
      let recCnt := recCnt+1
      if recCnt≥maxArchiveRecordsCnt then recCnt
      else
        let ptr := ptr+archiveRecordLength
        if ptr>archivePageSize-archiveRecordLength then recCnt
        else countLoop stack archBuf fuel recCnt ptr
    else recCnt

/-- First byte of a data page on the chip. -/
def pageAddr (pageNum : ℕ) : ℕ := zd25AcrhiveStartAddr+archivePageSize+pageNum*archivePageSize

/-- The part of open_archive after a pointer has been found: load its page,
count the filled slots, and complete the buffer from the page before it. -/
def reopenPage (env : Env) (pageNum : ℕ) (s : Archive) : Archive :=
  let archBuf := store s.archBuf 0 (zd25FlashRead s.zd25 (pageAddr pageNum) (archivePageSize/2))
  let recCnt := countLoop env.stack archBuf maxArchiveRecordsCnt 0 0
  let lastRecPtr := if recCnt=0 then none else some ((recCnt-1)*archiveRecordLength)
  let archBuf :=
    if recCnt < maxArchiveRecordsCnt then
      let prevPageNum := if pageNum=0 then zd25ArchivePageCnt-1 else pageNum-1
      store archBuf (archiveRecordLength*recCnt)
        (zd25FlashRead s.zd25 (pageAddr prevPageNum+archiveRecordLength*recCnt)
          ((archivePageSize-archiveRecordLength*recCnt)/2))
    else archBuf
  {s with archBuf := archBuf,lastRecPtr := lastRecPtr,archivePageNum := pageNum}

/-- open_archive: reopen the page of the newest pointer, or clear the archive
when there is none. -/
def openArchive (env : Env) (s : Archive) : Archive :=
  let found := searchLastRecord s
  if found.1.foundFlag=true then reopenPage env found.1.pageNum found.2
  else clearArchive env found.2

/-- init_archive on the ideal chip. -/
def initArchive (env : Env) (s : Archive) : Archive := openArchive env s

/-- The slot that add_record_to_archive fills next, and the archive after a
new data page has been started where the buffer wraps. -/
def nextSlot (env : Env) (s : Archive) : ℕ×Archive :=
  match s.lastRecPtr with
  | none => (0,s)
  | some last =>
    let ptr := last+archiveRecordLength
    if ptr≥archivePageSize-1 then
      let pageNum := s.archivePageNum+1
      let pageNum := if pageNum≥zd25ArchivePageCnt then 0 else pageNum
      (0,createNewPagePtr env pageNum {s with archivePageNum := pageNum})
    else (ptr,s)

/-- add_record_to_archive: fill the next slot in RAM and write it to flash. -/
def addRecordToArchive (env : Env) (record : MessageRecord) (s : Archive) : Archive :=
  let (ptr,s) := nextSlot env s
  let length := if record.length>6 then 6 else record.length
  let sysData := split32 record.time++split16 record.messageId++[record.messageType,length,0,0]
  let body := (List.range (archiveRecordLength-archiveRecordSysDataLength)).map fun i =>
    if i<length.toNat then record.ptr i else 0
  let archBuf := store s.archBuf ptr (sysData++body)
  let crc := (getCRC16 (load archBuf ptr (archiveRecordSysDataLength+length.toNat))).toUInt16
  let archBuf := store archBuf (ptr+8) [(crc>>>8).toUInt8,(crc&&&0xFF).toUInt8]
  {s with
    archBuf := archBuf
    lastRecPtr := some ptr
    zd25 := zd25FlashWrite (pageAddr s.archivePageNum+ptr) (load archBuf ptr archiveRecordLength)
      (archiveRecordLength/2) s.zd25}

/-- One step backwards in the ring of slots. -/
def prevSlot (ptr : ℕ) : ℕ :=
  if ptr>0 then ptr-archiveRecordLength else archivePageSize-archiveRecordLength

/-- The counting loop of get_archive_records_cnt; the count reaches 256 in as
many rounds. -/
def recordsLoop (stack archBuf : Mem UInt8) : ℕ → (res ptr : ℕ) → ℕ
  | 0,res,_ => res
  | fuel+1,res,ptr =>
    if checkRecord stack archBuf ptr=true then
      let res := res+1
      if res≥maxArchiveRecordsCnt then res
      else recordsLoop stack archBuf fuel res (prevSlot ptr)
    else res

/-- get_archive_records_cnt. -/
def getArchiveRecordsCnt (stack : Mem UInt8) (s : Archive) : ℕ :=
  match s.lastRecPtr with
  | none => 0
  | some ptr => recordsLoop stack s.archBuf maxArchiveRecordsCnt 0 ptr

/-- The slot `offset` steps behind another one. -/
def stepBack : (offset ptr : ℕ) → ℕ
  | 0,ptr => ptr
  | offset+1,ptr => stepBack offset (prevSlot ptr)

/-- The part of get_record_with_offset_from_last that reads the slot found. -/
def readSlot (stack : Mem UInt8) (slot : List UInt8) : Option ReadRecord :=
  let byte := fun i => slot.getD i 0
  let length := byte 7
  if length.toNat>archiveRecordLength-archiveRecordSysDataLength then none
  else if checkSlot stack slot=false then none
  else some
    { time := join32 (byte 0) (byte 1) (byte 2) (byte 3)
      messageId := join16 (byte 4) (byte 5)
      messageType := byte 6
      length := length
      data := (List.range length.toNat).map fun i => byte (archiveRecordSysDataLength+i) }

/-- get_record_with_offset_from_last; `none` stands for the result 0. -/
def getRecordWithOffsetFromLast (stack : Mem UInt8) (offset : ℕ) (s : Archive) :
    Option ReadRecord :=
  match s.lastRecPtr with
  | none => none
  | some ptr => readSlot stack (load s.archBuf (stepBack offset ptr) archiveRecordLength)

/-- Power-up: the chip keeps its contents, the variables have their initial
values. -/
def powerUp (s : Archive) : Archive :=
  {s with archBuf := fun _ => 0,lastRecPtr := none,archivePageNum := 0,offsetInPagePtrPage := 0}

/-- A reboot: power-up followed by init_archive. -/
def reboot (env : Env) (s : Archive) : Archive := initArchive env (powerUp s)

/-- A new panel with an erased chip, before its first init_archive. -/
def factoryArchive : Archive := ⟨fun _ => 0,none,0,0,erasedChip,[]⟩

end BT816Display.MessageArchive
