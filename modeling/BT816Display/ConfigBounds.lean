import BT816Display.ConfigHeader
import BT816Display.Lib.Traced

/-!
# What the parsers of config.c touch

check_config_header and check_item_config clear a length inside the block and
sum as many bytes as it declares, and the two getters walk the table with a
16-bit position. Here every byte that they read or write is noted.
-/

namespace BT816Display.ConfigBounds

open BigEndian ByteMemory Crc
open ConfigHeader (EntryOf FirstEntry coveredLength entryCnt entryPos search word)
open Traced (read Reads)

/-- Bytes of conf_buf. -/
abbrev confBufSize : ℕ := 4096

/-- A routine on a block, with the bytes that it touches. -/
abbrev Touch := Traced ℕ Empty

/-! ## The routines -/

/-- A byte is read. -/
def byteAt (ptr : Mem UInt8) (i : ℕ) : Touch UInt8 := read i (ptr i)

/-- A byte is written: the block behind it. -/
def setByte (ptr : Mem UInt8) (i : ℕ) (value : UInt8) : Touch (Mem UInt8) :=
  read i (store ptr i [value])

/-- Two bytes as a 16-bit number. -/
def halfAt (ptr : Mem UInt8) (i : ℕ) : Touch UInt16 := do
  let high ← byteAt ptr i
  let low ← byteAt ptr (i+1)
  return join16 high low

/-- Four bytes as a 32-bit number. -/
def wordAt (ptr : Mem UInt8) (i : ℕ) : Touch UInt32 := do
  let b0 ← byteAt ptr i
  let b1 ← byteAt ptr (i+1)
  let b2 ← byteAt ptr (i+2)
  let b3 ← byteAt ptr (i+3)
  return join32 b0 b1 b2 b3

/-- Comparisons of bytes up to the first that differs. -/
def sameBytes (ptr : Mem UInt8) : List (ℕ×UInt8) → Touch Bool
  | [] => return true
  | (i,value)::rest => do
    let b ← byteAt ptr i
    if b=value then sameBytes ptr rest else return false

/-- The loop of GetCRC16. -/
def crcLoop (ptr : Mem UInt8) : (cnt pos : ℕ) → UInt8×UInt8 → Touch (UInt8×UInt8)
  | 0,_,crc => return crc
  | cnt+1,pos,crc => do
    let byte ← byteAt ptr pos
    crcLoop ptr cnt (pos+1) (crcStep crc byte)

/-- GetCRC16, as a 16-bit number. -/
def getCRC16 (ptr : Mem UInt8) (cnt : ℕ) : Touch UInt16 := do
  let crc ← crcLoop ptr cnt 0 (0xFF,0xFF)
  return ((crc.1.toUInt32<<<8)|||crc.2.toUInt32).toUInt16

/-- The end of both checks: the length is cleared, and the checksum of the
bytes before its two is compared with them. -/
def checkSum (ptr : Mem UInt8) (lengthPos length : ℕ) : Touch (Bool×Mem UInt8) := do
  let ptr ← setByte ptr lengthPos 0
  let ptr ← setByte ptr (lengthPos+1) 0
  let crc ← getCRC16 ptr length
  let same ← sameBytes ptr [(length,(crc&&&0xFF).toUInt8),(length+1,(crc>>>8).toUInt8)]
  return (same,ptr)

/-- check_config_header. -/
def checkConfigHeader (ptr : Mem UInt8) : Touch (Bool×Mem UInt8) := do
  let magic ← sameBytes ptr [(0,0x0D),(1,0x0A),(2,0x0A),(3,0x0D)]
  if magic then
    let length ← halfAt ptr 4
    let length := if length>4096 then 4096 else length
    let length := if length<2 then 2 else length
    checkSum ptr 4 (length-2).toNat
  else return (false,ptr)

/-- check_item_config. -/
def checkItemConfig (ptr : Mem UInt8) (id : UInt16) : Touch (Bool×Mem UInt8) := do
  let curId ← halfAt ptr 0
  if curId=id then
    let length ← halfAt ptr 2
    if length>4096 then return (true,ptr)
    else
      let length := if length<2 then 2 else length
      checkSum ptr 2 (length-2).toNat
  else return (false,ptr)

/-- The position of the getters behind a step stays a 16-bit number. -/
theorem step_toNat {pos : UInt16} (h : pos<4096) : (pos+10).toNat=pos.toNat+10 := by
  have hlt : pos.toNat<4096 := UInt16.lt_iff_toNat_lt.mp h
  have h10 : (10 : UInt16).toNat=10 := rfl
  rw [UInt16.toNat_add,h10]
  omega

/-- The loop of both getters, with the place of the word in an entry. -/
def getConfigById (field : ℕ) (id : UInt16) (header : Mem UInt8) (pos : UInt16) : Touch UInt32 :=
  if h : pos<4096 then do
    let curId ← halfAt header pos.toNat
    if curId=id then wordAt header (pos.toNat+field)
    else getConfigById field id header (pos+10)
  else return 0
termination_by 4096-pos.toNat
decreasing_by
  have hlt : pos.toNat<4096 := UInt16.lt_iff_toNat_lt.mp h
  rw [step_toNat h]
  omega

/-- get_config_param_by_id. -/
def getConfigParamById (id : UInt16) (header : Mem UInt8) : Touch UInt32 :=
  getConfigById 2 id header 6

/-- get_config_offset_by_id. -/
def getConfigOffsetById (id : UInt16) (header : Mem UInt8) : Touch UInt32 :=
  getConfigById 6 id header 6

/-! ## The parts -/

section

variable {P : ℕ → Prop} (ptr : Mem UInt8)

/-- A byte is one read. -/
theorem byteAt_reads {i : ℕ} : Reads P (byteAt ptr i) ↔ P i := Traced.reads_read P i (ptr i)

/-- A byte that is stored is one access. -/
theorem setByte_reads {i : ℕ} {value : UInt8} : Reads P (setByte ptr i value) ↔ P i :=
  Traced.reads_read P i _

/-- A half-word is two reads. -/
theorem halfAt_reads {i : ℕ} : Reads P (halfAt ptr i) ↔ P i ∧ P (i+1) := by
  unfold halfAt
  rw [Traced.reads_bind,Traced.reads_bind,Traced.reads_pure,byteAt_reads,byteAt_reads,and_true]

/-- Its value is that of both bytes, the lower one first. -/
theorem halfAt_value (i : ℕ) : (halfAt ptr i).value=join16 (ptr i) (ptr (i+1)) := rfl

/-- A word has the value of its bytes. -/
theorem wordAt_value (i : ℕ) : (wordAt ptr i).value=word ptr i := rfl

/-- A word is four reads. -/
theorem wordAt_reads {i : ℕ} :
    Reads P (wordAt ptr i) ↔ P i ∧ P (i+1) ∧ P (i+2) ∧ P (i+3) := by
  unfold wordAt
  rw [Traced.reads_bind,Traced.reads_bind,Traced.reads_bind,Traced.reads_bind,Traced.reads_pure,
    byteAt_reads,byteAt_reads,byteAt_reads,byteAt_reads,and_true]

/-- Comparisons touch their own bytes at most. -/
theorem sameBytes_reads {l : List (ℕ×UInt8)} (h : ∀ c∈l,P c.1) : Reads P (sameBytes ptr l) := by
  induction l with
  | nil => exact (Traced.reads_pure P true).mpr trivial
  | cons c l ih =>
    obtain ⟨hc,hl⟩ := List.forall_mem_cons.mp h
    rw [sameBytes,Traced.reads_bind,Traced.reads_ite,Traced.reads_pure,byteAt_reads]
    exact ⟨hc,fun _ => ih hl,fun _ => trivial⟩

/-- The comparison tells whether the bytes are the same. -/
theorem sameBytes_value (l : List (ℕ×UInt8)) :
    (sameBytes ptr l).value=decide (∀ c∈l,ptr c.1=c.2) := by
  induction l with
  | nil => exact (decide_eq_true (List.forall_mem_nil _)).symm
  | cons c l ih =>
    rw [sameBytes,Traced.bind_value]
    by_cases hc : (byteAt ptr c.1).value=c.2
    · rw [if_pos hc,ih]
      refine decide_eq_decide.mpr (Iff.trans ?_ List.forall_mem_cons.symm)
      exact (and_iff_right hc).symm
    · rw [if_neg hc]
      exact (decide_eq_false fun h => hc (h c List.mem_cons_self)).symm

/-- The loop of the checksum touches the bytes that it sums. -/
theorem crcLoop_reads {cnt pos : ℕ} (h : ∀ i<cnt,P (pos+i)) (crc : UInt8×UInt8) :
    Reads P (crcLoop ptr cnt pos crc) := by
  induction cnt generalizing pos crc with
  | zero => exact (Traced.reads_pure P crc).mpr trivial
  | succ cnt ih =>
    rw [crcLoop,Traced.reads_bind,byteAt_reads]
    refine ⟨h 0 (Nat.succ_pos cnt),ih (fun i hi => ?_) _⟩
    rw [Nat.add_assoc,Nat.add_comm 1 i]
    exact h (i+1) (by omega)

/-- The loop of the checksum takes the bytes in order. -/
theorem crcLoop_value (cnt pos : ℕ) (crc : UInt8×UInt8) :
    (crcLoop ptr cnt pos crc).value=(load ptr pos cnt).foldl crcStep crc := by
  induction cnt generalizing pos crc with
  | zero => rfl
  | succ cnt ih =>
    rw [crcLoop,Traced.bind_value,ih,Nat.add_comm cnt 1,load_append]
    rfl

/-- GetCRC16 on the buffer. -/
theorem getCRC16_value (cnt : ℕ) :
    (getCRC16 ptr cnt).value=(Crc.getCRC16 (load ptr 0 cnt)).toUInt16 := by
  unfold getCRC16
  rw [Traced.bind_value,Traced.pure_value,crcLoop_value]
  rfl

/-- The end of a check touches the length, the bytes that are summed and the
two behind them. -/
theorem checkSum_reads {lengthPos length : ℕ} (hlength : P lengthPos ∧ P (lengthPos+1))
    (h : ∀ i<length+2,P i) : Reads P (checkSum ptr lengthPos length) := by
  unfold checkSum getCRC16
  simp only [Traced.reads_bind,Traced.reads_pure,setByte_reads,and_true]
  refine ⟨hlength.1,hlength.2,crcLoop_reads _ (fun i hi => ?_) _,sameBytes_reads _ ?_⟩
  · rw [Nat.zero_add]
    exact h i (by omega)
  · exact List.forall_mem_cons.mpr ⟨h length (by omega),
      List.forall_mem_singleton.mpr (h (length+1) (by omega))⟩

/-- The checksum over a range with its own two bytes cleared. -/
theorem checkSum_value (lengthPos length : ℕ) : (checkSum ptr lengthPos length).value=
    let ptr := store ptr lengthPos [0,0]
    let crc := (Crc.getCRC16 (load ptr 0 length)).toUInt16
    (decide (ptr length=(crc&&&0xFF).toUInt8 ∧ ptr (length+1)=(crc>>>8).toUInt8),ptr) := by
  have hstore : store (store ptr lengthPos [0]) (lengthPos+1) [0]=store ptr lengthPos [0,0] :=
    store_store_append ptr lengthPos [0] [0]
  unfold checkSum
  simp only [Traced.bind_value,Traced.pure_value,setByte,Traced.read_value,hstore,getCRC16_value,
    sameBytes_value,List.forall_mem_cons,List.not_mem_nil,false_imp_iff,implies_true,and_true]

end

/-! ## The two checks -/

/-- The length that a check sums is cut to the block. -/
theorem cut_toNat (length : UInt16) :
    ((if length<2 then 2 else length)-2).toNat=
      (if length.toNat<2 then 2 else length.toNat)-2 := by
  have h2 : (2 : UInt16).toNat=2 := rfl
  have hlt := UInt16.lt_iff_toNat_lt (a:=length) (b:=2)
  rw [h2] at hlt
  by_cases h : length<2
  · rw [if_pos h,if_pos (hlt.mp h)]
    rfl
  · have hn : ¬length.toNat<2 := fun hn => h (hlt.mpr hn)
    rw [if_neg h,if_neg hn,UInt16.toNat_sub_of_le _ _ (UInt16.not_lt.mp h),h2]

/-- Both checks sum up to the last byte of the block at most. -/
theorem cut_lt {length : UInt16} (h : length.toNat≤4096) {i : ℕ}
    (hi : i<((if length<2 then 2 else length)-2).toNat+2) : i<confBufSize := by
  rw [cut_toNat] at hi
  unfold confBufSize
  split at hi <;> omega

/-- A length is cut to the buffer. -/
theorem clamp_toNat (length : UInt16) : (if length>4096 then 4096 else length).toNat=
    if length.toNat>4096 then 4096 else length.toNat := by
  have h4096 : (4096 : UInt16).toNat=4096 := rfl
  have hlt := UInt16.lt_iff_toNat_lt (a:=4096) (b:=length)
  rw [h4096] at hlt
  by_cases h : length>4096
  · rw [if_pos h,if_pos (hlt.mp h)]
    rfl
  · rw [if_neg h,if_neg fun hn => h (hlt.mpr hn)]

section

variable (ptr : Mem UInt8)

/-- The test of the header stays inside conf_buf. -/
theorem checkConfigHeader_reads : Reads (·<confBufSize) (checkConfigHeader ptr) := by
  unfold checkConfigHeader
  rw [Traced.reads_bind]
  refine ⟨sameBytes_reads ptr (by decide),?_⟩
  rw [Traced.reads_ite,Traced.reads_bind,halfAt_reads,Traced.reads_pure]
  refine ⟨fun _ => ⟨by decide,checkSum_reads ptr (by decide) fun i hi => cut_lt ?_ hi⟩,
    fun _ => trivial⟩
  rw [clamp_toNat]
  split <;> omega

/-- It has the result that it should have. -/
theorem checkConfigHeader_value :
    (checkConfigHeader ptr).value=ConfigHeader.checkConfigHeader ptr := by
  have hmagic : (∀ c∈[(0,(0x0D : UInt8)),(1,0x0A),(2,0x0A),(3,0x0D)],ptr c.1=c.2) ↔
      ConfigHeader.magic ptr := by
    unfold ConfigHeader.magic
    simp only [List.forall_mem_cons,List.not_mem_nil,false_imp_iff,implies_true,and_true]
  unfold checkConfigHeader ConfigHeader.checkConfigHeader
  rw [Traced.bind_value,sameBytes_value]
  by_cases h : ConfigHeader.magic ptr
  · rw [if_pos (decide_eq_true (hmagic.mpr h)),if_pos h,Traced.bind_value]
    dsimp only
    rw [cut_toNat,clamp_toNat,checkSum_value]
    rfl
  · rw [if_neg (by rw [decide_eq_true_iff]; exact mt hmagic.mp h),if_neg h]
    rfl

/-- The test of an item stays inside conf_buf. -/
theorem checkItemConfig_reads (id : UInt16) :
    Reads (·<confBufSize) (checkItemConfig ptr id) := by
  have h4096 : (4096 : UInt16).toNat=4096 := rfl
  unfold checkItemConfig
  rw [Traced.reads_bind,halfAt_reads,Traced.reads_ite,Traced.reads_bind,halfAt_reads,
    Traced.reads_ite,Traced.reads_pure,Traced.reads_pure]
  refine ⟨by decide,fun _ => ⟨by decide,fun _ => trivial,fun hle => ?_⟩,fun _ => trivial⟩
  refine checkSum_reads ptr (by decide) fun i hi => cut_lt ?_ hi
  rw [←h4096]
  exact UInt16.le_iff_toNat_le.mp (UInt16.not_lt.mp hle)

/-- It has the result that it should have. -/
theorem checkItemConfig_value (id : UInt16) :
    (checkItemConfig ptr id).value=Config.checkItemConfig ptr id := by
  have h4096 : (4096 : UInt16).toNat=4096 := rfl
  unfold checkItemConfig Config.checkItemConfig
  rw [Traced.bind_value]
  rw [halfAt_value]
  dsimp only
  by_cases hid : join16 (ptr 0) (ptr 1)=id
  · rw [if_pos hid,if_pos hid,Traced.bind_value,halfAt_value]
    have hlt := UInt16.lt_iff_toNat_lt (a:=4096) (b:=join16 (ptr 2) (ptr 3))
    rw [h4096] at hlt
    by_cases hbig : join16 (ptr 2) (ptr 3)>4096
    · rw [if_pos hbig,if_pos (hlt.mp hbig)]
      rfl
    · rw [if_neg hbig,if_neg fun hn => hbig (hlt.mpr hn)]
      rw [checkSum_value,cut_toNat]
  · rw [if_neg hid,if_neg hid]
    rfl

end

/-! ## The two getters -/

section

variable {field : ℕ} (id : UInt16) (header : Mem UInt8)

/-- A round that finds the identifier or the end of the block. -/
theorem getConfigById_cases (pos : UInt16) : getConfigById field id header pos=
    if pos.toNat<4096 then do
      let curId ← halfAt header pos.toNat
      if curId=id then wordAt header (pos.toNat+field)
      else getConfigById field id header (pos+10)
    else return 0 := by
  have hlt : pos<4096 ↔ pos.toNat<4096 := UInt16.lt_iff_toNat_lt
  rw [getConfigById]
  by_cases hpos : pos<4096
  · rw [dif_pos hpos,if_pos (hlt.mp hpos)]
  · rw [dif_neg hpos,if_neg (mt hlt.mpr hpos)]

/-- The search ends at the end of the buffer. -/
theorem getConfigById_end {pos : UInt16} (hend : 4096 ≤ pos.toNat) :
    getConfigById field id header pos=(return 0) := by
  rw [getConfigById_cases,if_neg (Nat.not_lt.mpr hend)]

/-- The 16-bit position takes the loop through the rounds of the search. -/
theorem getConfigById_value (fuel : ℕ) {pos : UInt16} (hfuel : 4096 ≤ pos.toNat+10*fuel) :
    (getConfigById field id header pos).value=search field id header fuel pos.toNat := by
  induction fuel generalizing pos with
  | zero =>
    rw [getConfigById_end id header (by omega)]
    rfl
  | succ fuel ih =>
    rw [getConfigById_cases,search]
    by_cases hpos : pos.toNat<4096
    · have hstep := step_toNat (UInt16.lt_iff_toNat_lt.mpr hpos)
      rw [if_pos hpos,if_pos hpos,Traced.bind_value,halfAt_value]
      by_cases hid : join16 (header pos.toNat) (header (pos.toNat+1))=id
      · rw [if_pos hid,if_pos hid,wordAt_value]
      · rw [if_neg hid,if_neg hid,←hstep]
        exact ih (by omega)
    · rw [if_neg hpos,if_neg hpos]
      rfl

/-- The last entry ends with the block, so no round reads behind it. -/
theorem getConfigById_reads (hfield : field ≤ 6) (fuel : ℕ) {pos : UInt16}
    (hfuel : 4096 ≤ pos.toNat+10*fuel) (hentry : pos.toNat%10=6) :
    Reads (·<confBufSize) (getConfigById field id header pos) := by
  induction fuel generalizing pos with
  | zero =>
    rw [getConfigById_end id header (by omega)]
    exact (Traced.reads_pure _ _).mpr trivial
  | succ fuel ih =>
    rw [getConfigById_cases]
    by_cases hpos : pos.toNat<4096
    · have hstep := step_toNat (UInt16.lt_iff_toNat_lt.mpr hpos)
      rw [if_pos hpos,Traced.reads_bind,halfAt_reads,Traced.reads_ite,wordAt_reads]
      unfold confBufSize at ih ⊢
      refine ⟨by omega,fun _ => by omega,fun _ => ih (by omega) (by omega)⟩
    · rw [if_neg hpos]
      exact (Traced.reads_pure _ _).mpr trivial

end

/-- What the parsers of a block touch and return. -/
structure ParsesBlock (block : Mem UInt8) (id : UInt16) : Prop where
  /-- check_config_header stays in the block. -/
  header : Reads (·<confBufSize) (checkConfigHeader block)
  /-- check_item_config stays in the block. -/
  item : Reads (·<confBufSize) (checkItemConfig block id)
  /-- get_config_param_by_id stays in the block. -/
  param : Reads (·<confBufSize) (getConfigParamById id block)
  /-- get_config_offset_by_id stays in the block. -/
  offset : Reads (·<confBufSize) (getConfigOffsetById id block)
  /-- The result of check_config_header. -/
  headerResult : (checkConfigHeader block).value=ConfigHeader.checkConfigHeader block
  /-- The result of check_item_config. -/
  itemResult : (checkItemConfig block id).value=Config.checkItemConfig block id
  /-- Both getters return words of the first entry with the identifier. -/
  found : ∀ k,FirstEntry id block k →
    (getConfigParamById id block).value=word block (entryPos k+2) ∧
      (getConfigOffsetById id block).value=word block (entryPos k+6)
  /-- Without an entry both return 0. -/
  missing : (∀ k<entryCnt,¬EntryOf id block k) →
    (getConfigParamById id block).value=0 ∧ (getConfigOffsetById id block).value=0

/-- For every block and every identifier the parsers end, touch bytes of the
block only, and both getters read the same entry, the first one that has the
identifier. -/
theorem parsesBlock (block : Mem UInt8) (id : UInt16) : ParsesBlock block id := by
  have hstart : 4096 ≤ (6 : UInt16).toNat+10*410 := by decide
  have hentry : (6 : UInt16).toNat%10=6 := by decide
  have hvalue (field : ℕ) :
      (getConfigById field id block 6).value=search field id block 410 6 :=
    getConfigById_value id block 410 hstart
  exact {
    header := checkConfigHeader_reads block
    item := checkItemConfig_reads block id
    param := getConfigById_reads id block (by omega) 410 hstart hentry
    offset := getConfigById_reads id block (by omega) 410 hstart hentry
    headerResult := checkConfigHeader_value block
    itemResult := checkItemConfig_value block id
    found := fun k hk => ⟨(hvalue 2).trans (ConfigHeader.search_of_first hk 2),
      (hvalue 6).trans (ConfigHeader.search_of_first hk 6)⟩
    missing := fun hnone => by
      have hfirst : ¬∃ k,FirstEntry id block k := fun ⟨k,hk⟩ => hnone k hk.lt hk.entry
      exact ⟨(hvalue 2).trans (ConfigHeader.search_of_none hfirst 2),
        (hvalue 6).trans (ConfigHeader.search_of_none hfirst 6)⟩ }

end BT816Display.ConfigBounds
