import BT816Display.MessageArchive

/-!
# How many bytes check_record sums

check_record copies a slot to sixteen bytes of its stack and hands GetCRC16 as
many of them as the length byte of the slot asks for. Its three callers run
it over slots that no record was ever written to.
-/

namespace BT816Display.RecordCrc

open ByteMemory MessageArchive NorFlash

/-- The length byte of a slot. -/
def lengthByte (slot : List UInt8) : ℕ := (slot.getD 7 0).toNat

/-- The cnt of the call of GetCRC16 in check_record. -/
def crcCnt (slot : List UInt8) : ℕ := archiveRecordSysDataLength+lengthByte slot

/-- Payload bytes that a slot has room for. -/
abbrev maxPayload : ℕ := archiveRecordLength-archiveRecordSysDataLength

/-- The slot at an offset of a memory. -/
abbrev slotAt (m : Mem UInt8) (ptr : ℕ) : List UInt8 := load m ptr archiveRecordLength

/-- The bytes that check_record sums are so many, local copy and stack together. -/
theorem checkSlot_eq (stack : Mem UInt8) {slot : List UInt8} (h : slot.length=archiveRecordLength) :
    ∃ summed : List UInt8,summed.length=crcCnt slot ∧
      checkSlot stack slot=Crc.crcMatches summed (slot.getD 8 0) (slot.getD 9 0) := by
  refine ⟨_,?_,rfl⟩
  have hbyte := (slot.getD 7 0).toNat_lt
  have hpatch : (patch slot 8 [0,0]).length=slot.length := patch_length (by rw [h]; decide)
  rw [List.length_take,List.length_append,hpatch,h,load_length]
  unfold crcCnt lengthByte archiveRecordLength archiveRecordSysDataLength
  omega

/-- A checksum stays inside the local copy exactly when the length byte counts
no more payload than a slot has. -/
theorem crcCnt_le_iff (slot : List UInt8) :
    crcCnt slot≤archiveRecordLength ↔ lengthByte slot ≤ maxPayload := by
  unfold crcCnt maxPayload archiveRecordLength archiveRecordSysDataLength
  omega

/-! ## Walks that go on as long as a test succeeds -/

section Trail

variable {α : Type*} (p : α → Bool) (next : α → α)

/-- The places of a walk of at most so many steps: each place is tested, and
the walk goes on behind those that pass. -/
def trail : ℕ → α → List α
  | 0,_ => []
  | n+1,x => x::if p x=true then trail n (next x) else []

/-- A place is tested when everything before it has passed. -/
theorem mem_trail_iff {n : ℕ} {x y : α} :
    y∈trail p next n x ↔ ∃ k<n,(∀ j<k,p (next^[j] x)=true) ∧ y=next^[k] x := by
  induction n generalizing x with
  | zero => exact iff_of_false List.not_mem_nil fun ⟨_,hk,_⟩ => absurd hk (Nat.not_lt_zero _)
  | succ n ih =>
    rw [trail,List.mem_cons]
    constructor
    · rintro (rfl|hy)
      · exact ⟨0,Nat.succ_pos n,nofun,rfl⟩
      · by_cases hp : p x=true
        · rw [if_pos hp] at hy
          obtain ⟨k,hk,hpass,rfl⟩ := ih.mp hy
          refine ⟨k+1,Nat.succ_lt_succ hk,fun j hj => ?_,rfl⟩
          cases j with
          | zero => exact hp
          | succ j => exact hpass j (Nat.lt_of_succ_lt_succ hj)
        · rw [if_neg hp] at hy
          exact absurd hy List.not_mem_nil
    · rintro ⟨k,hk,hpass,rfl⟩
      cases k with
      | zero => exact Or.inl rfl
      | succ k =>
        refine Or.inr ?_
        rw [if_pos (show p x=true from hpass 0 (Nat.succ_pos k))]
        exact ih.mpr ⟨k,Nat.lt_of_succ_lt_succ hk,
          fun j hj => hpass (j+1) (Nat.succ_lt_succ hj),rfl⟩

/-- What holds of the places that are tested. -/
theorem forall_trail_iff {Q : α → Prop} {n : ℕ} {x : α} :
    (∀ y∈trail p next n x,Q y) ↔
      ∀ k<n,(∀ j<k,p (next^[j] x)=true) → Q (next^[k] x) := by
  simp only [mem_trail_iff]
  constructor
  · exact fun h k hk hpass => h _ ⟨k,hk,hpass,rfl⟩
  · rintro h _ ⟨k,hk,hpass,rfl⟩
    exact h k hk hpass

end Trail

/-! ## The slots that are checked -/

/-- The offsets at which the loop of open_archive calls check_record. -/
def countVisits (stack archBuf : Mem UInt8) : ℕ → (recCnt ptr : ℕ) → List ℕ
  | 0,_,_ => []
  | fuel+1,recCnt,ptr =>
    ptr::
    if checkRecord stack archBuf ptr=true then
      let recCnt := recCnt+1
      if recCnt≥maxArchiveRecordsCnt then []
      else
        let ptr := ptr+archiveRecordLength
        if ptr>archivePageSize-archiveRecordLength then []
        else countVisits stack archBuf fuel recCnt ptr
    else []

/-- The offsets at which the loop of get_archive_records_cnt calls check_record. -/
def recordsVisits (stack archBuf : Mem UInt8) : ℕ → (res ptr : ℕ) → List ℕ
  | 0,_,_ => []
  | fuel+1,res,ptr =>
    ptr::
    if checkRecord stack archBuf ptr=true then
      let res := res+1
      if res≥maxArchiveRecordsCnt then []
      else recordsVisits stack archBuf fuel res (prevSlot ptr)
    else []

/-- The loop of open_archive tests slot after slot. -/
theorem countVisits_eq_trail (stack archBuf : Mem UInt8) : ∀ fuel i,i+fuel=256 →
    countVisits stack archBuf fuel i (16*i)=
      trail (checkRecord stack archBuf) (·+16) fuel (16*i) := by
  intro fuel
  induction fuel with
  | zero => exact fun _ _ => rfl
  | succ fuel ih =>
    intro i hi
    rw [countVisits,trail]
    dsimp only [maxArchiveRecordsCnt,archivePageSize,archiveRecordLength,Nat.reduceDiv]
    by_cases hfull : i+1≥256
    · have hfuel : fuel=0 := by omega
      rw [if_pos hfull,hfuel]
      rfl
    · have hptr : ¬16*i+16>4096-16 := by omega
      have hnext := ih (i+1) (by omega)
      rw [Nat.mul_succ] at hnext
      rw [if_neg hfull,if_neg hptr,hnext]

/-- The loop of get_archive_records_cnt tests slot after slot backwards. -/
theorem recordsVisits_eq_trail (stack archBuf : Mem UInt8) : ∀ fuel res ptr,res+fuel=256 →
    recordsVisits stack archBuf fuel res ptr=
      trail (checkRecord stack archBuf) prevSlot fuel ptr := by
  intro fuel
  induction fuel with
  | zero => exact fun _ _ _ => rfl
  | succ fuel ih =>
    intro res ptr hres
    rw [recordsVisits,trail]
    dsimp only [maxArchiveRecordsCnt,archivePageSize,archiveRecordLength,Nat.reduceDiv]
    by_cases hfull : res+1≥256
    · have hfuel : fuel=0 := by omega
      rw [if_pos hfull,hfuel]
      rfl
    · rw [if_neg hfull,ih (res+1) _ (by omega)]

/-- The loop of open_archive counts the checks that succeed. -/
theorem countLoop_eq_visits (stack archBuf : Mem UInt8) : ∀ fuel recCnt ptr,
    countLoop stack archBuf fuel recCnt ptr=
      recCnt+(countVisits stack archBuf fuel recCnt ptr).countP (checkRecord stack archBuf) := by
  intro fuel
  induction fuel with
  | zero => exact fun _ _ => rfl
  | succ fuel ih =>
    intro recCnt ptr
    rw [countLoop,countVisits]
    dsimp only
    by_cases hc : checkRecord stack archBuf ptr=true
    · rw [if_pos hc,if_pos hc,List.countP_cons_of_pos hc]
      split
      · rfl
      · split
        · rfl
        · rw [ih]
          omega
    · rw [if_neg hc,if_neg hc,List.countP_cons_of_neg hc]
      rfl

/-- The loop of get_archive_records_cnt counts the checks that succeed. -/
theorem recordsLoop_eq_visits (stack archBuf : Mem UInt8) : ∀ fuel res ptr,
    recordsLoop stack archBuf fuel res ptr=
      res+(recordsVisits stack archBuf fuel res ptr).countP (checkRecord stack archBuf) := by
  intro fuel
  induction fuel with
  | zero => exact fun _ _ => rfl
  | succ fuel ih =>
    intro res ptr
    rw [recordsLoop,recordsVisits]
    dsimp only
    by_cases hc : checkRecord stack archBuf ptr=true
    · rw [if_pos hc,if_pos hc,List.countP_cons_of_pos hc]
      split
      · rfl
      · rw [ih]
        omega
    · rw [if_neg hc,if_neg hc,List.countP_cons_of_neg hc]
      rfl

/-! ## The three callers -/

/-- A run of one of the callers of check_record. -/
inductive Use where
  /-- open_archive. -/
  | openArchive
  /-- get_archive_records_cnt. -/
  | recordsCnt
  /-- get_record_with_offset_from_last. -/
  | readRecord (offset : ℕ)

/-- The buffer over which open_archive runs its loop. -/
def pageBuf (pageNum : ℕ) (s : Archive) : Mem UInt8 :=
  store s.archBuf 0 (Zd25Flash.zd25FlashRead s.zd25 (pageAddr pageNum) (archivePageSize/2))

/-- The cnt of every call of GetCRC16 in check_record, in order. -/
def Use.crcCnts (stack : Mem UInt8) (s : Archive) : Use → List ℕ
  | .openArchive =>
    let found := searchLastRecord s
    if found.1.foundFlag=true then
      let archBuf := pageBuf found.1.pageNum found.2
      (countVisits stack archBuf maxArchiveRecordsCnt 0 0).map fun ptr =>
        crcCnt (slotAt archBuf ptr)
    else []
  | .recordsCnt =>
    match s.lastRecPtr with
    | none => []
    | some ptr =>
      (recordsVisits stack s.archBuf maxArchiveRecordsCnt 0 ptr).map fun ptr =>
        crcCnt (slotAt s.archBuf ptr)
  | .readRecord offset =>
    match s.lastRecPtr with
    | none => []
    | some ptr =>
      let slot := slotAt s.archBuf (stepBack offset ptr)
      if lengthByte slot>maxPayload then [] else [crcCnt slot]

/-- Slot `k` of a data page on the chip. -/
def pageSlot (s : Archive) (pageNum k : ℕ) : List UInt8 :=
  slotAt s.zd25.mem (pageAddr pageNum+16*k)

/-- No slot that is reached over valid ones has a length byte above six: from
the start of the reopened page on, or from the last record backwards. -/
def Use.Fits (stack : Mem UInt8) (s : Archive) : Use → Prop
  | .openArchive =>
    let found := (searchLastRecord s).1
    found.foundFlag=true → ∀ k<256,
      (∀ j<k,checkSlot stack (pageSlot s found.pageNum j)=true) →
      lengthByte (pageSlot s found.pageNum k) ≤ maxPayload
  | .recordsCnt =>
    ∀ ptr,s.lastRecPtr=some ptr → ∀ k<256,
      (∀ j<k,checkSlot stack (slotAt s.archBuf (stepBack j ptr))=true) →
      lengthByte (slotAt s.archBuf (stepBack k ptr)) ≤ maxPayload
  | .readRecord _ => True

/-- The loaded page holds the slots of the chip. -/
theorem slotAt_pageBuf {s : Archive} {pageNum k : ℕ} (hk : k<256) :
    slotAt (pageBuf pageNum (searchLastRecord s).2) (16*k)=pageSlot s pageNum k := by
  have hpart := @load_store_load _ (searchLastRecord s).2.archBuf s.zd25.mem (pageAddr pageNum) 0
    (16*k) 4096 16 (by omega)
  rw [Nat.zero_add] at hpart
  exact hpart

theorem iterate_add_sixteen (k : ℕ) : (·+16)^[k] 0=16*k := by
  induction k with
  | zero => rfl
  | succ k ih => rw [Function.iterate_succ_apply',ih,Nat.mul_succ]

theorem stepBack_eq_iterate (k ptr : ℕ) : stepBack k ptr=prevSlot^[k] ptr := by
  induction k generalizing ptr with
  | zero => rfl
  | succ k ih => exact ih (prevSlot ptr)

/-- The checksums of open_archive over a page in the buffer. -/
theorem countVisits_le_iff (stack archBuf : Mem UInt8) :
    (∀ cnt∈(countVisits stack archBuf maxArchiveRecordsCnt 0 0).map
      fun ptr => crcCnt (slotAt archBuf ptr),cnt≤archiveRecordLength) ↔
    ∀ k<256,(∀ j<k,checkRecord stack archBuf (16*j)=true) →
      lengthByte (slotAt archBuf (16*k)) ≤ maxPayload := by
  have hvisits : countVisits stack archBuf maxArchiveRecordsCnt 0 0=
      trail (checkRecord stack archBuf) (·+16) 256 0 :=
    countVisits_eq_trail stack archBuf 256 0 rfl
  rw [hvisits,List.forall_mem_map,forall_trail_iff]
  simp only [iterate_add_sixteen,crcCnt_le_iff]

/-- The checksums of get_archive_records_cnt from a record backwards. -/
theorem recordsVisits_le_iff (stack archBuf : Mem UInt8) (ptr : ℕ) :
    (∀ cnt∈(recordsVisits stack archBuf maxArchiveRecordsCnt 0 ptr).map
      fun ptr => crcCnt (slotAt archBuf ptr),cnt≤archiveRecordLength) ↔
    ∀ k<256,(∀ j<k,checkRecord stack archBuf (stepBack j ptr)=true) →
      lengthByte (slotAt archBuf (stepBack k ptr)) ≤ maxPayload := by
  have hvisits : recordsVisits stack archBuf maxArchiveRecordsCnt 0 ptr=
      trail (checkRecord stack archBuf) prevSlot 256 ptr :=
    recordsVisits_eq_trail stack archBuf 256 0 ptr rfl
  rw [hvisits,List.forall_mem_map,forall_trail_iff]
  simp only [←stepBack_eq_iterate,crcCnt_le_iff]

/-- Whatever the chip and the buffer hold: no checksum of a caller leaves the
local copy exactly when no slot it reaches over valid ones asks for it. -/
theorem crcCnts_le_iff (use : Use) (stack : Mem UInt8) (s : Archive) :
    (∀ cnt∈use.crcCnts stack s,cnt≤archiveRecordLength) ↔ use.Fits stack s := by
  cases use with
  | openArchive =>
    unfold Use.crcCnts Use.Fits
    dsimp only
    by_cases hfound : (searchLastRecord s).1.foundFlag=true
    · rw [if_pos hfound,countVisits_le_iff,forall_prop_of_true hfound]
      refine forall₂_congr fun k hk => ?_
      rw [slotAt_pageBuf hk]
      refine imp_congr_left (forall₂_congr fun j hj => ?_)
      rw [←slotAt_pageBuf (hj.trans hk)]
      rfl
    · rw [if_neg hfound]
      exact iff_of_true (List.forall_mem_nil _) fun h => absurd h hfound
  | recordsCnt =>
    unfold Use.crcCnts Use.Fits
    cases s.lastRecPtr with
    | none => exact iff_of_true (List.forall_mem_nil _) nofun
    | some ptr =>
      refine (recordsVisits_le_iff stack s.archBuf ptr).trans ⟨fun h _ he => ?_,fun h => h ptr rfl⟩
      cases he
      exact h
  | readRecord offset =>
    unfold Use.crcCnts
    refine iff_of_true ?_ trivial
    cases s.lastRecPtr with
    | none => exact List.forall_mem_nil _
    | some ptr =>
      dsimp only
      split
      next => exact List.forall_mem_nil _
      next hlen =>
        exact List.forall_mem_singleton.mpr ((crcCnt_le_iff _).mpr (Nat.le_of_not_gt hlen))

/-- Six o'clock on a day of 2023. -/
def bootEnv : Env := ⟨⟨23,8,24,6,0,0⟩,fun _ => 0⟩

/-- The second boot of a new panel: the pointer log names page 0, which is
still erased, and 265 bytes of its first slot are summed. -/
theorem secondBoot_summed :
    Use.openArchive.crcCnts bootEnv.stack (powerUp (reboot bootEnv factoryArchive))=[265] ∧
    ¬∀ cnt∈Use.openArchive.crcCnts bootEnv.stack (powerUp (reboot bootEnv factoryArchive)),
      cnt≤archiveRecordLength := by
  have hcnts : Use.openArchive.crcCnts bootEnv.stack
      (powerUp (reboot bootEnv factoryArchive))=[265] := by decide +kernel
  refine ⟨hcnts,fun h => ?_⟩
  rw [hcnts] at h
  exact absurd (h 265 List.mem_cons_self) (by decide)

end BT816Display.RecordCrc
