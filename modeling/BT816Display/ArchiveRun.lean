import Mathlib.Data.List.Induction
import BT816Display.ArchiveFlash

/-!
# Runs of the archive

A history is a sequence of adds and reboots. Each operation finds its own
clock reading and stack contents. Adding a record starts a new data page
exactly when the last slot of the buffer has been written.
-/

namespace BT816Display.ArchiveRun

open ByteMemory NorFlash Crc Clock RingWindow Zd25Flash MessageArchive ArchiveSlots
open ArchiveRam ArchiveFlash

/-- One operation of a history. -/
inductive Op where
  /-- add_record_to_archive. -/
  | add (record : MessageRecord)
  /-- A reboot with init_archive. -/
  | reboot

/-- Execute one operation. -/
def step (s : Archive) (o : Env×Op) : Archive :=
  match o.2 with
  | .add record => addRecordToArchive o.1 record s
  | .reboot => reboot o.1 s

/-- Execute a sequence of operations, first one first. -/
def run (s : Archive) (ops : List (Env×Op)) : Archive := ops.foldl step s

/-- A run without operations. -/
@[simp] theorem run_nil (s : Archive) : run s []=s := rfl

/-- A run is one run after another. -/
@[simp] theorem run_append (s : Archive) (ops ops' : List (Env×Op)) :
    run s (ops++ops')=run (run s ops) ops' := List.foldl_append ..

/-- The last operation of a run comes last. -/
theorem run_concat (s : Archive) (ops : List (Env×Op)) (o : Env×Op) :
    run s (ops++[o])=step (run s ops) o := by
  rw [run_append]
  rfl

/-- The first init_archive on an erased chip. -/
def start (env : Env) : Archive := reboot env factoryArchive

/-- The records added in a run, oldest first. -/
def added (ops : List (Env×Op)) : List StoredRecord :=
  ops.filterMap fun o => match o.2 with
    | .add record => some (stored record)
    | .reboot => none

/-- The records of two runs. -/
@[simp] theorem added_append (ops ops' : List (Env×Op)) : added (ops++ops')=added ops++added ops' :=
  List.filterMap_append ..

/-- What adds of certain records and all reboots keep, a run of these keeps. -/
theorem run_keeps {I : Archive → Prop} {A : StoredRecord → Prop}
    (hadd : ∀ s env record,A (stored record) → I s → I (addRecordToArchive env record s))
    (hreboot : ∀ s env,I s → I (reboot env s)) {s : Archive} (hs : I s) (ops : List (Env×Op))
    (hA : ∀ r∈added ops,A r) : I (run s ops) := by
  induction ops using List.reverseRecOn with
  | nil => exact hs
  | append_singleton ops o ih =>
    rw [added_append] at hA
    have hs' := ih fun r hr => hA r (List.mem_append_left _ hr)
    obtain ⟨env,op⟩ := o
    rw [run_concat]
    cases op with
    | add record =>
      exact hadd _ env record (hA _ (List.mem_append_right _ (List.mem_singleton_self _))) hs'
    | reboot => exact hreboot _ env hs'

/-- The page pointer written last in a list of calls. -/
def lastPointer (calls : List Call) : Option (ℕ×UInt32) :=
  calls.reverse.findSome? fun c => match c with
    | .newPagePtr pageNum time => some (pageNum,time)
    | .clearArchive => none

/-- The pointer written last is the one that counts. -/
@[simp] theorem lastPointer_newPagePtr (calls : List Call) (pageNum : ℕ) (time : UInt32) :
    lastPointer (calls++[.newPagePtr pageNum time])=some (pageNum,time) := by
  simp only [lastPointer,List.reverse_append,List.reverse_cons,List.reverse_nil,List.nil_append,
    List.cons_append,List.findSome?_cons]

/-- The buffer is full up to its last slot, so the next record starts a page. -/
def Wraps (s : Archive) : Prop := s.lastRecPtr=some 4080

/-- Whether the buffer is full can be decided. -/
instance (s : Archive) : Decidable (Wraps s) := inferInstanceAs (Decidable (_=_))

/-- Number of slots filled in the current page. -/
def filled (s : Archive) : ℕ := s.lastRecPtr.elim 0 (·/16+1)

/-- A page has 256 slots. -/
theorem filled_le {s : Archive} (ha : Aligned s) : filled s≤256 := by
  unfold filled
  cases hp : s.lastRecPtr with
  | none => exact Nat.zero_le _
  | some p =>
    have h := ha p hp
    simp only [Option.elim_some]
    omega

/-- No slot is filled before the first record. -/
theorem filled_eq_zero {s : Archive} : filled s=0 ↔ s.lastRecPtr=none := by
  unfold filled
  cases s.lastRecPtr <;> simp

/-- The buffer is full when all slots are filled. -/
theorem wraps_iff_filled {s : Archive} (ha : Aligned s) : Wraps s ↔ filled s=256 := by
  unfold Wraps filled
  cases hp : s.lastRecPtr with
  | none => simp
  | some p =>
    have h := ha p hp
    rw [Option.elim_some,Option.some.injEq]
    omega

/-- Behind a record all slots are in view. -/
theorem inView_of_filled {s : Archive} (hf : 0<filled s) : inView s=256 := by
  cases hp : s.lastRecPtr with
  | none => rw [filled_eq_zero.mpr hp] at hf; omega
  | some p => exact inView_of_some hp

/-- The last slot is the last one that is filled. -/
theorem lastSlot_of_filled {s : Archive} (hf : 0<filled s) : lastSlot s=filled s-1 := by
  unfold filled at hf
  unfold lastSlot filled
  cases hp : s.lastRecPtr with
  | none => rw [hp,Option.elim_none] at hf; omega
  | some p => simp only [Option.elim_some]; omega

/-- Without a page start the next slot is the first free one of the page. -/
theorem next_lastSlot {s : Archive} (ha : Aligned s) (hw : ¬Wraps s) :
    next 256 (lastSlot s)=filled s := by
  have hle := filled_le ha
  have hne : filled s≠256 := fun h => hw ((wraps_iff_filled ha).mpr h)
  by_cases h0 : filled s=0
  · rw [h0,lastSlot,filled_eq_zero.mp h0]
    rfl
  · rw [lastSlot_of_filled (by omega)]
    unfold next
    split <;> omega

/-- A page start sends the record to slot 0. -/
theorem next_lastSlot_wraps {s : Archive} (hw : Wraps s) : next 256 (lastSlot s)=0 := by
  have hp : s.lastRecPtr=some 4080 := hw
  rw [lastSlot,hp]
  rfl

/-- An add fills one slot more, or the first one of the next page. -/
theorem filled_addRecordToArchive {env : Env} {record : MessageRecord} {s : Archive}
    (ha : Aligned s) :
    filled (addRecordToArchive env record s)=if Wraps s then 1 else filled s+1 := by
  have hf : filled (addRecordToArchive env record s)=next 256 (lastSlot s)+1 := by
    rw [filled,addRecordToArchive_lastRecPtr,nextSlot_fst env ha,Option.elim_some]
    omega
  rw [hf]
  split
  · rename_i hw
    rw [next_lastSlot_wraps hw]
  · rename_i hw
    rw [next_lastSlot ha hw]

/-- The archive just after a new data page has been started. -/
def startPage (env : Env) (s : Archive) : Archive :=
  createNewPagePtr env (next 128 s.archivePageNum) {s with archivePageNum := next 128 s.archivePageNum}

/-- A full buffer starts a page. -/
theorem nextSlot_wraps {env : Env} {s : Archive} (hw : Wraps s) :
    nextSlot env s=(0,startPage env s) := by
  have hn : next 128 s.archivePageNum=
      if s.archivePageNum+1≥128 then 0 else s.archivePageNum+1 := by
    unfold next
    split <;> split <;> omega
  have hp : s.lastRecPtr=some 4080 := hw
  simp only [nextSlot,startPage,hn,hp,archiveRecordLength,archivePageSize,zd25ArchivePageCnt]
  rfl

/-- Otherwise the next slot is taken. -/
theorem nextSlot_not_wraps {env : Env} {s : Archive} (ha : Aligned s) (hw : ¬Wraps s) :
    nextSlot env s=(16*next 256 (lastSlot s),s) := by
  refine Prod.ext (nextSlot_fst env ha) ?_
  unfold nextSlot
  cases hp : s.lastRecPtr with
  | none => rfl
  | some p =>
    have h := ha p hp
    have hne : p≠4080 := fun he => hw (by rw [Wraps,hp,he])
    dsimp only [archiveRecordLength,archivePageSize]
    rw [if_neg (by omega)]

/-- The variables after adding a record, but for the buffer and the chip. -/
theorem addRecordToArchive_vars (env : Env) (record : MessageRecord) (s : Archive) :
    (addRecordToArchive env record s).archivePageNum=(nextSlot env s).2.archivePageNum ∧
    (addRecordToArchive env record s).offsetInPagePtrPage=
      (nextSlot env s).2.offsetInPagePtrPage ∧
    (addRecordToArchive env record s).calls=(nextSlot env s).2.calls := ⟨rfl,rfl,rfl⟩

/-- The chip after adding a record: the record is written to the slot of the
current page that it has in RAM. -/
theorem addRecordToArchive_zd25 {env : Env} {record : MessageRecord} {s : Archive}
    (ha : Aligned s) :
    (addRecordToArchive env record s).zd25=
      zd25FlashWrite (pageAddr (nextSlot env s).2.archivePageNum+16*next 256 (lastSlot s))
        (encode (stored record)) 8 (nextSlot env s).2.zd25 := by
  have hb := addRecordToArchive_archBuf env record s
  have hl := load_store_self s.archBuf (nextSlot env s).1 (encode (stored record))
  rw [←hb,encode_length] at hl
  rw [←nextSlot_fst env ha,←hl]
  rfl

/-- Adding a record leaves the pointer log as the page start left it. -/
theorem ptrSlot_addRecordToArchive (env : Env) (record : MessageRecord) {s : Archive}
    (ha : Aligned s) {i : ℕ} (hi : i<512) :
    ptrSlot (addRecordToArchive env record s).zd25.mem i=
      ptrSlot (nextSlot env s).2.zd25.mem i := by
  rw [addRecordToArchive_zd25 ha]
  exact ptrSlot_write _ (next_lt (lastSlot_lt ha)) (encode_length _) hi

/-- clear_archive as the restart of the log followed by 30 erased pages. -/
theorem clearArchive_eq (env : Env) (s : Archive) :
    ∃ s₁ : Archive,s₁.zd25=s.zd25 ∧ s₁.offsetInPagePtrPage=0 ∧ s₁.archivePageNum=0 ∧
      s₁.calls=s.calls++[.clearArchive] ∧
      clearArchive env s=(List.range 30).foldl (fun s i => clearArchivePage i s)
        (createNewPagePtr env 0 s₁) :=
  ⟨{s with
      lastRecPtr := none
      archBuf := fun x => if x<archivePageSize then 0 else s.archBuf x
      archivePageNum := 0
      offsetInPagePtrPage := 0
      calls := s.calls++[.clearArchive]},rfl,rfl,rfl,rfl,rfl⟩

/-- Clearing pages moves no pointer. -/
theorem clearArchivePage_fold_vars (l : List ℕ) (s : Archive) :
    (l.foldl (fun s i => clearArchivePage i s) s).archivePageNum=s.archivePageNum ∧
    (l.foldl (fun s i => clearArchivePage i s) s).offsetInPagePtrPage=s.offsetInPagePtrPage ∧
    (l.foldl (fun s i => clearArchivePage i s) s).calls=s.calls := by
  induction l generalizing s with
  | nil => exact ⟨rfl,rfl,rfl⟩
  | cons i l ih => exact ih (clearArchivePage i s)

/-- The variables after clear_archive. -/
theorem clearArchive_vars (env : Env) (s : Archive) :
    (clearArchive env s).archivePageNum=0 ∧ (clearArchive env s).offsetInPagePtrPage=8 ∧
    (clearArchive env s).calls=
      s.calls++[.clearArchive]++[.newPagePtr 0 (timeToUint32 env.rtc)] := by
  obtain ⟨s₁,_,ho,hp,hc,he⟩ := clearArchive_eq env s
  obtain ⟨h0,h1,h2⟩ := clearArchivePage_fold_vars (List.range 30) (createNewPagePtr env 0 s₁)
  rw [he,h0,h1,h2]
  refine ⟨hp,?_,?_⟩
  · rw [offset_createNewPagePtr env (by rw [LogAligned,ho])]
    simp only [logIndex,ho]
    rfl
  · rw [←hc]
    rfl

/-- The pointer log after clear_archive: a pointer to page 0 in its first
slot, and the other slots erased unless that slot was erased before. -/
theorem ptrSlot_clearArchive (env : Env) (s : Archive) {i : ℕ} (hi : i<512) :
    ptrSlot (clearArchive env s).zd25.mem i=
      if i=0 then encodePtr ⟨timeToUint32 env.rtc,0,by omega⟩
      else if ptrSlot s.zd25.mem 0=blank 8 then ptrSlot s.zd25.mem i else blank 8 := by
  obtain ⟨s₁,hz,ho,_,_,he⟩ := clearArchive_eq env s
  have hk : logIndex s₁=0 := by simp only [logIndex,ho]; rfl
  have hp := ptrSlot_createNewPagePtr (s:=s₁) env ⟨timeToUint32 env.rtc,0,by omega⟩
    (by rw [LogAligned,ho]) rfl hi
  rw [hk,hz] at hp
  rw [he,(clearArchivePage_fold_flash (List.range 30) _).1 i hi]
  exact hp

/-- The data pages after clear_archive: the first 30 are erased. -/
theorem dataSlot_clearArchive (env : Env) (s : Archive) (q : ℕ) {i : ℕ} (hi : i<256) :
    dataSlot (clearArchive env s).zd25.mem q i=
      if q<30 then blankSlot else dataSlot s.zd25.mem q i := by
  obtain ⟨s₁,hz,ho,_,_,he⟩ := clearArchive_eq env s
  have hp := dataSlot_createNewPagePtr (s:=s₁) env ⟨timeToUint32 env.rtc,0,by omega⟩
    (by rw [LogAligned,ho]) rfl q i
  rw [hz] at hp
  rw [he,(clearArchivePage_fold_flash (List.range 30) _).2 q i hi]
  simp only [List.mem_range]
  split
  · rfl
  · exact hp

/-- init_archive without a pointer in the log clears the archive. -/
theorem reboot_of_not_found {env : Env} {s : Archive}
    (h : (searchLastRecord (powerUp s)).1.foundFlag=false) :
    reboot env s=clearArchive env (searchLastRecord (powerUp s)).2 := by
  unfold reboot initArchive openArchive
  exact if_neg (by rw [h]; exact Bool.false_ne_true)

/-- init_archive with a pointer in the log reopens its page. -/
theorem reboot_of_found {env : Env} {s : Archive}
    (h : (searchLastRecord (powerUp s)).1.foundFlag=true) :
    reboot env s=reopenPage env (searchLastRecord (powerUp s)).1.pageNum
      (searchLastRecord (powerUp s)).2 := by
  unfold reboot initArchive openArchive
  exact if_pos h

/-- Looking for the newest pointer changes only the buffer and the offset. -/
theorem searchLastRecord_vars (s : Archive) :
    (searchLastRecord s).2.zd25=s.zd25 ∧ (searchLastRecord s).2.calls=s.calls ∧
    (searchLastRecord s).2.offsetInPagePtrPage=(searchLastRecord s).1.offsetInPagePtrPage := by
  simp only [searchLastRecord,and_self]

/-- Reopening a page makes no change to the chip and no call. -/
theorem reopenPage_vars (env : Env) (pageNum : ℕ) (s : Archive) :
    (reopenPage env pageNum s).archivePageNum=pageNum ∧
    (reopenPage env pageNum s).offsetInPagePtrPage=s.offsetInPagePtrPage ∧
    (reopenPage env pageNum s).calls=s.calls ∧ (reopenPage env pageNum s).zd25=s.zd25 :=
  ⟨rfl,rfl,rfl,rfl⟩

/-- The counting loop of open_archive stops at the first slot that
check_record rejects. -/
theorem countLoop_spec (stack archBuf : Mem UInt8) : ∀ fuel i,i+fuel=256 →
    i ≤ countLoop stack archBuf fuel i (16*i) ∧ countLoop stack archBuf fuel i (16*i)≤256 ∧
    (∀ k,i≤k → k<countLoop stack archBuf fuel i (16*i) → checkRecord stack archBuf (16*k)=true) ∧
    (countLoop stack archBuf fuel i (16*i)<256 →
      checkRecord stack archBuf (16*countLoop stack archBuf fuel i (16*i))=false) := by
  intro fuel
  induction fuel with
  | zero =>
    intro i hi
    rw [countLoop]
    exact ⟨le_rfl,by omega,fun k h0 h1 => by omega,fun h => by omega⟩
  | succ fuel ih =>
    intro i hi
    rw [countLoop]
    dsimp only [maxArchiveRecordsCnt,archivePageSize,archiveRecordLength,Nat.reduceDiv]
    by_cases hv : checkRecord stack archBuf (16*i)=true
    · rw [if_pos hv]
      by_cases hfull : i+1≥256
      · rw [if_pos hfull]
        refine ⟨by omega,by omega,fun k h0 h1 => ?_,fun h => by omega⟩
        rwa [show k=i by omega]
      · obtain ⟨h0,h1,h2,h3⟩ := ih (i+1) (by omega)
        rw [if_neg hfull,if_neg (by omega),show 16*i+16=16*(i+1) by omega]
        refine ⟨by omega,h1,fun k hk hlt => ?_,h3⟩
        rcases Nat.eq_or_lt_of_le hk with he|hgt
        · rwa [←he]
        · exact h2 k hgt hlt
    · rw [if_neg hv]
      exact ⟨le_rfl,by omega,fun k h0 h1 => by omega,fun _ => by rwa [Bool.not_eq_true] at hv⟩

/-- Behind clear_archive the last slot pointer is well formed. -/
theorem aligned_clearArchive (env : Env) (s : Archive) : Aligned (clearArchive env s) := by
  intro p hp
  rw [clearArchive_lastRecPtr] at hp
  cases hp

/-- So it is behind the reopening of a page. -/
theorem aligned_reopenPage (env : Env) (pageNum : ℕ) (s : Archive) :
    Aligned (reopenPage env pageNum s) := by
  intro p hp
  simp only [reopenPage] at hp
  split at hp
  · cases hp
  · rename_i hc
    have hle := (countLoop_spec env.stack
      (store s.archBuf 0 (zd25FlashRead s.zd25 (pageAddr pageNum) (archivePageSize/2))) 256 0
      (Nat.zero_add _)).2.1
    have hq := Option.some.inj hp
    dsimp only [maxArchiveRecordsCnt,archivePageSize,archiveRecordLength,Nat.reduceDiv] at hq hc hle
    rw [Nat.mul_zero] at hle
    omega

/-- After a reboot the last slot pointer is well formed. -/
theorem aligned_reboot (env : Env) (s : Archive) : Aligned (reboot env s) := by
  cases hf : (searchLastRecord (powerUp s)).1.foundFlag with
  | false =>
    rw [reboot_of_not_found hf]
    exact aligned_clearArchive env _
  | true =>
    rw [reboot_of_found hf]
    exact aligned_reopenPage env _ _

end BT816Display.ArchiveRun
