import BT816Display.ArchiveCrash

/-!
# What the operations leave on the chip

Data slots are followed that hold nothing or one of a given set of records. No
operation spoils them, whatever the clock shows and wherever the power is lost.
The pointer log keeps a used first slot, or its used slots follow each other.
-/

namespace BT816Display.ArchiveClean

open ByteMemory NorFlash Clock RingWindow Runs Zd25Flash MessageArchive ArchiveSlots ArchiveRam
open ArchiveFlash ArchiveRun ArchiveLog ArchiveReopen ArchiveLayout ArchiveReboot ArchiveCrash

variable {A : StoredRecord → Prop}

/-- A slot on the chip is erased or holds one of the records `A`. -/
def Clean (A : StoredRecord → Prop) (slot : List UInt8) : Prop :=
  slot=blankSlot ∨ ∃ r,A r ∧ slot=encode r

/-- All slots of a page are clean. -/
def CleanPage (A : StoredRecord → Prop) (m : Mem UInt8) (q : ℕ) : Prop :=
  ∀ i<256,Clean A (dataSlot m q i)

/-- All slots of a page behind the first are clean. -/
def CleanTail (A : StoredRecord → Prop) (m : Mem UInt8) (q : ℕ) : Prop :=
  ∀ i<256,0 < i → Clean A (dataSlot m q i)

/-- Every page is filled with records from its first slot on. -/
structure Packed (m : Mem UInt8) : Prop where
  /-- Every slot is erased or holds a record. -/
  slots : ∀ q<128,CleanPage (fun _ => True) m q
  /-- Behind an erased slot all slots are erased. -/
  blank : ∀ q<128,∀ i<256,dataSlot m q i=blankSlot → ∀ j<256,i≤j → dataSlot m q j=blankSlot

/-- A page pointer names a clean page behind a page whose tail is clean. -/
def CleanPtr (A : StoredRecord → Prop) (m : Mem UInt8) (e : PagePtr) : Prop :=
  CleanPage A m e.page ∧ CleanTail A m (prevPage e.page)

/-- An archive that holds only records `A` in its buffer, in the current page
and in the page before page 0. -/
structure CleanInv (A : StoredRecord → Prop) (s : Archive) : Prop where
  /-- The pages are filled from their first slots on. -/
  packed : Packed s.zd25.mem
  /-- Page 127, the one before page 0, is clean behind its first slot. -/
  home : CleanTail A s.zd25.mem 127
  /-- The last slot pointer is well formed. -/
  aligned : Aligned s
  /-- The offset into the pointer log is well formed. -/
  logAligned : LogAligned s
  /-- The current page exists. -/
  valid : s.archivePageNum<128
  /-- The current page counts as full or is erased behind its filled slots. -/
  current : filled s=256 ∨ ∀ i<256,dataSlot s.zd25.mem s.archivePageNum i=blankSlot ↔ filled s ≤ i
  /-- The current page is clean. -/
  page : CleanPage A s.zd25.mem s.archivePageNum
  /-- The buffer is clean; slot 0 does not count before the first record. -/
  ram : ∀ i<256,(filled s=0 → 0 < i) → ramSlot s i=zeroSlot ∨ Clean A (ramSlot s i)

/-- A change of the chip that spoils no clean slot. -/
def Keeps (A : StoredRecord → Prop) (m m' : Mem UInt8) : Prop :=
  ∀ q,∀ i<256,Clean A (dataSlot m q i) → Clean A (dataSlot m' q i)

/-- A clean page stays clean. -/
theorem CleanPage.keep {m m' : Mem UInt8} {q : ℕ} (h : CleanPage A m q) (hk : Keeps A m m') :
    CleanPage A m' q := fun i hi => hk q i hi (h i hi)

/-- So does a clean tail. -/
theorem CleanTail.keep {m m' : Mem UInt8} {q : ℕ} (h : CleanTail A m q) (hk : Keeps A m m') :
    CleanTail A m' q := fun i hi h0 => hk q i hi (h i hi h0)

/-- The tail of a clean page is clean. -/
theorem CleanPage.tail {m : Mem UInt8} {q : ℕ} (h : CleanPage A m q) : CleanTail A m q :=
  fun i hi _ => h i hi

/-- The page a pointer names and the tail before it stay clean. -/
theorem CleanPtr.keep {m m' : Mem UInt8} {e : PagePtr} (h : CleanPtr A m e) (hk : Keeps A m m') :
    CleanPtr A m' e := ⟨h.1.keep hk,h.2.keep hk⟩

/-- Two changes in a row that spoil nothing spoil nothing. -/
theorem Keeps.trans {m m' m'' : Mem UInt8} (h : Keeps A m m') (h' : Keeps A m' m'') :
    Keeps A m m'' := fun q i hi hc => h' q i hi (h q i hi hc)

/-- On a packed chip the pages are used from their first slots. -/
theorem Packed.pagesFromStart {m : Mem UInt8} (h : Packed m) : PagesFromStart m :=
  fun q hq h0 i hi => h.blank q hq 0 (by omega) h0 i hi (Nat.zero_le _)

/-- An erased slot makes the page clean from there on. -/
theorem Packed.clean_from {m : Mem UInt8} (h : Packed m) {q i : ℕ} (hq : q<128) (hi : i<256)
    (hb : dataSlot m q i=blankSlot) : ∀ j<256,i≤j → Clean A (dataSlot m q j) :=
  fun j hj hij => Or.inl (h.blank q hq i hi hb j hj hij)

section Log

/-- Clearing the archive writes the first pointer to log slot 0. -/
theorem writesPtr_clearArchive (env : Env) (s : Archive) :
    WritesPtr s.zd25.mem (clearArchive env s).zd25.mem 0 ⟨timeToUint32 env.rtc,0,Nat.succ_pos 127⟩ :=
  fun _ hi => ptrSlot_clearArchive env s hi

/-- Starting a page writes the next pointer to the next log slot. -/
theorem writesPtr_startPage (env : Env) {s : Archive} (hl : LogAligned s)
    (hp : s.archivePageNum<128) :
    WritesPtr s.zd25.mem (startPage env s).zd25.mem (logIndex s) (nextPtr env s hp) :=
  fun _ hi => ptrSlot_createNewPagePtr
    (s:={s with archivePageNum := next 128 s.archivePageNum}) env (nextPtr env s hp) hl rfl hi

/-- An add that starts a page writes the next pointer, whatever the record is. -/
theorem writesPtr_add (env : Env) (record : MessageRecord) {s : Archive} (hs : Starts s) :
    WritesPtr s.zd25.mem (addRecordToArchive env record s).zd25.mem (logIndex s)
      (nextPtr env s hs.valid) := by
  intro i hi
  rw [ptrSlot_addRecordToArchive env record hs.aligned hi,nextSlot_wraps hs.wraps]
  exact writesPtr_startPage env hs.log hs.valid i hi

/-- An add that wraps no page leaves the log as it is. -/
theorem ptrSlot_add_not_wraps (env : Env) (record : MessageRecord) {s : Archive} (ha : Aligned s)
    (hw : ¬Wraps s) {i : ℕ} (hi : i<512) :
    ptrSlot (addRecordToArchive env record s).zd25.mem i=ptrSlot s.zd25.mem i := by
  rw [ptrSlot_addRecordToArchive env record ha hi,nextSlot_not_wraps ha hw]

/-- What a reboot does when it finds the pointer `newest`. -/
structure Finds (env : Env) (s : Archive) (older : List PagePtr) (newest : PagePtr)
    (stale : List PagePtr) : Prop where
  /-- The log up to its first erased slot. -/
  log : LogPrefix s.zd25.mem (older++[newest]++stale)
  /-- The pointer is later than those before it. -/
  below : ∀ e∈older,e.time<newest.time
  /-- Those behind it are not later. -/
  passed : ∀ e∈stale,e.time≤newest.time
  /-- The chip stays. -/
  chip : (reboot env s).zd25=s.zd25
  /-- The page of the pointer becomes the current one. -/
  page : (reboot env s).archivePageNum=newest.page
  /-- The next pointer goes behind it. -/
  offset : (reboot env s).offsetInPagePtrPage=8*(older.length+1)
  /-- The buffer is filled from the page and the one before. -/
  reopened : Reopened env.stack s.zd25.mem newest.page (reboot env s)

/-- A reboot that finds a pointer reopens its page. -/
theorem reopens_of_search (env : Env) {s : Archive} {q o : ℕ} {t : UInt32}
    (h : (searchLastRecord (powerUp s)).1=⟨q,true,t,o⟩) :
    (reboot env s).zd25=s.zd25 ∧ (reboot env s).archivePageNum=q ∧
      (reboot env s).offsetInPagePtrPage=o ∧ Reopened env.stack s.zd25.mem q (reboot env s) := by
  obtain ⟨hz,_,ho⟩ := searchLastRecord_vars (powerUp s)
  have hr := ArchiveLayout.reopened env q (searchLastRecord (powerUp s)).2
  obtain ⟨hP,hO,_,hZ⟩ := reopenPage_vars env q (searchLastRecord (powerUp s)).2
  have heq : reboot env s=reopenPage env q (searchLastRecord (powerUp s)).2 := by
    rw [reboot_of_found (by rw [h]),h]
  rw [←heq] at hr hP hO hZ
  rw [hz] at hr hZ
  rw [ho,h] at hO
  exact ⟨hZ,hP,hO,hr⟩

/-- A reboot clears the archive or finds a pointer. -/
theorem reboot_cases (env : Env) {s : Archive} (hp : Pointers s.zd25.mem) :
    (∃ s₁ : Archive,s₁.zd25=s.zd25 ∧ reboot env s=clearArchive env s₁) ∨
      ∃ older newest stale,Finds env s older newest stale := by
  rcases searchLastRecord_cases (s:=powerUp s) hp with hn|⟨older,newest,stale,hlog,hb,hpass,hf⟩
  · exact Or.inl ⟨_,(searchLastRecord_vars (powerUp s)).1,reboot_of_not_found hn⟩
  · obtain ⟨hZ,hP,hO,hr⟩ := reopens_of_search env hf
    exact Or.inr ⟨older,newest,stale,hlog,hb,hpass,hZ,hP,hO,hr⟩

/-- The pointer found stands in its slot. -/
theorem Finds.slot {env : Env} {s : Archive} {older stale : List PagePtr} {newest : PagePtr}
    (h : Finds env s older newest stale) : older.length<512 ∧
      ptrSlot s.zd25.mem older.length=encodePtr newest := by
  have hfits := h.log.fits
  have hlen : (older++[newest]++stale).length=older.length+1+stale.length := by
    simp only [List.length_append,List.length_singleton]
  have hu := h.log.used older.length (by omega)
  rw [List.getElem_append_left (by rw [List.length_append,List.length_singleton]; omega),
    List.getElem_concat_length rfl] at hu
  exact ⟨by omega,hu⟩

end Log

section Clear

/-- Clearing spoils nothing. -/
theorem keeps_clearArchive (env : Env) (s : Archive) :
    Keeps A s.zd25.mem (clearArchive env s).zd25.mem := by
  intro q i hi hc
  rw [dataSlot_clearArchive env s q hi]
  split
  · exact Or.inl rfl
  · exact hc

/-- Clearing the archive keeps the chip packed. -/
theorem packed_clearArchive (env : Env) {s : Archive} (h : Packed s.zd25.mem) :
    Packed (clearArchive env s).zd25.mem := by
  refine ⟨fun q hq => (h.slots q hq).keep (keeps_clearArchive env s),fun q hq i hi hb j hj hij => ?_⟩
  rw [dataSlot_clearArchive env s q hi] at hb
  rw [dataSlot_clearArchive env s q hj]
  split
  · rfl
  · rename_i hge
    rw [if_neg hge] at hb
    exact h.blank q hq i hi hb j hj hij

/-- After clear_archive the pointer to page 0 is clean when the tail of page
127 is. -/
theorem cleanPtr_clear (env : Env) {s : Archive} (hhome : CleanTail A s.zd25.mem 127)
    (t : UInt32) : CleanPtr A (clearArchive env s).zd25.mem ⟨t,0,Nat.succ_pos 127⟩ := by
  refine ⟨fun i hi => Or.inl ?_,hhome.keep (keeps_clearArchive env s)⟩
  rw [dataSlot_clearArchive env s 0 hi,if_pos (by omega)]

/-- clear_archive leaves a clean archive when the tail of page 127 is clean. -/
theorem cleanInv_clear (env : Env) {s : Archive} (hpacked : Packed s.zd25.mem)
    (hhome : CleanTail A s.zd25.mem 127) : CleanInv A (clearArchive env s) := by
  have hP : (clearArchive env s).archivePageNum=0 := (clearArchive_vars env s).1
  have hf : filled (clearArchive env s)=0 := filled_eq_zero.mpr (clearArchive_lastRecPtr env s)
  refine ⟨packed_clearArchive env hpacked,hhome.keep (keeps_clearArchive env s),
    aligned_clearArchive env s,?_,?_,?_,?_,?_⟩
  · rw [LogAligned,(clearArchive_vars env s).2.1]
  · rw [hP]
    omega
  · right
    intro i hi
    rw [hP,dataSlot_clearArchive env s 0 hi,if_pos (by omega),hf]
    exact ⟨fun _ => Nat.zero_le _,fun _ => rfl⟩
  · rw [hP]
    exact (cleanPtr_clear env hhome 0).1
  · exact fun i hi _ => Or.inl (ramSlot_clearArchive env s hi)

end Clear

section Add

variable {s : Archive} (env : Env) (record : MessageRecord)

/-- The buffer after adding a record of the set. -/
theorem ram_add (ha : Aligned s) (hA : A (stored record))
    (hram : ∀ i<256,(filled s=0 → 0 < i) → ramSlot s i=zeroSlot ∨ Clean A (ramSlot s i)) {i : ℕ}
    (hi : i<256) : ramSlot (addRecordToArchive env record s) i=zeroSlot ∨
      Clean A (ramSlot (addRecordToArchive env record s) i) := by
  rw [ramSlot_addRecordToArchive env record ha]
  split
  · exact Or.inr (Or.inr ⟨_,hA,rfl⟩)
  · rename_i hne
    refine hram i hi fun h0 => ?_
    have hn : next 256 (lastSlot s)=0 := by
      rw [next_lastSlot ha (fun hw => by rw [wraps_iff_filled ha,h0] at hw; cases hw),h0]
    omega

/-- The next slot of the current page is erased unless the page is full. -/
theorem CleanInv.current_of_not_wraps (hi : CleanInv A s) (hw : ¬Wraps s) : filled s<256 ∧
    ∀ i<256,dataSlot s.zd25.mem s.archivePageNum i=blankSlot ↔ filled s ≤ i := by
  have hne : filled s≠256 := fun hf => hw ((wraps_iff_filled hi.aligned).mpr hf)
  exact ⟨Nat.lt_of_le_of_ne (filled_le hi.aligned) hne,hi.current.resolve_left hne⟩

/-- In a clean state an add that wraps starts the next page. -/
theorem CleanInv.starts (hi : CleanInv A s) (hw : Wraps s) : Starts s :=
  ⟨hi.aligned,hi.logAligned,hw,hi.valid⟩

/-- The data slots after an add into the current page. -/
theorem CleanInv.slots_not_wraps (hi : CleanInv A s) (hw : ¬Wraps s) (q : ℕ) {i : ℕ}
    (hlt : i<256) : dataSlot (addRecordToArchive env record s).zd25.mem q i=
      if q=s.archivePageNum ∧ i=filled s then encode (stored record) else dataSlot s.zd25.mem q i := by
  obtain ⟨hf,hcur⟩ := hi.current_of_not_wraps hw
  rw [dataSlot_add_not_wraps env record hi.aligned hw q hlt,(hcur (filled s) hf).mpr le_rfl]
  by_cases hq : q=s.archivePageNum
  · by_cases hij : i=filled s
    · rw [if_pos hq,if_pos hij,if_pos ⟨hq,hij⟩]
    · rw [if_pos hq,if_neg hij,if_pos rfl,if_neg fun h => hij h.2,hq]
  · rw [if_neg hq,if_neg fun h => hq h.1]

/-- The data slots after an add that starts a page. -/
theorem CleanInv.slots_wraps (hi : CleanInv A s) (hw : Wraps s) (q : ℕ) {i : ℕ} (hlt : i<256) :
    dataSlot (addRecordToArchive env record s).zd25.mem q i=
      if q=next 128 s.archivePageNum then if i=0 then encode (stored record) else blankSlot
      else dataSlot s.zd25.mem q i :=
  dataSlot_add_wraps env record hi.aligned hi.logAligned hw hi.valid hi.packed.pagesFromStart q hlt

/-- An add spoils no slot. -/
theorem CleanInv.keeps_add {B : StoredRecord → Prop} (hi : CleanInv A s) (hB : B (stored record)) :
    Keeps B s.zd25.mem (addRecordToArchive env record s).zd25.mem := by
  intro q i hlt hc
  by_cases hw : Wraps s
  · rw [hi.slots_wraps env record hw q hlt]
    split
    · split
      · exact Or.inr ⟨_,hB,rfl⟩
      · exact Or.inl rfl
    · exact hc
  · rw [hi.slots_not_wraps env record hw q hlt]
    split
    · exact Or.inr ⟨_,hB,rfl⟩
    · exact hc

/-- An add leaves the pages filled from their first slots on. -/
theorem CleanInv.packed_add (hi : CleanInv A s) :
    Packed (addRecordToArchive env record s).zd25.mem := by
  refine ⟨fun q hq => (hi.packed.slots q hq).keep (hi.keeps_add env record trivial),?_⟩
  intro q hq i hlt hb j hj hij
  by_cases hw : Wraps s
  · rw [hi.slots_wraps env record hw q hlt] at hb
    rw [hi.slots_wraps env record hw q hj]
    split
    · rename_i hqP
      rw [if_pos hqP] at hb
      split
      · rename_i hj0
        rw [if_pos (by omega)] at hb
        exact absurd hb (encode_ne_blank _)
      · rfl
    · rename_i hqP
      rw [if_neg hqP] at hb
      exact hi.packed.blank q hq i hlt hb j hj hij
  · rw [hi.slots_not_wraps env record hw q hlt] at hb
    split at hb
    · exact absurd hb (encode_ne_blank _)
    · rename_i hne
      have hbj := hi.packed.blank q hq i hlt hb j hj hij
      rw [hi.slots_not_wraps env record hw q hj,if_neg]
      · exact hbj
      · rintro ⟨rfl,rfl⟩
        have hge := ((hi.current_of_not_wraps hw).2 i hlt).mp hb
        exact hne ⟨rfl,by omega⟩

/-- The variables after an add into the current page. -/
theorem CleanInv.vars_not_wraps (hi : CleanInv A s) (hw : ¬Wraps s) :
    (addRecordToArchive env record s).archivePageNum=s.archivePageNum ∧
    (addRecordToArchive env record s).offsetInPagePtrPage=s.offsetInPagePtrPage ∧
    filled (addRecordToArchive env record s)=filled s+1 := by
  obtain ⟨hP,hO,_⟩ := addRecordToArchive_vars env record s
  rw [nextSlot_not_wraps hi.aligned hw] at hP hO
  exact ⟨hP,hO,by rw [filled_addRecordToArchive hi.aligned,if_neg hw]⟩

/-- The variables after an add that starts a page. -/
theorem CleanInv.vars_wraps (hi : CleanInv A s) (hw : Wraps s) :
    (addRecordToArchive env record s).archivePageNum=next 128 s.archivePageNum ∧
    (addRecordToArchive env record s).offsetInPagePtrPage=8*(logIndex s+1) ∧
    filled (addRecordToArchive env record s)=1 := by
  obtain ⟨hP,hO,_⟩ := addRecordToArchive_vars env record s
  rw [nextSlot_wraps hw] at hP hO
  rw [startPage,offset_createNewPagePtr env
    (s:={s with archivePageNum := next 128 s.archivePageNum}) hi.logAligned] at hO
  exact ⟨hP,hO,by rw [filled_addRecordToArchive hi.aligned,if_pos hw]⟩

/-- An add into the current page keeps the archive clean. -/
theorem CleanInv.add_not_wraps (hi : CleanInv A s) (hA : A (stored record)) (hw : ¬Wraps s) :
    CleanInv A (addRecordToArchive env record s) := by
  have ha := hi.aligned
  obtain ⟨hlt,hcur⟩ := hi.current_of_not_wraps hw
  obtain ⟨hP,hO,hF⟩ := hi.vars_not_wraps env record hw
  have hk := hi.keeps_add env record hA
  refine ⟨hi.packed_add env record,hi.home.keep hk,aligned_addRecordToArchive env record ha,
    by rw [LogAligned,hO]; exact hi.logAligned,hP ▸ hi.valid,Or.inr fun i hi' => ?_,?_,
    fun i hi' _ => ram_add env record ha hA hi.ram hi'⟩
  · rw [hP,hi.slots_not_wraps env record hw _ hi',hF]
    by_cases hij : i=filled s
    · rw [if_pos ⟨rfl,hij⟩]
      exact ⟨fun hb => absurd hb (encode_ne_blank _),fun hle => by omega⟩
    · rw [if_neg fun h => hij h.2,hcur i hi']
      omega
  · rw [hP]
    exact hi.page.keep hk

/-- An add that starts a page keeps the archive clean: whatever the new page
held before is erased. -/
theorem CleanInv.add_wraps (hi : CleanInv A s) (hA : A (stored record)) (hw : Wraps s) :
    CleanInv A (addRecordToArchive env record s) := by
  have ha := hi.aligned
  obtain ⟨hP,hO,hF⟩ := hi.vars_wraps env record hw
  have hk := hi.keeps_add env record hA
  have hD := fun i hi' => hi.slots_wraps env record hw (next 128 s.archivePageNum) (i:=i) hi'
  refine ⟨hi.packed_add env record,hi.home.keep hk,aligned_addRecordToArchive env record ha,
    by rw [LogAligned,hO]; omega,hP ▸ next_lt hi.valid,Or.inr fun i hi' => ?_,fun i hi' => ?_,
    fun i hi' _ => ram_add env record ha hA hi.ram hi'⟩
  · rw [hP,hD i hi',if_pos rfl,hF]
    split
    · exact ⟨fun hb => absurd hb (encode_ne_blank _),fun hle => by omega⟩
    · exact ⟨fun _ => by omega,fun _ => rfl⟩
  · rw [hP,hD i hi',if_pos rfl]
    split
    · exact Or.inr ⟨_,hA,rfl⟩
    · exact Or.inl rfl

/-- An add of a record of the set keeps the archive clean. -/
theorem CleanInv.add (hi : CleanInv A s) (hA : A (stored record)) :
    CleanInv A (addRecordToArchive env record s) := by
  by_cases hw : Wraps s
  · exact hi.add_wraps env record hA hw
  · exact hi.add_not_wraps env record hA hw

/-- The pointer that a page start writes is clean. -/
theorem CleanInv.nextPtr_clean (hi : CleanInv A s) (hA : A (stored record)) (hw : Wraps s) :
    CleanPtr A (addRecordToArchive env record s).zd25.mem (nextPtr env s hi.valid) := by
  have hpage := (hi.add_wraps env record hA hw).page
  rw [(hi.vars_wraps env record hw).1] at hpage
  refine ⟨hpage,?_⟩
  change CleanTail A _ (prevPage (next 128 s.archivePageNum))
  rw [prevPage_next hi.valid]
  exact (hi.page.keep (hi.keeps_add env record hA)).tail

end Add

section Reboot

variable {s : Archive}

/-- Only erased slots can be rejected on a clean page. -/
theorem blank_of_rejected {stack : Mem UInt8} {slot : List UInt8} (hc : Clean A slot)
    (h : checkSlot stack slot=false) : slot=blankSlot := by
  rcases hc with hb|⟨r,_,he⟩
  · exact hb
  · rw [he,checkSlot_encode] at h
    cases h

/-- A reopened clean page counts as full, when erased slots are accepted, or is
counted up to its first erased slot. -/
theorem Reopened.current {stack m : Mem UInt8} {p : ℕ} (hr : Reopened stack m p s) (hp : p<128)
    (hc : Packed m) : filled s=256 ∨ ∀ i<256,dataSlot m p i=blankSlot ↔ filled s ≤ i := by
  have hle := filled_le hr.aligned
  by_cases hf : filled s=256
  · exact Or.inl hf
  have hstop := hr.stopped (by omega)
  have hblank := blank_of_rejected (hc.slots p hp _ (by omega)) hstop
  rw [hblank] at hstop
  refine Or.inr fun i hi => ⟨fun hb => ?_,fun hfi => hc.blank p hp _ (by omega) hblank i hi hfi⟩
  by_contra hlt
  have hv := hr.counted i (by omega)
  rw [hb,hstop] at hv
  cases hv

/-- A reboot that finds a clean pointer makes a clean archive. -/
theorem Finds.cleanInv {env : Env} {older stale : List PagePtr} {newest : PagePtr}
    (h : Finds env s older newest stale) (hpacked : Packed s.zd25.mem)
    (hhome : CleanTail A s.zd25.mem 127) (hc : CleanPtr A s.zd25.mem newest) :
    CleanInv A (reboot env s) := by
  have hr := h.reopened
  have hZ := h.chip
  have hP := h.page
  refine ⟨hZ ▸ hpacked,hZ ▸ hhome,hr.aligned,by rw [LogAligned,h.offset]; omega,hP ▸ newest.valid,
    ?_,?_,?_⟩
  · rw [hP,hZ]
    exact Reopened.current hr newest.valid hpacked
  · rw [hP,hZ]
    exact hc.1
  · intro i hi h0
    right
    by_cases hlt : i<filled (reboot env s)
    · rw [hr.front i hlt]
      exact hc.1 i hi
    · rw [hr.back i hi (by omega)]
      exact hc.2 i hi (by omega)

end Reboot

section Reachable

variable {s : Archive}

/-- Whether a chip is packed depends on its record slots only. -/
theorem Packed.congr {m m' : Mem UInt8} (h : Packed m)
    (hd : ∀ q,∀ i<256,dataSlot m' q i=dataSlot m q i) : Packed m' := by
  refine ⟨fun q hq i hi => ?_,fun q hq i hi hb j hj hij => ?_⟩
  · rw [hd q i hi]
    exact h.slots q hq i hi
  · rw [hd q i hi] at hb
    rw [hd q j hj]
    exact h.blank q hq i hi hb j hj hij

/-- Erasing a page keeps the chip filled from the first slots on. -/
theorem Packed.erase {m m' : Mem UInt8} {p : ℕ} (h : Packed m)
    (hd : ∀ q,∀ i<256,dataSlot m' q i=if q=p then blankSlot else dataSlot m q i) : Packed m' := by
  refine ⟨fun q hq i hi => ?_,fun q hq i hi hb j hj hij => ?_⟩
  · rw [hd q i hi]
    split
    · exact Or.inl rfl
    · exact h.slots q hq i hi
  · rw [hd q i hi] at hb
    rw [hd q j hj]
    split
    · rfl
    · rename_i hne
      rw [if_neg hne] at hb
      exact h.blank q hq i hi hb j hj hij

/-- The used slots of the log follow each other up to the next one to be
written, when the first slot is erased. -/
def Trailing (s : Archive) : Prop :=
  ptrSlot s.zd25.mem 0≠NorFlash.blank 8 ∨
    ∃ k b,0<k ∧ k<b ∧ b≤512 ∧ s.offsetInPagePtrPage=8*b ∧
      ∀ i<512,ptrSlot s.zd25.mem i=NorFlash.blank 8 ↔ i<k ∨ b ≤ i

/-- What holds in every reachable state, whatever the clock shows and wherever
the power has been lost. -/
structure WellFormed (s : Archive) : Prop where
  /-- The data pages and the variables. -/
  clean : CleanInv (fun _ => True) s
  /-- The log holds pointers. -/
  pointers : Pointers s.zd25.mem
  /-- Its used slots follow each other. -/
  trailing : Trailing s

/-- A page start leaves the used slots of the log one behind the other. -/
theorem trailing_write {s s' : Archive} {e : PagePtr} (ht : Trailing s)
    (hw : WritesPtr s.zd25.mem s'.zd25.mem (logIndex s) e)
    (ho : s'.offsetInPagePtrPage=8*(logIndex s+1)) : Trailing s' := by
  have hl := logIndex_lt s
  have h0 := hw 0 (by omega)
  by_cases hl0 : logIndex s=0
  · left
    rw [h0,if_pos hl0.symm]
    exact encodePtr_ne_blank e
  · rw [if_neg (Ne.symm hl0)] at h0
    by_cases hb : ptrSlot s.zd25.mem (logIndex s)=NorFlash.blank 8
    · rw [if_pos hb] at h0
      rcases ht with hu|⟨k,b,hk,hkb,hb512,hoff,hslots⟩
      · exact Or.inl (h0 ▸ hu)
      · have hlb : logIndex s=b := by
          unfold logIndex at hl0 ⊢
          rw [hoff] at hl0 ⊢
          split at hl0
          · exact absurd rfl hl0
          · split <;> omega
        rw [hlb] at hw ho hl hb
        refine Or.inr ⟨k,b+1,hk,by omega,by omega,ho,fun i hi => ?_⟩
        rw [hw i hi,if_pos hb]
        split
        · rename_i hib
          exact ⟨fun he => absurd he (encodePtr_ne_blank e),fun h => by omega⟩
        · rw [hslots i hi]
          omega
    · refine Or.inr ⟨logIndex s,logIndex s+1,by omega,by omega,by omega,ho,fun i hi => ?_⟩
      rw [hw i hi,if_neg hb]
      split
      · exact ⟨fun he => absurd he (encodePtr_ne_blank e),fun h => by omega⟩
      · exact ⟨fun _ => by omega,fun _ => rfl⟩

/-- After a clear the used slots of the log follow each other. -/
theorem trailing_clear (env : Env) (s : Archive) : Trailing (clearArchive env s) := by
  left
  rw [writesPtr_clearArchive env s 0 (by omega),if_pos rfl]
  exact encodePtr_ne_blank _

/-- After a clear of a packed chip the state is well formed. -/
theorem wellFormed_clear (env : Env) {s : Archive} (hpacked : Packed s.zd25.mem)
    (hp : Pointers s.zd25.mem) : WellFormed (clearArchive env s) :=
  ⟨cleanInv_clear env hpacked (hpacked.slots 127 (by omega)).tail,
    hp.write (writesPtr_clearArchive env s),trailing_clear env s⟩

/-- An add keeps a well-formed archive. -/
theorem WellFormed.add (h : WellFormed s) (env : Env) (record : MessageRecord) :
    WellFormed (addRecordToArchive env record s) := by
  obtain ⟨hi,hp,ht⟩ := h
  refine ⟨hi.add env record trivial,?_,?_⟩
  · by_cases hw : Wraps s
    · exact hp.write (writesPtr_add env record (hi.starts hw))
    · exact hp.congr fun i hlt => ptrSlot_add_not_wraps env record hi.aligned hw hlt
  · by_cases hw : Wraps s
    · exact trailing_write ht (writesPtr_add env record (hi.starts hw)) (hi.vars_wraps env record hw).2.1
    · have hs := fun i hlt => ptrSlot_add_not_wraps env record hi.aligned hw (i:=i) hlt
      rcases ht with hu|⟨k,b,hk,hkb,hb,hoff,hslots⟩
      · exact Or.inl (by rwa [hs 0 (by omega)])
      · refine Or.inr ⟨k,b,hk,hkb,hb,(hi.vars_not_wraps env record hw).2.1.trans hoff,fun i hlt => ?_⟩
        rw [hs i hlt]
        exact hslots i hlt

/-- A reboot makes a well-formed archive of a filled chip with a log of
pointers. -/
theorem wellFormed_reboot (env : Env) (hpacked : Packed s.zd25.mem) (hp : Pointers s.zd25.mem) :
    WellFormed (reboot env s) := by
  rcases reboot_cases env hp with ⟨s₁,hz,he⟩|⟨older,newest,stale,hf⟩
  · rw [he]
    exact wellFormed_clear env (hz ▸ hpacked) (hz ▸ hp)
  · have hlen : 0<(older++[newest]++stale).length := by
      simp only [List.length_append,List.length_singleton]
      omega
    refine ⟨hf.cleanInv hpacked (hpacked.slots 127 (by omega)).tail
      ⟨hpacked.slots _ newest.valid,(hpacked.slots _ (prevPage_lt newest.valid)).tail⟩,
      hf.chip ▸ hp,Or.inl ?_⟩
    rw [hf.chip,hf.log.used 0 hlen]
    exact encodePtr_ne_blank _

/-- A loss of power inside an add leaves a filled chip with a log of pointers. -/
theorem WellFormed.cut (h : WellFormed s) (env : Env) (record : MessageRecord) (j : ℕ) :
    Packed (cutAdd j env record s).zd25.mem ∧ Pointers (cutAdd j env record s).zd25.mem := by
  obtain ⟨hi,hp,ht⟩ := h
  have ha := hi.aligned
  have hadd : WellFormed (addRecordToArchive env record s) := WellFormed.add ⟨hi,hp,ht⟩ env record
  by_cases hw : Wraps s
  · have hlog := hp.write (writesPtr_startPage env hi.logAligned hi.valid)
    have hdata := dataSlot_createNewPagePtr
      (s:={s with archivePageNum := next 128 s.archivePageNum}) env (nextPtr env s hi.valid)
      hi.logAligned rfl
    have hpacked : Packed (startPage env s).zd25.mem := hi.packed.congr fun q i _ => hdata q i
    rcases cutAdd_cases env record (hi.starts hw) j with h|h|h|h|h
    · rw [h]
      exact ⟨hi.packed,hp⟩
    · rw [h]
      refine ⟨hi.packed.congr fun q i _ => ?_,fun i _ => Or.inl ?_⟩
      · exact load_erase_outside (by omega) (by rw [pageAddr_eq]; omega)
      · exact load_erase_inside (by omega) (by omega)
    · rw [h]
      exact ⟨hpacked,hlog⟩
    · rw [h]
      exact ⟨hpacked.erase fun q i hlt => dataSlot_clearArchivePage _ _ hlt,
        hlog.congr fun i hlt => ptrSlot_clearArchivePage _ _ hlt⟩
    · rw [h]
      exact ⟨hadd.clean.packed,hadd.pointers⟩
  · obtain ⟨hlt,hcur⟩ := hi.current_of_not_wraps hw
    have hb := (hcur (filled s) hlt).mpr le_rfl
    have hprog := addRecordToArchive_program env record ha hw hb
    rw [cutAdd,addCmds_not_wraps env record ha hw hb]
    cases j with
    | zero => exact ⟨hi.packed,hp⟩
    | succ j =>
      rw [List.take_of_length_le (by rw [List.length_singleton]; omega),←hprog]
      exact ⟨hadd.clean.packed,hadd.pointers⟩

/-- The state at first power on is well formed. -/
theorem wellFormed_start (env₀ : Env) : WellFormed (start env₀) := by
  have hd : ∀ q i,dataSlot (searchLastRecord (powerUp factoryArchive)).2.zd25.mem q i=blankSlot := by
    intro q i
    rw [(searchLastRecord_vars _).1]
    exact load_eq_blank_iff.mpr fun _ _ => rfl
  rw [start_eq_clear]
  refine wellFormed_clear env₀ ⟨fun q _ i _ => Or.inl (hd q i),fun q _ _ _ _ j _ _ => hd q j⟩
    fun i _ => Or.inl ?_
  rw [(searchLastRecord_vars _).1]
  exact load_eq_blank_iff.mpr fun _ _ => rfl

/-- Every event, whatever the clock shows, keeps the archive well formed. -/
theorem WellFormed.event (h : WellFormed s) (o : Env×Event) : WellFormed (eventStep s o) := by
  obtain ⟨env,ev⟩ := o
  unfold eventStep
  cases ev with
  | add record => exact h.add env record
  | reboot => exact wellFormed_reboot env h.clean.packed h.pointers
  | clear => exact wellFormed_clear env h.clean.packed h.pointers
  | cut record j rebootEnv =>
    obtain ⟨hpacked,hp⟩ := h.cut env record j
    exact wellFormed_reboot rebootEnv hpacked hp

/-- Every reachable archive is well formed. -/
theorem wellFormed_life (env₀ : Env) (evs : List (Env×Event)) : WellFormed (life env₀ evs) := by
  induction evs using List.reverseRecOn with
  | nil =>
    rw [life_nil]
    exact wellFormed_start env₀
  | append_singleton evs o ih =>
    rw [life_concat]
    exact ih.event o

end Reachable

end BT816Display.ArchiveClean
