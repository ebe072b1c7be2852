import BT816Display.ArchiveLog

/-!
# Where the shown records lie on the chip

The filled slots of the current page hold what the RAM ring shows there, its
other slots are erased, and the rest of the ring is found again in the page
before it. Reopening the current page therefore rebuilds the ring.
-/

namespace BT816Display.ArchiveLayout

open ByteMemory NorFlash Crc Clock RingWindow Zd25Flash MessageArchive ArchiveSlots
open ArchiveRam ArchiveFlash ArchiveRun

/-- The contents of a slot in which no record has been stored. -/
def Dead (slot : List UInt8) : Prop := slot=zeroSlot ∨ slot=blankSlot

/-- An erased slot is rejected by check_record, whose checksum then runs 255
bytes over the slot. -/
def RejectsBlank (stack : Mem UInt8) : Prop := checkSlot stack blankSlot=false

/-- A zeroed stack is one of those on which an erased slot is rejected. -/
theorem rejectsBlank_zero : RejectsBlank fun _ => 0 := by
  unfold RejectsBlank
  decide +kernel

/-- A buffer that rejects blank slots reads no dead slot. -/
theorem unread_dead {stack : Mem UInt8} (h : RejectsBlank stack) : Unread stack Dead := by
  rintro slot (rfl|rfl)
  · exact ⟨checkSlot_zero stack,readSlot_zero stack⟩
  · exact ⟨h,readSlot_blank stack⟩

/-- An encoded record is not dead. -/
theorem not_dead_encode (r : StoredRecord) : ¬Dead (encode r) := by
  rintro (h|h)
  · exact encode_ne_zero r h
  · exact encode_ne_blank r h

/-- Two slots hold the same record or both hold none. -/
def SameShown (a b : List UInt8) : Prop := a=b ∨ (Dead a ∧ Dead b)

/-- What is shown does not depend on which dead slot stands there. -/
theorem SameShown.shows {a b : List UInt8} (h : SameShown a b) (o : Option StoredRecord)
    (ho : Shows Dead o a) : Shows Dead o b := by
  rcases h with rfl|⟨ha,hb⟩
  · exact ho
  · cases o with
    | none => exact hb
    | some r =>
      rw [show a=encode r from ho] at ha
      exact absurd ha (not_dead_encode r)

/-- The page before a data page. -/
def prevPage (pageNum : ℕ) : ℕ := behind 128 pageNum 1

/-- The page behind a page is a page. -/
theorem prevPage_lt {p : ℕ} (hp : p<128) : prevPage p<128 := behind_lt hp (by omega)

/-- The page behind the next one is the page itself. -/
theorem prevPage_next {p : ℕ} (hp : p<128) : prevPage (next 128 p)=p := by
  rw [prevPage,behind_next hp (by omega),behind_zero]

/-- The page behind is another page. -/
theorem prevPage_ne {p : ℕ} (hp : p<128) : prevPage p≠p := by
  unfold prevPage behind
  split <;> omega

/-- A page whose first slot is erased is erased. -/
def PagesFromStart (m : Mem UInt8) : Prop :=
  ∀ q<128,dataSlot m q 0=blankSlot → ∀ i<256,dataSlot m q i=blankSlot

/-- The archive shows the history `h` in RAM and keeps it on the chip. -/
structure Layout (s : Archive) (h : List StoredRecord) : Prop where
  /-- The RAM ring shows the history. -/
  ram : RamWindow Dead s h
  /-- The current page exists. -/
  valid : s.archivePageNum<128
  /-- Every filled slot of the current page holds a record of the history. -/
  depth : filled s≤h.length
  /-- The filled slots of the current page are those of the ring. -/
  current : ∀ i<filled s,dataSlot s.zd25.mem s.archivePageNum i=ramSlot s i
  /-- The other slots of the current page are erased. -/
  ahead : ∀ i<256,filled s ≤ i → dataSlot s.zd25.mem s.archivePageNum i=blankSlot
  /-- The other slots of the ring are found in the page before; slot 0 does
  not count before the first record. -/
  before : ∀ i<256,filled s ≤ i → 0 < i →
    SameShown (ramSlot s i) (dataSlot s.zd25.mem (prevPage s.archivePageNum) i)
  /-- Every page is filled from its first slot on. -/
  pages : PagesFromStart s.zd25.mem

/-- A filled slot of the current page holds a record. -/
theorem Layout.filled_slot {s : Archive} {h : List StoredRecord} (hl : Layout s h) {i : ℕ}
    (hi : i<filled s) : ∃ r,ramSlot s i=encode r := by
  have hle := filled_le hl.ram.aligned
  have hd := hl.depth
  have hw := hl.ram.window (filled s-1-i) (by rw [inView_of_filled (by omega)]; omega)
  have hb : behind 256 (lastSlot s) (filled s-1-i)=i := by
    rw [lastSlot_of_filled (by omega)]
    unfold behind
    split <;> omega
  rw [hb,List.getElem?_eq_getElem (by omega)] at hw
  exact ⟨_,hw⟩

/-- clear_archive leaves no record, provided that the last page, which it does
not erase, holds none behind its first slot. -/
theorem Layout.of_clear (env : Env) {s : Archive} (hpages : PagesFromStart s.zd25.mem)
    (hlast : ∀ i<256,0 < i → Dead (dataSlot s.zd25.mem 127 i)) : Layout (clearArchive env s) [] := by
  have hz := fun q i hi => dataSlot_clearArchive env s q (i:=i) hi
  have hP : (clearArchive env s).archivePageNum=0 := (clearArchive_vars env s).1
  have hf : filled (clearArchive env s)=0 := filled_eq_zero.mpr (clearArchive_lastRecPtr env s)
  refine ⟨RamWindow.of_clear (Or.inl rfl) env s,?_,?_,?_,?_,?_,?_⟩
  · rw [hP]
    omega
  · rw [hf]
    exact Nat.zero_le _
  · intro i hi
    rw [hf] at hi
    exact absurd hi (Nat.not_lt_zero i)
  · intro i hi _
    rw [hP,hz 0 i hi,if_pos (by omega)]
  · intro i hi _ h0
    rw [hP,show prevPage 0=127 from rfl,hz 127 i hi,if_neg (by omega),ramSlot_clearArchive env s hi]
    exact Or.inr ⟨Or.inl rfl,hlast i hi h0⟩
  · intro q hq h0 i hi
    rw [hz q 0 (by omega)] at h0
    rw [hz q i hi]
    split
    · rfl
    · rename_i hge
      rw [if_neg hge] at h0
      exact hpages q hq h0 i hi

/-- With a full buffer the chip may change in any other data page. -/
theorem Layout.withChip {s : Archive} {h : List StoredRecord} (hl : Layout s h) (hf : filled s=256) {z : Zd25}
    (hcur : ∀ i<256,dataSlot z.mem s.archivePageNum i=dataSlot s.zd25.mem s.archivePageNum i)
    (hpages : PagesFromStart z.mem) : Layout {s with zd25 := z} h := by
  have hf' : filled {s with zd25 := z}=256 := hf
  refine ⟨⟨hl.ram.aligned,hl.ram.fresh,hl.ram.window⟩,hl.valid,hl.depth,?_,?_,?_,hpages⟩
  · intro i hi
    rw [hf'] at hi
    exact (hcur i hi).trans (hl.current i (by omega))
  · intro i hi hfi
    omega
  · intro i hi hfi
    omega

section Add

variable {s : Archive} {h : List StoredRecord} (env : Env) (record : MessageRecord)

/-- The data slots after an add that starts no page. -/
theorem dataSlot_add_not_wraps (ha : Aligned s) (hw : ¬Wraps s) (q : ℕ) {i : ℕ} (hi : i<256) :
    dataSlot (addRecordToArchive env record s).zd25.mem q i=
      if q=s.archivePageNum then
        if i=filled s then encode (stored record)
        else if dataSlot s.zd25.mem s.archivePageNum (filled s)=blankSlot then
          dataSlot s.zd25.mem s.archivePageNum i
        else blankSlot
      else dataSlot s.zd25.mem q i := by
  have hlt : next 256 (lastSlot s)<256 := next_lt (lastSlot_lt ha)
  rw [addRecordToArchive_zd25 ha,nextSlot_not_wraps ha hw,
    dataSlot_write _ hlt (encode_length _) hi,next_lastSlot ha hw]

/-- After an add that starts a page the new page holds the record alone. -/
theorem dataSlot_add_wraps (ha : Aligned s) (hlog : LogAligned s) (hw : Wraps s)
    (hp : s.archivePageNum<128) (hpages : PagesFromStart s.zd25.mem) (q : ℕ) {i : ℕ} (hi : i<256) :
    dataSlot (addRecordToArchive env record s).zd25.mem q i=
      if q=next 128 s.archivePageNum then
        if i=0 then encode (stored record) else blankSlot
      else dataSlot s.zd25.mem q i := by
  have hlt : next 256 (lastSlot s)<256 := next_lt (lastSlot_lt ha)
  have hd : ∀ q i,dataSlot (startPage env s).zd25.mem q i=dataSlot s.zd25.mem q i :=
    dataSlot_createNewPagePtr (s:={s with archivePageNum := next 128 s.archivePageNum}) env
      ⟨timeToUint32 env.rtc,next 128 s.archivePageNum,next_lt hp⟩ hlog rfl
  rw [addRecordToArchive_zd25 ha,nextSlot_wraps hw,dataSlot_write _ hlt (encode_length _) hi,
    next_lastSlot_wraps hw,hd,hd,hd]
  change (if q=next 128 s.archivePageNum then
      if i=0 then encode (stored record)
      else if dataSlot s.zd25.mem (next 128 s.archivePageNum) 0=blankSlot then
        dataSlot s.zd25.mem (next 128 s.archivePageNum) i
      else blankSlot
    else dataSlot s.zd25.mem q i)=_
  by_cases h0 : dataSlot s.zd25.mem (next 128 s.archivePageNum) 0=blankSlot
  · rw [if_pos h0,hpages _ (next_lt hp) h0 i hi]
  · rw [if_neg h0]

/-- An add that starts no page keeps the layout. -/
theorem Layout.add_not_wraps (hl : Layout s h) (hw : ¬Wraps s) :
    Layout (addRecordToArchive env record s) (stored record::h) := by
  have ha := hl.ram.aligned
  have hle := filled_le ha
  have hne : filled s≠256 := fun hf => hw ((wraps_iff_filled ha).mpr hf)
  have hP : (addRecordToArchive env record s).archivePageNum=s.archivePageNum := by
    rw [(addRecordToArchive_vars env record s).1,nextSlot_not_wraps ha hw]
  have hF : filled (addRecordToArchive env record s)=filled s+1 := by
    rw [filled_addRecordToArchive ha,if_neg hw]
  have hR := fun i => ramSlot_addRecordToArchive env record ha i
  have hD := fun q i hi => dataSlot_add_not_wraps env record ha hw q (i:=i) hi
  rw [next_lastSlot ha hw] at hR
  rw [hl.ahead (filled s) (by omega) le_rfl] at hD
  refine ⟨hl.ram.add env record,?_,?_,?_,?_,?_,?_⟩
  · rw [hP]
    exact hl.valid
  · rw [hF,List.length_cons]
    exact Nat.succ_le_succ hl.depth
  · intro i hi
    rw [hF] at hi
    rw [hP,hD _ i (by omega),if_pos rfl,hR]
    by_cases hij : i=filled s
    · rw [if_pos hij,if_pos hij]
    · rw [if_neg hij,if_neg hij,if_pos rfl]
      exact hl.current i (by omega)
  · intro i hi hfi
    rw [hF] at hfi
    rw [hP,hD _ i hi,if_pos rfl,if_neg (by omega),if_pos rfl]
    exact hl.ahead i hi (by omega)
  · intro i hi hfi h0
    rw [hF] at hfi
    rw [hP,hD _ i hi,if_neg (prevPage_ne hl.valid),hR,if_neg (by omega)]
    exact hl.before i hi (by omega) h0
  · intro q hq h0 i hi
    rw [hD q 0 (by omega)] at h0
    rw [hD q i hi]
    by_cases hqP : q=s.archivePageNum
    · rw [if_pos hqP] at h0
      by_cases hz : 0=filled s
      · rw [if_pos hz] at h0
        exact absurd h0 (encode_ne_blank _)
      · rw [if_neg hz,if_pos rfl,hl.current 0 (by omega)] at h0
        obtain ⟨r,hr⟩ := hl.filled_slot (i:=0) (by omega)
        rw [hr] at h0
        exact absurd h0 (encode_ne_blank r)
    · rw [if_neg hqP] at h0 ⊢
      exact hl.pages q hq h0 i hi

/-- An add that starts a page keeps the layout. -/
theorem Layout.add_wraps (hl : Layout s h) (hlog : LogAligned s) (hw : Wraps s) :
    Layout (addRecordToArchive env record s) (stored record::h) := by
  have ha := hl.ram.aligned
  have hf : filled s=256 := (wraps_iff_filled ha).mp hw
  have hP : (addRecordToArchive env record s).archivePageNum=next 128 s.archivePageNum := by
    rw [(addRecordToArchive_vars env record s).1,nextSlot_wraps hw]
    rfl
  have hF : filled (addRecordToArchive env record s)=1 := by
    rw [filled_addRecordToArchive ha,if_pos hw]
  have hR := fun i => ramSlot_addRecordToArchive env record ha i
  have hD := fun q i hi => dataSlot_add_wraps env record ha hlog hw hl.valid hl.pages q (i:=i) hi
  rw [next_lastSlot_wraps hw] at hR
  refine ⟨hl.ram.add env record,?_,?_,?_,?_,?_,?_⟩
  · rw [hP]
    exact next_lt hl.valid
  · rw [hF,List.length_cons]
    omega
  · intro i hi
    have hi0 : i=0 := by omega
    rw [hP,hD _ i (by omega),if_pos rfl,hR,if_pos hi0,if_pos hi0]
  · intro i hi hfi
    rw [hP,hD _ i hi,if_pos rfl,if_neg (by omega)]
  · intro i hi hfi _
    have hne := prevPage_ne (next_lt hl.valid)
    rw [hP,hD _ i hi,if_neg hne,prevPage_next hl.valid,hR,if_neg (by omega)]
    exact Or.inl (hl.current i (by omega)).symm
  · intro q hq h0 i hi
    rw [hD q 0 (by omega)] at h0
    rw [hD q i hi]
    by_cases hqP : q=next 128 s.archivePageNum
    · rw [if_pos hqP,if_pos rfl] at h0
      exact absurd h0 (encode_ne_blank _)
    · rw [if_neg hqP] at h0 ⊢
      exact hl.pages q hq h0 i hi

end Add

section Reopen

/-- What reopening a data page makes of the RAM ring. -/
structure Reopened (stack m : Mem UInt8) (pageNum : ℕ) (s : Archive) : Prop where
  /-- The last slot pointer is well formed. -/
  aligned : Aligned s
  /-- The slots counted as filled are accepted by check_record. -/
  counted : ∀ i<filled s,checkSlot stack (dataSlot m pageNum i)=true
  /-- The count stops at a rejected slot or at the end of the page. -/
  stopped : filled s<256 → checkSlot stack (dataSlot m pageNum (filled s))=false
  /-- The counted slots come from the page. -/
  front : ∀ i<filled s,ramSlot s i=dataSlot m pageNum i
  /-- The others come from the page before. -/
  back : ∀ i<256,filled s ≤ i → ramSlot s i=dataSlot m (prevPage pageNum) i

/-- Copying a page into the buffer copies its slots. -/
theorem load_store_page {m archBuf : Mem UInt8} {q i : ℕ} (hi : i<256) :
    load (store archBuf 0 (load m (pageAddr q) 4096)) (16*i) 16=dataSlot m q i := by
  have h := @load_store_load _ archBuf m (pageAddr q) 0 (16*i) 4096 16 (by omega)
  rwa [Nat.zero_add] at h

/-- The source's way of stepping a page back. -/
theorem prevPage_eq {p : ℕ} : (if p=0 then zd25ArchivePageCnt-1 else p-1)=prevPage p := by
  dsimp only [zd25ArchivePageCnt]
  unfold prevPage behind
  split <;> split <;> omega

/-- The pointer to the last counted slot, as a number of filled slots. -/
theorem elim_counted (c : ℕ) : (if c=0 then none else some ((c-1)*16)).elim 0 (·/16+1)=c := by
  split
  · rename_i h
    rw [h,Option.elim_none]
  · rw [Option.elim_some,Nat.mul_div_cancel _ (by omega)]
    omega

/-- open_archive counts the filled slots at the start of the page and
completes the ring from the page before it. -/
theorem reopened (env : Env) (pageNum : ℕ) (s : Archive) :
    Reopened env.stack s.zd25.mem pageNum (reopenPage env pageNum s) := by
  obtain ⟨_,hle,hv,hstop⟩ := countLoop_spec env.stack
    (store s.archBuf 0 (load s.zd25.mem (pageAddr pageNum) 4096)) 256 0 (Nat.zero_add _)
  rw [Nat.mul_zero] at hle hv hstop
  have hc : filled (reopenPage env pageNum s)=countLoop env.stack
      (store s.archBuf 0 (load s.zd25.mem (pageAddr pageNum) 4096)) 256 0 0 := elim_counted _
  have hbuf : (reopenPage env pageNum s).archBuf=
      if filled (reopenPage env pageNum s)<256 then
        store (store s.archBuf 0 (load s.zd25.mem (pageAddr pageNum) 4096))
          (16*filled (reopenPage env pageNum s))
          (load s.zd25.mem (pageAddr (prevPage pageNum)+16*filled (reopenPage env pageNum s))
            ((4096-16*filled (reopenPage env pageNum s))/2*2))
      else store s.archBuf 0 (load s.zd25.mem (pageAddr pageNum) 4096) := by
    rw [hc,←prevPage_eq]
    rfl
  rw [←hc] at hle hv hstop
  refine ⟨aligned_reopenPage env pageNum s,?_,?_,?_,?_⟩
  · intro i hi
    have h := hv i (Nat.zero_le _) hi
    rwa [checkRecord,load_store_page (by omega)] at h
  · intro hlt
    have h := hstop hlt
    rwa [checkRecord,load_store_page hlt] at h
  · intro i hi
    rw [ramSlot,hbuf]
    split
    · rw [load_store_disjoint (by omega),load_store_page (by omega)]
    · rw [load_store_page (by omega)]
  · intro i hi hfi
    rw [ramSlot,hbuf,if_pos (by omega)]
    generalize filled (reopenPage env pageNum s)=c at hfi
    have h := @load_store_load _ (store s.archBuf 0 (load s.zd25.mem (pageAddr pageNum) 4096))
      s.zd25.mem (pageAddr (prevPage pageNum)+16*c) (16*c) (16*(i-c)) ((4096-16*c)/2*2) 16
      (by omega)
    rw [Nat.add_assoc,show 16*c+16*(i-c)=16*i by omega] at h
    exact h

/-- The count of a reopened page is determined by the slots that check_record
accepts. -/
theorem Reopened.filled_eq {stack m : Mem UInt8} {p c : ℕ} {s : Archive}
    (hr : Reopened stack m p s) (hc : c≤256)
    (hv : ∀ i<c,checkSlot stack (dataSlot m p i)=true)
    (hn : c<256 → checkSlot stack (dataSlot m p c)=false) : filled s=c := by
  have hle := filled_le hr.aligned
  rcases Nat.lt_trichotomy (filled s) c with hlt|he|hgt
  · have h := hr.stopped (by omega)
    rw [hv _ hlt] at h
    cases h
  · exact he
  · have h := hr.counted c hgt
    rw [hn (by omega)] at h
    cases h

/-- Reopening the current page counts its records. -/
theorem Layout.reopen_filled {s s' : Archive} {h : List StoredRecord} {stack : Mem UInt8}
    (hl : Layout s h) (hr : Reopened stack s.zd25.mem s.archivePageNum s')
    (hstack : RejectsBlank stack) : filled s'=filled s := by
  refine hr.filled_eq (filled_le hl.ram.aligned) (fun i hi => ?_) (fun hlt => ?_)
  · obtain ⟨r,he⟩ := hl.filled_slot hi
    rw [hl.current i hi,he]
    exact checkSlot_encode stack r
  · rw [hl.ahead _ hlt le_rfl]
    exact hstack

/-- Reopening the current page keeps the layout. -/
theorem Layout.reopen {s s' : Archive} {h : List StoredRecord} {stack : Mem UInt8}
    (hl : Layout s h) (hr : Reopened stack s.zd25.mem s.archivePageNum s')
    (hz : s'.zd25=s.zd25) (hp : s'.archivePageNum=s.archivePageNum)
    (hstack : RejectsBlank stack) :
    Layout s' h := by
  have ha := hl.ram.aligned
  have hle := filled_le ha
  have hf := hl.reopen_filled hr hstack
  have hslot : ∀ i<256,(filled s=0 → 0 < i) → SameShown (ramSlot s i) (ramSlot s' i) := by
    intro i hi h0
    by_cases hlt : i<filled s
    · left
      rw [hr.front i (by omega),hl.current i hlt]
    · rw [hr.back i hi (by omega)]
      exact hl.before i hi (by omega) (by omega)
  have hlast : lastSlot s'=lastSlot s := by
    by_cases h0 : filled s=0
    · rw [lastSlot,lastSlot,filled_eq_zero.mp h0,filled_eq_zero.mp (hf.trans h0)]
    · rw [lastSlot_of_filled (by omega),lastSlot_of_filled (by omega),hf]
  have hptr : s'.lastRecPtr=s.lastRecPtr := by
    cases hs : s.lastRecPtr with
    | none => exact filled_eq_zero.mp (hf.trans (filled_eq_zero.mpr hs))
    | some p =>
      cases hs' : s'.lastRecPtr with
      | none =>
        rw [filled_eq_zero.mpr hs'] at hf
        rw [filled_eq_zero.mp hf.symm] at hs
        cases hs
      | some p' => rw [lastRecPtr_eq hr.aligned hs',lastRecPtr_eq ha hs,hlast]
  have hview : inView s'=inView s := by rw [inView,inView,hptr]
  refine ⟨⟨hr.aligned,?_,?_⟩,hp ▸ hl.valid,hf ▸ hl.depth,?_,?_,?_,?_⟩
  · intro hn
    exact hl.ram.fresh (hptr ▸ hn)
  · rw [hlast,hview]
    refine hl.ram.window.mono fun k hk o => (hslot _ (behind_lt (lastSlot_lt ha) ?_) ?_).shows o
    · have hv := inView_bounds s
      omega
    · intro h0
      rw [inView,filled_eq_zero.mp h0,Option.elim_none] at hk
      rw [lastSlot,filled_eq_zero.mp h0,Option.elim_none]
      unfold behind
      split <;> omega
  · intro i hi
    rw [hz,hp,hr.front i hi]
  · rw [hz,hp,hf]
    exact hl.ahead
  · intro i hi hfi _
    rw [hz,hp,hr.back i hi hfi]
    exact Or.inl rfl
  · rw [hz]
    exact hl.pages

end Reopen

end BT816Display.ArchiveLayout
