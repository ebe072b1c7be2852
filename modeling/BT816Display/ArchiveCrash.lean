import BT816Display.ArchiveReboot

/-!
# Loss of power inside an add

An add that starts no page is a single flash command. A page start writes the
pointer, perhaps erases the new page, and writes the record; when the power
is lost in between, init_archive reopens the new page, which holds no record
yet, unless its pointer is not the latest of the log.
-/

namespace BT816Display.ArchiveCrash

open ByteMemory NorFlash Clock RingWindow Runs Zd25Flash MessageArchive ArchiveSlots ArchiveRam
open ArchiveFlash ArchiveRun ArchiveLog ArchiveReopen ArchiveLayout ArchiveReboot

/-- The flash commands executed inside one call of add_record_to_archive. -/
def addCmds (env : Env) (record : MessageRecord) (s : Archive) : List Cmd :=
  (addRecordToArchive env record s).zd25.cmds.drop s.zd25.cmds.length

/-- The archive whose power is lost after `j` of the commands of an add; the
variables do not survive, so only the chip matters. -/
def cutAdd (j : ℕ) (env : Env) (record : MessageRecord) (s : Archive) : Archive :=
  {s with zd25 := s.zd25.issueAll 4096 ((addCmds env record s).take j)}

/-- One event in the life of a panel. -/
inductive Event where
  /-- add_record_to_archive. -/
  | add (record : MessageRecord)
  /-- A reboot with init_archive. -/
  | reboot
  /-- clear_archive. -/
  | clear
  /-- A loss of power after `j` commands of an add, and the reboot after it. -/
  | cut (record : MessageRecord) (j : ℕ) (rebootEnv : Env)

/-- Execute one event. -/
def eventStep (s : Archive) (o : Env×Event) : Archive :=
  match o.2 with
  | .add record => addRecordToArchive o.1 record s
  | .reboot => reboot o.1 s
  | .clear => clearArchive o.1 s
  | .cut record j rebootEnv => reboot rebootEnv (cutAdd j o.1 record s)

/-- Execute a sequence of events, first one first. -/
def life (env₀ : Env) (evs : List (Env×Event)) : Archive := evs.foldl eventStep (start env₀)

@[simp] theorem life_nil (env₀ : Env) : life env₀ []=start env₀ := List.foldl_nil ..

theorem life_concat (env₀ : Env) (evs : List (Env×Event)) (o : Env×Event) :
    life env₀ (evs++[o])=eventStep (life env₀ evs) o := by
  rw [life,List.foldl_append]
  rfl

/-- What one event does to the completed records, newest first. -/
def completeStep (h : List StoredRecord) (o : Env×Event) : List StoredRecord :=
  match o.2 with
  | .add record => stored record::h
  | .clear => []
  | .reboot => h
  | .cut _ _ _ => h

/-- The records whose add completed since the last clear_archive, newest first. -/
def completed (evs : List (Env×Event)) : List StoredRecord := evs.foldl completeStep []

theorem completed_concat (evs : List (Env×Event)) (o : Env×Event) :
    completed (evs++[o])=completeStep (completed evs) o := by
  rw [completed,List.foldl_append]
  rfl

/-- The pointer of the page start would go unnoticed: it is added to the log
and does not carry a later time than the pointer before it. -/
def StartHidden (env : Env) (s : Archive) : Prop :=
  NextFree s ∧ timeToUint32 env.rtc≤lastTime s

/-- The condition on one event. A started page gets a nonzero time that is
later than the one before, in an erased log slot or at the start of the full
log; a page with records has a pointer of nonzero time; reboots reject erased
slots; clear_archive finds no record in the part of the last page that it
leaves alone; the power is lost only inside a page start that goes unnoticed. -/
def EventOk (s : Archive) (o : Env×Event) : Prop :=
  match o.2 with
  | .add _ =>
    if Wraps s then
      timeToUint32 o.1.rtc≠0 ∧
        (s.offsetInPagePtrPage<archivePageSize →
          NextFree s ∧ lastTime s<timeToUint32 o.1.rtc)
    else lastTime s≠0
  | .reboot => RejectsBlank o.1.stack
  | .clear => ∀ i<256,0 < i → dataSlot s.zd25.mem 127 i=blankSlot
  | .cut record j rebootEnv =>
    0<j ∧ j<(addCmds o.1 record s).length ∧ RejectsBlank rebootEnv.stack ∧ StartHidden o.1 s

/-- The 255 newest completed records are returned in order. -/
def Survives (stack : Mem UInt8) (s : Archive) (h : List StoredRecord) : Prop :=
  ∀ k<255,getRecordWithOffsetFromLast stack k s=h[k]?.map view

/-- What holds after events that meet the condition. -/
def LifeInv (s : Archive) (h : List StoredRecord) : Prop :=
  ∃ older newest stale,LogInv s older newest stale ∧ Layout s h ∧
    (h=[] → newest.page=0) ∧ (h≠[] → newest.time≠0)

section Commands

variable (env : Env) (record : MessageRecord) {s : Archive} {h : List StoredRecord}

/-- An add into an erased slot of the current page is a single program command. -/
theorem addRecordToArchive_program (ha : Aligned s) (hw : ¬Wraps s)
    (hb : dataSlot s.zd25.mem s.archivePageNum (filled s)=blankSlot) :
    (addRecordToArchive env record s).zd25=s.zd25.issueAll 4096
      [.program (pageAddr s.archivePageNum+16*filled s) (encode (stored record))] := by
  have hb' : load s.zd25.mem (pageAddr s.archivePageNum+16*filled s) (8*2)=blank (8*2) := hb
  rw [addRecordToArchive_zd25 ha,nextSlot_not_wraps ha hw,next_lastSlot ha hw,
    zd25FlashWrite_in_sector _ (inSector_data _ _) (encode_length _)]
  dsimp only
  rw [writeCmds_of_blank hb']

theorem addCmds_not_wraps (ha : Aligned s) (hw : ¬Wraps s)
    (hb : dataSlot s.zd25.mem s.archivePageNum (filled s)=blankSlot) :
    addCmds env record s=
      [.program (pageAddr s.archivePageNum+16*filled s) (encode (stored record))] := by
  rw [addCmds,addRecordToArchive_program env record ha hw hb,Chip.issueAll,List.drop_left]

/-- The current page has an erased slot unless the buffer is full. -/
theorem next_blank (hl : Layout s h) (hw : ¬Wraps s) :
    dataSlot s.zd25.mem s.archivePageNum (filled s)=blankSlot := by
  have ha := hl.ram.aligned
  exact hl.ahead (filled s)
    (Nat.lt_of_le_of_ne (filled_le ha) fun hf => hw ((wraps_iff_filled ha).mpr hf)) le_rfl

/-- The commands of the pointer of a page start. -/
def ptrCmds (env : Env) (s : Archive) (hp : s.archivePageNum<128) : List Cmd :=
  writeCmds (8*logIndex s) 4 (encodePtr (nextPtr env s hp)) s.zd25.mem

/-- The commands of the first record of the started page. -/
def recCmds (env : Env) (record : MessageRecord) (s : Archive) : List Cmd :=
  writeCmds (pageAddr (next 128 s.archivePageNum)) 8 (encode (stored record))
    (startPage env s).zd25.mem

theorem startPage_zd25 (hlog : LogAligned s) (hp : s.archivePageNum<128) :
    (startPage env s).zd25=s.zd25.issueAll 4096 (ptrCmds env s hp) := by
  have hz := createNewPagePtr_zd25 (s:={s with archivePageNum := next 128 s.archivePageNum}) env
    (nextPtr env s hp) hlog rfl
  rw [zd25FlashWrite_in_sector _ inSector_log (encodePtr_length _)] at hz
  exact hz

/-- A page start issues the commands of the pointer and of the record. -/
theorem addRecordToArchive_issueAll (ha : Aligned s) (hlog : LogAligned s) (hw : Wraps s)
    (hp : s.archivePageNum<128) :
    (addRecordToArchive env record s).zd25=
      s.zd25.issueAll 4096 (ptrCmds env s hp++recCmds env record s) := by
  have hs : InSector (pageAddr (next 128 s.archivePageNum)) 8 := by
    have h := inSector_data (next 128 s.archivePageNum) 0
    rwa [Nat.mul_zero,Nat.add_zero] at h
  have hp' : (startPage env s).archivePageNum=next 128 s.archivePageNum := rfl
  rw [addRecordToArchive_zd25 ha,nextSlot_wraps hw,next_lastSlot_wraps hw,Nat.mul_zero,Nat.add_zero,
    hp',zd25FlashWrite_in_sector _ hs (encode_length _),recCmds,startPage_zd25 env hlog hp,
    Chip.issueAll_issueAll]

theorem addCmds_wraps (ha : Aligned s) (hlog : LogAligned s) (hw : Wraps s)
    (hp : s.archivePageNum<128) :
    addCmds env record s=ptrCmds env s hp++recCmds env record s := by
  rw [addCmds,addRecordToArchive_issueAll env record ha hlog hw hp,Chip.issueAll,List.drop_left]

/-- The first slot of the page to be started, as the record write finds it. -/
theorem recCmds_eq (hlog : LogAligned s) (hp : s.archivePageNum<128) :
    (dataSlot s.zd25.mem (next 128 s.archivePageNum) 0=blankSlot →
      (recCmds env record s).length=1) ∧
    (dataSlot s.zd25.mem (next 128 s.archivePageNum) 0≠blankSlot →
      (recCmds env record s).length=2 ∧
        (recCmds env record s).take 1=[.erase (next 128 s.archivePageNum+1)]) := by
  have hd := dataSlot_createNewPagePtr (s:={s with archivePageNum := next 128 s.archivePageNum}) env
    (nextPtr env s hp) hlog rfl (next 128 s.archivePageNum) 0
  have hsec : pageAddr (next 128 s.archivePageNum)/4096=next 128 s.archivePageNum+1 := by
    rw [pageAddr_eq]
    omega
  have hload : load (startPage env s).zd25.mem (pageAddr (next 128 s.archivePageNum)) (8*2)=
      dataSlot s.zd25.mem (next 128 s.archivePageNum) 0 := hd
  constructor
  · intro hb
    rw [recCmds,writeCmds_of_blank (hload.trans hb)]
    rfl
  · intro hu
    rw [recCmds,writeCmds_of_used (fun hb => hu (hload.symm.trans hb)),hsec]
    exact ⟨rfl,rfl⟩

/-- The commands of the pointer, by the state of its log slot. -/
theorem ptrCmds_eq (hp : s.archivePageNum<128) :
    (NextFree s → (ptrCmds env s hp).length=1) ∧
    (¬NextFree s → (ptrCmds env s hp).length=2 ∧ (ptrCmds env s hp).take 1=[.erase 0]) := by
  have hlt := logIndex_lt s
  constructor
  · intro hb
    rw [ptrCmds,writeCmds_of_blank (show load s.zd25.mem (8*logIndex s) (4*2)=blank (4*2) from hb)]
    rfl
  · intro hu
    rw [ptrCmds,writeCmds_of_used (show load s.zd25.mem (8*logIndex s) (4*2)≠blank (4*2) from hu),
      show 8*logIndex s/4096=0 by omega]
    exact ⟨rfl,rfl⟩

end Commands

section Chips

variable (env : Env) (record : MessageRecord) {s : Archive} {h : List StoredRecord}
  {older stale : List PagePtr} {newest : PagePtr}

/-- Hypotheses about an add that starts a page. -/
structure Starts (s : Archive) : Prop where
  /-- The last slot pointer is well formed. -/
  aligned : Aligned s
  /-- The offset into the pointer log is well formed. -/
  log : LogAligned s
  /-- The buffer is full. -/
  wraps : Wraps s
  /-- The current page exists. -/
  valid : s.archivePageNum<128

/-- A cut behind the pointer leaves the chip of the page start. -/
theorem cutAdd_pointer (hs : Starts s) :
    (cutAdd (ptrCmds env s hs.valid).length env record s).zd25=(startPage env s).zd25 := by
  rw [cutAdd,addCmds_wraps env record hs.aligned hs.log hs.wraps hs.valid,
    startPage_zd25 env hs.log hs.valid,List.take_left]

/-- A cut behind the erase of the new page leaves that page empty. -/
theorem cutAdd_erase (hs : Starts s)
    (hused : dataSlot s.zd25.mem (next 128 s.archivePageNum) 0≠blankSlot) :
    (cutAdd ((ptrCmds env s hs.valid).length+1) env record s).zd25=
      (clearArchivePage (next 128 s.archivePageNum) (startPage env s)).zd25 := by
  have hr := ((recCmds_eq env record hs.log hs.valid).2 hused).2
  have ht : (ptrCmds env s hs.valid++recCmds env record s).take ((ptrCmds env s hs.valid).length+1)=
      ptrCmds env s hs.valid++[.erase (next 128 s.archivePageNum+1)] := by
    rw [List.take_length_add_append,hr]
  rw [cutAdd,addCmds_wraps env record hs.aligned hs.log hs.wraps hs.valid,ht,clearArchivePage_zd25,
    startPage_zd25 env hs.log hs.valid,Chip.issue_eq_issueAll,Chip.issueAll_issueAll]

/-- A cut behind the erase of the pointer log leaves the log empty. -/
theorem cutAdd_log (hs : Starts s) (hused : ¬NextFree s) :
    (cutAdd 1 env record s).zd25=s.zd25.issue 4096 (.erase 0) := by
  obtain ⟨hl,ht⟩ := (ptrCmds_eq env hs.valid).2 hused
  rw [cutAdd,addCmds_wraps env record hs.aligned hs.log hs.wraps hs.valid,
    List.take_append_of_le_length (by omega),ht,Chip.issue_eq_issueAll]

/-- An add is the execution of its commands. -/
theorem cutAdd_all {j : ℕ} (hj : (addCmds env record s).length≤j) (hs : Starts s) :
    (cutAdd j env record s).zd25=(addRecordToArchive env record s).zd25 := by
  rw [cutAdd,List.take_of_length_le hj,addCmds_wraps env record hs.aligned hs.log hs.wraps hs.valid,
    addRecordToArchive_issueAll env record hs.aligned hs.log hs.wraps hs.valid]

/-- The chips that a cut of a page start can leave. -/
theorem cutAdd_cases (hs : Starts s) (j : ℕ) :
    (cutAdd j env record s).zd25=s.zd25 ∨
    (cutAdd j env record s).zd25=s.zd25.issue 4096 (.erase 0) ∨
    (cutAdd j env record s).zd25=(startPage env s).zd25 ∨
    (cutAdd j env record s).zd25=
      (clearArchivePage (next 128 s.archivePageNum) (startPage env s)).zd25 ∨
    (cutAdd j env record s).zd25=(addRecordToArchive env record s).zd25 := by
  obtain ⟨hfree,hfull⟩ := ptrCmds_eq env hs.valid
  obtain ⟨hblank,hused⟩ := recCmds_eq env record hs.log hs.valid
  have hlen : (addCmds env record s).length=
      (ptrCmds env s hs.valid).length+(recCmds env record s).length := by
    rw [addCmds_wraps env record hs.aligned hs.log hs.wraps hs.valid,List.length_append]
  by_cases h0 : j=0
  · left
    rw [h0,cutAdd,List.take_zero]
    exact congrArg (Chip.mk s.zd25.mem) (List.append_nil _)
  by_cases hall : (addCmds env record s).length≤j
  · exact Or.inr (Or.inr (Or.inr (Or.inr (cutAdd_all env record hall hs))))
  by_cases hptr : j=(ptrCmds env s hs.valid).length
  · rw [hptr]
    exact Or.inr (Or.inr (Or.inl (cutAdd_pointer env record hs)))
  by_cases hlt : j<(ptrCmds env s hs.valid).length
  · have hf : ¬NextFree s := fun hf => by
      have h1 := hfree hf
      omega
    have hj : j=1 := by
      have h2 := (hfull hf).1
      omega
    rw [hj]
    exact Or.inr (Or.inl (cutAdd_log env record hs hf))
  · have hb : dataSlot s.zd25.mem (next 128 s.archivePageNum) 0≠blankSlot := fun hb => by
      have h1 := hblank hb
      omega
    have hj : j=(ptrCmds env s hs.valid).length+1 := by
      have h2 := (hused hb).1
      omega
    rw [hj]
    exact Or.inr (Or.inr (Or.inr (Or.inl (cutAdd_erase env record hs hb))))

/-- The slots of the log and of the data pages after the pointer has been
appended. -/
theorem startPage_slots (hs : Starts s) (hfree : NextFree s) :
    (∀ i<512,ptrSlot (startPage env s).zd25.mem i=
      if i=logIndex s then encodePtr (nextPtr env s hs.valid) else ptrSlot s.zd25.mem i) ∧
    ∀ q i,dataSlot (startPage env s).zd25.mem q i=dataSlot s.zd25.mem q i := by
  constructor
  · intro i hi
    have hp := ptrSlot_createNewPagePtr (s:={s with archivePageNum := next 128 s.archivePageNum})
      env (nextPtr env s hs.valid) hs.log rfl hi
    have hf : ptrSlot s.zd25.mem (logIndex s)=blank 8 := hfree
    change ptrSlot (startPage env s).zd25.mem i=if i=logIndex s then encodePtr (nextPtr env s hs.valid)
      else if ptrSlot s.zd25.mem (logIndex s)=blank 8 then ptrSlot s.zd25.mem i else blank 8 at hp
    rwa [if_pos hf] at hp
  · exact dataSlot_createNewPagePtr (s:={s with archivePageNum := next 128 s.archivePageNum}) env
      (nextPtr env s hs.valid) hs.log rfl

/-- The log after the pointer has been appended. -/
theorem logHolds_startPage (hs : Starts s) (hl : LogInv s older newest stale)
    (hfree : NextFree s) :
    LogHolds (startPage env s).zd25.mem (older++[newest]++[nextPtr env s hs.valid]) := by
  obtain ⟨hst,hfull,_⟩ := hl.nextFree hfree
  have hh := hl.holds
  rw [hst,List.append_nil] at hh
  have hlen : (older++[newest]).length=older.length+1 := by
    rw [List.length_append,List.length_singleton]
  have hc := LogHolds.createNewPagePtr env
    (s:={s with archivePageNum := next 128 s.archivePageNum}) (nextPtr env s hs.valid) hh (by simp)
    (by rw [hlen]; exact hl.offset) rfl
  rwa [hlen,if_pos hfull] at hc

/-- The chips that a cut of a page start with a free log slot can leave: the
pointer is in the log and the current page is as before. -/
theorem cutAdd_hidden (hs : Starts s) (hl : LogInv s older newest stale) (hlay : Layout s h)
    (hfree : NextFree s) {j : ℕ} (h0 : 0<j) (hj : j<(addCmds env record s).length) :
    LogHolds (cutAdd j env record s).zd25.mem (older++[newest]++[nextPtr env s hs.valid]) ∧
      Layout (cutAdd j env record s) h := by
  have hlog := logHolds_startPage env hs hl hfree
  have hdata := (startPage_slots env hs hfree).2
  have hf := (wraps_iff_filled hs.aligned).mp hs.wraps
  have hpl := (ptrCmds_eq env hs.valid).1 hfree
  obtain ⟨hblank,hused⟩ := recCmds_eq env record hs.log hs.valid
  rw [addCmds_wraps env record hs.aligned hs.log hs.wraps hs.valid,List.length_append,hpl] at hj
  by_cases hj1 : j=1
  · have hz := cutAdd_pointer env record hs
    rw [hpl] at hz
    have he : cutAdd 1 env record s={s with zd25 := (startPage env s).zd25} := by rw [←hz]; rfl
    rw [hj1,he]
    refine ⟨hlog,hlay.withChip hf (fun i _ => hdata _ i) fun q hq hb i hi => ?_⟩
    rw [hdata] at hb
    rw [hdata]
    exact hlay.pages q hq hb i hi
  · have hne : dataSlot s.zd25.mem (next 128 s.archivePageNum) 0≠blankSlot := by
      intro hb
      rw [hblank hb] at hj
      omega
    have hj2 : j=2 := by
      rw [(hused hne).1] at hj
      omega
    have hz := cutAdd_erase env record hs hne
    rw [hpl] at hz
    have he : cutAdd 2 env record s=
        {s with zd25 := (clearArchivePage (next 128 s.archivePageNum) (startPage env s)).zd25} := by
      rw [←hz]
      rfl
    have hd := fun q i hi => dataSlot_clearArchivePage (next 128 s.archivePageNum)
      (startPage env s) (q:=q) (i:=i) hi
    rw [hj2,he]
    refine ⟨⟨hlog.fits,?_,?_⟩,hlay.withChip hf (fun i hi => ?_) fun q hq hb i hi => ?_⟩
    · intro i hi
      rw [ptrSlot_clearArchivePage _ _ (lt_of_lt_of_le hi hlog.fits)]
      exact hlog.used i hi
    · intro i hi h512
      rw [ptrSlot_clearArchivePage _ _ h512]
      exact hlog.free i hi h512
    · rw [hd _ i hi,if_neg next_ne_self.symm,hdata]
    · rw [hd q 0 (by omega)] at hb
      rw [hd q i hi]
      split
      · rfl
      · rename_i hq'
        rw [if_neg hq',hdata] at hb
        rw [hdata]
        exact hlay.pages q hq hb i hi

end Chips

theorem lifeInv_start (env₀ : Env) : LifeInv (start env₀) [] :=
  ⟨[],_,[],logInv_start env₀,layout_start env₀,fun _ => rfl,fun hne => absurd rfl hne⟩

section Step

variable {s : Archive} {h : List StoredRecord}

/-- clear_archive starts an empty history. -/
theorem LifeInv.clear (hi : LifeInv s h) (env : Env)
    (hlast : ∀ i<256,0 < i → Dead (dataSlot s.zd25.mem 127 i)) : LifeInv (clearArchive env s) [] := by
  obtain ⟨older,newest,stale,hl,hlay,_,_⟩ := hi
  exact ⟨[],_,[],LogInv.of_clear env hl.holds.restartable,Layout.of_clear env hlay.pages hlast,
    fun _ => rfl,fun hne => absurd rfl hne⟩

/-- Without a record the last page holds none behind its first slot. -/
theorem Layout.last_dead (hl : Layout s []) (hp : s.archivePageNum=0) {i : ℕ} (hi : i<256)
    (h0 : 0 < i) : Dead (dataSlot s.zd25.mem 127 i) := by
  have hf : filled s=0 := Nat.le_zero.mp hl.depth
  have hn := filled_eq_zero.mp hf
  have hw := hl.ram.window (255-i) (by rw [inView,hn,Option.elim_none]; omega)
  have hb : behind 256 (lastSlot s) (255-i)=i := by
    rw [lastSlot,hn,Option.elim_none]
    unfold behind
    split <;> omega
  rw [hb,List.getElem?_nil] at hw
  have hs := hl.before i hi (by omega) h0
  rw [hp] at hs
  exact hs.shows none hw

/-- A reboot keeps the history. -/
theorem LifeInv.reboot (hi : LifeInv s h) {env : Env} (hstack : RejectsBlank env.stack) :
    LifeInv (reboot env s) h := by
  obtain ⟨older,newest,stale,hl,hlay,hempty,hused⟩ := hi
  by_cases h0 : newest.time=0
  · have hn : h=[] := by
      by_contra hne
      exact hused hne h0
    subst hn
    have hp : s.archivePageNum=0 := hl.page.symm.trans (hempty rfl)
    have hz := (searchLastRecord_vars (powerUp s)).1
    refine ⟨[],_,[],(hl.reboot_not_found env h0).1,?_,fun _ => rfl,fun hne => absurd rfl hne⟩
    rw [reboot_of_not_found (hl.search_not_found h0)]
    apply Layout.of_clear env
    · rw [hz]
      exact hlay.pages
    · rw [hz]
      exact fun i hi hpos => Layout.last_dead hlay hp hi hpos
  · obtain ⟨hl',hlay'⟩ := reboot_keeps hl h0 hlay hstack
    exact ⟨older,newest,stale,hl',hlay',hempty,hused⟩

theorem starts_of_layout {older stale : List PagePtr} {newest : PagePtr}
    (hl : LogInv s older newest stale) (hlay : Layout s h) (hw : Wraps s) : Starts s :=
  ⟨hl.aligned,by rw [LogAligned,hl.offset]; omega,hw,hlay.valid⟩

/-- A completed add pushes its record on the history. -/
theorem LifeInv.add (hi : LifeInv s h) (env : Env) (record : MessageRecord)
    (hc : EventOk s (env,.add record)) :
    LifeInv (addRecordToArchive env record s) (stored record::h) := by
  obtain ⟨older,newest,stale,hl,hlay,_,_⟩ := hi
  simp only [EventOk,archivePageSize] at hc
  by_cases hw : Wraps s
  · rw [if_pos hw,hl.offset,hl.lastTime_eq] at hc
    have hst : stale=[] := by
      by_cases hfull : older.length+1<512
      · exact (hl.nextFree (hc.2 (by omega)).1).1
      · have hfits := hl.holds.fits
        simp only [List.length_append,List.length_singleton] at hfits
        exact List.length_eq_zero_iff.mp (by omega)
    subst hst
    exact ⟨_,_,[],hl.add_wraps_later env record hw hlay.valid fun hlt => (hc.2 (by omega)).2,
      hlay.add_wraps env record (starts_of_layout hl hlay hw).log hw,
      fun hn => absurd hn (List.cons_ne_nil _ _),fun _ => hc.1⟩
  · rw [if_neg hw,hl.lastTime_eq] at hc
    exact ⟨older,newest,stale,(hl.add_not_wraps env record hw).1,
      hlay.add_not_wraps env record hw,fun hn => absurd hn (List.cons_ne_nil _ _),fun _ => hc⟩

/-- A cut of a page start that goes unnoticed keeps the history. -/
theorem LifeInv.cut (hi : LifeInv s h) {env : Env} {record : MessageRecord} {j : ℕ} (h0 : 0<j)
    (hj : j<(addCmds env record s).length) (hc : Wraps s → StartHidden env s) :
    LifeInv (cutAdd j env record s) h := by
  obtain ⟨older,newest,stale,hl,hlay,hempty,hused⟩ := hi
  by_cases hw : Wraps s
  · obtain ⟨hfree,htime⟩ := hc hw
    obtain ⟨hlog,hlay'⟩ := cutAdd_hidden env record (starts_of_layout hl hlay hw) hl hlay hfree h0 hj
    rw [hl.lastTime_eq] at htime
    refine ⟨older,newest,[nextPtr env s hlay.valid],⟨hlog,hl.aligned,hl.offset,hl.page,hl.pointer,
      hl.below,?_⟩,hlay',hempty,hused⟩
    intro e he
    rw [List.mem_singleton.mp he]
    exact htime
  · rw [addCmds_not_wraps env record hl.aligned hw (next_blank hlay hw),List.length_singleton] at hj
    omega

/-- Every event that meets the condition keeps the invariant. -/
theorem LifeInv.step (hi : LifeInv s h) (o : Env×Event) (hc : EventOk s o) :
    LifeInv (eventStep s o) (completeStep h o) := by
  obtain ⟨env,ev⟩ := o
  cases ev with
  | add record => exact hi.add env record hc
  | reboot => exact hi.reboot hc
  | clear => exact hi.clear env fun i hlt hpos => Or.inr (hc i hlt hpos)
  | cut record j rebootEnv =>
    obtain ⟨h0,hj,hstack,hhid⟩ := hc
    exact (hi.cut h0 hj fun _ => hhid).reboot hstack

end Step

/-- The invariant holds after all events that meet the condition. -/
theorem lifeInv_life {env₀ : Env} {evs : List (Env×Event)}
    (h : InputsMeet (fun pre o => EventOk (life env₀ pre) o) evs) :
    LifeInv (life env₀ evs) (completed evs) := by
  have h0 : LifeInv (life env₀ []) (completed []) := by
    rw [life_nil]
    exact lifeInv_start env₀
  have hstep : ∀ pre o,LifeInv (life env₀ pre) (completed pre) → EventOk (life env₀ pre) o →
      LifeInv (life env₀ (pre++[o])) (completed (pre++[o])) := by
    intro pre o hi hc
    rw [life_concat,completed_concat]
    exact hi.step o hc
  exact @inv_of_inputsMeet _ (fun evs => LifeInv (life env₀ evs) (completed evs)) _ h0 hstep evs h

section Lost

variable {s : Archive} {h : List StoredRecord} {older stale : List PagePtr} {newest : PagePtr}

/-- Without a last slot nothing is returned. -/
theorem not_survives_of_null {s' : Archive} {stack : Mem UInt8} (hn : s'.lastRecPtr=none)
    (hh : h≠[]) : ¬Survives stack s' h := by
  intro hs
  have h0 := hs 0 (by omega)
  rw [getRecordWithOffsetFromLast,hn,List.getElem?_eq_getElem (List.length_pos_iff.mpr hh)] at h0
  cases h0

/-- When the log slot is in use, a cut behind the erase of the log leaves no
pointer, and the archive is cleared. -/
theorem lost_of_log_used (hs : Starts s) (env env' : Env) (record : MessageRecord)
    (hused : ¬NextFree s) : (reboot env' (cutAdd 1 env record s)).lastRecPtr=none := by
  have hz := cutAdd_log env record hs hused
  have hlog : LogHolds (powerUp (cutAdd 1 env record s)).zd25.mem [] := by
    refine ⟨Nat.zero_le _,fun i hi => absurd hi (Nat.not_lt_zero i),fun i _ hi => ?_⟩
    change ptrSlot (cutAdd 1 env record s).zd25.mem i=blank 8
    rw [hz]
    exact load_erase_inside (by omega) (by omega)
  have hf : (searchLastRecord (powerUp (cutAdd 1 env record s))).1.foundFlag=false := by
    rw [searchLastRecord_fst hlog]
    rfl
  rw [reboot_of_not_found hf]
  exact clearArchive_lastRecPtr env' _

/-- Just before its first record is programmed, the started page is erased. -/
theorem cutAdd_last_blank (hs : Starts s) (env : Env) (record : MessageRecord)
    (hfree : NextFree s) :
    1<(addCmds env record s).length ∧
      dataSlot (cutAdd ((addCmds env record s).length-1) env record s).zd25.mem
        (next 128 s.archivePageNum) 0=blankSlot := by
  have hdata := (startPage_slots env hs hfree).2
  have hpl := (ptrCmds_eq env hs.valid).1 hfree
  obtain ⟨hblank,hused⟩ := recCmds_eq env record hs.log hs.valid
  rw [addCmds_wraps env record hs.aligned hs.log hs.wraps hs.valid,List.length_append,hpl]
  by_cases hb : dataSlot s.zd25.mem (next 128 s.archivePageNum) 0=blankSlot
  · have hz := cutAdd_pointer env record hs
    rw [hpl] at hz
    rw [hblank hb,hz,hdata]
    exact ⟨by omega,hb⟩
  · have hz := cutAdd_erase env record hs hb
    rw [hpl] at hz
    rw [(hused hb).1,hz,dataSlot_clearArchivePage _ _ (by omega),if_pos rfl]
    exact ⟨by omega,rfl⟩

/-- When the new pointer is the latest, a cut before the first record of the
page reopens a page without records. -/
theorem lost_of_later (hs : Starts s) (hl : LogInv s older newest stale) (hlay : Layout s h)
    (env env' : Env) (record : MessageRecord) (hfree : NextFree s)
    (hlater : newest.time<timeToUint32 env.rtc) (hstack : RejectsBlank env'.stack) :
    (reboot env' (cutAdd ((addCmds env record s).length-1) env record s)).lastRecPtr=none := by
  obtain ⟨hn,hblank⟩ := cutAdd_last_blank hs env record hfree
  obtain ⟨hlog,_⟩ := cutAdd_hidden (h:=h) env record hs hl hlay hfree
    (j:=(addCmds env record s).length-1) (by omega) (by omega)
  generalize (addCmds env record s).length-1=j at hblank hlog
  have h0 : (nextPtr env s hs.valid).time≠0 :=
    UInt32.pos_iff_ne_zero.mp (UInt32.lt_of_le_of_lt UInt32.zero_le hlater)
  have hfound := searchLastRecord_fst (s:=powerUp (cutAdd j env record s)) hlog
  rw [scan_last _ h0 fun e he => by
    rcases List.mem_append.mp he with ho|hne
    · exact UInt32.lt_trans (hl.below e ho) hlater
    · rw [List.mem_singleton.mp hne]
      exact hlater] at hfound
  have hr := reopened env' (next 128 s.archivePageNum) (searchLastRecord (powerUp (cutAdd j env record s))).2
  have he : reboot env' (cutAdd j env record s)=reopenPage env' (next 128 s.archivePageNum)
      (searchLastRecord (powerUp (cutAdd j env record s))).2 := by
    rw [reboot_of_found (by rw [hfound]),hfound]
    rfl
  rw [(searchLastRecord_vars (powerUp (cutAdd j env record s))).1,←he] at hr
  refine filled_eq_zero.mp (hr.filled_eq (by omega) (fun i hi => by omega) fun _ => ?_)
  change checkSlot env'.stack (dataSlot (cutAdd j env record s).zd25.mem _ 0)=false
  rw [hblank]
  exact hstack

/-- A page start that would be noticed loses the history at some cut. -/
theorem lost_of_not_hidden (hi : LifeInv s h) (hw : Wraps s) (env env' : Env)
    (record : MessageRecord) (hstack : RejectsBlank env'.stack) (hc : ¬StartHidden env s) :
    h≠[] ∧ ∃ j,0<j ∧ j<(addCmds env record s).length ∧
      (reboot env' (cutAdd j env record s)).lastRecPtr=none := by
  obtain ⟨older,newest,stale,hl,hlay,_,_⟩ := hi
  have hs := starts_of_layout hl hlay hw
  have hh : h≠[] := by
    intro hn
    have hd := hlay.depth
    rw [(wraps_iff_filled hs.aligned).mp hw,hn] at hd
    exact absurd hd (by decide)
  refine ⟨hh,?_⟩
  by_cases hfree : NextFree s
  · have hlater : newest.time<timeToUint32 env.rtc := by
      rw [←hl.lastTime_eq]
      exact UInt32.not_le.mp fun hle => hc ⟨hfree,hle⟩
    obtain ⟨hn,_⟩ := cutAdd_last_blank hs env record hfree
    exact ⟨_,by omega,by omega,lost_of_later hs hl hlay env env' record hfree hlater hstack⟩
  · have hpl := ((ptrCmds_eq env hs.valid).2 hfree).1
    refine ⟨1,by omega,?_,lost_of_log_used hs env env' record hfree⟩
    rw [addCmds_wraps env record hs.aligned hs.log hs.wraps hs.valid,List.length_append,hpl]
    omega

end Lost

/-- After any life whose events meet the condition, all the losses of power
inside the next add leave the 255 newest completed records in place exactly
when the add starts no page, or starts one whose pointer goes unnoticed. -/
theorem survives_cuts_iff_hidden (env₀ env : Env) (evs : List (Env×Event))
    (record : MessageRecord) (hevs : InputsMeet (fun pre o => EventOk (life env₀ pre) o) evs) :
    (∀ j env' stack,0<j → j<(addCmds env record (life env₀ evs)).length →
      RejectsBlank env'.stack → RejectsBlank stack →
      Survives stack (reboot env' (cutAdd j env record (life env₀ evs))) (completed evs)) ↔
    (Wraps (life env₀ evs) → StartHidden env (life env₀ evs)) := by
  have hi := lifeInv_life hevs
  constructor
  · intro hall hw
    by_contra hc
    obtain ⟨hh,j,h0,hj,hnull⟩ :=
      lost_of_not_hidden hi hw env ⟨env.rtc,fun _ => 0⟩ record rejectsBlank_zero hc
    exact not_survives_of_null hnull hh
      (hall j ⟨env.rtc,fun _ => 0⟩ (fun _ => 0) h0 hj rejectsBlank_zero rejectsBlank_zero)
  · intro hc j env' stack h0 hj hstack' hstack k hk
    obtain ⟨_,_,_,_,hlay,_,_⟩ := (hi.cut h0 hj hc).reboot hstack'
    rw [getRecordWithOffsetFromLast_of_window hlay.ram (unread_dead hstack) k,
      Nat.mod_eq_of_lt (by omega)]

/-- Adds of one record alone. -/
theorem life_adds (env₀ : Env) (a : Env×MessageRecord) (n : ℕ) :
    life env₀ (List.replicate n (a.1,.add a.2))=
      run (start env₀) (addsOnly (List.replicate n a)) := by
  induction n with
  | zero => rfl
  | succ n ih =>
    rw [List.replicate_succ',List.replicate_succ',life_concat,addsOnly_concat,run_concat,ih]
    rfl

/-- While the first page is being filled the log keeps its one pointer. -/
theorem life_firstPage (env₀ : Env) (a : Env×MessageRecord) {n : ℕ} (hn : n ≤ 256) :
    LogInv (life env₀ (List.replicate n (a.1,.add a.2))) []
        ⟨timeToUint32 env₀.rtc,0,Nat.succ_pos 127⟩ [] ∧
      filled (life env₀ (List.replicate n (a.1,.add a.2)))=n := by
  have hpage := logInv_firstPage env₀ (List.replicate n a) (by rwa [List.length_replicate])
  rwa [List.length_replicate,←life_adds] at hpage

/-- Nothing is lost then. -/
theorem firstPage_meets (env₀ : Env) (h0 : timeToUint32 env₀.rtc≠0) (a : Env×MessageRecord)
    {n : ℕ} (hn : n ≤ 256) :
    InputsMeet (fun pre o => EventOk (life env₀ pre) o) (List.replicate n (a.1,.add a.2)) := by
  intro pre o post he
  obtain ⟨hlen,hpre,hpost⟩ := List.append_eq_replicate_iff.mp he
  rw [List.length_cons] at hlen hpost
  obtain rfl : o=(a.1,.add a.2) := (List.cons.inj hpost).1
  obtain ⟨hl,hf⟩ := life_firstPage env₀ a (show pre.length ≤ 256 by omega)
  rw [←hpre] at hl hf
  have hw : ¬Wraps (life env₀ pre) := fun hw => by
    rw [wraps_iff_filled hl.aligned,hf] at hw
    omega
  simp only [EventOk,if_neg hw,hl.lastTime_eq]
  exact h0

/-- A full first page. -/
def fullPage : List (Env×Event) := List.replicate 256 (started2024,.add plainRecord)

/-- The next add starts a page, whose pointer goes to the second slot of the log. -/
theorem fullPage_next : Wraps (life started2024 fullPage) ∧ NextFree (life started2024 fullPage) ∧
    lastTime (life started2024 fullPage)=timeToUint32 started2024.rtc := by
  obtain ⟨hl,hf⟩ := life_firstPage started2024 (started2024,plainRecord) le_rfl
  change LogInv (life started2024 fullPage) _ _ _ at hl
  have hindex : logIndex (life started2024 fullPage)=1 := by
    unfold logIndex
    rw [hl.offset]
    rfl
  refine ⟨(wraps_iff_filled hl.aligned).mpr hf,?_,hl.lastTime_eq⟩
  unfold NextFree
  rw [hindex]
  exact hl.holds.free 1 le_rfl (by omega)

/-- While the clock stands still, losses of power inside the start of the second
page leave the first page in place. -/
theorem survives_cuts_iff_hidden_fullPage : Wraps (life started2024 fullPage) ∧
    ∀ j env' stack,0<j → j<(addCmds started2024 plainRecord (life started2024 fullPage)).length →
      RejectsBlank env'.stack → RejectsBlank stack →
      Survives stack (reboot env' (cutAdd j started2024 plainRecord (life started2024 fullPage)))
        (completed fullPage) := by
  obtain ⟨hw,hfree,htime⟩ := fullPage_next
  refine ⟨hw,(survives_cuts_iff_hidden started2024 started2024 fullPage plainRecord
    (firstPage_meets started2024 (by decide) (started2024,plainRecord) le_rfl)).mpr fun _ => ?_⟩
  exact ⟨hfree,UInt32.le_of_eq htime.symm⟩

/-- A loss of power inside the add that starts the second page loses all 256
records of the first. -/
theorem fullPage_cut_lost :
    ¬∀ j env' stack,0<j → j<(addCmds year2025 plainRecord (life started2024 fullPage)).length →
      RejectsBlank env'.stack → RejectsBlank stack →
      Survives stack (reboot env' (cutAdd j year2025 plainRecord (life started2024 fullPage)))
        (completed fullPage) := by
  obtain ⟨hw,-,ht⟩ := fullPage_next
  have hi := lifeInv_life (firstPage_meets started2024 (by decide) (started2024,plainRecord) le_rfl)
  have hc : ¬StartHidden year2025 (life started2024 fullPage) := by
    intro hc
    have hle := hc.2
    rw [ht] at hle
    exact absurd hle (by decide)
  obtain ⟨hh,j,h0,hj,hnull⟩ :=
    lost_of_not_hidden hi hw year2025 started2024 plainRecord rejectsBlank_zero hc
  intro hall
  exact not_survives_of_null hnull hh
    (hall j started2024 (fun _ => 0) h0 hj rejectsBlank_zero rejectsBlank_zero)

end BT816Display.ArchiveCrash
