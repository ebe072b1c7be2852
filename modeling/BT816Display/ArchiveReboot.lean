import BT816Display.ArchiveReopen
import BT816Display.ArchiveLayout

/-!
# Reboots are invisible under an advancing clock

As long as the page pointers are stamped with nonzero increasing times, the
archive shows the records added, newest first, whatever reboots come between.
-/

namespace BT816Display.ArchiveReboot

open ByteMemory NorFlash Clock RingWindow Zd25Flash MessageArchive ArchiveSlots ArchiveRam
open ArchiveFlash ArchiveRun ArchiveLog ArchiveReopen ArchiveLayout

/-- The time stamps of the page pointers, oldest first. -/
def pointerTimes (calls : List Call) : List UInt32 :=
  calls.filterMap fun c => match c with
    | .newPagePtr _ time => some time
    | .clearArchive => none

/-- The page pointers carry nonzero, strictly increasing times. -/
structure AdvancingClock (calls : List Call) : Prop where
  /-- No time is zero. -/
  nonzero : ∀ t∈pointerTimes calls,t≠0
  /-- Every time is later than the ones before. -/
  increasing : (pointerTimes calls).Pairwise (·<·)

/-- The reboots of a run find a stack on which an erased slot is invalid. -/
def RebootsReject (ops : List (Env×Op)) : Prop :=
  ∀ o∈ops,o.2=.reboot → RejectsBlank o.1.stack

theorem AdvancingClock.of_append {calls more : List Call} (h : AdvancingClock (calls++more)) :
    AdvancingClock calls := by
  obtain ⟨h0,h1⟩ := h
  rw [pointerTimes,List.filterMap_append] at h0 h1
  exact ⟨fun t ht => h0 t (List.mem_append_left _ ht),(List.pairwise_append.mp h1).1⟩

/-- A further pointer of an advancing clock is later than the last one. -/
theorem AdvancingClock.last_lt {calls : List Call} {p : ℕ} {t : UInt32}
    (h : AdvancingClock (calls++[.newPagePtr p t])) : ∀ u∈pointerTimes calls,u<t := by
  intro u hu
  have h1 := h.increasing
  rw [pointerTimes,List.filterMap_append] at h1
  exact (List.pairwise_append.mp h1).2.2 u hu t (by simp)

/-- The time of the pointer written last is one of the pointer times. -/
theorem lastPointer_mem {calls : List Call} {p : ℕ} {t : UInt32}
    (h : lastPointer calls=some (p,t)) : t∈pointerTimes calls := by
  obtain ⟨c,hc,he⟩ := List.exists_of_findSome?_eq_some h
  cases c with
  | newPagePtr q u =>
    simp only [Option.some.injEq,Prod.mk.injEq] at he
    exact List.mem_filterMap.mpr ⟨_,List.mem_reverse.mp hc,congrArg some he.2⟩
  | clearArchive => cases he

/-- What holds throughout a run with an advancing clock. -/
def RunInv (s : Archive) (h : List StoredRecord) : Prop :=
  ∃ older newest,LogInv s older newest [] ∧ newest.time≠0 ∧ Layout s h

theorem layout_start (env₀ : Env) : Layout (start env₀) [] := by
  rw [start_eq_clear]
  have hb : ∀ q i,dataSlot (searchLastRecord (powerUp factoryArchive)).2.zd25.mem q i=blankSlot := by
    intro q i
    rw [(searchLastRecord_vars _).1]
    exact load_eq_blank_iff.mpr fun _ _ => rfl
  exact Layout.of_clear env₀ (fun q _ _ i _ => hb q i) fun i _ _ => Or.inr (hb 127 i)

section Reboot

variable {s : Archive} {h : List StoredRecord} {older stale : List PagePtr} {newest : PagePtr}

/-- A reboot that finds the newest pointer reopens the current page. -/
theorem reboot_reopened (hl : LogInv s older newest stale) (h0 : newest.time≠0) (env : Env) :
    Reopened env.stack s.zd25.mem s.archivePageNum (reboot env s) := by
  have hs := hl.search_found h0
  have hr := reopened env newest.page (searchLastRecord (powerUp s)).2
  have he : reboot env s=reopenPage env newest.page (searchLastRecord (powerUp s)).2 := by
    rw [reboot_of_found (by rw [hs]),hs]
  rwa [(searchLastRecord_vars (powerUp s)).1,←he,hl.page] at hr

/-- It keeps the log and the layout. -/
theorem reboot_keeps (hl : LogInv s older newest stale) (h0 : newest.time≠0) (hlay : Layout s h)
    {env : Env} (hstack : RejectsBlank env.stack) :
    LogInv (reboot env s) older newest stale ∧ Layout (reboot env s) h := by
  obtain ⟨hl',_,hz⟩ := hl.reboot_found env h0
  exact ⟨hl',hlay.reopen (reboot_reopened hl h0 env) hz (hl'.page.symm.trans hl.page) hstack⟩

end Reboot

/-- A reboot keeps the invariant and the history. -/
theorem RunInv.reboot {s : Archive} {h : List StoredRecord} (hi : RunInv s h) {env : Env}
    (hstack : RejectsBlank env.stack) : RunInv (reboot env s) h := by
  obtain ⟨older,newest,hl,h0,hlay⟩ := hi
  obtain ⟨hl',hlay'⟩ := reboot_keeps hl h0 hlay hstack
  exact ⟨older,newest,hl',h0,hlay'⟩

/-- An add keeps the invariant and pushes its record on the history. -/
theorem RunInv.add {s : Archive} {h : List StoredRecord} (hi : RunInv s h) (env : Env)
    (record : MessageRecord) (hc : AdvancingClock (addRecordToArchive env record s).calls) :
    RunInv (addRecordToArchive env record s) (stored record::h) := by
  obtain ⟨older,newest,hl,h0,hlay⟩ := hi
  by_cases hw : Wraps s
  · have hcalls : (addRecordToArchive env record s).calls=
        s.calls++[.newPagePtr (next 128 s.archivePageNum) (timeToUint32 env.rtc)] := by
      rw [(addRecordToArchive_vars env record s).2.2,nextSlot_wraps hw]
      rfl
    rw [hcalls] at hc
    have hlast := hc.last_lt _ (lastPointer_mem hl.pointer)
    exact ⟨_,_,hl.add_wraps_later env record hw hlay.valid fun _ => hlast,
      UInt32.pos_iff_ne_zero.mp (UInt32.lt_of_le_of_lt UInt32.zero_le hlast),
      hlay.add_wraps env record (by rw [LogAligned,hl.offset]; omega) hw⟩
  · exact ⟨older,newest,(hl.add_not_wraps env record hw).1,h0,hlay.add_not_wraps env record hw⟩

/-- A step only adds calls. -/
theorem calls_step (s : Archive) (o : Env×Op) : ∃ more,(step s o).calls=s.calls++more := by
  obtain ⟨env,op⟩ := o
  cases op with
  | add record =>
    dsimp only [step]
    rw [(addRecordToArchive_vars env record s).2.2]
    unfold nextSlot
    split
    · exact ⟨[],(List.append_nil _).symm⟩
    · dsimp only
      split
      · exact ⟨_,rfl⟩
      · exact ⟨[],(List.append_nil _).symm⟩
  | reboot =>
    dsimp only [step]
    cases hf : (searchLastRecord (powerUp s)).1.foundFlag with
    | false =>
      rw [reboot_of_not_found hf,(clearArchive_vars env _).2.2,(searchLastRecord_vars _).2.1,
        List.append_assoc]
      exact ⟨_,rfl⟩
    | true =>
      rw [reboot_of_found hf,(reopenPage_vars env _ _).2.2.1,(searchLastRecord_vars _).2.1]
      exact ⟨[],(List.append_nil _).symm⟩

/-- The invariant holds after every run with an advancing clock, and the
history is that of the records added. -/
theorem runInv_run (env₀ : Env) (ops : List (Env×Op))
    (hc : AdvancingClock (run (start env₀) ops).calls) (hr : RebootsReject ops) :
    RunInv (run (start env₀) ops) (added ops).reverse := by
  induction ops using List.reverseRecOn with
  | nil =>
    rw [run_nil] at hc ⊢
    have hl := logInv_start env₀
    exact ⟨[],_,hl,hc.nonzero _ (lastPointer_mem hl.pointer),layout_start env₀⟩
  | append_singleton ops o ih =>
    rw [run_concat] at hc ⊢
    obtain ⟨more,hmore⟩ := calls_step (run (start env₀) ops) o
    have hi := ih (AdvancingClock.of_append (hmore ▸ hc))
      fun o' ho' => hr o' (List.mem_append_left _ ho')
    obtain ⟨env,op⟩ := o
    cases op with
    | add record =>
      rw [added_concat_add,List.reverse_append,List.reverse_singleton,List.singleton_append]
      exact hi.add env record hc
    | reboot =>
      rw [added_concat_reboot]
      exact hi.reboot (hr (env,.reboot) (by simp) rfl)

/-- Counting and reading show the history, newest record first, up to 256
records. -/
def ShowsHistory (stack : Mem UInt8) (s : Archive) (h : List StoredRecord) : Prop :=
  getArchiveRecordsCnt stack s=min h.length 256 ∧
    ∀ k<256,getRecordWithOffsetFromLast stack k s=h[k]?.map view

theorem showsHistory_of_window {s : Archive} {h : List StoredRecord} {stack : Mem UInt8}
    (hw : RamWindow Dead s h) (hstack : RejectsBlank stack) : ShowsHistory stack s h := by
  refine ⟨getArchiveRecordsCnt_of_window hw (unread_dead hstack),fun k hk => ?_⟩
  rw [getRecordWithOffsetFromLast_of_window hw (unread_dead hstack) k,Nat.mod_eq_of_lt hk]

/-- With an advancing clock the archive shows the records added after any run
of adds and reboots; one more reboot changes neither the count nor any record
returned; and the records added after it continue the history. -/
theorem reboot_invisible (env₀ env : Env) (ops : List (Env×Op)) (stack : Mem UInt8)
    (hclock : AdvancingClock (run (start env₀) ops).calls) (hreboots : RebootsReject ops)
    (henv : RejectsBlank env.stack) (hstack : RejectsBlank stack) :
    let s := run (start env₀) ops
    ShowsHistory stack s (added ops).reverse ∧
    (getArchiveRecordsCnt stack (reboot env s)=getArchiveRecordsCnt stack s ∧
      ∀ k,getRecordWithOffsetFromLast stack k (reboot env s)=
        getRecordWithOffsetFromLast stack k s) ∧
    ∀ more,AdvancingClock (run (reboot env s) more).calls → RebootsReject more →
      ShowsHistory stack (run (reboot env s) more) ((added more).reverse++(added ops).reverse) := by
  have hE := unread_dead hstack
  have hi := runInv_run env₀ ops hclock hreboots
  obtain ⟨_,_,_,_,hlay'⟩ := hi.reboot henv
  obtain ⟨_,_,_,_,hlay⟩ := hi
  dsimp only
  refine ⟨showsHistory_of_window hlay.ram hstack,⟨?_,fun k => ?_⟩,fun more hmore hrej => ?_⟩
  · rw [getArchiveRecordsCnt_of_window hlay.ram hE,getArchiveRecordsCnt_of_window hlay'.ram hE]
  · rw [getRecordWithOffsetFromLast_of_window hlay.ram hE k,
      getRecordWithOffsetFromLast_of_window hlay'.ram hE k]
  · have hrun : run (reboot env (run (start env₀) ops)) more=
        run (start env₀) (ops++[(env,.reboot)]++more) := by
      rw [run_append,run_concat]
      rfl
    rw [hrun] at hmore ⊢
    obtain ⟨_,_,_,_,hlay''⟩ := runInv_run env₀ (ops++[(env,.reboot)]++more) hmore (by
      intro o ho
      rcases List.mem_append.mp ho with hl|hm
      · rcases List.mem_append.mp hl with ho'|he
        · exact hreboots o ho'
        · rw [List.mem_singleton.mp he]
          exact fun _ => henv
      · exact hrej o hm)
    rw [added_append,added_concat_reboot,List.reverse_append] at hlay''
    exact showsHistory_of_window hlay''.ram hstack

/-! ## A run over a page start -/

/-- Records of the current page, and the times of the pointers so far. -/
structure Counted (s : Archive) (n : ℕ) (times : List UInt32) : Prop where
  /-- The filled slots of the current page. -/
  filled : ArchiveRun.filled s=n
  /-- The page pointers carry these times. -/
  times : pointerTimes s.calls=times

section Counted

variable {s : Archive} {h : List StoredRecord} {n : ℕ} {times : List UInt32}

/-- The clock has advanced when the times have. -/
theorem Counted.advancing (hc : Counted s n times) (h0 : ∀ t∈times,t≠0)
    (h1 : times.Pairwise (·<·)) : AdvancingClock s.calls where
  nonzero := by
    rw [hc.times]
    exact h0
  increasing := by
    rw [hc.times]
    exact h1

/-- Adds that fill the first page. -/
theorem firstPage_counted (env₀ : Env) (adds : List (Env×MessageRecord)) (hn : adds.length ≤ 256) :
    Counted (run (start env₀) (addsOnly adds)) adds.length [timeToUint32 env₀.rtc] := by
  refine ⟨(logInv_firstPage env₀ adds hn).2,?_⟩
  induction adds using List.reverseRecOn with
  | nil =>
    rw [addsOnly_nil,run_nil,start_eq_clear,(clearArchive_vars env₀ _).2.2,
      (searchLastRecord_vars _).2.1]
    rfl
  | append_singleton adds a ih =>
    rw [List.length_append,List.length_singleton] at hn
    obtain ⟨hl,hf⟩ := logInv_firstPage env₀ adds (by omega)
    have hw : ¬Wraps (run (start env₀) (addsOnly adds)) := fun hw => by
      rw [wraps_iff_filled hl.aligned,hf] at hw
      omega
    rw [addsOnly_concat,run_concat,step,(hl.add_not_wraps a.1 a.2 hw).2]
    exact ih (by omega)

/-- A reboot counts the records of the current page. -/
theorem RunInv.reboot_counted (hi : RunInv s h) (hc : Counted s n times) {env : Env}
    (hstack : RejectsBlank env.stack) : Counted (MessageArchive.reboot env s) n times := by
  obtain ⟨older,newest,hl,h0,hlay⟩ := hi
  refine ⟨(hlay.reopen_filled (reboot_reopened hl h0 env) hstack).trans hc.filled,?_⟩
  rw [(hl.reboot_found env h0).2.1]
  exact hc.times

/-- A record goes behind those of the current page, or starts the next one. -/
theorem RunInv.add_counted (hi : RunInv s h) (hc : Counted s n times) (env : Env)
    (record : MessageRecord) : Counted (addRecordToArchive env record s)
      (if n=256 then 1 else n+1) (if n=256 then times++[timeToUint32 env.rtc] else times) := by
  obtain ⟨older,newest,hl,-,-⟩ := hi
  have hwraps : Wraps s ↔ n=256 := by rw [wraps_iff_filled hl.aligned,hc.filled]
  have hfilled := @filled_addRecordToArchive env record _ hl.aligned
  rw [hc.filled] at hfilled
  by_cases hw : Wraps s
  · rw [if_pos hw] at hfilled
    rw [if_pos (hwraps.mp hw),if_pos (hwraps.mp hw)]
    refine ⟨hfilled,?_⟩
    rw [(addRecordToArchive_vars env record s).2.2,nextSlot_wraps hw]
    change pointerTimes (s.calls++[.newPagePtr _ (timeToUint32 env.rtc)])=_
    rw [pointerTimes,List.filterMap_append]
    exact congrArg (·++[timeToUint32 env.rtc]) hc.times
  · rw [if_neg hw] at hfilled
    rw [if_neg (mt hwraps.mpr hw),if_neg (mt hwraps.mpr hw)]
    refine ⟨hfilled,?_⟩
    rw [(hl.add_not_wraps env record hw).2]
    exact hc.times

end Counted

theorem RebootsReject.concat {ops : List (Env×Op)} (h : RebootsReject ops) {o : Env×Op}
    (ho : o.2=.reboot → RejectsBlank o.1.stack) : RebootsReject (ops++[o]) := by
  intro o' ho'
  rcases List.mem_append.mp ho' with hold|hnew
  · exact h o' hold
  · rw [List.mem_singleton.mp hnew]
    exact ho

/-- Adds alone reboot nothing. -/
theorem addsOnly_rejects (adds : List (Env×MessageRecord)) : RebootsReject (addsOnly adds) := by
  intro o ho hreboot
  obtain ⟨a,-,rfl⟩ := List.mem_map.mp ho
  cases hreboot

/-- The clock a year later. -/
def year2025 : Env := ⟨⟨25,6,1,0,0,0⟩,fun _ => 0⟩

/-- A record of the second page. -/
def laterRecord : MessageRecord := {plainRecord with time := 1}

/-- A full page. -/
def firstPage : List (Env×Op) := addsOnly (List.replicate 256 (started2024,plainRecord))

/-- A full page, a reboot, the first record of the next page and another reboot. -/
def secondPage : List (Env×Op) :=
  firstPage++[(started2024,.reboot)]++[(year2025,.add laterRecord)]++[(year2025,.reboot)]

theorem reboot_invisible_secondPage :
    let s := run (start started2024) secondPage
    ShowsHistory (fun _ => 0) s (added secondPage).reverse ∧
    (getArchiveRecordsCnt (fun _ => 0) (reboot year2025 s)=getArchiveRecordsCnt (fun _ => 0) s ∧
      ∀ k,getRecordWithOffsetFromLast (fun _ => 0) k (reboot year2025 s)=
        getRecordWithOffsetFromLast (fun _ => 0) k s) ∧
    ShowsHistory (fun _ => 0)
      (run (reboot year2025 s) [(year2025,.add laterRecord),(year2025,.reboot)])
      (stored laterRecord::(added secondPage).reverse) := by
  have hstack := rejectsBlank_zero
  have hs2024 : RejectsBlank started2024.stack := hstack
  have hs2025 : RejectsBlank year2025.stack := hstack
  have hfirst : timeToUint32 started2024.rtc≠0 := by decide
  have hsecond : timeToUint32 year2025.rtc≠0 := by decide
  have h2024 : ∀ t∈[timeToUint32 started2024.rtc],t≠0 := List.forall_mem_singleton.mpr hfirst
  have h2025 : ∀ t∈[timeToUint32 started2024.rtc,timeToUint32 year2025.rtc],t≠0 :=
    List.forall_mem_cons.mpr ⟨hfirst,List.forall_mem_singleton.mpr hsecond⟩
  have hlater : [timeToUint32 started2024.rtc,timeToUint32 year2025.rtc].Pairwise (·<·) :=
    List.pairwise_pair.mpr (by decide)
  -- The first page, and the reboot behind it.
  have hc0 : Counted (run (start started2024) firstPage) 256 [timeToUint32 started2024.rtc] := by
    have hcounted := firstPage_counted started2024 (List.replicate 256 (started2024,plainRecord))
    rw [List.length_replicate] at hcounted
    exact hcounted le_rfl
  have hr0 : RebootsReject firstPage := addsOnly_rejects _
  have hi0 := runInv_run started2024 firstPage
    (hc0.advancing h2024 (List.pairwise_singleton _ _)) hr0
  have hc1 := hi0.reboot_counted hc0 hs2024
  have hi1 := hi0.reboot hs2024
  -- The start of the second page, and the reboot behind it.
  have hc2 := hi1.add_counted hc1 year2025 laterRecord
  have hi2 := hi1.add year2025 laterRecord (hc2.advancing h2025 hlater)
  have hc3 := hi2.reboot_counted hc2 hs2025
  have hi3 := hi2.reboot hs2025
  -- What comes behind one more reboot.
  have hc4 := hi3.reboot_counted hc3 hs2025
  have hi4 := hi3.reboot hs2025
  have hc5 := hi4.add_counted hc4 year2025 laterRecord
  have hi5 := hi4.add year2025 laterRecord (hc5.advancing h2025 hlater)
  have hc6 := hi5.reboot_counted hc5 hs2025
  have hrun : run (start started2024) secondPage=reboot year2025 (addRecordToArchive year2025
      laterRecord (reboot started2024 (run (start started2024) firstPage))) := by
    rw [secondPage,run_concat,run_concat,run_concat]
    rfl
  have hrejects : RebootsReject secondPage := by
    unfold secondPage
    have hreboot := hr0.concat (o:=(started2024,.reboot)) fun _ => hs2024
    have hadd := hreboot.concat (o:=(year2025,.add laterRecord)) fun he => by cases he
    exact hadd.concat (o:=(year2025,.reboot)) fun _ => hs2025
  obtain ⟨hshows,hsame,hmore⟩ := reboot_invisible started2024 year2025 secondPage (fun _ => 0)
    (hrun ▸ hc3.advancing h2025 hlater) hrejects hs2025 hstack
  have hnext : ShowsHistory (fun _ => 0)
      (run (reboot year2025 (run (start started2024) secondPage))
        [(year2025,.add laterRecord),(year2025,.reboot)])
      ([stored laterRecord]++(added secondPage).reverse) := by
    refine hmore [(year2025,.add laterRecord),(year2025,.reboot)] ?_ ?_
    · rw [hrun,run,List.foldl_cons,List.foldl_cons,List.foldl_nil,step,step]
      exact hc6.advancing h2025 hlater
    · exact (addsOnly_rejects [(year2025,laterRecord)]).concat (o:=(year2025,.reboot))
        fun _ => hs2025
  rw [List.singleton_append] at hnext
  exact ⟨hshows,hsame,hnext⟩

end BT816Display.ArchiveReboot
