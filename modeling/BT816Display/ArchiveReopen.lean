import BT816Display.ArchiveLog

/-!
# Which page a reboot reopens

Over every history of adds and reboots from an erased chip, init_archive
reopens the page of the pointer written last and keeps a nonempty archive
exactly as long as the clock readings at the page starts allow it.
-/

namespace BT816Display.ArchiveReopen

open ByteMemory NorFlash Clock RingWindow Runs Zd25Flash MessageArchive ArchiveSlots ArchiveRam
open ArchiveFlash ArchiveRun ArchiveLog

/-- The next init_archive reopens the page named by the pointer written last,
and does not call clear_archive when records have been completed. -/
def ReopensLast (s : Archive) (records : ℕ) : Prop :=
  ∀ env : Env,(lastPointer s.calls).map Prod.fst=some (reboot env s).archivePageNum ∧
    (0 < records → ∀ more,(reboot env s).calls=s.calls++more → Call.clearArchive∉more)

/-- The clock condition on one operation. A page pointer must be stamped with
a nonzero time above the one before it, unless the log is full and starts
again; the pointer of the first init_archive must be nonzero when the first
record is added. -/
def ClockAhead (s : Archive) (o : Env×Op) : Prop :=
  match o.2 with
  | .reboot => True
  | .add _ =>
    if Wraps s then
      timeToUint32 o.1.rtc≠0 ∧
        (s.offsetInPagePtrPage<archivePageSize → lastTime s<timeToUint32 o.1.rtc)
    else lastTime s≠0

/-- What holds after every history whose clock readings meet the condition. -/
def HistoryInv (env₀ : Env) (ops : List (Env×Op)) : Prop :=
  ∃ older newest,LogInv (run (start env₀) ops) older newest [] ∧
    (added ops=[] → newest.page=0) ∧ (added ops≠[] → newest.time≠0)

theorem next_ne_self {P : ℕ} : next 128 P≠P := by
  unfold next
  split <;> omega

/-- A history that meets the condition leaves an archive that is reopened. -/
theorem reopensLast_of_inv {env₀ : Env} {ops : List (Env×Op)} (h : HistoryInv env₀ ops) :
    ReopensLast (run (start env₀) ops) (added ops).length := by
  obtain ⟨older,newest,hl,hempty,hused⟩ := h
  intro env
  by_cases h0 : newest.time=0
  · obtain ⟨hr,hc⟩ := hl.reboot_not_found env h0
    have hn : added ops=[] := by
      by_contra hne
      exact hused hne h0
    rw [hl.pointer,Option.map_some,hempty hn,←hr.page]
    refine ⟨rfl,fun hpos => ?_⟩
    rw [hn] at hpos
    exact absurd hpos (Nat.lt_irrefl 0)
  · obtain ⟨hr,hc,_⟩ := hl.reboot_found env h0
    rw [hl.pointer,Option.map_some,hr.page]
    refine ⟨rfl,fun _ more hm => ?_⟩
    rw [hc,List.self_eq_append_right] at hm
    rw [hm]
    exact List.not_mem_nil

theorem added_concat_add (ops : List (Env×Op)) (env : Env) (record : MessageRecord) :
    added (ops++[(env,.add record)])=added ops++[stored record] := by
  rw [added_append]
  rfl

theorem added_concat_reboot (ops : List (Env×Op)) (env : Env) :
    added (ops++[(env,.reboot)])=added ops := by
  rw [added_append]
  exact List.append_nil _

/-- Every operation that meets the clock condition keeps the invariant. -/
theorem historyInv_step {env₀ : Env} (ops : List (Env×Op)) (o : Env×Op)
    (h : HistoryInv env₀ ops) (hc : ClockAhead (run (start env₀) ops) o) :
    HistoryInv env₀ (ops++[o]) := by
  obtain ⟨older,newest,hl,hempty,hused⟩ := h
  obtain ⟨env,op⟩ := o
  unfold HistoryInv
  rw [run_concat]
  cases op with
  | reboot =>
    rw [added_concat_reboot]
    by_cases h0 : newest.time=0
    · exact ⟨_,_,(hl.reboot_not_found env h0).1,fun _ => rfl,fun hne => absurd h0 (hused hne)⟩
    · exact ⟨_,_,(hl.reboot_found env h0).1,hempty,hused⟩
  | add record =>
    rw [added_concat_add]
    dsimp only [step]
    simp only [ClockAhead,archivePageSize] at hc
    by_cases hw : Wraps (run (start env₀) ops)
    · rw [if_pos hw,hl.lastTime_eq,hl.offset] at hc
      have hp : (run (start env₀) ops).archivePageNum<128 := by rw [←hl.page]; exact newest.valid
      exact ⟨_,_,hl.add_wraps_later env record hw hp fun hlt => hc.2 (by omega),
        fun hne => absurd hne (by simp),fun _ => hc.1⟩
    · rw [if_neg hw,hl.lastTime_eq] at hc
      exact ⟨older,newest,(hl.add_not_wraps env record hw).1,fun hne => absurd hne (by simp),fun _ => hc⟩

/-- An archive in which nothing is found is cleared by the next reboot. -/
theorem not_reopensLast_of_not_found {s : Archive} {n : ℕ}
    (hf : (searchLastRecord (powerUp s)).1.foundFlag=false) (hn : 0<n) : ¬ReopensLast s n := by
  intro h
  have env : Env := ⟨⟨0,0,0,0,0,0⟩,fun _ => 0⟩
  have hc : (reboot env s).calls=s.calls++([.clearArchive]++[.newPagePtr 0 (timeToUint32 env.rtc)]) := by
    rw [reboot_of_not_found hf,(clearArchive_vars env _).2.2,List.append_assoc,
      (searchLastRecord_vars (powerUp s)).2.1]
    rfl
  exact (h env).2 hn _ hc (by simp)

/-- An archive in which another page than that of the last pointer is found
is not reopened there. -/
theorem not_reopensLast_of_other {s : Archive} {n p : ℕ} {t : UInt32}
    (hf : (searchLastRecord (powerUp s)).1.foundFlag=true) (hp : lastPointer s.calls=some (p,t))
    (hne : p≠(searchLastRecord (powerUp s)).1.pageNum) : ¬ReopensLast s n := by
  intro h
  have env : Env := ⟨⟨0,0,0,0,0,0⟩,fun _ => 0⟩
  have hr := (h env).1
  rw [hp,Option.map_some,reboot_of_found hf,Option.some.injEq] at hr
  exact hne (hr.trans (reopenPage_vars env _ _).1)

/-- Any other add leaves an archive that the next reboot does not reopen. -/
theorem not_reopensLast_of_not_clockAhead {env₀ : Env} (ops : List (Env×Op)) (o : Env×Op)
    (h : HistoryInv env₀ ops) (hc : ¬ClockAhead (run (start env₀) ops) o) :
    ¬ReopensLast (run (start env₀) (ops++[o])) (added (ops++[o])).length := by
  obtain ⟨older,newest,hl,hempty,hused⟩ := h
  obtain ⟨env,op⟩ := o
  rw [run_concat]
  cases op with
  | reboot => exact absurd trivial hc
  | add record =>
    have hpos : 0<(added (ops++[(env,.add record)])).length := by
      rw [added_concat_add,List.length_append,List.length_singleton]
      omega
    dsimp only [step]
    simp only [ClockAhead,archivePageSize] at hc
    by_cases hw : Wraps (run (start env₀) ops)
    · rw [if_pos hw,hl.lastTime_eq,hl.offset] at hc
      have hp : (run (start env₀) ops).archivePageNum<128 := by rw [←hl.page]; exact newest.valid
      obtain ⟨hh,_,_,hlp⟩ := hl.add_wraps env record hw hp
      have hs := searchLastRecord_fst
        (s:=powerUp (addRecordToArchive env record (run (start env₀) ops))) hh
      by_cases hfull : older.length+1<512
      · have hstale : timeToUint32 env.rtc≤newest.time := by
          by_cases hz : timeToUint32 env.rtc=0
          · rw [hz]
            exact UInt32.zero_le
          · by_contra hlt
            exact hc ⟨hz,fun _ => UInt32.not_le.mp hlt⟩
        rw [afterStart,if_pos hfull] at hs
        by_cases h0 : newest.time=0
        · rw [h0] at hstale
          rw [hl.older_nil h0,List.nil_append,scan_zero] at hs
          · exact not_reopensLast_of_not_found (by rw [hs]) hpos
          · intro e he
            rcases List.mem_append.mp he with hn|hn
            · rw [List.mem_singleton.mp hn,h0]
            · rw [List.mem_singleton.mp hn]
              exact UInt32.le_zero_iff.mp hstale
        · have hlast := scan_last (powerUp (addRecordToArchive env record
            (run (start env₀) ops))).offsetInPagePtrPage h0 hl.below
          have hpassed : ∀ e∈[nextPtr env _ hp],e.time≤newest.time := by
            intro e he
            rw [List.mem_singleton.mp he]
            exact hstale
          rw [scan_stale (by rw [hlast]; exact hpassed),hlast] at hs
          refine not_reopensLast_of_other (by rw [hs]) hlp ?_
          rw [hs,hl.page]
          exact next_ne_self
      · have hz : timeToUint32 env.rtc=0 := by
          by_contra hz
          exact hc ⟨hz,fun hlt => absurd hlt (by omega)⟩
        rw [afterStart,if_neg hfull,scan_zero] at hs
        · exact not_reopensLast_of_not_found (by rw [hs]) hpos
        · intro e he
          rw [List.mem_singleton.mp he]
          exact hz
    · rw [if_neg hw,hl.lastTime_eq,not_not] at hc
      obtain ⟨hr,_⟩ := hl.add_not_wraps env record hw
      exact not_reopensLast_of_not_found (hr.search_not_found hc) hpos

/-- The invariant holds right after the first init_archive. -/
theorem historyInv_start (env₀ : Env) : HistoryInv env₀ [] := by
  refine ⟨[],⟨timeToUint32 env₀.rtc,0,by omega⟩,?_,fun _ => rfl,fun hne => absurd ?_ hne⟩
  · rw [run_nil]
    exact logInv_start env₀
  · rfl

/-- Over every history from an erased chip, init_archive reopens the page of
the pointer written last, and never clears a nonempty archive, in all states
exactly when every operation meets the clock condition. -/
theorem reopens_last_page_iff_clock_ahead (env₀ : Env) (ops : List (Env×Op)) :
    Throughout (fun pre => ReopensLast (run (start env₀) pre) (added pre).length) ops ↔
      InputsMeet (fun pre o => ClockAhead (run (start env₀) pre) o) ops := by
  have hP : ∀ pre,HistoryInv env₀ pre → ReopensLast (run (start env₀) pre) (added pre).length :=
    fun _ h => reopensLast_of_inv h
  exact throughout_iff_inputsMeet (historyInv_start env₀) hP historyInv_step
    not_reopensLast_of_not_clockAhead ops

/-- A panel started on the first of June 2024. -/
def started2024 : Env := ⟨⟨24,6,1,0,0,0⟩,fun _ => 0⟩

/-- The date set after a loss of the battery domain. -/
def batteryLost : Env := ⟨⟨23,5,23,0,0,0⟩,fun _ => 0⟩

/-- A record with an empty payload. -/
def plainRecord : MessageRecord := ⟨fun _ => 0,0,1,0,0⟩

/-- A full first page, then a record added after the clock has been reset. -/
def clockReset : List (Env×Op) :=
  addsOnly (List.replicate 256 (started2024,plainRecord))++[(batteryLost,.add plainRecord)]

/-- After the clock has been reset the next reboot reopens the first page
although the last pointer names the second. -/
theorem clockReset_not_reopened :
    ¬Throughout (fun pre => ReopensLast (run (start started2024) pre) (added pre).length)
      clockReset := by
  obtain ⟨hl,hf⟩ := logInv_firstPage started2024 (List.replicate 256 (started2024,plainRecord))
    (by rw [List.length_replicate])
  have ht : timeToUint32 started2024.rtc≠0 := by decide
  have hw : Wraps (run (start started2024) (addsOnly (List.replicate 256 (started2024,plainRecord)))) := by
    rw [wraps_iff_filled hl.aligned,hf,List.length_replicate]
  have hinv : HistoryInv started2024 (addsOnly (List.replicate 256 (started2024,plainRecord))) :=
    ⟨[],_,hl,fun _ => rfl,fun _ => ht⟩
  intro h
  refine not_reopensLast_of_not_clockAhead _ _ hinv ?_ (h clockReset [] (List.append_nil _))
  simp only [ClockAhead,if_pos hw,hl.offset,hl.lastTime_eq]
  decide

end BT816Display.ArchiveReopen
