import BT816Display.ArchiveClear

/-!
# When a clear is permanent

Where something remains behind the first slot of page 127, or of the pages of
the latest pointer left in the log, adds and reboots bring a record from before
the clear back into view. With the lemmas on what keeps it away this gives the
exact condition under which a clear is permanent.
-/

namespace BT816Display.ArchiveResurface

open ByteMemory NorFlash Clock RingWindow Zd25Flash MessageArchive ArchiveSlots ArchiveRam
open ArchiveFlash ArchiveRun ArchiveLog ArchiveReopen ArchiveLayout ArchiveCrash ArchiveClean
open ArchiveClear

section Shown

variable {s : Archive} {x : StoredRecord} {q o : ℕ} {t : UInt32}

/-- A record in the first slot of the page reopened is shown. -/
theorem shown_first (env : Env) (stack : Mem UInt8)
    (hf : (searchLastRecord (powerUp s)).1=⟨q,true,t,o⟩) (hx : dataSlot s.zd25.mem q 0=encode x) :
    ∃ k,getRecordWithOffsetFromLast stack k (reboot env s)=some (view x) := by
  obtain ⟨_,_,_,hr⟩ := reopens_of_search env hf
  have hpos : 0<filled (reboot env s) := by
    by_contra h0
    have hstop := hr.stopped (by omega)
    rw [show filled (reboot env s)=0 by omega,hx,checkSlot_encode] at hstop
    cases hstop
  have hj := lastSlot_lt hr.aligned
  cases hp : (reboot env s).lastRecPtr with
  | none =>
    rw [filled_eq_zero.mpr hp] at hpos
    exact absurd hpos (Nat.lt_irrefl 0)
  | some p =>
    refine ⟨lastSlot (reboot env s),?_⟩
    have hb : behind 256 (lastSlot (reboot env s)) (lastSlot (reboot env s)%256)=0 := by
      rw [Nat.mod_eq_of_lt hj,behind,if_pos le_rfl,Nat.sub_self]
    rw [getRecordWithOffsetFromLast_slot hr.aligned hp,hb,hr.front 0 hpos,hx,readSlot_encode]

/-- When the page reopened is erased, a record in the second slot of the page
before is shown as soon as another one is added. -/
theorem shown_behind (env env' : Env) (record : MessageRecord) (stack : Mem UInt8)
    (hf : (searchLastRecord (powerUp s)).1=⟨q,true,t,o⟩) (hb : dataSlot s.zd25.mem q 0=blankSlot)
    (hx : dataSlot s.zd25.mem (prevPage q) 1=encode x) (hstack : RejectsBlank env.stack) :
    getRecordWithOffsetFromLast stack 255 (addRecordToArchive env' record (reboot env s))=
      some (view x) := by
  obtain ⟨_,_,_,hr⟩ := reopens_of_search env hf
  have hzero : filled (reboot env s)=0 := by
    refine hr.filled_eq (by omega) (fun i hi => by omega) fun _ => ?_
    rw [hb]
    exact hstack
  have hlast : lastSlot (reboot env s)=255 := by
    rw [lastSlot,filled_eq_zero.mp hzero]
    rfl
  have hptr : (addRecordToArchive env' record (reboot env s)).lastRecPtr=some (16*0) := by
    rw [addRecordToArchive_lastRecPtr,nextSlot_fst env' hr.aligned,hlast]
    rfl
  have hslot : ramSlot (addRecordToArchive env' record (reboot env s)) 1=encode x := by
    rw [ramSlot_addRecordToArchive env' record hr.aligned,hlast,if_neg (by decide),
      hr.back 1 (by omega) (by omega)]
    exact hx
  have hlast' : lastSlot (addRecordToArchive env' record (reboot env s))=0 := by
    rw [lastSlot,hptr]
    rfl
  rw [getRecordWithOffsetFromLast_slot (aligned_addRecordToArchive env' record hr.aligned) hptr,
    hlast']
  change readSlot stack (ramSlot (addRecordToArchive env' record (reboot env s)) 1)=some (view x)
  rw [hslot,readSlot_encode]

/-- A record other than `x`. -/
def otherRecord (x : StoredRecord) : MessageRecord := {plainRecord with time := x.time+1}

/-- The other record differs from the given one. -/
theorem stored_otherRecord_ne (x : StoredRecord) : x≠stored (otherRecord x) := by
  intro h
  have ht : x.time=x.time+1 := congrArg StoredRecord.time h
  exact absurd (UInt32.left_eq_add.mp ht) (by decide)

/-- A record that is shown although only others have been added. -/
theorem not_onlyShows_of_shown {stack : Mem UInt8} {l : List StoredRecord} {k : ℕ}
    (hl : ∀ r∈l,r=stored (otherRecord x))
    (h : getRecordWithOffsetFromLast stack k s=some (view x)) : ¬OnlyShows stack s l := by
  intro hshows
  obtain ⟨r,hr,hv⟩ := hshows.2 k _ h
  rw [hl r hr] at hv
  exact stored_otherRecord_ne x (view_injective hv)

end Shown

section Fills

variable {m₁ : Mem UInt8} {τ : UInt32} {s : Archive} {n : ℕ}

/-- What holds while pages are filled from page 0 on, from the chip `m₁` on and
at time `τ`: `n` records have been added. -/
structure Fills (m₁ : Mem UInt8) (τ : UInt32) (s : Archive) (n : ℕ) : Prop where
  /-- The archive is well formed. -/
  formed : WellFormed s
  /-- The records fill the pages one after the other. -/
  count : 256*s.archivePageNum+filled s=n
  /-- A page is started with its first record. -/
  begun : s.archivePageNum≠0 → filled s≠0
  /-- The next pointer goes behind that of the current page. -/
  offset : s.offsetInPagePtrPage=8*(s.archivePageNum+1)
  /-- The first pointer stays. -/
  first : ptrSlot s.zd25.mem 0=ptrSlot m₁ 0
  /-- The pointers of the other pages started. -/
  started : ∀ i,0 < i → i ≤ s.archivePageNum → ∃ e,ptrSlot s.zd25.mem i=encodePtr e ∧ e.time=τ
  /-- The other slots of the log stay. -/
  rest : ∀ i<512,s.archivePageNum < i → ptrSlot s.zd25.mem i=ptrSlot m₁ i
  /-- The pages that have not been started stay. -/
  pages : ∀ q,s.archivePageNum<q → ∀ i<256,dataSlot s.zd25.mem q i=dataSlot m₁ q i

/-- Nothing has been added after a clear. -/
theorem fills_clear (env : Env) (τ : UInt32) {s₀ : Archive} (h : WellFormed (clearArchive env s₀)) :
    Fills (clearArchive env s₀).zd25.mem τ (clearArchive env s₀) 0 := by
  obtain ⟨hP,hO,_⟩ := clearArchive_vars env s₀
  refine ⟨h,?_,fun h0 => absurd hP h0,?_,rfl,
    fun i h0 hi => ?_,fun _ _ _ => rfl,fun _ _ _ _ => rfl⟩
  · rw [hP,filled_eq_zero.mpr (clearArchive_lastRecPtr env s₀)]
  · rw [hO,hP]
  · rw [hP] at hi
    omega

/-- Adding a record while the log slot of the next page is erased. -/
theorem Fills.add (h : Fills m₁ τ s n) {k : ℕ} (hk : k≤128) (hn : n<256*k)
    (hgap : ∀ i,0 < i → i<k → ptrSlot m₁ i=NorFlash.blank 8) {env : Env}
    (hτ : timeToUint32 env.rtc=τ) (record : MessageRecord) :
    Fills m₁ τ (addRecordToArchive env record s) (n+1) := by
  have hi := h.formed.clean
  have hcount := h.count
  have hoff := h.offset
  have hformed := h.formed.add env record
  by_cases hw : Wraps s
  · have hf := (wraps_iff_filled hi.aligned).mp hw
    obtain ⟨hP,hO,hF⟩ := hi.vars_wraps env record hw
    have hnext : next 128 s.archivePageNum=s.archivePageNum+1 := if_pos (by omega)
    have hidx : logIndex s=s.archivePageNum+1 := by
      unfold logIndex
      rw [hoff,if_neg (by omega)]
      omega
    have hwr := writesPtr_add env record (hi.starts hw)
    rw [hidx] at hwr hO
    rw [hnext] at hP
    have hb : ptrSlot s.zd25.mem (s.archivePageNum+1)=NorFlash.blank 8 := by
      rw [h.rest _ (by omega) (by omega)]
      exact hgap _ (by omega) (by omega)
    refine ⟨hformed,by rw [hP,hF]; omega,fun _ => by omega,by rw [hO,hP],?_,fun i h0 hle => ?_,
      fun i hlt hgt => ?_,fun q hgt i hlt => ?_⟩
    · rw [hwr 0 (by omega),if_neg (by omega),if_pos hb,h.first]
    · rw [hP] at hle
      rw [hwr i (by omega)]
      split
      · exact ⟨_,rfl,hτ⟩
      · exact h.started i h0 (by omega)
    · rw [hP] at hgt
      rw [hwr i hlt,if_neg (by omega),if_pos hb,h.rest i hlt (by omega)]
    · rw [hP] at hgt
      rw [hi.slots_wraps env record hw q hlt,hnext,if_neg (by omega),h.pages q (by omega) i hlt]
  · obtain ⟨hP,hO,hF⟩ := hi.vars_not_wraps env record hw
    have hs := fun i hlt => ptrSlot_add_not_wraps env record hi.aligned hw (i:=i) hlt
    have hle := hi.valid
    refine ⟨hformed,by rw [hP,hF]; omega,fun _ => by omega,by rw [hO,hP]; exact hoff,
      by rw [hs 0 (by omega)]; exact h.first,fun i h0 hle => ?_,fun i hlt hgt => ?_,
      fun q hgt i hlt => ?_⟩
    · rw [hP] at hle
      rw [hs i (by omega)]
      exact h.started i h0 hle
    · rw [hP] at hgt
      rw [hs i hlt]
      exact h.rest i hlt hgt
    · rw [hP] at hgt
      rw [hi.slots_not_wraps env record hw q hlt,if_neg fun he => by omega]
      exact h.pages q hgt i hlt

/-- Adding `n` records one after the other. -/
theorem Fills.run (h : Fills m₁ τ s 0) {k : ℕ} (hk : k≤128) (hn : n≤256*k)
    (hgap : ∀ i,0 < i → i<k → ptrSlot m₁ i=NorFlash.blank 8) {env : Env}
    (hτ : timeToUint32 env.rtc=τ) (record : MessageRecord) :
    Fills m₁ τ (run s (addsOnly (List.replicate n (env,record)))) n := by
  induction n with
  | zero => exact h
  | succ n ih =>
    rw [List.replicate_succ',addsOnly_concat,run_concat]
    exact (ih (by omega)).add hk (by omega) hgap hτ record

end Fills

section Brought

variable {s s₀ : Archive} {x : StoredRecord}

/-- The clock at the start of its count. -/
def epoch : Env := ⟨⟨1,1,1,0,0,0⟩,fun _ => 0⟩

/-- An unset clock reads as time zero. -/
theorem epoch_time : timeToUint32 epoch.rtc=0 := by decide

/-- A clock set in 2024 reads as a later time. -/
theorem started2024_ne_zero : timeToUint32 started2024.rtc≠0 := by decide

/-- Adds of a record other than `x`. -/
def others (x : StoredRecord) (n : ℕ) : List (Env×Op) :=
  addsOnly (List.replicate n (epoch,otherRecord x))

/-- Every record such a life adds is the other one. -/
theorem mem_added_others {n : ℕ} : ∀ r∈added (others x n),r=stored (otherRecord x) := by
  intro r hr
  obtain ⟨o,ho,he⟩ := List.mem_filterMap.mp hr
  obtain ⟨a,ha,rfl⟩ := List.mem_map.mp ho
  rw [List.eq_of_mem_replicate ha] at he
  exact (Option.some.inj he).symm

/-- A reboot. -/
def restart : Env×Op := (started2024,.reboot)

/-- A reboot and an add. -/
def restartAdd (x : StoredRecord) : List (Env×Op) := [restart,(started2024,.add (otherRecord x))]

/-- The run of one reboot is the reboot. -/
theorem run_restart (s : Archive) : run s [restart]=reboot started2024 s := rfl

/-- The run of a reboot and an add, unfolded. -/
theorem run_restartAdd (s : Archive) (x : StoredRecord) : run s (restartAdd x)=
    addRecordToArchive started2024 (otherRecord x) (reboot started2024 s) := rfl

/-- The run of an add and a reboot, unfolded. -/
theorem run_addRestart (s : Archive) (record : MessageRecord) :
    run s [(epoch,.add record),restart]=
      reboot started2024 (addRecordToArchive epoch record s) := rfl

/-- The record added after the restart is the other one. -/
theorem mem_added_restartAdd : ∀ r∈added (restartAdd x),r=stored (otherRecord x) :=
  fun _ hr => List.mem_singleton.mp hr

/-- Page 0 is erased and the second slot of page 127 holds a record. -/
structure Leftover (x : StoredRecord) (m : Mem UInt8) : Prop where
  /-- Page 0 is erased. -/
  first : dataSlot m 0 0=blankSlot
  /-- The record in page 127. -/
  last : dataSlot m 127 1=encode x

/-- The clear erases page 0 and not the last page, so the record stays as a leftover. -/
theorem leftover_clear (env : Env) (h : dataSlot s.zd25.mem 127 1=encode x) :
    Leftover x (clearArchive env s).zd25.mem := by
  constructor
  · rw [dataSlot_clearArchive env s 0 (by omega),if_pos (by omega)]
  · rw [dataSlot_clearArchive env s 127 (by omega),if_neg (by omega)]
    exact h

/-- Reopening page 0 and adding a record brings the record left over into
view. -/
theorem leftover_shown {t : UInt32} {o : ℕ} (hf : (searchLastRecord (powerUp s)).1=⟨0,true,t,o⟩)
    (h : Leftover x s.zd25.mem) {l : List StoredRecord} (hl : ∀ r∈l,r=stored (otherRecord x)) :
    ¬OnlyShows (fun _ => 0) (run s (restartAdd x)) l := by
  rw [run_restartAdd]
  exact not_onlyShows_of_shown hl
    (shown_behind started2024 started2024 (otherRecord x) _ hf h.first h.last rejectsBlank_zero)

/-- After a reboot with the pointer to page 0 alone, the next one reopens page
0. -/
theorem leftover_restart {t : UInt32} (hlog : LogPrefix s.zd25.mem [⟨t,0,Nat.succ_pos 127⟩])
    (h : Leftover x s.zd25.mem) : Leftover x (reboot started2024 s).zd25.mem ∧
      ∃ t' o,(searchLastRecord (powerUp (reboot started2024 s))).1=⟨0,true,t',o⟩ := by
  have hfound : ∀ {s : Archive} {t : UInt32},t≠0 → LogPrefix s.zd25.mem [⟨t,0,Nat.succ_pos 127⟩] →
      (searchLastRecord (powerUp s)).1=⟨0,true,t,8*(0+1)⟩ := by
    intro s t h0 hl
    have hl' : LogPrefix (powerUp s).zd25.mem ([]++[(⟨t,0,by omega⟩ : PagePtr)]++[]) := hl
    exact searchLastRecord_newest hl' h0 (List.forall_mem_nil _) (List.forall_mem_nil _)
  by_cases h0 : t=0
  · have hn : (searchLastRecord (powerUp s)).1.foundFlag=false := by
      rw [searchLastRecord_scan (s:=powerUp s) hlog,scan_zero]
      exact fun e he => by rw [List.mem_singleton.mp he,h0]
    have hz := (searchLastRecord_vars (powerUp s)).1
    have hused : Restartable (searchLastRecord (powerUp s)).2.zd25.mem := by
      rw [hz]
      exact Or.inl (by
        change ptrSlot s.zd25.mem 0≠_
        rw [hlog.used 0 (by rw [List.length_singleton]; omega)]
        exact encodePtr_ne_blank _)
    rw [reboot_of_not_found hn]
    exact ⟨leftover_clear started2024 (by rw [hz]; exact h.last),_,_,
      hfound started2024_ne_zero (logHolds_clearArchive started2024 hused).logPrefix⟩
  · obtain ⟨hz,_⟩ := reopens_of_search started2024 (hfound h0 hlog)
    rw [←hz] at hlog h
    exact ⟨h,_,_,hfound h0 hlog⟩

/-- When the pointer behind the first one is overwritten the log is erased, and
the next reboot clears the archive. -/
theorem leftover_overwritten (hs : WellFormed s) (hw : Wraps s) (hl : logIndex s=1)
    (hu : ptrSlot s.zd25.mem 1≠NorFlash.blank 8) (hp : s.archivePageNum=0)
    (hx : dataSlot s.zd25.mem 127 1=encode x) :
    Leftover x (reboot started2024 (addRecordToArchive epoch (otherRecord x) s)).zd25.mem ∧
      ∃ t o,(searchLastRecord (powerUp
        (reboot started2024 (addRecordToArchive epoch (otherRecord x) s)))).1=⟨0,true,t,o⟩ := by
  have hi := hs.clean
  have hformed := hs.add epoch (otherRecord x)
  have hwr := writesPtr_add epoch (otherRecord x) (hi.starts hw)
  have hslot := hi.slots_wraps epoch (otherRecord x) hw 127 (i:=1) (by omega)
  rw [hp,if_neg (by decide),hx] at hslot
  rw [hl] at hwr
  generalize addRecordToArchive epoch (otherRecord x) s=s₁ at hformed hwr hslot
  have hblank : ptrSlot s₁.zd25.mem 0=NorFlash.blank 8 := by
    rw [hwr 0 (by omega),if_neg (by omega),if_neg hu]
  have hlog : LogPrefix (powerUp s₁).zd25.mem [] :=
    ⟨Nat.zero_le _,fun i h => absurd h (Nat.not_lt_zero i),fun _ => hblank⟩
  have hn : (searchLastRecord (powerUp s₁)).1.foundFlag=false := by
    rw [searchLastRecord_scan hlog]
    rfl
  have hz := (searchLastRecord_vars (powerUp s₁)).1
  rw [reboot_of_not_found hn]
  generalize (searchLastRecord (powerUp s₁)).2=s₂ at hz
  change s₂.zd25=s₁.zd25 at hz
  rw [←hz] at hslot hwr hblank
  refine ⟨leftover_clear started2024 hslot,timeToUint32 started2024.rtc,8*(0+1),?_⟩
  have hwc := writesPtr_clearArchive started2024 s₂
  have hpc := (wellFormed_clear started2024 (s:=s₂) (hz ▸ hformed.clean.packed)
    (hz ▸ hformed.pointers)).pointers
  refine searchLastRecord_of_slot (s:=powerUp (clearArchive started2024 s₂))
    (e:=⟨timeToUint32 started2024.rtc,0,by omega⟩) hpc (by omega : 0<512) ?_ started2024_ne_zero
    (fun i hi => absurd hi (Nat.not_lt_zero i)) fun i e h0 hi he => ?_
  · exact (hwc 0 (by omega)).trans (if_pos rfl)
  · change ptrSlot (clearArchive started2024 s₂).zd25.mem i=encodePtr e at he
    rw [hwc i hi,if_neg (by omega),if_pos hblank,hwr i hi] at he
    split at he
    · rw [←encodePtr_injective he]
      change timeToUint32 epoch.rtc≤_
      rw [epoch_time]
      exact UInt32.zero_le
    · exact absurd he.symm (encodePtr_ne_blank e)

/-- A record behind the first slot of page 127 comes back after a clear. -/
theorem exists_shown_of_last (env : Env) (hs : WellFormed s₀)
    (hx : dataSlot s₀.zd25.mem 127 1=encode x) :
    ∃ ops,¬OnlyShows (fun _ => 0) (run (clearArchive env s₀) ops) (added ops) := by
  have hw := writesPtr_clearArchive env s₀
  have hc := wellFormed_clear env hs.clean.packed hs.pointers
  by_cases hb : ptrSlot (clearArchive env s₀).zd25.mem 1=NorFlash.blank 8
  · have hlog : LogPrefix (clearArchive env s₀).zd25.mem [⟨timeToUint32 env.rtc,0,by omega⟩] := by
      refine ⟨by rw [List.length_singleton]; omega,fun i hi => ?_,fun _ => hb⟩
      have h0 : i=0 := by simpa only [List.length_singleton,Nat.lt_one_iff] using hi
      subst h0
      rw [hw 0 (by omega),if_pos rfl,List.getElem_singleton]
    obtain ⟨hl,_,_,hf⟩ := leftover_restart hlog (leftover_clear env hx)
    refine ⟨[restart]++restartAdd x,?_⟩
    rw [run_append,run_restart,added_append]
    exact leftover_shown hf hl mem_added_restartAdd
  · have hfill := (fills_clear env 0 hc).run (k:=1) (n:=256) (by omega) (by omega)
      (fun i h0 h1 => by omega) epoch_time (otherRecord x)
    refine ⟨others x 256++[(epoch,.add (otherRecord x)),restart]++restartAdd x,?_⟩
    rw [run_append,run_append,run_addRestart]
    change Fills _ 0 (run (clearArchive env s₀) (others x 256)) 256 at hfill
    generalize run (clearArchive env s₀) (others x 256)=s at hfill
    have hi := hfill.formed.clean
    have hcount := hfill.count
    have hle := filled_le hi.aligned
    have hbegun := hfill.begun
    have hP : s.archivePageNum=0 := by omega
    have hidx : logIndex s=1 := by
      unfold logIndex
      rw [hfill.offset,hP]
      rfl
    have hlast : dataSlot s.zd25.mem 127 1=encode x := by
      rw [hfill.pages 127 (by omega) 1 (by omega),(leftover_clear env hx).last]
    rw [←hfill.rest 1 (by omega) (by omega)] at hb
    obtain ⟨hl,_,_,hf⟩ := leftover_overwritten hfill.formed
      ((wraps_iff_filled hi.aligned).mpr (by omega)) hidx hb hP hlast
    refine leftover_shown hf hl fun r hr => ?_
    rw [added_append,added_append] at hr
    rcases List.mem_append.mp hr with hr|hr
    · rcases List.mem_append.mp hr with hr|hr
      · exact mem_added_others r hr
      · exact List.mem_singleton.mp hr
    · exact mem_added_restartAdd r hr

/-- Filling the pages up to slot `k` of the log makes the next reboot find the
latest of the pointers left, while the pages from `k` on are as they were. -/
theorem reach_left (env : Env) (x : StoredRecord) (hs : WellFormed s₀) {k : ℕ} (hk : k≤127)
    {older stale : List PagePtr} {newest : PagePtr}
    (hl : LeftPointers s₀.zd25.mem k (older++[newest]++stale))
    (hbelow : ∀ e∈older,e.time<newest.time) (hpassed : ∀ e∈stale,e.time≤newest.time)
    (ht : timeToUint32 env.rtc<newest.time) :
    ∃ n o,(searchLastRecord (powerUp (run (clearArchive env s₀) (others x n)))).1=
        ⟨newest.page,true,newest.time,o⟩ ∧
      ∀ q,30≤q → k≤q → ∀ i<256,
        dataSlot (run (clearArchive env s₀) (others x n)).zd25.mem q i=dataSlot s₀.zd25.mem q i := by
  have hfirst := hl.first
  have hfits := hl.fits
  have hwc := writesPtr_clearArchive env s₀
  have hpos : (0 : UInt32)<newest.time := UInt32.lt_of_le_of_lt UInt32.zero_le ht
  have hm : ∀ i<512,0 < i → ptrSlot (clearArchive env s₀).zd25.mem i=ptrSlot s₀.zd25.mem i := by
    intro i hi h0
    rw [hwc i hi,if_neg (by omega),if_pos (hl.before 0 hfirst)]
  have hc := wellFormed_clear env hs.clean.packed hs.pointers
  have hfill := fun n hn => (fills_clear env 0 hc).run (k:=k) (n:=n) (by omega) hn
    (fun i h0 h1 => (hm i (by omega) h0).trans (hl.before i h1)) epoch_time (otherRecord x)
  obtain ⟨n,hn,hlast⟩ : ∃ n≤256*k,∀ P f : ℕ,256*P+f=n → f≤256 → (P≠0 → f≠0) → P+1=k := by
    by_cases hk1 : k=1
    · exact ⟨0,by omega,fun P f _ _ _ => by omega⟩
    · exact ⟨256*(k-1)+1,by omega,fun P f _ _ _ => by omega⟩
  have hf := hfill n hn
  change Fills _ 0 (run (clearArchive env s₀) (others x n)) n at hf
  generalize hrun : run (clearArchive env s₀) (others x n)=s at hf
  have hP := hlast _ _ hf.count (filled_le hf.formed.clean.aligned) hf.begun
  simp only [List.length_append,List.length_singleton] at hfits
  have hslot : ∀ i<512,k ≤ i → ptrSlot s.zd25.mem i=ptrSlot s₀.zd25.mem i := fun i hi hki => by
    rw [hf.rest i hi (by omega),hm i hi (by omega)]
  have hleft : ∀ a (ha : a<(older++[newest]++stale).length),
      ptrSlot s.zd25.mem (k+a)=encodePtr (older++[newest]++stale)[a] := by
    intro a ha
    simp only [List.length_append,List.length_singleton] at ha
    rw [hslot (k+a) (by omega) (by omega)]
    exact hl.used a _
  simp only [List.length_append,List.length_singleton] at hleft
  refine ⟨n,8*(k+older.length+1),?_,fun q h30 hkq i hi => ?_⟩
  · rw [hrun]
    refine searchLastRecord_of_slot (s:=powerUp s) (e:=newest) hf.formed.pointers
      (by omega : k+older.length<512) ?_ (UInt32.pos_iff_ne_zero.mp hpos) (fun i hi => ?_)
      fun i e hgt hi he => ?_
    · change ptrSlot s.zd25.mem (k+older.length)=encodePtr newest
      rw [hleft older.length (by omega),
        List.getElem_append_left (by rw [List.length_append,List.length_singleton]; omega),
        List.getElem_concat_length rfl]
    · change ∃ e,ptrSlot s.zd25.mem i=encodePtr e ∧ e.time<newest.time
      by_cases hi0 : i=0
      · refine ⟨⟨timeToUint32 env.rtc,0,by omega⟩,?_,ht⟩
        rw [hi0,hf.first]
        exact (hwc 0 (by omega)).trans (if_pos rfl)
      · by_cases hik : i<k
        · obtain ⟨e,he,hτ⟩ := hf.started i (by omega) (by omega)
          exact ⟨e,he,by rw [hτ]; exact hpos⟩
        · obtain ⟨a,rfl⟩ : ∃ a,i=k+a := ⟨i-k,by omega⟩
          refine ⟨_,hleft a (by omega),?_⟩
          rw [List.getElem_append_left (by rw [List.length_append]; omega),
            List.getElem_append_left (by omega)]
          exact hbelow _ (List.getElem_mem _)
    · change ptrSlot s.zd25.mem i=encodePtr e at he
      by_cases hib : i<k+(older.length+1+stale.length)
      · obtain ⟨a,rfl⟩ : ∃ a,i=k+a := ⟨i-k,by omega⟩
        rw [hleft a (by omega)] at he
        rw [←encodePtr_injective he,
          List.getElem_append_right (by rw [List.length_append,List.length_singleton]; omega)]
        exact hpassed _ (List.getElem_mem _)
      · rw [hslot i hi (by omega),
          hl.behind i (by simp only [List.length_append,List.length_singleton]; omega) hi] at he
        exact absurd he.symm (encodePtr_ne_blank e)
  · rw [hrun,hf.pages q (by omega) i hi,dataSlot_clearArchive env s₀ q hi,if_neg (by omega)]

/-- A record that remains on the pages of the latest pointer left comes back
after a clear. -/
theorem exists_shown_of_resurfaces (env : Env) (hs : WellFormed s₀)
    (hlast : dataSlot s₀.zd25.mem 127 1=blankSlot)
    (h : Resurfaces s₀.zd25.mem (timeToUint32 env.rtc)) :
    ∃ ops,¬OnlyShows (fun _ => 0) (run (clearArchive env s₀) ops) (added ops) := by
  obtain ⟨k,older,newest,stale,hl,hbelow,hpassed,ht,hrem⟩ := h
  have hslots := hs.clean.packed.slots
  have hvalid := newest.valid
  have hprev := prevPage_lt hvalid
  by_cases hfirst : Remains s₀.zd25.mem k newest.page 0
  · obtain ⟨h30,hk,hu⟩ := hfirst
    obtain ⟨x,_,hx⟩ := (hslots _ hvalid 0 (by omega)).resolve_left hu
    obtain ⟨n,o,hf,hd⟩ := reach_left env x hs (by omega) hl hbelow hpassed ht
    obtain ⟨j,hj⟩ := shown_first started2024 (fun _ => 0) hf ((hd _ h30 hk 0 (by omega)).trans hx)
    refine ⟨others x n++[restart],?_⟩
    rw [run_append,run_restart]
    refine not_onlyShows_of_shown (fun r hr => ?_) hj
    rw [added_append] at hr
    rcases List.mem_append.mp hr with hr|hr
    · exact mem_added_others r hr
    · exact absurd hr List.not_mem_nil
  · obtain ⟨h30,hk,hu⟩ := hrem.resolve_left hfirst
    obtain ⟨x,_,hx⟩ := (hslots _ hprev 1 (by omega)).resolve_left hu
    have hne : prevPage newest.page≠127 := fun he => hu (he ▸ hlast)
    have hpage : prevPage newest.page+1=newest.page := by
      unfold prevPage RingWindow.behind at hne ⊢
      split at hne
      · rw [if_pos (by omega)]
        omega
      · omega
    have hb : dataSlot s₀.zd25.mem newest.page 0=blankSlot := by
      by_contra hu'
      exact hfirst ⟨by omega,by omega,hu'⟩
    obtain ⟨n,o,hf,hd⟩ := reach_left env x hs (by omega) hl hbelow hpassed ht
    have hshown := shown_behind started2024 started2024 (otherRecord x) (fun _ => 0) hf
      ((hd _ (by omega) (by omega) 0 (by omega)).trans hb)
      ((hd _ h30 hk 1 (by omega)).trans hx) rejectsBlank_zero
    refine ⟨others x n++restartAdd x,?_⟩
    rw [run_append,run_restartAdd]
    refine not_onlyShows_of_shown (fun r hr => ?_) hshown
    rw [added_append] at hr
    rcases List.mem_append.mp hr with hr|hr
    · exact mem_added_others r hr
    · exact mem_added_restartAdd r hr

end Brought

/-- Whatever the clock has shown and wherever the power has been lost before:
all adds and reboots after clear_archive show only records added since exactly
when page 127 is erased behind its first slot and no pointer left in the log
leads to a page of which something remains. -/
theorem clear_permanent_iff (env₀ env : Env) (evs : List (Env×Event)) :
    (∀ ops stack,OnlyShows stack (run (clearArchive env (life env₀ evs)) ops) (added ops)) ↔
    (∀ i<256,0 < i → dataSlot (life env₀ evs).zd25.mem 127 i=blankSlot) ∧
      ¬Resurfaces (life env₀ evs).zd25.mem (timeToUint32 env.rtc) := by
  have hs := wellFormed_life env₀ evs
  have hpacked := hs.clean.packed
  constructor
  · intro hall
    have hlast : dataSlot (life env₀ evs).zd25.mem 127 1=blankSlot := by
      rcases hpacked.slots 127 (by omega) 1 (by omega) with hb|⟨x,_,hx⟩
      · exact hb
      · obtain ⟨ops,hops⟩ := exists_shown_of_last env hs hx
        exact absurd (hall ops fun _ => 0) hops
    refine ⟨fun i hi h0 => hpacked.blank 127 (by omega) 1 (by omega) hlast i hi h0,fun hres => ?_⟩
    obtain ⟨ops,hops⟩ := exists_shown_of_resurfaces env hs hlast hres
    exact hops (hall ops fun _ => 0)
  · rintro ⟨htail,hres⟩ ops stack
    exact onlyShows_after_clear env hs htail hres ops stack

/-- All 128 pages but for the last slot. -/
def almostFull : List (Env×Event) := List.replicate 32767 (started2024,.add plainRecord)

/-- The first adds of a life fill the pages from the first slot on. -/
theorem fills_life (env₀ : Env) (a : Env×MessageRecord) {n : ℕ} (hn : n≤32768) :
    Fills (start env₀).zd25.mem (timeToUint32 a.1.rtc)
      (life env₀ (List.replicate n (a.1,.add a.2))) n := by
  have hgap : ∀ i,0 < i → i<128 → ptrSlot (start env₀).zd25.mem i=NorFlash.blank 8 :=
    fun i h0 hi => (logInv_start env₀).holds.free i h0 (by omega)
  induction n with
  | zero =>
    have hs := wellFormed_start env₀
    rw [List.replicate_zero,life_nil]
    rw [start_eq_clear] at hs ⊢
    exact fills_clear env₀ _ hs
  | succ n ih =>
    rw [List.replicate_succ',life_concat]
    exact (ih (by omega)).add (by omega) (by omega) hgap rfl a.2

/-- When the clear comes after 32767 records, a record of page 127 comes back. -/
theorem almostFull_clear_not_permanent :
    ¬∀ ops stack,OnlyShows stack (run (clearArchive started2024 (life started2024 almostFull)) ops)
      (added ops) := by
  have h : Fills _ _ (life started2024 almostFull) 32767 :=
    fills_life started2024 (started2024,plainRecord) (by omega)
  have hi := h.formed.clean
  have hcount := h.count
  have hle := filled_le hi.aligned
  have hv := hi.valid
  have hP : (life started2024 almostFull).archivePageNum=127 := by omega
  have hf : filled (life started2024 almostFull)=255 := by omega
  have hcur := hi.current.resolve_left (by omega)
  rcases hi.packed.slots 127 (by omega) 1 (by omega) with hb|⟨x,_,hx⟩
  · rw [←hP] at hb
    have hge := (hcur 1 (by omega)).mp hb
    omega
  · obtain ⟨ops,hops⟩ := exists_shown_of_last started2024 h.formed hx
    exact fun hall => hops (hall ops fun _ => 0)

end BT816Display.ArchiveResurface
