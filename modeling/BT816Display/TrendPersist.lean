import BT816Display.TrendScreens

/-!
# What the trends are after a reboot

What was saved is loaded again as long as all input numbers are in range and
nothing resets the registers. A panel whose clock was lost, and one with an
input number out of range behind the first trend, are not restored.
-/

namespace BT816Display.TrendPersist

open Keys SlotList TrendConfig TrendData TrendScreens TrendStorage
open TrendEdit (Link)

/-! ## Every run -/

/-- The registers keep what the configuration is in memory, and nothing resets
them or initialises them at a reboot. -/
structure StoreReady (access : Bool) (s : TrendStore) : Prop where
  /-- The mark of the clock. -/
  clock : s.bpr 1=0x1234
  /-- The mark of the trends. -/
  mark : access=true → s.bpr 6=0x1234
  /-- tr_cnt. -/
  count : s.trCnt.toNat≤trendMaxCnt
  /-- The input numbers of all slots. -/
  inputs : InputsOk s.trends
  /-- The registers are as saved. -/
  saved : SameConfig (loadTrends s.bpr) s

/-- A store that is saved is ready. -/
theorem StoreReady.save {access : Bool} {s s' : TrendStore} (h : StoreReady access s)
    (hbpr : s'.bpr=s.bpr) (hcount : s'.trCnt.toNat≤trendMaxCnt) (hinputs : InputsOk s'.trends) :
    StoreReady access (saveTrends s') where
  clock := (congrFun hbpr 1).trans h.clock
  mark := fun ha => (congrFun hbpr 6).trans (h.mark ha)
  count := hcount
  inputs := hinputs
  saved := (loadTrends_saveTrends hcount hinputs).trans ⟨rfl,fun _ _ => rfl⟩

/-- A store that is left alone stays ready. -/
theorem StoreReady.untouched {access : Bool} {s s' : TrendStore} (h : StoreReady access s)
    (hs : Untouched s' s) : StoreReady access s' where
  clock := (hs.data 1 (Or.inl rfl)).trans h.clock
  mark := fun ha => (hs.data 6 (Or.inr (by decide))).trans (h.mark ha)
  count := by
    rw [hs.same.count]
    exact h.count
  inputs := inputsOk_of_same hs.same h.inputs
  saved := ((loadTrends_congr hs.data).trans h.saved).trans hs.same.symm

/-- A reboot loads what was saved. -/
theorem StoreReady.boot {access : Bool} {s : TrendStore} (h : StoreReady access s) :
    Untouched (boot access s.bpr) s := by
  have hregisters : initRegisters access s.bpr=s.bpr :=
    if_neg fun hinit => hinit.2 (h.mark hinit.1)
  have hclock : initCurTime s.bpr=s.bpr := if_neg (not_not_intro h.clock)
  unfold TrendConfig.boot
  rw [hregisters,hclock]
  exact ⟨⟨h.saved.count,h.saved.params⟩,fun _ _ => rfl⟩

/-- The registers and the screens are ready. -/
structure Ready (access : Bool) (s : ConfigUi) : Prop where
  /-- The stored trends. -/
  store : StoreReady access s.store
  /-- The screens. -/
  screens : Screens s

/-- An operation does one of the three at most. -/
theorem adds_not {s : ConfigUi} {op : ConfigOp} (h : Adds s op) : ¬Deletes s op ∧ ¬Edits s op :=
  ⟨fun hd => absurd (h.1.symm.trans hd.1) (by decide),
    fun he => absurd (h.1.symm.trans he.menu) (by decide)⟩

/-- A key that deletes a trend neither adds nor edits one. -/
theorem deletes_not {s : ConfigUi} {op : ConfigOp} (h : Deletes s op) :
    ¬Adds s op ∧ ¬Edits s op :=
  ⟨fun ha => absurd (h.1.symm.trans ha.1) (by decide),
    fun he => absurd (h.1.symm.trans he.menu) (by decide)⟩

/-- A reboot is none of the three. -/
theorem reboot_not (s : ConfigUi) : ¬Adds s .reboot ∧ ¬Deletes s .reboot ∧ ¬Edits s .reboot :=
  ⟨fun ha => absurd ha.2.2 (by nofun),fun hd => absurd hd.2.2 nofun,
    fun ⟨_,hop,_⟩ => absurd hop nofun⟩

section Step

variable {access : Bool} {s s' : ConfigUi} {op : ConfigOp}

/-- The trend that is added is in range and stands behind the others. -/
theorem Ready.adds (h : Ready access s) (ha : Adds s op)
    (hs : s'.store=saveTrends (addTrend s.store s.tr).1) :
    StoreReady access s'.store ∧ Meets s op s' := by
  obtain ⟨hnd,hne⟩ := adds_not ha
  have hready : StoreReady access s'.store := by
    rw [hs]
    refine h.store.save ?_ (addTrend_count h.store.count _)
      (addTrend_inputsOk h.store.inputs (h.screens.add ha.1).entered)
    unfold addTrend
    split <;> rfl
  refine ⟨hready,hready.count,fun _ => ?_,fun hd => absurd hd hnd,fun hd => absurd hd hnd,
    fun he => absurd he hne,fun hna => absurd ha hna⟩
  rw [hs]
  exact configured_addTrend ha.2.1 s.tr

/-- The trend that is deleted is one of those there are. -/
theorem Ready.deletes (h : Ready access s) (hd : Deletes s op)
    (hs : s'.store=saveTrends (deleteTrend s.store (s.curTrend+1))) :
    StoreReady access s'.store ∧ Meets s op s' := by
  obtain ⟨hna,hne⟩ := deletes_not hd
  have hready : StoreReady access s'.store := by
    rw [hs]
    refine h.store.save ?_ (deleteTrend_count h.store.count _)
      (deleteTrend_inputsOk h.store.inputs _)
    unfold deleteTrend
    dsimp only
    split <;> rfl
  have hchosen (hpos : 0<s.store.trCnt.toNat) : s.curTrend.toNat<s.store.trCnt.toNat := by
    rcases h.screens.delete hd.1 with h0|hlt
    · rw [h0]
      exact hpos
    · exact hlt
  refine ⟨hready,hready.count,fun ha => absurd ha hna,fun _ hsome => ?_,fun _ => ?_,
    fun he => absurd he hne,fun _ hnd => absurd hd hnd⟩
  · have hlen := List.length_pos_of_ne_nil hsome
    unfold configured at hlen ⊢
    rw [entries_length] at hlen ⊢
    exact hchosen hlen
  · rw [hs]
    by_cases hnone : s.store.trCnt.toNat=0
    · have hempty : configured s.store=[] := by
        unfold configured
        rw [hnone]
        rfl
      rw [deleteTrend_of_none hnone,hempty,List.eraseIdx_nil]
      exact hempty
    · exact configured_deleteTrend h.store.count (hchosen (Nat.pos_of_ne_zero hnone))

/-- The trends of the editor are in range and replace those there were. -/
theorem Ready.edits (h : Ready access s) (he : Edits s op) (hs : s'.store=saveTrends (edited s)) :
    StoreReady access s'.store ∧ Meets s op s' := by
  have hslot {i : ℕ} (hi : i<trendMaxCnt) : (edited s).trends i=s.edit.tmpTrends i := if_pos hi
  have hready : StoreReady access s'.store := by
    rw [hs]
    refine h.store.save rfl h.store.count fun i hi => ?_
    rw [hslot hi]
    exact (h.screens.edit he.menu).copies i hi
  refine ⟨hready,hready.count,fun ha => absurd he (adds_not ha).2,
    fun hd => absurd he (deletes_not hd).2,fun hd => absurd he (deletes_not hd).2,
    fun _ => ⟨(congrArg TrendStore.trCnt hs).trans rfl,fun i hi => ?_⟩,fun _ _ hne => absurd he hne⟩
  rw [hs]
  exact congrArg (fun (tr : Trend) (link : Link) => link.get tr) (hslot hi)

/-- An operation that leaves the configuration alone. -/
theorem Ready.others (h : Ready access s) (hnot : ¬Adds s op ∧ ¬Deletes s op ∧ ¬Edits s op)
    (hs : Untouched s'.store s.store) : StoreReady access s'.store ∧ Meets s op s' := by
  obtain ⟨hna,hnd,hne⟩ := hnot
  have hready : StoreReady access s'.store := h.store.untouched hs
  exact ⟨hready,hready.count,fun ha => absurd ha hna,fun hd => absurd hd hnd,
    fun hd => absurd hd hnd,fun he => absurd he hne,fun _ _ _ => hs.same⟩

/-- An operation keeps the configuration ready and does what it is to do. -/
theorem Ready.step (h : Ready access s) (op : ConfigOp) :
    Ready access (configStep access s op) ∧ Meets s op (configStep access s op) := by
  have hscreens : Screens (configStep access s op) := h.screens.step h.store.inputs op
  suffices hstore : StoreReady access (configStep access s op).store ∧
      Meets s op (configStep access s op) from ⟨⟨hstore.1,hscreens⟩,hstore.2⟩
  by_cases hreboot : op=.reboot
  · subst hreboot
    exact h.others (reboot_not s) h.store.boot
  · rcases configStep_store access s hreboot with ⟨ha,hs⟩|⟨hd,hs⟩|⟨he,hs⟩|⟨hnot,hs⟩
    · exact h.adds ha hs
    · exact h.deletes hd hs
    · exact h.edits he hs
    · exact h.others hnot hs

end Step

/-- The clock's mark is there at power-up, and the input numbers loaded for the
second and the third trend are in range. -/
structure Restorable (access : Bool) (bpr : ℕ → UInt32) : Prop where
  /-- init_cur_time does not reset the registers. -/
  clock : bpr 1=0x1234
  /-- The checks of the second and the third trend leave the first one alone. -/
  inputs : ∀ i<trendMaxCnt,i≠0 → InpOk (loadedSlot (initRegisters access bpr) i).inpNum

/-- Initialising the registers leaves the clock register. -/
theorem initRegisters_clock (access : Bool) (bpr : ℕ → UInt32) :
    initRegisters access bpr 1=bpr 1 := by
  unfold initRegisters
  split <;> rfl

/-- Power-up with registers that can be restored. -/
theorem start_ready {access : Bool} {bpr : ℕ → UInt32} (h : Restorable access bpr) :
    Ready access (start access bpr) := by
  have hclock : initRegisters access bpr 1=0x1234 := (initRegisters_clock access bpr).trans h.clock
  have hbpr : initCurTime (initRegisters access bpr)=initRegisters access bpr :=
    if_neg (not_not_intro hclock)
  have hboot : boot access bpr=loadTrends (initRegisters access bpr) := by
    unfold boot
    rw [hbpr]
    rfl
  have hstore : StoreReady access (boot access bpr) := by
    rw [hboot]
    refine ⟨hclock,fun ha => ?_,loadTrends_count _,fun i hi => ?_,SameConfig.refl _⟩
    · change initRegisters access bpr 6=0x1234
      unfold initRegisters
      split
      · rfl
      next hmark => exact not_not.mp fun hne => hmark ⟨ha,hne⟩
    · match i,hi with
      | 0,_ => exact loadTrends_first _
      | 1,hi => exact h.inputs 1 hi (by decide)
      | 2,hi => exact h.inputs 2 hi (by decide)
  exact ⟨hstore,.of_not (show ¬IsTrendScreen .state by decide)⟩

/-- A run of two parts is the run of the second after the first. -/
theorem configRun_append (access : Bool) (bpr : ℕ → UInt32) (ops ops' : List ConfigOp) :
    configRun access bpr (ops++ops')=ops'.foldl (configStep access) (configRun access bpr ops) :=
  List.foldl_append

/-- A run from registers that can be restored. -/
theorem configRun_ready {access : Bool} {bpr : ℕ → UInt32} (h : Restorable access bpr)
    (ops : List ConfigOp) : Ready access (configRun access bpr ops) := by
  induction ops using List.reverseRecOn with
  | nil => exact start_ready h
  | append_singleton ops op ih =>
    rw [configRun_concat]
    exact (ih.step op).1

/-! ## Registers that are not restored -/

/-- What a reboot is to do. -/
theorem meets_reboot {s s' : ConfigUi} (h : Meets s .reboot s') : SameConfig s'.store s.store := by
  obtain ⟨hna,hnd,hne⟩ := reboot_not s
  exact h.others hna hnd hne

/-- A new trend as the screen suggests it. -/
def addKeys : List ConfigOp := [.select .trendConf,.key key2,.key keyEnter]

/-- The first trend is deleted, and the key is released. -/
def deleteKeys : List ConfigOp := [.select .trendConf,.key key4,.key keyEnter,.key 0]

/-- The first trend there is. -/
theorem addTrend_of_none {s : TrendStore} (h : s.trCnt=0) (tr : Trend) : (addTrend s tr).1=
    {s with trends := Function.update s.trends 0 tr,trCnt := 1} := by
  unfold addTrend
  rw [h]
  rfl

/-- The keys that add a trend to an empty store add and save one. -/
theorem addKeys_run (access : Bool) {s : ConfigUi} (hnone : s.store.trCnt=0) :
    (addKeys.foldl (configStep access) s).store=saveTrends (addTrend s.store getNewTrend).1 ∧
      (addKeys.foldl (configStep access) s).deleteKey=s.deleteKey := by
  obtain ⟨⟨⟨trends,trCnt,bpr⟩,tmpTrends,curTrend,params,pos,prevKey,menu⟩,tr,fields,addKey,cur,
    deleteKey⟩ := s
  change trCnt=0 at hnone
  subst hnone
  exact ⟨rfl,rfl⟩

/-- The keys that delete a trend delete and save. -/
theorem deleteKeys_run (access : Bool) {s : ConfigUi} (hkey : s.deleteKey=0) :
    (deleteKeys.foldl (configStep access) s).store=saveTrends (deleteTrend s.store 1) ∧
      (deleteKeys.foldl (configStep access) s).deleteKey=0 := by
  obtain ⟨edit,tr,fields,addKey,cur,deleteKey⟩ := s
  change deleteKey=0 at hkey
  subst hkey
  exact ⟨rfl,rfl⟩

/-- Some operations move the second and the third trend down by one slot. -/
theorem exists_shift (access : Bool) {s : ConfigUi} (hkey : s.deleteKey=0) :
    ∃ ops : List ConfigOp,(ops.foldl (configStep access) s).deleteKey=0 ∧
      (ops.foldl (configStep access) s).store.trends 0=s.store.trends 1 ∧
      (ops.foldl (configStep access) s).store.trends 1=s.store.trends 2 := by
  have hshift {store : TrendStore} (hpos : 1 ≤ store.trCnt) {i : ℕ} (hi : i+1<trendMaxCnt) :
      (deleteTrend store 1).trends i=store.trends (i+1) := by
    rw [deleteTrend_trends (by decide) hpos (by omega),if_neg (by omega)]
    exact if_pos (Nat.le_add_left 1 i)
  by_cases hnone : s.store.trCnt=0
  · obtain ⟨hadd,hkey'⟩ := addKeys_run access hnone
    obtain ⟨hdelete,hkey''⟩ := deleteKeys_run access (hkey'.trans hkey)
    have hpos : 1≤(addKeys.foldl (configStep access) s).store.trCnt := by
      rw [hadd,addTrend_of_none hnone]
      exact (by decide : (1 : UInt8) ≤ 1)
    have hslot {i : ℕ} (hi : i+1<trendMaxCnt) :
        ((addKeys++deleteKeys).foldl (configStep access) s).store.trends i=
          s.store.trends (i+1) := by
      rw [List.foldl_append,hdelete]
      refine (hshift hpos hi).trans ?_
      rw [hadd,addTrend_of_none hnone]
      exact Function.update_of_ne (Nat.succ_ne_zero i) getNewTrend s.store.trends
    refine ⟨addKeys++deleteKeys,?_,hslot (i:=0) (by decide),hslot (i:=1) (by decide)⟩
    rw [List.foldl_append]
    exact hkey''
  · obtain ⟨hdelete,hkey'⟩ := deleteKeys_run access hkey
    have hpos : 1 ≤ s.store.trCnt := by
      rw [UInt8.le_iff_toNat_le]
      exact Nat.pos_of_ne_zero fun h0 => hnone (UInt8.toNat_inj.mp h0)
    have hslot {i : ℕ} (hi : i+1<trendMaxCnt) :
        (deleteKeys.foldl (configStep access) s).store.trends i=s.store.trends (i+1) := by
      rw [hdelete]
      exact hshift hpos hi
    exact ⟨deleteKeys,hkey',hslot (i:=0) (by decide),hslot (i:=1) (by decide)⟩

/-- A trend with an input number out of range comes to the first slot. -/
theorem exists_first_bad {access : Bool} {bpr : ℕ → UInt32} {i : ℕ} (hi : i<trendMaxCnt)
    (hbad : ¬InpOk ((start access bpr).store.trends i).inpNum) :
    ∃ ops,¬InpOk ((configRun access bpr ops).store.trends 0).inpNum := by
  obtain ⟨once,hkey,h0,h1⟩ := exists_shift access (rfl : (start access bpr).deleteKey=0)
  obtain ⟨twice,_,h0',_⟩ := exists_shift access hkey
  match i,hi with
  | 0,_ => exact ⟨[],hbad⟩
  | 1,_ =>
    refine ⟨once,?_⟩
    change ¬InpOk ((once.foldl (configStep access) (start access bpr)).store.trends 0).inpNum
    rw [h0]
    exact hbad
  | 2,_ =>
    refine ⟨once++twice,?_⟩
    rw [configRun_append]
    change ¬InpOk ((twice.foldl (configStep access)
      (once.foldl (configStep access) (start access bpr))).store.trends 0).inpNum
    rw [h0',h1]
    exact hbad

/-- A reboot corrects the input number of the first trend. -/
theorem not_meets_of_first_bad {access : Bool} {s : ConfigUi}
    (h : ¬InpOk (s.store.trends 0).inpNum) : ¬Meets s .reboot (configStep access s .reboot) := by
  intro hmeets
  rw [←(meets_reboot hmeets).inpNum (by decide)] at h
  exact h (loadTrends_first _)

/-- Registers without the mark are initialised when they can be written. -/
theorem boot_of_unmarked {bpr : ℕ → UInt32} (h : bpr 6≠0x1234) : (boot true bpr).trCnt=0 := by
  have hinit : initRegisters true bpr=bprDataWrites bpr defaultWrites := if_pos ⟨rfl,h⟩
  unfold boot
  rw [hinit]
  rfl

/-- Registers that init_cur_time resets are not those of the trends. -/
theorem exists_reset {access : Bool} {bpr : ℕ → UInt32} (hclock : bpr 1≠0x1234)
    (hinputs : InpOk ((start access bpr).store.trends 1).inpNum) :
    ∃ ops,¬Meets (configRun access bpr ops) .reboot
      (configStep access (configRun access bpr ops) .reboot) := by
  have hreset : (start access bpr).store.bpr=Function.update (fun _ => 0) 1 0x1234 := by
    change initCurTime (initRegisters access bpr)=_
    unfold initCurTime
    rw [initRegisters_clock,if_pos hclock]
  cases access with
  | false =>
    refine ⟨[],fun hmeets => ?_⟩
    have hinp := (meets_reboot hmeets).inpNum (by decide : 1<trendMaxCnt)
    change ((boot false (start false bpr).store.bpr).trends 1).inpNum=_ at hinp
    rw [hreset] at hinp
    change (0 : UInt8)=((start false bpr).store.trends 1).inpNum at hinp
    exact hinputs.1 hinp.symm
  | true =>
    by_cases hnone : (start true bpr).store.trCnt=0
    · refine ⟨addKeys,fun hmeets => ?_⟩
      obtain ⟨hadd,_⟩ := addKeys_run true hnone
      have hcount := (meets_reboot hmeets).count
      change (boot true (addKeys.foldl (configStep true) (start true bpr)).store.bpr).trCnt=
        (addKeys.foldl (configStep true) (start true bpr)).store.trCnt at hcount
      rw [hadd,addTrend_of_none hnone,boot_of_unmarked] at hcount
      · exact absurd hcount (by decide : (0 : UInt8)≠1)
      · change (start true bpr).store.bpr 6≠0x1234
        rw [hreset]
        decide
    · refine ⟨[],fun hmeets => hnone ?_⟩
      have hcount := (meets_reboot hmeets).count
      change (boot true (start true bpr).store.bpr).trCnt=(start true bpr).store.trCnt at hcount
      rw [hreset] at hcount
      exact hcount.symm

/-- For every power-up and every run of the three screens: the trends are a
persistent list exactly when their registers can be restored. -/
theorem persistent_iff (access : Bool) (bpr : ℕ → UInt32) :
    (∀ ops op,Meets (configRun access bpr ops) op
      (configStep access (configRun access bpr ops) op)) ↔ Restorable access bpr := by
  constructor
  · intro h
    have hslots : ∀ i<trendMaxCnt,InpOk ((start access bpr).store.trends i).inpNum := by
      intro i hi
      by_contra hbad
      obtain ⟨ops,hops⟩ := exists_first_bad hi hbad
      exact not_meets_of_first_bad hops (h ops .reboot)
    refine ⟨?_,fun i hi hne => ?_⟩
    · by_contra hclock
      obtain ⟨ops,hops⟩ := exists_reset hclock (hslots 1 (by decide))
      exact hops (h ops .reboot)
    · match i,hi with
      | 1,hi => exact hslots 1 hi
      | 2,hi => exact hslots 2 hi
  · intro h ops op
    exact ((configRun_ready h ops).step op).2

/-- The registers of a new panel. -/
def newPanel : ℕ → UInt32 := fun _ => 0

/-- A trend of input 5 of node 111 is added. -/
def addFive : List ConfigOp :=
  [.select .trendConf,.key key2,.key key1,.key key1,.key key1,.key key0,.key key5,.key keyEnter]

/-- A new panel comes back from a reboot with input 1 when its registers cannot
be written before the clock is initialised, and without a trend when they can. -/
theorem newPanel_not_restored :
    ((configRun false newPanel addFive).store.trends 0).inpNum=5 ∧
      ((configRun false newPanel (addFive++[.reboot])).store.trends 0).inpNum=1 ∧
      (configRun true newPanel addFive).store.trCnt=1 ∧
      (configRun true newPanel (addFive++[.reboot])).store.trCnt=0 ∧
      ¬∀ access bpr ops op,Meets (configRun access bpr ops) op
        (configStep access (configRun access bpr ops) op) := by
  have hfive : ((configRun false newPanel addFive).store.trends 0).inpNum=5 := by decide +kernel
  have hone : ((configRun false newPanel (addFive++[.reboot])).store.trends 0).inpNum=1 := by
    decide +kernel
  refine ⟨hfive,hone,by decide +kernel,by decide +kernel,fun h => ?_⟩
  have hsame := (meets_reboot (h false newPanel addFive .reboot)).inpNum (by decide : 0<trendMaxCnt)
  rw [←configRun_concat,hone,hfive] at hsame
  exact absurd hsame (by decide)

end BT816Display.TrendPersist
