import BT816Display.Lib.Runs
import BT816Display.PanelRun

/-!
# The state of the link

A heartbeat marks its node and the common link, and the network task clears
the common link and node 0 when it has waited too long for one. The other
nodes stay marked.
-/

namespace BT816Display.LinkStatus

open ByteMemory ArrayAccess PlcData CanTxStack CanCmd CanRx PanelRun MessageArchive Runs

/-- A heartbeat of node `i` of cluster 0. -/
structure Beat (rx : CanRxMessage) (i : ℕ) : Prop where
  /-- It is a standard frame. -/
  ext : isPacketExtended rx.standardId=false
  /-- It is a heartbeat. -/
  srv : srv rx.standardId.toUInt16=srvHeartbeat
  /-- The cluster. -/
  cluster : clustAddr rx.standardId.toUInt16=0
  /-- The node. -/
  node : (nodeAddr rx.standardId.toUInt16).toNat=i

/-- The mark of node `i`. -/
def plcLink (s : System) (i : ℕ) : UInt8 := s.panel.arrays .plcLink i

/-- The link flag read is the one in the arrays. -/
theorem plcLink_eq {s : System} {m : Arrays Val} (h : s.panel.arrays=m) (i : ℕ) :
    plcLink s i=m .plcLink i := by
  rw [←h]
  rfl

/-! ## What an operation does to the links -/

/-- What an operation does to the marks and to the common link. -/
inductive LinkMove (s s' : System) : PanelOp → Prop
  /-- A heartbeat marks its node. -/
  | beat (rx : CanRxMessage) (hlink : s'.panel.plcCanLink=1)
      (hmark : ∀ i<8,Beat rx i → plcLink s' i=1)
      (hrest : ∀ i,¬Beat rx i → plcLink s' i=plcLink s i) : LinkMove s s' (.receive rx)
  /-- The wait ends and node 0 is cleared. -/
  | timeout (time : UInt32) (ht : TimesOut s) (hlink : s'.panel.plcCanLink=0)
      (hmark : plcLink s' 0=0) (hrest : ∀ i,i≠0 → plcLink s' i=plcLink s i) :
      LinkMove s s' (.tick time)
  /-- Nothing happens to them. -/
  | other (op : PanelOp) (hlink : s'.panel.plcCanLink=s.panel.plcCanLink)
      (hmark : ∀ i,plcLink s' i=plcLink s i) (hbeat : ∀ rx i,op=.receive rx → ¬Beat rx i)
      (ht : ∀ time,op=.tick time → ¬TimesOut s) : LinkMove s s' op

/-- Accesses to other arrays leave the marks alone. -/
theorem plcLink_of_names {accesses : List (Access Val)}
    (h : ∀ a∈accesses,a.array∉[ArrayName.plcLink]) (m : Arrays Val) (i : ℕ) :
    accesses.foldl perform m .plcLink i=m .plcLink i :=
  foldl_of_not_stored (fun a ha he => absurd (List.mem_singleton.mpr he) (h a ha)) m

/-- The mark that a heartbeat leaves. -/
theorem plcLink_linkAccesses (m : Arrays Val) (id : UInt16) (i : ℕ) :
    ((linkAccesses id).foldl perform m .plcLink i : UInt8)=
      if clustAddr id=0 ∧ (nodeAddr id).toNat≤7 ∧ (nodeAddr id).toNat=i then 1
      else m .plcLink i := by
  unfold linkAccesses
  by_cases h : clustAddr id=0 ∧ nodeAddr id≤7
  · have h7 : (nodeAddr id).toNat≤7 := h.2
    rw [if_pos h]
    change (m.set .plcLink (nodeAddr id).toNat (1 : UInt8) .plcLink i : UInt8)=_
    rw [Arrays.set_apply]
    by_cases hi : (nodeAddr id).toNat=i
    · rw [if_pos hi.symm,if_pos ⟨h.1,h7,hi⟩]
    · rw [if_neg fun he => hi he.symm,if_neg fun he => hi he.2.2]
  · have h' : ¬(clustAddr id=0 ∧ (nodeAddr id).toNat≤7 ∧ (nodeAddr id).toNat=i) :=
      fun he => h ⟨he.1,he.2.1⟩
    rw [if_neg h,if_neg h']
    rfl

/-- A step moves the link flags as its operation says. -/
theorem link_move {s s' : System} {op : PanelOp} (hs : panelStep s op=some s') :
    LinkMove s s' op := by
  cases panelStep_stepped hs with
  | receive rx q hreceived =>
    cases hreceived with
    | ignored hext he =>
      refine .other _ (by rw [he]) (fun i => by unfold plcLink; rw [he]) ?_ nofun
      rintro rx' i ⟨⟩ hbeat
      exact absurd (hext.symm.trans hbeat.ext) (by decide)
    | heartbeat hsrv hext harrays hhb hlink hdi =>
      refine .beat rx hlink (fun i hi hbeat => ?_) fun i hbeat => ?_
      · change (q.arrays .plcLink i : UInt8)=1
        rw [harrays,plcLink_linkAccesses,
          if_pos ⟨hbeat.cluster,by rw [hbeat.node]; omega,hbeat.node⟩]
      · change (q.arrays .plcLink i : UInt8)=s.panel.arrays .plcLink i
        rw [harrays,plcLink_linkAccesses,if_neg fun he => hbeat ⟨hext,hsrv,he.1,he.2.2⟩]
    | event hsrv hext ht =>
      refine .other _ ht.plcCanLink (fun i => ?_) ?_ nofun
      · change q.arrays .plcLink i=s.panel.arrays .plcLink i
        rw [ht.arrays,plcLink_of_names (event_names _ _)]
      · rintro rx' i ⟨⟩ hbeat
        exact hsrv hbeat.srv
  | write var q hw =>
    refine .other _ hw.plcCanLink (fun i => ?_) nofun nofun
    change q.arrays .plcLink i=s.panel.arrays .plcLink i
    rcases hw.arrays with he|⟨v,a,b,-,-,he,-,-⟩
    · rw [he]
    · have hplc : ArrayName.plcLink≠v.kind.plcName := by cases v.kind <;> decide
      have hcl : ArrayName.plcLink≠v.kind.clName := by cases v.kind <;> decide
      rw [he,setVar,Arrays.set_of_array_ne _ hcl,Arrays.set_of_array_ne _ hplc]
  | reset =>
    exact .other _ rfl (fun i => plcLink_of_names reset_names _ i) nofun nofun
  | tick time =>
    have h := networkTick_ticked s time
    by_cases ht : TimesOut s
    · have harrays := h.arrays
      rw [if_pos ht] at harrays
      refine .timeout time ht (by rw [h.plcCanLink,if_pos ht]) ?_ fun i hi => ?_
      · unfold plcLink
        rw [harrays,plcLink_of_names reset_names]
        exact Arrays.set_same _ _ _ _
      · unfold plcLink
        rw [harrays,plcLink_of_names reset_names]
        exact Arrays.set_of_index_ne _ _ hi _
    · have harrays := h.arrays
      rw [if_neg ht] at harrays
      refine .other _ (by rw [h.plcCanLink,if_neg ht]) (fun i => ?_) nofun fun _ _ => ht
      unfold plcLink
      rw [harrays]
  | sample diState =>
    have h := updateDiData_sampled s diState
    exact .other _ h.plcCanLink (fun i => by unfold plcLink; rw [h.arrays]) nofun nofun

/-! ## Records -/

/-- The operation loses the link. -/
def Lost (s s' : System) : Prop := s.panel.plcCanLink≠0 ∧ s'.panel.plcCanLink=0

/-- After a run the operation records a lost link once and nothing else. -/
def Recorded (p : Panel) (ops : List PanelOp) (op : PanelOp) : Prop :=
  ∀ s s',panelRun (start p) ops=some s → panelStep s op=some s' →
    (Lost s s' → ∃ r,r.messageId=msgArchCheckCan ∧ s'.records=s.records++[r]) ∧
      (¬Lost s s' → s'.records=s.records)

/-- Every operation records a lost link once and nothing else. -/
theorem recorded (p : Panel) (ops : List PanelOp) (op : PanelOp) : Recorded p ops op := by
  intro s s' _ hs
  have hother (hrec : s'.records=s.records) (hlost : ¬Lost s s') :
      (Lost s s' → ∃ r,r.messageId=msgArchCheckCan ∧ s'.records=s.records++[r]) ∧
        (¬Lost s s' → s'.records=s.records) := ⟨fun h => absurd h hlost,fun _ => hrec⟩
  cases link_move hs with
  | beat rx hlink =>
    obtain ⟨q,hq,rfl⟩ := Option.map_eq_some_iff.mp hs
    exact hother rfl fun h => absurd (hlink.symm.trans h.2) (by decide)
  | timeout time ht hlink =>
    obtain rfl : networkTick s time=s' := Option.some.inj hs
    have hrec := (networkTick_ticked s time).records
    by_cases hl : s.panel.plcCanLink=0
    · have hnone : timeoutRecords s time=[] := if_neg fun h => h.2 hl
      rw [hnone,List.append_nil] at hrec
      exact hother hrec fun h => h.1 hl
    · have hone : timeoutRecords s time=[checkCanRecord time] := if_pos ⟨ht,hl⟩
      rw [hone] at hrec
      exact ⟨fun _ => ⟨checkCanRecord time,rfl,hrec⟩,fun h => absurd ⟨hl,hlink⟩ h⟩
  | other op hlink hmark hbeat ht =>
    have hlost : ¬Lost s s' := fun h => h.1 (hlink.symm.trans h.2)
    cases panelStep_stepped hs with
    | receive rx q _ => exact hother rfl hlost
    | write var q _ => exact hother rfl hlost
    | reset => exact hother rfl hlost
    | tick time =>
      have hnone : timeoutRecords s time=[] := if_neg fun h => ht time rfl h.1
      have hrec := (networkTick_ticked s time).records
      rw [hnone,List.append_nil] at hrec
      exact hother hrec hlost
    | sample diState => exact hother (updateDiData_sampled s diState).records hlost

/-! ## Runs -/

/-- After a run the operation loses the link. -/
def LostAfter (p : Panel) (ops : List PanelOp) (op : PanelOp) : Prop :=
  ∃ s s',panelRun (start p) ops=some s ∧ panelStep s op=some s' ∧ Lost s s'

/-- A heartbeat of node `i` came in the run and the link was not lost behind it. -/
def HeardSinceLoss (p : Panel) (ops : List PanelOp) (i : ℕ) : Prop :=
  ∃ pre rx post,pre++.receive rx::post=ops ∧ Beat rx i ∧
    ∀ a op b,a++op::b=post → ¬LostAfter p (pre++.receive rx::a) op

/-- The links tell the truth after a run: none is marked while the common one
is down, and a marked node was heard since the link was lost last. -/
def Truthful (p : Panel) (ops : List PanelOp) : Prop :=
  ∀ s,panelRun (start p) ops=some s →
    (s.panel.plcCanLink=0 → ∀ i<8,plcLink s i=0) ∧
      ∀ i<8,plcLink s i=1 → HeardSinceLoss p ops i

/-- The wait for a heartbeat does not end after a heartbeat of another node than 0. -/
def OnlyNodeZero (p : Panel) (ops : List PanelOp) (op : PanelOp) : Prop :=
  ∀ s time,panelRun (start p) ops=some s → op=.tick time → TimesOut s →
    ∀ rx i,1 ≤ i → i<8 → Beat rx i → .receive rx∉ops

/-- The links after a run: they tell the truth, and no node but 0 is forgotten. -/
structure LinkInv (p : Panel) (ops : List PanelOp) (s : System) : Prop where
  /-- No mark while the common link is down. -/
  down : s.panel.plcCanLink=0 → ∀ i<8,plcLink s i=0
  /-- A marked node was heard. -/
  heard : ∀ i<8,plcLink s i≠0 → HeardSinceLoss p ops i
  /-- A node that was heard is marked. -/
  marked : ∀ rx i,1 ≤ i → i<8 → Beat rx i → .receive rx∈ops → plcLink s i≠0

/-- A node heard before an operation that does not lose the link. -/
theorem HeardSinceLoss.concat {p : Panel} {ops : List PanelOp} {op : PanelOp} {i : ℕ}
    (h : HeardSinceLoss p ops i) (hop : ¬LostAfter p ops op) : HeardSinceLoss p (ops++[op]) i := by
  obtain ⟨pre,rx,post,rfl,hbeat,hlost⟩ := h
  refine ⟨pre,rx,post++[op],by rw [List.append_assoc,List.cons_append],hbeat,?_⟩
  intro a o b he
  rcases List.eq_nil_or_concat b with rfl|⟨b',o',rfl⟩
  · obtain ⟨rfl,ho⟩ := List.append_inj' he rfl
    cases ho
    exact hop
  · rw [List.concat_eq_append,←List.cons_append,←List.append_assoc] at he
    exact hlost a o b' (List.append_inj' he rfl).1

/-- A node is heard by its heartbeat. -/
theorem heardSinceLoss_beat (p : Panel) (ops : List PanelOp) {rx : CanRxMessage} {i : ℕ}
    (h : Beat rx i) : HeardSinceLoss p (ops++[.receive rx]) i := by
  refine ⟨ops,rx,[],rfl,h,fun a op b he => ?_⟩
  exact absurd he (by simp)

/-- The invariant holds at power on. -/
theorem linkInv_start (p : Panel) : LinkInv p [] (start p) := by
  have hzero (i : ℕ) : plcLink (start p) i=0 := by
    rw [plcLink_eq (start_arrays p),plcLink_of_names cluster_names,plcLink_of_names reset_names,
      plcLink_of_names unused_names]
    rfl
  exact ⟨fun _ i _ => hzero i,fun i _ h => absurd (hzero i) h,
    fun _ _ _ _ _ h => absurd h List.not_mem_nil⟩

/-- The invariant is kept by an operation unless it ends the wait too late. -/
theorem linkInv_step {p : Panel} {ops : List PanelOp} {op : PanelOp} {s s' : System}
    (hinv : LinkInv p ops s) (hrun : panelRun (start p) ops=some s)
    (hs : panelStep s op=some s') (hop : OnlyNodeZero p ops op) : LinkInv p (ops++[op]) s' := by
  have hnotlost (hl : ¬Lost s s') : ¬LostAfter p ops op := by
    rintro ⟨r,r',hr,hr',hlost⟩
    cases hrun.symm.trans hr
    cases hs.symm.trans hr'
    exact hl hlost
  cases link_move hs with
  | beat rx hlink hmark hrest =>
    have hkeep : ¬LostAfter p ops (.receive rx) :=
      hnotlost fun h => absurd (hlink.symm.trans h.2) (by decide)
    refine ⟨fun h => absurd (hlink.symm.trans h) (by decide),fun i hi hm => ?_,
      fun rx' i h1 hi hbeat hmem => ?_⟩
    · by_cases hbeat : Beat rx i
      · exact heardSinceLoss_beat p ops hbeat
      · rw [hrest i hbeat] at hm
        exact (hinv.heard i hi hm).concat hkeep
    · by_cases hnow : Beat rx i
      · rw [hmark i hi hnow]
        decide
      · rw [hrest i hnow]
        rcases List.mem_append.mp hmem with hold|hnew
        · exact hinv.marked rx' i h1 hi hbeat hold
        · cases List.mem_singleton.mp hnew
          exact absurd hbeat hnow
  | timeout time ht hlink hmark hrest =>
    have hzero (i : ℕ) (hi : i<8) : plcLink s' i=0 := by
      by_cases h0 : i=0
      · rw [h0,hmark]
      · by_contra hm
        rw [hrest i h0] at hm
        obtain ⟨pre,rx,post,he,hbeat,-⟩ := hinv.heard i hi hm
        refine hop s time hrun rfl ht rx i (by omega) hi hbeat ?_
        rw [←he]
        exact List.mem_append_right _ List.mem_cons_self
    refine ⟨fun _ => hzero,fun i hi hm => absurd (hzero i hi) hm,fun rx i h1 hi hbeat hmem => ?_⟩
    rcases List.mem_append.mp hmem with hold|hnew
    · exact absurd hold (hop s time hrun rfl ht rx i h1 hi hbeat)
    · cases List.mem_singleton.mp hnew
  | other op hlink hmark hbeat ht =>
    have hkeep : ¬LostAfter p ops op := hnotlost fun h => h.1 (hlink.symm.trans h.2)
    refine ⟨fun h i hi => ?_,fun i hi hm => ?_,fun rx i h1 hi hb hmem => ?_⟩
    · rw [hmark]
      exact hinv.down (hlink.symm.trans h) i hi
    · rw [hmark] at hm
      exact (hinv.heard i hi hm).concat hkeep
    · rw [hmark]
      rcases List.mem_append.mp hmem with hold|hnew
      · exact hinv.marked rx i h1 hi hb hold
      · exact absurd hb (hbeat rx i (List.mem_singleton.mp hnew).symm)

/-- When the wait ends after a heartbeat of another node, that node stays marked. -/
theorem not_truthful_of_late {p : Panel} {ops : List PanelOp} {op : PanelOp} {s : System}
    (hinv : LinkInv p ops s) (hrun : panelRun (start p) ops=some s) (hop : ¬OnlyNodeZero p ops op) :
    ¬Truthful p (ops++[op]) := by
  intro htrue
  refine hop fun r time hr he ht rx i h1 hi hbeat hmem => ?_
  subst he
  cases hrun.symm.trans hr
  have hs : panelStep s (.tick time)=some (networkTick s time) := rfl
  have hafter : panelRun (start p) (ops++[.tick time])=some (networkTick s time) := by
    rw [panelRun_concat,hrun]
    rfl
  cases link_move hs with
  | timeout time' ht' hlink hmark hrest =>
    refine hinv.marked rx i h1 hi hbeat hmem ?_
    rw [←hrest i (by omega)]
    exact (htrue _ hafter).1 hlink i hi
  | other op hlink hmark hbeat' ht' => exact ht' time rfl ht

/-- After a run whose waits end early enough the invariant holds. -/
def LinkInvAfter (p : Panel) (ops : List PanelOp) : Prop :=
  ∀ s,panelRun (start p) ops=some s → LinkInv p ops s

/-- The invariant holds after a run of nothing. -/
theorem linkInvAfter_nil (p : Panel) : LinkInvAfter p [] := by
  intro s hs
  cases hs
  exact linkInv_start p

/-- A step that forgets no node but 0 keeps the invariant. -/
theorem linkInvAfter_concat {p : Panel} {ops : List PanelOp} {op : PanelOp}
    (h : LinkInvAfter p ops) (hop : OnlyNodeZero p ops op) : LinkInvAfter p (ops++[op]) := by
  intro s' hs'
  rw [panelRun_concat] at hs'
  obtain ⟨s,hrun,hs⟩ := Option.bind_eq_some_iff.mp hs'
  exact linkInv_step (h s hrun) hrun hs hop

/-- Under the invariant the flags are truthful. -/
theorem LinkInvAfter.truthful {p : Panel} {ops : List PanelOp} (h : LinkInvAfter p ops) :
    Truthful p ops :=
  fun s hs => ⟨(h s hs).down,fun i hi hm => (h s hs).heard i hi (by rw [hm]; decide)⟩

/-- A step that forgets another node leaves a flag that is not truthful. -/
theorem not_truthful_concat {p : Panel} {ops : List PanelOp} {op : PanelOp}
    (h : LinkInvAfter p ops) (hop : ¬OnlyNodeZero p ops op) : ¬Truthful p (ops++[op]) := by
  intro htrue
  refine hop fun s time hrun he ht => ?_
  by_contra hlate
  exact not_truthful_of_late (h s hrun) hrun (fun hz => hlate (hz s time hrun he ht)) htrue

/-- The links tell the truth in every state of a run, and every lost link is
recorded once, exactly when no wait for a heartbeat ends after a heartbeat of
another node than 0. -/
theorem link_truthful_iff (p : Panel) (ops : List PanelOp) :
    (Throughout (Truthful p) ops ∧ InputsMeet (Recorded p) ops) ↔
      InputsMeet (OnlyNodeZero p) ops := by
  have hrecorded : InputsMeet (Recorded p) ops := fun pre op _ _ => recorded p pre op
  rw [and_iff_left hrecorded]
  exact throughout_iff_inputsMeet (linkInvAfter_nil p) (fun _ => LinkInvAfter.truthful)
    (fun _ _ => linkInvAfter_concat) (fun _ _ => not_truthful_concat) ops

/-! ## A second node -/

/-- Rounds of the network task before the wait ends. -/
theorem ticks_wait (s : System) {n : ℕ} (hn : s.panel.hbCnt.toNat+n<3000) :
    ∃ s',panelRun s (List.replicate n (.tick 0))=some s' ∧
      s'.panel.hbCnt.toNat=s.panel.hbCnt.toNat+n ∧ s'.panel.plcCanLink=s.panel.plcCanLink ∧
        ∀ i,plcLink s' i=plcLink s i := by
  induction n with
  | zero => exact ⟨s,rfl,rfl,rfl,fun _ => rfl⟩
  | succ n ih =>
    obtain ⟨r,hr,hhb,hlink,hmark⟩ := ih (by omega)
    have hadd : (r.panel.hbCnt+1).toNat=r.panel.hbCnt.toNat+1 := by
      rw [UInt16.toNat_add]
      exact Nat.mod_eq_of_lt (by rw [UInt16.toNat_one]; omega)
    have ht : ¬TimesOut r := by
      intro ht
      have h : 3000≤(r.panel.hbCnt+1).toNat := ht
      omega
    have hticked := networkTick_ticked r 0
    refine ⟨networkTick r 0,?_,?_,?_,fun i => ?_⟩
    · rw [List.replicate_succ',panelRun_concat,hr]
      rfl
    · rw [hticked.hbCnt,if_neg ht,hadd]
      omega
    · rw [hticked.plcCanLink,if_neg ht,hlink]
    · rw [plcLink_eq hticked.arrays,if_neg ht]
      exact hmark i

/-- A heartbeat of node 1. -/
def nodeOne : CanRxMessage := ⟨0x409,2,fun _ => 0⟩

/-- Node 1 falls silent: the common link goes down and node 1 stays marked. -/
theorem silent_node_stays : ∃ s,
    panelRun (start zeroPanel) (.receive nodeOne::List.replicate 3000 (.tick 0))=some s ∧
      s.panel.plcCanLink=0 ∧ plcLink s 1=1 ∧
        ¬Truthful zeroPanel (.receive nodeOne::List.replicate 3000 (.tick 0)) := by
  obtain ⟨q,hq⟩ := Option.isSome_iff_exists.mp
    ((checkCanRxData_isSome_iff (start zeroPanel).panel nodeOne).mpr (by decide))
  have hreceive := panelStep_receive hq
  have hbeat : Beat nodeOne 1 := ⟨by decide,by decide,by decide,by decide⟩
  have hhb : q.hbCnt=0 := by
    cases checkCanRxData_received hq with
    | ignored hext => exact absurd hext (by decide)
    | heartbeat _ _ _ hhb => exact hhb
    | event hsrv => exact absurd (by decide) hsrv
  have hmark : plcLink {start zeroPanel with panel := q} 1=1 := by
    cases link_move hreceive with
    | beat _ _ hmark => exact hmark 1 (by decide) hbeat
    | other _ _ _ hnot => exact absurd hbeat (hnot nodeOne 1 rfl)
  obtain ⟨r,hr,hcnt,-,hsame⟩ := ticks_wait {start zeroPanel with panel := q} (n:=2999)
    (by rw [hhb]; decide)
  have hr' : panelRun (start zeroPanel) (.receive nodeOne::List.replicate 2999 (.tick 0))=some r := by
    rw [panelRun_cons,hreceive,Option.bind_some,hr]
  have ht : TimesOut r := by
    have h : r.panel.hbCnt=2999 := UInt16.toNat_inj.mp (by rw [hcnt,hhb]; rfl)
    unfold TimesOut
    rw [h]
    decide
  have hlast : panelStep r (.tick 0)=some (networkTick r 0) := rfl
  have hrun : panelRun (start zeroPanel) (.receive nodeOne::List.replicate 3000 (.tick 0))=
      some (networkTick r 0) := by
    rw [List.replicate_succ',←List.cons_append,panelRun_concat,hr']
    exact hlast
  cases link_move hlast with
  | timeout _ _ hlink _ hrest =>
    have hstill : plcLink (networkTick r 0) 1=1 := by rw [hrest 1 (by decide),hsame,hmark]
    refine ⟨_,hrun,hlink,hstill,fun h => ?_⟩
    exact absurd (((h _ hrun).1 hlink 1 (by decide)).symm.trans hstill) (by decide)
  | other _ _ _ _ hnot => exact absurd ht (hnot 0 rfl)

end BT816Display.LinkStatus
