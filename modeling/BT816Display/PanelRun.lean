import BT816Display.CanCmd
import BT816Display.CanRx
import BT816Display.Lib.LoopAccess
import BT816Display.Lib.Runs
import BT816Display.MessageArchive

/-!
# Runs of a panel

The CAN receiver, the operator's writes, the network task of main.c and the
sampling of the inputs in can_task.c share the variables of the panel and come
in any order.
-/

namespace BT816Display.PanelRun

open ByteMemory BigEndian ArrayAccess PlcData CanTxStack CanCmd CanRx MessageArchive Runs

/-! ## Initialisation and reset -/

/-- The stores of reset_plc_data. -/
@[irreducible] def resetAccesses : List (Access Val) :=
  List.flatten [
    loop diCnt (fun i => [.store .plcDiState i .off,.store .plcAinRaw i 0,.store .clDinState i 0,
      .store .clAinValue i 0]),
    loop doCnt (fun i => [.store .clDoutState i 0,.store .plcDoState i .off]),
    loop clustBitsCnt (fun i => [.store .clClusterBits i 0,.store .plcClustBits i 0]),
    loop clusterRegsCnt (fun i => [.store .clClusterRegs i 0,.store .plcClustRegs i 0]),
    loop netBitsCnt (fun i => [.store .clNetBits i 0,.store .plcNetBits i 0]),
    loop netRegsCnt (fun i => [.store .clNetRegs i 0,.store .plcNetRegs i 0])]

/-- reset_plc_data. -/
def resetPlcData (p : Panel) : Panel :=
  {p with arrays := resetAccesses.foldl perform p.arrays}

/-- The arrays after a reset are those its stores leave. -/
@[simp] theorem resetPlcData_arrays (p : Panel) :
    (resetPlcData p).arrays=resetAccesses.foldl perform p.arrays := rfl

/-- A reset leaves the heartbeat count. -/
@[simp] theorem resetPlcData_hbCnt (p : Panel) : (resetPlcData p).hbCnt=p.hbCnt := rfl

/-- A reset leaves the CAN link flag. -/
@[simp] theorem resetPlcData_plcCanLink (p : Panel) :
    (resetPlcData p).plcCanLink=p.plcCanLink := rfl

/-- A reset leaves the flag of the inputs. -/
@[simp] theorem resetPlcData_updateDi (p : Panel) : (resetPlcData p).updateDi=p.updateDi := rfl

/-- The stores of init_plc_data before it calls reset_plc_data. -/
def unusedAccesses : List (Access Val) := loop diCnt fun i => [.store .plcDiType i .unused]

/-- init_plc_data. -/
def initPlcData (p : Panel) : Panel :=
  resetPlcData {p with arrays := unusedAccesses.foldl perform p.arrays}

/-- The arrays after the initialisation of the PLC data. -/
@[simp] theorem initPlcData_arrays (p : Panel) : (initPlcData p).arrays=
    resetAccesses.foldl perform (unusedAccesses.foldl perform p.arrays) := by
  unfold initPlcData
  rw [resetPlcData_arrays]

/-- The stores of init_cluster, without the names of the inputs and outputs. -/
@[irreducible] def clusterAccesses : List (Access Val) :=
  List.flatten [
    loop clustBitsCnt (fun i => [.store .clClusterBits i 0]),
    loop netBitsCnt (fun i => [.store .clNetBits i 0]),
    loop clusterRegsCnt (fun i => [.store .clClusterRegs i 0]),
    loop netRegsCnt (fun i => [.store .clNetRegs i 0]),
    loop diCnt (fun i => [.store .clAinUsed i 0,.store .clAinFault i 0,.store .clAinRaw i 0,
      .store .clAinTdu i 0,.store .clAinValue i 0,.store .clDinUsed i 0,.store .clDinFault i 0,
      .store .clDinState i 0])]

/-- init_cluster. -/
def initCluster (p : Panel) : Panel :=
  {p with clEthipState := 0,clAppId := 0,arrays := clusterAccesses.foldl perform p.arrays}

/-- The arrays after the initialisation of the cluster. -/
@[simp] theorem initCluster_arrays (p : Panel) :
    (initCluster p).arrays=clusterAccesses.foldl perform p.arrays := rfl

/-- Stores of a loop over elements that all its arrays have are in bounds. -/
theorem rounds_inBounds {n : ℕ} {f : ℕ → List (Access Val)}
    (h : ∀ i<n,∀ a∈f i,a.index=i ∧ n ≤ size a.array) : AllInBounds (loop n f) := by
  refine (allInBounds_rounds n f).mpr fun i hi a ha => ?_
  obtain ⟨hindex,hsize⟩ := h i hi a ha
  unfold Access.InBounds
  rw [hindex]
  omega

/-- Loops in bounds, one after the other. -/
theorem flatten_inBounds {loops : List (List (Access Val))} (h : ∀ l∈loops,AllInBounds l) :
    AllInBounds loops.flatten := by
  intro a ha
  obtain ⟨l,hl,hmem⟩ := List.mem_flatten.mp ha
  exact h l hl a hmem

/-- The loops of reset_plc_data stay inside the arrays. -/
theorem resetAccesses_inBounds : AllInBounds resetAccesses := by
  unfold resetAccesses
  refine flatten_inBounds ?_
  simp only [List.forall_mem_cons,List.not_mem_nil,false_imp_iff,implies_true,and_true]
  refine ⟨?_,?_,?_,?_,?_,?_⟩ <;>
  exact rounds_inBounds fun i _ => by simp [Access.array,Access.index,size]

/-- So does the one of init_plc_data. -/
theorem unusedAccesses_inBounds : AllInBounds unusedAccesses :=
  rounds_inBounds fun i _ => by simp [Access.array,Access.index,size]

/-- So do those of init_cluster. -/
theorem clusterAccesses_inBounds : AllInBounds clusterAccesses := by
  unfold clusterAccesses
  refine flatten_inBounds ?_
  simp only [List.forall_mem_cons,List.not_mem_nil,false_imp_iff,implies_true,and_true]
  refine ⟨?_,?_,?_,?_,?_⟩ <;>
  exact rounds_inBounds fun i _ => by simp [Access.array,Access.index,size]

/-- The reset is its stores, each checked against the size of its array. -/
theorem resetPlcData_performed (p : Panel) : p.perform resetAccesses=some (resetPlcData p) :=
  p.perform_of_inBounds resetAccesses_inBounds

/-- The initialisation is its stores, each checked against the size of its array. -/
theorem initialisation_performed (p : Panel) :
    performAll size p.arrays (unusedAccesses++resetAccesses++clusterAccesses)=
      some (initCluster (initPlcData p)).arrays := by
  rw [performAll_of_inBounds,List.foldl_append,List.foldl_append,initCluster_arrays,
    initPlcData_arrays]
  rw [List.forall_mem_append,List.forall_mem_append]
  exact ⟨⟨unusedAccesses_inBounds,resetAccesses_inBounds⟩,clusterAccesses_inBounds⟩

/-! ## Tasks -/

/-- The panel with the variables of its tasks and what they pass on. -/
structure System where
  /-- The shared variables. -/
  panel : Panel
  /-- cnt of network_task_function. -/
  cnt : UInt16
  /-- prev_di, the inputs at the last sample. -/
  prevDi : UInt16
  /-- di_tmr, samples since the last report. -/
  diTmr : UInt16
  /-- Records passed to add_record_to_archive. -/
  records : List MessageRecord
  /-- Packets passed to add_tx_can_packet by send_packed_physical_digits. -/
  digits : List TxStackData

/-- MSG_ARCH_CHECK_CAN. -/
abbrev msgArchCheckCan : UInt16 := 2

/-- The record of a lost link; its body is one byte, the CAN error. -/
def checkCanRecord (time : UInt32) : MessageRecord where
  ptr := fun _ => 0
  time := time
  messageId := msgArchCheckCan
  messageType := 0
  length := 1

/-- The end of the wait for a heartbeat in network_task_function. -/
def linkTimeout (s : System) (time : UInt32) : System :=
  let s :=
    if s.panel.plcCanLink≠0 then {s with records := s.records++[checkCanRecord time]} else s
  let p := {s.panel with hbCnt := 0,plcCanLink := 0}
  let p := {p with arrays := p.arrays.set .plcLink 0 (0 : UInt8)}
  {s with panel := resetPlcData p}

/-- One round of network_task_function; the calculations and the LEDs touch no
variable of the panel. -/
def networkTick (s : System) (time : UInt32) : System :=
  let s := {s with cnt := s.cnt+1}
  let p : Panel := if s.cnt%900=0 then {s.panel with curLongTime := time} else s.panel
  let p : Panel :=
    if p.getIoNamesFlag≠0 then
      let p : Panel := {p with getIoNamesFlag := p.getIoNamesFlag+1}
      if p.getIoNamesFlag≥10 then {p with getIoNamesFlag := 0} else p
    else p
  let p : Panel := {p with hbCnt := p.hbCnt+1}
  if p.hbCnt≥3000 then linkTimeout {s with panel := p} time else {s with panel := p}

/-- send_packed_physical_digits; it sends 1 and not its first argument. -/
def sendPackedPhysicalDigits (s : System) (_startBit state fault mask : UInt8) : System :=
  let packet := packetOf (eventId s.panel.lcdCanAddr s.panel.clusterAddr) [0x01,0x01,state,fault,mask]
  {s with panel := queue s.panel packet,digits := s.digits++[packet]}

/-- The bit 1<<i of a word. -/
def bit16 (i : ℕ) : UInt16 := 1<<<UInt16.ofNat i

/-- The bit 1<<i of a byte. -/
def bit8 (i : ℕ) : UInt8 := 1<<<UInt8.ofNat i

/-- The first loop of update_di_data, which marks the changed inputs. -/
def markChanged (prevDi curDi updateDi : UInt16) : UInt16 :=
  (List.range 8).foldl (fun update i =>
    if prevDi&&&bit16 i≠curDi&&&bit16 i then update|||bit16 i else update) updateDi

/-- The second loop of update_di_data, which collects the states to be sent. -/
def sendState (diMask : UInt8) (curDi : UInt16) : UInt8 :=
  (List.range 8).foldl (fun state i =>
    if diMask&&&bit8 i≠0 then if curDi&&&bit16 i≠0 then state|||bit8 i else state else state) 0

/-- The report of the changed inputs in update_di_data. -/
def reportDi (s : System) (curDi : UInt16) : System :=
  let diFitted : UInt16 := 0x00FF
  let diMask := (s.panel.updateDi&&&diFitted&&&0xFF).toUInt8
  if diMask≠0 then
    let s := sendPackedPhysicalDigits s 1 (sendState diMask curDi) 0 diMask
    {s with panel := {s.panel with updateDi := s.panel.updateDi&&&0xFF00}}
  else s

/-- update_di_data, with the result of get_di_state. -/
def updateDiData (s : System) (diState : UInt8) : System :=
  let curDi := diState.toUInt16
  let updateDi := markChanged s.prevDi curDi s.panel.updateDi
  let s := {s with panel := {s.panel with updateDi := updateDi},diTmr := s.diTmr+1}
  let s := if s.diTmr=20 then {reportDi s curDi with diTmr := 0} else s
  {s with prevDi := curDi}

/-! ## Runs -/

/-- What happens to a panel. -/
inductive PanelOp where
  /-- A frame is received. -/
  | receive (rx : CanRxMessage)
  /-- The operator writes a variable. -/
  | write (var : ManageVar)
  /-- reset_plc_data is called. -/
  | reset
  /-- A round of the network task, at a time. -/
  | tick (time : UInt32)
  /-- The inputs are sampled. -/
  | sample (diState : UInt8)

/-- One operation, with no result behind an array index out of bounds. -/
def panelStep (s : System) : PanelOp → Option System
  | .receive rx => (checkCanRxData s.panel rx).map fun p => {s with panel := p}
  | .write var => (writeVarToPlc s.panel var).map fun r => {s with panel := r.1}
  | .reset => some {s with panel := resetPlcData s.panel}
  | .tick time => some (networkTick s time)
  | .sample diState => some (updateDiData s diState)

/-- Operations in order. -/
def panelRun (s : System) (ops : List PanelOp) : Option System := ops.foldlM panelStep s

/-- A panel after init_plc_data and init_cluster, with any configuration. -/
def start (p : Panel) : System where
  panel := initCluster (initPlcData
    {p with arrays := zeroArrays,hbCnt := 0,updateDi := 0,plcCanLink := 0})
  cnt := 0
  prevDi := 0
  diTmr := 0
  records := []
  digits := []

/-- The arrays after the initialisation. -/
theorem start_arrays (p : Panel) : (start p).panel.arrays=clusterAccesses.foldl perform
    (resetAccesses.foldl perform (unusedAccesses.foldl perform zeroArrays)) := by
  unfold start
  rw [initCluster_arrays,initPlcData_arrays]

/-- A run of nothing leaves the system. -/
@[simp] theorem panelRun_nil (s : System) : panelRun s []=some s := rfl

/-- A run is its first step and the run of the rest. -/
theorem panelRun_cons (s : System) (op : PanelOp) (ops : List PanelOp) :
    panelRun s (op::ops)=(panelStep s op).bind fun s' => panelRun s' ops := rfl

/-- A run does its operations one after the other. -/
theorem panelRun_concat (s : System) (ops : List PanelOp) (op : PanelOp) :
    panelRun s (ops++[op])=(panelRun s ops).bind fun s' => panelStep s' op :=
  foldlM_concat panelStep s ops op

/-! ## The accesses of a received frame -/

/-- The accesses of an event. -/
def eventAccesses (id : UInt16) (data : Mem UInt8) : List (Access Val) :=
  match getEoid data with
  | 0x01 => diDoAccesses data
  | 0x03 => clustBitsAccesses data
  | 0x05 =>
    if getInternAddr data≥1 ∧ (getInternAddr data).toNat≤aiCnt then
      ainAccesses data ((getInternAddr data).toNat-1)
    else []
  | 0x06 => clustRegAccesses data
  | 0x0A => ioTypesAccesses data
  | 0x0E => netBitsAccesses id data
  | 0x0F => netRegAccesses id data
  | _ => []

/-- The accesses of a heartbeat. -/
def linkAccesses (id : UInt16) : List (Access Val) :=
  if clustAddr id=0 ∧ nodeAddr id≤7 then [.store .plcLink (nodeAddr id).toNat 1] else []

/-! ## The arrays of each message -/

/-- The arrays of packed states of inputs and outputs. -/
def diDoNames : List ArrayName :=
  [.plcDiType,.clDinUsed,.plcDiState,.clDinFault,.clDinState,.plcDoState,.clDoutFault,.clDoutState]

/-- A digital report touches inputs and outputs only. -/
theorem diDo_names (data : Mem UInt8) : ∀ a∈diDoAccesses data,a.array∈diDoNames := by
  refine List.forall_mem_flatMap.mpr fun i _ => ?_
  dsimp only
  split_ifs
  · cases bit (data 3).toNat i <;> cases bit (data 2).toNat i <;>
      simp [dinAccesses,Access.array,diDoNames]
  · cases bit (data 3).toNat i <;> cases bit (data 2).toNat i <;>
      simp [doutAccesses,Access.array,diDoNames]
  · exact List.forall_mem_nil _
  · exact List.forall_mem_nil _

/-- Event 0x03 touches cluster bits only. -/
theorem clustBits_names (data : Mem UInt8) :
    ∀ a∈clustBitsAccesses data,a.array∈[.plcClustBits,.clClusterBits] := by
  refine List.forall_mem_flatMap.mpr fun i _ => ?_
  dsimp only
  split_ifs
  · cases bit (data 2).toNat i <;> simp [clustBitAccesses,Access.array]
  · exact List.forall_mem_nil _
  · exact List.forall_mem_nil _

/-- The arrays of an analogue input. -/
def ainNames : List ArrayName := [.plcAinRaw,.clAinRaw,.clAinFault,.clAinTdu,.clAinValue]

/-- An analogue report touches analogue inputs only. -/
theorem ain_names (data : Mem UInt8) (n : ℤ) : ∀ a∈ainAccesses data n,a.array∈ainNames := by
  simp [ainAccesses,Access.array,ainNames]

/-- Event 0x06 touches cluster registers only. -/
theorem clustReg_names (data : Mem UInt8) :
    ∀ a∈clustRegAccesses data,a.array∈[.plcClustRegs,.clClusterRegs] := by
  unfold clustRegAccesses
  dsimp only
  split_ifs <;> simp [Access.array]

/-- The arrays of the inputs in use. -/
def ioTypesNames : List ArrayName := [.plcAiType,.clAinUsed,.plcDiType,.clDinUsed]

/-- A types report touches the types of the inputs only. -/
theorem ioTypes_names (data : Mem UInt8) : ∀ a∈ioTypesAccesses data,a.array∈ioTypesNames := by
  unfold ioTypesAccesses
  dsimp only
  split_ifs
  · refine List.forall_mem_flatMap.mpr fun i _ => ?_
    split_ifs
    · cases bit (join16 (data 3) (data 2)).toNat i <;>
        simp [aiTypeAccesses,Access.array,ioTypesNames]
    · exact List.forall_mem_nil _
  · refine List.forall_mem_flatMap.mpr fun i _ => ?_
    split_ifs
    · cases bit (join16 (data 3) (data 2)).toNat i <;>
        simp [diTypeAccesses,Access.array,ioTypesNames]
    · exact List.forall_mem_nil _
  · exact List.forall_mem_nil _

/-- Event 0x0E touches network bits only. -/
theorem netBits_names (id : UInt16) (data : Mem UInt8) :
    ∀ a∈netBitsAccesses id data,a.array∈[.plcNetBits,.clNetBits] := by
  refine List.forall_mem_flatMap.mpr fun i _ => ?_
  dsimp only
  split_ifs
  · cases bit (data 2).toNat i <;> simp [netBitAccesses,Access.array]
  · exact List.forall_mem_nil _
  · exact List.forall_mem_nil _

/-- Event 0x0F touches network registers only. -/
theorem netReg_names (id : UInt16) (data : Mem UInt8) :
    ∀ a∈netRegAccesses id data,a.array∈[.plcNetRegs,.clNetRegs] := by
  unfold netRegAccesses
  dsimp only
  split_ifs <;> simp [Access.array]

/-- A link event touches the link flags only. -/
theorem link_names (id : UInt16) : ∀ a∈linkAccesses id,a.array∈[.plcLink] := by
  unfold linkAccesses
  split_ifs <;> simp [Access.array]

/-- The reset leaves the links alone. -/
theorem reset_names : ∀ a∈resetAccesses,a.array∉[ArrayName.plcLink] := by
  unfold resetAccesses
  simp only [List.flatten_cons,List.flatten_nil,List.append_nil,List.forall_mem_append,
    forall_mem_loop]
  simp [Access.array]

/-- The initialisation of the types leaves the links alone. -/
theorem unused_names : ∀ a∈unusedAccesses,a.array∉[ArrayName.plcLink] := by
  unfold unusedAccesses
  rw [forall_mem_loop]
  simp [Access.array]

/-- init_cluster leaves the links alone. -/
theorem cluster_names : ∀ a∈clusterAccesses,a.array∉[ArrayName.plcLink] := by
  unfold clusterAccesses
  simp only [List.flatten_cons,List.flatten_nil,List.append_nil,List.forall_mem_append,
    forall_mem_loop]
  simp [Access.array]

/-- Accesses to some arrays touch no others. -/
theorem not_mem_of_names {S T : List ArrayName} {accesses : List (Access Val)}
    (h : ∀ a∈accesses,a.array∈S) (hd : ∀ name∈S,name∉T) : ∀ a∈accesses,a.array∉T := fun a ha => hd _ (h a ha)

/-- Events do not mark links. -/
theorem event_names (id : UInt16) (data : Mem UInt8) :
    ∀ a∈eventAccesses id data,a.array∉[ArrayName.plcLink] := by
  unfold eventAccesses
  split
  · exact not_mem_of_names (diDo_names data) (by decide)
  · exact not_mem_of_names (clustBits_names data) (by decide)
  · split_ifs
    · exact not_mem_of_names (ain_names data _) (by decide)
    · exact List.forall_mem_nil _
  · exact not_mem_of_names (clustReg_names data) (by decide)
  · exact not_mem_of_names (ioTypes_names data) (by decide)
  · exact not_mem_of_names (netBits_names id data) (by decide)
  · exact not_mem_of_names (netReg_names id data) (by decide)
  · exact List.forall_mem_nil _

/-! ## What an operation does to the panel -/

/-- A result of accesses has the arrays they leave, and nothing else changed. -/
theorem perform_eq_some {p q : Panel} {accesses : List (Access Val)}
    (h : p.perform accesses=some q) :
    q={p with arrays := accesses.foldl ArrayAccess.perform p.arrays} := by
  have hin := (p.perform_isSome_iff accesses).mp (Option.isSome_of_eq_some h)
  rw [Panel.perform_of_inBounds p hin] at h
  exact (Option.some.inj h).symm

/-- The arrays change by accesses, the state of the link does not. -/
structure Touched (accesses : List (Access Val)) (p q : Panel) : Prop where
  /-- The arrays. -/
  arrays : q.arrays=accesses.foldl perform p.arrays
  /-- hb_cnt. -/
  hbCnt : q.hbCnt=p.hbCnt
  /-- plc_can_link. -/
  plcCanLink : q.plcCanLink=p.plcCanLink
  /-- update_di. -/
  updateDi : q.updateDi=p.updateDi

/-- Doing nothing touches nothing. -/
theorem touched_nil (p : Panel) : Touched [] p p := ⟨rfl,rfl,rfl,rfl⟩

/-- Performing accesses touches their arrays only. -/
theorem touched_of_perform {p q : Panel} {accesses : List (Access Val)}
    (h : p.perform accesses=some q) : Touched accesses p q := by
  rw [perform_eq_some h]
  exact ⟨rfl,rfl,rfl,rfl⟩

/-- An event changes the arrays by its accesses. -/
theorem event_touched {p q : Panel} {id : UInt16} {data : Mem UInt8} (h : event p id data=some q) :
    Touched (eventAccesses id data) p q := by
  unfold event at h
  unfold eventAccesses
  dsimp only at h
  split at h
  next he => rw [he]; exact touched_of_perform h
  next he => rw [he]; exact touched_of_perform h
  next he =>
    rw [he]
    split_ifs at h ⊢
    · obtain ⟨r,hr,rfl⟩ := Option.map_eq_some_iff.mp h
      exact ⟨(touched_of_perform hr).arrays,(touched_of_perform hr).hbCnt,
        (touched_of_perform hr).plcCanLink,(touched_of_perform hr).updateDi⟩
    · cases h
      exact touched_nil p
  next he => rw [he]; exact touched_of_perform h
  next he => rw [he]; exact touched_of_perform h
  next he => rw [he]; exact touched_of_perform h
  next he => rw [he]; exact touched_of_perform h
  next he =>
    rw [he]
    split_ifs at h <;> cases h <;> exact ⟨rfl,rfl,rfl,rfl⟩
  next =>
    cases h
    split <;> first | contradiction | exact touched_nil p

/-- What a received frame does. -/
inductive Received (p q : Panel) (rx : CanRxMessage) : Prop
  /-- A frame for another protocol is ignored. -/
  | ignored (hext : isPacketExtended rx.standardId=true) (h : q=p)
  /-- A heartbeat marks the link and restarts the wait. -/
  | heartbeat (hsrv : srv rx.standardId.toUInt16=srvHeartbeat)
      (hext : isPacketExtended rx.standardId=false)
      (harrays : q.arrays=(linkAccesses rx.standardId.toUInt16).foldl perform p.arrays)
      (hhb : q.hbCnt=0) (hlink : q.plcCanLink=1)
      (hdi : q.updateDi=if p.plcCanLink≠0 then p.updateDi else 0xFF)
  /-- An event touches the arrays. -/
  | event (hsrv : srv rx.standardId.toUInt16≠srvHeartbeat)
      (hext : isPacketExtended rx.standardId=false)
      (h : Touched (eventAccesses rx.standardId.toUInt16 rx.data) p q)

/-- A frame has the effect of its event. -/
theorem checkCanRxData_received {p q : Panel} {rx : CanRxMessage}
    (h : checkCanRxData p rx=some q) : Received p q rx := by
  unfold checkCanRxData at h
  dsimp only at h
  by_cases hext : isPacketExtended rx.standardId=true
  · rw [if_pos hext] at h
    exact .ignored hext (Option.some.inj h).symm
  · rw [if_neg hext] at h
    by_cases hsrv : srv rx.standardId.toUInt16=srvHeartbeat
    · rw [if_pos hsrv] at h
      unfold CanRx.heartbeat at h
      obtain ⟨r,hr,rfl⟩ := Option.map_eq_some_iff.mp h
      have ht := touched_of_perform hr
      refine .heartbeat hsrv (Bool.eq_false_of_not_eq_true hext) ?_ ?_ ht.plcCanLink ?_
      · refine ht.arrays.trans ?_
        unfold linkAccesses
        dsimp only
        split_ifs <;> rfl
      · refine ht.hbCnt.trans ?_
        dsimp only
        split_ifs <;> rfl
      · refine ht.updateDi.trans ?_
        dsimp only
        split_ifs <;> rfl
    · rw [if_neg hsrv] at h
      exact .event hsrv (Bool.eq_false_of_not_eq_true hext) (event_touched h)

/-- What a write of a variable does. -/
structure Written (var : ManageVar) (p q : Panel) : Prop where
  /-- Both copies of the variable get the same value, if there is such a variable. -/
  arrays : q.arrays=p.arrays ∨ ∃ v a b,v.index<v.kind.count ∧ v.kind.plcNat a=v.kind.clNat b ∧
    q.arrays=setVar p.arrays v a b ∧ var.linkType=v.kind.linkType ∧ var.linkIndex.toNat=v.index
  /-- hb_cnt. -/
  hbCnt : q.hbCnt=p.hbCnt
  /-- plc_can_link. -/
  plcCanLink : q.plcCanLink=p.plcCanLink
  /-- update_di. -/
  updateDi : q.updateDi=p.updateDi

/-- Writing nothing is a write with no effect. -/
theorem written_refl (var : ManageVar) (p : Panel) : Written var p p := ⟨Or.inl rfl,rfl,rfl,rfl⟩

/-- A variable stored on both sides and queued for the bus is written. -/
theorem written_stored (p : Panel) {var : ManageVar} {v : Variable} (hv : v.index<v.kind.count)
    {a : Val v.kind.plcName} {b : Val v.kind.clName} (h : v.kind.plcNat a=v.kind.clNat b)
    (ht : var.linkType=v.kind.linkType) (hi : var.linkIndex.toNat=v.index)
    (packet : TxStackData) : Written var p (queue (stored p v a b) packet) :=
  ⟨Or.inr ⟨v,a,b,hv,h,rfl,ht,hi⟩,rfl,rfl,rfl⟩

/-- A write of a number outside its kind changes nothing. -/
theorem writeLinked_of_not_lt {p : Panel} {var : ManageVar}
    (hcr : var.linkType=varLinkClReg → ¬var.linkIndex.toNat<64)
    (hnr : var.linkType=varLinkNetReg → ¬var.linkIndex.toNat<16)
    (hcb : var.linkType=varLinkClBit → ¬var.linkIndex.toNat<224)
    (hnb : var.linkType=varLinkNetBit → ¬var.linkIndex.toNat<16) : writeLinked p var=some p := by
  unfold writeLinked
  dsimp only
  split_ifs with h1 h2 h3 h4 h5 h6 h7 h8
  · exact absurd (Int.ofNat_lt.mp h2) (hcr h1)
  · rfl
  · exact absurd (Int.ofNat_lt.mp h4) (hnr h3)
  · rfl
  · exact absurd (Int.ofNat_lt.mp h6) (hcb h5)
  · rfl
  · exact absurd (Int.ofNat_lt.mp h8) (hnb h7)
  · rfl
  · rfl

/-- A write stays in bounds and gives one variable the same value in both copies. -/
theorem writeVarToPlc_written (p : Panel) (var : ManageVar) :
    ∃ r,writeVarToPlc p var=some r ∧ Written var p r.1 := by
  by_cases hlink : p.plcCanLink=0
  · exact ⟨(p,var),if_pos hlink,written_refl var p⟩
  by_cases hcr : var.linkType=varLinkClReg ∧ var.linkIndex.toNat<64
  · exact ⟨_,writeVarToPlc_clustReg hlink hcr.1 rfl hcr.2,
      written_stored p (v:=⟨.clustReg,_⟩) hcr.2 rfl hcr.1 rfl _⟩
  by_cases hnr : var.linkType=varLinkNetReg ∧ var.linkIndex.toNat<16
  · exact ⟨_,writeVarToPlc_netReg hlink hnr.1 rfl hnr.2,
      written_stored p (v:=⟨.netReg,_⟩) hnr.2 rfl hnr.1 rfl _⟩
  by_cases hcb : var.linkType=varLinkClBit ∧ var.linkIndex.toNat<224
  · exact ⟨_,writeVarToPlc_clustBit hlink hcb.1 rfl hcb.2,
      written_stored p (v:=⟨.clustBit,_⟩) hcb.2 rfl hcb.1 rfl _⟩
  by_cases hnb : var.linkType=varLinkNetBit ∧ var.linkIndex.toNat<16
  · exact ⟨_,writeVarToPlc_netBit hlink hnb.1 rfl hnb.2,
      written_stored p (v:=⟨.netBit,_⟩) hnb.2 rfl hnb.1 rfl _⟩
  have hnone : writeLinked p {var with value := clamp var}=some p :=
    writeLinked_of_not_lt (fun h hn => hcr ⟨h,hn⟩) (fun h hn => hnr ⟨h,hn⟩)
      (fun h hn => hcb ⟨h,hn⟩) fun h hn => hnb ⟨h,hn⟩
  refine ⟨(p,{var with value := clamp var}),?_,written_refl var p⟩
  unfold writeVarToPlc
  dsimp only
  rw [if_neg hlink,hnone]
  rfl

/-- The network task has waited too long for a heartbeat. -/
def TimesOut (s : System) : Prop := s.panel.hbCnt+1≥3000

/-- Whether the link times out can be decided. -/
instance (s : System) : Decidable (TimesOut s) := inferInstanceAs (Decidable (_≥_))

/-- The records of a round of the network task. -/
def timeoutRecords (s : System) (time : UInt32) : List MessageRecord :=
  if TimesOut s ∧ s.panel.plcCanLink≠0 then [checkCanRecord time] else []

/-- What a round of the network task does. -/
structure Ticked (s s' : System) (time : UInt32) : Prop where
  /-- Link 0 is cleared and the process image reset when the wait ends. -/
  arrays : s'.panel.arrays=
    if TimesOut s then resetAccesses.foldl perform (s.panel.arrays.set .plcLink 0 (0 : UInt8))
    else s.panel.arrays
  /-- hb_cnt. -/
  hbCnt : s'.panel.hbCnt=if TimesOut s then 0 else s.panel.hbCnt+1
  /-- plc_can_link. -/
  plcCanLink : s'.panel.plcCanLink=if TimesOut s then 0 else s.panel.plcCanLink
  /-- update_di. -/
  updateDi : s'.panel.updateDi=s.panel.updateDi
  /-- A lost link is recorded. -/
  records : s'.records=s.records++timeoutRecords s time
  /-- prev_di. -/
  prevDi : s'.prevDi=s.prevDi
  /-- di_tmr. -/
  diTmr : s'.diTmr=s.diTmr
  /-- The packets. -/
  digits : s'.digits=s.digits

/-- The end of the wait, in a state with the variables of `s`. -/
theorem linkTimeout_ticked {s r : System} {time : UInt32} (ht : TimesOut s)
    (harrays : r.panel.arrays=s.panel.arrays) (hlink : r.panel.plcCanLink=s.panel.plcCanLink)
    (hdi : r.panel.updateDi=s.panel.updateDi) (hrecords : r.records=s.records)
    (hprev : r.prevDi=s.prevDi) (htmr : r.diTmr=s.diTmr) (hdigits : r.digits=s.digits) :
    Ticked s (linkTimeout r time) time := by
  have hrec : (linkTimeout r time).records=
      s.records++if r.panel.plcCanLink≠0 then [checkCanRecord time] else [] := by
    unfold linkTimeout
    dsimp only
    split_ifs
    · rw [←hrecords]
    · rw [List.append_nil,←hrecords]
  have hpanel : (linkTimeout r time).panel=resetPlcData
      {r.panel with
        hbCnt := 0
        plcCanLink := 0
        arrays := r.panel.arrays.set .plcLink 0 (0 : UInt8)} := by
    unfold linkTimeout
    dsimp only
    split_ifs <;> rfl
  have hrest : (linkTimeout r time).prevDi=r.prevDi ∧ (linkTimeout r time).diTmr=r.diTmr ∧
      (linkTimeout r time).digits=r.digits := by
    unfold linkTimeout
    dsimp only
    split_ifs <;> exact ⟨rfl,rfl,rfl⟩
  constructor
  · rw [if_pos ht,hpanel,resetPlcData_arrays,←harrays]
  · rw [if_pos ht,hpanel,resetPlcData_hbCnt]
  · rw [if_pos ht,hpanel,resetPlcData_plcCanLink]
  · rw [hpanel,resetPlcData_updateDi,hdi]
  · rw [hrec,timeoutRecords,hlink]
    simp only [ht,true_and]
  · exact hrest.1.trans hprev
  · exact hrest.2.1.trans htmr
  · exact hrest.2.2.trans hdigits

/-- The tick of the network task does what a tick may do. -/
theorem networkTick_ticked (s : System) (time : UInt32) : Ticked s (networkTick s time) time := by
  have hwait {r : System} (h : ¬TimesOut s) (harrays : r.panel.arrays=s.panel.arrays)
      (hhb : r.panel.hbCnt=s.panel.hbCnt+1) (hlink : r.panel.plcCanLink=s.panel.plcCanLink)
      (hdi : r.panel.updateDi=s.panel.updateDi) (hrecords : r.records=s.records)
      (hprev : r.prevDi=s.prevDi) (htmr : r.diTmr=s.diTmr) (hdigits : r.digits=s.digits) :
      Ticked s r time := by
    have hrec : timeoutRecords s time=[] := if_neg fun ht => h ht.1
    exact ⟨harrays.trans (if_neg h).symm,hhb.trans (if_neg h).symm,hlink.trans (if_neg h).symm,hdi,
      by rw [hrec,List.append_nil,hrecords],hprev,htmr,hdigits⟩
  unfold networkTick
  dsimp only
  split_ifs with hclock hflag hten h h h h hten h h h
  all_goals
    first
    | exact linkTimeout_ticked h rfl rfl rfl rfl rfl rfl rfl
    | exact hwait h rfl rfl rfl rfl rfl rfl rfl rfl

/-- A sample of the inputs leaves the arrays, the link and the records alone. -/
structure Sampled (s s' : System) : Prop where
  /-- The arrays. -/
  arrays : s'.panel.arrays=s.panel.arrays
  /-- hb_cnt. -/
  hbCnt : s'.panel.hbCnt=s.panel.hbCnt
  /-- plc_can_link. -/
  plcCanLink : s'.panel.plcCanLink=s.panel.plcCanLink
  /-- The records. -/
  records : s'.records=s.records

/-- The sampling of the inputs does what a sampling may do. -/
theorem updateDiData_sampled (s : System) (diState : UInt8) :
    Sampled s (updateDiData s diState) := by
  unfold updateDiData reportDi
  dsimp only
  split_ifs <;> exact ⟨rfl,rfl,rfl,rfl⟩

/-- What an operation does. -/
inductive Stepped (s : System) : PanelOp → System → Prop
  /-- A frame is received. -/
  | receive (rx : CanRxMessage) (q : Panel) (h : Received s.panel q rx) :
      Stepped s (.receive rx) {s with panel := q}
  /-- A variable is written. -/
  | write (var : ManageVar) (q : Panel) (h : Written var s.panel q) :
      Stepped s (.write var) {s with panel := q}
  /-- The process image is reset. -/
  | reset : Stepped s .reset {s with panel := resetPlcData s.panel}
  /-- The network task goes round. -/
  | tick (time : UInt32) : Stepped s (.tick time) (networkTick s time)
  /-- The inputs are sampled. -/
  | sample (diState : UInt8) : Stepped s (.sample diState) (updateDiData s diState)

/-- A step does what its operation may do. -/
theorem panelStep_stepped {s s' : System} {op : PanelOp} (hs : panelStep s op=some s') :
    Stepped s op s' := by
  cases op with
  | receive rx =>
    obtain ⟨q,hq,rfl⟩ := Option.map_eq_some_iff.mp hs
    exact .receive rx q (checkCanRxData_received hq)
  | write var =>
    obtain ⟨r,hr,rfl⟩ := Option.map_eq_some_iff.mp hs
    obtain ⟨r',hr',hw⟩ := writeVarToPlc_written s.panel var
    rw [hr'] at hr
    cases hr
    exact .write var r.1 hw
  | reset =>
    obtain rfl := Option.some.inj hs
    exact .reset
  | tick time =>
    obtain rfl : networkTick s time=s' := Option.some.inj hs
    exact .tick time
  | sample diState =>
    obtain rfl : updateDiData s diState=s' := Option.some.inj hs
    exact .sample diState

/-- The indices of a received frame are inside the arrays. -/
def FrameInRange (rx : CanRxMessage) : Prop :=
  isPacketExtended rx.standardId=true ∨ srv rx.standardId.toUInt16=srvHeartbeat ∨
    NoLowIndex rx.data

/-- Every received frame of a run is in range. -/
def FramesInRange (ops : List PanelOp) : Prop := ∀ rx,.receive rx∈ops → FrameInRange rx

/-- A received frame changes the shared variables only. -/
theorem panelStep_receive {s : System} {rx : CanRxMessage} {q : Panel}
    (h : checkCanRxData s.panel rx=some q) :
    panelStep s (.receive rx)=some {s with panel := q} := by
  unfold panelStep
  dsimp only
  rw [h,Option.map_some]

/-- An operation has a result when its frame, if any, is in range. -/
theorem panelStep_isSome (s : System) {op : PanelOp} (h : ∀ rx,op=.receive rx → FrameInRange rx) :
    (panelStep s op).isSome := by
  cases op with
  | receive rx =>
    obtain ⟨q,hq⟩ := Option.isSome_iff_exists.mp
      ((checkCanRxData_isSome_iff s.panel rx).mpr (h rx rfl))
    rw [panelStep_receive hq]
    rfl
  | write var =>
    obtain ⟨r,hr,-⟩ := writeVarToPlc_written s.panel var
    unfold panelStep
    dsimp only
    rw [Option.isSome_map,hr]
    rfl
  | reset => rfl
  | tick time => rfl
  | sample diState => rfl

/-- An invariant of the operations holds after every run whose frames are in
range, and there is such a state. -/
theorem panelRun_invariant {P : System → Prop} {s : System} (h0 : P s)
    (hstep : ∀ s s' op,P s → panelStep s op=some s' → P s') {ops : List PanelOp}
    (hops : FramesInRange ops) : ∃ s',panelRun s ops=some s' ∧ P s' :=
  foldlM_invariant h0 (fun s _ => panelStep_isSome s) hstep
    fun _ hop rx he => hops rx (he ▸ hop)

end BT816Display.PanelRun
