import BT816Display.CanNode
import BT816Display.PanelRun

/-!
# The panel on the CAN bus

The tasks of `PanelRun` with the transmit path of `CanNode`: both work on the
ring of the panel, in any order. The ring has no lock. add_tx_can_packet reads
write_position when it is called and stores the next one when it returns, so
that two calls fill the same slot when one interrupts the other; `CanTxTasks`
takes the ring access by access. An operation is one step here: the runs are
those in which no call that works on the ring is interrupted by another one.
-/

namespace BT816Display.PanelBus

open ByteMemory RingQueue CanTxStack CanCmd CanRx PlcData PanelRun CanNode Runs

/-- The panel and its transmit path, which has the ring of the panel. -/
structure PanelNode where
  /-- The tasks. -/
  system : System
  /-- The transmit path but the ring. -/
  node : Node

/-- The transmit path with its ring. -/
def PanelNode.view (s : PanelNode) : Node := {s.node with stack := s.system.panel.canTxStack}

/-- A step of the transmit path. -/
def PanelNode.put (s : PanelNode) (n : Node) : PanelNode where
  system := {s.system with panel := {s.system.panel with canTxStack := n.stack}}
  node := n

/-- The frame in the slot that a step of the panel fills, if it fills one. -/
def queuedBy (ring ring' : TxStack) : List Frame :=
  if ring'.writePosition=ring.writePosition then []
  else [frame (ring'.packet ring.writePosition)]

/-- What happens to a panel on the bus. -/
inductive BusOp where
  /-- An operation of `PanelRun`; a round of the network task counts the timer too. -/
  | panel (op : PanelOp)
  /-- The heartbeat of a round of the CAN task. -/
  | heartbeat
  /-- The CAN task calls can_write_from_stack. -/
  | write (done : ℕ → ℕ) (packet : TxStackData)
  /-- The controller sends a frame. -/
  | sent

/-- The transmit path with what a step of the panel has queued. -/
def queuePart (s : PanelNode) (system : System) : Node := {s.node with
  stack := system.panel.canTxStack
  added := s.node.added++queuedBy s.system.panel.canTxStack system.panel.canTxStack}

/-- The transmit path after an operation of the panel. -/
def panelPart (s : PanelNode) (op : PanelOp) (system : System) : Node :=
  match op with
  | .tick _ => networkRound (queuePart s system)
  | _ => queuePart s system

/-- One operation, not interrupted by another one, with no result behind an
array index out of bounds. -/
def busStep (s : PanelNode) : BusOp → Option PanelNode
  | .panel op => (panelStep s.system op).map fun system => ⟨system,panelPart s op system⟩
  | .heartbeat =>
    some (s.put (heartbeatRound s.system.panel.lcdCanAddr s.system.panel.clusterAddr s.view))
  | .write done packet => some (s.put (canWriteFromStack done packet s.view))
  | .sent => some (s.put (s.view.sends 1))

/-- Operations in order. -/
def busRun (s : PanelNode) (ops : List BusOp) : Option PanelNode := ops.foldlM busStep s

/-- A panel after its initialisation, when the CAN task starts. -/
def startBus (p : Panel) (stack : TxStack) : PanelNode :=
  PanelNode.put ⟨start p,startNode stack⟩ (startNode stack)

/-! ## The ring in a step of the panel -/

/-- What a step of the panel does to the ring: nothing, or it adds one event. -/
def AddsEvent (ring ring' : TxStack) : Prop :=
  ring'=ring ∨ ∃ packet : TxStackData,packet.length.toNat ≤ 8 ∧ packet.id&&&7=7 ∧
    ring'=addTxCanPacket ring packet

/-- Performing accesses leaves the transmit ring. -/
theorem perform_ring {p q : Panel} {accesses : List (ArrayAccess.Access Val)}
    (h : p.perform accesses=some q) : q.canTxStack=p.canTxStack := by
  obtain ⟨arrays,-,rfl⟩ := Option.map_eq_some_iff.mp h
  rfl

/-- An event with at most eight data bytes. -/
theorem queue_addsEvent {ring : TxStack} {p : Panel} (h : p.canTxStack=ring)
    (node cluster : UInt8) {data : List UInt8} (hdata : data.length ≤ 8) :
    AddsEvent ring (queue p (packetOf (eventId node cluster) data)).canTxStack := by
  refine Or.inr ⟨packetOf (eventId node cluster) data,?_,?_,congrArg (addTxCanPacket · _) h⟩
  · have hlen : (UInt8.ofNat data.length).toNat=data.length := by
      rw [UInt8.toNat_ofNat']
      omega
    exact hlen.trans_le hdata
  · exact service_eq ((0x0400 : UInt32)|||(0x07 : UInt32)) node cluster

/-- Writing a linked variable adds at most one event to the ring. -/
theorem writeLinked_addsEvent {p q : Panel} {var : ManageVar} (h : writeLinked p var=some q) :
    AddsEvent p.canTxStack q.canTxStack := by
  have hsame {q : Panel} (h : some p=some q) : AddsEvent p.canTxStack q.canTxStack :=
    Or.inl (congrArg Panel.canTxStack (Option.some.inj h).symm)
  unfold writeLinked at h
  dsimp only at h
  split_ifs at h
  · obtain ⟨p1,h1,h⟩ := Option.bind_eq_some_iff.mp h
    obtain ⟨p2,h2,rfl⟩ := Option.map_eq_some_iff.mp h
    exact queue_addsEvent ((perform_ring h2).trans (perform_ring h1)) _ _ (by decide : 4 ≤ 8)
  · exact hsame h
  · obtain ⟨p1,h1,h⟩ := Option.bind_eq_some_iff.mp h
    obtain ⟨p2,h2,rfl⟩ := Option.map_eq_some_iff.mp h
    exact queue_addsEvent ((perform_ring h2).trans (perform_ring h1)) _ _ (by decide : 4 ≤ 8)
  · exact hsame h
  · obtain ⟨p1,h1,rfl⟩ := Option.map_eq_some_iff.mp h
    exact queue_addsEvent (perform_ring h1) _ _ (by decide : 4 ≤ 8)
  · exact hsame h
  · obtain ⟨p1,h1,rfl⟩ := Option.map_eq_some_iff.mp h
    exact queue_addsEvent (perform_ring h1) _ _ (by decide : 4 ≤ 8)
  · exact hsame h
  · exact hsame h

/-- An incoming event leaves the ring. -/
theorem event_ring {p q : Panel} {id : UInt16} {data : Mem UInt8} (h : event p id data=some q) :
    q.canTxStack=p.canTxStack := by
  unfold event at h
  dsimp only at h
  split at h
  · exact perform_ring h
  · exact perform_ring h
  · split at h
    · obtain ⟨p1,h1,rfl⟩ := Option.map_eq_some_iff.mp h
      exact (perform_ring h1 :)
    · exact congrArg Panel.canTxStack (Option.some.inj h).symm
  · exact perform_ring h
  · exact perform_ring h
  · exact perform_ring h
  · exact perform_ring h
  · split_ifs at h <;>
    · cases h
      rfl
  · exact congrArg Panel.canTxStack (Option.some.inj h).symm

/-- A frame that is received adds nothing. -/
theorem checkCanRxData_ring {p q : Panel} {rx : CanRxMessage} (h : checkCanRxData p rx=some q) :
    q.canTxStack=p.canTxStack := by
  unfold checkCanRxData at h
  dsimp only at h
  split_ifs at h
  · exact congrArg Panel.canTxStack (Option.some.inj h).symm
  · unfold heartbeat at h
    obtain ⟨p1,h1,rfl⟩ := Option.map_eq_some_iff.mp h
    have hring := perform_ring h1
    split_ifs at hring <;> exact hring
  · exact event_ring h

/-- The tick of the network task leaves the ring of the panel. -/
theorem networkTick_ring (s : System) (time : UInt32) :
    (networkTick s time).panel.canTxStack=s.panel.canTxStack := by
  unfold networkTick linkTimeout
  dsimp only
  split_ifs <;> rfl

/-- Sampling the inputs adds at most one event to the ring. -/
theorem updateDiData_addsEvent (s : System) (diState : UInt8) :
    AddsEvent s.panel.canTxStack (updateDiData s diState).panel.canTxStack := by
  unfold updateDiData reportDi
  dsimp only
  split_ifs
  · exact queue_addsEvent rfl _ _ (by decide : 5 ≤ 8)
  · exact Or.inl rfl
  · exact Or.inl rfl

/-- Every step of the panel adds one event to the ring or leaves it alone. -/
theorem panelStep_addsEvent {s s' : System} {op : PanelOp} (h : panelStep s op=some s') :
    AddsEvent s.panel.canTxStack s'.panel.canTxStack := by
  cases op with
  | receive rx =>
    obtain ⟨q,hq,rfl⟩ := Option.map_eq_some_iff.mp h
    exact Or.inl (checkCanRxData_ring hq)
  | write var =>
    obtain ⟨r,hr,rfl⟩ := Option.map_eq_some_iff.mp h
    unfold writeVarToPlc at hr
    split_ifs at hr
    · cases hr
      exact Or.inl rfl
    · obtain ⟨q,hq,rfl⟩ := Option.map_eq_some_iff.mp hr
      exact writeLinked_addsEvent hq
  | reset =>
    cases h
    exact Or.inl rfl
  | tick time =>
    cases h
    exact Or.inl (networkTick_ring s time)
  | sample diState =>
    cases h
    exact updateDiData_addsEvent s diState

/-! ## Runs -/

variable {s s' : PanelNode} {n : ℕ}

/-- Putting a node back and viewing it gives the node. -/
@[simp] theorem put_view (s : PanelNode) (node : Node) : (s.put node).view=node := rfl

/-- The transmit path is in order, and the heartbeats of `n` rounds are added. -/
structure BusOk (s : PanelNode) (n : ℕ) : Prop where
  /-- Every frame is in its place. -/
  ok : ∃ q,s.view.Ok q
  /-- The heartbeats added. -/
  beats : Beats s.view n

/-- The slot that an add fills. -/
theorem queuedBy_add {ring : TxStack} (hwr : ring.writePosition<80) {packet : TxStackData}
    (hshort : packet.length.toNat ≤ 8) :
    queuedBy ring (addTxCanPacket ring packet)=[frame packet] := by
  obtain ⟨slot,hslot,hadd⟩ := add_eq hwr hshort
  have hnext : RingWindow.next 80 ring.writePosition≠ring.writePosition := by
    unfold RingWindow.next
    split <;> omega
  unfold queuedBy
  rw [hadd]
  dsimp only [TxStack.setPacket]
  rw [if_neg hnext,if_pos rfl,hslot.2.2]

/-- What an operation of the panel does to the transmit path: at most it adds
one event. -/
theorem queuePart_eq {q : List Frame} (h : s.view.Ok q) {op : PanelOp} {system : System}
    (hop : panelStep s.system op=some system) :
    queuePart s system=s.view ∨ ∃ packet,packet.length.toNat ≤ 8 ∧ packet.id&&&7=7 ∧
      queuePart s system=s.view.add packet := by
  have hwr : s.system.panel.canTxStack.writePosition<80 := h.holds.wr_lt
  unfold queuePart
  rcases panelStep_addsEvent hop with hsame|⟨packet,hshort,hevent,hadd⟩
  · refine Or.inl ?_
    unfold queuedBy
    rw [hsame,if_pos rfl,List.append_nil]
    rfl
  · refine Or.inr ⟨packet,hshort,hevent,?_⟩
    rw [hadd,queuedBy_add hwr hshort]
    rfl

/-- Rounds of the CAN task. -/
def beatRounds : BusOp → ℕ
  | .heartbeat => 1
  | _ => 0

/-- The transmit path has the ring of the panel. -/
theorem view_of_stack {system : System} {node : Node} (h : node.stack=system.panel.canTxStack) :
    PanelNode.view ⟨system,node⟩=node := by
  unfold PanelNode.view
  rw [←h]

/-- A step of the transmit path. -/
theorem BusOk.put (h : BusOk s n) (op : NodeOp) (hshort : op.Short) (hevent : op.Event)
    (hcap : (nodeStep s.view op).outstanding ≤ 80) :
    BusOk (s.put (nodeStep s.view op)) (n+rounds [op]) := by
  obtain ⟨q,hok⟩ := h.ok
  exact ⟨hok.step hshort hcap,h.beats.step hok hevent⟩

/-- A round of the network task changes neither the ring nor what is outstanding. -/
theorem networkRound_same (node : Node) : (networkRound node).stack=node.stack ∧
    (networkRound node).outstanding=node.outstanding := by
  unfold networkRound
  dsimp only
  split <;> exact ⟨rfl,rfl⟩

/-- The queue part of a step of the panel keeps the invariant. -/
theorem BusOk.queue (h : BusOk s n) {op : PanelOp} {system : System}
    (hop : panelStep s.system op=some system) (hcap : (queuePart s system).outstanding ≤ 80) :
    (∃ q,(queuePart s system).Ok q) ∧ Beats (queuePart s system) n := by
  obtain ⟨q,hok⟩ := h.ok
  rcases queuePart_eq hok hop with he|⟨packet,hshort,hevent,he⟩
  · rw [he]
    exact ⟨⟨q,hok⟩,h.beats⟩
  · have hnot : NodeOp.Event (.add packet) :=
      fun hone => absurd (hevent.symm.trans hone) (by decide)
    rw [he] at hcap ⊢
    exact ⟨⟨_,hok.add_within hshort hcap⟩,h.beats.step hok hnot⟩

/-- A round of the network task is one of the timer too. -/
theorem BusOk.ofNode {system : System} {node : Node} (hstack : node.stack=system.panel.canTxStack)
    (hok : ∃ q,node.Ok q) (hbeats : Beats node n) : BusOk ⟨system,node⟩ n := by
  refine ⟨?_,?_⟩ <;>
  rw [view_of_stack hstack]
  · exact hok
  · exact hbeats

/-- Every operation keeps the invariant as long as at most 80 packets are outstanding. -/
theorem BusOk.step (h : BusOk s n) {op : BusOp} (hs : busStep s op=some s')
    (hcap : s'.view.outstanding ≤ 80) : BusOk s' (n+beatRounds op) := by
  cases op with
  | heartbeat =>
    cases hs
    exact h.put (.heartbeat _ _) trivial trivial hcap
  | write done packet =>
    cases hs
    exact h.put (.write done packet) trivial trivial hcap
  | sent =>
    cases hs
    exact h.put .sent trivial trivial hcap
  | panel op =>
    obtain ⟨system,hop,rfl⟩ := Option.map_eq_some_iff.mp hs
    have hnetwork := networkRound_same (queuePart s system)
    cases op with
    | tick time =>
      have hview := congrArg Node.outstanding (view_of_stack hnetwork.1)
      obtain ⟨⟨q,hok⟩,hbeats⟩ := h.queue hop ((hview.trans hnetwork.2).symm.trans_le hcap)
      have hevent : NodeOp.Event .network := trivial
      exact .ofNode hnetwork.1 ⟨q,hok.network⟩ (hbeats.step hok hevent)
    | receive rx =>
      obtain ⟨hok,hbeats⟩ := h.queue hop hcap
      exact .ofNode rfl hok hbeats
    | write var =>
      obtain ⟨hok,hbeats⟩ := h.queue hop hcap
      exact .ofNode rfl hok hbeats
    | reset =>
      obtain ⟨hok,hbeats⟩ := h.queue hop hcap
      exact .ofNode rfl hok hbeats
    | sample diState =>
      obtain ⟨hok,hbeats⟩ := h.queue hop hcap
      exact .ofNode rfl hok hbeats

/-- At most 80 packets are outstanding in every state of a run. -/
def RunWithin (s : PanelNode) (ops : List BusOp) : Prop :=
  Throughout (fun pre => ∀ s',busRun s pre=some s' → s'.view.outstanding ≤ 80) ops

/-- At power on the bus state is right. -/
theorem startBus_ok (p : Panel) (stack : TxStack) : BusOk (startBus p stack) 0 :=
  ⟨⟨[],startNode_ok stack⟩,rfl,rfl,rfl⟩

/-- A run within the capacity of the ring keeps the bus state right. -/
theorem busRun_ok {p : Panel} {stack : TxStack} {ops : List BusOp}
    (hcap : RunWithin (startBus p stack) ops) (hs : busRun (startBus p stack) ops=some s') :
    BusOk s' (ops.map beatRounds).sum := by
  induction ops using List.reverseRecOn generalizing s' with
  | nil =>
    cases hs
    exact startBus_ok p stack
  | append_singleton ops op ih =>
    have hroom := hcap (ops++[op]) [] (List.append_nil _) s' hs
    rw [busRun,foldlM_concat] at hs
    obtain ⟨s1,hs1,hs⟩ := Option.bind_eq_some_iff.mp hs
    rw [List.map_append,List.sum_append]
    exact (ih hcap.of_append hs1).step hs hroom

/-- An operation adds one frame at most. -/
theorem busStep_added {op : BusOp} (hs : busStep s op=some s') :
    s'.node.added.length ≤ s.node.added.length+1 := by
  have hnode (op : NodeOp) := added_step s.view op
  cases op with
  | heartbeat =>
    cases hs
    exact hnode (.heartbeat _ _)
  | write done packet =>
    cases hs
    exact hnode (.write done packet)
  | sent =>
    cases hs
    exact hnode .sent
  | panel op =>
    obtain ⟨system,hop,rfl⟩ := Option.map_eq_some_iff.mp hs
    have hqueue : (queuePart s system).added.length ≤ s.node.added.length+1 := by
      unfold queuePart queuedBy
      dsimp only
      rw [List.length_append]
      split <;> simp
    cases op with
    | tick time =>
      refine le_trans (le_of_eq ?_) hqueue
      unfold panelPart networkRound
      dsimp only
      split <;> rfl
    | receive rx => exact hqueue
    | write var => exact hqueue
    | reset => exact hqueue
    | sample diState => exact hqueue

/-- At most 80 operations stay within the capacity. -/
theorem runWithin_of_length {p : Panel} {stack : TxStack} {ops : List BusOp}
    (h : ops.length ≤ 80) : RunWithin (startBus p stack) ops := by
  have hadded : ∀ ops s',busRun (startBus p stack) ops=some s' →
      s'.node.added.length ≤ ops.length := by
    intro ops
    induction ops using List.reverseRecOn with
    | nil =>
      intro s' hs
      cases hs
      exact le_rfl
    | append_singleton ops op ih =>
      intro s' hs
      rw [busRun,foldlM_concat] at hs
      obtain ⟨s1,hs1,hs⟩ := Option.bind_eq_some_iff.mp hs
      have hstep := busStep_added hs
      have hle := ih s1 hs1
      rw [List.length_append,List.length_singleton]
      omega
  intro pre post he s' hs
  have hlen := congrArg List.length he
  have hle := hadded pre s' hs
  rw [List.length_append] at hlen
  have hadded' : s'.view.added=s'.node.added := rfl
  unfold Node.outstanding
  rw [hadded']
  omega

/-- The panel on the bus: whatever is received, written by the operator,
sampled and timed out, in any order with the rounds of the CAN task and the
work of its controller. While at most 80 packets are outstanding, the frames
on the bus, in the mailboxes and in the ring are the ones that the panel has
queued, each once and in this order, and the heartbeats among them are
numbered from one on without a gap, one for every 900 rounds. -/
theorem panel_sends_in_order {p : Panel} {stack : TxStack} {ops : List BusOp}
    (hcap : RunWithin (startBus p stack) ops) (hs : busRun (startBus p stack) ops=some s') :
    ∃ handed waiting,
      s'.node.controller.bus++s'.node.controller.pending=handed.map onBus ∧
      Holds s'.system.panel.canTxStack waiting ∧ handed++waiting=s'.node.added ∧
      beats s'.node.controller.bus++beats s'.node.controller.pending++beats waiting=
        counters ((ops.map beatRounds).sum/900) := by
  obtain ⟨⟨q,hok⟩,hbeats⟩ := busRun_ok hcap hs
  obtain ⟨handed,htaken,hadded⟩ := hok.accounted
  refine ⟨handed,q,htaken.symm,hok.holds,hadded,?_⟩
  have hcounters := hbeats.added
  rw [←hadded,beats_append,←beats_onBus handed,htaken] at hcounters
  unfold Controller.taken at hcounters
  rw [beats_append] at hcounters
  exact hcounters

/-- An input that goes on, and the rounds until it is reported. -/
def reportOps : List BusOp :=
  List.replicate 20 (.panel (.sample 1))++List.replicate 5 (.panel (.tick 0))++
    [.write (fun _ => 0) (onePacket 0),.heartbeat,.sent]

/-- A run with a report of the inputs, where the panel sends in order. -/
theorem panel_sends_in_order_report : ∃ s',busRun (startBus zeroPanel zeroStack) reportOps=some s' ∧
    ∃ handed waiting,
      s'.node.controller.bus++s'.node.controller.pending=handed.map onBus ∧
      Holds s'.system.panel.canTxStack waiting ∧ handed++waiting=s'.node.added ∧
      beats s'.node.controller.bus++beats s'.node.controller.pending++beats waiting=
        counters ((reportOps.map beatRounds).sum/900) := by
  have hsome : ∀ s op,op∈reportOps → (busStep s op).isSome := by
    intro s op hop
    simp only [reportOps,List.mem_append,List.mem_replicate,List.mem_cons,List.not_mem_nil,
      or_false] at hop
    obtain (⟨-,rfl⟩|⟨-,rfl⟩)|rfl|rfl|rfl := hop <;> rfl
  obtain ⟨s',hs,-⟩ := foldlM_invariant (s:=startBus zeroPanel zeroStack) (K:=fun _ => True)
    trivial hsome (fun _ _ _ _ _ => trivial) (fun op hop => hop)
  exact ⟨s',hs,panel_sends_in_order (runWithin_of_length (by decide)) hs⟩

end BT816Display.PanelBus
