import BT816Display.CanCmd
import BT816Display.Lib.Progress
import BT816Display.Lib.Runs

/-!
# The transmit path of the CAN node

Every task adds packets to the ring, the CAN task moves them to the three
mailboxes of the controller, and the controller sends its requests in the
order in which they were made. The calls come in any order, and the
controller may finish a frame at any time, also inside can_write_from_stack.
-/

namespace BT816Display.CanNode

open ByteMemory CanTxStack CanCmd Runs Progress

/-! ## The controller -/

/-- The part of the CAN controller that sends. -/
structure Controller where
  /-- What the mailboxes hold until it is sent. -/
  mailbox : ℕ → Option Frame
  /-- Mailboxes with a request, in the order of the requests. -/
  requests : List ℕ
  /-- Frames sent, oldest first. -/
  bus : List Frame

/-- What a mailbox takes of a frame: the identifier has eleven bits. -/
def onBus (f : Frame) : Frame := {f with id := f.id&&&0x7FF}

/-- Fill a mailbox and request its transmission. -/
def Controller.request (c : Controller) (m : ℕ) (f : Frame) : Controller where
  mailbox := Function.update c.mailbox m (some (onBus f))
  requests := c.requests++[m]
  bus := c.bus

/-- The controller has sent the frame of its oldest request. -/
def Controller.complete (c : Controller) : Controller :=
  match c.requests with
  | [] => c
  | m::rest => ⟨Function.update c.mailbox m none,rest,c.bus++(c.mailbox m).toList⟩

/-- get_tx_mailboxes_free_level. -/
def getTxMailboxesFreeLevel (c : Controller) : ℕ :=
  (if c.mailbox 0=none then 1 else 0)+(if c.mailbox 1=none then 1 else 0)+
    (if c.mailbox 2=none then 1 else 0)

/-- can_message_transmit. -/
def canMessageTransmit (c : Controller) (f : Frame) : Controller :=
  if c.mailbox 0=none then c.request 0 f
  else if c.mailbox 1=none then c.request 1 f
  else if c.mailbox 2=none then c.request 2 f
  else c

/-! ## The node -/

/-- The variables of the transmit path. -/
structure Node where
  /-- can_tx_stack. -/
  stack : TxStack
  /-- can1_tx_tmr. -/
  can1TxTmr : UInt16
  /-- The controller. -/
  controller : Controller
  /-- heartbeat_tmr of can_task_function. -/
  heartbeatTmr : UInt16
  /-- heartbeat_value of send_heartbeat. -/
  heartbeatValue : UInt8
  /-- Frames passed to add_tx_can_packet, oldest first. -/
  added : List Frame

/-- add_tx_can_packet. -/
def Node.add (s : Node) (packet : TxStackData) : Node :=
  {s with stack := addTxCanPacket s.stack packet,added := s.added++[frame packet]}

/-- The identifier of a heartbeat: 0x0400, service 0x01, node and cluster address. -/
def heartbeatId (node cluster : UInt8) : UInt32 :=
  (0x0400 : UInt32)|||(0x01 : UInt32)|||(node.toUInt32<<<3)|||(cluster.toUInt32<<<7)

/-- send_heartbeat. -/
def sendHeartbeat (lcdCanAddr clusterAddr : UInt8) (s : Node) : Node :=
  let packet := packetOf (heartbeatId lcdCanAddr clusterAddr) [0x49,s.heartbeatValue]
  {s.add packet with heartbeatValue := s.heartbeatValue+1}

/-- The heartbeat of a round of can_task_function. -/
def heartbeatRound (lcdCanAddr clusterAddr : UInt8) (s : Node) : Node :=
  let s := {s with heartbeatTmr := s.heartbeatTmr+1}
  if s.heartbeatTmr≥900 then sendHeartbeat lcdCanAddr clusterAddr {s with heartbeatTmr := 0} else s

/-- The part of network_task_function on can1_tx_tmr. -/
def networkRound (s : Node) : Node :=
  let s := {s with can1TxTmr := s.can1TxTmr+1}
  if s.can1TxTmr≥20 then {s with can1TxTmr := 0} else s

/-- The controller sends a number of frames. -/
def Node.sends (s : Node) (n : ℕ) : Node := {s with controller := Controller.complete^[n] s.controller}

/-- The loop of can_write_from_stack with so many rounds left; the controller
sends `done` frames before the test of the mailboxes. -/
def writeLoop (done : ℕ → ℕ) : ℕ → TxStackData → Node → Node
  | 0,_,s => s.sends (done 0)
  | left+1,packet,s =>
    let s := s.sends (done (left+1))
    if getTxMailboxesFreeLevel s.controller=0 then s
    else
      let (res,packet,stack) := getTxCanPacket s.stack packet
      let s := {s with stack := stack}
      if res=0 then s
      else
        let s := {s with can1TxTmr := 0}
        if packet.length>8 then writeLoop done left packet s
        else
          writeLoop done left packet
            {s with controller := canMessageTransmit s.controller (frame packet)}

/-- can_write_from_stack, with what its local packet holds at first; in the
tenth round it returns. -/
def canWriteFromStack (done : ℕ → ℕ) (packet : TxStackData) (s : Node) : Node :=
  if s.can1TxTmr<5 then s else writeLoop done 9 packet s

/-- What happens to a node. -/
inductive NodeOp where
  /-- A task adds a packet. -/
  | add (packet : TxStackData)
  /-- The heartbeat of a round of the CAN task. -/
  | heartbeat (lcdCanAddr clusterAddr : UInt8)
  /-- A round of the network task. -/
  | network
  /-- The CAN task calls can_write_from_stack. -/
  | write (done : ℕ → ℕ) (packet : TxStackData)
  /-- The controller sends a frame. -/
  | sent

/-- One operation. -/
def nodeStep (s : Node) : NodeOp → Node
  | .add packet => s.add packet
  | .heartbeat lcdCanAddr clusterAddr => heartbeatRound lcdCanAddr clusterAddr s
  | .network => networkRound s
  | .write done packet => canWriteFromStack done packet s
  | .sent => s.sends 1

/-- The node when the CAN task starts. -/
def startNode (stack : TxStack) : Node where
  stack := initCanTxStack stack
  can1TxTmr := 0
  controller := ⟨fun _ => none,[],[]⟩
  heartbeatTmr := 0
  heartbeatValue := 1
  added := []

/-- Operations in order. -/
def nodeRun (stack : TxStack) (ops : List NodeOp) : Node := ops.foldl nodeStep (startNode stack)

/-! ## Requests -/

/-- The mailboxes that hold a frame are those with a request. -/
structure Controller.Ok (c : Controller) : Prop where
  /-- One request for each. -/
  nodup : c.requests.Nodup
  /-- The three mailboxes. -/
  mem : ∀ m,m∈c.requests ↔ m<3 ∧ c.mailbox m≠none

/-- Frames in the mailboxes, oldest request first. -/
def Controller.pending (c : Controller) : List Frame := c.requests.filterMap c.mailbox

variable {c : Controller}

/-- Free mailboxes and requests make three. -/
theorem Controller.Ok.freeLevel (h : c.Ok) :
    getTxMailboxesFreeLevel c+c.requests.length=3 := by
  have hperm : c.requests.Perm ((List.range 3).filter fun m => c.mailbox m≠none) := by
    refine (List.perm_ext_iff_of_nodup h.nodup (List.nodup_range.filter _)).mpr fun m => ?_
    rw [h.mem m,List.mem_filter,List.mem_range,decide_eq_true_iff]
  rw [hperm.length_eq]
  unfold getTxMailboxesFreeLevel
  rw [show List.range 3=[0,1,2] from rfl]
  by_cases h0 : c.mailbox 0=none <;> by_cases h1 : c.mailbox 1=none <;>
    by_cases h2 : c.mailbox 2=none <;> simp [h0,h1,h2]

/-- Another mailbox does not show in the frames that are taken from a list. -/
theorem filterMap_update {f : ℕ → Option Frame} {m : ℕ} {o : Option Frame} {l : List ℕ}
    (h : m∉l) : l.filterMap (Function.update f m o)=l.filterMap f :=
  List.filterMap_congr fun _ hm' =>
    Function.update_of_ne (ne_of_mem_of_not_mem hm' h) o f

/-- A frame that is sent stays in its place between those sent and those pending. -/
theorem Controller.complete_spec (h : c.Ok) :
    c.complete.Ok ∧ c.complete.bus++c.complete.pending=c.bus++c.pending ∧
      c.complete.requests=c.requests.tail := by
  obtain ⟨mailbox,requests,bus⟩ := c
  cases requests with
  | nil => exact ⟨h,rfl,rfl⟩
  | cons m rest =>
    obtain ⟨hm,hrest⟩ := List.nodup_cons.mp h.nodup
    obtain ⟨f,hf⟩ := Option.ne_none_iff_exists'.mp ((h.mem m).mp List.mem_cons_self).2
    dsimp only at hf
    refine ⟨⟨hrest,fun m' => ?_⟩,?_,rfl⟩
    · have hmem := h.mem m'
      rw [List.mem_cons] at hmem
      unfold complete
      dsimp only
      by_cases he : m'=m
      · rw [he,Function.update_self]
        exact iff_of_false hm fun hne => hne.2 rfl
      · rw [Function.update_of_ne he,←hmem]
        exact (or_iff_right he).symm
    · unfold complete pending
      dsimp only
      rw [filterMap_update hm,List.filterMap_cons_some hf,hf,List.append_assoc]
      rfl

/-- A request in a free mailbox comes behind the pending ones. -/
theorem Controller.request_spec (h : c.Ok) {m : ℕ} (hm : m<3) (hfree : c.mailbox m=none)
    (f : Frame) : (c.request m f).Ok ∧ (c.request m f).pending=c.pending++[onBus f] := by
  have hnot : m∉c.requests := fun hmem => ((h.mem m).mp hmem).2 hfree
  refine ⟨⟨?_,fun m' => ?_⟩,?_⟩
  · exact List.nodup_append.mpr ⟨h.nodup,List.nodup_singleton m,fun a ha b hb he =>
      hnot (by rw [←List.mem_singleton.mp hb,←he]; exact ha)⟩
  · have hmem := h.mem m'
    unfold request
    dsimp only
    rw [List.mem_append,List.mem_singleton]
    by_cases he : m'=m
    · rw [he,Function.update_self]
      exact iff_of_true (Or.inr rfl) ⟨hm,Option.some_ne_none _⟩
    · rw [Function.update_of_ne he,←hmem]
      exact or_iff_left he
  · unfold pending request
    dsimp only
    rw [List.filterMap_append,filterMap_update hnot,List.filterMap_cons,Function.update_self]
    rfl

/-- can_message_transmit with a free mailbox. -/
theorem Controller.transmit_spec (h : c.Ok) (hfree : getTxMailboxesFreeLevel c≠0) (f : Frame) :
    (canMessageTransmit c f).Ok ∧ (canMessageTransmit c f).bus=c.bus ∧
      (canMessageTransmit c f).pending=c.pending++[onBus f] := by
  unfold canMessageTransmit
  unfold getTxMailboxesFreeLevel at hfree
  by_cases h0 : c.mailbox 0=none
  · rw [if_pos h0]
    obtain ⟨hok,hpending⟩ := request_spec h (by decide) h0 f
    exact ⟨hok,rfl,hpending⟩
  · rw [if_neg h0] at hfree ⊢
    by_cases h1 : c.mailbox 1=none
    · rw [if_pos h1]
      obtain ⟨hok,hpending⟩ := request_spec h (by decide) h1 f
      exact ⟨hok,rfl,hpending⟩
    · rw [if_neg h1] at hfree ⊢
      by_cases h2 : c.mailbox 2=none
      · rw [if_pos h2]
        obtain ⟨hok,hpending⟩ := request_spec h (by decide) h2 f
        exact ⟨hok,rfl,hpending⟩
      · rw [if_neg h2] at hfree
        exact absurd rfl hfree

/-- Frames that the controller has taken: sent or pending. -/
def Controller.taken (c : Controller) : List Frame := c.bus++c.pending

/-- Any number of frames sent. -/
theorem Controller.completes_spec (h : c.Ok) (n : ℕ) :
    (complete^[n] c).Ok ∧ (complete^[n] c).taken=c.taken ∧
      getTxMailboxesFreeLevel c ≤ getTxMailboxesFreeLevel (complete^[n] c) := by
  induction n generalizing c with
  | zero => exact ⟨h,rfl,le_rfl⟩
  | succ n ih =>
    obtain ⟨hok,htaken,hrequests⟩ := complete_spec h
    obtain ⟨hok',htaken',hfree⟩ := ih hok
    have hlevel := h.freeLevel
    have hlevel' := hok.freeLevel
    rw [hrequests,List.length_tail] at hlevel'
    rw [Function.iterate_succ_apply]
    exact ⟨hok',htaken'.trans htaken,by omega⟩

/-! ## The node -/

/-- The ring holds the queue, and what was added is on the bus, in a mailbox
or in the queue. -/
structure Node.Ok (s : Node) (q : List Frame) : Prop where
  /-- The ring holds the queue. -/
  holds : Holds s.stack q
  /-- Requests and mailboxes agree. -/
  controller : s.controller.Ok
  /-- Every frame is in one place, in the order of the adds. -/
  accounted : ∃ handed,handed.map onBus=s.controller.taken ∧ handed++q=s.added
  /-- The timer is reset at 20. -/
  timer : s.can1TxTmr.toNat<20

variable {s : Node} {q : List Frame}

/-- Frames added that the controller has not taken. -/
def Node.outstanding (s : Node) : ℕ := s.added.length-s.controller.taken.length

/-- A packet with at most eight bytes in a ring that is not full. -/
theorem Node.Ok.add (h : s.Ok q) (hroom : q.length<80) {packet : TxStackData}
    (hshort : packet.length.toNat ≤ 8) : (s.add packet).Ok (q++[frame packet]) where
  holds := h.holds.add hroom hshort
  controller := h.controller
  accounted := by
    obtain ⟨handed,htaken,hadded⟩ := h.accounted
    refine ⟨handed,htaken,?_⟩
    rw [←List.append_assoc,hadded]
    rfl
  timer := h.timer

/-- The controller sends. -/
theorem Node.Ok.sends (h : s.Ok q) (n : ℕ) : (s.sends n).Ok q := by
  obtain ⟨hok,htaken,-⟩ := Controller.completes_spec h.controller n
  refine ⟨h.holds,hok,?_,h.timer⟩
  unfold Node.sends
  dsimp only
  rw [htaken]
  exact h.accounted

/-- What moves packets from the ring to the controller and does no more. -/
structure Moves (s : Node) (q : List Frame) (s' : Node) (q' : List Frame) : Prop where
  /-- The invariant is kept. -/
  ok : s'.Ok q'
  /-- Nothing is added. -/
  added : s'.added=s.added
  /-- heartbeat_tmr. -/
  heartbeatTmr : s'.heartbeatTmr=s.heartbeatTmr
  /-- heartbeat_value. -/
  heartbeatValue : s'.heartbeatValue=s.heartbeatValue
  /-- The queue gets no longer. -/
  le : q'.length ≤ q.length
  /-- The timer is left or cleared. -/
  timer : s'.can1TxTmr=s.can1TxTmr ∨ s'.can1TxTmr=0

/-- Two moves in a row are one move. -/
theorem Moves.trans {s' s'' : Node} {q' q'' : List Frame} (h : Moves s q s' q')
    (h' : Moves s' q' s'' q'') : Moves s q s'' q'' where
  ok := h'.ok
  added := h'.added.trans h.added
  heartbeatTmr := h'.heartbeatTmr.trans h.heartbeatTmr
  heartbeatValue := h'.heartbeatValue.trans h.heartbeatValue
  le := h'.le.trans h.le
  timer := by
    rcases h'.timer with ht|ht
    · rw [ht]
      exact h.timer
    · exact Or.inr ht

/-- Sending from a well formed node is a move. -/
theorem Node.Ok.sends_moves (h : s.Ok q) (n : ℕ) : Moves s q (s.sends n) q :=
  ⟨h.sends n,rfl,rfl,rfl,le_rfl,Or.inl rfl⟩

/-- A packet that get_tx_can_packet returns is put into a free mailbox. -/
theorem Node.Ok.transmit {f : Frame} (h : s.Ok (f::q))
    (hfree : getTxMailboxesFreeLevel s.controller≠0) (packet : TxStackData) :
    let r := getTxCanPacket s.stack packet
    r.1≠0 ∧ ¬r.2.1.length>8 ∧
      Moves s (f::q) {s with
        stack := r.2.2
        can1TxTmr := 0
        controller := canMessageTransmit s.controller (frame r.2.1)} q := by
  obtain ⟨hholds,-,hget⟩ := h.holds.get packet
  obtain ⟨hres,hframe⟩ := hget f rfl
  obtain ⟨-,hshort,-⟩ := h.holds.head
  obtain ⟨hok,hbus,hpending⟩ := Controller.transmit_spec h.controller hfree f
  have hlength : (getTxCanPacket s.stack packet).2.1.length.toNat ≤ 8 := by
    have hdata := congrArg (fun g : Frame => g.data.length) hframe
    have hdata' := congrArg (fun g : Frame => g.data.length) h.holds.head.2.2
    dsimp only [frame] at hdata hdata'
    rw [load_length] at hdata hdata'
    omega
  refine ⟨by rw [hres]; exact Nat.one_ne_zero,?_,⟨hholds,?_,?_,?_⟩,rfl,rfl,rfl,
    Nat.le_succ _,Or.inr rfl⟩
  · rw [gt_iff_lt,UInt8.lt_iff_toNat_lt]
    exact Nat.not_lt.mpr hlength
  · dsimp only
    rw [hframe]
    exact hok
  · obtain ⟨handed,htaken,hadded⟩ := h.accounted
    refine ⟨handed++[f],?_,by rw [List.append_assoc]; exact hadded⟩
    dsimp only
    unfold Controller.taken at htaken ⊢
    rw [hframe,hbus,hpending,List.map_append,htaken,List.append_assoc]
    rfl
  · exact Nat.zero_lt_succ _

/-- An empty ring returns 0 and stays as it is. -/
theorem get_empty {stack : TxStack} (h : Holds stack []) (packet : TxStackData) :
    getTxCanPacket stack packet=(0,packet,stack) :=
  get_of_not_ready (fun hr => (shows_ready h.head).mp hr rfl) packet

/-- can_write_from_stack moves packets; when the first test finds a free
mailbox and the ring is not empty, it moves one at least. -/
theorem writeLoop_moves (done : ℕ → ℕ) (left : ℕ) (packet : TxStackData) (h : s.Ok q) :
    ∃ q',Moves s q (writeLoop done left packet s) q' ∧
      (1 ≤ left → getTxMailboxesFreeLevel (s.sends (done left)).controller≠0 → q≠[] →
        q'.length<q.length ∧ (writeLoop done left packet s).can1TxTmr=0) := by
  induction left generalizing s q packet with
  | zero =>
    exact ⟨q,h.sends_moves (done 0),fun hleft => absurd hleft (by decide)⟩
  | succ left ih =>
    have hsends := h.sends_moves (done (left+1))
    unfold writeLoop
    dsimp only
    by_cases hfull : getTxMailboxesFreeLevel (s.sends (done (left+1))).controller=0
    · rw [if_pos hfull]
      exact ⟨q,hsends,fun _ hfree => absurd hfull hfree⟩
    rw [if_neg hfull]
    cases q with
    | nil =>
      rw [get_empty hsends.ok.holds packet]
      exact ⟨[],hsends,fun _ _ hne => absurd rfl hne⟩
    | cons f q =>
      obtain ⟨hres,hshort,hmoves⟩ := hsends.ok.transmit hfull packet
      rw [if_neg hres,if_neg hshort]
      obtain ⟨q',hrest,-⟩ := ih (getTxCanPacket (s.sends (done (left+1))).stack packet).2.1
        hmoves.ok
      refine ⟨q',(hsends.trans hmoves).trans hrest,fun _ _ _ => ⟨?_,?_⟩⟩
      · exact hrest.le.trans_lt (Nat.lt_succ_self _)
      · exact hrest.timer.elim id id

/-! ## Runs -/

/-- A packet that is added has at most eight bytes. -/
def NodeOp.Short : NodeOp → Prop
  | .add packet => packet.length.toNat ≤ 8
  | _ => True

/-- An added packet is one more outstanding. -/
theorem outstanding_add (h : s.Ok q) (packet : TxStackData) :
    (s.add packet).outstanding=q.length+1 := by
  obtain ⟨handed,htaken,hadded⟩ := h.accounted
  unfold Node.outstanding Node.add
  dsimp only
  rw [←htaken,←hadded,List.length_append,List.length_append,List.length_map,List.length_singleton]
  omega

/-- An add that leaves at most 80 packets outstanding. -/
theorem Node.Ok.add_within (h : s.Ok q) {packet : TxStackData} (hshort : packet.length.toNat ≤ 8)
    (hcap : (s.add packet).outstanding ≤ 80) : (s.add packet).Ok (q++[frame packet]) := by
  rw [outstanding_add h] at hcap
  exact h.add hcap hshort

/-- The transmit timer counts to 19 and starts again. -/
theorem networkRound_timer (h : s.can1TxTmr.toNat<20) :
    (networkRound s).can1TxTmr.toNat=
      if s.can1TxTmr.toNat=19 then 0 else s.can1TxTmr.toNat+1 := by
  have h1 : (1 : UInt16).toNat=1 := rfl
  have h20 : (20 : UInt16).toNat=20 := rfl
  have hadd : (s.can1TxTmr+1).toNat=s.can1TxTmr.toNat+1 := by
    rw [UInt16.toNat_add,h1]
    omega
  unfold networkRound
  dsimp only
  by_cases hlast : s.can1TxTmr.toNat=19
  · rw [if_pos (by rw [ge_iff_le,UInt16.le_iff_toNat_le,hadd,h20]; omega),if_pos hlast]
    rfl
  · rw [if_neg (by rw [ge_iff_le,UInt16.le_iff_toNat_le,hadd,h20]; omega),if_neg hlast]
    exact hadd

/-- A round of the network task keeps the node well formed. -/
theorem Node.Ok.network (h : s.Ok q) : (networkRound s).Ok q := by
  have htimer := networkRound_timer h.timer
  have hlt := h.timer
  refine ⟨?_,?_,?_,by split at htimer <;> omega⟩ <;>
  · unfold networkRound
    dsimp only
    split
    · first | exact h.holds | exact h.controller | exact h.accounted
    · first | exact h.holds | exact h.controller | exact h.accounted

/-- Writing from the ring is a move. -/
theorem canWriteFromStack_moves (done : ℕ → ℕ) (packet : TxStackData) (h : s.Ok q) :
    ∃ q',Moves s q (canWriteFromStack done packet s) q' := by
  unfold canWriteFromStack
  split
  · exact ⟨q,h,rfl,rfl,rfl,le_rfl,Or.inl rfl⟩
  · obtain ⟨q',hmoves,-⟩ := writeLoop_moves done 9 packet h
    exact ⟨q',hmoves⟩

/-- Every operation keeps the invariant as long as no packet is added to a full ring. -/
theorem Node.Ok.step (h : s.Ok q) {op : NodeOp} (hshort : op.Short)
    (hcap : (nodeStep s op).outstanding ≤ 80) : ∃ q',(nodeStep s op).Ok q' := by
  cases op with
  | add packet => exact ⟨_,h.add_within hshort hcap⟩
  | heartbeat lcdCanAddr clusterAddr =>
    unfold nodeStep heartbeatRound at hcap ⊢
    dsimp only at hcap ⊢
    split
    · next hdue =>
      rw [if_pos hdue] at hcap
      have hzero : Node.Ok {s with heartbeatTmr := 0} q :=
        ⟨h.holds,h.controller,h.accounted,h.timer⟩
      have hlength : (packetOf (heartbeatId lcdCanAddr clusterAddr)
          [0x49,s.heartbeatValue]).length.toNat ≤ 8 := (by decide : (2 : UInt8).toNat ≤ 8)
      have hadd := hzero.add_within hlength hcap
      exact ⟨_,hadd.holds,hadd.controller,hadd.accounted,hadd.timer⟩
    · exact ⟨q,h.holds,h.controller,h.accounted,h.timer⟩
  | network => exact ⟨q,h.network⟩
  | write done packet =>
    obtain ⟨q',hmoves⟩ := canWriteFromStack_moves done packet h
    exact ⟨q',hmoves.ok⟩
  | sent => exact ⟨q,h.sends 1⟩

/-- A node at power on is well formed and has nothing queued. -/
theorem startNode_ok (stack : TxStack) : (startNode stack).Ok [] where
  holds := holds_init stack
  controller := ⟨List.nodup_nil,fun m => iff_of_false List.not_mem_nil fun h => h.2 rfl⟩
  accounted := ⟨[],rfl,rfl⟩
  timer := (by decide : (0 : UInt16).toNat<20)

/-- One more operation is one more step. -/
@[simp] theorem nodeRun_concat (stack : TxStack) (ops : List NodeOp) (op : NodeOp) :
    nodeRun stack (ops++[op])=nodeStep (nodeRun stack ops) op := List.foldl_concat ..

/-- At most 80 packets are outstanding throughout a run. -/
def Within (stack : TxStack) (ops : List NodeOp) : Prop :=
  Throughout (fun pre => (nodeRun stack pre).outstanding ≤ 80) ops

/-- Within the capacity of the ring every run leaves the node well formed. -/
theorem nodeRun_ok {stack : TxStack} {ops : List NodeOp} (hshort : ∀ op∈ops,op.Short)
    (hcap : Within stack ops) : ∃ q,(nodeRun stack ops).Ok q := by
  refine @inv_of_inputsMeet NodeOp (fun ops => ∃ q,(nodeRun stack ops).Ok q) _
    ⟨[],startNode_ok stack⟩ ?_ _ (hcap.inputsMeet.and (InputsMeet.of_forall hshort))
  rintro pre op ⟨q,hq⟩ ⟨hroom,hop⟩
  rw [nodeRun_concat] at hroom ⊢
  exact hq.step hop hroom

/-- Writing packets adds none to the ring. -/
theorem writeLoop_added (done : ℕ → ℕ) (left : ℕ) (packet : TxStackData) (s : Node) :
    (writeLoop done left packet s).added=s.added := by
  induction left generalizing packet s with
  | zero => rfl
  | succ left ih =>
    unfold writeLoop
    dsimp only
    split_ifs
    · rfl
    · rfl
    · rw [ih]
      rfl
    · rw [ih]
      rfl

/-- An operation adds one frame at most. -/
theorem added_step (s : Node) (op : NodeOp) :
    (nodeStep s op).added.length ≤ s.added.length+1 := by
  have hone (packet : TxStackData) : (s.added++[frame packet]).length ≤ s.added.length+1 :=
    List.length_append.le
  cases op with
  | add packet => exact hone packet
  | heartbeat lcdCanAddr clusterAddr =>
    unfold nodeStep heartbeatRound
    dsimp only
    split
    · exact hone _
    · exact Nat.le_succ _
  | network =>
    unfold nodeStep networkRound
    dsimp only
    split <;> exact Nat.le_succ _
  | write done packet =>
    unfold nodeStep canWriteFromStack
    dsimp only
    split
    · exact Nat.le_succ _
    · rw [writeLoop_added]
      exact Nat.le_succ _
  | sent => exact Nat.le_succ _

/-- At most 80 operations stay within the capacity. -/
theorem within_of_length {stack : TxStack} {ops : List NodeOp} (h : ops.length ≤ 80) :
    Within stack ops := by
  have hadded : ∀ ops,(nodeRun stack ops).added.length ≤ ops.length := by
    intro ops
    induction ops using List.reverseRecOn with
    | nil => exact le_rfl
    | append_singleton ops op ih =>
      have hstep := added_step (nodeRun stack ops) op
      rw [nodeRun_concat,List.length_append,List.length_singleton]
      omega
  intro pre post he
  have hlen := congrArg List.length he
  have hpre := hadded pre
  rw [List.length_append] at hlen
  unfold Node.outstanding
  omega

/-! ## Progress -/

/-- What happens besides the rounds of the two tasks that the timer is about. -/
def NodeOp.Quiet : NodeOp → Prop
  | .add _ => True
  | .heartbeat _ _ => True
  | .sent => True
  | .network => False
  | .write _ _ => False

/-- What was taken and what is queued make up what was added. -/
theorem taken_length (h : s.Ok q) : s.controller.taken.length+q.length=s.added.length := by
  obtain ⟨handed,htaken,hadded⟩ := h.accounted
  rw [←htaken,←hadded,List.length_map,List.length_append]

/-- The controller takes nothing meanwhile, and the timer stands. -/
theorem quiet_step (h : s.Ok q) {op : NodeOp} (hquiet : op.Quiet) :
    (nodeStep s op).can1TxTmr=s.can1TxTmr ∧
      (nodeStep s op).controller.taken=s.controller.taken ∧
      s.added.length ≤ (nodeStep s op).added.length := by
  cases op with
  | add packet =>
    refine ⟨rfl,rfl,?_⟩
    change _ ≤ (s.added++[frame packet]).length
    rw [List.length_append]
    exact Nat.le_add_right _ _
  | heartbeat lcdCanAddr clusterAddr =>
    unfold nodeStep heartbeatRound
    dsimp only
    split
    · refine ⟨rfl,rfl,?_⟩
      change _ ≤ (s.added++[_]).length
      rw [List.length_append]
      exact Nat.le_add_right _ _
    · exact ⟨rfl,rfl,le_rfl⟩
  | network => exact hquiet.elim
  | write done packet => exact hquiet.elim
  | sent => exact ⟨rfl,(Controller.completes_spec h.controller 1).2.1,le_rfl⟩

variable {stack : TxStack} {pre ops : List NodeOp}

/-- Without the rounds of the two tasks nothing is taken and the timer stands. -/
theorem quiet_run (hquiet : ∀ op∈ops,op.Quiet) (hshort : ∀ op∈pre++ops,op.Short)
    (hcap : Within stack (pre++ops)) :
    (nodeRun stack (pre++ops)).can1TxTmr=(nodeRun stack pre).can1TxTmr ∧
      (nodeRun stack (pre++ops)).controller.taken=(nodeRun stack pre).controller.taken ∧
      (nodeRun stack pre).added.length ≤ (nodeRun stack (pre++ops)).added.length := by
  induction ops using List.reverseRecOn with
  | nil =>
    rw [List.append_nil]
    exact ⟨rfl,rfl,le_rfl⟩
  | append_singleton ops op ih =>
    rw [←List.append_assoc] at hshort hcap ⊢
    have hshort' : ∀ op∈pre++ops,op.Short := fun o ho => hshort o (List.mem_append_left _ ho)
    obtain ⟨htimer,htaken,hadded⟩ :=
      ih (fun o ho => hquiet o (List.mem_append_left _ ho)) hshort' hcap.of_append
    obtain ⟨q,hok⟩ := nodeRun_ok hshort' hcap.of_append
    obtain ⟨htimer',htaken',hadded'⟩ :=
      quiet_step hok (hquiet op (List.mem_append_right _ List.mem_cons_self))
    rw [nodeRun_concat]
    exact ⟨htimer'.trans htimer,htaken'.trans htaken,hadded.trans hadded'⟩

/-- Rounds until the timer lets the CAN task write, less one. -/
def rank (s : Node) : ℕ :=
  let t := s.can1TxTmr.toNat
  if t=19 then 5 else 4-t

/-- A round of the network task and then one of the CAN task, with anything
else in between, in which the CAN task finds a free mailbox. -/
def Turn (stack : TxStack) (pre turn : List NodeOp) : Prop :=
  ∃ before between behind done packet,
    turn=before++[.network]++between++[.write done packet]++behind ∧
    (∀ op∈before++between++behind,op.Quiet) ∧
    getTxMailboxesFreeLevel ((nodeRun stack (pre++(before++[.network]++between))).sends
      (done 9)).controller≠0

/-- The write of a turn. -/
theorem write_step (h : s.Ok q) (done : ℕ → ℕ) (packet : TxStackData)
    (hfree : getTxMailboxesFreeLevel (s.sends (done 9)).controller≠0) (hq : q≠[]) :
    if s.can1TxTmr.toNat<5 then canWriteFromStack done packet s=s
    else s.controller.taken.length<(canWriteFromStack done packet s).controller.taken.length ∧
      (canWriteFromStack done packet s).can1TxTmr=0 := by
  have h5 : (5 : UInt16).toNat=5 := rfl
  unfold canWriteFromStack
  split
  · next ht => exact if_pos (by rwa [UInt16.lt_iff_toNat_lt,h5])
  · next ht =>
    rw [if_neg (by rwa [UInt16.lt_iff_toNat_lt,h5])]
    obtain ⟨q',hmoves,hone⟩ := writeLoop_moves done 9 packet h
    obtain ⟨hless,hzero⟩ := hone (by decide) hfree hq
    have hlen := taken_length h
    have hlen' := taken_length hmoves.ok
    rw [hmoves.added] at hlen'
    exact ⟨by omega,hzero⟩

/-- Frames that the controller has taken, as a count. -/
def count (s : Node) : ℕ := s.controller.taken.length

/-- A round of the network task adds nothing and sends nothing. -/
theorem networkRound_kept (s : Node) :
    (nodeStep s .network).controller.taken=s.controller.taken ∧
      (nodeStep s .network).added=s.added := by
  unfold nodeStep networkRound
  dsimp only
  split <;> exact ⟨rfl,rfl⟩

/-- The controller gives nothing back, and no add is undone. -/
theorem mono_step (h : s.Ok q) (op : NodeOp) :
    count s ≤ count (nodeStep s op) ∧ s.added.length ≤ (nodeStep s op).added.length := by
  unfold count
  have hquiet (op : NodeOp) (ho : op.Quiet) : s.controller.taken.length ≤
      (nodeStep s op).controller.taken.length ∧ s.added.length ≤ (nodeStep s op).added.length := by
    obtain ⟨-,htaken,hadded⟩ := quiet_step h ho
    exact ⟨by rw [htaken],hadded⟩
  cases op with
  | add packet => exact hquiet (.add packet) trivial
  | heartbeat lcdCanAddr clusterAddr => exact hquiet (.heartbeat lcdCanAddr clusterAddr) trivial
  | sent => exact hquiet .sent trivial
  | network =>
    obtain ⟨htaken,hadded⟩ := networkRound_kept s
    exact ⟨(congrArg List.length htaken).ge,(congrArg List.length hadded).ge⟩
  | write done packet =>
    obtain ⟨q',hmoves⟩ := canWriteFromStack_moves done packet h
    have hlen := taken_length h
    have hlen' := taken_length hmoves.ok
    have hle := hmoves.le
    have hadded := congrArg List.length hmoves.added
    change _ ≤ (canWriteFromStack done packet s).controller.taken.length ∧
      _ ≤ (canWriteFromStack done packet s).added.length
    omega

/-- A run never takes less, nor adds less, than before. -/
theorem mono_run (hshort : ∀ op∈pre++ops,op.Short) (hcap : Within stack (pre++ops)) :
    count (nodeRun stack pre) ≤ count (nodeRun stack (pre++ops)) ∧
      (nodeRun stack pre).added.length ≤ (nodeRun stack (pre++ops)).added.length := by
  induction ops using List.reverseRecOn with
  | nil =>
    rw [List.append_nil]
    exact ⟨le_rfl,le_rfl⟩
  | append_singleton ops op ih =>
    rw [←List.append_assoc] at hshort hcap ⊢
    have hshort' : ∀ op∈pre++ops,op.Short := fun o ho => hshort o (List.mem_append_left _ ho)
    obtain ⟨q,hok⟩ := nodeRun_ok hshort' hcap.of_append
    obtain ⟨hcount,hadded⟩ := ih hshort' hcap.of_append
    obtain ⟨hcount',hadded'⟩ := mono_step hok op
    rw [nodeRun_concat]
    exact ⟨hcount.trans hcount',hadded.trans hadded'⟩

/-- Up to the write of a turn the controller takes nothing, and the timer counts
one round. -/
theorem before_write {before between : List NodeOp} (hbefore : ∀ op∈before,op.Quiet)
    (hbetween : ∀ op∈between,op.Quiet)
    (hshort : ∀ op∈pre++before++[.network]++between,op.Short)
    (hcap : Within stack (pre++before++[.network]++between)) :
    let s := nodeRun stack (pre++before++[.network]++between)
    count s=count (nodeRun stack pre) ∧ (nodeRun stack pre).added.length ≤ s.added.length ∧
      (nodeRun stack pre).can1TxTmr.toNat<20 ∧
      s.can1TxTmr.toNat=if (nodeRun stack pre).can1TxTmr.toNat=19 then 0
        else (nodeRun stack pre).can1TxTmr.toNat+1 := by
  have hshort2 := fun o ho => hshort o (List.mem_append_left _ ho)
  have hshort1 := fun o ho => hshort2 o (List.mem_append_left _ ho)
  have hcap1 := hcap.of_append.of_append
  obtain ⟨htimer1,htaken1,hadded1⟩ := quiet_run hbefore hshort1 hcap1
  obtain ⟨htimer3,htaken3,hadded3⟩ := quiet_run hbetween hshort hcap
  obtain ⟨q,hok⟩ := nodeRun_ok hshort1 hcap1
  have hround := networkRound_timer hok.timer
  have hlt := hok.timer
  obtain ⟨htaken2,hadded2⟩ := networkRound_kept (nodeRun stack (pre++before))
  rw [nodeRun_concat] at htimer3 htaken3 hadded3
  rw [htimer1] at hround hlt
  rw [hadded2] at hadded3
  refine ⟨?_,hadded1.trans hadded3,hlt,?_⟩
  · unfold count
    rw [htaken3,htaken2,htaken1]
  · rw [htimer3]
    exact hround

/-- Behind the write of a turn the controller takes nothing, and the timer stands. -/
theorem behind_write {behind : List NodeOp} {done : ℕ → ℕ} {packet : TxStackData}
    (hbehind : ∀ op∈behind,op.Quiet)
    (hshort : ∀ op∈pre++[.write done packet]++behind,op.Short)
    (hcap : Within stack (pre++[.write done packet]++behind)) :
    let s := nodeRun stack (pre++[.write done packet]++behind)
    count s=count (canWriteFromStack done packet (nodeRun stack pre)) ∧
      s.can1TxTmr=(canWriteFromStack done packet (nodeRun stack pre)).can1TxTmr := by
  obtain ⟨htimer,htaken,-⟩ := quiet_run hbehind hshort hcap
  rw [nodeRun_concat] at htimer htaken
  exact ⟨congrArg List.length htaken,htimer⟩

/-- A turn takes a frame that waits, or the next write is one round nearer. -/
theorem turn_advances {turn : List NodeOp} (hturn : Turn stack pre turn)
    (hshort : ∀ op∈pre++turn,op.Short) (hcap : Within stack (pre++turn))
    (hwaits : count (nodeRun stack pre)<(nodeRun stack pre).added.length) :
    Advances count rank 4 (nodeRun stack pre) (nodeRun stack (pre++turn)) := by
  obtain ⟨before,between,behind,done,packet,rfl,hquiet,hfree⟩ := hturn
  have hsplit : pre++(before++[.network]++between++[.write done packet]++behind)=
      pre++before++[.network]++between++[.write done packet]++behind := by
    simp only [List.append_assoc]
  have hplace : pre++(before++[NodeOp.network]++between)=pre++before++[.network]++between := by
    simp only [List.append_assoc]
  rw [hsplit] at hshort hcap ⊢
  rw [hplace] at hfree
  have hshort3 : ∀ op∈pre++before++[.network]++between,op.Short := fun o ho =>
    hshort o (List.mem_append_left _ (List.mem_append_left _ ho))
  have hcap3 := hcap.of_append.of_append
  obtain ⟨hcount,hadded,hlt,htimer⟩ := before_write
    (fun op ho => hquiet op (List.mem_append_left _ (List.mem_append_left _ ho)))
    (fun op ho => hquiet op (List.mem_append_left _ (List.mem_append_right _ ho))) hshort3 hcap3
  obtain ⟨hlast,hstands⟩ :=
    behind_write (fun op ho => hquiet op (List.mem_append_right _ ho)) hshort hcap
  obtain ⟨q,hok⟩ := nodeRun_ok hshort3 hcap3
  have hne : q≠[] := by
    rintro rfl
    have hlen := taken_length hok
    unfold count at hcount hwaits
    rw [List.length_nil] at hlen
    omega
  have hwrite := write_step hok done packet hfree hne
  unfold Advances rank
  dsimp only
  rw [hlast,hstands]
  split at hwrite
  · next hearly =>
    rw [hwrite,htimer,hcount]
    rw [htimer] at hearly
    refine Or.inr ⟨le_rfl,?_⟩
    split at hearly <;> split <;> split <;> omega
  · rw [hwrite.2]
    refine Or.inl ⟨?_,by decide⟩
    rw [←hcount]
    exact hwrite.1

/-- From any state of a run, whatever is added and whenever the controller
sends: when the rounds of the two tasks alternate and the CAN task finds a
free mailbox in each of its own, the controller takes a frame that waits
within six turns and another one within every five turns more. -/
theorem taken_in_time {turns : List (List NodeOp)} (hshort : ∀ op∈pre++turns.flatten,op.Short)
    (hcap : Within stack (pre++turns.flatten))
    (hturns : ∀ k (hk : k<turns.length),Turn stack (pre++(turns.take k).flatten) turns[k]) {n : ℕ}
    (hn : 6+5*n ≤ turns.length) :
    min (nodeRun stack pre).added.length (count (nodeRun stack pre)+(n+1)) ≤
      count (nodeRun stack (pre++turns.flatten)) := by
  have hfirst : ∀ k,∃ rest,pre++turns.flatten=pre++(turns.take k).flatten++rest := by
    intro k
    refine ⟨(turns.drop k).flatten,?_⟩
    rw [List.append_assoc,←List.flatten_append,List.take_append_drop]
  have hnext : ∀ k (hk : k<turns.length),pre++(turns.take (k+1)).flatten=
      pre++(turns.take k).flatten++turns[k] := by
    intro k hk
    rw [List.take_succ_eq_append_getElem hk,List.flatten_append,List.append_assoc]
    simp only [List.flatten_cons,List.flatten_nil,List.append_nil]
  have hshort' : ∀ k,∀ op∈pre++(turns.take k).flatten,op.Short := by
    intro k op hop
    obtain ⟨rest,hrest⟩ := hfirst k
    exact hshort op (by rw [hrest]; exact List.mem_append_left _ hop)
  have hcap' : ∀ k,Within stack (pre++(turns.take k).flatten) := by
    intro k
    obtain ⟨rest,hrest⟩ := hfirst k
    rw [hrest] at hcap
    exact hcap.of_append
  have hrank : rank (nodeRun stack pre) ≤ 5 := by
    unfold rank
    dsimp only
    split <;> omega
  have hcount := @count_after Node count rank 4 (nodeRun stack pre).added.length
    (fun k => nodeRun stack (pre++(turns.take k).flatten)) turns.length ?_ ?_ n ?_
  · simp only [List.take_zero,List.flatten_nil,List.append_nil,List.take_length] at hcount
    exact hcount
  · intro k hk
    rw [hnext k hk]
    have hshort1 := hshort' (k+1)
    have hcap1 := hcap' (k+1)
    rw [hnext k hk] at hshort1 hcap1
    exact (mono_run hshort1 hcap1).1
  · intro k hk hgoal
    rw [hnext k hk]
    have hshort1 := hshort' (k+1)
    have hcap1 := hcap' (k+1)
    rw [hnext k hk] at hshort1 hcap1
    have hadded := (mono_run (hshort' k) (hcap' k)).2
    exact turn_advances (hturns k hk) hshort1 hcap1 (by omega)
  · simp only [List.take_zero,List.flatten_nil,List.append_nil]
    omega

/-- A turn of the two tasks with nothing in between. -/
def plainTurn : List NodeOp := [.network,.write (fun _ => 0) (onePacket 0)]

/-- One packet, added when the timer has just been cleared. -/
theorem taken_in_time_one : min 1 (0+(0+1)) ≤ count (nodeRun zeroStack
    ([.add (onePacket 1)]++(List.replicate 6 plainTurn).flatten)) := by
  have hshort : ∀ op∈[NodeOp.add (onePacket 1)]++(List.replicate 6 plainTurn).flatten,op.Short := by
    intro op hop
    cases op with
    | add packet =>
      have hmem : NodeOp.add packet=.add (onePacket 1) := by
        simpa [plainTurn] using hop
      cases hmem
      exact (by decide : (1 : UInt8).toNat ≤ 8)
    | heartbeat lcdCanAddr clusterAddr => trivial
    | network => trivial
    | write done packet => trivial
    | sent => trivial
  have hfree : ∀ k<6,getTxMailboxesFreeLevel ((nodeRun zeroStack ([.add (onePacket 1)]++
      ((List.replicate 6 plainTurn).take k).flatten++[.network])).sends 0).controller≠0 := by
    decide
  refine taken_in_time hshort (within_of_length (by decide)) (fun k hk => ?_) (n:=0) (by decide)
  exact ⟨[],[],[],fun _ => 0,onePacket 0,by rw [List.getElem_replicate]; rfl,by simp,hfree k hk⟩

/-! ## Heartbeats -/

/-- The service of an identifier that is built from a service and two addresses. -/
theorem service_eq (service : UInt32) (node cluster : UInt8) :
    (service|||(node.toUInt32<<<3)|||(cluster.toUInt32<<<7))&&&7=service&&&7 := by
  have h3 : (3 : UInt32).toNat%32=3 := rfl
  have h7 : (7 : UInt32).toNat%32=7 := rfl
  have hmask : (7 : UInt32).toNat=2^3-1 := rfl
  have hnode : (node.toUInt32.toNat<<<3)%2^32%2^3=0 := by
    rw [Nat.shiftLeft_eq]
    omega
  have hcluster : (cluster.toUInt32.toNat<<<7)%2^32%2^3=0 := by
    rw [Nat.shiftLeft_eq]
    omega
  rw [←UInt32.toNat_inj,UInt32.toNat_and,UInt32.toNat_and,UInt32.toNat_or,UInt32.toNat_or,
    UInt32.toNat_shiftLeft,UInt32.toNat_shiftLeft,h3,h7,Nat.and_or_distrib_right,
    Nat.and_or_distrib_right,hmask,Nat.and_two_pow_sub_one_eq_mod,Nat.and_two_pow_sub_one_eq_mod,
    Nat.and_two_pow_sub_one_eq_mod,hnode,hcluster,Nat.or_zero,Nat.or_zero]

/-- A frame of the heartbeat service. -/
def isHeartbeat (f : Frame) : Bool := f.id&&&7==1

/-- The counter in a heartbeat. -/
def beat (f : Frame) : UInt8 := f.data.getD 1 0

/-- The counters of the heartbeats among frames. -/
def beats (frames : List Frame) : List UInt8 := (frames.filter isHeartbeat).map beat

/-- The packet is no heartbeat. -/
def NodeOp.Event : NodeOp → Prop
  | .add packet => packet.id&&&7≠1
  | _ => True

/-- Rounds of the CAN task in a run. -/
def rounds (ops : List NodeOp) : ℕ :=
  ops.countP fun op => match op with
    | .heartbeat _ _ => true
    | _ => false

/-- Counters from one on. -/
def counters (n : ℕ) : List UInt8 := (List.range n).map fun i => UInt8.ofNat (i+1)

/-- One more counter is the next number. -/
theorem counters_succ (n : ℕ) : counters (n+1)=counters n++[UInt8.ofNat (n+1)] := by
  unfold counters
  rw [List.range_succ,List.map_append]
  rfl

/-- The beats of two runs are those of both. -/
theorem beats_append (l l' : List Frame) : beats (l++l')=beats l++beats l' := by
  unfold beats
  rw [List.filter_append,List.map_append]

/-- The mailbox keeps the service. -/
theorem beats_onBus (frames : List Frame) : beats (frames.map onBus)=beats frames := by
  have hservice : ∀ f,isHeartbeat (onBus f)=isHeartbeat f := by
    intro f
    have hmask : (0x7FF : UInt32)&&&7=7 := by decide
    unfold isHeartbeat onBus
    dsimp only
    rw [UInt32.and_assoc,hmask]
  unfold beats
  rw [List.filter_map,List.map_map]
  have hfun : isHeartbeat ∘ onBus=isHeartbeat := funext hservice
  rw [hfun]
  rfl

/-- The heartbeats added so far, by the rounds of the CAN task. -/
structure Beats (s : Node) (n : ℕ) : Prop where
  /-- One for every 900 rounds. -/
  added : beats s.added=counters (n/900)
  /-- The rounds since the last one. -/
  timer : s.heartbeatTmr.toNat=n%900
  /-- The counter of the next one. -/
  value : s.heartbeatValue=UInt8.ofNat (n/900+1)

/-- A round of the CAN task. -/
theorem Beats.round {n : ℕ} (h : Beats s n) (lcdCanAddr clusterAddr : UInt8) :
    Beats (heartbeatRound lcdCanAddr clusterAddr s) (n+1) := by
  have htimer := h.timer
  have h1 : (1 : UInt16).toNat=1 := rfl
  have h900 : (900 : UInt16).toNat=900 := rfl
  have hadd : (s.heartbeatTmr+1).toNat=n%900+1 := by
    rw [UInt16.toNat_add,h1]
    omega
  unfold heartbeatRound
  dsimp only
  by_cases hdue : n%900=899
  · rw [if_pos (by rw [ge_iff_le,UInt16.le_iff_toNat_le,hadd,h900]; omega)]
    have hdiv : (n+1)/900=n/900+1 := by omega
    have hframe : beats [frame (packetOf (heartbeatId lcdCanAddr clusterAddr)
        [0x49,s.heartbeatValue])]=[s.heartbeatValue] := by
      have hservice : isHeartbeat (frame (packetOf (heartbeatId lcdCanAddr clusterAddr)
          [0x49,s.heartbeatValue]))=true :=
        beq_iff_eq.mpr (service_eq ((0x0400 : UInt32)|||(0x01 : UInt32)) lcdCanAddr clusterAddr)
      unfold beats
      rw [List.filter_cons,if_pos hservice]
      rfl
    refine ⟨?_,?_,?_⟩
    · change beats (s.added++[_])=_
      rw [beats_append,h.added,hframe,hdiv,counters_succ,h.value]
    · exact (by omega : 0=(n+1)%900)
    · change s.heartbeatValue+1=_
      rw [h.value,hdiv]
      exact (UInt8.ofNat_add _ _).symm
  · rw [if_neg (by rw [ge_iff_le,UInt16.le_iff_toNat_le,hadd,h900]; omega)]
    refine ⟨?_,?_,?_⟩
    · rw [show (n+1)/900=n/900 by omega]
      exact h.added
    · exact hadd.trans (by omega)
    · rw [show (n+1)/900=n/900 by omega]
      exact h.value

/-- Everything else leaves the heartbeats alone. -/
theorem Beats.step {n : ℕ} (hbeats : Beats s n) (h : s.Ok q) {op : NodeOp} (hevent : op.Event) :
    Beats (nodeStep s op) (n+rounds [op]) := by
  cases op with
  | add packet =>
    have hnot : beats [frame packet]=[] := by
      have hservice : ¬isHeartbeat (frame packet)=true := fun he => hevent (beq_iff_eq.mp he)
      unfold beats
      rw [List.filter_cons,if_neg hservice]
      rfl
    refine ⟨?_,hbeats.timer,hbeats.value⟩
    change beats (s.added++[frame packet])=_
    rw [beats_append,hnot,List.append_nil]
    exact hbeats.added
  | heartbeat lcdCanAddr clusterAddr => exact hbeats.round lcdCanAddr clusterAddr
  | network =>
    unfold nodeStep networkRound
    dsimp only
    split <;> exact ⟨hbeats.added,hbeats.timer,hbeats.value⟩
  | write done packet =>
    obtain ⟨q',hmoves⟩ := canWriteFromStack_moves done packet h
    refine ⟨?_,?_,?_⟩
    · exact (congrArg beats hmoves.added).trans hbeats.added
    · exact (congrArg UInt16.toNat hmoves.heartbeatTmr).trans hbeats.timer
    · exact hmoves.heartbeatValue.trans hbeats.value
  | sent => exact ⟨hbeats.added,hbeats.timer,hbeats.value⟩

end BT816Display.CanNode
