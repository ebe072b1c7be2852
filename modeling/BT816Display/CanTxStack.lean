import BT816Display.Lib.RingQueue
import BT816Display.Lib.Runs
import BT816Display.Lib.ByteMemory

/-!
# The CAN transmit ring of can_tx_stack.c

A ring of 80 packets with a read and a write position. The writer does not
look at the state of the slot it fills; the reader takes the slot at the read
position when it is READY. Within its capacity the ring is an exact queue.
-/

namespace BT816Display.CanTxStack

open ByteMemory RingWindow RingQueue Runs

/-- Data bytes of a packet. -/
abbrev canTxDataSize : ℕ := 8

/-- Packets in the ring. -/
abbrev canTxStackLength : ℕ := 80

/-- State of a slot. -/
inductive PacketState where
  /-- EMPTY_PACKET. -/
  | empty
  /-- BUSY_PACKET, while the slot is being filled. -/
  | busy
  /-- READY_PACKET. -/
  | ready
  deriving DecidableEq

/-- A packet. -/
structure TxStackData where
  /-- Data bytes. -/
  data : Mem UInt8
  /-- CAN identifier. -/
  id : UInt32
  /-- Number of data bytes. -/
  length : UInt8
  /-- State of the slot. -/
  state : PacketState

/-- The ring. -/
structure TxStack where
  /-- The slots. -/
  packet : ℕ → TxStackData
  /-- Read position. -/
  readPosition : ℕ
  /-- Write position. -/
  writePosition : ℕ

/-- Store one slot. -/
def TxStack.setPacket (stack : TxStack) (i : ℕ) (p : TxStackData) : TxStack :=
  {stack with packet := fun k => if k=i then p else stack.packet k}

/-- init_can_tx_stack. -/
def initCanTxStack (stack : TxStack) : TxStack where
  packet := fun i =>
    if i<canTxStackLength then {stack.packet i with length := 0,state := .empty} else stack.packet i
  readPosition := 0
  writePosition := 0

/-- The slot behind a position. -/
def nextPosition (pos : ℕ) : ℕ := if pos+1≥canTxStackLength then 0 else pos+1

/-- add_tx_can_packet. -/
def addTxCanPacket (stack : TxStack) (packet : TxStackData) : TxStack :=
  let wrPos := stack.writePosition
  if wrPos≥canTxStackLength then stack
  else if packet.length.toNat>canTxDataSize then stack
  else
    let slot := {stack.packet wrPos with state := .busy}
    let slot := {slot with data := store slot.data 0 (load packet.data 0 packet.length.toNat)}
    let slot := {slot with id := packet.id,length := packet.length,state := .ready}
    {stack.setPacket wrPos slot with writePosition := nextPosition wrPos}

/-- get_tx_can_packet: the result, the packet filled in, and the ring. -/
def getTxCanPacket (stack : TxStack) (packet : TxStackData) : ℕ×TxStackData×TxStack :=
  let rdPos := stack.readPosition
  if rdPos≥canTxStackLength then (0,packet,stack)
  else if (stack.packet rdPos).state=.ready then
    let packet := {packet with id := (stack.packet rdPos).id,length := (stack.packet rdPos).length}
    let emptied := {stack.setPacket rdPos {stack.packet rdPos with state := .empty} with
      readPosition := nextPosition rdPos}
    if packet.length.toNat>canTxDataSize then (0,packet,emptied)
    else
      (1,{packet with
        data := store packet.data 0 (load (stack.packet rdPos).data 0 packet.length.toNat)},emptied)
  else (0,packet,stack)

/-- What is sent of a packet. -/
structure Frame where
  /-- CAN identifier. -/
  id : UInt32
  /-- The data bytes up to the length. -/
  data : List UInt8
  deriving DecidableEq

/-- The frame of a packet. -/
def frame (p : TxStackData) : Frame := ⟨p.id,load p.data 0 p.length.toNat⟩

/-- One call. -/
inductive TxOp where
  /-- add_tx_can_packet. -/
  | add (packet : TxStackData)
  /-- get_tx_can_packet into a buffer. -/
  | get (buffer : TxStackData)

/-- The ring and the frames returned so far, oldest first. -/
structure TxRun where
  /-- The ring. -/
  stack : TxStack
  /-- The frames returned with result 1. -/
  returned : List Frame

/-- Execute one call. -/
def txStep (s : TxRun) (op : TxOp) : TxRun :=
  match op with
  | .add packet => {s with stack := addTxCanPacket s.stack packet}
  | .get buffer =>
    let (res,packet,stack) := getTxCanPacket s.stack buffer
    ⟨stack,if res=1 then s.returned++[frame packet] else s.returned⟩

/-- Execute a sequence of calls after init_can_tx_stack. -/
def txRun (stack₀ : TxStack) (ops : List TxOp) : TxRun :=
  ops.foldl txStep ⟨initCanTxStack stack₀,[]⟩

/-- The frames added, oldest first. -/
def added (ops : List TxOp) : List Frame :=
  ops.filterMap fun op => match op with
    | .add packet => some (frame packet)
    | .get _ => none

/-- The call adds at most eight data bytes. -/
def ShortPacket (op : TxOp) : Prop := ∀ packet,op=.add packet → packet.length.toNat≤8

/-- A queue under the same calls. -/
def waitingStep (q : List Frame) (op : TxOp) : List Frame :=
  match op with
  | .add packet => q++[frame packet]
  | .get _ => q.tail

/-- The frames outstanding after a sequence of calls. -/
def waiting (ops : List TxOp) : List Frame := ops.foldl waitingStep []

/-- A slot shows a frame to be sent, or none. -/
def Shows : Option Frame → TxStackData → Prop
  | none,p => p.state=.empty
  | some f,p => p.state=.ready ∧ p.length.toNat≤8 ∧ frame p=f

/-- The ring holds the queue `q`. -/
def Holds (stack : TxStack) (q : List Frame) : Prop :=
  Queue Shows 80 stack.packet stack.readPosition stack.writePosition q

/-- The next position goes round the 80 slots. -/
theorem nextPosition_eq (pos : ℕ) : nextPosition pos=next 80 pos := by
  unfold nextPosition next
  dsimp only [canTxStackLength]
  split <;> split <;> omega

/-- The ring holds nothing after it is initialised. -/
theorem holds_init (stack₀ : TxStack) : Holds (initCanTxStack stack₀) [] := by
  apply Queue.empty (by omega)
  intro i hi
  have hslot : (initCanTxStack stack₀).packet i=
      {stack₀.packet i with length := 0,state := .empty} := if_pos hi
  rw [hslot]
  rfl

/-- A slot is READY exactly when it shows a frame. -/
theorem shows_ready {o : Option Frame} {p : TxStackData} (h : Shows o p) :
    p.state=.ready ↔ o≠none := by
  cases o with
  | none =>
    rw [show p.state=.empty from h]
    simp
  | some f =>
    rw [show p.state=.ready from h.1]
    simp

/-- The writer finds a READY slot exactly when the ring is full. -/
theorem Holds.write_ready {stack : TxStack} {q : List Frame} (h : Holds stack q) :
    (stack.packet stack.writePosition).state=.ready ↔ q.length=80 := by
  have hfits := h.fits
  constructor
  · intro hr
    by_contra hne
    exact (shows_ready (h.free (by omega))).mp hr rfl
  · intro hfull
    refine (shows_ready (h.full hfull)).mpr ?_
    cases q with
    | nil => cases hfull
    | cons f q => exact Option.some_ne_none f

/-- An add fills the slot at the write position with the packet. -/
theorem add_eq {stack : TxStack} (hwr : stack.writePosition<80) {packet : TxStackData}
    (hshort : packet.length.toNat≤8) :
    ∃ slot,Shows (some (frame packet)) slot ∧
      addTxCanPacket stack packet=
        ⟨(stack.setPacket stack.writePosition slot).packet,stack.readPosition,
          next 80 stack.writePosition⟩ := by
  have hlen : (load packet.data 0 packet.length.toNat).length=packet.length.toNat := load_length ..
  have hload := load_store_self (stack.packet stack.writePosition).data 0
    (load packet.data 0 packet.length.toNat)
  rw [hlen] at hload
  unfold addTxCanPacket
  dsimp only [canTxStackLength,canTxDataSize]
  rw [if_neg (by omega),if_neg (by omega),nextPosition_eq]
  refine ⟨⟨_,packet.id,packet.length,.ready⟩,⟨rfl,hshort,?_⟩,rfl⟩
  exact congrArg (Frame.mk packet.id) hload

/-- A get of a slot that shows a frame returns it and empties the slot. -/
theorem get_of_shows {stack : TxStack} {f : Frame} (hrd : stack.readPosition<80)
    (h : Shows (some f) (stack.packet stack.readPosition)) (buffer : TxStackData) :
    (getTxCanPacket stack buffer).1=1 ∧ frame (getTxCanPacket stack buffer).2.1=f ∧
      (getTxCanPacket stack buffer).2.2=
        ⟨(stack.setPacket stack.readPosition
            {stack.packet stack.readPosition with state := .empty}).packet,
          next 80 stack.readPosition,stack.writePosition⟩ := by
  obtain ⟨hr,hshort,hframe⟩ := h
  have hlen : (load (stack.packet stack.readPosition).data 0
      (stack.packet stack.readPosition).length.toNat).length=
        (stack.packet stack.readPosition).length.toNat := load_length ..
  have hload := load_store_self buffer.data 0 (load (stack.packet stack.readPosition).data 0
    (stack.packet stack.readPosition).length.toNat)
  rw [hlen] at hload
  unfold getTxCanPacket
  dsimp only [canTxStackLength,canTxDataSize]
  rw [if_neg (by omega),if_pos hr,if_neg (by omega),nextPosition_eq]
  refine ⟨rfl,?_,rfl⟩
  rw [←hframe]
  exact congrArg (Frame.mk (stack.packet stack.readPosition).id) hload

/-- A get of a slot that is not READY returns 0 and changes nothing. -/
theorem get_of_not_ready {stack : TxStack} (h : (stack.packet stack.readPosition).state≠.ready)
    (buffer : TxStackData) : getTxCanPacket stack buffer=(0,buffer,stack) := by
  unfold getTxCanPacket
  dsimp only
  rw [if_neg h]
  exact ite_self _

/-- Adding a packet to a ring that is not full appends its frame. -/
theorem Holds.add {stack : TxStack} {q : List Frame} (h : Holds stack q) (hroom : q.length<80)
    {packet : TxStackData} (hshort : packet.length.toNat≤8) :
    Holds (addTxCanPacket stack packet) (q++[frame packet]) := by
  obtain ⟨slot,hslot,he⟩ := add_eq h.wr_lt hshort
  rw [he]
  refine h.push hroom ?_ fun i _ hi => if_neg hi
  dsimp only [TxStack.setPacket]
  rw [if_pos rfl]
  exact hslot

/-- Getting a packet takes out the oldest frame, if there is one. -/
theorem Holds.get {stack : TxStack} {q : List Frame} (h : Holds stack q) (buffer : TxStackData) :
    Holds (getTxCanPacket stack buffer).2.2 q.tail ∧
      ((getTxCanPacket stack buffer).1=0 ↔ q=[]) ∧
      ∀ f,q.head?=some f →
        (getTxCanPacket stack buffer).1=1 ∧ frame (getTxCanPacket stack buffer).2.1=f := by
  have hhead := h.head
  cases q with
  | nil =>
    rw [get_of_not_ready (fun hr => (shows_ready hhead).mp hr rfl) buffer]
    exact ⟨h,⟨fun _ => rfl,fun _ => rfl⟩,fun f hf => nomatch hf⟩
  | cons f q =>
    obtain ⟨hres,hframe,hstack⟩ := get_of_shows h.rd_lt hhead buffer
    refine ⟨?_,⟨fun h0 => ?_,fun hq => absurd hq (List.cons_ne_nil f q)⟩,fun g hg => ⟨hres,?_⟩⟩
    · rw [hstack]
      refine h.pop ?_ fun i _ hi => if_neg hi
      dsimp only [TxStack.setPacket]
      rw [if_pos rfl]
      rfl
    · exact absurd (hres.symm.trans h0) Nat.one_ne_zero
    · rw [hframe]
      exact Option.some.inj hg

/-- One more operation is one more step. -/
@[simp] theorem txRun_concat (stack₀ : TxStack) (ops : List TxOp) (op : TxOp) :
    txRun stack₀ (ops++[op])=txStep (txRun stack₀ ops) op := List.foldl_concat ..

/-- The write position stays in the ring. -/
theorem add_writePosition_lt {stack : TxStack} (h : stack.writePosition<80) (packet : TxStackData) :
    (addTxCanPacket stack packet).writePosition<80 := by
  unfold addTxCanPacket
  dsimp only
  split_ifs
  · exact h
  · exact h
  · dsimp only
    rw [nextPosition_eq]
    exact next_lt h

/-- A get does not move the write position. -/
theorem get_writePosition (stack : TxStack) (buffer : TxStackData) :
    (getTxCanPacket stack buffer).2.2.writePosition=stack.writePosition := by
  unfold getTxCanPacket
  dsimp only
  split_ifs <;> rfl

/-- The write position stays inside the ring, also when it overflows. -/
theorem txRun_writePosition_lt (stack₀ : TxStack) (ops : List TxOp) :
    (txRun stack₀ ops).stack.writePosition<80 := by
  induction ops using List.reverseRecOn with
  | nil => exact Nat.succ_pos 79
  | append_singleton ops op ih =>
    rw [txRun_concat]
    cases op with
    | add packet => exact add_writePosition_lt ih packet
    | get buffer => exact (get_writePosition _ buffer).symm ▸ ih

/-- One more operation moves the queue of the model by one step. -/
@[simp] theorem waiting_concat (ops : List TxOp) (op : TxOp) :
    waiting (ops++[op])=waitingStep (waiting ops) op := List.foldl_concat ..

/-- An added packet is added to the list of those added. -/
@[simp] theorem added_concat_add (ops : List TxOp) (packet : TxStackData) :
    added (ops++[.add packet])=added ops++[frame packet] := List.filterMap_append ..

/-- A get adds nothing to it. -/
@[simp] theorem added_concat_get (ops : List TxOp) (buffer : TxStackData) :
    added (ops++[.get buffer])=added ops := by
  unfold added
  rw [List.filterMap_append]
  exact List.append_nil _

/-- The ring holds the outstanding frames, and every frame added has been
returned or is outstanding. -/
structure TxInv (stack₀ : TxStack) (ops : List TxOp) : Prop where
  /-- The ring holds the outstanding frames. -/
  holds : Holds (txRun stack₀ ops).stack (waiting ops)
  /-- The returned frames and the outstanding ones are the frames added. -/
  accounted : (txRun stack₀ ops).returned++waiting ops=added ops

/-- A run of nothing keeps the ring in order. -/
theorem txInv_nil (stack₀ : TxStack) : TxInv stack₀ [] := ⟨holds_init stack₀,rfl⟩

variable {stack₀ : TxStack} {ops : List TxOp}

/-- An add with room in the ring keeps the invariant. -/
theorem TxInv.add (h : TxInv stack₀ ops) (hroom : (waiting ops).length<80) {packet : TxStackData}
    (hshort : packet.length.toNat≤8) : TxInv stack₀ (ops++[.add packet]) := by
  refine ⟨?_,?_⟩
  · rw [txRun_concat,waiting_concat]
    exact h.holds.add hroom hshort
  · rw [txRun_concat,waiting_concat,added_concat_add,←h.accounted]
    exact (List.append_assoc ..).symm

/-- A get keeps the invariant. -/
theorem TxInv.get (h : TxInv stack₀ ops) (buffer : TxStackData) :
    TxInv stack₀ (ops++[.get buffer]) := by
  obtain ⟨hholds,hnone,hsome⟩ := h.holds.get buffer
  refine ⟨?_,?_⟩
  · rw [txRun_concat,waiting_concat]
    exact hholds
  · rw [txRun_concat,waiting_concat,added_concat_get,←h.accounted]
    dsimp only [txStep,waitingStep]
    cases hq : waiting ops with
    | nil => rw [if_neg (by rw [hnone.mpr hq]; omega),List.tail_nil]
    | cons f q =>
      obtain ⟨hres,hframe⟩ := hsome f (by rw [hq]; rfl)
      rw [if_pos hres,hframe,List.tail_cons,List.append_assoc,List.singleton_append]

/-- The call does not fill a slot whose packet waits to be sent. -/
def NotOverwriting (stack₀ : TxStack) (pre : List TxOp) (op : TxOp) : Prop :=
  ∀ packet,op=.add packet →
    let stack := (txRun stack₀ pre).stack
    (stack.packet stack.writePosition).state≠.ready

/-- A call that overwrites nothing keeps the invariant. -/
theorem TxInv.step (h : TxInv stack₀ ops) {op : TxOp} (hfree : NotOverwriting stack₀ ops op)
    (hshort : ShortPacket op) : TxInv stack₀ (ops++[op]) := by
  cases op with
  | add packet =>
    have hne : (waiting ops).length≠80 := fun he => hfree packet rfl (h.holds.write_ready.mpr he)
    have hfits := h.holds.fits
    exact h.add (by omega) (hshort packet rfl)
  | get buffer => exact h.get buffer

/-- An add within the capacity overwrites nothing. -/
theorem TxInv.notOverwriting (h : TxInv stack₀ ops) {op : TxOp}
    (hcap : (waiting (ops++[op])).length≤80) : NotOverwriting stack₀ ops op := by
  rintro packet rfl
  rw [waiting_concat] at hcap
  have hlen : (waiting ops++[frame packet]).length=(waiting ops).length+1 := List.length_append
  change (waiting ops++[frame packet]).length≤80 at hcap
  exact fun hr => absurd (h.holds.write_ready.mp hr) (by omega)

/-- After calls that overwrite nothing the invariant holds. -/
theorem txInv_of_notOverwriting (h : InputsMeet (NotOverwriting stack₀) ops)
    (hshort : ∀ op∈ops,ShortPacket op) : TxInv stack₀ ops :=
  inv_of_inputsMeet (txInv_nil stack₀) (fun _ _ hinv hc => hinv.step hc.1 hc.2)
    (h.and (InputsMeet.of_forall hshort))

/-- Within the capacity the invariant holds. -/
theorem txInv_of_capacity (h : Throughout (fun pre => (waiting pre).length≤80) ops)
    (hshort : ∀ op∈ops,ShortPacket op) : TxInv stack₀ ops :=
  inv_of_inputsMeet (txInv_nil stack₀) (fun _ _ hinv hc => hinv.step (hinv.notOverwriting hc.1) hc.2)
    (h.inputsMeet.and (InputsMeet.of_forall hshort))

/-- Within the capacity no packet is overwritten. -/
theorem notOverwriting_of_capacity (h : Throughout (fun pre => (waiting pre).length≤80) ops)
    (hshort : ∀ op∈ops,ShortPacket op) : InputsMeet (NotOverwriting stack₀) ops := by
  intro pre op post he
  subst he
  exact (txInv_of_capacity h.of_append
    fun o ho => hshort o (List.mem_append_left _ ho)).notOverwriting (h.inputsMeet pre op post rfl)

/-- No more frames wait than there were operations. -/
theorem waiting_length_le (ops : List TxOp) : (waiting ops).length≤ops.length := by
  induction ops using List.reverseRecOn with
  | nil => exact Nat.le_refl 0
  | append_singleton ops op ih =>
    rw [waiting_concat,List.length_append,List.length_singleton]
    cases op with
    | add packet =>
      have hlen : (waiting ops++[frame packet]).length=(waiting ops).length+1 :=
        List.length_append
      change (waiting ops++[frame packet]).length≤_
      omega
    | get buffer =>
      have hlen : (waiting ops).tail.length=(waiting ops).length-1 := List.length_tail
      change (waiting ops).tail.length≤_
      omega

/-- At most 80 calls stay within the capacity. -/
theorem capacity_of_length (h : ops.length≤80) :
    Throughout (fun pre => (waiting pre).length≤80) ops := by
  intro pre post he
  have hle := waiting_length_le pre
  have hlen : (pre++post).length=pre.length+post.length := List.length_append
  rw [he] at hlen
  omega

/-- A packet of one byte. -/
def onePacket (n : ℕ) : TxStackData :=
  ⟨fun _ => UInt8.ofNat n,UInt32.ofNat (0x400+n),1,.empty⟩

/-- The ring before init_can_tx_stack. -/
def zeroStack : TxStack := ⟨fun _ => onePacket 0,0,0⟩

/-- `n` adds. -/
def adds (n : ℕ) : List TxOp := (List.range n).map fun i => .add (onePacket i)

/-- The frames of the witness are short. -/
theorem adds_short (n : ℕ) : ∀ op∈adds n,ShortPacket op := by
  rintro op hop packet rfl
  obtain ⟨i,-,hi⟩ := List.mem_map.mp hop
  cases hi
  exact (by decide : (1 : UInt8).toNat≤8)

/-- 80 adds fill the ring. -/
theorem adds_capacity : Throughout (fun pre => (waiting pre).length≤80) (adds 80) :=
  capacity_of_length (by decide)

/-- While at most 80 frames are outstanding the ring is an exact queue. -/
theorem exact_fifo (stack₀ : TxStack) (ops : List TxOp) (hshort : ∀ op∈ops,ShortPacket op)
    (hcap : Throughout (fun pre => (waiting pre).length≤80) ops) :
    (txRun stack₀ ops).returned++waiting ops=added ops ∧
      ∀ buffer,
        let (res,packet,_) := getTxCanPacket (txRun stack₀ ops).stack buffer
        (res=0 ↔ waiting ops=[]) ∧
          ∀ f,(waiting ops).head?=some f → res=1 ∧ frame packet=f := by
  have hinv : TxInv stack₀ ops := txInv_of_capacity hcap hshort
  refine ⟨hinv.accounted,fun buffer => ?_⟩
  exact (hinv.holds.get buffer).2

/-- A full ring returns its first packet. -/
theorem exact_fifo_full :
    (txRun zeroStack (adds 80)).returned++waiting (adds 80)=added (adds 80) ∧
      ∀ buffer,
        let (res,packet,_) := getTxCanPacket (txRun zeroStack (adds 80)).stack buffer
        (res=0 ↔ waiting (adds 80)=[]) ∧
          ∀ f,(waiting (adds 80)).head?=some f → res=1 ∧ frame packet=f :=
  exact_fifo zeroStack (adds 80) (adds_short 80) adds_capacity

/-- An add to a full ring replaces the oldest frame: the next two gets return
the frame added and then the second oldest. -/
theorem Holds.overflow {stack : TxStack} {f g : Frame} {q : List Frame}
    (h : Holds stack (f::g::q)) (hfull : (f::g::q).length=80) {packet : TxStackData}
    (hshort : packet.length.toNat≤8) (buffer buffer' : TxStackData) :
    let first := getTxCanPacket (addTxCanPacket stack packet) buffer
    let second := getTxCanPacket first.2.2 buffer'
    first.1=1 ∧ frame first.2.1=frame packet ∧ second.1=1 ∧ frame second.2.1=g := by
  have hrd := h.rd_lt
  have hwr : stack.writePosition=stack.readPosition := by
    rw [h.write,hfull,ahead_self]
  obtain ⟨slot,hslot,hadd⟩ := add_eq h.wr_lt hshort
  have hshow : Shows (some (frame packet))
      ((addTxCanPacket stack packet).packet (addTxCanPacket stack packet).readPosition) := by
    rw [hadd]
    dsimp only [TxStack.setPacket]
    rw [if_pos hwr.symm]
    exact hslot
  obtain ⟨hres,hframe,hget⟩ := get_of_shows (by rw [hadd]; exact hrd) hshow buffer
  have hread : (addTxCanPacket stack packet).readPosition=stack.readPosition := by rw [hadd]
  have hother : ∀ i,i≠stack.readPosition →
      (getTxCanPacket (addTxCanPacket stack packet) buffer).2.2.packet i=stack.packet i := by
    intro i hi
    rw [hget,hread,hadd,hwr]
    exact (if_neg hi).trans (if_neg hi)
  have hnext : next 80 stack.readPosition=ahead 80 stack.readPosition 1 := by
    rw [←next_ahead hrd (by omega),ahead_zero hrd]
  have hshow' : Shows (some g)
      ((getTxCanPacket (addTxCanPacket stack packet) buffer).2.2.packet
        (getTxCanPacket (addTxCanPacket stack packet) buffer).2.2.readPosition) := by
    have hpos : (getTxCanPacket (addTxCanPacket stack packet) buffer).2.2.readPosition=
        ahead 80 stack.readPosition 1 := by rw [hget,hread,←hnext]
    have hne : ahead 80 stack.readPosition 1≠stack.readPosition := fun he =>
      absurd (ahead_inj (by omega) (by omega) (he.trans (ahead_zero hrd).symm)) Nat.one_ne_zero
    rw [hpos,hother _ hne]
    exact h.slots 1 (by omega)
  obtain ⟨hres',hframe',-⟩ := get_of_shows
    (by rw [hget,hread]; exact next_lt hrd) hshow' buffer'
  exact ⟨hres,hframe,hres',hframe'⟩

/-- The frames returned are added ones in the order they were added. -/
def InOrder (stack₀ : TxStack) (ops : List TxOp) : Prop :=
  (txRun stack₀ ops).returned.Sublist (added ops)

/-- Under the invariant the ring keeps its order. -/
theorem TxInv.inOrder (h : TxInv stack₀ ops) : InOrder stack₀ ops := by
  unfold InOrder
  rw [←h.accounted]
  exact List.sublist_append_left _ _

/-- The state and the frames returned after a get that returns 1. -/
theorem txStep_get {stack : TxStack} (returned : List Frame) {buffer : TxStackData}
    (h : (getTxCanPacket stack buffer).1=1) :
    txStep ⟨stack,returned⟩ (.get buffer)=
      ⟨(getTxCanPacket stack buffer).2.2,returned++[frame (getTxCanPacket stack buffer).2.1]⟩ := by
  dsimp only [txStep]
  rw [if_pos h]

/-- Nothing follows the only occurrence of `x` at the end of a list. -/
theorem not_sublist_behind_last {x g : Frame} {q : List Frame} (h : x∉q) :
    ¬[x,g].Sublist (q++[x]) := by
  induction q with
  | nil => exact fun hs => absurd hs.length_le (by simp)
  | cons f q ih =>
    rw [List.mem_cons,not_or] at h
    intro hs
    rw [List.cons_append,List.sublist_cons_iff] at hs
    rcases hs with hs|⟨r,hr,-⟩
    · exact ih h.2 hs
    · exact h.1 (List.cons.inj hr).1

/-- An add of a new frame to a full ring and two gets break the order. -/
theorem TxInv.overflow_not_inOrder (h : TxInv stack₀ ops) (hfull : (waiting ops).length=80)
    {packet : TxStackData} (hshort : packet.length.toNat≤8) (hnew : frame packet∉waiting ops)
    (buffer buffer' : TxStackData) :
    ¬InOrder stack₀ (ops++[.add packet]++[.get buffer]++[.get buffer']) := by
  obtain ⟨f,g,q,hq⟩ : ∃ f g q,waiting ops=f::g::q := by
    match hw : waiting ops with
    | [] => rw [hw] at hfull; cases hfull
    | [_] => rw [hw] at hfull; cases hfull
    | f::g::q => exact ⟨f,g,q,rfl⟩
  have hholds := h.holds
  have hacc := h.accounted
  rw [hq] at hholds hfull hnew hacc
  obtain ⟨hres,hfirst,hres',hsecond⟩ := hholds.overflow hfull hshort buffer buffer'
  have hreturned : (txRun stack₀ (ops++[.add packet]++[.get buffer]++[.get buffer'])).returned=
      (txRun stack₀ ops).returned++[frame packet,g] := by
    rw [txRun_concat,txRun_concat,txRun_concat]
    have hadd : txStep (txRun stack₀ ops) (.add packet)=
        ⟨addTxCanPacket (txRun stack₀ ops).stack packet,(txRun stack₀ ops).returned⟩ := rfl
    rw [hadd,txStep_get _ hres,txStep_get _ hres',hfirst,hsecond,List.append_assoc]
    rfl
  unfold InOrder
  rw [hreturned,added_concat_get,added_concat_get,added_concat_add,←hacc,List.append_assoc,
    List.append_sublist_append_left]
  exact not_sublist_behind_last hnew

/-- The frames returned are in order throughout a run that never overwrites a
waiting packet; the first add that does so breaks the order within two gets
unless its frame equals a waiting one. -/
theorem in_order_while_not_overwriting (stack₀ : TxStack) (ops : List TxOp)
    (hshort : ∀ op∈ops,ShortPacket op) (hfree : InputsMeet (NotOverwriting stack₀) ops) :
    Throughout (InOrder stack₀) ops ∧
      ∀ packet,ShortPacket (.add packet) → ¬NotOverwriting stack₀ ops (.add packet) →
        frame packet∉waiting ops → ∀ buffer buffer',
          ¬InOrder stack₀ (ops++[.add packet]++[.get buffer]++[.get buffer']) := by
  constructor
  · intro pre post he
    subst he
    exact (txInv_of_notOverwriting hfree.of_append
      fun op hop => hshort op (List.mem_append_left post hop)).inOrder
  · intro packet hp hover hnew buffer buffer'
    have hinv := txInv_of_notOverwriting hfree hshort
    refine hinv.overflow_not_inOrder ?_ (hp packet rfl) hnew buffer buffer'
    by_contra hne
    refine hover fun p he => ?_
    exact fun hr => hne (hinv.holds.write_ready.mp hr)

/-- A full ring has kept the order and loses it with the next packet. -/
theorem in_order_while_not_overwriting_full :
    Throughout (InOrder zeroStack) (adds 80) ∧
      ∀ packet,ShortPacket (.add packet) → ¬NotOverwriting zeroStack (adds 80) (.add packet) →
        frame packet∉waiting (adds 80) → ∀ buffer buffer',
          ¬InOrder zeroStack (adds 80++[.add packet]++[.get buffer]++[.get buffer']) :=
  in_order_while_not_overwriting zeroStack (adds 80) (adds_short 80)
    (notOverwriting_of_capacity adds_capacity (adds_short 80))

/-- 81 adds and two gets return the last packet before the second one. -/
theorem overflow_reorders :
    (∀ op∈adds 81,ShortPacket op) ∧
      (txRun zeroStack (adds 81++[.get (onePacket 0),.get (onePacket 0)])).returned=
        [frame (onePacket 80),frame (onePacket 1)] ∧
      ¬InOrder zeroStack (adds 81++[.get (onePacket 0),.get (onePacket 0)]) := by
  refine ⟨adds_short 81,by decide +kernel,?_⟩
  unfold InOrder
  decide +kernel

end BT816Display.CanTxStack
