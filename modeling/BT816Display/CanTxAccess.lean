import BT816Display.CanTxStack

/-!
# The accesses to the CAN transmit ring

add_tx_can_packet and get_tx_can_packet access by access: a call loads its
position, and each of its steps is then one load or store of a slot or of a
position. Calls that nothing interrupts are the functions of `CanTxStack`.
-/

namespace BT816Display.CanTxAccess

open ByteMemory CanTxStack

/-- The next access of add_tx_can_packet, behind its load of write_position. -/
inductive AddAccess where
  /-- The slot is BUSY_PACKET. -/
  | busy
  /-- A data byte, or the identifier behind the last one. -/
  | data (k : ℕ)
  /-- The length. -/
  | length
  /-- The slot is READY_PACKET. -/
  | ready
  /-- The write position. -/
  | position
  deriving DecidableEq

/-- A call of add_tx_can_packet that is under way. -/
structure AddCall where
  /-- The packet. -/
  packet : TxStackData
  /-- wr_pos. -/
  wrPos : ℕ
  /-- What it does next. -/
  next : AddAccess

/-- The load of write_position and the tests that may end the call. -/
def startAdd (stack : TxStack) (packet : TxStackData) : Option AddCall :=
  let wrPos := stack.writePosition
  if wrPos≥canTxStackLength then none
  else if packet.length.toNat>canTxDataSize then none
  else some ⟨packet,wrPos,.busy⟩

/-- One store of add_tx_can_packet. -/
def addStep (stack : TxStack) (c : AddCall) : TxStack×Option AddCall :=
  let slot := stack.packet c.wrPos
  match c.next with
  | .busy => (stack.setPacket c.wrPos {slot with state := .busy},some {c with next := .data 0})
  | .data k =>
    if k<c.packet.length.toNat then
      (stack.setPacket c.wrPos {slot with data := store slot.data k [c.packet.data k]},
        some {c with next := .data (k+1)})
    else (stack.setPacket c.wrPos {slot with id := c.packet.id},some {c with next := .length})
  | .length =>
    (stack.setPacket c.wrPos {slot with length := c.packet.length},some {c with next := .ready})
  | .ready => (stack.setPacket c.wrPos {slot with state := .ready},some {c with next := .position})
  | .position => ({stack with writePosition := nextPosition c.wrPos},none)

/-- The next access of get_tx_can_packet, behind its load of read_position. -/
inductive GetAccess where
  /-- The state of the slot. -/
  | state
  /-- The identifier. -/
  | id
  /-- The length. -/
  | length
  /-- A data byte, or EMPTY_PACKET behind the last one. -/
  | data (k : ℕ)
  /-- EMPTY_PACKET for a length above eight. -/
  | drop
  /-- The read position, before the result is returned. -/
  | position (res : ℕ)
  deriving DecidableEq

/-- A call of get_tx_can_packet that is under way. -/
structure GetCall where
  /-- The packet to be filled in. -/
  buffer : TxStackData
  /-- rd_pos. -/
  rdPos : ℕ
  /-- What it does next. -/
  next : GetAccess

/-- The load of read_position and the test that may end the call. -/
def startGet (stack : TxStack) (buffer : TxStackData) : Option GetCall :=
  let rdPos := stack.readPosition
  if rdPos≥canTxStackLength then none else some ⟨buffer,rdPos,.state⟩

/-- One access of get_tx_can_packet: the ring, and what is left of the call or
its result with the packet filled in. -/
def getStep (stack : TxStack) (c : GetCall) : TxStack×(GetCall⊕ℕ×TxStackData) :=
  let slot := stack.packet c.rdPos
  match c.next with
  | .state =>
    if slot.state=.ready then (stack,.inl {c with next := .id}) else (stack,.inr (0,c.buffer))
  | .id => (stack,.inl {c with buffer := {c.buffer with id := slot.id},next := .length})
  | .length =>
    (stack,.inl {c with
      buffer := {c.buffer with length := slot.length}
      next := if slot.length.toNat>canTxDataSize then .drop else .data 0})
  | .data k =>
    if k<c.buffer.length.toNat then
      (stack,.inl {c with
        buffer := {c.buffer with data := store c.buffer.data k [slot.data k]}
        next := .data (k+1)})
    else (stack.setPacket c.rdPos {slot with state := .empty},.inl {c with next := .position 1})
  | .drop =>
    (stack.setPacket c.rdPos {slot with state := .empty},.inl {c with next := .position 0})
  | .position res => ({stack with readPosition := nextPosition c.rdPos},.inr (res,c.buffer))

/-! ## Calls that are not interrupted -/

variable {stack : TxStack}

/-- A call with a short packet begins with BUSY. -/
theorem startAdd_eq (hwr : stack.writePosition<80) {packet : TxStackData}
    (hshort : packet.length.toNat≤8) :
    startAdd stack packet=some ⟨packet,stack.writePosition,.busy⟩ := by
  unfold startAdd
  dsimp only
  rw [if_neg (Nat.not_le.mpr hwr),if_neg (Nat.not_lt.mpr hshort)]

/-- A store leaves the other slots. -/
theorem setPacket_of_ne {i j : ℕ} {p : TxStackData} (h : i≠j) :
    (stack.setPacket j p).packet i=stack.packet i := if_neg h

/-- The slot stored is the slot read. -/
theorem setPacket_self {j : ℕ} {p : TxStackData} : (stack.setPacket j p).packet j=p := if_pos rfl

/-- The last store of a slot is the one that stays. -/
theorem setPacket_setPacket {j : ℕ} {p p' : TxStackData} :
    (stack.setPacket j p).setPacket j p'=stack.setPacket j p' := by
  have hpacket : ((stack.setPacket j p).setPacket j p').packet=(stack.setPacket j p').packet := by
    funext i
    by_cases hi : i=j
    · rw [hi,setPacket_self,setPacket_self]
    · rw [setPacket_of_ne hi,setPacket_of_ne hi,setPacket_of_ne hi]
  exact congrArg (TxStack.mk · stack.readPosition stack.writePosition) hpacket

/-- A slot stored as it is. -/
theorem setPacket_packet (j : ℕ) : stack.setPacket j (stack.packet j)=stack := by
  have hpacket : (stack.setPacket j (stack.packet j)).packet=stack.packet := by
    funext i
    by_cases hi : i=j
    · rw [hi,setPacket_self]
    · rw [setPacket_of_ne hi]
  exact congrArg (TxStack.mk · stack.readPosition stack.writePosition) hpacket

/-- No byte stored. -/
theorem store_empty (m : Mem UInt8) (a : ℕ) : store m a []=m := by
  funext x
  exact store_apply_of_not (by rw [List.length_nil]; omega)

/-- The next store of an add, if it is under way. -/
def nextStore : TxStack×Option AddCall → TxStack×Option AddCall
  | (stack,none) => (stack,none)
  | (stack,some c) => addStep stack c

/-- The data bytes stored one by one. -/
theorem nextStore_data {packet : TxStackData} {wrPos : ℕ} (j : ℕ) :
    ∀ (k : ℕ) (stack : TxStack),k+j=packet.length.toNat →
      nextStore^[j] (stack,some ⟨packet,wrPos,.data k⟩)=
        (stack.setPacket wrPos {stack.packet wrPos with
          data := store (stack.packet wrPos).data k (load packet.data k j)},
          some ⟨packet,wrPos,.data packet.length.toNat⟩) := by
  induction j with
  | zero =>
    intro k stack hk
    rw [Function.iterate_zero_apply,←hk,Nat.add_zero]
    change _=(stack.setPacket wrPos {stack.packet wrPos with
      data := store (stack.packet wrPos).data k []},_)
    rw [store_empty,setPacket_packet]
  | succ j ih =>
    intro k stack hk
    have hlt : k<packet.length.toNat := by omega
    have hstep : nextStore (stack,some ⟨packet,wrPos,.data k⟩)=
        (stack.setPacket wrPos {stack.packet wrPos with
          data := store (stack.packet wrPos).data k [packet.data k]},
          some ⟨packet,wrPos,.data (k+1)⟩) := if_pos hlt
    have hload : load packet.data k (j+1)=[packet.data k]++load packet.data (k+1) j := by
      rw [Nat.add_comm j 1,load_append]
      rfl
    have hstore := store_store_append (stack.packet wrPos).data k [packet.data k]
      (load packet.data (k+1) j)
    rw [Function.iterate_succ_apply,hstep,ih (k+1) _ (by omega),setPacket_self,
      setPacket_setPacket,hload,←hstore]
    rfl

/-- Nothing more is stored behind the end of an add. -/
theorem nextStore_none (n : ℕ) : nextStore^[n] (stack,none)=(stack,none) :=
  Function.iterate_fixed rfl n

/-- An add that is not interrupted is add_tx_can_packet. -/
theorem nextStore_whole (stack : TxStack) (packet : TxStackData) :
    nextStore^[13] (stack,startAdd stack packet)=(addTxCanPacket stack packet,none) := by
  unfold startAdd addTxCanPacket
  dsimp only
  split_ifs with hwr hlen
  · exact nextStore_none 13
  · exact nextStore_none 13
  · obtain ⟨m,hm⟩ : ∃ m,m+4+packet.length.toNat+1=13 := by
      have hshort : packet.length.toNat≤8 := Nat.le_of_not_lt hlen
      exact ⟨8-packet.length.toNat,by omega⟩
    rw [←hm,Function.iterate_succ_apply,Function.iterate_add_apply]
    have hbusy : nextStore (stack,some ⟨packet,stack.writePosition,.busy⟩)=
        (stack.setPacket stack.writePosition
          {stack.packet stack.writePosition with state := .busy},
          some ⟨packet,stack.writePosition,.data 0⟩) := rfl
    rw [hbusy,nextStore_data _ 0 _ (Nat.zero_add _),setPacket_self,setPacket_setPacket,
      Function.iterate_add_apply]
    have hid (s : TxStack) :
        nextStore (s,some ⟨packet,stack.writePosition,.data packet.length.toNat⟩)=
          (s.setPacket stack.writePosition {s.packet stack.writePosition with id := packet.id},
            some ⟨packet,stack.writePosition,.length⟩) := if_neg (Nat.lt_irrefl _)
    have hlast (s : TxStack) : nextStore^[3] (s,some ⟨packet,stack.writePosition,.length⟩)=
        ({s.setPacket stack.writePosition {s.packet stack.writePosition with
            length := packet.length,state := .ready} with
          writePosition := nextPosition stack.writePosition},none) := by
      change ({((s.setPacket _ _).setPacket _ _) with
        writePosition := nextPosition stack.writePosition},none)=_
      rw [setPacket_setPacket,setPacket_self]
    rw [show (4 : ℕ)=3+1 from rfl,Function.iterate_succ_apply,hid,hlast,setPacket_self,
      setPacket_setPacket,setPacket_self,setPacket_setPacket,nextStore_none]

/-- The next access of a get, if it is under way. -/
def nextAccess : TxStack×(GetCall⊕ℕ×TxStackData) → TxStack×(GetCall⊕ℕ×TxStackData)
  | (stack,.inl c) => getStep stack c
  | (stack,.inr result) => (stack,.inr result)

/-- Nothing more happens behind the end of a get. -/
theorem nextAccess_ended (n : ℕ) (result : ℕ×TxStackData) :
    nextAccess^[n] (stack,.inr result)=(stack,.inr result) := Function.iterate_fixed rfl n

/-- The data bytes loaded one by one. -/
theorem nextAccess_data {rdPos : ℕ} (j : ℕ) :
    ∀ (k : ℕ) (buffer : TxStackData),k+j=buffer.length.toNat →
      nextAccess^[j] (stack,.inl ⟨buffer,rdPos,.data k⟩)=
        (stack,.inl ⟨{buffer with
          data := store buffer.data k (load (stack.packet rdPos).data k j)},rdPos,
            .data buffer.length.toNat⟩) := by
  induction j with
  | zero =>
    intro k buffer hk
    rw [Function.iterate_zero_apply,←hk,Nat.add_zero]
    change _=(stack,Sum.inl (GetCall.mk {buffer with data := store buffer.data k []} rdPos _))
    rw [store_empty]
  | succ j ih =>
    intro k buffer hk
    have hlt : k<buffer.length.toNat := by omega
    have hstep : nextAccess (stack,.inl ⟨buffer,rdPos,.data k⟩)=
        (stack,.inl ⟨{buffer with
          data := store buffer.data k [(stack.packet rdPos).data k]},rdPos,.data (k+1)⟩) :=
      if_pos hlt
    have hload : load (stack.packet rdPos).data k (j+1)=
        [(stack.packet rdPos).data k]++load (stack.packet rdPos).data (k+1) j := by
      rw [Nat.add_comm j 1,load_append]
      rfl
    have hstore := store_store_append buffer.data k [(stack.packet rdPos).data k]
      (load (stack.packet rdPos).data (k+1) j)
    rw [Function.iterate_succ_apply,hstep,ih (k+1) _ (by dsimp only; omega),hload,←hstore]
    rfl

/-- A get as it is called. -/
def calledGet (stack : TxStack) (buffer : TxStackData) : GetCall⊕ℕ×TxStackData :=
  match startGet stack buffer with
  | some c => .inl c
  | none => .inr (0,buffer)

/-- A get that is not interrupted is get_tx_can_packet. -/
theorem nextAccess_whole (stack : TxStack) (buffer : TxStackData) :
    nextAccess^[13] (stack,calledGet stack buffer)=
      ((getTxCanPacket stack buffer).2.2,
        .inr ((getTxCanPacket stack buffer).1,(getTxCanPacket stack buffer).2.1)) := by
  unfold calledGet startGet getTxCanPacket
  dsimp only
  by_cases hrd : stack.readPosition≥canTxStackLength
  · rw [if_pos hrd,if_pos hrd]
    exact nextAccess_ended 13 _
  rw [if_neg hrd,if_neg hrd]
  dsimp only
  by_cases hready : (stack.packet stack.readPosition).state=.ready
  · rw [if_pos hready]
    have hstate : nextAccess (stack,.inl ⟨buffer,stack.readPosition,.state⟩)=
        (stack,.inl ⟨buffer,stack.readPosition,.id⟩) := if_pos hready
    have hid : nextAccess (stack,.inl ⟨buffer,stack.readPosition,.id⟩)=
        (stack,.inl ⟨{buffer with id := (stack.packet stack.readPosition).id},
          stack.readPosition,.length⟩) := rfl
    by_cases hlong : (stack.packet stack.readPosition).length.toNat>canTxDataSize
    · rw [if_pos hlong]
      have hlength (buffer : TxStackData) :
          nextAccess (stack,.inl ⟨buffer,stack.readPosition,.length⟩)=
            (stack,.inl ⟨{buffer with length := (stack.packet stack.readPosition).length},
              stack.readPosition,.drop⟩) := by
        change (stack,Sum.inl (GetCall.mk _ _ (if _>canTxDataSize then .drop else .data 0)))=_
        rw [if_pos hlong]
      rw [show (13 : ℕ)=8+2+1+1+1 from rfl,Function.iterate_succ_apply,hstate,
        Function.iterate_succ_apply,hid,Function.iterate_succ_apply,hlength,
        Function.iterate_add_apply]
      exact nextAccess_ended 8 _
    · rw [if_neg hlong]
      have hlength (buffer : TxStackData) :
          nextAccess (stack,.inl ⟨buffer,stack.readPosition,.length⟩)=
            (stack,.inl ⟨{buffer with length := (stack.packet stack.readPosition).length},
              stack.readPosition,.data 0⟩) := by
        change (stack,Sum.inl (GetCall.mk _ _ (if _>canTxDataSize then .drop else .data 0)))=_
        rw [if_neg hlong]
      have hcopy (buffer : TxStackData) :
          nextAccess^[(stack.packet stack.readPosition).length.toNat]
            (stack,.inl ⟨{buffer with length := (stack.packet stack.readPosition).length},
              stack.readPosition,.data 0⟩)=
            (stack,.inl ⟨{buffer with
              length := (stack.packet stack.readPosition).length
              data := store buffer.data 0 (load (stack.packet stack.readPosition).data 0
                (stack.packet stack.readPosition).length.toNat)},stack.readPosition,
              .data (stack.packet stack.readPosition).length.toNat⟩) :=
        nextAccess_data _ 0 _ (Nat.zero_add _)
      have hlast (buffer : TxStackData)
          (hlen : buffer.length=(stack.packet stack.readPosition).length) : nextAccess^[2]
          (stack,.inl ⟨buffer,stack.readPosition,
            .data (stack.packet stack.readPosition).length.toNat⟩)=
            ({stack.setPacket stack.readPosition
                {stack.packet stack.readPosition with state := .empty} with
              readPosition := nextPosition stack.readPosition},.inr (1,buffer)) := by
        rw [←hlen]
        change nextAccess (if _ then _ else _)=_
        rw [if_neg (Nat.lt_irrefl _)]
        rfl
      obtain ⟨m,hm⟩ : ∃ m,m+2+(stack.packet stack.readPosition).length.toNat+1+1+1=13 := by
        have hshort : (stack.packet stack.readPosition).length.toNat≤8 := Nat.le_of_not_lt hlong
        exact ⟨8-(stack.packet stack.readPosition).length.toNat,by omega⟩
      rw [←hm,Function.iterate_succ_apply,hstate,Function.iterate_succ_apply,hid,
        Function.iterate_succ_apply,hlength,Function.iterate_add_apply,hcopy,
        Function.iterate_add_apply,hlast,nextAccess_ended]
      rfl
  · rw [if_neg hready]
    have hstate : nextAccess (stack,.inl ⟨buffer,stack.readPosition,.state⟩)=
        (stack,.inr (0,buffer)) := if_neg hready
    rw [show (13 : ℕ)=12+1 from rfl,Function.iterate_succ_apply,hstate,nextAccess_ended]

end BT816Display.CanTxAccess
