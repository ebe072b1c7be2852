import BT816Display.CanTxAccess

/-!
# The CAN transmit ring while calls are under way

One add and one get may be under way, wherever they have been interrupted. The
ring shows a queue all the time: a frame is in it from READY to EMPTY. Every
access of either call keeps that, and the get returns the frame it has taken.
-/

namespace BT816Display.CanTxRing

open ByteMemory RingWindow RingQueue CanTxStack CanTxAccess

/-- The slots as the queue shows them: the one that is being filled is empty. -/
def view (stack : TxStack) : Option AddCall → ℕ → TxStackData
  | none => stack.packet
  | some c =>
    if c.next=.position then stack.packet
    else (stack.setPacket c.wrPos {stack.packet c.wrPos with state := .empty}).packet

/-- The write position, behind a slot that has become READY. -/
def wrAfter (stack : TxStack) : Option AddCall → ℕ
  | none => stack.writePosition
  | some c => if c.next=.position then next 80 stack.writePosition else stack.writePosition

/-- The read position, behind a slot that has become EMPTY. -/
def rdAfter (stack : TxStack) : Option GetCall → ℕ
  | some ⟨_,_,.position _⟩ => next 80 stack.readPosition
  | _ => stack.readPosition

/-- What an add has stored so far. -/
def Stored (c : AddCall) (slot : TxStackData) : Prop :=
  match c.next with
  | .busy | .position => True
  | .data k => k≤c.packet.length.toNat ∧ load slot.data 0 k=load c.packet.data 0 k
  | .length =>
    slot.id=c.packet.id ∧
      load slot.data 0 c.packet.length.toNat=load c.packet.data 0 c.packet.length.toNat
  | .ready => slot.length=c.packet.length ∧ frame slot=frame c.packet

/-- An add under way on a ring that shows the queue `q`. -/
structure Adding (stack : TxStack) (q : List Frame) (c : AddCall) : Prop where
  /-- It fills the slot at the write position. -/
  slot : c.wrPos=stack.writePosition
  /-- A packet of at most eight bytes. -/
  short : c.packet.length.toNat≤8
  /-- There is room for it. -/
  room : c.next≠.position → q.length<80
  /-- The slot is not READY before the packet is in it. -/
  closed : c.next≠.position → (stack.packet c.wrPos).state≠.ready
  /-- What is in it. -/
  stored : Stored c (stack.packet c.wrPos)

/-- What a get has loaded of the frame. -/
def Loaded (c : GetCall) (f : Frame) : Prop :=
  match c.next with
  | .state | .id | .drop | .position _ => True
  | .length => c.buffer.id=f.id
  | .data k =>
    c.buffer.id=f.id ∧ c.buffer.length.toNat=f.data.length ∧ k≤f.data.length ∧
      load c.buffer.data 0 k=f.data.take k

/-- A get under way on a ring that shows the queue `q`. -/
structure Getting (stack : TxStack) (q : List Frame) (c : GetCall) : Prop where
  /-- It reads the slot at the read position. -/
  slot : c.rdPos=stack.readPosition
  /-- No packet is too long. -/
  short : c.next≠.drop
  /-- What it returns behind the packet. -/
  result : ∀ res,c.next=.position res → res=1
  /-- It copies the oldest frame. -/
  copies : c.next≠.state → (∀ res,c.next≠.position res) → ∃ f,q.head?=some f ∧ Loaded c f

/-- The ring shows the queue `q` while calls are under way. -/
structure Ring (stack : TxStack) (add : Option AddCall) (get : Option GetCall)
    (q : List Frame) : Prop where
  /-- The slots and the positions. -/
  queue : Queue Shows 80 (view stack add) (rdAfter stack get) (wrAfter stack add) q
  /-- The add. -/
  add : ∀ c,add=some c → Adding stack q c
  /-- The get. -/
  get : ∀ c,get=some c → Getting stack q c

variable {stack : TxStack} {add : Option AddCall} {get : Option GetCall} {q : List Frame}

/-- While no call is under way the ring holds its queue. -/
theorem Ring.holds (h : Ring stack none none q) : Holds stack q := h.queue

/-- A ring that holds a queue, with no call under way. -/
theorem ring_of_holds (h : Holds stack q) : Ring stack none none q where
  queue := h
  add _ hc := nomatch hc
  get _ hc := nomatch hc

/-- Behind READY the slots are shown as they are. -/
theorem view_position {c : AddCall} (h : c.next=.position) : view stack (some c)=stack.packet :=
  if_pos h

/-- Before, the one being filled is shown empty. -/
theorem view_filling {c : AddCall} (h : c.next≠.position) :
    view stack (some c)=
      (stack.setPacket c.wrPos {stack.packet c.wrPos with state := .empty}).packet := if_neg h

/-- Behind READY the write position is to move on. -/
theorem wrAfter_position {c : AddCall} (h : c.next=.position) :
    wrAfter stack (some c)=next 80 stack.writePosition := if_pos h

/-- Before, it is where it is. -/
theorem wrAfter_filling {c : AddCall} (h : c.next≠.position) :
    wrAfter stack (some c)=stack.writePosition := if_neg h

/-- The slots other than the one that is being filled. -/
theorem view_of_ne {c : AddCall} {i : ℕ} (h : i≠c.wrPos) :
    view stack (some c) i=stack.packet i := by
  by_cases hp : c.next=.position
  · rw [view_position hp]
  · rw [view_filling hp,setPacket_of_ne h]

/-- The slot that is being filled shows nothing. -/
theorem view_slot {c : AddCall} (h : c.next≠.position) :
    Shows none (view stack (some c) c.wrPos) := by
  rw [view_filling h,setPacket_self]
  rfl

/-- A READY slot is shown as it is. -/
theorem Ring.view_eq (h : Ring stack add get q) {i : ℕ} (hr : (stack.packet i).state=.ready) :
    view stack add i=stack.packet i := by
  cases add with
  | none => rfl
  | some c =>
    by_cases hp : c.next=.position
    · rw [view_position hp]
    · refine view_of_ne ?_
      rintro rfl
      exact (h.add c rfl).closed hp hr

/-- A slot whose view shows a frame is that slot. -/
theorem view_shows {i : ℕ} {f : Frame} (h : Shows (some f) (view stack add i)) :
    Shows (some f) (stack.packet i) ∧ ∀ c,add=some c → c.next≠.position → i≠c.wrPos := by
  cases add with
  | none => exact ⟨h,fun c hc => nomatch hc⟩
  | some c =>
    have hne : c.next≠.position → i≠c.wrPos := by
      rintro hp rfl
      exact (shows_ready (view_slot hp)).mp h.1 rfl
    refine ⟨?_,fun c' hc hp => ?_⟩
    · by_cases hp : c.next=.position
      · rwa [view_position hp] at h
      · rwa [view_of_ne (hne hp)] at h
    · cases hc
      exact hne hp

/-! ## Steps of an add -/

/-- The read position of a get does not depend on the slots. -/
theorem rdAfter_setPacket {j : ℕ} {p : TxStackData} :
    rdAfter (stack.setPacket j p) get=rdAfter stack get := rfl

/-- An add begins on a ring with room. -/
theorem Ring.startsAdd (h : Ring stack none get q) (hroom : q.length<80) {packet : TxStackData}
    (hshort : packet.length.toNat≤8) :
    ∃ c,startAdd stack packet=some c ∧ c.packet=packet ∧ c.next=.busy ∧
      Ring stack (some c) get q := by
  have hwr : stack.writePosition<80 := h.queue.wr_lt
  refine ⟨⟨packet,stack.writePosition,.busy⟩,startAdd_eq hwr hshort,rfl,rfl,?_,?_,h.get⟩
  · refine h.queue.refill hroom (view_slot fun hn => nomatch hn) fun i _ hi => view_of_ne hi
  · rintro c hc
    cases hc
    have hfree : (stack.packet stack.writePosition).state=.empty := h.queue.free hroom
    exact ⟨rfl,hshort,fun _ => hroom,fun _ hr => (nomatch hfree.symm.trans hr),trivial⟩

/-- A store into the slot that is being filled. -/
theorem Ring.fill {c : AddCall} (h : Ring stack (some c) get q) (hp : c.next≠.position)
    {access : AddAccess} (hp' : access≠.position) {slot : TxStackData} (hclosed : slot.state≠.ready)
    (hstored : Stored {c with next := access} slot) :
    Ring (stack.setPacket c.wrPos slot) (some {c with next := access}) get q := by
  have ha := h.add c rfl
  have hwrAfter : wrAfter stack (some c)=c.wrPos := (wrAfter_filling hp).trans ha.slot.symm
  have hwrAfter' : wrAfter (stack.setPacket c.wrPos slot) (some {c with next := access})=
      wrAfter stack (some c) := (wrAfter_filling hp').trans (wrAfter_filling hp).symm
  refine ⟨?_,?_,fun g hg => ?_⟩
  · rw [hwrAfter',rdAfter_setPacket]
    refine h.queue.refill (ha.room hp) ?_ fun i _ hi => ?_
    · rw [hwrAfter]
      exact view_slot hp'
    · rw [hwrAfter] at hi
      have hview : view (stack.setPacket c.wrPos slot) (some {c with next := access}) i=
          (stack.setPacket c.wrPos slot).packet i := view_of_ne hi
      rw [hview,setPacket_of_ne hi,view_of_ne hi]
  · rintro _ hc
    cases hc
    refine ⟨ha.slot,ha.short,fun _ => ha.room hp,fun _ => ?_,?_⟩
    · rw [setPacket_self]
      exact hclosed
    · rw [setPacket_self]
      exact hstored
  · have hget := h.get g hg
    exact ⟨hget.slot,hget.short,hget.result,hget.copies⟩

/-- READY shows the frame of the packet. -/
theorem Ring.ready {c : AddCall} (h : Ring stack (some c) get q) (hn : c.next=.ready) :
    Ring (stack.setPacket c.wrPos {stack.packet c.wrPos with state := .ready})
      (some {c with next := .position}) get (q++[frame c.packet]) := by
  have ha := h.add c rfl
  have hp : c.next≠.position := by rw [hn]; exact fun h => nomatch h
  have hwrAfter : wrAfter stack (some c)=c.wrPos := (wrAfter_filling hp).trans ha.slot.symm
  have hstored := ha.stored
  unfold Stored at hstored
  rw [hn] at hstored
  obtain ⟨hlen,hframe⟩ := hstored
  refine ⟨?_,?_,fun g hg => ?_⟩
  · have hwr : wrAfter (stack.setPacket c.wrPos {stack.packet c.wrPos with state := .ready})
        (some {c with next := .position})=next 80 (wrAfter stack (some c)) :=
      (wrAfter_position rfl).trans (congrArg (next 80) (wrAfter_filling hp).symm)
    rw [hwr,rdAfter_setPacket]
    refine h.queue.push (ha.room hp) ?_ fun i _ hi => ?_
    · rw [hwrAfter]
      change Shows _ ((stack.setPacket c.wrPos _).packet c.wrPos)
      rw [setPacket_self]
      exact ⟨rfl,hlen ▸ ha.short,hframe⟩
    · rw [hwrAfter] at hi
      change (stack.setPacket c.wrPos _).packet i=_
      rw [setPacket_of_ne hi,view_of_ne hi]
  · rintro _ hc
    cases hc
    exact ⟨ha.slot,ha.short,fun hne => absurd rfl hne,fun hne => absurd rfl hne,trivial⟩
  · have hget := h.get g hg
    refine ⟨hget.slot,hget.short,hget.result,fun hs hr => ?_⟩
    obtain ⟨f,hf,hl⟩ := hget.copies hs hr
    exact ⟨f,by rw [List.head?_append,hf]; rfl,hl⟩

/-- The write position moves on. -/
theorem Ring.moved {c : AddCall} (h : Ring stack (some c) get q) (hn : c.next=.position) :
    Ring {stack with writePosition := nextPosition c.wrPos} none get q := by
  have ha := h.add c rfl
  refine ⟨?_,?_,fun g hg => ?_⟩
  · have hq := h.queue
    rw [view_position hn,wrAfter_position hn,←ha.slot,←nextPosition_eq] at hq
    exact hq
  · intro c' hc
    cases hc
  · have hget := h.get g hg
    exact ⟨hget.slot,hget.short,hget.result,hget.copies⟩

/-- The frame of the packet of an add, until it is in the queue. -/
def coming : Option AddCall → List Frame
  | none => []
  | some c => if c.next=.position then [] else [frame c.packet]

/-- One more byte is the same when so are the bytes before it and this one. -/
theorem load_store_next {m m' : Mem UInt8} {k : ℕ} (h : load m 0 k=load m' 0 k) :
    load (store m k [m' k]) 0 (k+1)=load m' 0 (k+1) := by
  have hone : load (store m k [m' k]) k 1=[m' k] := load_store_self m k [m' k]
  rw [load_append,load_append,load_store_disjoint (Or.inl (by omega)),h,Nat.zero_add,hone]
  rfl

/-- A step of an add puts its frame into the queue or leaves the queue. -/
theorem Ring.stepsAdd {c : AddCall} (h : Ring stack (some c) get q) :
    ∃ q',q'++coming (addStep stack c).2=q++coming (some c) ∧
      Ring (addStep stack c).1 (addStep stack c).2 get q' := by
  have ha := h.add c rfl
  have hstored := ha.stored
  have hclosed := ha.closed
  obtain ⟨packet,wrPos,access⟩ := c
  unfold Stored at hstored
  cases access with
  | busy =>
    refine ⟨q,rfl,h.fill AddAccess.noConfusion ?_ ?_ ⟨Nat.zero_le _,rfl⟩⟩
    · exact AddAccess.noConfusion
    · exact PacketState.noConfusion
  | data k =>
    obtain ⟨hk,hdata⟩ := hstored
    dsimp only at hk hdata
    unfold addStep
    dsimp only
    split
    · rename_i hlt
      exact ⟨q,rfl,h.fill AddAccess.noConfusion AddAccess.noConfusion
        (hclosed AddAccess.noConfusion) ⟨hlt,load_store_next hdata⟩⟩
    · rename_i hge
      have hlen : k=packet.length.toNat := by omega
      exact ⟨q,rfl,h.fill AddAccess.noConfusion AddAccess.noConfusion
        (hclosed AddAccess.noConfusion) ⟨rfl,hlen ▸ hdata⟩⟩
  | length =>
    obtain ⟨hid,hdata⟩ := hstored
    exact ⟨q,rfl,h.fill AddAccess.noConfusion AddAccess.noConfusion
      (hclosed AddAccess.noConfusion) ⟨rfl,congrArg₂ Frame.mk hid hdata⟩⟩
  | ready => exact ⟨q++[frame packet],List.append_nil _,h.ready rfl⟩
  | position => exact ⟨q,rfl,h.moved rfl⟩

/-! ## Steps of a get -/

/-- Before the packet is copied the read position stands. -/
theorem rdAfter_copying {c : GetCall} (h : ∀ res,c.next≠.position res) :
    rdAfter stack (some c)=stack.readPosition := by
  obtain ⟨buffer,rdPos,access⟩ := c
  cases access with
  | position res => exact absurd rfl (h res)
  | _ => rfl

/-- A get begins. -/
theorem Ring.startsGet (h : Ring stack add none q) (buffer : TxStackData) :
    Ring stack add (startGet stack buffer) q := by
  have hrd : stack.readPosition<80 := h.queue.rd_lt
  have hstart : startGet stack buffer=some ⟨buffer,stack.readPosition,.state⟩ :=
    if_neg (Nat.not_le.mpr hrd)
  rw [hstart]
  refine ⟨h.queue,h.add,fun c hc => ?_⟩
  cases hc
  exact ⟨rfl,GetAccess.noConfusion,fun _ => GetAccess.noConfusion,fun hs => absurd rfl hs⟩

/-- A get that has not found its slot READY ends. -/
theorem Ring.noGet {c : GetCall} (h : Ring stack add (some c) q) (hn : ∀ res,c.next≠.position res) :
    Ring stack add none q := by
  refine ⟨?_,h.add,fun _ hc => ?_⟩
  · have hq := h.queue
    rwa [rdAfter_copying hn] at hq
  · cases hc

/-- A load of a get. -/
theorem Ring.loaded {c : GetCall} (h : Ring stack add (some c) q) (hn : ∀ res,c.next≠.position res)
    {buffer : TxStackData} {access : GetAccess} (hdrop : access≠.drop)
    (hn' : ∀ res,access≠.position res) {f : Frame} (hf : q.head?=some f)
    (hl : Loaded ⟨buffer,c.rdPos,access⟩ f) : Ring stack add (some ⟨buffer,c.rdPos,access⟩) q := by
  refine ⟨?_,h.add,?_⟩
  · have hq := h.queue
    rw [rdAfter_copying hn] at hq
    rwa [rdAfter_copying hn']
  · rintro _ hc
    cases hc
    exact ⟨(h.get c rfl).slot,hdrop,fun res hres => absurd hres (hn' res),fun _ _ => ⟨f,hf,hl⟩⟩

/-- The slot that a get reads. -/
theorem Ring.head {c : GetCall} (h : Ring stack add (some c) q) (hn : ∀ res,c.next≠.position res) :
    Shows q.head? (view stack add c.rdPos) := by
  have hhead := h.queue.head
  rwa [rdAfter_copying hn,←(h.get c rfl).slot] at hhead

/-- EMPTY takes the oldest frame out of the queue. -/
theorem Ring.emptied {c : GetCall} {f : Frame} (h : Ring stack add (some c) (f::q))
    (hn : ∀ res,c.next≠.position res) {buffer : TxStackData} :
    Ring (stack.setPacket c.rdPos {stack.packet c.rdPos with state := .empty}) add
      (some ⟨buffer,c.rdPos,.position 1⟩) q := by
  have hslot := (h.get c rfl).slot
  obtain ⟨-,hother⟩ := view_shows (h.head hn)
  have hq := h.queue
  rw [rdAfter_copying hn] at hq
  refine ⟨?_,fun a ha => ?_,?_⟩
  · refine hq.pop ?_ fun i _ hi => ?_
    · rw [←hslot]
      cases add with
      | none => exact congrArg TxStackData.state setPacket_self
      | some a =>
        by_cases hp : a.next=.position
        · rw [view_position hp,setPacket_self]
          rfl
        · rw [view_of_ne (hother a rfl hp),setPacket_self]
          rfl
    · rw [←hslot] at hi
      cases add with
      | none => exact setPacket_of_ne hi
      | some a =>
        by_cases hp : a.next=.position
        · rw [view_position hp,view_position hp,setPacket_of_ne hi]
        · rw [view_filling hp,view_filling hp]
          by_cases ha : i=a.wrPos
          · rw [ha,setPacket_self,setPacket_self,setPacket_of_ne (Ne.symm (hother a rfl hp))]
          · rw [setPacket_of_ne ha,setPacket_of_ne ha,setPacket_of_ne hi]
  · have hadd := h.add a ha
    have hroom : a.next≠.position → q.length<80 := by
      intro hp
      have hr := hadd.room hp
      rw [List.length_cons] at hr
      omega
    by_cases hp : a.next=.position
    · refine ⟨hadd.slot,hadd.short,hroom,fun hne => absurd hp hne,?_⟩
      unfold Stored
      rw [hp]
      trivial
    · have hpacket : (stack.setPacket c.rdPos {stack.packet c.rdPos with state := .empty}).packet
          a.wrPos=stack.packet a.wrPos := setPacket_of_ne (Ne.symm (hother a ha hp))
      refine ⟨hadd.slot,hadd.short,hroom,fun _ => ?_,?_⟩
      · rw [hpacket]
        exact hadd.closed hp
      · rw [hpacket]
        exact hadd.stored
  · rintro _ hc
    cases hc
    exact ⟨hslot,GetAccess.noConfusion,fun res hres => (GetAccess.position.inj hres).symm,
      fun _ hne => absurd rfl (hne 1)⟩

/-- The read position moves on. -/
theorem Ring.passed {c : GetCall} {res : ℕ} (h : Ring stack add (some c) q)
    (hn : c.next=.position res) :
    Ring {stack with readPosition := nextPosition c.rdPos} add none q := by
  have hslot := (h.get c rfl).slot
  refine ⟨?_,fun a ha => ?_,fun _ hc => ?_⟩
  · have hq := h.queue
    obtain ⟨buffer,rdPos,access⟩ := c
    cases hn
    have hrd : nextPosition rdPos=next 80 stack.readPosition := by
      rw [nextPosition_eq]
      exact congrArg (next 80) hslot
    change Queue Shows 80 (view stack add) (nextPosition rdPos) (wrAfter stack add) q
    rw [hrd]
    exact hq
  · have hadd := h.add a ha
    exact ⟨hadd.slot,hadd.short,hadd.room,hadd.closed,hadd.stored⟩
  · cases hc

/-- The frame that a get has taken out of the queue, until it returns. -/
def taken : Option GetCall → List Frame
  | some ⟨buffer,_,.position _⟩ => [frame buffer]
  | _ => []

/-- The first bytes of a block. -/
theorem take_load (m : Mem UInt8) {k n : ℕ} (h : k≤n) : (load m 0 n).take k=load m 0 k := by
  obtain ⟨j,rfl⟩ := Nat.exists_eq_add_of_le h
  have hlen : (load m 0 k).length=k := load_length m 0 k
  rw [load_append]
  exact List.take_left' hlen

/-- The slot of the frame that a get copies. -/
theorem Ring.copied {c : GetCall} {f : Frame} (h : Ring stack add (some c) q)
    (hn : ∀ res,c.next≠.position res) (hf : q.head?=some f) :
    Shows (some f) (stack.packet c.rdPos) := by
  have hhead := h.head hn
  rw [hf] at hhead
  exact (view_shows hhead).1

/-- An access of a get that does not end it. -/
theorem Ring.getStep_more {c c' : GetCall} {stack' : TxStack} (h : Ring stack add (some c) q)
    (hs : getStep stack c=(stack',.inl c')) :
    ∃ q',taken (some c')++q'=taken (some c)++q ∧ Ring stack' add (some c') q' := by
  have hget := h.get c rfl
  have hcopied := @Ring.copied stack add q c
  obtain ⟨buffer,rdPos,access⟩ := c
  unfold getStep at hs
  cases access with
  | state =>
    have hn : ∀ res,GetAccess.state≠.position res := fun _ => GetAccess.noConfusion
    dsimp only at hs
    split at hs
    · rename_i hready
      obtain ⟨rfl,hc⟩ := Prod.mk.inj hs
      cases hc
      have hhead := h.head hn
      rw [h.view_eq hready] at hhead
      obtain ⟨f,hf⟩ := Option.ne_none_iff_exists'.mp ((shows_ready hhead).mp hready)
      exact ⟨q,rfl,h.loaded hn GetAccess.noConfusion (fun _ => GetAccess.noConfusion) hf trivial⟩
    · cases hs
  | id =>
    have hn : ∀ res,GetAccess.id≠.position res := fun _ => GetAccess.noConfusion
    obtain ⟨f,hf,-⟩ := hget.copies GetAccess.noConfusion hn
    obtain ⟨-,-,hframe⟩ := hcopied h hn hf
    cases hs
    exact ⟨q,rfl,h.loaded hn GetAccess.noConfusion (fun _ => GetAccess.noConfusion) hf
      (congrArg Frame.id hframe)⟩
  | length =>
    have hn : ∀ res,GetAccess.length≠.position res := fun _ => GetAccess.noConfusion
    obtain ⟨f,hf,hid⟩ := hget.copies GetAccess.noConfusion hn
    obtain ⟨-,hshort,hframe⟩ := hcopied h hn hf
    dsimp only at hs
    rw [if_neg (Nat.not_lt.mpr hshort)] at hs
    cases hs
    refine ⟨q,rfl,h.loaded hn GetAccess.noConfusion (fun _ => GetAccess.noConfusion) hf
      ⟨hid,?_,Nat.zero_le _,rfl⟩⟩
    exact (load_length ..).symm.trans (congrArg (List.length ∘ Frame.data) hframe)
  | data k =>
    have hn : ∀ res,GetAccess.data k≠.position res := fun _ => GetAccess.noConfusion
    obtain ⟨f,hf,hid,hlen,hk,hdata⟩ := hget.copies GetAccess.noConfusion hn
    obtain ⟨-,-,hframe⟩ := hcopied h hn hf
    have hblock : load (stack.packet rdPos).data 0 f.data.length=f.data := by
      rw [←hframe]
      exact congrArg (load _ 0) (load_length ..)
    dsimp only at hs hid hlen hdata
    split at hs
    · rename_i hlt
      cases hs
      rw [hlen] at hlt
      refine ⟨q,rfl,h.loaded hn GetAccess.noConfusion (fun _ => GetAccess.noConfusion) hf
        ⟨hid,hlen,hlt,?_⟩⟩
      rw [←hblock,take_load _ hk] at hdata
      rw [←hblock,take_load _ hlt]
      exact load_store_next hdata
    · rename_i hge
      cases hs
      obtain ⟨f',q,rfl⟩ : ∃ f' q',q=f'::q' := by
        cases q with
        | nil => cases hf
        | cons f' q' => exact ⟨f',q',rfl⟩
      obtain rfl : f'=f := Option.some.inj hf
      have hbuffer : frame buffer=f' := by
        have hkl : k=f'.data.length := by omega
        rw [hkl,List.take_length,←hlen] at hdata
        exact congrArg₂ Frame.mk hid hdata
      exact ⟨q,congrArg (·::q) hbuffer,h.emptied hn⟩
  | drop => exact absurd rfl hget.short
  | position res => cases hs

/-- The last access of a get. -/
theorem Ring.getStep_end {c : GetCall} {stack' : TxStack} {res : ℕ} {packet : TxStackData}
    (h : Ring stack add (some c) q) (hs : getStep stack c=(stack',.inr (res,packet))) :
    (if res=1 then [frame packet] else [])=taken (some c) ∧ Ring stack' add none q := by
  have hget := h.get c rfl
  obtain ⟨buffer,rdPos,access⟩ := c
  unfold getStep at hs
  cases access with
  | state =>
    dsimp only at hs
    split at hs
    · cases hs
    · cases hs
      exact ⟨rfl,h.noGet fun _ => GetAccess.noConfusion⟩
  | id => cases hs
  | length => cases hs
  | data k =>
    dsimp only at hs
    split at hs <;> cases hs
  | drop => cases hs
  | position res' =>
    cases hs
    obtain rfl : res=1 := hget.result res rfl
    exact ⟨rfl,h.passed rfl⟩

end BT816Display.CanTxRing
