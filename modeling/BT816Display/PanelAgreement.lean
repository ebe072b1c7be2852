import BT816Display.CanRx
import BT816Display.CanCmd
import BT816Display.Config

/-!
# Operator writes received by a second panel

The writers of can_cmd.c against the receiver of can.c. Cluster variables are
received whatever the node address is. The index of a net variable is relative
to the cluster in the identifier, where the upper bits of the sender's node
address overlap the cluster address.
-/

namespace BT816Display.PanelAgreement

open ByteMemory BigEndian ArrayAccess PlcData CanTxStack CanRx CanCmd

/-- A received frame carries a sent one; the rest of the mailbox is arbitrary. -/
def Carries (rx : CanRxMessage) (f : Frame) : Prop :=
  rx.standardId=f.id ∧ rx.dlc.toNat=f.data.length ∧ load rx.data 0 f.data.length=f.data

/-- The variable that an edited one stands for, with its number in range. -/
def Linked (var : ManageVar) (v : Variable) : Prop :=
  var.linkType=v.kind.linkType ∧ var.linkIndex.toNat=v.index ∧ v.index<v.kind.count

/-- Equal registers, or bits of the same truth value. -/
def SameValue : VarKind → ℕ → ℕ → Prop
  | .clustBit,a,b | .netBit,a,b => a=0 ↔ b=0
  | .clustReg,a,b | .netReg,a,b => a=b

/-- The receiver has the sender's value in both copies of the variable, and
every other variable as before. -/
structure Adopted (sender before after : Arrays Val) (v : Variable) : Prop where
  /-- The copy in plc_data.c. -/
  plc : SameValue v.kind (plcVar after v) (plcVar sender v)
  /-- The copy in the cluster structure. -/
  cl : SameValue v.kind (clVar after v) (clVar sender v)
  /-- Other variables in plc_data.c. -/
  plcOther : ∀ w,w≠v → plcVar after w=plcVar before w
  /-- Other variables in the cluster structure. -/
  clOther : ∀ w,w≠v → clVar after w=clVar before w

/-- The write queues a frame that every second panel adopts, whatever its state. -/
def Agree (p : Panel) (var : ManageVar) (v : Variable) : Prop :=
  ∃ sender var',writeVarToPlc p var=some (sender,var') ∧
    let packet := sender.canTxStack.packet p.canTxStack.writePosition
    packet.state=.ready ∧
      ∀ q rx,Carries rx (frame packet) →
        ∃ q',checkCanRxData q rx=some q' ∧ Adopted sender.arrays q.arrays q'.arrays v

/-- The cluster address in the identifier of an event. -/
def sentCluster (node cluster : UInt8) : UInt8 := ((node>>>4)&&&7)|||cluster

/-- The fields of an event's identifier, for all bytes. -/
theorem eventId_fields_table : ∀ n<256,∀ c<8,
    let id := eventId (UInt8.ofNat n) (UInt8.ofNat c)
    isPacketExtended id=false ∧ srv id.toUInt16=7 ∧
      clustAddr id.toUInt16=sentCluster (UInt8.ofNat n) (UInt8.ofNat c) := by
  decide +kernel

/-- The node address only adds bits to the cluster address. -/
theorem sentCluster_bounds (node cluster : UInt8) (hc : cluster.toNat≤7) :
    cluster.toNat≤(sentCluster node cluster).toNat ∧ (sentCluster node cluster).toNat≤7 := by
  have hnode : ((node>>>4)&&&7).toNat≤7 := by
    rw [UInt8.toNat_and]
    exact Nat.and_le_right
  have hor : (sentCluster node cluster).toNat=((node>>>4)&&&7).toNat|||cluster.toNat :=
    UInt8.toNat_or _ _
  rw [hor]
  exact ⟨Nat.right_le_or,Nat.le_of_lt_succ (Nat.or_lt_two_pow (n:=3) (by omega) (by omega))⟩

theorem eventId_fields (node cluster : UInt8) (hc : cluster.toNat≤7) :
    isPacketExtended (eventId node cluster)=false ∧ srv (eventId node cluster).toUInt16=7 ∧
      clustAddr (eventId node cluster).toUInt16=sentCluster node cluster := by
  have h := eventId_fields_table node.toNat node.toNat_lt cluster.toNat (by omega)
  rwa [UInt8.ofNat_toNat,UInt8.ofNat_toNat] at h

/-- A received event is decoded as one. -/
theorem checkCanRxData_eventId {node cluster : UInt8} (hc : cluster.toNat≤7) (q : Panel)
    {rx : CanRxMessage} (h : rx.standardId=eventId node cluster) :
    checkCanRxData q rx=event q (eventId node cluster).toUInt16 rx.data := by
  obtain ⟨hext,hsrv,-⟩ := eventId_fields node cluster hc
  unfold checkCanRxData
  dsimp only
  rw [h,if_neg (by rw [hext]; decide),if_neg (by rw [hsrv]; decide)]

/-- The four bytes of a received frame. -/
theorem carries_bytes {rx : CanRxMessage} {id : UInt32} {b0 b1 b2 b3 : UInt8}
    (h : Carries rx ⟨id,[b0,b1,b2,b3]⟩) :
    rx.standardId=id ∧ rx.data 0=b0 ∧ rx.data 1=b1 ∧ rx.data 2=b2 ∧ rx.data 3=b3 := by
  have hload : [rx.data 0,rx.data 1,rx.data 2,rx.data 3]=[b0,b1,b2,b3] := h.2.2
  simp only [List.cons.injEq,and_true] at hload
  exact ⟨h.1,hload⟩

/-- A loop whose mask is 1 makes its first round only. -/
theorem first_round {α : Type*} (g : ℕ → List α) (h : ∀ i,1 ≤ i → i<8 → g i=[]) :
    (List.range 8).flatMap g=g 0 := by
  have hrange : List.range 8=0::[1,2,3,4,5,6,7] := rfl
  have hrest : [1,2,3,4,5,6,7].flatMap g=[] := by
    rw [List.flatMap_eq_nil_iff]
    intro i hi
    simp only [List.mem_cons,List.not_mem_nil,or_false] at hi
    exact h i (by omega) (by omega)
  rw [hrange,List.flatMap_cons,hrest,List.append_nil]

theorem bit_one : ∀ i<8,1 ≤ i → bit 1 i=false := by decide

/-- A bit as it is sent and stored. -/
def bitByte (on : Bool) : UInt8 := if on then 0x01 else 0x00

theorem bit_bitByte (on : Bool) : bit (bitByte on).toNat 0=on := by
  cases on <;> rfl

/-- A received cluster bit sets both copies. -/
theorem received_clustBit {node cluster : UInt8} (hc : cluster.toNat≤7) (q : Panel)
    {rx : CanRxMessage} {n : ℕ} (hn : n<224) {addr : UInt8} (haddr : addr.toNat=n+16) (on : Bool)
    (h : Carries rx ⟨eventId node cluster,[0x03,addr,bitByte on,0x01]⟩) :
    checkCanRxData q rx=
      some {q with arrays := setVar q.arrays ⟨.clustBit,n⟩ (bitByte on) (bitByte on)} := by
  obtain ⟨hid,h0,h1,h2,h3⟩ := carries_bytes h
  have heoid : getEoid rx.data=0x03 := by
    unfold getEoid
    rw [h0]
    decide
  have haccess : clustBitsAccesses rx.data=clustBitAccesses n on := by
    unfold clustBitsAccesses getInternAddr
    dsimp only
    rw [h1,h2,h3,haddr]
    refine (first_round _ fun i hi hi8 => ?_).trans ?_
    · rw [show bit (0x01 : UInt8).toNat i=false from bit_one i hi8 hi]
      simp
    · have hcast : ((n+16 : ℕ) : ℤ)+(0 : ℕ)-16=n := by omega
      rw [hcast,if_pos (Int.ofNat_lt.mpr hn),if_pos (by decide),bit_bitByte]
  rw [checkCanRxData_eventId hc q hid,event_clustBits heoid,haccess,
    q.perform_of_inBounds ((clustBit_inBounds_iff n _).mpr ⟨by omega,by omega⟩)]
  cases on <;> rfl

/-- A received cluster register sets both copies. -/
theorem received_clustReg {node cluster : UInt8} (hc : cluster.toNat≤7) (q : Panel)
    {rx : CanRxMessage} {n : ℕ} (hn : n<64) {addr : UInt8} (haddr : addr.toNat=n+17) (reg : UInt16)
    (h : Carries rx ⟨eventId node cluster,
      [0x06,addr,(reg&&&0xFF).toUInt8,(reg>>>8).toUInt8]⟩) :
    checkCanRxData q rx=some {q with arrays := setVar q.arrays ⟨.clustReg,n⟩ reg reg} := by
  obtain ⟨hid,h0,h1,h2,h3⟩ := carries_bytes h
  have heoid : getEoid rx.data=0x06 := by
    unfold getEoid
    rw [h0]
    decide
  have hin := (clustReg_inBounds_iff rx.data).mpr (by unfold getInternAddr; rw [h1]; omega)
  have haccess : clustRegAccesses rx.data=
      [.store .plcClustRegs n reg,.store .clClusterRegs n reg] := by
    have hcast : ((n+17 : ℕ) : ℤ)-17=n := by omega
    unfold clustRegAccesses getInternAddr
    dsimp only
    rw [h1,h2,h3,haddr,hcast,Crc.and_255_toUInt8,join16_bytes,if_pos (Int.ofNat_lt.mpr hn)]
  rw [checkCanRxData_eventId hc q hid,event_clustReg heoid,q.perform_of_inBounds hin,haccess]
  rfl

/-- The address byte of a net variable. -/
theorem netAddr_toNat (node : UInt8) {cluster : UInt8} (hc : cluster.toNat≤7) {data : Mem UInt8} {n : ℕ}
    (hn : n<16) (haddr : (data 1).toNat=cluster.toNat*16+n+1) :
    (netAddr (eventId node cluster).toUInt16 data).toNat=
      if sentCluster node cluster=cluster then n
      else 256+n-16*((sentCluster node cluster).toNat-cluster.toNat) := by
  obtain ⟨hle,h7⟩ := sentCluster_bounds node cluster hc
  have h16 : (16 : UInt8).toNat=16 := rfl
  have h1 : (1 : UInt8).toNat=1 := rfl
  unfold netAddr getInternAddr
  rw [(eventId_fields node cluster hc).2.2,UInt8.toNat_sub,UInt8.toNat_sub,UInt8.toNat_mul,h16,h1,
    haddr]
  by_cases he : sentCluster node cluster=cluster
  · rw [if_pos he,he]
    omega
  · have hne : (sentCluster node cluster).toNat≠cluster.toNat :=
      fun h => he (UInt8.toNat_inj.mp h)
    rw [if_neg he]
    omega

/-- A received net bit sets both copies if the identifier has the cluster of
the sender, and nothing otherwise. -/
theorem received_netBit {node cluster : UInt8} (hc : cluster.toNat≤7) (q : Panel)
    {rx : CanRxMessage} {n : ℕ} (hn : n<16) {addr : UInt8}
    (haddr : addr.toNat=cluster.toNat*16+n+1) (on : Bool)
    (h : Carries rx ⟨eventId node cluster,[0x0E,addr,bitByte on,0x01]⟩) :
    checkCanRxData q rx=
      some (if sentCluster node cluster=cluster then
        {q with arrays := setVar q.arrays ⟨.netBit,n⟩ (bitByte on) (bitByte on)} else q) := by
  obtain ⟨hid,h0,h1,h2,h3⟩ := carries_bytes h
  have heoid : getEoid rx.data=0x0E := by
    unfold getEoid
    rw [h0]
    decide
  have hbound := sentCluster_bounds node cluster hc
  rw [←h1] at haddr
  have hnet := netAddr_toNat node hc hn haddr
  have hin := netBits_inBounds (eventId node cluster).toUInt16 rx.data
  have haccess : netBitsAccesses (eventId node cluster).toUInt16 rx.data=
      if sentCluster node cluster=cluster then netBitAccesses n on else [] := by
    unfold netBitsAccesses
    dsimp only
    rw [h2,h3,hnet]
    refine (first_round _ fun i hi hi8 => ?_).trans ?_
    · rw [show bit (0x01 : UInt8).toNat i=false from bit_one i hi8 hi]
      simp
    · have hcnt : (netBitsCnt : ℤ)=16 := rfl
      by_cases he : sentCluster node cluster=cluster
      · rw [if_pos he,if_pos he,if_pos (by omega),if_pos (by decide),bit_bitByte]
        exact congrArg (netBitAccesses · on) (Int.add_zero n)
      · rw [if_neg he,if_neg he,if_neg (by omega)]
  rw [checkCanRxData_eventId hc q hid,event_netBits heoid,q.perform_of_inBounds hin,haccess]
  by_cases he : sentCluster node cluster=cluster
  · rw [if_pos he,if_pos he]
    cases on <;> rfl
  · rw [if_neg he,if_neg he]
    rfl

/-- A received net register sets both copies if the identifier has the cluster
of the sender, and nothing otherwise. -/
theorem received_netReg {node cluster : UInt8} (hc : cluster.toNat≤7) (q : Panel)
    {rx : CanRxMessage} {n : ℕ} (hn : n<16) {addr : UInt8}
    (haddr : addr.toNat=cluster.toNat*16+n+1) (reg : UInt16)
    (h : Carries rx ⟨eventId node cluster,
      [0x0F,addr,(reg&&&0xFF).toUInt8,(reg>>>8).toUInt8]⟩) :
    checkCanRxData q rx=
      some (if sentCluster node cluster=cluster then
        {q with arrays := setVar q.arrays ⟨.netReg,n⟩ reg reg} else q) := by
  obtain ⟨hid,h0,h1,h2,h3⟩ := carries_bytes h
  have heoid : getEoid rx.data=0x0F := by
    unfold getEoid
    rw [h0]
    decide
  have hbound := sentCluster_bounds node cluster hc
  rw [←h1] at haddr
  have hnet := netAddr_toNat node hc hn haddr
  have hin := netReg_inBounds (eventId node cluster).toUInt16 rx.data
  have haccess : netRegAccesses (eventId node cluster).toUInt16 rx.data=
      if sentCluster node cluster=cluster then [.store .plcNetRegs n reg,.store .clNetRegs n reg]
      else [] := by
    have hcnt : (netRegsCnt : ℤ)=16 := rfl
    unfold netRegAccesses
    dsimp only
    rw [h2,h3,hnet,Crc.and_255_toUInt8,join16_bytes]
    by_cases he : sentCluster node cluster=cluster
    · rw [if_pos he,if_pos he,if_pos (by omega)]
    · rw [if_neg he,if_neg he,if_neg (by omega)]
  rw [checkCanRxData_eventId hc q hid,event_netReg heoid,q.perform_of_inBounds hin,haccess]
  by_cases he : sentCluster node cluster=cluster
  · rw [if_pos he,if_pos he]
    rfl
  · rw [if_neg he,if_neg he]
    rfl

/-- A panel with both copies of the sender's variable replaced has adopted it. -/
theorem adopted_setVar (m before : Arrays Val) {v : Variable} {a x : Val v.kind.plcName}
    {b y : Val v.kind.clName} (hplc : SameValue v.kind (v.kind.plcNat x) (v.kind.plcNat a))
    (hcl : SameValue v.kind (v.kind.clNat y) (v.kind.clNat b)) :
    Adopted (setVar m v a b) before (setVar before v x y) v where
  plc := by
    rw [plcVar_setVar,plcVar_setVar]
    exact hplc
  cl := by
    rw [clVar_setVar,clVar_setVar]
    exact hcl
  plcOther := fun _ hw => plcVar_setVar_of_ne before v x y hw
  clOther := fun _ hw => clVar_setVar_of_ne before v x y hw

theorem sameValue_refl (k : VarKind) (a : ℕ) : SameValue k a a := by
  cases k
  all_goals first | exact Iff.rfl | rfl

/-- Every value differs from another one of its kind. -/
theorem exists_different (k : VarKind) (a : ℕ) : ∃ x : Val k.plcName,¬SameValue k (k.plcNat x) a := by
  by_cases ha : a=0
  · cases k
    · exact ⟨(1 : UInt8),fun h => absurd (h.mpr ha) (by decide)⟩
    · exact ⟨(1 : UInt16),fun h => absurd (h.trans ha) (by decide)⟩
    · exact ⟨(1 : UInt8),fun h => absurd (h.mpr ha) (by decide)⟩
    · exact ⟨(1 : UInt16),fun h => absurd (h.trans ha) (by decide)⟩
  · cases k
    · exact ⟨(0 : UInt8),fun h => ha (h.mp rfl)⟩
    · exact ⟨(0 : UInt16),fun h => ha h.symm⟩
    · exact ⟨(0 : UInt8),fun h => ha (h.mp rfl)⟩
    · exact ⟨(0 : UInt16),fun h => ha h.symm⟩

/-- Some panel that ignores the frame has not adopted the variable. -/
theorem exists_not_adopted (sender : Arrays Val) (v : Variable) :
    ∃ q : Panel,¬Adopted sender q.arrays q.arrays v := by
  obtain ⟨x,hx⟩ := exists_different v.kind (plcVar sender v)
  refine ⟨{zeroPanel with arrays := zeroPanel.arrays.set v.kind.plcName v.index x},fun h => ?_⟩
  have hplc := h.plc
  unfold plcVar at hplc
  dsimp only at hplc
  rw [Arrays.set_same] at hplc
  exact hx hplc

/-- A received frame that carries a sent one. -/
theorem exists_carries (f : Frame) (h : f.data.length≤8) : ∃ rx,Carries rx f := by
  have hf := frame_packetOf f.id h
  have hlen : (UInt8.ofNat f.data.length).toNat=f.data.length := by
    rw [UInt8.toNat_ofNat']
    exact Nat.mod_eq_of_lt (by omega)
  have hload : load (fun i => f.data.getD i 0) 0 (UInt8.ofNat f.data.length).toNat=f.data :=
    congrArg Frame.data hf
  rw [hlen] at hload
  exact ⟨⟨f.id,UInt8.ofNat f.data.length,fun i => f.data.getD i 0⟩,rfl,hlen,hload⟩

/-- Agreement by the frame that the write queues. -/
theorem agree_iff_of_queued {p : Panel} {var var' : ManageVar} {v : Variable} {id : UInt32}
    {data : List UInt8} {a : Val v.kind.plcName} {b : Val v.kind.clName} (hdata : data.length≤8)
    (hwr : p.canTxStack.writePosition<80)
    (h : writeVarToPlc p var=some (queue (stored p v a b) (packetOf id data),var')) :
    Agree p var v ↔
      ∀ q rx,Carries rx ⟨id,data⟩ →
        ∃ q',checkCanRxData q rx=some q' ∧ Adopted (setVar p.arrays v a b) q.arrays q'.arrays v := by
  have hshort : (packetOf id data).length.toNat≤8 := by
    change (UInt8.ofNat data.length).toNat≤8
    rw [UInt8.toNat_ofNat']
    omega
  obtain ⟨slot,⟨hready,-,hframe⟩,hadd⟩ := add_eq hwr hshort
  have hslot : (queue (stored p v a b) (packetOf id data)).canTxStack.packet
      p.canTxStack.writePosition=slot := by
    change (addTxCanPacket p.canTxStack (packetOf id data)).packet p.canTxStack.writePosition=slot
    rw [hadd]
    exact if_pos rfl
  rw [frame_packetOf id hdata] at hframe
  constructor
  · rintro ⟨sender,var'',hsender,-,hall⟩
    rw [h] at hsender
    cases hsender
    rw [hslot,hframe] at hall
    exact hall
  · intro hall
    refine ⟨_,_,h,?_⟩
    dsimp only
    rw [hslot,hframe]
    exact ⟨hready,hall⟩

theorem bitByte_ne_zero (x : UInt8) : (if x≠0 then 0x01 else 0x00)=bitByte (decide (x≠0)) := by
  unfold bitByte
  simp only [decide_eq_true_eq]

/-- A stored byte and the bit sent for it have the same truth value. -/
theorem bitByte_same (x : UInt8) : (bitByte (decide (x≠0))).toNat=0 ↔ x.toNat=0 := by
  by_cases hx : x=0
  · subst hx
    decide
  · have hne : x.toNat≠0 := fun h => hx (UInt8.toNat_inj.mp h)
    rw [decide_eq_true hx]
    exact iff_of_false (by decide) hne

/-- The address byte of a number with its offset. -/
theorem address_toNat {index : UInt16} {n offset : ℕ} (hi : index.toNat=n) {off : UInt16}
    (ho : off.toNat=offset) (h : n+offset<256) : (index+off).toUInt8.toNat=n+offset := by
  rw [UInt16.toNat_toUInt8,UInt16.toNat_add,hi,ho]
  omega

/-- The address byte of a net variable. -/
theorem netAddress_toNat {index : UInt16} {cluster : UInt8} {n : ℕ} (hc : cluster.toNat≤7)
    (hi : index.toNat=n) (hn : n<16) :
    (cluster.toUInt16*16+index+1).toUInt8.toNat=cluster.toNat*16+n+1 := by
  have h16 : (16 : UInt16).toNat=16 := rfl
  have h1 : (1 : UInt16).toNat=1 := rfl
  rw [UInt16.toNat_toUInt8,UInt16.toNat_add,UInt16.toNat_add,UInt16.toNat_mul,
    UInt8.toNat_toUInt16,h16,h1,hi]
  omega

section Kinds

variable {p : Panel} {var : ManageVar} {n : ℕ}

/-- Cluster bits agree. -/
theorem agree_clustBit (hlink : p.plcCanLink≠0) (hcluster : p.clusterAddr.toNat≤7)
    (hwr : p.canTxStack.writePosition<80) (ht : var.linkType=varLinkClBit)
    (hi : var.linkIndex.toNat=n) (hn : n<224) : Agree p var ⟨.clustBit,n⟩ := by
  refine (agree_iff_of_queued (Nat.le_of_ble_eq_true rfl) hwr
    (writeVarToPlc_clustBit hlink ht hi hn)).mpr fun q rx hrx => ?_
  rw [bitByte_ne_zero] at hrx
  refine ⟨_,received_clustBit hcluster q hn (address_toNat hi rfl (by omega)) _ hrx,?_⟩
  exact adopted_setVar _ _ (bitByte_same _) (bitByte_same _)

/-- Cluster registers agree. -/
theorem agree_clustReg (hlink : p.plcCanLink≠0) (hcluster : p.clusterAddr.toNat≤7)
    (hwr : p.canTxStack.writePosition<80) (ht : var.linkType=varLinkClReg)
    (hi : var.linkIndex.toNat=n) (hn : n<64) : Agree p var ⟨.clustReg,n⟩ := by
  refine (agree_iff_of_queued (Nat.le_of_ble_eq_true rfl) hwr
    (writeVarToPlc_clustReg hlink ht hi hn)).mpr fun q rx hrx => ?_
  refine ⟨_,received_clustReg hcluster q hn (address_toNat hi rfl (by omega)) _ hrx,?_⟩
  exact adopted_setVar _ _ (sameValue_refl _ _) (sameValue_refl _ _)

/-- A net variable agrees exactly when the receiver sets it. -/
theorem agree_iff_of_received {id : UInt32} {data : List UInt8} {var' : ManageVar} {v : Variable}
    {a x : Val v.kind.plcName} {b y : Val v.kind.clName} {inCluster : Prop} [Decidable inCluster]
    (hdata : data.length≤8) (hwr : p.canTxStack.writePosition<80)
    (h : writeVarToPlc p var=some (queue (stored p v a b) (packetOf id data),var'))
    (hplc : SameValue v.kind (v.kind.plcNat x) (v.kind.plcNat a))
    (hcl : SameValue v.kind (v.kind.clNat y) (v.kind.clNat b))
    (hrec : ∀ q rx,Carries rx ⟨id,data⟩ →
      checkCanRxData q rx=some (if inCluster then stored q v x y else q)) :
    Agree p var v ↔ inCluster := by
  rw [agree_iff_of_queued hdata hwr h]
  constructor
  · intro hall
    by_contra hout
    obtain ⟨q,hq⟩ := exists_not_adopted (setVar p.arrays v a b) v
    obtain ⟨rx,hrx⟩ := exists_carries ⟨id,data⟩ hdata
    obtain ⟨q',hq',hadopted⟩ := hall q rx hrx
    rw [hrec q rx hrx,if_neg hout] at hq'
    cases hq'
    exact hq hadopted
  · intro hin q rx hrx
    refine ⟨_,hrec q rx hrx,?_⟩
    rw [if_pos hin]
    exact adopted_setVar _ _ hplc hcl

/-- Net bits agree exactly when the node address adds nothing to the cluster address. -/
theorem agree_netBit_iff (hlink : p.plcCanLink≠0) (hcluster : p.clusterAddr.toNat≤7)
    (hwr : p.canTxStack.writePosition<80) (ht : var.linkType=varLinkNetBit)
    (hi : var.linkIndex.toNat=n) (hn : n<16) :
    Agree p var ⟨.netBit,n⟩ ↔ sentCluster p.lcdCanAddr p.clusterAddr=p.clusterAddr := by
  refine agree_iff_of_received (Nat.le_of_ble_eq_true rfl) hwr
    (writeVarToPlc_netBit hlink ht hi hn) (bitByte_same _) (bitByte_same _) fun q rx hrx => ?_
  rw [bitByte_ne_zero] at hrx
  exact received_netBit hcluster q hn (netAddress_toNat hcluster hi hn) _ hrx

/-- Net registers agree exactly when the node address adds nothing to the cluster address. -/
theorem agree_netReg_iff (hlink : p.plcCanLink≠0) (hcluster : p.clusterAddr.toNat≤7)
    (hwr : p.canTxStack.writePosition<80) (ht : var.linkType=varLinkNetReg)
    (hi : var.linkIndex.toNat=n) (hn : n<16) :
    Agree p var ⟨.netReg,n⟩ ↔ sentCluster p.lcdCanAddr p.clusterAddr=p.clusterAddr :=
  agree_iff_of_received (Nat.le_of_ble_eq_true rfl) hwr (writeVarToPlc_netReg hlink ht hi hn)
    (sameValue_refl _ _) (sameValue_refl _ _) fun q _ hrx =>
      received_netReg hcluster q hn (netAddress_toNat hcluster hi hn) _ hrx

end Kinds

/-- Two panels agree on a write with the link up exactly when the variable is
a cluster bit or register, or the node address of the sender adds no bit to
its cluster address. The sender's ring is as any calls have left it. -/
theorem agree_iff (p : Panel) (stack₀ : TxStack) (ops : List TxOp)
    (hring : p.canTxStack=(txRun stack₀ ops).stack) (hlink : p.plcCanLink≠0)
    (hcluster : p.clusterAddr.toNat≤7) (var : ManageVar) (v : Variable) (hv : Linked var v) :
    Agree p var v ↔
      v.kind=.clustBit ∨ v.kind=.clustReg ∨
        ((p.lcdCanAddr>>>4)&&&7)|||p.clusterAddr=p.clusterAddr := by
  have hwr : p.canTxStack.writePosition<80 := by
    rw [hring]
    exact txRun_writePosition_lt stack₀ ops
  obtain ⟨k,n⟩ := v
  obtain ⟨ht,hi,hn⟩ := hv
  cases k with
  | clustBit => exact iff_of_true (agree_clustBit hlink hcluster hwr ht hi hn) (Or.inl rfl)
  | clustReg => exact iff_of_true (agree_clustReg hlink hcluster hwr ht hi hn) (Or.inr (Or.inl rfl))
  | netBit =>
    rw [agree_netBit_iff hlink hcluster hwr ht hi hn]
    exact ⟨fun h => Or.inr (Or.inr h),fun h => (h.resolve_left nofun).resolve_left nofun⟩
  | netReg =>
    rw [agree_netReg_iff hlink hcluster hwr ht hi hn]
    exact ⟨fun h => Or.inr (Or.inr h),fun h => (h.resolve_left nofun).resolve_left nofun⟩

/-- A panel of cluster 0 with the link up and a loaded node address. -/
def linkedPanel (lcdCanAddr : UInt8) : Panel :=
  {zeroPanel with plcCanLink := 1,lcdCanAddr := lcdCanAddr}

/-- Net register 0 set to 5. -/
def netRegisterWrite : ManageVar := ⟨0,100,5,varLinkNetReg,0⟩

/-- The node address 0x02 leaves the cluster address as it is. -/
theorem agree_default : Agree (linkedPanel 0x02) netRegisterWrite ⟨.netReg,0⟩ :=
  (agree_iff (linkedPanel 0x02) zeroStack [] rfl (by decide) (by decide) netRegisterWrite
    ⟨.netReg,0⟩ ⟨rfl,rfl,by decide⟩).mpr (by decide)

/-- A configuration with the node address 0x12 makes a write of net register 0
carry the address of cluster 1, and the second panel drops it. -/
theorem overlapping_node_disagrees :
    Config.readLcdCanAddr (Config.nodeBlock 0x12) 0x02=0x12 ∧
      ¬Agree (linkedPanel 0x12) netRegisterWrite ⟨.netReg,0⟩ := by
  refine ⟨Config.readLcdCanAddr_nodeBlock 0x12 0x02,fun h => ?_⟩
  have hiff : Agree (linkedPanel 0x12) netRegisterWrite ⟨.netReg,0⟩ ↔ _ :=
    agree_netReg_iff (by decide) (by decide) (by decide) rfl rfl (by decide)
  exact absurd (hiff.mp h) (by decide)

end BT816Display.PanelAgreement
