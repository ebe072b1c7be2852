import BT816Display.PlcData

/-!
# Operator writes in menu.c and can_cmd.c

A confirmed value is clamped, stored in both copies of the variable and queued
as a CAN frame. Each kind of variable has its own writer, with its object
identifier, index offset and node address.
-/

namespace BT816Display.CanCmd

open ByteMemory ArrayAccess PlcData CanTxStack

/-- VAR_LINK_CL_REG. -/
abbrev varLinkClReg : UInt16 := 2

/-- VAR_LINK_NET_REG. -/
abbrev varLinkNetReg : UInt16 := 3

/-- VAR_LINK_CL_BIT. -/
abbrev varLinkClBit : UInt16 := 4

/-- VAR_LINK_NET_BIT. -/
abbrev varLinkNetBit : UInt16 := 5

/-- An edited variable. -/
structure ManageVar where
  /-- Lower limit. -/
  min : UInt32
  /-- Upper limit. -/
  max : UInt32
  /-- Value typed by the operator. -/
  value : UInt32
  /-- Kind of the variable. -/
  linkType : UInt16
  /-- Number of the variable. -/
  linkIndex : UInt16

/-- The identifier of an event: 0x0400, service 0x07, node and cluster address. -/
def eventId (node cluster : UInt8) : UInt32 :=
  (0x0400 : UInt32)|||(0x07 : UInt32)|||(node.toUInt32<<<3)|||(cluster.toUInt32<<<7)

/-- A packet; add_tx_can_packet does not read the state or the bytes behind the length. -/
def packetOf (id : UInt32) (data : List UInt8) : TxStackData where
  data := fun i => data.getD i 0
  id := id
  length := UInt8.ofNat data.length
  state := .empty

/-- Queue a packet of this panel. -/
def queue (p : Panel) (packet : TxStackData) : Panel :=
  {p with canTxStack := addTxCanPacket p.canTxStack packet}

/-- write_clust_bit. -/
def writeClustBit (p : Panel) (num : UInt16) (value : UInt8) : Panel :=
  queue p (packetOf (eventId p.plcCanAddr p.clusterAddr)
    [0x03,(num+16).toUInt8,if value≠0 then 0x01 else 0x00,0x01])

/-- write_net_bit. -/
def writeNetBit (p : Panel) (num : UInt16) (value : UInt8) : Panel :=
  queue p (packetOf (eventId p.lcdCanAddr p.clusterAddr)
    [0x0E,(p.clusterAddr.toUInt16*16+num+1).toUInt8,if value≠0 then 0x01 else 0x00,0x01])

/-- write_clust_reg; it sends the register and not its last argument. -/
def writeClustReg (p : Panel) (num _value : UInt16) : Option Panel :=
  (p.perform [.load .plcClustRegs num.toNat]).map fun p =>
    let reg : UInt16 := p.arrays .plcClustRegs num.toNat
    queue p (packetOf (eventId p.lcdCanAddr p.clusterAddr)
      [0x06,(num+17).toUInt8,(reg&&&0xFF).toUInt8,(reg>>>8).toUInt8])

/-- write_net_reg; it sends the register and not its last argument. -/
def writeNetReg (p : Panel) (num _value : UInt16) : Option Panel :=
  (p.perform [.load .plcNetRegs num.toNat]).map fun p =>
    let reg : UInt16 := p.arrays .plcNetRegs num.toNat
    queue p (packetOf (eventId p.lcdCanAddr p.clusterAddr)
      [0x0F,(p.clusterAddr.toUInt16*16+num+1).toUInt8,(reg&&&0xFF).toUInt8,(reg>>>8).toUInt8])

/-- The value within the limits; the lower one is applied last. -/
def clamp (var : ManageVar) : UInt32 :=
  let value := if var.value>var.max then var.max else var.value
  if value<var.min then var.min else value

/-- The switch of write_var_to_plc. -/
def writeLinked (p : Panel) (var : ManageVar) : Option Panel :=
  let n : ℤ := var.linkIndex.toNat
  if var.linkType=varLinkClReg then
    if n<clusterRegsCnt then
      (p.perform [.store .clClusterRegs n var.value.toUInt16,
        .store .plcClustRegs n var.value.toUInt16]).bind fun p =>
          writeClustReg p var.linkIndex var.value.toUInt16
    else some p
  else if var.linkType=varLinkNetReg then
    if n<netRegsCnt then
      (p.perform [.store .clNetRegs n var.value.toUInt16,
        .store .plcNetRegs n var.value.toUInt16]).bind fun p =>
          writeNetReg p var.linkIndex var.value.toUInt16
    else some p
  else if var.linkType=varLinkClBit then
    if n<clustBitsCnt then
      (p.perform [.store .clClusterBits n var.value.toUInt8,
        .store .plcClustBits n var.value.toUInt8]).map fun p =>
          writeClustBit p var.linkIndex var.value.toUInt8
    else some p
  else if var.linkType=varLinkNetBit then
    if n<netBitsCnt then
      (p.perform [.store .clNetBits n var.value.toUInt8,
        .store .plcNetBits n var.value.toUInt8]).map fun p =>
          writeNetBit p var.linkIndex var.value.toUInt8
    else some p
  else some p

/-- write_var_to_plc, with no result behind an array index out of bounds. -/
def writeVarToPlc (p : Panel) (var : ManageVar) : Option (Panel×ManageVar) :=
  if p.plcCanLink=0 then some (p,var)
  else
    let var := {var with value := clamp var}
    (writeLinked p var).map fun p => (p,var)

/-! ## Variables -/

/-- Kinds of variables an operator can write. -/
inductive VarKind where
  /-- Cluster bit. -/
  | clustBit
  /-- Cluster register. -/
  | clustReg
  /-- Net bit. -/
  | netBit
  /-- Net register. -/
  | netReg
  deriving DecidableEq

/-- A variable. -/
structure Variable where
  /-- Its kind. -/
  kind : VarKind
  /-- Its number. -/
  index : ℕ
  deriving DecidableEq

/-- The array of a kind in plc_data.c. -/
@[reducible] def VarKind.plcName : VarKind → ArrayName
  | .clustBit => .plcClustBits
  | .clustReg => .plcClustRegs
  | .netBit => .plcNetBits
  | .netReg => .plcNetRegs

/-- The array of a kind in the cluster structure. -/
@[reducible] def VarKind.clName : VarKind → ArrayName
  | .clustBit => .clClusterBits
  | .clustReg => .clClusterRegs
  | .netBit => .clNetBits
  | .netReg => .clNetRegs

/-- Number of variables of a kind. -/
def VarKind.count : VarKind → ℕ
  | .clustBit => clustBitsCnt
  | .clustReg => clusterRegsCnt
  | .netBit => netBitsCnt
  | .netReg => netRegsCnt

/-- The link type of a kind. -/
def VarKind.linkType : VarKind → UInt16
  | .clustBit => varLinkClBit
  | .clustReg => varLinkClReg
  | .netBit => varLinkNetBit
  | .netReg => varLinkNetReg

/-- The value of an element in the array of plc_data.c as a number. -/
def VarKind.plcNat : (k : VarKind) → Val k.plcName → ℕ
  | .clustBit,v => UInt8.toNat v
  | .clustReg,v => UInt16.toNat v
  | .netBit,v => UInt8.toNat v
  | .netReg,v => UInt16.toNat v

/-- The value of an element in the array of the cluster structure as a number. -/
def VarKind.clNat : (k : VarKind) → Val k.clName → ℕ
  | .clustBit,v => UInt8.toNat v
  | .clustReg,v => UInt16.toNat v
  | .netBit,v => UInt8.toNat v
  | .netReg,v => UInt16.toNat v

/-- The value of a variable in plc_data.c. -/
def plcVar (m : Arrays Val) (v : Variable) : ℕ := v.kind.plcNat (m v.kind.plcName v.index)

/-- The value of a variable in the cluster structure. -/
def clVar (m : Arrays Val) (v : Variable) : ℕ := v.kind.clNat (m v.kind.clName v.index)

/-- Both copies of a variable replaced. -/
def setVar (m : Arrays Val) (v : Variable) (a : Val v.kind.plcName) (b : Val v.kind.clName) :
    Arrays Val := (m.set v.kind.plcName v.index a).set v.kind.clName v.index b

/-- The arrays of the two sides are different arrays. -/
theorem plcName_ne_clName (k l : VarKind) : k.plcName≠l.clName := by
  cases k <;> cases l <;> decide

/-- Each kind has its own array on the PLC side. -/
theorem plcName_injective {k l : VarKind} (h : k.plcName=l.plcName) : k=l := by
  cases k <;> cases l <;> first | rfl | cases h

/-- Each kind has its own array on the cluster side. -/
theorem clName_injective {k l : VarKind} (h : k.clName=l.clName) : k=l := by
  cases k <;> cases l <;> first | rfl | cases h

section SetVar

variable (m : Arrays Val) (v : Variable) (a : Val v.kind.plcName) (b : Val v.kind.clName)

/-- The variable set holds the new value on the PLC side. -/
theorem setVar_plc : setVar m v a b v.kind.plcName v.index=a := by
  unfold setVar
  rw [Arrays.set_of_array_ne _ (plcName_ne_clName _ _),Arrays.set_same]

/-- It reads that value. -/
theorem plcVar_setVar : plcVar (setVar m v a b) v=v.kind.plcNat a :=
  congrArg v.kind.plcNat (setVar_plc m v a b)

/-- It reads the other value on the cluster side. -/
theorem clVar_setVar : clVar (setVar m v a b) v=v.kind.clNat b := by
  unfold clVar setVar
  rw [Arrays.set_same]

/-- Another variable reads what it read on the PLC side. -/
theorem plcVar_setVar_of_ne {w : Variable} (h : w≠v) : plcVar (setVar m v a b) w=plcVar m w := by
  unfold plcVar setVar
  rw [Arrays.set_of_array_ne _ (plcName_ne_clName _ _),Arrays.set_other]
  intro hname hindex
  exact h (by cases v; cases w; cases plcName_injective hname; cases hindex; rfl)

/-- And on the cluster side. -/
theorem clVar_setVar_of_ne {w : Variable} (h : w≠v) : clVar (setVar m v a b) w=clVar m w := by
  unfold clVar setVar
  rw [Arrays.set_other,Arrays.set_of_array_ne _ (plcName_ne_clName _ _).symm]
  intro hname hindex
  exact h (by cases v; cases w; cases clName_injective hname; cases hindex; rfl)

end SetVar

/-- The frame of a packet of at most eight bytes. -/
theorem frame_packetOf (id : UInt32) {data : List UInt8} (h : data.length≤8) :
    frame (packetOf id data)=⟨id,data⟩ := by
  have hlen : (UInt8.ofNat data.length).toNat=data.length := by
    rw [UInt8.toNat_ofNat']
    exact Nat.mod_eq_of_lt (by omega)
  have hload : load (fun i => data.getD i 0) 0 data.length=data := by
    rw [load_eq_iff]
    intro i hi
    rw [Nat.zero_add]
    rw [List.getD_eq_getElem?_getD,List.getElem?_eq_getElem hi,Option.getD_some]
  unfold frame packetOf
  dsimp only
  rw [hlen,hload]

/-- The stores of write_var_to_plc replace both copies of the variable. -/
theorem foldl_storesVar (m : Arrays Val) (v : Variable) (a : Val v.kind.plcName)
    (b : Val v.kind.clName) :
    [Access.store v.kind.clName v.index b,Access.store v.kind.plcName v.index a].foldl perform m=
      setVar m v a b :=
  Arrays.set_comm m (plcName_ne_clName _ _).symm _ _ _ _

/-- These stores are in bounds for every variable. -/
theorem perform_stores (p : Panel) {v : Variable} (hv : v.index<v.kind.count)
    (a : Val v.kind.plcName) (b : Val v.kind.clName) :
    p.perform [.store v.kind.clName v.index b,.store v.kind.plcName v.index a]=
      some {p with arrays := setVar p.arrays v a b} := by
  have hplc : size v.kind.plcName=v.kind.count := by cases v.kind <;> rfl
  have hcl : size v.kind.clName=v.kind.count := by cases v.kind <;> rfl
  have h0 : (0 : ℤ)≤v.index := Int.natCast_nonneg _
  rw [Panel.perform_of_inBounds,foldl_storesVar]
  refine List.forall_mem_cons.mpr ⟨⟨h0,?_⟩,List.forall_mem_cons.mpr ⟨⟨h0,?_⟩,List.forall_mem_nil _⟩⟩
  · dsimp only [Access.index,Access.array]
    rw [hcl]
    exact Int.ofNat_lt.mpr hv
  · dsimp only [Access.index,Access.array]
    rw [hplc]
    exact Int.ofNat_lt.mpr hv

/-- A read in bounds changes nothing. -/
theorem perform_load (p : Panel) {name : ArrayName} {n : ℕ} (h : n<size name) :
    p.perform [.load name n]=some p := by
  rw [Panel.perform_of_inBounds]
  · rfl
  · exact List.forall_mem_singleton.mpr ⟨Int.natCast_nonneg _,Int.ofNat_lt.mpr h⟩

/-- The panel after both copies of a variable are stored. -/
def stored (p : Panel) (v : Variable) (a : Val v.kind.plcName) (b : Val v.kind.clName) : Panel :=
  {p with arrays := setVar p.arrays v a b}

section Writes

variable {p : Panel} {var : ManageVar} {n : ℕ}

/-- Writing a cluster bit stores it and queues its frame. -/
theorem writeVarToPlc_clustBit (hlink : p.plcCanLink≠0) (ht : var.linkType=varLinkClBit)
    (hi : var.linkIndex.toNat=n) (hn : n<224) :
    let x := (clamp var).toUInt8
    writeVarToPlc p var=
      some (queue (stored p ⟨.clustBit,n⟩ x x) (packetOf (eventId p.plcCanAddr p.clusterAddr)
        [0x03,(var.linkIndex+16).toUInt8,if x≠0 then 0x01 else 0x00,0x01]),
        {var with value := clamp var}) := by
  have hs := perform_stores p (v:=⟨.clustBit,n⟩) hn (clamp var).toUInt8 (clamp var).toUInt8
  dsimp only at hs
  unfold writeVarToPlc writeLinked
  dsimp only
  rw [if_neg hlink,ht,if_neg (by decide),if_neg (by decide),if_pos rfl,hi,
    if_pos (Int.ofNat_lt.mpr hn),hs]
  rfl

/-- Writing a net bit stores it and queues its frame. -/
theorem writeVarToPlc_netBit (hlink : p.plcCanLink≠0) (ht : var.linkType=varLinkNetBit)
    (hi : var.linkIndex.toNat=n) (hn : n<16) :
    let x := (clamp var).toUInt8
    writeVarToPlc p var=
      some (queue (stored p ⟨.netBit,n⟩ x x) (packetOf (eventId p.lcdCanAddr p.clusterAddr)
        [0x0E,(p.clusterAddr.toUInt16*16+var.linkIndex+1).toUInt8,if x≠0 then 0x01 else 0x00,0x01]),
        {var with value := clamp var}) := by
  have hs := perform_stores p (v:=⟨.netBit,n⟩) hn (clamp var).toUInt8 (clamp var).toUInt8
  dsimp only at hs
  unfold writeVarToPlc writeLinked
  dsimp only
  rw [if_neg hlink,ht,if_neg (by decide),if_neg (by decide),if_neg (by decide),if_pos rfl,hi,
    if_pos (Int.ofNat_lt.mpr hn),hs]
  rfl

/-- Writing a cluster register stores it and queues its frame. -/
theorem writeVarToPlc_clustReg (hlink : p.plcCanLink≠0) (ht : var.linkType=varLinkClReg)
    (hi : var.linkIndex.toNat=n) (hn : n<64) :
    let x := (clamp var).toUInt16
    writeVarToPlc p var=
      some (queue (stored p ⟨.clustReg,n⟩ x x) (packetOf (eventId p.lcdCanAddr p.clusterAddr)
        [0x06,(var.linkIndex+17).toUInt8,(x&&&0xFF).toUInt8,(x>>>8).toUInt8]),
        {var with value := clamp var}) := by
  have hs := perform_stores p (v:=⟨.clustReg,n⟩) hn (clamp var).toUInt16 (clamp var).toUInt16
  have hread := setVar_plc p.arrays ⟨.clustReg,n⟩ (clamp var).toUInt16 (clamp var).toUInt16
  dsimp only at hs hread
  unfold writeVarToPlc writeLinked writeClustReg
  dsimp only
  rw [if_neg hlink,ht,if_pos rfl,hi,if_pos (Int.ofNat_lt.mpr hn),hs,Option.bind_some,
    perform_load _ hn,Option.map_some]
  dsimp only
  rw [hread]
  rfl

/-- Writing a net register stores it and queues its frame. -/
theorem writeVarToPlc_netReg (hlink : p.plcCanLink≠0) (ht : var.linkType=varLinkNetReg)
    (hi : var.linkIndex.toNat=n) (hn : n<16) :
    let x := (clamp var).toUInt16
    writeVarToPlc p var=
      some (queue (stored p ⟨.netReg,n⟩ x x) (packetOf (eventId p.lcdCanAddr p.clusterAddr)
        [0x0F,(p.clusterAddr.toUInt16*16+var.linkIndex+1).toUInt8,(x&&&0xFF).toUInt8,
          (x>>>8).toUInt8]),
        {var with value := clamp var}) := by
  have hs := perform_stores p (v:=⟨.netReg,n⟩) hn (clamp var).toUInt16 (clamp var).toUInt16
  have hread := setVar_plc p.arrays ⟨.netReg,n⟩ (clamp var).toUInt16 (clamp var).toUInt16
  dsimp only at hs hread
  unfold writeVarToPlc writeLinked writeNetReg
  dsimp only
  rw [if_neg hlink,ht,if_neg (by decide),if_pos rfl,hi,if_pos (Int.ofNat_lt.mpr hn),hs,
    Option.bind_some,perform_load _ hn,Option.map_some]
  dsimp only
  rw [hread]
  rfl

end Writes

end BT816Display.CanCmd
