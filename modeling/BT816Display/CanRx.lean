import BT816Display.Lib.BigEndian
import BT816Display.Lib.LoopAccess
import BT816Display.PlcData

/-!
# Reception of CAN frames in can.c

The receiver computes array indices from the address byte of the frame, with
a different offset for each kind of message. Two kinds check the index from
above only, and a low address makes it negative.
-/

namespace BT816Display.CanRx

open ByteMemory BigEndian ArrayAccess PlcData

/-- A received frame; the mailbox has eight data bytes whatever the length. -/
structure CanRxMessage where
  /-- 11-bit identifier. -/
  standardId : UInt32
  /-- Number of data bytes received. -/
  dlc : UInt8
  /-- The data bytes. -/
  data : Mem UInt8

/-- SRV_Channel. -/
abbrev srvChannel : UInt32 := 0

/-- SRV_Heartbeat. -/
abbrev srvHeartbeat : UInt16 := 1

/-- Service type, bits 0 to 2 of the identifier. -/
def srv (id : UInt16) : UInt16 := id&&&0x7

/-- Node address, bits 3 to 6 of the identifier. -/
def nodeAddr (id : UInt16) : UInt8 := ((id>>>3)&&&0xF).toUInt8

/-- Cluster address, bits 7 to 9 of the identifier. -/
def clustAddr (id : UInt16) : UInt8 := ((id>>>7)&&&0x7).toUInt8

/-- is_packet_extended. -/
def isPacketExtended (canId : UInt32) : Bool := canId&&&0x07=srvChannel

/-- get_eoid. -/
def getEoid (data : Mem UInt8) : UInt8 := data 0&&&0b00011111

/-- get_intern_addr. -/
def getInternAddr (data : Mem UInt8) : UInt8 := data 1

/-- Bit `i` of a byte or word. -/
def bit (mask i : ℕ) : Bool := mask.testBit i

/-- The stores of one digital input. -/
def dinAccesses (n : ℤ) (fault state : Bool) : List (Access Val) :=
  .store .plcDiType n .used::.store .clDinUsed n 1::
    if fault then [.store .plcDiState n .fault,.store .clDinFault n 1,.store .clDinState n 0]
    else
      .store .clDinFault n 0::
        if state then [.store .plcDiState n .on,.store .clDinState n 1]
        else [.store .plcDiState n .off,.store .clDinState n 0]

/-- The stores of one digital output. -/
def doutAccesses (n : ℤ) (fault state : Bool) : List (Access Val) :=
  if fault then [.store .plcDoState n .fault,.store .clDoutFault n 1]
  else
    .store .clDoutFault n 0::
      if state then [.store .plcDoState n .on,.store .clDoutState n 1]
      else [.store .plcDoState n .off,.store .clDoutState n 0]

/-- EOID 0x01, packed states of inputs and outputs. -/
def diDoAccesses (data : Mem UInt8) : List (Access Val) :=
  let startBit := getInternAddr data
  let packedState := (data 2).toNat
  let packedFault := (data 3).toNat
  let packedMask := (data 4).toNat
  (List.range 8).flatMap fun (i : ℕ) =>
    let n : ℤ := startBit.toNat+i
    if bit packedMask i then
      if n≥1 ∧ n≤diCnt then dinAccesses (n-1) (bit packedFault i) (bit packedState i)
      else if n≥129 ∧ n-129<doCnt then
        doutAccesses (n-129) (bit packedFault i) (bit packedState i)
      else []
    else []

/-- The stores of one cluster bit. -/
def clustBitAccesses (n : ℤ) (state : Bool) : List (Access Val) :=
  if state then [.store .plcClustBits n 1,.store .clClusterBits n 1]
  else [.store .plcClustBits n 0,.store .clClusterBits n 0]

/-- EOID 0x03, packed cluster bits. -/
def clustBitsAccesses (data : Mem UInt8) : List (Access Val) :=
  let internAddr := getInternAddr data
  let packedState := (data 2).toNat
  let packedMask := (data 3).toNat
  (List.range 8).flatMap fun (i : ℕ) =>
    let n : ℤ := internAddr.toNat+i-16
    if n<clustBitsCnt then
      if bit packedMask i then clustBitAccesses n (bit packedState i) else []
    else []

/-- EOID 0x05, the stores of an analogue input and the read of its value. -/
def ainAccesses (data : Mem UInt8) (n : ℤ) : List (Access Val) :=
  [.store .plcAinRaw n (join16 (data 7) (data 6)),.store .clAinRaw n (join16 (data 7) (data 6)),
    .store .clAinFault n (join16 (data 5) (data 4)),.store .clAinTdu n (data 3),
    .store .clAinValue n (data 2),.load .clAinValue n]

/-- EOID 0x06, a cluster register. -/
def clustRegAccesses (data : Mem UInt8) : List (Access Val) :=
  let n : ℤ := (getInternAddr data).toNat-17
  let value := join16 (data 3) (data 2)
  if n<clusterRegsCnt then [.store .plcClustRegs n value,.store .clClusterRegs n value] else []

/-- The stores of the use of one analogue input; an unused one has AI_UNUSED,
which is 0 like DI_UNUSED, stored to plc_di_type. -/
def aiTypeAccesses (n : ℤ) (used : Bool) : List (Access Val) :=
  if used then [.store .plcAiType n .u,.store .clAinUsed n 1]
  else [.store .plcDiType n .unused,.store .clAinUsed n 0]

/-- The stores of the use of one digital input. -/
def diTypeAccesses (n : ℤ) (used : Bool) : List (Access Val) :=
  if used then [.store .plcDiType n .used,.store .clDinUsed n 1]
  else [.store .plcDiType n .unused,.store .clDinUsed n 0]

/-- EOID 0x0A, the inputs in use. -/
def ioTypesAccesses (data : Mem UInt8) : List (Access Val) :=
  let mask := (join16 (data 3) (data 2)).toNat
  if data 4=0 then
    (List.range 16).flatMap fun (i : ℕ) =>
      if i<aiCnt then aiTypeAccesses i (bit mask i) else []
  else if data 4=1 then
    (List.range 16).flatMap fun (i : ℕ) =>
      if i<diCnt then diTypeAccesses i (bit mask i) else []
  else []

/-- The address byte of a net variable relative to its cluster, in eight bits. -/
def netAddr (id : UInt16) (data : Mem UInt8) : UInt8 := getInternAddr data-clustAddr id*16-1

/-- The stores of one net bit. -/
def netBitAccesses (n : ℤ) (state : Bool) : List (Access Val) :=
  if state then [.store .plcNetBits n 1,.store .clNetBits n 1]
  else [.store .plcNetBits n 0,.store .clNetBits n 0]

/-- EOID 0x0E, packed net bits. -/
def netBitsAccesses (id : UInt16) (data : Mem UInt8) : List (Access Val) :=
  let internAddr := netAddr id data
  let packedState := (data 2).toNat
  let packedMask := (data 3).toNat
  (List.range 8).flatMap fun (i : ℕ) =>
    let n : ℤ := internAddr.toNat+i
    if n<netBitsCnt then
      if bit packedMask i then netBitAccesses n (bit packedState i) else []
    else []

/-- EOID 0x0F, a net register. -/
def netRegAccesses (id : UInt16) (data : Mem UInt8) : List (Access Val) :=
  let n : ℤ := (netAddr id data).toNat
  let value := join16 (data 3) (data 2)
  if n<netRegsCnt then [.store .plcNetRegs n value,.store .clNetRegs n value] else []

/-- A heartbeat. -/
def heartbeat (p : Panel) (id : UInt16) (internAddr : UInt8) : Option Panel :=
  let p := {p with hbCnt := 0}
  let p := if p.plcCanLink≠0 then {p with getIoNamesFlag := 1} else {p with updateDi := 0xFF}
  let p := {p with plcCanLink := 1,plcCanAddr := nodeAddr id,clusterAddr := clustAddr id}
  let link : List (Access Val) :=
    if p.clusterAddr=0 ∧ p.plcCanAddr≤7 then [.store .plcLink p.plcCanAddr.toNat 1] else []
  (p.perform link).map fun p => {p with clHeartbeat := internAddr.toUInt16}

/-- An event, by its object identifier. -/
def event (p : Panel) (id : UInt16) (data : Mem UInt8) : Option Panel :=
  let internAddr := getInternAddr data
  match getEoid data with
  | 0x01 => p.perform (diDoAccesses data)
  | 0x03 => p.perform (clustBitsAccesses data)
  | 0x05 =>
    if internAddr≥1 ∧ internAddr.toNat≤aiCnt then
      (p.perform (ainAccesses data (internAddr.toNat-1))).map fun p =>
        let value : UInt8 := p.arrays .clAinValue (internAddr.toNat-1)
        let trends := TrendData.checkAndAddDataToTrendFromCan p.trends p.curLongTime (nodeAddr id)
          internAddr value
        {p with trends := trends}
    else some p
  | 0x06 => p.perform (clustRegAccesses data)
  | 0x0A => p.perform (ioTypesAccesses data)
  | 0x0E => p.perform (netBitsAccesses id data)
  | 0x0F => p.perform (netRegAccesses id data)
  | 0x1F =>
    if internAddr=3 then
      some {p with plcAppId := join16 (data 3) (data 2),clAppId := join16 (data 3) (data 2)}
    else if internAddr=17 then
      some {p with plcEthIpState := data 2,clEthipState := (data 2).toUInt16}
    else some p
  | _ => some p

/-- Event 0x03 performs the bit accesses of the cluster. -/
theorem event_clustBits {data : Mem UInt8} (h : getEoid data=0x03) (p : Panel) (id : UInt16) :
    event p id data=p.perform (clustBitsAccesses data) := by
  unfold event
  rw [h]
  rfl

/-- Event 0x06 performs the register accesses of the cluster. -/
theorem event_clustReg {data : Mem UInt8} (h : getEoid data=0x06) (p : Panel) (id : UInt16) :
    event p id data=p.perform (clustRegAccesses data) := by
  unfold event
  rw [h]
  rfl

/-- Event 0x0E performs the bit accesses of the network. -/
theorem event_netBits {data : Mem UInt8} (h : getEoid data=0x0E) (p : Panel) (id : UInt16) :
    event p id data=p.perform (netBitsAccesses id data) := by
  unfold event
  rw [h]
  rfl

/-- Event 0x0F performs the register accesses of the network. -/
theorem event_netReg {data : Mem UInt8} (h : getEoid data=0x0F) (p : Panel) (id : UInt16) :
    event p id data=p.perform (netRegAccesses id data) := by
  unfold event
  rw [h]
  rfl

/-- check_can_rx_data, with no result behind an array index out of bounds. -/
def checkCanRxData (p : Panel) (rx : CanRxMessage) : Option Panel :=
  let id := rx.standardId.toUInt16
  if isPacketExtended rx.standardId then some p
  else if srv id=srvHeartbeat then heartbeat p id (getInternAddr rx.data)
  else event p id rx.data

/-- A store is in bounds when its index is an index of the array. -/
@[simp] theorem store_inBounds (array : ArrayName) (n : ℤ) (v : Val array) :
    (Access.store array n v : Access Val).InBounds size ↔ 0≤n ∧ n<size array := Iff.rfl

/-- So is a load. -/
@[simp] theorem load_inBounds (array : ArrayName) (n : ℤ) :
    (Access.load array n : Access Val).InBounds size ↔ 0≤n ∧ n<size array := Iff.rfl

/-- All accesses of the list are in bounds. -/
def AllInBounds (accesses : List (Access Val)) : Prop := ∀ a∈accesses,a.InBounds size

/-- No access is in bounds of everything. -/
@[simp] theorem allInBounds_nil : AllInBounds [] := List.forall_mem_nil _

/-- A list of accesses is in bounds when each one is. -/
@[simp] theorem allInBounds_cons (a : Access Val) (accesses : List (Access Val)) :
    AllInBounds (a::accesses) ↔ a.InBounds size ∧ AllInBounds accesses := List.forall_mem_cons

/-- The accesses of a loop are those of its rounds. -/
theorem allInBounds_rounds (n : ℕ) (f : ℕ → List (Access Val)) :
    AllInBounds ((List.range n).flatMap f) ↔ ∀ i<n,AllInBounds (f i) := forall_mem_loop

/-- The accesses to an input are in bounds for an input that exists. -/
theorem din_inBounds {n : ℤ} (h0 : 0≤n) (h : n<14) (fault state : Bool) :
    AllInBounds (dinAccesses n fault state) := by
  cases fault <;> cases state <;> simp [dinAccesses,size,h0,h]

/-- The accesses to an output are in bounds for an output that exists. -/
theorem dout_inBounds {n : ℤ} (h0 : 0≤n) (h : n<6) (fault state : Bool) :
    AllInBounds (doutAccesses n fault state) := by
  cases fault <;> cases state <;> simp [doutAccesses,size,h0,h]

/-- The digital report stays within the inputs and outputs, whatever it says. -/
theorem diDo_inBounds (data : Mem UInt8) : AllInBounds (diDoAccesses data) := by
  refine (allInBounds_rounds 8 _).mpr fun i _ => ?_
  dsimp only
  have hdi : (diCnt : ℤ)=14 := rfl
  have hdo : (doCnt : ℤ)=6 := rfl
  split_ifs with hmask hin hout
  · exact din_inBounds (by omega) (by omega) _ _
  · exact dout_inBounds (by omega) (by omega) _ _
  · exact allInBounds_nil
  · exact allInBounds_nil

/-- A cluster bit is in bounds exactly when its number is one of the 224. -/
theorem clustBit_inBounds_iff (n : ℤ) (state : Bool) :
    AllInBounds (clustBitAccesses n state) ↔ 0≤n ∧ n<224 := by
  cases state <;> simp [clustBitAccesses,size]

/-- Packed cluster bits are in bounds when every masked one has an address of
at least 16. -/
theorem clustBits_inBounds_iff (data : Mem UInt8) :
    AllInBounds (clustBitsAccesses data) ↔
      ∀ i<8,bit (data 3).toNat i=true → 16≤(getInternAddr data).toNat+i := by
  refine (allInBounds_rounds 8 _).trans (forall₂_congr fun i _ => ?_)
  dsimp only
  have hcnt : (clustBitsCnt : ℤ)=224 := rfl
  split_ifs with hhigh hmask
  · rw [clustBit_inBounds_iff]
    exact ⟨fun h _ => by omega,fun h => ⟨by have := h hmask; omega,by omega⟩⟩
  · exact ⟨fun _ h => absurd h hmask,fun _ => allInBounds_nil⟩
  · exact ⟨fun _ _ => by omega,fun _ => allInBounds_nil⟩

/-- The accesses to an analogue input are in bounds for an input that exists. -/
theorem ain_inBounds (data : Mem UInt8) {n : ℤ} (h0 : 0≤n) (h : n<14) :
    AllInBounds (ainAccesses data n) := by
  simp [ainAccesses,size,h0,h]

/-- A cluster register is in bounds when its address is at least 17. -/
theorem clustReg_inBounds_iff (data : Mem UInt8) :
    AllInBounds (clustRegAccesses data) ↔ 17≤(getInternAddr data).toNat := by
  unfold clustRegAccesses
  dsimp only
  have hcnt : (clusterRegsCnt : ℤ)=64 := rfl
  split_ifs with hhigh
  · rw [allInBounds_cons,allInBounds_cons,store_inBounds,store_inBounds]
    dsimp only [size]
    exact ⟨fun h => by omega,fun h => ⟨⟨by omega,by omega⟩,⟨by omega,by omega⟩,allInBounds_nil⟩⟩
  · exact ⟨fun _ => by omega,fun _ => allInBounds_nil⟩

/-- The types report stays within the inputs, whatever it says. -/
theorem ioTypes_inBounds (data : Mem UInt8) : AllInBounds (ioTypesAccesses data) := by
  unfold ioTypesAccesses
  dsimp only
  split_ifs
  · refine (allInBounds_rounds 16 _).mpr fun i _ => ?_
    split_ifs with hi
    · cases bit (join16 (data 3) (data 2)).toNat i <;> simp [aiTypeAccesses,size,hi]
    · exact allInBounds_nil
  · refine (allInBounds_rounds 16 _).mpr fun i _ => ?_
    split_ifs with hi
    · cases bit (join16 (data 3) (data 2)).toNat i <;> simp [diTypeAccesses,size,hi]
    · exact allInBounds_nil
  · exact allInBounds_nil

/-- The eight-bit wrap leaves no negative index of a net bit. -/
theorem netBits_inBounds (id : UInt16) (data : Mem UInt8) :
    AllInBounds (netBitsAccesses id data) := by
  refine (allInBounds_rounds 8 _).mpr fun i _ => ?_
  dsimp only
  have hcnt : (netBitsCnt : ℤ)=16 := rfl
  split_ifs with hhigh hmask
  · have h0 : (0 : ℤ)≤(netAddr id data).toNat+i := by omega
    rw [hcnt] at hhigh
    cases bit (data 2).toNat i <;> simp [netBitAccesses,size,h0,hhigh]
  · exact allInBounds_nil
  · exact allInBounds_nil

/-- The network registers stay in bounds, since the source checks their index. -/
theorem netReg_inBounds (id : UInt16) (data : Mem UInt8) :
    AllInBounds (netRegAccesses id data) := by
  unfold netRegAccesses
  dsimp only
  split_ifs with hhigh
  · have hlt : (netAddr id data).toNat<16 := Int.ofNat_lt.mp hhigh
    simp [size,hlt]
  · exact allInBounds_nil

/-- A heartbeat marks one of the eight links at most. -/
theorem heartbeat_isSome (p : Panel) (id : UInt16) (internAddr : UInt8) :
    (heartbeat p id internAddr).isSome := by
  unfold heartbeat
  dsimp only
  rw [Option.isSome_map,Panel.perform_isSome_iff]
  split_ifs with hlink
  · have h7 : (nodeAddr id).toNat≤7 := hlink.2
    refine (allInBounds_cons _ _).mpr ⟨(store_inBounds _ _ _).mpr ⟨?_,?_⟩,allInBounds_nil⟩
    · exact Int.natCast_nonneg _
    · exact Int.ofNat_lt.mpr (by dsimp only [size]; omega)
  · exact allInBounds_nil

/-- No index of the event lies below its array: packed cluster bits mask none
of an address below 16, and a cluster register has an address of at least 17. -/
def NoLowIndex (data : Mem UInt8) : Prop :=
  (getEoid data=0x03 → ∀ i<8,bit (data 3).toNat i=true → 16≤(getInternAddr data).toNat+i) ∧
    (getEoid data=0x06 → 17≤(getInternAddr data).toNat)

/-- The condition is decidable. -/
instance (data : Mem UInt8) : Decidable (NoLowIndex data) := instDecidableAnd

/-- A frame of another event has no low index. -/
theorem noLowIndex_of_ne {data : Mem UInt8} (h3 : getEoid data≠0x03) (h6 : getEoid data≠0x06) :
    NoLowIndex data := ⟨fun h => absurd h h3,fun h => absurd h h6⟩

/-- An event of another kind than the two has a result. -/
theorem perform_isSome_of_ne {p : Panel} {accesses : List (Access Val)} {data : Mem UInt8}
    (h : AllInBounds accesses) (h3 : getEoid data≠0x03) (h6 : getEoid data≠0x06) :
    (p.perform accesses).isSome ↔ NoLowIndex data :=
  iff_of_true ((p.perform_isSome_iff accesses).mpr h) (noLowIndex_of_ne h3 h6)

/-- An event stays in bounds exactly when none of its indices lies below its array. -/
theorem event_isSome_iff (p : Panel) (id : UInt16) (data : Mem UInt8) :
    (event p id data).isSome ↔ NoLowIndex data := by
  unfold event
  dsimp only
  split
  next he => exact perform_isSome_of_ne (diDo_inBounds data) (by simp [he]) (by simp [he])
  next he =>
    rw [Panel.perform_isSome_iff]
    refine (clustBits_inBounds_iff data).trans ⟨fun h => ⟨fun _ => h,fun h6 => ?_⟩,fun h => h.1 he⟩
    exact absurd (he.symm.trans h6) (by decide)
  next he =>
    split_ifs with haddr
    · rw [Option.isSome_map]
      have h1 : 1≤(getInternAddr data).toNat := haddr.1
      have h14 : (getInternAddr data).toNat≤14 := haddr.2
      exact perform_isSome_of_ne (ain_inBounds data (by omega) (by omega))
        (by simp [he]) (by simp [he])
    · exact iff_of_true rfl (noLowIndex_of_ne (by simp [he]) (by simp [he]))
  next he =>
    rw [Panel.perform_isSome_iff]
    refine (clustReg_inBounds_iff data).trans ⟨fun h => ⟨fun h3 => ?_,fun _ => h⟩,fun h => h.2 he⟩
    exact absurd (he.symm.trans h3) (by decide)
  next he => exact perform_isSome_of_ne (ioTypes_inBounds data) (by simp [he]) (by simp [he])
  next he => exact perform_isSome_of_ne (netBits_inBounds id data) (by simp [he]) (by simp [he])
  next he => exact perform_isSome_of_ne (netReg_inBounds id data) (by simp [he]) (by simp [he])
  next he =>
    have hne : NoLowIndex data := noLowIndex_of_ne (by simp [he]) (by simp [he])
    split_ifs <;> exact iff_of_true rfl hne
  next => exact iff_of_true rfl (noLowIndex_of_ne (by assumption) (by assumption))

/-- A received frame stays in bounds in every state, unless it is an event
with an index below its array. -/
theorem checkCanRxData_isSome_iff (p : Panel) (rx : CanRxMessage) :
    (checkCanRxData p rx).isSome ↔
      isPacketExtended rx.standardId=true ∨ srv rx.standardId.toUInt16=srvHeartbeat ∨
        NoLowIndex rx.data := by
  unfold checkCanRxData
  dsimp only
  split_ifs with hext hsrv
  · exact iff_of_true rfl (Or.inl hext)
  · exact iff_of_true (heartbeat_isSome p _ _) (Or.inr (Or.inl hsrv))
  · rw [event_isSome_iff]
    exact ⟨fun h => Or.inr (Or.inr h),fun h => (h.resolve_left hext).resolve_left hsrv⟩

/-- A write of cluster register 0 sent with the address 0. -/
def lowRegister : CanRxMessage where
  standardId := 0x417
  dlc := 4
  data := fun i => [0x06,0x00,0x34,0x12].getD i 0

/-- The address 0 makes the index of the cluster register -17. -/
theorem lowRegister_out_of_bounds :
    clustRegAccesses lowRegister.data=
        [.store .plcClustRegs (-17) 0x1234,.store .clClusterRegs (-17) 0x1234] ∧
      checkCanRxData zeroPanel lowRegister=none := by
  refine ⟨rfl,?_⟩
  rw [←Option.not_isSome_iff_eq_none,checkCanRxData_isSome_iff]
  decide

end BT816Display.CanRx
