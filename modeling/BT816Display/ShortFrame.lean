import BT816Display.CanRx

/-!
# Frames with fewer bytes than their kind is decoded from

check_can_rx_data copies all eight bytes of a mailbox and keeps the length of
the frame without looking at it. Two frames that are the same as far as they
were received can differ in the rest of the mailbox.
-/

namespace BT816Display.ShortFrame

open ByteMemory BigEndian ArrayAccess PlcData CanRx

/-- The kinds of an event. -/
inductive Kind where
  /-- EOID 0x01. -/
  | diDo
  /-- EOID 0x03. -/
  | clustBits
  /-- EOID 0x05. -/
  | ain
  /-- EOID 0x06. -/
  | clustReg
  /-- EOID 0x0A. -/
  | ioTypes
  /-- EOID 0x0E. -/
  | netBits
  /-- EOID 0x0F. -/
  | netReg
  /-- EOID 0x1F. -/
  | status
  /-- Any other EOID. -/
  | unknown
deriving DecidableEq

/-- The kind of an EOID. -/
def kindOf : UInt8 → Kind
  | 0x01 => .diDo
  | 0x03 => .clustBits
  | 0x05 => .ain
  | 0x06 => .clustReg
  | 0x0A => .ioTypes
  | 0x0E => .netBits
  | 0x0F => .netReg
  | 0x1F => .status
  | _ => .unknown

/-- An analogue input has the address. -/
def IsAin (data : Mem UInt8) : Prop := getInternAddr data≥1 ∧ (getInternAddr data).toNat≤aiCnt

/-- Whether a frame is an analogue report can be decided. -/
instance (data : Mem UInt8) : Decidable (IsAin data) := inferInstanceAs (Decidable (_ ∧ _))

/-- The array accesses of an event. -/
def accessesOf (id : UInt16) (data : Mem UInt8) : Kind → List (Access Val)
  | .diDo => diDoAccesses data
  | .clustBits => clustBitsAccesses data
  | .ain => if IsAin data then ainAccesses data ((getInternAddr data).toNat-1) else []
  | .clustReg => clustRegAccesses data
  | .ioTypes => ioTypesAccesses data
  | .netBits => netBitsAccesses id data
  | .netReg => netRegAccesses id data
  | .status => []
  | .unknown => []

/-- What an event does besides. -/
def restOf (id : UInt16) (data : Mem UInt8) (p : Panel) : Kind → Panel
  | .ain =>
    if IsAin data then
      let internAddr := getInternAddr data
      let value : UInt8 := p.arrays .clAinValue (internAddr.toNat-1)
      let trends := TrendData.checkAndAddDataToTrendFromCan p.trends p.curLongTime (nodeAddr id)
        internAddr value
      {p with trends := trends}
    else p
  | .status =>
    if getInternAddr data=3 then
      {p with plcAppId := join16 (data 3) (data 2),clAppId := join16 (data 3) (data 2)}
    else if getInternAddr data=17 then
      {p with plcEthIpState := data 2,clEthipState := (data 2).toUInt16}
    else p
  | _ => p

/-- An event is its array accesses and the rest. -/
theorem event_eq (p : Panel) (id : UInt16) (data : Mem UInt8) :
    event p id data=(p.perform (accessesOf id data (kindOf (getEoid data)))).map fun p =>
      restOf id data p (kindOf (getEoid data)) := by
  have hnone : p.perform []=some p := p.perform_of_inBounds (List.forall_mem_nil _)
  have hsame (o : Option Panel) : o=o.map fun p => p := Option.map_id'.symm ▸ rfl
  unfold event
  dsimp only
  split
  next he => rw [he]; exact hsame _
  next he => rw [he]; exact hsame _
  next he =>
    rw [he]
    change _=Option.map (fun p => restOf id data p .ain) (p.perform (accessesOf id data .ain))
    unfold accessesOf restOf
    by_cases hain : IsAin data
    · rw [if_pos (show getInternAddr data≥1 ∧ (getInternAddr data).toNat≤aiCnt from hain)]
      simp only [if_pos hain]
    · rw [if_neg (show ¬(getInternAddr data≥1 ∧ (getInternAddr data).toNat≤aiCnt) from hain)]
      simp only [if_neg hain]
      rw [hnone]
      rfl
  next he => rw [he]; exact hsame _
  next he => rw [he]; exact hsame _
  next he => rw [he]; exact hsame _
  next he => rw [he]; exact hsame _
  next he =>
    rw [he]
    change _=Option.map (fun p => restOf id data p .status) (p.perform [])
    rw [hnone]
    unfold restOf
    dsimp only [Option.map_some]
    split_ifs <;> rfl
  next h1 h3 h5 h6 hA hE hF h1F =>
    have hkind : kindOf (getEoid data)=.unknown := by
      unfold kindOf
      split <;> first | contradiction | rfl
    rw [hkind]
    change _=Option.map (fun p => p) (p.perform [])
    rw [hnone]
    rfl

/-! ## Bytes that are decoded -/

/-- Some bit of a packed report is an input or an output. -/
def IsDiDo (data : Mem UInt8) : Prop :=
  ∃ i<8,(1≤(getInternAddr data).toNat+i ∧ (getInternAddr data).toNat+i≤diCnt) ∨
    (129≤(getInternAddr data).toNat+i ∧ (getInternAddr data).toNat+i<129+doCnt)

/-- Whether a frame is a digital report can be decided. -/
instance (data : Mem UInt8) : Decidable (IsDiDo data) :=
  inferInstanceAs (Decidable (∃ i<8,_))

/-- The bytes from the first on that the effect of an event depends on. -/
def bytesOf (id : UInt16) (data : Mem UInt8) : Kind → ℕ
  | .diDo => if IsDiDo data then 5 else 2
  | .clustBits => if (getInternAddr data).toNat<16+clustBitsCnt then 4 else 2
  | .ain => if IsAin data then 8 else 2
  | .clustReg => if (getInternAddr data).toNat<17+clusterRegsCnt then 4 else 2
  | .ioTypes => 5
  | .netBits => if (netAddr id data).toNat<netBitsCnt then 4 else 2
  | .netReg => if (netAddr id data).toNat<netRegsCnt then 4 else 2
  | .status =>
    if getInternAddr data=3 then 4
    else if getInternAddr data=17 then 3
    else 2
  | .unknown => 1

/-- The bytes that the effect of a frame depends on. -/
def bytesUsed (rx : CanRxMessage) : ℕ :=
  let id := rx.standardId.toUInt16
  if isPacketExtended rx.standardId then 0
  else if srv id=srvHeartbeat then 2
  else bytesOf id rx.data (kindOf (getEoid rx.data))

/-- A choice is at least a bound both its values are at least. -/
theorem le_ite_of {c : Prop} [Decidable c] {l m n : ℕ} (hm : l ≤ m) (hn : l≤n) :
    l ≤ if c then m else n := by
  split
  · exact hm
  · exact hn

/-- All kinds but an unknown one depend on the address byte. -/
theorem two_le_bytesOf (id : UInt16) (data : Mem UInt8) {k : Kind} (h : k≠.unknown) :
    2≤bytesOf id data k := by
  cases k with
  | unknown => exact absurd rfl h
  | ioTypes => exact Nat.le_add_right 2 3
  | status => exact le_ite_of (by decide) (le_ite_of (by decide) le_rfl)
  | diDo => exact le_ite_of (by decide) le_rfl
  | ain => exact le_ite_of (by decide) le_rfl
  | clustBits => exact le_ite_of (by decide) le_rfl
  | clustReg => exact le_ite_of (by decide) le_rfl
  | netBits => exact le_ite_of (by decide) le_rfl
  | netReg => exact le_ite_of (by decide) le_rfl

/-- All kinds depend on the byte that tells the kind. -/
theorem bytesOf_pos (id : UInt16) (data : Mem UInt8) (k : Kind) : 0<bytesOf id data k := by
  by_cases hk : k=.unknown
  · rw [hk]
    exact Nat.one_pos
  · exact Nat.lt_of_lt_of_le Nat.two_pos (two_le_bytesOf id data hk)

section Congr

variable {id : UInt16} {data data' : Mem UInt8}

/-- Packed states of no input or output do nothing. -/
theorem diDo_of_not (h : ¬IsDiDo data) : diDoAccesses data=[] := by
  refine List.flatMap_eq_nil_iff.mpr fun i hi => ?_
  have hi8 := List.mem_range.mp hi
  have hnot : ¬((1≤(getInternAddr data).toNat+i ∧ (getInternAddr data).toNat+i≤diCnt) ∨
      (129≤(getInternAddr data).toNat+i ∧ (getInternAddr data).toNat+i<129+doCnt)) :=
    fun hin => h ⟨i,hi8,hin⟩
  unfold diCnt doCnt at *
  dsimp only
  split_ifs with hmask hin hout
  · exact absurd (Or.inl (by omega)) hnot
  · exact absurd (Or.inr (by omega)) hnot
  · rfl
  · rfl

/-- Packed bits of no cluster bit do nothing. -/
theorem clustBits_of_not (h : ¬(getInternAddr data).toNat<16+clustBitsCnt) :
    clustBitsAccesses data=[] := by
  refine List.flatMap_eq_nil_iff.mpr fun i _ => if_neg ?_
  omega

/-- Packed bits of no net bit do nothing. -/
theorem netBits_of_not (h : ¬(netAddr id data).toNat<netBitsCnt) : netBitsAccesses id data=[] := by
  refine List.flatMap_eq_nil_iff.mpr fun i _ => if_neg ?_
  omega

/-- Packed states are those of the same inputs and outputs. -/
theorem diDo_congr (ha : getInternAddr data=getInternAddr data')
    (h : ∀ i<(if IsDiDo data then 5 else 2),data i=data' i) :
    diDoAccesses data=diDoAccesses data' := by
  by_cases hin : IsDiDo data
  · rw [if_pos hin] at h
    unfold diDoAccesses
    rw [ha,h 2 (by decide),h 3 (by decide),h 4 (by decide)]
  · have hin' : ¬IsDiDo data' := by
      unfold IsDiDo at hin ⊢
      rwa [←ha]
    exact (diDo_of_not hin).trans (diDo_of_not hin').symm

/-- Event 0x03 depends on the address and the bytes it uses. -/
theorem clustBits_congr (ha : getInternAddr data=getInternAddr data')
    (h : ∀ i<(if (getInternAddr data).toNat<16+clustBitsCnt then 4 else 2),data i=data' i) :
    clustBitsAccesses data=clustBitsAccesses data' := by
  by_cases hin : (getInternAddr data).toNat<16+clustBitsCnt
  · rw [if_pos hin] at h
    unfold clustBitsAccesses
    rw [ha,h 2 (by decide),h 3 (by decide)]
  · exact (clustBits_of_not hin).trans (clustBits_of_not (ha ▸ hin)).symm

/-- The value of an analogue input goes to its trends as well. -/
theorem ain_congr (ha : getInternAddr data=getInternAddr data')
    (h : ∀ i<(if IsAin data then 8 else 2),data i=data' i) :
    accessesOf id data .ain=accessesOf id data' .ain ∧
      ∀ p,restOf id data p .ain=restOf id data' p .ain := by
  have hiff : IsAin data ↔ IsAin data' := by
    unfold IsAin
    rw [ha]
  unfold accessesOf restOf
  by_cases hin : IsAin data
  · have hin' := hiff.mp hin
    rw [if_pos hin] at h
    unfold ainAccesses
    simp only [if_pos hin,if_pos hin',ha,h 2 (by decide),h 3 (by decide),h 4 (by decide),
      h 5 (by decide),h 6 (by decide),h 7 (by decide),implies_true,and_self]
  · have hin' : ¬IsAin data' := fun hain => hin (hiff.mpr hain)
    simp only [if_neg hin,if_neg hin',implies_true,and_self]

/-- Event 0x06 depends on the address and the bytes it uses. -/
theorem clustReg_congr (ha : getInternAddr data=getInternAddr data')
    (h : ∀ i<(if (getInternAddr data).toNat<17+clusterRegsCnt then 4 else 2),data i=data' i) :
    clustRegAccesses data=clustRegAccesses data' := by
  unfold clustRegAccesses
  rw [ha] at h ⊢
  by_cases hin : (getInternAddr data').toNat<17+clusterRegsCnt
  · rw [if_pos hin] at h
    rw [h 2 (by decide),h 3 (by decide)]
  · dsimp only
    rw [if_neg (by omega),if_neg (by omega)]

/-- The address of a network variable depends on that of the frame. -/
theorem netAddr_congr (ha : getInternAddr data=getInternAddr data') :
    netAddr id data=netAddr id data' := by
  unfold netAddr
  rw [ha]

/-- Event 0x0E depends on the address and the bytes it uses. -/
theorem netBits_congr (hn : netAddr id data=netAddr id data')
    (h : ∀ i<(if (netAddr id data).toNat<netBitsCnt then 4 else 2),data i=data' i) :
    netBitsAccesses id data=netBitsAccesses id data' := by
  by_cases hin : (netAddr id data).toNat<netBitsCnt
  · rw [if_pos hin] at h
    unfold netBitsAccesses
    rw [hn,h 2 (by decide),h 3 (by decide)]
  · exact (netBits_of_not hin).trans (netBits_of_not (hn ▸ hin)).symm

/-- Event 0x0F depends on the address and the bytes it uses. -/
theorem netReg_congr (hn : netAddr id data=netAddr id data')
    (h : ∀ i<(if (netAddr id data).toNat<netRegsCnt then 4 else 2),data i=data' i) :
    netRegAccesses id data=netRegAccesses id data' := by
  unfold netRegAccesses
  rw [hn] at h ⊢
  by_cases hin : (netAddr id data').toNat<netRegsCnt
  · rw [if_pos hin] at h
    rw [h 2 (by decide),h 3 (by decide)]
  · dsimp only
    rw [if_neg (by omega),if_neg (by omega)]

/-- A status event sets the application number, or the state of the network. -/
theorem status_congr (ha : getInternAddr data=getInternAddr data')
    (h : ∀ i<(if getInternAddr data=3 then 4 else if getInternAddr data=17 then 3 else 2),
      data i=data' i) (p : Panel) : restOf id data p .status=restOf id data' p .status := by
  unfold restOf
  rw [ha] at h ⊢
  by_cases h3 : getInternAddr data'=3
  · rw [if_pos h3] at h
    rw [if_pos h3,if_pos h3,h 2 (by decide),h 3 (by decide)]
  · rw [if_neg h3] at h
    rw [if_neg h3,if_neg h3]
    by_cases h17 : getInternAddr data'=17
    · rw [if_pos h17] at h
      rw [if_pos h17,if_pos h17,h 2 (by decide)]
    · rw [if_neg h17,if_neg h17]

/-- An event does the same for the same bytes as far as its effect depends on them. -/
theorem event_congr (k : Kind) (h : ∀ i<bytesOf id data k,data i=data' i) :
    accessesOf id data k=accessesOf id data' k ∧
      ∀ p,restOf id data p k=restOf id data' p k := by
  have haddr (hk : k≠.unknown) : getInternAddr data=getInternAddr data' :=
    h 1 (Nat.lt_of_lt_of_le Nat.one_lt_two (two_le_bytesOf id data hk))
  cases k with
  | unknown => exact ⟨rfl,fun _ => rfl⟩
  | diDo => exact ⟨diDo_congr (haddr nofun) h,fun _ => rfl⟩
  | clustBits => exact ⟨clustBits_congr (haddr nofun) h,fun _ => rfl⟩
  | ain => exact ain_congr (haddr nofun) h
  | clustReg => exact ⟨clustReg_congr (haddr nofun) h,fun _ => rfl⟩
  | ioTypes =>
    refine ⟨?_,fun _ => rfl⟩
    change ∀ i<5,_ at h
    unfold accessesOf ioTypesAccesses
    rw [h 2 (by decide),h 3 (by decide),h 4 (by decide)]
  | netBits => exact ⟨netBits_congr (netAddr_congr (haddr nofun)) h,fun _ => rfl⟩
  | netReg => exact ⟨netReg_congr (netAddr_congr (haddr nofun)) h,fun _ => rfl⟩
  | status => exact ⟨rfl,status_congr (haddr nofun) h⟩

end Congr

/-! ## The last of these bytes matters -/

/-- What an event leaves: the panel, or none behind a store out of bounds, and
the stores that are out of bounds. -/
def eventOutcome (p : Panel) (id : UInt16) (data : Mem UInt8) (k : Kind) :
    Option Panel×List (Access Val) :=
  ((p.perform (accessesOf id data k)).map fun p => restOf id data p k,
    (accessesOf id data k).filter fun a => ¬a.InBounds size)

/-- Accesses that write do not leave every panel as it is. -/
theorem exists_perform_ne {array : ArrayName} {index : ℤ} {value v v' : Val array}
    {accesses : List (Access Val)} (h : .store array index value∈accesses) (hv : v≠v') :
    ∃ p : Panel,p.perform accesses≠some p := by
  by_contra hall
  have hsame (p : Panel) : p.perform accesses=some p := not_not.mp (not_exists.mp hall p)
  have hfold (m : Arrays Val) : accesses.foldl perform m=m := by
    have hm := hsame {zeroPanel with arrays := m}
    have hin := (Panel.perform_isSome_iff _ accesses).mp (Option.isSome_of_mem hm)
    rw [Panel.perform_of_inBounds _ hin] at hm
    exact congrArg Panel.arrays (Option.some.inj hm)
  have hleft := foldl_of_stored h (zeroArrays.set array index.toNat v)
    (zeroArrays.set array index.toNat v')
  rw [hfold,hfold,Arrays.set_same,Arrays.set_same] at hleft
  exact hv hleft

/-- An event that writes to an array is not one without accesses. -/
theorem outcome_ne_of_stored {id : UInt16} {data data' : Mem UInt8} {k : Kind}
    (hrest : ∀ data p,restOf id data p k=p) (hnone : accessesOf id data k=[])
    {array : ArrayName} {index : ℤ} {value v v' : Val array}
    (h : .store array index value∈accessesOf id data' k) (hv : v≠v') :
    ∃ p,eventOutcome p id data k≠eventOutcome p id data' k := by
  obtain ⟨p,hp⟩ := exists_perform_ne h hv
  refine ⟨p,fun he => hp ?_⟩
  have hfst := congrArg Prod.fst he
  unfold eventOutcome at hfst
  simp only [hrest,hnone] at hfst
  rw [p.perform_of_inBounds (List.forall_mem_nil _)] at hfst
  simp only [Option.map_id_fun',id_eq] at hfst
  exact hfst.symm

section Last

variable (id : UInt16) {data : Mem UInt8}

/-- Another byte than the second leaves the address. -/
theorem internAddr_update {i : ℕ} (h : i≠1) (b : UInt8) :
    getInternAddr (Function.update data i b)=getInternAddr data :=
  Function.update_of_ne h.symm _ _

/-- Nor does it change the address of a network variable. -/
theorem netAddr_update {i : ℕ} (h : i≠1) (b : UInt8) :
    netAddr id (Function.update data i b)=netAddr id data := by
  unfold netAddr
  rw [internAddr_update h]

/-- No bit of an empty mask is set. -/
theorem bit_zero (i : ℕ) : bit (0 : UInt8).toNat i=false := Nat.zero_testBit i

/-- All bits of a full mask are set. -/
theorem bit_full : ∀ i<8,bit (0xFF : UInt8).toNat i=true := by decide

/-- The first byte of a half word counts. -/
theorem join16_ne (b : UInt8) : join16 0 b≠join16 1 b := by
  intro h
  have hn := congrArg UInt16.toNat h
  rw [join16_toNat,join16_toNat] at hn
  have h0 : (0 : UInt8).toNat=0 := rfl
  have h1 : (1 : UInt8).toNat=1 := rfl
  omega

/-- The mask of packed states. -/
theorem diDo_last (h : IsDiDo data) : ∃ a b p,
    eventOutcome p id (Function.update data 4 a) .diDo≠
      eventOutcome p id (Function.update data 4 b) .diDo := by
  refine ⟨0,0xFF,?_⟩
  have hnone : accessesOf id (Function.update data 4 0) .diDo=[] := by
    refine List.flatMap_eq_nil_iff.mpr fun i _ => ?_
    dsimp only
    rw [Function.update_self,bit_zero]
    rfl
  obtain ⟨i,hi,hin⟩ := h
  have hround : ∀ a∈dinAccesses ((getInternAddr data).toNat+i-1 : ℤ)
      (bit (data 3).toNat i) (bit (data 2).toNat i),
      1≤(getInternAddr data).toNat+i ∧ (getInternAddr data).toNat+i≤diCnt →
      a∈accessesOf id (Function.update data 4 0xFF) .diDo := by
    intro a ha hdin
    refine List.mem_flatMap.mpr ⟨i,List.mem_range.mpr hi,?_⟩
    dsimp only
    rw [Function.update_self,if_pos (bit_full i hi),internAddr_update (by decide),
      if_pos (by omega)]
    exact ha
  by_cases hdin : 1≤(getInternAddr data).toNat+i ∧ (getInternAddr data).toNat+i≤diCnt
  · have hmem := hround (.store .clDinUsed ((getInternAddr data).toNat+i-1) 1)
      (List.mem_cons_of_mem _ List.mem_cons_self) hdin
    exact outcome_ne_of_stored (fun _ _ => rfl) hnone hmem (by decide : (0 : UInt8)≠1)
  · have hdout := hin.resolve_left hdin
    have hmem (fault : Bool) (hf : bit (data 3).toNat i=fault) :
        .store .clDoutFault ((getInternAddr data).toNat+i-129) (if fault then 1 else 0)∈
          accessesOf id (Function.update data 4 0xFF) .diDo := by
      refine List.mem_flatMap.mpr ⟨i,List.mem_range.mpr hi,?_⟩
      dsimp only
      unfold diCnt doCnt at *
      rw [Function.update_self,if_pos (bit_full i hi),internAddr_update (by decide),
        if_neg (by omega),if_pos (by omega),Function.update_of_ne (by decide),hf]
      unfold doutAccesses
      cases fault with
      | false => exact List.mem_cons_self
      | true => exact List.mem_cons_of_mem _ List.mem_cons_self
    exact outcome_ne_of_stored (fun _ _ => rfl) hnone (hmem _ rfl) (by decide : (0 : UInt8)≠1)

/-- The mask of packed cluster bits. -/
theorem clustBits_last (h : (getInternAddr data).toNat<16+clustBitsCnt) : ∃ a b p,
    eventOutcome p id (Function.update data 3 a) .clustBits≠
      eventOutcome p id (Function.update data 3 b) .clustBits := by
  refine ⟨0,0xFF,?_⟩
  have hnone : accessesOf id (Function.update data 3 0) .clustBits=[] := by
    refine List.flatMap_eq_nil_iff.mpr fun i _ => ?_
    dsimp only
    rw [Function.update_self,bit_zero]
    exact ite_self _
  have hmem (state : Bool) (hs : bit (data 2).toNat 0=state) :
      .store .plcClustBits ((getInternAddr data).toNat+(0 : ℕ)-16 : ℤ) (if state then 1 else 0)∈
        accessesOf id (Function.update data 3 0xFF) .clustBits := by
    refine List.mem_flatMap.mpr ⟨0,List.mem_range.mpr (by decide),?_⟩
    dsimp only
    rw [Function.update_self,if_pos (bit_full 0 (by decide)),internAddr_update (by decide),
      if_pos (by omega),Function.update_of_ne (by decide),hs]
    cases state <;> exact List.mem_cons_self
  exact outcome_ne_of_stored (fun _ _ => rfl) hnone (hmem _ rfl) (by decide : (0 : UInt8)≠1)

/-- The mask of packed net bits. -/
theorem netBits_last (h : (netAddr id data).toNat<netBitsCnt) : ∃ a b p,
    eventOutcome p id (Function.update data 3 a) .netBits≠
      eventOutcome p id (Function.update data 3 b) .netBits := by
  refine ⟨0,0xFF,?_⟩
  have hnone : accessesOf id (Function.update data 3 0) .netBits=[] := by
    refine List.flatMap_eq_nil_iff.mpr fun i _ => ?_
    dsimp only
    rw [Function.update_self,bit_zero]
    exact ite_self _
  have hmem (state : Bool) (hs : bit (data 2).toNat 0=state) :
      .store .plcNetBits ((netAddr id data).toNat+(0 : ℕ) : ℤ) (if state then 1 else 0)∈
        accessesOf id (Function.update data 3 0xFF) .netBits := by
    refine List.mem_flatMap.mpr ⟨0,List.mem_range.mpr (by decide),?_⟩
    dsimp only
    rw [Function.update_self,if_pos (bit_full 0 (by decide)),netAddr_update id (by decide),
      if_pos (by omega),Function.update_of_ne (by decide),hs]
    cases state <;> exact List.mem_cons_self
  exact outcome_ne_of_stored (fun _ _ => rfl) hnone (hmem _ rfl) (by decide : (0 : UInt8)≠1)

/-- The byte that tells which inputs a report of types is about. -/
theorem ioTypes_last : ∃ a b p,
    eventOutcome p id (Function.update data 4 a) .ioTypes≠
      eventOutcome p id (Function.update data 4 b) .ioTypes := by
  refine ⟨2,0,?_⟩
  have hnone : accessesOf id (Function.update data 4 2) .ioTypes=[] := by
    unfold accessesOf ioTypesAccesses
    dsimp only
    rw [Function.update_self]
    rfl
  have hmem (used : Bool) (hu : bit (join16 (data 3) (data 2)).toNat 0=used) :
      .store .clAinUsed (0 : ℕ) (if used then 1 else 0)∈
        accessesOf id (Function.update data 4 0) .ioTypes := by
    unfold accessesOf ioTypesAccesses
    dsimp only
    rw [Function.update_self,if_pos rfl,Function.update_of_ne (by decide),
      Function.update_of_ne (by decide)]
    refine List.mem_flatMap.mpr ⟨0,List.mem_range.mpr (by decide),?_⟩
    rw [if_pos (by decide),hu]
    unfold aiTypeAccesses
    cases used <;> exact List.mem_cons_of_mem _ List.mem_cons_self
  exact outcome_ne_of_stored (fun _ _ => rfl) hnone (hmem _ rfl) (by decide : (0 : UInt8)≠1)

/-- Panels of events that are the same hold the same arrays. -/
theorem arrays_of_outcome_eq {p : Panel} {data data' : Mem UInt8} {k : Kind}
    (hrest : ∀ data p,(restOf id data p k).arrays=p.arrays)
    (hin : ∀ a∈accessesOf id data k,a.InBounds size)
    (hin' : ∀ a∈accessesOf id data' k,a.InBounds size)
    (h : eventOutcome p id data k=eventOutcome p id data' k) :
    (accessesOf id data k).foldl perform p.arrays=
      (accessesOf id data' k).foldl perform p.arrays := by
  have hfst := congrArg Prod.fst h
  unfold eventOutcome at hfst
  dsimp only at hfst
  rw [p.perform_of_inBounds hin,p.perform_of_inBounds hin'] at hfst
  have harrays := congrArg Panel.arrays (Option.some.inj hfst)
  rwa [hrest,hrest] at harrays

/-- Events that leave different words at a place of an array differ. -/
theorem outcome_ne_of_word {p : Panel} {data : UInt8 → Mem UInt8} {k : Kind}
    (hrest : ∀ data p,(restOf id data p k).arrays=p.arrays)
    (hin : ∀ b,∀ a∈accessesOf id (data b) k,a.InBounds size)
    {array : ArrayName} {i : ℕ} {word : UInt8 → Val array}
    (hword : ∀ b,(accessesOf id (data b) k).foldl perform p.arrays array i=word b)
    (hne : word 0≠word 1) : eventOutcome p id (data 0) k≠eventOutcome p id (data 1) k := by
  intro he
  have hfold := arrays_of_outcome_eq id hrest (hin 0) (hin 1) he
  have helem := congrFun (congrFun hfold array) i
  rw [hword,hword] at helem
  exact hne helem

/-- The upper byte of the raw value of an analogue input. -/
theorem ain_last (h : IsAin data) : ∃ a b p,
    eventOutcome p id (Function.update data 7 a) .ain≠
      eventOutcome p id (Function.update data 7 b) .ain := by
  refine ⟨0,1,zeroPanel,?_⟩
  have hain (b : UInt8) : IsAin (Function.update data 7 b) := by
    unfold IsAin at h ⊢
    rwa [internAddr_update (by decide)]
  have haccesses (b : UInt8) : accessesOf id (Function.update data 7 b) .ain=
      ainAccesses (Function.update data 7 b) ((getInternAddr data).toNat-1) := by
    unfold accessesOf
    dsimp only
    rw [if_pos (hain b),internAddr_update (by decide)]
  have h1 : 1≤(getInternAddr data).toNat := h.1
  have h14 : (getInternAddr data).toNat≤14 := h.2
  have hin (b : UInt8) : ∀ a∈accessesOf id (Function.update data 7 b) .ain,a.InBounds size := by
    rw [haccesses]
    exact ain_inBounds _ (by omega) (by omega)
  have hrest (data : Mem UInt8) (p : Panel) : (restOf id data p .ain).arrays=p.arrays := by
    unfold restOf
    dsimp only
    split <;> rfl
  have hraw (b : UInt8) (n : ℤ) (m : Arrays Val) :
      (ainAccesses (Function.update data 7 b) n).foldl perform m .plcAinRaw n.toNat=
        join16 b (data 6) := by
    unfold ainAccesses
    simp only [List.foldl_cons,List.foldl_nil,perform]
    rw [Arrays.set_of_array_ne _ (by decide),Arrays.set_of_array_ne _ (by decide),
      Arrays.set_of_array_ne _ (by decide),Arrays.set_of_array_ne _ (by decide),Arrays.set_same,
      Function.update_self,Function.update_of_ne (by decide)]
  have hword (b : UInt8) :
      (accessesOf id (Function.update data 7 b) .ain).foldl perform zeroPanel.arrays .plcAinRaw
        ((getInternAddr data).toNat-1 : ℤ).toNat=join16 b (data 6) := by
    rw [haccesses]
    exact hraw b _ zeroPanel.arrays
  exact outcome_ne_of_word id hrest hin hword (join16_ne (data 6))

/-- The upper byte of a cluster register. -/
theorem clustReg_last (h : (getInternAddr data).toNat<17+clusterRegsCnt) : ∃ a b p,
    eventOutcome p id (Function.update data 3 a) .clustReg≠
      eventOutcome p id (Function.update data 3 b) .clustReg := by
  refine ⟨0,1,zeroPanel,?_⟩
  have haccesses (b : UInt8) : accessesOf id (Function.update data 3 b) .clustReg=
      [.store .plcClustRegs ((getInternAddr data).toNat-17 : ℤ) (join16 b (data 2)),
        .store .clClusterRegs ((getInternAddr data).toNat-17 : ℤ) (join16 b (data 2))] := by
    unfold accessesOf clustRegAccesses
    dsimp only
    rw [internAddr_update (by decide),Function.update_self,Function.update_of_ne (by decide)]
    exact if_pos (by omega)
  by_cases hlow : 17≤(getInternAddr data).toNat
  · have hin (b : UInt8) :
        ∀ a∈accessesOf id (Function.update data 3 b) .clustReg,a.InBounds size :=
      (clustReg_inBounds_iff _).mpr (by rw [internAddr_update (by decide)]; exact hlow)
    have hreg (b : UInt8) (m : Arrays Val) :
        (accessesOf id (Function.update data 3 b) .clustReg).foldl perform m .plcClustRegs
          ((getInternAddr data).toNat-17 : ℤ).toNat=join16 b (data 2) := by
      rw [haccesses]
      simp only [List.foldl_cons,List.foldl_nil,perform]
      rw [Arrays.set_of_array_ne _ (by decide),Arrays.set_same]
    exact outcome_ne_of_word id (fun _ _ => rfl) hin (fun b => hreg b _) (join16_ne (data 2))
  · -- both stores are out of bounds, and their value is that of the stray bytes
    intro he
    have hsnd := congrArg Prod.snd he
    unfold eventOutcome at hsnd
    have hout (b : UInt8) : (accessesOf id (Function.update data 3 b) .clustReg).filter
        (fun a => ¬a.InBounds size)=accessesOf id (Function.update data 3 b) .clustReg := by
      refine List.filter_eq_self.mpr fun a ha => ?_
      have hneg : a.index<0 := by
        rw [haccesses] at ha
        rcases List.mem_pair.mp ha with rfl|rfl <;>
        · change ((getInternAddr data).toNat-17 : ℤ)<0
          omega
      exact decide_eq_true fun hb => absurd hb.1 (Int.not_le.mpr hneg)
    dsimp only at hsnd
    rw [hout,hout,haccesses,haccesses] at hsnd
    exact join16_ne _ (eq_of_heq (Access.store.inj (List.cons.inj hsnd).1).2.2)

/-- The upper byte of a net register. -/
theorem netReg_last (h : (netAddr id data).toNat<netRegsCnt) : ∃ a b p,
    eventOutcome p id (Function.update data 3 a) .netReg≠
      eventOutcome p id (Function.update data 3 b) .netReg := by
  refine ⟨0,1,zeroPanel,?_⟩
  have haccesses (b : UInt8) : accessesOf id (Function.update data 3 b) .netReg=
      [.store .plcNetRegs ((netAddr id data).toNat : ℤ) (join16 b (data 2)),
        .store .clNetRegs ((netAddr id data).toNat : ℤ) (join16 b (data 2))] := by
    unfold accessesOf netRegAccesses
    dsimp only
    rw [netAddr_update id (by decide),Function.update_self,Function.update_of_ne (by decide)]
    exact if_pos (by omega)
  have hin (b : UInt8) : ∀ a∈accessesOf id (Function.update data 3 b) .netReg,a.InBounds size :=
    netReg_inBounds id _
  have hreg (b : UInt8) (m : Arrays Val) :
      (accessesOf id (Function.update data 3 b) .netReg).foldl perform m .plcNetRegs
        ((netAddr id data).toNat : ℤ).toNat=join16 b (data 2) := by
    rw [haccesses]
    simp only [List.foldl_cons,List.foldl_nil,perform]
    rw [Arrays.set_of_array_ne _ (by decide),Arrays.set_same]
  exact outcome_ne_of_word id (fun _ _ => rfl) hin (fun b => hreg b _) (join16_ne (data 2))

/-- The panel behind a status event. -/
theorem statusOutcome_fst (p : Panel) (data : Mem UInt8) :
    (eventOutcome p id data .status).1=some (restOf id data p .status) := by
  unfold eventOutcome accessesOf
  dsimp only
  rw [p.perform_of_inBounds (List.forall_mem_nil _)]
  rfl

/-- The upper byte of the application number. -/
theorem appId_last (h : getInternAddr data=3) : ∃ a b p,
    eventOutcome p id (Function.update data 3 a) .status≠
      eventOutcome p id (Function.update data 3 b) .status := by
  refine ⟨0,1,zeroPanel,fun he => ?_⟩
  have hfst := congrArg Prod.fst he
  rw [statusOutcome_fst,statusOutcome_fst] at hfst
  have happ (b : UInt8) : (restOf id (Function.update data 3 b) zeroPanel .status).plcAppId=
      join16 b (data 2) := by
    unfold restOf
    dsimp only
    rw [if_pos (by rw [internAddr_update (by decide)]; exact h),Function.update_self,
      Function.update_of_ne (by decide)]
  have hids := congrArg Panel.plcAppId (Option.some.inj hfst)
  rw [happ,happ] at hids
  exact join16_ne _ hids

/-- The byte of the state of the network address. -/
theorem ethIp_last (h : getInternAddr data=17) : ∃ a b p,
    eventOutcome p id (Function.update data 2 a) .status≠
      eventOutcome p id (Function.update data 2 b) .status := by
  refine ⟨0,1,zeroPanel,fun he => ?_⟩
  have hfst := congrArg Prod.fst he
  rw [statusOutcome_fst,statusOutcome_fst] at hfst
  have hstate (b : UInt8) :
      (restOf id (Function.update data 2 b) zeroPanel .status).plcEthIpState=b := by
    unfold restOf
    dsimp only
    rw [if_neg (by rw [internAddr_update (by decide),h]; decide),
      if_pos (by rw [internAddr_update (by decide)]; exact h),Function.update_self]
  have hstates := congrArg Panel.plcEthIpState (Option.some.inj hfst)
  rw [hstate,hstate] at hstates
  exact absurd hstates (by decide)

/-- The last byte that an event beyond its address depends on makes a
difference. -/
theorem event_last {k : Kind} (h : 3≤bytesOf id data k) : ∃ a b p,
    eventOutcome p id (Function.update data (bytesOf id data k-1) a) k≠
      eventOutcome p id (Function.update data (bytesOf id data k-1) b) k := by
  have hshort {c : Prop} [Decidable c] {n : ℕ} (h : 3 ≤ if c then n else 2) : c := by
    by_contra hc
    rw [if_neg hc] at h
    exact absurd h (by decide)
  cases k with
  | unknown => exact absurd h (by change ¬3≤1; decide)
  | diDo =>
    have hin : IsDiDo data := hshort h
    have hlen : bytesOf id data .diDo=5 := if_pos hin
    rw [hlen]
    exact diDo_last id hin
  | clustBits =>
    have hin : (getInternAddr data).toNat<16+clustBitsCnt := hshort h
    have hlen : bytesOf id data .clustBits=4 := if_pos hin
    rw [hlen]
    exact clustBits_last id hin
  | ain =>
    have hin : IsAin data := hshort h
    have hlen : bytesOf id data .ain=8 := if_pos hin
    rw [hlen]
    exact ain_last id hin
  | clustReg =>
    have hin : (getInternAddr data).toNat<17+clusterRegsCnt := hshort h
    have hlen : bytesOf id data .clustReg=4 := if_pos hin
    rw [hlen]
    exact clustReg_last id hin
  | ioTypes => exact ioTypes_last id
  | netBits =>
    have hin : (netAddr id data).toNat<netBitsCnt := hshort h
    have hlen : bytesOf id data .netBits=4 := if_pos hin
    rw [hlen]
    exact netBits_last id hin
  | netReg =>
    have hin : (netAddr id data).toNat<netRegsCnt := hshort h
    have hlen : bytesOf id data .netReg=4 := if_pos hin
    rw [hlen]
    exact netReg_last id hin
  | status =>
    by_cases h3 : getInternAddr data=3
    · have hlen : bytesOf id data .status=4 := if_pos h3
      rw [hlen]
      exact appId_last id h3
    · have h17 : getInternAddr data=17 := by
        have hrest : 3 ≤ if getInternAddr data=17 then 3 else 2 := (if_neg h3).subst h
        exact hshort hrest
      have hlen : bytesOf id data .status=3 := (if_neg h3).trans (if_pos h17)
      rw [hlen]
      exact ethIp_last id h17

/-- The second byte is the address. -/
theorem internAddr_set (data : Mem UInt8) (x : UInt8) :
    getInternAddr (Function.update data 1 x)=x := by
  unfold getInternAddr
  rw [Function.update_self]

/-- Every known kind has addresses that make its effect depend on more than
the address. -/
theorem exists_address (data : Mem UInt8) {k : Kind} (h : k≠.unknown) :
    ∃ x,3≤bytesOf id (Function.update data 1 x) k := by
  have haddr (x : UInt8) : getInternAddr (Function.update data 1 x)=x := internAddr_set data x
  have hnet : netAddr id (Function.update data 1 (clustAddr id*16+1))=0 := by
    unfold netAddr
    rw [haddr]
    grind
  cases k with
  | unknown => exact absurd rfl h
  | diDo =>
    have hin : IsDiDo (Function.update data 1 1) := ⟨0,by decide,Or.inl (by rw [haddr]; decide)⟩
    refine ⟨1,?_⟩
    unfold bytesOf
    dsimp only
    rw [if_pos hin]
    decide
  | clustBits =>
    refine ⟨16,?_⟩
    unfold bytesOf
    dsimp only
    rw [haddr]
    decide
  | ain =>
    have hin : IsAin (Function.update data 1 1) := by
      unfold IsAin
      rw [haddr]
      decide
    refine ⟨1,?_⟩
    unfold bytesOf
    dsimp only
    rw [if_pos hin]
    decide
  | clustReg =>
    refine ⟨17,?_⟩
    unfold bytesOf
    dsimp only
    rw [haddr]
    decide
  | ioTypes => exact ⟨0,Nat.le_add_right 3 2⟩
  | netBits =>
    refine ⟨clustAddr id*16+1,?_⟩
    unfold bytesOf
    dsimp only
    rw [hnet]
    decide
  | netReg =>
    refine ⟨clustAddr id*16+1,?_⟩
    unfold bytesOf
    dsimp only
    rw [hnet]
    decide
  | status =>
    refine ⟨3,?_⟩
    unfold bytesOf
    dsimp only
    rw [haddr]
    decide

end Last

/-! ## Frames -/

/-- The stores of a frame that are out of bounds. -/
def strays (rx : CanRxMessage) : List (Access Val) :=
  let id := rx.standardId.toUInt16
  if isPacketExtended rx.standardId then []
  else if srv id=srvHeartbeat then []
  else (accessesOf id rx.data (kindOf (getEoid rx.data))).filter fun a => ¬a.InBounds size

/-- What a frame leaves: the panel, or none behind a store out of bounds, and
the stores that are out of bounds. -/
def outcome (p : Panel) (rx : CanRxMessage) : Option Panel×List (Access Val) :=
  (checkCanRxData p rx,strays rx)

/-- A frame is an event. -/
structure IsEvent (rx : CanRxMessage) : Prop where
  /-- No frame of a channel. -/
  channel : ¬isPacketExtended rx.standardId=true
  /-- No heartbeat. -/
  heartbeat : srv rx.standardId.toUInt16≠srvHeartbeat

/-- What the frame of an event leaves. -/
theorem IsEvent.outcome_eq {rx : CanRxMessage} (h : IsEvent rx) (p : Panel) :
    outcome p rx=eventOutcome p rx.standardId.toUInt16 rx.data (kindOf (getEoid rx.data)) := by
  unfold outcome checkCanRxData strays
  dsimp only
  rw [if_neg h.channel,if_neg h.heartbeat,if_neg h.channel,if_neg h.heartbeat,event_eq]
  rfl

/-- The bytes an event frame uses are those of its kind. -/
theorem IsEvent.bytesUsed_eq {rx : CanRxMessage} (h : IsEvent rx) :
    bytesUsed rx=bytesOf rx.standardId.toUInt16 rx.data (kindOf (getEoid rx.data)) := by
  unfold bytesUsed
  dsimp only
  rw [if_neg h.channel,if_neg h.heartbeat]

/-- A frame has no result exactly when some of its stores are out of bounds. -/
theorem strays_eq_nil_iff (p : Panel) (rx : CanRxMessage) :
    strays rx=[] ↔ (checkCanRxData p rx).isSome := by
  unfold strays checkCanRxData
  dsimp only
  split_ifs with hext hsrv
  · exact iff_of_true rfl rfl
  · exact iff_of_true rfl (heartbeat_isSome p _ _)
  · rw [event_eq,Option.isSome_map,Panel.perform_isSome_iff,List.filter_eq_nil_iff]
    refine forall₂_congr fun a _ => ?_
    rw [decide_eq_true_iff,not_not]

/-- Two frames are the same as far as they were received. -/
structure Agree (rx rx' : CanRxMessage) : Prop where
  /-- The same identifier. -/
  standardId : rx'.standardId=rx.standardId
  /-- The same length. -/
  dlc : rx'.dlc=rx.dlc
  /-- The same bytes up to the length. -/
  data : ∀ i < rx.dlc.toNat,rx'.data i=rx.data i

/-- The bytes of the mailbox behind the frame make no difference in any state. -/
def SameImage (rx : CanRxMessage) : Prop := ∀ rx',Agree rx rx' → ∀ p,outcome p rx=outcome p rx'

/-- What a heartbeat leaves in the cluster data tells its address byte. -/
theorem heartbeat_clHeartbeat (p : Panel) (id : UInt16) (internAddr : UInt8) :
    (heartbeat p id internAddr).map Panel.clHeartbeat=some internAddr.toUInt16 := by
  have hsome := heartbeat_isSome p id internAddr
  unfold heartbeat at hsome ⊢
  dsimp only at hsome ⊢
  rw [Option.isSome_map] at hsome
  obtain ⟨q,hq⟩ := Option.isSome_iff_exists.mp hsome
  rw [hq]
  rfl

/-- A frame that carries all bytes its effect depends on. -/
theorem sameImage_of_le {rx : CanRxMessage} (h : bytesUsed rx ≤ rx.dlc.toNat) : SameImage rx := by
  intro rx' hagree p
  obtain ⟨id,dlc,data'⟩ := rx'
  obtain ⟨hid,hdlc,hdata⟩ := hagree
  obtain ⟨id',dlc',data⟩ := rx
  dsimp only at h hid hdlc hdata
  subst hid hdlc
  by_cases hext : isPacketExtended id=true
  · unfold outcome checkCanRxData strays
    dsimp only
    rw [if_pos hext,if_pos hext,if_pos hext,if_pos hext]
  by_cases hsrv : srv id.toUInt16=srvHeartbeat
  · have haddr : getInternAddr data'=getInternAddr data := by
      refine hdata 1 ?_
      unfold bytesUsed at h
      dsimp only at h
      rw [if_neg hext,if_pos hsrv] at h
      omega
    unfold outcome checkCanRxData strays
    dsimp only
    rw [if_neg hext,if_pos hsrv,if_neg hext,if_pos hsrv,if_neg hext,if_pos hsrv,if_neg hext,
      if_pos hsrv,haddr]
  · have he : IsEvent ⟨id,dlc,data⟩ := ⟨hext,hsrv⟩
    have he' : IsEvent ⟨id,dlc,data'⟩ := ⟨hext,hsrv⟩
    rw [he.bytesUsed_eq] at h
    have hkind : kindOf (getEoid data')=kindOf (getEoid data) := by
      unfold getEoid
      rw [hdata 0 (Nat.lt_of_lt_of_le (bytesOf_pos _ _ _) h)]
    have hbytes : ∀ i<bytesOf id.toUInt16 data (kindOf (getEoid data)),data i=data' i :=
      fun i hi => (hdata i (Nat.lt_of_lt_of_le hi h)).symm
    obtain ⟨haccesses,hrest⟩ := event_congr _ hbytes
    rw [he.outcome_eq,he'.outcome_eq]
    dsimp only
    unfold eventOutcome
    rw [hkind,haccesses,funext hrest]

/-- Mailboxes that agree with an event as far as it was received and leave
different outcomes. -/
theorem not_sameImage_of_ne {rx : CanRxMessage} (he : IsEvent rx) {data data' : Mem UInt8}
    {k : Kind} (hdata : ∀ i < rx.dlc.toNat,data i=rx.data i)
    (hdata' : ∀ i < rx.dlc.toNat,data' i=rx.data i) (hkind : kindOf (getEoid data)=k)
    (hkind' : kindOf (getEoid data')=k) {p : Panel}
    (hne : eventOutcome p rx.standardId.toUInt16 data k≠
      eventOutcome p rx.standardId.toUInt16 data' k) : ¬SameImage rx := by
  intro hsame
  have hleft := hsame ⟨rx.standardId,rx.dlc,data⟩ ⟨rfl,rfl,hdata⟩ p
  have hright := hsame ⟨rx.standardId,rx.dlc,data'⟩ ⟨rfl,rfl,hdata'⟩ p
  have hd : IsEvent ⟨rx.standardId,rx.dlc,data⟩ := ⟨he.channel,he.heartbeat⟩
  have hd' : IsEvent ⟨rx.standardId,rx.dlc,data'⟩ := ⟨he.channel,he.heartbeat⟩
  rw [hd.outcome_eq] at hleft
  rw [hd'.outcome_eq] at hright
  dsimp only at hleft hright
  rw [hkind] at hleft
  rw [hkind'] at hright
  exact hne (hleft.symm.trans hright)

/-- A mailbox that agrees with an event as far as it was received, and in which
the effect depends on a byte behind. -/
theorem not_sameImage_of_longer {rx : CanRxMessage} (he : IsEvent rx) {data : Mem UInt8} {k : Kind}
    (hdata : ∀ i < rx.dlc.toNat,data i=rx.data i) (hkind : kindOf (getEoid data)=k)
    (h3 : 3≤bytesOf rx.standardId.toUInt16 data k)
    (h : rx.dlc.toNat<bytesOf rx.standardId.toUInt16 data k) : ¬SameImage rx := by
  obtain ⟨a,b,p,hne⟩ := event_last rx.standardId.toUInt16 h3
  have hagree (b : UInt8) : ∀ i < rx.dlc.toNat,
      Function.update data (bytesOf rx.standardId.toUInt16 data k-1) b i=rx.data i := by
    intro i hi
    rw [Function.update_of_ne (by omega)]
    exact hdata i hi
  have hkinds (b : UInt8) : kindOf (getEoid
      (Function.update data (bytesOf rx.standardId.toUInt16 data k-1) b))=k := by
    unfold getEoid at hkind ⊢
    rw [Function.update_of_ne (by omega)]
    exact hkind
  exact not_sameImage_of_ne he (hagree a) (hagree b) (hkinds a) (hkinds b) hne

/-- A heartbeat without its address byte. -/
theorem not_sameImage_of_heartbeat {rx : CanRxMessage} (hext : ¬isPacketExtended rx.standardId=true)
    (hsrv : srv rx.standardId.toUInt16=srvHeartbeat) (hlen : rx.dlc.toNat<2) : ¬SameImage rx := by
  intro hsame
  have hagree (b : UInt8) : Agree rx ⟨rx.standardId,rx.dlc,Function.update rx.data 1 b⟩ :=
    ⟨rfl,rfl,fun i hi => Function.update_of_ne (by omega) _ _⟩
  have hbeat (b : UInt8) : (checkCanRxData zeroPanel
      ⟨rx.standardId,rx.dlc,Function.update rx.data 1 b⟩).map Panel.clHeartbeat=
        some b.toUInt16 := by
    unfold checkCanRxData
    dsimp only
    rw [if_neg hext,if_pos hsrv,heartbeat_clHeartbeat]
    rw [internAddr_set]
  have heq := (hsame _ (hagree 0) zeroPanel).symm.trans (hsame _ (hagree 1) zeroPanel)
  have hbeats := congrArg (Option.map Panel.clHeartbeat) (congrArg Prod.fst heq)
  unfold outcome at hbeats
  dsimp only at hbeats
  rw [hbeat,hbeat] at hbeats
  exact absurd hbeats (by decide)

/-- A frame that ends before a byte its effect depends on. -/
theorem not_sameImage_of_lt {rx : CanRxMessage} (h : rx.dlc.toNat<bytesUsed rx) :
    ¬SameImage rx := by
  by_cases hext : isPacketExtended rx.standardId=true
  · unfold bytesUsed at h
    dsimp only at h
    rw [if_pos hext] at h
    exact absurd h (Nat.not_lt_zero _)
  by_cases hsrv : srv rx.standardId.toUInt16=srvHeartbeat
  · unfold bytesUsed at h
    dsimp only at h
    rw [if_neg hext,if_pos hsrv] at h
    exact not_sameImage_of_heartbeat hext hsrv h
  have he : IsEvent rx := ⟨hext,hsrv⟩
  rw [he.bytesUsed_eq] at h
  by_cases hlen : 2 ≤ rx.dlc.toNat
  · exact not_sameImage_of_longer he (fun _ _ => rfl) rfl (by omega) h
  by_cases hempty : rx.dlc.toNat=0
  · -- nothing was received, so that the mailbox may hold any event
    have hdata : ∀ i < rx.dlc.toNat,
        Function.update (Function.update rx.data 0 0x1F) 1 3 i=rx.data i :=
      fun i hi => absurd hi (by omega)
    have hlong : bytesOf rx.standardId.toUInt16
        (Function.update (Function.update rx.data 0 0x1F) 1 3) .status=4 := by
      unfold bytesOf
      dsimp only
      rw [internAddr_set]
      decide
    have hkind : kindOf (getEoid (Function.update (Function.update rx.data 0 0x1F) 1 3))=
        .status := by
      unfold getEoid
      rw [Function.update_of_ne (by decide),Function.update_self]
      rfl
    exact not_sameImage_of_longer he hdata hkind (by omega) (by omega)
  · -- the kind was received, and the mailbox may hold any address
    have hknown : kindOf (getEoid rx.data)≠.unknown := by
      intro hk
      rw [hk] at h
      change rx.dlc.toNat<1 at h
      omega
    obtain ⟨x,hx⟩ := exists_address rx.standardId.toUInt16 rx.data hknown
    have hdata : ∀ i < rx.dlc.toNat,Function.update rx.data 1 x i=rx.data i :=
      fun i hi => Function.update_of_ne (by omega) _ _
    have hkind : kindOf (getEoid (Function.update rx.data 1 x))=kindOf (getEoid rx.data) := by
      unfold getEoid
      rw [Function.update_of_ne (by decide)]
    exact not_sameImage_of_longer he hdata hkind hx (by omega)

/-- The bytes of the mailbox behind a frame make no difference exactly when
the frame carries every byte its effect depends on. -/
theorem sameImage_iff (rx : CanRxMessage) : SameImage rx ↔ bytesUsed rx ≤ rx.dlc.toNat :=
  ⟨fun h => not_lt.mp fun hlt => not_sameImage_of_lt hlt h,sameImage_of_le⟩

/-- The first net register of cluster 0 in a frame of two bytes, with the value
in the mailbox behind it. -/
def twoBytes (low high : UInt8) : CanRxMessage where
  standardId := 0x12
  dlc := 2
  data := fun i => [0x0F,0x01,low,high].getD i 0

/-- Two frames that are received the same write different values. -/
theorem twoBytes_differ :
    Agree (twoBytes 0 0) (twoBytes 0x34 0x12) ∧
      (checkCanRxData zeroPanel (twoBytes 0 0)).map (fun p => p.arrays .plcNetRegs 0)=some 0 ∧
      (checkCanRxData zeroPanel (twoBytes 0x34 0x12)).map (fun p => p.arrays .plcNetRegs 0)=
        some 0x1234 := by
  refine ⟨⟨rfl,rfl,fun i hi => ?_⟩,by decide +kernel,by decide +kernel⟩
  match i,hi with
  | 0,_ => rfl
  | 1,_ => rfl

end BT816Display.ShortFrame
