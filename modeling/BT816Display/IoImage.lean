import BT816Display.Lib.Runs
import BT816Display.PlcMirror

/-!
# The two images of the inputs and outputs

The states and uses of the inputs and outputs are kept in plc_data.c and in
the cluster structure. The reset clears the values of the analogue inputs in
place of their raw data and leaves the faults, and the message of the analogue
inputs in use stores to the types of the digital ones.
-/

namespace BT816Display.IoImage

open ByteMemory BigEndian ArrayAccess PlcData CanTxStack CanCmd CanRx PanelRun PlcMirror Runs

/-- The state of a digital input for its flags in the cluster structure. -/
def diStateOf (fault state : UInt8) : DiState :=
  if fault≠0 then .fault else if state≠0 then .on else .off

/-- The state of a digital output for its flags in the cluster structure. -/
def doStateOf (fault state : UInt8) : DoState :=
  if fault≠0 then .fault else if state≠0 then .on else .off

/-- The images agree on inputs `i`. -/
structure InAt (m : Arrays Val) (i : ℕ) : Prop where
  /-- Raw data of the analogue input. -/
  ainRaw : (m .plcAinRaw i : UInt16)=m .clAinRaw i
  /-- Use of the digital input. -/
  diType : (m .plcDiType i : DiType)=.used ↔ (m .clDinUsed i : UInt8)≠0
  /-- Use of the analogue input. -/
  aiType : (m .plcAiType i : AiType)≠.unused ↔ (m .clAinUsed i : UInt8)≠0
  /-- State of the digital input. -/
  diState : (m .plcDiState i : DiState)=diStateOf (m .clDinFault i) (m .clDinState i)

/-- The images agree on output `i`. -/
def OutAt (m : Arrays Val) (i : ℕ) : Prop :=
  (m .plcDoState i : DoState)=doStateOf (m .clDoutFault i) (m .clDoutState i)

/-- The images agree on all inputs and outputs. -/
structure Image (m : Arrays Val) : Prop where
  /-- The inputs. -/
  inputs : ∀ i<diCnt,InAt m i
  /-- The outputs. -/
  outputs : ∀ i<doCnt,OutAt m i

/-- The arrays of the inputs and outputs in both images. -/
def ioNames : List ArrayName :=
  [.plcAinRaw,.clAinRaw,.plcDiType,.clDinUsed,.plcAiType,.clAinUsed,.plcDiState,.clDinFault,
    .clDinState,.plcDoState,.clDoutFault,.clDoutState]

/-- The arrays of the inputs. -/
def inNames : List ArrayName :=
  [.plcAinRaw,.clAinRaw,.plcDiType,.clDinUsed,.plcAiType,.clAinUsed,.plcDiState,.clDinFault,
    .clDinState]

/-- The arrays of the outputs. -/
def outNames : List ArrayName := [.plcDoState,.clDoutFault,.clDoutState]

theorem mem_ioNames {array : ArrayName} : array∈ioNames ↔ array∈inNames ∨ array∈outNames :=
  List.mem_append (s:=inNames)

theorem inAt_congr {m m' : Arrays Val} {i : ℕ} (h : ∀ array∈inNames,m' array i=m array i) :
    InAt m' i ↔ InAt m i := by
  simp only [inNames,List.forall_mem_cons] at h
  obtain ⟨h1,h2,h3,h4,h5,h6,h7,h8,h9,-⟩ := h
  constructor
  · rintro ⟨a,b,c,d⟩
    rw [h1,h2] at a
    rw [h3,h4] at b
    rw [h5,h6] at c
    rw [h7,h8,h9] at d
    exact ⟨a,b,c,d⟩
  · rintro ⟨a,b,c,d⟩
    rw [←h1,←h2] at a
    rw [←h3,←h4] at b
    rw [←h5,←h6] at c
    rw [←h7,←h8,←h9] at d
    exact ⟨a,b,c,d⟩

theorem outAt_congr {m m' : Arrays Val} {i : ℕ} (h : ∀ array∈outNames,m' array i=m array i) :
    OutAt m' i ↔ OutAt m i := by
  simp only [outNames,List.forall_mem_cons] at h
  obtain ⟨h1,h2,h3,-⟩ := h
  unfold OutAt
  rw [h1,h2,h3]

/-- Arrays with the same inputs and outputs. -/
theorem image_congr {m m' : Arrays Val} (h : ∀ array∈ioNames,m' array=m array) :
    Image m' ↔ Image m := by
  have hin (i : ℕ) : InAt m' i ↔ InAt m i :=
    inAt_congr fun array ha => by rw [h array (mem_ioNames.mpr (Or.inl ha))]
  have hout (i : ℕ) : OutAt m' i ↔ OutAt m i :=
    outAt_congr fun array ha => by rw [h array (mem_ioNames.mpr (Or.inr ha))]
  exact ⟨fun hm => ⟨fun i hi => (hin i).mp (hm.inputs i hi),
      fun i hi => (hout i).mp (hm.outputs i hi)⟩,
    fun hm => ⟨fun i hi => (hin i).mpr (hm.inputs i hi),
      fun i hi => (hout i).mpr (hm.outputs i hi)⟩⟩

/-! ## Messages that keep the images in agreement -/

/-- Accesses to other arrays. -/
theorem image_keeps_other {accesses : List (Access Val)} (h : ∀ a∈accesses,a.array∉ioNames) :
    Keeps Image accesses := by
  intro m hm
  refine (image_congr fun array ha => funext fun i => ?_).mpr hm
  exact foldl_of_not_stored (fun a ha' he => absurd (he ▸ ha) (h a ha')) m

theorem din_keeps (n : ℤ) (fault state : Bool) : Keeps Image (dinAccesses n fault state) := by
  intro m hm
  constructor
  · intro i hi
    obtain ⟨h1,h2,h3,h4⟩ := hm.inputs i hi
    by_cases he : i=n.toNat
    · constructor <;> cases fault <;> cases state <;>
        simp [dinAccesses,perform,Arrays.set_of_array_ne,diStateOf,he] <;> grind
    · constructor <;> cases fault <;> cases state <;>
        simp [dinAccesses,perform,Arrays.set_apply,Arrays.set_of_array_ne,he,h1,h2,h3,h4]
  · intro i hi
    have h := hm.outputs i hi
    unfold OutAt at h ⊢
    cases fault <;> cases state <;>
      simp [dinAccesses,perform,Arrays.set_of_array_ne,h]

theorem dout_keeps (n : ℤ) (fault state : Bool) : Keeps Image (doutAccesses n fault state) := by
  intro m hm
  constructor
  · intro i hi
    obtain ⟨h1,h2,h3,h4⟩ := hm.inputs i hi
    constructor <;> cases fault <;> cases state <;>
      simp [doutAccesses,perform,Arrays.set_of_array_ne,h1,h2,h3,h4]
  · intro i hi
    have h := hm.outputs i hi
    unfold OutAt at h ⊢
    by_cases he : i=n.toNat
    · cases fault <;> cases state <;>
        simp [doutAccesses,perform,Arrays.set_of_array_ne,doStateOf,he]
    · cases fault <;> cases state <;>
        simp [doutAccesses,perform,Arrays.set_apply,Arrays.set_of_array_ne,he,h]

/-- Packed states change both images. -/
theorem diDo_keeps (data : Mem UInt8) : Keeps Image (diDoAccesses data) := by
  refine keeps_rounds fun i _ => ?_
  dsimp only
  split_ifs
  · exact din_keeps _ _ _
  · exact dout_keeps _ _ _
  · exact keeps_nil
  · exact keeps_nil

/-- The raw data of an analogue input changes both images. -/
theorem ain_keeps (data : Mem UInt8) (n : ℤ) : Keeps Image (ainAccesses data n) := by
  intro m hm
  constructor
  · intro i hi
    obtain ⟨h1,h2,h3,h4⟩ := hm.inputs i hi
    constructor <;>
      simp [ainAccesses,perform,Arrays.set_apply,Arrays.set_of_array_ne,h1,h2,h3,h4]
  · intro i hi
    have h := hm.outputs i hi
    unfold OutAt at h ⊢
    simp [ainAccesses,perform,Arrays.set_of_array_ne,h]

/-- The use of a digital input changes both images. -/
theorem diType_keeps (n : ℤ) (used : Bool) : Keeps Image (diTypeAccesses n used) := by
  intro m hm
  constructor
  · intro i hi
    obtain ⟨h1,h2,h3,h4⟩ := hm.inputs i hi
    by_cases he : i=n.toNat
    · constructor <;> cases used <;>
        simp [diTypeAccesses,perform,Arrays.set_of_array_ne,he] <;> grind
    · constructor <;> cases used <;>
        simp [diTypeAccesses,perform,Arrays.set_apply,Arrays.set_of_array_ne,he,h1,h2,h3,h4]
  · intro i hi
    have h := hm.outputs i hi
    unfold OutAt at h ⊢
    cases used <;> simp [diTypeAccesses,perform,Arrays.set_of_array_ne,h]

/-! ## The analogue inputs in use -/

/-- The message that tells which analogue inputs are in use. -/
def IsAiTypes (data : Mem UInt8) : Prop := getEoid data=0x0A ∧ data 4=0

/-- The analogue inputs in use. -/
def aiMask (data : Mem UInt8) : ℕ := (join16 (data 3) (data 2)).toNat

/-- Every other event keeps the images in agreement. -/
theorem event_keeps {data : Mem UInt8} (h : ¬IsAiTypes data) (id : UInt16) :
    Keeps Image (eventAccesses id data) := by
  unfold eventAccesses
  split
  next => exact diDo_keeps data
  next => exact image_keeps_other (not_mem_of_names (clustBits_names data) (by decide))
  next =>
    split_ifs
    · exact ain_keeps data _
    · exact keeps_nil
  next => exact image_keeps_other (not_mem_of_names (clustReg_names data) (by decide))
  next he =>
    unfold ioTypesAccesses
    dsimp only
    split_ifs with h0 h1
    · exact absurd ⟨he,h0⟩ h
    · refine keeps_rounds fun i _ => ?_
      split_ifs
      · exact diType_keeps _ _
      · exact keeps_nil
    · exact keeps_nil
  next => exact image_keeps_other (not_mem_of_names (netBits_names id data) (by decide))
  next => exact image_keeps_other (not_mem_of_names (netReg_names id data) (by decide))
  next => exact keeps_nil

/-- No digital or analogue input that the message says is unused was in use. -/
def NoneDropped (m : Arrays Val) (data : Mem UInt8) : Prop :=
  ∀ i<aiCnt,bit (aiMask data) i=false →
    (m .clAinUsed i : UInt8)=0 ∧ (m .clDinUsed i : UInt8)=0

/-- What the message does to inputs `i`. -/
theorem aiTypes_apply (m : Arrays Val) {data : Mem UInt8} (h : IsAiTypes data) (id : UInt16)
    (array : ArrayName) {i : ℕ} (hi : i<aiCnt) :
    (eventAccesses id data).foldl perform m array i=
      (aiTypeAccesses i (bit (aiMask data) i)).foldl perform m array i := by
  obtain ⟨he,h0⟩ := h
  have hown : ∀ k<16,∀ a∈(if k<aiCnt then aiTypeAccesses k (bit (aiMask data) k) else []),
      a.index.toNat=k := by
    intro k _
    split_ifs
    · cases bit (aiMask data) k <;> simp [aiTypeAccesses,Access.index]
    · exact List.forall_mem_nil _
  unfold eventAccesses ioTypesAccesses
  rw [he]
  dsimp only
  rw [if_pos h0]
  refine (foldl_rounds hown m array i).trans ?_
  rw [if_pos (by dsimp only [aiCnt] at hi; omega),if_pos hi]

/-- The images agree on inputs `i` after the message exactly when it does not drop them. -/
theorem aiTypes_inAt_iff {m : Arrays Val} {i : ℕ} (hm : InAt m i) (used : Bool) :
    InAt ((aiTypeAccesses i used).foldl perform m) i ↔
      (used=false → (m .clAinUsed i : UInt8)=0 ∧ (m .clDinUsed i : UInt8)=0) := by
  obtain ⟨h1,h2,h3,h4⟩ := hm
  cases used with
  | true =>
    refine iff_of_true ?_ nofun
    constructor <;> simp [aiTypeAccesses,perform,Arrays.set_of_array_ne,h1,h2,h4]
  | false =>
    constructor
    · rintro ⟨-,hdi,hai,-⟩ -
      have hdin : (m .clDinUsed i : UInt8)=0 := by
        simpa [aiTypeAccesses,perform,Arrays.set_of_array_ne] using hdi
      have hunused : (m .plcAiType i : AiType)=.unused := by
        simpa [aiTypeAccesses,perform,Arrays.set_of_array_ne] using hai
      exact ⟨not_not.mp fun hne => h3.mpr hne hunused,hdin⟩
    · intro hnone
      obtain ⟨hain,hdin⟩ := hnone rfl
      have hunused : (m .plcAiType i : AiType)=.unused :=
        not_not.mp fun hne => h3.mp hne hain
      constructor <;>
        simp [aiTypeAccesses,perform,Arrays.set_of_array_ne,h1,hdin,hunused,h4]

/-- The message leaves output `i` alone. -/
theorem aiTypes_outAt_iff (m : Arrays Val) (i : ℕ) (used : Bool) :
    OutAt ((aiTypeAccesses i used).foldl perform m) i ↔ OutAt m i := by
  unfold OutAt
  cases used <;> simp [aiTypeAccesses,perform,Arrays.set_of_array_ne]

/-- The message keeps the images in agreement exactly when it drops no input. -/
theorem aiTypes_image_iff {m : Arrays Val} (hm : Image m) {data : Mem UInt8}
    (h : IsAiTypes data) (id : UInt16) :
    Image ((eventAccesses id data).foldl perform m) ↔ NoneDropped m data := by
  have happly := aiTypes_apply m h id
  have hin {i : ℕ} (hi : i<aiCnt) : InAt ((eventAccesses id data).foldl perform m) i ↔
      (bit (aiMask data) i=false → (m .clAinUsed i : UInt8)=0 ∧ (m .clDinUsed i : UInt8)=0) :=
    (inAt_congr fun array _ => happly array hi).trans (aiTypes_inAt_iff (hm.inputs i hi) _)
  have hout {i : ℕ} (hi : i<doCnt) : OutAt ((eventAccesses id data).foldl perform m) i := by
    have hlt : i<aiCnt := by dsimp only [doCnt,aiCnt] at hi ⊢; omega
    rw [outAt_congr fun array _ => happly array hlt,aiTypes_outAt_iff]
    exact hm.outputs i hi
  exact ⟨fun hafter i hi => (hin hi).mp (hafter.inputs i hi),
    fun hnone => ⟨fun i hi => (hin hi).mpr (hnone i hi),fun i hi => hout hi⟩⟩

/-! ## The reset -/

/-- The stores of reset_plc_data to inputs `i`. -/
def resetInput (i : ℕ) : List (Access Val) :=
  [.store .plcDiState i .off,.store .plcAinRaw i 0,.store .clDinState i 0,.store .clAinValue i 0]

/-- The stores of reset_plc_data to output `i`. -/
def resetOutput (i : ℕ) : List (Access Val) := [.store .clDoutState i 0,.store .plcDoState i .off]

/-- The other stores of reset_plc_data are to the variables. -/
theorem resetAccesses_split : ∃ vars,(∀ a∈vars,a.array∉ioNames) ∧
    resetAccesses=loop diCnt resetInput++(loop doCnt resetOutput++vars) := by
  unfold resetAccesses
  refine ⟨_,?_,rfl⟩
  simp only [List.flatten_cons,List.flatten_nil,List.append_nil,List.forall_mem_append,
    forall_mem_loop]
  simp [Access.array,ioNames]

/-- What the reset does to an element of the images. -/
theorem reset_apply (m : Arrays Val) {array : ArrayName} (h : array∈ioNames) (i : ℕ) :
    resetAccesses.foldl perform m array i=
      if i<doCnt then (resetOutput i).foldl perform ((loop diCnt resetInput).foldl perform m) array i
      else if i<diCnt then (resetInput i).foldl perform m array i else m array i := by
  obtain ⟨vars,hvars,he⟩ := resetAccesses_split
  have hin : ∀ k<diCnt,∀ a∈resetInput k,a.index.toNat=k := by
    intro k _
    simp [resetInput,Access.index]
  have hout : ∀ k<doCnt,∀ a∈resetOutput k,a.index.toNat=k := by
    intro k _
    simp [resetOutput,Access.index]
  rw [he,List.foldl_append,List.foldl_append,
    foldl_of_not_stored fun a ha he => absurd (he ▸ h) (hvars a ha),foldl_rounds hout]
  by_cases hi : i<doCnt
  · rw [if_pos hi,if_pos hi]
  · rw [if_neg hi,if_neg hi,foldl_rounds hin]

/-- Inputs after the reset. -/
theorem reset_input (m : Arrays Val) {i : ℕ} (hi : i<diCnt) {array : ArrayName}
    (h : array∈inNames) :
    resetAccesses.foldl perform m array i=(resetInput i).foldl perform m array i := by
  have hin : ∀ k<diCnt,∀ a∈resetInput k,a.index.toNat=k := by
    intro k _
    simp [resetInput,Access.index]
  have hother : ∀ a∈resetOutput i,a.array≠array := by
    have hs : ArrayName.clDoutState∉inNames := by decide
    have hd : ArrayName.plcDoState∉inNames := by decide
    simp only [resetOutput,List.forall_mem_cons,Access.array]
    exact ⟨fun he => hs (he ▸ h),fun he => hd (he ▸ h),List.forall_mem_nil _⟩
  rw [reset_apply m (mem_ioNames.mpr (Or.inl h))]
  by_cases ho : i<doCnt
  · rw [if_pos ho,foldl_of_not_stored fun a ha he => absurd he (hother a ha),foldl_rounds hin,
      if_pos hi]
  · rw [if_neg ho,if_pos hi]

/-- Outputs after the reset. -/
theorem reset_output (m : Arrays Val) {i : ℕ} (hi : i<doCnt) {array : ArrayName}
    (h : array∈outNames) :
    resetAccesses.foldl perform m array i=(resetOutput i).foldl perform m array i := by
  have hother : ∀ a∈loop diCnt resetInput,a.array≠array := by
    refine forall_mem_loop.mpr fun k _ => ?_
    have hnot : array∉[ArrayName.plcDiState,.plcAinRaw,.clDinState,.clAinValue] := by
      revert array
      decide
    simpa [resetInput,Access.array,eq_comm] using hnot
  rw [reset_apply m (mem_ioNames.mpr (Or.inr h)),if_pos hi]
  exact foldl_congr (foldl_of_not_stored (fun a ha he => absurd he (hother a ha)) m) _

/-- Nothing that the reset leaves in only one of the images: no raw data of an
analogue input and no fault. -/
structure Quiet (m : Arrays Val) : Prop where
  /-- The inputs. -/
  inputs : ∀ i<diCnt,(m .clAinRaw i : UInt16)=0 ∧ (m .clDinFault i : UInt8)=0
  /-- The outputs. -/
  outputs : ∀ i<doCnt,(m .clDoutFault i : UInt8)=0

/-- The images agree on an output after the reset exactly when it has no fault. -/
theorem reset_outAt_iff (m : Arrays Val) {i : ℕ} (hi : i<doCnt) :
    OutAt (resetAccesses.foldl perform m) i ↔ (m .clDoutFault i : UInt8)=0 := by
  rw [outAt_congr fun array h => reset_output m hi h]
  simp [OutAt,resetOutput,perform,Arrays.set_of_array_ne,doStateOf]

/-- The images agree on the inputs after the reset exactly when nothing is left. -/
theorem reset_inAt_iff {m : Arrays Val} {i : ℕ} (hi : i<diCnt) (hm : InAt m i) :
    InAt (resetAccesses.foldl perform m) i ↔
      (m .clAinRaw i : UInt16)=0 ∧ (m .clDinFault i : UInt8)=0 := by
  obtain ⟨-,h2,h3,-⟩ := hm
  rw [inAt_congr fun array h => reset_input m hi h]
  constructor
  · rintro ⟨hraw,-,-,hstate⟩
    have hzero : 0=(m .clAinRaw i : UInt16) := by
      simpa [resetInput,perform,Arrays.set_of_array_ne] using hraw
    have hfault : (m .clDinFault i : UInt8)=0 := by
      simpa [resetInput,perform,Arrays.set_of_array_ne,diStateOf] using hstate
    exact ⟨hzero.symm,hfault⟩
  · rintro ⟨hraw,hfault⟩
    constructor <;>
      simp [resetInput,perform,Arrays.set_of_array_ne,diStateOf,hraw,hfault,h2,h3]

/-- The reset keeps the images in agreement exactly when nothing is left. -/
theorem reset_image_iff {m : Arrays Val} (hm : Image m) :
    Image (resetAccesses.foldl perform m) ↔ Quiet m :=
  ⟨fun h => ⟨fun i hi => (reset_inAt_iff hi (hm.inputs i hi)).mp (h.inputs i hi),
      fun i hi => (reset_outAt_iff m hi).mp (h.outputs i hi)⟩,
    fun h => ⟨fun i hi => (reset_inAt_iff hi (hm.inputs i hi)).mpr (h.inputs i hi),
      fun i hi => (reset_outAt_iff m hi).mpr (h.outputs i hi)⟩⟩

/-! ## The initialisation -/

/-- The stores of init_cluster to inputs `i`. -/
def clusterInput (i : ℕ) : List (Access Val) :=
  [.store .clAinUsed i 0,.store .clAinFault i 0,.store .clAinRaw i 0,.store .clAinTdu i 0,
    .store .clAinValue i 0,.store .clDinUsed i 0,.store .clDinFault i 0,.store .clDinState i 0]

/-- The other stores of init_cluster are to the variables. -/
theorem clusterAccesses_split : ∃ vars,(∀ a∈vars,a.array∉ioNames) ∧
    clusterAccesses=vars++loop diCnt clusterInput := by
  unfold clusterAccesses
  refine ⟨List.flatten [loop clustBitsCnt (fun i => [.store .clClusterBits i 0]),
    loop netBitsCnt (fun i => [.store .clNetBits i 0]),
    loop clusterRegsCnt (fun i => [.store .clClusterRegs i 0]),
    loop netRegsCnt (fun i => [.store .clNetRegs i 0])],?_,?_⟩
  · simp only [List.flatten_cons,List.flatten_nil,List.append_nil,List.forall_mem_append,
      forall_mem_loop]
    simp [Access.array,ioNames]
  · simp only [List.flatten_cons,List.flatten_nil,List.append_nil,List.append_assoc]
    rfl

/-- What init_cluster does to inputs `i`. -/
theorem cluster_apply (m : Arrays Val) {array : ArrayName} (h : array∈ioNames) {i : ℕ}
    (hi : i<diCnt) : clusterAccesses.foldl perform m array i=
      (clusterInput i).foldl perform m array i := by
  obtain ⟨vars,hvars,he⟩ := clusterAccesses_split
  have hin : ∀ k<diCnt,∀ a∈clusterInput k,a.index.toNat=k := by
    intro k _
    simp [clusterInput,Access.index]
  rw [he,List.foldl_append,foldl_rounds hin,if_pos hi]
  exact foldl_congr (foldl_of_not_stored (fun a ha he => absurd (he ▸ h) (hvars a ha)) m) _

/-- init_plc_data marks every digital input as unused, as it starts. -/
theorem unused_zeroArrays (array : ArrayName) (i : ℕ) :
    unusedAccesses.foldl perform zeroArrays array i=zeroArrays array i := by
  have hown : ∀ k<diCnt,∀ a∈[(.store .plcDiType k .unused : Access Val)],a.index.toNat=k := by
    intro k _
    simp [Access.index]
  unfold unusedAccesses
  rw [foldl_rounds hown]
  split_ifs
  · by_cases he : array=.plcDiType
    · subst he
      simp [perform,zeroArrays]
    · simp [perform,Arrays.set_of_array_ne _ he]
  · rfl

/-- The image of plc_data.c shows no input in use, on or with raw data, and the
images agree on the outputs. -/
structure Idle (m : Arrays Val) : Prop where
  /-- The inputs. -/
  inputs : ∀ i<diCnt,(m .plcAinRaw i : UInt16)=0 ∧ (m .plcDiType i : DiType)=.unused ∧
    (m .plcAiType i : AiType)=.unused ∧ (m .plcDiState i : DiState)=.off
  /-- The outputs. -/
  outputs : ∀ i<doCnt,OutAt m i

/-- init_cluster makes the images agree when the other one is idle. -/
theorem cluster_image {m : Arrays Val} (h : Idle m) :
    Image (clusterAccesses.foldl perform m) := by
  constructor
  · intro i hi
    obtain ⟨hraw,hdi,hai,hoff⟩ := h.inputs i hi
    rw [inAt_congr fun array ha => cluster_apply m (mem_ioNames.mpr (Or.inl ha)) hi]
    constructor <;>
      simp [clusterInput,perform,Arrays.set_of_array_ne,diStateOf,hraw,hdi,hai,hoff]
  · intro i hi
    have hlt : i<diCnt := by dsimp only [doCnt,diCnt] at hi ⊢; omega
    have hout := h.outputs i hi
    rw [outAt_congr fun array ha => cluster_apply m (mem_ioNames.mpr (Or.inr ha)) hlt]
    unfold OutAt at hout ⊢
    simp [clusterInput,perform,Arrays.set_of_array_ne,hout]

/-- The reset makes the image of plc_data.c idle when no input is in use and no
output has a fault. -/
theorem reset_idle {m : Arrays Val} (hdi : ∀ i<diCnt,(m .plcDiType i : DiType)=.unused)
    (hai : ∀ i<diCnt,(m .plcAiType i : AiType)=.unused)
    (hdo : ∀ i<doCnt,(m .clDoutFault i : UInt8)=0) : Idle (resetAccesses.foldl perform m) := by
  constructor
  · intro i hi
    rw [reset_input m hi (by decide),reset_input m hi (by decide),reset_input m hi (by decide),
      reset_input m hi (by decide)]
    simp [resetInput,perform,Arrays.set_of_array_ne,hdi i hi,hai i hi]
  · exact fun i hi => (reset_outAt_iff m hi).mpr (hdo i hi)

/-- The images agree after the initialisation. -/
theorem start_image (p : Panel) : Image (start p).panel.arrays := by
  rw [start_arrays]
  refine cluster_image (reset_idle (fun i _ => ?_) (fun i _ => ?_) fun i _ => ?_) <;>
  rw [unused_zeroArrays] <;> rfl

/-! ## Runs -/

/-- The operation touches both images alike: it drops no input with the
message of the analogue inputs in use and resets quiet images only. -/
def TouchesBoth (s : System) : PanelOp → Prop
  | .receive rx => isPacketExtended rx.standardId=false → srv rx.standardId.toUInt16≠srvHeartbeat →
      IsAiTypes rx.data → NoneDropped s.panel.arrays rx.data
  | .reset => Quiet s.panel.arrays
  | .tick _ => TimesOut s → Quiet s.panel.arrays
  | .write _ => True
  | .sample _ => True

/-- Clearing a link changes neither image. -/
theorem setLink_io (m : Arrays Val) (array : ArrayName) (h : array∈ioNames) :
    m.set .plcLink 0 (0 : UInt8) array=m array :=
  Arrays.set_of_array_ne m (by rintro rfl; exact absurd h (by decide)) _ _

/-- A write of a variable changes neither image. -/
theorem setVar_io (m : Arrays Val) (v : Variable) (a : Val v.kind.plcName) (b : Val v.kind.clName)
    (array : ArrayName) (h : array∈ioNames) : setVar m v a b array=m array := by
  have hplc : array≠v.kind.plcName := by
    rintro rfl
    cases hk : v.kind <;> rw [hk] at h <;> exact absurd h (by decide)
  have hcl : array≠v.kind.clName := by
    rintro rfl
    cases hk : v.kind <;> rw [hk] at h <;> exact absurd h (by decide)
  unfold setVar
  rw [Arrays.set_of_array_ne _ hcl,Arrays.set_of_array_ne _ hplc]

theorem quiet_congr {m m' : Arrays Val} (h : ∀ array∈ioNames,m' array=m array) :
    Quiet m' ↔ Quiet m := by
  have hr := h .clAinRaw (by decide)
  have hd := h .clDinFault (by decide)
  have ho := h .clDoutFault (by decide)
  constructor
  · rintro ⟨a,b⟩
    rw [hr,hd] at a
    rw [ho] at b
    exact ⟨a,b⟩
  · rintro ⟨a,b⟩
    rw [←hr,←hd] at a
    rw [←ho] at b
    exact ⟨a,b⟩

/-- An operation keeps the images in agreement exactly when it touches both alike. -/
theorem image_step_iff {s s' : System} {op : PanelOp} (h : Image s.panel.arrays)
    (hs : panelStep s op=some s') : Image s'.panel.arrays ↔ TouchesBoth s op := by
  cases panelStep_stepped hs with
  | receive rx q hreceived =>
    change Image q.arrays ↔ _
    cases hreceived with
    | ignored hext he =>
      rw [he]
      exact iff_of_true h fun hext' _ _ => absurd (hext.symm.trans hext') (by decide)
    | heartbeat hsrv hext harrays hhb hlink hdi =>
      have hother := not_mem_of_names (T:=ioNames) (link_names rx.standardId.toUInt16) (by decide)
      rw [harrays]
      exact iff_of_true (image_keeps_other hother _ h) fun _ hne => absurd hsrv hne
    | event hsrv hext ht =>
      rw [ht.arrays]
      by_cases hai : IsAiTypes rx.data
      · rw [aiTypes_image_iff h hai]
        exact ⟨fun hnone _ _ _ => hnone,fun hall => hall hext hsrv hai⟩
      · exact iff_of_true (event_keeps hai _ _ h) fun _ _ hai' => absurd hai' hai
  | write var q hw =>
    refine iff_of_true ?_ trivial
    change Image q.arrays
    rcases hw.arrays with he|⟨v,a,b,-,-,he,-,-⟩
    · rw [he]
      exact h
    · rw [he]
      exact (image_congr (setVar_io s.panel.arrays v a b)).mpr h
  | reset =>
    exact reset_image_iff h
  | tick time =>
    rw [(networkTick_ticked s time).arrays]
    split_ifs with ht
    · have hset := (image_congr (setLink_io s.panel.arrays)).mpr h
      rw [reset_image_iff hset,quiet_congr (setLink_io s.panel.arrays)]
      exact ⟨fun hq _ => hq,fun hq => hq ht⟩
    · exact iff_of_true h fun ht' => absurd ht' ht
  | sample diState =>
    rw [(updateDiData_sampled s diState).arrays]
    exact iff_of_true h trivial

/-- An operation that does not touch both images alike has a result. -/
theorem exists_step_of_not_touchesBoth {s : System} {op : PanelOp} (h : ¬TouchesBoth s op) :
    ∃ s',panelStep s op=some s' := by
  refine Option.isSome_iff_exists.mp (panelStep_isSome s fun rx he => ?_)
  subst he
  by_contra hout
  refine h fun hext hsrv hai => absurd (Or.inr (Or.inr ?_)) hout
  exact noLowIndex_of_ne (by rw [hai.1]; decide) (by rw [hai.1]; decide)

/-- The images agree after a run. -/
def Agrees (p : Panel) (ops : List PanelOp) : Prop :=
  ∀ s,panelRun (start p) ops=some s → Image s.panel.arrays

/-- After a run the operation touches both images alike. -/
def TouchesBothAfter (p : Panel) (ops : List PanelOp) (op : PanelOp) : Prop :=
  ∀ s,panelRun (start p) ops=some s → TouchesBoth s op

theorem agrees_nil (p : Panel) : Agrees p [] := by
  intro s hs
  cases hs
  exact start_image p

theorem agrees_concat {p : Panel} {ops : List PanelOp} {op : PanelOp} (h : Agrees p ops)
    (hop : TouchesBothAfter p ops op) : Agrees p (ops++[op]) := by
  intro s hs
  rw [panelRun_concat] at hs
  obtain ⟨r,hr,hstep⟩ := Option.bind_eq_some_iff.mp hs
  exact (image_step_iff (h r hr) hstep).mpr (hop r hr)

theorem not_agrees_concat {p : Panel} {ops : List PanelOp} {op : PanelOp} (h : Agrees p ops)
    (hop : ¬TouchesBothAfter p ops op) : ¬Agrees p (ops++[op]) := by
  intro hafter
  refine hop fun r hr => ?_
  by_contra hnot
  obtain ⟨s,hstep⟩ := exists_step_of_not_touchesBoth hnot
  have hrun : panelRun (start p) (ops++[op])=some s := by
    rw [panelRun_concat,hr]
    exact hstep
  exact hnot ((image_step_iff (h r hr) hstep).mp (hafter s hrun))

/-- The images agree in every state of a run exactly when every operation
touches both alike in the state before it. -/
theorem image_throughout_iff (p : Panel) (ops : List PanelOp) :
    Throughout (Agrees p) ops ↔ InputsMeet (TouchesBothAfter p) ops :=
  throughout_iff_inputsMeet (agrees_nil p) (fun _ h => h) (fun _ _ => agrees_concat)
    (fun _ _ => not_agrees_concat) ops

/-- Input 1 has a fault. -/
def faultFrame : CanRxMessage := ⟨0x417,5,fun i => [0x01,0x01,0x00,0x01,0x01].getD i 0⟩

theorem faultFrame_accesses :
    eventAccesses 0x417 faultFrame.data=dinAccesses 0 true false := rfl

/-- The link is lost while input 1 has a fault: it is off in plc_data.c and
still faulty in the cluster structure. -/
theorem reset_leaves_fault : ∃ s,panelRun (start zeroPanel) [.receive faultFrame,.reset]=some s ∧
    (s.panel.arrays .plcDiState 0 : DiState)=.off ∧ (s.panel.arrays .clDinFault 0 : UInt8)=1 ∧
      ¬Image s.panel.arrays := by
  obtain ⟨q,hq⟩ := Option.isSome_iff_exists.mp
    ((checkCanRxData_isSome_iff (start zeroPanel).panel faultFrame).mpr (by decide))
  have harrays : q.arrays=(dinAccesses 0 true false).foldl perform (start zeroPanel).panel.arrays := by
    cases checkCanRxData_received hq with
    | ignored hext he => exact absurd hext (by decide)
    | heartbeat hsrv => exact absurd hsrv (by decide)
    | event hsrv hext ht => exact ht.arrays.trans (congrArg (List.foldl perform _) faultFrame_accesses)
  have hfault : (q.arrays .clDinFault 0 : UInt8)=1 := by
    rw [harrays]
    simp [dinAccesses,perform,Arrays.set_of_array_ne]
  have hin {array : ArrayName} (h : array∈inNames) := reset_input q.arrays (i:=0) (by decide) h
  have hoff : (resetAccesses.foldl perform q.arrays .plcDiState 0 : DiState)=.off := by
    rw [hin (by decide)]
    simp [resetInput,perform,Arrays.set_of_array_ne]
  have hstill : (resetAccesses.foldl perform q.arrays .clDinFault 0 : UInt8)=1 := by
    rw [hin (by decide)]
    simp [resetInput,perform,Arrays.set_of_array_ne,hfault]
  refine ⟨{start zeroPanel with panel := resetPlcData q},?_,hoff,hstill,fun h => ?_⟩
  · rw [panelRun_cons,panelStep_receive hq]
    rfl
  · have hstate := (h.inputs 0 (by decide)).diState
    change (resetAccesses.foldl perform q.arrays .plcDiState 0 : DiState)=
      diStateOf (resetAccesses.foldl perform q.arrays .clDinFault 0) _ at hstate
    rw [hoff,hstill] at hstate
    exact absurd hstate (by unfold diStateOf; rw [if_pos (by decide)]; decide)

end BT816Display.IoImage
