import BT816Display.Mnemo
import BT816Display.MessageConf

/-!
# The calculated channels of plc_data.c

plc_data_calculate takes one or two registers as the source of each channel,
scales it and rounds the result. The configuration on the flash says which
registers. For two raw values of the analogue inputs the switch takes the
first one alone.
-/

namespace BT816Display.PlcCalculate

open ArrayAccess BigEndian ByteMemory Config ConfigHeader MessageConf PlcData
open FixedPoint (Precision)
open Traced (read Reads rows)

/-- CALC_LINK. -/
inductive CalcLink where
  /-- LINK_RAW. -/
  | linkRaw
  /-- LINK_2RAW. -/
  | link2Raw
  /-- LINK_CLUST_REGS. -/
  | linkClustRegs
  /-- LINK_2CLUST_REGS. -/
  | link2ClustRegs
  /-- LINK_NET_REGS. -/
  | linkNetRegs
  /-- LINK_2NET_REGS. -/
  | link2NetRegs
  /-- CALC_LAST_LINK. -/
  | calcLastLink
  deriving DecidableEq

/-- calc_config. -/
structure CalcConfig where
  /-- The digits of the result behind the point. -/
  prec : Precision
  /-- The factor. -/
  k : Float32
  /-- The offset. -/
  b : Float32
  /-- Where the source comes from. -/
  link : CalcLink
  /-- The register of the source. -/
  index : UInt16
  /-- The scaled value times the power of ten of the precision. -/
  result : Int32
  /-- The scaled value. -/
  flRes : Float32

/-! ## plc_data_calculate -/

section

variable (m : Arrays Val)

/-- Reads of the arrays of registers. -/
abbrev Calc := Traced (Access Val) Empty

/-- An element of an array of registers. -/
def element (array : ArrayName) (regs : ℕ → UInt16) (index : ℕ) : Calc UInt16 :=
  read (.load array index) (regs index)

/-- The case of a link to one register. -/
def oneReg (array : ArrayName) (regs : ℕ → UInt16) (cnt : ℕ) (index : UInt16) : Calc Int32 :=
  if index.toNat<cnt then do
    let reg ← element array regs index.toNat
    return reg.toUInt32.toInt32
  else return 0

/-- The case of a link to two registers. -/
def twoRegs (array : ArrayName) (regs : ℕ → UInt16) (cnt : ℕ) (index : UInt16) : Calc Int32 :=
  if index.toNat<cnt-1 then do
    let high ← element array regs index.toNat
    let low ← element array regs (index.toNat+1)
    return (high.toUInt32.toInt32<<<16)|||low.toUInt32.toInt32
  else return 0

/-- The switch over the link of a channel. The case of two raw values reads
the first one only. -/
def sourceData (c : CalcConfig) : Calc Int32 :=
  match c.link with
  | .linkRaw => oneReg .clAinRaw (m .clAinRaw) aiCnt c.index
  | .link2Raw => oneReg .clAinRaw (m .clAinRaw) (aiCnt-1) c.index
  | .linkClustRegs => oneReg .plcClustRegs (m .plcClustRegs) clusterRegsCnt c.index
  | .link2ClustRegs => twoRegs .plcClustRegs (m .plcClustRegs) clusterRegsCnt c.index
  | .linkNetRegs => oneReg .plcNetRegs (m .plcNetRegs) netRegsCnt c.index
  | .link2NetRegs => twoRegs .plcNetRegs (m .plcNetRegs) netRegsCnt c.index
  | .calcLastLink => return 0

/-- The conversion of a product to the next integer. The sign is that of the
scaled value. -/
def rounded (negative : Bool) (product : Float32) : Int32 :=
  if negative then (product.toFloat-0.5).toInt32 else (product.toFloat+0.5).toInt32

/-- The scaling of a source and the switch over the precision. -/
def scale (c : CalcConfig) (source : Int32) : CalcConfig :=
  let correctedData := source.toFloat32*c.k+c.b
  let negative := decide (correctedData < 0)
  {c with
    flRes := correctedData
    result := match c.prec with
      | .pr0 => rounded negative correctedData
      | .pr1 => rounded negative (correctedData*10)
      | .pr2 => rounded negative (correctedData*100)
      | .pr3 => rounded negative (correctedData*1000)}

/-- A round of plc_data_calculate. -/
def calculate (_ : ℕ) (c : CalcConfig) : Calc CalcConfig := do
  let source ← sourceData m c
  return scale c source

/-- plc_data_calculate. -/
def plcDataCalculate (calcTotalCnt : UInt16) (calcConfig : ℕ → CalcConfig) :
    Calc (ℕ → CalcConfig) :=
  rows (calculate m) (List.range calcTotalCnt.toNat) calcConfig

/-- Every channel is scaled from its own source. -/
theorem plcDataCalculate_value (calcTotalCnt : UInt16) (calcConfig : ℕ → CalcConfig) (i : ℕ) :
    (plcDataCalculate m calcTotalCnt calcConfig).value i=
      if i<calcTotalCnt.toNat then scale (calcConfig i) (sourceData m (calcConfig i)).value
      else calcConfig i := by
  unfold plcDataCalculate
  rw [Traced.rows_value List.nodup_range]
  simp only [List.mem_range]
  rfl

end

/-! ## read_calculation_config -/

/-- The byte of a link, LINK_RAW when it is none. -/
def CalcLink.ofByte (b : UInt8) : CalcLink :=
  if b=0 then .linkRaw
  else if b=1 then .link2Raw
  else if b=2 then .linkClustRegs
  else if b=3 then .link2ClustRegs
  else if b=4 then .linkNetRegs
  else if b=5 then .link2NetRegs
  else .linkRaw

/-- Four bytes as a number of single precision, the lowest first. -/
def floatAt (confBuf : Mem UInt8) (pos : ℕ) : Float32 :=
  Float32.ofBits (join32 (confBuf (pos+3)) (confBuf (pos+2)) (confBuf (pos+1)) (confBuf pos))

/-- The configuration of a channel in the block of item 9. -/
def readChannel (confBuf : Mem UInt8) (i : ℕ) (c : CalcConfig) : CalcConfig :=
  {c with
    index := join16 (confBuf (8+i*12)) (confBuf (9+i*12))
    link := CalcLink.ofByte (confBuf (10+i*12))
    prec := Precision.ofByte (confBuf (11+i*12))
    k := floatAt confBuf (12+i*12)
    b := floatAt confBuf (16+i*12)}

/-- The configuration of a channel without the item. -/
def defaultChannel (i : ℕ) (c : CalcConfig) : CalcConfig :=
  {c with k := 1.0,b := 0,link := .linkRaw,index := UInt16.ofNat i,result := 0,prec := .pr1}

/-- calc_total_cnt and calc. -/
structure Channels where
  /-- calc_total_cnt. -/
  calcTotalCnt : UInt16
  /-- calc. -/
  calcConfig : ℕ → CalcConfig

/-- Some channels, configured from the first on. -/
def setChannels (cnt : UInt16) (channel : ℕ → CalcConfig → CalcConfig) (s : Channels) : Channels :=
  ⟨cnt,fun i => if i<cnt.toNat then channel i (s.calcConfig i) else s.calcConfig i⟩

/-- read_calculation_config. -/
def readCalculationConfig (flash : Mem UInt8) (s : Channels) : Channels :=
  let (ok,confBuf) := checkConfigHeader (flashread flash 4096)
  if ok then
    let addr := getConfigOffsetById 9 confBuf
    let (ok,confBuf) := checkItemConfig (flashread flash (4096+addr)) 9
    if ok then
      let cnt := declaredCnt confBuf
      setChannels (if cnt≥14 then 14 else cnt) (readChannel confBuf) s
    else setChannels 14 defaultChannel s
  else s

/-- The channels fit into calc, and their links are below CALC_LAST_LINK. -/
structure ChannelsOk (s : Channels) : Prop where
  /-- There are as many channels as analogue inputs at most. -/
  count : s.calcTotalCnt.toNat≤aiCnt
  /-- Every link has a case in the switch. -/
  link : ∀ i<s.calcTotalCnt.toNat,(s.calcConfig i).link≠.calcLastLink

theorem CalcLink.ofByte_ne (b : UInt8) : CalcLink.ofByte b≠.calcLastLink := by
  unfold CalcLink.ofByte
  split_ifs <;> exact CalcLink.noConfusion

/-- Configured channels have the links that they are configured with. -/
theorem setChannels_ok {cnt : UInt16} (hcnt : cnt.toNat≤aiCnt)
    {channel : ℕ → CalcConfig → CalcConfig} (h : ∀ i c,(channel i c).link≠.calcLastLink)
    (s : Channels) : ChannelsOk (setChannels cnt channel s) := by
  refine ⟨hcnt,fun i hi => ?_⟩
  unfold setChannels at hi ⊢
  dsimp only at hi ⊢
  rw [if_pos hi]
  exact h i (s.calcConfig i)

/-- What read_calculation_config leaves for every content of the flash. -/
theorem readCalculationConfig_ok (flash : Mem UInt8) {s : Channels} (h : ChannelsOk s) :
    ChannelsOk (readCalculationConfig flash s) := by
  unfold readCalculationConfig
  dsimp only
  split
  · split
    · refine setChannels_ok ?_ (fun _ _ => CalcLink.ofByte_ne _) s
      split
      next => decide
      next hless => exact Nat.le_of_lt (UInt16.lt_iff_toNat_lt.mp (UInt16.not_le.mp hless))
    · exact setChannels_ok (by decide) (fun _ _ => CalcLink.noConfusion) s
  · exact h

/-! ## The law of the links -/

/-- The registers that a link refers to. -/
structure Registers where
  /-- Their contents. -/
  regs : ℕ → UInt16
  /-- How many there are. -/
  cnt : ℕ
  /-- How many of them make a source. -/
  width : ℕ

/-- The registers of a link. -/
def CalcLink.registers (m : Arrays Val) : CalcLink → Registers
  | .linkRaw => ⟨m .clAinRaw,aiCnt,1⟩
  | .link2Raw => ⟨m .clAinRaw,aiCnt,2⟩
  | .linkClustRegs => ⟨m .plcClustRegs,clusterRegsCnt,1⟩
  | .link2ClustRegs => ⟨m .plcClustRegs,clusterRegsCnt,2⟩
  | .linkNetRegs => ⟨m .plcNetRegs,netRegsCnt,1⟩
  | .link2NetRegs => ⟨m .plcNetRegs,netRegsCnt,2⟩
  | .calcLastLink => ⟨fun _ => 0,0,1⟩

/-- The word of two registers, the higher half first. -/
def word (regs : ℕ → UInt16) (index : ℕ) : UInt32 :=
  ((regs index).toUInt32<<<16)|||(regs (index+1)).toUInt32

/-- The source of a channel: one register, or the word of two in two's
complement, or 0 for an index that is out of range. -/
def lawSource (m : Arrays Val) (c : CalcConfig) : Int32 :=
  let r := c.link.registers m
  if c.index.toNat+r.width ≤ r.cnt then
    if r.width=2 then (word r.regs c.index.toNat).toInt32
    else (r.regs c.index.toNat).toUInt32.toInt32
  else 0

/-- All reads are in range, and plc_data_calculate scales every channel from a
source that follows the law. -/
structure MeetsLaw (m : Arrays Val) (s : Channels) : Prop where
  /-- No index is outside its array. -/
  reads : Reads (Access.InBounds size) (plcDataCalculate m s.calcTotalCnt s.calcConfig)
  /-- A channel is its source, scaled. -/
  scaled : ∀ i<s.calcTotalCnt.toNat,(plcDataCalculate m s.calcTotalCnt s.calcConfig).value i=
    scale (s.calcConfig i) (sourceData m (s.calcConfig i)).value
  /-- The source of each channel. -/
  source : ∀ i<s.calcTotalCnt.toNat,
    (sourceData m (s.calcConfig i)).value=lawSource m (s.calcConfig i)

/-- The channel takes two raw values that are in range and not both 0. -/
def DropsLow (m : Arrays Val) (c : CalcConfig) : Prop :=
  c.link=.link2Raw ∧ c.index.toNat+1<aiCnt ∧
    (m .clAinRaw c.index.toNat≠0 ∨ m .clAinRaw (c.index.toNat+1)≠0)

theorem element_reads {array : ArrayName} (regs : ℕ → UInt16) {index : ℕ} (h : index<size array) :
    Reads (Access.InBounds size) (element array regs index) := by
  unfold element
  rw [Traced.reads_read]
  exact ⟨Int.natCast_nonneg index,Int.ofNat_lt.mpr h⟩

theorem oneReg_reads {array : ArrayName} (regs : ℕ → UInt16) {cnt : ℕ} (h : cnt ≤ size array)
    (index : UInt16) : Reads (Access.InBounds size) (oneReg array regs cnt index) := by
  unfold oneReg
  rw [Traced.reads_ite,Traced.reads_bind,Traced.reads_pure,Traced.reads_pure]
  exact ⟨fun hi => ⟨element_reads regs (by omega),trivial⟩,fun _ => trivial⟩

theorem twoRegs_reads {array : ArrayName} (regs : ℕ → UInt16) {cnt : ℕ} (h : cnt ≤ size array)
    (index : UInt16) : Reads (Access.InBounds size) (twoRegs array regs cnt index) := by
  unfold twoRegs
  rw [Traced.reads_ite,Traced.reads_bind,Traced.reads_bind,Traced.reads_pure,Traced.reads_pure]
  exact ⟨fun hi => ⟨element_reads regs (by omega),element_reads regs (by omega),trivial⟩,
    fun _ => trivial⟩

/-- The switch reads in range for every link and every index. -/
theorem sourceData_reads (m : Arrays Val) (c : CalcConfig) :
    Reads (Access.InBounds size) (sourceData m c) := by
  unfold sourceData
  cases c.link with
  | linkRaw => exact oneReg_reads _ (by decide) _
  | link2Raw => exact oneReg_reads _ (by decide) _
  | linkClustRegs => exact oneReg_reads _ (by decide) _
  | link2ClustRegs => exact twoRegs_reads _ (by decide) _
  | linkNetRegs => exact oneReg_reads _ (by decide) _
  | link2NetRegs => exact twoRegs_reads _ (by decide) _
  | calcLastLink => exact (Traced.reads_pure _ _).mpr trivial

theorem plcDataCalculate_reads (m : Arrays Val) (s : Channels) :
    Reads (Access.InBounds size) (plcDataCalculate m s.calcTotalCnt s.calcConfig) := by
  unfold plcDataCalculate
  rw [Traced.reads_rows _ List.nodup_range]
  intro i _
  unfold calculate
  rw [Traced.reads_bind,Traced.reads_pure]
  exact ⟨sourceData_reads m (s.calcConfig i),trivial⟩

theorem oneReg_value (array : ArrayName) (regs : ℕ → UInt16) (cnt : ℕ) (index : UInt16) :
    (oneReg array regs cnt index).value=
      if index.toNat<cnt then (regs index.toNat).toUInt32.toInt32 else 0 := by
  unfold oneReg
  split <;> rfl

/-- Shifting and joining as a signed number gives the word. -/
theorem twoRegs_value (array : ArrayName) (regs : ℕ → UInt16) (cnt : ℕ) (index : UInt16) :
    (twoRegs array regs cnt index).value=
      if index.toNat<cnt-1 then (word regs index.toNat).toInt32 else 0 := by
  unfold twoRegs
  split <;> rfl

/-- The value of a word. -/
theorem word_toNat (regs : ℕ → UInt16) (index : ℕ) :
    (word regs index).toNat=(regs index).toNat*65536+(regs (index+1)).toNat := by
  have hhigh := (regs index).toNat_lt
  have hlow := (regs (index+1)).toNat_lt
  have hjoin := Nat.shiftLeft_add_eq_or_of_lt (i:=16) (b:=(regs (index+1)).toNat) (by omega)
    (regs index).toNat
  simp only [Nat.shiftLeft_eq,Nat.reducePow] at hjoin
  unfold word
  simp [Nat.shiftLeft_eq]
  rw [Nat.mod_eq_of_lt (by omega : (regs index).toNat*65536<4294967296),←hjoin]

/-- A word is its higher register only when both are 0. -/
theorem toInt32_eq_word_iff (regs : ℕ → UInt16) (index : ℕ) :
    (regs index).toUInt32.toInt32=(word regs index).toInt32 ↔
      regs index=0 ∧ regs (index+1)=0 := by
  have hword := word_toNat regs index
  have hlow := (regs (index+1)).toNat_lt
  constructor
  · intro h
    have heq : (regs index).toUInt32=word regs index := congrArg Int32.toUInt32 h
    have hnat := congrArg UInt32.toNat heq
    rw [hword,UInt16.toNat_toUInt32] at hnat
    exact ⟨UInt16.toNat_inj.mp (by rw [UInt16.toNat_zero]; omega),
      UInt16.toNat_inj.mp (by rw [UInt16.toNat_zero]; omega)⟩
  · rintro ⟨h0,h1⟩
    unfold word
    rw [h0,h1]
    rfl

/-- The links that follow the law for every index and all registers. -/
theorem sourceData_value (m : Arrays Val) {c : CalcConfig} (h : c.link≠.link2Raw) :
    (sourceData m c).value=lawSource m c := by
  have hwidth {cnt : ℕ} : c.index.toNat<cnt-1 ↔ c.index.toNat+2 ≤ cnt := by omega
  unfold sourceData lawSource
  cases hlink : c.link with
  | linkRaw => exact oneReg_value _ _ _ _
  | link2Raw => exact absurd hlink h
  | linkClustRegs => exact oneReg_value _ _ _ _
  | link2ClustRegs => exact (twoRegs_value _ _ _ _).trans (if_congr hwidth rfl rfl)
  | linkNetRegs => exact oneReg_value _ _ _ _
  | link2NetRegs => exact (twoRegs_value _ _ _ _).trans (if_congr hwidth rfl rfl)
  | calcLastLink => rfl

/-- The link to two raw values follows the law where nothing is dropped. -/
theorem sourceData_value_iff (m : Arrays Val) (c : CalcConfig) :
    (sourceData m c).value=lawSource m c ↔ ¬DropsLow m c := by
  by_cases hlink : c.link=.link2Raw
  · unfold sourceData lawSource DropsLow
    rw [hlink]
    dsimp only [CalcLink.registers]
    rw [oneReg_value]
    by_cases hindex : c.index.toNat+1<aiCnt
    · rw [if_pos (by omega),if_pos (by omega),if_pos rfl,toInt32_eq_word_iff]
      simp only [hindex,true_and,not_or,not_not]
    · rw [if_neg (by omega),if_neg (by omega)]
      exact iff_of_true rfl fun h => hindex h.2.1
  · exact iff_of_true (sourceData_value m hlink) fun h => hlink h.1

/-- For every configuration and all registers: the reads are in range, every
channel is scaled from its own source, and the sources follow the law exactly
when no channel takes two raw values of which one is not 0. -/
theorem plcDataCalculate_meetsLaw_iff (m : Arrays Val) (s : Channels) :
    MeetsLaw m s ↔ ∀ i<s.calcTotalCnt.toNat,¬DropsLow m (s.calcConfig i) := by
  constructor
  · intro h i hi
    exact (sourceData_value_iff m _).mp (h.source i hi)
  · intro h
    refine ⟨plcDataCalculate_reads m s,fun i hi => ?_,
      fun i hi => (sourceData_value_iff m _).mpr (h i hi)⟩
    rw [plcDataCalculate_value,if_pos hi]

/-- A channel that takes the raw values 1 and 2 of the first two inputs. -/
def twoRawChannel : Channels :=
  ⟨1,fun _ => {prec := .pr0,k := 1.0,b := 0,link := .link2Raw,index := 0,result := 0,flRes := 0}⟩

/-- The raw values 1 and 2. -/
def twoRawArrays : Arrays Val :=
  (zeroArrays.set .clAinRaw 0 (1 : UInt16)).set .clAinRaw 1 (2 : UInt16)

/-- The source is 1 where the word is 65538. -/
theorem not_meetsLaw : ¬MeetsLaw twoRawArrays twoRawChannel ∧
    (sourceData twoRawArrays (twoRawChannel.calcConfig 0)).value=1 ∧
      lawSource twoRawArrays (twoRawChannel.calcConfig 0)=0x10002 := by
  have hsource : (sourceData twoRawArrays (twoRawChannel.calcConfig 0)).value=1 := by decide
  have hlaw : lawSource twoRawArrays (twoRawChannel.calcConfig 0)=0x10002 := by decide
  refine ⟨fun h => ?_,hsource,hlaw⟩
  have heq := h.source 0 (by decide)
  rw [hsource,hlaw] at heq
  exact absurd heq (by decide)

end BT816Display.PlcCalculate
