import BT816Display.Lib.ArrayAccess
import BT816Display.TrendData
import BT816Display.CanTxStack

/-!
# The process image of a panel

The arrays of plc_data.c, their copies in the cluster structure and the link
state, which the CAN receiver and the operator's writes share.
-/

namespace BT816Display.PlcData

open ArrayAccess

/-- Digital inputs. -/
abbrev diCnt : ℕ := 14

/-- Digital outputs. -/
abbrev doCnt : ℕ := 6

/-- Analogue inputs. -/
abbrev aiCnt : ℕ := 14

/-- Cluster bits. -/
abbrev clustBitsCnt : ℕ := 224

/-- Cluster registers. -/
abbrev clusterRegsCnt : ℕ := 64

/-- Net bits. -/
abbrev netBitsCnt : ℕ := 16

/-- Net registers. -/
abbrev netRegsCnt : ℕ := 16

/-- State of a digital input. -/
inductive DiState where
  /-- DI_ON. -/
  | on
  /-- DI_OFF. -/
  | off
  /-- DI_FAULT. -/
  | fault
  deriving DecidableEq

/-- State of a digital output. -/
inductive DoState where
  /-- DO_ON. -/
  | on
  /-- DO_OFF. -/
  | off
  /-- DO_FAULT. -/
  | fault
  deriving DecidableEq

/-- Use of a digital input. -/
inductive DiType where
  /-- DI_UNUSED. -/
  | unused
  /-- DI_USED. -/
  | used
  deriving DecidableEq

/-- Use of an analogue input. -/
inductive AiType where
  /-- AI_UNUSED. -/
  | unused
  /-- AI_U. -/
  | u
  /-- AI_I. -/
  | i
  deriving DecidableEq

/-- The arrays; a name that starts with `cl` is a field of the cluster structure. -/
inductive ArrayName where
  /-- plc_di_state. -/
  | plcDiState
  /-- plc_do_state. -/
  | plcDoState
  /-- plc_di_type. -/
  | plcDiType
  /-- plc_ai_type. -/
  | plcAiType
  /-- plc_ain_raw. -/
  | plcAinRaw
  /-- plc_clust_bits. -/
  | plcClustBits
  /-- plc_clust_regs. -/
  | plcClustRegs
  /-- plc_net_bits. -/
  | plcNetBits
  /-- plc_net_regs. -/
  | plcNetRegs
  /-- cluster_data.plc_link. -/
  | plcLink
  /-- cl.pc21.din[].used. -/
  | clDinUsed
  /-- cl.pc21.din[].fault. -/
  | clDinFault
  /-- cl.pc21.din[].state. -/
  | clDinState
  /-- cl.pc21.dout[].fault. -/
  | clDoutFault
  /-- cl.pc21.dout[].state. -/
  | clDoutState
  /-- cl.pc21.ain[].raw. -/
  | clAinRaw
  /-- cl.pc21.ain[].fault. -/
  | clAinFault
  /-- cl.pc21.ain[].tdu. -/
  | clAinTdu
  /-- cl.pc21.ain[].value. -/
  | clAinValue
  /-- cl.pc21.ain[].used. -/
  | clAinUsed
  /-- cl.cluster_bits. -/
  | clClusterBits
  /-- cl.net_bits. -/
  | clNetBits
  /-- cl.cluster_regs. -/
  | clClusterRegs
  /-- cl.net_regs. -/
  | clNetRegs
  deriving DecidableEq

/-- Element types. -/
@[reducible] def Val : ArrayName → Type
  | .plcDiState => DiState
  | .plcDoState => DoState
  | .plcDiType => DiType
  | .plcAiType => AiType
  | .plcAinRaw | .plcClustRegs | .plcNetRegs => UInt16
  | .plcClustBits | .plcNetBits | .plcLink => UInt8
  | .clDinUsed | .clDinFault | .clDinState | .clDoutFault | .clDoutState => UInt8
  | .clAinRaw | .clAinFault | .clClusterRegs | .clNetRegs => UInt16
  | .clAinTdu | .clAinValue | .clAinUsed | .clClusterBits | .clNetBits => UInt8

/-- Declared sizes. -/
def size : ArrayName → ℕ
  | .plcDiState | .plcDiType | .clDinUsed | .clDinFault | .clDinState => diCnt
  | .plcDoState | .clDoutFault | .clDoutState => doCnt
  | .plcAiType | .plcAinRaw | .clAinRaw | .clAinFault | .clAinTdu | .clAinValue | .clAinUsed => aiCnt
  | .plcClustBits | .clClusterBits => clustBitsCnt
  | .plcClustRegs | .clClusterRegs => clusterRegsCnt
  | .plcNetBits | .clNetBits => netBitsCnt
  | .plcNetRegs | .clNetRegs => netRegsCnt
  | .plcLink => 8

/-- The state that the CAN code of a panel reads and writes. -/
structure Panel where
  /-- All arrays. -/
  arrays : Arrays Val
  /-- hb_cnt, ticks since the last heartbeat. -/
  hbCnt : UInt16
  /-- get_io_names_flag. -/
  getIoNamesFlag : UInt8
  /-- update_di, inputs to be sent. -/
  updateDi : UInt16
  /-- plc_can_link. -/
  plcCanLink : UInt8
  /-- plc_can_addr, the node of the last heartbeat. -/
  plcCanAddr : UInt8
  /-- cluster_addr. -/
  clusterAddr : UInt8
  /-- lcd_can_addr, the node address of the panel. -/
  lcdCanAddr : UInt8
  /-- plc_app_id. -/
  plcAppId : UInt16
  /-- plc_eth_ip_state. -/
  plcEthIpState : UInt8
  /-- cl.pc21.heartbeat. -/
  clHeartbeat : UInt16
  /-- cl.pc21.app_id. -/
  clAppId : UInt16
  /-- cl.pc21.ethip_state. -/
  clEthipState : UInt16
  /-- trends. -/
  trends : ℕ → TrendData.Trend
  /-- cur_long_time. -/
  curLongTime : UInt32
  /-- can_tx_stack. -/
  canTxStack : CanTxStack.TxStack

/-- The arrays before the first initialisation. -/
def zeroArrays : Arrays Val
  | .plcDiState => fun _ => .on
  | .plcDoState => fun _ => .on
  | .plcDiType => fun _ => .unused
  | .plcAiType => fun _ => .unused
  | .plcAinRaw | .plcClustRegs | .plcNetRegs => fun _ => (0 : UInt16)
  | .plcClustBits | .plcNetBits | .plcLink => fun _ => (0 : UInt8)
  | .clDinUsed | .clDinFault | .clDinState | .clDoutFault | .clDoutState => fun _ => (0 : UInt8)
  | .clAinRaw | .clAinFault | .clClusterRegs | .clNetRegs => fun _ => (0 : UInt16)
  | .clAinTdu | .clAinValue | .clAinUsed | .clClusterBits | .clNetBits => fun _ => (0 : UInt8)

/-- A panel with all variables as they start. -/
def zeroPanel : Panel where
  arrays := zeroArrays
  hbCnt := 0
  getIoNamesFlag := 0
  updateDi := 0
  plcCanLink := 0
  plcCanAddr := 0
  clusterAddr := 0
  lcdCanAddr := 0x02
  plcAppId := 0
  plcEthIpState := 0
  clHeartbeat := 0
  clAppId := 0
  clEthipState := 0
  trends := fun _ => ⟨fun _ => ⟨0,0⟩,0,0,0,0,0,0,0,0,0⟩
  curLongTime := 0
  canTxStack := CanTxStack.initCanTxStack CanTxStack.zeroStack

/-- Perform accesses to the arrays, with no result behind an index out of bounds. -/
def Panel.perform (p : Panel) (accesses : List (Access Val)) : Option Panel :=
  (performAll size p.arrays accesses).map fun arrays => {p with arrays := arrays}

theorem Panel.perform_isSome_iff (p : Panel) (accesses : List (Access Val)) :
    (p.perform accesses).isSome ↔ ∀ a∈accesses,a.InBounds size := by
  unfold Panel.perform
  rw [Option.isSome_map]
  exact performAll_isSome_iff

/-- Accesses in bounds change the arrays only. -/
theorem Panel.perform_of_inBounds (p : Panel) {accesses : List (Access Val)}
    (h : ∀ a∈accesses,a.InBounds size) :
    p.perform accesses=
      some {p with arrays := accesses.foldl ArrayAccess.perform p.arrays} := by
  unfold Panel.perform
  rw [performAll_of_inBounds h]
  rfl

end BT816Display.PlcData
