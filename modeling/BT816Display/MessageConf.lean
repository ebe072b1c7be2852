import BT816Display.ConfigHeader

/-!
# Names and messages in the configuration of config.c

read_config takes the number of names of the cluster registers and bits and
of the messages from three items on the flash, and read_message_conf fills
msg_conf from the records of the messages. Neither compares a number or an
index with the size of an array.
-/

namespace BT816Display.MessageConf

open ByteMemory BigEndian Config ConfigHeader

/-- MAX_MSG_CNT. -/
abbrev maxMsgCnt : ℕ := 63

/-- bit_message_conf. -/
structure BitMessageConf where
  /-- 0 for a cluster bit, 2 for a net bit. -/
  varType : UInt8
  /-- Information, warning or alarm. -/
  messageType : UInt8
  /-- The index of the bit. -/
  varIndex : UInt16
  /-- The value last read. -/
  value : UInt8
  /-- The value at the last scan. -/
  prevValue : UInt8
  /-- The configuration has this message. -/
  used : UInt8
  deriving DecidableEq

/-- msg_conf. -/
abbrev Messages := ℕ → BitMessageConf

/-- Where the configuration keeps names and messages, and how many. -/
structure ConfigVars where
  /-- clust_reg_names_addr. -/
  clustRegNamesAddr : UInt32
  /-- clust_reg_names_cnt. -/
  clustRegNamesCnt : UInt16
  /-- clust_bit_names_addr. -/
  clustBitNamesAddr : UInt32
  /-- clust_bit_names_cnt. -/
  clustBitNamesCnt : UInt16
  /-- message_var_addr. -/
  messageVarAddr : UInt32
  /-- message_var_cnt. -/
  messageVarCnt : UInt32
  deriving DecidableEq

/-- The variables as they start. -/
def zeroVars : ConfigVars := ⟨0,0,0,0,0,0⟩

section

variable (flash : Mem UInt8)

/-- bt816_cmd_flashread to the start of the memory that bt816_mem_read8 reads. -/
def flashread (addr : UInt32) : Mem UInt8 := fun i => flash (addr.toNat+i)

/-- The part of read_config that is repeated for every item: the offset and
the block of the item, when header and block are accepted. -/
def readItem (id : UInt16) : Option (UInt32×Mem UInt8) :=
  let (ok,confBuf) := checkConfigHeader (flashread flash 4096)
  if ok then
    let addr := getConfigOffsetById id confBuf
    let (ok,confBuf) := checkItemConfig (flashread flash (4096+addr)) id
    if ok then some (addr,confBuf) else none
  else none

/-- The number of entries that a block declares. -/
def declaredCnt (confBuf : Mem UInt8) : UInt16 := join16 (confBuf 6) (confBuf 7)

/-- The steps of read_config for the items 6, 8 and 16. -/
def readConfig (vars : ConfigVars) : ConfigVars :=
  let vars := match readItem flash 6 with
    | some (addr,confBuf) =>
      {vars with clustRegNamesAddr := 4096+addr+64, clustRegNamesCnt := declaredCnt confBuf}
    | none => vars
  let vars := match readItem flash 8 with
    | some (addr,confBuf) =>
      {vars with clustBitNamesAddr := 4096+addr+64, clustBitNamesCnt := declaredCnt confBuf}
    | none => vars
  match readItem flash 16 with
    | some (addr,confBuf) =>
      {vars with messageVarAddr := 4096+addr+64, messageVarCnt := (declaredCnt confBuf).toUInt32}
    | none => vars

/-- The configuration has a message with this number. -/
def Configured (vars : ConfigVars) (i : ℕ) : Prop :=
  vars.messageVarAddr≠0 ∧ i<vars.messageVarCnt.toNat

instance (vars : ConfigVars) (i : ℕ) : Decidable (Configured vars i) :=
  inferInstanceAs (Decidable (_ ∧ _))

/-- The record of a message on the flash. -/
def messageRecord (vars : ConfigVars) (i : ℕ) : Mem UInt8 :=
  flashread flash (vars.messageVarAddr+64*UInt32.ofNat i)

/-- read_message_conf. -/
def readMessageConf (vars : ConfigVars) (msgConf : Messages) : Messages := fun i =>
  if i < maxMsgCnt then
    let m := {msgConf i with used := 0, prevValue := 0, value := 0}
    if Configured vars i then
      let mem := messageRecord flash vars i
      {m with varType := mem 40
              varIndex := join16 (mem 41) (mem 42)
              messageType := mem 43
              used := 1}
    else m
  else msgConf i

/-- get_message_name: the 41 bytes that it copies. -/
def getMessageName (vars : ConfigVars) (num : ℕ) : Option (List UInt8) :=
  if Configured vars num then some (load (messageRecord flash vars num) 0 40++[0]) else none

/-- The body of get_cluster_reg_name and get_cluster_bit_name: the string
before its zero. The user's name is at 64, the system's name at 0. -/
def getName (namesAddr : UInt32) (namesCnt num maxLength : UInt16) : List UInt8 :=
  if namesAddr≠0 ∧ num<namesCnt then
    let mem := flashread flash (namesAddr+128*num.toUInt32)
    let userName := if mem 64=0 then load mem 0 40 else load mem 64 40
    (userName.takeWhile (·≠0)).take (maxLength.toNat-1)
  else []

/-- get_cluster_reg_name. -/
def getClusterRegName (vars : ConfigVars) : UInt16 → UInt16 → List UInt8 :=
  getName flash vars.clustRegNamesAddr vars.clustRegNamesCnt

/-- get_cluster_bit_name. -/
def getClusterBitName (vars : ConfigVars) : UInt16 → UInt16 → List UInt8 :=
  getName flash vars.clustBitNamesAddr vars.clustBitNamesCnt

variable {flash} {vars : ConfigVars} {msgConf : Messages} {i : ℕ}

/-- What an accepted item 16 says of the messages. -/
theorem readConfig_messages (vars : ConfigVars) {addr : UInt32} {confBuf : Mem UInt8}
    (h : readItem flash 16=some (addr,confBuf)) :
    (readConfig flash vars).messageVarAddr=4096+addr+64 ∧
      (readConfig flash vars).messageVarCnt=(declaredCnt confBuf).toUInt32 := by
  unfold readConfig
  rw [h]
  exact ⟨rfl,rfl⟩

/-- Every message starts with both values clear. -/
theorem readMessageConf_values (hi : i < maxMsgCnt) :
    (readMessageConf flash vars msgConf i).value=0 ∧
      (readMessageConf flash vars msgConf i).prevValue=0 := by
  unfold readMessageConf
  dsimp only
  rw [if_pos hi]
  split <;> exact ⟨rfl,rfl⟩

/-- The messages in use are those of the configuration. -/
theorem readMessageConf_used (hi : i < maxMsgCnt) :
    (readMessageConf flash vars msgConf i).used≠0 ↔ Configured vars i := by
  unfold readMessageConf
  dsimp only
  rw [if_pos hi]
  by_cases h : Configured vars i
  · rw [if_pos h]
    exact iff_of_true (by decide : (1 : UInt8)≠0) h
  · rw [if_neg h]
    exact iff_of_false (fun hne => hne rfl) h

/-- A message of the configuration has the type and the index of its record. -/
theorem readMessageConf_link (hi : i < maxMsgCnt) (h : Configured vars i) :
    (readMessageConf flash vars msgConf i).varType=messageRecord flash vars i 40 ∧
      (readMessageConf flash vars msgConf i).varIndex=
        join16 (messageRecord flash vars i 41) (messageRecord flash vars i 42) := by
  unfold readMessageConf
  dsimp only
  rw [if_pos hi,if_pos h]
  exact ⟨rfl,rfl⟩

end

end BT816Display.MessageConf
