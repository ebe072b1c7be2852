import BT816Display.Lib.Traced
import BT816Display.MessageArchive
import BT816Display.MessageConf
import BT816Display.PlcData

/-!
# The alarm scanner of message_scaner.c

scan_messages compares the bit of every message with the value of the last
scan and adds a record to the archive. The two functions of the list on the
screen read the bits into the same table between the scans.
-/

namespace BT816Display.MessageScanner

open ArrayAccess BigEndian ByteMemory MessageArchive MessageConf PlcData
open Traced (read issue rows)

/-- MSG_ARCH_BIT. -/
abbrev msgArchBit : UInt16 := 0

/-- What one scan finds outside msg_conf. -/
structure Seen where
  /-- The cluster structure. -/
  cl : Arrays Val
  /-- The result of time_to_uint32 in each round. -/
  time : ℕ → UInt32
  /-- The bytes of rec_body before it is filled in, in each round. -/
  stack : ℕ → Mem UInt8

/-- A routine that reads the cluster structure; a record that it adds comes
with the round of the loop that adds it. -/
abbrev Scan := Traced (Access Val) (ℕ×MessageRecord)

section

variable (cl : Arrays Val)

/-- The switch over the variable type of a message. -/
def readValue (m : BitMessageConf) : Scan UInt8 :=
  if m.varType=0 then
    read (.load .clClusterBits m.varIndex.toNat) (cl .clClusterBits m.varIndex.toNat)
  else if m.varType=2 then
    read (.load .clNetBits m.varIndex.toNat) (cl .clNetBits m.varIndex.toNat)
  else return m.value

/-- The value of a message read again. -/
def refresh (m : BitMessageConf) : Scan BitMessageConf := do
  let value ← readValue cl m
  return {m with value := value}

/-- The body of a record: a version, the variable and its value. -/
def recBody (m : BitMessageConf) : List UInt8 := 1::m.varType::split16 m.varIndex++[m.value]

/-- The record of a message. -/
def record (seen : Seen) (i : ℕ) (m : BitMessageConf) : MessageRecord where
  ptr := store (seen.stack i) 0 (recBody m)
  time := seen.time i
  messageId := msgArchBit
  messageType := m.messageType
  length := 5

/-- The test in scan_messages and what it adds. -/
def addRecord (seen : Seen) (i : ℕ) (m : BitMessageConf) : Scan Unit :=
  if m.value≠m.prevValue ∧ m.value≠0 then issue (i,record seen i m) else return ()

/-- One round of scan_messages. -/
def scanMessage (seen : Seen) (i : ℕ) (m : BitMessageConf) : Scan BitMessageConf :=
  if m.used≠0 then do
    let m ← refresh seen.cl m
    addRecord seen i m
    return {m with prevValue := m.value}
  else return m

/-- scan_messages. -/
def scanMessages (seen : Seen) (msgConf : Messages) : Scan Messages :=
  rows (scanMessage seen) (List.range maxMsgCnt) msgConf

/-- One round of get_active_messages_cnt. -/
def countMessage (s : Messages×UInt16) (i : ℕ) : Scan (Messages×UInt16) :=
  if (s.1 i).used≠0 then do
    let m ← refresh cl (s.1 i)
    return (Function.update s.1 i m,if m.value≠0 then s.2+1 else s.2)
  else return s

/-- get_active_messages_cnt. -/
def getActiveMessagesCnt (msgConf : Messages) : Scan (Messages×UInt16) :=
  (List.range maxMsgCnt).foldlM (countMessage cl) (msgConf,0)

/-- The loop of get_message_by_number over the rounds left. -/
def findMessage (num : UInt8) :
    List ℕ → Messages → (pos : UInt8) → Scan (Messages×Option (ℕ×BitMessageConf))
  | [],msgConf,_ => return (msgConf,none)
  | i::rest,msgConf,pos =>
    if (msgConf i).used≠0 then do
      let m ← refresh cl (msgConf i)
      let msgConf := Function.update msgConf i m
      if m.value≠0 then
        if num=pos then return (msgConf,some (i,m)) else findMessage num rest msgConf (pos+1)
      else findMessage num rest msgConf pos
    else findMessage num rest msgConf pos

/-- get_message_by_number: the message with its name, when there is one. -/
def getMessageByNumber (flash : Mem UInt8) (vars : ConfigVars) (num : UInt8)
    (msgConf : Messages) : Scan (Messages×Option (BitMessageConf×Option (List UInt8))) := do
  let found ← findMessage cl num (List.range maxMsgCnt) msgConf 0
  return (found.1,found.2.map fun im => (im.2,getMessageName flash vars im.1))

end

/-- A call of the module. -/
inductive Op where
  /-- scan_messages. -/
  | scan (seen : Seen)
  /-- get_active_messages_cnt. -/
  | activeCnt (cl : Arrays Val)
  /-- get_message_by_number. -/
  | byNumber (cl : Arrays Val) (num : UInt8)

section

variable (flash : Mem UInt8) (vars : ConfigVars)

/-- The table after a call. -/
def step (msgConf : Messages) : Op → Scan Messages
  | .scan seen => scanMessages seen msgConf
  | .activeCnt cl => Prod.fst <$> getActiveMessagesCnt cl msgConf
  | .byNumber cl num => Prod.fst <$> getMessageByNumber cl flash vars num msgConf

/-- The table after calls in this order. -/
def run (msgConf : Messages) (ops : List Op) : Scan Messages :=
  ops.foldlM (step flash vars) msgConf

end

/-! ## What the calls keep -/

/-- The part of a message that reading its value again leaves alone. -/
def setting (m : BitMessageConf) : BitMessageConf := {m with value := 0}

/-- Reading the current value changes no setting. -/
theorem refresh_setting (cl : Arrays Val) (m : BitMessageConf) :
    setting (refresh cl m).value=setting m := rfl

/-- Reading the current value adds no record. -/
theorem refresh_commands (cl : Arrays Val) (m : BitMessageConf) :
    (refresh cl m).commands=[] := by
  unfold refresh readValue
  split
  · rfl
  · split <;> rfl

/-- A routine that adds no record and changes values only. -/
structure Quiet {α : Type} (msgConf : Messages) (x : Scan (Messages×α)) : Prop where
  /-- Every message keeps its setting and its last scan. -/
  settings : ∀ i,setting (x.value.1 i)=setting (msgConf i)
  /-- No record. -/
  commands : x.commands=[]

namespace Quiet

variable {α β : Type} {msgConf : Messages}

/-- A call that does nothing is quiet. -/
theorem pure (a : α) : Quiet msgConf (pure (msgConf,a)) := ⟨fun _ => rfl,rfl⟩

/-- Quiet calls compose. -/
theorem bind {x : Scan (Messages×α)} {f : Messages×α → Scan (Messages×β)} (hx : Quiet msgConf x)
    (hf : Quiet x.value.1 (f x.value)) : Quiet msgConf (x>>=f) where
  settings i := (hf.settings i).trans (hx.settings i)
  commands := by rw [Traced.bind_commands,hx.commands,hf.commands,List.append_nil]

/-- A message is read again into its place. -/
theorem refresh {cl : Arrays Val} {i : ℕ} {f : BitMessageConf → Scan (Messages×α)}
    (hf : Quiet (Function.update msgConf i (refresh cl (msgConf i)).value)
      (f (MessageScanner.refresh cl (msgConf i)).value)) :
    Quiet msgConf (MessageScanner.refresh cl (msgConf i)>>=f) where
  settings k := by
    rw [Traced.bind_value,hf.settings]
    by_cases h : k=i
    · subst h
      rw [Function.update_self,refresh_setting]
    · rw [Function.update_of_ne h]
  commands := by rw [Traced.bind_commands,refresh_commands,hf.commands,List.append_nil]

end Quiet

/-- Counting one message is quiet. -/
theorem countMessage_quiet (cl : Arrays Val) (s : Messages×UInt16) (i : ℕ) :
    Quiet s.1 (countMessage cl s i) := by
  unfold countMessage
  split
  · exact Quiet.refresh (Quiet.pure _)
  · exact Quiet.pure s.2

/-- Counting the active messages is quiet. -/
theorem getActiveMessagesCnt_quiet (cl : Arrays Val) (msgConf : Messages) :
    Quiet msgConf (getActiveMessagesCnt cl msgConf) := by
  have hloop (l : List ℕ) (s : Messages×UInt16) : Quiet s.1 (l.foldlM (countMessage cl) s) := by
    induction l generalizing s with
    | nil => exact Quiet.pure s.2
    | cons i rest ih => exact (countMessage_quiet cl s i).bind (ih _)
  exact hloop _ (msgConf,0)

/-- The search for the n-th active message is quiet. -/
theorem findMessage_quiet (cl : Arrays Val) (num : UInt8) (l : List ℕ) (msgConf : Messages)
    (pos : UInt8) : Quiet msgConf (findMessage cl num l msgConf pos) := by
  induction l generalizing msgConf pos with
  | nil => exact Quiet.pure none
  | cons i rest ih =>
    rw [findMessage]
    split
    · refine Quiet.refresh ?_
      split
      · split
        · exact Quiet.pure _
        · exact ih _ _
      · exact ih _ _
    · exact ih msgConf pos

/-- Looking a message up by its number is quiet. -/
theorem getMessageByNumber_quiet (cl : Arrays Val) (flash : Mem UInt8) (vars : ConfigVars)
    (num : UInt8) (msgConf : Messages) :
    Quiet msgConf (getMessageByNumber cl flash vars num msgConf) :=
  (findMessage_quiet cl num _ msgConf 0).bind (Quiet.pure _)

/-! ## One message over a run -/

/-- The bit that a message watches. -/
def bitOf (cl : Arrays Val) (m : BitMessageConf) : UInt8 :=
  if m.varType=0 then cl .clClusterBits m.varIndex.toNat else cl .clNetBits m.varIndex.toNat

/-- A message in use watches a cluster bit or a net bit. -/
def Watching (m : BitMessageConf) : Prop := m.used≠0 → m.varType=0 ∨ m.varType=2

/-- The records of a message. -/
def recordsOf {α : Type} (i : ℕ) (x : Scan α) : List MessageRecord :=
  (x.commands.filter (·.1=i)).map Prod.snd

/-- The records of one message in two calls are those of the first and then of the second. -/
theorem recordsOf_bind {α β : Type} (i : ℕ) (x : Scan α) (f : α → Scan β) :
    recordsOf i (x>>=f)=recordsOf i x++recordsOf i (f x.value) := by
  unfold recordsOf
  rw [Traced.bind_commands,List.filter_append,List.map_append]

/-- A call that drops the second result of such a routine. -/
theorem Quiet.call {α : Type} {msgConf : Messages} {x : Scan (Messages×α)} (hx : Quiet msgConf x)
    (i : ℕ) : setting ((Prod.fst<$>x).value i)=setting (msgConf i) ∧
      recordsOf i (Prod.fst<$>x)=[] := by
  refine ⟨hx.settings i,?_⟩
  unfold recordsOf
  rw [Traced.map_commands,hx.commands]
  rfl

/-- For the two kinds watched the value read is the bit itself. -/
theorem readValue_value (cl : Arrays Val) {m : BitMessageConf}
    (h : m.varType=0 ∨ m.varType=2) : (readValue cl m).value=bitOf cl m := by
  unfold readValue bitOf
  rcases h with h|h
  · rw [if_pos h,if_pos h]
    rfl
  · rw [if_neg (by rw [h]; decide),if_pos h,if_neg (by rw [h]; decide)]
    rfl

/-- For the two kinds watched the fresh value is the bit itself. -/
theorem refresh_value (cl : Arrays Val) {m : BitMessageConf} (h : m.varType=0 ∨ m.varType=2) :
    (refresh cl m).value={m with value := bitOf cl m} := by
  rw [←readValue_value cl h]
  rfl

/-- What one scan makes of a message. -/
theorem scanMessage_setting (seen : Seen) (i : ℕ) {m : BitMessageConf} (h : Watching m) :
    setting (scanMessage seen i m).value=
      if m.used≠0 then {setting m with prevValue := bitOf seen.cl m} else setting m := by
  unfold scanMessage
  by_cases hu : m.used≠0
  · rw [if_pos hu,if_pos hu,Traced.bind_value,refresh_value seen.cl (h hu)]
    rfl
  · rw [if_neg hu,if_neg hu]
    rfl

/-- A record is added exactly on a change to a non-zero value. -/
theorem addRecord_commands (seen : Seen) (i : ℕ) (m : BitMessageConf) :
    (addRecord seen i m).commands=
      if m.value≠m.prevValue ∧ m.value≠0 then [(i,record seen i m)] else [] := by
  unfold addRecord
  split <;> rfl

/-- The records of a round are those of its test. -/
theorem scanMessage_commands (seen : Seen) (i : ℕ) (m : BitMessageConf) :
    (scanMessage seen i m).commands=
      if m.used≠0 then (addRecord seen i (refresh seen.cl m).value).commands else [] := by
  unfold scanMessage
  by_cases hu : m.used≠0
  · rw [if_pos hu,if_pos hu,Traced.bind_commands,refresh_commands,List.nil_append,
      Traced.bind_commands,Traced.pure_commands,List.append_nil]
  · rw [if_neg hu,if_neg hu]
    rfl

/-- The scan of one message adds records of that message alone. -/
theorem scanMessage_tag (seen : Seen) (i : ℕ) (m : BitMessageConf) :
    ∀ c∈(scanMessage seen i m).commands,c.1=i := by
  intro c hc
  rw [scanMessage_commands,addRecord_commands] at hc
  split at hc
  · split at hc
    · rw [List.mem_singleton.mp hc]
    · exact absurd hc List.not_mem_nil
  · exact absurd hc List.not_mem_nil

/-- A scan calls for a record of a message: its bit is nonzero and was
otherwise at the last scan. -/
def CallsFor (seen : Seen) (m : BitMessageConf) : Prop :=
  m.used≠0 ∧ bitOf seen.cl m≠m.prevValue ∧ bitOf seen.cl m≠0

/-- Whether a scan calls for a record can be decided. -/
instance (seen : Seen) (m : BitMessageConf) : Decidable (CallsFor seen m) :=
  inferInstanceAs (Decidable (_ ∧ _))

variable (flash : Mem UInt8) (vars : ConfigVars)

/-- The records of a message in one scan. -/
theorem scanMessages_records (seen : Seen) (msgConf : Messages) (i : Fin maxMsgCnt)
    (h : Watching (msgConf i)) : recordsOf i (scanMessages seen msgConf)=
      if CallsFor seen (msgConf i) then
        [record seen i {msgConf i with value := bitOf seen.cl (msgConf i)}]
      else [] := by
  unfold recordsOf scanMessages
  rw [Traced.rows_commands_of (scanMessage_tag seen) List.nodup_range msgConf
    (List.mem_range.mpr i.isLt),scanMessage_commands]
  by_cases hc : CallsFor seen (msgConf i)
  · rw [if_pos hc,if_pos hc.1,refresh_value seen.cl (h hc.1),addRecord_commands,if_pos hc.2]
    rfl
  · rw [if_neg hc]
    by_cases hu : (msgConf i).used≠0
    · rw [if_pos hu,refresh_value seen.cl (h hu),addRecord_commands,if_neg fun hr => hc ⟨hu,hr⟩]
      rfl
    · rw [if_neg hu]
      rfl

/-- A message after one call: a scan keeps the bit that it saw. -/
def afterCall (m : BitMessageConf) : Op → BitMessageConf
  | .scan seen =>
    if m.used≠0 then {setting m with prevValue := bitOf seen.cl m} else setting m
  | _ => setting m

/-- One operation moves the value of a watched message as the operation says. -/
theorem step_setting (msgConf : Messages) (op : Op) (i : Fin maxMsgCnt)
    (h : Watching (msgConf i)) :
    setting ((step flash vars msgConf op).value i)=afterCall (msgConf i) op := by
  cases op with
  | scan seen =>
    have hrow := Traced.rows_value (f:=scanMessage seen) (List.nodup_range (n:=maxMsgCnt)) msgConf i
    rw [if_pos (List.mem_range.mpr i.isLt)] at hrow
    exact (congrArg setting hrow).trans (scanMessage_setting seen i h)
  | activeCnt cl => exact ((getActiveMessagesCnt_quiet cl msgConf).call i).1
  | byNumber cl num => exact ((getMessageByNumber_quiet cl flash vars num msgConf).call i).1

/-- What a call adds for a message. -/
theorem step_records (msgConf : Messages) (op : Op) (i : Fin maxMsgCnt)
    (h : Watching (msgConf i)) : recordsOf i (step flash vars msgConf op)=
      match op with
      | .scan seen =>
        if CallsFor seen (msgConf i) then
          [record seen i {msgConf i with value := bitOf seen.cl (msgConf i)}]
        else []
      | _ => [] := by
  cases op with
  | scan seen => exact scanMessages_records seen msgConf i h
  | activeCnt cl => exact ((getActiveMessagesCnt_quiet cl msgConf).call i).2
  | byNumber cl num => exact ((getMessageByNumber_quiet cl flash vars num msgConf).call i).2

/-! ## Records over a run -/

/-- The values of a bit that the scans of a run see. -/
def scanned (m : BitMessageConf) : List Op → List UInt8
  | [] => []
  | .scan seen::ops => bitOf seen.cl m::scanned m ops
  | _::ops => scanned m ops

/-- The values that are nonzero and differ from the one before. -/
def changes : (prev : UInt8) → List UInt8 → ℕ
  | _,[] => 0
  | prev,v::vs => (if v≠prev ∧ v≠0 then 1 else 0)+changes v vs

/-- The nonzero values behind a zero. -/
def risingEdges : (prev : UInt8) → List UInt8 → ℕ
  | _,[] => 0
  | prev,v::vs => (if v≠0 ∧ prev=0 then 1 else 0)+risingEdges v vs

/-- A bit that is only set and cleared changes at its rising edges. -/
theorem changes_eq_risingEdges {prev : UInt8} {vs : List UInt8} (hprev : prev=0 ∨ prev=1)
    (h : ∀ v∈vs,v=0 ∨ v=1) : changes prev vs=risingEdges prev vs := by
  induction vs generalizing prev with
  | nil => rfl
  | cons v vs ih =>
    obtain ⟨hv,hvs⟩ := List.forall_mem_cons.mp h
    rw [changes,risingEdges,ih hv hvs]
    rcases hprev with rfl|rfl <;> rcases hv with rfl|rfl <;> rfl

/-- Two messages with the same configuration. -/
structure SameConf (m m' : BitMessageConf) : Prop where
  /-- used. -/
  used : m.used=m'.used
  /-- message_type. -/
  messageType : m.messageType=m'.messageType
  /-- var_type. -/
  varType : m.varType=m'.varType
  /-- var_index. -/
  varIndex : m.varIndex=m'.varIndex

/-- Two messages of one configuration are watched together. -/
theorem SameConf.watching {m m' : BitMessageConf} (h : SameConf m m') (hw : Watching m') :
    Watching m := by
  intro hu
  rw [h.varType]
  exact hw (by rwa [h.used] at hu)

/-- Two messages of one configuration are scanned to the same values. -/
theorem SameConf.scanned {m m' : BitMessageConf} (h : SameConf m m') (ops : List Op) :
    scanned m ops=scanned m' ops := by
  induction ops with
  | nil => rfl
  | cons op ops ih =>
    cases op with
    | scan seen =>
      rw [MessageScanner.scanned,MessageScanner.scanned,ih,bitOf,bitOf,h.varType,h.varIndex]
    | activeCnt cl => exact ih
    | byNumber cl num => exact ih

/-- Messages that agree in the setting have one configuration. -/
theorem SameConf.of_setting {m m' : BitMessageConf} (h : setting m=setting m') : SameConf m m' where
  used := (congrArg BitMessageConf.used h :)
  messageType := (congrArg BitMessageConf.messageType h :)
  varType := (congrArg BitMessageConf.varType h :)
  varIndex := (congrArg BitMessageConf.varIndex h :)

/-- A scan does not touch a message's configuration. -/
theorem scanMessage_sameConf (seen : Seen) (i : ℕ) (m : BitMessageConf) :
    SameConf (scanMessage seen i m).value m := by
  unfold scanMessage
  split <;> exact ⟨rfl,rfl,rfl,rfl⟩

/-- A call changes values only. -/
theorem step_sameConf (msgConf : Messages) (op : Op) (i : ℕ) :
    SameConf ((step flash vars msgConf op).value i) (msgConf i) := by
  cases op with
  | scan seen =>
    rw [step,scanMessages,Traced.rows_value List.nodup_range]
    split
    · exact scanMessage_sameConf seen i (msgConf i)
    · exact ⟨rfl,rfl,rfl,rfl⟩
  | activeCnt cl => exact SameConf.of_setting ((getActiveMessagesCnt_quiet cl msgConf).call i).1
  | byNumber cl num =>
    exact SameConf.of_setting ((getMessageByNumber_quiet cl flash vars num msgConf).call i).1

/-- The value that the next scan compares with. -/
theorem step_prevValue (msgConf : Messages) (op : Op) (i : Fin maxMsgCnt)
    (h : Watching (msgConf i)) : ((step flash vars msgConf op).value i).prevValue=
      (afterCall (msgConf i) op).prevValue := by
  rw [←step_setting flash vars msgConf op i h]
  rfl

/-- A run is its first operation and the run of the rest. -/
theorem run_cons (msgConf : Messages) (op : Op) (ops : List Op) :
    run flash vars msgConf (op::ops)=
      (step flash vars msgConf op>>=fun msgConf => run flash vars msgConf ops) := rfl

/-- The number of records of a message in use is that of the changes of its bit. -/
theorem run_records_length (ops : List Op) (msgConf : Messages) (i : Fin maxMsgCnt)
    (h : Watching (msgConf i)) : (recordsOf i (run flash vars msgConf ops)).length=
      if (msgConf i).used≠0 then changes (msgConf i).prevValue (scanned (msgConf i) ops)
      else 0 := by
  induction ops generalizing msgConf with
  | nil => exact (ite_self 0).symm
  | cons op ops ih =>
    have hsame := step_sameConf flash vars msgConf op i
    rw [run_cons,recordsOf_bind,List.length_append,step_records flash vars msgConf op i h,
      ih _ (hsame.watching h),hsame.used,hsame.scanned,step_prevValue flash vars msgConf op i h]
    by_cases hu : (msgConf i).used≠0
    · rw [if_pos hu,if_pos hu]
      cases op with
      | scan seen =>
        simp only [afterCall,if_pos hu]
        rw [scanned,changes]
        by_cases hc : CallsFor seen (msgConf i)
        · rw [if_pos hc,if_pos hc.2]
          rfl
        · rw [if_neg hc,if_neg fun hv => hc ⟨hu,hv⟩]
          rfl
      | activeCnt cl => exact Nat.zero_add _
      | byNumber cl num => exact Nat.zero_add _
    · rw [if_neg hu,if_neg hu]
      cases op with
      | scan seen =>
        dsimp only
        rw [if_neg fun hc => hu hc.1]
        rfl
      | activeCnt cl => rfl
      | byNumber cl num => rfl

/-- A record names its message: the type, the variable type and the index. -/
structure Carries (m : BitMessageConf) (rec : MessageRecord) : Prop where
  /-- message_id. -/
  messageId : rec.messageId=msgArchBit
  /-- message_type. -/
  messageType : rec.messageType=m.messageType
  /-- The payload is a version, the variable and its value. -/
  length : rec.length=5
  /-- The variable type in the payload. -/
  varType : rec.ptr 1=m.varType
  /-- The index in the payload. -/
  varIndex : join16 (rec.ptr 2) (rec.ptr 3)=m.varIndex

/-- The record added carries the message's own data. -/
theorem record_carries (seen : Seen) (i : ℕ) (m : BitMessageConf) (value : UInt8) :
    Carries m (record seen i {m with value := value}) :=
  ⟨rfl,rfl,rfl,rfl,join16_split16 m.varIndex⟩

/-- A record that carries a message's data carries those of any message of the same
configuration. -/
theorem SameConf.carries {m m' : BitMessageConf} (h : SameConf m m') {rec : MessageRecord}
    (hc : Carries m rec) : Carries m' rec :=
  ⟨hc.messageId,hc.messageType.trans h.messageType,hc.length,hc.varType.trans h.varType,
    hc.varIndex.trans h.varIndex⟩

/-- Every record added for a message names it. -/
theorem run_records_carry (ops : List Op) (msgConf : Messages) (i : Fin maxMsgCnt)
    (h : Watching (msgConf i)) :
    ∀ rec∈recordsOf i (run flash vars msgConf ops),Carries (msgConf i) rec := by
  induction ops generalizing msgConf with
  | nil => exact fun rec hrec => absurd hrec List.not_mem_nil
  | cons op ops ih =>
    have hsame := step_sameConf flash vars msgConf op i
    intro rec hrec
    rw [run_cons,recordsOf_bind,step_records flash vars msgConf op i h] at hrec
    rcases List.mem_append.mp hrec with hnow|hlater
    · cases op with
      | scan seen =>
        dsimp only at hnow
        split at hnow
        · rw [List.mem_singleton.mp hnow]
          exact record_carries seen i (msgConf i) (bitOf seen.cl (msgConf i))
        · exact absurd hnow List.not_mem_nil
      | activeCnt cl => exact absurd hnow List.not_mem_nil
      | byNumber cl num => exact absurd hnow List.not_mem_nil
    · exact hsame.carries (ih _ (hsame.watching h) rec hlater)

/-! ## Tables of a configuration -/

/-- The bit of a message lies in its array. -/
def InRange (m : BitMessageConf) : Prop :=
  (m.varType=0 → m.varIndex.toNat<clustBitsCnt) ∧ (m.varType=2 → m.varIndex.toNat<netBitsCnt)

/-- msg_conf behind read_message_conf, with bits that exist. -/
structure MessageTable where
  /-- The messages. -/
  msgConf : Messages
  /-- Both values of every message are clear. -/
  clear : ∀ i < maxMsgCnt,(msgConf i).value=0 ∧ (msgConf i).prevValue=0
  /-- Every message in use watches a cluster bit or a net bit. -/
  watching : ∀ i < maxMsgCnt,Watching (msgConf i)
  /-- Its index is inside the array. -/
  inRange : ∀ i < maxMsgCnt,(msgConf i).used≠0 → InRange (msgConf i)

/-- read_message_conf gives such a table when the configuration names bits that exist. -/
def loadedTable (msgConf : Messages)
    (hkind : ∀ i < maxMsgCnt,Watching (readMessageConf flash vars msgConf i))
    (hrange : ∀ i < maxMsgCnt,(readMessageConf flash vars msgConf i).used≠0 →
      InRange (readMessageConf flash vars msgConf i)) : MessageTable where
  msgConf := readMessageConf flash vars msgConf
  clear _ hi := readMessageConf_values hi
  watching := hkind
  inRange := hrange

/-- For every table, every order of the calls and every state of the bits at
each: a message in use has one record for every scan at which its bit is
nonzero and is not what the last scan saw, and each record names it. -/
theorem records_eq_changes (table : MessageTable) (flash : Mem UInt8) (vars : ConfigVars)
    (ops : List Op) (i : Fin maxMsgCnt) :
    (recordsOf i (run flash vars table.msgConf ops)).length=
      (if (table.msgConf i).used≠0 then changes 0 (scanned (table.msgConf i) ops) else 0) ∧
    ∀ rec∈recordsOf i (run flash vars table.msgConf ops),Carries (table.msgConf i) rec := by
  have hwatching := table.watching i i.isLt
  have hcount := run_records_length flash vars ops table.msgConf i hwatching
  rw [(table.clear i i.isLt).2] at hcount
  exact ⟨hcount,run_records_carry flash vars ops table.msgConf i hwatching⟩

/-- The records of a message whose bit is only set and cleared are the rising
edges that the scans see. -/
theorem run_records_risingEdges (table : MessageTable) (ops : List Op) (i : Fin maxMsgCnt)
    (h : ∀ v∈scanned (table.msgConf i) ops,v=0 ∨ v=1) :
    (recordsOf i (run flash vars table.msgConf ops)).length=
      if (table.msgConf i).used≠0 then risingEdges 0 (scanned (table.msgConf i) ops) else 0 := by
  rw [run_records_length flash vars ops table.msgConf i (table.watching i i.isLt),
    (table.clear i i.isLt).2,changes_eq_risingEdges (Or.inl rfl) h]

/-- One message, on the first cluster bit. -/
def oneMessage : MessageTable where
  msgConf i := ⟨0,0,0,0,0,if i=0 then 1 else 0⟩
  clear _ _ := ⟨rfl,rfl⟩
  watching _ _ _ := Or.inl rfl
  inRange _ _ _ := ⟨fun _ => (by decide : (0 : UInt16).toNat<clustBitsCnt),
    fun _ => (by decide : (0 : UInt16).toNat<netBitsCnt)⟩

/-- All cluster bits hold a value. -/
def allBits (value : UInt8) : Arrays Val
  | .clClusterBits => fun _ => value
  | array => zeroArrays array

/-- A scan of such bits. -/
def scanOf (value : UInt8) : Op := .scan ⟨allBits value,fun _ => 0,fun _ _ => 0⟩

/-- A bit that goes from 1 to 2 has a second record without a rising edge. -/
theorem not_records_eq_risingEdges : ¬∀ (table : MessageTable) (flash : Mem UInt8)
    (vars : ConfigVars) (ops : List Op) (i : Fin maxMsgCnt),
    (recordsOf i (run flash vars table.msgConf ops)).length=
      if (table.msgConf i).used≠0 then risingEdges 0 (scanned (table.msgConf i) ops) else 0 := by
  intro h
  have hedges := h oneMessage (fun _ => 0) zeroVars [scanOf 1,scanOf 2] 0
  rw [run_records_length _ _ _ _ _ (oneMessage.watching 0 (by decide))] at hedges
  exact absurd hedges (by decide)

end BT816Display.MessageScanner
