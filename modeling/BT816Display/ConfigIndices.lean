import BT816Display.Menu
import BT816Display.MessageScanner

/-!
# Indices that come from the configuration

The scanner takes the index of a bit from the record of a message, and the
two list screens of global_bits_menu.c and global_integers_menu.c run up to
the number of names. The reads of the cluster structure in every run of these
functions behind read_config and read_message_conf.
-/

namespace BT816Display.ConfigIndices

open ArrayAccess ByteMemory BigEndian Keys MessageConf MessageScanner PlcData
open Menu (MenuList)
open Traced (read issue loop Reads)

/-! ## The two list screens -/

/-- What a list screen draws for its data. -/
inductive ListItem where
  /-- One line: the name, the number and the value. -/
  | row (y : ℕ) (name number : List UInt8) (value : UInt32)
  /-- The sign for more records above. -/
  | up
  /-- The sign for more records below. -/
  | down

/-- The variables of a list screen. -/
structure ListUi where
  /-- prev_key. -/
  prevKey : UInt16
  /-- first_visible_record. -/
  firstVisibleRecord : ℕ

/-- A drawing routine that reads the cluster structure. -/
abbrev Draw := Traced (Access Val) ListItem

/-- max_records_cnt. -/
abbrev maxRecordsCnt : ℕ := 10

/-- The text for a record without a name. -/
abbrev noName : List UInt8 := [46,46,46]

/-- An ASCII digit as the source computes it. -/
def ascii (n : ℕ) : UInt8 := UInt8.ofNat (n+48)

/-- What the two screens differ in. -/
structure ListKind where
  /-- The name of a record. -/
  name : UInt16 → UInt16 → List UInt8
  /-- The number of records. -/
  cnt : UInt16
  /-- The text in num_buf. -/
  number : ℕ → List UInt8
  /-- The column entry of a record. -/
  value : ℕ → Draw UInt32
  /-- Records that a key moves by. -/
  stride : ℕ

section

variable (kind : ListKind)

/-- One round of the loop over the records. -/
def showRecord (first i : ℕ) : Draw Unit :=
  if first ≤ i ∧ i<first+maxRecordsCnt then do
    let name := kind.name (UInt16.ofNat i) 41
    let value ← kind.value i
    issue (.row (95+(i-first)*30) (if name=[] then noName else name) (kind.number i) value)
  else return ()

/-- A sign with its condition. -/
def sign (c : Prop) [Decidable c] (item : ListItem) : Draw Unit :=
  if c then issue item else return ()

/-- The list with its signs. -/
def drawList (first : ℕ) : Draw Unit := do
  loop kind.cnt.toNat (showRecord kind first)
  sign (first≠0) .up
  sign (first+maxRecordsCnt<kind.cnt.toNat) .down

/-- The first record behind a new key. -/
def moveList (first : ℕ) (key : UInt16) : ℕ :=
  if key=keyUp then if kind.stride≤first then first-kind.stride else 0
  else if key=keyDown then
    if first+maxRecordsCnt<kind.cnt.toNat then first+kind.stride else first
  else first

/-- The body of both screens, with current_menu. -/
def listMenu (ui : ListUi) (currentMenu : MenuList) (key : UInt16) : Draw (ListUi×MenuList) := do
  drawList kind ui.firstVisibleRecord
  if key≠ui.prevKey then
    return (⟨kept key,moveList kind ui.firstVisibleRecord key⟩,
      if key=keyLeft then .diagnostic2 else currentMenu)
  else return (⟨kept key,ui.firstVisibleRecord⟩,currentMenu)

end

section

variable (flash : Mem UInt8) (vars : ConfigVars) (cl : Arrays Val)

/-- The list of global_bits_menu: a page at a time. -/
def bitsKind : ListKind where
  name := getClusterBitName flash vars
  cnt := vars.clustBitNamesCnt
  number i := [66,ascii ((i+1)/100),ascii ((i+1)%100/10),ascii ((i+1)%10)]
  value i := do
    let value ← read (.load .clClusterBits i) (cl .clClusterBits i)
    return value.toUInt32
  stride := maxRecordsCnt

/-- global_bits_menu. -/
def globalBitsMenu : ListUi → MenuList → UInt16 → Draw (ListUi×MenuList) :=
  listMenu (bitsKind flash vars cl)

/-- The list of global_integers_menu: a record at a time. -/
def integersKind : ListKind where
  name := getClusterRegName flash vars
  cnt := vars.clustRegNamesCnt
  number i := [73,79,ascii ((i+1)/10),ascii ((i+1)%10)]
  value i := do
    let value ← read (.load .clClusterRegs i) (cl .clClusterRegs i)
    return value.toUInt32
  stride := 1

/-- global_integers_menu. -/
def globalIntegersMenu : ListUi → MenuList → UInt16 → Draw (ListUi×MenuList) :=
  listMenu (integersKind flash vars cl)

end

/-! ## Reads of the list screens -/

/-- A read of the cluster structure inside its array. -/
abbrev Inside : Access Val → Prop := Access.InBounds size

/-- The records on the screen. -/
def Visible (kind : ListKind) (first i : ℕ) : Prop :=
  i<kind.cnt.toNat ∧ first ≤ i ∧ i<first+maxRecordsCnt

variable {kind : ListKind}

/-- A screen reads the value of every visible record and nothing else. -/
theorem listMenu_reads (P : Access Val → Prop) (ui : ListUi) (currentMenu : MenuList)
    (key : UInt16) : Reads P (listMenu kind ui currentMenu key) ↔
      ∀ i,Visible kind ui.firstVisibleRecord i → Reads P (kind.value i) := by
  have hsign (c : Prop) [Decidable c] (item : ListItem) : Reads P (sign c item) := by
    unfold sign
    split
    · exact (Traced.reads_issue P item).mpr trivial
    · exact (Traced.reads_pure P ()).mpr trivial
  have hlist : Reads P (listMenu kind ui currentMenu key) ↔
      ∀ i<kind.cnt.toNat,Reads P (showRecord kind ui.firstVisibleRecord i) := by
    unfold listMenu drawList
    simp only [Traced.reads_bind,Traced.reads_loop,Traced.reads_ite,Traced.reads_pure,hsign,
      implies_true,and_true]
  rw [hlist]
  refine forall_congr' fun i => ?_
  unfold Visible
  rw [and_imp]
  refine imp_congr_right fun _ => ?_
  unfold showRecord
  simp only [Traced.reads_ite,Traced.reads_bind,Traced.reads_issue,Traced.reads_pure,and_true,
    implies_true]

theorem load_inside (array : ArrayName) (i : ℕ) : Inside (.load array i) ↔ i<size array := by
  unfold Inside Access.InBounds
  simp only [Access.index,Access.array]
  omega

theorem bitsKind_inside (flash : Mem UInt8) (vars : ConfigVars) (cl : Arrays Val) (i : ℕ) :
    Reads Inside ((bitsKind flash vars cl).value i) ↔ i<clustBitsCnt := by
  unfold bitsKind
  simp only [Traced.reads_bind,Traced.reads_read,Traced.reads_pure,and_true]
  exact load_inside _ i

theorem integersKind_inside (flash : Mem UInt8) (vars : ConfigVars) (cl : Arrays Val) (i : ℕ) :
    Reads Inside ((integersKind flash vars cl).value i) ↔ i<clusterRegsCnt := by
  unfold integersKind
  simp only [Traced.reads_bind,Traced.reads_read,Traced.reads_pure,and_true]
  exact load_inside _ i

/-! ## Reads of the scanner -/

theorem readValue_inside (cl : Arrays Val) (m : BitMessageConf) :
    Reads Inside (readValue cl m) ↔ InRange m := by
  unfold readValue InRange
  rw [Traced.reads_ite,Traced.reads_ite,Traced.reads_read,Traced.reads_read,Traced.reads_pure,
    load_inside,load_inside]
  refine and_congr_right fun _ => ?_
  constructor
  · intro h htype
    exact (h (by rw [htype]; decide)).1 htype
  · intro h _
    exact ⟨h,fun _ => trivial⟩

theorem refresh_inside (cl : Arrays Val) (m : BitMessageConf) :
    Reads Inside (refresh cl m) ↔ InRange m := by
  unfold refresh
  rw [Traced.reads_bind,readValue_inside,Traced.reads_pure,and_true]

/-- All bits of messages in use exist. -/
def Ranged (msgConf : Messages) : Prop := ∀ i < maxMsgCnt,(msgConf i).used≠0 → InRange (msgConf i)

theorem inRange_congr {m m' : BitMessageConf} (h : SameConf m m') : InRange m ↔ InRange m' := by
  unfold InRange
  rw [h.varType,h.varIndex]

theorem ranged_congr {msgConf msgConf' : Messages} (h : ∀ i,SameConf (msgConf i) (msgConf' i)) :
    Ranged msgConf ↔ Ranged msgConf' := by
  unfold Ranged
  refine forall₂_congr fun i _ => ?_
  rw [(h i).used,inRange_congr (h i)]

/-- A scan reads the bit of every message in use. -/
theorem scanMessages_inside (seen : Seen) (msgConf : Messages) :
    Reads Inside (scanMessages seen msgConf) ↔ Ranged msgConf := by
  have hround (i : ℕ) (m : BitMessageConf) :
      Reads Inside (scanMessage seen i m) ↔ (m.used≠0 → InRange m) := by
    have hadd (m : BitMessageConf) : Reads Inside (addRecord seen i m) := by
      unfold addRecord
      rw [Traced.reads_ite,Traced.reads_issue,Traced.reads_pure]
      exact ⟨fun _ => trivial,fun _ => trivial⟩
    unfold scanMessage
    simp only [Traced.reads_ite,Traced.reads_bind,refresh_inside,hadd,Traced.reads_pure,and_true,
      implies_true]
  unfold scanMessages Ranged
  rw [Traced.reads_rows Inside List.nodup_range]
  simp only [List.mem_range,hround]

/-- The list of active messages reads bits of messages in use only. -/
theorem getActiveMessagesCnt_inside (cl : Arrays Val) {msgConf : Messages} (h : Ranged msgConf) :
    Reads Inside (getActiveMessagesCnt cl msgConf) := by
  have hloop (l : List ℕ) (s : Messages×UInt16) (hl : ∀ i∈l,i < maxMsgCnt) (hs : Ranged s.1) :
      Reads Inside (l.foldlM (countMessage cl) s) := by
    induction l generalizing s with
    | nil => exact (Traced.reads_pure Inside s).mpr trivial
    | cons i rest ih =>
      obtain ⟨hi,hrest⟩ := List.forall_mem_cons.mp hl
      rw [List.foldlM_cons,Traced.reads_bind]
      constructor
      · unfold countMessage
        simp only [Traced.reads_ite,Traced.reads_bind,refresh_inside,Traced.reads_pure,and_true,
          implies_true]
        exact hs i hi
      · refine ih _ hrest ?_
        exact (ranged_congr fun k =>
          SameConf.of_setting ((countMessage_quiet cl s i).settings k)).mpr hs
  exact hloop _ _ (fun i => List.mem_range.mp) h

theorem findMessage_inside (cl : Arrays Val) (num : UInt8) {l : List ℕ} (hl : ∀ i∈l,i < maxMsgCnt)
    {msgConf : Messages} (h : Ranged msgConf) (pos : UInt8) :
    Reads Inside (findMessage cl num l msgConf pos) := by
  induction l generalizing msgConf pos with
  | nil => exact (Traced.reads_pure Inside _).mpr trivial
  | cons i rest ih =>
    obtain ⟨hi,hrest⟩ := List.forall_mem_cons.mp hl
    have hupdate : Ranged (Function.update msgConf i (refresh cl (msgConf i)).value) := by
      refine (ranged_congr fun k => ?_).mpr h
      by_cases hk : k=i
      · subst hk
        rw [Function.update_self]
        exact ⟨rfl,rfl,rfl,rfl⟩
      · rw [Function.update_of_ne hk]
        exact ⟨rfl,rfl,rfl,rfl⟩
    rw [findMessage,Traced.reads_ite,Traced.reads_bind,Traced.reads_ite,Traced.reads_ite]
    refine ⟨fun hu => ⟨(refresh_inside cl _).mpr (h i hi hu),fun _ => ⟨fun _ => ?_,fun _ => ?_⟩,
      fun _ => ?_⟩,fun _ => ih hrest h pos⟩
    · exact (Traced.reads_pure Inside _).mpr trivial
    · exact ih hrest hupdate _
    · exact ih hrest hupdate pos

/-- Every call of the scanner's module on messages whose bits exist. -/
theorem step_inside (flash : Mem UInt8) (vars : ConfigVars) {msgConf : Messages}
    (h : Ranged msgConf) (op : MessageScanner.Op) :
    Reads Inside (MessageScanner.step flash vars msgConf op) := by
  cases op with
  | scan seen => exact (scanMessages_inside seen msgConf).mpr h
  | activeCnt cl =>
    rw [MessageScanner.step,Traced.reads_map]
    exact getActiveMessagesCnt_inside cl h
  | byNumber cl num =>
    rw [MessageScanner.step,Traced.reads_map,getMessageByNumber,Traced.reads_bind]
    exact ⟨findMessage_inside cl num (fun i => List.mem_range.mp) h 0,
      (Traced.reads_pure Inside _).mpr trivial⟩

/-- All calls on such messages in any order. -/
theorem run_inside (flash : Mem UInt8) (vars : ConfigVars) (ops : List MessageScanner.Op)
    {msgConf : Messages} (h : Ranged msgConf) :
    Reads Inside (MessageScanner.run flash vars msgConf ops) := by
  induction ops generalizing msgConf with
  | nil => exact (Traced.reads_pure Inside msgConf).mpr trivial
  | cons op ops ih =>
    rw [run_cons,Traced.reads_bind]
    have hsame := step_sameConf flash vars msgConf op
    exact ⟨step_inside flash vars h op,ih ((ranged_congr hsame).mpr h)⟩

/-- The bits of a table are read inside their arrays in every run. -/
theorem table_inside (flash : Mem UInt8) (vars : ConfigVars) (ops : List MessageScanner.Op)
    (table : MessageTable) : Reads Inside (MessageScanner.run flash vars table.msgConf ops) :=
  run_inside flash vars ops table.inRange

/-! ## Runs behind the configuration -/

/-- The variables of all these functions. -/
structure Screens where
  /-- msg_conf. -/
  msgConf : Messages
  /-- The variables of global_bits_menu. -/
  bits : ListUi
  /-- The variables of global_integers_menu. -/
  integers : ListUi
  /-- current_menu. -/
  currentMenu : MenuList

/-- A call of one of the functions. -/
inductive Op where
  /-- A call of the scanner's module. -/
  | message (op : MessageScanner.Op)
  /-- global_bits_menu. -/
  | globalBits (cl : Arrays Val) (key : UInt16)
  /-- global_integers_menu. -/
  | globalIntegers (cl : Arrays Val) (key : UInt16)

section

variable (flash : Mem UInt8)

/-- The variables that read_config loads at the start. -/
def loadedVars : ConfigVars := readConfig flash zeroVars

/-- All variables behind read_config and read_message_conf. -/
def start : Screens where
  msgConf := readMessageConf flash (loadedVars flash) fun _ => ⟨0,0,0,0,0,0⟩
  bits := ⟨0,0⟩
  integers := ⟨0,0⟩
  currentMenu := .state

/-- A call: the variables behind it and the reads of the cluster structure. -/
def call (s : Screens) : Op → Screens×List (Access Val)
  | .message op =>
    let x := MessageScanner.step flash (loadedVars flash) s.msgConf op
    ({s with msgConf := x.value},x.reads)
  | .globalBits cl key =>
    let x := globalBitsMenu flash (loadedVars flash) cl s.bits s.currentMenu key
    ({s with bits := x.value.1, currentMenu := x.value.2},x.reads)
  | .globalIntegers cl key =>
    let x := globalIntegersMenu flash (loadedVars flash) cl s.integers s.currentMenu key
    ({s with integers := x.value.1, currentMenu := x.value.2},x.reads)

/-- The variables after calls in this order. -/
def after (ops : List Op) : Screens := ops.foldl (fun s op => (call flash s op).1) (start flash)

/-- Every read of every call in every run from the start is inside its array. -/
def AllInside : Prop :=
  ∀ ops op,∀ a∈(call flash (after flash ops) op).2,Inside a

/-- The record of a message names a bit that exists. -/
def RecordInRange (mem : Mem UInt8) : Prop :=
  (mem 40=0 → (join16 (mem 41) (mem 42)).toNat<clustBitsCnt) ∧
    (mem 40=2 → (join16 (mem 41) (mem 42)).toNat<netBitsCnt)

/-- The configuration names bits and registers that exist. -/
structure IndicesExist : Prop where
  /-- There are no more names than cluster bits. -/
  bitNames : (loadedVars flash).clustBitNamesCnt.toNat ≤ clustBitsCnt
  /-- There are no more names than cluster registers. -/
  regNames : (loadedVars flash).clustRegNamesCnt.toNat ≤ clusterRegsCnt
  /-- The messages have records of bits that exist. -/
  messages : ∀ i < maxMsgCnt,Configured (loadedVars flash) i →
    RecordInRange (messageRecord flash (loadedVars flash) i)

end

variable {flash : Mem UInt8}

theorem after_concat (ops : List Op) (op : Op) :
    after flash (ops++[op])=(call flash (after flash ops) op).1 := by
  unfold after
  rw [List.foldl_concat]

/-- The table that read_message_conf fills in. -/
theorem start_ranged : Ranged (start flash).msgConf ↔
    ∀ i < maxMsgCnt,Configured (loadedVars flash) i →
      RecordInRange (messageRecord flash (loadedVars flash) i) := by
  unfold Ranged start
  dsimp only
  refine forall₂_congr fun i hi => ?_
  rw [readMessageConf_used hi]
  refine imp_congr_right fun hconf => ?_
  unfold InRange RecordInRange
  rw [(readMessageConf_link hi hconf).1,(readMessageConf_link hi hconf).2]

/-- No call changes the configuration of a message. -/
theorem after_ranged (ops : List Op) :
    Ranged (after flash ops).msgConf ↔ Ranged (start flash).msgConf := by
  induction ops using List.reverseRecOn with
  | nil => rfl
  | append_singleton ops op ih =>
    rw [after_concat,←ih]
    cases op with
    | message op => exact ranged_congr (step_sameConf flash (loadedVars flash) _ op)
    | globalBits cl key => rfl
    | globalIntegers cl key => rfl

/-- A configuration whose indices exist is read within the arrays. -/
theorem IndicesExist.allInside (h : IndicesExist flash) : AllInside flash := by
  intro ops op
  have hranged := (after_ranged ops).mpr (start_ranged.mpr h.messages)
  cases op with
  | message op => exact step_inside flash (loadedVars flash) hranged op
  | globalBits cl key =>
    refine (listMenu_reads Inside _ _ key).mpr fun i hi => ?_
    exact (bitsKind_inside flash (loadedVars flash) cl i).mpr (hi.1.trans_le h.bitNames)
  | globalIntegers cl key =>
    refine (listMenu_reads Inside _ _ key).mpr fun i hi => ?_
    exact (integersKind_inside flash (loadedVars flash) cl i).mpr (hi.1.trans_le h.regNames)

/-- Pressing and releasing the key moves the list on. -/
theorem exists_moved (kind : ListKind) (op : UInt16 → Op) (ui : Screens → ListUi)
    (hop : ∀ s key,ui (call flash s (op key)).1=
      (listMenu kind (ui s) s.currentMenu key).value.1) (h0 : ui (start flash)=⟨0,0⟩) (n : ℕ)
    (hn : n*kind.stride+maxRecordsCnt<kind.cnt.toNat+kind.stride) :
    ∃ ops,ui (after flash ops)=⟨0,n*kind.stride⟩ := by
  induction n with
  | zero => exact ⟨[],by rw [Nat.zero_mul]; exact h0⟩
  | succ n ih =>
    rw [Nat.succ_mul] at hn ⊢
    obtain ⟨ops,hops⟩ := ih (by omega)
    have hdown : ui (after flash (ops++[op keyDown]))=
        ⟨kept keyDown,n*kind.stride+kind.stride⟩ := by
      rw [after_concat,hop,hops,listMenu,Traced.bind_value,if_pos (by decide : keyDown≠0)]
      unfold moveList
      rw [Traced.pure_value,if_neg (by decide),if_pos rfl,if_pos (by dsimp only; omega)]
    refine ⟨ops++[op keyDown]++[op 0],?_⟩
    rw [after_concat,hop,hdown,listMenu,Traced.bind_value,
      if_pos (by decide : (0 : UInt16)≠kept keyDown)]
    unfold moveList
    rw [Traced.pure_value,if_neg (by decide),if_neg (by decide)]
    rfl

/-- A list with more names than values shows the first value that is not there. -/
theorem cnt_le_of_inside (kind : ListKind) (op : UInt16 → Op) (ui : Screens → ListUi) {cnt n d : ℕ}
    (hop : ∀ s key,ui (call flash s (op key)).1=
      (listMenu kind (ui s) s.currentMenu key).value.1) (h0 : ui (start flash)=⟨0,0⟩)
    (hreads : ∀ s key,(call flash s (op key)).2=
      (listMenu kind (ui s) s.currentMenu key).reads)
    (hvalue : ∀ i,Reads Inside (kind.value i) ↔ i<cnt)
    (hd : kind.stride=d) (hfirst : n*d ≤ cnt) (hlast : cnt<n*d+maxRecordsCnt)
    (hreach : n*d+maxRecordsCnt ≤ cnt+d) (h : AllInside flash) : kind.cnt.toNat ≤ cnt := by
  by_contra hlt
  subst hd
  obtain ⟨ops,hops⟩ := exists_moved kind op ui hop h0 n (by omega)
  have hcall : Reads Inside
      (listMenu kind (ui (after flash ops)) (after flash ops).currentMenu 0) := by
    intro a ha
    rw [←hreads] at ha
    exact h ops (op 0) a ha
  rw [hops,listMenu_reads] at hcall
  exact absurd ((hvalue cnt).mp (hcall cnt ⟨by omega,hfirst,hlast⟩)) (lt_irrefl cnt)

/-- For every flash contents: all reads of all runs behind its configuration
are inside the arrays exactly when the bits of its messages exist and there
are no more names than bits and registers. -/
theorem allInside_iff (flash : Mem UInt8) : AllInside flash ↔ IndicesExist flash := by
  constructor
  · intro h
    refine ⟨?_,?_,?_⟩
    · exact cnt_le_of_inside (bitsKind flash (loadedVars flash) zeroArrays) (.globalBits zeroArrays)
        Screens.bits (n:=22) (d:=10) (fun _ _ => rfl) rfl (fun _ _ => rfl)
        (bitsKind_inside flash _ _) rfl (by decide) (by decide) (by decide) h
    · exact cnt_le_of_inside (integersKind flash (loadedVars flash) zeroArrays)
        (.globalIntegers zeroArrays) Screens.integers (n:=55) (d:=1) (fun _ _ => rfl) rfl
        (fun _ _ => rfl) (integersKind_inside flash _ _) rfl (by decide) (by decide) (by decide) h
    · rw [←start_ranged,←scanMessages_inside ⟨zeroArrays,fun _ => 0,fun _ _ => 0⟩]
      exact h [] (.message (.scan ⟨zeroArrays,fun _ => 0,fun _ _ => 0⟩))
  · exact IndicesExist.allInside

/-- A header with the entry of item 16 at offset 4096. -/
def header : Mem UInt8 := fun i =>
  let crc := (Crc.getCRC16 [0x0D,0x0A,0x0A,0x0D,0,0,0,16,0,0,0,0,0,0,0x10,0]).toUInt16
  [0x0D,0x0A,0x0A,0x0D,0,18,0,16,0,0,0,0,0,0,0x10,0,(crc&&&0xFF).toUInt8,(crc>>>8).toUInt8].getD i 0

/-- Item 16 with one message, an alarm of cluster bit 224, without its length. -/
def strayItem : List UInt8 :=
  let zeros n : List UInt8 := List.replicate n 0
  0::16::zeros 5++1::zeros 96++0::0::224::2::zeros 20

/-- The block of the item with its length and its checksum. -/
def strayBlock : Mem UInt8 := fun i =>
  let crc := (Crc.getCRC16 strayItem).toUInt16
  (0::16::0::130::strayItem.drop 4++[(crc&&&0xFF).toUInt8,(crc>>>8).toUInt8]).getD i 0

/-- A flash with this configuration. -/
def strayFlash : Mem UInt8 := fun a =>
  if a<4096 then 0 else if a<8192 then header (a-4096) else strayBlock (a-8192)

/-- Header and item are accepted, and the scanner reads behind the cluster bits. -/
theorem not_allInside_strayFlash :
    (readItem strayFlash 16).isSome=true ∧ ¬AllInside strayFlash := by
  have hitem : (readItem strayFlash 16).map (fun item => (item.1,declaredCnt item.2))=
      some (4096,1) := by decide +kernel
  obtain ⟨⟨addr,block⟩,hsome,hpair⟩ := Option.map_eq_some_iff.mp hitem
  obtain ⟨rfl,hcnt⟩ := Prod.mk.inj hpair
  have hvars := readConfig_messages zeroVars hsome
  rw [hcnt] at hvars
  have hconf : Configured (loadedVars strayFlash) 0 := by
    unfold Configured loadedVars
    rw [hvars.1,hvars.2]
    decide
  have hbyte (i : ℕ) :
      messageRecord strayFlash (loadedVars strayFlash) 0 i=strayFlash (8256+i) := by
    unfold messageRecord loadedVars
    rw [hvars.1]
    rfl
  refine ⟨by rw [hsome]; rfl,fun h => ?_⟩
  have hscan := h [] (.message (.scan ⟨zeroArrays,fun _ => 0,fun _ _ => 0⟩))
  have hrange := start_ranged.mp ((scanMessages_inside _ _).mp hscan) 0 (by decide) hconf
  unfold RecordInRange at hrange
  rw [hbyte,hbyte,hbyte] at hrange
  exact absurd (hrange.1 (by decide)) (by decide)

end BT816Display.ConfigIndices
