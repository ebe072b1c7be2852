import BT816Display.MessageScanner

/-!
# The list of active messages

get_active_messages_cnt and get_message_by_number walk the table with a loop
of their own each, and both read the bits into the table on their way. The
messages that the second finds one by one are as many as the first counts.
-/

namespace BT816Display.MessageList

open ArrayAccess ByteMemory MessageConf MessageScanner PlcData

/-- The type of a variable that has a case in the switch. -/
def Known (m : BitMessageConf) : Prop := m.varType=0 ∨ m.varType=2

/-- A message of a known kind can be told. -/
instance (m : BitMessageConf) : Decidable (Known m) := inferInstanceAs (Decidable (_ ∨ _))

/-- The message is in use and its bit is nonzero. -/
def Active (cl : Arrays Val) (m : BitMessageConf) : Prop := m.used≠0 ∧ Known m ∧ bitOf cl m≠0

/-- So can an active one. -/
instance (cl : Arrays Val) (m : BitMessageConf) : Decidable (Active cl m) :=
  inferInstanceAs (Decidable (_ ∧ _))

/-- The active ones of some messages. -/
def activeAmong (cl : Arrays Val) (conf : Messages) (l : List ℕ) : List ℕ :=
  l.filter fun i => Active cl (conf i)

/-- The active messages in the order of the configuration. -/
def activeMessages (cl : Arrays Val) (conf : Messages) : List ℕ :=
  activeAmong cl conf (List.range maxMsgCnt)

/-- The message as it is listed: that of the configuration with its bit. -/
structure Shows (cl : Arrays Val) (configured m : BitMessageConf) : Prop where
  /-- The setting. -/
  same : SameConf m configured
  /-- The bit. -/
  value : m.value=bitOf cl configured
  /-- It is nonzero. -/
  nonzero : m.value≠0

/-! ## Tables that follow a configuration -/

/-- A table with the messages of a configuration. A variable of no known type
has never been read. -/
structure Follows (conf table : Messages) : Prop where
  /-- The settings. -/
  same : ∀ i,SameConf (table i) (conf i)
  /-- The values of unknown types. -/
  unread : ∀ i < maxMsgCnt,¬Known (conf i) → (table i).value=0

/-- A message has its own setting. -/
theorem sameConf_refl (m : BitMessageConf) : SameConf m m := ⟨rfl,rfl,rfl,rfl⟩

/-- The kind is a part of the setting. -/
theorem known_congr {m m' : BitMessageConf} (h : SameConf m m') : Known m ↔ Known m' := by
  unfold Known
  rw [h.varType]

/-- So is the bit that is watched. -/
theorem bitOf_congr {m m' : BitMessageConf} (h : SameConf m m') (cl : Arrays Val) :
    bitOf cl m=bitOf cl m' := by
  unfold MessageScanner.bitOf
  rw [h.varType,h.varIndex]

/-- A variable of no known type is not read. -/
theorem refresh_unknown (cl : Arrays Val) {m : BitMessageConf} (h : ¬Known m) :
    (refresh cl m).value=m := by
  obtain ⟨h0,h2⟩ := not_or.mp h
  unfold refresh readValue
  rw [if_neg h0,if_neg h2]
  rfl

/-- The value of a message that has been read. -/
theorem refresh_bit (cl : Arrays Val) {m : BitMessageConf} (h : Known m) :
    (refresh cl m).value.value=bitOf cl m := by
  rw [refresh_value cl h]

namespace Follows

variable {conf table : Messages}

/-- Reading a message again leaves the table with the configuration. -/
theorem update (h : Follows conf table) {i : ℕ} {m : BitMessageConf}
    (hsame : SameConf m (conf i)) (hunread : i < maxMsgCnt → ¬Known (conf i) → m.value=0) :
    Follows conf (Function.update table i m) := by
  constructor
  · intro k
    by_cases hk : k=i
    · subst hk
      rw [Function.update_self]
      exact hsame
    · rw [Function.update_of_ne hk]
      exact h.same k
  · intro k hk hunknown
    by_cases hki : k=i
    · subst hki
      rw [Function.update_self]
      exact hunread hk hunknown
    · rw [Function.update_of_ne hki]
      exact h.unread k hk hunknown

/-- A value read again leaves the settings alone. -/
theorem refreshed (h : Follows conf table) (cl : Arrays Val) (i : ℕ) :
    Follows conf (Function.update table i (refresh cl (table i)).value) := by
  refine h.update ⟨(h.same i).used,(h.same i).messageType,(h.same i).varType,(h.same i).varIndex⟩
    fun hi hunknown => ?_
  rw [refresh_unknown cl fun hk => hunknown ((known_congr (h.same i)).mp hk)]
  exact h.unread i hi hunknown

/-- A message that has been read is nonzero when it is active. -/
theorem nonzero_iff (h : Follows conf table) (cl : Arrays Val) {i : ℕ} (hi : i < maxMsgCnt)
    (hused : (table i).used≠0) :
    (refresh cl (table i)).value.value≠0 ↔ Active cl (conf i) := by
  have hsame := h.same i
  have hused' : (conf i).used≠0 := by rwa [←hsame.used]
  by_cases hknown : Known (conf i)
  · rw [refresh_bit cl ((known_congr hsame).mpr hknown),bitOf_congr hsame cl]
    exact ⟨fun hbit => ⟨hused',hknown,hbit⟩,fun ha => ha.2.2⟩
  · rw [refresh_unknown cl (mt (known_congr hsame).mp hknown),h.unread i hi hknown]
    exact iff_of_false (fun hne => hne rfl) fun ha => hknown ha.2.1

/-- An active message is shown as it has been read. -/
theorem shows (h : Follows conf table) {cl : Arrays Val} {i : ℕ} (ha : Active cl (conf i)) :
    Shows cl (conf i) (refresh cl (table i)).value := by
  have hsame := h.same i
  have hbit : (refresh cl (table i)).value.value=bitOf cl (conf i) := by
    rw [refresh_bit cl ((known_congr hsame).mpr ha.2.1),bitOf_congr hsame cl]
  exact ⟨⟨hsame.used,hsame.messageType,hsame.varType,hsame.varIndex⟩,hbit,
    by rw [hbit]; exact ha.2.2⟩

end Follows

/-- A message that is not in use is not active. -/
theorem not_active {conf table : Messages} (h : Follows conf table) (cl : Arrays Val) {i : ℕ}
    (hused : ¬(table i).used≠0) : ¬Active cl (conf i) := by
  intro ha
  rw [(h.same i).used] at hused
  exact hused ha.1

/-! ## The two loops -/

section

variable {conf : Messages} (cl : Arrays Val)

/-- The rounds of get_active_messages_cnt count the active messages. -/
theorem countMessages_spec {l : List ℕ} (hl : ∀ i∈l,i < maxMsgCnt) {table : Messages}
    (h : Follows conf table) {n : UInt16} (hn : n.toNat+l.length<65536) :
    Follows conf (l.foldlM (countMessage cl) (table,n)).value.1 ∧
      (l.foldlM (countMessage cl) (table,n)).value.2.toNat=
        n.toNat+(activeAmong cl conf l).length := by
  induction l generalizing table n with
  | nil => exact ⟨h,rfl⟩
  | cons i l ih =>
    obtain ⟨hi,hl⟩ := List.forall_mem_cons.mp hl
    rw [List.length_cons] at hn
    have h1 : (1 : UInt16).toNat=1 := rfl
    rw [List.foldlM_cons,Traced.bind_value]
    unfold countMessage activeAmong
    dsimp only
    by_cases hused : (table i).used≠0
    · rw [if_pos hused,Traced.bind_value,Traced.pure_value]
      have hrefreshed := h.refreshed cl i
      by_cases ha : Active cl (conf i)
      · rw [if_pos ((h.nonzero_iff cl hi hused).mpr ha),List.filter_cons_of_pos (by simpa using ha),
          List.length_cons]
        have hnext : (n+1).toNat=n.toNat+1 := by
          rw [UInt16.toNat_add,h1]
          omega
        obtain ⟨hfollows,hcount⟩ := ih hl hrefreshed (n:=n+1) (by omega)
        refine ⟨hfollows,hcount.trans ?_⟩
        unfold activeAmong
        omega
      · rw [if_neg (mt (h.nonzero_iff cl hi hused).mp ha),
          List.filter_cons_of_neg (by simpa using ha)]
        exact ih hl hrefreshed (by omega)
    · rw [if_neg hused,List.filter_cons_of_neg (by simpa using not_active h cl hused)]
      exact ih hl h (by omega)

/-- The loop of get_message_by_number finds the active message at the distance
of its number from the position. -/
theorem findMessage_spec {l : List ℕ} (hl : ∀ i∈l,i < maxMsgCnt) {table : Messages}
    (h : Follows conf table) {num pos : UInt8} (hpos : pos.toNat≤num.toNat) :
    Follows conf (findMessage cl num l table pos).value.1 ∧
      (findMessage cl num l table pos).value.2.map Prod.fst=
        (activeAmong cl conf l)[num.toNat-pos.toNat]? ∧
      ∀ i m,(findMessage cl num l table pos).value.2=some (i,m) → Shows cl (conf i) m := by
  induction l generalizing table pos with
  | nil => exact ⟨h,rfl,nofun⟩
  | cons i l ih =>
    obtain ⟨hi,hl⟩ := List.forall_mem_cons.mp hl
    have h1 : (1 : UInt8).toNat=1 := rfl
    have hnum := num.toNat_lt
    rw [findMessage]
    unfold activeAmong
    by_cases hused : (table i).used≠0
    · rw [if_pos hused,Traced.bind_value]
      have hrefreshed := h.refreshed cl i
      by_cases ha : Active cl (conf i)
      · rw [if_pos ((h.nonzero_iff cl hi hused).mpr ha),List.filter_cons_of_pos (by simpa using ha)]
        by_cases hfound : num=pos
        · rw [if_pos hfound,hfound,Nat.sub_self]
          refine ⟨hrefreshed,rfl,fun k m hm => ?_⟩
          obtain ⟨rfl,rfl⟩ := Prod.mk.inj (Option.some.inj hm)
          exact h.shows ha
        · rw [if_neg hfound]
          have hlt : pos.toNat≠num.toNat := fun he => hfound (UInt8.toNat_inj.mp he).symm
          have hnext : (pos+1).toNat=pos.toNat+1 := by
            rw [UInt8.toNat_add,h1]
            omega
          have hdist : num.toNat-pos.toNat=num.toNat-(pos+1).toNat+1 := by omega
          rw [hdist,List.getElem?_cons_succ]
          exact ih hl hrefreshed (by omega)
      · rw [if_neg (mt (h.nonzero_iff cl hi hused).mp ha),
          List.filter_cons_of_neg (by simpa using ha)]
        exact ih hl hrefreshed hpos
    · rw [if_neg hused,List.filter_cons_of_neg (by simpa using not_active h cl hused)]
      exact ih hl h hpos

end

/-! ## The table over a run -/

section

variable (flash : Mem UInt8) (vars : ConfigVars)

/-- What get_active_messages_cnt returns. -/
theorem getActiveMessagesCnt_spec {conf table : Messages} (cl : Arrays Val)
    (h : Follows conf table) :
    Follows conf (getActiveMessagesCnt cl table).value.1 ∧
      (getActiveMessagesCnt cl table).value.2.toNat=(activeMessages cl conf).length := by
  obtain ⟨hfollows,hcount⟩ := countMessages_spec cl (fun _ => List.mem_range.mp) h (n:=0)
    (by rw [List.length_range]; decide)
  exact ⟨hfollows,hcount.trans (Nat.zero_add _)⟩

/-- What get_message_by_number returns. -/
theorem getMessageByNumber_spec {conf table : Messages} (cl : Arrays Val)
    (h : Follows conf table) (num : UInt8) :
    Follows conf (getMessageByNumber cl flash vars num table).value.1 ∧
      match (activeMessages cl conf)[num.toNat]? with
      | none => (getMessageByNumber cl flash vars num table).value.2=none
      | some i => ∃ m,Shows cl (conf i) m ∧
        (getMessageByNumber cl flash vars num table).value.2=
          some (m,getMessageName flash vars i) := by
  have hpos : (0 : UInt8).toNat≤num.toNat := Nat.zero_le _
  obtain ⟨hfollows,hindex,hshows⟩ :=
    findMessage_spec cl (fun _ => List.mem_range.mp : ∀ i∈List.range maxMsgCnt,_) h hpos
  refine ⟨hfollows,?_⟩
  rw [show (activeMessages cl conf)[num.toNat]?=_ from hindex.symm]
  unfold getMessageByNumber
  rw [Traced.bind_value,Traced.pure_value]
  cases hfound : (findMessage cl num (List.range maxMsgCnt) table 0).value.2 with
  | none => rfl
  | some im => exact ⟨im.2,hshows im.1 im.2 hfound,rfl⟩

/-- A round of a scan reads its message as the two loops do. -/
theorem scanMessage_follows {conf table : Messages} (h : Follows conf table) (seen : Seen) (i : ℕ) :
    Follows conf (Function.update table i (scanMessage seen i (table i)).value) := by
  have hsame := scanMessage_sameConf seen i (table i)
  have hconf := h.same i
  refine h.update ⟨hsame.used.trans hconf.used,hsame.messageType.trans hconf.messageType,
    hsame.varType.trans hconf.varType,hsame.varIndex.trans hconf.varIndex⟩ fun hi hunknown => ?_
  unfold scanMessage
  split
  · rw [Traced.bind_value,refresh_unknown seen.cl fun hk =>
      hunknown ((known_congr (h.same i)).mp hk)]
    exact h.unread i hi hunknown
  · exact h.unread i hi hunknown

/-- So does a whole scan. -/
theorem scanMessages_follows {conf table : Messages} (h : Follows conf table) (seen : Seen) :
    Follows conf (scanMessages seen table).value := by
  have hrow (i : ℕ) : (scanMessages seen table).value i=
      if i < maxMsgCnt then (scanMessage seen i (table i)).value else table i := by
    unfold scanMessages
    rw [Traced.rows_value List.nodup_range]
    simp only [List.mem_range]
  have hround (i : ℕ) := scanMessage_follows h seen i
  constructor
  · intro i
    have hsame := (hround i).same i
    rw [Function.update_self] at hsame
    rw [hrow i]
    split
    · exact hsame
    · exact h.same i
  · intro i hi hunknown
    have hunread := (hround i).unread i hi hunknown
    rw [Function.update_self] at hunread
    rw [hrow i,if_pos hi]
    exact hunread

/-- Every call leaves the table with the configuration. -/
theorem step_follows {conf table : Messages} (h : Follows conf table) (op : Op) :
    Follows conf (step flash vars table op).value := by
  cases op with
  | scan seen => exact scanMessages_follows h seen
  | activeCnt cl =>
    rw [step,Traced.map_value]
    exact (getActiveMessagesCnt_spec cl h).1
  | byNumber cl num =>
    rw [step,Traced.map_value]
    exact (getMessageByNumber_spec flash vars cl h num).1

/-- The table follows the configuration after every run. -/
theorem run_follows {conf table : Messages} (h : Follows conf table) (ops : List Op) :
    Follows conf (run flash vars table ops).value := by
  induction ops generalizing table with
  | nil => exact h
  | cons op ops ih =>
    rw [run_cons,Traced.bind_value]
    exact ih (step_follows flash vars h op)

/-- The table of read_message_conf. -/
theorem readMessageConf_follows (msgConf : Messages) :
    Follows (readMessageConf flash vars msgConf) (readMessageConf flash vars msgConf) := by
  constructor
  · exact fun i => sameConf_refl (readMessageConf flash vars msgConf i)
  · intro i hi _
    exact (readMessageConf_values hi).1

end

/-! ## The list on the screen -/

/-- The place in the configuration of an active message. -/
def messageAt (cl : Arrays Val) (conf : Messages) (num : ℕ) : ℕ :=
  (activeMessages cl conf).getD num 0

/-- There are no more active messages than messages. -/
theorem activeMessages_length (cl : Arrays Val) (conf : Messages) :
    (activeMessages cl conf).length ≤ maxMsgCnt := by
  have hle := List.length_filter_le (fun i => decide (Active cl (conf i))) (List.range maxMsgCnt)
  rwa [List.length_range] at hle

/-- The active messages are in the list, and no others. -/
theorem mem_activeMessages {cl : Arrays Val} {conf : Messages} {i : ℕ} :
    i∈activeMessages cl conf ↔ i < maxMsgCnt ∧ Active cl (conf i) := by
  unfold activeMessages activeAmong
  rw [List.mem_filter,List.mem_range,decide_eq_true_iff]

/-- They come in the order of the table. -/
theorem activeMessages_pairwise (cl : Arrays Val) (conf : Messages) :
    (activeMessages cl conf).Pairwise (·<·) := List.pairwise_lt_range.filter _

/-- The message with a number of the list. -/
theorem messageAt_eq {cl : Arrays Val} {conf : Messages} {num : ℕ}
    (h : num<(activeMessages cl conf).length) :
    messageAt cl conf num=(activeMessages cl conf)[num] := List.getD_eq_getElem _ _ h

/-- It is active. -/
theorem messageAt_mem {cl : Arrays Val} {conf : Messages} {num : ℕ}
    (h : num<(activeMessages cl conf).length) :
    messageAt cl conf num∈activeMessages cl conf := by
  rw [messageAt_eq h]
  exact List.getElem_mem h

/-- Its place in the table grows with the number. -/
theorem messageAt_lt {cl : Arrays Val} {conf : Messages} {num num' : ℕ} (hlt : num<num')
    (h : num'<(activeMessages cl conf).length) :
    messageAt cl conf num < messageAt cl conf num' := by
  rw [messageAt_eq (by omega),messageAt_eq h]
  exact List.pairwise_iff_getElem.mp (activeMessages_pairwise cl conf) num num' _ h hlt

/-- Every active message has one number, and it is one byte. -/
theorem existsUnique_number {cl : Arrays Val} {conf : Messages} {i : ℕ} (hi : i < maxMsgCnt)
    (hactive : Active cl (conf i)) : ∃! num : UInt8,
      num.toNat<(activeMessages cl conf).length ∧ messageAt cl conf num.toNat=i := by
  obtain ⟨k,hk,hki⟩ := List.getElem_of_mem (mem_activeMessages.mpr ⟨hi,hactive⟩)
  have hlength := activeMessages_length cl conf
  have hmax : maxMsgCnt=63 := rfl
  have hsize : UInt8.size=256 := rfl
  have hnat : (UInt8.ofNat k).toNat=k := UInt8.toNat_ofNat_of_lt' (by omega)
  refine ⟨UInt8.ofNat k,?_,?_⟩
  · dsimp only
    rw [hnat,messageAt_eq hk]
    exact ⟨hk,hki⟩
  · rintro num ⟨hnum,hplace⟩
    apply UInt8.toNat_inj.mp
    rw [hnat]
    rw [←hki,←messageAt_eq hk] at hplace
    rcases Nat.lt_trichotomy num.toNat k with hlt|heq|hgt
    · exact absurd hplace (messageAt_lt hlt hk).ne
    · exact heq
    · exact absurd hplace (messageAt_lt hgt hnum).ne'

/-- What the count and the messages by their numbers say of a configuration. -/
structure Enumerates (flash : Mem UInt8) (vars : ConfigVars) (cl : Arrays Val) (conf : Messages)
    (cnt : UInt16) (byNumber : UInt8 → Option (BitMessageConf×Option (List UInt8)))
    (place : ℕ → ℕ) : Prop where
  /-- A message is returned for the numbers below the count. -/
  returned : ∀ num,(byNumber num).isSome ↔ num.toNat<cnt.toNat
  /-- It is a message in use at its place, with its nonzero bit and its name. -/
  message : ∀ num,num.toNat<cnt.toNat → place num.toNat < maxMsgCnt ∧
    (conf (place num.toNat)).used≠0 ∧ ∃ m,Shows cl (conf (place num.toNat)) m ∧
      byNumber num=some (m,getMessageName flash vars (place num.toNat))
  /-- The places increase. -/
  increasing : ∀ num num',num<num' → num'<cnt.toNat → place num<place num'
  /-- Every message in use with a nonzero bit has one number. -/
  complete : ∀ i < maxMsgCnt,Active cl (conf i) →
    ∃! num : UInt8,num.toNat<cnt.toNat ∧ place num.toNat=i

/-- For every configuration, all bits and all calls before each call: the
messages that get_message_by_number returns are those that
get_active_messages_cnt counts, in the order of the configuration. -/
theorem activeMessages_enumerated (flash : Mem UInt8) (vars : ConfigVars) (msgConf : Messages)
    (cl : Arrays Val) (before : List Op) (beforeNum : UInt8 → List Op) :
    let conf := readMessageConf flash vars msgConf
    Enumerates flash vars cl conf
      (getActiveMessagesCnt cl (run flash vars conf before).value).value.2
      (fun num => (getMessageByNumber cl flash vars num
        (run flash vars conf (beforeNum num)).value).value.2)
      (messageAt cl conf) := by
  intro conf
  have htable (ops : List Op) : Follows conf (run flash vars conf ops).value :=
    run_follows flash vars (readMessageConf_follows flash vars msgConf) ops
  have hcount := (getActiveMessagesCnt_spec cl (htable before)).2
  have hnumber (num : UInt8) :=
    (getMessageByNumber_spec flash vars cl (htable (beforeNum num)) num).2
  constructor
  · intro num
    rw [hcount]
    have h := hnumber num
    by_cases hlt : num.toNat<(activeMessages cl conf).length
    · rw [List.getElem?_eq_getElem hlt] at h
      obtain ⟨m,-,hm⟩ := h
      rw [hm]
      exact iff_of_true rfl hlt
    · rw [List.getElem?_eq_none (Nat.le_of_not_lt hlt)] at h
      dsimp only at h ⊢
      rw [h]
      exact iff_of_false nofun hlt
  · intro num hnum
    rw [hcount] at hnum
    obtain ⟨hlt,hactive⟩ := mem_activeMessages.mp (messageAt_mem hnum)
    have h := hnumber num
    rw [List.getElem?_eq_getElem hnum,←messageAt_eq hnum] at h
    exact ⟨hlt,hactive.1,h⟩
  · intro num num' hlt hnum'
    rw [hcount] at hnum'
    exact messageAt_lt hlt hnum'
  · intro i hi hactive
    rw [hcount]
    exact existsUnique_number hi hactive

end BT816Display.MessageList
