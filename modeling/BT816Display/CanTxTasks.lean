import BT816Display.CanTxRing

/-!
# The CAN transmit ring under two tasks

The display task and the CAN task add packets to the ring and the CAN task
takes them out; each may be interrupted between any two accesses. As long as no
add begins while the other task is in one, the ring is the queue of
`CanTxStack`, wherever the reader comes in between. Two adds that meet fill one
slot, and a frame is lost.
-/

namespace BT816Display.CanTxTasks

open ByteMemory RingWindow RingQueue CanTxStack CanTxAccess CanTxRing Runs

/-- The tasks that add packets. -/
inductive Task where
  /-- lcd_task_function. -/
  | lcd
  /-- can_task_function. -/
  | can
  deriving DecidableEq

/-- There are two of them. -/
theorem Task.eq_of_ne {t t' x : Task} (hne : t≠t') (hx : x≠t') : x=t := by
  cases x <;> cases t <;> cases t' <;> first | rfl | exact absurd rfl hx | exact absurd rfl hne

/-- The ring and the calls of the two tasks. -/
structure Tasks where
  /-- can_tx_stack. -/
  stack : TxStack
  /-- The adds under way. -/
  adds : Task → Option AddCall
  /-- The get of the CAN task under way. -/
  get : Option GetCall
  /-- The frames of the adds that have begun, oldest first. -/
  added : List Frame
  /-- The frames returned with result 1, oldest first. -/
  returned : List Frame

/-- What happens next. -/
inductive TaskOp where
  /-- A task calls add_tx_can_packet. -/
  | add (t : Task) (packet : TxStackData)
  /-- The CAN task calls get_tx_can_packet. -/
  | get (buffer : TxStackData)
  /-- A task makes the next access of its call. -/
  | step (t : Task)

/-- A task begins an add, unless it is in one or the tests end it. -/
def beginAdd (s : Tasks) (t : Task) (packet : TxStackData) : Tasks :=
  match s.adds t,startAdd s.stack packet with
  | none,some c =>
    {s with adds := Function.update s.adds t (some c),added := s.added++[frame packet]}
  | _,_ => s

/-- The next access of the get under way. -/
def stepGet (s : Tasks) : Tasks :=
  match s.get with
  | none => s
  | some c =>
    match getStep s.stack c with
    | (stack,.inl c') => {s with stack := stack,get := some c'}
    | (stack,.inr (res,packet)) =>
      {s with
        stack := stack
        get := none
        returned := if res=1 then s.returned++[frame packet] else s.returned}

/-- One step. A call of the CAN task begins when it is in no other one. -/
def taskStep (s : Tasks) : TaskOp → Tasks
  | .add .lcd packet => beginAdd s .lcd packet
  | .add .can packet => if s.get.isSome then s else beginAdd s .can packet
  | .get buffer =>
    if s.get.isSome ∨ (s.adds .can).isSome then s else {s with get := startGet s.stack buffer}
  | .step t =>
    match s.adds t with
    | some c =>
      {s with stack := (addStep s.stack c).1,adds := Function.update s.adds t (addStep s.stack c).2}
    | none => if t=.can then stepGet s else s

/-- The tasks when init_can_tx_stack has returned. -/
def startTasks (stack₀ : TxStack) : Tasks := ⟨initCanTxStack stack₀,fun _ => none,none,[],[]⟩

/-- Steps in order. -/
def tasksRun (stack₀ : TxStack) (ops : List TaskOp) : Tasks :=
  ops.foldl taskStep (startTasks stack₀)

/-- No call is under way. -/
def Tasks.Quiet (s : Tasks) : Prop := (∀ t,s.adds t=none) ∧ s.get=none

/-! ## Runs whose adds do not meet -/

/-- The add under way, if there is one, is the only one. -/
def Alone (adds : Task → Option AddCall) : Option AddCall → Prop
  | none => ∀ t,adds t=none
  | some c => ∃ t,adds t=some c ∧ ∀ t',t'≠t → adds t'=none

/-- The ring shows the queue `q`, and every frame added has been returned, is in
the hands of a call or is in the queue. -/
structure TasksInv (s : Tasks) (add : Option AddCall) (q : List Frame) : Prop where
  /-- At most one add is under way. -/
  alone : Alone s.adds add
  /-- The ring. -/
  ring : Ring s.stack add s.get q
  /-- The frames. -/
  accounted : s.returned++taken s.get++q++coming add=s.added

/-- No add begins while the other task is in one. -/
def Apart (stack₀ : TxStack) (pre : List TaskOp) (op : TaskOp) : Prop :=
  ∀ t packet,op=.add t packet → ∀ t',t'≠t → (tasksRun stack₀ pre).adds t'=none

/-- An add has at most eight data bytes, and fewer than 80 frames are outstanding. -/
def Room (stack₀ : TxStack) (pre : List TaskOp) (op : TaskOp) : Prop :=
  ∀ t packet,op=.add t packet → packet.length.toNat≤8 ∧
    (tasksRun stack₀ pre).added.length<(tasksRun stack₀ pre).returned.length+80

variable {s : Tasks} {stack₀ : TxStack} {ops : List TaskOp} {add : Option AddCall} {q : List Frame}

/-- One more step. -/
theorem tasksRun_concat (stack₀ : TxStack) (ops : List TaskOp) (op : TaskOp) :
    tasksRun stack₀ (ops++[op])=taskStep (tasksRun stack₀ ops) op := List.foldl_concat ..

/-- Before the first call the ring holds nothing. -/
theorem tasksInv_start (stack₀ : TxStack) : TasksInv (startTasks stack₀) none [] where
  alone _ := rfl
  ring := ring_of_holds (holds_init stack₀)
  accounted := rfl

/-- The add under way of a task is the one of the invariant. -/
theorem Alone.eq {adds : Task → Option AddCall} (h : Alone adds add) {t : Task} {c : AddCall}
    (ht : adds t=some c) : add=some c ∧ ∀ t',t'≠t → adds t'=none := by
  cases add with
  | none => exact nomatch (h t).symm.trans ht
  | some c' =>
    obtain ⟨t',ht',hothers⟩ := h
    by_cases he : t=t'
    · subst he
      exact ⟨ht'.symm.trans ht,hothers⟩
    · exact nomatch (hothers t he).symm.trans ht

/-- What a step of the only add leaves is the only one. -/
theorem alone_update {adds : Task → Option AddCall} {t : Task} (h : ∀ t',t'≠t → adds t'=none)
    (add : Option AddCall) : Alone (Function.update adds t add) add := by
  have hothers : ∀ t',t'≠t → Function.update adds t add t'=none := fun t' ht' => by
    rw [Function.update_of_ne ht']
    exact h t' ht'
  cases add with
  | some c => exact ⟨t,Function.update_self ..,hothers⟩
  | none =>
    intro t'
    by_cases he : t'=t
    · rw [he,Function.update_self]
    · exact hothers t' he

/-- An add begins with room in the ring. -/
theorem TasksInv.beginAdd (h : TasksInv s add q) {t : Task} {packet : TxStackData}
    (hapart : ∀ t',t'≠t → s.adds t'=none) (hshort : packet.length.toNat≤8)
    (hroom : s.added.length<s.returned.length+80) :
    ∃ add' q',TasksInv (beginAdd s t packet) add' q' := by
  unfold CanTxTasks.beginAdd
  cases ht : s.adds t with
  | some c => exact ⟨add,q,h⟩
  | none =>
    have hnone : add=none := by
      cases add with
      | none => rfl
      | some c =>
        obtain ⟨t',ht',-⟩ := h.alone
        by_cases he : t'=t
        · rw [he,ht] at ht'
          cases ht'
        · rw [hapart t' he] at ht'
          cases ht'
    subst hnone
    have hlen := congrArg List.length h.accounted
    rw [List.length_append,List.length_append,List.length_append] at hlen
    obtain ⟨c,hc,hpacket,hbusy,hring⟩ := h.ring.startsAdd (by omega) hshort
    rw [hc]
    refine ⟨some c,q,alone_update hapart (some c),hring,?_⟩
    have hcoming : coming (some c)=[frame packet] := by
      rw [←hpacket]
      exact if_neg (by rw [hbusy]; exact AddAccess.noConfusion)
    dsimp only
    rw [hcoming,←h.accounted]
    exact congrArg (·++[frame packet]) (List.append_nil _).symm

/-- A step of an add keeps the invariant. -/
theorem TasksInv.stepAdd (h : TasksInv s add q) {t : Task} {c : AddCall} (ht : s.adds t=some c) :
    ∃ add' q',TasksInv {s with
      stack := (addStep s.stack c).1
      adds := Function.update s.adds t (addStep s.stack c).2} add' q' := by
  obtain ⟨rfl,hothers⟩ := h.alone.eq ht
  obtain ⟨q',hq',hring⟩ := h.ring.stepsAdd
  refine ⟨(addStep s.stack c).2,q',alone_update hothers _,hring,?_⟩
  rw [List.append_assoc,hq',←List.append_assoc]
  exact h.accounted

/-- A step of the get keeps the invariant. -/
theorem TasksInv.stepGet (h : TasksInv s add q) : ∃ q',TasksInv (stepGet s) add q' := by
  have hacc := h.accounted
  have hring := h.ring
  unfold CanTxTasks.stepGet
  cases hget : s.get with
  | none => exact ⟨q,h⟩
  | some c =>
    rw [hget] at hacc hring
    dsimp only
    cases hstep : getStep s.stack c with
    | mk stack' left =>
      cases left with
      | inl c' =>
        obtain ⟨q',hq',hring'⟩ := hring.getStep_more hstep
        refine ⟨q',h.alone,hring',?_⟩
        rw [←hacc,List.append_assoc s.returned,hq',←List.append_assoc s.returned]
      | inr result =>
        obtain ⟨res,packet⟩ := result
        obtain ⟨hres,hring'⟩ := hring.getStep_end hstep
        refine ⟨q,h.alone,hring',?_⟩
        have hreturned : (if res=1 then s.returned++[frame packet] else s.returned)=
            s.returned++taken (some c) := by
          rw [←hres]
          split
          · rfl
          · exact (List.append_nil _).symm
        dsimp only
        rw [hreturned,←hacc]
        exact congrArg (·++q++coming add) (List.append_nil _)

/-- One step keeps the invariant. -/
theorem TasksInv.step (h : TasksInv s add q) {op : TaskOp}
    (hapart : ∀ t packet,op=.add t packet → ∀ t',t'≠t → s.adds t'=none)
    (hroom : ∀ t packet,op=.add t packet → packet.length.toNat≤8 ∧
      s.added.length<s.returned.length+80) :
    ∃ add' q',TasksInv (taskStep s op) add' q' := by
  cases op with
  | add t packet =>
    obtain ⟨hshort,hfew⟩ := hroom t packet rfl
    have hbegin := h.beginAdd (hapart t packet rfl) hshort hfew
    cases t with
    | lcd => exact hbegin
    | can =>
      change ∃ add' q',TasksInv
        (if s.get.isSome=true then s else CanTxTasks.beginAdd s .can packet) add' q'
      split
      · exact ⟨add,q,h⟩
      · exact hbegin
  | get buffer =>
    unfold taskStep
    dsimp only
    split
    · exact ⟨add,q,h⟩
    · rename_i hfree
      have hnone : s.get=none := by
        cases hget : s.get with
        | none => rfl
        | some c => exact absurd (Or.inl (by rw [hget]; rfl)) hfree
      have hring := h.ring
      have hacc := h.accounted
      rw [hnone] at hring hacc
      refine ⟨add,q,h.alone,hring.startsGet buffer,?_⟩
      have htaken : taken (startGet s.stack buffer)=taken none := by
        unfold startGet
        dsimp only
        split <;> rfl
      rw [htaken]
      exact hacc
  | step t =>
    unfold taskStep
    dsimp only
    cases ht : s.adds t with
    | some c => exact h.stepAdd ht
    | none =>
      dsimp only
      split
      · obtain ⟨q',hq'⟩ := h.stepGet
        exact ⟨add,q',hq'⟩
      · exact ⟨add,q,h⟩

/-- After a run whose adds do not meet and have room the ring shows a queue. -/
theorem tasksInv_run (hapart : InputsMeet (Apart stack₀) ops)
    (hroom : InputsMeet (Room stack₀) ops) : ∃ add q,TasksInv (tasksRun stack₀ ops) add q := by
  refine @inv_of_inputsMeet _ (fun ops => ∃ add q,TasksInv (tasksRun stack₀ ops) add q) _
    ⟨none,[],tasksInv_start stack₀⟩ ?_ ops (hapart.and hroom)
  rintro pre op ⟨add,q,h⟩ ⟨ha,hr⟩
  rw [tasksRun_concat]
  exact h.step ha hr

/-- With no call under way no add is. -/
theorem TasksInv.no_add (h : TasksInv s add q) (hquiet : ∀ t,s.adds t=none) : add=none := by
  cases add with
  | none => rfl
  | some c =>
    obtain ⟨t,ht,-⟩ := h.alone
    rw [hquiet t] at ht
    cases ht

/-- With no call under way the ring holds what has not been returned. -/
theorem TasksInv.holds (h : TasksInv s none q) (hget : s.get=none) :
    Holds s.stack q ∧ s.returned++q=s.added := by
  have hring := h.ring
  have hacc := h.accounted
  rw [hget] at hring hacc
  change s.returned++[]++q++[]=_ at hacc
  rw [List.append_nil,List.append_nil] at hacc
  exact ⟨hring.holds,hacc⟩

/-! ## Two adds that meet -/

/-- The call has stored its length. -/
def HasLength : Option AddCall → Prop
  | none => True
  | some c => c.next=.ready ∨ c.next=.position

/-- The call has made its slot READY. -/
def MadeReady : Option AddCall → Prop
  | none => True
  | some c => c.next=.position

/-- The call is between BUSY and READY. -/
def Between : Option AddCall → Prop
  | none => False
  | some c => c.next≠.busy ∧ c.next≠.position

/-- Both tasks have loaded the write position of the same ring: they fill one
slot, and each moves the write position to the one behind it. -/
structure Meeting (first : TxStack) (adds : Task → Option AddCall) (stack : TxStack) : Prop where
  /-- The other slots stay. -/
  others : ∀ i,i≠first.writePosition → stack.packet i=first.packet i
  /-- The read position stays. -/
  read : stack.readPosition=first.readPosition
  /-- Both calls fill the same slot. -/
  slot : ∀ t c,adds t=some c → c.wrPos=first.writePosition
  /-- Packets of at most eight bytes. -/
  short : ∀ t c,adds t=some c → c.packet.length.toNat≤8
  /-- Before the first of them ends the write position stays. -/
  waits : (∀ t,adds t≠none) → stack.writePosition=first.writePosition
  /-- It moves on by one. -/
  moves : ∀ t,adds t=none → stack.writePosition=next 80 first.writePosition
  /-- The length of one of the packets. -/
  length : ∀ t,HasLength (adds t) → (stack.packet first.writePosition).length.toNat≤8
  /-- READY, when one is behind it and none before. -/
  ready : ∀ t,MadeReady (adds t) → (∀ t',¬Between (adds t')) →
    (stack.packet first.writePosition).state=.ready

/-- Two calls that begin on one ring. -/
theorem meeting_begin {stack : TxStack} {adds : Task → Option AddCall}
    (h : ∀ t,∃ packet : TxStackData,packet.length.toNat≤8 ∧
      adds t=some ⟨packet,stack.writePosition,.busy⟩) : Meeting stack adds stack where
  others _ _ := rfl
  read := rfl
  slot t c hc := by
    obtain ⟨packet,-,ht⟩ := h t
    cases ht.symm.trans hc
    rfl
  short t c hc := by
    obtain ⟨packet,hshort,ht⟩ := h t
    cases ht.symm.trans hc
    exact hshort
  waits _ := rfl
  moves t ht := by
    obtain ⟨packet,-,hs⟩ := h t
    cases hs.symm.trans ht
  length t ht := by
    obtain ⟨packet,-,hs⟩ := h t
    rw [hs] at ht
    rcases ht with ht|ht <;> cases ht
  ready t ht := by
    obtain ⟨packet,-,hs⟩ := h t
    rw [hs] at ht
    cases ht

/-- A store into the slot of both, which leaves the call under way. -/
theorem Meeting.fill {first stack : TxStack} {adds : Task → Option AddCall}
    (h : Meeting first adds stack) {t : Task} {c : AddCall} (ht : adds t=some c)
    {access : AddAccess} {slot : TxStackData}
    (hlen : slot.length=(stack.packet c.wrPos).length ∨ slot.length=c.packet.length)
    (hhas : access=.ready ∨ access=.position →
      slot.length=c.packet.length ∨ c.next=.ready ∨ c.next=.position)
    (hready : access=.position ∨ access=.busy → slot.state=.ready) :
    Meeting first (Function.update adds t (some {c with next := access}))
      (stack.setPacket c.wrPos slot) := by
  have hwr := h.slot t c ht
  have hshort := h.short t c ht
  have hother {t' : Task} (he : t'≠t) (add : Option AddCall) :
      Function.update adds t add t'=adds t' := Function.update_of_ne he ..
  have hnone {t' : Task} :
      Function.update adds t (some {c with next := access}) t'=none ↔ adds t'=none := by
    by_cases he : t'=t
    · rw [he,Function.update_self,ht]
      exact ⟨(nomatch ·),(nomatch ·)⟩
    · rw [hother he]
  have hlength : (∃ t',HasLength (adds t')) ∨ slot.length=c.packet.length →
      slot.length.toNat≤8 := by
    rintro (⟨t',hl⟩|hl)
    · rcases hlen with hs|hs
      · rw [hs,hwr]
        exact h.length t' hl
      · rwa [hs]
    · rwa [hl]
  refine ⟨fun i hi => ?_,h.read,fun t' c' hc => ?_,fun t' c' hc => ?_,fun hall => ?_,
    fun t' hn => h.moves t' (hnone.mp hn),fun t' hl => ?_,fun t' hr hb => ?_⟩
  · rw [←hwr] at hi
    rw [setPacket_of_ne hi,h.others i (hwr ▸ hi)]
  · by_cases he : t'=t
    · rw [he,Function.update_self] at hc
      cases hc
      exact hwr
    · rw [hother he] at hc
      exact h.slot t' c' hc
  · by_cases he : t'=t
    · rw [he,Function.update_self] at hc
      cases hc
      exact hshort
    · rw [hother he] at hc
      exact h.short t' c' hc
  · exact h.waits fun t' hn => hall t' (hnone.mpr hn)
  · rw [←hwr,setPacket_self]
    apply hlength
    by_cases he : t'=t
    · rw [he,Function.update_self] at hl
      rcases hhas hl with hs|hs
      · exact Or.inr hs
      · refine Or.inl ⟨t,?_⟩
        rw [ht]
        exact hs
    · rw [hother he] at hl
      exact Or.inl ⟨t',hl⟩
  · rw [←hwr,setPacket_self]
    have hself := hb t
    rw [Function.update_self] at hself
    apply hready
    by_contra hne
    rw [not_or] at hne
    exact hself ⟨hne.2,hne.1⟩

/-- A step of one of the two. -/
theorem Meeting.step {first stack : TxStack} {adds : Task → Option AddCall}
    (h : Meeting first adds stack) {t : Task} {c : AddCall} (ht : adds t=some c) :
    Meeting first (Function.update adds t (addStep stack c).2) (addStep stack c).1 := by
  have hfill {access : AddAccess} {slot : TxStackData} :=
    @Meeting.fill first stack adds h t c ht access slot
  obtain ⟨packet,wrPos,access⟩ := c
  cases access with
  | busy =>
    refine hfill (Or.inl rfl) ?_ ?_
    · rintro (he|he) <;> cases he
    · rintro (he|he) <;> cases he
  | data k =>
    unfold addStep
    dsimp only
    split
    · refine hfill (Or.inl rfl) ?_ ?_
      · rintro (he|he) <;> cases he
      · rintro (he|he) <;> cases he
    · refine hfill (Or.inl rfl) ?_ ?_
      · rintro (he|he) <;> cases he
      · rintro (he|he) <;> cases he
  | length =>
    refine hfill (Or.inr rfl) (fun _ => Or.inl rfl) ?_
    rintro (he|he) <;> cases he
  | ready => exact hfill (Or.inl rfl) (fun _ => Or.inr (Or.inl rfl)) fun _ => rfl
  | position =>
    have hwr : wrPos=first.writePosition := h.slot t _ ht
    have hself : Function.update adds t none t=none := Function.update_self ..
    have hmoved : nextPosition wrPos=next 80 first.writePosition := by
      rw [nextPosition_eq,hwr]
    refine ⟨h.others,h.read,fun t' c' hc => ?_,fun t' c' hc => ?_,fun hall => absurd hself (hall t),
      fun _ _ => hmoved,fun t' _ => ?_,fun t' _ hb => ?_⟩
    · by_cases he : t'=t
      · rw [he] at hc
        cases hself.symm.trans hc
      · exact h.slot t' c' ((Function.update_of_ne he ..).symm.trans hc)
    · by_cases he : t'=t
      · rw [he] at hc
        cases hself.symm.trans hc
      · exact h.short t' c' ((Function.update_of_ne he ..).symm.trans hc)
    · refine h.length t ?_
      rw [ht]
      exact Or.inr rfl
    · refine h.ready t ?_ fun t' => ?_
      · rw [ht]
        rfl
      · by_cases he : t'=t
        · rw [he,ht]
          exact fun hb => hb.2 rfl
        · have hbt := hb t'
          rwa [Function.update_of_ne he] at hbt

/-- When both have ended the queue is longer by one. -/
theorem Meeting.ended {first stack : TxStack} {adds : Task → Option AddCall}
    (h : Meeting first adds stack) (hnone : ∀ t,adds t=none) (hq : Holds first q)
    (hroom : q.length<80) : ∃ f,Holds stack (q++[f]) := by
  have hwr : stack.writePosition=next 80 first.writePosition := h.moves .lcd (hnone .lcd)
  refine ⟨frame (stack.packet first.writePosition),?_⟩
  unfold Holds
  rw [h.read,hwr]
  refine hq.push hroom ⟨?_,?_,rfl⟩ fun i _ hi => h.others i hi
  · refine h.ready .lcd ?_ fun t' => ?_
    · rw [hnone]
      trivial
    · rw [hnone]
      exact id
  · refine h.length .lcd ?_
    rw [hnone]
    trivial

/-- Accesses of the calls under way, task by task. -/
def stepAll (s : Tasks) (steps : List Task) : Tasks :=
  steps.foldl (fun s t => taskStep s (.step t)) s

/-- Steps of a task with no call under way change nothing, and neither do those
of the CAN task with no get. -/
theorem step_idle {t : Task} (hadd : s.adds t=none) (hget : s.get=none) :
    taskStep s (.step t)=s := by
  unfold taskStep
  dsimp only
  rw [hadd]
  dsimp only
  split
  · unfold stepGet
    rw [hget]
  · rfl

/-- A step of an add. -/
theorem step_add {t : Task} {c : AddCall} (hadd : s.adds t=some c) :
    taskStep s (.step t)={s with
      stack := (addStep s.stack c).1
      adds := Function.update s.adds t (addStep s.stack c).2} := by
  unfold taskStep
  dsimp only
  rw [hadd]

/-- While both adds are under way. -/
structure Met (first : Tasks) (packets : List Frame) (s : Tasks) : Prop where
  /-- The ring. -/
  meeting : Meeting first.stack s.adds s.stack
  /-- No get. -/
  get : s.get=none
  /-- Nothing is returned. -/
  returned : s.returned=first.returned
  /-- The frames of both. -/
  added : s.added=first.added++packets

/-- Further steps of two adds that have met. -/
theorem Met.steps {first : Tasks} {packets : List Frame} (steps : List Task) {s : Tasks}
    (h : Met first packets s) : Met first packets (stepAll s steps) := by
  induction steps generalizing s with
  | nil => exact h
  | cons t steps ih =>
    refine ih ?_
    change Met first packets (taskStep s (.step t))
    cases ht : s.adds t with
    | none => rwa [step_idle ht h.get]
    | some c =>
      rw [step_add ht]
      exact ⟨h.meeting.step ht,h.get,h.returned,h.added⟩

/-- Steps before the second add begins, as if its call had loaded the write
position already. -/
theorem met_before {first : Tasks} {packets : List Frame} {t : Task} {c : AddCall}
    (steps : List Task) {s : Tasks}
    (h : Met first packets {s with adds := Function.update s.adds t (some c)})
    (ht : s.adds t=none) :
    Met first packets {stepAll s steps with
        adds := Function.update (stepAll s steps).adds t (some c)} ∧
      (stepAll s steps).adds t=none := by
  induction steps generalizing s with
  | nil => exact ⟨h,ht⟩
  | cons x steps ih =>
    change Met first packets {stepAll (taskStep s (.step x)) steps with
        adds := Function.update (stepAll (taskStep s (.step x)) steps).adds t (some c)} ∧
      (stepAll (taskStep s (.step x)) steps).adds t=none
    have hget : s.get=none := h.get
    cases hx : s.adds x with
    | none =>
      rw [step_idle hx hget]
      exact ih h ht
    | some c' =>
      have hne : x≠t := by
        rintro rfl
        cases ht.symm.trans hx
      rw [step_add hx]
      refine ih ⟨?_,h.get,h.returned,h.added⟩ ?_
      · have hstep := h.meeting.step
          (show Function.update s.adds t (some c) x=some c' by rwa [Function.update_of_ne hne])
        dsimp only at hstep
        rwa [Function.update_comm hne.symm] at hstep
      · exact (Function.update_of_ne hne.symm ..).trans ht

/-- An add of a task with no call under way. -/
theorem add_of_free {t : Task} {packet : TxStackData} (hadd : s.adds t=none) (hget : s.get=none)
    (hwr : s.stack.writePosition<80) (hshort : packet.length.toNat≤8) :
    taskStep s (.add t packet)={s with
      adds := Function.update s.adds t (some ⟨packet,s.stack.writePosition,.busy⟩)
      added := s.added++[frame packet]} := by
  have hbegin : beginAdd s t packet={s with
      adds := Function.update s.adds t (some ⟨packet,s.stack.writePosition,.busy⟩)
      added := s.added++[frame packet]} := by
    unfold beginAdd
    rw [hadd,startAdd_eq hwr hshort]
  cases t with
  | lcd => exact hbegin
  | can =>
    refine (if_neg ?_).trans hbegin
    rw [hget]
    exact Bool.false_ne_true

/-- An add that begins while the other task is in one: when both have ended,
however their accesses were ordered, two frames have been added and the ring
holds one more. -/
theorem meeting_adds_lose {first : Tasks} (hquiet : first.Quiet) {q : List Frame}
    (hq : Holds first.stack q) (hroom : q.length<80) {t t' : Task} (hne : t≠t')
    {packet packet' : TxStackData} (hshort : packet.length.toNat≤8)
    (hshort' : packet'.length.toNat≤8) (before after : List Task)
    (hmet : (stepAll (taskStep first (.add t packet)) before).adds t≠none) :
    let last := stepAll (taskStep (stepAll (taskStep first (.add t packet)) before)
      (.add t' packet')) after
    (∀ t,last.adds t=none) →
      last.added=first.added++[frame packet,frame packet'] ∧ last.returned=first.returned ∧
        ∃ f,Holds last.stack (q++[f]) := by
  intro last hend
  have hwr : first.stack.writePosition<80 := hq.wr_lt
  have hother {x : Task} (hx : x≠t') : x=t := Task.eq_of_ne hne hx
  have hbegin := add_of_free (hquiet.1 t) hquiet.2 hwr hshort
  have hstart : Met first [frame packet] {taskStep first (.add t packet) with
      adds := Function.update (taskStep first (.add t packet)).adds t'
        (some ⟨packet',first.stack.writePosition,.busy⟩)} := by
    rw [hbegin]
    refine ⟨meeting_begin fun x => ?_,hquiet.2,rfl,rfl⟩
    dsimp only
    by_cases hx : x=t'
    · exact ⟨packet',hshort',by rw [hx,Function.update_self]⟩
    · refine ⟨packet,hshort,?_⟩
      rw [Function.update_of_ne hx,hother hx,Function.update_self]
  have hfree : (taskStep first (.add t packet)).adds t'=none := by
    rw [hbegin]
    exact (Function.update_of_ne hne.symm ..).trans (hquiet.1 t')
  obtain ⟨hmeet,hnone⟩ := met_before before hstart hfree
  have hpos : (stepAll (taskStep first (.add t packet)) before).stack.writePosition=
      first.stack.writePosition := by
    refine hmeet.meeting.waits fun x => ?_
    dsimp only
    by_cases hx : x=t'
    · rw [hx,Function.update_self]
      exact Option.some_ne_none _
    · rw [Function.update_of_ne hx,hother hx]
      exact hmet
  have hsecond := add_of_free hnone hmeet.get (hpos ▸ hwr) hshort'
  have hboth : Met first [frame packet,frame packet']
      (taskStep (stepAll (taskStep first (.add t packet)) before) (.add t' packet')) := by
    rw [hsecond,hpos]
    refine ⟨hmeet.meeting,hmeet.get,hmeet.returned,?_⟩
    have hadded : (stepAll (taskStep first (.add t packet)) before).added=
        first.added++[frame packet] := hmeet.added
    dsimp only
    rw [hadded,List.append_assoc]
    rfl
  have hlast := hboth.steps after
  exact ⟨hlast.added,hlast.returned,hlast.meeting.ended hend hq hroom⟩

/-! ## When the ring keeps its order -/

/-- The frames returned and those the ring holds are all those added, in order. -/
def Tasks.InOrder (s : Tasks) : Prop := ∃ q,Holds s.stack q ∧ s.returned++q=s.added

/-- A ring holds one number of frames. -/
theorem holds_length {stack : TxStack} {q' : List Frame} (h : Holds stack q) (h' : Holds stack q') :
    q.length=q'.length := by
  have hle {q q' : List Frame} (h : Holds stack q) (h' : Holds stack q') : q.length≤q'.length := by
    by_contra hlt
    have hfits := h.fits
    have hk : q'.length<q.length := Nat.lt_of_not_le hlt
    have hnone := h'.slots q'.length (by omega)
    have hsome := h.slots q'.length (by omega)
    rw [List.getElem?_eq_none (Nat.le_refl _)] at hnone
    rw [List.getElem?_eq_getElem hk] at hsome
    exact (shows_ready hnone).mp hsome.1 rfl
  exact Nat.le_antisymm (hle h h') (hle h' h)

/-- Without a get nothing is added or returned by the steps of the calls. -/
theorem stepAll_noGet (steps : List Task) {s : Tasks} (hget : s.get=none) :
    (stepAll s steps).get=none ∧ (stepAll s steps).added=s.added ∧
      (stepAll s steps).returned=s.returned ∧
        ∀ t,s.adds t=none → (stepAll s steps).adds t=none := by
  induction steps generalizing s with
  | nil => exact ⟨hget,rfl,rfl,fun _ ht => ht⟩
  | cons x steps ih =>
    change (stepAll (taskStep s (.step x)) steps).get=none ∧
      (stepAll (taskStep s (.step x)) steps).added=s.added ∧
        (stepAll (taskStep s (.step x)) steps).returned=s.returned ∧
          ∀ t,s.adds t=none → (stepAll (taskStep s (.step x)) steps).adds t=none
    cases hx : s.adds x with
    | none =>
      rw [step_idle hx hget]
      exact ih hget
    | some c =>
      rw [step_add hx]
      obtain ⟨hget',hadded,hreturned,hadds⟩ := @ih {s with
        stack := (addStep s.stack c).1
        adds := Function.update s.adds x (addStep s.stack c).2} hget
      refine ⟨hget',hadded,hreturned,fun t ht => hadds t ?_⟩
      have hne : t≠x := by
        rintro rfl
        cases ht.symm.trans hx
      exact (Function.update_of_ne hne ..).trans ht

/-- Steps of the calls keep the invariant. -/
theorem TasksInv.steps (steps : List Task) (h : TasksInv s add q) :
    ∃ add' q',TasksInv (stepAll s steps) add' q' := by
  induction steps generalizing s add q with
  | nil => exact ⟨add,q,h⟩
  | cons x steps ih =>
    obtain ⟨add',q',h'⟩ := @TasksInv.step s add q h (.step x) (fun _ _ he => nomatch he)
      fun _ _ he => nomatch he
    exact ih h'

/-- A task adds a packet, and behind some steps of the two tasks so does the
other; then both calls go on. -/
def twoAdds (s : Tasks) (t t' : Task) (packet packet' : TxStackData) (before after : List Task) :
    Tasks :=
  stepAll (taskStep (stepAll (taskStep s (.add t packet)) before) (.add t' packet')) after

/-- Two adds keep the order exactly when the first has ended before the second
begins. -/
theorem TasksInv.twoAdds_inOrder (h : TasksInv s none q) (hquiet : s.Quiet)
    (hroom : q.length+2≤80) {t t' : Task} (hne : t≠t') {packet packet' : TxStackData}
    (hshort : packet.length.toNat≤8) (hshort' : packet'.length.toNat≤8) (before after : List Task)
    (hend : ∀ x,(twoAdds s t t' packet packet' before after).adds x=none) :
    (twoAdds s t t' packet packet' before after).InOrder ↔
      (stepAll (taskStep s (.add t packet)) before).adds t=none := by
  obtain ⟨hholds,hacc⟩ := h.holds hquiet.2
  have hlen := congrArg List.length hacc
  rw [List.length_append] at hlen
  constructor
  · rintro ⟨q',hq',hacc'⟩
    by_contra hmet
    obtain ⟨hadded,hreturned,f,hf⟩ := meeting_adds_lose hquiet hholds (by omega) hne hshort hshort'
      before after hmet hend
    have hone := holds_length hf hq'
    have hlen' := congrArg List.length hacc'
    unfold twoAdds at hlen'
    rw [hadded,hreturned,List.length_append,List.length_append] at hlen'
    rw [List.length_append,List.length_singleton] at hone
    have htwo : [frame packet,frame packet'].length=2 := rfl
    omega
  · intro hfirst
    have hbegin := add_of_free (hquiet.1 t) hquiet.2 hholds.wr_lt hshort
    have hget : (taskStep s (.add t packet)).get=none := by rw [hbegin]; exact hquiet.2
    have hadded : (taskStep s (.add t packet)).added=s.added++[frame packet] := by rw [hbegin]
    have hreturned : (taskStep s (.add t packet)).returned=s.returned := by rw [hbegin]
    have hother : (taskStep s (.add t packet)).adds t'=none := by
      rw [hbegin]
      exact (Function.update_of_ne hne.symm ..).trans (hquiet.1 t')
    obtain ⟨hget',hadded',hreturned',hadds⟩ := stepAll_noGet before hget
    obtain ⟨add1,q1,h1⟩ := @TasksInv.step s none q h (.add t packet) (fun _ _ _ x _ => hquiet.1 x)
      (by rintro _ _ he; cases he; exact ⟨hshort,by omega⟩)
    obtain ⟨add2,q2,h2⟩ := h1.steps before
    have hnone : ∀ x,(stepAll (taskStep s (.add t packet)) before).adds x=none := by
      intro x
      by_cases hx : x=t'
      · exact hx ▸ hadds t' hother
      · exact Task.eq_of_ne hne hx ▸ hfirst
    obtain rfl := h2.no_add hnone
    obtain ⟨add3,q3,h3⟩ := @TasksInv.step _ none q2 h2 (.add t' packet') (fun _ _ _ x _ => hnone x)
      (by
        rintro _ _ he
        cases he
        refine ⟨hshort',?_⟩
        rw [hadded',hadded,hreturned',hreturned,List.length_append,List.length_singleton]
        omega)
    have hsecond := add_of_free (hnone t') hget' (h2.holds hget').1.wr_lt hshort'
    obtain ⟨add4,q4,h4⟩ := h3.steps after
    obtain rfl := h4.no_add hend
    have hget2 : (taskStep (stepAll (taskStep s (.add t packet)) before) (.add t' packet')).get=
        none := by rw [hsecond]; exact hget'
    exact ⟨q4,h4.holds (stepAll_noGet after hget2).1⟩

/-- Wherever the two tasks interrupt each other, as long as no add begins while
the other task is in one and 80 frames at most are outstanding: the frames
returned are the first ones added, and when no call is under way the ring holds
the others. From there two further adds, with room for both, keep the order
exactly when the first has ended before the second begins. -/
theorem ring_in_order (stack₀ : TxStack) (ops : List TaskOp)
    (hapart : InputsMeet (Apart stack₀) ops) (hroom : InputsMeet (Room stack₀) ops) :
    (tasksRun stack₀ ops).returned<+:(tasksRun stack₀ ops).added ∧
      ((tasksRun stack₀ ops).Quiet → (tasksRun stack₀ ops).InOrder ∧
        ((tasksRun stack₀ ops).added.length+2≤(tasksRun stack₀ ops).returned.length+80 →
          ∀ t t' packet packet' before after,t≠t' → packet.length.toNat≤8 →
            packet'.length.toNat≤8 →
              (∀ x,(twoAdds (tasksRun stack₀ ops) t t' packet packet' before after).adds x=none) →
                ((twoAdds (tasksRun stack₀ ops) t t' packet packet' before after).InOrder ↔
                  (stepAll (taskStep (tasksRun stack₀ ops) (.add t packet)) before).adds t=
                    none))) := by
  obtain ⟨add,q,h⟩ := tasksInv_run hapart hroom
  refine ⟨?_,fun hquiet => ?_⟩
  · rw [←h.accounted,List.append_assoc,List.append_assoc]
    exact List.prefix_append ..
  · obtain rfl := h.no_add hquiet.1
    obtain ⟨hholds,hacc⟩ := h.holds hquiet.2
    refine ⟨⟨q,hholds,hacc⟩,fun htwo t t' packet packet' before after hne hshort hshort' hend => ?_⟩
    have hlen := congrArg List.length hacc
    rw [List.length_append] at hlen
    exact h.twoAdds_inOrder hquiet (by omega) hne hshort hshort' before after hend

/-- The operation begins an add. -/
def TaskOp.isAdd : TaskOp → Bool
  | .add _ _ => true
  | _ => false

/-- Steps and gets meet every condition on adds. -/
theorem inputsMeet_append {C : List TaskOp → TaskOp → Prop}
    (hadds : ∀ pre op,op.isAdd=false → C pre op) (h : InputsMeet C ops) {more : List TaskOp}
    (hmore : more.all (!·.isAdd)=true) : InputsMeet C (ops++more) := by
  induction more using List.reverseRecOn with
  | nil => rwa [List.append_nil]
  | append_singleton more op ih =>
    rw [List.all_append,Bool.and_eq_true] at hmore
    rw [←List.append_assoc]
    refine (ih hmore.1).concat (hadds _ op ?_)
    have hop := List.all_eq_true.mp hmore.2 op (List.mem_singleton_self op)
    rwa [Bool.not_eq_true'] at hop

/-- The display task adds a packet, and a get of the CAN task comes in between. -/
def firstAdd : List TaskOp :=
  [.add .lcd (onePacket 1),.step .lcd,.step .lcd,.get (onePacket 0),.step .can,.step .lcd,
    .step .lcd,.step .lcd,.step .lcd]

/-- The CAN task takes it out while the display task adds the next one. -/
def nextAdd : List TaskOp :=
  [.step .lcd,.step .can,.step .lcd,.step .can,.step .lcd,.step .can,.step .can,.step .can,
    .step .lcd,.step .lcd,.step .lcd]

/-- Both, one after the other. -/
def interrupted : List TaskOp :=
  firstAdd++[.get (onePacket 0),.step .can]++[.add .lcd (onePacket 2)]++nextAdd

/-- A condition on adds for the two adds of this run. -/
theorem interrupted_meets {C : List TaskOp → TaskOp → Prop}
    (hadds : ∀ pre op,op.isAdd=false → C pre op) (hfirst : C [] (.add .lcd (onePacket 1)))
    (hnext : C (firstAdd++[.get (onePacket 0),.step .can]) (.add .lcd (onePacket 2))) :
    InputsMeet C interrupted := by
  have hnil : InputsMeet C [] := by
    intro pre op post he
    cases pre <;> cases he
  have hone : InputsMeet C (firstAdd++[.get (onePacket 0),.step .can]) := by
    rw [firstAdd,List.cons_append]
    exact inputsMeet_append hadds (hnil.concat hfirst) rfl
  exact inputsMeet_append hadds (hone.concat hnext) rfl

/-- A run with both kinds of interruption: the first frame has been returned,
and of two further adds the order is kept when they follow each other and lost
when they meet. -/
theorem ring_in_order_interrupted :
    (tasksRun zeroStack interrupted).returned=[frame (onePacket 1)] ∧
      (tasksRun zeroStack interrupted).InOrder ∧
        (twoAdds (tasksRun zeroStack interrupted) .lcd .can (onePacket 3) (onePacket 4)
          (List.replicate 6 .lcd) (List.replicate 6 .can)).InOrder ∧
          ¬(twoAdds (tasksRun zeroStack interrupted) .lcd .can (onePacket 3) (onePacket 4)
            [.lcd] (List.replicate 6 .can++List.replicate 6 .lcd)).InOrder := by
  have hapart : InputsMeet (Apart zeroStack) interrupted := by
    refine interrupted_meets ?_ ?_ ?_
    · rintro pre op hop t packet rfl
      cases hop
    · exact fun _ _ _ _ _ => rfl
    · rintro t packet he t' ht'
      cases he
      cases t' with
      | lcd => exact absurd rfl ht'
      | can => rfl
  have hroom : InputsMeet (Room zeroStack) interrupted := by
    refine interrupted_meets ?_ ?_ ?_
    · rintro pre op hop t packet rfl
      cases hop
    · rintro t packet he
      cases he
      exact ⟨by decide,by decide⟩
    · rintro t packet he
      cases he
      exact ⟨by decide,by decide⟩
  have hnone {call : Option AddCall} (h : call.isNone=true) : call=none :=
    Option.isNone_iff_eq_none.mp h
  have hquiet : (tasksRun zeroStack interrupted).Quiet :=
    ⟨fun t => hnone (by cases t <;> decide +kernel),rfl⟩
  obtain ⟨horder,htwo⟩ := (ring_in_order zeroStack interrupted hapart hroom).2 hquiet
  have hadds := htwo (by decide +kernel) .lcd .can (onePacket 3) (onePacket 4)
  refine ⟨by decide +kernel,horder,?_,?_⟩
  · have hend : ∀ x,(twoAdds (tasksRun zeroStack interrupted) .lcd .can (onePacket 3) (onePacket 4)
        (List.replicate 6 .lcd) (List.replicate 6 .can)).adds x=none :=
      fun x => hnone (by cases x <;> decide +kernel)
    exact (hadds _ _ Task.noConfusion (by decide) (by decide) hend).mpr (hnone (by decide +kernel))
  · have hend : ∀ x,(twoAdds (tasksRun zeroStack interrupted) .lcd .can (onePacket 3) (onePacket 4)
        [.lcd] (List.replicate 6 .can++List.replicate 6 .lcd)).adds x=none :=
      fun x => hnone (by cases x <;> decide +kernel)
    refine mt (hadds _ _ Task.noConfusion (by decide) (by decide) hend).mp ?_
    exact Option.isSome_iff_ne_none.mp (by decide +kernel)

/-! ## Whole calls -/

/-- The steps of one task, one after another. -/
theorem stepAll_succ (s : Tasks) (t : Task) (n : ℕ) :
    stepAll s (List.replicate (n+1) t)=stepAll (taskStep s (.step t)) (List.replicate n t) := rfl

/-- The steps of a task in an add. -/
theorem stepAll_add {t : Task} (n : ℕ) {s : Tasks} (hget : s.get=none) :
    stepAll s (List.replicate n t)={s with
      stack := (nextStore^[n] (s.stack,s.adds t)).1
      adds := Function.update s.adds t (nextStore^[n] (s.stack,s.adds t)).2} := by
  induction n generalizing s with
  | zero =>
    have hsame : Function.update s.adds t (s.adds t)=s.adds := Function.update_eq_self t s.adds
    rw [Function.iterate_zero_apply,hsame]
    rfl
  | succ n ih =>
    rw [stepAll_succ,Function.iterate_succ_apply]
    cases ht : s.adds t with
    | none => rw [step_idle ht hget,ih hget,ht]; rfl
    | some c =>
      rw [step_add ht]
      refine (@ih {s with
        stack := (addStep s.stack c).1
        adds := Function.update s.adds t (addStep s.stack c).2} hget).trans ?_
      dsimp only
      rw [Function.update_self,Function.update_idem]
      rfl

/-- The tasks with a get in the CAN task, or with its result. -/
def withGet (s : Tasks) : TxStack×(GetCall⊕ℕ×TxStackData) → Tasks
  | (stack,.inl c) => {s with stack := stack,get := some c}
  | (stack,.inr (res,packet)) =>
    {s with
      stack := stack
      get := none
      returned := if res=1 then s.returned++[frame packet] else s.returned}

/-- The steps of the CAN task in a get. -/
theorem stepAll_get (hadd : s.adds .can=none) (n : ℕ) (call : TxStack×(GetCall⊕ℕ×TxStackData)) :
    stepAll (withGet s call) (List.replicate n .can)=withGet s (nextAccess^[n] call) := by
  induction n generalizing call with
  | zero => rfl
  | succ n ih =>
    have hstep : taskStep (withGet s call) (.step .can)=withGet s (nextAccess call) := by
      obtain ⟨stack,c|⟨res,packet⟩⟩ := call
      · unfold taskStep withGet nextAccess
        dsimp only
        rw [hadd]
        dsimp only
        rw [if_pos rfl]
        unfold stepGet
        dsimp only
      · exact step_idle hadd rfl
    rw [stepAll_succ,hstep,ih,Function.iterate_succ_apply]

/-- A whole call of a task; only the CAN task gets. -/
def wholeCall : Task×TxOp → List TaskOp
  | (t,.add packet) => .add t packet::List.replicate 13 (.step t)
  | (_,.get buffer) => .get buffer::List.replicate 13 (.step .can)

/-- The tasks between two whole calls. -/
def between (s : TxRun) (added : List Frame) : Tasks :=
  ⟨s.stack,fun _ => none,none,added,s.returned⟩

/-- A whole call is the call of `CanTxStack`. -/
theorem wholeCall_step {s : TxRun} {frames : List Frame} (hwr : s.stack.writePosition<80)
    (t : Task) {op : TxOp} (hshort : ShortPacket op) :
    (wholeCall (t,op)).foldl taskStep (between s frames)=
      between (txStep s op) (frames++added [op]) := by
  have hreplicate (t : Task) (s : Tasks) :
      (List.replicate 13 (TaskOp.step t)).foldl taskStep s=stepAll s (List.replicate 13 t) := rfl
  cases op with
  | add packet =>
    have hbegin : taskStep (between s frames) (.add t packet)={between s frames with
        adds := Function.update (fun _ => none) t
          (some ⟨packet,s.stack.writePosition,.busy⟩)
        added := frames++[frame packet]} := add_of_free rfl rfl hwr (hshort packet rfl)
    have hwhole := nextStore_whole s.stack packet
    rw [startAdd_eq hwr (hshort packet rfl)] at hwhole
    change (List.replicate 13 (TaskOp.step t)).foldl taskStep
      (taskStep (between s frames) (.add t packet))=_
    rw [hreplicate,hbegin,stepAll_add 13 rfl]
    dsimp only
    rw [Function.update_self,Function.update_idem]
    change Tasks.mk (nextStore^[13] (s.stack,some ⟨packet,s.stack.writePosition,.busy⟩)).1
      (Function.update _ t
        (nextStore^[13] (s.stack,some ⟨packet,s.stack.writePosition,.busy⟩)).2) none _ _=_
    rw [hwhole]
    have hnone : Function.update (fun _ : Task => (none : Option AddCall)) t none=fun _ => none :=
      Function.update_eq_self t _
    exact congrArg (Tasks.mk _ · none _ _) hnone
  | get buffer =>
    have hbegin : taskStep (between s frames) (.get buffer)=
        withGet (between s frames) (s.stack,calledGet s.stack buffer) := by
      change {between s frames with get := startGet s.stack buffer}=_
      unfold calledGet
      cases startGet s.stack buffer <;> rfl
    change (List.replicate 13 (TaskOp.step .can)).foldl taskStep
      (taskStep (between s frames) (.get buffer))=_
    rw [hreplicate,hbegin,stepAll_get rfl,nextAccess_whole]
    exact congrArg (Tasks.mk _ _ none · _) (List.append_nil frames).symm

/-- Whole calls one after another do what the calls of `CanTxStack` do. -/
theorem whole_calls (stack₀ : TxStack) (ops : List (Task×TxOp))
    (hshort : ∀ op∈ops,ShortPacket op.2) :
    tasksRun stack₀ (ops.flatMap wholeCall)=
      between (txRun stack₀ (ops.map Prod.snd)) (added (ops.map Prod.snd)) := by
  induction ops using List.reverseRecOn with
  | nil => rfl
  | append_singleton ops op ih =>
    have hprev := ih fun o ho => hshort o (List.mem_append_left _ ho)
    have hlast := hshort op (List.mem_append_right _ (List.mem_singleton_self op))
    unfold tasksRun at hprev ⊢
    rw [List.flatMap_append,List.foldl_append,hprev,List.flatMap_singleton,List.map_append,
      List.map_singleton,txRun_concat]
    rw [wholeCall_step (txRun_writePosition_lt stack₀ _) op.1 hlast]
    unfold added
    rw [List.filterMap_append]

end BT816Display.CanTxTasks
