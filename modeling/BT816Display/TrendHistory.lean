import BT816Display.TrendEdit

/-!
# What a confirmed edit keeps of the trends

A confirmation writes back the points of the time when the screen was opened.
It keeps the history of a trend exactly when the points delivered since leave
the ring as it was.
-/

namespace BT816Display.TrendHistory

open RingLog TrendData TrendEdit Keys

/-! ## Histories -/

/-- Two trends have the same history, whatever their parameters are. -/
structure SameHistory (tr tr' : Trend) : Prop where
  /-- Points of the ring. -/
  point : ∀ i<trendSize,tr.point i=tr'.point i
  /-- Oldest point. -/
  firstPoint : tr.firstPoint=tr'.firstPoint
  /-- Next point to be written. -/
  curPoint : tr.curPoint=tr'.curPoint
  /-- full_flag. -/
  fullFlag : tr.fullFlag=tr'.fullFlag

/-- Every trend has its own history. -/
theorem SameHistory.refl (tr : Trend) : SameHistory tr tr := ⟨fun _ _ => rfl,rfl,rfl,rfl⟩

/-- The history is the same both ways. -/
theorem SameHistory.symm {tr tr' : Trend} (h : SameHistory tr tr') : SameHistory tr' tr where
  point := fun i hi => (h.point i hi).symm
  firstPoint := h.firstPoint.symm
  curPoint := h.curPoint.symm
  fullFlag := h.fullFlag.symm

/-- And over a third trend. -/
theorem SameHistory.trans {tr tr' tr'' : Trend} (h : SameHistory tr tr')
    (h' : SameHistory tr' tr'') : SameHistory tr tr'' where
  point := fun i hi => (h.point i hi).trans (h'.point i hi)
  firstPoint := h.firstPoint.trans h'.firstPoint
  curPoint := h.curPoint.trans h'.curPoint
  fullFlag := h.fullFlag.trans h'.fullFlag

/-- A parameter is no part of the history. -/
theorem SameHistory.set (tr : Trend) (value : UInt8) (link : Link) :
    SameHistory (link.set tr value) tr := by
  cases link <;> exact ⟨fun _ _ => rfl,rfl,rfl,rfl⟩

/-- A parameter of one of several trends is no part of their histories. -/
theorem SameHistory.update (trends : ℕ → Trend) (j : ℕ) (value : UInt8) (link : Link) (i : ℕ) :
    SameHistory (Function.update trends j (link.set (trends j) value) i) (trends i) := by
  by_cases hi : i=j
  · subst hi
    rw [Function.update_self]
    exact SameHistory.set (trends i) value link
  · rw [Function.update_of_ne hi]
    exact SameHistory.refl (trends i)

/-- The same history is in the ring or not. -/
theorem SameHistory.inRing {tr tr' : Trend} (h : SameHistory tr tr') (hr : tr'.InRing) :
    tr.InRing where
  cur := by rw [h.curPoint]; exact hr.cur
  first := by rw [h.firstPoint]; exact hr.first
  flag := by rw [h.fullFlag]; exact hr.flag

/-- Points after which a ring is again as it was: none, or, in a full ring, a
number of rounds of which the last repeats the contents. -/
def Restored (tr : Trend) (points : List TrendPoint) : Prop :=
  points=[] ∨ tr.fullFlag≠0 ∧ trendSize∣points.length ∧
    points.drop (points.length-trendSize)=ringFrom trendSize tr.point tr.curPoint

/-- A whole round at least is read from the points alone. -/
theorem ringFrom_addPoints_of_round {tr : Trend} (h : tr.InRing) {points : List TrendPoint}
    (hl : trendSize≤points.length) :
    ringFrom trendSize (addPoints tr points).point (addPoints tr points).curPoint=
      points.drop (points.length-trendSize) := by
  rw [ringFrom_addPoints h,List.drop_append,
    List.drop_of_length_le (by rw [ringFrom_length]; exact hl),List.nil_append,ringFrom_length]

/-- The history after points is that before them exactly when they restore it. -/
theorem sameHistory_addPoints_iff {tr : Trend} (h : tr.InRing) (points : List TrendPoint) :
    SameHistory tr (addPoints tr points) ↔ Restored tr points := by
  have hc := h.cur
  have hcur := addPoints_curPoint h points
  have hflag := addPoints_fullFlag h points
  constructor
  · intro hs
    by_cases hn : points=[]
    · exact Or.inl hn
    · right
      have hpos := List.length_pos_iff.mpr hn
      have hround : trendSize∣points.length := by
        have he := hs.curPoint.trans hcur
        unfold trendSize at *
        omega
      have hl := Nat.le_of_dvd hpos hround
      refine ⟨?_,hround,?_⟩
      · rw [hs.fullFlag,hflag,if_pos (by omega)]
        decide
      · rw [←ringFrom_addPoints_of_round h hl,←hs.curPoint]
        exact ((ringFrom_eq_iff hc).mpr hs.point).symm
  · intro hr
    rcases hr with rfl|⟨hf,hround,hring⟩
    · exact SameHistory.refl tr
    · have hl : trendSize≤points.length := by
        have he := congrArg List.length hring
        rw [List.length_drop,ringFrom_length] at he
        unfold trendSize at *
        omega
      have hcur' : (addPoints tr points).curPoint=tr.curPoint := by
        rw [hcur]
        unfold trendSize at *
        omega
      have hfirst : (addPoints tr points).firstPoint=tr.firstPoint := by
        have hlt := h.first
        rw [addPoints_firstPoint h hf]
        unfold trendSize at *
        omega
      refine ⟨?_,hfirst.symm,hcur'.symm,?_⟩
      · rw [←ringFrom_addPoints_of_round h hl,hcur'] at hring
        exact fun i hi => ((ringFrom_eq_iff hc).mp hring i hi).symm
      · rw [hflag,if_pos (by omega)]
        exact h.flag.resolve_left hf

/-! ## One key of the editor -/

/-- A step of the editor that changes parameters at most. -/
structure Edits (s s' : EditUi) : Prop where
  /-- The stored trends. -/
  store : s'.store=s.store
  /-- current_menu. -/
  menu : s'.currentMenu=s.currentMenu
  /-- The copy of each trend. -/
  copy : ∀ i,SameHistory (s'.tmpTrends i) (s.tmpTrends i)

/-- Nothing at all changes parameters at most. -/
theorem Edits.refl (s : EditUi) : Edits s s := ⟨rfl,rfl,fun _ => SameHistory.refl _⟩

/-- So do two such steps. -/
theorem Edits.trans {s s' s'' : EditUi} (h : Edits s s') (h' : Edits s' s'') : Edits s s'' where
  store := h'.store.trans h.store
  menu := h'.menu.trans h.menu
  copy := fun i => (h'.copy i).trans (h.copy i)

/-- A step to another trend shows its parameters. -/
theorem updateParamsByTrendNum_edits (s : EditUi) (num : UInt8) :
    Edits s (updateParamsByTrendNum s num) := by
  unfold updateParamsByTrendNum
  split
  · exact Edits.refl s
  · exact ⟨rfl,rfl,fun _ => SameHistory.refl _⟩

/-- Moving the digit changes no copy. -/
theorem posToRight_edits (s : EditUi) : Edits s (posToRight s) := by
  unfold posToRight
  dsimp only
  split_ifs <;> exact ⟨rfl,rfl,fun _ => SameHistory.refl _⟩

/-- A value typed in goes into one parameter. -/
theorem updateParamValue_edits (s : EditUi) (curPar : ℕ) (num : UInt8) :
    Edits s (updateParamValue s curPar num) := by
  unfold updateParamValue
  dsimp only
  split_ifs
  · exact Edits.refl s
  · exact Edits.refl s
  · refine Edits.trans ?_ (posToRight_edits _)
    exact ⟨rfl,rfl,SameHistory.update s.tmpTrends s.curTrend.toNat _ _⟩

/-- Showing the fields moves the cursor at most. -/
theorem updateData_eq (s : EditUi) : ∃ pos,updateData s={s with pos := pos} := by
  unfold updateData
  generalize List.range paramCnt=fields
  induction fields generalizing s with
  | nil => exact ⟨s.pos,rfl⟩
  | cons i fields ih =>
    rw [List.foldl_cons]
    split
    · exact ih {s with pos := (s.params i).width.toUInt8}
    · exact ih s

/-- The key confirms the edit. -/
def Confirms (s : EditUi) (key : UInt16) : Prop :=
  s.currentMenu=.editTrend ∧ key≠s.prevKey ∧ (key=keyLeft ∨ key=keyEnter)

/-- A key that neither confirms nor leaves changes parameters at most. -/
theorem editTrendKey_edits (s : EditUi) {key : UInt16} (hl : key≠keyLeft) (he : key≠keyEnter)
    (hx : key≠keyExit) : Edits s (editTrendKey s key) := by
  unfold editTrendKey
  rw [if_neg (not_or.mpr ⟨hl,he⟩),if_neg hx]
  dsimp only
  split_ifs
  · refine Edits.trans ?_ (updateParamsByTrendNum_edits _ _)
    exact ⟨rfl,rfl,fun _ => SameHistory.refl _⟩
  · exact updateParamsByTrendNum_edits s _
  · refine Edits.trans ?_ (updateParamsByTrendNum_edits _ _)
    exact ⟨rfl,rfl,fun _ => SameHistory.refl _⟩
  · exact updateParamsByTrendNum_edits s _
  · exact posToRight_edits s
  · cases digit key with
    | some num => exact updateParamValue_edits s _ num
    | none => exact Edits.refl s

/-- The keys that confirm or leave close the editor. -/
theorem editTrendKey_leaves (s : EditUi) {key : UInt16}
    (h : key=keyLeft ∨ key=keyEnter ∨ key=keyExit) :
    (editTrendKey s key).currentMenu=.trendConf := by
  rcases h with rfl|rfl|rfl <;> rfl

/-- What the keys find: the same but for the cursor. -/
theorem editTrendMenu_eq (s : EditUi) (key : UInt16) : ∃ pos,editTrendMenu s key=
    {if key≠s.prevKey then editTrendKey {s with pos := pos} key else {s with pos := pos} with
      prevKey := kept key} := by
  unfold editTrendMenu
  by_cases hn : s.store.trCnt≠0
  · obtain ⟨pos,hpos⟩ := updateData_eq s
    rw [if_pos hn,hpos]
    exact ⟨pos,rfl⟩
  · rw [if_neg hn]
    exact ⟨s.pos,rfl⟩

/-- While the editor stays open a key changes parameters at most. -/
theorem editTrendMenu_edits {s : EditUi} {key : UInt16}
    (h : (editTrendMenu s key).currentMenu=.editTrend) : Edits s (editTrendMenu s key) := by
  obtain ⟨pos,hpos⟩ := editTrendMenu_eq s key
  rw [hpos] at h ⊢
  by_cases hk : key≠s.prevKey
  · rw [if_pos hk] at h ⊢
    have hstay : ¬(key=keyLeft ∨ key=keyEnter ∨ key=keyExit) := fun hleave =>
      absurd ((editTrendKey_leaves {s with pos := pos} hleave).symm.trans h) (by decide)
    obtain ⟨hl,he,hx⟩ := not_or.mp hstay |>.imp_right not_or.mp
    have hkey := editTrendKey_edits {s with pos := pos} hl he hx
    exact ⟨hkey.store,hkey.menu,hkey.copy⟩
  · rw [if_neg hk]
    exact ⟨rfl,rfl,fun _ => SameHistory.refl _⟩

/-- A confirmation replaces every stored trend by its copy. -/
theorem editTrendMenu_confirms {s : EditUi} {key : UInt16} (h : Confirms s key) {i : ℕ}
    (hi : i<trendMaxCnt) : (editTrendMenu s key).store.trends i=s.tmpTrends i := by
  obtain ⟨pos,hpos⟩ := editTrendMenu_eq s key
  rw [hpos,if_pos h.2.1,editTrendKey,if_pos h.2.2]
  exact if_pos hi

/-- The editor selects the screens that the model of all screens says. -/
theorem editTrendMenu_menu (s : EditUi) {ui : Menu.Ui} (hp : ui.prevKey .editTrend=s.prevKey)
    (key : UInt16) : (editTrendMenu s key).currentMenu=
      (Menu.editTrendMenu ui key).target.getD s.currentMenu := by
  obtain ⟨pos,hpos⟩ := editTrendMenu_eq s key
  rw [hpos,Menu.editTrendMenu,Menu.onNewKey,hp]
  dsimp only
  by_cases hk : key≠s.prevKey
  · rw [if_pos hk,if_pos hk]
    by_cases hl : key=keyLeft ∨ key=keyEnter ∨ key=keyExit
    · rw [if_pos hl]
      exact editTrendKey_leaves _ hl
    · rw [if_neg hl]
      obtain ⟨hleft,henter,hexit⟩ := not_or.mp hl |>.imp_right not_or.mp
      exact (editTrendKey_edits {s with pos := pos} hleft henter hexit).menu
  · rw [if_neg hk,if_neg hk]
    rfl

/-! ## One edit -/

/-- The points that events deliver to a trend. -/
def delivered (tr : Trend) : List EditEvent → List TrendPoint
  | [] => []
  | .key _::events => delivered tr events
  | .point curLongTime nodeAddr inpNum value::events =>
    if tr.devAddr=nodeAddr ∧ tr.inpNum=inpNum then ⟨value,curLongTime⟩::delivered tr events
    else delivered tr events

/-- Events in order. -/
def session (s : EditUi) (events : List EditEvent) : EditUi := events.foldl editStep s

/-- The stored trends are those of the opened screen with points added, and
the copies have the histories of that time. -/
structure Since (opened s : EditUi) (points : ℕ → List TrendPoint) : Prop where
  /-- Stored trends. -/
  stored : ∀ i<trendMaxCnt,s.store.trends i=addPoints (opened.store.trends i) (points i)
  /-- Copies. -/
  copy : ∀ i<trendMaxCnt,SameHistory (s.tmpTrends i) (opened.store.trends i)

/-- Points leave the parameters of their trend alone. -/
theorem addPoints_params (tr : Trend) (points : List TrendPoint) :
    (addPoints tr points).devAddr=tr.devAddr ∧ (addPoints tr points).inpNum=tr.inpNum := by
  induction points generalizing tr with
  | nil => exact ⟨rfl,rfl⟩
  | cons point points ih =>
    have hp := addDataToTrend_params tr point
    rw [addPoints_cons,(ih _).1,(ih _).2]
    exact hp

/-- Events do not open the editor. -/
theorem editStep_open {s : EditUi} {event : EditEvent}
    (h : (editStep s event).currentMenu=.editTrend) : s.currentMenu=.editTrend := by
  cases event with
  | key key =>
    by_contra hm
    rw [editStep,if_neg hm] at h
    exact hm h
  | point => exact h

/-- Events do not open the editor when there are many either. -/
theorem session_open {s : EditUi} {events : List EditEvent}
    (h : (session s events).currentMenu=.editTrend) : s.currentMenu=.editTrend := by
  induction events generalizing s with
  | nil => exact h
  | cons event events ih => exact editStep_open (ih h)

/-- An event keeps the screen and its trends related while the editor stays open. -/
theorem Since.step {opened s : EditUi} {points : ℕ → List TrendPoint} (hs : Since opened s points)
    {event : EditEvent} (h : (editStep s event).currentMenu=.editTrend) :
    Since opened (editStep s event) fun i =>
      points i++delivered (opened.store.trends i) [event] := by
  cases event with
  | key key =>
    have hopen := editStep_open h
    rw [editStep,if_pos hopen] at h ⊢
    have hedits := editTrendMenu_edits h
    refine ⟨fun i hi => ?_,fun i hi => (hedits.copy i).trans (hs.copy i hi)⟩
    rw [hedits.store,hs.stored i hi,delivered,delivered,List.append_nil]
  | point curLongTime nodeAddr inpNum value =>
    refine ⟨fun i hi => ?_,hs.copy⟩
    have hparams := addPoints_params (opened.store.trends i) (points i)
    show checkAndAddDataToTrendFromCan s.store.trends curLongTime nodeAddr inpNum value i=_
    rw [checkAndAddDataToTrendFromCan,hs.stored i hi,hparams.1,hparams.2,delivered,delivered]
    by_cases hmatch : (opened.store.trends i).devAddr=nodeAddr ∧
        (opened.store.trends i).inpNum=inpNum
    · rw [if_pos ⟨hi,hmatch⟩,if_pos hmatch,addPoints_concat]
    · rw [if_neg fun hc => hmatch hc.2,if_neg hmatch,List.append_nil]

/-- The points of the first event come first. -/
theorem delivered_cons (tr : Trend) (event : EditEvent) (events : List EditEvent) :
    delivered tr (event::events)=delivered tr [event]++delivered tr events := by
  cases event with
  | key key => rfl
  | point curLongTime nodeAddr inpNum value =>
    rw [delivered,delivered,delivered]
    split <;> rfl

/-- All events keep the screen and its trends related while the editor stays open. -/
theorem Since.session {opened s : EditUi} {points : ℕ → List TrendPoint}
    (hs : Since opened s points) {events : List EditEvent}
    (h : (session s events).currentMenu=.editTrend) :
    Since opened (session s events) fun i =>
      points i++delivered (opened.store.trends i) events := by
  induction events generalizing s points with
  | nil => simpa only [TrendHistory.session,List.foldl_nil,delivered,List.append_nil] using hs
  | cons event events ih =>
    have hstep := ih (hs.step (session_open h)) h
    refine ⟨fun i hi => ?_,hstep.copy⟩
    rw [delivered_cons,←List.append_assoc]
    exact hstep.stored i hi

/-! ## Every run -/

/-- The indices of all trends are in their rings. -/
structure InRings (s : EditUi) : Prop where
  /-- Stored trends. -/
  stored : ∀ i,(s.store.trends i).InRing
  /-- Copies. -/
  copy : ∀ i,(s.tmpTrends i).InRing

/-- The parameters loaded at the start are no part of the ring. -/
theorem loadParams_inRing (bpr : ℕ → UInt32) (dt : ℕ) :
    (loadParams bpr dt getNewTrend).InRing :=
  ⟨getNewTrend_inRing.cur,getNewTrend_inRing.first,getNewTrend_inRing.flag⟩

/-- Nor is the input that is corrected. -/
theorem checkInpNum_inRing {first : Trend} (h : first.InRing) (inpNum : UInt8) :
    (checkInpNum inpNum first).InRing := by
  unfold checkInpNum
  dsimp only
  split_ifs <;> exact ⟨h.cur,h.first,h.flag⟩

/-- At power-up the rings are empty. -/
theorem start_inRings (bpr : ℕ → UInt32) : InRings (start bpr) where
  stored := fun i => by
    unfold start initTrends
    dsimp only
    generalize (if bpr 6≠0x1234 then bprDataWrites bpr defaultWrites else bpr)=bpr
    split_ifs
    · exact checkInpNum_inRing (checkInpNum_inRing (checkInpNum_inRing
        (loadParams_inRing bpr 8) _) _) _
    · exact loadParams_inRing bpr 11
    · exact loadParams_inRing bpr 14
  copy := fun _ => ⟨Nat.zero_lt_succ 63,Nat.zero_lt_succ 63,Or.inl rfl⟩

/-- One trend replaced by another with its indices in the ring. -/
theorem update_inRing {trends : ℕ → Trend} (h : ∀ i,(trends i).InRing) {tr : Trend}
    (htr : tr.InRing) (j i : ℕ) : (Function.update trends j tr i).InRing := by
  by_cases hi : i=j
  · subst hi
    rwa [Function.update_self]
  · rw [Function.update_of_ne hi]
    exact h i

/-- A trend that is added has its own ring. -/
theorem addTrend_inRing {s : TrendStore} (h : ∀ i,(s.trends i).InRing) {tr : Trend}
    (htr : tr.InRing) (i : ℕ) : ((addTrend s tr).1.trends i).InRing := by
  unfold addTrend
  split
  · exact h i
  · exact update_inRing h htr _ i

/-- The trends behind a deleted one move with their rings. -/
theorem deleteTrend_inRing {s : TrendStore} (h : ∀ i,(s.trends i).InRing) (trendNum : UInt8)
    (i : ℕ) : ((deleteTrend s trendNum).trends i).InRing := by
  unfold deleteTrend
  dsimp only
  split
  · refine update_inRing (fun i => ?_) getNewTrend_inRing _ i
    generalize List.range' trendNum.toNat (trendMaxCnt-trendNum.toNat)=moved
    induction moved using List.reverseRecOn generalizing i with
    | nil => exact h i
    | append_singleton moved n ih =>
      rw [List.foldl_append,List.foldl_cons,List.foldl_nil]
      exact update_inRing ih (ih n) _ i
  · exact h i

/-- A key keeps the indices in the rings, also when it confirms. -/
theorem editTrendKey_inRings {s : EditUi} (h : InRings s) (key : UInt16) :
    InRings (editTrendKey s key) := by
  by_cases hc : key=keyLeft ∨ key=keyEnter
  · rw [editTrendKey,if_pos hc]
    refine ⟨fun i => ?_,fun i => ?_⟩
    · show (if i<trendMaxCnt then s.tmpTrends i else s.store.trends i).InRing
      split
      · exact h.copy i
      · exact h.stored i
    · show (if i<trendMaxCnt then clearPoints (s.tmpTrends i) else s.tmpTrends i).InRing
      split
      · exact ⟨(h.copy i).cur,(h.copy i).first,(h.copy i).flag⟩
      · exact h.copy i
  · by_cases hx : key=keyExit
    · rw [editTrendKey,if_neg hc,if_pos hx]
      exact ⟨h.stored,h.copy⟩
    · obtain ⟨hl,he⟩ := not_or.mp hc
      have hedits := editTrendKey_edits s hl he hx
      exact ⟨hedits.store.symm ▸ h.stored,fun i => (hedits.copy i).inRing (h.copy i)⟩

/-- An event does. -/
theorem editStep_inRings {s : EditUi} (h : InRings s) (event : EditEvent) :
    InRings (editStep s event) := by
  cases event with
  | key key =>
    rw [editStep]
    split
    · obtain ⟨pos,hpos⟩ := editTrendMenu_eq s key
      have hshown : InRings {s with pos := pos} := ⟨h.stored,h.copy⟩
      rw [hpos]
      split
      · have hkey := editTrendKey_inRings hshown key
        exact ⟨hkey.stored,hkey.copy⟩
      · exact ⟨h.stored,h.copy⟩
    · exact h
  | point curLongTime nodeAddr inpNum value =>
    refine ⟨fun i => ?_,h.copy⟩
    show (checkAndAddDataToTrendFromCan s.store.trends curLongTime nodeAddr inpNum value i).InRing
    unfold checkAndAddDataToTrendFromCan
    split
    · exact (h.stored i).add _
    · exact h.stored i

/-- Opening the screen copies the stored trends. -/
theorem initEditTrendMenu_eq (s : EditUi) :
    (initEditTrendMenu s).store=s.store ∧ ∀ i,(initEditTrendMenu s).tmpTrends i=
      if i<trendMaxCnt then s.store.trends i else s.tmpTrends i := by
  unfold initEditTrendMenu updateParamsByTrendNum
  dsimp only
  split <;> exact ⟨rfl,fun _ => rfl⟩

/-- So does every operation. -/
theorem trendStep_inRings {s : EditUi} (h : InRings s) (op : TrendOp) :
    InRings (trendStep s op) := by
  unfold trendStep
  cases op with
  | select menu =>
    dsimp only
    split
    · exact h
    · exact ⟨h.stored,h.copy⟩
  | openEdit =>
    dsimp only
    split
    · obtain ⟨hstore,hcopy⟩ := initEditTrendMenu_eq s
      refine ⟨fun i => ?_,fun i => ?_⟩
      · show ((initEditTrendMenu s).store.trends i).InRing
        rw [hstore]
        exact h.stored i
      · show ((initEditTrendMenu s).tmpTrends i).InRing
        rw [hcopy i]
        split
        · exact h.stored i
        · exact h.copy i
    · exact h
  | edit event => exact editStep_inRings h event
  | add params =>
    dsimp only
    split_ifs
    · exact ⟨h.stored,h.copy⟩
    · refine ⟨addTrend_inRing h.stored ?_,h.copy⟩
      exact ⟨getNewTrend_inRing.cur,getNewTrend_inRing.first,getNewTrend_inRing.flag⟩
    · exact h
  | delete trendNum =>
    dsimp only
    split
    · exact ⟨deleteTrend_inRing h.stored trendNum,h.copy⟩
    · exact h

/-- The indices are in the rings after every run. -/
theorem trendRun_inRings (bpr : ℕ → UInt32) (ops : List TrendOp) : InRings (trendRun bpr ops) := by
  unfold trendRun
  induction ops using List.reverseRecOn with
  | nil => exact start_inRings bpr
  | append_singleton ops op ih =>
    rw [List.foldl_append,List.foldl_cons,List.foldl_nil]
    exact trendStep_inRings ih op

/-- The run up to a key in the editor: the events since it was opened. -/
theorem trendRun_session (bpr : ℕ → UInt32) (before : List TrendOp) (events : List EditEvent) :
    trendRun bpr (before++.openEdit::events.map .edit)=
      session (trendStep (trendRun bpr before) .openEdit) events := by
  rw [trendRun,List.foldl_append,List.foldl_cons,List.foldl_map]
  rfl

/-- For every history of the trends, every opening of the editor and every
interleaving of its keys with delivered points: the confirmation keeps the
history of every stored trend exactly when the points delivered to it since
the opening leave its ring as it was. -/
theorem confirm_keeps_iff (bpr : ℕ → UInt32) (before : List TrendOp) (events : List EditEvent)
    (key : UInt16) (hopen : (trendRun bpr before).currentMenu=.trendConf)
    (hc : Confirms (trendRun bpr (before++.openEdit::events.map .edit)) key) :
    (∀ i<trendMaxCnt,SameHistory
        ((editTrendMenu (trendRun bpr (before++.openEdit::events.map .edit)) key).store.trends i)
        ((trendRun bpr (before++.openEdit::events.map .edit)).store.trends i)) ↔
      ∀ i<trendMaxCnt,Restored ((trendRun bpr before).store.trends i)
        (delivered ((trendRun bpr before).store.trends i) events) := by
  rw [trendRun_session] at hc ⊢
  have hrings := (trendRun_inRings bpr before).stored
  generalize trendRun bpr before=s at hopen hc hrings ⊢
  obtain ⟨hstore,hcopy⟩ := initEditTrendMenu_eq s
  have hstart : Since s (trendStep s .openEdit) fun _ => [] := by
    rw [trendStep,if_pos hopen]
    refine ⟨fun i _ => ?_,fun i hi => ?_⟩
    · show (initEditTrendMenu s).store.trends i=s.store.trends i
      rw [hstore]
    · show SameHistory ((initEditTrendMenu s).tmpTrends i) (s.store.trends i)
      rw [hcopy i,if_pos hi]
      exact SameHistory.refl _
  have hsince := hstart.session hc.1
  refine forall₂_congr fun i hi => ?_
  rw [editTrendMenu_confirms hc hi,hsince.stored i hi,List.nil_append,
    ←sameHistory_addPoints_iff (hrings i)]
  exact ⟨(hsince.copy i hi).symm.trans,(hsince.copy i hi).trans⟩

/-- A trend that has not been full loses a point delivered during the edit. -/
theorem confirm_loses_point : ¬∀ (bpr : ℕ → UInt32) (before : List TrendOp)
    (events : List EditEvent) (key : UInt16),(trendRun bpr before).currentMenu=.trendConf →
      Confirms (trendRun bpr (before++.openEdit::events.map .edit)) key →
      ∀ i<trendMaxCnt,SameHistory
        ((editTrendMenu (trendRun bpr (before++.openEdit::events.map .edit)) key).store.trends i)
        ((trendRun bpr (before++.openEdit::events.map .edit)).store.trends i) := by
  intro h
  have hcur := (h (fun _ => 0) [.select .trendConf] [.point 5 1 1 7] keyEnter rfl
    ⟨rfl,by decide,Or.inr rfl⟩ 0 (by decide)).curPoint
  exact absurd hcur (by decide)

/-- A round of equal points leaves a ring that is full of them as it was. -/
theorem restored_round {tr : Trend} (h : tr.InRing) (point : TrendPoint) :
    Restored (addPoints tr (List.replicate trendSize point)) (List.replicate trendSize point) := by
  have hlen : (List.replicate trendSize point).length=trendSize := List.length_replicate
  refine Or.inr ⟨?_,by rw [hlen],?_⟩
  · rw [addPoints_fullFlag h,hlen,if_pos (Nat.le_add_left _ _)]
    decide
  · rw [ringFrom_addPoints_of_round h hlen.ge]

/-- Equal points go to a trend all or none. -/
theorem delivered_replicate (tr : Trend) (n : ℕ) (curLongTime : UInt32)
    (nodeAddr inpNum value : UInt8) :
    delivered tr (List.replicate n (.point curLongTime nodeAddr inpNum value))=
      if tr.devAddr=nodeAddr ∧ tr.inpNum=inpNum then List.replicate n ⟨value,curLongTime⟩
      else [] := by
  induction n with
  | zero => exact (ite_self _).symm
  | succ n ih =>
    rw [List.replicate_succ,delivered,ih]
    split <;> rfl

/-- Equal points outside the editor. -/
theorem trendRun_points (bpr : ℕ → UInt32) (ops : List TrendOp) (n : ℕ) (curLongTime : UInt32)
    (nodeAddr inpNum value : UInt8) {i : ℕ} (hi : i<trendMaxCnt) :
    (trendRun bpr (ops++List.replicate n
        (.edit (.point curLongTime nodeAddr inpNum value)))).store.trends i=
      addPoints ((trendRun bpr ops).store.trends i) (delivered ((trendRun bpr ops).store.trends i)
        (List.replicate n (.point curLongTime nodeAddr inpNum value))) := by
  rw [delivered_replicate]
  induction n with
  | zero => rw [List.replicate_zero,List.append_nil,List.replicate_zero,ite_self]; rfl
  | succ n ih =>
    rw [List.replicate_succ',←List.append_assoc,trendRun,List.foldl_append,List.foldl_cons,
      List.foldl_nil]
    show checkAndAddDataToTrendFromCan (trendRun bpr _).store.trends curLongTime nodeAddr inpNum
      value i=_
    rw [checkAndAddDataToTrendFromCan,ih]
    have hparams := addPoints_params ((trendRun bpr ops).store.trends i)
    by_cases hmatch : ((trendRun bpr ops).store.trends i).devAddr=nodeAddr ∧
        ((trendRun bpr ops).store.trends i).inpNum=inpNum
    · rw [if_pos hmatch,if_pos hmatch,(hparams _).1,(hparams _).2,if_pos ⟨hi,hmatch⟩,
        List.replicate_succ',addPoints_concat]
    · rw [if_neg hmatch,if_neg hmatch,(hparams _).1,(hparams _).2,if_neg fun h => hmatch h.2]

/-- A value of the input that the trends watch at first. It does not change. -/
def steadyPoint : EditEvent := .point 5 1 1 7

/-- The rings are filled with it. -/
def steadyOps : List TrendOp :=
  [.select .trendConf]++List.replicate trendSize (.edit steadyPoint)

/-- They are filled once more during an edit. -/
def steadyEvents : List EditEvent := .key key1::List.replicate trendSize steadyPoint

/-- The edit of the address then keeps the histories. -/
theorem confirm_keeps_steady :
    let before := trendRun (fun _ => 0) steadyOps
    let s := trendRun (fun _ => 0) (steadyOps++.openEdit::steadyEvents.map .edit)
    (delivered (before.store.trends 0) steadyEvents).length=trendSize ∧
    ∀ i<trendMaxCnt,SameHistory ((editTrendMenu s keyLeft).store.trends i) (s.store.trends i) := by
  have hpoints (i : ℕ) : delivered ((trendRun (fun _ => 0) steadyOps).store.trends i) steadyEvents=
      if ((trendRun (fun _ => 0) steadyOps).store.trends i).devAddr=1 ∧
          ((trendRun (fun _ => 0) steadyOps).store.trends i).inpNum=1 then
        List.replicate trendSize ⟨7,5⟩
      else [] := delivered_replicate _ trendSize 5 1 1 7
  have hring (i : ℕ) (hi : i<trendMaxCnt) : (trendRun (fun _ => 0) steadyOps).store.trends i=
      addPoints ((trendRun (fun _ => 0) [.select .trendConf]).store.trends i) (delivered
        ((trendRun (fun _ => 0) [.select .trendConf]).store.trends i)
        (List.replicate trendSize steadyPoint)) :=
    trendRun_points (fun _ => 0) [.select .trendConf] trendSize 5 1 1 7 hi
  have hparams (i : ℕ) (hi : i<trendMaxCnt) :=
    hring i hi ▸ addPoints_params ((trendRun (fun _ => 0) [.select .trendConf]).store.trends i) _
  refine ⟨?_,(confirm_keeps_iff (fun _ => 0) steadyOps steadyEvents keyLeft rfl
    ⟨by decide,by decide,Or.inl rfl⟩).mpr fun i hi => ?_⟩
  · rw [hpoints,(hparams 0 (by decide)).1,(hparams 0 (by decide)).2,if_pos (by decide)]
    rfl
  · rw [hpoints,(hparams i hi).1,(hparams i hi).2]
    split
    next hmatch =>
      rw [hring i hi,steadyPoint,delivered_replicate,if_pos hmatch]
      exact restored_round ((trendRun_inRings _ _).stored i) ⟨7,5⟩
    next => exact Or.inl rfl

end BT816Display.TrendHistory
