import BT816Display.Lib.BigEndian
import BT816Display.Lib.ByteMemory
import BT816Display.Lib.RingLog

/-!
# Trend points of trend_data.c

Each of the three trends keeps a ring of 64 points of one analogue input. The
parameters of the trends are saved in the battery-backed registers.
-/

namespace BT816Display.TrendData

open ByteMemory BigEndian RingWindow RingLog

/-- Points of a trend. -/
abbrev trendSize : ℕ := 64

/-- Number of trends. -/
abbrev trendMaxCnt : ℕ := 3

/-- One point. -/
structure TrendPoint where
  /-- Measured value. -/
  data : UInt8
  /-- Time of the measurement. -/
  time : UInt32

/-- One trend. -/
structure Trend where
  /-- Ring of points. -/
  point : Mem TrendPoint
  /-- Oldest point. -/
  firstPoint : ℕ
  /-- Next point to be written. -/
  curPoint : ℕ
  /-- Low warning limit. -/
  minWarn : UInt8
  /-- Low alarm limit. -/
  minAlarm : UInt8
  /-- High warning limit. -/
  maxWarn : UInt8
  /-- High alarm limit. -/
  maxAlarm : UInt8
  /-- Number of the input. -/
  inpNum : UInt8
  /-- Address of the node. -/
  devAddr : UInt8
  /-- Set once the ring has wrapped. -/
  fullFlag : UInt8

/-- Time of a point that was never written. -/
abbrev noTime : UInt32 := 0xFFFFFFFF

/-- A point that was never written. -/
def blankPoint : TrendPoint := ⟨0,noTime⟩

/-- get_new_trend. -/
def getNewTrend : Trend where
  point := fun _ => blankPoint
  firstPoint := 0
  curPoint := 0
  minWarn := 0
  minAlarm := 0
  maxWarn := 255
  maxAlarm := 255
  inpNum := 1
  devAddr := 0
  fullFlag := 0

/-- add_data_to_trend. -/
def addDataToTrend (tr : Trend) (point : TrendPoint) : Trend :=
  let tr := {tr with point := store tr.point tr.curPoint [point],curPoint := tr.curPoint+1}
  let tr := if tr.curPoint≥trendSize then {tr with curPoint := 0,fullFlag := 1} else tr
  if tr.fullFlag≠0 then
    let tr := {tr with firstPoint := tr.firstPoint+1}
    if tr.firstPoint≥trendSize then {tr with firstPoint := 0} else tr
  else tr

/-- check_and_add_data_to_trend_from_can. -/
def checkAndAddDataToTrendFromCan (trends : ℕ → Trend) (curLongTime : UInt32)
    (nodeAddr inpNum value : UInt8) : ℕ → Trend := fun i =>
  if i<trendMaxCnt ∧ (trends i).devAddr=nodeAddr ∧ (trends i).inpNum=inpNum then
    addDataToTrend (trends i) ⟨value,curLongTime⟩
  else trends i

/-! ## The stored trends -/

/-- PC21_INP_CNT, the number of analogue inputs of a node. -/
abbrev pc21InpCnt : UInt8 := 14

/-- The trends, their number and the registers that keep their parameters. -/
structure TrendStore where
  /-- trends. -/
  trends : ℕ → Trend
  /-- tr_cnt. -/
  trCnt : UInt8
  /-- The battery-backed registers ERTC_DT1 and following. -/
  bpr : ℕ → UInt32

/-- Writes of the battery-backed registers in order. -/
def bprDataWrites (bpr : ℕ → UInt32) (writes : List (ℕ×UInt32)) : ℕ → UInt32 :=
  writes.foldl (fun bpr w => Function.update bpr w.1 w.2) bpr

/-- The registers of one trend from ERTC_DT`dt` on. -/
def paramWrites (dt : ℕ) (tr : Trend) : List (ℕ×UInt32) :=
  [(dt,(join16 tr.devAddr tr.inpNum).toUInt32),
    (dt+1,(join16 tr.minWarn tr.minAlarm).toUInt32),
    (dt+2,(join16 tr.maxWarn tr.maxAlarm).toUInt32)]

/-- save_trends. -/
def saveTrends (s : TrendStore) : TrendStore :=
  {s with bpr := bprDataWrites s.bpr ((7,s.trCnt.toUInt32)::(paramWrites 8 (s.trends 0)++
    paramWrites 11 (s.trends 1)++paramWrites 14 (s.trends 2)))}

/-- The parameters of a trend from the registers from ERTC_DT`dt` on. -/
def loadParams (bpr : ℕ → UInt32) (dt : ℕ) (tr : Trend) : Trend :=
  {tr with
    devAddr := ((bpr dt).toUInt16>>>8).toUInt8
    inpNum := (bpr dt).toUInt8
    minWarn := ((bpr (dt+1)).toUInt16>>>8).toUInt8
    minAlarm := (bpr (dt+1)).toUInt8
    maxWarn := ((bpr (dt+2)).toUInt16>>>8).toUInt8
    maxAlarm := (bpr (dt+2)).toUInt8}

/-- The check of a loaded input number. It corrects the number of the first
trend, whichever trend the checked one is of. -/
def checkInpNum (inpNum : UInt8) (first : Trend) : Trend :=
  let first := if inpNum=0 then {first with inpNum := 1} else first
  if inpNum>pc21InpCnt then {first with inpNum := pc21InpCnt} else first

/-- The registers of three trends as they are initialised. -/
def defaultWrites : List (ℕ×UInt32) :=
  [(6,0x1234),(7,0),(8,0x0101),(9,0),(10,0xFFFF),(11,0x0101),(12,0),(13,0xFFFF),(14,0x0101),
    (15,0),(16,0xFFFF)]

/-- init_trends. -/
def initTrends (bpr : ℕ → UInt32) : TrendStore :=
  let bpr := if bpr 6≠0x1234 then bprDataWrites bpr defaultWrites else bpr
  let trCnt := (bpr 7).toUInt8
  let tr0 := loadParams bpr 8 getNewTrend
  let tr1 := loadParams bpr 11 getNewTrend
  let tr2 := loadParams bpr 14 getNewTrend
  let tr0 := checkInpNum tr2.inpNum (checkInpNum tr1.inpNum (checkInpNum tr0.inpNum tr0))
  {
    trends := fun i => if i=0 then tr0 else if i=1 then tr1 else tr2
    trCnt := if trCnt.toNat>trendMaxCnt then 3 else trCnt
    bpr := bpr }

/-- add_trend, with its result. -/
def addTrend (s : TrendStore) (tr : Trend) : TrendStore×UInt8 :=
  if s.trCnt.toNat≥trendMaxCnt then (s,0)
  else ({s with trends := Function.update s.trends s.trCnt.toNat tr,trCnt := s.trCnt+1},1)

/-- delete_trend. -/
def deleteTrend (s : TrendStore) (trendNum : UInt8) : TrendStore :=
  let n := trendNum.toNat
  if trendNum≠0 ∧ trendNum ≤ s.trCnt then
    let trends := (List.range' n (trendMaxCnt-n)).foldl
      (fun trends n => Function.update trends (n-1) (trends n)) s.trends
    {s with trends := Function.update trends (trendMaxCnt-1) getNewTrend,trCnt := s.trCnt-1}
  else s

/-- get_trend_by_num. -/
def getTrendByNum (trends : ℕ → Trend) (num : UInt8) : Option Trend :=
  if num≠0 ∧ num.toNat≤trendMaxCnt then some (trends (num.toNat-1)) else none

/-! ## The ring of a trend -/

/-- Points in order. -/
def addPoints (tr : Trend) (points : List TrendPoint) : Trend := points.foldl addDataToTrend tr

/-- The indices of a trend are in its ring and full_flag is a flag. -/
structure Trend.InRing (tr : Trend) : Prop where
  /-- Next point to be written. -/
  cur : tr.curPoint<trendSize
  /-- Oldest point. -/
  first : tr.firstPoint<trendSize
  /-- full_flag. -/
  flag : tr.fullFlag=0 ∨ tr.fullFlag=1

/-- A new trend is in the ring. -/
theorem getNewTrend_inRing : getNewTrend.InRing := ⟨by decide,by decide,Or.inl rfl⟩

section Point

variable (tr : Trend) (point : TrendPoint)

/-- An added point is stored at the current position. -/
@[simp] theorem addDataToTrend_point :
    (addDataToTrend tr point).point=store tr.point tr.curPoint [point] := by
  unfold addDataToTrend
  dsimp only
  split_ifs <;> rfl

/-- Adding a point moves the current position on. -/
@[simp] theorem addDataToTrend_curPoint :
    (addDataToTrend tr point).curPoint=next trendSize tr.curPoint := by
  unfold addDataToTrend next
  dsimp only
  split_ifs <;> first | rfl | omega

/-- The full flag is set when the position has come round, and stays. -/
theorem addDataToTrend_fullFlag :
    (addDataToTrend tr point).fullFlag=if tr.curPoint+1≥trendSize then 1 else tr.fullFlag := by
  unfold addDataToTrend
  dsimp only
  split_ifs <;> rfl

/-- The first position moves on once the ring is full. -/
theorem addDataToTrend_firstPoint :
    (addDataToTrend tr point).firstPoint=
      if (addDataToTrend tr point).fullFlag≠0 then next trendSize tr.firstPoint
      else tr.firstPoint := by
  rw [addDataToTrend_fullFlag]
  unfold addDataToTrend next
  dsimp only
  split_ifs <;> first | rfl | (dsimp only at *; omega)

/-- A point leaves the parameters of its trend alone. -/
theorem addDataToTrend_params :
    (addDataToTrend tr point).devAddr=tr.devAddr ∧
      (addDataToTrend tr point).inpNum=tr.inpNum := by
  unfold addDataToTrend
  dsimp only
  split_ifs <;> exact ⟨rfl,rfl⟩

end Point

/-- Adding a point keeps the positions in the ring. -/
theorem Trend.InRing.add {tr : Trend} (h : tr.InRing) (point : TrendPoint) :
    (addDataToTrend tr point).InRing where
  cur := by
    rw [addDataToTrend_curPoint]
    exact next_lt h.cur
  first := by
    rw [addDataToTrend_firstPoint]
    split
    · exact next_lt h.first
    · exact h.first
  flag := by
    rw [addDataToTrend_fullFlag]
    split
    · exact Or.inr rfl
    · exact h.flag

/-- A point drops the oldest slot of the ring and is its newest. -/
theorem ringFrom_addDataToTrend {tr : Trend} (h : tr.curPoint<trendSize) (point : TrendPoint) :
    ringFrom trendSize (addDataToTrend tr point).point (addDataToTrend tr point).curPoint=
      (ringFrom trendSize tr.point tr.curPoint).tail++[point] := by
  rw [addDataToTrend_point,addDataToTrend_curPoint]
  refine ringFrom_write h ?_ fun i _ hi => ?_
  · rw [store_apply_of_lt le_rfl (by rw [Nat.sub_self]; exact Nat.zero_lt_one)]
    simp only [Nat.sub_self,List.getElem_cons_zero]
  · exact store_apply_of_not (by rw [List.length_singleton]; omega)

/-- Adding points adds the first and then the rest. -/
theorem addPoints_cons (tr : Trend) (point : TrendPoint) (points : List TrendPoint) :
    addPoints tr (point::points)=addPoints (addDataToTrend tr point) points := rfl

/-- Adding points adds the last one last. -/
theorem addPoints_concat (tr : Trend) (points : List TrendPoint) (point : TrendPoint) :
    addPoints tr (points++[point])=addDataToTrend (addPoints tr points) point := by
  simp only [addPoints,List.foldl_append,List.foldl_cons,List.foldl_nil]

/-- Adding points keeps the positions in the ring. -/
theorem Trend.InRing.addPoints {tr : Trend} (h : tr.InRing) (points : List TrendPoint) :
    (addPoints tr points).InRing := by
  induction points generalizing tr with
  | nil => exact h
  | cons point points ih => exact ih (h.add point)

/-- The ring read from the slot to be written next lists the last points. -/
theorem ringFrom_addPoints {tr : Trend} (h : tr.InRing) (points : List TrendPoint) :
    ringFrom trendSize (TrendData.addPoints tr points).point
        (TrendData.addPoints tr points).curPoint=
      (ringFrom trendSize tr.point tr.curPoint++points).drop points.length := by
  induction points generalizing tr with
  | nil => rw [List.append_nil]; rfl
  | cons point points ih =>
    have hne : ringFrom trendSize tr.point tr.curPoint≠[] := by
      intro hnil
      have hl := congrArg List.length hnil
      rw [ringFrom_length] at hl
      exact absurd hl (by decide)
    rw [addPoints_cons,ih (h.add point),ringFrom_addDataToTrend h.cur,List.append_assoc,
      List.singleton_append,←List.tail_append_of_ne_nil hne,List.drop_tail,List.length_cons]

/-- After n points the position has moved n on around the ring. -/
theorem addPoints_curPoint {tr : Trend} (h : tr.InRing) (points : List TrendPoint) :
    (addPoints tr points).curPoint=(tr.curPoint+points.length)%trendSize := by
  induction points generalizing tr with
  | nil => exact (Nat.mod_eq_of_lt h.cur).symm
  | cons point points ih =>
    have hc := h.cur
    rw [addPoints_cons,ih (h.add point),addDataToTrend_curPoint,List.length_cons,next]
    unfold trendSize at *
    split <;> omega

/-- full_flag is set once the ring has wrapped. -/
theorem addPoints_fullFlag {tr : Trend} (h : tr.InRing) (points : List TrendPoint) :
    (addPoints tr points).fullFlag=
      if tr.curPoint+points.length≥trendSize then 1 else tr.fullFlag := by
  induction points generalizing tr with
  | nil => exact (if_neg (Nat.not_le.mpr h.cur)).symm
  | cons point points ih =>
    have hc := h.cur
    rw [addPoints_cons,ih (h.add point),addDataToTrend_curPoint,addDataToTrend_fullFlag,
      List.length_cons,next]
    split_ifs <;> first | rfl | omega

/-- In a full ring the oldest point moves on with every point. -/
theorem addPoints_firstPoint {tr : Trend} (h : tr.InRing) (hf : tr.fullFlag≠0)
    (points : List TrendPoint) :
    (addPoints tr points).firstPoint=(tr.firstPoint+points.length)%trendSize := by
  induction points generalizing tr with
  | nil => exact (Nat.mod_eq_of_lt h.first).symm
  | cons point points ih =>
    have hc := h.first
    have hf' : (addDataToTrend tr point).fullFlag≠0 := by
      rw [addDataToTrend_fullFlag]
      split
      · decide
      · exact hf
    rw [addPoints_cons,ih (h.add point) hf',addDataToTrend_firstPoint,if_pos hf',
      List.length_cons,next]
    unfold trendSize at *
    split <;> omega

end BT816Display.TrendData
