import BT816Display.TrendData

/-!
# The trend screen reads the ring

draw_trend_menu.c walks from the oldest point of a trend over at most 63
points and stops at the first one that was never written. It sees the last 63
points added, in their order.
-/

namespace BT816Display.TrendReader

open ByteMemory RingWindow RingQueue RingLog TrendData

/-- get_trend_data_cnt. -/
def getTrendDataCnt (trends : ℕ → Trend) (num : UInt8) : ℕ :=
  match getTrendByNum trends num with
  | some ptr =>
    walkOn trendSize (fun pos => (ptr.point pos).time≠noTime) (trendSize-1) ptr.firstPoint
  | none => 0

/-- The point at which get_trend_cur_value and get_trend_end_time return, the
number of steps from `pos` on given. -/
def endPoint (ptr : Trend) : ℕ → ℕ → Option TrendPoint
  | 0,_ => none
  | steps+1,pos =>
    if steps=0 then some (ptr.point pos) else endPoint ptr steps (next trendSize pos)

/-- get_trend_cur_value. -/
def getTrendCurValue (trends : ℕ → Trend) (num : UInt8) : UInt8 :=
  match getTrendByNum trends num with
  | some ptr =>
    ((endPoint ptr (getTrendDataCnt trends num) ptr.firstPoint).map TrendPoint.data).getD 0
  | none => 0

/-- The points that a loop of `cnt` steps visits. -/
def visited (ptr : Trend) (cnt : ℕ) : List TrendPoint :=
  (positions trendSize cnt ptr.firstPoint).map ptr.point

/-- The least value of points. -/
def leastData (points : List TrendPoint) : UInt8 :=
  points.foldl (fun value p => if p.data<value then p.data else value) 255

/-- The greatest value of points, with five above it when there is room. -/
def greatestData (points : List TrendPoint) : UInt8 :=
  let value := points.foldl (fun value p => if p.data>value then p.data else value) 0
  if value≤250 then value+5 else value

/-- get_trend_min. -/
def getTrendMin (trends : ℕ → Trend) (num : UInt8) : UInt8 :=
  match getTrendByNum trends num with
  | some ptr => leastData (visited ptr (getTrendDataCnt trends num))
  | none => 0

/-- get_trend_max. -/
def getTrendMax (trends : ℕ → Trend) (num : UInt8) : UInt8 :=
  match getTrendByNum trends num with
  | some ptr => greatestData (visited ptr (getTrendDataCnt trends num))
  | none => 0

/-- get_trend_begin_time. -/
def getTrendBeginTime (trends : ℕ → Trend) (num : UInt8) : UInt32 :=
  match getTrendByNum trends num with
  | some ptr => (ptr.point ptr.firstPoint).time
  | none => 0

/-- get_trend_end_time. -/
def getTrendEndTime (trends : ℕ → Trend) (num : UInt8) : UInt32 :=
  match getTrendByNum trends num with
  | some ptr =>
    ((endPoint ptr (getTrendDataCnt trends num) ptr.firstPoint).map TrendPoint.time).getD 0
  | none => 0

/-- The copy of the visited points into point_buf. -/
def copyPoints (ptr : Trend) (cnt : ℕ) (pointBuf : Mem TrendPoint) : Mem TrendPoint :=
  (positions trendSize cnt ptr.firstPoint).zipIdx.foldl
    (fun buf step => store buf step.2 [ptr.point step.1]) pointBuf

/-- The colour of the newest value. -/
inductive Colour where
  /-- Beyond an alarm limit. -/
  | red
  /-- Beyond a warning limit. -/
  | yellow
  /-- Within the limits. -/
  | green
  deriving DecidableEq

/-- The colour for a value. -/
def colourOf (ptr : Trend) (curVal : UInt8) : Colour :=
  if curVal>ptr.maxAlarm ∨ curVal<ptr.minAlarm then .red
  else if curVal>ptr.maxWarn ∨ curVal<ptr.minWarn then .yellow
  else .green

/-- What draw_trend shows. -/
structure Drawing where
  /-- Time at the left end. -/
  minTime : UInt32
  /-- Time at the right end. -/
  maxTime : UInt32
  /-- min_val, the value at the bottom. -/
  minVal : UInt8
  /-- max_val, the value at the top. -/
  maxVal : UInt8
  /-- Colour of the newest value, with a trend to show. -/
  colour : Option Colour
  /-- Number of points of the line. -/
  cnt : ℕ
  /-- point_buf. -/
  pointBuf : Mem TrendPoint

/-- draw_trend, up to the scaling of the line. -/
def drawTrend (trends : ℕ → Trend) (num : UInt8) (pointBuf : Mem TrendPoint) : Drawing :=
  let minTime := getTrendBeginTime trends num
  let maxTime := getTrendEndTime trends num
  let minVal := if getTrendMin trends num=255 then 254 else getTrendMin trends num
  let maxVal := getTrendMax trends num
  let cnt := min (getTrendDataCnt trends num) trendSize
  let ptr := getTrendByNum trends num
  {
    minTime := minTime
    maxTime := if maxTime ≤ minTime then minTime+1 else maxTime
    minVal := minVal
    maxVal := if maxVal ≤ minVal then minVal+1 else maxVal
    colour := ptr.map fun ptr => colourOf ptr (getTrendCurValue trends num)
    cnt := if ptr.isSome then cnt else 0
    pointBuf := (ptr.map fun ptr => copyPoints ptr cnt pointBuf).getD pointBuf }

/-! ## Loops over a walk -/

/-- The end point is the last of the positions walked. -/
theorem endPoint_eq (ptr : Trend) (steps pos : ℕ) :
    endPoint ptr steps pos=((positions trendSize steps pos).map ptr.point).getLast? := by
  induction steps generalizing pos with
  | zero => rfl
  | succ steps ih =>
    rw [endPoint,positions,List.map_cons,List.getLast?_cons]
    by_cases hs : steps=0
    · rw [if_pos hs,hs]
      rfl
    · rw [if_neg hs,ih]
      cases steps with
      | zero => exact absurd rfl hs
      | succ steps =>
        rw [positions,List.map_cons,List.getLast?_cons]
        rfl

/-- Storing the cells of a list one after another stores the list. -/
theorem foldl_store_zipIdx {α β : Type*} (f : α → β) (items : List α) (a : ℕ) (buf : Mem β) :
    (items.zipIdx a).foldl (fun buf step => store buf step.2 [f step.1]) buf=
      store buf a (items.map f) := by
  induction items generalizing a buf with
  | nil =>
    funext x
    exact (store_apply_of_not (by rw [List.map_nil,List.length_nil]; omega)).symm
  | cons item items ih =>
    rw [List.zipIdx_cons,List.foldl_cons,ih,List.map_cons]
    exact store_store_append buf a [f item] (items.map f)

/-- The copy stores the visited points one by one. -/
theorem copyPoints_eq (ptr : Trend) (cnt : ℕ) (pointBuf : Mem TrendPoint) :
    copyPoints ptr cnt pointBuf=store pointBuf 0 (visited ptr cnt) :=
  foldl_store_zipIdx ptr.point _ 0 pointBuf

/-! ## What the ring of a new trend holds -/

/-- The points in view, the last 63. -/
def visible (points : List TrendPoint) : List TrendPoint :=
  points.drop (points.length-(trendSize-1))

/-- At most one point less than the ring holds is visible. -/
theorem visible_length (points : List TrendPoint) :
    (visible points).length=min points.length (trendSize-1) := by
  rw [visible,List.length_drop]
  omega

/-- The oldest point is at slot 0 until the ring wraps, and then next to the
slot to be written next. -/
theorem firstPoint_new (points : List TrendPoint) :
    (addPoints getNewTrend points).firstPoint=
      if points.length<trendSize then 0
      else next trendSize (addPoints getNewTrend points).curPoint := by
  induction points using List.reverseRecOn with
  | nil => rfl
  | append_singleton points point ih =>
    have hf := addPoints_fullFlag getNewTrend_inRing (points++[point])
    have hc := addPoints_curPoint getNewTrend_inRing points
    rw [addPoints_concat] at hf ⊢
    rw [addDataToTrend_firstPoint,hf,ih,addDataToTrend_curPoint,hc]
    simp only [List.length_append,List.length_singleton,getNewTrend,Nat.zero_add,next]
    unfold trendSize
    split_ifs <;> first | rfl | omega | contradiction

/-- How far the oldest point is ahead of the slot to be written next. -/
theorem firstPoint_ahead (points : List TrendPoint) :
    (addPoints getNewTrend points).firstPoint=
      ahead trendSize (addPoints getNewTrend points).curPoint
        (if points.length<trendSize then trendSize-points.length else 1) := by
  rw [firstPoint_new,addPoints_curPoint getNewTrend_inRing]
  simp only [getNewTrend,Nat.zero_add,next,ahead]
  unfold trendSize
  split_ifs <;> omega

/-- A new ring holds blank points only. -/
theorem ringFrom_blank (j : ℕ) :
    ringFrom trendSize getNewTrend.point j=List.replicate trendSize blankPoint := by
  rw [ringFrom,show getNewTrend.point=fun _ => blankPoint from rfl,List.map_const',
    List.length_range]

/-- The ring read from its oldest point shows the points in view and then
blank ones. -/
theorem ringFrom_first (points : List TrendPoint) :
    (ringFrom trendSize (addPoints getNewTrend points).point
        (addPoints getNewTrend points).firstPoint).take (trendSize-1)=
      visible points++List.replicate (trendSize-1-(visible points).length) blankPoint := by
  have hcur := (getNewTrend_inRing.addPoints points).cur
  have hring := ringFrom_addPoints getNewTrend_inRing points
  rw [ringFrom_blank] at hring
  rw [firstPoint_ahead]
  by_cases hn : points.length<trendSize
  · have hv : visible points=points := by
      rw [visible,Nat.sub_eq_zero_of_le (by omega),List.drop_zero]
    have hblank : (List.replicate trendSize blankPoint++points).drop points.length=
        List.replicate (trendSize-points.length) blankPoint++points := by
      rw [List.drop_append_of_le_length (by rw [List.length_replicate]; omega),
        List.drop_replicate]
    have hrot := List.rotate_append_length_eq
      (List.replicate (trendSize-points.length) blankPoint) points
    rw [List.length_replicate] at hrot
    rw [if_pos hn,ringFrom_ahead hcur (by omega),hring,hblank,hrot,hv,
      List.take_append,List.take_of_length_le (by omega),List.take_replicate,
      Nat.min_eq_left (by omega)]
  · have hlast : (List.replicate trendSize blankPoint++points).drop points.length=
        points.drop (points.length-trendSize) := by
      rw [List.drop_append,List.drop_of_length_le (by rw [List.length_replicate]; omega),
        List.nil_append,List.length_replicate]
    have hlen := visible_length points
    have hlt : points.length-trendSize<points.length := by omega
    obtain ⟨oldest,hold⟩ : ∃ oldest,points.drop (points.length-trendSize)=
        oldest::visible points := by
      refine ⟨points[points.length-trendSize],?_⟩
      rw [List.drop_eq_getElem_cons hlt,visible]
      congr 2
      omega
    rw [if_neg hn,ringFrom_ahead hcur (by decide),hring,hlast,hold,List.rotate_cons_succ,
      List.rotate_zero,List.take_append_of_le_length (by omega),List.take_of_length_le (by omega),
      Nat.sub_eq_zero_of_le (by omega),List.replicate_zero,List.append_nil]

/-! ## The readers -/

section Readers

variable {trends : ℕ → Trend} {num : UInt8} {points : List TrendPoint}

/-- The trend with a number is a new one with points added since. -/
structure Filled (trends : ℕ → Trend) (num : UInt8) (points : List TrendPoint) : Prop where
  /-- It is one of the trends. -/
  found : getTrendByNum trends num=some (addPoints getNewTrend points)
  /-- No point has the time of a point that was never written. -/
  timed : ∀ p∈points,p.time≠noTime

/-- The longest walk sees the points in view and then blank ones. -/
theorem visited_full (points : List TrendPoint) :
    visited (addPoints getNewTrend points) (trendSize-1)=
      visible points++List.replicate (trendSize-1-(visible points).length) blankPoint := by
  have hfirst := (getNewTrend_inRing.addPoints points).first
  rw [visited,map_positions hfirst (by decide),ringFrom_first]

/-- A walk over the points in view visits these. -/
theorem visited_new (points : List TrendPoint) :
    visited (addPoints getNewTrend points) (visible points).length=visible points := by
  have hlen := visible_length points
  have hfirst := (getNewTrend_inRing.addPoints points).first
  rw [visited,map_positions hfirst (by omega)]
  have htake := congrArg (List.take (visible points).length) (ringFrom_first points)
  rwa [List.take_take,Nat.min_eq_left (by omega),List.take_left] at htake

/-- The sentinel stops the walk behind the points in view. -/
theorem getTrendDataCnt_eq (h : Filled trends num points) :
    getTrendDataCnt trends num=(visible points).length := by
  have hwalk := congrArg (List.takeWhile fun p => decide (p.time≠noTime)) (visited_full points)
  have hall : ∀ p∈visible points,decide (p.time≠noTime)=true := fun p hp =>
    decide_eq_true (h.timed p (List.mem_of_mem_drop hp))
  have hblank : (List.replicate (trendSize-1-(visible points).length) blankPoint).takeWhile
      (fun p => decide (p.time≠noTime))=[] := by
    rw [List.takeWhile_replicate,if_neg (by decide)]
  rw [List.takeWhile_append_of_pos hall,hblank,List.append_nil,visited,
    List.takeWhile_map] at hwalk
  have hcnt := congrArg List.length hwalk
  rw [List.length_map] at hcnt
  rw [getTrendDataCnt,h.found]
  exact (walkOn_eq _ _ _).trans hcnt

/-- What the reader visits is what is visible of the added points. -/
theorem visited_eq (h : Filled trends num points) :
    visited (addPoints getNewTrend points) (getTrendDataCnt trends num)=visible points := by
  rw [getTrendDataCnt_eq h,visited_new]

/-- The last point in view is the last one added. -/
theorem endPoint_new (h : Filled trends num points) :
    endPoint (addPoints getNewTrend points) (getTrendDataCnt trends num)
      (addPoints getNewTrend points).firstPoint=points.getLast? := by
  rw [endPoint_eq]
  refine (congrArg List.getLast? (visited_eq h)).trans ?_
  rw [visible,List.getLast?_drop]
  unfold trendSize
  split
  · have hnil : points=[] := List.eq_nil_of_length_eq_zero (by omega)
    rw [hnil]
    rfl
  · rfl

/-- The current value is the last one added. -/
theorem getTrendCurValue_eq (h : Filled trends num points) :
    getTrendCurValue trends num=(points.getLast?.map TrendPoint.data).getD 0 := by
  rw [getTrendCurValue,h.found,←endPoint_new h]

/-- The end time is the time of the last one added. -/
theorem getTrendEndTime_eq (h : Filled trends num points) :
    getTrendEndTime trends num=(points.getLast?.map TrendPoint.time).getD 0 := by
  rw [getTrendEndTime,h.found,←endPoint_new h]

/-- The time at the left end is that of the oldest point in view. -/
theorem getTrendBeginTime_eq (h : Filled trends num points) :
    getTrendBeginTime trends num=((visible points).head?.map TrendPoint.time).getD noTime := by
  have hhead : some ((addPoints getNewTrend points).point
      (addPoints getNewTrend points).firstPoint)=_ := congrArg List.head? (visited_full points)
  rw [getTrendBeginTime,h.found]
  cases hv : visible points with
  | nil =>
    rw [hv] at hhead
    exact congrArg TrendPoint.time (Option.some.inj hhead)
  | cons oldest rest =>
    rw [hv] at hhead
    exact congrArg TrendPoint.time (Option.some.inj hhead)

/-- The least value shown is the least of the visible points. -/
theorem getTrendMin_eq (h : Filled trends num points) :
    getTrendMin trends num=leastData (visible points) := by
  rw [getTrendMin,h.found]
  exact congrArg leastData (visited_eq h)

/-- The greatest value shown is the greatest of the visible points. -/
theorem getTrendMax_eq (h : Filled trends num points) :
    getTrendMax trends num=greatestData (visible points) := by
  rw [getTrendMax,h.found]
  exact congrArg greatestData (visited_eq h)

/-- The line has the points in view, in their order. -/
theorem drawTrend_points (h : Filled trends num points) (pointBuf : Mem TrendPoint) :
    load (drawTrend trends num pointBuf).pointBuf 0 (drawTrend trends num pointBuf).cnt=
      visible points := by
  have hcnt := getTrendDataCnt_eq h
  have hlen := visible_length points
  simp only [drawTrend,h.found,Option.isSome_some,if_true,Option.map_some,Option.getD_some,
    copyPoints_eq]
  rw [Nat.min_eq_left (by omega),visited_eq h,hcnt]
  exact load_store_self pointBuf 0 (visible points)

/-- The indices of the writer and of every walk stay in the ring, at every
point of the history. -/
theorem indices_inRing (points : List TrendPoint) :
    (∀ k≤points.length,(addPoints getNewTrend (points.take k)).InRing) ∧
      ∀ pos∈positions trendSize (trendSize-1) (addPoints getNewTrend points).firstPoint,
        pos<trendSize :=
  ⟨fun k _ => getNewTrend_inRing.addPoints (points.take k),
    positions_lt (getNewTrend_inRing.addPoints points).first (trendSize-1)⟩

/-- The trend screen is a view of the last 63 points: it copies exactly these
in their order, and its newest and oldest point, its extremes and its times are
theirs. No index leaves the ring. -/
theorem reader_refines_history (h : Filled trends num points) (pointBuf : Mem TrendPoint) :
    getTrendDataCnt trends num=min points.length 63 ∧
      (drawTrend trends num pointBuf).cnt=min points.length 63 ∧
      load (drawTrend trends num pointBuf).pointBuf 0 (min points.length 63)=
        points.drop (points.length-63) ∧
      getTrendCurValue trends num=(points.getLast?.map TrendPoint.data).getD 0 ∧
      getTrendEndTime trends num=(points.getLast?.map TrendPoint.time).getD 0 ∧
      getTrendBeginTime trends num=
        ((points.drop (points.length-63)).head?.map TrendPoint.time).getD noTime ∧
      getTrendMin trends num=leastData (points.drop (points.length-63)) ∧
      getTrendMax trends num=greatestData (points.drop (points.length-63)) ∧
      (∀ k≤points.length,(addPoints getNewTrend (points.take k)).InRing) ∧
      ∀ pos∈positions trendSize 63 (addPoints getNewTrend points).firstPoint,pos<trendSize := by
  have hcnt := (getTrendDataCnt_eq h).trans (visible_length points)
  have hdraw := drawTrend_points h pointBuf
  have hdrawn : (drawTrend trends num pointBuf).cnt=min points.length 63 := by
    have hl := congrArg List.length hdraw
    rwa [load_length,visible_length] at hl
  rw [hdrawn] at hdraw
  exact ⟨hcnt,hdrawn,hdraw,getTrendCurValue_eq h,getTrendEndTime_eq h,getTrendBeginTime_eq h,
    getTrendMin_eq h,getTrendMax_eq h,indices_inRing points⟩

end Readers

/-- Two points of the second trend are the line and its ends. -/
theorem reader_refines_two :
    let trends := fun _ => addPoints getNewTrend [⟨7,5⟩,⟨9,6⟩]
    getTrendDataCnt trends 2=2 ∧ getTrendCurValue trends 2=9 ∧ getTrendEndTime trends 2=6 ∧
      getTrendBeginTime trends 2=5 := by
  have h := reader_refines_history (⟨rfl,by decide⟩ :
    Filled (fun _ => addPoints getNewTrend [⟨7,5⟩,⟨9,6⟩]) 2 [⟨7,5⟩,⟨9,6⟩]) fun _ => blankPoint
  exact ⟨h.1,h.2.2.2.1,h.2.2.2.2.1,h.2.2.2.2.2.1⟩

end BT816Display.TrendReader
