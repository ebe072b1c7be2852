import BT816Display.Config
import BT816Display.DisplayWords
import BT816Display.FixedPoint
import BT816Display.PlcData

/-!
# The mnemonic screen of mnemo.c

draw_mnemo walks the table of elements in mnemo_buf and draws each one. The
routines read the memory from mnemo_buf on, whose first 4096 bytes are the
buffer; nothing compares a count or an offset of the table with this length.
-/

namespace BT816Display.Mnemo

open ByteMemory BigEndian PlcData FixedPoint
open Traced (read issue Reads loop)
open DisplayWords (bt816Vertex2f vertex2f pointSize colorRgb)

/-- Bytes of mnemo_buf. -/
abbrev mnemoBufSize : ℕ := 4096

/-- MNEMO_HEADER_LENGTH. -/
abbrev mnemoHeaderLength : ℕ := 10

/-- MNEMO_ONE_ELEM_LINK_WIDTH. -/
abbrev mnemoOneElemLinkWidth : ℕ := 2

/-- XPOS_MAX. -/
abbrev xposMax : UInt16 := 800

/-- YPOS_MAX. -/
abbrev yposMax : UInt16 := 480

/-- DL_BEGIN. -/
abbrev dlBegin : UInt32 := 0x1F000000

/-- DL_END. -/
abbrev dlEnd : UInt32 := 0x21000000

/-- DL_COLOR_RGB. -/
abbrev dlColorRgb : UInt32 := 0x04000000

/-- RAM_TOP_POINT. -/
abbrev ramTopPoint : UInt32 := 0xF5800

/-- MEM_FONT40, above the glyphs of the four fonts. -/
abbrev memFont40 : UInt32 := ramTopPoint-(22+22+55+66+4)*1024

/-- MEM_LAMP1. -/
abbrev memLamp1 : UInt32 := memFont40-5*1024

/-- MAX_CALC_CNT. -/
abbrev maxCalcCnt : UInt16 := 256

/-- REG_CMD_DL. -/
abbrev regCmdDl : UInt32 := 0x00302100

/-- REG_CMDB_SPACE. -/
abbrev regCmdbSpace : UInt32 := 0x00302574

/-- The variables that the routines draw from. -/
structure Sources where
  /-- The cluster structure. -/
  cl : ArrayAccess.Arrays Val
  /-- calc[].result. -/
  calcResult : ℕ → Int32
  /-- The product of calc[].fl_res and the power of ten of a precision, as an int32. -/
  calcFlRes : ℕ → Precision → Int32
  /-- plc_can_link. -/
  plcCanLink : UInt8

section

variable (src : Sources) (mem : Mem UInt8)

/-- ptr[i]. -/
def byteAt (ptr i : ℕ) : Draw UInt8 := read (ptr+i) (mem (ptr+i))

/-- ptr[i] and ptr[i+1] as a 16-bit number. -/
def halfAt (ptr i : ℕ) : Draw UInt16 := do
  let high ← byteAt mem ptr i
  let low ← byteAt mem ptr (i+1)
  return join16 high low

/-- Three bytes as a colour. -/
def colorAt (ptr i : ℕ) : Draw UInt32 := do
  let red ← byteAt mem ptr i
  let green ← byteAt mem ptr (i+1)
  let blue ← byteAt mem ptr (i+2)
  return (red.toUInt32<<<16)|||(green.toUInt32<<<8)|||blue.toUInt32

/-- The switch over the link type of a lamp, a rectangle and a circle. -/
def bitValue (linkType linkIndex : UInt16) : UInt8 :=
  if linkType=0 then
    if linkIndex.toNat<diCnt then src.cl .clDinState linkIndex.toNat else 0
  else if linkType=1 then
    if linkIndex.toNat<doCnt then src.cl .clDoutState linkIndex.toNat else 0
  else if linkType=2 then
    if linkIndex.toNat<clustBitsCnt then src.cl .clClusterBits linkIndex.toNat else 0
  else if linkType=3 then
    if linkIndex.toNat<netBitsCnt then src.cl .clNetBits linkIndex.toNat else 0
  else 0

/-- The switch over the link type of a text variable. -/
def textVarValue (precision : Precision) (linkType linkIndex : UInt16) : Int32 :=
  if linkType=2 then
    if linkIndex.toNat<clusterRegsCnt then
      (src.cl .clClusterRegs linkIndex.toNat).toUInt32.toInt32
    else 0
  else if linkType=3 then
    if linkIndex.toNat<netRegsCnt then (src.cl .clNetRegs linkIndex.toNat).toUInt32.toInt32
    else 0
  else if linkType=0 then
    if linkIndex.toNat<aiCnt then (src.cl .clAinRaw linkIndex.toNat).toUInt32.toInt32 else 0
  else if linkType=1 then
    if linkIndex < maxCalcCnt then
      if precision=.pr0 then src.calcResult linkIndex.toNat
      else src.calcFlRes linkIndex.toNat precision
    else 0
  else 0

/-- mnemo_draw_lamp_image. -/
def mnemoDrawLampImage (x y : UInt16) (col : UInt8) : Draw Unit := do
  issue (.dl (dlColorRgb|||0xFFFFFF))
  if col<5 then
    issue (.setbitmap (memLamp1-col.toUInt32*(5*1024)) 6 50 50)
  issue (.dl (dlBegin|||1))
  issue (.dl (bt816Vertex2f (x*16) (y*16)))
  issue (.dl dlEnd)

/-- mnemo_draw_lamp. -/
def mnemoDrawLamp (ptr : ℕ) : Draw Unit := do
  let id ← halfAt mem ptr 0
  if id=1 then
    let _ ← byteAt mem ptr 2
    let xPos ← halfAt mem ptr 3
    let yPos ← halfAt mem ptr 5
    let onColor ← byteAt mem ptr 7
    let offColor ← byteAt mem ptr 8
    let linkType ← halfAt mem ptr 9
    let linkIndex ← halfAt mem ptr 11
    if xPos<xposMax ∧ yPos<yposMax then
      if bitValue src linkType linkIndex≠0 then mnemoDrawLampImage xPos yPos onColor
      else mnemoDrawLampImage xPos yPos offColor

/-- mnemo_draw_background_image; it does not look at the identifier. -/
def mnemoDrawBackgroundImage (ptr : ℕ) : Draw Unit := do
  let b3 ← byteAt mem ptr 3
  let b4 ← byteAt mem ptr 4
  let b5 ← byteAt mem ptr 5
  let b6 ← byteAt mem ptr 6
  let addr := join32 b3 b4 b5 b6+(4096+4096)
  issue (.setbitmap (0x800000|||(addr/32)) 37819 800 480)
  issue (.dl (dlBegin|||1))
  issue (.dl (vertex2f 0 0))
  issue (.dl dlEnd)

/-- mnemo_load_cyr_fonts. -/
def mnemoLoadCyrFonts (ptr : ℕ) : Draw Unit := do
  let id ← halfAt mem ptr 0
  if id=3 then
    let _ ← byteAt mem ptr 2
    issue (.setfont2 1 (memFont40+3*1024) 0)
    issue (.setfont2 2 (memFont40+2*1024) 0)
    issue (.setfont2 3 (memFont40+1024) 0)
    issue (.setfont2 4 memFont40 0)

/-- The loop of private_string_write with `left` rounds to textindex 249; it
reads a byte to test it and once more to send it. -/
def stringLoop (str : ℕ) : (left textindex : ℕ) → Draw (List UInt8)
  | 0,_ => return []
  | left+1,textindex => do
    let tested ← byteAt mem str textindex
    if tested≠0 then
      let sent ← byteAt mem str textindex
      let rest ← stringLoop str left (textindex+1)
      return sent::rest
    else return []

/-- mnemo_draw_text. -/
def mnemoDrawText (ptr : ℕ) : Draw Unit := do
  let id ← halfAt mem ptr 0
  if id=4 then
    let _ ← byteAt mem ptr 2
    let color ← colorAt mem ptr 3
    let xPos ← halfAt mem ptr 6
    let yPos ← halfAt mem ptr 8
    let font ← byteAt mem ptr 10
    if xPos<xposMax ∧ yPos<yposMax then
      issue (.dl (dlColorRgb|||(dlColorRgb|||color)))
      let text ← stringLoop mem (ptr+11) 249 0
      issue (.text xPos.toInt16 yPos.toInt16 font.toUInt16.toInt16 0 text)

/-- mnemo_draw_text_var. -/
def mnemoDrawTextVar (ptr : ℕ) : Draw Unit := do
  let id ← halfAt mem ptr 0
  if id=7 then
    let _ ← byteAt mem ptr 2
    let xPos ← halfAt mem ptr 3
    let yPos ← halfAt mem ptr 5
    if xPos<xposMax ∧ yPos<yposMax then
      let fontByte ← byteAt mem ptr 7
      let font := 1+fontByte
      let font := if font>4 then 4 else font
      let precisionByte ← byteAt mem ptr 8
      let precision := Precision.ofByte precisionByte
      let linkType ← halfAt mem ptr 9
      let linkIndex ← halfAt mem ptr 11
      let color ← colorAt mem ptr 13
      issue (.dl (dlColorRgb|||color))
      drawValue xPos yPos font precision (textVarValue src precision linkType linkIndex)

/-- mnemo_draw_filled_rect. -/
def mnemoDrawFilledRect (ptr : ℕ) : Draw Unit := do
  let xPos ← halfAt mem ptr 3
  let yPos ← halfAt mem ptr 5
  let width ← halfAt mem ptr 7
  let height ← halfAt mem ptr 9
  let onColor ← colorAt mem ptr 11
  let offColor ← colorAt mem ptr 14
  let linkType ← halfAt mem ptr 17
  let linkIndex ← halfAt mem ptr 19
  let color := if bitValue src linkType linkIndex≠0 then onColor else offColor
  issue (.dl (dlColorRgb|||color))
  issue (.dl dlEnd)
  issue (.dl (dlBegin|||9))
  issue (.dl (vertex2f (xPos.toUInt32*16) (yPos.toUInt32*16)))
  issue (.dl (vertex2f ((xPos.toUInt32+width.toUInt32)*16) ((yPos.toUInt32+height.toUInt32)*16)))
  issue (.dl dlEnd)

/-- mnemo_draw_filled_circle. -/
def mnemoDrawFilledCircle (ptr : ℕ) : Draw Unit := do
  let xPos ← halfAt mem ptr 3
  let yPos ← halfAt mem ptr 5
  let width ← halfAt mem ptr 7
  let onColor ← colorAt mem ptr 9
  let offColor ← colorAt mem ptr 12
  let linkType ← halfAt mem ptr 15
  let linkIndex ← halfAt mem ptr 17
  let color := if bitValue src linkType linkIndex≠0 then onColor else offColor
  issue (.dl (dlColorRgb|||color))
  issue (.dl (pointSize (width.toUInt32*8)))
  issue (.dl (dlBegin|||2))
  issue (.dl (vertex2f (xPos.toUInt32*16+width.toUInt32*8) (yPos.toUInt32*16+width.toUInt32*8)))
  issue (.dl dlEnd)

/-- mnemo_draw_element. -/
def mnemoDrawElement (confAddr : UInt16) : Draw Unit := do
  let ptr := confAddr.toNat
  let id ← halfAt mem ptr 0
  if id=1 then mnemoDrawLamp src mem ptr
  else if id=2 then mnemoDrawBackgroundImage mem ptr
  else if id=3 then mnemoLoadCyrFonts mem ptr
  else if id=4 then mnemoDrawText mem ptr
  else if id=7 then mnemoDrawTextVar src mem ptr
  else if id=10 then mnemoDrawFilledRect src mem ptr
  else if id=11 then mnemoDrawFilledCircle src mem ptr

/-- mnemo_get_elements_cnt. -/
def mnemoGetElementsCnt : Draw UInt16 := halfAt mem 8 0

/-- draw_mnemo. -/
def drawMnemo : Draw Unit := do
  let elCnt ← mnemoGetElementsCnt mem
  issue (.dl 0xFFFFFF00)
  issue (.dl 0x02000000)
  issue (.dl (0x26000000|||4|||2|||1))
  issue (.memRead32 regCmdDl)
  issue (.memRead32 regCmdbSpace)
  loop elCnt.toNat fun i => do
    let offset ← halfAt mem (mnemoHeaderLength+i*mnemoOneElemLinkWidth) 0
    mnemoDrawElement src mem (offset+6)
  issue (.memRead32 regCmdDl)
  issue (.memRead32 regCmdbSpace)
  if src.plcCanLink=0 then
    issue (.dl (dlColorRgb|||0x00FFFFFF))
    issue (.fgcolor (colorRgb 100 0 0))
    issue (.button 300 400 200 50 28 0 "CAN  ERROR".toList)
  issue (.dl 0)
  issue (.dl 0xFFFFFF01)

/-! ## Where the routines read -/

/-- The 16-bit number at an address. -/
def half (p : ℕ) : UInt16 := join16 (mem p) (mem (p+1))

/-- A position on the screen. -/
def OnScreen (x y : UInt16) : Prop := x<xposMax ∧ y<yposMax

/-- Whether a point is on the screen can be decided. -/
instance (x y : UInt16) : Decidable (OnScreen x y) := inferInstanceAs (Decidable (_ ∧ _))

/-- The bytes of the fixed part of an element. -/
def elementSize (p : ℕ) : ℕ :=
  if half mem p=1 then 13
  else if half mem p=2 then 7
  else if half mem p=3 then 3
  else if half mem p=4 then 11
  else if half mem p=7 then if OnScreen (half mem (p+3)) (half mem (p+5)) then 16 else 7
  else if half mem p=10 then 21
  else if half mem p=11 then 19
  else 2

/-- A string has 249 bytes in the buffer or a zero before the end of the buffer. -/
def StringInside (str : ℕ) : Prop :=
  str+249 ≤ mnemoBufSize ∨ ∃ k<249,str+k < mnemoBufSize ∧ mem (str+k)=0

/-- The element at an address lies in the buffer, a string that is drawn included. -/
def ElementInside (p : ℕ) : Prop :=
  p+elementSize mem p ≤ mnemoBufSize ∧
    (half mem p=4 → OnScreen (half mem (p+6)) (half mem (p+8)) → StringInside mem (p+11))

/-- The address of the element with an index: the offset of the table and 6, in 16 bits. -/
def elementAddr (i : ℕ) : UInt16 := half mem (mnemoHeaderLength+i*mnemoOneElemLinkWidth)+6

/-- The table of elements and the elements lie in the buffer. -/
def MnemoInside : Prop :=
  mnemoHeaderLength+(half mem 8).toNat*mnemoOneElemLinkWidth ≤ mnemoBufSize ∧
    ∀ i<(half mem 8).toNat,ElementInside mem (elementAddr mem i).toNat

/-- An index of mnemo_buf. -/
abbrev Inside (r : ℕ) : Prop := r < mnemoBufSize

/-- A byte is read inside when its index is in the buffer. -/
theorem reads_byteAt (ptr i : ℕ) : Reads Inside (byteAt mem ptr i) ↔ ptr+i < mnemoBufSize :=
  Traced.reads_read _ _ _

/-- A half word is read inside when its last byte is in the buffer. -/
theorem reads_halfAt (ptr i : ℕ) : Reads Inside (halfAt mem ptr i) ↔ ptr+i+1 < mnemoBufSize := by
  simp only [halfAt,Traced.reads_bind,Traced.reads_pure,reads_byteAt,and_true]
  omega

/-- A colour is read inside when its third byte is in the buffer. -/
theorem reads_colorAt (ptr i : ℕ) : Reads Inside (colorAt mem ptr i) ↔ ptr+i+2 < mnemoBufSize := by
  simp only [colorAt,Traced.reads_bind,Traced.reads_pure,reads_byteAt,and_true]
  omega

/-- A half word read has the value of the two bytes. -/
theorem halfAt_value (ptr i : ℕ) : (halfAt mem ptr i).value=half mem (ptr+i) := by
  simp [halfAt,byteAt,half,Nat.add_assoc]

/-- The image of a lamp reads nothing of the buffer. -/
theorem reads_lampImage (x y : UInt16) (col : UInt8) :
    Reads Inside (mnemoDrawLampImage x y col) ↔ True := by
  simp [mnemoDrawLampImage,Traced.reads_bind,Traced.reads_issue,Traced.reads_ite]

/-- A value drawn reads nothing of the buffer. -/
theorem reads_drawValue (x y : UInt16) (font : UInt8) (precision : Precision) (value : Int32) :
    Reads Inside (drawValue x y font precision value) ↔ True := by
  cases precision <;> exact Traced.reads_issue _ _

/-- A lamp record reads thirteen bytes. -/
theorem reads_lamp {ptr : ℕ} (h : half mem ptr=1) :
    Reads Inside (mnemoDrawLamp src mem ptr) ↔ ptr+13 ≤ mnemoBufSize := by
  simp only [mnemoDrawLamp,Traced.reads_bind,Traced.reads_ite,Traced.reads_pure,reads_byteAt,
    reads_halfAt,reads_lampImage,halfAt_value,Nat.add_zero,h,implies_true,and_true,forall_const,
    not_true_eq_false]
  omega

/-- A background record reads seven bytes. -/
theorem reads_backgroundImage (ptr : ℕ) :
    Reads Inside (mnemoDrawBackgroundImage mem ptr) ↔ ptr+7 ≤ mnemoBufSize := by
  simp only [mnemoDrawBackgroundImage,Traced.reads_bind,Traced.reads_issue,reads_byteAt,and_true]
  omega

/-- A font record reads three bytes. -/
theorem reads_loadCyrFonts {ptr : ℕ} (h : half mem ptr=3) :
    Reads Inside (mnemoLoadCyrFonts mem ptr) ↔ ptr+3 ≤ mnemoBufSize := by
  simp only [mnemoLoadCyrFonts,Traced.reads_bind,Traced.reads_ite,Traced.reads_pure,
    Traced.reads_issue,reads_byteAt,reads_halfAt,halfAt_value,Nat.add_zero,h,implies_true,and_true,
    forall_const,not_true_eq_false]
  omega

/-- The loop over a string stays in the buffer when the string ends there. -/
theorem reads_stringLoop (str left textindex : ℕ) :
    Reads Inside (stringLoop mem str left textindex) ↔
      left=0 ∨ str+textindex+left ≤ mnemoBufSize ∨
        ∃ k<left,str+textindex+k < mnemoBufSize ∧ mem (str+textindex+k)=0 := by
  induction left generalizing textindex with
  | zero => simp [stringLoop,Traced.reads_pure]
  | succ left ih =>
    have hvalue : (byteAt mem str textindex).value=mem (str+textindex) := by simp [byteAt]
    simp only [stringLoop,Traced.reads_bind,Traced.reads_ite,Traced.reads_pure,reads_byteAt,hvalue,
      ih,implies_true,and_true]
    by_cases hzero : mem (str+textindex)=0
    · constructor
      · rintro ⟨hlt,-⟩
        exact Or.inr (Or.inr ⟨0,Nat.succ_pos left,hlt,hzero⟩)
      · rintro (h|h|⟨k,-,hk,-⟩) <;> exact ⟨by omega,fun hne => absurd hzero hne⟩
    · constructor
      · rintro ⟨hlt,h⟩
        rcases (h hzero).2 with h0|hall|⟨k,hk,hin,hend⟩
        · exact Or.inr (Or.inl (by omega))
        · exact Or.inr (Or.inl (by omega))
        · refine Or.inr (Or.inr ⟨k+1,by omega,by omega,?_⟩)
          rw [← hend]
          congr 1
          omega
      · rintro (h|hall|⟨k,hk,hin,hend⟩)
        · omega
        · exact ⟨by omega,fun _ => ⟨by omega,Or.inr (Or.inl (by omega))⟩⟩
        · obtain ⟨k,rfl⟩ : ∃ j,k=j+1 := by
            refine ⟨k-1,?_⟩
            rcases k with _ | k
            · exact absurd hend hzero
            · rfl
          have hnext : str+textindex+(k+1)=str+(textindex+1)+k := by omega
          rw [hnext] at hin hend
          exact ⟨by omega,fun _ => ⟨by omega,Or.inr (Or.inr ⟨k,by omega,hin,hend⟩)⟩⟩

/-- A text record reads eleven bytes and, on the screen, its string. -/
theorem reads_text {ptr : ℕ} (h : half mem ptr=4) :
    Reads Inside (mnemoDrawText mem ptr) ↔ ptr+11 ≤ mnemoBufSize ∧
      (OnScreen (half mem (ptr+6)) (half mem (ptr+8)) → StringInside mem (ptr+11)) := by
  have h249 : ¬249=0 := by decide
  simp only [mnemoDrawText,Traced.reads_bind,Traced.reads_ite,Traced.reads_pure,Traced.reads_issue,
    reads_byteAt,reads_halfAt,reads_colorAt,reads_stringLoop,halfAt_value,Nat.add_zero,h,
    implies_true,and_true,true_and,forall_const,not_true_eq_false,h249,false_or]
  constructor
  · rintro ⟨-,-,-,-,-,hfixed,hstring⟩
    exact ⟨hfixed,hstring⟩
  · rintro ⟨hfixed,hstring⟩
    exact ⟨by omega,by omega,by omega,by omega,by omega,by omega,hstring⟩

/-- A variable record reads sixteen bytes on the screen and seven off it. -/
theorem reads_textVar {ptr : ℕ} (h : half mem ptr=7) :
    Reads Inside (mnemoDrawTextVar src mem ptr) ↔
      ptr+(if OnScreen (half mem (ptr+3)) (half mem (ptr+5)) then 16 else 7) ≤ mnemoBufSize := by
  simp only [mnemoDrawTextVar,Traced.reads_bind,Traced.reads_ite,Traced.reads_pure,
    Traced.reads_issue,reads_byteAt,reads_halfAt,reads_colorAt,reads_drawValue,halfAt_value,
    Nat.add_zero,h,implies_true,and_true,forall_const,not_true_eq_false]
  by_cases hs : OnScreen (half mem (ptr+3)) (half mem (ptr+5))
  · rw [if_pos hs]
    constructor
    · rintro ⟨-,-,-,-,hrest⟩
      have hrest := hrest hs
      omega
    · intro hfit
      exact ⟨by omega,by omega,by omega,by omega,fun _ => by omega⟩
  · rw [if_neg hs]
    constructor
    · rintro ⟨-,-,-,hy,-⟩
      omega
    · intro hfit
      exact ⟨by omega,by omega,by omega,by omega,fun hon => absurd hon hs⟩

/-- A rectangle record reads twenty-one bytes. -/
theorem reads_filledRect (ptr : ℕ) :
    Reads Inside (mnemoDrawFilledRect src mem ptr) ↔ ptr+21 ≤ mnemoBufSize := by
  simp only [mnemoDrawFilledRect,Traced.reads_bind,Traced.reads_issue,reads_halfAt,reads_colorAt,
    and_true]
  omega

/-- A circle record reads nineteen bytes. -/
theorem reads_filledCircle (ptr : ℕ) :
    Reads Inside (mnemoDrawFilledCircle src mem ptr) ↔ ptr+19 ≤ mnemoBufSize := by
  simp only [mnemoDrawFilledCircle,Traced.reads_bind,Traced.reads_issue,reads_halfAt,reads_colorAt,
    and_true]
  omega

/-- An element without a string lies in the buffer when its fixed part does. -/
theorem fixed_part_iff {p n : ℕ} {id : UInt16} {string : Prop} (h : id≠4) (hn : 2≤n) :
    p+2 ≤ mnemoBufSize ∧ p+n ≤ mnemoBufSize ↔ p+n ≤ mnemoBufSize ∧ (id=4 → string) :=
  ⟨fun hfit => ⟨hfit.2,fun h4 => absurd h4 h⟩,fun hfit => ⟨by omega,hfit.1⟩⟩

/-- An element is read inside the buffer exactly when it lies there. -/
theorem reads_element (confAddr : UInt16) :
    Reads Inside (mnemoDrawElement src mem confAddr) ↔ ElementInside mem confAddr.toNat := by
  have hid : (halfAt mem confAddr.toNat 0).value=half mem confAddr.toNat := halfAt_value _ _ _
  have hfirst : Reads Inside (halfAt mem confAddr.toNat 0) ↔ confAddr.toNat+2 ≤ mnemoBufSize := by
    rw [reads_halfAt]
    omega
  rw [mnemoDrawElement]
  simp only [Traced.reads_bind,hfirst]
  rw [ElementInside,elementSize,hid]
  by_cases h1 : half mem confAddr.toNat=1
  · simp only [if_pos h1,reads_lamp src mem h1]
    exact fixed_part_iff (h1 ▸ by decide) (by decide)
  by_cases h2 : half mem confAddr.toNat=2
  · simp only [if_neg h1,if_pos h2,reads_backgroundImage mem]
    exact fixed_part_iff (h2 ▸ by decide) (by decide)
  by_cases h3 : half mem confAddr.toNat=3
  · simp only [if_neg h1,if_neg h2,if_pos h3,reads_loadCyrFonts mem h3]
    exact fixed_part_iff (h3 ▸ by decide) (by decide)
  by_cases h4 : half mem confAddr.toNat=4
  · simp only [if_neg h1,if_neg h2,if_neg h3,if_pos h4,reads_text mem h4]
    exact ⟨fun h => ⟨h.2.1,fun _ => h.2.2⟩,fun h => ⟨by omega,h.1,h.2 h4⟩⟩
  by_cases h7 : half mem confAddr.toNat=7
  · simp only [if_neg h1,if_neg h2,if_neg h3,if_neg h4,if_pos h7,reads_textVar src mem h7]
    exact fixed_part_iff h4 (by split <;> decide)
  by_cases h10 : half mem confAddr.toNat=10
  · simp only [if_neg h1,if_neg h2,if_neg h3,if_neg h4,if_neg h7,if_pos h10,
      reads_filledRect src mem]
    exact fixed_part_iff h4 (by decide)
  by_cases h11 : half mem confAddr.toNat=11
  · simp only [if_neg h1,if_neg h2,if_neg h3,if_neg h4,if_neg h7,if_neg h10,if_pos h11,
      reads_filledCircle src mem]
    exact fixed_part_iff h4 (by decide)
  · simp only [if_neg h1,if_neg h2,if_neg h3,if_neg h4,if_neg h7,if_neg h10,if_neg h11,
      Traced.reads_pure]
    exact ⟨fun h => ⟨h.1,fun h' => absurd h' h4⟩,fun h => ⟨h.1,trivial⟩⟩

/-- draw_mnemo reads inside the buffer exactly when its table and its elements lie there. -/
theorem reads_drawMnemo : Reads Inside (drawMnemo src mem) ↔ MnemoInside mem := by
  have hcnt : (mnemoGetElementsCnt mem).value=half mem 8 := halfAt_value _ _ _
  have hread : Reads Inside (mnemoGetElementsCnt mem) ↔ True :=
    iff_true_intro ((reads_halfAt mem 8 0).mpr (by decide))
  rw [drawMnemo]
  simp only [Traced.reads_bind,Traced.reads_issue,Traced.reads_ite,hread,Traced.reads_loop,
    implies_true,and_true,true_and]
  rw [hcnt]
  simp only [reads_halfAt,halfAt_value,reads_element,Nat.add_zero]
  have hwidth : mnemoOneElemLinkWidth=2 := rfl
  constructor
  · intro h
    refine ⟨?_,fun i hi => (h i hi).2⟩
    by_cases hnone : (half mem 8).toNat=0
    · rw [hnone]
      decide
    · have hlast := (h ((half mem 8).toNat-1) (by omega)).1
      rw [hwidth] at hlast ⊢
      omega
  · rintro ⟨htable,helements⟩ i hi
    refine ⟨?_,helements i hi⟩
    rw [hwidth] at htable ⊢
    omega

/-- The indices of mnemo_buf that draw_mnemo reads are below 4096 exactly when
its table of elements and the elements lie in the buffer. -/
theorem drawMnemo_inside_iff :
    (∀ r∈(drawMnemo src mem).reads,r < mnemoBufSize) ↔ MnemoInside mem :=
  reads_drawMnemo src mem

end

/-- All variables as they start. -/
def zeroSources : Sources := ⟨zeroArrays,fun _ => 0,fun _ _ => 0,0⟩

/-- An item of one element whose offset, after the addition of 6, is the length
of the buffer. -/
def outsideItem : List UInt8 := [0,14,0,0,0,1,0,0,0,1,0x0F,0xFA]

/-- The block of this item with its length and its checksum. -/
def outsideBlock : Mem UInt8 := fun i =>
  let crc := (Crc.getCRC16 outsideItem).toUInt16
  [0,14,0,14,0,1,0,0,0,1,0x0F,0xFA,(crc&&&0xFF).toUInt8,(crc>>>8).toUInt8].getD i 0

/-- The checksum of the item is accepted. -/
theorem checkItemConfig_outsideBlock :
    Config.checkItemConfig outsideBlock 14=(true,store outsideBlock 2 [0,0]) := by
  have hload : load (store outsideBlock 2 [0,0]) 0 12=outsideItem := rfl
  have hid : join16 (outsideBlock 0) (outsideBlock 1)=14 := by decide
  have hlen : (join16 (outsideBlock 2) (outsideBlock 3)).toNat=14 := by decide
  unfold Config.checkItemConfig
  dsimp only
  rw [if_pos hid,hlen,if_neg (by omega),if_neg (by omega)]
  dsimp only [Nat.reduceSub]
  rw [hload]
  rw [Prod.mk.injEq,decide_eq_true_eq]
  exact ⟨⟨rfl,rfl⟩,rfl⟩

/-- An accepted item from which draw_mnemo reads the byte behind the buffer. -/
theorem not_drawMnemo_inside : ¬∀ src mem,(Config.checkItemConfig mem 14).1=true →
    ∀ r∈(drawMnemo src (Config.checkItemConfig mem 14).2).reads,r < mnemoBufSize := by
  intro h
  have hin := h zeroSources outsideBlock (by rw [checkItemConfig_outsideBlock])
  rw [checkItemConfig_outsideBlock] at hin
  have hfit := ((reads_drawMnemo zeroSources _).mp hin).2 0 (by decide)
  exact absurd hfit.1 (by decide)

end BT816Display.Mnemo
