import BT816Display.DisplayList
import BT816Display.Mnemo

/-!
# The picture of the mnemonic screen

An element of the configuration asks for a shape. draw_mnemo makes calls of
the elements, and the display makes a picture of what the calls ask for: the
shapes of the elements in their order. A shape can depend on the elements
before it. An image is drawn under the color that they have left,
a lamp of a color without a bitmap as the bitmap before it, and a text in the
fonts that are loaded.
-/

namespace BT816Display.MnemoPicture

open ByteMemory BigEndian WireWords Bt816Spi Bt816Cmd CommandSet CommandReader CommandStream Frames
open Mnemo DisplayList
open FixedPoint (Precision)
open StringCommands (CString wordStream)

/-! ## Elements -/

/-- An element that is drawn, with the values that it shows now. -/
inductive Element where
  /-- A lamp in the color of its bit. -/
  | lamp (x y : UInt16) (col : UInt8)
  /-- A background image. -/
  | image (addr : UInt32)
  /-- The four fonts. -/
  | fonts
  /-- A text. -/
  | text (color : UInt32) (x y : UInt16) (font : UInt8) (text : List UInt8)
  /-- A value as a text. -/
  | textVar (color : UInt32) (x y : UInt16) (font : UInt8) (precision : Precision) (value : Int32)
  /-- A rectangle in the color of its bit. -/
  | rect (color : UInt32) (x y width height : UInt16)
  /-- A circle in the color of its bit. -/
  | circle (color : UInt32) (x y width : UInt16)
  deriving DecidableEq

section

variable (src : Sources) (mem : Mem UInt8)

/-- Three bytes as a color. -/
def colorOf (p : ℕ) : UInt32 :=
  ((mem p).toUInt32<<<16)|||((mem (p+1)).toUInt32<<<8)|||(mem (p+2)).toUInt32

/-- A string as far as it is sent. -/
def stringAt (p : ℕ) : List UInt8 := (load mem p 249).takeWhile (· ≠ 0)

/-- The font of a value. -/
def valueFont (b : UInt8) : UInt8 := if 1+b>4 then 4 else 1+b

/-- The color of a rectangle and a circle: two colors and a link in a row. -/
def litColor (p : ℕ) : UInt32 :=
  if bitValue src (half mem (p+6)) (half mem (p+8))≠0 then colorOf mem p else colorOf mem (p+3)

/-- The element at an address, unless its identifier is unknown or it lies
outside the screen. -/
def elementOf (p : ℕ) : Option Element :=
  if half mem p=1 then
    if OnScreen (half mem (p+3)) (half mem (p+5)) then
      some (.lamp (half mem (p+3)) (half mem (p+5))
        (if bitValue src (half mem (p+9)) (half mem (p+11))≠0 then mem (p+7) else mem (p+8)))
    else none
  else if half mem p=2 then
    some (.image (join32 (mem (p+3)) (mem (p+4)) (mem (p+5)) (mem (p+6))+(4096+4096)))
  else if half mem p=3 then some .fonts
  else if half mem p=4 then
    if OnScreen (half mem (p+6)) (half mem (p+8)) then
      some (.text (colorOf mem (p+3)) (half mem (p+6)) (half mem (p+8)) (mem (p+10))
        (stringAt mem (p+11)))
    else none
  else if half mem p=7 then
    if OnScreen (half mem (p+3)) (half mem (p+5)) then
      some (.textVar (colorOf mem (p+13)) (half mem (p+3)) (half mem (p+5))
        (valueFont (mem (p+7))) (Precision.ofByte (mem (p+8)))
        (textVarValue src (Precision.ofByte (mem (p+8))) (half mem (p+9)) (half mem (p+11))))
    else none
  else if half mem p=10 then
    some (.rect (litColor src mem (p+11)) (half mem (p+3)) (half mem (p+5)) (half mem (p+7))
      (half mem (p+9)))
  else if half mem p=11 then
    some (.circle (litColor src mem (p+9)) (half mem (p+3)) (half mem (p+5)) (half mem (p+7)))
  else none

/-- The elements of the table in order. -/
def elements : List Element :=
  (List.range (half mem 8).toNat).filterMap fun i => elementOf src mem (elementAddr mem i).toNat

end

/-! ## Shapes -/

/-- The color white. -/
abbrev white : UInt32 := 0xFFFFFF

/-- The color that an element leaves. -/
def Element.tint : Element → Option UInt32
  | .lamp .. => some white
  | .image _ | .fonts => none
  | .text color .. | .textVar color .. | .rect color .. | .circle color .. => some color

/-- The bitmap that an element gives. -/
def Element.bitmap : Element → Option Bitmap
  | .lamp _ _ col => if col<5 then some ⟨memLamp1-col.toUInt32*(5*1024),6,50,50⟩ else none
  | .image addr => some ⟨0x800000|||(addr/32),37819,800,480⟩
  | _ => none

/-- The color behind some elements. -/
def tintAfter (els : List Element) : UInt32 := (els.filterMap Element.tint).getLastD white

/-- The bitmap behind some elements. -/
def bitmapAfter (d : Display) (els : List Element) : Bitmap :=
  (els.filterMap Element.bitmap).getLastD d.bitmap

/-- The four fonts of the program. -/
def cyrFace (n : ℕ) : Face := ⟨memFont40+(4-n).toUInt32*1024,0⟩

/-- The face of a font behind some elements. -/
def faceAfter (d : Display) (els : List Element) (n : ℕ) : Option Face :=
  if Element.fonts∈els ∧ 1≤n ∧ n≤4 then some (cyrFace n) else d.fonts n

/-- A position as it is sent, in sixteenths of a pixel. -/
def pixel (n : ℕ) : ℤ := signed15 (16*n)

/-- The format of a value. -/
def valueFormat : Precision → List Char
  | .pr0 => FixedPoint.wholeFormat
  | .pr1 => FixedPoint.tenthsFormat
  | .pr2 => FixedPoint.hundredthsFormat
  | .pr3 => FixedPoint.thousandthsFormat

/-- The parts of a value. -/
def valueParts (value : Int32) : Precision → List Int32
  | .pr0 => [value]
  | .pr1 => [value/10,value%10]
  | .pr2 => [value/100,value%100]
  | .pr3 => [value/1000,value%1000]

/-- The bytes of characters. -/
def charBytes (text : List Char) : List UInt8 := text.map fun c => c.toNat.toUInt8

/-- The shape of an element with others before it. -/
def Element.shapes (d : Display) (before : List Element) : Element → List Shape
  | .lamp x y col =>
    [.bitmap white (bitmapAfter d (before++[.lamp x y col])) (pixel x.toNat) (pixel y.toNat)]
  | .image addr => [.bitmap (tintAfter before) ⟨0x800000|||(addr/32),37819,800,480⟩ 0 0]
  | .fonts => []
  | .text color x y font bytes =>
    [.text color (faceAfter d before font.toNat) x y font.toUInt16 0 bytes []]
  | .textVar color x y font precision value =>
    [.text color (faceAfter d before font.toNat) x y font.toUInt16 FixedPoint.optFormat
      (charBytes (valueFormat precision)) ((valueParts value precision).map Int32.toUInt32)]
  | .rect color x y width height =>
    [.rect color (pixel x.toNat) (pixel y.toNat) (pixel (x.toNat+width.toNat))
      (pixel (y.toNat+height.toNat))]
  | .circle color x y width =>
    [.point color (8*width.toNat%2^13) (signed15 (16*x.toNat+8*width.toNat))
      (signed15 (16*y.toNat+8*width.toNat))]

/-- The shapes of elements, one after another. -/
def shapesAfter (d : Display) (before : List Element) : List Element → List Shape
  | [] => []
  | e::els => e.shapes d before++shapesAfter d (before++[e]) els

/-- The warning of a lost link. -/
def canError (d : Display) : Shape :=
  .button white 0x640000 (d.fonts 28) 300 400 200 50 28 0 (charBytes "CAN  ERROR".toList)

/-- The picture that the elements ask for. -/
def picture (d : Display) (src : Sources) (mem : Mem UInt8) : List Shape :=
  .clear 0::(shapesAfter d [] (elements src mem)++
    if src.plcCanLink=0 then [canError d] else [])

/-! ## Commands of an element -/

/-- The commands that draw an element. -/
def Element.commands : Element → List FixedPoint.Command
  | .lamp x y col => (mnemoDrawLampImage x y col).commands
  | .image addr => [.setbitmap (0x800000|||(addr/32)) 37819 800 480,.dl (dlBegin|||1),
      .dl (DisplayWords.vertex2f 0 0),.dl dlEnd]
  | .fonts => [.setfont2 1 (memFont40+3*1024) 0,.setfont2 2 (memFont40+2*1024) 0,
      .setfont2 3 (memFont40+1024) 0,.setfont2 4 memFont40 0]
  | .text color x y font bytes => [.dl (dlColorRgb|||(dlColorRgb|||color)),
      .text x.toInt16 y.toInt16 font.toUInt16.toInt16 0 bytes]
  | .textVar color x y font precision value => .dl (dlColorRgb|||color)::
      (FixedPoint.drawValue x y font precision value).commands
  | .rect color x y width height => [.dl (dlColorRgb|||color),.dl dlEnd,.dl (dlBegin|||9),
      .dl (DisplayWords.vertex2f (x.toUInt32*16) (y.toUInt32*16)),
      .dl (DisplayWords.vertex2f ((x.toUInt32+width.toUInt32)*16) ((y.toUInt32+height.toUInt32)*16)),
      .dl dlEnd]
  | .circle color x y width => [.dl (dlColorRgb|||color),
      .dl (DisplayWords.pointSize (width.toUInt32*8)),.dl (dlBegin|||2),
      .dl (DisplayWords.vertex2f (x.toUInt32*16+width.toUInt32*8) (y.toUInt32*16+width.toUInt32*8)),
      .dl dlEnd]

section

variable (src : Sources) (mem : Mem UInt8)

/-- A color as it stands in the buffer. -/
theorem colorAt_value (ptr i : ℕ) : (colorAt mem ptr i).value=colorOf mem (ptr+i) := rfl

/-- A byte as it stands there. -/
theorem byteAt_value (ptr i : ℕ) : (byteAt mem ptr i).value=mem (ptr+i) := rfl

/-- Reading a half-word sends nothing. -/
theorem halfAt_commands (ptr i : ℕ) : (halfAt mem ptr i).commands=[] := rfl

/-- Nor does reading a color. -/
theorem colorAt_commands (ptr i : ℕ) : (colorAt mem ptr i).commands=[] := rfl

/-- Nor does reading a byte. -/
theorem byteAt_commands (ptr i : ℕ) : (byteAt mem ptr i).commands=[] := rfl

/-- The loop over a string keeps the bytes in front of a zero and issues nothing. -/
theorem stringLoop_eq (str left textindex : ℕ) :
    (stringLoop mem str left textindex).value=
        (load mem (str+textindex) left).takeWhile (· ≠ 0) ∧
      (stringLoop mem str left textindex).commands=[] := by
  induction left generalizing textindex with
  | zero => exact ⟨rfl,rfl⟩
  | succ left ih =>
    have hload : load mem (str+textindex) (left+1)=
        mem (str+textindex)::load mem (str+(textindex+1)) left := by
      rw [Nat.add_comm left 1]
      exact load_append mem (str+textindex) 1 left
    rw [hload]
    by_cases hzero : mem (str+textindex)=0
    · rw [List.takeWhile_cons_of_neg (by simp [hzero])]
      simp [stringLoop,byteAt_value,byteAt_commands,hzero]
    · obtain ⟨hvalue,hcommands⟩ := ih (textindex+1)
      rw [List.takeWhile_cons_of_pos (by simp [hzero])]
      simp [stringLoop,byteAt_value,byteAt_commands,hzero,hvalue,hcommands]

/-- A lamp sends the commands of its element. -/
theorem lamp_commands {p : ℕ} (h : half mem p=1) :
    (mnemoDrawLamp src mem p).commands=(elementOf src mem p).elim [] Element.commands := by
  rw [elementOf,if_pos h]
  simp only [mnemoDrawLamp,Traced.bind_commands,halfAt_commands,byteAt_commands,halfAt_value,
    byteAt_value,Nat.add_zero,h,if_true,List.nil_append]
  have hand : OnScreen (half mem (p+3)) (half mem (p+5)) ↔
      half mem (p+3)<xposMax ∧ half mem (p+5)<yposMax := Iff.rfl
  by_cases hon : OnScreen (half mem (p+3)) (half mem (p+5))
  · rw [if_pos hon,if_pos (hand.mp hon)]
    split <;> rfl
  · rw [if_neg hon,if_neg (mt hand.mpr hon)]
    rfl

/-- An image sends those of its element. -/
theorem image_commands {p : ℕ} (h : half mem p=2) :
    (mnemoDrawBackgroundImage mem p).commands=(elementOf src mem p).elim [] Element.commands := by
  rw [elementOf,if_neg (h ▸ by decide),if_pos h]
  rfl

/-- The fonts send those of theirs. -/
theorem fonts_commands {p : ℕ} (h : half mem p=3) :
    (mnemoLoadCyrFonts mem p).commands=(elementOf src mem p).elim [] Element.commands := by
  rw [elementOf,if_neg (h ▸ by decide),if_neg (h ▸ by decide),if_pos h]
  simp only [mnemoLoadCyrFonts,Traced.bind_commands,halfAt_commands,byteAt_commands,halfAt_value,
    Nat.add_zero,h,if_true,List.nil_append]
  rfl

/-- A text sends those of its element. -/
theorem text_commands {p : ℕ} (h : half mem p=4) :
    (mnemoDrawText mem p).commands=(elementOf src mem p).elim [] Element.commands := by
  rw [elementOf,if_neg (h ▸ by decide),if_neg (h ▸ by decide),if_neg (h ▸ by decide),if_pos h]
  simp only [mnemoDrawText,Traced.bind_commands,halfAt_commands,byteAt_commands,colorAt_commands,
    halfAt_value,byteAt_value,colorAt_value,Nat.add_zero,h,if_true,List.nil_append]
  have hand : OnScreen (half mem (p+6)) (half mem (p+8)) ↔
      half mem (p+6)<xposMax ∧ half mem (p+8)<yposMax := Iff.rfl
  by_cases hon : OnScreen (half mem (p+6)) (half mem (p+8))
  · obtain ⟨hvalue,hcommands⟩ := stringLoop_eq mem (p+11) 249 0
    rw [if_pos hon,if_pos (hand.mp hon)]
    simp only [Traced.bind_commands,Traced.issue_commands,hvalue,hcommands]
    rfl
  · rw [if_neg hon,if_neg (mt hand.mpr hon)]
    rfl

/-- A value sends those of its element. -/
theorem textVar_commands {p : ℕ} (h : half mem p=7) :
    (mnemoDrawTextVar src mem p).commands=(elementOf src mem p).elim [] Element.commands := by
  rw [elementOf,if_neg (h ▸ by decide),if_neg (h ▸ by decide),if_neg (h ▸ by decide),
    if_neg (h ▸ by decide),if_pos h]
  simp only [mnemoDrawTextVar,Traced.bind_commands,halfAt_commands,byteAt_commands,halfAt_value,
    Nat.add_zero,h,if_true,List.nil_append]
  have hand : OnScreen (half mem (p+3)) (half mem (p+5)) ↔
      half mem (p+3)<xposMax ∧ half mem (p+5)<yposMax := Iff.rfl
  by_cases hon : OnScreen (half mem (p+3)) (half mem (p+5))
  · rw [if_pos hon,if_pos (hand.mp hon)]
    rfl
  · rw [if_neg hon,if_neg (mt hand.mpr hon)]
    rfl

/-- A rectangle sends those of its element. -/
theorem rect_commands {p : ℕ} (h : half mem p=10) :
    (mnemoDrawFilledRect src mem p).commands=(elementOf src mem p).elim [] Element.commands := by
  rw [elementOf,if_neg (h ▸ by decide),if_neg (h ▸ by decide),if_neg (h ▸ by decide),
    if_neg (h ▸ by decide),if_neg (h ▸ by decide),if_pos h]
  rfl

/-- A circle sends those of its element. -/
theorem circle_commands {p : ℕ} (h : half mem p=11) :
    (mnemoDrawFilledCircle src mem p).commands=(elementOf src mem p).elim [] Element.commands := by
  rw [elementOf,if_neg (h ▸ by decide),if_neg (h ▸ by decide),if_neg (h ▸ by decide),
    if_neg (h ▸ by decide),if_neg (h ▸ by decide),if_neg (h ▸ by decide),if_pos h]
  rfl

/-- mnemo_draw_element issues the commands of the element. -/
theorem element_commands (confAddr : UInt16) :
    (mnemoDrawElement src mem confAddr).commands=
      (elementOf src mem confAddr.toNat).elim [] Element.commands := by
  rw [mnemoDrawElement]
  simp only [Traced.bind_commands,halfAt_commands,halfAt_value,Nat.add_zero,List.nil_append]
  by_cases h1 : half mem confAddr.toNat=1
  · rw [if_pos h1,lamp_commands src mem h1]
  by_cases h2 : half mem confAddr.toNat=2
  · rw [if_neg h1,if_pos h2,image_commands src mem h2]
  by_cases h3 : half mem confAddr.toNat=3
  · rw [if_neg h1,if_neg h2,if_pos h3,fonts_commands src mem h3]
  by_cases h4 : half mem confAddr.toNat=4
  · rw [if_neg h1,if_neg h2,if_neg h3,if_pos h4,text_commands src mem h4]
  by_cases h7 : half mem confAddr.toNat=7
  · rw [if_neg h1,if_neg h2,if_neg h3,if_neg h4,if_pos h7,textVar_commands src mem h7]
  by_cases h10 : half mem confAddr.toNat=10
  · rw [if_neg h1,if_neg h2,if_neg h3,if_neg h4,if_neg h7,if_pos h10,rect_commands src mem h10]
  by_cases h11 : half mem confAddr.toNat=11
  · rw [if_neg h1,if_neg h2,if_neg h3,if_neg h4,if_neg h7,if_neg h10,if_pos h11,
      circle_commands src mem h11]
  · rw [elementOf,if_neg h1,if_neg h2,if_neg h3,if_neg h4,if_neg h7,if_neg h10,if_neg h11,
      if_neg h1,if_neg h2,if_neg h3,if_neg h4,if_neg h7,if_neg h10,if_neg h11]
    rfl

/-- The commands of the warning. -/
def canErrorCommands : List FixedPoint.Command :=
  [.dl (dlColorRgb|||0x00FFFFFF),.fgcolor (DisplayWords.colorRgb 100 0 0),
    .button 300 400 200 50 28 0 "CAN  ERROR".toList]

/-- The two reads before and behind the elements. -/
def levelCommands : List FixedPoint.Command := [.memRead32 regCmdDl,.memRead32 regCmdbSpace]

/-- The commands behind CMD_DLSTART. -/
def listCommands : List FixedPoint.Command :=
  [.dl 0x02000000,.dl (0x26000000|||4|||2|||1)]++(levelCommands++
    ((elements src mem).flatMap Element.commands++(levelCommands++
      ((if src.plcCanLink=0 then canErrorCommands else [])++[.dl 0,.dl 0xFFFFFF01]))))

/-- draw_mnemo issues the commands of the elements in order. -/
theorem drawMnemo_commands :
    (drawMnemo src mem).commands=.dl 0xFFFFFF00::listCommands src mem := by
  have helements : (elements src mem).flatMap Element.commands=
      (List.range (half mem 8).toNat).flatMap fun i =>
        (mnemoDrawElement src mem (elementAddr mem i)).commands := by
    rw [elements,List.filterMap_eq_flatMap_toList,List.flatMap_assoc]
    congr 1
    funext i
    rw [element_commands]
    cases elementOf src mem (elementAddr mem i).toNat with
    | none => rfl
    | some e => exact List.flatMap_singleton ..
  have hcnt : (mnemoGetElementsCnt mem).value=half mem 8 := rfl
  have hcntCommands : (mnemoGetElementsCnt mem).commands=[] := rfl
  rw [listCommands,helements,drawMnemo,levelCommands]
  simp only [Traced.bind_commands,Traced.issue_commands,Traced.loop_commands,hcnt,hcntCommands,
    halfAt_commands,halfAt_value,Nat.add_zero,List.nil_append]
  split
  · simp only [Traced.bind_commands,Traced.issue_commands,List.cons_append,List.nil_append,
      canErrorCommands,elementAddr]
  · simp only [Traced.bind_commands,Traced.issue_commands,List.cons_append,List.nil_append,
      elementAddr]

end

/-! ## Calls of the commands -/

/-- A string in memory of its own. -/
def cstring (bytes : List UInt8) : CString where
  mem i := (bytes.takeWhile (· ≠ 0)).getD i 0
  length := (bytes.takeWhile (· ≠ 0)).length
  ends := List.getD_eq_default _ _ (Nat.le_refl _)
  inside i hi := by
    rw [List.getD_eq_getElem _ _ hi]
    have hmem := List.getElem_mem hi
    exact of_decide_eq_true (List.mem_takeWhile_imp (p := fun b : UInt8 => decide (b≠0)) hmem)

/-- A string without a zero is kept. -/
theorem cstring_bytes {bytes : List UInt8} (h : ∀ b∈bytes,b≠0) : (cstring bytes).bytes=bytes := by
  have hall : bytes.takeWhile (· ≠ 0)=bytes :=
    List.takeWhile_eq_self_iff.mpr fun b hb => decide_eq_true (h b hb)
  have hload : load (fun i => (bytes.takeWhile (· ≠ 0)).getD i 0) 0
      (bytes.takeWhile (· ≠ 0)).length=bytes.takeWhile (· ≠ 0) := by
    refine load_eq_iff.mpr fun k hk => ?_
    rw [Nat.zero_add,List.getD_eq_getElem _ _ hk]
  exact hload.trans hall

/-- A short string without a zero is sent whole. -/
theorem cstring_sent {bytes : List UInt8} (hzero : ∀ b∈bytes,b≠0) (hlen : bytes.length≤249) :
    (cstring bytes).bytes.take 249=bytes := by
  rw [cstring_bytes hzero,List.take_of_length_le hlen]

/-- The call of a function of bt816_cmd.c. -/
def callOf : FixedPoint.Command → Call
  | .dl command => .dl command
  | .setbitmap addr fmt width height => .fixed (.setbitmap addr fmt width height)
  | .setfont2 font ptr firstchar => .fixed (.setfont2 font ptr firstchar)
  | .fgcolor color => .fixed (.fgcolor color)
  | .button xc0 yc0 width height font options text =>
    .string (.button xc0 yc0 width height font options (cstring (charBytes text)))
  | .text xc0 yc0 font options text => .string (.text xc0 yc0 font options (cstring text))
  | .textVar xc0 yc0 font options format arguments =>
    .string (.textVar xc0 yc0 font options (cstring (charBytes format)) arguments.length.toUInt8
      (some fun i => (arguments.getD i 0).toUInt32))
  | .memRead32 addr => .memRead32 addr

/-- The display behind a call. -/
def draw (d : Display) (c : FixedPoint.Command) : Display := (meaning (callOf c)).foldl exec d

/-! ## What a call does to the display -/

section

variable {d : Display}

/-- A word does what the engine does with it. -/
theorem draw_dl (hd : d.ended=false) {w : UInt32} (hw : IsWord w) : draw d (.dl w)=(opOf w).run d :=
  exec_single hw hd

/-- COLOR_RGB sets the color. -/
theorem draw_color (hd : d.ended=false) {rgb : UInt32} (h : rgb.toNat<2^24) :
    draw d (.dl (dlColorRgb|||rgb))={d with color := rgb} := by
  rw [draw_dl hd (isWord_color h),opOf_color h]
  rfl

/-- POINT_SIZE sets the size of the points. -/
theorem draw_pointSize (hd : d.ended=false) (size : UInt32) :
    draw d (.dl (DisplayWords.pointSize size))={d with pointSize := size.toNat%2^13} := by
  rw [draw_dl hd (isWord_pointSize size),opOf_pointSize]
  rfl

/-- VERTEX2F draws at both positions. -/
theorem draw_vertex2f (hd : d.ended=false) (x y : UInt32) :
    draw d (.dl (DisplayWords.vertex2f x y))=d.vertex (signed15 x.toNat) (signed15 y.toNat) := by
  rw [draw_dl hd (isWord_vertex2f x y),opOf_vertex2f]
  rfl

/-- BEGIN of the bitmaps. -/
theorem draw_bitmaps (hd : d.ended=false) :
    draw d (.dl (dlBegin|||1))={d with primitive := some 1,corner := none} := by
  have hop : opOf (dlBegin|||1)=.primitive 1 := by decide
  rw [draw_dl hd (by decide),hop]
  rfl

/-- BEGIN of the points. -/
theorem draw_points (hd : d.ended=false) :
    draw d (.dl (dlBegin|||2))={d with primitive := some 2,corner := none} := by
  have hop : opOf (dlBegin|||2)=.primitive 2 := by decide
  rw [draw_dl hd (by decide),hop]
  rfl

/-- BEGIN of the rectangles. -/
theorem draw_rects (hd : d.ended=false) :
    draw d (.dl (dlBegin|||9))={d with primitive := some 9,corner := none} := by
  have hop : opOf (dlBegin|||9)=.primitive 9 := by decide
  rw [draw_dl hd (by decide),hop]
  rfl

/-- END closes the primitive. -/
theorem draw_end (hd : d.ended=false) :
    draw d (.dl dlEnd)={d with primitive := none,corner := none} := by
  have hop : opOf dlEnd=.noPrimitive := by decide
  rw [draw_dl hd (by decide),hop]
  rfl

/-- CMD_SETBITMAP sets the bitmap of the vertices. -/
theorem draw_setbitmap (hd : d.ended=false) (addr : UInt32) (fmt width height : UInt16) :
    draw d (.setbitmap addr fmt width height)={d with bitmap := ⟨addr,fmt,width,height⟩} :=
  if_pos ⟨rfl,hd⟩

/-- CMD_SETFONT2 gives a font its face. -/
theorem draw_setfont2 (hd : d.ended=false) (font ptr firstchar : UInt32) :
    draw d (.setfont2 font ptr firstchar)=
      {d with fonts := Function.update d.fonts font.toNat (some ⟨ptr,firstchar⟩)} :=
  if_pos ⟨rfl,hd⟩

/-- A text without options. -/
theorem draw_text (hd : d.ended=false) (x y : UInt16) (font : UInt8) {text : List UInt8}
    (hzero : ∀ b∈text,b≠0) (hlen : text.length≤249) :
    draw d (.text x.toInt16 y.toInt16 font.toUInt16.toInt16 0 text)=
      d.draw (.text d.color (d.fonts font.toNat) x y font.toUInt16 0 text []) := by
  have hsent := cstring_sent hzero hlen
  have hmeaning : meaning (callOf (.text x.toInt16 y.toInt16 font.toUInt16.toInt16 0 text))=
      [⟨StringCommands.cmdText,[.pair x y,.pair font.toUInt16 0],text,[]⟩] := by
    rw [callOf,meaning]
    congr 2
  rw [draw,hmeaning,List.foldl_cons,List.foldl_nil]
  exact if_pos ⟨rfl,hd⟩

/-- A value is one text with its parts as arguments. -/
theorem drawValue_commands (x y : UInt16) (font : UInt8) (precision : Precision) (value : Int32) :
    (FixedPoint.drawValue x y font precision value).commands=
      [.textVar x.toInt16 y.toInt16 font.toUInt16.toInt16 FixedPoint.optFormat
        (valueFormat precision) (valueParts value precision)] := by
  cases precision <;> rfl

/-- The formats of values are short strings. -/
theorem valueFormat_sent (precision : Precision) :
    (∀ b∈charBytes (valueFormat precision),b≠0) ∧ (charBytes (valueFormat precision)).length≤249 := by
  have hzero : (charBytes (valueFormat precision)).all (·≠0)=true := by cases precision <;> decide
  constructor
  · intro b hb
    exact of_decide_eq_true (List.all_eq_true.mp hzero b hb)
  · cases precision <;> decide

/-- The call for a value. -/
def valueCall (x y font : Int16) (value : Int32) (precision : Precision) : StringCommands.Call :=
  .textVar x y font FixedPoint.optFormat (cstring (charBytes (valueFormat precision)))
    (valueParts value precision).length.toUInt8
    (some fun i => ((valueParts value precision).getD i 0).toUInt32)

/-- The format and the parts of the value are sent. -/
theorem valueCall_sent (x y font : Int16) (value : Int32) (precision : Precision) :
    (valueCall x y font value precision).sentText=charBytes (valueFormat precision) ∧
      (valueCall x y font value precision).arguments=
        (valueParts value precision).map Int32.toUInt32 := by
  obtain ⟨hzero,hlen⟩ := valueFormat_sent precision
  have hon : FixedPoint.optFormat&&&StringCommands.optFormat≠0 := by decide
  refine ⟨cstring_sent hzero hlen,(if_pos hon).trans ?_⟩
  cases precision <;> rfl

/-- A value as a text. -/
theorem draw_textVar (hd : d.ended=false) (x y : UInt16) (font : UInt8) (value : Int32)
    (precision : Precision) :
    draw d (.textVar x.toInt16 y.toInt16 font.toUInt16.toInt16 FixedPoint.optFormat
        (valueFormat precision) (valueParts value precision))=
      d.draw (.text d.color (d.fonts font.toNat) x y font.toUInt16 FixedPoint.optFormat
        (charBytes (valueFormat precision)) ((valueParts value precision).map Int32.toUInt32)) := by
  obtain ⟨htext,harguments⟩ :=
    valueCall_sent x.toInt16 y.toInt16 font.toUInt16.toInt16 value precision
  have hmeaning : meaning (.string (valueCall x.toInt16 y.toInt16 font.toUInt16.toInt16 value
      precision))=[⟨StringCommands.cmdText,[.pair x y,.pair font.toUInt16 FixedPoint.optFormat],
        charBytes (valueFormat precision),(valueParts value precision).map Int32.toUInt32⟩] := by
    rw [meaning,htext,harguments]
    rfl
  have hrun : draw d (.textVar x.toInt16 y.toInt16 font.toUInt16.toInt16 FixedPoint.optFormat
      (valueFormat precision) (valueParts value precision))=(meaning (.string (valueCall x.toInt16
        y.toInt16 font.toUInt16.toInt16 value precision))).foldl exec d := rfl
  rw [hrun,hmeaning,List.foldl_cons,List.foldl_nil]
  exact if_pos ⟨rfl,hd⟩

/-- The warning. -/
theorem draw_canError (hd : d.ended=false) :
    canErrorCommands.foldl draw d=
      {d with
        color := white
        fgColor := 0x640000
        drawn := d.drawn++[canError d]} := by
  have hfg (d' : Display) : draw d' (.fgcolor (DisplayWords.colorRgb 100 0 0))=
      {d' with fgColor := 0x640000} := rfl
  have hmeaning : meaning (callOf (.button 300 400 200 50 28 0 "CAN  ERROR".toList))=
      [⟨StringCommands.cmdButton,[.pair 300 400,.pair 200 50,.pair 28 0],
        charBytes "CAN  ERROR".toList,[]⟩] := by decide
  rw [canErrorCommands,List.foldl_cons,List.foldl_cons,List.foldl_cons,List.foldl_nil,
    draw_color hd (by decide),hfg,draw,hmeaning,List.foldl_cons,List.foldl_nil]
  exact if_pos ⟨rfl,hd⟩

end

/-! ## Elements one after another -/

/-- The last element sets the color, if it has one. -/
theorem tintAfter_append (els : List Element) (e : Element) :
    tintAfter (els++[e])=e.tint.getD (tintAfter els) := by
  rw [tintAfter,List.filterMap_append,tintAfter]
  cases h : e.tint with
  | none => simp [h]
  | some c => simp [h]

/-- The last element sets the bitmap, if it has one. -/
theorem bitmapAfter_append (d : Display) (els : List Element) (e : Element) :
    bitmapAfter d (els++[e])=e.bitmap.getD (bitmapAfter d els) := by
  rw [bitmapAfter,List.filterMap_append,bitmapAfter]
  cases h : e.bitmap with
  | none => simp [h]
  | some b => simp [h]

/-- Only the fonts set faces. -/
theorem faceAfter_append {d : Display} {els : List Element} {e : Element} (h : e≠.fonts) (n : ℕ) :
    faceAfter d (els++[e]) n=faceAfter d els n := by
  have hmem : Element.fonts∈els++[e] ↔ Element.fonts∈els := by
    rw [List.mem_append,List.mem_singleton]
    exact or_iff_left h.symm
  simp only [faceAfter,hmem]

/-- The display `d` has made of `before` the picture `drawn`, from `d₀` on. -/
structure Shows (d₀ : Display) (before : List Element) (drawn : List Shape) (d : Display) :
    Prop where
  /-- The list goes on. -/
  ended : d.ended=false
  /-- The color is the one that was left. -/
  color : d.color=tintAfter before
  /-- No primitive is open. -/
  primitive : d.primitive=none
  /-- The bitmap is the last one. -/
  bitmap : d.bitmap=bitmapAfter d₀ before
  /-- The fonts are those that are loaded. -/
  fonts : ∀ n,d.fonts n=faceAfter d₀ before n
  /-- The picture. -/
  drawn : d.drawn=drawn

/-- The colors of an element have three bytes, and its text is sent whole. -/
def Element.Sent : Element → Prop
  | .text color _ _ _ bytes => color.toNat<2^24 ∧ (∀ b∈bytes,b≠0) ∧ bytes.length≤249
  | .textVar color .. | .rect color .. | .circle color .. => color.toNat<2^24
  | _ => True

section

variable {d₀ d : Display} {before : List Element} {drawn : List Shape}

/-- An element other than the fonts has set what it sets and drawn its shapes. -/
theorem Shows.element (h : Shows d₀ before drawn d) {e : Element} (he : e≠.fonts) {d' : Display}
    (hended : d'.ended=false) (hcolor : d'.color=e.tint.getD d.color)
    (hprimitive : d'.primitive=none) (hbitmap : d'.bitmap=e.bitmap.getD d.bitmap)
    (hfonts : d'.fonts=d.fonts) (hdrawn : d'.drawn=d.drawn++e.shapes d₀ before) :
    Shows d₀ (before++[e]) (drawn++e.shapes d₀ before) d' := by
  refine ⟨hended,?_,hprimitive,?_,fun n => ?_,?_⟩
  · rw [tintAfter_append,hcolor,h.color]
  · rw [bitmapAfter_append,hbitmap,h.bitmap]
  · rw [faceAfter_append he,hfonts,h.fonts]
  · rw [hdrawn,h.drawn]

/-- A lamp draws its bitmap in white. -/
theorem lamp_run (hd : d.ended=false) (x y : UInt16) (col : UInt8) :
    (Element.lamp x y col).commands.foldl draw d=
      {d with
        color := white
        primitive := none
        corner := none
        bitmap := (Element.lamp x y col).bitmap.getD d.bitmap
        drawn := d.drawn++[.bitmap white ((Element.lamp x y col).bitmap.getD d.bitmap)
          (pixel x.toNat) (pixel y.toNat)]} := by
  have hx : signed15 (x*16).toUInt32.toNat=pixel x.toNat := signed15_congr (by simp; omega)
  have hy : signed15 (y*16).toUInt32.toNat=pixel y.toNat := signed15_congr (by simp; omega)
  have hwhite : white.toNat<2^24 := by decide
  rw [Element.commands,mnemoDrawLampImage,Element.bitmap]
  split
  · simp only [Traced.bind_commands,Traced.issue_commands,List.cons_append,List.nil_append,
      List.foldl_cons,List.foldl_nil,draw_color,draw_setbitmap,draw_bitmaps,bt816Vertex2f_eq,
      draw_vertex2f,draw_end,hwhite,hd,hx,hy,Display.vertex,Display.draw,Option.getD_some]
  · simp only [Traced.bind_commands,Traced.issue_commands,List.cons_append,List.nil_append,
      List.foldl_cons,List.foldl_nil,draw_color,draw_bitmaps,bt816Vertex2f_eq,
      draw_vertex2f,draw_end,hwhite,hd,hx,hy,Display.vertex,Display.draw,Option.getD_none]

/-- An image draws in the color left before it. -/
theorem image_run (hd : d.ended=false) (addr : UInt32) :
    (Element.image addr).commands.foldl draw d=
      {d with
        primitive := none
        corner := none
        bitmap := ⟨0x800000|||(addr/32),37819,800,480⟩
        drawn := d.drawn++[.bitmap d.color ⟨0x800000|||(addr/32),37819,800,480⟩ 0 0]} := by
  have hzero : signed15 (0 : UInt32).toNat=0 := rfl
  rw [Element.commands]
  simp only [List.foldl_cons,List.foldl_nil,draw_setbitmap,draw_bitmaps,draw_vertex2f,draw_end,hd,
    hzero,Display.vertex,Display.draw]

/-- A text draws in its color. -/
theorem text_run (hd : d.ended=false) {color : UInt32} (hcolor : color.toNat<2^24) (x y : UInt16)
    (font : UInt8) {text : List UInt8} (hzero : ∀ b∈text,b≠0) (hlen : text.length≤249) :
    (Element.text color x y font text).commands.foldl draw d=
      {d with
        color := color
        drawn := d.drawn++[.text color (d.fonts font.toNat) x y font.toUInt16 0 text []]} := by
  have htwice : dlColorRgb|||(dlColorRgb|||color)=dlColorRgb|||color := by
    rw [←UInt32.or_assoc,UInt32.or_self]
  rw [Element.commands,List.foldl_cons,List.foldl_cons,List.foldl_nil,htwice,draw_color hd hcolor]
  exact draw_text (d:={d with color := color}) hd x y font hzero hlen

/-- A value draws its text in its color. -/
theorem textVar_run (hd : d.ended=false) {color : UInt32} (hcolor : color.toNat<2^24)
    (x y : UInt16) (font : UInt8) (precision : Precision) (value : Int32) :
    (Element.textVar color x y font precision value).commands.foldl draw d=
      {d with
        color := color
        drawn := d.drawn++[.text color (d.fonts font.toNat) x y font.toUInt16 FixedPoint.optFormat
          (charBytes (valueFormat precision)) ((valueParts value precision).map Int32.toUInt32)]} := by
  rw [Element.commands,drawValue_commands,List.foldl_cons,List.foldl_cons,List.foldl_nil,
    draw_color hd hcolor]
  exact draw_textVar (d:={d with color := color}) hd x y font value precision

/-- A rectangle draws in its color. -/
theorem rect_run (hd : d.ended=false) {color : UInt32} (hcolor : color.toNat<2^24)
    (x y width height : UInt16) :
    (Element.rect color x y width height).commands.foldl draw d=
      {d with
        color := color
        primitive := none
        corner := none
        drawn := d.drawn++[.rect color (pixel x.toNat) (pixel y.toNat)
          (pixel (x.toNat+width.toNat)) (pixel (y.toNat+height.toNat))]} := by
  have hpos (v : UInt16) : signed15 (v.toUInt32*16).toNat=pixel v.toNat :=
    signed15_congr (by simp; omega)
  have hfar (v w : UInt16) : signed15 ((v.toUInt32+w.toUInt32)*16).toNat=pixel (v.toNat+w.toNat) :=
    signed15_congr (by simp; omega)
  rw [Element.commands]
  simp only [List.foldl_cons,List.foldl_nil,draw_color,draw_rects,draw_vertex2f,draw_end,hd,hcolor,
    hpos,hfar,Display.vertex,Display.draw]

/-- A circle draws in its color. -/
theorem circle_run (hd : d.ended=false) {color : UInt32} (hcolor : color.toNat<2^24)
    (x y width : UInt16) :
    (Element.circle color x y width).commands.foldl draw d=
      {d with
        color := color
        pointSize := 8*width.toNat%2^13
        primitive := none
        corner := none
        drawn := d.drawn++[.point color (8*width.toNat%2^13)
          (signed15 (16*x.toNat+8*width.toNat)) (signed15 (16*y.toNat+8*width.toNat))]} := by
  have hsize : (width.toUInt32*8).toNat%2^13=8*width.toNat%2^13 := by
    simp
    omega
  have hcenter (v : UInt16) : signed15 (v.toUInt32*16+width.toUInt32*8).toNat=
      signed15 (16*v.toNat+8*width.toNat) := signed15_congr (by simp; omega)
  rw [Element.commands]
  simp only [List.foldl_cons,List.foldl_nil,draw_color,draw_pointSize,draw_points,draw_vertex2f,
    draw_end,hd,hcolor,hsize,hcenter,Display.vertex,Display.draw]

/-- The fonts set the faces one to four. -/
theorem fonts_run (hd : d.ended=false) :
    Element.fonts.commands.foldl draw d=
      {d with fonts := fun n => if 1≤n ∧ n≤4 then some (cyrFace n) else d.fonts n} := by
  have hfonts : Function.update (Function.update (Function.update (Function.update d.fonts
      1 (some ⟨memFont40+3*1024,0⟩)) 2 (some ⟨memFont40+2*1024,0⟩)) 3 (some ⟨memFont40+1024,0⟩))
      4 (some ⟨memFont40,0⟩)=fun n => if 1≤n ∧ n≤4 then some (cyrFace n) else d.fonts n := by
    funext n
    by_cases h : 1≤n ∧ n≤4
    · obtain rfl|rfl|rfl|rfl : n=1 ∨ n=2 ∨ n=3 ∨ n=4 := by omega
      all_goals rfl
    · have hne : n≠1 ∧ n≠2 ∧ n≠3 ∧ n≠4 := by omega
      simp [hne,h]
  rw [Element.commands,←hfonts]
  simp only [List.foldl_cons,List.foldl_nil,draw_setfont2,hd]
  rfl

/-- An element sets what it sets and draws its shapes. -/
theorem shows_element (h : Shows d₀ before drawn d) {e : Element} (he : e.Sent) :
    Shows d₀ (before++[e]) (drawn++e.shapes d₀ before) (e.commands.foldl draw d) := by
  cases e with
  | lamp x y col =>
    have hdrawn : Element.shapes d₀ before (.lamp x y col)=
        [.bitmap white ((Element.lamp x y col).bitmap.getD d.bitmap) (pixel x.toNat)
          (pixel y.toNat)] := by
      rw [Element.shapes,bitmapAfter_append,h.bitmap]
    rw [lamp_run h.ended]
    exact h.element (e:=.lamp x y col) nofun h.ended rfl rfl rfl rfl (by rw [hdrawn])
  | image addr =>
    rw [image_run h.ended]
    exact h.element (e:=.image addr) nofun h.ended rfl rfl rfl rfl (by rw [Element.shapes,h.color])
  | text color x y font bytes =>
    obtain ⟨hcolor,hzero,hlen⟩ := he
    rw [text_run h.ended hcolor x y font hzero hlen]
    exact h.element (e:=.text color x y font bytes) nofun h.ended rfl h.primitive
      rfl rfl (by rw [Element.shapes,h.fonts])
  | textVar color x y font precision value =>
    rw [textVar_run h.ended he]
    exact h.element (e:=.textVar color x y font precision value) nofun h.ended rfl h.primitive
      rfl rfl (by rw [Element.shapes,h.fonts])
  | rect color x y width height =>
    rw [rect_run h.ended he]
    exact h.element (e:=.rect color x y width height) nofun h.ended rfl rfl rfl rfl rfl
  | circle color x y width =>
    rw [circle_run h.ended he]
    exact h.element (e:=.circle color x y width) nofun h.ended rfl rfl rfl rfl rfl
  | fonts =>
    rw [fonts_run h.ended,Element.shapes,List.append_nil]
    refine ⟨h.ended,?_,h.primitive,?_,fun n => ?_,h.drawn⟩
    · rw [tintAfter_append,h.color]
      rfl
    · rw [bitmapAfter_append,h.bitmap]
      rfl
    · have hmem : Element.fonts∈before++[.fonts] := List.mem_append_right _ (List.mem_singleton_self _)
      dsimp only
      rw [faceAfter]
      by_cases hn : 1≤n ∧ n≤4
      · rw [if_pos hn,if_pos ⟨hmem,hn⟩]
      · rw [if_neg hn,if_neg (fun hall => hn hall.2),h.fonts,faceAfter,
          if_neg (fun hall => hn hall.2)]

/-- Elements one after another. -/
theorem shows_elements {els : List Element} (hels : ∀ e∈els,e.Sent)
    (h : Shows d₀ before drawn d) :
    Shows d₀ (before++els) (drawn++shapesAfter d₀ before els)
      ((els.flatMap Element.commands).foldl draw d) := by
  induction els generalizing before drawn d with
  | nil =>
    rw [List.append_nil,shapesAfter,List.append_nil]
    exact h
  | cons e els ih =>
    obtain ⟨he,hels⟩ := List.forall_mem_cons.mp hels
    have hrest := ih hels (shows_element h he)
    rw [List.append_assoc,List.append_assoc,List.singleton_append] at hrest
    rw [List.flatMap_cons,List.foldl_append]
    exact hrest

end

/-! ## The whole screen -/

section

variable (src : Sources) (mem : Mem UInt8)

/-- A color has three bytes. -/
theorem colorOf_lt (p : ℕ) : (colorOf mem p).toNat<2^24 := by
  have hbyte (b : UInt8) : b.toNat<2^8 := b.toNat_lt
  have hred : ((mem p).toUInt32<<<16).toNat<2^24 := by
    have hb := hbyte (mem p)
    simp [Nat.shiftLeft_eq]
    omega
  have hgreen : ((mem (p+1)).toUInt32<<<8).toNat<2^24 := by
    have hb := hbyte (mem (p+1))
    simp [Nat.shiftLeft_eq]
    omega
  have hblue : (mem (p+2)).toUInt32.toNat<2^24 := (hbyte (mem (p+2))).trans (by decide)
  rw [colorOf,UInt32.toNat_or,UInt32.toNat_or]
  exact Nat.or_lt_two_pow (Nat.or_lt_two_pow hred hgreen) hblue

/-- So has the color of a shape that a bit lights. -/
theorem litColor_lt (p : ℕ) : (litColor src mem p).toNat<2^24 := by
  unfold litColor
  split
  · exact colorOf_lt mem p
  · exact colorOf_lt mem (p+3)

/-- A text fits the buffer of strings and has no zero byte. -/
theorem stringAt_sent (p : ℕ) : (∀ b∈stringAt mem p,b≠0) ∧ (stringAt mem p).length≤249 := by
  constructor
  · intro b hb
    exact of_decide_eq_true (List.mem_takeWhile_imp (p:=fun b : UInt8 => decide (b≠0)) hb)
  · have h := (List.takeWhile_prefix (l:=load mem p 249) (· ≠ 0)).length_le
    rwa [load_length] at h

/-- The elements of a configuration are sent whole. -/
theorem elementOf_sent {p : ℕ} {e : Element} (h : elementOf src mem p=some e) : e.Sent := by
  unfold elementOf at h
  split_ifs at h
  all_goals obtain rfl := Option.some.inj h
  · trivial
  · trivial
  · trivial
  · trivial
  · exact ⟨colorOf_lt mem _,stringAt_sent mem _⟩
  · exact colorOf_lt mem _
  · exact litColor_lt src mem _
  · exact litColor_lt src mem _

/-- The elements of the buffer are as they are sent. -/
theorem elements_sent : ∀ e∈elements src mem,e.Sent := by
  intro e he
  obtain ⟨i,-,hi⟩ := List.mem_filterMap.mp he
  exact elementOf_sent src mem hi

/-- A list that clears the screen. -/
def cleared (d : Display) : Display := {d.start with drawn := [.clear 0]}

/-- The start of the list draws the cleared screen. -/
theorem cleared_run (d : Display) :
    [FixedPoint.Command.dl 0x02000000,.dl (0x26000000|||4|||2|||1)].foldl draw d.start=
      cleared d := by
  have hcolor : opOf 0x02000000=.clearColor 0 := by decide
  have hclear : opOf (0x26000000|||4|||2|||1)=.clear true := by decide
  rw [List.foldl_cons,List.foldl_cons,List.foldl_nil,draw_dl (d:=d.start) rfl (by decide),hcolor,
    draw_dl (d:=Op.run d.start _) rfl (by decide),hclear]
  rfl

/-- Reads do nothing to the display. -/
theorem level_run (d : Display) : levelCommands.foldl draw d=d := rfl

/-- DISPLAY and CMD_SWAP show the picture of the list. -/
theorem shown_run {d : Display} (hd : d.ended=false) :
    ([FixedPoint.Command.dl 0,.dl 0xFFFFFF01].foldl draw d).shown=d.drawn := by
  have hdisplay : opOf 0=.display := by decide
  rw [List.foldl_cons,draw_dl hd (by decide),hdisplay]
  rfl

/-- The picture that draw_mnemo shows, whatever was on the display before. -/
theorem shown_drawMnemo (d : Display) :
    ((drawMnemo src mem).commands.foldl draw d).shown=picture d src mem := by
  have hbegin : Shows d [] [.clear 0] (cleared d) :=
    ⟨rfl,rfl,rfl,rfl,fun n => (if_neg fun h => List.not_mem_nil h.1).symm,rfl⟩
  have hels := shows_elements (elements_sent src mem) hbegin
  have hfont : (((elements src mem).flatMap Element.commands).foldl draw (cleared d)).fonts 28=
      d.fonts 28 := by
    rw [hels.fonts,faceAfter,if_neg (by omega)]
  have hstart : draw d (.dl 0xFFFFFF00)=d.start := rfl
  rw [drawMnemo_commands,List.foldl_cons,hstart,listCommands,List.foldl_append,cleared_run,
    List.foldl_append,level_run,List.foldl_append,List.foldl_append,level_run,List.foldl_append,
    picture]
  split
  · rw [draw_canError hels.ended,shown_run (by exact hels.ended),hels.drawn,canError,hfont]
    rfl
  · rw [List.foldl_nil,shown_run hels.ended,hels.drawn,List.append_nil]
    rfl

end

/-! ## Pictures of their own -/

/-- Elements that stand before the others. -/
def Element.Leads : Element → Prop
  | .image _ | .fonts => True
  | _ => False

/-- Elements behind them, with lamps of known colors, the four fonts and
positions in fifteen bits. -/
def Element.Plain : Element → Prop
  | .lamp x y col => col<5 ∧ x.toNat<2^10 ∧ y.toNat<2^10
  | .image _ | .fonts => False
  | .text _ _ _ font _ | .textVar _ _ _ font _ _ => 1≤font ∧ font≤4
  | .rect _ x y width height => x.toNat+width.toNat<2^10 ∧ y.toNat+height.toNat<2^10
  | .circle _ x y width =>
    2*x.toNat+width.toNat<2^11 ∧ 2*y.toNat+width.toNat<2^11 ∧ width.toNat<2^10

/-- The shape that an element asks for by itself. -/
def Element.own : Element → List Shape
  | .lamp x y col => [.bitmap white ⟨memLamp1-col.toUInt32*(5*1024),6,50,50⟩ (16*x.toNat)
      (16*y.toNat)]
  | .image addr => [.bitmap white ⟨0x800000|||(addr/32),37819,800,480⟩ 0 0]
  | .fonts => []
  | .text color x y font bytes =>
    [.text color (some (cyrFace font.toNat)) x y font.toUInt16 0 bytes []]
  | .textVar color x y font precision value =>
    [.text color (some (cyrFace font.toNat)) x y font.toUInt16 FixedPoint.optFormat
      (charBytes (valueFormat precision)) ((valueParts value precision).map Int32.toUInt32)]
  | .rect color x y width height => [.rect color (16*x.toNat) (16*y.toNat)
      (16*(x.toNat+width.toNat)) (16*(y.toNat+height.toNat))]
  | .circle color x y width => [.point color (8*width.toNat) (16*x.toNat+8*width.toNat)
      (16*y.toNat+8*width.toNat)]

/-- A position below the sign is read as it is. -/
theorem signed15_of_lt {n : ℕ} (h : n<2^14) : signed15 n=n := by
  have hmod : n%2^15=n := Nat.mod_eq_of_lt (by omega)
  rw [signed15,hmod,if_pos h]

/-- A pixel on the screen is sixteen sixteenths. -/
theorem pixel_of_lt {n : ℕ} (h : n<2^10) : pixel n=16*n := by
  rw [pixel,signed15_of_lt (by omega)]
  push_cast
  rfl

/-- The fonts and images in front are drawn by themselves. -/
theorem shapes_leads {d : Display} {before : List Element} (hbefore : ∀ e∈before,e.Leads)
    {e : Element} (he : e.Leads) : e.shapes d before=e.own := by
  have htint : tintAfter before=white := by
    have hnone : before.filterMap Element.tint=[] := by
      refine List.filterMap_eq_nil_iff.mpr fun e he => ?_
      have hlead := hbefore e he
      cases e with
      | image | fonts => rfl
      | _ => exact absurd hlead not_false
    rw [tintAfter,hnone]
    rfl
  cases e with
  | image addr => rw [Element.shapes,Element.own,htint]
  | fonts => rfl
  | _ => exact absurd he not_false

/-- So are plain elements behind the fonts. -/
theorem shapes_plain {d : Display} {before : List Element} (hfonts : Element.fonts∈before)
    {e : Element} (he : e.Plain) : e.shapes d before=e.own := by
  have hface {font : UInt8} (h : 1≤font ∧ font≤4) :
      faceAfter d before font.toNat=some (cyrFace font.toNat) := by
    have h1 := UInt8.le_iff_toNat_le.mp h.1
    have h4 := UInt8.le_iff_toNat_le.mp h.2
    exact if_pos ⟨hfonts,h1,h4⟩
  cases e with
  | lamp x y col =>
    obtain ⟨hcol,hx,hy⟩ := he
    have hgiven : (Element.lamp x y col).bitmap=some ⟨memLamp1-col.toUInt32*(5*1024),6,50,50⟩ :=
      if_pos hcol
    rw [Element.shapes,Element.own,bitmapAfter_append,hgiven,Option.getD_some,pixel_of_lt hx,
      pixel_of_lt hy]
  | image | fonts => exact absurd he not_false
  | text color x y font bytes => rw [Element.shapes,Element.own,hface he]
  | textVar color x y font precision value => rw [Element.shapes,Element.own,hface he]
  | rect color x y width height =>
    obtain ⟨hx,hy⟩ := he
    rw [Element.shapes,Element.own,pixel_of_lt (by omega),pixel_of_lt (by omega),pixel_of_lt hx,
      pixel_of_lt hy]
    push_cast
    rfl
  | circle color x y width =>
    obtain ⟨hx,hy,hwidth⟩ := he
    rw [Element.shapes,Element.own,signed15_of_lt (by omega),signed15_of_lt (by omega),
      Nat.mod_eq_of_lt (by omega)]
    push_cast
    rfl

/-- The elements in front are drawn one by one. -/
theorem shapesAfter_leads (d : Display) {before lead : List Element}
    (hlead : ∀ e∈before++lead,e.Leads) (els : List Element) :
    shapesAfter d before (lead++els)=lead.flatMap Element.own++shapesAfter d (before++lead) els := by
  induction lead generalizing before with
  | nil => rw [List.nil_append,List.append_nil]; rfl
  | cons e lead ih =>
    have hsplit : before++e::lead=before++[e]++lead := by simp
    have he := hlead e (List.mem_append_right _ List.mem_cons_self)
    have hshape := shapes_leads (d:=d) (fun e' he' => hlead e' (List.mem_append_left _ he')) he
    rw [List.cons_append,shapesAfter,hshape,ih (by rwa [←hsplit]),List.flatMap_cons,hsplit,
      List.append_assoc e.own]

/-- So are those behind them. -/
theorem shapesAfter_plain (d : Display) {before els : List Element}
    (hfonts : Element.fonts∈before) (hplain : ∀ e∈els,e.Plain) :
    shapesAfter d before els=els.flatMap Element.own := by
  induction els generalizing before with
  | nil => rfl
  | cons e els ih =>
    obtain ⟨he,hels⟩ := List.forall_mem_cons.mp hplain
    rw [shapesAfter,shapes_plain hfonts he,ih (List.mem_append_left _ hfonts) hels,
      List.flatMap_cons]

end BT816Display.MnemoPicture
