import BT816Display.CommandStream
import BT816Display.DisplayWords

/-!
# Pictures of display lists

The co-processor makes a display list of the words and commands in its buffer,
and CMD_SWAP shows it. A word sets the state of the graphics engine or draws
with it. The chip is not part of the program. What it does with the words and
widgets that mnemo.c sends is assumed of it here, as long as its display list
has room for them.
-/

namespace BT816Display.DisplayList

open WordFields CommandSet CommandReader
open StringCommands (cmdText cmdButton)

/-! ## Words of the display list -/

/-- A word of the display list. -/
inductive Op where
  /-- DISPLAY. -/
  | display
  /-- CLEAR_COLOR_RGB. -/
  | clearColor (rgb : UInt32)
  /-- CLEAR, with the flag of the color buffer. -/
  | clear (colorBuf : Bool)
  /-- COLOR_RGB. -/
  | color (rgb : UInt32)
  /-- POINT_SIZE. -/
  | pointSize (size : ℕ)
  /-- BEGIN. -/
  | primitive (prim : ℕ)
  /-- END. -/
  | noPrimitive
  /-- VERTEX2F, in sixteenths of a pixel. -/
  | vertex (x y : ℤ)
  /-- A word that is not executed here. -/
  | other
  deriving DecidableEq

/-- The lowest fifteen bits with their sign. -/
def signed15 (n : ℕ) : ℤ := if n%2^15<2^14 then (n%2^15 : ℕ) else (n%2^15 : ℕ)-2^15

/-- A word as the graphics engine reads it. -/
def opOf (w : UInt32) : Op :=
  if w.toNat/2^30=1 then .vertex (signed15 (w.toNat/2^15)) (signed15 w.toNat)
  else match w.toNat/2^24 with
    | 0x00 => .display
    | 0x02 => .clearColor (w&&&0xFFFFFF)
    | 0x04 => .color (w&&&0xFFFFFF)
    | 0x0D => .pointSize (w.toNat%2^13)
    | 0x1F => .primitive (w.toNat%2^4)
    | 0x21 => .noPrimitive
    | 0x26 => .clear (decide (w&&&4≠0))
    | _ => .other

/-! ## Pictures -/

/-- A bitmap as CMD_SETBITMAP gives it. -/
structure Bitmap where
  /-- Its address. -/
  addr : UInt32
  /-- Its format. -/
  format : UInt16
  /-- Its width. -/
  width : UInt16
  /-- Its height. -/
  height : UInt16
  deriving DecidableEq

/-- A font as CMD_SETFONT2 gives it. -/
structure Face where
  /-- Its address. -/
  ptr : UInt32
  /-- The first character. -/
  firstchar : UInt32
  deriving DecidableEq

/-- A part of a picture, the positions of bitmaps, points and rectangles in
sixteenths of a pixel. -/
inductive Shape where
  /-- The whole screen in a color. -/
  | clear (color : UInt32)
  /-- A bitmap under a color. -/
  | bitmap (color : UInt32) (source : Bitmap) (x y : ℤ)
  /-- A disc. -/
  | point (color : UInt32) (size : ℕ) (x y : ℤ)
  /-- A rectangle with two corners. -/
  | rect (color : UInt32) (x0 y0 x1 y1 : ℤ)
  /-- A text, with the face that its font has. -/
  | text (color : UInt32) (face : Option Face) (x y font options : UInt16) (text : List UInt8)
      (arguments : List UInt32)
  /-- A button with the color of its text and that of its area. -/
  | button (color fgColor : UInt32) (face : Option Face) (x y width height font options : UInt16)
      (text : List UInt8)
  deriving DecidableEq

/-- The display: the state of the engine at the end of the list that is being
made, its picture, and the picture that is shown. -/
structure Display where
  /-- Behind DISPLAY. -/
  ended : Bool
  /-- CLEAR_COLOR_RGB. -/
  clearColor : UInt32
  /-- COLOR_RGB. -/
  color : UInt32
  /-- POINT_SIZE. -/
  pointSize : ℕ
  /-- The primitive of BEGIN. -/
  primitive : Option ℕ
  /-- The first corner of a rectangle. -/
  corner : Option (ℤ×ℤ)
  /-- The bitmap that vertices draw. -/
  bitmap : Bitmap
  /-- The faces of the fonts. -/
  fonts : ℕ → Option Face
  /-- The color of the area of widgets. -/
  fgColor : UInt32
  /-- The picture of the list. -/
  drawn : List Shape
  /-- The picture that is shown. -/
  shown : List Shape

/-- A shape on top of those drawn. -/
def Display.draw (d : Display) (s : Shape) : Display := {d with drawn := d.drawn++[s]}

/-- A vertex of the primitive. -/
def Display.vertex (d : Display) (x y : ℤ) : Display :=
  match d.primitive,d.corner with
  | some 1,_ => d.draw (.bitmap d.color d.bitmap x y)
  | some 2,_ => d.draw (.point d.color d.pointSize x y)
  | some 9,none => {d with corner := some (x,y)}
  | some 9,some (x0,y0) => {d.draw (.rect d.color x0 y0 x y) with corner := none}
  | _,_ => d

/-- Execute a word. -/
def Op.run (d : Display) : Op → Display
  | .display => {d with ended := true}
  | .clearColor rgb => {d with clearColor := rgb}
  | .clear colorBuf => if colorBuf=true then d.draw (.clear d.clearColor) else d
  | .color rgb => {d with color := rgb}
  | .pointSize size => {d with pointSize := size}
  | .primitive prim => {d with primitive := some prim,corner := none}
  | .noPrimitive => {d with primitive := none,corner := none}
  | .vertex x y => d.vertex x y
  | .other => d

/-- CMD_DLSTART: an empty list and the engine's defaults. Bitmaps and fonts stay. -/
def Display.start (d : Display) : Display :=
  {d with
    ended := false
    clearColor := 0
    color := 0xFFFFFF
    pointSize := 16
    primitive := none
    corner := none
    drawn := []}

/-- What a command does; behind DISPLAY the list draws nothing. -/
def exec (d : Display) (c : Command) : Display :=
  match c.args with
  | [] =>
    if c.code=0xFFFFFF00 then d.start
    else if c.code=0xFFFFFF01 then {d with shown := d.drawn}
    else if d.ended=true then d
    else (opOf c.code).run d
  | [.word w] => if c.code=cmdFgcolor then {d with fgColor := w} else d
  | [.word addr,.pair format width,.pair height _] =>
    if c.code=cmdSetbitmap ∧ d.ended=false then {d with bitmap := ⟨addr,format,width,height⟩} else d
  | [.word font,.word ptr,.word firstchar] =>
    if c.code=cmdSetfont2 ∧ d.ended=false then
      {d with fonts := Function.update d.fonts font.toNat (some ⟨ptr,firstchar⟩)}
    else d
  | [.pair x y,.pair font options] =>
    if c.code=cmdText ∧ d.ended=false then
      d.draw (.text d.color (d.fonts font.toNat) x y font options c.data c.arguments)
    else d
  | [.pair x y,.pair width height,.pair font options] =>
    if c.code=cmdButton ∧ d.ended=false then
      d.draw (.button d.color d.fgColor (d.fonts font.toNat) x y width height font options c.data)
    else d
  | _ => d

/-! ## Co-processors -/

/-- RAM_DL_SIZE. -/
abbrev ramDlSize : ℕ := 8*1024

/-- CMD_DLSTART. -/
abbrev dlstart : Command := .single 0xFFFFFF00

/-- The commands that `exec` describes. -/
def Known (c : Command) : Prop :=
  match c.args with
  | [] => c.code=0xFFFFFF00 ∨ c.code=0xFFFFFF01 ∨ (c.code<0xFFFFFF00 ∧ opOf c.code≠.other)
  | [.word _] => c.code=cmdFgcolor
  | [.word _,.pair _ _,.pair _ _] => c.code=cmdSetbitmap
  | [.word _,.word _,.word _] => c.code=cmdSetfont2
  | [.pair _ _,.pair _ _] => c.code=cmdText
  | [.pair _ _,.pair _ _,.pair _ _] => c.code=cmdButton
  | _ => False

/-- A co-processor with what is assumed of it. Nothing is when its display list
runs over. -/
structure Coprocessor (σ : Type) where
  /-- Execute a command. -/
  exec : σ → Command → σ
  /-- The display. -/
  display : σ → Display
  /-- The bytes of the list that is being made, which REG_CMD_DL counts. -/
  used : σ → ℕ
  /-- The bytes that a command takes in the list. -/
  size : Command → ℕ
  /-- CMD_DLSTART begins an empty list. -/
  start : ∀ s,used s≤ramDlSize →
    used (exec s dlstart)=0 ∧ display (exec s dlstart)=(display s).start
  /-- A command that is described does as described in a list with room for it,
  and takes its bytes. -/
  run : ∀ s c,Known c → c≠dlstart → used s+size c≤ramDlSize →
    used (exec s c)=used s+size c ∧ display (exec s c)=DisplayList.exec (display s) c

namespace Coprocessor

variable {σ : Type} (C : Coprocessor σ)

/-- The bytes that commands take. -/
def bytes (cs : List Command) : ℕ := (cs.map C.size).sum

/-- Commands for which the list has room do what they are described to do. -/
theorem display_run {cs : List Command} (hknown : ∀ c∈cs,Known c ∧ c≠dlstart) {s : σ}
    (hroom : C.used s+C.bytes cs≤ramDlSize) :
    C.display (cs.foldl C.exec s)=cs.foldl DisplayList.exec (C.display s) := by
  induction cs generalizing s with
  | nil => rfl
  | cons c cs ih =>
    obtain ⟨⟨hc,hne⟩,hcs⟩ := List.forall_mem_cons.mp hknown
    rw [bytes,List.map_cons,List.sum_cons,←bytes] at hroom
    obtain ⟨hused,hdisplay⟩ := C.run s c hc hne (by omega)
    rw [List.foldl_cons,List.foldl_cons,ih hcs (by omega),hdisplay]

/-- So do those of a whole list. -/
theorem display_list {cs : List Command} (hknown : ∀ c∈cs,Known c ∧ c≠dlstart) {s : σ}
    (hs : C.used s≤ramDlSize) (hroom : C.bytes cs≤ramDlSize) :
    C.display ((dlstart::cs).foldl C.exec s)=
      (dlstart::cs).foldl DisplayList.exec (C.display s) := by
  obtain ⟨hused,hdisplay⟩ := C.start s hs
  rw [List.foldl_cons,List.foldl_cons,C.display_run hknown (by omega),hdisplay]
  rfl

end Coprocessor

/-! ## Words as they are written -/

/-- The word of COLOR_RGB. -/
theorem color_toNat {rgb : UInt32} (h : rgb.toNat<2^24) :
    (0x04000000|||rgb).toNat=4*2^24+rgb.toNat :=
  toNat_or_of_lt 24 (by decide) h

/-- The word of POINT_SIZE. -/
theorem pointSize_toNat (size : UInt32) :
    (DisplayWords.pointSize size).toNat=13*2^24+size.toNat%2^13 := by
  have hfield := toNat_and_mask (x:=size) (m:=0x1FFF) 13 rfl
  have hlt := Nat.mod_lt size.toNat (Nat.two_pow_pos 13)
  rw [DisplayWords.pointSize,DisplayWords.dl,toNat_or_of_lt 24 (by decide) (by omega),hfield]
  rfl

/-- The word of VERTEX2F. -/
theorem vertex2f_toNat (x y : UInt32) :
    (DisplayWords.vertex2f x y).toNat=2^30+x.toNat%2^15*2^15+y.toNat%2^15 := by
  have hx := toNat_and_mask (x:=x) (m:=0x7FFF) 15 rfl
  have hy := toNat_and_mask (x:=y) (m:=0x7FFF) 15 rfl
  have hxlt := Nat.mod_lt x.toNat (Nat.two_pow_pos 15)
  have hylt := Nat.mod_lt y.toNat (Nat.two_pow_pos 15)
  have hhigh : ((x&&&0x7FFF)<<<15).toNat=x.toNat%2^15*2^15 := by
    have h15 : (15 : UInt32).toNat%32=15 := rfl
    rw [UInt32.toNat_shiftLeft,hx,h15,Nat.shiftLeft_eq]
    omega
  have hop : (0x40000000 : UInt32).toNat=2^30 := rfl
  have hfirst : ((0x40000000 : UInt32)|||((x&&&0x7FFF)<<<15)).toNat=2^30+x.toNat%2^15*2^15 := by
    rw [toNat_or_of_lt 30 (by decide) (by omega),hhigh,hop]
  rw [DisplayWords.vertex2f,toNat_or_of_lt 15 (by omega) (by omega),hfirst,hy]

/-- COLOR_RGB. -/
theorem opOf_color {rgb : UInt32} (h : rgb.toNat<2^24) : opOf (0x04000000|||rgb)=.color rgb := by
  have hword := color_toNat h
  have hclass : ¬(0x04000000|||rgb).toNat/2^30=1 := by omega
  have hcode : (0x04000000|||rgb).toNat/2^24=4 := by omega
  have hoperand : (0x04000000|||rgb)&&&0xFFFFFF=rgb := by
    apply UInt32.toNat_inj.mp
    rw [toNat_and_mask 24 rfl,hword]
    omega
  rw [opOf,if_neg hclass,hcode]
  exact congrArg Op.color hoperand

/-- POINT_SIZE. -/
theorem opOf_pointSize (size : UInt32) :
    opOf (DisplayWords.pointSize size)=.pointSize (size.toNat%2^13) := by
  have hword := pointSize_toNat size
  have hlt := Nat.mod_lt size.toNat (Nat.two_pow_pos 13)
  have hclass : ¬(DisplayWords.pointSize size).toNat/2^30=1 := by omega
  have hcode : (DisplayWords.pointSize size).toNat/2^24=13 := by omega
  rw [opOf,if_neg hclass,hcode]
  exact congrArg Op.pointSize (by omega)

/-- The lowest fifteen bits are all that is read. -/
theorem signed15_congr {m n : ℕ} (h : m%2^15=n%2^15) : signed15 m=signed15 n := by
  rw [signed15,signed15,h]

/-- VERTEX2F. -/
theorem opOf_vertex2f (x y : UInt32) :
    opOf (DisplayWords.vertex2f x y)=.vertex (signed15 x.toNat) (signed15 y.toNat) := by
  have hword := vertex2f_toNat x y
  have hclass : (DisplayWords.vertex2f x y).toNat/2^30=1 := by omega
  have hx : signed15 ((DisplayWords.vertex2f x y).toNat/2^15)=signed15 x.toNat :=
    signed15_congr (by omega)
  have hy : signed15 (DisplayWords.vertex2f x y).toNat=signed15 y.toNat :=
    signed15_congr (by omega)
  rw [opOf,if_pos hclass,hx,hy]

/-- The builder of VERTEX2F writes the word of the macro. -/
theorem bt816Vertex2f_eq (x y : UInt16) :
    DisplayWords.bt816Vertex2f x y=DisplayWords.vertex2f x.toUInt32 y.toUInt32 := by
  simp [DisplayWords.bt816Vertex2f,DisplayWords.vertex2f]

/-! ## Words executed -/

/-- The words of the display list are below the codes. -/
def IsWord (w : UInt32) : Prop := w<0xFFFFFF00

instance (w : UInt32) : Decidable (IsWord w) := inferInstanceAs (Decidable (_<_))

theorem isWord_of_toNat {w : UInt32} (h : w.toNat<2^31) : IsWord w := by
  have hcode : (0xFFFFFF00 : UInt32).toNat=4294967040 := rfl
  rw [IsWord,UInt32.lt_iff_toNat_lt]
  omega

theorem isWord_color {rgb : UInt32} (h : rgb.toNat<2^24) : IsWord (0x04000000|||rgb) := by
  have hword := color_toNat h
  exact isWord_of_toNat (by omega)

theorem isWord_pointSize (size : UInt32) : IsWord (DisplayWords.pointSize size) := by
  have hword := pointSize_toNat size
  exact isWord_of_toNat (by omega)

theorem isWord_vertex2f (x y : UInt32) : IsWord (DisplayWords.vertex2f x y) := by
  have hword := vertex2f_toNat x y
  exact isWord_of_toNat (by omega)

/-- A word of the display list is executed. -/
theorem exec_single {d : Display} {w : UInt32} (hw : IsWord w) (hd : d.ended=false) :
    exec d (.single w)=(opOf w).run d := by
  have hstart : ¬w=0xFFFFFF00 := UInt32.ne_of_lt hw
  have hswap : ¬w=0xFFFFFF01 := UInt32.ne_of_lt (UInt32.lt_trans hw (by decide))
  have hopen : ¬d.ended=true := by
    rw [hd]
    exact Bool.false_ne_true
  unfold exec Command.single
  dsimp only
  rw [if_neg hstart,if_neg hswap,if_neg hopen]

end BT816Display.DisplayList
