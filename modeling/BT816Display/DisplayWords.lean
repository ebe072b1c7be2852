import BT816Display.Lib.WordFields

/-!
# Display-list words of bt816_cmd.c and of bt816_cmd.h

Every word of the display list that both a builder function of bt816_cmd.c
and a function-like macro of bt816_cmd.h write. A builder masks an argument
at its own width and widens it; a macro masks after the widening. The macro
operands are taken at 32 bits, the width of the literals they are masked by.
-/

namespace BT816Display.DisplayWords

open WordFields

/-! ## Builders -/

/-- The matrix coefficients with a precision flag. -/
def bitmapTransform (res : UInt32) (p : UInt8) (v : UInt32) : UInt32 :=
  let res := if p≠0 then res|||((1 : UInt32)<<<17) else res
  res|||(v&&&0x1FFFF)

/-- bt816_bitmap_transform_a. -/
def bt816BitmapTransformA (p : UInt8) (v : UInt32) : UInt32 := bitmapTransform 0x15000000 p v

/-- bt816_bitmap_transform_b. -/
def bt816BitmapTransformB (p : UInt8) (v : UInt32) : UInt32 := bitmapTransform 0x16000000 p v

/-- bt816_bitmap_transform_c. -/
def bt816BitmapTransformC (v : UInt32) : UInt32 := 0x17000000|||(v&&&0xFFFFFF)

/-- bt816_bitmap_transform_d. -/
def bt816BitmapTransformD (p : UInt8) (v : UInt32) : UInt32 := bitmapTransform 0x18000000 p v

/-- bt816_bitmap_transform_e. -/
def bt816BitmapTransformE (p : UInt8) (v : UInt32) : UInt32 := bitmapTransform 0x19000000 p v

/-- bt816_bitmap_transform_f. -/
def bt816BitmapTransformF (v : UInt32) : UInt32 := 0x1A000000|||(v&&&0xFFFFFF)

/-- bt816_blend_func. -/
def bt816BlendFunc (src dst : UInt8) : UInt32 :=
  let res : UInt32 := 0x0B000000
  res|||((src&&&0x07).toUInt32<<<3)|||(dst&&&0x07).toUInt32

/-- bt816_call. -/
def bt816Call (dest : UInt16) : UInt32 := 0x1D000000|||dest.toUInt32

/-- bt816_cell. -/
def bt816Cell (cell : UInt8) : UInt32 := 0x06000000|||(cell&&&0x7F).toUInt32

/-- bt816_clear. -/
def bt816Clear (color_buf stencil_buf tag_buf : UInt8) : UInt32 :=
  let res : UInt32 := 0x26000000
  let res := if tag_buf≠0 then res|||0x01 else res
  let res := if stencil_buf≠0 then res|||0x02 else res
  if color_buf≠0 then res|||0x04 else res

/-- bt816_clear_color_a. The opcode is the one of CLEAR, not the one of CLEAR_COLOR_A. -/
def bt816ClearColorA (alpha : UInt8) : UInt32 := 0x26000000|||alpha.toUInt32

/-- bt816_clear_color_rgb. Blue takes the place of green here and in bt816_color_rgb. -/
def bt816ClearColorRgb (r g b : UInt8) : UInt32 :=
  let res : UInt32 := 0x02000000
  res|||(r.toUInt32<<<16)|||(b.toUInt32<<<8)|||g.toUInt32

/-- bt816_clear_stencil. -/
def bt816ClearStencil (s : UInt8) : UInt32 := 0x11000000|||s.toUInt32

/-- bt816_clear_tag. -/
def bt816ClearTag (t : UInt8) : UInt32 := 0x12000000|||t.toUInt32

/-- bt816_color_a. -/
def bt816ColorA (alpha : UInt8) : UInt32 := 0x10000000|||alpha.toUInt32

/-- bt816_color_mask. -/
def bt816ColorMask (r g b a : UInt8) : UInt32 :=
  let res : UInt32 := 0x20000000
  let res := if r≠0 then res|||0x08 else res
  let res := if g≠0 then res|||0x04 else res
  let res := if b≠0 then res|||0x02 else res
  if a≠0 then res|||0x01 else res

/-- bt816_color_rgb. -/
def bt816ColorRgb (r g b : UInt8) : UInt32 :=
  let res : UInt32 := 0x04000000
  res|||(r.toUInt32<<<16)|||(b.toUInt32<<<8)|||g.toUInt32

/-- bt816_jump. -/
def bt816Jump (dest : UInt16) : UInt32 := 0x1E000000|||dest.toUInt32

/-- bt816_line_width. -/
def bt816LineWidth (width : UInt16) : UInt32 := 0x0E000000|||(width&&&0x0FFF).toUInt32

/-- bt816_macro. -/
def bt816Macro (m : UInt8) : UInt32 :=
  let res : UInt32 := 0x25000000
  if m≠0 then res|||0x01 else res

/-- bt816_palette_source. -/
def bt816PaletteSource (addr : UInt32) : UInt32 := 0x2A000000|||(addr&&&0x3FFFFF)

/-- bt816_point_size. -/
def bt816PointSize (size : UInt16) : UInt32 := 0x0D000000|||(size&&&0x1FFF).toUInt32

/-- bt816_scissor_size. -/
def bt816ScissorSize (width height : UInt16) : UInt32 :=
  let res : UInt32 := 0x1C000000
  res|||((width&&&0x0FFF).toUInt32<<<12)|||(height&&&0x0FFF).toUInt32

/-- bt816_scissor_xy. -/
def bt816ScissorXy (x y : UInt16) : UInt32 :=
  let res : UInt32 := 0x1B000000
  res|||((x&&&0x07FF).toUInt32<<<11)|||(y&&&0x07FF).toUInt32

/-- bt816_stencil_func. -/
def bt816StencilFunc (func ref mask : UInt8) : UInt32 :=
  let res : UInt32 := 0x0A000000
  res|||((func&&&0x0F).toUInt32<<<16)|||(ref.toUInt32<<<8)|||mask.toUInt32

/-- bt816_stencil_mask. -/
def bt816StencilMask (mask : UInt8) : UInt32 := 0x13000000|||mask.toUInt32

/-- bt816_stencil_op. -/
def bt816StencilOp (sfall spass : UInt8) : UInt32 :=
  let res : UInt32 := 0x0C000000
  res|||((sfall&&&0x07).toUInt32<<<3)|||(spass&&&0x07).toUInt32

/-- bt816_tag. -/
def bt816Tag (s : UInt8) : UInt32 := 0x03000000|||s.toUInt32

/-- bt816_tag_mask. -/
def bt816TagMask (mask : UInt8) : UInt32 :=
  let res : UInt32 := 0x14000000
  if mask≠0 then res|||0x01 else res

/-- bt816_vertex2f. -/
def bt816Vertex2f (x y : UInt16) : UInt32 :=
  let res : UInt32 := 0x40000000
  res|||((x&&&0x7FFF).toUInt32<<<15)|||(y&&&0x7FFF).toUInt32

/-- bt816_vertex2ii. -/
def bt816Vertex2ii (x y : UInt16) (handle cell : UInt8) : UInt32 :=
  let res : UInt32 := 0x80000000
  res|||((x&&&0x1FF).toUInt32<<<21)|||((y&&&0x1FF).toUInt32<<<12)|||
    ((handle&&&0x1F).toUInt32<<<7)|||(cell&&&0x7F).toUInt32

/-- bt816_vertex_format. -/
def bt816VertexFormat (frac : UInt8) : UInt32 := 0x27000000|||(frac&&&0x07).toUInt32

/-- bt816_vertex_translate_x. -/
def bt816VertexTranslateX (x : UInt16) : UInt32 := 0x2B000000|||x.toUInt32

/-- bt816_vertex_translate_y. -/
def bt816VertexTranslateY (y : UInt16) : UInt32 := 0x2C000000|||y.toUInt32

/-! ## Header macros -/

/-- An opcode over one masked operand. -/
def dl (op mask v : UInt32) : UInt32 := op|||(v&&&mask)

/-- An opcode over a field of three bits above one of three bits. -/
def dl3 (op hi lo : UInt32) : UInt32 := op|||((hi&&&7)<<<3)|||(lo&&&7)

/-- An opcode over three bytes. -/
def dlRgb (op red green blue : UInt32) : UInt32 :=
  op|||((red&&&0xFF)<<<16)|||((green&&&0xFF)<<<8)|||(blue&&&0xFF)

/-- The macro BITMAP_TRANSFORM_A. -/
def bitmapTransformA (a : UInt32) : UInt32 := dl 0x15000000 0x1FFFF a

/-- The macro BITMAP_TRANSFORM_B. -/
def bitmapTransformB (b : UInt32) : UInt32 := dl 0x16000000 0x1FFFF b

/-- The macro BITMAP_TRANSFORM_C. -/
def bitmapTransformC (c : UInt32) : UInt32 := dl 0x17000000 0x1FFFF c

/-- The macro BITMAP_TRANSFORM_D. -/
def bitmapTransformD (d : UInt32) : UInt32 := dl 0x18000000 0x1FFFF d

/-- The macro BITMAP_TRANSFORM_E. -/
def bitmapTransformE (e : UInt32) : UInt32 := dl 0x19000000 0x1FFFF e

/-- The macro BITMAP_TRANSFORM_F. -/
def bitmapTransformF (f : UInt32) : UInt32 := dl 0x1A000000 0x1FFFF f

/-- The macro BLEND_FUNC. -/
def blendFunc (src dst : UInt32) : UInt32 := dl3 0x0B000000 src dst

/-- The macro CALL. -/
def call (dest : UInt32) : UInt32 := dl 0x1D000000 0xFFFF dest

/-- The macro CELL. -/
def cell (cell : UInt32) : UInt32 := dl 0x06000000 0x7F cell

/-- The macro CLEAR. -/
def clear (c s t : UInt32) : UInt32 :=
  let op : UInt32 := 0x26000000
  op|||((c&&&1)<<<2)|||((s&&&1)<<<1)|||(t&&&1)

/-- The macro CLEAR_COLOR_A. -/
def clearColorA (alpha : UInt32) : UInt32 := dl 0x0F000000 0xFF alpha

/-- The macro CLEAR_COLOR_RGB. -/
def clearColorRgb (red green blue : UInt32) : UInt32 := dlRgb 0x02000000 red green blue

/-- The macro CLEAR_STENCIL. -/
def clearStencil (s : UInt32) : UInt32 := dl 0x11000000 0xFF s

/-- The macro CLEAR_TAG. -/
def clearTag (s : UInt32) : UInt32 := dl 0x12000000 0xFF s

/-- The macro COLOR_A. -/
def colorA (alpha : UInt32) : UInt32 := dl 0x10000000 0xFF alpha

/-- The macro COLOR_MASK. -/
def colorMask (r g b a : UInt32) : UInt32 :=
  let op : UInt32 := 0x20000000
  op|||((r&&&1)<<<3)|||((g&&&1)<<<2)|||((b&&&1)<<<1)|||(a&&&1)

/-- The macro COLOR_RGB. -/
def colorRgb (red green blue : UInt32) : UInt32 := dlRgb 0x04000000 red green blue

/-- The macro JUMP. -/
def jump (dest : UInt32) : UInt32 := dl 0x1E000000 0xFFFF dest

/-- The macro LINE_WIDTH. -/
def lineWidth (width : UInt32) : UInt32 := dl 0x0E000000 0xFFF width

/-- The macro MACRO. -/
def macroWord (m : UInt32) : UInt32 := dl 0x25000000 1 m

/-- The macro PALETTE_SOURCE. -/
def paletteSource (addr : UInt32) : UInt32 := dl 0x2A000000 0x3FFFFF3 addr

/-- The macro POINT_SIZE. -/
def pointSize (size : UInt32) : UInt32 := dl 0x0D000000 0x1FFF size

/-- The macro SCISSOR_SIZE. -/
def scissorSize (width height : UInt32) : UInt32 :=
  let op : UInt32 := 0x1C000000
  op|||((width&&&0xFFF)<<<12)|||(height&&&0xFFF)

/-- The macro SCISSOR_XY. -/
def scissorXy (x y : UInt32) : UInt32 :=
  let op : UInt32 := 0x1B000000
  op|||((x&&&0x7FF)<<<11)|||(y&&&0x7FF)

/-- The macro STENCIL_FUNC. -/
def stencilFunc (func ref mask : UInt32) : UInt32 :=
  let op : UInt32 := 0x0A000000
  op|||((func&&&7)<<<16)|||((ref&&&0xFF)<<<8)|||(mask&&&0xFF)

/-- The macro STENCIL_MASK. -/
def stencilMask (mask : UInt32) : UInt32 := dl 0x13000000 0xFF mask

/-- The macro STENCIL_OP. -/
def stencilOp (sfail spass : UInt32) : UInt32 := dl3 0x0C000000 sfail spass

/-- The macro TAG. -/
def tag (s : UInt32) : UInt32 := dl 0x03000000 0xFF s

/-- The macro TAG_MASK. -/
def tagMask (mask : UInt32) : UInt32 := dl 0x14000000 1 mask

/-- The macro VERTEX2F. -/
def vertex2f (x y : UInt32) : UInt32 :=
  let op : UInt32 := 0x40000000
  op|||((x&&&0x7FFF)<<<15)|||(y&&&0x7FFF)

/-- The macro VERTEX2II. -/
def vertex2ii (x y handle cell : UInt32) : UInt32 :=
  let op : UInt32 := 0x80000000
  op|||((x&&&0x1FF)<<<21)|||((y&&&0x1FF)<<<12)|||((handle&&&0x1F)<<<7)|||(cell&&&0x7F)

/-- The macro VERTEX_FORMAT. -/
def vertexFormat (frac : UInt32) : UInt32 := dl 0x27000000 7 frac

/-- The macro VERTEX_TRANSLATE_X. -/
def vertexTranslateX (x : UInt32) : UInt32 := dl 0x2B000000 0x1FFFF x

/-- The macro VERTEX_TRANSLATE_Y. -/
def vertexTranslateY (y : UInt32) : UInt32 := dl 0x2C000000 0x1FFFF y

/-! ## The words both encoders write -/

/-- A word of the display list with a builder and a macro, at the widths of
the builder's parameters. -/
inductive DisplayWord where
  | bitmapTransformA (v : UInt32)
  | bitmapTransformB (v : UInt32)
  | bitmapTransformC (v : UInt32)
  | bitmapTransformD (v : UInt32)
  | bitmapTransformE (v : UInt32)
  | bitmapTransformF (v : UInt32)
  | blendFunc (src dst : UInt8)
  | call (dest : UInt16)
  | cell (cell : UInt8)
  | clear (color_buf stencil_buf tag_buf : UInt8)
  | clearColorA (alpha : UInt8)
  | clearColorRgb (r g b : UInt8)
  | clearStencil (s : UInt8)
  | clearTag (t : UInt8)
  | colorA (alpha : UInt8)
  | colorMask (r g b a : UInt8)
  | colorRgb (r g b : UInt8)
  | jump (dest : UInt16)
  | lineWidth (width : UInt16)
  | macroWord (m : UInt8)
  | paletteSource (addr : UInt32)
  | pointSize (size : UInt16)
  | scissorSize (width height : UInt16)
  | scissorXy (x y : UInt16)
  | stencilFunc (func ref mask : UInt8)
  | stencilMask (mask : UInt8)
  | stencilOp (sfall spass : UInt8)
  | tag (s : UInt8)
  | tagMask (mask : UInt8)
  | vertex2f (x y : UInt16)
  | vertex2ii (x y : UInt16) (handle cell : UInt8)
  | vertexFormat (frac : UInt8)
  | vertexTranslateX (x : UInt16)
  | vertexTranslateY (y : UInt16)

/-- The word of the builder function; a matrix coefficient with precision 0. -/
def builderWord : DisplayWord → UInt32
  | .bitmapTransformA v => bt816BitmapTransformA 0 v
  | .bitmapTransformB v => bt816BitmapTransformB 0 v
  | .bitmapTransformC v => bt816BitmapTransformC v
  | .bitmapTransformD v => bt816BitmapTransformD 0 v
  | .bitmapTransformE v => bt816BitmapTransformE 0 v
  | .bitmapTransformF v => bt816BitmapTransformF v
  | .blendFunc src dst => bt816BlendFunc src dst
  | .call dest => bt816Call dest
  | .cell cell => bt816Cell cell
  | .clear c s t => bt816Clear c s t
  | .clearColorA alpha => bt816ClearColorA alpha
  | .clearColorRgb r g b => bt816ClearColorRgb r g b
  | .clearStencil s => bt816ClearStencil s
  | .clearTag t => bt816ClearTag t
  | .colorA alpha => bt816ColorA alpha
  | .colorMask r g b a => bt816ColorMask r g b a
  | .colorRgb r g b => bt816ColorRgb r g b
  | .jump dest => bt816Jump dest
  | .lineWidth width => bt816LineWidth width
  | .macroWord m => bt816Macro m
  | .paletteSource addr => bt816PaletteSource addr
  | .pointSize size => bt816PointSize size
  | .scissorSize width height => bt816ScissorSize width height
  | .scissorXy x y => bt816ScissorXy x y
  | .stencilFunc func ref mask => bt816StencilFunc func ref mask
  | .stencilMask mask => bt816StencilMask mask
  | .stencilOp sfall spass => bt816StencilOp sfall spass
  | .tag s => bt816Tag s
  | .tagMask mask => bt816TagMask mask
  | .vertex2f x y => bt816Vertex2f x y
  | .vertex2ii x y handle cell => bt816Vertex2ii x y handle cell
  | .vertexFormat frac => bt816VertexFormat frac
  | .vertexTranslateX x => bt816VertexTranslateX x
  | .vertexTranslateY y => bt816VertexTranslateY y

/-- The word of the header macro for the same arguments. -/
def headerWord : DisplayWord → UInt32
  | .bitmapTransformA v => bitmapTransformA v
  | .bitmapTransformB v => bitmapTransformB v
  | .bitmapTransformC v => bitmapTransformC v
  | .bitmapTransformD v => bitmapTransformD v
  | .bitmapTransformE v => bitmapTransformE v
  | .bitmapTransformF v => bitmapTransformF v
  | .blendFunc src dst => blendFunc src.toUInt32 dst.toUInt32
  | .call dest => call dest.toUInt32
  | .cell c => cell c.toUInt32
  | .clear c s t => clear c.toUInt32 s.toUInt32 t.toUInt32
  | .clearColorA alpha => clearColorA alpha.toUInt32
  | .clearColorRgb r g b => clearColorRgb r.toUInt32 g.toUInt32 b.toUInt32
  | .clearStencil s => clearStencil s.toUInt32
  | .clearTag t => clearTag t.toUInt32
  | .colorA alpha => colorA alpha.toUInt32
  | .colorMask r g b a => colorMask r.toUInt32 g.toUInt32 b.toUInt32 a.toUInt32
  | .colorRgb r g b => colorRgb r.toUInt32 g.toUInt32 b.toUInt32
  | .jump dest => jump dest.toUInt32
  | .lineWidth width => lineWidth width.toUInt32
  | .macroWord m => macroWord m.toUInt32
  | .paletteSource addr => paletteSource addr
  | .pointSize size => pointSize size.toUInt32
  | .scissorSize width height => scissorSize width.toUInt32 height.toUInt32
  | .scissorXy x y => scissorXy x.toUInt32 y.toUInt32
  | .stencilFunc func ref mask => stencilFunc func.toUInt32 ref.toUInt32 mask.toUInt32
  | .stencilMask mask => stencilMask mask.toUInt32
  | .stencilOp sfall spass => stencilOp sfall.toUInt32 spass.toUInt32
  | .tag s => tag s.toUInt32
  | .tagMask mask => tagMask mask.toUInt32
  | .vertex2f x y => vertex2f x.toUInt32 y.toUInt32
  | .vertex2ii x y handle cell => vertex2ii x.toUInt32 y.toUInt32 handle.toUInt32 cell.toUInt32
  | .vertexFormat frac => vertexFormat frac.toUInt32
  | .vertexTranslateX x => vertexTranslateX x.toUInt32
  | .vertexTranslateY y => vertexTranslateY y.toUInt32

/-- A flag byte that its nonzero test and its lowest bit read alike. -/
def FlagByte (t : UInt8) : Prop := t=0 ∨ t&&&1=1

/-- The arguments on which the two encoders meet. -/
def EncodersMeet : DisplayWord → Prop
  | .bitmapTransformC v => v&&&0xFE0000=0
  | .bitmapTransformF v => v&&&0xFE0000=0
  | .clear c s t => FlagByte c ∧ FlagByte s ∧ FlagByte t
  | .clearColorA _ => False
  | .clearColorRgb _ g b => g=b
  | .colorMask r g b a => FlagByte r ∧ FlagByte g ∧ FlagByte b ∧ FlagByte a
  | .colorRgb _ g b => g=b
  | .macroWord m => FlagByte m
  | .paletteSource addr => addr&&&0x1C0000C=0
  | .stencilFunc func _ _ => func&&&8=0
  | .tagMask mask => FlagByte mask
  | _ => True

/-! ## Flags -/

/-- The word of one flag. -/
def flag (b : Bool) (w : UInt32) : UInt32 := if b then w else 0

/-- Masking the widened byte leaves its lowest bit as a flag. -/
theorem byte_and_one (t : UInt8) : t.toUInt32&&&1=flag (t&&&1=1) 1 := by
  have ht := Nat.mod_two_eq_zero_or_one t.toNat
  have h8 : (t&&&1).toNat=t.toNat%2 := by simp
  have h32 : (t.toUInt32&&&1).toNat=t.toNat%2 := by simp
  have hiff : t&&&1=1 ↔ t.toNat%2=1 := by rw [← UInt8.toNat_inj,h8]; rfl
  apply UInt32.toNat_inj.mp
  rw [h32]
  rcases ht with h | h <;> simp [flag,hiff,h]

/-- A flag byte is one whose two readings agree. -/
theorem flagByte_iff (t : UInt8) : FlagByte t ↔ decide (t≠0)=decide (t&&&1=1) := by
  unfold FlagByte
  by_cases h : t=0
  · simp [h]
  · simp [h,eq_comm]

/-- The builder of CLEAR sets the flags of its nonzero arguments. -/
theorem bt816Clear_eq (c s t : UInt8) :
    bt816Clear c s t=0x26000000|||flag (c≠0) 4|||flag (s≠0) 2|||flag (t≠0) 1 := by
  by_cases hc : c=0 <;> by_cases hs : s=0 <;> by_cases ht : t=0 <;>
    simp [bt816Clear,flag,hc,hs,ht] <;> rfl

/-- The macro CLEAR sets the flags of its odd arguments. -/
theorem clear_eq (c s t : UInt8) :
    clear c.toUInt32 s.toUInt32 t.toUInt32=
      0x26000000|||flag (c&&&1=1) 4|||flag (s&&&1=1) 2|||flag (t&&&1=1) 1 := by
  rw [clear,byte_and_one,byte_and_one,byte_and_one]
  cases decide (c&&&1=1) <;> cases decide (s&&&1=1) <;> cases decide (t&&&1=1) <;> rfl

/-- The builder of COLOR_MASK sets the flags of its nonzero arguments. -/
theorem bt816ColorMask_eq (r g b a : UInt8) :
    bt816ColorMask r g b a=
      0x20000000|||flag (r≠0) 8|||flag (g≠0) 4|||flag (b≠0) 2|||flag (a≠0) 1 := by
  by_cases hr : r=0 <;> by_cases hg : g=0 <;> by_cases hb : b=0 <;> by_cases ha : a=0 <;>
    simp [bt816ColorMask,flag,hr,hg,hb,ha]

/-- The macro COLOR_MASK sets the flags of its odd arguments. -/
theorem colorMask_eq (r g b a : UInt8) :
    colorMask r.toUInt32 g.toUInt32 b.toUInt32 a.toUInt32=
      0x20000000|||flag (r&&&1=1) 8|||flag (g&&&1=1) 4|||flag (b&&&1=1) 2|||flag (a&&&1=1) 1 := by
  rw [colorMask,byte_and_one,byte_and_one,byte_and_one,byte_and_one]
  cases decide (r&&&1=1) <;> cases decide (g&&&1=1) <;> cases decide (b&&&1=1) <;>
    cases decide (a&&&1=1) <;> rfl

/-- The flags of CLEAR can be read off its word. -/
theorem clear_flags_inj : ∀ c s t c' s' t' : Bool,
    (0x26000000 : UInt32)|||flag c 4|||flag s 2|||flag t 1=
        0x26000000|||flag c' 4|||flag s' 2|||flag t' 1 ↔
      c=c' ∧ s=s' ∧ t=t' := by decide

/-- The flags of COLOR_MASK can be read off its word. -/
theorem colorMask_flags_inj : ∀ r g b a r' g' b' a' : Bool,
    (0x20000000 : UInt32)|||flag r 8|||flag g 4|||flag b 2|||flag a 1=
        0x20000000|||flag r' 8|||flag g' 4|||flag b' 2|||flag a' 1 ↔
      r=r' ∧ g=g' ∧ b=b' ∧ a=a' := by decide

/-- One flag under an opcode with the lowest bit clear. -/
theorem opcode_flag_inj (op : UInt32) (h : op.toBitVec.getLsbD 0=false) (t t' : Bool) :
    op|||flag t 1=op|||flag t' 1 ↔ t=t' := by
  constructor
  · intro he
    have hw := congrArg (fun w : UInt32 => w.toBitVec.getLsbD 0) he
    simp only [UInt32.toBitVec_or,BitVec.getLsbD_or,h,Bool.false_or] at hw
    revert hw
    cases t <;> cases t' <;> decide
  · rintro rfl
    rfl

/-! ## Agreement -/

/-- The two words of a colour differ only in the order of green and blue. -/
theorem rgb_swap_iff (op : UInt32) (r g b : UInt8) (h : op.toUInt8=0) :
    op|||(r.toUInt32<<<16)|||(b.toUInt32<<<8)|||g.toUInt32=
      dlRgb op r.toUInt32 g.toUInt32 b.toUInt32 ↔ g=b := by
  have hz : ∀ x : UInt8,(x.toUInt32<<<16).toUInt8=0 ∧ (x.toUInt32<<<8).toUInt8=0 := by
    intro x
    have hx := x.toNat_lt
    constructor
    · apply UInt8.toNat_inj.mp
      simp [Nat.shiftLeft_eq]
      omega
    · apply UInt8.toNat_inj.mp
      simp [Nat.shiftLeft_eq]
  simp only [dlRgb,byte_and_mask]
  constructor
  · intro he
    have hl := congrArg UInt32.toUInt8 he
    simpa [h,hz] using hl
  · rintro rfl
    rfl

/-- The mask 15 keeps what the mask 7 keeps and bit 3. -/
theorem and_fifteen (t : UInt8) : t&&&15=(t&&&7)|||(t&&&8) :=
  UInt8.toBitVec_inj.mp (BitVec.and_or_distrib_left (x:=t.toBitVec) (y:=7) (z:=8))

/-- A clear bit 3 is a zero under its mask. -/
theorem and_eight_eq_zero (t : UInt8) (h : t.toBitVec.getLsbD 3=false) : t&&&8=0 := by
  have ht := BitVec.and_twoPow t.toBitVec 3
  rw [h,if_neg (by decide)] at ht
  exact UInt8.toBitVec_inj.mp ht

/-- The two masks of the function of STENCIL_FUNC differ in bit 3. -/
theorem stencilFunc_iff (func ref mask : UInt8) :
    bt816StencilFunc func ref mask=stencilFunc func.toUInt32 ref.toUInt32 mask.toUInt32 ↔
      func&&&8=0 := by
  constructor
  · intro he
    have hb := congrArg (fun w : UInt32 => w.toBitVec.getLsbD 19) he
    simp [bt816StencilFunc,stencilFunc] at hb
    exact and_eight_eq_zero func hb
  · intro h0
    have hf : func&&&15=func&&&7 := by rw [and_fifteen,h0,UInt8.or_zero]
    simp [bt816StencilFunc,stencilFunc,hf]

/-- The two masks of a coefficient with no precision flag differ in bits 17 to 23. -/
theorem wide_mask_iff (op v : UInt32) (h : (0xFFFFFF^^^0x1FFFF)&&&~~~op=0xFE0000) :
    op|||(v&&&0xFFFFFF)=dl op 0x1FFFF v ↔ v&&&0xFE0000=0 := by
  rw [dl,or_and_inj,h]

/-- The two masks of the palette address differ in bits 2, 3 and 22 to 24; bit
25 is set by the opcode. -/
theorem paletteSource_iff (addr : UInt32) :
    bt816PaletteSource addr=paletteSource addr ↔ addr&&&0x1C0000C=0 := by
  have h : ((0x3FFFFF^^^0x3FFFFF3)&&&~~~0x2A000000 : UInt32)=0x1C0000C := rfl
  rw [bt816PaletteSource,paletteSource,dl,or_and_inj,h]

/-- The words of CLEAR agree exactly when each argument is a flag. -/
theorem clear_iff (c s t : UInt8) :
    bt816Clear c s t=clear c.toUInt32 s.toUInt32 t.toUInt32 ↔
      FlagByte c ∧ FlagByte s ∧ FlagByte t := by
  rw [bt816Clear_eq,clear_eq,clear_flags_inj,flagByte_iff,flagByte_iff,flagByte_iff]

/-- The words of COLOR_MASK agree exactly when each argument is a flag. -/
theorem colorMask_iff (r g b a : UInt8) :
    bt816ColorMask r g b a=colorMask r.toUInt32 g.toUInt32 b.toUInt32 a.toUInt32 ↔
      FlagByte r ∧ FlagByte g ∧ FlagByte b ∧ FlagByte a := by
  rw [bt816ColorMask_eq,colorMask_eq,colorMask_flags_inj,flagByte_iff,flagByte_iff,flagByte_iff,
    flagByte_iff]

/-- The words of one flag agree exactly when the argument is a flag. -/
theorem flag_word_iff (op : UInt32) (h : op.toBitVec.getLsbD 0=false) (t : UInt8) :
    (if t≠0 then op|||0x01 else op)=dl op 1 t.toUInt32 ↔ FlagByte t := by
  have hb : (if t≠0 then op|||0x01 else op)=op|||flag (t≠0) 1 := by
    by_cases ht : t=0 <;> simp [flag,ht]
  rw [hb,dl,byte_and_one,opcode_flag_inj op h,flagByte_iff]

/-- No word of CLEAR_COLOR_A is written with the opcode of CLEAR. -/
theorem bt816ClearColorA_ne (alpha : UInt8) : bt816ClearColorA alpha≠clearColorA alpha.toUInt32 := by
  intro h
  have hb := congrArg (fun w : UInt32 => w.toBitVec.getLsbD 29) h
  simp [bt816ClearColorA,clearColorA,dl] at hb

/-- A builder and its macro write the same word exactly on the arguments of `EncodersMeet`. -/
theorem builderWord_eq_headerWord_iff (w : DisplayWord) :
    builderWord w=headerWord w ↔ EncodersMeet w := by
  cases w with
  | bitmapTransformC v => exact wide_mask_iff _ v rfl
  | bitmapTransformF v => exact wide_mask_iff _ v rfl
  | clear c s t => exact clear_iff c s t
  | clearColorA alpha => exact iff_false_intro (bt816ClearColorA_ne alpha)
  | clearColorRgb r g b => exact rgb_swap_iff _ r g b rfl
  | colorMask r g b a => exact colorMask_iff r g b a
  | colorRgb r g b => exact rgb_swap_iff _ r g b rfl
  | macroWord m => exact flag_word_iff _ rfl m
  | bitmapTransformA v | bitmapTransformB v | bitmapTransformD v | bitmapTransformE v =>
    exact iff_true_intro rfl
  | paletteSource addr => exact paletteSource_iff addr
  | stencilFunc func ref mask => exact stencilFunc_iff func ref mask
  | tagMask mask => exact flag_word_iff _ rfl mask
  -- The remaining builders mask before they widen what the macro masks after it.
  | blendFunc | stencilOp =>
    simp [builderWord,headerWord,EncodersMeet,bt816BlendFunc,blendFunc,bt816StencilOp,stencilOp,dl3]
  | call | jump | vertexTranslateX | vertexTranslateY =>
    simp [builderWord,headerWord,EncodersMeet,bt816Call,call,bt816Jump,jump,dl,
      bt816VertexTranslateX,vertexTranslateX,bt816VertexTranslateY,vertexTranslateY]
  | clearStencil | clearTag | colorA | stencilMask | tag =>
    simp [builderWord,headerWord,EncodersMeet,bt816ClearStencil,clearStencil,bt816ClearTag,clearTag,
      bt816ColorA,colorA,bt816StencilMask,stencilMask,bt816Tag,tag,dl]
  | cell | lineWidth | pointSize | vertexFormat =>
    simp [builderWord,headerWord,EncodersMeet,bt816Cell,cell,bt816LineWidth,lineWidth,dl,
      bt816PointSize,pointSize,bt816VertexFormat,vertexFormat]
  | scissorSize | scissorXy | vertex2f | vertex2ii =>
    simp [builderWord,headerWord,EncodersMeet,bt816ScissorSize,scissorSize,bt816ScissorXy,scissorXy,
      bt816Vertex2f,vertex2f,bt816Vertex2ii,vertex2ii]

/-- CLEAR_COLOR_A of alpha 0 and its builder are two words. -/
theorem not_builderWord_eq_headerWord : ¬∀ w,builderWord w=headerWord w :=
  fun h => absurd (h (.clearColorA 0)) (by decide)

end BT816Display.DisplayWords
