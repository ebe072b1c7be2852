import BT816Display.StringCommands

/-!
# Commands of fixed length in bt816_cmd.c

Most functions of bt816_cmd.c send a command word and parameters in one
session of the port. The functions with results send zeros for the
co-processor to put them in, and read them back from the command buffer in
sessions of their own. Each function is what it sends and reads.
-/

namespace BT816Display.CommandSet

open ByteMemory WireWords Bt816Spi Bt816Cmd StringCommands

/-- CMD_INTERRUPT. -/
abbrev cmdInterrupt : UInt32 := 0xFFFFFF02

/-- CMD_BGCOLOR. -/
abbrev cmdBgcolor : UInt32 := 0xFFFFFF09

/-- CMD_FGCOLOR. -/
abbrev cmdFgcolor : UInt32 := 0xFFFFFF0A

/-- CMD_GRADIENT. -/
abbrev cmdGradient : UInt32 := 0xFFFFFF0B

/-- CMD_PROGRESS. -/
abbrev cmdProgress : UInt32 := 0xFFFFFF0F

/-- CMD_SLIDER. -/
abbrev cmdSlider : UInt32 := 0xFFFFFF10

/-- CMD_SCROLLBAR. -/
abbrev cmdScrollbar : UInt32 := 0xFFFFFF11

/-- CMD_GAUGE. -/
abbrev cmdGauge : UInt32 := 0xFFFFFF13

/-- CMD_CLOCK. -/
abbrev cmdClock : UInt32 := 0xFFFFFF14

/-- CMD_SPINNER. -/
abbrev cmdSpinner : UInt32 := 0xFFFFFF16

/-- CMD_MEMCRC. -/
abbrev cmdMemcrc : UInt32 := 0xFFFFFF18

/-- CMD_REGREAD. -/
abbrev cmdRegread : UInt32 := 0xFFFFFF19

/-- CMD_MEMSET. -/
abbrev cmdMemset : UInt32 := 0xFFFFFF1B

/-- CMD_MEMZERO. -/
abbrev cmdMemzero : UInt32 := 0xFFFFFF1C

/-- CMD_MEMCPY. -/
abbrev cmdMemcpy : UInt32 := 0xFFFFFF1D

/-- CMD_APPEND. -/
abbrev cmdAppend : UInt32 := 0xFFFFFF1E

/-- CMD_SNAPSHOT. -/
abbrev cmdSnapshot : UInt32 := 0xFFFFFF1F

/-- CMD_BITMAP_TRANSFORM. -/
abbrev cmdBitmapTransform : UInt32 := 0xFFFFFF21

/-- CMD_INFLATE. -/
abbrev cmdInflate : UInt32 := 0xFFFFFF22

/-- CMD_GETPTR. -/
abbrev cmdGetptr : UInt32 := 0xFFFFFF23

/-- CMD_LOADIMAGE. -/
abbrev cmdLoadimage : UInt32 := 0xFFFFFF24

/-- CMD_GETPROPS. -/
abbrev cmdGetprops : UInt32 := 0xFFFFFF25

/-- CMD_TRANSLATE. -/
abbrev cmdTranslate : UInt32 := 0xFFFFFF27

/-- CMD_SCALE. -/
abbrev cmdScale : UInt32 := 0xFFFFFF28

/-- CMD_ROTATE. -/
abbrev cmdRotate : UInt32 := 0xFFFFFF29

/-- CMD_SETFONT. -/
abbrev cmdSetfont : UInt32 := 0xFFFFFF2B

/-- CMD_TRACK. -/
abbrev cmdTrack : UInt32 := 0xFFFFFF2C

/-- CMD_DIAL. -/
abbrev cmdDial : UInt32 := 0xFFFFFF2D

/-- CMD_NUMBER. -/
abbrev cmdNumber : UInt32 := 0xFFFFFF2E

/-- CMD_SKETCH. -/
abbrev cmdSketch : UInt32 := 0xFFFFFF30

/-- CMD_GETMATRIX. -/
abbrev cmdGetmatrix : UInt32 := 0xFFFFFF33

/-- CMD_GRADCOLOR. -/
abbrev cmdGradcolor : UInt32 := 0xFFFFFF34

/-- CMD_SETROTATE. -/
abbrev cmdSetrotate : UInt32 := 0xFFFFFF36

/-- CMD_SNAPSHOT2. -/
abbrev cmdSnapshot2 : UInt32 := 0xFFFFFF37

/-- CMD_SETBASE. -/
abbrev cmdSetbase : UInt32 := 0xFFFFFF38

/-- CMD_MEDIAFIFO. -/
abbrev cmdMediafifo : UInt32 := 0xFFFFFF39

/-- CMD_PLAYVIDEO. -/
abbrev cmdPlayvideo : UInt32 := 0xFFFFFF3A

/-- CMD_SETFONT2. -/
abbrev cmdSetfont2 : UInt32 := 0xFFFFFF3B

/-- CMD_SETSCRATCH. -/
abbrev cmdSetscratch : UInt32 := 0xFFFFFF3C

/-- CMD_ROMFONT. -/
abbrev cmdRomfont : UInt32 := 0xFFFFFF3F

/-- CMD_VIDEOFRAME. -/
abbrev cmdVideoframe : UInt32 := 0xFFFFFF41

/-- CMD_SETBITMAP. -/
abbrev cmdSetbitmap : UInt32 := 0xFFFFFF43

/-- CMD_FLASHWRITE. -/
abbrev cmdFlashwrite : UInt32 := 0xFFFFFF45

/-- CMD_FLASHREAD. -/
abbrev cmdFlashread : UInt32 := 0xFFFFFF46

/-- CMD_FLASHUPDATE. -/
abbrev cmdFlashupdate : UInt32 := 0xFFFFFF47

/-- CMD_FLASHFAST. -/
abbrev cmdFlashfast : UInt32 := 0xFFFFFF4A

/-- CMD_FLASHSPITX. -/
abbrev cmdFlashspitx : UInt32 := 0xFFFFFF4C

/-- CMD_FLASHSPIRX. -/
abbrev cmdFlashspirx : UInt32 := 0xFFFFFF4D

/-- CMD_FLASHSOURCE. -/
abbrev cmdFlashsource : UInt32 := 0xFFFFFF4E

/-- CMD_INFLATE2. -/
abbrev cmdInflate2 : UInt32 := 0xFFFFFF50

/-- CMD_ROTATEAROUND. -/
abbrev cmdRotatearound : UInt32 := 0xFFFFFF51

/-- CMD_ANIMSTART. -/
abbrev cmdAnimstart : UInt32 := 0xFFFFFF53

/-- CMD_ANIMSTOP. -/
abbrev cmdAnimstop : UInt32 := 0xFFFFFF54

/-- CMD_ANIMXY. -/
abbrev cmdAnimxy : UInt32 := 0xFFFFFF55

/-- CMD_ANIMDRAW. -/
abbrev cmdAnimdraw : UInt32 := 0xFFFFFF56

/-- CMD_GRADIENTA. -/
abbrev cmdGradienta : UInt32 := 0xFFFFFF57

/-- CMD_FILLWIDTH. -/
abbrev cmdFillwidth : UInt32 := 0xFFFFFF58

/-- CMD_APPENDF. -/
abbrev cmdAppendf : UInt32 := 0xFFFFFF59

/-- CMD_ANIMFRAME. -/
abbrev cmdAnimframe : UInt32 := 0xFFFFFF5A

/-- CMD_FONTCACHE. -/
abbrev cmdFontcache : UInt32 := 0xFFFFFF6B

/-- What is transmitted behind a command word. -/
inductive Param where
  /-- bt816_spi_transmit_32. -/
  | word (v : UInt32)
  /-- Two parameters of sixteen bits, or one and two zeros. -/
  | pair (x y : UInt16)
  /-- Three bytes of a color and a zero. -/
  | color (rgb : UInt32)

/-- The transmissions of a parameter. -/
def Param.events : Param → List Event
  | .word v => bt816SpiTransmit32 v
  | .pair x y => transmit16 x++transmit16 y
  | .color rgb => bt816SpiTransmit rgb.toUInt8++bt816SpiTransmit (rgb>>>8).toUInt8++
      bt816SpiTransmit (rgb>>>16).toUInt8++bt816SpiTransmit 0

/-- REG_CMD_WRITE. -/
abbrev regCmdWrite : UInt32 := 0x003020FC

/-- RAM_CMD. -/
abbrev ramCmd : UInt32 := 0x00308000

/-- A read of the chip's memory. -/
inductive Read where
  /-- bt816_mem_read16. -/
  | half (addr : UInt32)
  /-- bt816_mem_read32. -/
  | word (addr : UInt32)

/-- Its address. -/
def Read.addr : Read → UInt32
  | .half addr | .word addr => addr

/-- Its session. -/
def Read.events : Read → List Event
  | .half addr => bt816MemRead16 addr
  | .word addr => bt816MemRead32 addr

/-- The reads of a function with one result: the write pointer of the
co-processor, whose value is given, and the word before it. -/
def resultReads (cmdWrite : UInt16) : List Read :=
  let cmdoffset := cmdWrite-4
  let cmdoffset := cmdoffset&&&0xFFF
  [.half regCmdWrite,.word (ramCmd+cmdoffset.toUInt32)]

/-- The read of a result `back` bytes before the write pointer, unless the
pointer for it is null. -/
def resultRead (given : Bool) (cmdWrite : UInt16) (back : UInt32) : List Read :=
  if given=true then [.word (ramCmd+((cmdWrite.toUInt32-back)&&&0xFFF))] else []

/-- A command word, parameters and the reads behind them. -/
structure Sent where
  /-- The command word. -/
  code : UInt32
  /-- The parameters in order. -/
  params : List Param
  /-- What is read when they are sent. -/
  reads : List Read

/-- The session of a command, and those of the reads. -/
def Sent.events (s : Sent) : List Event :=
  [.csSet]++(bt816BeginCmd s.code++s.params.flatMap Param.events)++[.csClear]++
    s.reads.flatMap Read.events

/-- bt816_cmd_dl. -/
def bt816CmdDl (command : UInt32) : Sent := ⟨command,[],[]⟩

/-- bt816_cmd_regread. -/
def bt816CmdRegread (ptr : UInt32) (cmdWrite : UInt16) : Sent :=
  ⟨cmdRegread,[.word ptr,.word 0],resultReads cmdWrite⟩

/-- bt816_cmd_append, with the word of bt816_cmd_regread. -/
def bt816CmdAppend (ptr num : UInt32) : Sent := ⟨cmdRegread,[.word ptr,.word num],[]⟩

/-- bt816_cmd_flashfast. -/
def bt816CmdFlashfast (cmdWrite : UInt16) : Sent := ⟨cmdFlashfast,[.word 0],resultReads cmdWrite⟩

/-- bt816_cmd_flashupdate. -/
def bt816CmdFlashupdate (dest src num : UInt32) : Sent :=
  ⟨cmdFlashupdate,[.word dest,.word src,.word num],[]⟩

/-- bt816_cmd_flashread. -/
def bt816CmdFlashread (dest src num : UInt32) : Sent :=
  ⟨cmdFlashread,[.word dest,.word src,.word num],[]⟩

/-- bt816_cmd_flashsource. -/
def bt816CmdFlashsource (ptr : UInt32) : Sent := ⟨cmdFlashsource,[.word ptr],[]⟩

/-- bt816_cmd_flashspirx. -/
def bt816CmdFlashspirx (dest num : UInt32) : Sent := ⟨cmdFlashspirx,[.word dest,.word num],[]⟩

/-- bt816_cmd_getprops. -/
def bt816CmdGetprops (cmdWrite : UInt16) (pPointer pWidth pHeight : Bool) : Sent :=
  ⟨cmdGetprops,[.word 0,.word 0,.word 0],
    [.half regCmdWrite]++resultRead pPointer cmdWrite 12++resultRead pWidth cmdWrite 8++
      resultRead pHeight cmdWrite 4⟩

/-- bt816_cmd_getptr. -/
def bt816CmdGetptr (cmdWrite : UInt16) : Sent := ⟨cmdGetptr,[.word 0],resultReads cmdWrite⟩

/-- bt816_cmd_interrupt. -/
def bt816CmdInterrupt (msec : UInt32) : Sent := ⟨cmdInterrupt,[.word msec],[]⟩

/-- bt816_cmd_mediafifo. -/
def bt816CmdMediafifo (ptr size : UInt32) : Sent := ⟨cmdMediafifo,[.word ptr,.word size],[]⟩

/-- bt816_cmd_memcpy. -/
def bt816CmdMemcpy (dest src num : UInt32) : Sent := ⟨cmdMemcpy,[.word dest,.word src,.word num],[]⟩

/-- bt816_cmd_memcrc. -/
def bt816CmdMemcrc (ptr num : UInt32) (cmdWrite : UInt16) : Sent :=
  ⟨cmdMemcrc,[.word ptr,.word num,.word 0],resultReads cmdWrite⟩

/-- bt816_cmd_memset. -/
def bt816CmdMemset (ptr : UInt32) (value : UInt8) (num : UInt32) : Sent :=
  ⟨cmdMemset,[.word ptr,.word value.toUInt32,.word num],[]⟩

/-- bt816_cmd_memzero. -/
def bt816CmdMemzero (ptr num : UInt32) : Sent := ⟨cmdMemzero,[.word ptr,.word num],[]⟩

/-- bt816_cmd_setrotate. -/
def bt816CmdSetrotate (rotation : UInt32) : Sent := ⟨cmdSetrotate,[.word rotation],[]⟩

/-- bt816_cmd_snapshot. -/
def bt816CmdSnapshot (ptr : UInt32) : Sent := ⟨cmdSnapshot,[.word ptr],[]⟩

/-- bt816_cmd_snapshot2. -/
def bt816CmdSnapshot2 (fmt ptr : UInt32) (xc0 yc0 width height : Int16) : Sent :=
  ⟨cmdSnapshot2,[.word fmt,.word ptr,.pair xc0.toUInt16 yc0.toUInt16,
    .pair width.toUInt16 height.toUInt16],[]⟩

/-- bt816_cmd_track. -/
def bt816CmdTrack (xc0 yc0 width height tag : Int16) : Sent :=
  ⟨cmdTrack,[.pair xc0.toUInt16 yc0.toUInt16,.pair width.toUInt16 height.toUInt16,
    .pair tag.toUInt16 0],[]⟩

/-- bt816_cmd_videoframe. -/
def bt816CmdVideoframe (dest resultPtr : UInt32) : Sent :=
  ⟨cmdVideoframe,[.word dest,.word resultPtr],[]⟩

/-- bt816_cmd_animdraw. -/
def bt816CmdAnimdraw (chnl : Int32) : Sent := ⟨cmdAnimdraw,[.word chnl.toUInt32],[]⟩

/-- bt816_cmd_animframe. -/
def bt816CmdAnimframe (xc0 yc0 : Int16) (aoptr frame : UInt32) : Sent :=
  ⟨cmdAnimframe,[.pair xc0.toUInt16 yc0.toUInt16,.word aoptr,.word frame],[]⟩

/-- bt816_cmd_animstart. -/
def bt816CmdAnimstart (chnl : Int32) (aoptr loop : UInt32) : Sent :=
  ⟨cmdAnimstart,[.word chnl.toUInt32,.word aoptr,.word loop],[]⟩

/-- bt816_cmd_animstop. -/
def bt816CmdAnimstop (chnl : Int32) : Sent := ⟨cmdAnimstop,[.word chnl.toUInt32],[]⟩

/-- bt816_cmd_animxy. -/
def bt816CmdAnimxy (chnl : Int32) (xc0 yc0 : Int16) : Sent :=
  ⟨cmdAnimxy,[.word chnl.toUInt32,.word xc0.toUInt16.toUInt8.toUInt32,
    .word (xc0.toUInt16>>>8).toUInt8.toUInt32,.word yc0.toUInt16.toUInt8.toUInt32,
    .word (yc0.toUInt16>>>8).toUInt8.toUInt32],[]⟩

/-- bt816_cmd_appendf. -/
def bt816CmdAppendf (ptr num : UInt32) : Sent := ⟨cmdAppendf,[.word ptr,.word num],[]⟩

/-- bt816_cmd_bitmap_transform. -/
def bt816CmdBitmapTransform (xc0 yc0 xc1 yc1 xc2 yc2 tx0 ty0 tx1 ty1 tx2 ty2 : Int32)
    (cmdWrite : UInt16) : Sent :=
  ⟨cmdBitmapTransform,[.word xc0.toUInt32,.word yc0.toUInt32,.word xc1.toUInt32,
    .word yc1.toUInt32,.word xc2.toUInt32,.word yc2.toUInt32,.word tx0.toUInt32,
    .word ty0.toUInt32,.word tx1.toUInt32,.word ty1.toUInt32,.word tx2.toUInt32,
    .word ty2.toUInt32,.word 0],resultReads cmdWrite⟩

/-- bt816_cmd_fillwidth. -/
def bt816CmdFillwidth (pixel : UInt32) : Sent := ⟨cmdFillwidth,[.word pixel],[]⟩

/-- bt816_cmd_gradienta. -/
def bt816CmdGradienta (xc0 yc0 : Int16) (argb0 : UInt32) (xc1 yc1 : Int16) (argb1 : UInt32) :
    Sent :=
  ⟨cmdGradienta,[.pair xc0.toUInt16 yc0.toUInt16,.word argb0,.pair xc1.toUInt16 yc1.toUInt16,
    .word argb1],[]⟩

/-- bt816_cmd_rotatearound. -/
def bt816CmdRotatearound (xc0 yc0 angle scale : Int32) : Sent :=
  ⟨cmdRotatearound,[.word xc0.toUInt32,.word yc0.toUInt32,.word angle.toUInt32,
    .word scale.toUInt32],[]⟩

/-- bt816_cmd_bgcolor. -/
def bt816CmdBgcolor (color : UInt32) : Sent := ⟨cmdBgcolor,[.color color],[]⟩

/-- bt816_cmd_clock. -/
def bt816CmdClock (xc0 yc0 rad : Int16) (options hours mins secs msecs : UInt16) : Sent :=
  ⟨cmdClock,[.pair xc0.toUInt16 yc0.toUInt16,.pair rad.toUInt16 options,.pair hours mins,
    .pair secs msecs],[]⟩

/-- bt816_cmd_dial. -/
def bt816CmdDial (xc0 yc0 rad : Int16) (options val : UInt16) : Sent :=
  ⟨cmdDial,[.pair xc0.toUInt16 yc0.toUInt16,.pair rad.toUInt16 options,.pair val 0],[]⟩

/-- bt816_cmd_fgcolor. -/
def bt816CmdFgcolor (color : UInt32) : Sent := ⟨cmdFgcolor,[.color color],[]⟩

/-- bt816_cmd_gauge. -/
def bt816CmdGauge (xc0 yc0 rad : Int16) (options major minor val range : UInt16) : Sent :=
  ⟨cmdGauge,[.pair xc0.toUInt16 yc0.toUInt16,.pair rad.toUInt16 options,.pair major minor,
    .pair val range],[]⟩

/-- bt816_cmd_getmatrix. -/
def bt816CmdGetmatrix (cmdWrite : UInt16) (pA pB pC pD pE pF : Bool) : Sent :=
  ⟨cmdGetmatrix,[.word 0,.word 0,.word 0,.word 0,.word 0,.word 0],
    [.half regCmdWrite]++resultRead pF cmdWrite 4++resultRead pE cmdWrite 8++
      resultRead pD cmdWrite 12++resultRead pC cmdWrite 16++resultRead pB cmdWrite 20++
      resultRead pA cmdWrite 24⟩

/-- bt816_cmd_gradcolor. -/
def bt816CmdGradcolor (color : UInt32) : Sent := ⟨cmdGradcolor,[.color color],[]⟩

/-- bt816_cmd_gradient. -/
def bt816CmdGradient (xc0 yc0 : Int16) (rgb0 : UInt32) (xc1 yc1 : Int16) (rgb1 : UInt32) : Sent :=
  ⟨cmdGradient,[.pair xc0.toUInt16 yc0.toUInt16,.color rgb0,.pair xc1.toUInt16 yc1.toUInt16,
    .color rgb1],[]⟩

/-- bt816_cmd_number. -/
def bt816CmdNumber (xc0 yc0 font : Int16) (options : UInt16) (number : Int32) : Sent :=
  ⟨cmdNumber,[.pair xc0.toUInt16 yc0.toUInt16,.pair font.toUInt16 options,.word number.toUInt32],[]⟩

/-- bt816_cmd_progress. -/
def bt816CmdProgress (xc0 yc0 wid hgt : Int16) (options val range : UInt16) : Sent :=
  ⟨cmdProgress,[.pair xc0.toUInt16 yc0.toUInt16,.pair wid.toUInt16 hgt.toUInt16,
    .pair options val,.pair range 0],[]⟩

/-- bt816_cmd_romfont. -/
def bt816CmdRomfont (font romslot : UInt32) : Sent := ⟨cmdRomfont,[.word font,.word romslot],[]⟩

/-- bt816_cmd_rotate. -/
def bt816CmdRotate (angle : Int32) : Sent := ⟨cmdRotate,[.word angle.toUInt32],[]⟩

/-- bt816_cmd_scale. -/
def bt816CmdScale (scx scy : Int32) : Sent := ⟨cmdScale,[.word scx.toUInt32,.word scy.toUInt32],[]⟩

/-- bt816_cmd_scrollbar. -/
def bt816CmdScrollbar (xc0 yc0 width height : Int16) (options val size range : UInt16) : Sent :=
  ⟨cmdScrollbar,[.pair xc0.toUInt16 yc0.toUInt16,.pair width.toUInt16 height.toUInt16,
    .pair options val,.pair size range],[]⟩

/-- bt816_cmd_setbase. -/
def bt816CmdSetbase (base : UInt32) : Sent := ⟨cmdSetbase,[.word base],[]⟩

/-- bt816_cmd_setbitmap. -/
def bt816CmdSetbitmap (addr : UInt32) (fmt width height : UInt16) : Sent :=
  ⟨cmdSetbitmap,[.word addr,.pair fmt width,.pair height 0],[]⟩

/-- bt816_cmd_setfont. -/
def bt816CmdSetfont (font ptr : UInt32) : Sent := ⟨cmdSetfont,[.word font,.word ptr],[]⟩

/-- bt816_cmd_setfont2. -/
def bt816CmdSetfont2 (font ptr firstchar : UInt32) : Sent :=
  ⟨cmdSetfont2,[.word font,.word ptr,.word firstchar],[]⟩

/-- bt816_cmd_setscratch. -/
def bt816CmdSetscratch (handle : UInt32) : Sent := ⟨cmdSetscratch,[.word handle],[]⟩

/-- bt816_cmd_sketch. -/
def bt816CmdSketch (xc0 yc0 : Int16) (width height : UInt16) (ptr : UInt32) (format : UInt16) :
    Sent :=
  ⟨cmdSketch,[.pair xc0.toUInt16 yc0.toUInt16,.pair width height,.word ptr,.pair format 0],[]⟩

/-- bt816_cmd_slider. -/
def bt816CmdSlider (xc0 yc0 wid hgt : Int16) (options val range : UInt16) : Sent :=
  ⟨cmdSlider,[.pair xc0.toUInt16 yc0.toUInt16,.pair wid.toUInt16 hgt.toUInt16,.pair options val,
    .pair range 0],[]⟩

/-- bt816_cmd_spinner. -/
def bt816CmdSpinner (xc0 yc0 : Int16) (style scale : UInt16) : Sent :=
  ⟨cmdSpinner,[.pair xc0.toUInt16 yc0.toUInt16,.pair style scale],[]⟩

/-- bt816_cmd_translate. -/
def bt816CmdTranslate (trX trY : Int32) : Sent :=
  ⟨cmdTranslate,[.word trX.toUInt32,.word trY.toUInt32],[]⟩

/-- bt816_cmd_fontcache. -/
def bt816CmdFontcache (font ramAddr cnt : UInt32) : Sent :=
  ⟨cmdFontcache,[.word font,.word ramAddr,.word cnt],[]⟩

/-! ## Commands with data -/

/-- The data, unless the pointer to it is null. -/
def transferGiven (pData : Option (Mem UInt8)) (len : UInt32) : List Event :=
  match pData with
  | some p => bt816BlockTransfer p 0 len
  | none => []

/-- OPT_MEDIAFIFO. -/
abbrev optMediafifo : UInt32 := 16

/-- OPT_FLASH. -/
abbrev optFlash : UInt32 := 64

/-- The data does not come from the media FIFO or the flash. -/
def Direct (options : UInt32) : Prop := options&&&optMediafifo=0 ∧ options&&&optFlash=0

instance (options : UInt32) : Decidable (Direct options) := inferInstanceAs (Decidable (_ ∧ _))

/-- bt816_cmd_flashspitx. -/
def bt816CmdFlashspitx (num : UInt32) (pData : Mem UInt8) : List Event :=
  Sent.events ⟨cmdFlashspitx,[.word num],[]⟩++bt816BlockTransfer pData 0 num

/-- bt816_cmd_flashwrite. -/
def bt816CmdFlashwrite (ptr num : UInt32) (pData : Option (Mem UInt8)) : List Event :=
  Sent.events ⟨cmdFlashwrite,[.word ptr,.word num],[]⟩++transferGiven pData num

/-- bt816_cmd_inflate2. -/
def bt816CmdInflate2 (ptr options : UInt32) (pData : Option (Mem UInt8)) (len : UInt32) :
    List Event :=
  Sent.events ⟨cmdInflate2,[.word ptr,.word options],[]⟩++
    if options=0 then transferGiven pData len else []

/-- bt816_cmd_inflate. -/
def bt816CmdInflate (ptr : UInt32) (pData : Option (Mem UInt8)) (len : UInt32) : List Event :=
  Sent.events ⟨cmdInflate,[.word ptr],[]⟩++transferGiven pData len

/-- bt816_cmd_loadimage. -/
def bt816CmdLoadimage (ptr options : UInt32) (pData : Option (Mem UInt8)) (len : UInt32) :
    List Event :=
  Sent.events ⟨cmdLoadimage,[.word ptr,.word options],[]⟩++
    if Direct options then transferGiven pData len else []

/-- bt816_cmd_playvideo. -/
def bt816CmdPlayvideo (options : UInt32) (pData : Option (Mem UInt8)) (len : UInt32) :
    List Event :=
  Sent.events ⟨cmdPlayvideo,[.word options],[]⟩++
    if Direct options then transferGiven pData len else []

/-! ## Calls -/

/-- A call of one of the functions of fixed length. Those that read are given
the value of REG_CMD_WRITE and which of their pointers are not null. -/
inductive Fixed where
  | regread (ptr : UInt32) (cmdWrite : UInt16)
  | append (ptr num : UInt32)
  | flashfast (cmdWrite : UInt16)
  | flashupdate (dest src num : UInt32)
  | flashread (dest src num : UInt32)
  | flashsource (ptr : UInt32)
  | flashspirx (dest num : UInt32)
  | getprops (cmdWrite : UInt16) (pPointer pWidth pHeight : Bool)
  | getptr (cmdWrite : UInt16)
  | interrupt (msec : UInt32)
  | mediafifo (ptr size : UInt32)
  | memcpy (dest src num : UInt32)
  | memcrc (ptr num : UInt32) (cmdWrite : UInt16)
  | memset (ptr : UInt32) (value : UInt8) (num : UInt32)
  | memzero (ptr num : UInt32)
  | setrotate (rotation : UInt32)
  | snapshot (ptr : UInt32)
  | snapshot2 (fmt ptr : UInt32) (xc0 yc0 width height : Int16)
  | track (xc0 yc0 width height tag : Int16)
  | videoframe (dest resultPtr : UInt32)
  | animdraw (chnl : Int32)
  | animframe (xc0 yc0 : Int16) (aoptr frame : UInt32)
  | animstart (chnl : Int32) (aoptr loop : UInt32)
  | animstop (chnl : Int32)
  | animxy (chnl : Int32) (xc0 yc0 : Int16)
  | appendf (ptr num : UInt32)
  | bitmapTransform (xc0 yc0 xc1 yc1 xc2 yc2 tx0 ty0 tx1 ty1 tx2 ty2 : Int32) (cmdWrite : UInt16)
  | fillwidth (pixel : UInt32)
  | gradienta (xc0 yc0 : Int16) (argb0 : UInt32) (xc1 yc1 : Int16) (argb1 : UInt32)
  | rotatearound (xc0 yc0 angle scale : Int32)
  | bgcolor (color : UInt32)
  | clock (xc0 yc0 rad : Int16) (options hours mins secs msecs : UInt16)
  | dial (xc0 yc0 rad : Int16) (options val : UInt16)
  | fgcolor (color : UInt32)
  | gauge (xc0 yc0 rad : Int16) (options major minor val range : UInt16)
  | getmatrix (cmdWrite : UInt16) (pA pB pC pD pE pF : Bool)
  | gradcolor (color : UInt32)
  | gradient (xc0 yc0 : Int16) (rgb0 : UInt32) (xc1 yc1 : Int16) (rgb1 : UInt32)
  | number (xc0 yc0 font : Int16) (options : UInt16) (number : Int32)
  | progress (xc0 yc0 wid hgt : Int16) (options val range : UInt16)
  | romfont (font romslot : UInt32)
  | rotate (angle : Int32)
  | scale (scx scy : Int32)
  | scrollbar (xc0 yc0 width height : Int16) (options val size range : UInt16)
  | setbase (base : UInt32)
  | setbitmap (addr : UInt32) (fmt width height : UInt16)
  | setfont (font ptr : UInt32)
  | setfont2 (font ptr firstchar : UInt32)
  | setscratch (handle : UInt32)
  | sketch (xc0 yc0 : Int16) (width height : UInt16) (ptr : UInt32) (format : UInt16)
  | slider (xc0 yc0 wid hgt : Int16) (options val range : UInt16)
  | spinner (xc0 yc0 : Int16) (style scale : UInt16)
  | translate (trX trY : Int32)
  | fontcache (font ramAddr cnt : UInt32)

/-- What a call sends. -/
def Fixed.sent : Fixed → Sent
  | .regread ptr cmdWrite => bt816CmdRegread ptr cmdWrite
  | .append ptr num => bt816CmdAppend ptr num
  | .flashfast cmdWrite => bt816CmdFlashfast cmdWrite
  | .flashupdate dest src num => bt816CmdFlashupdate dest src num
  | .flashread dest src num => bt816CmdFlashread dest src num
  | .flashsource ptr => bt816CmdFlashsource ptr
  | .flashspirx dest num => bt816CmdFlashspirx dest num
  | .getprops cmdWrite pPointer pWidth pHeight => bt816CmdGetprops cmdWrite pPointer pWidth pHeight
  | .getptr cmdWrite => bt816CmdGetptr cmdWrite
  | .interrupt msec => bt816CmdInterrupt msec
  | .mediafifo ptr size => bt816CmdMediafifo ptr size
  | .memcpy dest src num => bt816CmdMemcpy dest src num
  | .memcrc ptr num cmdWrite => bt816CmdMemcrc ptr num cmdWrite
  | .memset ptr value num => bt816CmdMemset ptr value num
  | .memzero ptr num => bt816CmdMemzero ptr num
  | .setrotate rotation => bt816CmdSetrotate rotation
  | .snapshot ptr => bt816CmdSnapshot ptr
  | .snapshot2 fmt ptr xc0 yc0 width height => bt816CmdSnapshot2 fmt ptr xc0 yc0 width height
  | .track xc0 yc0 width height tag => bt816CmdTrack xc0 yc0 width height tag
  | .videoframe dest resultPtr => bt816CmdVideoframe dest resultPtr
  | .animdraw chnl => bt816CmdAnimdraw chnl
  | .animframe xc0 yc0 aoptr frame => bt816CmdAnimframe xc0 yc0 aoptr frame
  | .animstart chnl aoptr loop => bt816CmdAnimstart chnl aoptr loop
  | .animstop chnl => bt816CmdAnimstop chnl
  | .animxy chnl xc0 yc0 => bt816CmdAnimxy chnl xc0 yc0
  | .appendf ptr num => bt816CmdAppendf ptr num
  | .bitmapTransform xc0 yc0 xc1 yc1 xc2 yc2 tx0 ty0 tx1 ty1 tx2 ty2 cmdWrite =>
    bt816CmdBitmapTransform xc0 yc0 xc1 yc1 xc2 yc2 tx0 ty0 tx1 ty1 tx2 ty2 cmdWrite
  | .fillwidth pixel => bt816CmdFillwidth pixel
  | .gradienta xc0 yc0 argb0 xc1 yc1 argb1 => bt816CmdGradienta xc0 yc0 argb0 xc1 yc1 argb1
  | .rotatearound xc0 yc0 angle scale1 => bt816CmdRotatearound xc0 yc0 angle scale1
  | .bgcolor color => bt816CmdBgcolor color
  | .clock xc0 yc0 rad options hours mins secs msecs =>
    bt816CmdClock xc0 yc0 rad options hours mins secs msecs
  | .dial xc0 yc0 rad options val => bt816CmdDial xc0 yc0 rad options val
  | .fgcolor color => bt816CmdFgcolor color
  | .gauge xc0 yc0 rad options major minor val range =>
    bt816CmdGauge xc0 yc0 rad options major minor val range
  | .getmatrix cmdWrite pA pB pC pD pE pF => bt816CmdGetmatrix cmdWrite pA pB pC pD pE pF
  | .gradcolor color => bt816CmdGradcolor color
  | .gradient xc0 yc0 rgb0 xc1 yc1 rgb1 => bt816CmdGradient xc0 yc0 rgb0 xc1 yc1 rgb1
  | .number xc0 yc0 font options number1 => bt816CmdNumber xc0 yc0 font options number1
  | .progress xc0 yc0 wid hgt options val range =>
    bt816CmdProgress xc0 yc0 wid hgt options val range
  | .romfont font romslot => bt816CmdRomfont font romslot
  | .rotate angle => bt816CmdRotate angle
  | .scale scx scy => bt816CmdScale scx scy
  | .scrollbar xc0 yc0 width height options val size range =>
    bt816CmdScrollbar xc0 yc0 width height options val size range
  | .setbase base => bt816CmdSetbase base
  | .setbitmap addr fmt width height => bt816CmdSetbitmap addr fmt width height
  | .setfont font ptr => bt816CmdSetfont font ptr
  | .setfont2 font ptr firstchar => bt816CmdSetfont2 font ptr firstchar
  | .setscratch handle => bt816CmdSetscratch handle
  | .sketch xc0 yc0 width height ptr format => bt816CmdSketch xc0 yc0 width height ptr format
  | .slider xc0 yc0 wid hgt options val range => bt816CmdSlider xc0 yc0 wid hgt options val range
  | .spinner xc0 yc0 style scale1 => bt816CmdSpinner xc0 yc0 style scale1
  | .translate trX trY => bt816CmdTranslate trX trY
  | .fontcache font ramAddr cnt => bt816CmdFontcache font ramAddr cnt

/-- The functions that are bt816_cmd_dl with a command word. -/
inductive Plain where
  | dlstart
  | coldstart
  | swap
  | flashattach
  | flashdetach
  | flasherase
  | flashspidesel
  deriving DecidableEq

/-- CMD_DLSTART .. CMD_FLASHSPIDESEL. -/
def Plain.code : Plain → UInt32
  | .dlstart => 0xFFFFFF00
  | .coldstart => 0xFFFFFF32
  | .swap => 0xFFFFFF01
  | .flashattach => 0xFFFFFF49
  | .flashdetach => 0xFFFFFF48
  | .flasherase => 0xFFFFFF44
  | .flashspidesel => 0xFFFFFF4B

/-- A call of one of the functions. -/
inductive Call where
  /-- bt816_cmd_dl. -/
  | dl (command : UInt32)
  /-- A function that is bt816_cmd_dl. -/
  | plain (c : Plain)
  /-- A function of fixed length. -/
  | fixed (c : Fixed)
  /-- bt816_mem_read32 between the functions. -/
  | memRead32 (addr : UInt32)
  /-- A function with a string. -/
  | string (c : StringCommands.Call)
  | memwrite (mem : Mem UInt8) (memAddr num : UInt32) (dataPtr : ℕ)
  | flashspitx (num : UInt32) (pData : Mem UInt8)
  | flashwrite (ptr num : UInt32) (pData : Option (Mem UInt8))
  | inflate2 (ptr options : UInt32) (pData : Option (Mem UInt8)) (len : UInt32)
  | inflate (ptr : UInt32) (pData : Option (Mem UInt8)) (len : UInt32)
  | loadimage (ptr options : UInt32) (pData : Option (Mem UInt8)) (len : UInt32)
  | playvideo (options : UInt32) (pData : Option (Mem UInt8)) (len : UInt32)

/-- The events of a call. -/
def Call.events : Call → List Event
  | .dl command => (bt816CmdDl command).events
  | .plain c => (bt816CmdDl c.code).events
  | .fixed c => c.sent.events
  | .memRead32 addr => bt816MemRead32 addr
  | .string c => c.events
  | .memwrite mem memAddr num dataPtr => bt816CmdMemwrite mem memAddr num dataPtr
  | .flashspitx num pData => bt816CmdFlashspitx num pData
  | .flashwrite ptr num pData => bt816CmdFlashwrite ptr num pData
  | .inflate2 ptr options pData len => bt816CmdInflate2 ptr options pData len
  | .inflate ptr pData len => bt816CmdInflate ptr pData len
  | .loadimage ptr options pData len => bt816CmdLoadimage ptr options pData len
  | .playvideo options pData len => bt816CmdPlayvideo options pData len

end BT816Display.CommandSet
