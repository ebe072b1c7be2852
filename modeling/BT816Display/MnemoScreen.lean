import BT816Display.Lib.FrameFifo
import BT816Display.MnemoPicture

/-!
# The mnemonic screen through the command buffer

The sessions of draw_mnemo bring words to the command buffer while the
co-processor takes the commands that are complete out of it. The program does
not wait for the co-processor, so the two come in many orders. In each of them
in which the buffer has room for every session, the picture of the elements is
shown, as long as the display list has room for their commands.
-/

namespace BT816Display.MnemoScreen

open ByteMemory WireWords Bt816Spi Bt816Cmd CommandSet CommandReader CommandStream Frames
open Mnemo DisplayList MnemoPicture
open FixedPoint (Precision)
open StringCommands (fieldWords wordStream)

/-- CMDFIFO_SIZE. -/
abbrev cmdfifoSize : ℕ := 4*1024

section

variable (F : Formats) {σ : Type} (C : Coprocessor σ)

/-- The command buffer between the port and a co-processor: sessions are put
into it and commands taken out of it. -/
def Run : FrameFifo.State UInt32 σ → FrameFifo.State UInt32 σ → Prop :=
  FrameFifo.Run Command.words (Command.Fits F) C.exec (cmdfifoSize/4)

end

/-- The words of each session. -/
def blocks (sent : List (List UInt8)) : List (List UInt32) :=
  sent.map fun session => WireWords.words (session.drop 3)

/-! ## A session for each call -/

/-- The events are one session of these words. -/
def SendsBlock (events : List Event) (ws : List UInt32) : Prop :=
  ∃ session,SendsSessions events [session] ∧ WireWords.words (session.drop 3)=ws

/-- Words carried in one session of the command buffer are sent as a block. -/
theorem sendsBlock_words {events : List Event} {ws : List UInt32}
    (h : SendsSessions events [cmdAddress++ws.flatMap wireBytes]) : SendsBlock events ws :=
  ⟨_,h,by rw [drop_cmdAddress,words_flatMap_wireBytes]⟩

/-- A command without a result. -/
theorem sendsBlock_sent {s : Sent} (h : s.reads=[]) :
    SendsBlock s.events (s.code::s.params.map fun p => (argOf p).word32) := by
  have hevents : s.events=
      [.csSet]++(bt816BeginCmd s.code++s.params.flatMap Param.events)++[.csClear] := by
    rw [Sent.events,h,List.flatMap_nil,List.append_nil]
  rw [hevents]
  exact sendsBlock_words (sendsSessions_sent s)

/-- Each command of mnemo.c is one session with what it asks for. -/
theorem sendsBlock_call {F : Formats} {c : FixedPoint.Command} (h : Proper F (callOf c)) :
    SendsBlock (callOf c).events ((meaning (callOf c)).flatMap Command.words) := by
  have hfixed {f : Fixed} (hreads : f.sent.reads=[]) :
      SendsBlock (Call.fixed f).events ((meaning (.fixed f)).flatMap Command.words) := by
    rw [meaning,fixed_words F]
    exact sendsBlock_sent hreads
  have hstring (s : StringCommands.Call) :
      SendsBlock (Call.string s).events ((meaning (.string s)).flatMap Command.words) := by
    rw [meaning,List.flatMap_singleton,string_words]
    exact sendsBlock_words s.sendsSessions
  cases c with
  | dl w =>
    rw [callOf,meaning,List.flatMap_singleton,single_words h.2]
    exact sendsBlock_sent (s:=bt816CmdDl w) rfl
  | setbitmap => exact hfixed rfl
  | setfont2 => exact hfixed rfl
  | fgcolor => exact hfixed rfl
  | button => exact hstring _
  | text => exact hstring _
  | textVar => exact hstring _
  | memRead32 addr => exact ⟨_,sendsSessions_memRead addr 5,rfl⟩

/-- Commands one after another. -/
theorem sends_commands {F : Formats} {cs : List FixedPoint.Command}
    (h : ∀ c∈cs,Proper F (callOf c)) :
    ∃ sent,SendsSessions ((cs.map callOf).flatMap Call.events) sent ∧
      blocks sent=(cs.map fun c => meaning (callOf c)).map (·.flatMap Command.words) := by
  induction cs with
  | nil => exact ⟨[],sendsSessions_nil,rfl⟩
  | cons c cs ih =>
    obtain ⟨hc,hcs⟩ := List.forall_mem_cons.mp h
    obtain ⟨session,hsession,hwords⟩ := sendsBlock_call hc
    obtain ⟨sent,hsent,hblocks⟩ := ih hcs
    refine ⟨session::sent,hsession.append hsent,?_⟩
    rw [List.map_cons,List.map_cons,←hblocks,←hwords]
    rfl

/-! ## What fits the command buffer -/

/-- Four bytes are a word. -/
theorem words_length {bytes : List UInt8} (h : bytes.length%4=0) :
    4*(WireWords.words bytes).length=bytes.length := by
  rw [←flatMap_wireBytes_length,flatMap_wireBytes_words h]

/-- At most three words of fields, 249 bytes of a string and 255 arguments. -/
theorem string_words_length (c : StringCommands.Call) : c.words.length≤322 := by
  have hfields : (fieldWords c.header.fields).length≤3 := by
    cases c.header <;> simp [StringCommands.Header.fields,fieldWords]
  have htext : c.sentText.length≤249 := List.length_take_le _ _
  have hterminated := words_length (terminated_length_mod c.sentText)
  have hpadded : (terminated c.sentText).length=c.sentText.length+(4-c.sentText.length%4) := by
    rw [terminated,List.length_append,List.length_replicate]
  have hload (p : Mem UInt32) (n : UInt8) : (load p 0 n.toNat).length≤255 := by
    have hn := n.toNat_lt
    rw [load_length]
    omega
  have harguments : c.arguments.length≤255 := by
    unfold StringCommands.Call.arguments
    split
    all_goals first | exact Nat.zero_le _ | skip
    all_goals split
    all_goals first | exact hload _ _ | exact Nat.zero_le _
  rw [StringCommands.Call.words,List.cons_append,List.cons_append,List.length_cons,
    List.length_append,List.length_append]
  omega

/-- Each session has room in an empty command buffer. -/
theorem block_length {F : Formats} {c : FixedPoint.Command} (h : Proper F (callOf c)) :
    ((meaning (callOf c)).flatMap Command.words).length≤cmdfifoSize/4 := by
  have hfixed {f : Fixed} (hfew : f.sent.params.length≤3) :
      ((meaning (.fixed f)).flatMap Command.words).length≤cmdfifoSize/4 := by
    rw [meaning,fixed_words F,List.length_cons,List.length_map]
    exact (Nat.succ_le_succ hfew).trans (by decide)
  have hstring (s : StringCommands.Call) :
      ((meaning (.string s)).flatMap Command.words).length≤cmdfifoSize/4 := by
    rw [meaning,List.flatMap_singleton,string_words]
    exact (string_words_length s).trans (by decide)
  cases c with
  | dl w =>
    rw [callOf,meaning,List.flatMap_singleton,single_words h.2,List.length_singleton]
    decide
  | setbitmap => exact hfixed (Nat.le_refl 3)
  | setfont2 => exact hfixed (Nat.le_refl 3)
  | fgcolor => exact hfixed (Nat.le_add_left 1 2)
  | button => exact hstring _
  | text => exact hstring _
  | textVar => exact hstring _
  | memRead32 => exact Nat.zero_le _

/-! ## Commands of the screen -/

/-- The formats of values ask for as many arguments as are sent. -/
def CountsValues (F : Formats) : Prop :=
  ∀ precision,F.argCount (charBytes (valueFormat precision))=(valueParts 0 precision).length

/-- A command that is called as it is meant to be, for commands that are
described and do not begin a list. -/
structure Drawn (F : Formats) (c : FixedPoint.Command) : Prop where
  /-- The call. -/
  proper : Proper F (callOf c)
  /-- What it asks for. -/
  known : ∀ m∈meaning (callOf c),Known m ∧ m≠dlstart

/-- CMD_DLSTART has no parameters. -/
theorem ne_dlstart {c : Command} (h : c.args≠[]) : c≠dlstart :=
  fun hc => h (congrArg Command.args hc)

section

variable {F : Formats}

/-- A display list word with a known opcode is drawn. -/
theorem drawn_word {w : UInt32} (h : IsWord w) (hop : opOf w≠.other) : Drawn F (.dl w) := by
  have hlayout := layoutOf_of_lt h
  refine ⟨⟨by rw [hlayout]; rfl,by rw [hlayout]; rfl⟩,List.forall_mem_singleton.mpr ?_⟩
  exact ⟨Or.inr (Or.inr ⟨h,hop⟩),fun hc => UInt32.ne_of_lt h (congrArg Command.code hc)⟩

/-- Setting a colour of 24 bits is drawn. -/
theorem drawn_color {rgb : UInt32} (h : rgb.toNat<2^24) : Drawn F (.dl (dlColorRgb|||rgb)) :=
  drawn_word (isWord_color h) (by rw [opOf_color h]; nofun)

/-- A vertex is drawn, wherever it is. -/
theorem drawn_vertex (x y : UInt32) : Drawn F (.dl (DisplayWords.vertex2f x y)) :=
  drawn_word (isWord_vertex2f x y) (by rw [opOf_vertex2f]; nofun)

/-- A point size is drawn. -/
theorem drawn_pointSize (size : UInt32) : Drawn F (.dl (DisplayWords.pointSize size)) :=
  drawn_word (isWord_pointSize size) (by rw [opOf_pointSize]; nofun)

/-- A bitmap is set with a drawn word. -/
theorem drawn_setbitmap (addr : UInt32) (fmt width height : UInt16) :
    Drawn F (.setbitmap addr fmt width height) :=
  ⟨trivial,List.forall_mem_singleton.mpr ⟨rfl,ne_dlstart nofun⟩⟩

/-- A font is set with a drawn word. -/
theorem drawn_setfont2 (font ptr firstchar : UInt32) : Drawn F (.setfont2 font ptr firstchar) :=
  ⟨trivial,List.forall_mem_singleton.mpr ⟨rfl,ne_dlstart nofun⟩⟩

/-- A foreground colour is drawn. -/
theorem drawn_fgcolor (color : UInt32) : Drawn F (.fgcolor color) :=
  ⟨trivial,List.forall_mem_singleton.mpr ⟨rfl,ne_dlstart nofun⟩⟩

/-- A register read below 2^22 is drawn. -/
theorem drawn_memRead32 {addr : UInt32} (h : addr.toNat<2^22) : Drawn F (.memRead32 addr) :=
  ⟨h,List.forall_mem_nil _⟩

/-- A text without options takes no arguments. -/
theorem drawn_text (x y font : Int16) (text : List UInt8) : Drawn F (.text x y font 0 text) := by
  refine ⟨fun format hformat => ?_,List.forall_mem_singleton.mpr ⟨rfl,ne_dlstart nofun⟩⟩
  have hfalse : decide ((0 : UInt16)&&&StringCommands.optFormat≠0)=format := Tail.text.inj hformat
  rw [←hfalse]
  rfl

/-- Nor does the button of the warning. -/
theorem drawn_button (text : List Char) : Drawn F (.button 300 400 200 50 28 0 text) := by
  refine ⟨fun format hformat => ?_,List.forall_mem_singleton.mpr ⟨rfl,ne_dlstart nofun⟩⟩
  have hfalse : false=format := Tail.text.inj hformat
  rw [←hfalse]
  rfl

/-- A value gives its format the arguments it asks for. -/
theorem drawn_value (hF : CountsValues F) (x y font : Int16) (value : Int32)
    (precision : Precision) :
    Drawn F (.textVar x y font FixedPoint.optFormat (valueFormat precision)
      (valueParts value precision)) := by
  refine ⟨fun format hformat => ?_,List.forall_mem_singleton.mpr ⟨rfl,ne_dlstart nofun⟩⟩
  have hon : FixedPoint.optFormat&&&StringCommands.optFormat≠0 := by decide
  have htrue : decide (FixedPoint.optFormat&&&StringCommands.optFormat≠0)=format :=
    Tail.text.inj hformat
  rw [decide_eq_true hon] at htrue
  have hcount : (valueParts value precision).length=(valueParts 0 precision).length := by
    cases precision <;> rfl
  obtain ⟨htext,harguments⟩ := valueCall_sent x y font value precision
  change (valueCall x y font value precision).arguments.length=
    if format=true then F.argCount (valueCall x y font value precision).sentText else 0
  rw [htext,harguments,if_pos htrue.symm,hF precision,List.length_map,hcount]

/-- The commands of an element whose colors and text are sent whole. -/
theorem drawn_element (hF : CountsValues F) {e : Element} (he : e.Sent) :
    ∀ c∈e.commands,Drawn F c := by
  have hend : Drawn F (.dl dlEnd) := drawn_word (by decide) (by decide)
  have hbitmaps : Drawn F (.dl (dlBegin|||1)) := drawn_word (by decide) (by decide)
  cases e with
  | lamp x y col =>
    have hwhite : Drawn F (.dl (dlColorRgb|||white)) := drawn_color (by decide)
    have hcorner : Drawn F (.dl (DisplayWords.bt816Vertex2f (x*16) (y*16))) := by
      rw [bt816Vertex2f_eq]
      exact drawn_vertex _ _
    rw [Element.commands,mnemoDrawLampImage]
    split
    · simp only [Traced.bind_commands,Traced.issue_commands,List.cons_append,List.nil_append,
        List.forall_mem_cons]
      exact ⟨hwhite,drawn_setbitmap _ _ _ _,hbitmaps,hcorner,hend,List.forall_mem_nil _⟩
    · simp only [Traced.bind_commands,Traced.issue_commands,List.cons_append,List.nil_append,
        List.forall_mem_cons]
      exact ⟨hwhite,hbitmaps,hcorner,hend,List.forall_mem_nil _⟩
  | image addr =>
    simp only [Element.commands,List.forall_mem_cons]
    exact ⟨drawn_setbitmap _ _ _ _,hbitmaps,drawn_vertex 0 0,hend,List.forall_mem_nil _⟩
  | fonts =>
    have hfont (font ptr : UInt32) : Drawn F (.setfont2 font ptr 0) := drawn_setfont2 font ptr 0
    simp only [Element.commands,List.forall_mem_cons]
    exact ⟨hfont _ _,hfont _ _,hfont _ _,hfont _ _,List.forall_mem_nil _⟩
  | text color x y font bytes =>
    have htwice : dlColorRgb|||(dlColorRgb|||color)=dlColorRgb|||color := by
      rw [←UInt32.or_assoc,UInt32.or_self]
    simp only [Element.commands,List.forall_mem_cons,htwice]
    exact ⟨drawn_color he.1,drawn_text _ _ _ bytes,List.forall_mem_nil _⟩
  | textVar color x y font precision value =>
    simp only [Element.commands,drawValue_commands,List.forall_mem_cons]
    exact ⟨drawn_color he,drawn_value hF _ _ _ value precision,List.forall_mem_nil _⟩
  | rect color x y width height =>
    have hrects : Drawn F (.dl (dlBegin|||9)) := drawn_word (by decide) (by decide)
    simp only [Element.commands,List.forall_mem_cons]
    exact ⟨drawn_color he,hend,hrects,drawn_vertex _ _,drawn_vertex _ _,hend,
      List.forall_mem_nil _⟩
  | circle color x y width =>
    have hpoints : Drawn F (.dl (dlBegin|||2)) := drawn_word (by decide) (by decide)
    simp only [Element.commands,List.forall_mem_cons]
    exact ⟨drawn_color he,drawn_pointSize _,hpoints,drawn_vertex _ _,hend,List.forall_mem_nil _⟩

/-- The commands behind CMD_DLSTART. -/
theorem drawn_listCommands (hF : CountsValues F) (src : Sources) (mem : Mem UInt8) :
    ∀ c∈listCommands src mem,Drawn F c := by
  have hels : ∀ c∈(elements src mem).flatMap Element.commands,Drawn F c := by
    intro c hc
    obtain ⟨e,he,hc⟩ := List.mem_flatMap.mp hc
    exact drawn_element hF (elements_sent src mem e he) c hc
  have hlevel : ∀ c∈levelCommands,Drawn F c := by
    simp only [levelCommands,List.forall_mem_cons]
    exact ⟨drawn_memRead32 (by decide),drawn_memRead32 (by decide),List.forall_mem_nil _⟩
  have hwarn : ∀ c∈if src.plcCanLink=0 then canErrorCommands else [],Drawn F c := by
    split
    · simp only [canErrorCommands,List.forall_mem_cons]
      exact ⟨drawn_color (by decide),drawn_fgcolor _,drawn_button _,List.forall_mem_nil _⟩
    · exact List.forall_mem_nil _
  have hswap : Drawn F (.dl 0xFFFFFF01) :=
    ⟨⟨rfl,rfl⟩,List.forall_mem_singleton.mpr ⟨Or.inr (Or.inl rfl),by decide⟩⟩
  have hclear (w : UInt32) (h : IsWord w ∧ opOf w≠.other) : Drawn F (.dl w) := drawn_word h.1 h.2
  simp only [listCommands,List.forall_mem_append,List.forall_mem_cons]
  exact ⟨⟨hclear _ (by decide),hclear _ (by decide),List.forall_mem_nil _⟩,hlevel,hels,hlevel,
    hwarn,hclear _ (by decide),hswap,List.forall_mem_nil _⟩

end

/-! ## The picture that is shown -/

/-- What the calls of draw_mnemo behind CMD_DLSTART ask for. -/
def listed (src : Sources) (mem : Mem UInt8) : List Command :=
  (listCommands src mem).flatMap fun c => meaning (callOf c)

/-- The commands of draw_mnemo show the picture of the elements on every
co-processor whose list has room for them. -/
theorem display_listed {F : Formats} (hF : CountsValues F) {σ : Type} (C : Coprocessor σ) {s : σ}
    (hs : C.used s≤ramDlSize) (src : Sources) (mem : Mem UInt8)
    (hroom : C.bytes (listed src mem)≤ramDlSize) :
    (C.display ((dlstart::listed src mem).foldl C.exec s)).shown=picture (C.display s) src mem := by
  have hknown : ∀ m∈listed src mem,Known m ∧ m≠dlstart := by
    intro m hm
    obtain ⟨c,hc,hm⟩ := List.mem_flatMap.mp hm
    exact (drawn_listCommands hF src mem c hc).known m hm
  have hcommands : dlstart::listed src mem=
      (drawMnemo src mem).commands.flatMap fun c => meaning (callOf c) := by
    rw [drawMnemo_commands,List.flatMap_cons]
    rfl
  rw [C.display_list hknown hs hroom,hcommands,List.foldl_flatMap]
  exact shown_drawMnemo src mem (C.display s)

/-- For every content of mnemo_buf and all values of the variables, and every
co-processor whose display list has room for what the elements ask for,
whatever it has shown before: draw_mnemo sends sessions that the co-processor
can take in time, and in every order of the two in which the command buffer
has room for each session, the picture of the elements is shown at the end.
When the fonts and the images stand before plain elements, it is the shapes
that these ask for by themselves. -/
theorem mnemo_picture {F : Formats} (hF : CountsValues F) {σ : Type} (C : Coprocessor σ) {s : σ}
    (hs : C.used s≤ramDlSize) (src : Sources) (mem : Mem UInt8)
    (hroom : C.bytes (listed src mem)≤ramDlSize) :
    ∃ sent,sessionsOf (((drawMnemo src mem).commands.map callOf).flatMap Call.events)=some sent ∧
      (∃ s',Run F C ⟨blocks sent,[],s⟩ ⟨[],[],s'⟩) ∧
      (∀ s',Run F C ⟨blocks sent,[],s⟩ ⟨[],[],s'⟩ →
        (C.display s').shown=picture (C.display s) src mem) ∧
      ∀ lead els,elements src mem=lead++els → (∀ e∈lead,e.Leads) → Element.fonts∈lead →
        (∀ e∈els,e.Plain) → picture (C.display s) src mem=
          .clear 0::((elements src mem).flatMap Element.own++
            if src.plcCanLink=0 then [canError (C.display s)] else []) := by
  have hproper : ∀ c∈(drawMnemo src mem).commands,Proper F (callOf c) := by
    rw [drawMnemo_commands]
    exact List.forall_mem_cons.mpr
      ⟨⟨rfl,rfl⟩,fun c hc => (drawn_listCommands hF src mem c hc).proper⟩
  have hgroups : ((drawMnemo src mem).commands.map fun c => meaning (callOf c)).flatten=
      dlstart::listed src mem := by
    rw [drawMnemo_commands]
    rfl
  have hfits : ∀ g∈(drawMnemo src mem).commands.map fun c => meaning (callOf c),
      ∀ m∈g,m.Fits F := by
    intro g hg
    obtain ⟨c,hc,rfl⟩ := List.mem_map.mp hg
    exact meaning_fits (hproper c hc)
  have hlength : ∀ g∈(drawMnemo src mem).commands.map fun c => meaning (callOf c),
      (g.flatMap Command.words).length≤cmdfifoSize/4 := by
    intro g hg
    obtain ⟨c,hc,rfl⟩ := List.mem_map.mp hg
    exact block_length (hproper c hc)
  obtain ⟨sent,hsent,hblocks⟩ := sends_commands hproper
  refine ⟨sent,hsent.sessionsOf,?_,?_,?_⟩
  · rw [hblocks]
    exact ⟨_,FrameFifo.run_blocks hfits hlength s⟩
  · intro s' hrun
    rw [hblocks] at hrun
    rw [FrameFifo.run_groups (commands_selfDelimiting F) hfits hrun,hgroups]
    exact display_listed hF C hs src mem hroom
  · intro lead els hsplit hlead hfonts hplain
    rw [picture,hsplit,shapesAfter_leads _ (by rwa [List.nil_append]),List.nil_append,
      shapesAfter_plain _ hfonts hplain,List.flatMap_append]

/-- A co-processor that takes four bytes for a word and more for a text. -/
def plainCoprocessor : Coprocessor (Display×ℕ) where
  exec s c := (exec s.1 c,if c=dlstart then 0 else s.2+(if c.code<0xFFFFFF00 then 4 else
    if c.code=0xFFFFFF01 then 0 else 20+8*c.data.length))
  display s := s.1
  used s := s.2
  size c := if c.code<0xFFFFFF00 then 4 else if c.code=0xFFFFFF01 then 0 else 20+8*c.data.length
  start _ _ := ⟨rfl,rfl⟩
  run _ _ _ hne _ := ⟨if_neg hne,rfl⟩

/-- A display that has shown nothing. -/
def firstDisplay : Display :=
  ⟨false,0,white,16,none,none,⟨0,0,0,0⟩,fun _ => none,0,[],[]⟩

/-- A block with the fonts, a rectangle and a lamp. -/
def lampBlock : Mem UInt8 := fun i =>
  [0,0,0,0,0,0,0,0,0,3,0,10,0,13,0,34,0,3,1,
    0,10,1,0,100,0,50,0,200,0,30,0,255,0,255,0,0,0,2,0,5,
    0,1,1,0,10,0,20,4,1,0,0,0,0].getD i 0

/-- It is shown in the colors of bits that are not set, under the warning. -/
theorem mnemo_picture_lamp :
    ∃ sent,sessionsOf (((drawMnemo zeroSources lampBlock).commands.map callOf).flatMap
        Call.events)=some sent ∧
      ∃ s',Run plainFormats plainCoprocessor ⟨blocks sent,[],(firstDisplay,0)⟩ ⟨[],[],s'⟩ ∧
        s'.1.shown=[.clear 0,.rect 0xFF0000 1600 800 4800 1280,
          .bitmap white ⟨memLamp1-5*1024,6,50,50⟩ 160 320,canError firstDisplay] := by
  have hF : CountsValues plainFormats := by
    intro precision
    cases precision <;> decide
  have hroom : plainCoprocessor.bytes (listed zeroSources lampBlock)≤ramDlSize := by decide +kernel
  obtain ⟨sent,hsent,⟨s',hrun⟩,hshown,hown⟩ := mnemo_picture hF plainCoprocessor
    (s:=(firstDisplay,0)) (Nat.zero_le _) zeroSources lampBlock hroom
  have hels : elements zeroSources lampBlock=
      [.fonts]++[.rect 0xFF0000 100 50 200 30,.lamp 10 20 1] := by decide +kernel
  have hlead : ∀ e∈[Element.fonts],e.Leads := List.forall_mem_singleton.mpr trivial
  have hplain : ∀ e∈[Element.rect 0xFF0000 100 50 200 30,.lamp 10 20 1],e.Plain :=
    List.forall_mem_cons.mpr ⟨⟨by decide,by decide⟩,
      List.forall_mem_singleton.mpr ⟨by decide,by decide,by decide⟩⟩
  have hown := hown _ _ hels hlead (List.mem_singleton_self _) hplain
  have hshown := hshown s' hrun
  rw [hown,hels] at hshown
  exact ⟨sent,hsent,s',hrun,hshown⟩

end BT816Display.MnemoScreen
