import BT816Display.Bt816Cmd

/-!
# String commands of bt816_cmd.c

Text, button, keys and toggle send a command word, fields of 16 bits, a string
of at most 249 bytes and, in their forms for formatted output, a word for each
argument. The co-processor is not sent the number of the arguments.
-/

namespace BT816Display.StringCommands

open ByteMemory BigEndian WireWords WordFields Bt816Spi Bt816Cmd

/-- CMD_TEXT. -/
abbrev cmdText : UInt32 := 0xFFFFFF0C

/-- CMD_BUTTON. -/
abbrev cmdButton : UInt32 := 0xFFFFFF0D

/-- CMD_KEYS. -/
abbrev cmdKeys : UInt32 := 0xFFFFFF0E

/-- CMD_TOGGLE. -/
abbrev cmdToggle : UInt32 := 0xFFFFFF12

/-- OPT_FORMAT. -/
abbrev optFormat : UInt16 := 4096

/-- The two transmissions of a parameter of 16 bits. -/
def transmit16 (v : UInt16) : List Event :=
  bt816SpiTransmit v.toUInt8++bt816SpiTransmit (v>>>8).toUInt8

/-- The loop over the text: its events and the final textindex. -/
def textLoop (pBytes : Mem UInt8) (textindex : UInt8) : List Event×UInt8 :=
  if textindex<249 ∧ pBytes textindex.toNat≠0 then
    let rest := textLoop pBytes (textindex+1)
    (bt816SpiTransmit (pBytes textindex.toNat)++rest.1,rest.2)
  else ([],textindex)
termination_by 249-textindex.toNat
decreasing_by
  have hlt := UInt8.lt_iff_toNat_lt.mp (And.left ‹_›)
  have h249 : (249 : UInt8).toNat=249 := rfl
  have hadd := UInt8.toNat_add textindex 1
  have h1 : (1 : UInt8).toNat=1 := rfl
  omega

/-- private_string_write. -/
def privateStringWrite (pText : Mem UInt8) : List Event :=
  let (events,textindex) := textLoop pText 0
  let padding := 4-(textindex&&&3)
  events++transmitZeros padding.toNat

/-- The loop over p_arguments, behind its two conditions. -/
def formatArguments (options : UInt16) (numArgs : UInt8) (pArguments : Option (Mem UInt32)) :
    List Event :=
  if options&&&optFormat≠0 then
    match pArguments with
    | some p => (load p 0 numArgs.toNat).flatMap bt816SpiTransmit32
    | none => []
  else []

/-- The body that the commands share. -/
def stringCommand (command : UInt32) (fields : List UInt16) (pText : Mem UInt8)
    (arguments : List Event) : List Event :=
  [.csSet]++
    (bt816BeginCmd command++fields.flatMap transmit16++privateStringWrite pText++arguments)++
    [.csClear]

def bt816CmdText (xc0 yc0 font : Int16) (options : UInt16) (pText : Mem UInt8) : List Event :=
  stringCommand cmdText [xc0.toUInt16,yc0.toUInt16,font.toUInt16,options] pText []

def bt816CmdTextVar (xc0 yc0 font : Int16) (options : UInt16) (pText : Mem UInt8)
    (numArgs : UInt8) (pArguments : Option (Mem UInt32)) : List Event :=
  stringCommand cmdText [xc0.toUInt16,yc0.toUInt16,font.toUInt16,options] pText
    (formatArguments options numArgs pArguments)

def bt816CmdButton (xc0 yc0 width height font : Int16) (options : UInt16) (pText : Mem UInt8) :
    List Event :=
  stringCommand cmdButton [xc0.toUInt16,yc0.toUInt16,width.toUInt16,height.toUInt16,
    font.toUInt16,options] pText []

def bt816CmdButtonVar (xc0 yc0 width height font : Int16) (options : UInt16) (pText : Mem UInt8)
    (numArgs : UInt8) (pArguments : Option (Mem UInt32)) : List Event :=
  stringCommand cmdButton [xc0.toUInt16,yc0.toUInt16,width.toUInt16,height.toUInt16,
    font.toUInt16,options] pText (formatArguments options numArgs pArguments)

def bt816CmdKeys (xc0 yc0 wid hgt font : Int16) (options : UInt16) (pText : Mem UInt8) :
    List Event :=
  stringCommand cmdKeys [xc0.toUInt16,yc0.toUInt16,wid.toUInt16,hgt.toUInt16,font.toUInt16,
    options] pText []

def bt816CmdToggle (xc0 yc0 width font : Int16) (options state : UInt16) (pText : Mem UInt8) :
    List Event :=
  stringCommand cmdToggle [xc0.toUInt16,yc0.toUInt16,width.toUInt16,font.toUInt16,options,
    state] pText []

def bt816CmdToggleVar (xc0 yc0 width font : Int16) (options state : UInt16) (pText : Mem UInt8)
    (numArgs : UInt8) (pArguments : Option (Mem UInt32)) : List Event :=
  stringCommand cmdToggle [xc0.toUInt16,yc0.toUInt16,width.toUInt16,font.toUInt16,options,
    state] pText (formatArguments options numArgs pArguments)

/-! ## Calls -/

/-- A C string: the memory from its address on, with a zero behind its bytes
and none inside. -/
structure CString where
  /-- The memory from p_text on. -/
  mem : Mem UInt8
  /-- The number of bytes before the zero. -/
  length : ℕ
  /-- The string ends. -/
  ends : mem length=0
  /-- It does not end earlier. -/
  inside : ∀ i<length,mem i≠0

/-- The bytes of a string. -/
def CString.bytes (s : CString) : List UInt8 := load s.mem 0 s.length

/-- The command that a call gives, with its fields. -/
inductive Header where
  | text (xc0 yc0 font : Int16) (options : UInt16)
  | button (xc0 yc0 width height font : Int16) (options : UInt16)
  | keys (xc0 yc0 wid hgt font : Int16) (options : UInt16)
  | toggle (xc0 yc0 width font : Int16) (options state : UInt16)
  deriving DecidableEq

/-- The options of a command. -/
def Header.options : Header → UInt16
  | .text _ _ _ options | .button _ _ _ _ _ options | .keys _ _ _ _ _ options
  | .toggle _ _ _ _ options _ => options

/-- A call of one of the seven functions. -/
inductive Call where
  | text (xc0 yc0 font : Int16) (options : UInt16) (pText : CString)
  | textVar (xc0 yc0 font : Int16) (options : UInt16) (pText : CString) (numArgs : UInt8)
      (pArguments : Option (Mem UInt32))
  | button (xc0 yc0 width height font : Int16) (options : UInt16) (pText : CString)
  | buttonVar (xc0 yc0 width height font : Int16) (options : UInt16) (pText : CString)
      (numArgs : UInt8) (pArguments : Option (Mem UInt32))
  | keys (xc0 yc0 wid hgt font : Int16) (options : UInt16) (pText : CString)
  | toggle (xc0 yc0 width font : Int16) (options state : UInt16) (pText : CString)
  | toggleVar (xc0 yc0 width font : Int16) (options state : UInt16) (pText : CString)
      (numArgs : UInt8) (pArguments : Option (Mem UInt32))

/-- The events of a call. -/
def Call.events : Call → List Event
  | .text xc0 yc0 font options s => bt816CmdText xc0 yc0 font options s.mem
  | .textVar xc0 yc0 font options s n p => bt816CmdTextVar xc0 yc0 font options s.mem n p
  | .button xc0 yc0 width height font options s =>
    bt816CmdButton xc0 yc0 width height font options s.mem
  | .buttonVar xc0 yc0 width height font options s n p =>
    bt816CmdButtonVar xc0 yc0 width height font options s.mem n p
  | .keys xc0 yc0 wid hgt font options s => bt816CmdKeys xc0 yc0 wid hgt font options s.mem
  | .toggle xc0 yc0 width font options state s =>
    bt816CmdToggle xc0 yc0 width font options state s.mem
  | .toggleVar xc0 yc0 width font options state s n p =>
    bt816CmdToggleVar xc0 yc0 width font options state s.mem n p

/-- The command of a call. -/
def Call.header : Call → Header
  | .text xc0 yc0 font options _ | .textVar xc0 yc0 font options _ _ _ =>
    .text xc0 yc0 font options
  | .button xc0 yc0 width height font options _
  | .buttonVar xc0 yc0 width height font options _ _ _ =>
    .button xc0 yc0 width height font options
  | .keys xc0 yc0 wid hgt font options _ => .keys xc0 yc0 wid hgt font options
  | .toggle xc0 yc0 width font options state _
  | .toggleVar xc0 yc0 width font options state _ _ _ => .toggle xc0 yc0 width font options state

/-- The string of a call. -/
def Call.pText : Call → CString
  | .text _ _ _ _ s | .textVar _ _ _ _ s _ _ | .button _ _ _ _ _ _ s
  | .buttonVar _ _ _ _ _ _ s _ _ | .keys _ _ _ _ _ _ s | .toggle _ _ _ _ _ _ s
  | .toggleVar _ _ _ _ _ _ s _ _ => s

/-- The arguments that a call sends: none without OPT_FORMAT or behind a null pointer. -/
def Call.arguments (c : Call) : List UInt32 :=
  match c with
  | .textVar _ _ _ _ _ n (some p) | .buttonVar _ _ _ _ _ _ _ n (some p)
  | .toggleVar _ _ _ _ _ _ _ n (some p) =>
    if c.header.options&&&optFormat≠0 then load p 0 n.toNat else []
  | _ => []

/-! ## The co-processor's side -/

/-- What is read off the words of a command. -/
structure Received where
  /-- The command and its fields. -/
  header : Header
  /-- The string. -/
  text : List UInt8
  /-- The arguments. -/
  arguments : List UInt32
  deriving DecidableEq

/-- The first field of a word. -/
def lowField (w : UInt32) : UInt16 :=
  join16 ((w>>>8)&&&0xFF).toUInt8 (w&&&0xFF).toUInt8

/-- The second field of a word. -/
def highField (w : UInt32) : UInt16 :=
  join16 ((w>>>24)&&&0xFF).toUInt8 ((w>>>16)&&&0xFF).toUInt8

/-- Read the fixed fields of a command. -/
def parseHeader (command : UInt32) (ws : List UInt32) : Option (Header×List UInt32) :=
  if command=cmdText then
    match ws with
    | w0::w1::rest => some (.text (lowField w0).toInt16 (highField w0).toInt16
        (lowField w1).toInt16 (highField w1),rest)
    | _ => none
  else
    match ws with
    | w0::w1::w2::rest =>
      if command=cmdButton then
        some (.button (lowField w0).toInt16 (highField w0).toInt16 (lowField w1).toInt16
          (highField w1).toInt16 (lowField w2).toInt16 (highField w2),rest)
      else if command=cmdKeys then
        some (.keys (lowField w0).toInt16 (highField w0).toInt16 (lowField w1).toInt16
          (highField w1).toInt16 (lowField w2).toInt16 (highField w2),rest)
      else if command=cmdToggle then
        some (.toggle (lowField w0).toInt16 (highField w0).toInt16 (lowField w1).toInt16
          (highField w1).toInt16 (lowField w2) (highField w2),rest)
      else none
    | _ => none

/-- Read a command that has `argc` arguments when OPT_FORMAT is set. -/
def parseCommand (argc : ℕ) : List UInt32 → Option (Received×List UInt32)
  | [] => none
  | command::ws => do
    let (header,ws) ← parseHeader command ws
    let (text,ws) ← parseText ws
    let n := if header.options&&&optFormat≠0 then argc else 0
    if ws.length<n then none
    else some (⟨header,text,ws.take n⟩,ws.drop n)

/-- Read the commands of a stream, told the number of arguments of each. -/
def parseCommands (argc : ℕ → ℕ) : ℕ → ℕ → List UInt32 → Option (List Received)
  | _,_,[] => some []
  | 0,_,_::_ => none
  | fuel+1,i,w::ws => do
    let (command,rest) ← parseCommand (argc i) (w::ws)
    let commands ← parseCommands argc fuel (i+1) rest
    some (command::commands)

/-- Read a whole stream. -/
def parseStream (argc : ℕ → ℕ) (ws : List UInt32) : Option (List Received) :=
  parseCommands argc ws.length 0 ws

/-! ## What a call sends -/

/-- The command word of a header. -/
def Header.command : Header → UInt32
  | .text .. => cmdText
  | .button .. => cmdButton
  | .keys .. => cmdKeys
  | .toggle .. => cmdToggle

/-- The fields of a header, in their order on the wire. -/
def Header.fields : Header → List UInt16
  | .text xc0 yc0 font options => [xc0.toUInt16,yc0.toUInt16,font.toUInt16,options]
  | .button xc0 yc0 width height font options =>
    [xc0.toUInt16,yc0.toUInt16,width.toUInt16,height.toUInt16,font.toUInt16,options]
  | .keys xc0 yc0 wid hgt font options =>
    [xc0.toUInt16,yc0.toUInt16,wid.toUInt16,hgt.toUInt16,font.toUInt16,options]
  | .toggle xc0 yc0 width font options state =>
    [xc0.toUInt16,yc0.toUInt16,width.toUInt16,font.toUInt16,options,state]

/-- The bytes of a field on the wire. -/
def fieldBytes (v : UInt16) : List UInt8 := [v.toUInt8,(v>>>8).toUInt8]

/-- Fields two by two. -/
def fieldWords : List UInt16 → List UInt32
  | x::y::rest => wireWord x.toUInt8 (x>>>8).toUInt8 y.toUInt8 (y>>>8).toUInt8::fieldWords rest
  | _ => []

/-- The string of a call as far as it is sent. -/
def Call.sentText (c : Call) : List UInt8 := c.pText.bytes.take 249

/-- The words of a call. -/
def Call.words (c : Call) : List UInt32 :=
  c.header.command::fieldWords c.header.fields++WireWords.words (terminated c.sentText)++c.arguments

/-- What the co-processor should read off the words of a call. -/
def Call.received (c : Call) : Received := ⟨c.header,c.sentText,c.arguments⟩

theorem CString.bytes_ne_zero (s : CString) : ∀ b∈s.bytes,b≠0 := by
  intro b hb
  obtain ⟨i,hi,rfl⟩ := List.mem_map.mp hb
  rw [Nat.zero_add]
  exact s.inside i (List.mem_range.mp hi)

theorem Call.sentText_ne_zero (c : Call) : ∀ b∈c.sentText,b≠0 :=
  fun b hb => c.pText.bytes_ne_zero b (List.mem_of_mem_take hb)

/-- The loop runs to the zero of the string or to its byte 249. -/
theorem textLoop_eq (s : CString) (i : UInt8) (hi : i.toNat ≤ min 249 s.length) :
    (textLoop s.mem i).1=
        (load s.mem i.toNat (min 249 s.length-i.toNat)).flatMap bt816SpiTransmit ∧
      (textLoop s.mem i).2.toNat=min 249 s.length := by
  have h249 : (249 : UInt8).toNat=249 := rfl
  induction i using textLoop.induct s.mem with
  | case1 i hgo ih =>
    have hlt := UInt8.lt_iff_toNat_lt.mp hgo.1
    have hinside : i.toNat<s.length := by
      by_contra hge
      have hend : i.toNat=s.length := by omega
      exact hgo.2 (hend ▸ s.ends)
    have hnext : (i+1).toNat=i.toNat+1 := by
      rw [UInt8.toNat_add]
      have h1 : (1 : UInt8).toNat=1 := rfl
      omega
    have ih := ih (by omega)
    rw [hnext] at ih
    have hload : load s.mem i.toNat (min 249 s.length-i.toNat)=
        s.mem i.toNat::load s.mem (i.toNat+1) (min 249 s.length-(i.toNat+1)) := by
      have h := load_append s.mem i.toNat 1 (min 249 s.length-(i.toNat+1))
      have hsum : 1+(min 249 s.length-(i.toNat+1))=min 249 s.length-i.toNat := by omega
      rwa [hsum] at h
    rw [textLoop,if_pos hgo,hload,List.flatMap_cons,← ih.1]
    exact ⟨rfl,ih.2⟩
  | case2 i hstop =>
    have hend : i.toNat=min 249 s.length := by
      by_contra hne
      exact hstop ⟨UInt8.lt_iff_toNat_lt.mpr (by omega),s.inside i.toNat (by omega)⟩
    rw [textLoop,if_neg hstop,← hend,Nat.sub_self]
    exact ⟨rfl,rfl⟩

/-- private_string_write sends the string, cut and terminated. -/
theorem sends_privateStringWrite (s : CString) :
    Sends (privateStringWrite s.mem) (terminated (s.bytes.take 249)) := by
  obtain ⟨hevents,hlast⟩ := textLoop_eq s 0 (Nat.zero_le _)
  have htake : s.bytes.take 249=load s.mem 0 (min 249 s.length) := by
    rw [CString.bytes,load,load,← List.map_take,List.take_range]
  have hpad : (4-((textLoop s.mem 0).2&&&3)).toNat=4-min 249 s.length%4 := by
    have h3 : ((textLoop s.mem 0).2&&&3).toNat=min 249 s.length%4 := by
      rw [UInt8.toNat_and,hlast]
      exact Nat.and_two_pow_sub_one_eq_mod _ 2
    have h4 : (4 : UInt8).toNat=4 := rfl
    rw [UInt8.toNat_sub_of_le _ _ (UInt8.le_iff_toNat_le.mpr (by omega)),h3,h4]
  rw [privateStringWrite]
  dsimp only
  rw [transmitZeros,hpad,hevents,htake,terminated,load_length]
  exact (sends_bytes _).append (sends_bytes _)

/-- The arguments of a formatted command. -/
theorem sends_formatArguments (options : UInt16) (n : UInt8) (p : Mem UInt32) :
    Sends (formatArguments options n (some p))
      ((if options&&&optFormat≠0 then load p 0 n.toNat else []).flatMap wireBytes) := by
  unfold formatArguments
  split
  · exact sends_flatMap sends_transmit32 _
  · exact sends_nil

theorem formatArguments_none (options : UInt16) (n : UInt8) :
    formatArguments options n none=[] := by
  unfold formatArguments
  split <;> rfl

/-- Every call is the shared body on its header, its string and its arguments. -/
theorem Call.events_eq (c : Call) :
    ∃ arguments,c.events=stringCommand c.header.command c.header.fields c.pText.mem arguments ∧
      Sends arguments (c.arguments.flatMap wireBytes) := by
  cases c with
  | text | button | keys | toggle => exact ⟨[],rfl,sends_nil⟩
  | textVar _ _ _ options _ n p | buttonVar _ _ _ _ _ options _ n p
  | toggleVar _ _ _ _ options _ _ n p =>
    refine ⟨formatArguments options n p,rfl,?_⟩
    cases p with
    | none =>
      rw [formatArguments_none]
      exact sends_nil
    | some p => exact sends_formatArguments options n p

/-- The fields of a header fill whole words. -/
theorem Header.fields_bytes (h : Header) :
    h.fields.flatMap fieldBytes=(fieldWords h.fields).flatMap wireBytes := by
  cases h <;>
    simp only [fields,fieldWords,fieldBytes,List.flatMap_cons,List.flatMap_nil,wireBytes_wireWord,
      List.cons_append,List.nil_append]

/-- A call is one session: the address bytes and the words of the call. -/
theorem Call.sendsSessions (c : Call) :
    SendsSessions c.events [cmdAddress++c.words.flatMap wireBytes] := by
  obtain ⟨arguments,hevents,harguments⟩ := c.events_eq
  have hfields : Sends (c.header.fields.flatMap transmit16) (c.header.fields.flatMap fieldBytes) :=
    sends_flatMap (fun v => (sends_transmit _).append (sends_transmit _)) _
  have h := ((((sends_beginCmd c.header.command).append hfields).append
    (sends_privateStringWrite c.pText)).append harguments).session
  have hbytes : cmdAddress++c.words.flatMap wireBytes=
      cmdAddress++wireBytes c.header.command++c.header.fields.flatMap fieldBytes++
        terminated (c.pText.bytes.take 249)++c.arguments.flatMap wireBytes := by
    rw [words,List.flatMap_append,List.flatMap_append,List.flatMap_cons,sentText,
      flatMap_wireBytes_words (terminated_length_mod _),Header.fields_bytes]
    simp only [List.append_assoc]
  rw [hevents,hbytes]
  exact h

/-- The sessions of a sequence of calls. -/
theorem sendsSessions_calls (calls : List Call) :
    SendsSessions (calls.flatMap Call.events)
      (calls.map fun c => cmdAddress++c.words.flatMap wireBytes) := by
  induction calls with
  | nil => exact sendsSessions_nil
  | cons c calls ih =>
    rw [List.flatMap_cons,List.map_cons]
    exact c.sendsSessions.append ih

/-! ## Reading the words back -/

theorem lowField_wireWord (x : UInt16) (b2 b3 : UInt8) :
    lowField (wireWord x.toUInt8 (x>>>8).toUInt8 b2 b3)=x := by
  have h := wireBytes_wireWord x.toUInt8 (x>>>8).toUInt8 b2 b3
  simp only [wireBytes,List.cons.injEq] at h
  rw [lowField,h.1,h.2.1,join16_bytes]

theorem highField_wireWord (b0 b1 : UInt8) (y : UInt16) :
    highField (wireWord b0 b1 y.toUInt8 (y>>>8).toUInt8)=y := by
  have h := wireBytes_wireWord b0 b1 y.toUInt8 (y>>>8).toUInt8
  simp only [wireBytes,List.cons.injEq] at h
  rw [highField,h.2.2.1,h.2.2.2.1,join16_bytes]

/-- A header is read back from its words. -/
theorem parseHeader_words (h : Header) (rest : List UInt32) :
    parseHeader h.command (fieldWords h.fields++rest)=some (h,rest) := by
  have hbt : cmdButton≠cmdText := by decide
  have hkt : cmdKeys≠cmdText := by decide
  have hkb : cmdKeys≠cmdButton := by decide
  have htt : cmdToggle≠cmdText := by decide
  have htb : cmdToggle≠cmdButton := by decide
  have htk : cmdToggle≠cmdKeys := by decide
  cases h <;>
    simp [parseHeader,Header.command,Header.fields,fieldWords,lowField_wireWord,
      highField_wireWord,hbt,hkt,hkb,htt,htb,htk]

/-- Without OPT_FORMAT no argument is sent. -/
theorem Call.arguments_of_not_format {c : Call} (h : ¬c.header.options&&&optFormat≠0) :
    c.arguments=[] := by
  unfold arguments
  split <;> first | rfl | exact if_neg h

/-- A call is read back from its words. -/
theorem parseCommand_words (c : Call) (rest : List UInt32) :
    parseCommand c.arguments.length (c.words++rest)=some (c.received,rest) := by
  have hn : (if c.header.options&&&optFormat≠0 then c.arguments.length else 0)=
      c.arguments.length := by
    split
    case isTrue => rfl
    case isFalse h => rw [Call.arguments_of_not_format h]; rfl
  rw [Call.words,List.append_assoc,List.append_assoc,List.cons_append,parseCommand,
    parseHeader_words]
  simp only [bind,Option.bind]
  rw [parseText_terminated c.sentText_ne_zero]
  simp only [hn]
  rw [if_neg (by rw [List.length_append]; omega),List.take_left,List.drop_left]
  rfl

/-- The calls are read back one after another. -/
theorem parseCommands_words (argc : ℕ → ℕ) (calls : List Call) (fuel i : ℕ)
    (hargc : ∀ j c,calls[j]?=some c → argc (i+j)=c.arguments.length)
    (hfuel : (calls.flatMap Call.words).length≤fuel) :
    parseCommands argc fuel i (calls.flatMap Call.words)=some (calls.map Call.received) := by
  induction calls generalizing fuel i with
  | nil => cases fuel <;> rfl
  | cons c calls ih =>
    have hc := hargc 0 c rfl
    rw [Nat.add_zero] at hc
    rw [List.flatMap_cons] at hfuel ⊢
    have hparse := parseCommand_words c (calls.flatMap Call.words)
    rw [← hc] at hparse
    obtain ⟨tail,htail⟩ : ∃ tail,c.words++calls.flatMap Call.words=c.header.command::tail :=
      ⟨_,rfl⟩
    have hwords : 0<c.words.length := Nat.succ_pos _
    rw [List.length_append] at hfuel
    obtain ⟨fuel,rfl⟩ : ∃ f,fuel=f+1 := ⟨fuel-1,by omega⟩
    have ih := ih fuel (i+1)
      (fun j d hd => by rw [Nat.add_right_comm]; exact hargc (j+1) d hd) (by omega)
    rw [htail] at hparse ⊢
    rw [parseCommands]
    simp only [bind,Option.bind,hparse,ih,List.map_cons]

/-- The number of arguments of the call at a place of the sequence. -/
def argumentCounts (calls : List Call) (i : ℕ) : ℕ :=
  match calls[i]? with
  | some c => c.arguments.length
  | none => 0

/-- The words behind the address bytes of all sessions. -/
def wordStream (sent : List (List UInt8)) : List UInt32 :=
  sent.flatMap fun session => WireWords.words (session.drop 3)

/-- The word stream of a sequence of calls. -/
theorem wordStream_calls (calls : List Call) :
    wordStream (calls.map fun c => cmdAddress++c.words.flatMap wireBytes)=
      calls.flatMap Call.words := by
  rw [wordStream,List.flatMap_map]
  simp only [drop_cmdAddress,words_flatMap_wireBytes]

/-- Every call is one session of whole words behind the address bytes, and a
reader told the numbers of arguments recovers each call's command, fields,
string up to byte 249 and arguments. -/
theorem parseStream_calls (calls : List Call) :
    ∃ sent,sessionsOf (calls.flatMap Call.events)=some sent ∧ sent.length=calls.length ∧
      (∀ session∈sent,session.take 3=cmdAddress ∧ 4∣(session.drop 3).length) ∧
      parseStream (argumentCounts calls) (wordStream sent)=some (calls.map Call.received) := by
  refine ⟨_,(sendsSessions_calls calls).sessionsOf,List.length_map _,?_,?_⟩
  · intro session hs
    obtain ⟨c,-,rfl⟩ := List.mem_map.mp hs
    refine ⟨rfl,?_⟩
    rw [drop_cmdAddress,List.length_flatMap]
    simp
  · rw [wordStream_calls]
    refine parseCommands_words _ calls _ 0 (fun j c hc => ?_) le_rfl
    rw [Nat.zero_add,argumentCounts,hc]

/-- The empty string. -/
def CString.empty : CString := ⟨fun _ => 0,0,rfl,fun i hi => absurd hi (Nat.not_lt_zero i)⟩

/-- A formatted text with the four words of a text as its arguments. -/
def formattedCall : List Call :=
  [.textVar 0 0 0 optFormat .empty 4 (some fun i => [cmdText,0,0,0].getD i 0)]

/-- A formatted text without arguments and the text behind it. -/
def formattedThenText : List Call :=
  [.textVar 0 0 0 optFormat .empty 0 none,.text 0 0 0 0 .empty]

/-- Two sequences of calls with the same words: no reader of the words alone
recovers the calls. -/
theorem no_reader_of_words : ¬∃ read : List UInt32 → List Received,
    ∀ (calls : List Call) (sent : List (List UInt8)),
    sessionsOf (calls.flatMap Call.events)=some sent →
      read (wordStream sent)=calls.map Call.received := by
  rintro ⟨read,h⟩
  have h1 := h formattedCall _ (sendsSessions_calls formattedCall).sessionsOf
  have h2 := h formattedThenText _ (sendsSessions_calls formattedThenText).sessionsOf
  have hsame : formattedCall.flatMap Call.words=formattedThenText.flatMap Call.words := by decide
  rw [wordStream_calls] at h1 h2
  rw [hsame,h2] at h1
  exact absurd (congrArg List.length h1) (by decide)

end BT816Display.StringCommands
