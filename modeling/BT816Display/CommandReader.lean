import BT816Display.Lib.Frames
import BT816Display.CommandSet

/-!
# The co-processor's side of the command buffer

A command is a word, parameters as its code asks for, and for some codes a
text, a block of data or a compressed stream. A reader that knows the codes
finds the commands of a stream of words; every other word is one of the
display list and stands for itself.
-/

namespace BT816Display.CommandReader

open BigEndian WireWords Bt816Cmd StringCommands CommandSet Frames

/-! ## Layouts -/

/-- A parameter as it is read. -/
inductive Arg where
  /-- A word. -/
  | word (v : UInt32)
  /-- Two halves, the lower one first. -/
  | pair (x y : UInt16)
  deriving DecidableEq

/-- The word of a parameter. -/
def Arg.word32 : Arg → UInt32
  | .word v => v
  | .pair x y => wireWord x.toUInt8 (x>>>8).toUInt8 y.toUInt8 (y>>>8).toUInt8

/-- The two kinds of parameters. -/
inductive Kind where
  | word
  | pair
  deriving DecidableEq

/-- The kind of a parameter. -/
def Arg.kind : Arg → Kind
  | .word _ => .word
  | .pair _ _ => .pair

/-- What follows the parameters. -/
inductive Tail where
  /-- Nothing. -/
  | nothing
  /-- So many bytes. -/
  | bytes (n : ℕ)
  /-- A string, with arguments when it is a format. -/
  | text (format : Bool)
  /-- Data that end by themselves. -/
  | stream
  deriving DecidableEq

/-- What a code asks for. -/
structure Layout where
  /-- Its parameters. -/
  kinds : List Kind
  /-- What follows them. -/
  tail : List Arg → Tail

/-- So many parameters and nothing else. -/
def only (kinds : List Kind) : Layout := ⟨kinds,fun _ => .nothing⟩

/-- The second of two parameters is the number of bytes that follow. -/
def countTail : List Arg → Tail
  | [.word num] => .bytes num.toNat
  | [_,.word num] => .bytes num.toNat
  | _ => .nothing

/-- The options of a string command tell whether it is a format. -/
def formatTail (options : UInt16) : Tail := .text (decide (options&&&optFormat≠0))

/-- Text and button: the options are the last half. -/
def lastOptions : List Arg → Tail
  | [_,.pair _ options] => formatTail options
  | [_,_,.pair _ options] => formatTail options
  | _ => .nothing

/-- Toggle: the options come before the state. -/
def toggleOptions : List Arg → Tail
  | [_,_,.pair options _] => formatTail options
  | _ => .nothing

/-- The data of an image or a video, when they are in the buffer. -/
def directTail : List Arg → Tail
  | [.word options] => if Direct options then .stream else .nothing
  | [_,.word options] => if Direct options then .stream else .nothing
  | _ => .nothing

/-- The data of CMD_INFLATE2. -/
def inflate2Tail : List Arg → Tail
  | [_,.word options] => if options=0 then .stream else .nothing
  | _ => .nothing

/-- The codes and what they ask for. -/
def layouts : List (UInt32×Layout) := [
  (cmdRegread,only [.word,.word]),(cmdAppend,only [.word,.word]),(cmdFlashfast,only [.word]),
  (cmdFlashupdate,only [.word,.word,.word]),(cmdFlashread,only [.word,.word,.word]),
  (cmdFlashsource,only [.word]),(cmdFlashspirx,only [.word,.word]),
  (cmdGetprops,only [.word,.word,.word]),(cmdGetptr,only [.word]),(cmdInterrupt,only [.word]),
  (cmdMediafifo,only [.word,.word]),(cmdMemcpy,only [.word,.word,.word]),
  (cmdMemcrc,only [.word,.word,.word]),(cmdMemset,only [.word,.word,.word]),
  (cmdMemzero,only [.word,.word]),(cmdSetrotate,only [.word]),(cmdSnapshot,only [.word]),
  (cmdSnapshot2,only [.word,.word,.pair,.pair]),(cmdTrack,only [.pair,.pair,.pair]),
  (cmdVideoframe,only [.word,.word]),(cmdAnimdraw,only [.word]),
  (cmdAnimframe,only [.pair,.word,.word]),(cmdAnimstart,only [.word,.word,.word]),
  (cmdAnimstop,only [.word]),(cmdAnimxy,only [.word,.pair]),(cmdAppendf,only [.word,.word]),
  (cmdBitmapTransform,only (List.replicate 13 .word)),(cmdFillwidth,only [.word]),
  (cmdGradienta,only [.pair,.word,.pair,.word]),(cmdRotatearound,only [.word,.word,.word,.word]),
  (cmdBgcolor,only [.word]),(cmdClock,only [.pair,.pair,.pair,.pair]),
  (cmdDial,only [.pair,.pair,.pair]),(cmdFgcolor,only [.word]),
  (cmdGauge,only [.pair,.pair,.pair,.pair]),
  (cmdGetmatrix,only [.word,.word,.word,.word,.word,.word]),(cmdGradcolor,only [.word]),
  (cmdGradient,only [.pair,.word,.pair,.word]),(cmdNumber,only [.pair,.pair,.word]),
  (cmdProgress,only [.pair,.pair,.pair,.pair]),(cmdRomfont,only [.word,.word]),
  (cmdRotate,only [.word]),(cmdScale,only [.word,.word]),
  (cmdScrollbar,only [.pair,.pair,.pair,.pair]),(cmdSetbase,only [.word]),
  (cmdSetbitmap,only [.word,.pair,.pair]),(cmdSetfont,only [.word,.word]),
  (cmdSetfont2,only [.word,.word,.word]),(cmdSetscratch,only [.word]),
  (cmdSketch,only [.pair,.pair,.word,.pair]),(cmdSlider,only [.pair,.pair,.pair,.pair]),
  (cmdSpinner,only [.pair,.pair]),(cmdTranslate,only [.word,.word]),
  (cmdFontcache,only [.word,.word,.word]),(cmdText,⟨[.pair,.pair],lastOptions⟩),
  (cmdButton,⟨[.pair,.pair,.pair],lastOptions⟩),
  (cmdKeys,⟨[.pair,.pair,.pair],fun _ => .text false⟩),
  (cmdToggle,⟨[.pair,.pair,.pair],toggleOptions⟩),(cmdMemwrite,⟨[.word,.word],countTail⟩),
  (cmdFlashspitx,⟨[.word],countTail⟩),(cmdFlashwrite,⟨[.word,.word],countTail⟩),
  (cmdInflate,⟨[.word],fun _ => .stream⟩),(cmdInflate2,⟨[.word,.word],inflate2Tail⟩),
  (cmdLoadimage,⟨[.word,.word],directTail⟩),(cmdPlayvideo,⟨[.word],directTail⟩)]

/-- What a word asks for; a word that is no code asks for nothing. -/
def layoutOf (code : UInt32) : Layout := (layouts.lookup code).getD (only [])

/-! ## Commands -/

/-- What the co-processor knows of formats that are not those of commands. -/
structure Formats where
  /-- The length of the stream at the head of some data. -/
  streamLength : List UInt8 → Option ℕ
  /-- The number of arguments that a format asks for. -/
  argCount : List UInt8 → ℕ

/-- A command, or a word of the display list. -/
structure Command where
  /-- The word. -/
  code : UInt32
  /-- Its parameters. -/
  args : List Arg
  /-- Its text or data. -/
  data : List UInt8
  /-- The arguments of its format. -/
  arguments : List UInt32
  deriving DecidableEq

/-- A word of the display list, or a command of one word. -/
def Command.single (w : UInt32) : Command := ⟨w,[],[],[]⟩

/-- The words of what follows the parameters. -/
def tailWords (data : List UInt8) (arguments : List UInt32) : Tail → List UInt32
  | .nothing => []
  | .bytes _ | .stream => WireWords.words (padded data)
  | .text _ => WireWords.words (terminated data)++arguments

/-- The words of a command. -/
def Command.words (c : Command) : List UInt32 :=
  c.code::(c.args.map Arg.word32++tailWords c.data c.arguments ((layoutOf c.code).tail c.args))

section

variable (F : Formats)

/-- The data are all of a stream. -/
def Formats.IsStream (data : List UInt8) : Prop :=
  ∀ rest,F.streamLength (data++rest)=some data.length

/-- What follows the parameters is as it should be. -/
def TailFits (data : List UInt8) (arguments : List UInt32) : Tail → Prop
  | .nothing => data=[] ∧ arguments=[]
  | .bytes n => data.length=n ∧ arguments=[]
  | .text format => (∀ b∈data,b≠0) ∧
      arguments.length=if format=true then F.argCount data else 0
  | .stream => F.IsStream data ∧ arguments=[]

/-- The command is as its code asks for. -/
structure Command.Fits (c : Command) : Prop where
  /-- The parameters. -/
  kinds : c.args.map Arg.kind=(layoutOf c.code).kinds
  /-- What follows them. -/
  tail : TailFits F c.data c.arguments ((layoutOf c.code).tail c.args)

/-! ## Reading -/

/-- Read parameters. -/
def readArgs : List Kind → List UInt32 → Option (List Arg×List UInt32)
  | [],ws => some ([],ws)
  | .word::kinds,w::ws => (readArgs kinds ws).map fun r => (.word w::r.1,r.2)
  | .pair::kinds,w::ws =>
    (readArgs kinds ws).map fun r => (.pair (lowField w) (highField w)::r.1,r.2)
  | _::_,[] => none

/-- Read a block of bytes and skip to the word boundary. -/
def readBlock (n : ℕ) (ws : List UInt32) : Option (List UInt8×List UInt32) :=
  if ws.length<(n+3)/4 then none
  else some (((ws.take ((n+3)/4)).flatMap wireBytes).take n,ws.drop ((n+3)/4))

/-- Read what follows the parameters. -/
def readTail (ws : List UInt32) : Tail → Option ((List UInt8×List UInt32)×List UInt32)
  | .nothing => some (([],[]),ws)
  | .bytes n => (readBlock n ws).map fun r => ((r.1,[]),r.2)
  | .text format => (parseText ws).bind fun r =>
    let n := if format=true then F.argCount r.1 else 0
    if r.2.length<n then none else some ((r.1,r.2.take n),r.2.drop n)
  | .stream => (F.streamLength (ws.flatMap wireBytes)).bind fun n =>
    (readBlock n ws).map fun r => ((r.1,[]),r.2)

/-- Read a command. -/
def readCommand : List UInt32 → Option (Command×List UInt32)
  | [] => none
  | code::ws => (readArgs (layoutOf code).kinds ws).bind fun r =>
    (readTail F r.2 ((layoutOf code).tail r.1)).map fun t =>
      (⟨code,r.1,t.1.1,t.1.2⟩,t.2)

/-- Parameters are read back. -/
theorem readArgs_words (args : List Arg) (rest : List UInt32) :
    readArgs (args.map Arg.kind) (args.map Arg.word32++rest)=some (args,rest) := by
  induction args with
  | nil => rfl
  | cons a args ih =>
    cases a with
    | word v => exact congrArg (Option.map _) ih
    | pair x y =>
      have hread := congrArg
        (Option.map fun r : List Arg×List UInt32 => (Arg.pair x y::r.1,r.2)) ih
      simp only [List.map_cons,List.cons_append,Arg.kind,Arg.word32,readArgs,lowField_wireWord,
        highField_wireWord]
      exact hread

theorem flatMap_wireBytes_length (ws : List UInt32) : (ws.flatMap wireBytes).length=4*ws.length := by
  induction ws with
  | nil => rfl
  | cons w ws ih =>
    rw [List.flatMap_cons,List.length_append,wireBytes_length,ih,List.length_cons,Nat.mul_succ,
      Nat.add_comm]

/-- A block is read back from its padded words. -/
theorem readBlock_words (data : List UInt8) (rest : List UInt32) :
    readBlock data.length (WireWords.words (padded data)++rest)=some (data,rest) := by
  have hmod : (padded data).length%4=0 := by
    rw [padded_length]
    omega
  have hbytes := flatMap_wireBytes_words hmod
  have hlen : (WireWords.words (padded data)).length=(data.length+3)/4 := by
    have h := congrArg List.length hbytes
    rw [flatMap_wireBytes_length,padded_length] at h
    omega
  have hshort : ¬(WireWords.words (padded data)++rest).length<(data.length+3)/4 := by
    rw [List.length_append]
    omega
  unfold readBlock
  rw [if_neg hshort,←hlen,List.take_left,List.drop_left,hbytes,padded,List.take_left]

/-- The bytes of the words of a block start with the block. -/
theorem flatMap_padded (data : List UInt8) (rest : List UInt32) :
    ∃ more,(WireWords.words (padded data)++rest).flatMap wireBytes=data++more := by
  have hmod : (padded data).length%4=0 := by
    rw [padded_length]
    omega
  rw [List.flatMap_append,flatMap_wireBytes_words hmod,padded,List.append_assoc]
  exact ⟨_,rfl⟩

/-- What follows the parameters is read back. -/
theorem readTail_words {data : List UInt8} {arguments : List UInt32} {tail : Tail}
    (h : TailFits F data arguments tail) (rest : List UInt32) :
    readTail F (tailWords data arguments tail++rest) tail=some ((data,arguments),rest) := by
  cases tail with
  | nothing =>
    obtain ⟨rfl,rfl⟩ := h
    rfl
  | bytes n =>
    obtain ⟨rfl,rfl⟩ := h
    rw [tailWords,readTail,readBlock_words]
    rfl
  | text format =>
    obtain ⟨hzero,hargs⟩ := h
    have hshort : ¬(arguments++rest).length<arguments.length := by
      rw [List.length_append]
      omega
    rw [tailWords,readTail,List.append_assoc,parseText_terminated hzero,Option.bind_some]
    dsimp only
    rw [←hargs,if_neg hshort,List.take_left,List.drop_left]
  | stream =>
    obtain ⟨hstream,rfl⟩ := h
    obtain ⟨more,hmore⟩ := flatMap_padded data rest
    rw [tailWords,readTail,hmore,hstream more,Option.bind_some,readBlock_words]
    rfl

/-- Commands are self-delimiting: they are read back whatever follows. -/
theorem commands_selfDelimiting :
    SelfDelimiting (readCommand F) Command.words (Command.Fits F) := by
  constructor
  · exact fun c _ => List.cons_ne_nil _ _
  · intro c hfits rest
    rw [Command.words,List.cons_append,readCommand,←hfits.kinds,List.append_assoc,readArgs_words,
      Option.bind_some]
    dsimp only
    rw [readTail_words F hfits.tail]
    rfl

end

end BT816Display.CommandReader
