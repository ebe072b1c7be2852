import BT816Display.CommandReader

/-!
# Streams of commands

Whatever the functions of bt816_cmd.c are called with, the port carries whole
words to the command buffer and the reads of the functions with results. The
co-processor finds in the words what each call asks for and nothing else.
There are two exceptions: bt816_cmd_memwrite adds a word of the display list
to a block of whole words, and bt816_cmd_animxy three to every call.
bt816_cmd_append is found as a read of a register.
-/

namespace BT816Display.CommandStream

open ByteMemory BigEndian WireWords Bt816Spi Bt816Cmd CommandSet CommandReader Frames
open StringCommands (Header wordStream fieldBytes optFormat sends_privateStringWrite)

/-! ## What the calls ask for -/

/-- A parameter as the co-processor reads it; of a color it has three bytes. -/
def argOf : Param → Arg
  | .word v => .word v
  | .pair x y => .pair x y
  | .color rgb => .word (wireWord rgb.toUInt8 (rgb>>>8).toUInt8 (rgb>>>16).toUInt8 0)

/-- What a function of fixed length asks for. -/
def fixedMeaning : Fixed → List Command
  | .animxy chnl xc0 yc0 =>
    [⟨cmdAnimxy,[.word chnl.toUInt32,.pair xc0.toUInt16.toUInt8.toUInt16 0],[],[]⟩,
      .single (xc0.toUInt16>>>8).toUInt8.toUInt32,.single yc0.toUInt16.toUInt8.toUInt32,
      .single (yc0.toUInt16>>>8).toUInt8.toUInt32]
  | c => [⟨c.sent.code,c.sent.params.map argOf,[],[]⟩]

/-- The fields of a header two by two. -/
def headerArgs : Header → List Arg
  | .text xc0 yc0 font options => [.pair xc0.toUInt16 yc0.toUInt16,.pair font.toUInt16 options]
  | .button xc0 yc0 width height font options => [.pair xc0.toUInt16 yc0.toUInt16,
      .pair width.toUInt16 height.toUInt16,.pair font.toUInt16 options]
  | .keys xc0 yc0 wid hgt font options => [.pair xc0.toUInt16 yc0.toUInt16,
      .pair wid.toUInt16 hgt.toUInt16,.pair font.toUInt16 options]
  | .toggle xc0 yc0 width font options state => [.pair xc0.toUInt16 yc0.toUInt16,
      .pair width.toUInt16 font.toUInt16,.pair options state]

/-- The data behind a pointer that may be null. -/
def given (pData : Option (Mem UInt8)) (len : UInt32) : List UInt8 :=
  match pData with
  | some p => load p 0 len.toNat
  | none => []

/-- What a call asks for. -/
def meaning : Call → List Command
  | .dl command => [.single command]
  | .plain c => [.single c.code]
  | .fixed c => fixedMeaning c
  | .memRead32 _ => []
  | .string c => [⟨c.header.command,headerArgs c.header,c.sentText,c.arguments⟩]
  | .memwrite mem memAddr num dataPtr =>
    ⟨cmdMemwrite,[.word memAddr,.word num],load mem dataPtr num.toNat,[]⟩::
      if num.toNat%4=0 then [.single 0] else []
  | .flashspitx num pData => [⟨cmdFlashspitx,[.word num],load pData 0 num.toNat,[]⟩]
  | .flashwrite ptr num pData => [⟨cmdFlashwrite,[.word ptr,.word num],given pData num,[]⟩]
  | .inflate2 ptr options pData len =>
    [⟨cmdInflate2,[.word ptr,.word options],if options=0 then given pData len else [],[]⟩]
  | .inflate ptr pData len => [⟨cmdInflate,[.word ptr],given pData len,[]⟩]
  | .loadimage ptr options pData len =>
    [⟨cmdLoadimage,[.word ptr,.word options],if Direct options then given pData len else [],[]⟩]
  | .playvideo options pData len =>
    [⟨cmdPlayvideo,[.word options],if Direct options then given pData len else [],[]⟩]

/-- The addresses that a call reads. -/
def readsOf : Call → List UInt32
  | .fixed c => c.sent.reads.map Read.addr
  | .memRead32 addr => [addr]
  | _ => []

section

variable (F : Formats)

/-- The data of a call are there, and are a stream of their format. -/
def GivesStream (pData : Option (Mem UInt8)) (len : UInt32) : Prop :=
  pData≠none ∧ F.IsStream (given pData len)

/-- A call as the functions are meant to be called: bt816_cmd_dl with a word
that takes no parameters, a read below the flag of a write, as many arguments
as the format asks for, and data in the buffer of the format that the command
expects. -/
def Proper : Call → Prop
  | .dl command => (layoutOf command).kinds=[] ∧ (layoutOf command).tail []=.nothing
  | .memRead32 addr => addr.toNat<2^22
  | .string c => ∀ format,(layoutOf c.header.command).tail (headerArgs c.header)=.text format →
      c.arguments.length=if format=true then F.argCount c.sentText else 0
  | .flashwrite _ _ pData => pData≠none
  | .inflate2 _ options pData len => options=0 → GivesStream F pData len
  | .inflate _ pData len => GivesStream F pData len
  | .loadimage _ options pData len | .playvideo options pData len =>
    Direct options → GivesStream F pData len
  | _ => True

end

/-! ## What the port carries -/

/-- A session to the command buffer. -/
def ToBuffer (session : List UInt8) : Prop := session.take 3=cmdAddress

instance (session : List UInt8) : Decidable (ToBuffer session) :=
  inferInstanceAs (Decidable (_=_))

/-- A read is no session to the command buffer. -/
theorem not_toBuffer_read {addr : UInt32} (h : addr.toNat<2^22) : ¬ToBuffer (readAddress addr) := by
  intro hbuffer
  have hfirst : ((addr>>>16)&&&0xFF).toUInt8=0xB0 := (List.cons.inj hbuffer).1
  have hnat := congrArg UInt8.toNat hfirst
  rw [UInt32.toNat_toUInt8,WordFields.toNat_and_mask 8 rfl,UInt32.toNat_shiftRight] at hnat
  simp [Nat.shiftRight_eq_div_pow] at hnat
  omega

/-- The sessions are whole words to the command buffer and reads. -/
structure Carried (sent : List (List UInt8)) (ws reads : List UInt32) : Prop where
  /-- The sessions to the command buffer are whole words. -/
  whole : ∀ session∈sent,ToBuffer session → 4∣(session.drop 3).length
  /-- The others are the reads, in order. -/
  rest : sent.filter (¬ToBuffer ·)=reads.map readAddress
  /-- No read has the flag of a write. -/
  below : ∀ addr∈reads,addr.toNat<2^22
  /-- The words that the command buffer receives. -/
  words : wordStream sent=ws

theorem Carried.append {sent sent' : List (List UInt8)} {ws ws' reads reads' : List UInt32}
    (h : Carried sent ws reads) (h' : Carried sent' ws' reads') :
    Carried (sent++sent') (ws++ws') (reads++reads') where
  whole := List.forall_mem_append.mpr ⟨h.whole,h'.whole⟩
  rest := by rw [List.filter_append,h.rest,h'.rest,List.map_append]
  below := List.forall_mem_append.mpr ⟨h.below,h'.below⟩
  words := by rw [wordStream,List.flatMap_append,←wordStream,←wordStream,h.words,h'.words]

/-- The events send whole words to the command buffer, and reads. -/
def Carries (events : List Event) (ws reads : List UInt32) : Prop :=
  ∃ sent,SendsSessions events sent ∧ Carried sent ws reads

theorem carries_nil : Carries [] [] [] :=
  ⟨[],sendsSessions_nil,nofun,rfl,List.forall_mem_nil _,rfl⟩

theorem Carries.append {as bs : List Event} {ws ws' reads reads' : List UInt32}
    (h : Carries as ws reads) (h' : Carries bs ws' reads') :
    Carries (as++bs) (ws++ws') (reads++reads') := by
  obtain ⟨sent,hs,hsent⟩ := h
  obtain ⟨sent',hs',hsent'⟩ := h'
  exact ⟨sent++sent',hs.append hs',hsent.append hsent'⟩

/-- Calls one after another. -/
theorem carries_flatMap {α : Type} {f : α → List Event} {g r : α → List UInt32} {l : List α}
    (h : ∀ a∈l,Carries (f a) (g a) (r a)) :
    Carries (l.flatMap f) (l.flatMap g) (l.flatMap r) := by
  induction l with
  | nil => exact carries_nil
  | cons a l ih =>
    obtain ⟨ha,hl⟩ := List.forall_mem_cons.mp h
    exact ha.append (ih hl)

/-- Sessions to the command buffer only. -/
theorem carries_buffer {events : List Event} {sent : List (List UInt8)}
    (h : SendsSessions events sent)
    (hall : ∀ session∈sent,ToBuffer session ∧ 4∣(session.drop 3).length) :
    Carries events (wordStream sent) [] := by
  refine ⟨sent,h,fun session hs _ => (hall session hs).2,?_,List.forall_mem_nil _,rfl⟩
  refine List.filter_eq_nil_iff.mpr fun session hs hread => ?_
  exact of_decide_eq_true hread (hall session hs).1

/-- A session of whole words. -/
theorem carries_session {events : List Event} {ws : List UInt32}
    (h : SendsSessions events [cmdAddress++ws.flatMap wireBytes]) : Carries events ws [] := by
  have hwords : wordStream [cmdAddress++ws.flatMap wireBytes]=ws := by
    rw [wordStream,List.flatMap_singleton,drop_cmdAddress,words_flatMap_wireBytes]
  have hall : ∀ session∈[cmdAddress++ws.flatMap wireBytes],
      ToBuffer session ∧ 4∣(session.drop 3).length := by
    refine List.forall_mem_singleton.mpr ⟨rfl,?_⟩
    rw [drop_cmdAddress,flatMap_wireBytes_length]
    exact Nat.dvd_mul_right ..
  have h := carries_buffer h hall
  rwa [hwords] at h

/-- A read. -/
theorem carries_memRead {addr : UInt32} (h : addr.toNat<2^22) (cnt : UInt32) :
    Carries (memRead addr cnt) [] [addr] := by
  have hread := not_toBuffer_read h
  refine ⟨_,sendsSessions_memRead addr cnt,?_,?_,List.forall_mem_singleton.mpr h,rfl⟩
  · exact List.forall_mem_singleton.mpr fun hbuffer => absurd hbuffer hread
  · exact List.filter_cons_of_pos (decide_eq_true hread)

theorem carries_read {r : Read} (h : r.addr.toNat<2^22) : Carries r.events [] [r.addr] := by
  cases r with
  | half addr => exact carries_memRead h 3
  | word addr => exact carries_memRead h 5

theorem sends_param (p : Param) : Sends p.events (wireBytes (argOf p).word32) := by
  cases p with
  | word v => exact sends_transmit32 v
  | pair x y =>
    have h := ((sends_transmit x.toUInt8).append (sends_transmit (x>>>8).toUInt8)).append
      ((sends_transmit y.toUInt8).append (sends_transmit (y>>>8).toUInt8))
    rw [argOf,Arg.word32,wireBytes_wireWord]
    exact h
  | color rgb =>
    rw [argOf,Arg.word32,wireBytes_wireWord]
    exact (((sends_transmit _).append (sends_transmit _)).append (sends_transmit _)).append
      (sends_transmit _)

/-- Reads one after another. -/
theorem carries_reads {reads : List Read} (h : ∀ r∈reads,r.addr.toNat<2^22) :
    Carries (reads.flatMap Read.events) [] (reads.map Read.addr) := by
  induction reads with
  | nil => exact carries_nil
  | cons r reads ih =>
    obtain ⟨hr,hreads⟩ := List.forall_mem_cons.mp h
    exact (carries_read hr).append (ih hreads)

/-- A command word and parameters are one session. -/
theorem sendsSessions_sent (s : Sent) :
    SendsSessions ([.csSet]++(bt816BeginCmd s.code++s.params.flatMap Param.events)++[.csClear])
      [cmdAddress++(s.code::s.params.map fun p => (argOf p).word32).flatMap wireBytes] := by
  have h := ((sends_beginCmd s.code).append (sends_flatMap sends_param s.params)).session
  rw [List.flatMap_cons,List.flatMap_map]
  exact h

/-- The reads follow it. -/
theorem carries_sent {s : Sent} (hreads : ∀ r∈s.reads,r.addr.toNat<2^22) :
    Carries s.events (s.code::s.params.map fun p => (argOf p).word32) (s.reads.map Read.addr) := by
  have h := (carries_session (sendsSessions_sent s)).append (carries_reads hreads)
  rwa [List.append_nil,List.nil_append] at h

/-- Whole words in front of other bytes. -/
theorem words_append {as : List UInt8} (h : as.length%4=0) (bs : List UInt8) :
    WireWords.words (as++bs)=WireWords.words as++WireWords.words bs := by
  have hsplit (ws : List UInt32) :
      WireWords.words (ws.flatMap wireBytes++bs)=ws++WireWords.words bs := by
    induction ws with
    | nil => rfl
    | cons w ws ih =>
      rw [List.flatMap_cons,List.append_assoc,words_wireBytes_append,ih,List.cons_append]
  have h := hsplit (WireWords.words as)
  rwa [flatMap_wireBytes_words ‹as.length%4=0›] at h

/-- The words of sessions of whole words are those of their bytes. -/
theorem wordStream_eq {sent : List (List UInt8)} (h : ∀ s∈sent,(s.drop 3).length%4=0) :
    wordStream sent=WireWords.words (sent.flatMap (List.drop 3)) := by
  induction sent with
  | nil => rfl
  | cons s sent ih =>
    obtain ⟨hs,hrest⟩ := List.forall_mem_cons.mp h
    have ih := ih hrest
    rw [wordStream] at ih ⊢
    rw [List.flatMap_cons,List.flatMap_cons,words_append hs,ih]

/-- bt816_block_transfer carries the padded block. -/
theorem carries_blockTransfer (mem : Mem UInt8) (pData : ℕ) (len : UInt32) :
    Carries (bt816BlockTransfer mem pData len)
      (WireWords.words (padded (load mem pData len.toNat))) [] := by
  have hall : ∀ s∈blockSessions mem pData len.toNat,ToBuffer s ∧ 4∣(s.drop 3).length := by
    intro s hs
    obtain ⟨i,-,rfl⟩ := List.mem_map.mp hs
    rw [drop_cmdAddress,padded_length]
    exact ⟨rfl,Nat.dvd_mul_right ..⟩
  have h := carries_buffer (sendsSessions_blockTransfer mem pData len) hall
  rwa [wordStream_eq fun s hs => Nat.mod_eq_zero_of_dvd (hall s hs).2,blockSessions_payload] at h

/-! ## Functions of fixed length -/

/-- A word that asks for nothing is a command. -/
theorem single_fits (F : Formats) {w : UInt32} (hkinds : (layoutOf w).kinds=[])
    (htail : (layoutOf w).tail []=.nothing) : (Command.single w).Fits F := by
  refine ⟨hkinds.symm,?_⟩
  have h : (layoutOf (Command.single w).code).tail (Command.single w).args=.nothing := htail
  rw [h]
  exact ⟨rfl,rfl⟩

/-- The codes are the last 256 words. -/
theorem layouts_ge : ∀ e∈layouts,0xFFFFFF00≤e.1 := by decide

/-- A word below the codes asks for nothing. -/
theorem layoutOf_of_lt {w : UInt32} (h : w<0xFFFFFF00) : layoutOf w=only [] := by
  have hnone : layouts.lookup w=none := by
    rw [List.lookup_eq_none_iff]
    intro e he
    have hge := layouts_ge e he
    have hne : w≠e.1 := by
      intro heq
      rw [←heq] at hge
      exact absurd hge (UInt32.not_le.mpr h)
    exact bne_iff_ne.mpr hne
  rw [layoutOf,hnone]
  rfl

theorem single_words {w : UInt32} (htail : (layoutOf w).tail []=.nothing) :
    (Command.single w).words=[w] := by
  have h : (layoutOf (Command.single w).code).tail (Command.single w).args=.nothing := htail
  rw [Command.words,h]
  rfl

/-- A byte is a word of the display list. -/
theorem byte_single (F : Formats) (b : UInt8) :
    (Command.single b.toUInt32).Fits F ∧ (Command.single b.toUInt32).words=[b.toUInt32] := by
  have hb := b.toNat_lt
  have hlt : b.toUInt32<0xFFFFFF00 := by
    rw [UInt32.lt_iff_toNat_lt,UInt8.toNat_toUInt32]
    have hcode : (0xFFFFFF00 : UInt32).toNat=4294967040 := rfl
    omega
  have hlayout := layoutOf_of_lt hlt
  have hkinds : (layoutOf b.toUInt32).kinds=[] := by rw [hlayout]; rfl
  have htail : (layoutOf b.toUInt32).tail []=.nothing := by rw [hlayout]; rfl
  exact ⟨single_fits F hkinds htail,single_words htail⟩

/-- A byte sent as a word reads as two halves. -/
theorem byteWord (b : UInt8) : (Arg.pair b.toUInt16 0).word32=b.toUInt32 := by
  have hlow : b.toUInt16.toUInt8=b := UInt8.toUInt8_toUInt16 b
  have hb := b.toNat_lt
  have hhigh : (b.toUInt16>>>8).toUInt8=0 := by
    apply UInt8.toNat_inj.mp
    have h8 : (8 : UInt16).toNat%16=8 := rfl
    rw [UInt16.toNat_toUInt8,UInt16.toNat_shiftRight,UInt8.toNat_toUInt16,h8,
      Nat.shiftRight_eq_div_pow,Nat.div_eq_of_lt (by omega)]
    rfl
  apply UInt32.toNat_inj.mp
  rw [Arg.word32,hlow,hhigh,wireWord,join32_toNat,UInt8.toNat_toUInt32]
  simp

/-- What the functions of fixed length ask for is as the codes ask for it. -/
theorem fixed_fits (F : Formats) (c : Fixed) : ∀ m∈fixedMeaning c,m.Fits F := by
  have hone {m : Command} (h : m.Fits F) : ∀ m'∈[m],m'.Fits F :=
    List.forall_mem_singleton.mpr h
  cases c with
  | animxy chnl xc0 yc0 =>
    intro m hm
    rcases List.mem_cons.mp hm with rfl|hm
    · exact ⟨rfl,rfl,rfl⟩
    · rcases List.mem_cons.mp hm with rfl|hm
      · exact (byte_single F _).1
      · rcases List.mem_cons.mp hm with rfl|hm
        · exact (byte_single F _).1
        · obtain rfl := List.mem_singleton.mp hm
          exact (byte_single F _).1
  | _ => exact hone ⟨rfl,rfl,rfl⟩

/-- The functions of fixed length send the words of what they ask for. -/
theorem fixed_words (F : Formats) (c : Fixed) :
    (fixedMeaning c).flatMap Command.words=
      c.sent.code::c.sent.params.map fun p => (argOf p).word32 := by
  cases c with
  | animxy chnl xc0 yc0 =>
    have hfirst (a : Arg) : Command.words ⟨cmdAnimxy,[.word chnl.toUInt32,a],[],[]⟩=
        [cmdAnimxy,chnl.toUInt32,a.word32] := rfl
    rw [fixedMeaning,List.flatMap_cons,List.flatMap_cons,List.flatMap_cons,List.flatMap_cons,
      List.flatMap_nil,hfirst,byteWord,(byte_single F _).2,(byte_single F _).2,(byte_single F _).2]
    rfl
  | _ => rfl

/-- The command buffer lies below the flag of a write. -/
theorem ramCmd_add_lt (offset : UInt32) : (ramCmd+(offset&&&0xFFF)).toNat<2^22 := by
  have hoffset := WordFields.toNat_and_mask (x:=offset) (m:=0xFFF) 12 rfl
  have hbase : ramCmd.toNat=3178496 := rfl
  rw [UInt32.toNat_add,hoffset,hbase]
  omega

theorem resultReads_lt (cmdWrite : UInt16) : ∀ r∈resultReads cmdWrite,r.addr.toNat<2^22 := by
  have hoffset : ((cmdWrite-4)&&&0xFFF).toUInt32=(cmdWrite-4).toUInt32&&&0xFFF :=
    UInt16.toUInt32_and ..
  refine List.forall_mem_cons.mpr ⟨by decide,List.forall_mem_singleton.mpr ?_⟩
  change (ramCmd+((cmdWrite-4)&&&0xFFF).toUInt32).toNat<2^22
  rw [hoffset]
  exact ramCmd_add_lt _

theorem resultRead_lt (given : Bool) (cmdWrite : UInt16) (back : UInt32) :
    ∀ r∈resultRead given cmdWrite back,r.addr.toNat<2^22 := by
  unfold resultRead
  split
  · exact List.forall_mem_singleton.mpr (ramCmd_add_lt _)
  · exact List.forall_mem_nil _

/-- The functions with results read REG_CMD_WRITE and the command buffer. -/
theorem fixed_reads (c : Fixed) : ∀ r∈c.sent.reads,r.addr.toNat<2^22 := by
  have hwrite : ∀ r∈[Read.half regCmdWrite],r.addr.toNat<2^22 :=
    List.forall_mem_singleton.mpr (by decide)
  cases c with
  | regread _ cmdWrite => exact resultReads_lt cmdWrite
  | flashfast cmdWrite => exact resultReads_lt cmdWrite
  | getptr cmdWrite => exact resultReads_lt cmdWrite
  | memcrc _ _ cmdWrite => exact resultReads_lt cmdWrite
  | bitmapTransform _ _ _ _ _ _ _ _ _ _ _ _ cmdWrite => exact resultReads_lt cmdWrite
  | getprops cmdWrite pPointer pWidth pHeight =>
    simp only [Fixed.sent,bt816CmdGetprops,List.forall_mem_append]
    exact ⟨⟨⟨hwrite,resultRead_lt _ _ _⟩,resultRead_lt _ _ _⟩,resultRead_lt _ _ _⟩
  | getmatrix cmdWrite pA pB pC pD pE pF =>
    simp only [Fixed.sent,bt816CmdGetmatrix,List.forall_mem_append]
    exact ⟨⟨⟨⟨⟨⟨hwrite,resultRead_lt _ _ _⟩,resultRead_lt _ _ _⟩,resultRead_lt _ _ _⟩,
      resultRead_lt _ _ _⟩,resultRead_lt _ _ _⟩,resultRead_lt _ _ _⟩
  | _ => exact List.forall_mem_nil _

/-! ## Functions with strings and data -/

/-- The fields of a header are its words. -/
theorem headerArgs_words (h : Header) :
    (headerArgs h).map Arg.word32=StringCommands.fieldWords h.fields := by
  cases h <;> rfl

/-- The kinds of a header. -/
theorem headerArgs_kinds (h : Header) :
    (headerArgs h).map Arg.kind=(layoutOf h.command).kinds := by
  cases h <;> rfl

/-- A string follows the fields of every header. -/
theorem header_tail (h : Header) :
    ∃ format,(layoutOf h.command).tail (headerArgs h)=.text format := by
  cases h <;> exact ⟨_,rfl⟩

/-- The words of a call with a string are those of what it asks for. -/
theorem string_words (c : StringCommands.Call) :
    Command.words ⟨c.header.command,headerArgs c.header,c.sentText,c.arguments⟩=c.words := by
  obtain ⟨format,htail⟩ := header_tail c.header
  unfold Command.words StringCommands.Call.words
  dsimp only
  rw [htail,headerArgs_words,tailWords]
  simp only [List.cons_append,List.append_assoc]

/-- A call with a string sends the words of what it asks for. -/
theorem carries_string (c : StringCommands.Call) :
    Carries c.events
      (Command.words ⟨c.header.command,headerArgs c.header,c.sentText,c.arguments⟩) [] := by
  rw [string_words]
  exact carries_session c.sendsSessions

/-- A block of whole words is followed by another word, zero. -/
theorem words_overpadded (data : List UInt8) :
    WireWords.words (data++List.replicate (4-data.length%4) 0)=
      WireWords.words (padded data)++if data.length%4=0 then [0] else [] := by
  by_cases h : data.length%4=0
  · rw [if_pos h,h,padded_of_words h,words_append h]
    rfl
  · have hpad : (4-data.length%4)%4=4-data.length%4 := by omega
    rw [if_neg h,padded,hpad,List.append_nil]

/-- bt816_cmd_memwrite carries its block, and a word more behind whole words. -/
theorem carries_memwrite (mem : Mem UInt8) (memAddr num : UInt32) (dataPtr : ℕ) :
    Carries (bt816CmdMemwrite mem memAddr num dataPtr) (cmdMemwrite::memAddr::num::
      (WireWords.words (padded (load mem dataPtr num.toNat))++
        if num.toNat%4=0 then [0] else [])) [] := by
  have hpad : (4-(num&&&3)).toNat=4-num.toNat%4 := by
    have h3 := WordFields.and_three_toNat num
    rw [UInt32.toNat_sub_of_le _ _ (UInt32.le_iff_toNat_le.mpr (by rw [h3]; simp; omega)),h3]
    rfl
  have h := (((((sends_beginCmd cmdMemwrite).append (sends_transmit32 memAddr)).append
    (sends_transmit32 num)).append (sends_bytes (load mem dataPtr num.toNat))).append
    (sends_bytes (List.replicate (4-num.toNat%4) 0))).session
  rw [←hpad] at h
  have hover := words_overpadded (load mem dataPtr num.toNat)
  rw [load_length] at hover
  have hmod : (load mem dataPtr num.toNat++List.replicate (4-num.toNat%4) 0).length%4=0 := by
    rw [List.length_append,load_length,List.length_replicate]
    omega
  apply carries_session
  rw [←hover,List.flatMap_cons,List.flatMap_cons,List.flatMap_cons,flatMap_wireBytes_words hmod,
    ←hpad]
  simp only [←List.append_assoc]
  exact h

/-- A command followed by a block of data. -/
theorem carries_block {s : Sent} {data : List UInt8} {events : List Event} (hreads : s.reads=[])
    (hevents : Carries events (WireWords.words (padded data)) [])
    (htail : (∃ n,(layoutOf s.code).tail (s.params.map argOf)=.bytes n) ∨
      (layoutOf s.code).tail (s.params.map argOf)=.stream) :
    Carries (s.events++events) (Command.words ⟨s.code,s.params.map argOf,data,[]⟩) [] := by
  have hwords : Command.words ⟨s.code,s.params.map argOf,data,[]⟩=
      (s.code::s.params.map fun p => (argOf p).word32)++WireWords.words (padded data) := by
    have htailWords : tailWords data [] ((layoutOf s.code).tail (s.params.map argOf))=
        WireWords.words (padded data) := by
      rcases htail with ⟨n,htail⟩|htail <;> rw [htail] <;> rfl
    unfold Command.words
    dsimp only
    rw [htailWords,List.map_map,List.cons_append]
    rfl
  rw [hwords]
  have h := (carries_sent (s:=s) (by rw [hreads]; exact List.forall_mem_nil _)).append hevents
  rwa [hreads,List.map_nil,List.nil_append] at h

/-- The data behind a pointer that is not null. -/
theorem carries_given {pData : Option (Mem UInt8)} (h : pData≠none) (len : UInt32) :
    Carries (transferGiven pData len) (WireWords.words (padded (given pData len))) [] := by
  obtain ⟨p,rfl⟩ := Option.ne_none_iff_exists'.mp h
  exact carries_blockTransfer p 0 len

/-- A command followed by a stream on a condition. -/
theorem carries_stream {s : Sent} {p : Prop} [Decidable p] {pData : Option (Mem UInt8)}
    {len : UInt32} (hreads : s.reads=[]) (h : p → pData≠none)
    (htail : (layoutOf s.code).tail (s.params.map argOf)=if p then .stream else .nothing) :
    Carries (s.events++if p then transferGiven pData len else [])
      (Command.words ⟨s.code,s.params.map argOf,if p then given pData len else [],[]⟩) [] := by
  by_cases hp : p
  · rw [if_pos hp] at htail
    rw [if_pos hp,if_pos hp]
    exact carries_block hreads (carries_given (h hp) len) (Or.inr htail)
  · rw [if_neg hp] at htail
    have hwords : Command.words ⟨s.code,s.params.map argOf,[],[]⟩=
        s.code::s.params.map fun p => (argOf p).word32 := by
      unfold Command.words
      dsimp only
      rw [htail,List.map_map,tailWords,List.append_nil]
      rfl
    rw [if_neg hp,if_neg hp,List.append_nil,hwords]
    have h := carries_sent (s:=s) (by rw [hreads]; exact List.forall_mem_nil _)
    rwa [hreads] at h

theorem tailFits_stream {F : Formats} {p : Prop} [Decidable p] {data : List UInt8}
    (h : p → F.IsStream data) :
    TailFits F (if p then data else []) [] (if p then .stream else .nothing) := by
  split
  case isTrue hp => exact ⟨h hp,rfl⟩
  case isFalse => exact ⟨rfl,rfl⟩

/-! ## Streams of calls -/

/-- What a call asks for is as the codes ask for it. -/
theorem meaning_fits {F : Formats} {c : Call} (h : Proper F c) : ∀ m∈meaning c,m.Fits F := by
  have hone {m : Command} (h : m.Fits F) : ∀ m'∈[m],m'.Fits F :=
    List.forall_mem_singleton.mpr h
  cases c with
  | dl command => exact hone (single_fits F h.1 h.2)
  | plain c => exact hone (by cases c <;> exact single_fits F rfl rfl)
  | fixed c => exact fixed_fits F c
  | memRead32 addr => exact List.forall_mem_nil _
  | string c =>
    obtain ⟨format,htail⟩ := header_tail c.header
    refine hone ⟨headerArgs_kinds c.header,?_⟩
    dsimp only
    rw [htail]
    exact ⟨c.sentText_ne_zero,h format htail⟩
  | memwrite mem memAddr num dataPtr =>
    have hfirst : Command.Fits F
        ⟨cmdMemwrite,[.word memAddr,.word num],load mem dataPtr num.toNat,[]⟩ :=
      ⟨rfl,load_length ..,rfl⟩
    refine List.forall_mem_cons.mpr ⟨hfirst,?_⟩
    split
    · exact hone (single_fits F rfl rfl)
    · exact nofun
  | flashspitx num pData => exact hone ⟨rfl,load_length ..,rfl⟩
  | flashwrite ptr num pData =>
    obtain ⟨p,rfl⟩ := Option.ne_none_iff_exists'.mp h
    exact hone ⟨rfl,load_length ..,rfl⟩
  | inflate ptr pData len => exact hone ⟨rfl,h.2,rfl⟩
  | inflate2 ptr options pData len => exact hone ⟨rfl,tailFits_stream fun hp => (h hp).2⟩
  | loadimage ptr options pData len => exact hone ⟨rfl,tailFits_stream fun hp => (h hp).2⟩
  | playvideo options pData len => exact hone ⟨rfl,tailFits_stream fun hp => (h hp).2⟩

/-- A call carries the words of what it asks for, and its reads. -/
theorem carries_call {F : Formats} {c : Call} (h : Proper F c) :
    Carries c.events ((meaning c).flatMap Command.words) (readsOf c) := by
  cases c with
  | dl command =>
    rw [meaning,List.flatMap_singleton,single_words h.2]
    exact carries_sent (s:=bt816CmdDl command) (List.forall_mem_nil _)
  | plain c =>
    have htail : (layoutOf c.code).tail []=.nothing := by cases c <;> rfl
    rw [meaning,List.flatMap_singleton,single_words htail]
    exact carries_sent (s:=bt816CmdDl c.code) (List.forall_mem_nil _)
  | fixed c =>
    rw [meaning,fixed_words F]
    exact carries_sent (fixed_reads c)
  | memRead32 addr => exact carries_memRead h 5
  | string c =>
    rw [meaning,List.flatMap_singleton]
    exact carries_string c
  | memwrite mem memAddr num dataPtr =>
    have hwords : (meaning (.memwrite mem memAddr num dataPtr)).flatMap Command.words=
        cmdMemwrite::memAddr::num::(WireWords.words (padded (load mem dataPtr num.toNat))++
          if num.toNat%4=0 then [0] else []) := by
      rw [meaning,List.flatMap_cons]
      by_cases hn : num.toNat%4=0
      · rw [if_pos hn,if_pos hn]
        rfl
      · rw [if_neg hn,if_neg hn]
        rfl
    rw [hwords]
    exact carries_memwrite mem memAddr num dataPtr
  | flashspitx num pData =>
    rw [meaning,List.flatMap_singleton]
    exact carries_block (s:=⟨cmdFlashspitx,[.word num],[]⟩) rfl (carries_blockTransfer pData 0 num)
      (Or.inl ⟨num.toNat,rfl⟩)
  | flashwrite ptr num pData =>
    rw [meaning,List.flatMap_singleton]
    exact carries_block (s:=⟨cmdFlashwrite,[.word ptr,.word num],[]⟩) rfl (carries_given h num)
      (Or.inl ⟨num.toNat,rfl⟩)
  | inflate ptr pData len =>
    rw [meaning,List.flatMap_singleton]
    exact carries_block (s:=⟨cmdInflate,[.word ptr],[]⟩) rfl (carries_given h.1 len) (Or.inr rfl)
  | inflate2 ptr options pData len =>
    rw [meaning,List.flatMap_singleton]
    exact carries_stream (s:=⟨cmdInflate2,[.word ptr,.word options],[]⟩) rfl (fun hp => (h hp).1) rfl
  | loadimage ptr options pData len =>
    rw [meaning,List.flatMap_singleton]
    exact carries_stream (s:=⟨cmdLoadimage,[.word ptr,.word options],[]⟩) rfl (fun hp => (h hp).1) rfl
  | playvideo options pData len =>
    rw [meaning,List.flatMap_singleton]
    exact carries_stream (s:=⟨cmdPlayvideo,[.word options],[]⟩) rfl (fun hp => (h hp).1) rfl

/-- Calls one after another carry what they ask for, and their reads. -/
theorem carries_calls {F : Formats} {calls : List Call} (h : ∀ c∈calls,Proper F c) :
    Carries (calls.flatMap Call.events) ((calls.flatMap meaning).flatMap Command.words)
      (calls.flatMap readsOf) := by
  rw [List.flatMap_assoc]
  exact carries_flatMap fun c hc => carries_call (h c hc)

/-- What they ask for is as the codes ask for it. -/
theorem meanings_fit {F : Formats} {calls : List Call} (h : ∀ c∈calls,Proper F c) :
    ∀ m∈calls.flatMap meaning,m.Fits F := by
  intro m hm
  obtain ⟨c,hc,hm⟩ := List.mem_flatMap.mp hm
  exact meaning_fits (h c hc) m hm

/-- Commands whose words are carried are found. -/
theorem Carries.read_back {F : Formats} {events : List Event} {cs : List Command}
    {reads : List UInt32} (h : Carries events (cs.flatMap Command.words) reads)
    (hfits : ∀ c∈cs,c.Fits F) :
    ∃ sent,sessionsOf events=some sent ∧ Carried sent (cs.flatMap Command.words) reads ∧
      readStream (readCommand F) (wordStream sent)=some cs := by
  obtain ⟨sent,hsent,hcarried⟩ := h
  refine ⟨sent,hsent.sessionsOf,hcarried,?_⟩
  rw [hcarried.words]
  exact (commands_selfDelimiting F).readStream_flatMap hfits

/-- A format of one number. -/
def oneNumber : StringCommands.CString where
  mem i := [0x25,0x64].getD i 0
  length := 2
  ends := rfl
  inside := by decide

/-- A display list with a number that is written by its format, a block of a
word, an animation and a result that is read back. -/
def oneScreen : List Call :=
  [.plain .dlstart,.dl 0x02000000,.fixed (.setfont2 1 0xC0000 0),
    .string (.textVar 60 90 1 optFormat oneNumber 1 (some fun _ => 816)),
    .memwrite (fun _ => 7) 0 4 0,.fixed (.animxy 1 300 40),.fixed (.memcrc 0 4096 0),.plain .swap]

/-- A format takes an argument for each percent sign. -/
def plainFormats : Formats := ⟨fun _ => none,fun s => s.count 0x25⟩

end BT816Display.CommandStream
