import Mathlib.Data.List.Induction
import BT816Display.Lib.BigEndian
import BT816Display.Lib.ByteMemory

/-!
# The flash loader of udpecho.c

A block of 4096 bytes arrives in four subpackets and is assembled in one
buffer. Subpacket 0 clears the buffer and subpacket 3 writes it to the display
flash; neither looks at the address or the presence of the others.
-/

namespace BT816Display.UdpLoader

open ByteMemory BigEndian

/-- Bytes of a block. -/
abbrev blockSize : ℕ := 4096

/-- Bytes of a subpacket. -/
abbrev packetDataSize : ℕ := 1024

/-- The screens that the loader selects. -/
inductive MenuList where
  /-- MENU_STATE. -/
  | state
  /-- MENU_PROG. -/
  | prog
  /-- Any other screen. -/
  | other
  deriving DecidableEq

/-- The variables that udp_answer uses, with the memories of the display. -/
structure Loader where
  /-- prog_mode_flag. -/
  progModeFlag : UInt8
  /-- rst_flag. -/
  rstFlag : UInt8
  /-- rst_tmr. -/
  rstTmr : UInt16
  /-- current_menu. -/
  currentMenu : MenuList
  /-- prog_menu_cmd. -/
  progMenuCmd : UInt8
  /-- first_visible_message_num. -/
  firstVisibleMessageNum : UInt16
  /-- fl_buf. -/
  flBuf : Mem UInt8
  /-- udp_tx. -/
  udpTx : Mem UInt8
  /-- RAM of the display. -/
  ram : Mem UInt8
  /-- Flash of the display. -/
  flash : Mem UInt8

/-- An executed bt816_cmd_flashupdate: its destination and the bytes copied. -/
structure FlashUpdate where
  /-- Destination in the display flash. -/
  addr : UInt32
  /-- Bytes of the display RAM. -/
  bytes : List UInt8
  deriving DecidableEq

/-- The outcome of udp_answer. -/
structure Answer where
  /-- The state behind it. -/
  loader : Loader
  /-- Length of the answer in udp_tx. -/
  res : ℕ
  /-- The flash updates executed. -/
  updates : List FlashUpdate

/-- bt816_cmd_memwrite. -/
def Loader.cmdMemwrite (s : Loader) (ptr : ℕ) (data : List UInt8) : Loader :=
  {s with ram := store s.ram ptr data}

/-- bt816_cmd_flashupdate. -/
def Loader.cmdFlashupdate (s : Loader) (dest : UInt32) (src num : ℕ) : Loader×FlashUpdate :=
  let bytes := load s.ram src num
  ({s with flash := store s.flash dest.toNat bytes},⟨dest,bytes⟩)

/-- bt816_cmd_flashread. -/
def Loader.cmdFlashread (s : Loader) (dest : ℕ) (src : UInt32) (num : ℕ) : Loader :=
  {s with ram := store s.ram dest (load s.flash src.toNat num)}

/-- Store bytes of the answer. -/
def Loader.answer (s : Loader) (i : ℕ) (data : List UInt8) : Loader :=
  {s with udpTx := store s.udpTx i data}

/-- dev_name. -/
def devName : List UInt8 :=
  [0x42,0x54,0x20,0x46,0x6C,0x61,0x73,0x68,0x20,0x4C,0x6F,0x61,0x64,0x65,0x72,0x20,0x31,0x2E,0x30]

/-- Command 0x01, update flash. -/
def updateFlash (s : Loader) (rx : Mem UInt8) (rxCnt : ℕ) : Answer :=
  let addr := join32 (rx 8) (rx 9) (rx 10) (rx 11)
  let tmp := (rx 12).toNat
  if s.progModeFlag≠0 then
    let s := {s with rstFlag := 1,rstTmr := 2000}
    if addr.toNat%blockSize=0 ∧ tmp<blockSize/packetDataSize ∧ rxCnt=13+packetDataSize then
      let flBuf := if tmp=0 then store s.flBuf 0 (List.replicate blockSize 0) else s.flBuf
      let flBuf := store flBuf (packetDataSize*tmp) (load rx 13 packetDataSize)
      let s := {s with flBuf := flBuf}
      if tmp=blockSize/packetDataSize-1 then
        let s := s.cmdMemwrite 0 (load s.flBuf 0 blockSize)
        let (s,update) := s.cmdFlashupdate addr 0 blockSize
        ⟨s.answer 8 [1],9,[update]⟩
      else ⟨s.answer 8 [1],9,[]⟩
    else ⟨s,0,[]⟩
  else ⟨s,0,[]⟩

/-- Command 0x02, read flash. -/
def readFlash (s : Loader) (rx : Mem UInt8) : Answer :=
  let addr := join32 (rx 8) (rx 9) (rx 10) (rx 11)
  let cnt := (join16 (rx 12) (rx 13)).toNat
  if s.progModeFlag≠0 then
    let s := (s.cmdFlashread 0 addr cnt).answer 8 [1]
    ⟨s.answer 9 (load s.ram 0 cnt),(9+cnt)%65536,[]⟩
  else ⟨s,0,[]⟩

/-- The switch on the command of a request. -/
def command (s : Loader) (rx : Mem UInt8) (rxCnt : ℕ) : Answer :=
  let cmd := join16 (rx 6) (rx 7)
  if cmd=0x00 then ⟨s.answer 8 devName,8+devName.length,[]⟩
  else if cmd=0x01 then updateFlash s rx rxCnt
  else if cmd=0x02 then readFlash s rx
  else if cmd=0x03 then
    let s := {s with progModeFlag := 1,progMenuCmd := 1,currentMenu := .prog}
    ⟨s.answer 8 [0x01],9,[]⟩
  else if cmd=0x04 then
    let s := {s with progModeFlag := 0,firstVisibleMessageNum := 0,currentMenu := .state}
    ⟨s.answer 8 [0x01],9,[]⟩
  else ⟨s,0,[]⟩

/-- udp_answer. -/
def udpAnswer (s : Loader) (rx : Mem UInt8) (rxCnt : ℕ) : Answer :=
  let protocolVersion := rx 0
  if protocolVersion≥1 then
    if rx 1=0x42 ∧ rx 2=0x54 then
      let s := s.answer 0 [0x01,0x42,0x54]
      if rx 3=1 then command (s.answer 3 [0x00,rx 4,rx 5,rx 6,rx 7]) rx rxCnt
      else ⟨s,0,[]⟩
    else ⟨s,0,[]⟩
  else ⟨s,0,[]⟩

/-! ## Runs -/

/-- What happens to the loader. -/
inductive LoaderOp where
  /-- A datagram is handed to udp_answer. -/
  | datagram (rx : Mem UInt8) (rxCnt : ℕ)
  /-- A key of the panel sets prog_mode_flag. -/
  | key (progModeFlag : UInt8)

/-- A subpacket of a block. -/
structure Subpacket where
  /-- Address of the block. -/
  addr : UInt32
  /-- Its number. -/
  num : ℕ
  /-- Its 1024 bytes. -/
  payload : List UInt8
  deriving DecidableEq

/-- The subpacket in a datagram, if it is a well-formed request to update flash. -/
def updateRequest (rx : Mem UInt8) (rxCnt : ℕ) : Option Subpacket :=
  let addr := join32 (rx 8) (rx 9) (rx 10) (rx 11)
  if (rx 0≥1 ∧ (rx 1=0x42 ∧ rx 2=0x54) ∧ rx 3=1 ∧ join16 (rx 6) (rx 7)=0x01) ∧
      addr.toNat%4096=0 ∧ (rx 12).toNat<4 ∧ rxCnt=1037 then
    some ⟨addr,(rx 12).toNat,load rx 13 1024⟩
  else none

/-- The subpacket that the loader accepts with an input. -/
def accepted (s : Loader) : LoaderOp → Option Subpacket
  | .datagram rx rxCnt => if s.progModeFlag≠0 then updateRequest rx rxCnt else none
  | .key _ => none

/-- The outcome of one input. -/
def loaderStep (s : Loader) : LoaderOp → Answer
  | .datagram rx rxCnt => udpAnswer s rx rxCnt
  | .key progModeFlag => ⟨{s with progModeFlag := progModeFlag},0,[]⟩

/-- The loader with the subpackets received so far, oldest first. -/
structure LoaderRun where
  /-- The loader. -/
  loader : Loader
  /-- The subpackets accepted. -/
  received : List Subpacket

/-- Execute one input. -/
def runStep (s : LoaderRun) (op : LoaderOp) : LoaderRun :=
  ⟨(loaderStep s.loader op).loader,s.received++(accepted s.loader op).toList⟩

/-- Execute a sequence of inputs. -/
def loaderRun (s₀ : Loader) (ops : List LoaderOp) : LoaderRun := ops.foldl runStep ⟨s₀,[]⟩

@[simp] theorem loaderRun_concat (s₀ : Loader) (ops : List LoaderOp) (op : LoaderOp) :
    loaderRun s₀ (ops++[op])=runStep (loaderRun s₀ ops) op := List.foldl_concat ..

/-! ## One input -/

/-- A request to this panel is answered under its header. -/
theorem udpAnswer_of_request (s : Loader) {rx : Mem UInt8}
    (h : rx 0≥1 ∧ (rx 1=0x42 ∧ rx 2=0x54) ∧ rx 3=1) (rxCnt : ℕ) :
    udpAnswer s rx rxCnt=
      command ((s.answer 0 [0x01,0x42,0x54]).answer 3 [0x00,rx 4,rx 5,rx 6,rx 7]) rx rxCnt := by
  obtain ⟨hversion,hproto,hdir⟩ := h
  unfold udpAnswer
  dsimp only
  rw [if_pos hversion,if_pos hproto,if_pos hdir]

/-- Any other datagram gets no answer. -/
theorem udpAnswer_of_other (s : Loader) {rx : Mem UInt8}
    (h : ¬(rx 0≥1 ∧ (rx 1=0x42 ∧ rx 2=0x54) ∧ rx 3=1)) (rxCnt : ℕ) :
    udpAnswer s rx rxCnt=⟨s.answer 0 [0x01,0x42,0x54],0,[]⟩ ∨ udpAnswer s rx rxCnt=⟨s,0,[]⟩ := by
  unfold udpAnswer
  dsimp only
  by_cases hversion : rx 0≥1
  · by_cases hproto : rx 1=0x42 ∧ rx 2=0x54
    · rw [if_pos hversion,if_pos hproto,if_neg fun hdir => h ⟨hversion,hproto,hdir⟩]
      exact Or.inl rfl
    · rw [if_pos hversion,if_neg hproto]
      exact Or.inr rfl
  · rw [if_neg hversion]
    exact Or.inr rfl

/-- The buffer behind an accepted subpacket. -/
def assemble (flBuf : Mem UInt8) (r : Subpacket) : Mem UInt8 :=
  store (if r.num=0 then store flBuf 0 (List.replicate blockSize 0) else flBuf)
    (packetDataSize*r.num) r.payload

/-- A well-formed request in program mode. -/
theorem updateFlash_of_wellFormed (s : Loader) {rx : Mem UInt8} {rxCnt : ℕ}
    (hflag : s.progModeFlag≠0)
    (h : (join32 (rx 8) (rx 9) (rx 10) (rx 11)).toNat%4096=0 ∧ (rx 12).toNat<4 ∧ rxCnt=1037) :
    let r : Subpacket := ⟨join32 (rx 8) (rx 9) (rx 10) (rx 11),(rx 12).toNat,load rx 13 1024⟩
    (updateFlash s rx rxCnt).loader.flBuf=assemble s.flBuf r ∧
      (updateFlash s rx rxCnt).updates=
        if r.num=3 then [⟨r.addr,load (assemble s.flBuf r) 0 blockSize⟩] else [] := by
  have hcopy : ∀ m : Mem UInt8,load (store s.ram 0 (load m 0 4096)) 0 4096=load m 0 4096 := by
    intro m
    have hl := load_store_self s.ram 0 (load m 0 4096)
    rwa [load_length] at hl
  unfold updateFlash assemble
  dsimp only [Loader.cmdMemwrite,Loader.cmdFlashupdate,Loader.answer,blockSize,packetDataSize]
  rw [if_pos hflag,if_pos h]
  by_cases h3 : (rx 12).toNat=3
  · rw [if_pos h3,if_pos h3]
    exact ⟨rfl,congrArg (fun b => [FlashUpdate.mk _ b]) (hcopy _)⟩
  · rw [if_neg h3,if_neg h3]
    exact ⟨rfl,rfl⟩

/-- An accepted subpacket goes into the buffer, and the last one of a block
copies the buffer to the display flash. -/
theorem loaderStep_of_accepted {s : Loader} {op : LoaderOp} {r : Subpacket}
    (h : accepted s op=some r) :
    (loaderStep s op).loader.flBuf=assemble s.flBuf r ∧
      (loaderStep s op).updates=
        if r.num=3 then [⟨r.addr,load (assemble s.flBuf r) 0 blockSize⟩] else [] := by
  cases op with
  | key progModeFlag => cases h
  | datagram rx rxCnt =>
    unfold accepted updateRequest at h
    dsimp only at h
    split_ifs at h with hflag hreq
    cases h
    obtain ⟨⟨hversion,hproto,hdir,hcmd⟩,hwell⟩ := hreq
    unfold loaderStep
    dsimp only
    rw [udpAnswer_of_request s ⟨hversion,hproto,hdir⟩]
    unfold command
    dsimp only
    rw [hcmd,if_neg (by decide),if_pos rfl]
    exact updateFlash_of_wellFormed _ hflag hwell

/-- Any other update request leaves the buffer and the flash alone. -/
theorem updateFlash_of_not (s : Loader) {rx : Mem UInt8} {rxCnt : ℕ}
    (h : ¬(s.progModeFlag≠0 ∧
      (join32 (rx 8) (rx 9) (rx 10) (rx 11)).toNat%4096=0 ∧ (rx 12).toNat<4 ∧ rxCnt=1037)) :
    (updateFlash s rx rxCnt).loader.flBuf=s.flBuf ∧ (updateFlash s rx rxCnt).updates=[] := by
  unfold updateFlash
  dsimp only [blockSize,packetDataSize,Nat.reduceDiv,Nat.reduceAdd]
  by_cases hflag : s.progModeFlag≠0
  · rw [if_pos hflag,if_neg fun hw => h ⟨hflag,hw⟩]
    exact ⟨rfl,rfl⟩
  · rw [if_neg hflag]
    exact ⟨rfl,rfl⟩

theorem readFlash_flBuf (s : Loader) (rx : Mem UInt8) :
    (readFlash s rx).loader.flBuf=s.flBuf ∧ (readFlash s rx).updates=[] := by
  unfold readFlash
  dsimp only
  split_ifs <;> exact ⟨rfl,rfl⟩

/-- Any other input leaves the buffer and the flash alone. -/
theorem loaderStep_of_not_accepted {s : Loader} {op : LoaderOp} (h : accepted s op=none) :
    (loaderStep s op).loader.flBuf=s.flBuf ∧ (loaderStep s op).updates=[] := by
  cases op with
  | key progModeFlag => exact ⟨rfl,rfl⟩
  | datagram rx rxCnt =>
    unfold loaderStep
    dsimp only
    by_cases hreq : rx 0≥1 ∧ (rx 1=0x42 ∧ rx 2=0x54) ∧ rx 3=1
    · rw [udpAnswer_of_request s hreq]
      unfold command
      dsimp only
      split_ifs with h0 h1 h2 h3 h4
      · exact ⟨rfl,rfl⟩
      · refine updateFlash_of_not _ fun hw => ?_
        unfold accepted updateRequest at h
        dsimp only at h
        have hflag : s.progModeFlag≠0 := hw.1
        rw [if_pos hflag,if_pos ⟨⟨hreq.1,hreq.2.1,hreq.2.2,h1⟩,hw.2⟩] at h
        cases h
      · exact readFlash_flBuf _ rx
      all_goals exact ⟨rfl,rfl⟩
    · rcases udpAnswer_of_other s hreq rxCnt with ha|ha
      all_goals
        rw [ha]
        exact ⟨rfl,rfl⟩

/-- An accepted subpacket is that of its datagram. -/
theorem updateRequest_of_accepted {s : Loader} {rx : Mem UInt8} {rxCnt : ℕ} {r : Subpacket}
    (h : accepted s (.datagram rx rxCnt)=some r) :
    r=⟨join32 (rx 8) (rx 9) (rx 10) (rx 11),(rx 12).toNat,load rx 13 1024⟩ ∧ (rx 12).toNat<4 := by
  unfold accepted updateRequest at h
  dsimp only at h
  split_ifs at h with hflag hreq
  exact ⟨(Option.some.inj h).symm,hreq.2.2.1⟩

/-- An accepted subpacket is one of four and has 1024 bytes. -/
theorem accepted_wellFormed {s : Loader} {op : LoaderOp} {r : Subpacket}
    (h : accepted s op=some r) : r.num<4 ∧ r.payload.length=1024 := by
  cases op with
  | key progModeFlag => cases h
  | datagram rx rxCnt =>
    obtain ⟨rfl,hnum⟩ := updateRequest_of_accepted h
    refine ⟨hnum,?_⟩
    dsimp only
    rw [load_length]

theorem updateFlash_progModeFlag (s : Loader) (rx : Mem UInt8) (rxCnt : ℕ) :
    (updateFlash s rx rxCnt).loader.progModeFlag=s.progModeFlag := by
  unfold updateFlash
  dsimp only
  split_ifs <;> rfl

theorem readFlash_progModeFlag (s : Loader) (rx : Mem UInt8) :
    (readFlash s rx).loader.progModeFlag=s.progModeFlag := by
  unfold readFlash
  dsimp only
  split_ifs <;> rfl

/-- The program mode that a command leaves. -/
def modeAfter (cmd : UInt16) (progModeFlag : UInt8) : UInt8 :=
  if cmd=0x03 then 1 else if cmd=0x04 then 0 else progModeFlag

theorem modeAfter_other {cmd : UInt16} (h3 : cmd≠0x03) (h4 : cmd≠0x04) (progModeFlag : UInt8) :
    modeAfter cmd progModeFlag=progModeFlag := by
  unfold modeAfter
  rw [if_neg h3,if_neg h4]

/-- Only commands 0x03 and 0x04 change the program mode. -/
theorem command_progModeFlag (s : Loader) (rx : Mem UInt8) (rxCnt : ℕ) :
    (command s rx rxCnt).loader.progModeFlag=
      modeAfter (join16 (rx 6) (rx 7)) s.progModeFlag := by
  unfold command
  dsimp only
  split_ifs with h0 h1 h2 h3 h4
  · exact (modeAfter_other (by rw [h0]; decide) (by rw [h0]; decide) _).symm
  · rw [modeAfter_other (by rw [h1]; decide) (by rw [h1]; decide)]
    exact updateFlash_progModeFlag s rx rxCnt
  · rw [modeAfter_other (by rw [h2]; decide) (by rw [h2]; decide)]
    exact readFlash_progModeFlag s rx
  · rw [h3]
    rfl
  · rw [h4]
    rfl
  · exact (modeAfter_other h3 h4 _).symm

/-- The program mode behind a datagram. -/
theorem udpAnswer_progModeFlag (s : Loader) (rx : Mem UInt8) (rxCnt : ℕ) :
    (udpAnswer s rx rxCnt).loader.progModeFlag=
      if rx 0≥1 ∧ (rx 1=0x42 ∧ rx 2=0x54) ∧ rx 3=1 then
        modeAfter (join16 (rx 6) (rx 7)) s.progModeFlag
      else s.progModeFlag := by
  by_cases hreq : rx 0≥1 ∧ (rx 1=0x42 ∧ rx 2=0x54) ∧ rx 3=1
  · rw [if_pos hreq,udpAnswer_of_request s hreq]
    exact command_progModeFlag _ rx rxCnt
  · rw [if_neg hreq]
    rcases udpAnswer_of_other s hreq rxCnt with ha|ha
    · rw [ha]
      rfl
    · rw [ha]

end BT816Display.UdpLoader
