import BT816Display.Bt816Spi
import BT816Display.Lib.WordFields

/-!
# Bulk writers of bt816_cmd.c

bt816_cmd_memwrite, bt816_mem_write_buffer and bt816_block_transfer fill the
last word of their data with zeros, each by a loop of its own.
-/

namespace BT816Display.Bt816Cmd

open ByteMemory Bt816Spi WireWords WordFields

/-- REG_CMDB_WRITE. -/
abbrev regCmdbWrite : UInt32 := 0x00302578

/-- CMD_MEMWRITE. -/
abbrev cmdMemwrite : UInt32 := 0xFFFFFF1A

/-- bt816_begin_cmd: the address of the command buffer and the command. -/
def bt816BeginCmd (command : UInt32) : List Event :=
  let addr := regCmdbWrite|||0x00800000
  bt816SpiTransmit ((addr>>>16)&&&0xFF).toUInt8++bt816SpiTransmit ((addr>>>8)&&&0xFF).toUInt8++
    bt816SpiTransmit (addr&&&0xFF).toUInt8++bt816SpiTransmit (command&&&0xFF).toUInt8++
    bt816SpiTransmit ((command>>>8)&&&0xFF).toUInt8++
    bt816SpiTransmit ((command>>>16)&&&0xFF).toUInt8++
    bt816SpiTransmit ((command>>>24)&&&0xFF).toUInt8

/-- A loop that transmits `n` bytes of memory. -/
def transmitBytes (mem : Mem UInt8) (ptr n : ℕ) : List Event :=
  (load mem ptr n).flatMap bt816SpiTransmit

/-- A loop that transmits `n` zeros. -/
def transmitZeros (n : ℕ) : List Event := (List.replicate n 0).flatMap bt816SpiTransmit

/-- bt816_cmd_memwrite. -/
def bt816CmdMemwrite (mem : Mem UInt8) (memAddr num : UInt32) (dataPtr : ℕ) : List Event :=
  let padding := 4-(num&&&3)
  [.csSet]++
    (bt816BeginCmd cmdMemwrite++bt816SpiTransmit32 memAddr++bt816SpiTransmit32 num++
      transmitBytes mem dataPtr num.toNat++transmitZeros padding.toNat)++
    [.csClear]

/-- bt816_mem_write_buffer. -/
def bt816MemWriteBuffer (mem : Mem UInt8) (btAddr : UInt32) (data : ℕ) (cnt : UInt32) :
    List Event :=
  let length := (cnt+3)&&&~~~3
  [.csSet]++
    (bt816SpiTransmit ((btAddr>>>16).toUInt8|||0x80)++bt816SpiTransmit (btAddr>>>8).toUInt8++
      bt816SpiTransmit (btAddr&&&0xFF).toUInt8++transmitBytes mem data cnt.toNat++
      transmitZeros (length.toNat-cnt.toNat))++
    [.csClear]

/-- bt816_mem_read8, bt816_mem_read16 and bt816_mem_read32: the address, and a
byte more than the value has. -/
def memRead (addr cnt : UInt32) : List Event :=
  [.csSet]++
    (bt816SpiTransmit ((addr>>>16)&&&0xFF).toUInt8++bt816SpiTransmit ((addr>>>8)&&&0xFF).toUInt8++
      [.receive (addr&&&0xFF).toUInt8 cnt])++
    [.csClear]

/-- bt816_mem_read16. -/
def bt816MemRead16 (addr : UInt32) : List Event := memRead addr 3

/-- bt816_mem_read32. -/
def bt816MemRead32 (addr : UInt32) : List Event := memRead addr 5

/-- block_len of a round. -/
def blockLen (bytesLeft : UInt32) : UInt32 := if bytesLeft>3840 then 3840 else bytesLeft

theorem blockLen_toNat (bytesLeft : UInt32) :
    (blockLen bytesLeft).toNat=min 3840 bytesLeft.toNat := by
  have h38 : (3840 : UInt32).toNat=3840 := rfl
  unfold blockLen
  split
  case isTrue h =>
    have h := UInt32.lt_iff_toNat_lt.mp h
    omega
  case isFalse h =>
    have h := UInt32.not_lt.mp h
    have h := UInt32.le_iff_toNat_le.mp h
    omega

/-- What a round leaves. -/
theorem sub_blockLen_toNat (bytesLeft : UInt32) :
    (bytesLeft-blockLen bytesLeft).toNat=bytesLeft.toNat-3840 := by
  have h := blockLen_toNat bytesLeft
  rw [UInt32.toNat_sub_of_le _ _ (UInt32.le_iff_toNat_le.mpr (by omega)),h]
  omega

/-- The loop of bt816_block_transfer. -/
def bt816BlockTransfer (mem : Mem UInt8) (pData : ℕ) (bytesLeft : UInt32) : List Event :=
  if bytesLeft>0 then
    [.csSet]++
      (bt816SpiTransmit 0xB0++bt816SpiTransmit 0x25++bt816SpiTransmit 0x78++
        bt816SpiTransmitArrayWithPadding mem (blockLen bytesLeft) pData)++
      [.csClear]++
      bt816BlockTransfer mem (pData+(blockLen bytesLeft).toNat) (bytesLeft-blockLen bytesLeft)
  else []
termination_by bytesLeft.toNat
decreasing_by
  have hpos := UInt32.lt_iff_toNat_lt.mp ‹bytesLeft>0›
  rw [sub_blockLen_toNat]
  rw [UInt32.toNat_zero] at hpos
  omega

/-! ## What the writers send -/

/-- A block filled with zeros up to a whole number of words. -/
def padded (data : List UInt8) : List UInt8 :=
  data++List.replicate ((4-data.length%4)%4) 0

/-- A padded block is the least number of words that hold the data. -/
theorem padded_length (data : List UInt8) : (padded data).length=4*((data.length+3)/4) := by
  rw [padded,List.length_append,List.length_replicate]
  omega

/-- Whole words need no padding. -/
theorem padded_of_words {data : List UInt8} (h : data.length%4=0) : padded data=data := by
  rw [padded,h]
  exact List.append_nil data

/-- Zeros behind the data pad it exactly when they are as many as its padding. -/
theorem append_zeros_eq_padded_iff (data : List UInt8) (n : ℕ) :
    data++List.replicate n 0=padded data ↔ n=(4-data.length%4)%4 := by
  rw [padded,List.append_cancel_left_eq]
  constructor
  · intro h
    simpa only [List.length_replicate] using congrArg List.length h
  · rintro rfl
    rfl

theorem sends_bytes (bytes : List UInt8) : Sends (bytes.flatMap bt816SpiTransmit) bytes := by
  have h := sends_flatMap sends_transmit bytes
  rwa [List.flatMap_singleton'] at h

/-- The bytes of the command buffer's address on the wire. -/
abbrev cmdAddress : List UInt8 := [0xB0,0x25,0x78]

theorem drop_cmdAddress (bytes : List UInt8) : (cmdAddress++bytes).drop 3=bytes := rfl

theorem sends_beginCmd (command : UInt32) :
    Sends (bt816BeginCmd command) (cmdAddress++wireBytes command) :=
  ((((((sends_transmit _).append (sends_transmit _)).append (sends_transmit _)).append
    (sends_transmit _)).append (sends_transmit _)).append (sends_transmit _)).append
    (sends_transmit _)

/-- The bytes of an address that is read. -/
def readAddress (addr : UInt32) : List UInt8 :=
  [((addr>>>16)&&&0xFF).toUInt8,((addr>>>8)&&&0xFF).toUInt8,(addr&&&0xFF).toUInt8]

/-- A read is a session of its address. -/
theorem sendsSessions_memRead (addr cnt : UInt32) :
    SendsSessions (memRead addr cnt) [readAddress addr] :=
  (((sends_transmit _).append (sends_transmit _)).append (sends_receive _ cnt)).session

/-- The one session of bt816_cmd_memwrite. -/
theorem memwrite_sessions (mem : Mem UInt8) (memAddr num : UInt32) (dataPtr : ℕ) :
    sessionsOf (bt816CmdMemwrite mem memAddr num dataPtr)=
      some [cmdAddress++wireBytes cmdMemwrite++wireBytes memAddr++wireBytes num++
        load mem dataPtr num.toNat++List.replicate (4-num.toNat%4) 0] := by
  have hpad : (4-(num&&&3)).toNat=4-num.toNat%4 := by
    have h3 := and_three_toNat num
    rw [UInt32.toNat_sub_of_le _ _ (UInt32.le_iff_toNat_le.mpr (by rw [h3]; simp; omega)),h3]
    rfl
  have h := (((((sends_beginCmd cmdMemwrite).append (sends_transmit32 memAddr)).append
    (sends_transmit32 num)).append (sends_bytes (load mem dataPtr num.toNat))).append
    (sends_bytes (List.replicate (4-num.toNat%4) 0))).session.sessionsOf
  rw [← hpad] at h ⊢
  exact h

/-- The one session of bt816_mem_write_buffer. -/
theorem memWriteBuffer_sessions (mem : Mem UInt8) (btAddr : UInt32) (data : ℕ) (cnt : UInt32) :
    sessionsOf (bt816MemWriteBuffer mem btAddr data cnt)=
      some [[(btAddr>>>16).toUInt8|||0x80,(btAddr>>>8).toUInt8,(btAddr&&&0xFF).toUInt8]++
        load mem data cnt.toNat++
        List.replicate ((cnt.toNat+3)%4294967296/4*4-cnt.toNat) 0] := by
  have hlen : ((cnt+3)&&&~~~3).toNat=(cnt.toNat+3)%4294967296/4*4 := by
    rw [and_not_three_toNat,UInt32.toNat_add]
    rfl
  have h := (((((sends_transmit ((btAddr>>>16).toUInt8|||0x80)).append
    (sends_transmit (btAddr>>>8).toUInt8)).append (sends_transmit (btAddr&&&0xFF).toUInt8)).append
    (sends_bytes (load mem data cnt.toNat))).append
    (sends_bytes (List.replicate (((cnt+3)&&&~~~3).toNat-cnt.toNat) 0))).session.sessionsOf
  rw [hlen] at h
  rw [bt816MemWriteBuffer,transmitBytes,transmitZeros,hlen]
  exact h

/-- bt816_spi_transmit_array_with_padding sends the padded block. -/
theorem sends_transmitArrayWithPadding (mem : Mem UInt8) (cnt : UInt32) (ptr : ℕ) :
    Sends (bt816SpiTransmitArrayWithPadding mem cnt ptr) (padded (load mem ptr cnt.toNat)) := by
  by_cases h0 : cnt=0
  · subst h0
    have hevents : bt816SpiTransmitArrayWithPadding mem 0 ptr=[] := if_neg (by decide)
    rw [hevents,padded_of_words (by rw [load_length]; rfl)]
    exact sends_nil
  have hpos : 0<cnt.toNat := Nat.pos_of_ne_zero fun h => h0 (UInt32.toNat_inj.mp h)
  have hlt := cnt.toNat_lt
  have hcnt : (cnt-1).toNat=cnt.toNat-1 :=
    UInt32.toNat_sub_of_le _ _ (UInt32.le_iff_toNat_le.mpr hpos)
  have hround : ((cnt+3)&&&~~~3).toNat=(cnt.toNat+3)%4294967296/4*4 := by
    rw [and_not_three_toNat,UInt32.toNat_add]
    rfl
  -- The rounded length wraps to 0 for the last three counts and its decrement wraps back.
  have hlength : (((cnt+3)&&&~~~3)-1).toNat=cnt.toNat-1+(4-cnt.toNat%4)%4 := by
    rw [UInt32.toNat_sub,hround]
    have h1 : (1 : UInt32).toNat=1 := rfl
    omega
  have hload : load mem ptr cnt.toNat=mem ptr::load mem (ptr+1) (cnt.toNat-1) := by
    have h := load_append mem ptr 1 (cnt.toNat-1)
    rwa [Nat.add_sub_cancel' hpos] at h
  have h := sends_transfer (mem ptr) (((cnt+3)&&&~~~3)-1)
    (load mem (ptr+1) (cnt.toNat-1)++List.replicate ((4-cnt.toNat%4)%4) 0)
    (by rw [hlength,List.length_append,load_length,List.length_replicate])
  have hevents : bt816SpiTransmitArrayWithPadding mem cnt ptr=
      [.kick (mem ptr) (((cnt+3)&&&~~~3)-1)]++
        (load mem (ptr+1) (cnt.toNat-1)++List.replicate ((4-cnt.toNat%4)%4) 0).map .byteWrite++
        [.waitCmdsts] := by
    rw [bt816SpiTransmitArrayWithPadding,if_pos h0]
    dsimp only
    rw [hcnt,hlength,Nat.add_sub_cancel_left,List.map_append,List.map_replicate,load,List.map_map]
    simp only [List.append_assoc,Function.comp_def]
  rw [hevents,padded,hload,List.length_cons,load_length,Nat.sub_add_cancel hpos]
  exact h

/-! ## Padding rules -/

/-- The bytes of the only session behind its first `n`. -/
def payloadBehind (n : ℕ) (events : List Event) : Option (List UInt8) :=
  match sessionsOf events with
  | some [session] => some (session.drop n)
  | _ => none

/-- What bt816_cmd_memwrite sends behind its argument num. -/
theorem memwrite_payload (mem : Mem UInt8) (memAddr num : UInt32) (dataPtr : ℕ) :
    payloadBehind 15 (bt816CmdMemwrite mem memAddr num dataPtr)=
      some (load mem dataPtr num.toNat++List.replicate (4-num.toNat%4) 0) := by
  rw [payloadBehind,memwrite_sessions]
  rfl

/-- What bt816_mem_write_buffer sends behind the address. -/
theorem memWriteBuffer_payload (mem : Mem UInt8) (btAddr : UInt32) (data : ℕ) (cnt : UInt32) :
    payloadBehind 3 (bt816MemWriteBuffer mem btAddr data cnt)=
      some (load mem data cnt.toNat++
        List.replicate ((cnt.toNat+3)%4294967296/4*4-cnt.toNat) 0) := by
  rw [payloadBehind,memWriteBuffer_sessions]
  rfl

/-- The three bulk writers pad the same block alike, and the command buffer
receives the words of the data and no other. -/
structure WritersPadAlike (mem : Mem UInt8) (memAddr btAddr num : UInt32) (data : ℕ) : Prop where
  /-- The payload of bt816_cmd_memwrite is the padded block. -/
  memwrite : payloadBehind 15 (bt816CmdMemwrite mem memAddr num data)=
    some (padded (load mem data num.toNat))
  /-- So is the one of bt816_mem_write_buffer. -/
  buffer : payloadBehind 15 (bt816CmdMemwrite mem memAddr num data)=
    payloadBehind 3 (bt816MemWriteBuffer mem btAddr data num)
  /-- So are the bytes of bt816_spi_transmit_array_with_padding. -/
  array : payloadBehind 15 (bt816CmdMemwrite mem memAddr num data)=
    bytesOf (bt816SpiTransmitArrayWithPadding mem num data)
  /-- The payload is as many words as hold the data. -/
  words : (payloadBehind 15 (bt816CmdMemwrite mem memAddr num data)).map List.length=
    some (4*((num.toNat+3)/4))

/-- The writers pad alike exactly when the length is no multiple of four and
its rounding does not wrap. -/
theorem writersPadAlike_iff (mem : Mem UInt8) (memAddr btAddr num : UInt32) (data : ℕ) :
    WritersPadAlike mem memAddr btAddr num data ↔ num.toNat%4≠0 ∧ num.toNat+3<4294967296 := by
  have hlt := num.toNat_lt
  have hpad := append_zeros_eq_padded_iff (load mem data num.toNat)
  rw [load_length] at hpad
  constructor
  · rintro ⟨hm,hb,-,-⟩
    rw [hm,memWriteBuffer_payload,Option.some.injEq,eq_comm,hpad] at hb
    rw [memwrite_payload,Option.some.injEq,hpad] at hm
    omega
  · rintro ⟨h4,h3⟩
    have hm : payloadBehind 15 (bt816CmdMemwrite mem memAddr num data)=
        some (padded (load mem data num.toNat)) := by
      rw [memwrite_payload,Option.some.injEq,hpad]
      omega
    refine ⟨hm,?_,?_,?_⟩
    · rw [hm,memWriteBuffer_payload,Option.some.injEq,eq_comm,hpad]
      omega
    · rw [hm,(sends_transmitArrayWithPadding mem num data).bytesOf]
    · rw [hm,Option.map_some,padded_length,load_length]

/-- A block of four bytes is followed by a fifth word, zero. -/
theorem not_writersPadAlike_of_four : ¬∀ mem memAddr btAddr num data,
    WritersPadAlike mem memAddr btAddr num data := by
  intro h
  have hm := (h (fun _ => 0) 0 0 4 0).memwrite
  rw [memwrite_payload] at hm
  exact absurd hm (by decide)

/-! ## Block transfer -/

/-- The sessions of a block of `n` bytes. -/
def blockSessions (mem : Mem UInt8) (p n : ℕ) : List (List UInt8) :=
  (List.range ((n+3839)/3840)).map fun i =>
    cmdAddress++padded (load mem (p+3840*i) (min 3840 (n-3840*i)))

/-- The first session takes up to 3840 bytes and leaves the others the rest. -/
theorem blockSessions_of_pos (mem : Mem UInt8) (p : ℕ) {n : ℕ} (h : 0<n) :
    blockSessions mem p n=
      (cmdAddress++padded (load mem p (min 3840 n)))::blockSessions mem (p+min 3840 n) (n-3840) := by
  have hcount : (n+3839)/3840=(n-3840+3839)/3840+1 := by omega
  rw [blockSessions,hcount,List.range_succ_eq_map,List.map_cons,List.map_map]
  refine congrArg₂ List.cons rfl ?_
  apply List.map_congr_left
  intro i hi
  rw [List.mem_range] at hi
  have ha : p+3840*(i+1)=p+min 3840 n+3840*i := by omega
  have hn : n-3840*(i+1)=n-3840-3840*i := by omega
  simp only [Function.comp_apply,Nat.succ_eq_add_one,ha,hn]

/-- One session for each round of the loop. -/
theorem sendsSessions_blockTransfer (mem : Mem UInt8) (pData : ℕ) (bytesLeft : UInt32) :
    SendsSessions (bt816BlockTransfer mem pData bytesLeft)
      (blockSessions mem pData bytesLeft.toNat) := by
  induction pData,bytesLeft using bt816BlockTransfer.induct with
  | case1 pData bytesLeft hpos ih =>
    have hround := (((sends_transmit 0xB0).append (sends_transmit 0x25)).append
      (sends_transmit 0x78)).append
        (sends_transmitArrayWithPadding mem (blockLen bytesLeft) pData)
    have hn := UInt32.lt_iff_toNat_lt.mp hpos
    rw [UInt32.toNat_zero] at hn
    rw [sub_blockLen_toNat,blockLen_toNat] at ih
    rw [blockLen_toNat] at hround
    rw [bt816BlockTransfer,if_pos hpos,blockSessions_of_pos mem pData hn,blockLen_toNat]
    exact hround.session.append ih
  | case2 pData bytesLeft hpos =>
    have h0 : bytesLeft=0 := by
      by_contra hne
      exact hpos (UInt32.pos_iff_ne_zero.mpr hne)
    subst h0
    rw [bt816BlockTransfer,if_neg hpos]
    exact sendsSessions_nil

/-- Full blocks side by side. -/
theorem flatMap_blocks (mem : Mem UInt8) (p k : ℕ) :
    (List.range k).flatMap (fun i => load mem (p+3840*i) 3840)=load mem p (3840*k) := by
  induction k with
  | zero => rfl
  | succ k ih => rw [List.range_succ,List.flatMap_append,ih,Nat.mul_succ,load_append,
      List.flatMap_singleton]

/-- Padding a block that starts with a full one pads the rest. -/
theorem padded_load_add (mem : Mem UInt8) (p m n : ℕ) :
    padded (load mem p (3840*m+n))=load mem p (3840*m)++padded (load mem (p+3840*m) n) := by
  have hrest : (4-(3840*m+n)%4)%4=(4-n%4)%4 := by omega
  rw [padded,padded,load_length,load_length,load_append,hrest,List.append_assoc]

/-- The payloads of the sessions are the padded block. -/
theorem blockSessions_payload (mem : Mem UInt8) (p n : ℕ) :
    (blockSessions mem p n).flatMap (List.drop 3)=padded (load mem p n) := by
  rw [blockSessions,List.flatMap_map]
  simp only [drop_cmdAddress]
  cases hk : (n+3839)/3840 with
  | zero =>
    have hn : n=0 := by omega
    rw [hn,padded_of_words (by rw [load_length])]
    rfl
  | succ m =>
    obtain ⟨r,rfl⟩ : ∃ r,n=3840*m+r := ⟨n-3840*m,by omega⟩
    have hr : r≤3840 := by omega
    have hfull : (List.range m).flatMap
        (fun i => padded (load mem (p+3840*i) (min 3840 (3840*m+r-3840*i))))=
        (List.range m).flatMap fun i => load mem (p+3840*i) 3840 := by
      apply List.flatMap_congr
      intro i hi
      rw [List.mem_range] at hi
      have hmin : min 3840 (3840*m+r-3840*i)=3840 := by omega
      rw [hmin,padded_of_words (by rw [load_length])]
    have hlast : min 3840 (3840*m+r-3840*m)=r := by omega
    rw [List.range_succ,List.flatMap_append,hfull,flatMap_blocks,List.flatMap_singleton,hlast,
      padded_load_add]

/-- Every session but the last one carries 3840 bytes of the block. -/
theorem blockSessions_full (mem : Mem UInt8) (p n i : ℕ)
    (h : i+1<(blockSessions mem p n).length) :
    (blockSessions mem p n)[i]=cmdAddress++load mem (p+3840*i) 3840 := by
  have hlen : (blockSessions mem p n).length=(n+3839)/3840 := by
    rw [blockSessions,List.length_map,List.length_range]
  have hmin : min 3840 (n-3840*i)=3840 := by omega
  simp only [blockSessions,List.getElem_map,List.getElem_range,hmin]
  rw [padded_of_words (by rw [load_length])]

/-- bt816_block_transfer ends, and its sessions carry the block, padded behind
its end only, in parts of at most 3840 bytes. -/
theorem blockTransfer_lossless (mem : Mem UInt8) (pData : ℕ) (len : UInt32) :
    ∃ sent,sessionsOf (bt816BlockTransfer mem pData len)=some sent ∧
      (∀ s∈sent,s.take 3=cmdAddress ∧ (s.drop 3).length≤3840) ∧
      sent.flatMap (List.drop 3)=
        load mem pData len.toNat++List.replicate ((4-len.toNat%4)%4) 0 ∧
      ∀ i (h : i+1<sent.length),sent[i].drop 3=load mem (pData+3840*i) 3840 := by
  refine ⟨_,(sendsSessions_blockTransfer mem pData len).sessionsOf,?_,?_,?_⟩
  · intro s hs
    obtain ⟨i,-,rfl⟩ := List.mem_map.mp hs
    refine ⟨rfl,?_⟩
    change (padded _).length≤3840
    rw [padded_length,load_length]
    omega
  · rw [blockSessions_payload,padded,load_length]
  · intro i h
    rw [blockSessions_full mem pData len.toNat i h]
    exact drop_cmdAddress _

end BT816Display.Bt816Cmd
