import BT816Display.Lib.BlockAccess
import BT816Display.UdpAssembly

/-!
# Buffers of udpecho.c

The subscripts that udp_answer takes from a datagram. The length of the
datagram is looked at for subpackets only, after their header has been read,
and the length of a read is not looked at, so a short datagram is read behind
its end and a long read is answered behind the end of udp_tx.
-/

namespace BT816Display.UdpBounds

open ByteMemory BigEndian ArrayAccess UdpLoader
open UdpAssembly (programLoader)

/-- UDP_BUF_LENGTH. -/
abbrev udpBufLength : ℕ := 1200

/-- The arrays that udp_answer subscripts. -/
inductive Buffer where
  /-- The payload of the datagram. -/
  | rx
  /-- udp_tx. -/
  | udpTx
  /-- fl_buf. -/
  | flBuf
  deriving DecidableEq

/-- All elements are bytes. -/
abbrev Byte (_ : Buffer) : Type := UInt8

/-- Their sizes for a datagram of a length. -/
def size (rxCnt : ℕ) : Buffer → ℕ
  | .rx => rxCnt
  | .udpTx => udpBufLength
  | .flBuf => blockSize

/-- Command 0x01: the address and the number of the subpacket, then its bytes
in a copy loop whose reads are listed before its writes. -/
def updateFlashAccesses (s : Loader) (rx : Mem UInt8) (rxCnt : ℕ) : List (Access Byte) :=
  let addr := join32 (rx 8) (rx 9) (rx 10) (rx 11)
  let tmp := (rx 12).toNat
  loads .rx 8 5++
    if s.progModeFlag≠0 then
      if addr.toNat%blockSize=0 ∧ tmp<blockSize/packetDataSize ∧ rxCnt=13+packetDataSize then
        (if tmp=0 then stores .flBuf 0 (List.replicate blockSize 0) else [])++
          (loads .rx 13 packetDataSize++
            (stores .flBuf (packetDataSize*tmp) (load rx 13 packetDataSize)++
              ((if tmp=blockSize/packetDataSize-1 then loads .flBuf 0 blockSize else [])++
                stores .udpTx 8 [1])))
      else []
    else []

/-- Command 0x02: the address and the length, then the answer. -/
def readFlashAccesses (s : Loader) (rx : Mem UInt8) : List (Access Byte) :=
  let addr := join32 (rx 8) (rx 9) (rx 10) (rx 11)
  let cnt := (join16 (rx 12) (rx 13)).toNat
  loads .rx 8 6++
    if s.progModeFlag≠0 then
      stores .udpTx 8 [1]++stores .udpTx 9 (load (s.cmdFlashread 0 addr cnt).ram 0 cnt)
    else []

/-- The switch on the command. -/
def commandAccesses (s : Loader) (rx : Mem UInt8) (rxCnt : ℕ) : List (Access Byte) :=
  let cmd := join16 (rx 6) (rx 7)
  if cmd=0x00 then stores .udpTx 8 devName
  else if cmd=0x01 then updateFlashAccesses s rx rxCnt
  else if cmd=0x02 then readFlashAccesses s rx
  else if cmd=0x03 then stores .udpTx 8 [0x01]
  else if cmd=0x04 then stores .udpTx 8 [0x01]
  else []

/-- The accesses of udp_answer; the packet number and the command are read
for the switch and again for the answer. -/
def udpAnswerAccesses (s : Loader) (rx : Mem UInt8) (rxCnt : ℕ) : List (Access Byte) :=
  loads .rx 0 1++
    if rx 0≥1 then
      loads .rx 1 1++
        if rx 1=0x42 then
          loads .rx 2 1++
            if rx 2=0x54 then
              stores .udpTx 0 [0x01,0x42,0x54]++
                (loads .rx 3 1++
                  if rx 3=1 then
                    loads .rx 4 4++
                      (loads .rx 4 4++
                        (stores .udpTx 3 [0x00,rx 4,rx 5,rx 6,rx 7]++commandAccesses s rx rxCnt))
                  else [])
            else []
        else []
    else []

/-! ## The accesses are those of udp_answer -/

/-- The contents of the arrays. -/
def buffers (s : Loader) (rx : Mem UInt8) : Arrays Byte
  | .rx => rx
  | .udpTx => s.udpTx
  | .flBuf => s.flBuf

/-- Performing the stores of an answer leaves the buffers the loader's own answer leaves. -/
theorem foldl_answer (s : Loader) (rx : Mem UInt8) (i : ℕ) (data : List UInt8) :
    (stores .udpTx i data).foldl perform (buffers s rx)=buffers (s.answer i data) rx := by
  rw [foldl_stores]
  funext array
  cases array <;> rfl

/-- Performing the stores of a block leaves fl_buf with the block in it. -/
theorem foldl_flBuf (s : Loader) (rx : Mem UInt8) (i : ℕ) (data : List UInt8) :
    (stores .flBuf i data).foldl perform (buffers s rx)=
      buffers {s with flBuf := store s.flBuf i data} rx := by
  rw [foldl_stores]
  funext array
  cases array <;> rfl

/-- The accesses of the flash write have the effect update_flash has. -/
theorem foldl_updateFlash (s : Loader) (rx : Mem UInt8) (rxCnt : ℕ) :
    (updateFlashAccesses s rx rxCnt).foldl perform (buffers s rx)=
      buffers (updateFlash s rx rxCnt).loader rx := by
  unfold updateFlashAccesses updateFlash
  dsimp only
  rw [List.foldl_append,foldl_loads]
  by_cases hflag : s.progModeFlag≠0
  · rw [if_pos hflag,if_pos hflag]
    split_ifs with hreq hzero hlast hlast
    all_goals
      simp only [List.foldl_append,List.foldl_nil,foldl_loads,foldl_flBuf,foldl_answer]
      rfl
  · rw [if_neg hflag,if_neg hflag]
    rfl

/-- The accesses of the flash read have the effect read_flash has. -/
theorem foldl_readFlash (s : Loader) (rx : Mem UInt8) :
    (readFlashAccesses s rx).foldl perform (buffers s rx)=
      buffers (readFlash s rx).loader rx := by
  unfold readFlashAccesses readFlash
  dsimp only
  rw [List.foldl_append,foldl_loads]
  by_cases hflag : s.progModeFlag≠0
  · rw [if_pos hflag,if_pos hflag,List.foldl_append,foldl_answer,foldl_answer]
    rfl
  · rw [if_neg hflag,if_neg hflag]
    rfl

/-- The accesses of the commands 0xD4 to 0xD9 have the effect of the command. -/
theorem foldl_command (s : Loader) (rx : Mem UInt8) (rxCnt : ℕ) :
    (commandAccesses s rx rxCnt).foldl perform (buffers s rx)=
      buffers (command s rx rxCnt).loader rx := by
  unfold commandAccesses command
  dsimp only
  split_ifs
  · exact foldl_answer s rx 8 devName
  · exact foldl_updateFlash s rx rxCnt
  · exact foldl_readFlash s rx
  · exact foldl_answer s rx 8 [0x01]
  · exact foldl_answer s rx 8 [0x01]
  · rfl

/-- Performing the accesses leaves the arrays as udp_answer leaves them. -/
theorem foldl_udpAnswer (s : Loader) (rx : Mem UInt8) (rxCnt : ℕ) :
    (udpAnswerAccesses s rx rxCnt).foldl perform (buffers s rx)=
      buffers (udpAnswer s rx rxCnt).loader rx := by
  unfold udpAnswerAccesses udpAnswer
  dsimp only
  rw [List.foldl_append,foldl_loads]
  by_cases hversion : rx 0≥1
  · rw [if_pos hversion,if_pos hversion,List.foldl_append,foldl_loads]
    by_cases hb : rx 1=0x42
    · rw [if_pos hb,List.foldl_append,foldl_loads]
      by_cases ht : rx 2=0x54
      · rw [if_pos ht,if_pos (And.intro hb ht),List.foldl_append,foldl_answer,List.foldl_append,foldl_loads]
        by_cases hdir : rx 3=1
        · rw [if_pos hdir,if_pos hdir,List.foldl_append,foldl_loads,List.foldl_append,foldl_loads,
            List.foldl_append,foldl_answer]
          exact foldl_command _ rx rxCnt
        · rw [if_neg hdir,if_neg hdir]
          rfl
      · rw [if_neg ht,if_neg fun h => ht h.2]
        rfl
    · rw [if_neg hb,if_neg fun h => hb h.1]
      rfl
  · rw [if_neg hversion,if_neg hversion]
    rfl

/-- The datagram is read at an index. -/
def Reads (accesses : List (Access Byte)) (i : ℕ) : Prop :=
  (Access.load .rx (i : ℤ) : Access Byte)∈accesses

/-- A sequence reads what its two parts read. -/
@[simp] theorem reads_append (as bs : List (Access Byte)) (i : ℕ) :
    Reads (as++bs) i ↔ Reads as i ∨ Reads bs i := List.mem_append

/-- A block of loads reads exactly its own indices. -/
@[simp] theorem reads_loads (a n i : ℕ) : Reads (loads .rx a n) i ↔ a ≤ i ∧ i<a+n :=
  (load_mem_loads_iff Buffer.rx Buffer.rx a n i).trans (and_iff_right rfl)

/-- update_flash depends on the frame only through the bytes it reads. -/
theorem updateFlash_congr {s : Loader} {rx rx' : Mem UInt8} {rxCnt : ℕ}
    (h : ∀ i,Reads (updateFlashAccesses s rx rxCnt) i → rx' i=rx i) :
    updateFlash s rx' rxCnt=updateFlash s rx rxCnt := by
  have hhead : ∀ i,8 ≤ i → i<13 → rx' i=rx i := by
    intro i hi hi'
    apply h
    unfold updateFlashAccesses
    exact (reads_append _ _ i).mpr (Or.inl ((reads_loads 8 5 i).mpr ⟨hi,hi'⟩))
  have hload : s.progModeFlag≠0 →
      ((join32 (rx 8) (rx 9) (rx 10) (rx 11)).toNat%blockSize=0 ∧
        (rx 12).toNat<blockSize/packetDataSize ∧ rxCnt=13+packetDataSize) →
      load rx' 13 packetDataSize=load rx 13 packetDataSize := by
    intro hflag hreq
    refine load_eq_load_iff.mpr fun i hi => h _ ?_
    unfold updateFlashAccesses
    dsimp only
    rw [if_pos hflag,if_pos hreq]
    simp only [reads_append,reads_loads]
    exact Or.inr (Or.inr (Or.inl ⟨by omega,by omega⟩))
  unfold updateFlash
  rw [hhead 8 (by omega) (by omega),hhead 9 (by omega) (by omega),hhead 10 (by omega) (by omega),
    hhead 11 (by omega) (by omega),hhead 12 (by omega) (by omega)]
  dsimp only
  by_cases hflag : s.progModeFlag≠0
  · rw [if_pos hflag,if_pos hflag]
    by_cases hreq : (join32 (rx 8) (rx 9) (rx 10) (rx 11)).toNat%blockSize=0 ∧
        (rx 12).toNat<blockSize/packetDataSize ∧ rxCnt=13+packetDataSize
    · rw [if_pos hreq,if_pos hreq,hload hflag hreq]
    · rw [if_neg hreq,if_neg hreq]
  · rw [if_neg hflag,if_neg hflag]

/-- read_flash depends on the frame only through the bytes it reads. -/
theorem readFlash_congr {s : Loader} {rx rx' : Mem UInt8}
    (h : ∀ i,Reads (readFlashAccesses s rx) i → rx' i=rx i) :
    readFlash s rx'=readFlash s rx := by
  have hhead : ∀ i,8 ≤ i → i<14 → rx' i=rx i := by
    intro i hi hi'
    apply h
    unfold readFlashAccesses
    exact (reads_append _ _ i).mpr (Or.inl ((reads_loads 8 6 i).mpr ⟨hi,hi'⟩))
  unfold readFlash
  rw [hhead 8 (by omega) (by omega),hhead 9 (by omega) (by omega),hhead 10 (by omega) (by omega),
    hhead 11 (by omega) (by omega),hhead 12 (by omega) (by omega),hhead 13 (by omega) (by omega)]

/-- A command depends on the frame only through its code and the bytes it reads. -/
theorem command_congr {s : Loader} {rx rx' : Mem UInt8} {rxCnt : ℕ} (h6 : rx' 6=rx 6)
    (h7 : rx' 7=rx 7) (h : ∀ i,Reads (commandAccesses s rx rxCnt) i → rx' i=rx i) :
    command s rx' rxCnt=command s rx rxCnt := by
  unfold command
  rw [h6,h7]
  unfold commandAccesses at h
  dsimp only at h ⊢
  split_ifs at h ⊢
  · rfl
  · exact updateFlash_congr h
  · exact readFlash_congr h
  all_goals rfl

/-- The outcome depends on no byte of the datagram that is not among the accesses. -/
theorem udpAnswer_congr {s : Loader} {rx rx' : Mem UInt8} {rxCnt : ℕ}
    (h : ∀ i,Reads (udpAnswerAccesses s rx rxCnt) i → rx' i=rx i) :
    udpAnswer s rx' rxCnt=udpAnswer s rx rxCnt := by
  unfold udpAnswerAccesses at h
  simp only [reads_append,or_imp,forall_and] at h
  have h0 : rx' 0=rx 0 := h.1 0 ((reads_loads 0 1 0).mpr ⟨by omega,by omega⟩)
  unfold udpAnswer
  rw [h0]
  dsimp only
  by_cases hversion : rx 0≥1
  · rw [if_pos hversion,if_pos hversion]
    rw [if_pos hversion] at h
    simp only [reads_append,or_imp,forall_and] at h
    have h1 : rx' 1=rx 1 := h.2.1 1 ((reads_loads 1 1 1).mpr ⟨by omega,by omega⟩)
    rw [h1]
    by_cases hb : rx 1=0x42
    · rw [if_pos hb] at h
      simp only [reads_append,or_imp,forall_and] at h
      have h2 : rx' 2=rx 2 := h.2.2.1 2 ((reads_loads 2 1 2).mpr ⟨by omega,by omega⟩)
      rw [h2]
      by_cases ht : rx 2=0x54
      · rw [if_pos (And.intro hb ht),if_pos (And.intro hb ht)]
        rw [if_pos ht] at h
        simp only [reads_append,or_imp,forall_and] at h
        have h3 : rx' 3=rx 3 := h.2.2.2.2.1 3 ((reads_loads 3 1 3).mpr ⟨by omega,by omega⟩)
        rw [h3]
        by_cases hdir : rx 3=1
        · rw [if_pos hdir] at h
          simp only [reads_append,or_imp,forall_and] at h
          have hhead : ∀ i,4 ≤ i → i<8 → rx' i=rx i :=
            fun i hi hi' => h.2.2.2.2.2.1 i ((reads_loads 4 4 i).mpr ⟨hi,hi'⟩)
          have h6 := hhead 6 (by omega) (by omega)
          have h7 := hhead 7 (by omega) (by omega)
          rw [if_pos hdir,if_pos hdir,hhead 4 (by omega) (by omega),hhead 5 (by omega) (by omega),
            h6,h7]
          exact command_congr h6 h7 h.2.2.2.2.2.2.2.2
        · rw [if_neg hdir,if_neg hdir]
      · rw [if_neg fun hbt => ht hbt.2,if_neg fun hbt => ht hbt.2]
    · rw [if_neg fun hbt => hb hbt.1,if_neg fun hbt => hb hbt.1]
  · rw [if_neg hversion,if_neg hversion]

/-! ## Bounds -/

/-- All subscripts are inside their arrays and the answer fits into udp_tx. -/
def InBuffers (s : Loader) (rx : Mem UInt8) (rxCnt : ℕ) : Prop :=
  Within (size rxCnt) (udpAnswerAccesses s rx rxCnt) ∧ (udpAnswer s rx rxCnt).res≤udpBufLength

/-- The datagram is a request for this device. -/
def IsRequest (rx : Mem UInt8) : Prop := rx 0≥1 ∧ rx 1=0x42 ∧ rx 2=0x54 ∧ rx 3=1

/-- Bytes that the fields of the header call for, one after the other. -/
def headerLength (rx : Mem UInt8) : ℕ :=
  if rx 0≥1 then
    if rx 1=0x42 then
      if rx 2=0x54 then
        if rx 3=1 then
          if join16 (rx 6) (rx 7)=0x01 then 13 else if join16 (rx 6) (rx 7)=0x02 then 14 else 8
        else 4
      else 3
    else 2
  else 1

/-- A request in program mode to read more than udp_tx has room for. -/
def LongRead (s : Loader) (rx : Mem UInt8) : Prop :=
  IsRequest rx ∧ join16 (rx 6) (rx 7)=0x02 ∧ s.progModeFlag≠0 ∧
    1191<(join16 (rx 12) (rx 13)).toNat

/-- A block read of the frame is in bounds when it ends before the received length, or is empty. -/
theorem within_rx_iff (rxCnt a n : ℕ) :
    Within (size rxCnt) (loads .rx a n : List (Access Byte)) ↔ n=0 ∨ a+n ≤ rxCnt :=
  @within_loads_iff Buffer Byte (size rxCnt) .rx a n

/-- An answer is in bounds when it ends within the 1200 bytes of udp_tx, or is empty. -/
theorem within_answer_iff (rxCnt a : ℕ) (data : List UInt8) :
    Within (size rxCnt) (stores .udpTx a data : List (Access Byte)) ↔
      data.length=0 ∨ a+data.length≤1200 :=
  @within_stores_iff Buffer Byte (size rxCnt) .udpTx a data

/-- A block is in bounds when it ends within the 4096 bytes of fl_buf, or is empty. -/
theorem within_flBuf_iff (rxCnt a : ℕ) (data : List UInt8) :
    Within (size rxCnt) (stores .flBuf a data : List (Access Byte)) ↔
      data.length=0 ∨ a+data.length≤4096 :=
  @within_stores_iff Buffer Byte (size rxCnt) .flBuf a data

/-- A short constant answer fits. -/
theorem within_answer (rxCnt : ℕ) {a : ℕ} {data : List UInt8} (h : a+data.length≤1200) :
    Within (size rxCnt) (stores .udpTx a data : List (Access Byte)) :=
  (within_answer_iff rxCnt a data).mpr (Or.inr h)

/-- A subpacket is taken in bounds once its header is there. -/
theorem within_updateFlash_iff (s : Loader) (rx : Mem UInt8) (rxCnt : ℕ) :
    Within (size rxCnt) (updateFlashAccesses s rx rxCnt) ↔ 13 ≤ rxCnt := by
  have hone : Within (size rxCnt) (stores .udpTx 8 [1] : List (Access Byte)) :=
    within_answer rxCnt (by decide)
  unfold updateFlashAccesses
  dsimp only [blockSize,packetDataSize]
  rw [within_append,within_rx_iff]
  have hbuf : Within (size rxCnt) (loads .flBuf 0 4096 : List (Access Byte)) :=
    (@within_loads_iff Buffer Byte (size rxCnt) .flBuf 0 4096).mpr (Or.inr (Nat.le_refl 4096))
  split_ifs with hflag hreq hzero hlast hlast
  all_goals
    simp only [within_append,within_rx_iff,within_flBuf_iff,hone,hbuf,load_length,
      List.length_replicate,within_nil,and_true,true_and,OfNat.ofNat_ne_zero,false_or]
  all_goals omega

/-- A read is answered in bounds when its header is there and the answer fits. -/
theorem within_readFlash_iff (s : Loader) (rx : Mem UInt8) (rxCnt : ℕ) :
    Within (size rxCnt) (readFlashAccesses s rx) ↔
      14 ≤ rxCnt ∧ ¬(s.progModeFlag≠0 ∧ 1191<(join16 (rx 12) (rx 13)).toNat) := by
  have hone : Within (size rxCnt) (stores .udpTx 8 [1] : List (Access Byte)) :=
    within_answer rxCnt (by decide)
  unfold readFlashAccesses
  dsimp only
  rw [within_append,within_rx_iff]
  by_cases hflag : s.progModeFlag≠0
  · rw [if_pos hflag,within_append,within_answer_iff rxCnt 9,load_length,
      and_iff_right hone,and_iff_right hflag]
    omega
  · rw [if_neg hflag,and_iff_left within_nil,and_iff_left fun h => hflag h.1]
    omega

/-- The commands of a request. -/
theorem within_command_iff (s : Loader) {rx : Mem UInt8} (hreq : IsRequest rx) (rxCnt : ℕ) :
    8 ≤ rxCnt ∧ Within (size rxCnt) (commandAccesses s rx rxCnt) ↔
      headerLength rx ≤ rxCnt ∧ ¬LongRead s rx := by
  obtain ⟨hversion,hb,ht,hdir⟩ := hreq
  have hone : Within (size rxCnt) (stores .udpTx 8 [0x01] : List (Access Byte)) :=
    within_answer rxCnt (by decide)
  have hname : Within (size rxCnt) (stores .udpTx 8 devName : List (Access Byte)) :=
    within_answer rxCnt (by decide)
  unfold commandAccesses headerLength LongRead
  dsimp only
  rw [if_pos hversion,if_pos hb,if_pos ht,if_pos hdir]
  by_cases h1 : join16 (rx 6) (rx 7)=0x01
  · rw [if_neg (by rw [h1]; decide),if_pos h1,if_pos h1,within_updateFlash_iff,h1]
    have hother : ¬(IsRequest rx ∧ (0x01 : UInt16)=0x02 ∧ s.progModeFlag≠0 ∧
        1191<(join16 (rx 12) (rx 13)).toNat) := fun h => absurd h.2.1 (by decide)
    rw [and_iff_left hother]
    omega
  · rw [if_neg h1,if_neg h1]
    by_cases h2 : join16 (rx 6) (rx 7)=0x02
    · rw [if_neg (by rw [h2]; decide),if_pos h2,if_pos h2,within_readFlash_iff,
        and_iff_right (a:=IsRequest rx) ⟨hversion,hb,ht,hdir⟩,and_iff_right h2]
      exact ⟨fun h => h.2,fun h => ⟨by omega,h⟩⟩
    · have hshort : ¬(IsRequest rx ∧ join16 (rx 6) (rx 7)=0x02 ∧ s.progModeFlag≠0 ∧
          1191<(join16 (rx 12) (rx 13)).toNat) := fun h => h2 h.2.1
      rw [if_neg h2,if_neg h2,and_iff_left hshort]
      split_ifs
      · exact and_iff_left hname
      · exact and_iff_left hone
      · exact and_iff_left hone
      · exact and_iff_left within_nil

/-- The answer to a command fits unless it is that of a long read. -/
theorem command_res_le (s : Loader) {rx : Mem UInt8} (hreq : IsRequest rx) (rxCnt : ℕ)
    (h : ¬LongRead s rx) : (command s rx rxCnt).res≤udpBufLength := by
  have hname : 8+devName.length≤udpBufLength := by decide
  unfold command
  dsimp only
  split_ifs with h0 h1 h2 h3 h4
  · exact hname
  · unfold updateFlash
    dsimp only [udpBufLength]
    split_ifs <;> dsimp only <;> omega
  · have hcnt : s.progModeFlag≠0 → (join16 (rx 12) (rx 13)).toNat≤1191 := by
      intro hflag
      by_contra hlong
      exact h ⟨hreq,h2,hflag,by omega⟩
    unfold readFlash
    dsimp only [udpBufLength]
    by_cases hflag : s.progModeFlag≠0
    · have hle := hcnt hflag
      rw [if_pos hflag]
      dsimp only
      omega
    · rw [if_neg hflag]
      dsimp only
      omega
  all_goals dsimp only [udpBufLength]; omega

/-- The header of a datagram without a protocol or direction fits. -/
theorem within_protocol (rxCnt : ℕ) :
    Within (size rxCnt) (stores .udpTx 0 [0x01,0x42,0x54] : List (Access Byte)) :=
  within_answer rxCnt (by decide)

/-- Requests stay inside the buffers when they have their header and are no long read. -/
theorem inBuffers_request_iff (s : Loader) {rx : Mem UInt8} (hreq : IsRequest rx) (rxCnt : ℕ) :
    InBuffers s rx rxCnt ↔ headerLength rx ≤ rxCnt ∧ ¬LongRead s rx := by
  have hproto := within_protocol rxCnt
  have hecho : Within (size rxCnt)
      (stores .udpTx 3 [0x00,rx 4,rx 5,rx 6,rx 7] : List (Access Byte)) :=
    within_answer rxCnt (Nat.le_of_ble_eq_true rfl)
  have hcommand := within_command_iff s hreq rxCnt
  have hres := command_res_le
    ((s.answer 0 [0x01,0x42,0x54]).answer 3 [0x00,rx 4,rx 5,rx 6,rx 7]) hreq rxCnt
  obtain ⟨hversion,hb,ht,hdir⟩ := hreq
  unfold InBuffers udpAnswerAccesses udpAnswer
  dsimp only
  rw [if_pos hversion,if_pos hb,if_pos ht,if_pos hdir,if_pos hversion,if_pos (And.intro hb ht),
    if_pos hdir]
  simp only [within_append,within_rx_iff,hproto,hecho,true_and]
  constructor
  · intro h
    exact hcommand.mp ⟨by omega,h.1.2.2.2.2.2.2⟩
  · intro h
    have h8 := hcommand.mpr h
    exact ⟨⟨by omega,by omega,by omega,by omega,by omega,by omega,h8.2⟩,hres h.2⟩

/-- Other datagrams stay inside the buffers when they have their header. -/
theorem inBuffers_other_iff (s : Loader) {rx : Mem UInt8} (hreq : ¬IsRequest rx) (rxCnt : ℕ) :
    InBuffers s rx rxCnt ↔ headerLength rx ≤ rxCnt := by
  have hproto := within_protocol rxCnt
  unfold InBuffers udpAnswerAccesses udpAnswer headerLength
  dsimp only
  by_cases hversion : rx 0≥1
  · rw [if_pos hversion,if_pos hversion,if_pos hversion]
    by_cases hb : rx 1=0x42
    · rw [if_pos hb,if_pos hb]
      by_cases ht : rx 2=0x54
      · have hdir : rx 3≠1 := fun hdir => hreq ⟨hversion,hb,ht,hdir⟩
        rw [if_pos ht,if_pos (And.intro hb ht),if_pos ht,if_neg hdir,if_neg hdir,if_neg hdir]
        simp only [within_append,within_rx_iff,hproto,true_and,within_nil,and_true]
        omega
      · rw [if_neg ht,if_neg fun hbt => ht hbt.2,if_neg ht]
        simp only [within_append,within_rx_iff,within_nil,and_true]
        omega
    · rw [if_neg hb,if_neg fun hbt => hb hbt.1,if_neg hb]
      simp only [within_append,within_rx_iff,within_nil,and_true]
      omega
  · rw [if_neg hversion,if_neg hversion,if_neg hversion]
    simp only [within_append,within_rx_iff,within_nil,and_true]
    omega

/-- udp_answer stays inside its buffers exactly when the datagram has the bytes
its header calls for and is no read for more than udp_tx has room for. -/
theorem inBuffers_iff (s : Loader) (rx : Mem UInt8) (rxCnt : ℕ) :
    InBuffers s rx rxCnt ↔ headerLength rx ≤ rxCnt ∧ ¬LongRead s rx := by
  by_cases hreq : IsRequest rx
  · exact inBuffers_request_iff s hreq rxCnt
  · rw [and_iff_left fun h => hreq h.1]
    exact inBuffers_other_iff s hreq rxCnt

/-- A request to read 1192 bytes. -/
def longReadRequest : Mem UInt8 := fun i =>
  [0x01,0x42,0x54,0x01,0x00,0x00,0x00,0x02,0x00,0x00,0x00,0x00,0x04,0xA8].getD i 0

/-- In program mode the answer has 1201 bytes, one more than udp_tx, and an
empty datagram is read in any mode. -/
theorem longRead_overflows :
    (udpAnswer programLoader longReadRequest 14).res=1201 ∧
      ¬InBuffers programLoader longReadRequest 14 ∧ ¬InBuffers programLoader longReadRequest 0 := by
  have hreq : IsRequest longReadRequest := ⟨by decide,rfl,rfl,rfl⟩
  refine ⟨rfl,fun h => ((inBuffers_request_iff _ hreq _).mp h).2 ?_,fun h => ?_⟩
  · exact ⟨hreq,rfl,by decide,by decide⟩
  · exact absurd ((inBuffers_request_iff _ hreq _).mp h).1 (by decide)

end BT816Display.UdpBounds
