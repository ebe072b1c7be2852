import BT816Display.UdpLoader

/-!
# The upload of lcdconf.bin in main.c

While a jumper is set, main copies the file block by block to the display
flash, behind the first sector. FatFs is a parameter: what f_lseek and f_read
return, and what f_read leaves in the buffer.
-/

namespace BT816Display.ConfigUpload

open ByteMemory
open UdpLoader (FlashUpdate blockSize)

/-- FR_OK. -/
abbrev frOk : UInt8 := 0

/-- What a call of f_read gives back. -/
structure Reading where
  /-- The FRESULT. -/
  res : UInt8
  /-- rdBytes. -/
  rdBytes : UInt32
  /-- The bytes left at the start of the buffer. -/
  data : List UInt8

/-- The functions of FatFs on an open file. -/
structure FatFs (σ : Type) where
  /-- f_lseek: the FRESULT and the file. -/
  fLseek : σ → (ofs : UInt32) → UInt8×σ
  /-- f_read: what it gives back and the file. -/
  fRead : σ → (btr : UInt32) → Reading×σ

variable {σ : Type}

/-- The variables of the loop and the memories of the display. -/
structure Upload (σ : Type) where
  /-- rdFile. -/
  rdFile : σ
  /-- fl_buf. -/
  flBuf : Mem UInt8
  /-- wr_cnt. -/
  wrCnt : UInt32
  /-- RAM of the display. -/
  ram : Mem UInt8
  /-- Flash of the display. -/
  flash : Mem UInt8
  /-- The flash updates executed. -/
  updates : List FlashUpdate

/-- bt816_cmd_memwrite. -/
def Upload.cmdMemwrite (s : Upload σ) (memAddr : ℕ) (data : List UInt8) : Upload σ :=
  {s with ram := store s.ram memAddr data}

/-- bt816_cmd_flashupdate. -/
def Upload.cmdFlashupdate (s : Upload σ) (dest : UInt32) (src num : ℕ) : Upload σ :=
  {s with
    flash := store s.flash dest.toNat (load s.ram src num)
    updates := s.updates++[⟨dest,load s.ram src num⟩]}

/-- The two commands that copy the buffer to the flash. -/
def Upload.writeBlock (s : Upload σ) : Upload σ :=
  (s.cmdMemwrite 0 (load s.flBuf 0 blockSize)).cmdFlashupdate (4096+s.wrCnt) 0 blockSize

/-- The loop that fills the buffer with zeros behind the rest of a file. -/
def Upload.zeroTail (s : Upload σ) (remainCnt : ℕ) : Upload σ :=
  {s with flBuf := store s.flBuf remainCnt (List.replicate (blockSize-remainCnt) 0)}

/-- f_lseek and f_read of a block: whether both succeed in full, and the state
behind them. -/
def fetch (fs : FatFs σ) (cnt : UInt32) (s : Upload σ) : Bool×Upload σ :=
  let (res,rdFile) := fs.fLseek s.rdFile s.wrCnt
  let s := {s with rdFile := rdFile}
  if res=frOk then
    let (reading,rdFile) := fs.fRead s.rdFile cnt
    let s := {s with
      rdFile := rdFile
      flBuf := store s.flBuf 0 reading.data}
    (reading.res=frOk ∧ reading.rdBytes=cnt,s)
  else (false,s)

/-- The body of the loop, for a full block and for the last one; false stands
for a break. -/
def uploadStep (fs : FatFs σ) (fsize : UInt32) (s : Upload σ) : Bool×Upload σ :=
  let remainCnt := fsize-s.wrCnt
  if remainCnt≥4096 then
    let (ok,s) := fetch fs 4096 s
    if ok then
      let s := s.writeBlock
      (true,{s with wrCnt := s.wrCnt+4096})
    else (false,s)
  else
    let (ok,s) := fetch fs remainCnt s
    if ok then
      let s := (s.zeroTail remainCnt.toNat).writeBlock
      (true,{s with wrCnt := s.wrCnt+remainCnt})
    else (false,s)

/-- The loop; none when the rounds do not suffice. -/
def uploadLoop (fs : FatFs σ) (fsize : UInt32) : ℕ → Upload σ → Option (Upload σ)
  | 0,_ => none
  | fuel+1,s =>
    if s.wrCnt<fsize then
      let (goOn,s) := uploadStep fs fsize s
      if goOn then uploadLoop fs fsize fuel s else some s
    else some s

/-- The upload of an open file. -/
def upload (fs : FatFs σ) (fsize : UInt32) (fuel : ℕ) (s : Upload σ) : Option (Upload σ) :=
  if fsize≠0 then uploadLoop fs fsize fuel {s with wrCnt := 0} else some s

/-! ## Blocks of a file -/

/-- Blocks that a file takes. -/
def blockCnt (size : ℕ) : ℕ := (size+4095)/4096

/-- Bytes of the file in block `k`. -/
def bytesIn (size k : ℕ) : ℕ := min 4096 (size-4096*k)

/-- The file followed by zeros up to a whole number of blocks. -/
def padded (content : List UInt8) : List UInt8 :=
  content++List.replicate (4096*blockCnt content.length-content.length) 0

/-- Block `k` of the padded file. -/
def block (content : List UInt8) (k : ℕ) : List UInt8 := ((padded content).drop (4096*k)).take 4096

theorem padded_length (content : List UInt8) :
    (padded content).length=4096*blockCnt content.length := by
  unfold padded blockCnt
  rw [List.length_append,List.length_replicate]
  omega

/-- A block behind the blocks before it. -/
theorem take_padded_succ (content : List UInt8) (k : ℕ) :
    (padded content).take (4096*k)++block content k=(padded content).take (4096*(k+1)) := by
  unfold block
  rw [Nat.mul_succ,List.take_add]

/-- A block is the bytes of the file in it, and zeros. -/
theorem block_eq {content : List UInt8} {k : ℕ} (h : k<blockCnt content.length) :
    block content k=(content.drop (4096*k)).take (bytesIn content.length k)++
      List.replicate (4096-bytesIn content.length k) 0 := by
  unfold blockCnt at h
  unfold block padded bytesIn
  rw [List.drop_append_of_le_length (by omega),List.take_append,List.take_replicate,
    List.length_drop]
  congr 1
  · by_cases hfull : 4096 ≤ content.length-4096*k
    · rw [min_eq_left hfull]
    · rw [min_eq_right (by omega),List.take_of_length_le (by rw [List.length_drop]; omega),
        List.take_of_length_le (by rw [List.length_drop])]
  · congr 1
    unfold blockCnt
    omega

/-! ## The calls of FatFs -/

section Calls

variable (fs : FatFs σ) (size : ℕ) (f : σ)

/-- The file after the calls for the first `k` blocks. -/
def fileAt : ℕ → σ
  | 0 => f
  | k+1 =>
    (fs.fRead (fs.fLseek (fileAt k) (UInt32.ofNat (4096*k))).2 (UInt32.ofNat (bytesIn size k))).2

/-- f_lseek of block `k`. -/
def seekOf (k : ℕ) : UInt8×σ := fs.fLseek (fileAt fs size f k) (UInt32.ofNat (4096*k))

/-- f_read of block `k`. -/
def readingOf (k : ℕ) : Reading :=
  (fs.fRead (seekOf fs size f k).2 (UInt32.ofNat (bytesIn size k))).1

/-- Both calls for block `k` succeed in full. -/
def Succeeds (k : ℕ) : Prop :=
  (seekOf fs size f k).1=frOk ∧ (readingOf fs size f k).res=frOk ∧
    (readingOf fs size f k).rdBytes=UInt32.ofNat (bytesIn size k)

end Calls

/-- FatFs returns the bytes of the file that was opened. -/
def ReturnsFile (fs : FatFs σ) (content : List UInt8) (f : σ) : Prop :=
  ∀ k,Succeeds fs content.length f k →
    (readingOf fs content.length f k).data=
      (content.drop (4096*k)).take (bytesIn content.length k)

section Fetch

variable {fs : FatFs σ} {size : ℕ} {f : σ} {k : ℕ} {s : Upload σ} {cnt : UInt32}

/-- The calls of a block that succeed. -/
theorem fetch_of_succeeds (hfile : s.rdFile=fileAt fs size f k)
    (hofs : s.wrCnt=UInt32.ofNat (4096*k)) (hcnt : cnt=UInt32.ofNat (bytesIn size k))
    (h : Succeeds fs size f k) :
    fetch fs cnt s=(true,{s with
      rdFile := fileAt fs size f (k+1)
      flBuf := store s.flBuf 0 (readingOf fs size f k).data}) := by
  obtain ⟨hseek,hread⟩ := h
  unfold seekOf at hseek
  unfold readingOf seekOf at hread
  unfold fetch readingOf seekOf
  rw [hfile,hofs,hcnt]
  dsimp only
  rw [if_pos hseek,decide_eq_true hread]
  rfl

/-- Calls of a block of which one fails leave flash and updates alone. -/
theorem fetch_of_not (hfile : s.rdFile=fileAt fs size f k)
    (hofs : s.wrCnt=UInt32.ofNat (4096*k)) (hcnt : cnt=UInt32.ofNat (bytesIn size k))
    (h : ¬Succeeds fs size f k) :
    (fetch fs cnt s).1=false ∧ (fetch fs cnt s).2.flash=s.flash ∧
      (fetch fs cnt s).2.updates=s.updates := by
  unfold Succeeds readingOf seekOf at h
  unfold fetch
  rw [hfile,hofs,hcnt]
  dsimp only
  split
  next hseek => exact ⟨decide_eq_false fun hread => h ⟨hseek,hread⟩,rfl,rfl⟩
  next => exact ⟨rfl,rfl,rfl⟩

end Fetch

/-! ## One block -/

/-- What the two commands of a block do. -/
theorem writeBlock_eq (s : Upload σ) : s.writeBlock={s with
    ram := store s.ram 0 (load s.flBuf 0 4096)
    flash := store s.flash (4096+s.wrCnt).toNat (load s.flBuf 0 4096)
    updates := s.updates++[⟨4096+s.wrCnt,load s.flBuf 0 4096⟩]} := by
  have hself := load_store_self s.ram 0 (load s.flBuf 0 4096)
  rw [load_length] at hself
  unfold Upload.writeBlock Upload.cmdMemwrite Upload.cmdFlashupdate
  dsimp only [blockSize]
  rw [hself]

/-- The buffer with bytes in front and zeros behind them. -/
theorem load_zeroTail {b : Mem UInt8} {data : List UInt8} (h : data.length≤4096) :
    load (store (store b 0 data) data.length (List.replicate (4096-data.length) 0)) 0 4096=
      data++List.replicate (4096-data.length) 0 := by
  have happend := store_store_append b 0 data (List.replicate (4096-data.length) 0)
  have hself := load_store_self b 0 (data++List.replicate (4096-data.length) 0)
  rw [Nat.zero_add] at happend
  rw [List.length_append,List.length_replicate,Nat.add_sub_cancel' h] at hself
  rw [happend,hself]

/-- The flash update of block `k`. -/
def blockUpdate (content : List UInt8) (k : ℕ) : FlashUpdate :=
  ⟨UInt32.ofNat (4096*(k+1)),block content k⟩

/-- Exactly the first `n` blocks are written. -/
structure Written (content : List UInt8) (n : ℕ) (s s' : Upload σ) : Prop where
  /-- They are in the flash, and nothing else has changed there. -/
  flash : s'.flash=store s.flash 4096 ((padded content).take (4096*n))
  /-- There was one flash update for each of them. -/
  updates : s'.updates=s.updates++(List.range n).map (blockUpdate content)

/-- The start of the round for block `k`. -/
structure AtBlock (fs : FatFs σ) (content : List UInt8) (s : Upload σ) (k : ℕ) (s' : Upload σ) :
    Prop where
  /-- The file has served the blocks before it. -/
  file : s'.rdFile=fileAt fs content.length s.rdFile k
  /-- wr_cnt. -/
  count : s'.wrCnt.toNat=min (4096*k) content.length
  /-- The blocks before it are written. -/
  written : Written content k s s'

/-- A further block is written. -/
theorem Written.succ {content : List UInt8} {k : ℕ} {s s' s'' : Upload σ}
    (h : Written content k s s') (hk : k<blockCnt content.length)
    (hflash : s''.flash=store s'.flash (4096*(k+1)) (block content k))
    (hupdates : s''.updates=s'.updates++[blockUpdate content k]) :
    Written content (k+1) s s'' where
  flash := by
    have htake : ((padded content).take (4096*k)).length=4096*k := by
      rw [List.length_take,padded_length]
      omega
    have happend := store_store_append s.flash 4096 ((padded content).take (4096*k))
      (block content k)
    rw [htake,take_padded_succ,show 4096+4096*k=4096*(k+1) by omega] at happend
    rw [hflash,h.flash,happend]
  updates := by
    rw [hupdates,h.updates,List.append_assoc,List.range_succ,List.map_append]
    rfl

section Step

variable {fs : FatFs σ} {content : List UInt8} {fsize : UInt32} {s s' : Upload σ} {k : ℕ}

/-- The numbers of a round. -/
theorem AtBlock.numbers (h : AtBlock fs content s k s') (hk : k<blockCnt content.length)
    (hsize : fsize.toNat=content.length) (hmax : content.length≤1048576) :
    s'.wrCnt=UInt32.ofNat (4096*k) ∧ s'.wrCnt<fsize ∧
      fsize-s'.wrCnt=UInt32.ofNat (content.length-4096*k) ∧
      (4096+s'.wrCnt).toNat=4096*(k+1) := by
  have hcount := h.count
  have hlt : 4096*k<content.length := by
    unfold blockCnt at hk
    omega
  rw [min_eq_left hlt.le] at hcount
  have hwr : s'.wrCnt<fsize := by
    rw [UInt32.lt_iff_toNat_lt,hcount,hsize]
    exact hlt
  have h4096 : (4096 : UInt32).toNat=4096 := rfl
  refine ⟨?_,hwr,?_,?_⟩
  · apply UInt32.toNat_inj.mp
    rw [hcount,UInt32.toNat_ofNat',Nat.mod_eq_of_lt (by omega)]
  · apply UInt32.toNat_inj.mp
    rw [UInt32.toNat_sub_of_le _ _ (UInt32.le_of_lt hwr),hcount,hsize,UInt32.toNat_ofNat',
      Nat.mod_eq_of_lt (by omega)]
  · rw [UInt32.toNat_add,hcount,h4096]
    omega

/-- The count of bytes that a round asks for: 4096 or the rest of the file. -/
theorem AtBlock.remain (h : AtBlock fs content s k s') (hk : k<blockCnt content.length)
    (hsize : fsize.toNat=content.length) (hmax : content.length≤1048576) :
    (fsize-s'.wrCnt≥4096 ∧ bytesIn content.length k=4096) ∨
    (¬fsize-s'.wrCnt≥4096 ∧ fsize-s'.wrCnt=UInt32.ofNat (bytesIn content.length k) ∧
      (fsize-s'.wrCnt).toNat=bytesIn content.length k) := by
  obtain ⟨-,-,hremain,-⟩ := h.numbers hk hsize hmax
  have h4096 : (4096 : UInt32).toNat=4096 := rfl
  have hnat : (UInt32.ofNat (content.length-4096*k)).toNat=content.length-4096*k := by
    rw [UInt32.toNat_ofNat',Nat.mod_eq_of_lt (by omega)]
  unfold blockCnt at hk
  rw [hremain,ge_iff_le,UInt32.le_iff_toNat_le,hnat,h4096]
  unfold bytesIn
  by_cases hfull : 4096 ≤ content.length-4096*k
  · exact Or.inl ⟨hfull,min_eq_left hfull⟩
  · rw [min_eq_right (by omega)]
    exact Or.inr ⟨hfull,rfl,rfl⟩

/-- The end of a round with the block in the buffer. -/
theorem AtBlock.writeBlock (h : AtBlock fs content s k s') (hk : k<blockCnt content.length)
    (hsize : fsize.toNat=content.length) (hmax : content.length≤1048576) {t : Upload σ}
    (hfile : t.rdFile=fileAt fs content.length s.rdFile (k+1)) (hwr : t.wrCnt=s'.wrCnt)
    (hflash : t.flash=s'.flash) (hupdates : t.updates=s'.updates)
    (hbuf : load t.flBuf 0 4096=block content k) {cnt : UInt32}
    (hcnt : cnt.toNat=bytesIn content.length k) :
    AtBlock fs content s (k+1) {t.writeBlock with wrCnt := t.writeBlock.wrCnt+cnt} := by
  obtain ⟨-,-,-,hdest⟩ := h.numbers hk hsize hmax
  have hcount := h.count
  unfold bytesIn at hcnt
  unfold blockCnt at hk
  have haddr : 4096+s'.wrCnt=UInt32.ofNat (4096*(k+1)) := by
    apply UInt32.toNat_inj.mp
    rw [hdest,UInt32.toNat_ofNat',Nat.mod_eq_of_lt (by omega)]
  rw [writeBlock_eq]
  refine ⟨hfile,?_,h.written.succ hk ?_ ?_⟩
  · dsimp only
    rw [hwr,UInt32.toNat_add,hcount,hcnt]
    omega
  · dsimp only
    rw [hflash,hwr,hdest,hbuf]
  · dsimp only
    rw [hupdates,hwr,haddr,hbuf]
    rfl

/-- A round whose calls succeed writes its block. -/
theorem uploadStep_succeeds (h : AtBlock fs content s k s') (hk : k<blockCnt content.length)
    (hsize : fsize.toNat=content.length) (hmax : content.length≤1048576)
    (hfile : ReturnsFile fs content s.rdFile) (hok : Succeeds fs content.length s.rdFile k) :
    (uploadStep fs fsize s').1=true ∧ AtBlock fs content s (k+1) (uploadStep fs fsize s').2 := by
  obtain ⟨hofs,-,-,-⟩ := h.numbers hk hsize hmax
  have hdata := hfile k hok
  have hlen : (readingOf fs content.length s.rdFile k).data.length=
      bytesIn content.length k := by
    rw [hdata,List.length_take,List.length_drop]
    unfold bytesIn
    omega
  have hblock := block_eq hk
  rw [←hdata] at hblock
  unfold uploadStep
  dsimp only
  rcases h.remain hk hsize hmax with ⟨hfull,hcnt⟩|⟨hrest,hcnt,hnat⟩
  · rw [if_pos hfull,fetch_of_succeeds h.file hofs (by rw [hcnt]; rfl) hok]
    dsimp only
    rw [if_pos rfl]
    have hload := load_store_self s'.flBuf 0 (readingOf fs content.length s.rdFile k).data
    rw [hlen,hcnt] at hload
    rw [hcnt,Nat.sub_self,List.replicate_zero,List.append_nil] at hblock
    exact ⟨rfl,h.writeBlock hk hsize hmax (t:={s' with
      rdFile := fileAt fs content.length s.rdFile (k+1)
      flBuf := store s'.flBuf 0 (readingOf fs content.length s.rdFile k).data})
      rfl rfl rfl rfl (hload.trans hblock.symm) hcnt.symm⟩
  · rw [if_neg hrest,fetch_of_succeeds h.file hofs hcnt hok]
    dsimp only
    rw [if_pos rfl]
    have hload := @load_zeroTail s'.flBuf _ (hlen.le.trans (min_le_left _ _))
    rw [hlen,←hnat] at hload
    rw [←hnat] at hblock
    exact ⟨rfl,h.writeBlock hk hsize hmax (t:=Upload.zeroTail {s' with
      rdFile := fileAt fs content.length s.rdFile (k+1)
      flBuf := store s'.flBuf 0 (readingOf fs content.length s.rdFile k).data}
      (fsize-s'.wrCnt).toNat) rfl rfl rfl rfl (hload.trans hblock.symm) hnat⟩

/-- A round of which a call fails breaks and writes nothing. -/
theorem uploadStep_fails (h : AtBlock fs content s k s') (hk : k<blockCnt content.length)
    (hsize : fsize.toNat=content.length) (hmax : content.length≤1048576)
    (hfail : ¬Succeeds fs content.length s.rdFile k) :
    (uploadStep fs fsize s').1=false ∧ Written content k s (uploadStep fs fsize s').2 := by
  obtain ⟨hofs,-,-,-⟩ := h.numbers hk hsize hmax
  have hstop {cnt : UInt32} (hcnt : cnt=UInt32.ofNat (bytesIn content.length k)) :
      (fetch fs cnt s').1=false ∧ Written content k s (fetch fs cnt s').2 := by
    obtain ⟨hres,hflash,hupdates⟩ := fetch_of_not h.file hofs hcnt hfail
    exact ⟨hres,hflash.trans h.written.flash,hupdates.trans h.written.updates⟩
  unfold uploadStep
  dsimp only
  rcases h.remain hk hsize hmax with ⟨hfull,hcnt⟩|⟨hrest,hcnt,-⟩
  · obtain ⟨hres,hwritten⟩ := @hstop 4096 (by rw [hcnt]; rfl)
    rw [if_pos hfull,hres]
    exact ⟨rfl,hwritten⟩
  · obtain ⟨hres,hwritten⟩ := hstop hcnt
    rw [if_neg hrest,hres]
    exact ⟨rfl,hwritten⟩

end Step

/-! ## The whole loop -/

section Loop

variable {fs : FatFs σ} {content : List UInt8} {fsize : UInt32} {s : Upload σ} {n : ℕ}

/-- Calls that succeed for the blocks before `n` and then fail or are over. -/
structure FailsAt (fs : FatFs σ) (size : ℕ) (f : σ) (n : ℕ) : Prop where
  /-- There are so many blocks. -/
  le : n≤blockCnt size
  /-- The blocks before are read. -/
  before : ∀ k<n,Succeeds fs size f k
  /-- Block `n` is not read, or there is none. -/
  fails : n<blockCnt size → ¬Succeeds fs size f n

/-- From the start of any round on, the loop writes the blocks up to the
failure and ends. -/
theorem uploadLoop_written (hsize : fsize.toNat=content.length) (hmax : content.length≤1048576)
    (hfile : ReturnsFile fs content s.rdFile)
    (hn : FailsAt fs content.length s.rdFile n) : ∀ (fuel k : ℕ) (s' : Upload σ),n<k+fuel →
    k≤n → AtBlock fs content s k s' →
    ∃ s'',uploadLoop fs fsize fuel s'=some s'' ∧ Written content n s s'' := by
  intro fuel
  induction fuel with
  | zero => exact fun k s' hlt hle => absurd hlt (Nat.not_lt_of_le hle)
  | succ fuel ih =>
    intro k s' hlt hle h
    rw [uploadLoop]
    by_cases hk : k<blockCnt content.length
    · have hwr := (h.numbers hk hsize hmax).2.1
      rw [if_pos hwr]
      rcases Nat.lt_or_eq_of_le hle with hkn|rfl
      · obtain ⟨hgo,hat⟩ := uploadStep_succeeds h hk hsize hmax hfile (hn.before k hkn)
        dsimp only
        rw [if_pos hgo]
        exact ih (k+1) _ (by omega) hkn hat
      · obtain ⟨hstop,hwritten⟩ := uploadStep_fails h hk hsize hmax (hn.fails hk)
        dsimp only
        rw [hstop]
        exact ⟨_,rfl,hwritten⟩
    · have hend : ¬s'.wrCnt<fsize := by
        have hcount := h.count
        unfold blockCnt at hk
        rw [UInt32.lt_iff_toNat_lt,hcount,hsize]
        omega
      have hkn : k=n := hle.antisymm (hn.le.trans (Nat.le_of_not_lt hk))
      rw [if_neg hend]
      exact ⟨s',rfl,hkn ▸ h.written⟩

/-- The upload ends and writes exactly the blocks before the first failure. -/
theorem upload_written (hsize : fsize.toNat=content.length) (hmax : content.length≤1048576)
    (hfile : ReturnsFile fs content s.rdFile) (hn : FailsAt fs content.length s.rdFile n)
    {fuel : ℕ} (hfuel : blockCnt content.length<fuel) :
    ∃ s',upload fs fsize fuel s=some s' ∧ Written content n s s' := by
  have hfirst : Written content 0 s s := by
    refine ⟨?_,(List.append_nil _).symm⟩
    funext x
    exact (store_apply_of_not (by rw [Nat.mul_zero,List.take_zero]; exact Nat.lt_or_ge x 4096)).symm
  unfold upload
  by_cases hempty : fsize≠0
  · rw [if_pos hempty]
    refine uploadLoop_written hsize hmax hfile hn fuel 0 _ (by have := hn.le; omega)
      (Nat.zero_le n) ⟨rfl,?_,?_⟩
    · rw [Nat.mul_zero,Nat.zero_min]
      rfl
    · exact ⟨hfirst.flash,hfirst.updates⟩
  · have hlen : content.length=0 := by
      rw [←hsize,not_not.mp hempty]
      rfl
    have hn0 : n=0 := by
      have hle := hn.le
      rw [hlen] at hle
      exact Nat.le_zero.mp hle
    rw [if_neg hempty,hn0]
    exact ⟨s,rfl,hfirst⟩

/-- The destinations of the flash updates are multiples of 4096. -/
theorem Written.aligned {s' : Upload σ} (h : Written content n s s') :
    ∃ new,s'.updates=s.updates++new ∧ ∀ u∈new,u.addr.toNat%4096=0 := by
  refine ⟨_,h.updates,fun u hu => ?_⟩
  obtain ⟨k,-,rfl⟩ := List.mem_map.mp hu
  unfold blockUpdate
  dsimp only
  rw [UInt32.toNat_ofNat']
  omega

/-- For every file that fits the disk of 2048 sectors and every content: when
all calls succeed in full, the loop ends with the padded file in the flash
behind the first sector, all updates going to multiples of 4096; when the
calls for some block fail or are short, it ends with exactly the blocks before
it written. -/
theorem upload_correct (hsize : fsize.toNat=content.length) (hmax : content.length≤2048*512)
    (hfile : ReturnsFile fs content s.rdFile) {fuel : ℕ}
    (hfuel : blockCnt content.length<fuel) :
    ((∀ k<blockCnt content.length,Succeeds fs content.length s.rdFile k) →
      ∃ s',upload fs fsize fuel s=some s' ∧
        load s'.flash 4096 (4096*blockCnt content.length)=
          content++List.replicate (4096*blockCnt content.length-content.length) 0 ∧
        ∃ new,s'.updates=s.updates++new ∧ ∀ u∈new,u.addr.toNat%4096=0) ∧
    ∀ n<blockCnt content.length,(∀ k<n,Succeeds fs content.length s.rdFile k) →
      ¬Succeeds fs content.length s.rdFile n →
      ∃ s',upload fs fsize fuel s=some s' ∧ Written content n s s' := by
  constructor
  · intro hall
    obtain ⟨s',hend,hwritten⟩ := upload_written hsize hmax hfile
      ⟨le_rfl,hall,fun hlt => absurd hlt (Nat.lt_irrefl _)⟩ hfuel
    refine ⟨s',hend,?_,hwritten.aligned⟩
    have hflash := hwritten.flash
    have hload := load_store_self s.flash 4096 (padded content)
    rw [←padded_length,List.take_length] at hflash
    rw [padded_length] at hload
    rw [hflash,hload]
    rfl
  · intro n hn hbefore hfails
    exact upload_written hsize hmax hfile ⟨hn.le,hbefore,fun _ => hfails⟩ hfuel

end Loop

/-- A file system with a file whose pointer is kept. -/
def pointerFs (content : List UInt8) : FatFs ℕ where
  fLseek _ ofs := (frOk,ofs.toNat)
  fRead pos btr :=
    let data := (content.drop pos).take btr.toNat
    (⟨frOk,UInt32.ofNat data.length,data⟩,pos+data.length)

/-- Bytes of a block in a file of the disk. -/
theorem bytesIn_eq {size : ℕ} (hsize : size<2^32) (k : ℕ) :
    (UInt32.ofNat (bytesIn size k)).toNat=bytesIn size k ∧
      (bytesIn size k≠0 → (UInt32.ofNat (4096*k)).toNat=4096*k) := by
  unfold bytesIn
  rw [UInt32.toNat_ofNat',UInt32.toNat_ofNat']
  exact ⟨by omega,fun h => by omega⟩

/-- It reads what lies behind its pointer. -/
theorem pointerFs_reading {content : List UInt8} (hsize : content.length<2^32) (f k : ℕ) :
    (readingOf (pointerFs content) content.length f k).data=
      (content.drop (4096*k)).take (bytesIn content.length k) := by
  obtain ⟨hcnt,hofs⟩ := bytesIn_eq hsize k
  unfold readingOf seekOf pointerFs
  dsimp only
  rw [hcnt]
  by_cases hnone : bytesIn content.length k=0
  · rw [hnone,List.take_zero,List.take_zero]
  · rw [hofs hnone]

/-- It returns the file. -/
theorem pointerFs_returnsFile {content : List UInt8} (hsize : content.length<2^32) (f : ℕ) :
    ReturnsFile (pointerFs content) content f := fun k _ => pointerFs_reading hsize f k

/-- Its calls succeed for every block. -/
theorem pointerFs_succeeds {content : List UInt8} (hsize : content.length<2^32) (f k : ℕ) :
    Succeeds (pointerFs content) content.length f k := by
  have hdata := congrArg List.length (pointerFs_reading hsize f k)
  have hlen : ((content.drop (4096*k)).take (bytesIn content.length k)).length=
      bytesIn content.length k := by
    rw [List.length_take,List.length_drop]
    unfold bytesIn
    omega
  exact ⟨rfl,rfl,congrArg UInt32.ofNat (hdata.trans hlen)⟩

/-- Before the upload. -/
def idle : Upload ℕ := ⟨0,fun _ => 0xAA,0,fun _ => 0xAA,fun _ => 0xFF,[]⟩

/-- A file of a full block and three bytes. -/
def twoBlocks : List UInt8 := List.replicate 4096 7++[1,2,3]

/-- Both blocks are written, with zeros behind the second one. -/
theorem twoBlocks_written : ∃ s',upload (pointerFs twoBlocks) 4099 3 idle=some s' ∧
    load s'.flash 4096 8192=twoBlocks++List.replicate 4093 0 ∧
    ∃ new,s'.updates=new ∧ ∀ u∈new,u.addr.toNat%4096=0 := by
  have hlen : twoBlocks.length=4099 := by
    rw [twoBlocks,List.length_append,List.length_replicate]
    rfl
  have hcnt : blockCnt twoBlocks.length=2 := by rw [hlen]; rfl
  have hall := (@upload_correct _ (pointerFs twoBlocks) twoBlocks 4099 idle hlen.symm (by omega)
    (pointerFs_returnsFile (by omega) 0) 3 (by omega)).1
      fun k _ => pointerFs_succeeds (by omega) 0 k
  rw [hcnt,hlen] at hall
  exact hall

end BT816Display.ConfigUpload
