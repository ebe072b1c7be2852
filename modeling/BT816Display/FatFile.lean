import BT816Display.At45Disk

/-!
# Files of FatFs on the disk

f_read of ff.c follows the clusters of a file in the FAT and asks the disk for
as many sectors at once as a cluster has left. USER_read delivers the first of
them only, so a file is read back where a cluster is one sector. On such a
volume reads of any sizes deliver the file piece by piece.
-/

namespace BT816Display.FatFile

open ByteMemory
open At45Disk (userRead sectorSize sectorCount)

/-- fs_type. -/
inductive FsType where
  /-- FS_FAT12. -/
  | fat12
  /-- FS_FAT16. -/
  | fat16
  /-- FS_FAT32. -/
  | fat32
  deriving DecidableEq

/-- FATFS. -/
structure FatFs where
  /-- fs_type. -/
  fsType : FsType
  /-- Sectors of a cluster. -/
  csize : ℕ
  /-- n_fatent. -/
  nFatent : ℕ
  /-- Sector of the FAT. -/
  fatbase : ℕ
  /-- Sector of the first cluster. -/
  database : ℕ
  /-- Sector in the window. -/
  winsect : ℕ
  /-- The window. -/
  win : Mem UInt8

/-- FIL, as f_open leaves it but for the fields that f_read changes. -/
structure Fil where
  /-- First cluster. -/
  sclust : ℕ
  /-- Size of the file. -/
  objsize : ℕ
  /-- Place of the next byte. -/
  fptr : ℕ
  /-- Cluster of the byte before. -/
  clust : ℕ
  /-- Sector in the buffer, or zero. -/
  sect : ℕ
  /-- The buffer. -/
  buf : Mem UInt8

/-- FRESULT. -/
inductive FResult where
  /-- FR_DISK_ERR. -/
  | diskErr
  /-- FR_INT_ERR. -/
  | intErr
  deriving DecidableEq

section Source

variable (chip : Mem UInt8)

/-- move_window; nothing is dirty and disk_read always returns RES_OK. -/
def moveWindow (fs : FatFs) (sector : ℕ) : FatFs :=
  if sector≠fs.winsect then
    {fs with
      win := (userRead chip fs.win sector.toUInt32 1).2
      winsect := sector}
  else fs

/-- clust2sect. -/
def clust2sect (fs : FatFs) (clst : ℕ) : ℕ :=
  let clst := (clst+(2^32-2))%2^32
  if clst ≥ fs.nFatent-2 then 0 else (clst*fs.csize+fs.database)%2^32

/-- get_fat: the value and the window. -/
def getFat (fs : FatFs) (clst : ℕ) : ℕ×FatFs :=
  if clst<2 ∨ clst ≥ fs.nFatent then (1,fs)
  else match fs.fsType with
    | .fat12 =>
      let bc := clst+clst/2
      let fs := moveWindow chip fs (fs.fatbase+bc/512)
      let wc := (fs.win (bc%512)).toNat
      let bc := bc+1
      let fs := moveWindow chip fs (fs.fatbase+bc/512)
      let wc := wc ||| (fs.win (bc%512)).toNat<<<8
      (if clst%2=1 then wc>>>4 else wc&&&0xFFF,fs)
    | .fat16 =>
      let fs := moveWindow chip fs (fs.fatbase+clst/256)
      let a := clst*2%512
      ((fs.win a).toNat ||| (fs.win (a+1)).toNat<<<8,fs)
    | .fat32 =>
      let fs := moveWindow chip fs (fs.fatbase+clst/128)
      let a := clst*4%512
      (((fs.win a).toNat ||| (fs.win (a+1)).toNat<<<8 ||| (fs.win (a+2)).toNat<<<16 |||
        (fs.win (a+3)).toNat<<<24)&&&0x0FFFFFFF,fs)

/-- The cluster of the next byte at a sector boundary. -/
def follow (fs : FatFs) (fp : Fil) : Except FResult (FatFs×Fil) :=
  if fp.fptr/512&&&(fs.csize-1)=0 then
    let r := if fp.fptr=0 then (fp.sclust,fs) else getFat chip fs fp.clust
    if r.1<2 then .error .intErr
    else if r.1=0xFFFFFFFF then .error .diskErr
    else .ok (r.2,{fp with clust := r.1})
  else .ok (fs,fp)

/-- The sector in the buffer of the file. -/
def cacheSector (fp : Fil) (sect : ℕ) : Fil :=
  if fp.sect≠sect then
    {fp with
      buf := (userRead chip fp.buf sect.toUInt32 1).2
      sect := sect}
  else fp

/-- What f_read works on. -/
structure Reading where
  /-- The volume. -/
  fs : FatFs
  /-- The file. -/
  fp : Fil
  /-- The buffer of the caller. -/
  buff : Mem UInt8

/-- A part of a sector. -/
def copyPart (r : Reading) (place btr : ℕ) : Reading×ℕ :=
  let rcnt := min (512-r.fp.fptr%512) btr
  ({r with buff := store r.buff place (load r.fp.buf (r.fp.fptr%512) rcnt)},rcnt)

/-- A round of the loop of f_read: the state and the number of bytes. -/
def readRound (r : Reading) (place btr : ℕ) : Except FResult (Reading×ℕ) :=
  if r.fp.fptr%512=0 then
    (follow chip r.fs r.fp).bind fun (fs,fp) =>
      let csect := fp.fptr/512&&&(fs.csize-1)
      let sect := clust2sect fs fp.clust
      if sect=0 then .error .intErr
      else
        let sect := sect+csect
        let cc := btr/512
        if cc≠0 then
          let cc := if csect+cc>fs.csize then fs.csize-csect else cc
          .ok (⟨fs,fp,At45Disk.readLoop chip sect.toUInt32 cc place r.buff⟩,512*cc)
        else .ok (copyPart ⟨fs,cacheSector chip fp sect,r.buff⟩ place btr)
  else .ok (copyPart r place btr)

/-- The file behind `n` bytes. -/
def Reading.advance (r : Reading) (n : ℕ) : Reading :=
  {r with fp := {r.fp with fptr := r.fp.fptr+n}}

/-- The loop of f_read. -/
def fReadLoop : ℕ → Reading → (place btr : ℕ) → Except FResult Reading
  | 0,r,_,_ => .ok r
  | fuel+1,r,place,btr =>
    if btr=0 then .ok r
    else (readRound chip r place btr).bind fun (r,rcnt) =>
      fReadLoop fuel (r.advance rcnt) (place+rcnt) (btr-rcnt)

/-- f_read: the state and the number of bytes. -/
def fRead (r : Reading) (btr : ℕ) : Except FResult (Reading×ℕ) :=
  let btr := min btr (r.fp.objsize-r.fp.fptr)
  (fReadLoop chip btr r 0 btr).map fun r => (r,btr)

/-- The loop of f_lseek that follows the clusters: the volume, the file and what
is left of the offset. -/
def seekLoop : ℕ → FatFs → Fil → (ofs : ℕ) → Except FResult (FatFs×Fil×ℕ)
  | 0,fs,fp,ofs => .ok (fs,fp,ofs)
  | fuel+1,fs,fp,ofs =>
    let bcs := fs.csize*512
    if ofs>bcs then
      let fp := {fp with fptr := fp.fptr+bcs}
      let r := getFat chip fs fp.clust
      if r.1=0xFFFFFFFF then .error .diskErr
      else if r.1 ≤ 1 ∨ r.1 ≥ r.2.nFatent then .error .intErr
      else seekLoop fuel r.2 {fp with clust := r.1} (ofs-bcs)
    else .ok (fs,fp,ofs)

/-- Where f_lseek starts: the cluster of the byte before, or the first one. -/
def seekStart (fs : FatFs) (fp : Fil) (ofs : ℕ) : Fil×ℕ :=
  let bcs := fs.csize*512
  if fp.fptr>0 ∧ (ofs-1)/bcs ≥ (fp.fptr-1)/bcs then
    let fptr := fp.fptr-1-(fp.fptr-1&&&(bcs-1))
    ({fp with fptr := fptr},ofs-fptr)
  else ({fp with fptr := 0,clust := fp.sclust},ofs)

/-- f_lseek of a file that is open for reading. -/
def fLseek (r : Reading) (ofs : ℕ) : Except FResult Reading :=
  let ofs := if ofs>r.fp.objsize then r.fp.objsize else ofs
  if ofs≠0 then
    let start := seekStart r.fs r.fp ofs
    (seekLoop chip start.2 r.fs start.1 start.2).bind fun (fs,fp,ofs) =>
      let fp := {fp with fptr := fp.fptr+ofs}
      let nsect := if ofs%512≠0 then clust2sect fs fp.clust else 0
      if ofs%512≠0 ∧ nsect=0 then .error .intErr
      else
        let nsect := if ofs%512≠0 then nsect+ofs/512 else nsect
        .ok ⟨fs,if fp.fptr%512≠0 then cacheSector chip fp nsect else fp,r.buff⟩
  else .ok {r with fp := {r.fp with fptr := 0}}

/-- A call on an open file. -/
inductive FileOp where
  /-- f_lseek. -/
  | lseek (ofs : ℕ)
  /-- f_read. -/
  | read (btr : ℕ)

/-- Calls in order: the file, and what each f_read delivers. -/
def fileRun (r : Reading) : List FileOp → Except FResult (Reading×List (List UInt8))
  | [] => .ok (r,[])
  | .lseek ofs::ops => (fLseek chip r ofs).bind fun r => fileRun r ops
  | .read btr::ops =>
    (fRead chip r btr).bind fun (r,br) =>
      (fileRun r ops).map fun (r',replies) => (r',load r.buff 0 br::replies)

end Source

/-! ## Files -/

section

variable (chip : Mem UInt8)

/-- A byte of the FAT. -/
def fatByte (fs : FatFs) (i : ℕ) : ℕ := (chip (512*fs.fatbase+i)).toNat

/-- The entry of a cluster in the FAT. -/
def fatEntry (fs : FatFs) (clst : ℕ) : ℕ :=
  match fs.fsType with
  | .fat12 =>
    let wc := fatByte chip fs (clst+clst/2) ||| fatByte chip fs (clst+clst/2+1)<<<8
    if clst%2=1 then wc>>>4 else wc&&&0xFFF
  | .fat16 => fatByte chip fs (clst*2) ||| fatByte chip fs (clst*2+1)<<<8
  | .fat32 => (fatByte chip fs (clst*4) ||| fatByte chip fs (clst*4+1)<<<8 |||
      fatByte chip fs (clst*4+2)<<<16 ||| fatByte chip fs (clst*4+3)<<<24)&&&0x0FFFFFFF

/-- The last byte of an entry. -/
def entryEnd (fsType : FsType) (clst : ℕ) : ℕ :=
  match fsType with
  | .fat12 => clst+clst/2+1
  | .fat16 => clst*2+1
  | .fat32 => clst*4+3

/-- A volume on the disk with clusters of one sector, as f_mount leaves it. -/
structure Mounted (fs : FatFs) : Prop where
  /-- One sector is a cluster. -/
  csize : fs.csize=1
  /-- The FAT is on the disk. -/
  fat : ∀ clst<fs.nFatent,fs.fatbase+entryEnd fs.fsType clst/512<sectorCount
  /-- There is something before the first cluster. -/
  database : 1 ≤ fs.database
  /-- The clusters are on the disk. -/
  data : fs.database+fs.nFatent ≤ sectorCount+2

/-- The volume with a sector in its window. -/
def InWindow (fs fs' : FatFs) : Prop :=
  ∃ win winsect,fs'={fs with win := win,winsect := winsect} ∧
    ∀ j<512,win j=chip (512*winsect+j)

/-- The clusters of a file, one for each of its sectors, linked in the FAT. -/
structure Linked (fs : FatFs) (objsize : ℕ) (cluster : ℕ → ℕ) : Prop where
  /-- They are clusters of the volume. -/
  valid : ∀ i,512*i<objsize → 2 ≤ cluster i ∧ cluster i < fs.nFatent
  /-- One leads to the next. -/
  link : ∀ i,512*(i+1)<objsize → fatEntry chip fs (cluster i)=cluster (i+1)

/-- The bytes of a file. -/
def contents (fs : FatFs) (cluster : ℕ → ℕ) : Mem UInt8 := fun o =>
  chip (512*(fs.database+cluster (o/512)-2)+o%512)

/-- An open file between two reads. -/
structure Open (fs : FatFs) (objsize : ℕ) (cluster : ℕ → ℕ) (r : Reading) : Prop where
  /-- Its volume. -/
  window : InWindow chip fs r.fs
  /-- Its size. -/
  size : r.fp.objsize=objsize
  /-- Its first cluster. -/
  first : r.fp.sclust=cluster 0
  /-- The next byte is in the file, or at its end. -/
  inside : r.fp.fptr ≤ objsize
  /-- The cluster of the byte before. -/
  clust : r.fp.fptr≠0 → r.fp.clust=cluster ((r.fp.fptr-1)/512)
  /-- The buffer holds its sector. -/
  buf : r.fp.sect≠0 → ∀ j<512,r.fp.buf j=chip (512*r.fp.sect+j)
  /-- Inside a sector that one is in the buffer. -/
  part : r.fp.fptr%512≠0 → r.fp.sect=fs.database+cluster (r.fp.fptr/512)-2

end

/-! ## Sectors -/

variable {chip : Mem UInt8} {fs fs' : FatFs} {objsize : ℕ} {cluster : ℕ → ℕ} {r : Reading}

/-- A sector alone is read as it is. -/
theorem userRead_single {sector : ℕ} (h : sector<sectorCount) (buff : Mem UInt8) :
    ∀ j<512,(userRead chip buff sector.toUInt32 1).2 j=chip (512*sector+j) := by
  have hnat : sector.toUInt32.toNat=sector := by
    change sector%2^32=sector
    unfold sectorCount at h
    omega
  have hone : 0<(1 : UInt32).toNat := by decide
  have hload := At45Disk.load_userRead (by rwa [hnat]) chip buff hone
  rw [hnat] at hload
  intro j hj
  have hbyte := load_eq_load_iff.mp hload j hj
  rwa [Nat.mul_zero,Nat.zero_add] at hbyte

/-- move_window brings a sector of the disk into the window. -/
theorem moveWindow_spec (hw : InWindow chip fs fs') {sector : ℕ} (h : sector<sectorCount) :
    InWindow chip fs (moveWindow chip fs' sector) ∧
      ∀ j<512,(moveWindow chip fs' sector).win j=chip (512*sector+j) := by
  obtain ⟨win,winsect,rfl,hwin⟩ := hw
  unfold moveWindow
  split
  · have hread : ∀ j<512,(userRead chip win sector.toUInt32 1).2 j=chip (512*sector+j) :=
      userRead_single h win
    exact ⟨⟨_,_,rfl,hread⟩,hread⟩
  · next hsame =>
    obtain rfl := not_not.mp hsame
    exact ⟨⟨_,_,rfl,hwin⟩,hwin⟩

/-- A byte of the FAT behind another one in the window. -/
theorem fatByte_next {win : Mem UInt8} {i n : ℕ}
    (h : ∀ j<512,win j=chip (512*(fs.fatbase+i/512)+j)) (hn : i%512+n<512) :
    (win (i%512+n)).toNat=fatByte chip fs (i+n) := by
  rw [h (i%512+n) hn,fatByte]
  congr 2
  omega

/-- A byte of the FAT in the window. -/
theorem fatByte_window {win : Mem UInt8} {i : ℕ}
    (h : ∀ j<512,win j=chip (512*(fs.fatbase+i/512)+j)) :
    (win (i%512)).toNat=fatByte chip fs i := by
  have hlt : i%512+0<512 := Nat.mod_lt i (by decide)
  exact fatByte_next h hlt

/-- Only the window differs. -/
theorem InWindow.fields (hw : InWindow chip fs fs') : fs'.fsType=fs.fsType ∧
    fs'.csize=fs.csize ∧ fs'.nFatent=fs.nFatent ∧ fs'.fatbase=fs.fatbase ∧
      fs'.database=fs.database := by
  obtain ⟨win,winsect,rfl,-⟩ := hw
  exact ⟨rfl,rfl,rfl,rfl,rfl⟩

/-- get_fat reads the entry of a cluster. -/
theorem getFat_spec (hm : Mounted fs) (hw : InWindow chip fs fs') {clst : ℕ}
    (hvalid : 2 ≤ clst ∧ clst < fs.nFatent) :
    (getFat chip fs' clst).1=fatEntry chip fs clst ∧ InWindow chip fs (getFat chip fs' clst).2 := by
  have hend := hm.fat clst hvalid.2
  obtain ⟨hkind',-,hfatent,hbase,-⟩ := hw.fields
  unfold getFat fatEntry
  unfold entryEnd at hend
  rw [hfatent,if_neg (by omega),hkind']
  cases hkind : fs.fsType with
  | fat12 =>
    rw [hkind] at hend
    dsimp only at hend ⊢
    have hbegin : fs.fatbase+(clst+clst/2)/512<sectorCount := by omega
    obtain ⟨hw1,hread1⟩ := moveWindow_spec hw hbegin
    obtain ⟨hw2,hread2⟩ := moveWindow_spec hw1 hend
    rw [hbase,hw1.fields.2.2.2.1,fatByte_window hread1,fatByte_window hread2]
    exact ⟨rfl,hw2⟩
  | fat16 =>
    rw [hkind] at hend
    dsimp only at hend ⊢
    have hplace : clst/256=clst*2/512 := by omega
    have hbegin : fs.fatbase+clst*2/512<sectorCount := by omega
    obtain ⟨hw1,hread1⟩ := moveWindow_spec hw hbegin
    rw [hbase,hplace,fatByte_window hread1,fatByte_next hread1 (by omega)]
    exact ⟨rfl,hw1⟩
  | fat32 =>
    rw [hkind] at hend
    dsimp only at hend ⊢
    have hplace : clst/128=clst*4/512 := by omega
    have hbegin : fs.fatbase+clst*4/512<sectorCount := by omega
    obtain ⟨hw1,hread1⟩ := moveWindow_spec hw hbegin
    have hbyte {n : ℕ} (hn : n<4) := fatByte_next hread1 (show clst*4%512+n<512 by omega)
    rw [hbase,hplace,fatByte_window hread1,hbyte (n:=1) (by decide),hbyte (n:=2) (by decide),
      hbyte (n:=3) (by decide)]
    exact ⟨rfl,hw1⟩

/-- The sector of a cluster. -/
theorem clust2sect_eq (hm : Mounted fs) (hw : InWindow chip fs fs') {clst : ℕ}
    (hvalid : 2 ≤ clst ∧ clst < fs.nFatent) :
    clust2sect fs' clst=fs.database+clst-2 ∧ fs.database+clst-2≠0 ∧
      fs.database+clst-2<sectorCount := by
  have hdata := hm.data
  have hdatabase := hm.database
  obtain ⟨-,hcsize,hfatent,-,hbase⟩ := hw.fields
  unfold clust2sect
  unfold sectorCount at hdata ⊢
  rw [hcsize,hfatent,hbase,hm.csize]
  dsimp only
  rw [if_neg (by omega)]
  omega

/-! ## Rounds -/

/-- At a sector boundary the next cluster of the file is found. -/
theorem follow_eq (hm : Mounted fs) (hl : Linked chip fs objsize cluster)
    (ho : Open chip fs objsize cluster r) (hbound : r.fp.fptr%512=0) (hmore : r.fp.fptr<objsize) :
    ∃ fs',InWindow chip fs fs' ∧
      follow chip r.fs r.fp=.ok (fs',{r.fp with clust := cluster (r.fp.fptr/512)}) := by
  have hvalid := hl.valid (r.fp.fptr/512) (by omega)
  have hdata := hm.data
  unfold sectorCount at hdata
  have hmask : r.fp.fptr/512&&&(r.fs.csize-1)=0 := by
    rw [ho.window.fields.2.1,hm.csize]
    exact Nat.and_zero _
  have hnext : ∃ fs',InWindow chip fs fs' ∧
      (if r.fp.fptr=0 then (r.fp.sclust,r.fs) else getFat chip r.fs r.fp.clust)=
        (cluster (r.fp.fptr/512),fs') := by
    by_cases hzero : r.fp.fptr=0
    · rw [if_pos hzero,hzero,ho.first]
      exact ⟨r.fs,ho.window,rfl⟩
    · -- the entry of the last cluster leads to the next one
      have hlast : (r.fp.fptr-1)/512+1=r.fp.fptr/512 := by omega
      have hprev := hl.valid ((r.fp.fptr-1)/512) (by omega)
      have hlink := hl.link ((r.fp.fptr-1)/512) (by omega)
      obtain ⟨hvalue,hwindow⟩ := getFat_spec hm ho.window hprev
      rw [if_neg hzero,ho.clust hzero]
      exact ⟨_,hwindow,Prod.ext (by rw [hvalue,hlink,hlast]) rfl⟩
  obtain ⟨fs',hw,hpair⟩ := hnext
  refine ⟨fs',hw,?_⟩
  unfold follow
  rw [if_pos hmask,hpair]
  dsimp only
  rw [if_neg (by omega),if_neg (by omega)]

/-- A file whose current sector is in the buffer. -/
structure Positioned (chip : Mem UInt8) (fs : FatFs) (objsize : ℕ) (cluster : ℕ → ℕ)
    (r : Reading) : Prop where
  /-- Its volume. -/
  window : InWindow chip fs r.fs
  /-- Its size. -/
  size : r.fp.objsize=objsize
  /-- Its first cluster. -/
  first : r.fp.sclust=cluster 0
  /-- There is a next byte. -/
  more : r.fp.fptr<objsize
  /-- The cluster of the next byte. -/
  clust : r.fp.clust=cluster (r.fp.fptr/512)
  /-- Its sector. -/
  sect : r.fp.sect=fs.database+cluster (r.fp.fptr/512)-2
  /-- The buffer. -/
  buf : ∀ j<512,r.fp.buf j=chip (512*r.fp.sect+j)

/-- A round delivers a part of the file and leaves it open behind this part. -/
def Delivers (chip : Mem UInt8) (fs : FatFs) (objsize : ℕ) (cluster : ℕ → ℕ) (r : Reading)
    (place btr : ℕ) (out : Reading×ℕ) : Prop :=
  0<out.2 ∧ out.2 ≤ btr ∧ Open chip fs objsize cluster (out.1.advance out.2) ∧
    out.1.fp.fptr=r.fp.fptr ∧
    out.1.buff=store r.buff place (load (contents chip fs cluster) r.fp.fptr out.2)

theorem Delivers.congr {r r' : Reading} {place btr : ℕ} {out : Reading×ℕ}
    (h : Delivers chip fs objsize cluster r' place btr out) (hfptr : r'.fp.fptr=r.fp.fptr)
    (hbuff : r'.buff=r.buff) : Delivers chip fs objsize cluster r place btr out := by
  unfold Delivers at h ⊢
  rwa [←hfptr,←hbuff]

/-- A part of a sector comes from the buffer. -/
theorem copyPart_delivers (hp : Positioned chip fs objsize cluster r) (place : ℕ) {btr : ℕ}
    (hpos : 0<btr) (hbtr : r.fp.fptr+btr ≤ objsize) :
    Delivers chip fs objsize cluster r place btr (copyPart r place btr) := by
  have hlt : r.fp.fptr%512<512 := Nat.mod_lt _ (by decide)
  have hdata : load r.fp.buf (r.fp.fptr%512) (min (512-r.fp.fptr%512) btr)=
      load (contents chip fs cluster) r.fp.fptr (min (512-r.fp.fptr%512) btr) := by
    refine load_eq_load_iff.mpr fun i hi => ?_
    rw [hp.buf _ (by omega),hp.sect,contents,show (r.fp.fptr+i)/512=r.fp.fptr/512 by omega,
      show (r.fp.fptr+i)%512=r.fp.fptr%512+i by omega]
  have hplace : (r.fp.fptr+min (512-r.fp.fptr%512) btr-1)/512=r.fp.fptr/512 := by omega
  unfold copyPart
  dsimp only
  rw [hdata]
  refine ⟨by dsimp only; omega,Nat.min_le_right _ _,?_,rfl,rfl⟩
  refine ⟨hp.window,hp.size,hp.first,?_,fun _ => ?_,fun _ => hp.buf,fun hpart => ?_⟩
  · dsimp only [Reading.advance]
    omega
  · dsimp only [Reading.advance]
    rw [hplace]
    exact hp.clust
  · dsimp only [Reading.advance] at hpart ⊢
    rw [show (r.fp.fptr+min (512-r.fp.fptr%512) btr)/512=r.fp.fptr/512 by omega]
    exact hp.sect

/-- A sector goes to the buffer of the caller. -/
theorem wholeSector_delivers (ho : Open chip fs objsize cluster r) (hbound : r.fp.fptr%512=0)
    {sect : ℕ} (hsect : sect<sectorCount)
    (hplace : sect=fs.database+cluster (r.fp.fptr/512)-2) (hw : InWindow chip fs fs')
    (place : ℕ) {btr : ℕ} (hwhole : 512 ≤ btr) (hbtr : r.fp.fptr+btr ≤ objsize) :
    Delivers chip fs objsize cluster r place btr
      (⟨fs',{r.fp with clust := cluster (r.fp.fptr/512)},
        At45Disk.readLoop chip sect.toUInt32 1 place r.buff⟩,512) := by
  have hnat : sect.toUInt32.toNat=sect := by
    change sect%2^32=sect
    unfold sectorCount at hsect
    omega
  have hread : At45Disk.readLoop chip sect.toUInt32 1 place r.buff=
      store r.buff place (load chip (sectorSize*sect) sectorSize) := by
    rw [At45Disk.readLoop_succ (by rwa [hnat]),hnat]
    rfl
  have hdata : load chip (512*sect) 512=load (contents chip fs cluster) r.fp.fptr 512 := by
    refine load_eq_load_iff.mpr fun i hi => ?_
    rw [contents,hplace,show (r.fp.fptr+i)/512=r.fp.fptr/512 by omega,
      show (r.fp.fptr+i)%512=i by omega]
  refine ⟨Nat.succ_pos 511,hwhole,?_,rfl,by rw [hread,←hdata]⟩
  refine ⟨hw,ho.size,ho.first,?_,fun _ => ?_,ho.buf,fun hpart => ?_⟩
  · dsimp only [Reading.advance]
    omega
  · dsimp only [Reading.advance]
    rw [show (r.fp.fptr+512-1)/512=r.fp.fptr/512 by omega]
  · dsimp only [Reading.advance] at hpart
    omega

theorem cacheSector_fptr (fp : Fil) (sect : ℕ) : (cacheSector chip fp sect).fptr=fp.fptr := by
  unfold cacheSector
  split <;> rfl

/-- The buffer of the file holds a sector, read now or before. -/
theorem cacheSector_eq {fp : Fil} {sect : ℕ} (hsect : sect<sectorCount) (hne : sect≠0)
    (hbuf : fp.sect≠0 → ∀ j<512,fp.buf j=chip (512*fp.sect+j)) :
    ∃ buf,cacheSector chip fp sect={fp with buf := buf,sect := sect} ∧
      ∀ j<512,buf j=chip (512*sect+j) := by
  unfold cacheSector
  split
  · exact ⟨_,rfl,userRead_single hsect fp.buf⟩
  · next hsame =>
    obtain rfl := not_not.mp hsame
    exact ⟨fp.buf,rfl,hbuf hne⟩

/-- The sector at a boundary comes into the buffer of the file. -/
theorem cacheSector_positioned (ho : Open chip fs objsize cluster r) (hmore : r.fp.fptr<objsize)
    {sect : ℕ} (hsect : sect<sectorCount) (hne : sect≠0)
    (hplace : sect=fs.database+cluster (r.fp.fptr/512)-2) (hw : InWindow chip fs fs') :
    Positioned chip fs objsize cluster ⟨fs',
      cacheSector chip {r.fp with clust := cluster (r.fp.fptr/512)} sect,r.buff⟩ := by
  have hbuf : r.fp.sect≠0 → ∀ j<512,r.fp.buf j=chip (512*r.fp.sect+j) := ho.buf
  obtain ⟨buf,hcache,hdata⟩ := @cacheSector_eq chip
    {r.fp with clust := cluster (r.fp.fptr/512)} sect hsect hne hbuf
  rw [hcache]
  exact ⟨hw,ho.size,ho.first,hmore,rfl,hplace,hdata⟩

/-- A round of f_read delivers a part of the file. -/
theorem readRound_delivers (hm : Mounted fs) (hl : Linked chip fs objsize cluster)
    (ho : Open chip fs objsize cluster r) (place : ℕ) {btr : ℕ} (hpos : 0<btr)
    (hbtr : r.fp.fptr+btr ≤ objsize) :
    ∃ out,readRound chip r place btr=.ok out ∧
      Delivers chip fs objsize cluster r place btr out := by
  have hvalid := hl.valid (r.fp.fptr/512) (by omega)
  unfold readRound
  by_cases hbound : r.fp.fptr%512=0
  · obtain ⟨fs',hw,hfollow⟩ := follow_eq hm hl ho hbound (by omega)
    obtain ⟨hsect,hne,hlt⟩ := clust2sect_eq hm hw hvalid
    have hcsize : fs'.csize=1 := hw.fields.2.1.trans hm.csize
    rw [if_pos hbound,hfollow]
    simp only [Except.bind,hcsize,Nat.sub_self,Nat.and_zero,hsect,if_neg hne,Nat.add_zero,
      Nat.zero_add,Nat.sub_zero]
    by_cases hwhole : btr/512=0
    · rw [if_neg (not_not.mpr hwhole)]
      have hp := cacheSector_positioned ho (by omega) hlt hne rfl hw
      have hcopy := copyPart_delivers hp place hpos (by rw [cacheSector_fptr]; exact hbtr)
      exact ⟨_,rfl,hcopy.congr (cacheSector_fptr _ _) rfl⟩
    · -- one sector, however many are wanted
      have hone : (if btr/512>1 then 1 else btr/512)=1 := by split <;> omega
      rw [if_pos hwhole,hone]
      exact ⟨_,rfl,wholeSector_delivers ho hbound hlt rfl hw place (by omega) hbtr⟩
  · rw [if_neg hbound]
    have hplace := ho.part hbound
    have hlast : (r.fp.fptr-1)/512=r.fp.fptr/512 := by omega
    have hclust := ho.clust (by omega)
    rw [hlast] at hclust
    have hne : r.fp.sect≠0 := by
      have := hm.database
      omega
    have hp : Positioned chip fs objsize cluster r :=
      ⟨ho.window,ho.size,ho.first,by omega,hclust,hplace,ho.buf hne⟩
    exact ⟨_,rfl,copyPart_delivers hp place hpos hbtr⟩

/-! ## Reads -/

/-- The loop of f_read delivers all bytes that are wanted. -/
theorem fReadLoop_eq (hm : Mounted fs) (hl : Linked chip fs objsize cluster) {fuel : ℕ}
    (ho : Open chip fs objsize cluster r) (place : ℕ) {btr : ℕ} (hfuel : btr ≤ fuel)
    (hbtr : r.fp.fptr+btr ≤ objsize) :
    ∃ r',fReadLoop chip fuel r place btr=.ok r' ∧ Open chip fs objsize cluster r' ∧
      r'.fp.fptr=r.fp.fptr+btr ∧
      r'.buff=store r.buff place (load (contents chip fs cluster) r.fp.fptr btr) := by
  have hdone (r : Reading) (place : ℕ) : r.buff=store r.buff place
      (load (contents chip fs cluster) r.fp.fptr 0) := by
    funext x
    exact (store_apply_of_not (by rw [load_length]; omega)).symm
  induction fuel generalizing r place btr with
  | zero =>
    obtain rfl : btr=0 := by omega
    exact ⟨r,rfl,ho,rfl,hdone r place⟩
  | succ fuel ih =>
    by_cases hzero : btr=0
    · subst hzero
      exact ⟨r,rfl,ho,rfl,hdone r place⟩
    · obtain ⟨⟨r1,rcnt⟩,hround,hpos,hle,hopen,hfptr,hbuff⟩ :=
        readRound_delivers hm hl ho place (by omega) hbtr
      dsimp only at hpos hle hopen hfptr hbuff
      have hrest : (r1.advance rcnt).fp.fptr=r.fp.fptr+rcnt := congrArg (·+rcnt) hfptr
      have hbtr' : (r1.advance rcnt).fp.fptr+(btr-rcnt) ≤ objsize := by omega
      obtain ⟨r',hloop,ho',hfptr',hbuff'⟩ := ih hopen (place+rcnt) (by omega) hbtr'
      refine ⟨r',?_,ho',by omega,?_⟩
      · rw [fReadLoop,if_neg hzero,hround]
        exact hloop
      · have hnext : (r1.advance rcnt).buff=r1.buff := rfl
        have happend := store_store_append r.buff place
          (load (contents chip fs cluster) r.fp.fptr rcnt)
          (load (contents chip fs cluster) (r.fp.fptr+rcnt) (btr-rcnt))
        rw [load_length,←load_append,Nat.add_sub_cancel' hle] at happend
        rw [hbuff',hnext,hbuff,hrest,happend]

/-- f_read delivers the rest of the file, or as many bytes as are wanted. -/
theorem fRead_eq (hm : Mounted fs) (hl : Linked chip fs objsize cluster)
    (ho : Open chip fs objsize cluster r) (btr : ℕ) :
    ∃ r',fRead chip r btr=.ok (r',min btr (objsize-r.fp.fptr)) ∧
      Open chip fs objsize cluster r' ∧ r'.fp.fptr=r.fp.fptr+min btr (objsize-r.fp.fptr) ∧
      load r'.buff 0 (min btr (objsize-r.fp.fptr))=
        load (contents chip fs cluster) r.fp.fptr (min btr (objsize-r.fp.fptr)) := by
  have hinside := ho.inside
  have hbtr : r.fp.fptr+min btr (objsize-r.fp.fptr) ≤ objsize := by omega
  obtain ⟨r',hloop,ho',hfptr,hbuff⟩ := fReadLoop_eq hm hl ho 0 le_rfl hbtr
  have hself := load_store_self r.buff 0
    (load (contents chip fs cluster) r.fp.fptr (min btr (objsize-r.fp.fptr)))
  rw [load_length] at hself
  refine ⟨r',?_,ho',hfptr,by rw [hbuff,hself]⟩
  unfold fRead
  dsimp only
  rw [ho.size,hloop]
  rfl

/-! ## Seeks -/

/-- A file in the middle of a seek: the place is the start of the current cluster. -/
structure Seeking (chip : Mem UInt8) (fs : FatFs) (objsize : ℕ) (cluster : ℕ → ℕ) (fs' : FatFs)
    (fp : Fil) : Prop where
  /-- Its volume. -/
  window : InWindow chip fs fs'
  /-- Its size. -/
  size : fp.objsize=objsize
  /-- Its first cluster. -/
  first : fp.sclust=cluster 0
  /-- The start of a sector. -/
  bound : fp.fptr%512=0
  /-- Its cluster. -/
  clust : fp.clust=cluster (fp.fptr/512)
  /-- The buffer holds its sector. -/
  buf : fp.sect≠0 → ∀ j<512,fp.buf j=chip (512*fp.sect+j)

/-- The loop of f_lseek ends in the cluster of the byte before the target. -/
theorem seekLoop_eq (hm : Mounted fs) (hl : Linked chip fs objsize cluster) {fuel ofs : ℕ}
    {fp : Fil} (hs : Seeking chip fs objsize cluster fs' fp) (hfuel : ofs ≤ fuel) (hpos : 0<ofs)
    (hend : fp.fptr+ofs ≤ objsize) :
    ∃ fs'' fp' ofs',seekLoop chip fuel fs' fp ofs=.ok (fs'',fp',ofs') ∧
      Seeking chip fs objsize cluster fs'' fp' ∧ 0<ofs' ∧ ofs' ≤ 512 ∧
        fp'.fptr+ofs'=fp.fptr+ofs := by
  have hdata := hm.data
  unfold sectorCount at hdata
  induction fuel generalizing fs' fp ofs with
  | zero => omega
  | succ fuel ih =>
    have hbcs : fs'.csize*512=512 := by rw [hs.window.fields.2.1,hm.csize]
    have hbound := hs.bound
    rw [seekLoop,hbcs]
    by_cases hmore : ofs>512
    · have hvalid := hl.valid (fp.fptr/512) (by omega)
      have hnext := hl.valid (fp.fptr/512+1) (by omega)
      have hlink := hl.link (fp.fptr/512) (by omega)
      obtain ⟨hvalue,hwindow⟩ := getFat_spec hm hs.window hvalid
      rw [hlink] at hvalue
      rw [←hs.clust] at hvalue hwindow
      rw [if_pos hmore]
      dsimp only
      rw [hvalue,hwindow.fields.2.2.1,if_neg (by omega),if_neg (by omega)]
      have hplace : fp.fptr/512+1=(fp.fptr+512)/512 := by omega
      have hs1 : Seeking chip fs objsize cluster (getFat chip fs' fp.clust).2
          {fp with fptr := fp.fptr+512,clust := cluster (fp.fptr/512+1)} :=
        ⟨hwindow,hs.size,hs.first,by dsimp only; omega,congrArg cluster hplace,hs.buf⟩
      have hfuel' : ofs-512 ≤ fuel := by omega
      have hend' : fp.fptr+512+(ofs-512) ≤ objsize := by omega
      obtain ⟨fs'',fp',ofs',hloop,hs',hpos',hle,hsum⟩ := ih hs1 hfuel' (by omega) hend'
      exact ⟨fs'',fp',ofs',hloop,hs',hpos',hle,by dsimp only at hsum; omega⟩
    · rw [if_neg hmore]
      exact ⟨fs',fp,ofs,rfl,hs,hpos,by omega,rfl⟩

/-- f_lseek starts in front of its target. -/
theorem seekStart_spec (hm : Mounted fs) (ho : Open chip fs objsize cluster r) {ofs : ℕ}
    (hpos : 0<ofs) : Seeking chip fs objsize cluster r.fs (seekStart r.fs r.fp ofs).1 ∧
      0<(seekStart r.fs r.fp ofs).2 ∧
        (seekStart r.fs r.fp ofs).1.fptr+(seekStart r.fs r.fp ofs).2=ofs := by
  have hbcs : r.fs.csize*512=512 := by rw [ho.window.fields.2.1,hm.csize]
  unfold seekStart
  rw [hbcs]
  dsimp only
  split
  · next hback =>
    have hmask : (r.fp.fptr-1&&&(512-1))=(r.fp.fptr-1)%512 :=
      Nat.and_two_pow_sub_one_eq_mod (r.fp.fptr-1) 9
    have hclust := ho.clust (by omega)
    rw [hmask]
    refine ⟨⟨ho.window,ho.size,ho.first,by dsimp only; omega,?_,ho.buf⟩,by dsimp only; omega,
      by dsimp only; omega⟩
    dsimp only
    rw [hclust]
    congr 1
    omega
  · refine ⟨⟨ho.window,ho.size,ho.first,rfl,?_,ho.buf⟩,hpos,Nat.zero_add ofs⟩
    dsimp only
    rw [Nat.zero_div]
    exact ho.first

/-- f_lseek goes to its target, or to the end of the file. -/
theorem fLseek_eq (hm : Mounted fs) (hl : Linked chip fs objsize cluster)
    (ho : Open chip fs objsize cluster r) (ofs : ℕ) :
    ∃ r',fLseek chip r ofs=.ok r' ∧ Open chip fs objsize cluster r' ∧
      r'.fp.fptr=min ofs objsize := by
  have hclip : (if ofs>objsize then objsize else ofs)=min ofs objsize := by
    split <;> omega
  unfold fLseek
  rw [ho.size,hclip]
  by_cases hzero : min ofs objsize=0
  · rw [if_neg (not_not.mpr hzero),hzero]
    exact ⟨_,rfl,⟨ho.window,ho.size,ho.first,Nat.zero_le _,fun hne => absurd rfl hne,ho.buf,
      fun hne => absurd rfl hne⟩,rfl⟩
  · obtain ⟨hs,hpos,hsum⟩ := seekStart_spec hm ho (Nat.pos_of_ne_zero hzero)
    obtain ⟨fs',fp,ofs',hloop,hs',hpos',hle,hsum'⟩ := seekLoop_eq hm hl hs le_rfl hpos (by omega)
    have hbound := hs'.bound
    have hlast : (fp.fptr+ofs'-1)/512=fp.fptr/512 := by omega
    obtain ⟨hsect,hne,hlt⟩ := clust2sect_eq hm hs'.window (hl.valid (fp.fptr/512) (by omega))
    rw [←hs'.clust] at hsect hne hlt
    have hinside : fp.fptr+ofs' ≤ objsize := by omega
    have hclust : fp.clust=cluster ((fp.fptr+ofs'-1)/512) := by rw [hlast,hs'.clust]
    rw [if_pos hzero]
    dsimp only
    rw [hloop]
    by_cases hpart : ofs'%512=0
    · have hwhole : (fp.fptr+ofs')%512=0 := by omega
      simp only [Except.bind,hpart,hwhole,ne_eq,not_true,false_and,if_false]
      exact ⟨_,rfl,⟨hs'.window,hs'.size,hs'.first,hinside,fun _ => hclust,hs'.buf,
        fun hne' => absurd hwhole hne'⟩,by dsimp only; omega⟩
    · have hmiddle : (fp.fptr+ofs')%512≠0 := by omega
      have hzero' : ofs'/512=0 := by omega
      have hplace : (fp.fptr+ofs')/512=fp.fptr/512 := by omega
      simp only [Except.bind,hpart,hmiddle,hsect,hne,hzero',ne_eq,not_false_eq_true,if_true,
        true_and,if_false,Nat.add_zero]
      obtain ⟨buf,hcache,hdata⟩ := @cacheSector_eq chip {fp with fptr := fp.fptr+ofs'}
        (fs.database+fp.clust-2) hlt hne hs'.buf
      have hsector : fs.database+fp.clust-2=fs.database+cluster ((fp.fptr+ofs')/512)-2 := by
        rw [hplace,hs'.clust]
      rw [hcache]
      exact ⟨_,rfl,⟨hs'.window,hs'.size,hs'.first,hinside,fun _ => hclust,fun _ => hdata,
        fun _ => hsector⟩,by dsimp only; omega⟩

/-! ## Files as arrays of bytes -/

/-- What calls deliver of an array of bytes with a cursor. -/
def arrayRun (file : Mem UInt8) (size : ℕ) : (pos : ℕ) → List FileOp → List (List UInt8)
  | _,[] => []
  | _,.lseek ofs::ops => arrayRun file size (min ofs size) ops
  | pos,.read btr::ops =>
    load file pos (min btr (size-pos))::arrayRun file size (pos+min btr (size-pos)) ops

/-- A file that f_open has opened; it leaves clust as it was. -/
def opened (fs : FatFs) (sclust objsize clust : ℕ) (buff : Mem UInt8) : Reading :=
  ⟨fs,⟨sclust,objsize,0,clust,0,fun _ => 0⟩,buff⟩

/-- From every state of a file its calls succeed and deliver what an array of
bytes does, and leave such a state. -/
theorem fileRun_eq (hm : Mounted fs) (hl : Linked chip fs objsize cluster)
    (ho : Open chip fs objsize cluster r) (ops : List FileOp) :
    ∃ r',fileRun chip r ops=
        .ok (r',arrayRun (contents chip fs cluster) objsize r.fp.fptr ops) ∧
      Open chip fs objsize cluster r' := by
  induction ops generalizing r with
  | nil => exact ⟨r,rfl,ho⟩
  | cons op ops ih =>
    cases op with
    | lseek ofs =>
      obtain ⟨r1,hseek,ho1,hfptr⟩ := fLseek_eq hm hl ho ofs
      obtain ⟨r',hrun,ho'⟩ := ih ho1
      refine ⟨r',?_,ho'⟩
      rw [fileRun,hseek,arrayRun,←hfptr]
      exact hrun
    | read btr =>
      obtain ⟨r1,hread,ho1,hfptr,hdata⟩ := fRead_eq hm hl ho btr
      obtain ⟨r',hrun,ho'⟩ := ih ho1
      refine ⟨r',?_,ho'⟩
      rw [fileRun,hread,arrayRun,←hfptr,←hdata]
      simp only [Except.bind,hrun]
      rfl

/-- A file is open behind f_open, whatever sector is in the window. -/
theorem open_opened (hwin : ∀ j<512,fs.win j=chip (512*fs.winsect+j)) (clust : ℕ)
    (buff : Mem UInt8) :
    Open chip fs objsize cluster (opened fs (cluster 0) objsize clust buff) :=
  ⟨⟨fs.win,fs.winsect,rfl,hwin⟩,rfl,rfl,Nat.zero_le _,fun hne => absurd rfl hne,
    fun hne => absurd rfl hne,fun hne => absurd rfl hne⟩

/-- On a volume whose clusters are one sector each, for every file with its
clusters linked in the FAT and every sequence of f_lseek and f_read with any
offsets and sizes: all calls succeed and deliver what an array of its bytes
does. -/
theorem file_is_array (hm : Mounted fs) (hwin : ∀ j<512,fs.win j=chip (512*fs.winsect+j))
    (hl : Linked chip fs objsize cluster) (clust : ℕ) (buff : Mem UInt8) (ops : List FileOp) :
    (fileRun chip (opened fs (cluster 0) objsize clust buff) ops).map Prod.snd=
      .ok (arrayRun (contents chip fs cluster) objsize 0 ops) := by
  obtain ⟨r',hrun,-⟩ := fileRun_eq hm hl (open_opened hwin clust buff) ops
  rw [hrun]
  rfl


/-- A volume with four clusters. -/
def smallVolume (chip : Mem UInt8) : FatFs := ⟨.fat12,1,4,1,2,0,chip⟩

/-- A chip whose FAT leads from cluster 2 to cluster 3. -/
def smallChip : Mem UInt8 := fun a => if a=515 then 3 else if a=516 then 0 else (a%251).toUInt8

theorem smallVolume_mounted : Mounted (smallVolume smallChip) := by
  refine ⟨rfl,fun clst hclst => ?_,by decide,by decide⟩
  change clst<4 at hclst
  change 1+(clst+clst/2+1)/512<2048
  omega

/-- A file of 700 bytes in its two clusters. -/
theorem smallChip_linked : Linked smallChip (smallVolume smallChip) 700 (·+2) := by
  refine ⟨fun i hi => ⟨by omega,?_⟩,fun i hi => ?_⟩
  · change i+2<4
    omega
  · obtain rfl : i=0 := by omega
    decide

theorem file_is_array_small : (fileRun smallChip
      (opened (smallVolume smallChip) 2 700 0 fun _ => 0)
      [.read 100,.lseek 600,.read 200,.lseek 500,.read 20]).map Prod.snd=
    .ok (arrayRun (contents smallChip (smallVolume smallChip) (·+2)) 700 0
      [.read 100,.lseek 600,.read 200,.lseek 500,.read 20]) := by
  have hwin (j : ℕ) (_ : j<512) : (smallVolume smallChip).win j=
      smallChip (512*(smallVolume smallChip).winsect+j) := congrArg smallChip (Nat.zero_add j).symm
  exact file_is_array smallVolume_mounted hwin smallChip_linked 0 (fun _ => 0)
    [.read 100,.lseek 600,.read 200,.lseek 500,.read 20]

end BT816Display.FatFile
