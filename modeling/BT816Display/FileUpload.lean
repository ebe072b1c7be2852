import BT816Display.ConfigUpload
import BT816Display.FatFile

/-!
# The upload from the disk

The calls of FatFs in the upload of lcdconf.bin are f_lseek and f_read on the
disk. On a volume whose clusters are one sector each they succeed for every
block, and the file reaches the flash of the display.
-/

namespace BT816Display.FileUpload

open ByteMemory
open FatFile (Mounted Linked Open contents opened FResult)
open ConfigUpload (frOk Upload upload blockCnt bytesIn padded blockUpdate fileAt seekOf readingOf
  Succeeds ReturnsFile FailsAt)

/-- The number of a result. -/
def code : FResult → UInt8
  | .diskErr => 1
  | .intErr => 2

/-- f_lseek and f_read on the disk. -/
def diskFs (chip : Mem UInt8) : ConfigUpload.FatFs FatFile.Reading where
  fLseek r ofs := match FatFile.fLseek chip r ofs.toNat with
    | .ok r' => (frOk,r')
    | .error e => (code e,r)
  fRead r btr := match FatFile.fRead chip r btr.toNat with
    | .ok (r',br) => (⟨frOk,UInt32.ofNat br,load r'.buff 0 br⟩,r')
    | .error e => (⟨code e,0,[]⟩,r)

variable {chip : Mem UInt8} {fs : FatFile.FatFs} {objsize : ℕ} {cluster : ℕ → ℕ}
  {r : FatFile.Reading}

/-- The bytes of a file of the disk. -/
def fileBytes (chip : Mem UInt8) (fs : FatFile.FatFs) (cluster : ℕ → ℕ) (objsize : ℕ) :
    List UInt8 := load (contents chip fs cluster) 0 objsize

theorem fileBytes_length : (fileBytes chip fs cluster objsize).length=objsize := load_length ..

/-- A part of the file. -/
theorem fileBytes_part {place cnt : ℕ} (h : place+cnt ≤ objsize) :
    ((fileBytes chip fs cluster objsize).drop place).take cnt=
      load (contents chip fs cluster) place cnt := by
  unfold fileBytes
  obtain ⟨rest,rfl⟩ := Nat.exists_eq_add_of_le h
  rw [load_append,load_append,List.append_assoc,List.drop_left' (load_length ..),
    List.take_left' (load_length ..),Nat.zero_add]

/-- f_lseek and f_read of a block from an open file. -/
theorem block_read (hm : Mounted fs) (hl : Linked chip fs objsize cluster)
    (ho : Open chip fs objsize cluster r) {place cnt : ℕ} (h : place+cnt ≤ objsize)
    (hsize : objsize<2^32) :
    ∃ r1 r2,(diskFs chip).fLseek r (UInt32.ofNat place)=(frOk,r1) ∧
      (diskFs chip).fRead r1 (UInt32.ofNat cnt)=
        (⟨frOk,UInt32.ofNat cnt,load (contents chip fs cluster) place cnt⟩,r2) ∧
      Open chip fs objsize cluster r2 := by
  have hplace : (UInt32.ofNat place).toNat=place := by
    rw [UInt32.toNat_ofNat']
    omega
  have hcnt : (UInt32.ofNat cnt).toNat=cnt := by
    rw [UInt32.toNat_ofNat']
    omega
  obtain ⟨r1,hseek,ho1,hfptr⟩ := FatFile.fLseek_eq hm hl ho place
  obtain ⟨r2,hread,ho2,-,hdata⟩ := FatFile.fRead_eq hm hl ho1 cnt
  rw [min_eq_left (by omega)] at hfptr
  rw [hfptr,min_eq_left (by omega)] at hread hdata
  refine ⟨r1,r2,?_,?_,ho2⟩
  · unfold diskFs
    dsimp only
    rw [hplace,hseek]
  · unfold diskFs
    dsimp only
    rw [hcnt,hread]
    dsimp only
    rw [hdata]

/-- Before each block the file is open. -/
theorem open_fileAt (hm : Mounted fs) (hl : Linked chip fs objsize cluster)
    (ho : Open chip fs objsize cluster r) (hsize : objsize<2^32) {k : ℕ}
    (hk : k ≤ blockCnt objsize) :
    Open chip fs objsize cluster (fileAt (diskFs chip) objsize r k) := by
  induction k with
  | zero => exact ho
  | succ k ih =>
    have hblock : 4096*k+bytesIn objsize k ≤ objsize := by
      unfold blockCnt at hk
      unfold bytesIn
      omega
    obtain ⟨r1,r2,hseek,hread,ho2⟩ := block_read hm hl (ih (by omega)) hblock hsize
    rw [fileAt,hseek,hread]
    exact ho2

/-- f_read returns the file block by block. -/
theorem block_succeeds (hm : Mounted fs) (hl : Linked chip fs objsize cluster)
    (ho : Open chip fs objsize cluster r) (hsize : objsize<2^32) {k : ℕ}
    (hk : k<blockCnt objsize) :
    Succeeds (diskFs chip) objsize r k ∧ (readingOf (diskFs chip) objsize r k).data=
      ((fileBytes chip fs cluster objsize).drop (4096*k)).take (bytesIn objsize k) := by
  have hblock : 4096*k+bytesIn objsize k ≤ objsize := by
    unfold blockCnt at hk
    unfold bytesIn
    omega
  obtain ⟨r1,r2,hseek,hread,-⟩ :=
    block_read hm hl (open_fileAt hm hl ho hsize hk.le) hblock hsize
  unfold Succeeds readingOf seekOf
  rw [hseek,hread,fileBytes_part hblock]
  exact ⟨⟨rfl,rfl,rfl⟩,rfl⟩

/-- Nothing is read where nothing is wanted. -/
theorem fRead_none (r : FatFile.Reading) : ((diskFs chip).fRead r 0).1.data=[] := by
  have hnone : FatFile.fRead chip r 0=.ok (r,0) := by
    unfold FatFile.fRead
    rw [Nat.zero_min]
    rfl
  have hzero : (0 : UInt32).toNat=0 := rfl
  unfold diskFs
  dsimp only
  rw [hzero,hnone]
  rfl

/-- The calls return the file, also behind its end. -/
theorem diskFs_returnsFile (hm : Mounted fs) (hl : Linked chip fs objsize cluster)
    (ho : Open chip fs objsize cluster r) (hsize : objsize<2^32) :
    ReturnsFile (diskFs chip) (fileBytes chip fs cluster objsize) r := by
  intro k _
  rw [fileBytes_length]
  rcases Nat.lt_or_ge k (blockCnt objsize) with hk|hk
  · exact (block_succeeds hm hl ho hsize hk).2
  · have hnone : bytesIn objsize k=0 := by
      unfold blockCnt at hk
      unfold bytesIn
      omega
    unfold readingOf
    rw [hnone,List.take_zero]
    exact fRead_none _

/-- On a volume whose clusters are one sector each, for every lcdconf.bin with
its clusters linked in the FAT and no larger than the disk: the upload ends,
writes the bytes of the file and zeros up to a whole number of blocks to the
flash of the display behind the first sector, one flash update for each block,
and nothing else. -/
theorem upload_copies_file (hm : Mounted fs)
    (hwin : ∀ j<512,fs.win j=chip (512*fs.winsect+j)) (hl : Linked chip fs objsize cluster)
    (hsize : objsize ≤ 2048*512) (clust : ℕ) (buff : Mem UInt8)
    (s : Upload FatFile.Reading) (hfile : s.rdFile=opened fs (cluster 0) objsize clust buff)
    {fuel : ℕ} (hfuel : blockCnt objsize<fuel) :
    ∃ s',upload (diskFs chip) objsize.toUInt32 fuel s=some s' ∧
      s'.flash=store s.flash 4096 (padded (fileBytes chip fs cluster objsize)) ∧
      s'.updates=s.updates++
        (List.range (blockCnt objsize)).map (blockUpdate (fileBytes chip fs cluster objsize)) := by
  have ho : Open chip fs objsize cluster s.rdFile := by
    rw [hfile]
    exact FatFile.open_opened hwin clust buff
  have hlen : (fileBytes chip fs cluster objsize).length=objsize := fileBytes_length
  have hnat : objsize.toUInt32.toNat=objsize := by
    change objsize%2^32=objsize
    omega
  have hblocks : FailsAt (diskFs chip) objsize s.rdFile (blockCnt objsize) :=
    ⟨le_rfl,fun k hk => (block_succeeds hm hl ho (by omega) hk).1,
      fun hlt => absurd hlt (Nat.lt_irrefl _)⟩
  have hreturns := diskFs_returnsFile hm hl ho (by omega)
  obtain ⟨s',hend,hwritten⟩ := ConfigUpload.upload_written (by rw [hlen,hnat])
    (by rw [hlen]; exact hsize) hreturns (by rwa [hlen]) (by rwa [hlen])
  refine ⟨s',hend,?_,hwritten.updates⟩
  have hflash := hwritten.flash
  have hall := ConfigUpload.padded_length (fileBytes chip fs cluster objsize)
  rw [hlen] at hall
  rw [hflash,←hall,List.take_length]

/-- A chip whose FAT leads from every cluster to the next one. -/
def chainChip : Mem UInt8 := fun a =>
  if 512 ≤ a ∧ a<1024 then
    let pair := (a-512)/3
    match (a-512)%3 with
    | 0 => (2*pair+1).toUInt8
    | 1 => ((2*pair+2)%16*16).toUInt8
    | _ => ((2*pair+2)/16).toUInt8
  else (a%251).toUInt8

/-- A volume with twelve clusters. -/
def chainVolume : FatFile.FatFs := ⟨.fat12,1,14,1,2,0,chainChip⟩

theorem chainVolume_mounted : Mounted chainVolume := by
  refine ⟨rfl,fun clst hclst => ?_,by decide,by decide⟩
  change clst<14 at hclst
  change 1+(clst+clst/2+1)/512<2048
  omega

/-- A file of 5000 bytes in the first ten of them. -/
theorem chainChip_linked : Linked chainChip chainVolume 5000 (·+2) := by
  have hentry : ∀ i<9,FatFile.fatEntry chainChip chainVolume (i+2)=i+3 := by decide
  refine ⟨fun i hi => ⟨Nat.le_add_left 2 i,?_⟩,fun i hi => hentry i (by omega)⟩
  change i+2<14
  omega

/-- Before the upload of this file. -/
def chainUpload : Upload FatFile.Reading :=
  ⟨opened chainVolume 2 5000 0 fun _ => 0,fun _ => 0xAA,0,fun _ => 0xAA,fun _ => 0xFF,[]⟩

/-- It takes a full block and a part of one. -/
theorem upload_copies_file_chain : ∃ s',
    upload (diskFs chainChip) 5000 3 chainUpload=some s' ∧
      s'.flash=store (fun _ => 0xFF) 4096 (padded (fileBytes chainChip chainVolume (·+2) 5000)) ∧
      s'.updates=[blockUpdate (fileBytes chainChip chainVolume (·+2) 5000) 0,
        blockUpdate (fileBytes chainChip chainVolume (·+2) 5000) 1] := by
  have hwin (j : ℕ) (_ : j<512) : chainVolume.win j=chainChip (512*chainVolume.winsect+j) := by
    rw [show chainVolume.winsect=0 from rfl,Nat.mul_zero,Nat.zero_add]
    rfl
  have hcnt : blockCnt 5000=2 := rfl
  obtain ⟨s',hend,hflash,hupdates⟩ := upload_copies_file chainVolume_mounted hwin chainChip_linked
    (by omega) 0 (fun _ => 0) chainUpload rfl (hcnt.trans_lt (Nat.lt_succ_self 2))
  rw [hcnt] at hupdates
  exact ⟨s',hend,hflash,hupdates⟩

end BT816Display.FileUpload
