import BT816Display.Config

/-!
# The table of items in the configuration header of config.c

check_config_header sums a prefix of the header block, as long as the header
declares. The two getters look for an identifier in the whole block.
-/

namespace BT816Display.ConfigHeader

open ByteMemory BigEndian Crc

/-- The first bytes of a header. -/
def magic (ptr : Mem UInt8) : Prop := ptr 0=0x0D ∧ ptr 1=0x0A ∧ ptr 2=0x0A ∧ ptr 3=0x0D

instance (ptr : Mem UInt8) : Decidable (magic ptr) := inferInstanceAs (Decidable (_ ∧ _))

/-- The declared length without its two CRC bytes: the bytes that are summed. -/
def coveredLength (ptr : Mem UInt8) : ℕ :=
  let length := (join16 (ptr 4) (ptr 5)).toNat
  let length := if length>4096 then 4096 else length
  let length := if length<2 then 2 else length
  length-2

/-- check_config_header: the result and the block with its length cleared. -/
def checkConfigHeader (ptr : Mem UInt8) : Bool×Mem UInt8 :=
  if magic ptr then
    let length := coveredLength ptr
    let ptr := store ptr 4 [0,0]
    let crc := (getCRC16 (load ptr 0 length)).toUInt16
    (ptr length=(crc&&&0xFF).toUInt8 ∧ ptr (length+1)=(crc>>>8).toUInt8,ptr)
  else (false,ptr)

/-- The word of four bytes of a block. -/
def word (header : Mem UInt8) (pos : ℕ) : UInt32 :=
  join32 (header pos) (header (pos+1)) (header (pos+2)) (header (pos+3))

/-- The search of both getters for the word at a place of the entry of an
identifier. The position goes from 6 to 4096 in steps of ten, so 410 rounds
are enough. -/
def search (field : ℕ) (id : UInt16) (header : Mem UInt8) : ℕ → (pos : ℕ) → UInt32
  | 0,_ => 0
  | fuel+1,pos =>
    if pos<4096 then
      if join16 (header pos) (header (pos+1))=id then word header (pos+field)
      else search field id header fuel (pos+10)
    else 0

/-- get_config_param_by_id. -/
def getConfigParamById (id : UInt16) (header : Mem UInt8) : UInt32 := search 2 id header 410 6

/-- get_config_offset_by_id. -/
def getConfigOffsetById (id : UInt16) (header : Mem UInt8) : UInt32 := search 6 id header 410 6

/-! ## Entries -/

/-- Entries that a block has room for. -/
abbrev entryCnt : ℕ := 409

/-- The first byte of an entry. -/
abbrev entryPos (k : ℕ) : ℕ := 6+10*k

/-- Entry `k` of a block has an identifier. -/
def EntryOf (id : UInt16) (header : Mem UInt8) (k : ℕ) : Prop :=
  join16 (header (entryPos k)) (header (entryPos k+1))=id

/-- Entry `k` is the first one with an identifier. -/
structure FirstEntry (id : UInt16) (header : Mem UInt8) (k : ℕ) : Prop where
  /-- It lies in the block. -/
  lt : k<entryCnt
  /-- It has the identifier. -/
  entry : EntryOf id header k
  /-- No entry before it has. -/
  before : ∀ j<k,¬EntryOf id header j

/-- Every entry ends inside the block. -/
theorem FirstEntry.unique {id : UInt16} {header : Mem UInt8} {k k' : ℕ}
    (h : FirstEntry id header k) (h' : FirstEntry id header k') : k=k' := by
  rcases Nat.lt_trichotomy k k' with hlt|heq|hgt
  · exact absurd h.entry (h'.before k hlt)
  · exact heq
  · exact absurd h'.entry (h.before k' hgt)

/-- The search finds the first entry from a position on, or none. -/
theorem search_spec (field : ℕ) (id : UInt16) (header : Mem UInt8) : ∀ fuel k,k+fuel=410 →
    (∀ j<k,¬EntryOf id header j) →
    (∃ i,FirstEntry id header i ∧
      search field id header fuel (entryPos k)=word header (entryPos i+field)) ∨
    (∀ i<entryCnt,¬EntryOf id header i) ∧ search field id header fuel (entryPos k)=0 := by
  intro fuel
  induction fuel with
  | zero =>
    intro k hk hbefore
    exact Or.inr ⟨fun i hi => hbefore i (by unfold entryCnt at hi; omega),rfl⟩
  | succ fuel ih =>
    intro k hk hbefore
    rw [search]
    by_cases hpos : entryPos k<4096
    · have hlt : k<entryCnt := by
        unfold entryCnt
        unfold entryPos at hpos
        omega
      rw [if_pos hpos]
      by_cases hid : join16 (header (entryPos k)) (header (entryPos k+1))=id
      · rw [if_pos hid]
        exact Or.inl ⟨k,⟨hlt,hid,hbefore⟩,rfl⟩
      · rw [if_neg hid]
        refine ih (k+1) (by omega) fun j hj => ?_
        rcases Nat.lt_succ_iff_lt_or_eq.mp hj with hjk|rfl
        · exact hbefore j hjk
        · exact hid
    · rw [if_neg hpos]
      refine Or.inr ⟨fun i hi => hbefore i ?_,rfl⟩
      unfold entryCnt at hi
      unfold entryPos at hpos
      omega

/-- What a getter returns for an identifier that has an entry. -/
theorem search_of_first {id : UInt16} {header : Mem UInt8} {k : ℕ} (h : FirstEntry id header k)
    (field : ℕ) : search field id header 410 6=word header (entryPos k+field) := by
  rcases search_spec field id header 410 0 rfl nofun with ⟨i,hi,hs⟩|⟨hnone,_⟩
  · rw [h.unique hi]
    exact hs
  · exact absurd h.entry (hnone k h.lt)

/-- What a getter returns for an identifier without an entry. -/
theorem search_of_none {id : UInt16} {header : Mem UInt8}
    (h : ¬∃ k,FirstEntry id header k) (field : ℕ) : search field id header 410 6=0 := by
  rcases search_spec field id header 410 0 rfl nofun with ⟨i,hi,_⟩|⟨_,hs⟩
  · exact absurd ⟨i,hi⟩ h
  · exact hs

/-! ## Protected entries -/

/-- Entry `k` lies wholly inside the summed prefix of a block. -/
def Covered (block : Mem UInt8) (k : ℕ) : Prop := entryPos k+10 ≤ coveredLength block

instance (block : Mem UInt8) (k : ℕ) : Decidable (Covered block k) :=
  inferInstanceAs (Decidable (_≤_))

/-- A value is 0 or the word of a protected entry of the identifier. -/
def Protected (block : Mem UInt8) (id : UInt16) (field : ℕ) (value : UInt32) : Prop :=
  value=0 ∨ ∃ k,Covered block k ∧ EntryOf id block k ∧ value=word block (entryPos k+field)

/-- When the block is accepted, both getters return 0 or protected words. -/
def OnlyProtected (block : Mem UInt8) (id : UInt16) : Prop :=
  (checkConfigHeader block).1=true →
    Protected block id 2 (getConfigParamById id (checkConfigHeader block).2) ∧
    Protected block id 6 (getConfigOffsetById id (checkConfigHeader block).2)

/-- The first entry of the identifier in the whole block, if there is one, is
protected or holds zeros. -/
def FirstCovered (block : Mem UInt8) (id : UInt16) : Prop :=
  ∀ k,FirstEntry id block k →
    Covered block k ∨ word block (entryPos k+2)=0 ∧ word block (entryPos k+6)=0

/-- The check changes nothing in the table. -/
theorem checkConfigHeader_snd (block : Mem UInt8) {x : ℕ} (h : 6≤x) :
    (checkConfigHeader block).2 x=block x := by
  unfold checkConfigHeader
  split
  · exact store_apply_of_not (Or.inr h)
  · rfl

theorem entryOf_checked (block : Mem UInt8) (id : UInt16) (k : ℕ) :
    EntryOf id (checkConfigHeader block).2 k ↔ EntryOf id block k := by
  unfold EntryOf entryPos
  rw [checkConfigHeader_snd block (by omega),checkConfigHeader_snd block (by omega)]

theorem word_checked (block : Mem UInt8) {pos : ℕ} (h : 6≤pos) :
    word (checkConfigHeader block).2 pos=word block pos := by
  unfold word
  rw [checkConfigHeader_snd block h,checkConfigHeader_snd block (by omega),
    checkConfigHeader_snd block (by omega),checkConfigHeader_snd block (by omega)]

theorem firstEntry_checked (block : Mem UInt8) (id : UInt16) (k : ℕ) :
    FirstEntry id (checkConfigHeader block).2 k ↔ FirstEntry id block k := by
  constructor
  · intro h
    exact ⟨h.lt,(entryOf_checked block id k).mp h.entry,
      fun j hj => mt (entryOf_checked block id j).mpr (h.before j hj)⟩
  · intro h
    exact ⟨h.lt,(entryOf_checked block id k).mpr h.entry,
      fun j hj => mt (entryOf_checked block id j).mp (h.before j hj)⟩

/-- Both getters on an accepted block give the words of its first entry. -/
theorem search_checked {block : Mem UInt8} {id : UInt16} {k : ℕ} (h : FirstEntry id block k)
    (field : ℕ) : search field id (checkConfigHeader block).2 410 6=
      word block (entryPos k+field) := by
  rw [search_of_first ((firstEntry_checked block id k).mpr h),
    word_checked block (by unfold entryPos; omega)]

/-- A word of the first entry is protected exactly when the entry is, or the
word is 0. -/
theorem protected_iff {block : Mem UInt8} {id : UInt16} {k : ℕ} (h : FirstEntry id block k)
    (field : ℕ) : Protected block id field (word block (entryPos k+field)) ↔
      Covered block k ∨ word block (entryPos k+field)=0 := by
  constructor
  · rintro (hzero|⟨j,hcovered,hentry,-⟩)
    · exact Or.inr hzero
    · left
      -- no entry with the identifier starts before the first one
      have hkj : k≤j := by
        by_contra hlt
        exact h.before j (Nat.lt_of_not_le hlt) hentry
      unfold Covered entryPos at *
      omega
  · rintro (hcovered|hzero)
    · exact Or.inr ⟨k,hcovered,h.entry,rfl⟩
    · exact Or.inl hzero

/-- For every block and every identifier: an accepted header gives protected
words only, exactly when the first entry of the identifier in the whole block
is protected or holds zeros. -/
theorem onlyProtected_iff (block : Mem UInt8) (id : UInt16) :
    OnlyProtected block id ↔ ((checkConfigHeader block).1=true → FirstCovered block id) := by
  unfold OnlyProtected getConfigParamById getConfigOffsetById
  refine imp_congr_right fun _ => ?_
  by_cases hfirst : ∃ k,FirstEntry id block k
  · obtain ⟨k,hk⟩ := hfirst
    rw [search_checked hk,search_checked hk,protected_iff hk,protected_iff hk,←or_and_left]
    constructor
    · intro h k' hk'
      rw [hk'.unique hk]
      exact h
    · exact fun h => h k hk
  · have hnone : ¬∃ k,FirstEntry id (checkConfigHeader block).2 k :=
      fun ⟨k,hk⟩ => hfirst ⟨k,(firstEntry_checked block id k).mp hk⟩
    rw [search_of_none hnone,search_of_none hnone]
    exact iff_of_true ⟨Or.inl rfl,Or.inl rfl⟩ fun k hk => absurd ⟨k,hk⟩ hfirst

/-- A header that declares eight bytes, its checksum, and an entry of item 10
behind them with 16 as its offset. -/
def strayBlock : Mem UInt8 := fun i =>
  let crc := (getCRC16 [0x0D,0x0A,0x0A,0x0D,0,0]).toUInt16
  [0x0D,0x0A,0x0A,0x0D,0,8,(crc&&&0xFF).toUInt8,(crc>>>8).toUInt8,
    0,0,0,0,0,0,0,0,0,10,0,0,0,0,0,0,0,16].getD i 0

/-- The block is accepted and an offset comes from unprotected bytes. -/
theorem strayBlock_used : (checkConfigHeader strayBlock).1=true ∧
    getConfigOffsetById 10 (checkConfigHeader strayBlock).2=16 ∧ coveredLength strayBlock=6 ∧
    ¬OnlyProtected strayBlock 10 := by
  have haccepted : (checkConfigHeader strayBlock).1=true := by decide +kernel
  have hoffset : getConfigOffsetById 10 (checkConfigHeader strayBlock).2=16 := by decide +kernel
  have hcovered : coveredLength strayBlock=6 := by decide
  refine ⟨haccepted,hoffset,hcovered,fun h => ?_⟩
  have hprotected := (h haccepted).2
  rw [hoffset] at hprotected
  rcases hprotected with hzero|⟨k,hk,-⟩
  · exact absurd hzero (by decide)
  · unfold Covered entryPos at hk
    omega

end BT816Display.ConfigHeader
