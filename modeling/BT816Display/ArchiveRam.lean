import BT816Display.Lib.RingWindow
import BT816Display.ArchiveSlots

/-!
# The RAM ring as a window on the history

The slots of arch_buf, read backwards from the slot written last, show the
history of added records. Adding a record pushes it on the history, whatever
the flash does; counting and reading are then determined by the window.
-/

namespace BT816Display.ArchiveRam

open ByteMemory NorFlash BigEndian Crc RingWindow MessageArchive ArchiveSlots

/-- Slot `i` of the RAM buffer. -/
def ramSlot (s : Archive) (i : ℕ) : List UInt8 := load s.archBuf (16*i) 16

/-- The slot written last; before the first record the last slot of the ring,
so that the first record goes to slot 0. -/
def lastSlot (s : Archive) : ℕ := s.lastRecPtr.elim 255 (·/16)

/-- Number of slots in view. Before the first record slot 0, which it will
fill, is not. -/
def inView (s : Archive) : ℕ := s.lastRecPtr.elim 255 fun _ => 256

/-- The pointer to the slot written last is null or that of a slot. -/
def Aligned (s : Archive) : Prop := ∀ p,s.lastRecPtr=some p → p%16=0 ∧ p<4096

/-- A slot shows a record, or one of the contents that stand for none. -/
def Shows (Empty : List UInt8 → Prop) : Option StoredRecord → List UInt8 → Prop
  | some r,slot => slot=encode r
  | none,slot => Empty slot

/-- The empty contents are neither counted nor read as records. -/
def Unread (stack : Mem UInt8) (Empty : List UInt8 → Prop) : Prop :=
  ∀ slot,Empty slot → checkSlot stack slot=false ∧ readSlot stack slot=none

/-- The RAM ring is a window on the history `h`, newest record first. -/
structure RamWindow (Empty : List UInt8 → Prop) (s : Archive) (h : List StoredRecord) : Prop where
  /-- The last slot pointer is well formed. -/
  aligned : Aligned s
  /-- Without a last slot there is no record yet. -/
  fresh : s.lastRecPtr=none → h=[]
  /-- The slots in view show the history. -/
  window : Window (Shows Empty) 256 (inView s) (ramSlot s) (lastSlot s) h

/-- The last slot is one of the ring. -/
theorem lastSlot_lt {s : Archive} (ha : Aligned s) : lastSlot s<256 := by
  unfold lastSlot
  cases hp : s.lastRecPtr with
  | none => simp only [Option.elim_none]; omega
  | some p =>
    have h := ha p hp
    simp only [Option.elim_some]
    omega

/-- Behind a record all slots are in view. -/
theorem inView_of_some {s : Archive} {p : ℕ} (hp : s.lastRecPtr=some p) : inView s=256 := by
  rw [inView,hp,Option.elim_some]

/-- All slots but the first one are in view before it. -/
theorem inView_bounds (s : Archive) : 255 ≤ inView s ∧ inView s≤256 := by
  unfold inView
  cases s.lastRecPtr <;> simp

/-- The pointer is that of the last slot. -/
theorem lastRecPtr_eq {s : Archive} {p : ℕ} (ha : Aligned s) (hp : s.lastRecPtr=some p) :
    p=16*lastSlot s := by
  have h := ha p hp
  simp only [lastSlot,hp,Option.elim_some]
  omega

/-- Starting a page touches neither the RAM buffer nor the last slot. -/
@[simp] theorem createNewPagePtr_archBuf (env : Env) (pageNum : ℕ) (s : Archive) :
    (createNewPagePtr env pageNum s).archBuf=s.archBuf := rfl

/-- The pointer of a page changes no slot of the ring. -/
@[simp] theorem createNewPagePtr_lastRecPtr (env : Env) (pageNum : ℕ) (s : Archive) :
    (createNewPagePtr env pageNum s).lastRecPtr=s.lastRecPtr := rfl

/-- The slot filled next is the one after the slot written last. -/
theorem nextSlot_fst (env : Env) {s : Archive} (ha : Aligned s) :
    (nextSlot env s).1=16*next 256 (lastSlot s) := by
  unfold nextSlot lastSlot
  cases hp : s.lastRecPtr with
  | none => rfl
  | some p =>
    have h := ha p hp
    dsimp only [archiveRecordLength,archivePageSize,Option.elim_some]
    by_cases hw : p+16≥4096-1
    · have hn : next 256 (p/16)=0 := if_neg (by omega)
      rw [if_pos hw,hn]
    · have hn : next 256 (p/16)=p/16+1 := if_pos (by omega)
      rw [if_neg hw,hn]
      dsimp only
      omega

/-- Nor does the start of a page. -/
theorem nextSlot_archBuf (env : Env) (s : Archive) : (nextSlot env s).2.archBuf=s.archBuf := by
  unfold nextSlot
  split
  · rfl
  · dsimp only
    split <;> rfl

/-- The checksum is patched into the record. -/
theorem patch_sysData {r : StoredRecord} :
    patch (sysData r++[0,0]++(r.data++List.replicate (6-r.data.length) 0)) 8
      [(crcBytes (sysData r++[0,0]++r.data)).1,(crcBytes (sysData r++[0,0]++r.data)).2]=encode r := by
  simp only [patch,encode,sysData,split32,split16,List.cons_append,List.nil_append,
    List.take_succ_cons,List.take_zero,List.length_cons,List.length_nil,List.drop_succ_cons,
    List.drop_zero,Nat.reduceAdd]

/-- The payload loop copies the truncated payload and zeroes the tail. -/
theorem body_eq (record : MessageRecord) :
    ((List.range 6).map fun i => if i<(stored record).data.length then record.ptr i else 0)=
      (stored record).data++List.replicate (6-(stored record).data.length) 0 := by
  have hs := (stored record).short
  have hl : (stored record).data.length=min record.length.toNat 6 := load_length _ _ _
  apply List.ext_getElem
  · simp only [List.length_map,List.length_range,List.length_append,List.length_replicate]
    omega
  · intro i hi hi'
    rw [List.getElem_map,List.getElem_range]
    split
    · rename_i hd
      rw [List.getElem_append_left hd]
      simp only [stored,getElem_load,Nat.zero_add]
    · rename_i hd
      rw [List.getElem_append_right (by omega),List.getElem_replicate]

/-- The RAM buffer after adding a record: the next slot holds its encoding. -/
theorem addRecordToArchive_archBuf (env : Env) (record : MessageRecord) (s : Archive) :
    (addRecordToArchive env record s).archBuf=
      store s.archBuf (nextSlot env s).1 (encode (stored record)) := by
  have hs := (stored record).short
  have hlen : (if record.length>6 then 6 else record.length).toNat=(stored record).data.length := by
    have hd : (stored record).data.length=min record.length.toNat 6 := load_length _ _ _
    rw [hd]
    split
    · rename_i h
      have hn : 6 < record.length.toNat := h
      rw [Nat.min_eq_right (by omega)]
      rfl
    · rename_i h
      have hn : ¬6 < record.length.toNat := h
      rw [Nat.min_eq_left (by omega)]
  have hbyte : (if record.length>6 then 6 else record.length)=
      UInt8.ofNat (stored record).data.length := by
    apply UInt8.toNat_inj.mp
    rw [lengthByte_toNat,hlen]
  have hsys : split32 record.time++split16 record.messageId++
      [record.messageType,UInt8.ofNat (stored record).data.length,0,0]=
        sysData (stored record)++[0,0] := by
    simp only [sysData,stored,List.append_assoc,List.cons_append,List.nil_append]
  have hfull : (sysData (stored record)++[0,0]++((stored record).data++
      List.replicate (6-(stored record).data.length) 0)).length=16 := by
    simp only [sysData,split32,split16,List.length_append,List.length_cons,List.length_nil,
      List.length_replicate]
    omega
  have htake : (sysData (stored record)++[0,0]++((stored record).data++
      List.replicate (6-(stored record).data.length) 0)).take (10+(stored record).data.length)=
        sysData (stored record)++[0,0]++(stored record).data := by
    rw [←List.append_assoc,List.take_left']
    simp only [sysData,split32,split16,List.length_append,List.length_cons,List.length_nil]
  unfold addRecordToArchive
  dsimp only [archiveRecordLength,archiveRecordSysDataLength,Nat.reduceSub]
  rw [hlen,hbyte,hsys,body_eq,nextSlot_archBuf]
  have hload := load_store_part (m:=s.archBuf) (a:=(nextSlot env s).1) (k:=0)
    (n:=10+(stored record).data.length) (b:=sysData (stored record)++[0,0]++((stored record).data++
      List.replicate (6-(stored record).data.length) 0)) (by rw [hfull]; omega)
  rw [Nat.add_zero,List.drop_zero,htake] at hload
  rw [hload,getCRC16_hi,and_255_toUInt8,getCRC16_lo,store_store_part
    (by simp only [hfull,List.length_cons,List.length_nil]; omega),patch_sysData]

/-- The new last slot is the one that was next. -/
theorem addRecordToArchive_lastRecPtr (env : Env) (record : MessageRecord) (s : Archive) :
    (addRecordToArchive env record s).lastRecPtr=some (nextSlot env s).1 := rfl

/-- An add moves on by one slot. -/
theorem lastSlot_addRecordToArchive {env : Env} {record : MessageRecord} {s : Archive}
    (ha : Aligned s) :
    lastSlot (addRecordToArchive env record s)=next 256 (lastSlot s) := by
  rw [lastSlot,addRecordToArchive_lastRecPtr,nextSlot_fst env ha,Option.elim_some]
  exact Nat.mul_div_cancel_left _ (by omega)

/-- The last slot pointer stays well formed. -/
theorem aligned_addRecordToArchive (env : Env) (record : MessageRecord) {s : Archive}
    (ha : Aligned s) : Aligned (addRecordToArchive env record s) := by
  intro p hp
  rw [addRecordToArchive_lastRecPtr,nextSlot_fst env ha,Option.some.injEq] at hp
  have hn := next_lt (lastSlot_lt ha)
  omega

/-- The slots after adding a record: the next one holds it, the others stay. -/
theorem ramSlot_addRecordToArchive (env : Env) (record : MessageRecord) {s : Archive}
    (ha : Aligned s) (i : ℕ) :
    ramSlot (addRecordToArchive env record s) i=
      if i=next 256 (lastSlot s) then encode (stored record) else ramSlot s i := by
  unfold ramSlot
  rw [addRecordToArchive_archBuf,nextSlot_fst env ha]
  split
  · rename_i hi
    have h := load_store_self s.archBuf (16*next 256 (lastSlot s)) (encode (stored record))
    rw [encode_length] at h
    rw [hi]
    exact h
  · rename_i hi
    exact load_store_disjoint (by rw [encode_length]; omega)

/-- Adding a record pushes it on the history that the ring shows. -/
theorem RamWindow.add {Empty : List UInt8 → Prop} {s : Archive} {h : List StoredRecord}
    (hw : RamWindow Empty s h) (env : Env) (record : MessageRecord) :
    RamWindow Empty (addRecordToArchive env record s) (stored record::h) where
  aligned := aligned_addRecordToArchive env record hw.aligned
  fresh := fun hn => by cases hn
  window := by
    rw [lastSlot_addRecordToArchive hw.aligned]
    have hv := inView_bounds s
    rw [inView_of_some (addRecordToArchive_lastRecPtr env record s)]
    apply hw.window.push (lastSlot_lt hw.aligned) (by omega) le_rfl
    · rw [ramSlot_addRecordToArchive env record hw.aligned,if_pos rfl]
      rfl
    · intro i _ hi
      rw [ramSlot_addRecordToArchive env record hw.aligned,if_neg hi]

/-- A run of adds pushes the records one by one. -/
theorem RamWindow.addAll {Empty : List UInt8 → Prop} (adds : List (Env×MessageRecord)) :
    ∀ {s : Archive} {h : List StoredRecord},RamWindow Empty s h →
      RamWindow Empty (adds.foldl (fun s a => addRecordToArchive a.1 a.2 s) s)
        ((adds.map fun a => stored a.2).reverse++h) := by
  induction adds with
  | nil => exact fun hw => hw
  | cons a adds ih =>
    intro s h hw
    have ht := ih (hw.add a.1 a.2)
    simpa only [List.foldl_cons,List.map_cons,List.reverse_cons,List.append_assoc,
      List.cons_append,List.nil_append] using ht

/-- The slot before a slot of the ring. -/
theorem prevSlot_eq {j : ℕ} (hj : j<256) : prevSlot (16*j)=16*behind 256 j 1 := by
  unfold prevSlot behind
  dsimp only [archiveRecordLength,archivePageSize]
  split <;> split <;> omega

/-- Stepping back goes round the ring. -/
theorem stepBack_eq {j : ℕ} (hj : j<256) (k : ℕ) :
    stepBack k (16*j)=16*behind 256 j (k%256) := by
  induction k generalizing j with
  | zero => rw [stepBack,Nat.zero_mod,behind_zero]
  | succ k ih =>
    have hm := Nat.mod_lt k (by omega : 256>0)
    rw [stepBack,prevSlot_eq hj,ih (behind_lt hj (by omega))]
    by_cases hk : k%256+1<256
    · rw [behind_one_behind hj hk,show (k+1)%256=k%256+1 by omega]
    · rw [behind_one_round hj (by omega),show (k+1)%256=0 by omega,behind_zero]

/-- The counting loop is the walk back over the valid slots. -/
theorem recordsLoop_eq {stack archBuf : Mem UInt8} :
    ∀ fuel res j,res+fuel=256 → j<256 →
      recordsLoop stack archBuf fuel res (16*j)=
        res+walk 256 (fun i => checkRecord stack archBuf (16*i)) fuel j := by
  intro fuel
  induction fuel with
  | zero =>
    intro res j _ _
    rw [recordsLoop,walk,Nat.add_zero]
  | succ fuel ih =>
    intro res j hf hj
    rw [recordsLoop,walk]
    dsimp only [maxArchiveRecordsCnt,archivePageSize,archiveRecordLength,Nat.reduceDiv]
    by_cases hc : checkRecord stack archBuf (16*j)=true
    · rw [if_pos hc,if_pos hc]
      by_cases hr : res+1≥256
      · have hz : fuel=0 := by omega
        subst hz
        rw [if_pos hr,walk]
      · rw [if_neg hr,prevSlot_eq hj,ih (res+1) _ (by omega) (behind_lt hj (by omega))]
        omega
    · rw [if_neg hc,if_neg hc,Nat.add_zero]

/-- A slot in view is valid exactly when it shows a record. -/
theorem checkRecord_of_window {Empty : List UInt8 → Prop} {s : Archive} {h : List StoredRecord}
    {stack : Mem UInt8} (hw : RamWindow Empty s h) (hE : Unread stack Empty) {k : ℕ}
    (hk : k < inView s) :
    checkRecord stack s.archBuf (16*behind 256 (lastSlot s) k)=true ↔ k<h.length := by
  have hs := hw.window k hk
  change checkSlot stack (ramSlot s (behind 256 (lastSlot s) k))=true ↔ k<h.length
  by_cases hl : k<h.length
  · rw [List.getElem?_eq_getElem hl] at hs
    rw [show ramSlot s (behind 256 (lastSlot s) k)=encode h[k] from hs,checkSlot_encode]
    exact ⟨fun _ => hl,fun _ => rfl⟩
  · rw [List.getElem?_eq_none (by omega)] at hs
    rw [(hE _ hs).1]
    exact ⟨fun hf => absurd hf Bool.false_ne_true,fun hlt => absurd hlt hl⟩

/-- The count is the length of the history, 256 at most. -/
theorem getArchiveRecordsCnt_of_window {Empty : List UInt8 → Prop} {s : Archive}
    {h : List StoredRecord} {stack : Mem UInt8} (hw : RamWindow Empty s h)
    (hE : Unread stack Empty) : getArchiveRecordsCnt stack s=min h.length 256 := by
  unfold getArchiveRecordsCnt
  cases hp : s.lastRecPtr with
  | none => rw [hw.fresh hp]; rfl
  | some p =>
    have hj := lastSlot_lt hw.aligned
    dsimp only [maxArchiveRecordsCnt,archivePageSize,archiveRecordLength,Nat.reduceDiv]
    rw [lastRecPtr_eq hw.aligned hp,recordsLoop_eq 256 0 _ (Nat.zero_add 256) hj,
      walk_eq hj (fun k hk => checkRecord_of_window hw hE (by rwa [inView_of_some hp])),Nat.zero_add,Nat.min_comm]

/-- Reading reads the slot at the offset, which is taken round the ring. -/
theorem getRecordWithOffsetFromLast_slot {s : Archive} {p : ℕ} (ha : Aligned s)
    (hp : s.lastRecPtr=some p) (stack : Mem UInt8) (k : ℕ) :
    getRecordWithOffsetFromLast stack k s=
      readSlot stack (ramSlot s (behind 256 (lastSlot s) (k%256))) := by
  unfold getRecordWithOffsetFromLast
  rw [hp]
  dsimp only [archiveRecordLength]
  rw [lastRecPtr_eq ha hp,stepBack_eq (lastSlot_lt ha) k]
  rfl

/-- Reading gives the entry of the history at the offset. -/
theorem getRecordWithOffsetFromLast_of_window {Empty : List UInt8 → Prop} {s : Archive}
    {h : List StoredRecord} {stack : Mem UInt8} (hw : RamWindow Empty s h)
    (hE : Unread stack Empty) (k : ℕ) :
    getRecordWithOffsetFromLast stack k s=h[k%256]?.map view := by
  cases hp : s.lastRecPtr with
  | none =>
    unfold getRecordWithOffsetFromLast
    rw [hp,hw.fresh hp]
    rfl
  | some p =>
    have hs := hw.window (k%256) (by rw [inView_of_some hp]; exact Nat.mod_lt k (by omega))
    rw [getRecordWithOffsetFromLast_slot hw.aligned hp]
    cases hr : h[k%256]? with
    | none =>
      rw [hr] at hs
      exact (hE _ hs).2
    | some r =>
      rw [hr] at hs
      rw [show ramSlot s (behind 256 (lastSlot s) (k%256))=encode r from hs,readSlot_encode]
      rfl

/-- Clearing pages touches no slot of the ring. -/
theorem clearArchivePage_fold (s : Archive) (l : List ℕ) :
    (l.foldl (fun s i => clearArchivePage i s) s).archBuf=s.archBuf ∧
      (l.foldl (fun s i => clearArchivePage i s) s).lastRecPtr=s.lastRecPtr := by
  induction l generalizing s with
  | nil => exact ⟨rfl,rfl⟩
  | cons i l ih => exact ih (clearArchivePage i s)

/-- Clearing zeroes every slot of the buffer. -/
theorem ramSlot_clearArchive (env : Env) (s : Archive) {i : ℕ} (hi : i<256) :
    ramSlot (clearArchive env s) i=zeroSlot := by
  have hl : load (clearArchive env s).archBuf (16*i) (zeroSlot).length=zeroSlot := by
    apply load_eq_iff.mpr
    intro k hk
    rw [List.length_replicate] at hk
    unfold clearArchive
    dsimp only
    rw [(clearArchivePage_fold _ _).1,List.getElem_replicate]
    exact if_pos (by dsimp only [archivePageSize]; omega)
  rwa [List.length_replicate] at hl

/-- Behind clear_archive there is no last slot. -/
theorem clearArchive_lastRecPtr (env : Env) (s : Archive) :
    (clearArchive env s).lastRecPtr=none := (clearArchivePage_fold _ _).2

/-- After clear_archive the ring shows the empty history. -/
theorem RamWindow.of_clear {E : List UInt8 → Prop} (hz : E zeroSlot) (env : Env)
    (s : Archive) : RamWindow E (clearArchive env s) [] where
  aligned := fun p hp => by
    rw [clearArchive_lastRecPtr] at hp
    cases hp
  fresh := fun _ => rfl
  window := by
    apply Window.of_empty
    intro k hk
    have hv := inView_bounds (clearArchive env s)
    have hl : lastSlot (clearArchive env s)<256 := by
      rw [lastSlot,clearArchive_lastRecPtr,Option.elim_none]
      omega
    rw [ramSlot_clearArchive env s (behind_lt hl (by omega))]
    exact hz

/-- For every run of adds after clear_archive, the archive shows the records
added, newest first, up to the 256 newest, each with its payload cut to six
bytes. -/
theorem adds_after_clear_refine_history (env₀ : Env) (s₀ : Archive)
    (adds : List (Env×MessageRecord)) (stack : Mem UInt8) :
    let s := adds.foldl (fun s a => addRecordToArchive a.1 a.2 s) (clearArchive env₀ s₀)
    getArchiveRecordsCnt stack s=min adds.length 256 ∧
      ∀ k,k < min adds.length 256 → ∃ a,adds.reverse[k]?=some a ∧
        getRecordWithOffsetFromLast stack k s=some
          { time := a.2.time
            messageId := a.2.messageId
            messageType := a.2.messageType
            length := UInt8.ofNat (min a.2.length.toNat 6)
            data := load a.2.ptr 0 (min a.2.length.toNat 6) } := by
  have hE : Unread stack (·=zeroSlot) := by
    rintro slot rfl
    exact ⟨checkSlot_zero stack,readSlot_zero stack⟩
  have hw := RamWindow.addAll adds (RamWindow.of_clear (E:=(·=zeroSlot)) rfl env₀ s₀)
  rw [List.append_nil,←List.map_reverse] at hw
  intro s
  refine ⟨?_,?_⟩
  · rw [getArchiveRecordsCnt_of_window hw hE,List.length_map,List.length_reverse]
  · intro k hk
    have hr : k<adds.reverse.length := by rw [List.length_reverse]; omega
    refine ⟨adds.reverse[k],List.getElem?_eq_getElem hr,?_⟩
    rw [getRecordWithOffsetFromLast_of_window hw hE k,Nat.mod_eq_of_lt (by omega),List.getElem?_map,
      List.getElem?_eq_getElem hr]
    simp only [Option.map_some,view,stored,load_length]

end BT816Display.ArchiveRam
