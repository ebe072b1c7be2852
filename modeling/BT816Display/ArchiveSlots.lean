import BT816Display.MessageArchive

/-!
# What a record slot holds

A stored record carries at most six payload bytes. Its encoding is the slot
that add_record_to_archive leaves in RAM; check_record accepts it, reading it
gives the record back, and neither a zeroed nor an erased slot is a record.
-/

namespace BT816Display.ArchiveSlots

open ByteMemory NorFlash BigEndian Crc MessageArchive

/-- A record after truncation: its payload fits into the slot. -/
@[ext]
structure StoredRecord where
  /-- Time stamp. -/
  time : UInt32
  /-- Kind of the message. -/
  messageId : UInt16
  /-- Information, warning or alarm. -/
  messageType : UInt8
  /-- The payload that is kept. -/
  data : List UInt8
  /-- The payload fits into the slot. -/
  short : data.length≤6
  deriving DecidableEq

/-- The record that is kept of a record passed to add_record_to_archive. -/
def stored (record : MessageRecord) : StoredRecord where
  time := record.time
  messageId := record.messageId
  messageType := record.messageType
  data := load record.ptr 0 (min record.length.toNat 6)
  short := by rw [load_length]; exact Nat.min_le_right _ _

/-- What reading a stored record fills in. -/
def view (r : StoredRecord) : ReadRecord :=
  ⟨r.time,r.messageId,r.messageType,UInt8.ofNat r.data.length,r.data⟩

/-- Different stored records are read as different ones. -/
theorem view_injective {r r' : StoredRecord} (h : view r=view r') : r=r' := by
  simp only [view,ReadRecord.mk.injEq] at h
  obtain ⟨ht,hi,hm,_,hd⟩ := h
  exact StoredRecord.ext ht hi hm hd

/-- The bytes of a record before its checksum. -/
def sysData (r : StoredRecord) : List UInt8 :=
  split32 r.time++split16 r.messageId++[r.messageType,UInt8.ofNat r.data.length]

/-- The sixteen bytes of the slot of a record. -/
def encode (r : StoredRecord) : List UInt8 :=
  let crc := crcBytes (sysData r++[0,0]++r.data)
  sysData r++[crc.1,crc.2]++(r.data++List.replicate (6-r.data.length) 0)

/-- A slot that clear_archive has zeroed. -/
abbrev zeroSlot : List UInt8 := List.replicate 16 0

/-- An erased slot. -/
abbrev blankSlot : List UInt8 := blank 16

@[simp] theorem encode_length (r : StoredRecord) : (encode r).length=16 := by
  have h := r.short
  simp only [encode,sysData,split32,split16,List.length_append,List.length_cons,List.length_nil,
    List.length_replicate]
  omega

/-- The length byte of an encoded record counts its payload. -/
theorem encode_lengthByte (r : StoredRecord) : (encode r).getD 7 0=UInt8.ofNat r.data.length := by
  simp only [encode,sysData,split32,split16,List.cons_append,List.nil_append,List.getD_cons_succ,
    List.getD_cons_zero]

theorem lengthByte_toNat (r : StoredRecord) : (UInt8.ofNat r.data.length).toNat=r.data.length := by
  have h := r.short
  rw [UInt8.toNat_ofNat']
  exact Nat.mod_eq_of_lt (by omega)

/-- The checksum of a stored record is consistent with its slot. -/
theorem checkSlot_encode (stack : Mem UInt8) (r : StoredRecord) :
    checkSlot stack (encode r)=true := by
  have hl := r.short
  have ht : ((patch (encode r) 8 [0,0]++load stack 0 249).take (10+r.data.length))=
      sysData r++[0,0]++r.data := by
    simp only [encode,sysData,split32,split16,patch,List.cons_append,List.nil_append,
      List.take_succ_cons,List.take_zero,List.length_cons,List.length_nil,List.drop_succ_cons,
      List.drop_zero,Nat.reduceAdd,Nat.add_comm 10]
    rw [List.append_assoc,List.take_left']
    rfl
  unfold checkSlot
  dsimp only
  rw [encode_lengthByte,lengthByte_toNat,ht,crcMatches_iff]
  simp only [encode,sysData,split32,split16,List.cons_append,List.nil_append,
    List.getD_cons_succ,List.getD_cons_zero]

/-- Reading the slot of a record gives the record. -/
theorem readSlot_encode (stack : Mem UInt8) (r : StoredRecord) :
    readSlot stack (encode r)=some (view r) := by
  have hl := r.short
  have hd : (List.range r.data.length).map (fun i => (encode r).getD (10+i) 0)=r.data := by
    apply List.ext_getElem (by rw [List.length_map,List.length_range])
    intro i hi hi'
    rw [List.getElem_map,List.getElem_range]
    simp only [encode,sysData,split32,split16,List.cons_append,List.nil_append,
      Nat.add_comm 10,List.getD_cons_succ]
    rw [List.getD_eq_getElem?_getD,List.getElem?_append_left hi',List.getElem?_eq_getElem hi',
      Option.getD_some]
  have hn : ¬r.data.length>archiveRecordLength-archiveRecordSysDataLength := by
    dsimp only [archiveRecordLength,archiveRecordSysDataLength]
    omega
  simp only [readSlot,encode_lengthByte,lengthByte_toNat,hd,checkSlot_encode,hn,if_false,
    Bool.true_eq_false]
  simp only [encode,sysData,split32,split16,List.cons_append,List.nil_append,List.getD_cons_succ,
    List.getD_cons_zero,join32_split32,join16_split16,view]

/-- Two records with the same slot are the same record. -/
theorem encode_injective {r r' : StoredRecord} (h : encode r=encode r') : r=r' := by
  have hv := readSlot_encode (fun _ => 0) r
  rw [h,readSlot_encode] at hv
  exact view_injective (Option.some.inj hv).symm

/-- A zeroed slot is never valid. -/
theorem checkSlot_zero (stack : Mem UInt8) : checkSlot stack zeroSlot=false := by
  have hc : crcMatches (List.replicate 10 0) 0 0=false := by decide +kernel
  exact hc

theorem readSlot_zero (stack : Mem UInt8) : readSlot stack zeroSlot=none := by
  unfold readSlot
  dsimp only
  rw [checkSlot_zero]
  rfl

/-- An erased slot has a length byte that is never read as a record. -/
theorem readSlot_blank (stack : Mem UInt8) : readSlot stack blankSlot=none := by
  unfold readSlot
  rfl

/-- A record slot is not an erased slot. -/
theorem encode_ne_blank (r : StoredRecord) : encode r≠blankSlot := by
  intro h
  have hr := readSlot_encode (fun _ => 0) r
  rw [h,readSlot_blank] at hr
  cases hr

/-- A record slot is not a zeroed slot. -/
theorem encode_ne_zero (r : StoredRecord) : encode r≠zeroSlot := by
  intro h
  have hr := readSlot_encode (fun _ => 0) r
  rw [h,readSlot_zero] at hr
  cases hr

end BT816Display.ArchiveSlots
