import BT816Display.Lib.BlockAccess
import BT816Display.Lib.LoopAccess
import BT816Display.MessageScanner
import BT816Display.PanelRun
import BT816Display.TimeStamp

/-!
# The texts of the records of message_archive.c

get_archive_message and get_archive_message_time write into a buffer of the
caller whose length they are told. The name of a bit goes through an array of
41 bytes on the stack of get_cluster_bit_name or get_net_bit_name. Here the
routines run on these two arrays access by access.
-/

namespace BT816Display.ArchiveText

open ArrayAccess BigEndian ByteMemory
open MessageArchive (MessageRecord)
open MessageConf (flashread)
open MessageScanner (msgArchBit)
open PanelRun (msgArchCheckCan)
open TimeStamp (decode timeText)

/-- MSG_ARCH_CHECK_FLASH. -/
abbrev msgArchCheckFlash : UInt16 := 1

/-- test_flash_ok, with its zero. -/
def testFlashOk : List UInt8 :=
  [0xd0,0xa2,0xd0,0xb5,0xd1,0x81,0xd1,0x82,0x20,0x46,0x6c,0x61,0x73,0x68,0x20,0x2d,0x20,0xd1,0x83,
    0xd1,0x81,0xd0,0xbf,0xd0,0xb5,0xd1,0x88,0xd0,0xbd,0xd0,0xbe,0]

/-- test_flash_err, with its zero. -/
def testFlashErr : List UInt8 :=
  [0xd0,0xa2,0xd0,0xb5,0xd1,0x81,0xd1,0x82,0x20,0x46,0x6c,0x61,0x73,0x68,0x20,0xd0,0xbe,0xd1,0x88,
    0xd0,0xb8,0xd0,0xb1,0xd0,0xba,0xd0,0xb0,0]

/-- can_link_err, with its zero. -/
def canLinkErr : List UInt8 :=
  [0xd0,0x9f,0xd0,0x9b,0xd0,0x9a,0x20,0x43,0x41,0x4e,0x20,0xd0,0xbe,0xd1,0x88,0xd0,0xb8,0xd0,0xb1,
    0xd0,0xba,0xd0,0xb0,0]

/-- The arrays that the routines write. -/
inductive TextArray where
  /-- out_buf of the caller. -/
  | outBuf
  /-- user_name of the routine for a name. -/
  | userName
  deriving DecidableEq

/-- Both hold bytes. -/
@[reducible] def Val : TextArray → Type := fun _ => UInt8

/-- Their sizes: that of out_buf is max_length. -/
def size (maxLength : UInt16) : TextArray → ℕ
  | .outBuf => maxLength.toNat
  | .userName => 41

/-- The names of the bits on the flash. -/
structure BitNames where
  /-- The flash of the display. -/
  flash : Mem UInt8
  /-- clust_bit_names_addr. -/
  clustBitNamesAddr : UInt32
  /-- clust_bit_names_cnt. -/
  clustBitNamesCnt : UInt16
  /-- net_bit_names_addr. -/
  netBitNamesAddr : UInt32
  /-- net_bit_names_cnt. -/
  netBitNamesCnt : UInt16

/-! ## The names of the bits -/

section

variable (maxLength : UInt16) (m : Arrays Val)

/-- Accesses in order, with no result behind one outside its array. -/
abbrev access (accesses : List (Access Val)) : Option (Arrays Val) :=
  performAll (size maxLength) m accesses

/-- The user's name is read into user_name, and the system's name when the
user has given none. -/
def readName (mem : Mem UInt8) : Option (Arrays Val) := do
  let m ← access maxLength m (stores .userName 0 (List.replicate 41 0))
  let m ← access maxLength m (stores .userName 0 (load mem 64 40))
  let m ← access maxLength m (loads .userName 0 1)
  if m .userName 0=0 then access maxLength m (stores .userName 0 (load mem 0 40)) else return m

/-- strlen of user_name. There is no result when it has no zero. -/
def strlen : Option ℕ := (List.range 41).find? fun i => m .userName i=0

/-- A name that is too long is cut in user_name. -/
def cutName (length : ℕ) : Option (ℕ×Arrays Val) :=
  if length≥maxLength.toNat then do
    let m ← access maxLength m [.store .userName ((maxLength.toNat : ℤ)-1) 0]
    return (maxLength.toNat-1,m)
  else return (length,m)

/-- The copy of the name with its zero. -/
def copyName (length : ℕ) : Option (Arrays Val) :=
  access maxLength m
    (loads .userName 0 (length+1)++stores .outBuf 0 (load (m .userName) 0 (length+1)))

/-- The body that get_cluster_bit_name and get_net_bit_name share. -/
def getName (flash : Mem UInt8) (namesAddr : UInt32) (namesCnt num : UInt16) :
    Option (UInt8×Arrays Val) :=
  if namesAddr≠0 ∧ num<namesCnt then do
    let m ← readName maxLength m (flashread flash (namesAddr+128*num.toUInt32))
    let length ← strlen m
    let (length,m) ← cutName maxLength m length
    let m ← copyName maxLength m length
    return (UInt8.ofNat length,m)
  else return (0,m)

/-- get_cluster_bit_name. -/
def getClusterBitName (names : BitNames) : UInt16 → Option (UInt8×Arrays Val) :=
  getName maxLength m names.flash names.clustBitNamesAddr names.clustBitNamesCnt

/-- get_net_bit_name. -/
def getNetBitName (names : BitNames) : UInt16 → Option (UInt8×Arrays Val) :=
  getName maxLength m names.flash names.netBitNamesAddr names.netBitNamesCnt

/-! ## The two texts of a record -/

/-- out_buf is cleared. -/
def clearBuf : Option (Arrays Val) :=
  access maxLength m (stores .outBuf 0 (List.replicate maxLength.toNat 0))

/-- A fixed text, as far as there is room before the last byte. -/
def putFixed (text : List UInt8) : Option (UInt16×Arrays Val) := do
  let accesses := loop text.length fun i =>
    if maxLength≠0 ∧ i < maxLength.toNat-1 then [.store .outBuf i (text.getD i 0)] else []
  let m ← access maxLength m accesses
  return (UInt16.ofNat accesses.length,m)

/-- The switch over the kind of the record. -/
def recordText (names : BitNames) (rec : MessageRecord) : Option (UInt16×Arrays Val) :=
  if rec.messageId=msgArchCheckFlash then
    putFixed maxLength m (if rec.ptr 0≠0 then testFlashOk else testFlashErr)
  else if rec.messageId=msgArchCheckCan then
    if rec.ptr 0=0 then putFixed maxLength m canLinkErr else return (0,m)
  else if rec.messageId=msgArchBit then
    if rec.ptr 0=1 ∧ rec.ptr 4≠0 then
      let index := join16 (rec.ptr 2) (rec.ptr 3)
      if rec.ptr 1=0 then do
        let (res,m) ← getClusterBitName maxLength m names index
        return (res.toUInt16,m)
      else if rec.ptr 1=2 then do
        let (res,m) ← getNetBitName maxLength m names index
        return (res.toUInt16,m)
      else return (0,m)
    else return (0,m)
  else return (0,m)

/-- get_archive_message. -/
def getArchiveMessage (names : BitNames) (rec : MessageRecord) : Option (UInt16×Arrays Val) := do
  let m ← clearBuf maxLength m
  let (res,m) ← recordText maxLength m names rec
  if maxLength≠0 ∧ res≥maxLength then do
    let m ← access maxLength m [.store .outBuf ((maxLength.toNat : ℤ)-1) 0]
    return (res,m)
  else return (res,m)

end

/-- Characters up to the end of the buffer, and the terminating zero. -/
def putText (maxLength : UInt16) : List UInt8 → ℕ → Arrays Val → Option (ℕ×Arrays Val)
  | [],res,m => do
    let m ← access maxLength m [.store .outBuf res 0]
    return (res+1,m)
  | c::cs,res,m => do
    let m ← access maxLength m [.store .outBuf res c]
    if res+1≥maxLength.toNat then do
      let m ← access maxLength m [.store .outBuf ((maxLength.toNat : ℤ)-1) 0]
      return (maxLength.toNat-1,m)
    else putText maxLength cs (res+1) m

/-- get_archive_message_time. -/
def getArchiveMessageTime (maxLength : UInt16) (m : Arrays Val) (time : UInt32) :
    Option (ℕ×Arrays Val) := do
  let m ← clearBuf maxLength m
  putText maxLength (timeText (decode time).time) 0 m

/-! ## Names stay in their arrays -/

/-- The routine makes no access outside its arrays, and out_buf has a zero. -/
def EndsInside {α : Type} (maxLength : UInt16) (x : Option (α×Arrays Val)) : Prop :=
  ∃ res m',x=some (res,m') ∧ ∃ k < maxLength.toNat,m' .outBuf k=0

section

variable {maxLength : UInt16} {m : Arrays Val}

/-- A write of one byte inside its array. -/
theorem access_store {array : TextArray} {i : ℕ} (h : i<size maxLength array) (v : UInt8) :
    access maxLength m [.store array (i : ℤ) v]=some (m.set array i v) := by
  refine performAll_of_inBounds (List.forall_mem_singleton.mpr ?_)
  exact ⟨Int.natCast_nonneg i,Int.ofNat_lt.mpr h⟩

/-- A write at the last byte that max_length allows. -/
theorem access_last {array : TextArray} (hmax : 0 < maxLength.toNat)
    (h : maxLength.toNat-1<size maxLength array) (v : UInt8) :
    access maxLength m [.store array ((maxLength.toNat : ℤ)-1) v]=
      some (m.set array (maxLength.toNat-1) v) := by
  rw [←access_store h,Nat.cast_pred hmax]

/-- A block at the start of its array. -/
theorem access_stores {array : TextArray} {vs : List UInt8} (h : vs.length ≤ size maxLength array) :
    access maxLength m (stores array 0 vs)=
      some (Function.update m array (store (m array) 0 vs)) :=
  performAll_stores m array 0 vs (by rw [Nat.zero_add]; exact h)

/-- The byte of a name: the user's name, or the system's name without one. -/
def nameByte (mem : Mem UInt8) (i : ℕ) : UInt8 := if mem 64=0 then mem i else mem (64+i)

theorem load_nameByte (mem : Mem UInt8) :
    (if mem 64=0 then load mem 0 40 else load mem 64 40)=load (nameByte mem) 0 40 := by
  unfold nameByte
  by_cases hnone : mem 64=0
  · simp only [if_pos hnone]
  · simp only [if_neg hnone]
    exact load_eq_load_iff.mpr fun i _ => by rw [Nat.zero_add]

/-- user_name behind the reading of 40 bytes into it. -/
def filled (mem : Mem UInt8) (a : ℕ) (user : Mem UInt8) : Mem UInt8 := store user 0 (load mem a 40)

theorem filled_apply (mem : Mem UInt8) (a : ℕ) (user : Mem UInt8) {i : ℕ} (hi : i<40) :
    filled mem a user i=mem (a+i) := by
  unfold filled
  rw [store_apply_of_lt (Nat.zero_le i) (by rw [load_length]; omega),getElem_load]
  rfl

theorem filled_last (mem : Mem UInt8) (a : ℕ) (user : Mem UInt8) :
    filled mem a user 40=user 40 :=
  store_apply_of_not (Or.inr (by rw [load_length]))

/-- user_name holds the 40 bytes of a name and a zero. -/
theorem readName_spec (maxLength : UInt16) (m : Arrays Val) (mem : Mem UInt8) :
    ∃ m',readName maxLength m mem=some m' ∧ m' .outBuf=m .outBuf ∧ m' .userName 40=0 ∧
      ∀ i<40,m' .userName i=nameByte mem i := by
  have hsize : size maxLength .userName=41 := rfl
  have hload (a : ℕ) : (load mem a 40).length ≤ size maxLength .userName := by
    rw [load_length]
    omega
  have hread (a : ℕ) (m : Arrays Val) : access maxLength m (stores .userName 0 (load mem a 40))=
      some (Function.update m .userName (filled mem a (m .userName))) := access_stores (hload a)
  have hcleared : access maxLength m (stores .userName 0 (List.replicate 41 0))=
      some (Function.update m .userName (store (m .userName) 0 (List.replicate 41 0))) :=
    access_stores (le_refl _)
  have hfirst (m : Arrays Val) : access maxLength m (loads .userName 0 1)=some m :=
    performAll_loads m .userName 0 1 (by omega)
  have hzero : store (m .userName) 0 (List.replicate 41 0) 40=0 := by
    rw [store_apply_of_lt (by omega) (by decide)]
    rfl
  have hother (user : Mem UInt8) : (Function.update m .userName user : Arrays Val) .outBuf=
      m .outBuf := by
    rw [Function.update_of_ne TextArray.noConfusion]
  unfold readName
  rw [hcleared,Option.bind_eq_bind,Option.bind_some,hread,Option.bind_some,hfirst,
    Option.bind_some,Function.update_idem,Function.update_self,Function.update_self,
    filled_apply mem 64 _ (by omega)]
  by_cases hnone : mem (64+0)=0
  · rw [if_pos hnone,hread,Function.update_idem,Function.update_self]
    refine ⟨_,rfl,hother _,?_,fun i hi => ?_⟩
    · rw [Function.update_self,filled_last,filled_last,hzero]
    · rw [Function.update_self,filled_apply mem 0 _ hi,nameByte,if_pos hnone,Nat.zero_add]
  · rw [if_neg hnone]
    refine ⟨_,rfl,hother _,?_,fun i hi => ?_⟩
    · rw [Function.update_self,filled_last,hzero]
    · rw [Function.update_self,filled_apply mem 64 _ hi,nameByte,if_neg hnone]

/-- strlen finds the first zero of a name. -/
theorem strlen_spec (h : m .userName 40=0) : ∃ n,strlen m=some n ∧ n ≤ 40 ∧ m .userName n=0 ∧
    ∀ i<n,m .userName i≠0 := by
  unfold strlen
  cases hfind : (List.range 41).find? fun i => m .userName i=0 with
  | none =>
    have hnone := List.find?_range_eq_none.mp hfind 40 (by omega)
    simp only [h,decide_true,Bool.not_true,Bool.false_eq_true] at hnone
  | some n =>
    obtain ⟨hn,hmem,hbefore⟩ := List.find?_range_eq_some.mp hfind
    refine ⟨n,rfl,by have := List.mem_range.mp hmem; omega,of_decide_eq_true hn,fun i hi => ?_⟩
    simpa using hbefore i hi

/-- The length that is copied leaves room for the zero, which stands there. -/
theorem cutName_spec (hmax : 0 < maxLength.toNat) {n : ℕ} (hn : n ≤ 40) (hzero : m .userName n=0) :
    ∃ m',cutName maxLength m n=some (min n (maxLength.toNat-1),m') ∧ m' .outBuf=m .outBuf ∧
      m' .userName (min n (maxLength.toNat-1))=0 ∧
      ∀ i < min n (maxLength.toNat-1),m' .userName i=m .userName i := by
  have hsize : size maxLength .userName=41 := rfl
  unfold cutName
  by_cases hlong : n≥maxLength.toNat
  · rw [if_pos hlong,access_last hmax (by omega),Nat.min_eq_right (by omega)]
    refine ⟨_,rfl,?_,?_,fun i hi => ?_⟩
    · exact Arrays.set_of_array_ne m TextArray.noConfusion _ _
    · exact Arrays.set_same m .userName _ _
    · exact Arrays.set_of_index_ne m .userName (by omega) _
  · rw [if_neg hlong,Nat.min_eq_left (by omega)]
    exact ⟨m,rfl,rfl,hzero,fun _ _ => rfl⟩

/-- The copy of a name that has been cut. -/
theorem copyName_spec {n : ℕ} (hn : n ≤ 40) (hroom : n < maxLength.toNat) :
    copyName maxLength m n=some (Function.update m .outBuf
      (store (m .outBuf) 0 (load (m .userName) 0 (n+1)))) := by
  have hsize : size maxLength .userName=41 := rfl
  have hout : (load (m .userName) 0 (n+1)).length ≤ size maxLength .outBuf := by
    rw [load_length]
    exact hroom
  have hcopied : performAll (size maxLength) m (stores .outBuf 0 (load (m .userName) 0 (n+1)))=_ :=
    access_stores hout
  unfold copyName access
  rw [performAll_append,performAll_loads m .userName 0 (n+1) (by omega),Option.bind_some,hcopied]

/-- The bytes up to the first zero, as many as may be copied. -/
theorem takeWhile_load {user : Mem UInt8} {n : ℕ} (hn : n ≤ 40) (hzero : user n=0)
    (hbefore : ∀ i<n,user i≠0) (k : ℕ) :
    ((load user 0 40).takeWhile (·≠0)).take k=load user 0 (min n k) := by
  have hsplit : load user 0 40=load user 0 n++load user n (40-n) := by
    rw [show 40=n+(40-n) by omega,load_append,Nat.zero_add,Nat.add_sub_cancel_left]
  have hpos : ∀ b∈load user 0 n,decide (b≠0)=true := by
    intro b hb
    obtain ⟨i,hi,rfl⟩ := List.mem_map.mp hb
    rw [Nat.zero_add]
    exact decide_eq_true (hbefore i (List.mem_range.mp hi))
  have hrest : (load user n (40-n)).takeWhile (·≠0)=[] := by
    rcases Nat.eq_zero_or_pos (40-n) with h0|hmore
    · rw [h0]
      rfl
    · rw [show 40-n=(40-n-1)+1 by omega,load,List.range_succ_eq_map,List.map_cons,
        List.takeWhile_cons,Nat.add_zero,hzero]
      rfl
  rw [hsplit,List.takeWhile_append_of_pos hpos,hrest,List.append_nil,load,load,←List.map_take,
    List.take_range,Nat.min_comm]

/-- The routine leaves a name in out_buf, cut to what there is room for, with
its zero behind it. -/
theorem getName_spec (hmax : 0 < maxLength.toNat) (hcleared : ∀ k < maxLength.toNat,m .outBuf k=0)
    (flash : Mem UInt8) (namesAddr : UInt32) (namesCnt num : UInt16) :
    ∃ res m',getName maxLength m flash namesAddr namesCnt num=some (res,m') ∧
      load (m' .outBuf) 0 res.toNat=
        MessageConf.getName flash namesAddr namesCnt num maxLength ∧
      res.toNat < maxLength.toNat ∧ m' .outBuf res.toNat=0 := by
  unfold getName MessageConf.getName
  by_cases hnum : namesAddr≠0 ∧ num<namesCnt
  · rw [if_pos hnum,if_pos hnum]
    generalize flashread flash (namesAddr+128*num.toUInt32)=mem
    obtain ⟨m₁,hread,hout₁,hlast,hname⟩ := readName_spec maxLength m mem
    obtain ⟨n,hlen,hn,hzero,hbefore⟩ := strlen_spec hlast
    obtain ⟨m₂,hcut,hout₂,hzero₂,hname₂⟩ := cutName_spec hmax hn hzero
    have hroom : min n (maxLength.toNat-1) < maxLength.toNat := by omega
    have hres : (UInt8.ofNat (min n (maxLength.toNat-1))).toNat=min n (maxLength.toNat-1) := by
      rw [UInt8.toNat_ofNat']
      omega
    have huser : load (nameByte mem) 0 40=load (m₁ .userName) 0 40 := by
      refine load_eq_load_iff.mpr fun i hi => ?_
      rw [Nat.zero_add]
      exact (hname i hi).symm
    have htext := takeWhile_load hn hzero hbefore (maxLength.toNat-1)
    simp only [hread,hlen,hcut,copyName_spec (by omega) hroom,Option.bind_eq_bind,Option.bind_some,
      Option.pure_def]
    refine ⟨_,_,rfl,?_,?_,?_⟩
    · rw [load_nameByte,huser,htext,hres,Function.update_self]
      refine (load_store_load (m:=m₂ .outBuf) (d:=0) (a:=0) (k:=0) (by omega)).trans ?_
      refine load_eq_load_iff.mpr fun i hi => ?_
      rw [Nat.zero_add]
      exact hname₂ i hi
    · rw [hres]
      exact hroom
    · rw [hres,Function.update_self,store_apply_of_lt (Nat.zero_le _) (by rw [load_length]; omega),
        getElem_load,Nat.sub_zero,Nat.zero_add]
      exact hzero₂
  · rw [if_neg hnum,if_neg hnum]
    exact ⟨0,m,rfl,rfl,hmax,hcleared 0 hmax⟩

/-! ## Texts stay in their arrays -/

/-- out_buf holds zeros. -/
theorem clearBuf_spec (maxLength : UInt16) (m : Arrays Val) : ∃ m',
    clearBuf maxLength m=some m' ∧ ∀ k < maxLength.toNat,m' .outBuf k=0 := by
  have hlength : (List.replicate maxLength.toNat (0 : UInt8)).length=maxLength.toNat :=
    List.length_replicate
  refine ⟨_,access_stores (Nat.le_of_eq hlength),fun k hk => ?_⟩
  rw [Function.update_self,store_apply_of_lt (Nat.zero_le k) (by rw [hlength]; exact hk),
    List.getElem_replicate]

/-- A fixed text leaves the last byte alone. -/
theorem putFixed_spec (hmax : 0 < maxLength.toNat) (hcleared : ∀ k < maxLength.toNat,m .outBuf k=0)
    (text : List UInt8) : EndsInside maxLength (putFixed maxLength m text) := by
  have hround (i : ℕ) (a : Access Val) (ha : a∈(if maxLength≠0 ∧ i < maxLength.toNat-1 then
      [.store .outBuf i (text.getD i 0)] else [] : List (Access Val))) :
      a.InBounds (size maxLength) ∧ a.index.toNat≠maxLength.toNat-1 := by
    split at ha
    next hi =>
      rw [List.mem_singleton.mp ha]
      have hroom : i<size maxLength .outBuf := by
        change i < maxLength.toNat
        omega
      refine ⟨⟨Int.natCast_nonneg i,Int.ofNat_lt.mpr hroom⟩,?_⟩
      change i≠maxLength.toNat-1
      omega
    next => exact absurd ha List.not_mem_nil
  unfold putFixed
  dsimp only [access]
  rw [performAll_of_inBounds (forall_mem_loop.mpr fun i _ a ha => (hround i a ha).1)]
  refine ⟨_,_,rfl,maxLength.toNat-1,by omega,?_⟩
  rw [foldl_of_not_stored (fun a ha _ =>
    (forall_mem_loop.mpr fun i _ a ha => (hround i a ha).2 : ∀ a∈loop text.length _,_) a ha)]
  exact hcleared _ (by omega)

/-- Cleared bytes that nothing is written to. -/
theorem endsInside_of_cleared {α : Type} (hmax : 0 < maxLength.toNat)
    (hcleared : ∀ k < maxLength.toNat,m .outBuf k=0) (res : α) :
    EndsInside maxLength (some (res,m)) := ⟨res,m,rfl,0,hmax,hcleared 0 hmax⟩

/-- A name ends inside out_buf. -/
theorem getName_endsInside (hmax : 0 < maxLength.toNat)
    (hcleared : ∀ k < maxLength.toNat,m .outBuf k=0) (flash : Mem UInt8) (namesAddr : UInt32)
    (namesCnt num : UInt16) : EndsInside maxLength (do
      let (res,m) ← getName maxLength m flash namesAddr namesCnt num
      return (res.toUInt16,m)) := by
  obtain ⟨res,m',hrun,-,hlt,hzero⟩ := getName_spec hmax hcleared flash namesAddr namesCnt num
  rw [hrun]
  exact ⟨_,m',rfl,res.toNat,hlt,hzero⟩

/-- Every kind of record has a text that ends inside out_buf. -/
theorem recordText_spec (hmax : 0 < maxLength.toNat)
    (hcleared : ∀ k < maxLength.toNat,m .outBuf k=0) (names : BitNames) (rec : MessageRecord) :
    EndsInside maxLength (recordText maxLength m names rec) := by
  have hnone : EndsInside maxLength (some ((0 : UInt16),m)) :=
    endsInside_of_cleared hmax hcleared 0
  unfold recordText
  split_ifs
  · exact putFixed_spec hmax hcleared testFlashOk
  · exact putFixed_spec hmax hcleared testFlashErr
  · exact putFixed_spec hmax hcleared canLinkErr
  · exact hnone
  · exact getName_endsInside hmax hcleared _ _ _ _
  · exact getName_endsInside hmax hcleared _ _ _ _
  · exact hnone
  · exact hnone
  · exact hnone

theorem getArchiveMessage_spec (hmax : 0 < maxLength.toNat) (m : Arrays Val) (names : BitNames)
    (rec : MessageRecord) : EndsInside maxLength (getArchiveMessage maxLength m names rec) := by
  obtain ⟨m₁,hclear,hcleared⟩ := clearBuf_spec maxLength m
  obtain ⟨res,m₂,htext,hzero⟩ := recordText_spec hmax hcleared names rec
  unfold getArchiveMessage
  simp only [hclear,htext,Option.bind_eq_bind,Option.bind_some]
  split
  · have hlast : maxLength.toNat-1<size maxLength .outBuf := by
      change maxLength.toNat-1 < maxLength.toNat
      omega
    rw [access_last hmax hlast]
    exact ⟨res,_,rfl,_,hlast,Arrays.set_same m₂ .outBuf _ _⟩
  · exact ⟨res,m₂,rfl,hzero⟩

/-! ## The text of the time -/

theorem access_cell {i : ℕ} (h : i < maxLength.toNat) (v : UInt8) :
    access maxLength m [.store .outBuf (i : ℤ) v]=
      some (Function.update m .outBuf (store (m .outBuf) i [v])) :=
  performAll_stores m .outBuf i [v] h

/-- The characters are written as in the model that knows no bounds. -/
theorem putText_eq (text : List UInt8) {res : ℕ} (h : res < maxLength.toNat) (m : Arrays Val) :
    putText maxLength text res m=
      some ((TimeStamp.putText maxLength.toNat text res (m .outBuf)).1,
        Function.update m .outBuf (TimeStamp.putText maxLength.toNat text res (m .outBuf)).2) := by
  induction text generalizing res m with
  | nil =>
    rw [putText,access_cell h]
    rfl
  | cons c text ih =>
    rw [putText,TimeStamp.putText,access_cell h,Option.bind_eq_bind,Option.bind_some]
    by_cases hfull : res+1≥maxLength.toNat
    · rw [if_pos hfull,if_pos hfull,←Nat.cast_pred (by omega),access_cell (by omega),
        Function.update_self,Function.update_idem]
      rfl
    · rw [if_neg hfull,if_neg hfull,ih (by omega),Function.update_self,Function.update_idem]

/-- The last write of the text is a zero inside the buffer. -/
theorem putText_zero {max : ℕ} (text : List UInt8) {res : ℕ} (h : res < max) (outBuf : Mem UInt8) :
    ∃ k < max,(TimeStamp.putText max text res outBuf).2 k=0 := by
  have hcell (buf : Mem UInt8) (i : ℕ) : store buf i [0] i=0 := by
    rw [store_apply_of_lt (le_refl i) (by rw [Nat.sub_self]; exact Nat.one_pos)]
    simp only [Nat.sub_self,List.getElem_cons_zero]
  induction text generalizing res outBuf with
  | nil => exact ⟨res,h,hcell outBuf res⟩
  | cons c text ih =>
    rw [TimeStamp.putText]
    split
    · exact ⟨max-1,by omega,hcell _ _⟩
    · exact ih (by omega) _

theorem getArchiveMessageTime_spec (hmax : 0 < maxLength.toNat) (m : Arrays Val) (time : UInt32) :
    EndsInside maxLength (getArchiveMessageTime maxLength m time) := by
  obtain ⟨m₁,hclear,-⟩ := clearBuf_spec maxLength m
  unfold getArchiveMessageTime
  rw [hclear,Option.bind_eq_bind,Option.bind_some,putText_eq _ hmax]
  refine ⟨_,_,rfl,?_⟩
  rw [Function.update_self]
  exact putText_zero _ hmax _

end

/-- For every record, all names on the flash and every length of the buffer
from 1 on, neither text is written outside the buffer or the array for the
name, and both leave a zero in the buffer. -/
theorem archiveTexts_endInside {maxLength : UInt16} (hmax : 1 ≤ maxLength.toNat) (m : Arrays Val)
    (names : BitNames) (rec : MessageRecord) :
    EndsInside maxLength (getArchiveMessage maxLength m names rec) ∧
      EndsInside maxLength (getArchiveMessageTime maxLength m rec.time) :=
  ⟨getArchiveMessage_spec hmax m names rec,getArchiveMessageTime_spec hmax m rec.time⟩

/-- The texts of a cluster bit's record in the smallest buffer. -/
theorem archiveTexts_one : EndsInside 1 (getArchiveMessage 1 (fun _ _ => 0xFF)
      ⟨fun _ => 0x41,0x1000,4,0,0⟩ ⟨fun i => if i=0 ∨ i=4 then 1 else 0,0,msgArchBit,0,5⟩) ∧
    EndsInside 1 (getArchiveMessageTime 1 (fun _ _ => 0xFF) 0) :=
  archiveTexts_endInside (by decide) (fun _ _ => 0xFF) ⟨fun _ => 0x41,0x1000,4,0,0⟩
    ⟨fun i => if i=0 ∨ i=4 then 1 else 0,0,msgArchBit,0,5⟩

end BT816Display.ArchiveText
