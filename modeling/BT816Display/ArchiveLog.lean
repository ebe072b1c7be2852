import BT816Display.Lib.Runs
import BT816Display.ArchiveRun

/-!
# The pointer log and the reopened page

search_last_record takes the first pointer of greatest nonzero time stamp,
not the pointer in the last used slot. The log therefore names the page that
was started last exactly as long as every pointer is written with a nonzero
clock reading above the one before it, unless the log has just been filled.
-/

namespace BT816Display.ArchiveLog

open ByteMemory NorFlash BigEndian Crc Clock RingWindow Zd25Flash MessageArchive ArchiveSlots
open Runs ArchiveRam ArchiveFlash ArchiveRun

/-- The first slots of the pointer log hold the entries `es`, the others are
erased. -/
structure LogHolds (m : Mem UInt8) (es : List PagePtr) : Prop where
  /-- The log has 512 slots. -/
  fits : es.length≤512
  /-- The used slots. -/
  used : ∀ i (h : i<es.length),ptrSlot m i=encodePtr es[i]
  /-- The erased slots. -/
  free : ∀ i,es.length ≤ i → i<512 → ptrSlot m i=blank 8

/-- A log with one entry. -/
theorem logHolds_single {m : Mem UInt8} {e : PagePtr} (h0 : ptrSlot m 0=encodePtr e)
    (hfree : ∀ i,1 ≤ i → i<512 → ptrSlot m i=blank 8) : LogHolds m [e] := by
  refine ⟨by rw [List.length_singleton]; omega,fun i hi => ?_,hfree⟩
  have hzero : i=0 := by simpa only [List.length_singleton,Nat.lt_one_iff] using hi
  subst hzero
  rw [h0,List.getElem_singleton]

/-- A pointer is read back with its data and its CRC. -/
theorem ptrData_of_encodePtr_eq {e : PagePtr} {b : List UInt8} {h l : UInt8}
    (hb : b.length=6) (he : encodePtr e=b++[h,l]) :
    ptrData e=b ∧ crcBytes (ptrData e)=(h,l) := by
  have hs := List.append_inj he (by rw [hb]; rfl)
  have hc := hs.2
  simp only [List.cons.injEq,and_true] at hc
  exact ⟨hs.1,Prod.ext hc.1 hc.2⟩

/-- Two page pointers with the same slot name the same page. -/
theorem page_of_encodePtr_eq {e e' : PagePtr} (he : encodePtr e=encodePtr e') : e.page=e'.page := by
  have hd := (ptrData_of_encodePtr_eq (b:=ptrData e') rfl he).1
  have hb := (List.append_inj hd rfl).2
  simp only [List.cons.injEq,and_true] at hb
  rw [←ptr_page_toNat e,←ptr_page_toNat e',hb.1,hb.2]

/-- A page pointer is determined by its slot. -/
theorem encodePtr_injective {e e' : PagePtr} (he : encodePtr e=encodePtr e') : e=e' := by
  have hd := (ptrData_of_encodePtr_eq (b:=ptrData e') rfl he).1
  have ht := (List.append_inj hd rfl).1
  have hp := page_of_encodePtr_eq he
  have htime : e.time=e'.time := by
    have hj := join32_split32 e.time
    have hj' := join32_split32 e'.time
    simp only [split32,List.cons.injEq,and_true] at ht
    rw [←hj,←hj',ht.1,ht.2.1,ht.2.2.1,ht.2.2.2]
  cases e
  cases e'
  cases hp
  cases htime
  rfl

/-- An erased slot does not hold the checksum of its erased data. -/
theorem crcBytes_blank_ne : crcBytes (blank 6)≠(blankByte,blankByte) := by decide +kernel

/-- A page pointer is never an erased slot. -/
theorem encodePtr_ne_blank (e : PagePtr) : encodePtr e≠blank 8 := by
  intro he
  obtain ⟨hd,hc⟩ := ptrData_of_encodePtr_eq (b:=blank 6) (h:=blankByte) (l:=blankByte) rfl he
  rw [hd] at hc
  exact crcBytes_blank_ne hc

/-- The effect of one valid entry on the running variables of the scan. -/
def better (i : ℕ) (e : PagePtr) (v : SearchVars) : SearchVars :=
  if e.time>v.recTime then ⟨e.page,true,e.time,8*(i+1)⟩ else v

/-- The scan over the entries from slot `i` on. -/
def scan : ℕ → List PagePtr → SearchVars → SearchVars
  | _,[],v => v
  | i,e::es,v => scan (i+1) es (better i e v)

/-- One round of the search loop on a used slot. -/
theorem searchLoop_entry {archBuf : Mem UInt8} {i fuel : ℕ} {e : PagePtr} (v : SearchVars)
    (h : load archBuf (8*i) 8=encodePtr e) :
    searchLoop archBuf (fuel+1) (8*i) v=
      if i+1≥512 then better i e v else searchLoop archBuf fuel (8*(i+1)) (better i e v) := by
  have hcell : ∀ k,k<8 → archBuf (8*i+k)=(encodePtr e).getD k 0 := by
    intro k hk
    have hk' : k<(encodePtr e).length := by rw [encodePtr_length]; exact hk
    rw [List.getD_eq_getElem _ _ hk']
    exact (@load_eq_iff _ _ _ (encodePtr e)).mp h k hk'
  have hdata : load archBuf (8*i) 6=ptrData e := by
    have hs := load_append archBuf (8*i) 6 2
    rw [h] at hs
    exact (List.append_inj hs (load_length archBuf _ _).symm).1.symm
  have hcrc : crcMatches (load archBuf (8*i) 6) (archBuf (8*i+6)) (archBuf (8*i+7))=true := by
    rw [crcMatches_iff,hdata,hcell 6 (by decide),hcell 7 (by decide)]
    rfl
  have htime : join32 (archBuf (8*i)) (archBuf (8*i+1)) (archBuf (8*i+2)) (archBuf (8*i+3))=
      e.time := by
    have h0 := hcell 0 (by decide)
    rw [Nat.add_zero] at h0
    rw [h0,hcell 1 (by decide),hcell 2 (by decide),hcell 3 (by decide)]
    exact join32_split32 e.time
  have hpage : (join16 (archBuf (8*i+4)) (archBuf (8*i+5))).toNat=e.page := by
    rw [hcell 4 (by decide),hcell 5 (by decide)]
    exact ptr_page_toNat e
  rw [searchLoop,if_pos hcrc]
  dsimp only [zd25ArchivePageCnt,archivePageSize]
  rw [htime,hpage,if_pos e.valid,show 8*i+8=8*(i+1) by omega]
  by_cases hi : i+1≥512
  · rw [if_pos hi,if_pos (by omega)]
    rfl
  · rw [if_neg hi,if_neg (by omega)]
    rfl

/-- The search loop stops at an erased slot. -/
theorem searchLoop_blank {archBuf : Mem UInt8} {i fuel : ℕ} (v : SearchVars)
    (h : load archBuf (8*i) 8=blank 8) : searchLoop archBuf (fuel+1) (8*i) v=v := by
  have hcell := load_eq_blank_iff.mp h
  have hdata : load archBuf (8*i) 6=blank 6 :=
    load_eq_blank_iff.mpr fun k hk => hcell k (by omega)
  have hcrc : ¬crcMatches (load archBuf (8*i) 6) (archBuf (8*i+6)) (archBuf (8*i+7))=true := by
    rw [hdata,hcell 6 (by decide),hcell 7 (by decide),crcMatches_iff]
    exact crcBytes_blank_ne
  rw [searchLoop,if_neg hcrc]

/-- The search loop scans the entries up to the first erased slot. -/
theorem searchLoop_eq_scan {archBuf : Mem UInt8} (es : List PagePtr) :
    ∀ {i : ℕ} (v : SearchVars),i+es.length≤512 →
      (∀ k (h : k<es.length),load archBuf (8*(i+k)) 8=encodePtr es[k]) →
      (i+es.length<512 → load archBuf (8*(i+es.length)) 8=blank 8) →
      searchLoop archBuf (512-i) (8*i) v=scan i es v := by
  induction es with
  | nil =>
    intro i v hi _ hfree
    rw [List.length_nil,Nat.add_zero] at hi hfree
    rcases Nat.eq_or_lt_of_le hi with he|hlt
    · rw [he,Nat.sub_self,searchLoop,scan]
    · rw [show 512-i=(511-i)+1 by omega,searchLoop_blank v (hfree hlt),scan]
  | cons e es ih =>
    intro i v hi hused hfree
    rw [List.length_cons] at hi hfree
    have h0 := hused 0 (by rw [List.length_cons]; omega)
    rw [Nat.add_zero,List.getElem_cons_zero] at h0
    rw [show 512-i=(511-i)+1 by omega,searchLoop_entry v h0,scan]
    have hshift : i+1+es.length=i+(es.length+1) := by omega
    have htail := ih (i:=i+1) (better i e v) (by omega)
      (fun k hk => by
        have hk1 := hused (k+1) (by rw [List.length_cons]; omega)
        rw [List.getElem_cons_succ] at hk1
        rw [show i+1+k=i+(k+1) by omega]
        exact hk1)
      (by rw [hshift]; exact hfree)
    by_cases hw : i+1≥512
    · have hn : es=[] := List.length_eq_zero_iff.mp (by omega)
      subst hn
      rw [if_pos hw,scan]
    · rw [if_neg hw,show 511-i=512-(i+1) by omega,htail]

/-- The copy of the log in the buffer has the slots of the log. -/
theorem load_store_log {m archBuf : Mem UInt8} {i : ℕ} (hi : i<512) :
    load (store archBuf 0 (load m 0 4096)) (8*i) 8=ptrSlot m i := by
  have hc := @load_store_load _ archBuf m 0 0 (8*i) 4096 8 (by omega)
  rw [Nat.zero_add] at hc
  exact hc

/-- The entries of the log up to its first erased slot are `es`. -/
structure LogPrefix (m : Mem UInt8) (es : List PagePtr) : Prop where
  /-- The log has 512 slots. -/
  fits : es.length≤512
  /-- The used slots. -/
  used : ∀ i (h : i<es.length),ptrSlot m i=encodePtr es[i]
  /-- The first erased slot. -/
  stop : es.length<512 → ptrSlot m es.length=blank 8

/-- A log that holds its pointers begins with them. -/
theorem LogHolds.logPrefix {m : Mem UInt8} {es : List PagePtr} (h : LogHolds m es) :
    LogPrefix m es := ⟨h.fits,h.used,h.free _ le_rfl⟩

/-- Every slot of the log is erased or holds a page pointer. -/
def Pointers (m : Mem UInt8) : Prop := ∀ i<512,ptrSlot m i=blank 8 ∨ ∃ e,ptrSlot m i=encodePtr e

/-- A page pointer is written to a log slot. The other slots stay when that one
was erased and are erased otherwise. -/
def WritesPtr (m m' : Mem UInt8) (l : ℕ) (e : PagePtr) : Prop :=
  ∀ i<512,ptrSlot m' i=
    if i=l then encodePtr e
    else if ptrSlot m l=blank 8 then ptrSlot m i else blank 8

/-- Whether the log holds pointers only depends on its slots. -/
theorem Pointers.congr {m m' : Mem UInt8} (h : Pointers m)
    (hs : ∀ i<512,ptrSlot m' i=ptrSlot m i) : Pointers m' := fun i hi => by
  rw [hs i hi]
  exact h i hi

/-- A log that holds pointers only still does after one is written. -/
theorem Pointers.write {m m' : Mem UInt8} {l : ℕ} {e : PagePtr} (h : Pointers m)
    (hw : WritesPtr m m' l e) : Pointers m' := by
  intro i hi
  rw [hw i hi]
  split
  · exact Or.inr ⟨e,rfl⟩
  · split
    · exact h i hi
    · exact Or.inl rfl

/-- The entries in consecutive used slots. -/
theorem Pointers.exists_list {m : Mem UInt8} (hp : Pointers m) (k : ℕ) : ∀ n,k+n≤512 →
    (∀ i,k ≤ i → i<k+n → ptrSlot m i≠blank 8) →
    ∃ es : List PagePtr,es.length=n ∧ ∀ i (h : i<es.length),ptrSlot m (k+i)=encodePtr es[i] := by
  intro n
  induction n with
  | zero => exact fun _ _ => ⟨[],rfl,fun i h => absurd h (Nat.not_lt_zero i)⟩
  | succ n ih =>
    intro hn hused
    obtain ⟨es,hlen,hes⟩ := ih (by omega) fun i h0 h1 => hused i h0 (by omega)
    obtain ⟨e,he⟩ := (hp (k+n) (by omega)).resolve_left (hused (k+n) (by omega) (by omega))
    refine ⟨es++[e],by rw [List.length_append,hlen,List.length_singleton],fun i hi => ?_⟩
    rw [List.length_append,List.length_singleton] at hi
    by_cases hie : i=es.length
    · subst hie
      rw [List.getElem_concat_length rfl,hlen]
      exact he
    · rw [List.getElem_append_left (by omega)]
      exact hes i (by omega)

/-- The scan meets the pointers up to the first erased slot. -/
theorem Pointers.exists_logPrefix {m : Mem UInt8} (hp : Pointers m) : ∃ es,LogPrefix m es := by
  have hrun : ∀ n≤512,(∀ i<n,ptrSlot m i≠blank 8) ∨
      ∃ l<n,ptrSlot m l=blank 8 ∧ ∀ i<l,ptrSlot m i≠blank 8 := by
    intro n
    induction n with
    | zero => exact fun _ => Or.inl fun i h => absurd h (Nat.not_lt_zero i)
    | succ n ih =>
      intro hn
      rcases ih (by omega) with hused|⟨l,hl,hb,hu⟩
      · by_cases hb : ptrSlot m n=blank 8
        · exact Or.inr ⟨n,by omega,hb,hused⟩
        · refine Or.inl fun i hi => ?_
          rcases Nat.lt_succ_iff_lt_or_eq.mp hi with hlt|rfl
          · exact hused i hlt
          · exact hb
      · exact Or.inr ⟨l,by omega,hb,hu⟩
  obtain ⟨l,hl,hu,hb⟩ : ∃ l≤512,(∀ i<l,ptrSlot m i≠blank 8) ∧ (l<512 → ptrSlot m l=blank 8) := by
    rcases hrun 512 le_rfl with hu|⟨l,hl,hb,hu⟩
    · exact ⟨512,le_rfl,hu,fun h => absurd h (lt_irrefl 512)⟩
    · exact ⟨l,by omega,hu,fun _ => hb⟩
  obtain ⟨es,hlen,hes⟩ := hp.exists_list 0 l (by omega) fun i _ hi => hu i (by omega)
  refine ⟨es,hlen.trans_le hl,fun i hi => ?_,fun hlt => ?_⟩
  · rw [←hes i hi,Nat.zero_add]
  · rw [hlen]
    exact hb (by omega)

/-- search_last_record is the scan over the entries of the log up to the first
erased slot. -/
theorem searchLastRecord_scan {s : Archive} {es : List PagePtr} (h : LogPrefix s.zd25.mem es) :
    (searchLastRecord s).1=scan 0 es ⟨0,false,0,s.offsetInPagePtrPage⟩ := by
  have hfits := h.fits
  dsimp only [searchLastRecord,zd25FlashRead,zd25AcrhiveStartAddr,archivePageSize,Nat.reduceDiv,
    Nat.reduceMul]
  exact searchLoop_eq_scan (i:=0) es _ (by omega)
    (fun k hk => by rw [Nat.zero_add,load_store_log (by omega),h.used k hk])
    (fun hlt => by
      rw [Nat.zero_add] at hlt ⊢
      rw [load_store_log hlt,h.stop hlt])

/-- search_last_record is the scan over the entries of the log. -/
theorem searchLastRecord_fst {s : Archive} {es : List PagePtr} (h : LogHolds s.zd25.mem es) :
    (searchLastRecord s).1=scan 0 es ⟨0,false,0,s.offsetInPagePtrPage⟩ :=
  searchLastRecord_scan h.logPrefix

/-- The search over two parts of the log is the search over the first and then the second. -/
theorem scan_append (es fs : List PagePtr) : ∀ i v,
    scan i (es++fs) v=scan (i+es.length) fs (scan i es v) := by
  induction es with
  | nil => exact fun i v => rfl
  | cons e es ih =>
    intro i v
    rw [List.cons_append,scan,ih,scan,List.length_cons,Nat.add_right_comm,Nat.add_assoc]

/-- The time found so far stays below any bound on the entries. -/
theorem scan_recTime_lt {t : UInt32} (es : List PagePtr) : ∀ i v,v.recTime<t →
    (∀ e∈es,e.time<t) → (scan i es v).recTime<t := by
  induction es with
  | nil => exact fun i v hv _ => hv
  | cons e es ih =>
    intro i v hv hes
    rw [scan]
    apply ih
    · unfold better
      split
      · exact hes e (List.mem_cons_self ..)
      · exact hv
    · exact fun e' he' => hes e' (List.mem_cons_of_mem _ he')

/-- An entry of nonzero time above all the earlier ones is the one found. -/
theorem scan_last {es : List PagePtr} {e : PagePtr} (o : ℕ) (h0 : e.time≠0)
    (hlt : ∀ e'∈es,e'.time<e.time) :
    scan 0 (es++[e]) ⟨0,false,0,o⟩=⟨e.page,true,e.time,8*(es.length+1)⟩ := by
  have hpos : (0 : UInt32)<e.time := UInt32.pos_iff_ne_zero.mpr h0
  rw [scan_append,Nat.zero_add,scan,scan,better,if_pos]
  exact scan_recTime_lt es 0 _ hpos hlt

/-- Entries whose times do not exceed the one found before are passed over. -/
theorem scan_passed (es : List PagePtr) : ∀ i v,(∀ e∈es,e.time≤v.recTime) → scan i es v=v := by
  induction es with
  | nil => exact fun i v _ => rfl
  | cons e es ih =>
    intro i v h
    have he : better i e v=v := if_neg (UInt32.not_lt.mpr (h e (List.mem_cons_self ..)))
    rw [scan,he]
    exact ih _ _ fun e' he' => h e' (List.mem_cons_of_mem _ he')

/-- Pointers no younger than the one found change nothing. -/
theorem scan_stale {es stale : List PagePtr} {v : SearchVars}
    (h : ∀ e∈stale,e.time≤(scan 0 es v).recTime) : scan 0 (es++stale) v=scan 0 es v := by
  rw [scan_append]
  exact scan_passed _ _ _ h

/-- Nothing is found in a log whose entries all have time zero. -/
theorem scan_zero {es : List PagePtr} (o : ℕ) (h0 : ∀ e∈es,e.time=0) :
    scan 0 es ⟨0,false,0,o⟩=⟨0,false,0,o⟩ :=
  scan_passed _ _ _ fun e he => by rw [h0 e he]; exact UInt32.zero_le

/-- Entries that are not all earlier than a time have a first one of greatest
time. -/
theorem exists_newest (t : UInt32) (es : List PagePtr) : (∀ e∈es,e.time≤t) ∨
    ∃ older newest stale,es=older++[newest]++stale ∧ t<newest.time ∧
      (∀ e∈older,e.time<newest.time) ∧ ∀ e∈stale,e.time≤newest.time := by
  induction es using List.reverseRecOn with
  | nil => exact Or.inl (List.forall_mem_nil _)
  | append_singleton es x ih =>
    rcases ih with hall|⟨older,newest,stale,rfl,ht,hbelow,hpassed⟩
    · by_cases hx : x.time≤t
      · refine Or.inl fun e he => ?_
        rcases List.mem_append.mp he with h|h
        · exact hall e h
        · rwa [List.mem_singleton.mp h]
      · have hx := UInt32.not_le.mp hx
        exact Or.inr ⟨es,x,[],(List.append_nil _).symm,hx,
          fun e he => UInt32.lt_of_le_of_lt (hall e he) hx,List.forall_mem_nil _⟩
    · by_cases hx : x.time≤newest.time
      · refine Or.inr ⟨older,newest,stale++[x],by rw [List.append_assoc],ht,hbelow,fun e he => ?_⟩
        rcases List.mem_append.mp he with h|h
        · exact hpassed e h
        · rwa [List.mem_singleton.mp h]
      · have hx := UInt32.not_le.mp hx
        refine Or.inr ⟨_,x,[],(List.append_nil _).symm,UInt32.lt_trans ht hx,fun e he => ?_,
          List.forall_mem_nil _⟩
        rcases List.mem_append.mp he with h|h
        · rcases List.mem_append.mp h with h|h
          · exact UInt32.lt_trans (hbelow e h) hx
          · rwa [List.mem_singleton.mp h]
        · exact UInt32.lt_of_le_of_lt (hpassed e h) hx

/-- The first pointer of greatest nonzero time is the one found. -/
theorem searchLastRecord_newest {s : Archive} {older stale : List PagePtr} {newest : PagePtr}
    (h : LogPrefix s.zd25.mem (older++[newest]++stale)) (h0 : newest.time≠0)
    (hbelow : ∀ e∈older,e.time<newest.time) (hpassed : ∀ e∈stale,e.time≤newest.time) :
    (searchLastRecord s).1=⟨newest.page,true,newest.time,8*(older.length+1)⟩ := by
  have hs := searchLastRecord_scan h
  rwa [scan_stale (by rw [scan_last _ h0 hbelow]; exact hpassed),scan_last _ h0 hbelow] at hs

/-- search_last_record finds nothing or the first pointer of greatest time. -/
theorem searchLastRecord_cases {s : Archive} (hp : Pointers s.zd25.mem) :
    (searchLastRecord s).1.foundFlag=false ∨
    ∃ older newest stale,LogPrefix s.zd25.mem (older++[newest]++stale) ∧
      (∀ e∈older,e.time<newest.time) ∧ (∀ e∈stale,e.time≤newest.time) ∧
      (searchLastRecord s).1=⟨newest.page,true,newest.time,8*(older.length+1)⟩ := by
  obtain ⟨es,hes⟩ := hp.exists_logPrefix
  rcases exists_newest 0 es with hall|⟨older,newest,stale,rfl,h0,hbelow,hpassed⟩
  · left
    rw [searchLastRecord_scan hes,scan_zero _ fun e he => UInt32.le_zero_iff.mp (hall e he)]
  · exact Or.inr ⟨older,newest,stale,hes,hbelow,hpassed,
      searchLastRecord_newest hes (UInt32.pos_iff_ne_zero.mp h0) hbelow hpassed⟩

/-- The pointer found, by its slot: the slots before it are used and hold
earlier pointers, the slots behind it no later ones. -/
theorem searchLastRecord_of_slot {s : Archive} {g : ℕ} {e : PagePtr} (hp : Pointers s.zd25.mem)
    (hg : g<512) (he : ptrSlot s.zd25.mem g=encodePtr e) (h0 : e.time≠0)
    (hbelow : ∀ i<g,∃ e',ptrSlot s.zd25.mem i=encodePtr e' ∧ e'.time<e.time)
    (hpassed : ∀ i e',g < i → i<512 → ptrSlot s.zd25.mem i=encodePtr e' → e'.time≤e.time) :
    (searchLastRecord s).1=⟨e.page,true,e.time,8*(g+1)⟩ := by
  obtain ⟨es,hes⟩ := hp.exists_logPrefix
  have hfits := hes.fits
  have hlen : g<es.length := by
    by_contra hge
    have hstop := hes.stop (by omega)
    rcases Nat.lt_or_eq_of_le (Nat.not_lt.mp hge) with hlt|heq
    · obtain ⟨e',he',_⟩ := hbelow es.length hlt
      exact encodePtr_ne_blank e' (he'.symm.trans hstop)
    · rw [heq] at hstop
      exact encodePtr_ne_blank e (he.symm.trans hstop)
  have hsplit : es=es.take g++[e]++es.drop (g+1) := by
    have hge : es[g]=e := encodePtr_injective ((hes.used g hlen).symm.trans he)
    rw [←hge,List.append_assoc,List.singleton_append,List.getElem_cons_drop,List.take_append_drop]
  rw [hsplit] at hes
  have htake : (es.take g).length=g := by rw [List.length_take]; omega
  have hs := searchLastRecord_newest hes h0 ?_ ?_
  · rwa [htake] at hs
  · intro e' he'
    obtain ⟨i,hi,rfl⟩ := List.getElem_of_mem he'
    obtain ⟨e'',he'',hlt⟩ := hbelow i (by omega)
    have hu := hes.used i (by simp only [List.length_append]; omega)
    rw [List.getElem_append_left (by simp only [List.length_append]; omega),
      List.getElem_append_left hi] at hu
    rwa [encodePtr_injective (hu.symm.trans he'')]
  · intro e' he'
    obtain ⟨i,hi,rfl⟩ := List.getElem_of_mem he'
    have hu := hes.used (g+1+i) (by simp only [List.length_append,List.length_singleton]; omega)
    have hfits' := hes.fits
    simp only [List.length_append,List.length_singleton] at hfits'
    rw [List.getElem_append_right (by simp only [List.length_append,List.length_singleton]; omega)] at hu
    simp only [List.length_append,List.length_singleton,htake,Nat.add_sub_cancel_left] at hu
    exact hpassed (g+1+i) _ (by omega) (by omega) hu

/-- A used log slot is not an erased one. -/
theorem LogHolds.head_used {m : Mem UInt8} {es : List PagePtr} (h : LogHolds m es)
    (hn : es≠[]) : ptrSlot m 0≠blank 8 := by
  rw [h.used 0 (List.length_pos_iff.mpr hn)]
  exact encodePtr_ne_blank _

/-- A pointer written behind the entries of the log is appended to them; into
a full log it is written alone. -/
theorem LogHolds.createNewPagePtr (env : Env) {s : Archive} {es : List PagePtr} (e : PagePtr)
    (h : LogHolds s.zd25.mem es) (hn : es≠[]) (ho : s.offsetInPagePtrPage=8*es.length)
    (ht : e.time=timeToUint32 env.rtc) :
    LogHolds (createNewPagePtr env e.page s).zd25.mem (if es.length<512 then es++[e] else [e]) := by
  have hfits := h.fits
  have ha : LogAligned s := by rw [LogAligned,ho]; omega
  have hw := fun i hi => ptrSlot_createNewPagePtr (s:=s) env e ha ht (i:=i) hi
  split
  · rename_i hlt
    have hk : logIndex s=es.length := by unfold logIndex; rw [ho,if_neg (by omega)]; omega
    rw [hk,h.free _ le_rfl hlt] at hw
    refine ⟨by rw [List.length_append,List.length_singleton]; omega,?_,?_⟩
    · intro i hi
      rw [List.length_append,List.length_singleton] at hi
      rw [hw i (by omega)]
      by_cases hie : i=es.length
      · subst hie
        rw [if_pos rfl,List.getElem_concat_length rfl]
      · rw [if_neg hie,if_pos rfl,h.used i (by omega),List.getElem_append_left]
    · intro i hi h512
      rw [List.length_append,List.length_singleton] at hi
      rw [hw i h512,if_neg (by omega),if_pos rfl,h.free i (by omega) h512]
  · rename_i hge
    have hk : logIndex s=0 := by unfold logIndex; rw [ho,if_pos (by omega)]
    rw [hk] at hw
    refine logHolds_single ?_ fun i hi h512 => ?_
    · rw [hw 0 (by omega),if_pos rfl]
    · rw [hw i h512,if_neg (by omega),if_neg (h.head_used hn)]

/-- What the log holds depends on its slots. -/
theorem LogHolds.congr {m m' : Mem UInt8} {es : List PagePtr} (h : LogHolds m es)
    (hs : ∀ i<512,ptrSlot m' i=ptrSlot m i) : LogHolds m' es :=
  ⟨h.fits,fun i hi => (hs i (lt_of_lt_of_le hi h.fits)).trans (h.used i hi),
    fun i hi h512 => (hs i h512).trans (h.free i hi h512)⟩

/-- Adding a record without a page start keeps the log. -/
theorem LogHolds.add_not_wraps (env : Env) (record : MessageRecord) {s : Archive}
    {es : List PagePtr} (h : LogHolds s.zd25.mem es) (ha : Aligned s) (hw : ¬Wraps s) :
    LogHolds (addRecordToArchive env record s).zd25.mem es := by
  refine h.congr fun i hi => ?_
  rw [ptrSlot_addRecordToArchive env record ha hi,nextSlot_not_wraps ha hw]

/-- The pointer that adding a record writes when it starts a page. -/
def nextPtr (env : Env) (s : Archive) (hp : s.archivePageNum<128) : PagePtr :=
  ⟨timeToUint32 env.rtc,next 128 s.archivePageNum,next_lt hp⟩

/-- Adding a record with a page start writes one more pointer, behind the
others or alone when the log was full. -/
theorem LogHolds.add_wraps (env : Env) (record : MessageRecord) {s : Archive} {es : List PagePtr}
    (h : LogHolds s.zd25.mem es) (hn : es≠[]) (ho : s.offsetInPagePtrPage=8*es.length)
    (ha : Aligned s) (hw : Wraps s) (hp : s.archivePageNum<128) :
    LogHolds (addRecordToArchive env record s).zd25.mem
        (if es.length<512 then es++[nextPtr env s hp] else [nextPtr env s hp]) ∧
      (addRecordToArchive env record s).offsetInPagePtrPage=
        8*(if es.length<512 then es++[nextPtr env s hp] else [nextPtr env s hp]).length := by
  have hh := LogHolds.createNewPagePtr env
    (s:={s with archivePageNum := next 128 s.archivePageNum}) (nextPtr env s hp) h hn ho rfl
  have hfits := h.fits
  constructor
  · refine hh.congr fun i hi => ?_
    rw [ptrSlot_addRecordToArchive env record ha hi,nextSlot_wraps hw]
    rfl
  · rw [(addRecordToArchive_vars env record s).2.1,nextSlot_wraps hw,startPage,
      offset_createNewPagePtr env (by rw [LogAligned,ho]; omega),logIndex]
    dsimp only
    rw [ho]
    by_cases hlt : es.length<512
    · rw [if_neg (by omega),if_pos hlt,List.length_append,List.length_singleton]
      omega
    · rw [if_pos (by omega),if_neg hlt,List.length_singleton]

/-- A log whose first slot is used is erased before that slot is written
again; otherwise it must be erased already to start from its first slot. -/
def Restartable (m : Mem UInt8) : Prop := ptrSlot m 0≠blank 8 ∨ ∀ i<512,ptrSlot m i=blank 8

/-- A log that holds its pointers can be started again. -/
theorem LogHolds.restartable {m : Mem UInt8} {es : List PagePtr} (h : LogHolds m es) :
    Restartable m := by
  cases es with
  | nil => exact Or.inr fun i hi => h.free i (Nat.zero_le _) hi
  | cons e es => exact Or.inl (h.head_used (List.cons_ne_nil e es))

/-- clear_archive leaves a log with the single pointer to page 0. -/
theorem logHolds_clearArchive (env : Env) {s : Archive} (h : Restartable s.zd25.mem) :
    LogHolds (clearArchive env s).zd25.mem [⟨timeToUint32 env.rtc,0,by omega⟩] := by
  refine logHolds_single ?_ fun i hi h512 => ?_
  · rw [ptrSlot_clearArchive env s (by omega),if_pos rfl]
  · rw [ptrSlot_clearArchive env s h512,if_neg (by omega)]
    rcases h with hu|hb
    · rw [if_neg hu]
    · rw [if_pos (hb 0 (by omega)),hb i h512]

/-- The log of an archive whose current page is named by a pointer later than
all those before it; the pointers behind it are not later and are ignored. -/
structure LogInv (s : Archive) (older : List PagePtr) (newest : PagePtr) (stale : List PagePtr) :
    Prop where
  /-- The entries of the log. -/
  holds : LogHolds s.zd25.mem (older++[newest]++stale)
  /-- The last slot pointer is well formed. -/
  aligned : Aligned s
  /-- The next pointer goes behind the newest one. -/
  offset : s.offsetInPagePtrPage=8*(older.length+1)
  /-- The newest pointer names the current page. -/
  page : newest.page=s.archivePageNum
  /-- The newest pointer is the one written last. -/
  pointer : lastPointer s.calls=some (newest.page,newest.time)
  /-- The newest pointer is later than the ones before it. -/
  below : ∀ e∈older,e.time<newest.time
  /-- The ones behind it are not later. -/
  passed : ∀ e∈stale,e.time≤newest.time

/-- Time stamp of the pointer written last. -/
def lastTime (s : Archive) : UInt32 := ((lastPointer s.calls).map Prod.snd).getD 0

/-- The log slot of the next page pointer is erased. -/
def NextFree (s : Archive) : Prop := ptrSlot s.zd25.mem (logIndex s)=blank 8

section LogInv

variable {s : Archive} {older stale : List PagePtr} {newest : PagePtr}

/-- The last time kept is that of the newest pointer. -/
theorem LogInv.lastTime_eq (h : LogInv s older newest stale) : lastTime s=newest.time := by
  simp only [lastTime,h.pointer,Option.map_some,Option.getD_some]

/-- A newest pointer of time zero is the only one. -/
theorem LogInv.older_nil (h : LogInv s older newest stale) (h0 : newest.time=0) : older=[] := by
  apply List.eq_nil_iff_forall_not_mem.mpr
  intro e he
  have hb := h.below e he
  rw [h0] at hb
  exact absurd hb UInt32.not_lt_zero

/-- After clear_archive the log has one pointer, to page 0. -/
theorem LogInv.of_clear (env : Env) (h : Restartable s.zd25.mem) :
    LogInv (clearArchive env s) [] ⟨timeToUint32 env.rtc,0,by omega⟩ [] where
  holds := logHolds_clearArchive env h
  aligned := aligned_clearArchive env s
  offset := (clearArchive_vars env s).2.1
  page := (clearArchive_vars env s).1.symm
  pointer := by rw [(clearArchive_vars env s).2.2,lastPointer_newPagePtr]
  below := fun _ he => absurd he List.not_mem_nil
  passed := fun _ he => absurd he List.not_mem_nil

/-- When the next log slot is erased nothing lies behind the newest pointer,
and the log is not full. -/
theorem LogInv.nextFree (hl : LogInv s older newest stale) (hfree : NextFree s) :
    stale=[] ∧ older.length+1<512 ∧ logIndex s=older.length+1 := by
  have hfits := hl.holds.fits
  have hused := hl.holds.used
  have hfull : older.length+1<512 := by
    by_contra hge
    have hk : logIndex s=0 := by unfold logIndex; rw [hl.offset,if_pos (by omega)]
    rw [NextFree,hk] at hfree
    exact hl.holds.head_used (by simp) hfree
  have hk : logIndex s=older.length+1 := by unfold logIndex; rw [hl.offset,if_neg (by omega)]; omega
  refine ⟨?_,hfull,hk⟩
  cases stale with
  | nil => rfl
  | cons e stale =>
    have hlt : older.length+1<(older++[newest]++e::stale).length := by
      simp only [List.length_append,List.length_cons,List.length_nil]
      omega
    rw [NextFree,hk,hused _ hlt] at hfree
    exact absurd hfree (encodePtr_ne_blank _)

/-- The scan finds the newest pointer when its time is not zero. -/
theorem LogInv.search_found (h : LogInv s older newest stale) (h0 : newest.time≠0) :
    (searchLastRecord (powerUp s)).1=⟨newest.page,true,newest.time,8*(older.length+1)⟩ :=
  searchLastRecord_newest (s:=powerUp s) h.holds.logPrefix h0 h.below h.passed

/-- The scan finds nothing when the newest pointer has time zero. -/
theorem LogInv.search_not_found (h : LogInv s older newest stale) (h0 : newest.time=0) :
    (searchLastRecord (powerUp s)).1.foundFlag=false := by
  rw [searchLastRecord_fst (s:=powerUp s) h.holds,h.older_nil h0,List.nil_append,scan_zero]
  intro e he
  rcases List.mem_append.mp he with hn|hs
  · rw [List.mem_singleton.mp hn,h0]
  · have hp := h.passed e hs
    rw [h0] at hp
    exact UInt32.le_zero_iff.mp hp

/-- A reboot finds the newest pointer when its time is not zero. -/
theorem LogInv.reboot_found (h : LogInv s older newest stale) (env : Env)
    (h0 : newest.time≠0) :
    LogInv (reboot env s) older newest stale ∧ (reboot env s).calls=s.calls ∧
      (reboot env s).zd25=s.zd25 := by
  have hs := h.search_found h0
  have hf : (searchLastRecord (powerUp s)).1.foundFlag=true := by rw [hs]
  obtain ⟨hz,hc,ho⟩ := searchLastRecord_vars (powerUp s)
  obtain ⟨hp',ho',hc',hz'⟩ := reopenPage_vars env (searchLastRecord (powerUp s)).1.pageNum
    (searchLastRecord (powerUp s)).2
  rw [←reboot_of_found hf] at hp' ho' hc' hz'
  rw [ho,hs] at ho'
  rw [hs] at hp'
  have hz2 : (reboot env s).zd25=s.zd25 := hz'.trans hz
  have hc2 : (reboot env s).calls=s.calls := hc'.trans hc
  refine ⟨⟨?_,aligned_reboot env s,ho',hp'.symm,?_,h.below,h.passed⟩,hc2,hz2⟩
  · rw [hz2]
    exact h.holds
  · rw [hc2]
    exact h.pointer

/-- A reboot clears the archive when the newest pointer has time zero. -/
theorem LogInv.reboot_not_found (h : LogInv s older newest stale) (env : Env)
    (h0 : newest.time=0) :
    LogInv (reboot env s) [] ⟨timeToUint32 env.rtc,0,by omega⟩ [] ∧
      (reboot env s).calls=s.calls++[.clearArchive]++[.newPagePtr 0 (timeToUint32 env.rtc)] := by
  rw [reboot_of_not_found (h.search_not_found h0)]
  obtain ⟨hz,hc,_⟩ := searchLastRecord_vars (powerUp s)
  refine ⟨LogInv.of_clear env ?_,?_⟩
  · rw [hz]
    exact h.holds.restartable
  · rw [(clearArchive_vars env _).2.2,hc]
    rfl

/-- Adding a record without a page start keeps the log. -/
theorem LogInv.add_not_wraps (h : LogInv s older newest stale) (env : Env)
    (record : MessageRecord) (hw : ¬Wraps s) :
    LogInv (addRecordToArchive env record s) older newest stale ∧
      (addRecordToArchive env record s).calls=s.calls := by
  obtain ⟨hp,ho,hc⟩ := addRecordToArchive_vars env record s
  have hn : (nextSlot env s).2=s := by rw [nextSlot_not_wraps h.aligned hw]
  rw [hn] at hp ho hc
  exact ⟨⟨h.holds.add_not_wraps env record h.aligned hw,
    aligned_addRecordToArchive env record h.aligned,ho.trans h.offset,h.page.trans hp.symm,
    hc ▸ h.pointer,h.below,h.passed⟩,hc⟩

/-- The log entries after a page start: the new pointer behind the others, or
alone when the log was full. -/
def afterStart (older : List PagePtr) (newest e : PagePtr) : List PagePtr :=
  if older.length+1<512 then older++[newest]++[e] else [e]

/-- Adding a record with a page start writes one more pointer. -/
theorem LogInv.add_wraps (h : LogInv s older newest []) (env : Env) (record : MessageRecord)
    (hw : Wraps s) (hp : s.archivePageNum<128) :
    LogHolds (addRecordToArchive env record s).zd25.mem (afterStart older newest (nextPtr env s hp)) ∧
      (addRecordToArchive env record s).archivePageNum=next 128 s.archivePageNum ∧
      (addRecordToArchive env record s).offsetInPagePtrPage=
        8*(afterStart older newest (nextPtr env s hp)).length ∧
      lastPointer (addRecordToArchive env record s).calls=
        some (next 128 s.archivePageNum,timeToUint32 env.rtc) := by
  obtain ⟨hp',_,hc'⟩ := addRecordToArchive_vars env record s
  have hn : (nextSlot env s).2=startPage env s := by rw [nextSlot_wraps hw]
  rw [hn] at hp' hc'
  have hlen : (older++[newest]).length=older.length+1 := by
    rw [List.length_append,List.length_singleton]
  have hh : LogHolds s.zd25.mem (older++[newest]) := by
    have h' := h.holds
    rwa [List.append_nil] at h'
  obtain ⟨hlog,ho⟩ := hh.add_wraps env record (by simp) (by rw [hlen]; exact h.offset) h.aligned hw hp
  rw [hlen] at hlog ho
  exact ⟨hlog,hp',ho,by rw [hc']; exact lastPointer_newPagePtr _ _ _⟩

/-- A page started at a nonzero time, later than the page before unless the
log starts again, leaves its pointer as the newest. -/
theorem LogInv.add_wraps_later (h : LogInv s older newest []) (env : Env)
    (record : MessageRecord) (hw : Wraps s) (hp : s.archivePageNum<128)
    (ht : older.length+1<512 → newest.time<timeToUint32 env.rtc) :
    LogInv (addRecordToArchive env record s) (if older.length+1<512 then older++[newest] else [])
      (nextPtr env s hp) [] := by
  obtain ⟨hh,hp',ho,hlp⟩ := h.add_wraps env record hw hp
  have ha := aligned_addRecordToArchive env record h.aligned
  unfold afterStart at hh ho
  refine ⟨?_,ha,?_,hp'.symm,hlp,?_,fun e he => absurd he List.not_mem_nil⟩
  · rw [List.append_nil]
    split at hh
    · rename_i hlt
      rwa [if_pos hlt]
    · rename_i hlt
      rwa [if_neg hlt]
  · rw [ho]
    split
    · rw [List.length_append,List.length_singleton]
    · rfl
  · intro e he
    split at he
    · rename_i hlt
      rcases List.mem_append.mp he with ho|hn
      · exact UInt32.lt_trans (h.below e ho) (ht hlt)
      · rw [List.mem_singleton.mp hn]
        exact ht hlt
    · exact absurd he List.not_mem_nil

end LogInv

/-- The log of an erased chip has no entry. -/
theorem logHolds_factory : LogHolds (powerUp factoryArchive).zd25.mem [] := by
  refine ⟨Nat.zero_le _,fun i hi => absurd hi (Nat.not_lt_zero i),fun i _ _ => ?_⟩
  exact load_eq_blank_iff.mpr fun _ _ => rfl

/-- The first init_archive clears the erased chip. -/
theorem start_eq_clear (env₀ : Env) :
    start env₀=clearArchive env₀ (searchLastRecord (powerUp factoryArchive)).2 := by
  have hf : (searchLastRecord (powerUp factoryArchive)).1.foundFlag=false := by
    rw [searchLastRecord_fst logHolds_factory]
    rfl
  rw [start,reboot_of_not_found hf]

/-- At power on there is no last record pointer. -/
theorem start_lastRecPtr (env₀ : Env) : (start env₀).lastRecPtr=none := by
  rw [start_eq_clear]
  exact clearArchive_lastRecPtr env₀ _

/-- At first power on the log holds one pointer. -/
theorem logInv_start (env₀ : Env) :
    LogInv (start env₀) [] ⟨timeToUint32 env₀.rtc,0,by omega⟩ [] := by
  rw [start_eq_clear]
  exact LogInv.of_clear env₀ (by rw [(searchLastRecord_vars _).1]; exact logHolds_factory.restartable)

/-- The first page being filled: the operations are adds only. -/
def addsOnly (adds : List (Env×MessageRecord)) : List (Env×Op) := adds.map fun a => (a.1,.add a.2)

/-- No adds are no operations. -/
@[simp] theorem addsOnly_nil : addsOnly []=[] := rfl

/-- One more add is one more operation. -/
theorem addsOnly_concat (adds : List (Env×MessageRecord)) (a : Env×MessageRecord) :
    addsOnly (adds++[a])=addsOnly adds++[(a.1,.add a.2)] := List.map_append

/-- While the first page is being filled the log keeps its one pointer. -/
theorem logInv_firstPage (env₀ : Env) (adds : List (Env×MessageRecord)) (hn : adds.length≤256) :
    LogInv (run (start env₀) (addsOnly adds)) [] ⟨timeToUint32 env₀.rtc,0,by omega⟩ [] ∧
      filled (run (start env₀) (addsOnly adds))=adds.length := by
  induction adds using List.reverseRecOn with
  | nil =>
    rw [addsOnly_nil,run_nil,List.length_nil]
    exact ⟨logInv_start env₀,filled_eq_zero.mpr (start_lastRecPtr env₀)⟩
  | append_singleton adds a ih =>
    rw [List.length_append,List.length_singleton] at hn ⊢
    obtain ⟨hl,hf⟩ := ih (by omega)
    have hw : ¬Wraps (run (start env₀) (addsOnly adds)) := fun hw => by
      rw [wraps_iff_filled hl.aligned,hf] at hw
      omega
    rw [addsOnly_concat,run_concat]
    refine ⟨(hl.add_not_wraps a.1 a.2 hw).1,?_⟩
    dsimp only [step]
    rw [filled_addRecordToArchive hl.aligned,if_neg hw,hf]

end BT816Display.ArchiveLog
