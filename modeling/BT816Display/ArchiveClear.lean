import BT816Display.ArchiveClean

/-!
# What comes back after a clear

clear_archive erases the first 30 of the 128 data pages and, unless its first
slot is erased, the pointer log. Pages are erased again before they are reused,
but the buffer of page 0 is completed from page 127 as it stands. In a log with
an erased first slot the later pointers stay, and a reboot finds them as soon
as the slots between are filled again. Only records added since the clear are
shown when neither way leads to an older one.
-/

namespace BT816Display.ArchiveClear

open ByteMemory NorFlash Clock RingWindow Zd25Flash MessageArchive ArchiveSlots ArchiveRam
open ArchiveFlash ArchiveRun ArchiveLog ArchiveLayout ArchiveCrash ArchiveClean

variable {A : StoredRecord → Prop}

/-- The records that are counted or returned are in the list. A counted slot
is one of those less than the count behind the slot written last. -/
def OnlyShows (stack : Mem UInt8) (s : Archive) (l : List StoredRecord) : Prop :=
  (∀ k<getArchiveRecordsCnt stack s,∀ r,ramSlot s (behind 256 (lastSlot s) (k%256))=encode r → r∈l) ∧
    ∀ k v,getRecordWithOffsetFromLast stack k s=some v → ∃ r∈l,v=view r

/-- A clean archive shows only records of the set. -/
theorem onlyShows_of_clean {s : Archive} {l : List StoredRecord} (hi : CleanInv (·∈l) s)
    (stack : Mem UInt8) : OnlyShows stack s l := by
  cases hp : s.lastRecPtr with
  | none =>
    refine ⟨fun k hk => ?_,fun k v hv => ?_⟩
    · rw [getArchiveRecordsCnt,hp] at hk
      exact absurd hk (Nat.not_lt_zero k)
    · rw [getRecordWithOffsetFromLast,hp] at hv
      cases hv
  | some p =>
    have hj := lastSlot_lt hi.aligned
    have hf : filled s≠0 := fun h0 => by
      rw [filled_eq_zero.mp h0] at hp
      cases hp
    have hram := fun k => hi.ram _ (behind_lt hj (Nat.mod_lt k (by omega : 256>0)))
      fun h0 => absurd h0 hf
    refine ⟨fun k _ r hr => ?_,fun k v hv => ?_⟩
    · rcases hram k with hz|hb|⟨r',hr',he⟩
      · exact absurd (hr.symm.trans hz) (encode_ne_zero r)
      · exact absurd (hr.symm.trans hb) (encode_ne_blank r)
      · rwa [encode_injective (hr.symm.trans he)]
    · rw [getRecordWithOffsetFromLast_slot hi.aligned hp] at hv
      rcases hram k with hz|hb|⟨r,hr,he⟩
      · rw [hz,readSlot_zero] at hv
        cases hv
      · rw [hb,readSlot_blank] at hv
        cases hv
      · rw [he,readSlot_encode,Option.some.injEq] at hv
        exact ⟨r,hr,hv.symm⟩

section SafeLog

/-- A reboot never takes the pointer `e` in slot `i`: a clean pointer before it
is at least as late, or one behind it is later and the slots between are
used. -/
def Covered (A : StoredRecord → Prop) (m : Mem UInt8) (i : ℕ) (e : PagePtr) : Prop :=
  ∃ g<512,∃ e',ptrSlot m g=encodePtr e' ∧ CleanPtr A m e' ∧
    ((g < i ∧ e.time≤e'.time) ∨
      (i<g ∧ e.time<e'.time ∧ ∀ j,i≤j → j≤g → ptrSlot m j≠NorFlash.blank 8))

/-- Every pointer of the log is clean or covered by a clean one. -/
def SafeLog (A : StoredRecord → Prop) (m : Mem UInt8) : Prop :=
  ∀ i<512,ptrSlot m i=NorFlash.blank 8 ∨
    ∃ e,ptrSlot m i=encodePtr e ∧ (CleanPtr A m e ∨ Covered A m i e)

variable {m m' : Mem UInt8}

theorem SafeLog.pointers (h : SafeLog A m) : Pointers m :=
  fun i hi => (h i hi).imp_right fun ⟨e,he,_⟩ => ⟨e,he⟩

/-- A log whose slots stay is as safe as before. -/
theorem SafeLog.keep (h : SafeLog A m) (hk : Keeps A m m')
    (hs : ∀ i<512,ptrSlot m' i=ptrSlot m i) : SafeLog A m' := by
  intro i hi
  rw [hs i hi]
  refine (h i hi).imp_right fun ⟨e,he,hc⟩ => ⟨e,he,hc.imp (·.keep hk) ?_⟩
  rintro ⟨g,hg,e',he',hc',hpos⟩
  refine ⟨g,hg,e',(hs g hg).trans he',hc'.keep hk,hpos.imp_right fun ⟨hig,ht,hu⟩ => ⟨hig,ht,?_⟩⟩
  intro j hij hjg
  rw [hs j (by omega)]
  exact hu j hij hjg

/-- A safe log stays safe when a clean pointer is written to it. -/
theorem SafeLog.write {l : ℕ} {e : PagePtr} (h : SafeLog A m) (hk : Keeps A m m')
    (hw : WritesPtr m m' l e) (he : CleanPtr A m' e) : SafeLog A m' := by
  intro i hi
  rw [hw i hi]
  split
  · exact Or.inr ⟨e,rfl,Or.inl he⟩
  · split
    · rename_i hil hb
      refine (h i hi).imp_right fun ⟨e₁,he₁,hc⟩ => ⟨e₁,he₁,hc.imp (·.keep hk) ?_⟩
      rintro ⟨g,hg,e',he',hc',hpos⟩
      have hstay : ∀ j<512,ptrSlot m j≠NorFlash.blank 8 → ptrSlot m' j=ptrSlot m j := by
        intro j hj hu
        rw [hw j hj,if_neg fun hjl : j=l => hu (hjl ▸ hb),if_pos hb]
      have hug : ptrSlot m g≠NorFlash.blank 8 := by
        rw [he']
        exact encodePtr_ne_blank e'
      refine ⟨g,hg,e',(hstay g hg hug).trans he',hc'.keep hk,
        hpos.imp_right fun ⟨hig,ht,hu⟩ => ⟨hig,ht,fun j hij hjg => ?_⟩⟩
      rw [hstay j (by omega) (hu j hij hjg)]
      exact hu j hij hjg
    · exact Or.inl rfl

/-- Writing a clean pointer to a used slot leaves no other. -/
theorem safeLog_of_write_used {l : ℕ} {e : PagePtr} (hw : WritesPtr m m' l e)
    (hu : ptrSlot m l≠NorFlash.blank 8) (he : CleanPtr A m' e) : SafeLog A m' := by
  intro i hi
  rw [hw i hi]
  split
  · exact Or.inr ⟨e,rfl,Or.inl he⟩
  · exact Or.inl rfl

/-- A reboot takes only clean pointers from a safe log. -/
theorem Finds.clean {env : Env} {s : Archive} {older stale : List PagePtr} {newest : PagePtr}
    (h : Finds env s older newest stale) (hsafe : SafeLog A s.zd25.mem) :
    CleanPtr A s.zd25.mem newest := by
  obtain ⟨hlt,hslot⟩ := Finds.slot h
  rcases hsafe older.length hlt with hb|⟨e,he,hc⟩
  · exact absurd (hslot.symm.trans hb) (encodePtr_ne_blank newest)
  · cases encodePtr_injective (hslot.symm.trans he)
    rcases hc with hc|⟨g,hg,e',he',hc',⟨hgi,ht⟩|⟨hig,ht,hu⟩⟩
    · exact hc
    · have hlog := h.log.used g (by simp only [List.length_append]; omega)
      rw [List.getElem_append_left (by simp only [List.length_append]; omega),
        List.getElem_append_left hgi] at hlog
      have hb := h.below _ (List.getElem_mem hgi)
      rw [encodePtr_injective (hlog.symm.trans he')] at hb
      exact absurd hb (UInt32.not_lt.mpr ht)
    · have hlen : g<(older++[newest]++stale).length := by
        by_contra hge
        have hstop := h.log.stop (by omega)
        have hle : older.length ≤ (older++[newest]++stale).length := by
          simp only [List.length_append]
          omega
        exact hu _ hle (by omega) hstop
      have hlog := h.log.used g hlen
      simp only [List.length_append,List.length_singleton] at hlen
      rw [List.getElem_append_right (by rw [List.length_append,List.length_singleton]; omega)] at hlog
      have hp := h.passed _ (List.getElem_mem (by
        rw [List.length_append,List.length_singleton]
        omega : g-(older++[newest]).length<stale.length))
      rw [encodePtr_injective (hlog.symm.trans he')] at hp
      exact absurd ht (UInt32.not_lt.mpr hp)

end SafeLog

section Safe

variable {s : Archive}

/-- A clean archive with a safe log. -/
def Safe (A : StoredRecord → Prop) (s : Archive) : Prop := CleanInv A s ∧ SafeLog A s.zd25.mem

/-- An add of a record of the set keeps the archive safe. -/
theorem Safe.add (h : Safe A s) (env : Env) (record : MessageRecord) (hA : A (stored record)) :
    Safe A (addRecordToArchive env record s) := by
  obtain ⟨hi,hl⟩ := h
  refine ⟨hi.add env record hA,?_⟩
  by_cases hw : Wraps s
  · exact hl.write (hi.keeps_add env record hA) (writesPtr_add env record (hi.starts hw))
      (hi.nextPtr_clean env record hA hw)
  · exact hl.keep (hi.keeps_add env record hA) fun i hlt =>
      ptrSlot_add_not_wraps env record hi.aligned hw hlt

/-- A reboot keeps the archive safe. -/
theorem Safe.reboot (h : Safe A s) (env : Env) : Safe A (reboot env s) := by
  obtain ⟨hi,hl⟩ := h
  rcases reboot_cases env hl.pointers with ⟨s₁,hz,he⟩|⟨older,newest,stale,hf⟩
  · rw [←hz] at hl
    rw [he]
    have hhome : CleanTail A s₁.zd25.mem 127 := hz ▸ hi.home
    exact ⟨cleanInv_clear env (hz ▸ hi.packed) hhome,hl.write (keeps_clearArchive env s₁)
      (writesPtr_clearArchive env s₁) (cleanPtr_clear env hhome _)⟩
  · exact ⟨hf.cleanInv hi.packed hi.home (Finds.clean hf hl),hf.chip ▸ hl⟩

end Safe

section Left

variable {m₀ : Mem UInt8} {k p : ℕ} {s : Archive}

/-- The pointer log has the pointers `es` from slot `k` on and is erased
elsewhere. -/
structure LeftPointers (m : Mem UInt8) (k : ℕ) (es : List PagePtr) : Prop where
  /-- The first slot is erased. -/
  first : 0<k
  /-- The log has 512 slots. -/
  fits : k+es.length≤512
  /-- The erased slots before the pointers. -/
  before : ∀ i<k,ptrSlot m i=NorFlash.blank 8
  /-- The pointers. -/
  used : ∀ i (h : i<es.length),ptrSlot m (k+i)=encodePtr es[i]
  /-- The erased slots behind them. -/
  behind : ∀ i,k+es.length ≤ i → i<512 → ptrSlot m i=NorFlash.blank 8

/-- After a clear pages have been filled one after the other and the pointers
in the slots from `k` on have not been reached: the first slots of the log have
the pages 0 to `p`, and the others are as they were. -/
structure Filling (A : StoredRecord → Prop) (m₀ : Mem UInt8) (k p : ℕ) (s : Archive) : Prop where
  /-- The slots from `k` on have not been reached. -/
  short : p<k
  /-- The slots of the pages started. -/
  started : ∀ i≤p,∃ e,ptrSlot s.zd25.mem i=encodePtr e ∧ e.page=i%128
  /-- The other slots. -/
  rest : ∀ i,p < i → i<512 → ptrSlot s.zd25.mem i=ptrSlot m₀ i
  /-- The current page is one of those started, and the next pointer goes
  behind its pointer. -/
  place : ∃ i≤p,s.archivePageNum=i%128 ∧ s.offsetInPagePtrPage=8*(i+1)
  /-- No slot has been spoilt. -/
  keeps : Keeps A m₀ s.zd25.mem
  /-- The pages erased by the clear and those started are clean. -/
  cleaned : ∀ q<128,q<30 ∨ q≤p → CleanPage A s.zd25.mem q

/-- The pointers of the pages started are clean. -/
theorem Filling.cleanPtr (h : Filling A m₀ k p s) (hhome : CleanTail A s.zd25.mem 127) {i : ℕ}
    (hi : i≤p) {e : PagePtr} (he : e.page=i%128) : CleanPtr A s.zd25.mem e := by
  have hle := Nat.mod_le i 128
  have hlt := Nat.mod_lt i (by omega : 128>0)
  unfold CleanPtr
  rw [he]
  refine ⟨h.cleaned _ hlt (Or.inr (by omega)),?_⟩
  unfold prevPage RingWindow.behind
  by_cases h0 : i%128=0
  · rw [h0,if_neg (by omega)]
    exact hhome
  · rw [if_pos (by omega)]
    exact (h.cleaned _ (by omega) (Or.inr (by omega))).tail

/-- After a clear the first page is being filled. -/
theorem filling_clear (env : Env) {s₀ : Archive} {es : List PagePtr}
    (hl : LeftPointers s₀.zd25.mem k es) :
    Filling A s₀.zd25.mem k 0 (clearArchive env s₀) := by
  have hw := writesPtr_clearArchive env s₀
  have hb := hl.before 0 hl.first
  refine ⟨hl.first,fun i hi => ?_,fun i h0 hi => ?_,⟨0,le_rfl,?_,?_⟩,keeps_clearArchive env s₀,?_⟩
  · rw [Nat.le_zero.mp hi,hw 0 (by omega),if_pos rfl]
    exact ⟨_,rfl,rfl⟩
  · rw [hw i hi,if_neg (by omega),if_pos hb]
  · exact (clearArchive_vars env s₀).1
  · exact (clearArchive_vars env s₀).2.1
  · intro q hq hlt i hi
    left
    rw [dataSlot_clearArchive env s₀ q hi,if_pos (by omega)]

/-- An add keeps filling, reaches slot `k`, or erases the log. -/
theorem Filling.add (h : Filling A m₀ k p s) (hi : CleanInv A s) {es : List PagePtr}
    (hl : LeftPointers m₀ k es) (hpk : p+1<k) (env : Env) (record : MessageRecord)
    (hA : A (stored record)) :
    SafeLog A (addRecordToArchive env record s).zd25.mem ∨
      ∃ p'≥p,Filling A m₀ k p' (addRecordToArchive env record s) := by
  have hk := hi.keeps_add env record hA
  have hfits := hl.fits
  obtain ⟨i₀,hi₀,hpage,hoff⟩ := h.place
  by_cases hw : Wraps s
  · have hwr := writesPtr_add env record (hi.starts hw)
    have hidx : logIndex s=i₀+1 := by
      unfold logIndex
      rw [hoff,if_neg (by omega)]
      omega
    have hclean := hi.nextPtr_clean env record hA hw
    obtain ⟨hP,hO,_⟩ := hi.vars_wraps env record hw
    have hnew : (nextPtr env s hi.valid).page=(i₀+1)%128 := by
      change next 128 s.archivePageNum=(i₀+1)%128
      rw [hpage]
      unfold next
      split <;> omega
    rw [hidx] at hwr hO
    rcases Nat.lt_or_eq_of_le hi₀ with hlt|rfl
    · obtain ⟨e,he,_⟩ := h.started (i₀+1) hlt
      left
      refine safeLog_of_write_used hwr ?_ hclean
      rw [he]
      exact encodePtr_ne_blank e
    · have hb : ptrSlot s.zd25.mem (i₀+1)=NorFlash.blank 8 := by
        rw [h.rest (i₀+1) (by omega) (by omega)]
        exact hl.before (i₀+1) hpk
      right
      refine ⟨i₀+1,by omega,hpk,fun i hle => ?_,fun i hlt h512 => ?_,⟨i₀+1,le_rfl,?_,hO⟩,
        h.keeps.trans hk,fun q hq hor => ?_⟩
      · rw [hwr i (by omega)]
        split
        · rename_i hie
          exact ⟨_,rfl,by rw [hnew,hie]⟩
        · exact h.started i (by omega)
      · rw [hwr i h512,if_neg (by omega),if_pos hb]
        exact h.rest i (by omega) h512
      · rw [hP]
        exact hnew
      · by_cases hqn : q=(i₀+1)%128
        · rw [hqn,←hnew]
          exact hclean.1
        · have hmod : i₀+1<128 → (i₀+1)%128=i₀+1 := fun hlt => Nat.mod_eq_of_lt hlt
          exact (h.cleaned q hq (by omega)).keep hk
  · have hs := fun i hlt => ptrSlot_add_not_wraps env record hi.aligned hw (i:=i) hlt
    obtain ⟨hP,hO,_⟩ := hi.vars_not_wraps env record hw
    right
    refine ⟨p,le_rfl,h.short,fun i hle => ?_,fun i hlt h512 => ?_,⟨i₀,hi₀,hP.trans hpage,hO.trans hoff⟩,
      h.keeps.trans hk,fun q hq hor => (h.cleaned q hq hor).keep hk⟩
    · rw [hs i (by omega)]
      exact h.started i hle
    · rw [hs i h512]
      exact h.rest i hlt h512

/-- A reboot before slot `k` is reached reopens one of the pages started or
clears the archive and erases the log. -/
theorem Filling.reboot (h : Filling A m₀ k p s) (hi : CleanInv A s) (hp : Pointers s.zd25.mem)
    {es : List PagePtr} (hl : LeftPointers m₀ k es) (hpk : p+1<k) (env : Env) :
    CleanInv A (reboot env s) ∧ (SafeLog A (reboot env s).zd25.mem ∨ Filling A m₀ k p (reboot env s)) := by
  have hfits := hl.fits
  rcases reboot_cases env hp with ⟨s₁,hz,he⟩|⟨older,newest,stale,hf⟩
  · rw [he]
    have hhome : CleanTail A s₁.zd25.mem 127 := hz ▸ hi.home
    obtain ⟨e,he₀,_⟩ := h.started 0 (Nat.zero_le _)
    refine ⟨cleanInv_clear env (hz ▸ hi.packed) hhome,Or.inl ?_⟩
    refine safeLog_of_write_used (writesPtr_clearArchive env s₁) ?_ (cleanPtr_clear env hhome _)
    rw [hz,he₀]
    exact encodePtr_ne_blank e
  · obtain ⟨hlt,hslot⟩ := Finds.slot hf
    have hle : older.length≤p := by
      by_contra hgt
      have hlen : p+1<(older++[newest]++stale).length := by
        simp only [List.length_append,List.length_singleton]
        omega
      have hu := hf.log.used (p+1) hlen
      rw [h.rest (p+1) (by omega) (by omega),hl.before (p+1) hpk] at hu
      exact encodePtr_ne_blank _ hu.symm
    obtain ⟨e,he,hpage⟩ := h.started older.length hle
    cases encodePtr_injective (hslot.symm.trans he)
    refine ⟨hf.cleanInv hi.packed hi.home (h.cleanPtr hi.home hle hpage),Or.inr ?_⟩
    have hZ := hf.chip
    exact ⟨h.short,hZ ▸ h.started,hZ ▸ h.rest,⟨older.length,hle,hf.page.trans hpage,hf.offset⟩,
      hZ ▸ h.keeps,hZ ▸ h.cleaned⟩

/-- Once slot `k` is reached the log is safe, if the latest of the pointers
left is clean by then. -/
theorem Filling.safe {older stale : List PagePtr} {newest : PagePtr} (h : Filling A m₀ k p s)
    (hhome : CleanTail A s.zd25.mem 127) (hpk : p+1=k)
    (hl : LeftPointers m₀ k (older++[newest]++stale)) (hbelow : ∀ e∈older,e.time<newest.time)
    (hpassed : ∀ e∈stale,e.time≤newest.time) (hc : CleanPtr A s.zd25.mem newest) :
    SafeLog A s.zd25.mem := by
  have hfits := hl.fits
  have hrest : ∀ i (hi : i<(older++[newest]++stale).length),
      ptrSlot s.zd25.mem (k+i)=encodePtr (older++[newest]++stale)[i] := by
    intro i hi
    rw [h.rest (k+i) (by omega) (by omega)]
    exact hl.used i hi
  simp only [List.length_append,List.length_singleton] at hfits hrest
  have hnew : ptrSlot s.zd25.mem (k+older.length)=encodePtr newest := by
    rw [hrest older.length (by omega),
      List.getElem_append_left (by rw [List.length_append,List.length_singleton]; omega),
      List.getElem_concat_length rfl]
  intro i hi
  by_cases hik : i<k
  · obtain ⟨e,he,hpage⟩ := h.started i (by omega)
    exact Or.inr ⟨e,he,Or.inl (h.cleanPtr hhome (by omega) hpage)⟩
  · by_cases hib : i<k+(older.length+1+stale.length)
    · obtain ⟨a,rfl⟩ : ∃ a,i=k+a := ⟨i-k,by omega⟩
      refine Or.inr ⟨_,hrest a (by omega),?_⟩
      rcases Nat.lt_trichotomy a older.length with hlt|rfl|hgt
      · right
        refine ⟨k+older.length,by omega,newest,hnew,hc,Or.inr ⟨by omega,?_,fun j h0 h1 => ?_⟩⟩
        · rw [List.getElem_append_left (by rw [List.length_append]; omega),
            List.getElem_append_left hlt]
          exact hbelow _ (List.getElem_mem hlt)
        · obtain ⟨b,rfl⟩ : ∃ b,j=k+b := ⟨j-k,by omega⟩
          rw [hrest b (by omega)]
          exact encodePtr_ne_blank _
      · left
        rwa [List.getElem_append_left (by rw [List.length_append,List.length_singleton]; omega),
          List.getElem_concat_length rfl]
      · right
        refine ⟨k+older.length,by omega,newest,hnew,hc,Or.inl ⟨by omega,?_⟩⟩
        rw [List.getElem_append_right (by rw [List.length_append,List.length_singleton]; omega)]
        exact hpassed _ (List.getElem_mem _)
    · left
      rw [h.rest i (by omega) hi]
      exact hl.behind i (by simp only [List.length_append,List.length_singleton]; omega) hi

/-- Page `q` is neither erased by the clear nor refilled before slot `k` of
the log is reached, and its slot `i` is used. -/
def Remains (m : Mem UInt8) (k q i : ℕ) : Prop := 30≤q ∧ k≤q ∧ dataSlot m q i≠blankSlot

/-- A slot that does not remain is clean once slot `k` is reached, with those
behind it. -/
theorem Filling.clean_from (h : Filling A m₀ k p s) (hpacked : Packed m₀) (hpk : p+1=k) {q i : ℕ}
    (hq : q<128) (hi : i<256) (hr : ¬Remains m₀ k q i) :
    ∀ j<256,i≤j → Clean A (dataSlot s.zd25.mem q j) := by
  intro j hj hij
  by_cases hc : q<30 ∨ q≤p
  · exact h.cleaned q hq hc j hj
  · have hb : dataSlot m₀ q i=blankSlot := by
      by_contra hu
      exact hr ⟨by omega,by omega,hu⟩
    exact h.keeps q j hj (hpacked.clean_from hq hi hb j hj hij)

/-- A pointer to pages of which nothing remains is clean once slot `k` is
reached. -/
theorem Filling.left_clean (h : Filling A m₀ k p s) (hpacked : Packed m₀) (hpk : p+1=k)
    {e : PagePtr} (hpage : ¬Remains m₀ k e.page 0) (hprev : ¬Remains m₀ k (prevPage e.page) 1) :
    CleanPtr A s.zd25.mem e :=
  ⟨fun i hi => h.clean_from hpacked hpk e.valid (by omega) hpage i hi (Nat.zero_le _),
    fun i hi h0 => h.clean_from hpacked hpk (prevPage_lt e.valid) (by omega) hprev i hi h0⟩

end Left

section Runs

variable {m₀ : Mem UInt8} {k : ℕ} {older stale : List PagePtr} {newest : PagePtr} {s : Archive}

/-- Safe, or on the way to the pointers that the clear has left. -/
def OnTheWay (A : StoredRecord → Prop) (m₀ : Mem UInt8) (k : ℕ) (s : Archive) : Prop :=
  Safe A s ∨ CleanInv A s ∧ Pointers s.zd25.mem ∧ ∃ p,p+1<k ∧ Filling A m₀ k p s

/-- Hypotheses about pointers left by a clear of which nothing remains. -/
structure Harmless (m₀ : Mem UInt8) (k : ℕ) (older : List PagePtr) (newest : PagePtr)
    (stale : List PagePtr) : Prop where
  /-- The pointers left. -/
  left : LeftPointers m₀ k (older++[newest]++stale)
  /-- The newest one is later than those before it. -/
  below : ∀ e∈older,e.time<newest.time
  /-- Those behind it are not later. -/
  passed : ∀ e∈stale,e.time≤newest.time
  /-- The pages are filled from their first slots on. -/
  packed : Packed m₀
  /-- Nothing remains of its page. -/
  page : ¬Remains m₀ k newest.page 0
  /-- Nothing remains of the page before, behind its first slot. -/
  prev : ¬Remains m₀ k (prevPage newest.page) 1

/-- A page filled up to the pointers left is safe. -/
theorem Harmless.onTheWay (h : Harmless m₀ k older newest stale) {p : ℕ} (hi : CleanInv A s)
    (hp : Pointers s.zd25.mem) (hf : Filling A m₀ k p s) : OnTheWay A m₀ k s := by
  by_cases hpk : p+1=k
  · exact Or.inl ⟨hi,hf.safe hi.home hpk h.left h.below h.passed
      (hf.left_clean h.packed hpk h.page h.prev)⟩
  · have hshort := hf.short
    exact Or.inr ⟨hi,hp,p,by omega,hf⟩

/-- An add stays on the way. -/
theorem Harmless.add (h : Harmless m₀ k older newest stale) (hs : OnTheWay A m₀ k s) (env : Env)
    (record : MessageRecord) (hA : A (stored record)) :
    OnTheWay A m₀ k (addRecordToArchive env record s) := by
  rcases hs with hs|⟨hi,hp,p,hpk,hf⟩
  · exact Or.inl (hs.add env record hA)
  · have hi' := hi.add env record hA
    have hp' : Pointers (addRecordToArchive env record s).zd25.mem := by
      by_cases hw : Wraps s
      · exact hp.write (writesPtr_add env record (hi.starts hw))
      · exact hp.congr fun i hlt => ptrSlot_add_not_wraps env record hi.aligned hw hlt
    rcases hf.add hi h.left hpk env record hA with hl|⟨p',_,hf'⟩
    · exact Or.inl ⟨hi',hl⟩
    · exact h.onTheWay hi' hp' hf'

/-- A reboot stays on the way. -/
theorem Harmless.reboot (h : Harmless m₀ k older newest stale) (hs : OnTheWay A m₀ k s)
    (env : Env) : OnTheWay A m₀ k (reboot env s) := by
  rcases hs with hs|⟨hi,hp,p,hpk,hf⟩
  · exact Or.inl (hs.reboot env)
  · obtain ⟨hi',hl|hf'⟩ := hf.reboot hi hp h.left hpk env
    · exact Or.inl ⟨hi',hl⟩
    · refine Or.inr ⟨hi',?_,p,hpk,hf'⟩
      exact (wellFormed_reboot env hi.packed hp).pointers

end Runs

/-- After a clear at time `t` a reboot can reach an older record: in the log
with its erased first slot the first of the latest pointers is later than `t`,
and something remains of its page or, behind the first slot, of the page
before. -/
def Resurfaces (m : Mem UInt8) (t : UInt32) : Prop :=
  ∃ k older newest stale,LeftPointers m k (older++[newest]++stale) ∧
    (∀ e∈older,e.time<newest.time) ∧ (∀ e∈stale,e.time≤newest.time) ∧ t<newest.time ∧
    (Remains m k newest.page 0 ∨ Remains m k (prevPage newest.page) 1)

/-- The pointers left in a log whose used slots follow each other. -/
theorem leftPointers_of_trailing {m : Mem UInt8} {k b : ℕ} (hp : Pointers m) (hk : 0<k)
    (hkb : k<b) (hb : b≤512) (hslots : ∀ i<512,ptrSlot m i=NorFlash.blank 8 ↔ i<k ∨ b ≤ i) :
    ∃ es,LeftPointers m k es := by
  obtain ⟨es,hlen,hes⟩ := hp.exists_list k (b-k) (by omega) fun i h0 h1 he => by
    have hout := (hslots i (by omega)).mp he
    omega
  exact ⟨es,hk,by omega,fun i hi => (hslots i (by omega)).mpr (Or.inl hi),hes,
    fun i hi h512 => (hslots i h512).mpr (Or.inr (by omega))⟩

/-- Pointers that are not later than the clear are covered by its own. -/
theorem safeLog_of_passed (env : Env) {s₀ : Archive} {k : ℕ} {es : List PagePtr}
    (hl : LeftPointers s₀.zd25.mem k es) (hhome : CleanTail A s₀.zd25.mem 127)
    (hpassed : ∀ e∈es,e.time≤timeToUint32 env.rtc) :
    SafeLog A (clearArchive env s₀).zd25.mem := by
  have hw := writesPtr_clearArchive env s₀
  have h0 := hw 0 (by omega)
  rw [if_pos rfl] at h0
  have hfirst := hl.first
  have hc := cleanPtr_clear (A:=A) env hhome (timeToUint32 env.rtc)
  intro i hi
  by_cases hi0 : i=0
  · rw [hi0,h0]
    exact Or.inr ⟨_,rfl,Or.inl hc⟩
  rw [hw i hi,if_neg hi0,if_pos (hl.before 0 hfirst)]
  by_cases hik : i<k
  · exact Or.inl (hl.before i hik)
  · by_cases hib : i<k+es.length
    · obtain ⟨a,rfl⟩ : ∃ a,i=k+a := ⟨i-k,by omega⟩
      exact Or.inr ⟨_,hl.used a (by omega),Or.inr ⟨0,by omega,_,h0,hc,
        Or.inl ⟨by omega,hpassed _ (List.getElem_mem _)⟩⟩⟩
    · exact Or.inl (hl.behind i (by omega) hi)

/-- After a clear that leaves no way to an older record only later records are
shown. -/
theorem onlyShows_after_clear (env : Env) {s₀ : Archive} (hwf : WellFormed s₀)
    (htail : ∀ i<256,0 < i → dataSlot s₀.zd25.mem 127 i=blankSlot)
    (hres : ¬Resurfaces s₀.zd25.mem (timeToUint32 env.rtc)) (ops : List (Env×Op))
    (stack : Mem UInt8) : OnlyShows stack (run (clearArchive env s₀) ops) (added ops) := by
  have hpacked := hwf.clean.packed
  have hhome : CleanTail (·∈added ops) s₀.zd25.mem 127 := fun i hi h0 => Or.inl (htail i hi h0)
  have hi : CleanInv (·∈added ops) (clearArchive env s₀) := cleanInv_clear env hpacked hhome
  have hp := (wellFormed_clear env hpacked hwf.pointers).pointers
  have hsafe : SafeLog (·∈added ops) (clearArchive env s₀).zd25.mem →
      OnlyShows stack (run (clearArchive env s₀) ops) (added ops) := fun hl =>
    onlyShows_of_clean (run_keeps (I:=Safe (·∈added ops)) (fun _ env record hA h => Safe.add h env record hA)
      (fun _ env h => Safe.reboot h env) ⟨hi,hl⟩ ops fun _ hr => hr).1 stack
  rcases hwf.trailing with hu|⟨k,b,hk,hkb,hb,_,hslots⟩
  · exact hsafe (safeLog_of_write_used (writesPtr_clearArchive env s₀) hu (cleanPtr_clear env hhome _))
  · obtain ⟨es,hl⟩ := leftPointers_of_trailing hwf.pointers hk hkb hb hslots
    rcases exists_newest (timeToUint32 env.rtc) es with hall|⟨older,newest,stale,rfl,ht,hbelow,hpassed⟩
    · exact hsafe (safeLog_of_passed env hl hhome hall)
    · have hharm : Harmless s₀.zd25.mem k older newest stale :=
        ⟨hl,hbelow,hpassed,hpacked,
          fun h => hres ⟨k,older,newest,stale,hl,hbelow,hpassed,ht,Or.inl h⟩,
          fun h => hres ⟨k,older,newest,stale,hl,hbelow,hpassed,ht,Or.inr h⟩⟩
      have hrun := run_keeps (I:=OnTheWay (·∈added ops) s₀.zd25.mem k)
        (fun _ env record hA h => hharm.add h env record hA)
        (fun _ env h => hharm.reboot h env) (hharm.onTheWay hi hp (filling_clear env hl)) ops
        fun _ hr => hr
      rcases hrun with hs|⟨hclean,_⟩
      · exact onlyShows_of_clean hs.1 stack
      · exact onlyShows_of_clean hclean stack

end BT816Display.ArchiveClear
