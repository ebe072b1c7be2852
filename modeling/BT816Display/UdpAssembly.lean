import BT816Display.Lib.Runs
import BT816Display.Lib.LastOccurrence
import BT816Display.UdpLoader

/-!
# Blocks assembled from datagrams in any order

What a subpacket 3 writes to flash against the subpackets received for its
address, over every loss, repetition and interleaving of blocks. The loader
records no address with the buffer, so a block is sure to be intact exactly
when the last subpackets 0, 1 and 2 were its own.
-/

namespace BT816Display.UdpAssembly

open ByteMemory Runs LastOccurrence UdpLoader

/-- One quarter of the buffer. -/
def quarter (flBuf : Mem UInt8) (k : ℕ) : List UInt8 := load flBuf (1024*k) 1024

/-- The buffer is its four quarters. -/
theorem load_block (flBuf : Mem UInt8) :
    load flBuf 0 blockSize=quarter flBuf 0++quarter flBuf 1++quarter flBuf 2++quarter flBuf 3 := by
  have h3 := load_append flBuf 0 3072 1024
  have h2 := load_append flBuf 0 2048 1024
  have h1 := load_append flBuf 0 1024 1024
  dsimp only [Nat.reduceAdd] at h1 h2 h3
  dsimp only [blockSize,quarter,Nat.reduceMul]
  rw [h3,h2,h1]

/-- An accepted subpacket fills its quarter. -/
theorem quarter_assemble_same (flBuf : Mem UInt8) {r : Subpacket} (hr : r.payload.length=1024) :
    quarter (assemble flBuf r) r.num=r.payload := by
  have h := load_store_self (if r.num=0 then store flBuf 0 (List.replicate blockSize 0) else flBuf)
    (1024*r.num) r.payload
  rw [hr] at h
  exact h

/-- A subpacket other than 0 leaves the other quarters alone. -/
theorem quarter_assemble_other (flBuf : Mem UInt8) {r : Subpacket} (hr : r.payload.length=1024)
    (h0 : r.num≠0) {k : ℕ} (hk : k≠r.num) : quarter (assemble flBuf r) k=quarter flBuf k := by
  unfold quarter assemble
  dsimp only [packetDataSize]
  rw [if_neg h0]
  exact load_store_disjoint (by omega)

/-- Subpacket 0 clears the other quarters. -/
theorem quarter_assemble_clear (flBuf : Mem UInt8) {r : Subpacket} (hr : r.payload.length=1024)
    (h0 : r.num=0) {k : ℕ} (hk : 0<k) (hk4 : k<4) :
    quarter (assemble flBuf r) k=List.replicate 1024 0 := by
  have hrest : load (store (store flBuf 0 (List.replicate 4096 0)) 0 r.payload) (1024*k) 1024=
      load (store flBuf 0 (List.replicate 4096 0)) (1024*k) 1024 := load_store_disjoint (by omega)
  have hzero : load (store flBuf 0 (List.replicate 4096 0)) (1024*k) 1024=List.replicate 1024 0 := by
    rw [List.eq_replicate_iff]
    refine ⟨load_length _ _ _,fun b hb => ?_⟩
    obtain ⟨i,hi,rfl⟩ := List.mem_map.mp hb
    have hi' := List.mem_range.mp hi
    have hlen : (List.replicate 4096 (0 : UInt8)).length=4096 := List.length_replicate
    rw [store_apply_of_lt (by omega) (by rw [hlen]; omega)]
    exact List.eq_of_mem_replicate (List.getElem_mem _)
  unfold quarter assemble
  dsimp only [packetDataSize,blockSize]
  rw [if_pos h0,h0,Nat.mul_zero,hrest,hzero]

/-- Subpackets with a number. -/
def Numbered (k : ℕ) (r : Subpacket) : Prop := r.num=k

/-- Subpackets with a number for an address. -/
def Carries (addr : UInt32) (k : ℕ) (r : Subpacket) : Prop := r.addr=addr ∧ r.num=k

/-- The buffer holds the last subpacket 0 and the last one of every other
number since, and zeros where there was none. -/
def Assembles (rs : List Subpacket) (flBuf : Mem UInt8) : Prop :=
  ∀ r₀ since,Last (Numbered 0) rs r₀ since →
    quarter flBuf 0=r₀.payload ∧
      (∀ k x later,0<k → Last (Numbered k) since x later → quarter flBuf k=x.payload) ∧
        ∀ k,0<k → k<4 → (∀ y∈since,¬Numbered k y) → quarter flBuf k=List.replicate 1024 0

/-- Accepting a subpacket keeps the buffer in step. -/
theorem Assembles.step {rs : List Subpacket} {flBuf : Mem UInt8} (h : Assembles rs flBuf)
    {r : Subpacket} (hr : r.payload.length=1024) : Assembles (rs++[r]) (assemble flBuf r) := by
  intro r₀ since hlast
  by_cases h0 : Numbered 0 r
  · obtain ⟨rfl,rfl⟩ := (last_concat_of_prop h0).mp hlast
    have hsame := quarter_assemble_same flBuf hr
    rw [show r₀.num=0 from h0] at hsame
    exact ⟨hsame,fun k x later _ hx => absurd hx not_last_nil,
      fun k hk hk4 _ => quarter_assemble_clear flBuf hr h0 hk hk4⟩
  · obtain ⟨since',rfl,hlast'⟩ := (last_concat_of_not h0).mp hlast
    obtain ⟨hq0,hq,hblank⟩ := h r₀ since' hlast'
    refine ⟨?_,fun k x later hk hx => ?_,fun k hk hk4 hnone => ?_⟩
    · rw [quarter_assemble_other flBuf hr h0 (Ne.symm h0)]
      exact hq0
    · by_cases hkr : Numbered k r
      · obtain ⟨rfl,-⟩ := (last_concat_of_prop hkr).mp hx
        have hsame := quarter_assemble_same flBuf hr
        rwa [show x.num=k from hkr] at hsame
      · obtain ⟨later',-,hx'⟩ := (last_concat_of_not hkr).mp hx
        rw [quarter_assemble_other flBuf hr h0 (Ne.symm hkr)]
        exact hq k x later' hk hx'
    · have hkr : ¬Numbered k r := hnone r (List.mem_append_right _ (List.mem_singleton.mpr rfl))
      rw [quarter_assemble_other flBuf hr h0 (Ne.symm hkr)]
      exact hblank k hk hk4 fun y hy => hnone y (List.mem_append_left _ hy)

/-- The buffer is in step after every run. -/
theorem assembles_run (s₀ : Loader) (ops : List LoaderOp) :
    Assembles (loaderRun s₀ ops).received (loaderRun s₀ ops).loader.flBuf := by
  induction ops using List.reverseRecOn with
  | nil => exact fun r₀ since h => absurd h not_last_nil
  | append_singleton ops op ih =>
    rw [loaderRun_concat]
    unfold runStep
    dsimp only
    cases ha : accepted (loaderRun s₀ ops).loader op with
    | none =>
      rw [(loaderStep_of_not_accepted ha).1]
      exact (List.append_nil (loaderRun s₀ ops).received).symm ▸ ih
    | some r =>
      rw [(loaderStep_of_accepted ha).1]
      exact ih.step (accepted_wellFormed ha).2

/-- The bytes are the last payloads of the four subpackets for an address, all
received since the last subpacket 0 for it. -/
def Intact (rs : List Subpacket) (u : FlashUpdate) : Prop :=
  ∃ r₀ since,Last (Carries u.addr 0) rs r₀ since ∧
    ∃ r₁ later₁ r₂ later₂ r₃ later₃,
      Last (Carries u.addr 1) since r₁ later₁ ∧ Last (Carries u.addr 2) since r₂ later₂ ∧
        Last (Carries u.addr 3) since r₃ later₃ ∧
          u.bytes=r₀.payload++r₁.payload++r₂.payload++r₃.payload

/-- An accepted subpacket is received. -/
theorem received_of_accepted {s₀ : Loader} {pre : List LoaderOp} {op : LoaderOp} {r : Subpacket}
    (ha : accepted (loaderRun s₀ pre).loader op=some r) :
    (loaderRun s₀ (pre++[op])).received=(loaderRun s₀ pre).received++[r] := by
  rw [loaderRun_concat]
  unfold runStep
  rw [ha]
  rfl

/-- Every flash update that the input executes is intact. -/
def IntactUpdates (s₀ : Loader) (pre : List LoaderOp) (op : LoaderOp) : Prop :=
  ∀ u∈(loaderStep (loaderRun s₀ pre).loader op).updates,
    Intact (loaderRun s₀ (pre++[op])).received u

/-- When a subpacket 3 is accepted, the last subpacket 0 carried its address,
and so did the last subpackets 1 and 2, both received since. -/
def BlockComplete (s₀ : Loader) (pre : List LoaderOp) (op : LoaderOp) : Prop :=
  ∀ r,accepted (loaderRun s₀ pre).loader op=some r → r.num=3 →
    ∃ r₀ since,Last (Numbered 0) (loaderRun s₀ pre).received r₀ since ∧ r₀.addr=r.addr ∧
      (∃ r₁ later,Last (Numbered 1) since r₁ later ∧ r₁.addr=r.addr) ∧
        ∃ r₂ later,Last (Numbered 2) since r₂ later ∧ r₂.addr=r.addr

/-- A subpacket of an address and a number has that number. -/
theorem numbered_of_carries {addr : UInt32} {k : ℕ} (r : Subpacket) (h : Carries addr k r) :
    Numbered k r := h.2

/-- A complete block is written intact. -/
theorem intactUpdates_of_complete {s₀ : Loader} {pre : List LoaderOp} {op : LoaderOp}
    (h : BlockComplete s₀ pre op) : IntactUpdates s₀ pre op := by
  intro u hu
  cases ha : accepted (loaderRun s₀ pre).loader op with
  | none =>
    rw [(loaderStep_of_not_accepted ha).2] at hu
    exact absurd hu List.not_mem_nil
  | some r =>
    have hr := accepted_wellFormed ha
    rw [(loaderStep_of_accepted ha).2] at hu
    by_cases h3 : r.num=3
    · rw [if_pos h3,List.mem_singleton] at hu
      subst hu
      obtain ⟨r₀,since,h0,ha0,⟨r₁,later₁,h1,ha1⟩,r₂,later₂,h2,ha2⟩ := h r ha h3
      obtain ⟨hq0,hq,-⟩ := assembles_run s₀ pre r₀ since h0
      have hn0 : ¬Numbered 0 r := fun h0' => by rw [show r.num=0 from h0'] at h3; cases h3
      have hne : ∀ k,k≠3 → k≠r.num := fun k hk he => hk (he.trans h3)
      have hother : ∀ k,k≠3 → quarter (assemble (loaderRun s₀ pre).loader.flBuf r) k=
          quarter (loaderRun s₀ pre).loader.flBuf k :=
        fun k hk => quarter_assemble_other _ hr.2 hn0 (hne k hk)
      have hreceived := received_of_accepted ha
      have hbehind : ∀ {k : ℕ} {l : List Subpacket} {x : Subpacket} {later : List Subpacket},k≠3 →
          x.addr=r.addr → Last (Numbered k) l x later →
            Last (Carries r.addr k) (l++[r]) x (later++[r]) := by
        intro k l x later hk hx hlast
        have hnk : ¬Numbered k r := fun he => hne k hk he.symm
        refine ((last_concat_of_not hnk).mpr ⟨later,rfl,hlast⟩).refine ⟨hx,hlast.prop⟩ ?_
        exact numbered_of_carries
      rw [hreceived]
      refine ⟨r₀,since++[r],hbehind (by omega) ha0 h0,r₁,later₁++[r],r₂,later₂++[r],r,[],
        hbehind (by omega) ha1 h1,hbehind (by omega) ha2 h2,?_,?_⟩
      · exact (last_concat_of_prop ⟨rfl,h3⟩).mpr ⟨rfl,rfl⟩
      · dsimp only
        rw [load_block,hother 0 (by omega),hother 1 (by omega),hother 2 (by omega),hq0,
          hq 1 r₁ later₁ (by omega) h1,hq 2 r₂ later₂ (by omega) h2]
        have hsame := quarter_assemble_same (loaderRun s₀ pre).loader.flBuf hr.2
        rw [h3] at hsame
        rw [hsame]
    · rw [if_neg h3] at hu
      exact absurd hu List.not_mem_nil

/-! ## Runs that differ in payloads only -/

/-- Datagrams of the same length with equal bytes in front of the payload. -/
inductive SameHeader : LoaderOp → LoaderOp → Prop where
  /-- Two datagrams. -/
  | datagram {rx rx' : Mem UInt8} {rxCnt : ℕ} (h : ∀ i<13,rx i=rx' i) :
    SameHeader (.datagram rx rxCnt) (.datagram rx' rxCnt)
  /-- The same key. -/
  | key (progModeFlag : UInt8) : SameHeader (.key progModeFlag) (.key progModeFlag)

/-- Subpackets of the same address and number. -/
def SameSlot (r r' : Subpacket) : Prop := r.addr=r'.addr ∧ r.num=r'.num

/-- The programming mode flag depends on the headers of the datagrams only. -/
theorem progModeFlag_sameHeader {s s' : Loader} {op op' : LoaderOp}
    (hs : s.progModeFlag=s'.progModeFlag) (h : SameHeader op op') :
    (loaderStep s op).loader.progModeFlag=(loaderStep s' op').loader.progModeFlag := by
  cases h with
  | key progModeFlag => rfl
  | datagram h =>
    unfold loaderStep
    rw [udpAnswer_progModeFlag,udpAnswer_progModeFlag,hs,h 0 (by omega),h 1 (by omega),
      h 2 (by omega),h 3 (by omega),h 6 (by omega),h 7 (by omega)]

/-- Which subpackets are accepted depends on the headers only. -/
theorem accepted_sameHeader {s s' : Loader} {op op' : LoaderOp}
    (hs : s.progModeFlag=s'.progModeFlag) (h : SameHeader op op') :
    List.Forall₂ SameSlot (accepted s op).toList (accepted s' op').toList := by
  cases h with
  | key progModeFlag => exact .nil
  | datagram h =>
    unfold accepted updateRequest
    dsimp only
    rw [hs,h 0 (by omega),h 1 (by omega),h 2 (by omega),h 3 (by omega),h 6 (by omega),
      h 7 (by omega),h 8 (by omega),h 9 (by omega),h 10 (by omega),h 11 (by omega),
      h 12 (by omega)]
    split_ifs
    · exact .cons ⟨rfl,rfl⟩ .nil
    · exact .nil
    · exact .nil

/-- Runs that differ in payloads only accept subpackets of the same addresses
and numbers. -/
theorem run_sameHeader (s₀ : Loader) {ops ops' : List LoaderOp}
    (h : List.Forall₂ SameHeader ops ops') :
    (loaderRun s₀ ops).loader.progModeFlag=(loaderRun s₀ ops').loader.progModeFlag ∧
      List.Forall₂ SameSlot (loaderRun s₀ ops).received (loaderRun s₀ ops').received := by
  have hfold : ∀ s s' : LoaderRun,s.loader.progModeFlag=s'.loader.progModeFlag →
      List.Forall₂ SameSlot s.received s'.received →
        (ops.foldl runStep s).loader.progModeFlag=(ops'.foldl runStep s').loader.progModeFlag ∧
          List.Forall₂ SameSlot (ops.foldl runStep s).received (ops'.foldl runStep s').received := by
    induction h with
    | nil => exact fun s s' hmode hrec => ⟨hmode,hrec⟩
    | cons hop _ ih =>
      intro s s' hmode hrec
      exact ih _ _ (progModeFlag_sameHeader hmode hop)
        (List.rel_append hrec (accepted_sameHeader hmode hop))
  exact hfold ⟨s₀,[]⟩ ⟨s₀,[]⟩ rfl .nil

/-- Related subpackets have the same number. -/
theorem numbered_sameSlot {k : ℕ} (r r' : Subpacket) (h : SameSlot r r') :
    Numbered k r ↔ Numbered k r' := by
  unfold Numbered
  rw [h.2]

/-- Completeness of a block does not look at payloads. -/
theorem blockComplete_sameHeader {s₀ : Loader} {pre pre' : List LoaderOp} {op op' : LoaderOp}
    (hpre : List.Forall₂ SameHeader pre pre') (hop : SameHeader op op')
    (h : BlockComplete s₀ pre op) : BlockComplete s₀ pre' op' := by
  intro r' ha' h3'
  obtain ⟨hmode,hrec⟩ := run_sameHeader s₀ hpre
  have hacc := accepted_sameHeader hmode hop
  rw [ha'] at hacc
  cases ha : accepted (loaderRun s₀ pre).loader op with
  | none =>
    rw [ha] at hacc
    cases hacc
  | some r =>
    rw [ha] at hacc
    have hrr : SameSlot r r' := by
      cases hacc with
      | cons hrr _ => exact hrr
    obtain ⟨r₀,since,h0,ha0,⟨r₁,later₁,h1,ha1⟩,r₂,later₂,h2,ha2⟩ := h r ha (hrr.2.trans h3')
    obtain ⟨r₀',since',h0',hr0,hsince⟩ := h0.related numbered_sameSlot hrec
    obtain ⟨r₁',later₁',h1',hr1,-⟩ := h1.related numbered_sameSlot hsince
    obtain ⟨r₂',later₂',h2',hr2,-⟩ := h2.related numbered_sameSlot hsince
    have haddr : ∀ {x x' : Subpacket},SameSlot x x' → x.addr=r.addr → x'.addr=r'.addr :=
      fun hx he => hx.1.symm.trans (he.trans hrr.1)
    exact ⟨r₀',since',h0',haddr hr0 ha0,⟨r₁',later₁',h1',haddr hr1 ha1⟩,r₂',later₂',h2',
      haddr hr2 ha2⟩

/-- Having the same header is symmetric. -/
theorem sameHeader_symm {op op' : LoaderOp} (h : SameHeader op op') : SameHeader op' op := by
  cases h with
  | key progModeFlag => exact .key progModeFlag
  | datagram h => exact .datagram fun i hi => (h i hi).symm

/-- The datagram of a buffer with its payload replaced by ones for an address,
and by twos for every other. -/
def paintBytes (addr : UInt32) (rx : Mem UInt8) : Mem UInt8 := fun i =>
  if i<13 then rx i
  else if BigEndian.join32 (rx 8) (rx 9) (rx 10) (rx 11)=addr then 1 else 2

/-- The same input with painted payload. -/
def paint (addr : UInt32) : LoaderOp → LoaderOp
  | .datagram rx rxCnt => .datagram (paintBytes addr rx) rxCnt
  | .key progModeFlag => .key progModeFlag

/-- Painting keeps the header. -/
theorem sameHeader_paint (addr : UInt32) (op : LoaderOp) : SameHeader op (paint addr op) := by
  cases op with
  | key progModeFlag => exact .key progModeFlag
  | datagram rx rxCnt => exact .datagram fun i hi => (if_pos hi).symm

/-- Painting a run keeps every header. -/
theorem sameHeader_map_paint (addr : UInt32) (ops : List LoaderOp) :
    List.Forall₂ SameHeader ops (ops.map (paint addr)) := by
  rw [List.forall₂_map_right_iff,List.forall₂_same]
  exact fun op _ => sameHeader_paint addr op

/-- The payload painted for an address. -/
def Painted (addr : UInt32) (r : Subpacket) : Prop :=
  r.payload=List.replicate 1024 (if r.addr=addr then 1 else 2)

/-- Every subpacket accepted from a painted run is painted. -/
theorem painted_of_accepted {s : Loader} {addr : UInt32} {op : LoaderOp} {r : Subpacket}
    (h : accepted s (paint addr op)=some r) : Painted addr r := by
  cases op with
  | key progModeFlag => cases h
  | datagram rx rxCnt =>
    obtain ⟨rfl,-⟩ := updateRequest_of_accepted h
    unfold Painted
    dsimp only
    rw [List.eq_replicate_iff]
    refine ⟨load_length _ _ _,fun b hb => ?_⟩
    obtain ⟨i,-,rfl⟩ := List.mem_map.mp hb
    exact if_neg (by omega)

/-- In a painted run all received payloads are painted. -/
theorem painted_received (s₀ : Loader) (addr : UInt32) (ops : List LoaderOp) :
    ∀ r∈(loaderRun s₀ (ops.map (paint addr))).received,Painted addr r := by
  induction ops using List.reverseRecOn with
  | nil => exact fun r hr => absurd hr List.not_mem_nil
  | append_singleton ops op ih =>
    rw [List.map_append,List.map_singleton,loaderRun_concat]
    intro r hr
    rcases List.mem_append.mp hr with hr|hr
    · exact ih r hr
    · exact painted_of_accepted (Option.mem_toList.mp hr)

/-- A painted payload of ones has the address. -/
theorem addr_of_ones {addr : UInt32} {r : Subpacket} (h : Painted addr r)
    (hones : r.payload=List.replicate 1024 1) : r.addr=addr := by
  by_contra hne
  unfold Painted at h
  rw [if_neg hne,hones] at h
  have hhead := congrArg List.head? h
  rw [List.head?_replicate,List.head?_replicate] at hhead
  exact absurd hhead (by decide)

/-- A painted subpacket of the address carries ones. -/
theorem ones_of_addr {addr : UInt32} {r : Subpacket} (h : Painted addr r) (ha : r.addr=addr) :
    r.payload=List.replicate 1024 1 := by
  unfold Painted at h
  rwa [if_pos ha] at h

/-- A painted block that is written intact is complete. -/
theorem complete_of_painted {s₀ : Loader} {pre : List LoaderOp} {op : LoaderOp} {r : Subpacket}
    (ha : accepted (loaderRun s₀ pre).loader op=some r) (h3 : r.num=3)
    (hpaint : ∀ y∈(loaderRun s₀ pre).received,Painted r.addr y) (hr : Painted r.addr r)
    (hintact : IntactUpdates s₀ pre op) : BlockComplete s₀ pre op := by
  intro r' ha' _
  rw [ha] at ha'
  cases ha'
  have hlen := (accepted_wellFormed ha).2
  have hn0 : ¬Numbered 0 r := fun h0 => by rw [show r.num=0 from h0] at h3; cases h3
  have hupdates := (loaderStep_of_accepted ha).2
  rw [if_pos h3] at hupdates
  have hreceived := received_of_accepted ha
  obtain ⟨r₀,since,h0,r₁,later₁,r₂,later₂,r₃,later₃,h1,h2,h3',hbytes⟩ :=
    hintact _ (by rw [hupdates]; exact List.mem_singleton.mpr rfl)
  rw [hreceived] at h0
  dsimp only at h0 h1 h2 h3' hbytes
  have hones : ∀ {k : ℕ} {y : Subpacket},y∈(loaderRun s₀ pre).received++[r] → Carries r.addr k y →
      y.payload=List.replicate 1024 1 := by
    intro k y hy hc
    rcases List.mem_append.mp hy with hy|hy
    · exact ones_of_addr (hpaint y hy) hc.1
    · rw [List.mem_singleton.mp hy]
      exact ones_of_addr hr rfl
  -- the buffer is four quarters of ones
  rw [load_block,hones h0.mem h0.prop,hones (h0.mem_of_rest h1.mem) h1.prop,
    hones (h0.mem_of_rest h2.mem) h2.prop,hones (h0.mem_of_rest h3'.mem) h3'.prop] at hbytes
  have hql : ∀ k,(quarter (assemble (loaderRun s₀ pre).loader.flBuf r) k).length=
      (List.replicate 1024 (1 : UInt8)).length := by
    intro k
    rw [List.length_replicate]
    exact load_length _ _ _
  obtain ⟨hb2,-⟩ := List.append_inj' hbytes (hql 3)
  obtain ⟨hb1,hq2⟩ := List.append_inj' hb2 (hql 2)
  obtain ⟨hq0,hq1⟩ := List.append_inj' hb1 (hql 1)
  have hother : ∀ k,k≠3 → quarter (assemble (loaderRun s₀ pre).loader.flBuf r) k=
      quarter (loaderRun s₀ pre).loader.flBuf k :=
    fun k hk => quarter_assemble_other _ hlen hn0 fun he => hk (he.trans h3)
  rw [hother 0 (by omega)] at hq0
  rw [hother 1 (by omega)] at hq1
  rw [hother 2 (by omega)] at hq2
  -- its subpacket 0 is one received before
  obtain ⟨since',-,h0'⟩ := (last_concat_of_not fun hc => hn0 hc.2).mp h0
  obtain ⟨x₀,since₀,hx0⟩ : ∃ x₀ since₀,Last (Numbered 0) (loaderRun s₀ pre).received x₀ since₀ :=
    exists_last ⟨r₀,h0'.mem,h0'.prop.2⟩
  obtain ⟨hqx,hqk,hblank⟩ := assembles_run s₀ pre x₀ since₀ hx0
  have hslot : ∀ k,0<k → k<4 → quarter (loaderRun s₀ pre).loader.flBuf k=List.replicate 1024 1 →
      ∃ x later,Last (Numbered k) since₀ x later ∧ x.addr=r.addr := by
    intro k hk hk4 hone
    by_cases hex : ∃ y∈since₀,Numbered k y
    · obtain ⟨x,later,hx⟩ := exists_last hex
      refine ⟨x,later,hx,addr_of_ones (hpaint x (hx0.mem_of_rest hx.mem)) ?_⟩
      rw [←hqk k x later hk hx]
      exact hone
    · have hzero := hblank k hk hk4 fun y hy hn => hex ⟨y,hy,hn⟩
      rw [hzero] at hone
      have hhead := congrArg List.head? hone
      rw [List.head?_replicate,List.head?_replicate] at hhead
      exact absurd hhead (by decide)
  exact ⟨x₀,since₀,hx0,addr_of_ones (hpaint x₀ hx0.mem) (hqx.symm.trans hq0),
    hslot 1 (by omega) (by omega) hq1,hslot 2 (by omega) (by omega) hq2⟩

/-- Two runs with the same headers, the other way round. -/
theorem forall₂_sameHeader_symm {ops ops' : List LoaderOp} (h : List.Forall₂ SameHeader ops ops') :
    List.Forall₂ SameHeader ops' ops := by
  induction h with
  | nil => exact .nil
  | cons hop _ ih => exact .cons (sameHeader_symm hop) ih

/-- Whatever the payloads are, every block written to flash is intact, exactly
when every subpacket 3 accepted completes its block. -/
theorem intact_iff_blocks_complete (s₀ : Loader) (ops : List LoaderOp) :
    (∀ ops',List.Forall₂ SameHeader ops ops' → InputsMeet (IntactUpdates s₀) ops') ↔
      InputsMeet (BlockComplete s₀) ops := by
  constructor
  · intro hall pre op post he r ha h3
    subst he
    have hpre := sameHeader_map_paint r.addr pre
    have hop := sameHeader_paint r.addr op
    have hacc := accepted_sameHeader (run_sameHeader s₀ hpre).1 hop
    obtain ⟨r',ha',hrr⟩ : ∃ r',accepted (loaderRun s₀ (pre.map (paint r.addr))).loader
        (paint r.addr op)=some r' ∧ SameSlot r r' := by
      rw [ha] at hacc
      cases ha' : accepted (loaderRun s₀ (pre.map (paint r.addr))).loader (paint r.addr op) with
      | none =>
        rw [ha'] at hacc
        cases hacc
      | some r' =>
        rw [ha'] at hacc
        cases hacc with
        | cons hrr _ => exact ⟨r',rfl,hrr⟩
    have hintact := hall _ (sameHeader_map_paint r.addr (pre++op::post))
      (pre.map (paint r.addr)) (paint r.addr op) (post.map (paint r.addr))
      (by rw [List.map_append,List.map_cons])
    have hcomplete := complete_of_painted ha' (hrr.2.symm.trans h3)
      (hrr.1 ▸ painted_received s₀ r.addr pre) (hrr.1 ▸ painted_of_accepted ha') hintact
    exact blockComplete_sameHeader (forall₂_sameHeader_symm hpre) (sameHeader_symm hop) hcomplete r
      ha h3
  · intro h ops' hsame pre' op' post' he
    subst he
    obtain ⟨pre,op,post,rfl,hpre,hop,-⟩ := split_of_forall₂ (forall₂_sameHeader_symm hsame)
    exact intactUpdates_of_complete (blockComplete_sameHeader (forall₂_sameHeader_symm hpre)
      (sameHeader_symm hop) (h pre op post rfl))

/-- The loader in program mode. -/
def programLoader : Loader where
  progModeFlag := 1
  rstFlag := 0
  rstTmr := 0
  currentMenu := .prog
  progMenuCmd := 0
  firstVisibleMessageNum := 0
  flBuf := fun _ => 0
  udpTx := fun _ => 0
  ram := fun _ => 0
  flash := fun _ => 0xFF

/-- A subpacket of ones for address 4096. -/
def onesDatagram (num : UInt8) : LoaderOp :=
  .datagram (fun i => [1,0x42,0x54,1,0,0,0,1,0,0,0x10,0,num].getD i 1) 1037

/-- With subpacket 1 lost, subpacket 3 is answered with success and writes a
block to flash that is not intact. -/
theorem lost_subpacket_not_intact :
    (loaderStep (loaderRun programLoader [onesDatagram 0,onesDatagram 2]).loader
        (onesDatagram 3)).res=9 ∧
      ¬IntactUpdates programLoader [onesDatagram 0,onesDatagram 2] (onesDatagram 3) := by
  refine ⟨by decide +kernel,fun h => ?_⟩
  obtain ⟨r,ha,h3⟩ : ∃ r,accepted (loaderRun programLoader [onesDatagram 0,onesDatagram 2]).loader
      (onesDatagram 3)=some r ∧ r.num=3 := ⟨_,rfl,rfl⟩
  have hupdates := (loaderStep_of_accepted ha).2
  rw [if_pos h3] at hupdates
  obtain ⟨r₀,since,h0,r₁,later₁,-,-,-,-,h1,-⟩ :=
    h _ (by rw [hupdates]; exact List.mem_singleton.mpr rfl)
  have hmem : r₁.num∈((loaderRun programLoader
      ([onesDatagram 0,onesDatagram 2]++[onesDatagram 3])).received.map Subpacket.num) :=
    List.mem_map_of_mem (h0.mem_of_rest h1.mem)
  rw [show r₁.num=1 from h1.prop.2] at hmem
  exact absurd hmem (by decide +kernel)

end BT816Display.UdpAssembly
