import BT816Display.PanelRun

/-!
# The two copies of the variables

Cluster and net variables are kept in plc_data.c and in the cluster structure.
The receiver, the operator's writes and the reset each store to both copies of
a variable or to none.
-/

namespace BT816Display.PlcMirror

open ByteMemory BigEndian ArrayAccess PlcData CanTxStack CanCmd CanRx PanelRun

/-- The copies agree element by element. -/
structure Mirror (m : Arrays Val) : Prop where
  /-- Cluster bits. -/
  clustBits : ∀ i<clustBitsCnt,(m .plcClustBits i : UInt8)=m .clClusterBits i
  /-- Net bits. -/
  netBits : ∀ i<netBitsCnt,(m .plcNetBits i : UInt8)=m .clNetBits i
  /-- Cluster registers. -/
  clustRegs : ∀ i<clusterRegsCnt,(m .plcClustRegs i : UInt16)=m .clClusterRegs i
  /-- Net registers. -/
  netRegs : ∀ i<netRegsCnt,(m .plcNetRegs i : UInt16)=m .clNetRegs i

/-- The two copies of every variable are related. -/
def Both (R : ℕ → ℕ → Prop) (m : Arrays Val) : Prop := ∀ v,R (plcVar m v) (clVar m v)

/-- Arrays that agree on both sides are mirrored. -/
theorem mirror_of_both {m : Arrays Val} (h : Both Eq m) : Mirror m where
  clustBits := fun i _ => UInt8.toNat_inj.mp (h ⟨.clustBit,i⟩)
  netBits := fun i _ => UInt8.toNat_inj.mp (h ⟨.netBit,i⟩)
  clustRegs := fun i _ => UInt16.toNat_inj.mp (h ⟨.clustReg,i⟩)
  netRegs := fun i _ => UInt16.toNat_inj.mp (h ⟨.netReg,i⟩)

/-- The arrays of the variables. -/
def varNames : List ArrayName :=
  [.plcClustBits,.plcClustRegs,.plcNetBits,.plcNetRegs,.clClusterBits,.clClusterRegs,.clNetBits,
    .clNetRegs]

/-- The PLC array of a kind is one of the variable arrays. -/
theorem plcName_mem (k : VarKind) : k.plcName∈varNames := by cases k <;> decide

/-- So is the cluster array of a kind. -/
theorem clName_mem (k : VarKind) : k.clName∈varNames := by cases k <;> decide

/-! ## Accesses that keep the copies related -/

section Both

variable {R : ℕ → ℕ → Prop}

/-- Accesses to other arrays leave both copies alone. -/
theorem both_keeps_other {accesses : List (Access Val)} (h : ∀ a∈accesses,a.array∉varNames) :
    Keeps (Both R) accesses := by
  intro m hm v
  have hplc : plcVar (accesses.foldl perform m) v=plcVar m v := by
    unfold plcVar
    rw [foldl_of_not_stored fun a ha he => absurd (he ▸ plcName_mem v.kind) (h a ha)]
  have hcl : clVar (accesses.foldl perform m) v=clVar m v := by
    unfold clVar
    rw [foldl_of_not_stored fun a ha he => absurd (he ▸ clName_mem v.kind) (h a ha)]
  rw [hplc,hcl]
  exact hm v

/-- Storing related values to both copies of a variable. -/
theorem Both.setVar {m : Arrays Val} (h : Both R m) {v : Variable} {a : Val v.kind.plcName}
    {b : Val v.kind.clName} (hab : R (v.kind.plcNat a) (v.kind.clNat b)) :
    Both R (setVar m v a b) := by
  intro w
  by_cases hw : w=v
  · subst hw
    rw [plcVar_setVar,clVar_setVar]
    exact hab
  · rw [plcVar_setVar_of_ne m v a b hw,clVar_setVar_of_ne m v a b hw]
    exact h w

/-- The store to plc_data.c comes first. -/
theorem both_keeps_pair (k : VarKind) (n : ℤ) {a : Val k.plcName} {b : Val k.clName}
    (hab : R (k.plcNat a) (k.clNat b)) :
    Keeps (Both R) [.store k.plcName n a,.store k.clName n b] :=
  fun _ hm => hm.setVar (v:=⟨k,n.toNat⟩) hab

/-- The store to the cluster structure comes first. -/
theorem both_keeps_pair' (k : VarKind) (n : ℤ) {a : Val k.plcName} {b : Val k.clName}
    (hab : R (k.plcNat a) (k.clNat b)) :
    Keeps (Both R) [.store k.clName n b,.store k.plcName n a] := by
  intro m hm
  have h := hm.setVar (v:=⟨k,n.toNat⟩) hab
  rw [←foldl_storesVar] at h
  exact h

/-- A store to the cluster structure only, of a value that every copy is related to. -/
theorem both_keeps_cl (k : VarKind) (n : ℤ) {b : Val k.clName}
    (hb : ∀ x y,R x y → R x (k.clNat b)) : Keeps (Both R) [.store k.clName n b] := by
  intro m hm w
  have hplc : plcVar (m.set k.clName n.toNat b) w=plcVar m w := by
    unfold plcVar
    rw [Arrays.set_of_array_ne m (plcName_ne_clName _ _)]
  change R (plcVar (m.set k.clName n.toNat b) w) (clVar (m.set k.clName n.toNat b) w)
  rw [hplc]
  by_cases hw : w=⟨k,n.toNat⟩
  · subst hw
    unfold clVar
    rw [Arrays.set_same]
    exact hb _ _ (hm _)
  · have hcl : clVar (m.set k.clName n.toNat b) w=clVar m w := by
      unfold clVar
      rw [Arrays.set_other]
      intro hname hindex
      exact hw (by cases w; cases clName_injective hname; cases hindex; rfl)
    rw [hcl]
    exact hm w

/-- The loops of reset_plc_data store zero to both copies or to none. -/
theorem reset_keeps (h0 : R 0 0) : Keeps (Both R) resetAccesses := by
  have hdi : Keeps (Both R) (loop diCnt fun i => [.store .plcDiState i .off,.store .plcAinRaw i 0,
      .store .clDinState i 0,.store .clAinValue i 0]) :=
    keeps_rounds fun i _ => both_keeps_other (by simp [Access.array,varNames])
  have hdo : Keeps (Both R) (loop doCnt fun i => [.store .clDoutState i 0,
      .store .plcDoState i .off]) :=
    keeps_rounds fun i _ => both_keeps_other (by simp [Access.array,varNames])
  have hcb : Keeps (Both R) (loop clustBitsCnt fun i => [.store .clClusterBits i 0,
      .store .plcClustBits i 0]) :=
    keeps_rounds fun i _ => both_keeps_pair' .clustBit _ h0
  have hcr : Keeps (Both R) (loop clusterRegsCnt fun i => [.store .clClusterRegs i 0,
      .store .plcClustRegs i 0]) :=
    keeps_rounds fun i _ => both_keeps_pair' .clustReg _ h0
  have hnb : Keeps (Both R) (loop netBitsCnt fun i => [.store .clNetBits i 0,
      .store .plcNetBits i 0]) :=
    keeps_rounds fun i _ => both_keeps_pair' .netBit _ h0
  have hnr : Keeps (Both R) (loop netRegsCnt fun i => [.store .clNetRegs i 0,
      .store .plcNetRegs i 0]) :=
    keeps_rounds fun i _ => both_keeps_pair' .netReg _ h0
  unfold resetAccesses
  exact keeps_append hdi (keeps_append hdo (keeps_append hcb (keeps_append hcr
    (keeps_append hnb (keeps_append hnr keeps_nil)))))

/-- init_cluster stores zero to the copies in the cluster structure. -/
theorem cluster_keeps (h0 : ∀ x y,R x y → R x 0) : Keeps (Both R) clusterAccesses := by
  have hin : Keeps (Both R) (loop diCnt fun i => [.store .clAinUsed i 0,.store .clAinFault i 0,
      .store .clAinRaw i 0,.store .clAinTdu i 0,.store .clAinValue i 0,.store .clDinUsed i 0,
      .store .clDinFault i 0,.store .clDinState i 0]) :=
    keeps_rounds fun i _ => both_keeps_other (by simp [Access.array,varNames])
  unfold clusterAccesses
  exact keeps_append (keeps_rounds fun i _ => both_keeps_cl .clustBit _ h0)
    (keeps_append (keeps_rounds fun i _ => both_keeps_cl .netBit _ h0)
      (keeps_append (keeps_rounds fun i _ => both_keeps_cl .clustReg _ h0)
        (keeps_append (keeps_rounds fun i _ => both_keeps_cl .netReg _ h0)
          (keeps_append hin keeps_nil))))

end Both

/-! ## Received frames -/

/-- Packed cluster bits are stored to both copies. -/
theorem clustBits_keeps (data : Mem UInt8) : Keeps (Both Eq) (clustBitsAccesses data) := by
  refine keeps_rounds fun i _ => ?_
  dsimp only
  split_ifs with hhigh hmask
  · cases bit (data 2).toNat i <;> exact both_keeps_pair .clustBit _ rfl
  · exact keeps_nil
  · exact keeps_nil

/-- Packed net bits are stored to both copies. -/
theorem netBits_keeps (id : UInt16) (data : Mem UInt8) :
    Keeps (Both Eq) (netBitsAccesses id data) := by
  refine keeps_rounds fun i _ => ?_
  dsimp only
  split_ifs with hhigh hmask
  · cases bit (data 2).toNat i <;> exact both_keeps_pair .netBit _ rfl
  · exact keeps_nil
  · exact keeps_nil

/-- Event 0x06 stores a register on both sides or on neither. -/
theorem clustReg_keeps (data : Mem UInt8) : Keeps (Both Eq) (clustRegAccesses data) := by
  unfold clustRegAccesses
  dsimp only
  split_ifs
  · exact both_keeps_pair .clustReg _ rfl
  · exact keeps_nil

/-- Event 0x0F stores a register on both sides or on neither. -/
theorem netReg_keeps (id : UInt16) (data : Mem UInt8) :
    Keeps (Both Eq) (netRegAccesses id data) := by
  unfold netRegAccesses
  dsimp only
  split_ifs
  · exact both_keeps_pair .netReg _ rfl
  · exact keeps_nil

/-- Every event keeps the copies equal. -/
theorem event_keeps (id : UInt16) (data : Mem UInt8) :
    Keeps (Both Eq) (eventAccesses id data) := by
  unfold eventAccesses
  split
  · exact both_keeps_other (not_mem_of_names (diDo_names data) (by decide))
  · exact clustBits_keeps data
  · split_ifs
    · exact both_keeps_other (not_mem_of_names (ain_names data _) (by decide))
    · exact keeps_nil
  · exact clustReg_keeps data
  · exact both_keeps_other (not_mem_of_names (ioTypes_names data) (by decide))
  · exact netBits_keeps id data
  · exact netReg_keeps id data
  · exact keeps_nil

/-! ## Runs -/

/-- Both copies of every variable are zero after the initialisation. -/
theorem start_same (p : Panel) : Both Eq (start p).panel.arrays := by
  have hzero : Both (fun x y => x=0 ∧ y=0) zeroArrays := by
    rintro ⟨k,i⟩
    cases k <;> exact ⟨rfl,rfl⟩
  have hunused : Keeps (Both fun x y => x=0 ∧ y=0) unusedAccesses :=
    keeps_rounds fun i _ => both_keeps_other (by simp [Access.array,varNames])
  have hreset := reset_keeps (R:=fun x y => x=0 ∧ y=0) ⟨rfl,rfl⟩
  have hcluster := cluster_keeps (R:=fun x y => x=0 ∧ y=0) fun _ _ h => ⟨h.1,rfl⟩
  intro v
  rw [start_arrays]
  have h := hcluster _ (hreset _ (hunused _ hzero)) v
  exact h.1.trans h.2.symm

/-- Every operation keeps the copies equal. -/
theorem same_step {s s' : System} {op : PanelOp} (h : Both Eq s.panel.arrays)
    (hs : panelStep s op=some s') : Both Eq s'.panel.arrays := by
  cases panelStep_stepped hs with
  | receive rx q hreceived =>
    cases hreceived with
    | ignored hext he =>
      rw [he]
      exact h
    | heartbeat hsrv hext harrays hhb hlink hdi =>
      change Both Eq q.arrays
      rw [harrays]
      exact both_keeps_other (not_mem_of_names (link_names _) (by decide)) _ h
    | event hsrv hext ht =>
      change Both Eq q.arrays
      rw [ht.arrays]
      exact event_keeps _ _ _ h
  | write var q hw =>
    change Both Eq q.arrays
    rcases hw.arrays with he|⟨v,a,b,-,hab,he,-,-⟩
    · rw [he]
      exact h
    · rw [he]
      exact h.setVar hab
  | reset =>
    exact reset_keeps rfl _ h
  | tick time =>
    rw [(networkTick_ticked s time).arrays]
    split_ifs
    · have hlink : Keeps (Both Eq) [.store .plcLink 0 (0 : UInt8)] :=
        both_keeps_other (by simp [Access.array,varNames])
      exact reset_keeps rfl _ (hlink _ h)
    · exact h
  | sample diState =>
    rw [(updateDiData_sampled s diState).arrays]
    exact h

/-- After every run the copies agree element by element. -/
theorem mirror_run (p : Panel) (ops : List PanelOp) (h : FramesInRange ops) :
    ∃ s,panelRun (start p) ops=some s ∧ Mirror s.panel.arrays := by
  obtain ⟨s,hs,hsame⟩ := panelRun_invariant (P:=fun s => Both Eq s.panel.arrays) (start_same p)
    (fun _ _ _ => same_step) h
  exact ⟨s,hs,mirror_of_both hsame⟩

/-- A heartbeat of node 2, a write of net register 0 and a lost link. -/
def linkAndWrite : List PanelOp :=
  [.receive ⟨0x411,2,fun _ => 0⟩,.write ⟨0,100,5,varLinkNetReg,0⟩,.reset]

/-- A run with a frame and a write, where the sides agree. -/
theorem mirror_linkAndWrite :
    ∃ s,panelRun (start zeroPanel) linkAndWrite=some s ∧ Mirror s.panel.arrays := by
  refine mirror_run zeroPanel linkAndWrite fun rx h => Or.inr (Or.inl ?_)
  simp only [linkAndWrite,List.mem_cons,PanelOp.receive.injEq,List.not_mem_nil,reduceCtorEq,
    or_false] at h
  rw [h]
  decide

end BT816Display.PlcMirror
