import BT816Display.Lib.BigEndian
import BT816Display.Lib.ByteMemory
import BT816Display.Lib.LastOccurrence
import BT816Display.Lib.Runs

/-!
# The password in the backup registers

set_passwd_value in password_menu.c marks the saved password with 0x1234,
and read_password in config.c looks for 0x1235. A password that was changed
is taken for none and replaced by the factory one.
-/

namespace BT816Display.PasswordStore

open ByteMemory BigEndian Runs LastOccurrence

/-- The password in RAM and the backup registers. -/
structure Store where
  /-- passwd. -/
  passwd : Mem UInt8
  /-- Registers ERTC_DT1 and on, by number. -/
  bpr : ℕ → UInt32

/-- ertc_bpr_data_write. -/
def Store.bprDataWrite (s : Store) (dt : ℕ) (data : UInt32) : Store :=
  {s with bpr := Function.update s.bpr dt data}

/-- set_passwd_value. -/
def setPasswdValue (s : Store) (ptr : Mem UInt8) : Store :=
  let s := {s with passwd := store s.passwd 0 (load ptr 0 6)}
  let s := s.bprDataWrite 2 0x1234
  let s := s.bprDataWrite 3 (join16 (s.passwd 0) (s.passwd 1)).toUInt32
  let s := s.bprDataWrite 4 (join16 (s.passwd 2) (s.passwd 3)).toUInt32
  s.bprDataWrite 5 (join16 (s.passwd 4) (s.passwd 5)).toUInt32

/-- read_password. -/
def readPassword (s : Store) : Store :=
  let s :=
    if s.bpr 2≠0x1235 then
      let s := s.bprDataWrite 2 0x1235
      let s := s.bprDataWrite 3 0x0102
      let s := s.bprDataWrite 4 0x0304
      s.bprDataWrite 5 0x0506
    else s
  let val := (s.bpr 3).toUInt16
  let s := {s with passwd := store s.passwd 0 [(val>>>8).toUInt8,(val&&&0xFF).toUInt8]}
  let val := (s.bpr 4).toUInt16
  let s := {s with passwd := store s.passwd 2 [(val>>>8).toUInt8,(val&&&0xFF).toUInt8]}
  let val := (s.bpr 5).toUInt16
  {s with passwd := store s.passwd 4 [(val>>>8).toUInt8,(val&&&0xFF).toUInt8]}

/-- Power off and on: RAM is lost, the backup registers are kept. -/
def reboot (s : Store) : Store := readPassword {s with passwd := fun _ => 0}

/-- The password that read_password falls back to. -/
def factoryPassword : List UInt8 := [1,2,3,4,5,6]

/-- The registers that hold a saved password. -/
def saved (s : Store) : List UInt32 := [s.bpr 3,s.bpr 4,s.bpr 5]

/-- A password as it is saved. -/
def packed (ptr : Mem UInt8) : List UInt32 :=
  [(join16 (ptr 0) (ptr 1)).toUInt32,(join16 (ptr 2) (ptr 3)).toUInt32,
    (join16 (ptr 4) (ptr 5)).toUInt32]

/-- Equal passwords are saved alike. -/
theorem packed_congr {ptr ptr' : Mem UInt8} (h : load ptr 0 6=load ptr' 0 6) :
    packed ptr=packed ptr' := by
  have hc := load_eq_load_iff.mp h
  have h0 : ptr 0=ptr' 0 := hc 0 (by omega)
  have h1 : ptr 1=ptr' 1 := hc 1 (by omega)
  have h2 : ptr 2=ptr' 2 := hc 2 (by omega)
  have h3 : ptr 3=ptr' 3 := hc 3 (by omega)
  have h4 : ptr 4=ptr' 4 := hc 4 (by omega)
  have h5 : ptr 5=ptr' 5 := hc 5 (by omega)
  unfold packed
  rw [h0,h1,h2,h3,h4,h5]

/-- The factory password as digits in memory. -/
def factoryDigits : Mem UInt8 := fun i => factoryPassword.getD i 0

/-- Setting a password takes it over and marks it with 0x1234. -/
theorem setPasswdValue_eq (s : Store) (ptr : Mem UInt8) :
    load (setPasswdValue s ptr).passwd 0 6=load ptr 0 6 ∧ (setPasswdValue s ptr).bpr 2=0x1234 ∧
      saved (setPasswdValue s ptr)=packed ptr := by
  have hpasswd : load (store s.passwd 0 (load ptr 0 6)) 0 6=load ptr 0 6 := by
    have h := load_store_self s.passwd 0 (load ptr 0 6)
    rwa [load_length] at h
  exact ⟨hpasswd,rfl,packed_congr hpasswd⟩

/-- Three pairs of digits are the password. -/
theorem load_pairs (m : Mem UInt8) (d0 d1 d2 d3 d4 d5 : UInt8) :
    load (store (store (store m 0 [d0,d1]) 2 [d2,d3]) 4 [d4,d5]) 0 6=[d0,d1,d2,d3,d4,d5] := rfl

/-- The bytes of the factory registers are the factory password. -/
theorem factory_bytes :
    [((0x0102 : UInt32).toUInt16>>>8).toUInt8,((0x0102 : UInt32).toUInt16&&&0xFF).toUInt8,
      ((0x0304 : UInt32).toUInt16>>>8).toUInt8,((0x0304 : UInt32).toUInt16&&&0xFF).toUInt8,
      ((0x0506 : UInt32).toUInt16>>>8).toUInt8,((0x0506 : UInt32).toUInt16&&&0xFF).toUInt8]=
      factoryPassword := by
  decide

/-- The factory registers are the factory password as it is saved. -/
theorem factory_registers : [(0x0102 : UInt32),0x0304,0x0506]=packed factoryDigits := by decide

/-- Without the mark 0x1235 the factory password is loaded and saved. -/
theorem reboot_of_unmarked {s : Store} (h : s.bpr 2≠0x1235) :
    load (reboot s).passwd 0 6=factoryPassword ∧ (reboot s).bpr 2=0x1235 ∧
      saved (reboot s)=packed factoryDigits := by
  unfold reboot readPassword
  dsimp only
  rw [if_pos h,load_pairs]
  exact ⟨factory_bytes,rfl,factory_registers⟩

/-- With the mark 0x1235 the registers are left as they are. -/
theorem reboot_bpr_of_marked {s : Store} (h : s.bpr 2=0x1235) : (reboot s).bpr=s.bpr := by
  unfold reboot readPassword
  dsimp only
  rw [if_neg (not_not_intro h)]

/-- With the mark 0x1235 and the factory password saved, that one is loaded. -/
theorem reboot_of_factory {s : Store} (h : s.bpr 2=0x1235) (hs : saved s=packed factoryDigits) :
    load (reboot s).passwd 0 6=factoryPassword := by
  obtain ⟨h3,h45⟩ := List.cons.inj hs
  obtain ⟨h4,h5⟩ := List.cons.inj h45
  have h5' := (List.cons.inj h5).1
  unfold reboot readPassword
  dsimp only
  rw [if_neg (not_not_intro h),load_pairs,h3,h4,h5']
  decide

/-! ## Histories of changes and restarts -/

/-- What happens to the password. -/
inductive PasswordOp where
  /-- set_passwd_value with six digits. -/
  | setPasswdValue (ptr : Mem UInt8)
  /-- The panel restarts. -/
  | reboot

/-- Execute one operation. -/
def passwordStep (s : Store) : PasswordOp → Store
  | .setPasswdValue ptr => setPasswdValue s ptr
  | .reboot => reboot s

/-- Execute a sequence of operations. -/
def passwordRun (s₀ : Store) (ops : List PasswordOp) : Store := ops.foldl passwordStep s₀

@[simp] theorem passwordRun_concat (s₀ : Store) (ops : List PasswordOp) (op : PasswordOp) :
    passwordRun s₀ (ops++[op])=passwordStep (passwordRun s₀ ops) op := List.foldl_concat ..

/-- Changes of the password. -/
def IsSet : PasswordOp → Prop
  | .setPasswdValue _ => True
  | .reboot => False

/-- A restart loads the password set last and leaves what is saved of it. -/
def Kept (s₀ : Store) (pre : List PasswordOp) (op : PasswordOp) : Prop :=
  op=.reboot → ∀ ptr later,Last IsSet pre (.setPasswdValue ptr) later →
    load (passwordRun s₀ (pre++[op])).passwd 0 6=load ptr 0 6 ∧
      saved (passwordRun s₀ (pre++[op]))=saved (passwordRun s₀ pre)

/-- At a restart the password set last is the factory one. -/
def FactorySet (pre : List PasswordOp) (op : PasswordOp) : Prop :=
  op=.reboot → ∀ ptr later,Last IsSet pre (.setPasswdValue ptr) later →
    load ptr 0 6=factoryPassword

/-- Once a password has been set, the registers hold it with the mark 0x1234,
or the factory one with the mark 0x1235. -/
def Marked (s : Store) (ptr : Mem UInt8) : Prop :=
  s.bpr 2=0x1234 ∧ saved s=packed ptr ∨ s.bpr 2=0x1235 ∧ saved s=packed factoryDigits

theorem marked_run (s₀ : Store) (ops : List PasswordOp) :
    ∀ ptr later,Last IsSet ops (.setPasswdValue ptr) later → Marked (passwordRun s₀ ops) ptr := by
  induction ops using List.reverseRecOn with
  | nil => exact fun ptr later h => absurd h not_last_nil
  | append_singleton ops op ih =>
    intro ptr later h
    rw [passwordRun_concat]
    cases op with
    | setPasswdValue ptr' =>
      have hset : IsSet (.setPasswdValue ptr') := trivial
      obtain ⟨hptr,-⟩ := (last_concat_of_prop hset).mp h
      cases hptr
      have hs := setPasswdValue_eq (passwordRun s₀ ops) ptr
      exact Or.inl ⟨hs.2.1,hs.2.2⟩
    | reboot =>
      have hset : ¬IsSet .reboot := not_false
      obtain ⟨later',-,hlast⟩ := (last_concat_of_not hset).mp h
      rcases ih ptr later' hlast with ⟨hmark,-⟩|⟨hmark,hsaved⟩
      · have hr := reboot_of_unmarked (s:=passwordRun s₀ ops) (by rw [hmark]; decide)
        exact Or.inr ⟨hr.2.1,hr.2.2⟩
      · have hr := reboot_bpr_of_marked hmark
        refine Or.inr ⟨?_,?_⟩
        · change (reboot (passwordRun s₀ ops)).bpr 2=0x1235
          rw [hr]
          exact hmark
        · change saved (reboot (passwordRun s₀ ops))=packed factoryDigits
          unfold saved
          rw [hr]
          exact hsaved

/-- Every restart after a change loads the factory password. -/
theorem reboot_of_marked {s : Store} {ptr : Mem UInt8} (h : Marked s ptr) :
    load (reboot s).passwd 0 6=factoryPassword ∧ saved (reboot s)=packed factoryDigits := by
  rcases h with ⟨hmark,-⟩|⟨hmark,hsaved⟩
  · have hr := reboot_of_unmarked (s:=s) (by rw [hmark]; decide)
    exact ⟨hr.1,hr.2.2⟩
  · refine ⟨reboot_of_factory hmark hsaved,?_⟩
    unfold saved
    rw [reboot_bpr_of_marked hmark]
    exact hsaved

theorem kept_iff (s₀ : Store) (pre : List PasswordOp) (op : PasswordOp) :
    Kept s₀ pre op ↔ FactorySet pre op := by
  have hfactory : load factoryDigits 0 6=factoryPassword := rfl
  constructor
  · rintro h rfl ptr later hlast
    have hr := reboot_of_marked (marked_run s₀ pre ptr later hlast)
    have hk := (h rfl ptr later hlast).1
    rw [passwordRun_concat] at hk
    exact hk.symm.trans hr.1
  · rintro h rfl ptr later hlast
    have hm := marked_run s₀ pre ptr later hlast
    have hr := reboot_of_marked hm
    have hptr := h rfl ptr later hlast
    rw [passwordRun_concat]
    refine ⟨hr.1.trans hptr.symm,hr.2.trans ?_⟩
    rcases hm with ⟨-,hsaved⟩|⟨-,hsaved⟩
    · rw [hsaved]
      exact packed_congr (hfactory.trans hptr.symm)
    · exact hsaved.symm

/-- All restarts of a history keep the password exactly when all passwords set
before a restart are the factory one. -/
theorem password_kept_iff (s₀ : Store) (ops : List PasswordOp) :
    InputsMeet (Kept s₀) ops ↔ InputsMeet FactorySet ops := by
  constructor
  · intro h pre op post he
    exact (kept_iff s₀ pre op).mp (h pre op post he)
  · intro h pre op post he
    exact (kept_iff s₀ pre op).mpr (h pre op post he)

/-- Six nines. -/
def nines : Mem UInt8 := fun _ => 9

/-- The password 999999 is 123456 after a restart. -/
theorem nines_lost :
    load (passwordRun ⟨fun _ => 0,fun _ => 0⟩ [.setPasswdValue nines,.reboot]).passwd 0 6=
        [1,2,3,4,5,6] ∧
      ¬InputsMeet (Kept ⟨fun _ => 0,fun _ => 0⟩) [.setPasswdValue nines,.reboot] := by
  have hset : IsSet (.setPasswdValue nines) := trivial
  have hmark := marked_run ⟨fun _ => 0,fun _ => 0⟩ [.setPasswdValue nines] nines []
    ((last_concat_of_prop (l:=[]) hset).mpr ⟨rfl,rfl⟩)
  refine ⟨(reboot_of_marked hmark).1,fun h => ?_⟩
  have hk := h [.setPasswdValue nines] .reboot [] rfl rfl nines []
    ((last_concat_of_prop (l:=[]) hset).mpr ⟨rfl,rfl⟩)
  exact absurd hk.1 (by decide)

end BT816Display.PasswordStore
