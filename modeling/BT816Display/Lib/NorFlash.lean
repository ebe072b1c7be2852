import BT816Display.Lib.ByteMemory

/-!
# Sector-erased NOR flash

A NOR chip executes two destructive commands. Erasing a sector sets all its
bytes to one bits; programming can only clear bits. The chip keeps the list
of commands it has executed, so that a loss of power between two of them is
the replay of an initial part of that list on the earlier contents.
-/

namespace BT816Display.NorFlash

open ByteMemory

/-- The value of every byte of an erased sector. -/
abbrev blankByte : UInt8 := 0xFF

/-- A block of erased bytes. -/
abbrev blank (n : ℕ) : List UInt8 := List.replicate n blankByte

/-- The destructive commands of a NOR chip. -/
inductive Cmd where
  /-- Erase the sector of the given number. -/
  | erase (sector : ℕ)
  /-- Program a block of bytes from an address on. -/
  | program (addr : ℕ) (data : List UInt8)
  deriving DecidableEq

/-- The effect of one command on a chip with sectors of `S` bytes. -/
def exec (S : ℕ) : Cmd → Mem UInt8 → Mem UInt8
  | .erase k,m => fun x => if x/S=k then blankByte else m x
  | .program a bs,m => fun x => if a≤x then (bs[x-a]?).elim (m x) (m x &&& ·) else m x

/-- Execute a list of commands, oldest first. -/
def replay (S : ℕ) (cs : List Cmd) (m : Mem UInt8) : Mem UInt8 :=
  cs.foldl (fun m c => exec S c m) m

/-- A chip: its contents and the commands executed so far, oldest first. -/
structure Chip where
  /-- Current contents of the cell array. -/
  mem : Mem UInt8
  /-- Executed destructive commands; the device itself never reads them. -/
  cmds : List Cmd

/-- Execute one command and record it. -/
def Chip.issue (S : ℕ) (c : Cmd) (z : Chip) : Chip := ⟨exec S c z.mem,z.cmds++[c]⟩

/-- Execute and record a list of commands, oldest first. -/
def Chip.issueAll (S : ℕ) (cs : List Cmd) (z : Chip) : Chip := ⟨replay S cs z.mem,z.cmds++cs⟩

/-- A command changes the cells as it is executed. -/
@[simp] theorem Chip.issue_mem (S : ℕ) (c : Cmd) (z : Chip) :
    (z.issue S c).mem=exec S c z.mem := rfl

/-- It is the last one of the list. -/
@[simp] theorem Chip.issue_cmds (S : ℕ) (c : Cmd) (z : Chip) :
    (z.issue S c).cmds=z.cmds++[c] := rfl

/-- No command changes nothing. -/
@[simp] theorem replay_nil (S : ℕ) (m : Mem UInt8) : replay S [] m=m := rfl

/-- The first command comes first. -/
@[simp] theorem replay_cons (S : ℕ) (c : Cmd) (cs : List Cmd) (m : Mem UInt8) :
    replay S (c::cs) m=replay S cs (exec S c m) := rfl

/-- A command alone. -/
theorem Chip.issue_eq_issueAll (S : ℕ) (c : Cmd) (z : Chip) : z.issue S c=z.issueAll S [c] := rfl

/-- Commands one after another. -/
theorem Chip.issueAll_issueAll (S : ℕ) (cs ds : List Cmd) (z : Chip) :
    (z.issueAll S cs).issueAll S ds=z.issueAll S (cs++ds) := by
  simp only [Chip.issueAll,replay,List.foldl_append,List.append_assoc]

/-- A block is blank exactly when all its bytes are erased. -/
theorem load_eq_blank_iff {a n : ℕ} {m : Mem UInt8} :
    load m a n=blank n ↔ ∀ i<n,m (a+i)=blankByte := by
  have h := load_eq_iff (m:=m) (a:=a) (b:=blank n)
  simpa only [List.length_replicate,List.getElem_replicate] using h

/-- Erasing a sector leaves a block blank that lies inside it. -/
theorem load_erase_inside {S k a n : ℕ} {m : Mem UInt8} (h0 : S*k≤a) (h1 : a+n≤S*k+S) :
    load (exec S (.erase k) m) a n=blank n := by
  apply load_eq_blank_iff.mpr
  intro i hi
  have hd : (a+i)/S=k := Nat.div_eq_of_lt_le (by rw [Nat.mul_comm]; omega)
    (by rw [Nat.mul_comm,Nat.mul_succ]; omega)
  simp only [exec,if_pos hd]

/-- Erasing a sector changes no block outside it. -/
theorem load_erase_outside {S k a n : ℕ} {m : Mem UInt8} (hS : 0<S)
    (h : a+n≤S*k ∨ S*k+S≤a) :
    load (exec S (.erase k) m) a n=load m a n := by
  apply load_eq_load_iff.mpr
  intro i hi
  have hd : (a+i)/S≠k := by
    intro he
    have h1 := Nat.div_add_mod (a+i) S
    have h2 := Nat.mod_lt (a+i) hS
    rw [he] at h1
    omega
  simp only [exec,if_neg hd]

/-- Programming a blank block stores it. -/
theorem exec_program_of_blank {S a : ℕ} {bs : List UInt8} {m : Mem UInt8}
    (h : load m a bs.length=blank bs.length) : exec S (.program a bs) m=store m a bs := by
  funext x
  simp only [exec,store]
  split
  · rename_i hx
    by_cases hb : x-a<bs.length
    · have hm : m x=blankByte := by
        have hc := load_eq_blank_iff.mp h (x-a) hb
        rwa [Nat.add_sub_cancel' hx] at hc
      simp only [List.getElem?_eq_getElem hb,Option.elim_some,Option.getD_some,hm]
      exact UInt8.neg_one_and
    · simp only [List.getElem?_eq_none (Nat.not_lt.mp hb),Option.elim_none,Option.getD_none]
  · rfl

end BT816Display.NorFlash
