import Mathlib.Data.List.Basic

/-!
# Computations with the reads they make and the commands they issue

The value of a computation, the places it reads in their order, and what it
puts out. The places of a sequence are those of its parts, so a property of
all reads can be taken apart along the program.
-/

namespace BT816Display

/-- A value with the places read and the commands issued on the way to it. -/
structure Traced (ρ κ α : Type) where
  /-- The result. -/
  value : α
  /-- The places read. -/
  reads : List ρ
  /-- The commands issued. -/
  commands : List κ

namespace Traced

variable {ρ κ α β : Type}

/-- Routines in sequence: what they read and issue comes in order. -/
instance : Monad (Traced ρ κ) where
  pure a := ⟨a,[],[]⟩
  bind x f :=
    let y := f x.value
    ⟨y.value,x.reads++y.reads,x.commands++y.commands⟩

/-- Read a place that holds a value. -/
def read (place : ρ) (value : α) : Traced ρ κ α := ⟨value,[place],[]⟩

/-- Issue a command. -/
def issue (command : κ) : Traced ρ κ Unit := ⟨(),[],[command]⟩

/-- A pure step has its value. -/
@[simp] theorem pure_value (a : α) : (pure a : Traced ρ κ α).value=a := rfl

/-- It reads nothing. -/
@[simp] theorem pure_reads (a : α) : (pure a : Traced ρ κ α).reads=[] := rfl

/-- And issues nothing. -/
@[simp] theorem pure_commands (a : α) : (pure a : Traced ρ κ α).commands=[] := rfl

/-- The value of two steps is that of the second one. -/
@[simp] theorem bind_value (x : Traced ρ κ α) (f : α → Traced ρ κ β) :
    (x>>=f).value=(f x.value).value := rfl

/-- The reads of the first step come first. -/
@[simp] theorem bind_reads (x : Traced ρ κ α) (f : α → Traced ρ κ β) :
    (x>>=f).reads=x.reads++(f x.value).reads := rfl

/-- So do its commands. -/
@[simp] theorem bind_commands (x : Traced ρ κ α) (f : α → Traced ρ κ β) :
    (x>>=f).commands=x.commands++(f x.value).commands := rfl

/-- A function is applied to the value only. -/
@[simp] theorem map_value (f : α → β) (x : Traced ρ κ α) : (f<$>x).value=f x.value := rfl

/-- It changes no read. -/
@[simp] theorem map_reads (f : α → β) (x : Traced ρ κ α) : (f<$>x).reads=x.reads :=
  List.append_nil _

/-- And no command. -/
@[simp] theorem map_commands (f : α → β) (x : Traced ρ κ α) : (f<$>x).commands=x.commands :=
  List.append_nil _

/-- A read gives what it has found. -/
@[simp] theorem read_value (place : ρ) (a : α) : (read place a : Traced ρ κ α).value=a := rfl

/-- It is one read. -/
@[simp] theorem read_reads (place : ρ) (a : α) : (read place a : Traced ρ κ α).reads=[place] := rfl

/-- It issues nothing. -/
@[simp] theorem read_commands (place : ρ) (a : α) : (read place a : Traced ρ κ α).commands=[] := rfl

/-- An issued command reads nothing. -/
@[simp] theorem issue_reads (command : κ) : (issue command : Traced ρ κ Unit).reads=[] := rfl

/-- It is the one command. -/
@[simp] theorem issue_commands (command : κ) :
    (issue command : Traced ρ κ Unit).commands=[command] := rfl

/-- Every place read has a property. -/
def Reads (P : ρ → Prop) (x : Traced ρ κ α) : Prop := ∀ r∈x.reads,P r

/-- A pure step meets every condition on reads. -/
theorem reads_pure (P : ρ → Prop) (a : α) : Reads P (pure a : Traced ρ κ α) ↔ True := by
  simp [Reads]

/-- Two steps meet it when both do. -/
theorem reads_bind (P : ρ → Prop) (x : Traced ρ κ α) (f : α → Traced ρ κ β) :
    Reads P (x>>=f) ↔ Reads P x ∧ Reads P (f x.value) := by
  simp [Reads,or_imp,forall_and]

/-- A read meets it when its place does. -/
theorem reads_read (P : ρ → Prop) (place : ρ) (a : α) :
    Reads P (read place a : Traced ρ κ α) ↔ P place := by
  simp [Reads]

/-- A command meets it. -/
theorem reads_issue (P : ρ → Prop) (command : κ) :
    Reads P (issue command : Traced ρ κ Unit) ↔ True := by
  simp [Reads]

/-- A branch meets it when the step that is taken does. -/
theorem reads_ite (P : ρ → Prop) (c : Prop) [Decidable c] (x y : Traced ρ κ α) :
    Reads P (if c then x else y) ↔ (c → Reads P x) ∧ (¬c → Reads P y) := by
  split
  case isTrue h => simp [h]
  case isFalse h => simp [h]

/-- A function of the value adds no read. -/
theorem reads_map (P : ρ → Prop) (f : α → β) (x : Traced ρ κ α) :
    Reads P (f<$>x) ↔ Reads P x := by
  rw [Reads,map_reads,Reads]

/-- A loop over the numbers below `n`. -/
def loop (n : ℕ) (f : ℕ → Traced ρ κ Unit) : Traced ρ κ Unit :=
  (List.range n).foldl (fun x i => x>>=fun _ => f i) (pure ())

/-- The reads of a loop are those of its rounds. -/
theorem reads_loop (P : ρ → Prop) (n : ℕ) (f : ℕ → Traced ρ κ Unit) :
    Reads P (loop n f) ↔ ∀ i<n,Reads P (f i) := by
  induction n with
  | zero => simp [loop,Reads]
  | succ n ih =>
    have hloop : loop (n+1) f=(loop n f>>=fun _ => f n) := by
      rw [loop,loop,List.range_succ,List.foldl_append]
      rfl
    rw [hloop,reads_bind,ih]
    constructor
    · rintro ⟨hlt,hn⟩ i hi
      rcases Nat.lt_succ_iff_lt_or_eq.mp hi with h|rfl
      · exact hlt i h
      · exact hn
    · intro h
      exact ⟨fun i hi => h i (by omega),h n (by omega)⟩

/-- The commands of a loop are those of its rounds in order. -/
theorem loop_commands (n : ℕ) (f : ℕ → Traced ρ κ Unit) :
    (loop n f).commands=(List.range n).flatMap fun i => (f i).commands := by
  induction n with
  | zero => rfl
  | succ n ih =>
    rw [loop] at ih
    rw [loop,List.range_succ,List.foldl_append,List.flatMap_append,List.flatMap_singleton,←ih]
    rfl

/-! ## Loops over a table -/

section Rows

variable {σ : Type} {f : ℕ → σ → Traced ρ κ σ}

/-- A loop over some rows of a table that changes the row of each round only. -/
def rows (f : ℕ → σ → Traced ρ κ σ) (l : List ℕ) (table : ℕ → σ) : Traced ρ κ (ℕ → σ) :=
  l.foldlM (fun table i => f i (table i)>>=fun row => pure (Function.update table i row)) table

/-- The first row is done before the others. -/
theorem rows_cons (a : ℕ) (l : List ℕ) (table : ℕ → σ) :
    rows f (a::l) table=
      (f a (table a)>>=fun row => pure (Function.update table a row))>>=rows f l := rfl

/-- Each row is what its own round makes of it. -/
theorem rows_value {l : List ℕ} (hl : l.Nodup) (table : ℕ → σ) (i : ℕ) :
    (rows f l table).value i=if i∈l then (f i (table i)).value else table i := by
  induction l generalizing table with
  | nil => rfl
  | cons a l ih =>
    obtain ⟨ha,hl⟩ := List.nodup_cons.mp hl
    rw [rows_cons,bind_value,ih hl,bind_value,pure_value]
    by_cases hia : i=a
    · subst hia
      rw [if_neg ha,if_pos List.mem_cons_self,Function.update_self]
    · rw [Function.update_of_ne hia]
      simp only [List.mem_cons,hia,false_or]

/-- The rounds behind the first find their rows as they were. -/
theorem flatMap_update {a : ℕ} {l : List ℕ} (ha : a∉l) (table : ℕ → σ) (row : σ) {α : Type}
    (g : ℕ → σ → List α) :
    l.flatMap (fun i => g i (Function.update table a row i))=
      l.flatMap fun i => g i (table i) := by
  refine List.flatMap_congr fun i hi => ?_
  rw [Function.update_of_ne (ne_of_mem_of_not_mem hi ha)]

/-- The commands are those of the rounds on the rows as they were before. -/
theorem rows_commands {l : List ℕ} (hl : l.Nodup) (table : ℕ → σ) :
    (rows f l table).commands=l.flatMap fun i => (f i (table i)).commands := by
  induction l generalizing table with
  | nil => rfl
  | cons a l ih =>
    obtain ⟨ha,hl⟩ := List.nodup_cons.mp hl
    rw [rows_cons,bind_commands,ih hl,bind_commands,pure_commands,List.append_nil,
      bind_value,pure_value,flatMap_update ha table _ fun i row => (f i row).commands]
    rfl

/-- The reads are those of the rounds on the rows as they were before. -/
theorem rows_reads {l : List ℕ} (hl : l.Nodup) (table : ℕ → σ) :
    (rows f l table).reads=l.flatMap fun i => (f i (table i)).reads := by
  induction l generalizing table with
  | nil => rfl
  | cons a l ih =>
    obtain ⟨ha,hl⟩ := List.nodup_cons.mp hl
    rw [rows_cons,bind_reads,ih hl,bind_reads,pure_reads,List.append_nil,
      bind_value,pure_value,flatMap_update ha table _ fun i row => (f i row).reads]
    rfl

/-- The rows meet a condition on reads when each of them does, found as it was at first. -/
theorem reads_rows (P : ρ → Prop) {l : List ℕ} (hl : l.Nodup) (table : ℕ → σ) :
    Reads P (rows f l table) ↔ ∀ i∈l,Reads P (f i (table i)) := by
  unfold Reads
  rw [rows_reads hl]
  simp only [List.mem_flatMap]
  constructor
  · intro h i hi r hr
    exact h r ⟨i,hi,hr⟩
  · rintro h r ⟨i,hi,hr⟩
    exact h i hi r hr

/-- When every round tags its commands with its number, those of one tag are
the commands of one round. -/
theorem rows_commands_of {τ : Type} {f : ℕ → σ → Traced ρ (ℕ×τ) σ}
    (hf : ∀ i row,∀ c∈(f i row).commands,c.1=i) {l : List ℕ} (hl : l.Nodup) (table : ℕ → σ) {i : ℕ}
    (hi : i∈l) : (rows f l table).commands.filter (·.1=i)=(f i (table i)).commands := by
  have hself (j : ℕ) : (f j (table j)).commands.filter (·.1=j)=(f j (table j)).commands :=
    List.filter_eq_self.mpr fun c hc => decide_eq_true (hf j _ c hc)
  have hother {j : ℕ} (hj : j≠i) : (f j (table j)).commands.filter (·.1=i)=[] :=
    List.filter_eq_nil_iff.mpr fun c hc => by
      rw [hf j _ c hc]
      exact mt of_decide_eq_true hj
  rw [rows_commands hl,List.filter_flatMap]
  induction l with
  | nil => exact absurd hi List.not_mem_nil
  | cons a l ih =>
    obtain ⟨ha,hl⟩ := List.nodup_cons.mp hl
    rw [List.flatMap_cons]
    by_cases hia : a=i
    · subst hia
      rw [hself a,List.flatMap_eq_nil_iff.mpr fun j hj => hother (ne_of_mem_of_not_mem hj ha),
        List.append_nil]
    · rw [hother hia,ih hl ((List.mem_cons.mp hi).resolve_left (Ne.symm hia)),List.nil_append]

end Rows

end Traced

end BT816Display
