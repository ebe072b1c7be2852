import BT816Display.Lib.Frames
import Mathlib.Data.List.Flatten
import Mathlib.Logic.Relation

/-!
# A bounded buffer of self-delimiting values

Blocks of words are put into a buffer of a limited size, and a consumer takes
the values that are complete out of it. Neither waits for the other, so the
two come in many orders. In each of them in which the buffer has room for
every block, the consumer takes the values of the whole stream.
-/

namespace BT816Display.FrameFifo

open Frames Relation

variable {W A S : Type*}

/-- The blocks that are still to come, the words in the buffer and the state of
the consumer. -/
structure State (W S : Type*) where
  /-- The blocks to come. -/
  coming : List (List W)
  /-- The words in the buffer. -/
  pending : List W
  /-- The consumer. -/
  consumer : S

variable (enc : A → List W) (P : A → Prop) (act : S → A → S) (capacity : ℕ)

/-- What can come next. -/
inductive Step : State W S → State W S → Prop where
  /-- A block for which there is room is put into the buffer. -/
  | put (block : List W) (coming : List (List W)) (pending : List W) (s : S)
      (room : pending.length+block.length≤capacity) :
      Step ⟨block::coming,pending,s⟩ ⟨coming,pending++block,s⟩
  /-- The consumer takes a value at the head of the buffer. -/
  | take (coming : List (List W)) (a : A) (rest : List W) (s : S) (value : P a) :
      Step ⟨coming,enc a++rest,s⟩ ⟨coming,rest,act s a⟩

/-- Any number of steps. -/
def Run : State W S → State W S → Prop := ReflTransGen (Step enc P act capacity)

variable {enc P act capacity}

/-- The consumer has taken some of the values; the others are in the buffer and
in the blocks to come. -/
def Between (enc : A → List W) (act : S → A → S) (s : S) (as : List A) (t : State W S) : Prop :=
  ∃ done todo,done++todo=as ∧ t.consumer=done.foldl act s ∧
    t.pending++t.coming.flatten=todo.flatMap enc

/-- A step keeps the order of the values. -/
theorem Between.step {read : List W → Option (A×List W)} (h : SelfDelimiting read enc P) {s : S}
    {as : List A} (has : ∀ a∈as,P a) {t t' : State W S} (ht : Between enc act s as t)
    (hstep : Step enc P act capacity t t') : Between enc act s as t' := by
  obtain ⟨done,todo,hsplit,hconsumer,hwords⟩ := ht
  cases hstep with
  | put block coming pending s' room =>
    refine ⟨done,todo,hsplit,hconsumer,?_⟩
    rw [List.flatten_cons] at hwords
    rw [List.append_assoc,hwords]
  | take coming a rest s' value =>
    dsimp only at hconsumer hwords
    rw [List.append_assoc] at hwords
    have hread := h.reads a value (rest++coming.flatten)
    cases todo with
    | nil =>
      have hnil := (List.append_eq_nil_iff.mp hwords).1
      exact absurd hnil (h.ne_nil a value)
    | cons b todo =>
      -- The value at the head of the buffer is the next one of the stream.
      have hb : P b := has b (by rw [←hsplit]; exact List.mem_append_right _ List.mem_cons_self)
      have hnext := h.reads b hb (todo.flatMap enc)
      rw [←List.flatMap_cons,←hwords,hread] at hnext
      obtain ⟨rfl,hrest⟩ := Prod.mk.inj (Option.some.inj hnext)
      refine ⟨done++[a],todo,by rw [←hsplit,List.append_assoc,List.singleton_append],?_,hrest⟩
      rw [List.foldl_append,←hconsumer,List.foldl_cons,List.foldl_nil]

/-- So do the steps of a run. -/
theorem Between.run {read : List W → Option (A×List W)} (h : SelfDelimiting read enc P) {s : S}
    {as : List A} (has : ∀ a∈as,P a) {t t' : State W S} (ht : Between enc act s as t)
    (hrun : Run enc P act capacity t t') : Between enc act s as t' := by
  induction hrun with
  | refl => exact ht
  | tail _ hstep ih => exact ih.step h has hstep

/-- A run that puts all blocks and empties the buffer has taken the values of
the stream in their order. -/
theorem run_consumes {read : List W → Option (A×List W)} (h : SelfDelimiting read enc P)
    {as : List A} (has : ∀ a∈as,P a) {blocks : List (List W)}
    (hblocks : blocks.flatten=as.flatMap enc) {s s' : S}
    (hrun : Run enc P act capacity ⟨blocks,[],s⟩ ⟨[],[],s'⟩) : s'=as.foldl act s := by
  have hstart : Between enc act s as ⟨blocks,[],s⟩ := ⟨[],as,rfl,rfl,hblocks⟩
  obtain ⟨done,todo,hsplit,hconsumer,hwords⟩ := hstart.run h has hrun
  have htodo : todo=[] := by
    cases todo with
    | nil => rfl
    | cons b todo =>
      have hb : P b := has b (by rw [←hsplit]; exact List.mem_append_right _ List.mem_cons_self)
      rw [List.flatMap_cons] at hwords
      exact absurd (List.append_eq_nil_iff.mp hwords.symm).1 (h.ne_nil b hb)
  rw [htodo,List.append_nil] at hsplit
  rw [←hsplit]
  exact hconsumer

/-- The same for blocks that are whole values. -/
theorem run_groups {read : List W → Option (A×List W)} (h : SelfDelimiting read enc P)
    {groups : List (List A)} (hvalues : ∀ g∈groups,∀ a∈g,P a) {s s' : S}
    (hrun : Run enc P act capacity ⟨groups.map (·.flatMap enc),[],s⟩ ⟨[],[],s'⟩) :
    s'=groups.flatten.foldl act s := by
  have has : ∀ a∈groups.flatten,P a := by
    intro a ha
    obtain ⟨g,hg,ha⟩ := List.mem_flatten.mp ha
    exact hvalues g hg a ha
  have hwords : (groups.map (·.flatMap enc)).flatten=groups.flatten.flatMap enc := by
    rw [←List.flatMap_def,←List.flatMap_id,List.flatMap_assoc]
    rfl
  exact run_consumes h has hwords hrun

/-- The consumer takes the values in the buffer. -/
theorem run_takes {as : List A} (has : ∀ a∈as,P a) (coming : List (List W)) (s : S) :
    Run enc P act capacity ⟨coming,as.flatMap enc,s⟩ ⟨coming,[],as.foldl act s⟩ := by
  induction as generalizing s with
  | nil => exact .refl
  | cons a as ih =>
    obtain ⟨ha,has⟩ := List.forall_mem_cons.mp has
    rw [List.flatMap_cons,List.foldl_cons]
    exact .head (.take coming a _ s ha) (ih has (act s a))

/-- When every block is whole values and fits the buffer, there is such a run:
the consumer takes each block before the next one is put. -/
theorem run_blocks {groups : List (List A)} (hvalues : ∀ g∈groups,∀ a∈g,P a)
    (hfit : ∀ g∈groups,(g.flatMap enc).length≤capacity) (s : S) :
    Run enc P act capacity ⟨groups.map (·.flatMap enc),[],s⟩
      ⟨[],[],groups.flatten.foldl act s⟩ := by
  induction groups generalizing s with
  | nil => exact .refl
  | cons g groups ih =>
    obtain ⟨hg,hvalues⟩ := List.forall_mem_cons.mp hvalues
    obtain ⟨hroom,hfit⟩ := List.forall_mem_cons.mp hfit
    have hput : Step enc P act capacity ⟨(g::groups).map (·.flatMap enc),[],s⟩
        ⟨groups.map (·.flatMap enc),g.flatMap enc,s⟩ :=
      .put _ _ [] s (by rwa [List.length_nil,Nat.zero_add])
    rw [List.flatten_cons,List.foldl_append]
    exact (ReflTransGen.head hput (run_takes hg _ s)).trans (ih hvalues hfit _)

end BT816Display.FrameFifo
