import Mathlib.Data.List.Basic
import Mathlib.Tactic.Common

/-!
# Self-delimiting codes

A value is written as a nonempty list of words, and a reader finds its end
without looking at what follows. Then a stream of values is read back.
-/

namespace BT816Display.Frames

variable {W A : Type*}

/-- Read values one after another until nothing is left. -/
def readAll (read : List W → Option (A×List W)) : ℕ → List W → Option (List A)
  | _,[] => some []
  | 0,_::_ => none
  | fuel+1,w::ws => (read (w::ws)).bind fun r => (readAll read fuel r.2).map (r.1::·)

/-- Read a whole stream. -/
def readStream (read : List W → Option (A×List W)) (ws : List W) : Option (List A) :=
  readAll read ws.length ws

/-- The values that satisfy `P` are read back from their words, whatever
follows them. -/
structure SelfDelimiting (read : List W → Option (A×List W)) (enc : A → List W) (P : A → Prop) :
    Prop where
  /-- A value has a word. -/
  ne_nil : ∀ a,P a → enc a≠[]
  /-- The reader stops behind it. -/
  reads : ∀ a,P a → ∀ rest,read (enc a++rest)=some (a,rest)

namespace SelfDelimiting

variable {read : List W → Option (A×List W)} {enc : A → List W} {P : A → Prop}

/-- Frames written one after another are read back one by one, given a fuel of their bytes. -/
theorem readAll_flatMap (h : SelfDelimiting read enc P) {as : List A} (has : ∀ a∈as,P a)
    {fuel : ℕ} (hfuel : (as.flatMap enc).length≤fuel) :
    readAll read fuel (as.flatMap enc)=some as := by
  induction as generalizing fuel with
  | nil => cases fuel <;> rfl
  | cons a as ih =>
    obtain ⟨ha,hrest⟩ := List.forall_mem_cons.mp has
    obtain ⟨w,ws,hwords⟩ := List.exists_cons_of_ne_nil (h.ne_nil a ha)
    have hread := h.reads a ha (as.flatMap enc)
    rw [List.flatMap_cons] at hfuel ⊢
    rw [hwords,List.cons_append] at hread hfuel ⊢
    rw [List.length_cons,List.length_append] at hfuel
    cases fuel with
    | zero => exact absurd hfuel (Nat.not_succ_le_zero _)
    | succ fuel =>
      have ih := @ih hrest fuel (by omega)
      rw [readAll,hread,Option.bind_some,ih,Option.map_some]

/-- A stream of values is read back. -/
theorem readStream_flatMap (h : SelfDelimiting read enc P) {as : List A} (has : ∀ a∈as,P a) :
    readStream read (as.flatMap enc)=some as := h.readAll_flatMap has (Nat.le_refl _)

end SelfDelimiting

end BT816Display.Frames
