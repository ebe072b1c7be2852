import Mathlib.Data.List.Induction
import Mathlib.Data.List.Forall2

/-!
# The last entry of a history with a property

In a history, oldest entry first, the last entry with a property splits the
history into what came before it and what came after.
-/

namespace BT816Display.LastOccurrence

variable {α : Type*} {P Q : α → Prop} {l rest : List α} {x a : α}

/-- `x` is the last entry with the property, and `rest` came after it. -/
def Last (P : α → Prop) (l : List α) (x : α) (rest : List α) : Prop :=
  ∃ pre,l=pre++x::rest ∧ P x ∧ ∀ y∈rest,¬P y

/-- The last one that has the property has it. -/
theorem Last.prop (h : Last P l x rest) : P x := by
  obtain ⟨_,_,hx,_⟩ := h
  exact hx

/-- It is in the list. -/
theorem Last.mem (h : Last P l x rest) : x∈l := by
  obtain ⟨pre,rfl,-⟩ := h
  exact List.mem_append_right pre List.mem_cons_self

/-- So is what comes behind it. -/
theorem Last.mem_of_rest (h : Last P l x rest) {y : α} (hy : y∈rest) : y∈l := by
  obtain ⟨pre,rfl,-⟩ := h
  exact List.mem_append_right pre (List.mem_cons_of_mem x hy)

/-- An empty list has none. -/
theorem not_last_nil : ¬Last P [] x rest := by
  rintro ⟨pre,h,-⟩
  cases pre <;> cases h

/-- A new entry with the property is the last one. -/
theorem last_concat_of_prop (h : P a) : Last P (l++[a]) x rest ↔ x=a ∧ rest=[] := by
  constructor
  · rintro ⟨pre,he,-,hrest⟩
    rcases List.eq_nil_or_concat rest with rfl|⟨rest',b,rfl⟩
    · have hlast := List.append_inj' he rfl
      exact ⟨(List.cons.inj hlast.2).1.symm,rfl⟩
    · rw [List.concat_eq_append,←List.cons_append,←List.append_assoc] at he
      have hlast := List.append_inj' he rfl
      have hb : a=b := (List.cons.inj hlast.2).1
      subst hb
      exact absurd h (hrest a (by simp))
  · rintro ⟨rfl,rfl⟩
    exact ⟨l,rfl,h,fun y hy => absurd hy List.not_mem_nil⟩

/-- A new entry without the property comes after the last one. -/
theorem last_concat_of_not (h : ¬P a) :
    Last P (l++[a]) x rest ↔ ∃ rest',rest=rest'++[a] ∧ Last P l x rest' := by
  constructor
  · rintro ⟨pre,he,hx,hrest⟩
    rcases List.eq_nil_or_concat rest with rfl|⟨rest',b,rfl⟩
    · have hlast := List.append_inj' he rfl
      have hxa : a=x := (List.cons.inj hlast.2).1
      exact absurd (hxa ▸ hx) h
    · rw [List.concat_eq_append] at he hrest ⊢
      rw [←List.cons_append,←List.append_assoc] at he
      obtain ⟨hl,hb⟩ := List.append_inj' he rfl
      rw [(List.cons.inj hb).1]
      exact ⟨rest',rfl,pre,hl,hx,fun y hy => hrest y (List.mem_append_left _ hy)⟩
  · rintro ⟨rest',rfl,pre,rfl,hx,hrest⟩
    refine ⟨pre,by rw [List.append_assoc,List.cons_append],hx,fun y hy => ?_⟩
    rcases List.mem_append.mp hy with hy|hy
    · exact hrest y hy
    · rw [List.mem_singleton.mp hy]
      exact h

/-- A history with an entry that has the property has a last one. -/
theorem exists_last (h : ∃ y∈l,P y) : ∃ x rest,Last P l x rest := by
  induction l using List.reverseRecOn with
  | nil =>
    obtain ⟨y,hy,-⟩ := h
    exact absurd hy List.not_mem_nil
  | append_singleton l a ih =>
    by_cases ha : P a
    · exact ⟨a,[],(last_concat_of_prop ha).mpr ⟨rfl,rfl⟩⟩
    · obtain ⟨y,hy,hP⟩ := h
      rcases List.mem_append.mp hy with hy|hy
      · obtain ⟨x,rest,hx⟩ := ih ⟨y,hy,hP⟩
        exact ⟨x,rest++[a],(last_concat_of_not ha).mpr ⟨rest,rfl,hx⟩⟩
      · rw [List.mem_singleton.mp hy] at hP
        exact absurd hP ha

/-- The last entry with a property also is the last one with a stronger
property that it has. -/
theorem Last.refine (h : Last P l x rest) (hx : Q x) (hQ : ∀ y,Q y → P y) : Last Q l x rest := by
  obtain ⟨pre,he,-,hrest⟩ := h
  exact ⟨pre,he,hx,fun y hy hq => hrest y hy (hQ y hq)⟩

/-! ## Related histories -/

section Related

variable {β : Type*} {R : α → β → Prop} {l' : List β}

/-- A history related to a split one is split alike. -/
theorem split_of_forall₂ {pre rest : List α} (h : List.Forall₂ R (pre++x::rest) l') :
    ∃ pre' x' rest',l'=pre'++x'::rest' ∧ List.Forall₂ R pre pre' ∧ R x x' ∧
      List.Forall₂ R rest rest' := by
  induction pre generalizing l' with
  | nil =>
    cases h with
    | cons hx hrest => exact ⟨[],_,_,rfl,.nil,hx,hrest⟩
  | cons a pre ih =>
    cases h with
    | cons ha hrest =>
      obtain ⟨pre',x',rest',rfl,hpre,hx,hrest'⟩ := ih hrest
      exact ⟨_::pre',x',rest',rfl,.cons ha hpre,hx,hrest'⟩

/-- The last entries of related histories are related, when the relation keeps
the property. -/
theorem Last.related {P' : β → Prop} (hP : ∀ x y,R x y → (P x ↔ P' y)) (hl : List.Forall₂ R l l')
    (h : Last P l x rest) : ∃ x' rest',Last P' l' x' rest' ∧ R x x' ∧ List.Forall₂ R rest rest' := by
  obtain ⟨pre,rfl,hx,hrest⟩ := h
  obtain ⟨pre',x',rest',rfl,-,hxx,hrr⟩ := split_of_forall₂ hl
  refine ⟨x',rest',⟨pre',rfl,(hP x x' hxx).mp hx,?_⟩,hxx,hrr⟩
  clear hl
  induction hrr with
  | nil => exact fun y hy => absurd hy List.not_mem_nil
  | cons hab _ ih =>
    intro y hy
    rw [List.forall_mem_cons] at hrest
    rcases List.mem_cons.mp hy with rfl|hy
    · exact fun hp => hrest.1 ((hP _ _ hab).mpr hp)
    · exact ih hrest.2 y hy

end Related

end BT816Display.LastOccurrence
