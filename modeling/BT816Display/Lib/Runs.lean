import Mathlib.Data.List.Induction

/-!
# Properties of runs given by their inputs

A run is a list of inputs; the state after it is a function of the list. An
invariant that each input preserves under a side condition holds after every
run whose inputs all meet it, and when breaking the condition breaks the
property in the very next state, the condition is exact.
-/

namespace BT816Display.Runs

variable {ι : Type*} {Inv P : List ι → Prop} {C : List ι → ι → Prop}

/-- Every input of a run meets the condition in the state before it. -/
def InputsMeet (C : List ι → ι → Prop) (ops : List ι) : Prop :=
  ∀ pre o post,pre++o::post=ops → C pre o

/-- The property holds in every state of a run. -/
def Throughout (P : List ι → Prop) (ops : List ι) : Prop :=
  ∀ pre post,pre++post=ops → P pre

/-- A run whose inputs meet a condition has such a beginning. -/
theorem InputsMeet.of_append {ops ops' : List ι} (h : InputsMeet C (ops++ops')) :
    InputsMeet C ops := by
  intro pre o post he
  exact h pre o (post++ops') (by rw [←he,List.append_assoc,List.cons_append])

/-- A further input that meets the condition. -/
theorem InputsMeet.concat {ops : List ι} {o : ι} (h : InputsMeet C ops) (ho : C ops o) :
    InputsMeet C (ops++[o]) := by
  intro pre o' post he
  rcases List.eq_nil_or_concat post with rfl|⟨post',o'',rfl⟩
  · obtain ⟨rfl,hlast⟩ := List.append_inj' he rfl
    cases hlast
    exact ho
  · rw [List.concat_eq_append,←List.cons_append,←List.append_assoc] at he
    exact h pre o' post' (List.append_inj' he rfl).1

/-- What holds throughout a run holds throughout its beginning. -/
theorem Throughout.of_append {ops ops' : List ι} (h : Throughout P (ops++ops')) :
    Throughout P ops := by
  intro pre post he
  exact h pre (post++ops') (by rw [←he,List.append_assoc])

/-- Two conditions met by the inputs are met together. -/
theorem InputsMeet.and {C' : List ι → ι → Prop} {ops : List ι} (h : InputsMeet C ops)
    (h' : InputsMeet C' ops) : InputsMeet (fun pre o => C pre o ∧ C' pre o) ops :=
  fun pre o post he => ⟨h pre o post he,h' pre o post he⟩

/-- A condition on the inputs alone. -/
theorem InputsMeet.of_forall {D : ι → Prop} {ops : List ι} (h : ∀ o∈ops,D o) :
    InputsMeet (fun _ o => D o) ops := by
  intro pre o post he
  exact h o (by rw [←he]; exact List.mem_append_right _ List.mem_cons_self)

/-- A property of every state is one of the state behind every input. -/
theorem Throughout.inputsMeet {ops : List ι} (h : Throughout P ops) :
    InputsMeet (fun pre o => P (pre++[o])) ops := by
  intro pre o post he
  exact h (pre++[o]) post (by rw [←he,List.append_assoc,List.singleton_append])

/-- The invariant holds after every run whose inputs meet the condition. -/
theorem inv_of_inputsMeet (h0 : Inv []) (hstep : ∀ pre o,Inv pre → C pre o → Inv (pre++[o]))
    {ops : List ι} (h : InputsMeet C ops) : Inv ops := by
  induction ops using List.reverseRecOn with
  | nil => exact h0
  | append_singleton ops o ih => exact hstep ops o (ih h.of_append) (h ops o [] rfl)

/-- When the invariant gives the property, is kept by every input that meets
the condition, and the property fails right after any other input, a run has
the property in all its states exactly when all its inputs meet the condition. -/
theorem throughout_iff_inputsMeet (h0 : Inv []) (hP : ∀ pre,Inv pre → P pre)
    (hstep : ∀ pre o,Inv pre → C pre o → Inv (pre++[o]))
    (hbad : ∀ pre o,Inv pre → ¬C pre o → ¬P (pre++[o])) (ops : List ι) :
    Throughout P ops ↔ InputsMeet C ops := by
  constructor
  · intro h
    induction ops using List.reverseRecOn with
    | nil =>
      intro pre o post he
      exact absurd he (by simp)
    | append_singleton ops o ih =>
      have hmeet := ih h.of_append
      have hinv := inv_of_inputsMeet h0 hstep hmeet
      have hlast : C ops o := by
        by_contra hc
        exact hbad ops o hinv hc (h (ops++[o]) [] (List.append_nil _))
      exact hmeet.concat hlast
  · intro h pre post he
    apply hP
    rw [←he] at h
    exact inv_of_inputsMeet h0 hstep h.of_append

/-- Two conditions that are the same wherever the invariant holds, which the
inputs that meet them keep, are met by the same runs. -/
theorem inputsMeet_congr {C' : List ι → ι → Prop} (h0 : Inv [])
    (hiff : ∀ pre o,Inv pre → (C pre o ↔ C' pre o))
    (hstep : ∀ pre o,Inv pre → C pre o → Inv (pre++[o])) (ops : List ι) :
    InputsMeet C ops ↔ InputsMeet C' ops := by
  have hstep' : ∀ pre o,Inv pre → C' pre o → Inv (pre++[o]) :=
    fun pre o hinv hc => hstep pre o hinv ((hiff pre o hinv).mpr hc)
  constructor
  · intro h pre o post he
    have hpre : InputsMeet C pre := InputsMeet.of_append (he.symm ▸ h : InputsMeet C (pre++o::post))
    exact (hiff pre o (inv_of_inputsMeet h0 hstep hpre)).mp (h pre o post he)
  · intro h pre o post he
    have hpre : InputsMeet C' pre :=
      InputsMeet.of_append (he.symm ▸ h : InputsMeet C' (pre++o::post))
    exact (hiff pre o (inv_of_inputsMeet h0 hstep' hpre)).mpr (h pre o post he)

/-- A property that holds at the end of a run and not at its start is entered
by one of the inputs. -/
theorem exists_entry (h0 : ¬P []) {ops : List ι} (h : P ops) :
    ∃ pre o post,pre++o::post=ops ∧ ¬P pre ∧ P (pre++[o]) := by
  induction ops using List.reverseRecOn with
  | nil => exact absurd h h0
  | append_singleton ops o ih =>
    by_cases hp : P ops
    · obtain ⟨pre,o',post,rfl,hpre,hentry⟩ := ih hp
      exact ⟨pre,o',post++[o],by rw [List.append_assoc,List.cons_append],hpre,hentry⟩
    · exact ⟨ops,o,[],rfl,hp,h⟩

/-! ## Steps that may have no result -/

section Steps

variable {σ : Type*} {step : σ → ι → Option σ} {s : σ}

/-- A run does its inputs one after the other. -/
theorem foldlM_concat (step : σ → ι → Option σ) (s : σ) (ops : List ι) (op : ι) :
    (ops++[op]).foldlM step s=(ops.foldlM step s).bind fun s' => step s' op := by
  rw [List.foldlM_append]
  refine congrArg (Option.bind _) (funext fun s' => ?_)
  exact (List.foldlM_cons ..).trans (Option.bind_fun_some _)

/-- An invariant of the steps holds after every run whose inputs all have a
result, and there is such a state. -/
theorem foldlM_invariant {G : ι → Prop} {K : σ → Prop} (h0 : K s)
    (hsome : ∀ s op,G op → (step s op).isSome)
    (hstep : ∀ s s' op,K s → step s op=some s' → K s') {ops : List ι}
    (hops : ∀ op∈ops,G op) : ∃ s',ops.foldlM step s=some s' ∧ K s' := by
  induction ops using List.reverseRecOn with
  | nil => exact ⟨s,rfl,h0⟩
  | append_singleton ops op ih =>
    obtain ⟨r,hr,hkeep⟩ := ih fun o ho => hops o (List.mem_append_left _ ho)
    have hgood := hops op (List.mem_append_right _ List.mem_cons_self)
    obtain ⟨s',hs'⟩ := Option.isSome_iff_exists.mp (hsome r op hgood)
    exact ⟨s',by rw [foldlM_concat,hr]; exact hs',hstep r s' op hkeep hs'⟩

end Steps

end BT816Display.Runs
