import Mathlib.Data.Nat.Notation
import Mathlib.Order.Basic

/-!
# Programs that end

A loop without a bound is a function of fuel, which has no result when the fuel
runs out. A program ends when all fuel from some amount on brings it to one
result and one state.
-/

namespace BT816Display.Total

variable {σ α β : Type} {s s' : σ} {a : α}

/-- A program over a state, given fuel for its loops. -/
abbrev Program (σ α : Type) := ℕ → StateT σ Option α

/-- Rounds until one has a result. -/
def untilSome (body : StateT σ Option (Option α)) : Program σ α
  | 0 => failure
  | fuel+1 => do
    match ← body with
    | some a => return a
    | none => untilSome body fuel

/-- With enough fuel the program ends, as `Q` says. -/
def Ends (p : Program σ α) (s : σ) (Q : α → σ → Prop) : Prop :=
  ∃ n a s',Q a s' ∧ ∀ fuel≥n,p fuel s=some (a,s')

variable {p : Program σ α} {Q : α → σ → Prop}

/-- A program without a loop. -/
theorem ends_of_run (h : ∀ fuel,p fuel s=some (a,s')) (hQ : Q a s') : Ends p s Q :=
  ⟨0,a,s',hQ,fun fuel _ => h fuel⟩

theorem Ends.mono {Q' : α → σ → Prop} (h : Ends p s Q) (hQ : ∀ a s',Q a s' → Q' a s') :
    Ends p s Q' := by
  obtain ⟨n,a,s',ha,hn⟩ := h
  exact ⟨n,a,s',hQ a s' ha,hn⟩

/-- One program after another. -/
theorem Ends.bind {q : α → Program σ β} {R : β → σ → Prop} (h : Ends p s Q)
    (hq : ∀ a s',Q a s' → Ends (q a) s' R) :
    Ends (fun fuel => p fuel >>= fun a => q a fuel) s R := by
  obtain ⟨n,a,s',ha,hn⟩ := h
  obtain ⟨n',b,s'',hb,hn'⟩ := hq a s' ha
  refine ⟨max n n',b,s'',hb,fun fuel hfuel => ?_⟩
  have hfirst := hn fuel (Nat.le_trans (Nat.le_max_left n n') hfuel)
  have hsecond := hn' fuel (Nat.le_trans (Nat.le_max_right n n') hfuel)
  exact (congrArg (Option.bind · _) hfirst).trans hsecond

/-- A loop ends when every round that keeps going brings a measure down. -/
theorem ends_untilSome {body : StateT σ Option (Option α)} {I : σ → Prop} (μ : σ → ℕ)
    (hround : ∀ s,I s → (∃ a s',body s=some (some a,s') ∧ Q a s') ∨
      ∃ s',body s=some (none,s') ∧ I s' ∧ μ s'<μ s) (hs : I s) : Ends (untilSome body) s Q := by
  induction hμ : μ s using Nat.strongRecOn generalizing s with
  | _ m ih =>
    rcases hround s hs with ⟨a,s',hbody,ha⟩|⟨s',hbody,hs',hless⟩
    · refine ⟨1,a,s',ha,fun fuel hfuel => ?_⟩
      obtain ⟨fuel,rfl⟩ := Nat.exists_eq_add_of_le' hfuel
      exact congrArg (Option.bind · _) hbody
    · obtain ⟨n,a,s'',ha,hn⟩ := ih (μ s') (hμ▸hless) hs' rfl
      refine ⟨n+1,a,s'',ha,fun fuel hfuel => ?_⟩
      obtain ⟨fuel,rfl⟩ := Nat.exists_eq_add_of_le' (Nat.le_of_add_left_le hfuel)
      exact (congrArg (Option.bind · _) hbody).trans (hn fuel (Nat.le_of_succ_le_succ hfuel))

end BT816Display.Total
