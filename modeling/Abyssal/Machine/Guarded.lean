import Mathlib.Logic.Basic

/-!
# Machines driven by guarded events

Where a property holds only as long as the events meet some condition, the condition is a relation
between the state and the event about to be taken, and what is proved is proved of the states that
such events alone can reach.
-/

namespace Abyssal.Machine

variable {σ ε : Type*} (step : σ → ε → σ) (ok : σ → ε → Prop)

/-- The states reached from `s₀` by events each of which meets `ok` when it is taken. -/
inductive Reached (s₀ : σ) : σ → Prop where
  | start : Reached s₀ s₀
  | next {s : σ} {e : ε} (h : Reached s₀ s) (hok : ok s e) : Reached s₀ (step s e)

variable {step ok}

theorem Reached.inv {I : σ → Prop} {s₀ s : σ} (h : Reached step ok s₀ s) (h₀ : I s₀)
    (hstep : ∀ s e, I s → ok s e → I (step s e)) : I s := by
  induction h with
  | start => exact h₀
  | next _ hok ih => exact hstep _ _ ih hok

theorem Reached.trans {s₀ s₁ s₂ : σ} (h₁ : Reached step ok s₀ s₁)
    (h₂ : Reached step ok s₁ s₂) : Reached step ok s₀ s₂ := by
  induction h₂ with
  | start => exact h₁
  | next _ hok ih => exact .next ih hok

variable (step ok) in
/-- Whether each event of a list meets the condition in the state it is taken in. -/
def allows [∀ s e, Decidable (ok s e)] (s : σ) : List ε → Bool
  | [] => true
  | e :: es => decide (ok s e) && allows (step s e) es

theorem reached_of_allows [∀ s e, Decidable (ok s e)] {s : σ} {es : List ε}
    (h : allows step ok s es) : Reached step ok s (es.foldl step s) := by
  induction es generalizing s with
  | nil => exact .start
  | cons _ _ ih =>
    rw [allows, Bool.and_eq_true, decide_eq_true_eq] at h
    exact (Reached.next .start h.1).trans (ih h.2)

theorem reached_foldl {es : List ε} (h : ∀ e ∈ es, ∀ s, ok s e) (s : σ) :
    Reached step ok s (es.foldl step s) := by
  induction es generalizing s with
  | nil => exact .start
  | cons _ _ ih =>
    obtain ⟨he, hes⟩ := List.forall_mem_cons.1 h
    exact (Reached.next .start (he s)).trans (ih hes _)

end Abyssal.Machine
