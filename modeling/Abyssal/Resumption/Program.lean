import Mathlib.Logic.Function.Basic

/-!
# Resumption programs

A program either returns a value, or performs an operation `op` and goes on in a way that depends on
the answer in `Resp op`. The meaning of the operations is a function `exec` that reads, besides the
state, a choice made by the environment, so that every behaviour of a program is one sequence of
choices.
-/

universe u v w

namespace Resumption

/-- The operation `op` is answered in `Resp op`. -/
inductive Prog (Op : Type u) (Resp : Op → Type v) (α : Type w) : Type (max u v w)
  | ret (a : α) : Prog Op Resp α
  | call (op : Op) (k : Resp op → Prog Op Resp α) : Prog Op Resp α

namespace Prog

variable {Op : Type u} {Resp : Op → Type v} {α β γ : Type w}

def bind : Prog Op Resp α → (α → Prog Op Resp β) → Prog Op Resp β
  | ret a, f => f a
  | call op k, f => call op fun r => (k r).bind f

instance : Monad (Prog Op Resp) where
  pure := ret
  bind := bind

def perform {Resp : Op → Type w} (op : Op) : Prog Op Resp (Resp op) := call op ret

@[simp] theorem pure_eq_ret (a : α) : (pure a : Prog Op Resp α) = ret a := rfl

@[simp] theorem ret_bind (a : α) (f : α → Prog Op Resp β) : (ret a >>= f) = f a := rfl

@[simp] theorem call_bind (op : Op) (k : Resp op → Prog Op Resp α) (f : α → Prog Op Resp β) :
    (call op k >>= f) = call op fun r => k r >>= f := rfl

@[simp] theorem perform_bind {Resp : Op → Type w} (op : Op) (f : Resp op → Prog Op Resp β) :
    (perform op >>= f) = call op f := rfl

@[simp] theorem bind_ret (p : Prog Op Resp α) : (p >>= ret) = p := by
  induction p with
  | ret => rfl
  | call op k ih => exact congrArg (call op) (funext ih)

theorem bind_assoc (p : Prog Op Resp α) (f : α → Prog Op Resp β) (g : β → Prog Op Resp γ) :
    (p >>= f >>= g) = p >>= fun a => f a >>= g := by
  induction p with
  | ret => rfl
  | call op k ih => exact congrArg (call op) (funext ih)

instance : LawfulMonad (Prog Op Resp) :=
  LawfulMonad.mk' (Prog Op Resp) (fun p => bind_ret p) (fun _ _ => rfl)
    fun p f g => bind_assoc p f g

/-! ### What can be left of a program -/

/-- `q` is what is left of `p` after some of its operations were answered. -/
def Residual : Prog Op Resp α → Prog Op Resp α → Prop
  | ret a, q => q = ret a
  | call op k, q => q = call op k ∨ ∃ r, (k r).Residual q

theorem residual_refl (p : Prog Op Resp α) : p.Residual p := by
  cases p with
  | ret => rfl
  | call => exact .inl rfl

variable {p : Prog Op Resp α} {op : Op} {k : Resp op → Prog Op Resp α}

theorem Residual.answer (h : p.Residual (call op k)) (r : Resp op) : p.Residual (k r) := by
  induction p with
  | ret => cases h
  | call _ _ ih =>
    rcases h with h | ⟨r', h⟩
    · cases h
      exact .inr ⟨r, residual_refl _⟩
    · exact .inr ⟨r', ih r' h⟩

variable {f : α → Prog Op Resp β}

theorem residual_bind {q : Prog Op Resp β} (h : (p >>= f).Residual q) :
    (∃ op k, p.Residual (call op k) ∧ q = call op k >>= f) ∨ ∃ a, (f a).Residual q := by
  induction p with
  | ret a => exact .inr ⟨a, h⟩
  | call op k ih =>
    rcases h with rfl | ⟨r, h⟩
    · exact .inl ⟨op, k, residual_refl _, rfl⟩
    · rcases ih r h with ⟨op', k', hk', rfl⟩ | ha
      · exact .inl ⟨op', k', .inr ⟨r, hk'⟩, rfl⟩
      · exact .inr ha

def Avoids (bad : Op → Prop) : Prog Op Resp α → Prop
  | ret _ => True
  | call op k => ¬ bad op ∧ ∀ r, (k r).Avoids bad

variable {bad : Op → Prop}

theorem Avoids.bind (hp : p.Avoids bad) (hf : ∀ a, (f a).Avoids bad) : (p >>= f).Avoids bad := by
  induction p with
  | ret a => exact hf a
  | call _ _ ih => exact ⟨hp.1, fun r => ih r (hp.2 r)⟩

theorem Avoids.residual (hp : p.Avoids bad) (h : p.Residual (call op k)) : ¬ bad op := by
  induction p with
  | ret => cases h
  | call _ _ ih =>
    rcases h with h | ⟨r, h⟩
    · cases h
      exact hp.1
    · exact ih r (hp.2 r) h

/-- Every operation of the program satisfies `Q`, with what follows it. -/
def Calls (Q : (op : Op) → (Resp op → Prog Op Resp α) → Prop) : Prog Op Resp α → Prop
  | ret _ => True
  | call op k => Q op k ∧ ∀ r, (k r).Calls Q

theorem Calls.bind {Q : (op : Op) → (Resp op → Prog Op Resp β) → Prop}
    (hp : p.Calls fun op k => Q op fun r => k r >>= f) (hf : ∀ a, (f a).Calls Q) :
    (p >>= f).Calls Q := by
  induction p with
  | ret a => exact hf a
  | call _ _ ih => exact ⟨hp.1, fun r => ih r (hp.2 r)⟩

theorem Calls.residual {Q : (op : Op) → (Resp op → Prog Op Resp α) → Prop} (hp : p.Calls Q)
    (h : p.Residual (call op k)) : Q op k := by
  induction p with
  | ret => cases h
  | call _ _ ih =>
    rcases h with h | ⟨r, h⟩
    · cases h
      exact hp.1
    · exact ih r (hp.2 r) h

/-! ### Runs without interference -/

section Alone

variable {σ χ : Type*} (exec : (op : Op) → χ → σ → σ × Resp op)

/-- The run of a program in which the environment resolves each operation `op` by `ω op`. -/
def run (ω : Op → χ) : Prog Op Resp α → σ → α × σ
  | ret a, s => (a, s)
  | call op k, s => (k (exec op (ω op) s).2).run ω (exec op (ω op) s).1

@[simp] theorem run_ret (ω : Op → χ) (a : α) (s : σ) :
    (ret a : Prog Op Resp α).run exec ω s = (a, s) := rfl

@[simp] theorem run_call (ω : Op → χ) (op : Op) (k : Resp op → Prog Op Resp α) (s : σ) :
    (call op k).run exec ω s = (k (exec op (ω op) s).2).run exec ω (exec op (ω op) s).1 := rfl

@[simp] theorem run_bind (ω : Op → χ) (p : Prog Op Resp α) (f : α → Prog Op Resp β) (s : σ) :
    (p >>= f).run exec ω s = (f (p.run exec ω s).1).run exec ω (p.run exec ω s).2 := by
  induction p generalizing s with
  | ret => rfl
  | call _ _ ih => exact ih _ _

end Alone

/-!
## Histories of a program

A history of a program lists the operations it performed so far with their answers. What is left
after a history is a program again. A call that is dropped has a history, and it is at the
operation that comes next.
-/

/-- After the answered operations of `l`, the program `q` is left of `p`. -/
def After : Prog Op Resp α → List (Σ op, Resp op) → Prog Op Resp α → Prop
  | p, [], q => q = p
  | ret _, _ :: _, _ => False
  | call op k, x :: l, q => ∃ r, x = ⟨op, r⟩ ∧ (k r).After l q

variable {p : Prog Op Resp α} {l : List (Σ op, Resp op)}

/-- A history of `p >>= f` is one of `p`, not at its end, or ends `p` and goes on in `f`. -/
theorem after_bind {f : α → Prog Op Resp β} {q : Prog Op Resp β} (h : (p >>= f).After l q) :
    (∃ op k, p.After l (call op k) ∧ q = call op k >>= f) ∨
      ∃ l₁ a l₂, l = l₁ ++ l₂ ∧ p.After l₁ (ret a) ∧ (f a).After l₂ q := by
  induction p generalizing l with
  | ret a => exact .inr ⟨[], a, l, rfl, rfl, h⟩
  | call op k ih =>
    cases l with
    | nil => exact .inl ⟨op, k, rfl, h⟩
    | cons =>
      obtain ⟨r, rfl, h⟩ := h
      rcases ih r h with ⟨op', k', hk', rfl⟩ | ⟨l₁, a, l₂, rfl, hp, hf⟩
      · exact .inl ⟨op', k', ⟨r, rfl, hk'⟩, rfl⟩
      · exact .inr ⟨⟨op, r⟩ :: l₁, a, l₂, rfl, ⟨r, rfl, hp⟩, hf⟩

theorem Avoids.after {bad : Op → Prop} {q : Prog Op Resp α}
    (hp : p.Avoids bad) (h : p.After l q) : ∀ x ∈ l, ¬ bad x.1 := by
  induction l generalizing p with
  | nil => simp
  | cons x l ih =>
    cases p with
    | ret => exact h.elim
    | call =>
      obtain ⟨r, rfl, h⟩ := h
      exact List.forall_mem_cons.2 ⟨hp.1, ih (hp.2 r) h⟩

/-- A program whose operations are some of a larger collection. -/
def lift {Op' : Type u} {Resp' : Op' → Type v} :
    Prog Op Resp α → Prog (Op ⊕ Op') (Sum.elim Resp Resp') α
  | ret a => ret a
  | call op k => call (.inl op) fun r => (k r).lift

theorem avoids_lift {Op' : Type u} {Resp' : Op' → Type v} (p : Prog Op Resp α) :
    (p.lift : Prog (Op ⊕ Op') (Sum.elim Resp Resp') α).Avoids fun op => op.isRight := by
  induction p with
  | ret => trivial
  | call _ _ ih => exact ⟨by simp, ih⟩

end Prog

end Resumption
