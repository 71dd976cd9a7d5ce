import Mathlib.Logic.Function.Basic

/-!
# Partial maps

A table whose keys are not bounded is a function to `Option`, and `Function.update` sets one entry
of it. These are the rules for looking up what is in it afterwards.
-/

namespace Abyssal.Table

open Function

variable {α β : Type*} [DecidableEq α] {f : α → Option β} {a x : α} {b y : β}

theorem update_eq_some : update f a (some b) x = some y ↔ x = a ∧ b = y ∨ x ≠ a ∧ f x = some y := by
  by_cases hx : x = a
  · subst hx
    rw [update_self, Option.some.injEq]
    simp
  · rw [update_of_ne hx]
    simp [hx]

theorem update_of_eq_some (ha : f a = none) (hx : f x = some y) (b : Option β) :
    update f a b x = some y := by
  rw [update_of_ne, hx]
  rintro rfl
  cases ha.symm.trans hx

theorem forall_update {P : α → β → Prop} (h : ∀ x y, f x = some y → P x y) (hb : P a b) :
    ∀ x y, update f a (some b) x = some y → P x y := by
  intro x y hy
  rcases update_eq_some.1 hy with ⟨rfl, rfl⟩ | ⟨-, hy⟩
  · exact hb
  · exact h x y hy

/-! ### Entries that belong to an entry of another table -/

section Linked

variable {γ δ : Type*} [DecidableEq γ] {g : γ → Option δ} {link : β → γ} {c : γ} {r r' : δ}
  {P : α → β → δ → Prop} (h : ∀ x y, f x = some y → ∃ r, g (link y) = some r ∧ P x y r)
include h

omit [DecidableEq α] in
theorem linked_update (hr : ∀ r, g c = some r → ∀ x y, P x y r → P x y r') :
    ∀ x y, f x = some y → ∃ r, update g c (some r') (link y) = some r ∧ P x y r := by
  intro x y hy
  obtain ⟨r, hg, hP⟩ := h x y hy
  by_cases hc : link y = c
  · exact ⟨r', update_eq_some.2 (.inl ⟨hc, rfl⟩), hr r (hc ▸ hg) x y hP⟩
  · exact ⟨r, update_eq_some.2 (.inr ⟨hc, hg⟩), hP⟩

theorem linked_update_both (hg : g (link b) = some r) (hr : ∀ x y, x ≠ a → P x y r → P x y r')
    (hb : P a b r') : ∀ x y, update f a (some b) x = some y →
      ∃ r, update g (link b) (some r') (link y) = some r ∧ P x y r := by
  intro x y hy
  rcases update_eq_some.1 hy with ⟨rfl, rfl⟩ | ⟨hne, hy⟩
  · exact ⟨r', update_eq_some.2 (.inl ⟨rfl, rfl⟩), hb⟩
  · obtain ⟨r₁, hg₁, hP⟩ := h x y hy
    by_cases hc : link y = link b
    · cases hg.symm.trans (hc ▸ hg₁)
      exact ⟨r', update_eq_some.2 (.inl ⟨hc, rfl⟩), hr x y hne hP⟩
    · exact ⟨r₁, update_eq_some.2 (.inr ⟨hc, hg₁⟩), hP⟩

end Linked

end Abyssal.Table
