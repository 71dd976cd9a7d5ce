import Mathlib.Tactic.SplitIfs

/-!
# Checks in sequence

A handler that makes one check after another and gives up at the first that fails is a
sequence of `ensure` steps in the error monad. The lemmas take such a sequence apart into
the checks.
-/

namespace Abyssal

open List Except

variable {ε α : Type} {p : Prop} [Decidable p] {e : ε}

def ensure {ε : Type} (p : Prop) [Decidable p] (e : ε) : Except ε Unit :=
  if p then .ok () else .error e

def orFail {ε α : Type} (x : Option α) (e : ε) : Except ε α :=
  match x with
  | some a => .ok a
  | none => .error e

variable {a : α}

theorem orFail_eq_ok {x : Option α} : orFail x e = .ok a ↔ x = some a := by
  cases x with
  | none => exact iff_of_false nofun nofun
  | some =>
    exact ⟨fun h => congrArg some (ok.inj h), fun h => congrArg _ (Option.some.inj h)⟩

variable {β : Type} {f : β → Except ε α}

theorem bind_eq_ok {x : Except ε β} : (x >>= f) = .ok a ↔ ∃ b, x = .ok b ∧ f b = .ok a := by
  cases x with
  | error => exact iff_of_false nofun fun ⟨_, h, _⟩ => nomatch h
  | ok b =>
    constructor
    · exact fun h => ⟨b, rfl, h⟩
    · rintro ⟨_, h, h'⟩
      cases h
      exact h'

theorem mapError_eq_ok {ε' : Type} {x : Except ε α} {f : ε → ε'} :
    x.mapError f = .ok a ↔ x = .ok a := by
  cases x with
  | error => exact iff_of_false nofun nofun
  | ok => simp [Except.mapError]

variable {l : List β}

theorem forM_eq_ok {f : β → Except ε Unit} {u : Unit}
    (h : l.forM f = .ok u) : ∀ b ∈ l, f b = .ok () := by
  induction l with
  | nil => exact forall_mem_nil _
  | cons b l ih =>
    obtain ⟨_, hb, hl⟩ := bind_eq_ok.1 h
    exact forall_mem_cons.2 ⟨hb, ih hl⟩

variable {g : β → α}

theorem mapM_eq_ok {P : β → Prop} (hf : ∀ b a, f b = .ok a → P b ∧ a = g b) {as : List α}
    (h : l.mapM f = .ok as) : (∀ b ∈ l, P b) ∧ as = l.map g := by
  induction l generalizing as with
  | nil =>
    rw [mapM_nil] at h
    exact ⟨forall_mem_nil _, (ok.inj h).symm⟩
  | cons b l ih =>
    rw [mapM_cons] at h
    obtain ⟨a, hb, hrest⟩ := bind_eq_ok.1 h
    obtain ⟨as', hl, has⟩ := bind_eq_ok.1 hrest
    obtain ⟨hall, rfl⟩ := ih hl
    obtain ⟨hP, rfl⟩ := hf b a hb
    exact ⟨forall_mem_cons.2 ⟨hP, hall⟩, (ok.inj has).symm⟩

theorem forM_of_forall {f : β → Except ε Unit} (h : ∀ b ∈ l, f b = .ok ()) : l.forM f = .ok () := by
  induction l with
  | nil => rfl
  | cons b l ih =>
    refine bind_eq_ok.2 ⟨(), h b mem_cons_self, ih fun c hc => ?_⟩
    exact h c (mem_cons_of_mem b hc)

theorem mapM_of_forall (h : ∀ b ∈ l, f b = .ok (g b)) : l.mapM f = .ok (l.map g) := by
  induction l with
  | nil => rfl
  | cons b l ih =>
    rw [mapM_cons]
    refine bind_eq_ok.2 ⟨g b, h b mem_cons_self, bind_eq_ok.2 ⟨l.map g, ?_, rfl⟩⟩
    exact ih fun c hc => h c (mem_cons_of_mem b hc)

theorem ensure_of {p : Prop} [Decidable p] (hp : p) : ensure p e = .ok () := if_pos hp

theorem ensure_bind_eq_ok {f : Unit → Except ε α} {x : α} :
    (ensure p e >>= f) = .ok x ↔ p ∧ f () = .ok x := by
  rw [ensure]
  split_ifs with hp
  · exact (and_iff_right hp).symm
  · exact iff_of_false nofun fun h => hp h.1

theorem isOk_ensure_bind {f : Unit → Except ε α} : (ensure p e >>= f).isOk ↔ p ∧ (f ()).isOk := by
  rw [ensure]
  split_ifs with hp
  · exact (and_iff_right hp).symm
  · exact iff_of_false nofun fun h => hp h.1

end Abyssal
