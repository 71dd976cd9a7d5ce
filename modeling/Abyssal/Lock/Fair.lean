import Mathlib.Data.List.Basic

/-!
# Fair locks

The first of those who wait becomes a holder when the policy of the lock admits it beside the
present ones. A semaphore admits while there are fewer holders than permits; a lock for readers and
writers admits a reader beside other readers, and a writer alone.
-/

namespace Abyssal.Lock

open List

structure Fair (α : Type*) where
  holders : List α
  waiters : List α

def Alone {α : Type*} (writes : α → Bool) (holders : List α) : Prop :=
  ∀ a ∈ holders, writes a = true → ∀ b ∈ holders, b = a

/-- Readers are admitted beside readers, and writers alone. -/
def readersWriter {α : Type*} (writes : α → Bool) (holders : List α) (a : α) : Bool :=
  if writes a then holders.isEmpty else holders.all fun b => !writes b

def atMost {α : Type*} (permits : ℕ) (holders : List α) (_ : α) : Bool :=
  holders.length < permits

namespace Fair

variable {α : Type*}

def free : Fair α := ⟨[], []⟩

def ask (l : Fair α) (a : α) : Fair α := { l with waiters := l.waiters ++ [a] }

variable [DecidableEq α]

def enter (admits : List α → α → Bool) (l : Fair α) (a : α) : Option (Fair α) :=
  match l.waiters with
  | b :: rest => if b = a ∧ admits l.holders a = true then some ⟨a :: l.holders, rest⟩ else none
  | [] => none

def release (l : Fair α) (a : α) : Fair α := { l with holders := l.holders.filter fun b => b ≠ a }

theorem enter_eq_some {admits : List α → α → Bool} {l l' : Fair α} {a : α}
    (h : l.enter admits a = some l') : admits l.holders a ∧ l'.holders = a :: l.holders := by
  unfold enter at h
  split at h
  · split_ifs at h with hadmits
    rw [← Option.some.inj h]
    exact ⟨hadmits.2, rfl⟩
  · exact absurd h.symm (Option.some_ne_none l')

theorem mem_release {l : Fair α} {a b : α} : b ∈ (l.release a).holders ↔ b ∈ l.holders ∧ b ≠ a := by
  rw [release, mem_filter, decide_eq_true_eq]

end Fair

variable {α : Type*} {writes : α → Bool} {l l' : Fair α} {a : α}

theorem Alone.mono {holders holders' : List α} (h : Alone writes holders)
    (hsub : ∀ b ∈ holders', b ∈ holders) : Alone writes holders' := by
  intro b hb hwrites c hc
  exact h b (hsub b hb) hwrites c (hsub c hc)

variable [DecidableEq α]

theorem alone_enter (henter : l.enter (readersWriter writes) a = some l') :
    Alone writes l'.holders := by
  obtain ⟨hadmits, hholders⟩ := Fair.enter_eq_some henter
  rw [hholders]
  unfold readersWriter at hadmits
  split_ifs at hadmits with hwrites
  · intro b hb _ c hc
    rw [isEmpty_iff.1 hadmits, mem_singleton] at hb hc
    rw [hb, hc]
  · have hreads : ∀ b ∈ a :: l.holders, writes b = false := by
      intro b hb
      rcases mem_cons.1 hb with rfl | hb
      · exact Bool.not_eq_true _ ▸ hwrites
      · exact Bool.not_eq_true' _ ▸ all_eq_true.1 hadmits b hb
    intro b hb hb'
    rw [hreads b hb] at hb'
    cases hb'

theorem alone_release (h : Alone writes l.holders) (a : α) : Alone writes (l.release a).holders :=
  h.mono fun _ hb => (Fair.mem_release.1 hb).1

theorem length_enter {permits : ℕ} (henter : l.enter (atMost permits) a = some l') :
    l'.holders.length ≤ permits := by
  obtain ⟨hadmits, hholders⟩ := Fair.enter_eq_some henter
  rw [hholders]
  exact of_decide_eq_true hadmits

theorem length_release (l : Fair α) (a : α) : (l.release a).holders.length ≤ l.holders.length :=
  length_filter_le _ _

end Abyssal.Lock
