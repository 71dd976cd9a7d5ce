import Mathlib.Logic.Relation
import Mathlib.Tactic.SplitIfs
import Abyssal.Resumption.Program

/-!
# Interleaved resumption programs

A *pool* has the shared state and, for every thread that was started, its job and what is left of
its program. A step starts a job or lets one thread perform its next operation, where `exec` does
not block it. Steps are restricted by a condition `ok`.

Invariants follow from rely and guarantee conditions: thread `i` may assume `rely i` of the others,
performs an operation only where `pre i` holds, and keeps the invariant and `guar i`. `Rules.wp`
says that a program does, and `Rules.reach` makes it a statement about every reachable pool.
-/

universe u v w

namespace Resumption

open Option Function

variable {ι J σ χ : Type*} {Op : Type u} {Resp : Op → Type v} {α : Type w}

structure Thread (J : Type*) (Op : Type u) (Resp : Op → Type v) (α : Type w) where
  job : J
  prog : Prog Op Resp α

structure Pool (ι J σ : Type*) (Op : Type u) (Resp : Op → Type v) (α : Type w) where
  shared : σ
  threads : ι → Option (Thread J Op Resp α)

namespace Pool

def init (s : σ) : Pool ι J σ Op Resp α := ⟨s, fun _ => none⟩

variable [DecidableEq ι] (P : Pool ι J σ Op Resp α)

def put (i : ι) (s : σ) (t : Thread J Op Resp α) : Pool ι J σ Op Resp α :=
  ⟨s, update P.threads i (some t)⟩

@[simp] theorem put_threads_self (i : ι) (s : σ)
    (t : Thread J Op Resp α) : (P.put i s t).threads i = some t :=
  update_self ..

theorem put_threads_of_ne {i j : ι} (s : σ)
    (t : Thread J Op Resp α) (h : j ≠ i) : (P.put i s t).threads j = P.threads j :=
  update_of_ne h ..

end Pool

section Runs

variable [DecidableEq ι] (code : J → Prog Op Resp α)
  (exec : ι → (op : Op) → χ → σ → Option (σ × Resp op))
  (ok : ι → (op : Op) → χ → σ → Prop)

inductive Step : Pool ι J σ Op Resp α → Pool ι J σ Op Resp α → Prop
  | start {P : Pool ι J σ Op Resp α} (i : ι) (j : J) (hi : P.threads i = none) :
      Step P (P.put i P.shared ⟨j, code j⟩)
  | run {P : Pool ι J σ Op Resp α} (i : ι) (j : J) (op : Op) (k : Resp op → Prog Op Resp α)
      (c : χ) (s : σ) (r : Resp op) (hi : P.threads i = some ⟨j, .call op k⟩)
      (hok : ok i op c P.shared) (hexec : exec i op c P.shared = some (s, r)) :
      Step P (P.put i s ⟨j, k r⟩)

abbrev Reach : Pool ι J σ Op Resp α → Pool ι J σ Op Resp α → Prop :=
  Relation.ReflTransGen (Step code exec ok)

inductive Event (ι J χ : Type*)
  | start (i : ι) (j : J)
  | run (i : ι) (c : χ)

def fire [∀ i op c s, Decidable (ok i op c s)] (P : Pool ι J σ Op Resp α) :
    Event ι J χ → Option (Pool ι J σ Op Resp α)
  | .start i j =>
    match P.threads i with
    | none => some (P.put i P.shared ⟨j, code j⟩)
    | some _ => none
  | .run i c =>
    match P.threads i with
    | some ⟨j, .call op k⟩ =>
      if ok i op c P.shared then
        (exec i op c P.shared).map fun sr => P.put i sr.1 ⟨j, k sr.2⟩
      else none
    | _ => none

/-- The run that a list of events asks for, if every step of it is possible. -/
def fires [∀ i op c s, Decidable (ok i op c s)] :
    Pool ι J σ Op Resp α → List (Event ι J χ) → Option (Pool ι J σ Op Resp α)
  | P, [] => some P
  | P, e :: es => (fire code exec ok P e).bind fun P' => fires P' es

variable {code exec ok} {P : Pool ι J σ Op Resp α}

theorem residual_of_reach {s₀ : σ}
    (h : Reach code exec ok (.init s₀) P) {i : ι} {t : Thread J Op Resp α}
    (ht : P.threads i = some t) : (code t.job).Residual t.prog := by
  induction h generalizing i t with
  | refl => simp [Pool.init] at ht
  | tail _ hstep ih =>
    cases hstep with
    | start i' =>
      rcases eq_or_ne i i' with rfl | hne
      · obtain rfl : _ = t := by simpa using ht
        exact Prog.residual_refl _
      · exact ih (Pool.put_threads_of_ne _ _ _ hne ▸ ht)
    | run i' _ _ _ _ _ r hi =>
      rcases eq_or_ne i i' with rfl | hne
      · obtain rfl : _ = t := by simpa using ht
        exact (ih hi).answer r
      · exact ih (Pool.put_threads_of_ne _ _ _ hne ▸ ht)

theorem inv_of_exec {I : σ → Prop} {P₀ : Pool ι J σ Op Resp α}
    (hop : ∀ i op c s s' r, I s → ok i op c s → exec i op c s = some (s', r) → I s')
    (h₀ : I P₀.shared) (h : Reach code exec ok P₀ P) : I P.shared := by
  induction h with
  | refl => exact h₀
  | tail _ hstep ih =>
    cases hstep with
    | start => exact ih
    | run i _ op _ c s r _ hok hexec => exact hop i op c _ s r ih hok hexec

variable [∀ i op c s, Decidable (ok i op c s)] {P' : Pool ι J σ Op Resp α}

theorem step_of_fire {e : Event ι J χ}
    (h : fire code exec ok P e = some P') : Step code exec ok P P' := by
  cases e with
  | start i j =>
    cases hi : P.threads i with
    | none =>
      simp only [fire, hi, some.injEq] at h
      exact h ▸ .start i j hi
    | some => simp [fire, hi] at h
  | run i c =>
    rcases hi : P.threads i with _ | ⟨j, a | ⟨op, k⟩⟩
    · simp [fire, hi] at h
    · simp [fire, hi] at h
    · simp only [fire, hi] at h
      split_ifs at h with hok
      obtain ⟨⟨s, r⟩, hexec, rfl⟩ := map_eq_some_iff.mp h
      exact .run i j op k c s r hi hok hexec

variable {es : List (Event ι J χ)}

theorem reach_of_fires (h : fires code exec ok P es = some P') : Reach code exec ok P P' := by
  induction es generalizing P with
  | nil =>
    simp only [fires, some.injEq] at h
    exact h ▸ .refl
  | cons _ _ ih =>
    obtain ⟨_, hQ, hrest⟩ := bind_eq_some_iff.mp h
    exact .head (step_of_fire hQ) (ih hrest)

theorem exists_reach_of_fires {q : Pool ι J σ Op Resp α → Prop} [DecidablePred q]
    (es : List (Event ι J χ)) (h : (fires code exec ok P es).any (q ·)) :
    ∃ P', Reach code exec ok P P' ∧ q P' := by
  cases hP : fires code exec ok P es with
  | none => simp [hP] at h
  | some P' =>
    rw [hP] at h
    exact ⟨P', reach_of_fires hP, of_decide_eq_true h⟩

end Runs

/-! ### Rely and guarantee -/

/-- An invariant, where thread `i` may perform an operation, what it relies on, and what its steps
guarantee. -/
structure Rules (ι σ Op : Type*) where
  inv : σ → Prop
  pre : ι → Op → σ → Prop
  rely : ι → σ → σ → Prop
  guar : ι → σ → σ → Prop
  rely_refl : ∀ i s, rely i s s
  rely_trans : ∀ {i s s' s''}, rely i s s' → rely i s' s'' → rely i s s''
  rely_of_guar : ∀ {i j s s'}, i ≠ j → inv s → inv s' → guar i s s' → rely j s s'

namespace Rules

variable (R : Rules ι σ Op) (exec : ι → (op : Op) → χ → σ → Option (σ × Resp op))
  (ok : ι → (op : Op) → χ → σ → Prop)

/-- From `s`, every step of `p` on thread `i` is made where its operation may be performed and keeps
the invariant and the guarantee, also when others act in between, and `post` holds at its end. -/
def wp (i : ι) (post : α → σ → Prop) : Prog Op Resp α → σ → Prop
  | .ret a, s => post a s
  | .call op k, s => R.pre i op s ∧ ∀ c s' r, ok i op c s → exec i op c s = some (s', r) →
      R.inv s' ∧ R.guar i s s' ∧ ∀ s'', R.inv s'' → R.rely i s' s'' → wp i post (k r) s''

/-- `wp` holds now and after any steps of the other threads. -/
def Safe (i : ι) (post : α → σ → Prop) (p : Prog Op Resp α) (s : σ) : Prop :=
  ∀ s', R.inv s' → R.rely i s s' → R.wp exec ok i post p s'

variable {R exec ok} {i : ι} {s : σ} {post : α → σ → Prop}
  {p : Prog Op Resp α}

theorem wp_bind {β : Type w} {post : β → σ → Prop}
    {f : α → Prog Op Resp β} : R.wp exec ok i post (p >>= f) s ↔
      R.wp exec ok i (fun a s' => R.wp exec ok i post (f a) s') p s := by
  induction p generalizing s with
  | ret => exact Iff.rfl
  | call _ _ ih =>
    simp only [Prog.call_bind, wp]
    simp [ih]

theorem wp_mono {post' : α → σ → Prop} (hs : R.inv s)
    (h : R.wp exec ok i post p s) (hpost : ∀ a s', R.inv s' → post a s' → post' a s') :
    R.wp exec ok i post' p s := by
  induction p generalizing s with
  | ret a => exact hpost a s hs h
  | call _ _ ih =>
    refine ⟨h.1, fun c s' r hok hexec => ?_⟩
    obtain ⟨hinv, hguar, hrest⟩ := h.2 c s' r hok hexec
    exact ⟨hinv, hguar, fun s'' hs'' hrely => ih r hs'' (hrest s'' hs'' hrely)⟩

theorem wp_call_of {op : Op} {k : Resp op → Prog Op Resp α}
    (A : Resp op → σ → Prop) (hstable : ∀ r s s', R.inv s' → R.rely i s s' → A r s → A r s')
    (hpre : R.pre i op s)
    (hop : ∀ c s' r, ok i op c s → exec i op c s = some (s', r) → R.inv s' ∧ R.guar i s s' ∧ A r s')
    (hk : ∀ r s', R.inv s' → A r s' → R.wp exec ok i post (k r) s') :
    R.wp exec ok i post (.call op k) s := by
  refine ⟨hpre, fun c s' r hok hexec => ?_⟩
  obtain ⟨hinv, hguar, hA⟩ := hop c s' r hok hexec
  exact ⟨hinv, hguar, fun s'' hs'' hrely => hk r s'' hs'' (hstable r s' s'' hs'' hrely hA)⟩

theorem wp_frame {F : σ → Prop}
    (hop : ∀ op c s s' r, R.inv s → R.pre i op s → ok i op c s → exec i op c s = some (s', r) →
      F s → F s')
    (hstable : ∀ s s', R.rely i s s' → F s → F s') (hs : R.inv s) (hF : F s)
    (h : R.wp exec ok i post p s) : R.wp exec ok i (fun a s' => post a s' ∧ F s') p s := by
  induction p generalizing s with
  | ret => exact ⟨h, hF⟩
  | call op k ih =>
    refine ⟨h.1, fun c s' r hok hexec => ?_⟩
    obtain ⟨hinv, hguar, hrest⟩ := h.2 c s' r hok hexec
    have hF' := hop op c s s' r hs h.1 hok hexec hF
    exact ⟨hinv, hguar, fun s'' hs'' hrely =>
      ih r hs'' (hstable s' s'' hrely hF') (hrest s'' hs'' hrely)⟩

section Reach

variable {code : J → Prog Op Resp α} {idle : ι → σ → Prop}
  {post : ι → J → α → σ → Prop}

/-- The invariant; threads not yet started are idle, and the others are at a point from which they
keep the rules. -/
structure Holds (R : Rules ι σ Op) (exec : ι → (op : Op) → χ → σ → Option (σ × Resp op))
    (ok : ι → (op : Op) → χ → σ → Prop) (idle : ι → σ → Prop) (post : ι → J → α → σ → Prop)
    (P : Pool ι J σ Op Resp α) : Prop where
  inv : R.inv P.shared
  idle : ∀ i, P.threads i = none → idle i P.shared
  safe : ∀ i t, P.threads i = some t → R.Safe exec ok i (post i t.job) t.prog P.shared

variable {P : Pool ι J σ Op Resp α}

theorem Holds.step [DecidableEq ι] {P' : Pool ι J σ Op Resp α} (h : Holds R exec ok idle post P)
    (hidle : ∀ i s s', R.inv s' → R.rely i s s' → idle i s → idle i s')
    (hcode : ∀ i j s, R.inv s → idle i s → R.wp exec ok i (post i j) (code j) s)
    (hstep : Step code exec ok P P') : Holds R exec ok idle post P' := by
  cases hstep with
  | start i j hi =>
    refine ⟨h.inv, fun i' hi' => ?_, fun i' t ht => ?_⟩
    · rcases eq_or_ne i' i with rfl | hne
      · simp at hi'
      · exact h.idle i' (P.put_threads_of_ne _ _ hne ▸ hi')
    · rcases eq_or_ne i' i with rfl | hne
      · obtain rfl : (⟨j, code j⟩ : Thread J Op Resp α) = t := by simpa using ht
        intro s' hs' hrely
        exact hcode i' j s' hs' (hidle i' _ s' hs' hrely (h.idle i' hi))
      · exact h.safe i' t (P.put_threads_of_ne _ _ hne ▸ ht)
  | run i j _ k c s r hi hok hexec =>
    obtain ⟨hinv, hguar, hsafe⟩ := (h.safe i _ hi _ h.inv (R.rely_refl i _)).2 c s r hok hexec
    refine ⟨hinv, fun i' hi' => ?_, fun i' t ht => ?_⟩
    · rcases eq_or_ne i' i with rfl | hne
      · simp at hi'
      · exact hidle i' _ _ hinv (R.rely_of_guar hne.symm h.inv hinv hguar)
          (h.idle i' (P.put_threads_of_ne _ _ hne ▸ hi'))
    · rcases eq_or_ne i' i with rfl | hne
      · obtain rfl : (⟨j, k r⟩ : Thread J Op Resp α) = t := by simpa using ht
        exact hsafe
      · intro s' hs' hrely
        exact h.safe i' t (P.put_threads_of_ne _ _ hne ▸ ht) s' hs'
          (R.rely_trans (R.rely_of_guar hne.symm h.inv hinv hguar) hrely)

/-- If the code of every job keeps the rules when it is started, every reachable pool satisfies the
invariant. -/
theorem reach [DecidableEq ι] {s₀ : σ} (hinv : R.inv s₀) (hidle₀ : ∀ i, idle i s₀)
    (hidle : ∀ i s s', R.inv s' → R.rely i s s' → idle i s → idle i s')
    (hcode : ∀ i j s, R.inv s → idle i s → R.wp exec ok i (post i j) (code j) s)
    (h : Reach code exec ok (.init s₀) P) : Holds R exec ok idle post P := by
  induction h with
  | refl => exact ⟨hinv, fun i _ => hidle₀ i, fun i t ht => by simp [Pool.init] at ht⟩
  | tail _ hstep ih => exact ih.step hidle hcode hstep

theorem Holds.post_of_ret (h : Holds R exec ok idle post P) {j : J}
    {a : α} (hi : P.threads i = some ⟨j, .ret a⟩) : post i j a P.shared :=
  h.safe i _ hi _ h.inv (R.rely_refl i _)

theorem Holds.pre_of_call (h : Holds R exec ok idle post P) {j : J}
    {op : Op} {k : Resp op → Prog Op Resp α} (hi : P.threads i = some ⟨j, .call op k⟩) :
    R.pre i op P.shared :=
  (h.safe i _ hi _ h.inv (R.rely_refl i _)).1

/-- A property that every operation keeps where its precondition holds, under a stronger condition
`ok'`, holds in every run of such steps. -/
theorem inv_of_pre [DecidableEq ι] {ok' : ι → (op : Op) → χ → σ → Prop} {I : σ → Prop} {s₀ : σ}
    {P₀ : Pool ι J σ Op Resp α}
    (hholds : ∀ P, Reach code exec ok (.init s₀) P → Holds R exec ok idle post P)
    (hok : ∀ i op c s, ok' i op c s → ok i op c s)
    (hop : ∀ i op c s s' r, R.inv s → R.pre i op s → I s → ok' i op c s →
      exec i op c s = some (s', r) → I s')
    (h₀ : Reach code exec ok (.init s₀) P₀) (hI₀ : I P₀.shared)
    (h : Reach code exec ok' P₀ P) : Reach code exec ok (.init s₀) P ∧ I P.shared := by
  induction h with
  | refl => exact ⟨h₀, hI₀⟩
  | tail _ hstep ih =>
    obtain ⟨hreach, hI⟩ := ih
    cases hstep with
    | start i j hi => exact ⟨hreach.tail (.start i j hi), hI⟩
    | run i j op k c s r hi hok' hexec =>
      have hH := hholds _ hreach
      exact ⟨hreach.tail (.run i j op k c s r hi (hok _ _ _ _ hok') hexec),
        hop i op c _ s r hH.inv (hH.pre_of_call hi) hI hok' hexec⟩

end Reach

end Rules

/-!
## Threads that are dropped

A thread that waits in an operation can be dropped by whoever started it. It then performs no
further operation, not even one that would clean up after it. Every property of all runs still
holds. What can fail is that things which belong to a thread are gone when the thread is.
-/

/-- A pool, with the threads of it that were dropped. -/
structure DropPool (ι J σ : Type*) (Op : Type u) (Resp : Op → Type v) (α : Type w) where
  pool : Pool ι J σ Op Resp α
  dropped : ι → Bool

variable [DecidableEq ι] (code : J → Prog Op Resp α)
  (exec : ι → (op : Op) → χ → σ → Option (σ × Resp op))
  (ok : ι → (op : Op) → χ → σ → Prop) (mayDrop : ι → Op → σ → Prop)

/-- One step of the pool, by a thread that was not dropped, or a thread is dropped. -/
inductive DropStep : DropPool ι J σ Op Resp α → DropPool ι J σ Op Resp α → Prop
  | step {D : DropPool ι J σ Op Resp α} {P : Pool ι J σ Op Resp α}
      (h : Step code exec (fun i op c s => ok i op c s ∧ D.dropped i = false) D.pool P) :
      DropStep D ⟨P, D.dropped⟩
  | drop {D : DropPool ι J σ Op Resp α} (i : ι) (j : J) (op : Op) (k : Resp op → Prog Op Resp α)
      (hi : D.pool.threads i = some ⟨j, .call op k⟩) (hdrop : mayDrop i op D.pool.shared) :
      DropStep D ⟨D.pool, update D.dropped i true⟩

abbrev DropReach : DropPool ι J σ Op Resp α → DropPool ι J σ Op Resp α → Prop :=
  Relation.ReflTransGen (DropStep code exec ok mayDrop)

variable {code exec ok mayDrop}

theorem Step.mono {ok' : ι → (op : Op) → χ → σ → Prop} {P P' : Pool ι J σ Op Resp α}
    (h : Step code exec ok P P') (hok : ∀ i op c s, ok i op c s → ok' i op c s) :
    Step code exec ok' P P' := by
  cases h with
  | start i j hi => exact .start i j hi
  | run i j op k c s r hi hok' hexec => exact .run i j op k c s r hi (hok i op c _ hok') hexec

theorem reach_of_dropReach {D D' : DropPool ι J σ Op Resp α}
    (h : DropReach code exec ok mayDrop D D') : Reach code exec ok D.pool D'.pool := by
  induction h with
  | refl => exact .refl
  | tail _ hstep ih =>
    cases hstep with
    | step h => exact ih.tail (h.mono fun _ _ _ _ hok => hok.1)
    | drop => exact ih

theorem dropReach_of_reach {P P' : Pool ι J σ Op Resp α} (h : Reach code exec ok P P') :
    DropReach code exec ok mayDrop ⟨P, fun _ => false⟩ ⟨P', fun _ => false⟩ := by
  induction h with
  | refl => exact .refl
  | tail _ hstep ih => exact ih.tail (.step (hstep.mono fun _ _ _ _ hok => ⟨hok, rfl⟩))

theorem not_dropped_of_dropReach {has : σ → ι → Prop} {s₀ : σ} {D : DropPool ι J σ Op Resp α}
    (hrun : ∀ i op c s s' r j, exec i op c s = some (s', r) → has s' j → has s j ∨ j = i)
    (hdrop : ∀ P i op, Reach code exec ok (.init s₀) P → mayDrop i op P.shared → ¬ has P.shared i)
    (h₀ : ∀ j, ¬ has s₀ j) (h : DropReach code exec ok mayDrop ⟨.init s₀, fun _ => false⟩ D) (j : ι)
    (hj : has D.pool.shared j) : D.dropped j = false := by
  induction h with
  | refl => exact absurd hj (h₀ j)
  | @tail D D' hreach hstep ih =>
    cases hstep with
    | step h =>
      cases h with
      | start => exact ih hj
      | run i _ op _ c s r _ hok hexec =>
        rcases hrun i op c _ s r j hexec hj with hj | rfl
        · exact ih hj
        · exact hok.2
    | drop i _ op _ _ hmay =>
      have hne : j ≠ i := by
        rintro rfl
        exact hdrop D.pool j op (reach_of_dropReach hreach) hmay hj
      exact (update_of_ne hne _ _).trans (ih hj)

end Resumption
