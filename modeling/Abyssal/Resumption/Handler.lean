import Abyssal.Resumption.Interleaving

/-!
# Programs that give up

A handler is a resumption program in the error monad. An operation is answered `none` when it
failed; `query` gives up then, `attempt` goes on. One that is reported as failed may have been
carried out (`Outcome`, `settle`). The lemmas take the run of a handler that ends with a result
apart, and give rules for the weakest precondition of ending with one.
-/

namespace Resumption

open Prod ExceptT

abbrev Handler (Op : Type) (Answer : Op → Type) (ε : Type) : Type → Type :=
  ExceptT ε (Prog Op fun op => Option (Answer op))

namespace Handler

variable {Op : Type} {Answer : Op → Type} {ε α β σ : Type}

def query (e : ε) (op : Op) : Handler Op Answer ε (Answer op) :=
  mk (.call op fun r => .ret (r.elim (.error e) .ok))

def attempt (op : Op) : Handler Op Answer ε (Option (Answer op)) :=
  mk (.call op fun r => .ret (.ok r))

def check (p : Prop) [Decidable p] (e : ε) : Handler Op Answer ε Unit :=
  if p then pure () else throw e

def found (e : ε) (o : Option α) : Handler Op Answer ε α :=
  o.elim (throw e) pure

/-- It is carried out, fails, or is carried out and the connection breaks before that is reported.
-/
inductive Outcome where
  | done | failed | unreported
  deriving DecidableEq

/-- The state after an operation that ends this way, and the answer to the handler. -/
def settle (c : Outcome) (s : σ) (performed : Option (σ × α)) : σ × Option α :=
  match c with
  | .done => performed.elim (s, none) fun (s', answer) => (s', some answer)
  | .failed => (s, none)
  | .unreported => performed.elim (s, none) fun (s', _) => (s', none)

theorem settle_eq_some {c : Outcome} {s s' : σ} {performed : Option (σ × α)} {answer : α} :
    settle c s performed = (s', some answer) ↔ c = .done ∧ performed = some (s', answer) := by
  cases c with
  | done =>
    cases performed with
    | none => simp [settle]
    | some => simp [settle, Prod.ext_iff]
  | failed => simp [settle]
  | unreported =>
    cases performed with
    | none | some => simp [settle]

theorem settle_cases (c : Outcome) (s : σ) (performed : Option (σ × α)) :
    settle c s performed = (s, none) ∨ ∃ r, performed = some r ∧
      (settle c s performed = (r.1, some r.2) ∨ settle c s performed = (r.1, none)) := by
  cases performed with
  | none =>
    cases c with
    | done | failed | unreported => exact .inl rfl
  | some r =>
    cases c with
    | done => exact .inr ⟨r, rfl, .inl rfl⟩
    | failed => exact .inl rfl
    | unreported => exact .inr ⟨r, rfl, .inr rfl⟩

theorem settle_fst_cases (c : Outcome) (s : σ) (performed : Option (σ × α)) :
    (settle c s performed).1 = s ∨
      ∃ answer, performed = some ((settle c s performed).1, answer) := by
  rcases settle_cases c s performed with h | ⟨r, hr, h | h⟩
  · exact .inl (by rw [h])
  · exact .inr ⟨r.2, by rw [h]; exact hr⟩
  · exact .inr ⟨r.2, by rw [h]; exact hr⟩

section Alone

variable (exec : (op : Op) → σ → σ × Option (Answer op))

def alone (h : Handler Op Answer ε α) (s : σ) : Except ε α × σ :=
  h.run.run (fun op (_ : Unit) s => exec op s) (fun _ => ()) s

/-- The handler ends with the result `a` and leaves the state alone. -/
def Reads (h : Handler Op Answer ε α) (s : σ) (a : α) : Prop := alone exec h s = (.ok a, s)

/-- If the handler ends with a result, `P` holds, and the state was left alone. -/
def Passes (h : Handler Op Answer ε Unit) (s : σ) (P : Prop) : Prop :=
  ∀ s', alone exec h s = (.ok (), s') → P ∧ s' = s

variable {exec} {s s' : σ}

@[simp] theorem alone_pure (a : α) (s : σ) :
    alone exec (pure a : Handler Op Answer ε α) s = (.ok a, s) := rfl

@[simp] theorem alone_throw (e : ε) (s : σ) :
    alone exec (throw e : Handler Op Answer ε α) s = (.error e, s) := rfl

variable {a : α} {e : ε}

theorem error_ne_ok : ((.error e, s) : Except ε α × σ) ≠ (.ok a, s') :=
  fun h => nomatch (mk.inj h).1

theorem alone_query (e : ε) (op : Op) (s : σ) :
    alone exec (query e op : Handler Op Answer ε (Answer op)) s =
      ((exec op s).2.elim (.error e) .ok, (exec op s).1) := rfl

theorem alone_attempt_bind (op : Op) (f : Option (Answer op) → Handler Op Answer ε β) (s : σ) :
    alone exec (attempt op >>= f) s = alone exec (f (exec op s).2) (exec op s).1 := rfl

theorem alone_bind (x : Handler Op Answer ε α) (f : α → Handler Op Answer ε β) (s : σ) :
    alone exec (x >>= f) s = match alone exec x s with
      | (.ok a, s') => alone exec (f a) s'
      | (.error e, s') => (.error e, s') := by
  rw [alone, alone, run_bind, Prog.run_bind]
  rcases x.run.run (fun op (_ : Unit) s => exec op s) (fun _ => ()) s with ⟨e | a, s'⟩
  · rfl
  · rfl

variable {f : α → Handler Op Answer ε β} {b : β} {x : Handler Op Answer ε α}

theorem alone_bind_eq_ok :
    alone exec (x >>= f) s = (.ok b, s') ↔
      ∃ a s₁, alone exec x s = (.ok a, s₁) ∧ alone exec (f a) s₁ = (.ok b, s') := by
  rw [alone_bind]
  rcases alone exec x s with ⟨e | a, s₁⟩
  · exact iff_of_false error_ne_ok fun ⟨a, s₁, h, _⟩ => error_ne_ok h
  · constructor
    · exact fun h => ⟨a, s₁, rfl, h⟩
    · rintro ⟨_, _, h, h'⟩
      obtain ⟨ha, rfl⟩ := mk.inj h
      cases ha
      exact h'

theorem Reads.alone_bind (h : Reads exec x s a) : alone exec (x >>= f) s = alone exec (f a) s := by
  rw [Handler.alone_bind, show alone exec x s = (.ok a, s) from h]

theorem Reads.bind (hx : Reads exec x s a) (hf : Reads exec (f a) s b) : Reads exec (x >>= f) s b :=
  hx.alone_bind.trans hf

theorem reads_pure (a : α) (s : σ) : Reads exec (pure a : Handler Op Answer ε α) s a := rfl

theorem reads_query {op : Op} {a : Answer op} (h : exec op s = (s, some a)) :
    Reads exec (query e op : Handler Op Answer ε (Answer op)) s a := by
  rw [Reads, alone_query, h]
  rfl

theorem alone_query_eq_ok {op : Op} {a : Answer op} :
    alone exec (query e op : Handler Op Answer ε (Answer op)) s = (.ok a, s') ↔
      exec op s = (s', some a) := by
  rw [alone_query]
  rcases exec op s with ⟨s₁, _ | a'⟩
  · exact iff_of_false error_ne_ok fun h => nomatch (mk.inj h).2
  · simp [and_comm]

theorem alone_check_bind {p : Prop} [Decidable p] {f : Unit → Handler Op Answer ε β}
    : alone exec (check p e >>= f) s = (.ok b, s') ↔ p ∧ alone exec (f ()) s = (.ok b, s') := by
  rw [check]
  split_ifs with hp
  · rw [pure_bind]
    exact (and_iff_right hp).symm
  · rw [alone_bind_eq_ok]
    exact iff_of_false (fun ⟨a, s₁, h, _⟩ => error_ne_ok h) fun h => hp h.1

theorem alone_check {p : Prop} [Decidable p] :
    alone exec (check p e : Handler Op Answer ε Unit) s = (.ok (), s') ↔ p ∧ s = s' := by
  rw [check]
  split_ifs with hp
  · simp [hp]
  · simp [hp]

theorem alone_found_bind {o : Option α} :
    alone exec (found e o >>= f) s = (.ok b, s') ↔
      ∃ a, o = some a ∧ alone exec (f a) s = (.ok b, s') := by
  cases o with
  | none =>
    rw [alone_bind_eq_ok]
    exact iff_of_false (fun ⟨a, s₁, h, _⟩ => error_ne_ok h) fun ⟨a, h, _⟩ => nomatch h
  | some a =>
    rw [found, Option.elim_some]
    exact ⟨fun h => ⟨a, rfl, h⟩, fun ⟨a', ha, h⟩ => Option.some.inj ha ▸ h⟩

theorem alone_found {o : Option α} :
    alone exec (found e o : Handler Op Answer ε α) s = (.ok a, s') ↔ o = some a ∧ s = s' := by
  cases o with
  | none | some => simp [found]

theorem Passes.of_bind {x : Handler Op Answer ε Unit} {f : Unit → Handler Op Answer ε β}
    {P : Prop} (hx : Passes exec x s P) (h : alone exec (x >>= f) s = (.ok b, s')) :
    P ∧ alone exec (f ()) s = (.ok b, s') := by
  obtain ⟨_, s₁, h₁, h₂⟩ := alone_bind_eq_ok.1 h
  obtain ⟨hP, rfl⟩ := hx s₁ h₁
  exact ⟨hP, h₂⟩

theorem passes_check {p : Prop} [Decidable p] (e : ε) :
    Passes exec (check p e : Handler Op Answer ε Unit) s p := by
  intro s' h
  obtain ⟨hp, rfl⟩ := alone_check.1 h
  exact ⟨hp, rfl⟩

end Alone

end Handler

/-! ### Interleaved handlers -/

namespace Rules

open Handler

variable {ι σ χ Op ε α β : Type} {Answer : Op → Type} (R : Rules ι σ Op)
  (exec : ι → (op : Op) → χ → σ → Option (σ × Option (Answer op)))
  (ok : ι → (op : Op) → χ → σ → Prop)

/-- The handler keeps the rules, and `post` holds if it ends with a result. -/
def wpOk (i : ι) (post : α → σ → Prop) (h : Handler Op Answer ε α) (s : σ) : Prop :=
  R.wp exec ok i (fun r s' => ∀ a, r = .ok a → post a s') h.run s

variable {R exec ok} {i : ι} {s : σ} {post : α → σ → Prop}

theorem wpOk_pure {a : α} (h : post a s) :
    R.wpOk exec ok i post (pure a : Handler Op Answer ε α) s :=
  fun _ ha => Except.ok.inj ha ▸ h

theorem wpOk_throw (e : ε) : R.wpOk exec ok i post (throw e : Handler Op Answer ε α) s :=
  nofun

theorem wpOk_mono {post' : α → σ → Prop} {x : Handler Op Answer ε α} (hs : R.inv s)
    (h : R.wpOk exec ok i post x s) (hpost : ∀ a s', R.inv s' → post a s' → post' a s') :
    R.wpOk exec ok i post' x s :=
  wp_mono hs h fun _ s' hs' hr a ha => hpost a s' hs' (hr a ha)

theorem wpOk_bind {mid : α → σ → Prop} {post : β → σ → Prop} {x : Handler Op Answer ε α}
    {f : α → Handler Op Answer ε β} (hs : R.inv s) (h : R.wpOk exec ok i mid x s)
    (hf : ∀ a s', R.inv s' → mid a s' → R.wpOk exec ok i post (f a) s') :
    R.wpOk exec ok i post (x >>= f) s := by
  rw [wpOk, run_bind, wp_bind]
  refine wp_mono hs h fun r s' hs' hr => ?_
  cases r with
  | error => exact nofun
  | ok a => exact hf a s' hs' (hr a rfl)

theorem wpOk_query {op : Op} {e : ε} {post : Answer op → σ → Prop} (hpre : R.pre i op s)
    (hstable : ∀ a s s', R.rely i s s' → post a s → post a s')
    (hop : ∀ c s' r, ok i op c s → exec i op c s = some (s', r) →
      R.inv s' ∧ R.guar i s s' ∧ ∀ a, r = some a → post a s') :
    R.wpOk exec ok i post (query e op : Handler Op Answer ε (Answer op)) s := by
  refine ⟨hpre, fun c s' r hok hexec => ?_⟩
  obtain ⟨hinv, hguar, hpost⟩ := hop c s' r hok hexec
  refine ⟨hinv, hguar, fun s'' _ hrely a ha => ?_⟩
  cases r with
  | none => cases ha
  | some a' => exact Except.ok.inj ha ▸ hstable a' s' s'' hrely (hpost a' rfl)

theorem wpOk_attempt {op : Op} {post : Option (Answer op) → σ → Prop} (hpre : R.pre i op s)
    (hstable : ∀ r s s', R.rely i s s' → post r s → post r s')
    (hop : ∀ c s' r, ok i op c s → exec i op c s = some (s', r) →
      R.inv s' ∧ R.guar i s s' ∧ post r s') :
    R.wpOk exec ok i post (attempt op : Handler Op Answer ε (Option (Answer op))) s := by
  refine ⟨hpre, fun c s' r hok hexec => ?_⟩
  obtain ⟨hinv, hguar, hpost⟩ := hop c s' r hok hexec
  exact ⟨hinv, hguar, fun s'' _ hrely a ha => Except.ok.inj ha ▸ hstable r s' s'' hrely hpost⟩

theorem wpOk_found {e : ε} {o : Option α} (h : ∀ a, o = some a → post a s) :
    R.wpOk exec ok i post (found e o : Handler Op Answer ε α) s := by
  cases o with
  | none => exact wpOk_throw e
  | some a => exact wpOk_pure (h a rfl)

end Rules

/-!
## Handlers that clean up

A handler can take the way a part of it ends as a value, so that what was begun is ended on every
way out of the part (`during`), and can leave out a part (`onlyIf`). The rules are about assertions
that hold before a handler and after it, however it ends. `Turns` says what one operation makes of
one.
-/

namespace Handler

variable {Op : Type} {Answer : Op → Type} {ε α : Type}

def catching (x : Handler Op Answer ε α) : Handler Op Answer ε (Except ε α) :=
  mk (x.run >>= fun r => .ret (.ok r))

def onlyIf (b : Bool) (x : Handler Op Answer ε Unit) : Handler Op Answer ε Unit :=
  if b then x else pure ()

/-- If the first fails, the part is left out; the second is performed however the part ends. -/
def during (e : ε) (start stop : Op) (body : Handler Op Answer ε α) : Handler Op Answer ε α := do
  let _ ← query e start
  let result ← catching body
  let _ ← attempt stop
  ofExcept result

end Handler

namespace Rules

open Handler

variable {ι σ χ Op ε α β : Type} {Answer : Op → Type} (R : Rules ι σ Op)
  (exec : ι → (op : Op) → χ → σ → Option (σ × Option (Answer op)))
  (ok : ι → (op : Op) → χ → σ → Prop) (i : ι)

def Stable (A : σ → Prop) : Prop := ∀ s s', R.inv s' → R.rely i s s' → A s → A s'

/-- Where `A` holds, thread `i` may perform the operation, and `B` holds after it. -/
def Turns (op : Op) (A : σ → Prop) (B : Option (Answer op) → σ → Prop) : Prop :=
  ∀ s, R.inv s → A s → R.pre i op s ∧ ∀ c s' r, ok i op c s → exec i op c s = some (s', r) →
    R.inv s' ∧ R.guar i s s' ∧ B r s'

/-- From where `A` holds, the handler keeps the rules, and `A` holds however it ends. -/
def Keeps (A : σ → Prop) (x : Handler Op Answer ε α) : Prop :=
  ∀ s, R.inv s → A s → R.wp exec ok i (fun _ s' => A s') x.run s

variable {R exec ok i} {A B : σ → Prop} {s : σ}

/-! ### Operations in a sequence -/

variable {op : Op} {post : Except ε β → σ → Prop}

theorem wp_query_bind {e : ε} {f : Answer op → Handler Op Answer ε β}
    {B : Option (Answer op) → σ → Prop}
    (hop : R.Turns exec ok i op A B) (hstable : ∀ r, R.Stable i (B r)) (hs : R.inv s) (hA : A s)
    (hnone : ∀ s', B none s' → post (.error e) s')
    (hsome : ∀ a s', R.inv s' → B (some a) s' → R.wp exec ok i post (f a).run s') :
    R.wp exec ok i post (query e op >>= f).run s := by
  obtain ⟨hpre, hafter⟩ := hop s hs hA
  refine wp_call_of B (fun r s s' hs' hrely => hstable r s s' hs' hrely) hpre hafter
    fun r s' hs' hB => ?_
  cases r with
  | none => exact hnone s' hB
  | some a => exact hsome a s' hs' hB

theorem wp_attempt_bind {f : Option (Answer op) → Handler Op Answer ε β}
    {B : Option (Answer op) → σ → Prop}
    (hop : R.Turns exec ok i op A B) (hstable : ∀ r, R.Stable i (B r)) (hs : R.inv s) (hA : A s)
    (hf : ∀ r s', R.inv s' → B r s' → R.wp exec ok i post (f r).run s') :
    R.wp exec ok i post (attempt op >>= f).run s := by
  obtain ⟨hpre, hafter⟩ := hop s hs hA
  exact wp_call_of B (fun r s s' hs' hrely => hstable r s s' hs' hrely) hpre hafter hf

variable {x : Handler Op Answer ε α}

theorem wp_catching_bind {f : Except ε α → Handler Op Answer ε β}
    (hx : R.Keeps exec ok i A x) (hs : R.inv s) (hA : A s)
    (hf : ∀ r s', R.inv s' → A s' → R.wp exec ok i post (f r).run s') :
    R.wp exec ok i post (catching x >>= f).run s := by
  rw [run_bind, catching, run_mk, bind_assoc, wp_bind]
  exact wp_mono hs (hx s hs hA) fun r s' hs' hA' => hf r s' hs' hA'

/-! ### What a handler keeps -/

theorem keeps_pure (a : α) : R.Keeps exec ok i A (pure a : Handler Op Answer ε α) :=
  fun _ _ hA => hA

theorem keeps_throw (e : ε) : R.Keeps exec ok i A (throw e : Handler Op Answer ε α) :=
  fun _ _ hA => hA

theorem keeps_ofExcept (r : Except ε α) :
    R.Keeps exec ok i A (ofExcept r : Handler Op Answer ε α) := by
  cases r with
  | error e => exact keeps_throw e
  | ok a => exact keeps_pure a

theorem keeps_check {p : Prop} [Decidable p] (e : ε) :
    R.Keeps exec ok i A (check p e : Handler Op Answer ε Unit) := by
  rw [check]
  split_ifs
  · exact keeps_pure ()
  · exact keeps_throw e

theorem keeps_found (e : ε) (o : Option α) :
    R.Keeps exec ok i A (found e o : Handler Op Answer ε α) := by
  cases o with
  | none => exact keeps_throw e
  | some a => exact keeps_pure a

theorem Keeps.bind {f : α → Handler Op Answer ε β}
    (hx : R.Keeps exec ok i A x) (hf : ∀ a, R.Keeps exec ok i A (f a)) :
    R.Keeps exec ok i A (x >>= f) := by
  intro s hs hA
  rw [run_bind, wp_bind]
  refine wp_mono hs (hx s hs hA) fun r s' hs' hA' => ?_
  cases r with
  | error => exact hA'
  | ok a => exact hf a s' hs' hA'

theorem Keeps.onlyIf {x : Handler Op Answer ε Unit} (hx : R.Keeps exec ok i A x) (b : Bool) :
    R.Keeps exec ok i A (onlyIf b x) := by
  cases b with
  | false => exact keeps_pure ()
  | true => exact hx

theorem Keeps.catching (hx : R.Keeps exec ok i A x) : R.Keeps exec ok i A (catching x) := by
  intro s hs hA
  rw [← bind_pure (Handler.catching x)]
  exact wp_catching_bind hx hs hA fun r s' hs' hA' => keeps_pure r s' hs' hA'

theorem Turns.keeps_query (hop : R.Turns exec ok i op A fun _ => A)
    (hstable : R.Stable i A) (e : ε) :
    R.Keeps exec ok i A (query e op : Handler Op Answer ε (Answer op)) := by
  intro s hs hA
  rw [← bind_pure (query e op)]
  exact wp_query_bind hop (fun _ => hstable) hs hA (fun _ hA' => hA')
    fun a s' hs' hA' => keeps_pure a s' hs' hA'

theorem Turns.keeps_attempt (hop : R.Turns exec ok i op A fun _ => A) (hstable : R.Stable i A) :
    R.Keeps exec ok i A (attempt op : Handler Op Answer ε (Option (Answer op))) := by
  intro s hs hA
  rw [← bind_pure (attempt op)]
  exact wp_attempt_bind hop (fun _ => hstable) hs hA fun r s' hs' hA' => keeps_pure r s' hs' hA'

theorem Keeps.during {start stop : Op} {body : Handler Op Answer ε α}
    (hbody : R.Keeps exec ok i B body) (hA : R.Stable i A) (hB : R.Stable i B)
    (hstart : R.Turns exec ok i start A fun r => if r.isSome then B else A)
    (hstop : R.Turns exec ok i stop B fun _ => A) (e : ε) :
    R.Keeps exec ok i A (during e start stop body) := by
  intro s hs hAs
  refine wp_query_bind hstart (fun r => ?_) hs hAs (fun _ h => h) fun _ s₁ hs₁ hB₁ => ?_
  · cases r with
    | none => exact hA
    | some => exact hB
  · refine wp_catching_bind hbody hs₁ hB₁ fun r s₂ hs₂ hB₂ => ?_
    exact wp_attempt_bind hstop (fun _ => hA) hs₂ hB₂ fun _ s₃ hs₃ hA₃ =>
      keeps_ofExcept r s₃ hs₃ hA₃

end Rules

end Resumption
