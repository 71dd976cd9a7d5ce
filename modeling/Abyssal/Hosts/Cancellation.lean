import Abyssal.Hosts.DispatchOutcome
import Mathlib.Data.Finset.Card

/-!
# Dispatch calls that are dropped

A dispatch call removes its request from the pending table when the command cannot be sent or the
timeout elapses; otherwise whoever answers or fails it does. A caller that goes away drops the call
where it waits, and then its entry stays.

## Main results

* `pending_of_dropReaches`: the entries that stay.
-/

namespace Abyssal.Hosts

open Resumption List Option Function Bool

variable {Operation : Type} {s s' : State Operation} {i j : ThreadId}

/-! ### Entries and their calls -/

structure Waited (s : State Operation) : Prop where
  waiting : ∀ e ∈ s.pending, s.oneshots e.waiter = .waiting
  distinct : (s.pending.map PendingEntry.waiter).Nodup

theorem waited_new (protection : ControlPlaneProtection) :
    Waited (State.new protection : State Operation) :=
  ⟨nofun, nodup_nil⟩

theorem Waited.congr (h : Waited s) (hpending : s'.pending = s.pending)
    (honeshots : s'.oneshots = s.oneshots) : Waited s' where
  waiting e he := honeshots ▸ h.waiting e (hpending ▸ he)
  distinct := hpending ▸ h.distinct

variable {e : PendingEntry}

theorem Waited.eq_of_waiter {e' : PendingEntry} (h : Waited s) (he : e ∈ s.pending)
    (he' : e' ∈ s.pending) (hwaiter : e.waiter = e'.waiter) : e = e' :=
  inj_on_of_nodup_map h.distinct he he' hwaiter

theorem Waited.filter (h : Waited s) (q : PendingEntry → Bool)
    (hpending : s'.pending = s.pending.filter q)
    (honeshots : ∀ j, (∀ e ∈ s.pending, e.waiter = j → q e) →
      s'.oneshots j = s.oneshots j) : Waited s' where
  waiting e he := by
    rw [hpending] at he
    obtain ⟨he, hq⟩ := mem_filter.1 he
    rw [honeshots e.waiter, h.waiting e he]
    intro e' he' hwaiter
    rwa [h.eq_of_waiter he' he hwaiter]
  distinct := by
    rw [hpending]
    exact h.distinct.sublist (filter_sublist.map _)

theorem Waited.removeEntries (h : Waited s) (p : PendingEntry → Bool) :
    Waited (s.removeEntries p) := by
  refine h.filter _ rfl fun j hj => ?_
  simp only [State.removeEntries]
  rw [if_neg]
  rintro ⟨-, e, he, hp, hwaiter⟩
  have hq := hj e he hwaiter
  rw [hp] at hq
  cases hq

variable {op : Op Operation}

theorem Effect.waited (he : Effect i s op s') (hs : Wf s) (hpre : pre i op s)
    (h : Waited s) : Waited s' := by
  cases he with
  | quiet hq => exact h.congr hq.pending hq.oneshots
  | insertConnection | removeConnection | lookup | send | sendFailed | elapse | await =>
    exact h.congr rfl rfl
  | retainPending host => exact (h.removeEntries fun e => e.host = host).congr rfl rfl
  | resolve e _ he =>
    refine h.filter _ rfl fun j hj => ?_
    simp only [State.answer]
    refine update_of_ne ?_ _ _
    rintro rfl
    exact absurd rfl (of_decide_eq_true (hj e he rfl))
  | insertPending =>
    obtain ⟨_, _, ht, -, -, hrequest, -⟩ := hpre
    have hnot : ∀ e ∈ s.pending, e.waiter ≠ i := by
      rintro e he rfl
      obtain ⟨t', ht', -, hr⟩ := hs.entry e he
      rw [ht] at ht'
      rw [← some.inj ht', hrequest] at hr
      cases hr.symm
    refine ⟨fun e he => ?_, ?_⟩
    · rcases mem_cons.1 he with rfl | he
      · exact update_self ..
      · exact (update_of_ne (hnot e he) ..).trans (h.waiting e he)
    · refine nodup_cons.2 ⟨fun hmem => ?_, h.distinct⟩
      obtain ⟨e, he, hwaiter⟩ := mem_map.1 hmem
      exact hnot e he hwaiter
  | removePending requestId => exact h.removeEntries fun e => e.requestId = requestId

theorem Effect.mem_pending (he : Effect i s op s') (h : e ∈ s'.pending) :
    e ∈ s.pending ∨ ∃ host, op = .insertPending host ∧ e = ⟨s.nextRequest, host, i⟩ := by
  cases he with
  | quiet hq => exact .inl (hq.pending ▸ h)
  | retainPending | resolve | removePending => exact .inl (mem_of_mem_filter h)
  | insertPending host =>
    rcases mem_cons.1 h with rfl | h
    · exact .inr ⟨host, rfl, rfl⟩
    · exact .inl h
  | _ => exact .inl h

/-! ### Programs that remove their entry -/

/-- Unless somebody answers or fails the request before, the program removes it. -/
def Owes {α : Type} (r : RequestId) : Program Operation α → Prop
  | .call (.send _ _) k => Owes r (k true) ∧ Owes r (k false)
  | .call .await k => Owes r (k .elapsed)
  | .call (.removePending r') _ => r' = r
  | _ => False

def Op.inserts : Op Operation → Bool
  | .insertPending _ => true
  | _ => false

theorem serve_avoids (host : HostId) (rounds : ℕ) :
    (serve host rounds : Program Operation Unit).Avoids (·.inserts) := by
  induction rounds with
  | zero => trivial
  | succ _ ih =>
    refine ⟨false_ne_true, fun sel => ?_⟩
    rcases sel with sent | sent | message | -
    · cases sent
      · trivial
      · exact ih
    · cases sent
      · trivial
      · exact ih
    · rcases message with _ | ⟨r, o⟩ | _ | _
      · exact ih
      · exact ⟨false_ne_true, fun _ => ih⟩
      · exact ih
      · exact ih
    · trivial

theorem unregister_avoids (host : HostId) :
    (unregister host : Program Operation Unit).Avoids (·.inserts) :=
  ⟨false_ne_true, fun _ => ⟨false_ne_true, fun _ => trivial⟩⟩

theorem handleSocket_avoids (host : HostId) (flag : Bool) (version : Option ℕ) (rounds : ℕ) :
    (handleSocket host flag version rounds : Program Operation Unit).Avoids (·.inserts) := by
  refine ⟨false_ne_true, fun _ => ⟨false_ne_true, fun _ => ?_⟩⟩
  refine ⟨false_ne_true, fun _ => ⟨false_ne_true, fun _ => ?_⟩⟩
  refine (serve_avoids host rounds).bind fun _ => (unregister_avoids host).bind fun _ => ?_
  exact ⟨false_ne_true, fun _ => trivial⟩

theorem code_inserts {T : OperationTable Operation} {job : Job Operation} {host : HostId}
    {k : RequestId → Program Operation Result}
    (h : (code T job).Residual (.call (.insertPending host) k)) :
    (∃ operation, job = .dispatch host operation) ∧ ∀ r, Owes r (k r) := by
  have hnot : ∀ {p : Program Operation Unit}, p.Avoids (·.inserts) →
      ¬ (p >>= fun _ => pure Result.finished).Residual (.call (.insertPending host) k) :=
    fun hp h => (hp.bind (f := fun _ => .ret Result.finished) fun _ => trivial).residual h rfl
  cases job with
  | dispatch _ operation =>
    rcases Prog.residual_bind h with ⟨op, k', hop, hq⟩ | ⟨result, h⟩
    · cases hq
      obtain ⟨_, hsend⟩ := (dispatch_calls T _ operation).residual hop
      cases hsend
      exact ⟨⟨operation, rfl⟩, fun _ => ⟨rfl, rfl⟩⟩
    · cases h
  | handler host' flag version rounds =>
    exact absurd h (hnot (handleSocket_avoids host' flag version rounds))
  | removeHost host' =>
    refine absurd h (hnot ((unregister_avoids host').bind fun _ => ?_))
    exact ⟨false_ne_true, fun _ => trivial⟩
  | setControlPlane | setDockerDevice =>
    exact absurd h (hnot ⟨false_ne_true, fun _ => trivial⟩)

theorem Owes.exec {α : Type} {c : Choice} {r : Resp op}
    {k : Resp op → Program Operation α} (h : Owes e.requestId (.call op k))
    (hexec : exec i op c s = some (s', r)) (hwaiting : s.oneshots i = .waiting)
    (he : e ∈ s'.pending) : Owes e.requestId (k r) := by
  cases op with
  | send =>
    cases r with
    | false => exact h.2
    | true => exact h.1
  | await =>
    rcases exec_await hexec with ⟨o, hw, -⟩ | ⟨hw, -⟩ | ⟨-, rfl, -⟩
    · cases hwaiting.symm.trans hw
    · cases hwaiting.symm.trans hw
    · exact h
  | removePending requestId =>
    have heq := (Prod.mk.inj (some.inj hexec)).1
    rw [← heq] at he
    have hne : (!decide (e.requestId = requestId)) := (mem_filter.1 he).2
    rw [decide_eq_true h.symm] at hne
    cases hne
  | _ => exact h.elim

section Runs

variable {T : OperationTable Operation} {protection : ControlPlaneProtection}

variable {P : HostPool Operation}

theorem waited_of_reaches (h : Reaches T protection (fun _ _ _ _ => True) P) : Waited P.shared :=
  (Rules.inv_of_pre (I := Waited) (fun _ => holds_of_reaches) (fun _ _ _ _ _ => trivial)
    (fun _ _ _ _ _ _ hs hpre hI _ hexec => (effect_of_exec hexec).waited hs hpre hI)
    .refl (waited_new protection) h).2

theorem owes_of_reaches (h : Reaches T protection (fun _ _ _ _ => True) P) :
    ∀ e ∈ P.shared.pending, ∃ operation p,
      P.threads e.waiter = some ⟨.dispatch e.host operation, p⟩ ∧ Owes e.requestId p := by
  induction h with
  | refl => exact nofun
  | @tail P P' hreach hstep ih =>
    intro e he
    cases hstep with
    | start _ _ hi =>
      obtain ⟨operation, p, hp, howes⟩ := ih e he
      refine ⟨operation, p, (P.put_threads_of_ne _ _ ?_).trans hp, howes⟩
      rintro rfl
      cases hp.symm.trans hi
    | run i _ _ k _ _ r hi _ hexec =>
      rcases (effect_of_exec hexec).mem_pending he with hold | ⟨host, rfl, rfl⟩
      · obtain ⟨operation, p, hp, howes⟩ := ih e hold
        rcases eq_or_ne e.waiter i with rfl | hne
        · rw [hi] at hp
          cases hp
          have hwaiting := (waited_of_reaches hreach).waiting e hold
          exact ⟨operation, k r, P.put_threads_self _ _ _, howes.exec hexec hwaiting he⟩
        · exact ⟨operation, p, (P.put_threads_of_ne _ _ hne).trans hp, howes⟩
      · obtain ⟨⟨operation, rfl⟩, howes⟩ := code_inserts (residual_of_reach hreach hi)
        obtain rfl : P.shared.nextRequest = r := (Prod.mk.inj (some.inj hexec)).2
        exact ⟨operation, k P.shared.nextRequest, P.put_threads_self _ _ _, howes _⟩

/-! ### Calls that are dropped -/

/-- Where a dispatch call waits, and can be dropped. -/
def Op.awaits : Op Operation → Bool
  | .send _ _ => true
  | .await => true
  | _ => false

def Anywhere (_ : ThreadId) (op : Op Operation) (_ : State Operation) : Prop := op.awaits = true

def AfterOutcome (i : ThreadId) (op : Op Operation) (s : State Operation) : Prop :=
  op.awaits = true ∧ s.oneshots i ≠ .waiting

abbrev DropHostPool (Operation : Type) :=
  DropPool ThreadId (Job Operation) (State Operation) (Op Operation) Resp Result

/-- The runs of handlers and dispatch calls in which calls are dropped as `mayDrop` allows. -/
abbrev DropReaches (T : OperationTable Operation) (protection : ControlPlaneProtection)
    (mayDrop : ThreadId → Op Operation → State Operation → Prop)
    (D : DropHostPool Operation) : Prop :=
  DropReach (code T) exec (fun _ _ _ _ => True) mayDrop ⟨.init (.new protection), fun _ => false⟩ D

def InProgress (D : DropHostPool Operation) (i : ThreadId) (host : HostId) : Prop :=
  D.dropped i = false ∧ ∃ operation op k,
    D.pool.threads i = some ⟨.dispatch host operation, .call op k⟩

theorem Owes.exists_call {α : Type} {r : RequestId} {p : Program Operation α} (h : Owes r p) :
    ∃ op k, p = .call op k := by
  cases p with
  | ret => exact h.elim
  | call op k => exact ⟨op, k, rfl⟩

/-- In every run in which calls are dropped only after they were answered or failed, the pending
table has entries of calls in progress only. -/
theorem pending_of_dropReaches
    {D : DropHostPool Operation} (h : DropReaches T protection AfterOutcome D) :
    (∀ e ∈ D.pool.shared.pending, InProgress D e.waiter e.host) ∧
      ∀ calls : Finset ThreadId, (∀ i host, InProgress D i host → i ∈ calls) →
        D.pool.shared.pending.length ≤ calls.card := by
  have hreach := reach_of_dropReach h
  let has : State Operation → ThreadId → Prop := fun s j => ∃ e ∈ s.pending, e.waiter = j
  have hkept : ∀ j, has D.pool.shared j → D.dropped j = false := by
    refine not_dropped_of_dropReach ?_ ?_ ?_ h
    · rintro i op c s s' r j hexec ⟨e, he, rfl⟩
      rcases (effect_of_exec hexec).mem_pending he with hold | ⟨host, -, rfl⟩
      · exact .inl ⟨e, hold, rfl⟩
      · exact .inr rfl
    · rintro P i op hP ⟨-, houtcome⟩ ⟨e, he, rfl⟩
      exact houtcome ((waited_of_reaches hP).waiting e he)
    · rintro j ⟨e, he, -⟩
      cases he
  have hprogress : ∀ e ∈ D.pool.shared.pending, InProgress D e.waiter e.host := by
    intro e he
    obtain ⟨operation, _, hp, howes⟩ := owes_of_reaches hreach e he
    obtain ⟨op, k, rfl⟩ := howes.exists_call
    exact ⟨hkept e.waiter ⟨e, he, rfl⟩, operation, op, k, hp⟩
  refine ⟨hprogress, fun calls hcalls => ?_⟩
  rw [← length_map PendingEntry.waiter,
    ← toFinset_card_of_nodup (waited_of_reaches hreach).distinct]
  refine Finset.card_le_card fun j hj => ?_
  obtain ⟨e, he, rfl⟩ := mem_map.1 (mem_toFinset.1 hj)
  exact hcalls e.waiter e.host (hprogress e he)

end Runs

def waits (P : HostPool Unit) (i : ThreadId) : Bool :=
  match P.threads i with
  | some ⟨_, .call op _⟩ => op.awaits
  | _ => false

theorem exists_of_waits {P : HostPool Unit} {i : ThreadId} (h : waits P i) :
    ∃ job op k, P.threads i = some ⟨job, .call op k⟩ ∧ op.awaits := by
  unfold waits at h
  split at h
  · rename_i job op k hi
    exact ⟨job, op, k, hi, h⟩
  · cases h

theorem exists_waiting : ∃ P, Reaches pingTable ⟨∅, none⟩ (fun _ _ _ _ => True) P ∧
    P.shared.pending = [⟨0, 0, 3⟩] ∧ waits P 3 :=
  exists_reach_of_fires (connect 1 0 1 ++ dispatchPing 3 0) (by decide)

theorem pending_of_dropReaches_waiting :
    ∃ D, DropReaches pingTable ⟨∅, none⟩ AfterOutcome D ∧ D.pool.shared.pending = [⟨0, 0, 3⟩] ∧
      InProgress D 3 0 ∧ ∀ calls : Finset ThreadId, (∀ i host, InProgress D i host → i ∈ calls) →
        1 ≤ calls.card := by
  obtain ⟨P, hP, hpending, -⟩ := exists_waiting
  have hD : DropReaches pingTable ⟨∅, none⟩ AfterOutcome ⟨P, fun _ => false⟩ :=
    dropReach_of_reach hP
  obtain ⟨hprogress, hbound⟩ := pending_of_dropReaches hD
  simp only [hpending] at hprogress hbound
  exact ⟨_, hD, hpending, hprogress ⟨0, 0, 3⟩ mem_cons_self, hbound⟩

/-- A call is dropped while it waits for its answer, and its entry stays. -/
theorem leaked_of_dropped :
    ¬ ∀ D, DropReaches pingTable ⟨∅, none⟩ Anywhere D →
      ∀ e ∈ D.pool.shared.pending, InProgress D e.waiter e.host := by
  intro hall
  obtain ⟨P, hP, hpending, hwaits⟩ := exists_waiting
  obtain ⟨job, op, k, hi, hawaits⟩ := exists_of_waits hwaits
  have hD : DropReaches pingTable ⟨∅, none⟩ Anywhere ⟨P, fun _ => false⟩ := dropReach_of_reach hP
  obtain ⟨hkept, -⟩ := hall _ (hD.tail (.drop 3 job op k hi hawaits)) ⟨0, 0, 3⟩
    (hpending ▸ mem_cons_self)
  have htrue : (update (fun _ => false) 3 true : ThreadId → Bool) 3 := by
    rw [update_self]
  cases htrue.symm.trans hkept

end Abyssal.Hosts
