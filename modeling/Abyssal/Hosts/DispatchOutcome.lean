import Abyssal.Hosts.PendingTable

/-!
# What a dispatch call returns

A call returns the outcome of a response to its request, or that the connection closed or the
timeout elapsed. `resolve` does not compare the host on whose connection the response arrived.
`unregister` fails the calls in the pending table, but misses a call that looked up the connection
before and enters the table afterwards; such a call waits for its whole timeout.

## Main results

* `outcome_of_dispatch`: the outcome is of a response.
* `failsPromptly_of_sentBefore`: when calls fail at once.
-/

namespace Abyssal.Hosts

open Resumption Function State

variable {Operation : Type} {s s' : State Operation} {i j : ThreadId}

/-! ### The origin of an outcome -/

/-- The outcome was carried by a response that names the request id of the call. If only connections
of `host` sent such responses, it arrived on one of them. -/
theorem outcome_of_dispatch {T : OperationTable Operation} {protection : ControlPlaneProtection}
    {P : HostPool Operation}
    (h : Reaches T protection (fun _ _ _ _ => True) P) {host : HostId} {operation : Operation}
    {o : CommandOutcome}
    (hi : P.threads i = some ⟨.dispatch host operation, .ret (.dispatched (.ok o))⟩) :
    ∃ r, Tracked P.shared i host r ∧ (∀ j h', Tracked P.shared j h' r → j = i) ∧
      (∃ g, ⟨g, r, o⟩ ∈ P.shared.received) ∧
      ((∀ x ∈ P.shared.received, x.requestId = r → x.host = host) →
        ⟨host, r, o⟩ ∈ P.shared.received) := by
  have hholds := holds_of_reaches h
  obtain ⟨r, g, ht, hg⟩ : Answered P.shared i host o := hholds.post_of_ret hi
  refine ⟨r, ht, fun j h' hj => hholds.inv.unique _ _ _ _ _ hj ht, ⟨g, hg⟩, fun hown => ?_⟩
  obtain rfl : g = host := hown _ hg rfl
  exact hg

theorem outcome_of_dispatch_answered :
    ∃ P, Reaches pingTable ⟨∅, none⟩ (fun _ _ _ _ => True) P ∧
      P.threads 3 = some ⟨.dispatch 0 (), .ret (.dispatched (.ok (.err "no")))⟩ ∧
      ∃ r, Tracked P.shared 3 0 r ∧ (∀ j h', Tracked P.shared j h' r → j = 3) ∧
        (∃ g, ⟨g, r, .err "no"⟩ ∈ P.shared.received) ∧
        ((∀ x ∈ P.shared.received, x.requestId = r → x.host = 0) →
          ⟨0, r, .err "no"⟩ ∈ P.shared.received) := by
  obtain ⟨P, hP, houtcome⟩ : ∃ P, Reaches pingTable ⟨∅, none⟩ (fun _ _ _ _ => True) P ∧
      pingOutcome P 3 = some (0, .ok (.err "no")) :=
    exists_reach_of_fires (connect 1 0 1 ++ dispatchPing 3 0 ++
      [.run 1 (.incoming (some (.response 0 (.err "no")))), .run 1 .go, .run 3 .go]) (by decide)
  have hi := threads_of_pingOutcome houtcome
  exact ⟨P, hP, hi, outcome_of_dispatch hP hi⟩

/-- A response on the connection of host `1` that names the request id of a call to host `0`
completes the call. -/
theorem not_outcome_of_own_host :
    ¬ ∀ P i host o, Reaches pingTable ⟨∅, none⟩ (fun _ _ _ _ => True) P →
      P.threads i = some ⟨.dispatch host (), .ret (.dispatched (.ok o))⟩ →
      ∃ r, ⟨host, r, o⟩ ∈ P.shared.received := by
  intro hall
  obtain ⟨P, hP, hres, hhosts⟩ : ∃ P, Reaches pingTable ⟨∅, none⟩ (fun _ _ _ _ => True) P ∧
      pingOutcome P 3 = some (0, .ok (.err "no")) ∧ ∀ x ∈ P.shared.received, x.host = 1 :=
    exists_reach_of_fires (connect 1 0 1 ++ connect 2 1 1 ++ dispatchPing 3 0 ++
      [.run 2 (.incoming (some (.response 0 (.err "no")))), .run 2 .go, .run 3 .go]) (by decide)
  obtain ⟨_, hr⟩ := hall P 3 0 (.err "no") hP (threads_of_pingOutcome hres)
  exact absurd (hhosts _ hr) Nat.zero_ne_one

/-! ### Calls whose host was unregistered -/

def Op.sender : Op Operation → Option ThreadId
  | .send sender _ => some sender
  | _ => none

/-- A call that entered the pending table after an `unregister` of its host sends only on a closed
channel. -/
def SentBefore (i : ThreadId) (op : Op Operation) (_ : Choice) (s : State Operation) : Prop :=
  ∀ sender ∈ op.sender, ∀ t ∈ s.calls i, t.late = true → (s.channels sender).receiver = false

instance (i : ThreadId) (op : Op Operation) (c : Choice) (s : State Operation) :
    Decidable (SentBefore i op c s) :=
  inferInstanceAs (Decidable (∀ sender ∈ op.sender, ∀ t ∈ s.calls i, _))

/-- A call whose host was unregistered since its lookup can go on at once, and a call that reports a
timeout was waiting while its host was not unregistered. -/
structure FailsPromptly (P : HostPool Operation) : Prop where
  waits : ∀ i host operation k t,
    P.threads i = some ⟨.dispatch host operation, .call .await k⟩ → P.shared.calls i = some t →
    t.sweeps ≠ P.shared.sweeps t.host →
    (exec i .await .go P.shared).isSome ∧
      ∀ c s' a, exec i .await c P.shared = some (s', a) →
        (∃ o, P.shared.oneshots i = .sent o ∧ k a = .ret (.dispatched (.ok o))) ∨
        (P.shared.oneshots i = .dropped ∧ k a = .ret (.dispatched (.error .connectionClosed)))
  timeouts : ∀ i host operation,
    P.threads i = some ⟨.dispatch host operation, .ret (.dispatched (.error .timeout))⟩ →
    ∃ t, P.shared.calls i = some t ∧ t.stage = .timedOut t.sweeps

/-- A call waits without an answer only while its host was not unregistered since its lookup. -/
def Watched (s : State Operation) (i : ThreadId) (t : CallTrack) : Prop :=
  s.oneshots i = .waiting → s.sweeps t.host = t.sweeps

structure Prompt (s : State Operation) : Prop where
  inserted : ∀ i t, s.calls i = some t → t.stage = .inserted → t.late = false → Watched s i t
  awaiting : ∀ i t, s.calls i = some t → t.stage = .awaiting → Watched s i t
  timedOut : ∀ i t n, s.calls i = some t → t.stage = .timedOut n → n = t.sweeps

theorem prompt_new (protection : ControlPlaneProtection) :
    Prompt (new protection : State Operation) := by
  constructor <;> simp [new]

theorem Prompt.congr (h : Prompt s) (hcalls : s'.calls = s.calls)
    (hwatched : ∀ i t, s.calls i = some t → Watched s i t → Watched s' i t) : Prompt s' where
  inserted i t ht hstage hlate :=
    hwatched i t (hcalls ▸ ht) (h.inserted i t (hcalls ▸ ht) hstage hlate)
  awaiting i t ht hstage := hwatched i t (hcalls ▸ ht) (h.awaiting i t (hcalls ▸ ht) hstage)
  timedOut i t n ht := h.timedOut i t n (hcalls ▸ ht)

variable {t : CallTrack}

theorem Prompt.update (h : Prompt s)
    (hcalls : s'.calls = update s.calls i (some t)) (hsweeps : s'.sweeps = s.sweeps)
    (honeshots : ∀ j ≠ i, s'.oneshots j = s.oneshots j)
    (hinserted : t.stage = .inserted → t.late = false → Watched s' i t)
    (hawaiting : t.stage = .awaiting → Watched s' i t)
    (htimedOut : ∀ n, t.stage = .timedOut n → n = t.sweeps) : Prompt s' := by
  have hself : ∀ t', s'.calls i = some t' → t' = t := fun t' ht' => by
    simpa [hcalls, eq_comm] using ht'
  have hother : ∀ j t', j ≠ i → s'.calls j = some t' → s.calls j = some t' := fun j t' hne ht' => by
    simpa [hcalls, hne] using ht'
  have hwatched : ∀ j t', j ≠ i → Watched s j t' → Watched s' j t' := fun j t' hne hw => by
    simpa only [Watched, hsweeps, honeshots j hne] using hw
  refine ⟨fun j t' ht' hstage hlate => ?_, fun j t' ht' hstage => ?_, fun j t' n ht' hstage => ?_⟩
  all_goals rcases eq_or_ne j i with rfl | hne
  · obtain rfl := hself t' ht'
    exact hinserted hstage hlate
  · exact hwatched j t' hne (h.inserted j t' (hother j t' hne ht') hstage hlate)
  · obtain rfl := hself t' ht'
    exact hawaiting hstage
  · exact hwatched j t' hne (h.awaiting j t' (hother j t' hne ht') hstage)
  · obtain rfl := hself t' ht'
    exact htimedOut n hstage
  · exact h.timedOut j t' n (hother j t' hne ht') hstage

theorem setStage_calls (ht : s.calls i = some t) (f : CallTrack → Stage) :
    (s.setStage i f).calls = update s.calls i (some { t with stage := f t }) := by
  simp [setStage, track, ht]

private theorem watched_removeEntries {p : PendingEntry → Bool} (h : Watched s i t) :
    Watched (s.removeEntries p) i t :=
  fun hw => h (removeEntries_oneshots_eq_waiting.mp hw).1

variable {host : HostId}

private theorem watched_retainPending (hs : Wf s) {live : ThreadId → Bool}
    (ht : s.calls j = some t) (h : Watched s j t) :
    Watched ({ s.removeEntries (fun e => e.host = host) with
      live := live
      sweeps := update s.sweeps host (s.sweeps host + 1) } : State Operation) j t := by
  intro hw
  obtain ⟨hw, hentry⟩ := removeEntries_oneshots_eq_waiting.mp hw
  obtain ⟨h', r, ⟨t', ht', rfl, -⟩, he⟩ := hs.waiting j hw
  cases ht.symm.trans ht'
  have hne : t.host ≠ host := fun hhost => hentry _ he (by simpa using hhost) rfl
  simpa [hne] using h hw

variable {op : Op Operation}

theorem Effect.prompt {c : Choice} (he : Effect i s op s') (hs : Wf s)
    (hpre : pre i op s) (hok : SentBefore i op c s) (h : Prompt s) : Prompt s' := by
  cases he with
  | quiet hq =>
    refine h.congr hq.calls fun j t _ hw => ?_
    simpa only [Watched, hq.oneshots, hq.sweeps] using hw
  | insertConnection | removeConnection => exact h.congr rfl fun _ _ _ hw => hw
  | retainPending => exact h.congr rfl fun j t ht hw => watched_retainPending hs ht hw
  | resolve e =>
    refine h.congr rfl fun j t _ hw hwait => hw ?_
    rcases eq_or_ne j e.waiter with rfl | hne
    · simp only [answer, update_self] at hwait
      split_ifs at hwait with hcond
      exact absurd hwait hcond
    · simpa only [answer, update_of_ne hne] using hwait
  | lookup =>
    exact h.update rfl rfl (fun _ _ => rfl) (by simp) (by simp) (by simp)
  | insertPending =>
    obtain ⟨chan, t, ht, rfl, -, -, -⟩ := hpre
    refine h.update (t := t.inserted (s.sweeps t.host) s.nextRequest) ?_ rfl
      (fun j hne => update_of_ne hne ..) (fun _ hlate _ => ?_)
      (by simp [CallTrack.inserted])
      (by simp [CallTrack.inserted])
    · simp [track, ht]
    · have hsweeps : s.sweeps t.host = t.sweeps := by simpa [CallTrack.inserted] using hlate
      exact hsweeps
  | send sender _ _ hopen =>
    obtain ⟨host, r, t, ht, -, -, -, hstage⟩ := hpre
    have hlate : t.late = false := by
      by_contra hlate
      have hclosed := hok sender rfl t ht (by simpa using hlate)
      cases hopen.symm.trans hclosed
    exact h.update (setStage_calls ht _) rfl (fun _ _ => rfl) (by simp)
      (fun _ => h.inserted i t ht hstage hlate) (by simp)
  | sendFailed =>
    obtain ⟨host, r, t, ht, -⟩ := hpre
    exact h.update (setStage_calls ht _) rfl (fun _ _ => rfl) (by simp) (by simp) (by simp)
  | removePending => exact h.congr rfl fun _ _ _ hw => watched_removeEntries hw
  | elapse hw =>
    obtain ⟨host, chan, r, t, ht, -, -, -, hstage⟩ := hpre
    refine h.update (setStage_calls ht _) rfl (fun _ _ => rfl) (by simp) (by simp) fun n hn => ?_
    rw [← h.awaiting i t ht hstage hw]
    exact (Stage.timedOut.inj hn).symm
  | await =>
    obtain ⟨-, _, _, _, ht, -⟩ := hpre
    exact h.update (setStage_calls ht _) rfl (fun _ _ => rfl) (by simp) (by simp) (by simp)

variable {T : OperationTable Operation} {operation : Operation}

private theorem code_dispatch_residual
    {k : Awaited → Program Operation Result}
    (h : (code T (.dispatch host operation)).Residual (.call .await k)) :
    (∀ o, k (.outcome o) = .ret (.dispatched (.ok o))) ∧
      k .closed = .ret (.dispatched (.error .connectionClosed)) := by
  rcases Prog.residual_bind h with ⟨op, k', hop, hq⟩ | ⟨result, h⟩
  · cases hq
    obtain ⟨hok, hclosed⟩ := (dispatch_calls T host operation).residual hop
    exact ⟨fun o => by simp only [hok]; rfl, by simp only [hclosed]; rfl⟩
  · cases h

/-- Calls fail promptly in every run whose steps satisfy `SentBefore`. -/
theorem failsPromptly_of_sentBefore {T : OperationTable Operation}
    {protection : ControlPlaneProtection} {P : HostPool Operation}
    (h : Reaches T protection SentBefore P) : FailsPromptly P := by
  obtain ⟨hreach, hprompt⟩ := Rules.inv_of_pre (I := Prompt)
    (fun _ => holds_of_reaches) (fun _ _ _ _ _ => trivial)
    (fun i op c s s' r hs hpre hI hok hexec => (effect_of_exec hexec).prompt hs hpre hok hI)
    .refl (prompt_new protection) h
  have hholds := holds_of_reaches hreach
  refine ⟨fun i host operation k t hi ht hsweeps => ?_, fun i host operation hi => ?_⟩
  · obtain ⟨hok, hclosed⟩ := code_dispatch_residual (residual_of_reach hreach hi)
    obtain ⟨host', chan, r, t', ht', -, -, hr, hstage⟩ := hholds.pre_of_call hi
    cases ht.symm.trans ht'
    have hwaiting : P.shared.oneshots i ≠ .waiting := fun hw =>
      hsweeps (hprompt.awaiting i t ht hstage hw).symm
    have hcreated := hholds.inv.created i t.host r ⟨t, ht, rfl, hr⟩
    refine ⟨?_, fun c s' a hexec => ?_⟩
    · cases hw : P.shared.oneshots i <;> simp_all [exec]
    · rcases exec_await hexec with ⟨o, ho, rfl, -⟩ | ⟨hd, rfl, -⟩ | ⟨hw, -, -⟩
      · exact .inl ⟨o, ho, hok o⟩
      · exact .inr ⟨hd, hclosed⟩
      · exact absurd hw hwaiting
  · obtain ⟨_, _, n, t, ht, -, -, -, hstage⟩ := hholds.post_of_ret hi
    exact ⟨t, ht, hprompt.timedOut i t n ht hstage ▸ hstage⟩

theorem failsPromptly_of_sentBefore_waiting :
    ∃ P, Reaches pingTable ⟨∅, none⟩ SentBefore P ∧
      (P.shared.oneshots 3 = .dropped ∧ P.shared.sweeps 0 = 1) ∧ FailsPromptly P := by
  obtain ⟨P, hP, hdropped⟩ : ∃ P, Reaches pingTable ⟨∅, none⟩ SentBefore P ∧
      P.shared.oneshots 3 = .dropped ∧ P.shared.sweeps 0 = 1 :=
    exists_reach_of_fires
      (connect 1 0 1 ++ dispatchPing 3 0 ++ [.run 1 .hangUp, .run 1 .go, .run 1 .go]) (by decide)
  exact ⟨P, hP, hdropped, failsPromptly_of_sentBefore hP⟩

/-- The host is unregistered after a call looked its connection up and before the call enters the
pending table. -/
theorem not_failsPromptly_of_late_insert :
    ¬ ∀ P, Reaches pingTable ⟨∅, none⟩ (fun _ _ _ _ => True) P → FailsPromptly P := by
  intro hall
  obtain ⟨P, hP, hres, hcall⟩ : ∃ P, Reaches pingTable ⟨∅, none⟩ (fun _ _ _ _ => True) P ∧
      pingOutcome P 3 = some (0, .error .timeout) ∧
      P.shared.calls 3 = some ⟨0, 1, 0, true, some 0, .timedOut 1⟩ :=
    exists_reach_of_fires (connect 1 0 1 ++
      [.start 3 (.dispatch 0 ()), .run 3 .go, .run 3 .go, .run 1 .hangUp, .run 1 .go, .run 1 .go,
        .run 3 .go, .run 3 .go, .run 1 .go, .run 3 .elapse, .run 3 .go]) (by decide)
  obtain ⟨_, ht, hstage⟩ := (hall P hP).timeouts 3 0 () (threads_of_pingOutcome hres)
  cases hcall.symm.trans ht
  exact absurd (Stage.timedOut.inj hstage) Nat.one_ne_zero

end Abyssal.Hosts
