import Abyssal.Hosts.Registry

/-!
# The pending table of the registry

In every run, an entry of the pending table belongs to the dispatch call that inserted it, request
ids are used once, a call that waits without an answer has its entry in the table, and a call that
was answered was answered by a response naming its request id. The effect of every operation on the
tables is described once, by `Effect`.
-/

namespace Abyssal.Hosts

open Resumption List Function

variable {Operation : Type} {s s' : State Operation} {i j : ThreadId}

/-! ### Effects of the operations -/

/-- The tables and the progress of the calls are the same, and no response is forgotten. -/
structure Quiet (s s' : State Operation) : Prop where
  connections : s'.connections = s.connections
  pending : s'.pending = s.pending
  oneshots : s'.oneshots = s.oneshots
  nextRequest : s'.nextRequest = s.nextRequest
  latest : s'.latest = s.latest
  live : s'.live = s.live
  sweeps : s'.sweeps = s.sweeps
  calls : s'.calls = s.calls
  received : s.received ⊆ s'.received

inductive Effect (i : ThreadId) (s : State Operation) : Op Operation → State Operation → Prop
  | quiet {op s'} (h : Quiet s s') : Effect i s op s'
  | insertConnection (host version epoch) :
      Effect i s (.insertConnection host version epoch) { s with
        connections := update s.connections host (some ⟨i, version, epoch⟩)
        latest := update s.latest host (some i)
        live := update s.live i true }
  | removeConnection (host) :
      Effect i s (.removeConnection host) { s with
        connections := update s.connections host none
        live := update s.live i false }
  | retainPending (host) :
      Effect i s (.retainPending host) { s.removeEntries (fun e => e.host = host) with
        live := update s.live i false
        sweeps := update s.sweeps host (s.sweeps host + 1) }
  | resolve (e : PendingEntry) (outcome) (he : e ∈ s.pending) :
      Effect i s (.resolve e.requestId outcome)
        (({ s with pending := s.pending.filter fun e' => e'.requestId ≠ e.requestId } :
          State Operation).answer e.waiter outcome)
  | lookup (host) (conn : Connection) (hconn : s.connections host = some conn) :
      Effect i s (.lookup host) { s with
        calls := update s.calls i
          (some ⟨host, conn.chan, s.sweeps host, false, none, .lookedUp⟩) }
  | insertPending (host) :
      Effect i s (.insertPending host) {
        s.track i (fun t => t.inserted (s.sweeps host) s.nextRequest) with
        pending := ⟨s.nextRequest, host, i⟩ :: s.pending
        oneshots := update s.oneshots i .waiting
        nextRequest := s.nextRequest + 1 }
  | send (sender message channels) (hopen : (s.channels sender).receiver = true) :
      Effect i s (.send sender message)
        { s.setStage i (fun _ => .awaiting) with channels := channels }
  | sendFailed (sender message) :
      Effect i s (.send sender message) (s.setStage i fun _ => .done)
  | removePending (requestId) :
      Effect i s (.removePending requestId) (s.removeEntries fun e => e.requestId = requestId)
  | elapse (h : s.oneshots i = .waiting) :
      Effect i s .await (s.setStage i fun t => .timedOut (s.sweeps t.host))
  | await (h : s.oneshots i ≠ .waiting) :
      Effect i s .await (s.setStage i fun _ => .done)

open State

private theorem hear_subset (host : HostId) (message : Option AgentMessage) :
    s.received ⊆ (s.hear host message).received := by
  rcases message with _ | ⟨r, o⟩ | _ | _ <;> simp [hear]

theorem quiet_hear (host : HostId) (message : Option AgentMessage) :
    Quiet s (s.hear host message) := by
  refine ⟨?_, ?_, ?_, ?_, ?_, ?_, ?_, ?_, hear_subset host message⟩ <;>
    rcases message with _ | ⟨r, o⟩ | _ | _ <;> rfl

variable {c : Choice}

theorem exec_await {a : Awaited} (h : exec i .await c s = some (s', a)) :
    (∃ o, s.oneshots i = .sent o ∧ a = .outcome o ∧ s' = s.setStage i fun _ => .done) ∨
    (s.oneshots i = .dropped ∧ a = .closed ∧ s' = s.setStage i fun _ => .done) ∨
    (s.oneshots i = .waiting ∧ a = .elapsed ∧
      s' = s.setStage i fun t => .timedOut (s.sweeps t.host)) := by
  cases hw : s.oneshots i <;> cases c <;>
    simp only [exec, hw, Option.some.injEq, Prod.mk.injEq, reduceCtorEq] at h
  all_goals
    obtain ⟨rfl, rfl⟩ := h
    simp

variable {op : Op Operation}

theorem Quiet.refl (s : State Operation) : Quiet s s :=
  ⟨rfl, rfl, rfl, rfl, rfl, rfl, rfl, rfl, Subset.refl _⟩

theorem effect_of_exec {r : Resp op} (h : exec i op c s = some (s', r)) : Effect i s op s' := by
  cases op with
  | insertConnection =>
    cases h
    exact .insertConnection ..
  | removeConnection =>
    cases h
    exact .removeConnection _
  | retainPending =>
    cases h
    exact .retainPending _
  | select host =>
    cases c with
    | go | elapse => cases h
    | heartbeat | hangUp =>
      cases h
      exact .quiet (.refl s)
    | incoming message =>
      cases h
      exact .quiet (quiet_hear host message)
    | outgoing =>
      simp only [exec] at h
      split at h <;> cases h
      exact .quiet { Quiet.refl s with }
  | resolve _ outcome =>
    simp only [exec] at h
    split at h <;> cases h
    · exact .quiet (.refl s)
    · rename_i e he
      obtain rfl : e.requestId = _ := by simpa using find?_some he
      exact .resolve e outcome (mem_of_find?_eq_some he)
  | lookup host =>
    simp only [exec] at h
    split at h <;> cases h
    · exact .quiet (.refl s)
    · exact .lookup host _ ‹_›
  | insertPending =>
    cases h
    exact .insertPending _
  | send =>
    simp only [exec] at h
    split_ifs at h with hopen <;> cases h
    · exact .send _ _ _ hopen
    · exact .sendFailed ..
  | removePending =>
    cases h
    exact .removePending _
  | await =>
    rcases exec_await h with ⟨o, hw, -, rfl⟩ | ⟨hw, -, rfl⟩ | ⟨hw, -, rfl⟩
    · exact .await (by simp [hw])
    · exact .await (by simp [hw])
    · exact .elapse hw
  | _ =>
    cases h
    exact .quiet { Quiet.refl s with }

/-! ### The invariant -/

/-- Dispatch call `i` sends to `host` under the request id `requestId`. -/
def Tracked (s : State Operation) (i : ThreadId) (host : HostId) (requestId : RequestId) : Prop :=
  ∃ t, s.calls i = some t ∧ t.host = host ∧ t.request = some requestId

structure Fresh (i : ThreadId) (s : State Operation) : Prop where
  latest : ∀ h, s.latest h ≠ some i
  connections : ∀ h conn, s.connections h = some conn → conn.chan ≠ i
  calls : ∀ j t, s.calls j = some t → t.chan ≠ i

structure Wf (s : State Operation) : Prop where
  entry : ∀ e ∈ s.pending, Tracked s e.waiter e.host e.requestId
  bound : ∀ j h r, Tracked s j h r → r < s.nextRequest
  unique : ∀ j j' h h' r, Tracked s j h r → Tracked s j' h' r → j = j'
  created : ∀ j h r, Tracked s j h r → s.oneshots j ≠ .unused
  waiting : ∀ j, s.oneshots j = .waiting → ∃ h r, Tracked s j h r ∧ ⟨r, h, j⟩ ∈ s.pending
  answered : ∀ j o, s.oneshots j = .sent o →
    ∃ h r g, Tracked s j h r ∧ ⟨g, r, o⟩ ∈ s.received

theorem wf_new (protection : ControlPlaneProtection) : Wf (new protection : State Operation) := by
  constructor <;> simp [new, Tracked]

variable {r : RequestId} {h : HostId}

theorem Tracked.inj {h' : HostId} {r' : RequestId} (ht : Tracked s i h r)
    (ht' : Tracked s i h' r') : h = h' ∧ r = r' := by
  obtain ⟨_, hcall, rfl, hr⟩ := ht
  obtain ⟨t', hcall', rfl, hr'⟩ := ht'
  cases hcall.symm.trans hcall'
  exact ⟨rfl, Option.some.inj (hr.symm.trans hr')⟩

theorem tracked_setStage {stage : CallTrack → Stage} :
    Tracked (s.setStage i stage) j h r ↔ Tracked s j h r := by
  rcases eq_or_ne j i with rfl | hne
  · cases hc : s.calls j <;> simp [Tracked, setStage, track, hc]
  · simp [Tracked, setStage, track, hne]

theorem Wf.congr (hs : Wf s) (htracked : ∀ j h r, Tracked s' j h r ↔ Tracked s j h r)
    (hpending : s'.pending = s.pending) (honeshots : s'.oneshots = s.oneshots)
    (hnext : s'.nextRequest = s.nextRequest) (hreceived : s.received ⊆ s'.received) : Wf s' where
  entry e he := (htracked ..).mpr (hs.entry e (hpending ▸ he))
  bound j h r ht := hnext ▸ hs.bound j h r ((htracked ..).mp ht)
  unique j j' h h' r ht ht' := hs.unique j j' h h' r ((htracked ..).mp ht) ((htracked ..).mp ht')
  created j h r ht := honeshots ▸ hs.created j h r ((htracked ..).mp ht)
  waiting j hj := by
    obtain ⟨h, r, ht, he⟩ := hs.waiting j (honeshots ▸ hj)
    exact ⟨h, r, (htracked ..).mpr ht, hpending ▸ he⟩
  answered j o hj := by
    obtain ⟨h, r, g, ht, hg⟩ := hs.answered j o (honeshots ▸ hj)
    exact ⟨h, r, g, (htracked ..).mpr ht, hreceived hg⟩

theorem Quiet.tracked (hq : Quiet s s') : Tracked s' j h r ↔ Tracked s j h r := by
  simp [Tracked, hq.calls]

variable {p : PendingEntry → Bool}

theorem removeEntries_oneshots_eq_waiting :
    (s.removeEntries p).oneshots j = .waiting ↔
      s.oneshots j = .waiting ∧ ∀ e ∈ s.pending, p e → e.waiter ≠ j := by
  simp only [removeEntries]
  split_ifs with h
  · obtain ⟨hw, e, he, hp, hj⟩ := h
    simp only [false_iff, not_and, not_forall]
    exact fun _ => ⟨e, he, hp, fun hne => hne hj⟩
  · simp only [iff_self_and]
    exact fun hw e he hp hj => h ⟨hw, e, he, hp, hj⟩

variable {o : CommandOutcome}

theorem removeEntries_oneshots_eq_sent :
    (s.removeEntries p).oneshots j = .sent o ↔ s.oneshots j = .sent o := by
  simp only [removeEntries]
  split_ifs with h
  · simp [h.1]
  · rfl

theorem Wf.removeEntries (hs : Wf s) (p : PendingEntry → Bool) : Wf (s.removeEntries p) where
  entry e he := hs.entry e (mem_of_mem_filter he)
  bound := hs.bound
  unique := hs.unique
  created j h r ht := by
    have hj : s.oneshots j ≠ .unused := hs.created j h r ht
    simp only [State.removeEntries]
    split_ifs
    · simp
    · exact hj
  waiting j hj := by
    obtain ⟨hw, hp⟩ := removeEntries_oneshots_eq_waiting.mp hj
    obtain ⟨h, r, ht, he⟩ := hs.waiting j hw
    refine ⟨h, r, ht, mem_filter.mpr ⟨he, ?_⟩⟩
    simpa using fun hpe => hp _ he hpe rfl
  answered j o hj := hs.answered j o (removeEntries_oneshots_eq_sent.mp hj)

theorem Wf.resolve (hs : Wf s) {e : PendingEntry} (he : e ∈ s.pending)
    {g : HostId} (hg : ⟨g, e.requestId, o⟩ ∈ s.received) :
    Wf (({ s with pending := s.pending.filter fun e' => e'.requestId ≠ e.requestId } :
      State Operation).answer e.waiter o) where
  entry e' he' := hs.entry e' (mem_of_mem_filter he')
  bound := hs.bound
  unique := hs.unique
  created j h r ht := by
    have hj : s.oneshots j ≠ .unused := hs.created j h r ht
    rcases eq_or_ne j e.waiter with rfl | hne
    · simp only [answer, update_self]
      split_ifs
      · simp
      · exact hj
    · simpa [answer, hne] using hj
  waiting j hj := by
    rcases eq_or_ne j e.waiter with rfl | hne
    · simp only [answer, update_self] at hj
      split_ifs at hj with hw
      exact absurd hj hw
    · obtain ⟨h, r, ht, hmem⟩ := hs.waiting j (by simpa [answer, hne] using hj)
      refine ⟨h, r, ht, mem_filter.mpr ⟨hmem, ?_⟩⟩
      have hr : r ≠ e.requestId := by
        rintro rfl
        exact hne (hs.unique _ _ _ _ _ ht (hs.entry e he))
      simpa using hr
  answered j o' hj := by
    rcases eq_or_ne j e.waiter with rfl | hne
    · simp only [answer, update_self] at hj
      split_ifs at hj with hw
      · cases hj
        exact ⟨e.host, e.requestId, g, hs.entry e he, hg⟩
      · exact hs.answered _ o' hj
    · exact hs.answered j o' (by simpa [answer, hne] using hj)

variable {f : CallTrack → CallTrack}

theorem Wf.insertPending (hs : Wf s) {t : CallTrack} (ht : s.calls i = some t)
    (hrequest : t.request = none) (hhost : (f t).host = t.host)
    (hf : (f t).request = some s.nextRequest) :
    Wf { s.track i f with
      pending := ⟨s.nextRequest, t.host, i⟩ :: s.pending
      oneshots := update s.oneshots i .waiting
      nextRequest := s.nextRequest + 1 } := by
  set s₁ : State Operation := { s.track i f with
    pending := ⟨s.nextRequest, t.host, i⟩ :: s.pending
    oneshots := update s.oneshots i .waiting
    nextRequest := s.nextRequest + 1 } with hs₁
  have hne : ∀ {j h r}, Tracked s j h r → j ≠ i := by
    rintro j h r ⟨_, ht', -, hr⟩ rfl
    cases ht.symm.trans ht'
    cases hrequest.symm.trans hr
  -- a request id of the new state is either the new one, of `i`, or one of the old state
  have htracked : ∀ {j h r}, Tracked s₁ j h r ↔
      (j = i ∧ h = t.host ∧ r = s.nextRequest) ∨ Tracked s j h r := by
    intro j h r
    rcases eq_or_ne j i with rfl | hj
    · simp [hs₁, Tracked, track, ht, hhost, hf, hrequest, eq_comm]
    · simp [hs₁, Tracked, track, hj]
  have hnew := (htracked (j := i)).mpr (.inl ⟨rfl, rfl, rfl⟩)
  refine ⟨fun e he => ?_, fun j h r hj => ?_, fun j j' h h' r hj hj' => ?_,
    fun j h r hj => ?_, fun j hj => ?_, fun j o hj => ?_⟩
  · rcases mem_cons.mp he with rfl | he
    · exact hnew
    · exact htracked.mpr (.inr (hs.entry e he))
  · rcases htracked.mp hj with ⟨-, -, rfl⟩ | hj
    · exact Nat.lt_succ_self _
    · exact Nat.lt_succ_of_lt (hs.bound j h r hj)
  · rcases htracked.mp hj with ⟨rfl, -, rfl⟩ | ho <;>
      rcases htracked.mp hj' with ⟨rfl, -, hr⟩ | ho'
    · rfl
    · exact absurd (hs.bound _ _ _ ho') (lt_irrefl _)
    · exact absurd (hr ▸ hs.bound _ _ _ ho) (lt_irrefl _)
    · exact hs.unique _ _ _ _ _ ho ho'
  · rcases htracked.mp hj with ⟨rfl, -⟩ | hj
    · simp [hs₁]
    · simpa [hs₁, hne hj] using hs.created j h r hj
  · rcases eq_or_ne j i with rfl | hji
    · exact ⟨_, _, hnew, mem_cons_self⟩
    · obtain ⟨h, r, hj, he⟩ := hs.waiting j (by simpa [hs₁, hji] using hj)
      exact ⟨h, r, htracked.mpr (.inr hj), mem_cons_of_mem _ he⟩
  · rcases eq_or_ne j i with rfl | hji
    · simp [hs₁] at hj
    · obtain ⟨h, r, g, hj, hg⟩ := hs.answered j o (by simpa [hs₁, hji] using hj)
      exact ⟨h, r, g, htracked.mpr (.inr hj), hg⟩

/-! ### Rules -/

/-- How far a call is from its lookup on, with its connection, its host and its request id. -/
def At (s : State Operation) (i : ThreadId) (host : HostId) (chan : ThreadId)
    (request : Option RequestId) (stage : Stage → Prop) : Prop :=
  ∃ t, s.calls i = some t ∧ t.host = host ∧ t.chan = chan ∧ t.request = request ∧ stage t.stage

def Stage.IsOver : Stage → Prop
  | .done => True
  | .timedOut _ => True
  | _ => False

def pre (i : ThreadId) : Op Operation → State Operation → Prop
  | .insertConnection _ _ _, s => Fresh i s
  | .resolve requestId outcome, s => ∃ g, ⟨g, requestId, outcome⟩ ∈ s.received
  | .lookup _, s => s.calls i = none
  | .insertPending host, s => ∃ chan, At s i host chan none (· = .lookedUp)
  | .send sender _, s => ∃ host r, At s i host sender (some r) (· = .inserted)
  | .removePending requestId, s => ∃ host chan, At s i host chan (some requestId) Stage.IsOver
  | .await, s => ∃ host chan r, At s i host chan (some r) (· = .awaiting)
  | _, _ => True

/-- What the steps of the other threads leave to thread `i`. -/
structure Rely (i : ThreadId) (s s' : State Operation) : Prop where
  calls : s'.calls i = s.calls i
  fresh : Fresh i s → Fresh i s'
  received : s.received ⊆ s'.received

theorem Quiet.fresh (hq : Quiet s s') (h : Fresh j s) : Fresh j s' :=
  ⟨fun h' => hq.latest ▸ h.latest h', fun h' c hc => h.connections h' c (hq.connections ▸ hc),
    fun j' t ht => h.calls j' t (hq.calls ▸ ht)⟩

theorem Fresh.track (h : Fresh j s) (i : ThreadId)
    (hf : ∀ t, (f t).chan = t.chan) : Fresh j (s.track i f) where
  latest := h.latest
  connections := h.connections
  calls j' t ht := by
    rcases eq_or_ne j' i with rfl | hne
    · obtain ⟨t', ht', rfl⟩ : ∃ t', s.calls j' = some t' ∧ f t' = t := by
        simpa [State.track] using ht
      exact hf t' ▸ h.calls j' t' ht'
    · exact h.calls j' t (by simpa [State.track, hne] using ht)

theorem track_calls_of_ne (hne : j ≠ i) : (s.track i f).calls j = s.calls j :=
  update_of_ne hne ..

theorem Rely.setStage {stage : CallTrack → Stage} (hne : j ≠ i) : Rely j s (s.setStage i stage) :=
  ⟨track_calls_of_ne hne, fun hf => hf.track i fun _ => rfl, fun _ h => h⟩

theorem Effect.rely (h : Effect i s op s') (hne : j ≠ i) : Rely j s s' := by
  cases h with
  | quiet hq => exact ⟨by rw [hq.calls], hq.fresh, hq.received⟩
  | insertConnection host =>
    refine ⟨rfl, fun hf => ⟨fun h' => ?_, fun h' c hc => ?_, hf.calls⟩, fun _ h => h⟩
    · rcases eq_or_ne h' host with rfl | hh
      · simpa using hne.symm
      · simpa [hh] using hf.latest h'
    · rcases eq_or_ne h' host with rfl | hh
      · obtain rfl : _ = c := by simpa using hc
        exact hne.symm
      · exact hf.connections h' c (by simpa [hh] using hc)
  | removeConnection host =>
    refine ⟨rfl, fun hf => ⟨hf.latest, fun h' c hc => ?_, hf.calls⟩, fun _ h => h⟩
    rcases eq_or_ne h' host with rfl | hh
    · simp at hc
    · exact hf.connections h' c (by simpa [hh] using hc)
  | retainPending | resolve | removePending =>
    exact ⟨rfl, fun hf => ⟨hf.latest, hf.connections, hf.calls⟩, fun _ h => h⟩
  | lookup host conn hconn =>
    refine ⟨update_of_ne hne .., fun hf => ⟨hf.latest, hf.connections, fun j' t ht => ?_⟩,
      fun _ h => h⟩
    rcases eq_or_ne j' i with rfl | hj
    · obtain rfl : _ = t := by simpa using ht
      exact hf.connections host conn hconn
    · exact hf.calls j' t (by simpa [hj] using ht)
  | insertPending | send =>
    refine ⟨track_calls_of_ne hne, fun hf => ⟨hf.latest, hf.connections, ?_⟩, fun _ h => h⟩
    exact fun _ _ ht => (hf.track i fun _ => by rfl).calls _ _ ht
  | sendFailed | elapse | await => exact Rely.setStage hne

theorem Effect.wf (h : Effect i s op s') (hs : Wf s) (hpre : pre i op s) : Wf s' := by
  cases h with
  | quiet hq =>
    exact hs.congr (fun _ _ _ => hq.tracked) hq.pending hq.oneshots hq.nextRequest hq.received
  | insertConnection | removeConnection =>
    exact hs.congr (fun _ _ _ => Iff.rfl) rfl rfl rfl fun _ h => h
  | retainPending =>
    exact (hs.removeEntries _).congr (fun _ _ _ => Iff.rfl) rfl rfl rfl fun _ h => h
  | resolve _ _ he =>
    obtain ⟨_, hg⟩ := hpre
    exact hs.resolve he hg
  | lookup =>
    refine hs.congr (fun j h r => ?_) rfl rfl rfl fun _ h => h
    rcases eq_or_ne j i with rfl | hj
    · have hnone : s.calls j = none := hpre
      simp [Tracked, hnone]
    · simp [Tracked, hj]
  | insertPending =>
    obtain ⟨_, _, ht, rfl, -, hrequest, -⟩ := hpre
    exact hs.insertPending ht hrequest rfl rfl
  | send | sendFailed | elapse | await =>
    exact hs.congr (fun _ _ _ => tracked_setStage) rfl rfl rfl fun _ h => h
  | removePending => exact hs.removeEntries _

/-- The invariant with the preconditions of the operations. A step of a thread may do to the
others what they rely on. -/
def rules : Rules ThreadId (State Operation) (Op Operation) where
  inv := Wf
  pre := pre
  rely := Rely
  guar i s s' := ∀ j ≠ i, Rely j s s'
  rely_refl _ _ := ⟨rfl, id, fun _ h => h⟩
  rely_trans h h' :=
    ⟨h'.calls.trans h.calls, h'.fresh ∘ h.fresh, fun _ hx => h'.received (h.received hx)⟩
  rely_of_guar hne _ _ h := h _ hne.symm

/-! ### The programs keep the rules -/

variable {stage : Stage → Prop} {host : HostId} {chan : ThreadId} {request : Option RequestId}

theorem At.rely (hr : Rely i s s') (h : At s i host chan request stage) :
    At s' i host chan request stage := by
  obtain ⟨t, ht, hrest⟩ := h
  exact ⟨t, hr.calls.trans ht, hrest⟩

theorem At.tracked (h : At s i host chan (some r) stage) : Tracked s i host r := by
  obtain ⟨t, ht, hhost, -, hr, -⟩ := h
  exact ⟨t, ht, hhost, hr⟩

theorem At.mono {stage' : Stage → Prop} (h : At s i host chan request stage)
    (hstage : ∀ x, stage x → stage' x) : At s i host chan request stage' := by
  obtain ⟨t, ht, hhost, hchan, hr, hx⟩ := h
  exact ⟨t, ht, hhost, hchan, hr, hstage _ hx⟩

theorem At.setStage (h : At s i host chan request stage) (x : Stage) :
    At (s.setStage i fun _ => x) i host chan request (· = x) := by
  obtain ⟨t, ht, hhost, hchan, hr, -⟩ := h
  exact ⟨{ t with stage := x }, by simp [State.setStage, track, ht], hhost, hchan, hr, rfl⟩

def Answered (s : State Operation) (i : ThreadId) (host : HostId) (o : CommandOutcome) : Prop :=
  ∃ r g, Tracked s i host r ∧ ⟨g, r, o⟩ ∈ s.received

theorem Answered.rely (hr : Rely i s s') (h : Answered s i host o) : Answered s' i host o := by
  obtain ⟨r, g, ⟨t, ht, hrest⟩, hg⟩ := h
  exact ⟨r, g, ⟨t, hr.calls.trans ht, hrest⟩, hr.received hg⟩

/-- What a call knows of its answer. -/
def Told (i : ThreadId) (host : HostId) (chan : ThreadId) (r : RequestId) :
    Awaited → State Operation → Prop
  | .outcome o, s => Answered s i host o
  | .closed, _ => True
  | .elapsed, s => ∃ n, At s i host chan (some r) (· = .timedOut n)

/-- The outcome of a call was carried by a response, and a call that reports a timeout was waiting
then. -/
def post (i : ThreadId) : Job Operation → Result → State Operation → Prop
  | .dispatch host _, .dispatched (.ok o), s => Answered s i host o
  | .dispatch host _, .dispatched (.error .timeout), s =>
    ∃ chan r n, At s i host chan (some r) (· = .timedOut n)
  | _, _, _ => True

section Programs

variable {ok : ThreadId → Op Operation → Choice → State Operation → Prop} {α : Type}
  {Q : α → State Operation → Prop}

theorem wp_op (op : Op Operation) {k : Resp op → Program Operation α}
    (A : Resp op → State Operation → Prop) (hs : Wf s) (hpre : pre i op s)
    (hstable : ∀ r s s', Rely i s s' → A r s → A r s')
    (hA : ∀ c s' r, exec i op c s = some (s', r) → A r s')
    (hk : ∀ r s', Wf s' → A r s' → rules.wp exec ok i Q (k r) s') :
    rules.wp exec ok i Q (.call op k) s := by
  refine Rules.wp_call_of A (fun r s s' _ => hstable r s s') hpre (fun c s' r _ h => ?_) hk
  have he := effect_of_exec h
  exact ⟨he.wf hs hpre, fun _ hne => he.rely hne, hA c s' r h⟩

theorem wp_op_true {k : Resp op → Program Operation α} (hs : Wf s)
    (hpre : pre i op s) (hk : ∀ r s', Wf s' → rules.wp exec ok i Q (k r) s') :
    rules.wp exec ok i Q (.call op k) s :=
  wp_op op (fun _ _ => True) hs hpre (fun _ _ _ _ _ => trivial) (fun _ _ _ _ => trivial)
    fun r s' hs' _ => hk r s' hs'

variable {k : Unit → Program Operation α} {host : HostId}

theorem wp_unregister (hs : Wf s) (hk : ∀ s', Wf s' → rules.wp exec ok i Q (k ()) s') :
    rules.wp exec ok i Q (unregister host >>= k) s :=
  wp_op_true hs trivial fun _ _ hs => wp_op_true hs trivial fun _ s' hs => hk s' hs

private theorem wp_op_fresh {k : Resp op → Program Operation α} (hs : Wf s)
    (hf : Fresh i s) (hpre : pre i op s) (hq : ∀ c s' r, exec i op c s = some (s', r) → Quiet s s')
    (hk : ∀ r s', Wf s' → Fresh i s' → rules.wp exec ok i Q (k r) s') :
    rules.wp exec ok i Q (.call op k) s :=
  wp_op op (fun _ s => Fresh i s) hs hpre (fun _ _ _ hr => hr.fresh)
    (fun c s' r h => (hq c s' r h).fresh hf) hk

variable {rounds : ℕ}

private theorem wp_serve (hs : Wf s) (hk : ∀ s', Wf s' → rules.wp exec ok i Q (k ()) s') :
    rules.wp exec ok i Q (serve host rounds >>= k) s := by
  induction rounds generalizing s with
  | zero => exact hk s hs
  | succ _ ih =>
    let A : Selected → State Operation → Prop := fun sel s =>
      ∀ r o, sel = .incoming (some (.response r o)) → ⟨host, r, o⟩ ∈ s.received
    refine wp_op (.select host) A hs trivial
      (fun _ s s' hr h r o he => hr.received (h r o he)) ?_ ?_
    · rintro c s' sel h r o rfl
      cases c with
      | incoming =>
        cases h
        simp [hear]
      | outgoing =>
        simp only [exec] at h
        split at h <;> cases h
      | _ => cases h
    · rintro (sent | sent | message | -) s' hs' hA
      · cases sent
        · exact hk s' hs'
        · exact ih hs'
      · cases sent
        · exact hk s' hs'
        · exact ih hs'
      · rcases message with _ | ⟨r, o⟩ | _ | _
        · exact ih hs'
        · exact wp_op_true hs' ⟨host, hA r o rfl⟩ fun _ s'' hs'' => ih hs''
        · exact ih hs'
        · exact ih hs'
      · exact hk s' hs'

theorem wp_handleSocket {flag : Bool} {version : Option ℕ} (hs : Wf s) (hf : Fresh i s)
    (hk : ∀ s', Wf s' → rules.wp exec ok i Q (k ()) s') :
    rules.wp exec ok i Q (handleSocket host flag version rounds >>= k) s := by
  simp only [handleSocket, register, bind_assoc]
  refine wp_op_fresh hs hf trivial (fun c s' r h => ?_) fun _ s hs hf =>
    wp_op_fresh hs hf trivial (fun c s' r h => ?_) fun _ s hs hf =>
    wp_op_fresh hs hf trivial (fun c s' r h => ?_) fun epoch s hs hf =>
    wp_op_true hs hf fun _ s hs => wp_serve hs fun s hs => wp_unregister hs fun s hs =>
    wp_op_true hs trivial fun _ s hs => hk s hs
  all_goals
    cases h
    exact { Quiet.refl s with }

variable {operation : Operation} {T : OperationTable Operation}

theorem wp_guard
    {k : Except String Unit → Program Operation α} (hs : Wf s) (hnone : s.calls i = none)
    (hk : ∀ e s', Wf s' → s'.calls i = none → rules.wp exec ok i Q (k e) s') :
    rules.wp exec ok i Q (guard T host operation >>= k) s := by
  refine wp_op (.isControlPlane host) (fun _ s => s.calls i = none) hs trivial
    (fun _ _ _ hr h => hr.calls.trans h) (fun c s' r h => ?_) fun b s' hs' hnone' => ?_
  · cases h
    exact hnone
  · cases b with
    | false => exact hk _ s' hs' hnone'
    | true =>
      refine wp_op .readProtection (fun _ s => s.calls i = none) hs' trivial
        (fun _ _ _ hr h => hr.calls.trans h) (fun c s' r h => ?_) fun p s' hs' hnone' => ?_
      · cases h
        exact hnone'
      · exact hk _ s' hs' hnone'

private theorem wp_sendAndAwait {chan : ThreadId}
    {Q : Except DispatchError CommandOutcome → State Operation → Prop} (hs : Wf s)
    (hat : At s i host chan none (· = .lookedUp)) (hclosed : ∀ s, Q (.error .connectionClosed) s)
    (hok : ∀ o s, Answered s i host o → Q (.ok o) s)
    (htimeout : ∀ chan r n s, At s i host chan (some r) (· = .timedOut n) → Q (.error .timeout) s) :
    rules.wp exec ok i Q (sendAndAwait host chan operation) s := by
  refine wp_op (.insertPending host) (fun r s => At s i host chan (some r) (· = .inserted))
    hs ⟨chan, hat⟩ (fun _ _ _ hr h => h.rely hr) (fun c s' r h => ?_) fun requestId s hs hat => ?_
  · cases h
    obtain ⟨t, ht, hhost, hchan, -, -⟩ := hat
    exact ⟨t.inserted (s.sweeps host) s.nextRequest, by simp [track, ht], hhost, hchan, rfl, rfl⟩
  refine wp_op (.send chan (.command requestId operation))
    (fun sent s => At s i host chan (some requestId) (· = if sent then .awaiting else .done))
    hs ⟨host, requestId, hat⟩ (fun _ _ _ hr h => h.rely hr) (fun c s' r h => ?_)
    fun sent s hs hat => ?_
  · simp only [exec] at h
    split_ifs at h <;> cases h
    · exact hat.setStage .awaiting
    · exact hat.setStage .done
  cases sent with
  | false =>
    exact wp_op_true hs ⟨host, chan, hat.mono fun x hx => by simp [hx, Stage.IsOver]⟩
      fun _ s _ => hclosed s
  | true =>
    refine wp_op .await (Told i host chan requestId) hs ⟨host, chan, requestId, hat⟩ ?_
      (fun c s' a h => ?_) fun a s hs hA => ?_
    · rintro (o | - | -) s s' hr h
      · exact h.rely hr
      · trivial
      · obtain ⟨n, h⟩ := h
        exact ⟨n, h.rely hr⟩
    · rcases exec_await h with ⟨o, hw, rfl, rfl⟩ | ⟨hw, rfl, rfl⟩ | ⟨hw, rfl, rfl⟩
      · obtain ⟨h', r, g, ht, hg⟩ := hs.answered i o hw
        obtain ⟨rfl, -⟩ := ht.inj hat.tracked
        exact ⟨r, g, tracked_setStage.mpr ht, hg⟩
      · trivial
      · obtain ⟨t, ht, hrest⟩ := hat
        refine ⟨s.sweeps t.host, { t with stage := .timedOut (s.sweeps t.host) }, ?_,
          hrest.1, hrest.2.1, hrest.2.2.1, rfl⟩
        simp [setStage, track, ht]
    · rcases a with o | - | -
      · exact hok o s hA
      · exact hclosed s
      · obtain ⟨n, hat⟩ := hA
        refine wp_op (.removePending requestId)
          (fun _ s => At s i host chan (some requestId) (· = .timedOut n)) hs
          ⟨host, chan, hat.mono fun x hx => by simp [hx, Stage.IsOver]⟩
          (fun _ _ _ hr h => h.rely hr) (fun c s' r h => ?_) fun _ s _ hat => htimeout _ _ _ _ hat
        cases h
        exact hat

private theorem wp_dispatch (hs : Wf s) (hnone : s.calls i = none) :
    rules.wp exec ok i (fun r => post i (.dispatch host operation) (.dispatched r))
      (dispatch T host operation) s := by
  refine wp_guard hs hnone fun e s hs hnone => ?_
  cases e with
  | error => trivial
  | ok =>
    let A : Option (ThreadId × Option ℕ) → State Operation → Prop := fun found s =>
      ∀ chan has, found = some (chan, has) → At s i host chan none (· = .lookedUp)
    refine wp_op (.lookup host) A hs hnone
      (fun _ _ _ hr h chan has he => (h chan has he).rely hr) (fun c s' r h => ?_)
      fun found s hs hA => ?_
    · rintro chan has rfl
      simp only [exec] at h
      split at h <;> cases h
      exact ⟨_, update_self .., rfl, rfl, rfl, rfl⟩
    · rcases found with _ | ⟨chan, has⟩
      · trivial
      · have hat := hA chan has rfl
        change rules.wp exec ok i _ (if has.getD 0 < T.minProtocol operation then _ else _) s
        split_ifs with hold
        · trivial
        · exact wp_sendAndAwait
            (Q := fun r => post i (.dispatch host operation) (.dispatched r)) hs hat
            (fun _ => trivial) (fun _ _ h => h) fun chan r n _ h => ⟨chan, r, n, h⟩

theorem wp_code (job : Job Operation) (hs : Wf s) (hnone : s.calls i = none) (hf : Fresh i s) :
    rules.wp exec ok i (post i job) (code T job) s := by
  cases job with
  | handler => exact wp_handleSocket hs hf fun _ _ => trivial
  | dispatch =>
    exact Rules.wp_bind.mpr (wp_dispatch hs hnone)
  | removeHost =>
    simp only [code, removeHost, bind_assoc]
    exact wp_unregister hs fun s hs => wp_op_true hs trivial fun _ _ _ => trivial
  | setControlPlane | setDockerDevice => exact wp_op_true hs trivial fun _ _ _ => trivial

end Programs

theorem holds_of_reaches {T : OperationTable Operation} {protection : ControlPlaneProtection}
    {ok : ThreadId → Op Operation → Choice → State Operation → Prop} {P : HostPool Operation}
    (h : Reaches T protection ok P) :
    Rules.Holds rules exec ok (fun i s => s.calls i = none ∧ Fresh i s) post P :=
  Rules.reach (wf_new protection)
    (fun i => ⟨rfl, by simp [new], by simp [new], by simp [new]⟩)
    (fun _ _ _ _ hr h => ⟨hr.calls.trans h.1, hr.fresh h.2⟩)
    (fun _ job _ hs h => wp_code job hs h.1 h.2) h

end Abyssal.Hosts
