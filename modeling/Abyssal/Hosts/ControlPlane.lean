import Abyssal.Hosts.Enrollment
import Abyssal.Hosts.PendingTable

/-!
# The control plane's own host

A dispatch to a host that is flagged goes through a check first. `install.sh` enrolls the server
with a token minted for it; the handler learns this from a query and flags the new host, in the
table and in the registry, before it answers. A failure of the query is taken for the answer that
the token is of no special kind.

## Main results

* `flagged_iff_kind_read`: when the server is flagged.
-/

namespace Abyssal.Hosts

open Resumption Option Function Prod

variable {Operation : Type}

/-! ## Dispatches to a flagged host -/

variable (T : OperationTable Operation) (host : HostId) (operation : Operation)

def deliver : Program Operation (Except DispatchError CommandOutcome) := do
  match ← perform (.lookup host) with
  | none => return .error .notConnected
  | some (sender, has) =>
    let needed := T.minProtocol operation
    if has.getD 0 < needed then
      return .error (.agentTooOld (T.operationName operation) needed has)
    else
      sendAndAwait host sender operation

def checked : Program Operation Result := do
  match T.check operation (← perform .readProtection) with
  | .error reason => return .dispatched (.error (.refused reason))
  | .ok () => return .dispatched (← deliver T host operation)

theorem code_dispatch :
    code T (.dispatch host operation) = .call (.isControlPlane host) fun flagged =>
      if flagged then checked T host operation
      else do return .dispatched (← deliver T host operation) := by
  refine congrArg (Prog.call _) (funext fun flagged => ?_)
  cases flagged with
  | false => rfl
  | true =>
    refine congrArg (Prog.call _) (funext fun protection => ?_)
    change ((Prog.ret (T.check operation protection)).bind _).bind _ = match
      T.check operation protection with
      | .error reason => Prog.ret (Result.dispatched (.error (.refused reason)))
      | .ok () => do return Result.dispatched (← deliver T host operation)
    cases T.check operation protection with
    | error | ok => rfl

private theorem controlPlane_of_exec {i : ThreadId} {op : Op Operation} {c : Choice}
    {s s' : State Operation} {r : Resp op} (h : exec i op c s = some (s', r)) {host : HostId}
    (hop : op ≠ .setControlPlane host false) (hs : s.controlPlane host) : s'.controlPlane host := by
  cases op with
  | setControlPlane host' flag =>
    cases h
    rcases eq_or_ne host host' with rfl | hne
    · cases flag with
      | false => exact absurd rfl hop
      | true => exact update_self ..
    · exact (update_of_ne hne ..).trans hs
  | select =>
    cases c with
    | go | elapse => cases h
    | heartbeat | hangUp =>
      cases h
      exact hs
    | incoming message =>
      cases h
      rcases message with _ | ⟨r, o⟩ | _ | _ <;> exact hs
    | outgoing =>
      simp only [exec] at h
      split at h <;> cases h
      exact hs
  | resolve | lookup =>
    simp only [exec] at h
    split at h <;> cases h <;> exact hs
  | send =>
    simp only [exec] at h
    split_ifs at h <;> cases h <;> exact hs
  | await =>
    rcases exec_await h with ⟨o, -, -, rfl⟩ | ⟨-, -, rfl⟩ | ⟨-, -, rfl⟩ <;> exact hs
  | _ =>
    cases h
    exact hs

/-- From a pool in which the host is flagged, as long as nothing takes the flag away, every later
dispatch to it goes through the check. -/
theorem checked_of_reach {T : OperationTable Operation} {host : HostId} {P₀ P : HostPool Operation}
    (hflag : P₀.shared.controlPlane host)
    (h : Reach (code T) exec (fun _ op _ _ => op ≠ .setControlPlane host false) P₀ P) :
    P.shared.controlPlane host ∧ ∀ i operation p, P₀.threads i = none →
      P.threads i = some ⟨.dispatch host operation, p⟩ →
        p = code T (.dispatch host operation) ∨ (checked T host operation).Residual p := by
  induction h with
  | refl => exact ⟨hflag, fun i operation p hnone hsome => by simp [hnone] at hsome⟩
  | tail _ hstep ih =>
    obtain ⟨ihflag, ih⟩ := ih
    cases hstep with
    | start i =>
      refine ⟨ihflag, fun i' operation p hnone hp => ?_⟩
      rcases eq_or_ne i' i with rfl | hne
      · simp only [Pool.put_threads_self, some.injEq, Thread.mk.injEq] at hp
        exact .inl (hp.1 ▸ hp.2.symm)
      · exact ih i' operation p hnone (Pool.put_threads_of_ne _ _ _ hne ▸ hp)
    | run i _ _ _ _ _ r hi hop hexec =>
      refine ⟨controlPlane_of_exec hexec hop ihflag, fun i' operation p hnone hp => ?_⟩
      rcases eq_or_ne i' i with rfl | hne
      · simp only [Pool.put_threads_self, some.injEq, Thread.mk.injEq] at hp
        obtain ⟨rfl, rfl⟩ := hp
        rcases ih i' operation _ hnone hi with hstart | hchecked
        · -- The first operation reads the flag, which is set.
          rw [code_dispatch] at hstart
          cases hstart
          simp only [exec, some.injEq, mk.injEq] at hexec
          rw [← hexec.2, ihflag]
          exact .inr (Prog.residual_refl _)
        · exact .inr (hchecked.answer r)
      · exact ih i' operation p hnone (Pool.put_threads_of_ne _ _ _ hne ▸ hp)

/-! ## Enrollment -/

namespace Enrollment

open Resumption.Handler

variable {setup : Setup} {ω : Op Operation → Outcome} {s s' : Server Operation} {id : HostId}

abbrev serve (setup : Setup) (ω : Op Operation → Outcome) (op : Op Operation)
    (s : Server Operation) : Server Operation × Option op.Answer :=
  respond setup.sameName op (ω op) s

variable (t : HostTable)

def HostTable.flag (id : HostId) : Option Bool :=
  (t.findById id).map (·.isControlPlane)

def Flagged (s : Server Operation) (id : HostId) : Prop :=
  s.hosts.flag id = some true ∧ s.registry.controlPlane id = true

theorem alone_execute {failure : Failure} {op : Op Operation} {answer : op.Answer} :
    alone (serve setup ω) (execute failure op) s = (.ok answer, s') ↔
      (op.isDatabase → ω op = .done) ∧ op.perform setup.sameName s = some (s', answer) := by
  rw [execute, alone_query_eq_ok, serve, respond, settle_eq_some]
  by_cases hop : op.isDatabase
  · simp [hop]
  · simp [hop]

theorem alone_tryTo_bind {β : Type} (op : Op Operation)
    (f : Option op.Answer → Page Operation β) (s : Server Operation) :
    alone (serve setup ω) (tryTo op >>= f) s =
      alone (serve setup ω) (f (serve setup ω op s).2) (serve setup ω op s).1 :=
  alone_attempt_bind op f s

theorem serve_cases (op : Op Operation) (s : Server Operation) :
    serve setup ω op s = (s, none) ∨ ∃ r, op.perform setup.sameName s = some r ∧
      (serve setup ω op s = (r.1, some r.2) ∨ serve setup ω op s = (r.1, none)) :=
  settle_cases _ s _

theorem serve_fst_cases (op : Op Operation) (s : Server Operation) :
    (serve setup ω op s).1 = s ∨
      ∃ answer, op.perform setup.sameName s = some ((serve setup ω op s).1, answer) :=
  settle_fst_cases _ s _

/-! ### The kind of the token -/

variable {grant : Grant} {token : Text}

theorem not_isControlPlane_of_install
    (h : alone (serve setup ω) (authorizeInstall setup token) s = (.ok grant, s')) :
    grant.isControlPlane = false := by
  obtain ⟨isDefault, _, -, h⟩ := alone_bind_eq_ok.1 h
  cases isDefault with
  | true =>
    obtain ⟨_, s₂, -, h⟩ := alone_bind_eq_ok.1 h
    cases h
    rfl
  | false =>
    obtain ⟨token, _, -, h⟩ := alone_bind_eq_ok.1 h
    cases token with
    | none => cases h
    | some =>
      cases h
      rfl

variable {row : EnrollmentToken}

private theorem isControlPlane_of_enrollment
    (hrow : s.tokens (setup.hashToken token) = some row) (hcp : row.controlPlane)
    (h : alone (serve setup ω) (authorizeEnrollment setup token) s = (.ok grant, s')) :
    grant.isControlPlane ↔ ω (.kind (setup.hashToken token)) = .done := by
  obtain ⟨consumed, s₁, hconsume, h⟩ := alone_bind_eq_ok.1 h
  cases consumed with
  | false => cases h
  | true =>
    have htoken : s₁.tokens (setup.hashToken token) = some (row.spend s.now) := by
      have hperform := some.inj (alone_execute.1 hconsume).2
      simp only [Server.consume, hrow] at hperform
      split_ifs at hperform
      · rw [← (mk.inj hperform).1]
        exact update_self ..
      · exact nomatch (mk.inj hperform).2
    rw [if_pos rfl] at h
    obtain rfl : grantOfKind _ = grant := Except.ok.inj (mk.inj h).1
    cases hkind : ω (.kind (setup.hashToken token)) with
    | done => simp [serve, respond, settle, Op.isDatabase, Op.perform, grantOfKind, hkind, htoken,
        EnrollmentToken.spend, hcp]
    | failed => simp [serve, respond, settle, Op.isDatabase, grantOfKind, hkind]
    | unreported => simp [serve, respond, settle, Op.isDatabase, Op.perform, grantOfKind, hkind]

theorem isControlPlane_iff
    (hrow : s.tokens (setup.hashToken token) = some row) (hcp : row.controlPlane)
    (h : alone (serve setup ω) (authorize setup token) s = (.ok grant, s')) :
    grant.isControlPlane ↔ isAat token = false ∧ ω (.kind (setup.hashToken token)) = .done := by
  rw [authorize] at h
  split_ifs at h with haat
  · simp [not_isControlPlane_of_install h, haat]
  · rw [isControlPlane_of_enrollment hrow hcp h]
    simp [haat]

/-! ### The flag -/

theorem HostTable.findById_update {f : HostRow → HostRow}
    (hf : ∀ row, (f row).id = row.id) : (t.update f hf id).findById id = (t.findById id).map f :=
  Table.find?_modify_self hf id

theorem HostTable.flag_setEnrolledVia (via : Via) (tokenId : Option ℕ) :
    (t.setEnrolledVia id via tokenId).flag id = t.flag id := by
  rw [flag, setEnrolledVia, findById_update, Option.map_map]
  rfl

theorem HostTable.flag_setControlPlane (b : Bool) :
    (t.setControlPlane id b).flag id = (t.flag id).map fun _ => b := by
  rw [flag, flag, setControlPlane, findById_update, Option.map_map, Option.map_map]
  rfl

variable {req : Request}

theorem flag_of_createHost {pendingApproval : Bool} {host : HostRow}
    (h : alone (serve setup ω) (createHost setup req pendingApproval) s = (.ok host, s')) :
    host.id = req.hostId ∧ s'.hosts.flag req.hostId = some false := by
  obtain ⟨_, _, hinsert, h⟩ := alone_bind_eq_ok.1 h
  obtain ⟨found, s₂, hfind, h⟩ := alone_bind_eq_ok.1 h
  obtain ⟨rfl, rfl⟩ := alone_found.1 h
  obtain ⟨hosts, hhosts, hs₁⟩ := map_eq_some_iff.1 (alone_execute.1 hinsert).2
  obtain rfl := (mk.inj hs₁).1
  have hfound := mk.inj (some.inj (alone_execute.1 hfind).2)
  obtain rfl := hfound.1
  have hrow := (HostTable.findById_of_insert hhosts).2
  cases hrow.symm.trans hfound.2
  exact ⟨rfl, congrArg (Option.map _) hrow⟩

theorem flag_of_recordOrigin {result : Except Failure Unit}
    (h : alone (serve setup ω) (recordOrigin id grant) s = (result, s')) :
    s'.hosts.flag id = s.hosts.flag id := by
  have hvia : (serve setup ω (.setEnrolledVia id grant.enrolledVia grant.tokenId) s).1.hosts.flag
      id = s.hosts.flag id := by
    rcases serve_fst_cases (.setEnrolledVia id grant.enrolledVia grant.tokenId) s with
      hsame | ⟨answer, hdone⟩
    · rw [hsame]
    · rw [← (mk.inj (some.inj hdone)).1]
      exact s.hosts.flag_setEnrolledVia ..
  rw [recordOrigin] at h
  rw [← hvia]
  split at h
  · next tokenId _ _ =>
    rw [alone_tryTo_bind] at h
    cases h
    rcases serve_fst_cases (.recordUse tokenId)
      (serve setup ω (.setEnrolledVia id grant.enrolledVia grant.tokenId) s).1 with
      hsame | ⟨answer, hdone⟩
    · rw [hsame]
    · rw [← (mk.inj (some.inj hdone)).1]
  · cases h
    rfl

theorem flagged_of_flagControlPlane (hflag : s.hosts.flag id = some false)
    (h : alone (serve setup ω) (flagControlPlane id) s = (.ok (), s')) : Flagged s' id := by
  obtain ⟨stored, _, hstore, h⟩ := alone_bind_eq_ok.1 h
  have hfailed : stored ≠ none := by
    rintro rfl
    rw [alone_tryTo_bind] at h
    exact error_ne_ok h
  rw [storeControlPlane, alone_tryTo_bind] at hstore
  rcases serve_cases (.updateControlPlane id true) s with hnone | ⟨r, hr, hdone | hlost⟩
  · rw [hnone] at hstore
    exact absurd (Except.ok.inj (mk.inj hstore).1).symm hfailed
  · cases hr
    obtain ⟨_, hrow, hunset⟩ := map_eq_some_iff.1 hflag
    have hstored : (s.hosts.setControlPlane id true).flag id = some true := by
      rw [HostTable.flag_setControlPlane, hflag]
      rfl
    simp only [hdone, hrow, any_some, hunset, Bool.bne_true, Bool.not_false] at hstore
    cases hstore
    obtain rfl := (mk.inj (some.inj (alone_execute.1 h).2)).1
    exact ⟨hstored, update_self ..⟩
  · rw [hlost] at hstore
    exact absurd (Except.ok.inj (mk.inj hstore).1).symm hfailed

private theorem confirm_eq_ok {host : HostRow} {response : Response}
    (h : alone (serve setup ω) (confirm req grant host) s = (.ok response, s')) :
    response.hostId = host.id ∧ s'.hosts = s.hosts ∧ s'.registry = s.registry := by
  rw [confirm] at h
  cases h
  refine ⟨rfl, ?_⟩
  rcases serve_fst_cases (.recordAudit _) s with hsame | ⟨answer, hdone⟩
  · exact ⟨by rw [hsame], by rw [hsame]⟩
  · rw [← (mk.inj (some.inj hdone)).1]
    exact ⟨rfl, rfl⟩

/-! ### Main results -/

/-- An enrollment with a token for the control plane's host flags it in both places exactly if the
kind of the token could be read. Then every later dispatch to it goes through the check. -/
theorem flagged_iff_kind_read (setup : Setup) (ω : Op Operation → Outcome)
    {s s' : Server Operation} {req : Request} {row : EnrollmentToken} {response : Response}
    (hrow : s.tokens (setup.hashToken req.token) = some row) (hcp : row.controlPlane)
    (h : alone (serve setup ω) (enroll setup req) s = (.ok response, s')) :
    (Flagged s' response.hostId ↔
      isAat req.token = false ∧ ω (.kind (setup.hashToken req.token)) = .done) ∧
    (Flagged s' response.hostId → ∀ (T : OperationTable Operation) P₀ P, P₀.shared = s'.registry →
        Reach (code T) exec (fun _ op _ _ => op ≠ .setControlPlane response.hostId false) P₀ P →
          ∀ i operation p, P₀.threads i = none →
            P.threads i = some ⟨.dispatch response.hostId operation, p⟩ →
              p = code T (.dispatch response.hostId operation) ∨
                (checked T response.hostId operation).Residual p) := by
  constructor
  · obtain ⟨grant, _, hgrant, h⟩ := alone_bind_eq_ok.1 h
    rw [← isControlPlane_iff hrow hcp hgrant]
    obtain ⟨_, _, -, h⟩ := alone_bind_eq_ok.1 h
    obtain ⟨host, s₃, hhost, h⟩ := alone_bind_eq_ok.1 h
    obtain ⟨hid, hunset⟩ := flag_of_createHost hhost
    obtain ⟨_, s₄, horigin, h⟩ := alone_bind_eq_ok.1 h
    rw [← hid, ← flag_of_recordOrigin horigin] at hunset
    change alone _ (if grant.isControlPlane = true then flagControlPlane host.id >>= fun _ =>
      confirm req grant host else confirm req grant host) s₄ = _ at h
    split_ifs at h with hgrant
    · obtain ⟨_, _, hset, h⟩ := alone_bind_eq_ok.1 h
      obtain ⟨hhost, hhosts, hregistry⟩ := confirm_eq_ok h
      rw [Flagged, hhost, hhosts, hregistry]
      exact iff_of_true (flagged_of_flagControlPlane hunset hset) hgrant
    · obtain ⟨hhost, hhosts, -⟩ := confirm_eq_ok h
      rw [Flagged, hhost, hhosts, hunset]
      exact iff_of_false (fun hset => nomatch hset.1) hgrant
  · rintro ⟨-, hflag⟩ T P₀ P hP₀ hreach
    rw [← hP₀] at hflag
    exact (checked_of_reach hflag hreach).2

def controlPlaneToken : EnrollmentToken := ⟨7, false, true, 60, none, none, 0⟩

def ownServer : Request := ⟨['t'], "server", 1, ['c']⟩

theorem flagged_iff_kind_read_done :
    ∃ s', alone (serve plainSetup fun _ => .done) (enroll plainSetup ownServer)
        (serverWith (String.ofList ['t']) controlPlaneToken ⟨[], .nil⟩) = (.ok ⟨1, ['c']⟩, s') ∧
      Flagged s' 1 := by
  have hrow : (serverWith (String.ofList ['t']) controlPlaneToken ⟨[], .nil⟩).tokens
      (plainSetup.hashToken ownServer.token) = some controlPlaneToken := rfl
  exact ⟨_, rfl, (flagged_iff_kind_read plainSetup (fun _ => .done) hrow rfl rfl).1.2 ⟨rfl, rfl⟩⟩

/-- Every statement succeeds but the query of the token's kind; the host has the flag nowhere. -/
theorem not_flagged_of_kind_failed :
    let ω : Op Unit → Outcome
      | .kind _ => .failed
      | _ => .done
    let s := serverWith (String.ofList ['t']) controlPlaneToken ⟨[], .nil⟩
    controlPlaneToken.controlPlane ∧
    ∃ s', alone (serve plainSetup ω) (enroll plainSetup ownServer) s = (.ok ⟨1, ['c']⟩, s') ∧
      s'.hosts.flag 1 = some false ∧ s'.registry.controlPlane 1 = false :=
  ⟨rfl, _, rfl, rfl, rfl⟩

end Enrollment

end Abyssal.Hosts
