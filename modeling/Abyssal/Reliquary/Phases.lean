import Abyssal.Reliquary.Backups

/-!
# The phases of backups and restores

Each restore and backup goes through its phases in order. No request changes the phase of another,
but it can be dropped. So every operation is performed in the phase it belongs to, in every
interleaving and whatever fails.
-/

namespace Abyssal.Reliquary

open Resumption Resumption.Handler Option Function Prod

variable {ι : Type}

/-! ## Requests and their phases -/

inductive Activity (ι : Type) where
  | restore (id : JobId) (form : RestoreForm) (safetyId : JobId) (safetyBackupId : String)
  | create (form : CreateBackupForm) (jobId : JobId) (backupId : String)
  | scheduled (schedule : Schedule) (jobId : JobId) (backupId : String)
  | other (change : Change ι)

def Activity.routine (setup : Setup) : Activity ι → Routine ι (Option Response)
  | .restore id form safetyId safetyBackupId => do
    return some (← restorePage setup id form safetyId safetyBackupId)
  | .create form jobId backupId => do return some (← createPage setup form jobId backupId)
  | .scheduled schedule jobId backupId => do
    scheduledRun setup schedule jobId backupId
    return none
  | .other change => do
    execute .database (.elsewhere change)
    return none

def Activity.code (setup : Setup) (activity : Activity ι) :
    Prog (Op ι) (fun op => Option op.Answer) (Except Failure (Option Response)) :=
  (activity.routine setup).run

/-- The request is in this phase, unless it was dropped. -/
def In (i : ι) (phase : Phase) (s : Server ι) : Prop := s.phase i = phase ∨ s.phase i = .gone

def Op.source : Op ι → Option Phase
  | getLock | enter => some .idle
  | releaseLock | beginDump => some .locked
  | endDump => some .dumping
  | leave | beginReplay => some .restoring
  | endReplay => some .replaying
  | findJob _ | createJob .. | markJob .. | work _ | elsewhere _ => none

/-- Operations are performed in their phases, and change the phase of the request itself, or drop
requests. -/
def backupRules (ι : Type) : Rules ι (Server ι) (Op ι) where
  inv _ := True
  pre i op s := ∀ phase ∈ op.source, In i phase s
  rely i s s' := s'.phase i = s.phase i ∨ s'.phase i = .gone
  guar i s s' := ∀ j, j ≠ i → s'.phase j = s.phase j ∨ s'.phase j = .gone
  rely_refl _ _ := .inl rfl
  rely_trans h h' := by
    rcases h' with h' | h'
    · rwa [h']
    · exact .inr h'
  rely_of_guar hne _ _ h := h _ hne.symm

theorem stable_in (i : ι) (phase : Phase) : (backupRules ι).Stable i (In i phase) := by
  intro s s' _ hrely h
  rcases hrely with hrely | hrely
  · rwa [In, hrely]
  · exact .inr hrely

variable [DecidableEq ι]

/-! ### What one operation does -/

/-- The operation leaves phases, the flag and the lock alone. -/
def Op.Silent : Op ι → Prop
  | findJob _ | createJob .. | markJob .. | work _ => True
  | _ => False

variable {c : Choice} {i : ι} {op : Op ι} {s s' : Server ι} {r : Option op.Answer}

theorem exec_eq (h : exec i op c s = some (s', r)) :
    s.phase i ≠ .gone ∧ settle (op.outcome c) s (op.perform i c s) = (s', r) := by
  rw [exec] at h
  split_ifs at h with hgone
  exact ⟨hgone, some.inj h⟩

theorem exec_of_silent (h : exec i op c s = some (s', r)) (hop : op.Silent) :
    ∃ jobs, s' = { s with jobs := jobs } := by
  obtain ⟨-, hsettle⟩ := exec_eq h
  obtain rfl : (settle (op.outcome c) s (op.perform i c s)).1 = s' := by rw [hsettle]
  rcases settle_fst_cases (op.outcome c) s (op.perform i c s) with hsame | ⟨answer, hdone⟩
  · exact ⟨s.jobs, hsame⟩
  · generalize (settle (op.outcome c) s (op.perform i c s)).1 = s' at hdone
    cases op with
    | findJob | work => exact ⟨s.jobs, (mk.inj (some.inj hdone)).1.symm⟩
    | markJob => exact ⟨_, (mk.inj (some.inj hdone)).1.symm⟩
    | createJob =>
      rw [Op.perform] at hdone
      split at hdone
      · cases hdone
      · exact ⟨_, (mk.inj (some.inj hdone)).1.symm⟩
    | _ => exact hop.elim

theorem exec_of_done {after : Server ι} {answer : op.Answer} (h : exec i op c s = some (s', r))
    (hop : op.perform i c s = some (after, answer))
    (houtcome : op.outcome c = .done ∨ op.outcome c = .failed) :
    op.outcome c = .done ∧ s' = after ∧ r = some answer ∨
      op.outcome c ≠ .done ∧ s' = s ∧ r = none := by
  obtain ⟨-, hsettle⟩ := exec_eq h
  rw [hop] at hsettle
  rcases houtcome with hdone | hfailed
  · rw [hdone] at hsettle
    cases hsettle
    exact .inl ⟨hdone, rfl, rfl⟩
  · rw [hfailed] at hsettle ⊢
    cases hsettle
    exact .inr ⟨Outcome.noConfusion, rfl, rfl⟩

theorem outcome_start (c : Choice) :
    (if c.outcome = .done then Outcome.done else .failed) = .done ∨
      (if c.outcome = .done then Outcome.done else .failed) = .failed := by
  split_ifs
  · exact .inl rfl
  · exact .inr rfl

section Turns

variable {ok : ι → Op ι → Choice → Server ι → Prop} {i : ι} {phase : Phase} {op : Op ι}

theorem turns_silent (hop : op.Silent) :
    (backupRules ι).Turns exec ok i op (In i phase) fun _ => In i phase := by
  intro s _ hin
  refine ⟨fun phase' hphase => ?_, fun c s' r _ hexec => ?_⟩
  · cases op with
    | findJob | createJob | markJob | work => cases hphase
    | _ => exact hop.elim
  · obtain ⟨_, rfl⟩ := exec_of_silent hexec hop
    exact ⟨trivial, fun j _ => .inl rfl, hin⟩

variable {p q : Phase}

theorem turns_setPhase (hsource : op.source = some p)
    (hop : ∀ c s, ∃ after answer, op.perform i c s = some (after, answer) ∧
      after.phase = update s.phase i q)
    (houtcome : ∀ c, op.outcome c = .done ∨ op.outcome c = .failed) :
    (backupRules ι).Turns exec ok i op (In i p) fun r => if r.isSome then In i q else In i p := by
  intro s _ hin
  refine ⟨fun phase hphase => ?_, fun c s' r _ hexec => ?_⟩
  · cases hsource.symm.trans hphase
    exact hin
  · obtain ⟨_, _, hperform, hafter⟩ := hop c s
    rcases exec_of_done hexec hperform (houtcome c) with ⟨-, rfl, rfl⟩ | ⟨-, rfl, rfl⟩
    · refine ⟨trivial, fun j hne => .inl ?_, .inl ?_⟩
      · rw [hafter, update_of_ne hne]
      · rw [hafter, update_self]
    · exact ⟨trivial, fun j _ => .inl rfl, hin⟩

theorem turns_setPhase_done (hsource : op.source = some p)
    (hop : ∀ c s, ∃ after answer, op.perform i c s = some (after, answer) ∧
      after.phase = update s.phase i q)
    (houtcome : ∀ c, op.outcome c = .done) :
    (backupRules ι).Turns exec ok i op (In i p) fun _ => In i q := by
  intro s hs hin
  obtain ⟨hpre, hafter⟩ := turns_setPhase hsource hop (fun c => .inl (houtcome c)) s hs hin
  refine ⟨hpre, fun c s' r hok hexec => ?_⟩
  obtain ⟨_, _, hperform, -⟩ := hop c s
  rcases exec_of_done hexec hperform (.inl (houtcome c)) with ⟨-, -, rfl⟩ | ⟨hfailed, -⟩
  · exact hafter c s' _ hok hexec
  · exact absurd (houtcome c) hfailed

theorem turns_getLock :
    (backupRules ι).Turns exec ok i .getLock (In i .idle)
      fun r => if r = some true then In i .locked else In i .idle := by
  intro s _ hin
  refine ⟨fun phase hphase => ?_, fun c s' r _ hexec => ?_⟩
  · cases hphase
    exact hin
  · obtain ⟨-, hsettle⟩ := exec_eq hexec
    rw [Op.outcome, Op.perform] at hsettle
    split_ifs at hsettle
    · cases hsettle
      exact ⟨trivial, fun j hne => .inl (update_of_ne hne ..), .inl (update_self ..)⟩
    all_goals
      cases hsettle
      exact ⟨trivial, fun j _ => .inl rfl, hin⟩

theorem turns_elsewhere (change : Change ι) :
    (backupRules ι).Turns exec ok i (.elsewhere change) (In i phase) fun _ => In i phase := by
  intro s _ hin
  refine ⟨nofun, fun c s' r _ hexec => ?_⟩
  obtain ⟨-, hsettle⟩ := exec_eq hexec
  cases hsettle
  have hchange : ∀ j, (s.change change).phase j = s.phase j ∨
      (s.change change).phase j = .gone := by
    intro j
    cases change with
    | jobs | loseConnection => exact .inl rfl
    | drop k =>
      rcases eq_or_ne j k with rfl | hne
      · exact .inr (update_self ..)
      · exact .inl (update_of_ne hne ..)
  exact ⟨trivial, fun j _ => hchange j, stable_in i phase s _ trivial (hchange i) hin⟩

end Turns

/-! ### Routines keep to the phases -/

/-- The routine is in this phase where it starts and where it ends. -/
abbrev Stays {α : Type} (ok : ι → Op ι → Choice → Server ι → Prop) (i : ι) (phase : Phase)
    (x : Routine ι α) : Prop :=
  (backupRules ι).Keeps exec ok i (In i phase) x

section Stays

open Rules

variable {ok : ι → Op ι → Choice → Server ι → Prop} {i : ι} {phase : Phase}

theorem stays_execute {op : Op ι} (hop : op.Silent) (failure : Failure) :
    Stays ok i phase (execute failure op) :=
  (turns_silent hop).keeps_query (stable_in i phase) failure

theorem stays_work (failure : Failure) (work : Work) :
    Stays ok i phase (execute failure (.work work)) :=
  stays_execute (show (Op.work work : Op ι).Silent from trivial) failure

theorem stays_step (work : Work) : Stays ok i phase (step work) := stays_work _ work

theorem stays_checkCancelled : Stays ok i phase checkCancelled := stays_work _ _

private theorem stays_dumpDatabase : Stays ok i .locked dumpDatabase := by
  refine (stays_work _ _).bind fun _ => (stays_step _).bind fun _ => ?_
  refine (stays_step .readDump).during (stable_in i _) (stable_in i .dumping) ?_ ?_ _
  · exact turns_setPhase rfl (fun _ s => ⟨s.setPhase i .dumping, (), rfl, rfl⟩) outcome_start
  · exact turns_setPhase_done rfl (fun _ s => ⟨s.setPhase i .locked, (), rfl, rfl⟩) fun _ => rfl

theorem stays_create (backupId : String) (request : BackupRequest) :
    Stays ok i .locked (create backupId request) := by
  refine (stays_step _).bind fun _ => ?_
  refine (((stays_step _).bind fun _ => stays_dumpDatabase.bind fun _ =>
    stays_step _).onlyIf _).bind fun _ => ?_
  refine stays_checkCancelled.bind fun _ => ((stays_step _).onlyIf _).bind fun _ => ?_
  refine (((stays_work _ _).bind fun _ => stays_step _).onlyIf _).bind fun _ => ?_
  refine stays_checkCancelled.bind fun _ => (stays_step _).bind fun _ => ?_
  refine (stays_step _).bind fun _ => (stays_step _).bind fun _ => ?_
  refine (((keeps_found _ _).bind fun _ => stays_step _).onlyIf _).bind fun _ => ?_
  exact (stays_step _).bind fun _ => (stays_step _).bind fun _ => keeps_pure _

private theorem stays_withBackupLock {α : Type} {f : Routine ι α} (hf : Stays ok i .locked f) :
    Stays ok i .idle (withBackupLock f) := by
  refine (stays_step _).bind fun _ s hs hin => ?_
  refine wp_query_bind turns_getLock (fun r => ?_) hs hin (fun _ h => h)
    fun acquired s₁ hs₁ h₁ => ?_
  · split_ifs
    · exact stable_in i _
    · exact stable_in i _
  · cases acquired with
    | false => exact keeps_pure _ s₁ hs₁ h₁
    | true =>
      refine wp_catching_bind hf hs₁ h₁ fun r s₂ hs₂ h₂ => ?_
      have hrelease : (backupRules ι).Turns exec ok i .releaseLock (In i .locked)
          fun _ => In i .idle :=
        turns_setPhase_done rfl (fun _ s => ⟨_, (), rfl, rfl⟩) fun _ => rfl
      refine wp_attempt_bind hrelease (fun _ => stable_in i _) hs₂ h₂ fun _ s₃ hs₃ h₃ => ?_
      exact (keeps_ofExcept r).bind (fun a => keeps_pure _) s₃ hs₃ h₃

variable (setup : Setup)

theorem stays_runBackup (options : RunBackupOptions) :
    Stays ok i .idle (runBackup setup options) := by
  have hcreateJob (job : BackupJob) :
      Stays ok i .idle (execute .database (.createJob options.jobId job)) :=
    stays_execute (show (Op.createJob _ job : Op ι).Silent from trivial) _
  have hmark (phase : Phase) (mark : Mark) :
      Stays ok i phase (execute .database (.markJob options.jobId mark)) :=
    stays_execute (show (Op.markJob _ mark : Op ι).Silent from trivial) _
  refine (keeps_check _).bind fun _ => (hcreateJob _).bind fun _ => ?_
  refine (stays_withBackupLock ((hmark _ _).bind fun _ => stays_create _ _)).catching.bind
    fun outcome => ?_
  exact (hmark _ _).bind fun _ => keeps_pure _

private theorem stays_restoreDatabase : Stays ok i .restoring restoreDatabase := by
  refine (stays_work _ _).bind fun _ => (stays_step _).bind fun _ => ?_
  refine (stays_step .writeReplay).during (stable_in i _) (stable_in i .replaying) ?_ ?_ _
  · exact turns_setPhase rfl (fun _ s => ⟨s.setPhase i .replaying, (), rfl, rfl⟩) outcome_start
  · exact turns_setPhase_done rfl (fun _ s => ⟨s.setPhase i .restoring, (), rfl, rfl⟩) fun _ => rfl

private theorem stays_restoreArchive (request : RestoreRequest) :
    Stays ok i .restoring (restoreArchive setup request) := by
  refine (stays_work _ _).bind fun _ => (stays_step _).bind fun _ => ?_
  refine (((keeps_found _ _).bind fun _ => stays_step _).onlyIf _).bind fun _ => ?_
  refine stays_checkCancelled.bind fun _ => (stays_step _).bind fun _ => ?_
  exact ((stays_work _ _).bind fun _ => (stays_step _).bind fun _ =>
    stays_restoreDatabase).onlyIf _

theorem stays_restore (request : RestoreRequest) : Stays ok i .idle (restore setup request) := by
  refine (stays_restoreArchive setup request).during (stable_in i _) (stable_in i _) ?_ ?_ _
  · exact turns_setPhase rfl (fun _ s => ⟨_, (), rfl, rfl⟩) fun _ => .inl rfl
  · exact turns_setPhase_done rfl (fun _ s => ⟨_, (), rfl, rfl⟩) fun _ => rfl

theorem stays_createPage (form : CreateBackupForm) (jobId : JobId)
    (backupId : String) : Stays ok i .idle (createPage setup form jobId backupId) := by
  have hfind (id : JobId) : Stays ok i .idle (execute .database (.findJob id)) :=
    stays_execute (show (Op.findJob id : Op ι).Silent from trivial) _
  rw [createPage]
  split
  · exact keeps_pure _
  · exact keeps_pure _
  · refine (stays_step _).catching.bind fun usable => ?_
    cases usable with
    | error => exact keeps_pure _
    | ok =>
      refine (stays_runBackup _ _).bind fun id => (hfind id).bind fun job => ?_
      exact (stays_step _).bind fun _ => keeps_pure _

theorem stays_restorePage (id : JobId) (form : RestoreForm) (safetyId : JobId)
    (safetyBackupId : String) :
    Stays ok i .idle (restorePage setup id form safetyId safetyBackupId) := by
  have hfind : Stays ok i .idle (execute .database (.findJob id)) :=
    stays_execute (show (Op.findJob id : Op ι).Silent from trivial) _
  have hremove : Stays ok i .idle (tryTo (.work .removeWorkDir)) :=
    (turns_silent (show (Op.work .removeWorkDir : Op ι).Silent from trivial)).keeps_attempt
      (stable_in i _)
  refine (keeps_check _).bind fun _ => hfind.bind fun _ => (keeps_found _ _).bind fun job => ?_
  refine (keeps_check _).bind fun _ => (keeps_found _ _).bind fun manifest => ?_
  refine (keeps_check _).bind fun _ => (keeps_check _).bind fun _ => (stays_step _).bind fun _ => ?_
  refine (stays_runBackup _ _).catching.bind fun _ => (stays_step _).bind fun _ => ?_
  refine (stays_restore _ _).catching.bind fun result => hremove.bind fun _ => ?_
  refine (stays_step _).bind fun _ => ?_
  cases result with
  | ok => exact keeps_pure _
  | error => exact keeps_throw _

private theorem stays_scheduledRun (schedule : Schedule) (jobId : JobId)
    (backupId : String) : Stays ok i .idle (scheduledRun setup schedule jobId backupId) := by
  refine ((stays_step _).bind fun _ => ?_).onlyIf _
  exact (stays_runBackup _ _).catching.bind fun _ => keeps_pure _

theorem stays_routine (activity : Activity ι) : Stays ok i .idle (activity.routine setup) := by
  cases activity with
  | restore id form safetyId safetyBackupId =>
    exact (stays_restorePage setup id form safetyId safetyBackupId).bind fun _ => keeps_pure _
  | create form jobId backupId =>
    exact (stays_createPage setup form jobId backupId).bind fun _ => keeps_pure _
  | scheduled schedule jobId backupId =>
    exact (stays_scheduledRun setup schedule jobId backupId).bind fun _ => keeps_pure _
  | other change =>
    exact ((turns_elsewhere change).keeps_query (stable_in i _) _).bind fun _ => keeps_pure _

end Stays

theorem holds_of_reach {ok : ι → Op ι → Choice → Server ι → Prop} {setup : Setup}
    {s₀ : Server ι} (h₀ : ∀ i, s₀.phase i = .idle)
    {P : Pool ι (Activity ι) (Server ι) (Op ι) (fun op => Option op.Answer)
      (Except Failure (Option Response))}
    (h : Reach (Activity.code setup) exec ok (.init s₀) P) :
    (backupRules ι).Holds exec ok (fun i => In i .idle) (fun i _ _ => In i .idle) P :=
  Rules.reach trivial (fun i => .inl (h₀ i)) (fun i => stable_in i .idle)
    (fun _ activity s hs hin => stays_routine setup activity s hs hin) h

theorem phase_of_call
    {phase : Phase} (hpre : (backupRules ι).pre i op s) (hexec : exec i op c s = some (s', r))
    (hsource : op.source = some phase) : s.phase i = phase :=
  (hpre phase hsource).resolve_right (exec_eq hexec).1

end Abyssal.Reliquary
