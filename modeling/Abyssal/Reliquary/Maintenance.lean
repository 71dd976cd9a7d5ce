import Abyssal.Reliquary.Phases

/-!
# Maintenance mode

Maintenance mode is meant to be on while a restore is running, and while a restore replays the
database no dump and no other restore is meant to run. The flag has no count, and a restore does not
take the lock that backups take. For each operation it is said here when it leaves this intact.

## Main results

* `covered_iff_exclusive`: when the mode covers a restore.
-/

namespace Abyssal.Reliquary

open Resumption Resumption.Handler Function

variable {ι : Type}

def Phase.isBusy : Phase → Bool
  | dumping | restoring | replaying => true
  | _ => false

/-- Maintenance mode is on while a restore runs, and no dump and no other restore runs beside a
replay. -/
structure Covered (s : Server ι) : Prop where
  maintenance : ∀ i, (s.phase i).isRestore = true → s.maintenance = true
  alone : ∀ i j, s.phase i = .replaying → (s.phase j).isBusy = true → i = j

/-- A restore or dump starts while none replays; a replay starts, and a restore ends, while no other
restore runs, nor, for the replay, a dump. -/
def Exclusive (i : ι) (op : Op ι) (c : Choice) (s : Server ι) : Prop :=
  match op with
  | .enter => ∀ j, s.phase j ≠ .replaying
  | .leave => ∀ j, (s.phase j).isRestore = true → j = i
  | .beginReplay => c.outcome = .done → ∀ j, (s.phase j).isBusy = true → j = i
  | .beginDump => c.outcome = .done → ∀ j, s.phase j ≠ .replaying
  | .elsewhere (.drop k) =>
    (s.phase k).isRestore = true → ∀ j, (s.phase j).isRestore = true → j = k
  | _ => True

variable {phase : Phase}

theorem Phase.isBusy_of_isRestore (h : phase.isRestore) : phase.isBusy := by
  cases phase with
  | restoring | replaying => rfl
  | _ => cases h

def Server.quiet (jobs : JobId → Option BackupJob) : Server ι := ⟨false, [], jobs, fun _ => .idle⟩

theorem covered_quiet (jobs : JobId → Option BackupJob) : Covered (Server.quiet jobs : Server ι) :=
  ⟨nofun, nofun⟩

/-! ## Steps -/

theorem Covered.flag_or {s : Server ι} (hs : Covered s) {i : ι}
    (hphase : phase.isRestore → s.maintenance) :
    s.maintenance ∨ phase.isRestore = false ∧ ∀ j, (s.phase j).isRestore → j = i := by
  cases hm : s.maintenance with
  | true => exact .inl rfl
  | false =>
    refine .inr ⟨?_, fun j hj => ?_⟩
    · by_contra hrestore
      exact nomatch hm.symm.trans (hphase (by simpa using hrestore))
    · exact nomatch hm.symm.trans (hs.maintenance j hj)

theorem Covered.with_jobs {s : Server ι} (hs : Covered s) (jobs : JobId → Option BackupJob)
    (lock : List ι) : Covered { s with jobs := jobs, lock := lock } :=
  ⟨hs.maintenance, hs.alone⟩

variable [DecidableEq ι]

theorem maintenance_update_iff {f : ι → Phase} {i : ι} {flag : Bool} :
    (∀ j, (update f i phase j).isRestore → flag) ↔
      flag ∨ phase.isRestore = false ∧ ∀ j, (f j).isRestore → j = i := by
  rw [forall_update_iff f fun _ phase => phase.isRestore → flag = true]
  cases flag with
  | true => simp
  | false =>
    simp only [Bool.false_eq_true, imp_false, Bool.not_eq_true, false_or]
    refine and_congr_right' ⟨fun h j hj => ?_, fun h j hne => ?_⟩
    · by_contra hne
      exact nomatch (h j hne).symm.trans hj
    · by_contra hj
      exact hne (h j (by simpa using hj))

private theorem alone_update_iff {f : ι → Phase}
    (hf : ∀ j k, f j = .replaying → (f k).isBusy → j = k) {i : ι} :
    (∀ j k, update f i phase j = .replaying → (update f i phase k).isBusy → j = k) ↔
      (phase = .replaying → ∀ j, (f j).isBusy → j = i) ∧
        (phase.isBusy → ∀ j, f j = .replaying → j = i) := by
  constructor
  · refine fun h => ⟨fun hreplay j hj => ?_, fun hbusy j hj => ?_⟩
    · by_contra hne
      refine hne (h i j ?_ ?_).symm
      · rwa [update_self]
      · rwa [update_of_ne hne]
    · by_contra hne
      refine hne (h j i ?_ ?_)
      · rwa [update_of_ne hne]
      · rwa [update_self]
  · rintro ⟨hreplay, hbusy⟩ j k hj hk
    rcases eq_or_ne j i with rfl | hji
    · rw [update_self] at hj
      by_contra hne
      rw [update_of_ne (Ne.symm hne)] at hk
      exact hne (hreplay hj k hk).symm
    · rw [update_of_ne hji] at hj
      rcases eq_or_ne k i with rfl | hki
      · rw [update_self] at hk
        exact hbusy hk j hj
      · rw [update_of_ne hki] at hk
        exact hf j k hj hk

section Steps

variable {s s' : Server ι} {i : ι} {phase : Phase}

theorem Covered.update_iff (hs : Covered s) (i : ι) (phase : Phase)
    (hphase : s'.phase = update s.phase i phase) :
    Covered s' ↔ (s'.maintenance ∨ phase.isRestore = false ∧ ∀ j, (s.phase j).isRestore → j = i) ∧
      (phase = .replaying → ∀ j, (s.phase j).isBusy → j = i) ∧
      (phase.isBusy → ∀ j, s.phase j = .replaying → j = i) := by
  rw [← maintenance_update_iff, ← alone_update_iff hs.alone, ← hphase]
  exact ⟨fun h => ⟨h.maintenance, h.alone⟩, fun h => ⟨h.1, h.2⟩⟩

theorem Covered.update_of_idle (hs : Covered s) (hbusy : phase.isBusy = false)
    (hphase : s'.phase = update s.phase i phase)
    (hflag : s'.maintenance = s.maintenance) : Covered s' := by
  refine (hs.update_iff i phase hphase).2 ⟨?_, ?_, ?_⟩
  · rw [hflag]
    refine hs.flag_or fun h => ?_
    exact nomatch hbusy.symm.trans (Phase.isBusy_of_isRestore h)
  · rintro rfl
    cases hbusy
  · exact fun h => nomatch hbusy.symm.trans h

omit [DecidableEq ι] in
theorem replaying_imp_eq_iff (hi : s.phase i ≠ .replaying) :
    (∀ j, s.phase j = .replaying → j = i) ↔ ∀ j, s.phase j ≠ .replaying :=
  ⟨fun h j hj => hi (h j hj ▸ hj), fun h j hj => absurd hj (h j)⟩

theorem covered_enter_iff (hs : Covered s) (hi : s.phase i = .idle) :
    Covered { s.setPhase i .restoring with maintenance := true } ↔ ∀ j, s.phase j ≠ .replaying := by
  rw [hs.update_iff i .restoring rfl, ← replaying_imp_eq_iff (by rw [hi]; exact Phase.noConfusion)]
  constructor
  · exact fun h => h.2.2 rfl
  · exact fun h => ⟨.inl rfl, nofun, fun _ => h⟩

theorem covered_leave_iff (hs : Covered s) :
    Covered { s.setPhase i .idle with maintenance := false } ↔
      ∀ j, (s.phase j).isRestore → j = i := by
  rw [hs.update_iff i .idle rfl]
  constructor
  · rintro ⟨hflag | ⟨-, hothers⟩, -⟩
    · cases hflag
    · exact hothers
  · exact fun h => ⟨.inr ⟨rfl, h⟩, nofun, nofun⟩

theorem covered_beginReplay_iff (hs : Covered s) (hi : s.phase i = .restoring) :
    Covered (s.setPhase i .replaying) ↔ ∀ j, (s.phase j).isBusy → j = i := by
  rw [hs.update_iff i .replaying rfl]
  constructor
  · exact fun h => h.2.1 rfl
  · refine fun h => ⟨hs.flag_or fun _ => hs.maintenance i (by rw [hi]; rfl), fun _ => h,
      fun _ j hj => h j (by rw [hj]; rfl)⟩

theorem covered_endReplay (hs : Covered s) (hi : s.phase i = .replaying) :
    Covered (s.setPhase i .restoring) := by
  refine (hs.update_iff i .restoring rfl).2 ⟨?_, nofun, fun _ j hj => ?_⟩
  · exact hs.flag_or fun _ => hs.maintenance i (by rw [hi]; rfl)
  · exact hs.alone j i hj (by rw [hi]; rfl)

theorem covered_beginDump_iff (hs : Covered s) (hi : s.phase i = .locked) :
    Covered (s.setPhase i .dumping) ↔ ∀ j, s.phase j ≠ .replaying := by
  rw [hs.update_iff i .dumping rfl, ← replaying_imp_eq_iff (by rw [hi]; exact Phase.noConfusion)]
  constructor
  · exact fun h => h.2.2 rfl
  · exact fun h => ⟨hs.flag_or nofun, nofun, fun _ => h⟩

theorem covered_drop_iff (hs : Covered s) :
    Covered (s.change (.drop i)) ↔
      ((s.phase i).isRestore → ∀ j, (s.phase j).isRestore → j = i) := by
  rw [hs.update_iff i .gone rfl]
  constructor
  · rintro ⟨hflag | ⟨-, hothers⟩, -⟩ hrestore
    · simp [Server.change, hrestore] at hflag
    · exact hothers
  · refine fun h => ⟨?_, nofun, nofun⟩
    cases hrestore : (s.phase i).isRestore with
    | true => exact .inr ⟨rfl, h hrestore⟩
    | false =>
      simp only [Server.change, hrestore, Bool.not_false, Bool.and_true]
      exact hs.flag_or nofun

private theorem outcome_eq_done_iff (c : Choice) :
    (if c.outcome = .done then Outcome.done else .failed) = .done ↔ c.outcome = .done := by
  by_cases h : c.outcome = .done
  · rw [if_pos h]
    exact iff_of_true rfl h
  · rw [if_neg h]
    exact iff_of_false (fun hdone => nomatch hdone) h

/-- **A step leaves `Covered` intact if and only if it finds what `Exclusive` says.** -/
theorem covered_step_iff {op : Op ι} {c : Choice} {r : Option op.Answer} (hs : Covered s)
    (hpre : (backupRules ι).pre i op s) (hexec : exec i op c s = some (s', r)) :
    Covered s' ↔ Exclusive i op c s := by
  have hphase : ∀ phase, op.source = some phase → s.phase i = phase :=
    fun _ => phase_of_call hpre hexec
  obtain ⟨-, hsettle⟩ := exec_eq hexec
  cases op with
  | findJob | createJob | markJob | work =>
    obtain ⟨jobs, rfl⟩ := exec_of_silent hexec trivial
    exact iff_of_true (hs.with_jobs jobs s.lock) trivial
  | getLock =>
    refine iff_of_true ?_ trivial
    rw [Op.outcome, Op.perform] at hsettle
    split_ifs at hsettle
    · cases hsettle
      exact hs.update_of_idle (i := i) rfl rfl rfl
    all_goals
      cases hsettle
      exact hs
  | releaseLock | endDump =>
    cases hsettle
    exact iff_of_true (hs.update_of_idle (i := i) rfl rfl rfl) trivial
  | beginDump =>
    rcases exec_of_done hexec rfl (outcome_start c) with ⟨hdone, rfl, -⟩ | ⟨hfailed, rfl, -⟩
    · rw [covered_beginDump_iff hs (hphase _ rfl)]
      exact (imp_iff_right ((outcome_eq_done_iff c).1 hdone)).symm
    · exact iff_of_true hs fun h => absurd ((outcome_eq_done_iff c).2 h) hfailed
  | enter =>
    cases hsettle
    exact covered_enter_iff hs (hphase _ rfl)
  | leave =>
    cases hsettle
    exact covered_leave_iff hs
  | beginReplay =>
    rcases exec_of_done hexec rfl (outcome_start c) with ⟨hdone, rfl, -⟩ | ⟨hfailed, rfl, -⟩
    · rw [covered_beginReplay_iff hs (hphase _ rfl)]
      exact (imp_iff_right ((outcome_eq_done_iff c).1 hdone)).symm
    · exact iff_of_true hs fun h => absurd ((outcome_eq_done_iff c).2 h) hfailed
  | endReplay =>
    cases hsettle
    exact iff_of_true (covered_endReplay hs (hphase _ rfl)) trivial
  | elsewhere change =>
    cases hsettle
    cases change with
    | jobs jobs => exact iff_of_true (hs.with_jobs jobs s.lock) trivial
    | drop => exact covered_drop_iff hs
    | loseConnection => exact iff_of_true (hs.with_jobs s.jobs []) trivial

end Steps

/-! ## Runs -/

abbrev BackupPool (ι : Type) :=
  Pool ι (Activity ι) (Server ι) (Op ι) (fun op => Option op.Answer)
    (Except Failure (Option Response))

/-- The pools that are reached from a quiet server by steps that meet a condition. -/
abbrev Reaches (setup : Setup) (jobs : JobId → Option BackupJob)
    (ok : ι → Op ι → Choice → Server ι → Prop) (P : BackupPool ι) : Prop :=
  Reach (Activity.code setup) exec ok (.init (.quiet jobs)) P

private theorem inv_of_reaches {setup : Setup} {jobs : JobId → Option BackupJob}
    {ok : ι → Op ι → Choice → Server ι → Prop} {I : Server ι → Prop} (h₀ : I (.quiet jobs))
    (hop : ∀ i op c s s' r, (backupRules ι).pre i op s → I s → ok i op c s →
      exec i op c s = some (s', r) → I s')
    {P : BackupPool ι} (h : Reaches setup jobs ok P) : I P.shared :=
  (Rules.inv_of_pre (fun _ => holds_of_reach fun _ => rfl) (fun _ _ _ _ _ => trivial)
    (fun i op c s s' r _ => hop i op c s s' r) .refl h₀ h).2

/-- In every run, a step leaves `Covered` intact if and only if it finds what `Exclusive` says; so
it is intact throughout if all steps do. -/
theorem covered_iff_exclusive (setup : Setup) (jobs : JobId → Option BackupJob) :
    (∀ P : BackupPool ι, Reaches setup jobs (fun _ _ _ _ => True) P → Covered P.shared →
      ∀ i activity op k c s r, P.threads i = some ⟨activity, .call op k⟩ →
        exec i op c P.shared = some (s, r) → (Covered s ↔ Exclusive i op c P.shared)) ∧
    ∀ P : BackupPool ι, Reaches setup jobs Exclusive P → Covered P.shared := by
  constructor
  · intro P hreach hs i activity op k c s r hcall hexec
    have hholds := holds_of_reach (fun _ => rfl) hreach
    exact covered_step_iff hs (hholds.pre_of_call hcall) hexec
  · intro P hreach
    refine inv_of_reaches (covered_quiet jobs) (fun i op c s s' r hpre hs hok hexec => ?_) hreach
    exact (covered_step_iff hs hpre hexec).2 hok

instance {n : ℕ} (s : Server (Fin n)) : Decidable (Covered s) := by
  have hall (p : Fin n → Prop) [DecidablePred p] : Decidable (∀ j, p j) :=
    Nat.decidableForallFin p
  exact decidable_of_iff _ ⟨fun h => ⟨h.1, h.2⟩, fun h => And.intro h.maintenance h.alone⟩

instance {n : ℕ} (i : Fin n) (op : Op (Fin n)) (c : Choice) (s : Server (Fin n)) :
    Decidable (Exclusive i op c s) := by
  have hall (p : Fin n → Prop) [DecidablePred p] : Decidable (∀ j, p j) :=
    Nat.decidableForallFin p
  unfold Exclusive
  cases op with
  | elsewhere change => cases change <;> infer_instance
  | _ => infer_instance

def plainSetup : Setup := ⟨fun _ => "", fun _ => none, id⟩

def oneBackup : JobId → Option BackupJob
  | 0 => some ⟨.verified, none, some "backup-a.tar.zst", some ⟨false⟩, none, some .quickPassed⟩
  | _ => none

def startRestore (i : Fin 2) (n : ℕ) : List (Event (Fin 2) (Activity (Fin 2)) Choice) :=
  .start i (.restore 0 ⟨true, "RESTORE", [], false, true⟩ (i.val + 1) "s") ::
    List.replicate n (.run i ⟨.done, false⟩)

def startScheduled (i : Fin 2) (n : ℕ) : List (Event (Fin 2) (Activity (Fin 2)) Choice) :=
  .start i (.scheduled ⟨true, 24, true, true, none⟩ (i.val + 1) "s") ::
    List.replicate n (.run i ⟨.done, false⟩)

theorem covered_iff_exclusive_replaying :
    ∃ P : BackupPool (Fin 2), Reaches plainSetup oneBackup Exclusive P ∧
      P.shared.phase 0 = .replaying ∧ P.shared.phase 1 = .locked ∧ Covered P.shared := by
  obtain ⟨P, hP, hreplaying, hlocked⟩ : ∃ P, Reaches plainSetup oneBackup Exclusive P ∧
      P.shared.phase 0 = .replaying ∧ P.shared.phase 1 = .locked :=
    exists_reach_of_fires (startRestore 0 34 ++ startScheduled 1 9) (by decide)
  exact ⟨P, hP, hreplaying, hlocked, (covered_iff_exclusive plainSetup oneBackup).2 P hP⟩

/-- Of two restores, the one that ends first clears the flag under the other; a backup dumps the
database during a replay. -/
theorem not_covered_of_overlap :
    (∃ P : BackupPool (Fin 2), Reaches plainSetup oneBackup (fun _ _ _ _ => True) P ∧
      P.shared.phase 1 = .restoring ∧ P.shared.maintenance = false ∧ ¬Covered P.shared) ∧
    (∃ P : BackupPool (Fin 2), Reaches plainSetup oneBackup (fun _ _ _ _ => True) P ∧
      P.shared.phase 0 = .replaying ∧ P.shared.phase 1 = .dumping ∧ ¬Covered P.shared) ∧
    ∃ P : BackupPool (Fin 2), Reaches plainSetup oneBackup (fun _ _ _ _ => True) P ∧
      P.shared.phase 0 = .replaying ∧ P.shared.phase 1 = .replaying ∧ ¬Covered P.shared := by
  refine ⟨exists_reach_of_fires (startRestore 0 25 ++ startRestore 1 25 ++
    List.replicate 12 (.run 0 ⟨.done, false⟩)) ?_, exists_reach_of_fires
    (startRestore 0 34 ++ startScheduled 1 10) ?_, exists_reach_of_fires
    (startRestore 0 34 ++ startRestore 1 34) ?_⟩
  · decide
  · decide
  · decide

end Abyssal.Reliquary
