import Abyssal.Reliquary.Backups
import Mathlib.Algebra.Order.Group.Multiset
import Mathlib.Data.List.Sort

/-!
# Retention of backups

A sweep deletes old backups. The newest ones stay, whatever their age, and one verified backup
has to stay. The source decides this in one pass over the jobs, newest first, with a flag that
says whether a verified job has been kept.

## Main results

* `selectPruneCandidates_safe`: what is never deleted.
* `complete_iff`: when every old backup is.
* `newest_verified_subset`: the newest verified backup stays.
-/

namespace Abyssal.Reliquary

open List Option

/-- A row of `reliquary_backups`. Times are nanoseconds. -/
structure StoredJob extends BackupJob where
  id : JobId
  createdAt : ℤ
  deriving DecidableEq

def BackupStatus.isTerminal : BackupStatus → Bool
  | succeeded | failed | verified | cancelled => true
  | queued | running | verifying => false

def StoredJob.verified (job : StoredJob) : Bool :=
  job.verificationStatus.any VerificationStatus.isPassing

def day : ℤ := 86400000000000

/-- `num_days`, which rounds towards zero. -/
def numDays (elapsed : ℤ) : ℤ := elapsed.tdiv day

/-- The settings of a sweep and its time. -/
structure Retention where
  keepLast : ℕ
  retentionDays : ℕ
  now : ℤ

section

variable (jobs : List StoredJob) (r : Retention)

def oldEnough (job : StoredJob) : Bool :=
  0 < r.retentionDays && (r.retentionDays : ℤ) ≤ numDays (r.now - job.createdAt)

/-- The loop of `select_prune_candidates`, at the position `index`. -/
def selectFrom : ℕ → Bool → List StoredJob → List StoredJob
  | _, _, [] => []
  | index, keptAVerifiedOne, job :: jobs =>
    if index < r.keepLast then selectFrom (index + 1) (keptAVerifiedOne || job.verified) jobs
    else if oldEnough r job = false then selectFrom (index + 1) keptAVerifiedOne jobs
    else if job.verified && !keptAVerifiedOne then selectFrom (index + 1) true jobs
    else job :: selectFrom (index + 1) (keptAVerifiedOne || job.verified) jobs

def newestFirst : List StoredJob := jobs.insertionSort fun a b => b.createdAt ≤ a.createdAt

def selectPruneCandidates : List StoredJob :=
  selectFrom r 0 (!(newestFirst jobs).any StoredJob.verified) (newestFirst jobs)

/-- The jobs after the `keepLast` newest. -/
def beyond : List StoredJob := (newestFirst jobs).drop r.keepLast

/-- The jobs that are not selected. -/
def retained : Multiset StoredJob := jobs - selectPruneCandidates jobs r

/-! ### What is selected -/

variable {r}

theorem selectFrom_beyond {index : ℕ} (h : r.keepLast ≤ index) (kept : Bool) :
    selectFrom r index kept jobs = if kept then jobs.filter (oldEnough r)
      else (jobs.filter (oldEnough r)).eraseP StoredJob.verified := by
  induction jobs generalizing index kept with
  | nil => cases kept <;> rfl
  | cons job _ ih =>
    rw [selectFrom, if_neg (Nat.not_lt.2 h)]
    have hrest := @ih (index + 1) (Nat.le_succ_of_le h)
    cases hold : oldEnough r job with
    | false => rw [if_pos rfl, hrest, filter_cons_of_neg (by simp [hold])]
    | true =>
      rw [filter_cons_of_pos hold]
      cases kept <;> cases hv : job.verified <;> simp [hrest, hv]

private theorem selectFrom_newest {index n : ℕ} (h : index + n = r.keepLast) (kept : Bool) :
    selectFrom r index kept jobs =
      selectFrom r r.keepLast (kept || (jobs.take n).any StoredJob.verified) (jobs.drop n) := by
  induction n generalizing index kept jobs with
  | zero => simp [← h]
  | succ n ih =>
    cases jobs with
    | nil => rfl
    | cons _ jobs =>
      rw [selectFrom, if_pos (by omega), ih jobs (by omega)]
      simp [Bool.or_assoc]

/-- The old jobs beyond the newest are selected; the first verified one among them stays if none
of the newest is verified. -/
theorem selectPruneCandidates_eq :
    selectPruneCandidates jobs r =
      if ((newestFirst jobs).take r.keepLast).any StoredJob.verified then
        (beyond jobs r).filter (oldEnough r)
      else ((beyond jobs r).filter (oldEnough r)).eraseP StoredJob.verified := by
  rw [selectPruneCandidates, selectFrom_newest _ (Nat.zero_add r.keepLast),
    selectFrom_beyond _ le_rfl, beyond]
  cases hall : (newestFirst jobs).any StoredJob.verified with
  | true => rw [Bool.not_true, Bool.false_or]
  | false =>
    -- Without a verified job there is nothing that could stay.
    rw [List.any_eq_false] at hall
    rw [eraseP_of_forall_not fun job hjob =>
      hall job (mem_of_mem_drop (mem_of_mem_filter hjob)), ite_self, ite_self]

/-- The verified job that stays although it is old and beyond the newest. -/
def spared (jobs : List StoredJob) (r : Retention) : Option StoredJob :=
  if ((newestFirst jobs).take r.keepLast).any StoredJob.verified then none
  else ((beyond jobs r).filter (oldEnough r)).find? StoredJob.verified

theorem perm_spared :
    ((beyond jobs r).filter (oldEnough r)).Perm
      (selectPruneCandidates jobs r ++ (spared jobs r).toList) := by
  rw [selectPruneCandidates_eq, spared]
  split_ifs with hkept
  · rw [toList_none, append_nil]
  · cases hfind : find? StoredJob.verified _ with
    | none =>
      rw [eraseP_of_forall_not fun job hjob => find?_eq_none.1 hfind job hjob,
        toList_none, append_nil]
    | some =>
      obtain ⟨hv, _, _, heq, hbefore⟩ := find?_eq_some_iff_append.1 hfind
      rw [heq, eraseP_append_right _ (by simpa using hbefore), eraseP_cons_of_pos hv]
      exact perm_middle.trans (perm_append_singleton _ _).symm

open Multiset

theorem coe_beyond :
    (beyond jobs r : Multiset StoredJob) = selectPruneCandidates jobs r +
        ((beyond jobs r).filter (fun job => !oldEnough r job) + (spared jobs r).toList) := by
  rw [add_left_comm, coe_add _ (spared ..).toList, ← coe_eq_coe.2 (perm_spared jobs), add_comm]
  exact (coe_eq_coe.2 (filter_append_perm _ _)).symm

theorem retained_eq :
    retained jobs r = (newestFirst jobs).take r.keepLast +
        ((beyond jobs r).filter (fun job => !oldEnough r job) + (spared jobs r).toList) := by
  have hjobs : (jobs : Multiset StoredJob) =
      (newestFirst jobs).take r.keepLast + beyond jobs r := by
    rw [coe_add, beyond, take_append_drop]
    exact coe_eq_coe.2 (perm_insertionSort _ jobs).symm
  rw [retained, hjobs, coe_beyond, add_left_comm, add_tsub_cancel_left]

variable {jobs} {job : StoredJob}

theorem mem_retained :
    job ∈ retained jobs r ↔ job ∈ (newestFirst jobs).take r.keepLast ∨
        (job ∈ beyond jobs r ∧ oldEnough r job = false) ∨ spared jobs r = some job := by
  rw [retained_eq]
  simp

theorem mem_erase_retained {kept : StoredJob} (h : spared jobs r = some kept) :
    job ∈ (retained jobs r).erase kept ↔ job ∈ (newestFirst jobs).take r.keepLast ∨
        job ∈ beyond jobs r ∧ oldEnough r job = false := by
  rw [retained_eq, h, toList_some, coe_singleton, ← add_assoc,
    add_comm _ ({kept} : Multiset StoredJob), singleton_add]
  simp

theorem mem_beyond_sub (hold : oldEnough r job) :
    job ∈ (beyond jobs r : Multiset StoredJob) - selectPruneCandidates jobs r ↔
      spared jobs r = some job := by
  rw [coe_beyond, add_tsub_cancel_left]
  simp [hold]

theorem mem_newestFirst :
    job ∈ (newestFirst jobs).take r.keepLast ∨ job ∈ beyond jobs r ↔ job ∈ jobs := by
  rw [beyond, ← mem_append, take_append_drop]
  exact mem_insertionSort _

theorem oldEnough_iff :
    oldEnough r job ↔ 0 < r.retentionDays ∧ job.createdAt + r.retentionDays * day ≤ r.now := by
  rw [oldEnough, Bool.and_eq_true, decide_eq_true_iff, decide_eq_true_iff]
  refine and_congr_right fun hpos => ?_
  rw [numDays, day]
  rcases le_or_gt 0 (r.now - job.createdAt) with hpast | hahead
  · rw [Int.tdiv_eq_ediv_of_nonneg hpast]
    omega
  · have hage := Int.tdiv_nonneg (a := job.createdAt - r.now) (b := 86400000000000)
      (by omega) (by omega)
    rw [← Int.neg_sub, Int.neg_tdiv]
    omega

theorem verified_of_spared (h : spared jobs r = some job) :
    job.verified ∧ oldEnough r job ∧ job ∈ beyond jobs r := by
  rw [spared, ite_none_left_eq_some] at h
  exact ⟨find?_some h.2, (mem_filter.1 (mem_of_find?_eq_some h.2)).symm⟩

theorem exists_spared (hnewest : ¬∃ job ∈ (newestFirst jobs).take r.keepLast, job.verified)
    (hbeyond : job ∈ beyond jobs r) (hold : oldEnough r job)
    (hv : job.verified) : ∃ other, spared jobs r = some other := by
  rw [spared, if_neg (by rwa [List.any_eq_true]), ← isSome_iff_exists, find?_isSome]
  exact ⟨job, mem_filter.2 ⟨hbeyond, hold⟩, hv⟩

/-! ### Safety and completeness -/

private theorem exists_retained (hjob : job ∈ jobs) (hv : job.verified) :
    ∃ other ∈ retained jobs r, other.verified := by
  by_cases hnewest : ∃ job ∈ (newestFirst jobs).take r.keepLast, job.verified
  · obtain ⟨other, hother, hverified⟩ := hnewest
    exact ⟨other, mem_retained.2 (.inl hother), hverified⟩
  have hbeyond : job ∈ beyond jobs r :=
    (mem_newestFirst.2 hjob).resolve_left fun htake => hnewest ⟨job, htake, hv⟩
  cases hold : oldEnough r job with
  | false => exact ⟨job, mem_retained.2 (.inr (.inl ⟨hbeyond, hold⟩)), hv⟩
  | true =>
    obtain ⟨other, hspared⟩ := exists_spared hnewest hbeyond hold hv
    exact ⟨other, mem_retained.2 (.inr (.inr hspared)), (verified_of_spared hspared).1⟩

/-- What is selected is beyond the newest and old, and a verified job stays. -/
theorem selectPruneCandidates_safe (jobs : List StoredJob) (r : Retention) :
    (selectPruneCandidates jobs r).Sublist (beyond jobs r) ∧
      (∀ job ∈ selectPruneCandidates jobs r, job.createdAt + r.retentionDays * day ≤ r.now) ∧
      ((∃ job ∈ jobs, job.verified) → ∃ job ∈ retained jobs r, job.verified) := by
  refine ⟨?_, fun job hjob => ?_, fun ⟨job, hjob, hv⟩ => exists_retained hjob hv⟩
  · rw [selectPruneCandidates_eq]
    split_ifs
    · exact filter_sublist
    · exact eraseP_sublist.trans filter_sublist
  · have hmem := (perm_spared jobs).mem_iff.2 (mem_append_left _ hjob)
    exact (oldEnough_iff.1 (mem_filter.1 hmem).2).2

/-- Of the old jobs beyond the newest, only a job that is then the one verified job stays. -/
def Complete (jobs : List StoredJob) (r : Retention) : Prop :=
  ∀ job ∈ (beyond jobs r : Multiset StoredJob) - selectPruneCandidates jobs r,
    oldEnough r job = true →
      job.verified = true ∧ ∀ other ∈ (retained jobs r).erase job, other.verified = false

/-- A verified job that stays because it is too young does not set the flag. -/
theorem complete_iff (jobs : List StoredJob) (r : Retention) :
    Complete jobs r ↔ (∃ job ∈ (newestFirst jobs).take r.keepLast, job.verified) ∨
        (∀ job ∈ beyond jobs r, job.verified → oldEnough r job) ∨
        ∀ job ∈ beyond jobs r, job.verified → oldEnough r job = false := by
  constructor
  · intro h
    by_cases hnewest : ∃ job ∈ (newestFirst jobs).take r.keepLast, job.verified
    · exact .inl hnewest
    by_cases hnone : ∀ job ∈ beyond jobs r, job.verified → oldEnough r job = false
    · exact .inr (.inr hnone)
    push Not at hnone
    obtain ⟨job, hjob, hv, hold⟩ := hnone
    obtain ⟨kept, hkept⟩ := exists_spared hnewest hjob (by simpa using hold) hv
    obtain ⟨-, hkeptOld, -⟩ := verified_of_spared hkept
    refine .inr (.inl fun other hother hverified => eq_true_of_ne_false fun hyoung => ?_)
    have hnot := (h kept ((mem_beyond_sub hkeptOld).2 hkept) hkeptOld).2 other
      ((mem_erase_retained hkept).2 (.inr ⟨hother, hyoung⟩))
    simp [hverified] at hnot
  · rintro h kept hkept hold
    rw [mem_beyond_sub hold] at hkept
    obtain ⟨hv, -, hbeyond⟩ := verified_of_spared hkept
    refine ⟨hv, fun other hother => ?_⟩
    have hnewest : ∀ job ∈ (newestFirst jobs).take r.keepLast, job.verified = false := by
      rw [spared, ite_none_left_eq_some] at hkept
      simpa using hkept.1
    rcases (mem_erase_retained hkept).1 hother with htake | ⟨hmem, hyoung⟩
    · exact hnewest other htake
    rcases h with ⟨job, hjob, hverified⟩ | hall | hnone
    · simp [hnewest job hjob] at hverified
    · exact eq_false_of_ne_true fun hverified => by simp [hall other hmem hverified] at hyoung
    · simp [hnone kept hbeyond hv] at hold

/-- Two verified backups, of the days 90 and 10. -/
def quarter (id : JobId) (createdAt : ℤ) : StoredJob :=
  ⟨⟨.verified, none, some "backup.tar", none, none, some .deepPassed⟩, id, createdAt * day⟩

/-- On day 100 the older one is kept beside the younger one. -/
theorem not_complete_of_young : ¬Complete [quarter 2 90, quarter 1 10] ⟨0, 30, 100 * day⟩ := by
  intro h
  have hyoung := (h (quarter 1 10) (by decide) (by decide)).2 (quarter 2 90) (by decide)
  revert hyoung
  decide

/-! ### The sweep -/

/-- What becomes of a job to be pruned. A row that cannot be deleted ends the sweep. -/
inductive Fate where
  | pruned
  | leftInPlace
  | failed

def pruneJobs (fate : StoredJob → Fate) : List StoredJob → List StoredJob
  | [] => []
  | job :: jobs =>
    match fate job with
    | .pruned => job :: pruneJobs fate jobs
    | .leftInPlace => pruneJobs fate jobs
    | .failed => []

/-- The rows that `prune_retention` deletes. -/
def pruneRetention (fate : StoredJob → Fate) (rows : List StoredJob) (r : Retention) :
    List StoredJob :=
  pruneJobs fate (selectPruneCandidates
    (rows.filter fun job => job.status.isTerminal && job.fileName.isSome) r)

private theorem pruneJobs_sublist (fate : StoredJob → Fate) (jobs : List StoredJob) :
    (pruneJobs fate jobs).Sublist jobs := by
  induction jobs with
  | nil => exact .slnil
  | cons job _ ih =>
    rw [pruneJobs]
    split
    · exact ih.cons_cons job
    · exact ih.cons job
    · exact nil_sublist _

private theorem retained_of_newest (h : (newestFirst jobs).find? StoredJob.verified = some job) :
    job ∈ retained jobs r := by
  rw [← take_append_drop r.keepLast (newestFirst jobs), find?_append, ← beyond,
    or_eq_some_iff] at h
  rw [mem_retained]
  rcases h with htake | ⟨hnone, hbeyond⟩
  · exact .inl (mem_of_find?_eq_some htake)
  cases hold : oldEnough r job with
  | false => exact .inr (.inl ⟨mem_of_find?_eq_some hbeyond, rfl⟩)
  | true =>
    obtain ⟨hv, before, _, heq, hbefore⟩ := find?_eq_some_iff_append.1 hbeyond
    have hold' : (before.filter (oldEnough r)).find? StoredJob.verified = none :=
      find?_eq_none.2 fun a ha => by simpa using hbefore a (mem_of_mem_filter ha)
    rw [spared, if_neg (by simpa using hnone), heq, filter_append, filter_cons_of_pos hold,
      find?_append, hold', find?_cons_of_pos hv]
    exact .inr (.inr rfl)

/-- However the deletions go, the newest verified backup stays. -/
theorem newest_verified_subset (fate : StoredJob → Fate) (rows : List StoredJob) (r : Retention) :
    (((newestFirst (rows.filter fun job => job.status.isTerminal && job.fileName.isSome)).find?
      StoredJob.verified).toList : Multiset StoredJob) ⊆ rows - pruneRetention fate rows r := by
  intro job hjob
  refine mem_of_le (tsub_le_tsub ?_ ?_) (retained_of_newest (r := r) (mem_toList.1 hjob))
  · exact coe_le.2 filter_sublist.subperm
  · exact coe_le.2 (pruneJobs_sublist fate _).subperm

end

end Abyssal.Reliquary
