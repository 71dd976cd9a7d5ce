import Abyssal.Check.Ensure
import Abyssal.Reliquary.Backups

/-!
# The version of a manifest

The preview of a restore says whether the version of the manifest is the one that this build
understands, and the page hides the form otherwise. A restore itself never looks at the version.

## Main results

* `blocks_iff`: a restore that its version ought to block ends for other reasons only.
* `replayed_of_unknown_version`: a dump that is replayed under a version that is not known.
-/

namespace Abyssal.Reliquary.Version

structure Manifest where
  manifestVersion : ℕ
  encrypted : Bool
  components : List BackupComponent

def Manifest.schemaVersionMatches (manifest : Manifest) : Bool := manifest.manifestVersion = 1

structure Request where
  fileName : String
  manifest : Manifest
  components : List BackupComponent
  passphrase : Option Text

abbrev Environment := Work → Bool

variable (setup : Setup) (env : Environment)

def step (work : Work) : Except Failure Unit := ensure (env work = true) (.step work)

def prepare (request : Request) : Except Failure Bool := do
  ensure (env .archiveIsFile = true)
    (.restore ("archive file is missing: " ++ setup.resolve request.fileName))
  step env .createWorkDir
  if request.manifest.encrypted then
    ensure (request.passphrase.isSome = true)
      (.restore "this backup is encrypted -- a passphrase is required to restore it")
    step env .decryptArchive
  ensure (env .notCancelled = true) .cancelled
  step env .extractArchive
  if request.components.contains .database then
    ensure (env .dumpIsFile = true)
      (.restore "archive has no db.sql -- was it created without the Database component?")
    step env .parseDatabaseUrl
    ensure (env .findClientProgram = true) (.config ("neither mariadb nor mysql was found on " ++
      "PATH -- install mariadb-client in the runtime image"))
    step env .writeDefaultsFile
    step env .startClient
    return true
  return false

/-- What comes of a restore: whether the dump was replayed into the database, wholly or in part,
and the result. -/
structure Outcome where
  replayed : Bool
  result : Except Failure Unit

/-- `restore`, of what may have failed before it. -/
def restore (request : Except Failure Request) : Outcome :=
  match request.bind (prepare setup env) with
  | .error failure => ⟨false, .error failure⟩
  | .ok false => ⟨false, .ok ()⟩
  | .ok true => ⟨true, step env .writeReplay⟩

/-! ### What starts a restore -/

structure Job where
  destinationConnectionId : Option ConnectionId
  fileName : Option String
  manifest : Option Manifest
  verificationStatus : Option VerificationStatus

/-- What the page asks for. The safety backup before the restore may fail. -/
def pageRequest (form : RestoreForm) (job : Option Job) : Except Failure Request := do
  ensure ((form.confirm && Text.trim form.confirmText == "RESTORE") = true)
    (.validation "Type RESTORE to confirm this destructive action.")
  let job ← orFail job .notFound
  ensure (job.destinationConnectionId.isNone = true) (.validation
    ("This backup was written to a Sepulchre connection -- downloading, verifying, and " ++
      "restoring from a Sepulchre-backed destination isn't supported yet, only writing to " ++
      "one. See docs/sepulchre.md."))
  let manifest ← orFail job.manifest
    (.validation "This backup has no manifest -- it can't be restored.")
  ensure ((job.verificationStatus.any (·.isPassing) || form.overrideUnverified) = true) (.validation
    "This backup hasn't been verified. Verify it first, or explicitly override.")
  ensure (form.database = true) (.validation "Select at least one component to restore.")
  step env .resolveDestination
  step env .readDatabaseUrl
  return ⟨job.fileName.getD "", manifest, [.database],
    if form.passphrase.isEmpty then none else some form.passphrase⟩

def commandRequest (fileName : String) (passphrase : Option Text)
    (manifest : Except Failure Manifest) : Except Failure Request := do
  ensure (env .archiveIsFile = true) (.validation ("no such file: " ++ fileName))
  ensure (env .readDatabaseUrl = true) (.validation "DATABASE_URL must be set")
  let manifest ← manifest
  ensure ((manifest.encrypted && passphrase.isNone) = false) (.validation
    ("this archive is encrypted -- pass --passphrase-file <path to a file containing the " ++
      "passphrase>"))
  return ⟨fileName, manifest, manifest.components, passphrase⟩

inductive Start where
  | engine (request : Request)
  | page (form : RestoreForm) (job : Option Job)
  | command (fileName : String) (passphrase : Option Text)
      (manifest : Except Failure Manifest)

def Start.request : Start → Except Failure Request
  | engine request => .ok request
  | page form job => pageRequest env form job
  | command fileName passphrase manifest => commandRequest env fileName passphrase manifest

/-! ### The block -/

/-- The dump is replayed only under a version that the preview reports as matching; otherwise the
restore fails before. -/
structure Blocks (start : Start) : Prop where
  replayed : (restore setup env (start.request env)).replayed = true →
    ∃ request, start.request env = .ok request ∧ request.manifest.schemaVersionMatches = true
  otherwise : ∀ request, start.request env = .ok request →
    request.manifest.schemaVersionMatches = false →
      (restore setup env (start.request env)).replayed = false ∧
        (restore setup env (start.request env)).result.isOk = false

/-- The checks and steps that a restore comes to before it replays anything. -/
def needed (request : Request) : List Work :=
  [.archiveIsFile, .createWorkDir] ++
    (if request.manifest.encrypted then [.decryptArchive] else []) ++
    [.notCancelled, .extractArchive] ++
    (if .database ∈ request.components then
      [.dumpIsFile, .parseDatabaseUrl, .findClientProgram, .writeDefaultsFile, .startClient]
    else [])

private theorem isOk_prepare_iff (request : Request) :
    (prepare setup env request).isOk ↔
      (request.manifest.encrypted → request.passphrase.isSome) ∧
        ∀ work ∈ needed request, env work := by
  have hok : ∀ b, (pure b : Except Failure Bool).isOk := fun _ => rfl
  by_cases hencrypted : request.manifest.encrypted <;>
    by_cases hdatabase : .database ∈ request.components <;>
    simp [prepare, step, needed, hencrypted, hdatabase, isOk_ensure_bind, hok, and_left_comm,
      -bind_pure_comp]

private theorem prepare_eq_error_iff (request : Request) :
    (∃ failure, prepare setup env request = .error failure) ↔
      (request.manifest.encrypted ∧ request.passphrase = none) ∨
        ∃ work ∈ needed request, env work = false := by
  have hok := isOk_prepare_iff setup env request
  have herror : (∃ failure, prepare setup env request = .error failure) ↔
      ¬ (prepare setup env request).isOk := by
    cases prepare setup env request <;> simp [Except.isOk, Except.toBool]
  rw [herror, hok, not_and_or]
  simp

/-- A restore under a version that does not match is blocked exactly if it lacks the passphrase, or
one of its checks and steps before the replay fails. -/
theorem blocks_iff (start : Start) :
    Blocks setup env start ↔ ∀ request, start.request env = .ok request →
      request.manifest.schemaVersionMatches ∨
        (request.manifest.encrypted ∧ request.passphrase = none) ∨
        ∃ work ∈ needed request, env work = false := by
  simp only [← prepare_eq_error_iff setup]
  constructor
  · intro h request hrequest
    cases hversion : request.manifest.schemaVersionMatches with
    | true => exact .inl rfl
    | false =>
      obtain ⟨hreplayed, hresult⟩ := h.otherwise request hrequest hversion
      cases hprepare : prepare setup env request with
      | error failure => exact .inr ⟨failure, rfl⟩
      | ok replays =>
        have hbind : (start.request env).bind (prepare setup env) = .ok replays := by
          rwa [hrequest]
        rw [restore, hbind] at hreplayed hresult
        cases replays with
        | true => cases hreplayed.symm
        | false => cases hresult.symm
  · intro h
    constructor
    · intro hreplayed
      cases hrequest : start.request env with
      | error =>
        rw [hrequest] at hreplayed
        cases hreplayed
      | ok request =>
        rcases h request hrequest with hversion | ⟨failure, hprepare⟩
        · exact ⟨request, rfl, hversion⟩
        · rw [restore, hrequest, Except.bind, hprepare] at hreplayed
          cases hreplayed
    · intro request hrequest hversion
      rcases h request hrequest with hmatches | ⟨failure, hprepare⟩
      · cases hversion.symm.trans hmatches
      · rw [restore, hrequest, Except.bind, hprepare]
        exact ⟨rfl, rfl⟩

/-- A verified backup with a manifest of version 2, restored by the form and from the command
line. -/
theorem replayed_of_unknown_version :
    ¬ Blocks ⟨fun _ => "", fun _ => none, id⟩ (fun _ => true)
        (.page ⟨true, "RESTORE", [], false, true⟩
          (some ⟨none, some "b.tar.zst", some ⟨2, false, [.database]⟩, some .deepPassed⟩)) ∧
      ¬ Blocks ⟨fun _ => "", fun _ => none, id⟩ (fun _ => true)
        (.command "b.tar.zst" none (.ok ⟨2, false, [.database]⟩)) := by
  constructor
  · intro h
    exact absurd (h.otherwise _ rfl rfl).1 (by decide)
  · intro h
    exact absurd (h.otherwise _ rfl rfl).1 (by decide)

end Abyssal.Reliquary.Version
