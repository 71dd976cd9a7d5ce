import Abyssal.Resumption.Handler
import Abyssal.Text.Basic

/-!
# Backups and restores

A backup dumps the database under a named lock. A restore makes a backup of its own, enters
maintenance mode, which is one flag of the process, replays an archive, and leaves maintenance mode
on every way out. All of them run at once. A page can be dropped at any point, which clears the mode
if it was a restore. The lock belongs to a connection and stays with it if it is not released.
-/

namespace Abyssal.Reliquary

open Resumption Resumption.Handler Function

/-! ## What is stored -/

abbrev JobId := ℕ

abbrev ConnectionId := ℕ

inductive BackupComponent where
  | database | configuration | encryptionKeys | auditLogs
  deriving DecidableEq

inductive BackupStatus where
  | queued | running | succeeded | failed | verifying | verified | cancelled
  deriving DecidableEq

inductive VerificationStatus where
  | quickPassed | quickFailed | deepPassed | deepFailed
  deriving DecidableEq

def VerificationStatus.isPassing : VerificationStatus → Bool
  | quickPassed | deepPassed => true
  | quickFailed | deepFailed => false

structure BackupManifest where
  encrypted : Bool
  deriving DecidableEq

structure BackupOutcome where
  fileName : String
  manifest : BackupManifest

structure BackupJob where
  status : BackupStatus
  destinationConnectionId : Option ConnectionId
  fileName : Option String
  manifest : Option BackupManifest
  errorMessage : Option String
  verificationStatus : Option VerificationStatus
  deriving DecidableEq

inductive Mark where
  | running
  | succeeded (outcome : BackupOutcome)
  | failed (message : String)
  | cancelled

def Mark.apply (job : BackupJob) : Mark → BackupJob
  | running => { job with status := .running }
  | succeeded outcome =>
    { job with
      status := .succeeded
      fileName := some outcome.fileName
      manifest := some outcome.manifest }
  | failed message => { job with status := .failed, errorMessage := some message }
  | cancelled => { job with status := .cancelled }

/-! ## What requests do -/

inductive Phase where
  | idle
  /-- It has the lock. -/
  | locked
  /-- It has the lock, and a dump is running. -/
  | dumping
  /-- It is in a restore. -/
  | restoring
  /-- It is in a restore, and the dump is being replayed. -/
  | replaying
  /-- It was dropped. -/
  | gone
  deriving DecidableEq

def Phase.isRestore : Phase → Bool
  | restoring | replaying => true
  | _ => false

def Phase.hasLock : Phase → Bool
  | locked | dumping => true
  | _ => false

/-- The flag of maintenance mode, who has the lock, the jobs, and what each request is doing. -/
structure Server (ι : Type) where
  maintenance : Bool
  lock : List ι
  jobs : JobId → Option BackupJob
  phase : ι → Phase

/-- What happens besides: jobs change in any way, a request is dropped, or the connection that has
the lock is lost. -/
inductive Change (ι : Type) where
  | jobs (jobs : JobId → Option BackupJob)
  | drop (i : ι)
  | loseConnection

/-- Steps that read and write files, ask the database for one thing or run a program. -/
inductive Work where
  | resolveDestination | acquireConnection | createWorkDir | parseDatabaseUrl | findDumpProgram
  | writeDefaultsFile | startDump | readDump | readServerMetadata | notCancelled
  | writeConfiguration | readEncryptionKey | writeEncryptionKeys | readMigrationVersion
  | writeManifest | buildArchive | encryptArchive | hashArchive | storeArchive
  | readDatabaseUrl | archiveIsFile | decryptArchive | extractArchive | dumpIsFile
  | findClientProgram | startClient | writeReplay | removeWorkDir | recordAudit
  deriving DecidableEq

inductive Op (ι : Type) where
  | findJob (id : JobId)
  | createJob (id : JobId) (job : BackupJob)
  | markJob (id : JobId) (mark : Mark)
  | work (work : Work)
  | getLock
  | releaseLock
  | beginDump
  | endDump
  | enter
  | leave
  | beginReplay
  | endReplay
  | elsewhere (change : Change ι)

variable {ι : Type}

abbrev Op.Answer : Op ι → Type
  | findJob _ => Option BackupJob
  | getLock => Bool
  | _ => Unit

/-- How an operation ends, and whether the connection that a request is handed is the one that has
the lock. -/
structure Choice where
  outcome : Outcome
  sameConnection : Bool

/-- How the operation ends. Some cannot fail, and a program that could not be started does not
run. -/
def Op.outcome (c : Choice) : Op ι → Outcome
  | enter | leave | endDump | endReplay | releaseLock | elsewhere _ => .done
  | getLock | beginDump | beginReplay => if c.outcome = .done then .done else .failed
  | _ => c.outcome

namespace Server

variable [DecidableEq ι] (s : Server ι)

def setPhase (i : ι) (phase : Phase) : Server ι :=
  { s with phase := update s.phase i phase }

/-- What happened besides. The guard of a restore that is dropped clears the flag. -/
def change : Change ι → Server ι
  | .jobs jobs => { s with jobs }
  | .drop i => { s.setPhase i .gone with maintenance := s.maintenance && !(s.phase i).isRestore }
  | .loseConnection => { s with lock := [] }

/-- The lock can be taken: it is free, or the connection that has it was given back and is handed
out again. -/
def lockable (c : Choice) : Bool :=
  s.lock.isEmpty || c.sameConnection && s.lock.all fun i => !(s.phase i).hasLock

end Server

variable [DecidableEq ι]

def Op.perform (i : ι) (c : Choice) (s : Server ι) :
    (op : Op ι) → Option (Server ι × op.Answer)
  | findJob id => some (s, s.jobs id)
  | createJob id job =>
    match s.jobs id with
    | some _ => none
    | none => some ({ s with jobs := update s.jobs id (some job) }, ())
  | markJob id mark =>
    some ({ s with jobs := update s.jobs id ((s.jobs id).map mark.apply) }, ())
  | work _ => some (s, ())
  | getLock =>
    if s.lockable c then some ({ s.setPhase i .locked with lock := i :: s.lock }, true)
    else some (s, false)
  | releaseLock =>
    -- A failure is ignored; the lock then stays with the connection.
    let lock := if c.outcome = .failed then s.lock else s.lock.erase i
    some ({ s.setPhase i .idle with lock }, ())
  | beginDump => some (s.setPhase i .dumping, ())
  | endDump => some (s.setPhase i .locked, ())
  | enter => some ({ s.setPhase i .restoring with maintenance := true }, ())
  | leave => some ({ s.setPhase i .idle with maintenance := false }, ())
  | beginReplay => some (s.setPhase i .replaying, ())
  | endReplay => some (s.setPhase i .restoring, ())
  | elsewhere change => some (s.change change, ())

/-- An operation of request `i`. A request that was dropped performs none. -/
def exec (i : ι) (op : Op ι) (c : Choice) (s : Server ι) : Option (Server ι × Option op.Answer) :=
  if s.phase i = .gone then none
  else some (settle (op.outcome c) s (op.perform i c s))

/-! ## Backups -/

inductive Failure where
  | config (message : String)
  | restore (message : String)
  | cancelled
  | database
  | step (work : Work)
  | validation (message : String)
  | notFound

abbrev Routine (ι : Type) := Handler (Op ι) Op.Answer Failure

def execute (failure : Failure) (op : Op ι) : Routine ι op.Answer := query failure op

def tryTo (op : Op ι) : Routine ι (Option op.Answer) := attempt op

def step (work : Work) : Routine ι Unit := execute (.step work) (.work work)

def checkCancelled : Routine ι Unit := execute .cancelled (.work .notCancelled)

/-- Runs `f` if the lock is free, and releases it however `f` ends. -/
def withBackupLock {α : Type} (f : Routine ι α) : Routine ι (Option α) := do
  step .acquireConnection
  let acquired ← execute .database .getLock
  if acquired then
    let result ← catching f
    let _ ← tryTo .releaseLock
    let value ← ofExcept result
    return some value
  else
    return none

def dumpDatabase : Routine ι Unit := do
  execute (.config ("neither mariadb-dump nor mysqldump was found on PATH -- install " ++
    "mariadb-client in the runtime image")) (.work .findDumpProgram)
  step .writeDefaultsFile
  during (.step .startDump) .beginDump .endDump (step .readDump)

structure BackupRequest where
  components : List BackupComponent
  encrypt : Bool
  passphrase : Option Text

def archiveName (backupId : String) (encrypt : Bool) : String :=
  "backup-" ++ backupId ++ ".tar.zst" ++ if encrypt then ".enc" else ""

def create (backupId : String) (request : BackupRequest) : Routine ι BackupOutcome := do
  step .createWorkDir
  onlyIf (request.components.contains .database) do
    step .parseDatabaseUrl
    dumpDatabase
    step .readServerMetadata
  checkCancelled
  onlyIf (request.components.contains .configuration) (step .writeConfiguration)
  onlyIf (request.components.contains .encryptionKeys) do
    execute (.config ("ENCRYPTION_KEY component was requested but ENCRYPTION_KEY isn't set in " ++
      "this environment")) (.work .readEncryptionKey)
    step .writeEncryptionKeys
  checkCancelled
  step .readMigrationVersion
  step .writeManifest
  step .buildArchive
  onlyIf request.encrypt do
    let _ ← found (.config "encryption was requested but no passphrase was given")
      request.passphrase
    step .encryptArchive
  step .hashArchive
  step .storeArchive
  return ⟨archiveName backupId request.encrypt, ⟨request.encrypt⟩⟩

structure RunBackupOptions where
  jobId : JobId
  backupId : String
  destinationConnectionId : Option ConnectionId
  request : BackupRequest

/-- How failures read, how ids of connections are read, and where the archives are. -/
structure Setup where
  describe : Failure → String
  parseConnectionId : Text → Option ConnectionId
  resolve : String → String

variable (setup : Setup)

def finalMark : Except Failure (Option BackupOutcome) → Mark
  | .ok (some outcome) => .succeeded outcome
  | .ok none => .failed "another backup or restore was already in progress -- try again shortly"
  | .error .cancelled => .cancelled
  | .error failure => .failed (setup.describe failure)

def runBackup (options : RunBackupOptions) : Routine ι JobId := do
  let includesKeys := options.request.components.contains .encryptionKeys
  check (¬(includesKeys && !options.request.encrypt) = true)
    (.config "backups that include encryption keys must be encrypted")
  execute .database (.createJob options.jobId
    ⟨.queued, options.destinationConnectionId, none, none, none, none⟩)
  let outcome ← catching (withBackupLock do
    execute .database (.markJob options.jobId .running)
    create options.backupId options.request)
  execute .database (.markJob options.jobId (finalMark setup outcome))
  return options.jobId

/-! ## Restores -/

def restoreDatabase : Routine ι Unit := do
  execute (.config ("neither mariadb nor mysql was found on PATH -- install mariadb-client in " ++
    "the runtime image")) (.work .findClientProgram)
  step .writeDefaultsFile
  during (.step .startClient) .beginReplay .endReplay (step .writeReplay)

structure RestoreRequest where
  fileName : String
  manifest : BackupManifest
  components : List BackupComponent
  passphrase : Option Text

def restoreArchive (request : RestoreRequest) : Routine ι Unit := do
  execute (.restore ("archive file is missing: " ++ setup.resolve request.fileName))
    (.work .archiveIsFile)
  step .createWorkDir
  onlyIf request.manifest.encrypted do
    let _ ← found (.restore "this backup is encrypted -- a passphrase is required to restore it")
      request.passphrase
    step .decryptArchive
  checkCancelled
  step .extractArchive
  onlyIf (request.components.contains .database) do
    execute (.restore "archive has no db.sql -- was it created without the Database component?")
      (.work .dumpIsFile)
    step .parseDatabaseUrl
    restoreDatabase

def restore (request : RestoreRequest) : Routine ι Unit :=
  during .database .enter .leave (restoreArchive setup request)

/-! ## What starts them -/

inductive Response where
  | page (notice error : Option String)
  | restored

structure CreateBackupForm where
  database : Bool
  configuration : Bool
  encryptionKeys : Bool
  auditLogs : Bool
  encrypt : Bool
  passphrase : Text
  passphraseConfirm : Text
  destinationConnectionId : Text

variable (form : CreateBackupForm)

def CreateBackupForm.components : List BackupComponent :=
  (if form.database then [.database] else []) ++
    (if form.configuration then [.configuration] else []) ++
    (if form.encryptionKeys then [.encryptionKeys] else []) ++
    if form.auditLogs then [.auditLogs] else []

def CreateBackupForm.error? : Option String :=
  if form.components.isEmpty then some "Select at least one component to back up."
  else if form.encryptionKeys && !form.encrypt then
    some ("Including encryption keys requires encrypting the backup -- check \"Encrypt this " ++
      "backup\" too.")
  else if form.encrypt && form.passphrase.isEmpty then
    some "A passphrase is required to encrypt this backup."
  else if form.encrypt && form.passphrase != form.passphraseConfirm then
    some "Passphrase and confirmation don't match."
  else if form.encrypt && Text.byteLength form.passphrase < 12 then
    some "Passphrase must be at least 12 characters."
  else none

/-- The destination that was selected; none is the local one. -/
def CreateBackupForm.destination : Option (Option ConnectionId) :=
  let id := Text.trim form.destinationConnectionId
  if id.isEmpty then some none else (setup.parseConnectionId id).map some

def backupPage (job : Option BackupJob) : Response :=
  if job.any fun job => job.status = .succeeded then .page (some "Backup completed.") none
  else .page none (some ((job.bind (·.errorMessage)).getD "Backup failed."))

def createPage (jobId : JobId) (backupId : String) : Routine ι Response :=
  match form.error?, form.destination setup with
  | some message, _ => return .page none (some message)
  | none, none => return .page none (some "Not a valid destination.")
  | none, some destination => do
    match ← catching (step .resolveDestination) with
    | .error failure =>
      return .page none
        (some ("That destination isn't usable right now: " ++ setup.describe failure))
    | .ok () =>
      let passphrase := if form.encrypt then some form.passphrase else none
      let id ← runBackup setup
        ⟨jobId, backupId, destination, form.components, form.encrypt, passphrase⟩
      let job ← execute .database (.findJob id)
      step .recordAudit
      return backupPage job

structure RestoreForm where
  confirm : Bool
  confirmText : Text
  passphrase : Text
  overrideUnverified : Bool
  database : Bool

/-- The page that starts a restore, after a backup of what is there. -/
def restorePage (id : JobId) (form : RestoreForm) (safetyId : JobId)
    (safetyBackupId : String) : Routine ι Response := do
  check ((form.confirm && Text.trim form.confirmText == "RESTORE") = true)
    (.validation "Type RESTORE to confirm this destructive action.")
  let job ← execute .database (.findJob id)
  let job ← found .notFound job
  check (job.destinationConnectionId.isNone = true) (.validation
    ("This backup was written to a Sepulchre connection -- downloading, verifying, and " ++
      "restoring from a Sepulchre-backed destination isn't supported yet, only writing to " ++
      "one. See docs/sepulchre.md."))
  let manifest ← found
    (.validation "This backup has no manifest -- it can't be restored.") job.manifest
  check ((job.verificationStatus.any (·.isPassing) || form.overrideUnverified) = true) (.validation
    "This backup hasn't been verified. Verify it first, or explicitly override.")
  check (form.database = true) (.validation "Select at least one component to restore.")
  step .resolveDestination
  let _ ← catching (runBackup setup
    ⟨safetyId, safetyBackupId, none, [.database], false, none⟩)
  step .readDatabaseUrl
  let passphrase := if form.passphrase.isEmpty then none else some form.passphrase
  let result ← catching (restore setup
    ⟨job.fileName.getD "", manifest, [.database], passphrase⟩)
  let _ ← tryTo (.work .removeWorkDir)
  step .recordAudit
  match result with
  | .ok () => return .restored
  | .error failure => throw (.validation ("Restore failed: " ++ setup.describe failure))

structure Schedule where
  enabled : Bool
  intervalHours : ℕ
  due : Bool
  includeAuditLogs : Bool
  destination : Option ConnectionId

def scheduledRun (schedule : Schedule) (jobId : JobId) (backupId : String) : Routine ι Unit :=
  onlyIf (schedule.enabled && schedule.intervalHours != 0 && schedule.due) do
    step .resolveDestination
    let components := [.database, .configuration] ++
      if schedule.includeAuditLogs then [.auditLogs] else []
    let _ ← catching (runBackup setup
      ⟨jobId, backupId, schedule.destination, components, false, none⟩)

end Abyssal.Reliquary
