import Abyssal.Hosts.Registry
import Abyssal.Resumption.Handler
import Abyssal.Table.Keyed
import Abyssal.Text.Basic

/-!
# Enrollment of agents

Install tokens have a form of their own, can be used by any number of hosts, and never replace a
host. All others are rows of one table: single-use tokens, those for the control plane's own server,
and reusable deployment tokens. With one of these a host under the name that is not connected is
replaced. The handler executes one statement after the other, and goes on after some failures.
-/

namespace Abyssal.Hosts.Enrollment

open Resumption Resumption.Handler List Function

/-! ## What is stored -/

structure EnrollmentToken where
  id : ℕ
  reusable : Bool
  controlPlane : Bool
  expiresAt : ℕ
  usedAt : Option ℕ
  revokedAt : Option ℕ
  useCount : ℕ
  deriving DecidableEq

namespace EnrollmentToken

def usable (t : EnrollmentToken) (now : ℕ) : Bool :=
  t.revokedAt.isNone && now < t.expiresAt && (t.reusable || t.usedAt.isNone)

def spend (t : EnrollmentToken) (now : ℕ) : EnrollmentToken :=
  { t with
    useCount := t.useCount + 1
    usedAt := if t.reusable then t.usedAt else some now }

end EnrollmentToken

structure InstallToken where
  id : ℕ
  label : String
  requireApproval : Bool
  expiresAt : Option ℕ
  revokedAt : Option ℕ
  useCount : ℕ
  lastUsedAt : Option ℕ

def InstallToken.isActive (t : InstallToken) (now : ℕ) : Bool :=
  t.revokedAt.isNone && t.expiresAt.all (now < ·)

inductive Via where
  | defaultToken | installToken | deploymentToken | enrollmentToken | controlPlane
  deriving DecidableEq

structure HostRow where
  id : HostId
  name : String
  credentialHash : String
  pendingApproval : Bool
  isControlPlane : Bool
  enrolledVia : Option Via
  enrolledViaTokenId : Option ℕ
  deriving DecidableEq

structure HostTable where
  rows : List HostRow
  nodup_id : (rows.map (·.id)).Nodup

namespace HostTable

variable (t : HostTable)

def findById (id : HostId) : Option HostRow := t.rows.find? (·.id = id)

def findByName (sameName : String → String → Bool) (name : String) : Option HostRow :=
  t.rows.find? fun row => sameName row.name name

def insert (sameName : String → String → Bool) (row : HostRow) : Option HostTable :=
  if h : t.rows.any (fun r => r.id = row.id) = true then none
  else if t.rows.any (fun r => sameName r.name row.name || r.credentialHash = row.credentialHash)
  then none
  else some ⟨row :: t.rows, by
    refine nodup_cons.2 ⟨fun hmem => h ?_, t.nodup_id⟩
    simpa using hmem⟩

def delete (id : HostId) : HostTable :=
  ⟨t.rows.filter (·.id ≠ id), t.nodup_id.sublist (filter_sublist.map _)⟩

def update (f : HostRow → HostRow) (hf : ∀ row, (f row).id = row.id) (id : HostId) : HostTable :=
  ⟨Table.modify (·.id) f id t.rows, by
    rw [Table.map_key_modify hf]
    exact t.nodup_id⟩

def setEnrolledVia (id : HostId) (via : Via) (tokenId : Option ℕ) : HostTable :=
  t.update (fun row => { row with enrolledVia := some via, enrolledViaTokenId := tokenId })
    (fun _ => rfl) id

def setControlPlane (id : HostId) (flag : Bool) : HostTable :=
  t.update (fun row => { row with isControlPlane := flag }) (fun _ => rfl) id

theorem findById_of_insert {t t' : HostTable} {sameName : String → String → Bool} {row : HostRow}
    (h : t.insert sameName row = some t') :
    t.findById row.id = none ∧ t'.findById row.id = some row := by
  rw [insert] at h
  split_ifs at h with hid
  cases h
  constructor
  · simpa [findById, find?_eq_none] using hid
  · exact find?_cons_of_pos (by simp)

end HostTable

inductive AuditEvent where
  | hostRemoved (name : String) (previousHostId : HostId)
  | hostEnrolled (name : String) (via : Via) (tokenId : Option ℕ) (tokenLabel : Option String)
      (pendingApproval controlPlane : Bool)

/-- The database, with tokens under their hashes, and the registry. `aat` is the default install
token. -/
structure Server (Operation : Type) where
  now : ℕ
  tokens : String → Option EnrollmentToken
  installTokens : String → Option InstallToken
  aat : Option Text
  requireApproval : Option Bool
  hosts : HostTable
  audit : List AuditEvent
  registry : Hosts.State Operation

/-- The hash of tokens, how stored tokens are decrypted if there is a key, and the collation. -/
structure Setup where
  hashToken : Text → String
  decrypt : Option (Text → Option Text)
  sameName : String → String → Bool

/-! ## Statements -/

/-- What others do meanwhile. -/
inductive Change (Operation : Type) where
  | surroundings (now : ℕ) (installTokens : String → Option InstallToken)
      (aat : Option Text) (requireApproval : Option Bool) (hosts : HostTable)
      (registry : Hosts.State Operation)
  | mint (tokenHash : String) (id expiresAt : ℕ) (controlPlane : Bool)
  | revoke (id : ℕ)

inductive Op (Operation : Type) where
  | readAat
  | readRequireApproval
  | findActiveInstallToken (tokenHash : String)
  | consume (tokenHash : String)
  | kind (tokenHash : String)
  | findByName (name : String)
  | findById (id : HostId)
  | insertHost (row : HostRow)
  | deleteHost (id : HostId)
  | setEnrolledVia (id : HostId) (via : Via) (tokenId : Option ℕ)
  | recordUse (id : ℕ)
  | updateControlPlane (id : HostId) (flag : Bool)
  | recordAudit (event : AuditEvent)
  | isConnected (id : HostId)
  | setControlPlane (id : HostId) (flag : Bool)
  | elsewhere (change : Change Operation)

structure TokenKind where
  id : ℕ
  reusable : Bool
  controlPlane : Bool

variable {Operation : Type}

abbrev Op.Answer : Op Operation → Type
  | readAat => Option Text
  | readRequireApproval => Bool
  | findActiveInstallToken _ => Option InstallToken
  | consume _ => Bool
  | kind _ => Option TokenKind
  | findByName _ | findById _ => Option HostRow
  | updateControlPlane .. => Bool
  | isConnected _ => Bool
  | insertHost _ | deleteHost _ | setEnrolledVia .. | recordUse _ | recordAudit _
  | setControlPlane .. | elsewhere _ => Unit

def Op.isDatabase : Op Operation → Bool
  | isConnected _ | setControlPlane .. | elsewhere _ => false
  | _ => true

namespace Server

variable (s : Server Operation)

def change : Change Operation → Server Operation
  | .surroundings now installTokens aat requireApproval hosts registry =>
    { s with now, installTokens, aat, requireApproval, hosts, registry }
  | .mint tokenHash id expiresAt controlPlane =>
    match s.tokens tokenHash with
    | some _ => s
    | none =>
      { s with
        tokens := update s.tokens tokenHash
          (some ⟨id, false, controlPlane, expiresAt, none, none, 0⟩) }
  | .revoke id =>
    { s with
      tokens := fun h => (s.tokens h).map fun t =>
        if t.id = id ∧ t.revokedAt = none then { t with revokedAt := some s.now } else t }

/-- `UPDATE host_enrollment_tokens`: the token is spent if it is usable. -/
def consume (tokenHash : String) : Server Operation × Bool :=
  match s.tokens tokenHash with
  | none => (s, false)
  | some t =>
    if t.usable s.now then
      ({ s with tokens := update s.tokens tokenHash (some (t.spend s.now)) }, true)
    else (s, false)

end Server

/-- The server after a statement and its answer, unless a key forbids it. -/
def Op.perform (sameName : String → String → Bool) (s : Server Operation) :
    (op : Op Operation) → Option (Server Operation × op.Answer)
  | readAat => some (s, s.aat)
  | readRequireApproval => some (s, s.requireApproval.getD false)
  | findActiveInstallToken h => some (s, (s.installTokens h).filter (·.isActive s.now))
  | consume h => some (s.consume h)
  | kind h => some (s, (s.tokens h).map fun t => ⟨t.id, t.reusable, t.controlPlane⟩)
  | findByName name => some (s, s.hosts.findByName sameName name)
  | findById id => some (s, s.hosts.findById id)
  | insertHost row => (s.hosts.insert sameName row).map fun hosts => ({ s with hosts }, ())
  | deleteHost id => some ({ s with hosts := s.hosts.delete id }, ())
  | setEnrolledVia id via tokenId =>
    some ({ s with hosts := s.hosts.setEnrolledVia id via tokenId }, ())
  | recordUse id =>
    some ({ s with
      installTokens := fun h => (s.installTokens h).map fun t =>
        if t.id = id then { t with useCount := t.useCount + 1, lastUsedAt := some s.now }
        else t }, ())
  | updateControlPlane id flag =>
    -- A row that has the value already is not counted as affected.
    some ({ s with hosts := s.hosts.setControlPlane id flag },
      (s.hosts.findById id).any fun row => row.isControlPlane != flag)
  | recordAudit event => some ({ s with audit := event :: s.audit }, ())
  | isConnected id => some (s, (s.registry.connections id).isSome)
  | setControlPlane id flag =>
    some ({ s with
      registry := { s.registry with
        controlPlane := update s.registry.controlPlane id flag } }, ())
  | elsewhere c => some (s.change c, ())

/-- A statement with its outcome; no answer means that the handler is told of an error. The
registry always answers. -/
def respond (sameName : String → String → Bool) (op : Op Operation) (c : Outcome)
    (s : Server Operation) : Server Operation × Option op.Answer :=
  settle (if op.isDatabase then c else .done) s (op.perform sameName s)

/-! ## The handler -/

inductive Failure where
  | unauthorized (message : String)
  | conflict (message : String)
  | internal
  | unavailable (message : String)

abbrev Page (Operation : Type) := Handler (Op Operation) Op.Answer Failure

def execute (failure : Failure) (op : Op Operation) : Page Operation op.Answer := query failure op

def tryTo (op : Op Operation) : Page Operation (Option op.Answer) := attempt op

structure Request where
  token : Text
  name : String
  hostId : HostId
  credential : Text

structure Response where
  hostId : HostId
  credential : Text

structure Grant where
  viaAat : Bool
  pendingApproval : Bool
  isControlPlane : Bool
  enrolledVia : Via
  tokenId : Option ℕ
  tokenLabel : Option String

def aatPrefix : Text := ['A', 'A', 'T', '1', '-']

def isAat (token : Text) : Bool :=
  aatPrefix.isPrefixOf token && token.length != aatPrefix.length

def encryptedPrefix : Text := ['e', 'n', 'c', ':', 'v', '1', ':']

section Handler

variable (setup : Setup)

/-- The default install token as it was before it was stored; an error if that cannot be told. -/
def unsealed (stored : Text) : Except Unit (Option Text) :=
  if encryptedPrefix.isPrefixOf stored then
    match setup.decrypt.bind (· (stored.drop encryptedPrefix.length)) with
    | none => .error ()
    | some aat => .ok (if isAat aat then some aat else none)
  else .ok (if isAat stored then some stored else none)

def aatUnavailable : Failure :=
  .unavailable ("this control plane can't read its agent install token (AAT) -- an admin must " ++
    "rotate it on /admin/hosts")

variable (token : Text)

def matchesDefault : Page Operation Bool := do
  match ← execute aatUnavailable .readAat with
  | none => return false
  | some stored =>
    match unsealed setup stored with
    | .error () => throw aatUnavailable
    | .ok none => return false
    | .ok (some aat) => return setup.hashToken aat = setup.hashToken token

def authorizeInstall : Page Operation Grant := do
  if ← matchesDefault setup token then
    let required ← execute .internal .readRequireApproval
    return ⟨true, required, false, .defaultToken, none, none⟩
  else
    match ← execute aatUnavailable (.findActiveInstallToken (setup.hashToken token)) with
    | some t => return ⟨true, t.requireApproval, false, .installToken, some t.id, some t.label⟩
    | none =>
      throw (.unauthorized ("invalid install token -- it may have been rotated, revoked or have " ++
        "expired; copy a current one from /admin/hosts"))

/-- What an enrollment token allows, given its kind if that could be read. -/
def grantOfKind (kind : Option TokenKind) : Grant :=
  let isControlPlane := kind.any (·.controlPlane)
  { viaAat := false
    pendingApproval := false
    isControlPlane
    enrolledVia :=
      if isControlPlane then .controlPlane
      else if kind.any (·.reusable) then .deploymentToken
      else .enrollmentToken
    tokenId := kind.map (·.id)
    tokenLabel := none }

def authorizeEnrollment : Page Operation Grant := do
  if ← execute .internal (.consume (setup.hashToken token)) then
    -- A failure to read the kind counts as a token of no special kind.
    let kind ← tryTo (.kind (setup.hashToken token))
    return grantOfKind (kind.getD none)
  else
    throw (.unauthorized "invalid, expired, or already-used enrollment token")

def authorize : Page Operation Grant :=
  if isAat token then authorizeInstall setup token else authorizeEnrollment setup token

/-- A host that has the name is replaced, unless it is connected or the token is an install
token. -/
def makeRoom (viaAat : Bool) (name : String) : Page Operation Unit := do
  match ← execute .internal (.findByName name) with
  | none => return ()
  | some existing =>
    if ← execute .internal (.isConnected existing.id) then
      throw (.conflict ("a host named \"" ++ existing.name ++
        "\" is already connected -- remove " ++
        "it from /admin/hosts first if you want to re-enroll a different machine under this name"))
    else if viaAat then
      throw (.conflict ("a host named \"" ++ existing.name ++ "\" is already enrolled -- remove " ++
        "it from /admin/hosts first to re-enroll this machine with the install token"))
    else
      execute .internal (.deleteHost existing.id)
      let _ ← tryTo (.recordAudit (.hostRemoved existing.name existing.id))

def createHost (req : Request) (pendingApproval : Bool) : Page Operation HostRow := do
  execute .internal (.insertHost ⟨req.hostId, req.name, setup.hashToken req.credential,
    pendingApproval, false, none, none⟩)
  found .internal (← execute .internal (.findById req.hostId))

def recordOrigin (id : HostId) (grant : Grant) : Page Operation Unit := do
  let _ ← tryTo (.setEnrolledVia id grant.enrolledVia grant.tokenId)
  match grant.tokenId, grant.enrolledVia with
  | some tokenId, .installToken => let _ ← tryTo (.recordUse tokenId)
  | _, _ => return ()

/-- Sets the flag in the database, and tells whether there is such a host, unless a statement
failed. -/
def storeControlPlane (id : HostId) (flag : Bool) : Page Operation (Option Bool) := do
  match ← tryTo (.updateControlPlane id flag) with
  | none => return none
  | some true => return some true
  | some false => return (← tryTo (.findById id)).map (·.isSome)

/-- Flags the host in the database and in the registry. If the database fails, it is deleted again.
-/
def flagControlPlane (id : HostId) : Page Operation Unit := do
  match ← storeControlPlane id true with
  | none =>
    let _ ← tryTo (.deleteHost id)
    throw .internal
  | some _ => execute .internal (.setControlPlane id true)

def confirm (req : Request) (grant : Grant) (host : HostRow) : Page Operation Response := do
  let _ ← tryTo (.recordAudit (.hostEnrolled host.name grant.enrolledVia grant.tokenId
    grant.tokenLabel grant.pendingApproval grant.isControlPlane))
  return ⟨host.id, req.credential⟩

def enroll (req : Request) : Page Operation Response := do
  let grant ← authorize setup req.token
  makeRoom grant.viaAat req.name
  let host ← createHost setup req grant.pendingApproval
  recordOrigin host.id grant
  if grant.isControlPlane then flagControlPlane host.id
  confirm req grant host

end Handler

/-! ## A server -/

def plainSetup : Setup := ⟨String.ofList, none, fun a b => decide (a = b)⟩

def serverWith (tokenHash : String) (token : EnrollmentToken) (hosts : HostTable) :
    Server Unit where
  now := 0
  tokens := update (fun _ => none) tokenHash (some token)
  installTokens _ := none
  aat := none
  requireApproval := none
  hosts := hosts
  audit := []
  registry := .new ⟨∅, none⟩

end Abyssal.Hosts.Enrollment
