import Abyssal.Files.Archive
import Abyssal.Machine.Guarded
import Abyssal.Text.Basic
import Mathlib.Data.List.Sort

/-!
# The agent updates itself

The agent runs as root. It downloads an archive, unpacks it in a directory of a fixed name for
temporary files, copies the binary from there, asks the copy for its version and renames it. The
hash is taken of the bytes in memory. Between any two operations, an unprivileged user may do in the
temporary directory what it has the right to do there: it can own the directory, since making it is
content with one that is there, or what `tar` extracts under the owners recorded in the archive.
-/

namespace Abyssal.Agent.SelfUpdate

open Files Text Option

/-! ### Versions and hashes -/

def isPlausibleVersion (version : Text) : Bool :=
  !version.isEmpty && byteLength version ≤ 64 && (splitAtText ".." version).isNone &&
    version.all fun c => isAsciiAlphanumeric c || c = '.' || c = '-' || c = '+'

def trimV (version : Text) : Text := version.dropWhile fun c => c = 'v'

/-- `parse_version`: three numbers, after which anything may follow a hyphen or a plus sign. -/
def parseVersion (version : Text) : Option (ℕ × ℕ × ℕ) :=
  let core := (trimV (trim version)).takeWhile fun c => !(c = '-' || c = '+')
  match splitOn '.' core with
  | [major, minor, patch] => do
    some (← parseU64 major, ← parseU64 minor, ← parseU64 patch)
  | _ => none

/-- `is_downgrade`: both can be read and the target is older. -/
def isDowngrade (running target : Text) : Bool :=
  match parseVersion running, parseVersion target with
  | some (major, minor, patch), some (major', minor', patch') =>
    major' < major || major' = major && (minor' < minor || minor' = minor && patch' < patch)
  | _, _ => false

def isSha256Hex (value : Text) : Bool :=
  byteLength value = 64 &&
    value.all fun c => isAsciiDigit c || ('a' ≤ c && c ≤ 'f') || ('A' ≤ c && c ≤ 'F')

def parseVersionOutput (stdout : Text) : Option Text := do
  let line ← (lines stdout).head?
  let version ← (words line).getLast?
  let _ ← parseVersion version
  some (trimV version)

/-! ### The search for the binary -/

def nameLe : Text → Text → Bool
  | [], _ => true
  | _ :: _, [] => false
  | a :: s, b :: t => if a = b then nameLe s t else a.toNat < b.toNat

variable {B : Type}

def subdirs (dir : Node ℕ Text B) : List Text :=
  ((dir.entries.filter fun e => e.2.isDir).map Prod.fst).insertionSort fun a b => nameLe a b = true

/-- `find_binary`: the path of the first file with the name, at most so many levels down. -/
def findBinary (name : Text) : ℕ → Node ℕ Text B → Option (List Text)
  | 0, dir => if (dir.read [name]).isSome then some [name] else none
  | depth + 1, dir =>
    if (dir.read [name]).isSome then some [name]
    else (subdirs dir).findSome? fun sub =>
      (dir.child sub).bind fun d => (findBinary name depth d).map (sub :: ·)

open List

variable {dir : Node ℕ Text B}

theorem mem_subdirs {sub : Text} : sub ∈ subdirs dir ↔ ∃ d, (sub, d) ∈ dir.entries ∧ d.isDir := by
  rw [subdirs, mem_insertionSort, List.mem_map]
  constructor
  · rintro ⟨e, he, rfl⟩
    exact ⟨e.2, (mem_filter.1 he).1, (mem_filter.1 he).2⟩
  · rintro ⟨d, hd, hdir⟩
    exact ⟨(sub, d), mem_filter.2 ⟨hd, hdir⟩, rfl⟩

theorem head_findBinary {name : Text} {depth : ℕ}
    {p : List Text} (h : findBinary name depth dir = some p) :
    ∃ x q, p = x :: q ∧ (x = name ∨ x ∈ subdirs dir) := by
  have hdirect : ∀ {a : Option (List Text)},
      (if (dir.read [name]).isSome then some [name] else a) = some p →
      p = [name] ∨ a = some p := by
    intro a ha
    split_ifs at ha
    · exact .inl (some.inj ha).symm
    · exact .inr ha
  cases depth with
  | zero =>
    rcases hdirect h with rfl | hnone
    · exact ⟨name, [], rfl, .inl rfl⟩
    · exact absurd hnone (some_ne_none p).symm
  | succ =>
    rcases hdirect h with rfl | hsub
    · exact ⟨name, [], rfl, .inl rfl⟩
    · obtain ⟨sub, hmem, hsub⟩ := exists_of_findSome?_eq_some hsub
      obtain ⟨d, -, hd⟩ := bind_eq_some_iff.1 hsub
      obtain ⟨q, -, rfl⟩ := map_eq_some_iff.1 hd
      exact ⟨sub, q, rfl, .inr hmem⟩

section Beside

variable {x name : Text} {owner : ℕ} {content : B} {t t' : Node ℕ Text B}

theorem child_of_mem_subdirs (h : Beside x owner content t t') {sub : Text}
    (hsub : sub ∈ subdirs t) : t.child sub = t'.child sub := by
  obtain ⟨_, hd, hdir⟩ := mem_subdirs.1 hsub
  exact h.child_of_isDir hd hdir

theorem findBinary_beside (h : Beside x owner content t t') (hne : name ≠ x) (depth : ℕ) :
    findBinary name depth t = findBinary name depth t' := by
  have hread : t.read [name] = t'.read [name] := by
    rw [Node.read_cons, Node.read_cons, h.child_of_ne hne]
  cases depth with
  | zero => rw [findBinary, findBinary, hread]
  | succ =>
    have hsubdirs : subdirs t = subdirs t' := by rw [subdirs, subdirs, h.filter_isDir]
    rw [findBinary, findBinary, hread, ← hsubdirs]
    refine if_congr Iff.rfl rfl ?_
    rw [← head?_filterMap, ← head?_filterMap]
    refine congrArg head? (filterMap_congr fun sub hsub => ?_)
    rw [child_of_mem_subdirs h hsub]

theorem read_of_findBinary (h : Beside x owner content t t') (hne : name ≠ x) {depth : ℕ}
    {p : List Text} (hp : findBinary name depth t = some p) : t.read p = t'.read p := by
  obtain ⟨_, _, rfl, hy⟩ := head_findBinary hp
  rw [Node.read_cons, Node.read_cons]
  rcases hy with rfl | hy
  · rw [h.child_of_ne hne]
  · rw [child_of_mem_subdirs h hy]

end Beside

/-! ### Updates -/

/-- The hash, the reading of an archive, and what a binary prints as its version, if it does so in
time. -/
structure Tools (B : Type) where
  sha256Hex : B → Text
  members : B → Option (List (Member ℕ Text B))
  versionOutput : B → Option Text

structure Host where
  version : Text
  arch : Text
  os : Text
  controlPlaneUrl : Option Text

structure Request where
  version : Text
  fromControlPlane : Bool
  sha256 : Option Text

structure PlatformAsset where
  stem : Text

def PlatformAsset.forThisHost (host : Host) (version : Text) : Option PlatformAsset :=
  if host.arch = "x86_64" ∧ host.os = "linux" then
    some ⟨"abyssal-agent-v" ++ version ++ "-x86_64-unknown-linux-gnu"⟩
  else none

def PlatformAsset.archiveName (asset : PlatformAsset) : Text := asset.stem ++ ".tar.gz"

def binaryName : Text := "abyssal-agent"

def root : ℕ := 0

def stagingDir : Text := "abyssal-agent-selfupdate"

variable (tools : Tools B)

/-- `check_new_binary`: the binary answers, and is not older than the agent. -/
def checkNewBinary (host : Host) (binary : B) : Bool :=
  match (tools.versionOutput binary).bind parseVersionOutput with
  | some version => !isDowngrade host.version version
  | none => false

inductive Phase (B : Type) where
  /-- Removing the directory, and making it. -/
  | removing
  | creating
  | downloading
  /-- Writing the archive into the directory. -/
  | writing
  /-- Running `tar`, which reads the archive and has these members still to extract. -/
  | unpacking
  | extracting (todo : List (Member ℕ Text B))
  | finding
  | copying (path : List Text)
  /-- Running the copy. -/
  | checking
  | moving
  /-- Removing the directory in the end. -/
  | clearing
  | done
  | failed

structure Update (B : Type) where
  tmp : Shared ℕ Text B
  asset : PlatformAsset
  bytes : Option B
  staged : Option B
  installed : Option B
  phase : Phase B

inductive Event (B : Type) where
  | intrude (a : Intrusion ℕ Text B)
  | fail
  /-- The directory is removed, or this fails, which nobody looks at. -/
  | remove (removed : Bool)
  | download (bytes : B)
  | proceed

def accepts (host : Host) (request : Request) (bytes : B) : Bool :=
  if request.fromControlPlane then
    match request.sha256.filter isSha256Hex, host.controlPlaneUrl with
    | some expected, some _ =>
      toAsciiLowercase (tools.sha256Hex bytes) = toAsciiLowercase expected
    | _, _ => false
  else true

/-- `run_self_update` up to the first operation on files. -/
def start (host : Host) (request : Request) (tmp : Shared ℕ Text B) : Option (Update B) :=
  if isPlausibleVersion request.version && !isDowngrade host.version request.version then
    (PlatformAsset.forThisHost host request.version).map fun asset =>
      ⟨tmp, asset, none, none, none, .removing⟩
  else none

namespace Update

/-- The operation that comes next is over, or has failed and ended the update. -/
def after (s : Update B) (phase : Phase B) : Option (Shared ℕ Text B) → Update B
  | some tmp => { s with tmp := tmp, phase := phase }
  | none => { s with phase := .failed }

def proceed (host : Host) (s : Update B) : Update B :=
  match s.phase with
  | .creating => s.after .downloading (s.tmp.makeDir root stagingDir)
  | .writing =>
    s.after .unpacking <| s.bytes.bind fun bytes =>
      s.tmp.place root (rewrite root bytes) stagingDir [s.asset.archiveName]
  | .unpacking =>
    match (s.tmp.read stagingDir [s.asset.archiveName]).bind tools.members with
    | some members => { s with phase := .extracting members }
    | none => { s with phase := .failed }
  | .extracting [] => { s with phase := .finding }
  | .extracting (m :: todo) =>
    s.after (.extracting todo) (s.tmp.place root (extract root true m) stagingDir m.path)
  | .finding =>
    match (s.tmp stagingDir).bind fun e => findBinary binaryName 3 e.leads with
    | some path => { s with phase := .copying path }
    | none => { s with phase := .failed }
  | .copying path =>
    match s.tmp.read stagingDir path with
    | some binary => { s with staged := some binary, phase := .checking }
    | none => { s with phase := .failed }
  | .checking =>
    if s.staged.any (checkNewBinary tools host) then { s with phase := .moving }
    else { s with staged := none, phase := .failed }
  | .moving => { s with staged := none, installed := s.staged, phase := .clearing }
  | _ => s

def remove (s : Update B) (removed : Bool) : Update B :=
  let tmp := if removed then Function.update s.tmp stagingDir none else s.tmp
  match s.phase with
  | .removing => { s with tmp := tmp, phase := .creating }
  | .clearing => { s with tmp := tmp, phase := .done }
  | _ => s

def download (host : Host) (request : Request) (s : Update B) (bytes : B) : Update B :=
  match s.phase with
  | .downloading =>
    if accepts tools host request bytes then { s with bytes := some bytes, phase := .writing }
    else { s with phase := .failed }
  | _ => s

end Update

def step (host : Host) (request : Request) (v : ℕ) (s : Update B) :
    Event B → Update B
  | .intrude a => { s with tmp := s.tmp.intrude v a }
  | .fail => { s with phase := .failed }
  | .remove removed => s.remove removed
  | .download bytes => s.download tools host request bytes
  | .proceed => s.proceed tools host

/-- The binary in an archive: the one that is found where nothing but the archive was unpacked. -/
def extracted (bytes : B) : Option B := do
  let members ← tools.members bytes
  let t ← unpack root true members (.dir root [])
  let path ← findBinary binaryName 3 t
  t.read path

/-- What was copied is the binary in the archive that was downloaded, and an archive from the
control plane has the hash that came with the request. -/
def Genuine (request : Request) (s : Update B) : Prop :=
  ∀ binary, s.staged = some binary ∨ s.installed = some binary →
    ∃ bytes, s.bytes = some bytes ∧ extracted tools bytes = some binary ∧
      (request.fromControlPlane = true → ∃ expected, request.sha256 = some expected ∧
        toAsciiLowercase (tools.sha256Hex bytes) = toAsciiLowercase expected)

/-- Nothing is at the path of the directory, and no member of the archive is the other user's. -/
def undisturbed (v : ℕ) (s : Update B) : Event B → Bool
  | .proceed =>
    match s.phase with
    | .creating => (s.tmp stagingDir).isNone
    | _ => true
  | .download bytes => ((tools.members bytes).getD []).all fun m => !(m.owner == v)
  | _ => true

def Reaches (host : Host) (request : Request) (v : ℕ) : Update B → Update B → Prop :=
  Machine.Reached (step tools host request v) fun s e => undisturbed tools v s e = true

/-! ### What the update knows of its directory -/

variable {tools : Tools B} {host : Host} {request : Request} {v : ℕ} {s s' : Update B}
  {phase : Phase B} {bytes : B} {t : Node ℕ Text B}

def Holds (v : ℕ) (s : Update B) (t : Node ℕ Text B) : Prop :=
  s.tmp.Keeps v root stagingDir t

variable (tools)

/-- The bytes were accepted, and nothing in them is recorded as the other user's. -/
structure Downloaded (host : Host) (request : Request) (v : ℕ) (s : Update B)
    (bytes : B) : Prop where
  bytes_eq : s.bytes = some bytes
  accepted : accepts tools host request bytes = true
  owner_ne : ∀ members, tools.members bytes = some members → ∀ m ∈ members, m.owner ≠ v

def archived (asset : PlatformAsset) (bytes : B) : Node ℕ Text B :=
  .dir root [(asset.archiveName, .file root bytes)]

/-- The members `done` of the archive that was downloaded are extracted, and `todo` are not. -/
structure Unpacked (host : Host) (request : Request) (v : ℕ) (s : Update B)
    (bytes : B) (done todo : List (Member ℕ Text B)) (t : Node ℕ Text B) : Prop where
  downloaded : Downloaded tools host request v s bytes
  members_eq : tools.members bytes = some (done ++ todo)
  unpack_eq : unpack root true done (archived s.asset bytes) = some t
  holds : Holds v s t

def Stage (host : Host) (request : Request) (v : ℕ) (s : Update B) :
    Phase B → Prop
  | .removing => s.bytes = none
  | .creating => s.bytes = none
  | .downloading => s.bytes = none ∧ Holds v s (.dir root [])
  | .writing => ∃ bytes, Downloaded tools host request v s bytes ∧ Holds v s (.dir root [])
  | .unpacking =>
    ∃ bytes, Downloaded tools host request v s bytes ∧ Holds v s (archived s.asset bytes)
  | .extracting todo => ∃ bytes done t, Unpacked tools host request v s bytes done todo t
  | .finding => ∃ bytes done t, Unpacked tools host request v s bytes done [] t
  | .copying path =>
    ∃ bytes done t, Unpacked tools host request v s bytes done [] t ∧
      findBinary binaryName 3 t = some path
  | _ => True

structure Inv (host : Host) (request : Request) (v : ℕ) (s : Update B) : Prop where
  stage : Stage tools host request v s s.phase
  genuine : Genuine tools request s

variable {tools}

theorem Downloaded.congr (h : Downloaded tools host request v s bytes)
    (hbytes : s'.bytes = s.bytes) : Downloaded tools host request v s' bytes :=
  ⟨hbytes.trans h.bytes_eq, h.accepted, h.owner_ne⟩

variable {done : List (Member ℕ Text B)}

theorem Unpacked.congr {todo : List (Member ℕ Text B)}
    (h : Unpacked tools host request v s bytes done todo t) (hbytes : s'.bytes = s.bytes)
    (hasset : s'.asset = s.asset) (hholds : Holds v s t → Holds v s' t) :
    Unpacked tools host request v s' bytes done todo t :=
  ⟨h.downloaded.congr hbytes, h.members_eq, hasset ▸ h.unpack_eq, hholds h.holds⟩

theorem Stage.congr (h : Stage tools host request v s phase) (hbytes : s'.bytes = s.bytes)
    (hasset : s'.asset = s.asset) (hholds : ∀ t, Holds v s t → Holds v s' t) :
    Stage tools host request v s' phase := by
  cases phase with
  | removing | creating => exact hbytes.trans h
  | downloading => exact ⟨hbytes.trans h.1, hholds _ h.2⟩
  | writing =>
    obtain ⟨bytes, hdown, hdir⟩ := h
    exact ⟨bytes, hdown.congr hbytes, hholds _ hdir⟩
  | unpacking =>
    obtain ⟨bytes, hdown, hdir⟩ := h
    exact ⟨bytes, hdown.congr hbytes, hasset ▸ hholds _ hdir⟩
  | extracting | finding =>
    obtain ⟨bytes, done, t, h⟩ := h
    exact ⟨bytes, done, t, h.congr hbytes hasset (hholds t)⟩
  | copying =>
    obtain ⟨bytes, done, t, h, hpath⟩ := h
    exact ⟨bytes, done, t, h.congr hbytes hasset (hholds t), hpath⟩
  | checking | moving | clearing | done | failed => trivial

theorem Genuine.congr (h : Genuine tools request s) (hbytes : s'.bytes = s.bytes)
    (hstaged : ∀ b, s'.staged = some b → s.staged = some b ∨ s.installed = some b)
    (hinstalled : ∀ b, s'.installed = some b → s.staged = some b ∨ s.installed = some b) :
    Genuine tools request s' := by
  intro binary hbinary
  obtain ⟨bytes, hb, hrest⟩ := h binary (hbinary.elim (hstaged binary) (hinstalled binary))
  exact ⟨bytes, hbytes.trans hb, hrest⟩

theorem Inv.next (h : Inv tools host request v s) (hbytes : s'.bytes = s.bytes)
    (hstaged : s'.staged = s.staged) (hinstalled : s'.installed = s.installed)
    (hstage : Stage tools host request v s' s'.phase) : Inv tools host request v s' :=
  ⟨hstage, h.genuine.congr hbytes (fun _ hb => .inl (hstaged ▸ hb))
    fun _ hb => .inr (hinstalled ▸ hb)⟩

theorem Inv.fail (h : Inv tools host request v s) :
    Inv tools host request v { s with phase := .failed } :=
  h.next rfl rfl rfl trivial

theorem Inv.after (h : Inv tools host request v s) {tmp : Option (Shared ℕ Text B)}
    (hstage : ∀ tmp', tmp = some tmp' →
      Stage tools host request v { s with tmp := tmp', phase := phase } phase) :
    Inv tools host request v (s.after phase tmp) := by
  cases tmp with
  | none => exact h.fail
  | some tmp => exact h.next rfl rfl rfl (hstage tmp rfl)

/-! ### One operation -/

private theorem archiveName_ne (asset : PlatformAsset) : binaryName ≠ asset.archiveName := by
  intro h
  have hlast := congrArg getLast? h
  rw [PlatformAsset.archiveName, getLast?_append_of_ne_nil _ (by decide)] at hlast
  cases hlast

variable {binary : B}

theorem Unpacked.extracted_eq
    (h : Unpacked tools host request v s bytes done [] t) {path : List Text}
    (hpath : findBinary binaryName 3 t = some path) (hread : t.read path = some binary) :
    extracted tools bytes = some binary := by
  obtain ⟨t', ht', hbeside⟩ :=
    (Beside.single root s.asset.archiveName root bytes).unpack h.unpack_eq
  have hne := archiveName_ne s.asset
  have hmembers := h.members_eq
  rw [append_nil] at hmembers
  have hpath' : findBinary binaryName 3 t' = some path := findBinary_beside hbeside hne 3 ▸ hpath
  simp only [extracted, hmembers, ht', hpath', bind_eq_bind, bind_some]
  rw [← read_of_findBinary hbeside hne hpath, hread]

private theorem sha256_of_accepts (h : accepts tools host request bytes)
    (hfrom : request.fromControlPlane) :
    ∃ expected, request.sha256 = some expected ∧
      toAsciiLowercase (tools.sha256Hex bytes) = toAsciiLowercase expected := by
  rw [accepts, if_pos hfrom] at h
  split at h
  · rename_i expected url hexpected hurl
    exact ⟨expected, (filter_eq_some_iff.1 hexpected).1, of_decide_eq_true h⟩
  · cases h

theorem inv_proceed (hroot : root ≠ v) (h : Inv tools host request v s)
    (hok : undisturbed tools v s .proceed) : Inv tools host request v (s.proceed tools host) := by
  have hstage := h.stage
  rcases hphase : s.phase with _ | _ | _ | _ | _ | todo | _ | path | _ | _ | _ | _ | _ <;>
    rw [hphase] at hstage <;> simp only [Update.proceed, hphase]
  case creating =>
    simp only [undisturbed, hphase, isNone_iff_eq_none] at hok
    exact h.after fun tmp htmp => ⟨hstage, Shared.keeps_of_makeDir hroot hok htmp⟩
  case writing =>
    obtain ⟨bytes, hdown, hdir⟩ := hstage
    refine h.after fun tmp htmp => ?_
    rw [hdown.bytes_eq] at htmp
    obtain ⟨n, hn, hholds⟩ := hdir.place (sealed_rewrite hroot) htmp
    cases hn
    exact ⟨bytes, hdown.congr rfl, hholds⟩
  case unpacking =>
    obtain ⟨bytes, hdown, hdir⟩ := hstage
    have hread := (hdir.read_eq _).trans (Node.read_single root _ root bytes)
    rw [hread, bind_some]
    rcases hmembers : tools.members bytes with _ | members
    · exact h.fail
    · exact h.next rfl rfl rfl ⟨bytes, [], _, hdown.congr rfl, hmembers, rfl, hdir⟩
  case extracting =>
    obtain ⟨bytes, done, t, hunpacked⟩ := hstage
    cases todo with
    | nil => exact h.next rfl rfl rfl ⟨bytes, done, t, hunpacked.congr rfl rfl id⟩
    | cons m todo =>
      refine h.after fun tmp htmp => ?_
      have hmem : m ∈ done ++ m :: todo := mem_append_right done mem_cons_self
      have howner := hunpacked.downloaded.owner_ne _ hunpacked.members_eq m hmem
      obtain ⟨n, hn, hholds⟩ := hunpacked.holds.place (sealed_extract hroot fun _ => howner) htmp
      refine ⟨bytes, done ++ [m], n, hunpacked.downloaded.congr rfl, ?_, ?_, hholds⟩
      · rw [hunpacked.members_eq, append_assoc, singleton_append]
      · rw [unpack_append, hunpacked.unpack_eq, bind_some, hn]
  case finding =>
    obtain ⟨bytes, done, t, hunpacked⟩ := hstage
    rw [hunpacked.holds.1, bind_some]
    rcases hpath : findBinary binaryName 3 t with _ | path
    · exact h.fail
    · exact h.next rfl rfl rfl ⟨bytes, done, t, hunpacked.congr rfl rfl id, hpath⟩
  case copying =>
    obtain ⟨bytes, _, t, hunpacked, hpath⟩ := hstage
    rw [hunpacked.holds.read_eq]
    rcases hread : t.read path with _ | binary
    · exact h.fail
    · refine ⟨trivial, ?_⟩
      rintro b (hb | hb)
      · cases hb
        exact ⟨bytes, hunpacked.downloaded.bytes_eq, hunpacked.extracted_eq hpath hread,
          sha256_of_accepts hunpacked.downloaded.accepted⟩
      · exact h.genuine b (.inr hb)
  case checking =>
    split_ifs
    · exact h.next rfl rfl rfl trivial
    · exact ⟨trivial, h.genuine.congr rfl (fun b hb => absurd hb (some_ne_none b).symm)
        fun _ => .inr⟩
  case moving =>
    exact ⟨trivial, h.genuine.congr rfl (fun b hb => absurd hb (some_ne_none b).symm)
      fun _ => .inl⟩
  all_goals exact h

private theorem inv_remove (h : Inv tools host request v s) (removed : Bool) :
    Inv tools host request v (s.remove removed) := by
  have hstage := h.stage
  rcases hphase : s.phase with _ | _ | _ | _ | _ | todo | _ | path | _ | _ | _ | _ | _ <;>
    rw [hphase] at hstage <;> simp only [Update.remove, hphase]
  case removing => exact h.next rfl rfl rfl hstage
  case clearing => exact h.next rfl rfl rfl trivial
  all_goals exact h

private theorem inv_download (h : Inv tools host request v s)
    (hok : undisturbed tools v s (.download bytes)) :
    Inv tools host request v (s.download tools host request bytes) := by
  have hstage := h.stage
  rcases hphase : s.phase with _ | _ | _ | _ | _ | todo | _ | path | _ | _ | _ | _ | _ <;>
    rw [hphase] at hstage <;> simp only [Update.download, hphase]
  case downloading =>
    split_ifs with haccepts
    · refine ⟨⟨bytes, ⟨rfl, haccepts, ?_⟩, hstage.2⟩, ?_⟩
      · intro members hmembers m hm
        rw [undisturbed, hmembers, List.all_eq_true] at hok
        simpa using hok m hm
      · -- Nothing was copied before the download.
        intro binary hbinary
        obtain ⟨_, hbytes', -⟩ := h.genuine binary hbinary
        cases hstage.1.symm.trans hbytes'
    · exact h.fail
  all_goals exact h

theorem inv_step (hroot : root ≠ v) (h : Inv tools host request v s) (e : Event B)
    (hok : undisturbed tools v s e) : Inv tools host request v (step tools host request v s e) := by
  cases e with
  | intrude a =>
    refine h.next rfl rfl rfl ?_
    exact h.stage.congr rfl rfl fun t ht => ht.intrude a
  | fail => exact h.fail
  | remove removed => exact inv_remove h removed
  | download => exact inv_download h hok
  | proceed => exact inv_proceed hroot h hok

variable {tmp : Shared ℕ Text B}

private theorem inv_start (h : start host request tmp = some s) : Inv tools host request v s := by
  obtain ⟨-, h⟩ := ite_none_right_eq_some.1 h
  obtain ⟨asset, -, rfl⟩ := map_eq_some_iff.1 h
  refine ⟨rfl, ?_⟩
  rintro binary (hb | hb) <;> exact absurd hb (some_ne_none binary).symm

theorem genuine_of_reaches (hroot : root ≠ v)
    (hstart : start host request tmp = some s) (h : Reaches tools host request v s s') :
    Genuine tools request s' := by
  have hinv : Inv tools host request v s' :=
    Machine.Reached.inv h (inv_start hstart) fun s e hs hok => inv_step hroot hs e hok
  exact hinv.genuine

theorem not_genuine_of_ne (hbytes : s.bytes = some bytes)
    (hinstalled : s.installed = some binary) (hne : extracted tools bytes ≠ some binary) :
    ¬ Genuine tools request s := by
  intro h
  obtain ⟨_, hbytes', hextracted, -⟩ := h binary (.inr hinstalled)
  rw [hbytes] at hbytes'
  exact hne (some.inj hbytes' ▸ hextracted)

end Abyssal.Agent.SelfUpdate
