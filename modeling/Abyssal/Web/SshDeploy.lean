import Abyssal.Agent.SelfUpdate

/-!
# Deployment of an agent over SSH

The first command downloads the agent and the certificate authority to names below `/tmp`. The
second one, as root, copies the binary from there and runs it, and the installation copies the
authority. As in an update of the agent, an unprivileged user may act in `/tmp` between any two
operations, and `mkdir -p` and `curl -o` are content with what is there.

## Main results

* `genuine_of_undisturbed`: what is installed is what was sent.
-/

namespace Abyssal.Web.SshDeploy

open Files Agent.SelfUpdate List Option Shared Machine

variable {B : Type}

/-- `/tmp/abyssal-agent-deploy`. -/
def deployDir : Text := "abyssal-agent-deploy"

/-- `/tmp/abyssal-agent-deploy.tar.gz`. -/
def archiveFile : Text := "abyssal-agent-deploy.tar.gz"

def caFile : Text := "ca.pem"

structure Target (B : Type) where
  account : ℕ
  caPem : Option B
  readsCa : B → Bool

inductive Phase (B : Type) where
  /-- `mkdir -p`, and writing the certificate authority. -/
  | making
  | writingCa
  | fetching
  /-- Running `tar`, which reads the archive and has these members still to extract. -/
  | unpacking
  | extracting (todo : List (Member ℕ Text B))
  /-- `chmod +x`. -/
  | marking
  /-- `cp`, as root. -/
  | copying
  /-- The installation reads the certificate authority, and copies it. -/
  | readingCa
  | copyingCa
  /-- `rm -rf`. -/
  | cleaning
  | done
  | failed

structure Deployment (B : Type) where
  tmp : Shared ℕ Text B
  downloaded : Option B
  installed : Option B
  trusted : Option B
  phase : Phase B

inductive Event (B : Type) where
  | intrude (a : Intrusion ℕ Text B)
  | fail
  | fetch (bytes : B)
  | proceed

def start (tmp : Shared ℕ Text B) : Deployment B := ⟨tmp, none, none, none, .making⟩

/-- `tar` keeps the recorded owners if root runs it. -/
def Target.keepsOwner (target : Target B) : Bool := target.account == root

namespace Deployment

/-- The operation that comes next is over, or has failed and ended the deployment. -/
def after (s : Deployment B) (phase : Phase B) : Option (Shared ℕ Text B) → Deployment B
  | some tmp => { s with tmp := tmp, phase := phase }
  | none => { s with phase := .failed }

/-- The entries that the account may remove are removed. -/
def cleaned (target : Target B) (s : Deployment B) : Shared ℕ Text B :=
  (s.tmp.intrude target.account (.remove deployDir)).intrude target.account (.remove archiveFile)

def proceed (tools : Tools B) (target : Target B) (s : Deployment B) : Deployment B :=
  match s.phase with
  | .making =>
    s.after (if target.caPem.isSome then .writingCa else .fetching)
      (s.tmp.makeDir target.account deployDir)
  | .writingCa =>
    s.after .fetching <| target.caPem.bind fun pem =>
      s.tmp.place target.account (rewrite target.account pem) deployDir [caFile]
  | .unpacking =>
    match (s.tmp.read archiveFile []).bind tools.members with
    | some members => { s with phase := .extracting (strip members) }
    | none => { s with phase := .failed }
  | .extracting [] => { s with phase := .marking }
  | .extracting (m :: todo) =>
    s.after (.extracting todo)
      (s.tmp.place target.account (extract target.account target.keepsOwner m) deployDir m.path)
  | .marking =>
    if ((s.tmp deployDir).bind fun e => e.leads.child binaryName).isSome then
      { s with phase := .copying }
    else { s with phase := .failed }
  | .copying =>
    match s.tmp.read deployDir [binaryName] with
    | some binary =>
      let phase := if target.caPem.isSome then .readingCa else .cleaning
      { s with installed := some binary, phase := phase }
    | none => { s with phase := .failed }
  | .readingCa =>
    if (s.tmp.read deployDir [caFile]).any target.readsCa then { s with phase := .copyingCa }
    else { s with phase := .cleaning }
  | .copyingCa => { s with trusted := s.tmp.read deployDir [caFile], phase := .cleaning }
  | .cleaning => { s with tmp := s.cleaned target, phase := .done }
  | _ => s

def fetch (target : Target B) (s : Deployment B) (bytes : B) : Deployment B :=
  match s.phase with
  | .fetching =>
    match s.tmp.place target.account (rewrite target.account bytes) archiveFile [] with
    | some tmp => { s with tmp := tmp, downloaded := some bytes, phase := .unpacking }
    | none => { s with phase := .failed }
  | _ => s

end Deployment

variable (tools : Tools B)

def step (target : Target B) (v : ℕ) (s : Deployment B) : Event B → Deployment B
  | .intrude a => { s with tmp := s.tmp.intrude v a }
  | .fail => { s with phase := .failed }
  | .fetch bytes => s.fetch target bytes
  | .proceed => s.proceed tools target

def unpacked (target : Target B) (bytes : B) : Option (Node ℕ Text B) := do
  let members ← tools.members bytes
  unpack target.account target.keepsOwner (strip members) (.dir target.account [])

def extracted (target : Target B) (bytes : B) : Option B :=
  (unpacked tools target bytes).bind fun t => t.read [binaryName]

/-- The certificate authority that was written, unless the archive has an entry of this name. -/
def handed (target : Target B) (bytes pem : B) : Option B :=
  (unpacked tools target bytes).bind fun t =>
    match t.child caFile with
    | none => some pem
    | some n => n.content

/-- What was copied as root is the binary that was downloaded, and the certificate authority that
was written. -/
structure Genuine (target : Target B) (s : Deployment B) : Prop where
  installed : ∀ binary, s.installed = some binary →
    ∃ bytes, s.downloaded = some bytes ∧ extracted tools target bytes = some binary
  trusted : ∀ ca, s.trusted = some ca → ∃ pem bytes, target.caPem = some pem ∧
    s.downloaded = some bytes ∧ handed tools target bytes pem = some ca

/-- Nothing is at the path of the directory, and neither the file of the archive nor what `tar`
extracts is the other user's. -/
def undisturbed (target : Target B) (v : ℕ) (s : Deployment B) : Event B → Bool
  | .proceed =>
    match s.phase with
    | .making => (s.tmp deployDir).isNone
    | _ => true
  | .fetch bytes =>
    ((s.tmp archiveFile).all fun e => !(e.owner == v) && !(e.leads.owner == v)) &&
      (!target.keepsOwner || ((tools.members bytes).getD []).all fun m => !(m.owner == v))
  | _ => true

def Reaches (target : Target B) (v : ℕ) : Deployment B → Deployment B → Prop :=
  Machine.Reached (step tools target v) fun s e => undisturbed tools target v s e = true

/-! ### What the deployment knows of its files -/

variable {tools : Tools B} {target : Target B} {v : ℕ} {s s' : Deployment B} {phase : Phase B}
  {bytes : B} {t : Node ℕ Text B}

variable (target)

variable (v)

variable (s)

/-- The directory is the account's and has this in it, none of which is the other user's. -/
def Holds (t : Node ℕ Text B) : Prop :=
  s.tmp.Keeps v target.account deployDir t

def prepared : Node ℕ Text B :=
  match target.caPem with
  | none => .dir target.account []
  | some pem => .dir target.account [(caFile, .file target.account pem)]

/-- The file of the archive has the bytes that were downloaded and is not the other user's. -/
def Fetched (bytes : B) : Prop :=
  ∃ e, s.tmp archiveFile = some e ∧ e.leads.read [] = some bytes ∧ e.Sealed v

variable (tools)

/-- The bytes were downloaded, and nothing in them will be the other user's. -/
def Downloaded (bytes : B) : Prop :=
  s.downloaded = some bytes ∧ (target.keepsOwner = true →
    ∀ members, tools.members bytes = some members → ∀ m ∈ members, m.owner ≠ v)

/-- The members `done` of the archive that was downloaded are extracted, and `todo` are not. -/
structure Unpacked (bytes : B) (done todo : List (Member ℕ Text B)) (t : Node ℕ Text B) : Prop where
  downloaded : Downloaded tools target v s bytes
  members_eq : (tools.members bytes).map strip = some (done ++ todo)
  unpack_eq : unpack target.account target.keepsOwner done (prepared target) = some t
  holds : Holds target v s t

def Complete : Prop :=
  ∃ bytes done t, Unpacked tools target v s bytes done [] t

def Stage : Phase B → Prop
  | .making => s.downloaded = none
  | .writingCa => s.downloaded = none ∧ Holds target v s (.dir target.account [])
  | .fetching => s.downloaded = none ∧ Holds target v s (prepared target)
  | .unpacking =>
    ∃ bytes, Downloaded tools target v s bytes ∧ Fetched v s bytes ∧
      Holds target v s (prepared target)
  | .extracting todo => ∃ bytes done t, Unpacked tools target v s bytes done todo t
  | .marking => Complete tools target v s
  | .copying => Complete tools target v s
  | .readingCa => target.caPem.isSome = true ∧ Complete tools target v s
  | .copyingCa => target.caPem.isSome = true ∧ Complete tools target v s
  | _ => True

structure Inv : Prop where
  stage : Stage tools target v s s.phase
  genuine : Genuine tools target s

variable {done : List (Member ℕ Text B)}

variable {tools}

variable {target}

variable {v}

variable {s}

theorem Unpacked.congr {todo : List (Member ℕ Text B)}
    (h : Unpacked tools target v s bytes done todo t) (hdown : s'.downloaded = s.downloaded)
    (hholds : Holds target v s t → Holds target v s' t) :
    Unpacked tools target v s' bytes done todo t :=
  ⟨⟨hdown.trans h.downloaded.1, h.downloaded.2⟩, h.members_eq, h.unpack_eq, hholds h.holds⟩

theorem Complete.congr (h : Complete tools target v s) (hdown : s'.downloaded = s.downloaded)
    (hholds : ∀ t, Holds target v s t → Holds target v s' t) : Complete tools target v s' := by
  obtain ⟨bytes, done, t, h⟩ := h
  exact ⟨bytes, done, t, h.congr hdown (hholds t)⟩

theorem Stage.congr (h : Stage tools target v s phase) (hdown : s'.downloaded = s.downloaded)
    (hfetched : ∀ bytes, Fetched v s bytes → Fetched v s' bytes)
    (hholds : ∀ t, Holds target v s t → Holds target v s' t) : Stage tools target v s' phase := by
  cases phase with
  | making => exact hdown.trans h
  | writingCa | fetching => exact ⟨hdown.trans h.1, hholds _ h.2⟩
  | unpacking =>
    obtain ⟨bytes, hbytes, hfile, hdir⟩ := h
    exact ⟨bytes, ⟨hdown.trans hbytes.1, hbytes.2⟩, hfetched bytes hfile, hholds _ hdir⟩
  | extracting =>
    obtain ⟨bytes, done, t, h⟩ := h
    exact ⟨bytes, done, t, h.congr hdown (hholds t)⟩
  | marking | copying => exact Complete.congr h hdown hholds
  | readingCa | copyingCa => exact ⟨h.1, h.2.congr hdown hholds⟩
  | cleaning | done | failed => trivial

theorem Genuine.congr (h : Genuine tools target s) (hdown : s'.downloaded = s.downloaded)
    (hinstalled : s'.installed = s.installed) (htrusted : s'.trusted = s.trusted) :
    Genuine tools target s' := by
  refine ⟨fun binary hbinary => ?_, fun ca hca => ?_⟩
  · rw [hdown]
    exact h.installed binary (hinstalled ▸ hbinary)
  · rw [hdown]
    exact h.trusted ca (htrusted ▸ hca)

theorem Inv.next (h : Inv tools target v s) (hdown : s'.downloaded = s.downloaded)
    (hinstalled : s'.installed = s.installed) (htrusted : s'.trusted = s.trusted)
    (hstage : Stage tools target v s' s'.phase) : Inv tools target v s' :=
  ⟨hstage, h.genuine.congr hdown hinstalled htrusted⟩

theorem Inv.fail (h : Inv tools target v s) : Inv tools target v { s with phase := .failed } :=
  h.next rfl rfl rfl trivial

theorem Inv.after (h : Inv tools target v s) {tmp : Option (Shared ℕ Text B)}
    (hstage : ∀ tmp', tmp = some tmp' →
      Stage tools target v { s with tmp := tmp', phase := phase } phase) :
    Inv tools target v (s.after phase tmp) := by
  cases tmp with
  | none => exact h.fail
  | some tmp => exact h.next rfl rfl rfl (hstage tmp rfl)

theorem Fetched.intrude (h : Fetched v s bytes) (a : Intrusion ℕ Text B) :
    Fetched v { s with tmp := s.tmp.intrude v a } bytes := by
  obtain ⟨e, he, hread, hsealed⟩ := h
  exact ⟨e, intrude_of_sealed he hsealed a, hread, hsealed⟩

/-! ### What is copied -/

theorem Unpacked.beside (h : Unpacked tools target v s bytes done [] t) :
    ∃ t', unpacked tools target bytes = some t' ∧ (target.caPem = none → t = t') ∧
      ∀ pem, target.caPem = some pem → Beside caFile target.account pem t t' := by
  obtain ⟨_, hmembers, hstrip⟩ := map_eq_some_iff.1 h.members_eq
  rw [append_nil] at hstrip
  have hunpacked : unpacked tools target bytes =
      unpack target.account target.keepsOwner done (.dir target.account []) := by
    rw [unpacked, hmembers, ← hstrip]
    rfl
  have hunpack := h.unpack_eq
  rw [prepared] at hunpack
  rcases hca : target.caPem with _ | pem <;> rw [hca] at hunpack
  · exact ⟨t, hunpacked.trans hunpack, fun _ => rfl, fun pem hpem =>
      nomatch hpem.symm⟩
  · obtain ⟨t', ht', hbeside⟩ := (Beside.single _ _ _ _).unpack hunpack
    refine ⟨t', hunpacked.trans ht', nofun, ?_⟩
    intro pem' hpem'
    exact some.inj hpem' ▸ hbeside

variable {binary : B}

theorem Unpacked.extracted_eq (h : Unpacked tools target v s bytes done [] t)
    (hread : t.read [binaryName] = some binary) : extracted tools target bytes = some binary := by
  obtain ⟨_, ht', hsame, hbeside⟩ := h.beside
  rw [extracted, ht', bind_some, ← hread]
  rcases hca : target.caPem with _ | pem
  · rw [hsame hca]
  · rw [Node.read_cons, Node.read_cons, (hbeside pem hca).child_of_ne (by decide)]

theorem Unpacked.handed_eq
    (h : Unpacked tools target v s bytes done [] t) {pem ca : B} (hpem : target.caPem = some pem)
    (hread : t.read [caFile] = some ca) : handed tools target bytes pem = some ca := by
  obtain ⟨_, ht', -, hbeside⟩ := h.beside
  rw [handed, ht', bind_some]
  rw [Node.read_cons] at hread
  rcases (hbeside pem hpem).child_self with hsame | ⟨hfile, hnone⟩
  · rw [hsame] at hread
    obtain ⟨_, hn, hcontent⟩ := bind_eq_some_iff.1 hread
    rwa [hn]
  · rw [hfile] at hread
    rwa [hnone]

/-! ### One operation -/

private theorem owner_of_mem_strip {members : List (Member ℕ Text B)} {m : Member ℕ Text B}
    (hm : m ∈ strip members) : ∃ m' ∈ members, m'.owner = m.owner := by
  obtain ⟨m', hm', rfl⟩ := mem_map.1 hm
  exact ⟨m', mem_of_mem_filter hm', rfl⟩

theorem inv_proceed (haccount : target.account ≠ v) (h : Inv tools target v s)
    (hok : undisturbed tools target v s .proceed) :
    Inv tools target v (s.proceed tools target) := by
  have hstage := h.stage
  rcases hphase : s.phase with _ | _ | _ | _ | todo | _ | _ | _ | _ | _ | _ | _ <;>
    rw [hphase] at hstage <;> simp only [Deployment.proceed, hphase]
  case making =>
    simp only [undisturbed, hphase, isNone_iff_eq_none] at hok
    refine h.after fun tmp htmp => ?_
    have hkeeps : tmp.Keeps v target.account deployDir (.dir target.account []) :=
      keeps_of_makeDir haccount hok htmp
    rcases hca : target.caPem with _ | pem
    · refine ⟨hstage, ?_⟩
      rwa [prepared, hca]
    · exact ⟨hstage, hkeeps⟩
  case writingCa =>
    refine h.after fun tmp htmp => ⟨hstage.1, ?_⟩
    obtain ⟨pem, hpem, htmp⟩ := bind_eq_some_iff.1 htmp
    obtain ⟨n, hn, hholds⟩ := hstage.2.place (sealed_rewrite haccount) htmp
    cases hn
    rwa [prepared, hpem]
  case unpacking =>
    obtain ⟨bytes, hdown, ⟨_, he, hread, -⟩, hdir⟩ := hstage
    rw [Shared.read, he, bind_some, hread, bind_some]
    rcases hmembers : tools.members bytes with _ | members
    · exact h.fail
    · refine h.next rfl rfl rfl ⟨bytes, [], _, hdown, ?_, rfl, hdir⟩
      rw [hmembers, map_some, nil_append]
  case extracting =>
    obtain ⟨bytes, done, t, hunpacked⟩ := hstage
    cases todo with
    | nil => exact h.next rfl rfl rfl ⟨bytes, done, t, hunpacked.congr rfl id⟩
    | cons m =>
      refine h.after fun tmp htmp => ?_
      have howner : target.keepsOwner → m.owner ≠ v := by
        intro hkeeps
        obtain ⟨members, hmembers, hstrip⟩ := map_eq_some_iff.1 hunpacked.members_eq
        have hmem : m ∈ strip members := hstrip ▸ mem_append_right done mem_cons_self
        obtain ⟨m', hm', howner⟩ := owner_of_mem_strip hmem
        exact howner ▸ hunpacked.downloaded.2 hkeeps members hmembers m' hm'
      obtain ⟨n, hn, hholds⟩ := hunpacked.holds.place (sealed_extract haccount howner) htmp
      refine ⟨bytes, done ++ [m], n, hunpacked.downloaded, ?_, ?_, hholds⟩
      · rw [hunpacked.members_eq, append_assoc, singleton_append]
      · rw [unpack_append, hunpacked.unpack_eq, bind_some, hn]
  case marking =>
    split_ifs
    · exact h.next rfl rfl rfl (Complete.congr hstage rfl fun t => id)
    · exact h.fail
  case copying =>
    obtain ⟨bytes, done, t, hunpacked⟩ := hstage
    rw [hunpacked.holds.read_eq]
    rcases hread : t.read [binaryName] with _ | binary
    · exact h.fail
    · refine ⟨?_, ?_, h.genuine.trusted⟩
      · rcases hca : target.caPem with _ | pem
        · trivial
        · exact ⟨hca ▸ rfl, bytes, done, t, hunpacked.congr rfl id⟩
      · intro b hb
        cases hb
        exact ⟨bytes, hunpacked.downloaded.1, hunpacked.extracted_eq hread⟩
  case readingCa =>
    split_ifs
    · exact h.next rfl rfl rfl ⟨hstage.1, hstage.2.congr rfl fun t => id⟩
    · exact h.next rfl rfl rfl trivial
  case copyingCa =>
    obtain ⟨hca, bytes, _, _, hunpacked⟩ := hstage
    obtain ⟨pem, hpem⟩ := isSome_iff_exists.1 hca
    refine ⟨trivial, h.genuine.installed, fun ca hread => ?_⟩
    have hread : s.tmp.read deployDir [caFile] = some ca := hread
    rw [hunpacked.holds.read_eq] at hread
    exact ⟨pem, bytes, hpem, hunpacked.downloaded.1, hunpacked.handed_eq hpem hread⟩
  case cleaning => exact h.next rfl rfl rfl trivial
  all_goals exact h

variable {tmp : Shared ℕ Text B}

private theorem fetched_of_place (haccount : target.account ≠ v)
    (hentry : ∀ e, s.tmp archiveFile = some e → e.owner ≠ v ∧ e.leads.owner ≠ v)
    (htmp : s.tmp.place target.account (rewrite target.account bytes) archiveFile [] = some tmp) :
    Fetched v { s with tmp := tmp, downloaded := some bytes, phase := .unpacking } bytes := by
  rcases hold : s.tmp archiveFile with _ | ⟨owner, leads⟩
  · obtain ⟨-, n, hn, hnew⟩ := place_of_none hold htmp
    cases hn
    exact ⟨_, hnew, rfl, haccount, sealed_file.2 haccount⟩
  · obtain ⟨howner, hleads⟩ := hentry _ hold
    obtain ⟨n, hn, hnew⟩ := place_of_some hold htmp
    cases leads with
    | file =>
      cases hn
      exact ⟨_, hnew, rfl, howner, sealed_file.2 hleads⟩
    | dir => exact absurd hn (some_ne_none n).symm

private theorem inv_fetch (haccount : target.account ≠ v) (h : Inv tools target v s)
    (hok : undisturbed tools target v s (.fetch bytes)) :
    Inv tools target v (s.fetch target bytes) := by
  have hstage := h.stage
  rcases hphase : s.phase with _ | _ | _ | _ | todo | _ | _ | _ | _ | _ | _ | _ <;>
    rw [hphase] at hstage <;> simp only [Deployment.fetch, hphase]
  case fetching =>
    rw [undisturbed, Bool.and_eq_true] at hok
    obtain ⟨hfile, hmembers⟩ := hok
    rcases htmp : s.tmp.place target.account (rewrite target.account bytes) archiveFile [] with
      _ | tmp
    · exact h.fail
    · have hentry : ∀ e, s.tmp archiveFile = some e → e.owner ≠ v ∧ e.leads.owner ≠ v := by
        intro e he
        rw [he] at hfile
        simpa using hfile
      have howner : target.keepsOwner → ∀ members, tools.members bytes = some members →
          ∀ m ∈ members, m.owner ≠ v := by
        intro hkeeps members hm m hmem
        rw [hkeeps, hm, Bool.not_true, Bool.false_or, List.all_eq_true] at hmembers
        simpa using hmembers m hmem
      have hdir : tmp deployDir = s.tmp deployDir := place_of_ne (by decide) htmp
      refine ⟨⟨bytes, ⟨rfl, howner⟩, fetched_of_place haccount hentry htmp,
        hdir.trans hstage.2.1, hstage.2.2⟩, fun binary hb => ?_, fun ca hca => ?_⟩
      · -- Nothing was copied before the download.
        obtain ⟨bytes', hbytes', -⟩ := h.genuine.installed binary hb
        cases hstage.1.symm.trans hbytes'
      · obtain ⟨_, _, -, hbytes', -⟩ := h.genuine.trusted ca hca
        cases hstage.1.symm.trans hbytes'
  all_goals exact h

theorem inv_step (haccount : target.account ≠ v) (h : Inv tools target v s) (e : Event B)
    (hok : undisturbed tools target v s e) : Inv tools target v (step tools target v s e) := by
  cases e with
  | intrude a =>
    refine h.next rfl rfl rfl ?_
    exact h.stage.congr rfl (fun bytes hb => hb.intrude a) fun t ht => ht.intrude a
  | fail => exact h.fail
  | fetch => exact inv_fetch haccount h hok
  | proceed => exact inv_proceed haccount h hok

theorem genuine_of_reaches (haccount : target.account ≠ v)
    (h : Reaches tools target v (start tmp) s) : Genuine tools target s := by
  have hstart : Inv tools target v (start tmp) := by
    refine ⟨rfl, fun binary hb => ?_, fun ca hca => ?_⟩
    · exact absurd hb (some_ne_none binary).symm
    · exact absurd hca (some_ne_none ca).symm
  have hinv : Inv tools target v s :=
    Machine.Reached.inv h hstart fun s e hs hok => inv_step haccount hs e hok
  exact hinv.genuine

theorem not_genuine_of_ne (hdown : s.downloaded = some bytes)
    (hinstalled : s.installed = some binary) (hne : extracted tools target bytes ≠ some binary) :
    ¬ Genuine tools target s := by
  intro h
  obtain ⟨_, hbytes', hextracted⟩ := h.installed binary hinstalled
  rw [hdown] at hbytes'
  exact hne (some.inj hbytes' ▸ hextracted)

/-! ### Updates and deployments -/

/-- Whatever an unprivileged user does, an undisturbed update and deployment copy the binary that
was downloaded. -/
theorem genuine_of_undisturbed (tools : Tools B) (hroot : root ≠ v) :
    (∀ host request tmp s₀ s, Agent.SelfUpdate.start host request tmp = some s₀ →
      Agent.SelfUpdate.Reaches tools host request v s₀ s →
      Agent.SelfUpdate.Genuine tools request s) ∧
    ∀ target tmp s, target.account ≠ v → Reaches tools target v (start tmp) s →
      Genuine tools target s :=
  ⟨fun _ _ _ _ _ hstart h => Agent.SelfUpdate.genuine_of_reaches hroot hstart h,
    fun _ _ _ haccount h => genuine_of_reaches haccount h⟩

/-- Two archives with the binary `7` in a directory. The second one was packed by the user 1001. -/
def sampleTools : Tools ℕ where
  sha256Hex _ := replicate 64 '0'
  members bytes :=
    let owner := if bytes = 2 then 1001 else root
    some [⟨["d"], owner, none⟩, ⟨["d", binaryName], owner, some 7⟩]
  versionOutput _ := some "abyssal-agent 0.2.3"

def sampleHost : Host :=
  ⟨"0.2.3", "x86_64", "linux", some "https://arsenal"⟩

def sampleRequest : Request := ⟨"0.2.3", true, some (replicate 64 '0')⟩

def sampleTarget : Target ℕ := ⟨1000, some 3, fun _ => true⟩

def updateAfter (es : List (Agent.SelfUpdate.Event ℕ)) : Update ℕ :=
  es.foldl (Agent.SelfUpdate.step sampleTools sampleHost sampleRequest 1001)
    ⟨fun _ => none, ⟨"abyssal-agent-v0.2.3-x86_64-unknown-linux-gnu"⟩, none, none, none,
      .removing⟩

def deploymentAfter (es : List (Event ℕ)) : Deployment ℕ :=
  es.foldl (step sampleTools sampleTarget 1001) (start fun _ => none)

theorem start_updateAfter :
    Agent.SelfUpdate.start sampleHost sampleRequest (fun _ => none) = some (updateAfter []) := rfl

theorem genuine_of_undisturbed_intruded :
    (∃ s, Agent.SelfUpdate.Genuine sampleTools sampleRequest s ∧ s.installed = some 7) ∧
      ∃ s, Genuine sampleTools sampleTarget s ∧ s.installed = some 7 ∧ s.trusted = some 3 := by
  have h := genuine_of_undisturbed (v := 1001) sampleTools (by decide)
  refine ⟨⟨updateAfter [.remove true, .proceed, .intrude (.put stagingDir (.dir 1001 [])),
      .download 1, .proceed, .proceed, .proceed, .proceed, .proceed,
      .intrude (.alter stagingDir [] (.dir 1001 [])), .proceed, .proceed, .proceed, .proceed],
    h.1 sampleHost sampleRequest _ _ _ start_updateAfter (reached_of_allows ?_), ?_⟩,
    ⟨deploymentAfter [.proceed, .intrude (.put deployDir (.dir 1001 [])), .proceed, .fetch 1,
      .proceed, .proceed, .proceed, .proceed, .proceed, .proceed, .proceed],
    h.2 sampleTarget _ _ (by decide) (reached_of_allows ?_), ?_, ?_⟩⟩
  all_goals decide +kernel

/-- Another user makes the directory of the update, or is the recorded owner of the files in the
archive, or makes the directory of the deployment. -/
theorem replaced_of_disturbed :
    (∃ s₀ s, Agent.SelfUpdate.start sampleHost sampleRequest (fun _ => none) = some s₀ ∧
      Machine.Reached (Agent.SelfUpdate.step sampleTools sampleHost sampleRequest 1001)
        (fun _ _ => True) s₀ s ∧ s.bytes = some 1 ∧ s.installed = some 666 ∧
      ¬ Agent.SelfUpdate.Genuine sampleTools sampleRequest s) ∧
    (∃ s₀ s, Agent.SelfUpdate.start sampleHost sampleRequest (fun _ => none) = some s₀ ∧
      Machine.Reached (Agent.SelfUpdate.step sampleTools sampleHost sampleRequest 1001)
        (fun _ _ => True) s₀ s ∧ s.bytes = some 2 ∧ s.installed = some 666 ∧
      ¬ Agent.SelfUpdate.Genuine sampleTools sampleRequest s) ∧
    ∃ s, Machine.Reached (step sampleTools sampleTarget 1001) (fun _ _ => True)
        (start fun _ => none) s ∧ s.downloaded = some 1 ∧ s.installed = some 666 ∧
      s.trusted = some 667 ∧ ¬ Genuine sampleTools sampleTarget s := by
  have hother : Agent.SelfUpdate.extracted sampleTools 1 ≠ some 666 ∧
      Agent.SelfUpdate.extracted sampleTools 2 ≠ some 666 ∧
      extracted sampleTools sampleTarget 1 ≠ some 666 := by decide +kernel
  refine ⟨⟨_, updateAfter [.remove true, .intrude (.put stagingDir (.dir 1001 [])), .proceed,
      .download 1, .proceed, .proceed, .proceed, .proceed, .proceed,
      .intrude (.alter stagingDir [] (.dir 1001 [(binaryName, .file 1001 666)])),
      .proceed, .proceed, .proceed, .proceed],
      start_updateAfter, reached_foldl (fun _ _ _ => trivial) _, ?_, ?_,
      Agent.SelfUpdate.not_genuine_of_ne ?_ ?_ hother.1⟩,
    ⟨_, updateAfter [.remove true, .proceed, .download 2, .proceed, .proceed, .proceed, .proceed,
      .proceed, .intrude (.alter stagingDir ["d", binaryName] (.file 1001 666)),
      .proceed, .proceed, .proceed, .proceed],
      start_updateAfter, reached_foldl (fun _ _ _ => trivial) _, ?_, ?_,
      Agent.SelfUpdate.not_genuine_of_ne ?_ ?_ hother.2.1⟩,
    ⟨deploymentAfter [.intrude (.put deployDir (.dir 1001 [])), .proceed, .proceed, .fetch 1,
      .proceed, .proceed, .proceed, .proceed,
      .intrude (.alter deployDir [] (.dir 1001 [(binaryName, .file 1001 666),
        (caFile, .file 1001 667)])), .proceed, .proceed, .proceed],
      reached_foldl (fun _ _ _ => trivial) _, ?_, ?_, ?_,
      not_genuine_of_ne ?_ ?_ hother.2.2⟩⟩
  all_goals decide +kernel

end Abyssal.Web.SshDeploy
