import Abyssal.Agent.Validators
import Abyssal.Hosts.ControlPlaneGuard
import Abyssal.Text.Regular

/-!
# Containers, processes and packages of the control plane

The guard of the control plane's own server also refuses what would stop its containers, signal its
processes or change the container runtime. It sees only the text of a container, a pattern of
process names or a package, so it has to refuse every text that could mean one of its own.

## Main results

* `container_refused_iff`: containers.
* `not_finds_of_accepted`: processes.
* `package_refused_iff`: packages.
-/

namespace Abyssal.Hosts.Guard

open Text Agent List Bool

/-! ### The arguments that the agent accepts -/

def isValidContainerRef (name : Text) : Bool :=
  name ≠ [] && byteLength name ≤ 255 && name.head? ≠ some '-' && alphanumericOr ['-', '_', '.'] name

def isValidPackageName (name : Text) : Bool :=
  name ≠ [] && byteLength name ≤ 200 && name.head? ≠ some '-' &&
    alphanumericOr ['-', '_', '.', '+', ':', '@', '/'] name

def isValidProcessName (name : Text) : Bool :=
  name ≠ [] && byteLength name ≤ 128 && name.head? ≠ some '-' &&
    name.all fun c => !isWhitespace c && !isControl c

/-! ### The guard -/

/-- The operations on containers, processes and packages. -/
inductive RuntimeOperation where
  | startContainer (container : Text)
  | stopContainer (container : Text)
  | restartContainer (container : Text)
  | removeContainer (container : Text)
  | signalByName (name : Text) (dryRun : Bool)
  | installPackage (package : Text)
  | upgradePackage (package : Text)
  | removePackage (package : Text)

def protectedProcesses : List Text :=
  ["dockerd", "containerd", "containerd-shim", "containerd-shim-runc-v2", "docker-proxy",
    "abyssal-arsenal", "abyssal-agent", "mariadbd", "mysqld", "caddy"].map String.toList

def isAsciiHexdigit (c : Char) : Bool :=
  isAsciiDigit c || ('a' ≤ c && c ≤ 'f') || ('A' ≤ c && c ≤ 'F')

def checkContainer (container : Text) : Except String Unit :=
  let name := toAsciiLowercase ((trim container).dropWhile (· = '/'))
  if "abyssal".toList.isPrefixOf name then
    refuse (container ++ (" is one of the control plane's own containers. Stopping, restarting " ++
      "or removing it takes the web UI down; use `docker compose` in the deployment directory " ++
      "instead.").toList)
  else
    refuseIf (6 ≤ byteLength name && name.all isAsciiHexdigit) (container ++
      (" looks like a container ID, which might be one of the control plane's own containers. " ++
        "Refer to the container by name instead.").toList)

def isRegexChar (c : Char) : Bool :=
  ['.', '*', '+', '?', '[', ']', '(', ')', '|', '^', '$', '\\', '{', '}'].contains c

def checkProcessPattern (name : Text) : Except String Unit :=
  let pattern := toAsciiLowercase (trim name)
  match protectedProcesses.find? fun process => pattern <:+: process ∨ process <:+: pattern with
  | some hit => refuse ('"' :: name ++ "\" matches " ++ hit ++
      ", part of the running control plane. Signalling it would take the web UI down.")
  | none => refuseIf (pattern.any isRegexChar) ('"' :: name ++
      ("\" is a pattern, and could match the control plane's own processes (Docker, MariaDB, " ++
        "Caddy, the agent). Use an exact process name, or a dry run to see what it matches and " ++
        "then signal by PID.").toList)

/-- The beginnings of the names of packages of Docker, containerd and Moby. -/
def families : List Text := ["docker", "containerd", "moby"].map String.toList

def runtimes : List Text := ["runc", "crun"].map String.toList

def inFamily (name : Text) : Bool := families.any (·.isPrefixOf name)

/-- The comparison that `is_container_runtime_package` makes with a name without its suffix. -/
def isRuntimeName (name : Text) : Bool := inFamily name || runtimes.any (· = name)

def suffixMarks : Text := [':', '=', '@']

/-- The text up to the first mark of an architecture or a version. -/
def firstPart (package : Text) : Text :=
  (toAsciiLowercase package).takeWhile (!suffixMarks.contains ·)

def isContainerRuntimePackage (package : Text) : Bool :=
  isRuntimeName (firstPart (trim package))

def checkPackage (package : Text) : Except String Unit :=
  refuseIf (isContainerRuntimePackage package) (package ++
    (" is part of the container runtime the control plane runs on. Upgrading or removing it " ++
      "stops every container, including this one. Do it from a shell on the server, during a " ++
      "maintenance window.").toList)

/-- The arms of `check` for these operations. -/
def checkRuntime : RuntimeOperation → Except String Unit
  | .stopContainer container | .restartContainer container | .removeContainer container =>
    checkContainer container
  | .signalByName name false => checkProcessPattern name
  | .upgradePackage package | .removePackage package => checkPackage package
  | .startContainer _ | .signalByName _ true | .installPackage _ => .ok ()

def Refused (operation : RuntimeOperation) : Prop := checkRuntime operation ≠ .ok ()

theorem refuseIf_ne_ok_iff {condition : Bool} {reason : Text} :
    refuseIf condition reason ≠ .ok () ↔ condition := by
  rw [refuseIf]
  split_ifs with h
  · exact iff_of_true (refuse_ne_ok reason) h
  · exact iff_of_false (fun hne => hne rfl) h

/-! ### Containers -/

/-- The containers that make up the control plane, as `docker-compose.yml` names them. -/
def ownContainers : List Text :=
  ["abyssal-arsenal-db", "abyssal-arsenal-app", "abyssal-arsenal-caddy"].map String.toList

def idDigits : Text := "0123456789abcdef"

/-- The engine could take the text for an own container: by its name, or as the beginning of its
id. -/
def CouldBeOwn (container : Text) : Prop :=
  container ∈ ownContainers ∨
    ∃ id : Text, id.length = 64 ∧ id ⊆ idDigits ∧ container <+: id

private theorem checkContainer_ne_ok_iff {container : Text} (h : container ⊆ idDigits) :
    checkContainer container ≠ .ok () ↔ 6 ≤ container.length := by
  have hdigit : ∀ c ∈ idDigits, isWhitespace c = false ∧ c ≠ '/' ∧ isAsciiUppercase c = false ∧
      isAsciiHexdigit c ∧ c.utf8Size = 1 :=
    forall_mem_of_all (by decide)
  have hname : toAsciiLowercase ((trim container).dropWhile (· = '/')) = container := by
    rw [trim_of_forall fun c hc => (hdigit c (h hc)).1, dropWhile_eq_self_iff.2]
    · exact toAsciiLowercase_of_forall fun c hc => (hdigit c (h hc)).2.2.1
    · intro hpos
      simpa using (hdigit _ (h (getElem_mem hpos))).2.1
  have habyssal : "abyssal".toList.isPrefixOf container = false := by
    refine eq_false_of_ne_true fun hstart => ?_
    have hy := h ((List.isPrefixOf_iff_prefix.1 hstart).subset (a := 'y') (by decide))
    exact absurd hy (by decide)
  have hhex : container.all isAsciiHexdigit := all_eq_true.2 fun c hc => (hdigit c (h hc)).2.2.2.1
  have hlength := byteLength_of_forall fun c hc => (hdigit c (h hc)).2.2.2.2
  rw [checkContainer]
  simp only [hname, habyssal, hhex, hlength, false_eq_true, if_false, refuseIf_ne_ok_iff]
  simp

/-- Short beginnings of an id are let through, and they only. -/
theorem container_refused_iff (container : Text) :
    (CouldBeOwn container → Refused (.stopContainer container) ∧
        Refused (.restartContainer container) ∧ Refused (.removeContainer container)) ↔
      ¬(container.length < 6 ∧ container ⊆ idDigits) := by
  have hown : ∀ container ∈ ownContainers, checkContainer container ≠ .ok () := by
    decide
  constructor
  · rintro h ⟨hshort, hdigits⟩
    have hpad : CouldBeOwn container := by
      refine .inr ⟨container ++ replicate (64 - container.length) '0', ?_, ?_, ?_⟩
      · rw [length_append, length_replicate]
        omega
      · refine append_subset.2 ⟨hdigits, fun c hc => ?_⟩
        rw [eq_of_mem_replicate hc]
        decide
      · exact prefix_append _ _
    have hlong := (checkContainer_ne_ok_iff hdigits).1 (h hpad).1
    omega
  · rintro h (hname | ⟨id, -, hid, hstart⟩)
    · exact ⟨hown _ hname, hown _ hname, hown _ hname⟩
    · have hdigits : container ⊆ idDigits := fun c hc => hid (hstart.subset hc)
      have hrefused := (checkContainer_ne_ok_iff hdigits).2 (by
        by_contra hshort
        exact h ⟨by omega, hdigits⟩)
      exact ⟨hrefused, hrefused, hrefused⟩

/-- A short beginning of an id, which may be that of an own container. -/
theorem container_not_refused :
    isValidContainerRef "3f2a" ∧ CouldBeOwn "3f2a" ∧
      checkRuntime (.removeContainer "3f2a") = .ok () := by
  refine ⟨by decide, .inr ⟨"3f2a" ++ replicate 60 '0', rfl, by decide, ?_⟩, by decide⟩
  exact prefix_append _ _

/-! ### Processes -/

variable {name : Text}

private theorem of_checkProcessPattern_eq_ok (h : checkProcessPattern name = .ok ()) :
    (∀ process ∈ protectedProcesses, ¬toAsciiLowercase (trim name) <:+: process) ∧
      ∀ c ∈ toAsciiLowercase (trim name), isRegexChar c = false := by
  rw [checkProcessPattern] at h
  split at h
  · exact absurd h (refuse_ne_ok _)
  · rename_i hfind
    have hregex := mt refuseIf_ne_ok_iff.2 (not_not.2 h)
    refine ⟨fun process hprocess hstands => ?_, by simpa using hregex⟩
    exact find?_eq_none.1 hfind process hprocess (decide_eq_true (.inl hstands))

/-- A pattern that is let through has no special characters, so it would have to stand in the name
of a process, and that has been checked. -/
theorem not_finds_of_accepted {name : Text} (hvalid : isValidProcessName name)
    (h : checkRuntime (.signalByName name false) = .ok ()) :
    (∃ r, Reads name r) ∧ ∀ r, Reads name r → ∀ process ∈ protectedProcesses, ¬r.Finds process := by
  simp only [isValidProcessName, and_eq_true, decide_eq_true_iff, all_eq_true,
    not_eq_true'] at hvalid
  obtain ⟨⟨⟨hne, -⟩, -⟩, hchars⟩ := hvalid
  obtain ⟨hstands, hregex⟩ := of_checkProcessPattern_eq_ok h
  rw [trim_of_forall fun c hc => (hchars c hc).1] at hstands hregex
  have hspecial : ∀ c ∈ name, c ∉ specialChars := by
    have hall : ∀ c ∈ specialChars, isAsciiUppercase c = false ∧ isRegexChar c :=
      forall_mem_of_all (by decide)
    intro c hc hmem
    have hnot := hregex c (mem_toAsciiLowercase hc (hall c hmem).1)
    rw [(hall c hmem).2] at hnot
    cases hnot
  refine ⟨exists_reads hne hspecial, fun r hr process hprocess hfinds => ?_⟩
  have hlower : ∀ process ∈ protectedProcesses, process.all (isAsciiUppercase · = false) := by
    decide
  have hname := infix_of_finds hr hspecial hfinds
  refine hstands process hprocess ?_
  rwa [toAsciiLowercase_of_forall fun c hc =>
    forall_mem_of_all (hlower process hprocess) c (hname.subset hc)]

theorem not_finds_of_accepted_nginx :
    checkRuntime (.signalByName "nginx" false) = .ok () ∧
      ∀ r, Reads "nginx" r → ∀ process ∈ protectedProcesses, ¬r.Finds process :=
  ⟨by decide, (not_finds_of_accepted (by decide) (by decide)).2⟩

/-! ### Packages -/

/-- How a package manager is told a package: by its name with what may follow it, by its name in a
repository, or by a file in it. -/
inductive PackageSpec where
  | plain (name : Text) (suffix : Text)
  | fromRepository (repository : Text) (mark : Char) (name suffix : Text)
  | file (path : Text)

def PackageSpec.text : PackageSpec → Text
  | plain name suffix => name ++ suffix
  | fromRepository repository mark name suffix => repository ++ mark :: (name ++ suffix)
  | file path => '/' :: path

/-- An architecture, a release or a version may follow a name. -/
def IsSuffix : Text → Prop
  | [] => True
  | mark :: text => mark ∈ suffixMarks ∨ mark = '.' ∨ mark = '/' ∨
      mark = '-' ∧ text.head?.any isAsciiDigit = true

/-- It means a package of the container runtime. `owner` is the package that owns a file. -/
def PackageSpec.Denotes (owner : Text → Option Text) : PackageSpec → Prop
  | plain name suffix => isRuntimeName name = true ∧ IsSuffix suffix
  | fromRepository repository mark name suffix => isRuntimeName name = true ∧ IsSuffix suffix ∧
      (mark = '/' ∨ mark = ':') ∧ ∀ c ∈ repository, c ∉ '/' :: suffixMarks
  | file path => ∃ name, owner ('/' :: path) = some name ∧ isRuntimeName name = true

/-- The guard sees what is meant. -/
def PackageSpec.Recognised : PackageSpec → Prop
  | plain name suffix =>
    inFamily name = true ∨ ∀ mark, suffix.head? = some mark → mark ∈ suffixMarks
  | fromRepository repository mark _ _ => inFamily (toAsciiLowercase repository) = true ∨
      mark = ':' ∧ toAsciiLowercase repository ∈ runtimes
  | file _ => False

theorem prefix_append_cons_iff {s t u : Text} {c : Char} (h : c ∉ s) :
    s <+: t ++ c :: u ↔ s <+: t := by
  refine ⟨fun hstart => ?_, fun hstart => hstart.trans (prefix_append t _)⟩
  rcases prefix_or_prefix_of_prefix hstart (prefix_append t (c :: u)) with hs | ⟨v, rfl⟩
  · exact hs
  · rw [prefix_append_right_inj] at hstart
    cases v with
    | nil => rw [append_nil]
    | cons =>
      rw [cons_prefix_cons] at hstart
      exact absurd (by simp [hstart.1]) h

theorem firstPart_append {front : Text} (h : ∀ c ∈ toAsciiLowercase front, c ∉ suffixMarks)
    (rest : Text) : firstPart (front ++ rest) = toAsciiLowercase front ++ firstPart rest := by
  rw [firstPart, toAsciiLowercase, map_append, ← toAsciiLowercase, ← toAsciiLowercase,
    takeWhile_append_of_pos fun c hc => by simp [h c hc], firstPart]

variable {suffix : Text}

theorem firstPart_eq_nil_iff :
    firstPart suffix = [] ↔ ∀ mark, suffix.head? = some mark → mark ∈ suffixMarks := by
  cases suffix with
  | nil => simp [firstPart, toAsciiLowercase]
  | cons c =>
    have hmarks : ∀ mark ∈ suffixMarks, isAsciiUppercase mark = false ∧
        isAsciiLowercase mark = false :=
      forall_mem_of_all (by decide)
    have hmark : (if isAsciiUppercase c then Char.ofNat (c.toNat + 32) else c) ∈ suffixMarks ↔
        c ∈ suffixMarks := by
      split_ifs with hupper
      · refine iff_of_false (fun hmem => ?_) fun hmem => ?_
        · simpa [(lowercase_of_isAsciiUppercase hupper).1] using (hmarks _ hmem).2
        · simpa [hupper] using (hmarks c hmem).1
      · exact Iff.rfl
    simp [firstPart, toAsciiLowercase, takeWhile_cons, hmark]

theorem isRuntimeName_iff : isRuntimeName name ↔ inFamily name ∨ name ∈ runtimes := by
  rw [isRuntimeName, or_eq_true]
  simp

theorem inFamily_iff : inFamily name ↔ ∃ family ∈ families, family <+: name := by
  simp [inFamily]

theorem plain_recognised_iff (hname : isRuntimeName name) :
    isRuntimeName (firstPart (name ++ suffix)) ↔ (PackageSpec.plain name suffix).Recognised := by
  have hnames : ∀ name ∈ families ++ runtimes, toAsciiLowercase name = name ∧
      name.all (· ∉ suffixMarks) := by
    decide
  rcases isRuntimeName_iff.1 hname with hfamily | hruntime
  · refine iff_of_true ?_ (.inl hfamily)
    obtain ⟨family, hmem, _, rfl⟩ := inFamily_iff.1 hfamily
    obtain ⟨hlower, hmarks⟩ := hnames family (mem_append_left _ hmem)
    rw [append_assoc, firstPart_append (by rw [hlower]; exact forall_mem_of_all hmarks), hlower]
    exact isRuntimeName_iff.2 (.inl (inFamily_iff.2 ⟨family, hmem, prefix_append _ _⟩))
  · obtain ⟨hlower, hmarks⟩ := hnames name (mem_append_right _ hruntime)
    rw [firstPart_append (by rw [hlower]; exact forall_mem_of_all hmarks), hlower]
    have hother : ∀ rest, inFamily (name ++ rest) = false := by
      have hname : name = "runc" ∨ name = "crun" := by simpa [runtimes] using hruntime
      rcases hname with rfl | rfl <;> exact fun _ => rfl
    have hself : name ++ firstPart suffix ∈ runtimes ↔ firstPart suffix = [] := by
      have hlengths : ∀ name ∈ runtimes, name.length = 4 := by
        decide
      refine ⟨fun hmem => ?_, fun hnil => by rwa [hnil, append_nil]⟩
      have hlength := hlengths _ hmem
      rw [length_append, hlengths name hruntime] at hlength
      exact length_eq_zero_iff.1 (by omega)
    have hplain := hother []
    rw [append_nil] at hplain
    rw [isRuntimeName_iff, hother, hself, firstPart_eq_nil_iff, PackageSpec.Recognised, hplain]

private theorem fromRepository_recognised_iff {repository : Text} {mark : Char}
    (hmark : mark = '/' ∨ mark = ':') (h : ∀ c ∈ repository, c ∉ '/' :: suffixMarks) :
    isRuntimeName (firstPart (repository ++ mark :: (name ++ suffix))) ↔
      (PackageSpec.fromRepository repository mark name suffix).Recognised := by
  have hlower : ∀ c ∈ '/' :: suffixMarks, c ∉ toAsciiLowercase repository := by
    have hmarks : ∀ c ∈ '/' :: suffixMarks, isAsciiLowercase c = false :=
      forall_mem_of_all (by decide)
    exact fun c hc hmem => h c (of_mem_toAsciiLowercase hmem (hmarks c hc)) hc
  rw [firstPart_append fun c hc hm => hlower c (mem_cons_of_mem _ hm) hc, isRuntimeName_iff]
  rcases hmark with rfl | rfl
  · have hslash : firstPart ('/' :: (name ++ suffix)) = '/' :: firstPart (name ++ suffix) := rfl
    have hfamilies : ∀ family ∈ families, '/' ∉ family := by
      decide
    have hruntimes : ∀ name ∈ runtimes, '/' ∉ name := by
      decide
    rw [hslash]
    refine or_congr ?_ (iff_of_false (fun hmem => hruntimes _ hmem (by simp)) (by simp))
    rw [inFamily_iff, inFamily_iff]
    refine exists_congr fun family => and_congr_right fun hmem => ?_
    exact prefix_append_cons_iff (hfamilies family hmem)
  · have hstop : firstPart (':' :: (name ++ suffix)) = [] := rfl
    rw [hstop, PackageSpec.Recognised]
    simp

/-- Upgrades and removals of the container runtime are refused just where the guard sees what is
meant; installations never are. -/
theorem package_refused_iff {owner : Text → Option Text} {spec : PackageSpec}
    (hvalid : isValidPackageName spec.text) (h : spec.Denotes owner) :
    (Refused (.upgradePackage spec.text) ↔ spec.Recognised) ∧
      (Refused (.removePackage spec.text) ↔ spec.Recognised) ∧
      ¬Refused (.installPackage spec.text) := by
  have htrim : trim spec.text = spec.text := by
    simp only [isValidPackageName, and_eq_true] at hvalid
    exact (graphic_of_alphanumericOr (by decide) hvalid.2).trim
  have hcheck : checkPackage spec.text ≠ .ok () ↔ spec.Recognised := by
    rw [checkPackage, refuseIf_ne_ok_iff, isContainerRuntimePackage, htrim]
    cases spec with
    | plain => exact plain_recognised_iff h.1
    | fromRepository =>
      exact fromRepository_recognised_iff h.2.2.1 h.2.2.2
    | file => exact iff_of_false false_ne_true id
  exact ⟨hcheck, hcheck, fun hrefused => hrefused rfl⟩

def dockerOwner : Text → Option Text := fun _ => some "docker-ce"

theorem package_refused_iff_amd64 :
    (Refused (.upgradePackage "docker-ce:amd64") ↔
        (PackageSpec.plain "docker-ce" ":amd64").Recognised) ∧
      (PackageSpec.plain "docker-ce" ":amd64").Recognised :=
  ⟨(@package_refused_iff dockerOwner (.plain "docker-ce" ":amd64") (by decide)
    ⟨by decide, .inl (by decide)⟩).1, .inl (by decide)⟩

/-- The guard lets a package of the container runtime be upgraded and removed. -/
def Missed (spec : PackageSpec) : Prop :=
  isValidPackageName spec.text = true ∧ spec.Denotes dockerOwner ∧
    checkRuntime (.upgradePackage spec.text) = .ok () ∧
    checkRuntime (.removePackage spec.text) = .ok ()

/-- A package with its repository, the path of a file, and a name with its architecture. -/
theorem package_missed :
    Missed (.fromRepository "extra" '/' "docker" []) ∧
      Missed (.file "usr/bin/dockerd") ∧ Missed (.plain "runc" ".x86_64") := by
  refine ⟨⟨by decide, ⟨by decide, trivial, .inl rfl, forall_mem_of_all (by decide)⟩, by decide,
      by decide⟩,
    ⟨by decide, ⟨_, rfl, by decide⟩, by decide, by decide⟩,
    ⟨by decide, ⟨by decide, .inr (.inl rfl)⟩, by decide, by decide⟩⟩

end Abyssal.Hosts.Guard
