import Abyssal.Hosts.ControlPlaneGuard
import Abyssal.Text.Template

/-!
# Disks and layers under the data of Docker

When the data of Docker is on a plain disk or partition, the guard relates other devices to it by
their names. But `/dev/loop0` passes for a partition of a disk `/dev/loop`. For volume groups,
logical volumes and RAID arrays it asks only for a layer of this kind at the top.

## Main results

* `diskGuarded_iff`, `not_diskGuarded_of_loop`: disks, and names under which they are let through.
* `layerGuarded_iff`: layers.
-/

namespace Abyssal.Hosts.Guard

open Text List Option

/-! ### Plain disks -/

abbrev Digits := { text : Text // allOf isAsciiDigit text = true }

abbrev Letters := { text : Text // allOf isAsciiLowercase text = true }

inductive Bus where
  | sd
  | vd
  | xvd
  | hd

def Bus.text : Bus → Text
  | sd => "sd"
  | vd => "vd"
  | xvd => "xvd"
  | hd => "hd"

/-- A disk whose partitions can be told by their names. -/
inductive Disk where
  | lettered (bus : Bus) (unit : Letters)
  | nvme (controller space : Digits)
  | mmc (number : Digits)

namespace Disk

def name : Disk → Text
  | lettered bus unit => bus.text ++ unit
  | nvme controller space => "nvme" ++ controller ++ 'n' :: space
  | mmc number => "mmcblk" ++ number

theorem name_nvme (controller space : Digits) :
    (nvme controller space).name = "nvme" ++ controller ++ 'n' :: space :=
  rfl

def path (disk : Disk) : Text := "/dev/" ++ disk.name

theorem path_eq (disk : Disk) : disk.path = "/dev/" ++ disk.name := rfl

/-- What stands between the name of the disk and the number of a partition. -/
def separator : Disk → Text
  | lettered _ _ => []
  | _ => ['p']

def partition (disk : Disk) (number : Digits) : Text :=
  disk.path ++ (disk.separator ++ number)

end Disk

def IsPlain (device : Text) : Prop :=
  ∃ disk : Disk, device = disk.path ∨ ∃ number, device = disk.partition number

/-- It is this device, the disk that holds it, or a partition that it consists of. -/
def Destroys (docker device : Text) : Prop :=
  device = docker ∨ ∃ (disk : Disk) (number : Digits),
    docker = disk.partition number ∧ device = disk.path ∨
      docker = disk.path ∧ device = disk.partition number

/-! ### Names of disks -/

theorem allOf_iff {isIn : Char → Bool} {text : Text} :
    allOf isIn text ↔ text ≠ [] ∧ ∀ c ∈ text, isIn c := by
  rw [allOf, Bool.and_eq_true, decide_eq_true_iff, List.all_eq_true]

variable {rest : Text}

theorem isPrefixOf?_eq_some_iff {start text : Text} :
    start.isPrefixOf? text = some rest ↔ text = start ++ rest := by
  rw [isPrefixOf?_eq_some_iff_append_eq, eq_comm]

def isPlainChar (c : Char) : Bool := isAsciiLowercase c || isAsciiDigit c

variable {c : Char}

theorem isPlainChar_of_digits {digits : Digits} (h : c ∈ digits.1) : isPlainChar c := by
  rw [isPlainChar, (allOf_iff.1 digits.2).2 c h, Bool.or_true]

variable {disk : Disk}

theorem isPlainChar_of_mem_name (h : c ∈ disk.name) : isPlainChar c := by
  have hfixed : ∀ text : Text, text.all isPlainChar → c ∈ text → isPlainChar c :=
    fun text hall hc => all_eq_true.1 hall c hc
  cases disk with
  | lettered bus unit =>
    rcases mem_append.1 h with hc | hc
    · exact hfixed bus.text (by cases bus <;> rfl) hc
    · rw [isPlainChar, (allOf_iff.1 unit.2).2 c hc, Bool.true_or]
  | nvme =>
    rcases mem_append.1 h with hc | hc
    · exact (mem_append.1 hc).elim (hfixed _ rfl) isPlainChar_of_digits
    · exact (mem_cons.1 hc).elim (fun hn => hn ▸ rfl) isPlainChar_of_digits
  | mmc => exact (mem_append.1 h).elim (hfixed _ rfl) isPlainChar_of_digits

theorem isPlainChar_partition {number : Digits}
    (h : c ∈ disk.name ++ (disk.separator ++ number)) : isPlainChar c := by
  rcases mem_append.1 h with hc | hc
  · exact isPlainChar_of_mem_name hc
  · refine (mem_append.1 hc).elim (fun hc => ?_) isPlainChar_of_digits
    have hsep : disk.separator.all isPlainChar := by cases disk <;> rfl
    exact all_eq_true.1 hsep c hc

private theorem lettersAfter_iff {bus name : Text} :
    (bus.isPrefixOf? name).any (allOf isAsciiLowercase) ↔ ∃ unit : Letters, name = bus ++ unit := by
  rw [Option.any_eq_true]
  constructor
  · rintro ⟨rest, hrest, hall⟩
    exact ⟨⟨rest, hall⟩, isPrefixOf?_eq_some_iff.1 hrest⟩
  · rintro ⟨unit, rfl⟩
    exact ⟨unit, isPrefixOf?_eq_some_iff.2 rfl, unit.2⟩

variable {device : Text}

open Disk

theorem isWholeDisk_iff : isWholeDisk device ↔ ∃ disk : Disk, device = disk.path := by
  constructor
  · intro h
    rw [isWholeDisk] at h
    split at h
    · cases h
    · next name hname =>
      obtain rfl := isPrefixOf?_eq_some_iff.1 hname
      simp only [Bool.or_eq_true, lettersAfter_iff] at h
      rcases h with ((((⟨unit, rfl⟩ | ⟨unit, rfl⟩) | ⟨unit, rfl⟩) | ⟨unit, rfl⟩) | hnvme) | hmmc
      · exact ⟨.lettered .sd unit, rfl⟩
      · exact ⟨.lettered .vd unit, rfl⟩
      · exact ⟨.lettered .xvd unit, rfl⟩
      · exact ⟨.lettered .hd unit, rfl⟩
      · obtain ⟨⟨ctrl, ns⟩, hbind, hall⟩ := (any_eq_true _ _).1 hnvme
        obtain ⟨rest, hrest, hsplit⟩ := bind_eq_some_iff.1 hbind
        obtain ⟨hctrl, hns⟩ := (Bool.and_eq_true _ _).mp hall
        obtain rfl := isPrefixOf?_eq_some_iff.1 hrest
        obtain rfl := eq_of_splitOnce hsplit
        exact ⟨.nvme ⟨ctrl, hctrl⟩ ⟨ns, hns⟩, congrArg _ (append_assoc ..).symm⟩
      · obtain ⟨rest, hrest, hall⟩ := (any_eq_true _ _).1 hmmc
        exact ⟨.mmc ⟨rest, hall⟩, by rw [isPrefixOf?_eq_some_iff.1 hrest]; rfl⟩
  · rintro ⟨disk, rfl⟩
    rw [isWholeDisk, path_eq, isPrefixOf?_eq_some_iff.2 rfl]
    simp only [Bool.or_eq_true, lettersAfter_iff]
    cases disk with
    | lettered bus unit =>
      cases bus with
      | sd => exact .inl (.inl (.inl (.inl (.inl ⟨unit, rfl⟩))))
      | vd => exact .inl (.inl (.inl (.inl (.inr ⟨unit, rfl⟩))))
      | xvd => exact .inl (.inl (.inl (.inr ⟨unit, rfl⟩)))
      | hd => exact .inl (.inl (.inr ⟨unit, rfl⟩))
    | nvme controller space =>
      refine .inl (.inr ((any_eq_true _ _).2 ⟨(controller, space), ?_, ?_⟩))
      · refine bind_eq_some_iff.2 ⟨controller ++ 'n' :: space, ?_, ?_⟩
        · rw [isPrefixOf?_eq_some_iff, name_nvme, append_assoc]
        · refine splitOnce_append_cons (fun hn => ?_) _
          cases (allOf_iff.1 controller.2).2 _ hn
      · exact (Bool.and_eq_true _ _).mpr ⟨controller.2, space.2⟩
    | mmc number =>
      exact .inr ((any_eq_true _ _).2 ⟨number, isPrefixOf?_eq_some_iff.2 rfl, number.2⟩)

def isNumbered (name : Text) : Bool :=
  "nvme".toList.isPrefixOf name || "mmcblk".toList.isPrefixOf name

theorem lettered_of_not_isNumbered
    (h : isNumbered (disk.name ++ rest) = false) : ∃ bus unit, disk = .lettered bus unit := by
  cases disk with
  | lettered bus unit => exact ⟨bus, unit, rfl⟩
  | nvme | mmc => cases h.symm

theorem separator_of_isNumbered (h : isNumbered (disk.name ++ rest)) : disk.separator = ['p'] := by
  cases disk with
  | lettered bus => cases bus <;> cases h
  | nvme | mmc => rfl

theorem parentDisk_dev (h : ∀ c ∈ disk.name ++ rest, isPlainChar c) :
    parentDisk ("/dev/" ++ (disk.name ++ rest)) = if isNumbered (disk.name ++ rest) then
        (rsplitOnce 'p' (disk.name ++ rest)).bind fun (base, part) =>
          if base.getLast?.any isAsciiDigit && allOf isAsciiDigit part then
            some ("/dev/" ++ base)
          else none
      else
        let base := (disk.name ++ rest).rdropWhile isAsciiDigit
        if base.length < (disk.name ++ rest).length && base ≠ [] then
          some ("/dev/" ++ base)
        else none := by
  have hslash : (disk.name ++ rest).any (· = '/') = false := by
    rw [List.any_eq_false]
    intro c hc heq
    rw [of_decide_eq_true heq] at hc
    cases h _ hc
  have hmapper : ("dm-".toList.isPrefixOf (disk.name ++ rest) ||
      "md".toList.isPrefixOf (disk.name ++ rest)) = false := by
    cases disk with
    | lettered bus => cases bus <;> rfl
    | nvme | mmc => rfl
  rw [parentDisk, isPrefixOf?_eq_some_iff.2 rfl]
  simp only [hslash, Bool.false_or, hmapper, Bool.false_eq_true, if_false, isNumbered, allOf]
  cases rsplitOnce 'p' (disk.name ++ rest) <;> rfl

theorem not_isAsciiDigit_of_lettered {bus : Bus} {unit : Letters}
    (h : c ∈ (lettered bus unit).name) : isAsciiDigit c = false := by
  have hlower : isAsciiLowercase c := by
    rcases mem_append.1 h with hc | hc
    · have hbus : bus.text.all isAsciiLowercase := by cases bus <;> rfl
      exact all_eq_true.1 hbus c hc
    · exact (allOf_iff.1 unit.2).2 c hc
  rw [Bool.eq_false_iff]
  intro hdigit
  have hge : 'a' ≤ c := of_decide_eq_true ((Bool.and_eq_true _ _).mp hlower).1
  have hle : c ≤ '9' := of_decide_eq_true ((Bool.and_eq_true _ _).mp hdigit).2
  exact absurd (Char.le_trans hge hle) (by decide)

theorem getLast?_digits (before : Text) (digits : Digits) :
    (before ++ digits).getLast?.any isAsciiDigit := by
  obtain ⟨hne, hall⟩ := allOf_iff.1 digits.2
  rw [getLast?_append_of_ne_nil _ hne, getLast?_eq_getLast_of_ne_nil hne]
  exact hall _ (getLast_mem hne)

theorem p_not_mem_digits (digits : Digits) : 'p' ∉ digits.1 := fun h =>
  absurd ((allOf_iff.1 digits.2).2 _ h) (by decide)

theorem parentDisk_path (disk : Disk) : parentDisk disk.path = none := by
  have hpath : disk.path = "/dev/".toList ++ (disk.name ++ []) := by rw [append_nil]; rfl
  rw [hpath, parentDisk_dev fun c hc => isPlainChar_of_mem_name (by simpa using hc), append_nil]
  cases disk with
  | lettered bus unit =>
    have hnumbered : isNumbered (lettered bus unit).name = false := by cases bus <;> rfl
    rw [hnumbered, rdropWhile_of_forall fun c => not_isAsciiDigit_of_lettered]
    simp
  | nvme controller space =>
    have hp : 'p' ∉ (nvme controller space).name := by
      simp only [name_nvme, mem_append, mem_cons, not_or]
      exact ⟨⟨by decide, p_not_mem_digits _⟩, by decide, p_not_mem_digits _⟩
    rw [rsplitOnce, splitOnce_eq_none_iff.2 (mem_reverse.not.2 hp)]
    rfl
  | mmc number =>
    have hp : 'p' ∉ (mmc number).name := fun h =>
      (mem_append.1 h).elim (by decide) (p_not_mem_digits number)
    rw [rsplitOnce, splitOnce_eq_none_iff.2 (mem_reverse.not.2 hp)]
    rfl

theorem parentDisk_partition (disk : Disk) (number : Digits) :
    parentDisk (disk.partition number) = some disk.path := by
  obtain ⟨hne, hall⟩ := allOf_iff.1 number.2
  rw [Disk.partition, path_eq, append_assoc, parentDisk_dev fun c => isPlainChar_partition]
  -- A disk of the numbered kinds ends with a digit, and a `p` stands before the partition.
  have hnumbered : ∀ before (digits : Digits), disk.name = before ++ digits →
      disk.separator = ['p'] → (rsplitOnce 'p' (disk.name ++ (disk.separator ++ number))).bind
        (fun (base, part) =>
          if base.getLast?.any isAsciiDigit && allOf isAsciiDigit part then
            some ("/dev/" ++ base)
          else none) = some ("/dev/" ++ disk.name) := by
    intro before digits hname hsep
    rw [hsep, singleton_append, rsplitOnce_append_cons (p_not_mem_digits number)]
    simp only [bind_some, hname, getLast?_digits, number.2, Bool.and_self, if_true]
  cases disk with
  | lettered bus unit =>
    have hnumber : isNumbered ((lettered bus unit).name ++
        ((lettered bus unit).separator ++ number)) = false := by cases bus <;> rfl
    have hname : (lettered bus unit).name ≠ [] := by cases bus <;> exact cons_ne_nil _ _
    rw [hnumber, separator, nil_append,
      rdropWhile_append_of_forall fun c => not_isAsciiDigit_of_lettered,
      rdropWhile_eq_nil_iff.2 hall]
    simp [hname, length_pos_iff.2 hne]
  | nvme controller space =>
    exact hnumbered ("nvme" ++ controller ++ ['n']) space (by simp [name_nvme]) rfl
  | mmc digits => exact hnumbered "mmcblk" digits rfl rfl

private theorem exists_partition
    (h : parentDisk device = some disk.path) : ∃ number, device = disk.partition number := by
  rw [parentDisk] at h
  split at h
  · exact absurd h (some_ne_none _).symm
  · next name hname =>
    obtain rfl := isPrefixOf?_eq_some_iff.1 hname
    rw [ite_none_left_eq_some] at h
    obtain ⟨-, h⟩ := h
    split at h
    · next hnumbered =>
      split at h
      · exact absurd h (some_ne_none _).symm
      · next base part hsplit =>
        rw [ite_none_right_eq_some] at h
        obtain ⟨hpart, h⟩ := h
        obtain rfl : base = disk.name := append_cancel_left (some.inj h)
        obtain rfl := eq_of_rsplitOnce hsplit
        refine ⟨⟨part, ((Bool.and_eq_true _ _).mp hpart).2⟩, ?_⟩
        rw [Disk.partition, separator_of_isNumbered hnumbered, path_eq]
        rfl
    · next hnumbered =>
      dsimp only at h
      rw [ite_none_right_eq_some] at h
      obtain ⟨hbase, h⟩ := h
      have hkeep := append_cancel_left (some.inj h)
      have hsplit := rdropWhile_append_rtakeWhile (p := isAsciiDigit) (l := name)
      rw [hkeep] at hsplit
      have hlength := of_decide_eq_true ((Bool.and_eq_true _ _).mp hbase).1
      have hnumber : allOf isAsciiDigit (name.rtakeWhile isAsciiDigit) := by
        refine allOf_iff.2 ⟨?_, fun c hc => mem_rtakeWhile_imp hc⟩
        intro hnil
        rw [hnil, append_nil] at hsplit
        rw [hkeep, hsplit] at hlength
        exact Nat.lt_irrefl _ hlength
      have hnot : isNumbered (disk.name ++ name.rtakeWhile isAsciiDigit) = false := by
        rw [hsplit]
        exact Bool.eq_false_iff.2 hnumbered
      obtain ⟨_, _, rfl⟩ := lettered_of_not_isNumbered hnot
      refine ⟨⟨_, hnumber⟩, ?_⟩
      rw [Disk.partition, path_eq, append_assoc, separator, nil_append, hsplit]

theorem isPlain_iff :
    IsPlain device ↔ isWholeDisk device ∨
      ∃ disk, parentDisk device = some disk ∧ isWholeDisk disk := by
  constructor
  · rintro ⟨disk, rfl | ⟨number, rfl⟩⟩
    · exact .inl (isWholeDisk_iff.2 ⟨disk, rfl⟩)
    · exact .inr ⟨disk.path, parentDisk_partition disk number, isWholeDisk_iff.2 ⟨disk, rfl⟩⟩
  · rintro (hdisk | ⟨_, hparent, hdisk⟩)
    · obtain ⟨disk, rfl⟩ := isWholeDisk_iff.1 hdisk
      exact ⟨disk, .inl rfl⟩
    · obtain ⟨disk, rfl⟩ := isWholeDisk_iff.1 hdisk
      exact ⟨disk, .inr (exists_partition hparent)⟩

/-- The check that the code makes, where what it takes for a parent is a disk. -/
theorem isPlain_iff_code (h : ∀ disk, parentDisk device = some disk → isWholeDisk disk) :
    IsPlain device ↔ ((parentDisk device).isSome || isWholeDisk device) := by
  rw [isPlain_iff, Bool.or_eq_true, isSome_iff_exists, or_comm]
  exact or_congr_left (exists_congr fun disk => and_iff_left_of_imp (h disk))

theorem not_isPlain (hdisk : isWholeDisk device = false)
    (hparent : parentDisk device = none) : ¬ IsPlain device := by
  rw [isPlain_iff, hdisk, hparent]
  simp

/-! ### Operations on disks -/

variable {protection : ControlPlaneProtection} {docker : Text}

theorem checkDisk_eq_ok_iff {devices : List Text} {action : Text} :
    checkDisk protection devices action = .ok () ↔ ∃ docker, dockerDevice protection = some docker ∧
      ((parentDisk (normalizePath docker)).isSome || isWholeDisk (normalizePath docker)) ∧
      ∀ device ∈ devices, touches (normalizePath docker) (normalizePath device) = false := by
  rw [checkDisk]
  cases dockerDevice protection with
  | none => exact iff_of_false (refuse_ne_ok _) fun ⟨_, h, _⟩ => some_ne_none _ h.symm
  | some docker =>
    simp only [some.injEq, exists_eq_left']
    split_ifs with hplain
    · refine iff_of_false (refuse_ne_ok _) fun h => ?_
      rw [hplain] at h
      exact Bool.false_ne_true h.1
    · cases hfind : (devices.map normalizePath).find? (touches (normalizePath docker)) with
      | none =>
        rw [find?_eq_none] at hfind
        refine iff_of_true rfl ⟨Bool.not_eq_false _ ▸ hplain, fun device hdevice => ?_⟩
        exact Bool.eq_false_iff.2 (hfind _ (mem_map_of_mem hdevice))
      | some device =>
        refine iff_of_false (refuse_ne_ok _) fun h => ?_
        obtain ⟨device, hdevice, rfl⟩ := mem_map.1 (mem_of_find?_eq_some hfind)
        have htouches := find?_some hfind
        rw [h.2 device hdevice] at htouches
        exact Bool.false_ne_true htouches

theorem isWhitespace_of_isPlain (h : IsPlain device) : ∀ c ∈ device, isWhitespace c = false := by
  obtain ⟨disk, rest, rfl, hplain⟩ : ∃ (disk : Disk) (rest : Text),
      device = "/dev/" ++ (disk.name ++ rest) ∧ ∀ c ∈ disk.name ++ rest, isPlainChar c := by
    obtain ⟨disk, rfl | ⟨number, rfl⟩⟩ := h
    · exact ⟨disk, [], by rw [append_nil]; rfl, fun c hc =>
        isPlainChar_of_mem_name (by simpa using hc)⟩
    · exact ⟨disk, _, append_assoc _ _ _, fun c => isPlainChar_partition⟩
  intro c hc
  rcases mem_append.1 hc with hc | hc
  · have hdev : "/dev/".toList.all (!isWhitespace ·) := rfl
    simpa using all_eq_true.1 hdev c hc
  · refine isWhitespace_of_isAsciiGraphic (isAsciiGraphic_of_isAsciiAlphanumeric ?_)
    rw [isAsciiAlphanumeric, Bool.or_assoc, ← isPlainChar, hplain c hc, Bool.or_true]

private theorem normalizePath_of_isPlain (h : IsPlain (normalizePath docker)) :
    normalizePath (normalizePath docker) = normalizePath docker := by
  rw [normalizePath, trim_of_forall (isWhitespace_of_isPlain h), normalizePath,
    components_displayPath fun _ => isName_of_mem_components]

theorem touches_of_destroys (hplain : IsPlain (normalizePath docker))
    (h : Destroys (normalizePath docker) device) : touches (normalizePath docker) device := by
  rw [touches, relatedDevices, normalizePath_of_isPlain hplain, Bool.or_eq_true, List.any_eq_true,
    decide_eq_true_iff]
  rcases h with rfl | ⟨disk, number, ⟨hdocker, rfl⟩ | ⟨hdocker, rfl⟩⟩
  · exact .inl ⟨_, mem_cons_self, decide_eq_true rfl⟩
  · rw [hdocker, parentDisk_partition]
    exact .inl ⟨_, mem_cons_of_mem _ mem_cons_self, decide_eq_true rfl⟩
  · rw [hdocker]
    exact .inr (parentDisk_partition disk number)

variable (protection) in
/-- Operations are let through only if the data of Docker is on a plain disk or partition and none
of the devices takes it along. A name leads to a device through links and `..`. -/
structure DiskGuarded (leadsTo : Text → Text) (devices : List Text) (action : Text) : Prop where
  plain : checkDisk protection devices action = .ok () →
    ∃ docker, dockerDevice protection = some docker ∧ IsPlain (normalizePath docker) ∧
      ∀ device ∈ devices, ¬ Destroys (normalizePath docker) (leadsTo device)
  other : ∀ docker, dockerDevice protection = some docker → ¬ IsPlain (normalizePath docker) →
    parentDisk (normalizePath docker) = none ∧ checkDisk protection devices action ≠ .ok ()

/-- The guard relates devices as it is meant to exactly if what it takes for the parent is a disk,
and devices under another name than their own take a plain one along only where another device is
refused. -/
theorem diskGuarded_iff (protection : ControlPlaneProtection) (leadsTo : Text → Text)
    (devices : List Text) (action : Text) :
    DiskGuarded protection leadsTo devices action ↔
      ∀ docker, dockerDevice protection = some docker →
        (∀ disk, parentDisk (normalizePath docker) = some disk → isWholeDisk disk) ∧
          (IsPlain (normalizePath docker) → ∀ device ∈ devices,
            normalizePath device ≠ leadsTo device →
            Destroys (normalizePath docker) (leadsTo device) →
              ∃ other ∈ devices, touches (normalizePath docker) (normalizePath other)) := by
  constructor
  · intro h docker hdocker
    have hparent : ∀ disk, parentDisk (normalizePath docker) = some disk → isWholeDisk disk := by
      intro disk hdisk
      by_contra hwhole
      have hplain : ¬ IsPlain (normalizePath docker) := by
        rintro ⟨disk', hpath | ⟨number, hpath⟩⟩
        · rw [hpath, parentDisk_path] at hdisk
          exact some_ne_none _ hdisk.symm
        · rw [hpath, parentDisk_partition] at hdisk
          exact hwhole (isWholeDisk_iff.2 ⟨disk', (some.inj hdisk).symm⟩)
      rw [(h.other docker hdocker hplain).1] at hdisk
      exact some_ne_none _ hdisk.symm
    refine ⟨hparent, fun hplain device hdevice _ hdestroys => ?_⟩
    by_contra hnone
    push Not at hnone
    have hok : checkDisk protection devices action = .ok () :=
      checkDisk_eq_ok_iff.2 ⟨docker, hdocker, (isPlain_iff_code hparent).1 hplain,
        fun other hother => Bool.eq_false_iff.2 (hnone other hother)⟩
    obtain ⟨docker', hdocker', -, hsafe⟩ := h.plain hok
    cases hdocker.symm.trans hdocker'
    exact hsafe device hdevice hdestroys
  · intro h
    constructor
    · intro hok
      obtain ⟨docker, hdocker, hcode, hsafe⟩ := checkDisk_eq_ok_iff.1 hok
      have hdisk := (isPlain_iff_code (h docker hdocker).1).2 hcode
      refine ⟨docker, hdocker, hdisk, fun device hdevice hdestroys => ?_⟩
      obtain ⟨other, hother, htouches⟩ : ∃ other ∈ devices,
          touches (normalizePath docker) (normalizePath other) := by
        by_cases hform : normalizePath device = leadsTo device
        · exact ⟨device, hdevice, hform ▸ touches_of_destroys hdisk hdestroys⟩
        · exact (h docker hdocker).2 hdisk device hdevice hform hdestroys
      rw [hsafe other hother] at htouches
      exact Bool.false_ne_true htouches
    · intro docker hdocker hnot
      rw [isPlain_iff_code (h docker hdocker).1] at hnot
      refine ⟨?_, fun hok => ?_⟩
      · cases hparent : parentDisk (normalizePath docker) with
        | none => rfl
        | some => exact absurd (by rw [hparent]; rfl) hnot
      · obtain ⟨_, hdocker', hcode, -⟩ := checkDisk_eq_ok_iff.1 hok
        cases hdocker.symm.trans hdocker'
        exact hnot hcode

/-- A loop device is taken for a partition, and a partition that is spelled with `..`, or named by a
link, is let through. -/
theorem not_diskGuarded_of_loop :
    check (.createFilesystem "/dev/sda") ⟨∅, some "/dev/loop0"⟩ = .ok () ∧
      parentDisk "/dev/loop0" = some "/dev/loop".toList ∧
      ¬ DiskGuarded ⟨∅, some "/dev/loop0"⟩ id ["/dev/sda"] "formatting" ∧
      ∀ device ∈ ["/dev/../dev/sda2".toList, "/dev/disk/by-id/ata-a-part2".toList],
        check (.createFilesystem device) ⟨∅, some "/dev/sda2"⟩ = .ok () ∧
          ¬ DiskGuarded ⟨∅, some "/dev/sda2"⟩ (fun _ => "/dev/sda2") [device] "formatting" := by
  have hthrough : ∀ device ∈ ["/dev/../dev/sda2".toList, "/dev/disk/by-id/ata-a-part2".toList],
      check (.createFilesystem device) ⟨∅, some "/dev/sda2"⟩ = .ok () :=
    forall_mem_cons.2 ⟨rfl, forall_mem_singleton.2 rfl⟩
  refine ⟨by rfl, by decide, fun h => ?_,
    fun device hdevice => ⟨hthrough device hdevice, fun h => ?_⟩⟩
  · have hloop : ¬ IsPlain "/dev/loop0" := by
      rw [isPlain_iff]
      rintro (hdisk | ⟨disk, hparent, hdisk⟩)
      · cases hdisk
      · have hname : parentDisk "/dev/loop0" = some "/dev/loop".toList := by decide
        cases hname.symm.trans hparent
        cases hdisk
    exact absurd (h.other _ rfl hloop).1 (by decide)
  · obtain ⟨_, hdocker, -, hsafe⟩ := h.plain (hthrough device hdevice)
    cases hdocker
    exact hsafe _ mem_cons_self (.inl (by decide))

/-! ### Layers -/

/-- What a device can consist of: a disk, or a layer of some kind on other devices. -/
inductive Storage where
  | disk
  | layered (layer : Layer) (below : List Storage)
  | other (below : List Storage)

/-- A layer of this kind is in the storage, at the top or beneath. -/
inductive Storage.DependsOn (layer : Layer) : Storage → Prop where
  | top (below : List Storage) : DependsOn layer (.layered layer below)
  | beneath {s : Storage} {below : List Storage} (layer' : Layer) :
    s ∈ below → DependsOn layer s → DependsOn layer (.layered layer' below)
  | through {s : Storage} {below : List Storage} :
    s ∈ below → DependsOn layer s → DependsOn layer (.other below)

/-- What a device of this name may consist of. -/
def MayBe (device : Text) (s : Storage) : Prop :=
  (IsPlain device → s = .disk) ∧
    ∀ layer, layerOf device = some layer → ∃ below, s = .layered layer below

def KnownFree (device : Text) (layer : Layer) : Prop :=
  ∀ s, MayBe device s → ¬ s.DependsOn layer

variable {layer : Layer}

theorem knownFree_iff : KnownFree device layer ↔ IsPlain device := by
  constructor
  · intro h
    by_contra hplain
    cases hlayer : layerOf device with
    | none =>
      refine h (.layered layer []) ⟨fun hp => absurd hp hplain, fun other hother => ?_⟩ (.top [])
      cases hlayer.symm.trans hother
    | some shown =>
      refine h (.layered shown [.layered layer []])
        ⟨fun hp => absurd hp hplain, fun other hother => ?_⟩
        (.beneath shown mem_cons_self (.top []))
      cases hlayer.symm.trans hother
      exact ⟨_, rfl⟩
  · rintro hplain s ⟨hdisk, -⟩ hdepends
    rw [hdisk hplain] at hdepends
    cases hdepends

def Layer.removals : Layer → List Operation
  | .lvm => [.removeLogicalVolume, .removeVolumeGroup]
  | .raid => [.stopRaidArray]

private theorem checkLayered_eq_ok_iff {action : Text} :
    checkLayered protection layer action = .ok () ↔
      ∃ docker, dockerDevice protection = some docker ∧
        layerOf (normalizePath docker) ≠ some layer := by
  rw [checkLayered]
  cases dockerDevice protection with
  | none => exact iff_of_false (refuse_ne_ok _) fun ⟨_, h, _⟩ => some_ne_none _ h.symm
  | some =>
    simp only [map_some, some.injEq, exists_eq_left']
    split_ifs with hlayer
    · exact iff_of_true rfl hlayer
    · exact iff_of_false (refuse_ne_ok _) hlayer

private theorem check_removal_iff {operation : Operation}
    (h : operation ∈ layer.removals) : check operation protection = .ok () ↔
      ∃ docker, dockerDevice protection = some docker ∧
        layerOf (normalizePath docker) ≠ some layer := by
  cases layer with
  | lvm =>
    rcases mem_pair.1 h with rfl | rfl
    · exact checkLayered_eq_ok_iff
    · exact checkLayered_eq_ok_iff
  | raid =>
    obtain rfl := mem_singleton.1 h
    exact checkLayered_eq_ok_iff

def LayerGuarded (protection : ControlPlaneProtection) (layer : Layer) : Prop :=
  ∀ operation ∈ layer.removals, check operation protection = .ok () →
    ∃ docker, dockerDevice protection = some docker ∧ KnownFree (normalizePath docker) layer

/-- The guard is right about a layer exactly if Docker's device, if known, is a plain disk or shows
this layer by its name. -/
theorem layerGuarded_iff (protection : ControlPlaneProtection) (layer : Layer) :
    LayerGuarded protection layer ↔ ∀ docker, dockerDevice protection = some docker →
      layerOf (normalizePath docker) = some layer ∨ IsPlain (normalizePath docker) := by
  constructor
  · intro h docker hdocker
    refine or_iff_not_imp_left.2 fun hlayer => ?_
    obtain ⟨operation, hmem⟩ : ∃ operation, operation ∈ layer.removals := by
      cases layer <;> exact ⟨_, mem_cons_self⟩
    obtain ⟨_, hdocker', hfree⟩ :=
      h operation hmem ((check_removal_iff hmem).2 ⟨docker, hdocker, hlayer⟩)
    cases hdocker.symm.trans hdocker'
    exact knownFree_iff.1 hfree
  · intro h operation hmem hok
    obtain ⟨docker, hdocker, hlayer⟩ := (check_removal_iff hmem).1 hok
    exact ⟨docker, hdocker, knownFree_iff.2 ((h docker hdocker).resolve_left hlayer)⟩

/-- A volume group is removed under a device of unknown kind, and a RAID array is stopped under a
logical volume. -/
theorem not_layerGuarded_of_unknown :
    check .removeVolumeGroup ⟨∅, some "/dev/root"⟩ = .ok () ∧
      ¬ LayerGuarded ⟨∅, some "/dev/root"⟩ .lvm ∧
      check .stopRaidArray ⟨∅, some "/dev/mapper/vg0-root"⟩ = .ok () ∧
      ¬ LayerGuarded ⟨∅, some "/dev/mapper/vg0-root"⟩ .raid := by
  refine ⟨by rfl, fun h => ?_, by rfl, fun h => ?_⟩
  · obtain ⟨_, hdocker, hfree⟩ := h .removeVolumeGroup (by simp [Layer.removals]) rfl
    cases hdocker
    exact not_isPlain (by decide) (by decide) (knownFree_iff.1 hfree)
  · obtain ⟨_, hdocker, hfree⟩ := h .stopRaidArray mem_cons_self rfl
    cases hdocker
    exact not_isPlain (by decide) (by decide) (knownFree_iff.1 hfree)

end Abyssal.Hosts.Guard
