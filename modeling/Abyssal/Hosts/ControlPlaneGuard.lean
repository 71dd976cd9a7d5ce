import Abyssal.Hosts.Registry
import Abyssal.Text.Paths

/-!
# The guard of the control plane's own server

The part of the check that is about storage: what would destroy or hide the data of Docker, in which
the control plane's database is, is refused. The check sees the operation and the device that holds
this data, if the agent has reported it.
-/

namespace Abyssal.Hosts.Guard

open Text

inductive Operation where
  | quarantineFile (path : Text)
  | unmountFilesystem (target : Text)
  | mountFilesystem (target : Text)
  | removeMountUnit (mountPoint : Text)
  | createPartition (device : Text)
  | deletePartition (device : Text)
  | createFilesystem (device : Text)
  | filesystemRepair (device : Text)
  | createPhysicalVolume (device : Text)
  | removePhysicalVolume (device : Text)
  | createRaidArray (devices : List Text)
  | stopRaidArray
  | createVolumeGroup (physicalVolumes : List Text)
  | removeVolumeGroup
  | createLogicalVolume
  | extendLogicalVolume
  | removeLogicalVolume

def refuse (reason : Text) : Except String Unit :=
  .error (String.ofList ("Refused on the control plane's own server: " ++ reason))

def refuseIf (condition : Bool) (reason : Text) : Except String Unit :=
  if condition then refuse reason else .ok ()

theorem refuse_ne_ok (reason : Text) : refuse reason ≠ .ok () := by
  intro h
  cases h

variable (protection : ControlPlaneProtection)

def dockerDevice : Option Text :=
  protection.dockerDevice.map String.toList

/-! ### Paths -/

def protectedPathPrefixes : List Text :=
  ["/var/lib/docker", "/var/lib/containerd", "/usr/bin/docker",
    "/usr/bin/dockerd", "/usr/bin/containerd", "/usr/bin/runc",
    "/usr/local/bin/abyssal-agent", "/etc/abyssal-agent",
    "/var/lib/abyssal-agent"]

/-- `normalize_path`: empty names and the name `.` are dropped. -/
def normalizePath (path : Text) : Text := displayPath (components (trim path))

/-- The comparison that `is_protected_path` makes with a path it has normalized. -/
def coversPath (path : Text) : Bool :=
  protectedPathPrefixes.any fun start =>
    path = start || (start ++ ['/']).isPrefixOf path || (start ++ ['-']).isPrefixOf path

def isProtectedPath (path : Text) : Bool := coversPath (normalizePath path)

/-! ### Disks -/

/-- The disk that a partition is on, by its name. -/
def parentDisk (device : Text) : Option Text :=
  match "/dev/".toList.isPrefixOf? device with
  | none => none
  | some name =>
    if name.any (· = '/') || "dm-".toList.isPrefixOf name || "md".toList.isPrefixOf name then none
    else if "nvme".toList.isPrefixOf name || "mmcblk".toList.isPrefixOf name then
      match rsplitOnce 'p' name with
      | none => none
      | some (disk, part) =>
        if disk.getLast?.any isAsciiDigit && (part ≠ [] && part.all isAsciiDigit) then
          some ("/dev/" ++ disk)
        else none
    else
      let disk := name.rdropWhile isAsciiDigit
      if disk.length < name.length && disk ≠ [] then some ("/dev/" ++ disk) else none

def allOf (isIn : Char → Bool) (text : Text) : Bool := text ≠ [] && text.all isIn

def isWholeDisk (device : Text) : Bool :=
  match "/dev/".toList.isPrefixOf? device with
  | none => false
  | some name =>
    let lettersAfter (bus : Text) := (bus.isPrefixOf? name).any (allOf isAsciiLowercase)
    let nvme := (("nvme".toList.isPrefixOf? name).bind (splitOnce 'n')).any fun (ctrl, ns) =>
      allOf isAsciiDigit ctrl && allOf isAsciiDigit ns
    let mmc := ("mmcblk".toList.isPrefixOf? name).any (allOf isAsciiDigit)
    lettersAfter "sd" || lettersAfter "vd" || lettersAfter "xvd" ||
      lettersAfter "hd" || nvme || mmc

def relatedDevices (device : Text) : List Text :=
  let device := normalizePath device
  device :: (parentDisk device).toList

/-- Whether a device, by its normalized name, is refused for the sake of the protected one. -/
def touches (docker device : Text) : Bool :=
  (relatedDevices docker).any (· = device) || parentDisk device = some docker

def capitalize : Text → Text
  | [] => []
  | c :: s => c.toUpper :: s

def checkDisk (devices : List Text) (action : Text) : Except String Unit :=
  match dockerDevice protection with
  | none =>
    refuse (action ++ (" disks is refused until the agent has reported which device holds " ++
      "Docker's data (/var/lib/docker), so the control plane's own disk can't be touched by " ++
      "mistake. Reconnect the agent, or do this from a shell on the server.").toList)
  | some device =>
    let docker := normalizePath device
    if ((parentDisk docker).isSome || isWholeDisk docker) = false then
      refuse ("Docker's data is on " ++ docker ++
        ", whose physical disks aren't known here, so " ++ action ++
        " any disk is refused on this server. Do it from a shell on the server.")
    else
      match (devices.map normalizePath).find? (touches docker) with
      | some device =>
        refuse (device ++ " holds Docker's data (" ++ docker ++
          "), including the control plane's database. " ++ capitalize action ++
          " it would destroy the control plane.")
      | none => .ok ()

/-! ### Mount points -/

/-- The mount points whose loss hides the data of Docker. -/
def protectedMounts : List Text :=
  ["/", "/var", "/var/lib", "/var/lib/docker"]

/-- The comparison that `is_protected_mount` makes with a target it has normalized. -/
def coversMount (target : Text) : Bool :=
  protectedMounts.any (· = target) ||
    (dockerDevice protection).any fun device => (relatedDevices device).any (· = target)

def isProtectedMount (target : Text) (protection : ControlPlaneProtection) : Bool :=
  coversMount protection (normalizePath target)

/-! ### Layers -/

inductive Layer where
  | lvm
  | raid
  deriving DecidableEq

def layerOf (device : Text) : Option Layer :=
  if "/dev/mapper/".toList.isPrefixOf device || "/dev/dm-".toList.isPrefixOf device then some .lvm
  else if "/dev/md".toList.isPrefixOf device then some .raid
  else none

def checkLayered (layer : Layer) (action : Text) : Except String Unit :=
  match (dockerDevice protection).map normalizePath with
  | some device =>
    if layerOf device ≠ some layer then .ok ()
    else refuse ("Docker's data is on " ++ device ++ ", so " ++ action ++
      " is refused on this server. Do it from a shell on the server.")
  | none =>
    refuse (action ++ (" is refused until the agent has reported which device holds Docker's " ++
      "data (/var/lib/docker).").toList)

/-! ### The check -/

def check (operation : Operation) (protection : ControlPlaneProtection) : Except String Unit :=
  match operation with
  | .quarantineFile path =>
    refuseIf (isProtectedPath path) (path ++ (" belongs to Docker or this server's agent, which " ++
      "the control plane runs on.").toList)
  | .unmountFilesystem target =>
    refuseIf (isProtectedMount target protection) (target ++ (" holds Docker's data, including " ++
      "the control plane's database. Unmounting it would stop the control plane.").toList)
  | .mountFilesystem target =>
    refuseIf (isProtectedMount target protection) ("mounting over " ++ target ++
      " would hide Docker's data, including the control plane's database.")
  | .removeMountUnit mountPoint =>
    refuseIf (isProtectedMount mountPoint protection) (mountPoint ++
      " holds Docker's data, including the control plane's database.")
  | .createPartition device => checkDisk protection [device] "repartitioning"
  | .deletePartition device => checkDisk protection [device] "repartitioning"
  | .createFilesystem device => checkDisk protection [device] "formatting"
  | .filesystemRepair device =>
    checkDisk protection [device] "repairing a mounted filesystem on"
  | .createPhysicalVolume device =>
    checkDisk protection [device] "changing LVM physical volumes on"
  | .removePhysicalVolume device =>
    checkDisk protection [device] "changing LVM physical volumes on"
  | .createRaidArray devices => checkDisk protection devices "building a RAID array from"
  | .createVolumeGroup physicalVolumes =>
    checkDisk protection physicalVolumes "building a volume group from"
  | .removeLogicalVolume => checkLayered protection .lvm "removing LVM volumes"
  | .removeVolumeGroup => checkLayered protection .lvm "removing LVM volumes"
  | .stopRaidArray => checkLayered protection .raid "stopping RAID arrays"
  | .createLogicalVolume => .ok ()
  | .extendLogicalVolume => .ok ()

end Abyssal.Hosts.Guard
