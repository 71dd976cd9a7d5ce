import Abyssal.Agent.Validators
import Abyssal.Check.Ensure

/-!
# The configuration files of Sepulchre

The renderers of a drop-in of `sshd`, an include file of Samba, a mount unit of `systemd` and a file
of credentials for a mount, with the checks that each makes of its own arguments.
-/

namespace Abyssal.Sepulchre

open Text Agent Except

/-! ### Checks -/

def requireAccountName (name : Text) : Except String Text :=
  if isValidAccountName name then .ok name
  else .error ("not a valid account name: " ++ String.ofList name)

def requireAbsolutePath (path : Text) : Except String Text :=
  if isValidAbsolutePath path then .ok path
  else .error ("not a valid absolute path: " ++ String.ofList path)

/-- The condition of `require_config_safe_token`. -/
def isConfigSafe (value : Text) : Bool :=
  value ≠ [] && byteLength value ≤ 255 && alphanumericOr ['-', '_', '.', ' '] value &&
    value.head? ≠ some ' ' && value.getLast? ≠ some ' '

def requireConfigSafeToken (value : Text) (field : String) : Except String Text :=
  if isConfigSafe value then .ok value
  else
    .error (field ++ " contains characters not allowed in a config file: " ++ String.ofList value)

/-! ### The drop-in of `sshd` -/

def matchBlockLines (username chrootDir : Text) : List Text := [
  [],
  "Match User " ++ username,
  "    ChrootDirectory " ++ chrootDir,
  "    ForceCommand internal-sftp",
  "    AllowTcpForwarding no",
  "    X11Forwarding no",
  "    PermitTTY no",
  "    AuthorizedKeysFile /etc/ssh/sepulchre/authorized_keys/%u"]

def renderSftpMatchBlock (username chrootDir : Text) : Except String Text := do
  let username ← requireAccountName username
  let chrootDir ← requireAbsolutePath chrootDir
  return unlines (matchBlockLines username chrootDir)

def managedLine : Text :=
  "# Managed by Abyssal Arsenal (Sepulchre) -- do not edit manually"

def renderFullSshdDropin (matchBlocks : List Text) : Text :=
  unlines [managedLine] ++ matchBlocks.flatten

/-! ### The include file of Samba -/

structure Share where
  name : Text
  path : Text
  validUsers : List Text
  readOnly : Bool

def Share.lines (share : Share) : List Text := [
  [],
  '[' :: (share.name ++ [']']),
  "    path = " ++ share.path,
  "    valid users = " ++ unwords share.validUsers,
  "    read only = " ++ (if share.readOnly then "yes" else "no").toList,
  "    guest ok = no",
  "    browseable = yes",
  "    create mask = 0640",
  "    directory mask = 0750"]

def renderSambaShareStanza (share : Share) : Except String Text := do
  let _ ← requireConfigSafeToken share.name "share name"
  let _ ← requireAbsolutePath share.path
  share.validUsers.forM fun user => do let _ ← requireAccountName user
  return unlines share.lines

def globalLines (encryptionRequired : Bool) : List Text := [
  managedLine,
  "[global]",
  "    server min protocol = SMB3",
  "    server signing = mandatory",
  "    server smb encrypt = " ++
    (if encryptionRequired then "required" else "desired").toList]

def renderFullSambaInclude (encryptionRequired : Bool) (shareStanzas : List Text) : Text :=
  unlines (globalLines encryptionRequired) ++ shareStanzas.flatten

/-! ### The mount unit -/

def hexByte (byte : UInt8) : Text :=
  [Nat.digitChar (byte.toNat / 16), Nat.digitChar (byte.toNat % 16)]

def escapeChar (c : Char) : Text :=
  if c = '/' then ['-']
  else if isAsciiAlphanumeric c || [':', '_', '.'].contains c then [c]
  else (String.utf8EncodeChar c).flatMap fun byte => '\\' :: 'x' :: hexByte byte

def systemdEscapePath (path : Text) : Text :=
  let trimmed := path.dropWhile (· = '/')
  if trimmed = [] then ['-'] else trimmed.flatMap escapeChar

structure Mount where
  what : Text
  mountPoint : Text
  fsType : Text
  options : Text

def Mount.lines (mount : Mount) : List Text := [
  "[Unit]",
  "Description=Sepulchre-managed mount for " ++ mount.mountPoint,
  "After=network-online.target",
  "Wants=network-online.target",
  [],
  "[Mount]",
  "What=" ++ mount.what,
  "Where=" ++ mount.mountPoint,
  "Type=" ++ mount.fsType,
  "Options=" ++ (mount.options ++ ",_netdev,nofail"),
  [],
  "[Install]",
  "WantedBy=multi-user.target"]

/-- `render_mount_unit_content`: the name of the unit and its content. Only the mount point is
checked. -/
def renderMountUnitContent (mount : Mount) : Except String (Text × Text) := do
  let mountPoint ← requireAbsolutePath mount.mountPoint
  return (systemdEscapePath mountPoint ++ ".mount", unlines mount.lines)

/-! ### Credentials -/

structure Credentials where
  username : Text
  password : Text
  domain : Option Text

variable (credentials : Credentials)

def Credentials.fields : List (String × Text) :=
  [("username", credentials.username), ("password", credentials.password)] ++
    credentials.domain.toList.map fun domain => ("domain", domain)

def Credentials.lines : List Text :=
  credentials.fields.map fun field => field.1.toList ++ '=' :: field.2

def renderCifsCredentialsFile : Except String Text := do
  credentials.fields.forM fun field => do
    if field.2.contains '\n' || field.2.contains '\r' then
      throw (field.1 ++ " may not contain a newline")
  return unlines credentials.lines

/-! ### The four files together -/

/-- A drop-in, an include file, a mount, or credentials. -/
inductive Config where
  | sshd (accounts : List (Text × Text))
  | samba (encryptionRequired : Bool) (shares : List Share)
  | mount (unit : Mount)
  | cifs (credentials : Credentials)

def Config.render : Config → Except String Text
  | .sshd accounts => do
    let blocks ← accounts.mapM fun account => renderSftpMatchBlock account.1 account.2
    return renderFullSshdDropin blocks
  | .samba encryptionRequired shares => do
    let stanzas ← shares.mapM renderSambaShareStanza
    return renderFullSambaInclude encryptionRequired stanzas
  | .mount unit => do
    let rendered ← renderMountUnitContent unit
    return rendered.2
  | .cifs credentials => renderCifsCredentialsFile credentials

def Config.lines : Config → List Text
  | .sshd accounts =>
    managedLine :: accounts.flatMap fun account => matchBlockLines account.1 account.2
  | .samba encryptionRequired shares => globalLines encryptionRequired ++ shares.flatMap Share.lines
  | .mount unit => unit.lines
  | .cifs credentials => credentials.lines

def Config.Valid : Config → Prop
  | .sshd accounts => ∀ account ∈ accounts,
    isValidAccountName account.1 = true ∧ isValidAbsolutePath account.2 = true
  | .samba _ shares => ∀ share ∈ shares,
    isConfigSafe share.name = true ∧ isValidAbsolutePath share.path = true ∧
      ∀ user ∈ share.validUsers, isValidAccountName user = true
  | .mount unit => isValidAbsolutePath unit.mountPoint = true
  | .cifs credentials => ∀ field ∈ credentials.fields, OneLine field.2

theorem requireAccountName_eq_ok {name name' : Text}
    (h : requireAccountName name = .ok name') : isValidAccountName name ∧ name' = name := by
  rw [requireAccountName] at h
  split_ifs at h with hvalid
  exact ⟨hvalid, (ok.inj h).symm⟩

theorem requireAbsolutePath_eq_ok {path path' : Text} (h : requireAbsolutePath path = .ok path') :
    isValidAbsolutePath path ∧ path' = path := by
  rw [requireAbsolutePath] at h
  split_ifs at h with hvalid
  exact ⟨hvalid, (ok.inj h).symm⟩

variable {out : Text}

theorem renderSftpMatchBlock_eq_ok {username chrootDir : Text}
    (h : renderSftpMatchBlock username chrootDir = .ok out) :
    (isValidAccountName username ∧ isValidAbsolutePath chrootDir) ∧
      out = unlines (matchBlockLines username chrootDir) := by
  obtain ⟨_, huser, hrest⟩ := bind_eq_ok.1 h
  obtain ⟨_, hpath, hout⟩ := bind_eq_ok.1 hrest
  obtain ⟨hvalid, rfl⟩ := requireAccountName_eq_ok huser
  obtain ⟨hvalid', rfl⟩ := requireAbsolutePath_eq_ok hpath
  exact ⟨⟨hvalid, hvalid'⟩, (ok.inj hout).symm⟩

theorem renderSambaShareStanza_eq_ok {share : Share} (h : renderSambaShareStanza share = .ok out) :
    (isConfigSafe share.name ∧ isValidAbsolutePath share.path ∧
      ∀ user ∈ share.validUsers, isValidAccountName user) ∧ out = unlines share.lines := by
  obtain ⟨_, hname, h⟩ := bind_eq_ok.1 h
  obtain ⟨_, hpath, h⟩ := bind_eq_ok.1 h
  obtain ⟨_, husers, h⟩ := bind_eq_ok.1 h
  have hsafe : isConfigSafe share.name := by
    rw [requireConfigSafeToken] at hname
    split_ifs at hname with hsafe
    exact hsafe
  refine ⟨⟨hsafe, (requireAbsolutePath_eq_ok hpath).1, fun user huser => ?_⟩, (ok.inj h).symm⟩
  obtain ⟨_, hvalid, -⟩ := bind_eq_ok.1 (forM_eq_ok husers user huser)
  exact (requireAccountName_eq_ok hvalid).1

private theorem renderCifsCredentialsFile_eq_ok {credentials : Credentials}
    (h : renderCifsCredentialsFile credentials = .ok out) :
    (∀ field ∈ credentials.fields, OneLine field.2) ∧ out = unlines credentials.lines := by
  obtain ⟨_, hfields, h⟩ := bind_eq_ok.1 h
  refine ⟨fun field hfield => ?_, (ok.inj h).symm⟩
  have hok := forM_eq_ok hfields field hfield
  split_ifs at hok with hnewline
  simpa [OneLine] using hnewline

theorem render_eq_ok {config : Config} (h : config.render = .ok out) :
    config.Valid ∧ out = unlines config.lines := by
  cases config with
  | sshd =>
    obtain ⟨_, hblocks, h⟩ := bind_eq_ok.1 h
    obtain ⟨hvalid, rfl⟩ := mapM_eq_ok (fun _ _ => renderSftpMatchBlock_eq_ok) hblocks
    refine ⟨hvalid, (ok.inj h).symm.trans ?_⟩
    rw [renderFullSshdDropin, ← unlines_flatMap]
    rfl
  | samba =>
    obtain ⟨_, hstanzas, h⟩ := bind_eq_ok.1 h
    obtain ⟨hvalid, rfl⟩ := mapM_eq_ok (fun _ _ => renderSambaShareStanza_eq_ok) hstanzas
    refine ⟨hvalid, (ok.inj h).symm.trans ?_⟩
    rw [renderFullSambaInclude, ← unlines_flatMap, ← unlines_append]
    rfl
  | mount =>
    obtain ⟨_, hunit, h⟩ := bind_eq_ok.1 h
    obtain ⟨_, hpath, hunit⟩ := bind_eq_ok.1 hunit
    cases hunit
    exact ⟨(requireAbsolutePath_eq_ok hpath).1, (ok.inj h).symm⟩
  | cifs => exact renderCifsCredentialsFile_eq_ok h

end Abyssal.Sepulchre
