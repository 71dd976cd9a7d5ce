import Abyssal.Check.Ensure
import Abyssal.Gravekeeper.Validators

/-!
# The scripts of Gravekeeper

Each operation checks its arguments, and then either refuses or runs one script, whose text is fixed
except for the arguments, which go in as quoted values. A word from a fixed list that the source
puts between apostrophes is a quoted value here, which gives the same text.
-/

namespace Abyssal.Gravekeeper

open Text

/-! ## Shared pieces -/

abbrev lit (code : String) : Part := .code code.toList

def psChecked (body : List Part) : List Part :=
  lit "$ErrorActionPreference = 'Stop'; try \x7b " ::
    (body ++ [lit " \x7d catch \x7b Write-Error $_; exit 1 \x7d"])

def flag (allow : Bool) : Part := if allow then lit "$true" else lit "$false"

def arrayOf : List Text → List Part
  | [] => [lit "@()"]
  | first :: rest =>
    lit "@(" :: .value first :: (rest.flatMap (fun item => [lit ",", .value item]) ++ [lit ")"])

/-- Looks the target up, refusing built-in accounts and, without the permission, protected ones. -/
def credAndGuard (server upn dn : Text) (allowPrivileged : Bool) : List Part :=
  [lit "$sapw = [Console]::In.ReadLine(); $sec = ConvertTo-SecureString -String $sapw ",
    lit "-AsPlainText -Force; $upn = ",
    .value upn, lit "; $server = ", .value server, lit "; $dn = ", .value dn,
    lit "; $cred = New-Object System.Management.Automation.PSCredential($upn, $sec); ",
    lit "$target = Get-ADUser -Server $server -Credential $cred -Identity $dn -Properties ",
    lit "objectSid,adminCount; if (-not $target) \x7b throw 'target user not found' \x7d; ",
    lit "$tsid = $target.SID.Value; if ($tsid -match '-(500|501|502)$') \x7b throw ",
    lit "'refused: a built-in account (Administrator/krbtgt/Guest) cannot be modified' \x7d; ",
    lit "if ($target.adminCount -eq 1 -and -not ",
    flag allowPrivileged,
    lit ") \x7b throw ",
    lit "'refused: protected/privileged object (adminCount=1) requires directory.privileged' ",
    lit "\x7d; "]

def credPreamble (server upn : Text) : List Part :=
  [lit "$sapw = [Console]::In.ReadLine(); $sec = ConvertTo-SecureString -String $sapw ",
    lit "-AsPlainText -Force; $upn = ",
    .value upn, lit "; $server = ", .value server,
    lit "; $cred = New-Object System.Management.Automation.PSCredential($upn, $sec); "]

def groupGuard (allowPrivileged : Bool) : List Part :=
  [lit "$grp = Get-ADGroup -Server $server -Credential $cred -Identity $gdn -Properties ",
    lit "adminCount,groupScope; $gsid = $grp.SID.Value; ",
    lit "if ((($grp.adminCount -eq 1) -or ($gsid -match '-(512|518|519|544|548|549|551)$')) -and ",
    lit "-not ",
    flag allowPrivileged,
    lit ") \x7b throw 'refused: protected/privileged group; needs directory.privileged' \x7d; "]

def objectGuard (allowPrivileged : Bool) : List Part :=
  [lit "$o = Get-ADObject -Server $server -Credential $cred -Identity $dn -Properties ",
    lit "adminCount,objectSid; if (-not $o) \x7b throw 'object not found' \x7d; $osid = $null; ",
    lit "try \x7b $osid = $o.objectSid.Value \x7d catch \x7b \x7d; ",
    lit "if ($osid -and ($osid -match '-(500|501|502)$')) \x7b throw ",
    lit "'refused: a built-in account (Administrator/krbtgt/Guest) cannot be modified' \x7d; ",
    lit "if (($o.adminCount -eq 1) -and -not ",
    flag allowPrivileged,
    lit ") \x7b throw ",
    lit "'refused: protected/privileged object (adminCount=1); needs directory.privileged' \x7d; "]

/-! ## Operations -/

def refusing (what : String) (argument : Text) : Text :=
  "refusing " ++ what.toList ++ ": " ++ argument

/-- An operation refuses with a message or runs a script. -/
abbrev Outcome := Except Text (List Part)

variable (domainDns upn targetDn : Text)

def validateWrite : Except Text Unit := do
  ensure (isValidHostname domainDns) (refusing "invalid AD domain" domainDns)
  ensure (isValidUserPrincipalName upn) (refusing "invalid service-account UPN" upn)
  ensure (isValidLdapDn targetDn) (refusing "invalid target DN" targetDn)

def search (domainDns query : Text) : Outcome := do
  ensure (isValidHostname domainDns) (refusing "invalid AD domain" domainDns)
  let trimmed := trim query
  ensure (trimmed ≠ [] ∧ byteLength trimmed ≤ 256)
    "search query must be 1-256 characters"
  return psChecked
    [lit "$server = ", .value domainDns, lit "; $q = ", .value trimmed,
      lit "; $esc = $q -replace '\\\\','\\5c' -replace '\\*','\\2a' -replace '\\(','\\28' ",
      lit "-replace '\\)','\\29' -replace '/','\\2f'; $filter = \"(anr=$esc)\"; ",
      lit "$users = @(Get-ADUser -Server $server -LDAPFilter $filter -ResultSetSize 50 ",
      lit "-Properties DisplayName,Enabled,UserPrincipalName | ForEach-Object \x7b [ordered]@\x7b ",
      lit "type='user'; name=$_.Name; sam=$_.SamAccountName; upn=$_.UserPrincipalName; ",
      lit "dn=$_.DistinguishedName; enabled=$_.Enabled; display=$_.DisplayName \x7d \x7d); ",
      lit "$groups = @(Get-ADGroup -Server $server -LDAPFilter $filter -ResultSetSize 50 | ",
      lit "ForEach-Object \x7b [ordered]@\x7b type='group'; name=$_.Name; sam=$_.SamAccountName; ",
      lit "dn=$_.DistinguishedName \x7d \x7d); $computers = @(Get-ADComputer -Server $server ",
      lit "-LDAPFilter $filter -ResultSetSize 50 -Properties Enabled | ForEach-Object \x7b ",
      lit "[ordered]@\x7b type='computer'; name=$_.Name; sam=$_.SamAccountName; ",
      lit "dn=$_.DistinguishedName; enabled=$_.Enabled \x7d \x7d); ",
      lit "@($users + $groups + $computers) | ConvertTo-Json -Depth 3"]

def getObject (domainDns dn : Text) : Outcome := do
  ensure (isValidHostname domainDns) (refusing "invalid AD domain" domainDns)
  ensure (isValidLdapDn dn) (refusing "invalid distinguished name" dn)
  return psChecked
    [lit "$server = ", .value domainDns, lit "; $dn = ", .value dn,
      lit "; $u = Get-ADUser -Server $server -Identity $dn -Properties ",
      lit "DisplayName,Enabled,LockedOut,Description,EmailAddress,Department,Title,",
      lit "UserPrincipalName,whenCreated,LastLogonDate,MemberOf -ErrorAction SilentlyContinue; ",
      lit "if ($u) \x7b $groups = @($u.MemberOf | ForEach-Object \x7b try \x7b $og=Get-ADGroup ",
      lit "-Server $server -Identity $_; [ordered]@\x7b name=$og.Name; ",
      lit "dn=$og.DistinguishedName \x7d \x7d catch \x7b [ordered]@\x7b name=\"$_\"; ",
      lit "dn=\"$_\" \x7d \x7d \x7d); $out = [ordered]@\x7b type='user'; name=$u.Name; ",
      lit "sam=$u.SamAccountName; upn=$u.UserPrincipalName; dn=$u.DistinguishedName; ",
      lit "display=$u.DisplayName; enabled=$u.Enabled; locked=$u.LockedOut; ",
      lit "description=$u.Description; email=$u.EmailAddress; department=$u.Department; ",
      lit "title=$u.Title; created=\"$($u.whenCreated)\"; last_logon=\"$($u.LastLogonDate)\"; ",
      lit "groups=$groups \x7d; $out | ConvertTo-Json -Depth 4; return \x7d; ",
      lit "$g = Get-ADGroup -Server $server -Identity $dn -Properties ",
      lit "Description,GroupScope,GroupCategory,Members,MemberOf -ErrorAction SilentlyContinue; ",
      lit "if ($g) \x7b $members = @($g.Members | Select-Object -First 200 | ForEach-Object \x7b ",
      lit "try \x7b $om=Get-ADObject -Server $server -Identity $_; [ordered]@\x7b name=$om.Name; ",
      lit "dn=$om.DistinguishedName \x7d \x7d catch \x7b [ordered]@\x7b name=\"$_\"; ",
      lit "dn=\"$_\" \x7d \x7d \x7d); $out = [ordered]@\x7b type='group'; name=$g.Name; ",
      lit "sam=$g.SamAccountName; dn=$g.DistinguishedName; description=$g.Description; ",
      lit "scope=\"$($g.GroupScope)\"; category=\"$($g.GroupCategory)\"; members=$members \x7d; ",
      lit "$out | ConvertTo-Json -Depth 4; return \x7d; ",
      lit "$c = Get-ADComputer -Server $server -Identity $dn -Properties ",
      lit "Enabled,Description,OperatingSystem,DNSHostName -ErrorAction SilentlyContinue; ",
      lit "if ($c) \x7b $out = [ordered]@\x7b type='computer'; name=$c.Name; ",
      lit "sam=$c.SamAccountName; dn=$c.DistinguishedName; enabled=$c.Enabled; ",
      lit "description=$c.Description; os=$c.OperatingSystem; dns=$c.DNSHostName \x7d; ",
      lit "$out | ConvertTo-Json -Depth 4; return \x7d; throw \"object not found: $dn\""]

def moveObject (domainDns upn targetDn newParentOu : Text) (allowPrivileged : Bool) : Outcome := do
  validateWrite domainDns upn targetDn
  ensure (isValidLdapDn newParentOu) (refusing "invalid destination OU" newParentOu)
  return psChecked (credPreamble domainDns upn ++
    [lit " $dn = ", .value targetDn, lit "; $ou = ", .value newParentOu, lit "; "] ++
    objectGuard allowPrivileged ++
    [lit " Move-ADObject -Server $server -Credential $cred -Identity $dn -TargetPath $ou; ",
      lit "Write-Output 'Object moved.'"])

def deleteObject (allowPrivileged : Bool) : Outcome := do
  validateWrite domainDns upn targetDn
  return psChecked (credPreamble domainDns upn ++
    [lit " $dn = ", .value targetDn, lit "; "] ++
    objectGuard allowPrivileged ++
    [lit " $rb = $false; try \x7b $rb = ((Get-ADOptionalFeature -Server $server -Credential $cred ",
      lit "-Filter \"name -eq 'Recycle Bin Feature'\").EnabledScopes.Count -gt 0) \x7d catch \x7b ",
      lit "\x7d; Remove-ADObject -Server $server -Credential $cred -Identity $dn -Confirm:$false; ",
      lit "[ordered]@\x7b ok = $true; recycle_bin = $rb \x7d | ConvertTo-Json -Compress"])

def offboard (domainDns upn targetDn disabledOu : Text) (allowPrivileged : Bool) : Outcome :=
    do
  validateWrite domainDns upn targetDn
  ensure (isValidLdapDn disabledOu) (refusing "invalid disabled OU" disabledOu)
  return psChecked (credPreamble domainDns upn ++
    [lit " $dn = ", .value targetDn, lit "; $disabled = ", .value disabledOu, lit "; "] ++
    objectGuard allowPrivileged ++
    [lit " $u = Get-ADUser -Server $server -Credential $cred -Identity $dn -Properties MemberOf; ",
      lit "$origou = ($dn -split ',',2)[1]; $leaf = ($dn -split ',',2)[0]; ",
      lit "Disable-ADAccount -Server $server -Credential $cred -Identity $dn; $removed = @(); ",
      lit "foreach ($g in @($u.MemberOf)) \x7b try \x7b Remove-ADGroupMember -Server $server ",
      lit "-Credential $cred -Identity $g -Members $dn -Confirm:$false; ",
      lit "$removed += $g \x7d catch \x7b \x7d \x7d; Move-ADObject -Server $server -Credential ",
      lit "$cred -Identity $dn -TargetPath $disabled; $newdn = \"$leaf,$disabled\"; ",
      lit "[ordered]@\x7b original_ou = $origou; groups = @($removed); ",
      lit "new_dn = $newdn \x7d | ConvertTo-Json -Compress"])

def undoOffboard (domainDns upn targetDn originalOu : Text) (groups : List Text)
    (allowPrivileged : Bool) : Outcome := do
  validateWrite domainDns upn targetDn
  ensure (isValidLdapDn originalOu) (refusing "invalid original OU" originalOu)
  groups.forM fun group => ensure (isValidLdapDn group) (refusing "invalid group DN" group)
  return psChecked (credPreamble domainDns upn ++
    [lit " $dn = ", .value targetDn, lit "; $origou = ", .value originalOu, lit "; "] ++
    objectGuard allowPrivileged ++
    [lit " $leaf = ($dn -split ',',2)[0]; Move-ADObject -Server $server -Credential $cred ",
      lit "-Identity $dn -TargetPath $origou; $newdn = \"$leaf,$origou\"; foreach ($g in "] ++
    arrayOf groups ++
    [lit ") \x7b try \x7b Add-ADGroupMember -Server $server -Credential $cred -Identity $g ",
      lit "-Members $newdn -Confirm:$false \x7d catch \x7b \x7d \x7d; ",
      lit "Enable-ADAccount -Server $server -Credential $cred -Identity $newdn; ",
      lit "Write-Output 'Offboarding undone.'"])

def groupScopeValue (scope : Text) : Option Text :=
  if scope = "global" then some "Global"
  else if scope = "universal" then some "Universal"
  else if scope = "domainlocal" then some "DomainLocal"
  else none

def groupCategoryValue (category : Text) : Option Text :=
  if category = "security" then some "Security"
  else if category = "distribution" then some "Distribution"
  else none

structure CreateGroupArgs where
  domainDns : Text
  serviceAccountUpn : Text
  name : Text
  targetOu : Text
  scope : Text
  category : Text
  description : Text

/-- The lower case of a text, which the standard library computes. -/
abbrev Lowercase := Text → Text

def groupParams (name scope category targetOu description : Text) : List Part :=
  [lit "$params = @\x7b Name = ", .value name, lit "; SamAccountName = ", .value name,
    lit "; GroupScope = ", .value scope, lit "; GroupCategory = ", .value category,
    lit "; Server = $server; Credential = $cred \x7d; "] ++
  (if targetOu = [] then []
    else [lit "$params['Path'] = ", .value targetOu, lit "; "]) ++
  (if trim description = [] then []
    else [lit "$params['Description'] = ", .value (trim description), lit "; "])

def createGroup (toLowercase : Lowercase) (args : CreateGroupArgs) : Outcome := do
  ensure (isValidHostname args.domainDns) (refusing "invalid AD domain" args.domainDns)
  ensure (isValidUserPrincipalName args.serviceAccountUpn)
    (refusing "invalid service-account UPN" args.serviceAccountUpn)
  let name := sanitizeSamAccountName toLowercase args.name
  ensure (isValidSamAccountName name) "the group name is not a valid account name"
  ensure (args.targetOu = [] ∨ isValidLdapDn args.targetOu)
    (refusing "invalid target OU" args.targetOu)
  match groupScopeValue args.scope, groupCategoryValue args.category with
  | none, _ => .error ("invalid group scope: " ++ args.scope)
  | some _, none => .error ("invalid group category: " ++ args.category)
  | some scope, some category =>
    return psChecked (credPreamble args.domainDns args.serviceAccountUpn ++ [lit " "] ++
      groupParams name scope category args.targetOu args.description ++
      [lit " $g = New-ADGroup @params -PassThru; [ordered]@\x7b dn = $g.DistinguishedName; ",
        lit "name = $g.Name \x7d | ConvertTo-Json -Compress"])

def deleteGroup (allowPrivileged : Bool) : Outcome := do
  validateWrite domainDns upn targetDn
  return psChecked (credPreamble domainDns upn ++
    [lit " $gdn = ", .value targetDn, lit "; "] ++
    groupGuard allowPrivileged ++
    [lit " Remove-ADGroup -Server $server -Credential $cred -Identity $gdn -Confirm:$false; ",
      lit "Write-Output 'Group deleted.'"])

inductive GroupMemberChange where
  | add
  | remove
  deriving DecidableEq

def GroupMemberChange.action : GroupMemberChange → List Part
  | .add =>
    [lit "if ($grp.GroupScope -eq 'Global') \x7b $gdom = (($gdn -split ',' | Where-Object \x7b $_ ",
      lit "-match '^DC=' \x7d | ForEach-Object \x7b $_ -replace '^DC=','' \x7d) -join '.'); ",
      lit "$mdom = (($mdn -split ',' | Where-Object \x7b $_ -match '^DC=' \x7d | ForEach-Object ",
      lit "\x7b $_ -replace '^DC=','' \x7d) -join '.'); ",
      lit "if ($gdom -ne $mdom) \x7b throw ",
      lit
      "\"a global group only takes members from its own domain ($gdom); the member is in $mdom\" ",
      lit "\x7d \x7d; Add-ADGroupMember -Server $server -Credential $cred -Identity $gdn -Members ",
      lit "$mdn -Confirm:$false"]
  | .remove =>
    [lit "Remove-ADGroupMember -Server $server -Credential $cred -Identity $gdn -Members $mdn ",
      lit "-Confirm:$false"]

def GroupMemberChange.msg : GroupMemberChange → Text
  | .add => "Member added."
  | .remove => "Member removed."

def changeGroupMember (change : GroupMemberChange) (domainDns upn groupDn memberDn : Text)
    (allowPrivileged : Bool) : Outcome := do
  ensure (isValidHostname domainDns) (refusing "invalid AD domain" domainDns)
  ensure (isValidUserPrincipalName upn) (refusing "invalid service-account UPN" upn)
  ensure (isValidLdapDn groupDn) (refusing "invalid group DN" groupDn)
  ensure (isValidLdapDn memberDn) (refusing "invalid member DN" memberDn)
  return psChecked (credPreamble domainDns upn ++
    [lit " $gdn = ", .value groupDn, lit "; $mdn = ", .value memberDn, lit "; "] ++
    groupGuard allowPrivileged ++
    [lit " "] ++ change.action ++ [lit "; Write-Output ", .value change.msg])

def unlockAccount (allowPrivileged : Bool) : Outcome := do
  validateWrite domainDns upn targetDn
  return psChecked (credAndGuard domainDns upn targetDn allowPrivileged ++
    [lit " Unlock-ADAccount -Server $server -Credential $cred -Identity $dn; ",
      lit "Write-Output 'Account unlocked.'"])

def setEnabled (enabled allowPrivileged : Bool) : Outcome := do
  validateWrite domainDns upn targetDn
  return psChecked (credAndGuard domainDns upn targetDn allowPrivileged ++
    [if enabled then lit " Enable-ADAccount" else lit " Disable-ADAccount",
      lit " -Server $server -Credential $cred -Identity $dn; Write-Output ",
      .value (if enabled then "Account enabled." else "Account disabled.")])

def setPassword (domainDns upn targetDn newPassword : Text) (allowPrivileged : Bool) : Outcome := do
  validateWrite domainDns upn targetDn
  ensure (newPassword ≠ []) "refusing to set an empty password"
  return psChecked (credAndGuard domainDns upn targetDn allowPrivileged ++
    [lit " $newpw = [Console]::In.ReadLine(); $nsec = ConvertTo-SecureString -String $newpw ",
      lit "-AsPlainText -Force; Set-ADAccountPassword -Server $server -Credential $cred -Identity ",
      lit "$dn -Reset -NewPassword $nsec; Set-ADUser -Server $server -Credential $cred -Identity ",
      lit "$dn -ChangePasswordAtLogon $true; Write-Output ",
      lit "'Password reset; the user must change it at next logon.'"])

structure CreateUserArgs where
  domainDns : Text
  serviceAccountUpn : Text
  targetOu : Text
  samBase : Text
  upnSuffix : Text
  givenName : Text
  surname : Text
  displayName : Text
  email : Text
  password : Text
  attributes : List (Text × Text)
  groups : List Text
  allowPrivileged : Bool

/-- The attributes that a new user gets from arguments of their own. -/
def reservedCreateAttrs : List Text :=
  ["samaccountname", "userprincipalname", "givenname", "sn", "displayname", "name", "cn",
    "unicodepwd", "useraccountcontrol"].map String.toList

def isReserved (toLowercase : Lowercase) (attr : Text) : Bool :=
  reservedCreateAttrs.contains (toLowercase attr)

/-- The statements for the attributes of a new user that are not reserved. -/
def otherStmts (toLowercase : Lowercase) : List (Text × Text) → Outcome
  | [] => .ok []
  | (k, v) :: attributes =>
    if isReserved toLowercase k then otherStmts toLowercase attributes
    else if isWritableAdUserAttribute k then do
      let rest ← otherStmts toLowercase attributes
      return lit "$other[" :: .value k :: lit "]=" :: .value v :: lit ";" :: rest
    else .error (refusing "non-allowlisted attribute" k)

def createUserBody (args : CreateUserArgs) (samBase : Text) (other : List Part) : List Part :=
  [lit "$sapw = [Console]::In.ReadLine(); $newpw = [Console]::In.ReadLine(); ",
    lit "$sec = ConvertTo-SecureString -String $sapw -AsPlainText -Force; ",
    lit "$nsec = ConvertTo-SecureString -String $newpw -AsPlainText -Force; $server = ",
    .value args.domainDns, lit "; $saupn = ", .value args.serviceAccountUpn,
    lit "; $cred = New-Object System.Management.Automation.PSCredential($saupn, $sec); $base = ",
    .value samBase, lit "; $suffix = ", .value args.upnSuffix,
    lit "; $targetOu = ", .value args.targetOu, lit "; $given = ", .value args.givenName,
    lit "; $surname = ", .value args.surname,
    lit "; $display = ", .value args.displayName, lit "; $email = ", .value args.email,
    lit "; $allow = ", flag args.allowPrivileged,
    lit "; $sam = $base; $n = 1; while (Get-ADUser -Server $server -Credential $cred -LDAPFilter ",
    lit "\"(sAMAccountName=$sam)\" -ErrorAction SilentlyContinue) \x7b $n++; $cand = \"$base$n\"; ",
    lit "if ($cand.Length -gt 20) \x7b $cand = $cand.Substring(0,20) \x7d; $sam = $cand; ",
    lit "if ($n -gt 50) \x7b throw 'could not find a free sAMAccountName' \x7d \x7d; ",
    lit "$upn = \"$sam@$suffix\"; $name = if ($display) \x7b $display \x7d else \x7b $sam \x7d; ",
    lit "$other = @\x7b\x7d; "] ++
  other ++
  [lit " $params = @\x7b Name = $name; SamAccountName = $sam; UserPrincipalName = $upn; ",
    lit "AccountPassword = $nsec; Enabled = $true; ChangePasswordAtLogon = $true; ",
    lit "Server = $server; Credential = $cred \x7d; if ($given) \x7b $params['GivenName'] = ",
    lit "$given \x7d; if ($surname) \x7b $params['Surname'] = $surname \x7d; ",
    lit "if ($display) \x7b $params['DisplayName'] = $display \x7d; ",
    lit "if ($email) \x7b $params['EmailAddress'] = $email \x7d; ",
    lit "if ($targetOu) \x7b $params['Path'] = $targetOu \x7d; ",
    lit "if ($other.Count -gt 0) \x7b $params['OtherAttributes'] = $other \x7d; ",
    lit "New-ADUser @params; foreach ($gdn in "] ++
  arrayOf args.groups ++
  [lit ") \x7b $grp = Get-ADGroup -Server $server -Credential $cred -Identity $gdn -Properties ",
    lit "adminCount; $gsid = $grp.SID.Value; $prot = ($grp.adminCount -eq 1) -or ($gsid -match ",
    lit "'-(512|518|519|544|548|549|551)$'); if ($prot -and -not $allow) \x7b throw ",
    lit "\"refused: group $gdn is protected (adminCount=1 or a privileged group); needs directory.privileged\" ",
    lit "\x7d; Add-ADGroupMember -Server $server -Credential $cred -Identity $gdn -Members $sam ",
    lit "\x7d; [ordered]@\x7b sam = $sam; upn = $upn; ",
    lit "created = $true \x7d | ConvertTo-Json -Compress"]

def createUser (toLowercase : Lowercase) (args : CreateUserArgs) : Outcome := do
  ensure (isValidHostname args.domainDns) (refusing "invalid AD domain" args.domainDns)
  ensure (isValidUserPrincipalName args.serviceAccountUpn)
    (refusing "invalid service-account UPN" args.serviceAccountUpn)
  ensure (isValidHostname args.upnSuffix) (refusing "invalid UPN suffix" args.upnSuffix)
  let samBase := sanitizeSamAccountName toLowercase args.samBase
  ensure (isValidSamAccountName samBase) "the computed logon name is not valid"
  ensure (args.password ≠ []) "refusing to create a user with an empty password"
  ensure (args.targetOu = [] ∨ isValidLdapDn args.targetOu)
    (refusing "invalid target OU" args.targetOu)
  args.groups.forM fun group => ensure (isValidLdapDn group) (refusing "invalid group DN" group)
  let other ← otherStmts toLowercase args.attributes
  return psChecked (createUserBody args samBase other)

inductive Operation where
  | search (domainDns query : Text)
  | getObject (domainDns dn : Text)
  | moveObject (domainDns upn targetDn newParentOu : Text) (allowPrivileged : Bool)
  | deleteObject (domainDns upn targetDn : Text) (allowPrivileged : Bool)
  | offboard (domainDns upn targetDn disabledOu : Text) (allowPrivileged : Bool)
  | undoOffboard (domainDns upn targetDn originalOu : Text) (groups : List Text)
      (allowPrivileged : Bool)
  | createGroup (args : CreateGroupArgs)
  | deleteGroup (domainDns upn targetDn : Text) (allowPrivileged : Bool)
  | changeGroupMember (change : GroupMemberChange) (domainDns upn groupDn memberDn : Text)
      (allowPrivileged : Bool)
  | unlockAccount (domainDns upn targetDn : Text) (allowPrivileged : Bool)
  | setEnabled (domainDns upn targetDn : Text) (enabled allowPrivileged : Bool)
  | setPassword (domainDns upn targetDn newPassword : Text) (allowPrivileged : Bool)
  | createUser (args : CreateUserArgs)

def Operation.script (toLowercase : Lowercase) : Operation → Outcome
  | .search domainDns query => Gravekeeper.search domainDns query
  | .getObject domainDns dn => Gravekeeper.getObject domainDns dn
  | .moveObject domainDns upn targetDn newParentOu allow =>
    Gravekeeper.moveObject domainDns upn targetDn newParentOu allow
  | .deleteObject domainDns upn targetDn allow =>
    Gravekeeper.deleteObject domainDns upn targetDn allow
  | .offboard domainDns upn targetDn disabledOu allow =>
    Gravekeeper.offboard domainDns upn targetDn disabledOu allow
  | .undoOffboard domainDns upn targetDn originalOu groups allow =>
    Gravekeeper.undoOffboard domainDns upn targetDn originalOu groups allow
  | .createGroup args => Gravekeeper.createGroup toLowercase args
  | .deleteGroup domainDns upn targetDn allow =>
    Gravekeeper.deleteGroup domainDns upn targetDn allow
  | .changeGroupMember change domainDns upn groupDn memberDn allow =>
    Gravekeeper.changeGroupMember change domainDns upn groupDn memberDn allow
  | .unlockAccount domainDns upn targetDn allow =>
    Gravekeeper.unlockAccount domainDns upn targetDn allow
  | .setEnabled domainDns upn targetDn enabled allow =>
    Gravekeeper.setEnabled domainDns upn targetDn enabled allow
  | .setPassword domainDns upn targetDn newPassword allow =>
    Gravekeeper.setPassword domainDns upn targetDn newPassword allow
  | .createUser args => Gravekeeper.createUser toLowercase args

end Abyssal.Gravekeeper
