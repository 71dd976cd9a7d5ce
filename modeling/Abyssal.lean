import Abyssal.Agent.Blocklist
import Abyssal.Agent.Elevation
import Abyssal.Agent.Grimoire
import Abyssal.Agent.Quarantine
import Abyssal.Agent.ScourgeConfig
import Abyssal.Agent.SepulchreConfig
import Abyssal.Agent.ServeEnd
import Abyssal.Agent.ServeExclusion
import Abyssal.Audit.Export
import Abyssal.Auth.LimiterHistory
import Abyssal.Auth.PasswordReset
import Abyssal.Execution.Executor
import Abyssal.Gravekeeper.AccountCreation
import Abyssal.Gravekeeper.Injection
import Abyssal.Gravekeeper.Offboarding
import Abyssal.Gravekeeper.Secrets
import Abyssal.Hosts.Cancellation
import Abyssal.Hosts.ConnectionExit
import Abyssal.Hosts.ControlPlane
import Abyssal.Hosts.DockerDevice
import Abyssal.Hosts.ElevationTracker
import Abyssal.Hosts.GuardedDisks
import Abyssal.Hosts.GuardedPaths
import Abyssal.Hosts.GuardedRuntime
import Abyssal.Hosts.Supersede
import Abyssal.InternalTls.StopPoints
import Abyssal.Mortiscope.Thresholds
import Abyssal.Panopticon.ActionLifecycle
import Abyssal.Panopticon.ApplyOutcome
import Abyssal.Panopticon.Cooldown
import Abyssal.Panopticon.CsvFields
import Abyssal.Panopticon.NeighborMerge
import Abyssal.Panopticon.PortLabels
import Abyssal.Panopticon.RoundTrip
import Abyssal.Panopticon.SoleAction
import Abyssal.Radius.MacText
import Abyssal.Radius.Wire
import Abyssal.Rbac.Delegation
import Abyssal.Reliquary.ArchivePaths
import Abyssal.Reliquary.DefaultsFile
import Abyssal.Reliquary.Maintenance
import Abyssal.Reliquary.RestoreVersion
import Abyssal.Reliquary.Retention
import Abyssal.Reliquary.RoundTrip
import Abyssal.Scourge.CaptureProcesses
import Abyssal.Scourge.Collection
import Abyssal.Scourge.Ingestion
import Abyssal.Scourge.NfqueueRules
import Abyssal.Sepulchre.LocalRoots
import Abyssal.Sepulchre.MountCredentials
import Abyssal.Sepulchre.MountTable
import Abyssal.Sepulchre.ReadBack
import Abyssal.Sepulchre.Validation
import Abyssal.Thanatos.EventOffsets
import Abyssal.Thanatos.Indicators
import Abyssal.Thanatos.PendingLines
import Abyssal.Thanatos.StreamManager
import Abyssal.Thanatos.Untrusted
import Abyssal.Web.ReturnTo
import Abyssal.Web.SignOff
import Abyssal.Web.SshDeploy
import Abyssal.Workflows.Evaluator
