import Cinatra.Extensions.Exclusion
import Cinatra.Workflows.Leases
import Cinatra.Workflows.Ticks
import Cinatra.Extensions.FailedUpdate
import Cinatra.Extensions.GatedLifecycle
import Cinatra.Authz.TenantIsolation
import Cinatra.Authz.TokenScopes
import Cinatra.Authz.Delegation
import Cinatra.Authz.ScopePicker
import Cinatra.Extensions.PurgeReport
import Cinatra.Extensions.LockedRow
import Cinatra.Extensions.DispatchTruth
import Cinatra.Authz.CustomerGrant
import Cinatra.AgentRuns.RecurringTick
import Cinatra.AgentRuns.QueuedRuns
import Cinatra.History.FailedUndo
import Cinatra.History.LaterWork
import Cinatra.History.Approvals
import Cinatra.A2a.GateIndex
import Cinatra.A2a.Resubscribe
import Cinatra.A2a.OpenInterrupt
import Cinatra.AgentRuns.GateApprovals
import Cinatra.AgentRuns.TriggerGate
import Cinatra.AgentRuns.OneSchedule
import Cinatra.AgentRuns.GateSteps
import Cinatra.AgentOas.BridgeAgreement
import Cinatra.AgentOas.TrustedUrls
import Cinatra.AgentOas.JsTernary
import Cinatra.AgentOas.SecretScan
import Cinatra.AgentOas.PlaceholderParity
import Cinatra.Workflows.SkipOrder
import Cinatra.Workflows.Anchors
import Cinatra.Workflows.Soliciting
import Cinatra.Artifacts.ArtifactTypes
import Cinatra.Artifacts.LiveBytes
import Cinatra.Workflows.Limits
import Cinatra.Workflows.Placeholders
import Cinatra.Workflows.CriticalPath
import Cinatra.Workflows.BpmnFlow
import Cinatra.Extensions.ClosureReports
import Cinatra.Registries.ResolvedTree
import Cinatra.Extensions.PlanCorrect
import Cinatra.History.ChangeSetPages
import Cinatra.Extensions.ActivationOrder
import Cinatra.Extensions.CrossKind
import Cinatra.Extensions.ManifestEdges
import Cinatra.Extensions.PlanResolution
import Cinatra.Extensions.RequiredRange
import Cinatra.History.VersionRestore
import Cinatra.History.CanonicalJson
import Cinatra.A2a.OpenInterrupt
import Cinatra.AgentRuns.WallClock
import Cinatra.Workflows.Durations
import Cinatra.Extensions.PlanBytes
