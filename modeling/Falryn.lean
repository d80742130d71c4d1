import Falryn.Composer.DraftKept
import Falryn.Composer.PicksInPlace
import Falryn.Context.ContextBudget
import Falryn.Extensions.PackageExact
import Falryn.Orchestration.AgentJoin
import Falryn.Orchestration.BudgetConservation
import Falryn.Orchestration.ChildAuthority
import Falryn.Orchestration.ConflictKeys
import Falryn.Orchestration.DependencyGraph
import Falryn.Orchestration.EditScopeExclusion
import Falryn.Orchestration.MailboxAuthority
import Falryn.Orchestration.MailboxDenials
import Falryn.Orchestration.MailboxLifecycle
import Falryn.Orchestration.QuestionOnce
import Falryn.Orchestration.QueueItems
import Falryn.Orchestration.ResourceCapacity
import Falryn.Orchestration.SchedulerRelease
import Falryn.Orchestration.SchedulerWaiting
import Falryn.Orchestration.ScopeStructure
import Falryn.Orchestration.TaskLogExactness
import Falryn.Orchestration.WorkOrder
import Falryn.Orchestration.WorkProgress
import Falryn.Orchestration.WorkSelection
import Falryn.Orchestration.WorkTerminal
import Falryn.Recovery.RecoveryExact
import Falryn.Runtime.AttemptStory
import Falryn.Runtime.JournalCursor
import Falryn.Runtime.ShutdownProgress
import Falryn.Runtime.ToolLoopDispositions
import Falryn.Security.PublicAddress
import Falryn.Sessions.EventStoresAlike
import Falryn.Sessions.HistoryExact
import Falryn.Sessions.TurnEffects
import Falryn.Workspace.PatchReadBack
import Falryn.Workspace.WorkspacePath
