import Iteron.AgentMailboxRun
import Iteron.AgentClose
import Iteron.AgentRecovery
import Iteron.AgentRequests
import Iteron.EffectRun
import Iteron.TurnDriverRun
import Iteron.DagWait
import Iteron.TurnStartRun
import Iteron.WorkflowJournalRun
import Iteron.TranscriptValid
import Iteron.PluginMerge
import Iteron.PatchRun
import Iteron.PromotionRun
import Iteron.SessionReaders
import Iteron.SessionForkLoad
import Iteron.SessionPinned
import Iteron.EffectLogs
import Iteron.EffectIdentity
import Iteron.DagFixpoint
import Iteron.DagReconcile
import Iteron.PricingCharge
import Iteron.CostFaithful
import Iteron.Compaction
import Iteron.RedactJson
import Iteron.RedactTwice
import Iteron.RolloutQueue
import Iteron.EditKeeps
import Iteron.PatchHunks
import Iteron.SchedulerReopen
import Iteron.DiffPath
import Iteron.Porcelain
import Iteron.SseTurn
import Iteron.ProcessOutput
import Iteron.McpSse
import Iteron.LspFraming
import Iteron.ProviderSseChunks
import Iteron.HotSwapReserve
import Iteron.MemoRun
import Iteron.StructuredOutput
import Iteron.UsageReservation
import Iteron.LspPendingRun
import Iteron.LspDocumentsRun
import Iteron.LspSessionRun
import Iteron.GovernorLockout
import Iteron.WorkflowCancel
import Iteron.WriteScope
import Iteron.FrameChunks
import Iteron.AgentHierarchy
import Iteron.Select
