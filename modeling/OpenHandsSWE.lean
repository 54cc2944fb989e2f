import OpenHandsSWE.Lib.Json
import OpenHandsSWE.Lib.JsonText
import OpenHandsSWE.Lib.JsonRoundTrip
import OpenHandsSWE.Events.Event
import OpenHandsSWE.Events.EventFilter
import OpenHandsSWE.Lib.Blanks
import OpenHandsSWE.Lib.Brackets
import OpenHandsSWE.Events.EventLog
import OpenHandsSWE.Controller.State
import OpenHandsSWE.Controller.StateTracker
import OpenHandsSWE.Controller.History
import OpenHandsSWE.Lib.Text
import OpenHandsSWE.Lib.Python
import OpenHandsSWE.Memory.Message
import OpenHandsSWE.Memory.ConversationMemory
import OpenHandsSWE.Memory.ToolBlocks
import OpenHandsSWE.Memory.ToolResults
import OpenHandsSWE.Memory.PromptBlocks
import OpenHandsSWE.Memory.PromptPrefix
import OpenHandsSWE.Memory.RecalledKnowledge
import OpenHandsSWE.Memory.Condenser
import OpenHandsSWE.Memory.RollingView
import OpenHandsSWE.Events.Serialization.Action
import OpenHandsSWE.Events.Serialization.Event
import OpenHandsSWE.Events.EventStream
import OpenHandsSWE.Events.CachePages
import OpenHandsSWE.Events.StoredEvents
import OpenHandsSWE.Events.Delivery
import OpenHandsSWE.Harness.Grading
import OpenHandsSWE.Controller.CachedView
import OpenHandsSWE.Lib.AssocSum
import OpenHandsSWE.Services.ConversationStats
import OpenHandsSWE.Controller.Budget
import OpenHandsSWE.Lib.SubtreeStore
import OpenHandsSWE.Storage.BatchedWebHook
import OpenHandsSWE.Memory.ForgettingView
import OpenHandsSWE.Events.Serialization.RoundTrip
import OpenHandsSWE.Lib.Paging
import OpenHandsSWE.Events.NestedEventStore
import OpenHandsSWE.Controller.AgentController
import OpenHandsSWE.Controller.Session
import OpenHandsSWE.Controller.Effects
import OpenHandsSWE.Events.Delivered
import OpenHandsSWE.Controller.Confirmation
import OpenHandsSWE.Controller.ToolCallReset
import OpenHandsSWE.Controller.ResumedDelegate
import OpenHandsSWE.Controller.PendingSlot
import OpenHandsSWE.Controller.SharedFlags
import OpenHandsSWE.Harness.FailOnly
import OpenHandsSWE.Lib.Base64
import OpenHandsSWE.Lib.DateTime
import OpenHandsSWE.Utils.SearchUtils
import OpenHandsSWE.Storage.FileConversationStore
import OpenHandsSWE.Llm.ChatMessage
import OpenHandsSWE.Llm.SplitToolCalls
import OpenHandsSWE.Lib.Binary64
import OpenHandsSWE.Lib.JsonTokens
import OpenHandsSWE.Events.ShellPrompt
import OpenHandsSWE.Lib.Directory
import OpenHandsSWE.Storage.S3FileStore
import OpenHandsSWE.Storage.FileStores
import OpenHandsSWE.Memory.Condensers
import OpenHandsSWE.Lib.Runs
import OpenHandsSWE.Memory.DefaultPipeline
import OpenHandsSWE.Memory.CondensedViews
import OpenHandsSWE.AppServer.FilesystemEventService
import OpenHandsSWE.AppServer.SandboxStart
import OpenHandsSWE.AppServer.Sandboxes
import OpenHandsSWE.AppServer.AccessToken
import OpenHandsSWE.AppServer.ConversationInfo
import OpenHandsSWE.Runtime.PortLock
import OpenHandsSWE.Runtime.PortSearch
import OpenHandsSWE.AppServer.ProcessSandboxes
import OpenHandsSWE.AppServer.Webhooks
import OpenHandsSWE.Enterprise.EventWebhook
import OpenHandsSWE.Enterprise.Billing
import OpenHandsSWE.Enterprise.ClusteredConversations
import OpenHandsSWE.Server.UserSettings
import OpenHandsSWE.Server.AgentLoops
import OpenHandsSWE.Server.AttachedConversations
import OpenHandsSWE.Controller.RestoredHistory
import OpenHandsSWE.Controller.StuckDetector
import OpenHandsSWE.Controller.Replay
import OpenHandsSWE.Enterprise.ProactiveConversations
import OpenHandsSWE.Llm.FnCallConverter
import OpenHandsSWE.Llm.CutToolCalls
import OpenHandsSWE.Enterprise.IdpTokens
import OpenHandsSWE.Enterprise.RemoteCompletions
import OpenHandsSWE.Enterprise.SettingsUpgrade
import OpenHandsSWE.Enterprise.WorkingTime
import OpenHandsSWE.Harness.EvalScript
import OpenHandsSWE.Harness.RunInstance
import OpenHandsSWE.Harness.TestSection
import OpenHandsSWE.Agenthub.FunctionCalling
import OpenHandsSWE.Runtime.BashOutput
import OpenHandsSWE.Runtime.BashSession
import OpenHandsSWE.Runtime.Edit
import OpenHandsSWE.Llm.Metrics
import OpenHandsSWE.Events.Serialization.Truncation
import OpenHandsSWE.Harness.Reporting
import OpenHandsSWE.Lib.Splitlines
import OpenHandsSWE.Runtime.FileOps
import OpenHandsSWE.Lib.Words
import OpenHandsSWE.Harness.LogParsers
import OpenHandsSWE.Lib.JsonBraces
import OpenHandsSWE.Io.Json
import OpenHandsSWE.Runtime.GitChanges
import OpenHandsSWE.Lib.PathParts
import OpenHandsSWE.Runtime.ResolvePath
import OpenHandsSWE.Runtime.SplitCommands
import OpenHandsSWE.AppServer.ConversationUpdates
import OpenHandsSWE.AppServer.SearchConversations
import OpenHandsSWE.Lib.CompactTime
import OpenHandsSWE.AppServer.TimedEvents
import OpenHandsSWE.AppServer.RefreshConversation
import OpenHandsSWE.Lib.OrderedMap
import OpenHandsSWE.Server.SecretsStore
import OpenHandsSWE.Server.SecretsMigration
import OpenHandsSWE.Harness.DjangoLog
import OpenHandsSWE.Lib.JsonPrefix
import OpenHandsSWE.Evaluation.RunEvaluation
import OpenHandsSWE.Utils.ChunkLocalizer
import OpenHandsSWE.Harness.KarmaLog
import OpenHandsSWE.Runtime.CliFiles
import OpenHandsSWE.Llm.LLMConfig
import OpenHandsSWE.Runtime.CliCommand
import OpenHandsSWE.Inference.CodeText
import OpenHandsSWE.Runtime.PowershellJob
import OpenHandsSWE.Utils.LoadFromEnv
import OpenHandsSWE.Resolver.ApplyPatch
import OpenHandsSWE.Inference.RepairPatch
import OpenHandsSWE.Llm.FnCallConversation
import OpenHandsSWE.Server.RateLimiter
import OpenHandsSWE.Llm.LLMRegistry
import OpenHandsSWE.Security.InvariantTrace
import OpenHandsSWE.Server.CombinedSearch
