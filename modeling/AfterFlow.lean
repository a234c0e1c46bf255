import AfterFlow.Agents.DanglingToolCalls
import AfterFlow.Agents.ErrorHandling
import AfterFlow.Agents.LoopStops
import AfterFlow.Agents.SkillContext
import AfterFlow.Agents.SkillSecrets
import AfterFlow.Agents.ToolOutputBudget
import AfterFlow.Agents.UserMessages
import AfterFlow.Auth.PasswordChanges
import AfterFlow.Channels.Connections
import AfterFlow.Channels.OAuthStates
import AfterFlow.Chat.Grouping
import AfterFlow.Chat.Retention
import AfterFlow.Compensation
import AfterFlow.Confirmation
import AfterFlow.Conservation
import AfterFlow.Events.Agreement
import AfterFlow.Events.RunMessages
import AfterFlow.Goals.Continuations
import AfterFlow.Journaling.MessageCount
import AfterFlow.Journaling.Tokens
import AfterFlow.Mcp.Capacity
import AfterFlow.Memory.Edits
import AfterFlow.Memory.Queue
import AfterFlow.Memory.Storage
import AfterFlow.OrderIds
import AfterFlow.Ownership
import AfterFlow.Promises
import AfterFlow.Repointing
import AfterFlow.Runs.Convergence
import AfterFlow.Runs.Creation
import AfterFlow.Runs.Identity
import AfterFlow.Runs.Listing
import AfterFlow.Runs.OneRun
import AfterFlow.Sandbox.BashOutput
import AfterFlow.Sandbox.Confined
import AfterFlow.Sandbox.DisabledSkills
import AfterFlow.Sandbox.FileEdits
import AfterFlow.Sandbox.GrepAndRead
import AfterFlow.Sandbox.StrReplace
import AfterFlow.Scheduler.Cap
import AfterFlow.Scheduler.Occurrence
import AfterFlow.Scheduler.Outcome
import AfterFlow.Scheduler.UserChanges
import AfterFlow.Scrutiny
import AfterFlow.Streams.Delivery
import AfterFlow.Subagents.Outcomes
import AfterFlow.Subagents.StepCapture
import AfterFlow.Supplements
import AfterFlow.Tampering
import AfterFlow.Threads.CheckpointEdits
import AfterFlow.Threads.Privacy
import AfterFlow.Threads.Replay
import AfterFlow.Threads.Search
import AfterFlow.Threads.Separation
import AfterFlow.WorkspaceChanges.Budgets
