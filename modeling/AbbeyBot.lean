import AbbeyBot.Library.Result
import AbbeyBot.Library.InPlace
import AbbeyBot.Library.Durable
import AbbeyBot.Library.OrderedMap
import AbbeyBot.Library.History
import AbbeyBot.Library.Word
import AbbeyBot.Library.Text
import AbbeyBot.Library.BinarySearch
import AbbeyBot.Library.PrefixScan
import AbbeyBot.Library.CivilDate
import AbbeyBot.Work.Types
import AbbeyBot.Work.Continuity.Store
import AbbeyBot.Work.Continuity.Wire
import AbbeyBot.Work.Continuity.Publication
import AbbeyBot.Work.Continuity.Update
import AbbeyBot.ActionApproval.Store
import AbbeyBot.ActionApproval.Once
import AbbeyBot.Calendar
import AbbeyBot.Engagement.Types
import AbbeyBot.Engagement.Settings
import AbbeyBot.Work.FollowUp
import AbbeyBot.Engagement.Policy
import AbbeyBot.Engagement.Schedule
import AbbeyBot.Engagement.Invitations
import AbbeyBot.Engagement.Introductions
import AbbeyBot.Engagement.Community
import AbbeyBot.Engagement.Lifecycle
import AbbeyBot.Engagement.TaskFollowUp
import AbbeyBot.Engagement.Erasure
import AbbeyBot.Engagement.Operations
import AbbeyBot.Engagement.Effects
import AbbeyBot.Engagement.Attempts
import AbbeyBot.Engagement.Consent
import AbbeyBot.Engagement.Budget
import AbbeyBot.Engagement.FollowUps
import AbbeyBot.Engagement.Permanence
import AbbeyBot.Engagement.InPlace
import AbbeyBot.Wdbx.Store
import AbbeyBot.Wdbx.Recall
import AbbeyBot.Wdbx.Isolation
import AbbeyBot.Wdbx.Handles
import AbbeyBot.Moderation.Case
import AbbeyBot.Moderation.Shadow
import AbbeyBot.Moderation.Independence
import AbbeyBot.CommunityOps.Policy
import AbbeyBot.CommunityOps.Budget
import AbbeyBot.CommunityOps.Proposals
import AbbeyBot.CommunityOps.Publication
import AbbeyBot.CommunityOps.Approval
import AbbeyBot.CommunityOps.Recovery
import AbbeyBot.PersonalMemory.Types
import AbbeyBot.PersonalMemory.Denial
import AbbeyBot.Library.Threads
import AbbeyBot.PersonalMemory.Recovery
import AbbeyBot.PersonalMemory.Mutation
import AbbeyBot.PersonalMemory.Commit
import AbbeyBot.PersonalMemory.Restart
import AbbeyBot.PersonalMemory.Provenance
import AbbeyBot.PersonalMemory.Permits
import AbbeyBot.Provider.Circuit
import AbbeyBot.Work.Continuity.Registry
import AbbeyBot.Brain.Erasure
import AbbeyBot.Brain.Reward.Types
import AbbeyBot.Brain.Reward.Collector
import AbbeyBot.Brain.Reward.Once
import AbbeyBot.Brain.Reward.Restorable
import AbbeyBot.Engagement.Evidence
import AbbeyBot.Brain.Reward.Deletion
import AbbeyBot.Brain.Reward.Accounting
import AbbeyBot.Provider.Routing
import AbbeyBot.Provider.Attempts
import AbbeyBot.PromptBudget
import AbbeyBot.Work.Registry
import AbbeyBot.Work.Schedule
import AbbeyBot.Work.Operations
import AbbeyBot.Work.Requests
import AbbeyBot.Engagement.ScopeText
import AbbeyBot.Brain.Replay
import AbbeyBot.Embedding.Wyhash
import AbbeyBot.Llm.ChannelMarkers
import AbbeyBot.Brain.Addenda.Evidence
import AbbeyBot.Wdbx.RoundTrip
import AbbeyBot.Wdbx.Reconcile
import AbbeyBot.Honesty.Verdict
import AbbeyBot.Llm.Chunks
import AbbeyBot.PersonalMemory.Rebase
import AbbeyBot.Wdbx.WorkCurrent
import AbbeyBot.Work.Rendering
import AbbeyBot.Server.Resume
import AbbeyBot.Server.ViewGate
import AbbeyBot.Engagement.Weekly
import AbbeyBot.Engagement.Proceeding
import AbbeyBot.Engagement.Accounts
import AbbeyBot.Engagement.Acceptance
import AbbeyBot.Work.Revisions
import AbbeyBot.Work.Learning
import AbbeyBot.Work.Once
import AbbeyBot.Work.Authority
import AbbeyBot.Work.Freshness
import AbbeyBot.Work.Stored
import AbbeyBot.Work.Loading
import AbbeyBot.Server.Spared
