import Mathlib
import AbbeyBot.Calendar
import AbbeyBot.Library.OrderedMap
import AbbeyBot.Library.Text
import AbbeyBot.Work.Types

/-! # Engagement records

Bounded contact with members: their policies, what was observed of them, the candidates for a
contact, the introductions of two members to each other, the charges of attempted contacts, and what
is kept of all this after a member's records are erased. A scope is a channel of a guild or the
direct messages of a member. -/

namespace AbbeyBot.Engagement

open AbbeyBot.Calendar AbbeyBot.Library.OrderedMap AbbeyBot.Library.Text AbbeyBot.Work.Types

/-- The members of an introduction are counted from zero. -/
scoped instance neZero_two : NeZero 2 := ⟨two_ne_zero⟩

/-! ### Scopes -/

inductive EngagementScope where
  | guild (guild channel : ℕ)
  | dm (member channel : ℕ)
  deriving DecidableEq, Repr

def EngagementScope.ordKey : EngagementScope → List ℕ
  | .guild g channel => [0, g, channel]
  | .dm member channel => [1, member, channel]

theorem EngagementScope.ordKey_injective : Function.Injective EngagementScope.ordKey := by
  rintro (⟨a, b⟩ | ⟨a, b⟩) (⟨c, d⟩ | ⟨c, d⟩) h <;> simp_all [EngagementScope.ordKey]

instance : Ord EngagementScope := ordByKey EngagementScope.ordKey

instance : Std.TransOrd EngagementScope := transOrd_ordByKey _

instance : Std.LawfulEqOrd EngagementScope := lawfulEqOrd_ordByKey EngagementScope.ordKey_injective

/-- `String::from`, the wire key of a scope. -/
def EngagementScope.key : EngagementScope → String
  | .guild g channel => "guild\x1f" ++ toString g ++ "\x1f" ++ toString channel
  | .dm member channel => "dm\x1f" ++ toString member ++ "\x1f" ++ toString channel

/-- `learning_scope`: learning is erased for a whole guild, or for the direct messages of a member. -/
def EngagementScope.learningScope : EngagementScope → String
  | .guild g _ => "discord:" ++ toString g
  | .dm member _ => "discord:dm:" ++ toString member

/-- The guild of a scope. -/
def EngagementScope.guild? : EngagementScope → Option ℕ
  | .guild g _ => some g
  | .dm _ _ => none

/-- `work_scope`: the workspace of a scope. -/
def EngagementScope.workScope : EngagementScope → WorkScope
  | .guild g channel => .team g channel
  | .dm member _ => .personal member

/-! ### Members -/

inductive DestinationPreference where
  | origin
  | private_
  deriving DecidableEq, Repr

structure WeeklySubscription where
  weekday : ℕ
  hour : ℕ
  scope : EngagementScope
  destination : DestinationPreference
  deriving DecidableEq, Repr

structure MemberPolicy where
  revision : ℕ
  dailyLimit : Option ℕ
  weeklyLimit : Option ℕ
  timezone : Option String
  quietStart : ℕ
  quietEnd : ℕ
  globalStop : Bool
  stoppedGuilds : BTreeSet ℕ
  stoppedScopes : BTreeSet EngagementScope
  snoozedUntil : Option ℕ
  weeklySubscription : Option WeeklySubscription
  destinations : BTreeMap EngagementScope DestinationPreference
  deriving DecidableEq

/-- `MemberPolicy::default`. -/
def MemberPolicy.default : MemberPolicy where
  revision := 0
  dailyLimit := none
  weeklyLimit := none
  timezone := none
  quietStart := 22
  quietEnd := 8
  globalStop := false
  stoppedGuilds := ∅
  stoppedScopes := ∅
  snoozedUntil := none
  weeklySubscription := none
  destinations := ∅

/-- A message of a member, as it was observed. -/
structure SourceRef where
  scope : EngagementScope
  message : ℕ
  author : ℕ
  revision : ℕ
  at_ : ℕ
  deriving DecidableEq, Repr

inductive FeedbackKind where
  | useful
  | dismissed
  deriving DecidableEq, Repr

structure ExplicitFeedback where
  actor : ℕ
  at_ : ℕ
  kind : FeedbackKind
  deriving DecidableEq, Repr

/-! ### Guilds -/

inductive CommunityFeature where
  | starters
  | questions
  | welcomes
  | projects
  | introductions
  deriving DecidableEq, Repr

def CommunityFeature.ordKey : CommunityFeature → List ℕ
  | .starters => [0]
  | .questions => [1]
  | .welcomes => [2]
  | .projects => [3]
  | .introductions => [4]

instance : Ord CommunityFeature := ordByKey CommunityFeature.ordKey

instance : Std.TransOrd CommunityFeature := transOrd_ordByKey _

structure GuildFeaturePolicy where
  revision : ℕ
  enabled : BTreeSet CommunityFeature
  channels : BTreeMap CommunityFeature (BTreeSet ℕ)

/-- The feature is on, in this channel. -/
def GuildFeaturePolicy.admits (p : GuildFeaturePolicy) (f : CommunityFeature) (channel : ℕ) : Bool :=
  f ∈ p.enabled && (p.channels[f]?).any fun channels => channel ∈ channels

/-! ### Candidates -/

inductive EngagementKind where
  | followUp
  | weeklyCheckIn
  | activityInvite
  | voiceInvite
  | conversationStarter
  | unansweredQuestion
  | welcome
  | projectCheckIn
  | introduction
  deriving DecidableEq, Repr

/-- `community::feature`: the guild feature that governs a kind of public contact. -/
def EngagementKind.feature : EngagementKind → Option CommunityFeature
  | .conversationStarter => some .starters
  | .unansweredQuestion => some .questions
  | .welcome => some .welcomes
  | .projectCheckIn => some .projects
  | _ => none

/-- `invitation_kind`. -/
def EngagementKind.isInvitation (kind : EngagementKind) : Bool :=
  kind == .activityInvite || kind == .voiceInvite

inductive CandidateState where
  | pending
  | reserved
  | sent
  | cancelled
  | rejected
  | reviewRequired
  deriving DecidableEq, Repr

/-- Pending or reserved. -/
def CandidateState.isOpen (state : CandidateState) : Bool :=
  state == .pending || state == .reserved

/-- Reserved, sent, or sent for all that is known. -/
def CandidateState.isAttempted (state : CandidateState) : Bool :=
  state == .reserved || state == .sent || state == .reviewRequired

/-- A contact that may be made. -/
structure Candidate where
  id : ℕ
  kind : EngagementKind
  source : Option SourceRef
  member : Option ℕ
  scope : EngagementScope
  dueAt : ℕ
  revision : ℕ
  state : CandidateState
  dedupeKey : String
  policyRevision : ℕ
  destination : DestinationPreference
  messageId : Option ℕ
  introductionId : Option ℕ
  workRef : Option WorkContentRef
  expiresAt : Option ℕ
  followUpReason : Option FollowUpDecision
  deriving DecidableEq, Repr

/-- The attempt to contact a member, with the local day and week it counts for. -/
structure ContactCharge where
  candidateId : ℕ
  member : ℕ
  localDay : String
  localWeek : String
  at_ : ℕ
  deriving DecidableEq, Repr

inductive IntroductionState where
  | pending
  | ready
  | consumed
  | cancelled
  deriving DecidableEq, Repr

/-- Pending or ready. -/
def IntroductionState.isOpen (state : IntroductionState) : Bool :=
  state == .pending || state == .ready

/-- The public introduction of two members to each other, in their own words. -/
structure Introduction where
  id : ℕ
  revision : ℕ
  scope : EngagementScope
  members : Fin 2 → ℕ
  approvedSelfDescriptions : Fin 2 → Option String
  approvals : Fin 2 → Option ℕ
  destination : ℕ
  state : IntroductionState
  deriving DecidableEq

/-- The place of a member in an introduction. -/
def Introduction.index (i : Introduction) (member : ℕ) : Option (Fin 2) :=
  if i.members 0 = member then some 0 else if i.members 1 = member then some 1 else none

/-- Both members approved this revision. -/
def Introduction.Approved (i : Introduction) : Prop := ∀ k, i.approvals k = some i.revision

instance (i : Introduction) : Decidable i.Approved :=
  inferInstanceAs (Decidable (∀ k, i.approvals k = some i.revision))

/-! ### Receipts -/

/-- What a public candidate rests on. -/
inductive CommunityEvidence where
  | message
  | join (member joinedAt : ℕ)
  | project (project revision actor : ℕ) (audience : BTreeSet ℕ) (content : BTreeSet WorkContentRef)
  deriving DecidableEq

/-- The evidence is about a project, this one. -/
def CommunityEvidence.project? : CommunityEvidence → Option ℕ
  | .project p _ _ _ _ => some p
  | _ => none

structure CommunityReceipt where
  policyRevision : ℕ
  attemptedAt : Option ℕ
  evidence : CommunityEvidence
  deriving DecidableEq

structure ActivityVersion where
  origin : String
  digest : String
  deriving DecidableEq, Repr

structure InvitationRequest where
  activity : Option ActivityVersion
  interaction : ℕ
  member : ℕ
  scope : EngagementScope
  at_ : ℕ
  deriving DecidableEq, Repr

/-- A request made while another invitation of the member was open. -/
structure SuppressedInvitationRequest where
  blockingCandidate : ℕ
  kind : EngagementKind
  request : InvitationRequest
  deriving DecidableEq, Repr

/-! ### What outlives an erasure -/

structure ErasedContactCharge where
  member : ℕ
  localDay : String
  localWeek : String
  at_ : ℕ
  deriving DecidableEq, Repr

structure ErasedCommunityCharge where
  project : Option String
  scope : EngagementScope
  kind : EngagementKind
  at_ : ℕ
  deriving DecidableEq, Repr

/-- What the digest of an erased record is taken of. -/
inductive ErasedIdentity where
  | invitation (interaction : ℕ)
  | introduction (scope : String) (low high : ℕ)
  | proposal (kind : EngagementKind) (scope : EngagementScope) (member message : Option ℕ)
      (dueAt : ℕ)
  | community (scope : String) (kind : EngagementKind) (evidence : CommunityEvidence)
      (message : Option ℕ)
  | project (project : ℕ)
  | taskFollowUp (scope : WorkScope) (task : WorkContentRef)

/-- The libraries the component rests on: the time zones, and the lower-case hexadecimal SHA-256 of
an identity in its wire form. -/
structure Crates extends Zones where
  digest : ErasedIdentity → String
  isLowerDigest_digest : ∀ e, isLowerDigest (digest e) = true

/-- Where the digest of an identity stands below: those of the follow-up, the check-in, the starter
and the weekly contact, those of the evidence of the check-ins and of the starter, that of the task,
and those of the pairs of members. -/
def ErasedIdentity.place : ErasedIdentity → Fin 10
  | .proposal .projectCheckIn _ _ _ _ => 1
  | .proposal .conversationStarter _ _ _ _ => 2
  | .proposal .weeklyCheckIn _ _ _ _ => 3
  | .community _ .projectCheckIn evidence _ => if evidence.project? = some 3 then 4 else 5
  | .community _ _ _ _ => 6
  | .taskFollowUp _ _ => 7
  | .introduction _ _ high => if high = 8 then 8 else 9
  | _ => 0

/-- SHA-256 of the identities that occur in the runs of the examples. -/
def plainDigests : Fin 10 → String :=
  !["0485d7e8396655e14c0db8c4dadd743c1732c92211678da4710ad9687d4ba803",
    "d1cd00259e8bd60b67ff04687246041c745317003ea5a5687b9392cb8d457cd3",
    "0db5e8025183a9ff06f7377698f9d32ec3bdce99521fb2c5f884f5b647d8b3e4",
    "a2336bf1737475d33b50864c0b98a138f0e865600fe0a89b1a5e37cd8bb850ff",
    "8b192921273e33fa22ad6f3006c784d4dedece1a93459a1cf5e8ad572036704d",
    "22af628453d9683cf00096d2f4fc8ccfc196d3b7e145bb16fa871e35d3d5c0c4",
    "2fba5c465465718d956d6e2df381d40648a77b11819eff97a02cb49f04f9bcae",
    "c9475086fd27da6b9fa6a92df0f5fd2b233ab1e259ce3b8a2f4a5067b4c63004",
    "7cafc1da695ab2b5c84a88393a79e4b6e38913ba00b82a168a722e05e787a30b",
    "305747494bc25f8395f52511f1029439e9995bd9d0fdf0441d2ffb2fd9149a01"]

/-- UTC, and the digests of the examples. -/
def plainCrates : Crates where
  toZones := utcZones
  digest e := plainDigests e.place
  isLowerDigest_digest e := by
    have h : ∀ place, isLowerDigest (plainDigests place) = true := by decide +kernel
    exact h e.place

/-! ### The store -/

structure EngagementStore where
  communityCursor : Option SourceRef
  communityReceipts : BTreeMap ℕ CommunityReceipt
  invitationRequests : BTreeMap ℕ InvitationRequest
  suppressedInvitationRequests : BTreeMap ℕ SuppressedInvitationRequest
  feedback : BTreeMap ℕ (BTreeMap ℕ ExplicitFeedback)
  erasedIdentities : BTreeSet String
  safetyPrunedThrough : ℕ
  sequence : ℕ
  memberPolicies : BTreeMap ℕ MemberPolicy
  weeklyAssessments : BTreeMap ℕ ℕ
  responses : BTreeMap ℕ ℕ
  observations : BTreeMap EngagementScope (BTreeMap ℕ SourceRef)
  eligibility : BTreeMap ℕ (BTreeSet SourceRef)
  guildFeatures : BTreeMap ℕ GuildFeaturePolicy
  candidates : BTreeMap ℕ Candidate
  introductions : BTreeMap ℕ Introduction
  charges : List ContactCharge
  erasedContactCharges : List ErasedContactCharge
  erasedCommunityCharges : List ErasedCommunityCharge

/-- `EngagementStore::default`. -/
def EngagementStore.empty : EngagementStore where
  communityCursor := none
  communityReceipts := ∅
  invitationRequests := ∅
  suppressedInvitationRequests := ∅
  feedback := ∅
  erasedIdentities := ∅
  safetyPrunedThrough := 0
  sequence := 0
  memberPolicies := ∅
  weeklyAssessments := ∅
  responses := ∅
  observations := ∅
  eligibility := ∅
  guildFeatures := ∅
  candidates := ∅
  introductions := ∅
  charges := []
  erasedContactCharges := []
  erasedCommunityCharges := []

/-- The introduction a candidate announces. -/
def EngagementStore.introductionOf (s : EngagementStore) (c : Candidate) : Option Introduction :=
  c.introductionId.bind fun id => s.introductions[id]?

/-- The candidate is for this member, or introduces them. -/
def EngagementStore.concerns (s : EngagementStore) (c : Candidate) (member : ℕ) : Prop :=
  c.member = some member ∨ ∃ i ∈ s.introductionOf c, ∃ k, i.members k = member

instance (s : EngagementStore) (c : Candidate) (member : ℕ) : Decidable (s.concerns c member) := by
  unfold EngagementStore.concerns; infer_instance

/-- `guild_features[&guild].revision`, at a guild that has features. -/
def EngagementStore.guildRevision (s : EngagementStore) (guild : ℕ) : ℕ :=
  (s.guildFeatures[guild]?).elim 0 GuildFeaturePolicy.revision

/-- `member_policies[&member].revision`, at a member that has a policy. -/
def EngagementStore.memberRevision (s : EngagementStore) (member : ℕ) : ℕ :=
  (s.memberPolicies[member]?).elim 0 MemberPolicy.revision

/-- The pending and reserved candidates. -/
def EngagementStore.openCandidates (s : EngagementStore) : ℕ :=
  countRows s.candidates fun c => c.state.isOpen

end AbbeyBot.Engagement
