import Mathlib
import AbbeyBot.Engagement.Settings
import AbbeyBot.Library.CivilDate
import AbbeyBot.Work.FollowUp

/-! # The checks of the store

What a loaded store must satisfy, table by table. Rows are joined: candidates with their receipts,
invitation requests, introductions, charges and feedback. `validate` makes the checks in order,
`Valid` is what it admits. -/

namespace AbbeyBot.Engagement

open AbbeyBot.Calendar AbbeyBot.Library.CivilDate AbbeyBot.Library.OrderedMap
open AbbeyBot.Library.Result AbbeyBot.Library.Text AbbeyBot.Work.FollowUp AbbeyBot.Work.Types

/-- A date that can be read. -/
def IsDate (text : String) : Prop := (parse text).isSome = true

instance (text : String) : Decidable (IsDate text) := inferInstanceAs (Decidable (_ = _))

/-! ### Candidates -/

/-- `Candidate::validate_task_follow_up`: a follow-up of a task has the due time of its source, the
identity of its task, and an explanation only once it is cancelled or rejected. -/
def Candidate.validateTaskFollowUp (c : Candidate) : Except WorkError Unit :=
  match c.workRef, c.expiresAt with
  | none, none => ensure (c.followUpReason = none) .invalid
  | some task, some expires => do
    let source ← orErr c.source .invalid
    let member ← orErr c.member .invalid
    let key ← taskKey c.scope.workScope task
    utc expires
    let due ← followUpDue source
    ensure (c.kind = .followUp ∧ source.scope = c.scope ∧ source.author = member ∧ c.dueAt = due ∧
      c.dueAt < expires ∧ c.dedupeKey = key ∧ c.introductionId = none ∧
      ∀ reason ∈ c.followUpReason, reason ≠ .allowed ∧
        (c.state = .cancelled ∨ c.state = .rejected)) .invalid
  | _, _ => .error .invalid

/-- What a follow-up of a task passed. -/
theorem validateTaskFollowUp_ok {c : Candidate} {task : WorkContentRef}
    (hw : c.workRef = some task) (h : c.validateTaskFollowUp = .ok ()) :
    c.kind = .followUp ∧ taskKey c.scope.workScope task = .ok c.dedupeKey := by
  unfold Candidate.validateTaskFollowUp at h
  rw [hw] at h
  split at h
  · rename_i hnone _
    cases hnone
  · rename_i task' _ hsome _
    cases hsome
    simp only [bind_eq_ok, ensure_eq_ok, exists_unit] at h
    obtain ⟨_, -, _, -, key, hkey, -, _, -, hkind, -, -, -, -, hdedupe, -⟩ := h
    exact ⟨hkind, hdedupe ▸ hkey⟩
  · cases h

/-- The kinds of contact that are made with one member. -/
def EngagementKind.isPersonal (kind : EngagementKind) : Bool :=
  kind == .followUp || kind == .weeklyCheckIn || kind.isInvitation

/-- The kinds of contact that rest on a message. -/
def EngagementKind.needsSource (kind : EngagementKind) : Bool :=
  kind == .followUp || kind == .unansweredQuestion

/-- The checks of a candidate by itself. -/
@[mk_iff] structure Candidate.Valid (c : Candidate) (id sequence : ℕ) : Prop where
  scope : c.scope.Valid
  taskFollowUp : c.validateTaskFollowUp = .ok ()
  id : id ≠ 0 ∧ c.id = id ∧ id ≤ sequence
  revision : c.revision ≠ 0
  dedupeKey : c.dedupeKey ≠ "" ∧ c.dedupeKey.utf8ByteSize ≤ 256
  member : ∀ m ∈ c.member, m ≠ 0 ∧ c.scope.MatchesMember m
  message : (c.state = .sent ↔ c.messageId.isSome = true) ∧ c.messageId ≠ some 0
  dm : match c.scope with
    | .guild _ _ => True
    | .dm m _ => c.member = some m
  personal : c.kind.isPersonal = true → c.member.isSome = true
  needsSource : c.kind.needsSource = true → c.source.isSome = true
  introduction : c.kind = .introduction →
    c.member = none ∧ c.source = none ∧ c.destination = .origin
  source : ∀ source ∈ c.source, source.Valid ∧ source.scope = c.scope ∧
    ∀ m ∈ c.member, m = source.author

instance (c : Candidate) (id sequence : ℕ) : Decidable (c.Valid id sequence) :=
  have : Decidable (match c.scope with
      | .guild _ _ => True
      | .dm m _ => c.member = some m) := by cases c.scope <;> infer_instance
  have : Decidable (c.validateTaskFollowUp = .ok ()) := by
    cases h : c.validateTaskFollowUp with
    | ok u => exact isTrue rfl
    | error e => exact isFalse (by simp)
  decidable_of_iff' _ (c.valid_iff id sequence)

/-- What tells two candidates with a source apart: one contact for a message and a member, weekly
contacts by occurrence. -/
def Candidate.sourceIdentity (c : Candidate) :
    Option (EngagementScope × ℕ × Option ℕ × EngagementKind × ℕ) :=
  c.source.map fun source => (source.scope, source.message, c.member, c.kind,
    if c.kind = .weeklyCheckIn then c.dueAt else 0)

/-- A candidate is of the kind introduction exactly when it announces one, in its scope and
revision. -/
def EngagementStore.IntroductionMatches (s : EngagementStore) (c : Candidate) : Prop :=
  (c.kind = .introduction ↔ c.introductionId.isSome = true) ∧
    ∀ id ∈ c.introductionId, ∃ i ∈ s.introductions[id]?,
      i.scope = c.scope ∧ i.revision = c.revision

instance (s : EngagementStore) (c : Candidate) : Decidable (s.IntroductionMatches c) := by
  unfold EngagementStore.IntroductionMatches; infer_instance

@[mk_iff] structure EngagementStore.CandidatesValid (s : EngagementStore) : Prop where
  rows : All s.candidates fun id c => c.Valid id s.sequence
  dedupeKeys : (column s.candidates fun c => some c.dedupeKey).Nodup
  sources : (column s.candidates Candidate.sourceIdentity).Nodup
  introductions : All s.candidates fun _ c => s.IntroductionMatches c

instance (s : EngagementStore) : Decidable s.CandidatesValid :=
  decidable_of_iff' _ s.candidatesValid_iff

/-! ### Introductions -/

/-- The checks of an introduction by itself. -/
@[mk_iff] structure Introduction.Valid (i : Introduction) (id sequence : ℕ) : Prop where
  scope : i.scope.Valid
  id : id ≠ 0 ∧ i.id = id ∧ id ≤ sequence
  revision : i.revision ≠ 0
  destination : i.destination ≠ 0 ∧ ∃ g ∈ i.scope.guild?, i.scope = .guild g i.destination
  members : (∀ k, i.members k ≠ 0) ∧ i.members 0 ≠ i.members 1
  descriptions : ∀ k, ∀ text ∈ i.approvedSelfDescriptions k, descriptionValid text = true
  approvals : ∀ k, ∀ r ∈ i.approvals k, r = i.revision
  agreed : i.state = .ready ∨ i.state = .consumed →
    i.Approved ∧ ∀ k, (i.approvedSelfDescriptions k).isSome = true

instance (i : Introduction) (id sequence : ℕ) : Decidable (i.Valid id sequence) :=
  decidable_of_iff' _ (i.valid_iff id sequence)

/-- The states of the candidate that announces an introduction. -/
def IntroductionState.admits : IntroductionState → CandidateState → Bool
  | .pending, c | .ready, c => c == .pending
  | .consumed, c => c.isAttempted
  | .cancelled, c => c == .cancelled || c == .rejected || c == .sent || c == .reviewRequired

/-- The candidate that announces an introduction. -/
def EngagementStore.announcement (s : EngagementStore) (id : ℕ) : Option Candidate :=
  (values s.candidates).find? fun c => c.introductionId = some id

@[mk_iff] structure EngagementStore.IntroductionsValid (s : EngagementStore) : Prop where
  unique : (column s.candidates Candidate.introductionId).Nodup
  rows : All s.introductions fun id i => i.Valid id s.sequence
  announced : All s.introductions fun _ i =>
    ∃ c ∈ s.announcement i.id, i.state.admits c.state = true

instance (s : EngagementStore) : Decidable s.IntroductionsValid :=
  decidable_of_iff' _ s.introductionsValid_iff

/-! ### Charges -/

/-- The contact was charged to the member. -/
def EngagementStore.Charged (s : EngagementStore) (id member : ℕ) : Prop :=
  ∃ row ∈ s.charges, row.candidateId = id ∧ row.member = member

instance (s : EngagementStore) (id member : ℕ) : Decidable (s.Charged id member) := by
  unfold EngagementStore.Charged; infer_instance

/-- How many of the two members of an introduction were charged. -/
def EngagementStore.chargedMembers (s : EngagementStore) (i : Introduction) (c : Candidate) : ℕ :=
  (Finset.univ.filter fun k => s.Charged c.id (i.members k)).card

@[mk_iff] structure EngagementStore.ChargesValid (s : EngagementStore) : Prop where
  rows : ∀ row ∈ s.charges, (∃ c ∈ s.candidates[row.candidateId]?, s.concerns c row.member) ∧
    row.member ≠ 0 ∧ IsDate row.localDay ∧ IsDate row.localWeek
  distinct : (s.charges.map fun row => (row.candidateId, row.member)).Nodup
  attempted : All s.candidates fun _ c =>
    c.state.isAttempted = true → ∀ m ∈ c.member, s.Charged c.id m
  introduced : All s.introductions fun _ i => All s.candidates fun _ c =>
    c.introductionId = some i.id → s.chargedMembers i c ≠ 1 ∧
      (c.state.isAttempted = true → s.chargedMembers i c = 2)

instance (s : EngagementStore) : Decidable s.ChargesValid :=
  decidable_of_iff' _ s.chargesValid_iff

/-! ### What outlives an erasure -/

@[mk_iff] structure EngagementStore.ErasedValid (s : EngagementStore) : Prop where
  identities : s.erasedIdentities.card ≤ 10000 ∧ ∀ e ∈ s.erasedIdentities, isDigest e = true
  sizes : s.erasedContactCharges.length + s.charges.length ≤ 20000 ∧
    s.erasedCommunityCharges.length + s.communityReceipts.size ≤ 10000
  contact : ∀ c ∈ s.erasedContactCharges,
    c.member ≠ 0 ∧ IsInstant c.at_ ∧ IsDate c.localDay ∧ IsDate c.localWeek
  community : ∀ c ∈ s.erasedCommunityCharges, c.scope.Valid ∧ IsInstant c.at_ ∧
    c.kind.feature.isSome = true ∧ (c.kind = .projectCheckIn ↔ c.project.isSome = true) ∧
    ∀ p ∈ c.project, isDigest p = true

/-- `validate_erased_charges`. -/
def EngagementStore.validateErasedCharges (s : EngagementStore) : Except WorkError Unit := do
  ensure (s.erasedIdentities.card ≤ 10000 ∧ ∀ e ∈ s.erasedIdentities, isDigest e = true) .full
  ensure (s.erasedContactCharges.length + s.charges.length ≤ 20000 ∧
    s.erasedCommunityCharges.length + s.communityReceipts.size ≤ 10000) .full
  ensure (∀ c ∈ s.erasedContactCharges,
    c.member ≠ 0 ∧ IsInstant c.at_ ∧ IsDate c.localDay ∧ IsDate c.localWeek) .invalid
  ensure (∀ c ∈ s.erasedCommunityCharges, c.scope.Valid ∧ IsInstant c.at_ ∧
    c.kind.feature.isSome = true ∧ (c.kind = .projectCheckIn ↔ c.project.isSome = true) ∧
    ∀ p ∈ c.project, isDigest p = true) .invalid

/-! ### Invitations -/

/-- An activity is named by its origin and digest. -/
def ActivityVersion.Valid (v : ActivityVersion) : Prop := isDigest v.digest = true ∧ v.origin ≠ ""

instance (v : ActivityVersion) : Decidable v.Valid := inferInstanceAs (Decidable (_ ∧ _))

/-- The request proves the context of the candidate with its number. -/
@[mk_iff] structure InvitationRequest.Proves (r : InvitationRequest) (c : Candidate) : Prop where
  interaction : r.interaction ≠ 0
  member : r.member ≠ 0 ∧ c.member = some r.member
  source : c.source = none
  scope : c.scope = r.scope
  dueAt : c.dueAt = r.at_ ∧ IsInstant r.at_
  kind : c.kind.isInvitation = true
  activity : (c.kind = .activityInvite ↔ r.activity.isSome = true) ∧ ∀ v ∈ r.activity, v.Valid

instance (r : InvitationRequest) (c : Candidate) : Decidable (r.Proves c) :=
  decidable_of_iff' _ (r.proves_iff c)

/-- The request was refused because of an invitation to the same member in the same scope. -/
@[mk_iff] structure SuppressedInvitationRequest.BlockedBy (r : SuppressedInvitationRequest)
    (blocker : Candidate) : Prop where
  scope : r.request.scope.Valid
  interaction : r.request.interaction ≠ 0
  member : r.request.member ≠ 0 ∧ blocker.member = some r.request.member ∧
    r.request.scope.MatchesMember r.request.member
  blocker : blocker.scope = r.request.scope ∧ blocker.kind.isInvitation = true
  kind : r.kind.isInvitation = true ∧
    (r.kind = .activityInvite ↔ r.request.activity.isSome = true)
  at_ : IsInstant r.request.at_

instance (r : SuppressedInvitationRequest) (c : Candidate) : Decidable (r.BlockedBy c) :=
  decidable_of_iff' _ (r.blockedBy_iff c)

/-- The request with this interaction was admitted. -/
def EngagementStore.Requested (s : EngagementStore) (interaction : ℕ) : Prop :=
  ∃ r ∈ values s.invitationRequests, r.interaction = interaction

instance (s : EngagementStore) (interaction : ℕ) : Decidable (s.Requested interaction) := by
  unfold EngagementStore.Requested; infer_instance

@[mk_iff] structure EngagementStore.InvitationsValid (s : EngagementStore) : Prop where
  sizes : s.invitationRequests.size + s.suppressedInvitationRequests.size ≤ 10000 ∧
    s.candidates.size + s.introductions.size + s.suppressedInvitationRequests.size ≤ 10000
  requests : (All s.invitationRequests fun id r => ∃ c ∈ s.candidates[id]?, r.Proves c) ∧
    (column s.invitationRequests fun r => some r.interaction).Nodup
  suppressed : All s.suppressedInvitationRequests fun interaction r =>
    interaction = r.request.interaction ∧ ¬ s.Requested interaction ∧
      ∃ blocker ∈ s.candidates[r.blockingCandidate]?, r.BlockedBy blocker
  requested : All s.candidates fun _ c => c.kind.isInvitation = true → c.source = none →
    s.invitationRequests.contains c.id = true

/-- `validate_invitation_requests`. -/
def EngagementStore.validateInvitationRequests (s : EngagementStore) : Except WorkError Unit := do
  ensure (s.invitationRequests.size + s.suppressedInvitationRequests.size ≤ 10000 ∧
    s.candidates.size + s.introductions.size + s.suppressedInvitationRequests.size ≤ 10000) .full
  ensure ((All s.invitationRequests fun id r => ∃ c ∈ s.candidates[id]?, r.Proves c) ∧
    (column s.invitationRequests fun r => some r.interaction).Nodup) .invalid
  ensure (All s.suppressedInvitationRequests fun interaction r =>
    interaction = r.request.interaction ∧ ¬ s.Requested interaction ∧
      ∃ blocker ∈ s.candidates[r.blockingCandidate]?, r.BlockedBy blocker) .invalid
  ensure (All s.candidates fun _ c => c.kind.isInvitation = true → c.source = none →
    s.invitationRequests.contains c.id = true) .invalid

/-! ### Community receipts -/

/-- `valid_project_content`. -/
def validProjectContent (project : ℕ) (content : BTreeSet WorkContentRef) : Prop :=
  content ≠ ∅ ∧ content.card ≤ 8 ∧ ∀ source ∈ content,
    match source with
    | .task p id revision => p = project ∧ id ≠ 0 ∧ revision ≠ 0
    | .decision _ _ _ => False

instance (project : ℕ) (content : BTreeSet WorkContentRef) :
    Decidable (validProjectContent project content) :=
  have : DecidablePred fun source : WorkContentRef => match source with
      | .task p id revision => p = project ∧ id ≠ 0 ∧ revision ≠ 0
      | .decision _ _ _ => False := fun source =>
    match source with
    | .task p id revision => inferInstanceAs (Decidable (p = project ∧ id ≠ 0 ∧ revision ≠ 0))
    | .decision _ _ _ => inferInstanceAs (Decidable False)
  inferInstanceAs (Decidable (_ ∧ _ ∧ ∀ source ∈ content, _))

/-- The evidence of a project in its own terms. -/
def validProject (project revision actor : ℕ) (audience : BTreeSet ℕ)
    (content : BTreeSet WorkContentRef) : Prop :=
  project ≠ 0 ∧ revision ≠ 0 ∧ actor ≠ 0 ∧ actor ∈ audience ∧ 0 ∉ audience ∧
    audience.card ≤ 1000 ∧ validProjectContent project content

instance (project revision actor : ℕ) (audience : BTreeSet ℕ) (content : BTreeSet WorkContentRef) :
    Decidable (validProject project revision actor audience content) :=
  inferInstanceAs (Decidable (_ ∧ _))

/-- The evidence supports a candidate of this kind. -/
def CommunityEvidence.Supports (evidence : CommunityEvidence) (c : Candidate) : Prop :=
  match evidence with
  | .message => (c.kind = .conversationStarter ∨ c.kind = .unansweredQuestion) ∧
      c.source.isSome = true ∧ c.member = none
  | .join member joinedAt => c.kind = .welcome ∧ member ≠ 0 ∧ joinedAt ≤ c.dueAt ∧
      c.dueAt - joinedAt < 3600 ∧ c.source = none ∧ c.member = none
  | .project p revision actor audience content => c.kind = .projectCheckIn ∧
      validProject p revision actor audience content ∧ c.source = none ∧ c.member = some actor

instance (evidence : CommunityEvidence) (c : Candidate) : Decidable (evidence.Supports c) := by
  cases evidence <;> unfold CommunityEvidence.Supports <;> infer_instance

/-- The receipt belongs to the candidate with its number. -/
@[mk_iff] structure CommunityReceipt.Proves (r : CommunityReceipt) (c : Candidate) : Prop where
  feature : c.kind.feature.isSome = true
  guild : c.scope.guild?.isSome = true
  destination : c.destination = .origin
  supports : r.evidence.Supports c
  attemptedAt : ∀ t ∈ r.attemptedAt, c.dueAt ≤ t ∧ IsInstant t
  attempted : c.state.isAttempted = true → r.attemptedAt.isSome = true

instance (r : CommunityReceipt) (c : Candidate) : Decidable (r.Proves c) :=
  decidable_of_iff' _ (r.proves_iff c)

@[mk_iff] structure EngagementStore.CommunityValid (s : EngagementStore) : Prop where
  cursor : ∀ cursor ∈ s.communityCursor,
    cursor.Valid ∧ IsInstant cursor.at_ ∧ cursor.scope.guild?.isSome = true
  size : s.communityReceipts.size ≤ 10000
  receipts : All s.communityReceipts fun id r => ∃ c ∈ s.candidates[id]?, r.Proves c

/-- `validate_community`. -/
def EngagementStore.validateCommunity (s : EngagementStore) : Except WorkError Unit := do
  ensure (∀ cursor ∈ s.communityCursor,
    cursor.Valid ∧ IsInstant cursor.at_ ∧ cursor.scope.guild?.isSome = true) .invalid
  ensure (s.communityReceipts.size ≤ 10000) .full
  ensure (All s.communityReceipts fun id r => ∃ c ∈ s.candidates[id]?, r.Proves c) .invalid

/-! ### Feedback, sizes and settings -/

@[mk_iff] structure EngagementStore.FeedbackValid (s : EngagementStore) : Prop where
  rows : All s.feedback fun id members => id ≠ 0 ∧ ∃ c ∈ s.candidates[id]?, c.state = .sent ∧
    members.size ≠ 0 ∧ members.size ≤ 2 ∧ All members fun actor feedback =>
      actor ≠ 0 ∧ feedback.actor = actor ∧ s.concerns c actor
  size : s.feedback.size ≤ 10000

instance (s : EngagementStore) : Decidable s.FeedbackValid :=
  decidable_of_iff' _ s.feedbackValid_iff

/-- The number of entries of a table of tables. -/
def entries {α : Type} [Ord α] [Std.TransOrd α] {β : Type} (m : BTreeMap α β) (f : β → ℕ) : ℕ :=
  ((values m).map f).sum

@[mk_iff] structure EngagementStore.SizesValid (s : EngagementStore) : Prop where
  candidates : s.candidates.size + s.introductions.size ≤ 10000
  opened : s.openCandidates ≤ 1000
  memberPolicies : s.memberPolicies.size ≤ 10000
  eligibility : s.eligibility.size ≤ 10000 ∧ entries s.eligibility Finset.card ≤ 10000
  guildFeatures : s.guildFeatures.size ≤ 10000
  charges : s.charges.length + s.erasedContactCharges.length ≤ 20000

instance (s : EngagementStore) : Decidable s.SizesValid :=
  decidable_of_iff' _ s.sizesValid_iff

@[mk_iff] structure EngagementStore.SettingsValid (s : EngagementStore) (K : Crates) : Prop where
  observations : All s.observations fun scope rows => scope.Valid ∧ All rows fun member source =>
    source.Valid ∧ source.scope = scope ∧ source.author = member
  memberPolicies : All s.memberPolicies fun member p =>
    member ≠ 0 ∧ p.Valid K ∧ p.BelongsTo member
  eligibility : All s.eligibility fun member sources =>
    member ≠ 0 ∧ ∀ source ∈ sources, source.Valid ∧ source.author = member
  guildFeatures : All s.guildFeatures fun guild p => guild ≠ 0 ∧ p.Valid

instance (s : EngagementStore) (K : Crates) : Decidable (s.SettingsValid K) :=
  decidable_of_iff' _ (s.settingsValid_iff K)

/-- The assessments name members and instants. -/
def EngagementStore.AssessmentsValid (s : EngagementStore) : Prop :=
  s.weeklyAssessments.size ≤ 10000 ∧ All s.weeklyAssessments fun m t => m ≠ 0 ∧ IsInstant t

instance (s : EngagementStore) : Decidable s.AssessmentsValid :=
  inferInstanceAs (Decidable (_ ∧ _))

def EngagementStore.ResponsesValid (s : EngagementStore) : Prop :=
  s.responses.size ≤ 10000 ∧ All s.responses fun a b => a ≠ 0 ∧ b ≠ 0

instance (s : EngagementStore) : Decidable s.ResponsesValid :=
  inferInstanceAs (Decidable (_ ∧ _))

def EngagementStore.ObservationsFit (s : EngagementStore) : Prop :=
  s.observations.size ≤ 10000 ∧ entries s.observations (Std.ExtTreeMap.size ·) ≤ 10000

instance (s : EngagementStore) : Decidable s.ObservationsFit :=
  inferInstanceAs (Decidable (_ ∧ _))

/-! ### The store -/

/-- `EngagementStore::validate`. -/
def EngagementStore.validate (K : Crates) (s : EngagementStore) : Except WorkError Unit := do
  s.validateErasedCharges
  s.validateInvitationRequests
  s.validateCommunity
  ensure s.FeedbackValid .invalid
  ensure s.SizesValid .full
  ensure s.AssessmentsValid .invalid
  ensure s.ResponsesValid .invalid
  ensure s.ObservationsFit .full
  ensure (s.SettingsValid K) .invalid
  ensure s.CandidatesValid .invalid
  ensure s.IntroductionsValid .invalid
  ensure s.ChargesValid .invalid

/-- The stores that pass the checks. -/
structure EngagementStore.Valid (s : EngagementStore) (K : Crates) : Prop where
  erased : s.ErasedValid
  invitations : s.InvitationsValid
  community : s.CommunityValid
  feedback : s.FeedbackValid
  sizes : s.SizesValid
  assessments : s.AssessmentsValid
  responses : s.ResponsesValid
  observations : s.ObservationsFit
  settings : s.SettingsValid K
  candidates : s.CandidatesValid
  introductions : s.IntroductionsValid
  charges : s.ChargesValid

/-- **The checks** admit the valid stores and no others. -/
theorem validate_eq_ok {K : Crates} {s : EngagementStore} {u : Unit} :
    s.validate K = .ok u ↔ s.Valid K := by
  simp only [EngagementStore.validate, EngagementStore.validateErasedCharges,
    EngagementStore.validateInvitationRequests, EngagementStore.validateCommunity, bind_eq_ok,
    ensure_eq_ok, exists_unit]
  constructor
  · rintro ⟨⟨e1, e2, e3, e4⟩, ⟨i1, i2, i3, i4⟩, ⟨c1, c2, c3⟩, h1, h2, h3, h4, h5, h6, h7, h8, h9⟩
    exact ⟨⟨e1, e2, e3, e4⟩, ⟨i1, i2, i3, i4⟩, ⟨c1, c2, c3⟩, h1, h2, h3, h4, h5, h6, h7, h8, h9⟩
  · rintro ⟨⟨e1, e2, e3, e4⟩, ⟨i1, i2, i3, i4⟩, ⟨c1, c2, c3⟩, h1, h2, h3, h4, h5, h6, h7, h8, h9⟩
    exact ⟨⟨e1, e2, e3, e4⟩, ⟨i1, i2, i3, i4⟩, ⟨c1, c2, c3⟩, h1, h2, h3, h4, h5, h6, h7, h8, h9⟩

/-! ### Announcements -/

section Announcements

variable {K : Crates} {s : EngagementStore}

/-- The candidate that announces an introduction says so. -/
theorem announcement_some {id : ℕ} {c : Candidate} (h : s.announcement id = some c) :
    ∃ k : ℕ, s.candidates[k]? = some c ∧ c.introductionId = some id := by
  unfold EngagementStore.announcement at h
  have hid := List.find?_some h
  rw [decide_eq_true_eq] at hid
  obtain ⟨k, hk⟩ := mem_values.mp (List.mem_of_find?_eq_some h)
  exact ⟨k, hk, hid⟩

/-- Where no two candidates announce one introduction, the one that says so announces it. -/
theorem announcement_eq {k id : ℕ} {c : Candidate}
    (hunique : (column s.candidates Candidate.introductionId).Nodup)
    (hc : s.candidates[k]? = some c) (hid : c.introductionId = some id) :
    s.announcement id = some c := by
  unfold EngagementStore.announcement
  cases hfind : (values s.candidates).find? fun c => c.introductionId = some id with
  | none =>
    rw [List.find?_eq_none] at hfind
    exact absurd (decide_eq_true hid) (hfind c (mem_values.mpr ⟨k, hc⟩))
  | some c' =>
    have hid' := List.find?_some hfind
    rw [decide_eq_true_eq] at hid'
    obtain ⟨k', hk'⟩ := mem_values.mp (List.mem_of_find?_eq_some hfind)
    cases eq_of_nodup_column hunique hc hk' hid hid'
    rw [hc] at hk'
    exact hk'.symm

/-- The introduction that a candidate announces is there. -/
theorem EngagementStore.Valid.introduced {k id : ℕ} {c : Candidate} (hv : s.Valid K)
    (hc : s.candidates[k]? = some c) (hid : c.introductionId = some id) :
    ∃ i, s.introductions[id]? = some i :=
  ((all_iff.mp hv.candidates.introductions k c hc).2 id hid).imp fun _ h => h.1

/-- An introduction and the candidate that announces it match. -/
theorem EngagementStore.Valid.announced {k id : ℕ} {c : Candidate} {i : Introduction}
    (hv : s.Valid K) (hc : s.candidates[k]? = some c) (hi : s.introductions[id]? = some i)
    (hid : c.introductionId = some id) :
    i.scope = c.scope ∧ i.revision = c.revision ∧ i.state.admits c.state = true := by
  obtain ⟨i', hi', hscope, hrevision⟩ := (all_iff.mp hv.candidates.introductions k c hc).2 id hid
  cases Option.mem_unique hi' hi
  obtain ⟨c', hc', hadmits⟩ := all_iff.mp hv.introductions.announced id i hi
  rw [(all_iff.mp hv.introductions.rows id i hi).id.2.1,
    announcement_eq hv.introductions.unique hc hid] at hc'
  cases hc'
  exact ⟨hscope, hrevision, hadmits⟩

end Announcements

end AbbeyBot.Engagement
