import Mathlib
import AbbeyBot.Engagement.TaskFollowUp

/-! # Erasure

What is known of a member, or of everyone, in a learning scope is removed with all records linked to
it. What protects the member is kept without a link: the identity of what was erased, so that it is
not proposed again, and the attempts that were made, so that the limits still hold. -/

namespace AbbeyBot.Engagement

open AbbeyBot.Calendar AbbeyBot.Library.CivilDate AbbeyBot.Library.OrderedMap
open AbbeyBot.Library.Result AbbeyBot.Work.Types

/-! ### What is linked to the member -/

/-- `own` in `erase_learning`: nobody in particular is everyone. -/
def Own (member : Option ℕ) (m : ℕ) : Prop := ∀ v ∈ member, v = m

instance (member : Option ℕ) (m : ℕ) : Decidable (Own member m) := by
  unfold Own; infer_instance

/-- The evidence names the member. -/
def CommunityEvidence.Names (evidence : CommunityEvidence) (member : Option ℕ) : Prop :=
  match evidence with
  | .message => False
  | .join m _ => Own member m
  | .project _ _ actor audience _ => Own member actor ∨ ∃ m ∈ audience, Own member m

instance (evidence : CommunityEvidence) (member : Option ℕ) : Decidable (evidence.Names member) :=
  match evidence with
  | .message => inferInstanceAs (Decidable False)
  | .join m _ => inferInstanceAs (Decidable (Own member m))
  | .project _ _ actor audience _ =>
    inferInstanceAs (Decidable (Own member actor ∨ ∃ m ∈ audience, Own member m))

/-- The introduction is in the scope and introduces the member. -/
def Introduction.Linked (i : Introduction) (scope : String) (member : Option ℕ) : Prop :=
  i.scope.learningScope = scope ∧ (member = none ∨ ∃ k, Own member (i.members k))

instance (i : Introduction) (scope : String) (member : Option ℕ) :
    Decidable (i.Linked scope member) := by
  unfold Introduction.Linked; infer_instance

/-- The candidate is in the scope and for the member, from a message of the member, on evidence that
names the member, or introduces the member. -/
def EngagementStore.Linked (s : EngagementStore) (c : Candidate) (scope : String)
    (member : Option ℕ) : Prop :=
  c.scope.learningScope = scope ∧ (member = none ∨ (∃ m ∈ c.member, Own member m) ∨
    (∃ source ∈ c.source, Own member source.author) ∨
    (∃ r ∈ s.communityReceipts[c.id]?, r.evidence.Names member) ∨
    ∃ i ∈ s.introductionOf c, i.Linked scope member)

instance (s : EngagementStore) (c : Candidate) (scope : String) (member : Option ℕ) :
    Decidable (s.Linked c scope member) := by
  unfold EngagementStore.Linked; infer_instance

/-- `introductions` in `erase_learning`. -/
def EngagementStore.erasedIntroductions (s : EngagementStore) (scope : String)
    (member : Option ℕ) : BTreeMap ℕ Introduction :=
  s.introductions.filter fun _ i => i.Linked scope member

/-- `candidates` in `erase_learning`. -/
def EngagementStore.erasedCandidates (s : EngagementStore) (scope : String)
    (member : Option ℕ) : BTreeMap ℕ Candidate :=
  s.candidates.filter fun _ c => s.Linked c scope member

/-- The request is by the member in the scope. -/
def InvitationRequest.Linked (r : InvitationRequest) (scope : String) (member : Option ℕ) : Prop :=
  r.scope.learningScope = scope ∧ Own member r.member

instance (r : InvitationRequest) (scope : String) (member : Option ℕ) :
    Decidable (r.Linked scope member) := inferInstanceAs (Decidable (_ ∧ _))

/-- The suppressed request is by the member, or was blocked by an erased candidate. -/
def EngagementStore.SuppressedLinked (s : EngagementStore) (r : SuppressedInvitationRequest)
    (scope : String) (member : Option ℕ) : Prop :=
  r.blockingCandidate ∈ s.erasedCandidates scope member ∨ r.request.Linked scope member

instance (s : EngagementStore) (r : SuppressedInvitationRequest) (scope : String)
    (member : Option ℕ) : Decidable (s.SuppressedLinked r scope member) :=
  inferInstanceAs (Decidable (_ ∨ _))

/-! ### Identities -/

/-- The kinds of contact whose candidate leaves its own identity; the others leave that of their
introduction, their request or their receipt. -/
def EngagementKind.leavesIdentity (kind : EngagementKind) : Bool :=
  kind != .introduction && !kind.isInvitation && kind.feature.isNone

/-- The identities an erased candidate leaves. -/
def EngagementStore.identitiesOf (s : EngagementStore) (K : Crates) (id : ℕ) (c : Candidate) :
    List String :=
  (c.workRef.elim [] fun task => [taskFollowUpIdentity K c.scope.workScope task]) ++
    (if c.kind.leavesIdentity then [c.identity K] else []) ++
    ((s.communityReceipts[id]?).elim [] fun r =>
      [communityIdentity K c.scope c.kind r.evidence c.source]) ++
    (s.invitationRequests[id]?).elim [] fun r => [invitationIdentity K r.interaction]

/-- `identities` in `erase_learning`. -/
def EngagementStore.identitiesAfter (s : EngagementStore) (K : Crates) (scope : String)
    (member : Option ℕ) : BTreeSet String :=
  s.erasedIdentities ∪
    (((values (s.erasedIntroductions scope member)).map fun i =>
      introductionIdentity K i.scope i.members) ++
    ((s.erasedCandidates scope member).toList.flatMap fun kv => s.identitiesOf K kv.1 kv.2) ++
    ((values s.suppressedInvitationRequests).filter fun r => s.SuppressedLinked r scope member).map
      fun r => invitationIdentity K r.request.interaction).toFinset

/-! ### Erasing -/

/-- Rows of a table that an operation drops. -/
def dropped {α : Type} [Ord α] [Std.TransOrd α] {β : Type} (m m' : BTreeMap α β) : ℕ :=
  m.size - m'.size

/-- The observations of a scope without those of the member. -/
def keptObservations (scope : String) (member : Option ℕ) (origin : EngagementScope)
    (rows : BTreeMap ℕ SourceRef) : BTreeMap ℕ SourceRef :=
  if origin.learningScope = scope then rows.filter fun m _ => ¬ Own member m else rows

/-- The messages that make a member eligible, without those of the scope. -/
def keptEligibility (scope : String) (member : Option ℕ) (m : ℕ) (rows : BTreeSet SourceRef) :
    BTreeSet SourceRef :=
  if Own member m then rows.filter fun source => source.scope.learningScope ≠ scope else rows

/-- The feedback on a candidate without that of the member. -/
def EngagementStore.keptFeedback (s : EngagementStore) (scope : String) (member : Option ℕ)
    (id : ℕ) (rows : BTreeMap ℕ ExplicitFeedback) : BTreeMap ℕ ExplicitFeedback :=
  if id ∈ s.erasedCandidates scope member then ∅
  else if ∃ c ∈ s.candidates[id]?, c.scope.learningScope = scope then
    rows.filter fun m _ => ¬ Own member m
  else rows

/-- The policy of a member without their choices for the scope; limits and stops are kept. -/
def MemberPolicy.forget (p : MemberPolicy) (scope : String) : MemberPolicy :=
  { p with
    destinations := p.destinations.filter fun origin _ => origin.learningScope ≠ scope
    weeklySubscription := p.weeklySubscription.filter fun w => w.scope.learningScope ≠ scope }

/-- The member is subscribed to a weekly contact in the scope. -/
def MemberPolicy.SubscribedIn (p : MemberPolicy) (scope : String) : Prop :=
  ∃ w ∈ p.weeklySubscription, w.scope.learningScope = scope

instance (p : MemberPolicy) (scope : String) : Decidable (p.SubscribedIn scope) := by
  unfold MemberPolicy.SubscribedIn; infer_instance

/-- `sources` in `erase_learning`: the messages of the erased observations, of the erased eligibility
and of the erased candidates. -/
def EngagementStore.erasedSources (s : EngagementStore) (scope : String) (member : Option ℕ) :
    List ℕ :=
  (s.observations.toList.flatMap fun kv =>
    (kv.2.toList.filter fun row => kv.1.learningScope = scope ∧ Own member row.1).map
      fun row => row.2.message) ++
  (s.eligibility.toList.flatMap fun kv =>
    (((kv.2.filter fun source => Own member kv.1 ∧ source.scope.learningScope = scope).image
      SourceRef.message).sort (· ≤ ·))) ++
  ((values s.candidates).filter fun c => c.id ∈ s.erasedCandidates scope member).filterMap fun c =>
    c.source.map SourceRef.message

/-- The charges of the erased candidates, without the candidate. -/
def EngagementStore.movedContactCharges (s : EngagementStore) (scope : String)
    (member : Option ℕ) : List ErasedContactCharge :=
  (s.charges.filter fun c => c.candidateId ∈ s.erasedCandidates scope member).map fun c =>
    ⟨c.member, c.localDay, c.localWeek, c.at_⟩

/-- The attempts of the erased public candidates. -/
def EngagementStore.movedCommunityCharges (s : EngagementStore) (K : Crates) (scope : String)
    (member : Option ℕ) : List ErasedCommunityCharge :=
  (s.erasedCandidates scope member).toList.filterMap fun kv =>
    (s.communityReceipts[kv.1]?).bind fun r => r.attemptedAt.map fun at_ =>
      ⟨r.evidence.project?.map (projectIdentity K), kv.2.scope, kv.2.kind, at_⟩

/-- The store after an erasure. -/
def EngagementStore.erased (s : EngagementStore) (K : Crates) (scope : String)
    (member : Option ℕ) : EngagementStore where
  communityCursor := s.communityCursor.filter fun source =>
    ¬ (source.scope.learningScope = scope ∧ Own member source.author)
  communityReceipts := s.communityReceipts.filter fun id _ => id ∉ s.erasedCandidates scope member
  invitationRequests := s.invitationRequests.filter fun _ r => ¬ r.Linked scope member
  suppressedInvitationRequests :=
    s.suppressedInvitationRequests.filter fun _ r => ¬ s.SuppressedLinked r scope member
  feedback := (s.feedback.map (s.keptFeedback scope member)).filter fun _ rows => rows.size ≠ 0
  erasedIdentities := s.identitiesAfter K scope member
  safetyPrunedThrough := s.safetyPrunedThrough
  sequence := s.sequence
  memberPolicies := s.memberPolicies.map fun m p => if Own member m then p.forget scope else p
  weeklyAssessments := s.weeklyAssessments.filter fun m _ =>
    ¬ ∃ p ∈ s.memberPolicies[m]?, Own member m ∧ p.SubscribedIn scope
  responses := s.responses.filter fun message _ => message ∉ s.erasedSources scope member
  observations := (s.observations.map (keptObservations scope member)).filter fun _ rows =>
    rows.size ≠ 0
  eligibility := (s.eligibility.map (keptEligibility scope member)).filter fun _ rows => rows ≠ ∅
  guildFeatures := s.guildFeatures
  candidates := s.candidates.filter fun id _ => id ∉ s.erasedCandidates scope member
  introductions := s.introductions.filter fun id _ => id ∉ s.erasedIntroductions scope member
  charges := s.charges.filter fun c => c.candidateId ∉ s.erasedCandidates scope member
  erasedContactCharges := s.erasedContactCharges ++ s.movedContactCharges scope member
  erasedCommunityCharges := s.erasedCommunityCharges ++ s.movedCommunityCharges K scope member

/-- The number of records an erasure removed. -/
def EngagementStore.removed (s next : EngagementStore) (scope : String) (member : Option ℕ) : ℕ :=
  (entries s.observations (Std.ExtTreeMap.size ·) -
      entries next.observations (Std.ExtTreeMap.size ·)) +
    (entries s.eligibility Finset.card - entries next.eligibility Finset.card) +
    dropped s.responses next.responses + dropped s.candidates next.candidates +
    dropped s.introductions next.introductions + (s.charges.length - next.charges.length) +
    dropped s.communityReceipts next.communityReceipts +
    dropped s.invitationRequests next.invitationRequests +
    dropped s.suppressedInvitationRequests next.suppressedInvitationRequests +
    (entries s.feedback (Std.ExtTreeMap.size ·) - entries next.feedback (Std.ExtTreeMap.size ·)) +
    (if s.communityCursor.isSome = true ∧ next.communityCursor = none then 1 else 0) +
    (s.memberPolicies.toList.map fun kv =>
      if Own member kv.1 then
        dropped kv.2.destinations (kv.2.forget scope).destinations +
          (if kv.2.SubscribedIn scope then 1 else 0)
      else 0).sum +
    dropped s.weeklyAssessments next.weeklyAssessments

/-- `erase_learning`. -/
def EngagementStore.eraseLearning (K : Crates) (scope : String) (member : Option ℕ)
    (s : EngagementStore) : Except WorkError (ℕ × EngagementStore) := do
  ensure ((s.identitiesAfter K scope member).card ≤ 10000) .full
  let next := s.erased K scope member
  return (s.removed next scope member, next)

/-! ### Pruning -/

/-- An erased charge still protects the member at `now`. -/
def ErasedContactCharge.Protects (c : ErasedContactCharge) (now : ℕ) : Prop :=
  now - c.at_ ≤ 9 * 86400 ∨ (∃ d ∈ parse c.localDay, utcDay (now - 2 * 86400) ≤ d) ∨
    ∃ d ∈ parse c.localWeek, monday (utcDay (now - 2 * 86400)) ≤ d

instance (c : ErasedContactCharge) (now : ℕ) : Decidable (c.Protects now) := by
  unfold ErasedContactCharge.Protects; infer_instance

/-- `prune_erasure_safety`. -/
def EngagementStore.pruneErasureSafety (now : ℕ) (s : EngagementStore) : EngagementStore :=
  if IsInstant (now - 2 * 86400) then
    let contact := s.erasedContactCharges.filter fun c => c.Protects now
    let community := s.erasedCommunityCharges.filter fun c => now - c.at_ ≤ week
    { s with
      erasedContactCharges := contact
      erasedCommunityCharges := community
      safetyPrunedThrough :=
        if contact.length + community.length <
            s.erasedContactCharges.length + s.erasedCommunityCharges.length then
          max s.safetyPrunedThrough now
        else s.safetyPrunedThrough }
  else s

end AbbeyBot.Engagement
