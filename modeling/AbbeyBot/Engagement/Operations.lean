import Mathlib
import AbbeyBot.Engagement.Erasure
import AbbeyBot.Library.History

/-! # Operations

Everything that happens to a store in operation, as one step function: the operations of the
component, a reload from disk, and the settings that the shell edits in place and commits only if the
store passes its checks. -/

namespace AbbeyBot.Engagement

open AbbeyBot.Library.OrderedMap AbbeyBot.Library.Result AbbeyBot.Work.Types

/-- What the shell edits in place: settings, observations, feedback and its own marks. -/
structure Settings where
  communityCursor : Option SourceRef
  feedback : BTreeMap ℕ (BTreeMap ℕ ExplicitFeedback)
  memberPolicies : BTreeMap ℕ MemberPolicy
  weeklyAssessments : BTreeMap ℕ ℕ
  responses : BTreeMap ℕ ℕ
  observations : BTreeMap EngagementScope (BTreeMap ℕ SourceRef)
  eligibility : BTreeMap ℕ (BTreeSet SourceRef)
  guildFeatures : BTreeMap ℕ GuildFeaturePolicy

/-- The store with these settings. -/
def EngagementStore.withSettings (s : EngagementStore) (settings : Settings) : EngagementStore :=
  { s with
    communityCursor := settings.communityCursor
    feedback := settings.feedback
    memberPolicies := settings.memberPolicies
    weeklyAssessments := settings.weeklyAssessments
    responses := settings.responses
    observations := settings.observations
    eligibility := settings.eligibility
    guildFeatures := settings.guildFeatures }

/-- A commit of the shell. -/
def EngagementStore.configure (K : Crates) (settings : Settings) (s : EngagementStore) :
    Except WorkError (Unit × EngagementStore) := do
  (s.withSettings settings).validate K
  return ((), s.withSettings settings)

/-- `deserialize`: a store is read back if it passes the checks; what was reserved is recovered. -/
def EngagementStore.reload (K : Crates) (s : EngagementStore) :
    Except WorkError (ℕ × EngagementStore) := do
  s.validate K
  return s.recoverReserved

inductive Op where
  | propose (p : CandidateProposal) (now : ℕ)
  | proposeCommunity (facts : CommunityFacts) (now : ℕ)
  | requestInvitation (kind : EngagementKind) (request : InvitationRequest)
  | createIntroduction (members : Fin 2 → ℕ) (scope : EngagementScope) (description : String)
      (now : ℕ)
  | editIntroduction (id member revision : ℕ) (description : String) (destination : Option ℕ)
  | approveIntroduction (id member revision : ℕ)
  | withdrawIntroduction (id member revision : ℕ)
  | proposeLinkedTaskFollowUp (intent : FollowUpIntent) (source : SourceRef)
      (member due now : ℕ)
  | cancelTaskFollowUp (id revision : ℕ) (reason : FollowUpDecision)
  | reserve (id revision now : ℕ)
  | settle (id : ℕ) (outcome : DeliveryOutcome)
  | cancelSource (scope : EngagementScope) (message : ℕ)
  | cancelMemberOrigin (member : ℕ) (scope : EngagementScope) (after : ℕ)
  | cancelPublicOrigin (scope : EngagementScope) (after : ℕ)
  | expireMissedWeekly (now : ℕ)
  | recoverReserved
  | eraseLearning (scope : String) (member : Option ℕ)
  | pruneErasureSafety (now : ℕ)
  | reload
  | configure (settings : Settings)

inductive Out where
  | candidate (r : Except WorkError (Option ℕ))
  | number (r : Except WorkError ℕ)
  | flag (r : Except WorkError Bool)
  | unit (r : Except WorkError Unit)
  | reservation (r : Except WorkError EngagementReservation)

/-- An operation that writes last, with its output. -/
def written {α : Type} (out : Except WorkError α → Out) (s : EngagementStore)
    (r : Except WorkError (α × EngagementStore)) : Out × EngagementStore :=
  ((out (commit s r).1), (commit s r).2)

/-- **The step function** of the store. -/
def step (K : Crates) (s : EngagementStore) : Op → Out × EngagementStore
  | .propose p now => written .candidate s (s.propose K p now)
  | .proposeCommunity facts now => written .number s (s.proposeCommunity K facts now)
  | .requestInvitation kind request => written .candidate s (s.requestInvitation K kind request)
  | .createIntroduction members scope description now =>
    written .number s (s.createIntroduction K members scope description now)
  | .editIntroduction id member revision description destination =>
    written .number s (s.editIntroduction K id member revision description destination)
  | .approveIntroduction id member revision =>
    written .flag s (s.approveIntroduction K id member revision)
  | .withdrawIntroduction id member revision =>
    written .unit s (s.withdrawIntroduction id member revision)
  | .proposeLinkedTaskFollowUp intent source member due now =>
    written .candidate s (s.proposeLinkedTaskFollowUp K intent source member due now)
  | .cancelTaskFollowUp id revision reason =>
    written .flag s (s.cancelTaskFollowUp id revision reason)
  | .reserve id revision now => written .reservation s (s.reserve K id revision now)
  | .settle id outcome => ((.unit (s.settle id outcome).1), (s.settle id outcome).2)
  | .cancelSource scope message =>
    (.number (.ok (s.cancelSource scope message).1), (s.cancelSource scope message).2)
  | .cancelMemberOrigin member scope after =>
    (.number (.ok (s.cancelMemberOrigin member scope after).1),
      (s.cancelMemberOrigin member scope after).2)
  | .cancelPublicOrigin scope after =>
    (.number (.ok (s.cancelPublicOrigin scope after).1), (s.cancelPublicOrigin scope after).2)
  | .expireMissedWeekly now =>
    (.number (s.expireMissedWeekly now).1, (s.expireMissedWeekly now).2)
  | .recoverReserved => (.number (.ok s.recoverReserved.1), s.recoverReserved.2)
  | .eraseLearning scope member => written .number s (s.eraseLearning K scope member)
  | .pruneErasureSafety now => (.unit (.ok ()), s.pruneErasureSafety now)
  | .reload => written .number s (s.reload K)
  | .configure settings => written .unit s (s.configure K settings)

/-- What happened to a store: operations, their outputs and the states around them. -/
abbrev History := List (AbbeyBot.Library.History.Event EngagementStore Op Out)

/-- The store was reached from the default store, with this history. -/
abbrev Reaches (K : Crates) (h : History) (s : EngagementStore) : Prop :=
  AbbeyBot.Library.History.Run (step K) EngagementStore.empty h s

end AbbeyBot.Engagement
