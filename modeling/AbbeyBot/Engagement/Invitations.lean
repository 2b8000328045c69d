import Mathlib
import AbbeyBot.Engagement.Schedule

/-! # Invitations

A member asks for an invitation by a command. The interaction of the command is recorded with the
candidate, or with the open invitation that stands in its way. -/

namespace AbbeyBot.Engagement

open AbbeyBot.Calendar AbbeyBot.Library.OrderedMap AbbeyBot.Library.Result AbbeyBot.Library.Word
open AbbeyBot.Work.Types

/-- `invitation_eligible`. -/
def EngagementStore.InvitationEligible (s : EngagementStore) (member : ℕ) : Prop :=
  (∃ sources ∈ s.eligibility[member]?, sources ≠ ∅) ∨
    ∃ p ∈ s.memberPolicies[member]?, p.weeklySubscription.isSome = true

instance (s : EngagementStore) (member : ℕ) : Decidable (s.InvitationEligible member) := by
  unfold EngagementStore.InvitationEligible; infer_instance

/-- `invitation_receipt_current`. -/
def EngagementStore.InvitationReceiptCurrent (s : EngagementStore) (c : Candidate) : Prop :=
  c.kind.isInvitation = true ∧ c.source = none ∧ ∃ r ∈ s.invitationRequests[c.id]?,
    r.member ≠ 0 ∧ c.member = some r.member ∧ c.scope = r.scope ∧ c.dueAt = r.at_ ∧
      r.interaction ≠ 0 ∧ (c.kind = .activityInvite ↔ r.activity.isSome = true)

instance (s : EngagementStore) (c : Candidate) : Decidable (s.InvitationReceiptCurrent c) := by
  unfold EngagementStore.InvitationReceiptCurrent; infer_instance

/-- The open invitation of the member in the scope of the request. -/
def EngagementStore.blocker (s : EngagementStore) (request : InvitationRequest) :
    Option Candidate :=
  (values s.candidates).find? fun c => c.member = some request.member ∧ c.scope = request.scope ∧
    c.kind.isInvitation = true ∧ c.state.isOpen = true

/-- The candidate of a request. -/
def MemberPolicy.invitation (policy : MemberPolicy) (kind : EngagementKind)
    (request : InvitationRequest) (id : ℕ) : Candidate where
  id := id
  kind := kind
  source := none
  member := some request.member
  scope := request.scope
  dueAt := request.at_
  revision := 1
  state := .pending
  dedupeKey := "invitation:" ++ toString request.interaction
  policyRevision := policy.revision
  destination := policy.destinationFor request.scope
  messageId := none
  introductionId := none
  workRef := none
  expiresAt := none
  followUpReason := none

/-- The store with a request that was refused because of another invitation. -/
def EngagementStore.withSuppressed (s : EngagementStore) (kind : EngagementKind)
    (request : InvitationRequest) (blocker : Candidate) : EngagementStore :=
  { s with
    suppressedInvitationRequests :=
      s.suppressedInvitationRequests.insert request.interaction ⟨blocker.id, kind, request⟩ }

/-- The store with the candidate of a request. -/
def EngagementStore.withRequest (s : EngagementStore) (policy : MemberPolicy)
    (kind : EngagementKind) (request : InvitationRequest) (id : ℕ) : EngagementStore :=
  { s with
    sequence := id
    candidates := s.candidates.insert id (policy.invitation kind request id)
    invitationRequests := s.invitationRequests.insert id request }

/-- `EngagementStore::request_invitation`. -/
def EngagementStore.requestInvitation (K : Crates) (kind : EngagementKind)
    (request : InvitationRequest) (s : EngagementStore) :
    Except WorkError (Option ℕ × EngagementStore) := do
  ensure (invitationIdentity K request.interaction ∉ s.erasedIdentities) .stale
  ensure (kind.isInvitation = true ∧ request.interaction ≠ 0) .invalid
  request.scope.validate
  utc request.at_
  let policy ← orErr s.memberPolicies[request.member]? .denied
  ensure (policy.PersonalizedEnabled K ∧ request.scope ∉ policy.stoppedScopes ∧
    ¬ policy.GuildStopped request.scope ∧ request.scope.MatchesMember request.member ∧
    s.InvitationEligible request.member) .denied
  if s.Requested request.interaction ∨
      s.suppressedInvitationRequests.contains request.interaction = true then
    return (none, s)
  match s.blocker request with
  | some blocker =>
    (s.withSuppressed kind request blocker).validate K
    return (none, s.withSuppressed kind request blocker)
  | none =>
    ensure (s.HasRoom (s.suppressedInvitationRequests.size + 1)) .full
    let id ← orErr (checkedAdd s.sequence 1) .full
    (s.withRequest policy kind request id).validate K
    return (some id, s.withRequest policy kind request id)

/-- A request is known already, is suppressed by another invitation, or becomes the next candidate. -/
theorem requestInvitation_ok {K : Crates} {kind : EngagementKind} {request : InvitationRequest}
    {s s' : EngagementStore} {r : Option ℕ}
    (h : s.requestInvitation K kind request = .ok (r, s')) :
    invitationIdentity K request.interaction ∉ s.erasedIdentities ∧
      ((r = none ∧ s' = s) ∨
        (r = none ∧ ∃ blocker, s' = s.withSuppressed kind request blocker ∧ s'.Valid K) ∨
        (r = some (s.sequence + 1) ∧ ∃ policy,
          s' = s.withRequest policy kind request (s.sequence + 1) ∧ s'.Valid K ∧
            kind.isInvitation = true)) := by
  unfold EngagementStore.requestInvitation at h
  simp only [bind_eq_ok, ensure_eq_ok, exists_unit, utc_eq_ok, orErr_eq_ok] at h
  obtain ⟨hid, hkind, -, -, policy, -, -, h⟩ := h
  refine ⟨hid, ?_⟩
  split at h
  · simp only [pure_eq_ok, Prod.mk.injEq] at h
    exact .inl ⟨h.1.symm, h.2.symm⟩
  · split at h
    · rename_i blocker _
      simp only [bind_eq_ok, validate_eq_ok, exists_unit, pure_eq_ok, Prod.mk.injEq] at h
      obtain ⟨hv, rfl, rfl⟩ := h
      exact .inr (.inl ⟨rfl, blocker, rfl, hv⟩)
    · simp only [bind_eq_ok, ensure_eq_ok, exists_unit, orErr_eq_ok, checkedAdd_eq_some,
        validate_eq_ok, pure_eq_ok, Prod.mk.injEq] at h
      obtain ⟨-, id, ⟨rfl, -⟩, hv, rfl, rfl⟩ := h
      exact .inr (.inr ⟨rfl, policy, rfl, hv, hkind.1⟩)

end AbbeyBot.Engagement
