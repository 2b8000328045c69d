import Mathlib
import AbbeyBot.Library.Word
import AbbeyBot.CommunityOps.Policy

/-! # Proposals

A model may draft actions; a draft becomes a `PendingProposal`, which the owner of the guild approves
or rejects after having reviewed it. Only the action of an approved proposal may stand in the policy
under a proposal's key. The store of the proposals and their journals is validated whenever it is
loaded or saved.

JSON and SHA-256 are outside, the digests are the parameter `Hashes`. -/

namespace AbbeyBot.CommunityOps

open AbbeyBot.Library.OrderedMap AbbeyBot.Library.Result AbbeyBot.Library.Text
open AbbeyBot.Library.Word

def proofTtl : ℕ := 60

def proposalTtl : ℕ := 7 * 86400

def maxPending : ℕ := 100

/-! ### Records -/

structure ModelProposal where
  operation : Operation
  reason : String
  deriving DecidableEq, Repr

inductive PostingChange where
  | preserve
  | closeOrdinaryPosting
  deriving DecidableEq, Repr

structure ExpectedAccess where
  targetBeforeDigest : Option String
  categoryBeforeDigest : Option String
  permissionsBeforeDigest : Option String
  viewInvariant : Bool
  postingChange : PostingChange
  rolePermissions : Option ℕ
  deriving DecidableEq, Repr

/-- `ProposalSource`; its locality and its request class have one value each. -/
structure ProposalSource where
  assessmentId : String
  capturedAt : ℕ
  inventoryDigest : String
  scopeDigest : String
  policyDigest : String
  sourceChannelIds : BTreeSet ℕ
  sourceCategoryIds : BTreeSet ℕ
  sourceRoleIds : BTreeSet ℕ
  deriving DecidableEq

inductive ProposalStatus where
  | pending
  | approvalPrepared
  | approved
  | rejected
  | stale
  | reviewRequired
  deriving DecidableEq, Repr

/-- The statuses of a proposal that holds its target. -/
def ProposalStatus.isActive : ProposalStatus → Bool
  | .pending | .approvalPrepared | .reviewRequired => true
  | _ => false

/-- The statuses of a proposal whose approval was begun and not finished. -/
def ProposalStatus.isJournaled : ProposalStatus → Bool
  | .approvalPrepared | .reviewRequired => true
  | _ => false

inductive ApprovalStage where
  | prepared
  | policyVerified
  | finalized
  | reconciliationRequired
  deriving DecidableEq, Repr

structure ApprovalJournal where
  action : Action
  reviewedHash : String
  scopeDigest : String
  previousPolicyDigest : String
  plannedPolicyDigest : String
  stage : ApprovalStage
  deriving DecidableEq, Repr

/-- `OwnerDecision`, less its recovery audit, which is never written. -/
structure OwnerDecision where
  actor : ℕ
  decidedAt : ℕ
  reviewedHash : String
  previousPolicyDigest : String
  publishedPolicyDigest : Option String
  approvedActionKey : Option String
  journal : Option ApprovalJournal
  deriving DecidableEq, Repr

/-- The part of a proposal that the owner reviews. -/
structure Reviewed where
  id : String
  guild : ℕ
  policyOwner : ℕ
  createdAt : ℕ
  expiresAt : ℕ
  draft : ModelProposal
  source : ProposalSource
  expectedAccess : ExpectedAccess
  deriving DecidableEq

structure PendingProposal extends Reviewed where
  revision : ℕ
  hash : String
  status : ProposalStatus
  decision : Option OwnerDecision
  deriving DecidableEq

/-- `PendingProposal::action`. -/
def Reviewed.action (p : Reviewed) : Action :=
  ⟨"proposal-" ++ p.id, p.draft.reason, p.draft.operation⟩

/-- The digests of a policy as it is written to its file, of a policy without its actions and mode
together with a scope, of what the owner reviews, and of an assessment. -/
structure Hashes where
  policy : Policy → String
  scope : Policy → AssessmentScope → String
  reviewed : Reviewed → String
  assessment : ℕ → ℕ → String → String

variable (H : Hashes)

/-- `scope_digest`. -/
def scopeDigest (policy : Policy) (scope : AssessmentScope) : Except String String := do
  ensure (scope = policy.assessment) "assessment scope is not owner policy"
  return H.scope { policy with actions := [], mode := .stopped } scope

/-- The approval of a proposal that is past `Pending` and not refused is journaled as its own. -/
def PendingProposal.validateJournal (p : PendingProposal) : Except String Unit := do
  let decision ← orErr p.decision "approval decision missing"
  let journal ← orErr decision.journal "approval journal missing"
  ensure (¬ (decision.actor ≠ p.policyOwner ∨ decision.reviewedHash ≠ p.hash ∨
      journal.action ≠ p.action ∨ journal.reviewedHash ≠ p.hash ∨
      journal.scopeDigest ≠ p.source.scopeDigest ∨
      journal.previousPolicyDigest ≠ decision.previousPolicyDigest ∨
      decision.approvedActionKey ≠ some journal.action.key ∨
      (p.status = .approved ∧ journal.stage ≠ .finalized)))
    "approval journal integrity mismatch"

/-- `PendingProposal::validate`. -/
def PendingProposal.validate (p : PendingProposal) : Except String Unit := do
  ensure (¬ (¬ isDigest p.id ∨ p.hash ≠ H.reviewed p.toReviewed ∨ p.revision = 0 ∨ p.guild = 0 ∨
      p.policyOwner = 0 ∨ p.expiresAt ≠ saturatingAdd p.createdAt proposalTtl ∨
      p.createdAt < p.source.capturedAt ∨ isBlank p.draft.reason ∨
      512 < p.draft.reason.utf8ByteSize ∨ AssessmentKind.of p.draft.operation = none))
    "invalid pending proposal integrity"
  ensure (¬ (p.status = .pending ∧ p.decision.isSome)) "pending proposal already has a decision"
  if p.status = .approved ∨ p.status.isJournaled then p.validateJournal else .ok ()

/-! ### The store -/

inductive AssessmentOutcome where
  | started
  | localUnavailable
  | sourceIncomplete
  | invalidOutput
  | noChange
  | pendingPublished
  | cancelled
  | persistenceReviewRequired
  deriving DecidableEq, Repr

structure AssessmentAttempt where
  id : String
  startedAt : ℕ
  finishedAt : Option ℕ
  sourceDigest : Option String
  policyDigest : String
  outcome : AssessmentOutcome
  deriving DecidableEq, Repr

structure ProposalStore where
  version : ℕ
  revision : ℕ
  lastAttemptAt : Option ℕ
  attempts : List AssessmentAttempt
  proposals : BTreeMap String PendingProposal
  deriving DecidableEq

/-- `ProposalStore::default`. -/
def ProposalStore.default : ProposalStore := ⟨1, 0, none, [], ∅⟩

def validateProposal (row : String × PendingProposal) : Except String Unit := do
  ensure (row.1 = row.2.id) "proposal identity mismatch"
  row.2.validate H

/-- The loop of `ProposalStore::validate` over the attempts; `ids` are those of the ones before. -/
def validateAttempts : List String → List AssessmentAttempt → Except String Unit
  | _, [] => .ok ()
  | ids, a :: rest => do
    ensure (¬ (a.id ∈ ids ∨ ∃ t ∈ a.finishedAt, t < a.startedAt)) "invalid assessment attempt"
    validateAttempts (a.id :: ids) rest

/-- `ProposalStore::validate`. -/
def ProposalStore.validate (store : ProposalStore) : Except String Unit := do
  ensure (¬ (store.version ≠ 1 ∨ maxPending < store.proposals.size ∨ 100 < store.attempts.length))
    "invalid proposal store limits"
  store.proposals.toList.forM (validateProposal H)
  validateAttempts [] store.attempts

/-- `ProposalStore::active_targets`. -/
def ProposalStore.activeTargets (store : ProposalStore) : List String :=
  column store.proposals fun p => if p.status.isActive then some p.draft.operation.target else none

/-- `ProposalStore::executable`. -/
def ProposalStore.executable (store : ProposalStore) (action : Action) : Bool :=
  if "proposal-".toList.isPrefixOf action.key.toList then
    (values store.proposals).any fun p =>
      p.status = .approved && p.action = action && (p.validate H).isOk
  else true

/-! ### Fresh proofs -/

/-- `fresh`. -/
def fresh (checked now : ℕ) : Except String Unit :=
  ensure (¬ (now < checked ∨ proofTtl < now - checked)) "stale proof"

/-- `FreshOwnerProof`: the actor is the owner. -/
structure FreshOwnerProof where
  guild : ℕ
  owner : ℕ
  actor : ℕ
  origin : ℕ
  checkedAt : ℕ
  verified : ¬ (guild = 0 ∨ owner = 0 ∨ actor ≠ owner ∨ origin = 0)
  deriving DecidableEq

/-- `FreshOwnerProof::check`. -/
def FreshOwnerProof.check (proof : FreshOwnerProof) (policy : Policy) (scope : AssessmentScope)
    (now : ℕ) : Except String ℕ := do
  fresh proof.checkedAt now
  ensure (¬ (proof.guild ≠ policy.guild ∨ proof.owner ≠ policy.owner ∨
      proof.actor ≠ policy.owner ∨ ∃ c ∈ scope.reviewChannel, c ≠ proof.origin))
    "owner scope denied"
  return proof.actor

structure FreshOperationProof where
  reviewedHash : String
  expected : ExpectedAccess
  checkedAt : ℕ
  deriving DecidableEq

/-- `FreshOperationProof::check`. -/
def FreshOperationProof.check (proof : FreshOperationProof) (p : PendingProposal) (now : ℕ) :
    Except String Unit := do
  fresh proof.checkedAt now
  ensure (¬ (proof.reviewedHash ≠ p.hash ∨ proof.expected ≠ p.expectedAccess))
    "operation proof mismatch"

/-! ### What validation gives -/

variable {H}

theorem proposal_of_validate {store : ProposalStore} (h : store.validate H = .ok ()) {id : String}
    {p : PendingProposal} (hp : store.proposals[id]? = some p) :
    p.id = id ∧ p.validate H = .ok () := by
  simp only [ProposalStore.validate, bind_eq_ok, exists_unit, forM_eq_ok] at h
  have hrow := h.2.1 (id, p) (Std.ExtTreeMap.mem_toList_iff_getElem?_eq_some.mpr hp)
  simp only [validateProposal, bind_eq_ok, exists_unit, ensure_eq_ok] at hrow
  exact ⟨hrow.1.symm, hrow.2⟩

/-- A journaled or approved proposal has a decision that was made on what it says, and a journal of
its own action. -/
theorem journal_of_validate {p : PendingProposal} (h : p.validate H = .ok ())
    (hs : p.status = .approved ∨ p.status.isJournaled = true) :
    ∃ decision journal, p.decision = some decision ∧ decision.journal = some journal ∧
      decision.reviewedHash = p.hash ∧ journal.action = p.action := by
  simp only [PendingProposal.validate, bind_eq_ok, exists_unit, if_pos hs] at h
  have hj := h.2.2
  simp only [PendingProposal.validateJournal, bind_eq_ok, orErr_eq_ok, ensure_eq_ok, not_or,
    not_not] at hj
  obtain ⟨decision, hd, journal, hj, -, hhash, haction, -⟩ := hj
  exact ⟨decision, journal, hd, hj, hhash, haction⟩

end AbbeyBot.CommunityOps
