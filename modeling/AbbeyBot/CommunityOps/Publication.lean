import Mathlib
import AbbeyBot.Library.Durable
import AbbeyBot.Library.History
import AbbeyBot.CommunityOps.Proposals

/-! # Publication of approved proposals

Two files are durable, the policy and the proposal store. An approval journals its plan in the store,
publishes the policy with the action, and records the end in the store; each of the three writes may
fail or be the last before a crash. `reconcile` looks at what is published and never publishes again.

The locks on the files are held from the first read of an operation to its end, so operations do not
overlap; the ledger of the executor is read only. -/

namespace AbbeyBot.CommunityOps

open AbbeyBot.Library.Durable AbbeyBot.Library.OrderedMap AbbeyBot.Library.Result
open AbbeyBot.Library.Word

/-- The policy file: what it says and the digest of its bytes. -/
structure PolicyFile where
  policy : Policy
  digest : String
  deriving DecidableEq

structure Disk where
  policy : PolicyFile
  store : ProposalStore
  deriving DecidableEq

variable (H : Hashes) {V : Type}

/-- `load_policy`. -/
def loadPolicy (d : Disk) : Except String (Policy × String) := do
  d.policy.policy.validate
  return (d.policy.policy, d.policy.digest)

/-- `load_at`. -/
def loadStore (d : Disk) : Except String ProposalStore := do
  d.store.validate H
  return d.store

/-- `save_at`. -/
def saveStore (io : Io) (store : ProposalStore) : Program Disk ProposalStore := do
  let revision ← attempt (orErr (checkedAdd store.revision 1) "proposal revision exhausted")
  let next := { store with revision := revision }
  attempt (next.validate H)
  publish io fun d => { d with store := next }
  return next

/-- The row of a proposal that is there is replaced. -/
def ProposalStore.set (store : ProposalStore) (id : String) (p : PendingProposal) : ProposalStore :=
  { store with proposals := store.proposals.insert id p }

/-- A proposal at its next revision. -/
def PendingProposal.revise (p : PendingProposal) : Except String PendingProposal := do
  let revision ← orErr (checkedAdd p.revision 1) "proposal revision exhausted"
  return { p with revision := revision }

/-! ### Assessment -/

/-- The conditions under which `inspect_pending` gives a pending proposal up. -/
def PendingProposal.lapsed (p : PendingProposal) (policy : Policy) (immutable : String) (now : ℕ) :
    Bool :=
  p.status = .pending && (p.guild ≠ policy.guild || p.policyOwner ≠ policy.owner ||
    now < p.createdAt || p.expiresAt ≤ now || p.source.scopeDigest ≠ immutable)

/-- A proposal that lapsed is stale. -/
def PendingProposal.giveUp (p : PendingProposal) (lapsed : Bool) : PendingProposal :=
  if lapsed then { p with revision := p.revision + 1, status := .stale } else p

/-- `inspect_pending`. -/
def inspectPending (policy : Policy) (now : ℕ) (io : Io) : Program Disk ProposalStore := do
  attempt policy.validate
  let immutable ← attempt (scopeDigest H policy policy.assessment)
  let d ← get
  let store ← attempt (loadStore H d)
  attempt (ensure (All store.proposals fun _ p =>
      p.lapsed policy immutable now = true → p.revision + 1 ≤ u64Max) "proposal revision exhausted")
  let next := { store with
    proposals := store.proposals.map fun _ p => p.giveUp (p.lapsed policy immutable now) }
  let changed := (values store.proposals).any fun p => p.lapsed policy immutable now
  if changed then saveStore H io next else return store

structure AssessmentReservation where
  id : String
  guild : ℕ
  owner : ℕ
  scopeDigest : String
  policyDigest : String
  deriving DecidableEq, Repr

/-- An attempt that was abandoned in a crash is closed. -/
def AssessmentAttempt.abandon (now : ℕ) (a : AssessmentAttempt) : AssessmentAttempt :=
  if a.outcome = .started then
    { a with outcome := .cancelled, finishedAt := some (max now a.startedAt) }
  else a

/-- `begin_assessment`. -/
def beginAssessment (policy : Policy) (scope : AssessmentScope) (policyDigest : String) (now : ℕ)
    (io : Io) : Program Disk AssessmentReservation := do
  attempt policy.validate
  attempt (ensure (¬ (policy.mode = .stopped ∨ ¬ scope.enabled ∨ scope.sourceChannels = ∅))
    "assessment is disabled or stopped")
  let d ← get
  let store ← attempt (loadStore H d)
  attempt (ensure (¬ ∃ last ∈ store.lastAttemptAt, now < last ∨ now - last < 86400)
    "assessment already charged or clock regressed")
  attempt (ensure (store.proposals.size < maxPending) "pending store is full")
  let attempts := store.attempts.map (AssessmentAttempt.abandon now)
  let attempts := if attempts.length = 100 then attempts.drop 1 else attempts
  let id := H.assessment policy.guild now policyDigest
  let _ ← saveStore H io { store with
    attempts := attempts ++ [⟨id, now, none, none, policyDigest, .started⟩]
    lastAttemptAt := some now }
  let scopeDigest ← attempt (scopeDigest H policy scope)
  return ⟨id, policy.guild, policy.owner, scopeDigest, policyDigest⟩

/-- An outcome without proposals that may be recorded whatever the policy is by now. -/
def AssessmentOutcome.isHarmless : AssessmentOutcome → Bool
  | .cancelled | .localUnavailable | .sourceIncomplete | .invalidOutput
  | .persistenceReviewRequired => true
  | _ => false

/-- The loop of `finish_assessment`; `targets` are the ones taken before. -/
def checkProposals (reservation : AssessmentReservation) (policy : Policy) (store : ProposalStore)
    (startedAt now : ℕ) : List String → List PendingProposal → Except String Unit
  | _, [] => .ok ()
  | targets, p :: rest => do
    p.validate H
    ensure (¬ (p.guild ≠ policy.guild ∨ p.policyOwner ≠ policy.owner ∨ p.status ≠ .pending ∨
        p.decision.isSome ∨ p.source.assessmentId ≠ reservation.id ∨
        p.source.scopeDigest ≠ reservation.scopeDigest ∨
        p.source.policyDigest ≠ reservation.policyDigest ∨ p.createdAt < startedAt ∨
        now < p.createdAt ∨ p.id ∈ store.proposals ∨ p.draft.operation.target ∈ targets))
      "pending publication identity or conflict drift"
    checkProposals reservation policy store startedAt now (p.draft.operation.target :: targets) rest

/-- The policy under which an assessment is finished is the one it was reserved for. -/
def checkReservation (reservation : AssessmentReservation) (policy : Policy)
    (currentPolicyDigest : String) (harmless : Bool) : Except String Unit := do
  ensure (policy.guild = reservation.guild ∧ policy.owner = reservation.owner)
    "assessment policy changed"
  if harmless then .ok () else do
    ensure (policy.mode ≠ .stopped) "assessment policy changed"
    let scope ← scopeDigest H policy policy.assessment
    ensure (scope = reservation.scopeDigest ∧ currentPolicyDigest = reservation.policyDigest)
      "assessment policy changed"

/-- `finish_assessment`. -/
def finishAssessment (reservation : AssessmentReservation) (policy : Policy)
    (currentPolicyDigest : String) (proposals : List PendingProposal) (outcome : AssessmentOutcome)
    (now : ℕ) (io : Io) : Program Disk Unit := do
  attempt (checkReservation H reservation policy currentPolicyDigest
    (proposals.isEmpty && outcome.isHarmless))
  attempt (ensure (outcome ≠ .started ∧ (proposals = [] ↔ outcome ≠ .pendingPublished))
    "invalid assessment settlement")
  let d ← get
  let store ← attempt (loadStore H d)
  let found ← attempt (orErr (store.attempts.find? fun a => a.id = reservation.id)
    "assessment reservation missing")
  attempt (ensure (found.outcome = .started ∧ found.startedAt ≤ now)
    "assessment already settled or clock regressed")
  attempt (ensure (store.proposals.size + proposals.length ≤ maxPending) "pending store is full")
  attempt (checkProposals H reservation policy store found.startedAt now store.activeTargets proposals)
  let settled := { found with
    finishedAt := some now
    sourceDigest := proposals.head?.map fun p => p.source.inventoryDigest
    outcome := outcome }
  let _ ← saveStore H io { store with
    proposals := proposals.foldl (fun rows p => rows.insert p.id p) store.proposals
    attempts := store.attempts.replace found settled }

/-! ### Decisions -/

/-- `check_pending`. -/
def checkPending (p : PendingProposal) (policy : Policy) (scope : AssessmentScope) (hash : String)
    (now : ℕ) : Except String Unit := do
  p.validate H
  ensure (¬ (p.status ≠ .pending ∨ p.hash ≠ hash ∨ p.guild ≠ policy.guild ∨
      p.policyOwner ≠ policy.owner ∨ now < p.createdAt ∨ p.expiresAt ≤ now))
    "pending proposal is stale or not approveable"
  let immutable ← scopeDigest H policy scope
  ensure (p.source.scopeDigest = immutable) "pending proposal is stale or not approveable"

/-- `active_inventory_targets`. -/
def activeInventoryTargets (policy : Policy) (execution : Ledger V) : List String :=
  (policy.actions.filter fun a =>
    match execution.receipts[a.key]? with
    | none => true
    | some r => r.action ≠ a || !(r.status = .verified || r.status = .rejected)).map
      fun a => a.operation.target

structure ApprovalRequest where
  scope : AssessmentScope
  expectedPolicyDigest : String
  expectedStoreRevision : ℕ
  proposalId : String
  reviewedHash : String
  owner : FreshOwnerProof
  operation : FreshOperationProof
  deriving DecidableEq

/-- The policy with one more action. -/
def Policy.push (policy : Policy) (action : Action) : Policy :=
  { policy with actions := policy.actions ++ [action] }

/-- What `approve` has decided on when it starts to write. -/
structure ApprovalPlan where
  store : ProposalStore
  policy : Policy
  plannedDigest : String
  currentDigest : String
  action : Action

/-- `approve`, up to its first write; `now` and `commitNow` are two readings of the clock. -/
def ApprovalRequest.plan (request : ApprovalRequest) (execution : Ledger V) (now commitNow : ℕ)
    (d : Disk) : Except String ApprovalPlan := do
  let (policy, currentDigest) ← loadPolicy d
  ensure (currentDigest = request.expectedPolicyDigest) "approval policy CAS failed"
  let store ← loadStore H d
  ensure (store.revision = request.expectedStoreRevision) "approval store CAS failed"
  let actor ← request.owner.check policy request.scope now
  let p ← orErr store.proposals[request.proposalId]? "proposal unavailable"
  checkPending H p policy request.scope request.reviewedHash now
  request.operation.check p now
  let action := p.action
  ensure (¬ ((∃ a ∈ policy.actions, a.key = action.key) ∨
      action.operation.target ∈ activeInventoryTargets policy execution))
    "approval conflicts with existing inventory"
  -- Budget and target are checked as if the policy were applied; its own mode is kept.
  execution.authorize { policy.push action with mode := .apply } action now
  let immutable ← scopeDigest H policy request.scope
  let planned := policy.push action
  planned.validate
  let widened ← scopeDigest H planned request.scope
  ensure (widened = immutable) "approval widened owner scope"
  let plannedDigest := H.policy planned
  let _ ← request.owner.check planned request.scope commitNow
  request.operation.check p commitNow
  checkPending H p planned request.scope request.reviewedHash commitNow
  let revised ← p.revise
  let prepared := { revised with
    status := .approvalPrepared
    decision := some ⟨actor, commitNow, p.hash, currentDigest, none, some action.key,
      some ⟨action, p.hash, immutable, currentDigest, plannedDigest, .prepared⟩⟩ }
  return ⟨store.set request.proposalId prepared, planned, plannedDigest, currentDigest, action⟩

/-- The stage of the journal of a decision. -/
def OwnerDecision.atStage (decision : OwnerDecision) (stage : ApprovalStage) :
    Except String OwnerDecision := do
  let journal ← orErr decision.journal "approval journal missing"
  return { decision with journal := some { journal with stage := stage } }

/-- `mark_review`. -/
def markReview (store : ProposalStore) (id : String) : Except String ProposalStore := do
  let p ← orErr store.proposals[id]? "proposal unavailable"
  let p ← p.revise
  let decision ← orErr p.decision "approval journal missing"
  let decision ← decision.atStage .reconciliationRequired
  return store.set id { p with status := .reviewRequired, decision := some decision }

/-- `finalize`. -/
def finalize (store : ProposalStore) (id digest : String) : Except String ProposalStore := do
  let p ← orErr store.proposals[id]? "proposal unavailable"
  let p ← p.revise
  let decision ← orErr p.decision "approval decision missing"
  let decision ← { decision with publishedPolicyDigest := some digest }.atStage .finalized
  return store.set id { p with status := .approved, decision := some decision }

/-- The checks of `approve` right before the policy is written. -/
def ApprovalRequest.checkPublication (request : ApprovalRequest) (plan : ApprovalPlan)
    (store : ProposalStore) (now : ℕ) (d : Disk) : Except String Unit := do
  let _ ← request.owner.check plan.policy request.scope now
  let pending ← orErr store.proposals[request.proposalId]? "proposal unavailable"
  ensure (¬ (now < pending.createdAt ∨ pending.expiresAt ≤ now))
    "proposal expired during approval publication"
  request.operation.check pending now
  let (_, digest) ← loadPolicy d
  ensure (digest = plan.currentDigest) "policy changed during approval publication"

/-- The publication of the policy within `approve`, with its readback. -/
def ApprovalRequest.publishPolicy (request : ApprovalRequest) (plan : ApprovalPlan)
    (store : ProposalStore) (now : ℕ) (io : Io) : Program Disk Unit := do
  let d ← get
  attempt (request.checkPublication plan store now d)
  publish io fun d => { d with policy := ⟨plan.policy, plan.plannedDigest⟩ }
  let d ← get
  let (observed, digest) ← attempt (loadPolicy d)
  attempt (ensure (observed = plan.policy ∧ digest = plan.plannedDigest)
    "approved policy readback mismatch")

/-- The clock of an approval at its three readings. -/
structure ApprovalClock where
  now : ℕ
  commitNow : ℕ
  publishNow : ℕ

/-- What happens to the writes of an approval. -/
structure ApprovalIo where
  prepared : Io
  policy : Io
  review : Io
  final : Io

/-- `approve`. -/
def approve (request : ApprovalRequest) (execution : Ledger V) (clock : ApprovalClock)
    (io : ApprovalIo) : Program Disk Action := do
  let d ← get
  let plan ← attempt (request.plan H execution clock.now clock.commitNow d)
  let store ← saveStore H io.prepared plan.store
  let publication ← recover (request.publishPolicy plan store clock.publishNow io.policy)
  match publication with
  | .error _ => do
    let store ← attempt (markReview store request.proposalId)
    let _ ← saveStore H io.review store
    throw (.failed "approval publication uncertain; owner reconciliation required")
  | .ok () => do
    let store ← attempt (finalize store request.proposalId plan.plannedDigest)
    let _ ← saveStore H io.final store
    return plan.action

/-- One proposal of `reconcile`: finalized if just its action is published, else left to review. -/
def reconcileOne (policy : Policy) (policyDigest immutable : String)
    (acc : ProposalStore × Bool) (id : String) : Except String (ProposalStore × Bool) := do
  let p ← orErr acc.1.proposals[id]? "proposal unavailable"
  let decision ← orErr p.decision "approval journal missing"
  let journal ← orErr decision.journal "approval journal missing"
  if p.guild = policy.guild ∧ p.policyOwner = policy.owner ∧ journal.scopeDigest = immutable ∧
      (policy.actions.countP fun a => a.key = journal.action.key) = 1 ∧
      journal.action ∈ policy.actions then do
    let store ← finalize acc.1 id policyDigest
    return (store, acc.2)
  else do
    let store ← markReview acc.1 id
    return (store, true)

/-- The proposals whose approval was begun and not finished. -/
def ProposalStore.journaled (store : ProposalStore) : List String :=
  column store.proposals fun p => if p.status.isJournaled then some p.id else none

/-- `reconcile`. -/
def reconcile (scope : AssessmentScope) (io : Io) : Program Disk Unit := do
  let d ← get
  let store ← attempt (loadStore H d)
  let (policy, policyDigest) ← attempt (loadPolicy d)
  let immutable ← attempt (scopeDigest H policy scope)
  let (next, unresolved) ←
    attempt (store.journaled.foldlM (reconcileOne policy policyDigest immutable) (store, false))
  if store.journaled ≠ [] then
    let _ ← saveStore H io next
  if unresolved then throw (.failed "approval reconciliation requires owner review")

structure Rejection where
  scope : AssessmentScope
  policyDigest : String
  revision : ℕ
  id : String
  reviewedHash : String
  owner : FreshOwnerProof
  deriving DecidableEq

/-- The checks of `reject`, and the store with the rejected proposal. -/
def Rejection.plan (request : Rejection) (now commitNow : ℕ) (d : Disk) :
    Except String ProposalStore := do
  let (policy, digest) ← loadPolicy d
  ensure (digest = request.policyDigest) "rejection policy CAS failed"
  let actor ← request.owner.check policy request.scope now
  let store ← loadStore H d
  ensure (store.revision = request.revision) "rejection store CAS failed"
  let p ← orErr store.proposals[request.id]? "proposal unavailable"
  checkPending H p policy request.scope request.reviewedHash now
  let _ ← request.owner.check policy request.scope commitNow
  checkPending H p policy request.scope request.reviewedHash commitNow
  let revised ← p.revise
  return store.set request.id { revised with
    status := .rejected
    decision := some ⟨actor, commitNow, p.hash, digest, none, none, none⟩ }

/-- `reject`. -/
def reject (request : Rejection) (now commitNow : ℕ) (io : Io) : Program Disk Unit := do
  let d ← get
  let store ← attempt (request.plan H now commitNow d)
  let _ ← saveStore H io store

/-! ### Runs -/

/-- One call, with the clock, the ledger of the executor and what happens to its writes. -/
inductive Call (V : Type) where
  | inspectPending (policy : Policy) (now : ℕ) (io : Io)
  | beginAssessment (policy : Policy) (scope : AssessmentScope) (policyDigest : String) (now : ℕ)
      (io : Io)
  | finishAssessment (reservation : AssessmentReservation) (policy : Policy)
      (currentPolicyDigest : String) (proposals : List PendingProposal)
      (outcome : AssessmentOutcome) (now : ℕ) (io : Io)
  | approve (request : ApprovalRequest) (execution : Ledger V) (clock : ApprovalClock)
      (io : ApprovalIo)
  | reconcile (scope : AssessmentScope) (io : Io)
  | reject (request : Rejection) (now commitNow : ℕ) (io : Io)

/-- What a call does to the disk, whatever it returns. -/
def Call.run : Call V → Program Disk Unit
  | .inspectPending policy now io => do
    let _ ← CommunityOps.inspectPending H policy now io
  | .beginAssessment policy scope policyDigest now io => do
    let _ ← CommunityOps.beginAssessment H policy scope policyDigest now io
  | .finishAssessment reservation policy currentPolicyDigest proposals outcome now io =>
    CommunityOps.finishAssessment H reservation policy currentPolicyDigest proposals outcome now io
  | .approve request execution clock io => do
    let _ ← CommunityOps.approve H request execution clock io
  | .reconcile scope io => CommunityOps.reconcile H scope io
  | .reject request now commitNow io => CommunityOps.reject H request now commitNow io

/-- **The step function** of the two files. -/
def Disk.step (d : Disk) (call : Call V) : Except Stop Unit × Disk := outcome (call.run H) d

/-- What happened to the two files. -/
abbrev DiskHistory (V : Type) :=
  List (AbbeyBot.Library.History.Event Disk (Call V) (Except Stop Unit))

end AbbeyBot.CommunityOps
