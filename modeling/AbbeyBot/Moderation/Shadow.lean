import Mathlib
import AbbeyBot.Library.History
import AbbeyBot.Library.OrderedMap
import AbbeyBot.Library.Result
import AbbeyBot.Library.Word
import AbbeyBot.Moderation.Case

/-! # The case store

`CaseStore.apply` takes one mutation: a capture opens a case under the digest of its source, the
others record one event of a case each, at the revision their author saw. A mutation that was
recorded before is observed and nothing is written. -/

namespace AbbeyBot.Moderation

open AbbeyBot.Library.OrderedMap AbbeyBot.Library.Result AbbeyBot.Library.Text
open AbbeyBot.Library.Word

/-! ### Mutations -/

/-- The checks of `NewCase::human_assessed`. -/
def assess (source : SourceVersion) (input : Input) (authority : FreshAuthority) :
    Except String Unit := do
  source.validate
  ensure (¬ (source.guild ≠ input.guild ∨ source.channel ≠ input.channel ∨
      source.message ≠ input.message ∨ source.author ≠ input.sourceAuthor ∨
      source.author ≠ input.target ∨ ¬ authority.sees source))
    "contextual source version mismatched"
  let _ ← qualify { input with assessment := .confirmedOffending }
  ensure (authority.facts.actor ≠ source.author) "contextual assessor cannot target herself"

/-- A source that a moderator with proved authority assessed. -/
structure NewCase where
  source : SourceVersion
  input : Input
  authority : FreshAuthority
  assessed : assess source input authority = .ok ()
  deriving DecidableEq

/-- `NewCase::human_assessed`. -/
def NewCase.humanAssessed (source : SourceVersion) (input : Input) (authority : FreshAuthority) :
    Except String NewCase :=
  match h : assess source input authority with
  | .ok () => .ok ⟨source, input, authority, h⟩
  | .error e => .error e

/-- `NewCase::check`. -/
def NewCase.check (new : NewCase) (policy : ShadowPolicy) (now : ℕ) : Except String Unit := do
  new.authority.check policy now
  new.authority.staff new.source.channel
  ensure (¬ (new.source.author = policy.owner ∨ new.source.guild ≠ policy.guild ∨
      now < new.source.createdAt ∨ ∃ at_ ∈ new.source.editedAt, now < at_))
    "contextual capture attribution is invalid"

structure ExpectedCase where
  id : String
  revision : ℕ
  deriving DecidableEq

/-- A mutation of a case that exists. -/
inductive Decision where
  | review (decision : ReviewDecision)
  | appeal (reason : AppealReason)
  | resolveAppeal (decision : AppealDecision)
  deriving DecidableEq

/-- `Mutation`: a capture, or one of the three others with the case they expect. -/
inductive Mutation where
  | capture (new : NewCase)
  | decide (expected : ExpectedCase) (authority : FreshAuthority) (decision : Decision)
  deriving DecidableEq

inductive Change where
  | changed
  | alreadyObserved
  deriving DecidableEq, Repr

/-! ### The store -/

def maxCases : ℕ := 1000

structure CaseStore where
  version : ℕ
  revision : ℕ
  cases : BTreeMap String Case
  deriving DecidableEq

/-- `CaseStore::default`. -/
def CaseStore.default : CaseStore := ⟨1, 0, ∅⟩

variable (D : Digests)

/-- One case of `CaseStore::validate`: the revisions add up. -/
def validateCase (events : ℕ) (row : String × Case) : Except String ℕ := do
  row.2.validate D
  ensure (row.1 = row.2.id) "contextual case key mismatch"
  orErr (checkedAdd events row.2.revision) "contextual revision exhausted"

/-- `CaseStore::validate`. -/
def CaseStore.validate (s : CaseStore) : Except String Unit := do
  ensure (¬ (s.version ≠ 1 ∨ maxCases < s.cases.size)) "invalid contextual case store"
  let events ← s.cases.toList.foldlM (validateCase D) 0
  ensure (events = s.revision) "contextual store revision mismatch"

/-- `check_revision`. -/
def checkRevision (case : Case) (expected : ExpectedCase) : Except String Unit :=
  ensure (¬ (case.id ≠ expected.id ∨ case.revision ≠ expected.revision))
    "contextual case changed; refresh before deciding"

/-- `check_revision_or_resolution`. -/
def checkRevisionOrResolution (case : Case) (expected : ExpectedCase) : Except String Unit :=
  if case.resolution = none then checkRevision case expected else .ok ()

/-- The receipt that stands is the one this mutation would leave. -/
def sameReceipt (same : Prop) [Decidable same] : Except String (Option Case) := do
  ensure same "contextual receipt conflicts; refresh case"
  return none

/-! ### The mutations of a case

Each returns the case with its event, or nothing when the event was there before. -/

def Case.recordReview (case : Case) (expected : ExpectedCase) (authority : FreshAuthority)
    (provenance : Provenance) (reviewOrigin : ℕ) (decision : ReviewDecision) :
    Except String (Option Case) := do
  authority.staff reviewOrigin
  ensure (authority.facts.actor ∉ [case.source.author, case.captured.actor])
    "contextual review requires an independent moderator"
  ensure (¬ (decision ≠ .needsContext ∧ ¬ authority.sees case.source))
    "current contextual evidence is unavailable or changed"
  match case.review with
  | some old =>
    sameReceipt (¬ (old.expectedRevision ≠ expected.revision ∨ old.decision ≠ decision ∨
      old.provenance.actor ≠ authority.facts.actor))
  | none =>
    checkRevision case expected
    -- A late review cannot invalidate the independence of a resolved appeal.
    ensure (¬ ∃ r ∈ case.resolution, r.provenance.actor = authority.facts.actor)
      "contextual appeal resolver cannot become its reviewer"
    return some { case with review := some ⟨expected.revision, decision, provenance⟩ }

def Case.recordAppeal (case : Case) (expected : ExpectedCase) (authority : FreshAuthority)
    (provenance : Provenance) (reason : AppealReason) : Except String (Option Case) := do
  ensure (¬ (authority.facts.actor ≠ case.source.author ∨
      authority.facts.origin ≠ case.source.channel))
    "only the current case subject may appeal in the source origin"
  match case.appeal with
  | some old =>
    sameReceipt (¬ (old.expectedRevision ≠ expected.revision ∨ old.reason ≠ reason ∨
      old.provenance.actor ≠ authority.facts.actor))
  | none =>
    checkRevision case expected
    return some { case with appeal := some ⟨expected.revision, reason, provenance, none⟩ }

def Case.recordResolution (case : Case) (expected : ExpectedCase) (authority : FreshAuthority)
    (provenance : Provenance) (reviewOrigin : ℕ) (decision : AppealDecision) :
    Except String (Option Case) := do
  authority.staff reviewOrigin
  ensure (¬ (authority.facts.actor ∈ [case.source.author, case.captured.actor] ∨
      ∃ r ∈ case.review, r.provenance.actor = authority.facts.actor))
    "contextual appeal requires an independent resolver"
  ensure (¬ (decision ≠ .needsContext ∧ ¬ authority.sees case.source))
    "current contextual appeal evidence unavailable or changed"
  checkRevisionOrResolution case expected
  let appeal ← orErr case.appeal "contextual appeal unavailable"
  match appeal.resolution with
  | some old =>
    sameReceipt (¬ (old.expectedRevision ≠ expected.revision ∨ old.decision ≠ decision ∨
      old.provenance.actor ≠ authority.facts.actor))
  | none =>
    return some { case with
      appeal := some { appeal with
        resolution := some ⟨expected.revision, decision, provenance⟩ } }

def Case.record (case : Case) (expected : ExpectedCase) (authority : FreshAuthority)
    (provenance : Provenance) (reviewOrigin : ℕ) : Decision → Except String (Option Case)
  | .review decision => case.recordReview expected authority provenance reviewOrigin decision
  | .appeal reason => case.recordAppeal expected authority provenance reason
  | .resolveAppeal decision =>
    case.recordResolution expected authority provenance reviewOrigin decision

/-! ### The mutations of the store -/

/-- The disposition of a capture: a confirmed one is qualified once more. -/
def disposition (input : Input) : Except String Disposition :=
  if input.assessment = .confirmedOffending then do
    let proposal ← qualify input
    return .confirmedProposal proposal.timeoutMinutes
  else .ok .humanReview

/-- The end of a mutation that wrote `cases`. -/
def CaseStore.finish (s : CaseStore) (id : String) (cases : BTreeMap String Case) :
    Except String ((String × Change) × CaseStore) := do
  let revision ← orErr (checkedAdd s.revision 1) "contextual revision exhausted"
  let next : CaseStore := { s with revision := revision, cases := cases }
  next.validate D
  return ((id, .changed), next)

def CaseStore.capture (s : CaseStore) (new : NewCase) (policy : ShadowPolicy)
    (policyDigest : String) (now : ℕ) : Except String ((String × Change) × CaseStore) := do
  new.check policy now
  let id ← new.source.caseId D
  match s.cases[id]? with
  | some old =>
    ensure (¬ (old.captured.owner ≠ policy.owner ∨ old.source ≠ new.source ∨
        old.assessment ≠ new.input.assessment ∨ old.severity ≠ new.input.severity))
      "contextual repeated assessment conflicts; independent review required"
    return ((id, .alreadyObserved), s)
  | none =>
    ensure (¬ (policy.stopped ∨ ¬ policy.scope.enabled ∨
        new.source.channel ∉ policy.scope.sourceChannels))
      "contextual capture is disabled or outside scope"
    ensure (s.cases.size ≠ maxCases) "contextual case store is full; owner review required"
    let disposition ← disposition new.input
    let captured ← Provenance.new D new.authority policy policyDigest now
    s.finish D id (s.cases.insert id
      ⟨id, 1, new.source, .humanModerator, new.input.assessment, new.input.severity, disposition,
        captured, none, none⟩)

def CaseStore.decide (s : CaseStore) (expected : ExpectedCase) (authority : FreshAuthority)
    (decision : Decision) (policy : ShadowPolicy) (policyDigest : String) (now : ℕ) :
    Except String ((String × Change) × CaseStore) := do
  authority.check policy now
  let case ← orErr s.cases[expected.id]? "contextual case unavailable"
  ensure (¬ (case.source.guild ≠ policy.guild ∨ case.captured.owner ≠ policy.owner))
    "contextual case policy identity mismatch"
  let provenance ← Provenance.new D authority policy policyDigest now
  match ← case.record expected authority provenance
      (policy.scope.reviewChannel.getD case.source.channel) decision with
  | none => return ((expected.id, .alreadyObserved), s)
  | some case =>
    let revision ← orErr (checkedAdd case.revision 1) "contextual revision exhausted"
    s.finish D expected.id (s.cases.insert expected.id { case with revision := revision })

/-- `apply_inner`. -/
def CaseStore.applyInner (s : CaseStore) (mutation : Mutation) (policy : ShadowPolicy)
    (policyDigest : String) (now : ℕ) : Except String ((String × Change) × CaseStore) := do
  s.validate D
  policy.validate
  ensure (isLowerDigest policyDigest) "invalid contextual policy digest"
  match mutation with
  | .capture new => s.capture D new policy policyDigest now
  | .decide expected authority decision => s.decide D expected authority decision policy policyDigest now

/-- `CaseStore::apply`. -/
def CaseStore.apply (s : CaseStore) (mutation : Mutation) (policy : ShadowPolicy)
    (policyDigest : String) (now : ℕ) : Except String (String × Change) × CaseStore :=
  commit s (s.applyInner D mutation policy policyDigest now)

/-! ### Runs -/

/-- One call, with the policy and the clock it finds. -/
structure Call where
  mutation : Mutation
  policy : ShadowPolicy
  policyDigest : String
  now : ℕ
  deriving DecidableEq

/-- **The step function** of the store. -/
def step (s : CaseStore) (call : Call) : Except String (String × Change) × CaseStore :=
  s.apply D call.mutation call.policy call.policyDigest call.now

/-- What happened to a store. -/
abbrev History :=
  List (AbbeyBot.Library.History.Event CaseStore Call (Except String (String × Change)))

/-- The store was reached from the default one, with this history. -/
abbrev Reaches (h : History) (s : CaseStore) : Prop :=
  AbbeyBot.Library.History.Run (step D) CaseStore.default h s

/-- Whether a call returned `Changed`. -/
def wasChanged (out : Except String (String × Change)) : Bool :=
  match out with
  | .ok (_, .changed) => true
  | _ => false

end AbbeyBot.Moderation
