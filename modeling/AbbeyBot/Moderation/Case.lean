import Mathlib
import AbbeyBot.Library.OrderedMap
import AbbeyBot.Library.Result
import AbbeyBot.Library.Text

/-! # Contextual cases

A moderator assesses a message in its context; what is kept is the attribution of the source, the
assessment and who decided what, never the content. A case may be reviewed once, appealed once by
its subject, and the appeal resolved once. Authority comes from facts that were just read from the
platform: `FreshAuthority` can only be built from facts that prove it.

The digests (JSON and SHA-256) are computed outside, they are the parameter `Digests`. -/

namespace AbbeyBot.Moderation

open AbbeyBot.Library.OrderedMap AbbeyBot.Library.Result AbbeyBot.Library.Text

/-! ### What is proposed -/

/-- `Severity`, also in its serialized form `CaseSeverity`. -/
inductive Severity where
  | minor
  | serious
  | severe
  deriving DecidableEq, Repr

/-- `Assessment`, also in its serialized form `HumanAssessment`. -/
inductive Assessment where
  | confirmedOffending
  | ambiguous
  | quotationOrReport
  deriving DecidableEq, Repr

def maxContextualTimeoutMinutes : ℕ := 10

structure Input where
  guild : ℕ
  channel : ℕ
  message : ℕ
  sourceAuthor : ℕ
  target : ℕ
  sourceMatchesScope : Bool
  contentAvailable : Bool
  targetIsBot : Bool
  targetIsStaff : Bool
  moderatorCanDelete : Bool
  moderatorCanTimeout : Bool
  hierarchyAllows : Bool
  assessment : Assessment
  severity : Severity
  deriving DecidableEq, Repr

structure Proposal where
  guild : ℕ
  channel : ℕ
  message : ℕ
  timeoutMinutes : Option ℕ
  deriving DecidableEq, Repr

/-- The timeout a confirmed assessment of this severity proposes. -/
def Severity.timeout : Severity → Option ℕ
  | .minor => none
  | .serious | .severe => some maxContextualTimeoutMinutes

/-- `contextual::qualify`. -/
def qualify (input : Input) : Except String Proposal := do
  ensure (¬ (input.guild = 0 ∨ input.channel = 0 ∨ input.message = 0 ∨ input.sourceAuthor = 0 ∨
      input.target = 0 ∨ ¬ input.sourceMatchesScope ∨ input.sourceAuthor ≠ input.target))
    "Source scope or member attribution does not match. No contextual proposal qualified."
  ensure (¬ (input.targetIsBot ∨ input.targetIsStaff))
    "Bot, staff and owner targets are excluded from this contextual pilot. Human review required."
  ensure input.contentAvailable "Message content is unavailable. Context cannot be qualified."
  ensure (input.assessment = .confirmedOffending)
    "Ambiguous, quoted or reported content requires human review; no contextual proposal qualified."
  ensure (input.moderatorCanDelete ∧ input.moderatorCanTimeout ∧ input.hierarchyAllows)
    "Current moderator permissions or target hierarchy do not qualify this proposal."
  return ⟨input.guild, input.channel, input.message, input.severity.timeout⟩

/-! ### Scope and source -/

structure ShadowScope where
  enabled : Bool
  sourceChannels : BTreeSet ℕ
  reviewChannel : Option ℕ
  deriving DecidableEq

def ShadowScope.validate (scope : ShadowScope) (protected_ : BTreeSet ℕ) : Except String Unit :=
  ensure (¬ (100 < scope.sourceChannels.card ∨ 0 ∈ scope.sourceChannels ∨
      ¬ Disjoint scope.sourceChannels protected_ ∨ scope.reviewChannel = some 0 ∨
      (scope.enabled ∧ scope.sourceChannels = ∅)))
    "invalid contextual shadow scope"

structure ShadowPolicy where
  guild : ℕ
  owner : ℕ
  stopped : Bool
  scope : ShadowScope
  deriving DecidableEq

def ShadowPolicy.validate (policy : ShadowPolicy) : Except String Unit := do
  ensure (¬ (policy.guild = 0 ∨ policy.owner = 0)) "invalid contextual policy identity"
  policy.scope.validate ∅

structure SourceVersion where
  guild : ℕ
  channel : ℕ
  message : ℕ
  author : ℕ
  createdAt : ℕ
  editedAt : Option ℕ
  evidenceDigest : String
  deriving DecidableEq, Repr

def SourceVersion.validate (source : SourceVersion) : Except String Unit :=
  ensure (¬ (0 ∈ [source.guild, source.channel, source.message, source.author, source.createdAt] ∨
      (∃ at_ ∈ source.editedAt, at_ < source.createdAt) ∨ ¬ isLowerDigest source.evidenceDigest))
    "invalid contextual source attribution"

/-- The digests of a source version and of the scope of a policy. -/
structure Digests where
  source : SourceVersion → String
  scope : ℕ → ℕ → ShadowScope → String

variable (D : Digests)

/-- `SourceVersion::case_id`. -/
def SourceVersion.caseId (source : SourceVersion) : Except String String := do
  source.validate
  return D.source source

/-! ### Authority -/

structure NativeAuthorityFacts where
  guild : ℕ
  owner : ℕ
  actor : ℕ
  origin : ℕ
  at_ : ℕ
  currentMember : Bool
  canViewOrigin : Bool
  canViewSource : Bool
  completePermissions : Bool
  canDelete : Bool
  canTimeout : Bool
  observedSource : Option SourceVersion
  deriving DecidableEq, Repr

/-- The checks of `FreshAuthority::verified`. -/
def NativeAuthorityFacts.verify (facts : NativeAuthorityFacts) : Except String Unit := do
  ensure (¬ (0 ∈ [facts.guild, facts.owner, facts.actor, facts.origin, facts.at_] ∨
      ¬ facts.currentMember ∨ ¬ facts.canViewOrigin ∨ ¬ facts.completePermissions))
    "current contextual access is unproved"
  match facts.observedSource with
  | none => return
  | some source =>
    source.validate
    ensure (¬ (¬ facts.canViewSource ∨ source.guild ≠ facts.guild ∨ facts.at_ < source.createdAt ∨
        ∃ at_ ∈ source.editedAt, facts.at_ < at_))
      "contextual source guild mismatch"

/-- Facts that prove what they claim. -/
structure FreshAuthority where
  facts : NativeAuthorityFacts
  proved : facts.verify = .ok ()
  deriving DecidableEq

/-- `FreshAuthority::verified`. -/
def FreshAuthority.verified (facts : NativeAuthorityFacts) : Except String FreshAuthority :=
  match h : facts.verify with
  | .ok () => .ok ⟨facts, h⟩
  | .error e => .error e

def proofTtlSeconds : ℕ := 60

/-- `FreshAuthority::check`: the policy is the one the facts were read for, a minute ago at most. -/
def FreshAuthority.check (authority : FreshAuthority) (policy : ShadowPolicy) (now : ℕ) :
    Except String Unit := do
  policy.validate
  ensure (¬ (authority.facts.guild ≠ policy.guild ∨ authority.facts.owner ≠ policy.owner ∨
      now < authority.facts.at_ ∨ proofTtlSeconds < now - authority.facts.at_))
    "contextual authority is stale or mismatched"

/-- `FreshAuthority::staff`. -/
def FreshAuthority.staff (authority : FreshAuthority) (origin : ℕ) : Except String Unit :=
  ensure (¬ (authority.facts.origin ≠ origin ∨ ¬ authority.facts.canDelete ∨
      ¬ authority.facts.canTimeout))
    "current contextual staff authority is unproved"

/-- `FreshAuthority::source`: the source was seen, in this very version. -/
def FreshAuthority.sees (authority : FreshAuthority) (source : SourceVersion) : Bool :=
  authority.facts.observedSource = some source

/-! ### The record of a case -/

inductive CaseOrigin where
  | humanModerator
  deriving DecidableEq, Repr

inductive Disposition where
  | confirmedProposal (timeoutMinutes : Option ℕ)
  | humanReview
  deriving DecidableEq, Repr

structure Provenance where
  actor : ℕ
  origin : ℕ
  owner : ℕ
  at_ : ℕ
  policyDigest : String
  scopeDigest : String
  deriving DecidableEq, Repr

/-- `Provenance::new`. -/
def Provenance.new (authority : FreshAuthority) (policy : ShadowPolicy) (policyDigest : String)
    (now : ℕ) : Except String Provenance := do
  authority.check policy now
  ensure (isLowerDigest policyDigest) "invalid contextual policy digest"
  return ⟨authority.facts.actor, authority.facts.origin, policy.owner, now, policyDigest,
    D.scope policy.guild policy.owner policy.scope⟩

def Provenance.validate (provenance : Provenance) : Except String Unit :=
  ensure (¬ (0 ∈ [provenance.actor, provenance.origin, provenance.owner, provenance.at_] ∨
      ¬ isLowerDigest provenance.policyDigest ∨ ¬ isLowerDigest provenance.scopeDigest))
    "invalid contextual provenance"

inductive ReviewDecision where
  | agree
  | disagree
  | needsContext
  deriving DecidableEq, Repr

structure Review where
  expectedRevision : ℕ
  decision : ReviewDecision
  provenance : Provenance
  deriving DecidableEq, Repr

inductive AppealReason where
  | contextMissing
  | attributionWrong
  | assessmentDisputed
  deriving DecidableEq, Repr

inductive AppealDecision where
  | upheld
  | rejected
  | needsContext
  deriving DecidableEq, Repr

structure AppealResolution where
  expectedRevision : ℕ
  decision : AppealDecision
  provenance : Provenance
  deriving DecidableEq, Repr

structure Appeal where
  expectedRevision : ℕ
  reason : AppealReason
  provenance : Provenance
  resolution : Option AppealResolution
  deriving DecidableEq, Repr

structure Case where
  id : String
  revision : ℕ
  source : SourceVersion
  origin : CaseOrigin
  assessment : Assessment
  severity : Severity
  disposition : Disposition
  captured : Provenance
  review : Option Review
  appeal : Option Appeal
  deriving DecidableEq, Repr

/-- What an assessment of this severity leads to. -/
def expectedDisposition (assessment : Assessment) (severity : Severity) : Disposition :=
  match assessment with
  | .confirmedOffending => .confirmedProposal severity.timeout
  | _ => .humanReview

/-- The resolution of the appeal of a case, if it has come that far. -/
def Case.resolution (case : Case) : Option AppealResolution :=
  case.appeal.bind Appeal.resolution

/-- The events of a case that came after its capture, each with the revision it was made at. -/
def Case.events (case : Case) : List (ℕ × Provenance) :=
  (case.review.toList.map fun r => (r.expectedRevision, r.provenance)) ++
    case.appeal.toList.flatMap fun a => (a.expectedRevision, a.provenance) ::
      a.resolution.toList.map fun r => (r.expectedRevision, r.provenance)

def Case.validateReview (case : Case) : Except String Unit :=
  match case.review with
  | none => return
  | some review => do
    review.provenance.validate
    ensure (review.provenance.actor ∉ [case.source.author, case.captured.actor])
      "contextual review is not independent"

def Case.validateResolution (case : Case) (appeal : Appeal) : Except String Unit :=
  match appeal.resolution with
  | none => return
  | some resolution => do
    resolution.provenance.validate
    ensure (¬ (resolution.provenance.actor ∈ [case.source.author, case.captured.actor] ∨
        (∃ r ∈ case.review, r.provenance.actor = resolution.provenance.actor) ∨
        resolution.expectedRevision ≤ appeal.expectedRevision))
      "contextual appeal resolution is not independent"

def Case.validateAppeal (case : Case) : Except String Unit :=
  match case.appeal with
  | none => return
  | some appeal => do
    appeal.provenance.validate
    ensure (¬ (appeal.provenance.actor ≠ case.source.author ∨
        appeal.provenance.origin ≠ case.source.channel))
      "invalid contextual appellant"
    case.validateResolution appeal

/-- The events from the `index`th on were made at one revision after the other, each no earlier than
the one before it, under one owner. -/
def inOrder (owner : ℕ) : ℕ → ℕ → List (ℕ × Provenance) → Bool
  | _, _, [] => true
  | index, lastAt, (revision, provenance) :: rest =>
    revision = index + 1 && lastAt ≤ provenance.at_ && provenance.owner = owner &&
      inOrder owner (index + 1) provenance.at_ rest

/-- `Case::validate`. -/
def Case.validate (case : Case) : Except String Unit := do
  case.source.validate
  case.captured.validate
  let id ← case.source.caseId D
  ensure (¬ (case.id ≠ id ∨ case.disposition ≠ expectedDisposition case.assessment case.severity ∨
      case.captured.origin ≠ case.source.channel ∨ case.captured.actor = case.source.author ∨
      case.captured.owner = case.source.author ∨ case.captured.at_ < case.source.createdAt ∨
      ∃ at_ ∈ case.source.editedAt, case.captured.at_ < at_))
    "invalid contextual case"
  case.validateReview
  case.validateAppeal
  ensure (inOrder case.captured.owner 0 case.captured.at_
      (case.events.insertionSort fun a b => a.1 ≤ b.1))
    "invalid contextual event order"
  ensure (case.revision = case.events.length + 1) "invalid contextual revision"

/-! ### Independence -/

/-- Whoever captured, reviewed or resolved is someone else each time and never the author of the
source; the appeal is the author's. -/
structure Case.Independent (case : Case) : Prop where
  captured : case.captured.actor ≠ case.source.author
  reviewed : ∀ r ∈ case.review, r.provenance.actor ≠ case.source.author ∧
    r.provenance.actor ≠ case.captured.actor
  appealed : ∀ a ∈ case.appeal, a.provenance.actor = case.source.author
  resolved : ∀ r ∈ case.resolution, r.provenance.actor ≠ case.source.author ∧
    r.provenance.actor ≠ case.captured.actor ∧
    ∀ r' ∈ case.review, r'.provenance.actor ≠ r.provenance.actor

variable {D}

/-- **A case that passes its validation was decided by independent people.** -/
theorem Case.independent_of_validate {case : Case} (h : case.validate D = .ok ()) :
    case.Independent := by
  unfold Case.validate at h
  simp only [bind_eq_ok, exists_unit, ensure_eq_ok, not_or] at h
  obtain ⟨-, -, id, -, ⟨-, -, -, hcaptured, -⟩, hreview, happeal, -⟩ := h
  refine ⟨hcaptured, fun r hr => ?_, fun a ha => ?_, fun r hr => ?_⟩
  · simp only [Case.validateReview, Option.mem_def.mp hr, bind_eq_ok, exists_unit, ensure_eq_ok,
      List.mem_cons, List.not_mem_nil, or_false, not_or] at hreview
    exact hreview.2
  · simp only [Case.validateAppeal, Option.mem_def.mp ha, bind_eq_ok, exists_unit, ensure_eq_ok,
      not_or, not_not] at happeal
    exact happeal.2.1.1
  · obtain ⟨a, ha, har⟩ := Option.bind_eq_some_iff.mp (Option.mem_def.mp hr)
    simp only [Case.validateAppeal, ha, Case.validateResolution, har, bind_eq_ok, exists_unit,
      ensure_eq_ok, List.mem_cons, List.not_mem_nil, or_false, not_or, not_exists, not_and]
      at happeal
    obtain ⟨-, -, -, ⟨hauthor, hcap⟩, hrev, -⟩ := happeal
    exact ⟨hauthor, hcap, fun r' hr' => hrev r' hr'⟩

end AbbeyBot.Moderation
