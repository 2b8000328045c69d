import Mathlib
import AbbeyBot.Library.OrderedMap
import AbbeyBot.Library.Result
import AbbeyBot.Library.Text
import AbbeyBot.Library.Word

/-! # Action approval: the store

External writes are proposed, confirmed by a human who was shown the digest of the write, and begun
once. `ActionStore` keeps one record per proposal; its operations move the record through
`ActionState`. The digest of a proposal is computed outside (JSON and SHA-256), it is the parameter
`contentDigest`. -/

namespace AbbeyBot.ActionApproval.Store

open AbbeyBot.Library.OrderedMap AbbeyBot.Library.Result AbbeyBot.Library.Text
open AbbeyBot.Library.Word

/-! ### What is proposed -/

inductive ActionTarget where
  | discordChannel (guild channel : ℕ)
  | discordMessage (guild channel message : ℕ)
  | gitHubRepository (installation : ℕ) (owner repo : String)
  | gitHubIssue (installation : ℕ) (owner repo : String) (issue : ℕ)
  deriving DecidableEq, Repr

inductive ActionOperation where
  | discordSendMessage (content : String)
  | discordEditOwnMessage (content : String)
  | discordCreateThread (name content : String)
  | discordCreateForumPost (name content : String)
  | discordCreateEvent (name : String) (startsAt endsAt : ℕ)
  | discordAddChannel (name : String) (parent : Option ℕ)
  | gitHubCreateIssue (title body : String)
  | gitHubUpdateIssue (title body : Option String)
  | gitHubComment (body : String)
  deriving DecidableEq, Repr

inductive ActionPermission where
  | discordSendMessages
  | discordManageMessages
  | discordManageThreads
  | discordManageChannels
  | discordManageEvents
  | gitHubIssuesWrite
  deriving DecidableEq, Repr

structure ActionSpec where
  target : ActionTarget
  operation : ActionOperation
  required : Finset ActionPermission
  deriving DecidableEq

/-- Owner and repository name, as they stand in a repository URL. -/
def validRepo (owner repo : String) : Bool :=
  [owner, repo].all fun part =>
    part != "" && part.utf8ByteSize ≤ 100 &&
      part.toList.all fun c => c.isAlphanum || c == '-' || c == '_' || c == '.'

/-- A text with something in it, of at most `bound` bytes. -/
def shortText (text : String) (bound : ℕ) : Bool := !isBlank text && text.utf8ByteSize ≤ bound

/-- Whether the operation fits its target, and the one permission it needs. -/
def ActionSpec.need (spec : ActionSpec) : Option (Bool × ActionPermission) :=
  match spec.operation, spec.target with
  | .discordSendMessage content, .discordChannel guild channel =>
    some (guild != 0 && channel != 0 && shortText content 2000, .discordSendMessages)
  | .discordEditOwnMessage content, .discordMessage guild channel message =>
    some (guild != 0 && channel != 0 && message != 0 && shortText content 2000,
      .discordManageMessages)
  | .discordCreateThread name content, .discordChannel guild channel
  | .discordCreateForumPost name content, .discordChannel guild channel =>
    some (guild != 0 && channel != 0 && shortText name 100 && shortText content 2000,
      .discordManageThreads)
  | .discordCreateEvent name startsAt endsAt, .discordChannel guild channel =>
    some (guild != 0 && channel != 0 && shortText name 100 && startsAt < endsAt,
      .discordManageEvents)
  | .discordAddChannel name _, .discordChannel guild channel =>
    some (guild != 0 && channel != 0 && shortText name 100, .discordManageChannels)
  | .gitHubCreateIssue title body, .gitHubRepository installation owner repo =>
    some (installation != 0 && validRepo owner repo && shortText title 256 &&
      body.utf8ByteSize ≤ 65000, .gitHubIssuesWrite)
  | .gitHubUpdateIssue title body, .gitHubIssue installation owner repo issue =>
    some (installation != 0 && issue != 0 && validRepo owner repo &&
      (title.isSome || body.isSome) && title.all (shortText · 256) &&
      body.all (·.utf8ByteSize ≤ 65000), .gitHubIssuesWrite)
  | .gitHubComment body, .gitHubIssue installation owner repo issue =>
    some (installation != 0 && issue != 0 && validRepo owner repo && shortText body 65000,
      .gitHubIssuesWrite)
  | _, _ => none

/-- `ActionSpec::valid`: the operation fits its target and asks for exactly the permission it
needs. -/
def ActionSpec.valid (spec : ActionSpec) : Bool :=
  match spec.need with
  | some (targetOk, needed) => targetOk && spec.required = {needed}
  | none => false

/-! ### Records -/

inductive ActionState where
  | proposed
  | approved
  | executing
  | verified
  | reviewRequired
  | failed
  | invalidated
  deriving DecidableEq, Repr

structure ActionProposal where
  id : ℕ
  spec : ActionSpec
  requester : ℕ
  expiresAt : ℕ
  targetFingerprint : String
  contentDigest : String
  state : ActionState
  approver : Option ℕ
  resultReference : Option String
  deriving DecidableEq

inductive ActionError where
  | invalid
  | denied
  | expired
  | stale
  | alreadyHandled
  | missing
  | full
  deriving DecidableEq, Repr

/-- Who acts, with which permissions, on which target, when. -/
structure ActionFacts where
  humanPrincipal : Option ℕ
  currentPermissions : Finset ActionPermission
  targetFingerprint : String
  now : ℕ

structure ActionStore where
  sequence : ℕ
  proposals : BTreeMap ℕ ActionProposal

/-- Only `ready` permits the write. -/
inductive BeginOutcome where
  | ready (spec : ActionSpec)
  | invalidated (reason : ActionError)
  deriving DecidableEq

/-- `ActionStore::default`. -/
def ActionStore.empty : ActionStore := ⟨0, ∅⟩

/-! ### Operations

An operation returns what the source returns and the store it leaves behind, also on an error. -/

section Operations

variable (contentDigest : ActionSpec → ℕ → ℕ → String → String)

/-- `validate`: authority, expiry, digest and target, permissions. -/
def validate (proposal : ActionProposal) (displayedDigest : String) (facts : ActionFacts) :
    Except ActionError Unit := do
  ensure (facts.humanPrincipal ≠ none ∧ facts.humanPrincipal ≠ some 0) .denied
  ensure (facts.now < proposal.expiresAt) .expired
  ensure (displayedDigest = proposal.contentDigest ∧
    facts.targetFingerprint = proposal.targetFingerprint ∧
    contentDigest proposal.spec proposal.requester proposal.expiresAt proposal.targetFingerprint =
      proposal.contentDigest) .stale
  ensure (proposal.spec.required ⊆ facts.currentPermissions) .denied

/-- Whether `compact` keeps the record. -/
def keeps (now : ℕ) (proposal : ActionProposal) : Bool :=
  match proposal.state with
  | .verified | .failed | .invalidated => false
  | .proposed | .approved => now < proposal.expiresAt
  | .executing | .reviewRequired => true

/-- `ActionStore::compact`. -/
def ActionStore.compact (s : ActionStore) (now : ℕ) : ActionStore :=
  { s with proposals := s.proposals.filter fun _ proposal => keeps now proposal }

/-- The store with the record `id` replaced. -/
def ActionStore.put (s : ActionStore) (id : ℕ) (proposal : ActionProposal) : ActionStore :=
  { s with proposals := s.proposals.insert id proposal }

@[simp] theorem put_sequence (s : ActionStore) (id : ℕ) (p : ActionProposal) :
    (s.put id p).sequence = s.sequence := rfl

/-- The store with room for a proposal: a full one gives up its terminal records. -/
def ActionStore.makeRoom (s : ActionStore) : ActionStore :=
  if s.proposals.size < 10000 then s else s.compact 0

/-- `ActionStore::propose`. A full store gives up its terminal records first, and has lost them even
if that is not enough. -/
def ActionStore.propose (s : ActionStore) (spec : ActionSpec) (requester expiresAt : ℕ)
    (targetFingerprint : String) : Except ActionError ℕ × ActionStore :=
  if requester = 0 ∨ expiresAt = 0 ∨ targetFingerprint = "" ∨ 256 < targetFingerprint.utf8ByteSize ∨
      spec.valid = false then (.error .invalid, s)
  else match checkedAdd s.sequence 1 with
    | none => (.error .full, s)
    | some id =>
      if 10000 ≤ s.makeRoom.proposals.size then (.error .full, s.makeRoom)
      else (.ok id, { s.makeRoom with sequence := id }.put id
        { id, spec, requester, expiresAt, targetFingerprint
          contentDigest := contentDigest spec requester expiresAt targetFingerprint
          state := .proposed, approver := none, resultReference := none })

/-- `ActionStore::confirm`. -/
def ActionStore.confirm (s : ActionStore) (id : ℕ) (displayedDigest : String)
    (facts : ActionFacts) : Except ActionError Unit × ActionStore :=
  match s.proposals[id]? with
  | none => (.error .missing, s)
  | some proposal =>
    if proposal.state ≠ .proposed then (.error .alreadyHandled, s)
    else match validate contentDigest proposal displayedDigest facts with
      | .error e => (.error e, s)
      | .ok _ =>
        (.ok (), s.put id { proposal with approver := facts.humanPrincipal, state := .approved })

/-- `ActionStore::begin`. A failed check revokes the approval. -/
def ActionStore.begin (s : ActionStore) (id : ℕ) (facts : ActionFacts) :
    Except ActionError BeginOutcome × ActionStore :=
  match s.proposals[id]? with
  | none => (.error .missing, s)
  | some proposal =>
    if proposal.state ≠ .approved then (.error .alreadyHandled, s)
    else if proposal.approver ≠ facts.humanPrincipal then (.error .denied, s)
    else match validate contentDigest proposal proposal.contentDigest facts with
      | .error reason =>
        (.ok (.invalidated reason),
          s.put id { proposal with state := .invalidated, approver := none })
      | .ok _ => (.ok (.ready proposal.spec), s.put id { proposal with state := .executing })

/-- `ActionStore::finish`. -/
def ActionStore.finish (s : ActionStore) (id : ℕ) (state : ActionState)
    (resultReference : Option String) : Except ActionError Unit × ActionStore :=
  match s.proposals[id]? with
  | none => (.error .missing, s)
  | some proposal =>
    if proposal.state ≠ .executing ∨
        ¬ (state = .verified ∨ state = .reviewRequired ∨ state = .failed) then
      (.error .alreadyHandled, s)
    else (.ok (), s.put id { proposal with state := state, resultReference := resultReference })

/-- `ActionStore::mark_interrupted`. -/
def ActionStore.markInterrupted (s : ActionStore) : ActionStore :=
  { s with proposals := s.proposals.map fun _ proposal =>
      if proposal.state = .executing then { proposal with state := .reviewRequired }
      else proposal }

end Operations

/-! ### The store as a component -/

inductive Op where
  | propose (spec : ActionSpec) (requester expiresAt : ℕ) (targetFingerprint : String)
  | confirm (id : ℕ) (displayedDigest : String) (facts : ActionFacts)
  | begin (id : ℕ) (facts : ActionFacts)
  | finish (id : ℕ) (state : ActionState) (resultReference : Option String)
  | markInterrupted
  | compact (now : ℕ)

inductive Out where
  | proposed (r : Except ActionError ℕ)
  | confirmed (r : Except ActionError Unit)
  | began (r : Except ActionError BeginOutcome)
  | finished (r : Except ActionError Unit)
  | done

/-- One operation on the store. -/
def step (contentDigest : ActionSpec → ℕ → ℕ → String → String) (s : ActionStore) :
    Op → Out × ActionStore
  | .propose spec requester expiresAt targetFingerprint =>
    let (r, s') := s.propose contentDigest spec requester expiresAt targetFingerprint
    (.proposed r, s')
  | .confirm id displayedDigest facts =>
    let (r, s') := s.confirm contentDigest id displayedDigest facts
    (.confirmed r, s')
  | .begin id facts =>
    let (r, s') := s.begin contentDigest id facts
    (.began r, s')
  | .finish id state resultReference =>
    let (r, s') := s.finish id state resultReference
    (.finished r, s')
  | .markInterrupted => (.done, s.markInterrupted)
  | .compact now => (.done, s.compact now)

end AbbeyBot.ActionApproval.Store
