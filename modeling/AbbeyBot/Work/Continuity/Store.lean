import Mathlib
import AbbeyBot.Library.Text
import AbbeyBot.Library.Word
import AbbeyBot.Work.Types

/-! # Continuity cards

A scope has at most one confirmed card: a text with its native sources, for a week. A card is
proposed against the revision of the current one, resolved to a one-use grant by the same actor
within five minutes, and confirmed. Proposals live in the registry of this boot, cards in the
canonical store. -/

namespace AbbeyBot.Work.Continuity.Store

open AbbeyBot.Library.OrderedMap AbbeyBot.Library.Result AbbeyBot.Library.Text
open AbbeyBot.Library.Word AbbeyBot.Work.Types

def maxCards : ℕ := 256
def maxProposals : ℕ := 256
def maxTextBytes : ℕ := 1600
def maxSources : ℕ := 8
def cardLifetime : ℕ := 604800
def proposalLifetime : ℕ := 300

/-! ### Records -/

structure ProposalId where
  bootNonce : List ℕ
  sequence : ℕ
  deriving DecidableEq, Repr

def ProposalId.ordKey (id : ProposalId) : List ℕ := id.bootNonce ++ [id.sequence]

theorem ProposalId.ordKey_injective : Function.Injective ProposalId.ordKey := by
  rintro ⟨n, q⟩ ⟨n', q'⟩ h
  obtain ⟨hn, hq⟩ := List.append_inj' h rfl
  cases hn
  cases hq
  rfl

instance : Ord ProposalId := ordByKey ProposalId.ordKey

instance : Std.TransOrd ProposalId := transOrd_ordByKey _

instance : Std.LawfulEqOrd ProposalId := lawfulEqOrd_ordByKey ProposalId.ordKey_injective

structure ContinuityDraft where
  scope : WorkScope
  baseRevision : ℕ
  presentedText : String
  sourceRefs : BTreeSet WorkContentRef

/-- A proposal; resolved, it is the one-use grant that `confirm` takes. -/
structure ContinuityProposal where
  id : ProposalId
  actor : ℕ
  scope : WorkScope
  baseRevision : ℕ
  presentedText : String
  sourceRefs : BTreeSet WorkContentRef
  expiresAt : ℕ
  deriving DecidableEq

structure ProposalRegistry where
  bootNonce : List ℕ
  sequence : ℕ
  proposals : BTreeMap ProposalId ContinuityProposal

structure ContinuityCard where
  schemaVersion : ℕ
  scope : WorkScope
  confirmedBy : ℕ
  revision : ℕ
  confirmedText : String
  sourceRefs : BTreeSet WorkContentRef
  expiresAt : ℕ
  episodeReceipt : Option String
  deriving DecidableEq

@[ext] structure ContinuityStore where
  cards : BTreeMap WorkScope ContinuityCard

/-- `ContinuityStore::default`. -/
def ContinuityStore.empty : ContinuityStore := ⟨∅⟩

/-- `ContinuityStore::card`. -/
def ContinuityStore.card (s : ContinuityStore) (scope : WorkScope) : Option ContinuityCard :=
  s.cards[scope]?

/-! ### Checks -/

def validScope : WorkScope → Prop
  | .personal owner => owner ≠ 0
  | .team guild channel => guild ≠ 0 ∧ channel ≠ 0

instance (scope : WorkScope) : Decidable (validScope scope) :=
  match scope with
  | .personal owner => inferInstanceAs (Decidable (owner ≠ 0))
  | .team guild channel => inferInstanceAs (Decidable (guild ≠ 0 ∧ channel ≠ 0))

def authorizeScope (scope : WorkScope) (access : WorkAccess) (work : WorkStore) (manager : Bool) :
    Except WorkError Unit := do
  ensure (validScope scope ∧ access.actor ≠ 0 ∧ access.channel ≠ 0 ∧ access.canView = true ∧
    scope = access.scope) .denied
  let _ ← work.scopeProjects scope access manager
  return ()

def validateContent (text : String) (refs : BTreeSet WorkContentRef) : Except WorkError Unit :=
  ensure (isBlank text = false ∧ text.utf8ByteSize ≤ maxTextBytes ∧
    text.toList.all (fun c => !isControl c || c == '\n') = true ∧ refs.card ≤ maxSources ∧
    ∀ r ∈ refs, r.Valid) .invalid

/-- The native record stands as the reference says. -/
def nativeMatches (work : WorkStore) : WorkContentRef → Prop
  | .task project id revision => ∃ task ∈ work.tasks[id]?,
      task.id = id ∧ task.projectId = project ∧ task.revision = revision
  | .decision project id revision => ∃ decision ∈ work.decisions[id]?,
      decision.id = id ∧ decision.projectId = project ∧ revision = 1

/-- The sources are current records of projects of the scope. -/
def SourcesCurrent (scope : WorkScope) (refs : BTreeSet WorkContentRef) (work : WorkStore) : Prop :=
  ∀ r ∈ refs, nativeMatches work r ∧
    ∃ p ∈ work.projects[r.project]?, p.id = r.project ∧ p.scope = scope

instance (work : WorkStore) (r : WorkContentRef) : Decidable (nativeMatches work r) :=
  match r with
  | .task _ id _ => inferInstanceAs (Decidable (∃ _ ∈ work.tasks[id]?, _))
  | .decision _ id _ => inferInstanceAs (Decidable (∃ _ ∈ work.decisions[id]?, _))

instance (scope : WorkScope) (refs : BTreeSet WorkContentRef) (work : WorkStore) :
    Decidable (SourcesCurrent scope refs work) :=
  inferInstanceAs (Decidable (∀ r ∈ refs, _))

def validateSources (scope : WorkScope) (refs : BTreeSet WorkContentRef) (work : WorkStore) :
    Except WorkError Unit :=
  ensure (SourcesCurrent scope refs work) .stale

def withinLifetime (expiresAt lifetime now : ℕ) : Prop :=
  lifetime ≤ expiresAt ∧ expiresAt - lifetime ≤ now ∧ now < expiresAt

instance (expiresAt lifetime now : ℕ) : Decidable (withinLifetime expiresAt lifetime now) :=
  inferInstanceAs (Decidable (_ ∧ _))

def validateCard (card : ContinuityCard) : Except WorkError Unit := do
  ensure (card.schemaVersion = 1 ∧ card.revision ≠ 0 ∧ card.confirmedBy ≠ 0 ∧
    validScope card.scope ∧ cardLifetime ≤ card.expiresAt ∧
    ∀ owner ∈ card.scope.owner, owner = card.confirmedBy) .invalid
  ensure (card.episodeReceipt.all isLowerDigest = true) .invalid
  validateContent card.confirmedText card.sourceRefs

/-! ### The registry -/

/-- `ProposalRegistry::new`. -/
def ProposalRegistry.new (bootNonce : List ℕ) : ProposalRegistry := ⟨bootNonce, 0, ∅⟩

/-- `ProposalRegistry::propose`. -/
def ProposalRegistry.propose (g : ProposalRegistry) (draft : ContinuityDraft) (access : WorkAccess)
    (work : WorkStore) (now : ℕ) : Except WorkError (ContinuityProposal × ProposalRegistry) := do
  authorizeScope draft.scope access work false
  validateContent draft.presentedText draft.sourceRefs
  validateSources draft.scope draft.sourceRefs work
  let expiresAt ← orErr (checkedAdd now proposalLifetime) .invalid
  let sequence ← orErr (checkedAdd g.sequence 1) .full
  ensure (countRows g.proposals (fun p => now < p.expiresAt) < maxProposals) .full
  let proposal : ContinuityProposal :=
    { id := ⟨g.bootNonce, sequence⟩, actor := access.actor, scope := draft.scope
      baseRevision := draft.baseRevision, presentedText := draft.presentedText
      sourceRefs := draft.sourceRefs, expiresAt }
  return (proposal, { g with
    sequence := sequence
    proposals := (g.proposals.filter fun _ p => now < p.expiresAt).insert proposal.id proposal })

/-- `ProposalRegistry::resolve_confirmation`: the grant, and the registry without the proposal. An
expired proposal is dropped as well. -/
def ProposalRegistry.resolveConfirmation (g : ProposalRegistry) (id : ProposalId) (actor : ℕ)
    (scope : WorkScope) (now : ℕ) : Except WorkError ContinuityProposal × ProposalRegistry :=
  match g.proposals[id]? with
  | none => (.error .missing, g)
  | some proposal =>
    if actor ≠ proposal.actor ∨ scope ≠ proposal.scope then (.error .denied, g)
    else if ¬ withinLifetime proposal.expiresAt proposalLifetime now then
      (.error .stale,
        if proposal.expiresAt ≤ now then { g with proposals := g.proposals.erase id } else g)
    else (.ok proposal, { g with proposals := g.proposals.erase id })

/-! ### The store -/

/-- `ContinuityStore::replace_exact`. -/
def ContinuityStore.replaceExact (s : ContinuityStore) (scope : WorkScope)
    (expected replacement : Option ContinuityCard) : Except WorkError ContinuityStore := do
  ensure (s.card scope = expected ∨ s.card scope = replacement) .stale
  match replacement with
  | some card =>
    ensure (card.scope = scope) .invalid
    validateCard card
    return ⟨s.cards.insert scope card⟩
  | none => return ⟨s.cards.erase scope⟩

/-- `ContinuityStore::install_receipt`. -/
def ContinuityStore.installReceipt (s : ContinuityStore) (card : ContinuityCard)
    (receipt : String) : Except WorkError (ContinuityCard × ContinuityStore) := do
  ensure (s.card card.scope = some card) .stale
  let admitted := { card with episodeReceipt := some receipt }
  validateCard admitted
  return (admitted, ⟨s.cards.insert admitted.scope admitted⟩)

/-- `ContinuityStore::remove_exact`. -/
def ContinuityStore.removeExact (s : ContinuityStore) (card : ContinuityCard) :
    Except WorkError ContinuityStore := do
  ensure (s.card card.scope = some card) .stale
  return ⟨s.cards.erase card.scope⟩

/-- `ContinuityStore::prune_current`. -/
def ContinuityStore.pruneCurrent (s : ContinuityStore) (work : WorkStore) (now : ℕ) :
    ContinuityStore :=
  ⟨s.cards.filter fun scope card => card.episodeReceipt.isSome ||
    (decide (withinLifetime card.expiresAt cardLifetime now) &&
      decide (SourcesCurrent scope card.sourceRefs work) &&
      (values work.projects).any fun project => project.scope = scope)⟩

/-- `ContinuityStore::clear`. -/
def ContinuityStore.clear (s : ContinuityStore) (scope : WorkScope) (access : WorkAccess)
    (work : WorkStore) : Except WorkError (Option ContinuityCard × ContinuityStore) := do
  authorizeScope scope access work true
  return (s.card scope, ⟨s.cards.erase scope⟩)

/-- The card is kept by a confirmation at `now`. -/
def active (now : ℕ) (card : ContinuityCard) : Bool :=
  now < card.expiresAt || card.episodeReceipt.isSome

/-- The revision of the card of a scope, 0 if there is none. -/
def ContinuityStore.revision (s : ContinuityStore) (scope : WorkScope) : ℕ :=
  (s.card scope).elim 0 ContinuityCard.revision

/-- `ContinuityStore::confirm`. -/
def ContinuityStore.confirm (s : ContinuityStore) (proposal : ContinuityProposal)
    (access : WorkAccess) (work : WorkStore) (now : ℕ) :
    Except WorkError (ContinuityCard × ContinuityStore) := do
  ensure (proposal.actor = access.actor) .denied
  authorizeScope proposal.scope access work true
  ensure (withinLifetime proposal.expiresAt proposalLifetime now) .stale
  validateContent proposal.presentedText proposal.sourceRefs
  validateSources proposal.scope proposal.sourceRefs work
  ensure (s.revision proposal.scope = proposal.baseRevision) .stale
  let revision ← orErr (checkedAdd (s.revision proposal.scope) 1) .full
  let expiresAt ← orErr (checkedAdd now cardLifetime) .invalid
  ensure (countRows s.cards (fun card => card.scope ≠ proposal.scope && active now card) < maxCards)
    .full
  let card : ContinuityCard :=
    { schemaVersion := 1, scope := proposal.scope, confirmedBy := proposal.actor
      revision := revision, confirmedText := proposal.presentedText
      sourceRefs := proposal.sourceRefs, expiresAt := expiresAt, episodeReceipt := none }
  return (card, ⟨(s.cards.filter fun _ card => active now card).insert card.scope card⟩)

/-! ### The wire form

The cards are written as an array in the order of their scopes and read back one by one. -/

def ContinuityStore.serialize (s : ContinuityStore) : List ContinuityCard := values s.cards

/-- Insert the cards of an array. -/
def loadCards : List ContinuityCard → BTreeMap WorkScope ContinuityCard →
    Except String (BTreeMap WorkScope ContinuityCard)
  | [], cards => .ok cards
  | card :: rest, cards => do
    (validateCard card).mapError WorkError.message
    ensure (card.scope ∉ cards) "duplicate continuity scope"
    loadCards rest (cards.insert card.scope card)

/-- `Deserialize for ContinuityStore`. -/
def deserialize (loaded : List ContinuityCard) : Except String ContinuityStore := do
  ensure (loaded.length ≤ maxCards) "continuity card limit"
  let cards ← loadCards loaded ∅
  return ⟨cards⟩

/-! ### The scope of one person -/

def soloAccess (owner : ℕ) : WorkAccess := ⟨owner, none, 7, true, false⟩

def soloProject (owner : ℕ) : WorkProject where
  id := 1
  name := "notes"
  scope := .personal owner
  managers := {owner}
  members := {owner}
  revision := 0
  allowedGithubRepositories := ∅

def soloWork (owner : ℕ) : WorkStore :=
  { WorkStore.empty with projects := (∅ : BTreeMap ℕ WorkProject).insert 1 (soloProject owner) }

end AbbeyBot.Work.Continuity.Store
