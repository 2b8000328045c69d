import Mathlib
import AbbeyBot.Calendar
import AbbeyBot.Work.Registry

/-! # Deliveries

A delivery has a destination in the scope it is about and a text that is rendered from native records
in the revisions it names. The records behind a text are its provenance. -/

namespace AbbeyBot.Work.Types

open AbbeyBot.Calendar AbbeyBot.Library.OrderedMap AbbeyBot.Library.Result AbbeyBot.Library.Text

/-- What the fingerprint of a record is taken of. -/
inductive RecordContent where
  | task (title : String) (status : WorkStatus) (priority owner : ℕ) (assignee goalId dueAt : Option ℕ)
      (source : Option String) (github : Option GitHubReference)
  | decision (text : String) (author at_ : ℕ)
  deriving DecidableEq, Repr

/-- What is used of the crates: the time zones, SHA-256, and the JSON text of a record. -/
structure WorkCrates extends Zones where
  sha256 : String → Hash
  json : RecordContent → String

variable (K : WorkCrates)

/-- A digest as it is written. -/
def WorkCrates.digest (text : String) : String := (K.sha256 text).hex

/-! ### Destinations -/

/-- The condition of `WorkDestination::validate`. -/
def WorkDestination.FitsScope : WorkDestination → WorkScope → ℕ → Prop
  | .personal principal, .personal owner, actor =>
    principal ≠ 0 ∧ principal = owner ∧ principal = actor
  | .teamPrivate principal, .team _ _, actor => principal ≠ 0 ∧ principal = actor
  | .teamChannel channel, .team _ origin, _ => channel ≠ 0 ∧ channel = origin
  | _, _, _ => False

instance (d : WorkDestination) (scope : WorkScope) (actor : ℕ) :
    Decidable (d.FitsScope scope actor) :=
  match d, scope with
  | .personal principal, .personal owner =>
    inferInstanceAs (Decidable (principal ≠ 0 ∧ principal = owner ∧ principal = actor))
  | .teamPrivate principal, .team _ _ =>
    inferInstanceAs (Decidable (principal ≠ 0 ∧ principal = actor))
  | .teamChannel channel, .team _ origin =>
    inferInstanceAs (Decidable (channel ≠ 0 ∧ channel = origin))
  | .personal _, .team _ _ | .teamPrivate _, .personal _ | .teamChannel _, .personal _ =>
    inferInstanceAs (Decidable False)

/-- The destination of a scope that has chosen none. -/
def WorkScope.destination : WorkScope → WorkDestination
  | .personal owner => .personal owner
  | .team _ channel => .teamChannel channel

/-- `WorkStore::target`. -/
def WorkAutomationPolicy.target (policy : WorkAutomationPolicy) (scope : WorkScope)
    (access : WorkAccess) : Except WorkError WorkDestination := do
  let target := policy.deliveryTarget.getD scope.destination
  ensure (target.FitsScope scope access.actor) .denied
  ensure (policy.enabled = true → policy.destination = some access.channel) .denied
  return target

/-! ### Provenance -/

/-- The condition of `DeliveredProvenance::validate`. -/
structure DeliveredProvenance.Valid (p : DeliveredProvenance) : Prop where
  version : p.version = 1
  nonempty : p.sourceRefs ≠ ∅
  bounded : p.sourceRefs.card ≤ 32
  refs : ∀ r ∈ p.sourceRefs, r.Valid
  distinct : (p.sourceRefs.image WorkContentRef.id).card = p.sourceRefs.card
  projects : p.contributingProjects = p.sourceRefs.image WorkContentRef.project
  digest : isLowerDigest p.renderedDigest = true

instance (p : DeliveredProvenance) : Decidable p.Valid :=
  decidable_of_iff (p.version = 1 ∧ p.sourceRefs ≠ ∅ ∧ p.sourceRefs.card ≤ 32 ∧
      (∀ r ∈ p.sourceRefs, r.Valid) ∧
      (p.sourceRefs.image WorkContentRef.id).card = p.sourceRefs.card ∧
      p.contributingProjects = p.sourceRefs.image WorkContentRef.project ∧
      isLowerDigest p.renderedDigest = true)
    ⟨fun ⟨h₁, h₂, h₃, h₄, h₅, h₆, h₇⟩ => ⟨h₁, h₂, h₃, h₄, h₅, h₆, h₇⟩,
      fun ⟨h₁, h₂, h₃, h₄, h₅, h₆, h₇⟩ => ⟨h₁, h₂, h₃, h₄, h₅, h₆, h₇⟩⟩

/-- `WorkDeliveryReceipt::feedback_destination_matches`. -/
def WorkDeliveryReceipt.FeedbackDestinationMatches (r : WorkDeliveryReceipt) (access : WorkAccess) :
    Prop :=
  (∀ p ∈ r.provenance, p.Valid) ∧
    match r.destination, r.scope with
    | some destination, some scope => destination.FitsScope scope access.actor ∧
        (match destination with
          | .teamPrivate _ => r.recipient ≠ 0
          | _ => r.recipient = access.channel)
    | none, _ => r.recipient = access.channel
    | some _, none => False

instance (r : WorkDeliveryReceipt) (access : WorkAccess) :
    Decidable (r.FeedbackDestinationMatches access) := by
  unfold WorkDeliveryReceipt.FeedbackDestinationMatches
  rcases r.destination with _ | (_ | _ | _) <;> cases r.scope <;> infer_instance

/-! ### The records of a scope -/

/-- The reference to a task in its revision. -/
def WorkTask.ref (task : WorkTask) : WorkContentRef := .task task.projectId task.id task.revision

/-- The reference to a decision. -/
def WorkDecision.ref (decision : WorkDecision) : WorkContentRef :=
  .decision decision.projectId decision.id 1

/-- The ids of the projects of a scope. -/
def WorkStore.scopeIds (s : WorkStore) (scope : WorkScope) : List ℕ :=
  (s.projectsOf scope).map WorkProject.id

/-- `WorkStore::content_refs`. -/
def WorkStore.contentRefs (s : WorkStore) (scope : WorkScope) : BTreeSet WorkContentRef :=
  (((values s.tasks).filter fun task => task.projectId ∈ s.scopeIds scope).map WorkTask.ref ++
    ((values s.decisions).filter fun decision => decision.projectId ∈ s.scopeIds scope).map
      WorkDecision.ref).toFinset

/-- The part of a task that a change of its scheduling leaves alone. -/
def WorkTask.content (t : WorkTask) : RecordContent :=
  .task t.title t.status t.priority t.owner t.assignee t.goalId t.dueAt t.source t.github

/-- What a reference of the store has for content. -/
def WorkStore.contentOf (s : WorkStore) : WorkContentRef → Option RecordContent
  | .task _ id _ => s.tasks[id]?.map WorkTask.content
  | .decision _ id _ => s.decisions[id]?.map fun d => .decision d.text d.author d.at_

/-- One entry of `WorkStore::content_fingerprints`. -/
def WorkStore.fingerprint (s : WorkStore) (r : WorkContentRef) : Option String :=
  (s.contentOf r).map fun content => K.digest (K.json content)

/-- References come in the order of their kinds, then of their numbers. -/
def WorkContentRef.ordKey : WorkContentRef → List ℕ
  | .task project id revision => [0, project, id, revision]
  | .decision project id revision => [1, project, id, revision]

theorem WorkContentRef.ordKey_injective : Function.Injective WorkContentRef.ordKey := by
  rintro (⟨a, b, c⟩ | ⟨a, b, c⟩) (⟨d, e, f⟩ | ⟨d, e, f⟩) h <;> simp_all [WorkContentRef.ordKey]

instance : LinearOrder WorkContentRef := LinearOrder.lift' _ WorkContentRef.ordKey_injective

instance WorkContentRef.isTrans_le : IsTrans WorkContentRef fun a b => a ≤ b := inferInstance

instance WorkContentRef.antisymm_le : Std.Antisymm fun a b : WorkContentRef => a ≤ b := inferInstance

/-- `WorkStore::content_fingerprints`. -/
def WorkStore.contentFingerprints (s : WorkStore) (scope : WorkScope) : BTreeMap ℕ String :=
  ((s.contentRefs scope).sort (· ≤ ·)).foldl (fun fingerprints r =>
    match s.fingerprint K r with
    | some fingerprint => fingerprints.insert r.id fingerprint
    | none => fingerprints) ∅

/-! ### The text -/

/-- `shortened`. -/
def shortened (text : String) (limit : ℕ) : String :=
  if limit < text.length then String.ofList (text.toList.take limit) ++ "… [shortened]" else text

/-- `WorkStatus::label`. -/
def WorkStatus.label : WorkStatus → String
  | .open => "open"
  | .inProgress => "in progress"
  | .blocked => "blocked"
  | .done => "done"
  | .cancelled => "cancelled"

/-- The line of a task. -/
def WorkTask.line (task : WorkTask) (id revision : ℕ) : String :=
  "Task #" ++ toString id ++ " r" ++ toString revision ++ ": " ++ shortened task.title 80 ++ " — " ++
    task.status.label ++ " (priority " ++ toString task.priority ++ "; deadline " ++
    task.dueAt.elim "none" toString ++ ")."

/-- The line of a decision. -/
def WorkDecision.line (decision : WorkDecision) (id : ℕ) : String :=
  "Decision #" ++ toString id ++ ": " ++ shortened decision.text 100

/-- The line of a reference that is current. -/
def WorkStore.line (s : WorkStore) : WorkContentRef → Except WorkError String
  | .task project id revision => do
    let task ← orErr s.tasks[id]? .missing
    ensure (task.projectId = project ∧ task.revision = revision) .stale
    return task.line id revision
  | .decision project id revision => do
    let decision ← orErr s.decisions[id]? .missing
    ensure (decision.projectId = project ∧ revision = 1) .stale
    return decision.line id

/-- The line about the records that are left out. -/
def omissionLine (omitted : ℕ) : String :=
  "Partial update: " ++ toString omitted ++
    " additional work item(s) omitted; inspect the workspace for the full list."

/-- The provenance of a text. -/
def WorkCrates.provenance (refs : List WorkContentRef) (body : String) : DeliveredProvenance where
  version := 1
  sourceRefs := refs.toFinset
  contributingProjects := (refs.map WorkContentRef.project).toFinset
  renderedDigest := K.digest body

/-- `WorkStore::render_delivery`. -/
def WorkStore.renderDelivery (s : WorkStore) (refs : List WorkContentRef) (omitted : ℕ) :
    Except WorkError (String × DeliveredProvenance) := do
  let lines ← refs.mapM s.line
  let body := "\n".intercalate (if 0 < omitted then lines ++ [omissionLine omitted] else lines)
  ensure (body.length ≤ 1900) .full
  ensure (K.provenance refs body).Valid .invalid
  return (body, K.provenance refs body)

/-! ### Outcomes -/

/-- The receipt of a send that returned, with or without a message. -/
def WorkDeliveryReceipt.settled (r : WorkDeliveryReceipt) (message : Option ℕ) :
    WorkDeliveryReceipt :=
  let messageId := message.filter (· ≠ 0)
  { r with messageId := messageId, state := if messageId.isSome then .sent else .reviewRequired }

/-- `WorkStore::settle_delivery`. -/
def WorkStore.settleDelivery (id : ℕ) (message : Option ℕ) (s : WorkStore) :
    Except WorkError (Unit × WorkStore) := do
  let receipt ← orErr s.deliveries[id]? .missing
  ensure (receipt.state = .attempting) .stale
  return ((), { s with deliveries := s.deliveries.insert id (receipt.settled message) })

/-- An attempt that was loaded may have been sent. -/
def WorkDeliveryReceipt.interrupted (r : WorkDeliveryReceipt) : WorkDeliveryReceipt :=
  if r.state = .attempting then { r with state := .reviewRequired, messageId := none } else r

/-- `WorkStore::mark_interrupted_deliveries`. -/
def WorkStore.markInterruptedDeliveries (s : WorkStore) : WorkStore :=
  { s with deliveries := s.deliveries.map fun _ r => r.interrupted }

end AbbeyBot.Work.Types
