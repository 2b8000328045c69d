import Mathlib
import AbbeyBot.Library.OrderedMap
import AbbeyBot.Library.Result

/-! # Work records

The chief-of-staff records: projects with their members, goals, tasks, decisions, the delivery policy
and the delivery receipts of a scope. A scope is one person or one channel of a guild. -/

namespace AbbeyBot.Work.Types

open AbbeyBot.Library.OrderedMap AbbeyBot.Library.Result

inductive WorkError where
  | denied
  | missing
  | invalid
  | full
  | stale
  | persistence
  deriving DecidableEq, Repr

/-- What is shown for an error. -/
def WorkError.message : WorkError → String
  | .denied => "This workspace is not available to you in this channel."
  | .missing => "That work item is unavailable."
  | .invalid => "Check the supplied work item fields."
  | .full => "This workspace has reached its record limit."
  | .stale => "This item changed. Refresh it before acting."
  | .persistence => "The change could not be durably saved. Refresh before retrying."

/-! ### Scopes and access -/

inductive WorkScope where
  | personal (owner : ℕ)
  | team (guild channel : ℕ)
  deriving DecidableEq, Repr

/-- Scopes are ordered by kind, then by their numbers. -/
def WorkScope.ordKey : WorkScope → List ℕ
  | .personal owner => [0, owner]
  | .team guild channel => [1, guild, channel]

theorem WorkScope.ordKey_injective : Function.Injective WorkScope.ordKey := by
  rintro (a | ⟨a, b⟩) (c | ⟨c, d⟩) h <;> simp_all [WorkScope.ordKey]

instance : Ord WorkScope := ordByKey WorkScope.ordKey

instance : Std.TransOrd WorkScope := transOrd_ordByKey _

instance : Std.LawfulEqOrd WorkScope := lawfulEqOrd_ordByKey WorkScope.ordKey_injective

/-- `WorkScope::key`. -/
def WorkScope.key : WorkScope → String
  | .personal owner => "personal:" ++ toString owner
  | .team guild channel => "team:" ++ toString guild ++ ":" ++ toString channel

/-- The person whose own scope it is. -/
def WorkScope.owner : WorkScope → Option ℕ
  | .personal owner => some owner
  | .team _ _ => none

/-- Who acts, where, with which permissions. -/
structure WorkAccess where
  actor : ℕ
  guild : Option ℕ
  channel : ℕ
  canView : Bool
  canManage : Bool
  deriving DecidableEq, Repr

/-- `WorkAccess::scope`. -/
def WorkAccess.scope (access : WorkAccess) : WorkScope :=
  match access.guild with
  | none => .personal access.actor
  | some guild => .team guild access.channel

inductive WorkDestination where
  | personal (principal : ℕ)
  | teamChannel (channel : ℕ)
  | teamPrivate (principal : ℕ)
  deriving DecidableEq, Repr

/-! ### Native records -/

/-- A native record in the version that was shown. -/
inductive WorkContentRef where
  | task (project id revision : ℕ)
  | decision (project id revision : ℕ)
  deriving DecidableEq, Repr

def WorkContentRef.id : WorkContentRef → ℕ
  | .task _ id _ | .decision _ id _ => id

def WorkContentRef.project : WorkContentRef → ℕ
  | .task project _ _ | .decision project _ _ => project

/-- A reference that could name a native record; decisions are immutable, their revision is 1. -/
def WorkContentRef.Valid : WorkContentRef → Prop
  | .task project id _ => project ≠ 0 ∧ id ≠ 0
  | .decision project id revision => project ≠ 0 ∧ id ≠ 0 ∧ revision = 1

instance (r : WorkContentRef) : Decidable r.Valid :=
  match r with
  | .task project id _ => inferInstanceAs (Decidable (project ≠ 0 ∧ id ≠ 0))
  | .decision project id revision =>
    inferInstanceAs (Decidable (project ≠ 0 ∧ id ≠ 0 ∧ revision = 1))

structure GitHubRepository where
  installation : ℕ
  owner : String
  name : String
  deriving DecidableEq, Repr

inductive GitHubItemKind where
  | issue
  | pullRequest
  deriving DecidableEq, Repr

structure GitHubReference where
  repository : GitHubRepository
  kind : GitHubItemKind
  number : ℕ
  deriving DecidableEq, Repr

structure WorkProject where
  id : ℕ
  name : String
  scope : WorkScope
  managers : BTreeSet ℕ
  members : BTreeSet ℕ
  revision : ℕ
  allowedGithubRepositories : BTreeSet GitHubRepository
  deriving DecidableEq

structure WorkGoal where
  id : ℕ
  projectId : ℕ
  title : String
  owner : ℕ
  complete : Bool
  deriving DecidableEq, Repr

inductive WorkStatus where
  | open
  | inProgress
  | blocked
  | done
  | cancelled
  deriving DecidableEq, Repr

structure WorkTask where
  id : ℕ
  projectId : ℕ
  title : String
  owner : ℕ
  assignee : Option ℕ
  goalId : Option ℕ
  priority : ℕ
  status : WorkStatus
  dueAt : Option ℕ
  remindAt : Option ℕ
  reminderRevision : ℕ
  snoozedUntil : Option ℕ
  source : Option String
  github : Option GitHubReference
  revision : ℕ
  deriving DecidableEq, Repr

structure WorkDecision where
  id : ℕ
  projectId : ℕ
  author : ℕ
  text : String
  at_ : ℕ
  deriving DecidableEq, Repr

/-! ### Follow-ups of a task -/

/-- Why an optional follow-up is or is not allowed. -/
inductive FollowUpDecision where
  | allowed
  | disabled
  | quiet
  | optedOut
  | staleTask
  | expired
  | accessDenied
  | budget
  | cooldown
  | alreadyAttempted
  | activityUnavailable
  deriving DecidableEq, Repr

structure FollowUpIntent where
  scope : WorkScope
  task : WorkContentRef
  destination : WorkDestination
  expiresAt : ℕ
  deriving DecidableEq, Repr

/-! ### Deliveries -/

structure WorkAutomationPolicy where
  enabled : Bool
  deliveryTarget : Option WorkDestination
  revision : ℕ
  destination : Option ℕ
  timezone : String
  quietStart : ℕ
  quietEnd : ℕ
  dailyLimit : ℕ
  briefingHour : ℕ
  deriving DecidableEq, Repr

/-- `WorkAutomationPolicy::default`. -/
def WorkAutomationPolicy.default : WorkAutomationPolicy where
  enabled := false
  deliveryTarget := none
  revision := 0
  destination := none
  timezone := ""
  quietStart := 22
  quietEnd := 8
  dailyLimit := 4
  briefingHour := 9

inductive WorkDeliveryKind where
  | briefing
  | reminder
  | changes
  deriving DecidableEq, Repr

inductive WorkFeedback where
  | useful
  | dismissed
  | snoozed (hour : ℕ)
  deriving DecidableEq, Repr

structure PreferenceEvidence where
  actor : Option ℕ
  scope : Option WorkScope
  kind : Option WorkDeliveryKind
  deliveryId : ℕ
  feedback : WorkFeedback
  at_ : ℕ
  deriving DecidableEq, Repr

structure WorkPreferenceProfile where
  learningEnabled : Bool
  explicitHour : Option ℕ
  learnedHour : Option ℕ
  evidence : List PreferenceEvidence
  observedDeliveries : BTreeSet (ℕ × ℕ)
  reduceFollowups : Bool
  briefingRank : ℤ
  deriving DecidableEq

/-- `WorkPreferenceProfile::default`. -/
def WorkPreferenceProfile.default : WorkPreferenceProfile where
  learningEnabled := true
  explicitHour := none
  learnedHour := none
  evidence := []
  observedDeliveries := ∅
  reduceFollowups := false
  briefingRank := 0

/-- A reminder of a task at the time it was set to. -/
structure ReminderCoverage where
  taskId : ℕ
  reminderRevision : ℕ
  remindAt : ℕ
  deriving DecidableEq, Repr

inductive DeliveryState where
  | attempting
  | sent
  | reviewRequired
  deriving DecidableEq, Repr

/-- The sources a delivered text was rendered from. -/
structure DeliveredProvenance where
  version : ℕ
  sourceRefs : BTreeSet WorkContentRef
  contributingProjects : BTreeSet ℕ
  renderedDigest : String
  deriving DecidableEq

structure WorkDeliveryReceipt where
  id : ℕ
  projectId : ℕ
  recipient : ℕ
  destination : Option WorkDestination
  policyRevision : ℕ
  provenance : Option DeliveredProvenance
  localDay : String
  at_ : ℕ
  state : DeliveryState
  messageId : Option ℕ
  scope : Option WorkScope
  kind : Option WorkDeliveryKind
  coverage : List ReminderCoverage
  taskIds : List ℕ
  dedupeKeys : BTreeSet String
  deriving DecidableEq

structure WorkStore where
  sequence : ℕ
  projects : BTreeMap ℕ WorkProject
  goals : BTreeMap ℕ WorkGoal
  tasks : BTreeMap ℕ WorkTask
  decisions : BTreeMap ℕ WorkDecision
  scopeAutomation : BTreeMap String WorkAutomationPolicy
  scopeAutomationActors : BTreeMap String ℕ
  changeCoverage : BTreeMap String (BTreeSet WorkContentRef)
  changeFingerprints : BTreeMap String (BTreeMap ℕ String)
  preferences : BTreeMap String WorkPreferenceProfile
  deliveries : BTreeMap ℕ WorkDeliveryReceipt
  requestIds : BTreeMap String ℕ

/-- `WorkStore::default`. -/
def WorkStore.empty : WorkStore := ⟨0, ∅, ∅, ∅, ∅, ∅, ∅, ∅, ∅, ∅, ∅, ∅⟩

/-! ### Authority -/

/-- `WorkProject::authorize`: the access comes from the scope of the project, by a member, and by a
manager where one is asked for. -/
def WorkProject.authorize (project : WorkProject) (access : WorkAccess) (manager : Bool) : Prop :=
  access.actor ≠ 0 ∧
    (match project.scope with
      | .personal owner => access.guild = none ∧ access.actor = owner
      | .team guild channel =>
        access.guild = some guild ∧ access.channel = channel ∧ access.canView = true) ∧
    access.actor ∈ project.members ∧ (manager = true → access.actor ∈ project.managers)

instance (project : WorkProject) (access : WorkAccess) (manager : Bool) :
    Decidable (project.authorize access manager) := by
  unfold WorkProject.authorize
  cases project.scope <;> infer_instance

/-- The projects of a scope, in the order of their ids. -/
def WorkStore.projectsOf (s : WorkStore) (scope : WorkScope) : List WorkProject :=
  (values s.projects).filter fun p => p.scope = scope

/-- `WorkStore::scope_projects`: the projects of the scope, all of which must admit the access. -/
def WorkStore.scopeProjects (s : WorkStore) (scope : WorkScope) (access : WorkAccess)
    (manager : Bool) : Except WorkError (List WorkProject) := do
  ensure (s.projectsOf scope ≠ []) .missing
  ensure (∀ p ∈ s.projectsOf scope, p.authorize access manager) .denied
  return s.projectsOf scope

end AbbeyBot.Work.Types
