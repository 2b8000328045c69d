import Mathlib
import AbbeyBot.Library.Word
import AbbeyBot.Work.GitHub

/-! # The registry

Projects, goals, tasks and decisions take their ids from one sequence. A creation names its request:
the same request is answered by the same id, and nothing is written again. -/

namespace AbbeyBot.Work.Types

open AbbeyBot.Library.OrderedMap AbbeyBot.Library.Result AbbeyBot.Library.Text
open AbbeyBot.Library.Word

def maxRecords : ℕ := 10000

/-- The condition of `valid_text`. -/
def ValidText (text : String) (max : ℕ) : Prop :=
  isBlank text = false ∧ text.length ≤ max ∧ ∀ c ∈ text.toList, isControl c = true → c = '\n'

instance (text : String) (max : ℕ) : Decidable (ValidText text max) :=
  -- the characters of the text are checked, not all characters there are
  have : Decidable (∀ c ∈ text.toList, isControl c = true → c = '\n') := List.decidableBAll _ _
  inferInstanceAs (Decidable (_ ∧ _ ∧ _))

/-- The checks of a request id. -/
def RequestValid (requestId : String) : Prop := requestId ≠ "" ∧ requestId.utf8ByteSize ≤ 100

instance (requestId : String) : Decidable (RequestValid requestId) :=
  inferInstanceAs (Decidable (_ ∧ _))

/-- `WorkStore::next_id`. -/
def WorkStore.nextId (s : WorkStore) : Except WorkError (ℕ × WorkStore) := do
  ensure (s.projects.size + s.goals.size + s.tasks.size + s.decisions.size < maxRecords) .full
  let id ← orErr (checkedAdd s.sequence 1) .full
  return (id, { s with sequence := id })

/-- `WorkStore::project`. -/
def WorkStore.project (id : ℕ) (access : WorkAccess) (s : WorkStore) :
    Except WorkError WorkProject := do
  let project ← orErr s.projects[id]? .missing
  ensure (project.authorize access false) .denied
  return project

/-- The end of every creation: a request that is known is answered by its id, another one by the next
id, under which `write` stores the record. -/
def WorkStore.once (key : String) (write : ℕ → WorkStore → WorkStore) (s : WorkStore) :
    Except WorkError (ℕ × WorkStore) :=
  match s.requestIds[key]? with
  | some id => return (id, s)
  | none => do
    let (id, next) ← s.nextId
    return (id, { write id next with requestIds := next.requestIds.insert key id })

theorem nextId_eq_ok {s s' : WorkStore} {id : ℕ} : s.nextId = .ok (id, s') ↔
    s.projects.size + s.goals.size + s.tasks.size + s.decisions.size < maxRecords ∧
      s.sequence + 1 ≤ u64Max ∧ id = s.sequence + 1 ∧ s' = { s with sequence := s.sequence + 1 } := by
  simp only [WorkStore.nextId, bind_eq_ok, ensure_eq_ok, exists_unit, orErr_eq_ok, checkedAdd_eq_some,
    pure_eq_ok, Prod.mk.injEq]
  constructor
  · rintro ⟨hroom, _, ⟨rfl, hmax⟩, rfl, rfl⟩
    exact ⟨hroom, hmax, rfl, rfl⟩
  · rintro ⟨hroom, hmax, rfl, rfl⟩
    exact ⟨hroom, _, ⟨rfl, hmax⟩, rfl, rfl⟩

/-- A creation repeats an answer, or it is the first of its key and writes. -/
theorem once_ok {s s' : WorkStore} {key : String} {write : ℕ → WorkStore → WorkStore} {id : ℕ}
    (h : s.once key write = .ok (id, s')) :
    (s.requestIds[key]? = some id ∧ s' = s) ∨
    (s.requestIds[key]? = none ∧ s.sequence + 1 ≤ u64Max ∧ id = s.sequence + 1 ∧
      s' = { write (s.sequence + 1) { s with sequence := s.sequence + 1 } with
        requestIds := s.requestIds.insert key (s.sequence + 1) }) := by
  unfold WorkStore.once at h
  cases hkey : s.requestIds[key]? with
  | some known =>
    rw [hkey] at h
    simp only [pure_eq_ok, Prod.mk.injEq] at h
    exact .inl ⟨congrArg some h.1, h.2.symm⟩
  | none =>
    rw [hkey] at h
    simp only [bind_eq_ok, Prod.exists, nextId_eq_ok, pure_eq_ok, Prod.mk.injEq] at h
    obtain ⟨_, _, ⟨-, hmax, rfl, rfl⟩, rfl, rfl⟩ := h
    exact .inr ⟨rfl, hmax, rfl, rfl⟩

/-! ### Projects -/

/-- The key of a project request. -/
def projectKey (access : WorkAccess) (requestId : String) : String :=
  toString access.actor ++ ":" ++ toString (access.guild.getD 0) ++ ":" ++ toString access.channel ++
    ":project:" ++ requestId

/-- The key of a request in a project. -/
def recordKey (actor project : ℕ) (record requestId : String) : String :=
  toString actor ++ ":" ++ toString project ++ ":" ++ record ++ ":" ++ requestId

/-- `WorkStore::create_project`. -/
def WorkStore.createProject (access : WorkAccess) (name requestId : String) (s : WorkStore) :
    Except WorkError (ℕ × WorkStore) := do
  ensure (ValidText name 100) .invalid
  ensure (access.actor ≠ 0 ∧ access.channel ≠ 0 ∧ access.guild ≠ some 0 ∧ RequestValid requestId)
    .invalid
  ensure (access.guild = none ∨ access.canView = true ∧ access.canManage = true) .denied
  s.once (projectKey access requestId) fun id s =>
    { s with
      projects := s.projects.insert id
        { id := id
          name := trim name
          scope := access.scope
          managers := {access.actor}
          members := {access.actor}
          revision := 0
          allowedGithubRepositories := ∅ } }

/-- The project, to one of its managers. -/
def WorkStore.managedProject (id : ℕ) (access : WorkAccess) (s : WorkStore) :
    Except WorkError WorkProject := do
  let project ← orErr s.projects[id]? .missing
  ensure (project.authorize access true) .denied
  return project

/-- The project has another member, or one member less. -/
def WorkProject.withMember (p : WorkProject) (user : ℕ) (present : Bool) : WorkProject :=
  { p with members := if present then insert user p.members else p.members.erase user }

/-- `WorkStore::set_member`: where the revision is used up, the member is set before the error. -/
def WorkStore.setMember (projectId : ℕ) (access : WorkAccess) (user : ℕ) (present : Bool)
    (s : WorkStore) : Except WorkError Unit × WorkStore :=
  match (do
    let project ← s.managedProject projectId access
    ensure (project.scope.owner = none ∧ user ≠ 0 ∧ user ∉ project.managers) .invalid
    return project.withMember user present) with
  | .error e => (.error e, s)
  | .ok project =>
    match checkedAdd project.revision 1 with
    | none => (.error .full, { s with projects := s.projects.insert projectId project })
    | some revision => (.ok (), { s with
        projects := s.projects.insert projectId { project with revision := revision } })

/-- `WorkStore::allow_github_repository`. -/
def WorkStore.allowGithubRepository (projectId : ℕ) (access : WorkAccess)
    (repository : GitHubRepository) (allowed : Bool) (s : WorkStore) :
    Except WorkError (Unit × WorkStore) := do
  ensure repository.Valid .invalid
  let project ← s.managedProject projectId access
  let revision ← orErr (checkedAdd project.revision 1) .full
  let others := project.allowedGithubRepositories.filter fun candidate =>
    ¬ candidate.SameIdentity repository.canonical
  let repositories := if allowed then insert repository.canonical others else others
  return ((), { s with
    projects := s.projects.insert projectId
      { project with allowedGithubRepositories := repositories, revision := revision } })

/-! ### Records of a project -/

/-- `WorkStore::add_goal`. -/
def WorkStore.addGoal (projectId : ℕ) (access : WorkAccess) (title requestId : String)
    (s : WorkStore) : Except WorkError (ℕ × WorkStore) := do
  let _ ← s.project projectId access
  ensure (ValidText title 300) .invalid
  ensure (RequestValid requestId) .invalid
  s.once (recordKey access.actor projectId "goal" requestId) fun id s =>
    { s with goals := s.goals.insert id ⟨id, projectId, trim title, access.actor, false⟩ }

/-- The checks of a new task that are not those of its text. -/
def WorkStore.TaskFits (s : WorkStore) (project : WorkProject) (task : WorkTask) : Prop :=
  task.priority ≤ 3 ∧
  (∀ reference ∈ task.github, reference.Valid ∧
    project.AllowsGithubRepository reference.repository) ∧
  (∀ assignee ∈ task.assignee, assignee ∈ project.members) ∧
  (∀ id ∈ task.goalId, ∃ goal ∈ s.goals[id]?, goal.projectId = task.projectId) ∧
  ∀ source ∈ task.source, source.utf8ByteSize ≤ 500 ∧
    "https://".toList.isPrefixOf source.toList = true

instance (s : WorkStore) (project : WorkProject) (task : WorkTask) :
    Decidable (s.TaskFits project task) := by
  unfold WorkStore.TaskFits
  infer_instance

/-- `WorkStore::add_task`. -/
def WorkStore.addTask (access : WorkAccess) (task : WorkTask) (requestId : String) (s : WorkStore) :
    Except WorkError (ℕ × WorkStore) := do
  let project ← s.project task.projectId access
  ensure (ValidText task.title 300) .invalid
  ensure (s.TaskFits project task ∧ RequestValid requestId) .invalid
  s.once (recordKey access.actor task.projectId "task" requestId) fun id s =>
    { s with
      tasks := s.tasks.insert id
        { task with
          github := task.github.map GitHubReference.canonical
          id := id
          owner := access.actor
          revision := 0 } }

/-- `WorkStore::record_decision`. -/
def WorkStore.recordDecision (projectId : ℕ) (access : WorkAccess) (text : String) (at_ : ℕ)
    (requestId : String) (s : WorkStore) : Except WorkError (ℕ × WorkStore) := do
  let _ ← s.project projectId access
  ensure (ValidText text 1000) .invalid
  ensure (RequestValid requestId) .invalid
  s.once (recordKey access.actor projectId "decision" requestId) fun id s =>
    { s with decisions := s.decisions.insert id ⟨id, projectId, access.actor, trim text, at_⟩ }

/-! ### Changes of a task -/

/-- The task, to somebody who works on its project and knows its revision. -/
def WorkStore.currentTask (access : WorkAccess) (id revision : ℕ) (s : WorkStore) :
    Except WorkError WorkTask := do
  let task ← orErr s.tasks[id]? .missing
  let _ ← s.project task.projectId access
  ensure (task.revision = revision) .stale
  return task

/-- `WorkStore::update_task`. -/
def WorkStore.updateTask (access : WorkAccess) (id revision : ℕ) (status : WorkStatus)
    (snoozedUntil : Option ℕ) (s : WorkStore) : Except WorkError (ℕ × WorkStore) := do
  let task ← s.currentTask access id revision
  let next ← orErr (checkedAdd task.revision 1) .full
  return (next, { s with
    tasks := s.tasks.insert id
      { task with status := status, snoozedUntil := snoozedUntil, revision := next } })

/-- `WorkStore::link_github`. -/
def WorkStore.linkGithub (taskId revision : ℕ) (access : WorkAccess) (reference : GitHubReference)
    (s : WorkStore) : Except WorkError (Unit × WorkStore) := do
  ensure reference.Valid .invalid
  let task ← orErr s.tasks[taskId]? .missing
  let project ← s.project task.projectId access
  ensure (project.AllowsGithubRepository reference.repository) .denied
  ensure (task.revision = revision) .stale
  let next ← orErr (checkedAdd task.revision 1) .full
  return ((), { s with
    tasks := s.tasks.insert taskId
      { task with github := some reference.canonical, revision := next } })

/-- The reference that a task of the project has in its source, where it has no link. -/
def WorkTask.legacyReference (projectId : ℕ) (repositories : BTreeSet GitHubRepository)
    (task : WorkTask) : Option GitHubReference :=
  if task.projectId = projectId ∧ task.github = none then
    task.source.bind fun source => parseLegacySource source repositories
  else none

/-- `WorkStore::migrate_github_sources`: every reference of the project, or none of them. -/
def WorkStore.migrateGithubSources (projectId : ℕ) (access : WorkAccess) (s : WorkStore) :
    Except WorkError (ℕ × WorkStore) := do
  let project ← s.managedProject projectId access
  let changes := (values s.tasks).filterMap fun task =>
    (task.legacyReference projectId project.allowedGithubRepositories).map (task, ·)
  ensure (∀ change ∈ changes, change.1.revision + 1 ≤ u64Max) .full
  return (changes.length, { s with
    tasks := changes.foldl (fun tasks (task, reference) => tasks.insert task.id
      { task with github := some reference, revision := task.revision + 1 }) s.tasks })

end AbbeyBot.Work.Types
