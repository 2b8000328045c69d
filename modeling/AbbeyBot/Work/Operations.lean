import Mathlib
import AbbeyBot.Library.History
import AbbeyBot.Work.Schedule

/-! # Operations on the records

The operations that write a record, a policy, a preference or a receipt, as one step function. An
operation writes nothing, or one of a few kinds of things (`Moves`): what holds along every run is
proved from that. -/

namespace AbbeyBot.Work.Types

open AbbeyBot.Calendar AbbeyBot.Library.History AbbeyBot.Library.OrderedMap AbbeyBot.Library.Result
open AbbeyBot.Library.Word

inductive WorkOp where
  | createProject (access : WorkAccess) (name requestId : String)
  | addGoal (projectId : ℕ) (access : WorkAccess) (title requestId : String)
  | addTask (access : WorkAccess) (task : WorkTask) (requestId : String)
  | recordDecision (projectId : ℕ) (access : WorkAccess) (text : String) (at_ : ℕ)
      (requestId : String)
  | setMember (projectId : ℕ) (access : WorkAccess) (user : ℕ) (present : Bool)
  | allowGithubRepository (projectId : ℕ) (access : WorkAccess) (repository : GitHubRepository)
      (allowed : Bool)
  | updateTask (access : WorkAccess) (id revision : ℕ) (status : WorkStatus)
      (snoozedUntil : Option ℕ)
  | linkGithub (taskId revision : ℕ) (access : WorkAccess) (reference : GitHubReference)
  | migrateGithubSources (projectId : ℕ) (access : WorkAccess)
  | setReminder (access : WorkAccess) (id revision : ℕ) (remindAt : Option ℕ)
  | snoozeTask (access : WorkAccess) (id revision until_ : ℕ)
  | configureAutomation (scope : WorkScope) (access : WorkAccess) (policy : WorkAutomationPolicy)
  | updateAutomation (access : WorkAccess) (update : WorkAutomationUpdate)
      (configuredOwner : Option String)
  | controlPreferences (access : WorkAccess) (enabled : Option Bool)
      (explicitHour : Option (Option ℕ)) (reset : Bool)
  | feedback (access : WorkAccess) (deliveryId : ℕ) (feedback : Option WorkFeedback)
      (correction : Bool) (now : ℕ)
  | reserveBatch (access : WorkAccess) (batch : WorkBatch) (now : ℕ)
  | reservePrivateBatch (access : WorkAccess) (batch : WorkBatch) (dmChannel now : ℕ)
  | settleDelivery (id : ℕ) (message : Option ℕ)
  | markInterruptedDeliveries

variable (K : WorkCrates)

/-- An operation that returns a number. -/
def numbered {σ : Type} (r : Except WorkError ℕ × σ) : Except WorkError (Option ℕ) × σ :=
  (r.1.map some, r.2)

/-- An operation that returns nothing. -/
def unnumbered {σ : Type} (r : Except WorkError Unit × σ) : Except WorkError (Option ℕ) × σ :=
  (r.1.map fun _ => none, r.2)

/-- **The step function** of the records. -/
def WorkStore.step (s : WorkStore) : WorkOp → Except WorkError (Option ℕ) × WorkStore
  | .createProject access name requestId =>
    numbered (commit s (s.createProject access name requestId))
  | .addGoal projectId access title requestId =>
    numbered (commit s (s.addGoal projectId access title requestId))
  | .addTask access task requestId => numbered (commit s (s.addTask access task requestId))
  | .recordDecision projectId access text at_ requestId =>
    numbered (commit s (s.recordDecision projectId access text at_ requestId))
  | .setMember projectId access user present => unnumbered (s.setMember projectId access user present)
  | .allowGithubRepository projectId access repository allowed =>
    unnumbered (commit s (s.allowGithubRepository projectId access repository allowed))
  | .updateTask access id revision status snoozedUntil =>
    numbered (commit s (s.updateTask access id revision status snoozedUntil))
  | .linkGithub taskId revision access reference =>
    unnumbered (commit s (s.linkGithub taskId revision access reference))
  | .migrateGithubSources projectId access =>
    numbered (commit s (s.migrateGithubSources projectId access))
  | .setReminder access id revision remindAt =>
    unnumbered (commit s (s.setReminder access id revision remindAt))
  | .snoozeTask access id revision until_ => numbered (s.snoozeTask access id revision until_)
  | .configureAutomation scope access policy =>
    unnumbered (commit s (s.configureAutomation K scope access policy))
  | .updateAutomation access update configuredOwner =>
    unnumbered (s.updateAutomation K access update configuredOwner)
  | .controlPreferences access enabled explicitHour reset =>
    unnumbered (commit s (s.controlPreferences access enabled explicitHour reset))
  | .feedback access deliveryId feedback correction now =>
    unnumbered (s.feedback access deliveryId feedback correction now)
  | .reserveBatch access batch now => numbered (s.reserveBatch K access batch now)
  | .reservePrivateBatch access batch dmChannel now =>
    numbered (s.reservePrivateBatch K access batch dmChannel now)
  | .settleDelivery id message => unnumbered (commit s (s.settleDelivery id message))
  | .markInterruptedDeliveries => (.ok none, s.markInterruptedDeliveries)

/-- The events of a run, the latest first. -/
abbrev WorkHistory := List (Event WorkStore WorkOp (Except WorkError (Option ℕ)))

/-! ### What an operation can do -/

/-- Another version of a project: its members, its repositories or its revision have changed. -/
structure WorkProject.Version (p p' : WorkProject) : Prop where
  id : p'.id = p.id
  revision : p.revision ≤ p'.revision
  scope : p'.scope = p.scope
  managers : p'.managers = p.managers

/-- A later version of a task: its status, its times or its link have changed. -/
structure WorkTask.Version (t t' : WorkTask) : Prop where
  id : t'.id = t.id
  projectId : t'.projectId = t.projectId
  title : t'.title = t.title
  priority : t'.priority = t.priority
  dueAt : t'.dueAt = t.dueAt
  revision : t.revision ≤ t'.revision
  reminderRevision : t.reminderRevision ≤ t'.reminderRevision
  fits : t'.revision ≤ max t.revision u64Max

theorem WorkTask.Version.refl (t : WorkTask) : t.Version t :=
  ⟨rfl, rfl, rfl, rfl, rfl, le_rfl, le_rfl, le_max_left _ _⟩

theorem WorkTask.Version.trans {t t' t'' : WorkTask} (h : t.Version t') (h' : t'.Version t'') :
    t.Version t'' where
  id := h'.id.trans h.id
  projectId := h'.projectId.trans h.projectId
  title := h'.title.trans h.title
  priority := h'.priority.trans h.priority
  dueAt := h'.dueAt.trans h.dueAt
  revision := h.revision.trans h'.revision
  reminderRevision := h.reminderRevision.trans h'.reminderRevision
  fits := by
    have h₁ := h.fits
    have h₂ := h'.fits
    omega

/-- Another state of a receipt: what was sent, and where, is the same. -/
def WorkDeliveryReceipt.Version (r r' : WorkDeliveryReceipt) : Prop :=
  r' = { r with state := r'.state, messageId := r'.messageId }

/-- The two stores have the same records, receipts and requests. -/
structure WorkStore.SameRecords (s s' : WorkStore) : Prop where
  sequence : s'.sequence = s.sequence
  projects : s'.projects = s.projects
  goals : s'.goals = s.goals
  tasks : s'.tasks = s.tasks
  decisions : s'.decisions = s.decisions
  deliveries : s'.deliveries = s.deliveries
  requestIds : s'.requestIds = s.requestIds

theorem WorkStore.SameRecords.refl (s : WorkStore) : s.SameRecords s :=
  ⟨rfl, rfl, rfl, rfl, rfl, rfl, rfl⟩

/-- The four operations that create a record. -/
def WorkOp.Creation : WorkOp → Prop
  | .createProject .. | .addGoal .. | .addTask .. | .recordDecision .. => True
  | _ => False

/-- The key of a creation. A project request for the guild zero is refused before it has one. -/
def WorkOp.key : WorkOp → Option String
  | .createProject access _ requestId =>
    if access.guild = some 0 then none else some (projectKey access requestId)
  | .addGoal projectId access _ requestId =>
    some (recordKey access.actor projectId "goal" requestId)
  | .addTask access task requestId =>
    some (recordKey access.actor task.projectId "task" requestId)
  | .recordDecision projectId access _ _ requestId =>
    some (recordKey access.actor projectId "decision" requestId)
  | _ => none

/-- The record that a creation adds under a new id. -/
inductive WorkOp.Creates (op : WorkOp) (s : WorkStore) (id : ℕ) : WorkStore → Prop
  | project (p : WorkProject) (access : WorkAccess) (name requestId : String)
      (hop : op = .createProject access name requestId) (hid : p.id = id) :
      op.Creates s id { s with sequence := id, projects := s.projects.insert id p }
  | goal (g : WorkGoal) (projectId : ℕ) (access : WorkAccess) (title requestId : String)
      (hop : op = .addGoal projectId access title requestId) (hid : g.id = id) :
      op.Creates s id { s with sequence := id, goals := s.goals.insert id g }
  | task (t : WorkTask) (access : WorkAccess) (given : WorkTask) (requestId : String)
      (hop : op = .addTask access given requestId) (hid : t.id = id)
      (hproject : t.projectId ∈ s.projects) (hpriority : t.priority ≤ 3) (hrevision : t.revision = 0)
      (hdue : t.dueAt = given.dueAt) :
      op.Creates s id { s with sequence := id, tasks := s.tasks.insert id t }
  | decision (d : WorkDecision) (projectId : ℕ) (access : WorkAccess) (text : String) (at_ : ℕ)
      (requestId : String) (hop : op = .recordDecision projectId access text at_ requestId)
      (hid : d.id = id) (hproject : d.projectId ∈ s.projects) :
      op.Creates s id { s with sequence := id, decisions := s.decisions.insert id d }

/-- The operation reserves the batch for a channel. -/
def WorkOp.Reserves (op : WorkOp) (access : WorkAccess) (batch : WorkBatch) (channel now : ℕ) :
    Prop :=
  (op = .reserveBatch access batch now ∧ channel = batch.destination ∧
    ∀ principal, batch.target ≠ .teamPrivate principal) ∨
  (op = .reservePrivateBatch access batch channel now ∧ batch.target = .teamPrivate access.actor ∧
    channel ≠ 0 ∧ channel ≠ access.channel)

/-- **What an operation can do** to the records. -/
inductive WorkStore.Moves (op : WorkOp) (s : WorkStore) : WorkStore → Prop
  | settings {s' : WorkStore} (h : s.SameRecords s') : Moves op s s'
  | project {id : ℕ} {p p' : WorkProject} (hop : ¬ op.Creation) (hp : s.projects[id]? = some p)
      (h : p.Version p') :
      Moves op s { s with projects := s.projects.insert id p' }
  | tasks {tasks : BTreeMap ℕ WorkTask} (h : Rewrites WorkTask.Version s.tasks tasks) :
      Moves op s { s with tasks := tasks }
  | receipts {deliveries : BTreeMap ℕ WorkDeliveryReceipt}
      (h : Rewrites WorkDeliveryReceipt.Version s.deliveries deliveries) :
      Moves op s { s with deliveries := deliveries }
  | create {key : String} {s' : WorkStore} (hkey : op.key = some key)
      (hnew : s.requestIds[key]? = none) (hmax : s.sequence + 1 ≤ u64Max)
      (h : op.Creates s (s.sequence + 1) s') :
      Moves op s { s' with requestIds := s.requestIds.insert key (s.sequence + 1) }
  | reserve {access : WorkAccess} {batch : WorkBatch} {project revision channel now : ℕ}
      (hop : op.Reserves access batch channel now)
      (hnext : s.nextBatch K batch.scope access now = .ok (some batch))
      (hproject : batch.projectRevisions.head? = some (project, revision))
      (hmax : s.sequence + 1 ≤ u64Max) :
      Moves op s ({ s with sequence := s.sequence + 1 }.withReservation K batch
        (batch.receipt (s.sequence + 1) project channel now))

theorem WorkStore.Moves.refl (op : WorkOp) (s : WorkStore) : s.Moves K op s := .settings (.refl s)

theorem WorkStore.Moves.commit {op : WorkOp} {s : WorkStore} {α : Type}
    {r : Except WorkError (α × WorkStore)} (h : ∀ a s', r = .ok (a, s') → s.Moves K op s') :
    s.Moves K op (commit s r).2 :=
  commit_keeps (P := s.Moves K op) (.refl K op s) h

variable {K}

/-! ### Creations -/

theorem project_eq_ok {s : WorkStore} {id : ℕ} {access : WorkAccess} {p : WorkProject} :
    s.project id access = .ok p ↔ s.projects[id]? = some p ∧ p.authorize access false := by
  simp only [WorkStore.project, bind_eq_ok, orErr_eq_ok, ensure_eq_ok, exists_unit, pure_eq_ok]
  constructor
  · rintro ⟨q, hq, hauth, rfl⟩
    exact ⟨hq, hauth⟩
  · rintro ⟨hp, hauth⟩
    exact ⟨p, hp, hauth, rfl⟩

theorem createProject_moves {access : WorkAccess} {name requestId : String} {s s' : WorkStore}
    {id : ℕ} (h : s.createProject access name requestId = .ok (id, s')) :
    s.Moves K (.createProject access name requestId) s' := by
  simp only [WorkStore.createProject, bind_eq_ok, ensure_eq_ok, exists_unit] at h
  obtain ⟨-, ⟨-, -, hguild, -⟩, -, h⟩ := h
  rcases once_ok h with ⟨-, rfl⟩ | ⟨hnew, hmax, rfl, rfl⟩
  · exact .refl K _ _
  · exact .create (if_neg hguild) hnew hmax (.project _ access name requestId rfl rfl)

theorem addGoal_moves {projectId : ℕ} {access : WorkAccess} {title requestId : String}
    {s s' : WorkStore} {id : ℕ} (h : s.addGoal projectId access title requestId = .ok (id, s')) :
    s.Moves K (.addGoal projectId access title requestId) s' := by
  simp only [WorkStore.addGoal, bind_eq_ok, ensure_eq_ok, exists_unit] at h
  obtain ⟨-, -, -, -, h⟩ := h
  rcases once_ok h with ⟨-, rfl⟩ | ⟨hnew, hmax, rfl, rfl⟩
  · exact .refl K _ _
  · exact .create rfl hnew hmax (.goal _ projectId access title requestId rfl rfl)

theorem addTask_moves {access : WorkAccess} {task : WorkTask} {requestId : String}
    {s s' : WorkStore} {id : ℕ} (h : s.addTask access task requestId = .ok (id, s')) :
    s.Moves K (.addTask access task requestId) s' := by
  simp only [WorkStore.addTask, bind_eq_ok, ensure_eq_ok, exists_unit, project_eq_ok] at h
  obtain ⟨p, ⟨hp, -⟩, -, ⟨hfits, -⟩, h⟩ := h
  rcases once_ok h with ⟨-, rfl⟩ | ⟨hnew, hmax, rfl, rfl⟩
  · exact .refl K _ _
  · exact .create rfl hnew hmax
      (.task _ access task requestId rfl rfl (mem_iff.mpr ⟨p, hp⟩) hfits.1 rfl rfl)

theorem recordDecision_moves {projectId : ℕ} {access : WorkAccess} {text requestId : String}
    {at_ : ℕ} {s s' : WorkStore} {id : ℕ}
    (h : s.recordDecision projectId access text at_ requestId = .ok (id, s')) :
    s.Moves K (.recordDecision projectId access text at_ requestId) s' := by
  simp only [WorkStore.recordDecision, bind_eq_ok, ensure_eq_ok, exists_unit, project_eq_ok] at h
  obtain ⟨p, ⟨hp, -⟩, -, -, h⟩ := h
  rcases once_ok h with ⟨-, rfl⟩ | ⟨hnew, hmax, rfl, rfl⟩
  · exact .refl K _ _
  · exact .create rfl hnew hmax
      (.decision _ projectId access text at_ requestId rfl rfl (mem_iff.mpr ⟨p, hp⟩))

/-! ### Projects and tasks -/

theorem managedProject_eq_ok {s : WorkStore} {id : ℕ} {access : WorkAccess} {p : WorkProject} :
    s.managedProject id access = .ok p ↔ s.projects[id]? = some p ∧ p.authorize access true := by
  simp only [WorkStore.managedProject, bind_eq_ok, orErr_eq_ok, ensure_eq_ok, exists_unit,
    pure_eq_ok]
  constructor
  · rintro ⟨q, hq, hauth, rfl⟩
    exact ⟨hq, hauth⟩
  · rintro ⟨hp, hauth⟩
    exact ⟨p, hp, hauth, rfl⟩

theorem setMember_moves (projectId : ℕ) (access : WorkAccess) (user : ℕ) (present : Bool)
    (s : WorkStore) : s.Moves K (.setMember projectId access user present)
      (s.setMember projectId access user present).2 := by
  unfold WorkStore.setMember
  split
  · exact .refl K _ _
  · rename_i p' h
    simp only [bind_eq_ok, managedProject_eq_ok, ensure_eq_ok, exists_unit, pure_eq_ok] at h
    obtain ⟨p, ⟨hp, -⟩, -, rfl⟩ := h
    split
    · exact .project id hp ⟨rfl, le_rfl, rfl, rfl⟩
    · rename_i revision hrevision
      obtain ⟨rfl, -⟩ := checkedAdd_eq_some.mp hrevision
      exact .project id hp ⟨rfl, Nat.le_succ _, rfl, rfl⟩

theorem allowGithubRepository_moves {projectId : ℕ} {access : WorkAccess}
    {repository : GitHubRepository} {allowed : Bool} {s s' : WorkStore} {u : Unit}
    (h : s.allowGithubRepository projectId access repository allowed = .ok (u, s')) :
    s.Moves K (.allowGithubRepository projectId access repository allowed) s' := by
  simp only [WorkStore.allowGithubRepository, bind_eq_ok, ensure_eq_ok, exists_unit,
    managedProject_eq_ok, orErr_eq_ok, checkedAdd_eq_some, pure_eq_ok, Prod.mk.injEq, true_and] at h
  obtain ⟨-, p, ⟨hp, -⟩, _, ⟨rfl, -⟩, rfl⟩ := h
  exact .project id hp ⟨rfl, Nat.le_succ _, rfl, rfl⟩

theorem currentTask_eq_ok {s : WorkStore} {access : WorkAccess} {id revision : ℕ} {t : WorkTask} :
    s.currentTask access id revision = .ok t ↔ s.tasks[id]? = some t ∧
      (∃ p, s.projects[t.projectId]? = some p ∧ p.authorize access false) ∧ t.revision = revision := by
  simp only [WorkStore.currentTask, bind_eq_ok, orErr_eq_ok, project_eq_ok, ensure_eq_ok, exists_unit,
    pure_eq_ok]
  constructor
  · rintro ⟨t', ht, p, hp, hrevision, rfl⟩
    exact ⟨ht, ⟨p, hp⟩, hrevision⟩
  · rintro ⟨ht, ⟨p, hp⟩, hrevision⟩
    exact ⟨t, ht, p, hp, hrevision, rfl⟩

/-- One task is replaced by a later version. -/
theorem rewrites_insert {s : WorkStore} {id : ℕ} {t t' : WorkTask} (ht : s.tasks[id]? = some t)
    (h : t.Version t') : Rewrites WorkTask.Version s.tasks (s.tasks.insert id t') :=
  Rewrites.insert WorkTask.Version.refl ht h

theorem updateTask_ok {access : WorkAccess} {id revision next : ℕ} {status : WorkStatus}
    {snoozedUntil : Option ℕ} {s s' : WorkStore}
    (h : s.updateTask access id revision status snoozedUntil = .ok (next, s')) :
    ∃ t, s.tasks[id]? = some t ∧ t.revision = revision ∧ next = revision + 1 ∧ next ≤ u64Max ∧
      s' = { s with
        tasks := s.tasks.insert id
          { t with status := status, snoozedUntil := snoozedUntil, revision := next } } := by
  simp only [WorkStore.updateTask, bind_eq_ok, currentTask_eq_ok, orErr_eq_ok, checkedAdd_eq_some,
    pure_eq_ok, Prod.mk.injEq] at h
  obtain ⟨t, ⟨ht, -, rfl⟩, _, ⟨rfl, hmax⟩, rfl, rfl⟩ := h
  exact ⟨t, ht, rfl, rfl, hmax, rfl⟩

theorem updateTask_rewrites {access : WorkAccess} {id revision next : ℕ} {status : WorkStatus}
    {snoozedUntil : Option ℕ} {s s' : WorkStore}
    (h : s.updateTask access id revision status snoozedUntil = .ok (next, s')) :
    Rewrites WorkTask.Version s.tasks s'.tasks ∧ s' = { s with tasks := s'.tasks } := by
  obtain ⟨t, ht, rfl, rfl, hmax, rfl⟩ := updateTask_ok h
  exact ⟨rewrites_insert ht ⟨rfl, rfl, rfl, rfl, rfl, Nat.le_succ _, le_rfl, le_max_of_le_right hmax⟩,
    rfl⟩

theorem updateTask_moves {access : WorkAccess} {id revision next : ℕ} {status : WorkStatus}
    {snoozedUntil : Option ℕ} {s s' : WorkStore}
    (h : s.updateTask access id revision status snoozedUntil = .ok (next, s')) :
    s.Moves K (.updateTask access id revision status snoozedUntil) s' := by
  obtain ⟨hrewrites, hs'⟩ := updateTask_rewrites h
  rw [hs']
  exact .tasks hrewrites

theorem linkGithub_moves {taskId revision : ℕ} {access : WorkAccess} {reference : GitHubReference}
    {s s' : WorkStore} {u : Unit}
    (h : s.linkGithub taskId revision access reference = .ok (u, s')) :
    s.Moves K (.linkGithub taskId revision access reference) s' := by
  simp only [WorkStore.linkGithub, bind_eq_ok, ensure_eq_ok, exists_unit, orErr_eq_ok, project_eq_ok,
    checkedAdd_eq_some, pure_eq_ok, Prod.mk.injEq, true_and] at h
  obtain ⟨-, t, ht, p, -, -, -, _, ⟨rfl, hmax⟩, rfl⟩ := h
  exact .tasks (rewrites_insert ht
    ⟨rfl, rfl, rfl, rfl, rfl, Nat.le_succ _, le_rfl, le_max_of_le_right hmax⟩)

/-- A reminder is as it was, or it is set in the next revisions of the task and of the reminder. -/
theorem setReminder_ok {access : WorkAccess} {id revision : ℕ} {remindAt : Option ℕ}
    {s s' : WorkStore} {u : Unit} (h : s.setReminder access id revision remindAt = .ok (u, s')) :
    ∃ t, s.tasks[id]? = some t ∧ t.revision = revision ∧
      ((t.remindAt = remindAt ∧ s' = s) ∨
        (t.remindAt ≠ remindAt ∧ t.revision + 1 ≤ u64Max ∧ t.reminderRevision + 1 ≤ u64Max ∧
          s' = { s with
            tasks := s.tasks.insert id
              { t with
                remindAt := remindAt
                reminderRevision := t.reminderRevision + 1
                revision := t.revision + 1 } })) := by
  simp only [WorkStore.setReminder, bind_eq_ok, currentTask_eq_ok, ensure_eq_ok, exists_unit] at h
  obtain ⟨t, ⟨ht, -, hrevision⟩, -, h⟩ := h
  refine ⟨t, ht, hrevision, ?_⟩
  split_ifs at h with hsame
  · simp only [pure_eq_ok, Prod.mk.injEq, true_and] at h
    exact .inl ⟨hsame, h.symm⟩
  · simp only [bind_eq_ok, orErr_eq_ok, checkedAdd_eq_some, pure_eq_ok, Prod.mk.injEq,
      true_and] at h
    obtain ⟨_, ⟨rfl, hmax⟩, _, ⟨rfl, hmax'⟩, rfl⟩ := h
    exact .inr ⟨hsame, hmax, hmax', rfl⟩

theorem setReminder_rewrites {access : WorkAccess} {id revision : ℕ} {remindAt : Option ℕ}
    {s s' : WorkStore} {u : Unit} (h : s.setReminder access id revision remindAt = .ok (u, s')) :
    Rewrites WorkTask.Version s.tasks s'.tasks ∧ s' = { s with tasks := s'.tasks } := by
  obtain ⟨t, ht, -, ⟨-, rfl⟩ | ⟨-, hmax, -, rfl⟩⟩ := setReminder_ok h
  · exact ⟨Rewrites.refl WorkTask.Version.refl _, rfl⟩
  · exact ⟨rewrites_insert ht ⟨rfl, rfl, rfl, rfl, rfl, Nat.le_succ _, Nat.le_succ _,
      le_max_of_le_right hmax⟩, rfl⟩

theorem setReminder_moves {access : WorkAccess} {id revision : ℕ} {remindAt : Option ℕ}
    {s s' : WorkStore} {u : Unit} (h : s.setReminder access id revision remindAt = .ok (u, s')) :
    s.Moves K (.setReminder access id revision remindAt) s' := by
  obtain ⟨hrewrites, hs'⟩ := setReminder_rewrites h
  rw [hs']
  exact .tasks hrewrites

theorem snoozeTask_moves (access : WorkAccess) (id revision until_ : ℕ) (s : WorkStore) :
    s.Moves K (.snoozeTask access id revision until_) (s.snoozeTask access id revision until_).2 := by
  unfold WorkStore.snoozeTask
  split
  · exact .refl K _ _
  · rename_i t next s₁ h
    simp only [bind_eq_ok, utc_eq_ok, currentTask_eq_ok, ensure_eq_ok, exists_unit, pure_eq_ok,
      Prod.exists, Prod.mk.injEq] at h
    obtain ⟨-, t', -, -, -, -, next', s', hupdate, rfl, rfl, rfl⟩ := h
    obtain ⟨hrewrites, hs'⟩ := updateTask_rewrites hupdate
    split_ifs with hreminder
    · have hmoved : Rewrites WorkTask.Version s.tasks
          (commit s' (s'.setReminder access id next' (some until_))).2.tasks ∧
          (commit s' (s'.setReminder access id next' (some until_))).2 =
            { s with tasks := (commit s' (s'.setReminder access id next' (some until_))).2.tasks } := by
        refine commit_keeps (P := fun s'' : WorkStore => Rewrites WorkTask.Version s.tasks s''.tasks ∧
          s'' = { s with tasks := s''.tasks }) ⟨hrewrites, hs'⟩ fun u s'' h'' => ?_
        obtain ⟨hrewrites', hs''⟩ := setReminder_rewrites h''
        refine ⟨hrewrites.trans (fun _ _ _ => WorkTask.Version.trans) hrewrites', ?_⟩
        rw [hs'', hs']
      rw [hmoved.2]
      exact .tasks hmoved.1
    · rw [hs']
      exact .tasks hrewrites

/-! ### Policies, preferences and receipts -/

theorem configureAutomation_sameRecords {scope : WorkScope} {access : WorkAccess}
    {policy : WorkAutomationPolicy} {s s' : WorkStore} {u : Unit}
    (h : s.configureAutomation K scope access policy = .ok (u, s')) : s.SameRecords s' := by
  simp only [WorkStore.configureAutomation, bind_eq_ok, ensure_eq_ok, exists_unit, pure_eq_ok,
    Prod.mk.injEq, true_and] at h
  obtain ⟨-, -, -, -, -, -, -, rfl⟩ := h
  exact ⟨rfl, rfl, rfl, rfl, rfl, rfl, rfl⟩

theorem controlPreferences_sameRecords {access : WorkAccess} {enabled : Option Bool}
    {explicitHour : Option (Option ℕ)} {reset : Bool} {s s' : WorkStore} {u : Unit}
    (h : s.controlPreferences access enabled explicitHour reset = .ok (u, s')) :
    s.SameRecords s' := by
  simp only [WorkStore.controlPreferences, bind_eq_ok, ensure_eq_ok, exists_unit, pure_eq_ok,
    Prod.mk.injEq, true_and] at h
  obtain ⟨-, -, -, rfl⟩ := h
  exact ⟨rfl, rfl, rfl, rfl, rfl, rfl, rfl⟩

theorem updateAutomation_moves (access : WorkAccess) (update : WorkAutomationUpdate)
    (configuredOwner : Option String) (s : WorkStore) :
    s.Moves K (.updateAutomation access update configuredOwner)
      (s.updateAutomation K access update configuredOwner).2 := by
  unfold WorkStore.updateAutomation
  split
  · exact .refl K _ _
  · rename_i s' h
    simp only [bind_eq_ok] at h
    obtain ⟨-, -, policy, -, policy', -, hconfigure⟩ := h
    have hs' := configureAutomation_sameRecords hconfigure
    split
    · rename_i hour _
      refine .settings (commit_keeps (P := s.SameRecords) hs' fun u s'' h'' => ?_)
      have hs'' := controlPreferences_sameRecords h''
      exact ⟨hs''.1.trans hs'.1, hs''.2.trans hs'.2, hs''.3.trans hs'.3, hs''.4.trans hs'.4,
        hs''.5.trans hs'.5, hs''.6.trans hs'.6, hs''.7.trans hs'.7⟩
    · exact .settings hs'

theorem feedback_sameRecords (access : WorkAccess) (deliveryId : ℕ)
    (feedback : Option WorkFeedback) (correction : Bool) (now : ℕ) (s : WorkStore) :
    s.SameRecords (s.feedback access deliveryId feedback correction now).2 := by
  have hprofile : ∀ (s : WorkStore) (scope : WorkScope) (p : WorkPreferenceProfile),
      s.SameRecords (s.withProfile scope p) := fun s scope p => ⟨rfl, rfl, rfl, rfl, rfl, rfl, rfl⟩
  unfold WorkStore.feedback
  split
  · exact .refl s
  · dsimp only
    split_ifs
    · split
      · exact hprofile _ _ _
      · exact ⟨rfl, rfl, rfl, rfl, rfl, rfl, rfl⟩
    · split
      · exact hprofile _ _ _
      · split
        · exact hprofile _ _ _
        · exact ⟨rfl, rfl, rfl, rfl, rfl, rfl, rfl⟩

theorem settleDelivery_moves {id : ℕ} {message : Option ℕ} {s s' : WorkStore} {u : Unit}
    (h : s.settleDelivery id message = .ok (u, s')) :
    s.Moves K (.settleDelivery id message) s' := by
  simp only [WorkStore.settleDelivery, bind_eq_ok, orErr_eq_ok, ensure_eq_ok, exists_unit,
    pure_eq_ok, Prod.mk.injEq, true_and] at h
  obtain ⟨r, hr, -, rfl⟩ := h
  have hversion : r.Version (r.settled message) := rfl
  exact .receipts (Rewrites.insert (fun r => (rfl : r.Version r)) hr hversion)

theorem markInterruptedDeliveries_moves (s : WorkStore) :
    s.Moves K .markInterruptedDeliveries s.markInterruptedDeliveries := by
  refine .receipts (Rewrites.map _ fun _ r => ?_)
  unfold WorkDeliveryReceipt.interrupted WorkDeliveryReceipt.Version
  split_ifs <;> rfl

/-- A batch that was planned is about a project. -/
theorem projectRevisions_of_nextBatch {scope : WorkScope} {access : WorkAccess} {now : ℕ}
    {s : WorkStore} {batch : WorkBatch}
    (h : s.nextBatch K scope access now = .ok (some batch)) :
    batch.projectRevisions = (s.projectsOf scope).map (fun p => (p.id, p.revision)) ∧
      s.projectsOf scope ≠ [] := by
  obtain ⟨plan, body, provenance, hplan, -, rfl⟩ := nextBatch_ok h
  obtain ⟨policy, profile, tz, destination, target, hplanned, hplan⟩ := planBatch_ok hplan
  obtain ⟨occurrenceDay, briefing, -, -, -, rfl⟩ := plan_ok hplan
  exact ⟨rfl, hplanned.someProject⟩

theorem reserveResolvedBatch_moves {op : WorkOp} {access : WorkAccess} {batch : WorkBatch}
    {channel now : ℕ} (hop : op.Reserves access batch channel now) (s : WorkStore) :
    s.Moves K op (s.reserveResolvedBatch K access batch channel now).2 := by
  unfold WorkStore.reserveResolvedBatch
  split
  · exact .refl K _ _
  · rename_i id s' h
    simp only [bind_eq_ok, ensure_eq_ok, exists_unit, nextId_eq_ok] at h
    obtain ⟨_, hnext, rfl, -, -, hmax, rfl, rfl⟩ := h
    obtain ⟨hrevisions, hsome⟩ := projectRevisions_of_nextBatch hnext
    split
    · rename_i hnone
      rw [hrevisions, List.head?_eq_none_iff, List.map_eq_nil_iff] at hnone
      exact absurd hnone hsome
    · rename_i project revision hproject
      exact .reserve hop hnext hproject hmax

/-! ### Numbers of the records -/

/-- How many tables have a row with this id. -/
def WorkStore.uses (s : WorkStore) (id : ℕ) : ℕ :=
  (if id ∈ s.projects then 1 else 0) + (if id ∈ s.goals then 1 else 0) +
    (if id ∈ s.tasks then 1 else 0) + (if id ∈ s.decisions then 1 else 0) +
    (if id ∈ s.deliveries then 1 else 0)

/-- The rows stand under their ids, which the sequence has handed out, each for one table; tasks and
decisions are about projects. -/
structure WorkStore.Numbered (s : WorkStore) : Prop where
  projects : ∀ (id : ℕ) (p : WorkProject), s.projects[id]? = some p → p.id = id
  goals : ∀ (id : ℕ) (g : WorkGoal), s.goals[id]? = some g → g.id = id
  tasks : ∀ (id : ℕ) (t : WorkTask), s.tasks[id]? = some t → t.id = id ∧ t.projectId ∈ s.projects
  decisions : ∀ (id : ℕ) (d : WorkDecision), s.decisions[id]? = some d →
    d.id = id ∧ d.projectId ∈ s.projects
  deliveries : ∀ (id : ℕ) (r : WorkDeliveryReceipt), s.deliveries[id]? = some r → r.id = id
  used : ∀ id, 0 < s.uses id → 0 < id ∧ id ≤ s.sequence
  apart : ∀ id, s.uses id ≤ 1
  bounded : s.sequence ≤ u64Max

theorem numbered_empty : WorkStore.empty.Numbered where
  projects id p h := by simp [WorkStore.empty] at h
  goals id g h := by simp [WorkStore.empty] at h
  tasks id t h := by simp [WorkStore.empty] at h
  decisions id d h := by simp [WorkStore.empty] at h
  deliveries id r h := by simp [WorkStore.empty] at h
  used id h := by simp [WorkStore.empty, WorkStore.uses] at h
  apart id := by simp [WorkStore.empty, WorkStore.uses]
  bounded := Nat.zero_le _

/-! ### One operation -/

/-- The references of a project's tasks are rewritten one after the other. -/
theorem rewrites_references {changes : List (WorkTask × GitHubReference)}
    {tasks tasks' : BTreeMap ℕ WorkTask} (h : Rewrites WorkTask.Version tasks tasks')
    (hchanges : ∀ change ∈ changes, tasks[change.1.id]? = some change.1 ∧
      change.1.revision + 1 ≤ u64Max) :
    Rewrites WorkTask.Version tasks (changes.foldl (fun tasks (task, reference) =>
      tasks.insert task.id
        { task with github := some reference, revision := task.revision + 1 }) tasks') := by
  induction changes generalizing tasks' with
  | nil => exact h
  | cons change changes ih =>
    obtain ⟨htask, hmax⟩ := hchanges change List.mem_cons_self
    exact ih (h.insert_over htask
        ⟨rfl, rfl, rfl, rfl, rfl, Nat.le_succ _, le_rfl, le_max_of_le_right hmax⟩)
      fun change' h' => hchanges change' (List.mem_cons_of_mem _ h')

theorem migrateGithubSources_moves {projectId : ℕ} {access : WorkAccess} {s s' : WorkStore} {n : ℕ}
    (hs : s.Numbered) (h : s.migrateGithubSources projectId access = .ok (n, s')) :
    s.Moves K (.migrateGithubSources projectId access) s' := by
  simp only [WorkStore.migrateGithubSources, bind_eq_ok, ensure_eq_ok, exists_unit, pure_eq_ok,
    Prod.mk.injEq] at h
  obtain ⟨p, -, hmax, -, rfl⟩ := h
  refine .tasks (rewrites_references (Rewrites.refl WorkTask.Version.refl _) fun change hchange => ?_)
  refine ⟨?_, hmax change hchange⟩
  obtain ⟨t, ht, hchange⟩ := List.mem_filterMap.mp hchange
  obtain ⟨reference, -, rfl⟩ := Option.map_eq_some_iff.mp hchange
  obtain ⟨id, hid⟩ := mem_values.mp ht
  rw [(hs.tasks id t hid).1]
  exact hid

/-- **One operation** moves the records as it can. -/
theorem step_moves {s : WorkStore} (hs : s.Numbered) (op : WorkOp) : s.Moves K op (s.step K op).2 := by
  cases op with
  | createProject access name requestId =>
    exact .commit K fun _ _ h => createProject_moves h
  | addGoal projectId access title requestId =>
    exact .commit K fun _ _ h => addGoal_moves h
  | addTask access task requestId => exact .commit K fun _ _ h => addTask_moves h
  | recordDecision projectId access text at_ requestId =>
    exact .commit K fun _ _ h => recordDecision_moves h
  | setMember projectId access user present => exact setMember_moves projectId access user present s
  | allowGithubRepository projectId access repository allowed =>
    exact .commit K fun _ _ h => allowGithubRepository_moves h
  | updateTask access id revision status snoozedUntil => exact .commit K fun _ _ h => updateTask_moves h
  | linkGithub taskId revision access reference =>
    exact .commit K fun _ _ h => linkGithub_moves h
  | migrateGithubSources projectId access =>
    exact .commit K fun _ _ h => migrateGithubSources_moves hs h
  | setReminder access id revision remindAt => exact .commit K fun _ _ h => setReminder_moves h
  | snoozeTask access id revision until_ => exact snoozeTask_moves access id revision until_ s
  | configureAutomation scope access policy =>
    exact .commit K fun _ _ h => .settings (configureAutomation_sameRecords h)
  | updateAutomation access update configuredOwner =>
    exact updateAutomation_moves access update configuredOwner s
  | controlPreferences access enabled explicitHour reset =>
    exact .commit K fun _ _ h => .settings (controlPreferences_sameRecords h)
  | feedback access deliveryId feedback correction now =>
    exact .settings (feedback_sameRecords access deliveryId feedback correction now s)
  | reserveBatch access batch now =>
    unfold WorkStore.step numbered WorkStore.reserveBatch
    dsimp only
    split
    · exact .refl K _ s
    · rename_i hpublic
      exact reserveResolvedBatch_moves (.inl ⟨rfl, rfl, hpublic⟩) s
  | reservePrivateBatch access batch dmChannel now =>
    unfold WorkStore.step numbered WorkStore.reservePrivateBatch
    dsimp only
    split_ifs with hprivate
    · exact reserveResolvedBatch_moves (.inr ⟨rfl, hprivate⟩) s
    · exact .refl K _ s
  | settleDelivery id message => exact .commit K fun _ _ h => settleDelivery_moves h
  | markInterruptedDeliveries => exact markInterruptedDeliveries_moves s

/-! ### The numbers along a run -/

/-- What stands in a table with one row more. -/
theorem getElem?_insert_cases {β : Type} {m : BTreeMap ℕ β} {k k' : ℕ} {v w : β}
    (h : (m.insert k v)[k']? = some w) : (k' = k ∧ w = v) ∨ m[k']? = some w := by
  rw [getElem?_insert] at h
  split_ifs at h with heq
  · exact .inl ⟨heq.symm, (Option.some.inj h).symm⟩
  · exact .inr h

/-- The next number stands in no table. -/
theorem uses_next {s : WorkStore} (hs : s.Numbered) : s.uses (s.sequence + 1) = 0 := by
  by_contra hne
  have := (hs.used _ (Nat.pos_of_ne_zero hne)).2
  omega

/-- One row more, under the next number. -/
theorem used_of_next {s s' : WorkStore} (hs : s.Numbered) (hsequence : s'.sequence = s.sequence + 1)
    (huses : ∀ id, s'.uses id = s.uses id + if id = s.sequence + 1 then 1 else 0) :
    (∀ id, 0 < s'.uses id → 0 < id ∧ id ≤ s'.sequence) ∧ ∀ id, s'.uses id ≤ 1 := by
  refine ⟨fun id hid => ?_, fun id => ?_⟩
  · rw [huses] at hid
    split_ifs at hid with heq
    · omega
    · have := hs.used id hid
      omega
  · rw [huses]
    split_ifs with heq
    · rw [heq, uses_next hs]
    · exact hs.apart id

/-- The tables have the rows they had. -/
theorem used_of_same {s s' : WorkStore} (hs : s.Numbered)
    (huses : ∀ id, s'.uses id = s.uses id) (hsequence : s'.sequence = s.sequence) :
    (∀ id, 0 < s'.uses id → 0 < id ∧ id ≤ s'.sequence) ∧ ∀ id, s'.uses id ≤ 1 := by
  refine ⟨fun id hid => ?_, fun id => ?_⟩
  · rw [huses] at hid
    rw [hsequence]
    exact hs.used id hid
  · rw [huses]
    exact hs.apart id

/-- A creation writes one row under the next number. -/
theorem numbered_of_creates {op : WorkOp} {s s' : WorkStore} (hs : s.Numbered)
    (hmax : s.sequence + 1 ≤ u64Max) (h : op.Creates s (s.sequence + 1) s') : s'.Numbered := by
  have hnew := uses_next hs
  have huses : s'.sequence = s.sequence + 1 ∧
      ∀ id, s'.uses id = s.uses id + if id = s.sequence + 1 then 1 else 0 := by
    cases h
    all_goals
      refine ⟨rfl, fun id => ?_⟩
      unfold WorkStore.uses at hnew ⊢
      by_cases heq : id = s.sequence + 1
      · subst heq
        simp only [mem_insert_iff, true_or, if_pos]
        split_ifs at hnew ⊢ <;> omega
      · simp only [mem_insert_iff, heq, Ne.symm heq, false_or, if_false, Nat.add_zero]
  obtain ⟨hused, hapart⟩ := used_of_next hs huses.1 huses.2
  have hbounded : s'.sequence ≤ u64Max := by
    rw [huses.1]
    exact hmax
  cases h with
  | project p access name requestId hop hid =>
    refine { hs with projects := fun id q h => ?_, tasks := fun id t h => ?_,
                     decisions := fun id d h => ?_, used := hused, apart := hapart,
                     bounded := hbounded }
    · rcases getElem?_insert_cases h with ⟨rfl, rfl⟩ | h
      · exact hid
      · exact hs.projects id q h
    · exact ⟨(hs.tasks id t h).1, mem_insert_iff.mpr (.inr (hs.tasks id t h).2)⟩
    · exact ⟨(hs.decisions id d h).1, mem_insert_iff.mpr (.inr (hs.decisions id d h).2)⟩
  | goal g projectId access title requestId hop hid =>
    refine { hs with goals := fun id q h => ?_, used := hused, apart := hapart, bounded := hbounded }
    rcases getElem?_insert_cases h with ⟨rfl, rfl⟩ | h
    · exact hid
    · exact hs.goals id q h
  | task t access given requestId hop hid hproject =>
    refine { hs with tasks := fun id q h => ?_, used := hused, apart := hapart, bounded := hbounded }
    rcases getElem?_insert_cases h with ⟨rfl, rfl⟩ | h
    · exact ⟨hid, hproject⟩
    · exact hs.tasks id q h
  | decision d projectId access text at_ requestId hop hid hproject =>
    refine { hs with decisions := fun id q h => ?_, used := hused, apart := hapart,
                     bounded := hbounded }
    rcases getElem?_insert_cases h with ⟨rfl, rfl⟩ | h
    · exact ⟨hid, hproject⟩
    · exact hs.decisions id q h

/-- A reservation writes one receipt under the next number. -/
theorem numbered_of_reservation {s : WorkStore} {batch : WorkBatch} {r : WorkDeliveryReceipt}
    (hs : s.Numbered) (hmax : s.sequence + 1 ≤ u64Max) (hid : r.id = s.sequence + 1) :
    ({ s with sequence := s.sequence + 1 }.withReservation K batch r).Numbered := by
  have hnew := uses_next hs
  have huses : ∀ id, ({ s with sequence := s.sequence + 1 }.withReservation K batch r).uses id =
      s.uses id + if id = s.sequence + 1 then 1 else 0 := fun id => by
    unfold WorkStore.uses at hnew ⊢
    unfold WorkStore.withReservation
    by_cases heq : id = s.sequence + 1
    · subst heq
      simp only [mem_insert_iff, hid, true_or, if_pos]
      split_ifs at hnew ⊢ <;> omega
    · simp only [mem_insert_iff, hid, heq, Ne.symm heq, false_or, if_false, Nat.add_zero]
  obtain ⟨hused, hapart⟩ := used_of_next hs rfl huses
  exact
    { projects := hs.projects
      goals := hs.goals
      tasks := hs.tasks
      decisions := hs.decisions
      deliveries := fun id q h => by
        rcases getElem?_insert_cases h with ⟨rfl, rfl⟩ | h
        · rfl
        · exact hs.deliveries id q h
      used := hused
      apart := hapart
      bounded := hmax }

theorem numbered_of_moves {op : WorkOp} {s s' : WorkStore} (hs : s.Numbered)
    (h : s.Moves K op s') : s'.Numbered := by
  cases h with
  | settings h =>
    obtain ⟨hsequence, hprojects, hgoals, htasks, hdecisions, hdeliveries, -⟩ := h
    obtain ⟨projects, goals, tasks, decisions, deliveries, used, apart, bounded⟩ := hs
    unfold WorkStore.uses at used apart
    rw [← hprojects] at projects tasks decisions used apart
    rw [← hgoals] at goals used apart
    rw [← htasks] at tasks used apart
    rw [← hdecisions] at decisions used apart
    rw [← hdeliveries] at deliveries used apart
    rw [← hsequence] at used bounded
    exact ⟨projects, goals, tasks, decisions, deliveries, used, apart, bounded⟩
  | @project id₀ p p' hop hp h =>
    have huses : ∀ id, { s with projects := s.projects.insert id₀ p' }.uses id = s.uses id :=
      fun id => by
        unfold WorkStore.uses
        simp only [mem_insert_of_some hp]
    obtain ⟨hused, hapart⟩ := used_of_same hs huses rfl
    refine { hs with projects := fun id q h' => ?_, tasks := fun id t h' => ?_,
                     decisions := fun id d h' => ?_, used := hused, apart := hapart }
    · rcases getElem?_insert_cases h' with ⟨rfl, rfl⟩ | h'
      · exact h.id.trans (hs.projects _ _ hp)
      · exact hs.projects id q h'
    · exact ⟨(hs.tasks id t h').1, (mem_insert_of_some hp).mpr (hs.tasks id t h').2⟩
    · exact ⟨(hs.decisions id d h').1, (mem_insert_of_some hp).mpr (hs.decisions id d h').2⟩
  | @tasks tasks h =>
    have huses : ∀ id, { s with tasks := tasks }.uses id = s.uses id := fun id => by
      unfold WorkStore.uses
      simp only [h.mem_iff]
    obtain ⟨hused, hapart⟩ := used_of_same hs huses rfl
    refine { hs with tasks := fun id t' h' => ?_, used := hused, apart := hapart }
    obtain ⟨t, ht, hversion⟩ := h.back h'
    rw [hversion.id, hversion.projectId]
    exact hs.tasks id t ht
  | @receipts deliveries h =>
    have huses : ∀ id, { s with deliveries := deliveries }.uses id = s.uses id := fun id => by
      unfold WorkStore.uses
      simp only [h.mem_iff]
    obtain ⟨hused, hapart⟩ := used_of_same hs huses rfl
    refine { hs with deliveries := fun id r' h' => ?_, used := hused, apart := hapart }
    obtain ⟨r, hr, hversion⟩ := h.back h'
    rw [show r' = _ from hversion]
    exact hs.deliveries id r hr
  | create hkey hnew hmax h =>
    have hcreated := numbered_of_creates hs hmax h
    exact { hcreated with }
  | reserve hop hnext hproject hmax => exact numbered_of_reservation hs hmax rfl

/-- **The numbers** along every run. -/
theorem numbered_along_run {h : WorkHistory} {s : WorkStore}
    (hrun : Run (WorkStore.step K) .empty h s) : s.Numbered :=
  hrun.invariant numbered_empty fun _ op hs => numbered_of_moves hs (step_moves hs op)

end AbbeyBot.Work.Types
