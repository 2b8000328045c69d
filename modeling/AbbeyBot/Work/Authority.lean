import Mathlib
import AbbeyBot.Work.Learning

/-! # Who changes what

Every operation that writes a record, a profile or a policy carries the access of somebody. Whatever
a run does, a row changes only where the project it is about admits that access, and a shared control
only where every project of its scope does. -/

namespace AbbeyBot.Work.Types

open AbbeyBot.Calendar AbbeyBot.Library.History AbbeyBot.Library.OrderedMap AbbeyBot.Library.Result
open AbbeyBot.Library.Word

variable {K : WorkCrates}

/-- The access an operation is made with; the outcomes of deliveries carry none. -/
def WorkOp.access : WorkOp → Option WorkAccess
  | .createProject access .. | .addGoal _ access .. | .addTask access .. | .recordDecision _ access ..
  | .setMember _ access .. | .allowGithubRepository _ access .. | .updateTask access ..
  | .linkGithub _ _ access .. | .migrateGithubSources _ access | .setReminder access ..
  | .snoozeTask access .. | .configureAutomation _ access .. | .updateAutomation access ..
  | .controlPreferences access .. | .feedback access .. | .reserveBatch access ..
  | .reservePrivateBatch access .. => some access
  | .settleDelivery .. | .markInterruptedDeliveries => none

/-- The project admits the access, as a manager's where one is asked for. -/
def WorkStore.Admits (s : WorkStore) (access : Option WorkAccess) (manager : Bool) (id : ℕ) : Prop :=
  ∃ a ∈ access, ∃ p, s.projects[id]? = some p ∧ p.authorize a manager

/-- The scope has projects, and all of them admit the access. -/
def WorkStore.AdmitsScope (s : WorkStore) (access : Option WorkAccess) (manager : Bool)
    (scope : WorkScope) : Prop :=
  s.projectsOf scope ≠ [] ∧ ∃ a ∈ access, ∀ p ∈ s.projectsOf scope, p.authorize a manager

/-- A project of its creator alone, in the scope of the access. -/
def WorkProject.OwnedBy (p : WorkProject) (access : Option WorkAccess) : Prop :=
  ∃ a ∈ access, p.scope = a.scope ∧ p.managers = {a.actor} ∧ p.members = {a.actor}

/-- What is in the second store is as it was in the first, or the access may write it. -/
structure WorkStore.Permitted (s : WorkStore) (access : Option WorkAccess) (s' : WorkStore) :
    Prop where
  tasks : ∀ (id : ℕ) (t : WorkTask), s'.tasks[id]? = some t →
    s.tasks[id]? = some t ∨ s.Admits access false t.projectId
  goals : ∀ (id : ℕ) (g : WorkGoal), s'.goals[id]? = some g →
    s.goals[id]? = some g ∨ s.Admits access false g.projectId
  decisions : ∀ (id : ℕ) (d : WorkDecision), s'.decisions[id]? = some d →
    s.decisions[id]? = some d ∨ s.Admits access false d.projectId
  projects : ∀ (id : ℕ) (p : WorkProject), s'.projects[id]? = some p →
    s.projects[id]? = some p ∨ s.Admits access true id ∨
      (s.projects[id]? = none ∧ p.OwnedBy access)
  profiles : ∀ scope, s'.profile scope = s.profile scope ∨ s.AdmitsScope access false scope
  policies : ∀ scope : WorkScope, s'.scopeAutomation[scope.key]? = s.scopeAutomation[scope.key]? ∨
    s.AdmitsScope access true scope

theorem WorkStore.Permitted.refl (s : WorkStore) (access : Option WorkAccess) :
    s.Permitted access s where
  tasks _ _ h := .inl h
  goals _ _ h := .inl h
  decisions _ _ h := .inl h
  projects _ _ h := .inl h
  profiles _ := .inl rfl
  policies _ := .inl rfl

theorem permitted_commit {s : WorkStore} {access : Option WorkAccess} {α : Type}
    {r : Except WorkError (α × WorkStore)} (h : ∀ a s', r = .ok (a, s') → s.Permitted access s') :
    s.Permitted access (commit s r).2 :=
  commit_keeps (P := s.Permitted access) (.refl s access) h

/-! ### Projects and their records -/

theorem createProject_permitted {access : WorkAccess} {name requestId : String} {s s' : WorkStore}
    {id : ℕ} (hs : s.Numbered) (h : s.createProject access name requestId = .ok (id, s')) :
    s.Permitted (some access) s' := by
  simp only [WorkStore.createProject, bind_eq_ok, ensure_eq_ok, exists_unit] at h
  obtain ⟨-, -, -, h⟩ := h
  rcases once_ok h with ⟨-, rfl⟩ | ⟨-, -, rfl, rfl⟩
  · exact .refl _ _
  · refine { WorkStore.Permitted.refl s (some access) with projects := fun id p hp => ?_ }
    rcases getElem?_insert_cases hp with ⟨rfl, rfl⟩ | hp
    · refine .inr (.inr ⟨?_, access, rfl, rfl, rfl, rfl⟩)
      -- the next number stands in no table
      by_contra hne
      have hmem : s.sequence + 1 ∈ s.projects :=
        mem_iff.mpr (Option.ne_none_iff_exists'.mp hne)
      have hunused := uses_next hs
      unfold WorkStore.uses at hunused
      rw [if_pos hmem] at hunused
      omega
    · exact .inl hp

theorem addGoal_permitted {projectId : ℕ} {access : WorkAccess} {title requestId : String}
    {s s' : WorkStore} {id : ℕ} (h : s.addGoal projectId access title requestId = .ok (id, s')) :
    s.Permitted (some access) s' := by
  simp only [WorkStore.addGoal, bind_eq_ok, ensure_eq_ok, exists_unit, project_eq_ok] at h
  obtain ⟨p, hp, -, -, h⟩ := h
  rcases once_ok h with ⟨-, rfl⟩ | ⟨-, -, rfl, rfl⟩
  · exact .refl _ _
  · refine { WorkStore.Permitted.refl s (some access) with goals := fun id g hg => ?_ }
    rcases getElem?_insert_cases hg with ⟨rfl, rfl⟩ | hg
    · exact .inr ⟨access, rfl, p, hp⟩
    · exact .inl hg

theorem addTask_permitted {access : WorkAccess} {task : WorkTask} {requestId : String}
    {s s' : WorkStore} {id : ℕ} (h : s.addTask access task requestId = .ok (id, s')) :
    s.Permitted (some access) s' := by
  simp only [WorkStore.addTask, bind_eq_ok, ensure_eq_ok, exists_unit, project_eq_ok] at h
  obtain ⟨p, hp, -, -, h⟩ := h
  rcases once_ok h with ⟨-, rfl⟩ | ⟨-, -, rfl, rfl⟩
  · exact .refl _ _
  · refine { WorkStore.Permitted.refl s (some access) with tasks := fun id t ht => ?_ }
    rcases getElem?_insert_cases ht with ⟨rfl, rfl⟩ | ht
    · exact .inr ⟨access, rfl, p, hp⟩
    · exact .inl ht

theorem recordDecision_permitted {projectId : ℕ} {access : WorkAccess} {text requestId : String}
    {at_ : ℕ} {s s' : WorkStore} {id : ℕ}
    (h : s.recordDecision projectId access text at_ requestId = .ok (id, s')) :
    s.Permitted (some access) s' := by
  simp only [WorkStore.recordDecision, bind_eq_ok, ensure_eq_ok, exists_unit, project_eq_ok] at h
  obtain ⟨p, hp, -, -, h⟩ := h
  rcases once_ok h with ⟨-, rfl⟩ | ⟨-, -, rfl, rfl⟩
  · exact .refl _ _
  · refine { WorkStore.Permitted.refl s (some access) with decisions := fun id d hd => ?_ }
    rcases getElem?_insert_cases hd with ⟨rfl, rfl⟩ | hd
    · exact .inr ⟨access, rfl, p, hp⟩
    · exact .inl hd

/-- One project is replaced, by one of its managers. -/
theorem permitted_insert_project {s : WorkStore} {access : WorkAccess} {id : ℕ} {p p' : WorkProject}
    (hp : s.projects[id]? = some p) (hauth : p.authorize access true) :
    s.Permitted (some access) { s with projects := s.projects.insert id p' } := by
  refine { WorkStore.Permitted.refl s (some access) with projects := fun id' q hq => ?_ }
  rcases getElem?_insert_cases hq with ⟨rfl, rfl⟩ | hq
  · exact .inr (.inl ⟨access, rfl, p, hp, hauth⟩)
  · exact .inl hq

theorem setMember_permitted (projectId : ℕ) (access : WorkAccess) (user : ℕ) (present : Bool)
    (s : WorkStore) : s.Permitted (some access) (s.setMember projectId access user present).2 := by
  unfold WorkStore.setMember
  split
  · exact .refl _ _
  · rename_i p' h
    simp only [bind_eq_ok, managedProject_eq_ok, ensure_eq_ok, exists_unit, pure_eq_ok] at h
    obtain ⟨p, ⟨hp, hauth⟩, -, rfl⟩ := h
    split <;> exact permitted_insert_project hp hauth

theorem allowGithubRepository_permitted {projectId : ℕ} {access : WorkAccess}
    {repository : GitHubRepository} {allowed : Bool} {s s' : WorkStore} {u : Unit}
    (h : s.allowGithubRepository projectId access repository allowed = .ok (u, s')) :
    s.Permitted (some access) s' := by
  simp only [WorkStore.allowGithubRepository, bind_eq_ok, ensure_eq_ok, exists_unit,
    managedProject_eq_ok, pure_eq_ok, Prod.mk.injEq, true_and] at h
  obtain ⟨-, p, ⟨hp, hauth⟩, _, -, rfl⟩ := h
  exact permitted_insert_project hp hauth

/-! ### Changes of a task -/

/-- The tasks have changed in rows of projects that admit the access. -/
theorem permitted_tasks {s : WorkStore} {access : Option WorkAccess} {tasks : BTreeMap ℕ WorkTask}
    (h : ∀ (id : ℕ) (t : WorkTask), tasks[id]? = some t →
      s.tasks[id]? = some t ∨ s.Admits access false t.projectId) :
    s.Permitted access { s with tasks := tasks } :=
  { WorkStore.Permitted.refl s access with tasks := h }

theorem permitted_insert_task {s : WorkStore} {access : Option WorkAccess} {id : ℕ} {t : WorkTask}
    (h : s.Admits access false t.projectId) :
    s.Permitted access { s with tasks := s.tasks.insert id t } := by
  refine permitted_tasks fun id' t' ht' => ?_
  rcases getElem?_insert_cases ht' with ⟨-, rfl⟩ | ht'
  · exact .inr h
  · exact .inl ht'

theorem updateTask_permitted {access : WorkAccess} {id revision next : ℕ} {status : WorkStatus}
    {snoozedUntil : Option ℕ} {s s' : WorkStore}
    (h : s.updateTask access id revision status snoozedUntil = .ok (next, s')) :
    s.Permitted (some access) s' := by
  simp only [WorkStore.updateTask, bind_eq_ok, currentTask_eq_ok, pure_eq_ok, Prod.mk.injEq] at h
  obtain ⟨t, ⟨-, ⟨p, hp⟩, -⟩, _, -, -, rfl⟩ := h
  exact permitted_insert_task ⟨access, rfl, p, hp⟩

theorem linkGithub_permitted {taskId revision : ℕ} {access : WorkAccess}
    {reference : GitHubReference} {s s' : WorkStore} {u : Unit}
    (h : s.linkGithub taskId revision access reference = .ok (u, s')) :
    s.Permitted (some access) s' := by
  simp only [WorkStore.linkGithub, bind_eq_ok, ensure_eq_ok, exists_unit, project_eq_ok, pure_eq_ok,
    Prod.mk.injEq, true_and] at h
  obtain ⟨-, t, -, p, hp, -, -, _, -, rfl⟩ := h
  exact permitted_insert_task ⟨access, rfl, p, hp⟩

theorem setReminder_permitted {access : WorkAccess} {id revision : ℕ} {remindAt : Option ℕ}
    {s s' : WorkStore} {u : Unit} (h : s.setReminder access id revision remindAt = .ok (u, s')) :
    s.Permitted (some access) s' := by
  simp only [WorkStore.setReminder, bind_eq_ok, currentTask_eq_ok, ensure_eq_ok, exists_unit] at h
  obtain ⟨t, ⟨-, ⟨p, hp⟩, -⟩, -, h⟩ := h
  split_ifs at h
  · simp only [pure_eq_ok, Prod.mk.injEq, true_and] at h
    rw [← h]
    exact .refl _ _
  · simp only [bind_eq_ok, pure_eq_ok, Prod.mk.injEq, true_and] at h
    obtain ⟨_, -, _, -, rfl⟩ := h
    exact permitted_insert_task ⟨access, rfl, p, hp⟩

/-- A snooze changes one task, once or twice. -/
theorem snoozeTask_permitted (access : WorkAccess) (id revision until_ : ℕ) (s : WorkStore) :
    s.Permitted (some access) (s.snoozeTask access id revision until_).2 := by
  unfold WorkStore.snoozeTask
  split
  · exact .refl _ _
  · rename_i t next s₁ h
    simp only [bind_eq_ok, utc_eq_ok, currentTask_eq_ok, ensure_eq_ok, exists_unit, pure_eq_ok,
      Prod.exists, Prod.mk.injEq] at h
    obtain ⟨-, t', -, -, -, -, next', s', hupdate, rfl, rfl, rfl⟩ := h
    have hauth := updateTask_permitted hupdate
    split_ifs
    · refine commit_keeps (P := s.Permitted (some access)) hauth fun u s'' h'' => ?_
      have hagain := setReminder_permitted h''
      have hprojects : s'.projects = s.projects := by rw [(updateTask_rewrites hupdate).2]
      rw [(setReminder_rewrites h'').2, (updateTask_rewrites hupdate).2]
      refine permitted_tasks fun id' t'' ht'' => ?_
      rcases hagain.tasks id' t'' ht'' with ht' | ⟨a, ha, p, hp, hadmits⟩
      · exact hauth.tasks id' t'' ht'
      · rw [hprojects] at hp
        exact .inr ⟨a, ha, p, hp, hadmits⟩
    · exact hauth

/-- The tasks of one project take up their references. -/
theorem references_permitted {s : WorkStore} {access : Option WorkAccess} {projectId : ℕ}
    (hadmits : s.Admits access false projectId) {changes : List (WorkTask × GitHubReference)}
    (hchanges : ∀ change ∈ changes, change.1.projectId = projectId) {tasks : BTreeMap ℕ WorkTask}
    (h : ∀ (id : ℕ) (t : WorkTask), tasks[id]? = some t →
      s.tasks[id]? = some t ∨ s.Admits access false t.projectId) :
    ∀ (id : ℕ) (t : WorkTask), (changes.foldl (fun tasks (task, reference) =>
      tasks.insert task.id { task with github := some reference, revision := task.revision + 1 })
        tasks)[id]? = some t → s.tasks[id]? = some t ∨ s.Admits access false t.projectId := by
  induction changes generalizing tasks with
  | nil => exact h
  | cons change changes ih =>
    refine ih (fun change' h' => hchanges change' (List.mem_cons_of_mem _ h')) fun id t ht => ?_
    rcases getElem?_insert_cases ht with ⟨-, rfl⟩ | ht
    · refine .inr ?_
      dsimp only
      rw [hchanges change List.mem_cons_self]
      exact hadmits
    · exact h id t ht

theorem authorize_of_manager {p : WorkProject} {access : WorkAccess} (h : p.authorize access true) :
    p.authorize access false := ⟨h.1, h.2.1, h.2.2.1, fun hf => absurd hf Bool.false_ne_true⟩

theorem migrateGithubSources_permitted {projectId : ℕ} {access : WorkAccess} {s s' : WorkStore}
    {n : ℕ} (h : s.migrateGithubSources projectId access = .ok (n, s')) :
    s.Permitted (some access) s' := by
  simp only [WorkStore.migrateGithubSources, bind_eq_ok, managedProject_eq_ok, ensure_eq_ok,
    exists_unit, pure_eq_ok, Prod.mk.injEq] at h
  obtain ⟨p, ⟨hp, hauth⟩, -, -, rfl⟩ := h
  refine permitted_tasks (references_permitted
    ⟨access, rfl, p, hp, authorize_of_manager hauth⟩ (fun change hchange => ?_) fun _ _ ht => .inl ht)
  obtain ⟨t, -, hchange⟩ := List.mem_filterMap.mp hchange
  obtain ⟨reference, hreference, rfl⟩ := Option.map_eq_some_iff.mp hchange
  unfold WorkTask.legacyReference at hreference
  split_ifs at hreference with hlegacy
  exact hlegacy.1

/-! ### Profiles and policies -/

theorem admitsScope_of_scopeProjects {s : WorkStore} {scope : WorkScope} {access : WorkAccess}
    {manager : Bool} {ps : List WorkProject} (h : s.scopeProjects scope access manager = .ok ps) :
    s.AdmitsScope (some access) manager scope :=
  have h' := scopeProjects_eq_ok.mp h
  ⟨h'.1, access, rfl, h'.2.1⟩

theorem configureAutomation_permitted {scope : WorkScope} {access : WorkAccess}
    {policy : WorkAutomationPolicy} {s s' : WorkStore} {u : Unit}
    (h : s.configureAutomation K scope access policy = .ok (u, s')) :
    s.Permitted (some access) s' := by
  simp only [WorkStore.configureAutomation, bind_eq_ok, ensure_eq_ok, exists_unit, pure_eq_ok,
    Prod.mk.injEq, true_and] at h
  obtain ⟨_, hadmits, -, -, -, _, -, rfl⟩ := h
  refine { WorkStore.Permitted.refl s (some access) with policies := fun scope' => ?_ }
  dsimp only
  rw [getElem?_insert]
  by_cases hscope : scope = scope'
  · rw [← hscope]
    exact .inr (admitsScope_of_scopeProjects hadmits)
  · rw [if_neg fun hkey => hscope (FollowUp.key_injective hkey)]
    exact .inl rfl

/-- One profile is replaced, in a scope that admits the access. -/
theorem permitted_withProfile {s : WorkStore} {access : Option WorkAccess} {scope : WorkScope}
    (hadmits : s.AdmitsScope access false scope) (p : WorkPreferenceProfile) :
    s.Permitted access (s.withProfile scope p) := by
  refine { WorkStore.Permitted.refl s access with profiles := fun scope' => ?_ }
  rw [profile_withProfile]
  split_ifs with hscope
  · rw [← hscope]
    exact .inr hadmits
  · exact .inl rfl

theorem controlPreferences_permitted {access : WorkAccess} {enabled : Option Bool}
    {explicitHour : Option (Option ℕ)} {reset : Bool} {s s' : WorkStore} {u : Unit}
    (h : s.controlPreferences access enabled explicitHour reset = .ok (u, s')) :
    s.AdmitsScope (some access) false access.scope ∧ s.Permitted (some access) s' := by
  have hs' := controlPreferences_ok h
  simp only [WorkStore.controlPreferences, bind_eq_ok] at h
  obtain ⟨_, hmanaged, -⟩ := h
  obtain ⟨hsome, a, ha, hall⟩ := admitsScope_of_scopeProjects hmanaged
  have hadmits : s.AdmitsScope (some access) false access.scope :=
    ⟨hsome, a, ha, fun p hp => authorize_of_manager (hall p hp)⟩
  rw [hs']
  exact ⟨hadmits, permitted_withProfile hadmits _⟩

theorem feedback_permitted (access : WorkAccess) (deliveryId : ℕ)
    (feedback : Option WorkFeedback) (correction : Bool) (now : ℕ) (s : WorkStore) :
    s.Permitted (some access) (s.feedback access deliveryId feedback correction now).2 := by
  unfold WorkStore.feedback
  split
  · exact .refl _ _
  · rename_i receipt hreceipt
    simp only [WorkStore.feedbackReceipt, bind_eq_ok] at hreceipt
    obtain ⟨_, hscope, -⟩ := hreceipt
    have hadmits := admitsScope_of_scopeProjects hscope
    have htwice : ∀ p, s.Permitted (some access)
        ((s.withProfile access.scope (s.profile access.scope)).withProfile access.scope p) := by
      intro p
      refine { WorkStore.Permitted.refl s (some access) with profiles := fun scope => ?_ }
      rw [profile_withProfile, profile_withProfile]
      split_ifs with heq
      · rw [← heq]
        exact .inr hadmits
      · exact .inl rfl
    dsimp only
    split_ifs
    · split
      · exact permitted_withProfile hadmits _
      · exact htwice _
    · split
      · exact permitted_withProfile hadmits _
      · split
        · exact permitted_withProfile hadmits _
        · exact htwice _

theorem updateAutomation_permitted (access : WorkAccess) (update : WorkAutomationUpdate)
    (configuredOwner : Option String) (s : WorkStore) :
    s.Permitted (some access) (s.updateAutomation K access update configuredOwner).2 := by
  unfold WorkStore.updateAutomation
  split
  · exact .refl _ _
  · rename_i s' h
    simp only [bind_eq_ok] at h
    obtain ⟨-, -, policy, -, policy', -, hconfigure⟩ := h
    have hauth := configureAutomation_permitted hconfigure
    have hsame := configureAutomation_sameRecords hconfigure
    split
    · refine commit_keeps (P := s.Permitted (some access)) hauth fun u s'' h'' => ?_
      have hadmits := (controlPreferences_permitted h'').1
      have hscopes : ∀ scope, s'.projectsOf scope = s.projectsOf scope := fun scope => by
        unfold WorkStore.projectsOf
        rw [hsame.projects]
      unfold WorkStore.AdmitsScope at hadmits
      rw [hscopes] at hadmits
      rw [controlPreferences_ok h'']
      refine { hauth with profiles := fun scope => ?_ }
      rw [profile_withProfile]
      split_ifs with heq
      · rw [← heq]
        exact .inr hadmits
      · exact hauth.profiles scope
    · exact hauth

/-! ### Runs -/

/-- A reservation writes a receipt, and changes no record. -/
theorem reserveResolvedBatch_permitted (access : WorkAccess) (batch : WorkBatch) (channel now : ℕ)
    (s : WorkStore) : s.Permitted (some access)
      (s.reserveResolvedBatch K access batch channel now).2 := by
  unfold WorkStore.reserveResolvedBatch
  split
  · exact .refl _ _
  · rename_i id s' h
    simp only [bind_eq_ok, ensure_eq_ok, exists_unit, nextId_eq_ok] at h
    obtain ⟨_, -, -, -, -, -, rfl, rfl⟩ := h
    split <;> exact { WorkStore.Permitted.refl s (some access) with }

/-- **One operation** changes what its access has authority over. -/
theorem step_permitted {s : WorkStore} (hs : s.Numbered) (op : WorkOp) :
    s.Permitted op.access (s.step K op).2 := by
  cases op with
  | createProject access name requestId =>
    exact permitted_commit fun _ _ h => createProject_permitted hs h
  | addGoal projectId access title requestId =>
    exact permitted_commit fun _ _ h => addGoal_permitted h
  | addTask access task requestId => exact permitted_commit fun _ _ h => addTask_permitted h
  | recordDecision projectId access text at_ requestId =>
    exact permitted_commit fun _ _ h => recordDecision_permitted h
  | setMember projectId access user present =>
    exact setMember_permitted projectId access user present s
  | allowGithubRepository projectId access repository allowed =>
    exact permitted_commit fun _ _ h => allowGithubRepository_permitted h
  | updateTask access id revision status snoozedUntil =>
    exact permitted_commit fun _ _ h => updateTask_permitted h
  | linkGithub taskId revision access reference =>
    exact permitted_commit fun _ _ h => linkGithub_permitted h
  | migrateGithubSources projectId access =>
    exact permitted_commit fun _ _ h => migrateGithubSources_permitted h
  | setReminder access id revision remindAt =>
    exact permitted_commit fun _ _ h => setReminder_permitted h
  | snoozeTask access id revision until_ => exact snoozeTask_permitted access id revision until_ s
  | configureAutomation scope access policy =>
    exact permitted_commit fun _ _ h => configureAutomation_permitted h
  | updateAutomation access update configuredOwner =>
    exact updateAutomation_permitted access update configuredOwner s
  | controlPreferences access enabled explicitHour reset =>
    exact permitted_commit fun _ _ h => (controlPreferences_permitted h).2
  | feedback access deliveryId feedback correction now =>
    exact feedback_permitted access deliveryId feedback correction now s
  | reserveBatch access batch now =>
    unfold WorkStore.step numbered WorkStore.reserveBatch
    dsimp only
    split
    · exact .refl _ _
    · exact reserveResolvedBatch_permitted access batch _ now s
  | reservePrivateBatch access batch dmChannel now =>
    unfold WorkStore.step numbered WorkStore.reservePrivateBatch
    dsimp only
    split_ifs
    · exact reserveResolvedBatch_permitted access batch dmChannel now s
    · exact .refl _ _
  | settleDelivery id message =>
    refine permitted_commit (r := s.settleDelivery id message) fun u s' h => ?_
    simp only [WorkStore.settleDelivery, bind_eq_ok, orErr_eq_ok, ensure_eq_ok, exists_unit,
      pure_eq_ok, Prod.mk.injEq, true_and] at h
    obtain ⟨r, -, -, rfl⟩ := h
    exact { WorkStore.Permitted.refl s none with }
  | markInterruptedDeliveries => exact { WorkStore.Permitted.refl s none with }

/-! ### What is kept -/

/-- No row is lost: goals and decisions stay as they are, a task stays in its project, and a project in
its scope and under its managers. -/
structure WorkStore.LosesNone (s s' : WorkStore) : Prop where
  tasks : ∀ (id : ℕ) (t : WorkTask), s.tasks[id]? = some t →
    ∃ t', s'.tasks[id]? = some t' ∧ t'.projectId = t.projectId
  goals : ∀ (id : ℕ) (g : WorkGoal), s.goals[id]? = some g → s'.goals[id]? = some g
  decisions : ∀ (id : ℕ) (d : WorkDecision), s.decisions[id]? = some d → s'.decisions[id]? = some d
  projects : ∀ (id : ℕ) (p : WorkProject), s.projects[id]? = some p →
    ∃ p', s'.projects[id]? = some p' ∧ p'.scope = p.scope ∧ p'.managers = p.managers

theorem WorkStore.LosesNone.refl (s : WorkStore) : s.LosesNone s where
  tasks _ t h := ⟨t, h, rfl⟩
  goals _ _ h := h
  decisions _ _ h := h
  projects _ p h := ⟨p, h, rfl, rfl⟩

theorem getElem?_insert_new {β : Type} {m : BTreeMap ℕ β} {k : ℕ} {v : β} (hk : k ∉ m) (id : ℕ) (w : β)
    (h : m[id]? = some w) : (m.insert k v)[id]? = some w := by
  rw [getElem?_insert, if_neg]
  · exact h
  · rintro rfl
    exact hk (mem_iff.mpr ⟨w, h⟩)

/-- A record that is created takes the place of none. -/
theorem losesNone_of_creates {op : WorkOp} {s s' : WorkStore} (hs : s.Numbered)
    (h : op.Creates s (s.sequence + 1) s') : s.LosesNone s' := by
  have hunused := uses_next hs
  unfold WorkStore.uses at hunused
  have hkeeps := WorkStore.LosesNone.refl s
  cases h with
  | project =>
    have hfree : s.sequence + 1 ∉ s.projects := fun hmem => by
      rw [if_pos hmem] at hunused
      omega
    exact { hkeeps with projects := fun id p hp =>
      ⟨p, getElem?_insert_new hfree id p hp, rfl, rfl⟩ }
  | goal =>
    have hfree : s.sequence + 1 ∉ s.goals := fun hmem => by
      rw [if_pos hmem] at hunused
      omega
    exact { hkeeps with goals := getElem?_insert_new hfree }
  | task =>
    have hfree : s.sequence + 1 ∉ s.tasks := fun hmem => by
      rw [if_pos hmem] at hunused
      omega
    exact { hkeeps with tasks := fun id t ht => ⟨t, getElem?_insert_new hfree id t ht, rfl⟩ }
  | decision =>
    have hfree : s.sequence + 1 ∉ s.decisions := fun hmem => by
      rw [if_pos hmem] at hunused
      omega
    exact { hkeeps with decisions := getElem?_insert_new hfree }

/-- No operation loses a row. -/
theorem losesNone_of_moves {op : WorkOp} {s s' : WorkStore} (hs : s.Numbered) (h : s.Moves K op s') :
    s.LosesNone s' := by
  have hkeeps := WorkStore.LosesNone.refl s
  cases h with
  | settings h =>
    exact ⟨h.tasks.symm ▸ hkeeps.tasks, h.goals.symm ▸ hkeeps.goals,
      h.decisions.symm ▸ hkeeps.decisions, h.projects.symm ▸ hkeeps.projects⟩
  | @project id p p' _ hp hversion =>
    refine { hkeeps with projects := fun id' q hq => ?_ }
    dsimp only
    rw [getElem?_insert]
    split_ifs with hid
    · subst hid
      rw [hp] at hq
      cases hq
      exact ⟨p', rfl, hversion.scope, hversion.managers⟩
    · exact ⟨q, hq, rfl, rfl⟩
  | tasks hrewrites =>
    refine { hkeeps with tasks := fun id t ht => ?_ }
    obtain ⟨t', ht', hversion⟩ := hrewrites.forward ht
    exact ⟨t', ht', hversion.projectId⟩
  | receipts => exact { hkeeps with }
  | create _ _ _ hcreates => exact { losesNone_of_creates hs hcreates with }
  | reserve => exact { hkeeps with }

/-! ### Authority -/

/-- What has changed between two stores was changed with the authority of the access: each row of the
first is still there, as it was unless its project admits the access; a row that is new is in a project
that admits it, and a new project is its creator's alone; goals and decisions never change. -/
structure WorkStore.Authorized (s : WorkStore) (access : Option WorkAccess) (s' : WorkStore) :
    Prop where
  tasks : ∀ (id : ℕ) (t : WorkTask), s.tasks[id]? = some t → ∃ t', s'.tasks[id]? = some t' ∧
    t'.projectId = t.projectId ∧ (t' = t ∨ s.Admits access false t.projectId)
  newTasks : ∀ (id : ℕ) (t : WorkTask), s.tasks[id]? = none → s'.tasks[id]? = some t →
    s.Admits access false t.projectId
  goals : ∀ (id : ℕ) (g : WorkGoal), s.goals[id]? = some g → s'.goals[id]? = some g
  newGoals : ∀ (id : ℕ) (g : WorkGoal), s.goals[id]? = none → s'.goals[id]? = some g →
    s.Admits access false g.projectId
  decisions : ∀ (id : ℕ) (d : WorkDecision), s.decisions[id]? = some d → s'.decisions[id]? = some d
  newDecisions : ∀ (id : ℕ) (d : WorkDecision), s.decisions[id]? = none →
    s'.decisions[id]? = some d → s.Admits access false d.projectId
  projects : ∀ (id : ℕ) (p : WorkProject), s.projects[id]? = some p → ∃ p',
    s'.projects[id]? = some p' ∧ p'.scope = p.scope ∧ p'.managers = p.managers ∧
      (p' = p ∨ s.Admits access true id)
  newProjects : ∀ (id : ℕ) (p : WorkProject), s.projects[id]? = none →
    s'.projects[id]? = some p → p.OwnedBy access
  profiles : ∀ scope, s'.profile scope = s.profile scope ∨ s.AdmitsScope access false scope
  policies : ∀ scope : WorkScope, s'.scopeAutomation[scope.key]? = s.scopeAutomation[scope.key]? ∨
    s.AdmitsScope access true scope

theorem authorized_of_permitted {s s' : WorkStore} {access : Option WorkAccess}
    (hkeeps : s.LosesNone s') (h : s.Permitted access s') : s.Authorized access s' where
  tasks id t ht := by
    obtain ⟨t', ht', hproject⟩ := hkeeps.tasks id t ht
    refine ⟨t', ht', hproject, ?_⟩
    rcases h.tasks id t' ht' with hold | hadmits
    · rw [ht] at hold
      exact .inl (Option.some.inj hold).symm
    · exact .inr (hproject ▸ hadmits)
  newTasks id t hnone ht := (h.tasks id t ht).resolve_left fun hold => by simp [hnone] at hold
  goals := hkeeps.goals
  newGoals id g hnone hg := (h.goals id g hg).resolve_left fun hold => by simp [hnone] at hold
  decisions := hkeeps.decisions
  newDecisions id d hnone hd :=
    (h.decisions id d hd).resolve_left fun hold => by simp [hnone] at hold
  projects id p hp := by
    obtain ⟨p', hp', hscope, hmanagers⟩ := hkeeps.projects id p hp
    refine ⟨p', hp', hscope, hmanagers, ?_⟩
    rcases h.projects id p' hp' with hold | hadmits | ⟨hnone, -⟩
    · rw [hp] at hold
      exact .inl (Option.some.inj hold).symm
    · exact .inr hadmits
    · rw [hp] at hnone
      cases hnone
  newProjects id p hnone hp := by
    rcases h.projects id p hp with hold | ⟨a, ha, q, hq, -⟩ | ⟨-, howned⟩
    · rw [hnone] at hold
      cases hold
    · rw [hnone] at hq
      cases hq
    · exact howned
  profiles := h.profiles
  policies := h.policies

/-- **Authority** along every run: each event leaves every task, goal, decision and project in its
place, every task as it was unless its project admits the access of the operation, every project as it
was unless a manager changes it; what is new is in a project that admits the access, or a project that
is its creator's alone; and every profile and policy is as it was unless all projects of the scope
admit the access, for a policy as a manager's. -/
theorem changes_authorized {h : WorkHistory} {s : WorkStore}
    (hrun : Run (WorkStore.step K) .empty h s)
    {e : Event WorkStore WorkOp (Except WorkError (Option ℕ))} (he : e ∈ h) :
    e.before.Authorized e.op.access e.after := by
  obtain ⟨h₁, h₂, rfl⟩ := List.append_of_mem he
  have hs := numbered_along_run hrun.earlier
  rw [hrun.event_eq he]
  exact authorized_of_permitted (losesNone_of_moves hs (step_moves (K := K) hs e.op))
    (step_permitted hs e.op)

/-- A stranger edits the task. -/
def strangerEdits : List WorkOp :=
  [.createProject sampleAccess "Plan" "a", .addTask sampleAccess sampleTask "t",
    .updateTask { sampleAccess with actor := 9 } 2 0 .done none]

/-- The task is there before, and as it was after. -/
theorem strangerEdits_authorized :
    ((play (WorkStore.step sampleCrates) .empty strangerEdits).1.get
      ⟨0, by decide⟩).before.tasks.size = 1 ∧
    ((play (WorkStore.step sampleCrates) .empty strangerEdits).1.get ⟨0, by decide⟩).before.Authorized
      (some { sampleAccess with actor := 9 })
      ((play (WorkStore.step sampleCrates) .empty strangerEdits).1.get ⟨0, by decide⟩).after :=
  ⟨by decide +kernel, changes_authorized (run_play _ strangerEdits) (List.get_mem _ _)⟩

end AbbeyBot.Work.Types
