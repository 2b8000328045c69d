import Mathlib
import AbbeyBot.Work.Authority
import AbbeyBot.Work.Once
import AbbeyBot.Work.Rendering

/-! # The revisions of a reserved batch

A batch is checked again before it is sent. The check compares the revisions of the tasks that were
open when the batch was planned; a report of changes can name tasks that were done or cancelled, and
their revisions are not compared. -/

namespace AbbeyBot.Work.Types

open AbbeyBot.Calendar AbbeyBot.Library.CivilDate AbbeyBot.Library.History
open AbbeyBot.Library.OrderedMap AbbeyBot.Library.Result
open AbbeyBot.Library.Word

variable {K : WorkCrates}

/-- The task of a reference is there in the revision that is named. -/
def WorkStore.InRevision (s : WorkStore) : WorkContentRef → Prop
  | .task _ id revision => ∃ t ∈ s.tasks[id]?, t.revision = revision
  | .decision _ _ _ => True

instance (s : WorkStore) (r : WorkContentRef) : Decidable (s.InRevision r) :=
  match r with
  | .task _ _ _ => inferInstanceAs (Decidable (∃ _ ∈ _, _))
  | .decision _ _ _ => inferInstanceAs (Decidable True)

/-- What passes the check before a send is what the batch was rendered from, in every store that is
reached after the reservation. -/
def WorkBatch.StaysFresh (K : WorkCrates) (batch : WorkBatch) (s : WorkStore) : Prop :=
  ∀ (h : WorkHistory) (s' : WorkStore) (access : WorkAccess) (now : ℕ),
    Run (WorkStore.step K) s h s' → s'.validateReservedBatch K access batch now = .ok () →
    ∀ r ∈ batch.contentRefs, s'.InRevision r

/-- The reference is to a task that is open and not snoozed. -/
def WorkStore.RefOpen (s : WorkStore) (scope : WorkScope) (now : ℕ) (r : WorkContentRef) : Prop :=
  ∃ t ∈ s.openTasks scope now, t.ref = r

/-- Every task that the batch names is open and not snoozed. -/
def WorkStore.NamesOpen (s : WorkStore) (batch : WorkBatch) (now : ℕ) : Prop :=
  ∀ project id revision, .task project id revision ∈ batch.contentRefs →
    s.RefOpen batch.scope now (.task project id revision)

/-! ### Reservations -/

theorem reserves_ok {s s₁ : WorkStore} {op : WorkOp} {access : WorkAccess} {batch : WorkBatch}
    {channel now id : ℕ} (hop : op.Reserves access batch channel now)
    (hstep : s.step K op = (.ok (some id), s₁)) :
    s.nextBatch K batch.scope access now = .ok (some batch) ∧
      s₁.tasks = s.tasks ∧ s₁.projects = s.projects ∧ s₁.scopeAutomation = s.scopeAutomation ∧
      s₁.scopeAutomationActors = s.scopeAutomationActors := by
  obtain ⟨hnext, project, rfl⟩ := reserved_as hop hstep
  exact ⟨hnext, rfl, rfl, rfl, rfl⟩

/-- A plan names the open tasks of its text with their revisions. -/
structure WorkStore.Freezes (K : WorkCrates) (s : WorkStore) (scope : WorkScope)
    (access : WorkAccess) (now : ℕ) (batch : WorkBatch) (policy : WorkAutomationPolicy)
    (tz : K.Tz) : Prop where
  same : batch.policy = policy
  projects : batch.projectRevisions = (s.projectsOf scope).map fun p => (p.id, p.revision)
  localDay : batch.localDay = format (localDay K.toZones tz now)
  taskIds : ∀ id, id ∈ batch.taskIds ↔ ∃ r ∈ batch.contentRefs, r.taskId = some id
  revisions : batch.revisions = ((s.openTasks scope now).filter fun t => t.id ∈ batch.taskIds).map
    fun t => (t.id, t.revision)

theorem freezes_of_nextBatch {s : WorkStore} {scope : WorkScope} {access : WorkAccess} {now : ℕ}
    {batch : WorkBatch} (h : s.nextBatch K scope access now = .ok (some batch)) :
    ∃ policy profile tz destination target,
      s.Planned K scope access now policy profile tz destination target ∧
      s.Freezes K scope access now batch policy tz := by
  obtain ⟨plan, body, provenance, hplan, -, rfl⟩ := nextBatch_ok h
  obtain ⟨policy, profile, tz, destination, target, hplanned, hplan⟩ := planBatch_ok hplan
  obtain ⟨occurrenceDay, briefing, -, -, -, rfl⟩ := plan_ok hplan
  refine ⟨policy, profile, tz, destination, target, hplanned, rfl, rfl, rfl, fun id => ?_, rfl⟩
  unfold WorkStore.planFor
  dsimp only
  simp only [List.mem_filterMap, List.mem_toFinset]

/-! ### What the check compares -/

theorem validateReservedBatch_ok {s : WorkStore} {access : WorkAccess} {batch : WorkBatch} {now : ℕ}
    (h : s.validateReservedBatch K access batch now = .ok ()) :
    ∀ row ∈ batch.revisions, ∃ t ∈ s.tasks[row.1]?, t.revision = row.2 := by
  simp only [WorkStore.validateReservedBatch, bind_eq_ok, ensure_eq_ok, exists_unit] at h
  obtain ⟨_, -, ⟨-, -, -, -, hrows⟩, -⟩ := h
  exact hrows

/-- A reference to a task that was open is compared. -/
theorem inRevision_of_open {s s' : WorkStore} {scope : WorkScope} {access access' : WorkAccess}
    {now now' : ℕ} {batch : WorkBatch} (hnext : s.nextBatch K scope access now = .ok (some batch))
    (hvalid : s'.validateReservedBatch K access' batch now' = .ok ()) {r : WorkContentRef}
    (hr : r ∈ batch.contentRefs) (hopen : s.RefOpen scope now r) : s'.InRevision r := by
  obtain ⟨policy, _, tz, _, _, -, hfreezes⟩ := freezes_of_nextBatch hnext
  obtain ⟨t, ht, rfl⟩ := hopen
  refine validateReservedBatch_ok hvalid (t.id, t.revision) ?_
  rw [hfreezes.revisions]
  refine List.mem_map.mpr ⟨t, List.mem_filter.mpr ⟨ht, ?_⟩, rfl⟩
  exact decide_eq_true ((hfreezes.taskIds t.id).mpr ⟨t.ref, hr, rfl⟩)

/-! ### What it leaves out -/

/-- A batch names records of its scope. -/
theorem mem_contentRefs_of_nextBatch {s : WorkStore} {scope : WorkScope} {access : WorkAccess}
    {now : ℕ} {batch : WorkBatch} (h : s.nextBatch K scope access now = .ok (some batch))
    {r : WorkContentRef} (hr : r ∈ batch.contentRefs) : r ∈ s.contentRefs scope := by
  obtain ⟨plan, body, provenance, hplan, -, rfl⟩ := nextBatch_ok h
  obtain ⟨policy, profile, tz, destination, target, -, hplan⟩ := planBatch_ok hplan
  obtain ⟨occurrenceDay, briefing, -, -, -, rfl⟩ := plan_ok hplan
  have hshown := mem_ordered.mp (List.mem_of_mem_take (List.mem_toFinset.mp hr))
  unfold shown at hshown
  split_ifs at hshown
  · exact absurd hshown (Finset.notMem_empty r)
  · unfold WorkStore.changes at hshown
    split at hshown
    · exact absurd hshown (Finset.notMem_empty r)
    · exact (Finset.mem_sdiff.mp (Finset.mem_filter.mp hshown).1).1
  · obtain ⟨t, ht, rfl⟩ := List.mem_map.mp (List.mem_toFinset.mp hshown)
    obtain ⟨htask, hopen⟩ := List.mem_filter.mp (List.mem_filter.mp ht).1
    refine List.mem_toFinset.mpr (List.mem_append_left _ (List.mem_map.mpr ⟨t, ?_, rfl⟩))
    exact List.mem_filter.mpr ⟨htask, decide_eq_true (of_decide_eq_true hopen).1⟩

/-- The project of a task that is named is one of the scope. -/
theorem project_of_mem_contentRefs {s : WorkStore} (hs : s.Numbered) {scope : WorkScope}
    {project id revision : ℕ} (hr : .task project id revision ∈ s.contentRefs scope) :
    ∃ p ∈ s.projectsOf scope, s.projects[project]? = some p := by
  unfold WorkStore.contentRefs at hr
  rw [List.mem_toFinset, List.mem_append] at hr
  rcases hr with hr | hr
  · obtain ⟨t, ht, href⟩ := List.mem_map.mp hr
    injection href with hproject
    have hscope := of_decide_eq_true (List.mem_filter.mp ht).2
    rw [hproject] at hscope
    obtain ⟨p, hp, rfl⟩ := List.mem_map.mp hscope
    obtain ⟨key, hkey⟩ := mem_values.mp (List.mem_filter.mp hp).1
    refine ⟨p, hp, ?_⟩
    rw [hs.projects key p hkey]
    exact hkey
  · obtain ⟨d, -, href⟩ := List.mem_map.mp hr
    cases href

/-- The edit of a task. -/
theorem step_updateTask {s : WorkStore} {access : WorkAccess} {id : ℕ} {t : WorkTask} {p : WorkProject}
    (ht : s.tasks[id]? = some t) (hp : s.projects[t.projectId]? = some p)
    (hauth : p.authorize access false) (hmax : t.revision < u64Max) :
    (s.step K (.updateTask access id t.revision .open none)).2 = { s with
      tasks := s.tasks.insert id
        { t with status := .open, snoozedUntil := none, revision := t.revision + 1 } } := by
  have hupdate : s.updateTask access id t.revision .open none = .ok (t.revision + 1, { s with
      tasks := s.tasks.insert id
        { t with status := .open, snoozedUntil := none, revision := t.revision + 1 } }) := by
    simp only [WorkStore.updateTask, bind_eq_ok, currentTask_eq_ok, orErr_eq_ok, checkedAdd_eq_some,
      pure_eq_ok]
    exact ⟨t, ⟨ht, ⟨p, hp, hauth⟩, rfl⟩, t.revision + 1, ⟨rfl, hmax⟩, rfl⟩
  unfold WorkStore.step numbered
  dsimp only
  rw [hupdate]
  rfl

/-- The edit of a task that was not open passes the check. -/
theorem stale_of_closed {s s₁ : WorkStore} (hs : s.Numbered) {access : WorkAccess} {now : ℕ}
    {batch : WorkBatch} (hnext : s.nextBatch K batch.scope access now = .ok (some batch))
    (htasks : s₁.tasks = s.tasks) (hprojects : s₁.projects = s.projects)
    (hautomation : s₁.scopeAutomation = s.scopeAutomation)
    (hactors : s₁.scopeAutomationActors = s.scopeAutomationActors) {project id revision : ℕ}
    (hr : .task project id revision ∈ batch.contentRefs) (hmax : revision < u64Max)
    (hclosed : ¬ s.RefOpen batch.scope now (.task project id revision)) :
    (s₁.step K (.updateTask access id revision .open none)).2.validateReservedBatch K access batch
        now = .ok () ∧
      ¬ (s₁.step K (.updateTask access id revision .open none)).2.InRevision
        (.task project id revision) := by
  obtain ⟨policy, profile, tz, destination, target, hplanned, hfreezes⟩ := freezes_of_nextBatch hnext
  have hmem := mem_contentRefs_of_nextBatch hnext hr
  obtain ⟨t, ht, rfl, rfl⟩ := current_of_mem_contentRefs hs hmem
  obtain ⟨p, hpscope, hp⟩ := project_of_mem_contentRefs hs hmem
  rw [step_updateTask (htasks ▸ ht) (hprojects ▸ hp)
    (authorize_of_manager (hplanned.authorized p hpscope)) hmax]
  constructor
  · simp only [WorkStore.validateReservedBatch, bind_eq_ok, ensure_eq_ok, exists_unit,
      scopeProjects_eq_ok, orErr_eq_ok, utc_eq_ok]
    unfold WorkStore.projectsOf
    dsimp only
    rw [hprojects, hautomation, hactors, hfreezes.same]
    refine ⟨_, ⟨hplanned.someProject, hplanned.authorized, rfl⟩, ⟨hplanned.configured,
      hplanned.enabled, hplanned.actor, hfreezes.projects.symm, fun row hrow => ?_⟩, target,
      hplanned.targets, tz, hplanned.zone, hplanned.instant, hplanned.awake, hfreezes.localDay.symm⟩
    -- every row is that of another task, which was open
    rw [hfreezes.revisions] at hrow
    obtain ⟨t', ht', rfl⟩ := List.mem_map.mp hrow
    have hopen := (List.mem_filter.mp ht').1
    obtain ⟨key, hkey⟩ := mem_values.mp (List.mem_filter.mp hopen).1
    obtain ⟨rfl, -⟩ := hs.tasks key t' hkey
    have hne : id ≠ t'.id := by
      rintro rfl
      obtain rfl := Option.some.inj (ht.symm.trans hkey)
      exact hclosed ⟨t, hopen, rfl⟩
    refine ⟨t', ?_, rfl⟩
    rw [getElem?_insert, if_neg hne, htasks]
    exact hkey
  · rintro ⟨t', ht', hsame⟩
    rw [getElem?_insert, if_pos rfl] at ht'
    rw [← Option.some.inj ht'] at hsame
    exact absurd hsame (Nat.succ_ne_self _)

/-! ### Runs -/

/-- A task in its last revision stays in it. -/
theorem inRevision_of_final {s s' : WorkStore} (hs : s.Numbered) {h : WorkHistory}
    (hrun : Run (WorkStore.step K) s h s') {project id revision : ℕ}
    (hcurrent : s.Current (.task project id revision)) (hfinal : u64Max ≤ revision) :
    s'.InRevision (.task project id revision) := by
  obtain ⟨t, ht, -, rfl⟩ := hcurrent
  obtain ⟨t', ht', hversion⟩ := version_along_run hs hrun ht
  have hfits := hversion.fits
  rw [max_eq_left hfinal] at hfits
  exact ⟨t', ht', le_antisymm hfits hversion.revision⟩

/-- **Freshness** of reserved batches. One that names open tasks alone stays fresh, whatever is done
after the reservation. In a store that is numbered, as every one that is reached, a batch stays fresh
exactly if every task it names was open, or in a revision that nothing can edit. -/
theorem fresh_iff_open {s s₁ : WorkStore} {op : WorkOp} {access : WorkAccess} {batch : WorkBatch}
    {channel now id : ℕ} (hop : op.Reserves access batch channel now)
    (hstep : s.step K op = (.ok (some id), s₁)) :
    (s.NamesOpen batch now → batch.StaysFresh K s₁) ∧
    (s.Numbered → (batch.StaysFresh K s₁ ↔ ∀ project id revision,
      .task project id revision ∈ batch.contentRefs →
        s.RefOpen batch.scope now (.task project id revision) ∨ u64Max ≤ revision)) := by
  obtain ⟨hnext, htasks, hprojects, hautomation, hactors⟩ := reserves_ok hop hstep
  refine ⟨fun hopen h s' access' now' _ hvalid r hr => ?_, fun hs => ⟨fun hfresh => ?_, fun hnamed => ?_⟩⟩
  · cases r with
    | task project id revision => exact inRevision_of_open hnext hvalid hr (hopen _ _ _ hr)
    | decision project id revision => trivial
  · intro project id revision hr
    by_contra hclosed
    rw [not_or, not_le] at hclosed
    obtain ⟨hvalid, hstale⟩ :=
      stale_of_closed hs hnext htasks hprojects hautomation hactors hr hclosed.2 hclosed.1
    exact hstale (hfresh _ _ access now (.cons _ .nil) hvalid _ hr)
  · intro h s' access' now' hrun hvalid r hr
    cases r with
    | task project id revision =>
      rcases hnamed _ _ _ hr with hopen | hfinal
      · exact inRevision_of_open hnext hvalid hr hopen
      · have hs₁ : s₁.Numbered := by
          have hmoved := numbered_of_moves hs (step_moves (K := K) hs op)
          rw [hstep] at hmoved
          exact hmoved
        refine inRevision_of_final hs₁ hrun ?_ hfinal
        obtain ⟨t, ht, hcurrent⟩ :=
          current_of_mem_contentRefs hs (mem_contentRefs_of_nextBatch hnext hr)
        exact ⟨t, htasks ▸ ht, hcurrent⟩
    | decision project id revision => trivial

/-- The batch with the reminder names the open task alone. -/
theorem openBatch_stays_fresh : openBatch.StaysFresh sampleCrates
    (openStore.step sampleCrates (.reserveBatch sampleAccess openBatch 43201)).2 := by
  have hok : (openStore.step sampleCrates (.reserveBatch sampleAccess openBatch 43201)).1 =
      .ok (some 3) := by decide +kernel
  have htarget : openBatch.target = .personal 1 := by decide +kernel
  have hscope : openBatch.scope = .personal 1 := by decide +kernel
  have hrefs : openBatch.contentRefs = {.task 1 2 1} := by decide +kernel
  have hopen : ∃ t ∈ openStore.openTasks (.personal 1) 43201, t.ref = .task 1 2 1 := by
    decide +kernel
  refine (fresh_iff_open (.inl ⟨rfl, rfl, fun principal h => ?_⟩) (Prod.ext hok rfl)).1
    fun project id revision hr => ?_
  · rw [htarget] at h
    cases h
  · rw [hrefs, Finset.mem_singleton] at hr
    rw [hr, hscope]
    exact hopen

/-- A task that was added under the automation and is done at once. -/
def closedOps : List WorkOp :=
  [.createProject sampleAccess "Plan" "a", .updateAutomation sampleAccess reminderUpdate none,
    .addTask sampleAccess sampleTask "t", .updateTask sampleAccess 2 0 .done none]

def closedStore : WorkStore := (play (WorkStore.step sampleCrates) .empty closedOps).2

/-- The report of the change. -/
def closedBatch : WorkBatch :=
  (closedStore.nextBatch sampleCrates (.personal 1) sampleAccess 43201).toOption.join.get
    (by decide +kernel)

/-- The report says that the task is done; it is opened again before the send, and passes. -/
theorem closedBatch_goes_stale :
    (closedStore.step sampleCrates (.reserveBatch sampleAccess closedBatch 43201)).1 =
      .ok (some 3) ∧
    ¬ closedBatch.StaysFresh sampleCrates
      (closedStore.step sampleCrates (.reserveBatch sampleAccess closedBatch 43201)).2 := by
  refine ⟨by decide +kernel, fun hfresh => ?_⟩
  have hvalid : ((closedStore.step sampleCrates (.reserveBatch sampleAccess closedBatch 43201)).2.step
      sampleCrates (.updateTask sampleAccess 2 1 .open none)).2.validateReservedBatch sampleCrates
        sampleAccess closedBatch 43201 = .ok () := by decide +kernel
  have hstale : ¬ ((closedStore.step sampleCrates
      (.reserveBatch sampleAccess closedBatch 43201)).2.step sampleCrates
        (.updateTask sampleAccess 2 1 .open none)).2.InRevision (.task 1 2 1) := by decide +kernel
  exact hstale (hfresh _ _ sampleAccess 43201 (.cons _ .nil) hvalid _ (by decide +kernel))

end AbbeyBot.Work.Types
