import Mathlib
import AbbeyBot.Work.Preferences

/-! # The schedule of a scope

`nextBatch` plans at most one delivery of a scope: a briefing at its hour, else the reminders that
are due, else what has changed. A batch is reserved if it is still the next one, which consumes its
place for the day and everything it covers. -/

namespace AbbeyBot.Work.Types

open AbbeyBot.Calendar AbbeyBot.Library.CivilDate AbbeyBot.Library.OrderedMap
open AbbeyBot.Library.Result AbbeyBot.Library.Text AbbeyBot.Library.Word

variable (K : WorkCrates)

/-! ### The policy of a scope -/

/-- Nobody, and no channel. -/
def WorkDestination.IsZero : WorkDestination → Prop
  | .personal id | .teamChannel id | .teamPrivate id => id = 0

instance (d : WorkDestination) : Decidable d.IsZero :=
  match d with
  | .personal id | .teamChannel id | .teamPrivate id => inferInstanceAs (Decidable (id = 0))

/-- The condition of `WorkAutomationPolicy::validate`. -/
structure WorkAutomationPolicy.Valid (p : WorkAutomationPolicy) : Prop where
  hours : p.quietStart < 24 ∧ p.quietEnd < 24 ∧ p.briefingHour < 24
  limit : 0 < p.dailyLimit ∧ p.dailyLimit ≤ 4
  timezone : p.timezone = "" ∨ (K.parseTz p.timezone).isSome = true
  destination : p.destination ≠ some 0
  target : ∀ target ∈ p.deliveryTarget, ¬ target.IsZero
  enabled : p.enabled = true → p.destination ≠ none ∧ p.timezone ≠ ""

instance (p : WorkAutomationPolicy) : Decidable (p.Valid K) :=
  decidable_of_iff ((p.quietStart < 24 ∧ p.quietEnd < 24 ∧ p.briefingHour < 24) ∧
      (0 < p.dailyLimit ∧ p.dailyLimit ≤ 4) ∧
      (p.timezone = "" ∨ (K.parseTz p.timezone).isSome = true) ∧ p.destination ≠ some 0 ∧
      (∀ target ∈ p.deliveryTarget, ¬ target.IsZero) ∧
      (p.enabled = true → p.destination ≠ none ∧ p.timezone ≠ ""))
    ⟨fun ⟨h₁, h₂, h₃, h₄, h₅, h₆⟩ => ⟨h₁, h₂, h₃, h₄, h₅, h₆⟩,
      fun ⟨h₁, h₂, h₃, h₄, h₅, h₆⟩ => ⟨h₁, h₂, h₃, h₄, h₅, h₆⟩⟩

/-- `WorkAutomationPolicy::quiet`: equal boundaries disable the quiet hours. -/
def WorkAutomationPolicy.quiet (p : WorkAutomationPolicy) (hour : ℕ) : Bool :=
  if p.quietStart < p.quietEnd then p.quietStart ≤ hour && hour < p.quietEnd
  else if p.quietEnd < p.quietStart then p.quietStart ≤ hour || hour < p.quietEnd
  else false

/-- The revision of a policy that is configured: the next one, where something changes. -/
def WorkStore.configuredRevision (s : WorkStore) (scope : WorkScope) (access : WorkAccess)
    (policy : WorkAutomationPolicy) : Except WorkError ℕ :=
  let old := s.scopeAutomation[scope.key]?
  let revision := old.elim 0 WorkAutomationPolicy.revision
  if old ≠ some { policy with revision := revision } ∨
      (policy.enabled = true ∧ s.scopeAutomationActors[scope.key]? ≠ some access.actor) then
    orErr (checkedAdd revision 1) .full
  else return revision

/-- `WorkStore::configure_automation`. -/
def WorkStore.configureAutomation (scope : WorkScope) (access : WorkAccess)
    (policy : WorkAutomationPolicy) (s : WorkStore) : Except WorkError (Unit × WorkStore) := do
  let _ ← s.scopeProjects scope access true
  ensure (policy.Valid K) .invalid
  let _ ← policy.target scope access
  let revision ← s.configuredRevision scope access policy
  return ((), { s with
    changeCoverage :=
      if policy.enabled = true ∧ scope.key ∉ s.changeCoverage then
        s.changeCoverage.insert scope.key (s.contentRefs scope)
      else s.changeCoverage
    changeFingerprints :=
      if policy.enabled = true ∧ scope.key ∉ s.changeFingerprints then
        s.changeFingerprints.insert scope.key (s.contentFingerprints K scope)
      else s.changeFingerprints
    scopeAutomationActors :=
      if policy.enabled = true then s.scopeAutomationActors.insert scope.key access.actor
      else s.scopeAutomationActors.erase scope.key
    scopeAutomation := s.scopeAutomation.insert scope.key { policy with revision := revision } })

structure WorkAutomationUpdate where
  enabled : Bool
  /-- Deliveries to the manager alone, to the whole scope, or as it was. -/
  privateToMe : Option Bool
  timezone : Option String
  briefingHour : Option ℕ
  quietStart : Option ℕ
  quietEnd : Option ℕ
  dailyLimit : Option ℕ
  deriving DecidableEq, Repr

/-- `initial_timezone`. -/
def initialTimezone (access : WorkAccess) (timezone configuredOwner : Option String) :
    Except WorkError String := do
  match timezone with
  | some zone => return zone
  | none =>
    let owner ← match configuredOwner with
      | some value => do
        let owner ← orErr (parseU64 value.toList) .invalid
        pure (some owner)
      | none => pure none
    ensure (owner ≠ some 0) .invalid
    ensure (access.guild = none ∧ owner = some access.actor) .invalid
    return "America/New_York"

/-- The destination that a choice of privacy stands for. -/
def WorkAccess.privacyTarget (access : WorkAccess) (isPrivate : Bool) :
    Except WorkError WorkDestination :=
  if isPrivate = true then do
    ensure (access.guild ≠ none) .invalid
    return .teamPrivate access.actor
  else if access.guild = none then return .personal access.actor
  else return .teamChannel access.channel

/-- The policy with the settings of an update. -/
def WorkAutomationPolicy.update (p : WorkAutomationPolicy) (access : WorkAccess)
    (update : WorkAutomationUpdate) : Except WorkError WorkAutomationPolicy := do
  let target ← match update.privateToMe with
    | some isPrivate => do
      let target ← access.privacyTarget isPrivate
      pure (some target)
    | none => pure p.deliveryTarget
  return { p with
    enabled := update.enabled
    destination := some access.channel
    deliveryTarget := target
    timezone := update.timezone.getD p.timezone
    briefingHour := update.briefingHour.getD p.briefingHour
    quietStart := update.quietStart.getD p.quietStart
    quietEnd := update.quietEnd.getD p.quietEnd
    dailyLimit := update.dailyLimit.getD p.dailyLimit }

/-- The policy that an update starts from. -/
def WorkStore.startingPolicy (s : WorkStore) (access : WorkAccess) (update : WorkAutomationUpdate)
    (configuredOwner : Option String) : Except WorkError WorkAutomationPolicy :=
  match s.scopeAutomation[access.scope.key]? with
  | some policy => return policy
  | none => do
    let timezone ← initialTimezone access update.timezone configuredOwner
    return { WorkAutomationPolicy.default with timezone := timezone }

/-- `WorkStore::update_automation`: the policy is configured before the preferences are. -/
def WorkStore.updateAutomation (access : WorkAccess) (update : WorkAutomationUpdate)
    (configuredOwner : Option String) (s : WorkStore) : Except WorkError Unit × WorkStore :=
  match (do
    let _ ← s.scopeProjects access.scope access true
    let policy ← s.startingPolicy access update configuredOwner
    let policy ← policy.update access update
    s.configureAutomation K access.scope access policy) with
  | .error e => (.error e, s)
  | .ok ((), s) =>
    match update.briefingHour with
    | some hour => commit s (s.controlPreferences access none (some (some hour)) false)
    | none => (.ok (), s)

/-! ### Reminders -/

/-- `WorkStore::set_reminder`. -/
def WorkStore.setReminder (access : WorkAccess) (id revision : ℕ) (remindAt : Option ℕ)
    (s : WorkStore) : Except WorkError (Unit × WorkStore) := do
  let task ← s.currentTask access id revision
  ensure (∀ at_ ∈ remindAt, IsInstant at_) .invalid
  if task.remindAt = remindAt then
    return ((), s)
  let next ← orErr (checkedAdd task.revision 1) .full
  let reminderNext ← orErr (checkedAdd task.reminderRevision 1) .full
  return ((), { s with
    tasks := s.tasks.insert id
      { task with remindAt := remindAt, reminderRevision := reminderNext, revision := next } })

/-- `WorkStore::snooze_task`: the task is snoozed before its reminder is moved. -/
def WorkStore.snoozeTask (access : WorkAccess) (id revision until_ : ℕ) (s : WorkStore) :
    Except WorkError ℕ × WorkStore :=
  match (do
    utc until_
    let task ← s.currentTask access id revision
    let _ ← orErr (checkedAdd revision (if task.remindAt.isSome then 2 else 1)) .full
    ensure (task.remindAt.isSome = true → task.reminderRevision + 1 ≤ u64Max) .full
    let (next, s) ← s.updateTask access id revision task.status (some until_)
    return (task, next, s)) with
  | .error e => (.error e, s)
  | .ok (task, next, s) =>
    let (moved, s) :=
      if task.remindAt.isSome then commit s (s.setReminder access id next (some until_))
      else (.ok (), s)
    (do
      moved
      let task ← orErr s.tasks[id]? .missing
      return task.revision, s)

/-! ### The plan -/

structure WorkBatch where
  scope : WorkScope
  destination : ℕ
  target : WorkDestination
  contentRefs : BTreeSet WorkContentRef
  renderedBody : String
  provenance : DeliveredProvenance
  localDay : String
  kind : WorkDeliveryKind
  taskIds : List ℕ
  coverage : List ReminderCoverage
  dedupeKeys : BTreeSet String
  policy : WorkAutomationPolicy
  revisions : List (ℕ × ℕ)
  projectRevisions : List (ℕ × ℕ)
  deriving DecidableEq

/-- The receipts of a scope, those of its projects where a receipt names no scope. -/
def WorkStore.receiptsOf (s : WorkStore) (scope : WorkScope) : List WorkDeliveryReceipt :=
  (values s.deliveries).filter fun r =>
    match r.scope with
    | some receiptScope => receiptScope = scope
    | none => ∃ p ∈ s.projects[r.projectId]?, p.scope = scope

/-- The receipt was made on this local date. -/
def WorkDeliveryReceipt.OnDay (r : WorkDeliveryReceipt) (tz : K.Tz) (day : ℤ) : Prop :=
  IsInstant r.at_ ∧ Calendar.localDay K.toZones tz r.at_ = day

instance (r : WorkDeliveryReceipt) (tz : K.Tz) (day : ℤ) : Decidable (r.OnDay K tz day) :=
  inferInstanceAs (Decidable (_ ∧ _))

/-- The task is not snoozed. -/
def WorkTask.Awake (t : WorkTask) (now : ℕ) : Prop := ∀ until_ ∈ t.snoozedUntil, until_ ≤ now

instance (t : WorkTask) (now : ℕ) : Decidable (t.Awake now) :=
  inferInstanceAs (Decidable (∀ _ ∈ _, _))

/-- The tasks of the projects that are open and not snoozed. -/
def WorkStore.openTasks (s : WorkStore) (scope : WorkScope) (now : ℕ) : List WorkTask :=
  (values s.tasks).filter fun t => t.projectId ∈ s.scopeIds scope ∧ t.status ≠ .done ∧
    t.status ≠ .cancelled ∧ t.Awake now

/-- The reminder of a task that is due. -/
def WorkTask.reminder (t : WorkTask) (now : ℕ) : Option ReminderCoverage :=
  (t.remindAt.filter (· ≤ now)).map fun at_ => ⟨t.id, t.reminderRevision, at_⟩

/-- The reminders that are due and in no receipt. -/
def dueReminders (tasks : List WorkTask) (receipts : List WorkDeliveryReceipt) (now : ℕ) :
    List ReminderCoverage :=
  tasks.filterMap fun t => (t.reminder now).filter fun c => ∀ r ∈ receipts, c ∉ r.coverage

/-- The record of a reference is not snoozed. -/
def WorkStore.RefAwake (s : WorkStore) (now : ℕ) : WorkContentRef → Prop
  | .task _ id _ => ∃ t ∈ s.tasks[id]?, t.Awake now
  | .decision _ _ _ => True

instance (s : WorkStore) (now : ℕ) (r : WorkContentRef) : Decidable (s.RefAwake now r) :=
  match r with
  | .task _ id _ => inferInstanceAs (Decidable (∃ t ∈ s.tasks[id]?, t.Awake now))
  | .decision _ _ _ => inferInstanceAs (Decidable True)

/-- What has changed in the scope: references that no delivery has covered, of records that are not
snoozed and have another fingerprint than the delivered one. -/
def WorkStore.changes (s : WorkStore) (scope : WorkScope) (now : ℕ) : BTreeSet WorkContentRef :=
  match s.changeCoverage[scope.key]? with
  | none => ∅
  | some covered => (s.contentRefs scope \ covered).filter fun r => s.RefAwake now r ∧
      (s.changeFingerprints[scope.key]?.bind fun f => f[r.id]?) ≠
        (s.contentFingerprints K scope)[r.id]?

/-- The order of a text: tasks by priority, deadline and id, then decisions. -/
def WorkStore.orderKey (s : WorkStore) : WorkContentRef → List ℤ
  | .task _ id _ => match s.tasks[id]? with
    | some task => [0, -task.priority, task.dueAt.getD u64Max, id]
    | none => [0, 0, u64Max, id]
  | .decision _ id _ => [1, 0, u64Max, id]

/-- The references in the order of a text. -/
def WorkStore.ordered (s : WorkStore) (refs : BTreeSet WorkContentRef) : List WorkContentRef :=
  (refs.sort (· ≤ ·)).mergeSort fun a b => s.orderKey a ≤ s.orderKey b

/-- The id of a task. -/
def WorkContentRef.taskId : WorkContentRef → Option ℕ
  | .task _ id _ => some id
  | .decision _ _ _ => none

/-- A batch before its text: the references to render, and how many are left out. -/
structure WorkPlan where
  refs : List WorkContentRef
  omitted : ℕ
  /-- The batch with the text and its provenance. -/
  batch : String → DeliveredProvenance → WorkBatch

/-- The date of the briefing: the evening before, where the evening's hour was a quiet one. -/
def WorkAutomationPolicy.occurrenceDay (p : WorkAutomationPolicy) (tz : K.Tz) (now hour : ℕ) :
    Except WorkError ℤ := do
  let day := localDay K.toZones tz now
  let today ← localHour K.toZones tz day hour
  if (now : ℤ) < today ∧ p.quietEnd < p.quietStart ∧ p.quietStart ≤ hour then do
    ensure (InRange (day - 1)) .invalid
    return day - 1
  else return day

/-- The key of a briefing. -/
def briefingKey (scope : WorkScope) (day : ℤ) : String :=
  scope.key ++ ":" ++ format day ++ ":briefing:scope"

/-- The key of a reminder. -/
def reminderKey (scope : WorkScope) (localDay : String) (c : ReminderCoverage) : String :=
  scope.key ++ ":" ++ localDay ++ ":reminder:" ++ toString c.taskId ++ ":" ++
    toString c.reminderRevision ++ ":" ++ toString c.remindAt

/-- Whether the briefing of a date is due: its hour has come, and there was none. -/
def briefingDue (scope : WorkScope) (tz : K.Tz) (tasks : List WorkTask)
    (receipts : List WorkDeliveryReceipt) (occurrenceDay : ℤ) (now hour : ℕ) :
    Except WorkError Bool :=
  if tasks = [] then return false
  else do
    let at_ ← localHour K.toZones tz occurrenceDay hour
    return at_ ≤ now ∧ ∀ r ∈ receipts, briefingKey scope occurrenceDay ∉ r.dedupeKeys ∧
      ¬ (r.kind = some .briefing ∧ r.OnDay K tz (localDay K.toZones tz now))

/-- The references a batch could show. -/
def shown (tasks : List WorkTask) (briefing : Bool) (reminders : List ReminderCoverage)
    (changes : BTreeSet WorkContentRef) : BTreeSet WorkContentRef :=
  if briefing = false ∧ reminders = [] then changes
  else ((tasks.filter fun t => briefing = true ∨ t.id ∈ reminders.map ReminderCoverage.taskId).map
    WorkTask.ref).toFinset

/-- The plan of a batch, once it is known whether it is a briefing, and what has changed. -/
def WorkStore.planFor (s : WorkStore) (scope : WorkScope) (policy : WorkAutomationPolicy) (tz : K.Tz)
    (destination : ℕ) (target : WorkDestination) (now : ℕ) (occurrenceDay : ℤ) (briefing : Bool)
    (changes : BTreeSet WorkContentRef) : WorkPlan :=
  let tasks := s.openTasks scope now
  let reminders := dueReminders tasks (s.receiptsOf scope) now
  let ordered := s.ordered (shown tasks briefing reminders changes)
  let refs := ordered.take 8
  let taskIds := refs.filterMap WorkContentRef.taskId
  let coverage := reminders.filter fun c => c.taskId ∈ taskIds
  let day := format (localDay K.toZones tz now)
  let keys := (coverage.map (reminderKey scope day)).toFinset
  { refs := refs
    omitted := ordered.length - 8
    batch := fun body provenance =>
      { scope := scope
        destination := destination
        target := target
        contentRefs := refs.toFinset
        renderedBody := body
        provenance := provenance
        localDay := day
        kind :=
          if briefing = true then .briefing
          else if reminders = [] then .changes
          else .reminder
        taskIds := taskIds
        coverage := coverage
        dedupeKeys :=
          if briefing = true then insert (briefingKey scope occurrenceDay) keys else keys
        policy := policy
        revisions := (tasks.filter fun t => t.id ∈ taskIds).map fun t => (t.id, t.revision)
        projectRevisions := (s.projectsOf scope).map fun p => (p.id, p.revision) } }

/-- The plan of a batch in a scope that may send one now. -/
def WorkStore.plan (s : WorkStore) (scope : WorkScope) (policy : WorkAutomationPolicy)
    (profile : WorkPreferenceProfile) (tz : K.Tz) (destination : ℕ) (target : WorkDestination)
    (now : ℕ) : Except WorkError (Option WorkPlan) := do
  let receipts := s.receiptsOf scope
  let tasks := s.openTasks scope now
  let hour := profile.effectiveHour policy.briefingHour
  let occurrenceDay ← policy.occurrenceDay K tz now hour
  let briefing ← briefingDue K scope tz tasks receipts occurrenceDay now hour
  let changes := if profile.reduceFollowups then ∅ else s.changes K scope now
  if briefing = false ∧ dueReminders tasks receipts now = [] ∧ changes = ∅ then return none
  else
    return some (s.planFor K scope policy tz destination target now occurrenceDay briefing changes)

/-- The part of `WorkStore::next_batch` before the text. -/
def WorkStore.planBatch (s : WorkStore) (scope : WorkScope) (access : WorkAccess) (now : ℕ) :
    Except WorkError (Option WorkPlan) := do
  let _ ← s.scopeProjects scope access false
  match s.scopeAutomation[scope.key]? with
  | none => return none
  | some policy => do
    ensure (policy.Valid K) .invalid
    if policy.enabled = false ∨ s.scopeAutomationActors[scope.key]? ≠ some access.actor then
      return none
    let _ ← s.scopeProjects scope access true
    let destination ← orErr policy.destination .invalid
    let target ← policy.target scope access
    let tz ← orErr (K.parseTz policy.timezone) .invalid
    utc now
    let attempts := (s.receiptsOf scope).countP fun r => r.OnDay K tz (localDay K.toZones tz now)
    if policy.quiet (localHourOf K.toZones tz now) = true ∨ policy.dailyLimit ≤ attempts then
      return none
    let profile ← s.preferenceProfile access
    s.plan K scope policy profile tz destination target now

/-- `WorkStore::next_batch`. -/
def WorkStore.nextBatch (s : WorkStore) (scope : WorkScope) (access : WorkAccess) (now : ℕ) :
    Except WorkError (Option WorkBatch) := do
  match ← s.planBatch K scope access now with
  | none => return none
  | some plan => do
    let (body, provenance) ← s.renderDelivery K plan.refs plan.omitted
    return some (plan.batch body provenance)

variable {K}

/-- A plan is that of a briefing or of something to remind of or to report. -/
theorem plan_ok {s : WorkStore} {scope : WorkScope} {policy : WorkAutomationPolicy}
    {profile : WorkPreferenceProfile} {tz : K.Tz} {destination now : ℕ} {target : WorkDestination}
    {plan : WorkPlan} (h : s.plan K scope policy profile tz destination target now = .ok (some plan)) :
    ∃ occurrenceDay briefing,
      policy.occurrenceDay K tz now (profile.effectiveHour policy.briefingHour) = .ok occurrenceDay ∧
      briefingDue K scope tz (s.openTasks scope now) (s.receiptsOf scope) occurrenceDay now
        (profile.effectiveHour policy.briefingHour) = .ok briefing ∧
      ¬ (briefing = false ∧ dueReminders (s.openTasks scope now) (s.receiptsOf scope) now = [] ∧
        (if profile.reduceFollowups then ∅ else s.changes K scope now) = ∅) ∧
      plan = s.planFor K scope policy tz destination target now occurrenceDay briefing
        (if profile.reduceFollowups then ∅ else s.changes K scope now) := by
  simp only [WorkStore.plan, bind_eq_ok] at h
  obtain ⟨occurrenceDay, hday, briefing, hbriefing, h⟩ := h
  generalize hchanges : (if profile.reduceFollowups then ∅ else s.changes K scope now) = changes
    at h ⊢
  split_ifs at h with hnone
  · simp only [pure_eq_ok, reduceCtorEq] at h
  · simp only [pure_eq_ok, Option.some.injEq] at h
    exact ⟨occurrenceDay, briefing, hday, hbriefing, hnone, h.symm⟩

/-- What stands behind the plan of a batch in the store. -/
structure WorkStore.Planned (K : WorkCrates) (s : WorkStore) (scope : WorkScope) (access : WorkAccess)
    (now : ℕ) (policy : WorkAutomationPolicy) (profile : WorkPreferenceProfile) (tz : K.Tz)
    (destination : ℕ) (target : WorkDestination) : Prop where
  someProject : s.projectsOf scope ≠ []
  authorized : ∀ p ∈ s.projectsOf scope, p.authorize access true
  configured : s.scopeAutomation[scope.key]? = some policy
  valid : policy.Valid K
  enabled : policy.enabled = true
  actor : s.scopeAutomationActors[scope.key]? = some access.actor
  channel : policy.destination = some destination
  targets : policy.target scope access = .ok target
  zone : K.parseTz policy.timezone = some tz
  instant : IsInstant now
  awake : policy.quiet (localHourOf K.toZones tz now) = false
  room : ((s.receiptsOf scope).countP fun r => r.OnDay K tz (localDay K.toZones tz now)) <
    policy.dailyLimit
  learned : s.preferenceProfile access = .ok profile

theorem scopeProjects_eq_ok {s : WorkStore} {scope : WorkScope} {access : WorkAccess}
    {manager : Bool} {ps : List WorkProject} : s.scopeProjects scope access manager = .ok ps ↔
      s.projectsOf scope ≠ [] ∧ (∀ p ∈ s.projectsOf scope, p.authorize access manager) ∧
        ps = s.projectsOf scope := by
  simp only [WorkStore.scopeProjects, bind_eq_ok, ensure_eq_ok, exists_unit, pure_eq_ok,
    eq_comm (a := ps)]

theorem planBatch_ok {s : WorkStore} {scope : WorkScope} {access : WorkAccess} {now : ℕ}
    {plan : WorkPlan} (h : s.planBatch K scope access now = .ok (some plan)) :
    ∃ policy profile tz destination target,
      s.Planned K scope access now policy profile tz destination target ∧
      s.plan K scope policy profile tz destination target now = .ok (some plan) := by
  simp only [WorkStore.planBatch, bind_eq_ok, scopeProjects_eq_ok] at h
  obtain ⟨_, ⟨hprojects, -⟩, h⟩ := h
  cases hpolicy : s.scopeAutomation[scope.key]? with
  | none =>
    rw [hpolicy] at h
    simp only [pure_eq_ok, reduceCtorEq] at h
  | some policy =>
    rw [hpolicy] at h
    simp only [bind_eq_ok, ensure_eq_ok, exists_unit] at h
    obtain ⟨hvalid, h⟩ := h
    split_ifs at h with hoff
    · simp only [pure_eq_ok, reduceCtorEq] at h
    rw [not_or, Bool.not_eq_false, not_not] at hoff
    simp only [bind_eq_ok, scopeProjects_eq_ok, orErr_eq_ok, utc_eq_ok, exists_unit] at h
    obtain ⟨_, ⟨-, hauthorized, -⟩, destination, hdestination, target, htarget, tz, htz, hnow, h⟩ := h
    split_ifs at h with hquiet
    · simp only [pure_eq_ok, reduceCtorEq] at h
    rw [not_or, Bool.not_eq_true, not_le] at hquiet
    simp only [bind_eq_ok] at h
    obtain ⟨profile, hprofile, h⟩ := h
    exact ⟨policy, profile, tz, destination, target, ⟨hprojects, hauthorized, hpolicy, hvalid, hoff.1,
      hoff.2, hdestination, htarget, htz, hnow, hquiet.1, hquiet.2, hprofile⟩, h⟩

/-- A batch is a plan with its text. -/
theorem nextBatch_ok {s : WorkStore} {scope : WorkScope} {access : WorkAccess} {now : ℕ}
    {batch : WorkBatch} (h : s.nextBatch K scope access now = .ok (some batch)) :
    ∃ plan body provenance, s.planBatch K scope access now = .ok (some plan) ∧
      s.renderDelivery K plan.refs plan.omitted = .ok (body, provenance) ∧
      batch = plan.batch body provenance := by
  simp only [WorkStore.nextBatch, bind_eq_ok] at h
  obtain ⟨plan?, hplan, h⟩ := h
  cases plan? with
  | none => simp only [pure_eq_ok, reduceCtorEq] at h
  | some plan =>
    simp only [bind_eq_ok, Prod.exists, pure_eq_ok, Option.some.injEq] at h
    obtain ⟨body, provenance, hrender, rfl⟩ := h
    exact ⟨plan, body, provenance, hplan, hrender, rfl⟩

variable (K)

/-! ### Reservation -/

/-- `WorkStore::validate_reserved_batch`. -/
def WorkStore.validateReservedBatch (s : WorkStore) (access : WorkAccess) (batch : WorkBatch)
    (now : ℕ) : Except WorkError Unit := do
  let projects ← s.scopeProjects batch.scope access true
  ensure (s.scopeAutomation[batch.scope.key]? = some batch.policy ∧ batch.policy.enabled = true ∧
    s.scopeAutomationActors[batch.scope.key]? = some access.actor ∧
    (projects.map fun p => (p.id, p.revision)) = batch.projectRevisions ∧
    ∀ row ∈ batch.revisions, ∃ t ∈ s.tasks[row.1]?, t.revision = row.2) .stale
  let _ ← batch.policy.target batch.scope access
  let tz ← orErr (K.parseTz batch.policy.timezone) .invalid
  utc now
  ensure (batch.policy.quiet (localHourOf K.toZones tz now) = false ∧
    format (localDay K.toZones tz now) = batch.localDay) .stale

/-- `same_content`. -/
def SameContent : WorkContentRef → WorkContentRef → Prop
  | .task _ a _, .task _ b _ | .decision _ a _, .decision _ b _ => a = b
  | _, _ => False

instance (a b : WorkContentRef) : Decidable (SameContent a b) :=
  match a, b with
  | .task _ a _, .task _ b _ | .decision _ a _, .decision _ b _ => inferInstanceAs (Decidable (a = b))
  | .task _ _ _, .decision _ _ _ | .decision _ _ _, .task _ _ _ => inferInstanceAs (Decidable False)

/-- The receipt of a batch that is about to be sent. -/
def WorkBatch.receipt (batch : WorkBatch) (id project transportChannel now : ℕ) :
    WorkDeliveryReceipt where
  id := id
  projectId := project
  recipient := transportChannel
  destination := some batch.target
  policyRevision := batch.policy.revision
  provenance := some batch.provenance
  localDay := batch.localDay
  at_ := now
  state := .attempting
  messageId := none
  scope := some batch.scope
  kind := some batch.kind
  coverage := batch.coverage
  taskIds := batch.taskIds
  dedupeKeys := batch.dedupeKeys

/-- The store after a reservation: the receipt is there, and the content of the batch is covered in
its revision and fingerprint. -/
def WorkStore.withReservation (s : WorkStore) (batch : WorkBatch)
    (receipt : WorkDeliveryReceipt) : WorkStore :=
  let current := s.contentFingerprints K batch.scope
  let refs := batch.contentRefs.sort (· ≤ ·)
  { s with
    deliveries := s.deliveries.insert receipt.id receipt
    changeFingerprints := s.changeFingerprints.insert batch.scope.key
      (refs.foldl (fun fingerprints r =>
        match current[r.id]? with
        | some fingerprint => fingerprints.insert r.id fingerprint
        | none => fingerprints) (s.changeFingerprints[batch.scope.key]?.getD ∅))
    changeCoverage := s.changeCoverage.insert batch.scope.key
      (refs.foldl (fun covered r => insert r (covered.filter fun old => ¬ SameContent old r))
        (s.changeCoverage[batch.scope.key]?.getD ∅)) }

/-- `WorkStore::reserve_resolved_batch`: where no project is left, the id is taken before the error. -/
def WorkStore.reserveResolvedBatch (access : WorkAccess) (batch : WorkBatch)
    (transportChannel now : ℕ) (s : WorkStore) : Except WorkError ℕ × WorkStore :=
  match (do
    let next ← s.nextBatch K batch.scope access now
    ensure (next = some batch) .stale
    ensure (s.deliveries.size < 10000) .full
    s.nextId) with
  | .error e => (.error e, s)
  | .ok (id, s) =>
    match batch.projectRevisions.head? with
    | none => (.error .missing, s)
    | some (project, _) =>
      (.ok id, s.withReservation K batch (batch.receipt id project transportChannel now))

/-- `WorkStore::reserve_batch`. -/
def WorkStore.reserveBatch (access : WorkAccess) (batch : WorkBatch) (now : ℕ) (s : WorkStore) :
    Except WorkError ℕ × WorkStore :=
  match batch.target with
  | .teamPrivate _ => (.error .denied, s)
  | _ => s.reserveResolvedBatch K access batch batch.destination now

/-- `WorkStore::reserve_private_batch`. -/
def WorkStore.reservePrivateBatch (access : WorkAccess) (batch : WorkBatch) (dmChannel now : ℕ)
    (s : WorkStore) : Except WorkError ℕ × WorkStore :=
  if batch.target = .teamPrivate access.actor ∧ dmChannel ≠ 0 ∧ dmChannel ≠ access.channel then
    s.reserveResolvedBatch K access batch dmChannel now
  else (.error .denied, s)

end AbbeyBot.Work.Types
