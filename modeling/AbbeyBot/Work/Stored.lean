import Mathlib
import AbbeyBot.Work.Operations
import AbbeyBot.Work.RecallState

/-! # The stored work

What a work store holds beside its records: the recall state, which the operations tell of the sources
they change, the recall policies of the scopes, and the snapshots of linked repository items. -/

namespace AbbeyBot.Work.Types

open AbbeyBot.Library.OrderedMap AbbeyBot.Library.Result AbbeyBot.Library.Text
open AbbeyBot.Library.Word
open AbbeyBot.Work.FollowUp (ScopeValid)

/-! ### Snapshots of repository items -/

inductive GitHubState where
  | open
  | closed
  | merged
  deriving DecidableEq, Repr

structure GitHubSnapshot where
  title : String
  state : GitHubState
  refreshedAt : ℕ
  stale : Bool
  etag : Option String
  deriving DecidableEq, Repr

/-- The word for a kind of item in a key. -/
def GitHubItemKind.word : GitHubItemKind → String
  | .issue => "issues"
  | .pullRequest => "pull"

/-- `GitHubReference::key`. -/
def GitHubReference.key (r : GitHubReference) : String :=
  toString r.repository.canonical.installation ++ ":" ++ r.repository.canonical.owner ++ "/" ++
    r.repository.canonical.name ++ "/" ++ r.kind.word ++ "/" ++ toString r.number

/-- `GitHubReference::same_identity`. -/
def GitHubReference.SameIdentity (r r' : GitHubReference) : Prop :=
  r.kind = r'.kind ∧ r.number = r'.number ∧ r.repository.SameIdentity r'.repository

instance (r r' : GitHubReference) : Decidable (r.SameIdentity r') :=
  inferInstanceAs (Decidable (_ ∧ _))

/-- `WorkStore::active_github_link`. -/
def WorkStore.ActiveGithubLink (s : WorkStore) (reference : GitHubReference) : Prop :=
  ∃ task ∈ values s.tasks, (∃ linked ∈ task.github, linked.SameIdentity reference) ∧
    ∃ project ∈ s.projects[task.projectId]?, project.AllowsGithubRepository reference.repository

instance (s : WorkStore) (reference : GitHubReference) : Decidable (s.ActiveGithubLink reference) := by
  unfold WorkStore.ActiveGithubLink
  infer_instance

abbrev GitHubSnapshots := BTreeMap String GitHubSnapshot

/-- The rows under a key, in any case of its letters, are replaced by one. -/
def GitHubSnapshots.replace (snapshots : GitHubSnapshots) (key : String) (snapshot : GitHubSnapshot) :
    GitHubSnapshots :=
  (snapshots.filter fun candidate _ => candidate.toLower ≠ key.toLower).insert key snapshot

/-- `WorkStore::github_snapshot`: the latest row, the last of those that are as late. -/
def GitHubSnapshots.latest (snapshots : GitHubSnapshots) (reference : GitHubReference) :
    Option GitHubSnapshot :=
  (values (snapshots.filter fun candidate _ => candidate.toLower = reference.key.toLower)).foldl
    (fun best snapshot =>
      if ∀ b ∈ best, b.refreshedAt ≤ snapshot.refreshedAt then some snapshot else best) none

/-! ### What the recall state is told -/

namespace WorkRecallState

/-- `WorkRecallState::changed`. -/
def changed (r : WorkRecallState) : WorkRecallState :=
  match checkedAdd r.projectionRevision 1 with
  | some next => { r with projectionRevision := next }
  | none => { r with revisionExhausted := true }

/-- `WorkRecallState::task_changed`. -/
def taskChanged (project id revision : ℕ) (r : WorkRecallState) : WorkRecallState :=
  match r.sourceVersions[WorkSourceKey.task project id]? with
  | some value => { r with
      sourceVersions := r.sourceVersions.insert (.task project id)
        { value with revision := revision } }.changed
  | none => r

/-- `WorkRecallState::preference_changed`. -/
def preferenceChanged (scope : WorkScope) (delivery actor : ℕ) (r : WorkRecallState) :
    WorkRecallState :=
  match r.sourceVersions[WorkSourceKey.preference scope delivery actor]? with
  | some value => { r with
      sourceVersions := r.sourceVersions.insert (.preference scope delivery actor)
        (match checkedAdd value.revision 1 with
          | some next => { value with revision := next }
          | none => { value with recallDisabledExhausted := true }) }.changed
  | none => r

/-- `WorkRecallState::preferences_reset`. -/
def preferencesReset (scope : WorkScope) (r : WorkRecallState) : WorkRecallState :=
  match r.scopeControls[scope]? with
  | some control => { r with
      scopeControls := r.scopeControls.insert scope
        (match checkedAdd control.generation 1 with
          | some next => { control with generation := next }
          | none => { control with recallDisabledExhausted := true }) }.changed
  | none => r

/-- `WorkRecallState::learning_changed`. -/
def learningChanged (scope : WorkScope) (r : WorkRecallState) : WorkRecallState :=
  if scope ∈ r.scopeControls then r.changed else r

end WorkRecallState

/-- A revision of the task has been written. -/
def WorkStore.tellTask (s : WorkStore) (id revision : ℕ) (r : WorkRecallState) : WorkRecallState :=
  match s.tasks[id]? with
  | some task => r.taskChanged task.projectId id revision
  | none => r

/-- The observations that are not retained any more are reported, with their actors. -/
def tellForgotten (scope : WorkScope) (before after : WorkPreferenceProfile) (r : WorkRecallState) :
    WorkRecallState :=
  (before.evidence.filter fun e => e ∉ after.evidence).foldl (fun r e =>
    match e.actor with
    | some actor => r.preferenceChanged scope e.deliveryId actor
    | none => r) r

variable (K : WorkCrates)

/-- What an operation tells the recall state. A task is reported in each revision that is written of
it, but not where its sources are migrated; a policy is configured without a switch of the learning. -/
def WorkStore.tell (s : WorkStore) (op : WorkOp) (r : WorkRecallState) : WorkRecallState :=
  match op, (s.step K op).1, (s.step K op).2 with
  | .updateTask _ id revision _ _, .ok _, _ => s.tellTask id (revision + 1) r
  | .linkGithub id revision _ _, .ok _, _ => s.tellTask id (revision + 1) r
  | .setReminder _ id revision remindAt, .ok _, _ =>
    if s.tasks[id]?.bind WorkTask.remindAt = remindAt then r else s.tellTask id (revision + 1) r
  | .snoozeTask _ id revision until_, .ok _, _ =>
    let r := s.tellTask id (revision + 1) r
    if s.tasks[id]?.bind WorkTask.remindAt = none ∨
        s.tasks[id]?.bind WorkTask.remindAt = some until_ then r
    else s.tellTask id (revision + 2) r
  | .controlPreferences access enabled _ reset, .ok _, _ =>
    let r := if (∃ e ∈ enabled, e ≠ (s.profile access.scope).learningEnabled) then
      r.learningChanged access.scope else r
    if reset = true then r.preferencesReset access.scope else r
  | .feedback access deliveryId _ true _, .ok _, _ =>
    r.preferenceChanged access.scope deliveryId access.actor
  | .feedback access _ _ false _, .ok _, s' =>
    tellForgotten access.scope (s.profile access.scope) (s'.profile access.scope) r
  | _, _, _ => r

/-! ### Recall policies -/

structure RecallPolicy where
  enabled : Bool
  configuredBy : ℕ
  revision : ℕ
  deriving DecidableEq, Repr

/-- `RecallPolicy::default`. -/
def RecallPolicy.default : RecallPolicy := ⟨false, 0, 0⟩

abbrev RecallPolicies := BTreeMap WorkScope RecallPolicy

/-- A scope as it is written. -/
def WorkScope.json : WorkScope → String
  | .personal owner => "\x7b\"Personal\":\x7b\"owner\":" ++ toString owner ++ "\x7d\x7d"
  | .team guild channel => "\x7b\"Team\":\x7b\"guild\":" ++ toString guild ++ ",\"channel\":" ++
      toString channel ++ "\x7d\x7d"

/-- A policy as it is written, in its largest form. -/
def reservedEntry (scope : WorkScope) : String :=
  "\x7b\"key\":" ++ scope.json ++ ",\"value\":\x7b\"enabled\":false,\"configured_by\":" ++
    toString u64Max ++ ",\"revision\":" ++ toString u64Max ++ "\x7d\x7d"

/-- `RecallPolicies::validate`. -/
def RecallPolicies.validate (policies : RecallPolicies) : Except WorkError Unit := do
  ensure (policies.size ≤ 10000) .full
  ensure (All policies fun scope policy => ScopeValid scope ∧ policy.configuredBy ≠ 0 ∧
    policy.revision ≠ 0 ∧ ∀ owner ∈ scope.owner, owner = policy.configuredBy) .invalid
  ensure (("[" ++ ",".intercalate (policies.keys.map reservedEntry) ++ "]").utf8ByteSize ≤
    2 * 1024 * 1024) .full

/-! ### The store -/

structure StoredWork where
  records : WorkStore
  recallState : WorkRecallState
  recallPolicies : RecallPolicies
  githubSnapshots : GitHubSnapshots

/-- `WorkStore::default`, with the parts beside the records. -/
def StoredWork.empty : StoredWork := ⟨.empty, .default, ∅, ∅⟩

namespace StoredWork

/-- `WorkStore::configure_recall`. -/
def configureRecall (access : WorkAccess) (enabled : Bool) (expectedRevision : ℕ) (s : StoredWork) :
    Except WorkError (RecallPolicy × StoredWork) := do
  let _ ← s.records.scopeProjects access.scope access true
  let old := s.recallPolicies[access.scope]?.getD .default
  ensure (old.revision = expectedRevision) .stale
  if old.revision ≠ 0 ∧ old.enabled = enabled ∧ old.configuredBy = access.actor then
    return (old, s)
  let revision ← orErr (checkedAdd old.revision 1) .full
  let policy := ⟨enabled, access.actor, revision⟩
  RecallPolicies.validate (s.recallPolicies.insert access.scope policy)
  return (policy, { s with recallPolicies := s.recallPolicies.insert access.scope policy })

/-- `WorkStore::record_github_snapshot`. -/
def recordGithubSnapshot (reference : GitHubReference) (snapshot : GitHubSnapshot) (s : StoredWork) :
    Except WorkError (Unit × StoredWork) := do
  ensure reference.Valid .invalid
  ensure (isBlank snapshot.title = false ∧ snapshot.title.utf8ByteSize ≤ 500 ∧
    ∀ etag ∈ snapshot.etag, etag.utf8ByteSize ≤ 500) .invalid
  ensure (s.records.ActiveGithubLink reference) .missing
  let previous := GitHubSnapshots.latest s.githubSnapshots reference
  ensure (∀ p ∈ previous, p.refreshedAt ≤ snapshot.refreshedAt) .stale
  ensure (previous = none → s.githubSnapshots.size < 10000) .full
  return ((), { s with
    githubSnapshots := GitHubSnapshots.replace s.githubSnapshots reference.key
      { snapshot with stale := false } })

/-- `WorkStore::confirm_github_not_modified`. -/
def confirmGithubNotModified (reference : GitHubReference) (refreshedAt : ℕ) (s : StoredWork) :
    Except WorkError (Unit × StoredWork) := do
  ensure reference.Valid .invalid
  ensure (s.records.ActiveGithubLink reference) .missing
  let snapshot ← orErr (GitHubSnapshots.latest s.githubSnapshots reference) .missing
  ensure (snapshot.etag ≠ none ∧ snapshot.refreshedAt ≤ refreshedAt) .stale
  return ((), { s with
    githubSnapshots := GitHubSnapshots.replace s.githubSnapshots reference.key
      { snapshot with refreshedAt := refreshedAt, stale := false } })

/-- `WorkStore::mark_github_stale`. -/
def markGithubStale (reference : GitHubReference) (s : StoredWork) : StoredWork :=
  { s with
    githubSnapshots := s.githubSnapshots.map fun candidate snapshot =>
      if candidate.toLower = reference.key.toLower then { snapshot with stale := true } else snapshot }

end StoredWork

inductive StoredOp where
  | records (op : WorkOp)
  | configureRecall (access : WorkAccess) (enabled : Bool) (expectedRevision : ℕ)
  | recordGithubSnapshot (reference : GitHubReference) (snapshot : GitHubSnapshot)
  | confirmGithubNotModified (reference : GitHubReference) (refreshedAt : ℕ)
  | markGithubStale (reference : GitHubReference)

/-- **The step function** of the store. -/
def StoredWork.step (s : StoredWork) : StoredOp → Except WorkError (Option ℕ) × StoredWork
  | .records op =>
    ((s.records.step K op).1,
      { s with records := (s.records.step K op).2, recallState := s.records.tell K op s.recallState })
  | .configureRecall access enabled expectedRevision =>
    let r := commit s (s.configureRecall access enabled expectedRevision)
    (r.1.map fun _ => none, r.2)
  | .recordGithubSnapshot reference snapshot =>
    unnumbered (commit s (s.recordGithubSnapshot reference snapshot))
  | .confirmGithubNotModified reference refreshedAt =>
    unnumbered (commit s (s.confirmGithubNotModified reference refreshedAt))
  | .markGithubStale reference => (.ok none, s.markGithubStale reference)

/-! ### Nothing is admitted -/

variable {K}

/-- A state without sources is told nothing of a task. -/
theorem tellTask_default (s : WorkStore) (id revision : ℕ) :
    s.tellTask id revision .default = .default := by
  unfold WorkStore.tellTask
  split <;> rfl

theorem tellForgotten_default (scope : WorkScope) (before after : WorkPreferenceProfile) :
    tellForgotten scope before after .default = .default := by
  unfold tellForgotten
  induction before.evidence.filter fun e => e ∉ after.evidence with
  | nil => rfl
  | cons e forgotten ih =>
    rw [List.foldl_cons]
    cases e.actor <;> exact ih

/-- No operation on the records changes a recall state that nothing was admitted to. -/
theorem tell_default (s : WorkStore) (op : WorkOp) : s.tell K op .default = .default := by
  unfold WorkStore.tell
  split
  · exact tellTask_default _ _ _
  · exact tellTask_default _ _ _
  · split_ifs
    · rfl
    · exact tellTask_default _ _ _
  · dsimp only
    rw [tellTask_default, tellTask_default, ite_self]
  · dsimp only
    split_ifs <;> rfl
  · rfl
  · exact tellForgotten_default _ _ _
  · rfl

end AbbeyBot.Work.Types
