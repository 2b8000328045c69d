import Mathlib
import AbbeyBot.Work.Requests

/-! # Revisions

An edit of a task names the revision it was made for. Tasks are never removed and their revisions
only grow, so of the edits that name one revision of a task a single one is accepted: nobody
overwrites a change that he has not seen. -/

namespace AbbeyBot.Work.Types

open AbbeyBot.Calendar AbbeyBot.Library.History AbbeyBot.Library.OrderedMap AbbeyBot.Library.Result
open AbbeyBot.Library.Word

variable {K : WorkCrates}

/-- The task and the revision that an edit is made for. -/
def WorkOp.expects : WorkOp → Option (ℕ × ℕ)
  | .updateTask _ id revision _ _ | .snoozeTask _ id revision _ | .linkGithub id revision _ _ =>
    some (id, revision)
  | _ => none

/-! ### Tasks along a run -/

/-- A task is there after an operation, in a later version. -/
theorem version_of_moves {op : WorkOp} {s s' : WorkStore} (hs : s.Numbered) (h : s.Moves K op s')
    {id : ℕ} {t : WorkTask} (ht : s.tasks[id]? = some t) :
    ∃ t', s'.tasks[id]? = some t' ∧ t.Version t' := by
  cases h with
  | settings h =>
    rw [h.tasks]
    exact ⟨t, ht, .refl t⟩
  | project hop hp h => exact ⟨t, ht, .refl t⟩
  | tasks h =>
    obtain ⟨t', ht', hversion⟩ := h.forward ht
    exact ⟨t', ht', hversion⟩
  | receipts h => exact ⟨t, ht, .refl t⟩
  | create hkey hnew hmax h =>
    refine ⟨t, ?_, .refl t⟩
    cases h with
    | task t₀ access given requestId hop hid =>
      -- the new task stands under a number that no table has used
      have hused := (hs.used id (by
        have hmem : id ∈ s.tasks := mem_iff.mpr ⟨t, ht⟩
        unfold WorkStore.uses
        rw [if_pos hmem]
        omega)).2
      dsimp only
      rw [getElem?_insert, if_neg (by omega)]
      exact ht
    | _ => exact ht
  | reserve hop hnext hproject hmax => exact ⟨t, ht, .refl t⟩

theorem version_along_run {h : WorkHistory} {s₀ s : WorkStore} (hs₀ : s₀.Numbered)
    (hrun : Run (WorkStore.step K) s₀ h s) {id : ℕ} {t : WorkTask} (ht : s₀.tasks[id]? = some t) :
    ∃ t', s.tasks[id]? = some t' ∧ t.Version t' := by
  refine (hrun.invariant (I := fun s => s.Numbered ∧ ∃ t', s.tasks[id]? = some t' ∧ t.Version t')
    ⟨hs₀, t, ht, .refl t⟩ fun s op hs => ?_).2
  obtain ⟨hnumbered, t', ht', hversion⟩ := hs
  have hmoves := step_moves (K := K) hnumbered op
  obtain ⟨t'', ht'', hversion'⟩ := version_of_moves hnumbered hmoves ht'
  exact ⟨numbered_of_moves hnumbered hmoves, t'', ht'', hversion.trans hversion'⟩

/-! ### Edits -/

theorem commit_ok {σ α : Type} {s : σ} {r : Except WorkError (α × σ)} {a : α}
    (h : (commit s r).1 = .ok a) : ∃ s', r = .ok (a, s') ∧ (commit s r).2 = s' := by
  rcases commit_cases s r with ⟨b, s', hr, hcommit⟩ | ⟨e, hcommit⟩
  · rw [hcommit] at h ⊢
    cases h
    exact ⟨s', hr, rfl⟩
  · rw [hcommit] at h
    cases h

/-- A snooze updates the task, and then the reminder may move it to one version more. -/
theorem snoozeTask_ok {access : WorkAccess} {id revision until_ n : ℕ} {s s'' : WorkStore}
    (h : s.snoozeTask access id revision until_ = (.ok n, s'')) :
    ∃ t, s.tasks[id]? = some t ∧ t.revision = revision ∧ ∃ t' : WorkTask,
      t'.revision = revision + 1 ∧ ∃ t'', s''.tasks[id]? = some t'' ∧ t'.Version t'' := by
  unfold WorkStore.snoozeTask at h
  split at h
  · cases h
  · rename_i t₀ next s₁ hupdate
    simp only [bind_eq_ok, utc_eq_ok, currentTask_eq_ok, ensure_eq_ok, exists_unit, pure_eq_ok,
      Prod.exists, Prod.mk.injEq] at hupdate
    obtain ⟨-, t, ⟨ht, -, hrevision⟩, -, -, -, next', s', hupdate, rfl, rfl, rfl⟩ := hupdate
    obtain ⟨t₁, -, -, rfl, -, hs'⟩ := updateTask_ok hupdate
    have hs'' : (if t.remindAt.isSome then
        commit s' (s'.setReminder access id (revision + 1) (some until_)) else (.ok (), s')).2 = s'' :=
      congrArg Prod.snd h
    obtain ⟨t', ht', hnext⟩ : ∃ t', s'.tasks[id]? = some t' ∧ t'.revision = revision + 1 := by
      rw [hs']
      exact ⟨_, Std.ExtTreeMap.getElem?_insert_self, rfl⟩
    refine ⟨t, ht, hrevision, t', hnext, ?_⟩
    rw [← hs'']
    split_ifs
    · refine commit_keeps (P := fun s : WorkStore => ∃ t'', s.tasks[id]? = some t'' ∧ t'.Version t'')
        ⟨t', ht', .refl t'⟩ fun u s₂ h₂ => ?_
      obtain ⟨t'', ht'', hversion⟩ := (setReminder_rewrites h₂).1.forward ht'
      exact ⟨t'', ht'', hversion⟩
    · exact ⟨t', ht', .refl t'⟩

/-- **An accepted edit** found the task in the revision it was made for, and left it in a later one. -/
theorem edit_ok {op : WorkOp} {s : WorkStore} {id revision : ℕ} {out : Option ℕ}
    (hop : op.expects = some (id, revision)) (hok : (s.step K op).1 = .ok out) :
    (∃ t, s.tasks[id]? = some t ∧ t.revision = revision) ∧
      ∃ t', (s.step K op).2.tasks[id]? = some t' ∧ revision < t'.revision := by
  cases op with
  | updateTask access id' revision' status snoozedUntil =>
    cases hop
    simp only [WorkStore.step, numbered, map_eq_ok] at hok ⊢
    obtain ⟨next, hcommit, -⟩ := hok
    obtain ⟨s', h, hs'⟩ := commit_ok hcommit
    obtain ⟨t, ht, hrevision, hnext, -, rfl⟩ := updateTask_ok h
    refine ⟨⟨t, ht, hrevision⟩, ?_⟩
    rw [hs']
    exact ⟨_, Std.ExtTreeMap.getElem?_insert_self, by dsimp only; omega⟩
  | linkGithub id' revision' access reference =>
    cases hop
    simp only [WorkStore.step, unnumbered, map_eq_ok] at hok ⊢
    obtain ⟨u, hcommit, -⟩ := hok
    obtain ⟨s', h, hs'⟩ := commit_ok hcommit
    simp only [WorkStore.linkGithub, bind_eq_ok, ensure_eq_ok, exists_unit, orErr_eq_ok,
      project_eq_ok, checkedAdd_eq_some, pure_eq_ok, Prod.mk.injEq, true_and] at h
    obtain ⟨-, t, ht, p, -, -, hrevision, _, ⟨rfl, -⟩, rfl⟩ := h
    refine ⟨⟨t, ht, hrevision⟩, ?_⟩
    rw [hs']
    exact ⟨_, Std.ExtTreeMap.getElem?_insert_self, by dsimp only; omega⟩
  | snoozeTask access id' revision' until_ =>
    cases hop
    simp only [WorkStore.step, numbered, map_eq_ok] at hok ⊢
    obtain ⟨n, hsnoozed, -⟩ := hok
    have hpair : s.snoozeTask access id revision until_ =
        (.ok n, (s.snoozeTask access id revision until_).2) := Prod.ext hsnoozed rfl
    obtain ⟨t, ht, hrevision, t', hnext, t'', ht'', hversion⟩ := snoozeTask_ok hpair
    have hlater := hversion.revision
    exact ⟨⟨t, ht, hrevision⟩, t'', ht'', by omega⟩
  | _ => cases hop

/-- **One edit for each revision**: of the edits that name the same task in the same revision a run
accepts one; the tasks themselves stay, with their project, in revisions that grow. -/
theorem one_edit_per_revision {h : WorkHistory} {s : WorkStore}
    (hrun : Run (WorkStore.step K) .empty h s) {h₁ h₂ : WorkHistory}
    {e e' : Event WorkStore WorkOp (Except WorkError (Option ℕ))} (hh : h = h₁ ++ e :: h₂)
    (he' : e' ∈ h₂) :
    (∀ (id : ℕ) (t : WorkTask), e'.after.tasks[id]? = some t →
      ∃ t', s.tasks[id]? = some t' ∧ t'.projectId = t.projectId ∧ t.revision ≤ t'.revision) ∧
    ∀ (id revision : ℕ) (n : Option ℕ), e'.op.expects = some (id, revision) → e'.out = .ok n →
      e.op.expects = some (id, revision) → ∀ m, e.out ≠ .ok m := by
  subst hh
  obtain ⟨h₃, h₄, rfl⟩ := List.append_of_mem he'
  have hbefore := hrun.earlier
  have hevent' := hbefore.event_eq he'
  have hevent := hrun.event_eq (List.mem_append_right h₁ List.mem_cons_self)
  -- the state after the earlier edit is reached from the empty store
  have hnumbered : e'.after.Numbered := by
    have h := numbered_along_run hbefore.earlier
    rw [hevent']
    exact numbered_of_moves h (step_moves h _)
  refine ⟨fun id t ht => ?_, fun id revision n hop' hout' hop m hout => ?_⟩
  · have hrun' : Run (WorkStore.step K) .empty ((h₁ ++ e :: h₃) ++ e' :: h₄) s := by
      rw [List.append_assoc]
      exact hrun
    obtain ⟨t', ht', hversion⟩ := version_along_run hnumbered hrun'.later ht
    exact ⟨t', ht', hversion.projectId, hversion.revision⟩
  · rw [hevent'] at hout'
    rw [hevent] at hout
    obtain ⟨-, t', ht', hlt⟩ := edit_ok hop' hout'
    obtain ⟨⟨t, ht, hrevision⟩, -⟩ := edit_ok hop hout
    have hafter : (event (WorkStore.step K) e'.before e'.op).after.tasks[id]? = some t' := ht'
    rw [← hevent'] at hafter
    obtain ⟨t'', ht'', hversion⟩ := version_along_run hnumbered hbefore.later hafter
    have hsame : t = t'' := Option.some.inj (ht.symm.trans ht'')
    have hgrown := hversion.revision
    rw [← hsame, hrevision] at hgrown
    omega

/-! ### A run with two edits -/

def sampleTask : WorkTask where
  id := 0
  projectId := 1
  goalId := none
  title := "Write"
  owner := 1
  priority := 1
  assignee := none
  status := .open
  dueAt := none
  remindAt := none
  reminderRevision := 0
  snoozedUntil := none
  source := none
  github := none
  revision := 0

def sampleEdits : List WorkOp :=
  [.createProject sampleAccess "Plan" "a", .addTask sampleAccess sampleTask "t",
    .updateTask sampleAccess 2 0 .done none, .snoozeTask sampleAccess 2 0 100]

def editHistory : WorkHistory := (play (WorkStore.step sampleCrates) .empty sampleEdits).1

/-- The task was done in its first revision: a snooze of that revision is refused. -/
theorem sampleEdits_refused : ¬ ∃ m, (editHistory.get ⟨0, by decide⟩).out = .ok m := by
  rintro ⟨m, hm⟩
  have hrun : Run (WorkStore.step sampleCrates) .empty editHistory
      (play (WorkStore.step sampleCrates) .empty sampleEdits).2 := run_play _ _
  have hh : editHistory = [] ++ editHistory.get ⟨0, by decide⟩ :: editHistory.drop 1 := rfl
  have he' : (editHistory.drop 1).get ⟨0, by decide⟩ ∈ editHistory.drop 1 := List.get_mem _ _
  exact (one_edit_per_revision hrun hh he').2 2 0 (some 1) rfl rfl rfl m hm

end AbbeyBot.Work.Types
