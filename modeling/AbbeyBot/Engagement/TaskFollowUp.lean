import Mathlib
import AbbeyBot.Engagement.Lifecycle

/-! # Follow-ups of a task

A follow-up of a native task is a follow-up of the message that asked for it, with the task and an
expiry. Neither the task nor the message is followed up a second time. -/

namespace AbbeyBot.Engagement

open AbbeyBot.Library.OrderedMap AbbeyBot.Library.Result AbbeyBot.Work.FollowUp
open AbbeyBot.Work.Types

/-- The proposal to follow up a message. -/
def followUpProposal (source : SourceRef) (member due : ℕ) : CandidateProposal where
  kind := .followUp
  source := some source
  member := some member
  scope := source.scope
  dueAt := due
  introductionId := none

/-- The key of the task exists. -/
def HasTaskKey (scope : WorkScope) (task : WorkContentRef) : Bool := (taskKey scope task).isOk

/-- `task_follow_up_attempted`. -/
def EngagementStore.TaskFollowUpAttempted (s : EngagementStore) (K : Crates) (scope : WorkScope)
    (task : WorkContentRef) : Prop :=
  HasTaskKey scope task = false ∨ taskFollowUpIdentity K scope task ∈ s.erasedIdentities ∨
    ∃ c ∈ values s.candidates, c.workRef = some task ∧ c.scope.workScope = scope

instance (s : EngagementStore) (K : Crates) (scope : WorkScope) (task : WorkContentRef) :
    Decidable (s.TaskFollowUpAttempted K scope task) := by
  unfold EngagementStore.TaskFollowUpAttempted; infer_instance

/-- `follow_up_source_attempted`. -/
def EngagementStore.FollowUpSourceAttempted (s : EngagementStore) (K : Crates)
    (source : SourceRef) (member : ℕ) : Prop :=
  (followUpProposal source member 0).identity K ∈ s.erasedIdentities ∨
    ∃ c ∈ values s.candidates, c.kind = .followUp ∧ c.member = some member ∧
      c.scope = source.scope ∧ ∃ a ∈ c.source, a.message = source.message

instance (s : EngagementStore) (K : Crates) (source : SourceRef) (member : ℕ) :
    Decidable (s.FollowUpSourceAttempted K source member) := by
  unfold EngagementStore.FollowUpSourceAttempted; infer_instance

/-- The candidate is linked to its task. -/
def Candidate.link (c : Candidate) (intent : FollowUpIntent) (key : String) : Candidate :=
  { c with
    workRef := some intent.task
    expiresAt := some intent.expiresAt
    dedupeKey := key
    followUpReason := none }

/-- The store with a new follow-up of a task. -/
def EngagementStore.withFollowUp (s : EngagementStore) (intent : FollowUpIntent)
    (source : SourceRef) (member due id : ℕ) (key : String) : EngagementStore :=
  { s with
    sequence := id
    candidates := (s.candidates.insert id (s.candidateOf (followUpProposal source member due) id)).insert
      id ((s.candidateOf (followUpProposal source member due) id).link intent key) }

/-- `propose_linked_task_follow_up`. -/
def EngagementStore.proposeLinkedTaskFollowUp (K : Crates) (intent : FollowUpIntent)
    (source : SourceRef) (member due now : ℕ) (s : EngagementStore) :
    Except WorkError (Option ℕ × EngagementStore) := do
  if s.TaskFollowUpAttempted K intent.scope intent.task ∨ s.FollowUpSourceAttempted K source member
  then return (none, s)
  let (proposed, next) ← s.propose K (followUpProposal source member due) now
  match proposed with
  | none => return (none, s)
  | some id =>
    let c ← orErr next.candidates[id]? .missing
    let key ← taskKey intent.scope intent.task
    let next : EngagementStore :=
      { next with candidates := next.candidates.insert id (c.link intent key) }
    next.validate K
    return (some id, next)

/-- A follow-up is new to the task and to the message, and the store that has it is valid. -/
theorem proposeLinkedTaskFollowUp_ok {K : Crates} {intent : FollowUpIntent} {source : SourceRef}
    {member due now : ℕ} {s s' : EngagementStore} {r : Option ℕ}
    (h : s.proposeLinkedTaskFollowUp K intent source member due now = .ok (r, s')) :
    (r = none ∧ s' = s) ∨
      (r = some (s.sequence + 1) ∧ ∃ key, taskKey intent.scope intent.task = .ok key ∧
        s' = s.withFollowUp intent source member due (s.sequence + 1) key ∧ s'.Valid K ∧
        ¬ s.TaskFollowUpAttempted K intent.scope intent.task ∧
        ¬ s.FollowUpSourceAttempted K source member) := by
  unfold EngagementStore.proposeLinkedTaskFollowUp at h
  split at h
  · simp only [pure_eq_ok, Prod.mk.injEq] at h
    exact .inl ⟨h.1.symm, h.2.symm⟩
  · rename_i hnew
    rw [not_or] at hnew
    simp only [bind_eq_ok, Prod.exists] at h
    obtain ⟨proposed, next, hp, h⟩ := h
    rcases (propose_ok hp).2 with ⟨rfl, rfl, -⟩ | ⟨rfl, rfl, -, -⟩
    · simp only [pure_eq_ok, Prod.mk.injEq] at h
      exact .inl ⟨h.1.symm, h.2.symm⟩
    · simp only [bind_eq_ok, orErr_eq_ok, EngagementStore.withProposal,
        Std.ExtTreeMap.getElem?_insert_self, Option.some.injEq, exists_eq_left', exists_unit,
        validate_eq_ok, pure_eq_ok, Prod.mk.injEq] at h
      obtain ⟨key, hkey, hv, rfl, rfl⟩ := h
      exact .inr ⟨rfl, key, hkey, rfl, hv, hnew⟩

/-- A follow-up of a task that will not be made, with the explanation. -/
def Candidate.cancelFollowUp (c : Candidate) (reason : FollowUpDecision) : Candidate :=
  { c with state := .cancelled, followUpReason := some reason }

/-- `cancel_task_follow_up`. -/
def EngagementStore.cancelTaskFollowUp (id revision : ℕ) (reason : FollowUpDecision)
    (s : EngagementStore) : Except WorkError (Bool × EngagementStore) := do
  ensure (reason ≠ .allowed) .invalid
  let c ← orErr s.candidates[id]? .missing
  if c.revision = revision ∧ c.workRef.isSome = true ∧ c.state.isOpen = true then
    return (true, { s with candidates := s.candidates.insert id (c.cancelFollowUp reason) })
  else return (false, s)

/-- Only an open follow-up of a task is cancelled. -/
theorem cancelTaskFollowUp_ok {id revision : ℕ} {reason : FollowUpDecision}
    {s s' : EngagementStore} {r : Bool}
    (h : s.cancelTaskFollowUp id revision reason = .ok (r, s')) :
    s' = s ∨ ∃ c, s.candidates[id]? = some c ∧ c.workRef.isSome = true ∧ c.state.isOpen = true ∧
      reason ≠ .allowed ∧
      s' = { s with candidates := s.candidates.insert id (c.cancelFollowUp reason) } := by
  unfold EngagementStore.cancelTaskFollowUp at h
  simp only [bind_eq_ok, ensure_eq_ok, exists_unit, orErr_eq_ok] at h
  obtain ⟨hreason, c, hc, h⟩ := h
  split at h
  · rename_i hopen
    simp only [pure_eq_ok, Prod.mk.injEq] at h
    exact .inr ⟨c, hc, hopen.2.1, hopen.2.2, hreason, h.2.symm⟩
  · simp only [pure_eq_ok, Prod.mk.injEq] at h
    exact .inl h.2.symm

end AbbeyBot.Engagement
