import Mathlib
import AbbeyBot.Engagement.Settings
import AbbeyBot.Library.Text
import AbbeyBot.Library.Word

/-! # Task follow-ups

The identity of an optional follow-up of a native task, and when it is due after the message that
asked for it. -/

namespace AbbeyBot.Work.FollowUp

open AbbeyBot.Calendar AbbeyBot.Engagement AbbeyBot.Library.Result AbbeyBot.Library.Text
open AbbeyBot.Library.Word AbbeyBot.Work.Types

def followUpDelay : ℕ := 86400

/-- `follow_up_due`. -/
def followUpDue (source : SourceRef) : Except WorkError ℕ := do
  source.validate
  utc source.at_
  let due ← orErr (checkedAdd source.at_ followUpDelay) .invalid
  utc due
  return due

/-- The condition of `validate_scope`. -/
def ScopeValid : WorkScope → Prop
  | .personal owner => owner ≠ 0
  | .team guild channel => guild ≠ 0 ∧ channel ≠ 0

instance (scope : WorkScope) : Decidable (ScopeValid scope) :=
  match scope with
  | .personal owner => inferInstanceAs (Decidable (owner ≠ 0))
  | .team guild channel => inferInstanceAs (Decidable (guild ≠ 0 ∧ channel ≠ 0))

/-- `task_key`: a decision is never followed up. -/
def taskKey (scope : WorkScope) (task : WorkContentRef) : Except WorkError String := do
  ensure (ScopeValid scope) .invalid
  match task with
  | .task project id revision =>
    ensure (project ≠ 0 ∧ id ≠ 0) .invalid
    return "task-follow-up\x1f" ++ scope.key ++ "\x1f" ++ toString project ++ "\x1f" ++
      toString id ++ "\x1f" ++ toString revision
  | .decision _ _ _ => .error .invalid

/-! ### Keys -/

theorem key_injective : Function.Injective WorkScope.key := by
  intro a b h
  have hl := congrArg String.toList h
  have hcolon : ∀ n : ℕ, ':' ∉ (toString n).toList := not_mem_toString (by decide)
  cases a with
  | personal owner =>
    cases b with
    | personal owner' =>
      simp only [WorkScope.key, String.toList_append, List.append_cancel_left_eq] at hl
      rw [toString_injective hl]
    | team guild channel => simp [WorkScope.key] at hl
  | team guild channel =>
    cases b with
    | personal owner => simp [WorkScope.key] at hl
    | team guild' channel' =>
      simp only [WorkScope.key, String.toList_append, List.append_assoc,
        List.append_cancel_left_eq] at hl
      obtain ⟨hg, hc⟩ := (append_separator_inj (hcolon _) (hcolon _)).mp hl
      rw [toString_injective hg, toString_injective hc]

theorem not_mem_key (scope : WorkScope) : '\x1f' ∉ scope.key.toList := by
  have hsep : ∀ n : ℕ, '\x1f' ∉ Nat.toDigits 10 n := not_mem_toDigits (by decide)
  cases scope <;> simp [WorkScope.key, hsep]

/-- **Task identities**: the key names the workspace, the task and its revision. -/
theorem taskKey_injective {scope scope' : WorkScope} {task task' : WorkContentRef} {key : String}
    (h : taskKey scope task = .ok key) (h' : taskKey scope' task' = .ok key) :
    scope = scope' ∧ task = task' := by
  have hsep : ∀ n : ℕ, '\x1f' ∉ (toString n).toList := not_mem_toString (by decide)
  unfold taskKey at h h'
  cases task with
  | decision p i r => simp at h
  | task p i r =>
    cases task' with
    | decision p i r => simp at h'
    | task p' i' r' =>
      simp only [bind_eq_ok, ensure_eq_ok, exists_unit, pure_eq_ok] at h h'
      have hl := congrArg String.toList (h.2.2.trans h'.2.2.symm)
      simp only [String.toList_append, List.append_assoc, List.append_cancel_left_eq] at hl
      obtain ⟨hk, hl⟩ := (append_separator_inj (not_mem_key _) (not_mem_key _)).mp hl
      obtain ⟨hp, hl⟩ := (append_separator_inj (hsep _) (hsep _)).mp hl
      obtain ⟨hi, hr⟩ := (append_separator_inj (hsep _) (hsep _)).mp hl
      rw [key_injective (String.toList_injective hk), toString_injective hp, toString_injective hi,
        toString_injective hr]
      exact ⟨rfl, rfl⟩

end AbbeyBot.Work.FollowUp
