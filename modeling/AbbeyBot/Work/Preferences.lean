import Mathlib
import AbbeyBot.Work.Delivery

/-! # Preferences

A scope learns from the feedback to its deliveries. The profile keeps the last hundred observations
and a summary of them, and remembers every delivery that somebody has given feedback to: those are
never observed again. -/

namespace AbbeyBot.Work.Types

open AbbeyBot.Calendar AbbeyBot.Library.OrderedMap AbbeyBot.Library.Result

/-! ### The profile -/

/-- `attributed`: only feedback of a known actor to a delivery of a known kind and scope counts. -/
def PreferenceEvidence.Attributed (e : PreferenceEvidence) : Prop :=
  (∃ actor ∈ e.actor, actor ≠ 0) ∧ e.scope.isSome = true ∧ e.kind.isSome = true

instance (e : PreferenceEvidence) : Decidable e.Attributed := by
  unfold PreferenceEvidence.Attributed
  infer_instance

/-- The delivery and the actor of an observation. -/
def PreferenceEvidence.pair (e : PreferenceEvidence) : Option (ℕ × ℕ) :=
  if e.Attributed then e.actor.map (e.deliveryId, ·) else none

/-- An hour that no clock shows. -/
def WorkFeedback.BadHour (f : WorkFeedback) : Prop :=
  match f with
  | .snoozed hour => 24 ≤ hour
  | _ => False

instance (f : WorkFeedback) : Decidable f.BadHour := by
  cases f <;> unfold WorkFeedback.BadHour <;> infer_instance

/-- `WorkPreferenceProfile::effective_hour`. -/
def WorkPreferenceProfile.effectiveHour (p : WorkPreferenceProfile) (defaultHour : ℕ) : ℕ :=
  (p.explicitHour.or (if p.learningEnabled then p.learnedHour else none)).getD defaultHour

/-- How often `feedback` was given, to deliveries of the kind if one is named. -/
def countFeedback (evidence : List PreferenceEvidence) (kind : Option WorkDeliveryKind)
    (feedback : WorkFeedback) : ℕ :=
  evidence.countP fun e => e.feedback = feedback ∧ (kind.isSome = true → e.kind = kind)

/-- The hour that most deliveries were snoozed to, the earliest of them. -/
def favouriteHour (evidence : List PreferenceEvidence) : ℕ :=
  (List.range 24).foldl (fun best hour =>
    if countFeedback evidence none (.snoozed best) < countFeedback evidence none (.snoozed hour) then
      hour else best) 0

/-- The rank of briefings. -/
def briefingRankOf (evidence : List PreferenceEvidence) : ℤ :=
  let useful := countFeedback evidence (some .briefing) .useful
  let dismissed := countFeedback evidence (some .briefing) .dismissed
  if 5 ≤ useful ∧ dismissed < useful then 1
  else if 5 ≤ dismissed ∧ useful < dismissed then -1
  else 0

/-- `WorkPreferenceProfile::recompute`. -/
def WorkPreferenceProfile.recompute (p : WorkPreferenceProfile) : WorkPreferenceProfile :=
  let evidence := p.evidence.filter fun e => e.Attributed
  if p.learningEnabled = false ∨ evidence.length < 5 then
    { p with learnedHour := none, reduceFollowups := false, briefingRank := 0 }
  else
    { p with
      learnedHour :=
        if 5 ≤ countFeedback evidence none (.snoozed (favouriteHour evidence)) then
          some (favouriteHour evidence) else none
      reduceFollowups := decide (5 ≤ countFeedback evidence none .dismissed)
      briefingRank := briefingRankOf evidence }

/-- `WorkPreferenceProfile::remember_observations`. -/
def WorkPreferenceProfile.rememberObservations (p : WorkPreferenceProfile) : WorkPreferenceProfile :=
  { p with
    observedDeliveries := p.observedDeliveries ∪
      (p.evidence.filterMap PreferenceEvidence.pair).toFinset }

/-- The observation at the end of the window, which holds a hundred. -/
def WorkPreferenceProfile.append (p : WorkPreferenceProfile) (e : PreferenceEvidence) :
    WorkPreferenceProfile :=
  let kept := p.evidence.filter fun e => e.Attributed
  let kept := if 100 ≤ kept.length then kept.drop (kept.length - 99) else kept
  { p with evidence := kept ++ [e] }

/-- `WorkPreferenceProfile::observe`. -/
def WorkPreferenceProfile.observe (p : WorkPreferenceProfile) (e : PreferenceEvidence) :
    Except WorkError WorkPreferenceProfile := do
  ensure (¬ e.feedback.BadHour) .invalid
  let p := p.rememberObservations
  match e.pair with
  | none => return p
  | some pair =>
    if pair ∈ p.observedDeliveries then return p
    else return (WorkPreferenceProfile.append
      { p with observedDeliveries := insert pair p.observedDeliveries } e).recompute

/-- `WorkPreferenceProfile::reset`. -/
def WorkPreferenceProfile.reset (p : WorkPreferenceProfile) : WorkPreferenceProfile :=
  { p.rememberObservations with evidence := [] }.recompute

/-! ### Profiles of the store -/

/-- The stored profile of a scope, or the default one. -/
def WorkStore.profile (s : WorkStore) (scope : WorkScope) : WorkPreferenceProfile :=
  s.preferences[scope.key]?.getD .default

/-- The store with another profile of a scope. -/
def WorkStore.withProfile (s : WorkStore) (scope : WorkScope) (p : WorkPreferenceProfile) :
    WorkStore :=
  { s with preferences := s.preferences.insert scope.key p }

/-- `WorkStore::preference_profile`. -/
def WorkStore.preferenceProfile (s : WorkStore) (access : WorkAccess) :
    Except WorkError WorkPreferenceProfile := do
  let _ ← s.scopeProjects access.scope access false
  return (s.profile access.scope).recompute

/-- The profile under the controls that are given. -/
def WorkPreferenceProfile.control (p : WorkPreferenceProfile) (enabled : Option Bool)
    (explicitHour : Option (Option ℕ)) (reset : Bool) : WorkPreferenceProfile :=
  let p := { p with learningEnabled := enabled.getD p.learningEnabled }
  let p := { p with explicitHour := explicitHour.getD p.explicitHour }
  (if reset then p.reset else p).recompute

/-- `WorkStore::control_preferences`. -/
def WorkStore.controlPreferences (access : WorkAccess) (enabled : Option Bool)
    (explicitHour : Option (Option ℕ)) (reset : Bool) (s : WorkStore) :
    Except WorkError (Unit × WorkStore) := do
  let _ ← s.scopeProjects access.scope access true
  ensure (∀ hour ∈ explicitHour.join, hour < 24) .invalid
  return ((), s.withProfile access.scope
    ((s.profile access.scope).control enabled explicitHour reset))

/-! ### Feedback -/

/-- The receipt that feedback is given to, by somebody who received the delivery. -/
def WorkStore.feedbackReceipt (access : WorkAccess) (deliveryId : ℕ) (feedback : Option WorkFeedback)
    (now : ℕ) (s : WorkStore) : Except WorkError WorkDeliveryReceipt := do
  let _ ← s.scopeProjects access.scope access false
  let receipt ← orErr s.deliveries[deliveryId]? .missing
  ensure (receipt.state = .sent ∧ receipt.messageId.isSome = true ∧
    receipt.scope = some access.scope ∧ receipt.kind.isSome = true ∧ receipt.at_ ≤ now ∧
    receipt.FeedbackDestinationMatches access) .denied
  let _ ← s.project receipt.projectId access
  ensure (∀ f ∈ feedback, ¬ f.BadHour) .invalid
  return receipt

/-- The observation is corrected in its place, or removed. -/
def WorkPreferenceProfile.correct (p : WorkPreferenceProfile) (index : ℕ)
    (feedback : Option WorkFeedback) (now : ℕ) : WorkPreferenceProfile :=
  let p := p.rememberObservations
  match feedback with
  | some feedback =>
    { p with evidence := p.evidence.modify index fun e => { e with feedback := feedback, at_ := now } }
  | none => { p with evidence := p.evidence.eraseIdx index }

/-- `WorkStore::feedback`: the profile is there when the receipt was found, whatever comes after. -/
def WorkStore.feedback (access : WorkAccess) (deliveryId : ℕ) (feedback : Option WorkFeedback)
    (correction : Bool) (now : ℕ) (s : WorkStore) : Except WorkError Unit × WorkStore :=
  match s.feedbackReceipt access deliveryId feedback now with
  | .error e => (.error e, s)
  | .ok receipt =>
    let profile := s.profile access.scope
    let s := s.withProfile access.scope profile
    if correction = true then
      match profile.evidence.findIdx? fun e =>
          e.Attributed ∧ e.deliveryId = deliveryId ∧ e.actor = some access.actor with
      | none => (.error .missing, s)
      | some index =>
        (.ok (), s.withProfile access.scope (profile.correct index feedback now).recompute)
    else
      match feedback with
      | none => (.error .invalid, s)
      | some feedback =>
        match profile.observe ⟨some access.actor, some access.scope, receipt.kind, deliveryId,
            feedback, now⟩ with
        | .error e => (.error e, s)
        | .ok observed => (.ok (), s.withProfile access.scope observed.recompute)

end AbbeyBot.Work.Types
