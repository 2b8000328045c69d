import Mathlib
import AbbeyBot.Engagement.Types

/-! # Explicit settings

The checks of scopes, member policies, observed messages and guild features: what a member or a
manager chose, and what is known of a message. -/

namespace AbbeyBot.Engagement

open AbbeyBot.Calendar AbbeyBot.Library.OrderedMap AbbeyBot.Library.Result
open AbbeyBot.Library.Text AbbeyBot.Work.Types

/-! ### Scopes and sources -/

def EngagementScope.Valid : EngagementScope → Prop
  | .guild g channel => g ≠ 0 ∧ channel ≠ 0
  | .dm member channel => member ≠ 0 ∧ channel ≠ 0

instance (scope : EngagementScope) : Decidable scope.Valid := by
  cases scope <;> unfold EngagementScope.Valid <;> infer_instance

/-- `EngagementScope::validate`. -/
def EngagementScope.validate (scope : EngagementScope) : Except WorkError Unit :=
  ensure scope.Valid .invalid

/-- Direct messages are with the actor. -/
def EngagementScope.MatchesMember : EngagementScope → ℕ → Prop
  | .guild _ _, _ => True
  | .dm member _, actor => member = actor

instance (scope : EngagementScope) (actor : ℕ) :
    Decidable (scope.MatchesMember actor) := by
  cases scope <;> unfold EngagementScope.MatchesMember <;> infer_instance

@[mk_iff] structure SourceRef.Valid (source : SourceRef) : Prop where
  scope : source.scope.Valid
  message : source.message ≠ 0
  author : source.author ≠ 0
  revision : source.revision ≠ 0
  matchesMember : source.scope.MatchesMember source.author

instance (source : SourceRef) : Decidable source.Valid :=
  decidable_of_iff' _ source.valid_iff

/-- `SourceRef::validate`. -/
def SourceRef.validate (source : SourceRef) : Except WorkError Unit :=
  ensure source.Valid .invalid

/-! ### Policies -/

/-- Personal contact needs a limit, a time zone and no general stop. -/
def MemberPolicy.PersonalizedEnabled (p : MemberPolicy) (K : Crates) : Prop :=
  (∃ v ∈ p.dailyLimit, 1 ≤ v ∧ v ≤ 4) ∧
    (∃ v ∈ p.timezone, (K.parseTz v).isSome = true) ∧ p.globalStop = false

instance (p : MemberPolicy) (K : Crates) : Decidable (p.PersonalizedEnabled K) := by
  unfold MemberPolicy.PersonalizedEnabled; infer_instance

/-- The scopes a policy names. -/
def MemberPolicy.StoppedOrDestination (p : MemberPolicy) (P : EngagementScope → Prop) : Prop :=
  (∀ scope ∈ p.stoppedScopes, P scope) ∧ All p.destinations fun scope _ => P scope

instance (p : MemberPolicy) (P : EngagementScope → Prop) [DecidablePred P] :
    Decidable (p.StoppedOrDestination P) := by
  unfold MemberPolicy.StoppedOrDestination; infer_instance

@[mk_iff] structure MemberPolicy.Valid (p : MemberPolicy) (K : Crates) : Prop where
  stoppedGuilds : 0 ∉ p.stoppedGuilds
  dailyLimit : ∀ v ∈ p.dailyLimit, 1 ≤ v ∧ v ≤ 4
  weeklyLimit : ∀ v ∈ p.weeklyLimit, 1 ≤ v ∧ v ≤ 28 ∧ ∃ d ∈ p.dailyLimit, v ≤ d * 7
  timezone : ∀ v ∈ p.timezone, (K.parseTz v).isSome = true
  quiet : p.quietStart ≤ 23 ∧ p.quietEnd ≤ 23
  scopes : p.StoppedOrDestination EngagementScope.Valid
  weekly : ∀ w ∈ p.weeklySubscription,
    w.scope.Valid ∧ w.weekday ≤ 6 ∧ w.hour ≤ 23

instance (p : MemberPolicy) (K : Crates) : Decidable (p.Valid K) :=
  decidable_of_iff' _ (p.valid_iff K)

/-- `MemberPolicy::validate`. -/
def MemberPolicy.validate (p : MemberPolicy) (K : Crates) : Except WorkError Unit :=
  ensure (p.Valid K) .invalid

/-- The scopes of the policy are open to the member it belongs to. -/
def MemberPolicy.BelongsTo (p : MemberPolicy) (member : ℕ) : Prop :=
  p.StoppedOrDestination (EngagementScope.MatchesMember · member) ∧
    ∀ w ∈ p.weeklySubscription, w.scope.MatchesMember member

instance (p : MemberPolicy) (member : ℕ) : Decidable (p.BelongsTo member) := by
  unfold MemberPolicy.BelongsTo; infer_instance

/-- The member stopped contact in the guild of the scope. -/
def MemberPolicy.GuildStopped (p : MemberPolicy) (scope : EngagementScope) : Prop :=
  ∃ g ∈ scope.guild?, g ∈ p.stoppedGuilds

instance (p : MemberPolicy) (scope : EngagementScope) :
    Decidable (p.GuildStopped scope) := by
  unfold MemberPolicy.GuildStopped; infer_instance

/-- The destination the member chose for a scope. -/
def MemberPolicy.destinationFor (p : MemberPolicy) (scope : EngagementScope) :
    DestinationPreference := (p.destinations[scope]?).getD .origin

@[mk_iff] structure GuildFeaturePolicy.Valid (p : GuildFeaturePolicy) : Prop where
  channels : All p.channels fun _ channels => 0 ∉ channels
  enabled : ∀ f ∈ p.enabled, ∃ channels ∈ p.channels[f]?, channels ≠ ∅

instance (p : GuildFeaturePolicy) : Decidable p.Valid :=
  decidable_of_iff' _ p.valid_iff

/-- `introductions::description_valid`. -/
def descriptionValid (text : String) : Bool := !isBlank text && text.length ≤ 300

end AbbeyBot.Engagement
