import Mathlib
import AbbeyBot.Engagement.Schedule

/-! # Introductions

Two members are introduced to each other publicly, each in their own words, once both have approved
the same revision of the introduction. An edit makes a new revision and clears both approvals. -/

namespace AbbeyBot.Engagement

open AbbeyBot.Calendar AbbeyBot.Library.OrderedMap AbbeyBot.Library.Result AbbeyBot.Library.Word
open AbbeyBot.Work.Types

/-- The feature is on in the scope, which is a channel of a guild. -/
def EngagementStore.featureEnabled (s : EngagementStore) (scope : EngagementScope)
    (f : CommunityFeature) : Bool :=
  match scope with
  | .guild g channel => (s.guildFeatures[g]?).any fun p => p.admits f channel
  | .dm _ _ => false

/-- `introductions::enabled`. -/
def EngagementStore.introductionsEnabled (s : EngagementStore) (scope : EngagementScope) : Bool :=
  s.featureEnabled scope .introductions

/-- `introduction_member_enabled`. -/
def EngagementStore.IntroductionMemberEnabled (s : EngagementStore) (K : Crates) (member : ℕ)
    (scope : EngagementScope) : Prop :=
  ∃ p ∈ s.memberPolicies[member]?,
    p.PersonalizedEnabled K ∧ scope ∉ p.stoppedScopes ∧ ¬ p.GuildStopped scope

instance (s : EngagementStore) (K : Crates) (member : ℕ) (scope : EngagementScope) :
    Decidable (s.IntroductionMemberEnabled K member scope) := by
  unfold EngagementStore.IntroductionMemberEnabled; infer_instance

/-- The two members have an introduction in the guild of the scope. -/
def EngagementStore.PairKnown (s : EngagementStore) (members : Fin 2 → ℕ)
    (scope : EngagementScope) : Prop :=
  ∃ i ∈ values s.introductions, (∃ g ∈ scope.guild?, i.scope.guild? = some g) ∧
    ∀ k, ∃ k', i.members k' = members k

instance (s : EngagementStore) (members : Fin 2 → ℕ) (scope : EngagementScope) :
    Decidable (s.PairKnown members scope) := by
  unfold EngagementStore.PairKnown; infer_instance

/-- The introduction that a member starts, with their own description. -/
def newIntroduction (members : Fin 2 → ℕ) (g channel : ℕ) (description : String) (id : ℕ) :
    Introduction where
  id := id
  revision := 1
  scope := .guild g channel
  members := members
  approvedSelfDescriptions := ![some description, none]
  approvals := fun _ => none
  destination := channel
  state := .pending

/-- The candidate that announces a new introduction. -/
def EngagementStore.announcementOf (s : EngagementStore) (i : Introduction) (g now id : ℕ) :
    Candidate where
  id := id
  kind := .introduction
  source := none
  member := none
  scope := i.scope
  dueAt := now
  revision := 1
  state := .pending
  dedupeKey := "introduction:" ++ toString i.id
  policyRevision := s.guildRevision g
  destination := .origin
  messageId := none
  introductionId := some i.id
  workRef := none
  expiresAt := none
  followUpReason := none

/-- The store with a new introduction and its candidate. -/
def EngagementStore.withIntroduction (s : EngagementStore) (i : Introduction)
    (g now id : ℕ) : EngagementStore :=
  { s with
    sequence := id
    introductions := s.introductions.insert i.id i
    candidates := s.candidates.insert id (s.announcementOf i g now id) }

/-- `EngagementStore::create_introduction`. -/
def EngagementStore.createIntroduction (K : Crates) (members : Fin 2 → ℕ)
    (scope : EngagementScope) (description : String) (now : ℕ) (s : EngagementStore) :
    Except WorkError (ℕ × EngagementStore) := do
  ensure (introductionIdentity K scope members ∉ s.erasedIdentities) .stale
  scope.validate
  utc now
  ensure ((∀ k, members k ≠ 0) ∧ members 0 ≠ members 1 ∧ descriptionValid description = true)
    .invalid
  ensure (s.introductionsEnabled scope = true ∧
    ∀ k, s.IntroductionMemberEnabled K (members k) scope) .denied
  ensure (s.HasRoom 2) .full
  ensure (¬ s.PairKnown members scope) .stale
  match scope with
  | .guild g channel =>
    let id ← orErr (checkedAdd s.sequence 1) .full
    let candidateId ← orErr (checkedAdd id 1) .full
    let next := s.withIntroduction (newIntroduction members g channel description id) g now
      candidateId
    next.validate K
    return (id, next)
  | .dm _ _ => .error .invalid

/-- An introduction is created with its candidate, for a pair that is new to the guild. -/
theorem createIntroduction_ok {K : Crates} {members : Fin 2 → ℕ} {scope : EngagementScope}
    {description : String} {now : ℕ} {s s' : EngagementStore} {id : ℕ}
    (h : s.createIntroduction K members scope description now = .ok (id, s')) :
    introductionIdentity K scope members ∉ s.erasedIdentities ∧ id = s.sequence + 1 ∧
      ∃ g channel, scope = .guild g channel ∧ s' = s.withIntroduction
        (newIntroduction members g channel description id) g now (id + 1) ∧ s'.Valid K := by
  unfold EngagementStore.createIntroduction at h
  simp only [bind_eq_ok, ensure_eq_ok, exists_unit, utc_eq_ok] at h
  obtain ⟨hid, -, -, -, -, -, -, h⟩ := h
  cases scope with
  | dm m channel => cases h
  | guild g channel =>
    simp only [bind_eq_ok, orErr_eq_ok, checkedAdd_eq_some, exists_unit, validate_eq_ok, pure_eq_ok,
      Prod.mk.injEq] at h
    obtain ⟨_, ⟨rfl, -⟩, _, ⟨rfl, -⟩, hv, rfl, rfl⟩ := h
    exact ⟨hid, rfl, g, channel, rfl, rfl, hv⟩

/-- An introduction after an edit by one of its members. -/
def Introduction.edit (i : Introduction) (index : Fin 2) (revision : ℕ) (description : String)
    (scope : EngagementScope) (destination : ℕ) : Introduction :=
  { i with
    revision := revision
    scope := scope
    destination := destination
    approvedSelfDescriptions :=
      Function.update i.approvedSelfDescriptions index (some description)
    approvals := fun _ => none
    state := .pending }

/-- The announcing candidate after an edit of its introduction. -/
def Candidate.reannounce (c : Candidate) (revision : ℕ) (scope : EngagementScope)
    (policyRevision : ℕ) : Candidate :=
  { c with revision := revision, scope := scope, policyRevision := policyRevision }

/-- The store after an edit: the introduction is replaced and its candidate follows. -/
def EngagementStore.withEdit (s : EngagementStore) (id : ℕ) (edited : Introduction) (g : ℕ) :
    EngagementStore :=
  { s with
    introductions := s.introductions.insert id edited
    candidates := s.candidates.map fun _ c =>
      if c.introductionId = some id then
        c.reannounce edited.revision edited.scope (s.guildRevision g)
      else c }

/-- `EngagementStore::edit_introduction`. -/
def EngagementStore.editIntroduction (K : Crates) (id member revision : ℕ) (description : String)
    (destination : Option ℕ) (s : EngagementStore) : Except WorkError (ℕ × EngagementStore) := do
  ensure (descriptionValid description = true) .invalid
  let i ← orErr s.introductions[id]? .missing
  let index ← orErr (i.index member) .denied
  ensure (i.revision = revision ∧ i.state.isOpen = true) .stale
  let revision ← orErr (checkedAdd revision 1) .full
  ensure (∀ d ∈ destination, d ≠ 0 ∧ i.scope.guild?.isSome = true) .invalid
  let scope := destination.elim i.scope fun d => .guild (i.scope.guild?.getD 0) d
  let edited := i.edit index revision description scope (destination.getD i.destination)
  ensure (s.introductionsEnabled scope = true) .denied
  let g ← orErr scope.guild? .invalid
  ensure (All s.candidates fun _ c => c.introductionId = some id → c.state = .pending) .stale
  (s.withEdit id edited g).validate K
  return (revision, s.withEdit id edited g)

/-- An edit by a member gives the next revision, in the same guild, without approvals. -/
theorem editIntroduction_ok {K : Crates} {id member revision : ℕ} {description : String}
    {destination : Option ℕ} {s s' : EngagementStore} {r : ℕ}
    (h : s.editIntroduction K id member revision description destination = .ok (r, s')) :
    ∃ i index scope g, s.introductions[id]? = some i ∧ i.index member = some index ∧
      i.revision = revision ∧ i.state.isOpen = true ∧ r = revision + 1 ∧
      scope.guild? = some g ∧ i.scope.guild? = some g ∧
      (∀ (k : ℕ) (c : Candidate), s.candidates[k]? = some c → c.introductionId = some id →
        c.state = .pending) ∧
      s' = s.withEdit id (i.edit index r description scope (destination.getD i.destination)) g ∧
      s'.Valid K := by
  unfold EngagementStore.editIntroduction at h
  simp only [bind_eq_ok, ensure_eq_ok, exists_unit, orErr_eq_ok, checkedAdd_eq_some, all_iff,
    validate_eq_ok, pure_eq_ok, Prod.mk.injEq] at h
  obtain ⟨-, i, hi, index, hindex, ⟨hrev, hopen⟩, _, ⟨rfl, -⟩, hd, -, g, hg, hpending, hv, rfl,
    rfl⟩ := h
  refine ⟨i, index, _, g, hi, hindex, hrev, hopen, rfl, hg, ?_, hpending, rfl, hv⟩
  cases destination with
  | none => exact hg
  | some d =>
    have hguild := (hd d rfl).2
    rw [Option.isSome_iff_exists] at hguild
    obtain ⟨g', hg'⟩ := hguild
    rw [Option.elim_some, hg'] at hg
    exact hg'.trans hg

/-- An introduction with one more approval; it is ready once there are two. -/
def Introduction.approve (i : Introduction) (index : Fin 2) (revision : ℕ) : Introduction :=
  let approvals := Function.update i.approvals index (some revision)
  { i with
    approvals := approvals
    state := if ∀ k, approvals k = some revision then .ready else i.state }

/-- `EngagementStore::approve_introduction`. -/
def EngagementStore.approveIntroduction (K : Crates) (id member revision : ℕ)
    (s : EngagementStore) : Except WorkError (Bool × EngagementStore) := do
  let i ← orErr s.introductions[id]? .missing
  let index ← orErr (i.index member) .denied
  ensure (i.revision = revision ∧ i.state.isOpen = true) .stale
  ensure ((i.approvedSelfDescriptions index).isSome = true ∧
    s.introductionsEnabled i.scope = true ∧
    ∀ k, s.IntroductionMemberEnabled K (i.members k) i.scope) .denied
  let c ← orErr (s.announcement id) .missing
  let g ← orErr i.scope.guild? .invalid
  ensure (c.state = .pending ∧ c.policyRevision = s.guildRevision g) .stale
  let approved := i.approve index revision
  return (decide (∀ k, approved.approvals k = some revision),
    { s with introductions := s.introductions.insert id approved })

/-- An approval is by a member whose own description is there, of the current revision. -/
theorem approveIntroduction_ok {K : Crates} {id member revision : ℕ} {s s' : EngagementStore}
    {r : Bool} (h : s.approveIntroduction K id member revision = .ok (r, s')) :
    ∃ i index, s.introductions[id]? = some i ∧ i.index member = some index ∧
      i.revision = revision ∧ i.state.isOpen = true ∧
      (i.approvedSelfDescriptions index).isSome = true ∧
      s' = { s with introductions := s.introductions.insert id (i.approve index revision) } := by
  unfold EngagementStore.approveIntroduction at h
  simp only [bind_eq_ok, ensure_eq_ok, exists_unit, orErr_eq_ok, pure_eq_ok, Prod.mk.injEq] at h
  obtain ⟨i, hi, index, hindex, ⟨hrev, hopen⟩, ⟨hown, -⟩, c, -, g, -, -, -, rfl⟩ := h
  exact ⟨i, index, hi, hindex, hrev, hopen, hown, rfl⟩

/-- A withdrawn introduction. -/
def Introduction.withdraw (i : Introduction) (revision : ℕ) : Introduction :=
  { i with revision := revision, state := .cancelled, approvals := fun _ => none }

/-- The announcing candidate of a withdrawn introduction. -/
def Candidate.withdraw (c : Candidate) (revision : ℕ) : Candidate :=
  { c with state := .cancelled, revision := revision }

/-- The store after a withdrawal. -/
def EngagementStore.withWithdrawal (s : EngagementStore) (id : ℕ) (i : Introduction)
    (revision : ℕ) : EngagementStore :=
  { s with
    introductions := s.introductions.insert id (i.withdraw revision)
    candidates := s.candidates.map fun _ c =>
      if c.introductionId = some id then c.withdraw revision else c }

/-- `EngagementStore::withdraw_introduction`. -/
def EngagementStore.withdrawIntroduction (id member revision : ℕ) (s : EngagementStore) :
    Except WorkError (Unit × EngagementStore) := do
  let i ← orErr s.introductions[id]? .missing
  ensure (∃ k, i.members k = member) .denied
  ensure (i.revision = revision ∧ ∃ c ∈ values s.candidates,
    c.introductionId = some id ∧ c.state.isOpen = true) .stale
  let revision ← orErr (checkedAdd revision 1) .full
  return ((), s.withWithdrawal id i revision)

/-- A withdrawal is by a member, while the candidate is open. -/
theorem withdrawIntroduction_ok {id member revision : ℕ} {s s' : EngagementStore}
    {r : Unit} (h : s.withdrawIntroduction id member revision = .ok (r, s')) :
    ∃ i, s.introductions[id]? = some i ∧ (∃ k, i.members k = member) ∧ i.revision = revision ∧
      (∃ c ∈ values s.candidates, c.introductionId = some id ∧ c.state.isOpen = true) ∧
      s' = s.withWithdrawal id i (revision + 1) := by
  unfold EngagementStore.withdrawIntroduction at h
  simp only [bind_eq_ok, ensure_eq_ok, exists_unit, orErr_eq_ok, checkedAdd_eq_some, pure_eq_ok,
    Prod.mk.injEq, true_and] at h
  obtain ⟨i, hi, hmember, ⟨hrev, hopen⟩, _, ⟨rfl, -⟩, rfl⟩ := h
  exact ⟨i, hi, hmember, hrev, hopen, rfl⟩

/-- The states of an introduction and its candidate under which it may still be published. -/
def publishable : IntroductionState → CandidateState → Bool
  | .ready, .pending => true
  | .consumed, .reserved => true
  | _, _ => false

/-- `introduction_receipt_current`. -/
def EngagementStore.IntroductionReceiptCurrent (s : EngagementStore) (K : Crates)
    (c : Candidate) : Prop :=
  c.kind = .introduction ∧ c.source = none ∧ c.member = none ∧ c.destination = .origin ∧
    s.introductionsEnabled c.scope = true ∧ ∃ i ∈ s.introductionOf c,
      (∃ g ∈ i.scope.guild?, i.scope = .guild g i.destination ∧
        ∃ p ∈ s.guildFeatures[g]?, p.revision = c.policyRevision) ∧
      i.scope = c.scope ∧ i.revision = c.revision ∧ i.Approved ∧
      (∀ k, ∃ text ∈ i.approvedSelfDescriptions k, descriptionValid text = true) ∧
      publishable i.state c.state = true ∧
      ∀ k, s.IntroductionMemberEnabled K (i.members k) i.scope

instance (s : EngagementStore) (K : Crates) (c : Candidate) :
    Decidable (s.IntroductionReceiptCurrent K c) := by
  unfold EngagementStore.IntroductionReceiptCurrent; infer_instance

/-- The public text of the descriptions of two members. -/
def publicText (a b : String) : String :=
  "Two members have approved sharing these introductions here:\n\n" ++ a ++ "\n\n" ++ b ++
    "\n\nYou’re welcome to connect around what you’ve shared."

/-- `introductions::publication`. -/
def Introduction.publication (i : Introduction) : Except WorkError String := do
  ensure (i.state = .consumed ∧ i.Approved) .denied
  match i.approvedSelfDescriptions 0, i.approvedSelfDescriptions 1 with
  | some a, some b =>
    ensure (descriptionValid a = true ∧ descriptionValid b = true) .invalid
    return publicText a b
  | _, _ => .error .denied

/-- A consumed introduction that both members approved is published in their words. -/
theorem publication_ok {i : Introduction} {text : String} (h : i.publication = .ok text) :
    i.state = .consumed ∧ i.Approved ∧ ∃ a b, i.approvedSelfDescriptions 0 = some a ∧
      i.approvedSelfDescriptions 1 = some b ∧ text = publicText a b := by
  unfold Introduction.publication at h
  simp only [bind_eq_ok, ensure_eq_ok, exists_unit] at h
  obtain ⟨⟨hstate, happroved⟩, h⟩ := h
  split at h
  · rename_i a b ha hb
    simp only [bind_eq_ok, ensure_eq_ok, exists_unit, pure_eq_ok] at h
    exact ⟨hstate, happroved, a, b, ha, hb, h.2.symm⟩
  · cases h

end AbbeyBot.Engagement
