import Mathlib
import AbbeyBot.Engagement.Introductions

/-! # Community contact

Public contact in a guild channel: conversation starters, unanswered questions, welcomes and project
check-ins. Facts are checked evidence that the shell found; each admissible fact becomes a proposal,
at most one of a kind in a scope, and the candidate of a proposal has a receipt of its evidence. -/

namespace AbbeyBot.Engagement

open AbbeyBot.Calendar AbbeyBot.Library.OrderedMap AbbeyBot.Library.Result AbbeyBot.Library.Word
open AbbeyBot.Work.Types

def day : ℕ := 86400
def week : ℕ := day * 7

structure CommunityFact where
  kind : EngagementKind
  scope : EngagementScope
  source : Option SourceRef
  evidence : CommunityEvidence
  at_ : ℕ
  useful : Bool
  current : Bool
  deriving DecidableEq

structure CommunityFacts where
  rows : List CommunityFact
  joinEventsAvailable : Bool

/-- `community::enabled`. -/
def EngagementStore.communityEnabled (s : EngagementStore) (scope : EngagementScope)
    (kind : EngagementKind) : Bool :=
  kind.feature.any (s.featureEnabled scope)

/-- `fact_valid`. -/
def CommunityFact.Valid (f : CommunityFact) (facts : CommunityFacts) (now : ℕ) : Prop :=
  f.current = true ∧ f.useful = true ∧ f.at_ ≤ now ∧ f.scope.Valid ∧
    match f.evidence with
    | .message => (f.kind = .conversationStarter ∨ f.kind = .unansweredQuestion) ∧
        ∃ source ∈ f.source, source.Valid ∧ source.scope = f.scope ∧ source.at_ = f.at_ ∧
          ∃ t ∈ checkedAdd f.at_ day, t ≤ now
    | .join member joinedAt => f.kind = .welcome ∧ f.source = none ∧
        facts.joinEventsAvailable = true ∧ member ≠ 0 ∧ joinedAt = f.at_ ∧ now - f.at_ < 3600
    | .project p revision actor audience content => f.kind = .projectCheckIn ∧ f.source = none ∧
        validProject p revision actor audience content

instance (f : CommunityFact) (facts : CommunityFacts) (now : ℕ) :
    Decidable (f.Valid facts now) := by
  unfold CommunityFact.Valid
  cases f.evidence <;> infer_instance

/-- The person a fact is about, for a project its actor. -/
def CommunityFact.member (f : CommunityFact) : Option ℕ :=
  match f.evidence with
  | .project _ _ actor _ _ => some actor
  | _ => none

/-- The identity of the candidate of a fact. -/
def CommunityFact.identity (f : CommunityFact) (K : Crates) : String :=
  communityIdentity K f.scope f.kind f.evidence f.source

/-- The evidence is a join. -/
def CommunityEvidence.isJoin : CommunityEvidence → Bool
  | .join _ _ => true
  | _ => false

/-- A join that has a receipt anywhere in the guild. -/
def EngagementStore.JoinKnown (s : EngagementStore) (f : CommunityFact) : Prop :=
  f.evidence.isJoin = true ∧ ∃ row ∈ s.communityReceipts.toList, row.2.evidence = f.evidence ∧
    ∃ c ∈ s.candidates[row.1]?, ∃ g ∈ f.scope.guild?, c.scope.guild? = some g

instance (s : EngagementStore) (f : CommunityFact) : Decidable (s.JoinKnown f) := by
  unfold EngagementStore.JoinKnown; infer_instance

/-- How long after a contact the next one of the same kind may follow. -/
def EngagementKind.interval (kind : EngagementKind) : ℕ :=
  if kind = .projectCheckIn then week else day

/-- The candidate stands in the way of the fact. -/
def EngagementStore.Precludes (s : EngagementStore) (c : Candidate) (f : CommunityFact)
    (now : ℕ) : Prop :=
  let receipt := s.communityReceipts[c.id]?
  let recent := now < saturatingAdd ((receipt.bind CommunityReceipt.attemptedAt).getD c.dueAt)
    f.kind.interval
  c.scope = f.scope ∧ c.kind = f.kind ∧
    match f.evidence with
    | .join _ _ => ∃ r ∈ receipt, r.evidence = f.evidence
    | .project p _ _ _ _ => recent ∧ ∃ r ∈ receipt, r.evidence.project? = some p
    | .message => (∃ a ∈ c.source, ∃ b ∈ f.source, a.message = b.message) ∨
        (f.kind = .conversationStarter ∧ recent)

instance (s : EngagementStore) (c : Candidate) (f : CommunityFact) (now : ℕ) :
    Decidable (s.Precludes c f now) := by
  unfold EngagementStore.Precludes
  cases f.evidence <;> infer_instance

/-- The fact may become a proposal. -/
def EngagementStore.Admissible (s : EngagementStore) (K : Crates) (facts : CommunityFacts)
    (now : ℕ) (f : CommunityFact) : Prop :=
  f.identity K ∉ s.erasedIdentities ∧ ¬ s.JoinKnown f ∧ f.Valid facts now ∧
    s.communityEnabled f.scope f.kind = true ∧
    (∀ m ∈ f.member, ∃ p ∈ s.memberPolicies[m]?, p.PersonalizedEnabled K) ∧
    ¬ ∃ c ∈ values s.candidates, s.Precludes c f now

instance (s : EngagementStore) (K : Crates) (facts : CommunityFacts) (now : ℕ)
    (f : CommunityFact) : Decidable (s.Admissible K facts now f) := by
  unfold EngagementStore.Admissible; infer_instance

/-- The proposal of a fact. -/
def CommunityFact.proposal (f : CommunityFact) (now : ℕ) : CandidateProposal where
  kind := f.kind
  source := f.source
  member := f.member
  scope := f.scope
  dueAt := now
  introductionId := none

/-- One round of the loop over the facts. -/
def EngagementStore.collect (s : EngagementStore) (K : Crates) (facts : CommunityFacts) (now : ℕ)
    (proposals : List CandidateProposal) (f : CommunityFact) : List CandidateProposal :=
  if s.Admissible K facts now f ∧
      ¬ ∃ p ∈ proposals, p.scope = f.scope ∧ p.kind = f.kind then
    proposals ++ [f.proposal now]
  else proposals

/-- `community_candidates`. -/
def EngagementStore.communityCandidates (s : EngagementStore) (K : Crates)
    (facts : CommunityFacts) (now : ℕ) : List CandidateProposal :=
  if IsInstant now ∧ facts.rows.length ≤ 1000 then facts.rows.foldl (s.collect K facts now) []
  else []

/-- The fact is looked up for the proposal. -/
def CommunityFact.Backs (f : CommunityFact) (p : CandidateProposal) : Prop :=
  f.kind = p.kind ∧ f.scope = p.scope ∧ f.source = p.source ∧ (p.member = none ∨ f.member = p.member)

instance (f : CommunityFact) (p : CandidateProposal) : Decidable (f.Backs p) := by
  unfold CommunityFact.Backs; infer_instance

/-- The store with the receipt of the candidate that is proposed next. -/
def EngagementStore.withReceipt (s : EngagementStore) (id g : ℕ) (evidence : CommunityEvidence) :
    EngagementStore :=
  { s with
    communityReceipts := s.communityReceipts.insert id ⟨s.guildRevision g, none, evidence⟩ }

/-- One round of the loop over the proposals: the receipt is entered before the candidate is
proposed, and taken back if there is no new candidate. -/
def EngagementStore.proposeBacked (K : Crates) (facts : CommunityFacts) (now : ℕ)
    (acc : ℕ × EngagementStore) (p : CandidateProposal) : Except WorkError (ℕ × EngagementStore) := do
  let (count, next) := acc
  let fact ← orErr (facts.rows.find? fun f => f.Backs p) .invalid
  let id ← orErr (checkedAdd next.sequence 1) .full
  let g ← orErr p.scope.guild? .invalid
  let (proposed, next) ← (next.withReceipt id g fact.evidence).propose K p now
  match proposed with
  | some _ => return (count + 1, next)
  | none => return (count, { next with communityReceipts := next.communityReceipts.erase id })

/-- `EngagementStore::propose_community`. -/
def EngagementStore.proposeCommunity (K : Crates) (facts : CommunityFacts) (now : ℕ)
    (s : EngagementStore) : Except WorkError (ℕ × EngagementStore) := do
  ensure (s.erasedCommunityCharges.length + s.communityReceipts.size < 10000) .full
  let (count, next) ← (s.communityCandidates K facts now).foldlM
    (EngagementStore.proposeBacked K facts now) (0, s)
  next.validate K
  return (count, next)

/-- A proposal with its fact is entered with a receipt, or changes nothing. -/
theorem proposeBacked_ok {K : Crates} {facts : CommunityFacts} {now count count' : ℕ}
    {s s' : EngagementStore} {p : CandidateProposal}
    (hnew : s.communityReceipts[s.sequence + 1]? = none)
    (h : EngagementStore.proposeBacked K facts now (count, s) p = .ok (count', s')) :
    (s' = s ∧ ∃ c ∈ values s.candidates, c.Repeats p) ∨
      (¬ ∃ c ∈ values s.candidates, c.Repeats p) ∧
        ∃ fact g, facts.rows.find? (fun f => f.Backs p) = some fact ∧
          p.scope.guild? = some g ∧ p.identity K ∉ s.erasedIdentities ∧
          s' = (s.withReceipt (s.sequence + 1) g fact.evidence).withProposal p (s.sequence + 1) ∧
          s'.Valid K ∧ (s.candidateOf p (s.sequence + 1)).Timely := by
  unfold EngagementStore.proposeBacked at h
  simp only [bind_eq_ok, orErr_eq_ok, checkedAdd_eq_some, Prod.exists] at h
  obtain ⟨fact, hfact, _, ⟨rfl, -⟩, g, hg, proposed, next, hp, h⟩ := h
  obtain ⟨hid, ⟨rfl, rfl, hrepeats⟩ | ⟨rfl, rfl, hv, hnew', htimely⟩⟩ := propose_ok hp
  · simp only [pure_eq_ok, Prod.mk.injEq] at h
    refine .inl ⟨?_, hrepeats⟩
    rw [← h.2]
    have hreceipts : (s.communityReceipts.insert (s.sequence + 1)
        ⟨s.guildRevision g, none, fact.evidence⟩).erase (s.sequence + 1) = s.communityReceipts := by
      refine Std.ExtTreeMap.ext_getElem? fun k => ?_
      rw [Std.ExtTreeMap.getElem?_erase, getElem?_insert]
      by_cases hk : s.sequence + 1 = k
      · subst hk; simp [Std.ReflCmp.compare_self, hnew]
      · simp [Std.LawfulEqCmp.compare_eq_iff_eq, hk]
    simp only [EngagementStore.withReceipt, hreceipts]
  · simp only [pure_eq_ok, Prod.mk.injEq] at h
    rw [← h.2]
    exact .inr ⟨hnew', fact, g, hfact, hg, hid, rfl, hv, htimely⟩

/-! ### Budgets -/

/-- How long two attempts of a kind in a scope must be apart, for the kinds that have a budget. -/
def EngagementKind.budgetInterval : EngagementKind → Option ℕ
  | .conversationStarter => some day
  | .projectCheckIn => some week
  | _ => none

/-- The project of the receipt of a candidate. -/
def EngagementStore.projectOf (s : EngagementStore) (c : Candidate) : Option ℕ :=
  (s.communityReceipts[c.id]?).bind fun r => r.evidence.project?

/-- An erased attempt counts against the candidate. -/
def EngagementStore.ErasedAttemptCounts (s : EngagementStore) (K : Crates) (c : Candidate)
    (now interval : ℕ) (r : ErasedCommunityCharge) : Prop :=
  r.scope = c.scope ∧ r.kind = c.kind ∧ now < saturatingAdd r.at_ interval ∧
    (c.kind = .projectCheckIn → ∀ p ∈ s.projectOf c, r.project = some (projectIdentity K p))

instance (s : EngagementStore) (K : Crates) (c : Candidate) (now interval : ℕ)
    (r : ErasedCommunityCharge) : Decidable (s.ErasedAttemptCounts K c now interval r) := by
  unfold EngagementStore.ErasedAttemptCounts; infer_instance

/-- The attempt of a receipt does not count against the candidate. -/
def EngagementStore.AttemptAdmits (s : EngagementStore) (c : Candidate) (now interval id : ℕ)
    (r : CommunityReceipt) : Prop :=
  id = c.id ∨ (∀ t ∈ r.attemptedAt, saturatingAdd t interval ≤ now) ∨
    ∃ old ∈ s.candidates[id]?, ¬ (old.kind = c.kind ∧ old.scope = c.scope) ∨
      (c.kind = .projectCheckIn ∧ ∃ a ∈ r.evidence.project?, ∃ b ∈ s.projectOf c, a ≠ b)

instance (s : EngagementStore) (c : Candidate) (now interval id : ℕ) (r : CommunityReceipt) :
    Decidable (s.AttemptAdmits c now interval id r) := by
  unfold EngagementStore.AttemptAdmits; infer_instance

/-- `community_capacity`. -/
def EngagementStore.CommunityCapacity (s : EngagementStore) (K : Crates) (c : Candidate)
    (now : ℕ) : Prop :=
  s.safetyPrunedThrough ≤ now ∧ ∀ interval ∈ c.kind.budgetInterval,
    (¬ ∃ r ∈ s.erasedCommunityCharges, s.ErasedAttemptCounts K c now interval r) ∧
      All s.communityReceipts fun id r => s.AttemptAdmits c now interval id r

instance (s : EngagementStore) (K : Crates) (c : Candidate) (now : ℕ) :
    Decidable (s.CommunityCapacity K c now) := by
  unfold EngagementStore.CommunityCapacity; infer_instance

/-- `community_receipt_current`. -/
def EngagementStore.CommunityReceiptCurrent (s : EngagementStore) (c : Candidate) : Prop :=
  s.communityEnabled c.scope c.kind = true ∧ ∃ g ∈ c.scope.guild?,
    ∃ r ∈ s.communityReceipts[c.id]?, ∃ p ∈ s.guildFeatures[g]?, p.revision = r.policyRevision

instance (s : EngagementStore) (c : Candidate) : Decidable (s.CommunityReceiptCurrent c) := by
  unfold EngagementStore.CommunityReceiptCurrent; infer_instance

end AbbeyBot.Engagement
