import Mathlib
import AbbeyBot.Engagement.Policy

/-! # Proposals

A proposal becomes a pending candidate unless an erased identity or a candidate for the same contact
stands in the way. Weekly contacts, welcomes and project check-ins expire an hour after they are
due. -/

namespace AbbeyBot.Engagement

open AbbeyBot.Calendar AbbeyBot.Library.OrderedMap AbbeyBot.Library.Result AbbeyBot.Library.Word
open AbbeyBot.Work.Types

structure CandidateProposal where
  kind : EngagementKind
  source : Option SourceRef
  member : Option ℕ
  scope : EngagementScope
  dueAt : ℕ
  introductionId : Option ℕ
  deriving DecidableEq, Repr

/-! ### Identities of erased records -/

/-- `erasure_identity::invitation`. -/
def invitationIdentity (K : Crates) (interaction : ℕ) : String := K.digest (.invitation interaction)

/-- `erasure_identity::introduction`: a pair of members in a learning scope, in any order. -/
def introductionIdentity (K : Crates) (scope : EngagementScope) (members : Fin 2 → ℕ) : String :=
  K.digest (.introduction scope.learningScope (min (members 0) (members 1))
    (max (members 0) (members 1)))

/-- `erasure_identity::proposal`. -/
def CandidateProposal.identity (p : CandidateProposal) (K : Crates) : String :=
  K.digest (.proposal p.kind p.scope p.member (p.source.map SourceRef.message)
    (if p.kind = .weeklyCheckIn then p.dueAt else 0))

/-- `erasure_identity::candidate`. -/
def Candidate.identity (c : Candidate) (K : Crates) : String :=
  CandidateProposal.identity
    { kind := c.kind, source := c.source, member := c.member, scope := c.scope, dueAt := c.dueAt,
      introductionId := c.introductionId } K

/-- `erasure_identity::community`: a join is the same in every channel of the guild. -/
def communityIdentity (K : Crates) (scope : EngagementScope) (kind : EngagementKind)
    (evidence : CommunityEvidence) (source : Option SourceRef) : String :=
  K.digest (.community
    (match evidence with
      | .join _ _ => scope.learningScope
      | _ => scope.key)
    kind evidence (source.map SourceRef.message))

/-- `erasure_identity::project`. -/
def projectIdentity (K : Crates) (project : ℕ) : String := K.digest (.project project)

/-- `erasure_identity::task_follow_up`. -/
def taskFollowUpIdentity (K : Crates) (scope : WorkScope) (task : WorkContentRef) : String :=
  K.digest (.taskFollowUp scope task)

/-! ### Deadlines -/

/-- `Candidate::weekly_deadline`. -/
def Candidate.weeklyDeadline (c : Candidate) : Except WorkError (Option ℕ) :=
  if c.kind = .weeklyCheckIn ∨ c.kind = .welcome ∨ c.kind = .projectCheckIn then do
    let deadline ← orErr (checkedAdd c.dueAt 3600) .invalid
    utc deadline
    return some deadline
  else
    return none

/-- The hour of the candidate ends at an instant, where it has one. -/
def Candidate.Timely (c : Candidate) : Prop := ∃ deadline, c.weeklyDeadline = .ok deadline

/-- Only three kinds of contacts have an hour. -/
theorem Candidate.timely_of {c : Candidate} (hkind : c.kind ≠ .weeklyCheckIn)
    (hwelcome : c.kind ≠ .welcome) (hproject : c.kind ≠ .projectCheckIn) : c.Timely := by
  rw [Candidate.Timely, Candidate.weeklyDeadline,
    if_neg fun h => h.elim hkind fun h => h.elim hwelcome hproject]
  exact ⟨none, rfl⟩

/-- `Candidate::weekly_window`. -/
def Candidate.weeklyWindow (c : Candidate) (now : ℕ) : Except WorkError Bool := do
  let deadline ← c.weeklyDeadline
  return deadline.all fun last => c.dueAt ≤ now && now < last

/-! ### Proposing -/

/-- The candidate already stands for the proposed contact. -/
def Candidate.Repeats (c : Candidate) (p : CandidateProposal) : Prop :=
  c.kind = p.kind ∧ c.member = p.member ∧ c.scope = p.scope ∧
    match c.source, p.source with
    | some a, some b => a.message = b.message ∧ (p.kind ≠ .weeklyCheckIn ∨ c.dueAt = p.dueAt)
    | none, none => c.introductionId = p.introductionId ∧
        (p.introductionId.isSome = true ∨ c.dueAt = p.dueAt)
    | _, _ => False

instance (c : Candidate) (p : CandidateProposal) : Decidable (c.Repeats p) := by
  unfold Candidate.Repeats
  cases c.source <;> cases p.source <;> infer_instance

/-- The member may be contacted for this reason: the message is one of theirs that makes them
eligible, or it is the weekly contact they subscribed to. -/
def EngagementStore.Eligible (s : EngagementStore) (p : CandidateProposal) : Prop :=
  ∀ member ∈ p.member, p.kind ≠ .projectCheckIn → ∃ eligible ∈ s.eligibility[member]?,
    match p.source with
    | some source => source ∈ eligible
    | none => p.kind = .weeklyCheckIn →
        ∃ policy ∈ s.memberPolicies[member]?, ∃ w ∈ policy.weeklySubscription, w.scope = p.scope

instance (s : EngagementStore) (p : CandidateProposal) : Decidable (s.Eligible p) := by
  unfold EngagementStore.Eligible
  cases p.source <;> infer_instance

/-- There is room for `n` more records, one of them an open candidate. -/
def EngagementStore.HasRoom (s : EngagementStore) (n : ℕ) : Prop :=
  s.candidates.size + s.introductions.size + n ≤ 10000 ∧ s.openCandidates < 1000

instance (s : EngagementStore) (n : ℕ) : Decidable (s.HasRoom n) :=
  inferInstanceAs (Decidable (_ ∧ _))

/-- The candidate of a proposal. -/
def EngagementStore.candidateOf (s : EngagementStore) (p : CandidateProposal) (id : ℕ) :
    Candidate where
  id := id
  kind := p.kind
  source := p.source
  member := p.member
  scope := p.scope
  dueAt := p.dueAt
  revision := 1
  state := .pending
  dedupeKey := "engagement:" ++ toString id
  policyRevision := p.member.elim 0 s.memberRevision
  destination :=
    if p.kind.feature.isSome = true then .origin
    else ((p.member.bind (s.memberPolicies[·]?)).elim .origin fun policy =>
      policy.destinationFor p.scope)
  messageId := none
  introductionId := p.introductionId
  workRef := none
  expiresAt := none
  followUpReason := none

/-- The store with the candidate of a proposal. -/
def EngagementStore.withProposal (s : EngagementStore) (p : CandidateProposal) (id : ℕ) :
    EngagementStore :=
  { s with sequence := id, candidates := s.candidates.insert id (s.candidateOf p id) }

/-- `EngagementStore::propose`. -/
def EngagementStore.propose (K : Crates) (p : CandidateProposal) (now : ℕ) (s : EngagementStore) :
    Except WorkError (Option ℕ × EngagementStore) := do
  ensure (p.identity K ∉ s.erasedIdentities) .stale
  utc now
  utc p.dueAt
  ensure (∀ source ∈ p.source, IsInstant source.at_) .invalid
  p.scope.validate
  if ∃ c ∈ values s.candidates, c.Repeats p then
    return (none, s)
  ensure (s.HasRoom 1) .full
  ensure (s.Eligible p) .denied
  let id ← orErr (checkedAdd s.sequence 1) .full
  let _ ← (s.candidateOf p id).weeklyDeadline
  (s.withProposal p id).validate K
  return (some id, s.withProposal p id)

/-- A proposal that is new becomes the next candidate of a valid store; one that repeats a candidate
changes nothing. -/
theorem propose_ok {K : Crates} {p : CandidateProposal} {now : ℕ} {s s' : EngagementStore}
    {r : Option ℕ} (h : s.propose K p now = .ok (r, s')) :
    p.identity K ∉ s.erasedIdentities ∧
      ((r = none ∧ s' = s ∧ ∃ c ∈ values s.candidates, c.Repeats p) ∨
        (r = some (s.sequence + 1) ∧ s' = s.withProposal p (s.sequence + 1) ∧ s'.Valid K ∧
          (¬ ∃ c ∈ values s.candidates, c.Repeats p) ∧
          (s.candidateOf p (s.sequence + 1)).Timely)) := by
  unfold EngagementStore.propose at h
  simp only [bind_eq_ok, ensure_eq_ok, exists_unit, utc_eq_ok] at h
  obtain ⟨hid, -, -, -, -, h⟩ := h
  refine ⟨hid, ?_⟩
  split at h
  · rename_i hrep
    simp only [pure_eq_ok, Prod.mk.injEq] at h
    exact .inl ⟨h.1.symm, h.2.symm, hrep⟩
  · rename_i hrep
    simp only [bind_eq_ok, ensure_eq_ok, exists_unit, orErr_eq_ok, checkedAdd_eq_some,
      validate_eq_ok, pure_eq_ok, Prod.mk.injEq] at h
    obtain ⟨-, -, id, ⟨rfl, -⟩, deadline, hdeadline, hv, rfl, rfl⟩ := h
    exact .inr ⟨rfl, rfl, hv, hrep, deadline, hdeadline⟩

/-! ### Expiry -/

/-- The open candidates of the list whose deadline has passed. -/
def missedWeekly (now : ℕ) : List Candidate → Except WorkError (List ℕ)
  | [] => return []
  | c :: cs =>
    if c.state.isOpen then do
      let deadline ← c.weeklyDeadline
      let expired ← missedWeekly now cs
      return if deadline.any (· ≤ now) then c.id :: expired else expired
    else missedWeekly now cs

/-- The candidates of the list are cancelled in turn. -/
def EngagementStore.cancelAll : List ℕ → EngagementStore → Except WorkError Unit × EngagementStore
  | [], s => (.ok (), s)
  | id :: ids, s =>
    match s.candidates[id]? with
    | none => (.error .missing, s)
    | some c => EngagementStore.cancelAll ids
        { s with candidates := s.candidates.insert id { c with state := .cancelled } }

/-- `EngagementStore::expire_missed_weekly`. -/
def EngagementStore.expireMissedWeekly (now : ℕ) (s : EngagementStore) :
    Except WorkError ℕ × EngagementStore :=
  match (do utc now; missedWeekly now (values s.candidates)) with
  | .error e => (.error e, s)
  | .ok expired =>
    let (result, next) := s.cancelAll expired
    (result.map fun _ => expired.length, next)

/-- The candidate is open, and its hour has passed. -/
def Candidate.Missed (c : Candidate) (now : ℕ) : Prop :=
  c.state.isOpen = true ∧
    (c.kind = .weeklyCheckIn ∨ c.kind = .welcome ∨ c.kind = .projectCheckIn) ∧ c.dueAt + 3600 ≤ now

instance (c : Candidate) (now : ℕ) : Decidable (c.Missed now) := inferInstanceAs (Decidable (_ ∧ _))

theorem missed_iff {c : Candidate} {now : ℕ} {deadline : Option ℕ}
    (h : c.weeklyDeadline = .ok deadline) :
    c.Missed now ↔ c.state.isOpen = true ∧ deadline.any (· ≤ now) = true := by
  unfold Candidate.weeklyDeadline at h
  unfold Candidate.Missed
  split_ifs at h with hkind
  · simp only [bind_eq_ok, orErr_eq_ok, checkedAdd_eq_some, exists_unit, pure_eq_ok] at h
    obtain ⟨_, ⟨rfl, -⟩, -, rfl⟩ := h
    simp [hkind]
  · cases h
    simp [hkind]

/-- The candidates that were missed are found, if every open one has a deadline. -/
theorem missedWeekly_eq {now : ℕ} {cs : List Candidate} (h : ∀ c ∈ cs, c.Timely) :
    missedWeekly now cs = .ok ((cs.filter fun c => c.Missed now).map Candidate.id) := by
  induction cs with
  | nil => rfl
  | cons c cs ih =>
    have ih := ih fun c' hc' => h c' (List.mem_cons_of_mem _ hc')
    obtain ⟨deadline, hdeadline⟩ := h c List.mem_cons_self
    have hmissed : c.Missed now ↔ c.state.isOpen = true ∧ deadline.any (· ≤ now) = true :=
      missed_iff hdeadline
    unfold missedWeekly
    by_cases hopen : c.state.isOpen = true
    · simp only [hopen, true_and] at hmissed
      rw [if_pos hopen, hdeadline, ih]
      by_cases hlate : deadline.any (· ≤ now) = true <;> simp [hmissed, hlate]
    · simp [hopen, hmissed, ih]

/-- Candidates that are there are cancelled without an error, and nothing else happens. -/
theorem cancelAll_eq {s : EngagementStore} {ids : List ℕ} (h : ∀ id ∈ ids, id ∈ s.candidates) :
    s.cancelAll ids = (.ok (),
      { s with candidates := s.candidates.map fun id c =>
          if id ∈ ids then { c with state := .cancelled } else c }) := by
  induction ids generalizing s with
  | nil => simp [EngagementStore.cancelAll]
  | cons id ids ih =>
    obtain ⟨c, hc⟩ := mem_iff.mp (h id List.mem_cons_self)
    unfold EngagementStore.cancelAll
    rw [hc]
    dsimp only
    rw [ih fun id' hid' => Std.ExtTreeMap.mem_insert.mpr (.inr (h id' (List.mem_cons_of_mem _ hid')))]
    congr 2
    refine Std.ExtTreeMap.ext_getElem? fun k => ?_
    simp only [Std.ExtTreeMap.getElem?_map, getElem?_insert]
    by_cases hk : id = k
    · subst hk
      by_cases hid : id ∈ ids <;> simp [hc, hid]
    · simp [hk, Ne.symm hk]

/-- Where every candidate is stored under its number and has a deadline, the candidates that were
missed are cancelled. -/
theorem expireMissedWeekly_eq {s : EngagementStore} {now : ℕ} (hnow : IsInstant now)
    (hids : ∀ (id : ℕ) (c : Candidate), s.candidates[id]? = some c → c.id = id)
    (htimely : ∀ (id : ℕ) (c : Candidate), s.candidates[id]? = some c → c.Timely) :
    ∃ n, s.expireMissedWeekly now = (.ok n,
      { s with candidates := s.candidates.map fun _ c =>
          if c.Missed now then { c with state := .cancelled } else c }) := by
  have hmissed : (do utc now; missedWeekly now (values s.candidates)) =
      .ok (((values s.candidates).filter fun c => c.Missed now).map Candidate.id) := by
    rw [missedWeekly_eq fun c hc => by
      obtain ⟨k, hk⟩ := mem_values.mp hc
      exact htimely k c hk]
    simp [utc, ensure_of hnow]
  have hmem (id : ℕ) : id ∈ ((values s.candidates).filter fun c => c.Missed now).map Candidate.id ↔
      ∃ c, s.candidates[id]? = some c ∧ c.Missed now := by
    simp only [List.mem_map, List.mem_filter, decide_eq_true_eq]
    constructor
    · rintro ⟨c, ⟨hc, hmiss⟩, rfl⟩
      obtain ⟨k, hk⟩ := mem_values.mp hc
      exact ⟨c, by rw [hids k c hk, hk], hmiss⟩
    · rintro ⟨c, hc, hmiss⟩
      exact ⟨c, ⟨mem_values.mpr ⟨id, hc⟩, hmiss⟩, hids id c hc⟩
  unfold EngagementStore.expireMissedWeekly
  rw [hmissed]
  dsimp only
  rw [cancelAll_eq fun id hid => by
    obtain ⟨c, hc, -⟩ := (hmem id).mp hid
    exact mem_iff.mpr ⟨c, hc⟩]
  refine ⟨_, Prod.ext rfl ?_⟩
  dsimp only
  congr 1
  refine Std.ExtTreeMap.ext_getElem? fun k => ?_
  simp only [Std.ExtTreeMap.getElem?_map]
  cases hk : s.candidates[k]? with
  | none => rfl
  | some c =>
    have hiff : k ∈ ((values s.candidates).filter fun c => c.Missed now).map Candidate.id ↔
        c.Missed now := by
      rw [hmem, hk]
      simp
    simp only [Option.map_some, hiff]

end AbbeyBot.Engagement
