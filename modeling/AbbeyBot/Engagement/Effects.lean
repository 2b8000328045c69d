import Mathlib
import AbbeyBot.Engagement.Operations

/-! # What an operation can do

`step_effect` says once what any operation can do to a store: records are added, or they change
state while nothing is attempted, or a candidate is reserved, or a member is erased, or old
protections are pruned, or settings are replaced. Invariants of runs are case analyses over it. -/

namespace AbbeyBot.Engagement

open AbbeyBot.Library.OrderedMap AbbeyBot.Library.Result AbbeyBot.Work.Types

/-! ### Numbers and links -/

structure Candidate.Core (c : Candidate) (id sequence : ℕ) : Prop where
  id : c.id = id ∧ id ≤ sequence
  introduction : c.kind = .introduction ↔ c.introductionId.isSome = true
  linked : c.workRef.isSome = true → c.kind = .followUp

/-- Records are numbered up to the sequence, and a receipt belongs to a public candidate. -/
structure EngagementStore.Core (s : EngagementStore) : Prop where
  candidates : ∀ (id : ℕ) (c : Candidate), s.candidates[id]? = some c → c.Core id s.sequence
  introductions : ∀ (id : ℕ) (i : Introduction), s.introductions[id]? = some i →
    i.id = id ∧ id ≤ s.sequence
  receipts : ∀ (id : ℕ) (r : CommunityReceipt), s.communityReceipts[id]? = some r →
    ∃ c, s.candidates[id]? = some c ∧ c.kind.feature.isSome = true

theorem Candidate.Valid.core {c : Candidate} {id sequence : ℕ} (h : c.Valid id sequence)
    (hi : c.kind = .introduction ↔ c.introductionId.isSome = true) : c.Core id sequence := by
  refine ⟨h.id.2, hi, fun hw => ?_⟩
  obtain ⟨task, hw⟩ := Option.isSome_iff_exists.mp hw
  exact (validateTaskFollowUp_ok hw h.taskFollowUp).1

theorem EngagementStore.Valid.core {K : Crates} {s : EngagementStore} (h : s.Valid K) : s.Core where
  candidates id c hc := (all_iff.mp h.candidates.rows id c hc).core
    (all_iff.mp h.candidates.introductions id c hc).1
  introductions id i hi := (all_iff.mp h.introductions.rows id i hi).id.2
  receipts id r hr := by
    obtain ⟨c, hc, hp⟩ := all_iff.mp h.community.receipts id r hr
    exact ⟨c, hc, hp.feature⟩

theorem core_empty : EngagementStore.empty.Core where
  candidates id c hc := by simp [EngagementStore.empty] at hc
  introductions id i hi := by simp [EngagementStore.empty] at hi
  receipts id r hr := by simp [EngagementStore.empty] at hr

/-- The next number is free. -/
theorem EngagementStore.Core.free {s : EngagementStore} (h : s.Core) {n : ℕ} (hn : s.sequence < n) :
    s.candidates[n]? = none ∧ s.introductions[n]? = none ∧ s.communityReceipts[n]? = none := by
  have hc : s.candidates[n]? = none := by
    by_contra hne
    obtain ⟨c, hc⟩ := Option.ne_none_iff_exists'.mp hne
    have := (h.candidates n c hc).id.2
    omega
  refine ⟨hc, ?_, ?_⟩
  · by_contra hne
    obtain ⟨i, hi⟩ := Option.ne_none_iff_exists'.mp hne
    have := (h.introductions n i hi).2
    omega
  · by_contra hne
    obtain ⟨r, hr⟩ := Option.ne_none_iff_exists'.mp hne
    obtain ⟨c, hc', -⟩ := h.receipts n r hr
    rw [hc] at hc'
    cases hc'

/-! ### Records are added -/

/-- New records have new numbers, and nothing of them is approved or attempted yet. Only where
`linked` holds may a new candidate follow up a task. -/
structure Grows (linked : Prop) (s s' : EngagementStore) : Prop where
  rest : s' =
    { s with
      sequence := s'.sequence
      candidates := s'.candidates
      introductions := s'.introductions
      communityReceipts := s'.communityReceipts
      invitationRequests := s'.invitationRequests
      suppressedInvitationRequests := s'.suppressedInvitationRequests }
  sequence : s.sequence ≤ s'.sequence
  candidates : Extends (fun id c => s.sequence < id ∧ c.state = .pending ∧
    (c.workRef.isSome = true → linked) ∧ c.Timely) s.candidates s'.candidates
  introductions : Extends (fun id i => s.sequence < id ∧ i.state = .pending ∧
    ∀ k, i.approvals k = none) s.introductions s'.introductions
  receipts : Extends (fun id r => s.sequence < id ∧ r.attemptedAt = none)
    s.communityReceipts s'.communityReceipts

variable {linked : Prop}

theorem Grows.refl (s : EngagementStore) : Grows linked s s :=
  ⟨rfl, le_rfl, .refl _, .refl _, .refl _⟩

theorem Grows.trans {s s' s'' : EngagementStore} (h : Grows linked s s')
    (h' : Grows linked s' s'') : Grows linked s s'' where
  rest := by
    rw [h'.rest, h.rest]
  sequence := h.sequence.trans h'.sequence
  candidates := h.candidates.trans (h'.candidates.mono fun _ _ hp =>
    ⟨h.sequence.trans_lt hp.1, hp.2⟩)
  introductions := h.introductions.trans (h'.introductions.mono fun _ _ hp =>
    ⟨h.sequence.trans_lt hp.1, hp.2⟩)
  receipts := h.receipts.trans (h'.receipts.mono fun _ _ hp => ⟨h.sequence.trans_lt hp.1, hp.2⟩)

theorem grows_withProposal {s : EngagementStore} (hs : s.Core) (p : CandidateProposal)
    (htimely : (s.candidateOf p (s.sequence + 1)).Timely) :
    Grows linked s (s.withProposal p (s.sequence + 1)) where
  rest := rfl
  sequence := Nat.le_succ _
  candidates := .insert (hs.free (Nat.lt_succ_self _)).1 ⟨Nat.lt_succ_self _, rfl, nofun, htimely⟩
  introductions := .refl _
  receipts := .refl _

theorem grows_withReceipt {s : EngagementStore} (hs : s.Core) (g : ℕ)
    (evidence : CommunityEvidence) (p : CandidateProposal)
    (htimely : (s.candidateOf p (s.sequence + 1)).Timely) :
    Grows linked s ((s.withReceipt (s.sequence + 1) g evidence).withProposal p (s.sequence + 1)) where
  rest := rfl
  sequence := Nat.le_succ _
  candidates := .insert (hs.free (Nat.lt_succ_self _)).1 ⟨Nat.lt_succ_self _, rfl, nofun, htimely⟩
  introductions := .refl _
  receipts := .insert (hs.free (Nat.lt_succ_self _)).2.2 ⟨Nat.lt_succ_self _, rfl⟩

theorem grows_withRequest {s : EngagementStore} (hs : s.Core) (policy : MemberPolicy)
    (kind : EngagementKind) (request : InvitationRequest) (hkind : kind.isInvitation = true) :
    Grows linked s (s.withRequest policy kind request (s.sequence + 1)) where
  rest := rfl
  sequence := Nat.le_succ _
  candidates := by
    refine .insert (hs.free (Nat.lt_succ_self _)).1 ⟨Nat.lt_succ_self _, rfl, nofun, ?_⟩
    refine Candidate.timely_of ?_ ?_ ?_ <;> rintro rfl <;> cases hkind
  introductions := .refl _
  receipts := .refl _

theorem grows_withSuppressed (s : EngagementStore) (kind : EngagementKind)
    (request : InvitationRequest) (blocker : Candidate) :
    Grows linked s (s.withSuppressed kind request blocker) :=
  ⟨rfl, le_rfl, .refl _, .refl _, .refl _⟩

theorem grows_withIntroduction {s : EngagementStore} (hs : s.Core) (members : Fin 2 → ℕ)
    (g channel now : ℕ) (description : String) :
    Grows linked s (s.withIntroduction (newIntroduction members g channel description (s.sequence + 1)) g
      now (s.sequence + 1 + 1)) where
  rest := rfl
  sequence := by show s.sequence ≤ s.sequence + 1 + 1; omega
  candidates := .insert (hs.free (by omega)).1
    ⟨by omega, rfl, nofun, Candidate.timely_of nofun nofun nofun⟩
  introductions := .insert (hs.free (Nat.lt_succ_self _)).2.1
    ⟨Nat.lt_succ_self _, rfl, fun _ => rfl⟩
  receipts := .refl _

theorem grows_withFollowUp {s : EngagementStore} (hs : s.Core) (intent : FollowUpIntent)
    (source : SourceRef) (member due : ℕ) (key : String) (hlinked : linked) :
    Grows linked s (s.withFollowUp intent source member due (s.sequence + 1) key) where
  rest := rfl
  sequence := Nat.le_succ _
  candidates := by
    have hfree := (hs.free (Nat.lt_succ_self s.sequence)).1
    refine ⟨fun k c hc => ?_, fun k c hc => ?_⟩
    · have hk : s.sequence + 1 ≠ k := by
        rintro rfl
        rw [Nat.succ_eq_add_one, hc] at hfree
        cases hfree
      simp only [EngagementStore.withFollowUp, getElem?_insert, if_neg hk]
      exact hc
    · simp only [EngagementStore.withFollowUp, getElem?_insert] at hc
      split_ifs at hc with hk
      · cases hc
        exact .inr ⟨by omega, rfl, fun _ => hlinked, Candidate.timely_of nofun nofun nofun⟩
      · exact .inl hc
  introductions := .refl _
  receipts := .refl _

/-! ### Records change state -/

/-- What stays of a candidate. The scope may change with that of the introduction it announces. -/
structure Candidate.Continues (c c' : Candidate) : Prop where
  id : c'.id = c.id
  kind : c'.kind = c.kind
  source : c'.source = c.source
  member : c'.member = c.member
  dueAt : c'.dueAt = c.dueAt
  dedupeKey : c'.dedupeKey = c.dedupeKey
  introductionId : c'.introductionId = c.introductionId
  workRef : c'.workRef = c.workRef
  expiresAt : c'.expiresAt = c.expiresAt
  scope : c.introductionId = none → c'.scope = c.scope
  settled : c.state ≠ .pending → c'.state ≠ .pending

theorem Candidate.Continues.refl (c : Candidate) : c.Continues c :=
  ⟨rfl, rfl, rfl, rfl, rfl, rfl, rfl, rfl, rfl, fun _ => rfl, fun h => h⟩

/-- A candidate that leaves its state. -/
theorem Candidate.continues_of {c c' : Candidate}
    (h : c' = { c with
      state := c'.state
      revision := c'.revision
      policyRevision := c'.policyRevision
      destination := c'.destination
      messageId := c'.messageId
      followUpReason := c'.followUpReason }) (hs : c'.state ≠ .pending) : c.Continues c' := by
  rw [h] at hs ⊢
  exact ⟨rfl, rfl, rfl, rfl, rfl, rfl, rfl, rfl, rfl, fun _ => rfl, fun _ => hs⟩

/-- What stays of an introduction. -/
structure Introduction.Continues (i i' : Introduction) : Prop where
  id : i'.id = i.id
  members : i'.members = i.members
  guild : i'.scope.guild? = i.scope.guild?

theorem Introduction.Continues.refl (i : Introduction) : i.Continues i := ⟨rfl, rfl, rfl⟩

/-- What stays of a receipt. -/
structure CommunityReceipt.Continues (r r' : CommunityReceipt) : Prop where
  evidence : r'.evidence = r.evidence
  policyRevision : r'.policyRevision = r.policyRevision
  attemptedAt : r.attemptedAt.isSome = true → r'.attemptedAt.isSome = true

theorem CommunityReceipt.Continues.refl (r : CommunityReceipt) : r.Continues r :=
  ⟨rfl, rfl, id⟩

/-- No record comes or goes, and charges are only added. -/
structure Moves (s s' : EngagementStore) : Prop where
  rest : s' =
    { s with
      candidates := s'.candidates
      introductions := s'.introductions
      communityReceipts := s'.communityReceipts
      charges := s'.charges }
  candidates : Rewrites Candidate.Continues s.candidates s'.candidates
  introductions : Rewrites Introduction.Continues s.introductions s'.introductions
  receipts : Rewrites CommunityReceipt.Continues s.communityReceipts s'.communityReceipts
  charges : s.charges <+: s'.charges

/-- Records change state, and nothing is attempted. -/
structure Calm (s s' : EngagementStore) : Prop extends Moves s s' where
  sameCharges : s'.charges = s.charges
  sameReceipts : s'.communityReceipts = s.communityReceipts
  reserved : ∀ (id : ℕ) (c' : Candidate), s'.candidates[id]? = some c' → c'.state = .reserved →
    ∃ c, s.candidates[id]? = some c ∧ c.state = .reserved

/-- A candidate changes without being reserved. -/
def Candidate.Calms (c c' : Candidate) : Prop :=
  c.Continues c' ∧ (c'.state = .reserved → c.state = .reserved)

theorem Candidate.Calms.refl (c : Candidate) : c.Calms c := ⟨.refl c, fun h => h⟩

theorem calm_of {s : EngagementStore} {cs : BTreeMap ℕ Candidate} {is : BTreeMap ℕ Introduction}
    (hc : Rewrites Candidate.Calms s.candidates cs)
    (hi : Rewrites Introduction.Continues s.introductions is) :
    Calm s { s with candidates := cs, introductions := is } where
  rest := rfl
  candidates := hc.mono fun _ _ h => h.1
  introductions := hi
  receipts := .refl CommunityReceipt.Continues.refl _
  charges := List.prefix_refl _
  sameCharges := rfl
  sameReceipts := rfl
  reserved id c' hc' hr := by
    obtain ⟨c, hrow, hcalms⟩ := hc.back hc'
    exact ⟨c, hrow, hcalms.2 hr⟩

theorem Calm.refl (s : EngagementStore) : Calm s s :=
  calm_of (.refl Candidate.Calms.refl _) (.refl Introduction.Continues.refl _)

/-- Only candidates change. -/
theorem calm_candidates {s : EngagementStore} {cs : BTreeMap ℕ Candidate}
    (hc : Rewrites Candidate.Calms s.candidates cs) : Calm s { s with candidates := cs } :=
  calm_of hc (.refl Introduction.Continues.refl _)

/-- A change of state that is not to reserved. -/
theorem Candidate.calms_of {c c' : Candidate} (hc : c.Continues c') (hs : c'.state ≠ .reserved) :
    c.Calms c' := ⟨hc, fun h => absurd h hs⟩

theorem calm_withEdit {s : EngagementStore} {id g : ℕ} {i edited : Introduction}
    (hi : s.introductions[id]? = some i) (hedited : i.Continues edited) :
    Calm s (s.withEdit id edited g) := by
  refine calm_of (.map _ fun _ c => ?_) (.insert Introduction.Continues.refl hi hedited)
  split_ifs with h
  · exact ⟨⟨rfl, rfl, rfl, rfl, rfl, rfl, rfl, rfl, rfl, fun hn => by simp [hn] at h, fun hs => hs⟩,
      fun hr => hr⟩
  · exact .refl c

theorem calm_withWithdrawal {s : EngagementStore} {id revision : ℕ} {i : Introduction}
    (hi : s.introductions[id]? = some i) : Calm s (s.withWithdrawal id i revision) := by
  refine calm_of (.map _ fun _ c => ?_) (.insert Introduction.Continues.refl hi ⟨rfl, rfl, rfl⟩)
  split_ifs
  · exact Candidate.calms_of (Candidate.continues_of rfl nofun)
      (by simp [Candidate.withdraw])
  · exact .refl c

theorem calm_cancelMatching (s : EngagementStore) (p : Candidate → Bool) :
    Calm s (s.cancelMatching p).2 := by
  refine calm_candidates (.map _ fun _ c => ?_)
  split_ifs
  · exact Candidate.calms_of (Candidate.continues_of rfl nofun) (by simp)
  · exact .refl c

theorem calm_recoverReserved (s : EngagementStore) : Calm s s.recoverReserved.2 := by
  refine calm_candidates (.map _ fun _ c => ?_)
  split_ifs
  · exact Candidate.calms_of (Candidate.continues_of rfl nofun)
      (by simp [Candidate.recover])
  · exact .refl c

/-- Candidates are cancelled one after the other, and nothing else happens. -/
theorem cancelAll_rewrites (ids : List ℕ) (s : EngagementStore) :
    ∃ cs, (s.cancelAll ids).2 = { s with candidates := cs } ∧
      Rewrites (fun c c' => c' = c ∨ c' = { c with state := .cancelled }) s.candidates cs := by
  induction ids generalizing s with
  | nil => exact ⟨s.candidates, rfl, .refl (fun _ => .inl rfl) _⟩
  | cons id ids ih =>
    unfold EngagementStore.cancelAll
    split
    · exact ⟨s.candidates, rfl, .refl (fun _ => .inl rfl) _⟩
    · rename_i c hc
      obtain ⟨cs, heq, hrew⟩ :=
        ih { s with candidates := s.candidates.insert id { c with state := .cancelled } }
      refine ⟨cs, heq, .trans ?_ (.insert (fun _ => .inl rfl) hc (.inr rfl)) hrew⟩
      rintro v v' v'' (rfl | rfl) (rfl | rfl) <;> simp

theorem calm_expireMissedWeekly (s : EngagementStore) (now : ℕ) :
    Calm s (s.expireMissedWeekly now).2 := by
  unfold EngagementStore.expireMissedWeekly
  split
  · exact .refl s
  · rename_i expired _
    obtain ⟨cs, heq, hrew⟩ := cancelAll_rewrites expired s
    show Calm s (s.cancelAll expired).2
    rw [heq]
    refine calm_candidates (hrew.mono fun c c' h => ?_)
    rcases h with rfl | rfl
    · exact .refl _
    · exact Candidate.calms_of (Candidate.continues_of rfl nofun) (by simp)

/-- The outcome of a settled candidate is never `reserved`. -/
theorem DeliveryOutcome.state_ne_reserved (outcome : DeliveryOutcome) :
    outcome.state ≠ .reserved := by
  cases outcome <;> simp [DeliveryOutcome.state]

theorem DeliveryOutcome.state_ne_pending (outcome : DeliveryOutcome) :
    outcome.state ≠ .pending := by
  cases outcome <;> simp [DeliveryOutcome.state]

theorem calm_settle (s : EngagementStore) (id : ℕ) (outcome : DeliveryOutcome) :
    Calm s (s.settle id outcome).2 := by
  obtain ⟨e, h⟩ | ⟨c, hc, -, -, hcases⟩ := settle_cases s id outcome
  · rw [h]
    exact .refl s
  · have hrew : Rewrites Candidate.Calms s.candidates (s.candidates.insert id (c.settle outcome)) :=
      .insert Candidate.Calms.refl hc (Candidate.calms_of
        (Candidate.continues_of rfl outcome.state_ne_pending) outcome.state_ne_reserved)
    obtain ⟨-, h⟩ | ⟨k, -, -, ⟨-, h⟩ | ⟨i, hi, h⟩⟩ := hcases
    · rw [h]
      exact calm_candidates hrew
    · rw [h]
      exact calm_candidates hrew
    · rw [h]
      exact calm_of hrew (.insert Introduction.Continues.refl hi ⟨rfl, rfl, rfl⟩)

/-! ### A candidate is reserved -/

theorem moves_withReserved {s : EngagementStore} {id now policyRevision : ℕ} {c : Candidate}
    {destination : DestinationPreference} {charges : List ContactCharge}
    (hc : s.candidates[id]? = some c) :
    Moves s (s.withReserved id now c policyRevision destination charges) where
  rest := rfl
  candidates := .insert Candidate.Continues.refl hc
    (Candidate.continues_of rfl nofun)
  introductions := .refl Introduction.Continues.refl _
  receipts := .modify CommunityReceipt.Continues.refl fun _ => ⟨rfl, rfl, fun _ => rfl⟩
  charges := List.prefix_append _ _

theorem moves_withIntroductionReserved {s : EngagementStore} {id now : ℕ} {c : Candidate}
    {i : Introduction} {b₀ b₁ : String × String} (hs : s.Core)
    (hc : s.candidates[id]? = some c) (hi : s.introductionOf c = some i) :
    Moves s (s.withIntroductionReserved id now c i b₀ b₁) where
  rest := rfl
  candidates := .insert Candidate.Continues.refl hc
    (Candidate.continues_of rfl nofun)
  introductions := by
    obtain ⟨k, -, hk⟩ := Option.bind_eq_some_iff.mp hi
    have hrow : s.introductions[i.id]? = some i := by rw [(hs.introductions k i hk).1, hk]
    exact .insert Introduction.Continues.refl hrow ⟨rfl, rfl, rfl⟩
  receipts := .refl CommunityReceipt.Continues.refl _
  charges := List.prefix_append _ _

theorem moves_reserves {K : Crates} {s s' : EngagementStore} {id now : ℕ} {c : Candidate}
    {r : EngagementReservation} (hs : s.Core) (hc : s.candidates[id]? = some c)
    (h : s.Reserves K id now c r s') : Moves s s' := by
  cases h with
  | introduction i b₀ b₁ _ hi => exact moves_withIntroductionReserved hs hc hi
  | publicly => exact moves_withReserved hc
  | contact => exact moves_withReserved hc

/-! ### Any operation -/

/-- The reservation an operation returned. -/
def Out.reserved? : Out → Option EngagementReservation
  | .reservation (.ok r) => some r
  | _ => none

/-- The operation proposes a follow-up of a task. -/
def Op.isLinked : Op → Bool
  | .proposeLinkedTaskFollowUp _ _ _ _ _ => true
  | _ => false

/-- What an operation can do. -/
inductive Effect (K : Crates) (s : EngagementStore) (op : Op) (out : Out)
    (s' : EngagementStore) : Prop
  | grows (quiet : out.reserved? = none) (valid : s' = s ∨ s'.Valid K)
      (h : Grows (op.isLinked = true) s s')
  | calm (quiet : out.reserved? = none) (h : Calm s s')
  | reserves (id revision now : ℕ) (c : Candidate) (r : EngagementReservation)
      (called : op = .reserve id revision now) (returned : out.reserved? = some r)
      (row : s.candidates[id]? = some c) (pending : c.state = .pending) (due : c.dueAt ≤ now)
      (instant : AbbeyBot.Calendar.IsInstant now) (h : s.Reserves K id now c r s')
  | erases (quiet : out.reserved? = none) (scope : String) (member : Option ℕ)
      (room : (s.identitiesAfter K scope member).card ≤ 10000) (h : s' = s.erased K scope member)
  | prunes (quiet : out.reserved? = none) (now : ℕ) (h : s' = s.pruneErasureSafety now)
  | configures (quiet : out.reserved? = none) (settings : Settings) (valid : s'.Valid K)
      (h : s' = s.withSettings settings)

theorem effect_refused {K : Crates} {s : EngagementStore} {op : Op} {out : Out}
    (hout : out.reserved? = none) : Effect K s op out s := .calm hout (.refl s)

/-- An operation that writes last has the effect of its success, or none. -/
theorem effect_written {K : Crates} {s : EngagementStore} {op : Op} {α : Type}
    {out : Except WorkError α → Out} {r : Except WorkError (α × EngagementStore)}
    (herr : ∀ e, (out (.error e)).reserved? = none)
    (hok : ∀ a s', r = .ok (a, s') → Effect K s op (out (.ok a)) s') :
    Effect K s op (written out s r).1 (written out s r).2 := by
  unfold written
  obtain ⟨a, s', hr, hcommit⟩ | ⟨e, hcommit⟩ := commit_cases s r
  · rw [hcommit]
    exact hok a s' hr
  · rw [hcommit]
    exact effect_refused (herr e)

theorem grows_proposeBacked {K : Crates} {facts : CommunityFacts} {now count count' : ℕ}
    {s s' : EngagementStore} {p : CandidateProposal} (hs : s.Core)
    (h : EngagementStore.proposeBacked K facts now (count, s) p = .ok (count', s')) :
    Grows linked s s' ∧ s'.Core := by
  obtain ⟨rfl, -⟩ | ⟨-, fact, g, -, -, -, rfl, hv, htimely⟩ :=
    proposeBacked_ok (hs.free (Nat.lt_succ_self _)).2.2 h
  · exact ⟨.refl _, hs⟩
  · exact ⟨grows_withReceipt hs g fact.evidence p htimely, hv.core⟩

theorem grows_foldlM {K : Crates} {facts : CommunityFacts} {now count count' : ℕ}
    {s s' : EngagementStore} {ps : List CandidateProposal} (hs : s.Core)
    (h : ps.foldlM (EngagementStore.proposeBacked K facts now) (count, s) = .ok (count', s')) :
    Grows linked s s' := by
  induction ps generalizing count s with
  | nil =>
    simp only [List.foldlM_nil, pure_eq_ok, Prod.mk.injEq] at h
    rw [h.2]
    exact .refl _
  | cons p ps ih =>
    simp only [List.foldlM_cons, bind_eq_ok, Prod.exists] at h
    obtain ⟨count₁, s₁, hp, hps⟩ := h
    obtain ⟨hgrows, hcore⟩ := grows_proposeBacked hs hp
    exact hgrows.trans (ih hcore hps)

/-- **What any operation can do** to a store with its numbers in order. -/
theorem step_effect (K : Crates) {s : EngagementStore} (hs : s.Core) (op : Op) :
    Effect K s op (step K s op).1 (step K s op).2 := by
  cases op with
  | propose p now =>
    refine effect_written (fun _ => rfl) fun r s' h => ?_
    obtain ⟨-, ⟨-, rfl, -⟩ | ⟨-, rfl, hv, -, htimely⟩⟩ := propose_ok h
    · exact effect_refused rfl
    · exact .grows rfl (.inr hv) (grows_withProposal hs p htimely)
  | proposeCommunity facts now =>
    refine effect_written (fun _ => rfl) fun r s' h => ?_
    unfold EngagementStore.proposeCommunity at h
    simp only [bind_eq_ok, ensure_eq_ok, exists_unit, Prod.exists, validate_eq_ok, pure_eq_ok,
      Prod.mk.injEq] at h
    obtain ⟨-, count, next, hfold, hv, -, rfl⟩ := h
    exact .grows rfl (.inr hv) (grows_foldlM hs hfold)
  | requestInvitation kind request =>
    refine effect_written (fun _ => rfl) fun r s' h => ?_
    obtain ⟨-, ⟨-, rfl⟩ | ⟨-, blocker, rfl, hv⟩ | ⟨-, policy, rfl, hv, hkind⟩⟩ :=
      requestInvitation_ok h
    · exact effect_refused rfl
    · exact .grows rfl (.inr hv) (grows_withSuppressed s kind request blocker)
    · exact .grows rfl (.inr hv) (grows_withRequest hs policy kind request hkind)
  | createIntroduction members scope description now =>
    refine effect_written (fun _ => rfl) fun r s' h => ?_
    obtain ⟨-, rfl, g, channel, -, rfl, hv⟩ := createIntroduction_ok h
    exact .grows rfl (.inr hv) (grows_withIntroduction hs members g channel now description)
  | editIntroduction id member revision description destination =>
    refine effect_written (fun _ => rfl) fun r s' h => ?_
    obtain ⟨i, index, scope, g, hi, -, -, -, -, hg, hg', -, rfl, -⟩ := editIntroduction_ok h
    exact .calm rfl (calm_withEdit hi ⟨rfl, rfl, hg.trans hg'.symm⟩)
  | approveIntroduction id member revision =>
    refine effect_written (fun _ => rfl) fun r s' h => ?_
    obtain ⟨i, index, hi, -, -, -, -, rfl⟩ := approveIntroduction_ok h
    exact .calm rfl (calm_of (.refl Candidate.Calms.refl _)
      (.insert Introduction.Continues.refl hi ⟨rfl, rfl, rfl⟩))
  | withdrawIntroduction id member revision =>
    refine effect_written (fun _ => rfl) fun r s' h => ?_
    obtain ⟨i, hi, -, -, -, rfl⟩ := withdrawIntroduction_ok h
    exact .calm rfl (calm_withWithdrawal hi)
  | proposeLinkedTaskFollowUp intent source member due now =>
    refine effect_written (fun _ => rfl) fun r s' h => ?_
    obtain ⟨-, rfl⟩ | ⟨-, key, -, rfl, hv, -⟩ := proposeLinkedTaskFollowUp_ok h
    · exact effect_refused rfl
    · exact .grows rfl (.inr hv) (grows_withFollowUp hs intent source member due key rfl)
  | cancelTaskFollowUp id revision reason =>
    refine effect_written (fun _ => rfl) fun r s' h => ?_
    obtain rfl | ⟨c, hc, -, -, -, rfl⟩ := cancelTaskFollowUp_ok h
    · exact effect_refused rfl
    · have hleft : c.Continues (c.cancelFollowUp reason) :=
        Candidate.continues_of rfl (by simp [Candidate.cancelFollowUp])
      exact .calm rfl (calm_candidates (.insert Candidate.Calms.refl hc
        (Candidate.calms_of hleft (by simp [Candidate.cancelFollowUp]))))
  | reserve id revision now =>
    refine effect_written (fun _ => rfl) fun r s' h => ?_
    obtain ⟨hnow, c, hc, hpending, hdue, hreserves⟩ := reserve_ok h
    exact .reserves id revision now c r rfl rfl hc hpending hdue hnow hreserves
  | settle id outcome => exact .calm rfl (calm_settle s id outcome)
  | cancelSource scope message => exact .calm rfl (calm_cancelMatching s _)
  | cancelMemberOrigin member scope after => exact .calm rfl (calm_cancelMatching s _)
  | cancelPublicOrigin scope after => exact .calm rfl (calm_cancelMatching s _)
  | expireMissedWeekly now =>
    simp only [step]
    exact .calm rfl (calm_expireMissedWeekly s now)
  | recoverReserved => exact .calm rfl (calm_recoverReserved s)
  | eraseLearning scope member =>
    refine effect_written (fun _ => rfl) fun r s' h => ?_
    unfold EngagementStore.eraseLearning at h
    simp only [bind_eq_ok, ensure_eq_ok, exists_unit, pure_eq_ok, Prod.mk.injEq] at h
    exact .erases rfl scope member h.1 h.2.2.symm
  | pruneErasureSafety now =>
    simp only [step]
    exact .prunes rfl now rfl
  | reload =>
    refine effect_written (fun _ => rfl) fun r s' h => ?_
    unfold EngagementStore.reload at h
    simp only [bind_eq_ok, exists_unit, pure_eq_ok] at h
    have h' := congrArg Prod.snd h.2
    simp only at h'
    rw [← h']
    exact .calm rfl (calm_recoverReserved s)
  | configure settings =>
    refine effect_written (fun _ => rfl) fun r s' h => ?_
    unfold EngagementStore.configure at h
    simp only [bind_eq_ok, exists_unit, validate_eq_ok, pure_eq_ok, Prod.mk.injEq] at h
    obtain ⟨hv, -, rfl⟩ := h
    exact .configures rfl settings hv rfl

/-- Pruning leaves all records as they are. -/
theorem pruneErasureSafety_eq (s : EngagementStore) (now : ℕ) :
    ∃ contact community pruned, s.pruneErasureSafety now =
      { s with
        erasedContactCharges := contact
        erasedCommunityCharges := community
        safetyPrunedThrough := pruned } := by
  unfold EngagementStore.pruneErasureSafety
  split_ifs
  · exact ⟨_, _, _, rfl⟩
  · exact ⟨_, _, _, rfl⟩

/-! ### Identities are kept -/

/-- What the store remembers of its candidates: an erased identity is kept, and a candidate goes on
or leaves its identities. -/
structure Remembers (K : Crates) (s s' : EngagementStore) : Prop where
  identities : s.erasedIdentities ⊆ s'.erasedIdentities
  candidates : ∀ (id : ℕ) (c : Candidate), s.candidates[id]? = some c →
    (∃ c', s'.candidates[id]? = some c' ∧ c.Continues c') ∨
      ∀ e ∈ s.identitiesOf K id c, e ∈ s'.erasedIdentities

theorem Moves.remembers {s s' : EngagementStore} (K : Crates) (h : Moves s s') :
    Remembers K s s' where
  identities := by rw [h.rest]
  candidates _ _ hc := .inl (h.candidates.forward hc)

theorem mem_erasedCandidates {s : EngagementStore} {scope : String} {member : Option ℕ} {id : ℕ} :
    id ∈ s.erasedCandidates scope member ↔
      ∃ c, s.candidates[id]? = some c ∧ s.Linked c scope member := by
  unfold EngagementStore.erasedCandidates
  rw [mem_iff]
  simp only [filter_eq_some, decide_eq_true_eq]

theorem mem_erasedIntroductions {s : EngagementStore} {scope : String} {member : Option ℕ}
    {id : ℕ} : id ∈ s.erasedIntroductions scope member ↔
      ∃ i, s.introductions[id]? = some i ∧ i.Linked scope member := by
  unfold EngagementStore.erasedIntroductions
  rw [mem_iff]
  simp only [filter_eq_some, decide_eq_true_eq]

/-- An erased candidate leaves its identities. -/
theorem identitiesOf_erased {K : Crates} {s : EngagementStore} {scope : String}
    {member : Option ℕ} {id : ℕ} {c : Candidate} (hc : s.candidates[id]? = some c)
    (hl : s.Linked c scope member) {e : String} (he : e ∈ s.identitiesOf K id c) :
    e ∈ s.identitiesAfter K scope member := by
  unfold EngagementStore.identitiesAfter
  rw [Finset.mem_union, List.mem_toFinset]
  refine .inr (List.mem_append.mpr (.inl (List.mem_append.mpr (.inr ?_))))
  refine List.mem_flatMap.mpr ⟨(id, c), ?_, he⟩
  rw [Std.ExtTreeMap.mem_toList_iff_getElem?_eq_some]
  exact filter_eq_some.mpr ⟨hc, decide_eq_true hl⟩

theorem erased_remembers (K : Crates) (s : EngagementStore) (scope : String)
    (member : Option ℕ) : Remembers K s (s.erased K scope member) where
  identities := Finset.subset_union_left
  candidates id c hc := by
    by_cases hl : s.Linked c scope member
    · exact .inr fun e he => identitiesOf_erased hc hl he
    · refine .inl ⟨c, filter_eq_some.mpr ⟨hc, ?_⟩, .refl c⟩
      rw [decide_eq_true_eq, mem_erasedCandidates]
      rintro ⟨c', hc', hl'⟩
      rw [hc] at hc'
      cases hc'
      exact hl hl'

/-- **No operation forgets** an erased identity, or a candidate without its identities. -/
theorem Effect.remembers {K : Crates} {s s' : EngagementStore} {op : Op} {out : Out}
    (h : Effect K s op out s') (hs : s.Core) : Remembers K s s' := by
  cases h with
  | grows _ _ h =>
    exact ⟨by rw [h.rest], fun id c hc => .inl ⟨c, h.candidates.1 id c hc, .refl c⟩⟩
  | calm _ h => exact h.toMoves.remembers K
  | reserves id revision now c r _ _ row _ _ _ h => exact (moves_reserves hs row h).remembers K
  | erases _ scope member _ h => rw [h]; exact erased_remembers K s scope member
  | prunes _ now h =>
    obtain ⟨contact, community, pruned, heq⟩ := pruneErasureSafety_eq s now
    rw [h, heq]
    exact ⟨subset_rfl, fun _ c hc => .inl ⟨c, hc, .refl c⟩⟩
  | configures _ settings _ h =>
    rw [h]
    exact ⟨subset_rfl, fun _ c hc => .inl ⟨c, hc, .refl c⟩⟩

/-! ### Numbers and links are kept -/

theorem Moves.core {s s' : EngagementStore} (h : Moves s s') (hs : s.Core) : s'.Core := by
  have hseq : s'.sequence = s.sequence := by rw [h.rest]
  refine ⟨fun id c' hc' => ?_, fun id i' hi' => ?_, fun id r' hr' => ?_⟩
  · obtain ⟨c, hc, hcont⟩ := h.candidates.back hc'
    have hcore := hs.candidates id c hc
    rw [hseq]
    exact ⟨⟨hcont.id.trans hcore.id.1, hcore.id.2⟩,
      by rw [hcont.kind, hcont.introductionId]; exact hcore.introduction,
      by rw [hcont.kind, hcont.workRef]; exact hcore.linked⟩
  · obtain ⟨i, hi, hcont⟩ := h.introductions.back hi'
    rw [hseq, hcont.id]
    exact hs.introductions id i hi
  · obtain ⟨r, hr, -⟩ := h.receipts.back hr'
    obtain ⟨c, hc, hf⟩ := hs.receipts id r hr
    obtain ⟨c', hc', hcont⟩ := h.candidates.forward hc
    exact ⟨c', hc', hcont.kind ▸ hf⟩

theorem erased_core {K : Crates} {s : EngagementStore} (hs : s.Core) (scope : String)
    (member : Option ℕ) : (s.erased K scope member).Core := by
  refine ⟨fun id c hc => ?_, fun id i hi => ?_, fun id r hr => ?_⟩
  · exact hs.candidates id c (filter_eq_some.mp hc).1
  · exact hs.introductions id i (filter_eq_some.mp hi).1
  · obtain ⟨hrow, hkept⟩ := filter_eq_some.mp hr
    obtain ⟨c, hc, hf⟩ := hs.receipts id r hrow
    exact ⟨c, filter_eq_some.mpr ⟨hc, hkept⟩, hf⟩

theorem Effect.core {K : Crates} {s s' : EngagementStore} {op : Op} {out : Out}
    (h : Effect K s op out s') (hs : s.Core) : s'.Core := by
  cases h with
  | grows _ valid _ =>
    rcases valid with rfl | valid
    · exact hs
    · exact valid.core
  | calm _ h => exact h.toMoves.core hs
  | reserves id revision now c r _ _ row _ _ _ h => exact (moves_reserves hs row h).core hs
  | erases _ scope member _ h => rw [h]; exact erased_core hs scope member
  | prunes _ now h =>
    obtain ⟨contact, community, pruned, heq⟩ := pruneErasureSafety_eq s now
    rw [h, heq]
    exact ⟨hs.candidates, hs.introductions, hs.receipts⟩
  | configures _ settings valid _ => exact valid.core

/-- A candidate after an operation was there before it, or is new. -/
theorem Effect.candidates {K : Crates} {s s' : EngagementStore} {op : Op} {out : Out}
    (h : Effect K s op out s') (hs : s.Core) {id : ℕ} {c' : Candidate}
    (hc' : s'.candidates[id]? = some c') :
    (∃ c, s.candidates[id]? = some c ∧ c.Continues c') ∨ s.sequence < id ∧ c'.Timely := by
  have hsame (hc : s.candidates[id]? = some c') : ∃ c, s.candidates[id]? = some c ∧ c.Continues c' :=
    ⟨c', hc, .refl c'⟩
  cases h with
  | grows _ _ h => exact (h.candidates.2 id c' hc').imp hsame fun hnew => ⟨hnew.1, hnew.2.2.2⟩
  | calm _ h => exact .inl (h.candidates.back hc')
  | reserves id revision now c r _ _ row _ _ _ h =>
    exact .inl ((moves_reserves hs row h).candidates.back hc')
  | erases _ scope member _ h =>
    rw [h] at hc'
    exact .inl (hsame (filter_eq_some.mp hc').1)
  | prunes _ now h =>
    obtain ⟨contact, community, pruned, heq⟩ := pruneErasureSafety_eq s now
    rw [h, heq] at hc'
    exact .inl (hsame hc')
  | configures _ settings valid h =>
    rw [h] at hc'
    exact .inl (hsame hc')

theorem Effect.sequence {K : Crates} {s s' : EngagementStore} {op : Op} {out : Out}
    (h : Effect K s op out s') (hs : s.Core) : s.sequence ≤ s'.sequence := by
  cases h with
  | grows _ _ h => exact h.sequence
  | calm _ h => rw [h.rest]
  | reserves id revision now c r _ _ row _ _ _ h => rw [(moves_reserves hs row h).rest]
  | erases _ scope member _ h => rw [h]; rfl
  | prunes _ now h =>
    obtain ⟨contact, community, pruned, heq⟩ := pruneErasureSafety_eq s now
    rw [h, heq]
  | configures _ settings _ h => rw [h]; rfl

/-- In every run, records are numbered up to the sequence. -/
theorem core_of_reaches {K : Crates} {h : History} {s : EngagementStore} (hr : Reaches K h s) :
    s.Core :=
  hr.invariant core_empty fun _ op hs => (step_effect K hs op).core hs

end AbbeyBot.Engagement
