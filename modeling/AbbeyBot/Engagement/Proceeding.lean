import Mathlib
import AbbeyBot.Engagement.Effects

/-! # Records that go on

Most operations do not make the checks of the store. What they do to a candidate or an introduction
keeps what the checks ask of it; where the announcements still match, the tables pass with the records.
-/

namespace AbbeyBot.Engagement

open AbbeyBot.Calendar AbbeyBot.Library.OrderedMap AbbeyBot.Library.Result AbbeyBot.Work.Types

variable {K : Crates} {s : EngagementStore} {reserved : List ℕ} {cs : BTreeMap ℕ Candidate}
  {is : BTreeMap ℕ Introduction} {rs : BTreeMap ℕ CommunityReceipt} {charges : List ContactCharge}

/-! ### What the checks ask of a record -/

/-- Only a follow-up of a task has an explanation, when it is cancelled or rejected. -/
def Candidate.ReasonOk (c : Candidate) : Prop :=
  (c.workRef = none → c.followUpReason = none) ∧ ∀ reason ∈ c.followUpReason,
    reason ≠ .allowed ∧ (c.state = .cancelled ∨ c.state = .rejected)

/-- A candidate has a message when it was sent. -/
def Candidate.MessageOk (c : Candidate) : Prop :=
  (c.state = .sent ↔ c.messageId.isSome = true) ∧ c.messageId ≠ some 0

/-- The candidate goes on with its contact, as the checks of a candidate demand. Only among the
`reserved` it comes to be attempted. -/
structure Candidate.Proceeds (reserved : List ℕ) (c c' : Candidate) : Prop where
  rest : c' = { c with
    state := c'.state
    revision := c'.revision
    policyRevision := c'.policyRevision
    destination := c'.destination
    messageId := c'.messageId
    followUpReason := c'.followUpReason }
  revision : c.revision ≠ 0 → c'.revision ≠ 0
  message : c.MessageOk → c'.MessageOk
  reason : c.ReasonOk → c'.ReasonOk
  destination : c.kind = .introduction ∨ c.kind.feature.isSome = true → c.destination = .origin →
    c'.destination = .origin
  sent : c.state = .sent → c'.state = .sent
  opened : c'.state.isOpen = true → c.state.isOpen = true
  pending : c'.state = .pending → c.state = .pending
  attempted : c'.state.isAttempted = true → c.state.isAttempted = true ∨ c.id ∈ reserved

theorem Candidate.Proceeds.refl (c : Candidate) : c.Proceeds reserved c :=
  ⟨rfl, fun h => h, fun h => h, fun h => h, fun _ h => h, fun h => h, fun h => h, fun h => h, .inl⟩

theorem reasonOk_of_validate {c : Candidate} (h : c.validateTaskFollowUp = .ok ()) : c.ReasonOk := by
  unfold Candidate.validateTaskFollowUp at h
  split at h
  · rename_i hw _
    rw [ensure_eq_ok] at h
    exact ⟨fun _ => h, by rw [h]; exact fun _ hr => by cases hr⟩
  · rename_i hw _
    simp only [bind_eq_ok, ensure_eq_ok, exists_unit] at h
    obtain ⟨_, -, _, -, _, -, -, _, -, -, -, -, -, -, -, -, hreason⟩ := h
    exact ⟨fun hnone => (by rw [hw] at hnone; cases hnone), hreason⟩
  · cases h

theorem validateTaskFollowUp_proceeds {c c' : Candidate} (h : c.validateTaskFollowUp = .ok ())
    (hp : c.Proceeds reserved c') : c'.validateTaskFollowUp = .ok () := by
  have hreason := hp.reason (reasonOk_of_validate h)
  rw [hp.rest] at hreason ⊢
  unfold Candidate.validateTaskFollowUp at h ⊢
  dsimp only
  split at h
  · rename_i hw he
    rw [hw, he]
    exact ensure_eq_ok.mpr (hreason.1 hw)
  · rename_i task expires hw he
    rw [hw, he]
    simp only [bind_eq_ok, ensure_eq_ok, exists_unit] at h ⊢
    obtain ⟨source, hsource, member, hmember, key, hkey, hutc, due, hdue, hk, h₁, h₂, h₃, h₄, h₅, h₆,
      -⟩ := h
    exact ⟨source, hsource, member, hmember, key, hkey, hutc, due, hdue, hk, h₁, h₂, h₃, h₄, h₅, h₆,
      hreason.2⟩
  · cases h

theorem Candidate.Valid.proceeds {c c' : Candidate} {id sequence : ℕ} (h : c.Valid id sequence)
    (hp : c.Proceeds reserved c') : c'.Valid id sequence := by
  have htask := validateTaskFollowUp_proceeds h.taskFollowUp hp
  have hmessage : c'.MessageOk := hp.message h.message
  have hrevision := hp.revision h.revision
  have hdestination : c.kind = .introduction → c'.destination = .origin := fun hk =>
    hp.destination (.inl hk) (h.introduction hk).2.2
  rw [hp.rest] at htask hmessage hrevision ⊢
  exact ⟨h.scope, htask, h.id, hrevision, h.dedupeKey, h.member, hmessage, h.dm, h.personal,
    h.needsSource, fun hk => ⟨(h.introduction hk).1, (h.introduction hk).2.1, hdestination hk⟩,
    h.source⟩

/-- Who approved the introduction has described themselves. -/
def Introduction.Spoken (i : Introduction) : Prop :=
  ∀ k, (i.approvals k).isSome = true → (i.approvedSelfDescriptions k).isSome = true

/-- The introduction goes on in the words of its members. -/
structure Introduction.Proceeds (i i' : Introduction) : Prop where
  rest : i' = { i with revision := i'.revision, approvals := i'.approvals, state := i'.state }
  revision : i.revision ≠ 0 → i'.revision ≠ 0
  approvals : (∀ k, ∀ r ∈ i.approvals k, r = i.revision) → ∀ k, ∀ r ∈ i'.approvals k, r = i'.revision
  agreed : (i.state = .ready ∨ i.state = .consumed →
      i.Approved ∧ ∀ k, (i.approvedSelfDescriptions k).isSome = true) →
    i'.state = .ready ∨ i'.state = .consumed →
      i'.Approved ∧ ∀ k, (i'.approvedSelfDescriptions k).isSome = true
  spoken : i.Spoken → i'.Spoken

theorem Introduction.Proceeds.refl (i : Introduction) : i.Proceeds i :=
  ⟨rfl, fun h => h, fun h => h, fun h => h, fun h => h⟩

theorem Introduction.Valid.proceeds {i i' : Introduction} {id sequence : ℕ}
    (h : i.Valid id sequence) (hp : i.Proceeds i') : i'.Valid id sequence := by
  have hrevision := hp.revision h.revision
  have happrovals := hp.approvals h.approvals
  have hagreed := hp.agreed h.agreed
  rw [hp.rest] at hrevision happrovals hagreed ⊢
  exact ⟨h.scope, h.id, hrevision, h.destination, h.members, h.descriptions, happrovals, hagreed⟩

/-! ### Tables that go on -/

/-- A column whose values go on stays without repetition. -/
theorem nodup_column_rewrites {γ : Type} {f : Candidate → Option γ} {cs : BTreeMap ℕ Candidate}
    (h : (column s.candidates f).Nodup) (hc : Rewrites (Candidate.Proceeds reserved) s.candidates cs)
    (hf : ∀ c c' : Candidate, c.Proceeds reserved c' → f c' = f c) : (column cs f).Nodup := by
  refine nodup_column_of fun k k' v v' x hk hk' hv hv' => ?_
  obtain ⟨c, hrow, hp⟩ := hc.back hk
  obtain ⟨c', hrow', hp'⟩ := hc.back hk'
  exact eq_of_nodup_column h hrow hrow' (hf c v hp ▸ hv) (hf c' v' hp' ▸ hv')

/-- A candidate concerns the same members as long as its introduction has the same. -/
theorem concerns_congr {s' : EngagementStore} {c c' : Candidate} {member : ℕ}
    (hmember : c'.member = c.member) (hid : c'.introductionId = c.introductionId)
    (h : ∀ id, c.introductionId = some id → (s'.introductions[id]?).map Introduction.members =
      (s.introductions[id]?).map Introduction.members) :
    s'.concerns c' member ↔ s.concerns c member := by
  unfold EngagementStore.concerns EngagementStore.introductionOf
  rw [hmember, hid]
  refine or_congr_right ?_
  cases hk : c.introductionId with
  | none => simp
  | some id =>
    have h := h id hk
    simp only [Option.bind_some, Option.mem_def]
    cases hs : s.introductions[id]? with
    | none =>
      rw [hs, Option.map_none, Option.map_eq_none_iff] at h
      simp [h]
    | some i =>
      rw [hs, Option.map_some, Option.map_eq_some_iff] at h
      obtain ⟨i', hi', hmembers⟩ := h
      simp [hi', hmembers]

theorem concerns_proceeds {c c' : Candidate} {member : ℕ}
    (hi : Rewrites Introduction.Proceeds s.introductions is) (hp : c.Proceeds reserved c') :
    EngagementStore.concerns { s with
      candidates := cs, introductions := is, communityReceipts := rs, charges := charges } c' member ↔
      s.concerns c member :=
  concerns_congr (by rw [hp.rest]) (by rw [hp.rest]) fun id _ =>
    hi.map_eq (fun i i' h => by rw [h.rest]) id

/-- What is asked of the records that went on besides the checks of each: the announcements match, the
receipts are of the attempts, and the charges fit. -/
structure Fits (s : EngagementStore) (cs : BTreeMap ℕ Candidate) (is : BTreeMap ℕ Introduction)
    (rs : BTreeMap ℕ CommunityReceipt) (charges : List ContactCharge) (reserved : List ℕ) : Prop where
  candidates : Rewrites (Candidate.Proceeds reserved) s.candidates cs
  introductions : Rewrites Introduction.Proceeds s.introductions is
  announced : ∀ (k id : ℕ) (c : Candidate) (i : Introduction), cs[k]? = some c → is[id]? = some i →
    c.introductionId = some id → i.revision = c.revision ∧ i.state.admits c.state = true
  receipts : Rewrites (fun r r' : CommunityReceipt => r'.evidence = r.evidence)
    s.communityReceipts rs
  attempted : ∀ (id : ℕ) (c : Candidate) (r : CommunityReceipt), cs[id]? = some c →
    rs[id]? = some r → (∀ t ∈ r.attemptedAt, c.dueAt ≤ t ∧ IsInstant t) ∧
      (c.state.isAttempted = true → r.attemptedAt.isSome = true)
  room : charges.length + s.erasedContactCharges.length ≤ 20000

theorem Fits.candidatesValid (h : Fits s cs is rs charges reserved) (hv : s.Valid K) :
    EngagementStore.CandidatesValid { s with
      candidates := cs, introductions := is, communityReceipts := rs, charges := charges } where
  rows := all_iff.mpr fun id c' hc' => by
    obtain ⟨c, hc, hp⟩ := h.candidates.back hc'
    exact (all_iff.mp hv.candidates.rows id c hc).proceeds hp
  dedupeKeys := nodup_column_rewrites hv.candidates.dedupeKeys h.candidates fun c c' hp => by
    rw [hp.rest]
  sources := nodup_column_rewrites hv.candidates.sources h.candidates fun c c' hp => by
    rw [hp.rest]
    rfl
  introductions := all_iff.mpr fun id c' hc' => by
    obtain ⟨c, hc, hp⟩ := h.candidates.back hc'
    obtain ⟨hkind, hmatches⟩ := all_iff.mp hv.candidates.introductions id c hc
    refine ⟨by rw [hp.rest]; exact hkind, fun k hk => ?_⟩
    have hk' : c.introductionId = some k := by rw [hp.rest] at hk; exact hk
    obtain ⟨i, hi, hscope, -⟩ := hmatches k hk'
    obtain ⟨i', hi', hproceeds⟩ := h.introductions.forward hi
    refine ⟨i', hi', ?_, (h.announced id k c' i' hc' hi' hk).1⟩
    rw [hproceeds.rest, hp.rest]
    exact hscope

theorem Fits.introductionsValid (h : Fits s cs is rs charges reserved) (hv : s.Valid K) :
    EngagementStore.IntroductionsValid { s with
      candidates := cs, introductions := is, communityReceipts := rs, charges := charges } := by
  have hunique : (column cs Candidate.introductionId).Nodup :=
    nodup_column_rewrites hv.introductions.unique h.candidates fun c c' hp => by rw [hp.rest]
  refine ⟨hunique, all_iff.mpr fun id i' hi' => ?_, all_iff.mpr fun id i' hi' => ?_⟩
  · obtain ⟨i, hi, hp⟩ := h.introductions.back hi'
    exact (all_iff.mp hv.introductions.rows id i hi).proceeds hp
  · obtain ⟨i, hi, hp⟩ := h.introductions.back hi'
    have hid : i.id = id := (all_iff.mp hv.introductions.rows id i hi).id.2.1
    have hid' : i'.id = id := by rw [hp.rest]; exact hid
    obtain ⟨c, hc, -⟩ := all_iff.mp hv.introductions.announced id i hi
    obtain ⟨k, hk, hannounces⟩ := announcement_some hc
    obtain ⟨c', hc', hcp⟩ := h.candidates.forward hk
    have hannounces' : c'.introductionId = some id := by
      rw [hcp.rest]
      exact hannounces.trans (by rw [hid])
    rw [hid']
    exact ⟨c', announcement_eq hunique hc' hannounces',
      (h.announced k id c' i' hc' hi' hannounces').2⟩

theorem Fits.invitationsValid (h : Fits s cs is rs charges reserved) (hv : s.Valid K) :
    EngagementStore.InvitationsValid { s with
      candidates := cs, introductions := is, communityReceipts := rs, charges := charges } where
  sizes := by
    have hsizes := hv.invitations.sizes
    rw [← Rewrites.size h.candidates, ← Rewrites.size h.introductions] at hsizes
    exact hsizes
  requests := by
    refine ⟨all_iff.mpr fun id r hr => ?_, hv.invitations.requests.2⟩
    obtain ⟨c, hc, hproves⟩ := all_iff.mp hv.invitations.requests.1 id r hr
    obtain ⟨c', hc', hp⟩ := h.candidates.forward hc
    refine ⟨c', hc', ?_⟩
    rw [hp.rest]
    exact ⟨hproves.interaction, hproves.member, hproves.source, hproves.scope, hproves.dueAt,
      hproves.kind, hproves.activity⟩
  suppressed := all_iff.mpr fun interaction r hr => by
    obtain ⟨heq, hrequested, blocker, hblocker, hblocked⟩ :=
      all_iff.mp hv.invitations.suppressed interaction r hr
    obtain ⟨c', hc', hp⟩ := h.candidates.forward hblocker
    refine ⟨heq, hrequested, c', hc', ?_⟩
    rw [hp.rest]
    exact ⟨hblocked.scope, hblocked.interaction, hblocked.member, hblocked.blocker, hblocked.kind,
      hblocked.at_⟩
  requested := all_iff.mpr fun id c' hc' hkind hsource => by
    obtain ⟨c, hc, hp⟩ := h.candidates.back hc'
    rw [hp.rest] at hkind hsource ⊢
    exact all_iff.mp hv.invitations.requested id c hc hkind hsource

theorem Fits.communityValid (h : Fits s cs is rs charges reserved) (hv : s.Valid K) :
    EngagementStore.CommunityValid { s with
      candidates := cs, introductions := is, communityReceipts := rs, charges := charges } where
  cursor := hv.community.cursor
  size := (Rewrites.size h.receipts).trans_le hv.community.size
  receipts := all_iff.mpr fun id r' hr' => by
    obtain ⟨r, hr, hevidence⟩ := h.receipts.back hr'
    obtain ⟨c, hc, hproves⟩ := all_iff.mp hv.community.receipts id r hr
    obtain ⟨c', hc', hp⟩ := h.candidates.forward hc
    obtain ⟨hat, hattempted⟩ := h.attempted id c' r' hc' hr'
    have hdestination := hp.destination (.inr hproves.feature) hproves.destination
    have hsupports : r'.evidence.Supports c' := by
      rw [hevidence, hp.rest]
      have hs := hproves.supports
      unfold CommunityEvidence.Supports at hs ⊢
      exact hs
    refine ⟨c', hc', ⟨?_, ?_, hdestination, hsupports, hat, hattempted⟩⟩
    · rw [hp.rest]
      exact hproves.feature
    · rw [hp.rest]
      exact hproves.guild

theorem Fits.feedbackValid (h : Fits s cs is rs charges reserved) (hv : s.Valid K) :
    EngagementStore.FeedbackValid { s with
      candidates := cs, introductions := is, communityReceipts := rs, charges := charges } where
  rows := all_iff.mpr fun id members hmembers => by
    obtain ⟨hid, c, hc, hsent, hempty, hsize, hrows⟩ := all_iff.mp hv.feedback.rows id members hmembers
    obtain ⟨c', hc', hp⟩ := h.candidates.forward hc
    refine ⟨hid, c', hc', hp.sent hsent, hempty, hsize, all_iff.mpr fun actor f hf => ?_⟩
    obtain ⟨hactor, hsame, hconcerns⟩ := all_iff.mp hrows actor f hf
    exact ⟨hactor, hsame, (concerns_proceeds h.introductions hp).mpr hconcerns⟩
  size := hv.feedback.size

/-- **Records that go on pass the checks**, if their charges do. -/
theorem Fits.valid (h : Fits s cs is rs charges reserved) (hv : s.Valid K)
    (hcharges : EngagementStore.ChargesValid { s with
      candidates := cs, introductions := is, communityReceipts := rs, charges := charges }) :
    EngagementStore.Valid { s with
      candidates := cs, introductions := is, communityReceipts := rs, charges := charges } K where
  erased := by
    refine ⟨hv.erased.identities, ?_, hv.erased.contact, hv.erased.community⟩
    have hroom := h.room
    have hsizes := hv.erased.sizes.2
    rw [← Rewrites.size h.receipts] at hsizes
    exact ⟨by rw [Nat.add_comm]; exact hroom, hsizes⟩
  invitations := h.invitationsValid hv
  community := h.communityValid hv
  feedback := h.feedbackValid hv
  sizes := by
    have hsizes := hv.sizes.candidates
    rw [← Rewrites.size h.candidates, ← Rewrites.size h.introductions] at hsizes
    refine ⟨hsizes, ?_, hv.sizes.memberPolicies, hv.sizes.eligibility, hv.sizes.guildFeatures,
      h.room⟩
    refine (countRows_le fun k c' hc' hopen => ?_).trans hv.sizes.opened
    obtain ⟨c, hc, hp⟩ := h.candidates.back hc'
    exact ⟨c, hc, hp.opened hopen⟩
  assessments := hv.assessments
  responses := hv.responses
  observations := hv.observations
  settings := ⟨hv.settings.observations, hv.settings.memberPolicies, hv.settings.eligibility,
    hv.settings.guildFeatures⟩
  candidates := h.candidatesValid hv
  introductions := h.introductionsValid hv
  charges := hcharges

/-! ### The ways to go on -/

/-- An open candidate is cancelled. -/
theorem Candidate.proceeds_cancelled {c : Candidate} {revision : ℕ}
    {reason : Option FollowUpDecision} (hopen : c.state.isOpen = true)
    (hrevision : c.revision ≠ 0 → revision ≠ 0)
    (hreason : c.ReasonOk → (c.workRef = none → reason = none) ∧ ∀ r ∈ reason, r ≠ .allowed) :
    c.Proceeds reserved
      { c with state := .cancelled, revision := revision, followUpReason := reason } := by
  have hunsent : c.state ≠ .sent := by
    intro h
    rw [h] at hopen
    cases hopen
  exact
    { rest := rfl
      revision := hrevision
      message := fun h => ⟨⟨fun hs => (by cases hs), fun hm => absurd (h.1.mpr hm) hunsent⟩, h.2⟩
      reason := fun h => ⟨(hreason h).1, fun r hr => ⟨(hreason h).2 r hr, .inl rfl⟩⟩
      destination := fun _ h => h
      sent := fun h => absurd h hunsent
      opened := fun h => by cases h
      pending := fun h => by cases h
      attempted := fun h => by cases h }

/-- A candidate that is cancelled keeps its explanation. -/
theorem Candidate.proceeds_closed {c : Candidate} (hopen : c.state.isOpen = true) :
    c.Proceeds reserved { c with state := .cancelled } :=
  proceeds_cancelled hopen (fun h => h) fun h => ⟨h.1, fun r hr => (h.2 r hr).1⟩

/-- A candidate that was reserved is settled. -/
theorem Candidate.proceeds_settled {c : Candidate} {outcome : DeliveryOutcome}
    (hid : c.id ∈ reserved) (hstate : c.state = .reserved ∨ c.state = .cancelled)
    (hzero : outcome ≠ .sent 0) : c.Proceeds reserved (c.settle outcome) where
  rest := rfl
  revision h := h
  message _ := by
    cases outcome with
    | sent messageId =>
      refine ⟨⟨fun _ => rfl, fun _ => rfl⟩, fun h => hzero ?_⟩
      rw [Option.some.inj h]
    | rejected | cancelled | reviewRequired =>
      exact ⟨⟨fun h => (by cases h), fun h => (by cases h)⟩, nofun⟩
  reason h := by
    show (c.workRef = none → (if c.workRef.isSome = true ∧ outcome.mayHaveHappened = true then none
      else c.followUpReason) = none) ∧ ∀ r ∈ if c.workRef.isSome = true ∧
        outcome.mayHaveHappened = true then none else c.followUpReason,
      r ≠ .allowed ∧ (outcome.state = .cancelled ∨ outcome.state = .rejected)
    split_ifs with hmade
    · exact ⟨fun _ => rfl, fun r hr => (by cases hr)⟩
    · refine ⟨h.1, fun r hr => ⟨(h.2 r hr).1, ?_⟩⟩
      -- an outcome that may have happened explains no follow-up of a task
      have hwork : c.workRef.isSome = true := by
        by_contra hnone
        rw [h.1 (by simpa using hnone)] at hr
        cases hr
      cases outcome with
      | sent _ | reviewRequired => exact absurd ⟨hwork, rfl⟩ hmade
      | rejected => exact .inr rfl
      | cancelled => exact .inl rfl
  destination _ h := h
  sent h := by
    rcases hstate with hstate | hstate <;> rw [hstate] at h <;> cases h
  opened h := by
    cases outcome <;> cases h
  pending h := absurd h outcome.state_ne_pending
  attempted _ := .inr hid

/-- A reserved candidate is recovered. -/
theorem Candidate.proceeds_recovered {c : Candidate} (hstate : c.state = .reserved) :
    c.Proceeds reserved c.recover where
  rest := rfl
  revision h := h
  message h := by
    refine ⟨⟨fun hs => (by cases hs), fun hm => ?_⟩, h.2⟩
    rw [h.1.mpr hm] at hstate
    cases hstate
  reason h := by
    show (c.workRef = none → (if c.workRef.isSome = true then none else c.followUpReason) = none) ∧
      ∀ r ∈ if c.workRef.isSome = true then none else c.followUpReason, _
    split_ifs with hwork
    · exact ⟨fun _ => rfl, fun r hr => (by cases hr)⟩
    · rw [h.1 (by simpa using hwork)]
      exact ⟨fun _ => rfl, fun r hr => (by cases hr)⟩
  destination _ h := h
  sent h := by
    rw [hstate] at h
    cases h
  opened h := by cases h
  pending h := by cases h
  attempted _ := .inl (by rw [hstate]; rfl)

/-- A pending candidate is reserved. -/
theorem Candidate.proceeds_reserved {c : Candidate} {policyRevision : ℕ}
    {destination : DestinationPreference} (hstate : c.state = .pending) (hid : c.id ∈ reserved)
    (hgoes : c.kind = .introduction ∨ c.kind.feature.isSome = true → c.destination = .origin →
      destination = .origin) : c.Proceeds reserved (c.reserve policyRevision destination) where
  rest := rfl
  revision h := h
  message h := by
    refine ⟨⟨fun hs => (by cases hs), fun hm => ?_⟩, h.2⟩
    rw [h.1.mpr hm] at hstate
    cases hstate
  reason h := by
    refine ⟨h.1, fun r hr => ?_⟩
    obtain ⟨-, hclosed | hclosed⟩ := h.2 r hr <;> rw [hstate] at hclosed <;> cases hclosed
  destination := hgoes
  sent h := by
    rw [hstate] at h
    cases h
  opened _ := by rw [hstate]; rfl
  pending _ := hstate
  attempted _ := .inr hid

/-- An introduction is cancelled. -/
theorem Introduction.proceeds_cancelled {i : Introduction} {revision : ℕ}
    (hrevision : i.revision ≠ 0 → revision ≠ 0) :
    i.Proceeds { i with revision := revision, state := .cancelled, approvals := fun _ => none } where
  rest := rfl
  revision := hrevision
  approvals _ k r hr := by cases hr
  agreed _ h := by rcases h with h | h <;> cases h
  spoken _ k h := by cases h

/-- A member who has described themselves approves the introduction. -/
theorem Introduction.proceeds_approved {i : Introduction} {index : Fin 2}
    (hspoken : i.Spoken) (hown : (i.approvedSelfDescriptions index).isSome = true) :
    i.Proceeds (i.approve index i.revision) := by
  have hboth : ∀ k, (Function.update i.approvals index (some i.revision) k).isSome = true →
      (i.approvedSelfDescriptions k).isSome = true := by
    intro k hk
    by_cases heq : k = index
    · rw [heq]
      exact hown
    · rw [Function.update_of_ne heq] at hk
      exact hspoken k hk
  refine ⟨rfl, fun h => h, fun h k r hr => ?_, fun h hstate => ?_, fun _ => hboth⟩
  · have hr : Function.update i.approvals index (some i.revision) k = some r := hr
    by_cases heq : k = index
    · rw [heq, Function.update_self] at hr
      exact (Option.some.inj hr).symm
    · rw [Function.update_of_ne heq] at hr
      exact h k r hr
  · have hall : ∀ k, Function.update i.approvals index (some i.revision) k = some i.revision := by
      by_contra hnot
      have hsame : (i.approve index i.revision).state = i.state := if_neg hnot
      rw [hsame] at hstate
      refine hnot fun k => ?_
      by_cases heq : k = index
      · rw [heq, Function.update_self]
      · rw [Function.update_of_ne heq]
        exact (h hstate).1 k
    exact ⟨hall, fun k => hboth k (by rw [hall k]; rfl)⟩

/-- An introduction that both members approved is made. -/
theorem Introduction.proceeds_consumed {i : Introduction} (happroved : i.Approved)
    (hown : ∀ k, (i.approvedSelfDescriptions k).isSome = true) :
    i.Proceeds { i with state := .consumed } :=
  ⟨rfl, fun h => h, fun h => h, fun _ _ => ⟨happroved, hown⟩, fun h => h⟩

/-! ### Introductions and their candidates -/

/-- A candidate of another kind announces no introduction. -/
theorem unannounced_of_kind {id : ℕ} {c : Candidate} (hs : s.Core)
    (hc : s.candidates[id]? = some c) (hkind : c.kind ≠ .introduction) : c.introductionId = none := by
  by_contra hsome
  exact hkind ((hs.candidates id c hc).introduction.mpr (Option.isSome_iff_ne_none.mpr hsome))

/-- A candidate that rests on a message announces no introduction. -/
theorem EngagementStore.Valid.unannounced_of_source {id : ℕ} {c : Candidate} (hv : s.Valid K)
    (hc : s.candidates[id]? = some c) (hsource : ∃ source, c.source = some source) :
    c.introductionId = none := by
  refine unannounced_of_kind hv.core hc fun hkind => ?_
  obtain ⟨source, hsource⟩ := hsource
  rw [((all_iff.mp hv.candidates.rows id c hc).introduction hkind).2.1] at hsource
  cases hsource

/-! ### Records that go on -/

/-- Candidates and introductions go on, and their announcements match. -/
structure GoesOn (s : EngagementStore) (cs : BTreeMap ℕ Candidate)
    (is : BTreeMap ℕ Introduction) (reserved : List ℕ) : Prop where
  candidates : Rewrites (Candidate.Proceeds reserved) s.candidates cs
  introductions : Rewrites Introduction.Proceeds s.introductions is
  announced : ∀ (k id : ℕ) (c : Candidate) (i : Introduction), cs[k]? = some c → is[id]? = some i →
    c.introductionId = some id → i.revision = c.revision ∧ i.state.admits c.state = true

/-- The candidate goes on within the terms of the introduction that it announces. -/
structure Candidate.Abides (reserved : List ℕ) (c c' : Candidate) : Prop where
  proceeds : c.Proceeds reserved c'
  revision : c'.revision = c.revision
  admitted : c.introductionId.isSome = true → ∀ state : IntroductionState,
    state.admits c.state = true → state.admits c'.state = true

theorem Candidate.Abides.refl (c : Candidate) : c.Abides reserved c :=
  ⟨.refl c, rfl, fun _ _ h => h⟩

/-- An open candidate that announces no introduction is cancelled. -/
theorem Candidate.abides_closed {c : Candidate} (hopen : c.state.isOpen = true)
    (hnone : c.introductionId = none) : c.Abides reserved { c with state := .cancelled } :=
  ⟨proceeds_closed hopen, rfl, fun h => by rw [hnone] at h; cases h⟩

/-- Only candidates go on. -/
theorem goesOn_candidates (hv : s.Valid K)
    (hc : Rewrites (Candidate.Abides reserved) s.candidates cs) :
    GoesOn s cs s.introductions reserved where
  candidates := hc.mono fun _ _ h => h.proceeds
  introductions := .refl Introduction.Proceeds.refl _
  announced k id c' i hc' hi hid := by
    obtain ⟨c, hrow, habides⟩ := hc.back hc'
    rw [habides.proceeds.rest] at hid
    obtain ⟨-, hrevision, hadmits⟩ := hv.announced hrow hi hid
    refine ⟨hrevision.trans habides.revision.symm, habides.admitted ?_ i.state hadmits⟩
    have hid : c.introductionId = some id := hid
    rw [hid]
    rfl

/-- An introduction goes on with the candidate that announces it. -/
theorem goesOn_introduction {id : ℕ} {i i' : Introduction} (hv : s.Valid K)
    (hi : s.introductions[id]? = some i) (hp : i.Proceeds i')
    (hc : Rewrites (fun c c' => c.Proceeds reserved c' ∧ (c.introductionId ≠ some id → c' = c) ∧
      (c.introductionId = some id → i'.revision = c'.revision ∧ i'.state.admits c'.state = true))
      s.candidates cs) : GoesOn s cs (s.introductions.insert id i') reserved where
  candidates := hc.mono fun _ _ h => h.1
  introductions := .insert Introduction.Proceeds.refl hi hp
  announced k id' c' i₁ hc' hi₁ hid' := by
    obtain ⟨c, hrow, hproceeds, hother, hthis⟩ := hc.back hc'
    have hid : c.introductionId = some id' := by rw [hproceeds.rest] at hid'; exact hid'
    rw [getElem?_insert] at hi₁
    split_ifs at hi₁ with heq
    · subst heq
      cases hi₁
      exact hthis hid
    · rw [hother fun h => heq (Option.some.inj (h.symm.trans hid))]
      exact (hv.announced hrow hi₁ hid).2

/-! ### Operations under which records go on -/

theorem goesOn_cancelMatching {p : Candidate → Bool} (hv : s.Valid K)
    (hp : ∀ (id : ℕ) (c : Candidate), s.candidates[id]? = some c → p c = true →
      c.introductionId = none) :
    GoesOn s (s.cancelMatching p).2.candidates s.introductions reserved :=
  goesOn_candidates hv (.map_rows fun id c hc => by
    split_ifs with h
    · rw [Bool.and_eq_true] at h
      exact Candidate.abides_closed h.2 (hp id c hc h.1)
    · exact .refl c)

/-- Only candidates that rest on a message are cancelled with it. -/
theorem goesOn_cancelSources {p : Candidate → Bool} (hv : s.Valid K)
    (hp : ∀ c, p c = true → ∃ source, c.source = some source) :
    GoesOn s (s.cancelMatching p).2.candidates s.introductions reserved :=
  goesOn_cancelMatching hv fun _ _ hc h => hv.unannounced_of_source hc (hp _ h)

theorem goesOn_missed (hv : s.Valid K) (now : ℕ) :
    GoesOn s (s.candidates.map fun _ c =>
      if c.Missed now then { c with state := .cancelled } else c) s.introductions reserved :=
  goesOn_candidates hv (.map_rows fun id c hc => by
    split_ifs with h
    · refine Candidate.abides_closed h.1 (unannounced_of_kind hv.core hc fun hkind => ?_)
      rcases h.2.1 with hk | hk | hk <;> rw [hkind] at hk <;> cases hk
    · exact .refl c)

theorem goesOn_recoverReserved (hv : s.Valid K) :
    GoesOn s s.recoverReserved.2.candidates s.introductions reserved :=
  goesOn_candidates hv (.map_rows fun id c hc => by
    split_ifs with h
    · refine ⟨Candidate.proceeds_recovered h, rfl, fun _ state hadmits => ?_⟩
      rw [h] at hadmits
      cases state <;> first | rfl | cases hadmits
    · exact .refl c)

theorem goesOn_cancelTaskFollowUp {id : ℕ} {c : Candidate} {reason : FollowUpDecision}
    (hv : s.Valid K) (hc : s.candidates[id]? = some c) (hwork : c.workRef.isSome = true)
    (hopen : c.state.isOpen = true) (hreason : reason ≠ .allowed) :
    GoesOn s (s.candidates.insert id (c.cancelFollowUp reason)) s.introductions reserved := by
  have hproceeds : c.Proceeds reserved (c.cancelFollowUp reason) :=
    Candidate.proceeds_cancelled hopen (fun h => h) fun _ =>
      ⟨fun hnone => (by rw [hnone] at hwork; cases hwork), fun r hr => by cases hr; exact hreason⟩
  refine goesOn_candidates hv (.insert .refl hc ⟨hproceeds, rfl, fun hsome => ?_⟩)
  rw [unannounced_of_kind hv.core hc] at hsome
  · cases hsome
  · rw [(hv.core.candidates id c hc).linked hwork]
    exact nofun

theorem goesOn_approved {id : ℕ} {i : Introduction} {index : Fin 2} (hv : s.Valid K)
    (hi : s.introductions[id]? = some i) (hspoken : i.Spoken) (hopen : i.state.isOpen = true)
    (hown : (i.approvedSelfDescriptions index).isSome = true) :
    GoesOn s s.candidates (s.introductions.insert id (i.approve index i.revision)) reserved := by
  refine goesOn_introduction hv hi (Introduction.proceeds_approved hspoken hown)
    (fun k => ?_)
  cases hc : s.candidates[k]? with
  | none => exact .none
  | some c =>
    refine .some ⟨.refl c, fun _ => rfl, fun hid => ?_⟩
    obtain ⟨-, hrevision, hadmits⟩ := hv.announced hc hi hid
    refine ⟨hrevision, ?_⟩
    -- while the introduction is open its candidate is pending
    have hpending : c.state = .pending := by
      cases hstate : i.state <;> rw [hstate] at hopen hadmits
      · exact beq_iff_eq.mp hadmits
      · exact beq_iff_eq.mp hadmits
      · cases hopen
      · cases hopen
    have hstate : (i.approve index i.revision).state = .ready ∨
        (i.approve index i.revision).state = i.state := by
      unfold Introduction.approve
      dsimp only
      split_ifs
      · exact .inl rfl
      · exact .inr rfl
    rcases hstate with hstate | hstate <;> rw [hstate]
    · rw [hpending]
      rfl
    · exact hadmits

/-- An introduction is withdrawn while its candidate is open. -/
theorem goesOn_withdrawn {id revision : ℕ} {i : Introduction} (hv : s.Valid K)
    (hi : s.introductions[id]? = some i) (hrevision : revision ≠ 0)
    (hopen : ∃ c ∈ values s.candidates, c.introductionId = some id ∧ c.state.isOpen = true) :
    GoesOn s (s.withWithdrawal id i revision).candidates
      (s.introductions.insert id (i.withdraw revision)) reserved := by
  obtain ⟨c₀, hc₀, hid₀, hopen₀⟩ := hopen
  obtain ⟨k₀, hk₀⟩ := mem_values.mp hc₀
  refine goesOn_introduction hv hi (Introduction.proceeds_cancelled fun _ => hrevision)
    (.map_rows fun k c hc => ?_)
  split_ifs with hid
  · have hk : k = k₀ := eq_of_nodup_column hv.introductions.unique hc hk₀ hid hid₀
    rw [hk, hk₀] at hc
    cases hc
    exact ⟨Candidate.proceeds_cancelled hopen₀ (fun _ => hrevision)
        fun h => ⟨h.1, fun r hr => (h.2 r hr).1⟩, fun h => absurd hid h, fun _ => ⟨rfl, rfl⟩⟩
  · exact ⟨.refl c, fun _ => rfl, fun h => absurd h hid⟩

end AbbeyBot.Engagement
