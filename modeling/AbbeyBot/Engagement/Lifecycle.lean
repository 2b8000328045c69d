import Mathlib
import AbbeyBot.Engagement.Community
import AbbeyBot.Engagement.Invitations

/-! # Reservation and settlement

A pending candidate is reserved before the contact is attempted; the attempt is charged to the
members concerned, under their daily and weekly limits, and never refunded. The outcome is settled
afterwards. Cancellation is possible until then, an outcome that arrives later still counts. -/

namespace AbbeyBot.Engagement

open AbbeyBot.Calendar AbbeyBot.Library.CivilDate AbbeyBot.Library.OrderedMap
open AbbeyBot.Library.Result AbbeyBot.Work.Types

structure IntroductionReservation where
  introduction : Introduction
  policyRevisions : Fin 2 → ℕ
  deriving DecidableEq

structure EngagementReservation where
  introduction : Option IntroductionReservation
  candidateId : ℕ
  revision : ℕ
  policyRevision : ℕ
  scope : EngagementScope
  member : Option ℕ
  destination : DestinationPreference
  deriving DecidableEq

inductive DeliveryOutcome where
  | sent (messageId : ℕ)
  | rejected
  | cancelled
  | reviewRequired
  deriving DecidableEq, Repr

/-! ### Eligibility -/

/-- `buckets`: the local day and the Monday of the local week, as text. -/
def buckets (K : Crates) (tz : K.Tz) (at_ : ℕ) : Except WorkError (String × String) := do
  utc at_
  let day := localDay K.toZones tz at_
  ensure (InRange (monday day)) .invalid
  return (format day, format (monday day))

/-- The local hour is one of the quiet hours, which may span midnight. -/
def MemberPolicy.Quiet (p : MemberPolicy) (hour : ℕ) : Prop :=
  (p.quietStart < p.quietEnd ∧ p.quietStart ≤ hour ∧ hour < p.quietEnd) ∨
    (p.quietEnd < p.quietStart ∧ (p.quietStart ≤ hour ∨ hour < p.quietEnd))

instance (p : MemberPolicy) (hour : ℕ) : Decidable (p.Quiet hour) := by
  unfold MemberPolicy.Quiet; infer_instance

/-- `allowed_with_reason`. -/
def EngagementStore.allowedWithReason (s : EngagementStore) (K : Crates) (c : Candidate)
    (member now : ℕ) : Except (WorkError × FollowUpDecision) (String × String) := do
  let p ← orErr s.memberPolicies[member]? (.denied, .disabled)
  (p.validate K).mapError (·, .disabled)
  ensure (p.globalStop = false ∧ ¬ p.GuildStopped c.scope ∧ c.scope ∉ p.stoppedScopes)
    (.denied, .optedOut)
  ensure (p.PersonalizedEnabled K) (.denied, .disabled)
  ensure (∀ t ∈ p.snoozedUntil, t ≤ now) (.denied, .quiet)
  let name ← orErr p.timezone (.denied, .disabled)
  let tz ← orErr (K.parseTz name) (.invalid, .disabled)
  (utc now).mapError (·, .disabled)
  ensure (¬ p.Quiet (localHourOf K.toZones tz now)) (.denied, .quiet)
  ensure (c.kind = .weeklyCheckIn → ∃ w ∈ p.weeklySubscription, w.scope = c.scope)
    (.denied, .optedOut)
  (buckets K tz now).mapError (·, .disabled)

/-- `allowed`. -/
def EngagementStore.allowed (s : EngagementStore) (K : Crates) (c : Candidate) (member now : ℕ) :
    Except WorkError (String × String) :=
  (s.allowedWithReason K c member now).mapError Prod.fst

/-- `task_follow_up_member_allowed`: a follow-up of a task needs the destination that the member
chose for this very scope. -/
def EngagementStore.taskFollowUpMemberAllowed (s : EngagementStore) (K : Crates) (c : Candidate)
    (now : ℕ) : Except (WorkError × FollowUpDecision) (String × String) := do
  ensure (c.kind = .followUp ∧ c.workRef.isSome = true) (.invalid, .staleTask)
  let member ← orErr (c.member.filter (· ≠ 0)) (.invalid, .accessDenied)
  c.scope.validate.mapError (·, .accessDenied)
  ensure (c.scope.MatchesMember member) (.denied, .accessDenied)
  let b ← s.allowedWithReason K c member now
  ensure (∃ p ∈ s.memberPolicies[member]?, p.destinations[c.scope]? = some c.destination)
    (.denied, .optedOut)
  return b

/-- The days, weeks and times charged to a member, before and after erasure. -/
def EngagementStore.contactRows (s : EngagementStore) (member : ℕ) : List (String × String × ℕ) :=
  ((s.charges.filter fun c => c.member = member).map fun c => (c.localDay, c.localWeek, c.at_)) ++
    (s.erasedContactCharges.filter fun c => c.member = member).map fun c =>
      (c.localDay, c.localWeek, c.at_)

/-- `capacity`: the rows count by the bucket they were saved with and by the bucket their time falls
into now, whichever are more. -/
def EngagementStore.capacity (s : EngagementStore) (K : Crates) (member now : ℕ)
    (b : String × String) : Except WorkError Unit := do
  ensure (s.safetyPrunedThrough ≤ now) .denied
  let p ← orErr s.memberPolicies[member]? .denied
  let name ← orErr p.timezone .denied
  let tz ← orErr (K.parseTz name) .invalid
  let rows := s.contactRows member
  let current ← rows.mapM fun row => buckets K tz row.2.2
  utc now
  let dailyLimit ← orErr p.dailyLimit .denied
  ensure (max (rows.countP fun row => row.1 = b.1) (current.countP fun row => row.1 = b.1) <
      dailyLimit ∧
    ∀ limit ∈ p.weeklyLimit,
      max (rows.countP fun row => row.2.1 = b.2) (current.countP fun row => row.2 = b.2) < limit)
    .denied

/-- `task_follow_up_window`. -/
def Candidate.taskFollowUpWindow (c : Candidate) (now : ℕ) : Except WorkError Bool :=
  match c.workRef with
  | none => return true
  | some _ => do
    let expires ← orErr c.expiresAt .invalid
    ensure (c.kind = .followUp ∧ c.dueAt < expires) .invalid
    utc expires
    return decide (now < expires)

/-- What makes the member eligible for the contact still stands. -/
def EngagementStore.StillEligible (s : EngagementStore) (c : Candidate) (member : ℕ) : Prop :=
  if c.kind = .projectCheckIn then s.CommunityReceiptCurrent c
  else if c.kind.isInvitation = true ∧ c.source = none then s.InvitationEligible member
  else ∃ sources ∈ s.eligibility[member]?, ∀ source ∈ c.source, source ∈ sources

instance (s : EngagementStore) (c : Candidate) (member : ℕ) :
    Decidable (s.StillEligible c member) := by
  unfold EngagementStore.StillEligible; infer_instance

/-! ### Reservation -/

/-- The contact is allowed and within the limits of the member. -/
def EngagementStore.admit (s : EngagementStore) (K : Crates) (c : Candidate) (member now : ℕ) :
    Except WorkError (String × String) := do
  let b ← s.allowed K c member now
  s.capacity K member now b
  return b

/-- The charge of a contact. -/
def chargeOf (id member now : ℕ) (b : String × String) : ContactCharge where
  candidateId := id
  member := member
  localDay := b.1
  localWeek := b.2
  at_ := now

/-- The store with the reservation of an introduction: both members are charged. -/
def EngagementStore.withIntroductionReserved (s : EngagementStore) (id now : ℕ) (c : Candidate)
    (i : Introduction) (b₀ b₁ : String × String) : EngagementStore :=
  { s with
    charges := s.charges ++ [chargeOf id (i.members 0) now b₀, chargeOf id (i.members 1) now b₁]
    introductions := s.introductions.insert i.id { i with state := .consumed }
    candidates := s.candidates.insert id { c with state := .reserved } }

/-- `reserve_introduction`. -/
def EngagementStore.reserveIntroduction (K : Crates) (id revision now : ℕ) (s : EngagementStore) :
    Except WorkError (EngagementReservation × EngagementStore) := do
  let c ← orErr s.candidates[id]? .missing
  ensure (s.IntroductionReceiptCurrent K c ∧ c.revision = revision) .denied
  let i ← orErr (s.introductionOf c) .invalid
  ensure (s.charges.length + s.erasedContactCharges.length + 2 ≤ 20000) .full
  let b₀ ← s.admit K c (i.members 0) now
  let b₁ ← s.admit K c (i.members 1) now
  let reservation : EngagementReservation :=
    { introduction :=
        some ⟨{ i with state := .consumed }, fun k => s.memberRevision (i.members k)⟩
      candidateId := id
      revision := revision
      policyRevision := c.policyRevision
      scope := c.scope
      member := none
      destination := .origin }
  return (reservation, s.withIntroductionReserved id now c i b₀ b₁)

/-- `validate_introduction_reservation`. -/
def EngagementStore.validateIntroductionReservation (s : EngagementStore) (K : Crates)
    (r : EngagementReservation) (now : ℕ) : Except WorkError Unit := do
  let snapshot ← orErr r.introduction .denied
  let c ← orErr s.candidates[r.candidateId]? .missing
  ensure (s.IntroductionReceiptCurrent K c ∧
    s.introductions[snapshot.introduction.id]? = some snapshot.introduction) .stale
  let admitted (k : Fin 2) : Except WorkError Unit := do
    ensure (∃ p ∈ s.memberPolicies[snapshot.introduction.members k]?,
      p.revision = snapshot.policyRevisions k) .stale
    let _ ← s.allowed K c (snapshot.introduction.members k) now
  admitted 0
  admitted 1

/-- A reserved candidate. -/
def Candidate.reserve (c : Candidate) (policyRevision : ℕ) (destination : DestinationPreference) :
    Candidate :=
  { c with state := .reserved, policyRevision := policyRevision, destination := destination }

/-- The store with the reservation of a contact, for the charges made. -/
def EngagementStore.withReserved (s : EngagementStore) (id now : ℕ) (c : Candidate)
    (policyRevision : ℕ) (destination : DestinationPreference) (charges : List ContactCharge) :
    EngagementStore :=
  { s with
    communityReceipts := s.communityReceipts.modify id fun r => { r with attemptedAt := some now }
    charges := s.charges ++ charges
    candidates := s.candidates.insert id (c.reserve policyRevision destination) }

/-- A public contact with nobody in particular is reserved; nobody is charged. -/
def EngagementStore.reservePublic (id revision now : ℕ) (c : Candidate) (s : EngagementStore) :
    Except WorkError (EngagementReservation × EngagementStore) := do
  let receipt ← orErr s.communityReceipts[id]? .missing
  let reservation : EngagementReservation :=
    { introduction := none
      candidateId := id
      revision := revision
      policyRevision := receipt.policyRevision
      scope := c.scope
      member := none
      destination := .origin }
  return (reservation, s.withReserved id now c receipt.policyRevision .origin [])

/-- Where a contact with a member goes. -/
def Candidate.contactDestination (c : Candidate) (p : MemberPolicy) :
    Except WorkError DestinationPreference :=
  if c.workRef.isSome = true then return c.destination
  else if c.kind = .projectCheckIn then return .origin
  else if c.kind = .weeklyCheckIn then do
    let w ← orErr p.weeklySubscription .denied
    return w.destination
  else return p.destinationFor c.scope

/-- The contact is allowed, with the stricter rule for follow-ups of tasks. -/
def EngagementStore.contactAllowed (s : EngagementStore) (K : Crates) (c : Candidate)
    (member now : ℕ) : Except WorkError (String × String) :=
  if c.workRef.isSome = true then (s.taskFollowUpMemberAllowed K c now).mapError Prod.fst
  else s.allowed K c member now

/-- A contact with one member is reserved, and charged to the member. -/
def EngagementStore.reserveContact (K : Crates) (id revision now : ℕ) (c : Candidate)
    (member : ℕ) (s : EngagementStore) :
    Except WorkError (EngagementReservation × EngagementStore) := do
  ensure (c.kind.isInvitation = true ∧ c.source = none → s.InvitationReceiptCurrent c) .denied
  ensure (s.StillEligible c member) .denied
  let b ← s.contactAllowed K c member now
  s.capacity K member now b
  ensure (s.charges.length + s.erasedContactCharges.length < 20000) .full
  let p ← orErr s.memberPolicies[member]? .denied
  let destination ← c.contactDestination p
  let reservation : EngagementReservation :=
    { introduction := none
      candidateId := id
      revision := revision
      policyRevision := p.revision
      scope := c.scope
      member := c.member
      destination := destination }
  return (reservation,
    s.withReserved id now c p.revision destination [chargeOf id member now b])

/-- `EngagementStore::reserve`. -/
def EngagementStore.reserve (K : Crates) (id revision now : ℕ) (s : EngagementStore) :
    Except WorkError (EngagementReservation × EngagementStore) := do
  utc now
  let c ← orErr s.candidates[id]? .missing
  ensure (c.revision = revision ∧ c.state = .pending ∧ c.dueAt ≤ now) .stale
  let inWeeklyWindow ← c.weeklyWindow now
  ensure (inWeeklyWindow = true) .stale
  let inTaskWindow ← c.taskFollowUpWindow now
  ensure (inTaskWindow = true) .stale
  if c.kind = .introduction then
    s.reserveIntroduction K id revision now
  else
    ensure (c.kind.feature.isSome = true →
      s.CommunityReceiptCurrent c ∧ s.CommunityCapacity K c now) .denied
    match c.member with
    | none =>
      ensure (c.kind.feature.isSome = true) .denied
      s.reservePublic id revision now c
    | some member => s.reserveContact K id revision now c member

/-- The contact is charged to `member` in the buckets `b`: it is allowed now, and the buckets have
room. -/
structure EngagementStore.Admits (s : EngagementStore) (K : Crates) (member now : ℕ)
    (b : String × String) : Prop where
  allowed : ∃ p name tz, s.memberPolicies[member]? = some p ∧ p.timezone = some name ∧
    K.parseTz name = some tz ∧ buckets K tz now = .ok b
  capacity : s.capacity K member now b = .ok ()

/-- The ways to reserve a pending candidate `c`. -/
inductive EngagementStore.Reserves (s : EngagementStore) (K : Crates) (id now : ℕ)
    (c : Candidate) : EngagementReservation → EngagementStore → Prop
  | introduction {r : EngagementReservation} (i : Introduction) (b₀ b₁ : String × String)
      (current : s.IntroductionReceiptCurrent K c) (of : s.introductionOf c = some i)
      (room : s.charges.length + s.erasedContactCharges.length + 2 ≤ 20000)
      (admits₀ : s.Admits K (i.members 0) now b₀) (admits₁ : s.Admits K (i.members 1) now b₁)
      (candidate : r.candidateId = id) (member : r.member = none)
      (snapshot : ∃ revisions, r.introduction = some ⟨{ i with state := .consumed }, revisions⟩) :
      Reserves s K id now c r (s.withIntroductionReserved id now c i b₀ b₁)
  | publicly {r : EngagementReservation} (receipt : CommunityReceipt)
      (feature : c.kind.feature.isSome = true) (current : s.CommunityReceiptCurrent c)
      (stored : s.communityReceipts[id]? = some receipt) (nobody : c.member = none)
      (candidate : r.candidateId = id) (member : r.member = none)
      (snapshot : r.introduction = none) :
      Reserves s K id now c r (s.withReserved id now c receipt.policyRevision .origin [])
  | contact {r : EngagementReservation} (member : ℕ) (b : String × String)
      (p : MemberPolicy) (destination : DestinationPreference)
      (kind : c.kind ≠ .introduction) (somebody : c.member = some member)
      (current : c.kind.feature.isSome = true → s.CommunityReceiptCurrent c)
      (admits : s.Admits K member now b)
      (room : s.charges.length + s.erasedContactCharges.length < 20000)
      (goes : c.contactDestination p = .ok destination)
      (candidate : r.candidateId = id) (contacted : r.member = some member)
      (snapshot : r.introduction = none) :
      Reserves s K id now c r
        (s.withReserved id now c p.revision destination [chargeOf id member now b])

theorem allowedWithReason_ok {s : EngagementStore} {K : Crates} {c : Candidate} {member now : ℕ}
    {b : String × String} (h : s.allowedWithReason K c member now = .ok b) :
    ∃ p name tz, s.memberPolicies[member]? = some p ∧ p.timezone = some name ∧
      K.parseTz name = some tz ∧ buckets K tz now = .ok b := by
  unfold EngagementStore.allowedWithReason at h
  simp only [bind_eq_ok, ensure_eq_ok, exists_unit, orErr_eq_ok, mapError_ok_iff] at h
  obtain ⟨p, hp, -, -, -, -, name, hname, tz, htz, -, -, -, hb⟩ := h
  exact ⟨p, name, tz, hp, hname, htz, hb⟩

theorem admit_ok {s : EngagementStore} {K : Crates} {c : Candidate} {member now : ℕ}
    {b : String × String} (h : s.admit K c member now = .ok b) : s.Admits K member now b := by
  unfold EngagementStore.admit EngagementStore.allowed at h
  simp only [bind_eq_ok, exists_unit, pure_eq_ok, mapError_ok_iff] at h
  obtain ⟨_, hallowed, hcapacity, rfl⟩ := h
  exact ⟨allowedWithReason_ok hallowed, hcapacity⟩

theorem reserveIntroduction_ok {K : Crates} {id revision now : ℕ} {s s' : EngagementStore}
    {r : EngagementReservation} {c : Candidate} (hc : s.candidates[id]? = some c)
    (h : s.reserveIntroduction K id revision now = .ok (r, s')) : s.Reserves K id now c r s' := by
  unfold EngagementStore.reserveIntroduction at h
  simp only [bind_eq_ok, ensure_eq_ok, exists_unit, orErr_eq_ok, pure_eq_ok, Prod.mk.injEq, hc,
    Option.some.injEq, exists_eq_left'] at h
  obtain ⟨⟨hcurrent, -⟩, i, hi, hroom, b₀, h₀, b₁, h₁, rfl, rfl⟩ := h
  exact .introduction i b₀ b₁ hcurrent hi hroom (admit_ok h₀) (admit_ok h₁) rfl rfl ⟨_, rfl⟩

theorem reservePublic_ok {K : Crates} {id revision now : ℕ} {s s' : EngagementStore}
    {r : EngagementReservation} {c : Candidate} (hfeature : c.kind.feature.isSome = true)
    (hcurrent : s.CommunityReceiptCurrent c) (hmember : c.member = none)
    (h : s.reservePublic id revision now c = .ok (r, s')) : s.Reserves K id now c r s' := by
  unfold EngagementStore.reservePublic at h
  simp only [bind_eq_ok, orErr_eq_ok, pure_eq_ok, Prod.mk.injEq] at h
  obtain ⟨receipt, hreceipt, rfl, rfl⟩ := h
  exact .publicly receipt hfeature hcurrent hreceipt hmember rfl rfl rfl

/-- A follow-up of a task is for the member it names. -/
theorem taskFollowUpMemberAllowed_ok {s : EngagementStore} {K : Crates} {c : Candidate}
    {member now : ℕ} {b : String × String} (hmember : c.member = some member)
    (h : s.taskFollowUpMemberAllowed K c now = .ok b) :
    ∃ p name tz, s.memberPolicies[member]? = some p ∧ p.timezone = some name ∧
      K.parseTz name = some tz ∧ buckets K tz now = .ok b := by
  unfold EngagementStore.taskFollowUpMemberAllowed at h
  simp only [bind_eq_ok, ensure_eq_ok, exists_unit, orErr_eq_ok, mapError_ok_iff, pure_eq_ok,
    hmember] at h
  obtain ⟨-, m, hm, -, -, _, hallowed, -, rfl⟩ := h
  obtain ⟨hm, -⟩ := Option.filter_eq_some_iff.mp hm
  cases hm
  exact allowedWithReason_ok hallowed

theorem reserveContact_ok {K : Crates} {id revision now member : ℕ} {s s' : EngagementStore}
    {r : EngagementReservation} {c : Candidate} (hkind : c.kind ≠ .introduction)
    (hmember : c.member = some member)
    (hcurrent : c.kind.feature.isSome = true → s.CommunityReceiptCurrent c)
    (h : s.reserveContact K id revision now c member = .ok (r, s')) :
    s.Reserves K id now c r s' := by
  unfold EngagementStore.reserveContact EngagementStore.contactAllowed at h
  simp only [bind_eq_ok, ensure_eq_ok, exists_unit, orErr_eq_ok, pure_eq_ok, Prod.mk.injEq] at h
  obtain ⟨-, -, b, hb, hcapacity, hroom, p, -, destination, hgoes, rfl, rfl⟩ := h
  refine .contact member b p destination hkind hmember hcurrent ⟨?_, hcapacity⟩ hroom hgoes rfl
    hmember rfl
  split at hb
  · exact taskFollowUpMemberAllowed_ok hmember (mapError_ok_iff.mp hb)
  · exact allowedWithReason_ok (mapError_ok_iff.mp hb)

/-- **Reservation**: a pending candidate that is due is reserved in one of three ways. -/
theorem reserve_ok {K : Crates} {id revision now : ℕ} {s s' : EngagementStore}
    {r : EngagementReservation} (h : s.reserve K id revision now = .ok (r, s')) :
    IsInstant now ∧ ∃ c, s.candidates[id]? = some c ∧ c.state = .pending ∧ c.dueAt ≤ now ∧
      s.Reserves K id now c r s' := by
  unfold EngagementStore.reserve at h
  simp only [bind_eq_ok, ensure_eq_ok, exists_unit, orErr_eq_ok, utc_eq_ok] at h
  obtain ⟨hnow, c, hc, ⟨-, hpending, hdue⟩, _, -, -, _, -, -, h⟩ := h
  refine ⟨hnow, c, hc, hpending, hdue, ?_⟩
  split at h
  · exact reserveIntroduction_ok hc h
  · rename_i hkind
    simp only [bind_eq_ok, ensure_eq_ok, exists_unit] at h
    obtain ⟨hcommunity, h⟩ := h
    split at h
    · rename_i hmember
      simp only [bind_eq_ok, ensure_eq_ok, exists_unit] at h
      exact reservePublic_ok h.1 (hcommunity h.1).1 hmember h.2
    · rename_i member hmember
      exact reserveContact_ok hkind hmember (fun hf => (hcommunity hf).1) h

/-! ### Settlement -/

def DeliveryOutcome.state : DeliveryOutcome → CandidateState
  | .sent _ => .sent
  | .rejected => .rejected
  | .cancelled => .cancelled
  | .reviewRequired => .reviewRequired

def DeliveryOutcome.messageId : DeliveryOutcome → Option ℕ
  | .sent messageId => some messageId
  | _ => none

/-- The contact was made, for all that is known. -/
def DeliveryOutcome.mayHaveHappened : DeliveryOutcome → Bool
  | .sent _ | .reviewRequired => true
  | _ => false

/-- `charged` in `settle`: there is a charge or a receipt for the candidate. -/
def EngagementStore.SettleCharged (s : EngagementStore) (id : ℕ) : Prop :=
  (∃ charge ∈ s.charges, charge.candidateId = id) ∨ s.communityReceipts.contains id = true

instance (s : EngagementStore) (id : ℕ) : Decidable (s.SettleCharged id) := by
  unfold EngagementStore.SettleCharged; infer_instance

/-- The outcome settles the candidate: it is reserved, or it was cancelled and the contact was made
nevertheless. -/
def EngagementStore.Settles (s : EngagementStore) (id : ℕ) (c : Candidate)
    (outcome : DeliveryOutcome) : Prop :=
  c.state = .reserved ∨
    (c.state = .cancelled ∧ s.SettleCharged id ∧ outcome.mayHaveHappened = true)

instance (s : EngagementStore) (id : ℕ) (c : Candidate) (outcome : DeliveryOutcome) :
    Decidable (s.Settles id c outcome) := by
  unfold EngagementStore.Settles; infer_instance

/-- The candidate with its outcome. -/
def Candidate.settle (c : Candidate) (outcome : DeliveryOutcome) : Candidate :=
  { c with
    state := outcome.state
    messageId := outcome.messageId
    followUpReason :=
      if c.workRef.isSome = true ∧ outcome.mayHaveHappened = true then none
      else c.followUpReason }

/-- An introduction that will not take place. -/
def Introduction.cancel (i : Introduction) : Introduction :=
  { i with state := .cancelled, approvals := fun _ => none }

/-- The store with the outcome of a candidate. -/
def EngagementStore.withSettled (s : EngagementStore) (id : ℕ) (c : Candidate)
    (outcome : DeliveryOutcome) : EngagementStore :=
  { s with candidates := s.candidates.insert id (c.settle outcome) }

/-- `EngagementStore::settle`. -/
def EngagementStore.settle (id : ℕ) (outcome : DeliveryOutcome) (s : EngagementStore) :
    Except WorkError Unit × EngagementStore :=
  match s.candidates[id]? with
  | none => (.error .missing, s)
  | some c =>
    if ¬ s.Settles id c outcome then (.error .stale, s)
    else if outcome = .sent 0 then (.error .invalid, s)
    else if outcome.mayHaveHappened = true then (.ok (), s.withSettled id c outcome)
    else
      match c.introductionId with
      | none => (.ok (), s.withSettled id c outcome)
      | some introductionId =>
        match s.introductions[introductionId]? with
        | none => (.error .missing, s.withSettled id c outcome)
        | some i => (.ok (),
            { s.withSettled id c outcome with
              introductions := s.introductions.insert introductionId i.cancel })

/-- A settlement is refused, or it writes the outcome of a candidate that it settles; an introduction
that was not made is cancelled with its candidate. -/
theorem settle_cases (s : EngagementStore) (id : ℕ) (outcome : DeliveryOutcome) :
    (∃ e, s.settle id outcome = (.error e, s)) ∨
      ∃ c, s.candidates[id]? = some c ∧ s.Settles id c outcome ∧ outcome ≠ .sent 0 ∧
        (((c.introductionId = none ∨ outcome.mayHaveHappened = true) ∧
            s.settle id outcome = (.ok (), s.withSettled id c outcome)) ∨
          ∃ k, c.introductionId = some k ∧ outcome.mayHaveHappened = false ∧
            ((s.introductions[k]? = none ∧
                s.settle id outcome = (.error .missing, s.withSettled id c outcome)) ∨
              ∃ i, s.introductions[k]? = some i ∧ s.settle id outcome = (.ok (),
                { s.withSettled id c outcome with
                  introductions := s.introductions.insert k i.cancel }))) := by
  unfold EngagementStore.settle
  cases hc : s.candidates[id]? with
  | none => exact .inl ⟨_, rfl⟩
  | some c =>
    simp only
    by_cases hsettles : s.Settles id c outcome
    · rw [if_neg (not_not.mpr hsettles)]
      by_cases hzero : outcome = .sent 0
      · rw [if_pos hzero]
        exact .inl ⟨_, rfl⟩
      · rw [if_neg hzero]
        refine .inr ⟨c, rfl, hsettles, hzero, ?_⟩
        by_cases hmade : outcome.mayHaveHappened = true
        · rw [if_pos hmade]
          exact .inl ⟨.inr hmade, rfl⟩
        · rw [if_neg hmade]
          cases hk : c.introductionId with
          | none => exact .inl ⟨.inl rfl, rfl⟩
          | some k =>
            refine .inr ⟨k, rfl, by simpa using hmade, ?_⟩
            cases hi : s.introductions[k]? with
            | none => exact .inl ⟨rfl, by simp only [hi]⟩
            | some i => exact .inr ⟨i, rfl, by simp only [hi]⟩
    · rw [if_pos hsettles]
      exact .inl ⟨_, rfl⟩

/-! ### Cancellation and recovery -/

/-- `cancel_matching`. -/
def EngagementStore.cancelMatching (p : Candidate → Bool) (s : EngagementStore) :
    ℕ × EngagementStore :=
  (countRows s.candidates fun c => p c && c.state.isOpen,
    { s with
      candidates := s.candidates.map fun _ c =>
        if p c && c.state.isOpen then { c with state := .cancelled } else c })

/-- `EngagementStore::cancel_source`. -/
def EngagementStore.cancelSource (scope : EngagementScope) (message : ℕ) (s : EngagementStore) :
    ℕ × EngagementStore :=
  s.cancelMatching fun c => c.scope = scope ∧ ∃ source ∈ c.source, source.message = message

/-- `EngagementStore::cancel_member_origin`. -/
def EngagementStore.cancelMemberOrigin (member : ℕ) (scope : EngagementScope) (after : ℕ)
    (s : EngagementStore) : ℕ × EngagementStore :=
  s.cancelMatching fun c =>
    c.member = some member ∧ c.scope = scope ∧ ∃ source ∈ c.source, source.at_ < after

/-- `EngagementStore::cancel_public_origin`. -/
def EngagementStore.cancelPublicOrigin (scope : EngagementScope) (after : ℕ)
    (s : EngagementStore) : ℕ × EngagementStore :=
  s.cancelMatching fun c => c.scope = scope ∧
    (c.kind = .conversationStarter ∨ c.kind = .unansweredQuestion) ∧
    ∃ source ∈ c.source, source.at_ < after

/-- A reserved candidate whose outcome is lost. -/
def Candidate.recover (c : Candidate) : Candidate :=
  { c with
    state := .reviewRequired
    followUpReason := if c.workRef.isSome = true then none else c.followUpReason }

/-- `EngagementStore::recover_reserved`. -/
def EngagementStore.recoverReserved (s : EngagementStore) : ℕ × EngagementStore :=
  (countRows s.candidates fun c => c.state == .reserved,
    { s with
      candidates := s.candidates.map fun _ c => if c.state = .reserved then c.recover else c })

end AbbeyBot.Engagement
