import Mathlib
import AbbeyBot.Engagement.FollowUps
import AbbeyBot.Library.InPlace

/-! # All or nothing

The operations in the order of their statements: most replace the store by a checked copy, the
others write their tables one by one. An error leaves every table as it was. -/

namespace AbbeyBot.Engagement

open AbbeyBot.Calendar AbbeyBot.Library.History AbbeyBot.Library.InPlace
open AbbeyBot.Library.OrderedMap AbbeyBot.Library.Result AbbeyBot.Work.Types

variable {K : Crates} {s : EngagementStore}

/-- An operation on the store. -/
abbrev Edit (α : Type) := EStateM WorkError EngagementStore α

/-! ### Reservation -/

/-- The candidate is written back reserved. -/
def markReserved (id policyRevision : ℕ) (destination : DestinationPreference) : Edit Unit := do
  let s ← get
  let c ← check (orErr s.candidates[id]? .missing)
  set { s with candidates := s.candidates.insert id (c.reserve policyRevision destination) }

/-- The receipt of the candidate, if there is one, is written back attempted. -/
def markAttempted (id now : ℕ) : Edit Unit :=
  modify fun s => { s with
    communityReceipts := s.communityReceipts.modify id fun r => { r with attemptedAt := some now } }

/-- `reserve` of a public contact with nobody in particular. -/
def reservePublicEdit (id revision now : ℕ) (c : Candidate) : Edit EngagementReservation := do
  let s ← get
  let receipt ← check (orErr s.communityReceipts[id]? .missing)
  let reservation : EngagementReservation :=
    { introduction := none
      candidateId := id
      revision := revision
      policyRevision := receipt.policyRevision
      scope := c.scope
      member := none
      destination := .origin }
  markAttempted id now
  markReserved id receipt.policyRevision .origin
  return reservation

/-- `reserve` of a contact with one member. -/
def reserveContactEdit (K : Crates) (id revision now : ℕ) (c : Candidate) (member : ℕ) :
    Edit EngagementReservation := do
  let s ← get
  check (ensure (c.kind.isInvitation = true ∧ c.source = none → s.InvitationReceiptCurrent c)
    .denied)
  check (ensure (s.StillEligible c member) .denied)
  let b ← check (s.contactAllowed K c member now)
  check (s.capacity K member now b)
  check (ensure (s.charges.length + s.erasedContactCharges.length < 20000) .full)
  let p ← check (orErr s.memberPolicies[member]? .denied)
  let destination ← check (c.contactDestination p)
  let reservation : EngagementReservation :=
    { introduction := none
      candidateId := id
      revision := revision
      policyRevision := p.revision
      scope := c.scope
      member := c.member
      destination := destination }
  markAttempted id now
  modify fun s => { s with charges := s.charges ++ [chargeOf id member now b] }
  markReserved id p.revision destination
  return reservation

/-- `reserve_introduction`. -/
def reserveIntroductionEdit (K : Crates) (id revision now : ℕ) : Edit EngagementReservation := do
  let s ← get
  let c ← check (orErr s.candidates[id]? .missing)
  check (ensure (s.IntroductionReceiptCurrent K c ∧ c.revision = revision) .denied)
  let i ← check (orErr (s.introductionOf c) .invalid)
  check (ensure (s.charges.length + s.erasedContactCharges.length + 2 ≤ 20000) .full)
  let b₀ ← check <| s.admit K c (i.members 0) now
  let b₁ ← check <| s.admit K c (i.members 1) now
  let reservation : EngagementReservation :=
    { introduction :=
        some ⟨{ i with state := .consumed }, fun k => s.memberRevision (i.members k)⟩
      candidateId := id
      revision := revision
      policyRevision := c.policyRevision
      scope := c.scope
      member := none
      destination := .origin }
  modify fun s => { s with
    charges := s.charges ++ [chargeOf id (i.members 0) now b₀, chargeOf id (i.members 1) now b₁] }
  modify fun s => { s with
    introductions := s.introductions.insert i.id { i with state := .consumed } }
  let c ← check (orErr s.candidates[id]? .missing)
  modify fun s => { s with candidates := s.candidates.insert id { c with state := .reserved } }
  return reservation

/-- `EngagementStore::reserve`. -/
def reserveEdit (K : Crates) (id revision now : ℕ) : Edit EngagementReservation := do
  let s ← get
  check (utc now)
  let c ← check (orErr s.candidates[id]? .missing)
  check (ensure (c.revision = revision ∧ c.state = .pending ∧ c.dueAt ≤ now) .stale)
  let inWeeklyWindow ← check (c.weeklyWindow now)
  check (ensure (inWeeklyWindow = true) .stale)
  let inTaskWindow ← check (c.taskFollowUpWindow now)
  check (ensure (inTaskWindow = true) .stale)
  if c.kind = .introduction then
    reserveIntroductionEdit K id revision now
  else
    check (ensure (c.kind.feature.isSome = true →
      s.CommunityReceiptCurrent c ∧ s.CommunityCapacity K c now) .denied)
    match c.member with
    | none =>
      check (ensure (c.kind.feature.isSome = true) .denied)
      reservePublicEdit id revision now c
    | some member => reserveContactEdit K id revision now c member

/-- The candidate is found again, whatever the other tables hold. -/
theorem outcome_markReserved_bind {α : Type} {id policyRevision : ℕ}
    {destination : DestinationPreference} {c : Candidate} {f : Unit → Edit α}
    (hc : s.candidates[id]? = some c) :
    outcome (markReserved id policyRevision destination >>= f) s =
      outcome (f ()) { s with
        candidates := s.candidates.insert id (c.reserve policyRevision destination) } := by
  unfold markReserved
  simp only [bind_assoc, outcome_get_bind]
  rw [outcome_found_bind hc, outcome_set_bind]

theorem reservePublicEdit_performs {id revision now : ℕ} {c : Candidate}
    (hc : s.candidates[id]? = some c) :
    Performs (reservePublicEdit id revision now c) s (s.reservePublic id revision now c) := by
  unfold reservePublicEdit EngagementStore.reservePublic
  refine .get_bind (.check_bind fun receipt _ => .writes ?_)
  unfold markAttempted
  rw [outcome_modify_bind, outcome_markReserved_bind (c := c)]
  · simp only [outcome_pure, EngagementStore.withReserved, List.append_nil]
  · exact hc

theorem reserveContactEdit_performs {id revision now member : ℕ} {c : Candidate}
    (hc : s.candidates[id]? = some c) :
    Performs (reserveContactEdit K id revision now c member) s
      (s.reserveContact K id revision now c member) := by
  unfold reserveContactEdit EngagementStore.reserveContact
  refine .get_bind (.check_bind fun _ _ => .check_bind fun _ _ => .check_bind fun b _ =>
    .check_bind fun _ _ => .check_bind fun _ _ => .check_bind fun p _ =>
    .check_bind fun destination _ => .writes ?_)
  unfold markAttempted
  rw [outcome_modify_bind, outcome_modify_bind, outcome_markReserved_bind (c := c)]
  · rfl
  · exact hc

theorem reserveIntroductionEdit_performs {id revision now : ℕ} :
    Performs (reserveIntroductionEdit K id revision now) s
      (s.reserveIntroduction K id revision now) := by
  unfold reserveIntroductionEdit EngagementStore.reserveIntroduction
  refine .get_bind (.check_bind fun c hc => .check_bind fun _ _ => .check_bind fun i _ =>
    .check_bind fun _ _ => .check_bind fun b₀ _ => .check_bind fun b₁ _ => .writes ?_)
  rw [outcome_modify_bind, outcome_modify_bind, hc]
  rfl

/-- Reservation checks before it writes. -/
theorem reserveEdit_performs {id revision now : ℕ} :
    Performs (reserveEdit K id revision now) s (s.reserve K id revision now) := by
  unfold reserveEdit EngagementStore.reserve
  refine .get_bind (.check_bind fun _ _ => .check_bind fun c hc => .check_bind fun _ _ =>
    .check_bind fun _ _ => .check_bind fun _ _ => .check_bind fun _ _ => .check_bind fun _ _ =>
    .ite (fun _ => reserveIntroductionEdit_performs) fun _ => .check_bind fun _ _ => ?_)
  have hc := orErr_eq_ok.mp hc
  cases c.member with
  | none => exact .check_bind fun _ _ => reservePublicEdit_performs hc
  | some member => exact reserveContactEdit_performs hc

/-! ### Introductions -/

/-- `EngagementStore::approve_introduction`. -/
def approveIntroductionEdit (K : Crates) (id member revision : ℕ) : Edit Bool := do
  let s ← get
  let i ← check (orErr s.introductions[id]? .missing)
  let index ← check (orErr (i.index member) .denied)
  check (ensure (i.revision = revision ∧ i.state.isOpen = true) .stale)
  check (ensure ((i.approvedSelfDescriptions index).isSome = true ∧
    s.introductionsEnabled i.scope = true ∧
    ∀ k, s.IntroductionMemberEnabled K (i.members k) i.scope) .denied)
  let c ← check (orErr (s.announcement id) .missing)
  let g ← check (orErr i.scope.guild? .invalid)
  check (ensure (c.state = .pending ∧ c.policyRevision = s.guildRevision g) .stale)
  let i ← check (orErr s.introductions[id]? .missing)
  let approvals := Function.update i.approvals index (some revision)
  modify fun s => { s with introductions := s.introductions.insert id { i with
    approvals := approvals } }
  let ready := decide (∀ k, approvals k = some revision)
  if ready then
    modify fun s => { s with introductions := s.introductions.modify id fun i => { i with
      state := .ready } }
  return ready

theorem approveIntroductionEdit_performs {id member revision : ℕ} :
    Performs (approveIntroductionEdit K id member revision) s
      (s.approveIntroduction K id member revision) := by
  unfold approveIntroductionEdit EngagementStore.approveIntroduction
  refine .get_bind (.check_bind fun i hi => .check_bind fun index _ => .check_bind fun _ _ =>
    .check_bind fun _ _ => .check_bind fun c _ => .check_bind fun g _ => .check_bind fun _ _ =>
    .writes ?_)
  rw [hi, outcome_check_ok_bind, outcome_modify_bind]
  by_cases hready : ∀ k, Function.update i.approvals index (some revision) k = some revision
  · simp only [hready, decide_true, if_true, outcome_modify_bind, outcome_pure,
      Introduction.approve, implies_true]
    congr 2
    refine Std.ExtTreeMap.ext_getElem? fun k => ?_
    rw [getElem?_modify, getElem?_insert, getElem?_insert]
    by_cases hk : id = k <;> simp [hk]
  · simp only [Introduction.approve, hready, decide_false, if_false]
    rfl

/-- `EngagementStore::withdraw_introduction`. -/
def withdrawIntroductionEdit (id member revision : ℕ) : Edit Unit := do
  let s ← get
  let i ← check (orErr s.introductions[id]? .missing)
  check (ensure (∃ k, i.members k = member) .denied)
  check (ensure (i.revision = revision ∧ ∃ c ∈ values s.candidates,
    c.introductionId = some id ∧ c.state.isOpen = true) .stale)
  let revision ← check (orErr (AbbeyBot.Library.Word.checkedAdd revision 1) .full)
  let i ← check (orErr s.introductions[id]? .missing)
  modify fun s => { s with introductions := s.introductions.insert id (i.withdraw revision) }
  modify fun s => { s with candidates := s.candidates.map fun _ c =>
    if c.introductionId = some id then c.withdraw revision else c }

theorem withdrawIntroductionEdit_performs {id member revision : ℕ} :
    Performs (withdrawIntroductionEdit id member revision) s
      (s.withdrawIntroduction id member revision) := by
  unfold withdrawIntroductionEdit EngagementStore.withdrawIntroduction
  refine .get_bind (.check_bind fun i hi => .check_bind fun _ _ => .check_bind fun _ _ =>
    .check_bind fun revision _ => .writes ?_)
  rw [hi]
  rfl

/-! ### Follow-ups and erasure -/

/-- `cancel_task_follow_up`. -/
def cancelTaskFollowUpEdit (id revision : ℕ) (reason : FollowUpDecision) : Edit Bool := do
  check (ensure (reason ≠ .allowed) .invalid)
  let s ← get
  let c ← check (orErr s.candidates[id]? .missing)
  if c.revision = revision ∧ c.workRef.isSome = true ∧ c.state.isOpen = true then
    modify fun s => { s with candidates := s.candidates.insert id (c.cancelFollowUp reason) }
    return true
  else return false

theorem cancelTaskFollowUpEdit_performs {id revision : ℕ} {reason : FollowUpDecision} :
    Performs (cancelTaskFollowUpEdit id revision reason) s
      (s.cancelTaskFollowUp id revision reason) := by
  unfold cancelTaskFollowUpEdit EngagementStore.cancelTaskFollowUp
  refine .check_bind fun _ _ => .get_bind (.check_bind fun c _ => .ite (fun _ => .writes ?_)
    fun _ => .writes ?_) <;> rfl

/-- `erase_learning`: the limit on identities is checked before a table is written. -/
def eraseLearningEdit (K : Crates) (scope : String) (member : Option ℕ) : Edit ℕ := do
  let s ← get
  check (ensure ((s.identitiesAfter K scope member).card ≤ 10000) .full)
  let next := s.erased K scope member
  set next
  return s.removed next scope member

theorem eraseLearningEdit_performs {scope : String} {member : Option ℕ} :
    Performs (eraseLearningEdit K scope member) s (s.eraseLearning K scope member) := by
  unfold eraseLearningEdit EngagementStore.eraseLearning
  exact .get_bind (.check_bind fun _ _ => .writes rfl)

/-! ### Every operation -/

/-- The output reports an error. -/
def Out.failed : Out → Prop
  | .candidate r => ∃ e, r = .error e
  | .number r => ∃ e, r = .error e
  | .flag r => ∃ e, r = .error e
  | .unit r => ∃ e, r = .error e
  | .reservation r => ∃ e, r = .error e

/-- The outcome of an operation, with its output. -/
def reported {α : Type} (out : Except WorkError α → Out) (s : EngagementStore) (x : Edit α) :
    Out × EngagementStore :=
  (out (outcome x s).1, (outcome x s).2)

/-- The operations in the order of their statements. -/
def perform (K : Crates) (s : EngagementStore) : Op → Out × EngagementStore
  | .propose p now => reported .candidate s (replace fun s => s.propose K p now)
  | .proposeCommunity facts now =>
    reported .number s (replace fun s => s.proposeCommunity K facts now)
  | .requestInvitation kind request =>
    reported .candidate s (replace fun s => s.requestInvitation K kind request)
  | .createIntroduction members scope description now =>
    reported .number s (replace fun s => s.createIntroduction K members scope description now)
  | .editIntroduction id member revision description destination =>
    reported .number s
      (replace fun s => s.editIntroduction K id member revision description destination)
  | .approveIntroduction id member revision =>
    reported .flag s (approveIntroductionEdit K id member revision)
  | .withdrawIntroduction id member revision =>
    reported .unit s (withdrawIntroductionEdit id member revision)
  | .proposeLinkedTaskFollowUp intent source member due now =>
    reported .candidate s
      (replace fun s => s.proposeLinkedTaskFollowUp K intent source member due now)
  | .cancelTaskFollowUp id revision reason =>
    reported .flag s (cancelTaskFollowUpEdit id revision reason)
  | .reserve id revision now => reported .reservation s (reserveEdit K id revision now)
  | .eraseLearning scope member => reported .number s (eraseLearningEdit K scope member)
  | .reload => reported .number s (replace fun s => s.reload K)
  | .configure settings => reported .unit s (replace fun s => s.configure K settings)
  | op => step K s op

theorem reported_eq {α : Type} {out : Except WorkError α → Out} {x : Edit α}
    {r : Except WorkError (α × EngagementStore)} (h : Performs x s r) :
    reported out s x = written out s r := by
  unfold reported written
  rw [h]

/-- **Refinement**: the operations as they are written do what the step function says. -/
theorem perform_eq_step (op : Op) : perform K s op = step K s op := by
  cases op with
  | propose p now => exact reported_eq (performs_replace _ s)
  | proposeCommunity facts now => exact reported_eq (performs_replace _ s)
  | requestInvitation kind request => exact reported_eq (performs_replace _ s)
  | createIntroduction members scope description now => exact reported_eq (performs_replace _ s)
  | editIntroduction id member revision description destination =>
    exact reported_eq (performs_replace _ s)
  | proposeLinkedTaskFollowUp intent source member due now =>
    exact reported_eq (performs_replace _ s)
  | reload => exact reported_eq (performs_replace _ s)
  | configure settings => exact reported_eq (performs_replace _ s)
  | approveIntroduction id member revision => exact reported_eq approveIntroductionEdit_performs
  | withdrawIntroduction id member revision => exact reported_eq withdrawIntroductionEdit_performs
  | cancelTaskFollowUp id revision reason => exact reported_eq cancelTaskFollowUpEdit_performs
  | reserve id revision now => exact reported_eq reserveEdit_performs
  | eraseLearning scope member => exact reported_eq eraseLearningEdit_performs
  | _ => rfl

/-- An operation that writes last leaves the store as it was on an error. -/
theorem written_unchanged {α : Type} {out : Except WorkError α → Out}
    {r : Except WorkError (α × EngagementStore)} (hout : ∀ a, ¬ (out (.ok a)).failed)
    (h : (written out s r).1.failed) : (written out s r).2 = s := by
  cases r with
  | error e => rfl
  | ok r => exact absurd h (hout r.1)

theorem not_failed_ok {α : Type} (a : α) : ¬ ∃ e : WorkError, Except.ok a = .error e := by
  rintro ⟨e, h⟩
  cases h

/-- The introduction of a candidate of a valid store is there, so its cancellation cannot fail. -/
theorem settle_unchanged (hv : s.Valid K) {id : ℕ} {outcome : DeliveryOutcome} {e : WorkError}
    (h : (s.settle id outcome).1 = .error e) : (s.settle id outcome).2 = s := by
  obtain ⟨_, heq⟩ | ⟨c, hc, -, -, ⟨-, heq⟩ | ⟨k, hk, -, ⟨hnone, -⟩ | ⟨i, -, heq⟩⟩⟩ :=
    settle_cases s id outcome
  · rw [heq]
  · rw [heq] at h
    cases h
  · obtain ⟨i, hi, -⟩ := (all_iff.mp hv.candidates.introductions id c hc).2 k hk
    rw [hnone] at hi
    cases hi
  · rw [heq] at h
    cases h

theorem mem_missedWeekly {now : ℕ} {cs : List Candidate} {ids : List ℕ}
    (h : missedWeekly now cs = .ok ids) {id : ℕ} (hid : id ∈ ids) : ∃ c ∈ cs, c.id = id := by
  induction cs generalizing ids with
  | nil =>
    cases h
    cases hid
  | cons c cs ih =>
    unfold missedWeekly at h
    split_ifs at h with hopen
    · simp only [bind_eq_ok, pure_eq_ok] at h
      obtain ⟨deadline, -, expired, hexpired, rfl⟩ := h
      split_ifs at hid with hmissed
      · rcases List.mem_cons.mp hid with rfl | hid
        · exact ⟨c, List.mem_cons_self, rfl⟩
        · obtain ⟨c', hc', heq⟩ := ih hexpired hid
          exact ⟨c', List.mem_cons_of_mem _ hc', heq⟩
      · obtain ⟨c', hc', heq⟩ := ih hexpired hid
        exact ⟨c', List.mem_cons_of_mem _ hc', heq⟩
    · obtain ⟨c', hc', heq⟩ := ih h hid
      exact ⟨c', List.mem_cons_of_mem _ hc', heq⟩

theorem expireMissedWeekly_unchanged (hv : s.Valid K) {now : ℕ} {e : WorkError}
    (h : (s.expireMissedWeekly now).1 = .error e) : (s.expireMissedWeekly now).2 = s := by
  unfold EngagementStore.expireMissedWeekly at h ⊢
  cases hids : (do utc now; missedWeekly now (values s.candidates)) with
  | error e => rfl
  | ok expired =>
    rw [hids] at h
    simp only [bind_eq_ok, exists_unit] at hids
    -- a candidate is stored under its own number
    have hall : ∀ id ∈ expired, id ∈ s.candidates := fun id hid => by
      obtain ⟨c, hc, rfl⟩ := mem_missedWeekly hids.2 hid
      obtain ⟨k, hk⟩ := mem_values.mp hc
      have hk' := (all_iff.mp hv.candidates.rows k c hk).id.2.1
      exact mem_iff.mpr ⟨c, by rw [hk', hk]⟩
    simp only [cancelAll_eq hall] at h
    cases h

/-- **All or nothing**: from a valid store, an operation that returns an error has left the store as
it was. -/
theorem unchanged_of_failed (hv : s.Valid K) (op : Op) (h : (perform K s op).1.failed) :
    (perform K s op).2 = s := by
  rw [perform_eq_step] at h ⊢
  cases op with
  | settle id outcome => exact h.elim fun e he => settle_unchanged hv he
  | expireMissedWeekly now => exact h.elim fun e he => expireMissedWeekly_unchanged hv he
  | cancelSource scope message => exact absurd h (not_failed_ok _)
  | cancelMemberOrigin member scope after => exact absurd h (not_failed_ok _)
  | cancelPublicOrigin scope after => exact absurd h (not_failed_ok _)
  | recoverReserved => exact absurd h (not_failed_ok _)
  | pruneErasureSafety now => exact absurd h (not_failed_ok _)
  | _ => exact written_unchanged not_failed_ok h

/-- A follow-up that is not reserved is not settled. -/
theorem followUp_unsettled :
    (perform plainCrates (play (step plainCrates) EngagementStore.empty (followUpOps.take 2)).2
      (.settle 1 .rejected)).2 =
      (play (step plainCrates) EngagementStore.empty (followUpOps.take 2)).2 := by
  have hcheck : (play (step plainCrates) EngagementStore.empty (followUpOps.take 2)).2.validate
      plainCrates = .ok () := by
    decide +kernel
  refine unchanged_of_failed (validate_eq_ok.mp hcheck) _ ⟨.stale, ?_⟩
  decide +kernel

end AbbeyBot.Engagement
