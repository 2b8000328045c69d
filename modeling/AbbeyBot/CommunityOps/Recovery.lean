import Mathlib
import AbbeyBot.CommunityOps.Approval

/-! # Every call keeps the approval protocol

Each operation on the two files, with any outcome of its writes, leaves the disk after a sequence of
`Move`s: the rules of `Triple` follow the program and name the state after every write. The claims
about runs are then those about `Sound`. -/

namespace AbbeyBot.CommunityOps

open AbbeyBot.Library.Durable AbbeyBot.Library.History AbbeyBot.Library.OrderedMap
open AbbeyBot.Library.Result AbbeyBot.Library.Word

variable {H : Hashes} {V : Type} {d₀ d : Disk}

/-! ### Saving the store -/

theorem triple_saveStore {io : Io} {store : ProposalStore} {E : Disk → Prop} (hE : E d)
    (hnew : ∀ next, next.proposals = store.proposals → next.validate H = .ok () →
      E { d with store := next }) :
    Triple (· = d) (saveStore H io store) (fun next d' => d' = { d with store := next } ∧
      next.proposals = store.proposals ∧ next.validate H = .ok ()) E := by
  have hstop : ∀ s, s = d → E s := fun s hs => hs ▸ hE
  refine (triple_attempt (Q := fun _ s => s = d) (fun _ _ s hs => hs) hstop).bind fun revision => ?_
  refine (triple_attempt (Q := fun _ s => s = d ∧
      ({ store with revision := revision } : ProposalStore).validate H = .ok ())
    (fun _ hr s hs => ⟨hs, hr⟩) hstop).bind fun _ => ?_
  refine (triple_publish (fun s hs => hstop s hs.1) fun s hs => ?_).bind fun _ => ?_
  · rw [hs.1]
    exact hnew _ rfl hs.2
  · refine triple_pure fun s hs => ?_
    obtain ⟨s₀, ⟨rfl, hvalid⟩, rfl⟩ := hs
    exact ⟨rfl, rfl, hvalid⟩

/-- A save after which the proposals have advanced. -/
theorem triple_advance {io : Io} {store : ProposalStore} (hd : Moves H d₀ d)
    (hrows : Rewrites (Advances d.policy.policy) d.store.proposals store.proposals) :
    Triple (· = d) (saveStore H io store) (fun next d' => d' = { d with store := next } ∧
      next.proposals = store.proposals ∧ next.validate H = .ok () ∧ Moves H d₀ d')
      (Moves H d₀) := by
  have hmove : ∀ next : ProposalStore, next.proposals = store.proposals →
      next.validate H = .ok () → Moves H d₀ { d with store := next } := fun next hp hvalid =>
    hd.tail (.advance hvalid (hp ▸ hrows))
  refine (triple_saveStore hd hmove).weaken (fun _ h => h) (fun next s h => ?_) fun _ h => h
  obtain ⟨rfl, hp, hvalid⟩ := h
  exact ⟨rfl, hp, hvalid, hmove next hp hvalid⟩

theorem loadStore_eq_ok {store : ProposalStore} (h : loadStore H d = .ok store) :
    store = d.store ∧ d.store.validate H = .ok () := by
  simp only [loadStore, bind_eq_ok, exists_unit, pure_eq_ok] at h
  exact ⟨h.2.symm, h.1⟩

theorem loadPolicy_eq_ok {r : Policy × String} (h : loadPolicy d = .ok r) :
    r = (d.policy.policy, d.policy.digest) := by
  simp only [loadPolicy, bind_eq_ok, exists_unit, pure_eq_ok] at h
  exact h.2.symm

theorem revise_eq_ok {p p' : PendingProposal} (h : p.revise = .ok p') :
    p' = { p with revision := p.revision + 1 } := by
  simp only [PendingProposal.revise, bind_eq_ok, orErr_eq_ok, checkedAdd, pure_eq_ok,
    Option.ite_none_right_eq_some, Option.some.injEq] at h
  obtain ⟨n, ⟨-, rfl⟩, rfl⟩ := h
  rfl

/-! ### Assessment -/

theorem moves_inspectPending {policy : Policy} {now : ℕ} {io : Io} :
    Triple (· = d) (inspectPending H policy now io) (fun _ s => Moves H d s) (Moves H d) := by
  have hd : Moves H d d := .refl
  unfold inspectPending
  refine .skip hd fun _ _ => .skip hd fun immutable _ => triple_get fun s hs => ?_
  subst hs
  refine .skip hd fun store hstore => .skip hd fun _ _ => ?_
  obtain ⟨rfl, -⟩ := loadStore_eq_ok hstore
  dsimp only
  split
  · refine (triple_advance hd (Rewrites.map _ fun id p => ?_)).weaken (fun _ h => h)
      (fun _ _ h => h.2.2.2) fun _ h => h
    unfold PendingProposal.giveUp
    split
    · rename_i hlapsed
      have hpending : p.status = .pending := by
        simp only [PendingProposal.lapsed, Bool.and_eq_true, decide_eq_true_eq] at hlapsed
        exact hlapsed.1
      exact ⟨rfl, .inr (.inl ⟨hpending, .inl rfl⟩)⟩
    · exact .refl _ p
  · exact triple_pure fun s hs => hs ▸ hd

theorem moves_beginAssessment {policy : Policy} {scope : AssessmentScope} {policyDigest : String}
    {now : ℕ} {io : Io} :
    Triple (· = d) (beginAssessment H policy scope policyDigest now io) (fun _ s => Moves H d s)
      (Moves H d) := by
  have hd : Moves H d d := .refl
  unfold beginAssessment
  refine .skip hd fun _ _ => .skip hd fun _ _ => triple_get fun s hs => ?_
  subst hs
  refine .skip hd fun store hstore => .skip hd fun _ _ => .skip hd fun _ _ => ?_
  obtain ⟨rfl, -⟩ := loadStore_eq_ok hstore
  refine (triple_advance hd ?_).bind fun next => ?_
  · exact Rewrites.refl (Advances.refl _) _
  · exact (triple_attempt (Q := fun _ s' => Moves H s s') (fun _ _ s' h => h.2.2.2)
      fun s' h => h.2.2.2).bind fun _ => triple_pure fun _ h => h

/-- What the loop of `finish_assessment` makes sure of. -/
theorem checkProposals_ok {reservation : AssessmentReservation} {policy : Policy}
    {store : ProposalStore} {startedAt now : ℕ} {targets : List String}
    {proposals : List PendingProposal}
    (h : checkProposals H reservation policy store startedAt now targets proposals = .ok ()) :
    (∀ p ∈ proposals, p.status = .pending ∧ store.proposals[p.id]? = none ∧
      p.draft.operation.target ∉ targets) ∧
      proposals.Pairwise fun p q => p.draft.operation.target ≠ q.draft.operation.target := by
  induction proposals generalizing targets with
  | nil => exact ⟨fun p hp => (List.not_mem_nil hp).elim, .nil⟩
  | cons p proposals ih =>
    simp only [checkProposals, bind_eq_ok, exists_unit, ensure_eq_ok, not_or, not_not] at h
    obtain ⟨-, ⟨-, -, hpending, -, -, -, -, -, -, hnew, htarget⟩, hrest⟩ := h
    obtain ⟨hall, hpair⟩ := ih hrest
    refine ⟨fun q hq => ?_, ?_⟩
    · rcases List.mem_cons.mp hq with rfl | hq
      · refine ⟨hpending, ?_, htarget⟩
        rw [Std.ExtTreeMap.getElem?_eq_none hnew]
      · obtain ⟨hs, hn, ht⟩ := hall q hq
        exact ⟨hs, hn, fun hmem => ht (List.mem_cons_of_mem _ hmem)⟩
    · refine List.Pairwise.cons (fun q hq heq => ?_) hpair
      exact (hall q hq).2.2 (heq ▸ List.mem_cons_self)

/-- The rows after the proposals of a batch were written: those of the batch, and the others. -/
theorem foldl_insert_id {proposals : List PendingProposal} {rows : BTreeMap String PendingProposal}
    {id : String} :
    (∀ p, (proposals.foldl (fun rows p => rows.insert p.id p) rows)[id]? = some p →
      rows[id]? = some p ∨ (p ∈ proposals ∧ p.id = id)) ∧
    ((∀ p ∈ proposals, p.id ≠ id) →
      (proposals.foldl (fun rows p => rows.insert p.id p) rows)[id]? = rows[id]?) := by
  induction proposals generalizing rows with
  | nil => exact ⟨fun p hp => .inl hp, fun _ => rfl⟩
  | cons q proposals ih =>
    obtain ⟨hmem, hother⟩ := @ih (rows.insert q.id q)
    refine ⟨fun p hp => ?_, fun hne => ?_⟩
    · rcases hmem p hp with hrow | ⟨hp, hid⟩
      · rw [getElem?_insert] at hrow
        split_ifs at hrow with hid
        · rw [Option.some.injEq] at hrow
          exact .inr ⟨hrow ▸ List.mem_cons_self, hrow ▸ hid⟩
        · exact .inl hrow
      · exact .inr ⟨List.mem_cons_of_mem _ hp, hid⟩
    · rw [List.foldl_cons, hother fun p hp => hne p (List.mem_cons_of_mem _ hp), getElem?_insert,
        if_neg (hne q List.mem_cons_self)]

theorem move_propose {next store : ProposalStore} {proposals : List PendingProposal}
    (hrows : next.proposals = proposals.foldl (fun rows p => rows.insert p.id p) d.store.proposals)
    (hvalid : next.validate H = .ok ()) (hstore : store = d.store)
    (hall : ∀ p ∈ proposals, p.status = .pending ∧ store.proposals[p.id]? = none ∧
      p.draft.operation.target ∉ store.activeTargets)
    (hpair : proposals.Pairwise fun p q =>
      p.draft.operation.target ≠ q.draft.operation.target) :
    Move H d { d with store := next } := by
  subst hstore
  refine .propose hvalid (fun id p hp => ?_) fun id p hp hnone => ?_
  · rw [hrows, (@foldl_insert_id proposals d.store.proposals id).2 fun q hq hid => ?_]
    · exact hp
    · have hq := (hall q hq).2.1
      rw [hid, hp] at hq
      cases hq
  · rw [hrows] at hp
    rcases foldl_insert_id.1 p hp with hp | ⟨hmem, rfl⟩
    · rw [hnone] at hp
      cases hp
    · refine ⟨(hall p hmem).1, fun id' p' hp' hactive htarget => ?_⟩
      rw [hrows] at hp'
      rcases foldl_insert_id.1 p' hp' with hp' | ⟨hmem', rfl⟩
      · refine absurd (mem_column.mpr ⟨id', p', hp', ?_⟩) (hall p hmem).2.2
        rw [if_pos hactive, htarget]
      · by_contra hne
        have hsymm : Std.Symm fun p q : PendingProposal =>
            p.draft.operation.target ≠ q.draft.operation.target := ⟨fun _ _ h => Ne.symm h⟩
        exact hpair.forall hmem' hmem (fun h => hne (by rw [h])) htarget

theorem moves_finishAssessment {reservation : AssessmentReservation} {policy : Policy}
    {currentPolicyDigest : String} {proposals : List PendingProposal} {outcome : AssessmentOutcome}
    {now : ℕ} {io : Io} :
    Triple (· = d)
      (finishAssessment H reservation policy currentPolicyDigest proposals outcome now io)
      (fun _ s => Moves H d s) (Moves H d) := by
  have hd : Moves H d d := .refl
  unfold finishAssessment
  refine .skip hd fun _ _ => .skip hd fun _ _ => triple_get fun s hs => ?_
  subst hs
  refine .skip hd fun store hstore => .skip hd fun found _ => .skip hd fun _ _ =>
    .skip hd fun _ _ => .skip hd fun _ hcheck => ?_
  obtain ⟨hall, hpair⟩ := checkProposals_ok hcheck
  obtain ⟨hstore, -⟩ := loadStore_eq_ok hstore
  have hmove : ∀ next : ProposalStore, next.proposals = _ → next.validate H = .ok () →
      Moves H s { s with store := next } := fun next hrows hvalid =>
    hd.tail (move_propose (hstore ▸ hrows) hvalid hstore hall hpair)
  refine (triple_saveStore hd hmove).bind fun next => triple_pure fun s' hs' => ?_
  obtain ⟨rfl, hrows, hvalid⟩ := hs'
  exact hmove next hrows hvalid

/-! ### Decisions -/

theorem pending_of_check {p : PendingProposal} {policy : Policy} {scope : AssessmentScope}
    {hash : String} {now : ℕ} (h : checkPending H p policy scope hash now = .ok ()) :
    p.status = .pending := by
  simp only [checkPending, bind_eq_ok, exists_unit, ensure_eq_ok, not_or, not_not] at h
  exact h.2.1.1

/-- One proposal of the store is replaced. -/
theorem advances_set {policy : Policy} {store : ProposalStore} {id : String}
    {p p' : PendingProposal} (hp : store.proposals[id]? = some p) (h : Advances policy p p') :
    Rewrites (Advances policy) store.proposals (store.set id p').proposals :=
  Rewrites.insert (Advances.refl policy) hp h

theorem moves_reject {request : Rejection} {now commitNow : ℕ} {io : Io} :
    Triple (· = d) (reject H request now commitNow io) (fun _ s => Moves H d s) (Moves H d) := by
  have hd : Moves H d d := .refl
  unfold reject
  refine triple_get fun s hs => ?_
  subst hs
  refine .skip hd fun store hplan => ?_
  simp only [Rejection.plan, bind_eq_ok, exists_unit, ensure_eq_ok, orErr_eq_ok, pure_eq_ok] at hplan
  obtain ⟨_, -, -, actor, -, store', hstore, -, p, hp, hcheck, -, -, -, revised, hrevised, rfl⟩ :=
    hplan
  obtain ⟨rfl, -⟩ := loadStore_eq_ok hstore
  obtain rfl := revise_eq_ok hrevised
  refine (triple_advance hd ?_).bind fun _ => triple_pure fun _ h => h.2.2.2
  exact advances_set hp ⟨rfl, .inr (.inl ⟨pending_of_check hcheck, .inr (.inl rfl)⟩)⟩

/-- The action of a journal, where there is one. -/
def PendingProposal.journaledAction (p : PendingProposal) : Option Action :=
  p.decision.bind fun decision => decision.journal.map ApprovalJournal.action

theorem atStage_eq_ok {decision decision' : OwnerDecision} {stage : ApprovalStage}
    (h : decision.atStage stage = .ok decision') :
    decision'.journal.map ApprovalJournal.action = decision.journal.map ApprovalJournal.action := by
  simp only [OwnerDecision.atStage, bind_eq_ok, orErr_eq_ok, pure_eq_ok] at h
  obtain ⟨journal, hj, rfl⟩ := h
  simp [hj]

theorem markReview_eq_ok {store store' : ProposalStore} {id : String}
    (h : markReview store id = .ok store') :
    ∃ p p', store.proposals[id]? = some p ∧ store' = store.set id p' ∧
      p'.toReviewed = p.toReviewed ∧ p'.status = .reviewRequired ∧
      p'.journaledAction = p.journaledAction := by
  simp only [markReview, bind_eq_ok, orErr_eq_ok, pure_eq_ok] at h
  obtain ⟨p, hp, revised, hrevised, decision, hdecision, decision', hstage, rfl⟩ := h
  obtain rfl := revise_eq_ok hrevised
  refine ⟨p, _, hp, rfl, rfl, rfl, ?_⟩
  have hdecision : p.decision = some decision := hdecision
  simp [PendingProposal.journaledAction, hdecision, atStage_eq_ok hstage]

theorem finalize_eq_ok {store store' : ProposalStore} {id digest : String}
    (h : finalize store id digest = .ok store') :
    ∃ p p', store.proposals[id]? = some p ∧ store' = store.set id p' ∧
      p'.toReviewed = p.toReviewed ∧ p'.status = .approved ∧
      p'.journaledAction = p.journaledAction := by
  simp only [finalize, bind_eq_ok, orErr_eq_ok, pure_eq_ok] at h
  obtain ⟨p, hp, revised, hrevised, decision, hdecision, decision', hstage, rfl⟩ := h
  obtain rfl := revise_eq_ok hrevised
  refine ⟨p, _, hp, rfl, rfl, rfl, ?_⟩
  have hdecision : p.decision = some decision := hdecision
  simp [PendingProposal.journaledAction, hdecision, atStage_eq_ok hstage]

/-! ### Approval -/

/-- What `approve` is about to write: a pending proposal becomes prepared, and the policy gets its
action, which the policy does not have. -/
theorem plan_eq_ok {request : ApprovalRequest} {execution : Ledger V} {now commitNow : ℕ}
    {plan : ApprovalPlan} (h : request.plan H execution now commitNow d = .ok plan) :
    ∃ p prepared, d.store.proposals[request.proposalId]? = some p ∧ p.status = .pending ∧
      prepared.toReviewed = p.toReviewed ∧ prepared.status = .approvalPrepared ∧
      plan.store = d.store.set request.proposalId prepared ∧
      plan.policy = d.policy.policy.push p.action ∧ plan.policy.validate = .ok () := by
  simp only [ApprovalRequest.plan, bind_eq_ok, exists_unit, ensure_eq_ok, orErr_eq_ok,
    pure_eq_ok] at h
  obtain ⟨r, hpolicy, -, store, hstore, -, actor, -, p, hp, hcheck, -, -, -, immutable, -, hvalid, -,
    -, -, -, -, -, -, revised, hrevised, rfl⟩ := h
  obtain rfl := loadPolicy_eq_ok hpolicy
  obtain ⟨rfl, -⟩ := loadStore_eq_ok hstore
  obtain rfl := revise_eq_ok hrevised
  refine ⟨p, _, hp, pending_of_check hcheck, ?_, ?_, rfl, rfl, hvalid⟩ <;> rfl

theorem moves_approve {request : ApprovalRequest} {execution : Ledger V} {clock : ApprovalClock}
    {io : ApprovalIo} :
    Triple (· = d) (approve H request execution clock io) (fun _ s => Moves H d s) (Moves H d) := by
  have hd : Moves H d d := .refl
  unfold approve
  refine triple_get fun s hs => ?_
  subst hs
  refine .skip hd fun plan hplan => ?_
  obtain ⟨p, prepared, hp, hpending, hreviewed, hprepared, hstore, hpolicy, hvalid⟩ :=
    plan_eq_ok hplan
  have hrows : Rewrites (Advances s.policy.policy) s.store.proposals plan.store.proposals := by
    rw [hstore]
    exact advances_set hp ⟨hreviewed, .inr (.inl ⟨hpending, .inr (.inr hprepared)⟩)⟩
  refine (triple_advance hd hrows).bind fun next => ?_
  intro s₁ hs₁
  obtain ⟨rfl, hnext, -, hmoves⟩ := hs₁
  -- The store is saved with the proposal prepared; from here on it is found there.
  have hrow : next.proposals[request.proposalId]? = some prepared := by
    rw [hnext, hstore]
    simp [ProposalStore.set]
  have haction : prepared.action = p.action := action_eq hreviewed
  have hpublished : Moves H s ⟨⟨plan.policy, plan.plannedDigest⟩, next⟩ := by
    refine hmoves.tail ?_
    have hpush : plan.policy = s.policy.policy.push prepared.action := by rw [hpolicy, haction]
    rw [hpush] at hvalid ⊢
    exact .publish hrow hprepared hvalid
  have hpublication : Triple (· = { s with store := next })
      (request.publishPolicy plan next clock.publishNow io.policy)
      (fun _ s' => s' = ⟨⟨plan.policy, plan.plannedDigest⟩, next⟩)
      (fun s' => s'.store = next ∧ Moves H s s') := by
    unfold ApprovalRequest.publishPolicy
    refine triple_get fun s' hs' => ?_
    subst hs'
    refine .skip ⟨rfl, hmoves⟩ fun _ _ => ?_
    refine (triple_publish (fun s' hs' => hs' ▸ ⟨rfl, hmoves⟩)
      fun s' hs' => hs' ▸ ⟨rfl, hpublished⟩).bind fun _ => ?_
    refine triple_get fun s' hs' => ?_
    obtain ⟨s₀, rfl, rfl⟩ := hs'
    exact .skip ⟨rfl, hpublished⟩ fun _ _ => triple_attempt (fun _ _ s' hs' => hs')
      fun s' hs' => hs' ▸ ⟨rfl, hpublished⟩
  refine Triple.bind ((hpublication.weaken (fun _ h => h) (fun _ _ h => h)
    fun _ h => h).recover.weaken (fun _ h => h) (fun _ _ h => h) fun _ h => h.2) ?_ _ rfl
  rintro (message | _)
  · intro s₂ hs₂
    obtain ⟨hstore₂, hmoves₂⟩ := hs₂
    refine Triple.skip hmoves₂ (fun reviewed hreview => ?_) s₂ rfl
    obtain ⟨q, q', hq, rfl, hq', hstatus, -⟩ := markReview_eq_ok hreview
    rw [hrow, Option.some.injEq] at hq
    subst hq
    refine (triple_advance hmoves₂ ?_).bind fun _ => triple_throw fun _ h => h.2.2.2
    rw [hstore₂]
    exact advances_set hrow ⟨hq', .inr (.inr ⟨by rw [hprepared]; rfl, .inl hstatus⟩)⟩
  · intro s₂ hs₂
    subst hs₂
    refine Triple.skip hpublished (fun approved happroved => ?_) _ rfl
    obtain ⟨q, q', hq, rfl, hq', hstatus, -⟩ := finalize_eq_ok happroved
    rw [hrow, Option.some.injEq] at hq
    subst hq
    refine (triple_advance hpublished ?_).bind fun _ => triple_pure fun _ h => h.2.2.2
    refine advances_set hrow ⟨hq', .inr (.inr ⟨by rw [hprepared]; rfl, .inr ⟨hstatus, ?_⟩⟩)⟩
    rw [hpolicy, haction]
    exact List.mem_append_right _ (List.mem_singleton.mpr rfl)

/-! ### Reconciliation -/

/-- How a proposal may change in a reconciliation. -/
def Resumes (policy : Policy) (p p' : PendingProposal) : Prop :=
  p'.toReviewed = p.toReviewed ∧ p'.journaledAction = p.journaledAction ∧
    (p'.status = p.status ∨ (p.status.isJournaled = true ∧
      (p'.status = .reviewRequired ∨
        (p'.status = .approved ∧ ∃ a ∈ p.journaledAction, a ∈ policy.actions))))

theorem Resumes.refl (policy : Policy) (p : PendingProposal) : Resumes policy p p :=
  ⟨rfl, rfl, .inl rfl⟩

/-- What one step of the loop does to the proposal it is about. -/
theorem reconcileOne_eq_ok {policy : Policy} {policyDigest immutable id : String}
    {acc acc' : ProposalStore × Bool}
    (h : reconcileOne policy policyDigest immutable acc id = .ok acc') :
    ∃ p p', acc.1.proposals[id]? = some p ∧ acc'.1 = acc.1.set id p' ∧
      p'.toReviewed = p.toReviewed ∧ p'.journaledAction = p.journaledAction ∧
      ((p'.status = .approved ∧ acc'.2 = acc.2 ∧ ∃ a ∈ p.journaledAction, a ∈ policy.actions) ∨
        (p'.status = .reviewRequired ∧ acc'.2 = true)) := by
  simp only [reconcileOne, bind_eq_ok, orErr_eq_ok] at h
  obtain ⟨p, hp, decision, hdecision, journal, hjournal, h⟩ := h
  have haction : p.journaledAction = some journal.action := by
    simp [PendingProposal.journaledAction, hdecision, hjournal]
  split at h
  · rename_i hpublished
    simp only [bind_eq_ok, pure_eq_ok] at h
    obtain ⟨store, hfinal, rfl⟩ := h
    obtain ⟨q, q', hq, rfl, hreviewed, hstatus, hjournaled⟩ := finalize_eq_ok hfinal
    rw [hp, Option.some.injEq] at hq
    subst hq
    exact ⟨p, q', hp, rfl, hreviewed, hjournaled,
      .inl ⟨hstatus, rfl, journal.action, haction, hpublished.2.2.2.2⟩⟩
  · simp only [bind_eq_ok, pure_eq_ok] at h
    obtain ⟨store, hreview, rfl⟩ := h
    obtain ⟨q, q', hq, rfl, hreviewed, hstatus, hjournaled⟩ := markReview_eq_ok hreview
    rw [hp, Option.some.injEq] at hq
    subst hq
    exact ⟨p, q', hp, rfl, hreviewed, hjournaled, .inr ⟨hstatus, rfl⟩⟩

/-- The loop over proposals that are journaled in `store`: it resumes them and touches no other. A
loop that leaves nothing unresolved approves all of them. -/
theorem foldlM_reconcileOne {policy : Policy} {policyDigest immutable : String}
    {store : ProposalStore} {ids : List String} {acc acc' : ProposalStore × Bool}
    (h : ids.foldlM (reconcileOne policy policyDigest immutable) acc = .ok acc')
    (hids : ∀ id ∈ ids, ∃ p, store.proposals[id]? = some p ∧ p.status.isJournaled = true)
    (hacc : Rewrites (Resumes policy) store.proposals acc.1.proposals) :
    Rewrites (Resumes policy) store.proposals acc'.1.proposals ∧
      (acc'.2 = false → acc.2 = false ∧
        (∀ id ∈ ids, ∃ p, acc'.1.proposals[id]? = some p ∧ p.status = .approved) ∧
        ∀ (id : String) (p : PendingProposal), acc'.1.proposals[id]? = some p →
          p.status = .approved ∨ acc.1.proposals[id]? = some p) := by
  induction ids generalizing acc with
  | nil =>
    simp only [List.foldlM_nil, pure_eq_ok] at h
    subst h
    exact ⟨hacc, fun hflag => ⟨hflag, fun id hid => (List.not_mem_nil hid).elim,
      fun id p hp => .inr hp⟩⟩
  | cons id ids ih =>
    simp only [List.foldlM_cons, bind_eq_ok] at h
    obtain ⟨mid, hmid, hrest⟩ := h
    obtain ⟨p, p', hp, hset, hreviewed, hjournaled, hcase⟩ := reconcileOne_eq_ok hmid
    obtain ⟨p₀, hp₀, hs₀⟩ := hids id List.mem_cons_self
    obtain ⟨q, hq, hresumes⟩ := hacc.forward hp₀
    rw [hp, Option.some.injEq] at hq
    subst hq
    have hrow : Resumes policy p₀ p' := by
      refine ⟨hreviewed.trans hresumes.1, hjournaled.trans hresumes.2.1, .inr ⟨hs₀, ?_⟩⟩
      rcases hcase with ⟨hstatus, -, hmem⟩ | ⟨hstatus, -⟩
      · exact .inr ⟨hstatus, hresumes.2.1 ▸ hmem⟩
      · exact .inl hstatus
    have hacc' : Rewrites (Resumes policy) store.proposals mid.1.proposals := by
      intro k
      rw [hset]
      show Option.Rel _ _ (acc.1.proposals.insert id p')[k]?
      rw [getElem?_insert]
      by_cases hk : id = k
      · rw [if_pos hk, ← hk, hp₀]
        exact .some hrow
      · rw [if_neg hk]
        exact hacc k
    obtain ⟨hrows, hall⟩ := ih hrest (fun i hi => hids i (List.mem_cons_of_mem _ hi)) hacc'
    refine ⟨hrows, fun hflag => ?_⟩
    obtain ⟨hmidflag, happroved, hothers⟩ := hall hflag
    rcases hcase with ⟨hstatus, hsame, -⟩ | ⟨-, htrue⟩
    · have hmidrow : mid.1.proposals[id]? = some p' := by
        rw [hset]
        simp [ProposalStore.set]
      refine ⟨hsame ▸ hmidflag, fun i hi => ?_, fun i r hr => ?_⟩
      · rcases List.mem_cons.mp hi with rfl | hi
        · obtain ⟨r, hr, -⟩ := hrows.forward hp₀
          rcases hothers i r hr with hs | hr'
          · exact ⟨r, hr, hs⟩
          · rw [hmidrow, Option.some.injEq] at hr'
            exact ⟨r, hr, hr' ▸ hstatus⟩
        · exact happroved i hi
      · rcases hothers i r hr with hs | hr'
        · exact .inl hs
        · by_cases hk : id = i
          · subst hk
            rw [hmidrow, Option.some.injEq] at hr'
            exact .inl (hr' ▸ hstatus)
          · rw [hset] at hr'
            have hr' : (acc.1.proposals.insert id p')[i]? = some r := hr'
            rw [getElem?_insert, if_neg hk] at hr'
            exact .inr hr'
    · rw [htrue] at hmidflag
      cases hmidflag

theorem mem_journaled {store : ProposalStore} (hvalid : store.validate H = .ok ()) {id : String} :
    id ∈ store.journaled ↔ ∃ p, store.proposals[id]? = some p ∧ p.status.isJournaled = true := by
  unfold ProposalStore.journaled
  rw [mem_column]
  constructor
  · rintro ⟨key, p, hp, hid⟩
    split at hid
    · rename_i hs
      rw [Option.some.injEq] at hid
      rw [← (proposal_of_validate hvalid hp).1, hid] at hp
      exact ⟨p, hp, hs⟩
    · cases hid
  · rintro ⟨p, hp, hs⟩
    exact ⟨id, p, hp, by rw [if_pos hs, (proposal_of_validate hvalid hp).1]⟩

/-- A journal in a valid store is of the proposal's own action. -/
theorem Resumes.advances {policy : Policy} {p p' : PendingProposal} (h : Resumes policy p p')
    (hvalid : p.validate H = .ok ()) : Advances policy p p' := by
  obtain ⟨hreviewed, -, hs | ⟨hs, hs' | ⟨hs', a, ha, hmem⟩⟩⟩ := h
  · exact ⟨hreviewed, .inl hs⟩
  · exact ⟨hreviewed, .inr (.inr ⟨hs, .inl hs'⟩)⟩
  · obtain ⟨decision, journal, hd, hj, -, haction⟩ := journal_of_validate hvalid (.inr hs)
    have ha : some journal.action = some a := by
      rw [← Option.mem_def.mp ha, PendingProposal.journaledAction, hd]
      simp [hj]
    rw [Option.some.injEq, haction] at ha
    exact ⟨hreviewed, .inr (.inr ⟨hs, .inr ⟨hs', ha ▸ hmem⟩⟩)⟩

theorem advances_of_resumes {policy : Policy} {store store' : ProposalStore}
    (hvalid : store.validate H = .ok ())
    (h : Rewrites (Resumes policy) store.proposals store'.proposals) :
    Rewrites (Advances policy) store.proposals store'.proposals := by
  intro id
  have hid := h id
  cases hp : store.proposals[id]? with
  | none =>
    rw [hp] at hid
    cases hp' : store'.proposals[id]? with
    | none => exact .none
    | some p' =>
      rw [hp'] at hid
      cases hid
  | some p =>
    obtain ⟨p', hp', hresumes⟩ := h.forward hp
    rw [hp']
    exact .some (hresumes.advances (proposal_of_validate hvalid hp).2)

/-- A reconciliation writes no policy; one that returns leaves no approval unfinished. -/
theorem moves_reconcile {scope : AssessmentScope} {io : Io} :
    Triple (· = d) (reconcile H scope io)
      (fun _ s => Moves H d s ∧ s.policy = d.policy ∧
        ∀ (id : String) (p : PendingProposal), s.store.proposals[id]? = some p →
          p.status.isJournaled = false)
      (fun s => Moves H d s ∧ s.policy = d.policy) := by
  have hd : Moves H d d ∧ d.policy = d.policy := ⟨.refl, rfl⟩
  unfold reconcile
  refine triple_get fun s hs => ?_
  subst hs
  refine .skip hd fun store hstore => .skip hd fun r hpolicy => ?_
  obtain ⟨rfl, hvalid⟩ := loadStore_eq_ok hstore
  obtain rfl := loadPolicy_eq_ok hpolicy
  refine .skip hd fun immutable _ => .skip hd fun acc hloop => ?_
  obtain ⟨hrows, hall⟩ := foldlM_reconcileOne hloop (fun id hid => (mem_journaled hvalid).mp hid)
    (Rewrites.refl (Resumes.refl _) _)
  -- What is resolved at the end, for the rows that are in the file then.
  have hdone : ∀ store : ProposalStore, store.proposals = acc.1.proposals → acc.2 = false →
      ∀ (id : String) (p : PendingProposal), store.proposals[id]? = some p →
        p.status.isJournaled = false := by
    intro store hstore hflag id p hp
    rw [hstore] at hp
    obtain ⟨-, happroved, hothers⟩ := hall hflag
    rcases hothers id p hp with hs | hold
    · rw [hs]; rfl
    · by_contra hs
      obtain ⟨q, hq, hqs⟩ := happroved id
        ((mem_journaled hvalid).mpr ⟨p, hold, by simpa using hs⟩)
      rw [hp, Option.some.injEq] at hq
      rw [hq, hqs] at hs
      exact hs rfl
  have hend : Triple (fun s' : Disk => Moves H s s' ∧ s'.policy = s.policy ∧
        (acc.2 = false → ∀ (id : String) (p : PendingProposal), s'.store.proposals[id]? = some p →
          p.status.isJournaled = false))
      (if acc.2 then throw (.failed "approval reconciliation requires owner review")
        else pure () : Program Disk Unit)
      (fun _ s' => Moves H s s' ∧ s'.policy = s.policy ∧
        ∀ (id : String) (p : PendingProposal), s'.store.proposals[id]? = some p →
          p.status.isJournaled = false)
      (fun s' => Moves H s s' ∧ s'.policy = s.policy) := by
    split
    · exact triple_throw fun s' hs' => ⟨hs'.1, hs'.2.1⟩
    · rename_i hflag
      exact triple_pure fun s' hs' => ⟨hs'.1, hs'.2.1, hs'.2.2 (by simpa using hflag)⟩
  dsimp only
  split
  · have hmove : ∀ next : ProposalStore, next.proposals = acc.1.proposals →
        next.validate H = .ok () → Moves H s { s with store := next } := fun next hnext hv =>
      .single (.advance hv (hnext ▸ advances_of_resumes hvalid hrows))
    refine (triple_saveStore hd fun next hnext hv => ⟨hmove next hnext hv, rfl⟩).bind fun next => ?_
    refine hend.weaken (fun s' hs' => ?_) (fun _ _ h => h) fun _ h => h
    obtain ⟨rfl, hnext, hv⟩ := hs'
    exact ⟨hmove next hnext hv, rfl, hdone next hnext⟩
  · rename_i hnone
    rw [not_not] at hnone
    rw [hnone, List.foldlM_nil, pure_eq_ok] at hloop
    refine hend.weaken (fun s' hs' => ?_) (fun _ _ h => h) fun _ h => h
    subst hs' hloop
    exact ⟨hd.1, hd.2, hdone s'.store rfl⟩

/-! ### Runs -/

/-- **Every call, wherever its writes fail or are cut short, is a sequence of moves.** -/
theorem moves_step (d : Disk) (call : Call V) : Moves H d (d.step H call).2 := by
  refine Triple.outcome (R := Moves H d) ?_
  cases call with
  | inspectPending policy now io => exact moves_inspectPending.bind fun _ => triple_pure fun _ h => h
  | beginAssessment policy scope policyDigest now io =>
    exact moves_beginAssessment.bind fun _ => triple_pure fun _ h => h
  | finishAssessment reservation policy currentPolicyDigest proposals outcome now io =>
    exact moves_finishAssessment
  | approve request execution clock io =>
    exact moves_approve.bind fun _ => triple_pure fun _ h => h
  | reconcile scope io =>
    exact moves_reconcile.weaken (fun _ h => h) (fun _ _ h => h.1) fun _ h => h.1
  | reject request now commitNow io => exact moves_reject

theorem reconcile_step (d : Disk) (scope : AssessmentScope) (io : Io) :
    (d.step H (.reconcile scope io : Call V)).2.policy = d.policy ∧
      ((d.step H (.reconcile scope io : Call V)).1 = .ok () →
        ∀ (id : String) (p : PendingProposal),
          (d.step H (.reconcile scope io : Call V)).2.store.proposals[id]? = some p →
            p.status.isJournaled = false) := by
  have hstep : d.step H (.reconcile scope io : Call V) = outcome (reconcile H scope io) d := rfl
  rw [hstep]
  rcases (moves_reconcile (H := H)).outcome_cases with ⟨u, -, -, hpolicy, hdone⟩ | ⟨e, herr, -, hpolicy⟩
  · exact ⟨hpolicy, fun _ => hdone⟩
  · refine ⟨hpolicy, fun hok => ?_⟩
    rw [herr] at hok
    cases hok

theorem run_sound {h : DiskHistory V} {policy₀ : Policy} (hinit : Sound H policy₀ d₀)
    (hrun : Run (Disk.step H) d₀ h d) : Sound H policy₀ d :=
  hrun.invariant hinit fun s call hs => hs.moves (moves_step s call)

theorem run_decided {h : DiskHistory V} (hrun : Run (Disk.step H) d₀ h d) :
    ∀ e ∈ h, ∀ (id : String) (p : PendingProposal), e.after.store.proposals[id]? = some p →
      p.status ≠ .pending →
        ∃ p', d.store.proposals[id]? = some p' ∧ p'.status ≠ .pending := by
  induction hrun with
  | nil => exact fun e he => (List.not_mem_nil he).elim
  | @cons h s call _ ih =>
    intro e he id p hp hs
    rcases List.mem_cons.mp he with rfl | he
    · exact ⟨p, hp, hs⟩
    · obtain ⟨p', hp', hs'⟩ := ih e he id p hp hs
      exact moves_decided (moves_step s call) hp' hs'

/-- **The approval protocol along every run**, from a valid policy and a store without proposals,
with any call failing or crashing at any of its writes. In the state reached: an approved proposal
has its own action in the policy, once and under its key alone, and a decision on the very content
that was reviewed; what the store lets execute under a proposal's key stands in the policy; no key
stands in the policy twice; a proposal that had left `Pending` is still out of it; the action of a
rejected or stale proposal is not in the policy; no two active proposals have one target; and a
reconciliation never writes the policy and, when it returns, leaves no approval unfinished. -/
theorem approval_along_run {h : DiskHistory V} (hrun : Run (Disk.step H) d₀ h d)
    (hpolicy : d₀.policy.policy.validate = .ok ()) (hstore : d₀.store.validate H = .ok ())
    (hempty : d₀.store.proposals = ∅)
    (hkeys : ∀ (id : String) (p : PendingProposal), d.store.proposals[id]? = some p →
      ∀ a ∈ d₀.policy.policy.actions, a.key ≠ p.action.key) :
    (∀ (id : String) (p : PendingProposal), d.store.proposals[id]? = some p →
      p.status = .approved → p.action ∈ d.policy.policy.actions ∧
        (d.policy.policy.actions.map Action.key).count p.action.key = 1 ∧
        ∃ decision, p.decision = some decision ∧ decision.reviewedHash = H.reviewed p.toReviewed) ∧
    (∀ action, "proposal-".toList.isPrefixOf action.key.toList = true →
      d.store.executable H action = true → action ∈ d.policy.policy.actions) ∧
    (d.policy.policy.actions.map Action.key).Nodup ∧
    (∀ e ∈ h, ∀ (id : String) (p : PendingProposal), e.after.store.proposals[id]? = some p →
      p.status ≠ .pending → ∃ p', d.store.proposals[id]? = some p' ∧ p'.status ≠ .pending) ∧
    (∀ (id : String) (p : PendingProposal), d.store.proposals[id]? = some p →
      p.status = .rejected ∨ p.status = .stale →
        ∀ a ∈ d.policy.policy.actions, a.key ≠ p.action.key) ∧
    (∀ (id id' : String) (p p' : PendingProposal), d.store.proposals[id]? = some p →
      d.store.proposals[id']? = some p' → p.status.isActive = true → p'.status.isActive = true →
        p.draft.operation.target = p'.draft.operation.target → id = id') ∧
    ∀ e ∈ h, ∀ scope io, e.op = .reconcile scope io → e.after.policy = e.before.policy ∧
      (e.out = .ok () → ∀ (id : String) (p : PendingProposal),
        e.after.store.proposals[id]? = some p → p.status.isJournaled = false) := by
  have hinit : Sound H d₀.policy.policy d₀ := by
    have hnone : ∀ (id : String) (p : PendingProposal), d₀.store.proposals[id]? ≠ some p := by
      intro id p hp
      rw [hempty] at hp
      simp at hp
    exact ⟨hpolicy, hstore, fun a ha => .inl ha, fun id p hp => absurd hp (hnone id p),
      fun id id' p p' hp => absurd hp (hnone id p)⟩
  have hsound := run_sound hinit hrun
  have hnodup := nodup_keys hsound.policy
  refine ⟨fun id p hp hs => ?_, fun action hpre hexec => ?_, hnodup, run_decided hrun,
    fun id p hp hs => hsound.refused hp hs (hkeys id p hp), hsound.alone, ?_⟩
  · have hmem := hsound.approved id p hp hs
    have hvalid := (proposal_of_validate hsound.store hp).2
    obtain ⟨decision, journal, hdecision, -, hhash, -⟩ := journal_of_validate hvalid (.inl hs)
    refine ⟨hmem, List.count_eq_one_of_mem hnodup (List.mem_map_of_mem hmem), decision, hdecision, ?_⟩
    simp only [PendingProposal.validate, bind_eq_ok, exists_unit, ensure_eq_ok, not_or,
      not_not] at hvalid
    exact hhash.trans hvalid.1.2.1
  · rw [ProposalStore.executable, if_pos hpre, List.any_eq_true] at hexec
    obtain ⟨p, hp, hp'⟩ := hexec
    obtain ⟨id, hrow⟩ := mem_values.mp hp
    simp only [Bool.and_eq_true, decide_eq_true_eq] at hp'
    rw [← hp'.1.2]
    exact hsound.approved id p hrow hp'.1.1
  · intro e he scope io hop
    have heq := hrun.event_eq he
    have hstep := reconcile_step (H := H) (V := V) e.before scope io
    rw [← hop] at hstep
    rw [heq]
    exact hstep

/-! ### A crash after the policy is published -/

def sampleScope : AssessmentScope := ⟨true, {.topic}, {8}, none⟩

def proposalPolicy : Policy :=
  ⟨1, 1, 2, .apply, 5, 2, {3}, ∅, ∅, ∅, sampleScope, ⟨false, ∅, none⟩, []⟩

def proposalId : String := "16861f46aa81a385abbbd6cd7e0118a571c14bcf123e89931ea72553f501f322"

def sampleSource : ProposalSource where
  assessmentId := "2b2e89d329481d502c6e25ba54cc95a391f9b966245dcf7cb0db504cd6927f9c"
  capturedAt := 100
  inventoryDigest := "931099f69e6b65114804f79f026cb091a11111436c7d7413fa173f8cb8067c64"
  scopeDigest := "4f330d51e4439649cf9d3362ebe374026c55118a0d7b8e3d7a4ba49e87a7e568"
  policyDigest := "678d26c2635f2a5bc40434cc830b046452658cdb5910ebda0cc2442c6c0148cb"
  sourceChannelIds := {8}
  sourceCategoryIds := {3}
  sourceRoleIds := ∅

def sampleAccess : ExpectedAccess where
  targetBeforeDigest := some "8ca5d81566f88badd698137ac629cbf93ccc107c0cd967b7964f7d82088f6ebf"
  categoryBeforeDigest := none
  permissionsBeforeDigest :=
    some "1fb680aa1ed965bc09f024abd808fad41e7fa0bb2e1ec39e8f237d653d56b456"
  viewInvariant := true
  postingChange := .preserve
  rolePermissions := none

def sampleReviewed : Reviewed :=
  ⟨proposalId, 1, 2, 110, 604910, ⟨.topic 8 "Say hello", "clearer"⟩, sampleSource, sampleAccess⟩

def reviewedHash : String := "68b66ac555465838769df96b7ce8610192925bdc3902e67ac24c34cdff959c6d"

/-- The digests of the sample. -/
def sampleHashes : Hashes where
  policy policy := if policy.actions = [] then sampleSource.policyDigest else
    "83a38ecdfa37f96c2706f7c8b513da378136488542c10e8900edc78eecd657ff"
  scope _ _ := sampleSource.scopeDigest
  reviewed r := if r = sampleReviewed then reviewedHash else r.id
  assessment _ _ _ := sampleSource.assessmentId

def sampleProposal : PendingProposal := ⟨sampleReviewed, 1, reviewedHash, .pending, none⟩

def sampleRequest : ApprovalRequest where
  scope := sampleScope
  expectedPolicyDigest := sampleSource.policyDigest
  expectedStoreRevision := 2
  proposalId := proposalId
  reviewedHash := reviewedHash
  owner := ⟨1, 2, 2, 5, 120, by decide⟩
  operation := ⟨reviewedHash, sampleAccess, 120⟩

def sampleDisk : Disk := ⟨⟨proposalPolicy, sampleSource.policyDigest⟩, .default⟩

/-- An assessment brings one proposal, its approval crashes right after the policy was written, and
the next start reconciles. -/
def sampleCalls : List (Call Unit) :=
  [.beginAssessment proposalPolicy sampleScope sampleSource.policyDigest 100 .done,
    .finishAssessment ⟨sampleSource.assessmentId, 1, 2, sampleSource.scopeDigest,
        sampleSource.policyDigest⟩ proposalPolicy sampleSource.policyDigest [sampleProposal]
      .pendingPublished 115 .done,
    .approve sampleRequest ⟨∅⟩ ⟨121, 122, 123⟩ ⟨.done, .crashed true, .done, .done⟩,
    .reconcile sampleScope .done]

def sampleRun : DiskHistory Unit × Disk := play (Disk.step sampleHashes) sampleDisk sampleCalls

theorem crash_reconciled :
    (sampleRun.2.store.proposals[proposalId]?.map fun p => p.status) = some .approved ∧
      sampleRun.2.policy.policy.actions = [sampleReviewed.action] ∧
      (sampleRun.2.policy.policy.actions.map Action.key).Nodup :=
  ⟨by decide, by decide,
    (approval_along_run (run_play sampleDisk sampleCalls) (by decide) (by decide) rfl
      fun _ _ _ _ ha => (List.not_mem_nil ha).elim).2.2.1⟩

end AbbeyBot.CommunityOps
