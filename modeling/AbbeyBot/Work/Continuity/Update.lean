import Mathlib
import AbbeyBot.Library.History
import AbbeyBot.Work.Continuity.Store

/-! # Updating a continuity card

A proposal carries the revision of the card it was made against, and a confirmation goes through only
against that revision. Revisions of a scope go up by one with every confirmation and start again at 0
when the card is removed. So a confirmation replaces the very card its proposal was made against as
long as the scope was not emptied in between; across a removal another card may have come to the
same revision. -/

namespace AbbeyBot.Work.Continuity.Update

open AbbeyBot.Library.OrderedMap AbbeyBot.Library.Result AbbeyBot.Library.History
open AbbeyBot.Work.Types AbbeyBot.Work.Continuity.Store

/-! ### Registry, grants and store -/

/-- The registry, the grants that were resolved and not used yet, and the cards. -/
structure System where
  registry : ProposalRegistry
  grants : BTreeMap ProposalId ContinuityProposal
  store : ContinuityStore

def System.new (bootNonce : List ℕ) : System := ⟨.new bootNonce, ∅, .empty⟩

inductive Op where
  | propose (scope : WorkScope) (presentedText : String) (sourceRefs : BTreeSet WorkContentRef)
      (access : WorkAccess) (work : WorkStore) (now : ℕ)
  | resolve (id : ProposalId) (actor : ℕ) (scope : WorkScope) (now : ℕ)
  | confirm (id : ProposalId) (access : WorkAccess) (work : WorkStore) (now : ℕ)
  | clear (scope : WorkScope) (access : WorkAccess) (work : WorkStore)
  | removeExact (card : ContinuityCard)
  | pruneCurrent (work : WorkStore) (now : ℕ)

inductive Out where
  | proposed (r : Except WorkError ContinuityProposal)
  | resolved (r : Except WorkError ContinuityProposal)
  | confirmed (proposal : ContinuityProposal) (r : Except WorkError ContinuityCard)
  | noGrant
  | cleared (r : Except WorkError (Option ContinuityCard))
  | removed (r : Except WorkError Unit)
  | pruned
  deriving DecidableEq

/-- One operation by one actor. A draft states the revision of the card that is current when it is
proposed; a grant is used up by its confirmation. -/
def step (s : System) : Op → Out × System
  | .propose scope presentedText sourceRefs access work now =>
    let draft : ContinuityDraft := ⟨scope, s.store.revision scope, presentedText, sourceRefs⟩
    let (r, registry) := commit s.registry (s.registry.propose draft access work now)
    (.proposed r, { s with registry })
  | .resolve id actor scope now =>
    match s.registry.resolveConfirmation id actor scope now with
    | (.ok p, registry) => (.resolved (.ok p), { s with registry, grants := s.grants.insert id p })
    | (.error e, registry) => (.resolved (.error e), { s with registry })
  | .confirm id access work now =>
    match s.grants[id]? with
    | none => (.noGrant, s)
    | some p =>
      let (r, store) := commit s.store (s.store.confirm p access work now)
      (.confirmed p r, { s with store, grants := s.grants.erase id })
  | .clear scope access work =>
    let (r, store) := commit s.store (s.store.clear scope access work)
    (.cleared r, { s with store })
  | .removeExact card =>
    let (r, store) := commit s.store ((s.store.removeExact card).map fun t => ((), t))
    (.removed r, { s with store })
  | .pruneCurrent work now => (.pruned, { s with store := s.store.pruneCurrent work now })

abbrev Trace := List (Event System Op Out)

/-! ### What happens to the card of a scope -/

theorem confirm_ok {s s' : ContinuityStore} {p : ContinuityProposal} {access : WorkAccess}
    {work : WorkStore} {now : ℕ} {card : ContinuityCard}
    (h : s.confirm p access work now = .ok (card, s')) :
    s.revision p.scope = p.baseRevision ∧ card.revision = s.revision p.scope + 1 ∧
      s'.card p.scope = some card ∧ ∀ scope, scope ≠ p.scope →
        s'.card scope = s.card scope ∨ s'.card scope = none := by
  simp only [ContinuityStore.confirm, bind_eq_ok, ensure_eq_ok, exists_unit, orErr_eq_ok,
    pure_eq_ok, Library.Word.checkedAdd_eq_some, Prod.mk.injEq] at h
  obtain ⟨-, -, -, -, -, hbase, rev, ⟨hrev, -⟩, exp, -, -, hcard, rfl⟩ := h
  subst hcard
  refine ⟨hbase, hrev.symm, by simp [ContinuityStore.card], fun scope hne => ?_⟩
  have hlookup : (ContinuityStore.card ⟨(s.cards.filter fun _ c => active now c).insert p.scope
      ⟨1, p.scope, p.actor, rev, p.presentedText, p.sourceRefs, exp, none⟩⟩ scope) =
      (s.cards.filter fun _ c => active now c)[scope]? := by
    rw [ContinuityStore.card, getElem?_insert, if_neg (Ne.symm hne)]
  rw [hlookup]
  cases hf : (s.cards.filter fun _ c => active now c)[scope]? with
  | none => exact .inr rfl
  | some c => exact .inl (filter_eq_some.mp hf).1.symm

/-- **One step**: the card of a scope stays, goes, or is replaced by one of the next revision. -/
theorem step_card (s : System) (op : Op) (scope : WorkScope) :
    (step s op).2.store.card scope = s.store.card scope ∨
      (step s op).2.store.card scope = none ∨
      ∃ card, (step s op).2.store.card scope = some card ∧
        card.revision = s.store.revision scope + 1 := by
  have herase : ∀ k, ContinuityStore.card ⟨s.store.cards.erase k⟩ scope = s.store.card scope ∨
      ContinuityStore.card ⟨s.store.cards.erase k⟩ scope = none := by
    intro k
    simp only [ContinuityStore.card, Std.ExtTreeMap.getElem?_erase]
    split_ifs
    · exact .inr rfl
    · exact .inl rfl
  cases op with
  | propose => exact .inl rfl
  | resolve id actor k now =>
    simp only [step]
    split <;> exact .inl rfl
  | confirm id access work now =>
    simp only [step]
    split
    · exact .inl rfl
    · rename_i p hp
      rcases commit_cases s.store (s.store.confirm p access work now) with
        ⟨card, s', hok, hcommit⟩ | ⟨e, hcommit⟩
      · rw [hcommit]
        obtain ⟨-, hrev, hcard, hothers⟩ := confirm_ok hok
        by_cases hk : scope = p.scope
        · exact .inr (.inr ⟨card, hk ▸ hcard, hk ▸ hrev⟩)
        · exact (hothers scope hk).imp_right .inl
      · rw [hcommit]; exact .inl rfl
  | clear k access work =>
    simp only [step]
    rcases commit_cases s.store (s.store.clear k access work) with
      ⟨card, s', hok, hcommit⟩ | ⟨e, hcommit⟩
    · rw [hcommit]
      simp only [ContinuityStore.clear, bind_eq_ok, exists_unit, pure_eq_ok, Prod.mk.injEq] at hok
      obtain ⟨-, -, rfl⟩ := hok
      exact (herase k).imp_right .inl
    · rw [hcommit]; exact .inl rfl
  | removeExact card =>
    simp only [step]
    rcases commit_cases s.store ((s.store.removeExact card).map fun t => ((), t)) with
      ⟨u, s', hok, hcommit⟩ | ⟨e, hcommit⟩
    · rw [hcommit]
      simp only [ContinuityStore.removeExact, map_eq_ok, bind_eq_ok, ensure_eq_ok, exists_unit,
        pure_eq_ok, Prod.mk.injEq] at hok
      obtain ⟨_, ⟨-, rfl⟩, -, rfl⟩ := hok
      exact (herase card.scope).imp_right .inl
    · rw [hcommit]; exact .inl rfl
  | pruneCurrent work now =>
    have hprune : (s.store.pruneCurrent work now).card scope = s.store.card scope ∨
        (s.store.pruneCurrent work now).card scope = none := by
      cases hf : (s.store.pruneCurrent work now).card scope with
      | none => exact .inr rfl
      | some c => exact .inl (filter_eq_some.mp hf).1.symm
    exact hprune.imp_right .inl

/-! ### Runs without a removal -/

/-- The scope was never emptied. -/
def Kept (scope : WorkScope) (h : Trace) : Prop :=
  ∀ e ∈ h, ¬ (e.before.store.card scope ≠ none ∧ e.after.store.card scope = none)

/-- While the scope is not emptied its revision goes up, and stands still only with the card. -/
theorem revision_le_of_kept {s₀ s : System} {h₁ h₂ : Trace} {e₀ : Event System Op Out}
    {scope : WorkScope} (hrun : Run step s₀ (h₁ ++ e₀ :: h₂) s) (hkept : Kept scope h₁) :
    e₀.after.store.revision scope ≤ s.store.revision scope ∧
      (s.store.revision scope = e₀.after.store.revision scope →
        s.store.card scope = e₀.after.store.card scope) := by
  induction h₁ generalizing s with
  | nil =>
    cases hrun with
    | cons op hr => exact ⟨le_rfl, fun _ => rfl⟩
  | cons e h₁ ih =>
    cases hrun with
    | @cons _ s' op hr =>
      obtain ⟨hle, heq⟩ := ih hr fun e' he' => hkept e' (List.mem_cons_of_mem _ he')
      have hrevision : ∀ t : System, t.store.card scope = s'.store.card scope →
          t.store.revision scope = s'.store.revision scope := fun t ht => by
        rw [ContinuityStore.revision, ht]; rfl
      rcases step_card s' op scope with hsame | hnone | ⟨card, hcard, hrev⟩
      · rw [hrevision _ hsame, hsame]
        exact ⟨hle, heq⟩
      · -- the scope was empty before, or it would have been emptied
        have hs' : s'.store.card scope = none := by
          by_contra hsome
          exact hkept _ List.mem_cons_self ⟨hsome, hnone⟩
        have hsame := hnone.trans hs'.symm
        rw [hrevision _ hsame, hsame]
        exact ⟨hle, heq⟩
      · have hnew : (step s' op).2.store.revision scope = s'.store.revision scope + 1 := by
          rw [ContinuityStore.revision, hcard]; exact hrev
        rw [hnew]
        exact ⟨by omega, fun h => by omega⟩

/-! ### Where proposals come from -/

/-- Every pending proposal and every grant was proposed in the run. -/
structure Origin (h : Trace) (s : System) : Prop where
  registry : ∀ (id : ProposalId) (p : ContinuityProposal), s.registry.proposals[id]? = some p →
    ∃ e ∈ h, e.out = .proposed (.ok p)
  grants : ∀ (id : ProposalId) (p : ContinuityProposal), s.grants[id]? = some p →
    ∃ e ∈ h, e.out = .proposed (.ok p)

theorem propose_ok {g g' : ProposalRegistry} {draft : ContinuityDraft} {access : WorkAccess}
    {work : WorkStore} {now : ℕ} {p : ContinuityProposal}
    (h : g.propose draft access work now = .ok (p, g')) :
    p.baseRevision = draft.baseRevision ∧ p.scope = draft.scope ∧
      ∀ (id : ProposalId) (q : ContinuityProposal), g'.proposals[id]? = some q →
        q = p ∨ g.proposals[id]? = some q := by
  simp only [ProposalRegistry.propose, bind_eq_ok, ensure_eq_ok, exists_unit, orErr_eq_ok,
    pure_eq_ok, Prod.mk.injEq] at h
  obtain ⟨-, -, -, exp, -, seq, -, -, rfl, rfl⟩ := h
  refine ⟨rfl, rfl, fun id q hq => ?_⟩
  rw [getElem?_insert] at hq
  split_ifs at hq
  · exact .inl (Option.some.inj hq).symm
  · exact .inr (filter_eq_some.mp hq).1

theorem resolve_registry (g : ProposalRegistry) (id : ProposalId) (actor : ℕ) (scope : WorkScope)
    (now : ℕ) {k : ProposalId} {p : ContinuityProposal}
    (h : (g.resolveConfirmation id actor scope now).2.proposals[k]? = some p) :
    g.proposals[k]? = some p := by
  have herase : (g.proposals.erase id)[k]? = some p → g.proposals[k]? = some p := by
    rw [Std.ExtTreeMap.getElem?_erase]
    split_ifs
    · exact fun h => absurd h (by simp)
    · exact fun h => h
  unfold ProposalRegistry.resolveConfirmation at h
  split at h
  · exact h
  · split_ifs at h
    all_goals first | exact h | exact herase h

theorem resolve_ok {g g' : ProposalRegistry} {id : ProposalId} {actor : ℕ} {scope : WorkScope}
    {now : ℕ} {p : ContinuityProposal}
    (h : g.resolveConfirmation id actor scope now = (.ok p, g')) : g.proposals[id]? = some p := by
  unfold ProposalRegistry.resolveConfirmation at h
  split at h
  · cases h
  · rename_i q hq
    split_ifs at h <;> cases h
    exact hq

theorem Origin.weaken {h : Trace} {s s' : System} (ho : Origin h s)
    (hregistry : ∀ (id : ProposalId) (p : ContinuityProposal),
      s'.registry.proposals[id]? = some p → s.registry.proposals[id]? = some p)
    (hgrants : ∀ (id : ProposalId) (p : ContinuityProposal), s'.grants[id]? = some p →
      s.grants[id]? = some p ∨ s.registry.proposals[id]? = some p) (e : Event System Op Out) :
    Origin (e :: h) s' := by
  have hmono : ∀ p : ContinuityProposal, (∃ e ∈ h, e.out = .proposed (.ok p)) →
      ∃ e' ∈ e :: h, e'.out = .proposed (.ok p) := fun p ⟨e', he', hout⟩ =>
    ⟨e', List.mem_cons_of_mem _ he', hout⟩
  refine ⟨fun id p hp => hmono p (ho.registry id p (hregistry id p hp)), fun id p hp => ?_⟩
  rcases hgrants id p hp with hold | hreg
  · exact hmono p (ho.grants id p hold)
  · exact hmono p (ho.registry id p hreg)

theorem Origin.step {h : Trace} {s : System} (ho : Origin h s) (op : Op) :
    Origin (event step s op :: h) (step s op).2 := by
  cases op with
  | propose scope text refs access work now =>
    rcases commit_cases s.registry (s.registry.propose ⟨scope, s.store.revision scope, text, refs⟩
      access work now) with ⟨p, g', hok, hcommit⟩ | ⟨e, hcommit⟩
    · obtain ⟨-, -, hrows⟩ := propose_ok hok
      have hout : (event Update.step s (.propose scope text refs access work now)).out =
          .proposed (.ok p) := by
        simp only [event, Update.step, hcommit]
      have hstate : (Update.step s (.propose scope text refs access work now)).2 =
          { s with registry := g' } := by
        simp only [Update.step, hcommit]
      rw [hstate]
      refine ⟨fun id q hq => ?_, fun id q hq => ?_⟩
      · rcases hrows id q hq with rfl | hold
        · exact ⟨_, List.mem_cons_self, hout⟩
        · obtain ⟨e', he', h'⟩ := ho.registry id q hold
          exact ⟨e', List.mem_cons_of_mem _ he', h'⟩
      · obtain ⟨e', he', h'⟩ := ho.grants id q hq
        exact ⟨e', List.mem_cons_of_mem _ he', h'⟩
    · have hstate : (Update.step s (.propose scope text refs access work now)).2 = s := by
        simp only [Update.step, hcommit]
      exact ho.weaken (by rw [hstate]; exact fun _ _ hp => hp)
        (by rw [hstate]; exact fun _ _ hp => .inl hp) _
  | resolve id actor scope now =>
    refine ho.weaken (fun k p hp => ?_) (fun k p hp => ?_) _
    · refine resolve_registry s.registry id actor scope now (k := k) ?_
      simp only [Update.step] at hp
      split at hp <;> rename_i heq <;> rw [heq] <;> exact hp
    · simp only [Update.step] at hp
      split at hp
      · rename_i q g' heq
        rw [getElem?_insert] at hp
        split_ifs at hp with hk
        · cases hp; subst hk; exact .inr (resolve_ok heq)
        · exact .inl hp
      · exact .inl hp
  | confirm id access work now =>
    refine ho.weaken (fun k p hp => ?_) (fun k p hp => .inl ?_) _
    · simp only [Update.step] at hp
      split at hp <;> exact hp
    · simp only [Update.step] at hp
      split at hp
      · exact hp
      · simp only [Std.ExtTreeMap.getElem?_erase] at hp
        split_ifs at hp
        exact hp
  | clear => refine ho.weaken (fun _ _ hp => ?_) (fun _ _ hp => .inl ?_) _ <;> exact hp
  | removeExact => refine ho.weaken (fun _ _ hp => ?_) (fun _ _ hp => .inl ?_) _ <;> exact hp
  | pruneCurrent => refine ho.weaken (fun _ _ hp => ?_) (fun _ _ hp => .inl ?_) _ <;> exact hp

theorem origin_of_run {bootNonce : List ℕ} {h : Trace} {s : System}
    (hrun : Run step (.new bootNonce) h s) : Origin h s := by
  induction hrun with
  | nil => exact ⟨fun id p hp => by simp [System.new, ProposalRegistry.new] at hp,
      fun id p hp => by simp [System.new] at hp⟩
  | cons op _ ih => exact ih.step op

/-! ### No lost update -/

/-- A confirmed proposal replaces the card that was current when it was proposed. -/
def ReplacesProposed (h : Trace) (e : Event System Op Out) : Prop :=
  ∀ p card, e.out = .confirmed p (.ok card) → ∀ h₁ e₀ h₂, h = h₁ ++ e₀ :: h₂ →
    e₀.out = .proposed (.ok p) → e.before.store.card p.scope = e₀.before.store.card p.scope

/-- A confirmed proposal was proposed in the run, and replaces the card that was current then if there
was none or the scope was not emptied in between. -/
def ReplacesProposedIfKept (h : Trace) (e : Event System Op Out) : Prop :=
  ∀ p card, e.out = .confirmed p (.ok card) → (∃ e₀ ∈ h, e₀.out = .proposed (.ok p)) ∧
    ∀ h₁ e₀ h₂, h = h₁ ++ e₀ :: h₂ → e₀.out = .proposed (.ok p) →
      (e₀.before.store.card p.scope = none ∨ Kept p.scope h₁) →
      e.before.store.card p.scope = e₀.before.store.card p.scope

theorem out_proposed {s : System} {op : Op} {p : ContinuityProposal}
    (h : (step s op).1 = .proposed (.ok p)) :
    p.baseRevision = s.store.revision p.scope ∧ (step s op).2.store = s.store := by
  cases op with
  | propose scope text refs access work now =>
    simp only [step] at h ⊢
    rcases commit_cases s.registry (s.registry.propose ⟨scope, s.store.revision scope, text, refs⟩
      access work now) with ⟨q, g', hok, hcommit⟩ | ⟨e, hcommit⟩
    · rw [hcommit] at h
      cases h
      obtain ⟨hbase, hscope, -⟩ := propose_ok hok
      exact ⟨by rw [hbase, hscope], trivial⟩
    · rw [hcommit] at h
      cases h
  | resolve id actor scope now => simp only [step] at h; split at h <;> cases h
  | confirm id access work now => simp only [step] at h; split at h <;> cases h
  | clear => cases h
  | removeExact => cases h
  | pruneCurrent => cases h

theorem out_confirmed {s : System} {op : Op} {p : ContinuityProposal} {card : ContinuityCard}
    (h : (step s op).1 = .confirmed p (.ok card)) :
    (∃ id : ProposalId, s.grants[id]? = some p) ∧ s.store.revision p.scope = p.baseRevision := by
  cases op with
  | confirm id access work now =>
    simp only [step] at h
    split at h
    · cases h
    · rename_i q hq
      rcases commit_cases s.store (s.store.confirm q access work now) with
        ⟨c, s', hok, hcommit⟩ | ⟨e, hcommit⟩
      · rw [hcommit] at h
        cases h
        exact ⟨⟨id, hq⟩, (confirm_ok hok).1⟩
      · rw [hcommit] at h
        cases h
  | resolve id actor scope now => simp only [step] at h; split at h <;> cases h
  | propose => cases h
  | clear => cases h
  | removeExact => cases h
  | pruneCurrent => cases h

/-- The revision 0 is of no card. -/
theorem card_eq_none {bootNonce : List ℕ} {h : Trace} {s : System}
    (hrun : Run step (.new bootNonce) h s) {scope : WorkScope}
    (hrev : s.store.revision scope = 0) : s.store.card scope = none := by
  have hpos : ∀ card, s.store.card scope = some card → 0 < card.revision := by
    refine hrun.invariant (I := fun s : System => ∀ card, s.store.card scope = some card →
      0 < card.revision) (fun card hcard => ?_) fun s op ih card hcard => ?_
    · simp [System.new, ContinuityStore.empty, ContinuityStore.card] at hcard
    · rcases step_card s op scope with hsame | hnone | ⟨new, hnew, hrev⟩
      · exact ih card (hsame ▸ hcard)
      · rw [hnone] at hcard
        cases hcard
      · rw [hnew, Option.some.injEq] at hcard
        rw [← hcard, hrev]
        exact Nat.succ_pos _
  cases hcard : s.store.card scope with
  | none => rfl
  | some card =>
    rw [ContinuityStore.revision, hcard] at hrev
    exact absurd hrev (hpos card hcard).ne'

/-- **No lost update**, as long as a card that was to be replaced is not removed. -/
theorem confirm_replaces_proposed_card {bootNonce : List ℕ} {h : Trace} {s : System}
    (hrun : Run step (.new bootNonce) h s) : Along ReplacesProposedIfKept h := by
  induction hrun with
  | nil => trivial
  | @cons h s op hrun ih =>
    refine ⟨fun p card hout => ?_, ih⟩
    obtain ⟨⟨id, hgrant⟩, hrev⟩ := out_confirmed hout
    refine ⟨(origin_of_run hrun).grants id p hgrant, fun h₁ e₀ h₂ hsplit hproposed hproviso => ?_⟩
    subst hsplit
    have hev := hrun.event_eq (e := e₀) (by simp)
    rw [hev] at hproposed
    obtain ⟨hbase, hstore⟩ := out_proposed hproposed
    rcases hproviso with hnone | hkept
    · have hzero : e₀.before.store.revision p.scope = 0 := by
        rw [ContinuityStore.revision, hnone]
        rfl
      rw [hnone]
      exact card_eq_none hrun (by rw [hrev, hbase, hzero])
    have hafter : e₀.after.store = e₀.before.store := by rw [hev]; exact hstore
    have hcard := (revision_le_of_kept hrun hkept).2 (by rw [hafter, hrev, hbase])
    rw [hafter] at hcard
    exact hcard

/-! ### Back to the same revision

A card is confirmed, a change of it is proposed, the scope is cleared, another card is confirmed, and
the change goes through against the other card. -/

def samplePropose (text : String) : Op :=
  .propose (.personal 1) text ∅ (soloAccess 1) (soloWork 1) 0

def sampleResolve (n : ℕ) : Op := .resolve ⟨List.replicate 16 7, n⟩ 1 (.personal 1) 1

def sampleConfirm (n : ℕ) : Op := .confirm ⟨List.replicate 16 7, n⟩ (soloAccess 1) (soloWork 1) 2

def sampleOps : List Op :=
  [samplePropose "first", sampleResolve 1, sampleConfirm 1, samplePropose "change",
    .clear (.personal 1) (soloAccess 1) (soloWork 1), samplePropose "other", sampleResolve 3,
    sampleConfirm 3, sampleResolve 2, sampleConfirm 2]

def sampleTrace : Trace := (play step (.new (List.replicate 16 7)) sampleOps).1

def sampleCard (text : String) (revision : ℕ) : ContinuityCard :=
  ⟨1, .personal 1, 1, revision, text, ∅, 2 + cardLifetime, none⟩

/-- The proposal of the change, against the first revision. -/
def sampleChange : ContinuityProposal :=
  ⟨⟨List.replicate 16 7, 2⟩, 1, .personal 1, 1, "change", ∅, proposalLifetime⟩

/-- A confirmed proposal can replace a card that another proposal put there in between. -/
theorem not_always_replaces_proposed :
    ¬ ∀ (bootNonce : List ℕ) (h : Trace) (s : System), Run step (.new bootNonce) h s →
      Along ReplacesProposed h := by
  intro hclaim
  obtain ⟨hlast, -⟩ := hclaim _ sampleTrace _ (run_play _ _)
  have hcards := hlast sampleChange (sampleCard "change" 2) (by decide +kernel)
    (sampleTrace.tail.take 5) (sampleTrace.tail.get ⟨5, by decide⟩)
    (sampleTrace.tail.drop 6) rfl (by decide)
  revert hcards
  decide +kernel

/-- The same change without the removal. -/
def keptTrace : Trace :=
  (play step (.new (List.replicate 16 7)) [samplePropose "first", sampleResolve 1,
    sampleConfirm 1, samplePropose "change", sampleResolve 2, sampleConfirm 2]).1

theorem kept_replaces_proposed :
    keptTrace.head?.map Event.out =
      some (.confirmed sampleChange (.ok (sampleCard "change" 2))) ∧
      Along ReplacesProposedIfKept keptTrace :=
  ⟨by decide +kernel, confirm_replaces_proposed_card (run_play _ _)⟩

end AbbeyBot.Work.Continuity.Update
