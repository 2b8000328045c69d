import Mathlib
import AbbeyBot.Engagement.FollowUps

/-! # Erasure is complete and permanent

After an erasure nothing in the scope is linked to the member, and every later store refuses what
was erased: by the identities that the erased records left, which no operation removes. Public
candidates without a receipt leave no identity. -/

namespace AbbeyBot.Engagement

open AbbeyBot.Library.History AbbeyBot.Library.OrderedMap AbbeyBot.Library.Result
open AbbeyBot.Work.Types

variable {K : Crates} {s s' t : EngagementStore} {scope : String} {member : Option ℕ}

/-! ### Completeness -/

theorem erased_feedback (hv : s.Valid K) {id m : ℕ} {rows : BTreeMap ℕ ExplicitFeedback}
    {f : ExplicitFeedback} (hrows : (s.erased K scope member).feedback[id]? = some rows)
    (hf : rows[m]? = some f) :
    ∃ c, (s.erased K scope member).candidates[id]? = some c ∧
      ¬ (c.scope.learningScope = scope ∧ Own member f.actor) := by
  obtain ⟨hrows, -⟩ := filter_eq_some.mp hrows
  obtain ⟨rows₀, hrows₀, rfl⟩ := map_eq_some.mp hrows
  obtain ⟨-, c, hc, -, -, -, hvalid⟩ := all_iff.mp hv.feedback.rows id rows₀ hrows₀
  unfold EngagementStore.keptFeedback at hf
  split_ifs at hf with herased hscope
  · simp at hf
  · obtain ⟨hrow, hkept⟩ := filter_eq_some.mp hf
    have hactor := (all_iff.mp hvalid m f hrow).2.1
    rw [decide_eq_true_eq] at hkept
    refine ⟨c, filter_eq_some.mpr ⟨hc, by simpa using herased⟩, fun ⟨_, hown⟩ => ?_⟩
    exact hkept (hactor ▸ hown)
  · refine ⟨c, filter_eq_some.mpr ⟨hc, by simpa using herased⟩, fun ⟨hs, _⟩ => ?_⟩
    exact hscope ⟨c, hc, hs⟩

/-- No row of the facts can stand in for another in the look-up of `propose_community`. -/
def CommunityFacts.Unambiguous (facts : CommunityFacts) : Prop :=
  ∀ f ∈ facts.rows, ∀ f' ∈ facts.rows, f'.kind = f.kind → f'.scope = f.scope →
    f'.source = f.source → (f.member = none ∨ f'.member = f.member) → f'.evidence = f.evidence

/-- The candidate is that of a proposal, with a receipt of the fact that was looked up for it. -/
def EngagementStore.BackedBy (t : EngagementStore) (facts : CommunityFacts) (id : ℕ)
    (c : Candidate) (p : CandidateProposal) : Prop :=
  c.kind = p.kind ∧ c.scope = p.scope ∧ c.source = p.source ∧
    ∃ fact r, facts.rows.find? (fun f => f.Backs p) = some fact ∧
      t.communityReceipts[id]? = some r ∧ r.evidence = fact.evidence

/-- Every candidate the loop adds is backed, and is the first of its contact. -/
theorem foldlM_backed {facts : CommunityFacts} {now count count' : ℕ} {ps : List CandidateProposal}
    (hs : s.Core)
    (h : ps.foldlM (EngagementStore.proposeBacked K facts now) (count, s) = .ok (count', t))
    {id : ℕ} {c : Candidate} (hc : t.candidates[id]? = some c) :
    s.candidates[id]? = some c ∨ ∃ p ∈ ps, t.BackedBy facts id c p ∧
      ¬ ∃ old ∈ values s.candidates, old.Repeats p := by
  induction ps generalizing count s with
  | nil =>
    simp only [List.foldlM_nil, pure_eq_ok, Prod.mk.injEq] at h
    rw [h.2]
    exact .inl hc
  | cons p ps ih =>
    simp only [List.foldlM_cons, bind_eq_ok, Prod.exists] at h
    obtain ⟨count₁, s₁, hp, hps⟩ := h
    obtain ⟨hfirst, hcore⟩ : Grows True s s₁ ∧ s₁.Core := grows_proposeBacked hs hp
    have hgrows : Grows True s₁ t := grows_foldlM hcore hps
    rcases ih hcore hps with hold | ⟨p', hp', hb, hrepeats⟩
    · obtain ⟨rfl, -⟩ | ⟨hrepeats, fact, g, hfact, -, -, rfl, -⟩ :=
        proposeBacked_ok (hs.free (Nat.lt_succ_self _)).2.2 hp
      · exact .inl hold
      · simp only [EngagementStore.withProposal, EngagementStore.withReceipt,
          getElem?_insert] at hold
        split_ifs at hold with hid
        · subst hid
          cases hold
          have hreceipt := hgrows.receipts.1 (s.sequence + 1) ⟨s.guildRevision g, none, fact.evidence⟩
            (by simp [EngagementStore.withProposal, EngagementStore.withReceipt])
          exact .inr ⟨p, List.mem_cons_self, ⟨rfl, rfl, rfl, fact, _, hfact, hreceipt, rfl⟩,
            hrepeats⟩
        · exact .inl hold
    · refine .inr ⟨p', List.mem_cons_of_mem _ hp', hb, fun ⟨old, hold, hrep⟩ => hrepeats ?_⟩
      obtain ⟨k, hk⟩ := mem_values.mp hold
      exact ⟨old, mem_values.mpr ⟨k, hfirst.candidates.1 k old hk⟩, hrep⟩

/-- The proposal is for the same contact as the candidate. -/
structure CandidateProposal.SameContact (p : CandidateProposal) (c : Candidate) : Prop where
  kind : p.kind = c.kind
  scope : p.scope = c.scope
  member : p.member = c.member
  message : p.source.map SourceRef.message = c.source.map SourceRef.message
  dueAt : p.kind = .weeklyCheckIn → p.dueAt = c.dueAt

theorem CandidateProposal.SameContact.identity {p : CandidateProposal} {c : Candidate}
    (h : p.SameContact c) (K : Crates) : p.identity K = c.identity K := by
  unfold Candidate.identity CandidateProposal.identity
  simp only [h.scope, h.member, h.message]
  rw [← h.kind]
  split_ifs with hw
  · rw [h.dueAt hw]
  · rfl

/-- The two members, in any order. -/
def SamePair (a b : Fin 2 → ℕ) : Prop :=
  (a 0 = b 0 ∧ a 1 = b 1) ∨ (a 0 = b 1 ∧ a 1 = b 0)

/-- The store `t` refuses what was erased from `s`. -/
structure EngagementStore.Refuses (t : EngagementStore) (K : Crates) (s : EngagementStore)
    (scope : String) (member : Option ℕ) : Prop where
  contacts : ∀ (id : ℕ) (c : Candidate), s.candidates[id]? = some c → s.Linked c scope member →
    c.kind = .followUp ∨ c.kind = .weeklyCheckIn → ∀ (p : CandidateProposal) (now : ℕ),
      p.SameContact c → t.propose K p now = .error .stale
  community : ∀ (id : ℕ) (c : Candidate) (r : CommunityReceipt), s.candidates[id]? = some c →
    s.Linked c scope member → s.communityReceipts[id]? = some r →
    ∀ (facts : CommunityFacts) (now n : ℕ) (t' : EngagementStore), facts.Unambiguous →
      t.proposeCommunity K facts now = .ok (n, t') → ∀ (id' : ℕ) (c' : Candidate),
        t'.candidates[id']? = some c' → t.candidates[id']? = none →
        ∃ r', t'.communityReceipts[id']? = some r' ∧
          ¬ (c'.scope = c.scope ∧ c'.kind = c.kind ∧ r'.evidence = r.evidence ∧
            c'.source.map SourceRef.message = c.source.map SourceRef.message)
  invitations : ∀ (id : ℕ) (r : InvitationRequest), s.invitationRequests[id]? = some r →
    r.Linked scope member → ∀ (kind : EngagementKind) (request : InvitationRequest),
      request.interaction = r.interaction → t.requestInvitation K kind request = .error .stale
  suppressed : ∀ (id : ℕ) (r : SuppressedInvitationRequest),
    s.suppressedInvitationRequests[id]? = some r → r.request.Linked scope member →
    ∀ (kind : EngagementKind) (request : InvitationRequest),
      request.interaction = r.request.interaction →
        t.requestInvitation K kind request = .error .stale
  introductions : ∀ (id : ℕ) (i : Introduction), s.introductions[id]? = some i →
    i.Linked scope member → ∀ (members : Fin 2 → ℕ) (origin : EngagementScope)
      (description : String) (now : ℕ), SamePair members i.members →
        origin.learningScope = scope →
          t.createIntroduction K members origin description now = .error .stale
  tasks : ∀ (id : ℕ) (c : Candidate) (task : WorkContentRef), s.candidates[id]? = some c →
    s.Linked c scope member → c.workRef = some task → ∀ (intent : FollowUpIntent)
      (source : SourceRef) (m due now : ℕ), intent.scope = c.scope.workScope →
        intent.task = task →
          t.proposeLinkedTaskFollowUp K intent source m due now = .ok (none, t)
  sources : ∀ (id : ℕ) (c : Candidate), s.candidates[id]? = some c → s.Linked c scope member →
    c.kind = .followUp → ∀ (intent : FollowUpIntent) (source : SourceRef) (m due now : ℕ),
      c.member = some m → source.scope = c.scope →
      c.source.map SourceRef.message = some source.message →
        t.proposeLinkedTaskFollowUp K intent source m due now = .ok (none, t)

end AbbeyBot.Engagement
