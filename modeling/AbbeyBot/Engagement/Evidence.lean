import Mathlib
import AbbeyBot.Engagement.Permanence

/-! # Evidence of community proposals

A call chooses, among the rows that are admissible, the first of each kind in each scope. The loop
over the proposals looks the row of a proposal up once more, by what the proposal says of it: another
row, which was not chosen, can stand before it. When every look-up finds the evidence of the chosen
row, and only then, each new receipt has the evidence it was proposed for. -/

namespace AbbeyBot.Engagement

open AbbeyBot.Library.History AbbeyBot.Library.OrderedMap AbbeyBot.Library.Result
open AbbeyBot.Work.Types

variable {K : Crates} {facts : CommunityFacts} {now : ℕ} {s t : EngagementStore}

/-! ### The rows that are chosen -/

/-- The row is the first admissible one of its kind in its scope. -/
def EngagementStore.Chosen (s : EngagementStore) (K : Crates) (facts : CommunityFacts) (now : ℕ)
    (rows : List CommunityFact) (f : CommunityFact) : Prop :=
  (rows.find? fun g => s.Admissible K facts now g ∧ g.scope = f.scope ∧ g.kind = f.kind) = some f

instance (rows : List CommunityFact) (f : CommunityFact) :
    Decidable (s.Chosen K facts now rows f) := by
  unfold EngagementStore.Chosen; infer_instance

theorem EngagementStore.Chosen.admissible {rows : List CommunityFact} {f : CommunityFact}
    (h : s.Chosen K facts now rows f) : s.Admissible K facts now f := by
  have hf := List.find?_some h
  simp only [decide_eq_true_eq] at hf
  exact hf.1

theorem EngagementStore.Chosen.mem {rows : List CommunityFact} {f : CommunityFact}
    (h : s.Chosen K facts now rows f) : f ∈ rows :=
  List.mem_of_find?_eq_some h

/-- At most one row of a kind in a scope is chosen. -/
theorem EngagementStore.Chosen.eq {rows : List CommunityFact} {f g : CommunityFact}
    (hf : s.Chosen K facts now rows f) (hg : s.Chosen K facts now rows g)
    (hscope : f.scope = g.scope) (hkind : f.kind = g.kind) : f = g := by
  unfold EngagementStore.Chosen at hf hg
  rw [hscope, hkind, hg] at hf
  exact (Option.some.inj hf).symm

/-- What is chosen of the rows and one more. -/
theorem chosen_concat {rows : List CommunityFact} {f g : CommunityFact} :
    s.Chosen K facts now (rows ++ [g]) f ↔ s.Chosen K facts now rows f ∨
      (f = g ∧ s.Admissible K facts now g ∧
        ¬ ∃ f', s.Chosen K facts now rows f' ∧ f'.scope = g.scope ∧ f'.kind = g.kind) := by
  have hearlier : (∃ f', s.Chosen K facts now rows f' ∧ f'.scope = f.scope ∧ f'.kind = f.kind) ↔
      ∃ f', (rows.find? fun g => s.Admissible K facts now g ∧ g.scope = f.scope ∧
        g.kind = f.kind) = some f' := by
    constructor
    · rintro ⟨f', hf', hscope, hkind⟩
      unfold EngagementStore.Chosen at hf'
      rw [hscope, hkind] at hf'
      exact ⟨f', hf'⟩
    · rintro ⟨f', hf'⟩
      have hsame := List.find?_some hf'
      simp only [decide_eq_true_eq] at hsame
      refine ⟨f', ?_, hsame.2⟩
      unfold EngagementStore.Chosen
      rw [hsame.2.1, hsame.2.2]
      exact hf'
  unfold EngagementStore.Chosen at hearlier ⊢
  rw [List.find?_append]
  cases hrows : rows.find? fun g => s.Admissible K facts now g ∧ g.scope = f.scope ∧
    g.kind = f.kind with
  | some f' =>
    rw [Option.some_or]
    refine ⟨.inl, fun h => h.elim id ?_⟩
    rintro ⟨rfl, -, hnone⟩
    exact absurd (hearlier.mpr ⟨f', hrows⟩) hnone
  | none =>
    rw [Option.none_or, List.find?_singleton]
    have hnone : ¬ ∃ f', s.Chosen K facts now rows f' ∧ f'.scope = f.scope ∧ f'.kind = f.kind := by
      intro h
      obtain ⟨f', hf'⟩ := hearlier.mp h
      rw [hrows] at hf'
      cases hf'
    constructor
    · intro h
      split_ifs at h with hg
      simp only [decide_eq_true_eq] at hg
      cases Option.some.inj h
      exact .inr ⟨rfl, hg.1, hnone⟩
    · rintro (h | ⟨rfl, hadm, -⟩)
      · cases h
      · rw [if_pos (decide_eq_true ⟨hadm, rfl, rfl⟩)]

/-- The proposals are those of the chosen rows, at most one of a kind in a scope. -/
theorem collect_spec (rows : List CommunityFact) :
    (∀ p, p ∈ rows.foldl (s.collect K facts now) [] ↔
      ∃ f, s.Chosen K facts now rows f ∧ p = f.proposal now) ∧
    (rows.foldl (s.collect K facts now) []).Pairwise fun p q =>
      ¬ (p.scope = q.scope ∧ p.kind = q.kind) := by
  induction rows using List.reverseRecOn with
  | nil => simp [EngagementStore.Chosen]
  | append_singleton rows g ih =>
    obtain ⟨hmem, hpair⟩ := ih
    rw [List.foldl_append, List.foldl_cons, List.foldl_nil]
    have htaken : (∃ p ∈ rows.foldl (s.collect K facts now) [], p.scope = g.scope ∧
        p.kind = g.kind) ↔
        ∃ f', s.Chosen K facts now rows f' ∧ f'.scope = g.scope ∧ f'.kind = g.kind := by
      constructor
      · rintro ⟨p, hp, hsame⟩
        obtain ⟨f, hf, rfl⟩ := (hmem p).mp hp
        exact ⟨f, hf, hsame⟩
      · rintro ⟨f, hf, hsame⟩
        exact ⟨_, (hmem _).mpr ⟨f, hf, rfl⟩, hsame⟩
    simp only [chosen_concat, ← htaken]
    by_cases hg : s.Admissible K facts now g ∧
        ¬ ∃ p ∈ rows.foldl (s.collect K facts now) [], p.scope = g.scope ∧ p.kind = g.kind
    · rw [EngagementStore.collect, if_pos hg]
      refine ⟨fun p => ?_, ?_⟩
      · rw [List.mem_append, List.mem_singleton, hmem]
        constructor
        · rintro (⟨f, hf, rfl⟩ | rfl)
          · exact ⟨f, .inl hf, rfl⟩
          · exact ⟨g, .inr ⟨rfl, hg⟩, rfl⟩
        · rintro ⟨f, hf | ⟨rfl, -⟩, rfl⟩
          · exact .inl ⟨f, hf, rfl⟩
          · exact .inr rfl
      · rw [List.pairwise_append]
        refine ⟨hpair, List.pairwise_singleton _ _, fun p hp q hq => ?_⟩
        rw [List.mem_singleton] at hq
        subst hq
        exact fun hsame => hg.2 ⟨p, hp, hsame⟩
    · rw [EngagementStore.collect, if_neg hg]
      refine ⟨fun p => ?_, hpair⟩
      rw [hmem]
      constructor
      · rintro ⟨f, hf, rfl⟩
        exact ⟨f, .inl hf, rfl⟩
      · rintro ⟨f, hf | ⟨-, hadm⟩, rfl⟩
        · exact ⟨f, hf, rfl⟩
        · exact absurd hadm hg

/-! ### The look-ups of the loop -/

/-- A receipt that is new after the loop belongs to a candidate that is backed and repeats none. -/
theorem foldlM_entered {count count' : ℕ} {ps : List CandidateProposal} (hs : s.Core) (ht : t.Core)
    (h : ps.foldlM (EngagementStore.proposeBacked K facts now) (count, s) = .ok (count', t))
    {id : ℕ} {r : CommunityReceipt} (hr : t.communityReceipts[id]? = some r)
    (hnew : s.communityReceipts[id]? = none) :
    ∃ c, t.candidates[id]? = some c ∧ ∃ p ∈ ps, t.BackedBy facts id c p ∧
      ¬ ∃ old ∈ values s.candidates, old.Repeats p := by
  obtain ⟨c, hc, -⟩ := ht.receipts id r hr
  refine ⟨c, hc, ?_⟩
  rcases foldlM_backed hs h hc with hold | hbacked
  · have hgrows : Grows True s t := grows_foldlM hs h
    rcases hgrows.receipts.2 id r hr with hrold | ⟨hid, -⟩
    · rw [hnew] at hrold
      cases hrold
    · have hle := (hs.candidates id c hold).id.2
      omega
  · exact hbacked

/-- A proposal that repeats no candidate gets a candidate and a receipt, when no other proposal of
the loop is of its kind in its scope. -/
theorem foldlM_answered {count count' : ℕ} {ps : List CandidateProposal} (hs : s.Core)
    (hps : ps.Pairwise fun p q => ¬ (p.scope = q.scope ∧ p.kind = q.kind))
    (h : ps.foldlM (EngagementStore.proposeBacked K facts now) (count, s) = .ok (count', t))
    {p : CandidateProposal} (hp : p ∈ ps) (hrepeats : ¬ ∃ c ∈ values s.candidates, c.Repeats p) :
    ∃ id c, s.communityReceipts[id]? = none ∧ t.candidates[id]? = some c ∧
      t.BackedBy facts id c p := by
  induction ps generalizing count s with
  | nil => exact absurd hp List.not_mem_nil
  | cons q qs ih =>
    simp only [List.foldlM_cons, bind_eq_ok, Prod.exists] at h
    obtain ⟨count₁, s₁, hq, hqs⟩ := h
    obtain ⟨hfirst, hcore⟩ : Grows True s s₁ ∧ s₁.Core := grows_proposeBacked hs hq
    have hrest : Grows True s₁ t := grows_foldlM hcore hqs
    obtain ⟨hdistinct, hpairs⟩ := List.pairwise_cons.mp hps
    have hcases := proposeBacked_ok (hs.free (Nat.lt_succ_self _)).2.2 hq
    rcases List.mem_cons.mp hp with rfl | hp
    · obtain ⟨-, hold⟩ | ⟨-, fact, g, hfact, -, -, rfl, -⟩ := hcases
      · exact absurd hold hrepeats
      · refine ⟨s.sequence + 1, _, (hs.free (Nat.lt_succ_self _)).2.2,
          hrest.candidates.1 _
            ((s.withReceipt (s.sequence + 1) g fact.evidence).candidateOf p (s.sequence + 1)) ?_,
          rfl, rfl, rfl, fact, ⟨s.guildRevision g, none, fact.evidence⟩, hfact,
          hrest.receipts.1 _ _ ?_, rfl⟩
        · simp [EngagementStore.withProposal]
        · simp [EngagementStore.withProposal, EngagementStore.withReceipt]
    · have hrepeats₁ : ¬ ∃ c ∈ values s₁.candidates, c.Repeats p := by
        obtain ⟨rfl, -⟩ | ⟨-, fact, g, -, -, -, rfl, -⟩ := hcases
        · exact hrepeats
        · rintro ⟨c, hc, hrep⟩
          obtain ⟨id, hid⟩ := mem_values.mp hc
          simp only [EngagementStore.withProposal, EngagementStore.withReceipt,
            getElem?_insert] at hid
          split_ifs at hid
          · cases hid
            exact hdistinct p hp ⟨hrep.2.2.1, hrep.1⟩
          · exact hrepeats ⟨c, mem_values.mpr ⟨id, hid⟩, hrep⟩
      obtain ⟨id, c, hnew, hc, hbacked⟩ := ih hcore hpairs hqs hp hrepeats₁
      refine ⟨id, c, ?_, hc, hbacked⟩
      by_contra hsome
      obtain ⟨r, hr⟩ := Option.ne_none_iff_exists'.mp hsome
      rw [hfirst.receipts.1 id r hr] at hnew
      cases hnew

/-! ### Evidence -/

/-- Each new receipt has the evidence of the row that was chosen for its candidate. -/
def EngagementStore.EvidenceOfChosen (s : EngagementStore) (K : Crates) (facts : CommunityFacts)
    (now : ℕ) (s' : EngagementStore) : Prop :=
  ∀ (id : ℕ) (r : CommunityReceipt), s'.communityReceipts[id]? = some r →
    s.communityReceipts[id]? = none → ∃ c : Candidate, s'.candidates[id]? = some c ∧
      ∃ f, s.Chosen K facts now facts.rows f ∧ c.kind = f.kind ∧ c.scope = f.scope ∧
        c.source = f.source ∧ r.evidence = f.evidence

/-- No new receipt is a second one: neither for a join that had a receipt in the guild, nor for a
project whose check-in in the scope was recent. -/
def EngagementStore.NoSecondReceipt (s : EngagementStore) (now : ℕ) (s' : EngagementStore) : Prop :=
  ∀ (id : ℕ) (r : CommunityReceipt) (c : Candidate), s'.communityReceipts[id]? = some r →
    s.communityReceipts[id]? = none → s'.candidates[id]? = some c →
    (r.evidence.isJoin = true → ¬ ∃ (id₀ : ℕ) (r₀ : CommunityReceipt) (c₀ : Candidate),
      s.communityReceipts[id₀]? = some r₀ ∧
      s.candidates[id₀]? = some c₀ ∧ r₀.evidence = r.evidence ∧
      ∃ g, c.scope.guild? = some g ∧ c₀.scope.guild? = some g) ∧
    ∀ p, r.evidence.project? = some p → ¬ ∃ c₀ ∈ values s.candidates, ∃ r₀ : CommunityReceipt,
      s.communityReceipts[c₀.id]? = some r₀ ∧ c₀.scope = c.scope ∧ c₀.kind = c.kind ∧
      r₀.evidence.project? = some p ∧
      now < AbbeyBot.Library.Word.saturatingAdd (r₀.attemptedAt.getD c₀.dueAt) c.kind.interval

/-- For every chosen row whose proposal repeats no candidate, the first row that the proposal fits has
the same evidence. -/
def EngagementStore.LookUpsAgree (s : EngagementStore) (K : Crates) (facts : CommunityFacts)
    (now : ℕ) : Prop :=
  AbbeyBot.Calendar.IsInstant now → facts.rows.length ≤ 1000 →
    ∀ f, s.Chosen K facts now facts.rows f →
    (¬ ∃ c ∈ values s.candidates, c.Repeats (f.proposal now)) →
    ∀ g, facts.rows.find? (fun g => g.Backs (f.proposal now)) = some g → g.evidence = f.evidence

/-- An admissible row is not skipped, and neither is its evidence. -/
theorem noSecondReceipt_of_evidence (h : s.EvidenceOfChosen K facts now t) :
    s.NoSecondReceipt now t := by
  intro id r c hr hnew hc
  obtain ⟨c', hc', f, hf, hkind, hscope, -, hevidence⟩ := h id r hr hnew
  rw [hc] at hc'
  cases hc'
  obtain ⟨-, hknown, -, -, -, hprecluded⟩ := hf.admissible
  constructor
  · rintro hjoin ⟨id₀, r₀, c₀, hr₀, hc₀, hsame, g, hg, hg₀⟩
    refine hknown ⟨hevidence ▸ hjoin, ⟨id₀, r₀⟩, ?_, hsame.trans hevidence, c₀, hc₀, g, ?_, hg₀⟩
    · exact Std.ExtTreeMap.mem_toList_iff_getElem?_eq_some.mpr hr₀
    · rw [← hscope]
      exact hg
  · rintro p hp ⟨c₀, hc₀, r₀, hr₀, hscope₀, hkind₀, hp₀, hrecent⟩
    refine hprecluded ⟨c₀, hc₀, ?_⟩
    rw [hevidence] at hp
    cases hfe : f.evidence with
    | message => simp [hfe, CommunityEvidence.project?] at hp
    | join member joinedAt => simp [hfe, CommunityEvidence.project?] at hp
    | project p' revision actor audience content =>
      rw [hfe] at hp
      cases hp
      unfold EngagementStore.Precludes
      rw [hfe, hr₀, ← hkind]
      exact ⟨hscope₀.trans hscope, hkind₀, hrecent, r₀, rfl, hp₀⟩

/-- **Evidence of community proposals**: after a call that succeeds, each new receipt has the evidence
of the row it was chosen for, and none is a second receipt, if and only if the look-ups agree with the
choice. -/
theorem evidenceOfChosen_iff {n : ℕ} (hs : s.Valid K) (h : s.proposeCommunity K facts now = .ok (n, t)) :
    (s.EvidenceOfChosen K facts now t ∧ s.NoSecondReceipt now t) ↔ s.LookUpsAgree K facts now := by
  unfold EngagementStore.proposeCommunity at h
  simp only [bind_eq_ok, ensure_eq_ok, exists_unit, Prod.exists, validate_eq_ok, pure_eq_ok,
    Prod.mk.injEq] at h
  obtain ⟨-, count, next, hfold, hvalid, -, rfl⟩ := h
  obtain ⟨hmem, hpairs⟩ := @collect_spec K facts now s facts.rows
  unfold EngagementStore.communityCandidates at hfold
  constructor
  · rintro ⟨hevidence, -⟩ hnow hlength f hf hrepeats g hg
    rw [if_pos ⟨hnow, hlength⟩] at hfold
    obtain ⟨id, c, hnew, hc, hkind, hscope, hsource, fact, r, hfact, hr, hre⟩ :=
      foldlM_answered hs.core hpairs hfold ((hmem _).mpr ⟨f, hf, rfl⟩) hrepeats
    obtain ⟨c', hc', f', hf', hkind', hscope', -, hre'⟩ := hevidence id r hr hnew
    rw [hc] at hc'
    cases hc'
    have hsame : f' = f :=
      hf'.eq hf (hscope'.symm.trans hscope) (hkind'.symm.trans hkind)
    rw [hg] at hfact
    cases hfact
    rw [← hre, hre', hsame]
  · intro hagree
    have hevidence : s.EvidenceOfChosen K facts now next := by
      intro id r hr hnew
      obtain ⟨c, hc, p, hp, ⟨hkind, hscope, hsource, fact, r', hfact, hr', hre⟩, hrepeats⟩ :=
        foldlM_entered hs.core hvalid.core hfold hr hnew
      rw [hr] at hr'
      cases hr'
      split_ifs at hp hfold with hinstant
      · obtain ⟨f, hf, rfl⟩ := (hmem p).mp hp
        refine ⟨c, hc, f, hf, hkind, hscope, hsource, ?_⟩
        rw [hre]
        exact hagree hinstant.1 hinstant.2 f hf hrepeats fact hfact
      · cases hp
    exact ⟨hevidence, noSecondReceipt_of_evidence hevidence⟩

/-! ### Two projects of one manager in one channel -/

/-- Project check-ins are on in the channel 2 of the guild 1, and the manager 7 may be contacted. -/
def projectSettings : Settings where
  communityCursor := none
  feedback := ∅
  memberPolicies := (∅ : BTreeMap ℕ MemberPolicy).insert 7
    { MemberPolicy.default with revision := 1, dailyLimit := some 1, timezone := some "UTC" }
  weeklyAssessments := ∅
  responses := ∅
  observations := ∅
  eligibility := ∅
  guildFeatures := (∅ : BTreeMap ℕ GuildFeaturePolicy).insert 1
    ⟨1, {.projects}, (∅ : BTreeMap CommunityFeature (BTreeSet ℕ)).insert .projects {2}⟩

/-- The project has an open task, and the member 7 manages it. -/
def projectFact (project at_ : ℕ) : CommunityFact where
  kind := .projectCheckIn
  scope := .guild 1 2
  source := none
  evidence := .project project 1 7 {7} {.task project 5 1}
  at_ := at_
  useful := true
  current := true

/-- A check-in for the project 3 is proposed. -/
def checkInOps : List Op :=
  [.configure projectSettings, .proposeCommunity ⟨[projectFact 3 1700000000], false⟩ 1700000000]

def checkedIn : EngagementStore := (play (step plainCrates) EngagementStore.empty checkInOps).2

/-- An hour later the projects 3 and 4 are looked at. -/
def bothProjects : CommunityFacts := ⟨[projectFact 3 1700003600, projectFact 4 1700003600], false⟩

/-- The project of the receipt of the candidate, after a call that succeeded. -/
def receiptOf (id : ℕ) : Except WorkError (ℕ × EngagementStore) → Option ℕ
  | .ok (_, s) => (s.communityReceipts[id]?).bind fun r => r.evidence.project?
  | .error _ => none

theorem receiptOf_eq_some {id p : ℕ} {out : Except WorkError (ℕ × EngagementStore)}
    (h : receiptOf id out = some p) : ∃ (n : ℕ) (t : EngagementStore) (r : CommunityReceipt),
      out = .ok (n, t) ∧ t.communityReceipts[id]? = some r ∧ r.evidence.project? = some p := by
  match out, h with
  | .ok (n, t), h =>
    obtain ⟨r, hr, hp⟩ := Option.bind_eq_some_iff.mp h
    exact ⟨n, t, r, rfl, hr, hp⟩

theorem checkedIn_valid : checkedIn.Valid plainCrates := by
  have h : checkedIn.validate plainCrates = .ok () := by decide +kernel
  exact validate_eq_ok.mp h

/-- The project 3 is within its week, and the candidate for the project 4 gets its evidence. -/
theorem second_check_in_mistaken : ¬ ∀ (K : Crates) (s t : EngagementStore) (facts : CommunityFacts)
    (now n : ℕ), s.Valid K → s.proposeCommunity K facts now = .ok (n, t) →
      s.EvidenceOfChosen K facts now t ∧ s.NoSecondReceipt now t := by
  intro hall
  have hreceipt : receiptOf 2 (checkedIn.proposeCommunity plainCrates bothProjects 1700003600) =
      some 3 := by
    decide +kernel
  obtain ⟨n, t, r, ht, hr, hp⟩ := receiptOf_eq_some hreceipt
  have hnew : (checkedIn.communityReceipts[2]?).isNone = true := by decide +kernel
  obtain ⟨c, -, f, hf, -, -, -, hevidence⟩ :=
    (hall _ _ _ _ _ _ checkedIn_valid ht).1 2 r hr (Option.isNone_iff_eq_none.mp hnew)
  have hthird : ¬ checkedIn.Admissible plainCrates bothProjects 1700003600
      (projectFact 3 1700003600) := by
    decide +kernel
  rw [hevidence] at hp
  have hmem := hf.mem
  simp only [bothProjects, List.mem_cons, List.not_mem_nil, or_false] at hmem
  rcases hmem with rfl | rfl
  · exact hthird hf.admissible
  · cases hp

/-- Eight days later both projects are looked at again. -/
def nextWeek : CommunityFacts := ⟨[projectFact 3 1700691200, projectFact 4 1700691200], false⟩

/-- Now the project 3 is the one to be checked in, and gets its own evidence. -/
theorem next_week_evidence : ∃ n t,
    checkedIn.proposeCommunity plainCrates nextWeek 1700691200 = .ok (n, t) ∧
    checkedIn.EvidenceOfChosen plainCrates nextWeek 1700691200 t := by
  have hreceipt : receiptOf 2 (checkedIn.proposeCommunity plainCrates nextWeek 1700691200) =
      some 3 := by
    decide +kernel
  obtain ⟨n, t, r, ht, -⟩ := receiptOf_eq_some hreceipt
  refine ⟨n, t, ht, ((evidenceOfChosen_iff checkedIn_valid ht).mpr ?_).1⟩
  intro _ _ f hf _ g hg
  have hthird : checkedIn.Chosen plainCrates nextWeek 1700691200 nextWeek.rows
      (projectFact 3 1700691200) := by
    decide +kernel
  have hmem := hf.mem
  simp only [nextWeek, List.mem_cons, List.not_mem_nil, or_false] at hmem
  have hf3 : f = projectFact 3 1700691200 := by
    rcases hmem with rfl | rfl
    · rfl
    · exact hf.eq hthird rfl rfl
  subst hf3
  have hfirst : nextWeek.rows.find?
      (fun f => f.Backs ((projectFact 3 1700691200).proposal 1700691200)) =
        some (projectFact 3 1700691200) := by
    decide +kernel
  rw [hfirst] at hg
  cases hg
  rfl

end AbbeyBot.Engagement
