import Mathlib
import AbbeyBot.Engagement.Effects

/-! # Settlement of attempts

A settlement should be of an attempt: of a candidate that was reserved. `settle` takes the charges
and the community receipt of a candidate for the mark of an attempt, but the receipt is there from
the proposal on. -/

namespace AbbeyBot.Engagement

open AbbeyBot.Library.History AbbeyBot.Library.OrderedMap AbbeyBot.Work.Types

/-- The candidates that were reserved in a history. -/
def reservedIds (h : History) : List ℕ :=
  h.filterMap fun e => e.out.reserved?.map EngagementReservation.candidateId

/-- The settlement is of an attempt: it succeeds only on a candidate that was reserved, and on any
other it returns an error and leaves the store unchanged. -/
def SettlesAttempt (h : History) (s : EngagementStore) (id : ℕ) (outcome : DeliveryOutcome) :
    Prop :=
  ((s.settle id outcome).1 = .ok () → id ∈ reservedIds h) ∧
    (id ∉ reservedIds h → (∃ e, (s.settle id outcome).1 = .error e) ∧ (s.settle id outcome).2 = s)

/-- The candidate was cancelled with a receipt that was never attempted, and the outcome says that
the contact was made. -/
def EngagementStore.SettlesUnattempted (s : EngagementStore) (id : ℕ)
    (outcome : DeliveryOutcome) : Prop :=
  ∃ c r, s.candidates[id]? = some c ∧ c.state = .cancelled ∧
    s.communityReceipts[id]? = some r ∧ r.attemptedAt = none ∧
    outcome.mayHaveHappened = true ∧ outcome ≠ .sent 0

/-! ### The marks of an attempt -/

/-- Charges, reserved candidates and attempted receipts are of candidates in `reserved`, and a
receipt of a candidate in `reserved` is attempted. -/
structure EngagementStore.Marked (s : EngagementStore) (reserved : List ℕ) : Prop where
  charges : ∀ row ∈ s.charges, row.candidateId ∈ reserved
  candidates : ∀ (id : ℕ) (c : Candidate), s.candidates[id]? = some c → c.state = .reserved →
    id ∈ reserved
  receipts : ∀ (id : ℕ) (r : CommunityReceipt), s.communityReceipts[id]? = some r →
    (r.attemptedAt.isSome = true ↔ id ∈ reserved)
  numbered : ∀ id ∈ reserved, id ≤ s.sequence

variable {K : Crates} {s s' : EngagementStore} {reserved : List ℕ}

theorem Grows.marked {linked : Prop} (h : Grows linked s s') (hm : s.Marked reserved) :
    s'.Marked reserved where
  charges := by rw [h.rest]; exact hm.charges
  candidates id c hc hr := by
    rcases h.candidates.2 id c hc with hold | ⟨-, hpending, -⟩
    · exact hm.candidates id c hold hr
    · rw [hpending] at hr
      cases hr
  receipts id r hr := by
    rcases h.receipts.2 id r hr with hold | ⟨hlt, hnone⟩
    · exact hm.receipts id r hold
    · rw [hnone]
      refine ⟨fun hsome => (by cases hsome), fun hid => ?_⟩
      have := hm.numbered id hid
      omega
  numbered id hid := (hm.numbered id hid).trans h.sequence

theorem Calm.marked (h : Calm s s') (hm : s.Marked reserved) : s'.Marked reserved where
  charges := by rw [h.sameCharges]; exact hm.charges
  candidates id c' hc' hr := by
    obtain ⟨c, hc, hstate⟩ := h.reserved id c' hc' hr
    exact hm.candidates id c hc hstate
  receipts := by rw [h.sameReceipts]; exact hm.receipts
  numbered := by rw [h.rest]; exact hm.numbered

/-- A reservation marks its candidate and no other. -/
theorem Reserves.marked {id now : ℕ} {c : Candidate} {r : EngagementReservation} (hs : s.Core)
    (hc : s.candidates[id]? = some c) (h : s.Reserves K id now c r s') (hm : s.Marked reserved) :
    s'.Marked (id :: reserved) := by
  have hnumbered : ∀ k ∈ id :: reserved, k ≤ s.sequence := by
    intro k hk
    rcases List.mem_cons.mp hk with rfl | hk
    · exact (hs.candidates k c hc).id.2
    · exact hm.numbered k hk
  have hcandidates : ∀ (c₁ : Candidate) (k : ℕ) (c' : Candidate),
      (s.candidates.insert id c₁)[k]? = some c' → c'.state = .reserved → k ∈ id :: reserved := by
    intro c₁ k c' hc' hr
    rw [getElem?_insert] at hc'
    split_ifs at hc' with hk
    · exact hk ▸ List.mem_cons_self
    · exact List.mem_cons_of_mem _ (hm.candidates k c' hc' hr)
  have hreceipts : ∀ (k : ℕ) (r' : CommunityReceipt),
      (s.communityReceipts.modify id fun r => { r with attemptedAt := some now })[k]? = some r' →
        (r'.attemptedAt.isSome = true ↔ k ∈ id :: reserved) := by
    intro k r' hr'
    rw [getElem?_modify] at hr'
    split_ifs at hr' with hk
    · obtain ⟨r₀, -, rfl⟩ := Option.map_eq_some_iff.mp hr'
      exact ⟨fun _ => hk ▸ List.mem_cons_self, fun _ => rfl⟩
    · rw [hm.receipts k r' hr', List.mem_cons, or_iff_right (fun heq => hk heq.symm)]
  cases h with
  | introduction i b₀ b₁ current =>
    refine ⟨fun row hrow => ?_, hcandidates _, fun k r' hr' => ?_, hnumbered⟩
    · rcases List.mem_append.mp hrow with hrow | hrow
      · exact List.mem_cons_of_mem _ (hm.charges row hrow)
      · simp only [List.mem_cons, List.not_mem_nil, or_false] at hrow
        rcases hrow with rfl | rfl <;> exact List.mem_cons_self
    · -- an introduction has no community receipt
      have hne : id ≠ k := by
        rintro rfl
        obtain ⟨c', hc', hf⟩ := hs.receipts id r' hr'
        rw [hc] at hc'
        cases hc'
        rw [current.1] at hf
        cases hf
      rw [hm.receipts k r' hr', List.mem_cons, or_iff_right (fun heq => hne heq.symm)]
  | publicly receipt =>
    refine ⟨fun row hrow => ?_, hcandidates _, hreceipts, hnumbered⟩
    rw [EngagementStore.withReserved, List.append_nil] at hrow
    exact List.mem_cons_of_mem _ (hm.charges row hrow)
  | contact member b p destination =>
    refine ⟨fun row hrow => ?_, hcandidates _, hreceipts, hnumbered⟩
    rcases List.mem_append.mp hrow with hrow | hrow
    · exact List.mem_cons_of_mem _ (hm.charges row hrow)
    · rw [List.mem_singleton.mp hrow]
      exact List.mem_cons_self

theorem erased_marked (hm : s.Marked reserved) (scope : String) (member : Option ℕ) :
    (s.erased K scope member).Marked reserved where
  charges row hrow := hm.charges row (List.mem_filter.mp hrow).1
  candidates id c hc := hm.candidates id c (filter_eq_some.mp hc).1
  receipts id r hr := hm.receipts id r (filter_eq_some.mp hr).1
  numbered := hm.numbered

theorem Effect.marked {op : Op} {out : Out} (h : Effect K s op out s') (hs : s.Core)
    (hm : s.Marked reserved) :
    s'.Marked ((out.reserved?.map EngagementReservation.candidateId).toList ++ reserved) := by
  cases h with
  | grows quiet _ h => rw [quiet]; exact h.marked hm
  | calm quiet h => rw [quiet]; exact h.marked hm
  | reserves id revision now c r _ returned row _ _ _ h =>
    have hid : r.candidateId = id := by cases h <;> assumption
    rw [returned, Option.map_some, hid]
    exact Reserves.marked hs row h hm
  | erases quiet scope member _ h => rw [quiet, h]; exact erased_marked hm scope member
  | prunes quiet now h =>
    obtain ⟨contact, community, pruned, heq⟩ := pruneErasureSafety_eq s now
    rw [quiet, h, heq]
    exact ⟨hm.charges, hm.candidates, hm.receipts, hm.numbered⟩
  | configures quiet settings _ h =>
    rw [quiet, h]
    exact ⟨hm.charges, hm.candidates, hm.receipts, hm.numbered⟩

/-- The reservations of a history with one operation more. -/
theorem reservedIds_event {h : History} {op : Op} :
    reservedIds (event (step K) s op :: h) =
      ((step K s op).1.reserved?.map EngagementReservation.candidateId).toList ++ reservedIds h := by
  unfold reservedIds event
  rw [List.filterMap_cons]
  cases (step K s op).1.reserved? <;> rfl

/-- In every run, the marks of an attempt are on the candidates that were reserved. -/
theorem marked_of_reaches {h : History} (hr : Reaches K h s) : s.Marked (reservedIds h) := by
  induction hr with
  | nil =>
    exact ⟨by simp [EngagementStore.empty], by simp [EngagementStore.empty],
      by simp [EngagementStore.empty], by simp [reservedIds]⟩
  | @cons h s op hr ih =>
    have hstep := (step_effect K (core_of_reaches hr) op).marked (core_of_reaches hr) ih
    rw [reservedIds_event]
    exact hstep

/-! ### Settlement -/

/-- A candidate without the marks of an attempt is not settled, unless its receipt is taken for
one. -/
theorem settle_refused {id : ℕ} {outcome : DeliveryOutcome} (hm : s.Marked reserved)
    (hid : id ∉ reserved) (hd : ¬ s.SettlesUnattempted id outcome) :
    (∃ e, (s.settle id outcome).1 = .error e) ∧ (s.settle id outcome).2 = s := by
  obtain ⟨e, he⟩ | ⟨c, hc, hsettles, hne, -⟩ := settle_cases s id outcome
  · rw [he]
    exact ⟨⟨e, rfl⟩, rfl⟩
  · exfalso
    rcases hsettles with hreserved | ⟨hcancelled, hcharged, hmade⟩
    · exact hid (hm.candidates id c hc hreserved)
    · rcases hcharged with ⟨row, hrow, rfl⟩ | hreceipt
      · exact hid (hm.charges row hrow)
      · obtain ⟨r, hr⟩ := mem_iff.mp (Std.ExtTreeMap.mem_iff_contains.mpr hreceipt)
        have hnone : r.attemptedAt = none := by
          have := (not_congr (hm.receipts id r hr)).mpr hid
          simpa using this
        exact hd ⟨c, r, hc, hcancelled, hr, hnone, hmade, hne⟩

/-- A cancelled candidate whose receipt is taken for the mark of an attempt is settled. -/
theorem settle_unattempted {id : ℕ} {outcome : DeliveryOutcome}
    (hd : s.SettlesUnattempted id outcome) : (s.settle id outcome).1 = .ok () := by
  obtain ⟨c, r, hc, hcancelled, hr, -, hmade, hne⟩ := hd
  have hcontains : s.communityReceipts.contains id = true :=
    Std.ExtTreeMap.mem_iff_contains.mp (mem_iff.mpr ⟨r, hr⟩)
  have hsettles : s.Settles id c outcome := .inr ⟨hcancelled, .inr hcontains, hmade⟩
  unfold EngagementStore.settle
  rw [hc]
  simp only [hsettles, not_true_eq_false, if_false, hne, hmade, if_true]

/-- **Settlement of attempts**: in every run, a settlement is of an attempt exactly when the store
does not have a cancelled candidate with an unattempted receipt in its place. -/
theorem settlesAttempt_iff {h : History} (hr : Reaches K h s) (id : ℕ)
    (outcome : DeliveryOutcome) :
    SettlesAttempt h s id outcome ↔ ¬ s.SettlesUnattempted id outcome := by
  have hm := marked_of_reaches hr
  constructor
  · intro hsettles hd
    have hid := hsettles.1 (settle_unattempted hd)
    obtain ⟨c, r, -, -, hrow, hnone, -, -⟩ := hd
    have hsome := (hm.receipts id r hrow).mpr hid
    rw [hnone] at hsome
    cases hsome
  · intro hd
    refine ⟨fun hok => ?_, fun hid => settle_refused hm hid hd⟩
    by_contra hid
    obtain ⟨⟨e, he⟩, -⟩ := settle_refused hm hid hd
    rw [he] at hok
    cases hok

/-! ### A starter that was never attempted -/

/-- A guild where conversation starters are on in the channel 2. -/
def starterSettings : Settings where
  communityCursor := none
  feedback := ∅
  memberPolicies := ∅
  weeklyAssessments := ∅
  responses := ∅
  observations := ∅
  eligibility := ∅
  guildFeatures := (∅ : BTreeMap ℕ GuildFeaturePolicy).insert 1
    ⟨1, {.starters}, (∅ : BTreeMap CommunityFeature (BTreeSet ℕ)).insert .starters {2}⟩

/-- A message of the member 7 that is a day old. -/
def starterFact : CommunityFact where
  kind := .conversationStarter
  scope := .guild 1 2
  source := some ⟨.guild 1 2, 5, 7, 1, 1700000000⟩
  evidence := .message
  at_ := 1700000000
  useful := true
  current := true

/-- A starter is proposed, and cancelled because the conversation went on. -/
def starterOps : List Op :=
  [.configure starterSettings, .proposeCommunity ⟨[starterFact], false⟩ 1700086400,
    .cancelPublicOrigin (.guild 1 2) 1700090000]

/-- The cancelled starter is settled as sent, although it was never reserved. -/
theorem starter_settles_unattempted : ¬ ∀ (K : Crates) (h : History) (s : EngagementStore) (id : ℕ)
    (outcome : DeliveryOutcome), Reaches K h s → SettlesAttempt h s id outcome := by
  intro hall
  have hrun : Reaches plainCrates _ _ := run_play EngagementStore.empty starterOps
  have hids : reservedIds (play (step plainCrates) EngagementStore.empty starterOps).1 = [] := by
    decide
  have hok : ((play (step plainCrates) EngagementStore.empty starterOps).2.settle 1 (.sent 9)).1 =
      .ok () := by
    decide +kernel
  have hmem := (hall plainCrates _ _ 1 (.sent 9) hrun).1 hok
  rw [hids] at hmem
  cases hmem

/-- Before the cancellation the starter is pending, and its settlement is refused. -/
theorem starter_pending_settlesAttempt :
    SettlesAttempt (play (step plainCrates) EngagementStore.empty (starterOps.take 2)).1
      (play (step plainCrates) EngagementStore.empty (starterOps.take 2)).2 1 (.sent 9) := by
  refine (settlesAttempt_iff (run_play EngagementStore.empty (starterOps.take 2)) 1 (.sent 9)).mpr ?_
  rintro ⟨c, r, hc, hcancelled, -⟩
  have hpending : ((play (step plainCrates) EngagementStore.empty
      (starterOps.take 2)).2.candidates[1]?).map Candidate.state = some .pending := by
    decide +kernel
  rw [hc, Option.map_some, hcancelled] at hpending
  cases hpending

end AbbeyBot.Engagement
