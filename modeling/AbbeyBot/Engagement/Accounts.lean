import Mathlib
import AbbeyBot.Engagement.Attempts
import AbbeyBot.Engagement.Proceeding

/-! # Accounts

A candidate is pending, or attempted, or charged as the reservations of the history say. No check sees
this, and the checks of the charges follow from it: it is what an invariant of the runs adds to them. -/

namespace AbbeyBot.Engagement

open AbbeyBot.Calendar AbbeyBot.Library.CivilDate AbbeyBot.Library.OrderedMap
open AbbeyBot.Library.Result AbbeyBot.Work.Types

variable {K : Crates} {s s' : EngagementStore} {reserved : List ℕ} {cs : BTreeMap ℕ Candidate}
  {is : BTreeMap ℕ Introduction}

/-! ### Charges of the reserved candidates -/

/-- Charges are of reserved candidates and complete; a pending candidate was not reserved, an attempted
one was. -/
structure EngagementStore.Accounted (s : EngagementStore) (reserved : List ℕ) : Prop where
  pending : ∀ (id : ℕ) (c : Candidate), s.candidates[id]? = some c → c.state = .pending →
    id ∉ reserved
  attempted : ∀ (id : ℕ) (c : Candidate), s.candidates[id]? = some c →
    c.state.isAttempted = true → id ∈ reserved
  charged : ∀ (id member : ℕ) (c : Candidate), s.candidates[id]? = some c → id ∈ reserved →
    s.concerns c member → s.Charged id member
  rows : ∀ row ∈ s.charges, IsInstant row.at_ ∧ row.member ≠ 0 ∧ IsDate row.localDay ∧
    IsDate row.localWeek ∧ ∃ c, s.candidates[row.candidateId]? = some c ∧ s.concerns c row.member
  distinct : (s.charges.map fun row => (row.candidateId, row.member)).Nodup

/-- Charges that are accounted for pass the check. -/
theorem EngagementStore.Accounted.chargesValid (h : s.Accounted reserved) (hs : s.Core)
    (hm : s.Marked reserved) : s.ChargesValid where
  rows row hrow := by
    obtain ⟨-, hmember, hday, hweek, c, hc, hconcerns⟩ := h.rows row hrow
    exact ⟨⟨c, hc, hconcerns⟩, hmember, hday, hweek⟩
  distinct := h.distinct
  attempted := all_iff.mpr fun id c hc hattempted m hm' => by
    rw [(hs.candidates id c hc).id.1]
    exact h.charged id m c hc (h.attempted id c hc hattempted) (.inl hm')
  introduced := all_iff.mpr fun k i hi => all_iff.mpr fun id c hc hid => by
    rw [(hs.introductions k i hi).1] at hid
    have hof : s.introductionOf c = some i := Option.bind_eq_some_iff.mpr ⟨k, hid, hi⟩
    unfold EngagementStore.chargedMembers
    rw [(hs.candidates id c hc).id.1]
    by_cases hreserved : id ∈ reserved
    · have hall : (Finset.univ.filter fun j => s.Charged id (i.members j)) = Finset.univ :=
        Finset.filter_true_of_mem fun j _ =>
          h.charged id (i.members j) c hc hreserved (.inr ⟨i, hof, j, rfl⟩)
      rw [hall]
      exact ⟨by simp, fun _ => by simp⟩
    · have hnone : (Finset.univ.filter fun j => s.Charged id (i.members j)) = ∅ := by
        refine Finset.filter_false_of_mem fun j _ hcharged => ?_
        obtain ⟨row, hrow, hrid, -⟩ := hcharged
        exact hreserved (hrid ▸ hm.charges row hrow)
      rw [hnone]
      refine ⟨by simp, fun hattempted => ?_⟩
      exact absurd (h.attempted id c hc hattempted) hreserved

/-! ### The account is kept -/

/-- What a step that charges nobody does to the candidates: each was there for the same members, or is
new and pending, and none is attempted that was not reserved. -/
structure Follows (s s' : EngagementStore) (reserved : List ℕ) : Prop where
  charges : s'.charges = s.charges
  back : ∀ (id : ℕ) (c' : Candidate), s'.candidates[id]? = some c' →
    (s.sequence < id ∧ c'.state = .pending) ∨ ∃ c, s.candidates[id]? = some c ∧
      (∀ m, s'.concerns c' m ↔ s.concerns c m) ∧ (c'.state = .pending → c.state = .pending) ∧
      (c'.state.isAttempted = true → c.state.isAttempted = true ∨ id ∈ reserved)
  forward : ∀ (id : ℕ) (c : Candidate), s.candidates[id]? = some c →
    ∃ c', s'.candidates[id]? = some c' ∧ ∀ m, s'.concerns c' m ↔ s.concerns c m

theorem EngagementStore.Accounted.follows (h : s.Accounted reserved) (hm : s.Marked reserved)
    (hf : Follows s s' reserved) : s'.Accounted reserved where
  pending id c' hc' hstate hid := by
    rcases hf.back id c' hc' with ⟨hnew, -⟩ | ⟨c, hc, -, hpending, -⟩
    · have := hm.numbered id hid
      omega
    · exact h.pending id c hc (hpending hstate) hid
  attempted id c' hc' hstate := by
    rcases hf.back id c' hc' with ⟨-, hpending⟩ | ⟨c, hc, -, -, hattempted⟩
    · rw [hpending] at hstate
      cases hstate
    · exact (hattempted hstate).elim (h.attempted id c hc) fun hid => hid
  charged id m c' hc' hid hconcerns := by
    unfold EngagementStore.Charged
    rw [hf.charges]
    rcases hf.back id c' hc' with ⟨hnew, -⟩ | ⟨c, hc, hsame, -⟩
    · have := hm.numbered id hid
      omega
    · exact h.charged id m c hc hid ((hsame m).mp hconcerns)
  rows row hrow := by
    rw [hf.charges] at hrow
    obtain ⟨hat, hmember, hday, hweek, c, hc, hconcerns⟩ := h.rows row hrow
    obtain ⟨c', hc', hsame⟩ := hf.forward row.candidateId c hc
    exact ⟨hat, hmember, hday, hweek, c', hc', (hsame row.member).mpr hconcerns⟩
  distinct := by
    rw [hf.charges]
    exact h.distinct

theorem GoesOn.follows (h : GoesOn s cs is reserved) (hs : s.Core) :
    Follows s { s with candidates := cs, introductions := is } reserved where
  charges := rfl
  back id c' hc' := by
    obtain ⟨c, hc, hp⟩ := h.candidates.back hc'
    refine .inr ⟨c, hc, fun m => concerns_proceeds h.introductions hp, hp.pending, fun hattempted => ?_⟩
    have hid := hp.attempted hattempted
    rwa [(hs.candidates id c hc).id.1] at hid
  forward id c hc := by
    obtain ⟨c', hc', hp⟩ := h.candidates.forward hc
    exact ⟨c', hc', fun m => concerns_proceeds h.introductions hp⟩

/-- New records follow. -/
theorem Grows.follows {linked : Prop} (h : Grows linked s s') (hv : s.Valid K) :
    Follows s s' reserved := by
  have hsame (id : ℕ) (c : Candidate) (hc : s.candidates[id]? = some c) (m : ℕ) :
      s'.concerns c m ↔ s.concerns c m :=
    concerns_congr rfl rfl fun k hk => by
      obtain ⟨i, hi⟩ := hv.introduced hc hk
      rw [hi, h.introductions.1 k i hi]
  refine ⟨by rw [h.rest], fun id c' hc' => ?_, fun id c hc => ⟨c, h.candidates.1 id c hc, hsame id c hc⟩⟩
  rcases h.candidates.2 id c' hc' with hold | hnew
  · exact .inr ⟨c', hold, hsame id c' hold, fun h => h, .inl⟩
  · exact .inl ⟨hnew.1, hnew.2.1⟩

/-- An edited introduction is for the same members. -/
theorem follows_withEdit {id g : ℕ} {i edited : Introduction} (hi : s.introductions[id]? = some i)
    (hmembers : edited.members = i.members) : Follows s (s.withEdit id edited g) reserved := by
  have hrew : Rewrites (fun i i' : Introduction => i'.members = i.members) s.introductions
      (s.introductions.insert id edited) :=
    .insert (r := fun i i' : Introduction => i'.members = i.members) (fun _ => rfl) hi hmembers
  have hsame {c c' : Candidate} (hmember : c'.member = c.member)
      (hid : c'.introductionId = c.introductionId) (m : ℕ) :
      (s.withEdit id edited g).concerns c' m ↔ s.concerns c m :=
    concerns_congr hmember hid fun k _ => hrew.map_eq (fun _ _ h => h) k
  refine ⟨rfl, fun k c' hc' => ?_, fun k c hc => ?_⟩
  · obtain ⟨c, hc, heq⟩ := map_eq_some.mp hc'
    refine .inr ⟨c, hc, ?_⟩
    split_ifs at heq <;> subst heq
    · exact ⟨hsame rfl rfl, fun h => h, .inl⟩
    · exact ⟨hsame rfl rfl, fun h => h, .inl⟩
  · refine ⟨_, map_eq_some.mpr ⟨c, hc, rfl⟩, ?_⟩
    split_ifs
    · exact hsame rfl rfl
    · exact hsame rfl rfl

/-! ### Sound stores -/

/-- The checks pass, the charges are accounted for, and who approved an introduction has described
themselves. -/
structure EngagementStore.Sound (s : EngagementStore) (K : Crates) (reserved : List ℕ) : Prop where
  valid : s.Valid K
  accounted : s.Accounted reserved
  spoken : ∀ (id : ℕ) (i : Introduction), s.introductions[id]? = some i → i.Spoken

theorem GoesOn.fits (h : GoesOn s cs is reserved) (hv : s.Valid K) (hm : s.Marked reserved) :
    Fits s cs is s.communityReceipts s.charges reserved where
  candidates := h.candidates
  introductions := h.introductions
  announced := h.announced
  receipts := .refl (r := fun r r' : CommunityReceipt => r'.evidence = r.evidence) (fun _ => rfl) _
  attempted id c' r hc' hr := by
    obtain ⟨c, hc, hp⟩ := h.candidates.back hc'
    obtain ⟨c₀, hc₀, hproves⟩ := all_iff.mp hv.community.receipts id r hr
    cases Option.mem_unique hc₀ hc
    have hdue : c'.dueAt = c.dueAt := by rw [hp.rest]
    refine ⟨fun t ht => hdue ▸ hproves.attemptedAt t ht, fun hattempted => ?_⟩
    rcases hp.attempted hattempted with hold | hid
    · exact hproves.attempted hold
    · rw [(hv.core.candidates id c hc).id.1] at hid
      exact (hm.receipts id r hr).mpr hid
  room := hv.sizes.charges

theorem GoesOn.core (h : GoesOn s cs is reserved) (hs : s.Core) :
    EngagementStore.Core { s with candidates := cs, introductions := is } where
  candidates id c' hc' := by
    obtain ⟨c, hc, hp⟩ := h.candidates.back hc'
    have hcore := hs.candidates id c hc
    rw [hp.rest]
    exact ⟨hcore.id, hcore.introduction, hcore.linked⟩
  introductions id i' hi' := by
    obtain ⟨i, hi, hp⟩ := h.introductions.back hi'
    rw [hp.rest]
    exact hs.introductions id i hi
  receipts id r hr := by
    obtain ⟨c, hc, hfeature⟩ := hs.receipts id r hr
    obtain ⟨c', hc', hp⟩ := h.candidates.forward hc
    exact ⟨c', hc', by rw [hp.rest]; exact hfeature⟩

theorem GoesOn.marked (h : GoesOn s cs is reserved) (hs : s.Sound K reserved)
    (hm : s.Marked reserved) :
    EngagementStore.Marked { s with candidates := cs, introductions := is } reserved where
  charges := hm.charges
  candidates id c' hc' hstate := by
    obtain ⟨c, hc, hp⟩ := h.candidates.back hc'
    rcases hp.attempted (by rw [hstate]; rfl) with hold | hid
    · exact hs.accounted.attempted id c hc hold
    · rwa [(hs.valid.core.candidates id c hc).id.1] at hid
  receipts := hm.receipts
  numbered := hm.numbered

/-- **Records that go on** leave the store sound. -/
theorem GoesOn.sound (h : GoesOn s cs is reserved) (hs : s.Sound K reserved)
    (hm : s.Marked reserved) :
    EngagementStore.Sound { s with candidates := cs, introductions := is } K reserved := by
  have haccounted := hs.accounted.follows hm (h.follows hs.valid.core)
  refine ⟨(h.fits hs.valid hm).valid hs.valid
    (haccounted.chargesValid (h.core hs.valid.core) (h.marked hs hm)), haccounted, fun id i' hi' => ?_⟩
  obtain ⟨i, hi, hp⟩ := h.introductions.back hi'
  exact hp.spoken (hs.spoken id i hi)

/-- New records that pass the checks leave the store sound. -/
theorem Grows.sound {linked : Prop} (h : Grows linked s s') (hs : s.Sound K reserved)
    (hm : s.Marked reserved) (hv : s'.Valid K) : s'.Sound K reserved := by
  refine ⟨hv, hs.accounted.follows hm (h.follows hs.valid), fun id i hi => ?_⟩
  rcases h.introductions.2 id i hi with hold | ⟨-, -, hnone⟩
  · exact hs.spoken id i hold
  · intro k hk
    rw [hnone k] at hk
    cases hk

/-- An edit that passes the checks leaves the store sound. -/
theorem sound_withEdit {id g revision : ℕ} {i : Introduction} {index : Fin 2} {description : String}
    {scope : EngagementScope} {destination : ℕ} (hs : s.Sound K reserved) (hm : s.Marked reserved)
    (hi : s.introductions[id]? = some i)
    (hv : (s.withEdit id (i.edit index revision description scope destination) g).Valid K) :
    (s.withEdit id (i.edit index revision description scope destination) g).Sound K reserved := by
  refine ⟨hv, hs.accounted.follows hm (follows_withEdit hi rfl), fun k i' hi' => ?_⟩
  have hi' : (s.introductions.insert id (i.edit index revision description scope destination))[k]? =
      some i' := hi'
  rw [getElem?_insert] at hi'
  split_ifs at hi'
  · cases hi'
    exact fun j hj => by cases hj
  · exact hs.spoken k i' hi'

/-- The outcome of an attempt leaves the store sound. -/
theorem sound_settle {id : ℕ} {outcome : DeliveryOutcome} (hs : s.Sound K reserved)
    (hm : s.Marked reserved) (hid : id ∈ reserved) :
    (s.settle id outcome).2.Sound K reserved := by
  obtain ⟨e, h⟩ | ⟨c, hc, hsettles, hzero, hcases⟩ := settle_cases s id outcome
  · rw [h]
    exact hs
  · have hcid : c.id = id := (hs.valid.core.candidates id c hc).id.1
    have hstate : c.state = .reserved ∨ c.state = .cancelled := hsettles.imp_right fun h => h.1
    have hproceeds : c.Proceeds reserved (c.settle outcome) :=
      Candidate.proceeds_settled (by rw [hcid]; exact hid) hstate hzero
    obtain ⟨hmade, h⟩ | ⟨k, hk, hlost, ⟨hnone, -⟩ | ⟨i, hi, h⟩⟩ := hcases
    · rw [h]
      refine GoesOn.sound (goesOn_candidates hs.valid (.insert .refl hc ⟨hproceeds, rfl, ?_⟩)) hs hm
      intro hsome state hadmits
      have hmade : outcome.mayHaveHappened = true := hmade.resolve_left fun hnone => by
        rw [hnone] at hsome
        cases hsome
      cases outcome with
      | rejected | cancelled => cases hmade
      | sent messageId | reviewRequired =>
        rcases hstate with hstate | hstate <;> rw [hstate] at hadmits <;>
          cases state <;> first | rfl | cases hadmits
    · obtain ⟨i, hi⟩ := hs.valid.introduced hc hk
      rw [hi] at hnone
      cases hnone
    · rw [h]
      have hgoes : GoesOn s (s.candidates.insert id (c.settle outcome))
          (s.introductions.insert k i.cancel) reserved := by
        refine goesOn_introduction hs.valid hi (Introduction.proceeds_cancelled fun h => h)
          (.insert_rows hc ⟨hproceeds, fun hne => absurd hk hne, fun _ =>
            ⟨(hs.valid.announced hc hi hk).2.1, ?_⟩⟩ fun k' c' hne hc' =>
              ⟨.refl c', fun _ => rfl, fun hk' => ?_⟩)
        · cases outcome with
          | rejected | cancelled => rfl
          | sent messageId | reviewRequired => cases hlost
        · exact absurd (eq_of_nodup_column hs.valid.introductions.unique hc' hc hk' hk) hne
      exact hgoes.sound hs hm

/-! ### Reservation -/

/-- The buckets of an instant are dates. -/
theorem isDate_buckets {tz : K.Tz} {now : ℕ} {b : String × String} (h : buckets K tz now = .ok b) :
    IsDate b.1 ∧ IsDate b.2 := by
  unfold buckets at h
  simp only [bind_eq_ok, utc_eq_ok, ensure_eq_ok, exists_unit, pure_eq_ok] at h
  obtain ⟨hnow, hweek, rfl⟩ := h
  have hbounds := localDay_bounds K.toZones tz now
  have hday : InRange (localDay K.toZones tz now) := inRange_of_isInstant hnow (by omega)
  exact ⟨by rw [IsDate, parse_format hday]; rfl, by rw [IsDate, parse_format hweek]; rfl⟩

theorem EngagementStore.Admits.isDate {member now : ℕ} {b : String × String}
    (h : s.Admits K member now b) : IsDate b.1 ∧ IsDate b.2 := by
  obtain ⟨p, name, tz, -, -, -, hb⟩ := h.allowed
  exact isDate_buckets hb

/-- A charge for a pending candidate that is reserved now. -/
structure EngagementStore.Charges (s : EngagementStore) (id now : ℕ) (c : Candidate)
    (new : List ContactCharge) : Prop where
  rows : ∀ row ∈ new, row.candidateId = id ∧ row.at_ = now ∧ row.member ≠ 0 ∧
    IsDate row.localDay ∧ IsDate row.localWeek ∧ s.concerns c row.member
  all : ∀ m, s.concerns c m → ∃ row ∈ new, row.member = m
  distinct : (new.map ContactCharge.member).Nodup

/-- A reservation accounts for its candidate. -/
theorem EngagementStore.Accounted.reserves {id now : ℕ} {c c₁ : Candidate}
    {new : List ContactCharge} (h : s.Accounted reserved) (hm : s.Marked reserved)
    (hc : s.candidates[id]? = some c) (hpending : c.state = .pending) (hnow : IsInstant now)
    (hnew : s.Charges id now c new) (hcandidates : s'.candidates = s.candidates.insert id c₁)
    (hstate : c₁.state = .reserved)
    (hsame : c₁.member = c.member ∧ c₁.introductionId = c.introductionId)
    (hintroductions : ∀ k : ℕ, (s'.introductions[k]?).map Introduction.members =
      (s.introductions[k]?).map Introduction.members)
    (hcharges : s'.charges = s.charges ++ new) : s'.Accounted (id :: reserved) := by
  have hfresh : id ∉ reserved := h.pending id c hc hpending
  have hrow (k : ℕ) (c' : Candidate) : s'.candidates[k]? = some c' ↔
      (id = k ∧ c' = c₁) ∨ (id ≠ k ∧ s.candidates[k]? = some c') := by
    rw [hcandidates, getElem?_insert]
    split_ifs with hk
    · simp [hk, eq_comm]
    · simp [hk]
  have hconcerns (c c' : Candidate) (hmember : c'.member = c.member)
      (hid : c'.introductionId = c.introductionId) (m : ℕ) : s'.concerns c' m ↔ s.concerns c m :=
    concerns_congr hmember hid fun k _ => hintroductions k
  have hthis (m : ℕ) : s'.concerns c₁ m ↔ s.concerns c m := hconcerns c c₁ hsame.1 hsame.2 m
  refine ⟨fun k c' hc' hp hk => ?_, fun k c' hc' hattempted => ?_, fun k m c' hc' hk hconc => ?_,
    fun row hrow' => ?_, ?_⟩
  · rcases (hrow k c').mp hc' with ⟨rfl, rfl⟩ | ⟨hne, hold⟩
    · rw [hstate] at hp
      cases hp
    · exact h.pending k c' hold hp ((List.mem_cons.mp hk).resolve_left fun heq => hne heq.symm)
  · rcases (hrow k c').mp hc' with ⟨rfl, -⟩ | ⟨-, hold⟩
    · exact List.mem_cons_self
    · exact List.mem_cons_of_mem _ (h.attempted k c' hold hattempted)
  · unfold EngagementStore.Charged
    rw [hcharges]
    rcases (hrow k c').mp hc' with ⟨rfl, rfl⟩ | ⟨hne, hold⟩
    · obtain ⟨row, hmem, hmember⟩ := hnew.all m ((hthis m).mp hconc)
      exact ⟨row, List.mem_append_right _ hmem, (hnew.rows row hmem).1, hmember⟩
    · have hk := (List.mem_cons.mp hk).resolve_left fun heq => hne heq.symm
      obtain ⟨row, hmem, hrow⟩ := h.charged k m c' hold hk ((hconcerns c' c' rfl rfl m).mp hconc)
      exact ⟨row, List.mem_append_left _ hmem, hrow⟩
  · rw [hcharges] at hrow'
    rcases List.mem_append.mp hrow' with hold | hmem
    · obtain ⟨hat, hmember, hday, hweek, c', hc', hconc⟩ := h.rows row hold
      have hne : id ≠ row.candidateId := fun heq => hfresh (heq ▸ hm.charges row hold)
      exact ⟨hat, hmember, hday, hweek, c', (hrow _ c').mpr (.inr ⟨hne, hc'⟩),
        (hconcerns c' c' rfl rfl _).mpr hconc⟩
    · obtain ⟨hid, hat, hmember, hday, hweek, hconc⟩ := hnew.rows row hmem
      exact ⟨hat ▸ hnow, hmember, hday, hweek, c₁, (hrow _ c₁).mpr (.inl ⟨hid.symm, rfl⟩),
        (hthis _).mpr hconc⟩
  · rw [hcharges, List.map_append, List.nodup_append]
    refine ⟨h.distinct, ?_, fun a ha b hb heq => ?_⟩
    · have hpairs : new.map (fun row => (row.candidateId, row.member)) =
          (new.map ContactCharge.member).map fun m => (id, m) := by
        rw [List.map_map]
        exact List.map_congr_left fun row hmem => by rw [(hnew.rows row hmem).1]; rfl
      rw [hpairs]
      exact hnew.distinct.map fun a b heq => (Prod.mk.inj heq).2
    · obtain ⟨row, hold, rfl⟩ := List.mem_map.mp ha
      obtain ⟨row', hmem, rfl⟩ := List.mem_map.mp hb
      refine hfresh ?_
      rw [← (hnew.rows row' hmem).1, ← (Prod.mk.inj heq).1]
      exact hm.charges row hold

/-- The receipts after a reservation are of attempts. -/
theorem attempted_reserved {id now policyRevision : ℕ} {c : Candidate}
    {destination : DestinationPreference} (hv : s.Valid K) (hdue : c.dueAt ≤ now)
    (hnow : IsInstant now) (k : ℕ) (c' : Candidate) (r' : CommunityReceipt)
    (hc' : (s.candidates.insert id (c.reserve policyRevision destination))[k]? = some c')
    (hr' : (s.communityReceipts.modify id fun r => { r with attemptedAt := some now })[k]? =
      some r') : (∀ t ∈ r'.attemptedAt, c'.dueAt ≤ t ∧ IsInstant t) ∧
        (c'.state.isAttempted = true → r'.attemptedAt.isSome = true) := by
  rw [getElem?_insert] at hc'
  rw [getElem?_modify] at hr'
  split_ifs at hc' hr' with hk
  · obtain ⟨r, -, rfl⟩ := Option.map_eq_some_iff.mp hr'
    cases hc'
    exact ⟨fun t ht => by cases ht; exact ⟨hdue, hnow⟩, fun _ => rfl⟩
  · obtain ⟨c₀, hc₀, hproves⟩ := all_iff.mp hv.community.receipts k r' hr'
    cases Option.mem_unique hc₀ hc'
    exact ⟨hproves.attemptedAt, hproves.attempted⟩

/-- A contact that announces no introduction is reserved. -/
theorem fits_withReserved {id now policyRevision : ℕ} {c : Candidate}
    {destination : DestinationPreference} {new : List ContactCharge} (hv : s.Valid K)
    (hc : s.candidates[id]? = some c) (hpending : c.state = .pending) (hdue : c.dueAt ≤ now)
    (hnow : IsInstant now) (hnone : c.introductionId = none)
    (hgoes : c.kind.feature.isSome = true → c.destination = .origin → destination = .origin)
    (hroom : (s.charges ++ new).length + s.erasedContactCharges.length ≤ 20000) :
    Fits s (s.candidates.insert id (c.reserve policyRevision destination)) s.introductions
      (s.communityReceipts.modify id fun r => { r with attemptedAt := some now })
      (s.charges ++ new) (id :: reserved) where
  candidates := by
    have hcore := hv.core.candidates id c hc
    refine .insert .refl hc (Candidate.proceeds_reserved hpending ?_ fun h => ?_)
    · rw [hcore.id.1]
      exact List.mem_cons_self
    · refine h.elim (fun hkind => ?_) hgoes
      have hsome := hcore.introduction.mp hkind
      rw [hnone] at hsome
      cases hsome
  introductions := .refl Introduction.Proceeds.refl _
  announced k k' c' i hc' hi hid := by
    rw [getElem?_insert] at hc'
    split_ifs at hc'
    · cases hc'
      have hid : c.introductionId = some k' := hid
      rw [hnone] at hid
      cases hid
    · exact (hv.announced hc' hi hid).2
  receipts := .modify (r := fun r r' : CommunityReceipt => r'.evidence = r.evidence) (fun _ => rfl)
    fun _ => rfl
  attempted := attempted_reserved hv hdue hnow
  room := hroom

/-- An introduction is reserved with both its members. -/
theorem fits_withIntroductionReserved {id : ℕ} {c : Candidate} {i : Introduction}
    {new : List ContactCharge} (hv : s.Valid K) (hc : s.candidates[id]? = some c)
    (hpending : c.state = .pending) (hcurrent : s.IntroductionReceiptCurrent K c)
    (hof : s.introductionOf c = some i)
    (hroom : (s.charges ++ new).length + s.erasedContactCharges.length ≤ 20000) :
    Fits s (s.candidates.insert id { c with state := .reserved })
      (s.introductions.insert i.id { i with state := .consumed }) s.communityReceipts
      (s.charges ++ new) (id :: reserved) := by
  obtain ⟨hkind, -, -, -, -, i₁, hi₁, -, -, -, happroved, hown, -⟩ := hcurrent
  cases Option.mem_unique hi₁ hof
  obtain ⟨k, hk, hi⟩ := Option.bind_eq_some_iff.mp hof
  obtain rfl : i.id = k := (hv.core.introductions k i hi).1
  have hproceeds : i.Proceeds { i with state := .consumed } :=
    Introduction.proceeds_consumed happroved fun k => by
      obtain ⟨text, htext, -⟩ := hown k
      rw [htext]
      rfl
  have hcore := hv.core.candidates id c hc
  have hreserved : c.Proceeds (id :: reserved) { c with state := .reserved } :=
    Candidate.proceeds_reserved hpending (by rw [hcore.id.1]; exact List.mem_cons_self) fun _ h => h
  have hgoes : GoesOn s (s.candidates.insert id { c with state := .reserved })
      (s.introductions.insert i.id { i with state := .consumed }) (id :: reserved) :=
    goesOn_introduction hv hi hproceeds (.insert_rows hc
      ⟨hreserved, fun hne => absurd hk hne, fun _ => ⟨(hv.announced hc hi hk).2.1, rfl⟩⟩
      fun k' c' hne hc' => ⟨.refl c', fun _ => rfl, fun hk' =>
        absurd (eq_of_nodup_column hv.introductions.unique hc' hc hk' hk) hne⟩)
  refine ⟨hgoes.candidates, hgoes.introductions, hgoes.announced,
    .refl (r := fun r r' : CommunityReceipt => r'.evidence = r.evidence) (fun _ => rfl) _,
    fun k' c' r hc' hr => ?_, hroom⟩
  -- an introduction has no community receipt
  have hne : id ≠ k' := by
    rintro rfl
    obtain ⟨c₀, hc₀, hfeature⟩ := hv.core.receipts id r hr
    rw [hc] at hc₀
    cases hc₀
    rw [hkind] at hfeature
    cases hfeature
  rw [getElem?_insert, if_neg hne] at hc'
  obtain ⟨c₀, hc₀, hproves⟩ := all_iff.mp hv.community.receipts k' r hr
  cases Option.mem_unique hc₀ hc'
  exact ⟨hproves.attemptedAt, hproves.attempted⟩


/-- The only public contact with one member is a check-in for a project, which goes to its origin. -/
theorem contactDestination_origin {id member : ℕ} {c : Candidate} {p : MemberPolicy}
    {destination : DestinationPreference} (hv : s.Valid K) (hc : s.candidates[id]? = some c)
    (hmember : c.member = some member) (hcurrent : s.CommunityReceiptCurrent c)
    (h : c.contactDestination p = .ok destination) : destination = .origin := by
  obtain ⟨-, g, -, r, hr, -⟩ := hcurrent
  have hcore := hv.core.candidates id c hc
  rw [hcore.id.1] at hr
  obtain ⟨c', hc', hproves⟩ := all_iff.mp hv.community.receipts id r hr
  cases Option.mem_unique hc' hc
  have hsupports := hproves.supports
  have hkind : c.kind = .projectCheckIn := by
    cases hevidence : r.evidence <;> rw [hevidence] at hsupports
    · rw [hsupports.2.2] at hmember
      cases hmember
    · rw [hsupports.2.2.2.2.2] at hmember
      cases hmember
    · exact hsupports.1
  have hwork : ¬ c.workRef.isSome = true := fun hwork => by
    rw [hcore.linked hwork] at hkind
    cases hkind
  rw [Candidate.contactDestination, if_neg hwork, if_pos hkind] at h
  cases h
  rfl

/-- Both members of an introduction are charged for it. -/
theorem charges_introduction {id now : ℕ} {c : Candidate} {i : Introduction} {b₀ b₁ : String × String}
    (hnobody : c.member = none) (hof : s.introductionOf c = some i)
    (hnonzero : ∀ k, i.members k ≠ 0) (hdistinct : i.members 0 ≠ i.members 1)
    (hadmits₀ : s.Admits K (i.members 0) now b₀) (hadmits₁ : s.Admits K (i.members 1) now b₁) :
    s.Charges id now c [chargeOf id (i.members 0) now b₀, chargeOf id (i.members 1) now b₁] := by
  have hconcerns (m : ℕ) : s.concerns c m ↔ ∃ k, i.members k = m := by
    unfold EngagementStore.concerns
    rw [hof, hnobody]
    simp
  refine ⟨fun row hrow => ?_, fun m hconc => ?_, ?_⟩
  · rcases List.mem_pair.mp hrow with rfl | rfl
    · exact ⟨rfl, rfl, hnonzero 0, hadmits₀.isDate.1, hadmits₀.isDate.2, (hconcerns _).mpr ⟨0, rfl⟩⟩
    · exact ⟨rfl, rfl, hnonzero 1, hadmits₁.isDate.1, hadmits₁.isDate.2, (hconcerns _).mpr ⟨1, rfl⟩⟩
  · obtain ⟨j, rfl⟩ := (hconcerns m).mp hconc
    rcases Fin.exists_fin_two.mp ⟨j, rfl⟩ with rfl | rfl
    · exact ⟨_, List.mem_cons_self, rfl⟩
    · exact ⟨_, List.mem_cons_of_mem _ List.mem_cons_self, rfl⟩
  · simpa [chargeOf] using hdistinct

/-- Nobody is charged for a candidate that is for nobody. -/
theorem charges_nobody {id now : ℕ} {c : Candidate} (hnobody : c.member = none)
    (hnone : c.introductionId = none) : s.Charges id now c [] := by
  refine ⟨fun row hrow => (List.not_mem_nil hrow).elim, fun m hconc => ?_, List.nodup_nil⟩
  unfold EngagementStore.concerns EngagementStore.introductionOf at hconc
  rw [hnobody, hnone] at hconc
  simp at hconc

/-- The member that is contacted is charged. -/
theorem charges_contact {id now member : ℕ} {c : Candidate} {b : String × String}
    (hsomebody : c.member = some member) (hnone : c.introductionId = none) (hnonzero : member ≠ 0)
    (hadmits : s.Admits K member now b) : s.Charges id now c [chargeOf id member now b] := by
  have hconcerns (m : ℕ) : s.concerns c m ↔ member = m := by
    unfold EngagementStore.concerns EngagementStore.introductionOf
    rw [hsomebody, hnone]
    simp
  refine ⟨fun row hmem => ?_, fun m hconc => ?_, List.nodup_singleton _⟩
  · cases List.mem_singleton.mp hmem
    exact ⟨rfl, rfl, hnonzero, hadmits.isDate.1, hadmits.isDate.2, (hconcerns _).mpr rfl⟩
  · exact ⟨_, List.mem_singleton_self _, (hconcerns m).mp hconc⟩

/-- **A reservation** leaves the store sound, with its candidate among the reserved. -/
theorem sound_reserves {id now : ℕ} {c : Candidate} {r : EngagementReservation}
    (hs : s.Sound K reserved) (hm : s.Marked reserved) (hc : s.candidates[id]? = some c)
    (hpending : c.state = .pending) (hdue : c.dueAt ≤ now) (hnow : IsInstant now)
    (h : s.Reserves K id now c r s') : s'.Sound K (id :: reserved) := by
  have hv := hs.valid
  have hm' : s'.Marked (id :: reserved) := Reserves.marked hv.core hc h hm
  have hcore' : s'.Core := (moves_reserves hv.core hc h).core hv.core
  have hcore := hv.core.candidates id c hc
  have hrow := all_iff.mp hv.candidates.rows id c hc
  cases h with
  | introduction i b₀ b₁ hcurrent hof hroom hadmits₀ hadmits₁ =>
    obtain ⟨k, hk, hi⟩ := Option.bind_eq_some_iff.mp hof
    have hmembers := (all_iff.mp hv.introductions.rows k i hi).members
    have hnew : s.Charges id now c
        [chargeOf id (i.members 0) now b₀, chargeOf id (i.members 1) now b₁] :=
      charges_introduction (hrow.introduction hcurrent.1).1 hof hmembers.1 hmembers.2 hadmits₀ hadmits₁
    have hfits : Fits s (s.candidates.insert id { c with state := .reserved })
        (s.introductions.insert i.id { i with state := .consumed }) s.communityReceipts
        (s.charges ++ [chargeOf id (i.members 0) now b₀, chargeOf id (i.members 1) now b₁])
        (id :: reserved) :=
      fits_withIntroductionReserved hv hc hpending hcurrent hof
        (by rw [List.length_append]; simp only [List.length_cons, List.length_nil]; omega)
    have haccounted : (s.withIntroductionReserved id now c i b₀ b₁).Accounted (id :: reserved) :=
      hs.accounted.reserves hm hc hpending hnow hnew rfl rfl ⟨rfl, rfl⟩
        (hfits.introductions.map_eq fun i i' h => by rw [h.rest]) rfl
    refine ⟨hfits.valid hv (haccounted.chargesValid hcore' hm'), haccounted, fun k i' hi' => ?_⟩
    obtain ⟨i₀, hi₀, hp⟩ := hfits.introductions.back hi'
    exact hp.spoken (hs.spoken k i₀ hi₀)
  | publicly receipt hfeature hcurrent hstored hnobody =>
    have hkind : c.kind ≠ .introduction := fun h => by rw [h] at hfeature; cases hfeature
    have hnone := unannounced_of_kind hv.core hc hkind
    have hnew : s.Charges id now c [] := charges_nobody hnobody hnone
    have haccounted : (s.withReserved id now c receipt.policyRevision .origin []).Accounted
        (id :: reserved) :=
      hs.accounted.reserves hm hc hpending hnow hnew rfl rfl ⟨rfl, rfl⟩ (fun _ => rfl) rfl
    have hfits : Fits s (s.candidates.insert id (c.reserve receipt.policyRevision .origin))
        s.introductions (s.communityReceipts.modify id fun r => { r with attemptedAt := some now })
        (s.charges ++ []) (id :: reserved) :=
      fits_withReserved hv hc hpending hdue hnow hnone (fun _ _ => rfl)
        (by rw [List.append_nil]; exact hv.sizes.charges)
    exact ⟨hfits.valid hv (haccounted.chargesValid hcore' hm'), haccounted, hs.spoken⟩
  | contact member b p destination hkind hsomebody hcurrent hadmits hroom hgoes =>
    have hnone := unannounced_of_kind hv.core hc hkind
    have hnew : s.Charges id now c [chargeOf id member now b] :=
      charges_contact hsomebody hnone (hrow.member member hsomebody).1 hadmits
    have haccounted : (s.withReserved id now c p.revision destination
        [chargeOf id member now b]).Accounted (id :: reserved) :=
      hs.accounted.reserves hm hc hpending hnow hnew rfl rfl ⟨rfl, rfl⟩ (fun _ => rfl) rfl
    have hfits : Fits s (s.candidates.insert id (c.reserve p.revision destination)) s.introductions
        (s.communityReceipts.modify id fun r => { r with attemptedAt := some now })
        (s.charges ++ [chargeOf id member now b]) (id :: reserved) :=
      fits_withReserved hv hc hpending hdue hnow hnone
        (fun hfeature _ => contactDestination_origin hv hc hsomebody (hcurrent hfeature) hgoes)
        (by rw [List.length_append]; simp only [List.length_cons, List.length_nil]; omega)
    exact ⟨hfits.valid hv (haccounted.chargesValid hcore' hm'), haccounted, hs.spoken⟩

end AbbeyBot.Engagement
