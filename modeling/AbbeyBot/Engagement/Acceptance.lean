import Mathlib
import AbbeyBot.Engagement.Accounts
import AbbeyBot.Engagement.Weekly

/-! # Acceptance

A store is read back only if it passes the checks, and about half of the operations do not make them.
Every store that the operations reach passes them nevertheless, as long as only reserved candidates
are settled: new records are checked, the others go on, and an erasure takes from every table what is
linked to what it takes from another. -/

namespace AbbeyBot.Engagement

open AbbeyBot.Calendar AbbeyBot.Library.CivilDate AbbeyBot.Library.History
open AbbeyBot.Library.OrderedMap AbbeyBot.Library.Result AbbeyBot.Library.Text AbbeyBot.Work.Types

variable {K : Crates} {s : EngagementStore} {reserved : List ℕ}

/-! ### Erasure -/

section Erasure

variable {scope : String} {member : Option ℕ}

theorem candidate_kept {id : ℕ} {c : Candidate} :
    (s.erased K scope member).candidates[id]? = some c ↔
      s.candidates[id]? = some c ∧ id ∉ s.erasedCandidates scope member := by
  unfold EngagementStore.erased
  rw [filter_eq_some, decide_eq_true_eq]

theorem introduction_kept {id : ℕ} {i : Introduction} :
    (s.erased K scope member).introductions[id]? = some i ↔
      s.introductions[id]? = some i ∧ id ∉ s.erasedIntroductions scope member := by
  unfold EngagementStore.erased
  rw [filter_eq_some, decide_eq_true_eq]

/-- The introduction that a candidate announces is kept with it. -/
theorem EngagementStore.Valid.keeps_introduction {k id : ℕ} {c : Candidate} (hv : s.Valid K)
    (hc : s.candidates[k]? = some c) (hkept : k ∉ s.erasedCandidates scope member)
    (hid : c.introductionId = some id) : id ∉ s.erasedIntroductions scope member := by
  intro hgone
  obtain ⟨i, hi, hscope, hlinked⟩ := mem_erasedIntroductions.mp hgone
  refine hkept (mem_erasedCandidates.mpr ⟨c, hc, ?_, ?_⟩)
  · rw [← (hv.announced hc hi hid).1]
    exact hscope
  · exact .inr (.inr (.inr (.inr ⟨i, Option.bind_eq_some_iff.mpr ⟨id, hid, hi⟩, hscope, hlinked⟩)))

/-- The candidate that announces an introduction is kept with it. -/
theorem EngagementStore.Valid.keeps_announcement {k id : ℕ} {c : Candidate} {i : Introduction}
    (hv : s.Valid K) (hc : s.candidates[k]? = some c) (hi : s.introductions[id]? = some i)
    (hid : c.introductionId = some id) (hkept : id ∉ s.erasedIntroductions scope member) :
    k ∉ s.erasedCandidates scope member := by
  intro hgone
  obtain ⟨c', hc', hscope, hlinked⟩ := mem_erasedCandidates.mp hgone
  rw [hc] at hc'
  cases hc'
  have hcore := hv.core.candidates k c hc
  have hkind : c.kind = .introduction := hcore.introduction.mpr (by rw [hid]; rfl)
  obtain ⟨hnobody, hnosource, -⟩ := (all_iff.mp hv.candidates.rows k c hc).introduction hkind
  rw [← (hv.announced hc hi hid).1] at hscope
  rcases hlinked with hall | ⟨m, hm, -⟩ | ⟨source, hsource, -⟩ | ⟨r, hr, -⟩ | ⟨i', hi', hlinked⟩
  · exact hkept (mem_erasedIntroductions.mpr ⟨i, hi, hscope, .inl hall⟩)
  · rw [hnobody] at hm
    cases hm
  · rw [hnosource] at hsource
    cases hsource
  · rw [hcore.id.1] at hr
    obtain ⟨c₀, hc₀, hfeature⟩ := hv.core.receipts k r hr
    rw [hc] at hc₀
    cases hc₀
    rw [hkind] at hfeature
    cases hfeature
  · have hof : s.introductionOf c = some i := Option.bind_eq_some_iff.mpr ⟨id, hid, hi⟩
    cases Option.mem_unique hi' hof
    exact hkept (mem_erasedIntroductions.mpr ⟨i, hi, hlinked⟩)

/-- No guild feature governs an invitation. -/
theorem feature_of_isInvitation {kind : EngagementKind} (h : kind.isInvitation = true) :
    kind.feature = none := by
  cases kind <;> first | rfl | cases h

/-- A request is kept with its candidate. -/
theorem EngagementStore.Valid.keeps_request {id : ℕ} {c : Candidate} {r : InvitationRequest}
    (hv : s.Valid K) (hc : s.candidates[id]? = some c) (hr : s.invitationRequests[id]? = some r) :
    id ∈ s.erasedCandidates scope member ↔ r.Linked scope member := by
  obtain ⟨c', hc', hproves⟩ := all_iff.mp hv.invitations.requests.1 id r hr
  cases Option.mem_unique hc' hc
  have hcore := hv.core.candidates id c hc
  have hinvitation := hproves.kind
  have hnone : c.introductionId = none := unannounced_of_kind hv.core hc fun hkind => by
    rw [hkind] at hinvitation
    cases hinvitation
  constructor
  · intro hgone
    obtain ⟨c₀, hc₀, hscope, hlinked⟩ := mem_erasedCandidates.mp hgone
    rw [hc] at hc₀
    cases hc₀
    rw [hproves.scope] at hscope
    refine ⟨hscope, ?_⟩
    rcases hlinked with hall | ⟨m, hm, hown⟩ | ⟨source, hsource, -⟩ | ⟨r', hr', -⟩ | ⟨i, hi, -⟩
    · rw [hall]
      exact fun v hv => by cases hv
    · rw [hproves.member.2] at hm
      cases hm
      exact hown
    · rw [hproves.source] at hsource
      cases hsource
    · rw [hcore.id.1] at hr'
      obtain ⟨c₀, hc₀, hfeature⟩ := hv.core.receipts id r' hr'
      rw [hc] at hc₀
      cases hc₀
      rw [feature_of_isInvitation hinvitation] at hfeature
      cases hfeature
    · unfold EngagementStore.introductionOf at hi
      rw [hnone] at hi
      cases hi
  · rintro ⟨hscope, hown⟩
    exact mem_erasedCandidates.mpr ⟨c, hc, by rw [hproves.scope]; exact hscope,
      .inr (.inl ⟨r.member, hproves.member.2, hown⟩)⟩

/-- A candidate that is kept concerns the same members. -/
theorem EngagementStore.Valid.concerns_erased {id : ℕ} {c : Candidate} (hv : s.Valid K)
    (hc : s.candidates[id]? = some c) (hkept : id ∉ s.erasedCandidates scope member) (m : ℕ) :
    (s.erased K scope member).concerns c m ↔ s.concerns c m :=
  concerns_congr rfl rfl fun k hk => by
    obtain ⟨i, hi⟩ := hv.introduced hc hk
    rw [hi, introduction_kept.mpr ⟨hi, hv.keeps_introduction hc hkept hk⟩]

theorem EngagementStore.Accounted.erased (h : s.Accounted reserved) (hv : s.Valid K) :
    (s.erased K scope member).Accounted reserved where
  pending id c hc := h.pending id c (candidate_kept.mp hc).1
  attempted id c hc := h.attempted id c (candidate_kept.mp hc).1
  charged id m c hc hid hconcerns := by
    obtain ⟨hrow, hkept⟩ := candidate_kept.mp hc
    obtain ⟨row, hmem, hrid, hmember⟩ :=
      h.charged id m c hrow hid ((hv.concerns_erased hrow hkept m).mp hconcerns)
    exact ⟨row, List.mem_filter.mpr ⟨hmem, decide_eq_true (hrid.symm ▸ hkept)⟩, hrid, hmember⟩
  rows row hrow := by
    obtain ⟨hmem, hkept⟩ := List.mem_filter.mp hrow
    rw [decide_eq_true_eq] at hkept
    obtain ⟨hat, hmember, hday, hweek, c, hc, hconcerns⟩ := h.rows row hmem
    exact ⟨hat, hmember, hday, hweek, c, candidate_kept.mpr ⟨hc, hkept⟩,
      (hv.concerns_erased hc hkept row.member).mpr hconcerns⟩
  distinct := h.distinct.sublist (List.filter_sublist.map _)

/-! ### What outlives an erasure is in order -/

/-- The attempts that an erasure moves are no more than the receipts that it removes. -/
theorem length_movedCommunityCharges_add_le (s : EngagementStore) (scope : String)
    (member : Option ℕ) : (s.movedCommunityCharges K scope member).length +
      (s.erased K scope member).communityReceipts.size ≤ s.communityReceipts.size := by
  have hmoved : (s.movedCommunityCharges K scope member).length ≤
      (s.communityReceipts.filter fun id _ =>
        !decide (id ∉ s.erasedCandidates scope member)).size := by
    unfold EngagementStore.movedCommunityCharges
    rw [List.length_filterMap_eq_countP]
    refine le_trans (List.countP_mono_left (q := fun kv =>
      (s.communityReceipts[kv.1]?).isSome) fun kv _ h => ?_) ?_
    · cases hr : s.communityReceipts[kv.1]? with
      | none => rw [hr] at h; cases h
      | some r => rfl
    · rw [List.countP_eq_length_filter, ← Std.ExtTreeMap.toList_filter (f := fun id _ =>
        (s.communityReceipts[id]?).isSome), Std.ExtTreeMap.length_toList]
      refine size_le_of_keys fun id c hrow => ?_
      obtain ⟨hgone, hsome⟩ := filter_eq_some.mp hrow
      obtain ⟨r, hr⟩ := Option.isSome_iff_exists.mp hsome
      have hmem : id ∈ s.erasedCandidates scope member := mem_iff.mpr ⟨c, hgone⟩
      exact ⟨r, filter_eq_some.mpr ⟨hr, by simp [hmem]⟩⟩
  have hsum := size_filter_add s.communityReceipts fun id _ =>
    decide (id ∉ s.erasedCandidates scope member)
  have hkept : (s.erased K scope member).communityReceipts = s.communityReceipts.filter
      fun id _ => decide (id ∉ s.erasedCandidates scope member) := rfl
  rw [hkept]
  omega

/-- The charges that an erasure moves are those that it removes. -/
theorem length_movedContactCharges_add (s : EngagementStore) (scope : String)
    (member : Option ℕ) : (s.movedContactCharges scope member).length +
      (s.erased K scope member).charges.length = s.charges.length := by
  have hsum := List.length_eq_length_filter_add (l := s.charges)
    fun c => decide (c.candidateId ∈ s.erasedCandidates scope member)
  have hkept : (s.erased K scope member).charges = s.charges.filter
      fun c => !decide (c.candidateId ∈ s.erasedCandidates scope member) := by
    unfold EngagementStore.erased
    simp
  rw [hkept, EngagementStore.movedContactCharges, List.length_map]
  exact hsum.symm

theorem isDigest_of_mem_identitiesAfter (hv : s.Valid K) {e : String}
    (he : e ∈ s.identitiesAfter K scope member) : isDigest e = true := by
  have hdigest (e : ErasedIdentity) : isDigest (K.digest e) = true :=
    isDigest_of_isLowerDigest (K.isLowerDigest_digest e)
  unfold EngagementStore.identitiesAfter at he
  rw [Finset.mem_union, List.mem_toFinset, List.mem_append, List.mem_append] at he
  rcases he with hold | (hi | hc) | hr
  · exact hv.erased.identities.2 e hold
  · obtain ⟨i, -, rfl⟩ := List.mem_map.mp hi
    exact hdigest _
  · obtain ⟨kv, -, hmem⟩ := List.mem_flatMap.mp hc
    unfold EngagementStore.identitiesOf at hmem
    simp only [List.mem_append] at hmem
    rcases hmem with ((hw | hk) | hrec) | hreq
    · cases htask : kv.2.workRef with
      | none => rw [htask] at hw; cases hw
      | some task =>
        rw [htask] at hw
        rw [List.mem_singleton.mp hw]
        exact hdigest _
    · split_ifs at hk
      · rw [List.mem_singleton.mp hk]
        exact hdigest _
      · cases hk
    · cases hreceipt : s.communityReceipts[kv.1]? with
      | none => rw [hreceipt] at hrec; cases hrec
      | some r =>
        rw [hreceipt] at hrec
        rw [List.mem_singleton.mp hrec]
        exact hdigest _
    · cases hrequest : s.invitationRequests[kv.1]? with
      | none => rw [hrequest] at hreq; cases hreq
      | some r =>
        rw [hrequest] at hreq
        rw [List.mem_singleton.mp hreq]
        exact hdigest _
  · obtain ⟨r, -, rfl⟩ := List.mem_map.mp hr
    exact hdigest _

theorem EngagementStore.Sound.erased_erasedValid (hs : s.Sound K reserved)
    (hroom : (s.identitiesAfter K scope member).card ≤ 10000) :
    (s.erased K scope member).ErasedValid := by
  have hv := hs.valid
  refine ⟨⟨hroom, fun e he => isDigest_of_mem_identitiesAfter hv he⟩, ⟨?_, ?_⟩, fun c hc => ?_,
    fun c hc => ?_⟩
  · have hlength := length_movedContactCharges_add (K := K) s scope member
    have hsizes := hv.erased.sizes.1
    show (s.erasedContactCharges ++ s.movedContactCharges scope member).length + _ ≤ 20000
    rw [List.length_append]
    omega
  · have hlength := length_movedCommunityCharges_add_le (K := K) s scope member
    have hsizes := hv.erased.sizes.2
    show (s.erasedCommunityCharges ++ s.movedCommunityCharges K scope member).length + _ ≤ 10000
    rw [List.length_append]
    omega
  · rcases List.mem_append.mp hc with hold | hmoved
    · exact hv.erased.contact c hold
    · obtain ⟨row, hrow, rfl⟩ := List.mem_map.mp hmoved
      obtain ⟨hat, hmember, hday, hweek, -⟩ := hs.accounted.rows row (List.mem_filter.mp hrow).1
      exact ⟨hmember, hat, hday, hweek⟩
  · rcases List.mem_append.mp hc with hold | hmoved
    · exact hv.erased.community c hold
    · obtain ⟨⟨id, candidate⟩, hrow, hcharge⟩ := List.mem_filterMap.mp hmoved
      obtain ⟨r, hr, hat⟩ := Option.bind_eq_some_iff.mp hcharge
      obtain ⟨t, ht, rfl⟩ := Option.map_eq_some_iff.mp hat
      rw [Std.ExtTreeMap.mem_toList_iff_getElem?_eq_some] at hrow
      have hstored := (filter_eq_some.mp hrow).1
      obtain ⟨c', hc', hproves⟩ := all_iff.mp hv.community.receipts id r hr
      cases Option.mem_unique hc' hstored
      refine ⟨(all_iff.mp hv.candidates.rows id candidate hstored).scope, (hproves.attemptedAt t ht).2,
        hproves.feature, ?_, fun p hp => ?_⟩
      · have hsupports := hproves.supports
        show candidate.kind = .projectCheckIn ↔ (r.evidence.project?.map (projectIdentity K)).isSome
        cases hevidence : r.evidence <;> rw [hevidence] at hsupports
        · rcases hsupports.1 with hkind | hkind <;> rw [hkind] <;> simp [CommunityEvidence.project?]
        · rw [hsupports.1]
          simp [CommunityEvidence.project?]
        · rw [hsupports.1]
          simp [CommunityEvidence.project?]
      · obtain ⟨project, -, rfl⟩ := Option.map_eq_some_iff.mp hp
        exact isDigest_of_isLowerDigest (K.isLowerDigest_digest _)

/-! ### What is kept is in order -/

/-- Tables that lose entries, or are dropped, have no more entries. -/
theorem entries_filter_map_le {α β : Type} [Ord α] [Std.TransOrd α] {m : BTreeMap α β}
    {f : β → ℕ} {g : α → β → β} {p : α → β → Bool} (hg : ∀ k v, f (g k v) ≤ f v) :
    entries ((m.map g).filter p) f ≤ entries m f := by
  unfold entries values
  rw [Std.ExtTreeMap.toList_filter, Std.ExtTreeMap.toList_map]
  induction m.toList with
  | nil => exact le_rfl
  | cons kv l ih =>
    rw [List.map_cons, List.filter_cons]
    simp only [List.map_cons, List.sum_cons]
    split_ifs
    · simp only [List.map_cons, List.sum_cons]
      exact Nat.add_le_add (hg kv.1 kv.2) ih
    · exact le_trans ih (Nat.le_add_left _ _)

theorem EngagementStore.Valid.erased_candidates (hv : s.Valid K) :
    (s.erased K scope member).CandidatesValid where
  rows := all_iff.mpr fun id c hc => all_iff.mp hv.candidates.rows id c (candidate_kept.mp hc).1
  dedupeKeys := nodup_column_filter hv.candidates.dedupeKeys
  sources := nodup_column_filter hv.candidates.sources
  introductions := all_iff.mpr fun id c hc => by
    obtain ⟨hrow, hkept⟩ := candidate_kept.mp hc
    obtain ⟨hkind, hmatches⟩ := all_iff.mp hv.candidates.introductions id c hrow
    refine ⟨hkind, fun k hk => ?_⟩
    obtain ⟨i, hi, hscope, hrevision⟩ := hmatches k hk
    exact ⟨i, introduction_kept.mpr ⟨hi, hv.keeps_introduction hrow hkept hk⟩, hscope, hrevision⟩

theorem EngagementStore.Valid.erased_introductions (hv : s.Valid K) :
    (s.erased K scope member).IntroductionsValid := by
  have hunique : (column (s.erased K scope member).candidates Candidate.introductionId).Nodup :=
    nodup_column_filter hv.introductions.unique
  refine ⟨hunique, all_iff.mpr fun id i hi => ?_, all_iff.mpr fun id i hi => ?_⟩
  · exact all_iff.mp hv.introductions.rows id i (introduction_kept.mp hi).1
  · obtain ⟨hrow, hkept⟩ := introduction_kept.mp hi
    have hid : i.id = id := (all_iff.mp hv.introductions.rows id i hrow).id.2.1
    obtain ⟨c, hc, hadmits⟩ := all_iff.mp hv.introductions.announced id i hrow
    obtain ⟨k, hk, hannounces⟩ := announcement_some hc
    have hannounces' : c.introductionId = some id := hannounces.trans (by rw [hid])
    have hstays := candidate_kept (K := K).mpr
      ⟨hk, hv.keeps_announcement hk hrow hannounces' hkept⟩
    exact ⟨c, announcement_eq hunique hstays hannounces, hadmits⟩

theorem EngagementStore.Valid.erased_invitations (hv : s.Valid K) :
    (s.erased K scope member).InvitationsValid := by
  have hrequest {id : ℕ} {r : InvitationRequest} :
      (s.erased K scope member).invitationRequests[id]? = some r ↔
        s.invitationRequests[id]? = some r ∧ ¬ r.Linked scope member := by
    unfold EngagementStore.erased
    rw [filter_eq_some, decide_eq_true_eq]
  refine ⟨⟨?_, ?_⟩, ⟨all_iff.mpr fun id r hr => ?_, ?_⟩, all_iff.mpr fun interaction r hr => ?_,
    all_iff.mpr fun id c hc hkind hsource => ?_⟩
  · exact (Nat.add_le_add Std.ExtTreeMap.size_filter_le_size
      Std.ExtTreeMap.size_filter_le_size).trans hv.invitations.sizes.1
  · exact (Nat.add_le_add (Nat.add_le_add Std.ExtTreeMap.size_filter_le_size
      Std.ExtTreeMap.size_filter_le_size) Std.ExtTreeMap.size_filter_le_size).trans
      hv.invitations.sizes.2
  · obtain ⟨hrow, hkept⟩ := hrequest.mp hr
    obtain ⟨c, hc, hproves⟩ := all_iff.mp hv.invitations.requests.1 id r hrow
    exact ⟨c, candidate_kept.mpr ⟨hc, fun hgone => hkept ((hv.keeps_request hc hrow).mp hgone)⟩,
      hproves⟩
  · exact nodup_column_filter hv.invitations.requests.2
  · obtain ⟨hrow, hkept⟩ := filter_eq_some.mp hr
    rw [decide_eq_true_eq] at hkept
    obtain ⟨heq, hnew, blocker, hblocker, hblocked⟩ :=
      all_iff.mp hv.invitations.suppressed interaction r hrow
    refine ⟨heq, ?_, blocker, candidate_kept.mpr ⟨hblocker, fun hgone => hkept (.inl hgone)⟩,
      hblocked⟩
    rintro ⟨r', hr', hinteraction⟩
    obtain ⟨k, hk⟩ := mem_values.mp hr'
    exact hnew ⟨r', mem_values.mpr ⟨k, (hrequest.mp hk).1⟩, hinteraction⟩
  · obtain ⟨hrow, hkept⟩ := candidate_kept.mp hc
    have hid := (hv.core.candidates id c hrow).id.1
    have hcontains := all_iff.mp hv.invitations.requested id c hrow hkind hsource
    obtain ⟨r, hr⟩ := mem_iff.mp (Std.ExtTreeMap.mem_iff_contains.mpr hcontains)
    rw [hid] at hr ⊢
    refine Std.ExtTreeMap.mem_iff_contains.mp (mem_iff.mpr ⟨r, hrequest.mpr ⟨hr, ?_⟩⟩)
    exact fun hlinked => hkept ((hv.keeps_request hrow hr).mpr hlinked)

theorem EngagementStore.Valid.erased_community (hv : s.Valid K) :
    (s.erased K scope member).CommunityValid where
  cursor cursor hcursor := hv.community.cursor cursor (Option.filter_eq_some_iff.mp hcursor).1
  size := Std.ExtTreeMap.size_filter_le_size.trans hv.community.size
  receipts := all_iff.mpr fun id r hr => by
    obtain ⟨hrow, hkept⟩ := filter_eq_some.mp hr
    rw [decide_eq_true_eq] at hkept
    obtain ⟨c, hc, hproves⟩ := all_iff.mp hv.community.receipts id r hrow
    exact ⟨c, candidate_kept.mpr ⟨hc, hkept⟩, hproves⟩

theorem EngagementStore.Valid.erased_feedback (hv : s.Valid K) :
    (s.erased K scope member).FeedbackValid where
  rows := all_iff.mpr fun id rows hrows => by
    obtain ⟨hmap, hsome⟩ := filter_eq_some.mp hrows
    rw [decide_eq_true_eq] at hsome
    obtain ⟨members, hmembers, hkept⟩ := map_eq_some.mp hmap
    obtain ⟨hid, c, hc, hsent, -, hsize, hall⟩ := all_iff.mp hv.feedback.rows id members hmembers
    unfold EngagementStore.keptFeedback at hkept
    split_ifs at hkept with hgone hhere
    · rw [← hkept] at hsome
      exact absurd Std.ExtTreeMap.size_empty hsome
    all_goals
      subst hkept
      refine ⟨hid, c, candidate_kept.mpr ⟨hc, hgone⟩, hsent, hsome, ?_, all_iff.mpr
        fun actor feedback hf => ?_⟩
    · exact Std.ExtTreeMap.size_filter_le_size.trans hsize
    · obtain ⟨hactor, hsame, hconcerns⟩ := all_iff.mp hall actor feedback (filter_eq_some.mp hf).1
      exact ⟨hactor, hsame, (hv.concerns_erased hc hgone actor).mpr hconcerns⟩
    · exact hsize
    · obtain ⟨hactor, hsame, hconcerns⟩ := all_iff.mp hall actor feedback hf
      exact ⟨hactor, hsame, (hv.concerns_erased hc hgone actor).mpr hconcerns⟩
  size := Std.ExtTreeMap.size_filter_le_size.trans
    (Std.ExtTreeMap.size_map.trans_le hv.feedback.size)

theorem EngagementStore.Valid.erased_sizes (hv : s.Valid K) :
    (s.erased K scope member).SizesValid where
  candidates := (Nat.add_le_add Std.ExtTreeMap.size_filter_le_size
    Std.ExtTreeMap.size_filter_le_size).trans hv.sizes.candidates
  opened := (countRows_le fun _ c hc hopen => ⟨c, (candidate_kept.mp hc).1, hopen⟩).trans
    hv.sizes.opened
  memberPolicies := Std.ExtTreeMap.size_map.trans_le hv.sizes.memberPolicies
  eligibility := by
    refine ⟨Std.ExtTreeMap.size_filter_le_size.trans
      (Std.ExtTreeMap.size_map.trans_le hv.sizes.eligibility.1),
      (entries_filter_map_le fun m rows => ?_).trans hv.sizes.eligibility.2⟩
    unfold keptEligibility
    split_ifs
    · exact Finset.card_filter_le _ _
    · exact le_rfl
  guildFeatures := hv.sizes.guildFeatures
  charges := by
    have hlength := length_movedContactCharges_add (K := K) s scope member
    have hsizes := hv.sizes.charges
    show _ + (s.erasedContactCharges ++ s.movedContactCharges scope member).length ≤ 20000
    rw [List.length_append]
    omega

theorem EngagementStore.Valid.erased_observationsFit (hv : s.Valid K) :
    (s.erased K scope member).ObservationsFit := by
  refine ⟨Std.ExtTreeMap.size_filter_le_size.trans
    (Std.ExtTreeMap.size_map.trans_le hv.observations.1),
    (entries_filter_map_le fun origin rows => ?_).trans hv.observations.2⟩
  unfold keptObservations
  split_ifs
  · exact Std.ExtTreeMap.size_filter_le_size
  · exact le_rfl

/-- A policy without its choices for a scope is in order. -/
theorem valid_forget {p : MemberPolicy} (h : p.Valid K) (scope : String) :
    (p.forget scope).Valid K :=
  ⟨h.stoppedGuilds, h.dailyLimit, h.weeklyLimit, h.timezone, h.quiet,
    ⟨h.scopes.1, all_iff.mpr fun origin d hd =>
      all_iff.mp h.scopes.2 origin d (filter_eq_some.mp hd).1⟩,
    fun w hw => h.weekly w (Option.filter_eq_some_iff.mp hw).1⟩

theorem belongsTo_forget {p : MemberPolicy} {m : ℕ} (h : p.BelongsTo m) (scope : String) :
    (p.forget scope).BelongsTo m :=
  ⟨⟨h.1.1, all_iff.mpr fun origin d hd => all_iff.mp h.1.2 origin d (filter_eq_some.mp hd).1⟩,
    fun w hw => h.2 w (Option.filter_eq_some_iff.mp hw).1⟩

theorem EngagementStore.Valid.erased_settings (hv : s.Valid K) :
    (s.erased K scope member).SettingsValid K where
  observations := all_iff.mpr fun origin rows hrows => by
    obtain ⟨before, hbefore, hkept⟩ := map_eq_some.mp (filter_eq_some.mp hrows).1
    obtain ⟨hscope, hall⟩ := all_iff.mp hv.settings.observations origin before hbefore
    refine ⟨hscope, all_iff.mpr fun m source hsource => all_iff.mp hall m source ?_⟩
    unfold keptObservations at hkept
    split_ifs at hkept <;> subst hkept
    · exact (filter_eq_some.mp hsource).1
    · exact hsource
  memberPolicies := all_iff.mpr fun m p hp => by
    obtain ⟨before, hbefore, hkept⟩ := map_eq_some.mp hp
    obtain ⟨hm, hvalid, hbelongs⟩ := all_iff.mp hv.settings.memberPolicies m before hbefore
    split_ifs at hkept <;> subst hkept
    · exact ⟨hm, valid_forget hvalid scope, belongsTo_forget hbelongs scope⟩
    · exact ⟨hm, hvalid, hbelongs⟩
  eligibility := all_iff.mpr fun m sources hsources => by
    obtain ⟨before, hbefore, hkept⟩ := map_eq_some.mp (filter_eq_some.mp hsources).1
    obtain ⟨hm, hall⟩ := all_iff.mp hv.settings.eligibility m before hbefore
    refine ⟨hm, fun source hsource => hall source ?_⟩
    unfold keptEligibility at hkept
    split_ifs at hkept <;> subst hkept
    · exact (Finset.mem_filter.mp hsource).1
    · exact hsource
  guildFeatures := hv.settings.guildFeatures

/-- **An erasure** leaves the store sound. -/
theorem EngagementStore.Sound.erased (hs : s.Sound K reserved) (hm : s.Marked reserved)
    (hroom : (s.identitiesAfter K scope member).card ≤ 10000) :
    (s.erased K scope member).Sound K reserved := by
  have hv := hs.valid
  have haccounted : (s.erased K scope member).Accounted reserved := hs.accounted.erased hv
  refine ⟨?_, haccounted, fun id i hi => hs.spoken id i (introduction_kept.mp hi).1⟩
  exact
    { erased := hs.erased_erasedValid hroom
      invitations := hv.erased_invitations
      community := hv.erased_community
      feedback := hv.erased_feedback
      sizes := hv.erased_sizes
      assessments := ⟨Std.ExtTreeMap.size_filter_le_size.trans hv.assessments.1,
        all_iff.mpr fun m t ht => all_iff.mp hv.assessments.2 m t (filter_eq_some.mp ht).1⟩
      responses := ⟨Std.ExtTreeMap.size_filter_le_size.trans hv.responses.1,
        all_iff.mpr fun a b hb => all_iff.mp hv.responses.2 a b (filter_eq_some.mp hb).1⟩
      observations := hv.erased_observationsFit
      settings := hv.erased_settings
      candidates := hv.erased_candidates
      introductions := hv.erased_introductions
      charges := haccounted.chargesValid (erased_core hv.core scope member)
        (erased_marked hm scope member) }

end Erasure

/-- Pruning leaves the store sound. -/
theorem EngagementStore.Sound.pruned (hs : s.Sound K reserved) (now : ℕ) :
    (s.pruneErasureSafety now).Sound K reserved := by
  unfold EngagementStore.pruneErasureSafety
  split_ifs
  · have hv := hs.valid
    have ha := hs.accounted
    have hcontact := List.length_filter_le (fun c : ErasedContactCharge => decide (c.Protects now))
      s.erasedContactCharges
    have hcommunity := List.length_filter_le
      (fun c : ErasedCommunityCharge => decide (now - c.at_ ≤ week)) s.erasedCommunityCharges
    have hsizes := hv.sizes.charges
    have herased := hv.erased.sizes
    refine ⟨?_, ⟨ha.pending, ha.attempted, ha.charged, ha.rows, ha.distinct⟩, hs.spoken⟩
    exact
      { erased := ⟨hv.erased.identities, ⟨by dsimp only; omega, by dsimp only; omega⟩,
          fun c hc => hv.erased.contact c (List.mem_filter.mp hc).1,
          fun c hc => hv.erased.community c (List.mem_filter.mp hc).1⟩
        invitations := ⟨hv.invitations.sizes, hv.invitations.requests, hv.invitations.suppressed,
          hv.invitations.requested⟩
        community := ⟨hv.community.cursor, hv.community.size, hv.community.receipts⟩
        feedback := ⟨hv.feedback.rows, hv.feedback.size⟩
        sizes := ⟨hv.sizes.candidates, hv.sizes.opened, hv.sizes.memberPolicies,
          hv.sizes.eligibility, hv.sizes.guildFeatures, by dsimp only; omega⟩
        assessments := hv.assessments
        responses := hv.responses
        observations := hv.observations
        settings := ⟨hv.settings.observations, hv.settings.memberPolicies, hv.settings.eligibility,
          hv.settings.guildFeatures⟩
        candidates := ⟨hv.candidates.rows, hv.candidates.dedupeKeys, hv.candidates.sources,
          hv.candidates.introductions⟩
        introductions := ⟨hv.introductions.unique, hv.introductions.rows,
          hv.introductions.announced⟩
        charges := ⟨hv.charges.rows, hv.charges.distinct, hv.charges.attempted,
          hv.charges.introduced⟩ }
  · exact hs

/-! ### Any operation -/

/-- Settings that pass the checks leave the store sound. -/
theorem sound_withSettings {settings : Settings} (hs : s.Sound K reserved)
    (hv : (s.withSettings settings).Valid K) : (s.withSettings settings).Sound K reserved := by
  have ha := hs.accounted
  exact ⟨hv, ⟨ha.pending, ha.attempted, ha.charged, ha.rows, ha.distinct⟩, hs.spoken⟩

/-- An operation that writes last leaves the store sound if its success does. -/
theorem sound_written {α : Type} {out : Except WorkError α → Out}
    {r : Except WorkError (α × EngagementStore)} (hs : s.Sound K reserved)
    (hok : ∀ a s', r = .ok (a, s') → s'.Sound K reserved) :
    (written out s r).2.Sound K reserved := by
  unfold written
  obtain ⟨a, s', hr, hcommit⟩ | ⟨e, hcommit⟩ := commit_cases s r
  · rw [hcommit]
    exact hok a s' hr
  · rw [hcommit]
    exact hs

theorem sound_expireMissedWeekly (hs : s.Sound K reserved) (hm : s.Marked reserved)
    (htimely : ∀ (id : ℕ) (c : Candidate), s.candidates[id]? = some c → c.Timely) (now : ℕ) :
    (s.expireMissedWeekly now).2.Sound K reserved := by
  by_cases hnow : IsInstant now
  · obtain ⟨n, hn⟩ := expireMissedWeekly_eq hnow
      (fun id c hc => (hs.valid.core.candidates id c hc).id.1) htimely
    rw [hn]
    exact (goesOn_missed hs.valid now).sound hs hm
  · have hsame : (s.expireMissedWeekly now).2 = s := by
      simp [EngagementStore.expireMissedWeekly, utc, ensure, hnow]
    rw [hsame]
    exact hs

/-- **One operation** leaves the store sound, if only reserved candidates are settled. -/
theorem step_sound (hs : s.Sound K reserved) (hm : s.Marked reserved)
    (htimely : ∀ (id : ℕ) (c : Candidate), s.candidates[id]? = some c → c.Timely) (op : Op)
    (hsettles : ∀ id outcome, op = .settle id outcome → id ∈ reserved) :
    (step K s op).2.Sound K
      (((step K s op).1.reserved?.map EngagementReservation.candidateId).toList ++ reserved) := by
  have hv := hs.valid
  have hcore := hv.core
  cases op with
  | propose p now =>
    refine sound_written hs fun r s' h => ?_
    obtain ⟨-, ⟨-, rfl, -⟩ | ⟨-, rfl, hv', -, htimely'⟩⟩ := propose_ok h
    · exact hs
    · have hgrows : Grows True s _ := grows_withProposal hcore p htimely'
      exact hgrows.sound hs hm hv'
  | proposeCommunity facts now =>
    refine sound_written hs fun r s' h => ?_
    unfold EngagementStore.proposeCommunity at h
    simp only [bind_eq_ok, ensure_eq_ok, exists_unit, Prod.exists, validate_eq_ok, pure_eq_ok,
      Prod.mk.injEq] at h
    obtain ⟨-, count, next, hfold, hv', -, rfl⟩ := h
    have hgrows : Grows True s _ := grows_foldlM hcore hfold
    exact hgrows.sound hs hm hv'
  | requestInvitation kind request =>
    refine sound_written hs fun r s' h => ?_
    obtain ⟨-, ⟨-, rfl⟩ | ⟨-, blocker, rfl, hv'⟩ | ⟨-, policy, rfl, hv', hkind⟩⟩ :=
      requestInvitation_ok h
    · exact hs
    · have hgrows : Grows True s _ := grows_withSuppressed s kind request blocker
      exact hgrows.sound hs hm hv'
    · have hgrows : Grows True s _ := grows_withRequest hcore policy kind request hkind
      exact hgrows.sound hs hm hv'
  | createIntroduction members scope description now =>
    refine sound_written hs fun r s' h => ?_
    obtain ⟨-, rfl, g, channel, -, rfl, hv'⟩ := createIntroduction_ok h
    have hgrows : Grows True s _ := grows_withIntroduction hcore members g channel now description
    exact hgrows.sound hs hm hv'
  | editIntroduction id member revision description destination =>
    refine sound_written hs fun r s' h => ?_
    obtain ⟨i, index, scope, g, hi, -, -, -, -, -, -, -, rfl, hv'⟩ := editIntroduction_ok h
    exact sound_withEdit hs hm hi hv'
  | approveIntroduction id member revision =>
    refine sound_written hs fun r s' h => ?_
    obtain ⟨i, index, hi, -, rfl, hopen, hown, rfl⟩ := approveIntroduction_ok h
    exact (goesOn_approved hv hi (hs.spoken id i hi) hopen hown).sound hs hm
  | withdrawIntroduction id member revision =>
    refine sound_written hs fun r s' h => ?_
    obtain ⟨i, hi, -, -, hopen, rfl⟩ := withdrawIntroduction_ok h
    exact (goesOn_withdrawn hv hi (Nat.succ_ne_zero revision) hopen).sound hs hm
  | proposeLinkedTaskFollowUp intent source member due now =>
    refine sound_written hs fun r s' h => ?_
    obtain ⟨-, rfl⟩ | ⟨-, key, -, rfl, hv', -⟩ := proposeLinkedTaskFollowUp_ok h
    · exact hs
    · have hgrows : Grows True s _ := grows_withFollowUp hcore intent source member due key trivial
      exact hgrows.sound hs hm hv'
  | cancelTaskFollowUp id revision reason =>
    refine sound_written hs fun r s' h => ?_
    obtain rfl | ⟨c, hc, hwork, hopen, hreason, rfl⟩ := cancelTaskFollowUp_ok h
    · exact hs
    · exact (goesOn_cancelTaskFollowUp hv hc hwork hopen hreason).sound hs hm
  | reserve id revision now =>
    show (commit s (s.reserve K id revision now)).2.Sound K
      (((Out.reservation (commit s (s.reserve K id revision now)).1).reserved?.map
        EngagementReservation.candidateId).toList ++ reserved)
    obtain ⟨r, s', hr, hcommit⟩ | ⟨e, hcommit⟩ := commit_cases s (s.reserve K id revision now)
    · obtain ⟨hnow, c, hc, hpending, hdue, hreserves⟩ := reserve_ok hr
      have hid : r.candidateId = id := by cases hreserves <;> assumption
      rw [hcommit, Out.reserved?, Option.map_some, hid]
      exact sound_reserves hs hm hc hpending hdue hnow hreserves
    · rw [hcommit]
      exact hs
  | settle id outcome => exact sound_settle hs hm (hsettles id outcome rfl)
  | cancelSource scope message =>
    refine (goesOn_cancelSources hv fun c h => ?_).sound hs hm
    obtain ⟨-, source, hsource, -⟩ := of_decide_eq_true h
    exact ⟨source, hsource⟩
  | cancelMemberOrigin member scope after =>
    refine (goesOn_cancelSources hv fun c h => ?_).sound hs hm
    obtain ⟨-, -, source, hsource, -⟩ := of_decide_eq_true h
    exact ⟨source, hsource⟩
  | cancelPublicOrigin scope after =>
    refine (goesOn_cancelSources hv fun c h => ?_).sound hs hm
    obtain ⟨-, -, source, hsource, -⟩ := of_decide_eq_true h
    exact ⟨source, hsource⟩
  | expireMissedWeekly now => exact sound_expireMissedWeekly hs hm htimely now
  | recoverReserved => exact (goesOn_recoverReserved hv).sound hs hm
  | eraseLearning scope member =>
    refine sound_written hs fun r s' h => ?_
    unfold EngagementStore.eraseLearning at h
    simp only [bind_eq_ok, ensure_eq_ok, exists_unit, pure_eq_ok, Prod.mk.injEq] at h
    obtain ⟨hroom, -, rfl⟩ := h
    exact hs.erased hm hroom
  | pruneErasureSafety now =>
    simp only [step]
    exact hs.pruned now
  | reload =>
    refine sound_written hs fun r s' h => ?_
    unfold EngagementStore.reload at h
    simp only [bind_eq_ok, exists_unit, pure_eq_ok] at h
    cases h.2
    exact (goesOn_recoverReserved hv).sound hs hm
  | configure settings =>
    refine sound_written hs fun r s' h => ?_
    unfold EngagementStore.configure at h
    simp only [bind_eq_ok, exists_unit, validate_eq_ok, pure_eq_ok, Prod.mk.injEq] at h
    obtain ⟨hv', -, rfl⟩ := h
    exact sound_withSettings hs hv'

/-! ### Any run -/

/-- Only candidates that an earlier reservation returned are settled. -/
def SettlesReserved (h : History) : Prop :=
  Along (fun earlier e => ∀ id outcome, e.op = .settle id outcome → id ∈ reservedIds earlier) h

/-- The default store passes the checks. -/
theorem sound_empty : EngagementStore.empty.Sound K [] where
  valid := by
    have hall {α β : Type} [Ord α] [Std.TransOrd α] [Std.LawfulEqOrd α] (P : α → β → Prop) :
        All (∅ : BTreeMap α β) P := all_iff.mpr fun k v hv => by simp at hv
    have hcolumn {α β γ : Type} [Ord α] [Std.TransOrd α] [Std.LawfulEqOrd α] (f : β → Option γ) :
        (column (∅ : BTreeMap α β) f).Nodup := nodup_column_of fun k k' v v' c hk => by simp at hk
    have hentries {α β : Type} [Ord α] [Std.TransOrd α] (f : β → ℕ) :
        entries (∅ : BTreeMap α β) f = 0 := rfl
    have hopened : EngagementStore.empty.openCandidates = 0 := rfl
    constructor
    case sizes =>
      refine ⟨?_, hopened.trans_le (Nat.zero_le _), ?_, ?_, ?_, ?_⟩ <;>
        simp [EngagementStore.empty, hentries]
    all_goals constructor <;> simp [EngagementStore.empty, hall, hcolumn, hentries]
  accounted := by
    refine ⟨?_, ?_, ?_, ?_, ?_⟩ <;> simp [EngagementStore.empty]
  spoken id i hi := by simp [EngagementStore.empty] at hi

/-- In every run that settles only what was reserved, the store is sound. -/
theorem sound_of_reaches {h : History} (hr : Reaches K h s) (hsettles : SettlesReserved h) :
    s.Sound K (reservedIds h) := by
  induction hr with
  | nil => exact sound_empty
  | @cons h s op hr ih =>
    rw [reservedIds_event]
    exact step_sound (ih hsettles.2) (marked_of_reaches hr) (timely_of_reaches hr).2 op hsettles.1

/-- **Acceptance.** In every run that settles only what was reserved, the store passes the checks and
is read back. -/
theorem accepted_along_run {h : History} (hr : Reaches K h s) (hsettles : SettlesReserved h) :
    s.validate K = .ok () ∧ s.reload K = .ok s.recoverReserved := by
  have hvalid : s.validate K = .ok () := validate_eq_ok.mpr (sound_of_reaches hr hsettles).valid
  refine ⟨hvalid, ?_⟩
  unfold EngagementStore.reload
  rw [hvalid]
  rfl

/-- A starter is proposed and reserved; it is sent although it was cancelled meanwhile. Then the member
whose message it rests on is erased, and the attempt is kept. -/
def attemptOps : List Op :=
  [.configure starterSettings, .proposeCommunity ⟨[starterFact], false⟩ 1700086400,
    .reserve 1 1 1700086400, .cancelPublicOrigin (.guild 1 2) 1700090000, .settle 1 (.sent 9),
    .eraseLearning "discord:1" (some 7)]

theorem attempt_accepted :
    (play (step plainCrates) EngagementStore.empty attemptOps).2.erasedCommunityCharges.length = 1 ∧
      (play (step plainCrates) EngagementStore.empty attemptOps).2.validate plainCrates = .ok () := by
  have hid : 1 ∈
      reservedIds (play (step plainCrates) EngagementStore.empty (attemptOps.take 4)).1 := by
    decide +kernel
  have hsettles : SettlesReserved (play (step plainCrates) EngagementStore.empty attemptOps).1 :=
    And.intro (fun _ _ h => by cases h) (And.intro (fun id outcome h => by cases h; exact hid)
      (And.intro (fun _ _ h => by cases h) (And.intro (fun _ _ h => by cases h)
        (And.intro (fun _ _ h => by cases h) (And.intro (fun _ _ h => by cases h) trivial)))))
  exact ⟨by decide +kernel, (accepted_along_run (run_play _ attemptOps) hsettles).1⟩

end AbbeyBot.Engagement
