import Mathlib
import AbbeyBot.Work.FollowUp
import AbbeyBot.Work.Revisions

/-! # Learning from feedback

What the profiles of the scopes keep along a run. An observation is remembered by its delivery and
its actor for longer than it is retained: a reset, a removal or the window of a hundred takes the
observation away and leaves the memory, so the same feedback is not counted again. -/

namespace AbbeyBot.Work.Types

open AbbeyBot.Library.History AbbeyBot.Library.OrderedMap AbbeyBot.Library.Result
open AbbeyBot.Library.Word AbbeyBot.Calendar

variable {K : WorkCrates}

/-! ### One profile -/

/-- The deliveries and actors of the retained observations. -/
def WorkPreferenceProfile.pairs (p : WorkPreferenceProfile) : List (ℕ × ℕ) :=
  p.evidence.filterMap PreferenceEvidence.pair

/-- The retained observations are a window of what is remembered. -/
structure WorkPreferenceProfile.Windowed (p : WorkPreferenceProfile) : Prop where
  attributed : ∀ e ∈ p.evidence, e.Attributed
  once : p.pairs.Nodup
  observed : ∀ pair ∈ p.pairs, pair ∈ p.observedDeliveries
  bounded : p.evidence.length ≤ 100

/-- A windowed profile with the summary of what it retains. -/
structure WorkPreferenceProfile.Sound (p : WorkPreferenceProfile) : Prop extends p.Windowed where
  summary : p.recompute = p

/-- A later profile remembers what the earlier one did, and retains nothing of it anew. -/
structure WorkPreferenceProfile.Remembers (p p' : WorkPreferenceProfile) : Prop where
  observed : p.observedDeliveries ⊆ p'.observedDeliveries
  gone : ∀ pair ∈ p.observedDeliveries, pair ∈ p'.pairs → pair ∈ p.pairs

theorem WorkPreferenceProfile.Remembers.refl (p : WorkPreferenceProfile) : p.Remembers p :=
  ⟨subset_rfl, fun _ _ h => h⟩

theorem WorkPreferenceProfile.Remembers.trans {p p' p'' : WorkPreferenceProfile}
    (h : p.Remembers p') (h' : p'.Remembers p'') : p.Remembers p'' where
  observed := h.observed.trans h'.observed
  gone pair hpair hretained := h.gone pair hpair (h'.gone pair (h.observed hpair) hretained)

/-- With a memory that has grown and no observation more, nothing comes back. -/
theorem WorkPreferenceProfile.Remembers.of_sublist {p p' : WorkPreferenceProfile}
    (hobserved : p.observedDeliveries ⊆ p'.observedDeliveries) (hpairs : p'.pairs.Sublist p.pairs) :
    p.Remembers p' := ⟨hobserved, fun _ _ h => hpairs.subset h⟩

/-! ### The summary -/

@[simp] theorem recompute_evidence (p : WorkPreferenceProfile) :
    p.recompute.evidence = p.evidence := by
  unfold WorkPreferenceProfile.recompute
  dsimp only
  split_ifs <;> rfl

@[simp] theorem recompute_observed (p : WorkPreferenceProfile) :
    p.recompute.observedDeliveries = p.observedDeliveries := by
  unfold WorkPreferenceProfile.recompute
  dsimp only
  split_ifs <;> rfl

@[simp] theorem recompute_pairs (p : WorkPreferenceProfile) : p.recompute.pairs = p.pairs := by
  unfold WorkPreferenceProfile.pairs
  rw [recompute_evidence]

/-- The summary is a function of the switch and the observations alone. -/
theorem recompute_recompute (p : WorkPreferenceProfile) : p.recompute.recompute = p.recompute := by
  have henabled : p.recompute.learningEnabled = p.learningEnabled := by
    unfold WorkPreferenceProfile.recompute
    dsimp only
    split_ifs <;> rfl
  rw [WorkPreferenceProfile.recompute, henabled, recompute_evidence]
  unfold WorkPreferenceProfile.recompute
  dsimp only
  split_ifs <;> rfl

theorem WorkPreferenceProfile.Windowed.recompute {p : WorkPreferenceProfile} (hp : p.Windowed) :
    p.recompute.Sound where
  attributed := by
    rw [recompute_evidence]
    exact hp.attributed
  once := by
    rw [recompute_pairs]
    exact hp.once
  observed := by
    rw [recompute_pairs, recompute_observed]
    exact hp.observed
  bounded := by
    rw [recompute_evidence]
    exact hp.bounded
  summary := recompute_recompute p

theorem remembers_recompute (p : WorkPreferenceProfile) : p.Remembers p.recompute :=
  .of_sublist (by rw [recompute_observed]) (by rw [recompute_pairs])

theorem default_sound : WorkPreferenceProfile.default.Sound where
  attributed _ he := absurd he List.not_mem_nil
  once := List.nodup_nil
  observed _ hpair := absurd hpair List.not_mem_nil
  bounded := Nat.zero_le _
  summary := rfl

/-! ### What is retained and what is remembered -/

theorem pair_of_attributed {e : PreferenceEvidence} (he : e.Attributed) :
    ∃ actor ∈ e.actor, e.pair = some (e.deliveryId, actor) := by
  obtain ⟨⟨actor, hactor, -⟩, -⟩ := id he
  refine ⟨actor, hactor, ?_⟩
  rw [PreferenceEvidence.pair, if_pos he, hactor, Option.map_some]

theorem attributed_of_pair {e : PreferenceEvidence} {pair : ℕ × ℕ} (h : e.pair = some pair) :
    e.Attributed := by
  unfold PreferenceEvidence.pair at h
  split_ifs at h with he
  exact he

/-- A windowed profile remembers its observations already. -/
theorem rememberObservations_eq {p : WorkPreferenceProfile} (hp : p.Windowed) :
    p.rememberObservations = p := by
  have hsubset : (p.evidence.filterMap PreferenceEvidence.pair).toFinset ⊆ p.observedDeliveries :=
    fun pair hpair => hp.observed pair (List.mem_toFinset.mp hpair)
  rw [WorkPreferenceProfile.rememberObservations, Finset.union_eq_left.mpr hsubset]

/-- A profile with fewer observations is windowed. -/
theorem windowed_of_sublist {p p' : WorkPreferenceProfile} (hp : p.Windowed)
    (hobserved : p.observedDeliveries ⊆ p'.observedDeliveries)
    (hevidence : p'.evidence.Sublist p.evidence) : p'.Windowed := by
  have hpairs : p'.pairs.Sublist p.pairs := hevidence.filterMap _
  exact
    { attributed := fun e he => hp.attributed e (hevidence.subset he)
      once := hp.once.sublist hpairs
      observed := fun pair hpair => hobserved (hp.observed pair (hpairs.subset hpair))
      bounded := hevidence.length_le.trans hp.bounded }

/-- Another pair is appended to the window: it had not been remembered. -/
theorem windowed_append {p : WorkPreferenceProfile} (hp : p.Windowed) {e : PreferenceEvidence}
    {pair : ℕ × ℕ} (he : e.pair = some pair) (hnew : pair ∉ p.observedDeliveries) :
    (WorkPreferenceProfile.append
      { p with observedDeliveries := insert pair p.observedDeliveries } e).Windowed ∧
    p.Remembers (WorkPreferenceProfile.append
      { p with observedDeliveries := insert pair p.observedDeliveries } e) := by
  have hall : p.evidence.filter (fun e => decide e.Attributed) = p.evidence :=
    List.filter_eq_self.mpr fun e he => decide_eq_true (hp.attributed e he)
  -- the window without its oldest observations
  obtain ⟨kept, hkept, hsublist, hlength⟩ : ∃ kept : List PreferenceEvidence,
      (WorkPreferenceProfile.append
        { p with observedDeliveries := insert pair p.observedDeliveries } e).evidence =
          kept ++ [e] ∧ kept.Sublist p.evidence ∧ kept.length ≤ 99 := by
    unfold WorkPreferenceProfile.append
    dsimp only
    rw [hall]
    refine ⟨_, rfl, ?_, ?_⟩
    · split_ifs
      · exact List.drop_sublist _ _
      · exact List.Sublist.refl _
    · have hbounded := hp.bounded
      split_ifs with hfull
      · rw [List.length_drop]
        omega
      · omega
  have hretained : kept.filterMap PreferenceEvidence.pair |>.Sublist p.pairs := hsublist.filterMap _
  have hpairs : (WorkPreferenceProfile.append
      { p with observedDeliveries := insert pair p.observedDeliveries } e).pairs =
        kept.filterMap PreferenceEvidence.pair ++ [pair] := by
    rw [WorkPreferenceProfile.pairs, hkept, List.filterMap_append, List.filterMap_cons_some he,
      List.filterMap_nil]
  have hfresh : pair ∉ kept.filterMap PreferenceEvidence.pair := fun h =>
    hnew (hp.observed pair (hretained.subset h))
  refine ⟨⟨?_, ?_, ?_, ?_⟩, ⟨Finset.subset_insert _ _, ?_⟩⟩
  · intro e' he'
    rw [hkept, List.mem_append, List.mem_singleton] at he'
    rcases he' with he' | rfl
    · exact hp.attributed e' (hsublist.subset he')
    · exact attributed_of_pair he
  · rw [hpairs]
    refine List.nodup_append.mpr ⟨hp.once.sublist hretained, List.nodup_singleton _, ?_⟩
    rintro a ha b hb rfl
    exact hfresh (List.mem_singleton.mp hb ▸ ha)
  · intro pair' hpair'
    rw [hpairs, List.mem_append, List.mem_singleton] at hpair'
    rcases hpair' with hpair' | rfl
    · exact Finset.mem_insert_of_mem (hp.observed pair' (hretained.subset hpair'))
    · exact Finset.mem_insert_self _ _
  · rw [hkept, List.length_append, List.length_singleton]
    omega
  · intro pair' hobserved hpair'
    rw [hpairs, List.mem_append, List.mem_singleton] at hpair'
    rcases hpair' with hpair' | rfl
    · exact hretained.subset hpair'
    · exact absurd hobserved hnew

/-! ### The operations on a profile -/

/-- What an operation does to a sound profile: another sound one, which remembers the first. -/
def WorkPreferenceProfile.Learns (p p' : WorkPreferenceProfile) : Prop :=
  p.Sound → p'.Sound ∧ p.Remembers p'

theorem WorkPreferenceProfile.Learns.refl (p : WorkPreferenceProfile) : p.Learns p :=
  fun hp => ⟨hp, .refl p⟩

theorem WorkPreferenceProfile.Learns.trans {p p' p'' : WorkPreferenceProfile} (h : p.Learns p')
    (h' : p'.Learns p'') : p.Learns p'' := fun hp =>
  ⟨(h' (h hp).1).1, (h hp).2.trans (h' (h hp).1).2⟩

/-- A profile that keeps some of the observations, with its summary. -/
theorem learns_of_sublist {p p' : WorkPreferenceProfile}
    (hobserved : p.observedDeliveries ⊆ p'.observedDeliveries)
    (hevidence : p'.evidence.Sublist p.evidence) : p.Learns p'.recompute := fun hp =>
  ⟨(windowed_of_sublist hp.toWindowed hobserved hevidence).recompute,
    (WorkPreferenceProfile.Remembers.of_sublist hobserved (hevidence.filterMap _)).trans
      (remembers_recompute p')⟩

theorem observe_learns {p p' : WorkPreferenceProfile} {e : PreferenceEvidence}
    (h : p.observe e = .ok p') : p.Learns p'.recompute := fun hp => by
  simp only [WorkPreferenceProfile.observe, bind_eq_ok, ensure_eq_ok, exists_unit,
    rememberObservations_eq hp.toWindowed] at h
  obtain ⟨-, h⟩ := h
  have hsame : p = p' → p'.recompute.Sound ∧ p.Remembers p'.recompute := fun heq => by
    rw [← heq, hp.summary]
    exact WorkPreferenceProfile.Learns.refl p hp
  split at h
  · exact hsame (pure_eq_ok.mp h)
  · rename_i pair he
    split_ifs at h with hobserved
    · exact hsame (pure_eq_ok.mp h)
    · simp only [pure_eq_ok] at h
      obtain ⟨hwindowed, hremembers⟩ := windowed_append hp.toWindowed he hobserved
      rw [← h, recompute_recompute]
      exact ⟨hwindowed.recompute, hremembers.trans (remembers_recompute _)⟩

/-- What an update of one element leaves is the same of the whole list. -/
theorem map_modify_of_eq {α β : Type} {f : α → α} {g : α → β} (h : ∀ a, g (f a) = g a)
    (l : List α) (i : ℕ) : (l.modify i f).map g = l.map g := by
  induction l generalizing i with
  | nil => rw [List.modify_nil]
  | cons a l ih =>
    cases i with
    | zero => rw [List.modify_zero_cons, List.map_cons, List.map_cons, h]
    | succ i => rw [List.modify_succ_cons, List.map_cons, List.map_cons, ih]

/-- A profile whose observations are about the same pairs. -/
theorem learns_of_pairs {p p' : WorkPreferenceProfile}
    (hobserved : p'.observedDeliveries = p.observedDeliveries)
    (hmap : p'.evidence.map PreferenceEvidence.pair = p.evidence.map PreferenceEvidence.pair) :
    p.Learns p'.recompute := fun hp => by
  have hpairs : p'.pairs = p.pairs := by
    have hid : ∀ q : WorkPreferenceProfile,
        q.pairs = (q.evidence.map PreferenceEvidence.pair).filterMap id := fun q => by
      rw [List.filterMap_map, Function.id_comp, WorkPreferenceProfile.pairs]
    rw [hid, hid, hmap]
  have hwindowed : p'.Windowed := by
    refine ⟨fun e he => ?_, ?_, fun pair hpair => ?_, ?_⟩
    · have hmem : e.pair ∈ p.evidence.map PreferenceEvidence.pair := by
        rw [← hmap]
        exact List.mem_map_of_mem he
      obtain ⟨e₀, he₀, heq⟩ := List.mem_map.mp hmem
      obtain ⟨actor, -, hpair⟩ := pair_of_attributed (hp.attributed e₀ he₀)
      exact attributed_of_pair (heq.symm.trans hpair)
    · rw [hpairs]
      exact hp.once
    · rw [hpairs] at hpair
      rw [hobserved]
      exact hp.observed pair hpair
    · have hlength := congrArg List.length hmap
      rw [List.length_map, List.length_map] at hlength
      rw [hlength]
      exact hp.bounded
  have hremembers : p.Remembers p' := .of_sublist (by rw [hobserved]) (by rw [hpairs])
  exact ⟨hwindowed.recompute, hremembers.trans (remembers_recompute p')⟩

/-- A correction changes no pair, and a removal takes one away. -/
theorem correct_learns (p : WorkPreferenceProfile) (index : ℕ) (feedback : Option WorkFeedback)
    (now : ℕ) : p.Learns (p.correct index feedback now).recompute := fun hp => by
  unfold WorkPreferenceProfile.correct
  rw [rememberObservations_eq hp.toWindowed]
  cases feedback with
  | none => exact learns_of_sublist subset_rfl (List.eraseIdx_sublist _ _) hp
  | some feedback =>
    exact learns_of_pairs rfl (map_modify_of_eq
      (f := fun e => { e with feedback := feedback, at_ := now }) (g := PreferenceEvidence.pair)
      (fun _ => rfl) p.evidence index) hp

theorem control_learns (p : WorkPreferenceProfile) (enabled : Option Bool)
    (explicitHour : Option (Option ℕ)) (reset : Bool) :
    p.Learns (p.control enabled explicitHour reset) := by
  unfold WorkPreferenceProfile.control
  dsimp only
  split_ifs
  · rw [WorkPreferenceProfile.reset, recompute_recompute]
    exact learns_of_sublist Finset.subset_union_left (List.nil_sublist _)
  · exact learns_of_sublist subset_rfl (List.Sublist.refl _)

/-! ### What an operation does to a profile -/

/-- An observation of a delivery that was sent in the scope. -/
def WorkStore.Credits (s : WorkStore) (scope : WorkScope) (e : PreferenceEvidence) : Prop :=
  e.scope = some scope ∧ ∃ r : WorkDeliveryReceipt, s.deliveries[e.deliveryId]? = some r ∧
    r.state = .sent ∧ r.scope = some scope ∧ e.kind = r.kind

/-- The profile of a scope after one operation. -/
inductive WorkStore.Revises (s : WorkStore) (scope : WorkScope) (p : WorkPreferenceProfile) :
    WorkPreferenceProfile → Prop
  | same : Revises s scope p p
  | control (enabled : Option Bool) (explicitHour : Option (Option ℕ)) (reset : Bool) :
      Revises s scope p (p.control enabled explicitHour reset)
  | correct (index : ℕ) (feedback : Option WorkFeedback) (now : ℕ) :
      Revises s scope p (p.correct index feedback now).recompute
  | observe {e : PreferenceEvidence} {p' : WorkPreferenceProfile} (hcredits : s.Credits scope e)
      (h : p.observe e = .ok p') : Revises s scope p p'.recompute

theorem learns_of_revises {s : WorkStore} {scope : WorkScope} {p p' : WorkPreferenceProfile}
    (h : s.Revises scope p p') : p.Learns p' := by
  cases h with
  | same => exact .refl p
  | control enabled explicitHour reset => exact control_learns p enabled explicitHour reset
  | correct index feedback now => exact correct_learns p index feedback now
  | observe hcredits h => exact observe_learns h

/-- An observation after the operation is one from before it, perhaps corrected, or it is credited. -/
theorem origin_of_revises {s : WorkStore} {scope : WorkScope} {p p' : WorkPreferenceProfile}
    (h : s.Revises scope p p') {e' : PreferenceEvidence} (he' : e' ∈ p'.evidence) :
    (∃ e ∈ p.evidence, e'.deliveryId = e.deliveryId ∧ e'.scope = e.scope ∧ e'.kind = e.kind) ∨
      s.Credits scope e' := by
  cases h with
  | same => exact .inl ⟨e', he', rfl, rfl, rfl⟩
  | control enabled explicitHour reset =>
    unfold WorkPreferenceProfile.control at he'
    dsimp only at he'
    rw [recompute_evidence] at he'
    split_ifs at he'
    · rw [WorkPreferenceProfile.reset, recompute_evidence] at he'
      exact absurd he' List.not_mem_nil
    · exact .inl ⟨e', he', rfl, rfl, rfl⟩
  | correct index feedback now =>
    rw [recompute_evidence] at he'
    unfold WorkPreferenceProfile.correct at he'
    cases feedback with
    | none => exact .inl ⟨e', List.mem_of_mem_eraseIdx he', rfl, rfl, rfl⟩
    | some feedback =>
      have hmap := map_modify_of_eq (f := fun e : PreferenceEvidence =>
        { e with feedback := feedback, at_ := now }) (g := fun e => (e.deliveryId, e.scope, e.kind))
        (fun _ => rfl) p.evidence index
      have hmem : (e'.deliveryId, e'.scope, e'.kind) ∈
          p.evidence.map fun e => (e.deliveryId, e.scope, e.kind) := by
        rw [← hmap]
        exact List.mem_map.mpr ⟨e', he', rfl⟩
      obtain ⟨e, he, heq⟩ := List.mem_map.mp hmem
      simp only [Prod.mk.injEq] at heq
      exact .inl ⟨e, he, heq.1.symm, heq.2.1.symm, heq.2.2.symm⟩
  | @observe e p' hcredits h =>
    rw [recompute_evidence] at he'
    simp only [WorkPreferenceProfile.observe, bind_eq_ok, ensure_eq_ok, exists_unit] at h
    obtain ⟨-, h⟩ := h
    have hkept : p.rememberObservations = p' → e' ∈ p.evidence := fun heq => by
      rw [← heq] at he'
      exact he'
    split at h
    · exact .inl ⟨e', hkept (pure_eq_ok.mp h), rfl, rfl, rfl⟩
    · split_ifs at h
      · exact .inl ⟨e', hkept (pure_eq_ok.mp h), rfl, rfl, rfl⟩
      · simp only [pure_eq_ok] at h
        rw [← h, recompute_evidence] at he'
        unfold WorkPreferenceProfile.append at he'
        rcases List.mem_append.mp he' with he' | he'
        · refine .inl ⟨e', ?_, rfl, rfl, rfl⟩
          dsimp only at he'
          split_ifs at he'
          · exact List.mem_of_mem_filter (List.mem_of_mem_drop he')
          · exact List.mem_of_mem_filter he'
        · rw [List.mem_singleton.mp he']
          exact .inr hcredits

/-! ### One operation on the store -/

/-- The operation leaves the profiles, the receipts and the policies alone. -/
structure WorkStore.Quiet (s s' : WorkStore) : Prop where
  preferences : s'.preferences = s.preferences
  deliveries : s'.deliveries = s.deliveries
  policies : s'.scopeAutomation = s.scopeAutomation
  actors : s'.scopeAutomationActors = s.scopeAutomationActors
  coverage : s'.changeCoverage = s.changeCoverage
  fingerprints : s'.changeFingerprints = s.changeFingerprints

theorem WorkStore.Quiet.refl (s : WorkStore) : s.Quiet s := ⟨rfl, rfl, rfl, rfl, rfl, rfl⟩

/-- The profiles are revised, and a receipt with an outcome stays as it is. -/
structure WorkStore.Studies (s s' : WorkStore) : Prop where
  profile : ∀ scope, s.Revises scope (s.profile scope) (s'.profile scope)
  settled : ∀ (id : ℕ) (r : WorkDeliveryReceipt), s.deliveries[id]? = some r →
    r.state ≠ .attempting → s'.deliveries[id]? = some r

theorem revises_of_same {s s' : WorkStore} (h : s'.preferences = s.preferences) (scope : WorkScope) :
    s.Revises scope (s.profile scope) (s'.profile scope) := by
  unfold WorkStore.profile
  rw [h]
  exact .same

/-- With the same profiles and receipts there is nothing to revise. -/
theorem studies_of_same {s s' : WorkStore} (hpreferences : s'.preferences = s.preferences)
    (hdeliveries : s'.deliveries = s.deliveries) : s.Studies s' where
  profile := revises_of_same hpreferences
  settled id r hr _ := by rw [hdeliveries, hr]

theorem WorkStore.Studies.refl (s : WorkStore) : s.Studies s := studies_of_same rfl rfl

theorem profile_withProfile (s : WorkStore) (scope scope' : WorkScope) (p : WorkPreferenceProfile) :
    (s.withProfile scope p).profile scope' = if scope = scope' then p else s.profile scope' := by
  unfold WorkStore.profile WorkStore.withProfile
  dsimp only
  rw [getElem?_insert]
  by_cases hscope : scope = scope'
  · rw [if_pos hscope, if_pos (congrArg WorkScope.key hscope)]
    rfl
  · rw [if_neg hscope, if_neg fun hkey => hscope (FollowUp.key_injective hkey)]

theorem WorkStore.Quiet.studies {s s' : WorkStore} (h : s.Quiet s') : s.Studies s' :=
  studies_of_same h.preferences h.deliveries

theorem studies_withProfile {s : WorkStore} {scope : WorkScope} {p : WorkPreferenceProfile}
    (h : s.Revises scope (s.profile scope) p) : s.Studies (s.withProfile scope p) where
  profile scope' := by
    rw [profile_withProfile]
    split_ifs with hscope
    · rw [← hscope]
      exact h
    · exact .same
  settled _ _ hr _ := hr

theorem controlPreferences_ok {access : WorkAccess} {enabled : Option Bool}
    {explicitHour : Option (Option ℕ)} {reset : Bool} {s s' : WorkStore} {u : Unit}
    (h : s.controlPreferences access enabled explicitHour reset = .ok (u, s')) :
    s' = s.withProfile access.scope ((s.profile access.scope).control enabled explicitHour reset) := by
  simp only [WorkStore.controlPreferences, bind_eq_ok, ensure_eq_ok, exists_unit, pure_eq_ok,
    Prod.mk.injEq, true_and] at h
  obtain ⟨-, -, -, rfl⟩ := h
  rfl

theorem feedback_studies (access : WorkAccess) (deliveryId : ℕ) (feedback : Option WorkFeedback)
    (correction : Bool) (now : ℕ) (s : WorkStore) :
    s.Studies (s.feedback access deliveryId feedback correction now).2 := by
  -- the profile is stored as it was, then as the feedback leaves it
  have hstored : s.Studies (s.withProfile access.scope (s.profile access.scope)) :=
    studies_withProfile .same
  have hrevised : ∀ p, s.Revises access.scope (s.profile access.scope) p → s.Studies
      ((s.withProfile access.scope (s.profile access.scope)).withProfile access.scope p) := by
    intro p hp
    refine ⟨fun scope => ?_, fun _ _ hr _ => hr⟩
    rw [profile_withProfile, profile_withProfile]
    split_ifs with hscope
    · rw [← hscope]
      exact hp
    · exact .same
  unfold WorkStore.feedback
  split
  · exact WorkStore.Studies.refl s
  · rename_i receipt hreceipt
    dsimp only
    split_ifs
    · split
      · exact hstored
      · exact hrevised _ (.correct _ _ _)
    · split
      · exact hstored
      · split
        · exact hstored
        · rename_i observed hobserved
          simp only [WorkStore.feedbackReceipt, bind_eq_ok, orErr_eq_ok, ensure_eq_ok, exists_unit,
            pure_eq_ok] at hreceipt
          obtain ⟨-, -, r, hr, ⟨hstate, -, hscope, -⟩, -, -, -, rfl⟩ := hreceipt
          exact hrevised _ (.observe ⟨rfl, r, hr, hstate, hscope, rfl⟩ hobserved)

theorem once_quiet {s s' : WorkStore} {key : String} {write : ℕ → WorkStore → WorkStore} {id : ℕ}
    (hwrite : ∀ id s, WorkStore.Quiet s (write id s)) (h : s.once key write = .ok (id, s')) :
    s.Quiet s' := by
  rcases once_ok h with ⟨-, rfl⟩ | ⟨-, -, -, rfl⟩
  · exact .refl _
  · have hquiet := hwrite (s.sequence + 1) { s with sequence := s.sequence + 1 }
    exact ⟨hquiet.preferences, hquiet.deliveries, hquiet.policies, hquiet.actors, hquiet.coverage,
      hquiet.fingerprints⟩

theorem setMember_quiet (projectId : ℕ) (access : WorkAccess) (user : ℕ) (present : Bool)
    (s : WorkStore) : s.Quiet (s.setMember projectId access user present).2 := by
  unfold WorkStore.setMember
  split
  · exact .refl s
  · split <;> exact ⟨rfl, rfl, rfl, rfl, rfl, rfl⟩

theorem snoozeTask_quiet (access : WorkAccess) (id revision until_ : ℕ) (s : WorkStore) :
    s.Quiet (s.snoozeTask access id revision until_).2 := by
  unfold WorkStore.snoozeTask
  split
  · exact .refl s
  · rename_i t next s₁ h
    simp only [bind_eq_ok, utc_eq_ok, currentTask_eq_ok, ensure_eq_ok, exists_unit, pure_eq_ok,
      Prod.exists, Prod.mk.injEq] at h
    obtain ⟨-, t', -, -, -, -, next', s', hupdate, rfl, rfl, rfl⟩ := h
    have hs' : s.Quiet s' := by
      rw [(updateTask_rewrites hupdate).2]
      exact ⟨rfl, rfl, rfl, rfl, rfl, rfl⟩
    split_ifs
    · refine commit_keeps (P := s.Quiet) hs' fun u s'' h'' => ?_
      rw [(setReminder_rewrites h'').2]
      exact { hs' with }
    · exact hs'

/-- The number of a receipt has been given out. -/
theorem le_sequence_of_delivery {s : WorkStore} (hs : s.Numbered) {id : ℕ} {r : WorkDeliveryReceipt}
    (hr : s.deliveries[id]? = some r) : id ≤ s.sequence := by
  have hmem : id ∈ s.deliveries := mem_iff.mpr ⟨r, hr⟩
  refine (hs.used id ?_).2
  unfold WorkStore.uses
  rw [if_pos hmem]
  omega

/-- A reservation adds a receipt under the next number. -/
theorem reserveResolvedBatch_studies (access : WorkAccess) (batch : WorkBatch) (channel now : ℕ)
    {s : WorkStore} (hs : s.Numbered) :
    s.Studies (s.reserveResolvedBatch K access batch channel now).2 := by
  unfold WorkStore.reserveResolvedBatch
  split
  · exact WorkStore.Studies.refl s
  · rename_i id s' h
    simp only [bind_eq_ok, ensure_eq_ok, exists_unit, nextId_eq_ok] at h
    obtain ⟨_, -, -, -, -, -, rfl, rfl⟩ := h
    split
    · exact studies_of_same rfl rfl
    · refine ⟨revises_of_same rfl, fun id r hr _ => ?_⟩
      have hused := le_sequence_of_delivery hs hr
      unfold WorkStore.withReservation
      dsimp only [WorkBatch.receipt]
      rw [getElem?_insert, if_neg (by omega)]
      exact hr

theorem configureAutomation_same {scope : WorkScope} {access : WorkAccess}
    {policy : WorkAutomationPolicy} {s s' : WorkStore} {u : Unit}
    (h : s.configureAutomation K scope access policy = .ok (u, s')) :
    s'.preferences = s.preferences ∧ s'.deliveries = s.deliveries := by
  simp only [WorkStore.configureAutomation, bind_eq_ok, ensure_eq_ok, exists_unit, pure_eq_ok,
    Prod.mk.injEq, true_and] at h
  obtain ⟨-, -, -, -, -, -, -, rfl⟩ := h
  exact ⟨rfl, rfl⟩

theorem updateAutomation_studies (access : WorkAccess) (update : WorkAutomationUpdate)
    (configuredOwner : Option String) (s : WorkStore) :
    s.Studies (s.updateAutomation K access update configuredOwner).2 := by
  unfold WorkStore.updateAutomation
  split
  · exact WorkStore.Studies.refl s
  · rename_i s' h
    simp only [bind_eq_ok] at h
    obtain ⟨-, -, policy, -, policy', -, hconfigure⟩ := h
    obtain ⟨hpreferences, hdeliveries⟩ := configureAutomation_same hconfigure
    have hprofile : ∀ scope, s'.profile scope = s.profile scope := fun scope => by
      unfold WorkStore.profile
      rw [hpreferences]
    split
    · refine commit_keeps (P := s.Studies) (studies_of_same hpreferences hdeliveries)
        fun u s'' h'' => ?_
      rw [controlPreferences_ok h'']
      refine ⟨fun scope => ?_, fun id r hr _ => ?_⟩
      · rw [profile_withProfile, hprofile, hprofile]
        split_ifs with hscope
        · rw [← hscope]
          exact .control _ _ _
        · exact .same
      · rw [← hdeliveries] at hr
        exact hr
    · exact studies_of_same hpreferences hdeliveries

theorem settled_studies {s : WorkStore} {id : ℕ} {r r' : WorkDeliveryReceipt}
    (hr : s.deliveries[id]? = some r) (hstate : r.state = .attempting) :
    s.Studies { s with deliveries := s.deliveries.insert id r' } where
  profile := revises_of_same rfl
  settled id' r₀ hr₀ hsettled := by
    dsimp only
    rw [getElem?_insert, if_neg]
    · exact hr₀
    · rintro rfl
      rw [Option.some.inj (hr.symm.trans hr₀)] at hstate
      exact hsettled hstate

theorem markInterruptedDeliveries_studies (s : WorkStore) : s.Studies s.markInterruptedDeliveries where
  profile := revises_of_same rfl
  settled id r hr hsettled := by
    have hsame : r.interrupted = r := if_neg hsettled
    exact map_eq_some.mpr ⟨r, hr, hsame⟩

/-- The operations on projects, goals, tasks and decisions. -/
def WorkOp.OfRegistry : WorkOp → Prop
  | .createProject .. | .addGoal .. | .addTask .. | .recordDecision .. | .setMember ..
  | .allowGithubRepository .. | .updateTask .. | .linkGithub .. | .migrateGithubSources ..
  | .setReminder .. | .snoozeTask .. => True
  | _ => False

theorem commit_quiet {s : WorkStore} {α : Type} {r : Except WorkError (α × WorkStore)}
    (h : ∀ a s', r = .ok (a, s') → s.Quiet s') : s.Quiet (commit s r).2 :=
  commit_keeps (P := s.Quiet) (.refl s) h

/-- An operation on the registry writes nothing beside it. -/
theorem step_quiet {s : WorkStore} {op : WorkOp} (hop : op.OfRegistry) :
    s.Quiet (s.step K op).2 := by
  cases op with
  | createProject access name requestId =>
    refine commit_quiet (r := s.createProject access name requestId) fun id s' h => ?_
    simp only [WorkStore.createProject, bind_eq_ok, ensure_eq_ok, exists_unit] at h
    obtain ⟨-, -, -, h⟩ := h
    refine once_quiet (fun _ _ => ?_) h
    exact ⟨rfl, rfl, rfl, rfl, rfl, rfl⟩
  | addGoal projectId access title requestId =>
    refine commit_quiet (r := s.addGoal projectId access title requestId) fun id s' h => ?_
    simp only [WorkStore.addGoal, bind_eq_ok, ensure_eq_ok, exists_unit] at h
    obtain ⟨-, -, -, -, h⟩ := h
    refine once_quiet (fun _ _ => ?_) h
    exact ⟨rfl, rfl, rfl, rfl, rfl, rfl⟩
  | addTask access task requestId =>
    refine commit_quiet (r := s.addTask access task requestId) fun id s' h => ?_
    simp only [WorkStore.addTask, bind_eq_ok, ensure_eq_ok, exists_unit] at h
    obtain ⟨-, -, -, -, h⟩ := h
    refine once_quiet (fun _ _ => ?_) h
    exact ⟨rfl, rfl, rfl, rfl, rfl, rfl⟩
  | recordDecision projectId access text at_ requestId =>
    refine commit_quiet (r := s.recordDecision projectId access text at_ requestId) fun id s' h => ?_
    simp only [WorkStore.recordDecision, bind_eq_ok, ensure_eq_ok, exists_unit] at h
    obtain ⟨-, -, -, -, h⟩ := h
    refine once_quiet (fun _ _ => ?_) h
    exact ⟨rfl, rfl, rfl, rfl, rfl, rfl⟩
  | setMember projectId access user present =>
    exact setMember_quiet projectId access user present s
  | allowGithubRepository projectId access repository allowed =>
    refine commit_quiet (r := s.allowGithubRepository projectId access repository allowed)
      fun u s' h => ?_
    simp only [WorkStore.allowGithubRepository, bind_eq_ok, ensure_eq_ok, exists_unit, pure_eq_ok,
      Prod.mk.injEq, true_and] at h
    obtain ⟨-, p, -, revision, -, rfl⟩ := h
    exact ⟨rfl, rfl, rfl, rfl, rfl, rfl⟩
  | updateTask access id revision status snoozedUntil =>
    refine commit_quiet (r := s.updateTask access id revision status snoozedUntil) fun next s' h => ?_
    rw [(updateTask_rewrites h).2]
    exact ⟨rfl, rfl, rfl, rfl, rfl, rfl⟩
  | linkGithub taskId revision access reference =>
    refine commit_quiet (r := s.linkGithub taskId revision access reference) fun u s' h => ?_
    simp only [WorkStore.linkGithub, bind_eq_ok, ensure_eq_ok, exists_unit, pure_eq_ok,
      Prod.mk.injEq, true_and] at h
    obtain ⟨-, t, -, p, -, -, -, next, -, rfl⟩ := h
    exact ⟨rfl, rfl, rfl, rfl, rfl, rfl⟩
  | migrateGithubSources projectId access =>
    refine commit_quiet (r := s.migrateGithubSources projectId access) fun n s' h => ?_
    simp only [WorkStore.migrateGithubSources, bind_eq_ok, ensure_eq_ok, exists_unit, pure_eq_ok,
      Prod.mk.injEq] at h
    obtain ⟨p, -, -, -, rfl⟩ := h
    exact ⟨rfl, rfl, rfl, rfl, rfl, rfl⟩
  | setReminder access id revision remindAt =>
    refine commit_quiet (r := s.setReminder access id revision remindAt) fun u s' h => ?_
    rw [(setReminder_rewrites h).2]
    exact ⟨rfl, rfl, rfl, rfl, rfl, rfl⟩
  | snoozeTask access id revision until_ =>
    exact snoozeTask_quiet access id revision until_ s
  | _ => exact hop.elim

/-- **One operation** revises the profiles and keeps what was sent. -/
theorem step_studies {s : WorkStore} (hs : s.Numbered) (op : WorkOp) : s.Studies (s.step K op).2 := by
  by_cases hop : op.OfRegistry
  · exact (step_quiet hop).studies
  cases op with
  | configureAutomation scope access policy =>
    exact commit_keeps (P := s.Studies) (.refl s) fun _ _ h =>
      have h' := configureAutomation_same h
      studies_of_same h'.1 h'.2
  | updateAutomation access update configuredOwner =>
    exact updateAutomation_studies access update configuredOwner s
  | controlPreferences access enabled explicitHour reset =>
    refine commit_keeps (P := s.Studies) (r := s.controlPreferences access enabled explicitHour reset)
      (.refl s) fun u s' h => ?_
    rw [controlPreferences_ok h]
    exact studies_withProfile (.control enabled explicitHour reset)
  | feedback access deliveryId feedback correction now =>
    exact feedback_studies access deliveryId feedback correction now s
  | reserveBatch access batch now =>
    unfold WorkStore.step numbered WorkStore.reserveBatch
    dsimp only
    split
    · exact WorkStore.Studies.refl s
    · exact reserveResolvedBatch_studies access batch _ now hs
  | reservePrivateBatch access batch dmChannel now =>
    unfold WorkStore.step numbered WorkStore.reservePrivateBatch
    dsimp only
    split_ifs
    · exact reserveResolvedBatch_studies access batch dmChannel now hs
    · exact WorkStore.Studies.refl s
  | settleDelivery id message =>
    refine commit_keeps (P := s.Studies) (r := s.settleDelivery id message)
      (.refl s) fun u s' h => ?_
    simp only [WorkStore.settleDelivery, bind_eq_ok, orErr_eq_ok, ensure_eq_ok, exists_unit,
      pure_eq_ok, Prod.mk.injEq, true_and] at h
    obtain ⟨r, hr, hstate, rfl⟩ := h
    exact settled_studies hr hstate
  | markInterruptedDeliveries => exact markInterruptedDeliveries_studies s
  | _ => exact (hop trivial).elim

/-! ### Runs -/

/-- What a run does to a profile. -/
theorem learns_along_run {h : WorkHistory} {s₀ s : WorkStore} (hs₀ : s₀.Numbered)
    (hrun : Run (WorkStore.step K) s₀ h s) (scope : WorkScope) :
    s.Numbered ∧ (s₀.profile scope).Learns (s.profile scope) := by
  induction hrun with
  | nil => exact ⟨hs₀, .refl _⟩
  | cons op _ ih =>
    obtain ⟨hs, hlearns⟩ := ih
    exact ⟨numbered_of_moves hs (step_moves hs op),
      hlearns.trans (learns_of_revises ((step_studies hs op).profile scope))⟩

theorem profile_empty (scope : WorkScope) : WorkStore.empty.profile scope = .default := by
  simp [WorkStore.empty, WorkStore.profile]

/-! ### A run with feedback -/

def reminderUpdate : WorkAutomationUpdate where
  enabled := true
  privateToMe := none
  timezone := some "UTC"
  briefingHour := none
  quietStart := none
  quietEnd := none
  dailyLimit := none

/-- A task with a reminder at noon. -/
def reminderOps : List WorkOp :=
  [.createProject sampleAccess "Plan" "a", .addTask sampleAccess sampleTask "t",
    .updateAutomation sampleAccess reminderUpdate none,
    .setReminder sampleAccess 2 0 (some 43200)]

/-- The batch that is due a second later. -/
def reminderBatch : List WorkBatch :=
  ((play (WorkStore.step sampleCrates) .empty reminderOps).2.nextBatch sampleCrates (.personal 1)
    sampleAccess 43201).toOption.join.toList

/-- The reminder is sent, with the briefing of the day, and found useful. -/
def usefulOps : List WorkOp :=
  reminderOps ++ reminderBatch.map (.reserveBatch sampleAccess · 43201) ++
    [.settleDelivery 3 (some 7), .feedback sampleAccess 3 (some .useful) false 43300]

def usefulStore : WorkStore := (play (WorkStore.step sampleCrates) .empty usefulOps).2

def resetStore : WorkStore := (play (WorkStore.step sampleCrates) usefulStore
  [.controlPreferences sampleAccess none none true]).2

/-- The same feedback is given again after the reset. -/
def replayedStore : WorkStore := (play (WorkStore.step sampleCrates) resetStore
  [.feedback sampleAccess 3 (some .useful) false 43400]).2

def usefulEvidence : PreferenceEvidence :=
  ⟨some 1, some (.personal 1), some .briefing, 3, .useful, 43300⟩

/-- **Learning** along every run: the observations of a scope are attributed, one for each delivery
and actor, at most a hundred, all of them remembered, with the summary of what is retained; and an
observation that has left a profile never comes back to it. -/
theorem learning_along_run {h₁ h₂ h₃ : WorkHistory} {s₁ s₂ s₃ : WorkStore}
    (hrun₁ : Run (WorkStore.step K) .empty h₁ s₁) (hrun₂ : Run (WorkStore.step K) s₁ h₂ s₂)
    (hrun₃ : Run (WorkStore.step K) s₂ h₃ s₃) (scope : WorkScope) :
    (s₁.profile scope).Sound ∧
    (s₁.profile scope).observedDeliveries ⊆ (s₂.profile scope).observedDeliveries ∧
    ∀ pair ∈ (s₁.profile scope).pairs, pair ∉ (s₂.profile scope).pairs →
      pair ∈ (s₃.profile scope).observedDeliveries ∧ pair ∉ (s₃.profile scope).pairs := by
  obtain ⟨hs₁, hlearns⟩ := learns_along_run numbered_empty hrun₁ scope
  have hsound₁ : (s₁.profile scope).Sound := by
    rw [profile_empty] at hlearns
    exact (hlearns default_sound).1
  obtain ⟨hs₂, hlearns₂⟩ := learns_along_run hs₁ hrun₂ scope
  obtain ⟨hsound₂, hfirst⟩ := hlearns₂ hsound₁
  obtain ⟨-, hlater⟩ := (learns_along_run hs₂ hrun₃ scope).2 hsound₂
  refine ⟨hsound₁, hfirst.observed, fun pair hpair hgone => ?_⟩
  have hobserved := hfirst.observed (hsound₁.observed pair hpair)
  exact ⟨hlater.observed hobserved, fun hback => hgone (hlater.gone pair hobserved hback)⟩

/-- The feedback counts once: after a reset it is remembered, and not observed again. -/
theorem usefulEvidence_replayed : (3, 1) ∈ (replayedStore.profile (.personal 1)).observedDeliveries ∧
    (3, 1) ∉ (replayedStore.profile (.personal 1)).pairs :=
  (learning_along_run (K := sampleCrates) (run_play _ usefulOps) (run_play _ _) (run_play _ _)
    (.personal 1)).2.2 (3, 1) (by decide +kernel) (by decide +kernel)

/-- **What is learned from**: along every run, each retained observation is feedback to a delivery of
its own scope and kind that was sent, and whose receipt is kept. -/
theorem evidence_along_run {h : WorkHistory} {s : WorkStore}
    (hrun : Run (WorkStore.step K) .empty h s) (scope : WorkScope) (e : PreferenceEvidence)
    (he : e ∈ (s.profile scope).evidence) : s.Credits scope e := by
  have hinv : s.Numbered ∧ ∀ e ∈ (s.profile scope).evidence, s.Credits scope e := by
    refine hrun.invariant
      (I := fun s => s.Numbered ∧ ∀ e ∈ (s.profile scope).evidence, s.Credits scope e)
      ⟨numbered_empty, fun e he => ?_⟩ fun s op hs => ?_
    · rw [profile_empty] at he
      exact absurd he List.not_mem_nil
    · have hstudies := step_studies (K := K) hs.1 op
      refine ⟨numbered_of_moves hs.1 (step_moves hs.1 op), fun e' he' => ?_⟩
      have hcredits : s.Credits scope e' := by
        rcases origin_of_revises (hstudies.profile scope) he' with ⟨e, he, hid, hscope, hkind⟩ | h
        · obtain ⟨hscope', r, hr, hsent, hr_scope, hr_kind⟩ := hs.2 e he
          exact ⟨hscope.trans hscope', r, by rw [hid, hr], hsent, hr_scope, hkind.trans hr_kind⟩
        · exact h
      obtain ⟨hscope, r, hr, hsent, hrest⟩ := hcredits
      have hsettled : r.state ≠ .attempting := by
        rw [hsent]
        exact DeliveryState.noConfusion
      exact ⟨hscope, r, hstudies.settled _ r hr hsettled, hsent, hrest⟩
  exact hinv.2 e he

theorem usefulEvidence_credited : usefulStore.Credits (.personal 1) usefulEvidence :=
  evidence_along_run (K := sampleCrates) (run_play _ usefulOps) (.personal 1) usefulEvidence
    (by decide +kernel)

/-! ### Receipts -/

/-- A receipt is there after an operation, for the same batch. -/
theorem receipt_of_moves {op : WorkOp} {s s' : WorkStore} (hs : s.Numbered) (h : s.Moves K op s')
    {id : ℕ} {r : WorkDeliveryReceipt} (hr : s.deliveries[id]? = some r) :
    ∃ r', s'.deliveries[id]? = some r' ∧ r.Version r' := by
  have hrefl : r.Version r := rfl
  cases h with
  | settings h =>
    rw [h.deliveries]
    exact ⟨r, hr, hrefl⟩
  | project hop hp h => exact ⟨r, hr, hrefl⟩
  | tasks h => exact ⟨r, hr, hrefl⟩
  | receipts h =>
    obtain ⟨r', hr', hversion⟩ := h.forward hr
    exact ⟨r', hr', hversion⟩
  | create hkey hnew hmax h =>
    refine ⟨r, ?_, hrefl⟩
    cases h <;> exact hr
  | reserve hop hnext hproject hmax =>
    have hused := le_sequence_of_delivery hs hr
    refine ⟨r, ?_, hrefl⟩
    unfold WorkStore.withReservation
    dsimp only [WorkBatch.receipt]
    rw [getElem?_insert, if_neg (by omega)]
    exact hr

/-- **Receipts** along every run: one that is written stays, for the same batch and recipient, and
its outcome, once it has one, is never changed. -/
theorem receipts_along_run {h₁ h₂ : WorkHistory} {s₁ s₂ : WorkStore}
    (hrun₁ : Run (WorkStore.step K) .empty h₁ s₁) (hrun₂ : Run (WorkStore.step K) s₁ h₂ s₂)
    (id : ℕ) (r : WorkDeliveryReceipt) (hr : s₁.deliveries[id]? = some r) :
    ∃ r', s₂.deliveries[id]? = some r' ∧
      r' = { r with state := r'.state, messageId := r'.messageId } ∧
      (r.state ≠ .attempting → r' = r) := by
  have hinv : s₂.Numbered ∧ ∃ r', s₂.deliveries[id]? = some r' ∧ r.Version r' ∧
      (r.state ≠ .attempting → r' = r) := by
    refine hrun₂.invariant (I := fun s => s.Numbered ∧ ∃ r', s.deliveries[id]? = some r' ∧
      r.Version r' ∧ (r.state ≠ .attempting → r' = r))
      ⟨numbered_along_run hrun₁, r, hr, rfl, fun _ => rfl⟩ fun s op hs => ?_
    obtain ⟨hnumbered, r', hr', hversion, hfinal⟩ := hs
    have hmoves := step_moves (K := K) hnumbered op
    obtain ⟨r'', hr'', hversion'⟩ := receipt_of_moves hnumbered hmoves hr'
    refine ⟨numbered_of_moves hnumbered hmoves, r'', hr'', ?_, fun hsettled => ?_⟩
    · unfold WorkDeliveryReceipt.Version at hversion hversion' ⊢
      rw [hversion', hversion]
    · have hsame := hfinal hsettled
      rw [hsame] at hr'
      have hkept := (step_studies (K := K) hnumbered op).settled id r hr' hsettled
      exact Option.some.inj (hr''.symm.trans hkept)
  obtain ⟨-, r', hr', hversion, hfinal⟩ := hinv
  exact ⟨r', hr', hversion, hfinal⟩

/-- The receipt of the briefing is there after the reset, as it was. -/
theorem briefing_receipt_kept : resetStore.deliveries[3]? = usefulStore.deliveries[3]? := by
  have hsent : usefulStore.deliveries[3]?.map (·.state) = some .sent := by decide +kernel
  obtain ⟨r, hr, hstate⟩ := Option.map_eq_some_iff.mp hsent
  have hsettled : r.state ≠ .attempting := by
    rw [hstate]
    exact DeliveryState.noConfusion
  obtain ⟨r', hr', -, hfinal⟩ := receipts_along_run (K := sampleCrates) (run_play _ usefulOps)
    (run_play usefulStore [.controlPreferences sampleAccess none none true]) 3 r hr
  rw [hfinal hsettled] at hr'
  exact hr'.trans hr.symm

end AbbeyBot.Work.Types
