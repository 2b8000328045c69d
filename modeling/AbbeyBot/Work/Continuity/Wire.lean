import Mathlib
import AbbeyBot.Work.Continuity.Store

/-! # Continuity cards: writing and reading back

A store whose rows are well formed is read back as it was written exactly when it is within the card
limit. -/

namespace AbbeyBot.Work.Continuity.Wire

open AbbeyBot.Library.OrderedMap AbbeyBot.Library.Result AbbeyBot.Work.Types
open AbbeyBot.Work.Continuity.Store

/-- Every card stands under its scope and passes the check of the loader. -/
def WellFormed (s : ContinuityStore) : Prop :=
  ∀ (scope : WorkScope) (card : ContinuityCard), s.cards[scope]? = some card →
    card.scope = scope ∧ validateCard card = .ok ()

/-- Written and read back, the store is the same. -/
def RoundTrips (s : ContinuityStore) : Prop := deserialize s.serialize = .ok s

theorem WellFormed.empty : WellFormed .empty := by
  intro scope card h
  simp [ContinuityStore.empty] at h

theorem WellFormed.insert {s : ContinuityStore} (hw : WellFormed s) {card : ContinuityCard}
    (hcard : validateCard card = .ok ()) : WellFormed ⟨s.cards.insert card.scope card⟩ := by
  intro scope c hc
  rw [getElem?_insert] at hc
  split_ifs at hc with heq
  · cases hc; exact ⟨heq, hcard⟩
  · exact hw scope c hc

theorem WellFormed.filter {s : ContinuityStore} (hw : WellFormed s)
    (f : WorkScope → ContinuityCard → Bool) : WellFormed ⟨s.cards.filter f⟩ :=
  fun scope c hc => hw scope c (filter_eq_some.mp hc).1

theorem WellFormed.erase {s : ContinuityStore} (hw : WellFormed s) (k : WorkScope) :
    WellFormed ⟨s.cards.erase k⟩ := by
  intro scope c hc
  rw [Std.ExtTreeMap.getElem?_erase] at hc
  split_ifs at hc
  exact hw scope c hc

/-! ### Loading an array -/

/-- Valid cards of distinct scopes are loaded, and nothing else is. -/
theorem loadCards_ok {l : List ContinuityCard} {m : BTreeMap WorkScope ContinuityCard}
    (hvalid : ∀ c ∈ l, validateCard c = .ok ())
    (hnodup : (l.map ContinuityCard.scope).Nodup) (hdisj : ∀ c ∈ l, c.scope ∉ m) :
    ∃ m', loadCards l m = .ok m' ∧ ∀ (k : WorkScope) (c : ContinuityCard),
      m'[k]? = some c ↔ m[k]? = some c ∨ c ∈ l ∧ c.scope = k := by
  induction l generalizing m with
  | nil => exact ⟨m, rfl, by simp⟩
  | cons a l ih =>
    rw [List.map_cons, List.nodup_cons] at hnodup
    have hdisj' : ∀ c ∈ l, c.scope ∉ m.insert a.scope a := by
      intro c hc hmem
      rcases Std.ExtTreeMap.mem_insert.mp hmem with heq | hmem
      · have hs : a.scope = c.scope := Std.LawfulEqCmp.compare_eq_iff_eq.mp heq
        exact hnodup.1 (List.mem_map.mpr ⟨c, hc, hs.symm⟩)
      · exact hdisj c (List.mem_cons_of_mem _ hc) hmem
    obtain ⟨m', hload, hrows⟩ := ih (m := m.insert a.scope a)
      (fun c hc => hvalid c (List.mem_cons_of_mem _ hc)) hnodup.2 hdisj'
    refine ⟨m', ?_, fun k c => ?_⟩
    · rw [loadCards, hvalid a List.mem_cons_self, ensure_of (hdisj a List.mem_cons_self)]
      exact hload
    · have ha : m[a.scope]? = none := by
        simpa using hdisj a List.mem_cons_self
      rw [hrows, getElem?_insert]
      by_cases hk : a.scope = k
      · subst hk
        have hl : ¬ (c ∈ l ∧ c.scope = a.scope) := fun ⟨hc, hs⟩ =>
          hnodup.1 (List.mem_map.mpr ⟨c, hc, hs⟩)
        simp only [if_true, Option.some.injEq, hl, or_false, ha, reduceCtorEq, false_or,
          List.mem_cons]
        constructor
        · rintro rfl; exact ⟨.inl rfl, rfl⟩
        · rintro ⟨rfl | hc, hs⟩
          · rfl
          · exact absurd ⟨hc, hs⟩ hl
      · rw [if_neg hk]
        constructor
        · rintro (h | ⟨hc, hs⟩)
          · exact .inl h
          · exact .inr ⟨List.mem_cons_of_mem _ hc, hs⟩
        · rintro (h | ⟨hc, hs⟩)
          · exact .inl h
          · rcases List.mem_cons.mp hc with rfl | hc
            · exact absurd hs hk
            · exact .inr ⟨hc, hs⟩

theorem scopes_serialize {s : ContinuityStore} (hw : WellFormed s) :
    s.serialize.map ContinuityCard.scope = s.cards.keys := by
  rw [ContinuityStore.serialize, values, List.map_map, ← Std.ExtTreeMap.map_fst_toList_eq_keys]
  refine List.map_congr_left fun kc hkc => ?_
  exact (hw kc.1 kc.2 (Std.ExtTreeMap.mem_toList_iff_getElem?_eq_some.mp hkc)).1

theorem length_serialize (s : ContinuityStore) : s.serialize.length = s.cards.size := by
  rw [ContinuityStore.serialize, values, List.length_map, Std.ExtTreeMap.length_toList]

/-- **Round trip**: within the limit, and only there. -/
theorem roundTrips_iff {s : ContinuityStore} (hw : WellFormed s) :
    RoundTrips s ↔ s.cards.size ≤ maxCards := by
  unfold RoundTrips deserialize
  rw [length_serialize]
  constructor
  · intro h
    simp only [bind_eq_ok, ensure_eq_ok, exists_const] at h
    exact h.1
  · intro hsize
    obtain ⟨m', hload, hrows⟩ := loadCards_ok (l := s.serialize) (m := ∅)
      (fun c hc => by
        obtain ⟨k, hk⟩ := mem_values.mp hc
        exact (hw k c hk).2)
      (by rw [scopes_serialize hw]; exact Std.ExtTreeMap.nodup_keys) (by simp)
    have hm : m' = s.cards := by
      refine Std.ExtTreeMap.ext_getElem? fun k => Option.ext fun c => ?_
      rw [hrows, ContinuityStore.serialize, mem_values]
      constructor
      · rintro (h | ⟨⟨k', hk'⟩, hs⟩)
        · simp at h
        · rw [← hs, (hw k' c hk').1]; exact hk'
      · intro h
        exact .inr ⟨⟨k, h⟩, (hw k c h).1⟩
    rw [ensure_of hsize, hload, hm]
    rfl

end AbbeyBot.Work.Continuity.Wire
