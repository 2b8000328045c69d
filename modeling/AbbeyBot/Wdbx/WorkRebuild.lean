import Mathlib
import AbbeyBot.Wdbx.WorkProjection

/-! # Rebuilding the projection of work evidence

What `reconcile_work_evidence` leaves in the store: the entries that were intact, an entry for each
other record, the manifest, and everything that is not of the projection. The projection is current
then, unless the row under the empty key mentions one of the ids that were handed out. -/

namespace AbbeyBot.Wdbx

open AbbeyBot.Library.History AbbeyBot.Library.OrderedMap AbbeyBot.Library.PrefixScan
open AbbeyBot.Library.Result AbbeyBot.Library.Text AbbeyBot.Library.Word
open AbbeyBot.Work.Types (AdmittedWorkEvidence WorkRecallState)

variable {J : Crates} {K : ProjectionCrates J} {s next : WdbxStore J} {state : WorkRecallState}

/-! ### Stable entries -/

theorem mem_stable {id : ℕ} : id ∈ s.stable K state ↔
    ∃ e : Entry, (s.entries K)[projectionKey id]? = some e ∧ state.records[id]? = some e.row ∧
      (Ownership.new K s).Intact K (projectionKey id) e := by
  unfold WdbxStore.stable
  simp only [List.mem_toFinset, List.mem_filterMap, Prod.exists,
    Std.ExtTreeMap.mem_toList_iff_getElem?_eq_some]
  constructor
  · rintro ⟨key, e, he, h⟩
    split_ifs at h with hstable
    cases h
    rw [← key_of_entries he]
    exact ⟨e, he, hstable.1, hstable.2⟩
  · rintro ⟨e, he, hrow, hintact⟩
    have hid : id = e.row.id := projectionKey_inj (key_of_entries he)
    refine ⟨projectionKey id, e, he, ?_⟩
    rw [if_pos ⟨hid ▸ hrow, hintact⟩, hid]

/-- The entry of a stable record. -/
theorem id_of_stable {id : ℕ} {e : Entry} (he : (s.entries K)[projectionKey id]? = some e) :
    e.row.id = id := (projectionKey_inj (key_of_entries he)).symm

theorem nodup_records (state : WorkRecallState) : (state.records.toList.map Prod.fst).Nodup := by
  rw [Std.ExtTreeMap.map_fst_toList_eq_keys]
  exact Std.ExtTreeMap.nodup_keys

theorem mem_pending {r : ℕ × AdmittedWorkEvidence} : r ∈ s.pending K state ↔
    state.records[r.1]? = some r.2 ∧ r.1 ∉ s.stable K state := by
  unfold WdbxStore.pending
  rw [List.mem_filter, Std.ExtTreeMap.mem_toList_iff_getElem?_eq_some, decide_eq_true_eq]

theorem nodup_pending : ((s.pending K state).map Prod.fst).Nodup :=
  (nodup_records state).sublist (List.filter_sublist.map _)

/-- As many entries are built as there are records without a stable one. -/
theorem length_pending : (s.pending K state).length = s.needed K state := by
  set kept := state.records.toList.filter fun r => decide (r.1 ∈ s.stable K state) with hkept
  have hcard : kept.length = (s.stable K state).card := by
    have hnodup : (kept.map Prod.fst).Nodup :=
      (nodup_records state).sublist (List.filter_sublist.map _)
    have hset : (kept.map Prod.fst).toFinset = s.stable K state := by
      ext id
      rw [List.mem_toFinset, List.mem_map]
      constructor
      · rintro ⟨r, hr, rfl⟩
        exact of_decide_eq_true (List.mem_filter.mp hr).2
      · intro hid
        obtain ⟨e, -, hrow, -⟩ := mem_stable.mp hid
        exact ⟨(id, e.row), List.mem_filter.mpr
          ⟨Std.ExtTreeMap.mem_toList_iff_getElem?_eq_some.mpr hrow, decide_eq_true hid⟩, rfl⟩
    rw [← hset, List.toFinset_card_of_nodup hnodup, List.length_map]
  have hsplit : kept.length + (s.pending K state).length = state.records.toList.length := by
    have hcount := List.length_eq_countP_add_countP (fun r : ℕ × AdmittedWorkEvidence =>
      decide (r.1 ∈ s.stable K state)) (l := state.records.toList)
    rw [List.countP_eq_length_filter, List.countP_eq_length_filter] at hcount
    unfold WdbxStore.pending
    simpa using hcount.symm
  unfold WdbxStore.needed
  rw [Std.ExtTreeMap.length_toList] at hsplit
  omega

/-! ### What goes -/

/-- The row belongs to a stable record. -/
def WdbxStore.Keeps (K : ProjectionCrates J) (s : WdbxStore J) (state : WorkRecallState)
    (key : String) : Prop := ∃ id ∈ s.stable K state, key = projectionKey id

/-- The entry under the key goes, with this vector. -/
def WdbxStore.dropsAt (K : ProjectionCrates J) (s : WdbxStore J) (state : WorkRecallState)
    (key : String) (id : ℕ) : Bool :=
  match (s.entries K)[key]? with
  | some e => decide (e.row.id ∉ s.stable K state ∧ (Ownership.new K s).Intact K key e ∧
      e.vectorId = id)
  | none => false

/-- An entry that goes owns the vector. -/
def WdbxStore.drops (K : ProjectionCrates J) (s : WdbxStore J) (state : WorkRecallState) (id : ℕ) :
    Bool :=
  ((s.kvWithPrefix projectionPrefix).map Prod.fst).any fun key => s.dropsAt K state key id

theorem dropsAt_iff {key : String} {id : ℕ} : s.dropsAt K state key id = true ↔
    ∃ e : Entry, (s.entries K)[key]? = some e ∧ e.row.id ∉ s.stable K state ∧
      (Ownership.new K s).Intact K key e ∧ e.vectorId = id := by
  unfold WdbxStore.dropsAt
  cases (s.entries K)[key]? with
  | none => simp
  | some e => simp

theorem mem_projectionRows {key : String} :
    key ∈ (s.kvWithPrefix projectionPrefix).map Prod.fst ↔
      key ∈ s.kv ∧ projectionPrefix.toList <+: key.toList := by
  unfold WdbxStore.kvWithPrefix
  rw [List.mem_map]
  constructor
  · rintro ⟨kv, hkv, rfl⟩
    obtain ⟨hvalue, hstart⟩ := mem_prefixScan.mp hkv
    exact ⟨mem_iff.mpr ⟨_, hvalue⟩, hstart⟩
  · rintro ⟨hkey, hstart⟩
    obtain ⟨value, hvalue⟩ := mem_iff.mp hkey
    exact ⟨(key, value), mem_prefixScan.mpr ⟨hvalue, hstart⟩, rfl⟩

theorem drops_iff {id : ℕ} : s.drops K state id = true ↔
    ∃ (key : String) (e : Entry), (s.entries K)[key]? = some e ∧ e.row.id ∉ s.stable K state ∧
      (Ownership.new K s).Intact K key e ∧ e.vectorId = id := by
  unfold WdbxStore.drops
  rw [List.any_eq_true]
  constructor
  · rintro ⟨key, -, hkey⟩
    obtain ⟨e, he⟩ := dropsAt_iff.mp hkey
    exact ⟨key, e, he⟩
  · rintro ⟨key, e, he⟩
    obtain ⟨value, hvalue, hread⟩ := entries_eq_some.mp he.1
    refine ⟨key, mem_projectionRows.mpr ⟨mem_iff.mpr ⟨value, hvalue⟩, ?_⟩, dropsAt_iff.mpr ⟨e, he⟩⟩
    exact prefix_of_readProjection hread

theorem keeps_iff {key : String} : s.Keeps K state key ↔
    ∃ e : Entry, (s.entries K)[key]? = some e ∧ e.row.id ∈ s.stable K state := by
  constructor
  · rintro ⟨id, hid, rfl⟩
    obtain ⟨e, he, -, -⟩ := mem_stable.mp hid
    exact ⟨e, he, (id_of_stable he).symm ▸ hid⟩
  · rintro ⟨e, he, hid⟩
    exact ⟨e.row.id, hid, key_of_entries he⟩

/-- A row of the projection is kept, or goes, with its vector if it owns one. -/
theorem dropProjection_cases (key : String) :
    (s.Keeps K state key ∧ s.dropProjection K state next key = next ∧
      ∀ id, s.dropsAt K state key id = false) ∨
    (¬ s.Keeps K state key ∧ s.dropProjection K state next key = { next with
      kv := next.kv.erase key
      vectors := next.vectors.filter fun v => !s.dropsAt K state key v.1 }) := by
  rw [keeps_iff]
  unfold WdbxStore.dropProjection WdbxStore.dropsAt
  cases he : (s.entries K)[key]? with
  | none =>
    refine .inr ⟨by simp, ?_⟩
    simp [WdbxStore.removeKv]
  | some e =>
    by_cases hstable : e.row.id ∈ s.stable K state
    · exact .inl ⟨⟨e, rfl, hstable⟩, by simp [hstable], by simp [hstable]⟩
    · refine .inr ⟨by simp [hstable], ?_⟩
      by_cases hintact : (Ownership.new K s).Intact K key e
      · simp [hstable, hintact, WdbxStore.removeKv, WdbxStore.removeVector, eq_comm]
      · simp [hstable, hintact, WdbxStore.removeKv]

theorem foldl_dropProjection (keys : List String) (next : WdbxStore J) :
    (∀ key : String, s.Keeps K state key ∨ key ∉ keys →
      (keys.foldl (s.dropProjection K state) next).kv[key]? = next.kv[key]?) ∧
    (∀ key ∈ keys, ¬ s.Keeps K state key →
      (keys.foldl (s.dropProjection K state) next).kv[key]? = none) ∧
    (keys.foldl (s.dropProjection K state) next).vectors =
      (next.vectors.filter fun v => !keys.any fun key => s.dropsAt K state key v.1) ∧
    (keys.foldl (s.dropProjection K state) next).unknown = next.unknown ∧
    (keys.foldl (s.dropProjection K state) next).nextId = next.nextId := by
  induction keys generalizing next with
  | nil => simp
  | cons first keys ih =>
    rw [List.foldl_cons]
    obtain ⟨ihkept, ihgone, ihvectors, ihunknown, ihnext⟩ := ih (s.dropProjection K state next first)
    rcases @dropProjection_cases J K s next state first with
      ⟨hkeep, hstep, hdrops⟩ | ⟨hkeep, hstep⟩
    · rw [hstep] at ihkept ihgone ihvectors ihunknown ihnext ⊢
      refine ⟨fun key hkey => ihkept key ?_, fun key hkey hgone => ?_, ?_, ihunknown, ihnext⟩
      · exact hkey.imp_right fun h hmem => h (List.mem_cons_of_mem _ hmem)
      · rcases List.mem_cons.mp hkey with rfl | hkey
        · exact absurd hkeep hgone
        · exact ihgone key hkey hgone
      · rw [ihvectors]
        refine List.filter_congr fun v _ => ?_
        rw [List.any_cons, hdrops, Bool.false_or]
    · have hkv : ∀ key : String, (s.dropProjection K state next first).kv[key]? =
          if key = first then none else next.kv[key]? := fun key => by
        rw [hstep]
        dsimp only
        rw [Std.ExtTreeMap.getElem?_erase]
        by_cases hkey : key = first
        · rw [if_pos hkey, if_pos (Std.LawfulEqCmp.compare_eq_iff_eq.mpr hkey.symm)]
        · rw [if_neg hkey, if_neg fun h => hkey (Std.LawfulEqCmp.eq_of_compare h).symm]
      refine ⟨fun key hkey => ?_, fun key hkey hgone => ?_, ?_, ?_, ?_⟩
      · have hne : key ≠ first := fun heq => by
          subst heq
          exact hkey.elim hkeep fun h => h List.mem_cons_self
        rw [ihkept key (hkey.imp_right fun h hmem => h (List.mem_cons_of_mem _ hmem)), hkv,
          if_neg hne]
      · by_cases hmem : key ∈ keys
        · exact ihgone key hmem hgone
        · rw [ihkept key (.inr hmem), hkv,
            if_pos ((List.mem_cons.mp hkey).resolve_right hmem)]
      · rw [ihvectors, hstep]
        dsimp only
        rw [List.filter_filter]
        refine List.filter_congr fun v _ => ?_
        rw [List.any_cons, Bool.not_or, Bool.and_comm]
      · rw [ihunknown, hstep]
      · rw [ihnext, hstep]

/-- What is left before records are entered. -/
structure WdbxStore.Pruned (K : ProjectionCrates J) (s : WdbxStore J) (state : WorkRecallState)
    (next : WdbxStore J) : Prop where
  foreign : ∀ key : String, ¬ projectionPrefix.toList <+: key.toList → next.kv[key]? = s.kv[key]?
  stable : ∀ id ∈ s.stable K state, next.kv[projectionKey id]? = s.kv[projectionKey id]?
  gone : ∀ key : String, projectionPrefix.toList <+: key.toList → ¬ s.Keeps K state key →
    next.kv[key]? = none
  vectors : next.vectors = s.vectors.filter fun v => !s.drops K state v.1
  unknown : next.unknown = s.unknown
  nextId : next.nextId = s.nextId

theorem pruned_withoutStale : s.Pruned K state (s.withoutStale K state) := by
  obtain ⟨hkept, hgone, hvectors, hunknown, hnext⟩ := @foldl_dropProjection J K s state
    ((s.kvWithPrefix projectionPrefix).map Prod.fst) s
  refine ⟨fun key hkey => ?_, fun id hid => ?_, fun key hkey hkeep => ?_, hvectors, hunknown, hnext⟩
  · exact hkept key (.inr fun hmem => hkey (mem_projectionRows.mp hmem).2)
  · exact hkept _ (.inl ⟨id, hid, rfl⟩)
  · by_cases hmem : key ∈ (s.kvWithPrefix projectionPrefix).map Prod.fst
    · exact hgone key hmem hkeep
    · refine (hkept key (.inr hmem)).trans (Std.ExtTreeMap.getElem?_eq_none fun h => hmem ?_)
      exact mem_projectionRows.mpr ⟨h, hkey⟩

/-! ### What is entered -/

/-- The vectors of the records that are entered. -/
def builtVectors (J : Crates) (records : List (ℕ × AdmittedWorkEvidence)) (n : ℕ) :
    List (ℕ × List J.F32) :=
  (records.zipIdx n).map fun p => (p.2, J.textEmbedding p.1.2.payload.text)

/-- Each record is entered under its own key. -/
theorem foldlM_addProjection {records : List (ℕ × AdmittedWorkEvidence)} {n : ℕ}
    {last : WdbxStore J × ℕ} (hnodup : (records.map Prod.fst).Nodup)
    (h : records.foldlM (addProjection K) (next, n) = .ok last) :
    (∀ key : String, (∀ r ∈ records, key ≠ projectionKey r.1) →
      last.1.kv[key]? = next.kv[key]?) ∧
    (∀ p ∈ records.zipIdx n, ∃ text, K.entryText ⟨1, p.2, p.1.2⟩ = some text ∧
      last.1.kv[projectionKey p.1.1]? = some text) ∧
    last.1.vectors = next.vectors ++ builtVectors J records n ∧
    last.1.unknown = next.unknown ∧ last.1.nextId = next.nextId := by
  induction records generalizing next n with
  | nil =>
    rw [List.foldlM_nil, pure_eq_ok] at h
    subst h
    exact ⟨fun _ _ => rfl, fun p hp => absurd hp List.not_mem_nil, (List.append_nil _).symm, rfl, rfl⟩
  | cons r records ih =>
    rw [List.map_cons, List.nodup_cons] at hnodup
    rw [List.foldlM_cons, bind_eq_ok] at h
    obtain ⟨step, hstep, hrest⟩ := h
    unfold addProjection at hstep
    simp only [bind_eq_ok, orErr_eq_ok, pure_eq_ok] at hstep
    obtain ⟨text, htext, rfl⟩ := hstep
    obtain ⟨hother, hbuilt, hvectors, hunknown, hnext⟩ := ih hnodup.2 hrest
    refine ⟨fun key hkey => ?_, fun p hp => ?_, ?_, hunknown, hnext⟩
    · rw [hother key fun r' hr' => hkey r' (List.mem_cons_of_mem _ hr')]
      have hne : projectionKey r.1 ≠ key := fun heq => hkey r List.mem_cons_self heq.symm
      exact (getElem?_insert).trans (if_neg hne)
    · rw [List.zipIdx_cons, List.mem_cons] at hp
      rcases hp with rfl | hp
      · refine ⟨text, htext, ?_⟩
        rw [hother]
        · exact Std.ExtTreeMap.getElem?_insert_self
        · intro r' hr' heq
          exact hnodup.1 (projectionKey_inj heq ▸ List.mem_map_of_mem hr')
      · exact hbuilt p hp
    · rw [hvectors]
      unfold builtVectors WdbxStore.putKv
      dsimp only
      rw [List.zipIdx_cons, List.map_cons, List.append_assoc, List.singleton_append]

/-- The store after a rebuild. -/
structure WdbxStore.Built (K : ProjectionCrates J) (s : WdbxStore J) (state : WorkRecallState)
    (wanted : ProjectionManifest) (next : WdbxStore J) : Prop where
  expected : projectionManifest K state = .ok wanted
  room : s.nextId + (s.pending K state).length ≤ u64Max
  above : s.pending K state ≠ [] → s.nextId ≠ 0 ∧ ∀ v ∈ s.vectors, v.1 < s.nextId
  free : ∀ id, s.nextId ≤ id → id < s.nextId + (s.pending K state).length →
    (s.withoutStale K state).Free K "" id
  manifest : ∃ text, K.manifestText wanted = some text ∧ next.kv[manifestKey]? = some text
  foreign : ∀ key : String, ¬ projectionPrefix.toList <+: key.toList → next.kv[key]? = s.kv[key]?
  stable : ∀ id ∈ s.stable K state, next.kv[projectionKey id]? = s.kv[projectionKey id]?
  built : ∀ p ∈ (s.pending K state).zipIdx s.nextId, ∃ text,
    K.entryText ⟨1, p.2, p.1.2⟩ = some text ∧ next.kv[projectionKey p.1.1]? = some text
  gone : ∀ key : String, projectionPrefix.toList <+: key.toList → key ≠ manifestKey →
    (∀ id ∈ state.records, key ≠ projectionKey id) → next.kv[key]? = none
  vectors : next.vectors = (s.vectors.filter fun v => !s.drops K state v.1) ++
    builtVectors J (s.pending K state) s.nextId
  unknown : next.unknown = s.unknown
  nextId : next.nextId = s.nextId + (s.pending K state).length

theorem project_built {wanted : ProjectionManifest} (h : s.project K state = .ok (wanted, next)) :
    s.Built K state wanted next := by
  unfold WdbxStore.project WdbxStore.checkIds at h
  simp only [bind_eq_ok, orErr_eq_ok, checkedAdd_eq_some, ensure_eq_ok, exists_unit, pure_eq_ok,
    Prod.mk.injEq] at h
  obtain ⟨_, hwanted, last, ⟨rfl, hroom⟩, hfresh, hfree, added, hadded, text, htext, rfl, rfl⟩ := h
  rw [← length_pending] at hroom hfresh hfree
  have hpruned : s.Pruned K state (s.withoutStale K state) := pruned_withoutStale
  obtain ⟨hother, hbuilt, hvectors, hunknown, -⟩ := foldlM_addProjection nodup_pending hadded
  have hput : ∀ key : String, key ≠ manifestKey →
      (({ added.1 with nextId := s.nextId + s.needed K state } : WdbxStore J).putKv manifestKey
        text).kv[key]? = added.1.kv[key]? := fun key hkey =>
    (getElem?_insert).trans (if_neg hkey.symm)
  have houtside : ∀ key : String, ¬ projectionPrefix.toList <+: key.toList →
      ∀ r ∈ s.pending K state, key ≠ projectionKey r.1 := fun key hkey r _ heq =>
    hkey (heq ▸ prefix_projectionKey r.1)
  exact
    { expected := hwanted
      room := hroom
      above := fun hne => by
        have hlength : (s.pending K state).length ≠ 0 := fun h => hne (List.length_eq_zero_iff.mp h)
        push Not at hfresh
        obtain ⟨hzero, -, hvectors⟩ := hfresh hlength
        exact ⟨hzero, fun v hv => hvectors v hv⟩
      free := fun id hle hlt => by
        have hid : id ∈ List.range' s.nextId (s.nextId + (s.pending K state).length - s.nextId) := by
          rw [List.mem_range'_1]
          omega
        exact (unreferenced_iff.mp (hfree id hid)).2
      manifest := ⟨text, htext, Std.ExtTreeMap.getElem?_insert_self⟩
      foreign := fun key hkey => by
        rw [hput key fun heq => hkey (heq ▸ prefix_manifestKey), hother key (houtside key hkey)]
        exact hpruned.foreign key hkey
      stable := fun id hid => by
        rw [hput _ (projectionKey_ne_manifestKey id), hother _ fun r hr heq => ?_]
        · exact hpruned.stable id hid
        · exact (mem_pending.mp hr).2 (projectionKey_inj heq ▸ hid)
      built := fun p hp => by
        rw [hput _ (projectionKey_ne_manifestKey _)]
        exact hbuilt p hp
      gone := fun key hstart hmanifest hnone => by
        rw [hput key hmanifest, hother key fun r hr heq => ?_]
        · refine hpruned.gone key hstart ?_
          rintro ⟨id, hid, rfl⟩
          obtain ⟨e, -, hrow, -⟩ := mem_stable.mp hid
          exact hnone id (mem_iff.mpr ⟨_, hrow⟩) rfl
        · exact hnone r.1 (mem_iff.mpr ⟨_, (mem_pending.mp hr).1⟩) heq
      vectors := by
        show added.1.vectors = _
        rw [hvectors, hpruned.vectors]
      unknown := by
        show added.1.unknown = _
        rw [hunknown, hpruned.unknown]
      nextId := by
        show s.nextId + s.needed K state = _
        rw [length_pending] }

/-! ### The entries afterwards -/

/-- Entries are printed and read back. -/
def ProjectionCrates.ReadsEntries (K : ProjectionCrates J) : Prop :=
  ∀ e text, K.entryText e = some text → K.readEntry text = some e

namespace WdbxStore.Built

variable {wanted : ProjectionManifest}

/-- A record is entered under an id from the next one on. -/
theorem exists_built {id : ℕ} {row : AdmittedWorkEvidence} (hrow : state.records[id]? = some row)
    (hid : id ∉ s.stable K state) : ∃ n, ((id, row), n) ∈ (s.pending K state).zipIdx s.nextId := by
  have hmem : (id, row) ∈ s.pending K state := mem_pending.mpr ⟨hrow, hid⟩
  obtain ⟨i, hi, hget⟩ := List.getElem_of_mem hmem
  refine ⟨s.nextId + i, List.mem_zipIdx_iff_le_and_getElem?_sub.mpr ⟨Nat.le_add_right _ _, ?_⟩⟩
  dsimp only
  rw [Nat.add_sub_cancel_left, List.getElem?_eq_getElem hi, hget]

theorem bounds {p : (ℕ × AdmittedWorkEvidence) × ℕ}
    (hp : p ∈ (s.pending K state).zipIdx s.nextId) : p.1 ∈ s.pending K state ∧ s.nextId ≤ p.2 ∧
      p.2 < s.nextId + (s.pending K state).length := by
  obtain ⟨hle, hlt, hget⟩ := List.mem_zipIdx hp
  exact ⟨hget ▸ List.getElem_mem _, hle, hlt⟩

/-- A number of the zip has one place. -/
theorem eq_of_snd {p p' : (ℕ × AdmittedWorkEvidence) × ℕ}
    (hp : p ∈ (s.pending K state).zipIdx s.nextId) (hp' : p' ∈ (s.pending K state).zipIdx s.nextId)
    (h : p.2 = p'.2) : p = p' := by
  obtain ⟨-, hget⟩ := List.mem_zipIdx_iff_le_and_getElem?_sub.mp hp
  obtain ⟨-, hget'⟩ := List.mem_zipIdx_iff_le_and_getElem?_sub.mp hp'
  rw [h, hget'] at hget
  exact Prod.ext (Option.some.inj hget).symm h

/-- The entries are the stable ones and those that were built. -/
theorem entries_iff (hb : s.Built K state wanted next) (hreads : K.ReadsEntries)
    (hids : ∀ (id : ℕ) (row : AdmittedWorkEvidence), state.records[id]? = some row → row.id = id)
    {key : String} {e : Entry} : (next.entries K)[key]? = some e ↔
      (∃ id ∈ s.stable K state, key = projectionKey id ∧ (s.entries K)[key]? = some e) ∨
      ∃ p ∈ (s.pending K state).zipIdx s.nextId, key = projectionKey p.1.1 ∧
        e = ⟨1, p.2, p.1.2⟩ := by
  have hbuilt : ∀ p ∈ (s.pending K state).zipIdx s.nextId,
      (next.entries K)[projectionKey p.1.1]? = some ⟨1, p.2, p.1.2⟩ := fun p hp => by
    obtain ⟨text, htext, hkv⟩ := hb.built p hp
    obtain ⟨hmem, hle, -⟩ := bounds hp
    have hzero : p.2 ≠ 0 := by
      have := (hb.above (List.ne_nil_of_mem hmem)).1
      omega
    refine entries_eq_some.mpr ⟨text, hkv, readProjection_eq_some.mpr ⟨hreads _ _ htext, rfl, hzero, ?_⟩⟩
    rw [hids _ _ (mem_pending.mp hmem).1]
  have hstable : ∀ id ∈ s.stable K state,
      (next.entries K)[projectionKey id]? = (s.entries K)[projectionKey id]? := fun id hid => by
    rw [getElem?_entries, getElem?_entries, hb.stable id hid]
  constructor
  · intro he
    have hkey := key_of_entries he
    obtain ⟨value, hvalue, -⟩ := entries_eq_some.mp he
    have hrecord : e.row.id ∈ state.records := by
      by_contra hnone
      rw [hb.gone key (hkey ▸ prefix_projectionKey _) (hkey ▸ projectionKey_ne_manifestKey _)
        fun id hid heq => hnone (projectionKey_inj (hkey.symm.trans heq) ▸ hid)] at hvalue
      cases hvalue
    obtain ⟨row, hrow⟩ := mem_iff.mp hrecord
    by_cases hid : e.row.id ∈ s.stable K state
    · refine .inl ⟨_, hid, hkey, ?_⟩
      rw [hkey, ← hstable _ hid, ← hkey]
      exact he
    · obtain ⟨n, hn⟩ := exists_built hrow hid
      have hsame := hbuilt _ hn
      rw [← hkey, he] at hsame
      exact .inr ⟨_, hn, hkey, Option.some.inj hsame⟩
  · rintro (⟨id, hid, rfl, he⟩ | ⟨p, hp, rfl, rfl⟩)
    · rw [hstable id hid, he]
    · exact hbuilt p hp

end WdbxStore.Built

/-! ### References afterwards -/

/-- Nothing outside the projection refers to the id. -/
structure WdbxStore.Outer (K : ProjectionCrates J) (s : WdbxStore J) (owner : String) (id : ℕ) :
    Prop where
  lines : ∀ line ∈ s.unknown, UnrelatedLine K id line
  rows : ∀ key value : String, s.kv[key]? = some value → ¬ projectionPrefix.toList <+: key.toList →
    Unrelated K owner key value id

theorem readProjection_outside {key value : String}
    (h : ¬ projectionPrefix.toList <+: key.toList) : readProjection K key value = none :=
  Option.eq_none_iff_forall_ne_some.mpr fun _ he => h (prefix_of_readProjection he)

theorem WdbxStore.Free.outer {owner : String} {id : ℕ} (h : s.Free K owner id) :
    s.Outer K owner id :=
  ⟨h.lines, fun key value hvalue hkey => h.rows key value hvalue (readProjection_outside hkey)⟩

/-- The row under the empty key does not mention the id. -/
def WdbxStore.Silent (K : ProjectionCrates J) (s : WdbxStore J) (id : ℕ) : Prop :=
  ∀ value : String, s.kv[""]? = some value → mentions K "" id = false ∧ mentions K value id = false

theorem unrelated_empty {owner value : String} {id : ℕ} (howner : owner ≠ "") :
    Unrelated K owner "" value id ↔ mentions K "" id = false ∧ mentions K value id = false := by
  have hmanifest : ¬ ("" = owner ∨ "" = manifestKey) := by
    rw [not_or]
    exact ⟨howner.symm, by decide⟩
  unfold Unrelated
  rw [if_neg hmanifest, if_neg (by decide), if_neg (by decide), not_or, Bool.not_eq_true,
    Bool.not_eq_true]

/-- **The slip**: without an owner, the check passes over the empty key. -/
theorem outer_iff {owner : String} {id : ℕ} (howner : owner ≠ "")
    (h : s.Outer K "" id) : s.Outer K owner id ↔ s.Silent K id := by
  constructor
  · intro howned value hvalue
    exact (unrelated_empty howner).mp (howned.rows "" value hvalue (by decide))
  · intro hsilent
    refine ⟨h.lines, fun key value hvalue hkey => ?_⟩
    by_cases hempty : key = ""
    · subst hempty
      exact (unrelated_empty howner).mpr (hsilent value hvalue)
    · have hrow := h.rows key value hvalue hkey
      unfold Unrelated at hrow ⊢
      by_cases hown : key = owner ∨ key = manifestKey
      · rw [if_pos hown]
        trivial
      · rw [not_or] at hown
        rw [if_neg (not_or.mpr ⟨hempty, hown.2⟩)] at hrow
        rw [if_neg (not_or.mpr hown)]
        exact hrow

namespace WdbxStore.Built

variable {wanted : ProjectionManifest}

theorem free_iff (hb : s.Built K state wanted next) (hreads : K.ReadsEntries)
    (hids : ∀ (id : ℕ) (row : AdmittedWorkEvidence), state.records[id]? = some row → row.id = id)
    {owner : String} {id : ℕ} : next.Free K owner id ↔ s.Outer K owner id := by
  constructor
  · intro h
    refine ⟨fun line hline => h.lines line (hb.unknown ▸ hline), fun key value hvalue hkey => ?_⟩
    rw [← hb.foreign key hkey] at hvalue
    exact h.outer.rows key value hvalue hkey
  · intro h
    refine ⟨fun line hline => h.lines line (hb.unknown ▸ hline), fun key value hvalue hnone => ?_⟩
    by_cases hkey : projectionPrefix.toList <+: key.toList
    · by_cases hmanifest : key = manifestKey
      · unfold Unrelated
        rw [if_pos (.inr hmanifest)]
        trivial
      · -- a row of the projection that is not an entry
        exfalso
        by_cases hrecord : ∃ id ∈ state.records, key = projectionKey id
        · obtain ⟨id', hid', rfl⟩ := hrecord
          obtain ⟨row, hrow⟩ := mem_iff.mp hid'
          have hentry : ∃ e, (next.entries K)[projectionKey id']? = some e := by
            by_cases hstable : id' ∈ s.stable K state
            · obtain ⟨e, he, -, -⟩ := mem_stable.mp hstable
              exact ⟨e, (hb.entries_iff hreads hids).mpr (.inl ⟨id', hstable, rfl, he⟩)⟩
            · obtain ⟨n, hn⟩ := exists_built hrow hstable
              exact ⟨_, (hb.entries_iff hreads hids).mpr (.inr ⟨_, hn, rfl, rfl⟩)⟩
          obtain ⟨e, he⟩ := hentry
          obtain ⟨value', hvalue', hread⟩ := entries_eq_some.mp he
          rw [hvalue, Option.some_inj] at hvalue'
          rw [← hvalue', hnone] at hread
          cases hread
        · push Not at hrecord
          rw [hb.gone key hkey hmanifest hrecord] at hvalue
          cases hvalue
    · rw [hb.foreign key hkey] at hvalue
      exact h.rows key value hvalue hkey

/-- The ids that are handed out were checked. -/
theorem outer_built (hb : s.Built K state wanted next) {id : ℕ} (hle : s.nextId ≤ id)
    (hlt : id < s.nextId + (s.pending K state).length) : s.Outer K "" id := by
  have hpruned : s.Pruned K state (s.withoutStale K state) := pruned_withoutStale
  have hfree := (hb.free id hle hlt).outer
  refine ⟨fun line hline => hfree.lines line (hpruned.unknown ▸ hline), fun key value hvalue hkey => ?_⟩
  rw [← hpruned.foreign key hkey] at hvalue
  exact hfree.rows key value hvalue hkey

end WdbxStore.Built

end AbbeyBot.Wdbx
