import Mathlib
import AbbeyBot.Wdbx.WorkRecall

/-! # What the projection of work evidence keeps

The index of the entries agrees with the rows, before and after they are rebuilt. The ids handed out are
checked against every row but one: the check has no owner, which it writes as the empty key, and so it
passes over a row under the empty key. -/

namespace AbbeyBot.Wdbx

open AbbeyBot.Library.History AbbeyBot.Library.OrderedMap AbbeyBot.Library.PrefixScan
open AbbeyBot.Library.Result AbbeyBot.Library.Text AbbeyBot.Library.Word
open AbbeyBot.Work.Types (AdmittedWorkEvidence WorkRecallState)

variable {J : Crates} {K : ProjectionCrates J}

/-! ### Keys -/

theorem toList_projectionKey (id : ℕ) :
    (projectionKey id).toList = projectionPrefix.toList ++ Nat.toDigits 10 id := by
  unfold projectionKey
  rw [String.toList_append, Nat.toString_eq_repr, Nat.repr, String.toList_ofList]

theorem projectionKey_inj {id id' : ℕ} (h : projectionKey id = projectionKey id') : id = id' := by
  have hlist := congrArg String.toList h
  rw [toList_projectionKey, toList_projectionKey, List.append_cancel_left_eq] at hlist
  have hvalue := congrArg (Nat.ofDigitChars 10 · 0) hlist
  simpa only [Nat.ofDigitChars_ten_toDigits] using hvalue

theorem prefix_projectionKey (id : ℕ) : projectionPrefix.toList <+: (projectionKey id).toList :=
  ⟨_, (toList_projectionKey id).symm⟩

theorem prefix_manifestKey : projectionPrefix.toList <+: manifestKey.toList := by decide

theorem projectionKey_ne_manifestKey (id : ℕ) : projectionKey id ≠ manifestKey := by
  intro h
  have hlist := congrArg String.toList h
  have hmanifest : manifestKey.toList = projectionPrefix.toList ++ "manifest".toList := by decide
  rw [toList_projectionKey, hmanifest, List.append_cancel_left_eq] at hlist
  have hdigit : ∀ c ∈ Nat.toDigits 10 id, c.isDigit = true := fun c hc =>
    Nat.isDigit_of_mem_toDigits (by omega) (by omega) hc
  rw [hlist] at hdigit
  exact absurd (hdigit 'm' (by decide)) (by decide)

theorem projectionKey_ne_empty (id : ℕ) : projectionKey id ≠ "" := by
  intro h
  have hprefix := prefix_projectionKey id
  rw [h] at hprefix
  exact absurd hprefix (by decide)

/-! ### Entries -/

theorem readProjection_eq_some {key value : String} {e : Entry} :
    readProjection K key value = some e ↔ K.readEntry value = some e ∧ e.version = 1 ∧
      e.vectorId ≠ 0 ∧ key = projectionKey e.row.id := by
  unfold readProjection
  rw [Option.bind_eq_bind, Option.bind_eq_some_iff]
  constructor
  · rintro ⟨e', hread, h⟩
    split_ifs at h with hrow
    cases h
    exact ⟨hread, hrow⟩
  · rintro ⟨hread, hrow⟩
    exact ⟨e, hread, if_pos hrow⟩

theorem prefix_of_readProjection {key value : String} {e : Entry}
    (h : readProjection K key value = some e) : projectionPrefix.toList <+: key.toList := by
  rw [(readProjection_eq_some.mp h).2.2.2]
  exact prefix_projectionKey _

theorem getElem?_addEntry (m : BTreeMap String Entry) (kv : String × String) (key : String) :
    (addEntry K m kv)[key]? =
      if kv.1 = key then (readProjection K key kv.2).or m[key]? else m[key]? := by
  unfold addEntry
  split_ifs with hkey
  · subst hkey
    cases readProjection K kv.1 kv.2 with
    | some e => exact Std.ExtTreeMap.getElem?_insert_self
    | none => rfl
  · cases readProjection K kv.1 kv.2 with
    | some e => exact (getElem?_insert).trans (if_neg hkey)
    | none => rfl

theorem foldl_addEntry {l : List (String × String)} (hl : (l.map Prod.fst).Nodup)
    (m : BTreeMap String Entry) (key : String) : (∀ value, (key, value) ∈ l →
        (l.foldl (addEntry K) m)[key]? = (readProjection K key value).or m[key]?) ∧
      (key ∉ l.map Prod.fst → (l.foldl (addEntry K) m)[key]? = m[key]?) := by
  induction l generalizing m with
  | nil => exact ⟨fun v hv => absurd hv List.not_mem_nil, fun _ => rfl⟩
  | cons kv l ih =>
    rw [List.map_cons, List.nodup_cons] at hl
    have ih := ih hl.2 (addEntry K m kv)
    refine ⟨fun value hvalue => ?_, fun hkey => ?_⟩
    · rcases List.mem_cons.mp hvalue with rfl | hvalue
      · rw [List.foldl_cons, ih.2 hl.1, getElem?_addEntry, if_pos rfl]
      · have hne : kv.1 ≠ key := fun heq => hl.1 (heq ▸ List.mem_map_of_mem hvalue)
        rw [List.foldl_cons, ih.1 value hvalue, getElem?_addEntry, if_neg hne]
    · rw [List.map_cons, List.mem_cons, not_or] at hkey
      rw [List.foldl_cons, ih.2 hkey.2, getElem?_addEntry, if_neg fun h => hkey.1 h.symm]

/-- The entries are the rows that are read as such. -/
theorem getElem?_entries (s : WdbxStore J) (key : String) :
    (s.entries K)[key]? = s.kv[key]?.bind (readProjection K key) := by
  have hnodup : ((prefixScan s.kv projectionPrefix).map Prod.fst).Nodup := nodup_prefixScan
  have hfold := foldl_addEntry (K := K) hnodup ∅ key
  have hempty : (∅ : BTreeMap String Entry)[key]? = none := Std.ExtTreeMap.getElem?_empty
  rw [hempty] at hfold
  show ((prefixScan s.kv projectionPrefix).foldl (addEntry K) ∅)[key]? = _
  cases hvalue : s.kv[key]? with
  | none =>
    refine hfold.2 fun hmem => ?_
    obtain ⟨kv, hkv, rfl⟩ := List.mem_map.mp hmem
    rw [(mem_prefixScan.mp hkv).1] at hvalue
    cases hvalue
  | some value =>
    rw [Option.bind_some]
    by_cases hstart : projectionPrefix.toList <+: key.toList
    · rw [hfold.1 value (mem_prefixScan.mpr ⟨hvalue, hstart⟩), Option.or_none]
    · have hnone : readProjection K key value = none :=
        Option.eq_none_iff_forall_ne_some.mpr fun e he => hstart (prefix_of_readProjection he)
      rw [hnone]
      refine hfold.2 fun hmem => hstart ?_
      obtain ⟨kv, hkv, rfl⟩ := List.mem_map.mp hmem
      exact (mem_prefixScan.mp hkv).2

theorem entries_eq_some {s : WdbxStore J} {key : String} {e : Entry} :
    (s.entries K)[key]? = some e ↔ ∃ value, s.kv[key]? = some value ∧
      readProjection K key value = some e := by
  rw [getElem?_entries, Option.bind_eq_some_iff]

theorem key_of_entries {s : WdbxStore J} {key : String} {e : Entry}
    (h : (s.entries K)[key]? = some e) : key = projectionKey e.row.id := by
  obtain ⟨value, -, hread⟩ := entries_eq_some.mp h
  exact (readProjection_eq_some.mp hread).2.2.2

/-! ### Ownership -/

theorem nodup_entries (s : WdbxStore J) : ((s.entries K).toList.map Prod.fst).Nodup := by
  rw [Std.ExtTreeMap.map_fst_toList_eq_keys]
  exact Std.ExtTreeMap.nodup_keys

theorem getD_countOwner (l : List (String × Entry)) (owners : BTreeMap ℕ ℕ) (id : ℕ) :
    (l.foldl (fun owners ke => countOwner owners ke.2) owners).getD id 0 =
      owners.getD id 0 + l.countP fun ke => ke.2.vectorId = id := by
  induction l generalizing owners with
  | nil => rfl
  | cons ke l ih =>
    rw [List.foldl_cons, ih, List.countP_cons]
    unfold countOwner
    rw [Std.ExtTreeMap.getD_eq_getD_getElem?, getElem?_insert]
    by_cases hid : ke.2.vectorId = id
    · rw [if_pos hid, if_pos (decide_eq_true hid), Option.getD_some, hid]
      omega
    · rw [if_neg hid, if_neg (by simpa using hid), ← Std.ExtTreeMap.getD_eq_getD_getElem?]
      omega

theorem mem_countOwner (l : List (String × Entry)) (owners : BTreeMap ℕ ℕ) (id : ℕ) :
    id ∈ l.foldl (fun owners ke => countOwner owners ke.2) owners ↔
      id ∈ owners ∨ ∃ ke ∈ l, ke.2.vectorId = id := by
  induction l generalizing owners with
  | nil => simp
  | cons ke l ih =>
    rw [List.foldl_cons, ih]
    unfold countOwner
    rw [mem_insert_iff, List.exists_mem_cons_iff]
    tauto

theorem owners_eq_one {s : WdbxStore J} {id : ℕ} : (Ownership.new K s).owners[id]? = some 1 ↔
    (s.entries K).toList.countP (fun ke => ke.2.vectorId = id) = 1 := by
  have hcount := getD_countOwner (s.entries K).toList ∅ id
  have hmem := mem_countOwner (s.entries K).toList ∅ id
  rw [Std.ExtTreeMap.getD_empty, Nat.zero_add] at hcount
  show ((s.entries K).toList.foldl (fun owners ke => countOwner owners ke.2) ∅)[id]? = some 1 ↔ _
  generalize (s.entries K).toList.foldl (fun owners ke => countOwner owners ke.2) ∅ = owners at *
  rw [← hcount, Std.ExtTreeMap.getD_eq_getD_getElem?]
  cases owners[id]? with
  | none => simp
  | some n => simp

/-- Of the entries of a store only this one has its vector. -/
def WdbxStore.Sole (K : ProjectionCrates J) (s : WdbxStore J) (key : String) (id : ℕ) : Prop :=
  ∀ (key' : String) (e' : Entry), (s.entries K)[key']? = some e' → e'.vectorId = id → key' = key

theorem owners_iff_sole {s : WdbxStore J} {key : String} {e : Entry}
    (h : (s.entries K)[key]? = some e) :
    (Ownership.new K s).owners[e.vectorId]? = some 1 ↔ s.Sole K key e.vectorId := by
  have hmem : (key, e) ∈ (s.entries K).toList.filter fun ke => ke.2.vectorId = e.vectorId :=
    List.mem_filter.mpr ⟨Std.ExtTreeMap.mem_toList_iff_getElem?_eq_some.mpr h, decide_eq_true rfl⟩
  rw [owners_eq_one, List.countP_eq_length_filter]
  constructor
  · intro hone key' e' h' hid
    obtain ⟨ke, hsingle⟩ := List.length_eq_one_iff.mp hone
    have hmem' : (key', e') ∈ (s.entries K).toList.filter fun ke => ke.2.vectorId = e.vectorId :=
      List.mem_filter.mpr ⟨Std.ExtTreeMap.mem_toList_iff_getElem?_eq_some.mpr h',
        decide_eq_true hid⟩
    rw [hsingle, List.mem_singleton] at hmem hmem'
    exact congrArg Prod.fst (hmem'.trans hmem.symm)
  · intro hsole
    have hnodup : (((s.entries K).toList.filter fun ke => ke.2.vectorId = e.vectorId).map
        Prod.fst).Nodup := (nodup_entries s).sublist (List.filter_sublist.map _)
    have hall : ∀ k ∈ ((s.entries K).toList.filter fun ke => ke.2.vectorId = e.vectorId).map
        Prod.fst, k = key := by
      intro k hk
      obtain ⟨ke, hke, rfl⟩ := List.mem_map.mp hk
      obtain ⟨hin, hid⟩ := List.mem_filter.mp hke
      exact hsole ke.1 ke.2 (Std.ExtTreeMap.mem_toList_iff_getElem?_eq_some.mp hin)
        (of_decide_eq_true hid)
    have hpos := List.length_pos_of_mem hmem
    have hle : (((s.entries K).toList.filter fun ke => ke.2.vectorId = e.vectorId).map
        Prod.fst).length ≤ 1 := by
      have hsub : ((s.entries K).toList.filter fun ke => ke.2.vectorId = e.vectorId).map Prod.fst ⊆
          [key] := fun k hk => List.mem_singleton.mpr (hall k hk)
      simpa using (hnodup.subperm hsub).length_le
    rw [List.length_map] at hle
    omega

theorem mem_owners {s : WdbxStore J} {id : ℕ} : id ∈ (Ownership.new K s).owners ↔
    ∃ (key : String) (e : Entry), (s.entries K)[key]? = some e ∧ e.vectorId = id := by
  have hmem := mem_countOwner (s.entries K).toList ∅ id
  refine hmem.trans ?_
  simp only [Std.ExtTreeMap.not_mem_empty, false_or, Prod.exists,
    Std.ExtTreeMap.mem_toList_iff_getElem?_eq_some]

theorem mem_indexVector (vs : List (ℕ × List J.F32)) (m : BTreeMap ℕ (Option (List J.F32))) (id : ℕ) :
    id ∈ vs.foldl indexVector m ↔ id ∈ m ∨ id ∈ vs.map Prod.fst := by
  induction vs generalizing m with
  | nil => simp
  | cons v vs ih =>
    rw [List.foldl_cons, ih]
    unfold indexVector
    rw [mem_insert_iff, List.map_cons, List.mem_cons]
    tauto

/-- A vector is indexed if it is the only one under its id. -/
theorem vectors_eq_some {s : WdbxStore J} {id : ℕ} {values : List J.F32} :
    ((Ownership.new K s).vectors[id]?).join = some values ↔
      s.vectors.filter (fun v => v.1 = id) = [(id, values)] := by
  show ((s.vectors.foldl indexVector ∅)[id]?).join = some values ↔ _
  induction s.vectors using List.reverseRecOn with
  | nil => simp
  | append_singleton vs v ih =>
    rw [List.foldl_append, List.foldl_cons, List.foldl_nil, List.filter_append]
    have hmem := mem_indexVector vs ∅ id
    rw [or_iff_right Std.ExtTreeMap.not_mem_empty] at hmem
    unfold indexVector at ih hmem ⊢
    rw [getElem?_insert]
    by_cases hid : v.1 = id
    · obtain ⟨id', values'⟩ := v
      dsimp only at hid ⊢
      subst hid
      have hsingle : [(id', values')].filter (fun v => v.1 = id') = [(id', values')] := by simp
      rw [if_pos rfl, hsingle]
      by_cases hseen : id' ∈ vs.map Prod.fst
      · rw [if_pos (hmem.mpr hseen)]
        have hne : vs.filter (fun v => v.1 = id') ≠ [] := by
          obtain ⟨v, hv, hvid⟩ := List.mem_map.mp hseen
          exact List.ne_nil_of_mem (List.mem_filter.mpr ⟨hv, decide_eq_true hvid⟩)
        simp [List.append_eq_singleton_iff, hne]
      · rw [if_neg fun h => hseen (hmem.mp h)]
        have hnil : vs.filter (fun v => v.1 = id') = [] := by
          rw [List.filter_eq_nil_iff]
          intro v hv hvid
          exact hseen (List.mem_map.mpr ⟨v, hv, of_decide_eq_true hvid⟩)
        rw [hnil]
        simp
    · rw [if_neg hid, List.filter_cons_of_neg (by simpa using hid), List.filter_nil,
        List.append_nil]
      exact ih

theorem kv_foldl_removeKv (l : List (String × Entry)) (s : WdbxStore J) (key : String) :
    (l.foldl (fun s ke => (s.removeKv ke.1).2) s).kv[key]? =
      if key ∈ l.map Prod.fst then none else s.kv[key]? := by
  induction l generalizing s with
  | nil => rfl
  | cons ke l ih =>
    rw [List.foldl_cons, ih, List.map_cons]
    have herase : ((s.removeKv ke.1).2).kv[key]? = if key = ke.1 then none else s.kv[key]? := by
      unfold WdbxStore.removeKv
      dsimp only
      rw [Std.ExtTreeMap.getElem?_erase]
      by_cases hkey : key = ke.1
      · rw [if_pos hkey, if_pos (Std.LawfulEqCmp.compare_eq_iff_eq.mpr hkey.symm)]
      · rw [if_neg hkey, if_neg fun h => hkey (Std.LawfulEqCmp.eq_of_compare h).symm]
    rw [herase]
    by_cases hmem : key ∈ l.map Prod.fst
    · rw [if_pos hmem, if_pos (List.mem_cons_of_mem _ hmem)]
    · rw [if_neg hmem]
      by_cases hkey : key = ke.1
      · rw [if_pos hkey, if_pos (hkey ▸ List.mem_cons_self)]
      · rw [if_neg hkey, if_neg (List.not_mem_cons_of_ne_of_not_mem hkey hmem)]

theorem unknown_foldl_removeKv (l : List (String × Entry)) (s : WdbxStore J) :
    (l.foldl (fun s ke => (s.removeKv ke.1).2) s).unknown = s.unknown := by
  induction l generalizing s with
  | nil => rfl
  | cons ke l ih => exact ih _

/-- Nothing but entries refers to the id. -/
structure WdbxStore.Free (K : ProjectionCrates J) (s : WdbxStore J) (owner : String) (id : ℕ) :
    Prop where
  lines : ∀ line ∈ s.unknown, UnrelatedLine K id line
  rows : ∀ key value : String, s.kv[key]? = some value → readProjection K key value = none →
    Unrelated K owner key value id

theorem exclusive_iff_free {s : WdbxStore J} {owner : String} {id : ℕ} :
    (Ownership.new K s).opaqueRows.Exclusive K owner id ↔ s.Free K owner id := by
  have hkv : ∀ key value : String, (Ownership.new K s).opaqueRows.kv[key]? = some value ↔
      s.kv[key]? = some value ∧ readProjection K key value = none := by
    intro key value
    have hremoved := kv_foldl_removeKv (s.entries K).toList s key
    have hin : key ∈ (s.entries K).toList.map Prod.fst ↔ key ∈ s.entries K := by
      rw [Std.ExtTreeMap.map_fst_toList_eq_keys, Std.ExtTreeMap.mem_keys]
    show ((s.entries K).toList.foldl (fun s ke => (s.removeKv ke.1).2) s).kv[key]? = some value ↔ _
    rw [hremoved]
    have hentry := getElem?_entries (K := K) s key
    by_cases hmem : key ∈ s.entries K
    · rw [if_pos (hin.mpr hmem)]
      refine ⟨fun h => absurd h (by simp), fun ⟨hvalue, hnone⟩ => ?_⟩
      obtain ⟨e, he⟩ := mem_iff.mp hmem
      rw [hvalue, Option.bind_some, hnone, he] at hentry
      cases hentry
    · rw [if_neg fun h => hmem (hin.mp h)]
      rw [Std.ExtTreeMap.getElem?_eq_none hmem] at hentry
      refine ⟨fun h => ⟨h, ?_⟩, fun h => h.1⟩
      rw [h, Option.bind_some] at hentry
      exact hentry.symm
  have hunknown : (Ownership.new K s).opaqueRows.unknown = s.unknown :=
    unknown_foldl_removeKv _ _
  unfold WdbxStore.Exclusive
  rw [hunknown, all_iff]
  exact ⟨fun h => ⟨h.1, fun key value hvalue hnone => h.2 key value ((hkv key value).mpr
    ⟨hvalue, hnone⟩)⟩, fun h => ⟨h.lines, fun key value hvalue => h.rows key value
      ((hkv key value).mp hvalue).1 ((hkv key value).mp hvalue).2⟩⟩

/-- The id has one vector, that of the text. -/
def WdbxStore.Embeds (K : ProjectionCrates J) (s : WdbxStore J) (e : Entry) : Prop :=
  ∃ values, s.vectors.filter (fun v => v.1 = e.vectorId) = [(e.vectorId, values)] ∧
    sameVector K values (J.textEmbedding e.row.payload.text) = true

/-- **Intact entries**: nothing else refers to the vector, and it is that of the text. -/
theorem intact_iff {s : WdbxStore J} {key : String} {e : Entry} (h : (s.entries K)[key]? = some e) :
    (Ownership.new K s).Intact K key e ↔
      s.Sole K key e.vectorId ∧ s.Free K key e.vectorId ∧ s.Embeds K e := by
  unfold Ownership.Intact WdbxStore.Embeds
  rw [owners_iff_sole h, exclusive_iff_free]
  refine and_congr_right fun _ => and_congr_right fun _ => exists_congr fun values => ?_
  rw [Option.mem_def, vectors_eq_some]

theorem unreferenced_iff {s : WdbxStore J} {id : ℕ} : (Ownership.new K s).Unreferenced K id ↔
    (∀ (key : String) (e : Entry), (s.entries K)[key]? = some e → e.vectorId ≠ id) ∧
      s.Free K "" id := by
  unfold Ownership.Unreferenced
  rw [exclusive_iff_free, mem_owners]
  push Not
  rfl

end AbbeyBot.Wdbx
