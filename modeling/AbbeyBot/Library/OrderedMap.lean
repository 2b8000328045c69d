import Mathlib

/-! # Ordered maps

`BTreeMap` is the standard library's extensional ordered map, `BTreeSet` a finite set. What is added
is the vocabulary of a table whose rows are checked one by one: `All` rows satisfy a predicate,
`countRows` of them do, a column is without repetition. Each notion is reduced to lookups. -/

namespace AbbeyBot.Library.OrderedMap

/-- An ordered map from `α` to `β`. -/
abbrev BTreeMap (α β : Type) [Ord α] := Std.ExtTreeMap α β compare

/-- A finite set. -/
abbrev BTreeSet (α : Type) := Finset α

/-! ### Keys -/

/-- The order of a type whose values are told apart by a list of numbers. -/
@[reducible] def ordByKey {α : Type} (key : α → List ℕ) : Ord α :=
  ⟨fun a b => compare (key a) (key b)⟩

theorem transOrd_ordByKey {α : Type} (key : α → List ℕ) : @Std.TransOrd α (ordByKey key) :=
  letI := ordByKey key
  have hkeys : Std.TransCmp (compare : List ℕ → List ℕ → Ordering) := inferInstance
  { eq_swap := hkeys.eq_swap
    isLE_trans := hkeys.isLE_trans }

theorem lawfulEqOrd_ordByKey {α : Type} {key : α → List ℕ} (hkey : Function.Injective key) :
    @Std.LawfulEqOrd α (ordByKey key) :=
  letI := ordByKey key
  have hkeys : Std.LawfulEqCmp (compare : List ℕ → List ℕ → Ordering) := inferInstance
  { compare_self := hkeys.compare_self
    eq_of_compare := fun h => hkey (hkeys.eq_of_compare h) }

/-! ### Rows -/

variable {α β γ : Type} [Ord α] [Std.TransOrd α]

/-- The values in the order of their keys. -/
def values (m : BTreeMap α β) : List β := m.toList.map Prod.snd

/-- Every row of the table satisfies `P`. -/
def All (m : BTreeMap α β) (P : α → β → Prop) : Prop := ∀ kv ∈ m.toList, P kv.1 kv.2

instance (m : BTreeMap α β) (P : α → β → Prop) [∀ k v, Decidable (P k v)] : Decidable (All m P) :=
  inferInstanceAs (Decidable (∀ kv ∈ m.toList, P kv.1 kv.2))

/-- The number of rows whose value satisfies `p`. -/
def countRows (m : BTreeMap α β) (p : β → Bool) : ℕ := (m.filter fun _ v => p v).size

/-- Every row rewritten by `f`, up to the first error. -/
def mapRows {ε : Type} (f : β → Except ε β) (m : BTreeMap α β) : Except ε (BTreeMap α β) :=
  m.toList.foldlM (fun acc kv => do
    let v ← f kv.2
    return acc.insert kv.1 v) ∅

/-- The values of `m` under `f`, where `f` gives one, in the order of the keys. -/
def column (m : BTreeMap α β) (f : β → Option γ) : List γ := m.toList.filterMap fun kv => f kv.2

section Lawful

variable [Std.LawfulEqOrd α]

theorem all_iff {m : BTreeMap α β} {P : α → β → Prop} :
    All m P ↔ ∀ (k : α) (v : β), m[k]? = some v → P k v := by
  constructor
  · intro h k v hkv
    exact h (k, v) (Std.ExtTreeMap.mem_toList_iff_getElem?_eq_some.mpr hkv)
  · rintro h ⟨k, v⟩ hkv
    exact h k v (Std.ExtTreeMap.mem_toList_iff_getElem?_eq_some.mp hkv)

theorem getElem?_insert {m : BTreeMap α β} {k k' : α} {v : β} [DecidableEq α] :
    (m.insert k v)[k']? = if k = k' then some v else m[k']? := by
  rw [Std.ExtTreeMap.getElem?_insert]
  simp [Std.LawfulEqCmp.compare_eq_iff_eq]

theorem filter_eq_some {m : BTreeMap α β} {f : α → β → Bool} {k : α} {v : β} :
    (m.filter f)[k]? = some v ↔ m[k]? = some v ∧ f k v = true := by
  rw [Std.ExtTreeMap.getElem?_filter', Option.filter_eq_some_iff]

theorem map_eq_some {m : BTreeMap α β} {f : α → β → γ} {k : α} {w : γ} :
    (m.map f)[k]? = some w ↔ ∃ v, m[k]? = some v ∧ f k v = w := by
  simp

omit [Std.LawfulEqOrd α] in
theorem mem_iff {m : BTreeMap α β} {k : α} : k ∈ m ↔ ∃ v : β, m[k]? = some v := by
  rw [Std.ExtTreeMap.mem_iff_isSome_getElem?, Option.isSome_iff_exists]

theorem mem_insert_iff {m : BTreeMap α β} {k k' : α} {v : β} :
    k' ∈ m.insert k v ↔ k = k' ∨ k' ∈ m := by
  rw [Std.ExtTreeMap.mem_insert, Std.LawfulEqCmp.compare_eq_iff_eq]

/-- A row that is replaced was there before. -/
theorem mem_insert_of_some {m : BTreeMap α β} {k k' : α} {v w : β} (hv : m[k]? = some v) :
    k' ∈ m.insert k w ↔ k' ∈ m := by
  rw [mem_insert_iff, or_iff_right_iff_imp]
  rintro rfl
  exact mem_iff.mpr ⟨v, hv⟩

theorem mem_values {m : BTreeMap α β} {v : β} : v ∈ values m ↔ ∃ k : α, m[k]? = some v := by
  simp [values]

theorem values_insert_empty (k : α) (v : β) : values ((∅ : BTreeMap α β).insert k v) = [v] := by
  have hlen : ((∅ : BTreeMap α β).insert k v).toList.length = 1 := by
    simp [Std.ExtTreeMap.length_toList, Std.ExtTreeMap.size_insert]
  obtain ⟨kv, hlist⟩ := List.length_eq_one_iff.mp hlen
  have hmem : (k, v) ∈ ((∅ : BTreeMap α β).insert k v).toList := by
    rw [Std.ExtTreeMap.mem_toList_iff_getElem?_eq_some]; simp
  rw [hlist, List.mem_singleton] at hmem
  rw [values, hlist, ← hmem]
  rfl

/-- The rows of a list are written in turn. -/
theorem foldl_insert [DecidableEq α] {l : List (α × β)} (hl : (l.map Prod.fst).Nodup)
    (m : BTreeMap α β) (k : α) : (∀ v, (k, v) ∈ l →
        (l.foldl (fun m kv => m.insert kv.1 kv.2) m)[k]? = some v) ∧
      (k ∉ l.map Prod.fst → (l.foldl (fun m kv => m.insert kv.1 kv.2) m)[k]? = m[k]?) := by
  induction l generalizing m with
  | nil => exact ⟨fun v hv => (List.not_mem_nil hv).elim, fun _ => rfl⟩
  | cons kv l ih =>
    rw [List.map_cons, List.nodup_cons] at hl
    have ih := ih hl.2 (m.insert kv.1 kv.2)
    refine ⟨fun v hv => ?_, fun hk => ?_⟩
    · rcases List.mem_cons.mp hv with rfl | hv
      · rw [List.foldl_cons, ih.2 hl.1, Std.ExtTreeMap.getElem?_insert_self]
      · exact ih.1 v hv
    · rw [List.map_cons, List.mem_cons, not_or] at hk
      rw [List.foldl_cons, ih.2 hk.2, getElem?_insert, if_neg fun h => hk.1 h.symm]

/-- The rows of a list are merged into a table in turn, each into the row under its key or into `d`. -/
theorem foldl_merge [DecidableEq α] {f : β → α → γ → β} {d : β} {l : List (α × γ)}
    (hl : (l.map Prod.fst).Nodup) (m : BTreeMap α β) (k : α) :
    (∀ v, (k, v) ∈ l → (l.foldl (fun m kv => m.insert kv.1 (f (m.getD kv.1 d) kv.1 kv.2)) m)[k]? =
      some (f (m.getD k d) k v)) ∧
    (k ∉ l.map Prod.fst →
      (l.foldl (fun m kv => m.insert kv.1 (f (m.getD kv.1 d) kv.1 kv.2)) m)[k]? = m[k]?) := by
  induction l generalizing m with
  | nil => exact ⟨fun v hv => (List.not_mem_nil hv).elim, fun _ => rfl⟩
  | cons kv l ih =>
    rw [List.map_cons, List.nodup_cons] at hl
    have ih := ih hl.2 (m.insert kv.1 (f (m.getD kv.1 d) kv.1 kv.2))
    refine ⟨fun v hv => ?_, fun hk => ?_⟩
    · rcases List.mem_cons.mp hv with rfl | hv
      · rw [List.foldl_cons, ih.2 hl.1, Std.ExtTreeMap.getElem?_insert_self]
      · have hne : kv.1 ≠ k := fun heq => hl.1 (heq ▸ List.mem_map_of_mem hv)
        rw [List.foldl_cons, ih.1 v hv, Std.ExtTreeMap.getD_eq_getD_getElem?, getElem?_insert,
          if_neg hne, ← Std.ExtTreeMap.getD_eq_getD_getElem?]
    · rw [List.map_cons, List.mem_cons, not_or] at hk
      rw [List.foldl_cons, ih.2 hk.2, getElem?_insert, if_neg fun h => hk.1 h.symm]

/-- A table is made of its rows. -/
theorem foldl_insert_toList [DecidableEq α] (m : BTreeMap α β) :
    m.toList.foldl (fun m kv => m.insert kv.1 kv.2) ∅ = m := by
  have hkeys : (m.toList.map Prod.fst).Nodup := by
    rw [Std.ExtTreeMap.map_fst_toList_eq_keys]
    exact Std.ExtTreeMap.nodup_keys
  refine Std.ExtTreeMap.ext_getElem? fun k => ?_
  have hfold := foldl_insert hkeys ∅ k
  cases hk : m[k]? with
  | some v => exact hfold.1 v (Std.ExtTreeMap.mem_toList_iff_getElem?_eq_some.mpr hk)
  | none =>
    rw [hfold.2]
    · exact Std.ExtTreeMap.getElem?_empty
    · intro hmem
      obtain ⟨kv, hkv, rfl⟩ := List.mem_map.mp hmem
      have hsome := Std.ExtTreeMap.mem_toList_iff_getElem?_eq_some.mp hkv
      rw [hk] at hsome
      cases hsome

theorem mem_column {m : BTreeMap α β} {f : β → Option γ} {c : γ} :
    c ∈ column m f ↔ ∃ (k : α) (v : β), m[k]? = some v ∧ f v = some c := by
  simp [column]

/-! ### Rows rewritten in turn -/

theorem foldlM_insert_eq_ok [DecidableEq α] {ε : Type} {f : β → Except ε β} {l : List (α × β)}
    (hl : (l.map Prod.fst).Nodup) {m m' : BTreeMap α β}
    (h : l.foldlM (fun acc kv => do
      let v ← f kv.2
      return acc.insert kv.1 v) m = .ok m') (k : α) :
    (∀ v, (k, v) ∈ l → ∃ v', f v = .ok v' ∧ m'[k]? = some v') ∧
      (k ∉ l.map Prod.fst → m'[k]? = m[k]?) := by
  induction l generalizing m with
  | nil =>
    cases h
    exact ⟨fun v hv => (List.not_mem_nil hv).elim, fun _ => rfl⟩
  | cons kv l ih =>
    rw [List.map_cons, List.nodup_cons] at hl
    rw [List.foldlM_cons] at h
    cases hv : f kv.2 with
    | error e =>
      rw [hv] at h
      cases h
    | ok w =>
      rw [hv] at h
      obtain ⟨hmem, hother⟩ := ih hl.2 (m := m.insert kv.1 w) h
      refine ⟨fun v hkv => ?_, fun hk => ?_⟩
      · rcases List.mem_cons.mp hkv with rfl | hkv
        · exact ⟨w, hv, by rw [hother hl.1, Std.ExtTreeMap.getElem?_insert_self]⟩
        · exact hmem v hkv
      · rw [List.map_cons, List.mem_cons, not_or] at hk
        rw [hother hk.2, getElem?_insert, if_neg fun heq => hk.1 heq.symm]

/-- Where every row could be rewritten, each was. -/
theorem mapRows_eq_ok [DecidableEq α] {ε : Type} {f : β → Except ε β} {m m' : BTreeMap α β}
    (h : mapRows f m = .ok m') (k : α) :
    (∀ v, m[k]? = some v → ∃ v', f v = .ok v' ∧ m'[k]? = some v') ∧
      ∀ v', m'[k]? = some v' → ∃ v, m[k]? = some v ∧ f v = .ok v' := by
  have hkeys : (m.toList.map Prod.fst).Nodup := by
    rw [Std.ExtTreeMap.map_fst_toList_eq_keys]
    exact Std.ExtTreeMap.nodup_keys
  obtain ⟨hmem, hother⟩ := foldlM_insert_eq_ok hkeys h k
  have hforward : ∀ v, m[k]? = some v → ∃ v', f v = .ok v' ∧ m'[k]? = some v' := fun v hv =>
    hmem v (Std.ExtTreeMap.mem_toList_iff_getElem?_eq_some.mpr hv)
  refine ⟨hforward, fun v' hv' => ?_⟩
  cases hk : m[k]? with
  | some v =>
    obtain ⟨w, hw, hkw⟩ := hforward v hk
    rw [hv', Option.some.injEq] at hkw
    exact ⟨v, rfl, hkw ▸ hw⟩
  | none =>
    rw [hother fun hmem => ?_, Std.ExtTreeMap.getElem?_empty] at hv'
    · cases hv'
    · obtain ⟨kv, hkv, rfl⟩ := List.mem_map.mp hmem
      have hsome := Std.ExtTreeMap.mem_toList_iff_getElem?_eq_some.mp hkv
      rw [hk] at hsome
      cases hsome

/-- Rows that are rewritten to themselves stay. -/
theorem mapRows_fixed [DecidableEq α] {ε : Type} {f : β → Except ε β} {m : BTreeMap α β}
    (h : ∀ (k : α) (v : β), m[k]? = some v → f v = .ok v) : mapRows f m = .ok m := by
  have hrows : ∀ (l : List (α × β)) (acc : BTreeMap α β), (∀ kv ∈ l, f kv.2 = .ok kv.2) →
      l.foldlM (fun acc kv => do
        let v ← f kv.2
        return acc.insert kv.1 v) acc = .ok (l.foldl (fun m kv => m.insert kv.1 kv.2) acc) := by
    intro l
    induction l with
    | nil => exact fun acc _ => rfl
    | cons kv l ih =>
      intro acc hl
      rw [List.foldlM_cons, hl kv List.mem_cons_self]
      exact ih (acc.insert kv.1 kv.2) fun kv' hkv' => hl kv' (List.mem_cons_of_mem _ hkv')
  unfold mapRows
  rw [hrows, foldl_insert_toList]
  exact fun kv hkv => h kv.1 kv.2 (Std.ExtTreeMap.mem_toList_iff_getElem?_eq_some.mp hkv)

/-! ### Sizes -/

omit [Std.LawfulEqOrd α] in
/-- A row is replaced. -/
theorem size_insert_some {m : BTreeMap α β} {k : α} {v w : β} (h : m[k]? = some v) :
    (m.insert k w).size = m.size := by
  have hmem : m.contains k = true := Std.ExtTreeMap.mem_iff_contains.mp (mem_iff.mpr ⟨v, h⟩)
  rw [Std.ExtTreeMap.size_insert, if_pos hmem]

omit [Std.LawfulEqOrd α] in
/-- A row is added. -/
theorem size_insert_none {m : BTreeMap α β} {k : α} {w : β} (h : m[k]? = none) :
    (m.insert k w).size = m.size + 1 := by
  have hmem : ¬ m.contains k = true := by
    rw [← Std.ExtTreeMap.mem_iff_contains, mem_iff]
    simp [h]
  rw [Std.ExtTreeMap.size_insert, if_neg hmem]

theorem size_le_of_keys {δ : Type} {m : BTreeMap α β} {m' : BTreeMap α δ}
    (h : ∀ (k : α) (v : β), m[k]? = some v → ∃ w : δ, m'[k]? = some w) : m.size ≤ m'.size := by
  rw [← Std.ExtTreeMap.length_keys, ← Std.ExtTreeMap.length_keys]
  refine (Std.ExtTreeMap.nodup_keys.subperm fun k hk => ?_).length_le
  rw [Std.ExtTreeMap.mem_keys, mem_iff] at hk ⊢
  obtain ⟨v, hv⟩ := hk
  exact h k v hv

omit [Std.LawfulEqOrd α] in
/-- The rows of a table are those a filter keeps and those it drops. -/
theorem size_filter_add (m : BTreeMap α β) (p : α → β → Bool) :
    (m.filter p).size + (m.filter fun k v => !p k v).size = m.size := by
  rw [← Std.ExtTreeMap.length_toList, ← Std.ExtTreeMap.length_toList, ← Std.ExtTreeMap.length_toList,
    Std.ExtTreeMap.toList_filter, Std.ExtTreeMap.toList_filter]
  exact (List.length_eq_length_filter_add _).symm

/-- Rows that count in `m` and have a counting row under the same key in `m'` are no more than the
rows that count in `m'`. -/
theorem countRows_le {δ : Type} {m : BTreeMap α β} {m' : BTreeMap α δ} {p : β → Bool}
    {q : δ → Bool} (h : ∀ (k : α) (v : β), m[k]? = some v → p v = true →
      ∃ w : δ, m'[k]? = some w ∧ q w = true) :
    countRows m p ≤ countRows m' q := by
  refine size_le_of_keys fun k v hkv => ?_
  obtain ⟨hv, hp⟩ := filter_eq_some.mp hkv
  obtain ⟨w, hw, hq⟩ := h k v hv hp
  exact ⟨w, filter_eq_some.mpr ⟨hw, hq⟩⟩

/-- Writing a row adds at most itself to the rows that count. -/
theorem countRows_insert_le [DecidableEq α] (m : BTreeMap α β) (k : α) (v : β) (p : β → Bool) :
    countRows (m.insert k v) p ≤ countRows m p + if p v = true then 1 else 0 := by
  by_cases hv : p v = true
  · have hle : countRows (m.insert k v) p ≤ ((m.filter fun _ w => p w).insert k v).size := by
      refine size_le_of_keys fun k' w hw => ?_
      obtain ⟨hw, hp⟩ := filter_eq_some.mp hw
      rw [getElem?_insert] at hw ⊢
      by_cases hk : k = k'
      · exact ⟨v, if_pos hk⟩
      · rw [if_neg hk] at hw ⊢
        exact ⟨w, filter_eq_some.mpr ⟨hw, hp⟩⟩
    have hsize := Std.ExtTreeMap.size_insert_le (t := m.filter fun _ w => p w) (k := k) (v := v)
    rw [if_pos hv]
    exact le_trans hle hsize
  · rw [if_neg hv, Nat.add_zero]
    refine countRows_le fun k' w hw hp => ?_
    rw [getElem?_insert] at hw
    split_ifs at hw with hk
    · rw [Option.some.injEq] at hw
      exact absurd (hw ▸ hp) hv
    · exact ⟨w, hw, hp⟩

/-! ### Columns without repetition -/

/-- In a column without repetition a value stands under one key only. -/
theorem eq_of_nodup_column {m : BTreeMap α β} {f : β → Option γ} (h : (column m f).Nodup) {k k' : α}
    {v v' : β} {c : γ} (hk : m[k]? = some v) (hk' : m[k']? = some v') (hv : f v = some c)
    (hv' : f v' = some c) : k = k' := by
  by_contra hne
  unfold column List.Nodup at h
  rw [List.pairwise_filterMap] at h
  have hsymm : Std.Symm fun a b : α × β => ∀ c, f a.2 = some c → ∀ c', f b.2 = some c' → c ≠ c' :=
    ⟨fun a b hab c hc c' hc' heq => hab c' hc' c hc heq.symm⟩
  exact List.Pairwise.forall h (Std.ExtTreeMap.mem_toList_iff_getElem?_eq_some.mpr hk)
    (Std.ExtTreeMap.mem_toList_iff_getElem?_eq_some.mpr hk')
    (fun heq => hne (congrArg Prod.fst heq)) c hv c hv' rfl

/-- A column is without repetition where each value stands under one key only. -/
theorem nodup_column_of {m : BTreeMap α β} {f : β → Option γ}
    (h : ∀ (k k' : α) (v v' : β) (c : γ), m[k]? = some v → m[k']? = some v' → f v = some c →
      f v' = some c → k = k') : (column m f).Nodup := by
  have hlist : m.toList.Pairwise fun a b => a.1 ≠ b.1 :=
    Std.ExtTreeMap.distinct_keys_toList.imp fun hne heq =>
      hne (by rw [heq]; exact Std.ReflCmp.compare_self)
  unfold column List.Nodup
  rw [List.pairwise_filterMap]
  refine List.Pairwise.imp_of_mem ?_ hlist
  rintro ⟨k, v⟩ ⟨k', v'⟩ hk hk' hne c hc c' hc' rfl
  rw [Std.ExtTreeMap.mem_toList_iff_getElem?_eq_some] at hk hk'
  exact hne (h k k' v v' c hk hk' hc hc')

/-- A column of the rows that are kept is without repetition. -/
theorem nodup_column_filter {m : BTreeMap α β} {f : β → Option γ} {p : α → β → Bool}
    (h : (column m f).Nodup) : (column (m.filter p) f).Nodup :=
  nodup_column_of fun _ _ _ _ _ hk hk' hv hv' =>
    eq_of_nodup_column h (filter_eq_some.mp hk).1 (filter_eq_some.mp hk').1 hv hv'

/-! ### Rewritten tables -/

/-- `m'` has the rows of `m`, each changed as `r` allows. -/
def Rewrites (r : β → β → Prop) (m m' : BTreeMap α β) : Prop :=
  ∀ k : α, Option.Rel r m[k]? m'[k]?

section Rewrites

variable {r : β → β → Prop} {m m' m'' : BTreeMap α β}

omit [Std.LawfulEqOrd α] in
theorem Rewrites.forward (h : Rewrites r m m') {k : α} {v : β} (hv : m[k]? = some v) :
    ∃ v', m'[k]? = some v' ∧ r v v' := by
  have hk := h k
  rw [hv] at hk
  cases hk' : m'[k]? with
  | none => rw [hk'] at hk; cases hk
  | some v' => rw [hk'] at hk; cases hk with | some hr => exact ⟨v', rfl, hr⟩

omit [Std.LawfulEqOrd α] in
theorem Rewrites.back (h : Rewrites r m m') {k : α} {v' : β} (hv : m'[k]? = some v') :
    ∃ v, m[k]? = some v ∧ r v v' := by
  have hk := h k
  rw [hv] at hk
  cases hk' : m[k]? with
  | none => rw [hk'] at hk; cases hk
  | some v => rw [hk'] at hk; cases hk with | some hr => exact ⟨v, rfl, hr⟩

omit [Std.LawfulEqOrd α] in
theorem Rewrites.refl (hr : ∀ v, r v v) (m : BTreeMap α β) : Rewrites r m m := fun k => by
  cases m[k]? with
  | none => exact .none
  | some v => exact .some (hr v)

omit [Std.LawfulEqOrd α] in
theorem Rewrites.trans (hr : ∀ v v' v'', r v v' → r v' v'' → r v v'') (h : Rewrites r m m')
    (h' : Rewrites r m' m'') : Rewrites r m m'' := fun k => by
  cases hm : m[k]? with
  | none =>
    cases hm'' : m''[k]? with
    | none => exact .none
    | some v'' =>
      obtain ⟨v', hv', -⟩ := h'.back hm''
      obtain ⟨v, hv, -⟩ := h.back hv'
      rw [hm] at hv
      cases hv
  | some v =>
    obtain ⟨v', hv', hr₁⟩ := h.forward hm
    obtain ⟨v'', hv'', hr₂⟩ := h'.forward hv'
    rw [hv'']
    exact .some (hr _ _ _ hr₁ hr₂)

omit [Std.LawfulEqOrd α] in
theorem Rewrites.mono {r' : β → β → Prop} (hr : ∀ v v', r v v' → r' v v') (h : Rewrites r m m') :
    Rewrites r' m m' := fun k => by
  cases hm : m[k]? with
  | none =>
    cases hm' : m'[k]? with
    | none => exact .none
    | some v' => obtain ⟨v, hv, -⟩ := h.back hm'; rw [hm] at hv; cases hv
  | some v =>
    obtain ⟨v', hv', hr₁⟩ := h.forward hm
    rw [hv']
    exact .some (hr _ _ hr₁)

theorem Rewrites.size (h : Rewrites r m m') : m'.size = m.size :=
  le_antisymm (size_le_of_keys fun _ _ hv => (h.back hv).imp fun _ h => h.1)
    (size_le_of_keys fun _ _ hv => (h.forward hv).imp fun _ h => h.1)

omit [Std.LawfulEqOrd α] in
/-- What rewriting does not change of a row is the same under every key. -/
theorem Rewrites.map_eq {f : β → γ} (h : Rewrites r m m') (hf : ∀ v v', r v v' → f v' = f v) (k : α) :
    (m'[k]?).map f = (m[k]?).map f := by
  cases hk : m[k]? with
  | none =>
    cases hk' : m'[k]? with
    | none => rfl
    | some v' =>
      obtain ⟨v, hv, -⟩ := h.back hk'
      rw [hk] at hv
      cases hv
  | some v =>
    obtain ⟨v', hv', hr⟩ := h.forward hk
    rw [hv', Option.map_some, Option.map_some, hf v v' hr]

theorem Rewrites.map (f : α → β → β) (hr : ∀ k v, r v (f k v)) : Rewrites r m (m.map f) :=
  fun k => by
    rw [Std.ExtTreeMap.getElem?_map]
    cases m[k]? with
    | none => exact .none
    | some v => exact .some (hr _ _)

/-- The rows that are there are rewritten. -/
theorem Rewrites.map_rows {f : α → β → β} (hr : ∀ k v, m[k]? = some v → r v (f k v)) :
    Rewrites r m (m.map f) := fun k => by
  rw [Std.ExtTreeMap.getElem?_map]
  cases hk : m[k]? with
  | none => exact .none
  | some v => exact .some (hr k v hk)

theorem Rewrites.insert [DecidableEq α] (hr : ∀ v, r v v) {k : α} {v w : β} (hv : m[k]? = some v)
    (hw : r v w) : Rewrites r m (m.insert k w) := fun k' => by
  rw [getElem?_insert]
  by_cases hk : k = k'
  · rw [if_pos hk, ← hk, hv]
    exact .some hw
  · rw [if_neg hk]
    exact Rewrites.refl hr m k'

/-- One row is rewritten, and the others pass for rewritten. -/
theorem Rewrites.insert_rows [DecidableEq α] {k : α} {v w : β} (hv : m[k]? = some v) (hw : r v w)
    (hr : ∀ k' v', k' ≠ k → m[k']? = some v' → r v' v') : Rewrites r m (m.insert k w) := fun k' => by
  rw [getElem?_insert]
  by_cases hk : k = k'
  · rw [if_pos hk, ← hk, hv]
    exact .some hw
  · rw [if_neg hk]
    cases hk' : m[k']? with
    | none => exact .none
    | some v' => exact .some (hr k' v' (Ne.symm hk) hk')

/-- One more row is rewritten, from what it was at the start. -/
theorem Rewrites.insert_over [DecidableEq α] (h : Rewrites r m m') {k : α} {v w : β}
    (hv : m[k]? = some v) (hw : r v w) : Rewrites r m (m'.insert k w) := fun k' => by
  rw [getElem?_insert]
  by_cases hk : k = k'
  · rw [if_pos hk, ← hk, hv]
    exact .some hw
  · rw [if_neg hk]
    exact h k'

omit [Std.LawfulEqOrd α] in
theorem Rewrites.mem_iff (h : Rewrites r m m') {k : α} : k ∈ m' ↔ k ∈ m := by
  rw [OrderedMap.mem_iff, OrderedMap.mem_iff]
  exact ⟨fun ⟨_, hv⟩ => (h.back hv).imp fun _ h => h.1,
    fun ⟨_, hv⟩ => (h.forward hv).imp fun _ h => h.1⟩

end Rewrites

theorem getElem?_modify [DecidableEq α] {m : BTreeMap α β} {k k' : α} {f : β → β} :
    (m.modify k f)[k']? = if k = k' then m[k']?.map f else m[k']? := by
  rw [Std.ExtTreeMap.getElem?_modify]
  by_cases h : k = k'
  · subst h; simp [Std.ReflCmp.compare_self]
  · simp [Std.LawfulEqCmp.compare_eq_iff_eq, h]

theorem Rewrites.modify [DecidableEq α] {r : β → β → Prop} {m : BTreeMap α β}
    (hr : ∀ v, r v v) {k : α} {f : β → β} (hf : ∀ v, r v (f v)) :
    Rewrites r m (m.modify k f) := fun k' => by
  rw [getElem?_modify]
  split_ifs
  · cases m[k']? with
    | none => exact .none
    | some v => exact .some (hf v)
  · exact Rewrites.refl hr m k'

/-! ### Extended tables -/

/-- `m'` has the rows of `m`, and others that satisfy `P`. -/
def Extends (P : α → β → Prop) (m m' : BTreeMap α β) : Prop :=
  (∀ (k : α) (v : β), m[k]? = some v → m'[k]? = some v) ∧
    ∀ (k : α) (v : β), m'[k]? = some v → m[k]? = some v ∨ P k v

section Extends

variable {P : α → β → Prop} {m m' m'' : BTreeMap α β}

omit [Std.LawfulEqOrd α] in
theorem Extends.refl (m : BTreeMap α β) : Extends P m m := ⟨fun _ _ h => h, fun _ _ h => .inl h⟩

omit [Std.LawfulEqOrd α] in
theorem Extends.trans (h : Extends P m m') (h' : Extends P m' m'') : Extends P m m'' :=
  ⟨fun k v hv => h'.1 k v (h.1 k v hv), fun k v hv => (h'.2 k v hv).elim (h.2 k v) .inr⟩

omit [Std.LawfulEqOrd α] in
theorem Extends.mono {Q : α → β → Prop} (hPQ : ∀ k v, P k v → Q k v) (h : Extends P m m') :
    Extends Q m m' := ⟨h.1, fun k v hv => (h.2 k v hv).imp_right (hPQ k v)⟩

theorem Extends.insert [DecidableEq α] {k : α} {v : β} (hk : m[k]? = none) (hv : P k v) :
    Extends P m (m.insert k v) := by
  refine ⟨fun k' v' hv' => ?_, fun k' v' hv' => ?_⟩
  · rw [getElem?_insert, if_neg]
    · exact hv'
    · rintro rfl
      rw [hk] at hv'
      cases hv'
  · rw [getElem?_insert] at hv'
    split_ifs at hv' with h
    · subst h
      cases hv'
      exact .inr hv
    · exact .inl hv'

end Extends

end Lawful

/-! ### Grouped rows -/

section Grouping

variable {α β : Type} [Ord α] [Std.TransOrd α]

/-- The values of a list of rows, gathered under their keys. -/
def groupRows (rows : List (α × β)) : BTreeMap α (List β) :=
  rows.foldl (fun m kv => m.insert kv.1 (m.getD kv.1 [] ++ [kv.2])) ∅

/-- The value of a list that has exactly one. -/
def single : List β → Option β
  | [v] => some v
  | _ => none

/-- The rows whose key occurs once. -/
def uniqueRows (rows : List (α × β)) : BTreeMap α β :=
  (groupRows rows).filterMap fun _ vs => single vs

variable [Std.LawfulEqOrd α] [DecidableEq α]

theorem getD_foldl_group (rows : List (α × β)) (m : BTreeMap α (List β)) (k : α) :
    (rows.foldl (fun m kv => m.insert kv.1 (m.getD kv.1 [] ++ [kv.2])) m).getD k [] =
      m.getD k [] ++ (rows.filter fun kv => kv.1 = k).map Prod.snd := by
  induction rows generalizing m with
  | nil => rw [List.foldl_nil, List.filter_nil, List.map_nil, List.append_nil]
  | cons kv rows ih =>
    rw [List.foldl_cons, ih, Std.ExtTreeMap.getD_insert, List.filter_cons]
    simp only [Std.LawfulEqCmp.compare_eq_iff_eq]
    by_cases hk : kv.1 = k
    · simp [hk]
    · simp [hk]

/-- A key that occurs once has its value, any other key has none. -/
theorem getElem?_uniqueRows (rows : List (α × β)) (k : α) :
    (uniqueRows rows)[k]? = single ((rows.filter fun kv => kv.1 = k).map Prod.snd) := by
  have hgroup : (groupRows rows).getD k [] = (rows.filter fun kv => kv.1 = k).map Prod.snd := by
    rw [groupRows, getD_foldl_group, Std.ExtTreeMap.getD_empty, List.nil_append]
  rw [uniqueRows, Std.ExtTreeMap.getElem?_filterMap', ← hgroup,
    Std.ExtTreeMap.getD_eq_getD_getElem?]
  cases (groupRows rows)[k]? with
  | none => rfl
  | some vs => rfl

/-- A key that is new to the rows is inserted. -/
theorem uniqueRows_concat {rows : List (α × β)} {k : α} (hk : ∀ kv ∈ rows, kv.1 ≠ k) (v : β) :
    uniqueRows (rows ++ [(k, v)]) = (uniqueRows rows).insert k v := by
  refine Std.ExtTreeMap.ext_getElem? fun k' => ?_
  rw [getElem?_uniqueRows, getElem?_insert, List.filter_append, List.map_append,
    getElem?_uniqueRows]
  by_cases hkk : k = k'
  · have hnone : rows.filter (fun kv => kv.1 = k') = [] :=
      List.filter_eq_nil_iff.mpr fun kv hkv h => hk kv hkv ((of_decide_eq_true h).trans hkk.symm)
    rw [hnone, if_pos hkk]
    simp [hkk, single]
  · rw [if_neg hkk]
    simp [hkk]

end Grouping

end AbbeyBot.Library.OrderedMap
