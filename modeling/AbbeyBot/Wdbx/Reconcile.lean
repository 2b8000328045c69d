import Mathlib
import AbbeyBot.Wdbx.RoundTrip

/-! # Rebuilding the facts of a memory

The facts are kept elsewhere too, and the memory is only their projection. A rebuild drops every row
of a fact with its vector, whether it can be read or not, and remembers the facts anew under
increasing ids: so the order of numbers, in which they are read back, is the order of the list,
although keys are ordered as texts. -/

namespace AbbeyBot.Wdbx

open AbbeyBot.Library.History AbbeyBot.Library.OrderedMap AbbeyBot.Library.PrefixScan
open AbbeyBot.Library.Result AbbeyBot.Library.Text AbbeyBot.Library.Word

variable {J : Crates}

/-- A fact of the list that the memory projects. -/
structure MemoryFact where
  guild : String
  user : String
  text : String
  at_ : ℕ
  deriving DecidableEq

def MemoryFact.record (f : MemoryFact) : FactRecord := ⟨f.user, f.text, f.at_⟩

/-- `str::strip_prefix`. -/
def stripPrefix (start s : List Char) : Option (List Char) :=
  if start.isPrefixOf s then some (s.drop start.length) else none

/-- `str::rsplit_once`. -/
def rsplitOnce (c : Char) (s : List Char) : Option (List Char × List Char) :=
  (splitOnce c s.reverse).map fun p => (p.2.reverse, p.1.reverse)

def memoryPrefix : String := "mem:"

/-- The id and the guild that a key names. -/
def location (key : String) : Option (ℕ × String) := do
  let suffix ← stripPrefix memoryPrefix.toList key.toList
  let (guild, id) ← rsplitOnce ':' suffix
  let id ← parseU64 id
  return (id, String.ofList guild)

/-- The id that a key names. -/
def memoryId (key : String) : Option ℕ :=
  ((stripPrefix memoryPrefix.toList key.toList).bind (rsplitOnce ':')).bind fun p => parseU64 p.2

/-- `all_memory_facts`. -/
def Recall.allMemoryFacts (m : Recall J) : List (String × RecalledFact J) :=
  let locations := (m.store.kvWithPrefix memoryPrefix).filterMap fun kv => location kv.1
  ((locations.mergeSort fun a b => a.1 ≤ b.1).destutter (· ≠ ·)).filterMap fun l =>
    (m.fact l.2 l.1 J.one).map fun fact => (l.2, fact)

/-- The facts without ids and scores. -/
def Recall.memoryFacts (m : Recall J) : List MemoryFact :=
  m.allMemoryFacts.map fun (guild, fact) => ⟨guild, fact.user, fact.text, fact.at_⟩

/-- A row of a fact goes, with its vector. -/
def WdbxStore.removeMemory (s : WdbxStore J) (row : String × Option ℕ) : WdbxStore J :=
  let s := (s.removeKv row.1).2
  match row.2 with
  | some id => (s.removeVector id).2
  | none => s

/-- `reconcile_memory_facts`. -/
def Recall.reconcileMemoryFacts (facts : List MemoryFact) (m : Recall J) : Recall J :=
  if m.memoryFacts = facts then m
  else
    let memoryKeys := (m.store.kvWithPrefix memoryPrefix).map fun kv => (kv.1, memoryId kv.1)
    facts.foldl (fun m f => (m.remember f.guild f.user f.text f.at_).2)
      ⟨memoryKeys.foldl WdbxStore.removeMemory m.store⟩

/-- The ids that keys of facts name. -/
def Recall.memoryIds (m : Recall J) : List ℕ :=
  (m.store.kvWithPrefix memoryPrefix).filterMap fun kv => memoryId kv.1

/-! ### Keys -/

theorem stripPrefix_append (start s : List Char) : stripPrefix start (start ++ s) = some s := by
  have hpre : start.isPrefixOf (start ++ s) = true :=
    List.isPrefixOf_iff_prefix.mpr (List.prefix_append _ _)
  unfold stripPrefix
  rw [if_pos hpre, List.drop_left]

theorem rsplitOnce_append {c : Char} {b : List Char} (hb : c ∉ b) (a : List Char) :
    rsplitOnce c (a ++ c :: b) = some (a, b) := by
  have hrev : (a ++ c :: b).reverse = b.reverse ++ c :: a.reverse := by simp
  have hb' : c ∉ b.reverse := fun h => hb (List.mem_reverse.mp h)
  unfold rsplitOnce
  rw [hrev, splitOnce_append hb']
  simp

/-- The key of a fact names its guild and its id. -/
theorem location_factKey (guild : String) {id : ℕ} (hid : id ≤ u64Max) :
    location (factKey guild id) = some (id, guild) := by
  have hcolon : ':' ∉ (toString id).toList := not_mem_toString (by decide) id
  have hprefix : memoryPrefix.toList = "mem:".toList := rfl
  unfold location
  rw [factKey_toList, List.append_assoc, hprefix, stripPrefix_append]
  simp only [Option.bind_eq_bind, Option.bind_some, rsplitOnce_append hcolon,
    parseU64_toString hid, String.ofList_toList, Option.pure_def]

theorem memoryId_eq (key : String) : memoryId key = (location key).map Prod.fst := by
  unfold memoryId location
  cases stripPrefix memoryPrefix.toList key.toList with
  | none => rfl
  | some suffix =>
    cases hsplit : rsplitOnce ':' suffix with
    | none => simp [hsplit]
    | some p => cases hparse : parseU64 p.2 <;> simp [hsplit, hparse]

theorem memoryId_factKey (guild : String) {id : ℕ} (hid : id ≤ u64Max) :
    memoryId (factKey guild id) = some id := by
  rw [memoryId_eq, location_factKey guild hid]
  rfl

theorem prefix_factKey_memory (guild : String) (id : ℕ) :
    memoryPrefix.toList <+: (factKey guild id).toList := by
  rw [factKey_toList, List.append_assoc]
  exact List.prefix_append _ _

/-! ### Rows go -/

theorem kv_removeMemory (s : WdbxStore J) (row : String × Option ℕ) :
    (s.removeMemory row).kv = s.kv.erase row.1 := by
  obtain ⟨key, id | id⟩ := row <;> rfl

theorem vectors_removeMemory (s : WdbxStore J) (row : String × Option ℕ) :
    (s.removeMemory row).vectors = s.vectors.filter fun v => row.2 ≠ some v.1 := by
  obtain ⟨key, id | id⟩ := row
  · symm
    simp [WdbxStore.removeMemory, WdbxStore.removeKv]
  · refine List.filter_congr fun v _ => ?_
    simp [eq_comm]

theorem rest_removeMemory (s : WdbxStore J) (row : String × Option ℕ) :
    (s.removeMemory row).nextId = s.nextId ∧ (s.removeMemory row).unknown = s.unknown := by
  obtain ⟨key, id | id⟩ := row <;> exact ⟨rfl, rfl⟩

theorem kv_foldl_removeMemory (rows : List (String × Option ℕ)) (s : WdbxStore J) (k : String) :
    (rows.foldl WdbxStore.removeMemory s).kv[k]? =
      if k ∈ rows.map Prod.fst then none else s.kv[k]? := by
  induction rows generalizing s with
  | nil => rfl
  | cons row rows ih =>
    rw [List.foldl_cons, ih, kv_removeMemory, Std.ExtTreeMap.getElem?_erase, List.map_cons]
    by_cases hrows : k ∈ rows.map Prod.fst
    · rw [if_pos hrows, if_pos (List.mem_cons_of_mem _ hrows)]
    · by_cases hk : k = row.1
      · have hmem : k ∈ row.1 :: rows.map Prod.fst := hk ▸ List.mem_cons_self
        have hcompare : compare row.1 k = .eq := Std.LawfulEqCmp.compare_eq_iff_eq.mpr hk.symm
        rw [if_neg hrows, if_pos hmem, if_pos hcompare]
      · have hcompare : compare row.1 k ≠ .eq := fun h =>
          hk (Std.LawfulEqCmp.compare_eq_iff_eq.mp h).symm
        rw [if_neg hrows, if_neg (List.not_mem_cons_of_ne_of_not_mem hk hrows), if_neg hcompare]

theorem vectors_foldl_removeMemory (rows : List (String × Option ℕ)) (s : WdbxStore J) :
    (rows.foldl WdbxStore.removeMemory s).vectors =
      s.vectors.filter fun v => v.1 ∉ rows.filterMap Prod.snd := by
  induction rows generalizing s with
  | nil => simp
  | cons row rows ih =>
    rw [List.foldl_cons, ih, vectors_removeMemory, List.filter_filter]
    refine List.filter_congr fun v _ => ?_
    obtain ⟨key, id | id⟩ := row
    · simp
    · simp only [List.filterMap_cons_some, List.mem_cons, not_or, Bool.decide_and, ne_eq,
        Option.some.injEq]
      rw [Bool.and_comm]
      congr 2
      exact propext ⟨fun h h' => h h'.symm, fun h h' => h h'.symm⟩

theorem rest_foldl_removeMemory (rows : List (String × Option ℕ)) (s : WdbxStore J) :
    (rows.foldl WdbxStore.removeMemory s).nextId = s.nextId ∧
      (rows.foldl WdbxStore.removeMemory s).unknown = s.unknown := by
  induction rows generalizing s with
  | nil => exact ⟨rfl, rfl⟩
  | cons row rows ih =>
    obtain ⟨hnext, hunknown⟩ := rest_removeMemory s row
    rw [List.foldl_cons, (ih _).1, (ih _).2, hnext, hunknown]
    exact ⟨rfl, rfl⟩

/-- The store without the rows of facts and their vectors. -/
def Recall.cleared (m : Recall J) : WdbxStore J :=
  ((m.store.kvWithPrefix memoryPrefix).map fun kv => (kv.1, memoryId kv.1)).foldl
    WdbxStore.removeMemory m.store

theorem kv_cleared (m : Recall J) (k : String) : m.cleared.kv[k]? =
    if memoryPrefix.toList <+: k.toList then none else m.store.kv[k]? := by
  unfold Recall.cleared
  rw [kv_foldl_removeMemory, List.map_map]
  by_cases hpre : memoryPrefix.toList <+: k.toList
  · rw [if_pos hpre]
    split_ifs with hk
    · rfl
    · cases hv : m.store.kv[k]? with
      | none => rfl
      | some v =>
        refine absurd (List.mem_map.mpr ⟨(k, v), ?_, rfl⟩) hk
        exact mem_prefixScan.mpr ⟨hv, hpre⟩
  · rw [if_neg hpre, if_neg]
    intro hk
    obtain ⟨kv, hkv, rfl⟩ := List.mem_map.mp hk
    exact hpre (mem_prefixScan.mp hkv).2

theorem vectors_cleared (m : Recall J) :
    m.cleared.vectors = m.store.vectors.filter fun v => v.1 ∉ m.memoryIds := by
  unfold Recall.cleared Recall.memoryIds
  rw [vectors_foldl_removeMemory, List.filterMap_map]
  rfl

theorem rest_cleared (m : Recall J) :
    m.cleared.nextId = m.store.nextId ∧ m.cleared.unknown = m.store.unknown :=
  rest_foldl_removeMemory _ _

/-! ### Facts come -/

/-- The rows of facts under ids from n on. -/
def factRows (J : Crates) : ℕ → List MemoryFact → List (String × String)
  | _, [] => []
  | n, f :: fs => (factKey f.guild n, J.factText f.record) :: factRows J (n + 1) fs

/-- The vectors of facts under ids from n on. -/
def factVectors (J : Crates) : ℕ → List MemoryFact → List (ℕ × List J.F32)
  | _, [] => []
  | n, f :: fs => (n, J.textEmbedding f.text) :: factVectors J (n + 1) fs

/-- Where facts are stored, under ids from n on. -/
def factLocations : ℕ → List MemoryFact → List (ℕ × String)
  | _, [] => []
  | n, f :: fs => (n, f.guild) :: factLocations (n + 1) fs

theorem foldl_remember {facts : List MemoryFact} {m : Recall J}
    (hnext : m.store.nextId + facts.length ≤ u64Max) :
    facts.foldl (fun m f => (m.remember f.guild f.user f.text f.at_).2) m =
      ⟨{ m.store with
        kv := (factRows J m.store.nextId facts).foldl (fun t kv => t.insert kv.1 kv.2) m.store.kv
        vectors := m.store.vectors ++ factVectors J m.store.nextId facts
        nextId := m.store.nextId + facts.length }⟩ := by
  induction facts generalizing m with
  | nil => simp [factRows, factVectors]
  | cons f facts ih =>
    rw [List.length_cons] at hnext
    have hsat : saturatingAdd m.store.nextId 1 = m.store.nextId + 1 := by
      unfold saturatingAdd
      omega
    have hfirst : (m.remember f.guild f.user f.text f.at_).2 = ⟨{ m.store with
        kv := m.store.kv.insert (factKey f.guild m.store.nextId) (J.factText f.record)
        vectors := m.store.vectors ++ [(m.store.nextId, J.textEmbedding f.text)]
        nextId := m.store.nextId + 1 }⟩ := by
      unfold Recall.remember WdbxStore.insertVector WdbxStore.putKv
      rw [hsat]
      rfl
    rw [List.foldl_cons, hfirst, ih (by dsimp only; omega)]
    simp only [factRows, factVectors, List.foldl_cons, List.append_assoc, List.singleton_append,
      List.length_cons, Recall.mk.injEq, WdbxStore.mk.injEq, true_and, and_true]
    omega

theorem mem_factRows_key {k : String} {n : ℕ} {facts : List MemoryFact}
    (h : k ∈ (factRows J n facts).map Prod.fst) : ∃ guild id, n ≤ id ∧ k = factKey guild id := by
  induction facts generalizing n with
  | nil => cases h
  | cons f facts ih =>
    rcases List.mem_cons.mp h with rfl | h
    · exact ⟨f.guild, n, le_rfl, rfl⟩
    · obtain ⟨guild, id, hid, rfl⟩ := ih h
      exact ⟨guild, id, by omega, rfl⟩

theorem nodup_factRows (n : ℕ) (facts : List MemoryFact) :
    ((factRows J n facts).map Prod.fst).Nodup := by
  induction facts generalizing n with
  | nil => exact List.nodup_nil
  | cons f facts ih =>
    refine List.nodup_cons.mpr ⟨fun h => ?_, ih (n + 1)⟩
    obtain ⟨guild, id, hid, hkey⟩ := mem_factRows_key h
    have := (factKey_inj.mp hkey).2
    omega

theorem filterMap_factRows {n : ℕ} {facts : List MemoryFact} (hn : n + facts.length ≤ u64Max) :
    (factRows J n facts).filterMap (fun kv => location kv.1) = factLocations n facts := by
  induction facts generalizing n with
  | nil => rfl
  | cons f facts ih =>
    rw [List.length_cons] at hn
    have hlocation : location (factKey f.guild n) = some (n, f.guild) :=
      location_factKey f.guild (by omega)
    have hrest := ih (n := n + 1) (by omega)
    rw [factRows, factLocations, ← hrest]
    exact List.filterMap_cons_some (f := fun kv : String × String => location kv.1) hlocation

theorem lt_of_mem_factLocations {n : ℕ} {facts : List MemoryFact} {l : ℕ × String}
    (h : l ∈ factLocations n facts) : n ≤ l.1 := by
  induction facts generalizing n with
  | nil => cases h
  | cons f facts ih =>
    rcases List.mem_cons.mp h with rfl | h
    · exact le_rfl
    · have := ih h
      omega

theorem pairwise_factLocations (n : ℕ) (facts : List MemoryFact) :
    (factLocations n facts).Pairwise fun a b => a.1 < b.1 := by
  induction facts generalizing n with
  | nil => exact List.Pairwise.nil
  | cons f facts ih => exact List.pairwise_cons.mpr ⟨fun _ => lt_of_mem_factLocations, ih (n + 1)⟩

/-- Sorting by numbers restores a list that goes up. -/
theorem mergeSort_of_perm {α : Type} (key : α → ℕ) {l l' : List α} (hperm : l.Perm l')
    (hup : l'.Pairwise fun a b => key a < key b) :
    l.mergeSort (fun a b => key a ≤ key b) = l' := by
  have hsorted : (l.mergeSort fun a b => key a ≤ key b).Pairwise fun a b =>
      decide (key a ≤ key b) = true := by
    refine List.pairwise_mergeSort (fun a b c hab hbc => ?_) (fun a b => ?_) l
    · exact decide_eq_true ((of_decide_eq_true hab).trans (of_decide_eq_true hbc))
    · simp only [Bool.or_eq_true, decide_eq_true_eq]
      exact le_total _ _
  have hperm' : (l.mergeSort fun a b => key a ≤ key b).Perm l' :=
    (List.mergeSort_perm _ _).trans hperm
  have hkeys : (l'.map key).Nodup := List.pairwise_map.mpr (hup.imp fun h => h.ne)
  refine hperm'.eq_of_pairwise (fun a b ha hb hab hba => ?_) hsorted
    (hup.imp fun h => decide_eq_true h.le)
  exact List.inj_on_of_nodup_map hkeys (hperm'.subset ha) hb
    (le_antisymm (of_decide_eq_true hab) (of_decide_eq_true hba))

/-! ### The facts after a rebuild -/

/-- The facts are written and read back. -/
def ReadsFacts (J : Crates) (facts : List MemoryFact) : Prop :=
  ∀ f ∈ facts, J.readFact (J.factText f.record) = some f.record

/-- A memory that is rebuilt. -/
theorem reconcile_of_ne {m : Recall J} {facts : List MemoryFact} (hne : m.memoryFacts ≠ facts)
    (hnext : m.store.nextId + facts.length ≤ u64Max) : m.reconcileMemoryFacts facts =
      ⟨{ m.cleared with
        kv := (factRows J m.store.nextId facts).foldl (fun t kv => t.insert kv.1 kv.2) m.cleared.kv
        vectors := m.cleared.vectors ++ factVectors J m.store.nextId facts
        nextId := m.store.nextId + facts.length }⟩ := by
  obtain ⟨hcleared, -⟩ := rest_cleared m
  have hroom : (⟨m.cleared⟩ : Recall J).store.nextId + facts.length ≤ u64Max := by
    dsimp only
    rw [hcleared]
    exact hnext
  have hfold := foldl_remember hroom
  unfold Recall.reconcileMemoryFacts
  rw [if_neg hne]
  refine hfold.trans ?_
  dsimp only
  rw [hcleared]

/-- The rows of facts after a rebuild are those of the list. -/
theorem kvWithPrefix_reconcile {m : Recall J} {facts : List MemoryFact} (hne : m.memoryFacts ≠ facts)
    (hnext : m.store.nextId + facts.length ≤ u64Max) :
    ((m.reconcileMemoryFacts facts).store.kvWithPrefix memoryPrefix).Perm
      (factRows J m.store.nextId facts) := by
  have hrows : (factRows J m.store.nextId facts).Nodup := (nodup_factRows _ facts).of_map
  have hscan : ((m.reconcileMemoryFacts facts).store.kvWithPrefix memoryPrefix).Nodup :=
    nodup_prefixScan.of_map
  refine (List.perm_ext_iff_of_nodup hscan hrows).mpr fun kv => ?_
  have hfold := foldl_insert (nodup_factRows (J := J) m.store.nextId facts) m.cleared.kv kv.1
  unfold WdbxStore.kvWithPrefix
  rw [mem_prefixScan, reconcile_of_ne hne hnext]
  dsimp only
  constructor
  · rintro ⟨hv, hpre⟩
    by_cases hk : kv.1 ∈ (factRows J m.store.nextId facts).map Prod.fst
    · obtain ⟨kv', hkv', heq⟩ := List.mem_map.mp hk
      have hv' := hfold.1 kv'.2 (heq ▸ hkv')
      rw [hv, Option.some.injEq] at hv'
      rwa [show kv = kv' from Prod.ext heq.symm hv']
    · rw [hfold.2 hk, kv_cleared, if_pos hpre] at hv
      cases hv
  · intro hkv
    refine ⟨hfold.1 kv.2 hkv, ?_⟩
    obtain ⟨guild, id, -, hkey⟩ := mem_factRows_key (List.mem_map_of_mem hkv)
    rw [hkey]
    exact prefix_factKey_memory guild id

/-- The facts at these places are those of the list. -/
theorem filterMap_factLocations {m : Recall J} {n : ℕ} {facts : List MemoryFact}
    (hreads : ReadsFacts J facts)
    (hrows : ∀ kv ∈ factRows J n facts, m.store.kv[kv.1]? = some kv.2) :
    ((factLocations n facts).filterMap fun l =>
      (m.fact l.2 l.1 J.one).map fun fact => (l.2, fact)).map
        (fun (guild, fact) => (⟨guild, fact.user, fact.text, fact.at_⟩ : MemoryFact)) = facts := by
  induction facts generalizing n with
  | nil => rfl
  | cons f facts ih =>
    have hfact : m.fact f.guild n J.one = some ⟨n, f.user, f.text, f.at_, J.one⟩ := by
      unfold Recall.fact WdbxStore.getKv
      rw [hrows _ List.mem_cons_self]
      simp only [Option.bind_eq_bind, Option.bind_some, hreads f List.mem_cons_self]
      rfl
    have hrest := ih (n := n + 1) (fun g hg => hreads g (List.mem_cons_of_mem _ hg))
      fun kv hkv => hrows kv (List.mem_cons_of_mem _ hkv)
    rw [factLocations, List.filterMap_cons_some (by rw [hfact]; rfl), List.map_cons, hrest]

/-- **Rebuild**: the facts that are read back are the list, in its order and multiplicity. -/
theorem memoryFacts_reconcile {m : Recall J} {facts : List MemoryFact} (hreads : ReadsFacts J facts)
    (hnext : m.store.nextId + facts.length ≤ u64Max) :
    (m.reconcileMemoryFacts facts).memoryFacts = facts := by
  by_cases hne : m.memoryFacts = facts
  · unfold Recall.reconcileMemoryFacts
    rw [if_pos hne]
    exact hne
  · have hperm := kvWithPrefix_reconcile hne hnext
    have hlocations := hperm.filterMap fun kv => location kv.1
    rw [filterMap_factRows hnext] at hlocations
    have hup := pairwise_factLocations m.store.nextId facts
    have hsort := mergeSort_of_perm Prod.fst hlocations hup
    have hchain : (factLocations m.store.nextId facts).IsChain (· ≠ ·) :=
      (hup.imp fun h heq => h.ne (congrArg Prod.fst heq)).isChain
    unfold Recall.memoryFacts Recall.allMemoryFacts
    dsimp only
    rw [hsort, List.destutter_of_isChain _ _ hchain]
    refine filterMap_factLocations hreads fun kv hkv => ?_
    exact (mem_prefixScan.mp (hperm.symm.subset hkv)).1

/-! ### What stays -/

/-- The store was read from a text or is new, and was changed by its operations. -/
def WdbxStore.Reached (s : WdbxStore J) : Prop :=
  ∃ (s₀ : WdbxStore J) (h : StoreHistory J),
    (s₀ = WdbxStore.new J ∨ ∃ text, WdbxStore.parse J text = .ok s₀) ∧ Run storeStep s₀ h s

/-- The ids of the vectors are below the next one, while there is a next one. -/
def WdbxStore.Below (s : WdbxStore J) : Prop := s.nextId < u64Max → ∀ id ∈ s.ids, id < s.nextId

theorem below_new : (WdbxStore.new J).Below := fun _ _ hid => absurd hid List.not_mem_nil

theorem below_append {s : WdbxStore J} (hs : s.Below) {id next : ℕ} {values : List J.F32}
    (hle : next < u64Max → s.nextId ≤ next) (hid : next < u64Max → id < next) :
    ({ s with
      vectors := s.vectors ++ [(id, values)]
      nextId := next } : WdbxStore J).Below := by
  intro hlt i hi
  dsimp only at hlt ⊢
  unfold WdbxStore.ids at hi
  rw [List.map_append] at hi
  rcases List.mem_append.mp hi with hi | hi
  · have hnext := hle hlt
    exact (hs (by omega) i hi).trans_le hnext
  · obtain rfl : i = id := List.mem_singleton.mp hi
    exact hid hlt

theorem below_parseBody {ls : List (List Char)} {n : ℕ} {s s' : WdbxStore J} (hs : s.Below)
    (h : s.parseBody n ls = .ok s') : s'.Below := by
  induction ls generalizing n s with
  | nil =>
    rw [← pure_eq_ok.mp h]
    exact hs
  | cons line ls ih =>
    simp only [WdbxStore.parseBody, bind_eq_ok, mapError_eq_ok] at h
    obtain ⟨s₁, hline, hrest⟩ := h
    have hcases := parseLine_cases hline
    refine ih ?_ hrest
    cases hcases with
    | skip => exact hs
    | keep _ => exact hs
    | entry key value => exact hs
    | vector id values items fields _ _ _ _ _ =>
      refine below_append hs (fun _ => le_max_left _ _) fun hlt => ?_
      unfold saturatingAdd at hlt ⊢
      omega

theorem below_apply {s : WdbxStore J} (hs : s.Below) (op : StoreOp J) : (op.apply s).Below := by
  cases op with
  | putKv key value => exact hs
  | removeKv key => exact hs
  | insertVector values =>
    refine below_append hs (fun hlt => ?_) fun hlt => ?_
    · unfold saturatingAdd at hlt ⊢
      omega
    · unfold saturatingAdd at hlt ⊢
      omega
  | removeVector id =>
    intro hlt i hi
    exact hs hlt i ((List.filter_sublist.map Prod.fst).subset hi)

theorem below_of_reached {s : WdbxStore J} (h : s.Reached) : s.Below := by
  obtain ⟨s₀, h, hstart, hrun⟩ := h
  refine hrun.invariant ?_ fun s op hs => below_apply hs op
  rcases hstart with rfl | ⟨text, hparse⟩
  · exact below_new
  · simp only [WdbxStore.parse, bind_eq_ok, ensure_eq_ok, exists_unit] at hparse
    exact below_parseBody below_new hparse.2

theorem le_of_mem_factVectors {n : ℕ} {facts : List MemoryFact} {v : ℕ × List J.F32}
    (h : v ∈ factVectors J n facts) : n ≤ v.1 := by
  induction facts generalizing n with
  | nil => cases h
  | cons f facts ih =>
    rcases List.mem_cons.mp h with rfl | h
    · exact le_rfl
    · have := ih h
      omega

theorem memoryId_factRows {n : ℕ} {facts : List MemoryFact} (hn : n + facts.length ≤ u64Max) :
    (factRows J n facts).filterMap (fun kv => memoryId kv.1) =
      (factVectors J n facts).map Prod.fst := by
  induction facts generalizing n with
  | nil => rfl
  | cons f facts ih =>
    rw [List.length_cons] at hn
    have hid : memoryId (factKey f.guild n) = some n := memoryId_factKey f.guild (by omega)
    have hrest := ih (n := n + 1) (by omega)
    rw [factRows, factVectors, List.map_cons, ← hrest]
    exact List.filterMap_cons_some (f := fun kv : String × String => memoryId kv.1) hid

/-- After a rebuild, keys name the vectors of the list. -/
theorem mem_memoryIds_reconcile {m : Recall J} {facts : List MemoryFact} (hne : m.memoryFacts ≠ facts)
    (hnext : m.store.nextId + facts.length ≤ u64Max) (id : ℕ) :
    id ∈ (m.reconcileMemoryFacts facts).memoryIds ↔
      id ∈ (factVectors J m.store.nextId facts).map Prod.fst := by
  have hperm := (kvWithPrefix_reconcile hne hnext).filterMap fun kv => memoryId kv.1
  rw [memoryId_factRows hnext] at hperm
  exact hperm.mem_iff

theorem kv_reconcile {m : Recall J} {facts : List MemoryFact}
    (hnext : m.store.nextId + facts.length ≤ u64Max) {key : String}
    (hkey : ¬ memoryPrefix.toList <+: key.toList) :
    (m.reconcileMemoryFacts facts).store.kv[key]? = m.store.kv[key]? := by
  by_cases hne : m.memoryFacts = facts
  · unfold Recall.reconcileMemoryFacts
    rw [if_pos hne]
  · have hfold := foldl_insert (nodup_factRows (J := J) m.store.nextId facts) m.cleared.kv key
    rw [reconcile_of_ne hne hnext]
    dsimp only
    rw [hfold.2, kv_cleared, if_neg hkey]
    intro hmem
    obtain ⟨guild, id, -, rfl⟩ := mem_factRows_key hmem
    exact hkey (prefix_factKey_memory guild id)

theorem unknown_reconcile {m : Recall J} {facts : List MemoryFact}
    (hnext : m.store.nextId + facts.length ≤ u64Max) :
    (m.reconcileMemoryFacts facts).store.unknown = m.store.unknown := by
  by_cases hne : m.memoryFacts = facts
  · unfold Recall.reconcileMemoryFacts
    rw [if_pos hne]
  · rw [reconcile_of_ne hne hnext]
    exact (rest_cleared m).2

/-- The vectors that no key of a fact names, before or after, stay in their order. -/
theorem vectors_reconcile {m : Recall J} {facts : List MemoryFact} (hreached : m.store.Reached)
    (hnext : m.store.nextId + facts.length < u64Max) :
    ((m.reconcileMemoryFacts facts).store.vectors.filter fun v =>
        v.1 ∉ m.memoryIds ∧ v.1 ∉ (m.reconcileMemoryFacts facts).memoryIds) =
      m.store.vectors.filter fun v => v.1 ∉ m.memoryIds := by
  by_cases hne : m.memoryFacts = facts
  · have hsame : m.reconcileMemoryFacts facts = m := by
      unfold Recall.reconcileMemoryFacts
      rw [if_pos hne]
    rw [hsame]
    exact List.filter_congr fun v _ => by simp only [and_self]
  · have hids := mem_memoryIds_reconcile hne hnext.le
    have hvectors : (m.reconcileMemoryFacts facts).store.vectors =
        (m.store.vectors.filter fun v => v.1 ∉ m.memoryIds) ++
          factVectors J m.store.nextId facts := by
      rw [reconcile_of_ne hne hnext.le, ← vectors_cleared]
    have hnew : (factVectors J m.store.nextId facts).filter (fun v =>
        decide (v.1 ∉ m.memoryIds ∧ v.1 ∉ (m.reconcileMemoryFacts facts).memoryIds)) = [] := by
      refine List.filter_eq_nil_iff.mpr fun v hv hout => ?_
      exact (of_decide_eq_true hout).2 ((hids v.1).mpr (List.mem_map_of_mem hv))
    rw [hvectors, List.filter_append, hnew, List.append_nil, List.filter_filter]
    refine List.filter_congr fun v hv => ?_
    have hlt : v.1 < m.store.nextId :=
      below_of_reached hreached (by omega) v.1 (List.mem_map_of_mem hv)
    have hold : v.1 ∉ (m.reconcileMemoryFacts facts).memoryIds := fun hmem => by
      obtain ⟨w, hw, heq⟩ := List.mem_map.mp ((hids v.1).mp hmem)
      have := le_of_mem_factVectors hw
      omega
    simp [hold]

/-- **Reconciliation**: the facts become the list, whatever the rows of facts were; other entries,
the lines that are not modelled, and the vectors that no key of a fact names stay; and a second call
with the list changes nothing. -/
theorem reconcile_spec {m : Recall J} {facts : List MemoryFact} (hreached : m.store.Reached)
    (hnext : m.store.nextId + facts.length < u64Max) (hreads : ReadsFacts J facts) :
    (m.reconcileMemoryFacts facts).memoryFacts = facts ∧
      (∀ key : String, ¬ memoryPrefix.toList <+: key.toList →
        (m.reconcileMemoryFacts facts).store.kv[key]? = m.store.kv[key]?) ∧
      (m.reconcileMemoryFacts facts).store.unknown = m.store.unknown ∧
      ((m.reconcileMemoryFacts facts).store.vectors.filter fun v =>
          v.1 ∉ m.memoryIds ∧ v.1 ∉ (m.reconcileMemoryFacts facts).memoryIds) =
        (m.store.vectors.filter fun v => v.1 ∉ m.memoryIds) ∧
      (m.reconcileMemoryFacts facts).reconcileMemoryFacts facts = m.reconcileMemoryFacts facts := by
  have hfacts := memoryFacts_reconcile hreads hnext.le
  refine ⟨hfacts, fun key hkey => kv_reconcile hnext.le hkey, unknown_reconcile hnext.le,
    vectors_reconcile hreached hnext, ?_⟩
  rw [Recall.reconcileMemoryFacts, if_pos hfacts]

/-- Two facts, one of them twice. -/
def teaAndMilk : List MemoryFact :=
  [⟨"g", "u", "tea", 5⟩, ⟨"g", "u", "milk", 5⟩, ⟨"g", "u", "tea", 5⟩]

/-- A vector, an entry of its own, and a row of a fact that cannot be read. -/
def strayOps : List (StoreOp sampleCrates) :=
  [.insertVector ([7] : List ℕ), .putKv "note" "kept", .putKv "mem:g:none" "junk"]

theorem stray_reconciled : ∃ m : Recall sampleCrates, m.store.getKv "mem:g:none" = some "junk" ∧
    m.store.getKv "note" = some "kept" ∧
    (m.reconcileMemoryFacts teaAndMilk).memoryFacts = teaAndMilk ∧
    (m.reconcileMemoryFacts teaAndMilk).store.getKv "note" = some "kept" ∧
    (m.reconcileMemoryFacts teaAndMilk).reconcileMemoryFacts teaAndMilk =
      m.reconcileMemoryFacts teaAndMilk := by
  set m : Recall sampleCrates := ⟨(play storeStep (WdbxStore.new sampleCrates) strayOps).2⟩
  have hreached : m.store.Reached := ⟨_, _, .inl rfl, run_play _ strayOps⟩
  have hreads : ReadsFacts sampleCrates teaAndMilk := by
    unfold ReadsFacts
    decide
  have hspec := reconcile_spec hreached (by decide) hreads
  have hnote : m.store.getKv "note" = some "kept" := by decide
  refine ⟨m, by decide, hnote, hspec.1, ?_, hspec.2.2.2.2⟩
  exact (hspec.2.1 "note" (by decide)).trans hnote

end AbbeyBot.Wdbx
