import Mathlib
import AbbeyBot.Wdbx.Recall

/-! # Isolation of members

A memory is compared with the list of the facts that were remembered and not forgotten. Entries,
vectors and ids follow that list operation by operation, and every query is answered from the part of
it that belongs to one member of one guild. -/

namespace AbbeyBot.Wdbx

open AbbeyBot.Library.BinarySearch AbbeyBot.Library.History AbbeyBot.Library.OrderedMap
open AbbeyBot.Library.PrefixScan AbbeyBot.Library.Text AbbeyBot.Library.Word

variable {J : Crates} {m m' : Recall J} {fs gs : List Memory} {n : ℕ}

/-! ### The facts of a history -/

/-- The facts that were remembered and not forgotten, the oldest first. -/
def live : History J → List Memory
  | [] => []
  | e :: h =>
    match e.op, e.out with
    | .remember guild user text at_, .id n => live h ++ [⟨guild, user, text, at_, n⟩]
    | .forget guild id, _ => (live h).filter fun f => ¬ (f.guild = guild ∧ f.id = id)
    | _, _ => live h

/-- The facts of one member of a guild. -/
def own (fs : List Memory) (guild user : String) : List Memory :=
  fs.filter fun f => f.guild = guild ∧ f.user = user

/-- The JSON text of the facts is read back. -/
def ReadsBack (J : Crates) (fs : List Memory) : Prop :=
  ∀ f ∈ fs, J.readFact (J.factText f.record) = some f.record

/-- A fact as it is given out, with a score. -/
def Memory.recalled (f : Memory) (score : J.Score) : RecalledFact J where
  id := f.id
  user := f.user
  text := f.text
  at_ := f.at_
  score := score

/-- The memory holds these facts, after `n` facts were remembered. -/
structure Recall.Holds (m : Recall J) (fs : List Memory) (n : ℕ) : Prop where
  entries : ∀ k v, m.store.kv[k]? = some v ↔ ∃ f ∈ fs, f.key = k ∧ J.factText f.record = v
  vectors : m.store.vectors = fs.map fun f => (f.id, J.textEmbedding f.text)
  ordered : (fs.map Memory.id).Pairwise (· < ·)
  numbered : ∀ f ∈ fs, 1 ≤ f.id ∧ f.id ≤ n
  next : m.store.nextId = min (n + 1) u64Max

theorem holds_new : (Recall.new J).Holds [] 0 where
  entries k v := by simp [Recall.new, WdbxStore.new]
  vectors := rfl
  ordered := List.Pairwise.nil
  numbered f hf := by cases hf
  next := rfl

theorem Recall.Holds.eq_of_id (hm : m.Holds fs n) {f g : Memory} (hf : f ∈ fs) (hg : g ∈ fs)
    (h : f.id = g.id) : f = g := by
  have hnodup : (fs.map Memory.id).Nodup := hm.ordered.imp ne_of_lt
  exact List.inj_on_of_nodup_map hnodup hf hg h

/-- Remembering gives the next number. -/
theorem Recall.Holds.remember (hm : m.Holds fs n) (hn : n + 1 ≤ u64Max)
    (guild user text : String) (at_ : ℕ) :
    (m.remember guild user text at_).1 = n + 1 ∧
      (m.remember guild user text at_).2.Holds (fs ++ [⟨guild, user, text, at_, n + 1⟩])
        (n + 1) := by
  have hnext : m.store.nextId = n + 1 := by rw [hm.next]; omega
  refine ⟨hnext, ⟨fun k v => ?_, ?_, ?_, ?_, ?_⟩⟩
  · show (m.store.kv.insert (factKey guild m.store.nextId) (J.factText ⟨user, text, at_⟩))[k]? =
      some v ↔ _
    rw [getElem?_insert, hnext]
    split_ifs with hk
    · constructor
      · intro hv
        cases hv
        exact ⟨_, List.mem_append_right _ List.mem_cons_self, hk, rfl⟩
      · rintro ⟨f, hf, hkey, rfl⟩
        rcases List.mem_append.mp hf with hf | hf
        · -- the numbers of the facts held so far are smaller
          have hid := (factKey_inj.mp (hkey.trans hk.symm)).2
          have := (hm.numbered f hf).2
          omega
        · cases List.mem_singleton.mp hf
          rfl
    · rw [hm.entries]
      constructor
      · rintro ⟨f, hf, hrest⟩
        exact ⟨f, List.mem_append_left _ hf, hrest⟩
      · rintro ⟨f, hf, hkey, hv⟩
        rcases List.mem_append.mp hf with hf | hf
        · exact ⟨f, hf, hkey, hv⟩
        · cases List.mem_singleton.mp hf
          exact absurd hkey hk
  · show m.store.vectors ++ [(m.store.nextId, J.textEmbedding text)] = _
    rw [hm.vectors, hnext, List.map_append, List.map_singleton]
  · rw [List.map_append, List.pairwise_append]
    refine ⟨hm.ordered, by simp, fun a ha b hb => ?_⟩
    obtain ⟨f, hf, rfl⟩ := List.mem_map.mp ha
    simp only [List.map_singleton, List.mem_singleton] at hb
    have := (hm.numbered f hf).2
    omega
  · intro f hf
    rcases List.mem_append.mp hf with hf | hf
    · have := hm.numbered f hf
      omega
    · cases List.mem_singleton.mp hf
      exact ⟨by simp, le_rfl⟩
  · show saturatingAdd m.store.nextId 1 = min (n + 1 + 1) u64Max
    rw [hnext, saturatingAdd]

/-- The facts without one of them. -/
def without (fs : List Memory) (guild : String) (id : ℕ) : List Memory :=
  fs.filter fun f => ¬ (f.guild = guild ∧ f.id = id)

theorem mem_without {guild : String} {id : ℕ} {f : Memory} :
    f ∈ without fs guild id ↔ f ∈ fs ∧ ¬ (f.guild = guild ∧ f.id = id) := by
  rw [without, List.mem_filter, decide_eq_true_eq]

/-- A number that is not of the guild is not forgotten. -/
theorem Recall.Holds.forget_none (hm : m.Holds fs n) {guild : String} {id : ℕ}
    (h : ∀ f ∈ fs, ¬ (f.guild = guild ∧ f.id = id)) : m.forget guild id = (false, m) := by
  have hnone : m.store.kv[factKey guild id]? = none := by
    rw [Option.eq_none_iff_forall_not_mem]
    intro v hv
    obtain ⟨f, hf, hkey, -⟩ := (hm.entries _ v).mp hv
    exact h f hf (factKey_inj.mp hkey)
  unfold Recall.forget WdbxStore.removeKv
  rw [hnone]

/-- A fact of the guild is forgotten with its vector, and nothing else. -/
theorem Recall.Holds.forget_some (hm : m.Holds fs n) {f : Memory} (hf : f ∈ fs) :
    (m.forget f.guild f.id).1 = true ∧
      (m.forget f.guild f.id).2.Holds (without fs f.guild f.id) n := by
  have hsome : m.store.kv[factKey f.guild f.id]? = some (J.factText f.record) :=
    (hm.entries _ _).mpr ⟨f, hf, rfl, rfl⟩
  unfold Recall.forget WdbxStore.removeKv WdbxStore.removeVector
  rw [hsome]
  refine ⟨rfl, ⟨fun k v => ?_, ?_, ?_, ?_, hm.next⟩⟩
  · show (m.store.kv.erase (factKey f.guild f.id))[k]? = some v ↔ _
    rw [Std.ExtTreeMap.getElem?_erase]
    split_ifs with hk
    · rw [Std.LawfulEqOrd.compare_eq_iff_eq] at hk
      simp only [false_iff, not_exists, not_and]
      rintro g hg hkey -
      exact (mem_without.mp hg).2 (factKey_inj.mp (hkey.trans hk.symm))
    · rw [Std.LawfulEqOrd.compare_eq_iff_eq] at hk
      rw [hm.entries]
      refine exists_congr fun g => ?_
      rw [mem_without]
      constructor
      · rintro ⟨hg, hkey, hv⟩
        exact ⟨⟨hg, fun h => hk ((factKey_inj.mpr ⟨h.1.symm, h.2.symm⟩).trans hkey)⟩, hkey, hv⟩
      · rintro ⟨hg, hkey, hv⟩
        exact ⟨hg.1, hkey, hv⟩
  · show m.store.vectors.filter _ = _
    rw [hm.vectors, List.filter_map, without]
    congr 1
    refine List.filter_congr fun g hg => ?_
    have hsame : g.id = f.id ↔ g.guild = f.guild ∧ g.id = f.id :=
      ⟨fun h => by rw [hm.eq_of_id hg hf h]; exact ⟨rfl, rfl⟩, fun h => h.2⟩
    rw [Function.comp_apply, decide_eq_decide, ne_eq, ← hsame]
  · exact hm.ordered.sublist (List.filter_sublist.map _)
  · exact fun g hg => hm.numbered g (mem_without.mp hg).1

/-! ### Queries -/

theorem Recall.Holds.fact_eq (hm : m.Holds fs n) (hJ : ReadsBack J fs) {f : Memory} (hf : f ∈ fs)
    (score : J.Score) : m.fact f.guild f.id score = some (f.recalled score) := by
  have hsome : m.store.kv[factKey f.guild f.id]? = some (J.factText f.record) :=
    (hm.entries _ _).mpr ⟨f, hf, rfl, rfl⟩
  simp only [Recall.fact, WdbxStore.getKv, hsome, hJ f hf, Option.bind_eq_bind, Option.bind_some]
  rfl

/-- The scan of a guild reads the ids of its facts, each once. -/
theorem Recall.Holds.scan (hm : m.Holds fs n) (hn : n ≤ u64Max) (guild : String) :
    ((m.store.kvWithPrefix (factKeyPrefix guild)).filterMap fun kv =>
        parseU64 (kv.1.toList.drop (factKeyPrefix guild).toList.length)).Perm
      ((fs.filter fun f => f.guild = guild).map Memory.id) := by
  have hscan : ∀ kv ∈ m.store.kvWithPrefix (factKeyPrefix guild), ∀ id,
      parseU64 (kv.1.toList.drop (factKeyPrefix guild).toList.length) = some id →
        kv.1 = factKey guild id ∧ ∃ f ∈ fs, f.guild = guild ∧ f.id = id := by
    intro kv hkv id hid
    obtain ⟨hrow, hstart⟩ := mem_prefixScan.mp hkv
    obtain ⟨f, hf, hkey, -⟩ := (hm.entries _ _).mp hrow
    have hle : f.id ≤ u64Max := (hm.numbered f hf).2.trans hn
    rw [← hkey] at hstart hid
    obtain ⟨rfl, rfl⟩ := factKey_of_prefix hle hstart hid
    exact ⟨hkey.symm, f, hf, rfl, rfl⟩
  refine (List.perm_ext_iff_of_nodup ?_ ?_).mpr fun id => ?_
  · have hkeys : ((m.store.kvWithPrefix (factKeyPrefix guild)).map Prod.fst).Nodup :=
      nodup_prefixScan
    rw [List.Nodup, List.pairwise_filterMap]
    refine (List.pairwise_map.mp hkeys).imp_of_mem fun ha hb hab id hid id' hid' heq => hab ?_
    rw [(hscan _ ha id hid).1, (hscan _ hb id' hid').1, heq]
  · exact (hm.ordered.imp ne_of_lt).sublist (List.filter_sublist.map _)
  · rw [List.mem_filterMap, List.mem_map]
    constructor
    · rintro ⟨kv, hkv, hid⟩
      obtain ⟨-, f, hf, hguild, hid⟩ := hscan kv hkv id hid
      exact ⟨f, by simp [hf, hguild], hid⟩
    · rintro ⟨f, hf, rfl⟩
      simp only [List.mem_filter, decide_eq_true_eq] at hf
      obtain ⟨hf, rfl⟩ := hf
      obtain ⟨hstart, hdrop⟩ := prefix_factKey f.guild f.id
      have hrow := (hm.entries _ _).mpr ⟨f, hf, rfl, rfl⟩
      refine ⟨(factKey f.guild f.id, J.factText f.record), mem_prefixScan.mpr ⟨hrow, hstart⟩, ?_⟩
      rw [hdrop]
      exact parseU64_toString ((hm.numbered f hf).2.trans hn)

/-- The ids of a guild, in the order of numbers. -/
theorem Recall.Holds.guildIds_eq (hm : m.Holds fs n) (hn : n ≤ u64Max) (guild : String) :
    m.guildIds guild = (fs.filter fun f => f.guild = guild).map Memory.id := by
  have hsorted : ((fs.filter fun f => f.guild = guild).map Memory.id).Pairwise (· < ·) :=
    hm.ordered.sublist (List.filter_sublist.map _)
  have hsort : ((m.store.kvWithPrefix (factKeyPrefix guild)).filterMap fun kv =>
      parseU64 (kv.1.toList.drop (factKeyPrefix guild).toList.length)).mergeSort
        (fun a b => a ≤ b) = (fs.filter fun f => f.guild = guild).map Memory.id := by
    refine ((List.mergeSort_perm _ _).trans (hm.scan hn guild)).eq_of_pairwise ?_ ?_
      (hsorted.imp le_of_lt)
    · exact fun a b _ _ hab hba => le_antisymm hab hba
    · exact (List.pairwise_mergeSort (by simpa using fun _ _ _ => le_trans)
        (by simpa using le_total) _).imp (by simp)
  unfold Recall.guildIds
  simp only [hsort]
  exact List.destutter_of_isChain _ _ (hsorted.imp ne_of_lt).isChain

theorem mem_own {guild user : String} {f : Memory} :
    f ∈ own fs guild user ↔ f ∈ fs ∧ f.guild = guild ∧ f.user = user := by
  simp [own]

/-- The listing of a member. -/
theorem Recall.Holds.factsForUser_eq (hm : m.Holds fs n) (hn : n ≤ u64Max) (hJ : ReadsBack J fs)
    (guild user : String) :
    m.factsForUser guild user = (own fs guild user).map (Memory.recalled · J.one) := by
  have hfacts : ((fs.filter fun f => f.guild = guild).map Memory.id).filterMap
      (fun id => m.fact guild id J.one) =
        (fs.filter fun f => f.guild = guild).map (Memory.recalled · J.one) := by
    rw [List.filterMap_map]
    refine List.filterMap_eq_map_iff_forall_eq_some.mpr fun f hf => ?_
    simp only [List.mem_filter, decide_eq_true_eq] at hf
    obtain ⟨hf, rfl⟩ := hf
    exact hm.fact_eq hJ hf J.one
  unfold Recall.factsForUser
  rw [hm.guildIds_eq hn, hfacts, List.filter_map, List.filter_filter]
  congr 1
  refine List.filter_congr fun f _ => ?_
  simp only [Function.comp_apply, Memory.recalled, Bool.decide_and, Bool.and_comm]

/-- The score of a fact. -/
def score (J : Crates) (queryText : String) (f : Memory) : J.Score :=
  J.cosine (J.textEmbedding queryText) (J.textEmbedding f.text)

/-- The facts in the order in which they answer a query. -/
def ranked (J : Crates) (queryText : String) (fs : List Memory) : List Memory :=
  fs.mergeSort fun f g => better (f.id, score J queryText f) (g.id, score J queryText g)

/-- The answer to a query. -/
theorem Recall.Holds.recallForUser_eq (hm : m.Holds fs n) (hn : n ≤ u64Max)
    (hJ : ReadsBack J fs) (guild user queryText : String) (k : ℕ) :
    m.recallForUser guild user queryText k =
      ((ranked J queryText (own fs guild user)).take k).map fun f =>
        f.recalled (score J queryText f) := by
  have hids : (m.guildIds guild).filter (fun id =>
      (m.fact guild id J.zero).any fun fact => fact.user = user) =
        (own fs guild user).map Memory.id := by
    rw [hm.guildIds_eq hn, List.filter_map, List.filter_filter, own]
    congr 1
    refine List.filter_congr fun f hf => ?_
    by_cases hguild : f.guild = guild
    · subst hguild
      simp [hm.fact_eq hJ hf, Memory.recalled]
    · simp [hguild]
  have hsorted : ((own fs guild user).map Memory.id).Pairwise (· ≤ ·) :=
    (hm.ordered.sublist (List.filter_sublist.map _)).imp le_of_lt
  have hfound : m.store.vectors.filter (fun v =>
      binarySearch ((own fs guild user).map Memory.id) v.1) =
        (own fs guild user).map fun f => (f.id, J.textEmbedding f.text) := by
    rw [hm.vectors, List.filter_map]
    refine congrArg (List.map _) (List.filter_congr fun f hf => ?_)
    rw [Bool.eq_iff_iff, Function.comp_apply, binarySearch_iff hsorted, decide_eq_true_eq,
      List.mem_map]
    constructor
    · rintro ⟨g, hg, hid⟩
      obtain ⟨hg, hrest⟩ := mem_own.mp hg
      rwa [hm.eq_of_id hg hf hid] at hrest
    · exact fun h => ⟨f, mem_own.mpr ⟨hf, h⟩, rfl⟩
  have hsort : ((own fs guild user).map fun f => (f.id, score J queryText f)).mergeSort better =
      (ranked J queryText (own fs guild user)).map fun f => (f.id, score J queryText f) := by
    unfold ranked
    rw [List.map_mergeSort]
    exact fun _ _ _ _ => rfl
  have hsearch : m.store.search (J.textEmbedding queryText) k
      (binarySearch ((own fs guild user).map Memory.id)) =
        ((ranked J queryText (own fs guild user)).take k).map fun f =>
          (f.id, score J queryText f) := by
    unfold WdbxStore.search
    rw [hfound, List.map_map, List.map_take, ← hsort]
    rfl
  unfold Recall.recallForUser
  simp only [hids, hsearch, List.filterMap_map]
  refine List.filterMap_eq_map_iff_forall_eq_some.mpr fun f hf => ?_
  have hmem : f ∈ own fs guild user := List.mem_mergeSort.mp (List.mem_of_mem_take hf)
  obtain ⟨hheld, rfl, -⟩ := mem_own.mp hmem
  exact hm.fact_eq hJ hheld _

/-! ### Runs -/

theorem live_subset (h : History J) : live h ⊆ remembered h := by
  induction h with
  | nil => exact List.nil_subset _
  | cons e h ih =>
    obtain ⟨before, op, out, after⟩ := e
    intro f hf
    cases op with
    | remember guild user text at_ =>
      cases out with
      | id n =>
        rcases List.mem_append.mp hf with hf | hf
        · exact List.mem_cons_of_mem _ (ih hf)
        · exact List.mem_singleton.mp hf ▸ List.mem_cons_self
      | forgotten existed => exact ih hf
      | restarted saved => exact ih hf
    | forget guild id => exact ih (List.mem_filter.mp hf).1
    | restart => exact ih hf

/-- A history of remembering and forgetting, of fewer facts than there are ids. -/
structure Remembers (h : History J) : Prop where
  noRestart : ∀ e ∈ h, e.op ≠ .restart
  calls : (remembered h).length ≤ u64Max
  readsBack : ReadsBack J (remembered h)

theorem holds_of_reaches {h : History J} (hr : Reaches J h m) (hno : ∀ e ∈ h, e.op ≠ .restart)
    (hcalls : (remembered h).length ≤ u64Max) : m.Holds (live h) (remembered h).length := by
  induction hr with
  | nil => exact holds_new
  | @cons h m op hr ih =>
    have hno' : ∀ e ∈ h, e.op ≠ .restart := fun e he => hno e (List.mem_cons_of_mem _ he)
    cases op with
    | remember guild user text at_ =>
      have hlen : (remembered (event (step J) m (.remember guild user text at_) :: h)).length =
          (remembered h).length + 1 := rfl
      rw [hlen] at hcalls ⊢
      obtain ⟨hid, hholds⟩ := (ih hno' (by omega)).remember hcalls guild user text at_
      show (m.remember guild user text at_).2.Holds
        (live h ++ [⟨guild, user, text, at_, (m.remember guild user text at_).1⟩]) _
      rw [hid]
      exact hholds
    | forget guild id =>
      have hm := ih hno' hcalls
      show (m.forget guild id).2.Holds (without (live h) guild id) (remembered h).length
      by_cases hex : ∃ f ∈ live h, f.guild = guild ∧ f.id = id
      · obtain ⟨f, hf, rfl, rfl⟩ := hex
        exact (hm.forget_some hf).2
      · have hnone : ∀ f ∈ live h, ¬ (f.guild = guild ∧ f.id = id) := fun f hf heq =>
          hex ⟨f, hf, heq⟩
        rw [hm.forget_none hnone, without,
          List.filter_eq_self.mpr fun f hf => decide_eq_true (hnone f hf)]
        exact hm
    | restart => exact absurd rfl (hno _ List.mem_cons_self)

/-! ### Isolation -/

/-- A fact as it is given out, without its id. -/
def RecalledFact.said (f : RecalledFact J) : FactRecord × J.Score := (⟨f.user, f.text, f.at_⟩, f.score)

/-- The order of the answers depends on what the facts say and on the order of their ids only. -/
theorem ranked_records {xs ys : List Memory} (queryText : String)
    (hx : (xs.map Memory.id).Pairwise (· < ·)) (hy : (ys.map Memory.id).Pairwise (· < ·))
    (h : xs.map Memory.record = ys.map Memory.record) :
    (ranked J queryText xs).map Memory.record = (ranked J queryText ys).map Memory.record := by
  have hlen : xs.length = ys.length := by simpa using congrArg List.length h
  set zs := xs.zip ys with hzs
  have hfst : zs.map Prod.fst = xs := List.map_fst_zip hlen.le
  have hsnd : zs.map Prod.snd = ys := List.map_snd_zip hlen.ge
  have hrecord : ∀ p ∈ zs, p.1.record = p.2.record := by
    rw [← hfst, ← hsnd, List.map_map, List.map_map] at h
    exact List.map_inj_left.mp h
  -- the two lists of ids are in the same order
  have horder : ∀ p ∈ zs, ∀ q ∈ zs, p.1.id ≤ q.1.id ↔ p.2.id ≤ q.2.id := by
    rw [← hfst, List.map_map, List.pairwise_map] at hx
    rw [← hsnd, List.map_map, List.pairwise_map] at hy
    have hboth := hx.and hy
    simp only [Function.comp_apply] at hboth
    refine fun p hp q hq => List.Pairwise.forall_of_forall_of_flip
      (R := fun p q : Memory × Memory => p.1.id ≤ q.1.id ↔ p.2.id ≤ q.2.id) (fun p _ => by simp)
      (hboth.imp fun h => ?_) (hboth.imp fun h => ?_) hp hq
    · omega
    · simp only [flip]
      omega
  have hscore : ∀ p ∈ zs, score J queryText p.1 = score J queryText p.2 := by
    intro p hp
    have htext := congrArg FactRecord.text (hrecord p hp)
    unfold score
    rw [show p.1.text = p.2.text from htext]
  have hleft : ranked J queryText xs = (zs.mergeSort fun p q =>
      better (p.1.id, score J queryText p.1) (q.1.id, score J queryText q.1)).map Prod.fst := by
    rw [List.map_mergeSort (s := fun f g => better (f.id, score J queryText f)
      (g.id, score J queryText g)) (fun _ _ _ _ => rfl), hfst]
    rfl
  have hright : ranked J queryText ys = (zs.mergeSort fun p q =>
      better (p.2.id, score J queryText p.2) (q.2.id, score J queryText q.2)).map Prod.snd := by
    rw [List.map_mergeSort (s := fun f g => better (f.id, score J queryText f)
      (g.id, score J queryText g)) (fun _ _ _ _ => rfl), hsnd]
    rfl
  have hsame : (zs.mergeSort fun p q =>
      better (p.1.id, score J queryText p.1) (q.1.id, score J queryText q.1)) =
        zs.mergeSort fun p q =>
          better (p.2.id, score J queryText p.2) (q.2.id, score J queryText q.2) := by
    have hmap := List.map_mergeSort (f := fun p : Memory × Memory => p) (l := zs)
      (r := fun p q => better (p.1.id, score J queryText p.1) (q.1.id, score J queryText q.1))
      (s := fun p q => better (p.2.id, score J queryText p.2) (q.2.id, score J queryText q.2))
      (fun p hp q hq => by
        simp only [better, hscore p hp, hscore q hq, horder p hp q hq])
    simpa using hmap
  rw [hleft, hright, hsame, List.map_map, List.map_map]
  refine List.map_congr_left fun p hp => ?_
  exact hrecord p (List.mem_mergeSort.mp hp)

/-- What a memory answers is about the facts of one member of one guild. -/
structure Isolates (h : History J) (m : Recall J) : Prop where
  ordered : ((live h).map Memory.id).Pairwise (· < ·)
  listing : ∀ guild user, m.factsForUser guild user =
    (own (live h) guild user).map (Memory.recalled · J.one)
  length : ∀ guild user queryText k, (m.recallForUser guild user queryText k).length =
    min k (own (live h) guild user).length
  distinct : ∀ guild user queryText k,
    ((m.recallForUser guild user queryText k).map RecalledFact.id).Nodup
  owned : ∀ guild user queryText k, ∀ found ∈ m.recallForUser guild user queryText k,
    ∃ f ∈ own (live h) guild user, found = f.recalled (score J queryText f)
  kept : ∀ guild id, (∀ f ∈ remembered h, ¬ (f.guild = guild ∧ f.id = id)) →
    m.forget guild id = (false, m)

theorem isolates_of_reaches {h : History J} (hr : Reaches J h m) (hh : Remembers h) :
    Isolates h m := by
  have hm := holds_of_reaches hr hh.noRestart hh.calls
  have hJ : ReadsBack J (live h) := fun f hf => hh.readsBack f (live_subset h hf)
  have hrecall := fun guild user queryText k =>
    hm.recallForUser_eq hh.calls hJ guild user queryText k
  refine ⟨hm.ordered, hm.factsForUser_eq hh.calls hJ, ?_, ?_, ?_, ?_⟩
  · intro guild user queryText k
    rw [hrecall, List.length_map, List.length_take, ranked, List.length_mergeSort]
  · intro guild user queryText k
    rw [hrecall, List.map_map]
    have hperm : ((ranked J queryText (own (live h) guild user)).map Memory.id).Perm
        ((own (live h) guild user).map Memory.id) := (List.mergeSort_perm _ _).map _
    have hnodup : ((own (live h) guild user).map Memory.id).Nodup :=
      (hm.ordered.imp ne_of_lt).sublist (List.filter_sublist.map _)
    exact (hperm.nodup_iff.mpr hnodup).sublist ((List.take_sublist _ _).map _)
  · intro guild user queryText k found hfound
    rw [hrecall, List.mem_map] at hfound
    obtain ⟨f, hf, rfl⟩ := hfound
    exact ⟨f, List.mem_mergeSort.mp (List.mem_of_mem_take hf), rfl⟩
  · intro guild id hnone
    exact hm.forget_none fun f hf => hnone f (live_subset h hf)

/-- **Isolation**: a memory answers from the facts of the member in the guild, and two memories in
which these say the same answer the same up to ids. -/
theorem recall_isolated {h : History J} (hr : Reaches J h m) (hh : Remembers h) :
    Isolates h m ∧ ∀ (h' : History J) (m' : Recall J), Reaches J h' m' → Remembers h' →
      ∀ guild user, (own (live h) guild user).map Memory.record =
          (own (live h') guild user).map Memory.record →
        (m.factsForUser guild user).map RecalledFact.said =
          (m'.factsForUser guild user).map RecalledFact.said ∧
        ∀ queryText k, (m.recallForUser guild user queryText k).map RecalledFact.said =
          (m'.recallForUser guild user queryText k).map RecalledFact.said := by
  refine ⟨isolates_of_reaches hr hh, fun h' m' hr' hh' guild user hsame => ?_⟩
  have hm := holds_of_reaches hr hh.noRestart hh.calls
  have hm' := holds_of_reaches hr' hh'.noRestart hh'.calls
  have hJ : ReadsBack J (live h) := fun f hf => hh.readsBack f (live_subset h hf)
  have hJ' : ReadsBack J (live h') := fun f hf => hh'.readsBack f (live_subset h' hf)
  have hsaid : ∀ (fs : List Memory) (sc : FactRecord → J.Score),
      (fs.map fun f => f.recalled (sc f.record)).map RecalledFact.said =
        (fs.map Memory.record).map fun r => (r, sc r) := fun fs sc => by
    rw [List.map_map, List.map_map]
    rfl
  constructor
  · rw [hm.factsForUser_eq hh.calls hJ, hm'.factsForUser_eq hh'.calls hJ',
      hsaid _ fun _ => J.one, hsaid _ fun _ => J.one, hsame]
  · intro queryText k
    have hranked : (ranked J queryText (own (live h) guild user)).map Memory.record =
        (ranked J queryText (own (live h') guild user)).map Memory.record :=
      ranked_records queryText (hm.ordered.sublist (List.filter_sublist.map _))
        (hm'.ordered.sublist (List.filter_sublist.map _)) hsame
    rw [hm.recallForUser_eq hh.calls hJ, hm'.recallForUser_eq hh'.calls hJ']
    have hscore := fun fs : List Memory => hsaid fs fun r =>
      J.cosine (J.textEmbedding queryText) (J.textEmbedding r.text)
    refine (hscore _).trans (Eq.trans ?_ (hscore _).symm)
    simp only [List.map_take, hranked]

/-- Two guilds, one of them with a separator in its name. -/
def sampleOps : List Op :=
  [.remember "g" "u" "tea" 5, .remember "g:1" "u" "milk" 5, .remember "g" "u" "milk" 5, .forget "g" 2]

/-- What the member of the guild g has told is kept apart from the other guild. -/
theorem sample_isolated :
    own (live (play (step sampleCrates) (Recall.new sampleCrates) sampleOps).1) "g" "u" =
        [⟨"g", "u", "tea", 5, 1⟩, ⟨"g", "u", "milk", 5, 3⟩] ∧
      Isolates (play (step sampleCrates) (Recall.new sampleCrates) sampleOps).1
        (play (step sampleCrates) (Recall.new sampleCrates) sampleOps).2 := by
  refine ⟨by decide, (recall_isolated (run_play _ sampleOps) ⟨?_, ?_, ?_⟩).1⟩
  · decide
  · decide
  · unfold ReadsBack
    decide

/-! ### The last id -/

/-- A fact that is remembered again and again. -/
theorem exists_remembered (J : Crates) (guild user text : String) (at_ n : ℕ) :
    ∃ (h : History J) (m : Recall J), Reaches J h m ∧ (∀ e ∈ h, e.op ≠ .restart) ∧
      (remembered h).length = n ∧ ∀ f ∈ remembered h, f.record = ⟨user, text, at_⟩ := by
  induction n with
  | zero => exact ⟨[], _, .nil, fun e he => (List.not_mem_nil he).elim, rfl,
      fun f hf => (List.not_mem_nil hf).elim⟩
  | succ n ih =>
    obtain ⟨h, m, hr, hno, hlen, hrecord⟩ := ih
    refine ⟨_, _, hr.cons (.remember guild user text at_), fun e he => ?_, ?_, fun f hf => ?_⟩
    · rcases List.mem_cons.mp he with rfl | he
      · simp [event]
      · exact hno e he
    · rw [← hlen]
      rfl
    · rcases List.mem_cons.mp hf with rfl | hf
      · rfl
      · exact hrecord f hf

/-- A listed fact is stored under its id. -/
theorem fact_of_mem_factsForUser {guild user : String} {found : RecalledFact J}
    (h : found ∈ m.factsForUser guild user) : m.fact guild found.id J.one = some found := by
  obtain ⟨hfound, -⟩ := List.mem_filter.mp h
  obtain ⟨id, -, hfact⟩ := List.mem_filterMap.mp hfound
  have hid : found.id = id := by
    unfold Recall.fact at hfact
    simp only [Option.bind_eq_bind, Option.bind_eq_some_iff, Option.pure_def,
      Option.some.injEq] at hfact
    obtain ⟨_, -, _, -, rfl⟩ := hfact
    rfl
  rw [hid]
  exact hfact

/-- Once all ids were given out, the last one is given out again, and the fact it stood for is lost
without having been forgotten. -/
theorem last_id_reused : ¬ ∀ (J : Crates) (h : History J) (m : Recall J), Reaches J h m →
    (∀ e ∈ h, e.op ≠ .restart) → ReadsBack J (remembered h) → ∀ guild user,
      m.factsForUser guild user = (own (live h) guild user).map (Memory.recalled · J.one) := by
  intro hall
  have hmax : u64Max - 1 + 1 = u64Max := by decide
  obtain ⟨h, m, hr, hno, hlen, hrecord⟩ :=
    exists_remembered sampleCrates "g" "u" "tea" 5 (u64Max - 1)
  have hm := holds_of_reaches hr hno (by omega)
  rw [hlen] at hm
  obtain ⟨hid, hm₁⟩ := hm.remember hmax.le "g" "u" "tea" 5
  rw [hmax] at hid hm₁
  set m₁ := (m.remember "g" "u" "tea" 5).2 with hm₁def
  have hnext : m₁.store.nextId = u64Max := by rw [hm₁.next]; omega
  have hr₁ : Reaches sampleCrates _ m₁ := hr.cons (.remember "g" "u" "tea" 5)
  have hr₂ := hr₁.cons (.remember "g" "u" "milk" 5)
  have hlisting := hall sampleCrates _ _ hr₂ (fun e he => ?_) (fun f hf => ?_) "g" "u"
  · have hlost : (⟨"g", "u", "tea", 5, u64Max⟩ : Memory) ∈
        own (live (event (step sampleCrates) m₁ (.remember "g" "u" "milk" 5) ::
          event (step sampleCrates) m (.remember "g" "u" "tea" 5) :: h)) "g" "u" := by
      rw [mem_own]
      refine ⟨List.mem_append_left _ (List.mem_append_right _ ?_), rfl, rfl⟩
      show _ ∈ [(⟨"g", "u", "tea", 5, (m.remember "g" "u" "tea" 5).1⟩ : Memory)]
      rw [hid]
      exact List.mem_cons_self
    have hmem := List.mem_map_of_mem (f := (Memory.recalled · sampleCrates.one)) hlost
    rw [← hlisting] at hmem
    have hfact := fact_of_mem_factsForUser hmem
    have hkv : (m₁.remember "g" "u" "milk" 5).2.store.getKv (factKey "g" u64Max) =
        some milkFact.json := by
      show (m₁.store.kv.insert (factKey "g" m₁.store.nextId) milkFact.json)[factKey "g" u64Max]? = _
      rw [hnext, Std.ExtTreeMap.getElem?_insert_self]
    have hread : sampleCrates.readFact milkFact.json = some milkFact := by decide
    have hmilk : (m₁.remember "g" "u" "milk" 5).2.fact "g" u64Max sampleCrates.one =
        some ⟨u64Max, "u", "milk", 5, sampleCrates.one⟩ := by
      unfold Recall.fact
      rw [hkv]
      simp only [Option.bind_eq_bind, Option.bind_some, hread]
      rfl
    have heq := congrArg (Option.map RecalledFact.text) (hmilk.symm.trans hfact)
    exact absurd heq (by simp [Memory.recalled])
  · rcases List.mem_cons.mp he with rfl | he
    · simp [event]
    · rcases List.mem_cons.mp he with rfl | he
      · simp [event]
      · exact hno e he
  · have htea : sampleCrates.readFact teaFact.json = some teaFact := by decide
    have hmilk : sampleCrates.readFact milkFact.json = some milkFact := by decide
    rcases List.mem_cons.mp hf with rfl | hf
    · exact hmilk
    · rcases List.mem_cons.mp hf with rfl | hf
      · exact htea
      · rw [hrecord f hf]
        exact htea

end AbbeyBot.Wdbx
