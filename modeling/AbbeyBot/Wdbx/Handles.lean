import Mathlib
import AbbeyBot.Wdbx.Recall

/-! # Handles

The id that a fact was remembered under is its handle. Within one process ids go up, but the file
does not have the next one: a restart goes on above the ids that are still stored. So a handle is
given out again exactly where a restart follows the loss of the fact remembered last. -/

namespace AbbeyBot.Wdbx

open AbbeyBot.Library.History AbbeyBot.Library.OrderedMap AbbeyBot.Library.Result
open AbbeyBot.Library.Word

variable {J : Crates} {m : Recall J} {h : History J}

/-- The ids that were returned, the latest first. -/
def rememberedIds (h : History J) : List ℕ := (remembered h).map Memory.id

/-- At every point of the run, the id that a fact would be remembered under is new. -/
def NeverReuses (h : History J) : Prop :=
  ∀ (h₁ h₂ : History J) (m₂ : Recall J), h = h₁ ++ h₂ → Reaches J h₂ m₂ →
    ∀ guild user text at_, (m₂.remember guild user text at_).1 ∉ rememberedIds h₂

/-- The memory can be written to a file. -/
def Recall.Savable (m : Recall J) : Prop := ∀ v ∈ m.store.vectors, v.2.all J.isFinite = true

/-- The id given out last, if there was one, is still stored. -/
def Recall.KeepsLast (m : Recall J) : Prop :=
  m.store.nextId = 1 ∨ m.store.nextId - 1 ∈ m.store.ids

instance (m : Recall J) : Decidable m.KeepsLast := inferInstanceAs (Decidable (_ ∨ _))

/-- The memory is restarted only while the id given out last is stored. -/
def RestartsKeepLast (h : History J) : Prop :=
  ∀ e ∈ h, e.op = .restart → e.before.Savable → e.before.KeepsLast

/-! ### The next id of a file -/

/-- The next id that is read back from a file with these ids. -/
def nextAbove (ids : List ℕ) : ℕ := ids.foldl (fun next id => max next (saturatingAdd id 1)) 1

theorem foldl_nextAbove {ids : List ℕ} (hids : ∀ id ∈ ids, id < u64Max) (start : ℕ) :
    start ≤ ids.foldl (fun next id => max next (saturatingAdd id 1)) start ∧
      (∀ id ∈ ids, id < ids.foldl (fun next id => max next (saturatingAdd id 1)) start) ∧
      (ids.foldl (fun next id => max next (saturatingAdd id 1)) start = start ∨
        ∃ id ∈ ids, ids.foldl (fun next id => max next (saturatingAdd id 1)) start = id + 1) := by
  induction ids generalizing start with
  | nil => exact ⟨le_rfl, fun id hid => (List.not_mem_nil hid).elim, .inl rfl⟩
  | cons id ids ih =>
    have hid := hids id List.mem_cons_self
    have hsat : saturatingAdd id 1 = id + 1 := by unfold saturatingAdd; omega
    obtain ⟨hle, habove, hcases⟩ := ih (fun i hi => hids i (List.mem_cons_of_mem _ hi))
      (max start (saturatingAdd id 1))
    rw [List.foldl_cons]
    refine ⟨by omega, fun i hi => ?_, ?_⟩
    · rcases List.mem_cons.mp hi with rfl | hi
      · omega
      · exact habove i hi
    · rcases hcases with heq | ⟨i, hi, heq⟩
      · rcases max_choice start (saturatingAdd id 1) with hmax | hmax
        · exact .inl (heq.trans hmax)
        · exact .inr ⟨id, List.mem_cons_self, heq.trans (hmax.trans hsat)⟩
      · exact .inr ⟨i, List.mem_cons_of_mem _ hi, heq⟩

/-- It is above all ids, and the first such. -/
theorem nextAbove_spec {ids : List ℕ} (hids : ∀ id ∈ ids, id < u64Max) :
    1 ≤ nextAbove ids ∧ (∀ id ∈ ids, id < nextAbove ids) ∧
      (nextAbove ids = 1 ∨ nextAbove ids - 1 ∈ ids) := by
  obtain ⟨hle, habove, hcases⟩ := foldl_nextAbove hids 1
  refine ⟨hle, habove, hcases.imp_right ?_⟩
  rintro ⟨id, hid, heq⟩
  unfold nextAbove
  rw [heq, Nat.add_sub_cancel]
  exact hid

/-! ### What every run keeps -/

/-- Ids go up and stay below the next one; every entry was remembered. -/
structure Recall.Sound (m : Recall J) (h : History J) : Prop where
  ordered : m.store.ids.Pairwise (· < ·)
  numbered : ∀ id ∈ m.store.ids, id < m.store.nextId
  next : 1 ≤ m.store.nextId ∧ m.store.nextId ≤ (remembered h).length + 1
  unknown : m.store.unknown = []
  entries : ∀ k v, m.store.kv[k]? = some v →
    ∃ f ∈ remembered h, f.key = k ∧ J.factText f.record = v

theorem ids_remember (m : Recall J) (guild user text : String) (at_ : ℕ) :
    (m.remember guild user text at_).2.store.ids = m.store.ids ++ [m.store.nextId] := by
  simp [Recall.remember, WdbxStore.insertVector, WdbxStore.putKv, WdbxStore.ids]

theorem Recall.Sound.remember (hm : m.Sound h) (hcalls : (remembered h).length + 1 < u64Max)
    (guild user text : String) (at_ : ℕ) :
    (m.remember guild user text at_).2.store.nextId = m.store.nextId + 1 ∧
      (m.remember guild user text at_).2.Sound
        (event (step J) m (.remember guild user text at_) :: h) := by
  have hnext : (m.remember guild user text at_).2.store.nextId = m.store.nextId + 1 := by
    have := hm.next
    show saturatingAdd m.store.nextId 1 = _
    unfold saturatingAdd
    omega
  have hids := ids_remember m guild user text at_
  refine ⟨hnext, ⟨?_, fun id hid => ?_, ?_, hm.unknown, fun k v hkv => ?_⟩⟩
  · rw [hids, List.pairwise_append]
    exact ⟨hm.ordered, List.pairwise_singleton _ _, fun a ha b hb =>
      List.mem_singleton.mp hb ▸ hm.numbered a ha⟩
  · rw [hids] at hid
    rw [hnext]
    rcases List.mem_append.mp hid with hid | hid
    · have := hm.numbered id hid
      omega
    · have := List.mem_singleton.mp hid
      omega
  · have hlen : (remembered (event (step J) m (.remember guild user text at_) :: h)).length =
        (remembered h).length + 1 := rfl
    have := hm.next
    rw [hnext, hlen]
    omega
  · change (m.store.kv.insert (factKey guild m.store.nextId) (J.factText ⟨user, text, at_⟩))[k]? =
      some v at hkv
    rw [getElem?_insert] at hkv
    split_ifs at hkv with hk
    · cases hkv
      exact ⟨_, List.mem_cons_self, hk, rfl⟩
    · obtain ⟨f, hf, hrest⟩ := hm.entries k v hkv
      exact ⟨f, List.mem_cons_of_mem _ hf, hrest⟩

/-- Forgetting removes entries and ids, and leaves the next id. -/
theorem forget_spec (m : Recall J) (guild : String) (id : ℕ) :
    (m.forget guild id).2.store.nextId = m.store.nextId ∧
      (m.forget guild id).2.store.unknown = m.store.unknown ∧
      (m.forget guild id).2.store.ids.Sublist m.store.ids ∧
      ∀ (k v : String), (m.forget guild id).2.store.kv[k]? = some v →
        m.store.kv[k]? = some v := by
  unfold Recall.forget WdbxStore.removeKv WdbxStore.removeVector
  cases hkv : m.store.kv[factKey guild id]? with
  | none => exact ⟨rfl, rfl, List.Sublist.refl _, fun k v hv => hv⟩
  | some old =>
    refine ⟨rfl, rfl, List.filter_sublist.map _, fun k v hv => ?_⟩
    change (m.store.kv.erase (factKey guild id))[k]? = some v at hv
    rw [Std.ExtTreeMap.getElem?_erase] at hv
    split_ifs at hv
    exact hv

theorem Recall.Sound.forget (hm : m.Sound h) (guild : String) (id : ℕ) :
    (m.forget guild id).2.Sound (event (step J) m (.forget guild id) :: h) := by
  obtain ⟨hnext, hunknown, hids, hkv⟩ := forget_spec m guild id
  exact ⟨hm.ordered.sublist hids, fun i hi => hnext ▸ hm.numbered i (hids.subset hi),
    hnext ▸ hm.next, hunknown ▸ hm.unknown, fun k v hv => hm.entries k v (hkv k v hv)⟩

/-- A restart of a memory that can be saved keeps everything but the next id. -/
theorem Recall.Sound.restart (hm : m.Sound h) (hp : m.store.Prints) :
    (¬ m.Savable ∧ m.restart = (false, m)) ∨
      (m.Savable ∧ m.restart.2.store.kv = m.store.kv ∧ m.restart.2.store.unknown = [] ∧
        m.restart.2.store.ids = m.store.ids ∧
        m.restart.2.store.nextId = nextAbove m.store.ids) := by
  unfold Recall.restart
  cases hrender : m.store.tryRender with
  | error e =>
    refine .inl ⟨fun hs => ?_, rfl⟩
    unfold WdbxStore.tryRender at hrender
    rw [ensure_of (show ∀ v ∈ m.store.vectors, _ from hs)] at hrender
    cases hrender
  | ok text =>
    have hsavable : m.Savable := by
      unfold WdbxStore.tryRender at hrender
      simp only [bind_eq_ok, ensure_eq_ok, exists_unit] at hrender
      exact hrender.1
    obtain ⟨s', hparse, hkv, hunknown, hids, hnext⟩ :=
      parse_render hp (hm.ordered.imp ne_of_lt) hm.unknown hrender
    simp only [hparse]
    exact .inr ⟨hsavable, hkv, hunknown, hids, hnext⟩

/-- The next id after a restart is the old one or lower. -/
theorem Recall.Sound.nextAbove_cases (hm : m.Sound h) (hcalls : (remembered h).length < u64Max) :
    1 ≤ nextAbove m.store.ids ∧ (∀ id ∈ m.store.ids, id < nextAbove m.store.ids) ∧
      ((m.KeepsLast ∧ nextAbove m.store.ids = m.store.nextId) ∨
        (¬ m.KeepsLast ∧ nextAbove m.store.ids < m.store.nextId)) := by
  have hlt : ∀ id ∈ m.store.ids, id < u64Max := fun id hid => by
    have := hm.numbered id hid
    have := hm.next
    omega
  obtain ⟨hone, habove, hcases⟩ := nextAbove_spec hlt
  have hle : nextAbove m.store.ids ≤ m.store.nextId := by
    have := hm.next
    rcases hcases with heq | hmem
    · omega
    · have := hm.numbered _ hmem
      omega
  refine ⟨hone, habove, ?_⟩
  by_cases hkeeps : m.KeepsLast
  · refine .inl ⟨hkeeps, ?_⟩
    rcases hkeeps with hfirst | hmem
    · omega
    · have := habove _ hmem
      omega
  · refine .inr ⟨hkeeps, lt_of_le_of_ne hle fun heq => hkeeps ?_⟩
    unfold Recall.KeepsLast
    rw [← heq]
    exact hcases

/-- What is printed at the restarts of a history is read back. -/
def RestartsPrint (h : History J) : Prop := ∀ e ∈ h, e.op = .restart → e.before.store.Prints

theorem sound_of_reaches (hr : Reaches J h m) (hcalls : (remembered h).length < u64Max)
    (hp : RestartsPrint h) : m.Sound h := by
  induction hr with
  | nil => exact ⟨List.Pairwise.nil, fun id hid => (List.not_mem_nil hid).elim, ⟨le_rfl, le_rfl⟩, rfl,
      fun k v hkv => by simp [Recall.new, WdbxStore.new] at hkv⟩
  | @cons h m op hr ih =>
    have hp' : RestartsPrint h := fun e he => hp e (List.mem_cons_of_mem _ he)
    cases op with
    | remember guild user text at_ =>
      have hlen : (remembered (event (step J) m (.remember guild user text at_) :: h)).length =
          (remembered h).length + 1 := rfl
      rw [hlen] at hcalls
      exact ((ih (by omega) hp').remember hcalls guild user text at_).2
    | forget guild id => exact (ih hcalls hp').forget guild id
    | restart =>
      have hm := ih hcalls hp'
      rcases hm.restart (hp _ List.mem_cons_self rfl) with ⟨-, heq⟩ | ⟨-, hkv, hunknown, hids, hnext⟩
      · show m.restart.2.Sound _
        rw [heq]
        exact ⟨hm.ordered, hm.numbered, hm.next, hm.unknown, hm.entries⟩
      · obtain ⟨hone, habove, hcases⟩ := hm.nextAbove_cases hcalls
        have hle : nextAbove m.store.ids ≤ (remembered h).length + 1 := by
          have := hm.next
          omega
        refine ⟨?_, ?_, ?_, hunknown, ?_⟩
        · show m.restart.2.store.ids.Pairwise (· < ·)
          rw [hids]
          exact hm.ordered
        · intro id hid
          change id ∈ m.restart.2.store.ids at hid
          rw [hids] at hid
          show id < m.restart.2.store.nextId
          rw [hnext]
          exact habove id hid
        · show 1 ≤ m.restart.2.store.nextId ∧ m.restart.2.store.nextId ≤ _
          rw [hnext]
          exact ⟨hone, hle⟩
        · intro k v hv
          change m.restart.2.store.kv[k]? = some v at hv
          rw [hkv] at hv
          exact hm.entries k v hv

/-! ### Handles are given out once -/

/-- The ids that were returned are those below the next one, each of them once. -/
structure Recall.Counts (m : Recall J) (h : History J) : Prop where
  returned : ∀ id, id ∈ rememberedIds h ↔ 1 ≤ id ∧ id < m.store.nextId
  distinct : (rememberedIds h).Nodup

theorem counts_of_reaches (hr : Reaches J h m) (hcalls : (remembered h).length < u64Max)
    (hp : RestartsPrint h) (hkeep : RestartsKeepLast h) : m.Counts h := by
  induction hr with
  | nil =>
    refine ⟨fun id => ?_, List.nodup_nil⟩
    show id ∈ [] ↔ 1 ≤ id ∧ id < 1
    simp only [List.not_mem_nil, false_iff]
    omega
  | @cons h m op hr ih =>
    have hp' : RestartsPrint h := fun e he => hp e (List.mem_cons_of_mem _ he)
    have hkeep' : RestartsKeepLast h := fun e he => hkeep e (List.mem_cons_of_mem _ he)
    cases op with
    | remember guild user text at_ =>
      have hlen : (remembered (event (step J) m (.remember guild user text at_) :: h)).length =
          (remembered h).length + 1 := rfl
      rw [hlen] at hcalls
      have hm := sound_of_reaches hr (by omega) hp'
      obtain ⟨hnext, -⟩ := hm.remember hcalls guild user text at_
      obtain ⟨hreturned, hdistinct⟩ := ih (by omega) hp' hkeep'
      have hids : rememberedIds (event (step J) m (.remember guild user text at_) :: h) =
          m.store.nextId :: rememberedIds h := rfl
      refine ⟨fun id => ?_, ?_⟩
      · show _ ↔ 1 ≤ id ∧ id < (m.remember guild user text at_).2.store.nextId
        rw [hids, List.mem_cons, hreturned, hnext]
        have := hm.next
        omega
      · rw [hids, List.nodup_cons, hreturned]
        exact ⟨by omega, hdistinct⟩
    | forget guild id =>
      have hids : rememberedIds (event (step J) m (.forget guild id) :: h) = rememberedIds h := rfl
      obtain ⟨hreturned, hdistinct⟩ := ih hcalls hp' hkeep'
      refine ⟨fun i => ?_, hids ▸ hdistinct⟩
      show _ ↔ 1 ≤ i ∧ i < (m.forget guild id).2.store.nextId
      rw [hids, hreturned, (forget_spec m guild id).1]
    | restart =>
      have hids : rememberedIds (event (step J) m .restart :: h) = rememberedIds h := rfl
      have hm := sound_of_reaches hr hcalls hp'
      have hc := ih hcalls hp' hkeep'
      refine ⟨fun i => ?_, hids ▸ hc.distinct⟩
      show _ ↔ 1 ≤ i ∧ i < m.restart.2.store.nextId
      rcases hm.restart (hp _ List.mem_cons_self rfl) with ⟨-, heq⟩ | ⟨hsavable, -, -, -, hnext⟩
      · rw [heq, hids, hc.returned]
      · have hlast := hkeep _ List.mem_cons_self rfl hsavable
        obtain ⟨-, -, ⟨-, hsame⟩ | ⟨hnot, -⟩⟩ := hm.nextAbove_cases hcalls
        · rw [hnext, hsame, hids, hc.returned]
        · exact absurd hlast hnot

/-- A restart that has lost the last id gives an old one out again. -/
theorem restartsKeepLast_of_neverReuses (hr : Reaches J h m)
    (hcalls : (remembered h).length < u64Max) (hp : RestartsPrint h) (hnever : NeverReuses h) :
    RestartsKeepLast h := by
  induction hr with
  | nil => exact fun e he => (List.not_mem_nil he).elim
  | @cons h m op hr ih =>
    have hp' : RestartsPrint h := fun e he => hp e (List.mem_cons_of_mem _ he)
    have hcalls' : (remembered h).length < u64Max := by
      refine lt_of_le_of_lt ?_ hcalls
      exact List.Sublist.length_le ((List.sublist_cons_self _ _).filterMap _)
    have hkeep : RestartsKeepLast h := ih hcalls' hp' fun h₁ h₂ m₂ heq hr₂ =>
      hnever (event (step J) m op :: h₁) h₂ m₂ (by rw [heq, List.cons_append]) hr₂
    intro e he hop hsavable
    rcases List.mem_cons.mp he with rfl | he
    · obtain rfl : op = .restart := hop
      have hm := sound_of_reaches hr hcalls' hp'
      obtain ⟨hone, -, ⟨hlast, -⟩ | ⟨-, hlower⟩⟩ := hm.nextAbove_cases hcalls'
      · exact hlast
      · exfalso
        obtain ⟨hnot, -⟩ | ⟨-, -, -, -, hnext⟩ := hm.restart (hp _ List.mem_cons_self rfl)
        · exact hnot hsavable
        · -- the next id is one that was returned
          have hold := ((counts_of_reaches hr hcalls' hp' hkeep).returned _).mpr ⟨hone, hlower⟩
          refine hnever [] _ _ rfl (hr.cons .restart) "" "" "" 0 ?_
          show m.restart.2.store.nextId ∈ rememberedIds h
          rw [hnext]
          exact hold
    · exact hkeep e he hop hsavable

/-- **Handles**: no id is given out again exactly if the memory is restarted only while the id given
out last is stored; then a handle stands for the fact it was returned for, or for nothing. -/
theorem neverReuses_iff (hr : Reaches J h m) (hcalls : (remembered h).length < u64Max)
    (hp : RestartsPrint h) :
    (NeverReuses h ↔ RestartsKeepLast h) ∧
      (RestartsKeepLast h → (rememberedIds h).Nodup ∧ ∀ f ∈ remembered h, ∀ text,
        m.store.getKv (factKey f.guild f.id) = some text → text = J.factText f.record) := by
  refine ⟨⟨restartsKeepLast_of_neverReuses hr hcalls hp, fun hkeep => ?_⟩, fun hkeep => ?_⟩
  · rintro h₁ h₂ m₂ rfl hr₂ guild user text at_ hmem
    have hsub : ∀ e ∈ h₂, e ∈ h₁ ++ h₂ := fun e he => List.mem_append_right _ he
    have hcalls₂ : (remembered h₂).length < u64Max := by
      refine lt_of_le_of_lt ?_ hcalls
      exact List.Sublist.length_le ((List.sublist_append_right _ _).filterMap _)
    have hc := counts_of_reaches hr₂ hcalls₂ (fun e he => hp e (hsub e he))
      fun e he => hkeep e (hsub e he)
    have hlt := ((hc.returned _).mp hmem).2
    exact lt_irrefl _ hlt
  · have hc := counts_of_reaches hr hcalls hp hkeep
    refine ⟨hc.distinct, fun f hf text htext => ?_⟩
    obtain ⟨g, hg, hkey, rfl⟩ := (sound_of_reaches hr hcalls hp).entries _ _ htext
    have hsame := List.inj_on_of_nodup_map hc.distinct hg hf (factKey_inj.mp hkey).2
    rw [hsame]

/-! ### Two runs -/

/-- The first of two facts is forgotten before the restart. -/
def keptOps : List Op :=
  [.remember "g" "u" "tea" 5, .remember "g" "u" "milk" 5, .forget "g" 1, .restart,
    .remember "g" "u" "tea" 5]

theorem prints_milk : (sampleCrates.PrintsVector 2 ([4] : List ℕ)) ∧
    sampleCrates.PrintsKv "mem:g:2" milkFact.json := by
  refine ⟨⟨([4] : List ℕ), ⟨by decide, by decide, by decide⟩,
    [("id", .number (2 : ℕ)), ("type", .string "vector"), ("values", .array [.number (4 : ℕ)])],
    (2 : ℕ), [.number (4 : ℕ)], ?_, rfl, rfl, rfl, rfl, rfl⟩,
    ⟨⟨by decide, by decide, by decide⟩,
    [("key", .string "mem:g:2"), ("type", .string "kv"), ("value", .string milkFact.json)],
    ?_, rfl, rfl, rfl⟩⟩
  · show sampleRead (vectorJson 2 [4]) = _
    unfold sampleRead
    rw [if_pos rfl]
    rfl
  · have hne : kvJson "mem:g:2" milkFact.json ≠ vectorJson 2 [4] := by decide
    show sampleRead (kvJson "mem:g:2" milkFact.json) = _
    unfold sampleRead
    rw [if_neg hne, if_pos rfl]
    rfl

/-- The vectors of the sample, whose floats are numbers. -/
def sampleVectors (m : Recall sampleCrates) : List (ℕ × List ℕ) := m.store.vectors

/-- The restart goes on above the second fact. -/
theorem kept_handles :
    rememberedIds (play (step sampleCrates) (Recall.new sampleCrates) keptOps).1 = [3, 2, 1] ∧
      NeverReuses (play (step sampleCrates) (Recall.new sampleCrates) keptOps).1 := by
  have hbefore : ∀ e ∈ (play (step sampleCrates) (Recall.new sampleCrates) keptOps).1,
      e.op = .restart → sampleVectors e.before = [(2, [4])] ∧
        e.before.store.kv.toList = [("mem:g:2", milkFact.json)] ∧ 2 ∈ e.before.store.ids ∧
          e.before.store.nextId = 3 := by
    decide
  have hprint : RestartsPrint (play (step sampleCrates) (Recall.new sampleCrates) keptOps).1 := by
    intro e he hop
    obtain ⟨hvectors, hkv, -⟩ := hbefore e he hop
    refine ⟨fun v hv => ?_, fun kv hmem => ?_⟩
    · have hmem : (v : ℕ × List ℕ) ∈ sampleVectors e.before := hv
      rw [hvectors] at hmem
      cases List.mem_singleton.mp hmem
      exact prints_milk.1
    · rw [hkv, List.mem_singleton] at hmem
      rw [hmem]
      exact prints_milk.2
  refine ⟨by decide, (neverReuses_iff (run_play _ keptOps) (by decide) hprint).1.mpr ?_⟩
  intro e he hop _
  obtain ⟨-, -, hmem, hnext⟩ := hbefore e he hop
  exact .inr (by rw [hnext]; exact hmem)

/-- The only fact is forgotten before the restart. -/
def lostOps : List Op :=
  [.remember "g" "u" "tea" 5, .forget "g" 1, .restart, .remember "g" "u" "milk" 5]

/-- The first id is given out twice. -/
theorem handle_reused : ¬ ∀ (J : Crates) (h : History J) (m : Recall J), Reaches J h m →
    (remembered h).length < u64Max → RestartsPrint h → (rememberedIds h).Nodup := by
  intro hall
  have hbefore : ∀ e ∈ (play (step sampleCrates) (Recall.new sampleCrates) lostOps).1,
      e.op = .restart → sampleVectors e.before = [] ∧
        e.before.store.kv.toList = [] := by
    decide
  have hprint : RestartsPrint (play (step sampleCrates) (Recall.new sampleCrates) lostOps).1 := by
    intro e he hop
    obtain ⟨hvectors, hkv⟩ := hbefore e he hop
    refine ⟨fun v hv => ?_, fun kv hmem => ?_⟩
    · have hmem : (v : ℕ × List ℕ) ∈ sampleVectors e.before := hv
      rw [hvectors] at hmem
      exact (List.not_mem_nil hmem).elim
    · rw [hkv] at hmem
      exact (List.not_mem_nil hmem).elim
  have hids : rememberedIds (play (step sampleCrates) (Recall.new sampleCrates) lostOps).1 =
      [1, 1] := by
    decide
  have hnodup := hall sampleCrates _ _ (run_play _ lostOps) (by decide) hprint
  rw [hids] at hnodup
  exact absurd hnodup (by decide)

end AbbeyBot.Wdbx
