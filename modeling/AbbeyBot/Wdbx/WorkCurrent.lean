import Mathlib
import AbbeyBot.Wdbx.WorkRebuild

/-! # When the projection of work evidence is current

After a rebuild every stable entry is intact again, and an entry that was built is intact exactly if the
row under the empty key does not mention its vector. From that: when the projection is current, also on
the store that is saved and loaded again, and when a second rebuild changes nothing. -/

namespace AbbeyBot.Wdbx

open AbbeyBot.Library.History AbbeyBot.Library.OrderedMap AbbeyBot.Library.PrefixScan
open AbbeyBot.Library.Result AbbeyBot.Library.Text AbbeyBot.Library.Word
open AbbeyBot.Work.Types (AdmittedWorkEvidence WorkRecallState)

variable {J : Crates} {K : ProjectionCrates J} {s next : WdbxStore J} {state : WorkRecallState}
  {wanted : ProjectionManifest}

/-! ### Vectors -/

theorem fst_builtVectors (records : List (ℕ × AdmittedWorkEvidence)) (n : ℕ) :
    (builtVectors J records n).map Prod.fst = List.range' n records.length := by
  unfold builtVectors
  induction records generalizing n with
  | nil => rfl
  | cons r records ih => rw [List.zipIdx_cons, List.map_cons, List.map_cons, ih, List.length_cons,
      List.range'_succ]

theorem filter_of_nodup {β : Type} {l : List (ℕ × β)} (hl : (l.map Prod.fst).Nodup) {a : ℕ} {b : β}
    (h : (a, b) ∈ l) : l.filter (fun v => v.1 = a) = [(a, b)] := by
  induction l with
  | nil => cases h
  | cons v l ih =>
    rw [List.map_cons, List.nodup_cons] at hl
    rcases List.mem_cons.mp h with rfl | h
    · have hrest : l.filter (fun v => v.1 = a) = [] := by
        refine List.filter_eq_nil_iff.mpr fun w hw hwa => hl.1 ?_
        have hmem : w.1 ∈ l.map Prod.fst := List.mem_map_of_mem hw
        rwa [of_decide_eq_true hwa] at hmem
      rw [List.filter_cons, hrest]
      exact if_pos (decide_eq_true rfl)
    · have hne : v.1 ≠ a := fun heq => hl.1 (heq ▸ List.mem_map_of_mem h)
      rw [List.filter_cons_of_neg (by simpa using hne), ih hl.2 h]

theorem mem_of_embeds {e : Entry} (h : s.Embeds K e) : ∃ v ∈ s.vectors, v.1 = e.vectorId := by
  obtain ⟨values, hfilter, -⟩ := h
  have hmem : (e.vectorId, values) ∈ s.vectors.filter fun v => v.1 = e.vectorId := by
    rw [hfilter]
    exact List.mem_singleton.mpr rfl
  exact ⟨_, List.mem_of_mem_filter hmem, rfl⟩

/-- Embeddings are equal to themselves: they hold no NaN. -/
def ProjectionCrates.Compares (K : ProjectionCrates J) : Prop :=
  ∀ text, ∀ x ∈ J.textEmbedding text, K.sameF32 x x = true

theorem zip_self {α : Type} (l : List α) : l.zip l = l.map fun x => (x, x) := by
  induction l with
  | nil => rfl
  | cons x l ih => rw [List.zip_cons_cons, List.map_cons, ih]

theorem sameVector_self {values : List J.F32} (h : ∀ x ∈ values, K.sameF32 x x = true) :
    sameVector K values values = true := by
  unfold sameVector
  rw [Bool.and_eq_true, List.all_eq_true]
  refine ⟨decide_eq_true rfl, fun p hp => ?_⟩
  rw [zip_self, List.mem_map] at hp
  obtain ⟨x, hx, rfl⟩ := hp
  exact h x hx

namespace WdbxStore.Built

variable (hb : s.Built K state wanted next) (hreads : K.ReadsEntries)
  (hids : ∀ (id : ℕ) (row : AdmittedWorkEvidence), state.records[id]? = some row → row.id = id)

include hb

theorem not_mem_built {e : Entry} (h : s.Embeds K e) :
    e.vectorId ∉ (builtVectors J (s.pending K state) s.nextId).map Prod.fst := by
  rw [fst_builtVectors, List.mem_range'_1]
  rintro ⟨hle, hlt⟩
  obtain ⟨v, hv, hid⟩ := mem_of_embeds h
  have hne : s.pending K state ≠ [] := fun hnil => by
    rw [hnil, List.length_nil] at hlt
    omega
  have := (hb.above hne).2 v hv
  omega

include hreads hids

/-- A stable entry is intact afterwards. -/
theorem intact_stable {id : ℕ} {e : Entry} (hid : id ∈ s.stable K state)
    (he : (s.entries K)[projectionKey id]? = some e)
    (hintact : (Ownership.new K s).Intact K (projectionKey id) e) :
    (next.entries K)[projectionKey id]? = some e ∧
      (Ownership.new K next).Intact K (projectionKey id) e := by
  obtain ⟨hsole, hfree, hembeds⟩ := (intact_iff he).mp hintact
  have henext := (hb.entries_iff hreads hids).mpr (.inl ⟨id, hid, rfl, he⟩)
  refine ⟨henext, (intact_iff henext).mpr ⟨?_, (hb.free_iff hreads hids).mpr hfree.outer, ?_⟩⟩
  · intro key' e' he' hvector
    rcases (hb.entries_iff hreads hids).mp he' with ⟨id', -, -, hold⟩ | ⟨p, hp, rfl, rfl⟩
    · exact hsole key' e' hold hvector
    · refine absurd ?_ (hb.not_mem_built hembeds)
      rw [fst_builtVectors, List.mem_range'_1, ← hvector]
      exact (bounds hp).2
  · obtain ⟨values, hfilter, hsame⟩ := hembeds
    refine ⟨values, ?_, hsame⟩
    have hdrops : s.drops K state e.vectorId = false := by
      rw [Bool.eq_false_iff]
      intro hdrops
      obtain ⟨key', e', he', hnot, -, hvector⟩ := drops_iff.mp hdrops
      obtain rfl := hsole key' e' he' hvector
      rw [he, Option.some_inj] at he'
      rw [← he', id_of_stable he] at hnot
      exact hnot hid
    have hbuilt : (builtVectors J (s.pending K state) s.nextId).filter (fun v => v.1 = e.vectorId) =
        [] := by
      refine List.filter_eq_nil_iff.mpr fun v hv hve => hb.not_mem_built ⟨values, hfilter, hsame⟩ ?_
      rw [← of_decide_eq_true hve]
      exact List.mem_map_of_mem hv
    rw [hb.vectors, List.filter_append, hbuilt, List.append_nil, List.filter_filter, ← hfilter]
    refine List.filter_congr fun v _ => ?_
    by_cases hv : v.1 = e.vectorId
    · simp [hv, hdrops]
    · simp [hv]

/-- An entry that was built is intact if the row under the empty key does not mention its vector. -/
theorem intact_built (hcompares : K.Compares) {p : (ℕ × AdmittedWorkEvidence) × ℕ}
    (hp : p ∈ (s.pending K state).zipIdx s.nextId) :
    (Ownership.new K next).Intact K (projectionKey p.1.1) ⟨1, p.2, p.1.2⟩ ↔ s.Silent K p.2 := by
  obtain ⟨hmem, hle, hlt⟩ := bounds hp
  have he := (hb.entries_iff hreads hids).mpr (.inr ⟨p, hp, rfl, rfl⟩)
  have habove := (hb.above (List.ne_nil_of_mem hmem)).2
  have hsole : next.Sole K (projectionKey p.1.1) p.2 := by
    intro key' e' he' hvector
    rcases (hb.entries_iff hreads hids).mp he' with ⟨id', hid', rfl, hold⟩ | ⟨p', hp', rfl, rfl⟩
    · obtain ⟨e, hrow, -, hintact⟩ := mem_stable.mp hid'
      rw [hold, Option.some_inj] at hrow
      subst hrow
      obtain ⟨v, hv, hid⟩ := mem_of_embeds ((intact_iff hold).mp hintact).2.2
      have := habove v hv
      omega
    · rw [eq_of_snd hp' hp hvector]
  have hembeds : next.Embeds K ⟨1, p.2, p.1.2⟩ := by
    refine ⟨J.textEmbedding p.1.2.payload.text, ?_, sameVector_self (hcompares _)⟩
    have hold : (s.vectors.filter fun v => !s.drops K state v.1).filter (fun v => v.1 = p.2) = [] := by
      refine List.filter_eq_nil_iff.mpr fun v hv hvp => ?_
      have := habove v (List.mem_of_mem_filter hv)
      have := of_decide_eq_true hvp
      omega
    have hnodup : ((builtVectors J (s.pending K state) s.nextId).map Prod.fst).Nodup := by
      rw [fst_builtVectors]
      exact List.nodup_range'
    dsimp only
    rw [hb.vectors, List.filter_append, hold, List.nil_append]
    exact filter_of_nodup hnodup (List.mem_map_of_mem (f := fun p => (p.2, J.textEmbedding
      p.1.2.payload.text)) hp)
  rw [intact_iff he, hb.free_iff hreads hids,
    outer_iff (projectionKey_ne_empty _) (hb.outer_built hle hlt)]
  exact ⟨fun h => h.2.1, fun h => ⟨hsole, h, hembeds⟩⟩

end WdbxStore.Built

/-! ### The whole projection -/

/-- Manifests are printed and read back. -/
def ProjectionCrates.ReadsManifests (K : ProjectionCrates J) : Prop :=
  ∀ m text, K.manifestText m = some text → K.readManifest text = some m

/-- The row under the empty key mentions none of the ids that a rebuild hands out: the next one, and as
many in all as there are records without an intact entry. -/
def WdbxStore.EmptyRowSilent (K : ProjectionCrates J) (s : WdbxStore J) (state : WorkRecallState) :
    Prop :=
  ∀ id, s.nextId ≤ id → id < s.nextId + s.needed K state → s.Silent K id

theorem projectionKeys_iff {key : String} :
    key ∈ (state.records.keys.map projectionKey ++ [manifestKey]).toFinset ↔
      (∃ id ∈ state.records, key = projectionKey id) ∨ key = manifestKey := by
  simp only [List.mem_toFinset, List.mem_append, List.mem_map, List.mem_singleton,
    Std.ExtTreeMap.mem_keys, eq_comm]

namespace WdbxStore.Built

variable (hb : s.Built K state wanted next) (hreads : K.ReadsEntries)
  (hids : ∀ (id : ℕ) (row : AdmittedWorkEvidence), state.records[id]? = some row → row.id = id)

include hb

theorem keys_next : (state.records.keys.map projectionKey ++ [manifestKey]).toFinset =
    ((next.kvWithPrefix projectionPrefix).map Prod.fst).toFinset := by
  ext key
  rw [projectionKeys_iff, List.mem_toFinset, mem_projectionRows]
  constructor
  · rintro (⟨id, hid, rfl⟩ | rfl)
    · refine ⟨mem_iff.mpr ?_, prefix_projectionKey id⟩
      obtain ⟨row, hrow⟩ := mem_iff.mp hid
      by_cases hstable : id ∈ s.stable K state
      · obtain ⟨e, he, -, -⟩ := mem_stable.mp hstable
        obtain ⟨value, hvalue, -⟩ := entries_eq_some.mp he
        exact ⟨value, (hb.stable id hstable).trans hvalue⟩
      · obtain ⟨n, hn⟩ := exists_built hrow hstable
        obtain ⟨text, -, htext⟩ := hb.built _ hn
        exact ⟨text, htext⟩
    · obtain ⟨text, -, htext⟩ := hb.manifest
      exact ⟨mem_iff.mpr ⟨text, htext⟩, prefix_manifestKey⟩
  · rintro ⟨hkey, hstart⟩
    by_contra hnone
    rw [not_or] at hnone
    push Not at hnone
    obtain ⟨value, hvalue⟩ := mem_iff.mp hkey
    rw [hb.gone key hstart hnone.2 hnone.1] at hvalue
    cases hvalue

include hreads hids

theorem covers_iff (hcompares : K.Compares) :
    (Ownership.new K next).Covers K state ↔ s.EmptyRowSilent K state := by
  unfold Ownership.Covers WdbxStore.EmptyRowSilent
  rw [all_iff, ← length_pending]
  constructor
  · intro h id hle hlt
    obtain ⟨p, hp, rfl⟩ : ∃ p ∈ (s.pending K state).zipIdx s.nextId, p.2 = id := by
      have hi : id - s.nextId < (s.pending K state).length := by omega
      refine ⟨((s.pending K state)[id - s.nextId], id), ?_, rfl⟩
      exact List.mem_zipIdx_iff_le_and_getElem?_sub.mpr ⟨hle, List.getElem?_eq_getElem hi⟩
    obtain ⟨e, he, -, hintact⟩ := h p.1.1 p.1.2 (mem_pending.mp (bounds hp).1).1
    have hbuilt := (hb.entries_iff hreads hids).mpr (.inr ⟨p, hp, rfl, rfl⟩)
    rw [← Option.some.inj (hbuilt.symm.trans he)] at hintact
    exact (hb.intact_built hreads hids hcompares hp).mp hintact
  · intro hsilent id row hrow
    by_cases hstable : id ∈ s.stable K state
    · obtain ⟨e, he, hsame, hintact⟩ := mem_stable.mp hstable
      obtain ⟨henext, hnext⟩ := hb.intact_stable hreads hids hstable he hintact
      rw [hrow, Option.some_inj] at hsame
      exact ⟨e, henext, hsame.symm, hnext⟩
    · obtain ⟨n, hn⟩ := exists_built hrow hstable
      refine ⟨⟨1, n, row⟩, (hb.entries_iff hreads hids).mpr (.inr ⟨_, hn, rfl, rfl⟩), rfl, ?_⟩
      refine (hb.intact_built hreads hids hcompares hn).mpr (hsilent n ?_ ?_)
      · exact (bounds hn).2.1
      · exact (bounds hn).2.2

/-- **Current**: exactly if the row under the empty key is silent. -/
theorem current_iff (hmanifests : K.ReadsManifests) (hcompares : K.Compares) :
    Recall.workProjectionCurrent K state ⟨next⟩ = .ok true ↔ s.EmptyRowSilent K state := by
  obtain ⟨text, htext, hkv⟩ := hb.manifest
  have hmanifest : (next.getKv manifestKey).bind K.readManifest = some wanted := by
    unfold WdbxStore.getKv
    rw [hkv, Option.bind_some, hmanifests _ _ htext]
  unfold Recall.workProjectionCurrent
  rw [hb.expected, ok_bind]
  simp only [pure_eq_ok, decide_eq_true_eq]
  rw [hb.covers_iff hreads hids hcompares]
  exact ⟨fun h => h.2.2, fun h => ⟨hmanifest, hb.keys_next, h⟩⟩

/-- **Again**: where the row is silent, a second rebuild changes nothing. -/
theorem project_again (hcompares : K.Compares) (hsilent : s.EmptyRowSilent K state) :
    next.project K state = .ok (wanted, next) := by
  have hcovers := (hb.covers_iff hreads hids hcompares).mpr hsilent
  unfold Ownership.Covers at hcovers
  rw [all_iff] at hcovers
  have hall : ∀ id ∈ state.records, id ∈ next.stable K state := fun id hid => by
    obtain ⟨row, hrow⟩ := mem_iff.mp hid
    obtain ⟨e, he, hsame, hintact⟩ := hcovers id row hrow
    exact mem_stable.mpr ⟨e, he, hsame ▸ hrow, hintact⟩
  have hpending : next.pending K state = [] := List.eq_nil_iff_forall_not_mem.mpr fun r hr => by
    obtain ⟨hrow, hnot⟩ := mem_pending.mp hr
    exact hnot (hall r.1 (mem_iff.mpr ⟨_, hrow⟩))
  have hneeded : next.needed K state = 0 := by
    rw [← length_pending, hpending]
    rfl
  have hrecord : ∀ {key : String} {e : Entry}, (next.entries K)[key]? = some e →
      e.row.id ∈ state.records := fun {key e} he => by
    rcases (hb.entries_iff hreads hids).mp he with ⟨id, hid, rfl, hold⟩ | ⟨p, hp, rfl, rfl⟩
    · obtain ⟨e', -, hrow, -⟩ := mem_stable.mp hid
      rw [id_of_stable hold]
      exact mem_iff.mpr ⟨_, hrow⟩
    · have hrow := (mem_pending.mp (bounds hp).1).1
      dsimp only
      rw [hids _ _ hrow]
      exact mem_iff.mpr ⟨_, hrow⟩
  have hpruned : next.Pruned K state (next.withoutStale K state) := pruned_withoutStale
  obtain ⟨text, htext, hkv⟩ := hb.manifest
  have hroom : checkedAdd next.nextId 0 = some next.nextId := by
    refine checkedAdd_eq_some.mpr ⟨rfl, ?_⟩
    rw [hb.nextId]
    exact hb.room
  have hids₀ : List.range' next.nextId (next.nextId - next.nextId) = [] := by
    rw [Nat.sub_self]
    rfl
  have hstore : ({ next.withoutStale K state with nextId := next.nextId } : WdbxStore J).putKv
      manifestKey text = next := by
    have hkvs : (next.withoutStale K state).kv.insert manifestKey text = next.kv :=
      Std.ExtTreeMap.ext_getElem? fun key => by
        rw [getElem?_insert]
        split_ifs with hkey
        · rw [← hkey, hkv]
        · by_cases hstart : projectionPrefix.toList <+: key.toList
          · by_cases hkept : next.Keeps K state key
            · obtain ⟨id, hid, rfl⟩ := hkept
              exact hpruned.stable id hid
            · rw [hpruned.gone key hstart hkept]
              refine (hb.gone key hstart (Ne.symm hkey) fun id hid heq => hkept ?_).symm
              exact ⟨id, hall id hid, heq⟩
          · exact hpruned.foreign key hstart
    have hvectors : (next.withoutStale K state).vectors = next.vectors := by
      rw [hpruned.vectors]
      refine List.filter_eq_self.mpr fun v _ => ?_
      rw [Bool.not_eq_true', Bool.eq_false_iff]
      intro hdrops
      obtain ⟨key, e, he, hnot, -⟩ := drops_iff.mp hdrops
      exact hnot (hall _ (hrecord he))
    unfold WdbxStore.putKv
    dsimp only
    rw [hkvs, hvectors, hpruned.unknown]
  unfold WdbxStore.project WdbxStore.checkIds
  rw [hb.expected, ok_bind, hneeded, hroom, hpending]
  simp only [orErr, ok_bind, hids₀, List.not_mem_nil, false_implies, implies_true, ne_eq,
    not_true_eq_false, false_and, not_false_eq_true, ensure_of, List.foldlM_nil, htext]
  show Except.ok (wanted, _) = _
  rw [hstore]

end WdbxStore.Built

/-! ### Saved and loaded -/

/-- The lines that are not modelled are kept. -/
theorem kept_of_reached (h : s.Reached) : ∀ line ∈ s.unknown, KeptLine J line := by
  obtain ⟨s₀, h, hstart, hrun⟩ := h
  have hbody : ∀ {ls : List (List Char)} {n : ℕ} {t t' : WdbxStore J},
      (∀ line ∈ t.unknown, KeptLine J line) → (∀ line ∈ ls, '\n' ∉ line) →
        t.parseBody n ls = .ok t' → ∀ line ∈ t'.unknown, KeptLine J line := by
    intro ls n t t' ht hlines hparse
    induction ls generalizing n t with
    | nil =>
      rw [← pure_eq_ok.mp hparse]
      exact ht
    | cons line ls ih =>
      simp only [WdbxStore.parseBody, bind_eq_ok, mapError_eq_ok] at hparse
      obtain ⟨t₁, hline, hrest⟩ := hparse
      exact ih (unknown_parseLine ht (hlines line List.mem_cons_self) hline)
        (fun l hl => hlines l (List.mem_cons_of_mem _ hl)) hrest
  refine hrun.invariant (I := fun s => ∀ line ∈ s.unknown, KeptLine J line) ?_ fun s op hs => ?_
  · rcases hstart with rfl | ⟨text, hparse⟩
    · exact wellFormed_new.unknown
    · simp only [WdbxStore.parse, bind_eq_ok, ensure_eq_ok, exists_unit] at hparse
      exact hbody wellFormed_new.unknown
        (fun line hline => not_mem_lines (List.mem_of_mem_tail hline)) hparse.2
  · cases op <;> exact hs

theorem WdbxStore.Built.wellFormed (hb : s.Built K state wanted next) (hreached : s.Reached)
    (hids : s.ids.Nodup) (hfinite : ∀ v ∈ next.vectors, v.2.all J.isFinite = true) :
    next.WellFormed where
  ids := by
    have hold : ((s.vectors.filter fun v => !s.drops K state v.1).map Prod.fst).Nodup :=
      hids.sublist (List.filter_sublist.map _)
    unfold WdbxStore.ids
    rw [hb.vectors, List.map_append, fst_builtVectors]
    refine List.nodup_append.mpr ⟨hold, List.nodup_range', fun a ha b hb' heq => ?_⟩
    obtain ⟨v, hv, rfl⟩ := List.mem_map.mp ha
    obtain ⟨hle, hlt⟩ := List.mem_range'_1.mp hb'
    have hne : s.pending K state ≠ [] := fun hnil => by
      rw [hnil, List.length_nil] at hlt
      omega
    have := (hb.above hne).2 v (List.mem_of_mem_filter hv)
    omega
  finite := hfinite
  unknown line hline := kept_of_reached hreached line (hb.unknown ▸ hline)

/-- The next id plays no part in whether the projection is current. -/
theorem current_nextId (n : ℕ) : Recall.workProjectionCurrent K state ⟨{ next with nextId := n }⟩ =
    Recall.workProjectionCurrent K state ⟨next⟩ := by
  have hintact : ∀ {key : String} {e : Entry}, (next.entries K)[key]? = some e →
      ((Ownership.new K { next with nextId := n }).Intact K key e ↔
        (Ownership.new K next).Intact K key e) := fun {key e} he => by
    have he' : ((WdbxStore.entries K { next with nextId := n }))[key]? = some e := he
    rw [intact_iff he, intact_iff he']
    exact ⟨fun h => ⟨h.1, ⟨h.2.1.lines, h.2.1.rows⟩, h.2.2⟩,
      fun h => ⟨h.1, ⟨h.2.1.lines, h.2.1.rows⟩, h.2.2⟩⟩
  have hcovers : (Ownership.new K { next with nextId := n }).Covers K state ↔
      (Ownership.new K next).Covers K state := by
    unfold Ownership.Covers
    rw [all_iff, all_iff]
    refine forall_congr' fun id => forall_congr' fun row => forall_congr' fun _ =>
      exists_congr fun e => and_congr_right fun he => and_congr_right fun _ => hintact he
  unfold Recall.workProjectionCurrent
  refine bind_congr fun expected => congrArg pure (decide_eq_decide.mpr ?_)
  exact and_congr_right fun _ => and_congr_right fun _ => hcovers

/-- What is saved and loaded is as it was, but for the next id. -/
theorem WdbxStore.WellFormed.reloaded (hnext : next.WellFormed) (hprints : next.RoundTrips)
    {text : List Char} (htext : next.tryRender = .ok text) :
    ∃ n, WdbxStore.parse J text = .ok { next with nextId := n } := by
  obtain ⟨n, hbody⟩ := parseBody_body hnext hprints
  rw [tryRender_eq hnext.finite] at htext
  refine ⟨n, ?_⟩
  rw [← Except.ok.inj htext, parse_eq (lines_unlines (isLine_body hnext hprints))]
  exact hbody

/-! ### The projection -/

/-- What a rebuild that ends well has to do: the projection is current, also when it is saved and loaded
again; rows outside the projection, lines that are not modelled, vectors that no removed entry owned and
stable entries stay; the new vectors have new ids; and a second rebuild changes nothing. -/
structure Projected (K : ProjectionCrates J) (state : WorkRecallState) (wanted : ProjectionManifest)
    (m m' : Recall J) : Prop where
  current : m'.workProjectionCurrent K state = .ok true
  reloaded : ∀ text, m'.store.tryRender = .ok text → ∃ loaded : WdbxStore J,
    WdbxStore.parse J text = .ok loaded ∧ Recall.workProjectionCurrent K state ⟨loaded⟩ = .ok true
  foreign : ∀ key : String, ¬ projectionPrefix.toList <+: key.toList →
    m'.store.kv[key]? = m.store.kv[key]?
  unknown : m'.store.unknown = m.store.unknown
  vectors : ∃ added, m'.store.vectors =
      (m.store.vectors.filter fun v => !m.store.drops K state v.1) ++ added ∧
    ∀ v ∈ added, m.store.nextId ≤ v.1 ∧ v.1 < m'.store.nextId
  stable : ∀ (key : String) (e : Entry), (m.store.entries K)[key]? = some e →
    state.records[e.row.id]? = some e.row → (Ownership.new K m.store).Intact K key e →
    (m'.store.entries K)[key]? = some e
  again : m'.reconcileWorkEvidence K state = (.ok wanted, m')

/-- **The projection**: a rebuild that fails changes nothing, and one that ends well does what it has
to exactly if the row under the empty key mentions none of the ids that are handed out. -/
theorem reconcile_projected_iff (hreads : K.ReadsEntries) (hmanifests : K.ReadsManifests)
    (hcompares : K.Compares) {m : Recall J} (hreached : m.store.Reached) (hids : m.store.ids.Nodup)
    (state : WorkRecallState) :
    (∀ e m', m.reconcileWorkEvidence K state = (.error e, m') → m' = m) ∧
      ∀ wanted m', m.reconcileWorkEvidence K state = (.ok wanted, m') → m'.store.RoundTrips →
        (Projected K state wanted m m' ↔ m.store.EmptyRowSilent K state) := by
  unfold Recall.reconcileWorkEvidence
  refine ⟨fun e m' h => ?_, fun wanted m' h hprints => ?_⟩
  · cases hproject : m.store.project K state with
    | ok r =>
      rw [hproject] at h
      cases h
    | error e' =>
      rw [hproject] at h
      exact (Prod.ext_iff.mp h).2.symm
  · cases hproject : m.store.project K state with
    | error e' =>
      rw [hproject] at h
      cases h
    | ok r =>
      obtain ⟨wanted', next⟩ := r
      rw [hproject] at h
      dsimp only at h
      obtain ⟨hwanted, rfl⟩ := Prod.ext_iff.mp h
      cases hwanted
      have hb := project_built hproject
      have hvalid : state.validate K.toRecallCrates = .ok () := by
        have hexpected := hb.expected
        unfold projectionManifest at hexpected
        simp only [bind_eq_ok, mapError_ok_iff, exists_unit] at hexpected
        exact hexpected.1
      have hrows : ∀ (id : ℕ) (row : AdmittedWorkEvidence), state.records[id]? = some row →
          row.id = id := fun id row hrow => WorkRecallState.id_of_validate hvalid hrow
      have hcurrent := hb.current_iff hreads hrows hmanifests hcompares
      refine ⟨fun hprojected => hcurrent.mp hprojected.current, fun hsilent => ?_⟩
      exact
        { current := hcurrent.mpr hsilent
          reloaded := fun text htext => by
            have hfinite : ∀ v ∈ next.vectors, v.2.all J.isFinite = true := by
              unfold WdbxStore.tryRender at htext
              simp only [bind_eq_ok, ensure_eq_ok, exists_unit] at htext
              exact htext.1
            obtain ⟨n, hparse⟩ := (hb.wellFormed hreached hids hfinite).reloaded hprints htext
            exact ⟨_, hparse, (current_nextId n).trans (hcurrent.mpr hsilent)⟩
          foreign := hb.foreign
          unknown := hb.unknown
          vectors := by
            refine ⟨_, hb.vectors, fun v hv => ?_⟩
            have hmem : v.1 ∈ (builtVectors J (m.store.pending K state) m.store.nextId).map
                Prod.fst := List.mem_map_of_mem hv
            rw [fst_builtVectors, List.mem_range'_1] at hmem
            rw [hb.nextId]
            exact hmem
          stable := fun key e he hrow hintact => by
            obtain rfl := key_of_entries he
            exact (hb.intact_stable hreads hrows (mem_stable.mpr ⟨e, he, hrow, hintact⟩) he hintact).1
          again := by
            unfold Recall.reconcileWorkEvidence
            rw [hb.project_again hreads hrows hcompares hsilent] }

/-! ### One record -/

def nativeDigest : String := "9f86d081884c7d659a2feaa0c55ad015a3bf4f1b2b0b822cd15d6c15b0f00a08"

def payloadDigest : String := "a8cd6e05e21533ce58052f85dee5ab86b377b3b8c5f8a38689cd54c35351c363"

def recordsDigest : String := "7dd45c36b61c0402f47774f5c9475fee4b290bbd9cc6a2619b5601ff2344c0a0"

/-- The JSON of the payload. -/
def teaPayloadJson : String :=
  "\x7b\"version\":1,\"source\":\x7b\"kind\":\"Task\",\"project\":1,\"id\":2\x7d,\"revi" ++
    "sion\":1,\"generation\":1,\"scope\":\x7b\"Personal\":\x7b\"owner\":5\x7d\x7d,\"contr" ++
    "ibuting_projects\":[1],\"delivered_source_digest\":null,\"actor\":5,\"at\":null,\"na" ++
    "tive_digest\":\"" ++
    nativeDigest ++
    "\",\"text\":\"tea\"\x7d"

def teaRowJson : String :=
  "\x7b\"id\":7,\"payload\":" ++ teaPayloadJson ++ ",\"payload_digest\":\"" ++ payloadDigest ++
    "\",\"admission\":\x7b\"Uncovered\":\x7b\"scoped_guild\":\"discord:dm:5\"\x7d\x7d\x7d"

def teaRecordsJson : String := "\x7b\"7\":" ++ teaRowJson ++ "\x7d"

def teaEntryJson : String :=
  "\x7b\"version\":1,\"vector_id\":1,\"row\":" ++ teaRowJson ++ "\x7d"

def teaManifestJson : String :=
  "\x7b\"version\":1,\"revision\":3,\"records_digest\":\"" ++ recordsDigest ++ "\"\x7d"

def teaRow : AdmittedWorkEvidence where
  id := 7
  payload := ⟨1, .task 1 2, 1, 1, .personal 5, {1}, none, some 5, none, nativeDigest, "tea"⟩
  payloadDigest := payloadDigest
  admission := .uncovered "discord:dm:5"

def teaEntry : Entry := ⟨1, 1, teaRow⟩

def teaManifest : ProjectionManifest := ⟨1, 3, recordsDigest⟩

def teaState : WorkRecallState where
  schemaVersion := 1
  sequence := 7
  projectionRevision := 3
  revisionExhausted := false
  records := (∅ : BTreeMap ℕ AdmittedWorkEvidence).insert 7 teaRow
  sourceVersions := (∅ : BTreeMap AbbeyBot.Work.Types.WorkSourceKey
    AbbeyBot.Work.Types.SourceVersion).insert (.task 1 2) ⟨1, 1, true, false⟩
  scopeControls := (∅ : BTreeMap AbbeyBot.Work.Types.WorkScope
    AbbeyBot.Work.Types.ScopeRecallControl).insert (.personal 5) ⟨0, false⟩
  attempts := ∅
  terminal := []

/-- The entries of the file with the record. -/
def teaRows : List (String × String) :=
  [("note", "kept"), (projectionKey 7, teaEntryJson), (manifestKey, teaManifestJson)]

/-- The lines of the file with the record. -/
def teaRead (line : String) : Except String (Value ℕ) :=
  match teaRows.find? fun kv => kvJson kv.1 kv.2 = line with
  | some kv => .ok (.object [("type", .string "kv"), ("key", .string kv.1), ("value", .string kv.2)])
  | none =>
    if line = vectorJson 1 [3] then
      .ok (.object [("type", .string "vector"), ("id", .number 1), ("values", .array [.number 3])])
    else .error "expected value"

def teaCrates : Crates := { sampleCrates with readValue := teaRead }

/-- The JSON of the record. -/
def teaProjection : ProjectionCrates teaCrates where
  payloadText _ := teaPayloadJson
  sha256 text := if text = teaPayloadJson then payloadDigest else recordsDigest
  sourceSize _ := 36
  versionSize _ _ := 146
  controlSize _ _ := 60
  attemptSize _ := 0
  terminalSize _ := 0
  recordsText _ := some teaRecordsJson
  entryText e := if e = teaEntry then some teaEntryJson else none
  readEntry text := if text = teaEntryJson then some teaEntry else none
  manifestText m := if m = teaManifest then some teaManifestJson else none
  readManifest text := if text = teaManifestJson then some teaManifest else none
  sameF64 n id := Nat.beq n id
  sameF32 x y := Nat.beq x y

/-- A store with one entry. -/
def storeWith (key value : String) : Recall teaCrates := ⟨(WdbxStore.new teaCrates).putKv key value⟩

theorem reached_storeWith (key value : String) : (storeWith key value).store.Reached :=
  ⟨_, _, .inl rfl, @run_play _ _ _ storeStep _ [.putKv key value]⟩

/-- A rebuild of a store with one entry, for the one record. -/
def rebuilt (key value : String) : Except ProjectionError ProjectionManifest × Recall teaCrates :=
  (storeWith key value).reconcileWorkEvidence teaProjection teaState

theorem eq_ok_of_toOption {ε α : Type} {r : Except ε α} {a : α} (h : r.toOption = some a) :
    r = .ok a := by
  cases r with
  | ok b => exact congrArg Except.ok (Option.some.inj h)
  | error e => cases h

theorem pair_of_toOption {ε α β : Type} {r : Except ε α × β} {a : α} (h : r.1.toOption = some a) :
    r = (.ok a, r.2) := by
  rw [← eq_ok_of_toOption h]

theorem read_of_print {α : Type} [DecidableEq α] {a b : α} {t text : String}
    (h : (if b = a then some t else none) = some text) :
    (if text = t then some a else none) = some b := by
  split_ifs at h with hb
  rw [if_pos (Option.some.inj h).symm, hb]

theorem reads_teaProjection : teaProjection.ReadsEntries ∧ teaProjection.ReadsManifests ∧
    teaProjection.Compares :=
  ⟨fun _ _ h => read_of_print h, fun _ _ h => read_of_print h, fun _ x _ => Nat.beq_refl x⟩

theorem noBreak_append {a b : String} (ha : '\n' ∉ a.toList) (hb : '\n' ∉ b.toList) :
    '\n' ∉ (a ++ b).toList := by
  rw [String.toList_append, List.mem_append, not_or]
  exact ⟨ha, hb⟩

theorem noBreak_quoted {a : String} (ha : '\n' ∉ a.toList) : '\n' ∉ (quoted a).toList := by
  refine noBreak_append (noBreak_append (by decide) ?_) (by decide)
  rw [String.toList_ofList, List.mem_flatMap]
  rintro ⟨c, hc, hmem⟩
  split_ifs at hmem with hescape
  · simp only [List.mem_cons, List.not_mem_nil, or_false] at hmem
    exact hmem.elim (by decide) fun h => ha (h ▸ hc)
  · exact ha (List.mem_singleton.mp hmem ▸ hc)

/-- The line of an entry is an object on one line. -/
theorem isObjectLine_kvJson {key value : String} (hkey : '\n' ∉ key.toList)
    (hvalue : '\n' ∉ value.toList) : IsObjectLine (kvJson key value).toList where
  opening := by
    unfold kvJson
    rw [String.append_assoc, String.append_assoc, String.append_assoc, String.toList_append]
    rfl
  noBreak := noBreak_append (noBreak_append (noBreak_append (noBreak_append (by decide)
    (noBreak_quoted hkey)) (by decide)) (noBreak_quoted hvalue)) (by decide)
  noReturn := by
    have hlast : ("\x7d" : String).toList = ['\x7d'] := rfl
    unfold kvJson
    rw [String.toList_append, hlast, List.getLast?_concat]
    decide

/-- Keys that differ among their first characters have different lines. -/
theorem kvJson_ne {key key' value value' : String} (n : ℕ) (hn : n ≤ (quoted key).toList.length)
    (hn' : n ≤ (quoted key').toList.length)
    (h : (quoted key).toList.take n ≠ (quoted key').toList.take n) :
    kvJson key value ≠ kvJson key' value' := by
  intro heq
  have hlist := congrArg String.toList heq
  unfold kvJson at hlist
  simp only [String.toList_append, List.append_assoc, List.append_cancel_left_eq] at hlist
  have htake := congrArg (List.take n) hlist
  rw [List.take_append_of_le_length hn, List.take_append_of_le_length hn'] at htake
  exact h htake

/-- The line of an entry names its type before anything of the entry. -/
theorem kvJson_ne_of_take (key value : String) {line : String}
    (h : line.toList.take 11 ≠ "\x7b\"type\":\"kv\"".toList.take 11) : kvJson key value ≠ line := by
  rintro rfl
  refine h ?_
  unfold kvJson
  simp only [String.toList_append, List.append_assoc]
  rfl

theorem noBreak_teaEntryJson : '\n' ∉ teaEntryJson.toList := by
  have hnative : '\n' ∉ nativeDigest.toList := by decide +kernel
  have hdigest : '\n' ∉ payloadDigest.toList := by decide +kernel
  have hpayload : '\n' ∉ teaPayloadJson.toList :=
    noBreak_append (noBreak_append (noBreak_append (by decide +kernel) (by decide +kernel)) hnative)
      (by decide +kernel)
  have hrow : '\n' ∉ teaRowJson.toList :=
    noBreak_append (noBreak_append (noBreak_append (noBreak_append (by decide +kernel) hpayload)
      (by decide +kernel)) hdigest) (by decide +kernel)
  exact noBreak_append (noBreak_append (by decide +kernel) hrow) (by decide +kernel)

theorem noBreak_teaManifestJson : '\n' ∉ teaManifestJson.toList :=
  noBreak_append (noBreak_append (by decide +kernel) (by decide +kernel)) (by decide +kernel)

/-- The lines of the file are those of its rows. -/
theorem find_teaRows : ∀ kv ∈ teaRows,
    (teaRows.find? fun row => kvJson row.1 row.2 = kvJson kv.1 kv.2) = some kv := by
  have hnote : ∀ (id : ℕ) (value : String), kvJson "note" "kept" ≠ kvJson (projectionKey 7) value :=
    fun _ _ => kvJson_ne 2 (by decide +kernel) (by decide +kernel) (by decide +kernel)
  have hnote' : ∀ value : String, kvJson "note" "kept" ≠ kvJson manifestKey value := fun _ =>
    kvJson_ne 2 (by decide +kernel) (by decide +kernel) (by decide +kernel)
  have hentry : ∀ value value' : String, kvJson (projectionKey 7) value ≠ kvJson manifestKey value' :=
    fun _ _ => kvJson_ne 16 (by decide +kernel) (by decide +kernel) (by decide +kernel)
  intro kv hkv
  unfold teaRows at hkv ⊢
  simp only [List.mem_cons, List.not_mem_nil, or_false] at hkv
  rcases hkv with rfl | rfl | rfl
  · exact List.find?_cons_of_pos (decide_eq_true rfl)
  · rw [List.find?_cons_of_neg (by simpa using hnote 7 _)]
    exact List.find?_cons_of_pos (decide_eq_true rfl)
  · rw [List.find?_cons_of_neg (by simpa using hnote' _),
      List.find?_cons_of_neg (by simpa using hentry _ _)]
    exact List.find?_cons_of_pos (decide_eq_true rfl)

/-- The rows of the file are printed and read back. -/
theorem printsKv_teaRows {kv : String × String} (h : kv ∈ teaRows) :
    teaCrates.PrintsKv kv.1 kv.2 := by
  have hbreak : '\n' ∉ kv.1.toList ∧ '\n' ∉ kv.2.toList := by
    unfold teaRows at h
    simp only [List.mem_cons, List.not_mem_nil, or_false] at h
    rcases h with rfl | rfl | rfl
    · exact ⟨by decide, by decide⟩
    · exact ⟨by decide +kernel, noBreak_teaEntryJson⟩
    · exact ⟨by decide, noBreak_teaManifestJson⟩
  have hread : teaRead (kvJson kv.1 kv.2) =
      .ok (.object [("type", .string "kv"), ("key", .string kv.1), ("value", .string kv.2)]) := by
    unfold teaRead
    rw [find_teaRows kv h]
  exact ⟨isObjectLine_kvJson hbreak.1 hbreak.2, _, hread, rfl, rfl, rfl⟩

theorem roundTripsVector_tea : teaCrates.RoundTripsVector 1 ([3] : List ℕ) := by
  have hfind : (teaRows.find? fun row => kvJson row.1 row.2 = vectorJson 1 [3]) = none :=
    List.find?_eq_none.mpr fun row _ h =>
      kvJson_ne_of_take row.1 row.2 (by decide) (of_decide_eq_true h)
  refine ⟨⟨by decide, by decide, by decide⟩,
    [("type", .string "vector"), ("id", .number (1 : ℕ)), ("values", .array [.number (3 : ℕ)])],
    (1 : ℕ), [.number (3 : ℕ)], ?_, rfl, rfl, rfl, rfl, rfl⟩
  show teaRead (vectorJson 1 [3]) = _
  unfold teaRead
  rw [hfind]
  exact if_pos rfl

/-- The vectors of a store, as numbers. -/
def teaVectors (m : Recall teaCrates) : List (ℕ × List ℕ) := m.store.vectors

/-- A note stays beside the record. -/
theorem note_projected : ∃ m', rebuilt "note" "kept" = (.ok teaManifest, m') ∧
    m'.store.getKv "note" = some "kept" ∧
    Projected teaProjection teaState teaManifest (storeWith "note" "kept") m' := by
  have hout : (rebuilt "note" "kept").1.toOption = some teaManifest := by decide +kernel
  have hvectors : teaVectors (rebuilt "note" "kept").2 = [(1, [3])] := by decide +kernel
  have hrows : (rebuilt "note" "kept").2.store.kv.toList = teaRows := by decide +kernel
  have hnote : (rebuilt "note" "kept").2.store.getKv "note" = some "kept" := by decide +kernel
  have hrebuilt := pair_of_toOption hout
  generalize (rebuilt "note" "kept").2 = m' at hvectors hrows hnote hrebuilt
  have hprints : m'.store.RoundTrips := by
    refine ⟨fun v hv _ => ?_, fun kv hmem => printsKv_teaRows (hrows ▸ hmem)⟩
    have hv : (v : ℕ × List ℕ) ∈ teaVectors m' := hv
    rw [hvectors] at hv
    cases List.mem_singleton.mp hv
    exact roundTripsVector_tea
  have hsilent : (storeWith "note" "kept").store.EmptyRowSilent teaProjection teaState := by
    intro id _ _ value hvalue
    have hnone : (storeWith "note" "kept").store.kv[""]? = none := by decide
    rw [hnone] at hvalue
    cases hvalue
  refine ⟨m', hrebuilt, hnote, ?_⟩
  exact ((reconcile_projected_iff reads_teaProjection.1 reads_teaProjection.2.1
    reads_teaProjection.2.2 (reached_storeWith "note" "kept") List.nodup_nil teaState).2 teaManifest
    m' hrebuilt hprints).mpr hsilent

/-- A row under the empty key mentions the first vector, and the check passes over it. -/
theorem empty_key_overlooked : (storeWith "" "see vector 1").store.Reached ∧
    (storeWith "" "see vector 1").store.ids.Nodup ∧
    ∃ m', rebuilt "" "see vector 1" = (.ok teaManifest, m') ∧
      m'.workProjectionCurrent teaProjection teaState = .ok false := by
  have hout : (rebuilt "" "see vector 1").1.toOption = some teaManifest := by decide +kernel
  have hcurrent : ((rebuilt "" "see vector 1").2.workProjectionCurrent teaProjection
      teaState).toOption = some false := by decide +kernel
  exact ⟨reached_storeWith _ _, List.nodup_nil, _, pair_of_toOption hout,
    eq_ok_of_toOption hcurrent⟩

end AbbeyBot.Wdbx
