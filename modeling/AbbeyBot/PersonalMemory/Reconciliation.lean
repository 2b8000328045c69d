import Mathlib
import AbbeyBot.PersonalMemory.Provenance

/-! # Three-way reconciliation

An image that was written and not installed is merged into the memory that went on meanwhile. What the
image changed since its base is applied, row by row; what was changed in memory wins; the proofs and
receipts of facts that are gone go too. -/

namespace AbbeyBot.PersonalMemory

open AbbeyBot.Library.OrderedMap AbbeyBot.Library.Result AbbeyBot.Library.Text

/-! ### Rows -/

section Rows

variable {T : Type} [DecidableEq T] {live before after : List T} {row : T}

theorem mem_foldl_push {rows : List T} : row ∈ after.foldl (fun rows row =>
      if row ∉ before ∧ row ∉ rows then rows ++ [row] else rows) rows ↔
    row ∈ rows ∨ (row ∈ after ∧ row ∉ before) := by
  induction after generalizing rows with
  | nil => simp
  | cons first after ih =>
    rw [List.foldl_cons, ih]
    by_cases hpush : first ∉ before ∧ first ∉ rows
    · rw [if_pos hpush, List.mem_append, List.mem_singleton, List.mem_cons]
      constructor
      · rintro ((h | rfl) | ⟨h, hn⟩)
        · exact .inl h
        · exact .inr ⟨.inl rfl, hpush.1⟩
        · exact .inr ⟨.inr h, hn⟩
      · rintro (h | ⟨rfl | h, hn⟩)
        · exact .inl (.inl h)
        · exact .inl (.inr rfl)
        · exact .inr ⟨h, hn⟩
    · rw [if_neg hpush, List.mem_cons]
      rw [not_and, not_not] at hpush
      constructor
      · rintro (h | ⟨h, hn⟩)
        · exact .inl h
        · exact .inr ⟨.inr h, hn⟩
      · rintro (h | ⟨rfl | h, hn⟩)
        · exact .inl h
        · exact .inl (hpush hn)
        · exact .inr ⟨h, hn⟩

/-- The rows of a merge: what both sides kept, and what either side added. -/
theorem mem_mergeRows : row ∈ mergeRows live before after ↔
    (row ∈ before ∧ row ∈ live ∧ row ∈ after) ∨ (row ∈ live ∧ row ∉ before) ∨
      (row ∈ after ∧ row ∉ before) := by
  unfold mergeRows
  rw [mem_foldl_push, List.mem_filter, decide_eq_true_eq]
  tauto

theorem foldl_push_self {rows : List T} (h : ∀ row ∈ after, row ∉ before → row ∈ rows) :
    after.foldl (fun rows row => if row ∉ before ∧ row ∉ rows then rows ++ [row] else rows) rows =
      rows := by
  induction after with
  | nil => rfl
  | cons first after ih =>
    have hfirst : ¬ (first ∉ before ∧ first ∉ rows) := fun hpush =>
      hpush.2 (h first List.mem_cons_self hpush.1)
    rw [List.foldl_cons, if_neg hfirst, ih fun row hrow => h row (List.mem_cons_of_mem _ hrow)]

/-- A merge is not changed by another. -/
theorem mergeRows_idem :
    mergeRows (mergeRows live before after) before after = mergeRows live before after := by
  have hkeep : (mergeRows live before after).filter (fun row => row ∉ before ∨ row ∈ after) =
      mergeRows live before after := by
    refine List.filter_eq_self.mpr fun row hrow => decide_eq_true ?_
    rw [mem_mergeRows] at hrow
    tauto
  conv_lhs => rw [mergeRows]
  rw [hkeep]
  refine foldl_push_self fun row hrow hnew => ?_
  exact mem_mergeRows.mpr (.inr (.inr ⟨hrow, hnew⟩))

end Rows

/-! ### Tables -/

section Tables

variable {T : Type} [DecidableEq T] {live before after : BTreeMap String T}

omit [DecidableEq T] in
theorem getElem?_filter_key {m : BTreeMap String T} (p : String → Prop) [DecidablePred p]
    (k : String) : (m.filter fun key _ => p key)[k]? = if p k then m[k]? else none := by
  refine Option.ext fun v => ?_
  rw [filter_eq_some, decide_eq_true_eq]
  split_ifs with hk
  · exact and_iff_left hk
  · simp [hk]

theorem mergeMap_idem : mergeMap (mergeMap live before after) before after =
    mergeMap live before after := by
  refine Std.ExtTreeMap.ext_getElem? fun k => ?_
  rw [getElem?_mergeMap, getElem?_mergeMap]
  split_ifs with hsame hagain
  · rfl
  · rfl
  · rfl

/-- Nor is a merge of which some keys are kept. -/
theorem mergeMap_filter_idem (p : String → Prop) [DecidablePred p] :
    (mergeMap ((mergeMap live before after).filter fun key _ => p key) before after).filter
        (fun key _ => p key) =
      (mergeMap live before after).filter fun key _ => p key := by
  refine Std.ExtTreeMap.ext_getElem? fun k => ?_
  rw [getElem?_filter_key, getElem?_filter_key]
  by_cases hk : p k
  · rw [if_pos hk, if_pos hk, getElem?_mergeMap, getElem?_filter_key, if_pos hk, getElem?_mergeMap]
    split_ifs <;> rfl
  · rw [if_neg hk, if_neg hk]

end Tables

/-! ### Users -/

/-- The image has the fact rows of its base. -/
def Untouched (before after : UserMemory) : Prop :=
  before.facts = after.facts ∧ before.pendingSupersessions = after.pendingSupersessions

instance (before after : UserMemory) : Decidable (Untouched before after) :=
  inferInstanceAs (Decidable (_ ∧ _))

/-- A user whose rows are merged. -/
def mergedRow (before after target : UserMemory) : UserMemory where
  facts := mergeRows target.facts before.facts after.facts
  updatedAt := max target.updatedAt after.updatedAt
  pendingSupersessions := mergeRows target.pendingSupersessions before.pendingSupersessions
    after.pendingSupersessions

/-- A user after a merge. -/
def mergedUser (base disk live : MemoryBank) (key : String) : Option UserMemory :=
  if Untouched (base.getD key default) (disk.getD key default) then live[key]?
  else some (mergedRow (base.getD key default) (disk.getD key default) (live.getD key default))

/-- The facts of a merged user are within the bound. -/
def FitsUser (base disk live : MemoryBank) (key : String) : Prop :=
  Untouched (base.getD key default) (disk.getD key default) ∨
    (mergedRow (base.getD key default) (disk.getD key default) (live.getD key default)).facts.length ≤
      maxFacts

variable {base disk live memory : MemoryBank}

theorem mergeUser_eq_ok {key : String} : mergeUser base disk live key = .ok memory ↔
    FitsUser base disk live key ∧ memory =
      if Untouched (base.getD key default) (disk.getD key default) then live
      else live.insert key
        (mergedRow (base.getD key default) (disk.getD key default) (live.getD key default)) := by
  unfold mergeUser FitsUser
  by_cases hsame : Untouched (base.getD key default) (disk.getD key default)
  · have hrows := hsame
    unfold Untouched at hrows
    dsimp only
    rw [if_pos hrows, if_pos hsame]
    simp only [Except.ok.injEq, hsame, true_or, true_and]
    exact eq_comm
  · have hrows := hsame
    unfold Untouched at hrows
    dsimp only
    rw [if_neg hrows, if_neg hsame]
    simp only [bind_eq_ok, ensure_eq_ok, exists_unit, pure_eq_ok, hsame, false_or]
    exact and_congr_right fun _ => eq_comm

/-- The users are merged one by one, each into its own row. -/
theorem foldlM_mergeUser_eq_ok {keys : List String} (hkeys : keys.Nodup) :
    keys.foldlM (mergeUser base disk) live = .ok memory ↔
      (∀ key ∈ keys, FitsUser base disk live key) ∧
        ∀ key : String, memory[key]? =
          if key ∈ keys then mergedUser base disk live key else live[key]? := by
  induction keys generalizing live with
  | nil =>
    simp only [List.foldlM_nil, pure_eq_ok, List.not_mem_nil, if_false, false_implies,
      implies_true, true_and]
    exact ⟨fun h key => by rw [h], fun h => Std.ExtTreeMap.ext_getElem? fun key => (h key).symm⟩
  | cons first keys ih =>
    rw [List.nodup_cons] at hkeys
    rw [List.foldlM_cons, bind_eq_ok]
    set merged : MemoryBank :=
      if Untouched (base.getD first default) (disk.getD first default) then live
      else live.insert first
        (mergedRow (base.getD first default) (disk.getD first default) (live.getD first default))
      with hmerged
    have hself : merged[first]? = mergedUser base disk live first := by
      rw [hmerged]
      unfold mergedUser
      split_ifs
      · rfl
      · exact Std.ExtTreeMap.getElem?_insert_self
    have hother : ∀ key, key ≠ first → merged[key]? = live[key]? := fun key hkey => by
      rw [hmerged]
      split_ifs
      · rfl
      · rw [getElem?_insert, if_neg hkey.symm]
    have hfits : ∀ key ∈ keys, FitsUser base disk merged key ↔ FitsUser base disk live key := by
      intro key hkey
      have hne : key ≠ first := fun h => hkeys.1 (h ▸ hkey)
      unfold FitsUser
      rw [Std.ExtTreeMap.getD_eq_getD_getElem? (t := merged), hother key hne,
        ← Std.ExtTreeMap.getD_eq_getD_getElem?]
    have hrows : ∀ key ∈ keys, mergedUser base disk merged key = mergedUser base disk live key := by
      intro key hkey
      have hne : key ≠ first := fun h => hkeys.1 (h ▸ hkey)
      unfold mergedUser
      rw [Std.ExtTreeMap.getD_eq_getD_getElem? (t := merged), hother key hne,
        ← Std.ExtTreeMap.getD_eq_getD_getElem?]
    have hget : ∀ key, (if key ∈ keys then mergedUser base disk merged key else merged[key]?) =
        if key ∈ first :: keys then mergedUser base disk live key else live[key]? := by
      intro key
      by_cases hkey : key = first
      · rw [hkey, if_neg hkeys.1, if_pos List.mem_cons_self, hself]
      · by_cases hmem : key ∈ keys
        · rw [if_pos hmem, if_pos (List.mem_cons_of_mem _ hmem), hrows key hmem]
        · rw [if_neg hmem, if_neg (List.not_mem_cons_of_ne_of_not_mem hkey hmem), hother key hkey]
    constructor
    · rintro ⟨m, hm, hrest⟩
      obtain ⟨hfirst, rfl⟩ := mergeUser_eq_ok.mp hm
      obtain ⟨hall, hmemory⟩ := (ih hkeys.2).mp hrest
      refine ⟨fun key hkey => ?_, fun key => (hmemory key).trans (hget key)⟩
      rcases List.mem_cons.mp hkey with rfl | hkey
      · exact hfirst
      · exact (hfits key hkey).mp (hall key hkey)
    · rintro ⟨hall, hmemory⟩
      refine ⟨merged, mergeUser_eq_ok.mpr ⟨hall first List.mem_cons_self, rfl⟩, (ih hkeys.2).mpr ?_⟩
      exact ⟨fun key hkey => (hfits key hkey).mpr (hall key (List.mem_cons_of_mem _ hkey)),
        fun key => (hmemory key).trans (hget key).symm⟩

/-- The users of a merge. -/
theorem mergeUsers_eq_ok : (base.keys ++ disk.keys).dedup.foldlM (mergeUser base disk) live =
      .ok memory ↔
    (∀ key, FitsUser base disk live key) ∧
      ∀ key : String, memory[key]? = mergedUser base disk live key := by
  have hout : ∀ key ∉ (base.keys ++ disk.keys).dedup,
      Untouched (base.getD key default) (disk.getD key default) := by
    intro key hkey
    rw [List.mem_dedup, List.mem_append, Std.ExtTreeMap.mem_keys, Std.ExtTreeMap.mem_keys,
      not_or] at hkey
    rw [Std.ExtTreeMap.getD_eq_fallback hkey.1, Std.ExtTreeMap.getD_eq_fallback hkey.2]
    exact ⟨rfl, rfl⟩
  rw [foldlM_mergeUser_eq_ok (List.nodup_dedup _)]
  refine and_congr ⟨fun h key => ?_, fun h key _ => h key⟩ (forall_congr' fun key => ?_)
  · by_cases hkey : key ∈ (base.keys ++ disk.keys).dedup
    · exact h key hkey
    · exact .inl (hout key hkey)
  · by_cases hkey : key ∈ (base.keys ++ disk.keys).dedup
    · rw [if_pos hkey]
    · rw [if_neg hkey]
      unfold mergedUser
      rw [if_pos (hout key hkey)]

/-- The fact rows under a key. -/
def factsAt (m : MemoryBank) (key : String) : List String := (m.getD key default).facts

theorem factsAt_of_get {m m' : MemoryBank} {key : String} (h : m[key]? = m'[key]?) :
    factsAt m key = factsAt m' key := by
  unfold factsAt
  rw [Std.ExtTreeMap.getD_eq_getD_getElem?, Std.ExtTreeMap.getD_eq_getD_getElem?, h]

theorem mem_factRecords {m : MemoryBank} {f : MemoryFact} : f ∈ MemoryBank.factRecords m ↔
    ∃ key row, m[key]? = some row ∧ splitUserKey key = some (f.guild, f.user) ∧
      f.text ∈ row.facts ∧ f.at_ = row.updatedAt := by
  unfold MemoryBank.factRecords
  simp only [List.mem_flatMap, Prod.exists, Std.ExtTreeMap.mem_toList_iff_getElem?_eq_some]
  refine exists_congr fun key => exists_congr fun row => and_congr_right fun _ => ?_
  cases splitUserKey key with
  | none => simp
  | some scope =>
    rw [List.mem_map, Option.some_inj]
    constructor
    · rintro ⟨text, htext, rfl⟩
      exact ⟨rfl, htext, rfl⟩
    · rintro ⟨rfl, htext, hat⟩
      exact ⟨f.text, htext, by rw [← hat]⟩

/-- What is made of the records of facts, where every fact is stored on the other side too. -/
theorem mem_map_factRecords {m m' : MemoryBank} {g : String → String → String → String}
    {digest : String} (h : ∀ key fact, fact ∈ factsAt m key → fact ∈ factsAt m' key)
    (hmem : digest ∈ (MemoryBank.factRecords m).map fun f => g f.guild f.user f.text) :
    digest ∈ (MemoryBank.factRecords m').map fun f => g f.guild f.user f.text := by
  rw [List.mem_map] at hmem ⊢
  obtain ⟨f, hf, rfl⟩ := hmem
  obtain ⟨key, row, hrow, hkey, htext, -⟩ := mem_factRecords.mp hf
  have hfact : f.text ∈ factsAt m' key := h key f.text (by
    unfold factsAt
    rwa [Std.ExtTreeMap.getD_eq_getD_getElem?, hrow])
  unfold factsAt at hfact
  rw [Std.ExtTreeMap.getD_eq_getD_getElem?] at hfact
  cases hrow' : m'[key]? with
  | none =>
    rw [hrow'] at hfact
    exact absurd hfact List.not_mem_nil
  | some row' =>
    rw [hrow'] at hfact
    exact ⟨⟨f.guild, f.user, f.text, row'.updatedAt⟩,
      mem_factRecords.mpr ⟨key, row', hrow', hkey, hfact, rfl⟩, rfl⟩

/-- **Facts**: what both sides kept, and what either side added. -/
theorem mem_factsAt_merged (h : ∀ key : String, memory[key]? = mergedUser base disk live key)
    (key fact : String) : fact ∈ factsAt memory key ↔
      (fact ∈ factsAt base key ∧ fact ∈ factsAt live key ∧ fact ∈ factsAt disk key) ∨
        (fact ∈ factsAt live key ∧ fact ∉ factsAt base key) ∨
        (fact ∈ factsAt disk key ∧ fact ∉ factsAt base key) := by
  have hkey := h key
  unfold mergedUser at hkey
  split_ifs at hkey with hsame
  · have hfacts : factsAt base key = factsAt disk key := hsame.1
    rw [factsAt_of_get hkey, hfacts]
    tauto
  · have hfacts : factsAt memory key = mergeRows (factsAt live key) (factsAt base key)
        (factsAt disk key) := by
      unfold factsAt
      rw [Std.ExtTreeMap.getD_eq_getD_getElem?, hkey]
      rfl
    rw [hfacts, mem_mergeRows]

/-- A merged user is not changed by another merge. -/
theorem mergedUser_idem (h : ∀ key : String, memory[key]? = mergedUser base disk live key)
    (key : String) : mergedUser base disk memory key = memory[key]? := by
  have hkey := h key
  unfold mergedUser at hkey ⊢
  split_ifs at hkey ⊢ with hsame
  · rfl
  · rw [Std.ExtTreeMap.getD_eq_getD_getElem? (t := memory), hkey, Option.getD_some]
    unfold mergedRow
    dsimp only
    rw [mergeRows_idem, mergeRows_idem, Nat.max_assoc, Nat.max_self]

theorem fitsUser_merged (h : ∀ key : String, memory[key]? = mergedUser base disk live key)
    (hfits : ∀ key, FitsUser base disk live key) (key : String) : FitsUser base disk memory key := by
  have hkey := h key
  have hrow := hfits key
  unfold mergedUser at hkey
  unfold FitsUser at hrow ⊢
  by_cases hsame : Untouched (base.getD key default) (disk.getD key default)
  · exact .inl hsame
  · rw [if_neg hsame] at hkey
    refine .inr ?_
    rw [Std.ExtTreeMap.getD_eq_getD_getElem? (t := memory), hkey, Option.getD_some]
    show (mergeRows (mergeRows _ _ _) _ _).length ≤ maxFacts
    rw [mergeRows_idem]
    exact hrow.resolve_left hsame

/-! ### Subjects -/

/-- A subject with the proofs whose keys are kept. -/
def PersonalMemorySubject.keepProofs (s : PersonalMemorySubject) (keys : List String) :
    PersonalMemorySubject :=
  { s with proofs := s.proofs.filter fun key _ => key ∈ keys }

/-- No choice is Off with an activation pending. -/
def PersonalMemorySubject.Resting (s : PersonalMemorySubject) : Prop :=
  s.choice = .off → s.activationPending = false

theorem mergeMap_published (before after : BTreeMap String FactProof) (keys : List String) :
    (mergeMap (after.filter fun key _ => key ∈ keys) before after).filter (fun key _ => key ∈ keys) =
      after.filter fun key _ => key ∈ keys := by
  refine Std.ExtTreeMap.ext_getElem? fun k => ?_
  rw [getElem?_filter_key, getElem?_filter_key]
  by_cases hk : k ∈ keys
  · rw [if_pos hk, if_pos hk, getElem?_mergeMap, getElem?_filter_key, if_pos hk]
    split_ifs <;> rfl
  · rw [if_neg hk, if_neg hk]

theorem mergeMap_self {T : Type} [DecidableEq T] (before after : BTreeMap String T) :
    mergeMap after before after = after := by
  refine Std.ExtTreeMap.ext_getElem? fun k => ?_
  rw [getElem?_mergeMap]
  split_ifs <;> rfl

/-- A merged subject is not changed by another merge: its row in memory was that of the base, or had
a greater revision. -/
theorem mergeSubject_idem {target before published : PersonalMemorySubject} (keys : List String)
    (hrevision : target ≠ before → before.revision < target.revision) (hrest : published.Resting) :
    (mergeSubject ((mergeSubject target before published).keepProofs keys) before
        published).keepProofs keys = (mergeSubject target before published).keepProofs keys := by
  by_cases hsame : target = before
  · have hfirst : mergeSubject target before published = published := if_pos hsame
    rw [hfirst]
    by_cases hagain : published.keepProofs keys = before
    · rw [mergeSubject, if_pos hagain]
    · rw [mergeSubject, if_neg hagain]
      unfold PersonalMemorySubject.keepProofs
      dsimp only
      rw [mergeMap_published, mergeMap_self, Nat.max_self, Nat.max_self, Nat.max_self,
        Nat.max_self]
      by_cases hoff : published.choice = .off
      · simp [hoff, hrest hoff]
      · simp [hoff]
  · have hne : (mergeSubject target before published).keepProofs keys ≠ before := fun heq => by
      have hrow := congrArg PersonalMemorySubject.revision heq
      have hmerged : ((mergeSubject target before published).keepProofs keys).revision =
          max target.revision published.revision := by
        rw [mergeSubject, if_neg hsame]
        rfl
      have := hrevision hsame
      omega
    rw [mergeSubject, if_neg hne, mergeSubject, if_neg hsame]
    unfold PersonalMemorySubject.keepProofs
    dsimp only
    rw [mergeMap_filter_idem, mergeMap_idem]
    simp only [Nat.max_assoc, Nat.max_self]
    by_cases hdenied : target.choice = .off ∨ published.choice = .off
    · simp [hdenied]
    · simp [hdenied]

theorem keepProofs_keepProofs (s : PersonalMemorySubject) (keys : List String) :
    (s.keepProofs keys).keepProofs keys = s.keepProofs keys := by
  unfold PersonalMemorySubject.keepProofs
  dsimp only
  congr 1
  refine Std.ExtTreeMap.ext_getElem? fun k => ?_
  rw [getElem?_filter_key, getElem?_filter_key]
  split_ifs <;> rfl

theorem keepProofs_eq_self {s : PersonalMemorySubject} {keys : List String}
    (h : ∀ digest ∈ s.proofs, digest ∈ keys) : s.keepProofs keys = s := by
  have hproofs : (s.proofs.filter fun key _ => key ∈ keys) = s.proofs := by
    refine Std.ExtTreeMap.ext_getElem? fun k => ?_
    rw [getElem?_filter_key]
    split_ifs with hk
    · rfl
    · exact (Std.ExtTreeMap.getElem?_eq_none fun hmem => hk (h k hmem)).symm
  unfold PersonalMemorySubject.keepProofs
  rw [hproofs]

/-- A subject after a merge, before its proofs are checked against the facts. -/
def mergedSubject (base live disk : Payload) (key : String) : Option PersonalMemorySubject :=
  match disk.personalMemory[key]? with
  | some published => some (mergeSubject (live.personalMemory.getD key default)
      (base.personalMemory.getD key default) published)
  | none => live.personalMemory[key]?

theorem mergedSubject_some {base live disk : Payload} {key : String}
    {published : PersonalMemorySubject} (h : disk.personalMemory[key]? = some published) :
    mergedSubject base live disk key = some (mergeSubject (live.personalMemory.getD key default)
      (base.personalMemory.getD key default) published) := by
  unfold mergedSubject
  rw [h]

theorem mergedSubject_none {base live disk : Payload} {key : String}
    (h : disk.personalMemory[key]? = none) :
    mergedSubject base live disk key = live.personalMemory[key]? := by
  unfold mergedSubject
  rw [h]

/-- The subjects of a merge. -/
theorem getElem?_subjects (known : UninstalledPublication) (live disk : Stores) (key : String) :
    (known.subjects live disk)[key]? =
      mergedSubject known.base.toPayload live.toPayload disk.toPayload key := by
  have hkeys : (disk.personalMemory.toList.map Prod.fst).Nodup := by
    rw [Std.ExtTreeMap.map_fst_toList_eq_keys]
    exact Std.ExtTreeMap.nodup_keys
  have hfold := foldl_merge (f := fun target key published => mergeSubject target
    (known.base.personalMemory.getD key default) published) (d := default) hkeys
    live.personalMemory key
  cases hdisk : disk.personalMemory[key]? with
  | some published =>
    rw [mergedSubject_some hdisk]
    exact hfold.1 published (Std.ExtTreeMap.mem_toList_iff_getElem?_eq_some.mpr hdisk)
  | none =>
    rw [mergedSubject_none hdisk]
    refine hfold.2 fun hmem => ?_
    rw [Std.ExtTreeMap.map_fst_toList_eq_keys, Std.ExtTreeMap.mem_keys] at hmem
    obtain ⟨published, hpublished⟩ := mem_iff.mp hmem
    rw [hdisk] at hpublished
    cases hpublished

/-! ### Exposure -/

theorem getElem?_scopeEpochs (live disk : ExposureState) (key : String) :
    (mergeExposure live disk).scopeEpochs[key]? =
      match disk.scopeEpochs[key]? with
      | some epoch => some (max (live.scopeEpochs.getD key 0) epoch)
      | none => live.scopeEpochs[key]? := by
  have hkeys : (disk.scopeEpochs.toList.map Prod.fst).Nodup := by
    rw [Std.ExtTreeMap.map_fst_toList_eq_keys]
    exact Std.ExtTreeMap.nodup_keys
  have hfold := foldl_merge (f := fun target (_ : String) epoch => max target epoch) (d := 0) hkeys
    live.scopeEpochs key
  cases hdisk : disk.scopeEpochs[key]? with
  | some epoch => exact hfold.1 epoch (Std.ExtTreeMap.mem_toList_iff_getElem?_eq_some.mpr hdisk)
  | none =>
    refine hfold.2 fun hmem => ?_
    rw [Std.ExtTreeMap.map_fst_toList_eq_keys, Std.ExtTreeMap.mem_keys] at hmem
    obtain ⟨epoch, hepoch⟩ := mem_iff.mp hmem
    rw [hdisk] at hepoch
    cases hepoch

/-- The order of receipts. -/
def OlderReceipt (a b : ExposureReceipt) : Prop :=
  a.epoch < b.epoch ∨ (a.epoch = b.epoch ∧ a.cutoff ≤ b.cutoff)

instance : DecidableRel OlderReceipt := fun _ _ => inferInstanceAs (Decidable (_ ∨ _))

instance : Std.Total OlderReceipt := ⟨fun a b => by unfold OlderReceipt; omega⟩

instance : IsTrans ExposureReceipt OlderReceipt :=
  ⟨fun a b c hab hbc => by unfold OlderReceipt at *; omega⟩

/-- Receipts differ in their epoch or their cutoff. -/
def DistinctReceipts (receipts : List ExposureReceipt) : Prop :=
  ∀ a ∈ receipts, ∀ b ∈ receipts, a.epoch = b.epoch → a.cutoff = b.cutoff → a = b

/-- The receipts that a merge adds. -/
def pushedReceipts : List ExposureReceipt → List ExposureReceipt → List ExposureReceipt :=
  fun rows after => after.foldl (fun rows row => if row ∉ rows then rows ++ [row] else rows) rows

/-- The receipts of a merge. -/
def mergedReceipts (live disk : List ExposureReceipt) : List ExposureReceipt :=
  let sorted := (pushedReceipts live disk).insertionSort fun a b =>
    a.epoch < b.epoch ∨ (a.epoch = b.epoch ∧ a.cutoff ≤ b.cutoff)
  sorted.drop (sorted.length - 128)

theorem receipts_mergeExposure (live disk : ExposureState) :
    (mergeExposure live disk).receipts = mergedReceipts live.receipts disk.receipts := by
  unfold mergeExposure mergedReceipts pushedReceipts
  dsimp only

theorem mergedReceipts_eq {live disk sorted : List ExposureReceipt}
    (h : (pushedReceipts live disk).insertionSort OlderReceipt = sorted) :
    mergedReceipts live disk = sorted.drop (sorted.length - 128) := by
  have hsort : (pushedReceipts live disk).insertionSort (fun a b =>
      a.epoch < b.epoch ∨ (a.epoch = b.epoch ∧ a.cutoff ≤ b.cutoff)) = sorted := h
  unfold mergedReceipts
  rw [hsort]

/-- What is added is new, and comes from the image. -/
theorem pushedReceipts_eq (rows after : List ExposureReceipt) :
    ∃ added, pushedReceipts rows after = rows ++ added ∧
      (∀ r ∈ added, r ∈ after ∧ r ∉ rows) ∧ ∀ r ∈ after, r ∈ rows ++ added := by
  induction after generalizing rows with
  | nil => exact ⟨[], by simp [pushedReceipts], by simp, by simp⟩
  | cons first after ih =>
    by_cases hfirst : first ∉ rows
    · obtain ⟨added, hadded, hnew, hall⟩ := ih (rows ++ [first])
      refine ⟨first :: added, ?_, fun r hr => ?_, fun r hr => ?_⟩
      · have hstep : pushedReceipts rows (first :: after) =
            pushedReceipts (rows ++ [first]) after := by
          unfold pushedReceipts
          rw [List.foldl_cons, if_pos hfirst]
        rw [hstep, hadded, List.append_assoc, List.singleton_append]
      · rcases List.mem_cons.mp hr with rfl | hr
        · exact ⟨List.mem_cons_self, hfirst⟩
        · obtain ⟨hmem, hnot⟩ := hnew r hr
          exact ⟨List.mem_cons_of_mem _ hmem, fun h => hnot (List.mem_append_left _ h)⟩
      · rcases List.mem_cons.mp hr with rfl | hr
        · exact List.mem_append_right _ List.mem_cons_self
        · have := hall r hr
          rwa [List.append_assoc, List.singleton_append] at this
    · obtain ⟨added, hadded, hnew, hall⟩ := ih rows
      refine ⟨added, ?_, fun r hr => ?_, fun r hr => ?_⟩
      · have hstep : pushedReceipts rows (first :: after) = pushedReceipts rows after := by
          unfold pushedReceipts
          rw [List.foldl_cons, if_neg hfirst]
        rw [hstep, hadded]
      · exact ⟨List.mem_cons_of_mem _ (hnew r hr).1, (hnew r hr).2⟩
      · rcases List.mem_cons.mp hr with rfl | hr
        · exact List.mem_append_left _ (not_not.mp hfirst)
        · exact hall r hr

theorem eq_of_olderReceipt {receipts : List ExposureReceipt} (hdistinct : DistinctReceipts receipts)
    {a b : ExposureReceipt} (ha : a ∈ receipts) (hb : b ∈ receipts) (hab : OlderReceipt a b)
    (hba : OlderReceipt b a) : a = b := by
  unfold OlderReceipt at hab hba
  exact hdistinct a ha b hb (by omega) (by omega)

/-- The oldest receipts are dropped again when they are added again. -/
theorem mergedReceipts_idem {live disk : List ExposureReceipt}
    (hdistinct : DistinctReceipts (live ++ disk)) :
    mergedReceipts (mergedReceipts live disk) disk = mergedReceipts live disk := by
  obtain ⟨added, hadded, hnew, hall⟩ := pushedReceipts_eq live disk
  set sorted := (pushedReceipts live disk).insertionSort OlderReceipt with hsorted
  set kept := sorted.drop (sorted.length - 128) with hkept
  have hmerged : mergedReceipts live disk = kept := mergedReceipts_eq rfl
  have hperm : sorted.Perm (live ++ added) := by
    rw [hsorted, hadded]
    exact List.perm_insertionSort _ _
  have hunion : ∀ r ∈ sorted, r ∈ live ++ disk := fun r hr => by
    rcases List.mem_append.mp (hperm.subset hr) with h | h
    · exact List.mem_append_left _ h
    · exact List.mem_append_right _ (hnew r h).1
  have horder : sorted.Pairwise OlderReceipt := List.pairwise_insertionSort _ _
  have hkeptOrder : kept.Pairwise OlderReceipt := horder.sublist (List.drop_sublist _ _)
  obtain ⟨again, hagain, hfresh, -⟩ := pushedReceipts_eq kept disk
  rw [hmerged]
  -- what is added again was dropped: it is older than what was kept
  have hdropped : ∀ r ∈ again, r ∈ sorted.take (sorted.length - 128) := fun r hr => by
    have hmem : r ∈ sorted := hperm.symm.subset (hall r (hfresh r hr).1)
    rw [← List.take_append_drop (sorted.length - 128) sorted] at hmem
    exact (List.mem_append.mp hmem).resolve_right (hfresh r hr).2
  have holder : ∀ r ∈ again, ∀ r' ∈ kept, OlderReceipt r r' := fun r hr r' hr' => by
    rw [← List.take_append_drop (sorted.length - 128) sorted, List.pairwise_append] at horder
    exact horder.2.2 r (hdropped r hr) r' hr'
  have hresult : (kept ++ again).insertionSort OlderReceipt =
      again.insertionSort OlderReceipt ++ kept := by
    refine @List.Perm.eq_of_pairwise _ OlderReceipt _ _ ?_ (List.pairwise_insertionSort _ _) ?_ ?_
    · intro a b ha hb hab hba
      have hin : ∀ r ∈ kept ++ again, r ∈ live ++ disk := fun r hr => by
        rcases List.mem_append.mp hr with h | h
        · exact hunion r (List.mem_of_mem_drop h)
        · exact List.mem_append_right _ (hfresh r h).1
      have hb' : b ∈ kept ++ again := by
        rcases List.mem_append.mp hb with h | h
        · exact List.mem_append_right _ ((List.mem_insertionSort _).mp h)
        · exact List.mem_append_left _ h
      exact eq_of_olderReceipt hdistinct (hin a ((List.mem_insertionSort _).mp ha)) (hin b hb') hab hba
    · refine List.pairwise_append.mpr ⟨List.pairwise_insertionSort _ _, hkeptOrder, ?_⟩
      exact fun r hr r' hr' => holder r ((List.mem_insertionSort _).mp hr) r' hr'
    · refine (List.perm_insertionSort _ _).trans (List.perm_append_comm.trans ?_)
      exact (List.perm_insertionSort _ _).symm.append_right kept
  rw [mergedReceipts_eq (by rw [hagain, hresult]), List.length_append, List.length_insertionSort]
  have hcount : again.length + kept.length - 128 = again.length := by
    cases hagain₀ : again with
    | nil =>
      have : kept.length ≤ 128 := by
        rw [hkept, List.length_drop]
        omega
      simp only [List.length_nil]
      omega
    | cons r rest =>
      have hmem : r ∈ sorted.take (sorted.length - 128) :=
        hdropped r (by rw [hagain₀]; exact List.mem_cons_self)
      have hpos : 0 < sorted.length - 128 := by
        by_contra hzero
        rw [Nat.eq_zero_of_not_pos hzero, List.take_zero] at hmem
        exact List.not_mem_nil hmem
      have : kept.length = 128 := by
        rw [hkept, List.length_drop]
        omega
      omega
  rw [hcount]
  have hlength : (again.insertionSort OlderReceipt).length = again.length :=
    List.length_insertionSort _ _
  rw [← hlength, List.drop_left]

theorem mergeExposure_idem {live disk : ExposureState}
    (hdistinct : DistinctReceipts (live.receipts ++ disk.receipts)) :
    mergeExposure (mergeExposure live disk) disk = mergeExposure live disk := by
  have hscopes : (mergeExposure (mergeExposure live disk) disk).scopeEpochs =
      (mergeExposure live disk).scopeEpochs := by
    refine Std.ExtTreeMap.ext_getElem? fun key => ?_
    rw [getElem?_scopeEpochs, Std.ExtTreeMap.getD_eq_getD_getElem?, getElem?_scopeEpochs]
    cases disk.scopeEpochs[key]? with
    | none => rfl
    | some epoch =>
      dsimp only
      rw [Option.getD_some, Nat.max_assoc, Nat.max_self]
  have hreceipts : (mergeExposure (mergeExposure live disk) disk).receipts =
      (mergeExposure live disk).receipts := by
    rw [receipts_mergeExposure, receipts_mergeExposure, mergedReceipts_idem hdistinct]
  have hmax : ∀ a b : ℕ, max (max a b) b = max a b := fun a b => by omega
  unfold mergeExposure at hscopes hreceipts ⊢
  dsimp only at hscopes hreceipts ⊢
  rw [hscopes, hreceipts, hmax, hmax, hmax]

end AbbeyBot.PersonalMemory
