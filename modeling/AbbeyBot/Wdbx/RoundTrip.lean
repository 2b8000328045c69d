import Mathlib
import AbbeyBot.Library.History
import AbbeyBot.Wdbx.Recall

/-! # The round trip of a store

What was read from a file, and changed, is written and read back as it is: the entries, the vectors in
their order, and the lines of records that are not modelled. It goes wrong in two places. A number can
be too large for a 32-bit float, and is read but not written; and the last id there is can be handed
out twice. -/

namespace AbbeyBot.Wdbx

open AbbeyBot.Library.History AbbeyBot.Library.OrderedMap AbbeyBot.Library.Result
open AbbeyBot.Library.Text AbbeyBot.Library.Word

variable {J : Crates}

/-! ### Operations -/

inductive StoreOp (J : Crates) where
  | putKv (key value : String)
  | removeKv (key : String)
  | insertVector (values : List J.F32)
  | removeVector (id : ℕ)

/-- The store after an operation. -/
def StoreOp.apply : StoreOp J → WdbxStore J → WdbxStore J
  | .putKv key value, s => s.putKv key value
  | .removeKv key, s => (s.removeKv key).2
  | .insertVector values, s => (s.insertVector values).2
  | .removeVector id, s => (s.removeVector id).2

def storeStep (s : WdbxStore J) (op : StoreOp J) : Unit × WdbxStore J := ((), op.apply s)

abbrev StoreHistory (J : Crates) := List (Event (WdbxStore J) (StoreOp J) Unit)

/-- The vectors that are inserted are finite. -/
def FiniteInserts (h : StoreHistory J) : Prop :=
  ∀ e ∈ h, ∀ values, e.op = .insertVector values → values.all J.isFinite = true

/-- No vector is inserted while one is stored under the id that comes next. -/
def FreshInserts (h : StoreHistory J) : Prop :=
  ∀ e ∈ h, ∀ values, e.op = .insertVector values → e.before.nextId ∉ e.before.ids

/-- The numbers of a vector record are finite as 32-bit floats. -/
def FiniteLine (J : Crates) (line : List Char) : Prop :=
  ∀ (fields : List (String × Value J.Number)) (items : List (Value J.Number)),
    J.readValue (String.ofList (line.rdropWhile (· = '\r'))) = .ok (.object fields) →
    fields.lookup "type" = some (.string "vector") → fields.lookup "values" = some (.array items) →
    ∀ item ∈ items, ∀ n x, item.number? = some n → J.asF32 n = some x → J.isFinite x = true

def FiniteText (J : Crates) (text : List Char) : Prop := ∀ line ∈ lines text, FiniteLine J line

/-! ### What the JSON printer promises -/

/-- A vector is printed as one line and read back as it is. -/
def Crates.RoundTripsVector (J : Crates) (id : ℕ) (values : List J.F32) : Prop :=
  J.ReadsVector id values values

/-- The records of the store are printed and read back. -/
structure WdbxStore.RoundTrips (s : WdbxStore J) : Prop where
  vectors : ∀ v ∈ s.vectors, v.2.all J.isFinite = true → J.RoundTripsVector v.1 v.2
  kv : All s.kv fun key value => J.PrintsKv key value

/-! ### Lines -/

/-- A line that is kept wherever it stands. -/
structure KeptLine (J : Crates) (line : String) : Prop where
  isLine : IsLine line.toList
  kept : ∀ t : WdbxStore J, t.parseLine line.toList = .ok { t with unknown := t.unknown ++ [line] }

/-- What a line can do to a store. -/
inductive ParsesTo (line : List Char) (s : WdbxStore J) : WdbxStore J → Prop
  | skip : ParsesTo line s s
  | keep (h : ∀ t : WdbxStore J,
        t.parseLine line = .ok { t with unknown := t.unknown ++ [String.ofList line] }) :
      ParsesTo line s { s with unknown := s.unknown ++ [String.ofList line] }
  | entry (key value : String) : ParsesTo line s (s.putKv key value)
  | vector (id : ℕ) (values : List J.F32) (items : List (Value J.Number))
      (fields : List (String × Value J.Number)) (hid : id ∉ s.ids)
      (hread : J.readValue (String.ofList line) = .ok (.object fields))
      (htype : fields.lookup "type" = some (.string "vector"))
      (hitems : fields.lookup "values" = some (.array items)) (hvalues : elements J items = .ok values) :
      ParsesTo line s { s with
        vectors := s.vectors ++ [(id, values)]
        nextId := max s.nextId (saturatingAdd id 1) }

theorem mapError_eq_ok {ε ε' α : Type} {f : ε → ε'} {x : Except ε α} {a : α} :
    x.mapError f = .ok a ↔ x = .ok a := by
  cases x <;> simp [Except.mapError]

theorem stringField_eq_ok {fields : List (String × Value J.Number)} {field s : String} :
    stringField fields field = .ok s ↔ fields.lookup field = some (.string s) := by
  unfold stringField
  rw [orErr_eq_ok, Option.bind_eq_some_iff]
  constructor
  · rintro ⟨v, hv, hs⟩
    cases v <;> first | (cases hs; exact hv) | cases hs
  · exact fun h => ⟨_, h, rfl⟩

theorem object?_eq_some {v : Value J.Number} {fields : List (String × Value J.Number)} :
    v.object? = some fields ↔ v = .object fields := by
  cases v <;> simp [Value.object?]

theorem array?_eq_some {v : Value J.Number} {items : List (Value J.Number)} :
    v.array? = some items ↔ v = .array items := by
  cases v <;> simp [Value.array?]

theorem parseRecord_cases {line : List Char} {s s' : WdbxStore J}
    (hline : ∀ t : WdbxStore J, t.parseLine line = t.parseRecord (String.ofList line))
    (h : s.parseRecord (String.ofList line) = .ok s') : ParsesTo line s s' := by
  have hrecord := h
  simp only [WdbxStore.parseRecord, bind_eq_ok, mapError_eq_ok, orErr_eq_ok, object?_eq_some,
    stringField_eq_ok] at h
  obtain ⟨_, hread, fields, rfl, type, htype, h⟩ := h
  split_ifs at h with hkv hvector
  · simp only [WdbxStore.parseKv, bind_eq_ok, stringField_eq_ok, pure_eq_ok] at h
    obtain ⟨key, -, value, -, rfl⟩ := h
    exact .entry key value
  · simp only [WdbxStore.parseVector, bind_eq_ok, orErr_eq_ok, Option.bind_eq_some_iff,
      array?_eq_some, ensure_eq_ok, exists_unit, pure_eq_ok] at h
    obtain ⟨id, -, items, ⟨_, hitems, rfl⟩, values, hvalues, hid, rfl⟩ := h
    rw [hvector] at htype
    exact .vector id values items fields hid hread htype hitems hvalues
  · rw [pure_eq_ok] at h
    rw [← h]
    refine .keep fun t => ?_
    rw [hline]
    simp only [WdbxStore.parseRecord, bind_eq_ok, mapError_eq_ok, orErr_eq_ok, object?_eq_some,
      stringField_eq_ok]
    refine ⟨_, hread, fields, rfl, type, htype, ?_⟩
    rw [if_neg hkv, if_neg hvector]
    rfl

theorem parseLine_cases {line : List Char} {s s' : WdbxStore J} (h : s.parseLine line = .ok s') :
    ParsesTo line s s' := by
  by_cases hblank : line.all isWhitespace = true
  · unfold WdbxStore.parseLine at h
    rw [if_pos hblank, pure_eq_ok] at h
    rw [← h]
    exact .skip
  · by_cases hchecksum : checksumPrefix.toList.isPrefixOf line = true
    · unfold WdbxStore.parseLine at h
      rw [if_neg hblank, if_pos hchecksum, pure_eq_ok] at h
      rw [← h]
      exact .skip
    · by_cases hcomment : line.head? = some '#'
      · have hkept : ∀ t : WdbxStore J,
            t.parseLine line = .ok { t with unknown := t.unknown ++ [String.ofList line] } := fun t => by
          unfold WdbxStore.parseLine
          rw [if_neg hblank, if_neg hchecksum, if_pos hcomment]
          rfl
        rw [hkept] at h
        cases h
        exact .keep hkept
      · have hline : ∀ t : WdbxStore J, t.parseLine line = t.parseRecord (String.ofList line) := by
          intro t
          unfold WdbxStore.parseLine
          rw [if_neg hblank, if_neg hchecksum, if_neg hcomment]
        rw [hline] at h
        exact parseRecord_cases hline h

/-! ### What a store holds -/

/-- The store can be written and read back: ids are unique, vectors are finite, and what is not
modelled is kept. -/
structure WdbxStore.WellFormed (s : WdbxStore J) : Prop where
  ids : s.ids.Nodup
  finite : ∀ v ∈ s.vectors, v.2.all J.isFinite = true
  unknown : ∀ line ∈ s.unknown, KeptLine J line

theorem wellFormed_new : (WdbxStore.new J).WellFormed where
  ids := List.nodup_nil
  finite _ hv := absurd hv List.not_mem_nil
  unknown _ hline := absurd hline List.not_mem_nil

theorem wellFormed_append {s : WdbxStore J} (hs : s.WellFormed) {id : ℕ} {values : List J.F32}
    (hid : id ∉ s.ids) (hvalues : values.all J.isFinite = true) (next : ℕ) :
    ({ s with
      vectors := s.vectors ++ [(id, values)]
      nextId := next } : WdbxStore J).WellFormed where
  ids := by
    unfold WdbxStore.ids at hid ⊢
    rw [List.map_append, List.nodup_append]
    refine ⟨hs.ids, List.nodup_singleton _, fun a ha b hb heq => ?_⟩
    rw [heq, List.mem_singleton.mp hb] at ha
    exact hid ha
  finite v hv := by
    rcases List.mem_append.mp hv with hv | hv
    · exact hs.finite v hv
    · rw [List.mem_singleton.mp hv]
      exact hvalues
  unknown := hs.unknown

theorem elements_finite {items : List (Value J.Number)} {values : List J.F32}
    (h : elements J items = .ok values)
    (hfinite : ∀ item ∈ items, ∀ n x, item.number? = some n → J.asF32 n = some x →
      J.isFinite x = true) : values.all J.isFinite = true := by
  induction items generalizing values with
  | nil =>
    rw [← pure_eq_ok.mp h]
    rfl
  | cons item items ih =>
    simp only [elements, bind_eq_ok, orErr_eq_ok, Option.bind_eq_some_iff, pure_eq_ok] at h
    obtain ⟨x, ⟨n, hn, hx⟩, rest, hrest, rfl⟩ := h
    rw [List.all_cons, hfinite item List.mem_cons_self n x hn hx,
      ih hrest fun item hitem => hfinite item (List.mem_cons_of_mem _ hitem)]
    rfl

/-- A line is read without the returns at its end. -/
theorem getLast?_rdropWhile (line : List Char) :
    (line.rdropWhile (· = '\r')).getLast? ≠ some '\r' := by
  intro h
  have hne : line.rdropWhile (· = '\r') ≠ [] := fun hnil => by
    rw [hnil] at h
    cases h
  rw [List.getLast?_eq_some_getLast hne, Option.some.injEq] at h
  have hlast := List.rdropWhile_last_not (fun c => decide (c = '\r')) line hne
  rw [h] at hlast
  exact hlast (decide_eq_true rfl)

/-- A line that is kept once is kept again. -/
theorem unknown_parseLine {line : List Char} {s s' : WdbxStore J}
    (hs : ∀ l ∈ s.unknown, KeptLine J l) (hisLine : '\n' ∉ line)
    (h : s.parseLine (line.rdropWhile (· = '\r')) = .ok s') : ∀ l ∈ s'.unknown, KeptLine J l := by
  have hcases := parseLine_cases h
  cases hcases with
  | skip => exact hs
  | keep hkept =>
    intro l hl
    rcases List.mem_append.mp hl with hl | hl
    · exact hs l hl
    · rw [List.mem_singleton.mp hl]
      refine ⟨⟨?_, ?_⟩, ?_⟩
      · rw [String.toList_ofList]
        exact fun hmem => hisLine ((List.rdropWhile_prefix _ line).subset hmem)
      · rw [String.toList_ofList]
        exact getLast?_rdropWhile line
      · rw [String.toList_ofList]
        exact hkept
  | entry key value => exact hs
  | vector id values items fields hid hread htype hitems hvalues => exact hs

theorem parseLine_wellFormed {line : List Char} {s s' : WdbxStore J} (hs : s.WellFormed)
    (hisLine : '\n' ∉ line) (hfinite : FiniteLine J line)
    (h : s.parseLine (line.rdropWhile (· = '\r')) = .ok s') : s'.WellFormed := by
  have hunknown := unknown_parseLine hs.unknown hisLine h
  have hcases := parseLine_cases h
  cases hcases with
  | skip => exact hs
  | keep hkept => exact ⟨hs.ids, hs.finite, hunknown⟩
  | entry key value => exact ⟨hs.ids, hs.finite, hs.unknown⟩
  | vector id values items fields hid hread htype hitems hvalues =>
    exact wellFormed_append hs hid (elements_finite hvalues (hfinite fields items hread htype hitems)) _

/-- A line of a text has no line break. -/
theorem not_mem_lines {text line : List Char} (h : line ∈ lines text) : '\n' ∉ line := by
  fun_induction lines text generalizing line with
  | case1 => cases h
  | case2 rest ih =>
    rcases List.mem_cons.mp h with rfl | h
    · exact List.not_mem_nil
    · exact ih h
  | case3 rest ih =>
    rcases List.mem_cons.mp h with rfl | h
    · exact List.not_mem_nil
    · exact ih h
  | case4 c rest hreturn hbreak hrest ih =>
    rw [List.mem_singleton.mp h, List.mem_singleton]
    exact fun hc => hbreak hc.symm
  | case5 c rest hreturn hbreak first more hrest ih =>
    rcases List.mem_cons.mp h with rfl | h
    · have hfirst : '\n' ∉ first := ih (hrest ▸ List.mem_cons_self)
      rw [List.mem_cons, not_or]
      exact ⟨fun hc => hbreak hc.symm, hfirst⟩
    · exact ih (hrest ▸ List.mem_cons_of_mem _ h)

theorem parseBody_wellFormed {ls : List (List Char)} {n : ℕ} {s s' : WdbxStore J}
    (hs : s.WellFormed) (hlines : ∀ line ∈ ls, '\n' ∉ line)
    (hfinite : ∀ line ∈ ls, FiniteLine J line) (h : s.parseBody n ls = .ok s') : s'.WellFormed := by
  induction ls generalizing n s with
  | nil =>
    rw [← pure_eq_ok.mp h]
    exact hs
  | cons line ls ih =>
    simp only [WdbxStore.parseBody, bind_eq_ok, mapError_eq_ok] at h
    obtain ⟨s₁, hline, hrest⟩ := h
    have hs₁ : s₁.WellFormed := parseLine_wellFormed hs (hlines line List.mem_cons_self)
      (hfinite line List.mem_cons_self) hline
    exact ih hs₁ (fun l hl => hlines l (List.mem_cons_of_mem _ hl))
      (fun l hl => hfinite l (List.mem_cons_of_mem _ hl)) hrest

/-- What was read from a text can be written and read back. -/
theorem parse_wellFormed {text : List Char} {s : WdbxStore J} (hfinite : FiniteText J text)
    (h : WdbxStore.parse J text = .ok s) : s.WellFormed := by
  simp only [WdbxStore.parse, bind_eq_ok, ensure_eq_ok, exists_unit] at h
  exact parseBody_wellFormed wellFormed_new
    (fun line hline => not_mem_lines (List.mem_of_mem_tail hline))
    (fun line hline => hfinite line (List.mem_of_mem_tail hline)) h.2

/-! ### Steps and runs -/

theorem removeVector_wellFormed {s : WdbxStore J} (hs : s.WellFormed) (id : ℕ) :
    (s.removeVector id).2.WellFormed where
  ids := hs.ids.sublist (List.filter_sublist.map Prod.fst)
  finite v hv := hs.finite v (List.mem_of_mem_filter hv)
  unknown := hs.unknown

/-- **Step**: a finite vector that is inserted under a new id keeps the store well formed, and so
does every other operation. -/
theorem apply_wellFormed {s : WdbxStore J} (hs : s.WellFormed) {op : StoreOp J}
    (hop : ∀ values, op = .insertVector values →
      values.all J.isFinite = true ∧ s.nextId ∉ s.ids) : (op.apply s).WellFormed := by
  cases op with
  | putKv key value => exact ⟨hs.ids, hs.finite, hs.unknown⟩
  | removeKv key => exact ⟨hs.ids, hs.finite, hs.unknown⟩
  | insertVector values =>
    obtain ⟨hvalues, hid⟩ := hop values rfl
    exact wellFormed_append hs hid hvalues _
  | removeVector id => exact removeVector_wellFormed hs id

theorem run_wellFormed {s₀ s : WdbxStore J} {h : StoreHistory J} (hs₀ : s₀.WellFormed)
    (hrun : Run storeStep s₀ h s) (hfinite : FiniteInserts h) (hfresh : FreshInserts h) :
    s.WellFormed := by
  induction hrun with
  | nil => exact hs₀
  | cons op _ ih =>
    have hs := ih (fun e he => hfinite e (List.mem_cons_of_mem _ he))
      (fun e he => hfresh e (List.mem_cons_of_mem _ he))
    exact apply_wellFormed hs fun values hop =>
      ⟨hfinite _ List.mem_cons_self values hop, hfresh _ List.mem_cons_self values hop⟩

/-! ### Reading back what was written -/

theorem parseBody_unknown {kept : List String} {n : ℕ} {s : WdbxStore J}
    (h : ∀ line ∈ kept, KeptLine J line) :
    s.parseBody n (kept.map String.toList) = .ok { s with unknown := s.unknown ++ kept } := by
  induction kept generalizing n s with
  | nil =>
    rw [List.append_nil]
    rfl
  | cons line kept ih =>
    have hline := h line List.mem_cons_self
    rw [List.map_cons, WdbxStore.parseBody, rdropWhile_return hline.isLine.noReturn, hline.kept]
    simp only [Except.mapError, ok_bind]
    rw [ih fun l hl => h l (List.mem_cons_of_mem _ hl)]
    simp

/-- What a store is written as: the header, then a line for each record. -/
def WdbxStore.body (s : WdbxStore J) : List (List Char) :=
  s.vectors.map (fun v => (J.vectorLine v.1 v.2).toList) ++
    (s.kv.toList.map (fun kv => (J.kvLine kv.1 kv.2).toList) ++ s.unknown.map String.toList)

theorem tryRender_eq {s : WdbxStore J} (h : ∀ v ∈ s.vectors, v.2.all J.isFinite = true) :
    s.tryRender = .ok (unlines (header.toList :: s.body)) := by
  unfold WdbxStore.tryRender WdbxStore.body
  rw [ensure_of h, ok_bind]
  simp [List.map_append, Function.comp_def]

theorem isLine_body {s : WdbxStore J} (hs : s.WellFormed) (hprints : s.RoundTrips) :
    ∀ line ∈ header.toList :: s.body, IsLine line := by
  have hkv : ∀ kv ∈ s.kv.toList, J.PrintsKv kv.1 kv.2 := hprints.kv
  unfold WdbxStore.body
  intro line hline
  rcases List.mem_cons.mp hline with rfl | hline
  · exact ⟨by decide, by decide⟩
  · rcases List.mem_append.mp hline with hv | hline
    · obtain ⟨v, hmem, rfl⟩ := List.mem_map.mp hv
      exact (hprints.vectors v hmem (hs.finite v hmem)).line.isLine
    · rcases List.mem_append.mp hline with hk | hu
      · obtain ⟨kv, hmem, rfl⟩ := List.mem_map.mp hk
        exact (hkv kv hmem).line.isLine
      · obtain ⟨kept, hmem, rfl⟩ := List.mem_map.mp hu
        exact (hs.unknown kept hmem).isLine

/-- The records of a well formed store are read back as they are. -/
theorem parseBody_body {s : WdbxStore J} (hs : s.WellFormed) (hprints : s.RoundTrips) :
    ∃ next, (WdbxStore.new J).parseBody 2 s.body = .ok { s with nextId := next } := by
  have hvectors : ∀ v ∈ s.vectors, J.RoundTripsVector v.1 v.2 := fun v hv =>
    hprints.vectors v hv (hs.finite v hv)
  have hkv : ∀ kv ∈ s.kv.toList, J.PrintsKv kv.1 kv.2 := hprints.kv
  have hids : ((WdbxStore.new J).ids ++ s.vectors.map Prod.fst).Nodup := hs.ids
  refine ⟨s.ids.foldl (fun next id => max next (saturatingAdd id 1)) 1, ?_⟩
  unfold WdbxStore.body
  rw [parseBody_append, parseBody_vectors Prod.snd hvectors hids, ok_bind, parseBody_append,
    parseBody_kv hkv, ok_bind, parseBody_unknown hs.unknown]
  simp only [WdbxStore.new, WdbxStore.ids, List.nil_append, List.map_id', foldl_insert_toList]

/-- **Round trip**: what was read from a text, and changed by any operations, has each id once, is
written, and read back with the same entries, the same vectors and the same lines that are not
modelled; provided no number of a vector in the text is too large, and no vector is inserted while the
next id is taken. -/
theorem write_parse_run {text : List Char} {s₀ s : WdbxStore J} {h : StoreHistory J}
    (hparse : WdbxStore.parse J text = .ok s₀) (htext : FiniteText J text)
    (hrun : Run storeStep s₀ h s) (hfinite : FiniteInserts h) (hfresh : FreshInserts h)
    (hprints : s.RoundTrips) :
    s.ids.Nodup ∧ ∃ written s', s.tryRender = .ok written ∧ WdbxStore.parse J written = .ok s' ∧
      s'.kv = s.kv ∧ s'.vectors = s.vectors ∧ s'.unknown = s.unknown := by
  have hs : s.WellFormed := run_wellFormed (parse_wellFormed htext hparse) hrun hfinite hfresh
  obtain ⟨next, hbody⟩ := parseBody_body hs hprints
  refine ⟨hs.ids, _, { s with nextId := next }, tryRender_eq hs.finite, ?_, rfl, rfl, rfl⟩
  rw [parse_eq (lines_unlines (isLine_body hs hprints))]
  exact hbody

/-! ### Two runs -/

/-- A file with a comment. -/
def commentText : List Char := unlines [header.toList, "# kept".toList]

/-- One vector goes, another comes with an entry. -/
def commentOps : List (StoreOp sampleCrates) :=
  [.insertVector ([3] : List ℕ), .removeVector 1, .insertVector ([4] : List ℕ),
    .putKv "mem:g:2" milkFact.json]

/-- The comment stays. -/
theorem comment_survives : ∃ s₀ s : WdbxStore sampleCrates,
    WdbxStore.parse sampleCrates commentText = .ok s₀ ∧ s.unknown = ["# kept"] ∧ s.ids = [2] ∧
      ∃ written s', s.tryRender = .ok written ∧ WdbxStore.parse sampleCrates written = .ok s' ∧
        s'.kv = s.kv ∧ s'.vectors = s.vectors ∧ s'.unknown = s.unknown := by
  set s₀ : WdbxStore sampleCrates := ⟨∅, [], 1, ["# kept"]⟩
  have hparse : WdbxStore.parse sampleCrates commentText = .ok s₀ := rfl
  have htext : FiniteText sampleCrates commentText := fun line _ fields items _ _ _ item _ n x _ _ => rfl
  have hfinite : FiniteInserts (play storeStep s₀ commentOps).1 := fun e _ values _ =>
    List.all_eq_true.mpr fun x _ => rfl
  have hall : ∀ e ∈ (play storeStep s₀ commentOps).1, e.before.nextId ∉ e.before.ids := by decide
  have hfresh : FreshInserts (play storeStep s₀ commentOps).1 := fun e he values _ => hall e he
  have hvector : sampleCrates.RoundTripsVector 2 ([4] : List ℕ) := by
    refine ⟨⟨by decide, by decide, by decide⟩,
      [("id", .number (2 : ℕ)), ("type", .string "vector"), ("values", .array [.number (4 : ℕ)])],
      (2 : ℕ), [.number (4 : ℕ)], ?_, rfl, rfl, rfl, rfl, rfl⟩
    show sampleRead (vectorJson 2 [4]) = _
    unfold sampleRead
    rw [if_pos rfl]
    rfl
  have hkv : sampleCrates.PrintsKv "mem:g:2" milkFact.json := by
    refine ⟨⟨by decide, by decide, by decide⟩,
      [("key", .string "mem:g:2"), ("type", .string "kv"), ("value", .string milkFact.json)],
      ?_, rfl, rfl, rfl⟩
    have hne : kvJson "mem:g:2" milkFact.json ≠ vectorJson 2 [4] := by decide
    show sampleRead (kvJson "mem:g:2" milkFact.json) = _
    unfold sampleRead
    rw [if_neg hne, if_pos rfl]
    rfl
  have hprints : (play storeStep s₀ commentOps).2.RoundTrips := by
    refine ⟨fun v hv _ => ?_, fun kv hmem => ?_⟩
    · have hv : (v : ℕ × List ℕ) ∈ [((2 : ℕ), ([4] : List ℕ))] := hv
      cases List.mem_singleton.mp hv
      exact hvector
    · have hlist : (play storeStep s₀ commentOps).2.kv.toList = [("mem:g:2", milkFact.json)] := by
        decide
      rw [hlist, List.mem_singleton] at hmem
      rw [hmem]
      exact hkv
  exact ⟨s₀, (play storeStep s₀ commentOps).2, hparse, by decide, by decide,
    (write_parse_run hparse htext (run_play s₀ commentOps) hfinite hfresh hprints).2⟩

/-- JSON for the vector with the last id there is. -/
def lastIdRead (line : String) : Except String (Value ℕ) :=
  if line = vectorJson u64Max [4] then
    .ok (.object [("id", .number u64Max), ("type", .string "vector"),
      ("values", .array [.number 4])])
  else .error "expected value"

def lastIdCrates : Crates := { sampleCrates with readValue := lastIdRead }

/-- The last id there is gets handed out while a vector is stored under it. -/
theorem last_id_twice : ¬ ∀ (J : Crates) (text : List Char) (s₀ s : WdbxStore J)
    (h : StoreHistory J), WdbxStore.parse J text = .ok s₀ → Run storeStep s₀ h s →
      FiniteInserts h → s.RoundTrips →
      s.ids.Nodup ∧ ∃ written s', s.tryRender = .ok written ∧
        WdbxStore.parse J written = .ok s' ∧ s'.kv = s.kv ∧ s'.vectors = s.vectors ∧
        s'.unknown = s.unknown := by
  intro hall
  have hread : lastIdRead (vectorJson u64Max [4]) =
      .ok (.object [("id", .number u64Max), ("type", .string "vector"),
        ("values", .array [.number 4])]) := by
    unfold lastIdRead
    rw [if_pos rfl]
  have hvector : lastIdCrates.RoundTripsVector u64Max ([4] : List ℕ) := by
    exact ⟨⟨by decide, by decide, by decide⟩,
      [("id", .number u64Max), ("type", .string "vector"), ("values", .array [.number (4 : ℕ)])],
      u64Max, [.number (4 : ℕ)], hread, rfl, rfl, rfl, rfl, rfl⟩
  set s₀ : WdbxStore lastIdCrates := ⟨∅, [(u64Max, ([4] : List ℕ))], u64Max, []⟩
  have hline : (WdbxStore.new lastIdCrates).parseLine (vectorJson u64Max [4]).toList = .ok s₀ :=
    parseLine_vector hvector List.not_mem_nil
  have hlines : lines (unlines [header.toList, (vectorJson u64Max [4]).toList]) =
      [header.toList, (vectorJson u64Max [4]).toList] := by
    refine lines_unlines fun line hline => ?_
    simp only [List.mem_cons, List.not_mem_nil, or_false] at hline
    rcases hline with rfl | rfl
    · exact ⟨by decide, by decide⟩
    · exact ⟨by decide, by decide⟩
  have hparse : WdbxStore.parse lastIdCrates
      (unlines [header.toList, (vectorJson u64Max [4]).toList]) = .ok s₀ := by
    have hreturn : (vectorJson u64Max [4]).toList.getLast? ≠ some '\r' := hvector.line.noReturn
    rw [parse_eq hlines, WdbxStore.parseBody, rdropWhile_return hreturn, hline]
    rfl
  have hprints : (play storeStep s₀ [.insertVector ([4] : List ℕ)]).2.RoundTrips := by
    refine ⟨fun v hv _ => ?_, fun kv hmem => absurd hmem List.not_mem_nil⟩
    have hv : v ∈ [(u64Max, ([4] : List ℕ)), (u64Max, ([4] : List ℕ))] := hv
    rcases List.mem_cons.mp hv with rfl | hv
    · exact hvector
    · cases List.mem_singleton.mp hv
      exact hvector
  have hnodup := (hall lastIdCrates _ s₀ _ _ hparse
    (run_play s₀ [.insertVector ([4] : List ℕ)])
    (fun e _ values _ => List.all_eq_true.mpr fun x _ => rfl) hprints).1
  have hids : (play storeStep s₀ [.insertVector ([4] : List ℕ)]).2.ids = [u64Max, u64Max] := rfl
  rw [hids] at hnodup
  exact (List.nodup_cons.mp hnodup).1 List.mem_cons_self

end AbbeyBot.Wdbx
