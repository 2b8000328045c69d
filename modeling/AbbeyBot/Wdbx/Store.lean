import Mathlib
import AbbeyBot.Library.PrefixScan
import AbbeyBot.Library.Result
import AbbeyBot.Library.Text

/-! # The store of semantic memory

Key-value entries, vectors with their ids, and the lines of records that are not modelled, with the
text form they are saved in: a header, and one JSON object a line. The file has no counter of ids:
what is read back hands out the first id above those it holds. -/

namespace AbbeyBot.Wdbx

open AbbeyBot.Library.OrderedMap AbbeyBot.Library.PrefixScan AbbeyBot.Library.Result
open AbbeyBot.Library.Text AbbeyBot.Library.Word

/-! ### JSON -/

/-- `serde_json::Value`, over the numbers of the library; an object has each key once. -/
inductive Value (N : Type) where
  | null
  | bool (b : Bool)
  | number (n : N)
  | string (s : String)
  | array (items : List (Value N))
  | object (fields : List (String × Value N))

def Value.object? {N : Type} : Value N → Option (List (String × Value N))
  | .object fields => some fields
  | _ => none

def Value.array? {N : Type} : Value N → Option (List (Value N))
  | .array items => some items
  | _ => none

def Value.string? {N : Type} : Value N → Option String
  | .string s => some s
  | _ => none

def Value.number? {N : Type} : Value N → Option N
  | .number n => some n
  | _ => none

/-- What a memory fact holds beside its id. -/
structure FactRecord where
  user : String
  text : String
  at_ : ℕ
  deriving DecidableEq, Repr

/-- The libraries the store rests on: the JSON reader and printer, the 32-bit floats, the embedding
of a text and the similarity of two embeddings. -/
structure Crates where
  F32 : Type
  Number : Type
  Score : Type
  [order : LinearOrder Score]
  isFinite : F32 → Bool
  asU64 : Number → Option ℕ
  asF32 : Number → Option F32
  display : Value Number → String
  readValue : String → Except String (Value Number)
  vectorLine : ℕ → List F32 → String
  kvLine : String → String → String
  factText : FactRecord → String
  readFact : String → Option FactRecord
  textEmbedding : String → List F32
  cosine : List F32 → List F32 → Score
  zero : Score
  one : Score

instance (J : Crates) : LinearOrder J.Score := J.order

/-! ### The store -/

inductive WdbxError where
  | missingHeader (found : String)
  | malformedLine (line : ℕ) (reason : String)
  | encode
  deriving DecidableEq, Repr

structure WdbxStore (J : Crates) where
  kv : BTreeMap String String
  vectors : List (ℕ × List J.F32)
  nextId : ℕ
  unknown : List String

variable {J : Crates}

/-- `WdbxStore::new`. -/
def WdbxStore.new (J : Crates) : WdbxStore J where
  kv := ∅
  vectors := []
  nextId := 1
  unknown := []

/-- The ids of the vectors, in file order. -/
def WdbxStore.ids (s : WdbxStore J) : List ℕ := s.vectors.map Prod.fst

/-- `put_kv`. -/
def WdbxStore.putKv (key value : String) (s : WdbxStore J) : WdbxStore J :=
  { s with kv := s.kv.insert key value }

/-- `get_kv`. -/
def WdbxStore.getKv (s : WdbxStore J) (key : String) : Option String := s.kv[key]?

/-- `remove_kv`. -/
def WdbxStore.removeKv (key : String) (s : WdbxStore J) : Option String × WdbxStore J :=
  (s.kv[key]?, { s with kv := s.kv.erase key })

/-- `kv_with_prefix`. -/
def WdbxStore.kvWithPrefix (s : WdbxStore J) (start : String) : List (String × String) :=
  prefixScan s.kv start

/-- `insert_vector`. -/
def WdbxStore.insertVector (values : List J.F32) (s : WdbxStore J) : ℕ × WdbxStore J :=
  (s.nextId,
    { s with
      nextId := saturatingAdd s.nextId 1
      vectors := s.vectors ++ [(s.nextId, values)] })

/-- `remove_vector`. -/
def WdbxStore.removeVector (id : ℕ) (s : WdbxStore J) : Bool × WdbxStore J :=
  (decide (s.vectors.length ≠ (s.vectors.filter fun v => v.1 ≠ id).length),
    { s with vectors := s.vectors.filter fun v => v.1 ≠ id })

/-- The order of the answers to a query: the best score first, ties by id. -/
def better (a b : ℕ × J.Score) : Bool := b.2 < a.2 || (a.2 = b.2 && a.1 ≤ b.1)

/-- `search`. -/
def WdbxStore.search (s : WdbxStore J) (query : List J.F32) (k : ℕ) (admits : ℕ → Bool) :
    List (ℕ × J.Score) :=
  (((s.vectors.filter fun v => admits v.1).map fun v =>
    (v.1, J.cosine query v.2)).mergeSort better).take k

/-! ### Text -/

def header : String := "# ABI-WDBX v1"

def checksumPrefix : String := "# checksum:"

/-- `try_render`. -/
def WdbxStore.tryRender (s : WdbxStore J) : Except WdbxError (List Char) := do
  ensure (∀ v ∈ s.vectors, v.2.all J.isFinite = true) .encode
  return unlines ((header :: (s.vectors.map (fun v => J.vectorLine v.1 v.2) ++
    s.kv.toList.map (fun kv => J.kvLine kv.1 kv.2) ++ s.unknown)).map String.toList)

/-- `string_field`. -/
def stringField (fields : List (String × Value J.Number)) (field : String) :
    Except String String :=
  orErr ((fields.lookup field).bind Value.string?) ("missing string field `" ++ field ++ "`")

/-- The elements of a vector. -/
def elements (J : Crates) : List (Value J.Number) → Except String (List J.F32)
  | [] => return []
  | item :: items => do
    let value ← orErr (item.number?.bind J.asF32)
      ("vector element " ++ J.display item ++ " is not a number")
    let values ← elements J items
    return value :: values

/-- The `vector` case of `parse_record`. -/
def WdbxStore.parseVector (fields : List (String × Value J.Number)) (s : WdbxStore J) :
    Except String (WdbxStore J) := do
  let id ← orErr (((fields.lookup "id").bind Value.number?).bind J.asU64)
    "vector `id` is not a non-negative integer"
  let items ← orErr ((fields.lookup "values").bind Value.array?) "vector `values` is not an array"
  let values ← elements J items
  ensure (id ∉ s.ids) ("duplicate vector id " ++ toString id)
  return { s with
    vectors := s.vectors ++ [(id, values)]
    nextId := max s.nextId (saturatingAdd id 1) }

/-- The `kv` case of `parse_record`. -/
def WdbxStore.parseKv (fields : List (String × Value J.Number)) (s : WdbxStore J) :
    Except String (WdbxStore J) := do
  let key ← stringField fields "key"
  let value ← stringField fields "value"
  return s.putKv key value

/-- `parse_record`. -/
def WdbxStore.parseRecord (line : String) (s : WdbxStore J) : Except String (WdbxStore J) := do
  let value ← (J.readValue line).mapError fun e => "not JSON (" ++ e ++ ")"
  let fields ← orErr value.object? "not a JSON object"
  let type ← stringField fields "type"
  if type = "kv" then s.parseKv fields
  else if type = "vector" then s.parseVector fields
  else return { s with unknown := s.unknown ++ [line] }

/-- One line of the body: blank lines and checksums are dropped, comments are kept. -/
def WdbxStore.parseLine (line : List Char) (s : WdbxStore J) : Except String (WdbxStore J) :=
  if line.all isWhitespace then return s
  else if checksumPrefix.toList.isPrefixOf line then return s
  else if line.head? = some '#' then
    return { s with unknown := s.unknown ++ [String.ofList line] }
  else s.parseRecord (String.ofList line)

/-- The body, from the line with this number on. -/
def WdbxStore.parseBody : ℕ → List (List Char) → WdbxStore J → Except WdbxError (WdbxStore J)
  | _, [], s => return s
  | lineNo, line :: rest, s => do
    let s ← (s.parseLine (line.rdropWhile (· = '\r'))).mapError (.malformedLine lineNo)
    s.parseBody (lineNo + 1) rest

/-- `WdbxStore::parse`. -/
def WdbxStore.parse (J : Crates) (text : List Char) : Except WdbxError (WdbxStore J) := do
  let all := lines text
  let found := (all.head?.getD []).rdropWhile (· = '\r')
  ensure (found = header.toList) (.missingHeader (String.ofList found))
  (WdbxStore.new J).parseBody 2 all.tail

/-! ### What the JSON printer promises -/

/-- An object on one line. -/
structure IsObjectLine (line : List Char) : Prop where
  opening : line.head? = some '\x7b'
  noBreak : '\n' ∉ line
  noReturn : line.getLast? ≠ some '\r'

/-- The line of a vector is read back with its id, and with these values. -/
structure Crates.ReadsVector (J : Crates) (id : ℕ) (values values' : List J.F32) : Prop where
  line : IsObjectLine (J.vectorLine id values).toList
  read : ∃ (fields : List (String × Value J.Number)) (number : J.Number)
      (items : List (Value J.Number)),
    J.readValue (J.vectorLine id values) = .ok (.object fields) ∧
      fields.lookup "type" = some (.string "vector") ∧
      fields.lookup "id" = some (.number number) ∧ J.asU64 number = some id ∧
      fields.lookup "values" = some (.array items) ∧ elements J items = .ok values'

/-- A vector is printed as one line and read back with its id. -/
def Crates.PrintsVector (J : Crates) (id : ℕ) (values : List J.F32) : Prop :=
  ∃ values', J.ReadsVector id values values'

/-- An entry is printed as one line and read back. -/
structure Crates.PrintsKv (J : Crates) (key value : String) : Prop where
  line : IsObjectLine (J.kvLine key value).toList
  read : ∃ fields : List (String × Value J.Number),
    J.readValue (J.kvLine key value) = .ok (.object fields) ∧
      fields.lookup "type" = some (.string "kv") ∧ fields.lookup "key" = some (.string key) ∧
      fields.lookup "value" = some (.string value)

/-- The records of the store are printed and read back. -/
structure WdbxStore.Prints (s : WdbxStore J) : Prop where
  vectors : ∀ v ∈ s.vectors, J.PrintsVector v.1 v.2
  kv : All s.kv fun key value => J.PrintsKv key value

/-! ### Reading back -/

theorem IsObjectLine.isLine {line : List Char} (h : IsObjectLine line) : IsLine line :=
  ⟨h.noBreak, h.noReturn⟩

/-- A line that does not end in a return is read as it is. -/
theorem rdropWhile_return {line : List Char} (h : line.getLast? ≠ some '\r') :
    line.rdropWhile (· = '\r') = line := by
  rw [List.rdropWhile_eq_self_iff]
  intro hne
  rw [List.getLast?_eq_some_getLast hne, ne_eq, Option.some.injEq] at h
  simpa using h

/-- A line with an object is a record. -/
theorem parseLine_object {line : String} {s : WdbxStore J} (h : IsObjectLine line.toList) :
    s.parseLine line.toList = s.parseRecord line := by
  obtain ⟨rest, hline⟩ : ∃ rest, line.toList = '\x7b' :: rest := by
    have hopen := h.opening
    cases hl : line.toList with
    | nil => rw [hl] at hopen; cases hopen
    | cons c rest =>
      rw [hl, List.head?_cons, Option.some.injEq] at hopen
      exact ⟨rest, by rw [hopen]⟩
  unfold WdbxStore.parseLine
  rw [String.ofList_toList, hline, if_neg (by simp [isWhitespace]),
    if_neg (by simp [checksumPrefix]), if_neg (by simp)]

theorem stringField_eq {fields : List (String × Value J.Number)} {field s : String}
    (h : fields.lookup field = some (.string s)) : stringField fields field = .ok s := by
  unfold stringField
  rw [h]
  rfl

/-- A printed vector is read back with its id. -/
theorem parseLine_vector {id : ℕ} {values values' : List J.F32} {s : WdbxStore J}
    (h : J.ReadsVector id values values') (hid : id ∉ s.ids) :
    s.parseLine (J.vectorLine id values).toList = .ok { s with
      vectors := s.vectors ++ [(id, values')]
      nextId := max s.nextId (saturatingAdd id 1) } := by
  obtain ⟨fields, number, items, hread, htype, hnumber, hasU64, hitems, hvalues⟩ := h.read
  rw [parseLine_object h.line]
  unfold WdbxStore.parseRecord
  simp only [hread, Except.mapError, Value.object?, orErr, ok_bind, stringField_eq htype]
  rw [if_neg (by decide), if_pos trivial]
  unfold WdbxStore.parseVector
  simp only [hnumber, hitems, Option.bind_some, Value.number?, Value.array?, hasU64, orErr, hvalues,
    ok_bind, ensure_of hid]
  rfl

/-- A printed entry is read back. -/
theorem parseLine_kv {key value : String} {s : WdbxStore J} (h : J.PrintsKv key value) :
    s.parseLine (J.kvLine key value).toList = .ok (s.putKv key value) := by
  obtain ⟨fields, hread, htype, hkey, hvalue⟩ := h.read
  rw [parseLine_object h.line]
  unfold WdbxStore.parseRecord WdbxStore.parseKv
  simp only [hread, Except.mapError, Value.object?, orErr, ok_bind, stringField_eq htype,
    stringField_eq hkey, stringField_eq hvalue]
  rfl

/-- A body is read part by part. -/
theorem parseBody_append (ls₁ ls₂ : List (List Char)) (n : ℕ) (s : WdbxStore J) :
    s.parseBody n (ls₁ ++ ls₂) =
      s.parseBody n ls₁ >>= fun s' => s'.parseBody (n + ls₁.length) ls₂ := by
  induction ls₁ generalizing n s with
  | nil => rfl
  | cons line ls₁ ih =>
    rw [List.cons_append, WdbxStore.parseBody, WdbxStore.parseBody, bind_assoc]
    refine bind_congr fun s' => ?_
    rw [ih, List.length_cons, Nat.add_assoc, Nat.add_comm 1]

/-- The vectors are read back with their ids, in order. -/
theorem parseBody_vectors {vs : List (ℕ × List J.F32)} (read : ℕ × List J.F32 → List J.F32) {n : ℕ}
    {s : WdbxStore J} (h : ∀ v ∈ vs, J.ReadsVector v.1 v.2 (read v))
    (hids : (s.ids ++ vs.map Prod.fst).Nodup) :
    s.parseBody n (vs.map fun v => (J.vectorLine v.1 v.2).toList) = .ok { s with
      vectors := s.vectors ++ vs.map fun v => (v.1, read v)
      nextId := (vs.map Prod.fst).foldl (fun next id => max next (saturatingAdd id 1)) s.nextId } := by
  induction vs generalizing n s with
  | nil =>
    simp only [List.map_nil, List.append_nil, List.foldl_nil]
    rfl
  | cons v vs ih =>
    have hreads := h v List.mem_cons_self
    have hnew : v.1 ∉ s.ids := fun hm =>
      (List.nodup_append.mp hids).2.2 v.1 hm v.1 List.mem_cons_self rfl
    set s₁ : WdbxStore J := { s with
      vectors := s.vectors ++ [(v.1, read v)]
      nextId := max s.nextId (saturatingAdd v.1 1) } with hs₁
    have hids₁ : s₁.ids = s.ids ++ [v.1] := by simp [s₁, WdbxStore.ids]
    rw [List.map_cons, WdbxStore.parseBody, rdropWhile_return hreads.line.noReturn,
      parseLine_vector hreads hnew, ← hs₁]
    simp only [Except.mapError, ok_bind]
    rw [ih (fun w hw => h w (List.mem_cons_of_mem _ hw)) (by
      rw [hids₁, List.append_assoc, List.singleton_append]
      simpa using hids)]
    simp [s₁]

/-- The entries are read back in order. -/
theorem parseBody_kv {kvs : List (String × String)} {n : ℕ} {s : WdbxStore J}
    (h : ∀ kv ∈ kvs, J.PrintsKv kv.1 kv.2) :
    s.parseBody n (kvs.map fun kv => (J.kvLine kv.1 kv.2).toList) =
      .ok { s with kv := kvs.foldl (fun m kv => m.insert kv.1 kv.2) s.kv } := by
  induction kvs generalizing n s with
  | nil => rfl
  | cons kv kvs ih =>
    have hprints := h kv List.mem_cons_self
    rw [List.map_cons, WdbxStore.parseBody, rdropWhile_return hprints.line.noReturn,
      parseLine_kv hprints]
    simp only [Except.mapError, ok_bind]
    rw [ih fun w hw => h w (List.mem_cons_of_mem _ hw)]
    rfl

/-- A text with the header is read line by line. -/
theorem parse_eq {text : List Char} {rest : List (List Char)}
    (h : lines text = header.toList :: rest) :
    WdbxStore.parse J text = (WdbxStore.new J).parseBody 2 rest := by
  have hfound : ((lines text).head?.getD []).rdropWhile (· = '\r') = header.toList := by
    have hheader : header.toList.getLast? ≠ some '\r' := by decide
    rw [h]
    exact rdropWhile_return hheader
  unfold WdbxStore.parse
  simp only [ensure_of hfound, ok_bind]
  rw [h, List.tail_cons]

/-- **Reading back**: a store of vectors and entries is read back with its entries and ids; the next
id is the first above those. -/
theorem parse_render {s : WdbxStore J} {text : List Char} (hp : s.Prints) (hids : s.ids.Nodup)
    (hunknown : s.unknown = []) (h : s.tryRender = .ok text) :
    ∃ s' : WdbxStore J, WdbxStore.parse J text = .ok s' ∧ s'.kv = s.kv ∧ s'.unknown = [] ∧
      s'.ids = s.ids ∧ s'.nextId = s.ids.foldl (fun next id => max next (saturatingAdd id 1)) 1 := by
  unfold WdbxStore.tryRender at h
  simp only [bind_eq_ok, ensure_eq_ok, exists_unit, pure_eq_ok, hunknown, List.append_nil] at h
  obtain ⟨-, rfl⟩ := h
  choose! read hread using hp.vectors
  have hkv : ∀ kv ∈ s.kv.toList, J.PrintsKv kv.1 kv.2 := hp.kv
  have hlines : lines (unlines ((header :: (s.vectors.map (fun v => J.vectorLine v.1 v.2) ++
      s.kv.toList.map fun kv => J.kvLine kv.1 kv.2)).map String.toList)) =
        header.toList :: (s.vectors.map (fun v => (J.vectorLine v.1 v.2).toList) ++
          s.kv.toList.map fun kv => (J.kvLine kv.1 kv.2).toList) := by
    rw [lines_unlines]
    · simp [List.map_append, Function.comp_def]
    · intro line hline
      obtain ⟨text, htext, rfl⟩ := List.mem_map.mp hline
      rcases List.mem_cons.mp htext with rfl | htext
      · exact ⟨by decide, by decide⟩
      · rcases List.mem_append.mp htext with hv | hk
        · obtain ⟨v, hmem, rfl⟩ := List.mem_map.mp hv
          exact (hread v hmem).line.isLine
        · obtain ⟨kv, hmem, rfl⟩ := List.mem_map.mp hk
          exact (hkv kv hmem).line.isLine
  have hnew : ((WdbxStore.new J).ids ++ s.vectors.map Prod.fst).Nodup := hids
  rw [parse_eq hlines, parseBody_append, parseBody_vectors read hread hnew, ok_bind,
    parseBody_kv hkv]
  refine ⟨_, rfl, foldl_insert_toList s.kv, rfl, ?_, rfl⟩
  simp [WdbxStore.ids, WdbxStore.new]

end AbbeyBot.Wdbx
