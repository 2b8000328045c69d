import Mathlib
import AbbeyBot.Wdbx.Reconcile
import AbbeyBot.Work.RecallState

/-! # The projection of admitted work evidence

Each admitted record has an entry in the store, with the id of the vector of its text; a manifest says
which records there are. An entry is intact if nothing else refers to its vector. What is not intact is
rebuilt, under ids that nothing in the store refers to. -/

namespace AbbeyBot.Wdbx

open AbbeyBot.Library.OrderedMap AbbeyBot.Library.PrefixScan AbbeyBot.Library.Result
open AbbeyBot.Library.Text AbbeyBot.Library.Word
open AbbeyBot.Work.Types (AdmittedWorkEvidence RecallCrates WorkRecallState)

/-- `PREFIX`. -/
def projectionPrefix : String := "workrecall:v1:"

/-- `MANIFEST`. -/
def manifestKey : String := "workrecall:v1:manifest"

inductive ProjectionError where
  | invalidAuthority
  | allocationUnavailable
  | encoding
  deriving DecidableEq, Repr

structure ProjectionManifest where
  version : ℕ
  revision : ℕ
  recordsDigest : String
  deriving DecidableEq, Repr

structure Entry where
  version : ℕ
  vectorId : ℕ
  row : AdmittedWorkEvidence
  deriving DecidableEq

/-- What else the projection rests on: the JSON of records, entries and manifests, and the comparisons
of numbers. -/
structure ProjectionCrates (J : Crates) extends RecallCrates where
  recordsText : BTreeMap ℕ AdmittedWorkEvidence → Option String
  entryText : Entry → Option String
  readEntry : String → Option Entry
  manifestText : ProjectionManifest → Option String
  readManifest : String → Option ProjectionManifest
  /-- `n.as_f64() == Some(id as f64)`. -/
  sameF64 : J.Number → ℕ → Bool
  /-- `==` of two 32-bit floats. -/
  sameF32 : J.F32 → J.F32 → Bool

variable {J : Crates} (K : ProjectionCrates J)

/-- `manifest`. -/
def projectionManifest (state : WorkRecallState) : Except ProjectionError ProjectionManifest := do
  (state.validate K.toRecallCrates).mapError fun _ => .invalidAuthority
  let bytes ← orErr (K.recordsText state.records) .encoding
  return ⟨1, state.projectionRevision, K.sha256 bytes⟩

/-- `key`. -/
def projectionKey (id : ℕ) : String := projectionPrefix ++ toString id

/-- `entry`. -/
def readProjection (key value : String) : Option Entry := do
  let row ← K.readEntry value
  if row.version = 1 ∧ row.vectorId ≠ 0 ∧ key = projectionKey row.row.id then some row else none

/-! ### References -/

/-- `tokens`: one of the runs of digits is the number. -/
def tokens (value : String) (id : ℕ) : Bool :=
  (value.toList.splitOnP fun c => !c.isDigit).any fun s => parseU64 s = some id

mutual

/-- `decoded`. -/
def decoded (id : ℕ) : Value J.Number → Bool
  | .number n => J.asU64 n = some id || K.sameF64 n id
  | .string s => tokens s id
  | .array items => decodedItems id items
  | .object fields => decodedFields id fields
  | _ => false

def decodedItems (id : ℕ) : List (Value J.Number) → Bool
  | [] => false
  | v :: items => decoded id v || decodedItems id items

def decodedFields (id : ℕ) : List (String × Value J.Number) → Bool
  | [] => false
  | (k, v) :: fields => (tokens k id || decoded id v) || decodedFields id fields

end

/-- `mentions`. -/
def mentions (value : String) (id : ℕ) : Bool :=
  tokens value id ||
    match J.readValue value with
    | .ok v => decoded K id v
    | .error _ => false

/-- A row of the store does not refer to the id. -/
def Unrelated (owner key value : String) (id : ℕ) : Prop :=
  if key = owner ∨ key = manifestKey then True
  else if memoryPrefix.toList <+: key.toList then
    (rsplitOnce ':' key.toList).bind (fun p => parseU64 p.2) ≠ some id
  else if projectionPrefix.toList <+: key.toList then
    match readProjection K key value with
    | some other => other.vectorId ≠ id
    | none => ¬ (mentions K key id = true ∨ mentions K value id = true)
  else ¬ (mentions K key id = true ∨ mentions K value id = true)

instance (owner key value : String) (id : ℕ) : Decidable (Unrelated K owner key value id) := by
  unfold Unrelated
  cases readProjection K key value <;> infer_instance

/-- A line that is not modelled does not refer to the id; comments never do. -/
def UnrelatedLine (id : ℕ) (line : String) : Prop :=
  line.toList.head? = some '#' ∨ mentions K line id = false

instance (id : ℕ) (line : String) : Decidable (UnrelatedLine K id line) :=
  inferInstanceAs (Decidable (_ ∨ _))

/-- `exclusive`. -/
def WdbxStore.Exclusive (s : WdbxStore J) (owner : String) (id : ℕ) : Prop :=
  (∀ line ∈ s.unknown, UnrelatedLine K id line) ∧ All s.kv fun key value => Unrelated K owner key value id

instance (s : WdbxStore J) (owner : String) (id : ℕ) : Decidable (s.Exclusive K owner id) :=
  inferInstanceAs (Decidable (_ ∧ _))

/-! ### Ownership -/

structure Ownership (J : Crates) where
  entries : BTreeMap String Entry
  owners : BTreeMap ℕ ℕ
  vectors : BTreeMap ℕ (Option (List J.F32))
  opaqueRows : WdbxStore J

/-- An entry is counted under its vector. -/
def countOwner (owners : BTreeMap ℕ ℕ) (e : Entry) : BTreeMap ℕ ℕ :=
  owners.insert e.vectorId (owners.getD e.vectorId 0 + 1)

/-- A vector is indexed; one whose id was seen before is none. -/
def indexVector (vectors : BTreeMap ℕ (Option (List J.F32))) (v : ℕ × List J.F32) :
    BTreeMap ℕ (Option (List J.F32)) :=
  vectors.insert v.1 (if v.1 ∈ vectors then none else some v.2)

/-- A row is entered, if it is read as an entry. -/
def addEntry (m : BTreeMap String Entry) (kv : String × String) : BTreeMap String Entry :=
  match readProjection K kv.1 kv.2 with
  | some e => m.insert kv.1 e
  | none => m

/-- The entries of the store. -/
def WdbxStore.entries (s : WdbxStore J) : BTreeMap String Entry :=
  (s.kvWithPrefix projectionPrefix).foldl (addEntry K) ∅

/-- `Ownership::new`. -/
def Ownership.new (s : WdbxStore J) : Ownership J where
  entries := s.entries K
  owners := (s.entries K).toList.foldl (fun owners ke => countOwner owners ke.2) ∅
  vectors := s.vectors.foldl indexVector ∅
  opaqueRows := (s.entries K).toList.foldl (fun s ke => (s.removeKv ke.1).2) s

/-- `==` of two vectors. -/
def sameVector (a b : List J.F32) : Bool :=
  a.length = b.length && (a.zip b).all fun p => K.sameF32 p.1 p.2

/-- `Ownership::intact`. -/
def Ownership.Intact (o : Ownership J) (key : String) (e : Entry) : Prop :=
  o.owners[e.vectorId]? = some 1 ∧ o.opaqueRows.Exclusive K key e.vectorId ∧
    ∃ values ∈ (o.vectors[e.vectorId]?).join,
      sameVector K values (J.textEmbedding e.row.payload.text) = true

instance (o : Ownership J) (key : String) (e : Entry) : Decidable (o.Intact K key e) := by
  unfold Ownership.Intact
  cases (o.vectors[e.vectorId]?).join <;> infer_instance

/-- `Ownership::unreferenced`. -/
def Ownership.Unreferenced (o : Ownership J) (id : ℕ) : Prop :=
  id ∉ o.owners ∧ o.opaqueRows.Exclusive K "" id

instance (o : Ownership J) (id : ℕ) : Decidable (o.Unreferenced K id) :=
  inferInstanceAs (Decidable (_ ∧ _))

/-! ### The projection -/

/-- The records whose entries are kept. -/
def WdbxStore.stable (s : WdbxStore J) (state : WorkRecallState) : BTreeSet ℕ :=
  ((s.entries K).toList.filterMap fun (key, e) =>
    if state.records[e.row.id]? = some e.row ∧ (Ownership.new K s).Intact K key e
    then some e.row.id else none).toFinset

/-- The number of entries that are built. -/
def WdbxStore.needed (s : WdbxStore J) (state : WorkRecallState) : ℕ :=
  state.records.size - (s.stable K state).card

/-- A row of the projection goes, unless it is stable; an intact one with its vector. -/
def WdbxStore.dropProjection (s : WdbxStore J) (state : WorkRecallState) (next : WdbxStore J)
    (key : String) : WdbxStore J :=
  match (s.entries K)[key]? with
  | some e =>
    if e.row.id ∈ s.stable K state then next
    else ((if (Ownership.new K s).Intact K key e then (next.removeVector e.vectorId).2
      else next).removeKv key).2
  | none => (next.removeKv key).2

/-- The store without the rows of the projection that are not stable. -/
def WdbxStore.withoutStale (s : WdbxStore J) (state : WorkRecallState) : WdbxStore J :=
  ((s.kvWithPrefix projectionPrefix).map Prod.fst).foldl (s.dropProjection K state) s

/-- A record is entered with the vector of its text; and the id that follows. -/
def addProjection (next : WdbxStore J × ℕ) (record : ℕ × AdmittedWorkEvidence) :
    Except ProjectionError (WdbxStore J × ℕ) := do
  let text ← orErr (K.entryText ⟨1, next.2, record.2⟩) .encoding
  let embedded : WdbxStore J :=
    { next.1 with
      vectors := next.1.vectors ++ [(next.2, J.textEmbedding record.2.payload.text)] }
  return (embedded.putKv (projectionKey record.1) text, next.2 + 1)

/-- The records that are entered. -/
def WdbxStore.pending (s : WdbxStore J) (state : WorkRecallState) :
    List (ℕ × AdmittedWorkEvidence) :=
  state.records.toList.filter fun record => record.1 ∉ s.stable K state

/-- The ids that are handed out are free. -/
def WdbxStore.checkIds (s : WdbxStore J) (state : WorkRecallState) (last : ℕ) :
    Except ProjectionError Unit :=
  ensure (∀ id ∈ List.range' s.nextId (last - s.nextId),
    (Ownership.new K (s.withoutStale K state)).Unreferenced K id) .allocationUnavailable

/-- What `reconcile_work_evidence` puts in the place of the store. -/
def WdbxStore.project (s : WdbxStore J) (state : WorkRecallState) :
    Except ProjectionError (ProjectionManifest × WdbxStore J) := do
  let wanted ← projectionManifest K state
  let last ← orErr (checkedAdd s.nextId (s.needed K state)) .allocationUnavailable
  ensure (¬ (s.needed K state ≠ 0 ∧
    (s.nextId = 0 ∨ s.nextId = u64Max ∨ ∃ v ∈ s.vectors, s.nextId ≤ v.1))) .allocationUnavailable
  s.checkIds K state last
  let next ← (s.pending K state).foldlM (addProjection K) (s.withoutStale K state, s.nextId)
  let text ← orErr (K.manifestText wanted) .encoding
  return (wanted, ({ next.1 with nextId := last } : WdbxStore J).putKv manifestKey text)

/-- `reconcile_work_evidence`. -/
def Recall.reconcileWorkEvidence (state : WorkRecallState) (m : Recall J) :
    Except ProjectionError ProjectionManifest × Recall J :=
  match m.store.project K state with
  | .ok (wanted, next) => (.ok wanted, ⟨next⟩)
  | .error e => (.error e, m)

/-- Every record has its entry, and the entry is intact. -/
def Ownership.Covers (o : Ownership J) (state : WorkRecallState) : Prop :=
  All state.records fun id row =>
    ∃ e ∈ o.entries[projectionKey id]?, e.row = row ∧ o.Intact K (projectionKey id) e

instance (o : Ownership J) (state : WorkRecallState) : Decidable (o.Covers K state) := by
  have hrow : ∀ (id : ℕ) (row : AdmittedWorkEvidence),
      Decidable (∃ e ∈ o.entries[projectionKey id]?, e.row = row ∧
        o.Intact K (projectionKey id) e) := fun id row => by
    cases o.entries[projectionKey id]? <;> infer_instance
  unfold Ownership.Covers
  infer_instance

/-- `work_projection_current`. -/
def Recall.workProjectionCurrent (state : WorkRecallState) (m : Recall J) :
    Except ProjectionError Bool := do
  let expected ← projectionManifest K state
  return decide ((m.store.getKv manifestKey).bind K.readManifest = some expected ∧
    (state.records.keys.map projectionKey ++ [manifestKey]).toFinset =
      ((m.store.kvWithPrefix projectionPrefix).map Prod.fst).toFinset ∧
    (Ownership.new K m.store).Covers K state)

end AbbeyBot.Wdbx
