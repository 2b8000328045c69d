import Mathlib
import AbbeyBot.Library.Text
import AbbeyBot.Work.FollowUp

/-! # Admitted work evidence

What was admitted of the work records for recall, with the versions of its sources, the controls of the
scopes and the attempts in flight; and the check such a state has to pass. The JSON printer is outside:
what the check reads of it is the parameter `RecallCrates`. -/

namespace AbbeyBot.Work.Types

open AbbeyBot.Library.OrderedMap AbbeyBot.Library.Result AbbeyBot.Library.Text
open AbbeyBot.Work.FollowUp (ScopeValid)

/-- `MAX_ROWS` and `MAX_SOURCES`. -/
def maxRows : ℕ := 20000

def maxScopes : ℕ := 10000

def maxAttempts : ℕ := 4096

def maxTerminals : ℕ := 256

def maxPayloadBytes : ℕ := 8 * 1024

def maxTotalPayload : ℕ := 32 * 1024 * 1024

def maxMetadata : ℕ := 16 * 1024 * 1024

/-! ### Rows -/

inductive WorkSourceKey where
  | task (project id : ℕ)
  | decision (project id : ℕ)
  | preference (scope : WorkScope) (delivery actor : ℕ)
  deriving DecidableEq, Repr

/-- Sources are ordered by kind, then by their numbers. -/
def WorkSourceKey.ordKey : WorkSourceKey → List ℕ
  | .task project id => [0, project, id]
  | .decision project id => [1, project, id]
  | .preference scope delivery actor => 2 :: (scope.ordKey ++ [delivery, actor])

instance : Ord WorkSourceKey := ordByKey WorkSourceKey.ordKey

instance : Std.TransOrd WorkSourceKey := transOrd_ordByKey _

structure SourceVersion where
  revision : ℕ
  generation : ℕ
  recallEnabled : Bool
  recallDisabledExhausted : Bool
  deriving DecidableEq, Repr

structure ScopeRecallControl where
  generation : ℕ
  recallDisabledExhausted : Bool
  deriving DecidableEq, Repr

structure WorkEvidencePayload where
  version : ℕ
  source : WorkSourceKey
  revision : ℕ
  generation : ℕ
  scope : WorkScope
  contributingProjects : BTreeSet ℕ
  deliveredSourceDigest : Option String
  actor : Option ℕ
  at_ : Option ℕ
  nativeDigest : String
  text : String
  deriving DecidableEq

inductive WorkAdmission where
  | appended (digestHex scopedGuild : String)
  | uncovered (scopedGuild : String)
  deriving DecidableEq, Repr

structure AdmittedWorkEvidence where
  id : ℕ
  payload : WorkEvidencePayload
  payloadDigest : String
  admission : WorkAdmission
  deriving DecidableEq

inductive AttemptState where
  | prepared
  | unknown
  deriving DecidableEq, Repr

inductive ProjectionOperation where
  | add (row : ℕ)
  | forget (row : ℕ)
  deriving DecidableEq, Repr

structure ProjectionAttempt where
  id : ℕ
  source : WorkSourceKey
  operation : ProjectionOperation
  revision : ℕ
  generation : ℕ
  payloadDigest : String
  payloadBytes : ℕ
  at_ : ℕ
  nonce : ℕ
  configDigest : String
  state : AttemptState
  observedAdmission : Option WorkAdmission
  deriving DecidableEq, Repr

inductive TerminalOutcome where
  | appended
  | uncovered
  | rejected
  deriving DecidableEq, Repr

structure TerminalSummary where
  attempt : ℕ
  at_ : ℕ
  outcome : TerminalOutcome
  deriving DecidableEq, Repr

structure WorkRecallState where
  schemaVersion : ℕ
  sequence : ℕ
  projectionRevision : ℕ
  revisionExhausted : Bool
  records : BTreeMap ℕ AdmittedWorkEvidence
  sourceVersions : BTreeMap WorkSourceKey SourceVersion
  scopeControls : BTreeMap WorkScope ScopeRecallControl
  attempts : BTreeMap ℕ ProjectionAttempt
  terminal : List TerminalSummary

/-- `WorkRecallState::default`. -/
def WorkRecallState.default : WorkRecallState := ⟨1, 0, 0, false, ∅, ∅, ∅, ∅, []⟩

/-- The JSON of a payload, with its digest, and the sizes of the other rows in bytes. -/
structure RecallCrates where
  payloadText : WorkEvidencePayload → String
  sha256 : String → String
  sourceSize : WorkSourceKey → ℕ
  versionSize : WorkSourceKey → SourceVersion → ℕ
  controlSize : WorkScope → ScopeRecallControl → ℕ
  attemptSize : ProjectionAttempt → ℕ
  terminalSize : TerminalSummary → ℕ

/-! ### The check -/

/-- The name of the gate of `recall_gate_scope`. -/
def WorkScope.recallGate : WorkScope → String
  | .personal owner => "discord:dm:" ++ toString owner
  | .team guild _ => "discord:" ++ toString guild

/-- `WorkSourceKey::valid`. -/
def WorkSourceKey.Valid : WorkSourceKey → Prop
  | .task project id => project ≠ 0 ∧ id ≠ 0
  | .decision project id => project ≠ 0 ∧ id ≠ 0
  | .preference scope delivery actor => ScopeValid scope ∧ delivery ≠ 0 ∧ actor ≠ 0

instance WorkSourceKey.decidableValid (key : WorkSourceKey) : Decidable key.Valid := by
  cases key <;> unfold WorkSourceKey.Valid <;> infer_instance

/-- The source fits what a payload says of it. -/
def WorkEvidencePayload.FitsSource (p : WorkEvidencePayload) : WorkSourceKey → Prop
  | .task project _ => p.contributingProjects = {project} ∧ p.deliveredSourceDigest = none
  | .decision project _ => p.contributingProjects = {project} ∧ p.deliveredSourceDigest = none
  | .preference scope _ actor => scope = p.scope ∧ p.actor = some actor ∧ p.deliveredSourceDigest ≠ none

instance (p : WorkEvidencePayload) (key : WorkSourceKey) : Decidable (p.FitsSource key) := by
  cases key <;> unfold WorkEvidencePayload.FitsSource <;> infer_instance

variable (R : RecallCrates)

/-- `WorkEvidencePayload::encoded`. -/
def WorkEvidencePayload.encoded (p : WorkEvidencePayload) : Except WorkError String := do
  ensure ((R.payloadText p).utf8ByteSize ≤ maxPayloadBytes ∧ p.text.toList.length ≤ 1024) .full
  ensure (p.version = 1 ∧ p.source.Valid ∧ ScopeValid p.scope ∧ isLowerDigest p.nativeDigest = true ∧
    p.text ≠ "" ∧ p.contributingProjects ≠ ∅ ∧ p.contributingProjects.card ≤ 128 ∧
    0 ∉ p.contributingProjects ∧ ∀ d ∈ p.deliveredSourceDigest, isLowerDigest d = true) .invalid
  ensure (p.FitsSource p.source) .invalid
  return R.payloadText p

/-- The digest of an admission, where it has one, is a digest. -/
def WorkAdmission.DigestValid : WorkAdmission → Prop
  | .appended digestHex _ => isLowerDigest digestHex = true
  | .uncovered _ => True

instance (a : WorkAdmission) : Decidable a.DigestValid := by
  cases a <;> unfold WorkAdmission.DigestValid <;> infer_instance

def WorkAdmission.scopedGuild : WorkAdmission → String
  | .appended _ scopedGuild => scopedGuild
  | .uncovered scopedGuild => scopedGuild

/-- `AdmittedWorkEvidence::validate`. -/
def AdmittedWorkEvidence.validate (row : AdmittedWorkEvidence) : Except WorkError Unit := do
  ensure (row.id ≠ 0) .invalid
  let encoded ← row.payload.encoded R
  ensure (R.sha256 encoded = row.payloadDigest) .invalid
  ensure row.admission.DigestValid .invalid
  ensure (row.admission.scopedGuild = row.payload.scope.recallGate) .invalid

namespace WorkRecallState

/-- The checks of `validate` on one record; the size of its payload. -/
def checkRecord (s : WorkRecallState) (id : ℕ) (row : AdmittedWorkEvidence) : Except WorkError ℕ := do
  row.validate R
  ensure (id = row.id ∧ id ≤ s.sequence ∧ row.payload.source ∈ s.sourceVersions ∧
    row.payload.scope ∈ s.scopeControls) .invalid
  let encoded ← row.payload.encoded R
  return encoded.utf8ByteSize

/-- What `validate` has seen of the attempts. -/
structure Seen where
  sources : List WorkSourceKey
  rows : List ℕ
  payload : ℕ

/-- The checks of `validate` on the row that an attempt is about. -/
def checkOperation (s : WorkRecallState) (id : ℕ) (attempt : ProjectionAttempt) (seen : Seen) :
    ProjectionOperation → Except WorkError Seen
  | .add row => do
    ensure (row ≠ 0 ∧ row ≤ s.sequence ∧ row ≠ id ∧ row ∉ s.records ∧ row ∉ s.attempts ∧
      row ∉ seen.rows) .invalid
    return { seen with rows := row :: seen.rows, payload := seen.payload + attempt.payloadBytes }
  | .forget row => do
    let record ← orErr s.records[row]? .invalid
    ensure (record.payload.source = attempt.source ∧ record.payloadDigest = attempt.payloadDigest ∧
      record.payload.revision = attempt.revision ∧
      record.payload.generation = attempt.generation) .invalid
    let encoded ← record.payload.encoded R
    ensure (encoded.utf8ByteSize = attempt.payloadBytes) .invalid
    return seen

/-- The checks of `validate` on one attempt. -/
def checkAttempt (s : WorkRecallState) (seen : Seen) (id : ℕ) (attempt : ProjectionAttempt) :
    Except WorkError Seen := do
  ensure (id ≠ 0 ∧ id = attempt.id ∧ id ∉ s.records ∧ id ≤ s.sequence ∧ attempt.source.Valid ∧
    isLowerDigest attempt.payloadDigest = true ∧ isLowerDigest attempt.configDigest = true ∧
    attempt.payloadBytes ≠ 0 ∧ attempt.payloadBytes ≤ maxPayloadBytes ∧
    attempt.source ∈ s.sourceVersions ∧ attempt.source ∉ seen.sources ∧
    R.attemptSize attempt ≤ 1024) .invalid
  ensure (∀ admission ∈ attempt.observedAdmission,
    attempt.state = .unknown ∧ admission.DigestValid) .invalid
  s.checkOperation R id attempt { seen with sources := attempt.source :: seen.sources } attempt.operation

/-- The checks of `validate` on one summary; the attempts that were summarised. -/
def checkTerminal (s : WorkRecallState) (reserved seen : List ℕ) (item : TerminalSummary) :
    Except WorkError (List ℕ) := do
  ensure (item.attempt ≠ 0 ∧ item.attempt ≤ s.sequence ∧ item.attempt ∉ seen ∧
    item.attempt ∉ s.attempts ∧ item.attempt ∉ s.records ∧ item.attempt ∉ reserved ∧
    R.terminalSize item ≤ 256) .invalid
  return item.attempt :: seen

/-- `WorkRecallState::validate`. The sums are below `usize::MAX`, their additions never fail. -/
def validate (s : WorkRecallState) : Except WorkError Unit := do
  ensure (s.schemaVersion = 1) .invalid
  ensure (s.records.size ≤ maxRows ∧ s.sourceVersions.size ≤ maxRows ∧ s.scopeControls.size ≤ maxScopes ∧
    s.attempts.size ≤ maxAttempts ∧ s.terminal.length ≤ maxTerminals) .full
  let sizes ← s.records.toList.mapM fun (id, row) => s.checkRecord R id row
  s.sourceVersions.toList.forM fun (key, value) => do
    ensure key.Valid .invalid
    ensure (R.sourceSize key ≤ 256 ∧ R.versionSize key value ≤ 512) .full
  s.scopeControls.toList.forM fun (scope, value) => do
    ensure (ScopeValid scope) .invalid
    ensure (R.controlSize scope value ≤ 128) .full
  let seen ← s.attempts.toList.foldlM (fun seen (id, attempt) => s.checkAttempt R seen id attempt)
    ⟨[], [], sizes.sum⟩
  ensure (s.records.size + seen.rows.length ≤ maxRows ∧ seen.payload ≤ maxTotalPayload) .full
  let _ ← s.terminal.foldlM (s.checkTerminal R seen.rows) []
  ensure (s.sourceVersions.size * 512 + s.scopeControls.size * 128 + s.attempts.size * 1024 +
    maxTerminals * 256 + (s.records.size + seen.rows.length) * 512 ≤ maxMetadata) .full

/-- What passes the check holds each record under its own id. -/
theorem id_of_validate {R : RecallCrates} {s : WorkRecallState} (h : s.validate R = .ok ()) {id : ℕ}
    {row : AdmittedWorkEvidence} (hrow : s.records[id]? = some row) : row.id = id := by
  unfold validate at h
  simp only [bind_eq_ok, ensure_eq_ok, exists_unit] at h
  obtain ⟨-, -, sizes, hsizes, -⟩ := h
  have hmem : (id, row) ∈ s.records.toList := Std.ExtTreeMap.mem_toList_iff_getElem?_eq_some.mpr hrow
  obtain ⟨size, hcheck⟩ : ∃ size, s.checkRecord R id row = .ok size := by
    revert hmem hsizes
    generalize s.records.toList = rows
    intro hsizes hmem
    induction rows generalizing sizes with
    | nil => cases hmem
    | cons first rows ih =>
      simp only [List.mapM_cons, bind_eq_ok, pure_eq_ok] at hsizes
      obtain ⟨size, hfirst, rest, hrest, -⟩ := hsizes
      rcases List.mem_cons.mp hmem with rfl | hmem
      · exact ⟨size, hfirst⟩
      · exact ih rest hrest hmem
  unfold checkRecord at hcheck
  simp only [bind_eq_ok, ensure_eq_ok, exists_unit] at hcheck
  exact hcheck.2.1.1.symm

end WorkRecallState

end AbbeyBot.Work.Types
