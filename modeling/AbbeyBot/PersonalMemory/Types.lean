import Mathlib
import AbbeyBot.Library.OrderedMap
import AbbeyBot.Library.Result
import AbbeyBot.Library.Text
import AbbeyBot.Library.Word

/-! # Personal memory

What the bot remembers of a member may be used in a generated text only while the member's choice is
On and the member has stood up for the exact fact. A `PersonalMemorySubject` holds the choice and the
proofs; revision and consent epoch grow with every change. The exposure epoch is common to all
members: a permit is minted under one epoch and is void under any other.

JSON and SHA-256 are outside, digests and sizes are the parameter `Codec`. -/

namespace AbbeyBot.PersonalMemory

open AbbeyBot.Library.OrderedMap AbbeyBot.Library.Result AbbeyBot.Library.Text
open AbbeyBot.Library.Word

/-- `PERSONAL_MEMORY_POLICY_VERSION`. -/
def policyVersion : ℕ := 1

def maxSubjects : ℕ := 10000

/-- The largest metadata or marker file, in bytes. -/
def maxBytes : ℕ := 8 * 1024 * 1024

/-! ### Consent -/

inductive UseChoice where
  | off
  | on
  deriving DecidableEq, Repr

structure ConsentStamp where
  revision : ℕ
  consentEpoch : ℕ
  exposureEpoch : ℕ
  deriving DecidableEq, Repr

structure MemberProof where
  actor : String
  subject : String
  guild : String
  interactionId : String
  platform : String
  at_ : ℕ
  policyVersion : ℕ
  deriving DecidableEq, Repr

structure SelfAuthorizedFactAction where
  proof : MemberProof
  expected : ConsentStamp
  deriving DecidableEq, Repr

inductive MemoryConsentError where
  | invalidProof
  | stale
  | bounds
  | persistence
  | unverifiedFact
  | blocked
  | notFound
  | requestConflict
  deriving DecidableEq, Repr

/-- The name of the error in the message. -/
def MemoryConsentError.name : MemoryConsentError → String
  | .invalidProof => "InvalidProof"
  | .stale => "Stale"
  | .bounds => "Bounds"
  | .persistence => "Persistence"
  | .unverifiedFact => "UnverifiedFact"
  | .blocked => "Blocked"
  | .notFound => "NotFound"
  | .requestConflict => "RequestConflict"

/-- The message of the error. -/
def MemoryConsentError.message (e : MemoryConsentError) : String :=
  "Personal memory change refused: " ++ e.name

/-- The separator of a key. -/
def separator : Char := '\x1f'

/-- `valid_scope`. -/
def validScope (value : String) : Bool :=
  value ≠ "" && value.utf8ByteSize ≤ 128 && !value.toList.any isControl

/-- `SelfAuthorizedFactAction::new`. -/
def SelfAuthorizedFactAction.new (proof : MemberProof) (expected : ConsentStamp) :
    Except MemoryConsentError SelfAuthorizedFactAction := do
  ensure (¬ (proof.actor ≠ proof.subject ∨ validScope proof.actor = false ∨
      validScope proof.guild = false ∨ proof.interactionId = "" ∨ proof.platform = "" ∨
      proof.policyVersion ≠ PersonalMemory.policyVersion ∨
      ∃ s ∈ [proof.actor, proof.guild, proof.interactionId, proof.platform],
        128 < s.utf8ByteSize ∨ separator ∈ s.toList)) .invalidProof
  return ⟨proof, expected⟩

inductive FactAuthority where
  | selfAuthored
  | memberConfirmed
  deriving DecidableEq, Repr

structure FactProof where
  authority : FactAuthority
  member : MemberProof
  factKey : String
  previousRevision : ℕ
  deriving DecidableEq, Repr

structure ConsentStatus where
  choice : UseChoice
  stamp : ConsentStamp
  policyVersion : ℕ
  eligibleFacts : ℕ
  unverifiedFacts : ℕ
  deriving DecidableEq, Repr

structure CompletedRequest where
  completed : Bool
  payloadDigest : String
  at_ : ℕ
  result : ConsentStatus
  deriving DecidableEq, Repr

structure PersonalMemorySubject where
  schema : ℕ
  revision : ℕ
  consentEpoch : ℕ
  choice : UseChoice
  policyVersion : ℕ
  proofs : BTreeMap String FactProof
  outcomes : BTreeMap String CompletedRequest
  activationPending : Bool
  deriving DecidableEq

/-- `PersonalMemorySubject::default`. -/
instance : Inhabited PersonalMemorySubject := ⟨⟨0, 0, 0, .off, 0, ∅, ∅, false⟩⟩

structure ExposureReceipt where
  epoch : ℕ
  cutoff : ℕ
  requestDigest : String
  deriving DecidableEq, Repr

structure ExposureState where
  schema : ℕ
  epoch : ℕ
  cutoff : ℕ
  scopeEpochs : BTreeMap String ℕ
  receipts : List ExposureReceipt
  deriving DecidableEq

inductive Mutation where
  | choice (choice : UseChoice)
  | confirm (key exact : String)
  | remember (text : String) (receipt : Option String)
  | correct (old text : String) (receipt : Option String)
  | forget (exact : String)
  deriving DecidableEq, Repr

/-! ### Facts -/

/-- `MAX_FACTS`. -/
def maxFacts : ℕ := 100

/-- `MAX_FACT_CHARS`. -/
def maxFactChars : ℕ := 300

structure PendingSupersession where
  newFact : String
  oldFact : String
  at_ : ℕ
  deriving DecidableEq, Repr

/-- `UserMemory`, less what is counted of the user. -/
structure UserMemory where
  facts : List String
  updatedAt : ℕ
  pendingSupersessions : List PendingSupersession
  deriving DecidableEq, Repr

/-- `UserMemory::default`. -/
instance : Inhabited UserMemory := ⟨⟨[], 0, []⟩⟩

/-- The users of a `MemoryBank`. -/
abbrev MemoryBank := BTreeMap String UserMemory

structure MemoryFact where
  guild : String
  user : String
  text : String
  at_ : ℕ
  deriving DecidableEq, Repr

/-- `user_key`. -/
def userKey (guild user : String) : String := guild ++ separator.toString ++ user

/-- `legacy_user_key`. -/
def legacyUserKey (guild user : String) : String := guild ++ ":" ++ user

/-- `str::rfind`. -/
def rfind (s pattern : List Char) : Option ℕ :=
  (List.range (s.length + 1)).reverse.find? fun i => pattern.isPrefixOf (s.drop i)

/-- The two parts of a key, where neither is empty. -/
def nonemptyPair (parts : List Char × List Char) : Option (String × String) :=
  if parts.1 ≠ [] ∧ parts.2 ≠ [] then some (String.ofList parts.1, String.ofList parts.2) else none

/-- `split_user_key`: a historical key is split in front of the last scoped id of its network. -/
def splitUserKey (key : String) : Option (String × String) :=
  match splitOnce separator key.toList with
  | some parts => nonemptyPair parts
  | none => do
    let (network, _) ← splitOnce ':' key.toList
    let split ← rfind key.toList (':' :: network ++ [':'])
    nonemptyPair (key.toList.take split, key.toList.drop (split + 1))

/-- `str::split_whitespace`. -/
def splitWhitespace (s : List Char) : List (List Char) :=
  (s.splitOnP isWhitespace).filter (· ≠ [])

/-- `normalize_fact_text`. -/
def normalizeFactText (fact : String) : String :=
  String.ofList ([' '].intercalate (splitWhitespace fact.toList))

/-- `validated_fact`. -/
def validatedFact (fact : String) : Except String String :=
  let normalized := normalizeFactText fact
  if normalized = "" then .error "The fact must contain some text."
  else if maxFactChars < normalized.toList.length then
    .error "Keep one remembered fact to 300 characters or fewer."
  else .ok normalized

namespace MemoryBank

/-- `MemoryBank::user`. -/
def user (m : MemoryBank) (guild user : String) : Option UserMemory :=
  m[userKey guild user]? <|> m[legacyUserKey guild user]?

/-- `MemoryBank::user_mut`: the row of the user, and the users without its historical key. -/
def userMut (m : MemoryBank) (guild user : String) : MemoryBank × UserMemory :=
  match m[userKey guild user]?, m[legacyUserKey guild user]? with
  | some row, _ => (m, row)
  | none, some legacy => (m.erase (legacyUserKey guild user), legacy)
  | none, none => (m, default)

def facts (m : MemoryBank) (guild user : String) : List String :=
  match MemoryBank.user m guild user with
  | some row => row.facts
  | none => []

/-- `MemoryBank::remember`: the users, and whether the fact was stored. -/
def remember (m : MemoryBank) (guild user fact : String) (now : ℕ) : MemoryBank × Bool :=
  let (m, row) := userMut m guild user
  if fact ∈ row.facts ∨ maxFacts ≤ row.facts.length then
    (m.insert (userKey guild user) row, false)
  else
    (m.insert (userKey guild user) { row with facts := row.facts ++ [fact], updatedAt := now }, true)

/-- The key under which the user is found. -/
def selectedKey (m : MemoryBank) (guild user : String) : String :=
  if userKey guild user ∈ m then userKey guild user else legacyUserKey guild user

/-- `MemoryBank::forget`. -/
def forget (m : MemoryBank) (guild user fact : String) : MemoryBank :=
  m.modify (selectedKey m guild user) fun row => { row with facts := row.facts.filter (· ≠ fact) }

/-- `MemoryBank::drop_supersession`. -/
def dropSupersession (m : MemoryBank) (guild user oldFact : String) : MemoryBank :=
  m.modify (selectedKey m guild user) fun row =>
    { row with pendingSupersessions := row.pendingSupersessions.filter (·.oldFact ≠ oldFact) }

/-- `MemoryBank::fact_records`. -/
def factRecords (m : MemoryBank) : List MemoryFact :=
  m.toList.flatMap fun (key, row) =>
    match splitUserKey key with
    | some (guild, user) => row.facts.map fun text => ⟨guild, user, text, row.updatedAt⟩
    | none => []

end MemoryBank

/-! ### Stores -/

/-- A member action that was applied to an image. -/
structure MemberAction where
  proof : MemberProof
  mutation : Mutation
  deriving DecidableEq, Repr

/-- The part of the canonical state that consent is about. -/
structure Payload where
  memory : MemoryBank
  memoryReceipts : BTreeMap String String
  personalMemory : BTreeMap String PersonalMemorySubject
  exposure : ExposureState
  deriving DecidableEq

/-- The state in memory; `canonicalBase` is the digest of the file it was read from. The member
actions it contains are recorded for the statements, latest last: no operation reads them. -/
structure Stores extends Payload where
  canonicalBase : Option String
  actions : List MemberAction
  deriving DecidableEq

/-- `Stores::default`. -/
instance : Inhabited Payload := ⟨⟨∅, ∅, ∅, ⟨0, 0, 0, ∅, []⟩⟩⟩

structure Withdrawal where
  guild : String
  user : String
  epoch : ℕ
  minimumRevision : ℕ
  exposureEpoch : ℕ
  cutoff : ℕ
  requestId : String
  payloadDigest : String
  at_ : ℕ
  deriving DecidableEq, Repr

/-- The journal of the denials: what it names is Off, whatever the canonical state says. -/
structure Marker where
  schema : ℕ
  revision : ℕ
  storeIdentity : String
  withdrawals : BTreeMap String Withdrawal
  activations : BTreeMap String Withdrawal
  checksum : String
  deriving DecidableEq

/-- Digests and sizes. -/
structure Codec where
  /-- `fact_key`: the digest of guild, user and text, each behind its length. -/
  factKey : String → String → String → String
  /-- `request_digest`. -/
  request : SelfAuthorizedFactAction → Mutation → String
  /-- The digest of the canonical file. -/
  image : Payload → String
  checksum : Marker → String
  /-- `identity` of the directory. -/
  identity : String
  /-- The digest of `initial-exposure-v1`. -/
  initialExposure : String
  metadataSize : BTreeMap String PersonalMemorySubject → ExposureState → ℕ
  markerSize : Marker → ℕ

/-- `subject_key`. -/
def subjectKey (guild user : String) : String := guild ++ separator.toString ++ user

/-- `valid_subject_key`. -/
def validSubjectKey (key : String) : Bool :=
  match key.toList.splitOn separator with
  | [guild, user] => validScope (String.ofList guild) && validScope (String.ofList user)
  | _ => false

/-! ### Metadata -/

/-- The checks of `validate_metadata` on one proof. -/
def FactProof.check (p : FactProof) (key digest : String) (s : PersonalMemorySubject) :
    Except MemoryConsentError Unit :=
  ensure (isLowerDigest digest = true ∧ p.factKey = digest ∧ p.member.at_ ≠ 0 ∧
      p.previousRevision ≤ s.revision ∧ p.member.actor = p.member.subject ∧
      subjectKey p.member.guild p.member.subject = key ∧
      (SelfAuthorizedFactAction.new p.member ⟨0, 0, 0⟩).isOk = true) .invalidProof

/-- The checks of `validate_metadata` on one outcome. -/
def CompletedRequest.Sound (r : CompletedRequest) (id : String) (s : PersonalMemorySubject)
    (exposure : ExposureState) : Prop :=
  id ≠ "" ∧ id.utf8ByteSize ≤ 64 ∧ isLowerDigest r.payloadDigest = true ∧ r.at_ ≠ 0 ∧
    r.result.policyVersion = PersonalMemory.policyVersion ∧ r.result.stamp.revision ≤ s.revision ∧
    r.result.stamp.consentEpoch ≤ s.consentEpoch ∧
    r.result.stamp.exposureEpoch ≤ exposure.epoch ∧
    r.result.eligibleFacts + r.result.unverifiedFacts ≤ 100

instance (r : CompletedRequest) (id : String) (s : PersonalMemorySubject)
    (exposure : ExposureState) : Decidable (r.Sound id s exposure) :=
  inferInstanceAs (Decidable (_ ∧ _))

/-- The checks of `validate_metadata` on one subject. -/
def PersonalMemorySubject.check (s : PersonalMemorySubject) (key : String)
    (exposure : ExposureState) : Except MemoryConsentError Unit := do
  ensure (validSubjectKey key = true ∧ s.schema ≤ 1 ∧ s.revision ≠ u64Max ∧
      s.consentEpoch ≠ u64Max ∧
      (s.policyVersion = 0 ∨ s.policyVersion = PersonalMemory.policyVersion) ∧
      s.proofs.size ≤ 100 ∧ s.outcomes.size ≤ 128 ∧
      (s.choice = .on → s.schema = 1 ∧ s.policyVersion = PersonalMemory.policyVersion)) .bounds
  s.proofs.toList.forM fun (digest, p) => p.check key digest s
  ensure (All s.outcomes fun id r => r.Sound id s exposure) .bounds

/-- `validate_metadata`. -/
def validateMetadata (C : Codec) (subjects : BTreeMap String PersonalMemorySubject)
    (exposure : ExposureState) : Except MemoryConsentError Unit := do
  ensure (subjects.size ≤ maxSubjects ∧ exposure.schema ≤ 1 ∧ exposure.epoch ≠ u64Max ∧
      exposure.scopeEpochs.size ≤ maxSubjects ∧ exposure.receipts.length ≤ 128 ∧
      (All exposure.scopeEpochs fun key epoch =>
        validSubjectKey key = true ∧ epoch ≤ exposure.epoch) ∧
      ∀ r ∈ exposure.receipts, isLowerDigest r.requestDigest = true ∧ r.epoch ≤ exposure.epoch ∧
        r.cutoff ≤ exposure.cutoff) .bounds
  ensure (C.metadataSize subjects exposure ≤ maxBytes) .bounds
  subjects.toList.forM fun (key, s) => s.check key exposure

/-- The metadata of a state is valid. -/
def Payload.validate (C : Codec) (p : Payload) : Except MemoryConsentError Unit :=
  validateMetadata C p.personalMemory p.exposure

/-! ### Subjects -/

namespace PersonalMemorySubject

def stamp (s : PersonalMemorySubject) (exposureEpoch : ℕ) : ConsentStamp :=
  ⟨s.revision, s.consentEpoch, exposureEpoch⟩

/-- Every outcome is that of a completed request. -/
def Completed (s : PersonalMemorySubject) : Prop := All s.outcomes fun _ r => r.completed = true

instance (s : PersonalMemorySubject) : Decidable s.Completed :=
  inferInstanceAs (Decidable (All _ _))

/-- The choice is On, for good, under the current policy. -/
def Active (s : PersonalMemorySubject) : Prop :=
  s.activationPending = false ∧ s.Completed ∧ s.schema = 1 ∧ s.choice = .on ∧
    s.policyVersion = PersonalMemory.policyVersion

instance (s : PersonalMemorySubject) : Decidable s.Active := inferInstanceAs (Decidable (_ ∧ _))

/-- The proof stands for the fact of this member. -/
def Vouches (p : FactProof) (key guild user : String) : Prop :=
  p.factKey = key ∧ p.member.actor = user ∧ p.member.subject = user ∧ p.member.guild = guild ∧
    p.member.policyVersion = PersonalMemory.policyVersion ∧ p.member.interactionId ≠ ""

instance (p : FactProof) (key guild user : String) : Decidable (Vouches p key guild user) :=
  inferInstanceAs (Decidable (_ ∧ _))

def eligible (C : Codec) (s : PersonalMemorySubject) (guild user text : String) : Bool :=
  decide s.Active &&
    match s.proofs[C.factKey guild user text]? with
    | some p => decide (Vouches p (C.factKey guild user text) guild user)
    | none => false

def advance (s : PersonalMemorySubject) : Except MemoryConsentError PersonalMemorySubject := do
  let revision ← orErr (checkedAdd s.revision 1) .bounds
  let consentEpoch ← orErr (checkedAdd s.consentEpoch 1) .bounds
  return { s with revision := revision, consentEpoch := consentEpoch }

theorem advance_eq_ok {s s' : PersonalMemorySubject} (h : s.advance = .ok s') :
    s' = { s with revision := s.revision + 1, consentEpoch := s.consentEpoch + 1 } := by
  simp only [advance, bind_eq_ok, orErr_eq_ok, checkedAdd_eq_some, pure_eq_ok] at h
  obtain ⟨r, ⟨rfl, -⟩, c, ⟨rfl, -⟩, rfl⟩ := h
  rfl

end PersonalMemorySubject

/-- The subject of a member, the default one where there is none. -/
def Payload.subject (p : Payload) (guild user : String) : PersonalMemorySubject :=
  p.personalMemory.getD (subjectKey guild user) default

/-- `status`. -/
def status (C : Codec) (p : Payload) (guild user : String) : ConsentStatus :=
  let s := p.subject guild user
  let facts := MemoryBank.facts p.memory guild user
  let eligible := facts.countP fun f => s.eligible C guild user f
  { choice := if s.activationPending ∨ ¬ s.Completed then .off else s.choice
    stamp := s.stamp p.exposure.epoch
    policyVersion := PersonalMemory.policyVersion
    eligibleFacts := eligible
    unverifiedFacts := facts.length - eligible }

/-! ### Permits -/

/-- `MemoryUsePermitSet`, less the digest of the context it is bound to. -/
structure MemoryUsePermitSet where
  exposureEpoch : ℕ
  contributors : BTreeMap String ConsentStamp
  scope : Option String
  deriving DecidableEq

namespace MemoryUsePermitSet

def empty (exposureEpoch : ℕ) : MemoryUsePermitSet := ⟨exposureEpoch, ∅, none⟩

def forSubject (guild user : String) (s : PersonalMemorySubject) (exposureEpoch : ℕ) :
    MemoryUsePermitSet :=
  { empty exposureEpoch with
    scope := some (subjectKey guild user)
    contributors :=
      if s.Active then (∅ : BTreeMap String ConsentStamp).insert (subjectKey guild user)
        (s.stamp exposureEpoch) else ∅ }

def validate (permits : MemoryUsePermitSet) (subjects : BTreeMap String PersonalMemorySubject)
    (exposureEpoch : ℕ) : Bool :=
  permits.exposureEpoch = exposureEpoch &&
    permits.contributors.toList.all fun (key, stamp) =>
      match subjects[key]? with
      | some s => decide (s.Active ∧ s.stamp exposureEpoch = stamp)
      | none => false

end MemoryUsePermitSet

end AbbeyBot.PersonalMemory
