import Mathlib
import AbbeyBot.Library.Threads
import AbbeyBot.PersonalMemory.Mutation

/-! # Commits

A request is prepared under the lock of the state in memory: an Off is in force there at once, before
anything is written. The transaction of the request then runs as a thread, one lock or one file
operation at a time, while other requests are prepared: it makes a candidate of the state, puts a
denial or an activation on the marker, writes the candidate twice, clears the marker and installs the
candidate. An image that was written and not installed is kept as a publication, and the denials that
no candidate has reached yet as runtime denials. -/

namespace AbbeyBot.PersonalMemory

open AbbeyBot.Library.History AbbeyBot.Library.OrderedMap AbbeyBot.Library.Result
open AbbeyBot.Library.Threads AbbeyBot.Library.Word

variable (C : Codec)

/-! ### The state of the process -/

structure RuntimeDenial where
  requestId : String
  stamp : ConsentStamp
  cutoff : ℕ
  deriving DecidableEq, Repr

structure World where
  live : Stores
  blocked : Bool
  publication : Option UninstalledPublication
  denials : BTreeMap String RuntimeDenial
  pending : BTreeMap String String
  disk : Disk
  deriving DecidableEq

structure Request where
  action : SelfAuthorizedFactAction
  mutation : Mutation
  requestId : String
  deriving DecidableEq, Repr

namespace Request

def guild (r : Request) : String := r.action.proof.guild

def user (r : Request) : String := r.action.proof.subject

def key (r : Request) : String := r.action.key

def digest (r : Request) : String := C.request r.action r.mutation

/-- `pending_key`. -/
def pendingKey (r : Request) : String := r.key ++ separator.toString ++ r.requestId

def isOff (r : Request) : Bool := r.mutation = .choice .off

def isOn (r : Request) : Bool := r.mutation = .choice .on

end Request

/-! ### Use -/

namespace World

/-- `personal_memory_permits`. -/
def permits (w : World) (guild user : String) : MemoryUsePermitSet :=
  if w.blocked then .empty w.live.exposure.epoch
  else .forSubject guild user (w.live.subject guild user) w.live.exposure.epoch

/-- `validate_personal_memory_permits`. -/
def validates (w : World) (permits : MemoryUsePermitSet) : Bool :=
  !w.blocked && permits.validate w.live.personalMemory w.live.exposure.epoch

/-- The facts that `context_for` puts under a permit. -/
def usedFacts (w : World) (guild user : String) : List String :=
  (MemoryBank.facts w.live.memory guild user).filter fun text =>
    !w.blocked && match w.live.personalMemory[subjectKey guild user]? with
      | some s => s.eligible C guild user text
      | none => false

/-! ### Preparation -/

def setSubject (w : World) (key : String) (s : PersonalMemorySubject) : World :=
  { w with live := w.live.setSubject key s }

/-- The subject is Off at once; its counters advance if they can. -/
def turnOff (w : World) (key : String) (s : PersonalMemorySubject) :
    World × Except MemoryConsentError Unit :=
  let s := { s with choice := .off, activationPending := false }
  match s.advance with
  | .ok s => (w.setSubject key s, .ok ())
  | .error e => (w.setSubject key s, .error e)

/-- The exposure epoch is raised, with the cutoff. -/
def expose (w : World) (cutoff : ℕ) : Except MemoryConsentError World := do
  let epoch ← orErr (checkedAdd w.live.exposure.epoch 1) .bounds
  return { w with live := { w.live with
    exposure := { w.live.exposure with epoch := epoch, cutoff := cutoff } } }

/-- A request is refused, answered from its outcome, joined to the same one under way, or queued for
a transaction; `fenced` tells that it is an Off, which is in force from now on. -/
inductive Preparation where
  | refused (e : MemoryConsentError)
  | answered (result : ConsentStatus)
  | joined
  | queued (allowed : ConsentStamp) (fenced : Bool)
  deriving DecidableEq, Repr

/-- The subject is Off at once, if there is one. -/
def turnOffKnown (w : World) (key : String) : World × Except MemoryConsentError Unit :=
  match w.live.personalMemory[key]? with
  | some s => w.turnOff key s
  | none => (w, .ok ())

/-- An Off for which the table of requests has no room is in force too. -/
def refuseFull (w : World) (r : Request) (now : ℕ) : Preparation × World :=
  if r.isOff = false then (.refused .bounds, w)
  else match validateAction r.action now with
  | .error e => (.refused e, w)
  | .ok () =>
    if (status C w.live.toPayload r.guild r.user).stamp ≠ r.action.expected then
      (.refused .stale, w)
    else
      let w := { w with blocked := true }
      match w.turnOffKnown r.key with
      | (w, .error e) => (.refused e, w)
      | (w, .ok ()) => match w.expose w.live.exposure.cutoff with
        | .error e => (.refused e, w)
        | .ok w => (.refused .bounds, w)

/-- The immediate fence of an Off. -/
def fence (w : World) (r : Request) (now : ℕ) : Preparation × World :=
  match validateAction r.action now with
  | .error e => (.refused e, w)
  | .ok () =>
    let w := { w with blocked := true }
    if r.key ∉ w.live.personalMemory ∧ maxSubjects ≤ w.live.personalMemory.size then
      (.refused .bounds, w)
    else match w.turnOff r.key (w.live.personalMemory.getD r.key default) with
    | (w, .error e) => (.refused e, w)
    | (w, .ok ()) => match w.expose (max w.live.exposure.cutoff (max now 1)) with
      | .error e => (.refused e, w)
      | .ok w =>
        let allowed := (status C w.live.toPayload r.guild r.user).stamp
        (.queued allowed true, { w with
          denials := w.denials.insert r.key ⟨r.requestId, allowed, w.live.exposure.cutoff⟩
          pending := w.pending.insert r.pendingKey (r.digest C) })

/-- The outcome of the request in memory. -/
def outcome (w : World) (r : Request) : Option CompletedRequest := do
  let s ← w.live.personalMemory[r.key]?
  s.outcomes[r.requestId]?

/-- The first request of its kind is queued. -/
def enqueue (w : World) (r : Request) (now : ℕ) : Preparation × World :=
  if (∃ record ∈ w.outcome r, record.payloadDigest ≠ r.digest C) then (.refused .requestConflict, w)
  else if (status C w.live.toPayload r.guild r.user).stamp = r.action.expected ∧ r.isOff = true then
    w.fence C r now
  else (.queued r.action.expected false,
    { w with pending := w.pending.insert r.pendingKey (r.digest C) })

/-- `commit_personal_request`, up to the transaction. -/
def prepare (w : World) (r : Request) (now : ℕ) : Preparation × World :=
  if r.requestId = "" ∨ 64 < r.requestId.utf8ByteSize then (.refused .bounds, w)
  else match (w.outcome r).filter fun record => record.completed with
  | some record =>
    if record.payloadDigest = r.digest C then (.answered record.result, w)
    else (.refused .requestConflict, w)
  | none => match w.pending[r.pendingKey]? with
    | some digest => if digest = r.digest C then (.joined, w) else (.refused .requestConflict, w)
    | none => if maxSubjects ≤ w.pending.size then w.refuseFull C r now else w.enqueue C r now

/-- `settle_personal_pending`. -/
def settle (w : World) (r : Request) : World := { w with pending := w.pending.erase r.pendingKey }

end World

/-! ### File operations -/

abbrev Transaction (α : Type) := Thread World MemoryConsentError α

/-- `publish_owned`. -/
def publishMarker (marker : Marker) : Transaction Marker := do
  let next ← .read fun w => w.disk.planMarker C marker.revision marker
  .publish .persistence fun w => { w with disk := { w.disk with marker := some next } }
  .read fun w => do
    let read ← Marker.load C w.disk.marker
    ensure (read = next) .persistence
    return read

/-- `persist_canonical_owned` and `exact_readback`: the digest of what was written. -/
def persistCanonical (candidate : Stores) (guild user : String) :
    Transaction (Option String) := do
  .read fun w => (w.disk.checkPersist C candidate).mapError fun _ => .persistence
  .publish .persistence fun w => { w with disk := w.disk.persist candidate }
  .read fun w => do
    ensure (w.disk.canonical = some candidate.toPayload) .persistence
    let disk ← (w.disk.load C).mapError fun _ => .persistence
    ensure (MemoryBank.facts disk.memory guild user = MemoryBank.facts candidate.memory guild user)
      .persistence
    return disk.canonicalBase

/-- `qualify_personal_projection`. -/
def qualifyProjection (candidate : Stores) : Transaction Unit := do
  let facts := MemoryBank.factRecords candidate.memory
  .publish .persistence fun w => { w with disk := { w.disk with projection := facts } }
  .read fun w => ensure (w.disk.projection = facts) .persistence

/-! ### Publication and installation -/

/-- Which entries of the marker a publication retires: all of them, or those of the subject. -/
inductive MarkerRetirement where
  | replay
  | subject (off on : Bool) (allowed : ConsentStamp)
  deriving DecidableEq, Repr

/-- The candidate without the activation that is retired. -/
def MarkerRetirement.activate (retirement : MarkerRetirement) (candidate : Stores) (key : String) :
    Except MemoryConsentError Stores :=
  match retirement with
  | .replay => .ok candidate
  | .subject .. => do
    let s ← orErr candidate.personalMemory[key]? .persistence
    return candidate.setSubject key { s with activationPending := false }

/-- The end of `publish_personal_candidate`. -/
def retireMarker (r : Request) (candidate : Stores) (marker : Marker) :
    MarkerRetirement → Transaction Marker
  | .replay => do
    .lift (verifyMinima candidate marker)
    if marker.Clear then pure marker else publishMarker C marker.cleared
  | .subject off on allowed => do
    .lift (if off then verifyMinima candidate marker else .ok ())
    .read fun w => ensure ((status C w.live.toPayload r.guild r.user).stamp = allowed) .stale
    let marker :=
      if off then { marker with withdrawals := marker.withdrawals.erase r.key } else marker
    if off || on then
      publishMarker C { marker with activations := marker.activations.erase r.key }
    else pure marker

/-- One image is written, and known as uninstalled. -/
def publishImage (expected candidate : Stores) (r : Request) : Transaction Stores := do
  let base ← persistCanonical C candidate r.guild r.user
  let candidate := { candidate with canonicalBase := base }
  .update fun w => .ok { w with publication := some ⟨expected, base⟩ }
  return candidate

/-- `publish_personal_candidate`: the candidate with its completed outcomes, and the marker. -/
def publishCandidate (r : Request) (expected candidate : Stores) (marker : Marker)
    (retirement : MarkerRetirement) : Transaction (Stores × Marker) := do
  .lift (candidate.validate C)
  let candidate ← publishImage C expected candidate r
  qualifyProjection candidate
  let candidate ← .lift (retirement.activate candidate r.key)
  let candidate ← publishImage C expected candidate.complete r
  let marker ← retireMarker C r candidate marker retirement
  return (candidate, marker)

/-- The candidate has reached the denial. -/
def RuntimeDenial.Retired (denial : RuntimeDenial) (key : String) (candidate : Stores) : Prop :=
  ∃ s ∈ candidate.personalMemory[key]?, s.choice = .off ∧ s.activationPending = false ∧
    denial.stamp.revision ≤ s.revision ∧ denial.stamp.consentEpoch ≤ s.consentEpoch ∧
    denial.stamp.exposureEpoch ≤ candidate.exposure.epoch ∧ denial.cutoff ≤ candidate.exposure.cutoff

instance (denial : RuntimeDenial) (key : String) (candidate : Stores) :
    Decidable (denial.Retired key candidate) := inferInstanceAs (Decidable (∃ s ∈ _, _))

/-- `install_personal_candidate`. -/
def World.install (w : World) (candidate expected : Stores) (clearBarrier : Bool) :
    Except MemoryConsentError World := do
  ensure (w.live.personalMemory = expected.personalMemory ∧ w.live.exposure = expected.exposure ∧
    w.live.exposure.epoch ≤ candidate.exposure.epoch ∧
    w.live.exposure.cutoff ≤ candidate.exposure.cutoff) .stale
  let denials := w.denials.filter fun key denial => !decide (denial.Retired key candidate)
  return { w with
    live := { candidate with memory := installFactRows w.live.memory candidate.memory }
    denials := denials
    publication := none
    blocked := if clearBarrier && denials.isEmpty then false else w.blocked }

/-- `publish_personal_replay`. -/
def publishReplay (r : Request) (expected candidate : Stores) (marker : Marker) :
    Transaction Unit := do
  let (candidate, _) ← publishCandidate C r expected candidate marker .replay
  .update fun w => w.install candidate expected true

/-! ### Replays -/

/-- What the files know of the request. -/
structure Trace where
  existing : Option CompletedRequest
  denial : Option Withdrawal
  activation : Option Withdrawal
  deriving DecidableEq

/-- The outcome and the entries of the marker under the id of the request. -/
def Request.trace (r : Request) (disk : Stores) (marker : Marker) : Trace where
  existing := disk.personalMemory[r.key]?.bind fun s => s.outcomes[r.requestId]?
  denial := marker.withdrawals[r.key]?.filter fun w => w.requestId = r.requestId
  activation := marker.activations[r.key]?.filter fun w => w.requestId = r.requestId

/-- The request was here before. -/
def Trace.isReplay (t : Trace) : Bool := t.existing.isSome || t.denial.isSome || t.activation.isSome

/-- What is known was made by this very request. -/
def Trace.Agrees (t : Trace) (digest : String) : Prop :=
  (∀ r ∈ t.existing, r.payloadDigest = digest) ∧ (∀ w ∈ t.denial, w.payloadDigest = digest) ∧
    ∀ w ∈ t.activation, w.payloadDigest = digest

instance (t : Trace) (digest : String) : Decidable (t.Agrees digest) :=
  inferInstanceAs (Decidable (_ ∧ _))

/-- `has_other_denial`. -/
def World.hasOtherDenial (w : World) (r : Request) : Bool :=
  w.denials.toList.any fun (scope, denial) => scope ≠ r.key || denial.requestId ≠ r.requestId

/-- The state a replay goes on from: the publication that is known, or the file. -/
def Request.repair (r : Request) (live disk : Stores) :
    Option UninstalledPublication → Except MemoryConsentError Stores
  | some known => do
    ensure (known.Matches live disk) .stale
    known.rebase C live disk
  | none =>
    if live.canonicalBase ≠ disk.canonicalBase ∧ memoryRows live ≠ memoryRows disk then do
      let intended ← (live.openSubject r.key).applyMutation C r.action r.mutation
      ensure (memoryRows intended = memoryRows disk) .stale
      return disk
    else .ok disk

/-- A replay without an outcome gets one, which only an Off may. -/
def Request.readmit (r : Request) (repaired : Stores) : Except MemoryConsentError Stores := do
  if (∃ s ∈ repaired.personalMemory[r.key]?, r.requestId ∈ s.outcomes) then return repaired
  else do
    ensure (r.isOff = true) .blocked
    let s ← orErr repaired.personalMemory[r.key]? .persistence
    ensure (s.outcomes.size < 128) .bounds
    let record : CompletedRequest :=
      ⟨false, r.digest C, r.action.proof.at_, status C repaired.toPayload r.guild r.user⟩
    return repaired.setSubject r.key { s with outcomes := s.outcomes.insert r.requestId record }

/-- The result of the request in a state. -/
def Request.result (r : Request) (stores : Stores) : Except MemoryConsentError ConsentStatus := do
  let s ← orErr stores.personalMemory[r.key]? .persistence
  let record ← orErr s.outcomes[r.requestId]? .persistence
  return record.result

/-- The transaction of a request that was here before. -/
def replay (r : Request) (disk : Stores) (marker : Marker) : Transaction ConsentStatus := do
  let trace := r.trace disk marker
  .update fun w => .ok { w with blocked := true }
  .lift (ensure (trace.Agrees (r.digest C)) .requestConflict)
  let live ← .read fun w => .ok w.live
  .read fun w => ensure (w.hasOtherDenial r = false) .stale
  let known ← .read fun w => .ok w.publication
  let repaired ← .lift (r.repair C live disk known)
  let (repaired, _) ← .lift (foldDenials C repaired marker)
  if trace.activation.isSome ∨ (r.isOn = true ∧ trace.denial.isSome) then do
    publishReplay C r live repaired marker
    .lift (.error .blocked)
  else do
    let repaired ← .lift (r.readmit C repaired)
    let result ← .lift (r.result repaired)
    publishReplay C r live repaired marker
    return result

/-! ### First transactions -/

/-- The readings of the clock in a transaction. -/
structure Clock where
  check : ℕ
  conflict : ℕ
  cutoff : ℕ
  record : ℕ

/-- The outcomes with room for one more: the oldest is dropped. -/
def PersonalMemorySubject.dropOldest (s : PersonalMemorySubject) : BTreeMap String CompletedRequest :=
  if 128 ≤ s.outcomes.size then
    let oldest := s.outcomes.toList.foldl (fun best row => match best with
      | none => some row
      | some b => if row.2.at_ < b.2.at_ then some row else some b) none
    match oldest with
    | some row => s.outcomes.erase row.1
    | none => s.outcomes
  else s.outcomes

/-- The exposure after a change to the subject. -/
def ExposureState.record (e : ExposureState) (key digest : String) (now : ℕ) :
    Except MemoryConsentError ExposureState := do
  let epoch ← orErr (checkedAdd e.epoch 1) .bounds
  let cutoff := max e.cutoff (max now 1)
  ensure (key ∈ e.scopeEpochs ∨ e.scopeEpochs.size < maxSubjects) .bounds
  let receipts := e.receipts ++ [⟨epoch, cutoff, digest⟩]
  return ⟨1, epoch, cutoff, e.scopeEpochs.insert key epoch,
    if 128 < receipts.length then receipts.drop 1 else receipts⟩

/-- The candidate of the request, and its result. -/
def Request.candidate (r : Request) (base : Stores) (clock : Clock) :
    Except MemoryConsentError (Stores × ConsentStatus) := do
  let applied ← (base.openSubject r.key).applyMutation C r.action r.mutation
  let s ← orErr applied.personalMemory[r.key]? .persistence
  let s ← { s with schema := 1, policyVersion := policyVersion }.advance
  let exposure ← applied.exposure.record r.key (r.digest C) clock.cutoff
  let next := { applied.setSubject r.key s with exposure := exposure }
  let result := status C next.toPayload r.guild r.user
  let record : CompletedRequest := ⟨false, r.digest C, clock.record, result⟩
  let next := next.setSubject r.key { s with outcomes := s.dropOldest.insert r.requestId record }
  next.validate C
  return (next, result)

/-- What the marker says of the request. -/
def Request.withdrawal (r : Request) (candidate : Stores) (result : ConsentStatus) :
    Except MemoryConsentError Withdrawal := do
  let s ← orErr candidate.personalMemory[r.key]? .persistence
  return ⟨r.guild, r.user, s.consentEpoch, result.stamp.revision, result.stamp.exposureEpoch,
    candidate.exposure.cutoff, r.requestId, r.digest C, r.action.proof.at_⟩

/-- The candidate with the outcome of an Off as it is after its denial. -/
def Request.answer (r : Request) (candidate : Stores) :
    Except MemoryConsentError (Stores × ConsentStatus) := do
  let result := status C candidate.toPayload r.guild r.user
  let s ← orErr candidate.personalMemory[r.key]? .persistence
  let record ← orErr s.outcomes[r.requestId]? .persistence
  return (candidate.setSubject r.key { s with
    outcomes := s.outcomes.insert r.requestId { record with result := result } }, result)

/-- The denial or the activation is on the marker before the canonical state is written. -/
def announce (r : Request) (candidate : Stores) (marker : Marker) (result : ConsentStatus)
    (w : Withdrawal) : Transaction (Stores × Marker × ConsentStatus) :=
  if r.isOff then do
    let marker ← .lift (addWithdrawal marker r.guild r.user w)
    let marker ← publishMarker C marker
    let (candidate, _) ← .lift (foldDenials C candidate marker)
    let (candidate, result) ← .lift (r.answer C candidate)
    return (candidate, marker, result)
  else if r.isOn then do
    .lift (ensure (marker.withdrawals.size + marker.activations.size < maxSubjects) .bounds)
    let marker ← publishMarker C { marker with activations := marker.activations.insert r.key w }
    let s ← .lift (orErr candidate.personalMemory[r.key]? .persistence)
    return (candidate.setSubject r.key { s with activationPending := true }, marker, result)
  else return (candidate, marker, result)

/-- An Off whose state is not the one that was written leaves its denial on the marker. -/
def refuseStale (r : Request) (candidate : Stores) (allowed : ConsentStamp) (marker : Marker)
    (clock : Clock) : Transaction Stores := do
  if r.isOff then
    let marker ← .lift (addWithdrawal marker r.guild r.user
      ⟨r.guild, r.user, max allowed.consentEpoch 1, max allowed.revision 1,
        max allowed.exposureEpoch 1, max candidate.exposure.cutoff (max clock.conflict 1),
        r.requestId, r.digest C, r.action.proof.at_⟩)
    let _ ← publishMarker C marker
  .lift (.error .stale)

/-- The state the candidate is made from: the one in memory, where that is the one that was written,
or for an Off the one in memory with the known publication merged in. -/
def rebaseLive (r : Request) (live disk : Stores) (allowed : ConsentStamp) (marker : Marker)
    (clock : Clock) : Transaction Stores :=
  if disk.canonicalBase = live.canonicalBase then pure live
  else do
    let known ← .read fun w => .ok w.publication
    match known.filter fun known => decide (known.Matches live disk) with
    | some known =>
      if r.isOff then .lift (known.rebase C live disk)
      else refuseStale C r live allowed marker clock
    | none => refuseStale C r live allowed marker clock

/-- Any other request waits until no denial is left. -/
def checkBarrier (r : Request) (marker : Marker) : Transaction Unit :=
  if r.isOff then pure ()
  else do
    .lift (ensure marker.Clear .blocked)
    .read fun w => ensure (w.denials.isEmpty = true) .blocked

/-- The publication of a candidate and its installation. -/
def publishInstall (r : Request) (live candidate : Stores) (marker : Marker)
    (allowed : ConsentStamp) : Transaction (Stores × Marker) := do
  let (candidate, marker) ← publishCandidate C r live candidate marker
    (.subject r.isOff r.isOn allowed)
  .update fun w => w.install candidate live false
  return (candidate, marker)

/-- Where the publication failed, a denial is on the marker for an On as for an Off. -/
def denyFailed (r : Request) (w : Withdrawal) (e : MemoryConsentError) :
    Transaction ConsentStatus := do
  .update fun w => .ok { w with blocked := true }
  if r.isOn || r.isOff then
    let fresh ← .read fun w => Marker.load C w.disk.marker
    let fresh ← .lift (addWithdrawal fresh r.guild r.user w)
    let _ ← publishMarker C fresh
  .lift (.error e)

/-- The barrier falls when no denial is left and the candidate is in memory. -/
def lowerBarrier (candidate : Stores) (marker : Marker) : Transaction Unit :=
  if marker.Clear then
    .update fun w => .ok (if w.live.exposure.epoch = candidate.exposure.epoch ∧
        w.denials.isEmpty = true then { w with blocked := false } else w)
  else pure ()

/-- The transaction of a request that was not here before. -/
def commit (r : Request) (allowed : ConsentStamp) (clock : Clock) (disk : Stores) (marker : Marker) :
    Transaction ConsentStatus := do
  .lift (validateAction r.action clock.check)
  let live ← .read fun w => do
    ensure ((status C w.live.toPayload r.guild r.user).stamp = allowed) .stale
    return w.live
  let base ← rebaseLive C r live disk allowed marker clock
  .lift (base.validate C)
  .lift (ensure (r.key ∈ base.personalMemory ∨ base.personalMemory.size < maxSubjects) .bounds)
  checkBarrier r marker
  let (candidate, result) ← .lift (r.candidate C base clock)
  let w ← .lift (r.withdrawal C candidate result)
  let (candidate, marker, result) ← announce C r candidate marker result w
  .lift (candidate.validate C)
  let publication ← Thread.attempt (publishInstall C r live candidate marker allowed)
  match publication with
  | .error e => denyFailed C r w e
  | .ok (candidate, marker) => do
    lowerBarrier candidate marker
    return result

/-- `personal_memory_transaction`. -/
def transaction (r : Request) (allowed : ConsentStamp) (clock : Clock) :
    Transaction ConsentStatus := do
  let marker ← .read fun w => Marker.load C w.disk.marker
  let disk ← .read fun w => (w.disk.load C).mapError fun _ => .persistence
  if (r.trace disk marker).isReplay then replay C r disk marker
  else commit C r allowed clock disk marker

/-! ### Runs -/

/-- The process: requests that were prepared wait for the one transaction that runs. -/
structure Process where
  world : World
  waiting : List (Request × ConsentStamp)
  running : Option (Request × Transaction ConsentStatus)

inductive Op where
  /-- A request comes in. -/
  | request (r : Request) (now : ℕ)
  /-- The transaction of a waiting request starts. -/
  | start (i : ℕ) (clock : Clock)
  /-- A waiting request is given up. -/
  | drop (i : ℕ)
  /-- The transaction takes one step. -/
  | tick (io : Io)

inductive Output where
  | prepared (p : World.Preparation)
  | finished (result : Except MemoryConsentError ConsentStatus)
  | silent

/-- **The step function** of the process. -/
def Process.step (p : Process) : Op → Output × Process
  | .request r now =>
    let (preparation, world) := p.world.prepare C r now
    (.prepared preparation, { p with
      world := world
      waiting := match preparation with
        | .queued allowed _ => p.waiting ++ [(r, allowed)]
        | _ => p.waiting })
  | .start i clock => match p.running, p.waiting[i]? with
    | none, some (r, allowed) => (.silent, { p with
      waiting := p.waiting.eraseIdx i
      running := some (r, transaction C r allowed clock) })
    | _, _ => (.silent, p)
  | .drop i => match p.waiting[i]? with
    | some (r, _) => (.finished (.error .persistence),
      { p with world := p.world.settle r, waiting := p.waiting.eraseIdx i })
    | none => (.silent, p)
  | .tick io => match p.running with
    | none => (.silent, p)
    | some (r, .ret result) =>
      (.finished result, { p with world := p.world.settle r, running := none })
    | some (r, .step next write) =>
      (.silent, { p with
        world := write io p.world
        running := some (r, next io p.world) })

end AbbeyBot.PersonalMemory
