import Mathlib
import AbbeyBot.Library.Durable
import AbbeyBot.Library.History
import AbbeyBot.PersonalMemory.Denial

/-! # Recovery

The canonical state, the marker and the projection of the facts are three files. At a start
`recoverOwned` folds the denials of the marker into the canonical state, takes activations back that
were begun and not finished, and clears the marker once the state is written. A subject is `Guarded`
while the marker names it or the canonical state has it Off: no step of the recovery, and no crash
between two steps, ends that. -/

namespace AbbeyBot.PersonalMemory

open AbbeyBot.Library.Durable AbbeyBot.Library.History AbbeyBot.Library.OrderedMap
open AbbeyBot.Library.Result AbbeyBot.Library.Word

variable (C : Codec)

/-! ### Files -/

/-- The three files; the canonical one may not be there yet. The member actions that the canonical
state contains are recorded for the statements. -/
structure Disk where
  canonical : Option Payload
  actions : List MemberAction
  marker : Option Marker
  projection : List MemoryFact
  deriving DecidableEq

/-- The payload of the canonical file. -/
def Disk.payload (d : Disk) : Payload := d.canonical.getD default

/-- `canonical_base` of the file that is there. -/
def Disk.base (d : Disk) : Option String := d.canonical.map C.image

/-- `Stores::load`. -/
def Disk.load (d : Disk) : Except MemoryConsentError Stores :=
  match d.canonical with
  | none => .ok { (default : Payload) with canonicalBase := none, actions := d.actions }
  | some p => do
    p.validate C
    return { p with canonicalBase := some (C.image p), actions := d.actions }

/-- The files with the canonical state. -/
def Disk.persist (d : Disk) (stores : Stores) : Disk :=
  { d with canonical := some stores.toPayload, actions := stores.actions }

/-- The checks of `persist_canonical_owned`. -/
def Disk.checkPersist (d : Disk) (stores : Stores) : Except MemoryConsentError Unit := do
  stores.validate C
  let disk ← d.load C
  ensure (disk.canonicalBase = stores.canonicalBase) .persistence

/-- The marker that `publish_owned` is about to write. -/
def Disk.planMarker (d : Disk) (expected : ℕ) (marker : Marker) :
    Except MemoryConsentError Marker := do
  let current ← Marker.load C d.marker
  ensure (current.revision = expected) .stale
  marker.validate C
  let revision ← orErr (checkedAdd expected 1) .bounds
  let marker := { marker with revision := revision }
  let marker := { marker with checksum := marker.sum C }
  ensure (C.markerSize marker ≤ maxBytes) .bounds
  return marker

/-- A computation of the source that may refuse. -/
def consent {α : Type} (r : Except MemoryConsentError α) : Program Disk α :=
  attempt (r.mapError MemoryConsentError.message)

/-- `publish_owned`, with its readback. -/
def publishOwned (io : Io) (expected : ℕ) (marker : Marker) : Program Disk Marker := do
  let d ← get
  let next ← consent (d.planMarker C expected marker)
  publish io fun d => { d with marker := some next }
  let d ← get
  let read ← consent (Marker.load C d.marker)
  consent (ensure (read = next) .persistence)
  return read

/-- `persist_canonical_owned`. -/
def persistCanonicalOwned (io : Io) (stores : Stores) : Program Disk Unit := do
  let d ← get
  consent (d.checkPersist C stores)
  publish io fun d => d.persist stores

/-! ### The state that is recovered -/

/-- An activation that was begun and not finished is taken back. -/
def PersonalMemorySubject.abandon (s : PersonalMemorySubject) :
    Except MemoryConsentError PersonalMemorySubject :=
  if s.activationPending = true then
    PersonalMemorySubject.advance { s with
      outcomes := s.outcomes.filter fun _ r =>
        !(r.result.stamp.revision = s.revision && r.result.choice = .on)
      choice := .off
      activationPending := false }
  else .ok s

/-- Some activation was begun and not finished. -/
def Payload.Unresolved (p : Payload) : Prop :=
  ¬ All p.personalMemory fun _ s => s.activationPending = false

instance (p : Payload) : Decidable p.Unresolved := inferInstanceAs (Decidable (¬ _))

/-- The loop of `recover_owned` over the subjects, and the exposure after it. -/
def Stores.resolve (stores : Stores) (now : ℕ) : Except MemoryConsentError Stores := do
  let subjects ← mapRows PersonalMemorySubject.abandon stores.personalMemory
  let stores' := { stores with personalMemory := subjects }
  if stores.Unresolved then do
    let epoch ← orErr (checkedAdd stores.exposure.epoch 1) .bounds
    return { stores' with exposure := { stores.exposure with
      epoch := epoch
      cutoff := max stores.exposure.cutoff (max now 1) } }
  else return stores'

/-- The exposure state is set up once. -/
def Stores.initialize (stores : Stores) (now : ℕ) : Except MemoryConsentError Stores :=
  if stores.exposure.schema = 0 then do
    let epoch ← orErr (checkedAdd stores.exposure.epoch 1) .bounds
    return { stores with exposure := { stores.exposure with
      schema := 1
      epoch := epoch
      cutoff := max now 1
      receipts := stores.exposure.receipts ++ [⟨epoch, max now 1, C.initialExposure⟩] } }
  else .ok stores

/-- Every outcome is marked as completed. -/
def Stores.complete (stores : Stores) : Stores :=
  { stores with personalMemory := stores.personalMemory.map fun _ s =>
      { s with outcomes := s.outcomes.map fun _ r => { r with completed := true } } }

/-- Every request with an outcome is completed. -/
def Payload.Completed (p : Payload) : Prop := All p.personalMemory fun _ s => s.Completed

instance (p : Payload) : Decidable p.Completed := inferInstanceAs (Decidable (All _ _))

/-- What `recover_owned` makes of the state before the outcomes, and whether it changed. -/
def Stores.reconcile (stores : Stores) (marker : Marker) (now : ℕ) :
    Except MemoryConsentError (Stores × Bool) := do
  let (folded, denied) ← foldDenials C stores marker
  let resolved ← folded.resolve now
  let current ← resolved.initialize C now
  return (current, denied || decide folded.Unresolved || decide (resolved.exposure.schema = 0))

/-- What happens to the writes of a recovery. -/
structure RecoverIo where
  projection : Io
  canonical : Io
  marker : Io

/-- The projection of the facts is rebuilt, after which the requests are completed. -/
def qualify (io : Io) (current : Stores) : Program Disk Stores :=
  if current.Completed then pure current else do
    publish io fun d => { d with projection := MemoryBank.factRecords current.memory }
    let d ← get
    consent (ensure (d.projection = MemoryBank.factRecords current.memory) .persistence)
    return current.complete

/-- The recovered state is written, read back, and the marker cleared. -/
def retire (io : RecoverIo) (current : Stores) (marker : Marker) : Program Disk Unit := do
  persistCanonicalOwned C io.canonical current
  let d ← get
  let disk ← consent (d.load C)
  consent (ensure (disk.toPayload = current.toPayload) .persistence)
  consent (verifyMinima disk marker)
  if marker.Clear then pure () else do
    let _ ← publishOwned C io.marker marker.revision marker.cleared

/-- `recover_owned`, where `now` is the clock. -/
def recoverOwned (now : ℕ) (io : RecoverIo) : Program Disk Stores := do
  let d ← get
  let loaded ← consent (d.load C)
  consent (loaded.validate C)
  let marker ← consent (Marker.load C d.marker)
  let (reconciled, changed) ← consent (loaded.reconcile C marker now)
  let current ← qualify io.projection reconciled
  consent (current.validate C)
  if changed = true ∨ ¬ reconciled.Completed then do
    retire C io current marker
    let d ← get
    return { current with canonicalBase := d.base C }
  else return current

/-! ### What the recovery keeps -/

variable {C} {d : Disk}

/-- The subject is Off, with no activation pending. -/
def Payload.Denied (p : Payload) (key : String) : Prop :=
  ∃ s ∈ p.personalMemory[key]?, s.choice = .off ∧ s.activationPending = false

instance (p : Payload) (key : String) : Decidable (p.Denied key) :=
  inferInstanceAs (Decidable (∃ s ∈ _, _))

/-- The durable marker names the subject. -/
def Disk.Names (d : Disk) (key : String) : Prop := ∃ m ∈ d.marker, m.Names key

/-- The marker names the subject, or the canonical state has it Off. -/
def Disk.Guarded (d : Disk) (key : String) : Prop := d.Names key ∨ d.payload.Denied key

/-- Denials stay, and where activations are pending they were before. -/
def Payload.Keeps (p p' : Payload) : Prop := ∀ key, p.Denied key → p'.Denied key

theorem Stores.Denies.keeps {stores stores' : Stores} (h : stores.Denies stores') :
    stores.Keeps stores'.toPayload := by
  rintro key ⟨s, hs, hoff, hidle⟩
  obtain ⟨s', hs'⟩ := mem_iff.mp (h.kept key (mem_iff.mpr ⟨s, hs⟩))
  have hsubject := h.subject key
  have hget : stores.personalMemory.getD key default = s := by
    rw [Std.ExtTreeMap.getD_eq_getD_getElem?, hs, Option.getD_some]
  have hget' : stores'.personalMemory.getD key default = s' := by
    rw [Std.ExtTreeMap.getD_eq_getD_getElem?, hs', Option.getD_some]
  rw [hget, hget'] at hsubject
  refine ⟨s', hs', ?_, ?_⟩
  · cases hchoice : s'.choice with
    | off => rfl
    | on => exact absurd (hsubject.choice hchoice) (by simp [hoff])
  · cases hpending : s'.activationPending with
    | false => rfl
    | true => exact absurd (hsubject.pending hpending) (by simp [hidle])

theorem abandon_eq_ok {s s' : PersonalMemorySubject} (h : s.abandon = .ok s') :
    s'.activationPending = false ∧ (s.choice = .off → s'.choice = .off) ∧
      (s.activationPending = false → s' = s) := by
  unfold PersonalMemorySubject.abandon at h
  split_ifs at h with hp
  · have hs' := PersonalMemorySubject.advance_eq_ok h
    subst hs'
    exact ⟨rfl, fun _ => rfl, fun hidle => by simp [hp] at hidle⟩
  · cases h
    exact ⟨by simpa using hp, id, fun _ => rfl⟩

/-- What the loop over the subjects does to them. -/
theorem resolve_eq_ok {stores stores' : Stores} {now : ℕ} (h : stores.resolve now = .ok stores') :
    stores.Keeps stores'.toPayload ∧ ¬ stores'.Unresolved ∧
      (¬ stores.Unresolved → stores' = stores) := by
  simp only [Stores.resolve, bind_eq_ok] at h
  obtain ⟨subjects, hsubjects, h⟩ := h
  have hrow := mapRows_eq_ok hsubjects
  have hmemory : stores'.personalMemory = subjects := by
    split_ifs at h with hunresolved
    · simp only [bind_eq_ok, pure_eq_ok] at h
      obtain ⟨-, -, rfl⟩ := h
      rfl
    · simp only [pure_eq_ok] at h
      rw [← h]
  refine ⟨?_, ?_, fun hidle => ?_⟩
  · rintro key ⟨s, hs, hoff, hpending⟩
    obtain ⟨s', hs', hkey⟩ := (hrow key).1 s hs
    obtain ⟨hidle, hchoice, -⟩ := abandon_eq_ok hs'
    exact ⟨s', by rw [hmemory]; exact hkey, hchoice hoff, hidle⟩
  · rw [Payload.Unresolved, not_not, all_iff, hmemory]
    intro key s' hs'
    obtain ⟨s, -, hs⟩ := (hrow key).2 s' hs'
    exact (abandon_eq_ok hs).1
  · rw [if_neg hidle] at h
    simp only [pure_eq_ok] at h
    rw [Payload.Unresolved, not_not, all_iff] at hidle
    have hsame : subjects = stores.personalMemory := by
      refine Std.ExtTreeMap.ext_getElem? fun key => ?_
      cases hs : stores.personalMemory[key]? with
      | none =>
        cases hs' : subjects[key]? with
        | none => rfl
        | some s' =>
          obtain ⟨s, hnone, -⟩ := (hrow key).2 s' hs'
          rw [hs] at hnone
          cases hnone
      | some s =>
        obtain ⟨s', hs', hkey⟩ := (hrow key).1 s hs
        rw [hkey, (abandon_eq_ok hs').2.2 (hidle key s hs)]
    rw [← h, hsame]

theorem initialize_eq_ok {stores stores' : Stores} {now : ℕ}
    (h : stores.initialize C now = .ok stores') :
    stores'.personalMemory = stores.personalMemory ∧ stores'.exposure.schema ≠ 0 ∧
      (stores.exposure.schema ≠ 0 → stores' = stores) := by
  unfold Stores.initialize at h
  split_ifs at h with hschema
  · simp only [bind_eq_ok, pure_eq_ok] at h
    obtain ⟨-, -, rfl⟩ := h
    exact ⟨rfl, by simp, fun hne => absurd hschema hne⟩
  · cases h
    exact ⟨rfl, hschema, fun _ => rfl⟩

/-- Nothing is left to be recovered. -/
structure Payload.Quiet (p : Payload) : Prop where
  resolved : ¬ p.Unresolved
  initialized : p.exposure.schema ≠ 0
  completed : p.Completed

theorem keeps_of_eq {p p' : Payload} (h : p'.personalMemory = p.personalMemory) : p.Keeps p' := by
  rintro key ⟨s, hs, hdenied⟩
  exact ⟨s, by rw [h]; exact hs, hdenied⟩

/-- What is made of the state before the outcomes. -/
theorem reconcile_eq_ok {stores stores' : Stores} {marker : Marker} {now : ℕ} {changed : Bool}
    (h : stores.reconcile C marker now = .ok (stores', changed)) :
    stores.Keeps stores'.toPayload ∧ (∀ key, marker.Names key → stores'.Denied key) ∧
      ¬ stores'.Unresolved ∧ stores'.exposure.schema ≠ 0 ∧
      (changed = false → stores' = stores ∧ marker.Clear) := by
  simp only [Stores.reconcile, bind_eq_ok, pure_eq_ok, Prod.exists, Prod.mk.injEq] at h
  obtain ⟨folded, denied, hfold, resolved, hresolve, current, hinit, rfl, rfl⟩ := h
  obtain ⟨hdenies, hsettled, -, rfl⟩ := foldDenials_eq_ok hfold
  obtain ⟨hkeeps, hidle, hsame⟩ := resolve_eq_ok hresolve
  obtain ⟨hmemory, hschema, hkept⟩ := initialize_eq_ok hinit
  have hlast : resolved.Keeps current.toPayload := keeps_of_eq hmemory
  refine ⟨fun key hkey => hlast key (hkeeps key (hdenies.keeps key hkey)), fun key hname => ?_,
    ?_, hschema, fun hchanged => ?_⟩
  · obtain ⟨w, hw⟩ := Marker.names_iff.mp hname
    obtain ⟨s, hs⟩ := hsettled _ hw
    exact hlast key (hkeeps key ⟨s, hs.present, hs.off, hs.idle⟩)
  · rw [Payload.Unresolved, hmemory]
    exact hidle
  · simp only [Bool.or_eq_false_iff, decide_eq_false_iff_not, Bool.not_eq_false'] at hchanged
    obtain ⟨⟨hempty, hresolved⟩, hinitialized⟩ := hchanged
    have hnil : marker.entries = [] := List.isEmpty_iff.mp hempty
    refine ⟨?_, Marker.clear_iff.mpr hnil⟩
    rw [hkept hinitialized, hsame hresolved]
    simp only [foldDenials, hnil, List.foldlM_nil, bind_eq_ok, exists_unit, pure_eq_ok,
      Prod.mk.injEq] at hfold
    obtain ⟨_, rfl, -, rfl, -⟩ := hfold
    rfl

theorem complete_keeps (stores : Stores) : stores.Keeps stores.complete.toPayload := by
  rintro key ⟨s, hs, hoff, hidle⟩
  exact ⟨_, map_eq_some.mpr ⟨s, hs, rfl⟩, hoff, hidle⟩

theorem completed_complete (stores : Stores) : stores.complete.Completed := by
  refine all_iff.mpr fun key s' hs' => ?_
  obtain ⟨s, -, rfl⟩ := map_eq_some.mp hs'
  refine all_iff.mpr fun id r' hr' => ?_
  obtain ⟨r, -, rfl⟩ := map_eq_some.mp hr'
  rfl

theorem unresolved_complete (stores : Stores) : stores.complete.Unresolved ↔ stores.Unresolved := by
  simp only [Payload.Unresolved, not_iff_not, all_iff, Stores.complete]
  constructor
  · intro h key s hs
    exact h key { s with outcomes := s.outcomes.map fun _ r => { r with completed := true } }
      (map_eq_some.mpr ⟨s, hs, rfl⟩)
  · intro h key s' hs'
    obtain ⟨s, hs, rfl⟩ := map_eq_some.mp hs'
    exact h key s hs

/-! ### The writes -/

theorem triple_consent {α β : Type} {r : Except MemoryConsentError α} {f : α → Program Disk β}
    {R : β → Disk → Prop} {E : Disk → Prop} (hE : E d)
    (hf : ∀ a, r = .ok a → Triple (· = d) (f a) R E) : Triple (· = d) (consent r >>= f) R E :=
  .skip hE fun a ha => hf a (mapError_ok_iff.mp ha)

theorem load_eq_ok {stores : Stores} (h : d.load C = .ok stores) :
    stores.toPayload = d.payload ∧ stores.canonicalBase = d.base C ∧ stores.actions = d.actions := by
  unfold Disk.load at h
  unfold Disk.payload Disk.base
  cases hp : d.canonical with
  | none =>
    rw [hp] at h
    cases h
    exact ⟨rfl, rfl, rfl⟩
  | some p =>
    rw [hp] at h
    simp only [bind_eq_ok, exists_unit, pure_eq_ok] at h
    obtain ⟨-, rfl⟩ := h
    exact ⟨rfl, rfl, rfl⟩

theorem loadMarker_eq_ok {m : Marker} (h : Marker.load C d.marker = .ok m) {key : String} :
    d.Names key ↔ m.Names key := by
  cases hm : d.marker with
  | none =>
    rw [hm] at h
    cases h
    constructor
    · rintro ⟨m, hmem, -⟩
      rw [hm] at hmem
      cases hmem
    · intro hname
      rcases hname with hname | hname <;> simp at hname
  | some m' =>
    rw [hm] at h
    simp only [Marker.load, bind_eq_ok, exists_unit, pure_eq_ok] at h
    obtain ⟨-, -, -, rfl⟩ := h
    simp [Disk.Names, hm]

theorem planMarker_eq_ok {expected : ℕ} {marker next : Marker}
    (h : d.planMarker C expected marker = .ok next) :
    next.withdrawals = marker.withdrawals ∧ next.activations = marker.activations := by
  simp only [Disk.planMarker, bind_eq_ok, exists_unit, ensure_eq_ok, orErr_eq_ok, pure_eq_ok] at h
  obtain ⟨-, -, -, -, -, -, -, rfl⟩ := h
  exact ⟨rfl, rfl⟩

theorem triple_publishOwned {io : Io} {expected : ℕ} {marker : Marker} {E : Disk → Prop} (hE : E d)
    (hnew : ∀ m : Marker, m.withdrawals = marker.withdrawals → m.activations = marker.activations →
      E { d with marker := some m }) :
    Triple (· = d) (publishOwned C io expected marker) (fun m d' => d' = { d with marker := some m } ∧
      m.withdrawals = marker.withdrawals ∧ m.activations = marker.activations ∧
      Marker.load C d'.marker = .ok m) E := by
  unfold publishOwned
  refine triple_get fun s hs => ?_
  subst hs
  refine triple_consent hE fun next hnext => ?_
  obtain ⟨hw, ha⟩ := planMarker_eq_ok hnext
  have hwritten := hnew next hw ha
  refine (triple_publish (fun s' hs' => hs' ▸ hE) fun s' hs' => hs' ▸ hwritten).bind fun _ => ?_
  refine triple_get fun s' hs' => ?_
  obtain ⟨s₀, rfl, rfl⟩ := hs'
  refine triple_consent hwritten fun read hread => triple_consent hwritten fun _ heq => ?_
  rw [ensure_eq_ok] at heq
  subst heq
  exact triple_pure fun s' hs' => ⟨hs', hw, ha, by rw [hs']; exact hread⟩

theorem triple_persistCanonicalOwned {io : Io} {stores : Stores} {E : Disk → Prop} (hE : E d)
    (hnew : E (d.persist stores)) :
    Triple (· = d) (persistCanonicalOwned C io stores) (fun _ d' => d' = d.persist stores) E := by
  unfold persistCanonicalOwned
  refine triple_get fun s hs => ?_
  subst hs
  refine triple_consent hE fun _ _ => ?_
  refine (triple_publish (fun s' hs' => hs' ▸ hE) fun s' hs' => hs' ▸ hnew).weaken (fun _ h => h)
    (fun _ s' hs' => ?_) fun _ h => h
  obtain ⟨s₀, rfl, rfl⟩ := hs'
  rfl

/-! ### The run of a recovery -/

theorem triple_qualify {io : Io} {current : Stores} {E : Disk → Prop}
    (hE : ∀ projection, E { d with projection := projection }) :
    Triple (· = d) (qualify io current) (fun next d' => (∃ projection,
      d' = { d with projection := projection } ∧ (current.Completed → d' = d)) ∧
      next.Completed ∧ (current.Completed → next = current) ∧ current.Keeps next.toPayload ∧
      (next.Unresolved ↔ current.Unresolved) ∧ next.exposure = current.exposure) E := by
  have hd : E d := hE d.projection
  unfold qualify
  split_ifs with hcompleted
  · exact triple_pure fun s hs => ⟨⟨d.projection, hs, fun _ => hs⟩, hcompleted, fun _ => rfl,
      fun _ h => h, Iff.rfl, rfl⟩
  · refine (triple_publish (fun s' hs' => hs' ▸ hd) fun s' hs' => hs' ▸ hE _).bind fun _ => ?_
    refine triple_get fun s' hs' => ?_
    obtain ⟨s₀, rfl, rfl⟩ := hs'
    refine triple_consent (hE _) fun _ _ => triple_pure fun s' hs' => ?_
    refine ⟨⟨_, hs', fun h => absurd h hcompleted⟩, completed_complete current,
      fun h => absurd h hcompleted, complete_keeps current, unresolved_complete current, rfl⟩

/-- The marker is cleared once the state that has its denials is written. -/
theorem triple_retire {io : RecoverIo} {current : Stores} {marker : Marker} {E : Disk → Prop}
    (hE : E d) (hnew : ∀ m, E { d.persist current with marker := m })
    (hmarker : Marker.load C d.marker = .ok marker) :
    Triple (· = d) (retire C io current marker) (fun _ d' => ∃ m, d' = { d.persist current with
      marker := m } ∧ ∃ m', Marker.load C d'.marker = .ok m' ∧ m'.Clear) E := by
  have hwritten : E (d.persist current) := hnew (d.persist current).marker
  unfold retire
  refine (triple_persistCanonicalOwned hE hwritten).bind fun _ => triple_get fun s hs => ?_
  subst hs
  refine triple_consent hwritten fun disk _ => triple_consent hwritten fun _ _ =>
    triple_consent hwritten fun _ _ => ?_
  split_ifs with hclear
  · exact triple_pure fun s hs => ⟨_, hs, marker, by rw [hs]; exact hmarker, hclear⟩
  · refine (triple_publishOwned hwritten fun m _ _ => hnew (some m)).bind fun m => ?_
    refine triple_pure fun s hs => ?_
    obtain ⟨rfl, hw, ha, hload⟩ := hs
    refine ⟨_, rfl, m, hload, ?_⟩
    have hcleared := Marker.clear_cleared marker
    unfold Marker.Clear at hcleared ⊢
    rw [hw, ha]
    exact hcleared

/-- Nothing is left for a recovery to do. -/
structure Disk.Recovered (C : Codec) (d : Disk) (stores : Stores) : Prop where
  load : d.load C = .ok stores
  valid : stores.validate C = .ok ()
  marker : ∃ m, Marker.load C d.marker = .ok m ∧ m.Clear
  quiet : stores.Quiet

theorem load_persist {stores : Stores} {m : Option Marker} {projection : List MemoryFact}
    (hvalid : stores.validate C = .ok ()) :
    Disk.load C { d.persist stores with marker := m, projection := projection } =
      .ok { stores with canonicalBase := some (C.image stores.toPayload) } := by
  unfold Disk.load Disk.persist
  simp only
  rw [hvalid]
  rfl

/-- **Recovery.** Wherever it stops, a guarded subject is guarded; where it returns, every guarded
subject is Off, no activation is pending and the marker is clear. -/
theorem triple_recoverOwned (now : ℕ) (io : RecoverIo) :
    Triple (· = d) (recoverOwned C now io) (fun stores d' => d'.Recovered C stores ∧
      ∀ key, d.Guarded key → stores.Denied key) fun d' => ∀ key, d.Guarded key → d'.Guarded key := by
  have hE : ∀ projection, ∀ key, d.Guarded key →
      Disk.Guarded { d with projection := projection } key := fun _ _ h => h
  have hd : ∀ key, d.Guarded key → d.Guarded key := fun _ h => h
  unfold recoverOwned
  refine triple_get fun s hs => ?_
  subst hs
  refine triple_consent hd fun loaded hload => triple_consent hd fun _ hvalid =>
    triple_consent hd fun marker hmarker => triple_consent hd fun ⟨reconciled, changed⟩ hrec => ?_
  obtain ⟨hpayload, hbase, -⟩ := load_eq_ok hload
  obtain ⟨hkeeps, hnamed, hidle, hschema, hsame⟩ := reconcile_eq_ok hrec
  have hguard : ∀ key, s.Guarded key → reconciled.Denied key := fun key h => by
    rcases h with h | h
    · exact hnamed key ((loadMarker_eq_ok hmarker).mp h)
    · exact hkeeps key (hpayload ▸ h)
  refine (triple_qualify hE).bind fun current => ?_
  intro s₁ hs₁
  obtain ⟨⟨projection, rfl, hprojection⟩, hcompleted, hcurrent, hmore, hunresolved, hexposure⟩ := hs₁
  have hquiet : current.Quiet :=
    ⟨fun h => hidle (hunresolved.mp h), by rw [hexposure]; exact hschema, hcompleted⟩
  have hdenied : ∀ key, s.Guarded key → current.Denied key := fun key h => hmore key (hguard key h)
  have hd₁ := hE projection
  refine (triple_consent hd₁ fun _ hcheck => ?_ : Triple _ _ _ _) _ rfl
  by_cases hchanged : changed = true ∨ ¬ reconciled.Completed
  · rw [if_pos hchanged]
    have hwritten : ∀ m key, s.Guarded key → Disk.Guarded
        { Disk.persist { s with projection := projection } current with marker := m } key :=
      fun m key h => .inr (hdenied key h)
    refine (triple_retire (d := { s with projection := projection }) hd₁ hwritten hmarker).bind
      fun _ => triple_get fun s₂ hs₂ => ?_
    obtain ⟨m, rfl, hclear⟩ := hs₂
    refine triple_pure fun s₃ hs₃ => ?_
    subst hs₃
    exact ⟨⟨load_persist hcheck, hcheck, hclear, hquiet⟩, hdenied⟩
  · rw [if_neg hchanged]
    rw [not_or, Bool.not_eq_true, not_not] at hchanged
    obtain ⟨hsame, hclear⟩ := hsame hchanged.1
    have hdone := hprojection hchanged.2
    have hcur := hcurrent hchanged.2
    refine triple_pure fun s₂ hs₂ => ?_
    subst hs₂
    rw [hdone]
    refine ⟨⟨?_, hcheck, ⟨marker, hmarker, hclear⟩, hquiet⟩, hdenied⟩
    rw [hcur, hsame]
    exact hload

theorem consent_bind {α β : Type} {r : Except MemoryConsentError α} {a : α}
    {f : α → Program Disk β} (h : r = .ok a) : (consent r >>= f) d = f a d := by
  subst h
  rfl

theorem get_bind {β : Type} {f : Disk → Program Disk β} : (get >>= f) d = f d d := rfl

/-- A state that is quiet stays as it is. -/
theorem reconcile_quiet {stores : Stores} {marker : Marker} {now : ℕ} (hquiet : stores.Quiet)
    (hvalid : stores.validate C = .ok ()) (hclear : marker.Clear) :
    stores.reconcile C marker now = .ok (stores, false) := by
  have hidle := hquiet.resolved
  have hfold : foldDenials C stores marker = .ok (stores, false) := by
    unfold foldDenials
    rw [Marker.clear_iff.mp hclear, List.foldlM_nil]
    show (stores.validate C >>= fun _ => pure (stores, false)) = _
    rw [hvalid]
    rfl
  have hresolve : stores.resolve now = .ok stores := by
    unfold Stores.resolve
    rw [mapRows_fixed fun key s hs => ?_, ok_bind]
    · dsimp only
      rw [if_neg hidle]
      rfl
    · rw [Payload.Unresolved, not_not, all_iff] at hidle
      unfold PersonalMemorySubject.abandon
      rw [if_neg (by simp [hidle key s hs])]
  unfold Stores.reconcile
  rw [hfold, ok_bind]
  dsimp only
  rw [hresolve, ok_bind, Stores.initialize, if_neg hquiet.initialized, ok_bind]
  simp [hidle, hquiet.initialized, pure, Except.pure]

/-- A recovery that has nothing to do changes nothing. -/
theorem Disk.Recovered.again {stores : Stores} (h : d.Recovered C stores) (now : ℕ)
    (io : RecoverIo) : outcome (recoverOwned C now io) d = (.ok stores, d) := by
  obtain ⟨m, hm, hclear⟩ := h.marker
  have hqualify : qualify io.projection stores = pure stores := if_pos h.quiet.completed
  have hrun : recoverOwned C now io d = .ok stores d := by
    unfold recoverOwned
    rw [get_bind, consent_bind h.load, consent_bind h.valid, consent_bind hm,
      consent_bind (reconcile_quiet h.quiet h.valid hclear)]
    dsimp only
    rw [hqualify, pure_bind, consent_bind h.valid, if_neg (by simp [h.quiet.completed])]
    rfl
  unfold outcome
  rw [hrun]

end AbbeyBot.PersonalMemory
