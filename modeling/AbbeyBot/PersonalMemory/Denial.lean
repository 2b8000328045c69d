import Mathlib
import AbbeyBot.PersonalMemory.Types

/-! # Durable denials

A denial is written to a journal of its own, the marker, before the canonical state. The marker
holds what the canonical state must reach: a member it names is Off there, at or above four minima.
`foldDenials` makes the state reach them. An entry that is met is `Settled`: the fold settles every
entry, and a settled entry is not touched again. -/

namespace AbbeyBot.PersonalMemory

open AbbeyBot.Library.OrderedMap AbbeyBot.Library.Result AbbeyBot.Library.Text
open AbbeyBot.Library.Word

variable {C : Codec}

/-! ### The marker -/

/-- The denials of a marker: first the withdrawals, then the activations. -/
def Marker.entries (m : Marker) : List (String × Withdrawal) :=
  m.withdrawals.toList ++ m.activations.toList

/-- The marker names the subject. -/
def Marker.Names (m : Marker) (key : String) : Prop := key ∈ m.withdrawals ∨ key ∈ m.activations

/-- A marker without entries. -/
def Marker.Clear (m : Marker) : Prop := m.withdrawals.isEmpty = true ∧ m.activations.isEmpty = true

instance (m : Marker) : Decidable m.Clear := inferInstanceAs (Decidable (_ ∧ _))

/-- The marker without its entries. -/
def Marker.cleared (m : Marker) : Marker := { m with withdrawals := ∅, activations := ∅ }

/-- The checks of `validate` on one entry. -/
def Withdrawal.Sound (w : Withdrawal) (key : String) : Prop :=
  validScope w.guild = true ∧ validScope w.user = true ∧ subjectKey w.guild w.user = key ∧
    w.requestId ≠ "" ∧ w.requestId.utf8ByteSize ≤ 64 ∧ isLowerDigest w.payloadDigest = true ∧
    w.epoch ≠ 0 ∧ w.epoch ≠ u64Max ∧ w.minimumRevision ≠ 0 ∧ w.minimumRevision ≠ u64Max ∧
    w.exposureEpoch ≠ 0 ∧ w.exposureEpoch ≠ u64Max ∧ w.cutoff ≠ 0 ∧ w.at_ ≠ 0 ∧ w.at_ ≤ w.cutoff

instance (w : Withdrawal) (key : String) : Decidable (w.Sound key) :=
  inferInstanceAs (Decidable (_ ∧ _))

/-- `validate` of a marker. -/
def Marker.validate (C : Codec) (m : Marker) : Except MemoryConsentError Unit := do
  ensure (m.schema = 1 ∧ m.storeIdentity = C.identity ∧
    m.withdrawals.size + m.activations.size ≤ maxSubjects) .bounds
  ensure (∀ entry ∈ m.entries, entry.2.Sound entry.1) .invalidProof

/-- The checksum of a marker, which leaves the checksum out. -/
def Marker.sum (C : Codec) (m : Marker) : String := C.checksum { m with checksum := "" }

/-- `load` of the marker file. -/
def Marker.load (C : Codec) : Option Marker → Except MemoryConsentError Marker
  | none => .ok ⟨1, 0, C.identity, ∅, ∅, ""⟩
  | some m => do
    ensure (C.markerSize m ≤ maxBytes) .bounds
    m.validate C
    ensure (m.checksum = m.sum C) .persistence
    return m

/-- `add_withdrawal`. -/
def addWithdrawal (marker : Marker) (guild user : String) (w : Withdrawal) :
    Except MemoryConsentError Marker := do
  ensure (w.guild = guild ∧ w.user = user) .invalidProof
  let key := subjectKey guild user
  ensure (key ∈ marker.withdrawals ∨ marker.withdrawals.size < maxSubjects) .bounds
  let w := match marker.withdrawals[key]? with
    | some old => { w with
      epoch := max w.epoch old.epoch
      minimumRevision := max w.minimumRevision old.minimumRevision
      exposureEpoch := max w.exposureEpoch old.exposureEpoch
      cutoff := max w.cutoff old.cutoff }
    | none => w
  return { marker with withdrawals := marker.withdrawals.insert key w }

/-- The outcomes without the one under `id`, if that granted. -/
def PersonalMemorySubject.dropGrant (s : PersonalMemorySubject) (id : String) :
    BTreeMap String CompletedRequest :=
  match s.outcomes[id]? with
  | some r => if r.result.choice = .on then s.outcomes.erase id else s.outcomes
  | none => s.outcomes

/-- What an entry makes of its subject, before the subject advances. -/
def PersonalMemorySubject.deny (s : PersonalMemorySubject) (w : Withdrawal) :
    PersonalMemorySubject :=
  { s with
    choice := .off
    activationPending := false
    outcomes := s.dropGrant w.requestId
    schema := 1
    consentEpoch := max s.consentEpoch w.epoch
    revision := max s.revision w.minimumRevision }

/-- The subject with the denial; it advances when that takes a choice back. -/
def PersonalMemorySubject.fold (s : PersonalMemorySubject) (w : Withdrawal) :
    Except MemoryConsentError PersonalMemorySubject :=
  if s.choice ≠ .off ∨ s.activationPending = true then (s.deny w).advance else .ok (s.deny w)

/-- One entry of `fold_denials`. -/
def foldDenial (stores : Stores) (entry : String × Withdrawal) : Except MemoryConsentError Stores := do
  ensure (entry.1 ∈ stores.personalMemory ∨ stores.personalMemory.size < maxSubjects) .bounds
  let s ← (stores.personalMemory.getD entry.1 default).fold entry.2
  return { stores with
    personalMemory := stores.personalMemory.insert entry.1 s
    exposure := { stores.exposure with
      epoch := max stores.exposure.epoch entry.2.exposureEpoch
      cutoff := max stores.exposure.cutoff entry.2.cutoff } }

/-- `fold_denials`: the state with the denials, and whether there were any. -/
def foldDenials (C : Codec) (stores : Stores) (marker : Marker) :
    Except MemoryConsentError (Stores × Bool) := do
  let stores ← marker.entries.foldlM foldDenial stores
  stores.validate C
  return (stores, !marker.entries.isEmpty)

/-- The state meets an entry of the marker. -/
def Stores.Meets (stores : Stores) (key : String) (w : Withdrawal) : Prop :=
  ∃ s ∈ stores.personalMemory[key]?, s.choice = .off ∧ s.activationPending = false ∧
    w.epoch ≤ s.consentEpoch ∧ w.minimumRevision ≤ s.revision ∧
    w.exposureEpoch ≤ stores.exposure.epoch ∧ w.cutoff ≤ stores.exposure.cutoff

instance (stores : Stores) (key : String) (w : Withdrawal) : Decidable (stores.Meets key w) :=
  inferInstanceAs (Decidable (∃ s ∈ _, _))

/-- `verify_minima`. -/
def verifyMinima (stores : Stores) (marker : Marker) : Except MemoryConsentError Unit :=
  ensure (∀ entry ∈ marker.entries, stores.Meets entry.1 entry.2) .persistence

/-! ### Entries -/

theorem Marker.names_iff {m : Marker} {key : String} :
    m.Names key ↔ ∃ w, (key, w) ∈ m.entries := by
  simp only [Marker.Names, Marker.entries, List.mem_append,
    Std.ExtTreeMap.mem_toList_iff_getElem?_eq_some, mem_iff, exists_or]

theorem Marker.clear_iff {m : Marker} : m.Clear ↔ m.entries = [] := by
  simp [Marker.Clear, Marker.entries, List.append_eq_nil_iff, Std.ExtTreeMap.isEmpty_iff]

theorem Marker.clear_cleared (m : Marker) : m.cleared.Clear := by
  simp [Marker.Clear, Marker.cleared]

theorem addWithdrawal_eq_ok {marker marker' : Marker} {guild user : String} {w : Withdrawal}
    (h : addWithdrawal marker guild user w = .ok marker') :
    ∃ w' : Withdrawal, w.epoch ≤ w'.epoch ∧ w.minimumRevision ≤ w'.minimumRevision ∧
      w.exposureEpoch ≤ w'.exposureEpoch ∧ w.cutoff ≤ w'.cutoff ∧
      (∀ old, marker.withdrawals[subjectKey guild user]? = some old → old.epoch ≤ w'.epoch ∧
        old.minimumRevision ≤ w'.minimumRevision ∧ old.exposureEpoch ≤ w'.exposureEpoch ∧
        old.cutoff ≤ w'.cutoff) ∧
      marker' = { marker with withdrawals :=
        marker.withdrawals.insert (subjectKey guild user) w' } := by
  simp only [addWithdrawal, bind_eq_ok, exists_unit, ensure_eq_ok, pure_eq_ok] at h
  obtain ⟨-, -, rfl⟩ := h
  cases hold : marker.withdrawals[subjectKey guild user]? with
  | none => exact ⟨w, le_rfl, le_rfl, le_rfl, le_rfl, fun old hk => by simp at hk, rfl⟩
  | some old =>
    refine ⟨_, le_max_left _ _, le_max_left _ _, le_max_left _ _, le_max_left _ _, fun o ho => ?_, rfl⟩
    cases ho
    exact ⟨le_max_right _ _, le_max_right _ _, le_max_right _ _, le_max_right _ _⟩

/-! ### Subjects grow -/

/-- `s'` may follow `s` when only denials are folded in. -/
structure PersonalMemorySubject.Denies (s s' : PersonalMemorySubject) : Prop where
  choice : s'.choice = .on → s.choice = .on
  pending : s'.activationPending = true → s.activationPending = true
  revision : s.revision ≤ s'.revision
  consentEpoch : s.consentEpoch ≤ s'.consentEpoch
  proofs : s'.proofs = s.proofs
  policyVersion : s'.policyVersion = s.policyVersion
  outcomes : ∀ (id : String) (r : CompletedRequest), s'.outcomes[id]? = some r →
    s.outcomes[id]? = some r

theorem PersonalMemorySubject.Denies.refl (s : PersonalMemorySubject) : s.Denies s :=
  ⟨id, id, le_rfl, le_rfl, rfl, rfl, fun _ _ h => h⟩

theorem PersonalMemorySubject.Denies.trans {s s' s'' : PersonalMemorySubject} (h : s.Denies s')
    (h' : s'.Denies s'') : s.Denies s'' where
  choice hon := h.choice (h'.choice hon)
  pending hp := h.pending (h'.pending hp)
  revision := le_trans h.revision h'.revision
  consentEpoch := le_trans h.consentEpoch h'.consentEpoch
  proofs := h'.proofs.trans h.proofs
  policyVersion := h'.policyVersion.trans h.policyVersion
  outcomes id r hr := h.outcomes id r (h'.outcomes id r hr)

/-- `stores'` may follow `stores` when only denials are folded in: subjects that were not there count
as the default one. -/
structure Stores.Denies (stores stores' : Stores) : Prop where
  subject : ∀ key : String, (stores.personalMemory.getD key default).Denies
    (stores'.personalMemory.getD key default)
  kept : ∀ key ∈ stores.personalMemory, key ∈ stores'.personalMemory
  epoch : stores.exposure.epoch ≤ stores'.exposure.epoch
  cutoff : stores.exposure.cutoff ≤ stores'.exposure.cutoff
  rest : stores'.memory = stores.memory ∧ stores'.memoryReceipts = stores.memoryReceipts ∧
    stores'.canonicalBase = stores.canonicalBase ∧ stores'.actions = stores.actions

theorem Stores.Denies.refl (stores : Stores) : stores.Denies stores :=
  ⟨fun _ => .refl _, fun _ h => h, le_rfl, le_rfl, rfl, rfl, rfl, rfl⟩

theorem Stores.Denies.trans {s s' s'' : Stores} (h : s.Denies s') (h' : s'.Denies s'') :
    s.Denies s'' where
  subject key := (h.subject key).trans (h'.subject key)
  kept key hkey := h'.kept key (h.kept key hkey)
  epoch := le_trans h.epoch h'.epoch
  cutoff := le_trans h.cutoff h'.cutoff
  rest := ⟨h'.rest.1.trans h.rest.1, h'.rest.2.1.trans h.rest.2.1,
    h'.rest.2.2.1.trans h.rest.2.2.1, h'.rest.2.2.2.trans h.rest.2.2.2⟩

/-! ### One entry -/

theorem PersonalMemorySubject.dropGrant_sub {s : PersonalMemorySubject} {id id' : String}
    {r : CompletedRequest} (h : (s.dropGrant id)[id']? = some r) : s.outcomes[id']? = some r := by
  unfold dropGrant at h
  split at h
  · split_ifs at h with hon
    · rw [Std.ExtTreeMap.getElem?_erase] at h
      split_ifs at h
      exact h
    · exact h
  · exact h

theorem PersonalMemorySubject.dropGrant_self {s : PersonalMemorySubject} {id : String}
    {r : CompletedRequest} (h : (s.dropGrant id)[id]? = some r) : r.result.choice ≠ .on := by
  unfold dropGrant at h
  split at h
  · rename_i r' hr'
    split_ifs at h with hon
    · simp at h
    · rw [hr', Option.some.injEq] at h
      exact h ▸ hon
  · rename_i hnone
    rw [hnone] at h
    cases h

/-- A subject that grants nothing under `id` keeps its outcomes. -/
theorem PersonalMemorySubject.dropGrant_eq {s : PersonalMemorySubject} {id : String}
    (h : ∀ r, s.outcomes[id]? = some r → r.result.choice ≠ .on) : s.dropGrant id = s.outcomes := by
  unfold dropGrant
  split
  · rename_i r hr
    rw [if_neg (h r hr)]
  · rfl

/-- An entry is met, and folding it in again would not touch its subject. -/
structure Stores.Settled (stores : Stores) (key : String) (w : Withdrawal)
    (s : PersonalMemorySubject) : Prop where
  present : stores.personalMemory[key]? = some s
  off : s.choice = .off
  idle : s.activationPending = false
  schema : s.schema = 1
  epoch : w.epoch ≤ s.consentEpoch
  revision : w.minimumRevision ≤ s.revision
  outcome : ∀ r, s.outcomes[w.requestId]? = some r → r.result.choice ≠ .on
  exposure : w.exposureEpoch ≤ stores.exposure.epoch
  cutoff : w.cutoff ≤ stores.exposure.cutoff

theorem Stores.Settled.meets {stores : Stores} {key : String} {w : Withdrawal}
    {s : PersonalMemorySubject} (h : stores.Settled key w s) : stores.Meets key w :=
  ⟨s, h.present, h.off, h.idle, h.epoch, h.revision, h.exposure, h.cutoff⟩

/-- What one entry does. -/
theorem foldDenial_eq_ok {stores stores' : Stores} {key : String} {w : Withdrawal}
    (h : foldDenial stores (key, w) = .ok stores') :
    ∃ n s, (n = 0 ∨ ((stores.personalMemory.getD key default).choice ≠ .off ∨
        (stores.personalMemory.getD key default).activationPending = true)) ∧
      s = { (stores.personalMemory.getD key default).deny w with
        revision := ((stores.personalMemory.getD key default).deny w).revision + n
        consentEpoch := ((stores.personalMemory.getD key default).deny w).consentEpoch + n } ∧
      stores' = { stores with
        personalMemory := stores.personalMemory.insert key s
        exposure := { stores.exposure with
          epoch := max stores.exposure.epoch w.exposureEpoch
          cutoff := max stores.exposure.cutoff w.cutoff } } := by
  simp only [foldDenial, bind_eq_ok, exists_unit, ensure_eq_ok, pure_eq_ok] at h
  obtain ⟨-, s, hs, rfl⟩ := h
  unfold PersonalMemorySubject.fold at hs
  split_ifs at hs with hchange
  · exact ⟨1, s, .inr hchange, PersonalMemorySubject.advance_eq_ok hs, rfl⟩
  · cases hs
    exact ⟨0, _, .inl rfl, rfl, rfl⟩

theorem foldDenial_settled {stores stores' : Stores} {key : String} {w : Withdrawal}
    (h : foldDenial stores (key, w) = .ok stores') : ∃ s, stores'.Settled key w s := by
  obtain ⟨n, s, -, rfl, rfl⟩ := foldDenial_eq_ok h
  refine ⟨_, Std.ExtTreeMap.getElem?_insert_self, rfl, rfl, rfl, ?_, ?_, fun r hr => ?_,
    le_max_right _ _, le_max_right _ _⟩
  · exact le_trans (le_max_right _ _) (Nat.le_add_right _ _)
  · exact le_trans (le_max_right _ _) (Nat.le_add_right _ _)
  · exact PersonalMemorySubject.dropGrant_self hr

theorem foldDenial_denies {stores stores' : Stores} {entry : String × Withdrawal}
    (h : foldDenial stores entry = .ok stores') : stores.Denies stores' := by
  obtain ⟨n, s, -, rfl, rfl⟩ := foldDenial_eq_ok h
  refine ⟨fun key => ?_, fun key hkey => ?_, le_max_left _ _, le_max_left _ _, rfl, rfl, rfl, rfl⟩
  · rw [Std.ExtTreeMap.getD_insert]
    split_ifs with hk
    · have hk := Std.LawfulEqCmp.eq_of_compare hk
      subst hk
      refine ⟨fun hon => ?_, fun hp => ?_, le_trans (le_max_left _ _) (Nat.le_add_right _ _),
        le_trans (le_max_left _ _) (Nat.le_add_right _ _), rfl, rfl,
        fun id r hr => PersonalMemorySubject.dropGrant_sub hr⟩
      · cases hon
      · cases hp
    · exact .refl _
  · rw [Std.ExtTreeMap.mem_insert]
    exact .inr hkey

/-- Another entry that is folded in leaves a settled one settled. -/
theorem Stores.Settled.foldDenial {stores stores' : Stores} {key : String} {w : Withdrawal}
    {s : PersonalMemorySubject} (hs : stores.Settled key w s) {entry : String × Withdrawal}
    (h : foldDenial stores entry = .ok stores') : ∃ s', stores'.Settled key w s' := by
  obtain ⟨n, s', hn, rfl, rfl⟩ := foldDenial_eq_ok h
  by_cases hk : entry.1 = key
  · subst hk
    have hget : stores.personalMemory.getD entry.1 default = s := by
      rw [Std.ExtTreeMap.getD_eq_getD_getElem?, hs.present, Option.getD_some]
    rw [hget] at hn ⊢
    refine ⟨_, Std.ExtTreeMap.getElem?_insert_self, rfl, rfl, rfl, ?_, ?_, fun r hr => ?_,
      le_trans hs.exposure (le_max_left _ _), le_trans hs.cutoff (le_max_left _ _)⟩
    · exact le_trans (le_trans hs.epoch (le_max_left _ _)) (Nat.le_add_right _ _)
    · exact le_trans (le_trans hs.revision (le_max_left _ _)) (Nat.le_add_right _ _)
    · exact hs.outcome r (PersonalMemorySubject.dropGrant_sub hr)
  · refine ⟨s, ?_, hs.off, hs.idle, hs.schema, hs.epoch, hs.revision, hs.outcome,
      le_trans hs.exposure (le_max_left _ _), le_trans hs.cutoff (le_max_left _ _)⟩
    rw [getElem?_insert, if_neg hk]
    exact hs.present

/-- A settled entry is not touched again. -/
theorem Stores.Settled.fixed {stores : Stores} {key : String} {w : Withdrawal}
    {s : PersonalMemorySubject} (hs : stores.Settled key w s) :
    PersonalMemory.foldDenial stores (key, w) = .ok stores := by
  have hget : stores.personalMemory.getD key default = s := by
    rw [Std.ExtTreeMap.getD_eq_getD_getElem?, hs.present, Option.getD_some]
  have hdeny : s.deny w = s := by
    unfold PersonalMemorySubject.deny
    rw [PersonalMemorySubject.dropGrant_eq hs.outcome, max_eq_left hs.epoch,
      max_eq_left hs.revision, ← hs.off, ← hs.idle, ← hs.schema]
  have hinsert : stores.personalMemory.insert key s = stores.personalMemory := by
    refine Std.ExtTreeMap.ext_getElem? fun k => ?_
    rw [getElem?_insert]
    split_ifs with hk
    · exact hk ▸ hs.present.symm
    · rfl
  have hmem : key ∈ stores.personalMemory := mem_iff.mpr ⟨s, hs.present⟩
  have hfold : s.fold w = .ok s := by
    unfold PersonalMemorySubject.fold
    rw [if_neg (by simp [hs.off, hs.idle]), hdeny]
  unfold PersonalMemory.foldDenial
  rw [ensure_of (Or.inl hmem), ok_bind]
  simp only [hget, hfold, ok_bind, hinsert, max_eq_left hs.exposure, max_eq_left hs.cutoff]
  rfl

/-! ### All entries -/

theorem foldlM_foldDenial {entries : List (String × Withdrawal)} {stores stores' : Stores}
    (h : entries.foldlM foldDenial stores = .ok stores') :
    stores.Denies stores' ∧
      (∀ entry ∈ entries, ∃ s, stores'.Settled entry.1 entry.2 s) ∧
      ∀ (key : String) (w : Withdrawal) (s : PersonalMemorySubject), stores.Settled key w s →
        ∃ s', stores'.Settled key w s' := by
  induction entries generalizing stores with
  | nil =>
    cases h
    exact ⟨.refl _, fun entry hmem => (List.not_mem_nil hmem).elim, fun _ _ s hs => ⟨s, hs⟩⟩
  | cons entry entries ih =>
    rw [List.foldlM_cons] at h
    obtain ⟨mid, hmid, hrest⟩ := bind_eq_ok.mp h
    obtain ⟨hdenies, hall, hkeep⟩ := ih hrest
    refine ⟨(foldDenial_denies hmid).trans hdenies, fun e he => ?_, fun key w s hs => ?_⟩
    · rcases List.mem_cons.mp he with rfl | he
      · obtain ⟨s, hs⟩ := foldDenial_settled hmid
        exact hkeep _ _ s hs
      · exact hall e he
    · obtain ⟨s', hs'⟩ := hs.foldDenial hmid
      exact hkeep _ _ s' hs'

theorem foldlM_fixed {entries : List (String × Withdrawal)} {stores : Stores}
    (h : ∀ entry ∈ entries, ∃ s, stores.Settled entry.1 entry.2 s) :
    entries.foldlM foldDenial stores = .ok stores := by
  induction entries with
  | nil => rfl
  | cons entry entries ih =>
    obtain ⟨s, hs⟩ := h entry List.mem_cons_self
    rw [List.foldlM_cons, hs.fixed, ok_bind]
    exact ih fun e he => h e (List.mem_cons_of_mem _ he)

/-- What folding the denials of a marker in does. -/
theorem foldDenials_eq_ok {stores stores' : Stores} {marker : Marker} {changed : Bool}
    (h : foldDenials C stores marker = .ok (stores', changed)) :
    stores.Denies stores' ∧ (∀ entry ∈ marker.entries, ∃ s, stores'.Settled entry.1 entry.2 s) ∧
      stores'.validate C = .ok () ∧ changed = !marker.entries.isEmpty := by
  simp only [foldDenials, bind_eq_ok, exists_unit, pure_eq_ok, Prod.mk.injEq] at h
  obtain ⟨s, hfold, hvalid, rfl, rfl⟩ := h
  obtain ⟨hdenies, hall, -⟩ := foldlM_foldDenial hfold
  exact ⟨hdenies, hall, hvalid, rfl⟩

theorem verifyMinima_of_settled {stores : Stores} {marker : Marker}
    (h : ∀ entry ∈ marker.entries, ∃ s, stores.Settled entry.1 entry.2 s) :
    verifyMinima stores marker = .ok () :=
  ensure_of fun entry hmem => (h entry hmem).elim fun _ hs => hs.meets

/-- The denials are folded in once: a second time changes nothing. -/
theorem foldDenials_again {stores stores' : Stores} {marker : Marker} {changed : Bool}
    (h : foldDenials C stores marker = .ok (stores', changed)) :
    foldDenials C stores' marker = .ok (stores', changed) := by
  obtain ⟨-, hall, hvalid, rfl⟩ := foldDenials_eq_ok h
  unfold foldDenials
  rw [foldlM_fixed hall, ok_bind, hvalid, ok_bind]
  rfl

end AbbeyBot.PersonalMemory
