import Mathlib
import AbbeyBot.PersonalMemory.Commit

/-! # Restarts

The process may end at any step of a transaction, and a recovery at any step of itself. What the
marker names by then is Off when a recovery returns, and the next recovery finds nothing to do. -/

namespace AbbeyBot.PersonalMemory

open AbbeyBot.Library.Durable AbbeyBot.Library.History AbbeyBot.Library.OrderedMap
open AbbeyBot.Library.Result

variable {C : Codec}

/-- One recovery after another: the step function of the restarts. -/
def Disk.restart (C : Codec) (d : Disk) (attempt : ℕ × RecoverIo) : Except Stop Stores × Disk :=
  outcome (recoverOwned C attempt.1 attempt.2) d

/-- No recovery ends a guard, whatever comes of it. -/
theorem guarded_restarts {d d' : Disk} {h : List (Event Disk (ℕ × RecoverIo) (Except Stop Stores))}
    (hrun : Run (Disk.restart C) d h d') {key : String} (hkey : d.Guarded key) : d'.Guarded key := by
  refine hrun.invariant (I := fun d => d.Guarded key) hkey fun d attempt hd => ?_
  rcases (triple_recoverOwned (C := C) (d := d) attempt.1 attempt.2).outcome_cases
    with ⟨stores, -, hrecovered, hdenied⟩ | ⟨_, -, hguard⟩
  · obtain ⟨hpayload, -⟩ := load_eq_ok hrecovered.load
    exact .inr (hpayload ▸ hdenied key hd)
  · exact hguard key hd

/-- A recovery that returns has every guarded subject Off, and the next one changes nothing. -/
theorem restart_returned {d d' : Disk} {stores : Stores} {attempt : ℕ × RecoverIo}
    (h : d.restart C attempt = (.ok stores, d')) :
    (∀ key, d.Guarded key → stores.Denied key ∧ d'.payload.Denied key) ∧
      ∀ again, d'.restart C again = (.ok stores, d') := by
  have hcases := (triple_recoverOwned (C := C) (d := d) attempt.1 attempt.2).outcome_cases
  have hrestart : outcome (recoverOwned C attempt.1 attempt.2) d = (.ok stores, d') := h
  rw [hrestart] at hcases
  rcases hcases with ⟨stores', heq, hrecovered, hdenied⟩ | ⟨e, heq, -⟩
  · cases heq
    obtain ⟨hpayload, -⟩ := load_eq_ok hrecovered.load
    refine ⟨fun key hkey => ⟨hdenied key hkey, hpayload ▸ hdenied key hkey⟩, fun again => ?_⟩
    exact hrecovered.again again.1 again.2
  · cases heq

/-- **Durable denial.** Folding the denials of a marker in meets its minima, is done once and for all
and only lowers choices and raises counters; a withdrawal lowers no minimum. Wherever the process
ends, and however many recoveries are cut short after it, a recovery that returns has every subject
that the marker named Off, with no activation pending, and the next recovery changes nothing. -/
theorem denial_durable (C : Codec) :
    (∀ (stores stores' : Stores) (marker : Marker) (changed : Bool),
      foldDenials C stores marker = .ok (stores', changed) →
      verifyMinima stores' marker = .ok () ∧
      foldDenials C stores' marker = .ok (stores', changed) ∧
      (∀ (key : String) (s' : PersonalMemorySubject), stores'.personalMemory[key]? = some s' →
        s'.choice = .on → ∃ s, stores.personalMemory[key]? = some s ∧ s.choice = .on) ∧
      (∀ (key : String) (s : PersonalMemorySubject), stores.personalMemory[key]? = some s →
        ∃ s', stores'.personalMemory[key]? = some s' ∧ s.revision ≤ s'.revision ∧
          s.consentEpoch ≤ s'.consentEpoch) ∧
      stores.exposure.epoch ≤ stores'.exposure.epoch ∧
      stores.exposure.cutoff ≤ stores'.exposure.cutoff) ∧
    (∀ (marker marker' : Marker) (guild user : String) (w : Withdrawal),
      addWithdrawal marker guild user w = .ok marker' →
      marker'.activations = marker.activations ∧
      ∀ (key : String) (old : Withdrawal), marker.withdrawals[key]? = some old →
        ∃ new, marker'.withdrawals[key]? = some new ∧ old.epoch ≤ new.epoch ∧
          old.minimumRevision ≤ new.minimumRevision ∧ old.exposureEpoch ≤ new.exposureEpoch ∧
          old.cutoff ≤ new.cutoff) ∧
    ∀ (p₀ p : Process) (h : List (Event Process Op Output)) (d : Disk)
      (h' : List (Event Disk (ℕ × RecoverIo) (Except Stop Stores))),
      Run (Process.step C) p₀ h p → Run (Disk.restart C) p.world.disk h' d →
      (∀ key, p.world.disk.Names key → d.Guarded key) ∧
      ∀ (attempt : ℕ × RecoverIo) (stores : Stores) (d' : Disk),
        d.restart C attempt = (.ok stores, d') →
        (∀ key, p.world.disk.Names key ∨ d.Names key →
          stores.Denied key ∧ d'.payload.Denied key) ∧
        ∀ again, d'.restart C again = (.ok stores, d') := by
  refine ⟨fun stores stores' marker changed h => ?_, fun marker marker' guild user w h => ?_, ?_⟩
  · obtain ⟨hdenies, hsettled, -, -⟩ := foldDenials_eq_ok h
    refine ⟨verifyMinima_of_settled hsettled, foldDenials_again h, fun key s' hs' hon => ?_,
      fun key s hs => ?_, hdenies.epoch, hdenies.cutoff⟩
    · have hsubject := (hdenies.subject key).choice
      rw [Std.ExtTreeMap.getD_eq_getD_getElem?, Std.ExtTreeMap.getD_eq_getD_getElem?, hs',
        Option.getD_some] at hsubject
      cases hs : stores.personalMemory[key]? with
      | none =>
        rw [hs] at hsubject
        cases hsubject hon
      | some s =>
        rw [hs] at hsubject
        exact ⟨s, rfl, hsubject hon⟩
    · obtain ⟨s', hs'⟩ := mem_iff.mp (hdenies.kept key (mem_iff.mpr ⟨s, hs⟩))
      have hsubject := hdenies.subject key
      rw [Std.ExtTreeMap.getD_eq_getD_getElem?, Std.ExtTreeMap.getD_eq_getD_getElem?, hs, hs',
        Option.getD_some, Option.getD_some] at hsubject
      exact ⟨s', hs', hsubject.revision, hsubject.consentEpoch⟩
  · obtain ⟨w', -, -, -, -, hold, rfl⟩ := addWithdrawal_eq_ok h
    refine ⟨rfl, fun key old hkey => ?_⟩
    by_cases heq : subjectKey guild user = key
    · subst heq
      exact ⟨w', Std.ExtTreeMap.getElem?_insert_self, hold old hkey⟩
    · refine ⟨old, ?_, le_rfl, le_rfl, le_rfl, le_rfl⟩
      rw [getElem?_insert, if_neg heq]
      exact hkey
  · intro p₀ p h d h' _ hrestarts
    have hguard : ∀ key, p.world.disk.Names key → d.Guarded key := fun key hkey =>
      guarded_restarts hrestarts (.inl hkey)
    refine ⟨hguard, fun attempt stores d' hreturned => ?_⟩
    obtain ⟨hdenied, hagain⟩ := restart_returned hreturned
    refine ⟨fun key hkey => hdenied key ?_, hagain⟩
    rcases hkey with hkey | hkey
    · exact hguard key hkey
    · exact .inl hkey

/-! ### An Off that ends with a crash -/

def sampleDigest : String := "68b66ac555465838769df96b7ce8610192925bdc3902e67ac24c34cdff959c6d"

/-- The digests of the sample. -/
def sampleCodec : Codec where
  factKey guild user text := guild ++ "/" ++ user ++ "/" ++ text
  request _ _ := sampleDigest
  image p := if p.personalMemory.isEmpty then "empty" else "image"
  checksum _ := "sum"
  identity := "directory"
  initialExposure := sampleDigest
  metadataSize _ _ := 0
  markerSize _ := 0

/-- One member, whose choice is On. -/
def samplePayload : Payload :=
  { (default : Payload) with
    personalMemory := (∅ : BTreeMap String PersonalMemorySubject).insert (subjectKey "g" "u")
      { (default : PersonalMemorySubject) with
        schema := 1, revision := 1, consentEpoch := 1, choice := .on, policyVersion := 1 }
    exposure := ⟨1, 1, 1, ∅, []⟩ }

def sampleProcess : Process :=
  ⟨⟨{ samplePayload with canonicalBase := some "image", actions := [] }, false, none, ∅, ∅,
    ⟨some samplePayload, [], none, []⟩⟩, [], none⟩

def sampleOff : Request :=
  ⟨⟨⟨"u", "u", "g", "interaction", "discord", 5, 1⟩, ⟨1, 1, 1⟩⟩, .choice .off, "request"⟩

/-- The member turns the use Off, and the process ends right after the marker was written. -/
def sampleOps : List Op :=
  [.request sampleOff 10, .start 0 ⟨10, 10, 10, 10⟩, .tick .done, .tick .done, .tick .done,
    .tick .done, .tick (.failed true)]

def crashedDisk : Disk := (play (Process.step sampleCodec) sampleProcess sampleOps).2.world.disk

/-- The first recovery is cut short right after it wrote the canonical state. -/
def sampleRestarts : List (ℕ × RecoverIo) := [(20, ⟨.done, .crashed true, .done⟩)]

def restartedDisk : Disk := (play (Disk.restart sampleCodec) crashedDisk sampleRestarts).2

def sampleRestart : Except Stop Stores × Disk :=
  restartedDisk.restart sampleCodec (30, ⟨.done, .done, .done⟩)

theorem crashed_off_recovers : ∃ stores, sampleRestart.1 = .ok stores ∧
    ¬ samplePayload.Denied (subjectKey "g" "u") ∧ stores.Denied (subjectKey "g" "u") := by
  have hnames : crashedDisk.Names (subjectKey "g" "u") := by
    obtain ⟨m, hm⟩ : ∃ m, crashedDisk.marker = some m :=
      Option.isSome_iff_exists.mp (by decide)
    refine ⟨m, hm, .inl ?_⟩
    have hmem : ∀ m ∈ crashedDisk.marker, subjectKey "g" "u" ∈ m.withdrawals := by decide
    exact hmem m hm
  cases hrestart : sampleRestart.1 with
  | error e =>
    have hok : sampleRestart.1.isOk = true := by decide
    rw [hrestart] at hok
    cases hok
  | ok stores =>
    refine ⟨stores, rfl, by decide, ?_⟩
    exact (((denial_durable sampleCodec).2.2 sampleProcess _ _ restartedDisk _
      (run_play sampleProcess sampleOps) (run_play crashedDisk sampleRestarts)).2
      (30, ⟨.done, .done, .done⟩) stores sampleRestart.2 (Prod.ext hrestart rfl)).1 _ (.inl hnames)
      |>.1

end AbbeyBot.PersonalMemory
