import Mathlib
import AbbeyBot.Library.History
import AbbeyBot.Library.OrderedMap
import AbbeyBot.Library.Result
import AbbeyBot.Provider.Circuit

/-! # Adaptive selection of a provider

A router holds the qualified providers, each with its circuit and its admission. A selection goes
through them twice: all are assessed and the candidates are ranked, then one permit is reserved on the
circuit of the best. An attempt carries the generation of the provider it was reserved on; a
qualification gives a new one, and attempts of an old one are not heard any more.

The scores are a parameter: their order is all that a selection looks at. -/

namespace AbbeyBot.Provider

open AbbeyBot.Library.History AbbeyBot.Library.OrderedMap AbbeyBot.Library.Result
open AbbeyBot.Library.Word

/-! ### Requests and scores -/

inductive RequestClass where
  | textReadOnly
  | textWithTools
  | visionDescribe
  | visionOcr
  deriving DecidableEq, Repr

def RequestClass.ordKey : RequestClass → List ℕ
  | .textReadOnly => [0]
  | .textWithTools => [1]
  | .visionDescribe => [2]
  | .visionOcr => [3]

instance : Ord RequestClass := ordByKey RequestClass.ordKey

instance : Std.TransOrd RequestClass := transOrd_ordByKey _

/-- The arithmetic of the scores: profiles, their components at a time, and the weighted sum, which
`total_cmp` orders. -/
structure ScoreProducer (S : Type) where
  Profile : Type
  Components : Type
  requestClass : Profile → RequestClass
  components : Profile → Components
  weighted : Components → S
  /-- `ScoreProducerPolicy::observe`, for a success with its duration or any other outcome. -/
  observe : Profile → ProviderFailureKind → Option ℕ → Profile

structure ProviderIdentityHashes where
  abbeyBinarySha256 : String
  providerBinarySha256 : Option String
  modelSha256 : Option String
  osSha256 : Option String
  toolSchemaSha256 : String
  sandboxSha256 : Option String
  deriving DecidableEq, Repr

/-! ### Gates -/

inductive RouteUnavailableReason where
  | noConfiguredProvider
  | capabilityUnavailable
  | policyDenied
  | allOpen
  | blockedPendingRequalification
  | busy
  | budgetExhausted
  deriving DecidableEq, Repr

/-- The order of the reasons: the most advanced gate is last. -/
def RouteUnavailableReason.rank : RouteUnavailableReason → ℕ
  | .noConfiguredProvider => 0
  | .capabilityUnavailable => 1
  | .policyDenied => 2
  | .allOpen => 3
  | .blockedPendingRequalification => 4
  | .busy => 5
  | .budgetExhausted => 6

structure RouteAdmission where
  configured : Bool
  identityCurrent : Bool
  capabilityAllowed : Bool
  policyAllowed : Bool
  budgetAvailable : Bool
  capacityAvailable : Bool
  deriving DecidableEq, Repr

/-- `RouteAdmission::QUALIFIED`. -/
def RouteAdmission.qualified : RouteAdmission := ⟨true, true, true, true, true, true⟩

def RouteAdmission.check (a : RouteAdmission) : Except RouteUnavailableReason Unit :=
  if a.configured = false then .error .noConfiguredProvider
  else if a.identityCurrent = false then .error .blockedPendingRequalification
  else if a.capabilityAllowed = false then .error .capabilityUnavailable
  else if a.policyAllowed = false then .error .policyDenied
  else if a.budgetAvailable = false then .error .budgetExhausted
  else if a.capacityAvailable = false then .error .busy
  else .ok ()

def circuitReason : CircuitUnavailable → RouteUnavailableReason
  | .opened => .allOpen
  | .blocked => .blockedPendingRequalification
  | .busy => .busy

/-! ### The router -/

variable {S : Type} (P : ScoreProducer S)

structure RouteDecision where
  providerId : String
  components : P.Components
  weightedScore : S
  tiePosition : ℕ

structure RouteAttempt where
  providerId : String
  generation : ℕ
  requestClass : RequestClass
  permit : ℕ
  deriving DecidableEq, Repr

structure ProviderState where
  identity : ProviderIdentityHashes
  generation : ℕ
  profiles : BTreeMap RequestClass P.Profile
  circuit : Circuit
  admission : RouteAdmission

structure AdaptiveRouter where
  providers : BTreeMap String (ProviderState P)
  configuredOrder : List String
  nextGeneration : ℕ

variable {P}

/-- `ProviderState::assess`. -/
def ProviderState.assess (s : ProviderState P) (cls : RequestClass) (now : ℕ)
    (admission : RouteAdmission) : Except RouteUnavailableReason Unit := do
  admission.check
  if s.profiles.contains cls = false then .error .capabilityUnavailable
  else (s.circuit.availability now).mapError circuitReason

namespace AdaptiveRouter

def new (configuredOrder : List String) : AdaptiveRouter P := ⟨∅, configuredOrder, 0⟩

def setOrder (r : AdaptiveRouter P) (configuredOrder : List String) : AdaptiveRouter P :=
  { r with configuredOrder := configuredOrder }

/-- The profiles by their class, of which there is one each. -/
def byClass (profiles : List P.Profile) : Option (BTreeMap RequestClass P.Profile) :=
  profiles.foldlM (fun m profile =>
    if m.contains (P.requestClass profile) then none
    else some (m.insert (P.requestClass profile) profile)) ∅

def requalify (r : AdaptiveRouter P) (id : String) (identity : ProviderIdentityHashes)
    (profiles : List P.Profile) (admission : RouteAdmission) : Bool × AdaptiveRouter P :=
  match checkedAdd r.nextGeneration 1, byClass profiles with
  | some generation, some profiles => (true, { r with
      nextGeneration := generation
      providers := r.providers.insert id ⟨identity, generation, profiles, .new, admission⟩ })
  | _, _ => (false, r)

def restoreBlocked (r : AdaptiveRouter P) (id : String) (identity : ProviderIdentityHashes)
    (reason : ProviderFailureKind) : Bool × AdaptiveRouter P :=
  match (r.providers[id]?).filter (·.identity = identity), Circuit.restoreBlocked reason with
  | some state, some circuit =>
    (true, { r with providers := r.providers.insert id { state with circuit := circuit } })
  | _, _ => (false, r)

def setAdmission (r : AdaptiveRouter P) (id : String) (admission : RouteAdmission) :
    AdaptiveRouter P :=
  { r with providers := r.providers.modify id fun state => { state with admission := admission } }

/-- `assess`: the gates of a selection, on their own. -/
def assess (r : AdaptiveRouter P) (id : String) (cls : RequestClass) (now : ℕ)
    (admission : RouteAdmission) : Except RouteUnavailableReason Unit :=
  match r.providers[id]? with
  | none => .error .noConfiguredProvider
  | some state => state.assess cls now admission

/-- The place of a provider in the configured order. -/
def tiePosition (r : AdaptiveRouter P) (id : String) : ℕ :=
  (r.configuredOrder.findIdx? (· = id)).getD u64Max

/-- The first pass: the providers that pass, and the reasons of the others. -/
def survey (r : AdaptiveRouter P) (cls : RequestClass) (now : ℕ) (pinned : Option String)
    (excluded : BTreeSet String) :
    List (String × ProviderState P) → List (RouteDecision P) × List RouteUnavailableReason
  | [] => ([], [])
  | (id, state) :: rest =>
    let (candidates, failures) := r.survey cls now pinned excluded rest
    if id ∈ excluded ∨ pinned.any (· ≠ id) then (candidates, failures)
    else match state.assess cls now state.admission, state.profiles[cls]? with
    | .error reason, _ => (candidates, reason :: failures)
    -- an assessed provider has a profile of the class
    | .ok _, none => (candidates, failures)
    | .ok _, some profile =>
      (⟨id, P.components profile, P.weighted (P.components profile), r.tiePosition id⟩ :: candidates,
        failures)

/-- The reason of the most advanced gate. -/
def lastReason (failures : List RouteUnavailableReason) : RouteUnavailableReason :=
  failures.foldl (fun last reason => if last.rank < reason.rank then reason else last)
    .noConfiguredProvider

section Ranked

variable [LinearOrder S]

/-- The ranking: the higher score, then the earlier place, then the smaller id. -/
def rankKey (d : RouteDecision P) : Sᵒᵈ ×ₗ ℕ ×ₗ String :=
  toLex (OrderDual.toDual d.weightedScore, toLex (d.tiePosition, d.providerId))

def select (r : AdaptiveRouter P) (cls : RequestClass) (now : ℕ) (pinned : Option String)
    (excluded : BTreeSet String) :
    Except RouteUnavailableReason (RouteDecision P × RouteAttempt) × AdaptiveRouter P :=
  let (candidates, failures) := r.survey cls now pinned excluded r.providers.toList
  match candidates.insertionSort fun a b => rankKey a ≤ rankKey b with
  | [] => (.error (lastReason failures), r)
  | decision :: _ => match r.providers[decision.providerId]? with
    | none => (.error .noConfiguredProvider, r)
    | some state => match state.circuit.reserve now with
      | (.error reason, circuit) => (.error (circuitReason reason), { r with
          providers := r.providers.insert decision.providerId { state with circuit := circuit } })
      | (.ok permit, circuit) =>
        (.ok (decision, ⟨decision.providerId, state.generation, cls, permit⟩), { r with
          providers := r.providers.insert decision.providerId { state with circuit := circuit } })

end Ranked

/-- A success whose duration is missing or too long is no success. -/
def timedKind (kind : ProviderFailureKind) (duration : Option ℕ) : ProviderFailureKind :=
  if kind = .success ∧ duration.all (900000 < ·) then .protocolDrift else kind

def complete (r : AdaptiveRouter P) (attempt : RouteAttempt) (kind : ProviderFailureKind)
    (retry : RetryAfter) (duration : Option ℕ) (now : ℕ) :
    Option ProviderFailureKind × AdaptiveRouter P :=
  match r.providers[attempt.providerId]? with
  | none => (none, r)
  | some state =>
    if state.generation ≠ attempt.generation then (none, r)
    else match state.circuit.complete attempt.permit (timedKind kind duration) retry now with
    | (none, circuit) => (none, { r with
        providers := r.providers.insert attempt.providerId { state with circuit := circuit } })
    | (some effective, circuit) => match state.profiles[attempt.requestClass]? with
      | none => (none, { r with
          providers := r.providers.insert attempt.providerId { state with circuit := circuit } })
      | some profile => (some effective, { r with
          providers := r.providers.insert attempt.providerId { state with
            circuit := circuit
            profiles := state.profiles.insert attempt.requestClass
              (P.observe profile effective duration) } })

/-! ### The candidates -/

variable {r : AdaptiveRouter P} {cls : RequestClass} {now : ℕ} {pinned : Option String}
  {excluded : BTreeSet String}

/-- The provider passes every gate. -/
structure Passes (cls : RequestClass) (now : ℕ) (pinned : Option String) (excluded : BTreeSet String)
    (id : String) (state : ProviderState P) : Prop where
  pinned : ∀ pin ∈ pinned, pin = id
  notExcluded : id ∉ excluded
  configured : state.admission.configured = true
  identityCurrent : state.admission.identityCurrent = true
  capabilityAllowed : state.admission.capabilityAllowed = true
  policyAllowed : state.admission.policyAllowed = true
  budgetAvailable : state.admission.budgetAvailable = true
  capacityAvailable : state.admission.capacityAvailable = true
  profile : ∃ profile, state.profiles[cls]? = some profile
  circuit : state.circuit.availability now = .ok ()

/-- The candidate of a provider. -/
def decisionOf (r : AdaptiveRouter P) (id : String) (profile : P.Profile) : RouteDecision P :=
  ⟨id, P.components profile, P.weighted (P.components profile), r.tiePosition id⟩

theorem check_eq_ok {a : RouteAdmission} : a.check = .ok () ↔ a.configured = true ∧
    a.identityCurrent = true ∧ a.capabilityAllowed = true ∧ a.policyAllowed = true ∧
    a.budgetAvailable = true ∧ a.capacityAvailable = true := by
  obtain ⟨configured, identityCurrent, capability, policy, budget, capacity⟩ := a
  unfold RouteAdmission.check
  cases configured <;> cases identityCurrent <;> cases capability <;> cases policy <;>
    cases budget <;> cases capacity <;> simp

theorem assess_eq_ok {state : ProviderState P} :
    state.assess cls now state.admission = .ok () ↔ state.admission.check = .ok () ∧
      (∃ profile, state.profiles[cls]? = some profile) ∧ state.circuit.availability now = .ok () := by
  unfold ProviderState.assess
  simp only [bind_eq_ok, exists_unit]
  refine and_congr_right fun _ => ?_
  by_cases hprofile : state.profiles.contains cls = true
  · have hsome := mem_iff.mp (Std.ExtTreeMap.mem_iff_contains.mpr hprofile)
    rw [if_neg (by simp [hprofile])]
    cases state.circuit.availability now with
    | error reason => simp [Except.mapError]
    | ok u => simpa [Except.mapError] using hsome
  · have hnone : ¬ ∃ profile, state.profiles[cls]? = some profile := fun h =>
      hprofile (Std.ExtTreeMap.mem_iff_contains.mp (mem_iff.mpr h))
    rw [if_pos (eq_false_of_ne_true hprofile)]
    simp only [reduceCtorEq, false_iff]
    exact fun h => hnone h.1

theorem passes_iff {id : String} {state : ProviderState P} :
    Passes cls now pinned excluded id state ↔
      ¬ (id ∈ excluded ∨ pinned.any (· ≠ id) = true) ∧
        state.assess cls now state.admission = .ok () := by
  rw [assess_eq_ok, check_eq_ok]
  have hpin : pinned.any (· ≠ id) = true ↔ ¬ ∀ pin ∈ pinned, pin = id := by
    cases pinned <;> simp
  rw [not_or, hpin, not_not]
  constructor
  · rintro ⟨hpinned, hnot, h₁, h₂, h₃, h₄, h₅, h₆, hprofile, hcircuit⟩
    exact ⟨⟨hnot, hpinned⟩, ⟨h₁, h₂, h₃, h₄, h₅, h₆⟩, hprofile, hcircuit⟩
  · rintro ⟨⟨hnot, hpinned⟩, ⟨h₁, h₂, h₃, h₄, h₅, h₆⟩, hprofile, hcircuit⟩
    exact ⟨hpinned, hnot, h₁, h₂, h₃, h₄, h₅, h₆, hprofile, hcircuit⟩

/-- The candidates are the providers that pass. -/
theorem mem_survey {rows : List (String × ProviderState P)} {d : RouteDecision P} :
    d ∈ (r.survey cls now pinned excluded rows).1 ↔
      ∃ id state profile, (id, state) ∈ rows ∧ Passes cls now pinned excluded id state ∧
        state.profiles[cls]? = some profile ∧ d = r.decisionOf id profile := by
  induction rows with
  | nil => simp [survey]
  | cons row rest ih =>
    obtain ⟨id, state⟩ := row
    have hrest : (∃ id' state' profile, (id', state') ∈ (id, state) :: rest ∧
        Passes cls now pinned excluded id' state' ∧ state'.profiles[cls]? = some profile ∧
        d = r.decisionOf id' profile) ↔
        (∃ profile, Passes cls now pinned excluded id state ∧ state.profiles[cls]? = some profile ∧
          d = r.decisionOf id profile) ∨ d ∈ (r.survey cls now pinned excluded rest).1 := by
      rw [ih]
      constructor
      · rintro ⟨id', state', profile, hmem, hrow⟩
        rcases List.mem_cons.mp hmem with heq | hmem
        · cases heq
          exact .inl ⟨profile, hrow⟩
        · exact .inr ⟨id', state', profile, hmem, hrow⟩
      · rintro (⟨profile, hrow⟩ | ⟨id', state', profile, hmem, hrow⟩)
        · exact ⟨id, state, profile, List.mem_cons_self, hrow⟩
        · exact ⟨id', state', profile, List.mem_cons_of_mem _ hmem, hrow⟩
    rw [hrest, survey]
    dsimp only
    by_cases hskipped : id ∈ excluded ∨ pinned.any (· ≠ id) = true
    · rw [if_pos hskipped]
      refine ⟨.inr, fun h => h.resolve_left ?_⟩
      rintro ⟨profile, hpasses, -⟩
      exact (passes_iff.mp hpasses).1 hskipped
    · rw [if_neg hskipped]
      cases hassess : state.assess cls now state.admission with
      | error reason =>
        refine ⟨.inr, fun h => h.resolve_left ?_⟩
        rintro ⟨profile, hpasses, -⟩
        rw [(passes_iff.mp hpasses).2] at hassess
        cases hassess
      | ok u =>
        have hpasses : Passes cls now pinned excluded id state := passes_iff.mpr ⟨hskipped, hassess⟩
        obtain ⟨profile, hprofile⟩ := hpasses.profile
        rw [hprofile]
        dsimp only
        rw [List.mem_cons]
        refine or_congr ⟨fun h => ⟨profile, hpasses, rfl, h⟩, ?_⟩ Iff.rfl
        rintro ⟨profile', -, hsome, h⟩
        cases hsome
        exact h

/-! ### The selection -/

section Ranked

variable [LinearOrder S]

/-- A selection that succeeds: the best of the providers that pass, and one permit on its circuit. -/
structure Selected (r : AdaptiveRouter P) (cls : RequestClass) (now : ℕ) (pinned : Option String)
    (excluded : BTreeSet String) (decision : RouteDecision P) (attempt : RouteAttempt)
    (r' : AdaptiveRouter P) (state : ProviderState P) (profile : P.Profile) (circuit : Circuit) :
    Prop where
  row : r.providers[decision.providerId]? = some state
  passes : Passes cls now pinned excluded decision.providerId state
  hasProfile : state.profiles[cls]? = some profile
  isDecision : decision = r.decisionOf decision.providerId profile
  best : ∀ (id : String) (other : ProviderState P) (profile' : P.Profile),
    r.providers[id]? = some other → Passes cls now pinned excluded id other →
    other.profiles[cls]? = some profile' → rankKey decision ≤ rankKey (r.decisionOf id profile')
  isAttempt : attempt = ⟨decision.providerId, state.generation, cls, state.circuit.nextPermit + 1⟩
  reserved : state.circuit.reserve now = (.ok (state.circuit.nextPermit + 1), circuit)
  permit : circuit.nextPermit = state.circuit.nextPermit + 1 ∧
    circuit.outstanding = insert (state.circuit.nextPermit + 1) state.circuit.outstanding
  isRouter : r' = { r with
    providers := r.providers.insert decision.providerId { state with circuit := circuit } }

/-- The best candidate is first. -/
theorem head_best {candidates rest : List (RouteDecision P)} {decision : RouteDecision P}
    (h : candidates.insertionSort (fun a b => rankKey a ≤ rankKey b) = decision :: rest) :
    decision ∈ candidates ∧ ∀ d ∈ candidates, rankKey decision ≤ rankKey d := by
  have htotal : Std.Total fun a b : RouteDecision P => rankKey a ≤ rankKey b :=
    ⟨fun a b => le_total (rankKey a) (rankKey b)⟩
  have htrans : IsTrans (RouteDecision P) fun a b => rankKey a ≤ rankKey b :=
    ⟨fun _ _ _ hab hbc => le_trans hab hbc⟩
  have hsorted := List.pairwise_insertionSort (fun a b : RouteDecision P => rankKey a ≤ rankKey b)
    candidates
  have hperm := List.perm_insertionSort (fun a b : RouteDecision P => rankKey a ≤ rankKey b)
    candidates
  rw [h] at hsorted hperm
  refine ⟨hperm.mem_iff.mp List.mem_cons_self, fun d hd => ?_⟩
  rcases List.mem_cons.mp (hperm.mem_iff.mpr hd) with rfl | hd
  · exact le_rfl
  · exact (List.pairwise_cons.mp hsorted).1 d hd

/-- A circuit that lets a request pass reserves a permit for it. -/
theorem reserve_of_availability {c : Circuit} (h : c.availability now = .ok ()) :
    ∃ circuit, c.reserve now = (.ok (c.nextPermit + 1), circuit) ∧
      circuit.nextPermit = c.nextPermit + 1 ∧
      circuit.outstanding = insert (c.nextPermit + 1) c.outstanding := by
  rcases c.reserve_cases now with ⟨e, hres⟩ | ⟨circuit, hres, hnext, hout, -⟩
  · unfold Circuit.reserve at hres
    rw [h] at hres
    cases hres
  · exact ⟨circuit, hres, hnext, hout⟩

/-- **What a selection does**: no provider passes, and nothing changes, or the best of those that pass
is selected. -/
theorem select_cases (r : AdaptiveRouter P) (cls : RequestClass) (now : ℕ) (pinned : Option String)
    (excluded : BTreeSet String) :
    (∃ reason, r.select cls now pinned excluded = (.error reason, r) ∧
      ∀ (id : String) (state : ProviderState P), r.providers[id]? = some state →
        ¬ Passes cls now pinned excluded id state) ∨
    ∃ decision attempt r' state profile circuit,
      r.select cls now pinned excluded = (.ok (decision, attempt), r') ∧
        Selected r cls now pinned excluded decision attempt r' state profile circuit := by
  unfold select
  dsimp only
  cases hsorted : (r.survey cls now pinned excluded r.providers.toList).1.insertionSort
    fun a b => rankKey a ≤ rankKey b with
  | nil =>
    refine .inl ⟨_, rfl, fun id state hstate hpasses => ?_⟩
    have hempty : (r.survey cls now pinned excluded r.providers.toList).1 = [] := by
      have hperm := List.perm_insertionSort (fun a b : RouteDecision P => rankKey a ≤ rankKey b)
        (r.survey cls now pinned excluded r.providers.toList).1
      rw [hsorted] at hperm
      exact hperm.nil_eq.symm
    obtain ⟨profile, hprofile⟩ := hpasses.profile
    have hmem : r.decisionOf id profile ∈ (r.survey cls now pinned excluded r.providers.toList).1 :=
      mem_survey.mpr ⟨id, state, profile, Std.ExtTreeMap.mem_toList_iff_getElem?_eq_some.mpr hstate,
        hpasses, hprofile, rfl⟩
    rw [hempty] at hmem
    exact List.not_mem_nil hmem
  | cons decision rest =>
    right
    obtain ⟨hmem, hbest⟩ := head_best hsorted
    obtain ⟨id, state, profile, hrow, hpasses, hprofile, rfl⟩ := mem_survey.mp hmem
    have hstate : r.providers[id]? = some state :=
      Std.ExtTreeMap.mem_toList_iff_getElem?_eq_some.mp hrow
    obtain ⟨circuit, hreserve, hnext, hout⟩ := reserve_of_availability hpasses.circuit
    have hlookup : r.providers[(r.decisionOf id profile).providerId]? = some state := hstate
    dsimp only
    rw [hlookup]
    dsimp only
    rw [hreserve]
    refine ⟨_, _, _, state, profile, circuit, rfl, hstate, hpasses, hprofile, rfl, ?_, rfl, hreserve,
      ⟨hnext, hout⟩, rfl⟩
    intro id' other profile' hother hpasses' hprofile'
    exact hbest _ (mem_survey.mpr ⟨id', other, profile',
      Std.ExtTreeMap.mem_toList_iff_getElem?_eq_some.mpr hother, hpasses', hprofile', rfl⟩)

end Ranked

/-- A completion with a generation that is not the current one of its provider is not heard. -/
theorem complete_stale {attempt : RouteAttempt}
    (hstale : ∀ state, r.providers[attempt.providerId]? = some state →
      state.generation ≠ attempt.generation) (kind : ProviderFailureKind) (retry : RetryAfter)
    (duration : Option ℕ) (now : ℕ) : r.complete attempt kind retry duration now = (none, r) := by
  unfold complete
  cases hstate : r.providers[attempt.providerId]? with
  | none => rfl
  | some state =>
    dsimp only
    rw [if_pos (hstale state hstate)]

/-- **Provider selection.** In every state of a router: a selection either fails, changes nothing, and
no provider passes every gate; or it selects the best in the ranking of those that pass, reserves one
permit on the circuit of that provider, and changes nothing else. A completion with a generation that
is not the current one changes nothing. -/
theorem select_best [LinearOrder S] (r : AdaptiveRouter P) (cls : RequestClass) (now : ℕ)
    (pinned : Option String) (excluded : BTreeSet String) :
    ((∃ reason, r.select cls now pinned excluded = (.error reason, r) ∧
        ∀ (id : String) (state : ProviderState P), r.providers[id]? = some state →
          ¬ Passes cls now pinned excluded id state) ∨
      ∃ decision attempt r' state profile circuit,
        r.select cls now pinned excluded = (.ok (decision, attempt), r') ∧
          Selected r cls now pinned excluded decision attempt r' state profile circuit) ∧
    ∀ attempt : RouteAttempt, (∀ state, r.providers[attempt.providerId]? = some state →
      state.generation ≠ attempt.generation) → ∀ (kind : ProviderFailureKind) (retry : RetryAfter)
      (duration : Option ℕ) (now : ℕ), r.complete attempt kind retry duration now = (none, r) :=
  ⟨select_cases r cls now pinned excluded, fun _ hstale => complete_stale hstale⟩

/-! ### Two providers -/

/-- Scores that are their own profiles. -/
def plainScores : ScoreProducer ℕ where
  Profile := RequestClass × ℕ
  Components := ℕ
  requestClass := Prod.fst
  components := Prod.snd
  weighted := id
  observe profile _ _ := profile

def plainIdentity : ProviderIdentityHashes := ⟨"abbey", none, none, none, "tools", none⟩

/-- The provider "beta" has the better score. -/
def twoProviders : AdaptiveRouter plainScores :=
  (((new ["alpha", "beta"]).requalify "alpha" plainIdentity [((.textReadOnly, 3) : RequestClass × ℕ)]
    .qualified).2.requalify "beta" plainIdentity [((.textReadOnly, 5) : RequestClass × ℕ)]
    .qualified).2

theorem alpha_stale : ∀ (kind : ProviderFailureKind) (retry : RetryAfter) (duration : Option ℕ)
    (now : ℕ), twoProviders.complete ⟨"alpha", 2, .textReadOnly, 1⟩ kind retry duration now =
      (none, twoProviders) := by
  refine (select_best twoProviders .textReadOnly 0 none ∅).2 _ fun state hstate => ?_
  have hgeneration : (twoProviders.providers["alpha"]?).map (·.generation) = some 1 := by
    decide
  rw [hstate, Option.map_some, Option.some.injEq] at hgeneration
  rw [hgeneration]
  decide

example : (match (twoProviders.select .textReadOnly 0 none ∅).1 with
    | .ok (decision, attempt) => (decision.providerId, attempt.generation, attempt.permit)
    | .error _ => ("", 0, 0)) = ("beta", 2, 1) := by
  decide

end AdaptiveRouter

end AbbeyBot.Provider
