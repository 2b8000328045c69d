import Mathlib
import AbbeyBot.Provider.Routing

/-! # Attempts of a router

An attempt is known by its provider, the generation of the provider, and its permit. A qualification
makes a new generation, and in one generation the permits only grow: a circuit that is put in the place
of another is blocked, and a blocked circuit gives none. So no attempt is handed out twice. A completion
takes the permit back, so none is heard twice; and after a qualification of its provider an attempt is
not heard any more. -/

namespace AbbeyBot.Provider

open AbbeyBot.Library.History AbbeyBot.Library.OrderedMap AbbeyBot.Library.Word

namespace AdaptiveRouter

variable {S : Type} {P : ScoreProducer S}

/-! ### Runs -/

/-- Any attempt may be completed: one that was handed out, or any other. -/
inductive Op (P : ScoreProducer S) where
  | setOrder (order : List String)
  | requalify (id : String) (identity : ProviderIdentityHashes) (profiles : List P.Profile)
      (admission : RouteAdmission)
  | restoreBlocked (id : String) (identity : ProviderIdentityHashes) (reason : ProviderFailureKind)
  | setAdmission (id : String) (admission : RouteAdmission)
  | select (cls : RequestClass) (now : ℕ) (pinned : Option String) (excluded : BTreeSet String)
  | complete (attempt : RouteAttempt) (kind : ProviderFailureKind) (retry : RetryAfter)
      (duration : Option ℕ) (now : ℕ)

inductive Output (P : ScoreProducer S) where
  | done (changed : Bool)
  | selected (route : Except RouteUnavailableReason (RouteDecision P × RouteAttempt))
  | completed (kind : Option ProviderFailureKind)

/-- **The step function** of the router. -/
def step [LinearOrder S] (r : AdaptiveRouter P) : Op P → Output P × AdaptiveRouter P
  | .setOrder order => (.done true, r.setOrder order)
  | .requalify id identity profiles admission =>
    (.done (r.requalify id identity profiles admission).1,
      (r.requalify id identity profiles admission).2)
  | .restoreBlocked id identity reason =>
    (.done (r.restoreBlocked id identity reason).1, (r.restoreBlocked id identity reason).2)
  | .setAdmission id admission => (.done true, r.setAdmission id admission)
  | .select cls now pinned excluded =>
    (.selected (r.select cls now pinned excluded).1, (r.select cls now pinned excluded).2)
  | .complete attempt kind retry duration now =>
    (.completed (r.complete attempt kind retry duration now).1,
      (r.complete attempt kind retry duration now).2)

abbrev RouterEvent (P : ScoreProducer S) := Event (AdaptiveRouter P) (Op P) (Output P)

/-- What an attempt is known by. -/
structure AttemptId where
  providerId : String
  generation : ℕ
  permit : ℕ
  deriving DecidableEq, Repr

end AdaptiveRouter

def RouteAttempt.id (a : RouteAttempt) : AdaptiveRouter.AttemptId :=
  ⟨a.providerId, a.generation, a.permit⟩

namespace AdaptiveRouter

variable {S : Type} {P : ScoreProducer S}

/-- The attempt that was handed out. -/
def handedOut (e : RouterEvent P) : Option AttemptId :=
  match e.out with
  | .selected (.ok (_, attempt)) => some attempt.id
  | _ => none

/-- The attempt whose completion was heard. -/
def heard (e : RouterEvent P) : Option AttemptId :=
  match e.op, e.out with
  | .complete attempt _ _ _ _, .completed (some _) => some attempt.id
  | _, _ => none

/-- The provider was qualified. -/
def Qualified (e : RouterEvent P) (id : String) : Prop :=
  ∃ identity profiles admission, e.op = .requalify id identity profiles admission ∧
    e.out = .done true

/-! ### What a step can do to the circuits -/

/-- A circuit goes on, or is blocked: its permits grow, and only those handed out are new. -/
structure Goes (c c' : Circuit) (isNew : ℕ → Prop) : Prop where
  permits : c'.snapshot.phase = .blocked ∨
    c.snapshot.phase ≠ .blocked ∧ c.nextPermit ≤ c'.nextPermit
  outstanding : ∀ permit ∈ c'.outstanding, permit ∈ c.outstanding ∨ isNew permit

/-- The providers are kept, with circuits that go on, or are of a new generation. -/
structure Ages (r r' : AdaptiveRouter P) (given : Option AttemptId) : Prop where
  next : r.nextGeneration ≤ r'.nextGeneration
  rows : ∀ (id : String) (state : ProviderState P), r'.providers[id]? = some state →
    (∃ old, r.providers[id]? = some old ∧ state.generation = old.generation ∧
        Goes old.circuit state.circuit fun permit => given = some ⟨id, old.generation, permit⟩) ∨
      r.nextGeneration < state.generation ∧ state.generation ≤ r'.nextGeneration ∧
        state.circuit.outstanding = ∅

variable {r r' : AdaptiveRouter P} {id : String} {state state' : ProviderState P}
  {given : Option AttemptId}

theorem Goes.refl (c : Circuit) (isNew : ℕ → Prop) : Goes c c isNew := by
  refine ⟨?_, fun _ h => .inl h⟩
  by_cases hblocked : c.snapshot.phase = .blocked
  · exact .inl hblocked
  · exact .inr ⟨hblocked, le_rfl⟩

/-- Rows with the same generation and circuit. -/
theorem Ages.of_same (hnext : r'.nextGeneration = r.nextGeneration)
    (h : ∀ (id : String) (state : ProviderState P), r'.providers[id]? = some state →
      ∃ old, r.providers[id]? = some old ∧ state.generation = old.generation ∧
        state.circuit = old.circuit) : Ages r r' given := by
  refine ⟨hnext.ge, fun id state hstate => .inl ?_⟩
  obtain ⟨old, hold, hgeneration, hcircuit⟩ := h id state hstate
  exact ⟨old, hold, hgeneration, hcircuit ▸ Goes.refl _ _⟩

theorem Ages.refl (r : AdaptiveRouter P) : Ages r r given :=
  .of_same rfl fun _ state hstate => ⟨state, hstate, rfl, rfl⟩

/-- A provider is rewritten with its generation. -/
theorem Ages.insert (hstate : r.providers[id]? = some state)
    (hsame : state'.generation = state.generation)
    (hgoes : Goes state.circuit state'.circuit fun permit =>
      given = some ⟨id, state.generation, permit⟩) :
    Ages r { r with providers := r.providers.insert id state' } given := by
  refine ⟨le_rfl, fun id' row hrow => .inl ?_⟩
  dsimp only at hrow
  rw [getElem?_insert] at hrow
  split_ifs at hrow with heq
  · cases hrow
    subst heq
    exact ⟨state, hstate, hsame, hgoes⟩
  · exact ⟨row, hrow, rfl, Goes.refl _ _⟩

theorem ages_requalify (id : String) (identity : ProviderIdentityHashes) (profiles : List P.Profile)
    (admission : RouteAdmission) : Ages r (r.requalify id identity profiles admission).2 none := by
  unfold requalify
  split
  · rename_i generation byClass hgeneration _
    obtain ⟨rfl, -⟩ := checkedAdd_eq_some.mp hgeneration
    refine ⟨Nat.le_succ _, fun id' state hstate => ?_⟩
    dsimp only at hstate
    rw [getElem?_insert] at hstate
    split_ifs at hstate
    · cases hstate
      exact .inr ⟨Nat.lt_succ_self _, le_rfl, rfl⟩
    · exact .inl ⟨state, hstate, rfl, Goes.refl _ _⟩
  · exact .refl r

theorem ages_restoreBlocked (id : String) (identity : ProviderIdentityHashes)
    (reason : ProviderFailureKind) : Ages r (r.restoreBlocked id identity reason).2 none := by
  unfold restoreBlocked
  split
  · rename_i state circuit hstate hcircuit
    refine .insert (Option.filter_eq_some_iff.mp hstate).1 rfl ?_
    unfold Circuit.restoreBlocked at hcircuit
    split_ifs at hcircuit
    cases hcircuit
    exact ⟨.inl rfl, fun _ h => absurd h (Finset.notMem_empty _)⟩
  · exact .refl r

theorem ages_setAdmission (id : String) (admission : RouteAdmission) :
    Ages r (r.setAdmission id admission) none := by
  refine .of_same rfl fun id' row hrow => ?_
  have hrow' : (r.providers.modify id fun state => { state with admission := admission })[id']? =
      some row := hrow
  rw [getElem?_modify] at hrow'
  split_ifs at hrow'
  · obtain ⟨state, hstate, rfl⟩ := Option.map_eq_some_iff.mp hrow'
    exact ⟨state, hstate, rfl, rfl⟩
  · exact ⟨row, hrow', rfl, rfl⟩

/-- A circuit that completes a permit goes on without it. -/
theorem goes_complete (c : Circuit) (permit : ℕ) (kind : ProviderFailureKind) (retry : RetryAfter)
    (now : ℕ) (isNew : ℕ → Prop) : Goes c (c.complete permit kind retry now).2 isNew ∧
      ((c.complete permit kind retry now).1.isSome = true → permit ∈ c.outstanding) ∧
      permit ∉ (c.complete permit kind retry now).2.outstanding := by
  have herased : ∀ p ∈ c.outstanding.erase permit, p ∈ c.outstanding ∨ isNew p :=
    fun p hp => .inl (Finset.mem_of_mem_erase hp)
  rcases c.complete_cases permit kind retry now with
    ⟨hres, -⟩ | ⟨c', hres, hmem, hopen, hnext, hsettled⟩
  · rw [hres]
    exact ⟨⟨(Goes.refl c isNew).permits, herased⟩, nofun, Finset.notMem_erase _ _⟩
  · rw [hres]
    have hgrows : c'.snapshot.phase = .blocked ∨
        c.snapshot.phase ≠ .blocked ∧ c.nextPermit ≤ c'.nextPermit := .inr ⟨hopen, hnext.ge⟩
    have hout : c'.outstanding ⊆ c.outstanding.erase permit := by
      cases hsettled with
      | blocked _ _ hout => exact hout ▸ Finset.empty_subset _
      | kept _ _ hout => exact hout.subset
      | opened _ _ hout => exact hout.subset
      | closed _ _ hout => exact hout.subset
    exact ⟨⟨hgrows, fun p hp => herased p (hout hp)⟩, fun _ => hmem,
      fun h => Finset.notMem_erase _ _ (hout h)⟩

/-- What a completion does: it is for no generation there is, or the circuit goes on without the
permit. -/
theorem complete_cases (r : AdaptiveRouter P) (attempt : RouteAttempt) (kind : ProviderFailureKind)
    (retry : RetryAfter) (duration : Option ℕ) (now : ℕ) :
    r.complete attempt kind retry duration now = (none, r) ∨
    ∃ state state' out, r.providers[attempt.providerId]? = some state ∧
      state.generation = attempt.generation ∧ state'.generation = state.generation ∧
      r.complete attempt kind retry duration now =
        (out, { r with providers := r.providers.insert attempt.providerId state' }) ∧
      Goes state.circuit state'.circuit (fun _ => False) ∧
      (out.isSome = true → attempt.permit ∈ state.circuit.outstanding) ∧
      attempt.permit ∉ state'.circuit.outstanding := by
  unfold complete
  cases hstate : r.providers[attempt.providerId]? with
  | none => exact .inl rfl
  | some state =>
    dsimp only
    by_cases hgeneration : state.generation = attempt.generation
    · rw [if_neg (not_not.mpr hgeneration)]
      right
      have hgoes := goes_complete state.circuit attempt.permit (timedKind kind duration) retry now
        fun _ => False
      generalize state.circuit.complete attempt.permit (timedKind kind duration) retry now = res
        at hgoes
      obtain ⟨done, circuit⟩ := res
      cases done with
      | none =>
        exact ⟨state, { state with circuit := circuit }, none, rfl, hgeneration, rfl, rfl, hgoes.1,
          nofun, hgoes.2.2⟩
      | some effective =>
        cases hprofile : state.profiles[attempt.requestClass]? with
        | none =>
          exact ⟨state, { state with circuit := circuit }, none, rfl, hgeneration, rfl, rfl, hgoes.1,
            nofun, hgoes.2.2⟩
        | some profile =>
          exact ⟨state, { state with
              circuit := circuit
              profiles := state.profiles.insert attempt.requestClass
                (P.observe profile effective duration) }, some effective, rfl, hgeneration, rfl, rfl,
            hgoes.1, fun _ => hgoes.2.1 rfl, hgoes.2.2⟩
    · rw [if_pos hgeneration]
      exact .inl rfl

theorem Goes.mono {c c' : Circuit} {isNew isNew' : ℕ → Prop} (h : Goes c c' isNew)
    (himp : ∀ permit, isNew permit → isNew' permit) : Goes c c' isNew' :=
  ⟨h.permits, fun permit hp => (h.outstanding permit hp).imp_right (himp permit)⟩

/-! ### Steps -/

/-- An attempt is handed out under the next permit of a circuit that is not blocked. -/
structure Given (r r' : AdaptiveRouter P) (attempt : AttemptId) : Prop where
  before : ∃ state, r.providers[attempt.providerId]? = some state ∧
    state.generation = attempt.generation ∧ state.circuit.snapshot.phase ≠ .blocked ∧
    attempt.permit = state.circuit.nextPermit + 1
  after : ∀ state, r'.providers[attempt.providerId]? = some state →
    attempt.permit ≤ state.circuit.nextPermit

/-- An attempt that is heard was out, and is not any more. -/
structure Taken (r r' : AdaptiveRouter P) (attempt : AttemptId) : Prop where
  before : ∃ state, r.providers[attempt.providerId]? = some state ∧
    state.generation = attempt.generation ∧ attempt.permit ∈ state.circuit.outstanding
  after : ∀ state, r'.providers[attempt.providerId]? = some state →
    attempt.permit ∉ state.circuit.outstanding

/-- What a step does. -/
structure Steps (r : AdaptiveRouter P) (e : RouterEvent P) : Prop where
  ages : Ages r e.after (handedOut e)
  given : ∀ attempt, handedOut e = some attempt → Given r e.after attempt
  taken : ∀ attempt, heard e = some attempt → Taken r e.after attempt

theorem steps_select [LinearOrder S] (r : AdaptiveRouter P) (cls : RequestClass) (now : ℕ)
    (pinned : Option String) (excluded : BTreeSet String) :
    Steps r (event step r (.select cls now pinned excluded)) := by
  show Steps r ⟨r, .select cls now pinned excluded, .selected (r.select cls now pinned excluded).1,
    (r.select cls now pinned excluded).2⟩
  rcases select_cases r cls now pinned excluded with ⟨reason, hres, -⟩ |
    ⟨decision, attempt, r', state, profile, circuit, hres, hselected⟩
  · rw [hres]
    exact ⟨.refl r, nofun, nofun⟩
  · rw [hres]
    obtain ⟨hnext, hout⟩ := hselected.permit
    have hopen : state.circuit.snapshot.phase ≠ .blocked := by
      intro hblocked
      have hgate := hselected.passes.circuit
      rw [Circuit.availability, if_pos hblocked] at hgate
      cases hgate
    have hid : attempt.id = ⟨decision.providerId, state.generation, state.circuit.nextPermit + 1⟩ := by
      rw [hselected.isAttempt]
      rfl
    refine ⟨?_, fun a ha => ?_, nofun⟩
    · rw [hselected.isRouter]
      refine .insert hselected.row rfl ⟨.inr ⟨hopen, hnext ▸ Nat.le_succ _⟩, fun permit hp => ?_⟩
      dsimp only at hp
      rw [hout, Finset.mem_insert] at hp
      rcases hp with rfl | hp
      · exact .inr (congrArg some hid)
      · exact .inl hp
    · have ha : attempt.id = a := Option.some.inj ha
      subst ha
      rw [hid]
      refine ⟨⟨state, hselected.row, rfl, hopen, rfl⟩, fun state' hstate' => ?_⟩
      have hrow : r'.providers[decision.providerId]? = some state' := hstate'
      rw [hselected.isRouter, Std.ExtTreeMap.getElem?_insert_self] at hrow
      cases hrow
      exact hnext.ge

theorem steps_complete [LinearOrder S] (r : AdaptiveRouter P) (attempt : RouteAttempt)
    (kind : ProviderFailureKind) (retry : RetryAfter) (duration : Option ℕ) (now : ℕ) :
    Steps r (event step r (.complete attempt kind retry duration now)) := by
  show Steps r ⟨r, .complete attempt kind retry duration now,
    .completed (r.complete attempt kind retry duration now).1,
    (r.complete attempt kind retry duration now).2⟩
  rcases complete_cases r attempt kind retry duration now with hres |
    ⟨state, state', out, hstate, hgeneration, hsame, hres, hgoes, hmem, hnot⟩
  · rw [hres]
    exact ⟨.refl r, nofun, nofun⟩
  · rw [hres]
    refine ⟨.insert hstate hsame (hgoes.mono fun _ => False.elim), nofun, fun a ha => ?_⟩
    cases out with
    | none => cases ha
    | some kind =>
      have ha : attempt.id = a := Option.some.inj ha
      subst ha
      refine ⟨⟨state, hstate, hgeneration, hmem rfl⟩, fun row hrow => ?_⟩
      have hrow : (r.providers.insert attempt.providerId state')[attempt.providerId]? = some row := hrow
      rw [Std.ExtTreeMap.getElem?_insert_self] at hrow
      cases hrow
      exact hnot

/-- **A step** of the router. -/
theorem steps_step [LinearOrder S] (r : AdaptiveRouter P) (op : Op P) : Steps r (event step r op) := by
  cases op with
  | setOrder order => exact ⟨.of_same rfl fun _ state h => ⟨state, h, rfl, rfl⟩, nofun, nofun⟩
  | requalify id identity profiles admission =>
    exact ⟨ages_requalify id identity profiles admission, nofun, nofun⟩
  | restoreBlocked id identity reason => exact ⟨ages_restoreBlocked id identity reason, nofun, nofun⟩
  | setAdmission id admission => exact ⟨ages_setAdmission id admission, nofun, nofun⟩
  | select cls now pinned excluded => exact steps_select r cls now pinned excluded
  | complete attempt kind retry duration now => exact steps_complete r attempt kind retry duration now

/-! ### Runs keep the attempts apart -/

/-- The invariant of the router with its history. -/
structure Inv (h : List (RouterEvent P)) (r : AdaptiveRouter P) : Prop where
  generations : ∀ (id : String) (state : ProviderState P), r.providers[id]? = some state →
    state.generation ≤ r.nextGeneration
  bounded : ∀ a ∈ h.filterMap handedOut, a.generation ≤ r.nextGeneration
  /-- The permits of a generation that were handed out are not above the last, or no more come. -/
  permits : ∀ a ∈ h.filterMap handedOut, ∀ state, r.providers[a.providerId]? = some state →
    state.generation = a.generation →
    state.circuit.snapshot.phase = .blocked ∨ a.permit ≤ state.circuit.nextPermit
  out : ∀ (id : String) (state : ProviderState P), r.providers[id]? = some state →
    ∀ permit ∈ state.circuit.outstanding, ⟨id, state.generation, permit⟩ ∈ h.filterMap handedOut
  taken : ∀ a ∈ h.filterMap heard, a ∈ h.filterMap handedOut ∧
    ∀ state, r.providers[a.providerId]? = some state → state.generation = a.generation →
      a.permit ∉ state.circuit.outstanding
  handedOutOnce : (h.filterMap handedOut).Nodup
  heardOnce : (h.filterMap heard).Nodup

theorem inv_new (order : List String) : Inv [] (new order : AdaptiveRouter P) := by
  constructor <;> simp [new]

/-- The row of an attempt goes on with its circuit, while its generation is there. -/
theorem Steps.row {e : RouterEvent P} (he : Steps r e) {a : AttemptId}
    (hbounded : a.generation ≤ r.nextGeneration)
    (hstate : e.after.providers[a.providerId]? = some state)
    (hgeneration : state.generation = a.generation) :
    ∃ old, r.providers[a.providerId]? = some old ∧ old.generation = a.generation ∧
      Goes old.circuit state.circuit fun permit =>
        handedOut e = some ⟨a.providerId, a.generation, permit⟩ := by
  rcases he.ages.rows _ state hstate with ⟨old, hold, hsame, hgoes⟩ | ⟨hnew, -⟩
  · have hold' : old.generation = a.generation := hsame ▸ hgeneration
    exact ⟨old, hold, hold', hold' ▸ hgoes⟩
  · omega

/-- What is handed out is new. -/
theorem Inv.fresh {h : List (RouterEvent P)} {e : RouterEvent P} (hinv : Inv h r) (he : Steps r e)
    {a : AttemptId} (ha : handedOut e = some a) : a ∉ h.filterMap handedOut := by
  intro hmem
  obtain ⟨state, hstate, hgeneration, hopen, hpermit⟩ := (he.given a ha).before
  rcases hinv.permits a hmem state hstate hgeneration with hblocked | hle
  · exact hopen hblocked
  · omega

theorem mem_handedOut_cons {h : List (RouterEvent P)} {e : RouterEvent P} {a : AttemptId}
    (ha : a ∈ h.filterMap handedOut) : a ∈ (e :: h).filterMap handedOut :=
  ((List.sublist_cons_self e h).filterMap _).subset ha

theorem Inv.step {h : List (RouterEvent P)} {e : RouterEvent P} (hinv : Inv h r) (he : Steps r e) :
    Inv (e :: h) e.after where
  generations id state hstate := by
    rcases he.ages.rows id state hstate with ⟨old, hold, hsame, -⟩ | ⟨-, hle, -⟩
    · rw [hsame]
      exact (hinv.generations id old hold).trans he.ages.next
    · exact hle
  bounded a ha := by
    rcases mem_filterMap_cons ha with hnew | hold
    · obtain ⟨state, hstate, hgeneration, -⟩ := (he.given a hnew).before
      rw [← hgeneration]
      exact (hinv.generations _ state hstate).trans he.ages.next
    · exact (hinv.bounded a hold).trans he.ages.next
  permits a ha state hstate hgeneration := by
    rcases mem_filterMap_cons ha with hnew | hold
    · exact .inr ((he.given a hnew).after state hstate)
    · obtain ⟨old, hrow, hsame, hgoes⟩ := he.row (hinv.bounded a hold) hstate hgeneration
      rcases hgoes.permits with hblocked | ⟨hopen, hle⟩
      · exact .inl hblocked
      · rcases hinv.permits a hold old hrow hsame with hblocked | hpermit
        · exact absurd hblocked hopen
        · exact .inr (hpermit.trans hle)
  out id state hstate permit hp := by
    rcases he.ages.rows id state hstate with ⟨old, hold, hsame, hgoes⟩ | ⟨-, -, hnone⟩
    · rw [hsame]
      rcases hgoes.outstanding permit hp with hout | hnew
      · exact mem_handedOut_cons (hinv.out id old hold permit hout)
      · exact List.mem_filterMap.mpr ⟨e, List.mem_cons_self, hnew⟩
    · rw [hnone] at hp
      exact absurd hp (Finset.notMem_empty _)
  taken a ha := by
    rcases mem_filterMap_cons ha with hnew | hold
    · obtain ⟨state, hstate, hgeneration, hout⟩ := (he.taken a hnew).before
      have hmem := hinv.out _ state hstate _ hout
      rw [hgeneration] at hmem
      exact ⟨mem_handedOut_cons hmem, fun state' hstate' _ => (he.taken a hnew).after state' hstate'⟩
    · obtain ⟨hgiven, hnot⟩ := hinv.taken a hold
      refine ⟨mem_handedOut_cons hgiven, fun state hstate hgeneration hp => ?_⟩
      obtain ⟨old, hrow, hsame, hgoes⟩ := he.row (hinv.bounded a hgiven) hstate hgeneration
      rcases hgoes.outstanding _ hp with hout | hnew
      · exact hnot old hrow hsame hout
      · exact hinv.fresh he hnew hgiven
  handedOutOnce := nodup_filterMap_cons hinv.handedOutOnce fun a ha => hinv.fresh he ha
  heardOnce := nodup_filterMap_cons hinv.heardOnce fun a ha hmem => by
    obtain ⟨state, hstate, hgeneration, hout⟩ := (he.taken a ha).before
    exact (hinv.taken a hmem).2 state hstate hgeneration hout

theorem inv_of_run [LinearOrder S] {order : List String} {h : List (RouterEvent P)}
    (hrun : Run step (new order) h r) : Inv h r := by
  induction hrun with
  | nil => exact inv_new order
  | cons op _ ih => exact ih.step (steps_step _ op)

/-! ### After a qualification -/

/-- An attempt of an earlier generation. -/
def Stale (r : AdaptiveRouter P) (attempt : AttemptId) : Prop :=
  attempt.generation ≤ r.nextGeneration ∧ ∀ state, r.providers[attempt.providerId]? = some state →
    state.generation ≠ attempt.generation

theorem Stale.step {e : RouterEvent P} {attempt : AttemptId} (hstale : Stale r attempt)
    (he : Steps r e) : Stale e.after attempt := by
  refine ⟨hstale.1.trans he.ages.next, fun state hstate heq => ?_⟩
  obtain ⟨old, hold, hsame, -⟩ := he.row hstale.1 hstate heq
  exact hstale.2 old hold hsame

/-- A qualification makes the earlier attempts on the provider stale. -/
theorem stale_requalify {identity : ProviderIdentityHashes} {profiles : List P.Profile}
    {admission : RouteAdmission} {attempt : AttemptId}
    (h : (r.requalify attempt.providerId identity profiles admission).1 = true)
    (hbounded : attempt.generation ≤ r.nextGeneration) :
    Stale (r.requalify attempt.providerId identity profiles admission).2 attempt := by
  unfold requalify at h ⊢
  split at h
  · rename_i generation byClass hgeneration _
    obtain ⟨rfl, -⟩ := checkedAdd_eq_some.mp hgeneration
    refine ⟨hbounded.trans (Nat.le_succ _), fun state hstate => ?_⟩
    dsimp only at hstate
    rw [Std.ExtTreeMap.getElem?_insert_self] at hstate
    cases hstate
    show r.nextGeneration + 1 ≠ attempt.generation
    omega
  · cases h

/-- **The attempts of a run.** Along every run of a new router no attempt is handed out twice, none is
heard twice, and one that is heard was handed out before. An attempt that was handed out before a
qualification of its provider is not heard in any state after, and changes nothing there. -/
theorem attempts_along_run [LinearOrder S] {order : List String} {h : List (RouterEvent P)}
    (hrun : Run step (new order) h r) :
    (h.filterMap handedOut).Nodup ∧ (h.filterMap heard).Nodup ∧
    Along (fun past e => ∀ a, heard e = some a → a ∈ past.filterMap handedOut) h ∧
    ∀ (later earlier : List (RouterEvent P)) (e : RouterEvent P) (attempt : RouteAttempt),
      h = later ++ e :: earlier → Qualified e attempt.providerId →
      attempt.id ∈ earlier.filterMap handedOut →
      ∀ (kind : ProviderFailureKind) (retry : RetryAfter) (duration : Option ℕ) (now : ℕ),
        r.complete attempt kind retry duration now = (none, r) := by
  have hinv := inv_of_run hrun
  refine ⟨hinv.handedOutOnce, hinv.heardOnce, ?_, ?_⟩
  · clear hinv
    induction hrun with
    | nil => trivial
    | cons op hrun ih =>
      refine ⟨fun a ha => ?_, ih⟩
      obtain ⟨state, hstate, hgeneration, hout⟩ := ((steps_step _ op).taken a ha).before
      rw [← show (⟨a.providerId, state.generation, a.permit⟩ : AttemptId) = a by rw [hgeneration]]
      exact (inv_of_run hrun).out _ state hstate _ hout
  · rintro later earlier e attempt rfl ⟨identity, profiles, admission, hop, hdone⟩ hgiven kind retry
      duration now
    have hbounded := (inv_of_run hrun.earlier).bounded attempt.id hgiven
    have hevent := hrun.event_eq (List.mem_append_right later List.mem_cons_self)
    rw [hop] at hevent
    have hchanged : (e.before.requalify attempt.providerId identity profiles admission).1 = true := by
      rw [hevent] at hdone
      exact Output.done.inj hdone
    have hafter : e.after = (e.before.requalify attempt.providerId identity profiles admission).2 :=
      congrArg Event.after hevent
    have hstale : Stale r attempt.id := by
      refine hrun.later.invariant (I := fun r => Stale r attempt.id) ?_ fun s op hs =>
        hs.step (steps_step s op)
      rw [hafter]
      have hrequalified := @stale_requalify _ _ _ identity profiles admission attempt.id hchanged
      exact hrequalified hbounded
    exact complete_stale hstale.2 kind retry duration now

/-- The permit of a provider is completed, and taken again before a qualification. -/
def betaOps : List (Op plainScores) :=
  [.requalify "beta" plainIdentity [((.textReadOnly, 5) : RequestClass × ℕ)] .qualified,
    .select .textReadOnly 0 none ∅,
    .complete ⟨"beta", 1, .textReadOnly, 1⟩ .success .absent (some 5) 7,
    .select .textReadOnly 8 none ∅,
    .requalify "beta" plainIdentity [((.textReadOnly, 5) : RequestClass × ℕ)] .qualified]

/-- Both attempts are handed out, one is heard; the other is not, after the qualification. -/
theorem beta_forgotten :
    (play step (new []) betaOps).1.filterMap handedOut = [⟨"beta", 1, 2⟩, ⟨"beta", 1, 1⟩] ∧
    (play step (new []) betaOps).1.filterMap heard = [⟨"beta", 1, 1⟩] ∧
    ∀ (kind : ProviderFailureKind) (retry : RetryAfter) (duration : Option ℕ) (now : ℕ),
      (play step (new []) betaOps).2.complete ⟨"beta", 1, .textReadOnly, 2⟩ kind retry duration now =
        (none, (play step (new []) betaOps).2) := by
  refine ⟨by decide, by decide, ?_⟩
  refine (attempts_along_run (run_play (new []) betaOps)).2.2.2 [] _ _ ⟨"beta", 1, .textReadOnly, 2⟩
    rfl ⟨_, _, _, rfl, ?_⟩ ?_
  · exact congrArg Output.done (by decide)
  · decide

end AdaptiveRouter

end AbbeyBot.Provider
