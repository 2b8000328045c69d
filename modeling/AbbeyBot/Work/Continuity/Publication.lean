import Mathlib
import AbbeyBot.Library.History
import AbbeyBot.Work.Continuity.Wire

/-! # Publishing a continuity card

A card is confirmed on a clone of the live store over which the pending publications are laid, the
clone is made durable, and the one scope is then copied into the live store. The clone was pruned by
the confirmation, the live store was not: expired cards of other scopes stay in it until they are
pruned, and the copy is not counted against the card limit. A run keeps the live store readable
exactly when every publication of a new scope finds fewer than `maxCards` cards, expired ones
included. -/

namespace AbbeyBot.Work.Continuity.Publication

open AbbeyBot.Library.OrderedMap AbbeyBot.Library.Result AbbeyBot.Library.History
open AbbeyBot.Library.Text
open AbbeyBot.Work.Types AbbeyBot.Work.Continuity.Store AbbeyBot.Work.Continuity.Wire

/-! ### The live store and its pending publications -/

structure PendingPublication where
  expected : Option ContinuityCard
  desired : Option ContinuityCard

structure Runtime where
  live : ContinuityStore
  pending : BTreeMap WorkScope PendingPublication

def Runtime.empty : Runtime := ⟨.empty, ∅⟩

/-- `reserve_continuity_recovery`: one publication per scope, a bounded number in all. -/
def Runtime.reserveRecovery (rt : Runtime) (scope : WorkScope) : Except WorkError Unit := do
  ensure (scope ∉ rt.pending) .stale
  ensure (rt.pending.size < 256) .full

/-- The card as it is admitted: with the receipt of the episode gate where there is a gate. Without
one an admitted card is not replaced. -/
def admitCard (candidate : ContinuityStore) (old : Option ContinuityCard) (card : ContinuityCard) :
    Option String → Except WorkError ContinuityCard
  | some digest => do
    let (admitted, _) ← candidate.installReceipt card digest
    return admitted
  | none => do
    ensure (∀ c ∈ old, c.episodeReceipt = none) .persistence
    return card

/-- `overlay_continuity`: what waits for its publication is laid over a copy of the cards. -/
def Runtime.overlay (rt : Runtime) (cards : ContinuityStore) : Except WorkError ContinuityStore :=
  let laid := rt.pending.toList.foldlM (fun (cards : ContinuityStore) row =>
    cards.replaceExact row.1 row.2.expected row.2.desired) cards
  laid.mapError fun _ => .persistence

/-- `confirm_continuity` up to `stage_continuity`. -/
def Runtime.confirm (rt : Runtime) (grant : ContinuityProposal) (access : WorkAccess)
    (work : WorkStore) (now : ℕ) (receipt : Option String) : Except WorkError (Unit × Runtime) := do
  rt.reserveRecovery grant.scope
  let snapshot ← rt.overlay rt.live
  let old := snapshot.card grant.scope
  let (card, candidate) ← snapshot.confirm grant access work now
  let admitted ← admitCard candidate old card receipt
  ensure (rt.live.card grant.scope = old) .stale
  return ((), { rt with pending := rt.pending.insert grant.scope ⟨old, some admitted⟩ })

/-- `publish_continuity`, once the snapshot is durable. -/
def Runtime.publish (rt : Runtime) (scope : WorkScope) : Except WorkError (Unit × Runtime) := do
  let pending ← orErr rt.pending[scope]? .stale
  let live ← rt.live.replaceExact scope pending.expected pending.desired
  return ((), { live := live, pending := rt.pending.erase scope })

inductive Op where
  | confirm (grant : ContinuityProposal) (access : WorkAccess) (work : WorkStore) (now : ℕ)
      (receipt : Option String)
  | publish (scope : WorkScope)
  | installReceipt (card : ContinuityCard) (receipt : String)
  | removeExact (card : ContinuityCard)
  | clear (scope : WorkScope) (access : WorkAccess) (work : WorkStore)
  | pruneCurrent (work : WorkStore) (now : ℕ)

/-- An operation on the live store alone. -/
def Runtime.onLive (rt : Runtime) {α : Type} (r : Except WorkError (α × ContinuityStore)) :
    Except WorkError Unit × Runtime :=
  commit rt (r.map fun p => ((), { rt with live := p.2 }))

/-- One operation; an error leaves everything as it was. -/
def step (rt : Runtime) : Op → Except WorkError Unit × Runtime
  | .confirm grant access work now receipt => commit rt (rt.confirm grant access work now receipt)
  | .publish scope => commit rt (rt.publish scope)
  | .installReceipt card receipt => rt.onLive (rt.live.installReceipt card receipt)
  | .removeExact card => rt.onLive ((rt.live.removeExact card).map fun s => ((), s))
  | .clear scope access work => rt.onLive (rt.live.clear scope access work)
  | .pruneCurrent work now => (.ok (), { rt with live := rt.live.pruneCurrent work now })

/-- The publication of a new scope finds room in the live store. -/
def Admits (rt : Runtime) : Op → Prop
  | .publish scope => ∀ p, rt.pending[scope]? = some p → p.expected = none →
      rt.live.card scope = none → rt.live.cards.size < maxCards
  | _ => True

/-! ### What the operations keep -/

/-- The live rows are well formed, and so is every card that waits for its publication. -/
structure Inv (rt : Runtime) : Prop where
  live : WellFormed rt.live
  pending : ∀ (scope : WorkScope) (p : PendingPublication), rt.pending[scope]? = some p →
    ∃ card, p.desired = some card ∧ card.scope = scope ∧ validateCard card = .ok ()

theorem Inv.empty : Inv .empty := ⟨.empty, fun scope p h => by simp [Runtime.empty] at h⟩

/-- A confirmed card passes the check of the loader. -/
theorem confirm_valid {s s' : ContinuityStore} {grant : ContinuityProposal} {access : WorkAccess}
    {work : WorkStore} {now : ℕ} {card : ContinuityCard}
    (h : s.confirm grant access work now = .ok (card, s')) :
    card.scope = grant.scope ∧ card.episodeReceipt = none ∧ validateCard card = .ok () := by
  simp only [ContinuityStore.confirm, authorizeScope, WorkStore.scopeProjects, bind_eq_ok,
    ensure_eq_ok, orErr_eq_ok, pure_eq_ok, exists_unit, Library.Word.checkedAdd_eq_some,
    Prod.mk.injEq] at h
  obtain ⟨hactor, ⟨⟨hscope, hne, -, -, hown⟩, -⟩, -, hcontent, -, -, rev, ⟨hrev, -⟩, exp,
    ⟨hexp, -⟩, -, hcard, -⟩ := h
  subst hcard
  refine ⟨rfl, rfl, ?_⟩
  simp only [validateCard, bind_eq_ok, ensure_eq_ok, exists_unit]
  refine ⟨⟨trivial, by omega, hactor ▸ hne, hscope, by omega, fun owner howner => ?_⟩, by simp,
    hcontent⟩
  rw [hown] at howner
  unfold WorkAccess.scope at howner
  split at howner <;> simp_all [WorkScope.owner]

theorem installReceipt_ok {s s' : ContinuityStore} {card admitted : ContinuityCard}
    {receipt : String} (h : s.installReceipt card receipt = .ok (admitted, s')) :
    s.card card.scope = some card ∧ admitted.scope = card.scope ∧
      validateCard admitted = .ok () ∧ s' = ⟨s.cards.insert admitted.scope admitted⟩ := by
  simp only [ContinuityStore.installReceipt, bind_eq_ok, ensure_eq_ok, pure_eq_ok, exists_unit,
    Prod.mk.injEq] at h
  obtain ⟨hcard, hvalid, rfl, rfl⟩ := h
  exact ⟨hcard, rfl, hvalid, rfl⟩

theorem admitCard_ok {candidate : ContinuityStore} {old : Option ContinuityCard}
    {card admitted : ContinuityCard} {receipt : Option String}
    (h : admitCard candidate old card receipt = .ok admitted) (hvalid : validateCard card = .ok ()) :
    admitted.scope = card.scope ∧ validateCard admitted = .ok () := by
  cases receipt with
  | none =>
    simp only [admitCard, bind_eq_ok, ensure_eq_ok, pure_eq_ok, exists_unit] at h
    exact h.2 ▸ ⟨rfl, hvalid⟩
  | some digest =>
    simp only [admitCard, bind_eq_ok, pure_eq_ok] at h
    obtain ⟨⟨a, s'⟩, hinstall, rfl⟩ := h
    obtain ⟨-, hscope, hv, -⟩ := installReceipt_ok hinstall
    exact ⟨hscope, hv⟩

/-- A publication that goes through. -/
theorem publish_ok {rt rt' : Runtime} {scope : WorkScope} (hi : Inv rt)
    (h : rt.publish scope = .ok ((), rt')) :
    ∃ (p : PendingPublication) (card : ContinuityCard), rt.pending[scope]? = some p ∧
      (rt.live.card scope = p.expected ∨ rt.live.card scope = some card) ∧
      card.scope = scope ∧ validateCard card = .ok () ∧
      rt' = ⟨⟨rt.live.cards.insert card.scope card⟩, rt.pending.erase scope⟩ := by
  simp only [Runtime.publish, bind_eq_ok, orErr_eq_ok, pure_eq_ok, Prod.mk.injEq] at h
  obtain ⟨p, hp, live, hlive, -, rfl⟩ := h
  obtain ⟨card, hdesired, hscope, hvalid⟩ := hi.pending scope p hp
  simp only [ContinuityStore.replaceExact, hdesired, bind_eq_ok, ensure_eq_ok, pure_eq_ok,
    exists_unit] at hlive
  obtain ⟨hcurrent, -, -, rfl⟩ := hlive
  exact ⟨p, card, hp, hcurrent, hscope, hvalid, by rw [hscope]⟩

theorem onLive_keeps {rt : Runtime} {α : Type} {r : Except WorkError (α × ContinuityStore)}
    {P : Runtime → Prop} (hrt : P rt) (hr : ∀ a s, r = .ok (a, s) → P { rt with live := s }) :
    P (rt.onLive r).2 := by
  refine commit_keeps hrt fun _ rt' h => ?_
  rcases r with e | ⟨a, s⟩
  · cases h
  · cases h; exact hr a s rfl

theorem Inv.confirm {rt rt' : Runtime} (hi : Inv rt) {grant : ContinuityProposal}
    {access : WorkAccess} {work : WorkStore} {now : ℕ} {receipt : Option String}
    (h : rt.confirm grant access work now receipt = .ok ((), rt')) : Inv rt' := by
  simp only [Runtime.confirm, bind_eq_ok, pure_eq_ok, Prod.mk.injEq] at h
  obtain ⟨-, -, snapshot, -, ⟨card, candidate⟩, hconfirm, admitted, hadmit, -, -, -, rfl⟩ := h
  obtain ⟨hscope, -, hvalid⟩ := confirm_valid hconfirm
  obtain ⟨hscope', hvalid'⟩ := admitCard_ok hadmit hvalid
  refine ⟨hi.live, fun scope p hp => ?_⟩
  rw [getElem?_insert] at hp
  split_ifs at hp with heq
  · cases hp
    exact ⟨admitted, rfl, by rw [hscope', hscope, heq], hvalid'⟩
  · exact hi.pending scope p hp

theorem Inv.step {rt : Runtime} (hi : Inv rt) (op : Op) : Inv (step rt op).2 := by
  cases op with
  | confirm grant access work now receipt => exact commit_keeps hi fun _ rt' h => hi.confirm h
  | publish scope =>
    refine commit_keeps hi fun _ rt' h => ?_
    obtain ⟨p, card, -, -, -, hvalid, rfl⟩ := publish_ok hi h
    refine ⟨hi.live.insert hvalid, fun k q hq => ?_⟩
    rw [Std.ExtTreeMap.getElem?_erase] at hq
    split_ifs at hq
    exact hi.pending k q hq
  | installReceipt card receipt =>
    refine onLive_keeps hi fun admitted s h => ?_
    obtain ⟨-, -, hvalid, rfl⟩ := installReceipt_ok h
    exact ⟨hi.live.insert hvalid, hi.pending⟩
  | removeExact card =>
    refine onLive_keeps hi fun _ s h => ?_
    simp only [ContinuityStore.removeExact, map_eq_ok, bind_eq_ok, ensure_eq_ok, pure_eq_ok,
      exists_unit, Prod.mk.injEq] at h
    obtain ⟨_, ⟨-, rfl⟩, -, rfl⟩ := h
    exact ⟨hi.live.erase card.scope, hi.pending⟩
  | clear scope access work =>
    refine onLive_keeps hi fun _ s h => ?_
    simp only [ContinuityStore.clear, bind_eq_ok, pure_eq_ok, Prod.mk.injEq] at h
    obtain ⟨-, -, -, rfl⟩ := h
    exact ⟨hi.live.erase scope, hi.pending⟩
  | pruneCurrent work now => exact ⟨hi.live.filter _, hi.pending⟩

/-! ### The number of live cards -/

/-- What a publication does to the number of live cards. -/
theorem size_publish {rt rt' : Runtime} {scope : WorkScope} (hi : Inv rt)
    (h : rt.publish scope = .ok ((), rt')) :
    rt'.live.cards.size = rt.live.cards.size ∨
      (∃ p, rt.pending[scope]? = some p ∧ p.expected = none ∧ rt.live.card scope = none) ∧
        rt'.live.cards.size = rt.live.cards.size + 1 := by
  obtain ⟨p, card, hp, hcurrent, rfl, -, rfl⟩ := publish_ok hi h
  cases hold : rt.live.card card.scope with
  | some old => exact .inl (size_insert_some hold)
  | none =>
    refine .inr ⟨⟨p, hp, ?_, rfl⟩, ?_⟩
    · simpa [hold, eq_comm] using hcurrent
    · exact size_insert_none hold

/-- Only a publication of a new scope adds a card. -/
theorem size_step {rt : Runtime} (hi : Inv rt) {op : Op} (hadmits : Admits rt op)
    (hsize : rt.live.cards.size ≤ maxCards) : (step rt op).2.live.cards.size ≤ maxCards := by
  cases op with
  | confirm grant access work now receipt =>
    refine commit_keeps (P := fun r : Runtime => r.live.cards.size ≤ maxCards) hsize fun _ rt' h => ?_
    simp only [Runtime.confirm, bind_eq_ok, pure_eq_ok, Prod.mk.injEq] at h
    obtain ⟨-, -, -, -, -, -, -, -, -, -, -, rfl⟩ := h
    exact hsize
  | publish scope =>
    refine commit_keeps (P := fun r : Runtime => r.live.cards.size ≤ maxCards) hsize fun _ rt' h => ?_
    rcases size_publish hi h with hsame | ⟨⟨p, hp, hexpected, hnone⟩, hadd⟩
    · exact hsame ▸ hsize
    · have := hadmits p hp hexpected hnone
      omega
  | installReceipt card receipt =>
    refine onLive_keeps (P := fun r : Runtime => r.live.cards.size ≤ maxCards) hsize
      fun admitted s h => ?_
    obtain ⟨hcard, hscope, -, rfl⟩ := installReceipt_ok h
    exact (size_insert_some (hscope ▸ hcard)).trans_le hsize
  | removeExact card =>
    refine onLive_keeps (P := fun r : Runtime => r.live.cards.size ≤ maxCards) hsize fun _ s h => ?_
    simp only [ContinuityStore.removeExact, map_eq_ok, bind_eq_ok, ensure_eq_ok, pure_eq_ok,
      exists_unit, Prod.mk.injEq] at h
    obtain ⟨_, ⟨-, rfl⟩, -, rfl⟩ := h
    exact Std.ExtTreeMap.size_erase_le.trans hsize
  | clear scope access work =>
    refine onLive_keeps (P := fun r : Runtime => r.live.cards.size ≤ maxCards) hsize fun _ s h => ?_
    simp only [ContinuityStore.clear, bind_eq_ok, pure_eq_ok, Prod.mk.injEq] at h
    obtain ⟨-, -, -, rfl⟩ := h
    exact Std.ExtTreeMap.size_erase_le.trans hsize
  | pruneCurrent work now => exact Std.ExtTreeMap.size_filter_le_size.trans hsize

/-- A publication that finds no room, and goes through, is one card too many. -/
theorem size_step_of_not_admits {rt : Runtime} (hi : Inv rt) {op : Op}
    (hadmits : ¬ Admits rt op) : maxCards < (step rt op).2.live.cards.size := by
  cases op with
  | publish scope =>
    simp only [Admits, not_forall, not_lt] at hadmits
    obtain ⟨p, hp, hexpected, hnone, hfull⟩ := hadmits
    obtain ⟨card, hdesired, hscope, hvalid⟩ := hi.pending scope p hp
    have hpublish : rt.publish scope =
        .ok ((), ⟨⟨rt.live.cards.insert scope card⟩, rt.pending.erase scope⟩) := by
      simp [Runtime.publish, ContinuityStore.replaceExact, hp, orErr, hdesired, hexpected, hnone,
        hscope, hvalid, ensure, pure, Except.pure, bind, Except.bind]
    simp only [step, hpublish, commit]
    rw [size_insert_none hnone]
    omega
  | _ => exact absurd trivial hadmits

/-! ### Runs -/

theorem inv_of_run {h : List (Event Runtime Op (Except WorkError Unit))} {rt : Runtime}
    (hrun : Run step .empty h rt) : Inv rt :=
  hrun.invariant .empty fun _ op hi => hi.step op

theorem size_of_run {h : List (Event Runtime Op (Except WorkError Unit))} {rt : Runtime}
    (hrun : Run step .empty h rt) (hadmits : ∀ e ∈ h, Admits e.before e.op) :
    rt.live.cards.size ≤ maxCards := by
  induction hrun with
  | nil => simp [Runtime.empty, ContinuityStore.empty]
  | cons op hrun ih =>
    exact size_step (inv_of_run hrun) (hadmits _ List.mem_cons_self)
      (ih fun e he => hadmits e (List.mem_cons_of_mem _ he))

/-- **The live store stays readable**: over every run from the empty store, every state reached is
read back as it was written exactly when every publication of a new scope found room. -/
theorem serializable_iff_admits {h : List (Event Runtime Op (Except WorkError Unit))} {rt : Runtime}
    (hrun : Run step .empty h rt) :
    (∀ e ∈ h, RoundTrips e.after.live) ↔ ∀ e ∈ h, Admits e.before e.op := by
  constructor
  · intro hround
    induction hrun with
    | nil => simp
    | cons op hrun ih =>
      intro e he
      rcases List.mem_cons.mp he with rfl | he
      · by_contra hadmits
        have hi := inv_of_run hrun
        have hsize := (roundTrips_iff (hi.step op).live).mp (hround _ List.mem_cons_self)
        exact absurd (size_step_of_not_admits hi hadmits) (not_lt.mpr hsize)
      · exact ih (fun e he => hround e (List.mem_cons_of_mem _ he)) e he
  · intro hadmits
    induction hrun with
    | nil => simp
    | cons op hrun ih =>
      intro e he
      rcases List.mem_cons.mp he with rfl | he
      · have hnext := hrun.cons op
        exact (roundTrips_iff (inv_of_run hnext).live).mpr (size_of_run hnext hadmits)
      · exact ih (fun e he => hadmits e (List.mem_cons_of_mem _ he)) e he

/-! ### One card too many

256 people confirm a card at the time 0. A week later all of these cards are expired and still in the
live store, and one more person confirms a card. -/

def soloGrant (owner now : ℕ) : ContinuityProposal :=
  { id := ⟨List.replicate 16 7, owner⟩, actor := owner, scope := .personal owner, baseRevision := 0
    presentedText := "notes", sourceRefs := ∅, expiresAt := now + proposalLifetime }

def soloCard (owner now : ℕ) : ContinuityCard :=
  { schemaVersion := 1, scope := .personal owner, confirmedBy := owner, revision := 1
    confirmedText := "notes", sourceRefs := ∅, expiresAt := now + cardLifetime
    episodeReceipt := none }

def soloCards : ℕ → BTreeMap WorkScope ContinuityCard
  | 0 => ∅
  | n + 1 => (soloCards n).insert (.personal (n + 1)) (soloCard (n + 1) 0)

theorem soloCards_eq_some {n : ℕ} {scope : WorkScope} {card : ContinuityCard} :
    (soloCards n)[scope]? = some card ↔
      ∃ owner, 1 ≤ owner ∧ owner ≤ n ∧ scope = .personal owner ∧ card = soloCard owner 0 := by
  induction n with
  | zero => simp [soloCards]
  | succ n ih =>
    rw [soloCards, getElem?_insert]
    split_ifs with heq
    · subst heq
      simp only [Option.some.injEq, WorkScope.personal.injEq]
      constructor
      · rintro rfl; exact ⟨n + 1, by omega, le_rfl, rfl, rfl⟩
      · rintro ⟨owner, -, -, rfl, rfl⟩; rfl
    · rw [ih]
      constructor
      · rintro ⟨owner, h1, h2, rfl, rfl⟩; exact ⟨owner, h1, by omega, rfl, rfl⟩
      · rintro ⟨owner, h1, h2, rfl, rfl⟩
        refine ⟨owner, h1, ?_, rfl, rfl⟩
        rcases Nat.lt_or_ge n owner with hlt | hle
        · exact absurd (congrArg WorkScope.personal (by omega : n + 1 = owner)) heq
        · exact hle

theorem soloCards_none (n : ℕ) : (soloCards n)[WorkScope.personal (n + 1)]? = none := by
  rw [Option.eq_none_iff_forall_ne_some]
  intro card hcard
  obtain ⟨owner, -, hle, heq, -⟩ := soloCards_eq_some.mp hcard
  cases heq
  omega

theorem size_soloCards (n : ℕ) : (soloCards n).size = n := by
  induction n with
  | zero => rfl
  | succ n ih => rw [soloCards, size_insert_none (soloCards_none n), ih]

theorem solo_content : validateContent "notes" ∅ = .ok () :=
  ensure_of ⟨by decide, by decide, by decide, by decide, by simp⟩

/-- A person confirms the first card of their own scope. -/
theorem solo_confirm {s : ContinuityStore} {owner now : ℕ} (howner : owner ≠ 0)
    (hnow : now + cardLifetime ≤ Library.Word.u64Max)
    (hnone : s.card (.personal owner) = none)
    (hroom : countRows s.cards (fun card => card.scope ≠ .personal owner && active now card) <
      maxCards) :
    s.confirm (soloGrant owner now) (soloAccess owner) (soloWork owner) now =
      .ok (soloCard owner now,
        ⟨(s.cards.filter fun _ card => active now card).insert (.personal owner)
          (soloCard owner now)⟩) := by
  have hprojects : (soloWork owner).projectsOf (.personal owner) = [soloProject owner] := by
    rw [WorkStore.projectsOf, soloWork, values_insert_empty]
    simp [soloProject]
  have hrev : s.revision (.personal owner) = 0 := by rw [ContinuityStore.revision, hnone]; rfl
  have hlife : withinLifetime (now + proposalLifetime) proposalLifetime now := by
    unfold withinLifetime proposalLifetime; omega
  have hcontent : validateContent (soloGrant owner now).presentedText
      (soloGrant owner now).sourceRefs = .ok () := solo_content
  have hauth : authorizeScope (.personal owner) (soloAccess owner) (soloWork owner) true = .ok () := by
    simp only [authorizeScope, WorkStore.scopeProjects, bind_eq_ok, ensure_eq_ok, exists_unit,
      pure_eq_ok]
    refine ⟨⟨howner, howner, by simp [soloAccess], rfl, rfl⟩, _, ⟨by simp [hprojects], ?_, rfl⟩, trivial⟩
    simp [hprojects, WorkProject.authorize, soloAccess, soloProject, howner]
  simp only [ContinuityStore.confirm, validateSources, bind_eq_ok, ensure_eq_ok, exists_unit,
    orErr_eq_ok, Library.Word.checkedAdd_eq_some, pure_eq_ok]
  exact ⟨rfl, hauth, hlife, hcontent, by simp [SourcesCurrent, soloGrant], hrev, 1,
    ⟨by rw [soloGrant, hrev], by decide⟩, _, ⟨rfl, hnow⟩, hroom, rfl⟩

theorem insert_erase_empty (scope : WorkScope) (p : PendingPublication) :
    ((∅ : BTreeMap WorkScope PendingPublication).insert scope p).erase scope = ∅ := by
  refine Std.ExtTreeMap.ext_getElem? fun k => ?_
  simp only [Std.ExtTreeMap.getElem?_erase, Std.ExtTreeMap.getElem?_insert]
  split_ifs <;> simp

/-- Confirmed and published, the first card of a person's scope is in the live store. -/
theorem solo_published {h : List (Event Runtime Op (Except WorkError Unit))} {s : ContinuityStore}
    {owner : ℕ} (now : ℕ) (hrun : Run step .empty h ⟨s, ∅⟩) (howner : owner ≠ 0)
    (hnow : now + cardLifetime ≤ Library.Word.u64Max) (hnone : s.card (.personal owner) = none)
    (hroom : countRows s.cards (fun card => card.scope ≠ .personal owner && active now card) <
      maxCards) :
    ∃ h', Run step .empty h' ⟨⟨s.cards.insert (.personal owner) (soloCard owner now)⟩, ∅⟩ := by
  have hconfirm : step ⟨s, ∅⟩ (.confirm (soloGrant owner now) (soloAccess owner) (soloWork owner)
      now none) = (.ok (), ⟨s, (∅ : BTreeMap WorkScope PendingPublication).insert (.personal owner)
        ⟨none, some (soloCard owner now)⟩⟩) := by
    have hc := solo_confirm howner hnow hnone hroom
    have hoverlay : (⟨s, ∅⟩ : Runtime).overlay s = .ok s := rfl
    have hscope : (soloGrant owner now).scope = .personal owner := rfl
    simp only [step, Runtime.confirm, Runtime.reserveRecovery]
    simp [hoverlay, hc, admitCard, hscope, hnone, ensure, commit, bind, Except.bind, pure,
      Except.pure]
  have hvalid : validateCard (soloCard owner now) = .ok () := by
    simp only [validateCard, bind_eq_ok, ensure_eq_ok, exists_unit]
    exact ⟨⟨rfl, Nat.one_ne_zero, howner, howner, Nat.le_add_left _ _,
      by simp [WorkScope.owner, soloCard]⟩, by simp [soloCard], solo_content⟩
  have hpublish : step ⟨s, (∅ : BTreeMap WorkScope PendingPublication).insert (.personal owner)
      ⟨none, some (soloCard owner now)⟩⟩ (.publish (.personal owner)) =
      (.ok (), ⟨⟨s.cards.insert (.personal owner) (soloCard owner now)⟩, ∅⟩) := by
    have hscope : (soloCard owner now).scope = .personal owner := rfl
    simp [step, Runtime.publish, ContinuityStore.replaceExact, hnone, hvalid, hscope, orErr, ensure,
      commit, bind, Except.bind, pure, Except.pure, insert_erase_empty]
  have hrun' := (hrun.cons (.confirm (soloGrant owner now) (soloAccess owner) (soloWork owner)
    now none)).cons (.publish (.personal owner))
  rw [hconfirm, hpublish] at hrun'
  exact ⟨_, hrun'⟩

theorem solo_run {n : ℕ} (hn : n ≤ 256) :
    ∃ h, Run step .empty h ⟨⟨soloCards n⟩, ∅⟩ := by
  induction n with
  | zero => exact ⟨[], .nil⟩
  | succ n ih =>
    obtain ⟨h, hrun⟩ := ih (by omega)
    refine solo_published 0 hrun (by omega) (by decide) (soloCards_none n) ?_
    refine lt_of_le_of_lt Std.ExtTreeMap.size_filter_le_size ?_
    rw [size_soloCards]
    exact Nat.lt_of_lt_of_le (Nat.lt_succ_self n) hn

/-- One person confirms and publishes a card. -/
def soloOps : List Op :=
  [.confirm (soloGrant 1 0) (soloAccess 1) (soloWork 1) 0 none, .publish (.personal 1),
    .pruneCurrent (soloWork 1) 10]

theorem solo_serializable :
    (play step .empty soloOps).2.live.card (.personal 1) = some (soloCard 1 0) ∧
      ∀ e ∈ (play step .empty soloOps).1, RoundTrips e.after.live := by
  refine ⟨by decide +kernel, (serializable_iff_admits (run_play _ _)).mpr fun e he => ?_⟩
  simp only [soloOps, play, List.foldl, List.mem_cons, List.not_mem_nil, or_false] at he
  rcases he with rfl | rfl | rfl
  · trivial
  · exact fun p _ _ _ => by decide
  · trivial

/-- There is a run after which the live store is not read back: the card of a 257th scope is
published next to 256 expired ones. -/
theorem not_always_serializable :
    ¬ ∀ (h : List (Event Runtime Op (Except WorkError Unit))) (rt : Runtime),
      Run step .empty h rt → RoundTrips rt.live := by
  intro hclaim
  obtain ⟨h, hrun⟩ := solo_run le_rfl
  have hexpired : countRows (soloCards 256)
      (fun card => card.scope ≠ .personal 257 && active 700000 card) = 0 := by
    have hempty : (∅ : BTreeMap WorkScope ContinuityCard).size = 0 := by simp
    refine Nat.le_zero.mp (hempty ▸ size_le_of_keys fun k v hkv => ?_)
    obtain ⟨hk, hactive⟩ := filter_eq_some.mp hkv
    obtain ⟨owner, -, -, -, rfl⟩ := soloCards_eq_some.mp hk
    simp [active, soloCard, cardLifetime] at hactive
  obtain ⟨h', hrun'⟩ := solo_published 700000 hrun (by decide) (by decide)
    (soloCards_none 256) (hexpired ▸ by decide)
  have hsize := (roundTrips_iff (inv_of_run hrun').live).mp (hclaim _ _ hrun')
  rw [size_insert_none (soloCards_none 256), size_soloCards] at hsize
  exact absurd hsize (by decide)

end AbbeyBot.Work.Continuity.Publication
