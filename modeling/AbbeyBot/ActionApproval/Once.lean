import Mathlib
import AbbeyBot.Library.History
import AbbeyBot.ActionApproval.Store

/-! # Action approval: executed once, as approved

Over any run from the empty store an id becomes ready at most once, and only with the proposed spec,
after the same human confirmed it with the digest of that spec in hand. Records are compacted away
and ids are never reused, so the invariant speaks about the history: every id ever issued is at most
`sequence`, an id that was made ready has no record that is still open (`proposed` or `approved`). -/

namespace AbbeyBot.ActionApproval.Once

open AbbeyBot.Library.OrderedMap AbbeyBot.Library.Result AbbeyBot.Library.Word
open AbbeyBot.Library.History AbbeyBot.ActionApproval.Store

variable (contentDigest : ActionSpec → ℕ → ℕ → String → String)

/-! ### What a history records -/

abbrev Trace := List (Event ActionStore Op Out)

/-- The id that a proposal was given. -/
def proposedId (e : Event ActionStore Op Out) : Option ℕ :=
  match e.out with
  | .proposed (.ok id) => some id
  | _ => none

/-- The id whose write was released. -/
def readyId (e : Event ActionStore Op Out) : Option ℕ :=
  match e.op, e.out with
  | .begin id _, .began (.ok (.ready _)) => some id
  | _, _ => none

/-- The id was issued for this spec, requester, expiry and target. -/
def Proposed (h : Trace) (id : ℕ) (spec : ActionSpec) (requester expiresAt : ℕ)
    (targetFingerprint : String) : Prop :=
  ∃ e ∈ h, e.op = .propose spec requester expiresAt targetFingerprint ∧
    e.out = .proposed (.ok id)

/-- The principal confirmed the id: shown this digest, before the expiry, with the permissions and
for the target. -/
def Confirmed (h : Trace) (id : ℕ) (principal : Option ℕ) (digest : String) (expiresAt : ℕ)
    (targetFingerprint : String) (required : Finset ActionPermission) : Prop :=
  ∃ e ∈ h, ∃ shown : ActionFacts, e.op = .confirm id digest shown ∧ e.out = .confirmed (.ok ()) ∧
    shown.humanPrincipal = principal ∧ shown.now < expiresAt ∧
    shown.targetFingerprint = targetFingerprint ∧ required ⊆ shown.currentPermissions

/-- What must have happened, and what must hold at the moment `facts`, for `spec` to be released
under `id`. -/
def Authorized (h : Trace) (id : ℕ) (spec : ActionSpec) (facts : ActionFacts) : Prop :=
  ∃ requester expiresAt,
    Proposed h id spec requester expiresAt facts.targetFingerprint ∧
    Confirmed h id facts.humanPrincipal
      (contentDigest spec requester expiresAt facts.targetFingerprint) expiresAt
      facts.targetFingerprint spec.required ∧
    facts.humanPrincipal ≠ none ∧ facts.humanPrincipal ≠ some 0 ∧ facts.now < expiresAt ∧
    spec.required ⊆ facts.currentPermissions

/-- A released write was authorized by what happened before. -/
def ReadyAuthorized (h : Trace) (e : Event ActionStore Op Out) : Prop :=
  ∀ id facts spec, e.op = .begin id facts → e.out = .began (.ok (.ready spec)) →
    Authorized contentDigest h id spec facts

theorem Proposed.cons {h : Trace} {id : ℕ} {spec : ActionSpec} {requester expiresAt : ℕ}
    {target : String} (hp : Proposed h id spec requester expiresAt target)
    (e : Event ActionStore Op Out) : Proposed (e :: h) id spec requester expiresAt target := by
  obtain ⟨e', he', hop, hout⟩ := hp
  exact ⟨e', List.mem_cons_of_mem _ he', hop, hout⟩

theorem Confirmed.cons {h : Trace} {id : ℕ} {principal : Option ℕ} {digest target : String}
    {expiresAt : ℕ} {required : Finset ActionPermission}
    (hc : Confirmed h id principal digest expiresAt target required)
    (e : Event ActionStore Op Out) :
    Confirmed (e :: h) id principal digest expiresAt target required := by
  obtain ⟨e', he', shown, hrest⟩ := hc
  exact ⟨e', List.mem_cons_of_mem _ he', shown, hrest⟩

theorem Proposed.mem {h : Trace} {id : ℕ} {spec : ActionSpec} {requester expiresAt : ℕ}
    {target : String} (hp : Proposed h id spec requester expiresAt target) :
    id ∈ h.filterMap proposedId := by
  obtain ⟨e, he, -, hout⟩ := hp
  exact List.mem_filterMap.mpr ⟨e, he, by simp [proposedId, hout]⟩

/-! ### What a step can do -/

/-- The record waits for its confirmation or its execution. -/
def Open (p : ActionProposal) : Prop := p.state = .proposed ∨ p.state = .approved

/-- The fields a record is proposed with. -/
def SameProposal (p p' : ActionProposal) : Prop :=
  p'.spec = p.spec ∧ p'.requester = p.requester ∧ p'.expiresAt = p.expiresAt ∧
    p'.targetFingerprint = p.targetFingerprint ∧ p'.contentDigest = p.contentDigest

/-- Every step does one of five things to the store. -/
inductive Change (s : ActionStore) (op : Op) (out : Out) (s' : ActionStore) : Prop
  | quiet (hproposed : ∀ id, out ≠ .proposed (.ok id))
      (hready : ∀ spec, out ≠ .began (.ok (.ready spec)))
      (hsequence : s'.sequence = s.sequence)
      (hrows : ∀ (id : ℕ) (p' : ActionProposal), s'.proposals[id]? = some p' →
        s.proposals[id]? = some p' ∨ ∃ p, s.proposals[id]? = some p ∧ SameProposal p p' ∧ ¬ Open p')
  | created (spec : ActionSpec) (requester expiresAt : ℕ) (target : String)
      (hop : op = .propose spec requester expiresAt target)
      (hout : out = .proposed (.ok (s.sequence + 1)))
      (hsequence : s'.sequence = s.sequence + 1)
      (hrows : ∀ (id : ℕ) (p' : ActionProposal), s'.proposals[id]? = some p' →
        s.proposals[id]? = some p' ∨ id = s.sequence + 1 ∧ p' =
          { id, spec, requester, expiresAt, targetFingerprint := target
            contentDigest := contentDigest spec requester expiresAt target
            state := .proposed, approver := none, resultReference := none })
  | confirmed (id : ℕ) (digest : String) (facts : ActionFacts) (p : ActionProposal)
      (hop : op = .confirm id digest facts) (hout : out = .confirmed (.ok ()))
      (hp : s.proposals[id]? = some p) (hstate : p.state = .proposed)
      (hvalid : validate contentDigest p digest facts = .ok ())
      (hs' : s' = s.put id { p with approver := facts.humanPrincipal, state := .approved })
  | readied (id : ℕ) (facts : ActionFacts) (p : ActionProposal)
      (hop : op = .begin id facts) (hout : out = .began (.ok (.ready p.spec)))
      (hp : s.proposals[id]? = some p) (hstate : p.state = .approved)
      (happrover : p.approver = facts.humanPrincipal)
      (hvalid : validate contentDigest p p.contentDigest facts = .ok ())
      (hs' : s' = s.put id { p with state := .executing })

theorem put_proposals {s : ActionStore} {id k : ℕ} {p p' : ActionProposal}
    (h : (s.put id p).proposals[k]? = some p') :
    (k = id ∧ p' = p) ∨ (k ≠ id ∧ s.proposals[k]? = some p') := by
  simp only [ActionStore.put, getElem?_insert] at h
  split_ifs at h with hk
  · exact .inl ⟨hk.symm, (Option.some.inj h).symm⟩
  · exact .inr ⟨fun heq => hk heq.symm, h⟩

theorem compact_proposals {s : ActionStore} {now k : ℕ} {p : ActionProposal}
    (h : (s.compact now).proposals[k]? = some p) : s.proposals[k]? = some p :=
  (filter_eq_some.mp h).1

theorem makeRoom_retains (s : ActionStore) : s.makeRoom.sequence = s.sequence ∧
    ∀ (k : ℕ) (p : ActionProposal), s.makeRoom.proposals[k]? = some p →
      s.proposals[k]? = some p := by
  unfold ActionStore.makeRoom
  split_ifs
  · exact ⟨rfl, fun k p h => h⟩
  · exact ⟨rfl, fun k p h => compact_proposals h⟩

theorem propose_change (s : ActionStore) (spec : ActionSpec) (requester expiresAt : ℕ)
    (target : String) :
    Change contentDigest s (.propose spec requester expiresAt target)
      (.proposed (s.propose contentDigest spec requester expiresAt target).1)
      (s.propose contentDigest spec requester expiresAt target).2 := by
  unfold ActionStore.propose
  split
  · exact .quiet (by simp) (by simp) rfl fun id p' h => .inl h
  · split
    · exact .quiet (by simp) (by simp) rfl fun id p' h => .inl h
    · rename_i id hid
      obtain ⟨rfl, -⟩ := checkedAdd_eq_some.mp hid
      obtain ⟨hseq, hrows⟩ := makeRoom_retains s
      split_ifs with hfull
      · exact .quiet (by simp) (by simp) hseq fun k p' h => .inl (hrows k p' h)
      · refine .created spec requester expiresAt target rfl rfl rfl fun k p' h => ?_
        rcases put_proposals h with ⟨rfl, rfl⟩ | ⟨-, h⟩
        · exact .inr ⟨rfl, rfl⟩
        · exact .inl (hrows k p' h)

theorem confirm_change (s : ActionStore) (id : ℕ) (digest : String) (facts : ActionFacts) :
    Change contentDigest s (.confirm id digest facts)
      (.confirmed (s.confirm contentDigest id digest facts).1)
      (s.confirm contentDigest id digest facts).2 := by
  unfold ActionStore.confirm
  split
  · exact .quiet (by simp) (by simp) rfl fun k p' h => .inl h
  · rename_i p hp
    split_ifs with hstate
    · exact .quiet (by simp) (by simp) rfl fun k p' h => .inl h
    · split
      · exact .quiet (by simp) (by simp) rfl fun k p' h => .inl h
      · rename_i hvalid
        exact .confirmed id digest facts p rfl rfl hp (not_not.mp hstate) hvalid rfl

/-- A record closed in place. -/
theorem put_quiet {s : ActionStore} {id : ℕ} {p p' : ActionProposal}
    (hp : s.proposals[id]? = some p) (hsame : SameProposal p p') (hclosed : ¬ Open p')
    (k : ℕ) (q' : ActionProposal) (h : (s.put id p').proposals[k]? = some q') :
    s.proposals[k]? = some q' ∨ ∃ q, s.proposals[k]? = some q ∧ SameProposal q q' ∧ ¬ Open q' := by
  rcases put_proposals h with ⟨rfl, rfl⟩ | ⟨-, h⟩
  · exact .inr ⟨p, hp, hsame, hclosed⟩
  · exact .inl h

theorem begin_change (s : ActionStore) (id : ℕ) (facts : ActionFacts) :
    Change contentDigest s (.begin id facts) (.began (s.begin contentDigest id facts).1)
      (s.begin contentDigest id facts).2 := by
  unfold ActionStore.begin
  split
  · exact .quiet (by simp) (by simp) rfl fun k p' h => .inl h
  · rename_i p hp
    split_ifs with hstate happrover
    · exact .quiet (by simp) (by simp) rfl fun k p' h => .inl h
    · exact .quiet (by simp) (by simp) rfl fun k p' h => .inl h
    · split
      · exact .quiet (by simp) (by simp) rfl
          (put_quiet hp ⟨rfl, rfl, rfl, rfl, rfl⟩ (by simp [Open]))
      · rename_i hvalid
        exact .readied id facts p rfl rfl hp (not_not.mp hstate) (not_not.mp happrover) hvalid rfl

theorem finish_change (s : ActionStore) (id : ℕ) (state : ActionState)
    (reference : Option String) :
    Change contentDigest s (.finish id state reference)
      (.finished (s.finish id state reference).1) (s.finish id state reference).2 := by
  unfold ActionStore.finish
  split
  · exact .quiet (by simp) (by simp) rfl fun k p' h => .inl h
  · rename_i p hp
    split_ifs with hstate
    · exact .quiet (by simp) (by simp) rfl fun k p' h => .inl h
    · refine .quiet (by simp) (by simp) rfl (put_quiet hp ⟨rfl, rfl, rfl, rfl, rfl⟩ ?_)
      rintro (h | h) <;> simp_all

/-- **Every operation does one of these things.** -/
theorem step_change (s : ActionStore) (op : Op) :
    Change contentDigest s op (step contentDigest s op).1 (step contentDigest s op).2 := by
  cases op with
  | propose spec requester expiresAt target =>
    exact propose_change contentDigest s spec requester expiresAt target
  | confirm id digest facts => exact confirm_change contentDigest s id digest facts
  | begin id facts => exact begin_change contentDigest s id facts
  | finish id state reference => exact finish_change contentDigest s id state reference
  | markInterrupted =>
    refine .quiet (by simp [step]) (by simp [step]) rfl fun k p' h => ?_
    obtain ⟨p, hp, rfl⟩ := map_eq_some.mp h
    split_ifs with hstate
    · exact .inr ⟨p, hp, ⟨rfl, rfl, rfl, rfl, rfl⟩, by simp [Open]⟩
    · exact .inl hp
  | compact now =>
    exact .quiet (by simp [step]) (by simp [step]) rfl fun k p' h => .inl (compact_proposals h)

/-! ### The invariant -/

/-- What the history knows about a record. -/
structure RowInv (h : Trace) (id : ℕ) (p : ActionProposal) : Prop where
  proposed : Proposed h id p.spec p.requester p.expiresAt p.targetFingerprint
  digest : p.contentDigest =
    contentDigest p.spec p.requester p.expiresAt p.targetFingerprint
  unused : Open p → id ∉ h.filterMap readyId
  confirmed : p.state = .approved →
    Confirmed h id p.approver p.contentDigest p.expiresAt p.targetFingerprint p.spec.required

structure Inv (h : Trace) (s : ActionStore) : Prop where
  ready_nodup : (h.filterMap readyId).Nodup
  ready_le : ∀ id ∈ h.filterMap readyId, id ≤ s.sequence
  proposed_nodup : (h.filterMap proposedId).Nodup
  proposed_le : ∀ id ∈ h.filterMap proposedId, id ≤ s.sequence
  rows : ∀ (id : ℕ) (p : ActionProposal), s.proposals[id]? = some p → RowInv contentDigest h id p
  authorized : Along (ReadyAuthorized contentDigest) h

variable {contentDigest}

theorem Inv.zero : Inv contentDigest [] .empty where
  ready_nodup := List.nodup_nil
  ready_le := by simp
  proposed_nodup := List.nodup_nil
  proposed_le := by simp
  rows := by simp [ActionStore.empty]
  authorized := trivial

theorem RowInv.cons {h : Trace} {id : ℕ} {p : ActionProposal} (hr : RowInv contentDigest h id p)
    {e : Event ActionStore Op Out} (he : readyId e ≠ some id) :
    RowInv contentDigest (e :: h) id p where
  proposed := hr.proposed.cons e
  digest := hr.digest
  unused hopen := by
    rw [List.filterMap_cons]
    cases hid : readyId e with
    | none => exact hr.unused hopen
    | some k =>
      simp only [List.mem_cons, not_or]
      exact ⟨fun heq => he (heq ▸ hid), hr.unused hopen⟩
  confirmed hstate := (hr.confirmed hstate).cons e

/-- A record that is closed keeps what the history knows about it. -/
theorem RowInv.close {h : Trace} {id : ℕ} {p p' : ActionProposal}
    (hr : RowInv contentDigest h id p) (hsame : SameProposal p p') (hclosed : ¬ Open p') :
    RowInv contentDigest h id p' := by
  obtain ⟨h1, h2, h3, h4, h5⟩ := hsame
  exact ⟨h1 ▸ h2 ▸ h3 ▸ h4 ▸ hr.proposed, by rw [h1, h2, h3, h4, h5]; exact hr.digest,
    fun ho => absurd ho hclosed, fun hs => absurd (Or.inr hs) hclosed⟩

theorem RowInv.le {h : Trace} {s : ActionStore} (hi : Inv contentDigest h s) {id : ℕ}
    {p : ActionProposal} (hr : RowInv contentDigest h id p) : id ≤ s.sequence :=
  hi.proposed_le id hr.proposed.mem

theorem validate_ok {p : ActionProposal} {digest : String} {facts : ActionFacts}
    (h : validate contentDigest p digest facts = .ok ()) :
    (facts.humanPrincipal ≠ none ∧ facts.humanPrincipal ≠ some 0) ∧ facts.now < p.expiresAt ∧
      (digest = p.contentDigest ∧ facts.targetFingerprint = p.targetFingerprint) ∧
      p.spec.required ⊆ facts.currentPermissions := by
  simp only [validate, bind_eq_ok, ensure_eq_ok, exists_const] at h
  obtain ⟨hprincipal, hnow, ⟨hdigest, htarget, -⟩, hperm⟩ := h
  exact ⟨hprincipal, hnow, ⟨hdigest, htarget⟩, hperm⟩

theorem Inv.step {h : Trace} {s : ActionStore} (hi : Inv contentDigest h s) (op : Op) :
    Inv contentDigest (event (step contentDigest) s op :: h) (step contentDigest s op).2 := by
  have hchange := step_change contentDigest s op
  generalize hev : event (Store.step contentDigest) s op = e
  obtain ⟨hop, hout⟩ : e.op = op ∧ e.out = (Store.step contentDigest s op).1 := by
    subst hev; exact ⟨rfl, rfl⟩
  rw [← hout] at hchange
  generalize (Store.step contentDigest s op).2 = s' at hchange
  cases hchange with
  | quiet hproposed hready hsequence hrows =>
    have hr : readyId e = none := by
      unfold readyId
      split
      · rename_i spec _ hspec; exact absurd hspec (hready _)
      · rfl
    have hp : proposedId e = none := by
      unfold proposedId
      split
      · rename_i id hid; exact absurd hid (hproposed id)
      · rfl
    refine ⟨by simpa [hr] using hi.ready_nodup, by simpa [hr, hsequence] using hi.ready_le,
      by simpa [hp] using hi.proposed_nodup, by simpa [hp, hsequence] using hi.proposed_le,
      fun id p' hp' => ?_, fun id facts spec _ hspec => absurd hspec (hready spec), hi.authorized⟩
    rcases hrows id p' hp' with hsame | ⟨p, hpold, hsame, hclosed⟩
    · exact (hi.rows id p' hsame).cons (by simp [hr])
    · exact ((hi.rows id p hpold).close hsame hclosed).cons (by simp [hr])
  | created spec requester expiresAt target hop' hout' hsequence hrows =>
    have hr : readyId e = none := by simp [readyId, hout']
    have hp : proposedId e = some (s.sequence + 1) := by simp [proposedId, hout']
    have hfresh : ∀ id ∈ h.filterMap proposedId, id ≠ s.sequence + 1 := fun id hid => by
      have := hi.proposed_le id hid; omega
    refine ⟨by simpa [hr] using hi.ready_nodup, fun id hid => ?_, ?_, fun id hid => ?_,
      fun id p' hp' => ?_, fun id facts spec' hop'' => ?_, hi.authorized⟩
    · have := hi.ready_le id (by simpa [hr] using hid); omega
    · rw [List.filterMap_cons, hp]
      exact List.nodup_cons.mpr ⟨fun hmem => hfresh _ hmem rfl, hi.proposed_nodup⟩
    · rw [List.filterMap_cons, hp] at hid
      rcases List.mem_cons.mp hid with rfl | hid
      · exact hsequence.ge
      · have := hi.proposed_le id hid; omega
    · rcases hrows id p' hp' with hsame | ⟨rfl, rfl⟩
      · exact (hi.rows id p' hsame).cons (by simp [hr])
      · refine ⟨⟨e, List.mem_cons_self, hop.trans hop', hout'⟩, rfl, fun _ hmem => ?_, by simp⟩
        have := hi.ready_le _ (by simpa [hr] using hmem)
        omega
    · rw [hop, hop'] at hop''; cases hop''
  | confirmed id digest facts p hop' hout' hp hstate hvalid hs' =>
    have hr : readyId e = none := by simp [readyId, hout']
    have hpid : proposedId e = none := by simp [proposedId, hout']
    subst hs'
    obtain ⟨-, hnow, ⟨hdigest, htarget⟩, hperm⟩ := validate_ok hvalid
    have hrow := hi.rows id p hp
    refine ⟨by simpa [hr] using hi.ready_nodup,
      by simpa only [List.filterMap_cons, hr, put_sequence] using hi.ready_le,
      by simpa [hpid] using hi.proposed_nodup,
      by simpa only [List.filterMap_cons, hpid, put_sequence] using hi.proposed_le,
      fun k p' hp' => ?_, fun k facts' spec' hop'' => ?_, hi.authorized⟩
    · rcases put_proposals hp' with ⟨rfl, rfl⟩ | ⟨-, hold⟩
      · refine ⟨hrow.proposed.cons e, hrow.digest, fun _ => ?_, fun _ => ?_⟩
        · simpa [hr] using hrow.unused (.inl hstate)
        · exact ⟨e, List.mem_cons_self, facts, by rw [hop, hop', hdigest], hout', rfl, hnow,
            htarget, hperm⟩
      · exact (hi.rows k p' hold).cons (by simp [hr])
    · rw [hop, hop'] at hop''; cases hop''
  | readied id facts p hop' hout' hp hstate happrover hvalid hs' =>
    have hr : readyId e = some id := by simp [readyId, hop, hop', hout']
    have hpid : proposedId e = none := by simp [proposedId, hout']
    subst hs'
    obtain ⟨hprincipal, hnow, ⟨-, htarget⟩, hperm⟩ := validate_ok hvalid
    have hrow := hi.rows id p hp
    refine ⟨?_, fun k hk => ?_, by simpa [hpid] using hi.proposed_nodup,
      by simpa only [List.filterMap_cons, hpid, put_sequence] using hi.proposed_le,
      fun k p' hp' => ?_, fun k facts' spec' hop'' hout'' => ?_, hi.authorized⟩
    · rw [List.filterMap_cons, hr]
      exact List.nodup_cons.mpr ⟨hrow.unused (.inr hstate), hi.ready_nodup⟩
    · rw [List.filterMap_cons, hr] at hk
      rcases List.mem_cons.mp hk with rfl | hk
      · exact hrow.le hi
      · exact hi.ready_le k hk
    · rcases put_proposals hp' with ⟨rfl, rfl⟩ | ⟨hne, hold⟩
      · exact ⟨hrow.proposed.cons e, hrow.digest, by simp [Open], by simp⟩
      · refine (hi.rows k p' hold).cons ?_
        rw [hr]
        exact fun heq => hne (Option.some.inj heq).symm
    · rw [hop, hop'] at hop''
      cases hop''
      rw [hout'] at hout''
      cases hout''
      have hconf := hrow.confirmed hstate
      rw [hrow.digest, happrover, ← htarget] at hconf
      exact ⟨p.requester, p.expiresAt, htarget ▸ hrow.proposed, hconf, hprincipal.1,
        hprincipal.2, hnow, hperm⟩

/-! ### Runs -/

theorem inv_of_run {h : Trace} {s : ActionStore}
    (hrun : Run (step contentDigest) .empty h s) : Inv contentDigest h s := by
  induction hrun with
  | nil => exact .zero
  | cons op _ ih => exact ih.step op

/-- **Executed once, as approved**: over every run each id is issued once and released at most once,
and every release was authorized. -/
theorem ready_once_and_authorized {h : Trace} {s : ActionStore}
    (hrun : Run (step contentDigest) .empty h s) :
    (h.filterMap proposedId).Nodup ∧ (h.filterMap readyId).Nodup ∧
      Along (ReadyAuthorized contentDigest) h :=
  ⟨(inv_of_run hrun).proposed_nodup, (inv_of_run hrun).ready_nodup, (inv_of_run hrun).authorized⟩

/-! ### A message sent once -/

def helloSpec : ActionSpec :=
  ⟨.discordChannel 1 2, .discordSendMessage "hello", {.discordSendMessages}⟩

def helloFacts : ActionFacts := ⟨some 9, {.discordSendMessages}, "v1", 50⟩

/-- SHA-256 of the JSON of `helloSpec` with requester 9, expiry 100 and target `v1`. -/
def helloDigest : ActionSpec → ℕ → ℕ → String → String := fun _ _ _ _ =>
  "483d2104412447af40d0a8ebdd1468761a7dac0f6023b303eceb627402dfe16d"

/-- Proposed, confirmed, begun, interrupted, and begun again in vain. -/
def helloOps : List Op :=
  [.propose helloSpec 9 100 "v1", .confirm 1 (helloDigest helloSpec 9 100 "v1") helloFacts,
    .begin 1 helloFacts, .markInterrupted, .begin 1 helloFacts]

theorem hello_ready_once :
    (play (step helloDigest) .empty helloOps).1.filterMap readyId = [1] ∧
      Along (ReadyAuthorized helloDigest) (play (step helloDigest) .empty helloOps).1 :=
  ⟨by decide, (ready_once_and_authorized (run_play _ _)).2.2⟩

end AbbeyBot.ActionApproval.Once
