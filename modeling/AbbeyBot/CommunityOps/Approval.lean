import Mathlib
import AbbeyBot.CommunityOps.Publication

/-! # The approval protocol

What two durable files go through is a sequence of `Move`s, one per write: proposals advance, new
ones are added, or the policy gets the action of a proposal whose approval is prepared. `Sound` holds
after every move. Every call, wherever its writes fail or are cut short, is such a sequence
(`moves_step`), so the protocol holds along every run. -/

namespace AbbeyBot.CommunityOps

open AbbeyBot.Library.Durable AbbeyBot.Library.History AbbeyBot.Library.OrderedMap
open AbbeyBot.Library.Result AbbeyBot.Library.Word

variable {H : Hashes} {V : Type}

/-! ### Moves -/

/-- How a proposal that is there may change in one write, under the policy that is published. -/
def Advances (policy : Policy) (p p' : PendingProposal) : Prop :=
  p'.toReviewed = p.toReviewed ∧
    (p'.status = p.status ∨
      (p.status = .pending ∧
        (p'.status = .stale ∨ p'.status = .rejected ∨ p'.status = .approvalPrepared)) ∨
      (p.status.isJournaled = true ∧
        (p'.status = .reviewRequired ∨ (p'.status = .approved ∧ p.action ∈ policy.actions))))

theorem Advances.refl (policy : Policy) (p : PendingProposal) : Advances policy p p :=
  ⟨rfl, .inl rfl⟩

/-- One write. -/
inductive Move (H : Hashes) : Disk → Disk → Prop
  /-- Proposals advance. -/
  | advance {d : Disk} {store : ProposalStore} (hvalid : store.validate H = .ok ())
      (hrows : Rewrites (Advances d.policy.policy) d.store.proposals store.proposals) :
      Move H d { d with store := store }
  /-- Pending proposals are added, each alone on its target. -/
  | propose {d : Disk} {store : ProposalStore} (hvalid : store.validate H = .ok ())
      (hold : ∀ (id : String) (p : PendingProposal), d.store.proposals[id]? = some p →
        store.proposals[id]? = some p)
      (hnew : ∀ (id : String) (p : PendingProposal), store.proposals[id]? = some p →
        d.store.proposals[id]? = none → p.status = .pending ∧
          ∀ (id' : String) (p' : PendingProposal), store.proposals[id']? = some p' →
            p'.status.isActive = true → p'.draft.operation.target = p.draft.operation.target →
            id' = id) :
      Move H d { d with store := store }
  /-- The policy gets the action of a prepared proposal. -/
  | publish {d : Disk} {id : String} {p : PendingProposal} {digest : String}
      (hp : d.store.proposals[id]? = some p) (hprepared : p.status = .approvalPrepared)
      (hvalid : (d.policy.policy.push p.action).validate = .ok ()) :
      Move H d { d with policy := ⟨d.policy.policy.push p.action, digest⟩ }

/-- The protocol state, over the policy the run started with. -/
structure Sound (H : Hashes) (policy₀ : Policy) (d : Disk) : Prop where
  policy : d.policy.policy.validate = .ok ()
  store : d.store.validate H = .ok ()
  /-- An action that was not there at the start is that of a proposal whose approval was begun. -/
  owned : ∀ a ∈ d.policy.policy.actions, a ∈ policy₀.actions ∨
    ∃ (id : String) (p : PendingProposal), d.store.proposals[id]? = some p ∧ a = p.action ∧
      (p.status = .approved ∨ p.status.isJournaled = true)
  approved : ∀ (id : String) (p : PendingProposal), d.store.proposals[id]? = some p →
    p.status = .approved → p.action ∈ d.policy.policy.actions
  alone : ∀ (id id' : String) (p p' : PendingProposal), d.store.proposals[id]? = some p →
    d.store.proposals[id']? = some p' → p.status.isActive = true → p'.status.isActive = true →
    p.draft.operation.target = p'.draft.operation.target → id = id'

theorem action_eq {p p' : Reviewed} (h : p' = p) : p'.action = p.action := by rw [h]

theorem Advances.active {policy : Policy} {p p' : PendingProposal} (h : Advances policy p p')
    (hp : p'.status.isActive = true) : p.status.isActive = true := by
  obtain ⟨-, hs | ⟨hs, -⟩ | ⟨hs, -⟩⟩ := h
  · rw [← hs]; exact hp
  · rw [hs]; rfl
  · cases hst : p.status <;> rw [hst] at hs <;> first | rfl | cases hs

/-- An approval that was begun goes on as one. -/
theorem Advances.begun {policy : Policy} {p p' : PendingProposal} (h : Advances policy p p')
    (hp : p.status = .approved ∨ p.status.isJournaled = true) :
    p'.status = .approved ∨ p'.status.isJournaled = true := by
  obtain ⟨-, hs | ⟨hs, -⟩ | ⟨-, hs | ⟨hs, -⟩⟩⟩ := h
  · rw [hs]; exact hp
  · rw [hs] at hp
    rcases hp with hp | hp <;> cases hp
  · rw [hs]; exact .inr rfl
  · exact .inl hs

/-- Whoever left `Pending` stays out of it. -/
theorem Advances.decided {policy : Policy} {p p' : PendingProposal} (h : Advances policy p p')
    (hp : p.status ≠ .pending) : p'.status ≠ .pending := by
  obtain ⟨-, hs | ⟨hs, -⟩ | ⟨-, hs | ⟨hs, -⟩⟩⟩ := h
  · rw [hs]; exact hp
  · exact absurd hs hp
  · rw [hs]; intro h; cases h
  · rw [hs]; intro h; cases h

/-- **One write keeps the protocol.** -/
theorem Sound.move {policy₀ : Policy} {d d' : Disk} (h : Sound H policy₀ d) (hm : Move H d d') :
    Sound H policy₀ d' := by
  cases hm with
  | @advance store hvalid hrows =>
    refine ⟨h.policy, hvalid, fun a ha => ?_, fun id p' hp' hs => ?_,
      fun id id' p₁ p₂ h₁ h₂ ha₁ ha₂ htarget => ?_⟩
    · rcases h.owned a ha with h₀ | ⟨id, p, hp, haction, hbegun⟩
      · exact .inl h₀
      · obtain ⟨p', hp', hadv⟩ := hrows.forward hp
        exact .inr ⟨id, p', hp', haction.trans (action_eq hadv.1).symm, hadv.begun hbegun⟩
    · obtain ⟨p, hp, hadv⟩ := hrows.back hp'
      rw [action_eq hadv.1]
      obtain ⟨-, hst | ⟨-, hst⟩ | ⟨-, hst | ⟨-, hmem⟩⟩⟩ := hadv
      · exact h.approved id p hp (hst.symm.trans hs)
      · rw [hs] at hst
        rcases hst with hst | hst | hst <;> cases hst
      · rw [hs] at hst
        cases hst
      · exact hmem
    · obtain ⟨q₁, hq₁, hadv₁⟩ := hrows.back h₁
      obtain ⟨q₂, hq₂, hadv₂⟩ := hrows.back h₂
      rw [hadv₁.1, hadv₂.1] at htarget
      exact h.alone id id' q₁ q₂ hq₁ hq₂ (hadv₁.active ha₁) (hadv₂.active ha₂) htarget
  | @propose store hvalid hold hnew =>
    refine ⟨h.policy, hvalid, fun a ha => ?_, fun id p hp hs => ?_,
      fun id id' p₁ p₂ h₁ h₂ ha₁ ha₂ htarget => ?_⟩
    · rcases h.owned a ha with h₀ | ⟨id, p, hp, hrest⟩
      · exact .inl h₀
      · exact .inr ⟨id, p, hold id p hp, hrest⟩
    · cases hd : d.store.proposals[id]? with
      | none =>
        rw [(hnew id p hp hd).1] at hs
        cases hs
      | some q =>
        have hq := hold id q hd
        rw [hp, Option.some.injEq] at hq
        exact h.approved id p (hq ▸ hd) hs
    · cases hd₁ : d.store.proposals[id]? with
      | none => exact ((hnew id p₁ h₁ hd₁).2 id' p₂ h₂ ha₂ htarget.symm).symm
      | some q₁ =>
        cases hd₂ : d.store.proposals[id']? with
        | none => exact (hnew id' p₂ h₂ hd₂).2 id p₁ h₁ ha₁ htarget
        | some q₂ =>
          have hq₁ := hold id q₁ hd₁
          have hq₂ := hold id' q₂ hd₂
          rw [h₁, Option.some.injEq] at hq₁
          rw [h₂, Option.some.injEq] at hq₂
          subst hq₁ hq₂
          exact h.alone id id' p₁ p₂ hd₁ hd₂ ha₁ ha₂ htarget
  | @publish id p digest hp hprepared hvalid =>
    refine ⟨hvalid, h.store, fun a ha => ?_, fun id' p' hp' hs => ?_, h.alone⟩
    · rcases List.mem_append.mp ha with ha | ha
      · exact h.owned a ha
      · rw [List.mem_singleton] at ha
        exact .inr ⟨id, p, hp, ha, .inr (by rw [hprepared]; rfl)⟩
    · exact List.mem_append_left _ (h.approved id' p' hp' hs)

/-- What left `Pending` is still there, and still out of it. -/
theorem Move.decided {d d' : Disk} (hm : Move H d d') {id : String} {p : PendingProposal}
    (hp : d.store.proposals[id]? = some p) (hs : p.status ≠ .pending) :
    ∃ p', d'.store.proposals[id]? = some p' ∧ p'.status ≠ .pending := by
  cases hm with
  | advance _ hrows =>
    obtain ⟨p', hp', hadv⟩ := hrows.forward hp
    exact ⟨p', hp', hadv.decided hs⟩
  | propose _ hold _ => exact ⟨p, hold id p hp, hs⟩
  | publish _ _ _ => exact ⟨p, hp, hs⟩

/-- A sequence of writes. -/
abbrev Moves (H : Hashes) : Disk → Disk → Prop := Relation.ReflTransGen (Move H)

theorem Sound.moves {policy₀ : Policy} {d d' : Disk} (h : Sound H policy₀ d) (hm : Moves H d d') :
    Sound H policy₀ d' := by
  induction hm with
  | refl => exact h
  | tail _ hmove ih => exact ih.move hmove

theorem moves_decided {d d' : Disk} (hm : Moves H d d') {id : String} {p : PendingProposal}
    (hp : d.store.proposals[id]? = some p) (hs : p.status ≠ .pending) :
    ∃ p', d'.store.proposals[id]? = some p' ∧ p'.status ≠ .pending := by
  induction hm with
  | refl => exact ⟨p, hp, hs⟩
  | tail _ hmove ih =>
    obtain ⟨p', hp', hs'⟩ := ih
    exact hmove.decided hp' hs'

/-! ### The keys of a policy -/

theorem nodup_of_validateActions {policy : Policy} {keys : List String} {actions : List Action}
    (h : policy.validateActions keys actions = .ok ()) :
    (actions.map Action.key).Nodup ∧ ∀ a ∈ actions, a.key ∉ keys := by
  induction actions generalizing keys with
  | nil => exact ⟨List.nodup_nil, fun a ha => (List.not_mem_nil ha).elim⟩
  | cons a actions ih =>
    simp only [Policy.validateActions, bind_eq_ok, exists_unit, ensure_eq_ok, not_or] at h
    obtain ⟨⟨-, -, hkey, -⟩, -, hrest⟩ := h
    obtain ⟨hnodup, hfresh⟩ := ih hrest
    refine ⟨?_, fun b hb => ?_⟩
    · rw [List.map_cons, List.nodup_cons]
      refine ⟨fun hmem => ?_, hnodup⟩
      obtain ⟨b, hb, hba⟩ := List.mem_map.mp hmem
      exact hfresh b hb (by rw [hba]; exact List.mem_cons_self)
    · rcases List.mem_cons.mp hb with rfl | hb
      · exact hkey
      · exact fun hmem => hfresh b hb (List.mem_cons_of_mem _ hmem)

/-- The keys of a valid policy are different. -/
theorem nodup_keys {policy : Policy} (h : policy.validate = .ok ()) :
    (policy.actions.map Action.key).Nodup := by
  simp only [Policy.validate, bind_eq_ok, exists_unit] at h
  exact (nodup_of_validateActions h.2.2.2.2.2).1

theorem proposalKey_inj {p p' : Reviewed} (h : p.action.key = p'.action.key) : p.id = p'.id := by
  have hl := congrArg String.toList h
  simp only [Reviewed.action, String.toList_append, List.append_cancel_left_eq] at hl
  exact String.toList_injective hl

/-- The action of a refused proposal is not in the policy, if it was not there from the start. -/
theorem Sound.refused {policy₀ : Policy} {d : Disk} (h : Sound H policy₀ d) {id : String}
    {p : PendingProposal} (hp : d.store.proposals[id]? = some p)
    (hs : p.status = .rejected ∨ p.status = .stale)
    (hkey : ∀ a ∈ policy₀.actions, a.key ≠ p.action.key) :
    ∀ a ∈ d.policy.policy.actions, a.key ≠ p.action.key := by
  intro a ha heq
  rcases h.owned a ha with h₀ | ⟨id', p', hp', rfl, hbegun⟩
  · exact hkey a h₀ heq
  · have hid := proposalKey_inj heq
    rw [(proposal_of_validate h.store hp).1, (proposal_of_validate h.store hp').1] at hid
    rw [hid, hp, Option.some.injEq] at hp'
    subst hp'
    rcases hs with hs | hs <;> rw [hs] at hbegun <;> rcases hbegun with hbegun | hbegun <;>
      cases hbegun

end AbbeyBot.CommunityOps
