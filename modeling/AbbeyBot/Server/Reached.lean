import Mathlib
import AbbeyBot.Server.Clear

/-! # Where a run has come to

Two items of a gate stage do not make the same change. So a report does not list a change twice, and
where a run stops, an overwrite has been written exactly where its change is among the first ones. -/

namespace AbbeyBot.Server

open AbbeyBot.Library.OrderedMap AbbeyBot.Library.Worklist

/-! ### Changes and items -/

section Changes

variable {lower : String → String} {s₀ : GuildSnapshot} {permits : Permits}

theorem lookup_of_target {p q : Planned} {a b id id' : ℕ} (htarget : p.target = q.target)
    (hp : p.lookup lower s₀ = some (a, id)) (hq : q.lookup lower s₀ = some (b, id')) : id = id' := by
  have hown (p : Planned) {a id : ℕ} (h : p.lookup lower s₀ = some (a, id)) :
      (∀ name, p.target = .category name → categoryLookup s₀ name = .found id) ∧
      ∀ name kind, p.target = .channel name kind →
        channelLookup lower s₀ ⟨name, kind, none, none, [], []⟩ = .found id := by
    obtain ⟨category, channel⟩ := p
    cases channel with
    | none =>
      have hcategory := (lookup_eq_some h).1
      rw [Planned.lookup] at h
      simp only [hcategory, Option.some.injEq, Prod.mk.injEq, true_and] at h
      refine ⟨fun name hname => ?_, fun name kind hname => (by cases hname)⟩
      cases hname
      exact h ▸ hcategory
    | some channel =>
      refine ⟨fun name hname => (by cases hname), fun name kind hname => ?_⟩
      cases hname
      exact (lookup_eq_some h).2 channel rfl
  cases hkind : p.target with
  | category name =>
    have hfound := (hown p hp).1 name hkind
    rw [(hown q hq).1 name (htarget.symm.trans hkind), Lookup.found.injEq] at hfound
    exact hfound.symm
  | channel name kind =>
    have hfound := (hown p hp).2 name kind hkind
    rw [(hown q hq).2 name kind (htarget.symm.trans hkind), Lookup.found.injEq] at hfound
    exact hfound.symm

/-- The change an item makes. -/
def GateItem.Makes : GateItem → Change → Prop
  | .role _ planned, change =>
    change = .editRole planned.name planned.hoist planned.mentionable planned.colour
  | .edit _ _ category channel, change =>
    ∃ topic, change = .editChannel channel.name channel.kind category.name topic
  | .overwrite _ _ target wanted _, change => change = .setOverwrite target wanted

theorem makes_of_cell {i : GateItem} {s : GuildSnapshot} {change : Change} (hi : i.Sound lower s₀)
    (hc : i.cell permits s = some change) : i.Makes change := by
  cases i with
  | role id planned =>
    obtain ⟨current, -, hc⟩ := Option.bind_eq_some_iff.mp hc
    exact (compareRole_settled hc).1
  | edit id categoryId category channel =>
    obtain ⟨state, -, hc⟩ := Option.bind_eq_some_iff.mp hc
    obtain ⟨topic, hchange, -⟩ := editChange_settled hc
    exact ⟨topic, hchange⟩
  | overwrite id roleId target wanted flag =>
    obtain ⟨state, -, hc⟩ := Option.bind_eq_some_iff.mp hc
    exact (compareOverwrite_settled hi.2.1 hc roleId).1

/-- Where a change is written can be told from the change. -/
theorem address_of_makes {i j : GateItem} {change : Change} (hi : i.Sound lower s₀)
    (hj : j.Sound lower s₀) (hci : i.Makes change) (hcj : j.Makes change) :
    i.address = j.address := by
  cases i with
  | role id planned =>
    cases hci
    cases j with
    | role id' planned' =>
      have hfound := hi.1
      rw [(Change.editRole.inj hcj).1, hj.1, RoleLookup.found.injEq] at hfound
      rw [GateItem.address, GateItem.address, hfound]
    | edit => obtain ⟨_, hcj⟩ := hcj; cases hcj
    | overwrite => cases hcj
  | edit id categoryId category channel =>
    obtain ⟨topic, rfl⟩ := hci
    cases j with
    | role => cases hcj
    | edit id' categoryId' category' channel' =>
      obtain ⟨topic', hcj⟩ := hcj
      obtain ⟨hname, hkind, -, -⟩ := Change.editChannel.inj hcj
      have hfound := hi.2
      rw [channelLookup, hname, hkind, ← channelLookup, hj.2, Lookup.found.injEq] at hfound
      rw [GateItem.address, GateItem.address, hfound]
    | overwrite => cases hcj
  | overwrite id roleId target wanted flag =>
    cases hci
    cases j with
    | role => cases hcj
    | edit => obtain ⟨_, hcj⟩ := hcj; cases hcj
    | overwrite id' roleId' target' wanted' flag' =>
      obtain ⟨rfl, rfl⟩ := Change.setOverwrite.inj hcj
      obtain ⟨hrole, -, p, a, hp, htarget⟩ := hi
      obtain ⟨hrole', -, q, b, hq, htarget'⟩ := hj
      rw [hrole', Except.ok.injEq] at hrole
      rw [GateItem.address, GateItem.address, hrole,
        lookup_of_target (htarget.trans htarget'.symm) hp hq]

end Changes

/-! ### Where a run has come to -/

/-- A gate stage has been run as far as the first `k` changes of its report. -/
structure Reached (lower : String → String) (plan : Plan) (s₀ : GuildSnapshot) (scope : Scope)
    (stage : GateStage) (k : ℕ) (e : Engine) : Prop where
  isStage : gateStage plan scope = some stage
  valid : stage.Valid lower
  ids : s₀.UniqueIds
  base : s₀.BaseRole
  traced : Traced lower stage.permits (stage.items lower s₀ (hiddenFlags s₀)) s₀ e
  rest : pending (GateItem.cell stage.permits) (stage.items lower s₀ (hiddenFlags s₀))
    e.guild.snapshot = (diff lower plan s₀ scope).changes.drop k

namespace Reached

variable {lower : String → String} {plan : Plan} {s₀ : GuildSnapshot} {scope : Scope}
  {stage : GateStage} {k : ℕ} {e : Engine}

section Items

variable (h : Reached lower plan s₀ scope stage k e)

include h in
theorem changes_eq : (diff lower plan s₀ scope).changes =
    pending (GateItem.cell stage.permits) (stage.items lower s₀ (hiddenFlags s₀)) s₀ :=
  changes_eq_pending h.isStage

include h in
theorem item_eq {i j : GateItem} (hi : i ∈ stage.items lower s₀ (hiddenFlags s₀))
    (hj : j ∈ stage.items lower s₀ (hiddenFlags s₀)) (haddress : i.address = j.address) : i = j :=
  List.inj_on_of_nodup_map (items_nodup h.ids h.base h.valid) hi hj haddress

include h in
theorem item_of_change {s : GuildSnapshot} {i j : GateItem} {change : Change}
    (hi : i ∈ stage.items lower s₀ (hiddenFlags s₀)) (hmakes : i.Makes change)
    (hj : j ∈ stage.items lower s₀ (hiddenFlags s₀)) (hc : j.cell stage.permits s = some change) :
    j = i :=
  have hsound := items_sound h.valid hj
  h.item_eq hj hi (address_of_makes hsound (items_sound h.valid hi) (makes_of_cell hsound hc) hmakes)

include h in
theorem changes_nodup : (diff lower plan s₀ scope).changes.Nodup := by
  have hitems := @items_nodup lower s₀ (hiddenFlags s₀) h.ids h.base stage h.valid
  rw [h.changes_eq, pending, List.Nodup, List.pairwise_filterMap]
  refine (List.pairwise_map.mp hitems).imp_of_mem fun {i j} hi hj hne c hci d hcj heq => hne ?_
  have hsound := items_sound h.valid hi
  rw [h.item_of_change hi (makes_of_cell hsound hci) hj (heq ▸ hcj)]

include h in
theorem not_mem_drop {change : Change} (hmem : change ∈ (diff lower plan s₀ scope).changes.take k) :
    change ∉ (diff lower plan s₀ scope).changes.drop k := by
  have hnodup := h.changes_nodup
  rw [← List.take_append_drop k (diff lower plan s₀ scope).changes] at hnodup
  exact fun hdrop => List.disjoint_of_nodup_append hnodup hmem hdrop

include h in
/-- An overwrite among the first changes has been written. -/
theorem placed_of_take {id roleId : ℕ} {target : Target} {o : Overwrite} {flag : Bool}
    (hi : .overwrite id roleId target o flag ∈ stage.items lower s₀ (hiddenFlags s₀))
    (hcell : (GateItem.overwrite id roleId target o flag).cell stage.permits s₀ ≠ none)
    (hmem : .setOverwrite target o ∈ (diff lower plan s₀ scope).changes.take k) :
    (GateItem.overwrite id roleId target o flag).Placed e.guild.snapshot := by
  have hnone : (GateItem.overwrite id roleId target o flag).cell stage.permits
      e.guild.snapshot = none := by
    rw [Option.eq_none_iff_forall_ne_some]
    intro change hc
    have hmakes : change = .setOverwrite target o := makes_of_cell (items_sound h.valid hi) hc
    refine h.not_mem_drop hmem (hmakes ▸ ?_)
    rw [← h.rest]
    exact mem_pending.mpr ⟨_, hi, hc⟩
  rcases h.traced.traced (.overwrite id roleId) with hagree | ⟨j, hj, haddress, hplaced, -⟩
  · rw [cell_eq_of_agree h.traced.names (i := .overwrite id roleId target o flag) hagree] at hnone
    exact absurd hnone hcell
  · rwa [← h.item_eq hj hi haddress]

include h in
/-- An overwrite that has been written was among the first changes. -/
theorem take_of_placed {i : GateItem} {id roleId : ℕ}
    (hi : i ∈ stage.items lower s₀ (hiddenFlags s₀)) (haddress : i.address = .overwrite id roleId)
    (hplaced : i.Placed e.guild.snapshot) {change : Change}
    (hc : i.cell stage.permits s₀ = some change) :
    change ∈ (diff lower plan s₀ scope).changes.take k := by
  have hmem : change ∈ (diff lower plan s₀ scope).changes := by
    rw [h.changes_eq]
    exact mem_pending.mpr ⟨i, hi, hc⟩
  rw [← List.take_append_drop k (diff lower plan s₀ scope).changes] at hmem
  refine (List.mem_append.mp hmem).resolve_right fun hdrop => ?_
  rw [← h.rest] at hdrop
  obtain ⟨j, hj, hcj⟩ := mem_pending.mp hdrop
  have hsound := items_sound h.valid hi
  rw [h.item_of_change hi (makes_of_cell hsound hc) hj hcj,
    cell_of_placed haddress hsound hplaced] at hcj
  cases hcj

include h in
/-- An overwrite that a report changes is an item of its target. -/
theorem item_of_setOverwrite {s : GuildSnapshot} {p : Planned}
    (hp : p ∈ planTargets stage.categories) {categoryId id : ℕ}
    (hlookup : p.lookup lower s₀ = some (categoryId, id)) {o : Overwrite}
    (hmem : .setOverwrite p.target o ∈
      pending (GateItem.cell stage.permits) (stage.items lower s₀ (hiddenFlags s₀)) s) :
    o ∈ wantedOverwrites p.overwrites (hiddenFlags s₀ id) ∧ ∃ roleId,
      overwriteRole s₀ p.target o.role = .ok roleId ∧
      .overwrite id roleId p.target o (hiddenFlags s₀ id) ∈ stage.items lower s₀ (hiddenFlags s₀) ∧
      (GateItem.overwrite id roleId p.target o (hiddenFlags s₀ id)).cell stage.permits s =
        some (.setOverwrite p.target o) := by
  obtain ⟨i, hi, hc⟩ := mem_pending.mp hmem
  have hmakes := makes_of_cell (items_sound h.valid hi) hc
  rcases mem_items.mp hi with ⟨role, -, hrole⟩ | ⟨q, hq, hitem⟩
  · obtain ⟨_, -, rfl⟩ := roleItem_eq_some hrole
    cases hmakes
  obtain ⟨c, id', hlookup', ⟨_, -, rfl⟩ | ⟨o', ho, roleId, hrole, rfl⟩⟩ := mem_targetItems hitem
  · obtain ⟨_, hmakes⟩ := hmakes
    cases hmakes
  obtain ⟨htarget, rfl⟩ := Change.setOverwrite.inj hmakes
  have hid := lookup_of_target htarget hlookup hlookup'
  subst hid
  obtain rfl := planned_eq_of_lookup h.ids h.valid hp hq hlookup hlookup'
  exact ⟨ho, roleId, hrole, hi, hc⟩

end Items

end Reached

end AbbeyBot.Server
