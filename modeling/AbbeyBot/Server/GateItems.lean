import Mathlib
import AbbeyBot.Server.GateRun

/-! # The items of a valid plan

Where a plan is valid and the ids of a guild are unique, every item of a gate stage has an address of
its own: names that differ are found under ids that differ. The items are a worklist that settles. -/

namespace AbbeyBot.Server

open AbbeyBot.Library.OrderedMap AbbeyBot.Library.Worklist

/-! ### Stages of a valid plan -/

/-- Roles and targets are told apart by name, and so are the overwrites of a target. -/
structure GateStage.Valid (lower : String → String) (stage : GateStage) : Prop where
  roles_nodup : (stage.roles.map PlanRole.name).Nodup
  role_ne_everyone : ∀ role ∈ stage.roles, role.name ≠ everyoneName
  targets_nodup : ((planTargets stage.categories).map (Planned.key lower)).Nodup
  overwrites_nodup : ∀ p ∈ planTargets stage.categories, (p.overwrites.map Overwrite.role).Nodup
  permits_eq : stage.permits = revealPermits ∨ stage.permits = alwaysPermits

section Plan

variable {lower : String → String} {plan : Plan}

theorem mem_planTargets {categories : List PlanCategory} {p : Planned} :
    p ∈ planTargets categories ↔ p.category ∈ categories ∧
      ∀ channel ∈ p.channel, channel ∈ p.category.channels := by
  obtain ⟨category, channel⟩ := p
  simp only [planTargets, List.mem_flatMap, List.mem_cons, List.mem_map, Planned.mk.injEq]
  constructor
  · rintro ⟨c, hc, ⟨rfl, rfl⟩ | ⟨channel, hchannel, rfl, rfl⟩⟩
    · exact ⟨hc, fun _ h => absurd h (Option.not_mem_none _)⟩
    · exact ⟨hc, fun _ h => Option.some.inj h ▸ hchannel⟩
  · rintro ⟨hcategory, hchannel⟩
    refine ⟨category, hcategory, ?_⟩
    cases channel with
    | none => exact .inl ⟨rfl, rfl⟩
    | some channel => exact .inr ⟨channel, hchannel channel rfl, rfl, rfl⟩

theorem targets_nodup (h : plan.Valid lower) :
    ((planTargets plan.categories).map (Planned.key lower)).Nodup := by
  have hchannels := h.channels_nodup
  rw [Plan.channels, List.map_flatMap, List.nodup_flatMap] at hchannels
  obtain ⟨hinner, hacross⟩ := hchannels
  rw [planTargets, List.map_flatMap, List.nodup_flatMap]
  refine ⟨fun c hc => ?_, ?_⟩
  · rw [List.map_cons, List.map_map, List.nodup_cons]
    refine ⟨fun hmem => ?_, ?_⟩
    · obtain ⟨channel, -, heq⟩ := List.mem_map.mp hmem
      exact absurd heq Sum.inr_ne_inl
    · have hkeys := (hinner c hc).map (Sum.inr_injective (α := String))
      rwa [List.map_map, List.map_map] at hkeys
  · refine (hacross.and (List.pairwise_map.mp h.categories_nodup)).imp ?_
    rintro c d ⟨hdisjoint, hne⟩ key hkey hkey'
    simp only [List.map_cons, List.mem_cons, List.map_map, List.mem_map, Function.comp_apply]
      at hkey hkey'
    rcases hkey with rfl | ⟨channel, hchannel, rfl⟩ <;>
      rcases hkey' with heq | ⟨channel', hchannel', heq⟩
    · exact hne (Sum.inl_injective heq)
    · exact Sum.inr_ne_inl heq
    · exact Sum.inr_ne_inl heq
    · refine hdisjoint (a := channel.key lower) ?_ ?_
      · simpa using ⟨channel, hchannel, rfl⟩
      · simpa using ⟨channel', hchannel', Sum.inr_injective heq⟩

theorem overwrites_nodup (h : plan.Valid lower) {p : Planned}
    (hp : p ∈ planTargets plan.categories) : (p.overwrites.map Overwrite.role).Nodup := by
  obtain ⟨hcategory, hchannel⟩ := mem_planTargets.mp hp
  obtain ⟨category, channel⟩ := p
  cases channel with
  | none => exact h.category_overwrites category hcategory
  | some channel =>
    change ((effectiveOverwrites category channel).map Overwrite.role).Nodup
    rw [effectiveOverwrites]
    split_ifs
    · exact h.category_overwrites category hcategory
    · exact h.channel_overwrites (category, channel)
        (Plan.mem_channels.mpr ⟨hcategory, hchannel channel rfl⟩)

theorem category_mem {name : String} {category : PlanCategory}
    (h : plan.category name = some category) : category ∈ plan.categories :=
  List.mem_of_find?_eq_some h

/-- The gate stages of a valid plan are valid. -/
theorem gateStage_valid (h : plan.Valid lower) {scope : Scope} {stage : GateStage}
    (hstage : gateStage plan scope = some stage) : stage.Valid lower := by
  rw [gateStage] at hstage
  cases hscope : scope.stage with
  | additive => simp only [hscope] at hstage; cases hstage
  | reveal =>
    simp only [hscope, Option.some.injEq] at hstage
    subst hstage
    exact ⟨h.roles_nodup, h.role_ne_everyone, targets_nodup h, fun p hp => overwrites_nodup h hp,
      .inl rfl⟩
  | overwrites =>
    simp only [hscope, Option.map_eq_some_iff, Option.bind_eq_some_iff] at hstage
    obtain ⟨category, ⟨name, -, hcategory⟩, rfl⟩ := hstage
    have hsub : (planTargets [category]).Sublist (planTargets plan.categories) :=
      (List.singleton_sublist.mpr (category_mem hcategory)).flatMap _
    exact ⟨List.nodup_nil, fun _ h => (List.not_mem_nil h).elim,
      (targets_nodup h).sublist (hsub.map _), fun p hp => overwrites_nodup h (hsub.subset hp),
      .inr rfl⟩

end Plan

/-! ### Ids tell names apart -/

section Ids

variable {lower : String → String} {s : GuildSnapshot}

theorem name_eq_of_roleLookup (hids : s.UniqueIds) {a b : String} {id : ℕ}
    (ha : roleLookup s a = .found id) (hb : roleLookup s b = .found id) : a = b := by
  obtain ⟨role, hrole, rfl, hid⟩ := GuildSnapshot.mem_of_roleLookup ha
  obtain ⟨other, hother, rfl, hid'⟩ := GuildSnapshot.mem_of_roleLookup hb
  rw [GuildSnapshot.eq_of_id hids hrole hother (hid.trans hid'.symm)]

/-- A role that is not `@everyone` is not found under the id of the guild. -/
theorem ne_guildId_of_roleLookup (hbase : s.BaseRole) {name : String} {id : ℕ}
    (hname : name ≠ everyoneName) (h : roleLookup s name = .found id) : id ≠ s.guildId := by
  obtain ⟨role, hrole, rfl, hid⟩ := GuildSnapshot.mem_of_roleLookup h
  exact fun heq => hname (hbase.2 role hrole (hid.trans heq))

theorem overwriteRole_eq_ok {target : Target} {role : String} {id : ℕ}
    (h : overwriteRole s target role = .ok id) : role = everyoneName ∧ id = s.guildId ∨
      role ≠ everyoneName ∧ roleLookup s role = .found id := by
  rw [overwriteRole] at h
  split_ifs at h with hname
  · cases h
    exact .inl ⟨hname, rfl⟩
  · split at h
    · cases h
      exact .inr ⟨hname, ‹_›⟩
    all_goals cases h

theorem role_eq_of_overwriteRole (hids : s.UniqueIds) (hbase : s.BaseRole) {t t' : Target}
    {a b : String} {id : ℕ} (ha : overwriteRole s t a = .ok id)
    (hb : overwriteRole s t' b = .ok id) : a = b := by
  rcases overwriteRole_eq_ok ha with ⟨rfl, rfl⟩ | ⟨hne, ha⟩ <;>
    rcases overwriteRole_eq_ok hb with ⟨rfl, hid⟩ | ⟨hne', hb⟩
  · rfl
  · exact absurd rfl (ne_guildId_of_roleLookup hbase hne' hb)
  · exact absurd hid (ne_guildId_of_roleLookup hbase hne ha)
  · exact name_eq_of_roleLookup hids ha hb

/-- What a live channel is compared under. -/
def ChannelState.key (lower : String → String) (state : ChannelState) :
    Option (String ⊕ ChannelKey) :=
  match state.channelClass with
  | .category => some (.inl (categoryKey state.name))
  | .kind kind => some (.inr ⟨planChannelKey lower state.name kind, kind⟩)
  | .other => none

theorem lookup_eq_some {p : Planned} {categoryId id : ℕ}
    (h : p.lookup lower s = some (categoryId, id)) :
    categoryLookup s p.category.name = .found categoryId ∧
      ∀ channel ∈ p.channel, channelLookup lower s channel = .found id := by
  obtain ⟨category, channel⟩ := p
  rw [Planned.lookup] at h
  split at h
  · rename_i hcategory
    cases channel with
    | none =>
      simp only [Option.some.injEq, Prod.mk.injEq] at h
      exact ⟨h.1 ▸ hcategory, fun _ h => absurd h (Option.not_mem_none _)⟩
    | some channel =>
      simp only at h
      split at h
      · rename_i hchannel
        simp only [Option.some.injEq, Prod.mk.injEq] at h
        obtain ⟨rfl, rfl⟩ := h
        exact ⟨hcategory, fun _ h => Option.some.inj h ▸ hchannel⟩
      · cases h
  · cases h

theorem key_of_lookup {p : Planned} {categoryId id : ℕ}
    (h : p.lookup lower s = some (categoryId, id)) :
    ∃ state ∈ s.channels, state.id = id ∧ state.key lower = some (p.key lower) := by
  obtain ⟨hcategory, hchannel⟩ := lookup_eq_some h
  obtain ⟨category, channel⟩ := p
  cases channel with
  | none =>
    rw [Planned.lookup] at h
    simp only [hcategory, Option.some.injEq, Prod.mk.injEq, true_and] at h
    subst h
    obtain ⟨state, hmem, hid, hclass, hkey⟩ := GuildSnapshot.mem_of_categoryLookup hcategory
    refine ⟨state, hmem, hid, ?_⟩
    simp only [ChannelState.key, hclass, hkey]
    rfl
  | some channel =>
    obtain ⟨state, hmem, hid, hclass, hkey⟩ :=
      GuildSnapshot.mem_of_channelLookup (hchannel channel rfl)
    refine ⟨state, hmem, hid, ?_⟩
    simp only [ChannelState.key, hclass, hkey]
    rfl

/-- A channel is the target of one name. -/
theorem key_eq_of_lookup (hids : s.UniqueIds) {p q : Planned} {a b id : ℕ}
    (hp : p.lookup lower s = some (a, id)) (hq : q.lookup lower s = some (b, id)) :
    p.key lower = q.key lower := by
  obtain ⟨state, hmem, hid, hkey⟩ := key_of_lookup hp
  obtain ⟨state', hmem', hid', hkey'⟩ := key_of_lookup hq
  rw [GuildSnapshot.eq_of_channel_id hids hmem hmem' (hid.trans hid'.symm), hkey'] at hkey
  exact (Option.some.inj hkey).symm

end Ids

/-! ### Addresses -/

section Addresses

variable {lower : String → String} {s : GuildSnapshot} {hidden : ℕ → Bool}

/-- Items that are made from different names have different addresses. -/
theorem nodup_addresses {α β : Type} {name : α → β} {f : α → Option GateItem} {l : List α}
    (hl : (l.map name).Nodup) (hf : ∀ a ∈ l, ∀ b ∈ l, ∀ i j, f a = some i → f b = some j →
      i.address = j.address → name a = name b) :
    ((l.filterMap f).map GateItem.address).Nodup := by
  rw [List.Nodup, List.pairwise_map, List.pairwise_filterMap]
  exact (List.pairwise_map.mp hl).imp_of_mem fun ha hb hne i hi j hj heq =>
    hne (hf _ ha _ hb i j hi hj heq)

theorem roleItem_eq_some {role : PlanRole} {i : GateItem} (h : roleItem s role = some i) :
    ∃ id, roleLookup s role.name = .found id ∧ i = .role id role := by
  rw [roleItem] at h
  split at h
  · cases h
    exact ⟨_, ‹_›, rfl⟩
  · cases h

theorem overwriteItem_eq_some {id : ℕ} {target : Target} {flag : Bool} {o : Overwrite}
    {i : GateItem} (h : overwriteItem s id target flag o = some i) :
    ∃ roleId, overwriteRole s target o.role = .ok roleId ∧
      i = .overwrite id roleId target o flag := by
  rw [overwriteItem] at h
  split at h
  · cases h
    exact ⟨_, ‹_›, rfl⟩
  · cases h

theorem wanted_nodup {planned : List Overwrite} (h : (planned.map Overwrite.role).Nodup)
    (flag : Bool) : ((wantedOverwrites planned flag).map Overwrite.role).Nodup := by
  have hwanted : ((planned.map Overwrite.normalized).map Overwrite.role).Nodup := by
    rwa [List.map_map]
  rw [wantedOverwrites]
  split_ifs with hadd
  · rw [List.map_append]
    refine List.Nodup.append hwanted (List.nodup_singleton _) fun role hrole hlast => ?_
    simp only [Bool.and_eq_true, Bool.not_eq_true', List.any_eq_false, beq_iff_eq] at hadd
    obtain ⟨o, ho, rfl⟩ := List.mem_map.mp hrole
    exact hadd.1 o ho (List.mem_singleton.mp hlast)
  · exact hwanted

theorem normalized_of_wanted {planned : List Overwrite} {flag : Bool} {o : Overwrite}
    (ho : o ∈ wantedOverwrites planned flag) : o.normalized = o := by
  rw [wantedOverwrites] at ho
  have hplanned : ∀ o ∈ planned.map Overwrite.normalized, o.normalized = o := by
    intro o ho
    obtain ⟨raw, -, rfl⟩ := List.mem_map.mp ho
    exact Overwrite.normalized_normalized raw
  split_ifs at ho
  · rcases List.mem_append.mp ho with ho | ho
    · exact hplanned o ho
    · rw [List.mem_singleton.mp ho]
      rfl
  · exact hplanned o ho

/-- An item of a target writes to the channel of the target. -/
theorem mem_targetItems {edits : Bool} {p : Planned} {i : GateItem}
    (hi : i ∈ targetItems lower s hidden edits p) : ∃ categoryId id,
      p.lookup lower s = some (categoryId, id) ∧
      ((∃ channel ∈ p.channel, i = .edit id categoryId p.category channel) ∨
        ∃ o ∈ wantedOverwrites p.overwrites (hidden id), ∃ roleId,
          overwriteRole s p.target o.role = .ok roleId ∧
            i = .overwrite id roleId p.target o (hidden id)) := by
  rw [targetItems] at hi
  split at hi
  · exact (List.not_mem_nil hi).elim
  · rename_i categoryId id hlookup
    refine ⟨categoryId, id, hlookup, ?_⟩
    rcases List.mem_append.mp hi with hi | hi
    · split_ifs at hi
      · rw [Option.mem_toList, Option.map_eq_some_iff] at hi
        obtain ⟨channel, hchannel, rfl⟩ := hi
        exact .inl ⟨channel, hchannel, rfl⟩
      · exact (List.not_mem_nil hi).elim
    · obtain ⟨o, ho, hitem⟩ := List.mem_filterMap.mp hi
      obtain ⟨roleId, hrole, rfl⟩ := overwriteItem_eq_some hitem
      exact .inr ⟨o, ho, roleId, hrole, rfl⟩

theorem targetItems_nodup (hids : s.UniqueIds) (hbase : s.BaseRole) {edits : Bool} {p : Planned}
    (hp : (p.overwrites.map Overwrite.role).Nodup) :
    ((targetItems lower s hidden edits p).map GateItem.address).Nodup := by
  rw [targetItems]
  split
  · exact List.nodup_nil
  · rename_i categoryId id hlookup
    rw [List.map_append]
    refine List.Nodup.append ?_ ?_ fun a ha ha' => ?_
    · split_ifs
      · cases p.channel with
        | none => exact List.nodup_nil
        | some channel => exact List.nodup_singleton _
      · exact List.nodup_nil
    · refine nodup_addresses (wanted_nodup hp (hidden id)) fun a _ b _ i j hi hj heq => ?_
      obtain ⟨roleId, hrole, rfl⟩ := overwriteItem_eq_some hi
      obtain ⟨roleId', hrole', rfl⟩ := overwriteItem_eq_some hj
      have hroleId : roleId = roleId' := (Address.overwrite.inj heq).2
      subst hroleId
      exact role_eq_of_overwriteRole hids hbase hrole hrole'
    · obtain ⟨i, hi, rfl⟩ := List.mem_map.mp ha
      obtain ⟨j, hj, heq⟩ := List.mem_map.mp ha'
      obtain ⟨o, -, ho⟩ := List.mem_filterMap.mp hj
      obtain ⟨roleId, -, rfl⟩ := overwriteItem_eq_some ho
      split_ifs at hi
      · rw [Option.mem_toList, Option.map_eq_some_iff] at hi
        obtain ⟨channel, -, rfl⟩ := hi
        cases heq
      · exact List.not_mem_nil hi

/-- **Every item of a valid stage has an address of its own.** -/
theorem items_nodup (hids : s.UniqueIds) (hbase : s.BaseRole) {stage : GateStage}
    (h : stage.Valid lower) : ((stage.items lower s hidden).map GateItem.address).Nodup := by
  rw [GateStage.items, List.map_append]
  refine List.Nodup.append ?_ ?_ fun a ha ha' => ?_
  · refine nodup_addresses h.roles_nodup fun a _ b _ i j hi hj heq => ?_
    obtain ⟨id, hfound, rfl⟩ := roleItem_eq_some hi
    obtain ⟨id', hfound', rfl⟩ := roleItem_eq_some hj
    have hid : id = id' := Address.role.inj heq
    subst hid
    exact name_eq_of_roleLookup hids hfound hfound'
  · rw [List.map_flatMap, List.nodup_flatMap]
    refine ⟨fun p hp => targetItems_nodup hids hbase (h.overwrites_nodup p hp), ?_⟩
    refine (List.pairwise_map.mp h.targets_nodup).imp fun {p q} hne a ha ha' => hne ?_
    obtain ⟨i, hi, rfl⟩ := List.mem_map.mp ha
    obtain ⟨j, hj, heq⟩ := List.mem_map.mp ha'
    obtain ⟨c, id, hlookup, hi⟩ := mem_targetItems hi
    obtain ⟨c', id', hlookup', hj⟩ := mem_targetItems hj
    have hid : id' = id := by
      rcases hi with ⟨_, _, rfl⟩ | ⟨_, _, _, _, rfl⟩ <;>
        rcases hj with ⟨_, _, rfl⟩ | ⟨_, _, _, _, rfl⟩ <;>
        simp only [GateItem.address, Address.edit.injEq, Address.overwrite.injEq,
          reduceCtorEq] at heq
      · exact heq
      · exact heq.1
    subst hid
    exact key_eq_of_lookup hids hlookup hlookup'
  · obtain ⟨i, hi, rfl⟩ := List.mem_map.mp ha
    obtain ⟨j, hj, heq⟩ := List.mem_map.mp ha'
    obtain ⟨role, -, hrole⟩ := List.mem_filterMap.mp hi
    obtain ⟨id, -, rfl⟩ := roleItem_eq_some hrole
    obtain ⟨p, -, hj⟩ := List.mem_flatMap.mp hj
    obtain ⟨c, id', -, ⟨_, _, rfl⟩ | ⟨_, _, _, _, rfl⟩⟩ := mem_targetItems hj <;> cases heq

theorem items_sound {stage : GateStage} (h : stage.Valid lower) {i : GateItem}
    (hi : i ∈ stage.items lower s hidden) : i.Sound lower s := by
  rw [GateStage.items, List.mem_append, List.mem_filterMap, List.mem_flatMap] at hi
  rcases hi with ⟨role, hrole, hi⟩ | ⟨p, -, hi⟩
  · obtain ⟨id, hfound, rfl⟩ := roleItem_eq_some hi
    exact ⟨hfound, h.role_ne_everyone role hrole⟩
  · obtain ⟨categoryId, id, hlookup, ⟨channel, hchannel, rfl⟩ | ⟨o, ho, roleId, hrole, rfl⟩⟩ :=
      mem_targetItems hi
    · exact ⟨(lookup_eq_some hlookup).1, (lookup_eq_some hlookup).2 channel hchannel⟩
    · exact ⟨hrole, normalized_of_wanted ho, p, categoryId, hlookup, rfl⟩

/-- Every address is as it was, or has what one of the items was missing. -/
structure Traced (lower : String → String) (permits : Permits) (items : List GateItem)
    (s₀ : GuildSnapshot) (e : Engine) : Prop extends GateInv lower s₀ e where
  grows : Grows s₀ e.guild.snapshot
  traced : ∀ a, Agree a s₀ e.guild.snapshot ∨ ∃ i ∈ items, i.address = a ∧
    i.Placed e.guild.snapshot ∧ i.cell permits s₀ ≠ none
  overwrites : ∀ id, (e.guild.snapshot.channelById id).map ChannelState.overwrites =
      (s₀.channelById id).map ChannelState.overwrites ∨
    ∃ i ∈ items, ∃ roleId, i.address = .overwrite id roleId ∧
      i.Placed e.guild.snapshot ∧ i.cell permits s₀ ≠ none

theorem traced_start (permits : Permits) (items : List GateItem) (s₀ : GuildSnapshot) :
    Traced lower permits items s₀ (Engine.start lower s₀) :=
  ⟨⟨.refl s₀, rfl⟩, .refl s₀, fun a => .inl (.refl a s₀), fun _ => .inl rfl⟩

/-- An item that is settled now was missing something at the start. -/
theorem Traced.cell_ne_none {permits : Permits} {items : List GateItem} {e : Engine}
    (h : Traced lower permits items s e) (hnodup : (items.map GateItem.address).Nodup) {i : GateItem}
    (hi : i ∈ items) {change : Change} (hc : i.cell permits e.guild.snapshot = some change) :
    i.cell permits s ≠ none := by
  rcases h.traced i.address with hagree | ⟨j, hj, haddress, -, hcell⟩
  · rw [← cell_eq_of_agree h.names hagree, hc]
    exact Option.some_ne_none change
  · rwa [← List.inj_on_of_nodup_map hnodup hj hi haddress]

/-- **The items of a valid stage are a worklist that settles.** -/
theorem gate_settles (hids : s.UniqueIds) (hbase : s.BaseRole) {stage : GateStage}
    (h : stage.Valid lower) (hidden : ℕ → Bool) :
    Settles (Engine.step lower) (Traced lower stage.permits (stage.items lower s hidden) s)
      (fun i e => i.cell stage.permits e.guild.snapshot) (stage.items lower s hidden) where
  settle before i after hitems e change he _ hc := by
    have hnodup := @items_nodup lower s hidden hids hbase stage h
    have hi : i ∈ stage.items lower s hidden :=
      hitems ▸ List.mem_append_right before List.mem_cons_self
    obtain ⟨next, hstep, hinv, hsettled, hplaced, hnames, hgrows, hoverwrites, hothers⟩ :=
      settle_item he.toGateInv (items_sound h hi) hc
    have hcell := he.cell_ne_none hnodup hi hc
    have hkept : ∀ j ∈ stage.items lower s hidden, j.Placed e.guild.snapshot →
        j.Placed next.guild.snapshot := fun j hj hjplaced => by
      by_cases ha : j.address = i.address
      · rwa [List.inj_on_of_nodup_map hnodup hj hi ha]
      · exact hjplaced.of_agree (hothers _ ha)
    refine ⟨next, hstep, ⟨hinv, he.grows.trans hgrows, fun a => ?_, fun id => ?_⟩, hsettled,
      fun j hj => cell_eq_of_agree hnames (hothers _ fun heq => ?_)⟩
    · by_cases ha : a = i.address
      · exact .inr ⟨i, hi, ha.symm, hplaced, hcell⟩
      · refine (he.traced a).imp (fun hagree => hagree.trans (hothers a ha)) ?_
        rintro ⟨j, hj, rfl, hjplaced, hjcell⟩
        exact ⟨j, hj, rfl, hkept j hj hjplaced, hjcell⟩
    · by_cases ha : ∃ roleId, i.address = .overwrite id roleId
      · obtain ⟨roleId, ha⟩ := ha
        exact .inr ⟨i, hi, roleId, ha, hplaced, hcell⟩
      · refine (he.overwrites id).imp (fun hsame =>
          (hoverwrites id fun roleId heq => ha ⟨roleId, heq⟩).trans hsame) ?_
        rintro ⟨j, hj, roleId, haddress, hjplaced, hjcell⟩
        exact ⟨j, hj, roleId, haddress, hkept j hj hjplaced, hjcell⟩
    · rw [hitems, List.map_append, List.map_cons, List.nodup_middle, List.nodup_cons, ← heq,
        ← List.map_append] at hnodup
      exact hnodup.1 (List.mem_map_of_mem hj)

end Addresses

end AbbeyBot.Server
