import Mathlib
import AbbeyBot.Server.Engine

/-! # Guilds with the same names

What a stage may change in a role or a channel that exists is not what a comparison finds it by: ids,
names, positions, classes and permissions stay. Two such guilds are searched with the same results,
and the bot holds the same in both. -/

namespace AbbeyBot.Server

open AbbeyBot.Library.OrderedMap AbbeyBot.Library.FirstMatch

/-- The part of a role that is never written. -/
def RoleState.identity (role : RoleState) : ℕ × String × ℕ × Bool × List String :=
  (role.id, role.name, role.position, role.managed, role.permissions)

/-- The part of a channel that is never written. -/
def ChannelState.identity (channel : ChannelState) : ℕ × String × ChannelClass :=
  (channel.id, channel.name, channel.channelClass)

namespace GuildSnapshot

structure SameNames (s t : GuildSnapshot) : Prop where
  guildId : t.guildId = s.guildId
  features : t.features = s.features
  bot : t.bot = s.bot
  roles : t.roles.map RoleState.identity = s.roles.map RoleState.identity
  channels : t.channels.map ChannelState.identity = s.channels.map ChannelState.identity

/-- No two roles and no two channels have the same id. -/
structure UniqueIds (s : GuildSnapshot) : Prop where
  roles : (s.roles.map RoleState.id).Nodup
  channels : (s.channels.map ChannelState.id).Nodup

/-- The role with the id of the guild is there, and is named `@everyone`. -/
def BaseRole (s : GuildSnapshot) : Prop :=
  (∃ role ∈ s.roles, role.id = s.guildId) ∧
    ∀ role ∈ s.roles, role.id = s.guildId → role.name = everyoneName

theorem eq_of_id {s : GuildSnapshot} (h : s.UniqueIds) {a b : RoleState} (ha : a ∈ s.roles)
    (hb : b ∈ s.roles) (hid : a.id = b.id) : a = b :=
  List.inj_on_of_nodup_map h.roles ha hb hid

theorem eq_of_channel_id {s : GuildSnapshot} (h : s.UniqueIds) {a b : ChannelState}
    (ha : a ∈ s.channels) (hb : b ∈ s.channels) (hid : a.id = b.id) : a = b :=
  List.inj_on_of_nodup_map h.channels ha hb hid

/-! ### Found -/

theorem mem_of_roleLookup {s : GuildSnapshot} {name : String} {id : ℕ}
    (h : roleLookup s name = .found id) : ∃ role ∈ s.roles, role.name = name ∧ role.id = id := by
  rw [roleLookup] at h
  split at h
  · cases h
  · rename_i role hrole
    split_ifs at h
    cases h
    have hmem : role ∈ s.rolesNamed name := hrole ▸ List.mem_singleton_self role
    rw [rolesNamed, List.mem_filter, decide_eq_true_eq] at hmem
    exact ⟨role, hmem.1, hmem.2, rfl⟩
  · cases h

theorem mem_of_ofMatches {channels : List ChannelState} {id : ℕ}
    (h : Lookup.ofMatches channels = .found id) : ∃ channel ∈ channels, channel.id = id := by
  match channels with
  | [] => cases h
  | [one] => cases h; exact ⟨one, List.mem_singleton_self one, rfl⟩
  | _ :: _ :: _ => cases h

theorem mem_of_categoryLookup {s : GuildSnapshot} {name : String} {id : ℕ}
    (h : categoryLookup s name = .found id) : ∃ channel ∈ s.channels, channel.id = id ∧
      channel.channelClass = .category ∧ categoryKey channel.name = categoryKey name := by
  obtain ⟨channel, hmem, hid⟩ := mem_of_ofMatches h
  rw [categoriesNamed, List.mem_filter, decide_eq_true_eq] at hmem
  exact ⟨channel, hmem.1, hid, hmem.2⟩

theorem mem_of_channelLookup {lower : String → String} {s : GuildSnapshot} {planned : PlanChannel}
    {id : ℕ} (h : channelLookup lower s planned = .found id) : ∃ channel ∈ s.channels,
      channel.id = id ∧ channel.channelClass = .kind planned.kind ∧
        planChannelKey lower channel.name planned.kind =
          planChannelKey lower planned.name planned.kind := by
  obtain ⟨channel, hmem, hid⟩ := mem_of_ofMatches h
  rw [channelsMatching, List.mem_filter, decide_eq_true_eq] at hmem
  exact ⟨channel, hmem.1, hid, hmem.2⟩

theorem exists_channelById {s : GuildSnapshot} {channel : ChannelState}
    (h : channel ∈ s.channels) : ∃ state, s.channelById channel.id = some state := by
  cases hfind : s.channelById channel.id with
  | some state => exact ⟨state, rfl⟩
  | none => exact absurd (decide_eq_true rfl) (List.find?_eq_none.mp hfind channel h)

namespace SameNames

variable {s t u : GuildSnapshot}

theorem refl (s : GuildSnapshot) : s.SameNames s := ⟨rfl, rfl, rfl, rfl, rfl⟩

theorem trans (h : s.SameNames t) (h' : t.SameNames u) : s.SameNames u :=
  ⟨h'.guildId.trans h.guildId, h'.features.trans h.features, h'.bot.trans h.bot,
    h'.roles.trans h.roles, h'.channels.trans h.channels⟩

/-! ### Searches -/

theorem map_filter_eq {α β : Type} {f : α → β} {l l' : List α} (h : l'.map f = l.map f)
    (q : β → Bool) : (l'.filter fun a => q (f a)).map f = (l.filter fun a => q (f a)).map f := by
  calc (l'.filter fun a => q (f a)).map f = (l'.map f).filter q := (List.filter_map ..).symm
    _ = (l.map f).filter q := by rw [h]
    _ = (l.filter fun a => q (f a)).map f := List.filter_map ..

theorem map_find?_eq {α β : Type} {f : α → β} {l l' : List α} (h : l'.map f = l.map f)
    (q : β → Bool) : (l'.find? fun a => q (f a)).map f = (l.find? fun a => q (f a)).map f := by
  calc (l'.find? fun a => q (f a)).map f = (l'.map f).find? q := (List.find?_map ..).symm
    _ = (l.map f).find? q := by rw [h]
    _ = (l.find? fun a => q (f a)).map f := List.find?_map ..

variable (h : s.SameNames t)

include h in
theorem roleById (id : ℕ) :
    (t.roleById id).map RoleState.identity = (s.roleById id).map RoleState.identity :=
  map_find?_eq h.roles fun r => decide (r.1 = id)

include h in
theorem roleLookup (name : String) : Server.roleLookup t name = Server.roleLookup s name := by
  have hmap : (t.rolesNamed name).map RoleState.identity =
      (s.rolesNamed name).map RoleState.identity :=
    map_filter_eq h.roles fun r => decide (r.2.1 = name)
  rw [Server.roleLookup, Server.roleLookup]
  have hlen := congrArg List.length hmap
  rw [List.length_map, List.length_map] at hlen
  generalize t.rolesNamed name = l at hmap hlen ⊢
  generalize s.rolesNamed name = m at hmap hlen ⊢
  rcases l with _ | ⟨a, _ | ⟨a', l⟩⟩ <;> rcases m with _ | ⟨b, _ | ⟨b', m⟩⟩
  case nil.nil => rfl
  case cons.nil.cons.nil =>
    have hab : a.identity = b.identity := List.head_eq_of_cons_eq hmap
    simp only [RoleState.identity, Prod.mk.injEq] at hab
    simp only [hab]
  case cons.cons.cons.cons => simp only [hlen]
  -- the two lists have the same length
  all_goals simp at hlen

theorem ofMatches_eq {l m : List ChannelState}
    (hmap : l.map ChannelState.identity = m.map ChannelState.identity) :
    Lookup.ofMatches l = Lookup.ofMatches m := by
  match l, m with
  | [], [] => rfl
  | [a], [b] =>
    have hab : a.identity = b.identity := List.head_eq_of_cons_eq hmap
    simp only [ChannelState.identity, Prod.mk.injEq] at hab
    simp only [Lookup.ofMatches, hab]
  | a :: a' :: l, b :: b' :: m =>
    have hlen := congrArg List.length hmap
    rw [List.length_map, List.length_map] at hlen
    simp only [Lookup.ofMatches, hlen]
  | [], _ :: _ => cases hmap
  | _ :: _, [] => cases hmap
  | [_], _ :: _ :: _ => exact absurd (congrArg List.length hmap) (by simp)
  | _ :: _ :: _, [_] => exact absurd (congrArg List.length hmap) (by simp)

include h in
theorem categoriesNamed (name : String) :
    (t.categoriesNamed name).map ChannelState.identity =
      (s.categoriesNamed name).map ChannelState.identity :=
  map_filter_eq h.channels fun c =>
    decide (c.2.2 = .category ∧ categoryKey c.2.1 = categoryKey name)

include h in
theorem channelsMatching (lower : String → String) (name : String) (kind : ChannelKind) :
    (t.channelsMatching lower name kind).map ChannelState.identity =
      (s.channelsMatching lower name kind).map ChannelState.identity :=
  map_filter_eq h.channels fun c => decide (c.2.2 = .kind kind ∧
    planChannelKey lower c.2.1 kind = planChannelKey lower name kind)

include h in
theorem categoryLookup (name : String) :
    Server.categoryLookup t name = Server.categoryLookup s name :=
  ofMatches_eq (h.categoriesNamed name)

include h in
theorem channelLookup (lower : String → String) (channel : PlanChannel) :
    Server.channelLookup lower t channel = Server.channelLookup lower s channel :=
  ofMatches_eq (h.channelsMatching lower channel.name channel.kind)

include h in
theorem overwriteRole (target : Target) (role : String) :
    Server.overwriteRole t target role = Server.overwriteRole s target role := by
  rw [Server.overwriteRole, Server.overwriteRole, h.roleLookup, h.guildId]

/-! ### The bot -/

theorem permissions_eq {a b : Option RoleState}
    (hmap : a.map RoleState.identity = b.map RoleState.identity) :
    a.elim [] RoleState.permissions = b.elim [] RoleState.permissions := by
  match a, b with
  | none, none => rfl
  | some a, some b =>
    have hab : a.identity = b.identity := Option.some.inj hmap
    simp only [RoleState.identity, Prod.mk.injEq] at hab
    exact hab.2.2.2.2
  | none, some _ => cases hmap
  | some _, none => cases hmap

theorem position_eq {a b : Option RoleState}
    (hmap : a.map RoleState.identity = b.map RoleState.identity) :
    a.map RoleState.position = b.map RoleState.position := by
  match a, b with
  | none, none => rfl
  | some a, some b =>
    have hab : a.identity = b.identity := Option.some.inj hmap
    simp only [RoleState.identity, Prod.mk.injEq] at hab
    exact congrArg some hab.2.2.1
  | none, some _ => cases hmap
  | some _, none => cases hmap

include h in
theorem botPermissions : t.botPermissions = s.botPermissions := by
  have heveryone : t.everyoneRole.elim [] RoleState.permissions =
      s.everyoneRole.elim [] RoleState.permissions := by
    refine permissions_eq ?_
    change (t.roleById t.guildId).map _ = (s.roleById s.guildId).map _
    rw [h.guildId]
    exact h.roleById s.guildId
  rw [GuildSnapshot.botPermissions, GuildSnapshot.botPermissions, heveryone, h.bot]
  congr 2
  exact List.flatMap_congr fun id _ => permissions_eq (h.roleById id)

include h in
theorem botTopPosition : t.botTopPosition = s.botTopPosition := by
  have hpositions : ∀ ids : List ℕ, (ids.filterMap t.roleById).map RoleState.position =
      (ids.filterMap s.roleById).map RoleState.position := by
    intro ids
    rw [List.map_filterMap, List.map_filterMap]
    exact List.filterMap_congr fun id _ => position_eq (h.roleById id)
  rw [GuildSnapshot.botTopPosition, GuildSnapshot.botTopPosition, h.bot, hpositions]

/-! ### Ids -/

include h in
theorem uniqueIds (hids : s.UniqueIds) : t.UniqueIds where
  roles := by
    have hmap := congrArg (List.map Prod.fst) h.roles
    rw [List.map_map, List.map_map] at hmap
    exact (congrArg List.Nodup hmap).mpr hids.roles
  channels := by
    have hmap := congrArg (List.map Prod.fst) h.channels
    rw [List.map_map, List.map_map] at hmap
    exact (congrArg List.Nodup hmap).mpr hids.channels

include h in
theorem baseRole (hbase : s.BaseRole) : t.BaseRole := by
  have hroles := congrArg (List.map fun r => (r.1, r.2.1)) h.roles
  rw [List.map_map, List.map_map] at hroles
  have hmem (id : ℕ) (name : String) : (∃ role ∈ t.roles, (role.id, role.name) = (id, name)) ↔
      ∃ role ∈ s.roles, (role.id, role.name) = (id, name) := by
    have hiff : (id, name) ∈ t.roles.map (fun role => (role.id, role.name)) ↔
        (id, name) ∈ s.roles.map fun role => (role.id, role.name) := by
      rw [show t.roles.map (fun role => (role.id, role.name)) = _ from hroles]
      rfl
    rwa [List.mem_map, List.mem_map] at hiff
  refine ⟨?_, fun role hrole hid => ?_⟩
  · obtain ⟨role, hrole, hid⟩ := hbase.1
    obtain ⟨role', hrole', heq⟩ := (hmem role.id role.name).mpr ⟨role, hrole, rfl⟩
    exact ⟨role', hrole', by rw [h.guildId, ← hid]; exact congrArg Prod.fst heq⟩
  · obtain ⟨role', hrole', heq⟩ := (hmem role.id role.name).mp ⟨role, hrole, rfl⟩
    have hname := hbase.2 role' hrole' (by rw [← h.guildId, ← hid]; exact congrArg Prod.fst heq)
    exact (congrArg Prod.snd heq).symm.trans hname

end SameNames

end GuildSnapshot

end AbbeyBot.Server
