import Mathlib
import AbbeyBot.Server.Gate

/-! # Running a gate stage

Each item of a gate stage is settled by its change, and no other item notices: a role's cosmetics, a
channel's parent and topic, and each of its overwrites are written apart from one another. -/

namespace AbbeyBot.Server

open AbbeyBot.Library.OrderedMap AbbeyBot.Library.Worklist AbbeyBot.Library.FirstMatch
open AbbeyBot.Library.Text

/-! ### Frames -/

/-- Two guilds have the same at an address. -/
def Agree : Address → GuildSnapshot → GuildSnapshot → Prop
  | .role id, s, t => t.roleById id = s.roleById id
  | .edit id, s, t => (t.channelById id).map (fun c => (c.parent, c.topic)) =
      (s.channelById id).map fun c => (c.parent, c.topic)
  | .overwrite id roleId, s, t => (t.channelById id).map (fun c => c.overwriteForRole roleId) =
      (s.channelById id).map fun c => c.overwriteForRole roleId

/-- An item reads its own address only, besides what is never written. -/
theorem cell_eq_of_agree {permits : Permits} {s t : GuildSnapshot} (h : s.SameNames t)
    {i : GateItem} (hagree : Agree i.address s t) : i.cell permits t = i.cell permits s := by
  cases i with
  | role id role =>
    have hagree : t.roleById id = s.roleById id := hagree
    rw [GateItem.cell, GateItem.cell, hagree, h.botTopPosition]
  | edit id categoryId category channel =>
    simp only [GateItem.cell]
    cases ht : t.channelById id with
    | none =>
      cases hs : s.channelById id with
      | none => rfl
      | some b => simp [Agree, GateItem.address, ht, hs] at hagree
    | some a =>
      cases hs : s.channelById id with
      | none => simp [Agree, GateItem.address, ht, hs] at hagree
      | some b =>
        simp only [Agree, GateItem.address, ht, hs, Option.map_some, Option.some.injEq,
          Prod.mk.injEq] at hagree
        simp only [Option.bind_some, editChange, hagree]
  | overwrite id roleId target wanted hidden =>
    simp only [GateItem.cell]
    cases ht : t.channelById id with
    | none =>
      cases hs : s.channelById id with
      | none => rfl
      | some b => simp [Agree, GateItem.address, ht, hs] at hagree
    | some a =>
      cases hs : s.channelById id with
      | none => simp [Agree, GateItem.address, ht, hs] at hagree
      | some b =>
        simp only [Agree, GateItem.address, ht, hs, Option.map_some, Option.some.injEq] at hagree
        simp only [Option.bind_some, hagree]

theorem Agree.refl (a : Address) (s : GuildSnapshot) : Agree a s s := by cases a <;> rfl

theorem Agree.trans {a : Address} {s t u : GuildSnapshot} (h : Agree a s t) (h' : Agree a t u) :
    Agree a s u := by
  cases a <;> exact Eq.trans h' h

/-- What an item wants of a role or of an overwrite is there. -/
def GateItem.Placed : GateItem → GuildSnapshot → Prop
  | .role id planned, s => ∃ current, s.roleById id = some current ∧
      (current.hoist, current.mentionable, current.colour) =
        (planned.hoist, planned.mentionable, planned.colour.getD 0)
  | .overwrite id roleId _ wanted _, s => ∃ state, s.channelById id = some state ∧
      state.overwriteForRole roleId = some ⟨.role roleId, wanted.allow, wanted.deny⟩
  | .edit .., _ => True

theorem GateItem.Placed.of_agree {i : GateItem} {s t : GuildSnapshot} (hagree : Agree i.address s t)
    (h : i.Placed s) : i.Placed t := by
  cases i with
  | role id planned =>
    obtain ⟨current, hcurrent, hsame⟩ := h
    exact ⟨current, (show t.roleById id = s.roleById id from hagree).trans hcurrent, hsame⟩
  | edit id categoryId category channel => trivial
  | overwrite id roleId target wanted hidden =>
    obtain ⟨state, hstate, hentry⟩ := h
    have hagree : (t.channelById id).map (fun c => c.overwriteForRole roleId) =
        (s.channelById id).map fun c => c.overwriteForRole roleId := hagree
    rw [hstate, Option.map_some, Option.map_eq_some_iff] at hagree
    obtain ⟨state', hstate', heq⟩ := hagree
    exact ⟨state', hstate', heq.trans hentry⟩

/-- Every channel keeps its overwrites in their order, and may have more behind them. -/
def Grows (s t : GuildSnapshot) : Prop :=
  ∀ id state, s.channelById id = some state → ∃ state', t.channelById id = some state' ∧
    state.overwrites.map OverwriteState.target <+: state'.overwrites.map OverwriteState.target

theorem Grows.refl (s : GuildSnapshot) : Grows s s := fun _ state h => ⟨state, h, List.prefix_rfl⟩

theorem Grows.trans {s t u : GuildSnapshot} (h : Grows s t) (h' : Grows t u) : Grows s u := by
  intro id state hstate
  obtain ⟨state', hstate', hpre⟩ := h id state hstate
  obtain ⟨state'', hstate'', hpre'⟩ := h' id state' hstate'
  exact ⟨state'', hstate'', hpre.trans hpre'⟩

/-! ### Writes -/

namespace Guild

theorem identity_editRole (hoist mentionable : Bool) (colour : Option ℕ) (role : RoleState) :
    (editRole hoist mentionable colour role).identity = role.identity := rfl

theorem identity_editChannel (parent : Option ℕ) (topic : TopicEdit) (channel : ChannelState) :
    (editChannel parent topic channel).identity = channel.identity := rfl

theorem identity_setOverwrite (role : ℕ) (allow deny : List String) (channel : ChannelState) :
    (setOverwrite role allow deny channel).identity = channel.identity := rfl

/-- The entry that was written is there. -/
theorem overwriteForRole_setOverwrite (role : ℕ) (allow deny : List String)
    (channel : ChannelState) :
    (setOverwrite role allow deny channel).overwriteForRole role =
      some ⟨.role role, allow, deny⟩ := by
  rw [setOverwrite, ChannelState.overwriteForRole]
  simp only [writeOverwrite]
  cases hupdate : updateFirst (·.target = .role role)
      (fun o : OverwriteState => { o with allow := allow, deny := deny }) channel.overwrites with
  | none =>
    simp only
    rw [List.find?_append, updateFirst_eq_none hupdate, Option.none_or]
    exact List.find?_cons_of_pos (decide_eq_true rfl)
  | some overwrites =>
    simp only
    have hkeep : ∀ o : OverwriteState, decide (o.target = .role role) = true →
        decide ((OverwriteState.mk o.target allow deny).target = .role role) = true := fun _ ho => ho
    rw [find?_updateFirst hkeep hupdate]
    cases hfind : channel.overwrites.find? (·.target = .role role) with
    | none =>
      obtain ⟨before, a, after, hsplit, -, ha, -⟩ := updateFirst_eq_some hupdate
      exact absurd ha (List.find?_eq_none.mp hfind a (hsplit ▸ List.mem_append_right before
        List.mem_cons_self))
    | some o =>
      have hfound := List.find?_some hfind
      have htarget : o.target = .role role := of_decide_eq_true hfound
      rw [Option.map_some, ← htarget]

/-- The entries of other roles stay. -/
theorem overwriteForRole_setOverwrite_ne {role other : ℕ} (hne : other ≠ role)
    (allow deny : List String) (channel : ChannelState) :
    (setOverwrite role allow deny channel).overwriteForRole other =
      channel.overwriteForRole other := by
  rw [setOverwrite, ChannelState.overwriteForRole, ChannelState.overwriteForRole]
  simp only [writeOverwrite]
  cases hupdate : updateFirst (·.target = .role role)
      (fun o : OverwriteState => { o with allow := allow, deny := deny }) channel.overwrites with
  | none =>
    simp only
    rw [List.find?_append, List.find?_cons_of_neg, List.find?_nil, Option.or_none]
    simpa using fun h => hne h.symm
  | some overwrites =>
    refine find?_updateFirst_of_disjoint (fun o ho => ?_) hupdate
    have htarget : o.target = .role role := of_decide_eq_true ho
    simpa [htarget] using fun h => hne h.symm

theorem targets_setOverwrite (role : ℕ) (allow deny : List String) (channel : ChannelState) :
    channel.overwrites.map OverwriteState.target <+:
      (setOverwrite role allow deny channel).overwrites.map OverwriteState.target := by
  rw [setOverwrite]
  simp only [writeOverwrite]
  split
  · rename_i overwrites hupdate
    rw [map_updateFirst (f := fun o : OverwriteState => ⟨o.target, allow, deny⟩)
      (g := OverwriteState.target) (fun _ _ => rfl) hupdate]
  · rw [List.map_append]
    exact List.prefix_append _ _

/-- A role that is there is updated, and nothing else is. -/
theorem exists_updateRole {guild : Guild} {id : ℕ} {f : RoleState → RoleState} {role : RoleState}
    (hf : ∀ role, (f role).identity = role.identity)
    (h : guild.snapshot.roleById id = some role) : ∃ next : Guild,
      guild.updateRole id f = .ok (none, next) ∧ guild.snapshot.SameNames next.snapshot ∧
      next.nextId = guild.nextId ∧ next.snapshot.roleById id = some (f role) ∧
      (∀ other, next.snapshot.channelById other = guild.snapshot.channelById other) ∧
      ∀ a, a ≠ .role id → Agree a guild.snapshot next.snapshot := by
  obtain ⟨roles, hroles⟩ := exists_updateFirst (f := f) h
  have hid (role : RoleState) : (f role).id = role.id := congrArg Prod.fst (hf role)
  refine ⟨⟨{ guild.snapshot with roles := roles }, guild.nextId⟩, ?_, ⟨rfl, rfl, rfl, ?_, rfl⟩, rfl,
    ?_, fun _ => rfl, fun a ha => ?_⟩
  · rw [updateRole, hroles]
  · exact map_updateFirst (fun role _ => hf role) hroles
  · refine (find?_updateFirst (fun role hrole => ?_) hroles).trans ?_
    · rwa [hid]
    · rw [GuildSnapshot.roleById] at h
      rw [h, Option.map_some]
  · cases a with
    | role other =>
      have hne : other ≠ id := fun h => ha (h ▸ rfl)
      refine find?_updateFirst_of_disjoint (fun role hrole => ?_) hroles
      have hrole : role.id = id := of_decide_eq_true hrole
      rw [hid, hrole]
      simpa using hne.symm
    | edit other => rfl
    | overwrite other roleId => rfl

/-- A channel that is there is updated, and nothing else is. -/
theorem exists_updateChannel {guild : Guild} {id : ℕ} {f : ChannelState → ChannelState}
    {state : ChannelState} (hf : ∀ channel, (f channel).identity = channel.identity)
    (h : guild.snapshot.channelById id = some state) : ∃ next : Guild,
      guild.updateChannel id f = .ok (none, next) ∧ guild.snapshot.SameNames next.snapshot ∧
      next.nextId = guild.nextId ∧ next.snapshot.channelById id = some (f state) ∧
      (∀ other, next.snapshot.roleById other = guild.snapshot.roleById other) ∧
      ∀ other, other ≠ id →
        next.snapshot.channelById other = guild.snapshot.channelById other := by
  obtain ⟨channels, hchannels⟩ := exists_updateFirst (f := f) h
  have hid (channel : ChannelState) : (f channel).id = channel.id := congrArg Prod.fst (hf channel)
  refine ⟨⟨{ guild.snapshot with channels := channels }, guild.nextId⟩, ?_, ⟨rfl, rfl, rfl, rfl, ?_⟩,
    rfl, ?_, fun _ => rfl, fun other hne => ?_⟩
  · rw [updateChannel, hchannels]
  · exact map_updateFirst (fun channel _ => hf channel) hchannels
  · refine (find?_updateFirst (fun channel hchannel => ?_) hchannels).trans ?_
    · rwa [hid]
    · rw [GuildSnapshot.channelById] at h
      rw [h, Option.map_some]
  · refine find?_updateFirst_of_disjoint (fun channel hchannel => ?_) hchannels
    have hchannel : channel.id = id := of_decide_eq_true hchannel
    rw [hid, hchannel]
    simpa using hne.symm

end Guild

/-! ### The state of a run -/

section Run

variable {lower : String → String}

theorem fromSnapshot_congr {s t : GuildSnapshot} (h : s.SameNames t) :
    NameIndex.fromSnapshot lower t = NameIndex.fromSnapshot lower s := by
  have hroles : t.roles.map (fun role => (role.name, role.id)) =
      s.roles.map fun role => (role.name, role.id) := by
    have hmap := congrArg (List.map fun r => (r.2.1, r.1)) h.roles
    rwa [List.map_map, List.map_map] at hmap
  have hrows {α : Type} (row : ℕ × String × ChannelClass → Option α) :
      t.channels.filterMap (fun c => row c.identity) =
        s.channels.filterMap fun c => row c.identity := by
    have hmap := congrArg (List.filterMap row) h.channels
    rwa [List.filterMap_map, List.filterMap_map] at hmap
  have hcategories : t.channels.filterMap NameIndex.categoryRow =
      s.channels.filterMap NameIndex.categoryRow :=
    hrows fun c => if c.2.2 = .category then some (categoryKey c.2.1, c.1) else none
  have hchannels : t.channels.filterMap (NameIndex.channelRow lower) =
      s.channels.filterMap (NameIndex.channelRow lower) :=
    hrows fun c => NameIndex.channelRow lower ⟨c.1, c.2.1, c.2.2, none, none, []⟩
  rw [NameIndex.fromSnapshot, NameIndex.fromSnapshot, h.guildId, hroles, hcategories, hchannels]

theorem ids_congr {s t : GuildSnapshot} (h : s.SameNames t) : Guild.ids t = Guild.ids s := by
  have hroles := congrArg (List.map Prod.fst) h.roles
  have hchannels := congrArg (List.map Prod.fst) h.channels
  rw [List.map_map, List.map_map] at hroles hchannels
  exact congrArg₂ (· ++ ·) hroles hchannels

/-- A run over names that stay is at every point where a fresh run would start. -/
theorem start_eq {e : Engine} (he : e = Engine.start lower e.guild.snapshot) {next : Guild}
    (h : e.guild.snapshot.SameNames next.snapshot) (hid : next.nextId = e.guild.nextId) :
    Engine.mk next e.index = Engine.start lower next.snapshot := by
  have hindex : e.index = NameIndex.fromSnapshot lower next.snapshot := by
    rw [fromSnapshot_congr h]
    exact congrArg Engine.index he
  have hguild : next = Guild.new next.snapshot := by
    have hnext : next.nextId = (Guild.ids next.snapshot).max?.getD next.snapshot.guildId + 1 := by
      rw [ids_congr h, h.guildId, hid]
      exact congrArg (fun e : Engine => e.guild.nextId) he
    rw [Guild.new, ← hnext]
  rw [hindex, Engine.start, ← hguild]

/-- The names are those of `s₀`, and the engine knows what its snapshot says. -/
structure GateInv (lower : String → String) (s₀ : GuildSnapshot) (e : Engine) : Prop where
  names : s₀.SameNames e.guild.snapshot
  start : e = Engine.start lower e.guild.snapshot

namespace GateInv

variable {s₀ : GuildSnapshot} {e : Engine}

theorem indexed (h : GateInv lower s₀ e) : Engine.Indexed lower e := by
  rw [h.start]
  exact Engine.indexed_start e.guild.snapshot

theorem roleId (h : GateInv lower s₀ e) {name : String} {id : ℕ} (hname : name ≠ everyoneName)
    (hfound : roleLookup s₀ name = .found id) : e.index.roleId name = .ok id :=
  h.indexed.roleId_eq hname (h.names.roleLookup name ▸ hfound)

theorem overwriteRoleId (h : GateInv lower s₀ e) {target : Target} {role : String} {id : ℕ}
    (hrole : overwriteRole s₀ target role = .ok id) : e.index.roleId role = .ok id :=
  h.indexed.overwriteRole_eq target (h.names.overwriteRole target role ▸ hrole)

theorem categoryId (h : GateInv lower s₀ e) {name : String} {id : ℕ}
    (hfound : categoryLookup s₀ name = .found id) : e.index.categoryId name = .ok id :=
  h.indexed.categoryId_eq (h.names.categoryLookup name ▸ hfound)

theorem channelId (h : GateInv lower s₀ e) {channel : PlanChannel} {id : ℕ}
    (hfound : channelLookup lower s₀ channel = .found id) :
    e.index.channelId lower channel.name channel.kind = .ok id :=
  h.indexed.channelId_eq (h.names.channelLookup lower channel ▸ hfound)

/-- The ids of a target are found by name. -/
theorem targetId (h : GateInv lower s₀ e) {p : Planned} {categoryId id : ℕ}
    (hlookup : p.lookup lower s₀ = some (categoryId, id)) :
    e.index.targetId lower p.target = .ok id := by
  obtain ⟨category, channel⟩ := p
  rw [Planned.lookup] at hlookup
  split at hlookup
  · rename_i hcategory
    cases channel with
    | none =>
      simp only [Option.some.injEq, Prod.mk.injEq] at hlookup
      obtain ⟨rfl, rfl⟩ := hlookup
      exact h.categoryId hcategory
    | some channel =>
      simp only at hlookup
      split at hlookup
      · rename_i hchannel
        simp only [Option.some.injEq, Prod.mk.injEq] at hlookup
        obtain ⟨rfl, rfl⟩ := hlookup
        exact h.channelId hchannel
      · cases hlookup
  · cases hlookup

end GateInv

/-! ### Items are settled -/

/-- The names an item was made from. -/
def GateItem.Sound (lower : String → String) (s₀ : GuildSnapshot) : GateItem → Prop
  | .role id planned => roleLookup s₀ planned.name = .found id ∧ planned.name ≠ everyoneName
  | .edit id categoryId category channel =>
      categoryLookup s₀ category.name = .found categoryId ∧
        channelLookup lower s₀ channel = .found id
  | .overwrite id roleId target wanted _ => overwriteRole s₀ target wanted.role = .ok roleId ∧
      wanted.normalized = wanted ∧
      ∃ (p : Planned) (categoryId : ℕ), p.lookup lower s₀ = some (categoryId, id) ∧ p.target = target

theorem topicText_of_topicText {topic : Option String} {t : String}
    (h : topicText topic = some t) : topicText (some t) = some t := by
  rw [topicText, Option.filter_eq_some_iff, Option.map_eq_some_iff] at h
  obtain ⟨⟨raw, -, rfl⟩, hne⟩ := h
  rw [topicText, Option.map_some, trim_trim, Option.filter_some, if_pos hne]

/-- What is missing in a channel is there after its edit. -/
theorem editChange_settled {categoryId : ℕ} {category : PlanCategory} {channel : PlanChannel}
    {state : ChannelState} {change : Change}
    (h : (editChange categoryId category channel state).changes.head? = some change) :
    ∃ topic, change = .editChannel channel.name channel.kind category.name topic ∧
      (editChange categoryId category channel
        (Guild.editChannel (some categoryId) topic state)).changes = [] := by
  rw [editChange] at h
  split_ifs at h with hdiffers
  · simp only [Findings.change, List.head?_cons, Option.some.injEq] at h
    refine ⟨_, h.symm, ?_⟩
    rw [editChange, if_neg]
    · rfl
    · rw [not_or, not_not]
      refine ⟨rfl, ?_⟩
      cases htopic : topicText channel.topic with
      | none => simp
      | some t =>
        simp only [Guild.editChannel]
        by_cases hsame : topicText state.topic = some t
        · simp [hsame]
        · by_cases hkind : channel.kind.hasTopic = true
          · have hne : (some t != topicText state.topic) = true :=
              bne_iff_ne.mpr fun h => hsame h.symm
            simp [hkind, hne]
            exact (topicText_of_topicText htopic).symm
          · simp [hkind]
  · cases h

theorem compareRole_settled {top : ℕ} {role : PlanRole} {current : RoleState} {change : Change}
    (h : (compareRole top role current).changes.head? = some change) :
    change = .editRole role.name role.hoist role.mentionable role.colour ∧
      (compareRole top role
        (Guild.editRole role.hoist role.mentionable role.colour current)).changes = [] := by
  rw [compareRole] at h
  split_ifs at h
  · cases h
  · cases h
  · simp only [Findings.change, List.head?_cons, Option.some.injEq] at h
    refine ⟨h.symm, ?_⟩
    have hsame : ((Guild.editRole role.hoist role.mentionable role.colour current).hoist,
        (Guild.editRole role.hoist role.mentionable role.colour current).mentionable,
        (Guild.editRole role.hoist role.mentionable role.colour current).colour) =
          (role.hoist, role.mentionable, role.colour.getD 0) := rfl
    rw [compareRole, if_pos hsame]
    rfl

/-- An overwrite that is there is as it is wanted. -/
theorem compareOverwrite_placed {target : Target} {permits : Permits} {flag : Bool} {o : Overwrite}
    (ho : o.normalized = o) (roleId : ℕ) : (compareOverwrite target permits flag o
      (some (currentOverwrite o.role ⟨.role roleId, o.allow, o.deny⟩))).changes = [] := by
  have hcurrent : currentOverwrite o.role ⟨.role roleId, o.allow, o.deny⟩ = o := ho
  rw [compareOverwrite, if_pos (.inl (congrArg some hcurrent))]
  rfl

theorem compareOverwrite_settled {target : Target} {permits : Permits} {hidden : Bool}
    {o : Overwrite} {current : Option Overwrite} {change : Change} (ho : o.normalized = o)
    (h : (compareOverwrite target permits hidden o current).changes.head? = some change) (role : ℕ) :
    change = .setOverwrite target o ∧ (compareOverwrite target permits hidden o
      (some (currentOverwrite o.role ⟨.role role, o.allow, o.deny⟩))).changes = [] := by
  rw [compareOverwrite] at h
  split_ifs at h
  · cases h
  · simp only [Findings.change, List.head?_cons, Option.some.injEq] at h
    exact ⟨h.symm, compareOverwrite_placed ho role⟩
  · cases h

/-- **The change of an item settles it, and no other address notices.** -/
theorem settle_item {permits : Permits} {s₀ : GuildSnapshot} {e : Engine} {i : GateItem}
    {change : Change} (h : GateInv lower s₀ e) (hi : i.Sound lower s₀)
    (hc : i.cell permits e.guild.snapshot = some change) :
    ∃ next, Engine.step lower e change = some next ∧ GateInv lower s₀ next ∧
      i.cell permits next.guild.snapshot = none ∧ i.Placed next.guild.snapshot ∧
      e.guild.snapshot.SameNames next.guild.snapshot ∧ Grows e.guild.snapshot next.guild.snapshot ∧
      (∀ id, (∀ roleId, i.address ≠ .overwrite id roleId) →
        (next.guild.snapshot.channelById id).map ChannelState.overwrites =
          (e.guild.snapshot.channelById id).map ChannelState.overwrites) ∧
      ∀ a, a ≠ i.address → Agree a e.guild.snapshot next.guild.snapshot := by
  cases i with
  | role id planned =>
    obtain ⟨hfound, hname⟩ := hi
    rw [GateItem.cell, Option.bind_eq_some_iff] at hc
    obtain ⟨current, hcurrent, hc⟩ := hc
    obtain ⟨rfl, hsettled⟩ := compareRole_settled hc
    obtain ⟨next, hupdate, hnames, hid, hrole, hchannels, hothers⟩ :=
      Guild.exists_updateRole (Guild.identity_editRole _ _ _) hcurrent
    have hmutate : e.guild.mutate lower
        (.editRole id planned.hoist planned.mentionable planned.colour) = .ok (none, next) := hupdate
    refine ⟨⟨next, e.index⟩, Engine.step_of_ok ?_ hmutate, ⟨h.names.trans hnames,
      start_eq h.start hnames hid⟩, ?_, ⟨_, hrole, rfl⟩, hnames, fun other state hstate => ?_,
      fun other _ => by rw [hchannels], hothers⟩
    · rw [NameIndex.resolve, h.roleId hname hfound]
      rfl
    · rw [GateItem.cell, hrole, Option.bind_some, hnames.botTopPosition, hsettled]
      rfl
    · exact ⟨state, (hchannels other).trans hstate, List.prefix_rfl⟩
  | edit id categoryId category channel =>
    obtain ⟨hcategory, hchannel⟩ := hi
    rw [GateItem.cell, Option.bind_eq_some_iff] at hc
    obtain ⟨state, hstate, hc⟩ := hc
    obtain ⟨topic, rfl, hsettled⟩ := editChange_settled hc
    obtain ⟨next, hupdate, hnames, hid, hstate', hroles, hothers⟩ :=
      Guild.exists_updateChannel (Guild.identity_editChannel (some categoryId) topic) hstate
    have hmutate : e.guild.mutate lower (.editChannel id (some categoryId) topic) =
        .ok (none, next) := hupdate
    refine ⟨⟨next, e.index⟩, Engine.step_of_ok ?_ hmutate, ⟨h.names.trans hnames,
      start_eq h.start hnames hid⟩, ?_, trivial, hnames, fun other st hst => ?_, fun other _ => ?_,
      fun a hj => ?_⟩
    · rw [NameIndex.resolve, h.channelId hchannel, h.categoryId hcategory]
      rfl
    · rw [GateItem.cell, hstate', Option.bind_some, hsettled]
      rfl
    · by_cases heq : other = id
      · subst heq
        rw [hstate, Option.some.injEq] at hst
        subst hst
        exact ⟨_, hstate', List.prefix_rfl⟩
      · exact ⟨st, (hothers other heq).trans hst, List.prefix_rfl⟩
    · by_cases heq : other = id
      · rw [heq, hstate', hstate]
        rfl
      · rw [hothers other heq]
    · cases a with
      | role other => exact hroles other
      | edit other =>
        have hne : other ≠ id := fun heq => hj (heq ▸ rfl)
        simp only [Agree, hothers other hne]
      | overwrite other roleId =>
        by_cases heq : other = id
        · subst heq
          simp only [Agree, hstate', hstate]
          rfl
        · simp only [Agree, hothers other heq]
  | overwrite id roleId target wanted hidden =>
    obtain ⟨hrole, hnormal, p, categoryId, hlookup, rfl⟩ := hi
    rw [GateItem.cell, Option.bind_eq_some_iff] at hc
    obtain ⟨state, hstate, hc⟩ := hc
    obtain ⟨rfl, hsettled⟩ := compareOverwrite_settled hnormal hc roleId
    obtain ⟨next, hupdate, hnames, hid, hstate', hroles, hothers⟩ :=
      Guild.exists_updateChannel (Guild.identity_setOverwrite roleId wanted.allow wanted.deny) hstate
    have hmutate : e.guild.mutate lower (.setOverwrite id roleId wanted.allow wanted.deny) =
        .ok (none, next) := hupdate
    refine ⟨⟨next, e.index⟩, Engine.step_of_ok ?_ hmutate, ⟨h.names.trans hnames,
      start_eq h.start hnames hid⟩, ?_, ⟨_, hstate', Guild.overwriteForRole_setOverwrite _ _ _ _⟩,
      hnames, fun other st hst => ?_, fun other hother => ?_, fun a hj => ?_⟩
    · rw [NameIndex.resolve, h.targetId hlookup, h.overwriteRoleId hrole]
      rfl
    · rw [GateItem.cell, hstate', Option.bind_some, Guild.overwriteForRole_setOverwrite,
        Option.map_some, hsettled]
      rfl
    · by_cases heq : other = id
      · subst heq
        rw [hstate, Option.some.injEq] at hst
        subst hst
        exact ⟨_, hstate', Guild.targets_setOverwrite _ _ _ _⟩
      · exact ⟨st, (hothers other heq).trans hst, List.prefix_rfl⟩
    · rw [hothers other fun heq => hother roleId (heq ▸ rfl)]
    · cases a with
      | role other => exact hroles other
      | edit other =>
        by_cases heq : other = id
        · subst heq
          simp only [Agree, hstate', hstate]
          rfl
        · simp only [Agree, hothers other heq]
      | overwrite other otherRole =>
        by_cases heq : other = id
        · subst heq
          have hne : otherRole ≠ roleId := fun heq => hj (heq ▸ rfl)
          simp only [Agree, hstate', hstate, Option.map_some,
            Guild.overwriteForRole_setOverwrite_ne hne]
        · simp only [Agree, hothers other heq]

end Run

end AbbeyBot.Server
