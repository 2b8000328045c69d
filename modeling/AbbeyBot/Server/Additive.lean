import Mathlib
import AbbeyBot.Server.GateItems

/-! # The additive stage as a worklist

What the additive stage creates is hidden from `@everyone` and found under its name from then on. A
role, a category or a channel that is created is the only one of its name; everything else is searched
with the same results as before. -/

namespace AbbeyBot.Server

open AbbeyBot.Library.OrderedMap AbbeyBot.Library.Worklist AbbeyBot.Library.FirstMatch
open AbbeyBot.Library.Text

/-! ### Items -/

/-- One comparison of the additive stage. -/
inductive AdditiveItem where
  | role (role : PlanRole)
  | target (p : Planned)

namespace Planned

/-- The target is looked up by itself. -/
def own (lower : String → String) (s : GuildSnapshot) (p : Planned) : Lookup :=
  p.channel.elim (categoryLookup s p.category.name) (channelLookup lower s)

/-- The change that creates the target. -/
def create (p : Planned) : Change :=
  p.channel.elim (.createCategory p.category.name [.hideMarker]) fun channel =>
    .createChannel channel.name channel.kind p.category.name channel.topic channel.slowmodeSecs
      channel.tags [.hideMarker]

end Planned

namespace AdditiveItem

/-- What the item is compared under. -/
def key (lower : String → String) : AdditiveItem → String ⊕ (String ⊕ ChannelKey)
  | .role planned => .inl planned.name
  | .target p => .inr (p.key lower)

/-- The change that an item is missing in a guild. -/
def cell (lower : String → String) : AdditiveItem → GuildSnapshot → Option Change
  | .role planned, s =>
    if roleLookup s planned.name = .missing then some (.createRole planned.name planned.colour)
    else none
  | .target p, s => if p.own lower s = .missing then some p.create else none

end AdditiveItem

/-- The roles, then each category with its channels. -/
def additiveItems (plan : Plan) : List AdditiveItem :=
  plan.roles.map .role ++ (planTargets plan.categories).map .target

section Changes

variable {lower : String → String} {plan : Plan} {s : GuildSnapshot}

theorem additiveRole_changes (role : PlanRole) :
    (additiveRole s role).changes = ((AdditiveItem.role role).cell lower s).toList := by
  rw [additiveRole, AdditiveItem.cell]
  cases roleLookup s role.name <;> rfl

theorem missingCategory_changes (category : PlanCategory) :
    (missingCategory s category).changes =
      ((AdditiveItem.target ⟨category, none⟩).cell lower s).toList := by
  rw [missingCategory, AdditiveItem.cell, Planned.own, Option.elim_none]
  cases categoryLookup s category.name <;> rfl

theorem additiveChannel_changes (category : PlanCategory) (channel : PlanChannel) :
    (additiveChannel lower s category channel).changes =
      ((AdditiveItem.target ⟨category, some channel⟩).cell lower s).toList := by
  rw [additiveChannel, AdditiveItem.cell, Planned.own, Option.elim_some]
  cases channelLookup lower s channel with
  | found id => rfl
  | ambiguous count => rfl
  | missing =>
    simp only
    split_ifs <;> rfl

/-- **The changes of the additive stage are what its items are missing.** -/
theorem additive_changes : (additive lower plan s).changes =
    pending (AdditiveItem.cell lower) (additiveItems plan) s := by
  rw [additiveItems, pending, List.filterMap_append, List.filterMap_map, List.filterMap_map,
    List.filterMap_eq_flatMap_toList, List.filterMap_eq_flatMap_toList, planTargets,
    List.flatMap_assoc]
  refine congrArg₂ (· ++ ·) (List.flatMap_congr fun role _ => @additiveRole_changes lower s role)
    (List.flatMap_congr fun category _ => ?_)
  rw [List.flatMap_cons, List.flatMap_map, additiveCategory, Findings.changes_append]
  exact congrArg₂ (· ++ ·) (missingCategory_changes category)
    (List.flatMap_congr fun channel _ => additiveChannel_changes category channel)

theorem additiveItems_nodup (h : plan.Valid lower) :
    ((additiveItems plan).map (AdditiveItem.key lower)).Nodup := by
  rw [additiveItems, List.map_append, List.map_map, List.map_map]
  refine List.Nodup.append ?_ ?_ fun key hrole htarget => ?_
  · have hroles := h.roles_nodup.map (Sum.inl_injective (β := String ⊕ ChannelKey))
    rwa [List.map_map] at hroles
  · have htargets := (targets_nodup h).map (Sum.inr_injective (α := String))
    rwa [List.map_map] at htargets
  · obtain ⟨role, -, rfl⟩ := List.mem_map.mp hrole
    obtain ⟨p, -, heq⟩ := List.mem_map.mp htarget
    exact Sum.inr_ne_inl heq

/-- The category of a channel comes before the channel. -/
theorem category_before {categories : List PlanCategory} {before after : List Planned}
    {category : PlanCategory} {channel : PlanChannel}
    (h : planTargets categories = before ++ ⟨category, some channel⟩ :: after) :
    (⟨category, none⟩ : Planned) ∈ before := by
  induction categories generalizing before with
  | nil => exact absurd h (by simp [planTargets])
  | cons c categories ih =>
    rw [planTargets, List.flatMap_cons] at h
    rcases List.append_eq_append_iff.mp h with ⟨front, rfl, hrest⟩ | ⟨back, hblock, hrest⟩
    · exact List.mem_append_right _ (ih hrest)
    · cases back with
      | nil => exact absurd (@ih [] hrest.symm) List.not_mem_nil
      | cons p back =>
        rw [List.cons_append, List.cons.injEq] at hrest
        obtain ⟨rfl, -⟩ := hrest
        cases before with
        | nil =>
          rw [List.nil_append, List.cons.injEq] at hblock
          exact absurd (congrArg Planned.channel hblock.1) (by simp)
        | cons first before =>
          rw [List.cons_append, List.cons.injEq] at hblock
          have hmem : (⟨category, some channel⟩ : Planned) ∈
              c.channels.map fun channel => (⟨c, some channel⟩ : Planned) :=
            hblock.2 ▸ List.mem_append_right before List.mem_cons_self
          obtain ⟨_, -, heq⟩ := List.mem_map.mp hmem
          obtain ⟨rfl, -⟩ := Planned.mk.inj heq
          exact hblock.1 ▸ List.mem_cons_self

end Changes

/-! ### What is created -/

section Create

variable {lower : String → String}

theorem filter_congr_decide {α : Type} {l : List α} {p q : α → Prop} [DecidablePred p]
    [DecidablePred q] (h : ∀ a, p a ↔ q a) : l.filter (fun a => p a) = l.filter fun a => q a :=
  List.filter_congr fun a _ => decide_eq_decide.mpr (h a)

/-- A target is looked up among the channels that are compared under its key. -/
theorem own_eq (s : GuildSnapshot) (p : Planned) : p.own lower s =
    .ofMatches (s.channels.filter fun c => c.key lower = some (p.key lower)) := by
  obtain ⟨category, channel⟩ := p
  cases channel with
  | none =>
    refine congrArg Lookup.ofMatches (filter_congr_decide fun c => ?_)
    simp only [ChannelState.key, Planned.key, Option.elim_none]
    cases c.channelClass <;> simp
  | some channel =>
    refine congrArg Lookup.ofMatches (filter_congr_decide fun c => ?_)
    simp only [ChannelState.key, Planned.key, Option.elim_some, PlanChannel.key]
    cases hclass : c.channelClass with
    | category => simp
    | other => simp
    | kind kind =>
      by_cases hkind : kind = channel.kind
      · subst hkind
        simp
      · simp [hkind]

/-- A guild with one more channel. -/
def GuildSnapshot.addChannel (s : GuildSnapshot) (channel : ChannelState) : GuildSnapshot :=
  { s with channels := s.channels ++ [channel] }

/-- A guild with one more role, above which the others have moved up. -/
def GuildSnapshot.addRole (s : GuildSnapshot) (role : RoleState) : GuildSnapshot :=
  { s with roles := s.roles.map Guild.moveUp ++ [role] }

theorem own_addChannel {s : GuildSnapshot} {channel : ChannelState} {p : Planned}
    (hkey : channel.key lower ≠ some (p.key lower)) :
    p.own lower (s.addChannel channel) = p.own lower s := by
  rw [own_eq, own_eq, GuildSnapshot.addChannel, List.filter_append,
    List.filter_cons_of_neg (by simpa using hkey), List.filter_nil, List.append_nil]

theorem filter_eq_nil_of_missing {s : GuildSnapshot} {p : Planned}
    (hmissing : p.own lower s = .missing) :
    s.channels.filter (fun c => c.key lower = some (p.key lower)) = [] := by
  rw [own_eq] at hmissing
  match hfilter : s.channels.filter fun c => c.key lower = some (p.key lower) with
  | [] => exact hfilter
  | [_] => rw [hfilter] at hmissing; cases hmissing
  | _ :: _ :: _ => rw [hfilter] at hmissing; cases hmissing

theorem own_addChannel_self {s : GuildSnapshot} {channel : ChannelState} {p : Planned}
    (hkey : channel.key lower = some (p.key lower)) (hmissing : p.own lower s = .missing) :
    p.own lower (s.addChannel channel) = .found channel.id := by
  rw [own_eq, GuildSnapshot.addChannel, List.filter_append, filter_eq_nil_of_missing hmissing,
    List.filter_cons_of_pos (by simpa using hkey)]
  rfl

theorem rolesNamed_eq_nil_of_missing {s : GuildSnapshot} {name : String}
    (hmissing : roleLookup s name = .missing) : s.rolesNamed name = [] := by
  rw [roleLookup] at hmissing
  split at hmissing
  · assumption
  · split_ifs at hmissing
  · cases hmissing

theorem moveUp_eq (role : RoleState) : (Guild.moveUp role).id = role.id ∧
    (Guild.moveUp role).name = role.name ∧ (Guild.moveUp role).managed = role.managed ∧
    (Guild.moveUp role).permissions = role.permissions := by
  rw [Guild.moveUp]
  split_ifs <;> exact ⟨rfl, rfl, rfl, rfl⟩

theorem rolesNamed_addRole (s : GuildSnapshot) (role : RoleState) (name : String) :
    (s.addRole role).rolesNamed name =
      (s.rolesNamed name).map Guild.moveUp ++ if role.name = name then [role] else [] := by
  rw [GuildSnapshot.rolesNamed, GuildSnapshot.addRole, List.filter_append, List.filter_map,
    GuildSnapshot.rolesNamed]
  refine congrArg₂ (· ++ ·) (congrArg (List.map Guild.moveUp) ?_) ?_
  · exact filter_congr_decide fun r => by rw [(moveUp_eq r).2.1]
  · rw [List.filter_cons, List.filter_nil]
    simp only [decide_eq_true_eq]

theorem roleLookup_addRole {s : GuildSnapshot} {role : RoleState} {name : String}
    (hne : role.name ≠ name) : roleLookup (s.addRole role) name = roleLookup s name := by
  rw [roleLookup, roleLookup, rolesNamed_addRole, if_neg hne, List.append_nil]
  rcases s.rolesNamed name with _ | ⟨one, _ | ⟨other, rest⟩⟩
  · rfl
  · simp only [List.map_cons, List.map_nil, moveUp_eq]
  · simp only [List.map_cons, List.length_cons, List.length_map]

theorem roleLookup_addRole_self {s : GuildSnapshot} {role : RoleState}
    (hmissing : roleLookup s role.name = .missing) (hmanaged : role.managed = false) :
    roleLookup (s.addRole role) role.name = .found role.id := by
  rw [roleLookup, rolesNamed_addRole, rolesNamed_eq_nil_of_missing hmissing, if_pos rfl]
  simp only [List.map_nil, List.nil_append, hmanaged]
  rfl

/-! ### Fresh ids -/

theorem max?_eq_some_of_le {l : List ℕ} {n : ℕ} (hmem : n ∈ l) (hle : ∀ x ∈ l, x ≤ n) :
    l.max? = some n := List.max?_eq_some_iff.mpr ⟨hmem, hle⟩

theorem lt_nextId {s : GuildSnapshot} {id : ℕ} (h : id ∈ Guild.ids s) : id < (Guild.new s).nextId := by
  rw [Guild.new]
  cases hmax : (Guild.ids s).max? with
  | none => rw [List.max?_eq_none_iff.mp hmax] at h; exact (List.not_mem_nil h).elim
  | some m =>
    have hle := (List.max?_eq_some_iff.mp hmax).2 id h
    simp only [Option.getD_some]
    omega

/-- Once the next id is taken, the id after it is the next. -/
theorem nextId_of_perm {s t : GuildSnapshot}
    (hids : (Guild.ids t).Perm ((Guild.new s).nextId :: Guild.ids s)) :
    (Guild.new t).nextId = (Guild.new s).nextId + 1 := by
  have hmax : (Guild.ids t).max? = some (Guild.new s).nextId := by
    refine max?_eq_some_of_le (hids.mem_iff.mpr List.mem_cons_self) fun x hx => ?_
    rcases List.mem_cons.mp (hids.mem_iff.mp hx) with rfl | hx
    · exact le_rfl
    · exact (lt_nextId hx).le
  change (Guild.ids t).max?.getD t.guildId + 1 = _
  rw [hmax, Option.getD_some]

theorem ids_addRole (s : GuildSnapshot) (role : RoleState) :
    (Guild.ids (s.addRole role)).Perm (role.id :: Guild.ids s) := by
  have hmap : (s.roles.map Guild.moveUp).map RoleState.id = s.roles.map RoleState.id := by
    rw [List.map_map]
    exact List.map_congr_left fun r _ => (moveUp_eq r).1
  rw [Guild.ids, Guild.ids, GuildSnapshot.addRole, List.map_append, hmap, List.append_assoc]
  exact List.perm_middle

theorem ids_addChannel (s : GuildSnapshot) (channel : ChannelState) :
    (Guild.ids (s.addChannel channel)).Perm (channel.id :: Guild.ids s) := by
  rw [Guild.ids, Guild.ids, GuildSnapshot.addChannel, List.map_append, ← List.append_assoc]
  exact List.perm_append_singleton channel.id _

/-! ### The state of a run -/

/-- A created role is recorded as a fresh index would have it. -/
theorem fromSnapshot_addRole {s : GuildSnapshot} {role : RoleState}
    (hmissing : roleLookup s role.name = .missing) :
    NameIndex.fromSnapshot lower (s.addRole role) =
      { NameIndex.fromSnapshot lower s with
        roles := (NameIndex.fromSnapshot lower s).roles.insert role.name role.id } := by
  have hrows : (s.addRole role).roles.map (fun role => (role.name, role.id)) =
      s.roles.map (fun role => (role.name, role.id)) ++ [(role.name, role.id)] := by
    rw [GuildSnapshot.addRole, List.map_append, List.map_map]
    refine congrArg₂ (· ++ ·) (List.map_congr_left fun r _ => ?_) rfl
    rw [Function.comp_apply, (moveUp_eq r).1, (moveUp_eq r).2.1]
  have hnew : ∀ kv ∈ s.roles.map (fun role => (role.name, role.id)), kv.1 ≠ role.name := by
    intro kv hkv heq
    obtain ⟨r, hr, rfl⟩ := List.mem_map.mp hkv
    have hmem : r ∈ s.rolesNamed role.name := List.mem_filter.mpr ⟨hr, decide_eq_true heq⟩
    rw [rolesNamed_eq_nil_of_missing hmissing] at hmem
    exact List.not_mem_nil hmem
  rw [NameIndex.fromSnapshot, hrows, uniqueRows_concat hnew]
  rfl

theorem fromSnapshot_addCategory {s : GuildSnapshot} {channel : ChannelState}
    (hclass : channel.channelClass = .category)
    (hnew : ∀ c ∈ s.channels, c.key lower ≠ channel.key lower) :
    NameIndex.fromSnapshot lower (s.addChannel channel) =
      { NameIndex.fromSnapshot lower s with
        categories := (NameIndex.fromSnapshot lower s).categories.insert
          (categoryKey channel.name) channel.id } := by
  have hcategories : (s.channels ++ [channel]).filterMap NameIndex.categoryRow =
      s.channels.filterMap NameIndex.categoryRow ++ [(categoryKey channel.name, channel.id)] := by
    rw [List.filterMap_append]
    simp [NameIndex.categoryRow, hclass]
  have hchannels : (s.channels ++ [channel]).filterMap (NameIndex.channelRow lower) =
      s.channels.filterMap (NameIndex.channelRow lower) := by
    rw [List.filterMap_append]
    simp [NameIndex.channelRow, hclass]
  have hfresh : ∀ kv ∈ s.channels.filterMap NameIndex.categoryRow,
      kv.1 ≠ categoryKey channel.name := by
    intro kv hkv heq
    obtain ⟨c, hc, hrow⟩ := List.mem_filterMap.mp hkv
    by_cases hc' : c.channelClass = .category
    · rw [NameIndex.categoryRow, if_pos hc'] at hrow
      have hkey : categoryKey c.name = categoryKey channel.name := by
        rw [← heq, ← Option.some.inj hrow]
      refine hnew c hc ?_
      simp only [ChannelState.key, hc', hclass, hkey]
    · rw [NameIndex.categoryRow, if_neg hc'] at hrow
      exact Option.some_ne_none kv hrow.symm
  rw [NameIndex.fromSnapshot, GuildSnapshot.addChannel, hcategories, hchannels,
    uniqueRows_concat hfresh]
  rfl

theorem fromSnapshot_addKind {s : GuildSnapshot} {channel : ChannelState} {kind : ChannelKind}
    (hclass : channel.channelClass = .kind kind)
    (hnew : ∀ c ∈ s.channels, c.key lower ≠ channel.key lower) :
    NameIndex.fromSnapshot lower (s.addChannel channel) =
      { NameIndex.fromSnapshot lower s with
        channels := (NameIndex.fromSnapshot lower s).channels.insert
          ⟨planChannelKey lower channel.name kind, kind⟩ channel.id } := by
  have hcategories : (s.channels ++ [channel]).filterMap NameIndex.categoryRow =
      s.channels.filterMap NameIndex.categoryRow := by
    rw [List.filterMap_append]
    simp [NameIndex.categoryRow, hclass]
  have hchannels : (s.channels ++ [channel]).filterMap (NameIndex.channelRow lower) =
      s.channels.filterMap (NameIndex.channelRow lower) ++
        [(⟨planChannelKey lower channel.name kind, kind⟩, channel.id)] := by
    rw [List.filterMap_append]
    simp [NameIndex.channelRow, hclass]
  have hfresh : ∀ kv ∈ s.channels.filterMap (NameIndex.channelRow lower),
      kv.1 ≠ ⟨planChannelKey lower channel.name kind, kind⟩ := by
    intro kv hkv heq
    obtain ⟨c, hc, hrow⟩ := List.mem_filterMap.mp hkv
    rw [NameIndex.channelRow] at hrow
    split at hrow
    · rename_i kind' hc'
      have hkey : (⟨planChannelKey lower c.name kind', kind'⟩ : ChannelKey) =
          ⟨planChannelKey lower channel.name kind, kind⟩ := by
        rw [← heq, ← Option.some.inj hrow]
      refine hnew c hc ?_
      simp only [ChannelState.key, hc', hclass]
      exact congrArg (fun key => some (Sum.inr key)) hkey
    · cases hrow
  rw [NameIndex.fromSnapshot, GuildSnapshot.addChannel, hcategories, hchannels,
    uniqueRows_concat hfresh]
  rfl

/-- The overwrite of a channel that was created. -/
def hiddenEntry (s : GuildSnapshot) : ResolvedOverwrite := ⟨s.guildId, [], [viewChannel]⟩

/-- The channel that is created for a target, below `parent`. -/
def Planned.created (lower : String → String) (s : GuildSnapshot) (parent : ℕ) (p : Planned) :
    ChannelState :=
  p.channel.elim
    (Guild.newChannel lower (Guild.new s).nextId p.category.name .category none none [hiddenEntry s])
    fun channel => Guild.newChannel lower (Guild.new s).nextId channel.name (.kind channel.kind)
      (some parent) channel.topic [hiddenEntry s]

theorem Planned.created_id (s : GuildSnapshot) (parent : ℕ) (p : Planned) :
    (p.created lower s parent).id = (Guild.new s).nextId := by
  obtain ⟨category, channel⟩ := p
  cases channel <;> rfl

theorem planChannelKey_stored {plan : Plan} (h : plan.Valid lower) {p : Planned}
    (hp : p ∈ planTargets plan.categories) {channel : PlanChannel} (hchannel : channel ∈ p.channel) :
    planChannelKey lower (planChannelKey lower channel.name channel.kind) channel.kind =
      planChannelKey lower channel.name channel.kind := by
  obtain ⟨hcategory, hchannels⟩ := mem_planTargets.mp hp
  rw [planChannelKey, planChannelKey]
  split_ifs with hkind
  · have hstored := h.stored (p.category, channel)
      (Plan.mem_channels.mpr ⟨hcategory, hchannels channel hchannel⟩) hkind
    simp only at hstored
    rw [hstored, hstored]
  · exact trim_trim channel.name

theorem Planned.created_key {plan : Plan} (h : plan.Valid lower) {p : Planned}
    (hp : p ∈ planTargets plan.categories) (s : GuildSnapshot) (parent : ℕ) :
    (p.created lower s parent).key lower = some (p.key lower) := by
  obtain ⟨category, channel⟩ := p
  cases channel with
  | none => rfl
  | some channel =>
    have hstored := planChannelKey_stored h hp (Option.mem_some_self channel)
    simp only [Planned.created, Option.elim_some, Guild.newChannel, ChannelState.key,
      Guild.storedName, hstored]
    rfl

/-! ### Steps -/

theorem mk_eq_start {t : GuildSnapshot} {next : ℕ} {index : NameIndex}
    (hnext : (Guild.new t).nextId = next) (hindex : NameIndex.fromSnapshot lower t = index) :
    Engine.mk ⟨t, next⟩ index = Engine.start lower t := by
  subst hnext hindex
  rfl

theorem step_createRole {s : GuildSnapshot} {name : String} (colour : Option ℕ)
    (hmissing : roleLookup s name = .missing) :
    Engine.step lower (Engine.start lower s) (.createRole name colour) =
      some (Engine.start lower (s.addRole (Guild.newRole (Guild.new s).nextId name colour))) := by
  have hmutate : (Engine.start lower s).guild.mutate lower (.createRole name colour) =
      .ok (some (Guild.new s).nextId,
        ⟨s.addRole (Guild.newRole (Guild.new s).nextId name colour), (Guild.new s).nextId + 1⟩) := rfl
  have hindex := @fromSnapshot_addRole lower s (Guild.newRole (Guild.new s).nextId name colour)
    hmissing
  have hnext := nextId_of_perm (ids_addRole s (Guild.newRole (Guild.new s).nextId name colour))
  rw [Engine.step_of_ok rfl hmutate]
  exact congrArg some (mk_eq_start hnext hindex)

theorem key_ne_of_missing {s : GuildSnapshot} {p : Planned} (hmissing : p.own lower s = .missing)
    {key : Option (String ⊕ ChannelKey)} (hkey : key = some (p.key lower)) :
    ∀ c ∈ s.channels, c.key lower ≠ key := by
  intro c hc heq
  have hmem : c ∈ s.channels.filter fun c => c.key lower = some (p.key lower) :=
    List.mem_filter.mpr ⟨hc, decide_eq_true (heq.trans hkey)⟩
  rw [filter_eq_nil_of_missing hmissing] at hmem
  exact List.not_mem_nil hmem

/-- A target that is missing is created, once the category of a channel is there. -/
theorem step_create {plan : Plan} (h : plan.Valid lower) {p : Planned}
    (hp : p ∈ planTargets plan.categories) {s : GuildSnapshot} (hmissing : p.own lower s = .missing)
    {parent : ℕ} (hparent : p.channel ≠ none → categoryLookup s p.category.name = .found parent) :
    Engine.step lower (Engine.start lower s) p.create =
      some (Engine.start lower (s.addChannel (p.created lower s parent))) := by
  have hnew := key_ne_of_missing hmissing (Planned.created_key h hp s parent)
  have hnext := nextId_of_perm ((ids_addChannel s (p.created lower s parent)).trans
    (List.Perm.of_eq (by rw [Planned.created_id])))
  obtain ⟨category, channel⟩ := p
  cases channel with
  | none =>
    have hresolve : (Engine.start lower s).index.resolve lower
        (Planned.create ⟨category, none⟩) = .ok (.createChannel category.name .category none none
          none [] [hiddenEntry s]) := rfl
    have hmutate : (Engine.start lower s).guild.mutate lower (.createChannel category.name .category
        none none none [] [hiddenEntry s]) = .ok (some (Guild.new s).nextId,
          ⟨s.addChannel (Planned.created lower s parent ⟨category, none⟩),
            (Guild.new s).nextId + 1⟩) := rfl
    rw [Engine.step_of_ok hresolve hmutate]
    exact congrArg some (mk_eq_start hnext (fromSnapshot_addCategory rfl hnew))
  | some channel =>
    have hcategory := hparent (Option.some_ne_none channel)
    have hindexed : Engine.Indexed lower (Engine.start lower s) := Engine.indexed_start s
    have hid : (Engine.start lower s).index.categoryId category.name = .ok parent :=
      hindexed.categoryId_eq hcategory
    have hresolve : (Engine.start lower s).index.resolve lower
        (Planned.create ⟨category, some channel⟩) = .ok (.createChannel channel.name
          (.kind channel.kind) (some parent) channel.topic channel.slowmodeSecs channel.tags
            [hiddenEntry s]) := by
      rw [Planned.create, Option.elim_some, NameIndex.resolve, hid]
      rfl
    have hhas : Guild.hasCategory s parent = true := by
      obtain ⟨state, hmem, hid, hclass, -⟩ := GuildSnapshot.mem_of_categoryLookup hcategory
      exact List.any_eq_true.mpr ⟨state, hmem, decide_eq_true ⟨hid, hclass⟩⟩
    have hmutate : (Engine.start lower s).guild.mutate lower (.createChannel channel.name
        (.kind channel.kind) (some parent) channel.topic channel.slowmodeSecs channel.tags
          [hiddenEntry s]) = .ok (some (Guild.new s).nextId,
          ⟨s.addChannel (Planned.created lower s parent ⟨category, some channel⟩),
            (Guild.new s).nextId + 1⟩) := by
      have hfilter : (some parent).filter (fun parent =>
          !Guild.hasCategory (Engine.start lower s).guild.snapshot parent) = none := by
        have hstart : Guild.hasCategory (Engine.start lower s).guild.snapshot parent = true := hhas
        rw [Option.filter_some, hstart]
        rfl
      unfold Guild.mutate
      dsimp only
      rw [hfilter]
      rfl
    have hstored := planChannelKey_stored h hp (Option.mem_some_self channel)
    have hindex := fromSnapshot_addKind rfl hnew
    have hname : (Planned.created lower s parent ⟨category, some channel⟩).name =
        planChannelKey lower channel.name channel.kind := rfl
    rw [hname, hstored] at hindex
    rw [Engine.step_of_ok hresolve hmutate]
    exact congrArg some (mk_eq_start hnext hindex)

end Create

/-! ### A run -/

/-- What is planned is there once or not at all, and the engine knows what its snapshot says. -/
structure AdditiveInv (lower : String → String) (plan : Plan) (s₀ : GuildSnapshot) (e : Engine) :
    Prop where
  start : e = Engine.start lower e.guild.snapshot
  guildId : e.guild.snapshot.guildId = s₀.guildId
  features : e.guild.snapshot.features = s₀.features
  permissions : e.guild.snapshot.botPermissions = s₀.botPermissions
  roles : ∀ role ∈ plan.roles, roleLookup e.guild.snapshot role.name = .missing ∨
    ∃ id, roleLookup e.guild.snapshot role.name = .found id
  targets : ∀ p ∈ planTargets plan.categories,
    p.own lower e.guild.snapshot = .missing ∧ p.own lower s₀ = .missing ∨
    ∃ id, p.own lower e.guild.snapshot = .found id

section Run

variable {lower : String → String} {plan : Plan} {s₀ s : GuildSnapshot}

/-- A new role permits nothing. -/
theorem botPermissions_addRole {role : RoleState} (hrole : role.permissions = []) :
    (s.addRole role).botPermissions = s.botPermissions := by
  have hfind (id : ℕ) : ((s.addRole role).roleById id).elim [] RoleState.permissions =
      (s.roleById id).elim [] RoleState.permissions := by
    have hmoved : (s.roles.map Guild.moveUp).find? (·.id = id) =
        (s.roles.find? (·.id = id)).map Guild.moveUp := by
      rw [List.find?_map]
      exact congrArg (Option.map Guild.moveUp)
        (congrArg (List.find? · s.roles) (funext fun r => by
          rw [Function.comp_apply, (moveUp_eq r).1]))
    rw [GuildSnapshot.roleById, GuildSnapshot.roleById, GuildSnapshot.addRole, List.find?_append,
      hmoved]
    cases s.roles.find? (·.id = id) with
    | some found => exact (moveUp_eq found).2.2.2
    | none =>
      rw [Option.map_none, Option.none_or, List.find?_cons, List.find?_nil]
      split
      · exact hrole
      · rfl
  rw [GuildSnapshot.botPermissions, GuildSnapshot.botPermissions]
  congr 2
  · exact hfind s.guildId
  · exact List.flatMap_congr fun id _ => hfind id

theorem AdditiveInv.addRole (h : AdditiveInv lower plan s₀ (Engine.start lower s)) {role : RoleState}
    (hmissing : roleLookup s role.name = .missing) (hmanaged : role.managed = false)
    (hrole : role.permissions = []) :
    AdditiveInv lower plan s₀ (Engine.start lower (s.addRole role)) where
  start := rfl
  guildId := h.guildId
  features := h.features
  permissions := (botPermissions_addRole hrole).trans h.permissions
  roles planned hplanned := by
    by_cases hname : role.name = planned.name
    · rw [← hname]
      exact .inr ⟨role.id, roleLookup_addRole_self hmissing hmanaged⟩
    · have hsame := roleLookup_addRole (s := s) hname
      simp only [Engine.start, Guild.new, hsame]
      exact h.roles planned hplanned
  targets := h.targets

theorem AdditiveInv.addChannel (h : AdditiveInv lower plan s₀ (Engine.start lower s)) {p : Planned}
    {channel : ChannelState} (hmissing : p.own lower s = .missing)
    (hkey : channel.key lower = some (p.key lower)) :
    AdditiveInv lower plan s₀ (Engine.start lower (s.addChannel channel)) where
  start := rfl
  guildId := h.guildId
  features := h.features
  permissions := h.permissions
  roles := h.roles
  targets q hq := by
    by_cases hsame : q.key lower = p.key lower
    · have hmissing' : q.own lower s = .missing := by
        rw [own_eq, hsame, ← own_eq]
        exact hmissing
      exact .inr ⟨channel.id, own_addChannel_self (hkey.trans (congrArg some hsame.symm)) hmissing'⟩
    · have hown : q.own lower (s.addChannel channel) = q.own lower s :=
        own_addChannel fun heq => hsame (Option.some.inj (heq.symm.trans hkey))
      simp only [Engine.start, Guild.new, hown]
      exact h.targets q hq

/-- What is created under one key leaves the items with another key alone. -/
theorem cell_addRole {role : RoleState} {i : AdditiveItem}
    (hkey : i.key lower ≠ .inl role.name) : i.cell lower (s.addRole role) = i.cell lower s := by
  cases i with
  | role planned =>
    have hne : role.name ≠ planned.name := fun heq => hkey (congrArg Sum.inl heq.symm)
    rw [AdditiveItem.cell, AdditiveItem.cell, roleLookup_addRole hne]
  | target p => rfl

theorem cell_addChannel {channel : ChannelState} {key : String ⊕ ChannelKey} {i : AdditiveItem}
    (hchannel : channel.key lower = some key) (hkey : i.key lower ≠ .inr key) :
    i.cell lower (s.addChannel channel) = i.cell lower s := by
  cases i with
  | role planned => rfl
  | target p =>
    have hown : p.own lower (s.addChannel channel) = p.own lower s :=
      own_addChannel fun heq => hkey (congrArg Sum.inr (Option.some.inj (heq.symm.trans hchannel)))
    rw [AdditiveItem.cell, AdditiveItem.cell, hown]

theorem target_mem_before {before after : List AdditiveItem} {category : PlanCategory}
    {channel : PlanChannel}
    (h : additiveItems plan = before ++ .target ⟨category, some channel⟩ :: after) :
    AdditiveItem.target ⟨category, none⟩ ∈ before := by
  have hsplit {targets : List Planned} {front back : List AdditiveItem}
      (htargets : targets = planTargets plan.categories)
      (h : targets.map AdditiveItem.target = front ++ .target ⟨category, some channel⟩ :: back) :
      AdditiveItem.target ⟨category, none⟩ ∈ front := by
    obtain ⟨l, r, rfl, rfl, hr⟩ := List.map_eq_append_iff.mp h
    obtain ⟨p, r, rfl, hp, -⟩ := List.map_eq_cons_iff.mp hr
    cases hp
    exact List.mem_map_of_mem (category_before htargets.symm)
  rw [additiveItems] at h
  rcases List.append_eq_append_iff.mp h with ⟨front, rfl, hrest⟩ | ⟨back, hroles, hrest⟩
  · exact List.mem_append_right _ (hsplit rfl hrest)
  · cases back with
    | nil => exact absurd (@hsplit _ [] _ rfl hrest.symm) List.not_mem_nil
    | cons i back =>
      rw [List.cons_append, List.cons.injEq] at hrest
      have hmem : i ∈ plan.roles.map AdditiveItem.role :=
        hroles ▸ List.mem_append_right before List.mem_cons_self
      obtain ⟨role, -, rfl⟩ := List.mem_map.mp hmem
      cases hrest.1

/-- **The items of the additive stage are a worklist that settles.** -/
theorem additive_settles (h : plan.Valid lower) (s₀ : GuildSnapshot) :
    Settles (Engine.step lower) (AdditiveInv lower plan s₀)
      (fun i e => i.cell lower e.guild.snapshot) (additiveItems plan) where
  settle before i after hitems e change he hbefore hc := by
    have hnodup := additiveItems_nodup h
    rw [hitems, List.map_append, List.map_cons] at hnodup
    have hi : i ∈ additiveItems plan := hitems ▸ List.mem_append_right before List.mem_cons_self
    have hne : ∀ j ∈ before ++ after, j.key lower ≠ i.key lower := by
      intro j hj heq
      rw [List.nodup_middle, List.nodup_cons, ← heq, ← List.map_append] at hnodup
      exact hnodup.1 (List.mem_map_of_mem hj)
    obtain ⟨s, rfl⟩ : ∃ s, e = Engine.start lower s := ⟨_, he.start⟩
    cases i with
    | role planned =>
      simp only [AdditiveItem.cell] at hc
      split_ifs at hc with hmissing
      cases hc
      have hmissing : roleLookup s planned.name = .missing := hmissing
      refine ⟨_, step_createRole planned.colour hmissing, he.addRole hmissing rfl rfl, ?_,
        fun j hj => cell_addRole (hne j hj)⟩
      have hfound := @roleLookup_addRole_self s
        (Guild.newRole (Guild.new s).nextId planned.name planned.colour) hmissing rfl
      refine if_neg fun hmissing' => ?_
      cases hfound.symm.trans hmissing'
    | target p =>
      simp only [AdditiveItem.cell] at hc
      split_ifs at hc with hmissing
      cases hc
      have hmissing : p.own lower s = .missing := hmissing
      have hp : p ∈ planTargets plan.categories := by
        rcases List.mem_append.mp hi with hi | hi
        · obtain ⟨_, -, heq⟩ := List.mem_map.mp hi
          cases heq
        · obtain ⟨q, hq, heq⟩ := List.mem_map.mp hi
          cases heq
          exact hq
      obtain ⟨parent, hparent⟩ : ∃ parent, p.channel ≠ none →
          categoryLookup s p.category.name = .found parent := by
        obtain ⟨category, channel⟩ := p
        cases channel with
        | none => exact ⟨0, fun h => (h rfl).elim⟩
        | some channel =>
          have hcategory := hbefore _ (target_mem_before hitems)
          simp only [AdditiveItem.cell] at hcategory
          split_ifs at hcategory with hnot
          have hmem : (⟨category, none⟩ : Planned) ∈ planTargets plan.categories :=
            mem_planTargets.mpr ⟨(mem_planTargets.mp hp).1, fun _ h =>
              absurd h (Option.not_mem_none _)⟩
          rcases he.targets _ hmem with ⟨hmissing', -⟩ | ⟨id, hfound⟩
          · exact absurd hmissing' hnot
          · exact ⟨id, fun _ => hfound⟩
      have hkey := Planned.created_key h hp s parent
      refine ⟨_, step_create h hp hmissing hparent, he.addChannel hmissing hkey, ?_,
        fun j hj => cell_addChannel hkey (hne j hj)⟩
      refine if_neg fun hmissing' => ?_
      cases (own_addChannel_self hkey hmissing).symm.trans hmissing'

end Run

end AbbeyBot.Server
