import Mathlib
import AbbeyBot.Library.Worklist
import AbbeyBot.Server.Apply

/-! # The engine

An engine is a guild with the index of a run. Its step resolves one change and performs it; a run of
steps is what `apply` does. The index of a run finds what a comparison finds: `Indexed` says that it
has exactly the names that occur once. -/

namespace AbbeyBot.Server

open AbbeyBot.Library.OrderedMap AbbeyBot.Library.Worklist

/-- A guild and what a run knows of it. -/
structure Engine where
  guild : Guild
  index : NameIndex

namespace Engine

section Step

variable (lower : String → String)

/-- The engine before a run. -/
def start (snapshot : GuildSnapshot) : Engine := ⟨.new snapshot, .fromSnapshot lower snapshot⟩

/-- One change is resolved, performed and recorded. -/
def step (s : Engine) (change : Change) : Option Engine :=
  match s.index.resolve lower change with
  | .error _ => none
  | .ok op =>
    match s.guild.mutate lower op with
    | .error _ => none
    | .ok (created, guild) => some ⟨guild, s.index.record lower change created⟩

variable {lower}

theorem step_of_ok {s : Engine} {change : Change} {op : Op} {created : Option ℕ} {guild : Guild}
    (hop : s.index.resolve lower change = .ok op)
    (hguild : s.guild.mutate lower op = .ok (created, guild)) :
    step lower s change = some ⟨guild, s.index.record lower change created⟩ := by
  rw [step, hop]
  simp only [hguild]

theorem step_eq_some {s s' : Engine} {change : Change} (h : step lower s change = some s') :
    ∃ op created guild, s.index.resolve lower change = .ok op ∧
      s.guild.mutate lower op = .ok (created, guild) ∧
      s' = ⟨guild, s.index.record lower change created⟩ := by
  rw [step] at h
  cases hop : s.index.resolve lower change with
  | error _ => rw [hop] at h; cases h
  | ok op =>
    rw [hop] at h
    cases hguild : s.guild.mutate lower op with
    | error _ => simp only [hguild] at h; cases h
    | ok result =>
      simp only [hguild, Option.some.injEq] at h
      exact ⟨op, result.1, result.2, rfl, hguild, h.symm⟩

/-- What a run has done, `apply` does, as long as no failure is injected. -/
theorem applyFrom_append {s s' : Engine} {changes : List Change}
    (hrun : run (step lower) s changes = some s') (rest : List Change) (fake : FakeGuild)
    (hguild : fake.toGuild = s.guild)
    (hfail : ∀ n, fake.failAt = some n → fake.performed + changes.length ≤ n) :
    applyFrom lower (FakeGuild.perform lower) s.index fake (changes ++ rest) =
      let last := applyFrom lower (FakeGuild.perform lower) s'.index
        ⟨s'.guild, fake.failAt, fake.performed + changes.length⟩ rest
      ({ last.1 with applied := changes ++ last.1.applied }, last.2) := by
  induction changes generalizing s fake with
  | nil =>
    rw [run, Option.some.injEq] at hrun
    obtain ⟨guild, failAt, performed⟩ := fake
    cases hguild
    rw [hrun]
    rfl
  | cons change changes ih =>
    rw [run, Option.bind_eq_some_iff] at hrun
    obtain ⟨t, ht, hrun⟩ := hrun
    obtain ⟨op, created, guild, hop, hmutate, rfl⟩ := step_eq_some ht
    have hnot : fake.failAt ≠ some fake.performed := by
      intro h
      have := hfail _ h
      rw [List.length_cons] at this
      omega
    have hperform : FakeGuild.perform lower fake op =
        (.ok created, ⟨guild, fake.failAt, fake.performed + 1⟩) := by
      rw [FakeGuild.perform, if_neg hnot, hguild, hmutate]
    rw [List.cons_append, applyFrom, hop]
    simp only [hperform]
    rw [ih hrun ⟨guild, fake.failAt, fake.performed + 1⟩ rfl]
    · have hcount : fake.performed + 1 + changes.length =
          fake.performed + (change :: changes).length := by
        rw [List.length_cons]
        omega
      simp only [hcount, List.cons_append]
    · intro n hn
      have := hfail n hn
      rw [List.length_cons] at this
      simp only
      omega

/-- A run that goes through is a success. -/
theorem applyFrom_run {s s' : Engine} {changes : List Change}
    (hrun : run (step lower) s changes = some s') (fake : FakeGuild)
    (hguild : fake.toGuild = s.guild)
    (hfail : ∀ n, fake.failAt = some n → fake.performed + changes.length ≤ n) :
    applyFrom lower (FakeGuild.perform lower) s.index fake changes =
      (⟨changes, none, []⟩, ⟨s'.guild, fake.failAt, fake.performed + changes.length⟩) := by
  have h := applyFrom_append hrun [] fake hguild hfail
  rw [List.append_nil] at h
  rw [h]
  simp only [applyFrom, List.append_nil]

end Step

/-! ### The index -/

section Index

variable (lower : String → String)

/-- The index has the names that occur once in the snapshot. -/
structure Indexed (s : Engine) : Prop where
  guildId : s.index.guildId = s.guild.snapshot.guildId
  roles : ∀ name, s.index.roles[name]? =
    single ((s.guild.snapshot.rolesNamed name).map RoleState.id)
  categories : ∀ name, s.index.categories[categoryKey name]? =
    single ((s.guild.snapshot.categoriesNamed name).map ChannelState.id)
  channels : ∀ name kind, s.index.channels[(⟨planChannelKey lower name kind, kind⟩ : ChannelKey)]? =
    single ((s.guild.snapshot.channelsMatching lower name kind).map ChannelState.id)

variable {lower}

theorem indexed_start (snapshot : GuildSnapshot) : Indexed lower (start lower snapshot) where
  guildId := rfl
  roles name := by
    refine (getElem?_uniqueRows _ name).trans (congrArg single ?_)
    rw [List.filter_map, List.map_map]
    rfl
  categories name := by
    refine (getElem?_uniqueRows _ (categoryKey name)).trans (congrArg single ?_)
    rw [GuildSnapshot.categoriesNamed]
    change _ = (snapshot.channels.filter _).map ChannelState.id
    induction snapshot.channels with
    | nil => rfl
    | cons channel channels ih =>
      rw [List.filterMap_cons, List.filter_cons, NameIndex.categoryRow]
      by_cases hclass : channel.channelClass = .category
      · by_cases hkey : categoryKey channel.name = categoryKey name
        · simp [hclass, hkey, ih]
        · simp [hclass, hkey, ih]
      · simp [hclass, ih]
  channels name kind := by
    refine (getElem?_uniqueRows _ (⟨planChannelKey lower name kind, kind⟩ : ChannelKey)).trans
      (congrArg single ?_)
    rw [GuildSnapshot.channelsMatching]
    change _ = (snapshot.channels.filter _).map ChannelState.id
    induction snapshot.channels with
    | nil => rfl
    | cons channel channels ih =>
      rw [List.filterMap_cons, List.filter_cons, NameIndex.channelRow]
      cases hclass : channel.channelClass with
      | category => simp [ih]
      | other => simp [ih]
      | kind other =>
        by_cases hkind : other = kind
        · by_cases hkey : planChannelKey lower channel.name kind = planChannelKey lower name kind
          · simp [hkind, hkey, ih]
          · simp [hkind, hkey, ih]
        · simp [hkind, ih]

namespace Indexed

variable {s : Engine} (h : Indexed lower s)

include h in
theorem roleId_eq {name : String} {id : ℕ} (hname : name ≠ everyoneName)
    (hfound : roleLookup s.guild.snapshot name = .found id) : s.index.roleId name = .ok id := by
  rw [NameIndex.roleId, if_neg hname, h.roles]
  rw [roleLookup] at hfound
  split at hfound
  · cases hfound
  · rename_i one hone
    split_ifs at hfound
    cases hfound
    rw [hone]
    rfl
  · cases hfound

include h in
theorem overwriteRole_eq (target : Target) {role : String} {id : ℕ}
    (hrole : overwriteRole s.guild.snapshot target role = .ok id) :
    s.index.roleId role = .ok id := by
  rw [overwriteRole] at hrole
  split_ifs at hrole with hname
  · cases hrole
    rw [NameIndex.roleId, if_pos hname, h.guildId]
  · split at hrole
    · cases hrole
      exact h.roleId_eq hname ‹_›
    all_goals cases hrole

theorem single_of_found {matches_ : List ChannelState} {id : ℕ}
    (hfound : Lookup.ofMatches matches_ = .found id) :
    single (matches_.map ChannelState.id) = some id := by
  match matches_ with
  | [] => cases hfound
  | [one] => cases hfound; rfl
  | _ :: _ :: _ => cases hfound

include h in
theorem categoryId_eq {name : String} {id : ℕ}
    (hfound : categoryLookup s.guild.snapshot name = .found id) :
    s.index.categoryId name = .ok id := by
  rw [NameIndex.categoryId, h.categories, single_of_found hfound]

include h in
theorem channelId_eq {channel : PlanChannel} {id : ℕ}
    (hfound : channelLookup lower s.guild.snapshot channel = .found id) :
    s.index.channelId lower channel.name channel.kind = .ok id := by
  rw [NameIndex.channelId, h.channels, single_of_found hfound]

end Indexed

end Index

end Engine

end AbbeyBot.Server
