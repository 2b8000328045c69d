import Mathlib
import AbbeyBot.Server.Additive
import AbbeyBot.Server.Asked

/-! # What a run leaves alone

A run changes what its changes name and nothing else, wherever it stops: the names are resolved to the
things that have them, what was created is found under its name, and the five operations take nothing
away. -/

namespace AbbeyBot.Server

open AbbeyBot.Library.FirstMatch AbbeyBot.Library.OrderedMap

/-! ### What may have changed -/

/-- The name of a plan is for the role. -/
def RoleState.Named (guildId : ℕ) (r : RoleState) (name : String) : Prop :=
  if name = everyoneName then r.id = guildId else r.name = name

/-- The target of a plan is the channel. -/
def ChannelState.Named (lower : String → String) (c : ChannelState) : Target → Prop
  | .category name => c.channelClass = .category ∧ categoryKey c.name = categoryKey name
  | .channel name kind =>
    c.channelClass = .kind kind ∧ planChannelKey lower c.name kind = planChannelKey lower name kind

namespace GuildSnapshot

/-- The guild has a role of the name with the id. -/
def HasRole (s : GuildSnapshot) (name : String) (id : ℕ) : Prop :=
  if name = everyoneName then id = s.guildId else ∃ r ∈ s.roles, r.id = id ∧ r.name = name

def HasCategory (s : GuildSnapshot) (name : String) (id : ℕ) : Prop :=
  ∃ c ∈ s.channels, c.id = id ∧ c.channelClass = .category ∧ categoryKey c.name = categoryKey name

end GuildSnapshot

namespace Change

/-- The name of the role that a change creates. -/
def newRole : Change → Option String
  | .createRole name _ => some name
  | _ => none

/-- The stored name and the class of the channel that a change creates. -/
def newChannel (lower : String → String) : Change → Option (String × ChannelClass)
  | .createCategory name _ => some (name, .category)
  | .createChannel name kind .. => some (planChannelKey lower name kind, .kind kind)
  | _ => none

end Change

section ChangedBy

variable (lower : String → String) (changes : List Change)

/-- A role after the changes: it looks as before or as one of them says, and is as many places higher
as roles were created below it. -/
structure RoleState.ChangedBy (guildId : ℕ) (r r' : RoleState) : Prop where
  id : r'.id = r.id
  name : r'.name = r.name
  managed : r'.managed = r.managed
  permissions : r'.permissions = r.permissions
  position : r'.position =
    if 1 ≤ r.position then r.position + (changes.filterMap Change.newRole).length else r.position
  look : (r'.hoist = r.hoist ∧ r'.mentionable = r.mentionable ∧ r'.colour = r.colour) ∨
    ∃ name colour, .editRole name r'.hoist r'.mentionable colour ∈ changes ∧
      r.Named guildId name ∧ r'.colour = colour.getD 0

/-- The entry is written by one of the changes, which names the channel. -/
def OverwriteState.WrittenBy (after : GuildSnapshot) (c : ChannelState) (entry : OverwriteState) :
    Prop :=
  ∃ target o roleId, .setOverwrite target o ∈ changes ∧ c.Named lower target ∧
    after.HasRole o.role roleId ∧ entry = ⟨.role roleId, o.allow, o.deny⟩

/-- A channel after the changes, which leave the guild as `after`: its category, its topic and each of
its entries are as before or as one of them says that names the channel. -/
structure ChannelState.ChangedBy (after : GuildSnapshot) (c c' : ChannelState) : Prop where
  id : c'.id = c.id
  name : c'.name = c.name
  channelClass : c'.channelClass = c.channelClass
  parent : c'.parent = c.parent ∨ ∃ name kind category topic parent,
    .editChannel name kind category topic ∈ changes ∧ c.Named lower (.channel name kind) ∧
      after.HasCategory category parent ∧ c'.parent = some parent
  topic : c'.topic = c.topic ∨ ∃ name kind category topic,
    .editChannel name kind category (.set topic) ∈ changes ∧ c.Named lower (.channel name kind) ∧
      c'.topic = some topic
  kept : ∀ o ∈ c.overwrites, o ∈ c'.overwrites ∨
    ∃ o' ∈ c'.overwrites, o'.target = o.target ∧ o'.WrittenBy lower changes after c
  written : ∀ o ∈ c'.overwrites, o ∈ c.overwrites ∨ o.WrittenBy lower changes after c

/-- A guild after the changes: everything that was there is still there, and what was created is what
the changes create, in their order. -/
structure GuildSnapshot.ChangedBy (s s' : GuildSnapshot) : Prop where
  guildId : s'.guildId = s.guildId
  features : s'.features = s.features
  bot : s'.bot = s.bot
  roles : ∃ kept created, s'.roles = kept ++ created ∧
    s.roles.Forall₂ (RoleState.ChangedBy changes s.guildId) kept ∧
    created.map RoleState.name = changes.filterMap Change.newRole
  channels : ∃ kept created, s'.channels = kept ++ created ∧
    s.channels.Forall₂ (ChannelState.ChangedBy lower changes s') kept ∧
    created.map (fun c => (c.name, c.channelClass)) = changes.filterMap (Change.newChannel lower)

end ChangedBy

/-! ### One operation -/

namespace Op

/-- What an operation makes of a role that is there. -/
def ChangesRole : Op → RoleState → RoleState → Prop
  | .createRole .., r, r' => r' = Guild.moveUp r
  | .editRole id hoist mentionable colour, r, r' =>
    r' = r ∨ r.id = id ∧ r' = Guild.editRole hoist mentionable colour r
  | _, r, r' => r' = r

def ChangesChannel : Op → ChannelState → ChannelState → Prop
  | .editChannel id parent topic, c, c' =>
    c' = c ∨ c.id = id ∧ c' = Guild.editChannel parent topic c
  | .setOverwrite id roleId allow deny, c, c' =>
    c' = c ∨ c.id = id ∧ c' = Guild.setOverwrite roleId allow deny c
  | _, c, c' => c' = c

/-- The role that an operation creates, under the id. -/
def newRoles (id : ℕ) : Op → List RoleState
  | .createRole name colour => [Guild.newRole id name colour]
  | _ => []

def newChannels (lower : String → String) (id : ℕ) : Op → List ChannelState
  | .createChannel name channelClass parent topic _ _ overwrites =>
    [Guild.newChannel lower id name channelClass parent topic overwrites]
  | _ => []

/-- The operation creates something. -/
def creates : Op → Bool
  | .createRole .. | .createChannel .. => true
  | .editRole .. | .editChannel .. | .setOverwrite .. => false

end Op

/-- What one operation can do to a guild. -/
structure Guild.Performs (lower : String → String) (op : Op) (guild : Guild) (created : Option ℕ)
    (next : Guild) : Prop where
  guildId : next.snapshot.guildId = guild.snapshot.guildId
  features : next.snapshot.features = guild.snapshot.features
  bot : next.snapshot.bot = guild.snapshot.bot
  roles : ∃ kept, next.snapshot.roles = kept ++ op.newRoles guild.nextId ∧
    guild.snapshot.roles.Forall₂ op.ChangesRole kept
  channels : ∃ kept, next.snapshot.channels = kept ++ op.newChannels lower guild.nextId ∧
    guild.snapshot.channels.Forall₂ op.ChangesChannel kept
  created : created = if op.creates then some guild.nextId else none
  nextId : guild.nextId ≤ next.nextId

theorem forall₂_unchanged {α : Type} (l : List α) : l.Forall₂ (fun a a' => a' = a) l :=
  List.forall₂_same.mpr fun _ _ => rfl

theorem performs_updateRole {lower : String → String} {guild next : Guild} {created : Option ℕ}
    {id : ℕ} {hoist mentionable : Bool} {colour : Option ℕ}
    (h : guild.updateRole id (Guild.editRole hoist mentionable colour) = .ok (created, next)) :
    Guild.Performs lower (.editRole id hoist mentionable colour) guild created next := by
  unfold Guild.updateRole at h
  split at h
  · rename_i roles hroles
    cases h
    refine ⟨rfl, rfl, rfl, ⟨roles, (List.append_nil _).symm, ?_⟩,
      ⟨_, (List.append_nil _).symm, forall₂_unchanged _⟩, rfl, le_rfl⟩
    exact (forall₂_of_updateFirst hroles).imp fun r r' h =>
      h.imp_right fun h => ⟨of_decide_eq_true h.1, h.2⟩
  · cases h

/-- An operation that updates one channel, as it is said by `f`. -/
theorem performs_updateChannel {lower : String → String} {guild next : Guild} {created : Option ℕ}
    {op : Op} {id : ℕ} {f : ChannelState → ChannelState}
    (hop : (op.ChangesRole = fun r r' => r' = r) ∧
      (op.ChangesChannel = fun c c' => c' = c ∨ c.id = id ∧ c' = f c) ∧ op.newRoles guild.nextId = [] ∧
      op.newChannels lower guild.nextId = [] ∧ op.creates = false)
    (h : guild.updateChannel id f = .ok (created, next)) :
    Guild.Performs lower op guild created next := by
  obtain ⟨hrole, hchannel, hroles, hchannels, hcreates⟩ := hop
  unfold Guild.updateChannel at h
  split at h
  · rename_i channels hupdate
    cases h
    refine ⟨rfl, rfl, rfl, ⟨guild.snapshot.roles, by rw [hroles, List.append_nil], ?_⟩,
      ⟨channels, by rw [hchannels, List.append_nil], ?_⟩, by rw [hcreates]; rfl, le_rfl⟩
    · rw [hrole]
      exact forall₂_unchanged _
    · rw [hchannel]
      exact (forall₂_of_updateFirst hupdate).imp fun c c' h =>
        h.imp_right fun h => ⟨of_decide_eq_true h.1, h.2⟩
  · cases h

/-- **One operation**: what it says is what it can do. -/
theorem performs_of_mutate {lower : String → String} {guild next : Guild} {op : Op}
    {created : Option ℕ} (h : guild.mutate lower op = .ok (created, next)) :
    Guild.Performs lower op guild created next := by
  cases op with
  | createRole name colour =>
    cases h
    exact ⟨rfl, rfl, rfl, ⟨_, rfl, List.forall₂_map_right_iff.mpr (List.forall₂_same.mpr fun _ _ => rfl)⟩,
      ⟨_, (List.append_nil _).symm, forall₂_unchanged _⟩, rfl, Nat.le_succ _⟩
  | editRole id hoist mentionable colour => exact performs_updateRole h
  | createChannel name channelClass parent topic slowmodeSecs tags overwrites =>
    unfold Guild.mutate at h
    dsimp only at h
    split at h
    · cases h
    · cases h
      exact ⟨rfl, rfl, rfl, ⟨_, (List.append_nil _).symm, forall₂_unchanged _⟩,
        ⟨_, rfl, forall₂_unchanged _⟩, rfl, Nat.le_succ _⟩
  | editChannel id parent topic => exact performs_updateChannel ⟨rfl, rfl, rfl, rfl, rfl⟩ h
  | setOverwrite id roleId allow deny => exact performs_updateChannel ⟨rfl, rfl, rfl, rfl, rfl⟩ h

/-! ### One change -/

section Change

variable {lower : String → String} {s₀ : GuildSnapshot} {changes : List Change} {history : History}
  {guild next : Guild} {change : Change} {op : Op} {created : Option ℕ}

/-- What a run has made of the guild it was started on, and what it has created there. -/
structure Progress (lower : String → String) (s₀ : GuildSnapshot) (changes : List Change)
    (history : History) (guild : Guild) : Prop where
  changed : s₀.ChangedBy lower changes guild.snapshot
  nextId : (Guild.new s₀).nextId ≤ guild.nextId
  fresh : ∀ row ∈ history, (Guild.new s₀).nextId ≤ row.2
  roleMade : ∀ name colour id, (.createRole name colour, id) ∈ history →
    ∃ r ∈ guild.snapshot.roles, r.id = id ∧ r.name = name
  categoryMade : ∀ name overwrites id, (.createCategory name overwrites, id) ∈ history →
    ∃ c ∈ guild.snapshot.channels, c.id = id ∧ c.channelClass = .category ∧ c.name = name

theorem RoleState.ChangedBy.refl (guildId : ℕ) (r : RoleState) : r.ChangedBy [] guildId r :=
  ⟨rfl, rfl, rfl, rfl, by split_ifs <;> rfl, .inl ⟨rfl, rfl, rfl⟩⟩

theorem ChannelState.ChangedBy.refl (after : GuildSnapshot) (c : ChannelState) :
    c.ChangedBy lower [] after c :=
  ⟨rfl, rfl, rfl, .inl rfl, .inl rfl, fun _ ho => .inl ho, fun _ ho => .inl ho⟩

theorem progress_start : Progress lower s₀ [] [] (.new s₀) where
  changed := ⟨rfl, rfl, rfl,
    ⟨s₀.roles, [], (List.append_nil _).symm, List.forall₂_same.mpr fun r _ => .refl s₀.guildId r, rfl⟩,
    ⟨s₀.channels, [], (List.append_nil _).symm, List.forall₂_same.mpr fun c _ => .refl _ c, rfl⟩⟩
  nextId := le_rfl
  fresh _ hrow := (List.not_mem_nil hrow).elim
  roleMade _ _ _ hrow := (List.not_mem_nil hrow).elim
  categoryMade _ _ _ hrow := (List.not_mem_nil hrow).elim

/-! ### Names and rows -/

theorem single_map_eq_some {α : Type} {f : α → ℕ} {l : List α} {id : ℕ}
    (h : single (l.map f) = some id) : ∃ a ∈ l, f a = id := by
  cases l with
  | nil => cases h
  | cons a l =>
    cases l with
    | nil =>
      cases h
      exact ⟨a, List.mem_singleton_self a, rfl⟩
    | cons b l => cases h

/-- What a run has created has an id that nothing had. -/
theorem Progress.not_latest (h : Progress lower s₀ changes history guild) {creates : Change → Bool}
    {id : ℕ} (hid : id ∈ Guild.ids s₀) : history.latest creates ≠ some id := by
  intro hlatest
  obtain ⟨change, hrow, -⟩ := History.exists_of_latest hlatest
  have hfresh := h.fresh _ hrow
  have hold := lt_nextId hid
  dsimp only at hfresh
  omega

/-- A role that was there is the one of the name that its id is known for. -/
theorem Progress.named_role (h : Progress lower s₀ changes history guild) (hids : s₀.UniqueIds)
    {r : RoleState} (hr : r ∈ s₀.roles) {name : String}
    (hknown : s₀.knownRole history name = some r.id) : r.Named s₀.guildId name := by
  unfold GuildSnapshot.knownRole at hknown
  unfold RoleState.Named
  split_ifs at hknown ⊢ with hname
  · exact (Option.some.inj hknown).symm
  · rcases Option.or_eq_some_iff.mp hknown with hlatest | ⟨-, hsingle⟩
    · exact absurd hlatest (h.not_latest (List.mem_append_left _ (List.mem_map_of_mem hr)))
    · obtain ⟨r', hr', hid⟩ := single_map_eq_some hsingle
      have hmem := List.mem_filter.mp hr'
      rw [← GuildSnapshot.eq_of_id hids hmem.1 hr hid]
      exact of_decide_eq_true hmem.2

/-- A channel that was there is the target that its id is known for. -/
theorem Progress.named_channel (h : Progress lower s₀ changes history guild) (hids : s₀.UniqueIds)
    {c : ChannelState} (hc : c ∈ s₀.channels) {target : Target}
    (hknown : s₀.knownTarget lower history target = some c.id) : c.Named lower target := by
  have hold : c.id ∈ Guild.ids s₀ := List.mem_append_right _ (List.mem_map_of_mem hc)
  have hfound (creates : Change → Bool) (p : ChannelState → Bool)
      (hknown : ((history.latest creates).or
        (single ((s₀.channels.filter p).map ChannelState.id))) = some c.id) : p c = true := by
    rcases Option.or_eq_some_iff.mp hknown with hlatest | ⟨-, hsingle⟩
    · exact absurd hlatest (h.not_latest hold)
    · obtain ⟨c', hc', hid⟩ := single_map_eq_some hsingle
      have hmem := List.mem_filter.mp hc'
      rw [← GuildSnapshot.eq_of_channel_id hids hmem.1 hc hid]
      exact hmem.2
  cases target with
  | category name =>
    have hmatch := hfound _ _ hknown
    rwa [decide_eq_true_eq] at hmatch
  | channel name kind =>
    have hmatch := hfound _ _ hknown
    rwa [decide_eq_true_eq] at hmatch

/-- What a name is known for is in the guild. -/
theorem Progress.hasRole (h : Progress lower s₀ changes history guild) {name : String} {id : ℕ}
    (hknown : s₀.knownRole history name = some id) : guild.snapshot.HasRole name id := by
  unfold GuildSnapshot.knownRole at hknown
  unfold GuildSnapshot.HasRole
  split_ifs at hknown ⊢ with hname
  · rw [h.changed.guildId, Option.some.inj hknown]
  · rcases Option.or_eq_some_iff.mp hknown with hlatest | ⟨-, hsingle⟩
    · obtain ⟨change, hrow, hcreates⟩ := History.exists_of_latest hlatest
      cases change with
      | createRole created colour =>
        rw [Change.createsRole, decide_eq_true_eq] at hcreates
        exact h.roleMade _ _ _ (hcreates ▸ hrow)
      | _ => cases hcreates
    · obtain ⟨r, hr, rfl⟩ := single_map_eq_some hsingle
      obtain ⟨hmem, hnamed⟩ := List.mem_filter.mp hr
      obtain ⟨kept, created, hroles, hkept, -⟩ := h.changed.roles
      obtain ⟨r', hr', hchanged⟩ := exists_of_forall₂ hkept hmem
      exact ⟨r', hroles ▸ List.mem_append_left created hr', hchanged.id,
        hchanged.name.trans (of_decide_eq_true hnamed)⟩

theorem Progress.hasCategory (h : Progress lower s₀ changes history guild) {name : String} {id : ℕ}
    (hknown : s₀.knownCategory history name = some id) : guild.snapshot.HasCategory name id := by
  rcases Option.or_eq_some_iff.mp hknown with hlatest | ⟨-, hsingle⟩
  · obtain ⟨change, hrow, hcreates⟩ := History.exists_of_latest hlatest
    cases change with
    | createCategory created overwrites =>
      obtain ⟨c, hc, hid, hclass, hname⟩ := h.categoryMade _ _ _ hrow
      rw [Change.createsCategory, decide_eq_true_eq] at hcreates
      exact ⟨c, hc, hid, hclass, by rw [hname, hcreates]⟩
    | _ => cases hcreates
  · obtain ⟨c, hc, rfl⟩ := single_map_eq_some hsingle
    obtain ⟨hmem, hnamed⟩ := List.mem_filter.mp hc
    rw [decide_eq_true_eq] at hnamed
    obtain ⟨kept, created, hchannels, hkept, -⟩ := h.changed.channels
    obtain ⟨c', hc', hchanged⟩ := exists_of_forall₂ hkept hmem
    exact ⟨c', hchannels ▸ List.mem_append_left created hc', hchanged.id,
      hchanged.channelClass.trans hnamed.1, by rw [hchanged.name]; exact hnamed.2⟩

theorem Op.ChangesRole.same {r r' : RoleState} (h : op.ChangesRole r r') :
    r'.id = r.id ∧ r'.name = r.name := by
  cases op with
  | createRole name colour =>
    obtain rfl := h
    unfold Guild.moveUp
    split_ifs <;> exact ⟨rfl, rfl⟩
  | editRole id hoist mentionable colour =>
    obtain rfl | ⟨-, rfl⟩ := h
    · exact ⟨rfl, rfl⟩
    · exact ⟨rfl, rfl⟩
  | _ => cases h; exact ⟨rfl, rfl⟩

theorem Op.ChangesChannel.same {c c' : ChannelState} (h : op.ChangesChannel c c') :
    c'.id = c.id ∧ c'.name = c.name ∧ c'.channelClass = c.channelClass := by
  cases op with
  | editChannel id parent topic =>
    obtain rfl | ⟨-, rfl⟩ := h
    · exact ⟨rfl, rfl, rfl⟩
    · exact ⟨rfl, rfl, rfl⟩
  | setOverwrite id roleId allow deny =>
    obtain rfl | ⟨-, rfl⟩ := h
    · exact ⟨rfl, rfl, rfl⟩
    · exact ⟨rfl, rfl, rfl⟩
  | _ => cases h; exact ⟨rfl, rfl, rfl⟩

namespace Guild.Performs

variable (h : Guild.Performs lower op guild created next)

include h in
theorem exists_role {r : RoleState} (hr : r ∈ guild.snapshot.roles) :
    ∃ r' ∈ next.snapshot.roles, r'.id = r.id ∧ r'.name = r.name := by
  obtain ⟨kept, hroles, hkept⟩ := h.roles
  obtain ⟨r', hr', hchanges⟩ := exists_of_forall₂ hkept hr
  exact ⟨r', hroles ▸ List.mem_append_left _ hr', hchanges.same⟩

include h in
theorem exists_channel {c : ChannelState} (hc : c ∈ guild.snapshot.channels) :
    ∃ c' ∈ next.snapshot.channels,
      c'.id = c.id ∧ c'.name = c.name ∧ c'.channelClass = c.channelClass := by
  obtain ⟨kept, hchannels, hkept⟩ := h.channels
  obtain ⟨c', hc', hchanges⟩ := exists_of_forall₂ hkept hc
  exact ⟨c', hchannels ▸ List.mem_append_left _ hc', hchanges.same⟩

include h in
theorem hasRole {name : String} {id : ℕ} (hrole : guild.snapshot.HasRole name id) :
    next.snapshot.HasRole name id := by
  unfold GuildSnapshot.HasRole at hrole ⊢
  split_ifs at hrole ⊢
  · rw [hrole, h.guildId]
  · obtain ⟨r, hr, rfl, rfl⟩ := hrole
    exact h.exists_role hr

include h in
theorem hasCategory {name : String} {id : ℕ} (hcategory : guild.snapshot.HasCategory name id) :
    next.snapshot.HasCategory name id := by
  obtain ⟨c, hc, rfl, hclass, hkey⟩ := hcategory
  obtain ⟨c', hc', hid, hname, hclass'⟩ := h.exists_channel hc
  exact ⟨c', hc', hid, hclass'.trans hclass, by rw [hname]; exact hkey⟩

end Guild.Performs

/-! ### One row -/

theorem RoleState.ChangedBy.mono {guildId : ℕ} {r r' : RoleState}
    (h : r.ChangedBy changes guildId r') (hnew : change.newRole = none) :
    r.ChangedBy (changes ++ [change]) guildId r' :=
  { h with
    position := by
      rw [h.position, List.filterMap_append, List.filterMap_cons_none hnew, List.filterMap_nil,
        List.append_nil]
    look := h.look.imp_right fun ⟨name, colour, hmem, hlook⟩ =>
      ⟨name, colour, List.mem_append_left _ hmem, hlook⟩ }

/-- A role that is below nothing new stays at the bottom; the others make room for the new one. -/
theorem RoleState.ChangedBy.moveUp {guildId : ℕ} {r r' : RoleState}
    (h : r.ChangedBy changes guildId r') (name : String) (colour : Option ℕ) :
    r.ChangedBy (changes ++ [.createRole name colour]) guildId (Guild.moveUp r') := by
  have hlook : (Guild.moveUp r').hoist = r'.hoist ∧
      (Guild.moveUp r').mentionable = r'.mentionable ∧ (Guild.moveUp r').colour = r'.colour := by
    unfold Guild.moveUp
    split_ifs <;> exact ⟨rfl, rfl, rfl⟩
  have hsame : (Guild.moveUp r').id = r'.id ∧ (Guild.moveUp r').name = r'.name ∧
      (Guild.moveUp r').managed = r'.managed ∧ (Guild.moveUp r').permissions = r'.permissions := by
    unfold Guild.moveUp
    split_ifs <;> exact ⟨rfl, rfl, rfl, rfl⟩
  have hposition := h.position
  refine ⟨hsame.1.trans h.id, hsame.2.1.trans h.name, hsame.2.2.1.trans h.managed,
    hsame.2.2.2.trans h.permissions, ?_, ?_⟩
  · have hcount : ((changes ++ [Change.createRole name colour]).filterMap Change.newRole).length =
        (changes.filterMap Change.newRole).length + 1 := by
      rw [List.filterMap_append, List.length_append]
      rfl
    rw [hcount]
    by_cases hpos : 1 ≤ r.position
    · rw [if_pos hpos] at hposition ⊢
      rw [Guild.moveUp, if_pos (by omega)]
      exact congrArg (· + 1) hposition
    · rw [if_neg hpos] at hposition ⊢
      rw [Guild.moveUp, if_neg (by omega), hposition]
  · rw [hlook.1, hlook.2.1, hlook.2.2]
    rcases h.look with hleft | ⟨name', colour', hmem, hedited⟩
    · exact .inl hleft
    · exact .inr ⟨name', colour', List.mem_append_left _ hmem, hedited⟩

/-- What a change makes of a role that was there at the start. -/
theorem Progress.role_step (h : Progress lower s₀ changes history guild) (hids : s₀.UniqueIds)
    (hmeans : change.Means lower s₀ history op) {r r' r'' : RoleState} (hr : r ∈ s₀.roles)
    (hchanged : r.ChangedBy changes s₀.guildId r') (hchanges : op.ChangesRole r' r'') :
    r.ChangedBy (changes ++ [change]) s₀.guildId r'' := by
  cases change with
  | createRole name colour =>
    cases hmeans
    cases hchanges
    exact hchanged.moveUp name colour
  | editRole name hoist mentionable colour =>
    obtain ⟨id, hknown, rfl⟩ := hmeans
    obtain rfl | ⟨rfl, rfl⟩ := hchanges
    · exact hchanged.mono rfl
    · rw [hchanged.id] at hknown
      have hmono : r.ChangedBy (changes ++ [.editRole name hoist mentionable colour]) s₀.guildId r' :=
        hchanged.mono rfl
      exact { hmono with
        look := .inr ⟨name, colour, List.mem_append_right _ (List.mem_singleton_self _),
          h.named_role hids hr hknown, rfl⟩ }
  | createCategory name overwrites =>
    obtain ⟨resolved, -, rfl⟩ := hmeans
    cases hchanges
    exact hchanged.mono rfl
  | createChannel name kind category topic slowmodeSecs tags overwrites =>
    obtain ⟨parent, resolved, -, -, rfl⟩ := hmeans
    cases hchanges
    exact hchanged.mono rfl
  | editChannel name kind category topic =>
    obtain ⟨id, parent, -, -, rfl⟩ := hmeans
    cases hchanges
    exact hchanged.mono rfl
  | setOverwrite target o =>
    obtain ⟨id, roleId, -, -, rfl⟩ := hmeans
    cases hchanges
    exact hchanged.mono rfl

/-- The guild still has the roles and the categories it had. -/
def GuildSnapshot.KeepsNames (s s' : GuildSnapshot) : Prop :=
  (∀ name id, s.HasRole name id → s'.HasRole name id) ∧
    ∀ name id, s.HasCategory name id → s'.HasCategory name id

theorem OverwriteState.WrittenBy.mono {s s' : GuildSnapshot} (hkeeps : s.KeepsNames s')
    {c : ChannelState} {entry : OverwriteState} (h : entry.WrittenBy lower changes s c)
    (change : Change) : entry.WrittenBy lower (changes ++ [change]) s' c :=
  have ⟨target, o, roleId, hmem, hnamed, hrole, heq⟩ := h
  ⟨target, o, roleId, List.mem_append_left _ hmem, hnamed, hkeeps.1 _ _ hrole, heq⟩

theorem ChannelState.ChangedBy.mono {s s' : GuildSnapshot} (hkeeps : s.KeepsNames s')
    {c c' : ChannelState} (h : c.ChangedBy lower changes s c') (change : Change) :
    c.ChangedBy lower (changes ++ [change]) s' c' :=
  { h with
    parent := h.parent.imp_right fun ⟨name, kind, category, topic, parent, hmem, hnamed, hhas, heq⟩ =>
      ⟨name, kind, category, topic, parent, List.mem_append_left _ hmem, hnamed,
        hkeeps.2 _ _ hhas, heq⟩
    topic := h.topic.imp_right fun ⟨name, kind, category, topic, hmem, hnamed, heq⟩ =>
      ⟨name, kind, category, topic, List.mem_append_left _ hmem, hnamed, heq⟩
    kept := fun o ho => (h.kept o ho).imp_right fun ⟨o', ho', htarget, hwritten⟩ =>
      ⟨o', ho', htarget, hwritten.mono hkeeps change⟩
    written := fun o ho => (h.written o ho).imp_right fun hwritten => hwritten.mono hkeeps change }

/-- An entry is written over or added: the others stay. -/
theorem mem_writeOverwrite {role : ℕ} {allow deny : List String} {overwrites : List OverwriteState} :
    (∀ o ∈ overwrites, o ∈ Guild.writeOverwrite role allow deny overwrites ∨
      o.target = .role role) ∧
    (⟨.role role, allow, deny⟩ ∈ Guild.writeOverwrite role allow deny overwrites) ∧
    ∀ o ∈ Guild.writeOverwrite role allow deny overwrites,
      o ∈ overwrites ∨ o = ⟨.role role, allow, deny⟩ := by
  unfold Guild.writeOverwrite
  split
  · rename_i written h
    obtain ⟨before, a, after, rfl, -, ha, rfl⟩ := updateFirst_eq_some h
    obtain ⟨target, allow', deny'⟩ := a
    obtain rfl : target = .role role := of_decide_eq_true ha
    simp only [List.mem_append, List.mem_cons]
    refine ⟨?_, .inr (.inl trivial), ?_⟩
    · rintro o (hbefore | rfl | hafter)
      · exact .inl (.inl hbefore)
      · exact .inr rfl
      · exact .inl (.inr (.inr hafter))
    · rintro o (hbefore | rfl | hafter)
      · exact .inl (.inl hbefore)
      · exact .inr rfl
      · exact .inl (.inr (.inr hafter))
  · simp only [List.mem_append, List.mem_singleton]
    exact ⟨fun o ho => .inl (.inl ho), .inr trivial, fun o ho => ho⟩

/-- A channel that a change gives an entry. -/
theorem ChannelState.ChangedBy.setOverwrite {s : GuildSnapshot} {c c' : ChannelState}
    (h : c.ChangedBy lower changes s c') {roleId : ℕ} {allow deny : List String}
    (hwritten : (⟨.role roleId, allow, deny⟩ : OverwriteState).WrittenBy lower changes s c) :
    c.ChangedBy lower changes s (Guild.setOverwrite roleId allow deny c') := by
  obtain ⟨hstays, hnew, hold⟩ := @mem_writeOverwrite roleId allow deny c'.overwrites
  refine { h with kept := fun o ho => ?_, written := fun o ho => ?_ }
  · rcases h.kept o ho with hmem | ⟨o', ho', htarget, hwritten'⟩
    · rcases hstays o hmem with hstay | hrole
      · exact .inl hstay
      · exact .inr ⟨_, hnew, hrole.symm, hwritten⟩
    · rcases hstays o' ho' with hstay | hrole
      · exact .inr ⟨o', hstay, htarget, hwritten'⟩
      · exact .inr ⟨_, hnew, hrole.symm.trans htarget, hwritten⟩
  · rcases hold o ho with hmem | rfl
    · exact h.written o hmem
    · exact .inr hwritten

/-- What a change makes of a channel that was there at the start. -/
theorem Progress.channel_step (h : Progress lower s₀ changes history guild) (hids : s₀.UniqueIds)
    (hmeans : change.Means lower s₀ history op)
    (hperforms : Guild.Performs lower op guild created next) {c c' c'' : ChannelState}
    (hc : c ∈ s₀.channels) (hchanged : c.ChangedBy lower changes guild.snapshot c')
    (hchanges : op.ChangesChannel c' c'') :
    c.ChangedBy lower (changes ++ [change]) next.snapshot c'' := by
  have hkeeps : guild.snapshot.KeepsNames next.snapshot :=
    ⟨fun _ _ => hperforms.hasRole, fun _ _ => hperforms.hasCategory⟩
  have hmono := hchanged.mono hkeeps change
  have hlast : change ∈ changes ++ [change] :=
    List.mem_append_right _ (List.mem_singleton_self change)
  cases change with
  | createRole name colour =>
    cases hmeans
    cases hchanges
    exact hmono
  | editRole name hoist mentionable colour =>
    obtain ⟨id, -, rfl⟩ := hmeans
    cases hchanges
    exact hmono
  | createCategory name overwrites =>
    obtain ⟨resolved, -, rfl⟩ := hmeans
    cases hchanges
    exact hmono
  | createChannel name kind category topic slowmodeSecs tags overwrites =>
    obtain ⟨parent, resolved, -, -, rfl⟩ := hmeans
    cases hchanges
    exact hmono
  | editChannel name kind category topic =>
    obtain ⟨id, parent, hid, hparent, rfl⟩ := hmeans
    obtain rfl | ⟨rfl, rfl⟩ := hchanges
    · exact hmono
    · rw [hchanged.id] at hid
      have hnamed : c.Named lower (.channel name kind) := h.named_channel hids hc hid
      have hhas := hkeeps.2 _ _ (h.hasCategory hparent)
      refine { hmono with
        parent := .inr ⟨name, kind, category, topic, parent, hlast, hnamed, hhas, rfl⟩
        topic := ?_ }
      cases topic with
      | unchanged => exact hmono.topic
      | set topic => exact .inr ⟨name, kind, category, topic, hlast, hnamed, rfl⟩
  | setOverwrite target o =>
    obtain ⟨id, roleId, hid, hrole, rfl⟩ := hmeans
    obtain rfl | ⟨rfl, rfl⟩ := hchanges
    · exact hmono
    · rw [hchanged.id] at hid
      exact hmono.setOverwrite ⟨target, o, roleId, hlast, h.named_channel hids hc hid,
        hkeeps.1 _ _ (h.hasRole hrole), rfl⟩

/-- What an operation creates is what its change creates. -/
theorem newNames_of_means (hmeans : change.Means lower s₀ history op) (id : ℕ) :
    (op.newRoles id).map RoleState.name = change.newRole.toList ∧
      (op.newChannels lower id).map (fun c => (c.name, c.channelClass)) =
        (change.newChannel lower).toList := by
  cases change with
  | createRole name colour => cases hmeans; exact ⟨rfl, rfl⟩
  | editRole name hoist mentionable colour =>
    obtain ⟨_, -, rfl⟩ := hmeans
    exact ⟨rfl, rfl⟩
  | createCategory name overwrites =>
    obtain ⟨resolved, -, rfl⟩ := hmeans
    exact ⟨rfl, rfl⟩
  | createChannel name kind category topic slowmodeSecs tags overwrites =>
    obtain ⟨parent, resolved, -, -, rfl⟩ := hmeans
    exact ⟨rfl, rfl⟩
  | editChannel name kind category topic =>
    obtain ⟨_, _, -, -, rfl⟩ := hmeans
    exact ⟨rfl, rfl⟩
  | setOverwrite target o =>
    obtain ⟨_, _, -, -, rfl⟩ := hmeans
    exact ⟨rfl, rfl⟩

theorem filterMap_append_singleton {α β : Type} (f : α → Option β) (l : List α) (a : α) :
    (l ++ [a]).filterMap f = l.filterMap f ++ (f a).toList := by
  rw [List.filterMap_append, List.filterMap_cons]
  cases f a <;> rfl

theorem Progress.changed_step (h : Progress lower s₀ changes history guild) (hids : s₀.UniqueIds)
    (hmeans : change.Means lower s₀ history op)
    (hperforms : Guild.Performs lower op guild created next) :
    s₀.ChangedBy lower (changes ++ [change]) next.snapshot where
  guildId := hperforms.guildId.trans h.changed.guildId
  features := hperforms.features.trans h.changed.features
  bot := hperforms.bot.trans h.changed.bot
  roles := by
    obtain ⟨kept, new, hroles, hkept, hnew⟩ := h.changed.roles
    obtain ⟨all, hnext, hall⟩ := hperforms.roles
    rw [hroles] at hall
    obtain ⟨kept', new', rfl, hkept', hnew'⟩ := forall₂_append_left hall
    refine ⟨kept', new' ++ op.newRoles guild.nextId, by rw [hnext, List.append_assoc],
      forall₂_comp hkept hkept' fun r hr r' r'' => h.role_step hids hmeans hr, ?_⟩
    have hnames : new'.map RoleState.name = new.map RoleState.name :=
      map_eq_of_forall₂ hnew' fun r r' hchanges => hchanges.same.2
    rw [List.map_append, hnames, hnew, (newNames_of_means hmeans _).1, filterMap_append_singleton]
  channels := by
    obtain ⟨kept, new, hchannels, hkept, hnew⟩ := h.changed.channels
    obtain ⟨all, hnext, hall⟩ := hperforms.channels
    rw [hchannels] at hall
    obtain ⟨kept', new', rfl, hkept', hnew'⟩ := forall₂_append_left hall
    refine ⟨kept', new' ++ op.newChannels lower guild.nextId, by rw [hnext, List.append_assoc],
      forall₂_comp hkept hkept' fun c hc c' c'' => h.channel_step hids hmeans hperforms hc, ?_⟩
    have hnames : new'.map (fun c => (c.name, c.channelClass)) =
        new.map fun c => (c.name, c.channelClass) :=
      map_eq_of_forall₂ hnew' fun c c' hchanges => by rw [hchanges.same.2.1, hchanges.same.2.2]
    rw [List.map_append, hnames, hnew, (newNames_of_means hmeans _).2, filterMap_append_singleton]

/-- **One change**: the guild is changed by what the change names, and what it has created is there. -/
theorem Progress.step (h : Progress lower s₀ changes history guild) (hids : s₀.UniqueIds)
    (hmeans : change.Means lower s₀ history op)
    (hperforms : Guild.Performs lower op guild created next) :
    Progress lower s₀ (changes ++ [change]) (history ++ (created.map (change, ·)).toList) next where
  changed := h.changed_step hids hmeans hperforms
  nextId := h.nextId.trans hperforms.nextId
  fresh row hrow := by
    rcases List.mem_append.mp hrow with hold | hnew
    · exact h.fresh row hold
    · obtain ⟨id, hid, rfl⟩ := Option.map_eq_some_iff.mp (Option.mem_toList.mp hnew)
      rw [hperforms.created] at hid
      split_ifs at hid
      cases hid
      exact h.nextId
  roleMade name colour id hrow := by
    rcases List.mem_append.mp hrow with hold | hnew
    · obtain ⟨r, hr, rfl, rfl⟩ := h.roleMade name colour id hold
      exact hperforms.exists_role hr
    · obtain ⟨id, hid, heq⟩ := Option.map_eq_some_iff.mp (Option.mem_toList.mp hnew)
      cases heq
      cases hmeans
      obtain ⟨kept, hroles, -⟩ := hperforms.roles
      rw [hperforms.created] at hid
      cases hid
      exact ⟨Guild.newRole guild.nextId name colour,
        hroles ▸ List.mem_append_right kept (List.mem_singleton_self _), rfl, rfl⟩
  categoryMade name overwrites id hrow := by
    rcases List.mem_append.mp hrow with hold | hnew
    · obtain ⟨c, hc, rfl, hclass, rfl⟩ := h.categoryMade name overwrites id hold
      obtain ⟨c', hc', hid, hname, hclass'⟩ := hperforms.exists_channel hc
      exact ⟨c', hc', hid, hclass'.trans hclass, hname⟩
    · obtain ⟨id, hid, heq⟩ := Option.map_eq_some_iff.mp (Option.mem_toList.mp hnew)
      cases heq
      obtain ⟨resolved, -, rfl⟩ := hmeans
      obtain ⟨kept, hchannels, -⟩ := hperforms.channels
      rw [hperforms.created] at hid
      cases hid
      exact ⟨Guild.newChannel lower guild.nextId name .category none none resolved,
        hchannels ▸ List.mem_append_right kept (List.mem_singleton_self _), rfl, rfl, rfl⟩

end Change

/-! ### Runs -/

section Runs

variable {lower : String → String} {s₀ : GuildSnapshot}

/-- A guild that performs an operation does what Discord does; one that refuses stays as it is. -/
theorem perform_cases (lower : String → String) (fake : FakeGuild) (op : Op) :
    (∃ created next, FakeGuild.perform lower fake op = (.ok created, next) ∧
      Guild.Performs lower op fake.toGuild created next.toGuild) ∨
    ∃ reason next, FakeGuild.perform lower fake op = (.error reason, next) ∧
      next.toGuild = fake.toGuild := by
  unfold FakeGuild.perform
  split_ifs
  · exact .inr ⟨_, _, rfl, rfl⟩
  · split
    · exact .inr ⟨_, _, rfl, rfl⟩
    · rename_i created next h
      exact .inl ⟨created, _, rfl, performs_of_mutate h⟩

/-- Every change that a run applies is a step; the one that fails is none. -/
theorem applyFrom_progress (hids : s₀.UniqueIds) (rest : List Change) {changes : List Change}
    {history : History} {index : NameIndex} {fake : FakeGuild}
    (hknows : index.Knows lower s₀ history) (h : Progress lower s₀ changes history fake.toGuild) :
    ∃ history', Progress lower s₀
      (changes ++ (applyFrom lower (FakeGuild.perform lower) index fake rest).1.applied) history'
      (applyFrom lower (FakeGuild.perform lower) index fake rest).2.toGuild := by
  induction rest generalizing changes history index fake with
  | nil => exact ⟨history, by rw [applyFrom, List.append_nil]; exact h⟩
  | cons change rest ih =>
    rw [applyFrom]
    obtain ⟨op, hresolve, hmeans⟩ | ⟨reason, hresolve, -⟩ := hknows.resolve_cases change
    · rw [hresolve]
      dsimp only
      obtain ⟨created, next, hperform, hperforms⟩ | ⟨reason, next, hperform, hsame⟩ :=
        perform_cases lower fake op
      · rw [hperform]
        dsimp only
        obtain ⟨history', hlast⟩ := ih (hknows.record_answer change created)
          (h.step hids hmeans hperforms)
        rw [List.append_assoc, List.singleton_append] at hlast
        exact ⟨history', hlast⟩
      · rw [hperform]
        refine ⟨history, ?_⟩
        rw [List.append_nil, hsame]
        exact h
    · rw [hresolve]
      exact ⟨history, by rw [List.append_nil]; exact h⟩

/-- **A run changes what its changes name**: wherever it stops, every role and every channel of the
guild is still there under its id and name, and is as it was but for what the applied changes say that
name it; what was created is what the applied changes create. -/
theorem apply_changes_named (lower : String → String) (changes : List Change)
    (snapshot : GuildSnapshot) (failAt : Option ℕ) (hids : snapshot.UniqueIds) :
    let run := apply lower (FakeGuild.perform lower) changes snapshot
      { FakeGuild.new snapshot with failAt := failAt }
    snapshot.ChangedBy lower run.1.applied run.2.snapshot :=
  have hstart : Progress lower snapshot [] []
      ({ FakeGuild.new snapshot with failAt := failAt } : FakeGuild).toGuild := progress_start
  have ⟨_, hlast⟩ := applyFrom_progress hids changes knows_start hstart
  hlast.changed

end Runs

/-! ### A channel that moves -/

/-- A channel with an entry of a member and one of a role. -/
def quietGuild : GuildSnapshot :=
  { guildId := 1, features := []
    roles := [⟨1, everyoneName, 0, false, false, false, 0, []⟩,
      ⟨3, "t", 1, false, false, false, 0, ["Connect"]⟩]
    channels := [⟨4, "c", .category, none, none, []⟩,
      ⟨5, "g", .kind .text, some 4, some "news",
        [⟨.member 9, [viewChannel], []⟩, ⟨.role 3, [], [viewChannel]⟩]⟩]
    bot := ⟨9, [3]⟩ }

/-- `g` moves to a new category and is opened for a new role; nobody knows the role `x`. -/
def movingChanges : List Change :=
  [.createRole "u" none, .createCategory "d" [], .editChannel "G" .text "D" .unchanged,
    .setOverwrite (.channel "g" .text) ⟨"u", [viewChannel], []⟩, .editRole "x" true true none,
    .createRole "y" none]

set_option maxRecDepth 20000 in
theorem quietGuild_changes_named :
    let run := apply asciiLower (FakeGuild.perform asciiLower) movingChanges quietGuild
      { FakeGuild.new quietGuild with failAt := none }
    run.1 = ⟨movingChanges.take 4, some (.editRole "x" true true none, .noRole "x"),
        [.createRole "y" none]⟩ ∧
      run.2.snapshot.channels = [⟨4, "c", .category, none, none, []⟩,
        ⟨5, "g", .kind .text, some 7, some "news", [⟨.member 9, [viewChannel], []⟩,
          ⟨.role 3, [], [viewChannel]⟩, ⟨.role 6, [viewChannel], []⟩]⟩,
        ⟨7, "d", .category, none, none, []⟩] ∧
      quietGuild.ChangedBy asciiLower run.1.applied run.2.snapshot :=
  ⟨by decide +kernel, by decide +kernel,
    apply_changes_named asciiLower movingChanges quietGuild none ⟨by decide, by decide⟩⟩

end AbbeyBot.Server
