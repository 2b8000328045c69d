import Mathlib
import AbbeyBot.Server.Plan

/-! # Snapshots of a guild

What the engine knows about a live guild: its roles, its channels with their overwrites, and the roles
of the bot. Roles and channels are found by the names a plan would give them. -/

namespace AbbeyBot.Server

open AbbeyBot.Library.OrderedMap AbbeyBot.Library.Text

def communityFeature : String := "COMMUNITY"

structure RoleState where
  id : ℕ
  name : String
  position : ℕ
  /-- The role of an integration, which is never edited. -/
  managed : Bool
  hoist : Bool
  mentionable : Bool
  colour : ℕ
  permissions : List String
  deriving DecidableEq, Repr

/-- What a live channel is to a plan. -/
inductive ChannelClass where
  | category
  | kind (kind : ChannelKind)
  | other
  deriving DecidableEq, Repr

inductive OverwriteTarget where
  | role (id : ℕ)
  | member (id : ℕ)
  deriving DecidableEq, Repr

structure OverwriteState where
  target : OverwriteTarget
  allow : List String
  deny : List String
  deriving DecidableEq, Repr

structure ChannelState where
  id : ℕ
  name : String
  channelClass : ChannelClass
  parent : Option ℕ
  topic : Option String
  overwrites : List OverwriteState
  deriving DecidableEq, Repr

def ChannelState.overwriteForRole (state : ChannelState) (role : ℕ) : Option OverwriteState :=
  state.overwrites.find? (·.target = .role role)

structure BotState where
  userId : ℕ
  roleIds : List ℕ
  deriving DecidableEq, Repr

structure GuildSnapshot where
  guildId : ℕ
  features : List String
  roles : List RoleState
  channels : List ChannelState
  bot : BotState
  deriving DecidableEq, Repr

namespace GuildSnapshot

variable (lower : String → String) (snapshot : GuildSnapshot)

def hasFeature (feature : String) : Bool := snapshot.features.any (· == feature)

/-- The role with the id of the guild. -/
def everyoneRole : Option RoleState := snapshot.roles.find? (·.id = snapshot.guildId)

def roleById (id : ℕ) : Option RoleState := snapshot.roles.find? (·.id = id)

/-- The channel with the id, where `diff` reads the state of a channel it has found. -/
def channelById (id : ℕ) : Option ChannelState := snapshot.channels.find? (·.id = id)

def rolesNamed (name : String) : List RoleState := snapshot.roles.filter (·.name = name)

def categoriesNamed (name : String) : List ChannelState :=
  snapshot.channels.filter fun c =>
    c.channelClass = .category ∧ categoryKey c.name = categoryKey name

/-- The channels of the kind that are stored under the name a plan gives. -/
def channelsMatching (name : String) (kind : ChannelKind) : List ChannelState :=
  snapshot.channels.filter fun c =>
    c.channelClass = .kind kind ∧ planChannelKey lower c.name kind = planChannelKey lower name kind

/-- What the roles of the bot and `@everyone` are permitted together. -/
def botPermissions : BTreeSet String :=
  ((snapshot.everyoneRole.elim [] RoleState.permissions) ++ snapshot.bot.roleIds.flatMap fun id =>
    (snapshot.roleById id).elim [] RoleState.permissions).toFinset

def botIsAdministrator : Bool := "Administrator" ∈ snapshot.botPermissions

/-- The highest position among the roles of the bot. -/
def botTopPosition : ℕ :=
  ((snapshot.bot.roleIds.filterMap snapshot.roleById).map RoleState.position).foldl max 0

end GuildSnapshot

end AbbeyBot.Server
