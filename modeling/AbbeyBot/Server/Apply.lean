import Mathlib
import AbbeyBot.Library.FirstMatch
import AbbeyBot.Server.Diff

/-! # Applying a report

The changes of a report are carried out in order, up to the first failure. The names of the plan are
resolved to ids through an index that is taken from the snapshot and extended as things are created; a
writer performs what is resolved. `FakeGuild` is the writer that lives in a snapshot and does what
Discord would do; it can be made to fail at one operation. -/

namespace AbbeyBot.Server

open AbbeyBot.Library.OrderedMap AbbeyBot.Library.FirstMatch AbbeyBot.Library.Text

/-! ### Operations -/

structure ResolvedOverwrite where
  roleId : ℕ
  allow : List String
  deny : List String
  deriving DecidableEq, Repr

/-- A change with every name resolved. -/
inductive Op where
  | createRole (name : String) (colour : Option ℕ)
  | editRole (id : ℕ) (hoist mentionable : Bool) (colour : Option ℕ)
  | createChannel (name : String) (channelClass : ChannelClass) (parent : Option ℕ)
      (topic : Option String) (slowmodeSecs : Option ℕ) (tags : List String)
      (overwrites : List ResolvedOverwrite)
  | editChannel (id : ℕ) (parent : Option ℕ) (topic : TopicEdit)
  | setOverwrite (channelId roleId : ℕ) (allow deny : List String)
  deriving DecidableEq, Repr

/-- Why a change has failed. -/
inductive Failure where
  | noRole (name : String)
  | noCategory (name : String)
  | noChannel (kind : ChannelKind) (name : String)
  | writer (reason : String)
  deriving DecidableEq, Repr

def Failure.text (debug : String → String) : Failure → String
  | .noRole name => "role " ++ debug name ++ " has no id yet"
  | .noCategory name => "category " ++ debug name ++ " has no id yet"
  | .noChannel kind name => kind.label ++ " #" ++ name ++ " has no id yet"
  | .writer reason => reason

/-! ### Names and ids -/

/-- The ids of what has one name, and of what was created since. -/
structure NameIndex where
  guildId : ℕ
  roles : BTreeMap String ℕ
  categories : BTreeMap String ℕ
  channels : BTreeMap ChannelKey ℕ

namespace NameIndex

section Snapshot

variable (lower : String → String)

/-- The row of a category. -/
def categoryRow (channel : ChannelState) : Option (String × ℕ) :=
  if channel.channelClass = .category then some (categoryKey channel.name, channel.id) else none

/-- The row of a channel of a plan's kind. -/
def channelRow (channel : ChannelState) : Option (ChannelKey × ℕ) :=
  match channel.channelClass with
  | .kind kind => some (⟨planChannelKey lower channel.name kind, kind⟩, channel.id)
  | _ => none

def fromSnapshot (snapshot : GuildSnapshot) : NameIndex :=
  { guildId := snapshot.guildId
    roles := uniqueRows (snapshot.roles.map fun role => (role.name, role.id))
    categories := uniqueRows (snapshot.channels.filterMap categoryRow)
    channels := uniqueRows (snapshot.channels.filterMap (channelRow lower)) }

end Snapshot

variable (lower : String → String) (index : NameIndex)

def roleId (name : String) : Except Failure ℕ :=
  if name = everyoneName then .ok index.guildId
  else match index.roles[name]? with
    | some id => .ok id
    | none => .error (.noRole name)

def categoryId (name : String) : Except Failure ℕ :=
  match index.categories[categoryKey name]? with
  | some id => .ok id
  | none => .error (.noCategory name)

def channelId (name : String) (kind : ChannelKind) : Except Failure ℕ :=
  match index.channels[(⟨planChannelKey lower name kind, kind⟩ : ChannelKey)]? with
  | some id => .ok id
  | none => .error (.noChannel kind name)

def resolveOverwrite (o : Overwrite) : Except Failure ResolvedOverwrite := do
  let roleId ← index.roleId o.role
  return ⟨roleId, o.allow, o.deny⟩

def targetId : Target → Except Failure ℕ
  | .category name => index.categoryId name
  | .channel name kind => index.channelId lower name kind

def resolve : Change → Except Failure Op
  | .createRole name colour => .ok (.createRole name colour)
  | .editRole name hoist mentionable colour => do
    let id ← index.roleId name
    return .editRole id hoist mentionable colour
  | .createCategory name overwrites => do
    let overwrites ← overwrites.mapM index.resolveOverwrite
    return .createChannel name .category none none none [] overwrites
  | .createChannel name kind category topic slowmodeSecs tags overwrites => do
    let parent ← index.categoryId category
    let overwrites ← overwrites.mapM index.resolveOverwrite
    return .createChannel name (.kind kind) (some parent) topic slowmodeSecs tags overwrites
  | .editChannel name kind category topic => do
    let id ← index.channelId lower name kind
    let parent ← index.categoryId category
    return .editChannel id (some parent) topic
  | .setOverwrite target overwrite => do
    let channelId ← index.targetId lower target
    let roleId ← index.roleId overwrite.role
    return .setOverwrite channelId roleId overwrite.allow overwrite.deny

/-- What has been created is known from then on. -/
def record (change : Change) (created : Option ℕ) : NameIndex :=
  match created with
  | none => index
  | some id =>
    match change with
    | .createRole name _ => { index with roles := index.roles.insert name id }
    | .createCategory name _ =>
      { index with categories := index.categories.insert (categoryKey name) id }
    | .createChannel name kind .. =>
      { index with channels := index.channels.insert ⟨planChannelKey lower name kind, kind⟩ id }
    | .editRole .. | .editChannel .. | .setOverwrite .. => index

end NameIndex

/-! ### Applying -/

structure Outcome where
  applied : List Change
  /-- The change that failed, and why; what comes after it was not attempted. -/
  failed : Option (Change × Failure)
  remaining : List Change
  deriving DecidableEq

section Apply

variable {W : Type} (lower : String → String) (perform : W → Op → Except String (Option ℕ) × W)

/-- The changes in order, with what the index knows so far. -/
def applyFrom : NameIndex → W → List Change → Outcome × W
  | _, writer, [] => (⟨[], none, []⟩, writer)
  | index, writer, change :: rest =>
    match index.resolve lower change with
    | .error reason => (⟨[], some (change, reason), rest⟩, writer)
    | .ok op =>
      match perform writer op with
      | (.error reason, writer') => (⟨[], some (change, .writer reason), rest⟩, writer')
      | (.ok created, writer') =>
        let outcome := applyFrom (index.record lower change created) writer' rest
        ({ outcome.1 with applied := change :: outcome.1.applied }, outcome.2)

def apply (changes : List Change) (snapshot : GuildSnapshot) (writer : W) : Outcome × W :=
  applyFrom lower perform (.fromSnapshot lower snapshot) writer changes

end Apply

/-! ### A guild in a snapshot -/

/-- A guild that lives in a snapshot, with the next id it gives. -/
structure Guild where
  snapshot : GuildSnapshot
  nextId : ℕ
  deriving DecidableEq

namespace Guild

/-- The ids that are taken. -/
def ids (snapshot : GuildSnapshot) : List ℕ :=
  snapshot.roles.map RoleState.id ++ snapshot.channels.map ChannelState.id

def new (snapshot : GuildSnapshot) : Guild :=
  ⟨snapshot, (ids snapshot).max?.getD snapshot.guildId + 1⟩

/-- One entry of a channel's overwrites is set; the others stay. -/
def writeOverwrite (role : ℕ) (allow deny : List String) (overwrites : List OverwriteState) :
    List OverwriteState :=
  match updateFirst (·.target = .role role) (fun o => { o with allow := allow, deny := deny })
      overwrites with
  | some overwrites => overwrites
  | none => overwrites ++ [⟨.role role, allow, deny⟩]

/-- A new role goes right above `@everyone`, and the others move up. -/
def moveUp (role : RoleState) : RoleState :=
  if 1 ≤ role.position then { role with position := role.position + 1 } else role

def newRole (id : ℕ) (name : String) (colour : Option ℕ) : RoleState :=
  { id := id, name := name, position := 1, managed := false, hoist := false, mentionable := false,
    colour := colour.getD 0, permissions := [] }

def editRole (hoist mentionable : Bool) (colour : Option ℕ) (role : RoleState) : RoleState :=
  { role with hoist := hoist, mentionable := mentionable, colour := colour.getD 0 }

def storedName (lower : String → String) (name : String) : ChannelClass → String
  | .kind kind => planChannelKey lower name kind
  | .category | .other => name

def newChannel (lower : String → String) (id : ℕ) (name : String) (channelClass : ChannelClass)
    (parent : Option ℕ) (topic : Option String) (overwrites : List ResolvedOverwrite) :
    ChannelState :=
  { id := id, name := storedName lower name channelClass, channelClass := channelClass,
    parent := parent, topic := topic,
    overwrites := overwrites.map fun o => ⟨.role o.roleId, o.allow, o.deny⟩ }

def editChannel (parent : Option ℕ) (topic : TopicEdit) (channel : ChannelState) : ChannelState :=
  { channel with
    parent := match parent with
      | some parent => some parent
      | none => channel.parent
    topic := match topic with
      | .unchanged => channel.topic
      | .set topic => some topic }

def setOverwrite (role : ℕ) (allow deny : List String) (channel : ChannelState) : ChannelState :=
  { channel with overwrites := writeOverwrite role allow deny channel.overwrites }

/-- The roles are replaced, if the role is there. -/
def updateRole (guild : Guild) (id : ℕ) (f : RoleState → RoleState) :
    Except String (Option ℕ × Guild) :=
  match updateFirst (·.id = id) f guild.snapshot.roles with
  | some roles => .ok (none, { guild with snapshot := { guild.snapshot with roles := roles } })
  | none => .error ("no role " ++ toString id)

/-- The channels are replaced, if the channel is there. -/
def updateChannel (guild : Guild) (id : ℕ) (f : ChannelState → ChannelState) :
    Except String (Option ℕ × Guild) :=
  match updateFirst (·.id = id) f guild.snapshot.channels with
  | some channels =>
    .ok (none, { guild with snapshot := { guild.snapshot with channels := channels } })
  | none => .error ("no channel " ++ toString id)

def hasCategory (snapshot : GuildSnapshot) (id : ℕ) : Bool :=
  snapshot.channels.any fun c => c.id = id ∧ c.channelClass = .category

/-- What Discord does with an operation. -/
def mutate (lower : String → String) (guild : Guild) : Op → Except String (Option ℕ × Guild)
  | .createRole name colour =>
    .ok (some guild.nextId,
      { snapshot := { guild.snapshot with
          roles := guild.snapshot.roles.map moveUp ++ [newRole guild.nextId name colour] }
        nextId := guild.nextId + 1 })
  | .editRole id hoist mentionable colour => guild.updateRole id (editRole hoist mentionable colour)
  | .createChannel name channelClass parent topic _ _ overwrites =>
    match parent.filter fun parent => !hasCategory guild.snapshot parent with
    | some parent => .error ("no category " ++ toString parent)
    | none =>
      .ok (some guild.nextId,
        { snapshot := { guild.snapshot with
            channels := guild.snapshot.channels ++
              [newChannel lower guild.nextId name channelClass parent topic overwrites] }
          nextId := guild.nextId + 1 })
  | .editChannel id parent topic => guild.updateChannel id (editChannel parent topic)
  | .setOverwrite channelId roleId allow deny =>
    guild.updateChannel channelId (setOverwrite roleId allow deny)

end Guild

/-- A guild that can be made to fail at one operation. -/
structure FakeGuild extends Guild where
  failAt : Option ℕ
  performed : ℕ

namespace FakeGuild

def new (snapshot : GuildSnapshot) : FakeGuild := ⟨.new snapshot, none, 0⟩

def perform (lower : String → String) (guild : FakeGuild) (op : Op) :
    Except String (Option ℕ) × FakeGuild :=
  if guild.failAt = some guild.performed then (.error "injected failure", guild)
  else
    match guild.toGuild.mutate lower op with
    | .error reason => (.error reason, { guild with performed := guild.performed + 1 })
    | .ok (created, next) =>
      (.ok created, { guild with toGuild := next, performed := guild.performed + 1 })

end FakeGuild

end AbbeyBot.Server
