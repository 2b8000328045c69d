import Mathlib
import AbbeyBot.Server.Snapshot

/-! # Comparing a plan with a guild

`diff` lists what a stage of the rollout would change, the reasons it refuses, what a person should
know first, and what is left to a person. No change deletes or renames anything. The stage `additive`
creates what is missing, hidden from `@everyone`; `reveal` sets cosmetics, parents, topics and
overwrites, and opens the view only of what the engine itself has hidden; `overwrites` writes every
overwrite of one category. -/

namespace AbbeyBot.Server

open AbbeyBot.Library.OrderedMap AbbeyBot.Library.Text

/-! ### Reports -/

inductive Stage where
  | additive
  | reveal
  | overwrites
  deriving DecidableEq, Repr

def Stage.parse : String → Option Stage
  | "additive" => some .additive
  | "reveal" => some .reveal
  | "overwrites" => some .overwrites
  | _ => none

/-- The stage, and for `overwrites` the one category. -/
structure Scope where
  stage : Stage
  category : Option String
  deriving DecidableEq, Repr

/-- Where an overwrite lands, by the names of the plan. -/
inductive Target where
  | category (name : String)
  | channel (name : String) (kind : ChannelKind)
  deriving DecidableEq, Repr

inductive TopicEdit where
  | unchanged
  | set (topic : String)
  deriving DecidableEq, Repr

inductive Change where
  | createRole (name : String) (colour : Option ℕ)
  | editRole (name : String) (hoist mentionable : Bool) (colour : Option ℕ)
  | createCategory (name : String) (overwrites : List Overwrite)
  | createChannel (name : String) (kind : ChannelKind) (category : String) (topic : Option String)
      (slowmodeSecs : Option ℕ) (tags : List String) (overwrites : List Overwrite)
  | editChannel (name : String) (kind : ChannelKind) (category : String) (topic : TopicEdit)
  | setOverwrite (target : Target) (overwrite : Overwrite)
  deriving DecidableEq, Repr

namespace Change

def needsManageRoles : Change → Bool
  | .createRole .. | .editRole .. | .setOverwrite .. | .createCategory .. | .createChannel .. => true
  | .editChannel .. => false

/-- The overwrites a change would write. -/
def overwrites : Change → List Overwrite
  | .createCategory _ overwrites => overwrites
  | .createChannel _ _ _ _ _ _ overwrites => overwrites
  | .setOverwrite _ overwrite => [overwrite]
  | .createRole .. | .editRole .. | .editChannel .. => []

/-- The permissions a change would grant or deny. -/
def overwritePermissionNames (change : Change) : List String :=
  change.overwrites.flatMap fun o => o.allow ++ o.deny

end Change

/-- Why a report is refused. -/
inductive Blocker where
  | needsCategory
  | noSuchCategory (name : String) (names : List String)
  | managedRole (role : String)
  | roleExtras (role : String) (count : ℕ)
  | roleAmbiguous (role : String) (count : ℕ)
  | roleMissing (role : String)
  | rolePosition (role : String) (position top : ℕ)
  | categoryExtras (category : String) (count : ℕ)
  | categoryAmbiguous (category : String) (count : ℕ)
  | categoryMissing (category : String)
  | channelExtras (kind : ChannelKind) (name : String) (count : ℕ)
  | channelAmbiguous (kind : ChannelKind) (name : String) (count : ℕ)
  | channelMissing (kind : ChannelKind) (name : String)
  | needsCommunity (kind : ChannelKind) (name : String)
  | overwriteMissing (target : Target) (role : String)
  | overwriteAmbiguous (target : Target) (role : String) (count : ℕ)
  | manageChannels
  | manageRoles
  | permissions (missing : List String)
  deriving DecidableEq, Repr

inductive Warning where
  | gated (target : Target) (roles : List String)
  | opened (target : Target)
  | deferred (target : Target)
  deriving DecidableEq, Repr

/-- What is left to a person. -/
inductive Manual where
  | everyonePermissions (grant revoke : List String)
  | rolePermissions (role : String) (grant revoke : List String)
  | grantRole (role : String) (permissions : List String)
  | order (roles : List String)
  | community
  deriving DecidableEq, Repr

/-- The facts a report rests on. -/
structure Preflight where
  user : ℕ
  administrator : Bool
  manageChannels : Bool
  manageRoles : Bool
  topPosition : ℕ
  community : Bool
  needsCommunity : Bool
  guildRoles : ℕ
  guildChannels : ℕ
  planRoles : ℕ
  planCategories : ℕ
  planChannels : ℕ
  deriving DecidableEq, Repr

section Text

variable (debug : String → String)

def describeChannel (kind : ChannelKind) (name : String) : String :=
  if kind.normalizesName then kind.label ++ " #" ++ name else kind.label ++ " " ++ debug name

def Target.describe : Target → String
  | .category name => "category " ++ debug name
  | .channel name kind => describeChannel debug kind name

/-- What is shown for a blocker; `debug` quotes a string. -/
def Blocker.text : Blocker → String
  | .needsCategory => "--stage overwrites needs --category NAME: the proposal flips gates one " ++
      "category at a time"
  | .noSuchCategory name names =>
    "the plan has no category " ++ debug name ++ "; it has: " ++ ", ".intercalate names
  | .managedRole role =>
    "role " ++ debug role ++ " is an integration-managed role (a bot's); the plan role of that " ++
      "name can never be it. Rename the plan role"
  | .roleExtras role count => "role " ++ debug role ++ " exists " ++ toString count ++
      " times; rename the extras before the engine can match it"
  | .roleAmbiguous role count => "role " ++ debug role ++ " exists " ++ toString count ++ " times"
  | .roleMissing role => "role " ++ debug role ++ " does not exist yet; run --stage additive first"
  | .rolePosition role position top => "role " ++ debug role ++ " sits at position " ++
      toString position ++ ", at or above the bot's top role (" ++ toString top ++
      "); Discord would refuse the edit"
  | .categoryExtras category count => "category " ++ debug category ++ " exists " ++
      toString count ++ " times; merge or rename before the engine can match it"
  | .categoryAmbiguous category count =>
    "category " ++ debug category ++ " exists " ++ toString count ++ " times"
  | .categoryMissing category =>
    "category " ++ debug category ++ " does not exist yet; run --stage additive first"
  | .channelExtras kind name count => describeChannel debug kind name ++ " exists " ++
      toString count ++ " times; merge or rename before the engine can match it"
  | .channelAmbiguous kind name count =>
    describeChannel debug kind name ++ " exists " ++ toString count ++ " times"
  | .channelMissing kind name =>
    describeChannel debug kind name ++ " does not exist yet; run --stage additive first"
  | .needsCommunity kind name => describeChannel debug kind name ++
      " needs Community mode, which this guild lacks (Server Settings → Community)"
  | .overwriteMissing target role => target.describe debug ++ ": overwrite for role " ++
      debug role ++ ", which does not exist yet; run --stage additive first"
  | .overwriteAmbiguous target role count =>
    target.describe debug ++ ": role " ++ debug role ++ " exists " ++ toString count ++ " times"
  | .manageChannels => "the bot lacks Manage Channels"
  | .manageRoles => "the bot lacks Manage Roles (needed for roles and permission overwrites)"
  | .permissions missing => "the bot cannot grant or deny permissions it does not hold itself: [" ++
      ", ".intercalate missing ++ "]"

/-- What is shown for a warning. -/
def Warning.text : Warning → String
  | .gated target roles => target.describe debug ++
      " is visible to @everyone now and will be gated to [" ++ ", ".intercalate roles ++
      "]: every member without one of those roles loses it at that instant (3.B.9). " ++
      "Backfill the roles and verify the count first."
  | .opened target => target.describe debug ++ " is hidden from @everyone by an overwrite the " ++
      "engine did not place, and the plan makes it visible"
  | .deferred target => target.describe debug ++ ": the @everyone view gate differs from the plan; " ++
      "--stage reveal leaves it alone (3.B.9), use --stage overwrites --category for that category"

end Text

/-- What a part of the comparison has found. -/
structure Findings where
  changes : List Change
  blockers : List Blocker
  warnings : List Warning

namespace Findings

def none : Findings := ⟨[], [], []⟩

def change (change : Change) : Findings := ⟨[change], [], []⟩

def blocker (blocker : Blocker) : Findings := ⟨[], [blocker], []⟩

def warning (warning : Warning) : Findings := ⟨[], [], [warning]⟩

def append (f g : Findings) : Findings :=
  ⟨f.changes ++ g.changes, f.blockers ++ g.blockers, f.warnings ++ g.warnings⟩

instance : Append Findings := ⟨append⟩

/-- The findings of the items in turn. -/
def collect {α : Type} (items : List α) (f : α → Findings) : Findings :=
  ⟨items.flatMap fun i => (f i).changes, items.flatMap fun i => (f i).blockers,
    items.flatMap fun i => (f i).warnings⟩

@[simp] theorem changes_append (f g : Findings) : (f ++ g).changes = f.changes ++ g.changes := rfl

@[simp] theorem blockers_append (f g : Findings) :
    (f ++ g).blockers = f.blockers ++ g.blockers := rfl

@[simp] theorem changes_collect {α : Type} (items : List α) (f : α → Findings) :
    (collect items f).changes = items.flatMap fun i => (f i).changes := rfl

@[simp] theorem blockers_collect {α : Type} (items : List α) (f : α → Findings) :
    (collect items f).blockers = items.flatMap fun i => (f i).blockers := rfl

end Findings

structure Report where
  stage : Stage
  preflight : Preflight
  changes : List Change
  blockers : List Blocker
  warnings : List Warning
  manual : List Manual

def Report.isClear (report : Report) : Bool := report.blockers.isEmpty

/-! ### Finding what the plan names -/

inductive Lookup where
  | missing
  | found (id : ℕ)
  | ambiguous (count : ℕ)
  deriving DecidableEq, Repr

inductive RoleLookup where
  | missing
  | found (id : ℕ)
  | managed
  | ambiguous (count : ℕ)
  deriving DecidableEq, Repr

/-- What a list of matches says. -/
def Lookup.ofMatches : List ChannelState → Lookup
  | [] => .missing
  | [one] => .found one.id
  | many => .ambiguous many.length

section Context

variable (lower : String → String) (plan : Plan) (snapshot : GuildSnapshot)

def roleLookup (name : String) : RoleLookup :=
  match snapshot.rolesNamed name with
  | [] => .missing
  | [one] => if one.managed then .managed else .found one.id
  | many => .ambiguous many.length

def categoryLookup (name : String) : Lookup := .ofMatches (snapshot.categoriesNamed name)

def channelLookup (channel : PlanChannel) : Lookup :=
  .ofMatches (snapshot.channelsMatching lower channel.name channel.kind)

/-! ### Overwrites -/

/-- Whether a planned overwrite may land while revealing: anything for a role; for `@everyone` what
leaves the view where it is, and opening what the engine has hidden. -/
def revealPermits (current : Option Overwrite) (planned : Overwrite) (engineHidden : Bool) : Bool :=
  if planned.role ≠ everyoneName then true
  else if current.any Overwrite.deniesView = planned.deniesView then true
  else engineHidden && !planned.deniesView

def alwaysPermits (_ : Option Overwrite) (_ : Overwrite) (_ : Bool) : Bool := true

/-- The hide marker of the engine is the only overwrite. -/
def isEngineHidden (state : ChannelState) (guildId : ℕ) : Bool :=
  match state.overwrites with
  | [only] => only.target = .role guildId ∧ only.allow = [] ∧ sortedUnique only.deny = [viewChannel]
  | _ => false

def stateToOverwrite (state : OverwriteState) : Overwrite :=
  let role := match state.target with
    | .role id =>
      if id = snapshot.guildId then everyoneName
      else (snapshot.roleById id).elim ("role " ++ toString id) RoleState.name
    | .member id => "member " ++ toString id
  ⟨role, sortedUnique state.allow, sortedUnique state.deny⟩

/-- The role a planned overwrite is for. -/
def overwriteRole (target : Target) (role : String) : Except Blocker ℕ :=
  if role = everyoneName then .ok snapshot.guildId
  else match roleLookup snapshot role with
    | .found id => .ok id
    | .missing => .error (.overwriteMissing target role)
    | .managed => .error (.managedRole role)
    | .ambiguous count => .error (.overwriteAmbiguous target role count)

/-- What a stage lets land. -/
abbrev Permits := Option Overwrite → Overwrite → Bool → Bool

/-- A wanted overwrite is compared with the entry that is there. -/
def compareOverwrite (target : Target) (permits : Permits) (engineHidden : Bool)
    (overwrite : Overwrite) (current : Option Overwrite) : Findings :=
  if current = some overwrite ∨ current = none ∧ overwrite.isEmpty then .none
  else if permits current overwrite engineHidden then .change (.setOverwrite target overwrite)
  else .warning (.deferred target)

/-- One wanted overwrite of a target. -/
def overwriteChange (target : Target) (state : ChannelState) (permits : Permits)
    (engineHidden : Bool) (overwrite : Overwrite) : Findings :=
  match overwriteRole snapshot target overwrite.role with
  | .error blocker => .blocker blocker
  | .ok role =>
    compareOverwrite target permits engineHidden overwrite
      ((state.overwriteForRole role).map fun s =>
        { stateToOverwrite snapshot s with role := overwrite.role })

/-- What is hidden by the engine and has no planned entry for `@everyone` is public: its marker is
to be cleared. -/
def wantedOverwrites (planned : List Overwrite) (engineHidden : Bool) : List Overwrite :=
  let wanted := planned.map Overwrite.normalized
  if !wanted.any (·.role == everyoneName) && engineHidden then wanted ++ [⟨everyoneName, [], []⟩]
  else wanted

def overwriteChanges (target : Target) (planned : List Overwrite) (state : ChannelState)
    (permits : Permits) : Findings :=
  let engineHidden := isEngineHidden state snapshot.guildId
  .collect (wantedOverwrites planned engineHidden)
    (overwriteChange snapshot target state permits engineHidden)

/-- A channel people see is about to be gated, or one they do not see is about to open. -/
def lockoutWarning (target : Target) (planned : List Overwrite) (state : ChannelState) :
    List Warning :=
  match planned.find? (·.role = everyoneName) with
  | none => []
  | some plannedEveryone =>
    let currentDeniesView := (state.overwriteForRole snapshot.guildId).any fun o =>
      o.deny.any (· == viewChannel)
    if plannedEveryone.deniesView && !currentDeniesView then
      [.gated target ((planned.filter fun o =>
        o.role ≠ everyoneName ∧ o.allow.any (· == viewChannel)).map Overwrite.role)]
    else if !plannedEveryone.deniesView && currentDeniesView &&
        !isEngineHidden state snapshot.guildId then [.opened target]
    else []

/-! ### Stages -/

def additiveRole (role : PlanRole) : Findings :=
  match roleLookup snapshot role.name with
  | .missing => .change (.createRole role.name role.colour)
  | .found _ => .none
  | .managed => .blocker (.managedRole role.name)
  | .ambiguous count => .blocker (.roleExtras role.name count)

def additiveChannel (category : PlanCategory) (channel : PlanChannel) : Findings :=
  match channelLookup lower snapshot channel with
  | .missing =>
    (if channel.kind.needsCommunity && !snapshot.hasFeature communityFeature then
      Findings.blocker (.needsCommunity channel.kind channel.name) else .none) ++
    .change (.createChannel channel.name channel.kind category.name channel.topic
      channel.slowmodeSecs channel.tags [.hideMarker])
  | .found _ => .none
  | .ambiguous count => .blocker (.channelExtras channel.kind channel.name count)

def missingCategory (category : PlanCategory) : Findings :=
  match categoryLookup snapshot category.name with
  | .missing => .change (.createCategory category.name [.hideMarker])
  | .found _ => .none
  | .ambiguous count => .blocker (.categoryExtras category.name count)

def additiveCategory (category : PlanCategory) : Findings :=
  missingCategory snapshot category ++
  .collect category.channels (additiveChannel lower snapshot category)

def additive : Findings :=
  .collect plan.roles (additiveRole snapshot) ++
  .collect plan.categories (additiveCategory lower snapshot)

/-- The cosmetics of a role are compared with the role that is there. -/
def compareRole (top : ℕ) (role : PlanRole) (current : RoleState) : Findings :=
  if (current.hoist, current.mentionable, current.colour) =
      (role.hoist, role.mentionable, role.colour.getD 0) then .none
  else if top ≤ current.position then .blocker (.rolePosition role.name current.position top)
  else .change (.editRole role.name role.hoist role.mentionable role.colour)

def revealRole (role : PlanRole) : Findings :=
  match roleLookup snapshot role.name with
  | .missing => .blocker (.roleMissing role.name)
  | .ambiguous count => .blocker (.roleAmbiguous role.name count)
  | .managed => .blocker (.managedRole role.name)
  | .found id =>
    match snapshot.roleById id with
    | none => .none -- a role that was found is there
    | some current => compareRole snapshot.botTopPosition role current

/-- The channel a plan names, if it is there once. -/
def requireChannel (channel : PlanChannel) : Except Blocker (Option ChannelState) :=
  match channelLookup lower snapshot channel with
  | .found id => .ok (snapshot.channelById id)
  | .missing => .error (.channelMissing channel.kind channel.name)
  | .ambiguous count => .error (.channelAmbiguous channel.kind channel.name count)

/-- A topic that says something. -/
def topicText (topic : Option String) : Option String := (topic.map trim).filter (· ≠ "")

/-- The parent and the topic of a channel. -/
def editChange (categoryId : ℕ) (category : PlanCategory) (channel : PlanChannel)
    (state : ChannelState) : Findings :=
  let topic := topicText channel.topic
  let topicDiffers := channel.kind.hasTopic && topic.isSome && topic != topicText state.topic
  if state.parent ≠ some categoryId ∨ topicDiffers = true then
    .change (.editChannel channel.name channel.kind category.name
      ((topic.filter fun _ => topicDiffers).elim .unchanged .set))
  else .none

/-- What is found on the channel a plan names. -/
def onChannel (channel : PlanChannel) (f : ChannelState → Findings) : Findings :=
  match requireChannel lower snapshot channel with
  | .error blocker => .blocker blocker
  | .ok none => .none
  | .ok (some state) => f state

/-- What is found on the category a plan names, if it is there once. -/
def onCategory (category : PlanCategory) (f : ℕ → ChannelState → Findings) : Findings :=
  match categoryLookup snapshot category.name with
  | .missing => .blocker (.categoryMissing category.name)
  | .ambiguous count => .blocker (.categoryAmbiguous category.name count)
  | .found id =>
    match snapshot.channelById id with
    | none => .none -- a category that was found is there
    | some state => f id state

def revealChannel (categoryId : ℕ) (category : PlanCategory) (channel : PlanChannel) : Findings :=
  onChannel lower snapshot channel fun state =>
    editChange categoryId category channel state ++
    overwriteChanges snapshot (.channel channel.name channel.kind)
      (effectiveOverwrites category channel) state revealPermits

def revealCategory (category : PlanCategory) : Findings :=
  onCategory snapshot category fun id state =>
    overwriteChanges snapshot (.category category.name) category.overwrites state revealPermits ++
    .collect category.channels (revealChannel lower snapshot id category)

def reveal : Findings :=
  .collect plan.roles (revealRole snapshot) ++
  .collect plan.categories (revealCategory lower snapshot)

/-- Warnings and overwrites of a target. -/
def gateChanges (target : Target) (planned : List Overwrite) (state : ChannelState) : Findings :=
  ⟨[], [], lockoutWarning snapshot target planned state⟩ ++
  overwriteChanges snapshot target planned state alwaysPermits

def overwritesChannel (category : PlanCategory) (channel : PlanChannel) : Findings :=
  onChannel lower snapshot channel
    (gateChanges snapshot (.channel channel.name channel.kind) (effectiveOverwrites category channel))

def overwrites (categoryName : String) : Findings :=
  match plan.category categoryName with
  | none => .blocker (.noSuchCategory categoryName (plan.categories.map PlanCategory.name))
  | some category =>
    onCategory snapshot category fun _ state =>
      gateChanges snapshot (.category category.name) category.overwrites state ++
      .collect category.channels (overwritesChannel lower snapshot category)

/-- What the stage has found. -/
def stageFindings (scope : Scope) : Findings :=
  match scope.stage with
  | .additive => additive lower plan snapshot
  | .reveal => reveal lower plan snapshot
  | .overwrites =>
    match scope.category with
    | some category => overwrites lower plan snapshot category
    | none => .blocker .needsCategory

/-! ### The bot -/

/-- `check_bot_capability`: what the bot would need and does not hold. -/
def checkBotCapability (changes : List Change) : List Blocker :=
  if changes.isEmpty || snapshot.botIsAdministrator then []
  else
    let held := snapshot.botPermissions
    let missing := sortedUnique ((changes.flatMap Change.overwritePermissionNames).filter fun name =>
      name ∉ held)
    (if "Manage Channels" ∉ held then [.manageChannels] else []) ++
    (if changes.any Change.needsManageRoles && "Manage Roles" ∉ held then [.manageRoles] else []) ++
    (if missing.isEmpty then [] else [.permissions missing])

def preflightFacts : Preflight :=
  { user := snapshot.bot.userId
    administrator := snapshot.botIsAdministrator
    manageChannels := "Manage Channels" ∈ snapshot.botPermissions
    manageRoles := "Manage Roles" ∈ snapshot.botPermissions
    topPosition := snapshot.botTopPosition
    community := snapshot.hasFeature communityFeature
    needsCommunity := plan.channels.any fun c => c.2.kind.needsCommunity
    guildRoles := snapshot.roles.length
    guildChannels := snapshot.channels.length
    planRoles := plan.roles.length
    planCategories := plan.categories.length
    planChannels := plan.channels.length }

/-- The names of `a` that are not in `b`. -/
def difference (a b : List String) : List String := sortedUnique (a.filter fun name => name ∉ b)

/-- The permissions of a role of the plan that a person has to review. -/
def manualRole (role : PlanRole) : List Manual :=
  match roleLookup snapshot role.name with
  | .found id =>
    match snapshot.roleById id with
    | none => []
    | some current =>
      let grant := difference role.permissions current.permissions
      let revoke := difference current.permissions role.permissions
      if grant.isEmpty && revoke.isEmpty then [] else [.rolePermissions role.name grant revoke]
  | .missing => if role.permissions.isEmpty then [] else [.grantRole role.name role.permissions]
  | .managed | .ambiguous _ => []

/-- The positions of the plan's roles, where they are known. -/
def rolePositions : List ℕ :=
  plan.roles.filterMap fun role =>
    match roleLookup snapshot role.name with
    | .found id => (snapshot.roleById id).map RoleState.position
    | _ => none

def manualSteps : List Manual :=
  (match snapshot.everyoneRole with
    | none => []
    | some everyone =>
      let grant := difference plan.everyone everyone.permissions
      let revoke := difference everyone.permissions plan.everyone
      if grant.isEmpty && revoke.isEmpty then [] else [.everyonePermissions grant revoke]) ++
  plan.roles.flatMap (manualRole snapshot) ++
  (let known := rolePositions plan snapshot
    let ordered := (known.zip known.tail).all fun w => w.2 < w.1
    if 1 < plan.roles.length ∧ (ordered = false ∨ known.length < plan.roles.length) then
      [.order (plan.roles.map PlanRole.name)] else []) ++
  (if (plan.channels.any fun c => c.2.kind.needsCommunity) &&
      !snapshot.hasFeature communityFeature then [.community] else [])

/-- What the scope would do to the guild to move it toward the plan. -/
def diff (scope : Scope) : Report :=
  let found := stageFindings lower plan snapshot scope
  { stage := scope.stage
    preflight := preflightFacts plan snapshot
    changes := found.changes
    blockers := found.blockers ++ checkBotCapability snapshot found.changes
    warnings := found.warnings
    manual := manualSteps plan snapshot }

end Context

end AbbeyBot.Server
