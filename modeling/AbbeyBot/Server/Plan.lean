import Mathlib
import AbbeyBot.Library.OrderedMap
import AbbeyBot.Library.Text
import AbbeyBot.PersonalMemory.Types

/-! # Server plans

The blueprint of a guild: its roles, its categories, the channels of each with their permission
overwrites. A plan is validated before anything is compared with a guild; what validation accepts is
stated as `Plan.Valid`. The lower-case mapping of Unicode is the parameter `lower`. -/

namespace AbbeyBot.Server

open AbbeyBot.Library.OrderedMap AbbeyBot.Library.Text
open AbbeyBot.PersonalMemory (splitWhitespace)

/-! ### Names -/

inductive ChannelKind where
  | text
  | voice
  | forum
  | announcement
  | stage
  deriving DecidableEq, Repr

namespace ChannelKind

/-- Discord rewrites the names of this kind. -/
def normalizesName : ChannelKind → Bool
  | .text | .forum | .announcement => true
  | _ => false

def hasTopic : ChannelKind → Bool
  | .text | .forum | .announcement => true
  | _ => false

/-- Only a guild with the community feature has channels of this kind. -/
def needsCommunity : ChannelKind → Bool
  | .forum | .announcement | .stage => true
  | _ => false

def label : ChannelKind → String
  | .text => "text"
  | .voice => "voice"
  | .forum => "forum"
  | .announcement => "announcement"
  | .stage => "stage"

end ChannelKind

/-- Discord's rule for text channels: lower case, hyphens for white space. -/
def normalizeTextName (lower : String → String) (raw : String) : String :=
  String.ofList (['-'].intercalate (splitWhitespace (lower (trim raw)).toList))

/-- `str::to_ascii_lowercase`. -/
def asciiLower (s : String) : String := String.ofList (s.toList.map Char.toLower)

/-- The key under which a channel of the kind is compared. -/
def planChannelKey (lower : String → String) (name : String) (kind : ChannelKind) : String :=
  if kind.normalizesName then normalizeTextName lower name else trim name

/-- The key under which a category is compared. -/
def categoryKey (name : String) : String := asciiLower (trim name)

/-- A channel of a guild is told by its compared name and its kind. -/
structure ChannelKey where
  name : String
  kind : ChannelKind
  deriving DecidableEq, Repr

namespace ChannelKey

def ordKey (key : ChannelKey) : List ℕ := key.kind.ctorIdx :: key.name.toList.map Char.toNat

theorem ordKey_injective : Function.Injective ordKey := by
  rintro ⟨name, kind⟩ ⟨name', kind'⟩ h
  rw [ordKey, ordKey, List.cons.injEq] at h
  have hkind : kind = kind' := by
    have hindex : kind.ctorIdx = kind'.ctorIdx := h.1
    cases kind <;> cases kind' <;> first | rfl | exact absurd hindex (by decide)
  have hname : name.toList = name'.toList := List.map_injective_iff.mpr (fun a b hab => by
    exact Char.ext (UInt32.toNat_inj.mp hab)) h.2
  rw [hkind, String.toList_injective hname]

instance : Ord ChannelKey := ordByKey ordKey

instance : Std.TransOrd ChannelKey := transOrd_ordByKey _

instance : Std.LawfulEqOrd ChannelKey := lawfulEqOrd_ordByKey ordKey_injective

end ChannelKey

def everyoneName : String := "@everyone"

def viewChannel : String := "View Channel"

def maxSlowmodeSecs : ℕ := 21600

def maxNameChars : ℕ := 100

def maxChannelsPerCategory : ℕ := 50

/-- The permissions `@everyone` must never hold. -/
def neverForEveryone : List String :=
  ["Administrator", "Manage Guild", "Manage Roles", "Manage Channels", "Manage Webhooks",
    "Ban Members", "Kick Members", "Mention @everyone, @here, and All Roles"]

/-! ### Overwrites -/

/-- `sorted_unique`. -/
def sortedUnique (names : List String) : List String := names.dedup.insertionSort (· ≤ ·)

theorem mem_sortedUnique {name : String} {names : List String} :
    name ∈ sortedUnique names ↔ name ∈ names := by
  rw [sortedUnique, List.mem_insertionSort, List.mem_dedup]

theorem sortedUnique_sortedUnique (names : List String) :
    sortedUnique (sortedUnique names) = sortedUnique names := by
  have hnodup : (sortedUnique names).Nodup :=
    (List.perm_insertionSort (· ≤ ·) names.dedup).nodup_iff.mpr (List.nodup_dedup names)
  rw [sortedUnique, hnodup.dedup]
  exact (List.pairwise_insertionSort (· ≤ ·) names.dedup).insertionSort_eq

/-- What one role is allowed and denied on a channel. -/
structure Overwrite where
  role : String
  allow : List String
  deny : List String
  deriving DecidableEq, Repr

namespace Overwrite

/-- `@everyone` is denied the view, and nothing else is said. -/
def hideMarker : Overwrite := ⟨everyoneName, [], [viewChannel]⟩

def normalized (o : Overwrite) : Overwrite := ⟨o.role, sortedUnique o.allow, sortedUnique o.deny⟩

theorem normalized_normalized (o : Overwrite) : o.normalized.normalized = o.normalized := by
  simp only [normalized, sortedUnique_sortedUnique]

def deniesView (o : Overwrite) : Bool := o.deny.any (· == viewChannel)

def isEmpty (o : Overwrite) : Bool := o.allow.isEmpty && o.deny.isEmpty

end Overwrite

def deniesEveryoneView (overwrites : List Overwrite) : Bool :=
  overwrites.any fun o => o.role == everyoneName && o.deniesView

def hasRoleViewAllow (overwrites : List Overwrite) : Bool :=
  overwrites.any fun o => o.role != everyoneName && o.allow.any (· == viewChannel)

/-! ### Plans -/

structure PlanRole where
  name : String
  hoist : Bool
  mentionable : Bool
  colour : Option ℕ
  permissions : List String
  deriving DecidableEq, Repr

structure PlanChannel where
  name : String
  kind : ChannelKind
  topic : Option String
  slowmodeSecs : Option ℕ
  tags : List String
  overwrites : List Overwrite
  deriving DecidableEq, Repr

/-- The key of a planned channel. -/
def PlanChannel.key (lower : String → String) (channel : PlanChannel) : ChannelKey :=
  ⟨planChannelKey lower channel.name channel.kind, channel.kind⟩

structure PlanCategory where
  name : String
  overwrites : List Overwrite
  channels : List PlanChannel
  deriving DecidableEq, Repr

structure Plan where
  name : String
  /-- The guild permissions of `@everyone`. -/
  everyone : List String
  roles : List PlanRole
  categories : List PlanCategory
  deriving DecidableEq, Repr

namespace Plan

def role (plan : Plan) (name : String) : Option PlanRole := plan.roles.find? (·.name = name)

def category (plan : Plan) (name : String) : Option PlanCategory :=
  plan.categories.find? fun c => asciiLower c.name = asciiLower name

/-- Every channel with its category, in the order of the plan. -/
def channels (plan : Plan) : List (PlanCategory × PlanChannel) :=
  plan.categories.flatMap fun c => c.channels.map fun channel => (c, channel)

end Plan

/-- A channel without overwrites of its own inherits those of its category. -/
def effectiveOverwrites (category : PlanCategory) (channel : PlanChannel) : List Overwrite :=
  if channel.overwrites.isEmpty then category.overwrites else channel.overwrites

/-! ### Validation -/

/-- Where a problem lies. -/
inductive Place where
  | category (name : String)
  | channel (name parent : String)
  deriving DecidableEq, Repr

inductive PlanProblem where
  | planName
  | roleName (role : String)
  | roleEveryone
  | roleTwice (role : String)
  | redundant (role permission : String)
  | categoryName (category : String)
  | categoryTwice (category : String)
  | categorySize (category : String) (channels : ℕ)
  | channelName (place : Place)
  | storedName (place : Place) (kind : ChannelKind) (stored : String)
  | channelTwice (place : Place) (kind : ChannelKind) (previous : String)
  | noTopic (place : Place) (kind : ChannelKind)
  | longTopic (place : Place)
  | tags (place : Place)
  | manyTags (place : Place)
  | slowmodeKind (place : Place)
  | longSlowmode (place : Place)
  | hidesAll (place : Place)
  | unknownRole (place : Place) (role : String)
  | overwriteTwice (place : Place) (role : String)
  | overwriteEmpty (place : Place) (role : String)
  | both (place : Place) (permission role : String)
  | everyoneAllowed (place : Place) (permission : String)
  | nowhereToLand
  | everyoneHolds (permission : String)
  deriving DecidableEq, Repr

section Text

variable (debug : String → String)

def Place.text : Place → String
  | .category name => "category " ++ debug name
  | .channel name parent => "channel " ++ debug name ++ " in " ++ debug parent

/-- What is shown for a problem; `debug` quotes a string. -/
def PlanProblem.text : PlanProblem → String
  | .planName => "plan name is empty"
  | .roleName role => "role " ++ debug role ++ ": name must be 1..=100 characters"
  | .roleEveryone => "role @everyone cannot be declared; it always exists"
  | .roleTwice role => "role " ++ debug role ++ " is declared twice"
  | .redundant role permission =>
    "role " ++ debug role ++ ": " ++ debug permission ++ " is redundant next to Administrator"
  | .categoryName category =>
    "category " ++ debug category ++ ": name must be 1..=100 characters"
  | .categoryTwice category => "category " ++ debug category ++ " is declared twice"
  | .categorySize category channels =>
    "category " ++ debug category ++ " has " ++ toString channels ++ " channels; Discord allows 50"
  | .channelName place => place.text debug ++ ": name must be 1..=100 characters"
  | .storedName place kind stored =>
    place.text debug ++ ": Discord would store this " ++ kind.label ++ " channel as " ++ debug stored
  | .channelTwice place kind previous =>
    place.text debug ++ ": a " ++ kind.label ++ " channel with this name already exists in " ++
      debug previous
  | .noTopic place kind => place.text debug ++ ": " ++ kind.label ++ " channels carry no topic"
  | .longTopic place => place.text debug ++ ": topic exceeds 1024 characters"
  | .tags place => place.text debug ++ ": only forum channels carry tags"
  | .manyTags place => place.text debug ++ ": Discord allows at most 20 forum tags"
  | .slowmodeKind place => place.text debug ++ ": slowmode applies to text-like channels only"
  | .longSlowmode place => place.text debug ++ ": slowmode exceeds 21600 seconds"
  | .hidesAll (.category name) =>
    "category " ++ debug name ++ " hides @everyone but allows no role View Channel"
  | .hidesAll place => place.text debug ++ ": hides @everyone but allows no role View Channel"
  | .unknownRole place role =>
    place.text debug ++ ": overwrite targets role " ++ debug role ++ ", which this plan never creates"
  | .overwriteTwice place role => place.text debug ++ ": role " ++ debug role ++ " has two overwrites"
  | .overwriteEmpty place role =>
    place.text debug ++ ": overwrite for " ++ debug role ++ " allows and denies nothing"
  | .both place permission role =>
    place.text debug ++ ": " ++ debug permission ++ " is both allowed and denied for " ++ debug role
  | .everyoneAllowed place permission =>
    place.text debug ++ ": @everyone must never be allowed " ++ debug permission
  | .nowhereToLand =>
    "every channel is hidden from @everyone: a new joiner would see an empty server"
  | .everyoneHolds permission => "@everyone must never hold " ++ debug permission

end Text

/-- The problem, where the condition holds. -/
def problemIf (c : Bool) (problem : PlanProblem) : List PlanProblem := if c then [problem] else []

/-- A name, trimmed, has between one and a hundred characters. -/
def badName (name : String) : Bool :=
  (trim name).toList.isEmpty || maxNameChars < (trim name).toList.length

namespace Plan

/-- `validate_roles`, where the names in `seen` have been declared. -/
def validateRoles : BTreeSet String → List PlanRole → List PlanProblem
  | _, [] => []
  | seen, role :: roles =>
    problemIf (badName role.name) (.roleName role.name) ++
    problemIf (trim role.name == everyoneName) .roleEveryone ++
    problemIf (role.name ∈ seen) (.roleTwice role.name) ++
    (((role.permissions.filter fun p => p ∈ neverForEveryone).filter fun p =>
      role.permissions.any (· == "Administrator") && p != "Administrator").map fun p =>
        .redundant role.name p) ++
    validateRoles (insert role.name seen) roles

/-- `validate_overwrites`, where the roles in `targets` have an overwrite. -/
def validateOverwrites (plan : Plan) (place : Place) :
    BTreeSet String → List Overwrite → List PlanProblem
  | _, [] => []
  | targets, o :: overwrites =>
    problemIf (o.role != everyoneName && (plan.role o.role).isNone) (.unknownRole place o.role) ++
    problemIf (o.role ∈ targets) (.overwriteTwice place o.role) ++
    problemIf o.isEmpty (.overwriteEmpty place o.role) ++
    ((o.allow.filter fun p => p ∈ o.deny).map fun p => .both place p o.role) ++
    (if o.role = everyoneName then
      (o.allow.filter fun p => p ∈ neverForEveryone).map fun p => .everyoneAllowed place p
     else []) ++
    validateOverwrites plan place (insert o.role targets) overwrites

section Channels

variable (lower : String → String) (plan : Plan) (category : PlanCategory)

/-- The problems of one channel; `keys` has the channels before it. -/
def validateChannel (keys : BTreeMap ChannelKey String) (channel : PlanChannel) :
    List PlanProblem :=
  let place := Place.channel channel.name category.name
  let effective := effectiveOverwrites category channel
  problemIf (badName channel.name) (.channelName place) ++
  problemIf (channel.kind.normalizesName && normalizeTextName lower channel.name != channel.name)
    (.storedName place channel.kind (normalizeTextName lower channel.name)) ++
  (match keys[channel.key lower]? with
    | some previous => [.channelTwice place channel.kind previous]
    | none => []) ++
  problemIf (channel.topic.isSome && !channel.kind.hasTopic) (.noTopic place channel.kind) ++
  problemIf (channel.topic.any fun topic => 1024 < topic.toList.length) (.longTopic place) ++
  problemIf (!channel.tags.isEmpty && channel.kind != .forum) (.tags place) ++
  problemIf (20 < channel.tags.length) (.manyTags place) ++
  problemIf (channel.slowmodeSecs.isSome && !channel.kind.hasTopic) (.slowmodeKind place) ++
  problemIf (channel.slowmodeSecs.any fun secs => maxSlowmodeSecs < secs) (.longSlowmode place) ++
  validateOverwrites plan place ∅ channel.overwrites ++
  problemIf (deniesEveryoneView effective && !hasRoleViewAllow effective) (.hidesAll place)

/-- The channels of a category in turn. -/
def validateChannels : BTreeMap ChannelKey String → List PlanChannel →
    List PlanProblem × BTreeMap ChannelKey String
  | keys, [] => ([], keys)
  | keys, channel :: channels =>
    let rest := validateChannels (keys.insert (channel.key lower) category.name) channels
    (validateChannel lower plan category keys channel ++ rest.1, rest.2)

end Channels

/-- `validate_categories`, where the names in `names` have been declared. -/
def validateCategories (lower : String → String) (plan : Plan) :
    BTreeSet String → BTreeMap ChannelKey String → List PlanCategory → List PlanProblem
  | _, _, [] => []
  | names, keys, category :: categories =>
    let channels := validateChannels lower plan category keys category.channels
    problemIf (badName category.name) (.categoryName category.name) ++
    problemIf (categoryKey category.name ∈ names) (.categoryTwice category.name) ++
    problemIf (maxChannelsPerCategory < category.channels.length)
      (.categorySize category.name category.channels.length) ++
    validateOverwrites plan (.category category.name) ∅ category.overwrites ++
    problemIf (deniesEveryoneView category.overwrites && !hasRoleViewAllow category.overwrites)
      (.hidesAll (.category category.name)) ++
    channels.1 ++
    validateCategories lower plan (insert (categoryKey category.name) names) channels.2 categories

/-- Some channel is visible to a member without roles. -/
def somewhereToLand (plan : Plan) : Bool :=
  plan.channels.any fun c => !deniesEveryoneView (effectiveOverwrites c.1 c.2)

/-- Every problem of the plan, in the order of the checks. -/
def problems (lower : String → String) (plan : Plan) : List PlanProblem :=
  problemIf (trim plan.name).toList.isEmpty .planName ++
  validateRoles ∅ plan.roles ++
  validateCategories lower plan ∅ ∅ plan.categories ++
  problemIf (!plan.somewhereToLand && plan.categories.any fun c => !c.channels.isEmpty)
    .nowhereToLand ++
  ((plan.everyone.filter fun p => p ∈ neverForEveryone).map fun p => .everyoneHolds p)

def validate (lower : String → String) (plan : Plan) : Except (List PlanProblem) Unit :=
  if (plan.problems lower).isEmpty then .ok () else .error (plan.problems lower)

/-! ### What validation accepts -/

/-- Roles, categories and channels are told apart by the names they are compared under, and no two
overwrites of one list are for the same role. -/
structure Valid (lower : String → String) (plan : Plan) : Prop where
  roles_nodup : (plan.roles.map PlanRole.name).Nodup
  role_ne_everyone : ∀ role ∈ plan.roles, role.name ≠ everyoneName
  categories_nodup : (plan.categories.map fun c => categoryKey c.name).Nodup
  channels_nodup : (plan.channels.map fun c => c.2.key lower).Nodup
  category_overwrites : ∀ c ∈ plan.categories, (c.overwrites.map Overwrite.role).Nodup
  channel_overwrites : ∀ c ∈ plan.channels, (c.2.overwrites.map Overwrite.role).Nodup
  stored : ∀ c ∈ plan.channels, c.2.kind.normalizesName = true →
    normalizeTextName lower c.2.name = c.2.name

theorem mem_channels {plan : Plan} {c : PlanCategory × PlanChannel} :
    c ∈ plan.channels ↔ c.1 ∈ plan.categories ∧ c.2 ∈ c.1.channels := by
  rw [channels, List.mem_flatMap]
  constructor
  · rintro ⟨category, hcategory, hc⟩
    obtain ⟨channel, hchannel, rfl⟩ := List.mem_map.mp hc
    exact ⟨hcategory, hchannel⟩
  · exact fun h => ⟨c.1, h.1, List.mem_map.mpr ⟨c.2, h.2, rfl⟩⟩

theorem problemIf_eq_nil {c : Bool} {problem : PlanProblem} :
    problemIf c problem = [] ↔ c = false := by
  cases c <;> simp [problemIf]

theorem trim_everyoneName : trim everyoneName = everyoneName := by decide

theorem validateRoles_eq_nil {seen : BTreeSet String} {roles : List PlanRole}
    (h : validateRoles seen roles = []) : (roles.map PlanRole.name).Nodup ∧
      ∀ role ∈ roles, role.name ∉ seen ∧ role.name ≠ everyoneName := by
  induction roles generalizing seen with
  | nil => exact ⟨List.nodup_nil, fun _ h => (List.not_mem_nil h).elim⟩
  | cons role roles ih =>
    simp only [validateRoles, List.append_eq_nil_iff, problemIf_eq_nil, beq_eq_false_iff_ne,
      decide_eq_false_iff_not] at h
    obtain ⟨⟨⟨⟨-, heveryone⟩, hseen⟩, -⟩, hrest⟩ := h
    obtain ⟨hnodup, hroles⟩ := ih hrest
    refine ⟨List.nodup_cons.mpr ⟨fun hmem => ?_, hnodup⟩, fun r hr => ?_⟩
    · obtain ⟨r, hr, hname⟩ := List.mem_map.mp hmem
      refine (hroles r hr).1 ?_
      rw [hname]
      exact Finset.mem_insert_self _ _
    · rcases List.mem_cons.mp hr with rfl | hr
      · refine ⟨hseen, fun hname => heveryone ?_⟩
        rw [hname, trim_everyoneName]
      · exact ⟨fun h => (hroles r hr).1 (Finset.mem_insert_of_mem h), (hroles r hr).2⟩

theorem validateOverwrites_eq_nil {plan : Plan} {place : Place} {targets : BTreeSet String}
    {overwrites : List Overwrite} (h : validateOverwrites plan place targets overwrites = []) :
    (overwrites.map Overwrite.role).Nodup ∧ ∀ o ∈ overwrites, o.role ∉ targets := by
  induction overwrites generalizing targets with
  | nil => exact ⟨List.nodup_nil, fun _ h => (List.not_mem_nil h).elim⟩
  | cons o overwrites ih =>
    simp only [validateOverwrites, List.append_eq_nil_iff, problemIf_eq_nil,
      decide_eq_false_iff_not] at h
    obtain ⟨⟨⟨⟨⟨-, htargets⟩, -⟩, -⟩, -⟩, hrest⟩ := h
    obtain ⟨hnodup, hroles⟩ := ih hrest
    refine ⟨List.nodup_cons.mpr ⟨fun hmem => ?_, hnodup⟩, fun p hp => ?_⟩
    · obtain ⟨p, hp, hrole⟩ := List.mem_map.mp hmem
      refine hroles p hp ?_
      rw [hrole]
      exact Finset.mem_insert_self _ _
    · rcases List.mem_cons.mp hp with rfl | hp
      · exact htargets
      · exact fun h => hroles p hp (Finset.mem_insert_of_mem h)

section Channels

variable {lower : String → String} {plan : Plan} {category : PlanCategory}

theorem validateChannel_eq_nil {keys : BTreeMap ChannelKey String} {channel : PlanChannel}
    (h : validateChannel lower plan category keys channel = []) :
    keys[channel.key lower]? = none ∧
    (channel.kind.normalizesName = true → normalizeTextName lower channel.name = channel.name) ∧
    (channel.overwrites.map Overwrite.role).Nodup := by
  simp only [validateChannel, List.append_eq_nil_iff, problemIf_eq_nil] at h
  obtain ⟨⟨⟨⟨⟨⟨⟨⟨⟨⟨-, hstored⟩, hkey⟩, -⟩, -⟩, -⟩, -⟩, -⟩, -⟩, hoverwrites⟩, -⟩ := h
  refine ⟨?_, fun hkind => ?_, (validateOverwrites_eq_nil hoverwrites).1⟩
  · split at hkey
    · exact absurd hkey (List.cons_ne_nil _ _)
    · assumption
  · rwa [hkind, Bool.true_and, bne_eq_false_iff_eq] at hstored

theorem validateChannels_eq_nil {keys : BTreeMap ChannelKey String} {channels : List PlanChannel}
    (h : (validateChannels lower plan category keys channels).1 = []) :
    (channels.map (PlanChannel.key lower)).Nodup ∧
    (∀ channel ∈ channels, channel.key lower ∉ keys ∧
      (channel.kind.normalizesName = true → normalizeTextName lower channel.name = channel.name) ∧
      (channel.overwrites.map Overwrite.role).Nodup) ∧
    ∀ key, key ∈ (validateChannels lower plan category keys channels).2 ↔
      key ∈ keys ∨ key ∈ channels.map (PlanChannel.key lower) := by
  induction channels generalizing keys with
  | nil => exact ⟨List.nodup_nil, fun _ h => (List.not_mem_nil h).elim, fun key => by
      simp [validateChannels]⟩
  | cons channel channels ih =>
    simp only [validateChannels, List.append_eq_nil_iff] at h
    obtain ⟨hkey, hstored, hoverwrites⟩ := validateChannel_eq_nil h.1
    obtain ⟨hnodup, hchannels, hkeys⟩ := ih h.2
    have hkey : channel.key lower ∉ keys := by
      rw [mem_iff, hkey]
      exact fun ⟨_, h⟩ => Option.some_ne_none _ h.symm
    refine ⟨List.nodup_cons.mpr ⟨fun hmem => ?_, hnodup⟩, fun other hother => ?_, fun key => ?_⟩
    · obtain ⟨other, hother, heq⟩ := List.mem_map.mp hmem
      exact (hchannels other hother).1 (mem_insert_iff.mpr (.inl heq.symm))
    · rcases List.mem_cons.mp hother with rfl | hother
      · exact ⟨hkey, hstored, hoverwrites⟩
      · exact ⟨fun h => (hchannels other hother).1 (mem_insert_iff.mpr (.inr h)),
          (hchannels other hother).2⟩
    · rw [validateChannels, hkeys, mem_insert_iff, List.map_cons, List.mem_cons, or_assoc,
        or_left_comm, eq_comm]

end Channels

section Categories

variable {lower : String → String} {plan : Plan}

theorem validateCategories_eq_nil {names : BTreeSet String} {keys : BTreeMap ChannelKey String}
    {categories : List PlanCategory}
    (h : validateCategories lower plan names keys categories = []) :
    (categories.map fun c => categoryKey c.name).Nodup ∧
    (∀ c ∈ categories, categoryKey c.name ∉ names ∧ (c.overwrites.map Overwrite.role).Nodup ∧
      ∀ channel ∈ c.channels,
        (channel.kind.normalizesName = true → normalizeTextName lower channel.name = channel.name) ∧
        (channel.overwrites.map Overwrite.role).Nodup) ∧
    ((categories.flatMap PlanCategory.channels).map (PlanChannel.key lower)).Nodup ∧
    ∀ channel ∈ categories.flatMap PlanCategory.channels, channel.key lower ∉ keys := by
  induction categories generalizing names keys with
  | nil => exact ⟨List.nodup_nil, fun _ h => (List.not_mem_nil h).elim, List.nodup_nil,
      fun _ h => (List.not_mem_nil h).elim⟩
  | cons category categories ih =>
    simp only [validateCategories, List.append_eq_nil_iff, problemIf_eq_nil,
      decide_eq_false_iff_not] at h
    obtain ⟨⟨⟨⟨⟨⟨-, hname⟩, -⟩, hoverwrites⟩, -⟩, hchannels⟩, hrest⟩ := h
    obtain ⟨hnodup, hcategories, hkeys, hfresh⟩ := ih hrest
    obtain ⟨hnodup', hchannels', hkeys'⟩ := validateChannels_eq_nil hchannels
    refine ⟨List.nodup_cons.mpr ⟨fun hmem => ?_, hnodup⟩, fun c hc => ?_, ?_, fun channel hc => ?_⟩
    · obtain ⟨c, hc, heq⟩ := List.mem_map.mp hmem
      refine (hcategories c hc).1 ?_
      rw [heq]
      exact Finset.mem_insert_self _ _
    · rcases List.mem_cons.mp hc with rfl | hc
      · exact ⟨hname, (validateOverwrites_eq_nil hoverwrites).1, fun channel hchannel =>
          (hchannels' channel hchannel).2⟩
      · exact ⟨fun h => (hcategories c hc).1 (Finset.mem_insert_of_mem h), (hcategories c hc).2⟩
    · rw [List.flatMap_cons, List.map_append]
      refine List.Nodup.append hnodup' hkeys fun key hfirst hlater => ?_
      obtain ⟨channel, hchannel, rfl⟩ := List.mem_map.mp hlater
      exact hfresh channel hchannel ((hkeys' _).mpr (.inr hfirst))
    · rw [List.flatMap_cons, List.mem_append] at hc
      rcases hc with hc | hc
      · exact (hchannels' channel hc).1
      · exact fun h => hfresh channel hc ((hkeys' _).mpr (.inl h))

/-- **A plan that validation accepts is valid.** -/
theorem valid_of_validate (h : plan.validate lower = .ok ()) : plan.Valid lower := by
  have hproblems : plan.problems lower = [] := by
    by_cases hempty : (plan.problems lower).isEmpty = true
    · exact List.isEmpty_iff.mp hempty
    · rw [validate, if_neg hempty] at h
      cases h
  simp only [problems, List.append_eq_nil_iff] at hproblems
  obtain ⟨⟨⟨⟨-, hroles⟩, hcategories⟩, -⟩, -⟩ := hproblems
  obtain ⟨hrolesNodup, hroles⟩ := validateRoles_eq_nil hroles
  obtain ⟨hnodup, hcategories, hkeys, -⟩ := validateCategories_eq_nil hcategories
  have hchannels : plan.channels.map (fun c => c.2.key lower) =
      (plan.categories.flatMap PlanCategory.channels).map (PlanChannel.key lower) := by
    rw [channels, List.map_flatMap, List.map_flatMap]
    exact List.flatMap_congr fun c _ => by rw [List.map_map]; rfl
  exact
    { roles_nodup := hrolesNodup
      role_ne_everyone := fun role hrole => (hroles role hrole).2
      categories_nodup := hnodup
      channels_nodup := hchannels ▸ hkeys
      category_overwrites := fun c hc => (hcategories c hc).2.1
      channel_overwrites := fun c hc =>
        ((hcategories c.1 (mem_channels.mp hc).1).2.2 c.2 (mem_channels.mp hc).2).2
      stored := fun c hc =>
        ((hcategories c.1 (mem_channels.mp hc).1).2.2 c.2 (mem_channels.mp hc).2).1 }

end Categories

end Plan

end AbbeyBot.Server
