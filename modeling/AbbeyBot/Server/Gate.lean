import Mathlib
import AbbeyBot.Server.Names

/-! # The gate stages as a worklist

`reveal` and `overwrites` compare, for what exists, the cosmetics of roles, the parents and topics of
channels, and one overwrite after the other. Each comparison is an item with an address that no other
item has; its change writes to that address and nowhere else. That the engine has hidden a target is
read once, when the items are made. -/

namespace AbbeyBot.Server

open AbbeyBot.Library.OrderedMap AbbeyBot.Library.Worklist AbbeyBot.Library.FirstMatch
open AbbeyBot.Library.Text

/-! ### Targets -/

/-- A category of a plan, or a channel with its category. -/
structure Planned where
  category : PlanCategory
  channel : Option PlanChannel

namespace Planned

def target (p : Planned) : Target :=
  p.channel.elim (.category p.category.name) fun channel => .channel channel.name channel.kind

def overwrites (p : Planned) : List Overwrite :=
  p.channel.elim p.category.overwrites (effectiveOverwrites p.category)

/-- What the target is compared under. -/
def key (lower : String → String) (p : Planned) : String ⊕ ChannelKey :=
  p.channel.elim (.inl (categoryKey p.category.name)) fun channel => .inr (channel.key lower)

/-- The ids of the category and of the target. -/
def lookup (lower : String → String) (s : GuildSnapshot) (p : Planned) : Option (ℕ × ℕ) :=
  match categoryLookup s p.category.name with
  | .found categoryId =>
    match p.channel with
    | none => some (categoryId, categoryId)
    | some channel =>
      match channelLookup lower s channel with
      | .found id => some (categoryId, id)
      | _ => none
  | _ => none

end Planned

/-- Each category, then its channels. -/
def planTargets (categories : List PlanCategory) : List Planned :=
  categories.flatMap fun c => ⟨c, none⟩ :: c.channels.map fun channel => ⟨c, some channel⟩

/-! ### Items -/

/-- One comparison of a gate stage, with the ids it is about. -/
inductive GateItem where
  | role (id : ℕ) (role : PlanRole)
  | edit (id categoryId : ℕ) (category : PlanCategory) (channel : PlanChannel)
  | overwrite (id roleId : ℕ) (target : Target) (wanted : Overwrite) (engineHidden : Bool)

/-- Where an item writes. -/
inductive Address where
  | role (id : ℕ)
  | edit (id : ℕ)
  | overwrite (id roleId : ℕ)
  deriving DecidableEq

def GateItem.address : GateItem → Address
  | .role id _ => .role id
  | .edit id .. => .edit id
  | .overwrite id roleId .. => .overwrite id roleId

/-- The entry of a role on a channel, as it is compared with a wanted one. -/
def currentOverwrite (role : String) (state : OverwriteState) : Overwrite :=
  ⟨role, sortedUnique state.allow, sortedUnique state.deny⟩

/-- The change that an item is missing in a guild. -/
def GateItem.cell (permits : Permits) : GateItem → GuildSnapshot → Option Change
  | .role id planned, s => (s.roleById id).bind fun current =>
    (compareRole s.botTopPosition planned current).changes.head?
  | .edit id categoryId category channel, s => (s.channelById id).bind fun state =>
    (editChange categoryId category channel state).changes.head?
  | .overwrite id roleId target wanted engineHidden, s => (s.channelById id).bind fun state =>
    (compareOverwrite target permits engineHidden wanted
      ((state.overwriteForRole roleId).map (currentOverwrite wanted.role))).changes.head?

/-- What a gate stage goes through. -/
structure GateStage where
  roles : List PlanRole
  categories : List PlanCategory
  /-- Parents and topics are compared, too. -/
  edits : Bool
  permits : Permits

/-- Whether the engine has hidden the channel. -/
def hiddenFlags (s : GuildSnapshot) (id : ℕ) : Bool :=
  (s.channelById id).any fun state => isEngineHidden state s.guildId

section Items

variable (lower : String → String) (s : GuildSnapshot) (hidden : ℕ → Bool)

def roleItem (role : PlanRole) : Option GateItem :=
  match roleLookup s role.name with
  | .found id => some (.role id role)
  | _ => none

def overwriteItem (id : ℕ) (target : Target) (engineHidden : Bool) (o : Overwrite) :
    Option GateItem :=
  match overwriteRole s target o.role with
  | .ok roleId => some (.overwrite id roleId target o engineHidden)
  | .error _ => none

def overwriteItems (id : ℕ) (p : Planned) : List GateItem :=
  (wantedOverwrites p.overwrites (hidden id)).filterMap (overwriteItem s id p.target (hidden id))

def targetItems (edits : Bool) (p : Planned) : List GateItem :=
  match p.lookup lower s with
  | none => []
  | some (categoryId, id) =>
    (if edits then (p.channel.map (.edit id categoryId p.category)).toList else []) ++
    overwriteItems s hidden id p

/-- The items of a stage for a guild, in the order of the changes. -/
def GateStage.items (stage : GateStage) : List GateItem :=
  stage.roles.filterMap (roleItem s) ++
  (planTargets stage.categories).flatMap (targetItems lower s hidden stage.edits)

end Items

/-- The gate stage of a scope. -/
def gateStage (plan : Plan) (scope : Scope) : Option GateStage :=
  match scope.stage with
  | .additive => none
  | .reveal => some ⟨plan.roles, plan.categories, true, revealPermits⟩
  | .overwrites =>
    (scope.category.bind plan.category).map fun category => ⟨[], [category], false, alwaysPermits⟩

/-! ### The changes of a report -/

section Changes

variable {lower : String → String} {s : GuildSnapshot}

theorem toList_compareRole (top : ℕ) (role : PlanRole) (current : RoleState) :
    (compareRole top role current).changes.head?.toList =
      (compareRole top role current).changes := by
  rw [compareRole]
  split_ifs <;> rfl

theorem toList_editChange (categoryId : ℕ) (category : PlanCategory) (channel : PlanChannel)
    (state : ChannelState) : (editChange categoryId category channel state).changes.head?.toList =
      (editChange categoryId category channel state).changes := by
  rw [editChange]
  split_ifs <;> rfl

theorem toList_compareOverwrite (target : Target) (permits : Permits) (hidden : Bool)
    (o : Overwrite) (current : Option Overwrite) :
    (compareOverwrite target permits hidden o current).changes.head?.toList =
      (compareOverwrite target permits hidden o current).changes := by
  rw [compareOverwrite]
  split_ifs <;> rfl

theorem overwriteChange_changes (target : Target) {state : ChannelState} (permits : Permits)
    (hidden : Bool) (o : Overwrite) {id : ℕ} (hstate : s.channelById id = some state) :
    (overwriteChange s target state permits hidden o).changes =
      ((overwriteItem s id target hidden o).bind fun i => i.cell permits s).toList := by
  rw [overwriteChange, overwriteItem]
  cases hrole : overwriteRole s target o.role with
  | error blocker => rfl
  | ok roleId =>
    rw [Option.bind_some, GateItem.cell, hstate, Option.bind_some, toList_compareOverwrite]
    rfl

theorem overwriteChanges_changes (p : Planned) (permits : Permits) {state : ChannelState} {id : ℕ}
    (hstate : s.channelById id = some state) :
    (overwriteChanges s p.target p.overwrites state permits).changes =
      pending (GateItem.cell permits) (overwriteItems s (hiddenFlags s) id p) s := by
  have hflag : hiddenFlags s id = isEngineHidden state s.guildId := by
    rw [hiddenFlags, hstate, Option.any_some]
  rw [overwriteItems, pending, List.filterMap_filterMap, List.filterMap_eq_flatMap_toList, hflag]
  exact List.flatMap_congr fun o _ =>
    overwriteChange_changes p.target permits (isEngineHidden state s.guildId) o hstate

theorem revealRole_changes (role : PlanRole) :
    (revealRole s role).changes =
      ((roleItem s role).bind fun i => i.cell revealPermits s).toList := by
  rw [revealRole, roleItem]
  cases roleLookup s role.name with
  | missing => rfl
  | managed => rfl
  | ambiguous count => rfl
  | found id =>
    simp only [Option.bind_some, GateItem.cell]
    cases s.roleById id with
    | none => rfl
    | some current => exact (toList_compareRole s.botTopPosition role current).symm

theorem exists_of_categoryLookup {name : String} {id : ℕ}
    (h : categoryLookup s name = .found id) : ∃ state, s.channelById id = some state := by
  obtain ⟨channel, hmem, rfl, -⟩ := GuildSnapshot.mem_of_categoryLookup h
  exact GuildSnapshot.exists_channelById hmem

theorem exists_of_channelLookup {channel : PlanChannel} {id : ℕ}
    (h : channelLookup lower s channel = .found id) : ∃ state, s.channelById id = some state := by
  obtain ⟨state, hmem, rfl, -⟩ := GuildSnapshot.mem_of_channelLookup h
  exact GuildSnapshot.exists_channelById hmem

theorem onChannel_changes {permits : Permits} {edits : Bool} {category : PlanCategory}
    {categoryId : ℕ} (hcategory : categoryLookup s category.name = .found categoryId)
    {channel : PlanChannel} {f : ChannelState → Findings} (hf : ∀ state, (f state).changes =
      (if edits then (editChange categoryId category channel state).changes else []) ++
        (overwriteChanges s (.channel channel.name channel.kind)
          (effectiveOverwrites category channel) state permits).changes) :
    (onChannel lower s channel f).changes = pending (GateItem.cell permits)
      (targetItems lower s (hiddenFlags s) edits ⟨category, some channel⟩) s := by
  rw [onChannel, requireChannel, targetItems, Planned.lookup]
  simp only [hcategory]
  cases hchannel : channelLookup lower s channel with
  | missing => rfl
  | ambiguous count => rfl
  | found id =>
    obtain ⟨state, hstate⟩ := exists_of_channelLookup hchannel
    simp only [hstate, Option.map_some, Option.toList_some]
    rw [pending, List.filterMap_append, hf]
    refine congrArg₂ (· ++ ·) ?_ (overwriteChanges_changes ⟨category, some channel⟩ _ hstate)
    cases edits with
    | false => rfl
    | true =>
      simp only [if_true]
      rw [List.filterMap_eq_flatMap_toList, List.flatMap_singleton, GateItem.cell, hstate,
        Option.bind_some, toList_editChange]

/-- A category that is not found has no items. -/
theorem targetItems_of_not_found {hidden : ℕ → Bool} {edits : Bool} {p : Planned}
    (hcategory : ∀ id, categoryLookup s p.category.name ≠ .found id) :
    targetItems lower s hidden edits p = [] := by
  have hlookup : p.lookup lower s = none := by
    rw [Planned.lookup]
    split
    · exact absurd ‹_› (hcategory _)
    · rfl
  rw [targetItems, hlookup]

theorem pending_targets {permits : Permits} {hidden : ℕ → Bool} {edits : Bool}
    (category : PlanCategory) :
    pending (GateItem.cell permits)
      ((planTargets [category]).flatMap (targetItems lower s hidden edits)) s =
      pending (GateItem.cell permits) (targetItems lower s hidden edits ⟨category, none⟩) s ++
      category.channels.flatMap fun channel => pending (GateItem.cell permits)
        (targetItems lower s hidden edits ⟨category, some channel⟩) s := by
  rw [planTargets, List.flatMap_singleton, List.flatMap_cons, List.flatMap_map, pending,
    List.filterMap_append, List.filterMap_flatMap]
  rfl

/-- Nothing is missing in a category that is not found. -/
theorem pending_of_not_found {permits : Permits} {hidden : ℕ → Bool} {edits : Bool}
    {category : PlanCategory} (h : ∀ id, categoryLookup s category.name ≠ .found id) :
    pending (GateItem.cell permits)
      ((planTargets [category]).flatMap (targetItems lower s hidden edits)) s = [] := by
  rw [pending_targets, targetItems_of_not_found (p := ⟨category, none⟩) h]
  exact List.flatMap_eq_nil_iff.mpr fun channel _ => by
    rw [targetItems_of_not_found (p := ⟨category, some channel⟩) h]
    rfl

theorem targetItems_category {hidden : ℕ → Bool} {edits : Bool} {category : PlanCategory} {id : ℕ}
    (h : categoryLookup s category.name = .found id) :
    targetItems lower s hidden edits ⟨category, none⟩ =
      overwriteItems s hidden id ⟨category, none⟩ := by
  rw [targetItems, Planned.lookup]
  simp only [h, Option.map_none, Option.toList_none, ite_self, List.nil_append]

theorem onCategory_changes {permits : Permits} {edits : Bool} {category : PlanCategory}
    {f : ℕ → ChannelState → Findings} (hf : ∀ id, categoryLookup s category.name = .found id →
      ∀ state, (f id state).changes =
        (overwriteChanges s (.category category.name) category.overwrites state permits).changes ++
          category.channels.flatMap fun channel => pending (GateItem.cell permits)
            (targetItems lower s (hiddenFlags s) edits ⟨category, some channel⟩) s) :
    (onCategory s category f).changes = pending (GateItem.cell permits)
      ((planTargets [category]).flatMap (targetItems lower s (hiddenFlags s) edits)) s := by
  rw [onCategory]
  cases hcategory : categoryLookup s category.name with
  | missing => exact (pending_of_not_found fun id h => by rw [hcategory] at h; cases h).symm
  | ambiguous count => exact (pending_of_not_found fun id h => by rw [hcategory] at h; cases h).symm
  | found id =>
    obtain ⟨state, hstate⟩ := exists_of_categoryLookup hcategory
    simp only [hstate]
    rw [hf id hcategory, pending_targets, targetItems_category hcategory]
    exact congrArg (· ++ _) (overwriteChanges_changes ⟨category, none⟩ _ hstate)

theorem revealCategory_changes (category : PlanCategory) :
    (revealCategory lower s category).changes = pending (GateItem.cell revealPermits)
      ((planTargets [category]).flatMap (targetItems lower s (hiddenFlags s) true)) s :=
  onCategory_changes fun id hid state => by
    rw [Findings.changes_append, Findings.changes_collect]
    exact congrArg _ (List.flatMap_congr fun channel _ => onChannel_changes hid fun _ => rfl)

theorem overwritesCategory_changes {plan : Plan} {name : String} {category : PlanCategory}
    (hplan : plan.category name = some category) :
    (overwrites lower plan s name).changes = pending (GateItem.cell alwaysPermits)
      ((planTargets [category]).flatMap (targetItems lower s (hiddenFlags s) false)) s := by
  rw [overwrites, hplan]
  refine onCategory_changes fun id hid state => ?_
  rw [Findings.changes_append, Findings.changes_collect]
  exact congrArg _ (List.flatMap_congr fun channel _ => onChannel_changes hid fun _ => rfl)

/-- **The changes of a gate stage are what its items are missing.** -/
theorem changes_eq_pending {plan : Plan} {scope : Scope} {stage : GateStage}
    (h : gateStage plan scope = some stage) : (diff lower plan s scope).changes =
      pending (GateItem.cell stage.permits) (stage.items lower s (hiddenFlags s)) s := by
  rw [gateStage] at h
  change (stageFindings lower plan s scope).changes = _
  rw [stageFindings]
  cases hstage : scope.stage with
  | additive => simp only [hstage] at h; cases h
  | reveal =>
    simp only [hstage, Option.some.injEq] at h
    subst h
    simp only [reveal, Findings.changes_append, Findings.changes_collect, GateStage.items]
    rw [pending, List.filterMap_append, List.filterMap_filterMap,
      List.filterMap_eq_flatMap_toList, planTargets, List.flatMap_assoc, List.filterMap_flatMap]
    refine congrArg₂ (· ++ ·) (List.flatMap_congr fun role _ => revealRole_changes role)
      (List.flatMap_congr fun category _ => ?_)
    rw [revealCategory_changes, planTargets, List.flatMap_singleton]
    rfl
  | overwrites =>
    simp only [hstage, Option.map_eq_some_iff, Option.bind_eq_some_iff] at h
    obtain ⟨category, ⟨name, hname, hcategory⟩, rfl⟩ := h
    simp only [hname]
    rw [overwritesCategory_changes hcategory, GateStage.items, List.filterMap_nil, List.nil_append]

end Changes

end AbbeyBot.Server
