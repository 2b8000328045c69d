import Mathlib
import AbbeyBot.Server.Convergence

/-! # Clear comparisons stay clear

A comparison is clear where everything it needs is found once and may be written. Names and
permissions are never written, and a role that was edited is as planned; so a run that has begun from a
clear comparison leaves, wherever it stops, a guild whose comparison is clear. -/

namespace AbbeyBot.Server

open AbbeyBot.Library.OrderedMap AbbeyBot.Library.Worklist

/-! ### Gate stages -/

/-- A target is found, and so are the roles of its overwrites. -/
def TargetClear (lower : String → String) (s : GuildSnapshot) (p : Planned) : Prop :=
  (∃ ids, p.lookup lower s = some ids) ∧
    ∀ o ∈ p.overwrites, ∃ id, overwriteRole s p.target o.role = .ok id

/-- The roles of a stage are found and may be edited, its targets are clear. -/
structure GateClear (lower : String → String) (stage : GateStage) (s : GuildSnapshot) : Prop where
  roles : ∀ role ∈ stage.roles, ∃ id, roleLookup s role.name = .found id ∧
    ∀ current, s.roleById id = some current → (compareRole s.botTopPosition role current).blockers = []
  targets : ∀ p ∈ planTargets stage.categories, TargetClear lower s p

section Gate

variable {lower : String → String} {plan : Plan} {s : GuildSnapshot} {scope : Scope}

theorem Findings.blockers_blocker_ne (b : Blocker) : (Findings.blocker b).blockers ≠ [] :=
  List.cons_ne_nil b []

theorem compareOverwrite_blockers (target : Target) (permits : Permits) (flag : Bool)
    (o : Overwrite) (current : Option Overwrite) :
    (compareOverwrite target permits flag o current).blockers = [] := by
  rw [compareOverwrite]
  split_ifs <;> rfl

theorem overwriteChange_blockers {target : Target} {state : ChannelState} {permits : Permits}
    {flag : Bool} {o : Overwrite} : (overwriteChange s target state permits flag o).blockers = [] ↔
      ∃ id, overwriteRole s target o.role = .ok id := by
  rw [overwriteChange]
  cases hrole : overwriteRole s target o.role with
  | error blocker =>
    refine ⟨fun h => absurd h (Findings.blockers_blocker_ne _), fun h => ?_⟩
    obtain ⟨_, h⟩ := h
    cases h
  | ok id => exact ⟨fun _ => ⟨id, rfl⟩, fun _ => compareOverwrite_blockers _ _ _ _ _⟩

/-- The marker that is cleared needs no role; a planned overwrite needs its own. -/
theorem overwriteChanges_blockers {target : Target} {planned : List Overwrite}
    {state : ChannelState} {permits : Permits} :
    (overwriteChanges s target planned state permits).blockers = [] ↔
      ∀ o ∈ planned, ∃ id, overwriteRole s target o.role = .ok id := by
  have hplanned : (∀ o ∈ planned.map Overwrite.normalized,
      ∃ id, overwriteRole s target o.role = .ok id) ↔
      ∀ o ∈ planned, ∃ id, overwriteRole s target o.role = .ok id := List.forall_mem_map
  rw [overwriteChanges, Findings.blockers_collect, List.flatMap_eq_nil_iff]
  simp only [overwriteChange_blockers]
  rw [← hplanned, wantedOverwrites]
  split_ifs
  · rw [List.forall_mem_append]
    refine and_iff_left_of_imp fun _ o ho => ?_
    rw [List.mem_singleton.mp ho]
    exact ⟨s.guildId, if_pos rfl⟩
  · rfl

theorem editChange_blockers (categoryId : ℕ) (category : PlanCategory) (channel : PlanChannel)
    (state : ChannelState) : (editChange categoryId category channel state).blockers = [] := by
  rw [editChange]
  split_ifs <;> rfl

/-- Below a category that is found, a channel is clear where its comparison is. -/
theorem onChannel_blockers {category : PlanCategory} {categoryId : ℕ}
    (hcategory : categoryLookup s category.name = .found categoryId) {channel : PlanChannel}
    {f : ChannelState → Findings} (hf : ∀ state, (f state).blockers = [] ↔
      ∀ o ∈ effectiveOverwrites category channel,
        ∃ id, overwriteRole s (.channel channel.name channel.kind) o.role = .ok id) :
    (onChannel lower s channel f).blockers = [] ↔
      TargetClear lower s ⟨category, some channel⟩ := by
  rw [onChannel, requireChannel, TargetClear, Planned.lookup]
  simp only [hcategory]
  cases hlookup : channelLookup lower s channel with
  | missing =>
    exact iff_of_false (Findings.blockers_blocker_ne _) fun h => Option.not_mem_none _ h.1.choose_spec
  | ambiguous count =>
    exact iff_of_false (Findings.blockers_blocker_ne _) fun h => Option.not_mem_none _ h.1.choose_spec
  | found id =>
    obtain ⟨state, hstate⟩ := exists_of_channelLookup hlookup
    simp only [hstate]
    exact (hf state).trans (and_iff_right ⟨_, rfl⟩).symm

/-- A category is clear with its channels where its comparison is. -/
theorem onCategory_blockers {category : PlanCategory} {f : ℕ → ChannelState → Findings}
    (hf : ∀ id, categoryLookup s category.name = .found id → ∀ state, (f id state).blockers = [] ↔
      (∀ o ∈ category.overwrites, ∃ id, overwriteRole s (.category category.name) o.role = .ok id) ∧
        ∀ channel ∈ category.channels, TargetClear lower s ⟨category, some channel⟩) :
    (onCategory s category f).blockers = [] ↔
      ∀ p ∈ planTargets [category], TargetClear lower s p := by
  rw [planTargets, List.flatMap_singleton, List.forall_mem_cons, List.forall_mem_map, onCategory,
    TargetClear, Planned.lookup]
  cases hlookup : categoryLookup s category.name with
  | missing =>
    exact iff_of_false (Findings.blockers_blocker_ne _) fun h => Option.not_mem_none _ h.1.1.choose_spec
  | ambiguous count =>
    exact iff_of_false (Findings.blockers_blocker_ne _) fun h => Option.not_mem_none _ h.1.1.choose_spec
  | found id =>
    obtain ⟨state, hstate⟩ := exists_of_categoryLookup hlookup
    simp only [hstate]
    exact (hf id hlookup state).trans (and_congr_left fun _ => (and_iff_right ⟨_, rfl⟩).symm)

theorem revealCategory_blockers {category : PlanCategory} :
    (revealCategory lower s category).blockers = [] ↔
      ∀ p ∈ planTargets [category], TargetClear lower s p :=
  onCategory_blockers fun id hid state => by
    rw [Findings.blockers_append, Findings.blockers_collect, List.append_eq_nil_iff,
      List.flatMap_eq_nil_iff, overwriteChanges_blockers]
    refine and_congr_right fun _ => forall₂_congr fun channel _ => onChannel_blockers hid fun state => ?_
    rw [Findings.blockers_append, editChange_blockers, List.nil_append, overwriteChanges_blockers]

theorem overwrites_blockers {name : String} {category : PlanCategory}
    (hplan : plan.category name = some category) :
    (overwrites lower plan s name).blockers = [] ↔
      ∀ p ∈ planTargets [category], TargetClear lower s p := by
  rw [overwrites, hplan]
  refine onCategory_blockers fun id hid state => ?_
  rw [Findings.blockers_append, Findings.blockers_collect, List.append_eq_nil_iff,
    List.flatMap_eq_nil_iff, gateChanges, Findings.blockers_append, List.nil_append,
    overwriteChanges_blockers]
  refine and_congr_right fun _ => forall₂_congr fun channel _ => onChannel_blockers hid fun state => ?_
  rw [gateChanges, Findings.blockers_append, List.nil_append, overwriteChanges_blockers]

theorem revealRole_blockers {role : PlanRole} : (revealRole s role).blockers = [] ↔
    ∃ id, roleLookup s role.name = .found id ∧ ∀ current, s.roleById id = some current →
      (compareRole s.botTopPosition role current).blockers = [] := by
  rw [revealRole]
  cases hlookup : roleLookup s role.name with
  | found id =>
    simp only [RoleLookup.found.injEq, exists_eq_left']
    cases s.roleById id with
    | none => exact iff_of_true rfl fun _ h => absurd h.symm (Option.some_ne_none _)
    | some current => simp only [Option.some.injEq, forall_eq']
  | _ => exact iff_of_false (Findings.blockers_blocker_ne _) (by rintro ⟨_, h, _⟩; cases h)

/-- **A gate stage is clear where its comparison has no blockers.** -/
theorem gateClear_iff {stage : GateStage} (hstage : gateStage plan scope = some stage) :
    (stageFindings lower plan s scope).blockers = [] ↔ GateClear lower stage s := by
  rw [gateStage] at hstage
  rw [stageFindings]
  cases hscope : scope.stage with
  | additive => simp only [hscope] at hstage; cases hstage
  | reveal =>
    simp only [hscope, Option.some.injEq] at hstage
    subst hstage
    simp only [reveal, Findings.blockers_append, Findings.blockers_collect,
      List.append_eq_nil_iff, List.flatMap_eq_nil_iff, revealRole_blockers,
      revealCategory_blockers, planTargets, List.flatMap_singleton]
    rw [← List.forall_mem_flatMap]
    exact ⟨fun h => ⟨h.1, h.2⟩, fun h => ⟨h.roles, h.targets⟩⟩
  | overwrites =>
    simp only [hscope, Option.map_eq_some_iff, Option.bind_eq_some_iff] at hstage
    obtain ⟨category, ⟨name, hname, hcategory⟩, rfl⟩ := hstage
    simp only [hname, overwrites_blockers hcategory]
    exact ⟨fun h => ⟨fun _ h => (List.not_mem_nil h).elim, h⟩, fun h => h.targets⟩

end Gate

/-! ### During a run -/

section Run

variable {lower : String → String} {s₀ : GuildSnapshot}

/-- An overwrite that is there is not missing. -/
theorem cell_of_placed {permits : Permits} {s : GuildSnapshot} {i : GateItem} {id roleId : ℕ}
    (haddress : i.address = .overwrite id roleId) (hi : i.Sound lower s₀) (hplaced : i.Placed s) :
    i.cell permits s = none := by
  cases i with
  | role other planned => cases haddress
  | edit other categoryId category channel => cases haddress
  | overwrite other otherRole target o flag =>
    obtain ⟨state, hstate, hentry⟩ := hplaced
    rw [GateItem.cell, hstate, Option.bind_some, hentry, Option.map_some,
      compareOverwrite_placed hi.2.1]
    rfl

/-- A role that was edited is as planned, and one that was not is as it was. -/
theorem role_clear {stage : GateStage} (hids : s₀.UniqueIds) (hstage : stage.Valid lower)
    {hidden : ℕ → Bool} {e : Engine}
    (he : Traced lower stage.permits (stage.items lower s₀ hidden) s₀ e) {role : PlanRole}
    (hrole : role ∈ stage.roles) {id : ℕ} (hfound : roleLookup s₀ role.name = .found id)
    (hclear : ∀ current, s₀.roleById id = some current →
      (compareRole s₀.botTopPosition role current).blockers = []) {current : RoleState}
    (hcurrent : e.guild.snapshot.roleById id = some current) :
    (compareRole e.guild.snapshot.botTopPosition role current).blockers = [] := by
  rw [he.names.botTopPosition]
  rcases he.traced (.role id) with hagree | ⟨i, hi, haddress, hplaced, -⟩
  · have hagree : e.guild.snapshot.roleById id = s₀.roleById id := hagree
    exact hclear current (hagree ▸ hcurrent)
  · rcases mem_items.mp hi with ⟨planned, hplanned, hitem⟩ | ⟨p, -, hitem⟩
    · obtain ⟨other, hother, rfl⟩ := roleItem_eq_some hitem
      cases haddress
      obtain rfl : planned = role := List.inj_on_of_nodup_map hstage.roles_nodup hplanned hrole
        (name_eq_of_roleLookup hids hother hfound)
      obtain ⟨placed, hplaced, hsame⟩ := hplaced
      rw [hcurrent, Option.some.injEq] at hplaced
      subst hplaced
      rw [compareRole, if_pos hsame]
      rfl
    · obtain ⟨_, _, -, ⟨_, -, rfl⟩ | ⟨_, -, _, -, rfl⟩⟩ := mem_targetItems hitem <;> cases haddress

/-- **Wherever a run of a gate stage stops, the stage is clear.** -/
theorem GateClear.of_traced {stage : GateStage} (h : GateClear lower stage s₀) (hids : s₀.UniqueIds)
    (hstage : stage.Valid lower) {hidden : ℕ → Bool} {e : Engine}
    (he : Traced lower stage.permits (stage.items lower s₀ hidden) s₀ e) :
    GateClear lower stage e.guild.snapshot where
  roles role hrole := by
    obtain ⟨id, hfound, hclear⟩ := h.roles role hrole
    exact ⟨id, he.names.roleLookup role.name ▸ hfound, fun current hcurrent =>
      role_clear hids hstage he hrole hfound hclear hcurrent⟩
  targets p hp := by
    obtain ⟨hlookup, hroles⟩ := h.targets p hp
    refine ⟨?_, fun o ho => ?_⟩
    · have hsame : p.lookup lower e.guild.snapshot = p.lookup lower s₀ := by
        rw [Planned.lookup, Planned.lookup, he.names.categoryLookup]
        simp only [he.names.channelLookup]
      rwa [hsame]
    · rw [he.names.overwriteRole]
      exact hroles o ho

/-- **Wherever a run of the additive stage stops, the stage is clear.** -/
theorem additive_clear {plan : Plan} {e : Engine} (he : AdditiveInv lower plan s₀ e)
    (hclear : (additive lower plan s₀).blockers = []) :
    (additive lower plan e.guild.snapshot).blockers = [] := by
  simp only [additive, Findings.blockers_append, Findings.blockers_collect,
    List.append_eq_nil_iff, List.flatMap_eq_nil_iff] at hclear ⊢
  refine ⟨fun role hrole => ?_, fun category hcategory => ?_⟩
  · rw [additiveRole]
    rcases he.roles role hrole with hmissing | ⟨id, hfound⟩
    · rw [hmissing]
      rfl
    · rw [hfound]
      rfl
  · rw [additiveCategory, Findings.blockers_append, Findings.blockers_collect,
      List.append_eq_nil_iff, List.flatMap_eq_nil_iff]
    refine ⟨?_, fun channel hchannel => ?_⟩
    · have htarget := he.targets ⟨category, none⟩
        (mem_planTargets.mpr ⟨hcategory, fun _ h => absurd h (Option.not_mem_none _)⟩)
      rw [missingCategory]
      rcases htarget with ⟨hmissing, -⟩ | ⟨id, hfound⟩
      · have hmissing : categoryLookup e.guild.snapshot category.name = .missing := hmissing
        rw [hmissing]
        rfl
      · have hfound : categoryLookup e.guild.snapshot category.name = .found id := hfound
        rw [hfound]
        rfl
    · have htarget := he.targets ⟨category, some channel⟩
        (mem_planTargets.mpr ⟨hcategory, fun _ h => Option.some.inj h ▸ hchannel⟩)
      rw [additiveChannel]
      rcases htarget with ⟨hmissing, hbefore⟩ | ⟨id, hfound⟩
      · -- a channel that is still missing was missing when the comparison was clear
        have hmissing : channelLookup lower e.guild.snapshot channel = .missing := hmissing
        have hbefore : channelLookup lower s₀ channel = .missing := hbefore
        have hnone := hclear.2 category hcategory
        rw [additiveCategory, Findings.blockers_append, Findings.blockers_collect,
          List.append_eq_nil_iff, List.flatMap_eq_nil_iff] at hnone
        have hnone := hnone.2 channel hchannel
        rw [additiveChannel, hbefore] at hnone
        rw [hmissing]
        rwa [GuildSnapshot.hasFeature, he.features, ← GuildSnapshot.hasFeature]
      · have hfound : channelLookup lower e.guild.snapshot channel = .found id := hfound
        rw [hfound]
        rfl

end Run

/-! ### The bot -/

section Bot

variable {s : GuildSnapshot}

theorem checkBotCapability_congr {t : GuildSnapshot} (h : t.botPermissions = s.botPermissions)
    (changes : List Change) : checkBotCapability t changes = checkBotCapability s changes := by
  have hadministrator : t.botIsAdministrator = s.botIsAdministrator := by
    rw [GuildSnapshot.botIsAdministrator, GuildSnapshot.botIsAdministrator, h]
  simp only [checkBotCapability, hadministrator, h]

/-- What the bot lacks for fewer changes it lacks for more. -/
theorem checkBotCapability_mono {changes fewer : List Change} (hsub : fewer ⊆ changes)
    (h : checkBotCapability s changes = []) : checkBotCapability s fewer = [] := by
  rw [checkBotCapability] at h ⊢
  split_ifs with hfewer
  · rfl
  rw [Bool.or_eq_true, not_or] at hfewer
  have hchanges : ¬ (changes.isEmpty || s.botIsAdministrator) = true := by
    rw [Bool.or_eq_true, not_or]
    refine ⟨fun hempty => hfewer.1 ?_, hfewer.2⟩
    rw [List.isEmpty_iff] at hempty ⊢
    exact List.subset_nil.mp (hempty ▸ hsub)
  rw [if_neg hchanges] at h
  simp only [List.append_eq_nil_iff] at h ⊢
  obtain ⟨⟨hchannels, hroles⟩, hmissing⟩ := h
  refine ⟨⟨hchannels, ?_⟩, ?_⟩
  · rw [ite_eq_right_iff] at hroles ⊢
    intro hneeds
    refine hroles ?_
    simp only [Bool.and_eq_true, List.any_eq_true] at hneeds ⊢
    exact ⟨hneeds.1.imp fun c hc => ⟨hsub hc.1, hc.2⟩, hneeds.2⟩
  · have hheld : ∀ name ∈ changes.flatMap Change.overwritePermissionNames,
        name ∈ s.botPermissions := by
      intro name hname
      by_contra hnot
      have hmem : name ∈ sortedUnique ((changes.flatMap Change.overwritePermissionNames).filter
          fun name => name ∉ s.botPermissions) :=
        mem_sortedUnique.mpr (List.mem_filter.mpr ⟨hname, decide_eq_true hnot⟩)
      rw [ite_eq_left_iff] at hmissing
      refine List.cons_ne_nil _ _ (hmissing fun hempty => ?_)
      rw [List.isEmpty_iff.mp hempty] at hmem
      exact List.not_mem_nil hmem
    have hnone : (fewer.flatMap Change.overwritePermissionNames).filter
        (fun name => name ∉ s.botPermissions) = [] := by
      refine List.filter_eq_nil_iff.mpr fun name hname hnot => ?_
      obtain ⟨c, hc, hname⟩ := List.mem_flatMap.mp hname
      exact of_decide_eq_true hnot (hheld name (List.mem_flatMap.mpr ⟨c, hsub hc, hname⟩))
    rw [hnone]
    rfl

end Bot

end AbbeyBot.Server
