import Mathlib
import AbbeyBot.Server.Additive

/-! # A rollout converges

When the changes of a report have been applied, the same comparison finds nothing to change. What is
hidden by the engine may have become visible, or may only now look hidden; neither makes a difference
to what is left to do. -/

namespace AbbeyBot.Server

open AbbeyBot.Library.OrderedMap AbbeyBot.Library.Worklist

/-! ### Items of a target -/

section Items

variable {lower : String → String} {s : GuildSnapshot} {hidden : ℕ → Bool} {stage : GateStage}

theorem mem_items {i : GateItem} : i ∈ stage.items lower s hidden ↔
    (∃ role ∈ stage.roles, roleItem s role = some i) ∨
      ∃ p ∈ planTargets stage.categories, i ∈ targetItems lower s hidden stage.edits p := by
  rw [GateStage.items, List.mem_append, List.mem_filterMap, List.mem_flatMap]

/-- An item that writes an overwrite of a channel is of a target found there. -/
theorem overwrite_of_address {i : GateItem} (hi : i ∈ stage.items lower s hidden) {id roleId : ℕ}
    (haddress : i.address = .overwrite id roleId) :
    ∃ p ∈ planTargets stage.categories, ∃ categoryId, p.lookup lower s = some (categoryId, id) ∧
      ∃ o ∈ wantedOverwrites p.overwrites (hidden id), overwriteRole s p.target o.role = .ok roleId ∧
        i = .overwrite id roleId p.target o (hidden id) := by
  rcases mem_items.mp hi with ⟨role, -, hrole⟩ | ⟨p, hp, hi⟩
  · obtain ⟨_, -, rfl⟩ := roleItem_eq_some hrole
    cases haddress
  obtain ⟨categoryId, id', hlookup, ⟨_, -, rfl⟩ | ⟨o, ho, roleId', hrole, rfl⟩⟩ := mem_targetItems hi
  · cases haddress
  · cases haddress
    exact ⟨p, hp, categoryId, hlookup, o, ho, hrole, rfl⟩

theorem overwrite_mem_targetItems {edits : Bool} {p : Planned} {categoryId id roleId : ℕ}
    (hlookup : p.lookup lower s = some (categoryId, id)) {o : Overwrite}
    (ho : o ∈ wantedOverwrites p.overwrites (hidden id))
    (hrole : overwriteRole s p.target o.role = .ok roleId) :
    GateItem.overwrite id roleId p.target o (hidden id) ∈ targetItems lower s hidden edits p := by
  rw [targetItems, hlookup]
  refine List.mem_append_right _ (List.mem_filterMap.mpr ⟨o, ho, ?_⟩)
  rw [overwriteItem, hrole]

/-- What is wanted of a target that is not hidden is wanted of it anyway. -/
theorem mem_wanted_true {planned : List Overwrite} {o : Overwrite}
    (ho : o ∈ wantedOverwrites planned false) : o ∈ wantedOverwrites planned true := by
  rw [wantedOverwrites, Bool.and_false, if_neg Bool.false_ne_true] at ho
  rw [wantedOverwrites]
  split_ifs
  · exact List.mem_append_left _ ho
  · exact ho

/-- An edit, or an item of a role, does not depend on what is hidden. -/
theorem mem_items_of_ne_overwrite {other : ℕ → Bool} {i : GateItem}
    (hi : i ∈ stage.items lower s hidden) (hne : ∀ id roleId target o flag,
      i ≠ .overwrite id roleId target o flag) : i ∈ stage.items lower s other := by
  refine mem_items.mpr ((mem_items.mp hi).imp_right ?_)
  rintro ⟨p, hp, hi⟩
  refine ⟨p, hp, ?_⟩
  rw [targetItems] at hi ⊢
  split at hi
  · exact (List.not_mem_nil hi).elim
  · rename_i hlookup
    rcases List.mem_append.mp hi with hi | hi
    · exact List.mem_append_left _ hi
    · obtain ⟨o, -, ho⟩ := List.mem_filterMap.mp hi
      obtain ⟨roleId, -, rfl⟩ := overwriteItem_eq_some ho
      exact absurd rfl (hne _ _ _ _ _)

theorem items_congr {s₀ : GuildSnapshot} (h : s₀.SameNames s) :
    stage.items lower s hidden = stage.items lower s₀ hidden := by
  have hrole : roleItem s = roleItem s₀ := funext fun role => by
    rw [roleItem, roleItem, h.roleLookup]
  have htarget : targetItems lower s hidden stage.edits =
      targetItems lower s₀ hidden stage.edits := funext fun p => by
    have hlookup : p.lookup lower s = p.lookup lower s₀ := by
      rw [Planned.lookup, Planned.lookup, h.categoryLookup]
      simp only [h.channelLookup]
    have hitem (id : ℕ) (target : Target) (flag : Bool) :
        overwriteItem s id target flag = overwriteItem s₀ id target flag := funext fun o => by
      rw [overwriteItem, overwriteItem, h.overwriteRole]
    simp only [targetItems, hlookup, overwriteItems, hitem]
  rw [GateStage.items, GateStage.items, hrole, htarget]

end Items

/-! ### What looks hidden -/

theorem isEngineHidden_eq_true {state : ChannelState} {guildId : ℕ}
    (h : isEngineHidden state guildId = true) : ∃ only, state.overwrites = [only] ∧
      only.target = .role guildId ∧ only.allow = [] ∧ sortedUnique only.deny = [viewChannel] := by
  rw [isEngineHidden] at h
  split at h
  · rename_i only honly
    obtain ⟨htarget, hallow, hdeny⟩ := of_decide_eq_true h
    exact ⟨only, honly, htarget, hallow, hdeny⟩
  · cases h

theorem hiddenFlags_eq_true {s : GuildSnapshot} {id : ℕ} (h : hiddenFlags s id = true) :
    ∃ state, s.channelById id = some state ∧ isEngineHidden state s.guildId = true := by
  rw [hiddenFlags, Option.any_eq_true_iff_get] at h
  obtain ⟨hsome, h⟩ := h
  exact ⟨_, (Option.some_get hsome).symm, h⟩

section Flags

variable {lower : String → String} {s₀ : GuildSnapshot} {hidden : ℕ → Bool} {stage : GateStage}

theorem planned_eq_of_lookup (hids : s₀.UniqueIds) (hstage : stage.Valid lower) {p q : Planned}
    (hp : p ∈ planTargets stage.categories) (hq : q ∈ planTargets stage.categories) {a b id : ℕ}
    (hlookup : p.lookup lower s₀ = some (a, id)) (hlookup' : q.lookup lower s₀ = some (b, id)) :
    p = q :=
  List.inj_on_of_nodup_map hstage.targets_nodup hp hq (key_eq_of_lookup hids hlookup hlookup')

/-- A target that was not hidden and looks hidden now was given the marker, as the plan wants it. -/
theorem marker_of_hidden (hids : s₀.UniqueIds) (hbase : s₀.BaseRole) (hstage : stage.Valid lower)
    {e : Engine} (he : Traced lower stage.permits (stage.items lower s₀ (hiddenFlags s₀)) s₀ e)
    {p : Planned} (hp : p ∈ planTargets stage.categories) {categoryId id : ℕ}
    (hlookup : p.lookup lower s₀ = some (categoryId, id)) (hbefore : hiddenFlags s₀ id = false)
    (hafter : hiddenFlags e.guild.snapshot id = true) :
    Overwrite.hideMarker ∈ wantedOverwrites p.overwrites false := by
  obtain ⟨state', hstate', hhidden⟩ := hiddenFlags_eq_true hafter
  obtain ⟨only, honly, htarget, hallow, hdeny⟩ := isEngineHidden_eq_true hhidden
  rw [he.names.guildId] at htarget
  have hentry : state'.overwriteForRole s₀.guildId = some only := by
    rw [ChannelState.overwriteForRole, honly]
    exact List.find?_cons_of_pos (decide_eq_true htarget)
  rcases he.traced (.overwrite id s₀.guildId) with hagree | ⟨i, hi, haddress, hplaced, -⟩
  · -- the entry was there before, and alone: then it was hidden before
    have hagree : (e.guild.snapshot.channelById id).map (fun c => c.overwriteForRole s₀.guildId) =
        (s₀.channelById id).map fun c => c.overwriteForRole s₀.guildId := hagree
    rw [hstate', Option.map_some, eq_comm, Option.map_eq_some_iff] at hagree
    obtain ⟨state, hstate, heq⟩ := hagree
    obtain ⟨grown, hgrown, hprefix⟩ := he.grows id state hstate
    rw [hstate', Option.some.injEq] at hgrown
    subst hgrown
    rw [honly, List.map_singleton] at hprefix
    have hlen := hprefix.length_le
    rw [List.length_map, List.length_singleton] at hlen
    rw [hentry, ChannelState.overwriteForRole] at heq
    have hmem := List.mem_of_find?_eq_some heq
    have hstateOnly : state.overwrites = [only] := by
      rcases hoverwrites : state.overwrites with _ | ⟨other, _ | ⟨another, rest⟩⟩
      · rw [hoverwrites] at hmem; exact (List.not_mem_nil hmem).elim
      · rw [hoverwrites, List.mem_singleton] at hmem; rw [hmem]
      · rw [hoverwrites] at hlen; simp at hlen
    have hflag : hiddenFlags s₀ id = true := by
      rw [hiddenFlags, hstate, Option.any_some, isEngineHidden, hstateOnly]
      exact decide_eq_true ⟨htarget, hallow, hdeny⟩
    rw [hflag] at hbefore
    cases hbefore
  · -- the entry was written, for `@everyone` and this target
    obtain ⟨q, hq, c, hlookup', o, ho, hrole, rfl⟩ := overwrite_of_address hi haddress
    obtain rfl := planned_eq_of_lookup hids hstage hp hq hlookup hlookup'
    obtain ⟨placed, hplacedState, hplacedEntry⟩ := hplaced
    rw [hstate', Option.some.injEq] at hplacedState
    subst hplacedState
    rw [hentry, Option.some.injEq] at hplacedEntry
    subst hplacedEntry
    have heveryone : o.role = everyoneName := by
      rcases overwriteRole_eq_ok hrole with ⟨h, -⟩ | ⟨hne, hfound⟩
      · exact h
      · exact absurd rfl (ne_guildId_of_roleLookup hbase hne hfound)
    rw [hbefore] at ho
    have hnormal := normalized_of_wanted ho
    have hdeny' : o.deny = [viewChannel] := by
      rw [← hnormal]
      exact hdeny
    have hmarker : o = Overwrite.hideMarker := by
      obtain ⟨role, allow, deny⟩ := o
      simp only at heveryone hallow hdeny'
      rw [heveryone, hallow, hdeny']
      rfl
    exact hmarker ▸ ho

theorem permits_of_false (hstage : stage.Valid lower) {current : Option Overwrite} {o : Overwrite}
    (h : stage.permits current o false = true) : stage.permits current o true = true := by
  rcases hstage.permits_eq with heq | heq
  · rw [heq, revealPermits] at h ⊢
    split_ifs at h ⊢ <;> simp_all
  · rw [heq]
    rfl

/-- For a role, or where the view is denied, it does not matter what the engine has hidden. -/
theorem permits_flag (hstage : stage.Valid lower) {current : Option Overwrite} {o : Overwrite}
    (ho : o.role ≠ everyoneName ∨ o.deniesView = true) (flag : Bool) :
    stage.permits current o flag = stage.permits current o false := by
  rcases hstage.permits_eq with heq | heq
  · rw [heq, revealPermits, revealPermits]
    rcases ho with ho | ho
    · rw [if_pos ho, if_pos ho]
    · simp [ho]
  · rw [heq]
    rfl

theorem compareOverwrite_eq_none {target : Target} {permits : Permits} {flag : Bool} {o : Overwrite}
    {current : Option Overwrite} :
    (compareOverwrite target permits flag o current).changes.head? = none ↔
      (current = some o ∨ current = none ∧ o.isEmpty = true) ∨ permits current o flag = false := by
  rw [compareOverwrite]
  split_ifs with hcurrent hpermits
  · exact ⟨fun _ => .inl hcurrent, fun _ => rfl⟩
  · refine ⟨fun h => (by cases h), fun h => ?_⟩
    rcases h with h | h
    · exact absurd h hcurrent
    · rw [hpermits] at h
      cases h
  · exact ⟨fun _ => .inr (Bool.eq_false_iff.mpr hpermits), fun _ => rfl⟩

theorem cell_overwrite_eq_none {permits : Permits} {s : GuildSnapshot} {id roleId : ℕ}
    {target : Target} {o : Overwrite} {flag : Bool} :
    (GateItem.overwrite id roleId target o flag).cell permits s = none ↔
      ∀ state, s.channelById id = some state →
        (compareOverwrite target permits flag o
          ((state.overwriteForRole roleId).map (currentOverwrite o.role))).changes.head? = none := by
  rw [GateItem.cell, Option.bind_eq_none_iff]

/-- Where nothing is missing for a target that was hidden, nothing is missing once it is not. -/
theorem cell_false_of_true (hstage : stage.Valid lower) {s : GuildSnapshot} {id roleId : ℕ}
    {target : Target} {o : Overwrite}
    (h : (GateItem.overwrite id roleId target o true).cell stage.permits s = none) :
    (GateItem.overwrite id roleId target o false).cell stage.permits s = none := by
  rw [cell_overwrite_eq_none] at h ⊢
  intro state hstate
  have hnone := h state hstate
  rw [compareOverwrite_eq_none] at hnone ⊢
  refine hnone.imp_right fun hdenied => ?_
  by_contra hpermits
  rw [permits_of_false hstage (Bool.eq_true_of_not_eq_false hpermits)] at hdenied
  cases hdenied

theorem cell_flag (hstage : stage.Valid lower) {s : GuildSnapshot} {id roleId : ℕ}
    {target : Target} {o : Overwrite} (ho : o.role ≠ everyoneName ∨ o.deniesView = true)
    (flag : Bool) : (GateItem.overwrite id roleId target o flag).cell stage.permits s =
      (GateItem.overwrite id roleId target o false).cell stage.permits s := by
  simp only [GateItem.cell, compareOverwrite, permits_flag hstage ho flag]

/-- Where the marker is planned, nothing else is wanted of a hidden target. -/
theorem wantedOverwrites_of_marker {planned : List Overwrite}
    (hmarker : Overwrite.hideMarker ∈ wantedOverwrites planned false) :
    wantedOverwrites planned true = wantedOverwrites planned false := by
  have hany : (planned.map Overwrite.normalized).any (·.role == everyoneName) = true := by
    rw [wantedOverwrites, Bool.and_false, if_neg Bool.false_ne_true] at hmarker
    exact List.any_eq_true.mpr ⟨_, hmarker, rfl⟩
  rw [wantedOverwrites, wantedOverwrites]
  simp only [hany, Bool.not_true, Bool.false_and, Bool.false_eq_true, if_false]

/-- Where the marker is planned, what the engine has hidden makes no difference. -/
theorem wanted_of_marker {planned : List Overwrite}
    (hnodup : (planned.map Overwrite.role).Nodup)
    (hmarker : Overwrite.hideMarker ∈ wantedOverwrites planned false) {o : Overwrite}
    (ho : o ∈ wantedOverwrites planned true) : o ∈ wantedOverwrites planned false ∧
      (o.role ≠ everyoneName ∨ o.deniesView = true) := by
  rw [wantedOverwrites_of_marker hmarker] at ho
  refine ⟨ho, ?_⟩
  by_cases hrole : o.role = everyoneName
  · have heq : o = Overwrite.hideMarker :=
      List.inj_on_of_nodup_map (wanted_nodup hnodup false) ho hmarker hrole
    rw [heq]
    exact .inr (by decide)
  · exact .inl hrole

/-- **What the items of the start are not missing, the items of the end are not missing.** -/
theorem settled_of_settled (hids : s₀.UniqueIds) (hbase : s₀.BaseRole) (hstage : stage.Valid lower)
    {e : Engine} (he : Traced lower stage.permits (stage.items lower s₀ (hiddenFlags s₀)) s₀ e)
    (hnil : pending (GateItem.cell stage.permits) (stage.items lower s₀ (hiddenFlags s₀))
      e.guild.snapshot = []) :
    pending (GateItem.cell stage.permits)
      (stage.items lower e.guild.snapshot (hiddenFlags e.guild.snapshot)) e.guild.snapshot = [] := by
  rw [items_congr he.names, pending_eq_nil]
  rw [pending_eq_nil] at hnil
  intro i hi
  rcases mem_items.mp hi with hrole | ⟨p, hp, hitem⟩
  · exact hnil i (mem_items.mpr (.inl hrole))
  obtain ⟨categoryId, id, hlookup, ⟨channel, -, rfl⟩ | ⟨o, ho, roleId, hrole, rfl⟩⟩ :=
    mem_targetItems hitem
  · exact hnil _ (mem_items_of_ne_overwrite hi fun _ _ _ _ _ h => by cases h)
  have hsettled : o ∈ wantedOverwrites p.overwrites (hiddenFlags s₀ id) →
      (GateItem.overwrite id roleId p.target o (hiddenFlags s₀ id)).cell stage.permits
        e.guild.snapshot = none := fun ho =>
    hnil _ (mem_items.mpr (.inr ⟨p, hp, overwrite_mem_targetItems hlookup ho hrole⟩))
  cases hbefore : hiddenFlags s₀ id with
  | true =>
    rw [hbefore] at hsettled
    cases hafter : hiddenFlags e.guild.snapshot id with
    | true => exact hsettled (hafter ▸ ho)
    | false => exact cell_false_of_true hstage (hsettled (mem_wanted_true (hafter ▸ ho)))
  | false =>
    rw [hbefore] at hsettled
    cases hafter : hiddenFlags e.guild.snapshot id with
    | false => exact hsettled (hafter ▸ ho)
    | true =>
      have hmarker := marker_of_hidden hids hbase hstage he hp hlookup hbefore hafter
      obtain ⟨ho', hfree⟩ := wanted_of_marker (hstage.overwrites_nodup p hp) hmarker (hafter ▸ ho)
      rw [cell_flag hstage hfree]
      exact hsettled ho'

end Flags

/-! ### Clear reports -/

section Clear

variable {lower : String → String} {plan : Plan} {s : GuildSnapshot} {scope : Scope}

theorem blockers_of_clear (h : (diff lower plan s scope).isClear = true) :
    (stageFindings lower plan s scope).blockers = [] ∧
      checkBotCapability s (stageFindings lower plan s scope).changes = [] :=
  List.append_eq_nil_iff.mp (List.isEmpty_iff.mp h)

theorem changes_of_additive (h : scope.stage = .additive) :
    (diff lower plan s scope).changes = pending (AdditiveItem.cell lower) (additiveItems plan) s := by
  rw [← @additive_changes lower plan s]
  change (stageFindings lower plan s scope).changes = _
  rw [stageFindings]
  simp only [h]

/-- A clear report is of the additive stage or of a gate stage. -/
theorem stage_of_clear (h : (diff lower plan s scope).isClear = true) :
    scope.stage = .additive ∨ ∃ stage, gateStage plan scope = some stage := by
  have hblockers := (blockers_of_clear h).1
  rw [stageFindings] at hblockers
  rw [gateStage]
  cases hstage : scope.stage with
  | additive => exact .inl rfl
  | reveal => exact .inr ⟨_, rfl⟩
  | overwrites =>
    simp only [hstage] at hblockers
    cases hcategory : scope.category with
    | none =>
      simp only [hcategory] at hblockers
      cases hblockers
    | some name =>
      simp only [hcategory] at hblockers
      cases hplan : plan.category name with
      | none =>
        rw [overwrites, hplan] at hblockers
        cases hblockers
      | some category =>
        refine .inr ⟨⟨[], [category], false, alwaysPermits⟩, ?_⟩
        simp only [Option.bind_some, hplan, Option.map_some]

/-- A clear comparison has found everything that is planned once or not at all. -/
theorem additiveInv_start (hstage : scope.stage = .additive)
    (h : (diff lower plan s scope).isClear = true) :
    AdditiveInv lower plan s (Engine.start lower s) := by
  have hblockers := (blockers_of_clear h).1
  rw [stageFindings] at hblockers
  simp only [hstage, additive, Findings.blockers_append, Findings.blockers_collect,
    List.append_eq_nil_iff, List.flatMap_eq_nil_iff] at hblockers
  obtain ⟨hroles, hcategories⟩ := hblockers
  refine ⟨rfl, rfl, rfl, rfl, fun role hrole => ?_, fun p hp => ?_⟩
  · have hnone := hroles role hrole
    rw [additiveRole] at hnone
    cases hlookup : roleLookup s role.name with
    | missing => exact .inl hlookup
    | found id => exact .inr ⟨id, hlookup⟩
    | managed => rw [hlookup] at hnone; cases hnone
    | ambiguous count => rw [hlookup] at hnone; cases hnone
  · obtain ⟨hcategory, hchannels⟩ := mem_planTargets.mp hp
    have hnone := hcategories p.category hcategory
    rw [additiveCategory, Findings.blockers_append, Findings.blockers_collect,
      List.append_eq_nil_iff, List.flatMap_eq_nil_iff] at hnone
    obtain ⟨category, channel⟩ := p
    cases channel with
    | none =>
      have hnone := hnone.1
      rw [missingCategory] at hnone
      change categoryLookup s category.name = _ ∧ categoryLookup s category.name = _ ∨
        ∃ id, categoryLookup s category.name = _
      cases hlookup : categoryLookup s category.name with
      | missing => exact .inl ⟨rfl, rfl⟩
      | found id => exact .inr ⟨id, rfl⟩
      | ambiguous count => simp only [hlookup] at hnone; cases hnone
    | some channel =>
      have hnone := hnone.2 channel (hchannels channel rfl)
      rw [additiveChannel] at hnone
      change channelLookup lower s channel = _ ∧ channelLookup lower s channel = _ ∨
        ∃ id, channelLookup lower s channel = _
      cases hlookup : channelLookup lower s channel with
      | missing => exact .inl ⟨rfl, rfl⟩
      | found id => exact .inr ⟨id, rfl⟩
      | ambiguous count => simp only [hlookup] at hnone; cases hnone

/-- A run that goes through is what `apply` does to a guild that does not fail. -/
theorem apply_of_run {e : Engine} {changes : List Change}
    (hrun : run (Engine.step lower) (Engine.start lower s) changes = some e) :
    apply lower (FakeGuild.perform lower) changes s (FakeGuild.new s) =
      (⟨changes, none, []⟩, ⟨e.guild, none, changes.length⟩) := by
  have h := Engine.applyFrom_run hrun (FakeGuild.new s) rfl
    (fun _ h => absurd h (Option.some_ne_none _).symm)
  rw [show (FakeGuild.new s).performed + changes.length = changes.length from Nat.zero_add _] at h
  exact h

end Clear

/-- **A rollout converges**: the changes of a clear report are all applied, and the same comparison
of the guild that results has nothing to change. -/
theorem apply_converges (lower : String → String) (plan : Plan) (snapshot : GuildSnapshot)
    (scope : Scope) (hvalid : plan.validate lower = .ok ()) (hids : snapshot.UniqueIds)
    (hbase : snapshot.BaseRole) (hclear : (diff lower plan snapshot scope).isClear = true) :
    let changes := (diff lower plan snapshot scope).changes
    let (outcome, guild) := apply lower (FakeGuild.perform lower) changes snapshot
      (FakeGuild.new snapshot)
    outcome = ⟨changes, none, []⟩ ∧ (diff lower plan guild.snapshot scope).changes = [] := by
  have hplan := Plan.valid_of_validate hvalid
  rcases stage_of_clear hclear with hstage | ⟨stage, hstage⟩
  · obtain ⟨e, hrun, -, hnil⟩ :=
      (additive_settles hplan snapshot).run_all (additiveInv_start hstage hclear)
    have hchanges : (diff lower plan snapshot scope).changes = _ := changes_of_additive hstage
    simp only [apply_of_run (hchanges ▸ hrun)]
    exact ⟨trivial, (changes_of_additive hstage).trans hnil⟩
  · have hvalidStage := gateStage_valid hplan hstage
    obtain ⟨e, hrun, htraced, hnil⟩ :=
      (gate_settles hids hbase hvalidStage (hiddenFlags snapshot)).run_all (traced_start _ _ snapshot)
    have hchanges : (diff lower plan snapshot scope).changes = _ := changes_eq_pending hstage
    simp only [apply_of_run (hchanges ▸ hrun)]
    exact ⟨trivial, (changes_eq_pending hstage).trans
      (settled_of_settled hids hbase hvalidStage htraced hnil)⟩

/-! ### A guild to be revealed -/

/-- A category with a public channel and one for the role `t`. -/
def teamPlan : Plan :=
  { name := "p", everyone := [], roles := [⟨"t", false, false, none, []⟩]
    categories := [⟨"c", [], [⟨"g", .text, none, none, [], []⟩,
      ⟨"s", .text, some "x", none, [],
        [⟨everyoneName, [], [viewChannel]⟩, ⟨"t", [viewChannel], []⟩]⟩]⟩] }

/-- What the additive stage leaves of `teamPlan`: everything is hidden. -/
def hiddenGuild : GuildSnapshot :=
  let marker := [⟨.role 1, [], [viewChannel]⟩]
  { guildId := 1, features := []
    roles := [⟨1, everyoneName, 0, false, false, false, 0, []⟩,
      ⟨2, "b", 5, true, false, false, 0, ["Administrator"]⟩,
      ⟨3, "t", 1, false, false, false, 0, []⟩]
    channels := [⟨4, "c", .category, none, none, marker⟩, ⟨5, "g", .kind .text, some 4, none, marker⟩,
      ⟨6, "s", .kind .text, some 4, none, marker⟩]
    bot := ⟨9, [2]⟩ }

theorem hiddenGuild_uniqueIds : hiddenGuild.UniqueIds := ⟨by decide, by decide⟩

theorem hiddenGuild_baseRole : hiddenGuild.BaseRole := by
  unfold GuildSnapshot.BaseRole
  decide

set_option maxRecDepth 20000 in
theorem teamPlan_converges :
    let changes := (diff asciiLower teamPlan hiddenGuild ⟨.reveal, none⟩).changes
    let (outcome, guild) := apply asciiLower (FakeGuild.perform asciiLower) changes hiddenGuild
      (FakeGuild.new hiddenGuild)
    outcome = ⟨changes, none, []⟩ ∧
      (diff asciiLower teamPlan guild.snapshot ⟨.reveal, none⟩).changes = [] :=
  apply_converges asciiLower teamPlan hiddenGuild ⟨.reveal, none⟩ (by decide) hiddenGuild_uniqueIds
    hiddenGuild_baseRole (by decide)

end AbbeyBot.Server
