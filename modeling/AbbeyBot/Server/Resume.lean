import Mathlib
import AbbeyBot.Server.Reached

/-! # Resuming an interrupted rollout

A run that stops at a failure leaves a guild that is compared anew. The comparison is clear again, and
it lists what was left of the changes, unless the run has stopped between two overwrites of a target
the engine had hidden: after the first of them the target does not look hidden any more, and the
opening that was still to come is not listed. -/

namespace AbbeyBot.Server

open AbbeyBot.Library.OrderedMap AbbeyBot.Library.Worklist

/-! ### Interrupted runs -/

section Definitions

variable (lower : String → String) (plan : Plan) (snapshot : GuildSnapshot) (scope : Scope)

/-- The guild after the changes of its report have been applied. -/
def completed : GuildSnapshot :=
  (apply lower (FakeGuild.perform lower) (diff lower plan snapshot scope).changes snapshot
    (FakeGuild.new snapshot)).2.snapshot

/-- The guild after its operation `k` has failed. -/
def interrupted (k : ℕ) : GuildSnapshot :=
  (apply lower (FakeGuild.perform lower) (diff lower plan snapshot scope).changes snapshot
    ⟨Guild.new snapshot, some k, 0⟩).2.snapshot

/-- `@everyone` is denied the view of the channel. -/
def hidesView (s : GuildSnapshot) (id : ℕ) : Bool :=
  (s.channelById id).any fun state => (state.overwriteForRole s.guildId).any fun o =>
    o.deny.any (· == viewChannel)

/-- The rollout can be taken up after a failure of operation `k`: the comparison is clear, its changes
lead where the uninterrupted run leads, and nothing stays hidden that would have been revealed. -/
structure Resumes (k : ℕ) : Prop where
  clear : (diff lower plan (interrupted lower plan snapshot scope k) scope).isClear = true
  same : completed lower plan (interrupted lower plan snapshot scope k) scope =
    completed lower plan snapshot scope
  revealed : ∀ id, hidesView (completed lower plan snapshot scope) id = false →
    hidesView (completed lower plan (interrupted lower plan snapshot scope k) scope) id = false

/-- Whether the overwrite lands depends on whether the engine has hidden its target. Where the plan
has an entry for `@everyone`, only revealing depends on that. -/
def Opens (p : Planned) (o : Overwrite) : Prop :=
  o.role = everyoneName ∧ o.deniesView = false ∧
    (scope.stage = .reveal ∨ ∀ other ∈ p.overwrites, other.role ≠ everyoneName)

/-- The run stops between two overwrites of a hidden target, and a later one opens it. -/
def CutsOpening (k : ℕ) : Prop :=
  ∃ stage, gateStage plan scope = some stage ∧ ∃ p ∈ planTargets stage.categories,
    (∃ categoryId id, p.lookup lower snapshot = some (categoryId, id) ∧
      hiddenFlags snapshot id = true) ∧
    (∃ o, .setOverwrite p.target o ∈ (diff lower plan snapshot scope).changes.take k) ∧
    ∃ o, Opens scope p o ∧
      .setOverwrite p.target o ∈ (diff lower plan snapshot scope).changes.drop k

end Definitions

section Runs

variable {lower : String → String} {plan : Plan} {s : GuildSnapshot} {scope : Scope}

theorem completed_of_run {e : Engine}
    (hrun : run (Engine.step lower) (Engine.start lower s) (diff lower plan s scope).changes = some e) :
    completed lower plan s scope = e.guild.snapshot := by
  rw [completed, apply_of_run hrun]

/-- Where the run has come to when it fails. -/
theorem interrupted_of_run {e : Engine} {k : ℕ}
    (hrun : run (Engine.step lower) (Engine.start lower s)
      ((diff lower plan s scope).changes.take k) = some e) :
    interrupted lower plan s scope k = e.guild.snapshot := by
  have hsplit := Engine.applyFrom_append hrun ((diff lower plan s scope).changes.drop k)
    ⟨Guild.new s, some k, 0⟩ rfl (fun n hn => by
      cases hn
      have := List.length_take_le k (diff lower plan s scope).changes
      simp only
      omega)
  rw [List.take_append_drop] at hsplit
  have hinterrupted : interrupted lower plan s scope k =
      (applyFrom lower (FakeGuild.perform lower) (Engine.start lower s).index
        ⟨Guild.new s, some k, 0⟩ (diff lower plan s scope).changes).2.snapshot := rfl
  rw [hinterrupted, hsplit]
  simp only
  cases hdrop : (diff lower plan s scope).changes.drop k with
  | nil => rfl
  | cons change rest =>
    rw [applyFrom]
    cases e.index.resolve lower change with
    | error reason => rfl
    | ok op =>
      have hk : k ≤ (diff lower plan s scope).changes.length := by
        by_contra hlt
        rw [List.drop_eq_nil_of_le (by omega)] at hdrop
        cases hdrop
      have hfail : 0 + ((diff lower plan s scope).changes.take k).length = k := by
        rw [List.length_take_of_le hk, Nat.zero_add]
      simp only [FakeGuild.perform, hfail, if_true]

/-- Where exactly the rest of the changes is left to do, the run can be taken up. -/
theorem resumes_of_drop {e last : Engine} {k : ℕ}
    (hrun : run (Engine.step lower) (Engine.start lower s)
      ((diff lower plan s scope).changes.take k) = some e)
    (hstart : e = Engine.start lower e.guild.snapshot)
    (hall : run (Engine.step lower) (Engine.start lower s) (diff lower plan s scope).changes =
      some last)
    (hclear : (diff lower plan s scope).isClear = true)
    (hblockers : (stageFindings lower plan e.guild.snapshot scope).blockers = [])
    (hpermissions : e.guild.snapshot.botPermissions = s.botPermissions)
    (hdrop : (diff lower plan e.guild.snapshot scope).changes =
      (diff lower plan s scope).changes.drop k) : Resumes lower plan s scope k := by
  have hsame : completed lower plan e.guild.snapshot scope = completed lower plan s scope := by
    rw [completed_of_run hall]
    refine completed_of_run ?_
    rw [← hstart, hdrop]
    rw [← List.take_append_drop k (diff lower plan s scope).changes, run_append, hrun] at hall
    exact hall
  rw [← interrupted_of_run hrun] at hsame hblockers hpermissions hdrop
  refine ⟨List.isEmpty_iff.mpr (List.append_eq_nil_iff.mpr ⟨hblockers, ?_⟩), hsame,
    fun id hid => hsame ▸ hid⟩
  rw [checkBotCapability_congr hpermissions]
  refine checkBotCapability_mono ?_ (blockers_of_clear hclear).2
  have hsub := List.drop_subset k (diff lower plan s scope).changes
  rwa [← hdrop] at hsub

/-- The additive stage can always be taken up. -/
theorem resumes_additive (hplan : plan.Valid lower) (hstage : scope.stage = .additive)
    (hclear : (diff lower plan s scope).isClear = true) (k : ℕ) :
    Resumes lower plan s scope k := by
  have hchanges : (diff lower plan s scope).changes = _ := changes_of_additive hstage
  have hstart := additiveInv_start hstage hclear
  obtain ⟨e, hrun, he, hdrop⟩ := (additive_settles hplan s).run_take k hstart
  obtain ⟨last, hall, -, -⟩ := (additive_settles hplan s).run_all hstart
  have hadditive (t : GuildSnapshot) : stageFindings lower plan t scope = additive lower plan t := by
    rw [stageFindings]
    simp only [hstage]
  have hblockers := (blockers_of_clear hclear).1
  rw [hadditive] at hblockers
  refine resumes_of_drop (hchanges ▸ hrun) he.start (hchanges ▸ hall) hclear ?_ he.permissions ?_
  · rw [hadditive]
    exact additive_clear he hblockers
  · rw [changes_of_additive hstage, hchanges]
    exact hdrop

end Runs

/-! ### Runs that cut nothing -/

section Flags

variable {lower : String → String} {plan : Plan} {scope : Scope} {stage : GateStage}

theorem permits_of_gateStage (h : gateStage plan scope = some stage) :
    scope.stage = .reveal ∧ stage.permits = revealPermits ∨
      scope.stage ≠ .reveal ∧ stage.permits = alwaysPermits := by
  rw [gateStage] at h
  cases hscope : scope.stage with
  | additive => simp only [hscope] at h; cases h
  | reveal =>
    simp only [hscope, Option.some.injEq] at h
    exact .inl ⟨rfl, h ▸ rfl⟩
  | overwrites =>
    simp only [hscope, Option.map_eq_some_iff] at h
    obtain ⟨category, -, rfl⟩ := h
    exact .inr ⟨Stage.noConfusion, rfl⟩

/-- What does not open its target lands whether or not the engine has hidden the target. -/
theorem cell_of_not_opens (hstage : gateStage plan scope = some stage) (hvalid : stage.Valid lower)
    {p : Planned} {o : Overwrite} (ho : ¬ Opens scope p o) (id roleId : ℕ) (s : GuildSnapshot) :
    (GateItem.overwrite id roleId p.target o true).cell stage.permits s =
      (GateItem.overwrite id roleId p.target o false).cell stage.permits s := by
  by_cases hfree : o.role ≠ everyoneName ∨ o.deniesView = true
  · exact cell_flag hvalid hfree true
  · rw [not_or, not_not, Bool.not_eq_true] at hfree
    rcases permits_of_gateStage hstage with ⟨hreveal, -⟩ | ⟨-, hpermits⟩
    · exact absurd ⟨hfree.1, hfree.2, .inl hreveal⟩ ho
    · rw [hpermits]
      rfl

theorem hiddenFlags_congr {s t : GuildSnapshot} (hguild : t.guildId = s.guildId) {id : ℕ}
    (h : (t.channelById id).map ChannelState.overwrites =
      (s.channelById id).map ChannelState.overwrites) : hiddenFlags t id = hiddenFlags s id := by
  have hflag (s : GuildSnapshot) : hiddenFlags s id =
      ((s.channelById id).map ChannelState.overwrites).any fun overwrites =>
        isEngineHidden ⟨0, "", .other, none, none, overwrites⟩ s.guildId := by
    rw [hiddenFlags, Option.any_map]
    rfl
  rw [hflag t, hflag s, h, hguild]

/-- What one overwrite of a target is missing, before its role is looked up. -/
def missing (permits : Permits) (s t : GuildSnapshot) (id : ℕ) (p : Planned) (flag : Bool)
    (o : Overwrite) : Option Change :=
  (overwriteItem s id p.target flag o).bind fun i => i.cell permits t

theorem pending_overwriteItems (permits : Permits) (s t : GuildSnapshot) (hidden : ℕ → Bool)
    (id : ℕ) (p : Planned) : pending (GateItem.cell permits) (overwriteItems s hidden id p) t =
      (wantedOverwrites p.overwrites (hidden id)).filterMap (missing permits s t id p (hidden id)) := by
  rw [pending, overwriteItems, List.filterMap_filterMap]
  rfl

namespace Reached

variable {s₀ : GuildSnapshot} {k : ℕ} {e : Engine} (h : Reached lower plan s₀ scope stage k e)

include h in
/-- Where a hidden target does not look hidden any more and an opening of it is still missing, the run
has been cut. -/
theorem cutsOpening {p : Planned} (hp : p ∈ planTargets stage.categories) {categoryId id : ℕ}
    (hlookup : p.lookup lower s₀ = some (categoryId, id)) (hbefore : hiddenFlags s₀ id = true)
    (hafter : hiddenFlags e.guild.snapshot id = false) {o : Overwrite} (hopens : Opens scope p o)
    (ho : o ∈ wantedOverwrites p.overwrites true) {change : Change}
    (hmissing : missing stage.permits s₀ e.guild.snapshot id p true o = some change) :
    CutsOpening lower plan s₀ scope k := by
  refine ⟨stage, h.isStage, p, hp, ⟨categoryId, id, hlookup, hbefore⟩, ?_, o, hopens, ?_⟩
  · rcases h.traced.overwrites id with hsame | ⟨j, hj, roleId, haddress, hplaced, hcell⟩
    · rw [hiddenFlags_congr h.traced.names.guildId hsame, hbefore] at hafter
      cases hafter
    · obtain ⟨written, hwritten⟩ := Option.ne_none_iff_exists'.mp hcell
      have hmem := h.take_of_placed hj haddress hplaced hwritten
      have hmakes := makes_of_cell (items_sound h.valid hj) hwritten
      obtain ⟨q, hq, _, hlookup', o', -, -, rfl⟩ := overwrite_of_address hj haddress
      obtain rfl := planned_eq_of_lookup h.ids h.valid hp hq hlookup hlookup'
      exact ⟨o', hmakes ▸ hmem⟩
  · obtain ⟨i, hitem, hc⟩ := Option.bind_eq_some_iff.mp hmissing
    obtain ⟨roleId, hrole, rfl⟩ := overwriteItem_eq_some hitem
    have hi : GateItem.overwrite id roleId p.target o true ∈
        stage.items lower s₀ (hiddenFlags s₀) := by
      rw [← hbefore] at ho ⊢
      exact mem_items.mpr (.inr ⟨p, hp, overwrite_mem_targetItems hlookup ho hrole⟩)
    have hmakes : change = .setOverwrite p.target o := makes_of_cell (items_sound h.valid hi) hc
    rw [← h.rest, ← hmakes]
    exact mem_pending.mpr ⟨_, hi, hc⟩

include h in
/-- For a target that was hidden and does not look hidden any more, the same is missing. -/
theorem missing_of_shown (hcut : ¬ CutsOpening lower plan s₀ scope k) {p : Planned}
    (hp : p ∈ planTargets stage.categories) {categoryId id : ℕ}
    (hlookup : p.lookup lower s₀ = some (categoryId, id)) (hbefore : hiddenFlags s₀ id = true)
    (hafter : hiddenFlags e.guild.snapshot id = false) :
    (wantedOverwrites p.overwrites false).filterMap
        (missing stage.permits s₀ e.guild.snapshot id p false) =
      (wantedOverwrites p.overwrites true).filterMap
        (missing stage.permits s₀ e.guild.snapshot id p true) := by
  have hopening {o : Overwrite} (ho : o ∈ wantedOverwrites p.overwrites true)
      (hopens : Opens scope p o) : missing stage.permits s₀ e.guild.snapshot id p true o = none := by
    rw [Option.eq_none_iff_forall_ne_some]
    exact fun change hchange => hcut (h.cutsOpening hp hlookup hbefore hafter hopens ho hchange)
  have hsame {o : Overwrite} (ho : o ∈ wantedOverwrites p.overwrites true) :
      missing stage.permits s₀ e.guild.snapshot id p false o =
        missing stage.permits s₀ e.guild.snapshot id p true o := by
    by_cases hopens : Opens scope p o
    · have hnone := hopening ho hopens
      rw [hnone]
      rw [missing, overwriteItem] at hnone ⊢
      cases hrole : overwriteRole s₀ p.target o.role with
      | error blocker => rfl
      | ok roleId =>
        simp only [hrole, Option.bind_some] at hnone ⊢
        exact cell_false_of_true h.valid hnone
    · rw [missing, missing, overwriteItem, overwriteItem]
      cases overwriteRole s₀ p.target o.role with
      | error blocker => rfl
      | ok roleId => exact (cell_of_not_opens h.isStage h.valid hopens id roleId _).symm
  have hwanted : wantedOverwrites p.overwrites false = p.overwrites.map Overwrite.normalized := by
    rw [wantedOverwrites, Bool.and_false, if_neg Bool.false_ne_true]
  by_cases heveryone : (p.overwrites.map Overwrite.normalized).any (·.role == everyoneName) = true
  · have htrue : wantedOverwrites p.overwrites true = p.overwrites.map Overwrite.normalized := by
      rw [wantedOverwrites, Bool.and_true, heveryone]
      rfl
    rw [htrue] at hsame ⊢
    rw [hwanted]
    exact List.filterMap_congr fun o ho => hsame ho
  · -- the marker that is to be cleared comes last, and opens the target
    have htrue : wantedOverwrites p.overwrites true =
        p.overwrites.map Overwrite.normalized ++ [⟨everyoneName, [], []⟩] := by
      rw [wantedOverwrites, Bool.and_true, Bool.eq_false_iff.mpr heveryone]
      rfl
    have hclear : Opens scope p ⟨everyoneName, [], []⟩ := by
      refine ⟨rfl, by decide, .inr fun other hother heq => heveryone ?_⟩
      exact List.any_eq_true.mpr ⟨_, List.mem_map_of_mem hother, beq_iff_eq.mpr heq⟩
    rw [htrue] at hsame hopening ⊢
    rw [hwanted, List.filterMap_append, List.filterMap_cons_none
      (hopening (List.mem_append_right _ (List.mem_singleton_self _)) hclear), List.filterMap_nil,
      List.append_nil]
    exact List.filterMap_congr fun o ho => hsame (List.mem_append_left _ ho)

include h in
/-- For a target that was not hidden and looks hidden now, the same is missing. -/
theorem missing_of_marked {p : Planned} (hp : p ∈ planTargets stage.categories)
    {categoryId id : ℕ} (hlookup : p.lookup lower s₀ = some (categoryId, id))
    (hbefore : hiddenFlags s₀ id = false) (hafter : hiddenFlags e.guild.snapshot id = true) :
    (wantedOverwrites p.overwrites true).filterMap
        (missing stage.permits s₀ e.guild.snapshot id p true) =
      (wantedOverwrites p.overwrites false).filterMap
        (missing stage.permits s₀ e.guild.snapshot id p false) := by
  have hmarker := marker_of_hidden h.ids h.base h.valid h.traced hp hlookup hbefore hafter
  have hnodup := h.valid.overwrites_nodup p hp
  rw [wantedOverwrites_of_marker hmarker]
  refine List.filterMap_congr fun o ho => ?_
  have hfree := (wanted_of_marker hnodup hmarker (mem_wanted_true ho)).2
  rw [missing, missing, overwriteItem, overwriteItem]
  cases overwriteRole s₀ p.target o.role with
  | error blocker => rfl
  | ok roleId => exact cell_flag h.valid hfree true

include h in
/-- **Where the run has cut nothing, comparing anew gives exactly the rest of the changes.** -/
theorem changes_eq_drop (hcut : ¬ CutsOpening lower plan s₀ scope k) :
    (diff lower plan e.guild.snapshot scope).changes =
      (diff lower plan s₀ scope).changes.drop k := by
  rw [changes_eq_pending h.isStage, items_congr h.traced.names, ← h.rest, GateStage.items,
    GateStage.items, pending, pending, List.filterMap_append, List.filterMap_append,
    List.filterMap_flatMap, List.filterMap_flatMap]
  refine congrArg (_ ++ ·) (List.flatMap_congr fun p hp => ?_)
  rw [targetItems, targetItems]
  cases hlookup : p.lookup lower s₀ with
  | none => rfl
  | some ids =>
    simp only [List.filterMap_append]
    refine congrArg (_ ++ ·) ?_
    refine (pending_overwriteItems _ _ _ _ _ _).trans (Eq.trans ?_
      (pending_overwriteItems _ _ _ _ _ _).symm)
    cases hbefore : hiddenFlags s₀ ids.2 <;> cases hafter : hiddenFlags e.guild.snapshot ids.2
    · rfl
    · exact h.missing_of_marked hp hlookup hbefore hafter
    · exact h.missing_of_shown hcut hp hlookup hbefore hafter
    · rfl

end Reached

end Flags

/-! ### Runs that cut an opening -/

section Cut

variable {lower : String → String} {plan : Plan} {scope : Scope} {stage : GateStage}
  {s₀ : GuildSnapshot} {k : ℕ} {e : Engine}

theorem hidesView_of_entry {s : GuildSnapshot} {id : ℕ} {state : ChannelState}
    (hstate : s.channelById id = some state) {entry : OverwriteState}
    (hentry : state.overwriteForRole s.guildId = some entry) :
    hidesView s id = entry.deny.any (· == viewChannel) := by
  rw [hidesView, hstate, Option.any_some, hentry, Option.any_some]

/-- A channel the engine has hidden has one entry, for `@everyone`, that denies the view. -/
theorem entry_of_hidden {s : GuildSnapshot} {id : ℕ} (h : hiddenFlags s id = true) :
    ∃ state only, s.channelById id = some state ∧ state.overwrites = [only] ∧
      state.overwriteForRole s.guildId = some only ∧
      only.deny.any (· == viewChannel) = true := by
  obtain ⟨state, hstate, hhidden⟩ := hiddenFlags_eq_true h
  obtain ⟨only, honly, htarget, -, hdeny⟩ := isEngineHidden_eq_true hhidden
  refine ⟨state, only, hstate, honly, ?_, ?_⟩
  · rw [ChannelState.overwriteForRole, honly]
    exact List.find?_cons_of_pos (decide_eq_true htarget)
  · have hmem : viewChannel ∈ sortedUnique only.deny := hdeny ▸ List.mem_singleton_self _
    exact List.any_eq_true.mpr ⟨_, mem_sortedUnique.mp hmem, beq_self_eq_true _⟩

/-- Once an entry of another role was written, the channel does not look hidden. -/
theorem shown_of_placed {s : GuildSnapshot} {id roleId : ℕ} {target : Target} {o : Overwrite}
    {flag : Bool} (hplaced : (GateItem.overwrite id roleId target o flag).Placed s)
    (hne : roleId ≠ s.guildId) : hiddenFlags s id = false := by
  rw [Bool.eq_false_iff]
  intro hhidden
  obtain ⟨state, hstate, hentry⟩ := hplaced
  obtain ⟨state', only, hstate', honly, heveryone, -⟩ := entry_of_hidden hhidden
  rw [hstate, Option.some.injEq] at hstate'
  subst hstate'
  have htarget := List.find?_some heveryone
  rw [ChannelState.overwriteForRole, honly] at hentry
  rw [← List.mem_singleton.mp (List.mem_of_find?_eq_some hentry), decide_eq_true_eq,
    OverwriteTarget.role.injEq] at htarget
  exact hne htarget

/-- What a gate stage has settled for a target that is not hidden lets the view be. -/
theorem cell_of_shown (hstage : gateStage plan scope = some stage) {p : Planned} {o o' : Overwrite}
    (hnodup : (p.overwrites.map Overwrite.role).Nodup) (ho : Opens scope p o)
    (hwanted : o ∈ wantedOverwrites p.overwrites true)
    (hwanted' : o' ∈ wantedOverwrites p.overwrites false) (hrole : o'.role = everyoneName)
    {s : GuildSnapshot} {id : ℕ} {state : ChannelState} (hstate : s.channelById id = some state)
    {entry : OverwriteState} (hentry : state.overwriteForRole s.guildId = some entry)
    (hdenied : entry.deny.any (· == viewChannel) = true) :
    (GateItem.overwrite id s.guildId p.target o' false).cell stage.permits s = none := by
  have hsame : o' = o := List.inj_on_of_nodup_map (wanted_nodup hnodup true)
    (mem_wanted_true hwanted') hwanted (hrole.trans ho.1.symm)
  subst hsame
  obtain ⟨-, hview, hreveal | hno⟩ := ho
  · have hpermits : stage.permits = revealPermits := by
      rcases permits_of_gateStage hstage with ⟨-, h⟩ | ⟨h, -⟩
      · exact h
      · exact absurd hreveal h
    refine cell_overwrite_eq_none.mpr fun state' hstate' => compareOverwrite_eq_none.mpr (.inr ?_)
    rw [hstate, Option.some.injEq] at hstate'
    subst hstate'
    have hcurrent : (currentOverwrite o'.role entry).deniesView = true := by
      obtain ⟨name, hmem, hname⟩ := List.any_eq_true.mp hdenied
      exact List.any_eq_true.mpr ⟨name, mem_sortedUnique.mpr hmem, hname⟩
    rw [hpermits, revealPermits, if_neg (not_not.mpr hrole), hentry, Option.map_some,
      Option.any_some, hcurrent, hview]
    rfl
  · rw [wantedOverwrites, Bool.and_false, if_neg Bool.false_ne_true] at hwanted'
    obtain ⟨raw, hraw, rfl⟩ := List.mem_map.mp hwanted'
    exact absurd hrole (hno raw hraw)

namespace Reached

variable (h : Reached lower plan s₀ scope stage k e) {p : Planned} {categoryId id : ℕ}
  {o : Overwrite}

include h in
/-- The opening that is still missing is of the entry for `@everyone`. -/
theorem item_of_opens (hp : p ∈ planTargets stage.categories)
    (hlookup : p.lookup lower s₀ = some (categoryId, id)) (hbefore : hiddenFlags s₀ id = true)
    (ho : Opens scope p o)
    (hdrop : .setOverwrite p.target o ∈ (diff lower plan s₀ scope).changes.drop k) :
    o ∈ wantedOverwrites p.overwrites true ∧
      .overwrite id s₀.guildId p.target o true ∈ stage.items lower s₀ (hiddenFlags s₀) ∧
      (GateItem.overwrite id s₀.guildId p.target o true).cell stage.permits e.guild.snapshot =
        some (.setOverwrite p.target o) := by
  rw [← h.rest] at hdrop
  obtain ⟨hwanted, roleId, hrole, hi, hc⟩ := h.item_of_setOverwrite hp hlookup hdrop
  rw [overwriteRole, if_pos ho.1, Except.ok.injEq] at hrole
  subst hrole
  rw [hbefore] at hwanted hi hc
  exact ⟨hwanted, hi, hc⟩

include h in
/-- Until the opening the entry for `@everyone` is the marker of the engine. -/
theorem entry_of_opens (hbefore : hiddenFlags s₀ id = true)
    (hi : .overwrite id s₀.guildId p.target o true ∈ stage.items lower s₀ (hiddenFlags s₀))
    (hc : (GateItem.overwrite id s₀.guildId p.target o true).cell stage.permits e.guild.snapshot ≠
      none) : ∃ state entry, e.guild.snapshot.channelById id = some state ∧
        state.overwriteForRole s₀.guildId = some entry ∧
        entry.deny.any (· == viewChannel) = true := by
  obtain ⟨state, only, hstate, -, hentry, hdenied⟩ := entry_of_hidden hbefore
  rcases h.traced.traced (.overwrite id s₀.guildId) with hagree | ⟨j, hj, haddress, hplaced, -⟩
  · have hagree : (e.guild.snapshot.channelById id).map (fun c => c.overwriteForRole s₀.guildId) =
        (s₀.channelById id).map fun c => c.overwriteForRole s₀.guildId := hagree
    rw [hstate, Option.map_some, Option.map_eq_some_iff] at hagree
    obtain ⟨state', hstate', heq⟩ := hagree
    exact ⟨state', only, hstate', heq.trans hentry, hdenied⟩
  · obtain rfl := h.item_eq hj hi haddress
    exact absurd (cell_of_placed haddress (items_sound h.valid hj) hplaced) hc

include h in
/-- After another overwrite of the target it does not look hidden. -/
theorem shown_of_take (hp : p ∈ planTargets stage.categories)
    (hlookup : p.lookup lower s₀ = some (categoryId, id))
    (hi : .overwrite id s₀.guildId p.target o true ∈ stage.items lower s₀ (hiddenFlags s₀))
    (hdrop : .setOverwrite p.target o ∈ (diff lower plan s₀ scope).changes.drop k) {o' : Overwrite}
    (htake : .setOverwrite p.target o' ∈ (diff lower plan s₀ scope).changes.take k) :
    hiddenFlags e.guild.snapshot id = false := by
  have hmem := List.take_subset k _ htake
  rw [h.changes_eq] at hmem
  obtain ⟨-, roleId, hrole, hj, hcj⟩ := h.item_of_setOverwrite hp hlookup hmem
  have hcell := Option.ne_none_iff_exists'.mpr ⟨_, hcj⟩
  refine shown_of_placed (h.placed_of_take hj hcell htake) fun heq => ?_
  rw [h.traced.names.guildId] at heq
  subst heq
  have hsame := h.item_eq hj hi rfl
  simp only [GateItem.overwrite.injEq, true_and] at hsame
  rw [hsame.1] at htake
  exact h.not_mem_drop htake hdrop

include h in
/-- A run that is taken up after the cut leaves the target hidden. -/
theorem hidesView_of_cut (hp : p ∈ planTargets stage.categories)
    (hlookup : p.lookup lower s₀ = some (categoryId, id)) (hbefore : hiddenFlags s₀ id = true)
    (ho : Opens scope p o)
    (hdrop : .setOverwrite p.target o ∈ (diff lower plan s₀ scope).changes.drop k) {o' : Overwrite}
    (htake : .setOverwrite p.target o' ∈ (diff lower plan s₀ scope).changes.take k) :
    hidesView (completed lower plan e.guild.snapshot scope) id = true := by
  obtain ⟨hwanted, hi, hc⟩ := h.item_of_opens hp hlookup hbefore ho hdrop
  obtain ⟨state, entry, hstate, hentry, hdenied⟩ :=
    h.entry_of_opens hbefore hi (hc ▸ Option.some_ne_none _)
  have hshown := h.shown_of_take hp hlookup hi hdrop htake
  have hguild := h.traced.names.guildId
  obtain ⟨last, hrun, htraced, -⟩ := (gate_settles (h.traced.names.uniqueIds h.ids)
    (h.traced.names.baseRole h.base) h.valid (hiddenFlags e.guild.snapshot)).run_all
      (traced_start _ _ e.guild.snapshot)
  rw [completed_of_run ((changes_eq_pending h.isStage) ▸ hrun)]
  rcases htraced.traced (.overwrite id s₀.guildId) with hagree | ⟨j, hj, haddress, -, hcell⟩
  · have hagree : (last.guild.snapshot.channelById id).map
        (fun c => c.overwriteForRole s₀.guildId) =
        (e.guild.snapshot.channelById id).map fun c => c.overwriteForRole s₀.guildId := hagree
    rw [hstate, Option.map_some, Option.map_eq_some_iff] at hagree
    obtain ⟨state', hstate', heq⟩ := hagree
    have hentry' : state'.overwriteForRole last.guild.snapshot.guildId = some entry := by
      rw [htraced.names.guildId, hguild, heq, hentry]
    rw [hidesView_of_entry hstate' hentry']
    exact hdenied
  · -- the new run would write the entry, but what it wants of it does not land
    rw [items_congr h.traced.names] at hj
    obtain ⟨q, hq, _, hlookup', o'', hwanted', hrole, rfl⟩ := overwrite_of_address hj haddress
    obtain rfl := planned_eq_of_lookup h.ids h.valid hp hq hlookup hlookup'
    rw [hshown] at hwanted' hcell
    have heveryone : o''.role = everyoneName := by
      rcases overwriteRole_eq_ok hrole with ⟨h, -⟩ | ⟨hne, hfound⟩
      · exact h
      · exact absurd rfl (ne_guildId_of_roleLookup h.base hne hfound)
    rw [← hguild] at hentry hcell
    exact absurd (cell_of_shown h.isStage (h.valid.overwrites_nodup p hp) ho hwanted hwanted'
      heveryone hstate hentry hdenied) hcell

include h in
/-- A run that is not interrupted opens the target. -/
theorem shows_of_opens {last : Engine}
    (hlast : Traced lower stage.permits (stage.items lower s₀ (hiddenFlags s₀)) s₀ last)
    (hnil : pending (GateItem.cell stage.permits) (stage.items lower s₀ (hiddenFlags s₀))
      last.guild.snapshot = []) (ho : Opens scope p o)
    (hi : .overwrite id s₀.guildId p.target o true ∈ stage.items lower s₀ (hiddenFlags s₀))
    (hc : (GateItem.overwrite id s₀.guildId p.target o true).cell stage.permits s₀ ≠ none) :
    hidesView last.guild.snapshot id = false := by
  rcases hlast.traced (.overwrite id s₀.guildId) with hagree | ⟨j, hj, haddress, hplaced, -⟩
  · rw [← cell_eq_of_agree hlast.names (i := .overwrite id s₀.guildId p.target o true) hagree] at hc
    exact absurd (pending_eq_nil.mp hnil _ hi) hc
  · obtain rfl := h.item_eq hj hi haddress
    obtain ⟨state, hstate, hentry⟩ := hplaced
    rw [← hlast.names.guildId] at hentry
    rw [hidesView_of_entry hstate hentry]
    exact ho.2.1

end Reached

end Cut

/-! ### Exactly when a rollout can be taken up -/

section Main

variable {lower : String → String} {plan : Plan} {s : GuildSnapshot} {scope : Scope} {k : ℕ}

/-- A gate stage runs to its first `k` changes, and to its end. -/
theorem exists_reached (hplan : plan.Valid lower) (hids : s.UniqueIds) (hbase : s.BaseRole)
    {stage : GateStage} (hstage : gateStage plan scope = some stage) (k : ℕ) : ∃ e last,
      run (Engine.step lower) (Engine.start lower s) ((diff lower plan s scope).changes.take k) =
        some e ∧ Reached lower plan s scope stage k e ∧
      run (Engine.step lower) (Engine.start lower s) (diff lower plan s scope).changes = some last ∧
      Traced lower stage.permits (stage.items lower s (hiddenFlags s)) s last ∧
      pending (GateItem.cell stage.permits) (stage.items lower s (hiddenFlags s))
        last.guild.snapshot = [] := by
  have hvalid := gateStage_valid hplan hstage
  have hsettles := gate_settles hids hbase hvalid (hiddenFlags s)
  obtain ⟨e, hrun, htraced, hrest⟩ := hsettles.run_take k (traced_start _ _ s)
  obtain ⟨last, hall, hlast, hnil⟩ := hsettles.run_all (traced_start _ _ s)
  have hchanges : (diff lower plan s scope).changes = _ := changes_eq_pending hstage
  exact ⟨e, last, hchanges ▸ hrun, ⟨hstage, hvalid, hids, hbase, htraced, hchanges ▸ hrest⟩,
    hchanges ▸ hall, hlast, hnil⟩

theorem not_resumes_of_cutsOpening (hplan : plan.Valid lower) (hids : s.UniqueIds)
    (hbase : s.BaseRole) (hcut : CutsOpening lower plan s scope k) :
    ¬ Resumes lower plan s scope k := by
  obtain ⟨stage, hstage, p, hp, ⟨categoryId, id, hlookup, hbefore⟩, ⟨o', htake⟩, o, ho, hdrop⟩ := hcut
  obtain ⟨e, last, hrun, h, hall, hlast, hnil⟩ := exists_reached hplan hids hbase hstage k
  obtain ⟨-, hi, hc⟩ := h.item_of_opens hp hlookup hbefore ho hdrop
  have hshows := h.shows_of_opens hlast hnil ho hi
    (h.traced.cell_ne_none (items_nodup hids hbase h.valid) hi hc)
  have hhides := h.hidesView_of_cut hp hlookup hbefore ho hdrop htake
  intro hresumes
  have hrevealed := hresumes.revealed id
  rw [completed_of_run hall, interrupted_of_run hrun, hhides] at hrevealed
  cases hrevealed hshows

theorem resumes_of_not_cutsOpening (hplan : plan.Valid lower) (hids : s.UniqueIds)
    (hbase : s.BaseRole) (hclear : (diff lower plan s scope).isClear = true)
    (hcut : ¬ CutsOpening lower plan s scope k) : Resumes lower plan s scope k := by
  rcases stage_of_clear hclear with hstage | ⟨stage, hstage⟩
  · exact resumes_additive hplan hstage hclear k
  obtain ⟨e, last, hrun, h, hall, -, -⟩ := exists_reached hplan hids hbase hstage k
  have hgate := (gateClear_iff hstage).mp (blockers_of_clear hclear).1
  exact resumes_of_drop hrun h.traced.start hall hclear
    ((gateClear_iff hstage).mpr (hgate.of_traced hids h.valid h.traced))
    h.traced.names.botPermissions (h.changes_eq_drop hcut)

/-- **A rollout that was interrupted can be taken up, exactly unless it was interrupted between two
overwrites of a target the engine had hidden, before the one that opens it.** -/
theorem resumes_iff (lower : String → String) (plan : Plan) (snapshot : GuildSnapshot)
    (scope : Scope) (k : ℕ) (hvalid : plan.validate lower = .ok ()) (hids : snapshot.UniqueIds)
    (hbase : snapshot.BaseRole) (hclear : (diff lower plan snapshot scope).isClear = true) :
    Resumes lower plan snapshot scope k ↔ ¬ CutsOpening lower plan snapshot scope k :=
  have hplan := Plan.valid_of_validate hvalid
  ⟨fun hresumes hcut => not_resumes_of_cutsOpening hplan hids hbase hcut hresumes,
    resumes_of_not_cutsOpening hplan hids hbase hclear⟩

end Main

/-- `g` has an overwrite of its own, and none for `@everyone`. -/
def mutedPlan : Plan :=
  { name := "p", everyone := [], roles := [⟨"t", false, false, none, []⟩]
    categories := [⟨"c", [], [⟨"g", .text, none, none, [], [⟨"t", [], ["Send Messages"]⟩]⟩]⟩] }

set_option maxRecDepth 20000 in
theorem mutedPlan_resumes_iff :
    Resumes asciiLower mutedPlan hiddenGuild ⟨.reveal, none⟩ 2 ↔
      ¬ CutsOpening asciiLower mutedPlan hiddenGuild ⟨.reveal, none⟩ 2 :=
  resumes_iff asciiLower mutedPlan hiddenGuild ⟨.reveal, none⟩ 2 (by decide) hiddenGuild_uniqueIds
    hiddenGuild_baseRole (by decide)

set_option maxRecDepth 20000 in
/-- A run that fails at the third change leaves `g` hidden for good. -/
theorem mutedPlan_stays_hidden :
    ¬ ∀ (lower : String → String) (plan : Plan) (snapshot : GuildSnapshot) (scope : Scope) (k : ℕ),
      plan.validate lower = .ok () → snapshot.UniqueIds → snapshot.BaseRole →
        (diff lower plan snapshot scope).isClear = true → Resumes lower plan snapshot scope k := by
  intro h
  have hvalid : mutedPlan.validate asciiLower = .ok () := by decide
  have hchanges : (diff asciiLower mutedPlan hiddenGuild ⟨.reveal, none⟩).changes =
      [.setOverwrite (.category "c") ⟨everyoneName, [], []⟩,
        .setOverwrite (.channel "g" .text) ⟨"t", [], ["Send Messages"]⟩,
        .setOverwrite (.channel "g" .text) ⟨everyoneName, [], []⟩] := by decide
  have hcut : CutsOpening asciiLower mutedPlan hiddenGuild ⟨.reveal, none⟩ 2 := by
    refine ⟨_, rfl, ⟨⟨"c", [], [⟨"g", .text, none, none, [], [⟨"t", [], ["Send Messages"]⟩]⟩]⟩,
      some ⟨"g", .text, none, none, [], [⟨"t", [], ["Send Messages"]⟩]⟩⟩,
      mem_planTargets.mpr ⟨List.mem_singleton_self _, fun channel h => ?_⟩, ⟨4, 5, by decide⟩,
      ⟨⟨"t", [], ["Send Messages"]⟩, ?_⟩, ⟨everyoneName, [], []⟩, ⟨rfl, by decide, .inl rfl⟩, ?_⟩
    · exact Option.some.inj h ▸ List.mem_singleton_self _
    · rw [hchanges]
      decide
    · rw [hchanges]
      decide
  exact not_resumes_of_cutsOpening (Plan.valid_of_validate hvalid) hiddenGuild_uniqueIds
    hiddenGuild_baseRole hcut (h asciiLower mutedPlan hiddenGuild ⟨.reveal, none⟩ 2 hvalid
      hiddenGuild_uniqueIds hiddenGuild_baseRole (by decide))

end AbbeyBot.Server
