import Mathlib
import AbbeyBot.Server.Reached

/-! # What `@everyone` sees

Until a category's own stage, nothing that is there changes whether `@everyone` sees it, but for what
the engine itself has hidden; and what is created is hidden. That holds wherever a run stops. -/

namespace AbbeyBot.Server

open AbbeyBot.Library.OrderedMap AbbeyBot.Library.Worklist AbbeyBot.Library.FirstMatch

/-! ### Gates -/

/-- `@everyone` is denied the view of the channel. -/
def ChannelState.deniesView (guildId : ℕ) (state : ChannelState) : Bool :=
  (state.overwriteForRole guildId).any fun o => o.deny.any (· == viewChannel)

/-- The channel a change is aimed at. -/
def Target.lookup (lower : String → String) (s : GuildSnapshot) : Target → Lookup
  | .category name => categoryLookup s name
  | .channel name kind => .ofMatches (s.channelsMatching lower name kind)

/-- Some change sets an overwrite of the channel. -/
def Touches (lower : String → String) (s : GuildSnapshot) (changes : List Change) (id : ℕ) : Prop :=
  ∃ target o, .setOverwrite target o ∈ changes ∧ target.lookup lower s = .found id

/-- What the changes have left of a channel: its gate, unless the engine had hidden it, and its
overwrites, unless it was touched. -/
structure Gated (s : GuildSnapshot) (touched : ℕ → Prop) (c c' : ChannelState) : Prop where
  identity : c'.identity = c.identity
  view : c'.deniesView s.guildId = c.deniesView s.guildId ∨
    isEngineHidden c s.guildId = true ∧ c'.deniesView s.guildId = false
  untouched : ¬ touched c.id → c'.overwrites = c.overwrites

/-- The channels that were there are gated as before, and the others are hidden. -/
def GatesKept (s : GuildSnapshot) (touched : ℕ → Prop) (t : GuildSnapshot) : Prop :=
  ∃ kept created, t.channels = kept ++ created ∧ s.channels.Forall₂ (Gated s touched) kept ∧
    ∀ c ∈ created, isEngineHidden c s.guildId = true

/-! ### Operations -/

/-- An operation that moves no gate: it sets the entry of `@everyone` only where that leaves the view
where it is, or opens what the engine has hidden. -/
def Op.Keeps (s : GuildSnapshot) (touched : ℕ → Prop) : Op → Prop
  | .createChannel _ _ _ _ _ _ overwrites => overwrites = [hiddenEntry s]
  | .setOverwrite id roleId _ deny => touched id ∧ ∃ state, s.channelById id = some state ∧
      (roleId = s.guildId → deny.any (· == viewChannel) = state.deniesView s.guildId ∨
        isEngineHidden state s.guildId = true ∧ deny.any (· == viewChannel) = false)
  | .createRole .. | .editRole .. | .editChannel .. => True

section Ops

variable {s : GuildSnapshot} {touched : ℕ → Prop}

theorem Gated.id_eq {c c' : ChannelState} (h : Gated s touched c c') : c'.id = c.id :=
  congrArg Prod.fst h.identity

theorem Gated.mono {more : ℕ → Prop} (hmore : ∀ id, touched id → more id) {c c' : ChannelState}
    (h : Gated s touched c c') : Gated s more c c' :=
  ⟨h.identity, h.view, fun hnot => h.untouched fun ht => hnot (hmore _ ht)⟩

theorem GatesKept.mono {more : ℕ → Prop} (hmore : ∀ id, touched id → more id) {t : GuildSnapshot}
    (h : GatesKept s touched t) : GatesKept s more t := by
  obtain ⟨kept, created, hchannels, hkept, hcreated⟩ := h
  exact ⟨kept, created, hchannels, hkept.imp fun _ _ hgated => hgated.mono hmore, hcreated⟩

theorem Op.Keeps.mono {more : ℕ → Prop} (hmore : ∀ id, touched id → more id) {op : Op}
    (h : op.Keeps s touched) : op.Keeps s more := by
  cases op with
  | setOverwrite id roleId allow deny => exact ⟨hmore id h.1, h.2⟩
  | _ => exact h

theorem GatesKept.refl (s : GuildSnapshot) (touched : ℕ → Prop) : GatesKept s touched s :=
  ⟨s.channels, [], (List.append_nil _).symm,
    List.forall₂_same.mpr fun _ _ => ⟨rfl, .inl rfl, fun _ => rfl⟩,
    fun _ h => (List.not_mem_nil h).elim⟩

/-- What leaves the overwrites alone leaves the gates alone. -/
theorem GatesKept.updateChannel {guild next : Guild} {created : Option ℕ} {id : ℕ}
    {f : ChannelState → ChannelState} (h : GatesKept s touched guild.snapshot)
    (hid : ∀ c, (f c).identity = c.identity) (hf : ∀ c, (f c).overwrites = c.overwrites)
    (hupdate : guild.updateChannel id f = .ok (created, next)) :
    GatesKept s touched next.snapshot := by
  obtain ⟨kept, new, hchannels, hkept, hnew⟩ := h
  have hgated (c c' : ChannelState) (hc : Gated s touched c c') : Gated s touched c (f c') := by
    have hview : (f c').deniesView s.guildId = c'.deniesView s.guildId := by
      rw [ChannelState.deniesView, ChannelState.deniesView, ChannelState.overwriteForRole,
        ChannelState.overwriteForRole, hf]
    exact ⟨(hid c').trans hc.identity, by rw [hview]; exact hc.view, fun hnot =>
      (hf c').trans (hc.untouched hnot)⟩
  rw [Guild.updateChannel] at hupdate
  cases hfirst : updateFirst (·.id = id) f guild.snapshot.channels with
  | none => rw [hfirst] at hupdate; cases hupdate
  | some channels =>
    rw [hfirst, Except.ok.injEq, Prod.mk.injEq] at hupdate
    obtain ⟨-, rfl⟩ := hupdate
    rw [hchannels, updateFirst_append, Option.or_eq_some_iff, Option.map_eq_some_iff] at hfirst
    rcases hfirst with ⟨kept', hfirst, rfl⟩ | ⟨-, hfirst⟩
    · exact ⟨kept', new, rfl, forall₂_updateFirst (q := fun c => c.id = id) hkept
        (fun c c' hc => by rw [hc.id_eq]) (fun c c' _ hc _ => hgated c c' hc) hfirst, hnew⟩
    · rw [Option.map_eq_some_iff] at hfirst
      obtain ⟨new', hfirst, rfl⟩ := hfirst
      refine ⟨kept, new', rfl, hkept, fun c hc => ?_⟩
      obtain ⟨c', hc', rfl | rfl⟩ := mem_updateFirst hfirst hc
      · exact hnew _ hc'
      · rw [isEngineHidden, hf, ← isEngineHidden]
        exact hnew c' hc'

/-- An overwrite that is permitted leaves the gate, or opens what the engine has hidden. -/
theorem GatesKept.setOverwrite {guild next : Guild} {created : Option ℕ} {id roleId : ℕ}
    {allow deny : List String} (h : GatesKept s touched guild.snapshot)
    (hop : (Op.setOverwrite id roleId allow deny).Keeps s touched)
    (hupdate : guild.updateChannel id (Guild.setOverwrite roleId allow deny) = .ok (created, next)) :
    GatesKept s touched next.snapshot := by
  obtain ⟨htouched, state, hstate, hview⟩ := hop
  obtain ⟨kept, new, hchannels, hkept, hnew⟩ := h
  have hsame (c c' : ChannelState) (hc : Gated s touched c c') :
      decide (c.id = id) = decide (c'.id = id) := by
    rw [hc.id_eq]
  obtain ⟨kept', hfirst'⟩ := exists_updateFirst_of_forall₂
    (f := Guild.setOverwrite roleId allow deny) (p := fun c => decide (c.id = id)) hkept hsame hstate
  rw [Guild.updateChannel, hchannels, updateFirst_append, hfirst', Option.map_some, Option.some_or,
    Except.ok.injEq, Prod.mk.injEq] at hupdate
  obtain ⟨-, rfl⟩ := hupdate
  refine ⟨kept', new, rfl, forall₂_updateFirst (p := fun c => decide (c.id = id))
    (f := Guild.setOverwrite roleId allow deny) hkept hsame
    (fun c c' hfind hc _ => ⟨hc.identity, ?_, fun hnot => ?_⟩) hfirst', hnew⟩
  · obtain rfl : state = c := Option.some.inj (hstate.symm.trans hfind)
    by_cases hrole : roleId = s.guildId
    · rw [ChannelState.deniesView, ← hrole, Guild.overwriteForRole_setOverwrite, Option.any_some, hrole]
      exact hview hrole
    · rw [ChannelState.deniesView, Guild.overwriteForRole_setOverwrite_ne (Ne.symm hrole),
        ← ChannelState.deniesView]
      exact hc.view
  · have hcid := List.find?_some hfind
    rw [decide_eq_true_eq] at hcid
    exact absurd htouched (hcid ▸ hnot)

/-- **An operation that moves no gate leaves the gates alone.** -/
theorem GatesKept.mutate {lower : String → String} {guild next : Guild} {created : Option ℕ}
    {op : Op} (h : GatesKept s touched guild.snapshot) (hop : op.Keeps s touched)
    (hmutate : guild.mutate lower op = .ok (created, next)) : GatesKept s touched next.snapshot := by
  cases op with
  | createRole name colour => cases hmutate; exact h
  | editRole id hoist mentionable colour =>
    simp only [Guild.mutate, Guild.updateRole] at hmutate
    split at hmutate
    · cases hmutate; exact h
    · cases hmutate
  | createChannel name channelClass parent topic slowmodeSecs tags overwrites =>
    simp only [Guild.mutate] at hmutate
    split at hmutate
    · cases hmutate
    · cases hmutate
      obtain ⟨kept, new, hchannels, hkept, hnew⟩ := h
      refine ⟨kept, new ++ [Guild.newChannel lower guild.nextId name channelClass parent topic
        overwrites], by rw [hchannels, List.append_assoc], hkept, fun c hc => ?_⟩
      rcases List.mem_append.mp hc with hc | hc
      · exact hnew c hc
      · have hop : overwrites = [hiddenEntry s] := hop
        rw [List.mem_singleton.mp hc, hop]
        exact decide_eq_true ⟨rfl, rfl, rfl⟩
  | editChannel id parent topic =>
    exact h.updateChannel (f := Guild.editChannel parent topic) (fun _ => rfl) (fun _ => rfl) hmutate
  | setOverwrite id roleId allow deny => exact h.setOverwrite hop hmutate

end Ops

/-! ### Runs -/

section Run

variable {lower : String → String} {s : GuildSnapshot}

theorem Touches.mono {changes more : List Change} (h : changes ⊆ more) (id : ℕ)
    (htouches : Touches lower s changes id) : Touches lower s more id := by
  obtain ⟨target, o, hmem, hfound⟩ := htouches
  exact ⟨target, o, h hmem, hfound⟩

/-- Where every change is resolved to an operation that moves no gate, a run moves none. -/
theorem gatesKept_applyFrom {changes : List Change} {K : NameIndex → Prop}
    (hrecord : ∀ index change created, change ∈ changes → K index →
      K (index.record lower change created))
    (hop : ∀ index change op, change ∈ changes → K index →
      index.resolve lower change = .ok op → op.Keeps s (Touches lower s [change]))
    {index : NameIndex} (hindex : K index) {before : List Change} {fake : FakeGuild}
    (h : GatesKept s (Touches lower s before) fake.snapshot) :
    let last := applyFrom lower (FakeGuild.perform lower) index fake changes
    GatesKept s (Touches lower s (before ++ last.1.applied)) last.2.snapshot := by
  induction changes generalizing index before fake with
  | nil => simpa only [applyFrom, List.append_nil] using h
  | cons change rest ih =>
    rw [applyFrom]
    cases hresolve : index.resolve lower change with
    | error reason => simpa only [List.append_nil] using h
    | ok op =>
      by_cases hfail : fake.failAt = some fake.performed
      · simpa only [FakeGuild.perform, if_pos hfail, List.append_nil] using h
      cases hmutate : fake.toGuild.mutate lower op with
      | error reason =>
        simpa only [FakeGuild.perform, if_neg hfail, hmutate, List.append_nil] using h
      | ok result =>
        obtain ⟨created, next⟩ := result
        simp only [FakeGuild.perform, if_neg hfail, hmutate]
        have hkeeps : op.Keeps s (Touches lower s (before ++ [change])) :=
          (hop index change op List.mem_cons_self hindex hresolve).mono
            (Touches.mono (List.subset_append_right _ _))
        have hnext : GatesKept s (Touches lower s (before ++ [change]))
            (FakeGuild.mk next fake.failAt (fake.performed + 1)).snapshot :=
          (h.mono (Touches.mono (List.subset_append_left _ _))).mutate hkeeps hmutate
        have hrest := ih (fun index other created hother => hrecord index other created
          (List.mem_cons_of_mem _ hother)) (fun index other op hother => hop index other op
            (List.mem_cons_of_mem _ hother)) (hrecord index change created List.mem_cons_self hindex)
          hnext
        simpa only [List.append_assoc, List.singleton_append] using hrest

end Run

/-! ### The changes of a report -/

section Reports

variable {lower : String → String} {plan : Plan} {s : GuildSnapshot} {scope : Scope}

theorem guildId_record (index : NameIndex) (change : Change) (created : Option ℕ) :
    (index.record lower change created).guildId = index.guildId := by
  cases created with
  | none => rfl
  | some id => cases change <;> rfl

/-- What the additive stage creates it hides. -/
theorem keeps_of_additive {change : Change} (hchange : change ∈ (additive lower plan s).changes)
    {index : NameIndex} (hguild : index.guildId = s.guildId) {op : Op}
    (hop : index.resolve lower change = .ok op) (touched : ℕ → Prop) : op.Keeps s touched := by
  have hmarker : [Overwrite.hideMarker].mapM index.resolveOverwrite = .ok [hiddenEntry s] := by
    rw [hiddenEntry, ← hguild]
    rfl
  rw [additive_changes] at hchange
  obtain ⟨i, -, hc⟩ := mem_pending.mp hchange
  cases i with
  | role planned =>
    simp only [AdditiveItem.cell] at hc
    split_ifs at hc
    cases hc
    cases hop
    trivial
  | target p =>
    obtain ⟨category, channel⟩ := p
    simp only [AdditiveItem.cell] at hc
    split_ifs at hc
    cases hc
    cases channel with
    | none =>
      rw [Planned.create, Option.elim_none, NameIndex.resolve, hmarker] at hop
      cases hop
      rfl
    | some channel =>
      rw [Planned.create, Option.elim_some, NameIndex.resolve, hmarker] at hop
      cases hcategory : index.categoryId category.name with
      | error reason => rw [hcategory] at hop; cases hop
      | ok parent =>
        rw [hcategory] at hop
        cases hop
        rfl

theorem deniesView_eq {state : ChannelState} {guildId : ℕ} (role : String) :
    ((state.overwriteForRole guildId).map (currentOverwrite role)).any Overwrite.deniesView =
      state.deniesView guildId := by
  rw [Option.any_map, ChannelState.deniesView]
  refine congrArg (Option.any · _) (funext fun o => ?_)
  rw [Overwrite.deniesView, Bool.eq_iff_iff, List.any_eq_true, List.any_eq_true]
  simp only [currentOverwrite, mem_sortedUnique]

/-- What revealing changes in the overwrites moves no gate but those of the engine. -/
theorem keeps_of_overwrite (hbase : ∀ role ∈ s.roles, role.id = s.guildId → role.name = everyoneName)
    {target : Target} {o : Overwrite} {id roleId : ℕ} {change : Change}
    (hrole : overwriteRole s target o.role = .ok roleId)
    (hc : (GateItem.overwrite id roleId target o (hiddenFlags s id)).cell revealPermits s =
      some change) {touched : ℕ → Prop} (htouched : touched id) :
    (Op.setOverwrite id roleId o.allow o.deny).Keeps s touched := by
  rw [GateItem.cell, Option.bind_eq_some_iff] at hc
  obtain ⟨state, hstate, hc⟩ := hc
  refine ⟨htouched, state, hstate, fun hguild => ?_⟩
  subst hguild
  have heveryone : o.role = everyoneName := by
    rcases overwriteRole_eq_ok hrole with ⟨h, -⟩ | ⟨-, hfound⟩
    · exact h
    · obtain ⟨role, hmem, hname, hid⟩ := GuildSnapshot.mem_of_roleLookup hfound
      exact hname.symm.trans (hbase role hmem hid)
  have hflag : hiddenFlags s id = isEngineHidden state s.guildId := by
    rw [hiddenFlags, hstate, Option.any_some]
  rw [compareOverwrite] at hc
  split_ifs at hc with hsame hpermits
  · cases hc
  · rw [revealPermits, if_neg (not_not.mpr heveryone), deniesView_eq, hflag] at hpermits
    split_ifs at hpermits with hview
    · exact .inl hview.symm
    · rw [Bool.and_eq_true, Bool.not_eq_true'] at hpermits
      exact .inr hpermits
  · cases hc

theorem lookup_of_planned {p : Planned} {categoryId id : ℕ}
    (h : p.lookup lower s = some (categoryId, id)) : p.target.lookup lower s = .found id := by
  obtain ⟨category, channel⟩ := p
  obtain ⟨hcategory, hchannel⟩ := lookup_eq_some h
  cases channel with
  | none =>
    rw [Planned.lookup] at h
    simp only [hcategory, Option.some.injEq, Prod.mk.injEq, true_and] at h
    exact h ▸ hcategory
  | some channel => exact hchannel channel rfl

/-- **What revealing changes moves no gate but those of the engine.** -/
theorem keeps_of_reveal (hplan : plan.Valid lower) (hreveal : scope.stage = .reveal)
    (hbase : ∀ role ∈ s.roles, role.id = s.guildId → role.name = everyoneName) {change : Change}
    (hchange : change ∈ (diff lower plan s scope).changes) :
    (∀ index created, NameIndex.record lower index change created = index) ∧
      ∀ op, (NameIndex.fromSnapshot lower s).resolve lower change = .ok op →
        op.Keeps s (Touches lower s [change]) := by
  have hstage : gateStage plan scope = some ⟨plan.roles, plan.categories, true, revealPermits⟩ := by
    rw [gateStage]
    simp only [hreveal]
  have hvalid := gateStage_valid hplan hstage
  rw [changes_eq_pending hstage] at hchange
  obtain ⟨i, hi, hc⟩ := mem_pending.mp hchange
  have hmakes := makes_of_cell (items_sound hvalid hi) hc
  cases i with
  | role id planned =>
    cases hmakes
    refine ⟨fun _ created => by cases created <;> rfl, fun op hop => ?_⟩
    rw [NameIndex.resolve] at hop
    cases hrole : (NameIndex.fromSnapshot lower s).roleId planned.name with
    | error reason => rw [hrole] at hop; cases hop
    | ok id => rw [hrole] at hop; cases hop; trivial
  | edit id categoryId category channel =>
    obtain ⟨topic, rfl⟩ := hmakes
    refine ⟨fun _ created => by cases created <;> rfl, fun op hop => ?_⟩
    rw [NameIndex.resolve] at hop
    cases hid : (NameIndex.fromSnapshot lower s).channelId lower channel.name channel.kind with
    | error reason => rw [hid] at hop; cases hop
    | ok id =>
      cases hparent : (NameIndex.fromSnapshot lower s).categoryId category.name with
      | error reason => rw [hid, hparent] at hop; cases hop
      | ok parent => rw [hid, hparent] at hop; cases hop; trivial
  | overwrite id roleId target o flag =>
    cases hmakes
    refine ⟨fun _ created => by cases created <;> rfl, fun op hop => ?_⟩
    obtain ⟨p, -, categoryId, hlookup, o', -, hrole, heq⟩ := overwrite_of_address hi rfl
    simp only [GateItem.overwrite.injEq, true_and] at heq
    obtain ⟨rfl, rfl, rfl⟩ := heq
    have hinv : GateInv lower s (Engine.start lower s) := ⟨.refl s, rfl⟩
    have hid : (NameIndex.fromSnapshot lower s).targetId lower p.target = .ok id :=
      hinv.targetId hlookup
    have hroleId : (NameIndex.fromSnapshot lower s).roleId o.role = .ok roleId :=
      hinv.overwriteRoleId hrole
    rw [NameIndex.resolve, hid, hroleId] at hop
    cases hop
    exact keeps_of_overwrite hbase hrole hc
      ⟨p.target, o, List.mem_singleton_self _, lookup_of_planned hlookup⟩

/-- **The view gates stay**: wherever a run of the stages `additive` and `reveal` stops, what was there
is seen by `@everyone` as before, unless the engine had hidden it; overwrites that no change has named
are as before; and what was created is hidden. -/
theorem view_gates_stay (lower : String → String) (plan : Plan) (snapshot : GuildSnapshot)
    (scope : Scope) (hvalid : plan.validate lower = .ok ())
    (hbase : ∀ role ∈ snapshot.roles, role.id = snapshot.guildId → role.name = everyoneName)
    (hscope : scope.stage = .additive ∨ scope.stage = .reveal) (k : ℕ) (failAt : Option ℕ) :
    let (outcome, guild) := apply lower (FakeGuild.perform lower)
      ((diff lower plan snapshot scope).changes.take k) snapshot ⟨.new snapshot, failAt, 0⟩
    GatesKept snapshot (Touches lower snapshot outcome.applied) guild.snapshot := by
  have hplan := Plan.valid_of_validate hvalid
  have hstart : GatesKept snapshot (Touches lower snapshot [])
      (FakeGuild.mk (.new snapshot) failAt 0).snapshot := .refl snapshot _
  have htake := List.take_subset k (diff lower plan snapshot scope).changes
  rcases hscope with hstage | hstage
  · have hchanges : (diff lower plan snapshot scope).changes =
        (additive lower plan snapshot).changes := by
      rw [changes_of_additive hstage, additive_changes]
    rw [hchanges] at htake ⊢
    exact gatesKept_applyFrom (K := fun index => index.guildId = snapshot.guildId)
      (fun index change created _ hguild => (guildId_record index change created).trans hguild)
      (fun index change op hchange hguild hop =>
        keeps_of_additive (htake hchange) hguild hop _) rfl hstart
  · exact gatesKept_applyFrom (K := fun index => index = .fromSnapshot lower snapshot)
      (fun index change created hchange hindex =>
        ((keeps_of_reveal hplan hstage hbase (htake hchange)).1 index created).trans hindex)
      (fun index change op hchange hindex hop =>
        (keeps_of_reveal hplan hstage hbase (htake hchange)).2 op (hindex ▸ hop)) rfl hstart

end Reports

set_option maxRecDepth 20000 in
theorem teamPlan_gates_stay :
    let (outcome, guild) := apply asciiLower (FakeGuild.perform asciiLower)
      ((diff asciiLower teamPlan hiddenGuild ⟨.reveal, none⟩).changes.take 2) hiddenGuild
      ⟨.new hiddenGuild, some 1, 0⟩
    GatesKept hiddenGuild (Touches asciiLower hiddenGuild outcome.applied) guild.snapshot :=
  view_gates_stay asciiLower teamPlan hiddenGuild ⟨.reveal, none⟩ (by decide)
    hiddenGuild_baseRole.2 (.inr rfl) 2 (some 1)

/-- A plan that hides a category from the role `t`. -/
def deniedPlan : Plan :=
  { name := "p", everyone := [], roles := [⟨"t", false, false, none, []⟩]
    categories := [⟨"c", [⟨"t", [], [viewChannel]⟩], []⟩] }

/-- A guild whose base role is named `t`. -/
def renamedGuild : GuildSnapshot :=
  { guildId := 1, features := []
    roles := [⟨1, "t", 0, false, false, false, 0, []⟩,
      ⟨2, "b", 5, true, false, false, 0, ["Administrator"]⟩]
    channels := [⟨4, "c", .category, none, none, []⟩]
    bot := ⟨9, [2]⟩ }

/-- Without a base role of the right name the overwrite of a role can be that of `@everyone`. -/
theorem renamed_base_gated :
    ¬ ∀ (lower : String → String) (plan : Plan) (snapshot : GuildSnapshot) (scope : Scope),
      plan.validate lower = .ok () → scope.stage = .additive ∨ scope.stage = .reveal →
      ∀ (k : ℕ) (failAt : Option ℕ),
        let (outcome, guild) := apply lower (FakeGuild.perform lower)
          ((diff lower plan snapshot scope).changes.take k) snapshot ⟨.new snapshot, failAt, 0⟩
        GatesKept snapshot (Touches lower snapshot outcome.applied) guild.snapshot := by
  intro h
  have hgates : GatesKept renamedGuild _ (apply asciiLower (FakeGuild.perform asciiLower)
      ((diff asciiLower deniedPlan renamedGuild ⟨.reveal, none⟩).changes.take 1) renamedGuild
      ⟨.new renamedGuild, none, 0⟩).2.snapshot :=
    h asciiLower deniedPlan renamedGuild ⟨.reveal, none⟩ (by decide) (.inr rfl) 1 none
  have hwritten : (apply asciiLower (FakeGuild.perform asciiLower)
      ((diff asciiLower deniedPlan renamedGuild ⟨.reveal, none⟩).changes.take 1) renamedGuild
      ⟨.new renamedGuild, none, 0⟩).2.snapshot.channels =
        [⟨4, "c", .category, none, none, [⟨.role 1, [], [viewChannel]⟩]⟩] := by decide +kernel
  rw [GatesKept, hwritten] at hgates
  obtain ⟨kept, created, hchannels, hkept, -⟩ := hgates
  obtain ⟨c', rest, hgated, hrest, rfl⟩ := List.forall₂_cons_left_iff.mp hkept
  obtain rfl := List.forall₂_nil_left_iff.mp hrest
  obtain ⟨rfl, -⟩ := List.cons.inj hchannels
  rcases hgated.view with hview | ⟨hhidden, -⟩
  · exact absurd hview (by decide)
  · exact absurd hhidden (by decide)

end AbbeyBot.Server
