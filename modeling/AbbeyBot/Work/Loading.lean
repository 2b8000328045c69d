import Mathlib
import AbbeyBot.Work.Freshness
import AbbeyBot.Work.Stored

/-! # Loading the stored work

A loaded store has to pass the checks of its recall state and of its deliveries: every policy fits the
scope it stands under, and every receipt names records that are there. No operation makes these checks,
and what the operations leave passes them. -/

namespace AbbeyBot.Work.Types

open AbbeyBot.Calendar AbbeyBot.Library.History AbbeyBot.Library.OrderedMap AbbeyBot.Library.Result
open AbbeyBot.Library.Text AbbeyBot.Library.Word

variable (K : WorkCrates)

/-! ### The check of the deliveries -/

/-- The person a destination is for. -/
def WorkDestination.principal : WorkDestination → Option ℕ
  | .personal principal | .teamPrivate principal => some principal
  | .teamChannel _ => none

/-- The policy delivers to the channel of the scope, where the scope is a channel. -/
def WorkAutomationPolicy.NamesChannel (p : WorkAutomationPolicy) : WorkScope → Prop
  | .team _ channel => p.destination = some channel
  | .personal _ => True

instance (p : WorkAutomationPolicy) (scope : WorkScope) : Decidable (p.NamesChannel scope) :=
  match scope with
  | .team _ channel => inferInstanceAs (Decidable (p.destination = some channel))
  | .personal _ => inferInstanceAs (Decidable True)

/-- The checks of `validate_delivery_state` on the policy under a key. -/
def WorkStore.checkPolicy (s : WorkStore) (key : String) (policy : WorkAutomationPolicy) :
    Except WorkError Unit := do
  ensure (policy.Valid K) .invalid
  let project ← orErr ((values s.projects).find? fun p => p.scope.key = key) .invalid
  ensure (policy.enabled = true → policy.NamesChannel project.scope) .invalid
  match policy.deliveryTarget with
  | none => return ()
  | some target =>
    ensure (target.FitsScope project.scope
      (s.scopeAutomationActors[key]?.getD (target.principal.getD 1))) .denied
    ensure (policy.NamesChannel project.scope) .invalid

/-- The record of a reference is there, a task in this revision or a later one. -/
def WorkStore.HoldsRef (s : WorkStore) : WorkContentRef → Prop
  | .task project id revision => ∃ t ∈ s.tasks[id]?, t.projectId = project ∧ revision ≤ t.revision
  | .decision project id revision => ∃ d ∈ s.decisions[id]?, d.projectId = project ∧ revision = 1

instance (s : WorkStore) (r : WorkContentRef) : Decidable (s.HoldsRef r) := by
  cases r <;> unfold WorkStore.HoldsRef <;> infer_instance

/-- The tasks among the sources. -/
def DeliveredProvenance.taskIds (p : DeliveredProvenance) : BTreeSet ℕ :=
  p.sourceRefs.biUnion fun r => r.taskId.toFinset

/-- The checks of `validate_delivery_state` on the provenance of a receipt. -/
def WorkStore.checkProvenance (s : WorkStore) (r : WorkDeliveryReceipt) (p : DeliveredProvenance) :
    Except WorkError Unit := do
  ensure p.Valid .invalid
  ensure (∀ source ∈ p.sourceRefs, s.HoldsRef source) .invalid
  ensure (p.taskIds = r.taskIds.toFinset ∧ (∀ c ∈ r.coverage, c.taskId ∈ p.taskIds) ∧
    ∀ id ∈ p.contributingProjects, ∃ project ∈ s.projects[id]?, some project.scope = r.scope) .invalid

/-- The channel of a receipt is not that of its destination. -/
def WorkDeliveryReceipt.WrongChannel (r : WorkDeliveryReceipt) : WorkDestination → WorkScope → Prop
  | .teamChannel channel, _ => r.recipient ≠ channel
  | .teamPrivate _, .team _ channel => r.recipient = channel
  | _, _ => False

instance (r : WorkDeliveryReceipt) (target : WorkDestination) (scope : WorkScope) :
    Decidable (r.WrongChannel target scope) := by
  cases target <;> cases scope <;> unfold WorkDeliveryReceipt.WrongChannel <;> infer_instance

/-- The checks of `validate_delivery_state` on the destination of a receipt. -/
def WorkDeliveryReceipt.checkDestination (r : WorkDeliveryReceipt) (target : WorkDestination) :
    Except WorkError Unit := do
  let scope ← orErr r.scope .invalid
  ensure (target.FitsScope scope (target.principal.getD 1)) .denied
  ensure (r.recipient ≠ 0 ∧ ¬ r.WrongChannel target scope) .invalid

/-- The checks of `validate_delivery_state` on a receipt. -/
def WorkStore.checkReceipt (s : WorkStore) (r : WorkDeliveryReceipt) : Except WorkError Unit := do
  r.provenance.elim (return ()) (s.checkProvenance r)
  r.destination.elim (return ()) r.checkDestination

/-- `WorkStore::validate_delivery_state`. -/
def WorkStore.validateDeliveryState (s : WorkStore) : Except WorkError Unit := do
  s.scopeAutomation.toList.forM fun (key, policy) => s.checkPolicy K key policy
  (values s.deliveries).forM s.checkReceipt

/-! ### The loader -/

/-- What the loader uses of the crates: also the JSON text of a provenance. -/
structure LoadingCrates extends RecallCrates where
  provenanceText : DeliveredProvenance → String

variable (L : LoadingCrates)

namespace StoredWork

/-- `WorkStore::recall_source_scope`. -/
def recallSourceScope (s : StoredWork) : WorkSourceKey → Except WorkError WorkScope
  | .task project id => do
    let task ← orErr s.records.tasks[id]? .invalid
    ensure (task.projectId = project) .invalid
    let p ← orErr s.records.projects[project]? .invalid
    return p.scope
  | .decision project id => do
    let decision ← orErr s.records.decisions[id]? .invalid
    ensure (decision.projectId = project) .invalid
    let p ← orErr s.records.projects[project]? .invalid
    return p.scope
  | .preference scope delivery _ => do
    let receipt ← orErr s.records.deliveries[delivery]? .invalid
    ensure (receipt.scope = some scope) .invalid
    return scope

/-- The checks of `validate_recall_joins` on the source of a payload. -/
def checkSource (s : StoredWork) (p : WorkEvidencePayload) : WorkSourceKey → Except WorkError Unit
  | .task _ id => do
    let task ← orErr s.records.tasks[id]? .invalid
    ensure (p.revision ≤ task.revision ∧ p.actor = some task.owner) .invalid
  | .decision _ id => do
    let decision ← orErr s.records.decisions[id]? .invalid
    ensure (p.revision = 1 ∧ p.actor = some decision.author ∧ p.at_ = some decision.at_) .invalid
  | .preference scope delivery actor => do
    let receipt ← orErr s.records.deliveries[delivery]? .invalid
    let provenance ← orErr receipt.provenance .invalid
    ensure provenance.Valid .invalid
    ensure (receipt.state = .sent ∧ receipt.messageId.isSome = true ∧ receipt.kind.isSome = true ∧
      (∃ at_ ∈ p.at_, receipt.at_ ≤ at_) ∧
      provenance.contributingProjects = p.contributingProjects ∧
      p.deliveredSourceDigest = some (L.sha256 (L.provenanceText provenance)) ∧
      ∃ profile ∈ s.records.preferences[scope.key]?, (delivery, actor) ∈ profile.observedDeliveries ∨
        ∃ e ∈ profile.evidence, e.actor = some actor ∧ e.deliveryId = delivery ∧
          e.scope = some scope) .invalid
    ensure (∀ principal ∈ receipt.destination.bind WorkDestination.principal, principal = actor)
      .invalid

/-- The checks of `validate_recall_joins` on a row. -/
def checkRow (s : StoredWork) (p : WorkEvidencePayload) : Except WorkError Unit := do
  let scope ← s.recallSourceScope p.source
  ensure (scope = p.scope ∧ ∀ id ∈ p.contributingProjects,
    ∃ project ∈ s.records.projects[id]?, project.scope = p.scope) .invalid
  s.checkSource L p p.source

/-- `WorkStore::validate_recall_joins`. -/
def validateRecallJoins (s : StoredWork) : Except WorkError Unit := do
  s.recallState.sourceVersions.keys.forM fun key => do
    let scope ← s.recallSourceScope key
    ensure (scope ∈ s.recallState.scopeControls) .invalid
  (values s.recallState.records).forM fun row => s.checkRow L row.payload
  (values s.recallState.attempts).forM fun attempt => do
    let scope ← s.recallSourceScope attempt.source
    ensure (∀ admission ∈ attempt.observedAdmission, admission.scopedGuild = scope.recallGate) .invalid

end StoredWork

/-- `WorkRecallState::recover_prepared`. -/
def WorkRecallState.recoverPrepared (r : WorkRecallState) : WorkRecallState :=
  { r with attempts := r.attempts.map fun _ attempt => { attempt with state := .unknown } }

/-- The deliveries of the scope are switched on. -/
def WorkStore.Delivers (s : WorkStore) (scope : WorkScope) : Prop :=
  ∃ policy ∈ s.scopeAutomation[scope.key]?, policy.enabled = true

instance (s : WorkStore) (scope : WorkScope) : Decidable (s.Delivers scope) :=
  inferInstanceAs (Decidable (∃ _ ∈ _, _))

/-- A scope whose deliveries are switched on has what is there for a baseline. -/
def WorkStore.seed (s : WorkStore) (scope : WorkScope) : WorkStore :=
  { s with
    changeCoverage :=
      if s.Delivers scope ∧ scope.key ∉ s.changeCoverage then
        s.changeCoverage.insert scope.key (s.contentRefs scope)
      else s.changeCoverage
    changeFingerprints :=
      if s.Delivers scope ∧ scope.key ∉ s.changeFingerprints then
        s.changeFingerprints.insert scope.key (s.contentFingerprints K scope)
      else s.changeFingerprints }

/-- `WorkStore::deserialize`, of a store that was read. -/
def StoredWork.load (s : StoredWork) : Except WorkError StoredWork := do
  RecallPolicies.validate s.recallPolicies
  s.recallState.validate L.toRecallCrates
  s.validateRecallJoins L
  s.records.validateDeliveryState K
  return { s with
    records := ((values s.records.projects).map WorkProject.scope).foldl (WorkStore.seed K) s.records
    recallState := s.recallState.recoverPrepared }

variable {K} {L}

/-! ### What passes the check -/

/-- The policy fits the scope it stands under, and the scope has a baseline where it delivers. -/
structure WorkStore.PolicyFits (K : WorkCrates) (s : WorkStore) (scope : WorkScope)
    (policy : WorkAutomationPolicy) : Prop where
  valid : policy.Valid K
  project : ∃ (id : ℕ) (p : WorkProject), s.projects[id]? = some p ∧ p.scope = scope
  channel : policy.enabled = true → policy.NamesChannel scope
  target : ∀ target ∈ policy.deliveryTarget, policy.NamesChannel scope ∧
    target.FitsScope scope (s.scopeAutomationActors[scope.key]?.getD (target.principal.getD 1))
  seeded : policy.enabled = true → scope.key ∈ s.changeCoverage ∧ scope.key ∈ s.changeFingerprints

/-- Every policy fits the scope of its key. -/
def WorkStore.PoliciesFit (K : WorkCrates) (s : WorkStore) : Prop :=
  ∀ (key : String) (policy : WorkAutomationPolicy), s.scopeAutomation[key]? = some policy →
    ∃ scope : WorkScope, key = scope.key ∧ s.PolicyFits K scope policy

/-- Every receipt passes its checks. -/
def WorkStore.ReceiptsFit (s : WorkStore) : Prop :=
  ∀ (id : ℕ) (r : WorkDeliveryReceipt), s.deliveries[id]? = some r → s.checkReceipt r = .ok ()

theorem checkPolicy_of_fits {s : WorkStore} {scope : WorkScope} {policy : WorkAutomationPolicy}
    (h : s.PolicyFits K scope policy) : s.checkPolicy K scope.key policy = .ok () := by
  -- the project that is found is one of the scope: keys tell scopes apart
  obtain ⟨p, hfind, hscope⟩ : ∃ p,
      ((values s.projects).find? fun p => p.scope.key = scope.key) = some p ∧ p.scope = scope := by
    obtain ⟨id, q, hq, hqscope⟩ := h.project
    have hsome : ((values s.projects).find? fun p => p.scope.key = scope.key).isSome = true :=
      List.find?_isSome.mpr
        ⟨q, mem_values.mpr ⟨id, hq⟩, decide_eq_true (congrArg WorkScope.key hqscope)⟩
    obtain ⟨p, hp⟩ := Option.isSome_iff_exists.mp hsome
    have hkey := List.find?_some hp
    exact ⟨p, hp, FollowUp.key_injective (of_decide_eq_true hkey)⟩
  subst hscope
  unfold WorkStore.checkPolicy
  rw [ensure_of h.valid, ok_bind, orErr_eq_ok.mpr hfind, ok_bind, ensure_of h.channel, ok_bind]
  cases htarget : policy.deliveryTarget with
  | none => rfl
  | some target =>
    obtain ⟨hchannel, hfits⟩ := h.target target htarget
    dsimp only
    rw [ensure_of hfits, ok_bind, ensure_of hchannel]

/-- A store whose policies and receipts fit passes the check. -/
theorem validateDeliveryState_of_fit {s : WorkStore} (hpolicies : s.PoliciesFit K)
    (hreceipts : s.ReceiptsFit) : s.validateDeliveryState K = .ok () := by
  unfold WorkStore.validateDeliveryState
  rw [bind_eq_ok, exists_unit, forM_eq_ok, forM_eq_ok]
  refine ⟨fun row hrow => ?_, fun r hr => ?_⟩
  · obtain ⟨scope, hkey, hfits⟩ := hpolicies row.1 row.2
      (Std.ExtTreeMap.mem_toList_iff_getElem?_eq_some.mp hrow)
    show s.checkPolicy K row.1 row.2 = .ok ()
    rw [hkey]
    exact checkPolicy_of_fits hfits
  · obtain ⟨id, hid⟩ := mem_values.mp hr
    exact hreceipts id r hid

/-! ### Receipts -/

theorem checkReceipt_eq_ok {s : WorkStore} {r : WorkDeliveryReceipt} : s.checkReceipt r = .ok () ↔
    (∀ p ∈ r.provenance, s.checkProvenance r p = .ok ()) ∧
      ∀ target ∈ r.destination, r.checkDestination target = .ok () := by
  unfold WorkStore.checkReceipt
  rw [bind_eq_ok, exists_unit, elim_eq_ok, elim_eq_ok]

theorem checkProvenance_eq_ok {s : WorkStore} {r : WorkDeliveryReceipt} {p : DeliveredProvenance} :
    s.checkProvenance r p = .ok () ↔ p.Valid ∧ (∀ source ∈ p.sourceRefs, s.HoldsRef source) ∧
      p.taskIds = r.taskIds.toFinset ∧ (∀ c ∈ r.coverage, c.taskId ∈ p.taskIds) ∧
        ∀ id ∈ p.contributingProjects, ∃ project ∈ s.projects[id]?, some project.scope = r.scope := by
  unfold WorkStore.checkProvenance
  simp only [bind_eq_ok, exists_unit, ensure_eq_ok]

/-- What a reference names is not lost. -/
theorem holdsRef_of_moves {op : WorkOp} {s s' : WorkStore} (hs : s.Numbered) (h : s.Moves K op s')
    {r : WorkContentRef} (hr : s.HoldsRef r) : s'.HoldsRef r := by
  cases r with
  | task project id revision =>
    obtain ⟨t, ht, hproject, hrevision⟩ := hr
    obtain ⟨t', ht', hversion⟩ := version_of_moves hs h ht
    exact ⟨t', ht', hversion.projectId.trans hproject, hrevision.trans hversion.revision⟩
  | decision project id revision =>
    obtain ⟨d, hd, hnamed⟩ := hr
    exact ⟨d, (losesNone_of_moves hs h).decisions id d hd, hnamed⟩

/-- A receipt that fits goes on to fit. -/
theorem checkReceipt_of_moves {op : WorkOp} {s s' : WorkStore} (hs : s.Numbered) (h : s.Moves K op s')
    {r : WorkDeliveryReceipt} (hr : s.checkReceipt r = .ok ()) : s'.checkReceipt r = .ok () := by
  obtain ⟨hprovenance, hdestination⟩ := checkReceipt_eq_ok.mp hr
  refine checkReceipt_eq_ok.mpr ⟨fun p hp => ?_, hdestination⟩
  obtain ⟨hvalid, hholds, htasks, hcoverage, hprojects⟩ := checkProvenance_eq_ok.mp (hprovenance p hp)
  refine checkProvenance_eq_ok.mpr ⟨hvalid,
    fun source hsource => holdsRef_of_moves hs h (hholds source hsource), htasks, hcoverage,
    fun id hid => ?_⟩
  obtain ⟨project, hproject, hscope⟩ := hprojects id hid
  obtain ⟨project', hproject', hscope', -⟩ := (losesNone_of_moves hs h).projects id project hproject
  exact ⟨project', hproject', by rw [hscope', hscope]⟩

/-- The check does not look at the outcome of a receipt. -/
theorem checkReceipt_version {s : WorkStore} {r r' : WorkDeliveryReceipt} (h : r.Version r') :
    s.checkReceipt r' = s.checkReceipt r := by
  rw [show r' = _ from h]
  rfl

/-! ### The receipt of a reservation -/

/-- What a scope shows is there, in a project of the scope. -/
theorem holdsRef_of_mem_contentRefs {s : WorkStore} (hs : s.Numbered) {scope : WorkScope}
    {r : WorkContentRef} (hr : r ∈ s.contentRefs scope) :
    s.HoldsRef r ∧ ∃ p, s.projects[r.project]? = some p ∧ p.scope = scope := by
  have hproject : ∀ id ∈ s.scopeIds scope, ∃ p, s.projects[id]? = some p ∧ p.scope = scope := by
    intro id hid
    obtain ⟨p, hp, rfl⟩ := List.mem_map.mp hid
    obtain ⟨hp, hscope⟩ := List.mem_filter.mp hp
    obtain ⟨key, hkey⟩ := mem_values.mp hp
    refine ⟨p, ?_, of_decide_eq_true hscope⟩
    rw [hs.projects key p hkey]
    exact hkey
  unfold WorkStore.contentRefs at hr
  rw [List.mem_toFinset, List.mem_append] at hr
  rcases hr with hr | hr
  · obtain ⟨t, ht, rfl⟩ := List.mem_map.mp hr
    obtain ⟨ht, hscope⟩ := List.mem_filter.mp ht
    obtain ⟨key, hkey⟩ := mem_values.mp ht
    refine ⟨⟨t, ?_, rfl, le_rfl⟩, hproject _ (of_decide_eq_true hscope)⟩
    rw [(hs.tasks key t hkey).1]
    exact hkey
  · obtain ⟨d, hd, rfl⟩ := List.mem_map.mp hr
    obtain ⟨hd, hscope⟩ := List.mem_filter.mp hd
    obtain ⟨key, hkey⟩ := mem_values.mp hd
    refine ⟨⟨d, ?_, rfl, rfl⟩, hproject _ (of_decide_eq_true hscope)⟩
    rw [(hs.decisions key d hkey).1]
    exact hkey

/-- What a batch is rendered from is what its receipt names. -/
theorem provenance_of_nextBatch {s : WorkStore} {scope : WorkScope} {access : WorkAccess} {now : ℕ}
    {batch : WorkBatch} (h : s.nextBatch K scope access now = .ok (some batch)) :
    batch.provenance.Valid ∧ batch.provenance.sourceRefs = batch.contentRefs ∧
      ∀ c ∈ batch.coverage, c.taskId ∈ batch.taskIds := by
  obtain ⟨plan, body, provenance, hplan, hrender, rfl⟩ := nextBatch_ok h
  obtain ⟨policy, profile, tz, destination, target, -, hplan⟩ := planBatch_ok hplan
  obtain ⟨occurrenceDay, briefing, -, -, -, rfl⟩ := plan_ok hplan
  simp only [WorkStore.renderDelivery, bind_eq_ok, ensure_eq_ok, exists_unit, pure_eq_ok,
    Prod.mk.injEq] at hrender
  obtain ⟨lines, -, -, hvalid, rfl, rfl⟩ := hrender
  refine ⟨hvalid, rfl, fun c hc => ?_⟩
  exact of_decide_eq_true (List.mem_filter.mp hc).2

/-- The scope of an access that a project of it admits. -/
theorem channel_of_authorize {p : WorkProject} {access : WorkAccess} {manager : Bool}
    (h : p.authorize access manager) {guild channel : ℕ} (hscope : p.scope = .team guild channel) :
    access.channel = channel := by
  have hfrom := h.2.1
  rw [hscope] at hfrom
  exact hfrom.2.1

/-- A destination that fits somebody fits the person it is for. -/
theorem fitsScope_principal {target : WorkDestination} {scope : WorkScope} {actor : ℕ}
    (h : target.FitsScope scope actor) : target.FitsScope scope (target.principal.getD 1) := by
  cases target with
  | personal principal =>
    cases scope with
    | personal owner => exact ⟨h.1, h.2.1, rfl⟩
    | team guild origin => exact h.elim
  | teamChannel channel =>
    cases scope with
    | personal owner => exact h.elim
    | team guild origin => exact h
  | teamPrivate principal =>
    cases scope with
    | personal owner => exact h.elim
    | team guild origin => exact ⟨h.1, rfl⟩

theorem target_eq_ok {policy : WorkAutomationPolicy} {scope : WorkScope} {access : WorkAccess}
    {target : WorkDestination} : policy.target scope access = .ok target ↔
      (policy.deliveryTarget.getD scope.destination).FitsScope scope access.actor ∧
        (policy.enabled = true → policy.destination = some access.channel) ∧
          policy.deliveryTarget.getD scope.destination = target := by
  simp only [WorkAutomationPolicy.target, bind_eq_ok, exists_unit, ensure_eq_ok, pure_eq_ok]

/-- The policy and the destination that a batch was planned with. -/
theorem target_of_nextBatch {s : WorkStore} {scope : WorkScope} {access : WorkAccess} {now : ℕ}
    {batch : WorkBatch} (h : s.nextBatch K scope access now = .ok (some batch)) :
    batch.target.FitsScope scope access.actor ∧ batch.destination = access.channel ∧
      batch.destination ≠ 0 ∧
      ∀ guild channel, scope = .team guild channel → access.channel = channel := by
  obtain ⟨plan, body, provenance, hplan, -, rfl⟩ := nextBatch_ok h
  obtain ⟨policy, profile, tz, destination, target, hplanned, hplan⟩ := planBatch_ok hplan
  obtain ⟨occurrenceDay, briefing, -, -, -, rfl⟩ := plan_ok hplan
  obtain ⟨hfits, hchannel, htarget⟩ := target_eq_ok.mp hplanned.targets
  rw [htarget] at hfits
  have hdestination := hchannel hplanned.enabled
  refine ⟨hfits, ?_, ?_, fun guild channel hscope => ?_⟩
  · exact Option.some.inj (hplanned.channel.symm.trans hdestination)
  · exact fun hzero => hplanned.valid.destination (hplanned.channel.trans (congrArg some hzero))
  · obtain ⟨p, hp⟩ := List.exists_mem_of_ne_nil _ hplanned.someProject
    exact channel_of_authorize (hplanned.authorized p hp)
      ((of_decide_eq_true (List.mem_filter.mp hp).2).trans hscope)

/-- A delivery to the channel of its scope goes to the channel it names. -/
theorem not_wrongChannel_of_public {r : WorkDeliveryReceipt} {target : WorkDestination}
    {scope : WorkScope} {actor : ℕ} (hfits : target.FitsScope scope actor)
    (hpublic : ∀ principal, target ≠ .teamPrivate principal)
    (horigin : ∀ guild channel, scope = .team guild channel → r.recipient = channel) :
    ¬ r.WrongChannel target scope := by
  cases target with
  | personal principal => exact not_false
  | teamPrivate principal => exact absurd rfl (hpublic principal)
  | teamChannel channel =>
    cases scope with
    | personal owner => exact hfits.elim
    | team guild origin => exact fun hwrong => hwrong ((horigin guild origin rfl).trans hfits.2.symm)

/-- The receipt of the next batch passes its checks. -/
theorem checkReceipt_of_nextBatch {s : WorkStore} (hs : s.Numbered) {op : WorkOp} {access : WorkAccess}
    {batch : WorkBatch} {channel now : ℕ} (hop : op.Reserves access batch channel now)
    (h : s.nextBatch K batch.scope access now = .ok (some batch)) (id project : ℕ) :
    s.checkReceipt (batch.receipt id project channel now) = .ok () := by
  obtain ⟨hvalid, hrefs, hcoverage⟩ := provenance_of_nextBatch h
  obtain ⟨hfits, hdestination, hzero, horigin⟩ := target_of_nextBatch h
  obtain ⟨_, _, _, _, _, -, hfreezes⟩ := freezes_of_nextBatch h
  have hrecords : ∀ source ∈ batch.provenance.sourceRefs, s.HoldsRef source ∧
      ∃ p, s.projects[source.project]? = some p ∧ p.scope = batch.scope := fun source hsource =>
    holdsRef_of_mem_contentRefs hs (mem_contentRefs_of_nextBatch h (hrefs ▸ hsource))
  have htasks : batch.provenance.taskIds = batch.taskIds.toFinset := by
    ext id
    unfold DeliveredProvenance.taskIds
    rw [List.mem_toFinset, hfreezes.taskIds, hrefs]
    simp only [Finset.mem_biUnion, Option.mem_toFinset, Option.mem_def]
  refine checkReceipt_eq_ok.mpr ⟨fun p hp => ?_, fun target htarget => ?_⟩
  · cases hp
    refine checkProvenance_eq_ok.mpr ⟨hvalid, fun source hsource => (hrecords source hsource).1, htasks,
      fun c hc => ?_, fun id hid => ?_⟩
    · rw [htasks]
      exact List.mem_toFinset.mpr (hcoverage c hc)
    · rw [hvalid.projects] at hid
      obtain ⟨source, hsource, rfl⟩ := Finset.mem_image.mp hid
      obtain ⟨-, q, hq, hscope⟩ := hrecords source hsource
      exact ⟨q, hq, congrArg some hscope⟩
  · cases htarget
    unfold WorkDeliveryReceipt.checkDestination
    rw [show (batch.receipt id project channel now).scope = some batch.scope from rfl]
    rw [orErr_eq_ok.mpr rfl, ok_bind, ensure_of (fitsScope_principal hfits), ok_bind]
    refine ensure_of ?_
    show channel ≠ 0 ∧ _
    obtain ⟨-, rfl, hpublic⟩ | ⟨-, htarget, hdm, hapart⟩ := hop
    · exact ⟨hzero, not_wrongChannel_of_public hfits hpublic fun guild channel hscope =>
        hdestination.trans (horigin guild channel hscope)⟩
    · refine ⟨hdm, ?_⟩
      rw [htarget]
      cases hscope : batch.scope with
      | personal owner => exact not_false
      | team guild origin =>
        exact fun hwrong => hapart (hwrong.trans (horigin guild origin hscope).symm)

/-- The receipts fit after every operation. -/
theorem receiptsFit_of_moves {op : WorkOp} {s s' : WorkStore} (hs : s.Numbered)
    (hreceipts : s.ReceiptsFit) (h : s.Moves K op s') : s'.ReceiptsFit := by
  have hsame : ∀ (id : ℕ) (r : WorkDeliveryReceipt), s.deliveries[id]? = some r →
      s'.checkReceipt r = .ok () := fun id r hr => checkReceipt_of_moves hs h (hreceipts id r hr)
  intro id r hr
  cases h with
  | settings h => exact hsame id r (h.deliveries ▸ hr)
  | project hop hp h => exact hsame id r hr
  | tasks h => exact hsame id r hr
  | receipts h =>
    obtain ⟨r₀, hr₀, hversion⟩ := h.back hr
    rw [checkReceipt_version hversion]
    exact hsame id r₀ hr₀
  | create hkey hnew hmax h =>
    refine hsame id r ?_
    cases h <;> exact hr
  | reserve hop hnext hproject hmax =>
    rcases getElem?_insert_cases hr with ⟨-, rfl⟩ | hr
    · exact checkReceipt_of_moves hs (.reserve hop hnext hproject hmax)
        (checkReceipt_of_nextBatch hs hop hnext _ _)
    · exact hsame id r hr

/-! ### Policies -/

/-- A scope that has projects goes on to have them, and a policy that fits goes on to fit where nothing
is written to the policies. -/
theorem policiesFit_of_same {s s' : WorkStore} (hkeeps : s.LosesNone s') (hfits : s.PoliciesFit K)
    (hpolicies : s'.scopeAutomation = s.scopeAutomation)
    (hactors : s'.scopeAutomationActors = s.scopeAutomationActors)
    (hcoverage : ∀ key ∈ s.changeCoverage, key ∈ s'.changeCoverage)
    (hfingerprints : ∀ key ∈ s.changeFingerprints, key ∈ s'.changeFingerprints) :
    s'.PoliciesFit K := by
  intro key policy hpolicy
  rw [hpolicies] at hpolicy
  obtain ⟨scope, rfl, h⟩ := hfits key policy hpolicy
  obtain ⟨id, p, hp, hscope⟩ := h.project
  obtain ⟨p', hp', hscope', -⟩ := hkeeps.projects id p hp
  exact ⟨scope, rfl,
    { valid := h.valid
      project := ⟨id, p', hp', hscope'.trans hscope⟩
      channel := h.channel
      target := by
        rw [hactors]
        exact h.target
      seeded := fun hon => ⟨hcoverage _ (h.seeded hon).1, hfingerprints _ (h.seeded hon).2⟩ }⟩

/-- What is written where a policy is configured. -/
structure WorkStore.Configured (K : WorkCrates) (s : WorkStore) (scope : WorkScope)
    (access : WorkAccess) (policy : WorkAutomationPolicy) (s' : WorkStore) : Prop where
  someProject : s.projectsOf scope ≠ []
  authorized : ∀ p ∈ s.projectsOf scope, p.authorize access true
  valid : policy.Valid K
  target : ∃ target, policy.target scope access = .ok target
  projects : s'.projects = s.projects
  policies : ∃ revision, s'.scopeAutomation =
    s.scopeAutomation.insert scope.key { policy with revision := revision }
  actors : s'.scopeAutomationActors =
    if policy.enabled = true then s.scopeAutomationActors.insert scope.key access.actor
    else s.scopeAutomationActors.erase scope.key
  coverage : ∀ key, key ∈ s'.changeCoverage ↔
    key ∈ s.changeCoverage ∨ policy.enabled = true ∧ key = scope.key
  fingerprints : ∀ key, key ∈ s'.changeFingerprints ↔
    key ∈ s.changeFingerprints ∨ policy.enabled = true ∧ key = scope.key

/-- A key is added where it was asked for, unless it is there. -/
theorem mem_seeded {β : Type} {m : BTreeMap String β} {on : Prop} [Decidable on] {key key' : String}
    {v : β} : (key' ∈ if on ∧ key ∉ m then m.insert key v else m) ↔ key' ∈ m ∨ on ∧ key' = key := by
  split_ifs with hseed
  · rw [mem_insert_iff]
    constructor
    · rintro (rfl | hmem)
      · exact .inr ⟨hseed.1, rfl⟩
      · exact .inl hmem
    · rintro (hmem | ⟨-, rfl⟩)
      · exact .inr hmem
      · exact .inl rfl
  · constructor
    · exact .inl
    · rintro (hmem | ⟨hon, rfl⟩)
      · exact hmem
      · by_contra hnone
        exact hseed ⟨hon, hnone⟩

theorem configureAutomation_ok {scope : WorkScope} {access : WorkAccess} {policy : WorkAutomationPolicy}
    {s s' : WorkStore} {u : Unit} (h : s.configureAutomation K scope access policy = .ok (u, s')) :
    s.Configured K scope access policy s' := by
  simp only [WorkStore.configureAutomation, bind_eq_ok, scopeProjects_eq_ok, ensure_eq_ok, exists_unit,
    pure_eq_ok, Prod.mk.injEq, true_and] at h
  obtain ⟨_, ⟨hsome, hadmits, -⟩, hvalid, target, htarget, revision, -, rfl⟩ := h
  exact ⟨hsome, hadmits, hvalid, ⟨target, htarget⟩, rfl, ⟨revision, rfl⟩, rfl, fun _ => mem_seeded,
    fun _ => mem_seeded⟩

/-- A policy that was configured fits, if it names the channel of its scope where it has a target. -/
theorem policyFits_of_configured {s s' : WorkStore} {scope : WorkScope} {access : WorkAccess}
    {policy : WorkAutomationPolicy} (h : s.Configured K scope access policy s')
    (hnames : policy.deliveryTarget.isSome = true → policy.NamesChannel scope) (revision : ℕ) :
    s'.PolicyFits K scope { policy with revision := revision } := by
  obtain ⟨p, hp⟩ := List.exists_mem_of_ne_nil _ h.someProject
  have hscope : p.scope = scope := of_decide_eq_true (List.mem_filter.mp hp).2
  obtain ⟨target, htarget⟩ := h.target
  obtain ⟨hfits, hchannel, -⟩ := target_eq_ok.mp htarget
  refine ⟨⟨h.valid.hours, h.valid.limit, h.valid.timezone, h.valid.destination, h.valid.target,
    h.valid.enabled⟩, ?_, fun hon => ?_, fun target₀ htarget₀ => ⟨?_, ?_⟩, fun hon => ?_⟩
  · obtain ⟨id, hid⟩ := mem_values.mp (List.mem_filter.mp hp).1
    exact ⟨id, p, h.projects ▸ hid, hscope⟩
  · cases scope with
    | personal owner => exact trivial
    | team guild channel =>
      show policy.destination = some channel
      rw [hchannel hon, channel_of_authorize (h.authorized p hp) hscope]
  · exact hnames (Option.isSome_iff_exists.mpr ⟨target₀, htarget₀⟩)
  · rw [show policy.deliveryTarget = some target₀ from htarget₀, Option.getD_some] at hfits
    rw [h.actors]
    split_ifs with hon
    · rw [getElem?_insert, if_pos rfl]
      exact hfits
    · rw [show (s.scopeAutomationActors.erase scope.key)[scope.key]? = none from by simp]
      exact fitsScope_principal hfits
  · exact ⟨(h.coverage _).mpr (.inr ⟨hon, rfl⟩), (h.fingerprints _).mpr (.inr ⟨hon, rfl⟩)⟩

/-- The policies fit after one was configured. -/
theorem policiesFit_of_configured {s s' : WorkStore} {scope : WorkScope} {access : WorkAccess}
    {policy : WorkAutomationPolicy} (hfits : s.PoliciesFit K)
    (h : s.Configured K scope access policy s')
    (hnames : policy.deliveryTarget.isSome = true → policy.NamesChannel scope) : s'.PoliciesFit K := by
  obtain ⟨revision, hpolicies⟩ := h.policies
  intro key policy' hpolicy
  rw [hpolicies, getElem?_insert] at hpolicy
  split_ifs at hpolicy with hkey
  · cases hpolicy
    exact ⟨scope, hkey.symm, policyFits_of_configured h hnames revision⟩
  · obtain ⟨scope', rfl, hold⟩ := hfits key policy' hpolicy
    refine ⟨scope', rfl, hold.valid, ?_, hold.channel, ?_, fun hon => ?_⟩
    · rw [h.projects]
      exact hold.project
    · have hactor : s'.scopeAutomationActors[scope'.key]? = s.scopeAutomationActors[scope'.key]? := by
        rw [h.actors]
        split_ifs
        · rw [getElem?_insert, if_neg hkey]
        · simp [Std.ExtTreeMap.getElem?_erase, hkey]
      rw [hactor]
      exact hold.target
    · exact ⟨(h.coverage _).mpr (.inl (hold.seeded hon).1),
        (h.fingerprints _).mpr (.inl (hold.seeded hon).2)⟩

/-- An update names the channel it is made in. -/
theorem namesChannel_of_update {policy policy' : WorkAutomationPolicy} {access : WorkAccess}
    {update : WorkAutomationUpdate} (h : policy.update access update = .ok policy') :
    policy'.NamesChannel access.scope := by
  have hdestination : policy'.destination = some access.channel := by
    unfold WorkAutomationPolicy.update at h
    split at h
    · simp only [bind_eq_ok, pure_eq_ok] at h
      obtain ⟨_, -, _, -, rfl⟩ := h
      rfl
    · simp only [bind_eq_ok, pure_eq_ok] at h
      obtain ⟨_, -, rfl⟩ := h
      rfl
  unfold WorkAccess.scope
  cases access.guild with
  | none => exact trivial
  | some guild => exact hdestination

theorem policiesFit_withProfile {s : WorkStore} (hfits : s.PoliciesFit K) (scope : WorkScope)
    (p : WorkPreferenceProfile) : (s.withProfile scope p).PoliciesFit K :=
  policiesFit_of_same { WorkStore.LosesNone.refl s with } hfits rfl rfl (fun _ hkey => hkey)
    fun _ hkey => hkey

/-- Another number, and other receipts, change no policy. -/
theorem policiesFit_deliveries {s : WorkStore} (hfits : s.PoliciesFit K) (sequence : ℕ)
    (deliveries : BTreeMap ℕ WorkDeliveryReceipt) :
    { s with sequence := sequence, deliveries := deliveries }.PoliciesFit K :=
  policiesFit_of_same { WorkStore.LosesNone.refl s with } hfits rfl rfl (fun _ hkey => hkey)
    fun _ hkey => hkey

theorem updateAutomation_policiesFit {s : WorkStore} (hfits : s.PoliciesFit K) (access : WorkAccess)
    (update : WorkAutomationUpdate) (configuredOwner : Option String) :
    (s.updateAutomation K access update configuredOwner).2.PoliciesFit K := by
  unfold WorkStore.updateAutomation
  split
  · exact hfits
  · rename_i s' h
    simp only [bind_eq_ok] at h
    obtain ⟨-, -, policy, -, policy', hupdate, hconfigure⟩ := h
    have hfits' := policiesFit_of_configured hfits (configureAutomation_ok hconfigure)
      fun _ => namesChannel_of_update hupdate
    split
    · refine commit_keeps (P := WorkStore.PoliciesFit K) hfits' fun u s'' h'' => ?_
      rw [controlPreferences_ok h'']
      exact policiesFit_withProfile hfits' _ _
    · exact hfits'

theorem feedback_policiesFit {s : WorkStore} (hfits : s.PoliciesFit K) (access : WorkAccess)
    (deliveryId : ℕ) (feedback : Option WorkFeedback) (correction : Bool) (now : ℕ) :
    (s.feedback access deliveryId feedback correction now).2.PoliciesFit K := by
  unfold WorkStore.feedback
  split
  · exact hfits
  · have hstored := policiesFit_withProfile hfits access.scope (s.profile access.scope)
    dsimp only
    split_ifs
    · split
      · exact hstored
      · exact policiesFit_withProfile hstored _ _
    · split
      · exact hstored
      · split
        · exact hstored
        · exact policiesFit_withProfile hstored _ _

/-- A reservation covers content, and leaves the policies alone. -/
theorem reserveResolvedBatch_policiesFit {s : WorkStore} (hfits : s.PoliciesFit K) (access : WorkAccess)
    (batch : WorkBatch) (channel now : ℕ) :
    (s.reserveResolvedBatch K access batch channel now).2.PoliciesFit K := by
  unfold WorkStore.reserveResolvedBatch
  split
  · exact hfits
  · rename_i id s' h
    simp only [bind_eq_ok, ensure_eq_ok, exists_unit, nextId_eq_ok] at h
    obtain ⟨_, -, -, -, -, -, rfl, rfl⟩ := h
    split
    · exact policiesFit_deliveries hfits _ s.deliveries
    · exact policiesFit_of_same { WorkStore.LosesNone.refl s with } hfits rfl rfl
        (fun key hkey => mem_insert_iff.mpr (.inr hkey)) fun key hkey => mem_insert_iff.mpr (.inr hkey)

/-- A policy that is configured as a whole names the channel of its scope where it has a target;
`update_automation` sees to that. -/
def WorkOp.NamesChannel : WorkOp → Prop
  | .configureAutomation scope _ policy =>
    policy.deliveryTarget.isSome = true → policy.NamesChannel scope
  | _ => True

/-- The check refuses a policy with a target that does not name the channel of its scope. -/
theorem namesChannel_of_accepted {s : WorkStore} (h : s.validateDeliveryState K = .ok ())
    {scope : WorkScope} {policy : WorkAutomationPolicy}
    (hpolicy : s.scopeAutomation[scope.key]? = some policy)
    (htarget : policy.deliveryTarget.isSome = true) : policy.NamesChannel scope := by
  unfold WorkStore.validateDeliveryState at h
  rw [bind_eq_ok, exists_unit, forM_eq_ok] at h
  have hcheck : s.checkPolicy K scope.key policy = .ok () :=
    h.1 (scope.key, policy) (Std.ExtTreeMap.mem_toList_iff_getElem?_eq_some.mpr hpolicy)
  obtain ⟨target, htarget⟩ := Option.isSome_iff_exists.mp htarget
  unfold WorkStore.checkPolicy at hcheck
  rw [htarget] at hcheck
  simp only [bind_eq_ok, orErr_eq_ok, ensure_eq_ok, exists_unit] at hcheck
  obtain ⟨-, p, hfind, -, -, hchannel⟩ := hcheck
  have hkey := List.find?_some hfind
  rw [← FollowUp.key_injective (of_decide_eq_true hkey)]
  exact hchannel

/-- **One operation** leaves policies that fit. -/
theorem step_policiesFit {s : WorkStore} (hs : s.Numbered) (hfits : s.PoliciesFit K) {op : WorkOp}
    (hop : op.NamesChannel) : (s.step K op).2.PoliciesFit K := by
  by_cases hregistry : op.OfRegistry
  · have hquiet := step_quiet (K := K) (s := s) hregistry
    exact policiesFit_of_same (losesNone_of_moves hs (step_moves hs op)) hfits hquiet.policies
      hquiet.actors (fun key hkey => hquiet.coverage ▸ hkey) fun key hkey => hquiet.fingerprints ▸ hkey
  cases op with
  | configureAutomation scope access policy =>
    exact commit_keeps (P := WorkStore.PoliciesFit K) hfits fun _ _ h =>
      policiesFit_of_configured hfits (configureAutomation_ok h) hop
  | updateAutomation access update configuredOwner =>
    exact updateAutomation_policiesFit hfits access update configuredOwner
  | controlPreferences access enabled explicitHour reset =>
    refine commit_keeps (P := WorkStore.PoliciesFit K)
      (r := s.controlPreferences access enabled explicitHour reset) hfits fun u s' h => ?_
    rw [controlPreferences_ok h]
    exact policiesFit_withProfile hfits _ _
  | feedback access deliveryId feedback correction now =>
    exact feedback_policiesFit hfits access deliveryId feedback correction now
  | reserveBatch access batch now =>
    unfold WorkStore.step numbered WorkStore.reserveBatch
    dsimp only
    split
    · exact hfits
    · exact reserveResolvedBatch_policiesFit hfits access batch _ now
  | reservePrivateBatch access batch dmChannel now =>
    unfold WorkStore.step numbered WorkStore.reservePrivateBatch
    dsimp only
    split_ifs
    · exact reserveResolvedBatch_policiesFit hfits access batch dmChannel now
    · exact hfits
  | settleDelivery id message =>
    refine commit_keeps (P := WorkStore.PoliciesFit K) (r := s.settleDelivery id message) hfits
      fun u s' h => ?_
    simp only [WorkStore.settleDelivery, bind_eq_ok, orErr_eq_ok, ensure_eq_ok, exists_unit,
      pure_eq_ok, Prod.mk.injEq, true_and] at h
    obtain ⟨r, -, -, rfl⟩ := h
    exact policiesFit_deliveries hfits s.sequence _
  | markInterruptedDeliveries => exact policiesFit_deliveries hfits s.sequence _
  | _ => exact (hregistry trivial).elim

/-! ### The loader -/

/-- A store that passes the checks of its loader, and that the loader changes nothing of. -/
structure StoredWork.Loadable (K : WorkCrates) (s : StoredWork) : Prop where
  numbered : s.records.Numbered
  policies : s.records.PoliciesFit K
  receipts : s.records.ReceiptsFit
  recallState : s.recallState = .default
  recallPolicies : RecallPolicies.validate s.recallPolicies = .ok ()

theorem loadable_empty : StoredWork.empty.Loadable K where
  numbered := numbered_empty
  policies key policy h := by simp [StoredWork.empty, WorkStore.empty] at h
  receipts id r h := by simp [StoredWork.empty, WorkStore.empty] at h
  recallState := rfl
  recallPolicies := by decide +kernel

/-- **One operation** on the store. -/
theorem StoredWork.Loadable.step {s : StoredWork} (hs : s.Loadable K) {op : StoredOp}
    (hop : ∀ work, op = .records work → work.NamesChannel) : (s.step K op).2.Loadable K := by
  cases op with
  | records work =>
    have hmoves := step_moves (K := K) hs.numbered work
    exact
      { numbered := numbered_of_moves hs.numbered hmoves
        policies := step_policiesFit hs.numbered hs.policies (hop work rfl)
        receipts := receiptsFit_of_moves hs.numbered hs.receipts hmoves
        recallState := by
          show s.records.tell K work s.recallState = .default
          rw [hs.recallState]
          exact tell_default _ _
        recallPolicies := hs.recallPolicies }
  | configureRecall access enabled expectedRevision =>
    refine commit_keeps (P := StoredWork.Loadable K)
      (r := s.configureRecall access enabled expectedRevision) hs fun policy s' h => ?_
    simp only [StoredWork.configureRecall, bind_eq_ok, ensure_eq_ok, exists_unit] at h
    obtain ⟨_, -, -, h⟩ := h
    split_ifs at h
    · simp only [pure_eq_ok, Prod.mk.injEq] at h
      exact h.2 ▸ hs
    · simp only [bind_eq_ok, exists_unit, pure_eq_ok, Prod.mk.injEq] at h
      obtain ⟨revision, -, hvalid, -, rfl⟩ := h
      exact { hs with recallPolicies := hvalid }
  | recordGithubSnapshot reference snapshot =>
    refine commit_keeps (P := StoredWork.Loadable K) (r := s.recordGithubSnapshot reference snapshot) hs
      fun u s' h => ?_
    simp only [StoredWork.recordGithubSnapshot, bind_eq_ok, ensure_eq_ok, exists_unit, pure_eq_ok,
      Prod.mk.injEq, true_and] at h
    obtain ⟨-, -, -, -, -, rfl⟩ := h
    exact { hs with }
  | confirmGithubNotModified reference refreshedAt =>
    refine commit_keeps (P := StoredWork.Loadable K)
      (r := s.confirmGithubNotModified reference refreshedAt) hs fun u s' h => ?_
    simp only [StoredWork.confirmGithubNotModified, bind_eq_ok, ensure_eq_ok, exists_unit, pure_eq_ok,
      Prod.mk.injEq, true_and] at h
    obtain ⟨-, -, _, -, -, rfl⟩ := h
    exact { hs with }
  | markGithubStale reference => exact { hs with }

/-- A scope that has its baseline is given no other. -/
theorem seed_of_fit {s : WorkStore} (hfits : s.PoliciesFit K) (scope : WorkScope) :
    s.seed K scope = s := by
  have hseeded : s.Delivers scope →
      scope.key ∈ s.changeCoverage ∧ scope.key ∈ s.changeFingerprints := by
    rintro ⟨policy, hpolicy, hon⟩
    obtain ⟨scope', hkey, h⟩ := hfits _ policy hpolicy
    rw [hkey]
    exact h.seeded hon
  unfold WorkStore.seed
  rw [if_neg fun h => h.2 (hseeded h.1).1, if_neg fun h => h.2 (hseeded h.1).2]

/-- A recall state that nothing was admitted to passes its check. -/
theorem validate_default (R : RecallCrates) : WorkRecallState.default.validate R = .ok () := by
  unfold WorkRecallState.validate
  simp only [bind_eq_ok, exists_unit, ensure_eq_ok]
  exact ⟨rfl, by decide, [], rfl, rfl, rfl, ⟨[], [], 0⟩, rfl, by decide, [], rfl, by decide⟩

theorem load_of_loadable {s : StoredWork} (hs : s.Loadable K) : s.load K L = .ok s := by
  have hrecall : s.recallState.validate L.toRecallCrates = .ok () := by
    rw [hs.recallState]
    exact validate_default _
  have hjoins : s.validateRecallJoins L = .ok () := by
    unfold StoredWork.validateRecallJoins
    rw [hs.recallState]
    rfl
  have hrecovered : s.recallState.recoverPrepared = s.recallState := by
    rw [hs.recallState]
    rfl
  have hseed : ∀ scopes : List WorkScope, scopes.foldl (WorkStore.seed K) s.records = s.records := by
    intro scopes
    induction scopes with
    | nil => rfl
    | cons scope scopes ih =>
      rw [List.foldl_cons, seed_of_fit hs.policies]
      exact ih
  unfold StoredWork.load
  rw [hs.recallPolicies, ok_bind, hrecall, ok_bind, hjoins, ok_bind,
    validateDeliveryState_of_fit hs.policies hs.receipts, ok_bind, hseed, hrecovered]
  rfl

/-- **Acceptance** along every run: what the operations leave passes the check of its deliveries, and
the loader reads it back as it is. -/
theorem loads_along_run {h : List (Event StoredWork StoredOp (Except WorkError (Option ℕ)))}
    {s : StoredWork} (hrun : Run (StoredWork.step K) .empty h s)
    (hops : ∀ e ∈ h, ∀ work, e.op = .records work → work.NamesChannel) :
    s.records.validateDeliveryState K = .ok () ∧ s.load K L = .ok s := by
  have hs : s.Loadable K := by
    induction hrun with
    | nil => exact loadable_empty
    | cons op hrun ih =>
      refine (ih fun e he => hops e (List.mem_cons_of_mem _ he)).step fun work hwork => ?_
      exact hops _ List.mem_cons_self work hwork
  exact ⟨validateDeliveryState_of_fit hs.policies hs.receipts, load_of_loadable hs⟩

/-! ### A run with a private delivery -/

/-- The task as it is digested for its fingerprint. -/
def writeJson : String := "[\"Write\",\"open\",1,1,null,null,null,null,null]"

/-- The SHA-256 of that text, and of the text that is delivered. -/
def writeSha256 (text : String) : Hash :=
  if text = writeJson then
    ⟨[255, 210, 149, 229, 72, 203, 111, 223, 111, 212, 59, 219, 150, 68, 180, 36, 133, 227, 77, 252,
      39, 83, 118, 136, 153, 224, 10, 213, 24, 120, 190, 76], by decide⟩
  else
    ⟨[72, 132, 144, 193, 17, 9, 254, 208, 130, 66, 83, 202, 230, 102, 185, 99, 94, 239, 90, 242, 9,
      43, 224, 129, 255, 131, 115, 76, 89, 115, 139, 140], by decide⟩

def privateCrates : WorkCrates where
  toZones := utcZones
  sha256 := writeSha256
  json content := if content = sampleTask.content then writeJson else ""

def teamAccess : WorkAccess := { sampleAccess with guild := some 7, canManage := true }

/-- A task with a reminder in a channel, whose deliveries go to the manager alone. -/
def privateOps : List StoredOp :=
  [.records (.createProject teamAccess "Plan" "a"), .records (.addTask teamAccess sampleTask "t"),
    .records (.updateAutomation teamAccess { reminderUpdate with privateToMe := some true } none),
    .records (.setReminder teamAccess 2 0 (some 43200)), .configureRecall teamAccess true 0]

def privateStore : StoredWork := (play (StoredWork.step privateCrates) .empty privateOps).2

/-- The batch that is due a second later. -/
def privateBatch : WorkBatch :=
  (privateStore.records.nextBatch privateCrates (.team 7 5) teamAccess 43201).toOption.join.get
    (by decide +kernel)

/-- The batch is sent to the manager, who finds it useful. -/
def deliveredOps : List StoredOp :=
  privateOps ++ [.records (.reservePrivateBatch teamAccess privateBatch 9 43201),
    .records (.settleDelivery 3 (some 11)),
    .records (.feedback teamAccess 3 (some .useful) false 43300)]

def deliveredStore : StoredWork := (play (StoredWork.step privateCrates) .empty deliveredOps).2

/-- Nothing is admitted, so the loader measures no row. -/
def emptyLoading : LoadingCrates where
  payloadText _ := ""
  sha256 _ := ""
  sourceSize _ := 0
  versionSize _ _ := 0
  controlSize _ _ := 0
  attemptSize _ := 0
  terminalSize _ := 0
  provenanceText _ := ""

/-- The delivery and its policy are read back. -/
theorem deliveredStore_loads : deliveredStore.records.deliveries.size = 1 ∧
    deliveredStore.records.Delivers (.team 7 5) ∧
    deliveredStore.records.validateDeliveryState privateCrates = .ok () ∧
    deliveredStore.load privateCrates emptyLoading = .ok deliveredStore := by
  refine ⟨by decide +kernel, by decide +kernel, ?_⟩
  refine loads_along_run (run_play _ deliveredOps) fun e he work hwork => ?_
  have hop := op_mem_of_mem_play he
  rw [hwork] at hop
  simp only [deliveredOps, privateOps, List.cons_append, List.nil_append, List.mem_cons,
    List.not_mem_nil, or_false, StoredOp.records.injEq, reduceCtorEq, false_or] at hop
  rcases hop with rfl | rfl | rfl | rfl | rfl | rfl | rfl <;> exact trivial

end AbbeyBot.Work.Types
