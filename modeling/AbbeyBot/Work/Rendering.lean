import Mathlib
import AbbeyBot.Work.Requests

/-! # The text of a delivery

Every line of a text is bounded: titles are shortened and numbers have sixty-four bits. A plan names
at most eight records, all of them current and each under an id of its own. So the text of a plan is
within the limit of a message and its provenance is valid, in whatever state the store is in. -/

namespace AbbeyBot.Work.Types

open AbbeyBot.Calendar AbbeyBot.Library.History AbbeyBot.Library.OrderedMap AbbeyBot.Library.Result
open AbbeyBot.Library.Text AbbeyBot.Library.Word

variable {K : WorkCrates}

/-! ### Lines -/

theorem length_toString_of_u64 {n : ℕ} (h : n ≤ u64Max) : (toString n).length ≤ 20 := by
  rw [← String.length_toList]
  exact length_toString_le (by decide) (h.trans_lt (by decide))

/-- A shortened text has thirteen characters more than its limit. -/
theorem length_shortened (text : String) (limit : ℕ) :
    (shortened text limit).length ≤ limit + 13 := by
  have hmark : "… [shortened]".length = 13 := rfl
  unfold shortened
  split_ifs with h
  · rw [String.length_append, hmark, String.length_ofList]
    have := List.length_take_le limit text.toList
    omega
  · omega

theorem WorkStatus.length_label (status : WorkStatus) : status.label.length ≤ 11 := by
  cases status <;> decide

/-- The numbers of a task that are shown. -/
structure WorkTask.Fits (t : WorkTask) : Prop where
  priority : t.priority ≤ 3
  revision : t.revision ≤ u64Max
  dueAt : ∀ at_ ∈ t.dueAt, at_ ≤ u64Max

theorem WorkTask.length_line {t : WorkTask} (ht : t.Fits) {id : ℕ} (hid : id ≤ u64Max) :
    (t.line id t.revision).length ≤ 202 := by
  have hid := length_toString_of_u64 hid
  have hrevision := length_toString_of_u64 ht.revision
  have htitle := length_shortened t.title 80
  have hlabel := t.status.length_label
  have hpriority : (toString t.priority).length ≤ 1 := by
    rw [← String.length_toList]
    exact length_toString_le (by decide) (by have := ht.priority; omega)
  have hdue : (t.dueAt.elim "none" toString).length ≤ 20 := by
    cases hat : t.dueAt with
    | none => decide
    | some at_ => exact length_toString_of_u64 (ht.dueAt at_ hat)
  have h₁ : "Task #".length = 6 := rfl
  have h₂ : " r".length = 2 := rfl
  have h₃ : ": ".length = 2 := rfl
  have h₄ : " — ".length = 3 := rfl
  have h₅ : " (priority ".length = 11 := rfl
  have h₆ : "; deadline ".length = 11 := rfl
  have h₇ : ").".length = 2 := rfl
  unfold WorkTask.line
  simp only [String.length_append]
  omega

theorem WorkDecision.length_line (d : WorkDecision) {id : ℕ} (hid : id ≤ u64Max) :
    (d.line id).length ≤ 202 := by
  have hid := length_toString_of_u64 hid
  have htext := length_shortened d.text 100
  have h₁ : "Decision #".length = 10 := rfl
  have h₂ : ": ".length = 2 := rfl
  unfold WorkDecision.line
  simp only [String.length_append]
  omega

theorem length_omissionLine {omitted : ℕ} (h : omitted ≤ u64Max) :
    (omissionLine omitted).length ≤ 112 := by
  have homitted := length_toString_of_u64 h
  have h₁ : "Partial update: ".length = 16 := rfl
  have h₂ : (" additional work item(s) omitted; inspect the workspace for the full list.").length = 74 :=
    rfl
  unfold omissionLine
  simp only [String.length_append]
  omega

/-- Eight lines and the omission line are within the limit of a message. -/
theorem length_body {lines : List String} {omitted : ℕ} (hlines : ∀ line ∈ lines, line.length ≤ 202)
    (hcount : lines.length ≤ 8) (homitted : omitted ≤ u64Max) :
    ("\n".intercalate (if 0 < omitted then lines ++ [omissionLine omitted] else lines)).length ≤
      1900 := by
  have homission := length_omissionLine homitted
  have hnl : "\n".toList.length = 1 := rfl
  have hbound : ∀ all : List String, (∀ line ∈ all, line.length ≤ 202) →
      ("\n".intercalate all).length ≤ all.length * 203 := fun all hall => by
    rw [← String.length_toList, String.toList_intercalate]
    have hitems : ∀ item ∈ all.map String.toList, item.length ≤ 202 := fun item hitem => by
      obtain ⟨line, hline, rfl⟩ := List.mem_map.mp hitem
      rw [String.length_toList]
      exact hall line hline
    refine (length_intercalate_le hitems).trans ?_
    rw [List.length_map, hnl]
  split_ifs
  · refine (hbound _ fun line hline => ?_).trans ?_
    · rcases List.mem_append.mp hline with hline | hline
      · exact hlines line hline
      · rw [List.mem_singleton.mp hline]
        omega
    · rw [List.length_append, List.length_singleton]
      omega
  · exact (hbound lines hlines).trans (by omega)

/-! ### Current references -/

/-- The record of a reference is there in the revision that is named. -/
def WorkStore.Current (s : WorkStore) : WorkContentRef → Prop
  | .task project id revision =>
    ∃ t, s.tasks[id]? = some t ∧ t.projectId = project ∧ t.revision = revision
  | .decision project id revision =>
    ∃ d, s.decisions[id]? = some d ∧ d.projectId = project ∧ revision = 1

theorem current_ref {s : WorkStore} (hs : s.Numbered) {t : WorkTask} (ht : t ∈ values s.tasks) :
    s.Current t.ref := by
  obtain ⟨id, hid⟩ := mem_values.mp ht
  obtain ⟨rfl, -⟩ := hs.tasks id t hid
  exact ⟨t, hid, rfl, rfl⟩

theorem current_of_mem_contentRefs {s : WorkStore} (hs : s.Numbered) {scope : WorkScope}
    {r : WorkContentRef} (hr : r ∈ s.contentRefs scope) : s.Current r := by
  unfold WorkStore.contentRefs at hr
  rw [List.mem_toFinset, List.mem_append] at hr
  rcases hr with hr | hr
  · obtain ⟨t, ht, rfl⟩ := List.mem_map.mp hr
    exact current_ref hs (List.mem_filter.mp ht).1
  · obtain ⟨d, hd, rfl⟩ := List.mem_map.mp hr
    obtain ⟨id, hid⟩ := mem_values.mp (List.mem_filter.mp hd).1
    obtain ⟨rfl, -⟩ := hs.decisions id d hid
    exact ⟨d, hid, rfl, rfl⟩

theorem current_of_mem_changes {s : WorkStore} (hs : s.Numbered) {scope : WorkScope} {now : ℕ}
    {r : WorkContentRef} (hr : r ∈ s.changes K scope now) : s.Current r := by
  unfold WorkStore.changes at hr
  split at hr
  · exact absurd hr (Finset.notMem_empty r)
  · exact current_of_mem_contentRefs hs (Finset.mem_sdiff.mp (Finset.mem_filter.mp hr).1).1

/-- Everything a batch could show is current. -/
theorem current_of_mem_shown {s : WorkStore} (hs : s.Numbered) {scope : WorkScope} {now : ℕ}
    {briefing : Bool} {reminders : List ReminderCoverage} {changes : BTreeSet WorkContentRef}
    (hchanges : ∀ r ∈ changes, s.Current r) {r : WorkContentRef}
    (hr : r ∈ shown (s.openTasks scope now) briefing reminders changes) : s.Current r := by
  unfold shown at hr
  split_ifs at hr
  · exact hchanges r hr
  · obtain ⟨t, ht, rfl⟩ := List.mem_map.mp (List.mem_toFinset.mp hr)
    exact current_ref hs (List.mem_filter.mp (List.mem_filter.mp ht).1).1

theorem mem_of_current {s : WorkStore} {r : WorkContentRef} (h : s.Current r) :
    (∃ project revision, r = .task project r.id revision ∧ r.id ∈ s.tasks) ∨
      (∃ project, r = .decision project r.id 1 ∧ r.id ∈ s.decisions) := by
  cases r with
  | task project id revision =>
    obtain ⟨t, ht, -, -⟩ := h
    exact .inl ⟨project, revision, rfl, mem_iff.mpr ⟨t, ht⟩⟩
  | decision project id revision =>
    obtain ⟨d, hd, -, rfl⟩ := h
    exact .inr ⟨project, rfl, mem_iff.mpr ⟨d, hd⟩⟩

/-- A current reference has a number that was handed out. -/
theorem id_of_current {s : WorkStore} (hs : s.Numbered) {r : WorkContentRef} (h : s.Current r) :
    0 < r.id ∧ r.id ≤ s.sequence := by
  refine hs.used r.id ?_
  unfold WorkStore.uses
  rcases mem_of_current h with ⟨-, -, -, hmem⟩ | ⟨-, -, hmem⟩
  · rw [if_pos hmem]
    omega
  · rw [if_pos (c := r.id ∈ s.decisions) hmem]
    omega

/-- No number stands for a task and for a decision. -/
theorem WorkStore.Numbered.tasks_decisions {s : WorkStore} (hs : s.Numbered) {id : ℕ}
    (ht : id ∈ s.tasks) (hd : id ∈ s.decisions) : False := by
  have hapart := hs.apart id
  unfold WorkStore.uses at hapart
  rw [if_pos ht, if_pos hd] at hapart
  omega

/-- A number stands for one current reference. -/
theorem current_inj {s : WorkStore} (hs : s.Numbered) {r r' : WorkContentRef} (h : s.Current r)
    (h' : s.Current r') (hid : r.id = r'.id) : r = r' := by
  cases r with
  | task project id revision =>
    obtain ⟨t, ht, rfl, rfl⟩ := h
    cases r' with
    | task project' id' revision' =>
      obtain rfl : id = id' := hid
      obtain ⟨t', ht', rfl, rfl⟩ := h'
      rw [Option.some.inj (ht.symm.trans ht')]
    | decision project' id' revision' =>
      obtain rfl : id = id' := hid
      obtain ⟨d, hd, -, -⟩ := h'
      exact (hs.tasks_decisions (mem_iff.mpr ⟨t, ht⟩) (mem_iff.mpr ⟨d, hd⟩)).elim
  | decision project id revision =>
    obtain ⟨d, hd, rfl, rfl⟩ := h
    cases r' with
    | task project' id' revision' =>
      obtain rfl : id = id' := hid
      obtain ⟨t, ht, -, -⟩ := h'
      exact (hs.tasks_decisions (mem_iff.mpr ⟨t, ht⟩) (mem_iff.mpr ⟨d, hd⟩)).elim
    | decision project' id' revision' =>
      obtain rfl : id = id' := hid
      obtain ⟨d', hd', rfl, rfl⟩ := h'
      rw [Option.some.inj (hd.symm.trans hd')]

/-- A current reference could name a native record. -/
theorem valid_of_current {s : WorkStore} (hs : s.Numbered) {r : WorkContentRef} (h : s.Current r) :
    r.Valid := by
  have hid := (id_of_current hs h).1.ne'
  have hproject : ∀ id ∈ s.projects, id ≠ 0 := fun id hmem => by
    refine (hs.used id ?_).1.ne'
    unfold WorkStore.uses
    rw [if_pos hmem]
    omega
  cases r with
  | task project id revision =>
    obtain ⟨t, ht, rfl, -⟩ := h
    exact ⟨hproject _ (hs.tasks id t ht).2, hid⟩
  | decision project id revision =>
    obtain ⟨d, hd, rfl, rfl⟩ := h
    exact ⟨hproject _ (hs.decisions id d hd).2, hid, rfl⟩

/-- There are no more current references than numbers. -/
theorem card_le_of_current {s : WorkStore} (hs : s.Numbered) {refs : BTreeSet WorkContentRef}
    (hrefs : ∀ r ∈ refs, s.Current r) : refs.card ≤ u64Max := by
  have himage : refs.image WorkContentRef.id ⊆ Finset.Icc 1 s.sequence := fun id hid => by
    obtain ⟨r, hr, rfl⟩ := Finset.mem_image.mp hid
    exact Finset.mem_Icc.mpr (id_of_current hs (hrefs r hr))
  have hcard := Finset.card_le_card himage
  rw [Finset.card_image_of_injOn fun r hr r' hr' => current_inj hs (hrefs r hr) (hrefs r' hr'),
    Nat.card_Icc] at hcard
  have := hs.bounded
  omega

/-- The line of a current reference is there, and bounded. -/
theorem line_of_current {s : WorkStore} (hs : s.Numbered)
    (htasks : ∀ (id : ℕ) (t : WorkTask), s.tasks[id]? = some t → t.Fits) {r : WorkContentRef}
    (h : s.Current r) : ∃ line, s.line r = .ok line ∧ line.length ≤ 202 := by
  have hid := (id_of_current hs h).2.trans hs.bounded
  cases r with
  | task project id revision =>
    obtain ⟨t, ht, rfl, rfl⟩ := h
    refine ⟨t.line id t.revision, ?_, WorkTask.length_line (htasks id t ht) hid⟩
    simp only [WorkStore.line, ht]
    exact bind_eq_ok.mpr ⟨t, rfl, bind_eq_ok.mpr ⟨(), ensure_eq_ok.mpr ⟨rfl, rfl⟩, rfl⟩⟩
  | decision project id revision =>
    obtain ⟨d, hd, rfl, rfl⟩ := h
    refine ⟨d.line id, ?_, d.length_line hid⟩
    simp only [WorkStore.line, hd]
    exact bind_eq_ok.mpr ⟨d, rfl, bind_eq_ok.mpr ⟨(), ensure_eq_ok.mpr ⟨rfl, trivial⟩, rfl⟩⟩

/-! ### The text of current references -/

/-- The lines of current references. -/
theorem lines_of_current {s : WorkStore} (hs : s.Numbered)
    (htasks : ∀ (id : ℕ) (t : WorkTask), s.tasks[id]? = some t → t.Fits)
    {refs : List WorkContentRef} (hrefs : ∀ r ∈ refs, s.Current r) :
    ∃ lines, refs.mapM s.line = .ok lines ∧ lines.length = refs.length ∧
      ∀ line ∈ lines, line.length ≤ 202 := by
  induction refs with
  | nil => exact ⟨[], rfl, rfl, fun line h => absurd h List.not_mem_nil⟩
  | cons r refs ih =>
    obtain ⟨line, hline, hlength⟩ := line_of_current hs htasks (hrefs r List.mem_cons_self)
    obtain ⟨lines, hlines, hcount, hbound⟩ := ih fun r h => hrefs r (List.mem_cons_of_mem _ h)
    refine ⟨line :: lines, ?_, congrArg (· + 1) hcount, List.forall_mem_cons.mpr ⟨hlength, hbound⟩⟩
    rw [List.mapM_cons]
    exact bind_eq_ok.mpr ⟨line, hline, bind_eq_ok.mpr ⟨lines, hlines, rfl⟩⟩

/-- The provenance of some current references is valid. -/
theorem provenance_valid {s : WorkStore} (hs : s.Numbered) {refs : List WorkContentRef}
    (hrefs : ∀ r ∈ refs, s.Current r) (hsome : refs ≠ []) (hcount : refs.length ≤ 8)
    (body : String) : (K.provenance refs body).Valid where
  version := rfl
  nonempty := fun h => hsome (List.toFinset_eq_empty_iff refs |>.mp h)
  bounded := (List.toFinset_card_le refs).trans (hcount.trans (by decide))
  refs := fun r hr => valid_of_current hs (hrefs r (List.mem_toFinset.mp hr))
  distinct := Finset.card_image_of_injOn fun r hr r' hr' =>
    current_inj hs (hrefs r (List.mem_toFinset.mp hr)) (hrefs r' (List.mem_toFinset.mp hr'))
  projects := by
    ext project
    simp [WorkCrates.provenance]
  digest := Hash.isLowerDigest_hex _

/-- Up to eight current references have a text. -/
theorem renderDelivery_of_current {s : WorkStore} (hs : s.Numbered)
    (htasks : ∀ (id : ℕ) (t : WorkTask), s.tasks[id]? = some t → t.Fits)
    {refs : List WorkContentRef} (hrefs : ∀ r ∈ refs, s.Current r) (hsome : refs ≠ [])
    (hcount : refs.length ≤ 8) {omitted : ℕ} (homitted : omitted ≤ u64Max) :
    ∃ body, s.renderDelivery K refs omitted = .ok (body, K.provenance refs body) ∧
      body.length ≤ 1900 ∧ (K.provenance refs body).Valid := by
  obtain ⟨lines, hlines, hlength, hbound⟩ := lines_of_current hs htasks hrefs
  have hbody := length_body hbound (hlength ▸ hcount) homitted
  have hvalid := provenance_valid (K := K) hs hrefs hsome hcount
  refine ⟨_, ?_, hbody, hvalid _⟩
  unfold WorkStore.renderDelivery
  refine bind_eq_ok.mpr ⟨lines, hlines, ?_⟩
  exact bind_eq_ok.mpr ⟨(), ensure_eq_ok.mpr hbody, bind_eq_ok.mpr
    ⟨(), ensure_eq_ok.mpr (hvalid _), rfl⟩⟩

/-! ### Plans -/

/-- A plan shows something: what is reminded of is open. -/
theorem shown_nonempty {s : WorkStore} {scope : WorkScope} {tz : K.Tz} {now hour : ℕ}
    {receipts : List WorkDeliveryReceipt} {day : ℤ} {briefing : Bool}
    {changes : BTreeSet WorkContentRef}
    (hbriefing : briefingDue K scope tz (s.openTasks scope now) receipts day now hour = .ok briefing)
    (h : ¬ (briefing = false ∧ dueReminders (s.openTasks scope now) receipts now = [] ∧
      changes = ∅)) :
    shown (s.openTasks scope now) briefing (dueReminders (s.openTasks scope now) receipts now)
      changes ≠ ∅ := by
  unfold shown
  split_ifs with hchanges
  · exact fun hempty => h ⟨hchanges.1, hchanges.2, hempty⟩
  · have hfound : ∃ t ∈ s.openTasks scope now, briefing = true ∨
        t.id ∈ (dueReminders (s.openTasks scope now) receipts now).map ReminderCoverage.taskId := by
      cases hb : briefing with
      | true =>
        unfold briefingDue at hbriefing
        split_ifs at hbriefing with hnone
        · rw [hb] at hbriefing
          simp at hbriefing
        · obtain ⟨t, ht⟩ := List.exists_mem_of_ne_nil _ hnone
          exact ⟨t, ht, .inl rfl⟩
      | false =>
        obtain ⟨c, hc⟩ := List.exists_mem_of_ne_nil _ fun hnone => hchanges ⟨hb, hnone⟩
        obtain ⟨t, ht, hreminder⟩ := List.mem_filterMap.mp hc
        obtain ⟨hreminder, -⟩ := Option.filter_eq_some_iff.mp hreminder
        obtain ⟨at_, -, rfl⟩ := Option.map_eq_some_iff.mp hreminder
        exact ⟨t, ht, .inr (List.mem_map.mpr ⟨_, hc, rfl⟩)⟩
    obtain ⟨t, ht, hshown⟩ := hfound
    refine Finset.nonempty_iff_ne_empty.mp ⟨t.ref, List.mem_toFinset.mpr (List.mem_map.mpr
      ⟨t, List.mem_filter.mpr ⟨ht, ?_⟩, rfl⟩)⟩
    exact decide_eq_true hshown

theorem mem_ordered {s : WorkStore} {refs : BTreeSet WorkContentRef} {r : WorkContentRef} :
    r ∈ s.ordered refs ↔ r ∈ refs := by
  unfold WorkStore.ordered
  rw [List.mem_mergeSort, Finset.mem_sort]

theorem length_ordered (s : WorkStore) (refs : BTreeSet WorkContentRef) :
    (s.ordered refs).length = refs.card := by
  unfold WorkStore.ordered
  rw [List.length_mergeSort, Finset.length_sort]

/-- The references of a plan. -/
structure WorkStore.Shows (s : WorkStore) (plan : WorkPlan) : Prop where
  current : ∀ r ∈ plan.refs, s.Current r
  nonempty : plan.refs ≠ []
  count : plan.refs.length ≤ 8
  omitted : plan.omitted ≤ u64Max

theorem shows_of_planBatch {s : WorkStore} (hs : s.Numbered) {scope : WorkScope}
    {access : WorkAccess} {now : ℕ} {plan : WorkPlan}
    (h : s.planBatch K scope access now = .ok (some plan)) : s.Shows plan := by
  obtain ⟨policy, profile, tz, destination, target, -, hplan⟩ := planBatch_ok h
  obtain ⟨day, briefing, -, hbriefing, hsome, rfl⟩ := plan_ok hplan
  generalize hchanges : (if profile.reduceFollowups then ∅ else s.changes K scope now) = changes
    at hsome ⊢
  have hcurrent : ∀ r ∈ shown (s.openTasks scope now) briefing
      (dueReminders (s.openTasks scope now) (s.receiptsOf scope) now) changes, s.Current r := by
    refine fun r hr => current_of_mem_shown hs (fun r hr => ?_) hr
    rw [← hchanges] at hr
    split_ifs at hr
    · exact absurd hr (Finset.notMem_empty r)
    · exact current_of_mem_changes hs hr
  have hshown := shown_nonempty hbriefing hsome
  have hcard := card_le_of_current hs hcurrent
  unfold WorkStore.planFor
  dsimp only
  refine ⟨fun r hr => hcurrent r (mem_ordered.mp (List.mem_of_mem_take hr)), fun hnone => ?_,
    List.length_take_le _ _, ?_⟩
  · rw [List.take_eq_nil_iff] at hnone
    obtain ⟨r, hr⟩ := Finset.nonempty_iff_ne_empty.mpr hshown
    have hmem := mem_ordered (s := s).mpr hr
    rw [hnone.resolve_left (by decide)] at hmem
    cases hmem
  · dsimp only
    rw [length_ordered]
    omega

/-! ### Runs -/

/-- The deadline of a new task is a `u64`. -/
def WorkOp.DeadlineFits : WorkOp → Prop
  | .addTask _ task _ => ∀ at_ ∈ task.dueAt, at_ ≤ u64Max
  | _ => True

theorem WorkTask.Fits.version {t t' : WorkTask} (ht : t.Fits) (h : t.Version t') : t'.Fits where
  priority := h.priority ▸ ht.priority
  revision := by
    have hfits := h.fits
    have hrevision := ht.revision
    omega
  dueAt := h.dueAt ▸ ht.dueAt

/-- The numbers of every task, after one operation. -/
theorem fits_of_moves {s s' : WorkStore} {op : WorkOp} (hop : op.DeadlineFits)
    (h : s.Moves K op s') (htasks : ∀ (id : ℕ) (t : WorkTask), s.tasks[id]? = some t → t.Fits)
    (id : ℕ) (t : WorkTask) (ht : s'.tasks[id]? = some t) : t.Fits := by
  cases h with
  | settings h =>
    rw [h.tasks] at ht
    exact htasks id t ht
  | project | receipts | reserve => exact htasks id t ht
  | tasks h =>
    obtain ⟨before, hbefore, hversion⟩ := h.back ht
    exact (htasks id before hbefore).version hversion
  | create hkey hnew hmax h =>
    cases h with
    | project | goal | decision => exact htasks id t ht
    | task added access given requestId hgiven hid hproject hpriority hrevision hdue =>
      rcases getElem?_insert_cases ht with ⟨-, rfl⟩ | ht
      · subst hgiven
        exact ⟨hpriority, hrevision ▸ Nat.zero_le _, hdue ▸ hop⟩
      · exact htasks id t ht

theorem fits_along_run {h : WorkHistory} {s : WorkStore}
    (hrun : Run (WorkStore.step K) .empty h s) (hops : ∀ e ∈ h, e.op.DeadlineFits) :
    ∀ (id : ℕ) (t : WorkTask), s.tasks[id]? = some t → t.Fits := by
  induction hrun with
  | nil => exact fun id t ht => by simp [WorkStore.empty] at ht
  | cons op hrun ih =>
    exact fits_of_moves (hops _ List.mem_cons_self) (step_moves (numbered_along_run hrun) op)
      (ih fun e he => hops e (List.mem_cons_of_mem _ he))

/-- The next batch of a store is within the limit of a message, with a valid provenance, and it fails
only where nothing could be planned. -/
structure WorkStore.Renders (K : WorkCrates) (s : WorkStore) (scope : WorkScope) (access : WorkAccess)
    (now : ℕ) : Prop where
  text : ∀ plan, s.planBatch K scope access now = .ok (some plan) →
    plan.refs.length ≤ 8 ∧ ∃ body,
      s.renderDelivery K plan.refs plan.omitted = .ok (body, K.provenance plan.refs body) ∧
      s.nextBatch K scope access now = .ok (some (plan.batch body (K.provenance plan.refs body)))
  bounded : ∀ batch, s.nextBatch K scope access now = .ok (some batch) →
    batch.contentRefs.card ≤ 8 ∧ batch.renderedBody.length ≤ 1900 ∧ batch.provenance.Valid
  error : ∀ e, s.nextBatch K scope access now = .error e ↔ s.planBatch K scope access now = .error e

/-- **Deliveries fit** in every store that is reached, whatever the texts and the numbers are. -/
theorem nextBatch_renders {h : WorkHistory} {s : WorkStore}
    (hrun : Run (WorkStore.step K) .empty h s) (hops : ∀ e ∈ h, e.op.DeadlineFits)
    (scope : WorkScope) (access : WorkAccess) (now : ℕ) : s.Renders K scope access now := by
  have hs := numbered_along_run hrun
  have hplanned : ∀ plan, s.planBatch K scope access now = .ok (some plan) →
      ∃ body, s.renderDelivery K plan.refs plan.omitted = .ok (body, K.provenance plan.refs body) ∧
        body.length ≤ 1900 ∧ (K.provenance plan.refs body).Valid := fun plan hplan =>
    have hshows := shows_of_planBatch hs hplan
    renderDelivery_of_current hs (fits_along_run hrun hops) hshows.current hshows.nonempty
      hshows.count hshows.omitted
  have hnext : ∀ plan body, s.planBatch K scope access now = .ok (some plan) →
      s.renderDelivery K plan.refs plan.omitted = .ok (body, K.provenance plan.refs body) →
      s.nextBatch K scope access now = .ok (some (plan.batch body (K.provenance plan.refs body))) :=
    fun plan body hplan hrender => bind_eq_ok.mpr ⟨some plan, hplan, bind_eq_ok.mpr ⟨_, hrender, rfl⟩⟩
  refine ⟨fun plan hplan => ?_, fun batch hbatch => ?_, fun e => ⟨fun he => ?_, fun he => ?_⟩⟩
  · obtain ⟨body, hrender, -, -⟩ := hplanned plan hplan
    exact ⟨(shows_of_planBatch hs hplan).count, body, hrender, hnext plan body hplan hrender⟩
  · obtain ⟨plan, body, provenance, hplan, hrender, rfl⟩ := nextBatch_ok hbatch
    obtain ⟨body', hrender', hlength, hvalid⟩ := hplanned plan hplan
    obtain ⟨rfl, rfl⟩ := Prod.mk.inj (Except.ok.inj (hrender.symm.trans hrender'))
    obtain ⟨_, _, _, _, _, -, hplan'⟩ := planBatch_ok hplan
    obtain ⟨_, _, -, -, -, rfl⟩ := plan_ok hplan'
    exact ⟨(List.toFinset_card_le _).trans (shows_of_planBatch hs hplan).count, hlength, hvalid⟩
  · cases hplan : s.planBatch K scope access now with
    | error e' =>
      rw [WorkStore.nextBatch, hplan] at he
      exact congrArg Except.error (Except.error.inj he)
    | ok plan? =>
      cases plan? with
      | none =>
        rw [WorkStore.nextBatch, hplan] at he
        cases he
      | some plan =>
        obtain ⟨body, hrender, -, -⟩ := hplanned plan hplan
        rw [hnext plan body hplan hrender] at he
        cases he
  · rw [WorkStore.nextBatch, he]
    rfl

/-- A task with a title that is too long to be shown, and with the latest deadline there is. -/
def lateTask : WorkTask where
  id := 0
  projectId := 1
  title := String.ofList (List.replicate 81 'x')
  owner := 0
  assignee := none
  goalId := none
  priority := 3
  status := .inProgress
  dueAt := some u64Max
  remindAt := none
  reminderRevision := 0
  snoozedUntil := none
  source := none
  github := none
  revision := 0

/-- The JSON text that the fingerprint of the task is taken of. -/
def lateJson : String :=
  "[\"" ++ lateTask.title ++ "\",\"in_progress\",3,1,null,null,18446744073709551615,null,null]"

/-- SHA-256 of the JSON text of the task and of the text that shows it. -/
def lateCrates : WorkCrates where
  toZones := utcZones
  sha256 text :=
    if text = lateJson then
      ⟨[245, 64, 117, 218, 107, 27, 223, 95, 18, 208, 73, 165, 70, 44, 39, 43, 233, 11, 116,
        32, 167, 19, 183, 35, 197, 35, 39, 252, 122, 98, 118, 213], by decide⟩
    else
      ⟨[43, 29, 111, 48, 42, 228, 199, 17, 53, 98, 48, 77, 228, 160, 49, 240, 184, 99, 222,
        161, 55, 174, 40, 6, 127, 81, 31, 110, 177, 47, 83, 144], by decide⟩
  json _ := lateJson

def lateUpdate : WorkAutomationUpdate where
  enabled := true
  privateToMe := none
  timezone := some "UTC"
  briefingHour := none
  quietStart := none
  quietEnd := none
  dailyLimit := none

/-- The late task is in a scope whose deliveries are turned on. -/
def lateOps : List WorkOp :=
  [.createProject sampleAccess "Plan" "a", .addTask sampleAccess lateTask "b",
    .updateAutomation sampleAccess lateUpdate none]

def lateStore : WorkStore := (play (WorkStore.step lateCrates) .empty lateOps).2

theorem run_late : ∃ h, Run (WorkStore.step lateCrates) .empty h lateStore ∧
    ∀ e ∈ h, e.op.DeadlineFits := by
  refine ⟨_, run_play WorkStore.empty lateOps, fun e he => ?_⟩
  have hop : e.op ∈ lateOps := op_mem_of_mem_play he
  unfold lateOps at hop
  simp only [List.mem_cons, List.not_mem_nil, or_false] at hop
  rcases hop with hop | hop | hop <;> rw [hop]
  · trivial
  · exact fun at_ hat => (Option.some.inj hat).symm.le
  · trivial

/-- The briefing of noon shows the task, with its title cut short. -/
theorem late_renders :
    (lateStore.nextBatch lateCrates (.personal 1) sampleAccess 43200).toOption.join.map
      (fun batch => (batch.contentRefs, batch.renderedBody.length)) = some ({.task 1 2 0}, 164) ∧
    lateStore.Renders lateCrates (.personal 1) sampleAccess 43200 := by
  have hbatch : (lateStore.nextBatch lateCrates (.personal 1) sampleAccess 43200).toOption.join.map
      (fun batch => (batch.contentRefs, batch.renderedBody.length)) = some ({.task 1 2 0}, 164) := by
    decide +kernel
  obtain ⟨h, hrun, hops⟩ := run_late
  exact ⟨hbatch, nextBatch_renders hrun hops _ _ _⟩

end AbbeyBot.Work.Types
