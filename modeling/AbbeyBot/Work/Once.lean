import Mathlib
import AbbeyBot.Work.Learning

/-! # Deliveries are made once

A batch is planned from the receipts of its scope: it leaves out the reminders that one of them
covers, it is no briefing where one of them has its key, and it is not planned where the day has no
room. Receipts are never taken away, so no reminder and no briefing is delivered twice, and the limit
of the day holds whenever a delivery is reserved. -/

namespace AbbeyBot.Work.Types

open AbbeyBot.Calendar AbbeyBot.Library.CivilDate AbbeyBot.Library.History
open AbbeyBot.Library.OrderedMap AbbeyBot.Library.Result AbbeyBot.Library.Text AbbeyBot.Library.Word

variable {K : WorkCrates}

/-! ### Reservations -/

/-- What a reservation does: the batch is the next one, and it has a receipt. -/
theorem reserved_as {s s₁ : WorkStore} {op : WorkOp} {access : WorkAccess} {batch : WorkBatch}
    {channel now id : ℕ} (hop : op.Reserves access batch channel now)
    (hstep : s.step K op = (.ok (some id), s₁)) :
    s.nextBatch K batch.scope access now = .ok (some batch) ∧
      ∃ project, s₁ = { s with sequence := s.sequence + 1 }.withReservation K batch
        (batch.receipt (s.sequence + 1) project channel now) := by
  have hresolved : (s.reserveResolvedBatch K access batch channel now).1.map some = .ok (some id) ∧
      (s.reserveResolvedBatch K access batch channel now).2 = s₁ := by
    rcases hop with ⟨rfl, rfl, hpublic⟩ | ⟨rfl, hprivate⟩
    · unfold WorkStore.step numbered WorkStore.reserveBatch at hstep
      dsimp only at hstep
      split at hstep
      · rename_i principal htarget
        exact absurd htarget (hpublic principal)
      · exact Prod.mk.inj hstep
    · unfold WorkStore.step numbered WorkStore.reservePrivateBatch at hstep
      dsimp only at hstep
      rw [if_pos hprivate] at hstep
      exact Prod.mk.inj hstep
  obtain ⟨hok, rfl⟩ := hresolved
  unfold WorkStore.reserveResolvedBatch at hok ⊢
  split at hok
  · cases hok
  · rename_i next s' h
    simp only [bind_eq_ok, ensure_eq_ok, exists_unit, nextId_eq_ok] at h
    obtain ⟨_, hnext, rfl, -, -, -, rfl, rfl⟩ := h
    refine ⟨hnext, ?_⟩
    split at hok
    · cases hok
    · rename_i project revision hproject
      exact ⟨project, rfl⟩

/-! ### What a batch leaves out -/

/-- The key of a reminder ends in a digit, that of a briefing does not. -/
theorem reminderKey_ne_briefingKey (scope scope' : WorkScope) (localDay : String)
    (c : ReminderCoverage) (day : ℤ) : reminderKey scope localDay c ≠ briefingKey scope' day := by
  intro h
  have hlast := congrArg (fun key => key.toList.getLast?) h
  have hbriefing : ":briefing:scope".toList.getLast? = some 'e' := by decide
  simp only [reminderKey, briefingKey, String.toList_append, List.getLast?_append, hbriefing,
    Option.some_or] at hlast
  cases hdigits : (toString c.remindAt).toList.getLast? with
  | none =>
    rw [List.getLast?_eq_none_iff, Nat.toString_eq_repr, Nat.repr, String.toList_ofList] at hdigits
    exact Nat.toDigits_ne_nil hdigits
  | some digit =>
    rw [hdigits, Option.some_or, Option.some.injEq] at hlast
    rw [hlast] at hdigits
    exact not_mem_toString (by decide) c.remindAt (List.mem_of_getLast? hdigits)

/-- The key of a briefing names its scope. -/
theorem scope_of_briefingKey {scope scope' : WorkScope} {day day' : ℤ}
    (h : briefingKey scope day = briefingKey scope' day') : scope = scope' := by
  have hl := congrArg String.toList h
  have hcolon : ∀ n : ℕ, ':' ∉ (toString n).toList := not_mem_toString (by decide)
  have hseparator : ":".toList = [':'] := rfl
  cases scope with
  | personal owner =>
    cases scope' with
    | personal owner' =>
      simp only [briefingKey, WorkScope.key, String.toList_append, List.append_assoc,
        List.append_cancel_left_eq, hseparator, List.cons_append, List.nil_append] at hl
      obtain ⟨howner, -⟩ := (append_separator_inj (hcolon _) (hcolon _)).mp hl
      rw [toString_injective howner]
    | team guild channel => simp [briefingKey, WorkScope.key] at hl
  | team guild channel =>
    cases scope' with
    | personal owner => simp [briefingKey, WorkScope.key] at hl
    | team guild' channel' =>
      simp only [briefingKey, WorkScope.key, String.toList_append, List.append_assoc,
        List.append_cancel_left_eq, hseparator, List.cons_append, List.nil_append] at hl
      obtain ⟨hguild, hl⟩ := (append_separator_inj (hcolon _) (hcolon _)).mp hl
      obtain ⟨hchannel, -⟩ := (append_separator_inj (hcolon _) (hcolon _)).mp hl
      rw [toString_injective hguild, toString_injective hchannel]

/-- A reminder of a batch is in no receipt of its scope. -/
theorem coverage_of_nextBatch {s : WorkStore} {scope : WorkScope} {access : WorkAccess}
    {batch : WorkBatch} {now : ℕ} (h : s.nextBatch K scope access now = .ok (some batch))
    {r : WorkDeliveryReceipt} (hr : r ∈ s.receiptsOf scope) {c : ReminderCoverage}
    (hc : c ∈ batch.coverage) : c ∉ r.coverage := by
  obtain ⟨plan, body, provenance, hplan, -, rfl⟩ := nextBatch_ok h
  obtain ⟨policy, profile, tz, destination, target, -, hplan⟩ := planBatch_ok hplan
  obtain ⟨occurrenceDay, briefing, -, -, -, rfl⟩ := plan_ok hplan
  have hdue := (List.mem_filter.mp hc).1
  unfold dueReminders at hdue
  obtain ⟨t, -, hreminder⟩ := List.mem_filterMap.mp hdue
  exact of_decide_eq_true (Option.filter_eq_some_iff.mp hreminder).2 r hr

/-- The key of a briefing in a batch is one of its scope, and in no receipt of it. -/
theorem briefingKey_of_nextBatch {s : WorkStore} {scope : WorkScope} {access : WorkAccess}
    {batch : WorkBatch} {now : ℕ} (h : s.nextBatch K scope access now = .ok (some batch))
    {scope' : WorkScope} {day : ℤ} (hkey : briefingKey scope' day ∈ batch.dedupeKeys) :
    scope' = scope ∧ ∀ r ∈ s.receiptsOf scope, briefingKey scope' day ∉ r.dedupeKeys := by
  obtain ⟨plan, body, provenance, hplan, -, rfl⟩ := nextBatch_ok h
  obtain ⟨policy, profile, tz, destination, target, -, hplan⟩ := planBatch_ok hplan
  obtain ⟨occurrenceDay, briefing, -, hbriefing, -, rfl⟩ := plan_ok hplan
  unfold WorkStore.planFor at hkey
  dsimp only at hkey
  have hnone : ∀ coverage : List ReminderCoverage, briefingKey scope' day ∉
      (coverage.map (reminderKey scope (format (localDay K.toZones tz now)))).toFinset := by
    intro coverage hmem
    obtain ⟨c, -, hc⟩ := List.mem_map.mp (List.mem_toFinset.mp hmem)
    exact reminderKey_ne_briefingKey _ _ _ _ _ hc
  by_cases hdue : briefing = true
  · rw [if_pos hdue, Finset.mem_insert] at hkey
    rcases hkey with hkey | hkey
    · rw [hdue] at hbriefing
      unfold briefingDue at hbriefing
      split_ifs at hbriefing
      · simp only [pure_eq_ok, Bool.false_eq_true] at hbriefing
      · simp only [bind_eq_ok, pure_eq_ok, decide_eq_true_eq] at hbriefing
        obtain ⟨_, -, -, hfree⟩ := hbriefing
        rw [hkey]
        exact ⟨scope_of_briefingKey hkey, fun r hr => (hfree r hr).1⟩
    · exact absurd hkey (hnone _)
  · rw [if_neg hdue] at hkey
    exact absurd hkey (hnone _)

/-! ### Runs -/

/-- The two receipts repeat a reminder of one scope, or a briefing. -/
def WorkDeliveryReceipt.Repeats (r r' : WorkDeliveryReceipt) : Prop :=
  (r.scope = r'.scope ∧ ∃ c ∈ r.coverage, c ∈ r'.coverage) ∨
    ∃ scope day, briefingKey scope day ∈ r.dedupeKeys ∧ briefingKey scope day ∈ r'.dedupeKeys

theorem WorkDeliveryReceipt.Repeats.symm {r r' : WorkDeliveryReceipt} (h : r.Repeats r') :
    r'.Repeats r := by
  obtain ⟨hscope, c, hc, hc'⟩ | ⟨scope, day, hkey, hkey'⟩ := h
  · exact .inl ⟨hscope.symm, c, hc', hc⟩
  · exact .inr ⟨scope, day, hkey', hkey⟩

theorem WorkDeliveryReceipt.Repeats.of_version {r r' p p' : WorkDeliveryReceipt}
    (hr : r.Version p) (hr' : r'.Version p') (h : p.Repeats p') : r.Repeats r' := by
  rw [hr, hr'] at h
  exact h

/-- A receipt with the key of a briefing is one of its scope, and no two of them repeat a reminder or
a briefing. -/
structure WorkStore.SentOnce (s : WorkStore) : Prop where
  keyed : ∀ (id : ℕ) (r : WorkDeliveryReceipt), s.deliveries[id]? = some r → ∀ scope day,
    briefingKey scope day ∈ r.dedupeKeys → r.scope = some scope
  ofScope : ∀ (id : ℕ) (r : WorkDeliveryReceipt), s.deliveries[id]? = some r → r.scope ≠ none
  apart : ∀ (i j : ℕ) (r r' : WorkDeliveryReceipt), s.deliveries[i]? = some r →
    s.deliveries[j]? = some r' → i ≠ j → ¬ r.Repeats r'

theorem sentOnce_empty : WorkStore.empty.SentOnce where
  keyed id r h := by simp [WorkStore.empty] at h
  ofScope id r h := by simp [WorkStore.empty] at h
  apart i j r r' h := by simp [WorkStore.empty] at h

/-- The receipts have other outcomes at most. -/
theorem WorkStore.SentOnce.of_back {s s' : WorkStore} (hs : s.SentOnce)
    (hback : ∀ (id : ℕ) (p : WorkDeliveryReceipt), s'.deliveries[id]? = some p →
      ∃ r, s.deliveries[id]? = some r ∧ r.Version p) : s'.SentOnce where
  keyed id p hp scope day hkey := by
    obtain ⟨r, hr, hversion⟩ := hback id p hp
    rw [hversion] at hkey ⊢
    exact hs.keyed id r hr scope day hkey
  ofScope id p hp := by
    obtain ⟨r, hr, hversion⟩ := hback id p hp
    rw [hversion]
    exact hs.ofScope id r hr
  apart i j p p' hp hp' hne hrepeats := by
    obtain ⟨r, hr, hversion⟩ := hback i p hp
    obtain ⟨r', hr', hversion'⟩ := hback j p' hp'
    exact hs.apart i j r r' hr hr' hne (hrepeats.of_version hversion hversion')

theorem mem_receiptsOf {s : WorkStore} {scope : WorkScope} {id : ℕ} {r : WorkDeliveryReceipt}
    (hr : s.deliveries[id]? = some r) (hscope : r.scope = some scope) : r ∈ s.receiptsOf scope := by
  refine List.mem_filter.mpr ⟨mem_values.mpr ⟨id, hr⟩, ?_⟩
  rw [hscope]
  exact decide_eq_true rfl

/-- The receipt of the next batch repeats none that is there. -/
theorem not_repeats_of_nextBatch {s : WorkStore} (hs : s.SentOnce) {access : WorkAccess}
    {batch : WorkBatch} {now : ℕ} (h : s.nextBatch K batch.scope access now = .ok (some batch))
    {i : ℕ} {r : WorkDeliveryReceipt} (hr : s.deliveries[i]? = some r) (id project channel : ℕ) :
    ¬ (batch.receipt id project channel now).Repeats r := by
  rintro (⟨hscope, c, hc, hc'⟩ | ⟨scope, day, hkey, hkey'⟩)
  · exact coverage_of_nextBatch h (mem_receiptsOf hr hscope.symm) hc hc'
  · obtain ⟨hscope, hfree⟩ := briefingKey_of_nextBatch h hkey
    exact hfree r (mem_receiptsOf hr (hscope ▸ hs.keyed i r hr scope day hkey')) hkey'

theorem sentOnce_of_moves {op : WorkOp} {s s' : WorkStore} (hs : s.SentOnce)
    (h : s.Moves K op s') : s'.SentOnce := by
  have hsame : ∀ (id : ℕ) (r : WorkDeliveryReceipt), s.deliveries[id]? = some r →
      ∃ p, s.deliveries[id]? = some p ∧ p.Version r := fun id r hr => ⟨r, hr, rfl⟩
  cases h with
  | settings h => exact hs.of_back (h.deliveries ▸ hsame)
  | project hop hp h => exact hs.of_back hsame
  | tasks h => exact hs.of_back hsame
  | receipts h => exact hs.of_back fun id p hp => h.back hp
  | create hkey hnew hmax h => cases h <;> exact hs.of_back hsame
  | reserve hop hnext hproject hmax =>
    refine ⟨fun id r hr scope day hkey => ?_, fun id r hr => ?_, fun i j r r' hr hr' hne hrepeats => ?_⟩
    · rcases getElem?_insert_cases hr with ⟨-, rfl⟩ | hr
      · exact congrArg some (briefingKey_of_nextBatch hnext hkey).1.symm
      · exact hs.keyed id r hr scope day hkey
    · rcases getElem?_insert_cases hr with ⟨-, rfl⟩ | hr
      · exact Option.some_ne_none _
      · exact hs.ofScope id r hr
    · rcases getElem?_insert_cases hr with ⟨hi, rfl⟩ | hr
      · rcases getElem?_insert_cases hr' with ⟨hj, rfl⟩ | hr'
        · exact hne (hi.trans hj.symm)
        · exact not_repeats_of_nextBatch hs hnext hr' _ _ _ hrepeats
      · rcases getElem?_insert_cases hr' with ⟨-, rfl⟩ | hr'
        · exact not_repeats_of_nextBatch hs hnext hr _ _ _ hrepeats.symm
        · exact hs.apart i j r r' hr hr' hne hrepeats

theorem sentOnce_along_run {h : WorkHistory} {s : WorkStore}
    (hrun : Run (WorkStore.step K) .empty h s) : s.SentOnce := by
  induction hrun with
  | nil => exact sentOnce_empty
  | cons op hrun ih => exact sentOnce_of_moves ih (step_moves (numbered_along_run hrun) op)

/-! ### The limit of a day -/

/-- One row more is one row more to count. -/
theorem countP_values_insert_le {β : Type} (m : BTreeMap ℕ β) (k : ℕ) (v : β) (p : β → Bool) :
    (values (m.insert k v)).countP p ≤ (values m).countP p + 1 := by
  have hnodup : (m.insert k v).toList.Nodup := by
    refine (Std.ExtTreeMap.distinct_keys_toList (t := m.insert k v)).imp ?_
    intro a b hne heq
    exact hne (by rw [heq]; exact Std.ReflCmp.compare_self)
  have hsubset : (m.insert k v).toList ⊆ (k, v) :: m.toList := by
    rintro ⟨k', w⟩ hmem
    rw [Std.ExtTreeMap.mem_toList_iff_getElem?_eq_some] at hmem
    rcases getElem?_insert_cases hmem with ⟨rfl, rfl⟩ | hmem
    · exact List.mem_cons_self
    · exact List.mem_cons_of_mem _ (Std.ExtTreeMap.mem_toList_iff_getElem?_eq_some.mpr hmem)
  have hle := (List.subperm_of_subset hnodup hsubset).countP_le (p ∘ Prod.snd)
  unfold values
  rw [List.countP_map, List.countP_map]
  refine hle.trans ?_
  rw [List.countP_cons]
  split_ifs <;> omega

/-- **One batch** leaves the day within the limit of the policy. -/
theorem quota_of_reservation {s s₁ : WorkStore} {op : WorkOp} {access : WorkAccess}
    {batch : WorkBatch} {channel now id : ℕ} (hop : op.Reserves access batch channel now)
    (hstep : s.step K op = (.ok (some id), s₁)) {policy : WorkAutomationPolicy} {tz : K.Tz}
    (hpolicy : s₁.scopeAutomation[batch.scope.key]? = some policy)
    (htz : K.parseTz policy.timezone = some tz) :
    ((s₁.receiptsOf batch.scope).countP fun r => r.OnDay K tz (localDay K.toZones tz now)) ≤
      policy.dailyLimit := by
  obtain ⟨hnext, project, rfl⟩ := reserved_as hop hstep
  obtain ⟨plan, _, _, hplan, -, -⟩ := nextBatch_ok hnext
  obtain ⟨policy', _, tz', _, _, hplanned, -⟩ := planBatch_ok hplan
  obtain rfl : policy' = policy := Option.some.inj (hplanned.configured.symm.trans hpolicy)
  obtain rfl : tz' = tz := Option.some.inj (hplanned.zone.symm.trans htz)
  refine le_trans ?_ (Nat.succ_le_of_lt hplanned.room)
  unfold WorkStore.receiptsOf
  rw [List.countP_filter, List.countP_filter]
  exact countP_values_insert_le _ _ _ _

/-- **At most once**: in every store that is reached every receipt names its scope, no two receipts of
a scope cover the same reminder and no two have the key of the same briefing; and after every
reservation the receipts of the scope on the date of the send are within the daily limit. -/
theorem sent_at_most_once {h : WorkHistory} {s : WorkStore}
    (hrun : Run (WorkStore.step K) .empty h s) :
    (∀ (id : ℕ) (r : WorkDeliveryReceipt), s.deliveries[id]? = some r → r.scope ≠ none) ∧
    (∀ (i j : ℕ) (r r' : WorkDeliveryReceipt), s.deliveries[i]? = some r →
      s.deliveries[j]? = some r' → i ≠ j →
        (r.scope = r'.scope → ∀ c ∈ r.coverage, c ∉ r'.coverage) ∧
        ∀ scope day, briefingKey scope day ∈ r.dedupeKeys →
          briefingKey scope day ∉ r'.dedupeKeys) ∧
    ∀ (op : WorkOp) (access : WorkAccess) (batch : WorkBatch) (channel now id : ℕ),
      op.Reserves access batch channel now → (s.step K op).1 = .ok (some id) →
      ∀ policy tz, (s.step K op).2.scopeAutomation[batch.scope.key]? = some policy →
        K.parseTz policy.timezone = some tz →
        (((s.step K op).2.receiptsOf batch.scope).countP fun r =>
          r.OnDay K tz (localDay K.toZones tz now)) ≤ policy.dailyLimit := by
  have hs := sentOnce_along_run hrun
  refine ⟨hs.ofScope, fun i j r r' hr hr' hne => ?_, fun op access batch channel now id hop hok policy tz
    hpolicy htz => quota_of_reservation hop (Prod.ext hok rfl) hpolicy htz⟩
  have hapart := hs.apart i j r r' hr hr' hne
  exact ⟨fun hscope c hc hc' => hapart (.inl ⟨hscope, c, hc, hc'⟩),
    fun scope day hkey hkey' => hapart (.inr ⟨scope, day, hkey, hkey'⟩)⟩

/-- The store with an open task and a reminder. -/
def openStore : WorkStore := (play (WorkStore.step sampleCrates) .empty reminderOps).2

/-- The batch with the reminder of the open task. -/
def openBatch : WorkBatch :=
  (openStore.nextBatch sampleCrates (.personal 1) sampleAccess 43201).toOption.join.get
    (by decide +kernel)

/-- The briefing of the next day. -/
def nextDayBatch : WorkBatch :=
  ((openStore.step sampleCrates (.reserveBatch sampleAccess openBatch 43201)).2.nextBatch sampleCrates
    (.personal 1) sampleAccess 129601).toOption.join.get (by decide +kernel)

def twoDayOps : List WorkOp :=
  reminderOps ++ [.reserveBatch sampleAccess openBatch 43201,
    .reserveBatch sampleAccess nextDayBatch 129601]

def twoDayStore : WorkStore := (play (WorkStore.step sampleCrates) .empty twoDayOps).2

/-- The two briefings are there, and they are those of two days. -/
theorem twoDayStore_sent_once : twoDayStore.deliveries.size = 2 ∧
    ∀ r ∈ twoDayStore.deliveries[3]?, ∀ r' ∈ twoDayStore.deliveries[4]?, ∀ scope day,
      briefingKey scope day ∈ r.dedupeKeys → briefingKey scope day ∉ r'.dedupeKeys := by
  refine ⟨by decide +kernel, fun r hr r' hr' => ?_⟩
  have hrun : Run (WorkStore.step sampleCrates) .empty
      (play (WorkStore.step sampleCrates) .empty twoDayOps).1 twoDayStore := run_play _ _
  exact ((sent_at_most_once hrun).2.1 3 4 r r' hr hr' (by decide)).2

end AbbeyBot.Work.Types
