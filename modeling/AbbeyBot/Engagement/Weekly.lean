import Mathlib
import AbbeyBot.Engagement.Effects

/-! # Weekly contacts

A weekly contact occurs on one weekday at one hour of the member's clock: at the first minute from
that hour on that the clock shows, and for the first time if it shows it twice. `next_weekly` searches
the eight dates from today for an occurrence that is still to come. The candidate for an occurrence is
due for an hour, and cancelled for good once the hour is over. -/

namespace AbbeyBot.Engagement

open AbbeyBot.Calendar AbbeyBot.Library.CivilDate AbbeyBot.Library.History
open AbbeyBot.Library.OrderedMap AbbeyBot.Library.Result AbbeyBot.Library.Word AbbeyBot.Work.Types

/-! ### Searching -/

/-- The loop of `next_weekly`: the dates in turn. -/
def weeklySearch (Z : Zones) (tz : Z.Tz) (w : WeeklySubscription) (now : ℕ) :
    ℕ → ℤ → Except WorkError (Option ℕ)
  | 0, _ => .error .invalid
  | steps + 1, day => do
    ensure (InRange day) .invalid
    if fromMonday day = w.weekday then
      let occurrence ← localHour Z tz day w.hour
      if now < occurrence then return some occurrence.toNat
      else weeklySearch Z tz w now steps (day + 1)
    else weeklySearch Z tz w now steps (day + 1)

/-- `EngagementStore::next_weekly`. -/
def EngagementStore.nextWeekly (K : Crates) (member now : ℕ) (s : EngagementStore) :
    Except WorkError (Option ℕ) := do
  let policy ← orErr s.memberPolicies[member]? .missing
  policy.validate K
  match policy.weeklySubscription with
  | none => return none
  | some w => do
    let name ← orErr policy.timezone .denied
    let tz ← orErr (K.parseTz name) .invalid
    utc now
    weeklySearch K.toZones tz w now 8 (localDay K.toZones tz now)

/-- The rows of `due` are in order of their time, and then of their id. -/
def dueBefore (c d : Candidate) : Bool := decide (c.dueAt < d.dueAt ∨ c.dueAt = d.dueAt ∧ c.id ≤ d.id)

/-- The pending candidates that are due and within their window. -/
def EngagementStore.dueRows (now : ℕ) (s : EngagementStore) : List Candidate :=
  if IsInstant now then
    ((values s.candidates).filter fun c => c.state = .pending ∧ c.dueAt ≤ now ∧
      (c.weeklyWindow now).toOption = some true).mergeSort dueBefore
  else []

/-- `EngagementStore::due`. -/
def EngagementStore.due (now : ℕ) (s : EngagementStore) : List ℕ :=
  (s.dueRows now).map Candidate.id

/-! ### Occurrences -/

/-- The first time the clocks show a local time. -/
def earliest : LocalResult → Option ℤ
  | .single at_ => some at_
  | .ambiguous first second => some (min first second)
  | .none => none

section Occurrence

variable (Z : Zones) (tz : Z.Tz)

/-- The occurrence of a date: the first time of its first minute from the hour on that the clocks
show. -/
def Occurs (hour : ℕ) (day t : ℤ) : Prop :=
  ∃ minute : ℕ, 60 * hour ≤ minute ∧ minute < 1440 ∧
    (∀ earlier : ℕ, 60 * hour ≤ earlier → earlier < minute →
      earliest (Z.fromLocal tz (86400 * day + 60 * earlier)) = none) ∧
    earliest (Z.fromLocal tz (86400 * day + 60 * minute)) = some t

/-- What is assumed of a zone: a local time is less than a day away from UTC, and of every date the
clocks show some minute from any hour on. -/
structure Zones.Lawful : Prop where
  near : ∀ l t, earliest (Z.fromLocal tz l) = some t → l - 86400 < t ∧ t < l + 86400
  shown : ∀ (day : ℤ) (hour : ℕ), hour < 24 → ∃ minute : ℕ, 60 * hour ≤ minute ∧ minute < 1440 ∧
    earliest (Z.fromLocal tz (86400 * day + 60 * minute)) ≠ none

/-- The clock has not been put back over midnight: the occurrences of past dates are past, and those
of the dates to come are to come. -/
def InStep (hour now : ℕ) : Prop := ∀ day t, Occurs Z tz hour day t →
  (day < localDay Z tz now → t ≤ now) ∧ (localDay Z tz now < day → now < t)

end Occurrence

section Lawful

variable {Z : Zones} {tz : Z.Tz} {hour : ℕ} {day t : ℤ}

/-- The loop of `local_hour` comes to the first minute that the clocks show. -/
theorem localMinute_eq {steps gap : ℕ} {seconds : ℤ} (hgap : gap < steps)
    (hnone : ∀ j < gap, earliest (Z.fromLocal tz (seconds + 60 * j)) = none)
    (hsome : earliest (Z.fromLocal tz (seconds + 60 * gap)) = some t)
    (hrange : ∀ j ≤ gap, InRange ((seconds + 60 * j) / 86400)) :
    localMinute Z tz steps seconds = .ok t := by
  induction steps generalizing gap seconds with
  | zero => omega
  | succ steps ih =>
    rw [localMinute]
    cases gap with
    | zero =>
      rw [Nat.cast_zero, mul_zero, add_zero] at hsome
      cases hlocal : Z.fromLocal tz seconds with
      | single a =>
        rw [hlocal, earliest, Option.some.injEq] at hsome
        exact congrArg Except.ok hsome
      | ambiguous a b =>
        rw [hlocal, earliest, Option.some.injEq] at hsome
        exact congrArg Except.ok hsome
      | none => rw [hlocal] at hsome; cases hsome
    | succ gap =>
      have hshift (j : ℕ) : seconds + 60 * ((j + 1 : ℕ) : ℤ) = seconds + 60 + 60 * j := by
        push_cast
        ring
      have hfirst := hnone 0 (Nat.succ_pos gap)
      rw [Nat.cast_zero, mul_zero, add_zero] at hfirst
      cases hlocal : Z.fromLocal tz seconds with
      | single a => rw [hlocal] at hfirst; cases hfirst
      | ambiguous a b => rw [hlocal] at hfirst; cases hfirst
      | none =>
        have hnext : InRange ((seconds + 60) / 86400) := by
          have h := hrange 1 (Nat.succ_le_succ (Nat.zero_le gap))
          rwa [Nat.cast_one, mul_one] at h
        simp only [ensure_of hnext, ok_bind]
        refine ih (Nat.lt_of_succ_lt_succ hgap) (fun j hj => ?_) ?_ fun j hj => ?_
        · rw [← hshift]
          exact hnone (j + 1) (Nat.succ_lt_succ hj)
        · rw [← hshift]
          exact hsome
        · rw [← hshift]
          exact hrange (j + 1) (Nat.succ_le_succ hj)

/-- **`local_hour` gives the occurrence of a date.** -/
theorem localHour_of_occurs (hhour : hour < 24) (hday : InRange day) (h : Occurs Z tz hour day t) :
    localHour Z tz day hour = .ok t := by
  obtain ⟨minute, hle, hlt, hnone, hsome⟩ := h
  obtain ⟨gap, rfl⟩ := Nat.exists_eq_add_of_le hle
  have hminute (j : ℕ) : 86400 * day + 3600 * (hour : ℤ) + 60 * (j : ℤ) =
      86400 * day + 60 * ((60 * hour + j : ℕ) : ℤ) := by
    push_cast
    ring
  rw [localHour, ensure_of hhour, ok_bind]
  refine localMinute_eq (show gap < 1441 by omega) (fun j hj => ?_) ?_ fun j hj => ?_
  · rw [hminute]
    exact hnone _ (by omega) (by omega)
  · rw [hminute]
    exact hsome
  · have hdate : (86400 * day + 3600 * (hour : ℤ) + 60 * (j : ℤ)) / 86400 = day := by omega
    rw [hdate]
    exact hday

theorem Occurs.unique {u : ℤ} (h : Occurs Z tz hour day t) (h' : Occurs Z tz hour day u) :
    t = u := by
  obtain ⟨m, hle, -, hnone, hsome⟩ := h
  obtain ⟨n, hle', -, hnone', hsome'⟩ := h'
  rcases lt_trichotomy m n with hlt | rfl | hlt
  · rw [hnone' m hle hlt] at hsome
    cases hsome
  · rw [hsome, Option.some.injEq] at hsome'
    exact hsome'
  · rw [hnone n hle' hlt] at hsome'
    cases hsome'

variable (hlaw : Zones.Lawful Z tz)

include hlaw in
theorem exists_occurs (hhour : hour < 24) (day : ℤ) : ∃ t, Occurs Z tz hour day t := by
  have hex : ∃ minute : ℕ, 60 * hour ≤ minute ∧ minute < 1440 ∧
      earliest (Z.fromLocal tz (86400 * day + 60 * minute)) ≠ none := hlaw.shown day hour hhour
  classical
  obtain ⟨hle, hlt, hne⟩ := Nat.find_spec hex
  obtain ⟨t, ht⟩ := Option.ne_none_iff_exists'.mp hne
  refine ⟨t, Nat.find hex, hle, hlt, fun earlier hearlier hbefore => ?_, ht⟩
  by_contra hsome
  exact Nat.find_min hex hbefore ⟨hearlier, hbefore.trans hlt, hsome⟩

include hlaw in
/-- An occurrence is less than a day away from its date. -/
theorem Occurs.bounds (h : Occurs Z tz hour day t) :
    86400 * (day - 1) < t ∧ t < 86400 * (day + 2) := by
  obtain ⟨minute, -, hlt, -, hsome⟩ := h
  have hnear := hlaw.near _ _ hsome
  omega

include hlaw in
/-- Occurrences on one weekday are in the order of their dates. -/
theorem Occurs.mono {day' t' : ℤ} (h : Occurs Z tz hour day t) (h' : Occurs Z tz hour day' t')
    (hweekday : fromMonday day = fromMonday day') (hle : day ≤ day') : t ≤ t' := by
  rcases eq_or_lt_of_le hle with rfl | hlt
  · exact (h.unique h').le
  · have hweek : day + 7 ≤ day' := by
      unfold fromMonday at hweekday
      omega
    have hbounds := h.bounds hlaw
    have hbounds' := h'.bounds hlaw
    omega

include hlaw in
/-- Occurrences on one weekday that are less than an hour apart are the same. -/
theorem Occurs.eq_of_near {day' t' : ℤ} (h : Occurs Z tz hour day t)
    (h' : Occurs Z tz hour day' t') (hweekday : fromMonday day = fromMonday day')
    (hnear : t < t' + 3600 ∧ t' < t + 3600) : t = t' := by
  have hbounds := h.bounds hlaw
  have hbounds' := h'.bounds hlaw
  have hday : day = day' := by
    unfold fromMonday at hweekday
    omega
  subst hday
  exact h.unique h'

end Lawful

/-! ### The next occurrence -/

section Search

variable {Z : Zones} {tz : Z.Tz} {w : WeeklySubscription} {now : ℕ}

/-- The search gives the first of its dates with an occurrence that is still to come. -/
theorem weeklySearch_eq {steps gap : ℕ} {day : ℤ} {t : ℕ} (hhour : w.hour < 24)
    (hgap : gap < steps) (hrange : ∀ j ≤ gap, InRange (day + j))
    (hpast : ∀ j < gap, fromMonday (day + j) = w.weekday →
      ∃ u : ℤ, Occurs Z tz w.hour (day + j) u ∧ u ≤ now)
    (hweekday : fromMonday (day + gap) = w.weekday) (ht : Occurs Z tz w.hour (day + gap) t)
    (hnow : now < t) : weeklySearch Z tz w now steps day = .ok (some t) := by
  induction steps generalizing gap day with
  | zero => omega
  | succ steps ih =>
    have hday := hrange 0 (Nat.zero_le gap)
    rw [Nat.cast_zero, add_zero] at hday
    rw [weeklySearch, ensure_of hday, ok_bind]
    cases gap with
    | zero =>
      rw [Nat.cast_zero, add_zero] at hweekday ht
      rw [if_pos hweekday, localHour_of_occurs hhour hday ht, ok_bind, if_pos (by exact_mod_cast hnow)]
      rfl
    | succ gap =>
      have hshift (j : ℕ) : day + ((j + 1 : ℕ) : ℤ) = day + 1 + j := by
        push_cast
        ring
      have hrest : weeklySearch Z tz w now steps (day + 1) = .ok (some t) := by
        refine ih (Nat.lt_of_succ_lt_succ hgap) (fun j hj => ?_) (fun j hj => ?_) ?_ ?_
        · rw [← hshift]
          exact hrange (j + 1) (Nat.succ_le_succ hj)
        · rw [← hshift]
          exact hpast (j + 1) (Nat.succ_lt_succ hj)
        · rwa [← hshift]
        · rwa [← hshift]
      split_ifs with hfirst
      · have hpassed := hpast 0 (Nat.succ_pos gap)
        rw [Nat.cast_zero, add_zero] at hpassed
        obtain ⟨u, hu, hle⟩ := hpassed hfirst
        rw [localHour_of_occurs hhour hday hu, ok_bind, if_neg (not_lt.mpr hle)]
        exact hrest
      · exact hrest

variable (hlaw : Zones.Lawful Z tz) (hhour : w.hour < 24) (hweekday : w.weekday < 7)

/-- The occurrences that are still to come. -/
def Coming (Z : Zones) (tz : Z.Tz) (w : WeeklySubscription) (now : ℕ) : Set ℕ :=
  {t | now < t ∧ ∃ day, fromMonday day = w.weekday ∧ Occurs Z tz w.hour day t}

include hlaw hhour hweekday in
/-- **Where the clock is in step, the search gives the next occurrence.** -/
theorem weeklySearch_least (hrange : ∀ j : ℕ, j ≤ 7 → InRange (localDay Z tz now + j))
    (hstep : InStep Z tz w.hour now) : ∃ t, ∃ day : ℤ,
      weeklySearch Z tz w now 8 (localDay Z tz now) = .ok (some t) ∧
      fromMonday day = w.weekday ∧ Occurs Z tz w.hour day t ∧ IsLeast (Coming Z tz w now) t := by
  obtain ⟨day, hday⟩ : ∃ day, localDay Z tz now = day := ⟨_, rfl⟩
  rw [hday] at hrange ⊢
  -- the first date from today on with the weekday
  obtain ⟨first, hfirst, hfirst7, hbefore⟩ : ∃ first : ℕ, fromMonday (day + first) = w.weekday ∧
      first < 7 ∧ ∀ j < first, fromMonday (day + j) ≠ w.weekday := by
    refine ⟨(((w.weekday : ℤ) - fromMonday day) % 7).toNat, ?_, ?_, fun j hj => ?_⟩ <;>
      unfold fromMonday at * <;> omega
  obtain ⟨u, hu⟩ := exists_occurs hlaw hhour (day + first)
  -- that date, unless it is today and its occurrence has passed; then the date a week later
  obtain ⟨gap, hgap, hweekday', hpast, t, ht, hnow⟩ : ∃ gap : ℕ, gap ≤ 7 ∧
      fromMonday (day + gap) = w.weekday ∧ (∀ j < gap, fromMonday (day + j) = w.weekday →
        ∃ u : ℤ, Occurs Z tz w.hour (day + j) u ∧ u ≤ now) ∧
      ∃ t : ℤ, Occurs Z tz w.hour (day + gap) t ∧ now < t := by
    by_cases hlater : (now : ℤ) < u
    · exact ⟨first, hfirst7.le, hfirst, fun j hj h => absurd h (hbefore j hj), u, hu, hlater⟩
    · have hzero : first = 0 := by
        by_contra hne
        exact hlater ((hstep _ _ hu).2 (by omega))
      subst hzero
      rw [Nat.cast_zero, add_zero] at hu hfirst
      obtain ⟨t, ht⟩ := exists_occurs hlaw hhour (day + 7)
      refine ⟨7, le_rfl, ?_, fun j hj h => ?_, t, ht, (hstep _ _ ht).2 (by omega)⟩
      · unfold fromMonday at *
        omega
      · have hj0 : j = 0 := by
          unfold fromMonday at *
          omega
        subst hj0
        rw [Nat.cast_zero, add_zero]
        exact ⟨u, hu, not_lt.mp hlater⟩
  obtain ⟨t, rfl⟩ := Int.eq_ofNat_of_zero_le (by omega : 0 ≤ t)
  have hlt : now < t := by exact_mod_cast hnow
  refine ⟨t, day + gap, weeklySearch_eq hhour (Nat.lt_succ_of_le hgap)
    (fun j hj => hrange j (hj.trans hgap)) hpast hweekday' ht hlt, hweekday', ht,
    ⟨hlt, day + gap, hweekday', ht⟩, ?_⟩
  rintro v ⟨hv, other, hother, hoccurs⟩
  have htoday : day ≤ other := by
    by_contra hlt
    have := (hstep _ _ hoccurs).1 (by omega)
    omega
  by_cases hsame : other < day + gap
  · obtain ⟨x, hx, hle⟩ := hpast (other - day).toNat (by omega) (by
      rw [Int.toNat_of_nonneg (by omega), add_sub_cancel]
      exact hother)
    rw [Int.toNat_of_nonneg (by omega), add_sub_cancel] at hx
    have := hoccurs.unique hx
    omega
  · exact_mod_cast ht.mono hlaw hoccurs (hweekday'.trans hother.symm) (not_lt.mp hsame)

end Search

section Store

variable {K : Crates} {s : EngagementStore} {member : ℕ} {policy : MemberPolicy}
  {w : WeeklySubscription} {name : String} {tz : K.Tz}

/-- A valid policy with a zone comes to the search. -/
theorem nextWeekly_eq (hmember : s.memberPolicies[member]? = some policy) (hvalid : policy.Valid K)
    (hw : policy.weeklySubscription = some w) (hname : policy.timezone = some name)
    (htz : K.parseTz name = some tz) {now : ℕ} (hnow : IsInstant now) :
    s.nextWeekly K member now = weeklySearch K.toZones tz w now 8 (localDay K.toZones tz now) := by
  have hpolicy : policy.validate K = .ok () := ensure_of hvalid
  simp only [EngagementStore.nextWeekly, hmember, orErr, ok_bind, hpolicy, hw, hname, htz, utc,
    ensure_of hnow]

theorem inRange_week {now : ℕ} (hnow : IsInstant (now + 7 * 86400)) (tz : K.Tz) (j : ℕ)
    (hj : j ≤ 7) : InRange (localDay K.toZones tz now + j) := by
  have hday := localDay_bounds K.toZones tz now
  refine inRange_of_isInstant hnow ?_
  unfold utcDay at *
  omega

end Store

/-! ### The hour of a candidate -/

section Hour

variable {K : Crates} {s s' t : EngagementStore} {id : ℕ} {c c' : Candidate}

theorem Candidate.Continues.timely (h : c.Continues c') (hc : c.Timely) : c'.Timely := by
  unfold Candidate.Timely Candidate.weeklyDeadline at *
  rw [h.kind, h.dueAt]
  exact hc

/-- In every run, the hour of each candidate ends at an instant. -/
theorem timely_of_reaches {h : History} (hr : Reaches K h s) :
    s.Core ∧ ∀ (id : ℕ) (c : Candidate), s.candidates[id]? = some c → c.Timely := by
  refine hr.invariant (I := fun s : EngagementStore => s.Core ∧ ∀ (id : ℕ) (c : Candidate),
    s.candidates[id]? = some c → c.Timely) ⟨core_empty, fun id c hc => ?_⟩ fun s op hs => ?_
  · simp [EngagementStore.empty] at hc
  · have heffect := step_effect K hs.1 op
    refine ⟨heffect.core hs.1, fun id c' hc' => ?_⟩
    obtain ⟨c, hc, hcont⟩ | ⟨-, htimely⟩ := heffect.candidates hs.1 hc'
    · exact hcont.timely (hs.2 id c hc)
    · exact htimely

theorem mem_dueRows {now : ℕ} : c ∈ s.dueRows now ↔ IsInstant now ∧
    (∃ k : ℕ, s.candidates[k]? = some c) ∧ c.state = .pending ∧ c.dueAt ≤ now ∧
      (c.weeklyWindow now).toOption = some true := by
  unfold EngagementStore.dueRows
  split_ifs with hnow
  · simp only [List.mem_mergeSort, List.mem_filter, decide_eq_true_eq, mem_values, hnow, true_and]
  · simp [hnow]

theorem mem_due {now : ℕ} (hs : s.Core) :
    id ∈ s.due now ↔ ∃ c, s.candidates[id]? = some c ∧ c ∈ s.dueRows now := by
  unfold EngagementStore.due
  rw [List.mem_map]
  constructor
  · rintro ⟨c, hc, rfl⟩
    obtain ⟨-, ⟨k, hk⟩, -⟩ := mem_dueRows.mp hc
    exact ⟨c, by rw [(hs.candidates k c hk).id.1, hk], hc⟩
  · rintro ⟨c, hrow, hc⟩
    exact ⟨c, hc, (hs.candidates id c hrow).id.1⟩

/-- A weekly contact is due for an hour. -/
theorem mem_due_weekly {now : ℕ} (hs : s.Core) (hc : s.candidates[id]? = some c) (htimely : c.Timely)
    (hkind : c.kind = .weeklyCheckIn) : id ∈ s.due now ↔ IsInstant now ∧ c.state = .pending ∧
      c.dueAt ≤ now ∧ now < c.dueAt + 3600 := by
  obtain ⟨deadline, hdeadline⟩ := htimely
  have hhour : deadline = some (c.dueAt + 3600) := by
    rw [Candidate.weeklyDeadline, if_pos (.inl hkind)] at hdeadline
    simp only [bind_eq_ok, orErr_eq_ok, checkedAdd_eq_some, exists_unit, pure_eq_ok] at hdeadline
    obtain ⟨_, ⟨rfl, -⟩, -, rfl⟩ := hdeadline
    rfl
  have hwindow : (c.weeklyWindow now).toOption = some true ↔ c.dueAt ≤ now ∧ now < c.dueAt + 3600 := by
    rw [Candidate.weeklyWindow, hdeadline, hhour]
    simp [Except.toOption]
  rw [mem_due hs]
  simp only [hc, Option.some.injEq, exists_eq_left', mem_dueRows, hwindow]
  exact ⟨fun h => ⟨h.1, h.2.2.1, h.2.2.2.2⟩, fun h => ⟨h.1, ⟨id, hc⟩, h.2.1, h.2.2.1, h.2.2⟩⟩

/-- The number is taken, and the candidate with it, if there still is one, is not pending. -/
def EngagementStore.Retired (s : EngagementStore) (id : ℕ) : Prop :=
  id ≤ s.sequence ∧ ∀ c, s.candidates[id]? = some c → c.state ≠ .pending

/-- No operation makes a candidate pending again. -/
theorem EngagementStore.Retired.step (h : s.Retired id) (hs : s.Core) (op : Op) :
    (step K s op).2.Retired id := by
  have heffect := step_effect K hs op
  refine ⟨h.1.trans (heffect.sequence hs), fun c' hc' => ?_⟩
  obtain ⟨c, hc, hcont⟩ | ⟨hnew, -⟩ := heffect.candidates hs hc'
  · exact hcont.settled (h.2 c hc)
  · exact absurd hnew (by have := h.1; omega)

theorem EngagementStore.Retired.run {h : History} (hretired : s.Retired id) (hs : s.Core)
    (hr : Run (Engagement.step K) s h t) : t.Core ∧ t.Retired id :=
  hr.invariant (I := fun t : EngagementStore => t.Core ∧ t.Retired id) ⟨hs, hretired⟩
    fun _ op hi => ⟨(step_effect K hi.1 op).core hi.1, hi.2.step hi.1 op⟩

theorem EngagementStore.Retired.not_due {now : ℕ} (h : s.Retired id) (hs : s.Core) :
    id ∉ s.due now := by
  intro hdue
  obtain ⟨c, hc, hrow⟩ := (mem_due hs).mp hdue
  exact h.2 c hc (mem_dueRows.mp hrow).2.2.1

/-- What becomes of the candidate for a weekly contact: while it is pending it is due for its hour,
`expire_missed_weekly` cancels it once the hour is over if it is open still and otherwise leaves it as
it is, and a candidate that was cancelled so is never due again. -/
structure EngagementStore.KeepsHour (K : Crates) (s : EngagementStore) (id : ℕ) (c : Candidate) :
    Prop where
  due : ∀ now, IsInstant now →
    (id ∈ s.due now ↔ c.state = .pending ∧ c.dueAt ≤ now ∧ now < c.dueAt + 3600)
  missed : ∀ now, c.Missed now ↔ c.state.isOpen = true ∧ c.dueAt + 3600 ≤ now
  expires : ∀ now, IsInstant now → (∃ n, (s.expireMissedWeekly now).1 = .ok n) ∧
    (s.expireMissedWeekly now).2.candidates[id]? =
      some (if c.Missed now then { c with state := .cancelled } else c)
  spares : ∀ now, c.Missed now → ∀ later, now ≤ later → id ∉ s.due later
  gone : ∀ now, IsInstant now → c.Missed now → ∀ (h : History) (t : EngagementStore),
    Run (step K) (s.expireMissedWeekly now).2 h t → ∀ later, id ∉ t.due later

theorem keepsHour_of_reaches {h : History} (hr : Reaches K h s) (hc : s.candidates[id]? = some c)
    (hkind : c.kind = .weeklyCheckIn) : s.KeepsHour K id c := by
  obtain ⟨hs, htimely⟩ := timely_of_reaches hr
  have hdue {now : ℕ} : id ∈ s.due now ↔ IsInstant now ∧ c.state = .pending ∧ c.dueAt ≤ now ∧
      now < c.dueAt + 3600 := mem_due_weekly hs hc (htimely id c hc) hkind
  have hmissed (now : ℕ) : c.Missed now ↔ c.state.isOpen = true ∧ c.dueAt + 3600 ≤ now := by
    simp [Candidate.Missed, hkind]
  have hexpires {now : ℕ} (hnow : IsInstant now) :=
    expireMissedWeekly_eq hnow (fun id c hc => (hs.candidates id c hc).id.1) htimely
  have hrow {now : ℕ} (hnow : IsInstant now) : (s.expireMissedWeekly now).2.candidates[id]? =
      some (if c.Missed now then { c with state := .cancelled } else c) := by
    obtain ⟨n, hn⟩ := hexpires hnow
    rw [hn]
    simp [Std.ExtTreeMap.getElem?_map, hc]
  refine ⟨fun now hnow => by rw [hdue]; simp [hnow], hmissed, fun now hnow => ⟨?_, hrow hnow⟩,
    fun now hmiss later hle hlisted => ?_, fun now hnow hmiss h t hrun later => ?_⟩
  · obtain ⟨n, hn⟩ := hexpires hnow
    exact ⟨n, by rw [hn]⟩
  · have hover := ((hmissed now).mp hmiss).2
    have hhour := (hdue.mp hlisted).2.2.2
    omega
  · have heffect := step_effect K hs (.expireMissedWeekly now)
    have hretired : (s.expireMissedWeekly now).2.Retired id := by
      refine ⟨(hs.candidates id c hc).id.2.trans (heffect.sequence hs), fun c' hc' => ?_⟩
      rw [hrow hnow, if_pos hmiss] at hc'
      cases hc'
      exact nofun
    obtain ⟨ht, hretired⟩ := hretired.run (heffect.core hs) hrun
    exact hretired.not_due ht

end Hour

/-! ### The contact of a week -/

section Store

variable {K : Crates} {s : EngagementStore} {member : ℕ} {policy : MemberPolicy}
  {w : WeeklySubscription} {name : String} {tz : K.Tz}

/-- What `next_weekly` gives at a time: the next occurrence, which is given until it has come, and then
that of the date a week later. What is due at it has not been missed an hour after the time it was
asked for. -/
structure EngagementStore.AnswersWeekly (K : Crates) (s : EngagementStore) (member : ℕ)
    (w : WeeklySubscription) (tz : K.Tz) (now t : ℕ) (day : ℤ) : Prop where
  answer : s.nextWeekly K member now = .ok (some t)
  weekday : fromMonday day = w.weekday
  occurs : Occurs K.toZones tz w.hour day t
  least : IsLeast (Coming K.toZones tz w now) t
  spared : ∀ c : Candidate, c.dueAt = t → ¬ c.Missed (now + 3600)
  stays : ∀ later, IsInstant (later + 7 * 86400) → InStep K.toZones tz w.hour later →
    now ≤ later → later < t → s.nextWeekly K member later = .ok (some t)
  follows : ∀ later, IsInstant (later + 7 * 86400) → InStep K.toZones tz w.hour later →
    ∀ u : ℕ, Occurs K.toZones tz w.hour (day + 7) u → t ≤ later → later < u →
      s.nextWeekly K member later = .ok (some u)

/-- Candidates for weekly contacts on one weekday that are due at one time, or for dates of one week,
are for one occurrence. -/
def DueOnce (K : Crates) (w : WeeklySubscription) (tz : K.Tz) (s s' : EngagementStore) : Prop :=
  ∀ now now' : ℕ, ∀ id ∈ s.due now, ∀ id' ∈ s'.due now', ∀ c c' : Candidate,
    s.candidates[id]? = some c → s'.candidates[id']? = some c' → c.kind = .weeklyCheckIn →
    c'.kind = .weeklyCheckIn → ∀ day day' : ℤ, fromMonday day = w.weekday →
    fromMonday day' = w.weekday → Occurs K.toZones tz w.hour day c.dueAt →
    Occurs K.toZones tz w.hour day' c'.dueAt → now = now' ∨ monday day = monday day' →
    c.dueAt = c'.dueAt

theorem dueOnce_of_reaches {h h' : History} {s' : EngagementStore} (hr : Reaches K h s)
    (hr' : Reaches K h' s') (hlaw : Zones.Lawful K.toZones tz) : DueOnce K w tz s s' := by
  intro now now' id hid id' hid' c c' hc hc' hkind hkind' day day' hday hday' hoccurs hoccurs' hsame
  obtain ⟨hs, htimely⟩ := timely_of_reaches hr
  obtain ⟨hs', htimely'⟩ := timely_of_reaches hr'
  have hwindow := (mem_due_weekly hs hc (htimely id c hc) hkind).mp hid
  have hwindow' := (mem_due_weekly hs' hc' (htimely' id' c' hc') hkind').mp hid'
  rcases hsame with rfl | hweek
  · exact_mod_cast hoccurs.eq_of_near hlaw hoccurs' (hday.trans hday'.symm) (by omega)
  · have hdate : day = day' := by
      unfold monday at hweek
      omega
    subst hdate
    exact_mod_cast hoccurs.unique hoccurs'

/-- **The weekly contact comes once a week**: where the clock is in step, `next_weekly` gives the next
occurrence, keeps to it until it has come, and then gives that of the next week. In every run the
candidate for an occurrence is due for its hour, and cancelled for good if that passed; and no two
occurrences are due together or in one local week. -/
theorem next_weekly_least (K : Crates) (s : EngagementStore) (member : ℕ) (policy : MemberPolicy)
    (w : WeeklySubscription) (name : String) (tz : K.Tz)
    (hmember : s.memberPolicies[member]? = some policy) (hvalid : policy.Valid K)
    (hw : policy.weeklySubscription = some w) (hname : policy.timezone = some name)
    (htz : K.parseTz name = some tz) (hlaw : Zones.Lawful K.toZones tz) :
    (∀ now, IsInstant (now + 7 * 86400) → InStep K.toZones tz w.hour now →
      ∃ t day, s.AnswersWeekly K member w tz now t day) ∧
    ∀ (h : History), Reaches K h s →
      (∀ (id : ℕ) (c : Candidate), s.candidates[id]? = some c → c.kind = .weeklyCheckIn →
        s.KeepsHour K id c) ∧
      ∀ (h' : History) (s' : EngagementStore), Reaches K h' s' → DueOnce K w tz s s' := by
  obtain ⟨-, hweekday, hhour⟩ := hvalid.weekly w hw
  have hweekday : w.weekday < 7 := by omega
  have hhour : w.hour < 24 := by omega
  have hsearch (now : ℕ) (hnow : IsInstant (now + 7 * 86400)) (hstep : InStep K.toZones tz w.hour now) :
      ∃ t, ∃ day : ℤ, s.nextWeekly K member now = .ok (some t) ∧ fromMonday day = w.weekday ∧
        Occurs K.toZones tz w.hour day t ∧ IsLeast (Coming K.toZones tz w now) t := by
    have hinstant : IsInstant now := (Nat.le_add_right _ _).trans hnow
    rw [nextWeekly_eq hmember hvalid hw hname htz hinstant]
    exact weeklySearch_least hlaw hhour hweekday (inRange_week hnow tz) hstep
  refine ⟨fun now hnow hstep => ?_, fun h hr =>
    ⟨fun id c hc hkind => keepsHour_of_reaches hr hc hkind, fun h' s' hr' =>
      dueOnce_of_reaches hr hr' hlaw⟩⟩
  obtain ⟨t, day, ht, hday, hoccurs, hleast⟩ := hsearch now hnow hstep
  refine ⟨t, day, ht, hday, hoccurs, hleast, fun c hc hmissed => ?_,
    fun later hlater hstep' hle hlt => ?_, fun later hlater hstep' u hu hle hlt => ?_⟩
  · have := hleast.1.1
    have := hmissed.2.2
    omega
  · obtain ⟨t', day', ht', hday', hoccurs', hleast'⟩ := hsearch later hlater hstep'
    have hup : t ≤ t' := hleast.2 ⟨hle.trans_lt hleast'.1.1, day', hday', hoccurs'⟩
    have hdown : t' ≤ t := hleast'.2 ⟨hlt, day, hday, hoccurs⟩
    rw [ht', le_antisymm hdown hup]
  · obtain ⟨t', day', ht', hday', hoccurs', hleast'⟩ := hsearch later hlater hstep'
    have hnext : fromMonday (day + 7) = w.weekday := by
      unfold fromMonday at *
      omega
    have hdown : t' ≤ u := hleast'.2 ⟨hlt, day + 7, hnext, hu⟩
    have hup : u ≤ t' := by
      have hafter : day + 7 ≤ day' := by
        by_contra hbefore
        have hle' := hoccurs'.mono hlaw hoccurs (hday'.trans hday.symm) (by
          unfold fromMonday at *
          omega)
        have := hleast'.1.1
        omega
      exact_mod_cast hu.mono hlaw hoccurs' (hnext.trans hday'.symm) hafter
    rw [ht', le_antisymm hdown hup]

end Store

/-! ### A member who is asked on Sundays at two -/

def sundayWish : WeeklySubscription := ⟨6, 2, .guild 1 2, .origin⟩

def sundayPolicy (timezone : String) : MemberPolicy :=
  { MemberPolicy.default with
    revision := 1, timezone := some timezone, weeklySubscription := some sundayWish }

/-- The message that makes the member 4 eligible. -/
def sundaySource : SourceRef := ⟨.guild 1 2, 5, 4, 1, 86400⟩

def sundaySettings (timezone : String) : Settings where
  communityCursor := none
  feedback := ∅
  memberPolicies := (∅ : BTreeMap ℕ MemberPolicy).insert 4 (sundayPolicy timezone)
  weeklyAssessments := ∅
  responses := ∅
  observations := ∅
  eligibility := (∅ : BTreeMap ℕ (BTreeSet SourceRef)).insert 4 {sundaySource}
  guildFeatures := ∅

/-- The contact on the first Sunday of 1970 is proposed. -/
def sundayOps : List Op :=
  [.configure (sundaySettings "UTC"),
    .propose ⟨.weeklyCheckIn, some sundaySource, some 4, .guild 1 2, 266400, none⟩ 266460]

def sundayStore : EngagementStore := (play (step plainCrates) EngagementStore.empty sundayOps).2

theorem utcZones_lawful : Zones.Lawful utcZones () where
  near l t h := by
    have h : l = t := Option.some.inj h
    omega
  shown day hour hhour := ⟨60 * hour, le_rfl, by omega, Option.some_ne_none _⟩

/-- The contact is due for an hour from two o'clock on. At three it is cancelled. -/
theorem sunday_weekly_least :
    (∀ now, IsInstant (now + 7 * 86400) → InStep utcZones () 2 now →
      ∃ t day, sundayStore.AnswersWeekly plainCrates 4 sundayWish () now t day) ∧
    (∀ now, IsInstant now → (1 ∈ sundayStore.due now ↔ 266400 ≤ now ∧ now < 270000)) ∧
    (∀ later, 1 ∉ (sundayStore.expireMissedWeekly 270000).2.due later) ∧
    DueOnce plainCrates sundayWish () sundayStore sundayStore := by
  have hrun : Run (step plainCrates) EngagementStore.empty _ sundayStore :=
    run_play EngagementStore.empty sundayOps
  obtain ⟨hnext, hstore⟩ := next_weekly_least plainCrates sundayStore 4 (sundayPolicy "UTC")
    sundayWish "UTC" () (by decide +kernel) (by decide +kernel) rfl rfl rfl utcZones_lawful
  obtain ⟨hrows, honce⟩ := hstore _ hrun
  have hrow : (sundayStore.candidates[1]?).map (fun c => (c.kind, c.state, c.dueAt)) =
      some (.weeklyCheckIn, .pending, 266400) := by
    decide +kernel
  obtain ⟨c, hc, hfields⟩ := Option.map_eq_some_iff.mp hrow
  obtain ⟨hkind, hstate, hdue⟩ : c.kind = .weeklyCheckIn ∧ c.state = .pending ∧ c.dueAt = 266400 := by
    simpa using hfields
  have hours := hrows 1 c hc hkind
  refine ⟨hnext, fun now hnow => ?_, fun later => ?_, honce _ _ hrun⟩
  · rw [hours.due now hnow, hdue]
    simp [hstate]
  · have hmissed : c.Missed 270000 := (hours.missed 270000).mpr ⟨by rw [hstate]; rfl, by omega⟩
    exact hours.gone 270000 (by decide) hmissed _ _ .nil later

/-- The clocks of Berlin in the winter and the summer around the last Sunday of March 2026, on which
they are put forward at two. -/
def springZones : Zones where
  Tz := Unit
  parseTz name := if name = "Europe/Berlin" then some () else none
  offset _ t := if t < 1774746000 then 3600 else 7200
  offset_bounds _ t := by split_ifs <;> decide
  fromLocal _ l :=
    if l < 1774749600 then .single (l - 3600)
    else if l < 1774753200 then .none
    else .single (l - 7200)

def springCrates : Crates := { plainCrates with toZones := springZones }

theorem springZones_lawful : Zones.Lawful springZones () where
  near l t h := by
    simp only [springZones] at h
    split_ifs at h <;> simp only [earliest, Option.some.injEq, reduceCtorEq] at h <;> omega
  shown day hour hhour := by
    by_cases hgap : 1774749600 ≤ 86400 * day + 3600 * hour ∧ 86400 * day + 3600 * hour < 1774753200
    · refine ⟨180, by omega, by omega, ?_⟩
      simp only [springZones]
      split_ifs
      · exact Option.some_ne_none _
      · omega
      · exact Option.some_ne_none _
    · refine ⟨60 * hour, le_rfl, by omega, ?_⟩
      simp only [springZones]
      split_ifs
      · exact Option.some_ne_none _
      · push_cast at *
        omega
      · exact Option.some_ne_none _

def berlinStore : EngagementStore :=
  EngagementStore.empty.withSettings (sundaySettings "Europe/Berlin")

/-- On that Sunday the contact comes at three: two o'clock is not shown. -/
theorem sunday_without_two :
    ¬ ∀ (K : Crates) (s : EngagementStore) (member : ℕ) (policy : MemberPolicy)
      (w : WeeklySubscription) (name : String) (tz : K.Tz), s.memberPolicies[member]? = some policy →
      policy.Valid K → policy.weeklySubscription = some w → policy.timezone = some name →
      K.parseTz name = some tz → Zones.Lawful K.toZones tz → ∀ now, IsInstant (now + 7 * 86400) →
      ∃ t, s.nextWeekly K member now = .ok (some t) ∧
        IsLeast {u | now < u ∧ fromMonday (localDay K.toZones tz u) = w.weekday ∧
          localHourOf K.toZones tz u = w.hour} t := by
  intro h
  have hpolicy : berlinStore.memberPolicies[4]? = some (sundayPolicy "Europe/Berlin") :=
    Std.ExtTreeMap.getElem?_insert_self
  have hvalid : (sundayPolicy "Europe/Berlin").Valid springCrates := by decide +kernel
  have hnow : IsInstant (1774742400 + 7 * 86400) := by decide
  obtain ⟨t, ht, hleast⟩ := h springCrates berlinStore 4 (sundayPolicy "Europe/Berlin") sundayWish
    "Europe/Berlin" () hpolicy hvalid rfl rfl rfl springZones_lawful 1774742400 hnow
  have hoccurs : Occurs springZones () 2 20541 (1774746000 : ℕ) := by
    refine ⟨180, by omega, by omega, fun earlier hle hlt => ?_, rfl⟩
    simp only [springZones]
    split_ifs
    · omega
    · rfl
    · omega
  have hsearch : weeklySearch springZones () sundayWish 1774742400 8 20541 =
      .ok (some 1774746000) :=
    weeklySearch_eq (by decide) (show 0 < 8 by omega) (fun j hj => by
      obtain rfl : j = 0 := by omega
      decide) (fun j hj => by omega) rfl hoccurs (by omega)
  rw [nextWeekly_eq hpolicy hvalid rfl rfl rfl ((Nat.le_add_right _ _).trans hnow)] at ht
  have hday : localDay springZones () 1774742400 = 20541 := by decide
  have ht : weeklySearch springZones () sundayWish 1774742400 8
      (localDay springZones () 1774742400) = .ok (some t) := ht
  rw [hday, hsearch, Except.ok.injEq, Option.some.injEq] at ht
  subst ht
  exact absurd hleast.1.2.2 (by decide)

end AbbeyBot.Engagement
