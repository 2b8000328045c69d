import Mathlib
import AbbeyBot.Engagement.Effects

/-! # The contact budget

A member is charged for every attempted contact, in the local day and week of the attempt. The charges
move when their candidates are erased and are pruned when they are old; pruning moves a mark that no
attempt may go behind. What is pruned lies before every day and week that an attempt can still fall
into, so the limits hold for all attempts that were ever made. -/

namespace AbbeyBot.Engagement

open AbbeyBot.Calendar AbbeyBot.Library.CivilDate AbbeyBot.Library.History
open AbbeyBot.Library.OrderedMap AbbeyBot.Library.Result AbbeyBot.Work.Types

variable {K : Crates} {s s' : EngagementStore} {member : ℕ} {tz : K.Tz}

/-- The time of a reservation that charged the member. -/
def chargedAt (member : ℕ) (e : Event EngagementStore Op Out) : Option ℕ :=
  match e.op with
  | .reserve _ _ now =>
    if e.out.reserved?.isSome = true ∧
        ∃ row ∈ e.after.charges.drop e.before.charges.length, row.member = member then some now
    else none
  | _ => none

/-- The times of the reservations that charged the member, latest first. -/
def calls (member : ℕ) (h : History) : List ℕ := h.filterMap (chargedAt member)

/-! ### Charges -/

/-- A reservation adds charges to members that were admitted. -/
theorem Reserves.charges {id now : ℕ} {c : Candidate} {r : EngagementReservation}
    (h : s.Reserves K id now c r s') :
    s'.erasedContactCharges = s.erasedContactCharges ∧
      s'.safetyPrunedThrough = s.safetyPrunedThrough ∧
      ∃ new, s'.charges = s.charges ++ new ∧ ∀ row ∈ new, ∃ b,
        row = chargeOf id row.member now b ∧ s.Admits K row.member now b := by
  cases h with
  | introduction i b₀ b₁ current of room admits₀ admits₁ =>
    refine ⟨rfl, rfl, _, rfl, fun row hrow => ?_⟩
    rcases List.mem_pair.mp hrow with rfl | rfl
    · exact ⟨b₀, rfl, admits₀⟩
    · exact ⟨b₁, rfl, admits₁⟩
  | publicly => exact ⟨rfl, rfl, [], rfl, fun row hrow => absurd hrow List.not_mem_nil⟩
  | contact m b p destination kind somebody current admits =>
    refine ⟨rfl, rfl, _, rfl, fun row hrow => ?_⟩
    obtain rfl := List.mem_singleton.mp hrow
    exact ⟨b, rfl, admits⟩

/-- What the limits of a member allow: fewer rows than the limits, and no time behind the mark. -/
theorem capacity_ok {now : ℕ} {b : String × String} (h : s.capacity K member now b = .ok ()) :
    s.safetyPrunedThrough ≤ now ∧ ∃ p daily, s.memberPolicies[member]? = some p ∧
      p.dailyLimit = some daily ∧ (s.contactRows member).countP (fun row => row.1 = b.1) < daily ∧
      ∀ weekly ∈ p.weeklyLimit,
        (s.contactRows member).countP (fun row => row.2.1 = b.2) < weekly := by
  unfold EngagementStore.capacity at h
  simp only [bind_eq_ok, ensure_eq_ok, exists_unit, orErr_eq_ok, utc_eq_ok] at h
  obtain ⟨hthrough, p, hp, _, -, _, -, _, -, -, daily, hdaily, hlimits⟩ := h
  refine ⟨hthrough, p, daily, hp, hdaily, (le_max_left _ _).trans_lt hlimits.1, fun weekly hw => ?_⟩
  exact (le_max_left _ _).trans_lt (hlimits.2 weekly hw)

theorem buckets_ok {now : ℕ} {b : String × String} (h : buckets K tz now = .ok b) :
    IsInstant now ∧
      b = (format (localDay K.toZones tz now), format (monday (localDay K.toZones tz now))) := by
  unfold buckets at h
  simp only [bind_eq_ok, ensure_eq_ok, exists_unit, utc_eq_ok, pure_eq_ok] at h
  exact ⟨h.1, h.2.2.symm⟩

/-! ### What is pruned -/

/-- The local day and week of a time are over, at the mark and ever after. -/
def Over (K : Crates) (tz : K.Tz) (through t : ℕ) : Prop :=
  localDay K.toZones tz t < utcDay through - 2 ∧
    monday (localDay K.toZones tz t) < monday (utcDay through - 2)

theorem utcDay_mono {t t' : ℕ} (h : t ≤ t') : utcDay t ≤ utcDay t' := by
  unfold utcDay
  omega

theorem Over.mono {through through' t : ℕ} (h : Over K tz through t) (hle : through ≤ through') :
    Over K tz through' t := by
  have hday := utcDay_mono hle
  exact ⟨by have := h.1; omega, h.2.trans_le (monday_mono (by omega))⟩

/-- An attempt that is not behind the mark is in another day and week than what is over. -/
theorem Over.ne {through t now : ℕ} (h : Over K tz through t) (hnow : through ≤ now) :
    localDay K.toZones tz t ≠ localDay K.toZones tz now ∧
      monday (localDay K.toZones tz t) ≠ monday (localDay K.toZones tz now) := by
  have hday := utcDay_mono hnow
  have hbounds := (localDay_bounds K.toZones tz now).1
  refine ⟨by have := h.1; omega, fun heq => ?_⟩
  have hmonday : monday (utcDay through - 2) ≤ monday (localDay K.toZones tz now) :=
    monday_mono (by omega)
  have := h.2
  omega

/-- The row of a charge at a time. -/
def rowAt (K : Crates) (tz : K.Tz) (t : ℕ) : String × String × ℕ :=
  (format (localDay K.toZones tz t), format (monday (localDay K.toZones tz t)), t)

/-- A charge that protects nobody any more is over. -/
theorem over_of_not_protects {c : ErasedContactCharge} {t now : ℕ} (ht : IsInstant t)
    (hrow : (c.localDay, c.localWeek, c.at_) = rowAt K tz t) (h : ¬ c.Protects now) :
    Over K tz now t := by
  obtain ⟨hday, hweek, rfl⟩ : c.localDay = format (localDay K.toZones tz t) ∧
      c.localWeek = format (monday (localDay K.toZones tz t)) ∧ c.at_ = t := by
    simpa [rowAt] using hrow
  unfold ErasedContactCharge.Protects at h
  simp only [not_or, not_le, not_exists, not_and] at h
  obtain ⟨hold, hdays, hweeks⟩ := h
  have hbounds := localDay_bounds K.toZones tz c.at_
  have hmonday := monday_le (localDay K.toZones tz c.at_)
  have hparse := parse_format (inRange_of_isInstant ht (d := localDay K.toZones tz c.at_) (by omega))
  have hparse' := parse_format
    (inRange_of_isInstant ht (d := monday (localDay K.toZones tz c.at_)) (by omega))
  have hearliest : utcDay (now - 2 * 86400) = utcDay now - 2 := by
    unfold utcDay
    omega
  rw [hearliest] at hdays hweeks
  have hlate := hdays _ (hday ▸ hparse)
  have hlate' := hweeks _ (hweek ▸ hparse')
  exact ⟨by omega, by omega⟩

/-! ### The ledger -/

/-- The attempts at the times `ts` charged the member: a charge is still in the store, or it is
over. -/
structure EngagementStore.Ledger (s : EngagementStore) (K : Crates) (tz : K.Tz) (member : ℕ)
    (ts : List ℕ) : Prop where
  instants : ∀ t ∈ ts, IsInstant t
  charged : ∃ live gone, ts.Perm (live ++ gone) ∧
    List.Subperm (live.map (rowAt K tz)) (s.contactRows member) ∧
    ∀ t ∈ gone, Over K tz s.safetyPrunedThrough t

theorem ledger_empty : EngagementStore.empty.Ledger K tz member [] where
  instants _ ht := absurd ht List.not_mem_nil
  charged := ⟨[], [], .nil, List.nil_subperm, fun _ ht => absurd ht List.not_mem_nil⟩

/-- Charges are kept when rows come, and the mark moves on. -/
theorem EngagementStore.Ledger.of_subperm {ts : List ℕ} (h : s.Ledger K tz member ts)
    (hrows : List.Subperm (s.contactRows member) (s'.contactRows member))
    (hthrough : s'.safetyPrunedThrough = s.safetyPrunedThrough) : s'.Ledger K tz member ts := by
  obtain ⟨hinstants, live, gone, hperm, hlive, hgone⟩ := h
  exact ⟨hinstants, live, gone, hperm, hlive.trans hrows, by rwa [hthrough]⟩

/-- One charge more, in the store. -/
theorem EngagementStore.Ledger.cons {ts : List ℕ} {now : ℕ} (h : s.Ledger K tz member ts)
    (hnow : IsInstant now)
    (hrows : List.Subperm (rowAt K tz now :: s.contactRows member) (s'.contactRows member))
    (hthrough : s'.safetyPrunedThrough = s.safetyPrunedThrough) :
    s'.Ledger K tz member (now :: ts) := by
  obtain ⟨hinstants, live, gone, hperm, hlive, hgone⟩ := h
  refine ⟨List.forall_mem_cons.mpr ⟨hnow, hinstants⟩, now :: live, gone, hperm.cons now, ?_, ?_⟩
  · exact ((List.subperm_cons _).mpr hlive).trans hrows
  · rwa [hthrough]

/-- The charges of the attempts in a day or week that is not over are in the store. -/
theorem EngagementStore.Ledger.countP_le {ts : List ℕ} (h : s.Ledger K tz member ts)
    {p : ℕ → Bool} {q : String × String × ℕ → Bool} (hp : ∀ t, p t = true → q (rowAt K tz t) = true)
    (hover : ∀ t, Over K tz s.safetyPrunedThrough t → p t = false) :
    ts.countP p ≤ (s.contactRows member).countP q := by
  obtain ⟨-, live, gone, hperm, hlive, hgone⟩ := h
  have hzero : gone.countP p = 0 := by
    rw [List.countP_eq_zero]
    intro t ht
    rw [hover t (hgone t ht)]
    exact Bool.false_ne_true
  calc ts.countP p = live.countP p + gone.countP p := by rw [hperm.countP_eq, List.countP_append]
    _ = live.countP p := by rw [hzero, Nat.add_zero]
    _ ≤ live.countP (q ∘ rowAt K tz) := List.countP_mono_left fun t _ => hp t
    _ = (live.map (rowAt K tz)).countP q := (List.countP_map ..).symm
    _ ≤ (s.contactRows member).countP q := hlive.countP_le q

/-- Erasing moves charges from one table to the other. -/
theorem contactRows_erased (s : EngagementStore) (scope : String) (who : Option ℕ) :
    ((s.erased K scope who).contactRows member).Perm (s.contactRows member) := by
  have hmoved : ((s.movedContactCharges scope who).filter fun c => c.member = member).map
      (fun c => (c.localDay, c.localWeek, c.at_)) =
      ((s.charges.filter fun c => c.candidateId ∈ s.erasedCandidates scope who).filter
        fun c => c.member = member).map fun c => (c.localDay, c.localWeek, c.at_) := by
    unfold EngagementStore.movedContactCharges
    rw [List.filter_map, List.map_map]
    rfl
  have hsplit := List.filter_append_perm (fun c : ContactCharge =>
    decide (c.candidateId ∈ s.erasedCandidates scope who)) s.charges
  simp only [← decide_not] at hsplit
  have hrows := (hsplit.filter fun c => c.member = member).map fun c : ContactCharge =>
    (c.localDay, c.localWeek, c.at_)
  rw [List.filter_append, List.map_append] at hrows
  unfold EngagementStore.contactRows
  simp only [EngagementStore.erased, List.filter_append, List.map_append, hmoved]
  refine (List.perm_append_comm_assoc ..).trans (List.perm_append_comm.trans ?_)
  exact (List.perm_append_comm.trans hrows).append_right _

instance (through t : ℕ) : Decidable (Over K tz through t) := inferInstanceAs (Decidable (_ ∧ _))

/-- The row is that of a time, and protects the member at `now`. -/
def Lasts (K : Crates) (tz : K.Tz) (now : ℕ) (row : String × String × ℕ) : Bool :=
  row = rowAt K tz row.2.2 ∧ IsInstant row.2.2 ∧ ¬ Over K tz now row.2.2

/-- Pruning drops no row that lasts. -/
theorem lasting_sublist {charges : List ErasedContactCharge} {now : ℕ} :
    List.Sublist (((charges.filter fun c => c.member = member).map fun c =>
        (c.localDay, c.localWeek, c.at_)).filter (Lasts K tz now))
      (((charges.filter fun c => c.Protects now).filter fun c => c.member = member).map fun c =>
        (c.localDay, c.localWeek, c.at_)) := by
  rw [List.filter_map, List.filter_filter, List.filter_filter]
  refine (List.monotone_filter_right charges fun c hc => ?_).map _
  simp only [Function.comp_apply, Lasts, Bool.and_eq_true, decide_eq_true_eq] at hc ⊢
  obtain ⟨⟨hrow, hinstant, hlasts⟩, hmember⟩ := hc
  refine ⟨hmember, ?_⟩
  by_contra hprotects
  exact hlasts (over_of_not_protects hinstant hrow hprotects)

/-- Pruning drops only charges that are over. -/
theorem ledger_pruned {ts : List ℕ} (h : s.Ledger K tz member ts) (now : ℕ) :
    (s.pruneErasureSafety now).Ledger K tz member ts := by
  unfold EngagementStore.pruneErasureSafety
  dsimp only
  split_ifs with hinstant hpruned
  · obtain ⟨hinstants, live, gone, hperm, hlive, hgone⟩ := h
    have hmark : s.safetyPrunedThrough ≤ max s.safetyPrunedThrough now := le_max_left _ _
    refine ⟨hinstants, live.filter fun t => ¬ Over K tz now t,
      (live.filter fun t => Over K tz now t) ++ gone, ?_, ?_, fun t ht => ?_⟩
    · have hsplit := List.filter_append_perm (fun t => decide (Over K tz now t)) live
      simp only [← decide_not] at hsplit
      rw [← List.append_assoc]
      exact hperm.trans ((hsplit.symm.trans List.perm_append_comm).append_right _)
    · have hlasting : (live.map (rowAt K tz)).filter (Lasts K tz now) =
          (live.filter fun t => ¬ Over K tz now t).map (rowAt K tz) := by
        rw [List.filter_map]
        congr 1
        refine List.filter_congr fun t ht => ?_
        have hmem := hinstants t (hperm.mem_iff.mpr (List.mem_append_left _ ht))
        simp [Lasts, rowAt, hmem]
      rw [← hlasting]
      refine (hlive.filter _).trans (List.Sublist.subperm ?_)
      unfold EngagementStore.contactRows
      rw [List.filter_append]
      exact List.filter_sublist.append lasting_sublist
    · rcases List.mem_append.mp ht with ht | ht
      · have hover : Over K tz now t := of_decide_eq_true (List.mem_filter.mp ht).2
        exact hover.mono (le_max_right _ _)
      · exact (hgone t ht).mono hmark
  · have hsame : s.erasedContactCharges.filter (fun c => c.Protects now) =
        s.erasedContactCharges := by
      have hle := List.length_filter_le (fun c => decide (c.Protects now)) s.erasedContactCharges
      have hle' := List.length_filter_le (fun c => decide (now - c.at_ ≤ week))
        s.erasedCommunityCharges
      exact List.filter_sublist.eq_of_length (by omega)
    refine h.of_subperm ?_ rfl
    unfold EngagementStore.contactRows
    rw [hsame]
  · exact h

/-- A reservation that charges the member adds a row to the member's charges. -/
theorem subperm_contactRows {new : List ContactCharge} {row : ContactCharge}
    (hcharges : s'.charges = s.charges ++ new)
    (herased : s'.erasedContactCharges = s.erasedContactCharges) (hrow : row ∈ new)
    (hmember : row.member = member) :
    List.Subperm ((row.localDay, row.localWeek, row.at_) :: s.contactRows member)
      (s'.contactRows member) := by
  have hmem : (row.localDay, row.localWeek, row.at_) ∈
      (new.filter fun c => c.member = member).map fun c => (c.localDay, c.localWeek, c.at_) :=
    List.mem_map.mpr ⟨row, List.mem_filter.mpr ⟨hrow, decide_eq_true hmember⟩, rfl⟩
  unfold EngagementStore.contactRows
  rw [hcharges, herased, List.filter_append, List.map_append, ← List.cons_append]
  refine (List.subperm_append_right _).mpr ?_
  refine (List.perm_append_singleton _ _).symm.subperm.trans ?_
  exact (List.subperm_append_left _).mpr (List.singleton_subperm_iff.mpr hmem)

/-- Charges that are only added to keep what is in the store. -/
theorem subperm_contactRows_append {new : List ContactCharge}
    (hcharges : s'.charges = s.charges ++ new)
    (herased : s'.erasedContactCharges = s.erasedContactCharges) :
    List.Subperm (s.contactRows member) (s'.contactRows member) := by
  unfold EngagementStore.contactRows
  rw [hcharges, herased, List.filter_append, List.map_append]
  exact (List.subperm_append_right _).mpr (List.sublist_append_left ..).subperm

theorem chargedAt_quiet {e : Event EngagementStore Op Out} (h : e.out.reserved? = none) :
    chargedAt member e = none := by
  unfold chargedAt
  cases e.op <;> simp [h]

/-- **One operation** keeps the ledger; where it charges the member, the member had capacity. -/
theorem step_ledger {ts : List ℕ} {name : String} (h : s.Ledger K tz member ts) (hs : s.Core)
    (op : Op) (hparse : K.parseTz name = some tz)
    (hzone : ∀ p, s.memberPolicies[member]? = some p → p.timezone = some name) :
    (chargedAt member (event (step K) s op) = none ∧ (step K s op).2.Ledger K tz member ts) ∨
      ∃ now, chargedAt member (event (step K) s op) = some now ∧
        s.capacity K member now (format (localDay K.toZones tz now),
          format (monday (localDay K.toZones tz now))) = .ok () ∧
        (step K s op).2.Ledger K tz member (now :: ts) := by
  have hsame (s' : EngagementStore) (hcharges : s'.charges = s.charges)
      (herased : s'.erasedContactCharges = s.erasedContactCharges)
      (hthrough : s'.safetyPrunedThrough = s.safetyPrunedThrough) : s'.Ledger K tz member ts :=
    have hnone : s'.charges = s.charges ++ [] := by rw [hcharges, List.append_nil]
    h.of_subperm (subperm_contactRows_append hnone herased) hthrough
  cases step_effect K hs op with
  | grows quiet valid hgrows =>
    refine .inl ⟨chargedAt_quiet quiet, hsame _ ?_ ?_ ?_⟩ <;> rw [hgrows.rest]
  | calm quiet hcalm =>
    refine .inl ⟨chargedAt_quiet quiet, hsame _ hcalm.sameCharges ?_ ?_⟩ <;> rw [hcalm.rest]
  | reserves id revision now c r called returned row pending due instant hreserves =>
    obtain ⟨herased, hthrough, new, hcharges, hnew⟩ := Reserves.charges hreserves
    have hdrop : (step K s op).2.charges.drop s.charges.length = new := by
      rw [hcharges, List.drop_left]
    have hat : chargedAt member (event (step K) s op) =
        if ∃ row ∈ new, row.member = member then some now else none := by
      unfold chargedAt event
      dsimp only
      rw [hdrop, returned, called]
      simp only [Option.isSome_some, true_and]
    by_cases hcharged : ∃ row ∈ new, row.member = member
    · rw [if_pos hcharged] at hat
      obtain ⟨row, hrow, rfl⟩ := hcharged
      obtain ⟨b, heq, ⟨p, name', tz', hp, hname, htz, hb⟩, hcapacity⟩ := hnew row hrow
      rw [hzone p hp, Option.some.injEq] at hname
      subst hname
      rw [hparse, Option.some.injEq] at htz
      subst htz
      obtain ⟨hnow, rfl⟩ := buckets_ok hb
      refine .inr ⟨now, hat, hcapacity, h.cons hnow ?_ hthrough⟩
      have hrows := subperm_contactRows hcharges herased hrow rfl
      rw [heq] at hrows
      exact hrows
    · rw [if_neg hcharged] at hat
      exact .inl ⟨hat, h.of_subperm (subperm_contactRows_append hcharges herased) hthrough⟩
  | erases quiet scope who room heq =>
    refine .inl ⟨chargedAt_quiet quiet, ?_⟩
    rw [heq]
    exact h.of_subperm (contactRows_erased s scope who).symm.subperm rfl
  | prunes quiet now heq =>
    refine .inl ⟨chargedAt_quiet quiet, ?_⟩
    rw [heq]
    exact ledger_pruned h now
  | configures quiet settings valid heq =>
    refine .inl ⟨chargedAt_quiet quiet, hsame _ ?_ ?_ ?_⟩ <;> rw [heq] <;> rfl

/-! ### Runs -/

/-- No local day has more attempts than the daily limit, no local week more than the weekly limit. -/
structure Within (K : Crates) (tz : K.Tz) (daily weekly : Option ℕ) (ts : List ℕ) : Prop where
  days : ∀ limit ∈ daily, ∀ d, ts.countP (fun t => localDay K.toZones tz t = d) ≤ limit
  weeks : ∀ limit ∈ weekly, ∀ w, ts.countP (fun t => monday (localDay K.toZones tz t) = w) ≤ limit

theorem countP_cons_le {p : ℕ → Bool} {t : ℕ} {ts : List ℕ} {limit : ℕ} (h : ts.countP p ≤ limit)
    (ht : p t = true → ts.countP p < limit) : (t :: ts).countP p ≤ limit := by
  rw [List.countP_cons]
  split_ifs with hp
  · exact ht hp
  · exact h

/-- An attempt for which the member has capacity stays within the limits. -/
theorem Within.cons {ts : List ℕ} {now : ℕ} {p : MemberPolicy}
    (h : Within K tz p.dailyLimit p.weeklyLimit ts) (hl : s.Ledger K tz member ts)
    (hp : s.memberPolicies[member]? = some p)
    (hcapacity : s.capacity K member now (format (localDay K.toZones tz now),
      format (monday (localDay K.toZones tz now))) = .ok ()) :
    Within K tz p.dailyLimit p.weeklyLimit (now :: ts) := by
  obtain ⟨hthrough, p', daily, hp', hdaily, hdays, hweeks⟩ := capacity_ok hcapacity
  rw [hp, Option.some.injEq] at hp'
  subst hp'
  refine ⟨fun limit hlimit d => ?_, fun limit hlimit w => ?_⟩
  · refine countP_cons_le (h.days limit hlimit d) fun hd => ?_
    rw [decide_eq_true_eq] at hd
    subst hd
    rw [hdaily, Option.mem_some_iff] at hlimit
    subst hlimit
    refine (hl.countP_le (fun t ht => ?_) fun t ht => ?_).trans_lt hdays
    · rw [decide_eq_true_eq] at ht ⊢
      exact congrArg format ht
    · exact decide_eq_false (ht.ne hthrough).1
  · refine countP_cons_le (h.weeks limit hlimit w) fun hw => ?_
    rw [decide_eq_true_eq] at hw
    subst hw
    refine (hl.countP_le (fun t ht => ?_) fun t ht => ?_).trans_lt (hweeks limit hlimit)
    · rw [decide_eq_true_eq] at ht ⊢
      exact congrArg format ht
    · exact decide_eq_false (ht.ne hthrough).2

/-- The settings of the member that the budget rests on are these, in all states of the history where
the member has a policy. -/
def Constant (member : ℕ) (zone : Option String) (daily weekly : Option ℕ) (h : History) : Prop :=
  ∀ e ∈ h, ∀ p, e.before.memberPolicies[member]? = some p →
    p.timezone = zone ∧ p.dailyLimit = daily ∧ p.weeklyLimit = weekly

theorem ledger_of_reaches {h : History} {name : String} {daily weekly : Option ℕ}
    (hr : Reaches K h s) (hparse : K.parseTz name = some tz)
    (hconstant : Constant member (some name) daily weekly h) :
    s.Ledger K tz member (calls member h) ∧ Within K tz daily weekly (calls member h) := by
  induction hr with
  | nil =>
    refine ⟨ledger_empty, fun limit _ d => ?_, fun limit _ w => ?_⟩
    · exact Nat.zero_le _
    · exact Nat.zero_le _
  | @cons h s op hr ih =>
    obtain ⟨hbefore, hearlier⟩ := List.forall_mem_cons.mp hconstant
    obtain ⟨hledger, hwithin⟩ := ih hearlier
    rcases step_ledger hledger (core_of_reaches hr) op hparse fun p hp => (hbefore p hp).1 with
      ⟨hnone, hnext⟩ | ⟨now, hnow, hcapacity, hnext⟩
    · unfold calls
      rw [List.filterMap_cons_none hnone]
      exact ⟨hnext, hwithin⟩
    · unfold calls
      rw [List.filterMap_cons_some hnow]
      refine ⟨hnext, ?_⟩
      obtain ⟨-, p, -, hp, -⟩ := capacity_ok hcapacity
      obtain ⟨-, rfl, rfl⟩ := hbefore p hp
      exact hwithin.cons hledger hp hcapacity

/-- **The contact budget**: in every run, with any times, in which the time zone and the limits of a
member do not change, no local day of the member has more charged reservations than the daily limit,
and no local week more than the weekly limit. -/
theorem contacts_within_budget {h : History} {zone : Option String} {daily weekly : Option ℕ}
    (hr : Reaches K h s) (hconstant : Constant member zone daily weekly h) :
    ∀ name ∈ zone, ∀ tz ∈ K.parseTz name,
      (∀ limit ∈ daily, ∀ d,
        (calls member h).countP (fun t => localDay K.toZones tz t = d) ≤ limit) ∧
      ∀ limit ∈ weekly, ∀ w,
        (calls member h).countP (fun t => monday (localDay K.toZones tz t) = w) ≤ limit := by
  intro name hname tz htz
  rw [Option.mem_def] at hname htz
  subst hname
  obtain ⟨-, hdays, hweeks⟩ := ledger_of_reaches hr htz hconstant
  exact ⟨hdays, hweeks⟩

/-- Introductions are on in the channel 2 of the guild 1; the members 7, 8 and 9 may be contacted once a
day and twice a week. -/
def budgetSettings : Settings where
  communityCursor := none
  feedback := ∅
  memberPolicies :=
    let policy := { MemberPolicy.default with
      revision := 1, dailyLimit := some 1, weeklyLimit := some 2, timezone := some "UTC" }
    (((∅ : BTreeMap ℕ MemberPolicy).insert 7 policy).insert 8 policy).insert 9 policy
  weeklyAssessments := ∅
  responses := ∅
  observations := ∅
  eligibility := ∅
  guildFeatures := (∅ : BTreeMap ℕ GuildFeaturePolicy).insert 1
    ⟨1, {.introductions},
      (∅ : BTreeMap CommunityFeature (BTreeSet ℕ)).insert .introductions {2}⟩

/-- The members 7 and 8 are introduced; the member 8 is erased, and with them the charges of both, which
are pruned eleven days later, when the members 7 and 9 are introduced. -/
def budgetOps : List Op :=
  [.configure budgetSettings,
    .createIntroduction ![7, 8] (.guild 1 2) "I build kites." 1700049000,
    .editIntroduction 1 8 1 "I fly kites." none,
    .approveIntroduction 1 7 2,
    .approveIntroduction 1 8 2,
    .reserve 2 2 1700049600,
    .settle 2 (.sent 77),
    .eraseLearning "discord:1" (some 8),
    .createIntroduction ![7, 9] (.guild 1 2) "I build kites." 1700999000,
    .editIntroduction 3 9 1 "I paint kites." none,
    .approveIntroduction 3 7 2,
    .approveIntroduction 3 9 2,
    .pruneErasureSafety 1701000000,
    .reserve 4 2 1701000000]

theorem introduced_within_budget :
    calls 7 (play (step plainCrates) EngagementStore.empty budgetOps).1 =
        [1701000000, 1700049600] ∧
      (play (step plainCrates) EngagementStore.empty budgetOps).2.charges.length = 2 ∧
      ∀ d, (calls 7 (play (step plainCrates) EngagementStore.empty budgetOps).1).countP
        (fun t => localDay plainCrates.toZones () t = d) ≤ 1 := by
  have hsame : (play (step plainCrates) EngagementStore.empty budgetOps).1.all (fun e =>
      (e.before.memberPolicies[7]?).all fun p => p.timezone = some "UTC" ∧ p.dailyLimit = some 1 ∧
        p.weeklyLimit = some 2) = true := by
    decide +kernel
  have hconstant : Constant 7 (some "UTC") (some 1) (some 2)
      (play (step plainCrates) EngagementStore.empty budgetOps).1 := by
    intro e he p hp
    have hall := List.all_eq_true.mp hsame e he
    rw [hp, Option.all_some, decide_eq_true_eq] at hall
    exact hall
  have hbudget := contacts_within_budget (run_play EngagementStore.empty budgetOps) hconstant "UTC" rfl ()
    rfl
  exact ⟨by decide +kernel, by decide +kernel, hbudget.1 1 rfl⟩

end AbbeyBot.Engagement
