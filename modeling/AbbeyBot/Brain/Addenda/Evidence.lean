import Mathlib
import AbbeyBot.Brain.Addenda.Ledger

/-! # Style addenda along a run

What the ledger holds is compared with the history: the evidence for a signal, and the reverts whose
time has not passed. -/

namespace AbbeyBot.Brain.Addenda

open AbbeyBot.Library.History AbbeyBot.Library.Word

/-! ### The evidence in the history -/

/-- What was observed of a knob since it was last applied or reverted, without the members who have
been erased since, the latest first. -/
def evidence (knob : StyleKnob) : LedgerHistory → List Observation
  | [] => []
  | e :: h =>
    match e.op with
    | .observe key signal now =>
      if signal.knob = knob then ⟨memberHash key, signal, now⟩ :: evidence knob h else evidence knob h
    | .tick _ => if ∃ s ∈ e.out.applies, s.knob = knob then [] else evidence knob h
    | .revert knob' _ => if knob' = knob then [] else evidence knob h
    | .clear _ => []
    | .eraseMember key => (evidence knob h).filter fun o => o.member ≠ memberHash key

/-- The observations of a knob. -/
def ofKnob (knob : StyleKnob) (observations : List Observation) : List Observation :=
  observations.filter fun o => o.signal.knob = knob

/-- The ledger holds no more than the evidence. -/
def Evident (h : LedgerHistory) (l : AddendaLedger) : Prop :=
  ∀ knob, (ofKnob knob l.observations).Subperm (evidence knob h)

theorem subperm_of_sublist {observations observations' : List Observation}
    (h : observations.Sublist observations') (knob : StyleKnob) :
    (ofKnob knob observations).Subperm (ofKnob knob observations') := (h.filter _).subperm

theorem ofKnob_filter_ne (knob knob' : StyleKnob) (observations : List Observation) :
    ofKnob knob (observations.filter fun o => o.signal.knob ≠ knob') =
      if knob' = knob then [] else ofKnob knob observations := by
  unfold ofKnob
  rw [List.filter_filter]
  split_ifs with heq
  · refine List.filter_eq_nil_iff.mpr fun o _ => ?_
    simp [heq]
  · refine List.filter_congr fun o _ => ?_
    by_cases ho : o.signal.knob = knob
    · simp [ho, Ne.symm heq]
    · simp [ho]

theorem observe_evident {h : LedgerHistory} {l : AddendaLedger} (hevident : Evident h l)
    (hbounded : Bounded l) (policy : Policy) (key : String) (signal : StyleSignal) (now : ℕ) :
    Evident (event (step policy) l (.observe key signal now) :: h) (l.observe key signal now) := by
  intro knob
  have hevidence : evidence knob (event (step policy) l (.observe key signal now) :: h) =
      if signal.knob = knob then ⟨memberHash key, signal, now⟩ :: evidence knob h
      else evidence knob h := rfl
  rw [hevidence]
  unfold AddendaLedger.observe
  split_ifs with hsuppressed hknob hknob
  · exact (hevident knob).trans (List.sublist_cons_self _ _).subperm
  · exact hevident knob
  · obtain ⟨hsub, -⟩ := makeRoom_rows (hbounded.rows (memberHash key) signal)
    refine (subperm_of_sublist (List.drop_sublist _ _) knob).trans ?_
    have happend : ofKnob knob (AddendaLedger.makeRoom l.observations (memberHash key) signal ++
        [(⟨memberHash key, signal, now⟩ : Observation)]) =
        ofKnob knob (AddendaLedger.makeRoom l.observations (memberHash key) signal) ++
          [⟨memberHash key, signal, now⟩] := by
      unfold ofKnob
      rw [List.filter_append, List.filter_singleton, decide_eq_true hknob]
      rfl
    rw [happend]
    refine (List.perm_append_singleton _ _).subperm.trans ?_
    exact (List.subperm_cons _).mpr ((subperm_of_sublist hsub knob).trans (hevident knob))
  · obtain ⟨hsub, -⟩ := makeRoom_rows (hbounded.rows (memberHash key) signal)
    refine (subperm_of_sublist (List.drop_sublist _ _) knob).trans ?_
    have happend : ofKnob knob (AddendaLedger.makeRoom l.observations (memberHash key) signal ++
        [(⟨memberHash key, signal, now⟩ : Observation)]) =
        ofKnob knob (AddendaLedger.makeRoom l.observations (memberHash key) signal) := by
      unfold ofKnob
      rw [List.filter_append, List.filter_singleton, decide_eq_false hknob]
      exact List.append_nil _
    rw [happend]
    exact (subperm_of_sublist hsub knob).trans (hevident knob)

theorem tick_evident {h : LedgerHistory} {l : AddendaLedger} (hevident : Evident h l)
    (policy : Policy) (now : ℕ) :
    Evident (event (step policy) l (.tick now) :: h) (l.tick policy now).2 := by
  intro knob
  obtain ⟨applied, happlies, hout⟩ := tick_applies policy now l
  have hevidence : evidence knob (event (step policy) l (.tick now) :: h) =
      if ∃ s ∈ (Out.ticked (l.tick policy now).1).applies, s.knob = knob then []
      else evidence knob h := rfl
  rw [hevidence, hout, happlies.observations]
  split_ifs with hknob
  · obtain ⟨s, hs, hsknob⟩ := hknob
    have hnil : ofKnob knob ((l.pruned policy now).observations.filter fun o =>
        o.signal.knob ∉ applied.map StyleSignal.knob) = [] := by
      unfold ofKnob
      rw [List.filter_filter]
      refine List.filter_eq_nil_iff.mpr fun o _ => ?_
      intro ho
      simp only [Bool.and_eq_true, decide_eq_true_eq] at ho
      exact ho.2 (ho.1 ▸ hsknob ▸ List.mem_map_of_mem hs)
    rw [hnil]
  · exact (subperm_of_sublist (List.filter_sublist.trans List.filter_sublist) knob).trans
      (hevident knob)

theorem revert_evident {h : LedgerHistory} {l : AddendaLedger} (hevident : Evident h l)
    (policy : Policy) (knob' : StyleKnob) (now : ℕ) :
    Evident (event (step policy) l (.revert knob' now) :: h) (l.revert knob' policy now).2 := by
  intro knob
  have hevidence : evidence knob (event (step policy) l (.revert knob' now) :: h) =
      if knob' = knob then [] else evidence knob h := rfl
  rw [hevidence]
  show (ofKnob knob (l.observations.filter fun o => o.signal.knob ≠ knob')).Subperm _
  rw [ofKnob_filter_ne]
  split_ifs
  · exact List.nil_subperm
  · exact hevident knob

/-- A clear leaves no observation. -/
theorem observations_clear (policy : Policy) (now : ℕ) (l : AddendaLedger) (knob : StyleKnob) :
    ofKnob knob (l.clear policy now).2.observations = [] := by
  have hfold : ∀ (knobs : List StyleKnob) (r : ℕ × AddendaLedger),
      (knob ∈ knobs ∨ ofKnob knob r.2.observations = []) →
      ofKnob knob (knobs.foldl (fun r knob =>
        ((if (r.2.revert knob policy now).1 then r.1 + 1 else r.1),
          (r.2.revert knob policy now).2)) r).2.observations = [] := by
    intro knobs
    induction knobs with
    | nil => exact fun r hr => hr.resolve_left List.not_mem_nil
    | cons knob' knobs ih =>
      intro r hr
      refine ih _ ?_
      have hrevert : ofKnob knob (r.2.revert knob' policy now).2.observations =
          if knob' = knob then [] else ofKnob knob r.2.observations := ofKnob_filter_ne knob knob' _
      dsimp only
      rw [hrevert]
      rcases hr with hr | hr
      · rcases List.mem_cons.mp hr with rfl | hr
        · exact .inr (if_pos rfl)
        · exact .inl hr
      · rw [hr, ite_self]
        exact .inr rfl
  exact hfold StyleKnob.all (0, l) (.inl (StyleKnob.mem_all knob))

theorem step_evident {h : LedgerHistory} {policy : Policy} {l : AddendaLedger} (hevident : Evident h l)
    (hbounded : Bounded l) (op : Op) : Evident (event (step policy) l op :: h) (step policy l op).2 := by
  cases op with
  | observe key signal now => exact observe_evident hevident hbounded policy key signal now
  | tick now => exact tick_evident hevident policy now
  | revert knob now => exact revert_evident hevident policy knob now
  | clear now =>
    intro knob
    show (ofKnob knob (l.clear policy now).2.observations).Subperm _
    rw [observations_clear]
    exact List.nil_subperm
  | eraseMember key =>
    intro knob
    have hfilter : ofKnob knob (l.eraseMember key).2.observations =
        (ofKnob knob l.observations).filter fun o => o.member ≠ memberHash key := by
      unfold ofKnob AddendaLedger.eraseMember
      dsimp only
      rw [List.filter_filter, List.filter_filter]
      exact List.filter_congr fun o _ => Bool.and_comm _ _
    show (ofKnob knob (l.eraseMember key).2.observations).Subperm
      ((evidence knob h).filter fun o => o.member ≠ memberHash key)
    rw [hfilter]
    exact (hevident knob).filter _

/-! ### Suppressions in the history -/

/-- What has been reverted is suppressed until its time has passed. -/
def Suppresses (policy : Policy) (h : LedgerHistory) (l : AddendaLedger) : Prop :=
  ∀ e ∈ h, ∀ (knob : StyleKnob) (reverted : ℕ), e.op.revertsAt knob = some reverted →
    ∀ now, (∀ e' ∈ h, ∀ t, e'.op.time = some t → t ≤ now) →
      now < saturatingAdd reverted policy.ttlSecs → l.IsSuppressed knob now

theorem mem_withSuppression {knob : StyleKnob} {until_ : ℕ} {suppressed : List Suppression} :
    (⟨knob, until_⟩ : Suppression) ∈ AddendaLedger.withSuppression knob until_ suppressed := by
  induction suppressed with
  | nil => exact List.mem_singleton_self _
  | cons p rest ih =>
    unfold AddendaLedger.withSuppression
    split_ifs with hp
    · rw [← hp]
      exact List.mem_cons_self
    · exact List.mem_cons_of_mem _ ih

theorem mem_withSuppression_of_ne {knob : StyleKnob} {until_ : ℕ} {suppressed : List Suppression}
    {p : Suppression} (hp : p ∈ suppressed) (hne : p.knob ≠ knob) :
    p ∈ AddendaLedger.withSuppression knob until_ suppressed := by
  induction suppressed with
  | nil => cases hp
  | cons q rest ih =>
    unfold AddendaLedger.withSuppression
    split_ifs with hq
    · rcases List.mem_cons.mp hp with rfl | hp
      · exact absurd hq hne
      · exact List.mem_cons_of_mem _ hp
    · rcases List.mem_cons.mp hp with rfl | hp
      · exact List.mem_cons_self
      · exact List.mem_cons_of_mem _ (ih hp)

/-- A revert suppresses its knob, and leaves no suppression of a knob that ends earlier. -/
theorem revert_isSuppressed {l : AddendaLedger} (knob : StyleKnob) (policy : Policy)
    {reverted now : ℕ} (hnow : now < saturatingAdd reverted policy.ttlSecs) :
    (l.revert knob policy reverted).2.IsSuppressed knob now :=
  ⟨_, mem_sortByKey.mpr mem_withSuppression, rfl, hnow⟩

theorem revert_keeps_suppressed {l : AddendaLedger} {knob knob' : StyleKnob} {policy : Policy}
    {reverted now : ℕ} (h : l.IsSuppressed knob now) (hne : knob' ≠ knob) :
    (l.revert knob' policy reverted).2.IsSuppressed knob now := by
  obtain ⟨p, hp, rfl, hnow⟩ := h
  exact ⟨p, mem_sortByKey.mpr (mem_withSuppression_of_ne hp (Ne.symm hne)), rfl, hnow⟩

/-- A clear is a revert of every knob. -/
theorem clear_isSuppressed {l : AddendaLedger} (knob : StyleKnob) (policy : Policy)
    {reverted now : ℕ} (hnow : now < saturatingAdd reverted policy.ttlSecs) :
    (l.clear policy reverted).2.IsSuppressed knob now := by
  have hfold : ∀ (knobs : List StyleKnob) (r : ℕ × AddendaLedger),
      (knob ∈ knobs ∨ r.2.IsSuppressed knob now) →
      (knobs.foldl (fun r knob =>
        ((if (r.2.revert knob policy reverted).1 then r.1 + 1 else r.1),
          (r.2.revert knob policy reverted).2)) r).2.IsSuppressed knob now := by
    intro knobs
    induction knobs with
    | nil => exact fun r hr => hr.resolve_left List.not_mem_nil
    | cons knob' knobs ih =>
      intro r hr
      refine ih _ ?_
      dsimp only
      by_cases heq : knob' = knob
      · rw [heq]
        exact .inr (revert_isSuppressed knob policy hnow)
      · refine hr.imp (fun hmem => ?_) fun h => revert_keeps_suppressed h heq
        exact (List.mem_cons.mp hmem).resolve_left fun h => heq h.symm
  exact hfold StyleKnob.all (0, l) (.inl (StyleKnob.mem_all knob))

theorem time_of_revertsAt {op : Op} {knob : StyleKnob} {t : ℕ} (h : op.revertsAt knob = some t) :
    op.time = some t := by
  cases op with
  | revert knob' now =>
    unfold Op.revertsAt at h
    dsimp only at h
    split_ifs at h
    exact h
  | clear now => exact h
  | observe => cases h
  | tick => cases h
  | eraseMember => cases h

theorem step_suppresses {h : LedgerHistory} {policy : Policy} {l : AddendaLedger}
    (hsuppresses : Suppresses policy h l) (op : Op)
    (hordered : ∀ now, op.time = some now → ∀ e' ∈ h, ∀ t, e'.op.time = some t → t ≤ now) :
    Suppresses policy (event (step policy) l op :: h) (step policy l op).2 := by
  intro e he knob reverted hreverted now hlast hnow
  have hop : ∀ t, op.time = some t → t ≤ now := hlast (event (step policy) l op) List.mem_cons_self
  rcases List.mem_cons.mp he with rfl | he
  · cases op with
    | revert knob' at_ =>
      unfold event Op.revertsAt at hreverted
      dsimp only at hreverted
      split_ifs at hreverted with hknob
      cases hreverted
      rw [hknob]
      exact revert_isSuppressed knob policy hnow
    | clear at_ =>
      cases hreverted
      exact clear_isSuppressed knob policy hnow
    | observe => cases hreverted
    | tick => cases hreverted
    | eraseMember => cases hreverted
  · have hbefore : ∀ e' ∈ h, ∀ t, e'.op.time = some t → t ≤ now :=
      fun e' he' => hlast e' (List.mem_cons_of_mem _ he')
    have hold := hsuppresses e he knob reverted hreverted now hbefore hnow
    have hlater : ∀ at_, op.time = some at_ → now < saturatingAdd at_ policy.ttlSecs :=
      fun at_ hat => by
        have hle := hordered at_ hat e he reverted (time_of_revertsAt hreverted)
        unfold saturatingAdd at hnow ⊢
        omega
    cases op with
    | observe key signal at_ =>
      show (l.observe key signal at_).IsSuppressed knob now
      unfold AddendaLedger.observe
      split_ifs
      · exact hold
      · exact hold
    | tick at_ =>
      obtain ⟨applied, happlies, -⟩ := tick_applies policy at_ l
      obtain ⟨p, hp, hknob, huntil⟩ := hold
      refine ⟨p, ?_, hknob, huntil⟩
      show p ∈ (l.tick policy at_).2.suppressed
      rw [happlies.suppressed]
      have hat : at_ ≤ now := hop at_ rfl
      exact List.mem_filter.mpr ⟨hp, decide_eq_true (lt_of_le_of_lt hat huntil)⟩
    | revert knob' at_ =>
      by_cases hknob : knob' = knob
      · rw [hknob]
        exact revert_isSuppressed knob policy (hlater at_ rfl)
      · exact revert_keeps_suppressed hold hknob
    | clear at_ => exact clear_isSuppressed knob policy (hlater at_ rfl)
    | eraseMember key => exact hold

/-! ### Every run -/

/-- What holds of the ledger and its history. -/
structure Kept (policy : Policy) (h : LedgerHistory) (l : AddendaLedger) : Prop where
  bounded : Bounded l
  evident : Evident h l
  suppresses : Suppresses policy h l

theorem kept_along_run {policy : Policy} {h : LedgerHistory} {l : AddendaLedger}
    (hrun : Run (step policy) .empty h l) (hordered : Ordered h) : Kept policy h l := by
  induction hrun with
  | nil => exact ⟨bounded_empty, fun _ => List.nil_subperm, fun e he => absurd he List.not_mem_nil⟩
  | cons op hrun ih =>
    obtain ⟨hlast, hbefore⟩ := hordered
    obtain ⟨hbounded, hevident, hsuppresses⟩ := ih hbefore
    exact ⟨step_bounded hbounded op, step_evident hevident hbounded op,
      step_suppresses hsuppresses op hlast⟩

theorem ordered_of_append {h₁ h₂ : LedgerHistory} {e : LedgerEvent} (h : Ordered (h₁ ++ e :: h₂)) :
    Ordered h₂ ∧ ∀ now, e.op.time = some now → ∀ e' ∈ h₂, ∀ t, e'.op.time = some t → t ≤ now := by
  induction h₁ with
  | nil => exact ⟨h.2, h.1⟩
  | cons e' h₁ ih => exact ih h.2

/-- The observations that a tick at a time looks at. -/
def inWindow (policy : Policy) (now : ℕ) (signal : StyleSignal) (observations : List Observation) :
    List Observation :=
  observations.filter fun o => o.signal = signal ∧ o.at_ ≤ now ∧ now - o.at_ ≤ policy.windowSecs

/-- What supports a signal is in the evidence. -/
theorem supported_evidence {policy : Policy} {now : ℕ} {h : LedgerHistory} {l : AddendaLedger}
    (hevident : Evident h l) {signal : StyleSignal}
    (hsupported : (l.pruned policy now).Supported signal policy) :
    policy.signals ≤ (inWindow policy now signal (evidence signal.knob h)).length ∧
      policy.distinctUsers ≤
        ((inWindow policy now signal (evidence signal.knob h)).map Observation.member).toFinset.card := by
  have hpruned : (l.pruned policy now).observations.filter (fun o => o.signal = signal) =
      inWindow policy now signal (ofKnob signal.knob l.observations) := by
    unfold AddendaLedger.pruned inWindow ofKnob
    dsimp only
    rw [List.filter_filter, List.filter_filter]
    refine List.filter_congr fun o _ => ?_
    by_cases ho : o.signal = signal
    · simp [ho]
    · simp [ho]
  have hsubperm : (inWindow policy now signal (ofKnob signal.knob l.observations)).Subperm
      (inWindow policy now signal (evidence signal.knob h)) := (hevident signal.knob).filter _
  obtain ⟨hsignals, hmembers⟩ := hsupported
  constructor
  · have hcount : (l.pruned policy now).count signal =
        (inWindow policy now signal (ofKnob signal.knob l.observations)).length := by
      unfold AddendaLedger.count
      rw [List.countP_eq_length_filter, hpruned]
    have hle := hsubperm.length_le
    omega
  · refine hmembers.trans ?_
    unfold AddendaLedger.members
    rw [hpruned, ← List.card_toFinset]
    refine Finset.card_le_card fun m hm => ?_
    rw [List.mem_toFinset] at hm ⊢
    exact List.map_subset _ hsubperm.subset hm

/-- What a tick applied was not suppressed. -/
theorem not_suppressed_of_applied {policy : Policy} {now : ℕ} {l : AddendaLedger}
    {signal : StyleSignal} (h : signal ∈ (Out.ticked (l.tick policy now).1).applies) :
    (l.pruned policy now).Supported signal policy ∧ ¬ l.IsSuppressed signal.knob now := by
  obtain ⟨applied, happlies, hout⟩ := tick_applies policy now l
  rw [hout] at h
  obtain ⟨hsupported, hfree⟩ := happlies.supported signal h
  refine ⟨hsupported, fun ⟨p, hp, hknob, huntil⟩ => hfree ⟨p, ?_, hknob, huntil⟩⟩
  exact List.mem_filter.mpr ⟨hp, decide_eq_true huntil⟩

/-- **The style addenda**, along every run with times that do not go back: the tables keep their
bounds; a tick applies what the history has evidence for, counted since the knob was last applied or
reverted and without the members erased since; a reverted knob is not observed, applied, listed or
rendered before its time has passed (no later than the end of time); and no line of what is active is
dropped. -/
theorem addenda_along_run {policy : Policy} {h : LedgerHistory} {l : AddendaLedger}
    (hrun : Run (step policy) .empty h l) (hordered : Ordered h) :
    Bounded l ∧
    (∀ (h₁ h₂ : LedgerHistory) (e : LedgerEvent) (now : ℕ) (signal : StyleSignal),
      h = h₁ ++ e :: h₂ → e.op = .tick now → signal ∈ e.out.applies →
      policy.signals ≤ (inWindow policy now signal (evidence signal.knob h₂)).length ∧
      policy.distinctUsers ≤
        ((inWindow policy now signal (evidence signal.knob h₂)).map Observation.member).toFinset.card) ∧
    (∀ (h₁ h₂ : LedgerHistory) (e r : LedgerEvent) (knob : StyleKnob) (reverted now : ℕ),
      h = h₁ ++ e :: h₂ → r ∈ h₂ → r.op.revertsAt knob = some reverted → e.op.time = some now →
      now < saturatingAdd reverted policy.ttlSecs →
      (∀ key signal, e.op = .observe key signal now → signal.knob = knob → e.after = e.before) ∧
      ∀ signal ∈ e.out.applies, signal.knob ≠ knob) ∧
    (∀ r ∈ h, ∀ (knob : StyleKnob) (reverted now : ℕ), r.op.revertsAt knob = some reverted →
      (∀ e ∈ h, ∀ t, e.op.time = some t → t ≤ now) →
      now < saturatingAdd reverted policy.ttlSecs → ∀ a ∈ l.activeAt now, a.signal.knob ≠ knob) ∧
    ∀ now, l.render now = if l.activeAt now = [] then ""
      else fullText ((l.activeAt now).map Addendum.signal) := by
  have hkept := kept_along_run hrun hordered
  have hbefore : ∀ (h₁ h₂ : LedgerHistory) (e : LedgerEvent), h = h₁ ++ e :: h₂ →
      Kept policy h₂ e.before ∧ e = event (step policy) e.before e.op := by
    rintro h₁ h₂ e rfl
    exact ⟨kept_along_run hrun.earlier (ordered_of_append hordered).1,
      hrun.event_eq (List.mem_append_right _ List.mem_cons_self)⟩
  refine ⟨hkept.bounded, fun h₁ h₂ e now signal hh hop happlied => ?_,
    fun h₁ h₂ e r knob reverted now hh hr hreverted htime hnow => ?_,
    fun r hr knob reverted now hreverted hlast hnow a ha hknob => ?_, fun now => ?_⟩
  · obtain ⟨hkept₂, he⟩ := hbefore h₁ h₂ e hh
    rw [he, hop] at happlied
    exact supported_evidence hkept₂.evident (not_suppressed_of_applied happlied).1
  · obtain ⟨hkept₂, he⟩ := hbefore h₁ h₂ e hh
    subst hh
    have hlast := (ordered_of_append hordered).2 now htime
    have hsuppressed := hkept₂.suppresses r hr knob reverted hreverted now hlast hnow
    refine ⟨fun key signal hop hknob => ?_, fun signal happlied hknob => ?_⟩
    · have hafter : e.after = e.before.observe key signal now := by
        rw [he, hop]
        rfl
      rw [hafter]
      exact if_pos (hknob ▸ hsuppressed)
    · cases hop : e.op with
      | tick now' =>
        rw [he, hop] at happlied
        have hsame : now' = now := by
          rw [hop] at htime
          exact Option.some.inj htime
        rw [← hsame, ← hknob] at hsuppressed
        exact (not_suppressed_of_applied happlied).2 hsuppressed
      | observe => rw [he, hop] at happlied; cases happlied
      | revert => rw [he, hop] at happlied; cases happlied
      | clear => rw [he, hop] at happlied; cases happlied
      | eraseMember => rw [he, hop] at happlied; cases happlied
  · have hsuppressed := hkept.suppresses r hr knob reverted hreverted now hlast hnow
    have hfree := (of_decide_eq_true (List.mem_filter.mp ha).2).2
    exact hfree (hknob ▸ hsuppressed)
  · unfold AddendaLedger.render
    have hnodup : (((l.activeAt now).map Addendum.signal).map StyleSignal.knob).Nodup := by
      rw [List.map_map]
      exact (nodup_knobs hkept.bounded.inOrder).sublist (List.filter_sublist.map _)
    rw [renderSignals_eq hnodup]
    simp only [List.map_eq_nil_iff]

/-! ### Two runs -/

/-- A played run is ordered when the times of its operations are. -/
theorem ordered_play {policy : Policy} {ops : List Op}
    (h : (ops.filterMap Op.time).Pairwise (· ≤ ·)) : Ordered (play (step policy) .empty ops).1 := by
  induction ops using List.reverseRecOn with
  | nil => exact trivial
  | append_singleton ops op ih =>
    rw [List.filterMap_append] at h
    obtain ⟨hops, -, hlast⟩ := List.pairwise_append.mp h
    rw [play_concat]
    refine ⟨fun now hnow e' he' t ht => ?_, ih hops⟩
    refine hlast t (List.mem_filterMap.mpr ⟨e'.op, op_mem_of_mem_play he', ht⟩) now ?_
    exact List.mem_filterMap.mpr ⟨op, List.mem_singleton_self op, hnow⟩

def samplePolicy : Policy where
  signals := 1
  distinctUsers := 1
  windowSecs := 10
  ttlSecs := 2
  maxAddenda := 4
  maxBytes := 400

/-- Two members agree, one of them is erased, and the signal is applied. -/
def erasedOps : List Op := [.observe "a" .tooLong 1, .observe "b" .tooLong 1, .eraseMember "a", .tick 1]

/-- A knob is reverted at the end of time, and observed before two seconds have passed. -/
def lateOps : List Op := [.revert .length (u64Max - 1), .observe "a" .tooLong u64Max]

/-- What was observed of a knob since the last tick or revert of it, or the last erasure that took an
observation of it away. -/
def evidenceSince (knob : StyleKnob) : LedgerHistory → List Observation
  | [] => []
  | e :: h =>
    match e.op with
    | .observe key signal now =>
      if signal.knob = knob then ⟨memberHash key, signal, now⟩ :: evidenceSince knob h
      else evidenceSince knob h
    | .tick _ => if ∃ s ∈ e.out.applies, s.knob = knob then [] else evidenceSince knob h
    | .revert knob' _ => if knob' = knob then [] else evidenceSince knob h
    | .clear _ => []
    | .eraseMember _ =>
      if ofKnob knob e.after.observations = ofKnob knob e.before.observations then evidenceSince knob h
      else []

/-- An erasure takes the evidence of the member away, not that of the others; and a suppression ends
with the last second there is. -/
theorem not_since_erasure :
    ¬ (∀ (policy : Policy) (h : LedgerHistory) (l : AddendaLedger), Run (step policy) .empty h l →
      Ordered h → ∀ (h₁ h₂ : LedgerHistory) (e : LedgerEvent) (now : ℕ) (signal : StyleSignal),
      h = h₁ ++ e :: h₂ → e.op = .tick now → signal ∈ e.out.applies →
      policy.signals ≤ (inWindow policy now signal (evidenceSince signal.knob h₂)).length) ∧
    ¬ (∀ (policy : Policy) (h : LedgerHistory) (l : AddendaLedger), Run (step policy) .empty h l →
      Ordered h → ∀ (h₁ h₂ : LedgerHistory) (e r : LedgerEvent) (knob : StyleKnob)
      (reverted now : ℕ) (key : String) (signal : StyleSignal), h = h₁ ++ e :: h₂ → r ∈ h₂ →
      r.op.revertsAt knob = some reverted → e.op = .observe key signal now → signal.knob = knob →
      now < reverted + policy.ttlSecs → e.after = e.before) := by
  constructor
  · intro hclaim
    have h := hclaim samplePolicy _ _ (run_play AddendaLedger.empty erasedOps)
      (ordered_play (by decide)) [] (play (step samplePolicy) AddendaLedger.empty erasedOps).1.tail
      ((play (step samplePolicy) AddendaLedger.empty erasedOps).1.get ⟨0, by decide⟩) 1 .tooLong rfl rfl
      (by decide +kernel)
    revert h
    decide
  · intro hclaim
    have h := hclaim samplePolicy _ _ (run_play AddendaLedger.empty lateOps)
      (ordered_play (by decide)) [] (play (step samplePolicy) AddendaLedger.empty lateOps).1.tail
      ((play (step samplePolicy) AddendaLedger.empty lateOps).1.get ⟨0, by decide⟩)
      ((play (step samplePolicy) AddendaLedger.empty lateOps).1.get ⟨1, by decide⟩) .length
      (u64Max - 1) u64Max "a" .tooLong rfl (List.mem_singleton_self _) rfl rfl rfl (by decide)
    revert h
    decide

/-- The style addenda of a run. -/
theorem sample_bounded : Bounded (play (step samplePolicy) .empty erasedOps).2 :=
  (addenda_along_run (run_play _ _) (ordered_play (by decide))).1

end AbbeyBot.Brain.Addenda
