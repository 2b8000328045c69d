import Mathlib
import AbbeyBot.Moderation.Shadow

/-! # Cases along a run

What one call does to a store: it observes what is there, or it writes one event and counts it
(`applyInner_cases`). From that, along every run, the revision counts the events, no event is
altered, whoever decides is independent of those who decided before, and a call that was accepted
once never writes again. None of this needs the digests of two sources to differ. -/

namespace AbbeyBot.Moderation

open AbbeyBot.Library.History AbbeyBot.Library.OrderedMap AbbeyBot.Library.Result
open AbbeyBot.Library.Text AbbeyBot.Library.Word

variable {D : Digests} {s s' : CaseStore}

/-! ### A valid store -/

/-- The revisions of all cases together. -/
def CaseStore.events (s : CaseStore) : ℕ := ((values s.cases).map Case.revision).sum

theorem foldlM_validateCase {rows : List (String × Case)} {a n : ℕ}
    (h : rows.foldlM (validateCase D) a = .ok n) :
    n = a + (rows.map fun row => row.2.revision).sum ∧ ∀ row ∈ rows, row.2.validate D = .ok () := by
  induction rows generalizing a with
  | nil =>
    simp only [List.foldlM_nil, pure_eq_ok] at h
    exact ⟨by simp [h], fun row hrow => (List.not_mem_nil hrow).elim⟩
  | cons row rows ih =>
    simp only [List.foldlM_cons, bind_eq_ok, validateCase, exists_unit, ensure_eq_ok, orErr_eq_ok,
      checkedAdd, Option.ite_none_right_eq_some, Option.some.injEq] at h
    obtain ⟨b, ⟨hrow, -, -, rfl⟩, hrows⟩ := h
    obtain ⟨hn, hall⟩ := ih hrows
    refine ⟨?_, fun row' hrow' => ?_⟩
    · rw [hn, List.map_cons, List.sum_cons, Nat.add_assoc]
    · rcases List.mem_cons.mp hrow' with rfl | hrow'
      · exact hrow
      · exact hall row' hrow'

theorem revision_of_validate (h : s.validate D = .ok ()) : s.revision = s.events := by
  simp only [CaseStore.validate, bind_eq_ok, exists_unit, ensure_eq_ok] at h
  obtain ⟨-, n, hn, rfl⟩ := h
  rw [(foldlM_validateCase hn).1, CaseStore.events, values, List.map_map, Nat.zero_add]
  rfl

theorem case_of_validate (h : s.validate D = .ok ()) {id : String} {case : Case}
    (hcase : s.cases[id]? = some case) : case.validate D = .ok () := by
  simp only [CaseStore.validate, bind_eq_ok, exists_unit, ensure_eq_ok] at h
  obtain ⟨-, n, hn, -⟩ := h
  exact (foldlM_validateCase hn).2 (id, case) (Std.ExtTreeMap.mem_toList_iff_getElem?_eq_some.mpr hcase)

/-! ### What a call keeps -/

/-- Everything decided about `c` stands in `c'`. -/
structure Case.Keeps (c c' : Case) : Prop where
  source : c'.source = c.source
  captured : c'.captured = c.captured
  assessment : c'.assessment = c.assessment
  severity : c'.severity = c.severity
  review : ∀ r ∈ c.review, r ∈ c'.review
  appeal : ∀ a ∈ c.appeal, ∃ a' ∈ c'.appeal, a'.expectedRevision = a.expectedRevision ∧
    a'.reason = a.reason ∧ a'.provenance = a.provenance
  resolution : ∀ r ∈ c.resolution, r ∈ c'.resolution

theorem Case.Keeps.refl (c : Case) : c.Keeps c :=
  ⟨rfl, rfl, rfl, rfl, fun _ h => h, fun a h => ⟨a, h, rfl, rfl, rfl⟩, fun _ h => h⟩

theorem Case.Keeps.trans {c c' c'' : Case} (h : c.Keeps c') (h' : c'.Keeps c'') : c.Keeps c'' := by
  refine ⟨h'.source.trans h.source, h'.captured.trans h.captured,
    h'.assessment.trans h.assessment, h'.severity.trans h.severity,
    fun r hr => h'.review r (h.review r hr), fun a ha => ?_,
    fun r hr => h'.resolution r (h.resolution r hr)⟩
  obtain ⟨a', ha', hexpected, hreason, hprovenance⟩ := h.appeal a ha
  obtain ⟨a'', ha'', hexpected', hreason', hprovenance'⟩ := h'.appeal a' ha'
  exact ⟨a'', ha'', hexpected'.trans hexpected, hreason'.trans hreason,
    hprovenance'.trans hprovenance⟩

/-- Every case of `s` is still in `s'`, with everything decided about it. -/
def CaseStore.Keeps (s s' : CaseStore) : Prop :=
  ∀ (id : String) (c : Case), s.cases[id]? = some c → ∃ c', s'.cases[id]? = some c' ∧ c.Keeps c'

theorem CaseStore.Keeps.refl (s : CaseStore) : s.Keeps s := fun _ c hc => ⟨c, hc, .refl c⟩

theorem CaseStore.Keeps.trans {s'' : CaseStore} (h : s.Keeps s') (h' : s'.Keeps s'') :
    s.Keeps s'' := by
  intro id c hc
  obtain ⟨c', hc', hk⟩ := h id c hc
  obtain ⟨c'', hc'', hk'⟩ := h' id c' hc'
  exact ⟨c'', hc'', hk.trans hk'⟩

/-- Writing one case keeps the others; the one that is written has to be kept itself. -/
theorem keeps_insert {id : String} {c : Case} {revision : ℕ}
    (h : ∀ c₀, s.cases[id]? = some c₀ → c₀.Keeps c) :
    s.Keeps { s with revision := revision, cases := s.cases.insert id c } := by
  intro id' c' hc'
  by_cases hid : id = id'
  · subst hid
    exact ⟨c, by simp, h c' hc'⟩
  · exact ⟨c', by simpa [getElem?_insert, hid] using hc', .refl c'⟩

/-! ### The event of a mutation -/

/-- The case has the event that such a decision makes. -/
def Case.has (case : Case) : Decision → Bool
  | .review _ => case.review.isSome
  | .appeal _ => case.appeal.isSome
  | .resolveAppeal _ => case.resolution.isSome

theorem Case.Keeps.has {c c' : Case} (h : c.Keeps c') {decision : Decision}
    (hc : c.has decision = true) : c'.has decision = true := by
  cases decision with
  | review d =>
    obtain ⟨r, hr⟩ := Option.isSome_iff_exists.mp hc
    exact Option.isSome_iff_exists.mpr ⟨r, h.review r hr⟩
  | appeal d =>
    obtain ⟨a, ha⟩ := Option.isSome_iff_exists.mp hc
    obtain ⟨a', ha', -⟩ := h.appeal a ha
    exact Option.isSome_iff_exists.mpr ⟨a', ha'⟩
  | resolveAppeal d =>
    obtain ⟨r, hr⟩ := Option.isSome_iff_exists.mp hc
    exact Option.isSome_iff_exists.mpr ⟨r, h.resolution r hr⟩

/-- A decision is observed exactly when its event is there, and otherwise it adds it. -/
theorem record_cases {case : Case} {expected : ExpectedCase} {authority : FreshAuthority}
    {provenance : Provenance} {origin : ℕ} {decision : Decision} {r : Option Case}
    (h : case.record expected authority provenance origin decision = .ok r) :
    (r = none ∧ case.has decision = true) ∨
      ∃ case', r = some case' ∧ case.has decision = false ∧ case'.has decision = true ∧
        case.Keeps case' := by
  cases decision with
  | review decision =>
    simp only [Case.record, Case.recordReview, bind_eq_ok, exists_unit, ensure_eq_ok] at h
    obtain ⟨-, -, -, h⟩ := h
    cases hr : case.review with
    | some old =>
      simp only [hr, sameReceipt, bind_eq_ok, exists_unit, ensure_eq_ok, pure_eq_ok] at h
      exact .inl ⟨h.2.symm, by simp [Case.has, hr]⟩
    | none =>
      simp only [hr, bind_eq_ok, exists_unit, ensure_eq_ok, pure_eq_ok] at h
      obtain ⟨-, -, rfl⟩ := h
      refine .inr ⟨_, rfl, by simp [Case.has, hr], by simp [Case.has], ?_⟩
      exact ⟨rfl, rfl, rfl, rfl, by simp [hr],
        fun a ha => ⟨a, ha, rfl, rfl, rfl⟩, fun _ h => h⟩
  | appeal reason =>
    simp only [Case.record, Case.recordAppeal, bind_eq_ok, exists_unit, ensure_eq_ok] at h
    obtain ⟨-, h⟩ := h
    cases ha : case.appeal with
    | some old =>
      simp only [ha, sameReceipt, bind_eq_ok, exists_unit, ensure_eq_ok, pure_eq_ok] at h
      exact .inl ⟨h.2.symm, by simp [Case.has, ha]⟩
    | none =>
      simp only [ha, bind_eq_ok, exists_unit, pure_eq_ok] at h
      obtain ⟨-, rfl⟩ := h
      refine .inr ⟨_, rfl, by simp [Case.has, ha], by simp [Case.has], ?_⟩
      exact ⟨rfl, rfl, rfl, rfl, fun _ h => h, by simp [ha], by simp [Case.resolution, ha]⟩
  | resolveAppeal decision =>
    simp only [Case.record, Case.recordResolution, bind_eq_ok, exists_unit, ensure_eq_ok,
      orErr_eq_ok] at h
    obtain ⟨-, -, -, -, appeal, ha, h⟩ := h
    cases hr : appeal.resolution with
    | some old =>
      simp only [hr, sameReceipt, bind_eq_ok, exists_unit, ensure_eq_ok, pure_eq_ok] at h
      exact .inl ⟨h.2.symm, by simp [Case.has, Case.resolution, ha, hr]⟩
    | none =>
      simp only [hr, pure_eq_ok] at h
      obtain rfl := h
      refine .inr ⟨_, rfl, by simp [Case.has, Case.resolution, ha, hr],
        by simp [Case.has, Case.resolution], ?_⟩
      exact ⟨rfl, rfl, rfl, rfl, fun _ h => h, by simp [ha],
        by simp [Case.resolution, ha, hr]⟩

/-- The store holds what an accepted mutation leaves. -/
def CaseStore.Holds (D : Digests) (s : CaseStore) : Mutation → Prop
  | .capture new => ∃ c, s.cases[D.source new.source]? = some c
  | .decide expected _ decision => ∃ c, s.cases[expected.id]? = some c ∧ c.has decision = true

theorem CaseStore.Keeps.holds (h : s.Keeps s') {m : Mutation} (hm : s.Holds D m) :
    s'.Holds D m := by
  cases m with
  | capture new =>
    obtain ⟨c, hc⟩ := hm
    obtain ⟨c', hc', -⟩ := h _ c hc
    exact ⟨c', hc'⟩
  | decide expected authority decision =>
    obtain ⟨c, hc, hhas⟩ := hm
    obtain ⟨c', hc', hk⟩ := h _ c hc
    exact ⟨c', hc', hk.has hhas⟩

/-! ### One call -/

theorem finish_eq_ok {id : String} {cases : BTreeMap String Case} {r : (String × Change) × CaseStore}
    (h : s.finish D id cases = .ok r) :
    r = ((id, .changed), { s with revision := s.revision + 1, cases := cases }) ∧
      r.2.validate D = .ok () := by
  simp only [CaseStore.finish, bind_eq_ok, exists_unit, orErr_eq_ok, checkedAdd, pure_eq_ok,
    Option.ite_none_right_eq_some, Option.some.injEq] at h
  obtain ⟨n, ⟨-, rfl⟩, hvalid, rfl⟩ := h
  exact ⟨rfl, hvalid⟩

/-- What one accepted call does: it observes what the store holds, or it writes one more event, which
the store did not hold. -/
theorem applyInner_cases {m : Mutation} {policy : ShadowPolicy} {policyDigest : String} {now : ℕ}
    {id : String} {change : Change}
    (h : s.applyInner D m policy policyDigest now = .ok ((id, change), s')) :
    (change = .alreadyObserved ∧ s' = s ∧ s.Holds D m) ∨
      (change = .changed ∧ ¬ s.Holds D m ∧ s'.Holds D m ∧ s'.revision = s.revision + 1 ∧
        s'.validate D = .ok () ∧ s.Keeps s') := by
  simp only [CaseStore.applyInner, bind_eq_ok, exists_unit, ensure_eq_ok] at h
  obtain ⟨-, -, -, h⟩ := h
  cases m with
  | capture new =>
    simp only [CaseStore.capture, SourceVersion.caseId, bind_eq_ok, exists_unit, pure_eq_ok] at h
    obtain ⟨-, _, ⟨-, rfl⟩, h⟩ := h
    cases hold : s.cases[D.source new.source]? with
    | some old =>
      simp only [hold, bind_eq_ok, exists_unit, ensure_eq_ok, pure_eq_ok, Prod.mk.injEq] at h
      obtain ⟨-, ⟨-, rfl⟩, rfl⟩ := h
      exact .inl ⟨rfl, rfl, old, hold⟩
    | none =>
      simp only [hold, bind_eq_ok, exists_unit, ensure_eq_ok] at h
      obtain ⟨-, -, disposition, -, captured, -, h⟩ := h
      obtain ⟨heq, hvalid⟩ := finish_eq_ok h
      simp only [Prod.mk.injEq] at heq
      obtain ⟨⟨-, rfl⟩, rfl⟩ := heq
      refine .inr ⟨rfl, ?_, ⟨_, Std.ExtTreeMap.getElem?_insert_self⟩, rfl, hvalid, keeps_insert ?_⟩
      · rintro ⟨c, hc⟩
        rw [hold] at hc
        cases hc
      · intro c₀ hc₀
        rw [hold] at hc₀
        cases hc₀
  | decide expected authority decision =>
    simp only [CaseStore.decide, bind_eq_ok, exists_unit, orErr_eq_ok, ensure_eq_ok] at h
    obtain ⟨-, case, hcase, -, provenance, -, r, hr, h⟩ := h
    rcases record_cases hr with ⟨rfl, hhas⟩ | ⟨case', rfl, hnot, hhas, hkeeps⟩
    · simp only [pure_eq_ok, Prod.mk.injEq] at h
      obtain ⟨⟨-, rfl⟩, rfl⟩ := h
      exact .inl ⟨rfl, rfl, case, hcase, hhas⟩
    · simp only [bind_eq_ok, orErr_eq_ok, checkedAdd, Option.ite_none_right_eq_some,
        Option.some.injEq] at h
      obtain ⟨_, ⟨-, rfl⟩, h⟩ := h
      obtain ⟨heq, hvalid⟩ := finish_eq_ok h
      simp only [Prod.mk.injEq] at heq
      obtain ⟨⟨-, rfl⟩, rfl⟩ := heq
      refine .inr ⟨rfl, ?_, ⟨{ case' with revision := case'.revision + 1 }, by simp, ?_⟩, rfl,
        hvalid, keeps_insert ?_⟩
      · rintro ⟨c, hc, hchas⟩
        rw [hcase, Option.some.injEq] at hc
        rw [← hc, hnot] at hchas
        cases hchas
      · cases decision <;> exact hhas
      · intro c₀ hc₀
        rw [hcase, Option.some.injEq] at hc₀
        subst hc₀
        exact ⟨hkeeps.source, hkeeps.captured, hkeeps.assessment, hkeeps.severity, hkeeps.review,
          hkeeps.appeal, hkeeps.resolution⟩

/-- What one call does, whether it is accepted or not. -/
theorem step_cases (s : CaseStore) (call : Call) :
    (∃ e, step D s call = (.error e, s)) ∨
      (∃ id, step D s call = (.ok (id, .alreadyObserved), s) ∧ s.Holds D call.mutation) ∨
      ∃ (id : String) (s' : CaseStore), step D s call = (.ok (id, .changed), s') ∧
        ¬ s.Holds D call.mutation ∧ s'.Holds D call.mutation ∧ s'.revision = s.revision + 1 ∧
        s'.validate D = .ok () ∧ s.Keeps s' := by
  have hcommit := commit_cases s (s.applyInner D call.mutation call.policy call.policyDigest call.now)
  rcases hcommit with ⟨⟨id, change⟩, s', hok, heq⟩ | herr
  · rcases applyInner_cases hok with ⟨rfl, rfl, hholds⟩ | ⟨rfl, hnot, hholds, hrest⟩
    · exact .inr (.inl ⟨id, heq, hholds⟩)
    · exact .inr (.inr ⟨id, s', heq, hnot, hholds, hrest⟩)
  · exact .inl herr

theorem step_keeps (s : CaseStore) (call : Call) : s.Keeps (step D s call).2 := by
  rcases step_cases (D := D) s call with ⟨e, h⟩ | ⟨id, h, -⟩ | ⟨id, s', h, -, -, -, -, hkeeps⟩
  · rw [h]; exact .refl s
  · rw [h]; exact .refl s
  · rw [h]; exact hkeeps

/-- A call whose event the store holds is observed or refused, and writes nothing. -/
theorem step_of_holds (call : Call) (h : s.Holds D call.mutation) :
    (step D s call).2 = s ∧ ((∃ id, (step D s call).1 = .ok (id, .alreadyObserved)) ∨
      ∃ e, (step D s call).1 = .error e) := by
  rcases step_cases (D := D) s call with ⟨e, heq⟩ | ⟨id, heq, -⟩ | ⟨id, s', -, hnot, -⟩
  · rw [heq]; exact ⟨rfl, .inr ⟨e, rfl⟩⟩
  · rw [heq]; exact ⟨rfl, .inl ⟨id, rfl⟩⟩
  · exact absurd h hnot

/-! ### Runs -/

theorem validate_default : CaseStore.default.validate D = .ok () := rfl

theorem run_validate {h : History} (hrun : Reaches D h s) : s.validate D = .ok () := by
  refine hrun.invariant (I := fun s => s.validate D = .ok ()) validate_default fun s call hs => ?_
  rcases step_cases (D := D) s call with ⟨e, h⟩ | ⟨id, h, -⟩ | ⟨id, s', h, -, -, -, hvalid, -⟩
  · rw [h]; exact hs
  · rw [h]; exact hs
  · rw [h]; exact hvalid

/-- The revision counts the calls that changed the store. -/
theorem run_revision {h : History} (hrun : Reaches D h s) :
    s.revision = h.countP fun e => wasChanged e.out := by
  induction hrun with
  | nil => rfl
  | @cons h s call _ ih =>
    rw [List.countP_cons, event]
    rcases step_cases (D := D) s call with ⟨e, heq⟩ | ⟨id, heq, -⟩ | ⟨id, s', heq, -, -, hrev, -⟩
    · simpa [heq, wasChanged] using ih
    · simpa [heq, wasChanged] using ih
    · simpa [heq, wasChanged, hrev] using ih

/-- Whatever stood after an event of the run stands at its end. -/
theorem run_keeps {h : History} (hrun : Reaches D h s) : ∀ e ∈ h, e.after.Keeps s := by
  induction hrun with
  | nil => exact fun e he => (List.not_mem_nil he).elim
  | @cons h s call _ ih =>
    intro e he
    rcases List.mem_cons.mp he with rfl | he
    · exact .refl _
    · exact (ih e he).trans (step_keeps s call)

/-- An accepted call left the event of its mutation. -/
theorem holds_of_accepted {call : Call} {r : String × Change} (h : (step D s call).1 = .ok r) :
    (step D s call).2.Holds D call.mutation := by
  rcases step_cases (D := D) s call with ⟨e, heq⟩ | ⟨id, heq, hholds⟩ | ⟨id, s', heq, -, hholds, -⟩
  · rw [heq] at h; cases h
  · rw [heq]; exact hholds
  · rw [heq]; exact hholds

/-- **Along every run of the case store, whatever the policies, digests and clocks of the calls:** the
store is valid; its revision counts the calls that changed it and is the sum of the revisions of the
cases; no review, appeal or resolution is altered once it is there; whoever captured, reviewed or
resolved is a different person each time and not the author, who alone appeals; a mutation that was
accepted is observed or refused ever after, under any policy and at any time; an error writes
nothing. -/
theorem cases_along_run {h : History} (hrun : Reaches D h s) :
    s.validate D = .ok () ∧
    s.revision = (h.countP fun e => wasChanged e.out) ∧
    s.revision = ((values s.cases).map Case.revision).sum ∧
    (∀ e ∈ h, e.after.Keeps s) ∧
    (∀ (id : String) (c : Case), s.cases[id]? = some c → c.Independent) ∧
    (∀ e ∈ h, ∀ r, e.out = .ok r → ∀ (policy : ShadowPolicy) (policyDigest : String) (now : ℕ),
      (s.apply D e.op.mutation policy policyDigest now).2 = s ∧
      ((∃ id, (s.apply D e.op.mutation policy policyDigest now).1 = .ok (id, .alreadyObserved)) ∨
        ∃ err, (s.apply D e.op.mutation policy policyDigest now).1 = .error err)) ∧
    ∀ e ∈ h, ∀ err, e.out = .error err → e.after = e.before := by
  have hvalid := run_validate hrun
  refine ⟨hvalid, run_revision hrun, revision_of_validate hvalid, run_keeps hrun,
    fun id c hc => Case.independent_of_validate (case_of_validate hvalid hc), ?_, ?_⟩
  · intro e he r hr policy policyDigest now
    have heq := hrun.event_eq he
    have hafter : e.after.Holds D e.op.mutation := by
      rw [heq] at hr ⊢
      exact holds_of_accepted hr
    exact step_of_holds ⟨e.op.mutation, policy, policyDigest, now⟩
      ((run_keeps hrun e he).holds hafter)
  · intro e he err herr
    rw [hrun.event_eq he] at herr ⊢
    rcases step_cases (D := D) e.before e.op with ⟨_, h⟩ | ⟨id, h, -⟩ | ⟨id, s', h, -⟩
    · exact congrArg Prod.snd h
    · exact congrArg Prod.snd h
    · rw [event, h] at herr
      cases herr

/-! ### A case that was reviewed late -/

def sampleSource : SourceVersion :=
  ⟨1, 2, 3, 4, 10, none, "0c3396744adf86a69aa2261fb17151d0095b4a70089f013a1839f23ed32c5027"⟩

def sampleScope : ShadowScope := ⟨true, {2}, none⟩

def samplePolicy : ShadowPolicy := ⟨1, 9, false, sampleScope⟩

def samplePolicyDigest : String := "823412d1eacb67956220e532959f0104603057c88704863ca38e7cd188fda812"

/-- The digests of the sample source and scope. -/
def sampleDigests : Digests where
  source source :=
    if source = sampleSource then "9446635456d7b6f257b2c5f305350936602452cbecb2fea3e802878b81bab6aa"
    else source.evidenceDigest
  scope _ _ _ := "35131fae1a01cb10f29ef55147ce01aadf9938fb407c5103ba2db66bd72e3c21"

/-- Somebody in the source channel who sees the message. -/
def sampleFacts (actor at_ : ℕ) (staff : Bool) : NativeAuthorityFacts :=
  ⟨1, 9, actor, 2, at_, true, true, true, true, staff, staff, some sampleSource⟩

def moderator (actor at_ : ℕ) (h : (sampleFacts actor at_ true).verify = .ok ()) : FreshAuthority :=
  ⟨sampleFacts actor at_ true, h⟩

def sampleInput : Input :=
  ⟨1, 2, 3, 4, 4, true, true, false, false, true, true, true, .confirmedOffending, .serious⟩

def sampleCapture : Mutation :=
  .capture ⟨sampleSource, sampleInput, moderator 5 20 (by decide), by decide⟩

def sampleExpected (revision : ℕ) : ExpectedCase :=
  ⟨"9446635456d7b6f257b2c5f305350936602452cbecb2fea3e802878b81bab6aa", revision⟩

/-- Captured by 5, appealed by the author, resolved by 6, reviewed by 7; the resolver may not review,
and the capture is repeated at the end. -/
def sampleCalls : List Call :=
  [⟨sampleCapture, samplePolicy, samplePolicyDigest, 21⟩,
    ⟨.decide (sampleExpected 1) ⟨sampleFacts 4 30 false, by decide⟩ (.appeal .assessmentDisputed),
      samplePolicy, samplePolicyDigest, 31⟩,
    ⟨.decide (sampleExpected 2) (moderator 6 40 (by decide)) (.resolveAppeal .rejected),
      samplePolicy, samplePolicyDigest, 41⟩,
    ⟨.decide (sampleExpected 3) (moderator 6 42 (by decide)) (.review .agree),
      samplePolicy, samplePolicyDigest, 43⟩,
    ⟨.decide (sampleExpected 3) (moderator 7 44 (by decide)) (.review .agree),
      samplePolicy, samplePolicyDigest, 45⟩,
    ⟨sampleCapture, samplePolicy, samplePolicyDigest, 46⟩]

/-- The run of the sample: four events, one refusal, one observation. -/
theorem sample_reviewed :
    let run := play (step sampleDigests) CaseStore.default sampleCalls
    (run.2.revision = 4 ∧ run.1.length = 6) ∧
    (run.2.validate sampleDigests = .ok () ∧
      run.2.revision = (run.1.countP fun e => wasChanged e.out)) :=
  ⟨by decide +kernel,
    (cases_along_run (run_play CaseStore.default sampleCalls)).1,
    (cases_along_run (run_play CaseStore.default sampleCalls)).2.1⟩

end AbbeyBot.Moderation
