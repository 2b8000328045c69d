import Mathlib
import AbbeyBot.Engagement.Effects

/-! # Consent

What is public of an introduction is what its two members said. The history of a store is reduced to
the deeds that concern introductions; what a stored introduction says of its members' texts and
approvals is read off the deeds, and an introduction that can be published has the consent of both. -/

namespace AbbeyBot.Engagement

open AbbeyBot.Library.History AbbeyBot.Library.OrderedMap AbbeyBot.Library.Result
open AbbeyBot.Work.Types

/-! ### Deeds -/

/-- What an operation did to an introduction. -/
inductive Deed where
  | created (id : ℕ) (members : Fin 2 → ℕ) (text : String)
  | edited (id member : ℕ) (text : String)
  | approved (id member revision : ℕ)
  | withdrawn (id : ℕ)
  | erased (scope : String) (member : Option ℕ)

/-- The deed of an operation that succeeded, as its output says. -/
def deed (op : Op) (out : Out) : Option Deed :=
  match op, out with
  | .createIntroduction members _ text _, .number (.ok id) => some (.created id members text)
  | .editIntroduction id member _ text _, .number (.ok _) => some (.edited id member text)
  | .approveIntroduction id member revision, .flag (.ok _) => some (.approved id member revision)
  | .withdrawIntroduction id _ _, .unit (.ok _) => some (.withdrawn id)
  | .eraseLearning scope member, .number (.ok _) => some (.erased scope member)
  | _, _ => none

/-- The deeds of a history, latest first. -/
def deeds (h : History) : List Deed := h.filterMap fun e => deed e.op e.out

/-- The introduction a deed is about. -/
def Deed.about : Deed → Option ℕ
  | .created id _ _ => some id
  | .edited id _ _ => some id
  | .approved id _ _ => some id
  | .withdrawn id => some id
  | .erased _ _ => none

/-- The text the deed supplied for the introduction, with the member who supplied it: the one who
starts an introduction is the first of its members. -/
def Deed.text? (id : ℕ) : Deed → Option (ℕ × String)
  | .created i members text => if i = id then some (members 0, text) else none
  | .edited i member text => if i = id then some (member, text) else none
  | _ => none

/-- The last text the member supplied for the introduction. -/
def lastText (id member : ℕ) (ds : List Deed) : Option String :=
  ds.findSome? fun d => ((d.text? id).filter fun mt => mt.1 = member).map Prod.snd

/-- The deed `d` was done, and since then only deeds that satisfy `Q`. -/
def Since (d : Deed) (Q : Deed → Prop) (ds : List Deed) : Prop :=
  ∃ later earlier, ds = later ++ d :: earlier ∧ ∀ d' ∈ later, Q d'

/-- The deed erased the member in the scope. -/
def Deed.Erases (d : Deed) (scope : String) (member : ℕ) : Prop :=
  ∃ who, d = .erased scope who ∧ Own who member

/-- **Consent** to an introduction: both members approved the revision it has after the last text
that either supplied, it has the last text of each, and neither withdrew it or was erased since it was
created. -/
structure Introduction.Consented (i : Introduction) (ds : List Deed) : Prop where
  members : i.members 0 ≠ i.members 1
  approved : i.Approved ∧ ∀ k, Since (.approved i.id (i.members k) i.revision)
    (fun d => d.text? i.id = none) ds
  texts : ∀ k, ∃ text, i.approvedSelfDescriptions k = some text ∧
    lastText i.id (i.members k) ds = some text
  standing : Deed.withdrawn i.id ∉ ds
  kept : ∃ text, Since (.created i.id i.members text)
    (fun d => ∀ k, ¬ d.Erases i.scope.learningScope (i.members k)) ds

variable {K : Crates} {s s' : EngagementStore} {ds : List Deed}

/-! ### What is read off the deeds -/

theorem since_self (d : Deed) (Q : Deed → Prop) (ds : List Deed) : Since d Q (d :: ds) :=
  ⟨[], ds, rfl, fun _ h => absurd h List.not_mem_nil⟩

theorem Since.cons {d d' : Deed} {Q : Deed → Prop} (h : Since d Q ds) (hd : Q d') :
    Since d Q (d' :: ds) := by
  obtain ⟨later, earlier, rfl, hlater⟩ := h
  exact ⟨d' :: later, earlier, rfl, List.forall_mem_cons.mpr ⟨hd, hlater⟩⟩

theorem text?_of_about {d : Deed} {id : ℕ} (h : d.about ≠ some id) : d.text? id = none := by
  cases d <;> simp_all [Deed.about, Deed.text?]

theorem lastText_cons_none {d : Deed} {id member : ℕ} (h : d.text? id = none) :
    lastText id member (d :: ds) = lastText id member ds := by
  simp [lastText, h]

theorem lastText_cons_some {d : Deed} {id member who : ℕ} {text : String}
    (h : d.text? id = some (who, text)) :
    lastText id member (d :: ds) = if who = member then some text else lastText id member ds := by
  unfold lastText
  rw [List.findSome?_cons, h]
  by_cases hwho : who = member
  · simp [Option.filter, hwho]
  · simp [Option.filter, hwho]

/-- Nobody supplied a text for an introduction that no deed is about. -/
theorem lastText_fresh {id member : ℕ} (h : ∀ d ∈ ds, d.about ≠ some id) :
    lastText id member ds = none := by
  unfold lastText
  rw [List.findSome?_eq_none_iff]
  intro d hd
  rw [text?_of_about (h d hd)]
  rfl

/-! ### Stored introductions -/

/-- What a stored introduction says is what was told of it. -/
structure Introduction.Told (i : Introduction) (ds : List Deed) : Prop where
  members : i.members 0 ≠ i.members 1
  approvals : ∀ k r, i.approvals k = some r →
    Since (.approved i.id (i.members k) r) (fun d => d.text? i.id = none) ds
  texts : ∀ k, i.approvedSelfDescriptions k = lastText i.id (i.members k) ds
  standing : i.state ≠ .cancelled → Deed.withdrawn i.id ∉ ds
  kept : ∃ text, Since (.created i.id i.members text)
    (fun d => ∀ k, ¬ d.Erases i.scope.learningScope (i.members k)) ds

theorem Introduction.Told.consented {i : Introduction} (h : i.Told ds) (hstate : i.state ≠ .cancelled)
    (happroved : i.Approved) (htexts : ∀ k, (i.approvedSelfDescriptions k).isSome = true) :
    i.Consented ds where
  members := h.members
  approved := ⟨happroved, fun k => h.approvals k i.revision (happroved k)⟩
  texts k := by
    obtain ⟨text, htext⟩ := Option.isSome_iff_exists.mp (htexts k)
    exact ⟨text, htext, (h.texts k).symm.trans htext⟩
  standing := h.standing hstate
  kept := h.kept

/-- A deed about something else leaves what was told. -/
theorem Introduction.Told.cons {i : Introduction} {d : Deed} (h : i.Told ds)
    (habout : d.about ≠ some i.id)
    (herases : ∀ k, ¬ d.Erases i.scope.learningScope (i.members k)) : i.Told (d :: ds) where
  members := h.members
  approvals k r hr := (h.approvals k r hr).cons (text?_of_about habout)
  texts k := by rw [lastText_cons_none (text?_of_about habout), h.texts k]
  standing hstate := by
    rw [List.mem_cons, not_or]
    refine ⟨?_, h.standing hstate⟩
    rintro rfl
    exact habout rfl
  kept := h.kept.imp fun _ hkept => hkept.cons herases

/-- An introduction goes on without a deed: approvals may go, and it may be cancelled. -/
structure Introduction.Follows (i i' : Introduction) : Prop where
  id : i'.id = i.id
  members : i'.members = i.members
  texts : i'.approvedSelfDescriptions = i.approvedSelfDescriptions
  scope : i'.scope = i.scope
  approvals : ∀ k r, i'.approvals k = some r → i.approvals k = some r
  standing : i'.state ≠ .cancelled → i.state ≠ .cancelled

theorem Introduction.Told.follows {i i' : Introduction} (h : i.Told ds) (hi : i.Follows i') :
    i'.Told ds where
  members := by rw [hi.members]; exact h.members
  approvals k r hr := by rw [hi.id, hi.members]; exact h.approvals k r (hi.approvals k r hr)
  texts k := by rw [hi.id, hi.members, hi.texts]; exact h.texts k
  standing hstate := by rw [hi.id]; exact h.standing (hi.standing hstate)
  kept := by rw [hi.id, hi.members, hi.scope]; exact h.kept

theorem index_some {i : Introduction} {member : ℕ} {k : Fin 2} (h : i.index member = some k) :
    i.members k = member := by
  unfold Introduction.index at h
  split_ifs at h with h₀ h₁
  · cases h
    exact h₀
  · cases h
    exact h₁

/-- The other member is somebody else. -/
theorem members_ne {i : Introduction} (h : i.members 0 ≠ i.members 1) {k k' : Fin 2} (hk : k ≠ k') :
    i.members k ≠ i.members k' := by
  fin_cases k <;> fin_cases k' <;> first | exact absurd rfl hk | exact h | exact h.symm

theorem learningScope_of_guild {a b : EngagementScope} {g : ℕ} (ha : a.guild? = some g)
    (hb : b.guild? = some g) : a.learningScope = b.learningScope := by
  cases a <;> cases b <;> simp_all [EngagementScope.guild?, EngagementScope.learningScope]

/-- A new introduction was told of by the deed that created it. -/
theorem told_created {members : Fin 2 → ℕ} {g channel id : ℕ} {text : String}
    (hmembers : members 0 ≠ members 1) (hfresh : ∀ d ∈ ds, d.about ≠ some id) :
    (newIntroduction members g channel text id).Told (.created id members text :: ds) where
  members := hmembers
  approvals k r hr := by cases hr
  texts := by
    have htext : (Deed.created id members text).text? id = some (members 0, text) := if_pos rfl
    refine Fin.forall_fin_two.mpr ⟨?_, ?_⟩
    · show some text = lastText id (members 0) (.created id members text :: ds)
      rw [lastText_cons_some htext, if_pos rfl]
    · show none = lastText id (members 1) (.created id members text :: ds)
      rw [lastText_cons_some htext, if_neg hmembers, lastText_fresh hfresh]
  standing _ := by
    rw [List.mem_cons, not_or]
    exact ⟨(fun h => by cases h), fun h => hfresh _ h rfl⟩
  kept := ⟨text, since_self _ _ _⟩

/-- An edit takes the approvals away, and gives the member the text they supplied. -/
theorem Introduction.Told.edited {i : Introduction} {index : Fin 2} {member revision destination : ℕ}
    {text : String} {scope : EngagementScope} (h : i.Told ds) (hindex : i.index member = some index)
    (hscope : scope.learningScope = i.scope.learningScope) (hstate : i.state ≠ .cancelled) :
    (i.edit index revision text scope destination).Told (.edited i.id member text :: ds) where
  members := h.members
  approvals k r hr := by cases hr
  texts k := by
    have htext : (Deed.edited i.id member text).text? i.id = some (member, text) := if_pos rfl
    show Function.update i.approvedSelfDescriptions index (some text) k =
      lastText i.id (i.members k) (.edited i.id member text :: ds)
    rw [lastText_cons_some htext]
    by_cases hk : k = index
    · rw [hk, Function.update_self, if_pos (index_some hindex).symm]
    · rw [Function.update_of_ne hk, if_neg, h.texts k]
      rw [← index_some hindex]
      exact members_ne h.members fun heq => hk heq.symm
  standing _ := by
    rw [List.mem_cons, not_or]
    exact ⟨(fun h => by cases h), h.standing hstate⟩
  kept := by
    obtain ⟨first, hkept⟩ := h.kept
    have hedit (k : Fin 2) :
        ¬ (Deed.edited i.id member text).Erases i.scope.learningScope (i.members k) := by
      rintro ⟨who, hwho, -⟩
      cases hwho
    exact ⟨first, hscope ▸ hkept.cons hedit⟩

/-- An approval is told of by its deed. -/
theorem Introduction.Told.approved {i : Introduction} {index : Fin 2} {member revision : ℕ}
    (h : i.Told ds) (hindex : i.index member = some index) (hstate : i.state ≠ .cancelled) :
    (i.approve index revision).Told (.approved i.id member revision :: ds) where
  members := h.members
  approvals k r hr := by
    have hr : Function.update i.approvals index (some revision) k = some r := hr
    show Since (.approved i.id (i.members k) r) (fun d => d.text? i.id = none)
      (.approved i.id member revision :: ds)
    by_cases hk : k = index
    · rw [hk, Function.update_self] at hr
      cases hr
      rw [hk, index_some hindex]
      exact since_self _ _ _
    · rw [Function.update_of_ne hk] at hr
      exact (h.approvals k r hr).cons rfl
  texts k := by
    rw [lastText_cons_none rfl]
    exact h.texts k
  standing _ := by
    rw [List.mem_cons, not_or]
    exact ⟨(fun h => by cases h), h.standing hstate⟩
  kept := by
    obtain ⟨first, hkept⟩ := h.kept
    exact ⟨first, hkept.cons fun k => by rintro ⟨who, hwho, -⟩; cases hwho⟩

/-- A withdrawal leaves a cancelled introduction without approvals. -/
theorem Introduction.Told.withdrawn {i : Introduction} {revision : ℕ} (h : i.Told ds) :
    (i.withdraw revision).Told (.withdrawn i.id :: ds) where
  members := h.members
  approvals k r hr := by cases hr
  texts k := by
    rw [lastText_cons_none rfl]
    exact h.texts k
  standing hstate := absurd rfl hstate
  kept := by
    obtain ⟨first, hkept⟩ := h.kept
    exact ⟨first, hkept.cons fun k => by rintro ⟨who, hwho, -⟩; cases hwho⟩

/-! ### Announcements -/

/-- Both members agreed to the introduction, and it was taken to be published. -/
structure Introduction.Agreed (i : Introduction) : Prop where
  state : i.state = .consumed
  approved : i.Approved
  texts : ∀ k, (i.approvedSelfDescriptions k).isSome = true

/-- Every introduction has one candidate, in its learning scope; while that is reserved, the
introduction is agreed. -/
structure EngagementStore.Announces (s : EngagementStore) : Prop where
  unique : ∀ (k k' id : ℕ) (c c' : Candidate), s.candidates[k]? = some c →
    s.candidates[k']? = some c' → c.introductionId = some id → c'.introductionId = some id → k = k'
  linked : ∀ (k id : ℕ) (c : Candidate), s.candidates[k]? = some c → c.introductionId = some id →
    ∃ i, s.introductions[id]? = some i ∧ i.scope.learningScope = c.scope.learningScope
  reserved : ∀ (k id : ℕ) (c : Candidate) (i : Introduction), s.candidates[k]? = some c →
    c.introductionId = some id → s.introductions[id]? = some i → c.state = .reserved → i.Agreed

theorem announces_empty : EngagementStore.empty.Announces where
  unique k k' id c c' hc := by simp [EngagementStore.empty] at hc
  linked k id c hc := by simp [EngagementStore.empty] at hc
  reserved k id c i hc := by simp [EngagementStore.empty] at hc

/-- A store that passes the checks announces its introductions. -/
theorem EngagementStore.Valid.announces (h : s.Valid K) : s.Announces where
  unique _ _ _ _ _ hc hc' hid hid' := eq_of_nodup_column h.introductions.unique hc hc' hid hid'
  linked k id c hc hid := by
    obtain ⟨i, hi, hscope, -⟩ := (all_iff.mp h.candidates.introductions k c hc).2 id hid
    exact ⟨i, hi, by rw [hscope]⟩
  reserved k id c i hc hid hi hstate := by
    have hrow := all_iff.mp h.introductions.rows id i hi
    obtain ⟨-, -, hadmits⟩ := h.announced hc hi hid
    rw [hstate] at hadmits
    have hconsumed : i.state = .consumed := by
      cases hi : i.state <;> rw [hi] at hadmits <;> first | rfl | cases hadmits
    obtain ⟨happroved, htexts⟩ := hrow.agreed (.inr hconsumed)
    exact ⟨hconsumed, happroved, htexts⟩

/-- The candidate stays that of its introduction. -/
def Candidate.Stays (c c' : Candidate) : Prop :=
  c'.introductionId = c.introductionId ∧ c'.scope = c.scope

theorem Candidate.Stays.refl (c : Candidate) : c.Stays c := ⟨rfl, rfl⟩

/-- The introduction stays in its channel. -/
def Introduction.Stays (i i' : Introduction) : Prop := i'.scope = i.scope

theorem Introduction.Stays.refl (i : Introduction) : i.Stays i := rfl

/-- Records that change keep their announcements, if what is reserved is agreed. -/
theorem EngagementStore.Announces.rewrites (h : s.Announces)
    (hc : Rewrites Candidate.Stays s.candidates s'.candidates)
    (hi : Rewrites Introduction.Stays s.introductions s'.introductions)
    (hreserved : ∀ (k id : ℕ) (c : Candidate) (i : Introduction), s'.candidates[k]? = some c →
      c.introductionId = some id → s'.introductions[id]? = some i → c.state = .reserved →
      i.Agreed) : s'.Announces where
  unique k k' id c c' hk hk' hid hid' := by
    obtain ⟨d, hd, hstays, -⟩ := hc.back hk
    obtain ⟨d', hd', hstays', -⟩ := hc.back hk'
    exact h.unique k k' id d d' hd hd' (hstays ▸ hid) (hstays' ▸ hid')
  linked k id c hk hid := by
    obtain ⟨d, hd, hstays, hscope⟩ := hc.back hk
    obtain ⟨i, hrow, hlearning⟩ := h.linked k id d hd (hstays ▸ hid)
    obtain ⟨i', hi', hsame⟩ := hi.forward hrow
    exact ⟨i', hi', by rw [show i'.scope = i.scope from hsame, hscope, hlearning]⟩
  reserved := hreserved

/-! ### What an operation does to introductions -/

/-- A candidate changes: it is reserved only where it announces no introduction. -/
def Candidate.Yields (c c' : Candidate) : Prop :=
  c.Stays c' ∧ (c'.state = .reserved → c.introductionId = none ∨ c.state = .reserved)

theorem Candidate.Yields.refl (c : Candidate) : c.Yields c := ⟨.refl c, .inr⟩

/-- A candidate that is not reserved afterwards. -/
theorem Candidate.yields_of {c c' : Candidate} (h : c.Stays c') (hs : c'.state ≠ .reserved) :
    c.Yields c' := ⟨h, fun hr => absurd hr hs⟩

/-- What an operation does to introductions and the candidates that announce them, with its deed. -/
inductive Turn (K : Crates) (s : EngagementStore) : Option Deed → EngagementStore → Prop
  | checked {s' : EngagementStore} (same : s'.introductions = s.introductions)
      (valid : s'.Valid K) : Turn K s none s'
  | calm {s' : EngagementStore} (same : s'.introductions = s.introductions)
      (candidates : Rewrites Candidate.Yields s.candidates s'.candidates) : Turn K s none s'
  | cancelled {id k : ℕ} {c : Candidate} {i : Introduction} (outcome : DeliveryOutcome)
      (row : s.candidates[id]? = some c) (of : c.introductionId = some k)
      (stored : s.introductions[k]? = some i) : Turn K s none
        { s.withSettled id c outcome with introductions := s.introductions.insert k i.cancel }
  | reserved {id now : ℕ} {c : Candidate} {i : Introduction} {b₀ b₁ : String × String}
      (row : s.candidates[id]? = some c) (of : s.introductionOf c = some i)
      (current : s.IntroductionReceiptCurrent K c) :
      Turn K s none (s.withIntroductionReserved id now c i b₀ b₁)
  | created {members : Fin 2 → ℕ} {g channel now : ℕ} {text : String}
      (valid : (s.withIntroduction (newIntroduction members g channel text (s.sequence + 1)) g now
        (s.sequence + 1 + 1)).Valid K) : Turn K s (some (.created (s.sequence + 1) members text))
        (s.withIntroduction (newIntroduction members g channel text (s.sequence + 1)) g now
          (s.sequence + 1 + 1))
  | edited {id member g revision destination : ℕ} {text : String} {i : Introduction}
      {index : Fin 2} {scope : EngagementScope} (row : s.introductions[id]? = some i)
      (named : i.index member = some index) (opened : i.state.isOpen = true)
      (guild : scope.learningScope = i.scope.learningScope)
      (valid : (s.withEdit id (i.edit index revision text scope destination) g).Valid K) :
      Turn K s (some (.edited id member text))
        (s.withEdit id (i.edit index revision text scope destination) g)
  | approved {id member revision : ℕ} {i : Introduction} {index : Fin 2}
      (row : s.introductions[id]? = some i) (named : i.index member = some index)
      (opened : i.state.isOpen = true) : Turn K s (some (.approved id member revision))
        { s with introductions := s.introductions.insert id (i.approve index revision) }
  | withdrawn {id revision : ℕ} {i : Introduction} (row : s.introductions[id]? = some i) :
      Turn K s (some (.withdrawn id)) (s.withWithdrawal id i revision)
  | erased {scope : String} {member : Option ℕ} :
      Turn K s (some (.erased scope member)) (s.erased K scope member)

theorem turn_refl (s : EngagementStore) : Turn K s none s :=
  .calm rfl (.refl Candidate.Yields.refl _)

/-- An operation that writes last does what its success does, or nothing. -/
theorem turn_written {op : Op} {α : Type} {out : Except WorkError α → Out}
    {r : Except WorkError (α × EngagementStore)} (herr : ∀ e, deed op (out (.error e)) = none)
    (hok : ∀ a t, r = .ok (a, t) → Turn K s (deed op (out (.ok a))) t) :
    Turn K s (deed op (written out s r).1) (written out s r).2 := by
  unfold written
  obtain ⟨a, t, hr, hcommit⟩ | ⟨e, hcommit⟩ := commit_cases s r
  · rw [hcommit]
    exact hok a t hr
  · rw [hcommit, herr]
    exact turn_refl s

theorem proposeBacked_introductions {facts : CommunityFacts} {now count count' : ℕ}
    {t : EngagementStore} {p : CandidateProposal} (hs : s.Core)
    (h : EngagementStore.proposeBacked K facts now (count, s) p = .ok (count', t)) :
    t.introductions = s.introductions ∧ t.Core := by
  obtain ⟨rfl, -⟩ | ⟨-, fact, g, -, -, -, rfl, hv, -⟩ :=
    proposeBacked_ok (hs.free (Nat.lt_succ_self _)).2.2 h
  · exact ⟨rfl, hs⟩
  · exact ⟨rfl, hv.core⟩

theorem foldlM_introductions {facts : CommunityFacts} {now count count' : ℕ} {t : EngagementStore}
    {ps : List CandidateProposal} (hs : s.Core)
    (h : ps.foldlM (EngagementStore.proposeBacked K facts now) (count, s) = .ok (count', t)) :
    t.introductions = s.introductions := by
  induction ps generalizing count s with
  | nil =>
    simp only [List.foldlM_nil, pure_eq_ok, Prod.mk.injEq] at h
    rw [h.2]
  | cons p ps ih =>
    simp only [List.foldlM_cons, bind_eq_ok, Prod.exists] at h
    obtain ⟨count₁, s₁, hp, hps⟩ := h
    obtain ⟨hsame, hcore⟩ := proposeBacked_introductions hs hp
    rw [ih hcore hps, hsame]

theorem turn_candidates {cs : BTreeMap ℕ Candidate} (h : Rewrites Candidate.Yields s.candidates cs) :
    Turn K s none { s with candidates := cs } := .calm rfl h

theorem turn_cancelMatching (s : EngagementStore) (p : Candidate → Bool) :
    Turn K s none (s.cancelMatching p).2 := by
  refine turn_candidates (.map _ fun _ c => ?_)
  split_ifs
  · exact Candidate.yields_of ⟨rfl, rfl⟩ (by simp)
  · exact .refl c

theorem turn_recoverReserved (s : EngagementStore) : Turn K s none s.recoverReserved.2 := by
  refine turn_candidates (.map _ fun _ c => ?_)
  split_ifs
  · exact Candidate.yields_of ⟨rfl, rfl⟩ (by simp [Candidate.recover])
  · exact .refl c

theorem turn_expireMissedWeekly (s : EngagementStore) (now : ℕ) :
    Turn K s none (s.expireMissedWeekly now).2 := by
  unfold EngagementStore.expireMissedWeekly
  split
  · exact turn_refl s
  · rename_i expired _
    obtain ⟨cs, heq, hrew⟩ := cancelAll_rewrites expired s
    show Turn K s none (s.cancelAll expired).2
    rw [heq]
    refine turn_candidates (hrew.mono fun c c' h => ?_)
    rcases h with rfl | rfl
    · exact .refl _
    · exact Candidate.yields_of ⟨rfl, rfl⟩ (by simp)

theorem turn_settle (s : EngagementStore) (id : ℕ) (outcome : DeliveryOutcome) :
    Turn K s none (s.settle id outcome).2 := by
  obtain ⟨e, h⟩ | ⟨c, hc, -, -, hcases⟩ := settle_cases s id outcome
  · rw [h]
    exact turn_refl s
  · have hrew : Rewrites Candidate.Yields s.candidates (s.candidates.insert id (c.settle outcome)) :=
      .insert Candidate.Yields.refl hc (Candidate.yields_of ⟨rfl, rfl⟩ outcome.state_ne_reserved)
    obtain ⟨-, h⟩ | ⟨k, hk, -, ⟨-, h⟩ | ⟨i, hi, h⟩⟩ := hcases
    · rw [h]
      exact turn_candidates hrew
    · rw [h]
      exact turn_candidates hrew
    · rw [h]
      exact .cancelled outcome hc hk hi

theorem turn_reserves {id now : ℕ} {c : Candidate} {r : EngagementReservation} (hs : s.Core)
    (hc : s.candidates[id]? = some c) (h : s.Reserves K id now c r s') : Turn K s none s' := by
  have hnone (hkind : c.kind ≠ .introduction) : c.introductionId = none := by
    rw [Ne, (hs.candidates id c hc).introduction] at hkind
    simpa using hkind
  have hother (hkind : c.kind ≠ .introduction) (policyRevision : ℕ)
      (destination : DestinationPreference) : c.Yields (c.reserve policyRevision destination) :=
    ⟨⟨rfl, rfl⟩, fun _ => .inl (hnone hkind)⟩
  cases h with
  | introduction i b₀ b₁ current of => exact .reserved hc of current
  | publicly receipt feature =>
    have hkind : c.kind ≠ .introduction := by
      intro hkind
      rw [hkind] at feature
      cases feature
    exact .calm rfl (.insert Candidate.Yields.refl hc (hother hkind _ _))
  | contact member b p destination kind =>
    exact .calm rfl (.insert Candidate.Yields.refl hc (hother kind _ _))

/-- **What any operation does** to introductions. -/
theorem step_turn (hs : s.Core) (op : Op) :
    Turn K s (deed op (step K s op).1) (step K s op).2 := by
  cases op with
  | propose p now =>
    refine turn_written (fun _ => rfl) fun r t h => ?_
    obtain ⟨-, ⟨-, rfl, -⟩ | ⟨-, rfl, hv, -⟩⟩ := propose_ok h
    · exact turn_refl t
    · exact .checked rfl hv
  | proposeCommunity facts now =>
    refine turn_written (fun _ => rfl) fun r t h => ?_
    unfold EngagementStore.proposeCommunity at h
    simp only [bind_eq_ok, ensure_eq_ok, exists_unit, Prod.exists, validate_eq_ok, pure_eq_ok,
      Prod.mk.injEq] at h
    obtain ⟨-, count, next, hfold, hv, -, rfl⟩ := h
    exact .checked (foldlM_introductions hs hfold) hv
  | requestInvitation kind request =>
    refine turn_written (fun _ => rfl) fun r t h => ?_
    obtain ⟨-, ⟨-, rfl⟩ | ⟨-, blocker, rfl, hv⟩ | ⟨-, policy, rfl, hv, -⟩⟩ := requestInvitation_ok h
    · exact turn_refl t
    · exact .checked rfl hv
    · exact .checked rfl hv
  | createIntroduction members scope description now =>
    refine turn_written (fun _ => rfl) fun r t h => ?_
    obtain ⟨-, rfl, g, channel, -, rfl, hv⟩ := createIntroduction_ok h
    exact .created hv
  | editIntroduction id member revision description destination =>
    refine turn_written (fun _ => rfl) fun r t h => ?_
    obtain ⟨i, index, scope, g, hi, hindex, -, hopen, -, hg, hg', -, rfl, hv⟩ :=
      editIntroduction_ok h
    exact .edited hi hindex hopen (learningScope_of_guild hg hg') hv
  | approveIntroduction id member revision =>
    refine turn_written (fun _ => rfl) fun r t h => ?_
    obtain ⟨i, index, hi, hindex, -, hopen, -, rfl⟩ := approveIntroduction_ok h
    exact .approved hi hindex hopen
  | withdrawIntroduction id member revision =>
    refine turn_written (fun _ => rfl) fun r t h => ?_
    obtain ⟨i, hi, -, -, -, rfl⟩ := withdrawIntroduction_ok h
    exact .withdrawn hi
  | proposeLinkedTaskFollowUp intent source member due now =>
    refine turn_written (fun _ => rfl) fun r t h => ?_
    obtain ⟨-, rfl⟩ | ⟨-, key, -, rfl, hv, -⟩ := proposeLinkedTaskFollowUp_ok h
    · exact turn_refl t
    · exact .checked rfl hv
  | cancelTaskFollowUp id revision reason =>
    refine turn_written (fun _ => rfl) fun r t h => ?_
    obtain rfl | ⟨c, hc, -, -, -, rfl⟩ := cancelTaskFollowUp_ok h
    · exact turn_refl t
    · have hleft : c.Yields (c.cancelFollowUp reason) :=
        Candidate.yields_of ⟨rfl, rfl⟩ (by simp [Candidate.cancelFollowUp])
      exact turn_candidates (.insert Candidate.Yields.refl hc hleft)
  | reserve id revision now =>
    refine turn_written (fun _ => rfl) fun r t h => ?_
    obtain ⟨-, c, hc, -, -, hreserves⟩ := reserve_ok h
    exact turn_reserves hs hc hreserves
  | settle id outcome => exact turn_settle s id outcome
  | cancelSource scope message => exact turn_cancelMatching s _
  | cancelMemberOrigin member scope after => exact turn_cancelMatching s _
  | cancelPublicOrigin scope after => exact turn_cancelMatching s _
  | expireMissedWeekly now =>
    simp only [step]
    exact turn_expireMissedWeekly s now
  | recoverReserved => exact turn_recoverReserved s
  | eraseLearning scope member =>
    refine turn_written (fun _ => rfl) fun r t h => ?_
    unfold EngagementStore.eraseLearning at h
    simp only [bind_eq_ok, ensure_eq_ok, exists_unit, pure_eq_ok, Prod.mk.injEq] at h
    rw [← h.2.2]
    exact .erased
  | pruneErasureSafety now =>
    obtain ⟨contact, community, pruned, heq⟩ := pruneErasureSafety_eq s now
    simp only [step]
    rw [heq]
    exact .calm rfl (.refl Candidate.Yields.refl _)
  | reload =>
    refine turn_written (fun _ => rfl) fun r t h => ?_
    unfold EngagementStore.reload at h
    simp only [bind_eq_ok, exists_unit, pure_eq_ok] at h
    have ht : s.recoverReserved.2 = t := congrArg Prod.snd h.2
    rw [← ht]
    exact turn_recoverReserved s
  | configure settings =>
    refine turn_written (fun _ => rfl) fun r t h => ?_
    unfold EngagementStore.configure at h
    simp only [bind_eq_ok, exists_unit, validate_eq_ok, pure_eq_ok, Prod.mk.injEq] at h
    obtain ⟨hv, -, rfl⟩ := h
    exact .checked rfl hv

/-! ### One operation -/

/-- What is cancelled or settled with its introduction is not reserved. -/
theorem EngagementStore.Announces.cancelled (ha : s.Announces) {id k : ℕ} {c : Candidate}
    {i : Introduction} (outcome : DeliveryOutcome) (hrow : s.candidates[id]? = some c)
    (hof : c.introductionId = some k) (hi : s.introductions[k]? = some i) :
    { s.withSettled id c outcome with
      introductions := s.introductions.insert k i.cancel }.Announces := by
  refine ha.rewrites (.insert Candidate.Stays.refl hrow ⟨rfl, rfl⟩)
    (.insert Introduction.Stays.refl hi rfl) ?_
  intro k' id' c' i' hc' hid' hi' hstate
  simp only [EngagementStore.withSettled, getElem?_insert] at hc' hi'
  split_ifs at hc' with hk'
  · cases hc'
    exact absurd hstate outcome.state_ne_reserved
  · split_ifs at hi' with hid
    · exact absurd (ha.unique k' id k c' c hc' hrow (hid ▸ hid') hof).symm hk'
    · exact ha.reserved k' id' c' i' hc' hid' hi' hstate

/-- What is reserved with its introduction is agreed. -/
theorem EngagementStore.Announces.consumed (ha : s.Announces) (hs : s.Core) {id now : ℕ}
    {c : Candidate} {i : Introduction} {b₀ b₁ : String × String} (hrow : s.candidates[id]? = some c)
    (hof : s.introductionOf c = some i) (hcurrent : s.IntroductionReceiptCurrent K c) :
    (s.withIntroductionReserved id now c i b₀ b₁).Announces := by
  obtain ⟨k, hk, hi⟩ := Option.bind_eq_some_iff.mp hof
  have hik : i.id = k := (hs.introductions k i hi).1
  rw [← hik] at hk hi
  refine ha.rewrites (.insert Candidate.Stays.refl hrow ⟨rfl, rfl⟩)
    (.insert Introduction.Stays.refl hi rfl) ?_
  intro k' id' c' i' hc' hid' hi' hstate
  simp only [EngagementStore.withIntroductionReserved, getElem?_insert] at hc' hi'
  obtain ⟨-, -, -, -, -, i₁, hi₁, -, -, -, happroved, htexts, -⟩ := hcurrent
  cases hof.symm.trans hi₁
  split_ifs at hi' with hid
  · cases hi'
    refine ⟨rfl, happroved, fun k => ?_⟩
    obtain ⟨text, htext, -⟩ := htexts k
    exact Option.isSome_iff_exists.mpr ⟨text, htext⟩
  · split_ifs at hc' with hk'
    · cases hc'
      rw [hk] at hid'
      exact absurd (Option.some.inj hid') hid
    · exact ha.reserved k' id' c' i' hc' hid' hi' hstate

/-- An approval is of an introduction that is open, so nothing is reserved for it. -/
theorem EngagementStore.Announces.approved (ha : s.Announces) {id revision : ℕ} {i : Introduction}
    (index : Fin 2) (hrow : s.introductions[id]? = some i) (hopen : i.state.isOpen = true) :
    { s with introductions := s.introductions.insert id (i.approve index revision) }.Announces := by
  refine ha.rewrites (.refl Candidate.Stays.refl _) (.insert Introduction.Stays.refl hrow rfl) ?_
  intro k' id' c' i' hc' hid' hi' hstate
  rw [getElem?_insert] at hi'
  split_ifs at hi' with hid
  · have hagreed := ha.reserved k' id' c' i hc' hid' (hid ▸ hrow) hstate
    rw [hagreed.state] at hopen
    cases hopen
  · exact ha.reserved k' id' c' i' hc' hid' hi' hstate

/-- A withdrawal cancels what is reserved for its introduction. -/
theorem EngagementStore.Announces.withdrawn (ha : s.Announces) {id : ℕ} {i : Introduction}
    (revision : ℕ) (hrow : s.introductions[id]? = some i) :
    (s.withWithdrawal id i revision).Announces := by
  refine ha.rewrites (.map _ fun _ c => ?_) (.insert Introduction.Stays.refl hrow rfl) ?_
  · split_ifs
    · exact ⟨rfl, rfl⟩
    · exact .refl c
  · intro k' id' c' i' hc' hid' hi' hstate
    simp only [EngagementStore.withWithdrawal, getElem?_insert] at hc' hi'
    obtain ⟨c₀, hc₀, hif⟩ := map_eq_some.mp hc'
    split_ifs at hif with hsame
    · subst hif
      cases hstate
    · subst hif
      rw [if_neg fun heq : id = id' => hsame (heq ▸ hid')] at hi'
      exact ha.reserved k' id' c₀ i' hc₀ hid' hi' hstate

/-- A candidate is erased with its introduction. -/
theorem EngagementStore.Announces.erased (ha : s.Announces) (scope : String) (member : Option ℕ) :
    (s.erased K scope member).Announces := by
  refine ⟨fun k k' id c c' hc hc' => ?_, fun k id c hc hid => ?_, fun k id c i hc hid hi => ?_⟩
  · exact ha.unique k k' id c c' (filter_eq_some.mp hc).1 (filter_eq_some.mp hc').1
  · obtain ⟨hrow, hkept⟩ := filter_eq_some.mp hc
    obtain ⟨i, hi, hscope⟩ := ha.linked k id c hrow hid
    refine ⟨i, filter_eq_some.mpr ⟨hi, decide_eq_true fun herased => ?_⟩, hscope⟩
    obtain ⟨i', hi', hlinked⟩ := mem_erasedIntroductions.mp herased
    rw [hi] at hi'
    cases hi'
    refine of_decide_eq_true hkept (mem_erasedCandidates.mpr ⟨c, hrow, ?_⟩)
    refine ⟨hscope.symm.trans hlinked.1, .inr (.inr (.inr (.inr ⟨i, ?_, hlinked⟩)))⟩
    exact Option.bind_eq_some_iff.mpr ⟨id, hid, hi⟩
  · exact ha.reserved k id c i (filter_eq_some.mp hc).1 hid (filter_eq_some.mp hi).1

/-- Every operation keeps the announcements. -/
theorem Turn.announces {d : Option Deed} (h : Turn K s d s') (hs : s.Core) (ha : s.Announces) :
    s'.Announces := by
  cases h with
  | checked same valid => exact valid.announces
  | calm same candidates =>
    refine ha.rewrites (candidates.mono fun _ _ h => h.1) ?_ ?_
    · rw [same]
      exact .refl Introduction.Stays.refl _
    intro k id c i hc hid hi hstate
    obtain ⟨c₀, hc₀, hstays, hyields⟩ := candidates.back hc
    have hid₀ : c₀.introductionId = some id := hstays.1.symm.trans hid
    rcases hyields hstate with hnone | hreserved
    · rw [hnone] at hid₀
      cases hid₀
    · exact ha.reserved k id c₀ i hc₀ hid₀ (same ▸ hi) hreserved
  | cancelled outcome row of stored => exact ha.cancelled outcome row of stored
  | reserved row of current => exact ha.consumed hs row of current
  | created valid => exact valid.announces
  | edited row named opened guild valid => exact valid.announces
  | @approved id member revision i index row named opened => exact ha.approved index row opened
  | @withdrawn id revision i row => exact ha.withdrawn revision row
  | @erased scope member => exact ha.erased scope member

theorem IntroductionState.ne_cancelled_of_isOpen {state : IntroductionState}
    (h : state.isOpen = true) : state ≠ .cancelled := by
  rintro rfl
  cases h

/-- Every operation tells of the introductions it leaves. -/
theorem Turn.told {d : Option Deed} (h : Turn K s d s') (hs : s.Core)
    (hfresh : ∀ d ∈ ds, ∀ id ∈ d.about, id ≤ s.sequence)
    (ht : ∀ (id : ℕ) (i : Introduction), s.introductions[id]? = some i → i.Told ds) (id : ℕ)
    (i : Introduction) (hi : s'.introductions[id]? = some i) : i.Told (d.toList ++ ds) := by
  -- the other introductions go on, whatever a deed does to one of them
  have hothers {d : Deed} {id' : ℕ} (habout : d.about = some id') (hne : id' ≠ id)
      (hrow : s.introductions[id]? = some i) : i.Told (d :: ds) := by
    refine (ht id i hrow).cons ?_ fun k => ?_
    · rw [habout, (hs.introductions id i hrow).1]
      exact fun heq => hne (Option.some.inj heq)
    · rintro ⟨who, rfl, -⟩
      cases habout
  cases h with
  | checked same valid => exact ht id i (same ▸ hi)
  | calm same candidates => exact ht id i (same ▸ hi)
  | @cancelled id' k c i' outcome row of stored =>
    rw [getElem?_insert] at hi
    split_ifs at hi with hk
    · cases hi
      exact (ht k i' stored).follows
        ⟨rfl, rfl, rfl, rfl, fun _ _ h => (by cases h), fun h => absurd rfl h⟩
    · exact ht id i hi
  | @reserved id' now c i' b₀ b₁ row of current =>
    simp only [EngagementStore.withIntroductionReserved, getElem?_insert] at hi
    split_ifs at hi with hk
    · cases hi
      obtain ⟨k, -, hrow⟩ := Option.bind_eq_some_iff.mp of
      obtain ⟨-, -, -, -, -, i₁, hi₁, -, -, -, -, -, hpublishable, -⟩ := current
      cases of.symm.trans hi₁
      refine (ht k i' hrow).follows ⟨rfl, rfl, rfl, rfl, fun _ _ h => h, fun _ hcancelled => ?_⟩
      rw [hcancelled] at hpublishable
      cases hpublishable
    · exact ht id i hi
  | @created members g channel now text valid =>
    simp only [EngagementStore.withIntroduction, getElem?_insert] at hi
    split_ifs at hi with hid
    · cases hi
      have hrow := all_iff.mp valid.introductions.rows (s.sequence + 1)
        (newIntroduction members g channel text (s.sequence + 1))
        (by simp [EngagementStore.withIntroduction, newIntroduction])
      refine told_created hrow.members.2 fun d hd habout => ?_
      have hle := hfresh d hd (s.sequence + 1) habout
      omega
    · exact hothers rfl hid hi
  | @edited id' member g revision destination text i' index scope row named opened guild valid =>
    simp only [EngagementStore.withEdit, getElem?_insert] at hi
    split_ifs at hi with hid
    · cases hi
      cases (hs.introductions id' i' row).1
      exact (ht i'.id i' row).edited named guild (IntroductionState.ne_cancelled_of_isOpen opened)
    · exact hothers rfl hid hi
  | @approved id' member revision i' index row named opened =>
    rw [getElem?_insert] at hi
    split_ifs at hi with hid
    · cases hi
      cases (hs.introductions id' i' row).1
      exact (ht i'.id i' row).approved named (IntroductionState.ne_cancelled_of_isOpen opened)
    · exact hothers rfl hid hi
  | @withdrawn id' revision i' row =>
    simp only [EngagementStore.withWithdrawal, getElem?_insert] at hi
    split_ifs at hi with hid
    · cases hi
      cases (hs.introductions id' i' row).1
      exact (ht i'.id i' row).withdrawn
    · exact hothers rfl hid hi
  | @erased scope member =>
    obtain ⟨hrow, hkept⟩ := filter_eq_some.mp hi
    refine (ht id i hrow).cons (fun habout => by cases habout) fun k => ?_
    rintro ⟨who, hwho, hown⟩
    cases hwho
    exact of_decide_eq_true hkept (mem_erasedIntroductions.mpr ⟨i, hrow, rfl, .inr ⟨k, hown⟩⟩)

/-- A deed is about an introduction that is numbered. -/
theorem Turn.about {d : Deed} (h : Turn K s (some d) s') (hs : s.Core) :
    ∀ id ∈ d.about, id ≤ s'.sequence := by
  intro id hid
  cases h with
  | created valid =>
    cases hid
    exact Nat.le_succ _
  | edited row named opened guild valid =>
    cases hid
    exact (hs.introductions _ _ row).2
  | approved row named opened =>
    cases hid
    exact (hs.introductions _ _ row).2
  | withdrawn row =>
    cases hid
    exact (hs.introductions _ _ row).2
  | erased => cases hid

/-! ### Runs -/

/-- Announcements are in order, and every introduction is what the deeds tell. -/
structure EngagementStore.Heard (s : EngagementStore) (ds : List Deed) : Prop where
  core : s.Core
  announces : s.Announces
  numbered : ∀ d ∈ ds, ∀ id ∈ d.about, id ≤ s.sequence
  told : ∀ (id : ℕ) (i : Introduction), s.introductions[id]? = some i → i.Told ds

theorem heard_empty : EngagementStore.empty.Heard [] where
  core := core_empty
  announces := announces_empty
  numbered d hd := absurd hd List.not_mem_nil
  told id i hi := by simp [EngagementStore.empty] at hi

theorem deeds_cons (e : Event EngagementStore Op Out) (h : History) :
    deeds (e :: h) = (deed e.op e.out).toList ++ deeds h := by
  unfold deeds
  cases hd : deed e.op e.out with
  | none => simp [hd]
  | some d => simp [hd]

/-- One operation more is heard. -/
theorem EngagementStore.Heard.step (h : s.Heard ds) (op : Op) :
    (step K s op).2.Heard ((deed op (step K s op).1).toList ++ ds) where
  core := (step_effect K h.core op).core h.core
  announces := (step_turn h.core op).announces h.core h.announces
  numbered d hd id hid := by
    have hturn : Turn K s (deed op (AbbeyBot.Engagement.step K s op).1)
      (AbbeyBot.Engagement.step K s op).2 := step_turn h.core op
    rcases List.mem_append.mp hd with hd | hd
    · rw [Option.mem_toList] at hd
      rw [hd] at hturn
      exact hturn.about h.core id hid
    · exact (h.numbered d hd id hid).trans ((step_effect K h.core op).sequence h.core)
  told := (step_turn h.core op).told h.core h.numbered h.told

theorem heard_of_reaches {h : History} (hr : Reaches K h s) : s.Heard (deeds h) := by
  induction hr with
  | nil => exact heard_empty
  | cons op _ ih =>
    rw [deeds_cons]
    exact ih.step op

/-- What is published of a stored introduction is what its members said last. -/
theorem EngagementStore.Heard.published (h : s.Heard ds) {id : ℕ} {i : Introduction} {text : String}
    (hi : s.introductions[id]? = some i) (hp : i.publication = .ok text) :
    i.Consented ds ∧ ∃ a b, lastText i.id (i.members 0) ds = some a ∧
      lastText i.id (i.members 1) ds = some b ∧ text = publicText a b := by
  obtain ⟨hstate, happroved, a, b, ha, hb, rfl⟩ := publication_ok hp
  have htold := h.told id i hi
  refine ⟨htold.consented (by rw [hstate]; simp) happroved ?_, a, b, ?_, ?_, rfl⟩
  · exact Fin.forall_fin_two.mpr ⟨by rw [ha]; rfl, by rw [hb]; rfl⟩
  · rw [← htold.texts, ha]
  · rw [← htold.texts, hb]

/-- **Consent to introductions**: in every reached store, both members consent to an introduction
whose candidate is reserved; so they do where its publication succeeds, which has the last text of
each, and where a reservation passes the check before it is sent and is published. -/
theorem consent_along_run {h : History} (hr : Reaches K h s) :
    (∀ (id : ℕ) (c : Candidate), s.candidates[id]? = some c → c.kind = .introduction →
      c.state = .reserved →
        ∃ i, s.introductionOf c = some i ∧ i.state = .consumed ∧ i.Consented (deeds h)) ∧
    (∀ (id : ℕ) (i : Introduction) (text : String), s.introductions[id]? = some i →
      i.publication = .ok text → i.Consented (deeds h) ∧
        ∃ a b, lastText i.id (i.members 0) (deeds h) = some a ∧
          lastText i.id (i.members 1) (deeds h) = some b ∧ text = publicText a b) ∧
    ∀ (r : EngagementReservation) (now : ℕ) (snapshot : IntroductionReservation) (text : String),
      r.introduction = some snapshot → s.validateIntroductionReservation K r now = .ok () →
        snapshot.introduction.publication = .ok text →
          snapshot.introduction.Consented (deeds h) := by
  have hheard := heard_of_reaches hr
  refine ⟨fun id c hc hkind hstate => ?_, fun id i text => hheard.published, ?_⟩
  · obtain ⟨k, hk⟩ := Option.isSome_iff_exists.mp
      ((hheard.core.candidates id c hc).introduction.mp hkind)
    obtain ⟨i, hi, -⟩ := hheard.announces.linked id k c hc hk
    have hagreed := hheard.announces.reserved id k c i hc hk hi hstate
    refine ⟨i, Option.bind_eq_some_iff.mpr ⟨k, hk, hi⟩, hagreed.state, ?_⟩
    exact (hheard.told k i hi).consented (by rw [hagreed.state]; simp) hagreed.approved
      hagreed.texts
  · intro r now snapshot text hr' hvalidate hp
    unfold EngagementStore.validateIntroductionReservation at hvalidate
    simp only [bind_eq_ok, ensure_eq_ok, exists_unit, orErr_eq_ok] at hvalidate
    obtain ⟨_, hsnapshot, c, -, ⟨-, hstored⟩, -⟩ := hvalidate
    cases hr'.symm.trans hsnapshot
    exact (hheard.published hstored hp).1

/-- Introductions are on in the channel 2 of the guild 1, and the members 7 and 8 may be contacted. -/
def introductionSettings : Settings where
  communityCursor := none
  feedback := ∅
  memberPolicies :=
    let policy := { MemberPolicy.default with
      revision := 1, dailyLimit := some 1, timezone := some "UTC" }
    ((∅ : BTreeMap ℕ MemberPolicy).insert 7 policy).insert 8 policy
  weeklyAssessments := ∅
  responses := ∅
  observations := ∅
  eligibility := ∅
  guildFeatures := (∅ : BTreeMap ℕ GuildFeaturePolicy).insert 1
    ⟨1, {.introductions},
      (∅ : BTreeMap CommunityFeature (BTreeSet ℕ)).insert .introductions {2}⟩

/-- The member 8 changes their text when the member 7 has approved; both approve the new revision, and
the candidate is reserved at noon. -/
def introductionOps : List Op :=
  [.configure introductionSettings,
    .createIntroduction ![7, 8] (.guild 1 2) "I build kites." 1700049000,
    .editIntroduction 1 8 1 "I fly kites." none,
    .approveIntroduction 1 7 2,
    .editIntroduction 1 8 2 "I fly big kites." none,
    .approveIntroduction 1 7 3,
    .approveIntroduction 1 8 3,
    .reserve 2 3 1700049600]

theorem introduced_with_consent :
    ∃ i, (play (step plainCrates) EngagementStore.empty introductionOps).2.introductions[1]? =
        some i ∧
      i.publication = .ok (publicText "I build kites." "I fly big kites.") ∧
      i.Consented (deeds (play (step plainCrates) EngagementStore.empty introductionOps).1) := by
  have hrun : ((play (step plainCrates) EngagementStore.empty introductionOps).2.introductions[1]?.map
      Introduction.publication) = some (.ok (publicText "I build kites." "I fly big kites.")) := by
    decide +kernel
  obtain ⟨i, hi, hp⟩ := Option.map_eq_some_iff.mp hrun
  exact ⟨i, hi, hp, ((consent_along_run (run_play _ introductionOps)).2.1 1 i _ hi hp).1⟩

end AbbeyBot.Engagement
