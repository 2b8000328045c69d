import Mathlib
import AbbeyBot.Engagement.Effects

/-! # Follow-ups are unique

A task is followed up once, and so is the message a member asked from, whatever became of the first
follow-up: its candidate stays as a record, or leaves its identities when it is erased. -/

namespace AbbeyBot.Engagement

open AbbeyBot.Library.History AbbeyBot.Library.OrderedMap AbbeyBot.Library.Result
open AbbeyBot.Work.FollowUp AbbeyBot.Work.Types

/-- The follow-up an operation created: the task in its workspace, and the message with the
member. -/
def createdFollowUp (op : Op) (out : Out) :
    Option ((WorkScope × WorkContentRef) × (EngagementScope × ℕ × ℕ)) :=
  match op, out with
  | .proposeLinkedTaskFollowUp intent source member _ _, .candidate (.ok (some _)) =>
    some ((intent.scope, intent.task), (source.scope, source.message, member))
  | _, _ => none

/-- The follow-ups created in a history, latest first. -/
def createdFollowUps (h : History) :
    List ((WorkScope × WorkContentRef) × (EngagementScope × ℕ × ℕ)) :=
  h.filterMap fun e => createdFollowUp e.op e.out

/-- The message of the member is followed up already, or its follow-up was erased. -/
def EngagementStore.SourceRemembered (s : EngagementStore) (K : Crates)
    (source : EngagementScope × ℕ × ℕ) : Prop :=
  K.digest (.proposal .followUp source.1 (some source.2.2) (some source.2.1) 0) ∈
      s.erasedIdentities ∨
    ∃ (id : ℕ) (c : Candidate), s.candidates[id]? = some c ∧ c.kind = .followUp ∧
      c.member = some source.2.2 ∧ c.scope = source.1 ∧ ∃ a ∈ c.source, a.message = source.2.1

variable {K : Crates} {s s' : EngagementStore}

theorem followUpSourceAttempted_iff {source : SourceRef} {member : ℕ} :
    s.FollowUpSourceAttempted K source member ↔
      s.SourceRemembered K (source.scope, source.message, member) := by
  unfold EngagementStore.FollowUpSourceAttempted EngagementStore.SourceRemembered
  refine or_congr Iff.rfl ⟨?_, ?_⟩
  · rintro ⟨c, hc, h⟩
    obtain ⟨id, hid⟩ := mem_values.mp hc
    exact ⟨id, c, hid, h⟩
  · rintro ⟨id, c, hid, h⟩
    exact ⟨c, mem_values.mpr ⟨id, hid⟩, h⟩

/-! ### Both marks are kept -/

/-- A follow-up announces no introduction. -/
theorem EngagementStore.Core.followUp_scope (hs : s.Core) {id : ℕ} {c : Candidate}
    (hc : s.candidates[id]? = some c) (hkind : c.kind = .followUp) : c.introductionId = none := by
  have hi := (hs.candidates id c hc).introduction
  rw [hkind] at hi
  simpa using hi

theorem Remembers.task (h : Remembers K s s') (hs : s.Core) {scope : WorkScope}
    {task : WorkContentRef} (ht : s.TaskFollowUpAttempted K scope task) :
    s'.TaskFollowUpAttempted K scope task := by
  rcases ht with hkey | herased | ⟨c, hc, htask, hscope⟩
  · exact .inl hkey
  · exact .inr (.inl (h.identities herased))
  · obtain ⟨id, hid⟩ := mem_values.mp hc
    have hkind := (hs.candidates id c hid).linked (by rw [htask]; rfl)
    rcases h.candidates id c hid with ⟨c', hc', hcont⟩ | hleft
    · refine .inr (.inr ⟨c', mem_values.mpr ⟨id, hc'⟩, hcont.workRef.trans htask, ?_⟩)
      rw [hcont.scope (hs.followUp_scope hid hkind), hscope]
    · refine .inr (.inl (hscope ▸ hleft _ ?_))
      simp [EngagementStore.identitiesOf, htask]

theorem Remembers.source (h : Remembers K s s') (hs : s.Core)
    {source : EngagementScope × ℕ × ℕ} (hr : s.SourceRemembered K source) :
    s'.SourceRemembered K source := by
  rcases hr with herased | ⟨id, c, hid, hkind, hmember, hscope, a, ha, hmessage⟩
  · exact .inl (h.identities herased)
  · rcases h.candidates id c hid with ⟨c', hc', hcont⟩ | hleft
    · refine .inr ⟨id, c', hc', hcont.kind.trans hkind, hcont.member.trans hmember, ?_, a, ?_,
        hmessage⟩
      · rw [hcont.scope (hs.followUp_scope hid hkind), hscope]
      · rw [hcont.source]
        exact ha
    · have hidentity : c.identity K =
          K.digest (.proposal .followUp source.1 (some source.2.2) (some source.2.1) 0) := by
        rw [Option.mem_def] at ha
        simp [Candidate.identity, CandidateProposal.identity, hkind, hmember, hscope, ha, hmessage]
      refine .inl (hidentity ▸ hleft _ ?_)
      simp [EngagementStore.identitiesOf, EngagementKind.leavesIdentity, hkind,
        EngagementKind.isInvitation, EngagementKind.feature]

/-! ### Creation -/

/-- The task of a linked candidate of a valid store is in the workspace of its scope. -/
theorem workScope_of_linked {intent : FollowUpIntent} {key : String} {c : Candidate}
    {id sequence : ℕ} (hkey : taskKey intent.scope intent.task = .ok key)
    (hv : (c.link intent key).Valid id sequence) : c.scope.workScope = intent.scope := by
  have hkey' := (validateTaskFollowUp_ok rfl hv.taskFollowUp).2
  exact (taskKey_injective hkey' hkey).1

/-- What a created follow-up finds, and what it leaves. -/
theorem created_spec {op : Op} {created : (WorkScope × WorkContentRef) × (EngagementScope × ℕ × ℕ)}
    (h : createdFollowUp op (step K s op).1 = some created) :
    ¬ s.TaskFollowUpAttempted K created.1.1 created.1.2 ∧ ¬ s.SourceRemembered K created.2 ∧
      (step K s op).2.TaskFollowUpAttempted K created.1.1 created.1.2 ∧
      (step K s op).2.SourceRemembered K created.2 ∧
      ∀ (id : ℕ) (c : Candidate) (task : WorkContentRef),
        (step K s op).2.candidates[id]? = some c → c.workRef = some task →
          s.candidates[id]? = some c ∨ (c.scope.workScope, task) = created.1 := by
  unfold createdFollowUp at h
  split at h
  · rename_i _ _ intent source member due now r hout
    simp only [step, written] at hout ⊢
    have hr := Out.candidate.inj hout
    obtain ⟨a, s', hok, hcommit⟩ | ⟨e, hcommit⟩ :=
      commit_cases s (s.proposeLinkedTaskFollowUp K intent source member due now)
    · rw [hcommit] at hr ⊢
      obtain rfl := Except.ok.inj hr
      obtain ⟨hnone, -⟩ | ⟨-, key, hkey, rfl, hv, htask, hsource⟩ := proposeLinkedTaskFollowUp_ok hok
      · cases hnone
      · cases h
        set c := (s.candidateOf (followUpProposal source member due) (s.sequence + 1)).link intent
          key with hcdef
        have hrow : (s.withFollowUp intent source member due (s.sequence + 1)
            key).candidates[s.sequence + 1]? = some c := by
          simp [EngagementStore.withFollowUp, hcdef]
        have hscope : c.scope.workScope = intent.scope :=
          workScope_of_linked hkey (all_iff.mp hv.candidates.rows _ c hrow)
        refine ⟨htask, fun h => hsource (followUpSourceAttempted_iff.mpr h), ?_, ?_, ?_⟩
        · exact .inr (.inr ⟨c, mem_values.mpr ⟨_, hrow⟩, rfl, hscope⟩)
        · exact .inr ⟨_, c, hrow, rfl, rfl, rfl, source, rfl, rfl⟩
        · intro id c' task hc' hw
          by_cases hid : s.sequence + 1 = id
          · subst hid
            rw [hrow] at hc'
            cases hc'
            refine .inr ?_
            rw [hscope]
            cases hw
            rfl
          · simp only [EngagementStore.withFollowUp, getElem?_insert, if_neg hid] at hc'
            exact .inl hc'
    · rw [hcommit] at hr
      cases hr
  · cases h

/-- An operation that creates no follow-up leaves the follow-ups it finds. -/
theorem uncreated_spec (hs : s.Core) {op : Op} (h : createdFollowUp op (step K s op).1 = none)
    {id : ℕ} {c : Candidate} {task : WorkContentRef}
    (hc : (step K s op).2.candidates[id]? = some c) (hw : c.workRef = some task) :
    ∃ c₀, s.candidates[id]? = some c₀ ∧ c₀.workRef = some task ∧ c₀.scope = c.scope := by
  cases step_effect K hs op with
  | grows quiet valid hg =>
    rcases hg.candidates.2 id c hc with hold | ⟨hnew, -, hlinked, -⟩
    · exact ⟨c, hold, hw, rfl⟩
    · have hlinked := hlinked (by rw [hw]; rfl)
      cases op with
      | proposeLinkedTaskFollowUp intent source member due now =>
        simp only [step, written] at h hc
        obtain ⟨a, s', hok, hcommit⟩ | ⟨e, hcommit⟩ :=
          commit_cases s (s.proposeLinkedTaskFollowUp K intent source member due now)
        · rw [hcommit] at h hc
          obtain ⟨rfl, rfl⟩ | ⟨rfl, -⟩ := proposeLinkedTaskFollowUp_ok hok
          · exact ⟨c, hc, hw, rfl⟩
          · cases h
        · rw [hcommit] at hc
          exact ⟨c, hc, hw, rfl⟩
      | _ => cases hlinked
  | calm _ hcalm =>
    obtain ⟨c₀, hc₀, hcont⟩ := hcalm.candidates.back hc
    have hw₀ : c₀.workRef = some task := hcont.workRef.symm.trans hw
    have hkind := (hs.candidates id c₀ hc₀).linked (by rw [hw₀]; rfl)
    exact ⟨c₀, hc₀, hw₀, (hcont.scope (hs.followUp_scope hc₀ hkind)).symm⟩
  | reserves id' revision now c' r _ _ row _ _ _ hreserves =>
    obtain ⟨c₀, hc₀, hcont⟩ := (moves_reserves hs row hreserves).candidates.back hc
    have hw₀ : c₀.workRef = some task := hcont.workRef.symm.trans hw
    have hkind := (hs.candidates id c₀ hc₀).linked (by rw [hw₀]; rfl)
    exact ⟨c₀, hc₀, hw₀, (hcont.scope (hs.followUp_scope hc₀ hkind)).symm⟩
  | erases _ scope member _ herased =>
    rw [herased] at hc
    exact ⟨c, (filter_eq_some.mp hc).1, hw, rfl⟩
  | prunes _ now hpruned =>
    obtain ⟨contact, community, pruned, heq⟩ := pruneErasureSafety_eq s now
    rw [hpruned, heq] at hc
    exact ⟨c, hc, hw, rfl⟩
  | configures _ settings _ hset =>
    rw [hset] at hc
    exact ⟨c, hc, hw, rfl⟩

/-! ### Every run -/

/-- What a history created is without repetition and remembered, and there are no other
follow-ups. -/
structure FollowedUp (K : Crates) (h : History) (s : EngagementStore) : Prop where
  tasks : ((createdFollowUps h).map Prod.fst).Nodup
  sources : ((createdFollowUps h).map Prod.snd).Nodup
  candidates : ∀ (id : ℕ) (c : Candidate) (task : WorkContentRef), s.candidates[id]? = some c →
    c.workRef = some task → (c.scope.workScope, task) ∈ (createdFollowUps h).map Prod.fst
  remembered : ∀ created ∈ createdFollowUps h,
    s.TaskFollowUpAttempted K created.1.1 created.1.2 ∧ s.SourceRemembered K created.2

theorem followedUp_of_reaches {h : History} (hr : Reaches K h s) : FollowedUp K h s := by
  induction hr with
  | nil =>
    exact ⟨List.nodup_nil, List.nodup_nil, fun id c task hc => by simp [EngagementStore.empty] at hc,
      fun created hcreated => by cases hcreated⟩
  | @cons h s op hr ih =>
    have hs := core_of_reaches hr
    have hrem := (step_effect K hs op).remembers hs
    have hkept : ∀ created ∈ createdFollowUps h,
        (step K s op).2.TaskFollowUpAttempted K created.1.1 created.1.2 ∧
          (step K s op).2.SourceRemembered K created.2 := fun created hc =>
      ⟨hrem.task hs (ih.remembered created hc).1, hrem.source hs (ih.remembered created hc).2⟩
    cases hcreated : createdFollowUp op (step K s op).1 with
    | none =>
      have hsame : createdFollowUps (event (step K) s op :: h) = createdFollowUps h := by
        unfold createdFollowUps event
        rw [List.filterMap_cons, hcreated]
      refine ⟨hsame ▸ ih.tasks, hsame ▸ ih.sources, fun id c task hc hw => ?_, hsame ▸ hkept⟩
      obtain ⟨c₀, hc₀, hw₀, hscope⟩ := uncreated_spec hs hcreated hc hw
      rw [hsame, ← hscope]
      exact ih.candidates id c₀ task hc₀ hw₀
    | some created =>
      have hsame : createdFollowUps (event (step K) s op :: h) = created :: createdFollowUps h := by
        unfold createdFollowUps event
        rw [List.filterMap_cons, hcreated]
      obtain ⟨htask, hsource, htask', hsource', hrows⟩ := created_spec hcreated
      refine ⟨?_, ?_, fun id c task hc hw => ?_, fun c hc => ?_⟩
      · rw [hsame, List.map_cons, List.nodup_cons]
        refine ⟨fun hmem => ?_, ih.tasks⟩
        obtain ⟨old, hold, heq⟩ := List.mem_map.mp hmem
        exact htask (heq ▸ (ih.remembered old hold).1)
      · rw [hsame, List.map_cons, List.nodup_cons]
        refine ⟨fun hmem => ?_, ih.sources⟩
        obtain ⟨old, hold, heq⟩ := List.mem_map.mp hmem
        exact hsource (heq ▸ (ih.remembered old hold).2)
      · rw [hsame, List.map_cons]
        rcases hrows id c task hc hw with hold | heq
        · exact List.mem_cons_of_mem _ (ih.candidates id c task hold hw)
        · exact heq ▸ List.mem_cons_self
      · rw [hsame] at hc
        rcases List.mem_cons.mp hc with rfl | hc
        · exact ⟨htask', hsource'⟩
        · exact hkept c hc

/-- **Uniqueness of follow-ups**: in every run, at most one follow-up is created for a task in its
revision, and at most one for a message and a member; every follow-up in the store is one of those
created. -/
theorem followUps_unique {h : History} (hr : Reaches K h s) :
    ((createdFollowUps h).map Prod.fst).Nodup ∧ ((createdFollowUps h).map Prod.snd).Nodup ∧
      ∀ (id : ℕ) (c : Candidate) (task : WorkContentRef), s.candidates[id]? = some c →
        c.workRef = some task →
          (c.scope.workScope, task) ∈ (createdFollowUps h).map Prod.fst :=
  let hf := followedUp_of_reaches hr
  ⟨hf.tasks, hf.sources, hf.candidates⟩

/-- The member 7 may be followed up on a message in the channel 2 of the guild 1. -/
def followUpSource : SourceRef := ⟨.guild 1 2, 5, 7, 1, 1700000000⟩

def followUpSettings : Settings where
  communityCursor := none
  feedback := ∅
  memberPolicies := ∅
  weeklyAssessments := ∅
  responses := ∅
  observations := ∅
  eligibility := (∅ : BTreeMap ℕ (BTreeSet SourceRef)).insert 7 {followUpSource}
  guildFeatures := ∅

/-- The member asks for a follow-up of the task 3 within two days. -/
def followUpIntent : FollowUpIntent :=
  ⟨.team 1 2, .task 1 3 0, .teamChannel 2, 1700172800⟩

/-- A follow-up is proposed, proposed again, erased with all that is known of the member, and
proposed once more. -/
def followUpOps : List Op :=
  [.configure followUpSettings,
    .proposeLinkedTaskFollowUp followUpIntent followUpSource 7 1700086400 1700000060,
    .proposeLinkedTaskFollowUp followUpIntent followUpSource 7 1700086400 1700000120,
    .eraseLearning "discord:1" (some 7),
    .configure followUpSettings,
    .proposeLinkedTaskFollowUp followUpIntent followUpSource 7 1700086400 1700000180]

theorem task_followed_up_once :
    createdFollowUps (play (step plainCrates) EngagementStore.empty followUpOps).1 =
        [((.team 1 2, .task 1 3 0), (.guild 1 2, 5, 7))] ∧
      ((createdFollowUps (play (step plainCrates) EngagementStore.empty followUpOps).1).map
        Prod.fst).Nodup :=
  ⟨by decide +kernel, (followUps_unique (run_play _ followUpOps)).1⟩

end AbbeyBot.Engagement
