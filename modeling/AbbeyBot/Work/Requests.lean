import Mathlib
import AbbeyBot.Library.Text
import AbbeyBot.Work.Operations

/-! # Requests

A record is created once for each request. The key of a request joins parts that the caller chooses,
and the last of them is any text: two keys are the same only when the requests are. The ids come from
one sequence for all the tables. -/

namespace AbbeyBot.Work.Types

open AbbeyBot.Calendar AbbeyBot.Library.History AbbeyBot.Library.OrderedMap AbbeyBot.Library.Result
open AbbeyBot.Library.Text AbbeyBot.Library.Word

/-! ### The key of a request -/

/-- The records that are created in a project. -/
inductive RecordKind where
  | goal
  | task
  | decision
  deriving DecidableEq, Repr

def RecordKind.name : RecordKind → String
  | .goal => "goal"
  | .task => "task"
  | .decision => "decision"

/-- What is asked for: a project by an actor in a scope, or a record by an actor in a project. -/
inductive WorkRequest where
  | project (actor : ℕ) (guild : Option ℕ) (channel : ℕ) (requestId : String)
  | record (kind : RecordKind) (actor projectId : ℕ) (requestId : String)
  deriving DecidableEq, Repr

/-- The request that an operation makes. -/
def WorkOp.request : WorkOp → Option WorkRequest
  | .createProject access _ requestId =>
    if access.guild = some 0 then none
    else some (.project access.actor access.guild access.channel requestId)
  | .addGoal projectId access _ requestId => some (.record .goal access.actor projectId requestId)
  | .addTask access task requestId => some (.record .task access.actor task.projectId requestId)
  | .recordDecision projectId access _ _ requestId =>
    some (.record .decision access.actor projectId requestId)
  | _ => none

def WorkRequest.key : WorkRequest → String
  | .project actor guild channel requestId =>
    projectKey { actor := actor, guild := guild, channel := channel, canView := true,
                 canManage := true } requestId
  | .record kind actor projectId requestId => recordKey actor projectId kind.name requestId

/-- A request for a project names no guild zero. -/
def WorkRequest.Proper : WorkRequest → Prop
  | .project _ guild _ _ => guild ≠ some 0
  | .record .. => True

theorem WorkOp.key_eq (op : WorkOp) : op.key = op.request.map WorkRequest.key := by
  cases op with
  | createProject access name requestId =>
    unfold WorkOp.key WorkOp.request
    dsimp only
    split_ifs <;> rfl
  | _ => rfl

theorem WorkOp.proper_of_request {op : WorkOp} {r : WorkRequest} (h : op.request = some r) :
    r.Proper := by
  cases op with
  | createProject access name requestId =>
    unfold WorkOp.request at h
    dsimp only at h
    split_ifs at h with hguild
    cases h
    exact hguild
  | addGoal => cases h; exact trivial
  | addTask => cases h; exact trivial
  | recordDecision => cases h; exact trivial
  | _ => cases h

theorem creation_of_request {op : WorkOp} {r : WorkRequest} (h : op.request = some r) :
    op.Creation := by
  cases op with
  | createProject | addGoal | addTask | recordDecision => exact trivial
  | _ => cases h

theorem toList_projectKey (access : WorkAccess) (requestId : String) :
    (projectKey access requestId).toList = (toString access.actor).toList ++ ':' ::
      ((toString (access.guild.getD 0)).toList ++ ':' :: ((toString access.channel).toList ++ ':' ::
        ("project".toList ++ ':' :: requestId.toList))) := by
  simp [projectKey]

theorem toList_recordKey (actor projectId : ℕ) (record requestId : String) :
    (recordKey actor projectId record requestId).toList = (toString actor).toList ++ ':' ::
      ((toString projectId).toList ++ ':' :: (record.toList ++ ':' :: requestId.toList)) := by
  simp [recordKey]

theorem colon_not_mem (n : ℕ) : ':' ∉ (toString n).toList := not_mem_toString (by decide) n

theorem RecordKind.colon_not_mem (kind : RecordKind) : ':' ∉ kind.name.toList := by
  cases kind <;> decide

/-- The name of a kind is not a number. -/
theorem RecordKind.name_ne_toString (kind : RecordKind) (n : ℕ) :
    kind.name.toList ≠ (toString n).toList := by
  intro h
  have hletter : ∃ c ∈ kind.name.toList, c.isDigit = false := by
    cases kind with
    | goal => exact ⟨'g', by simp [RecordKind.name], rfl⟩
    | task => exact ⟨'t', by simp [RecordKind.name], rfl⟩
    | decision => exact ⟨'d', by simp [RecordKind.name], rfl⟩
  obtain ⟨c, hc, hdigit⟩ := hletter
  exact not_mem_toString hdigit n (h ▸ hc)

theorem RecordKind.name_injective {kind kind' : RecordKind} (h : kind.name.toList = kind'.name.toList) :
    kind = kind' := by
  cases kind <;> cases kind' <;> first | rfl | simp [RecordKind.name] at h

/-- **Keys are the same only when the requests are.** -/
theorem WorkRequest.key_injective {r r' : WorkRequest} (hr : r.Proper) (hr' : r'.Proper)
    (h : r.key = r'.key) : r = r' := by
  have hlist := congrArg String.toList h
  cases r with
  | project actor guild channel requestId =>
    cases r' with
    | project actor' guild' channel' requestId' =>
      unfold WorkRequest.key at hlist
      simp only [toList_projectKey, append_separator_inj, colon_not_mem, not_false_eq_true] at hlist
      obtain ⟨hactor, hguild, hchannel, hrequest⟩ := hlist
      have hproject : ':' ∉ "project".toList := by decide
      obtain ⟨-, hrequest⟩ := (append_separator_inj hproject hproject).mp hrequest
      have hzero : guild.getD 0 = guild'.getD 0 := toString_injective hguild
      have hsame : guild = guild' := by
        unfold WorkRequest.Proper at hr hr'
        cases guild <;> cases guild' <;> simp_all
      rw [toString_injective hactor, hsame, toString_injective hchannel, String.toList_inj.mp hrequest]
    | record kind actor' projectId requestId' =>
      unfold WorkRequest.key at hlist
      simp only [toList_projectKey, toList_recordKey, append_separator_inj, colon_not_mem,
        RecordKind.colon_not_mem, not_false_eq_true] at hlist
      exact absurd hlist.2.2.1.symm (kind.name_ne_toString channel)
  | record kind actor projectId requestId =>
    cases r' with
    | project actor' guild' channel' requestId' =>
      unfold WorkRequest.key at hlist
      simp only [toList_projectKey, toList_recordKey, append_separator_inj, colon_not_mem,
        RecordKind.colon_not_mem, not_false_eq_true] at hlist
      exact absurd hlist.2.2.1 (kind.name_ne_toString channel')
    | record kind' actor' projectId' requestId' =>
      unfold WorkRequest.key at hlist
      simp only [toList_recordKey, append_separator_inj, colon_not_mem, RecordKind.colon_not_mem,
        not_false_eq_true] at hlist
      obtain ⟨hactor, hproject, hkind, hrequest⟩ := hlist
      rw [toString_injective hactor, toString_injective hproject, RecordKind.name_injective hkind,
        String.toList_inj.mp hrequest]

theorem WorkOp.request_of_key {op op' : WorkOp} {key : String} (h : op.key = some key)
    (h' : op'.key = some key) : op.request = op'.request := by
  rw [WorkOp.key_eq, Option.map_eq_some_iff] at h h'
  obtain ⟨r, hr, hkey⟩ := h
  obtain ⟨r', hr', hkey'⟩ := h'
  rw [hr, hr', WorkRequest.key_injective (WorkOp.proper_of_request hr) (WorkOp.proper_of_request hr')
    (hkey.trans hkey'.symm)]

/-! ### One creation -/

variable {K : WorkCrates}

/-- The id is one of the table that the request is for. -/
def WorkStore.Holds (s : WorkStore) (id : ℕ) : WorkRequest → Prop
  | .project .. => id ∈ s.projects
  | .record .goal .. => id ∈ s.goals
  | .record .task .. => id ∈ s.tasks
  | .record .decision .. => id ∈ s.decisions

/-- An operation that ends in a creation fails, or is the creation. -/
theorem creation_cases {s : WorkStore} {r : Except WorkError (ℕ × WorkStore)} {key : String}
    (h : ∀ v, r = .ok v → ∃ write, s.once key write = .ok v) :
    (∃ e, numbered (commit s r) = (.error e, s)) ∨
      ∃ write, numbered (commit s r) = numbered (commit s (s.once key write)) := by
  cases r with
  | error e => exact .inl ⟨e, rfl⟩
  | ok v =>
    obtain ⟨write, hwrite⟩ := h v rfl
    exact .inr ⟨write, by rw [hwrite]⟩

/-- A creation fails, or it does once what its request asks for. -/
theorem step_of_key {op : WorkOp} {key : String} (hkey : op.key = some key) (s : WorkStore) :
    (∃ e, s.step K op = (.error e, s)) ∨
      ∃ write, s.step K op = numbered (commit s (s.once key write)) := by
  cases op with
  | createProject access name requestId =>
    unfold WorkOp.key at hkey
    dsimp only at hkey
    split_ifs at hkey
    cases hkey
    refine creation_cases fun v h => ?_
    simp only [WorkStore.createProject, bind_eq_ok, ensure_eq_ok, exists_unit] at h
    exact ⟨_, h.2.2.2⟩
  | addGoal projectId access title requestId =>
    cases hkey
    refine creation_cases fun v h => ?_
    simp only [WorkStore.addGoal, bind_eq_ok, ensure_eq_ok, exists_unit] at h
    obtain ⟨-, -, -, -, h⟩ := h
    exact ⟨_, h⟩
  | addTask access task requestId =>
    cases hkey
    refine creation_cases fun v h => ?_
    simp only [WorkStore.addTask, bind_eq_ok, ensure_eq_ok, exists_unit] at h
    obtain ⟨-, -, -, -, h⟩ := h
    exact ⟨_, h⟩
  | recordDecision projectId access text at_ requestId =>
    cases hkey
    refine creation_cases fun v h => ?_
    simp only [WorkStore.recordDecision, bind_eq_ok, ensure_eq_ok, exists_unit] at h
    obtain ⟨-, -, -, -, h⟩ := h
    exact ⟨_, h⟩
  | _ => cases hkey

theorem once_of_known {s : WorkStore} {key : String} {id : ℕ} (h : s.requestIds[key]? = some id)
    (write : ℕ → WorkStore → WorkStore) : s.once key write = .ok (id, s) := by
  unfold WorkStore.once
  rw [h]
  rfl

/-- An answer is recorded under the key. -/
theorem recorded_of_step {op : WorkOp} {key : String} {s : WorkStore} {id : ℕ}
    (hkey : op.key = some key) (h : (s.step K op).1 = .ok (some id)) :
    (s.step K op).2.requestIds[key]? = some id := by
  rcases step_of_key (K := K) hkey s with ⟨e, he⟩ | ⟨write, hwrite⟩
  · rw [he] at h
    cases h
  · rw [hwrite] at h ⊢
    cases honce : s.once key write with
    | error e =>
      rw [honce] at h
      cases h
    | ok v =>
      obtain ⟨id', s'⟩ := v
      rw [honce] at h
      cases h
      rcases once_ok honce with ⟨hknown, rfl⟩ | ⟨-, -, rfl, rfl⟩
      · exact hknown
      · show (s.requestIds.insert key (s.sequence + 1))[key]? = some (s.sequence + 1)
        rw [getElem?_insert, if_pos rfl]

/-- A request that has an answer writes nothing. -/
theorem step_of_known {op : WorkOp} {key : String} {s : WorkStore} {id : ℕ}
    (hkey : op.key = some key) (hknown : s.requestIds[key]? = some id) :
    s.step K op = (.ok (some id), s) ∨ ∃ e, s.step K op = (.error e, s) := by
  rcases step_of_key (K := K) hkey s with he | ⟨write, hwrite⟩
  · exact .inr he
  · rw [hwrite, once_of_known hknown]
    exact .inl rfl

/-! ### What stays -/

/-- Nothing goes out of the tables, and no answer is forgotten. -/
structure WorkStore.Grows (s s' : WorkStore) : Prop where
  projects : ∀ id, id ∈ s.projects → id ∈ s'.projects
  goals : ∀ id, id ∈ s.goals → id ∈ s'.goals
  tasks : ∀ id, id ∈ s.tasks → id ∈ s'.tasks
  decisions : ∀ id, id ∈ s.decisions → id ∈ s'.decisions
  answers : ∀ (key : String) (id : ℕ), s.requestIds[key]? = some id → s'.requestIds[key]? = some id
  sequence : s.sequence ≤ s'.sequence

theorem WorkStore.Holds.grows {s s' : WorkStore} {id : ℕ} {r : WorkRequest} (h : s.Holds id r)
    (hgrows : s.Grows s') : s'.Holds id r := by
  cases r with
  | project => exact hgrows.projects id h
  | record kind =>
    cases kind with
    | goal => exact hgrows.goals id h
    | task => exact hgrows.tasks id h
    | decision => exact hgrows.decisions id h

theorem grows_of_creates {op : WorkOp} {s s' : WorkStore} {key : String}
    (hnew : s.requestIds[key]? = none) (h : op.Creates s (s.sequence + 1) s') :
    s.Grows { s' with requestIds := s.requestIds.insert key (s.sequence + 1) } := by
  have hanswers : ∀ (key' : String) (id : ℕ), s.requestIds[key']? = some id →
      (s.requestIds.insert key (s.sequence + 1))[key']? = some id := fun key' id hid => by
    rw [getElem?_insert, if_neg, hid]
    rintro rfl
    rw [hnew] at hid
    cases hid
  cases h with
  | project p =>
    exact ⟨fun id h => mem_insert_iff.mpr (.inr h), fun _ h => h, fun _ h => h, fun _ h => h, hanswers,
      Nat.le_succ _⟩
  | goal g =>
    exact ⟨fun _ h => h, fun id h => mem_insert_iff.mpr (.inr h), fun _ h => h, fun _ h => h, hanswers,
      Nat.le_succ _⟩
  | task t =>
    exact ⟨fun _ h => h, fun _ h => h, fun id h => mem_insert_iff.mpr (.inr h), fun _ h => h, hanswers,
      Nat.le_succ _⟩
  | decision d =>
    exact ⟨fun _ h => h, fun _ h => h, fun _ h => h, fun id h => mem_insert_iff.mpr (.inr h), hanswers,
      Nat.le_succ _⟩

theorem grows_of_moves {op : WorkOp} {s s' : WorkStore} (h : s.Moves K op s') : s.Grows s' := by
  cases h with
  | settings h =>
    obtain ⟨hsequence, hprojects, hgoals, htasks, hdecisions, -, hrequests⟩ := h
    exact ⟨fun id h => hprojects ▸ h, fun id h => hgoals ▸ h, fun id h => htasks ▸ h,
      fun id h => hdecisions ▸ h, fun key id h => hrequests ▸ h, hsequence.ge⟩
  | project hop hp h =>
    exact ⟨fun id h => (mem_insert_of_some hp).mpr h, fun _ h => h, fun _ h => h, fun _ h => h,
      fun _ _ h => h, le_rfl⟩
  | tasks h =>
    exact ⟨fun _ h => h, fun _ h => h, fun id h' => h.mem_iff.mpr h', fun _ h => h, fun _ _ h => h,
      le_rfl⟩
  | receipts h => exact ⟨fun _ h => h, fun _ h => h, fun _ h => h, fun _ h => h, fun _ _ h => h, le_rfl⟩
  | create hkey hnew hmax h => exact grows_of_creates hnew h
  | reserve =>
    exact ⟨fun _ h => h, fun _ h => h, fun _ h => h, fun _ h => h, fun _ _ h => h, Nat.le_succ _⟩

/-! ### What is recorded along a run -/

/-- The answers are ids of the tables that were asked for, each of one request. -/
structure WorkStore.Recorded (s : WorkStore) : Prop where
  numbered : s.Numbered
  holds : ∀ (r : WorkRequest) (id : ℕ), r.Proper → s.requestIds[r.key]? = some id → s.Holds id r
  apart : ∀ (key key' : String) (id : ℕ), s.requestIds[key]? = some id →
    s.requestIds[key']? = some id → key = key'
  used : ∀ (key : String) (id : ℕ), s.requestIds[key]? = some id → id ≤ s.sequence

theorem recorded_empty : WorkStore.empty.Recorded where
  numbered := numbered_empty
  holds r id hr h := by simp [WorkStore.empty] at h
  apart key key' id h := by simp [WorkStore.empty] at h
  used key id h := by simp [WorkStore.empty] at h

/-- Where no answer comes, what is recorded stays recorded. -/
theorem recorded_of_same {s s' : WorkStore} (hs : s.Recorded) (hnumbered : s'.Numbered)
    (hgrows : s.Grows s') (hsame : s'.requestIds = s.requestIds) : s'.Recorded where
  numbered := hnumbered
  holds r id hr h := (hs.holds r id hr (hsame ▸ h)).grows hgrows
  apart key key' id h h' := hs.apart key key' id (hsame ▸ h) (hsame ▸ h')
  used key id h := (hs.used key id (hsame ▸ h)).trans hgrows.sequence

/-- A new record is in the table of its request. -/
theorem holds_of_creates {op : WorkOp} {s s' : WorkStore} {id : ℕ} {r : WorkRequest}
    (hr : op.request = some r) (h : op.Creates s id s') : s'.Holds id r := by
  cases h with
  | project p access name requestId hop hid =>
    subst hop
    unfold WorkOp.request at hr
    dsimp only at hr
    split_ifs at hr
    cases hr
    exact mem_insert_iff.mpr (.inl rfl)
  | goal g projectId access title requestId hop hid =>
    subst hop
    cases hr
    exact mem_insert_iff.mpr (.inl rfl)
  | task t access given requestId hop hid =>
    subst hop
    cases hr
    exact mem_insert_iff.mpr (.inl rfl)
  | decision d projectId access text at_ requestId hop hid =>
    subst hop
    cases hr
    exact mem_insert_iff.mpr (.inl rfl)

theorem recorded_of_moves {op : WorkOp} {s s' : WorkStore} (hs : s.Recorded) (h : s.Moves K op s') :
    s'.Recorded := by
  have hnumbered := numbered_of_moves hs.numbered h
  have hgrows := grows_of_moves h
  cases h with
  | settings h => exact recorded_of_same hs hnumbered hgrows h.requestIds
  | project hop hp h => exact recorded_of_same hs hnumbered hgrows rfl
  | tasks h => exact recorded_of_same hs hnumbered hgrows rfl
  | receipts h => exact recorded_of_same hs hnumbered hgrows rfl
  | reserve => exact recorded_of_same hs hnumbered hgrows rfl
  | @create key s' hkey hnew hmax h =>
    rw [WorkOp.key_eq, Option.map_eq_some_iff] at hkey
    obtain ⟨r₀, hr₀, rfl⟩ := hkey
    -- an answer is the new one, or it was recorded before
    have hlookup : ∀ (key : String) (id : ℕ),
        (s.requestIds.insert r₀.key (s.sequence + 1))[key]? = some id →
        (key = r₀.key ∧ id = s.sequence + 1) ∨ s.requestIds[key]? = some id := fun key id h => by
      rw [getElem?_insert] at h
      split_ifs at h with heq
      · exact .inl ⟨heq.symm, (Option.some.inj h).symm⟩
      · exact .inr h
    refine ⟨hnumbered, fun r id hr hid => ?_, fun key key' id hid hid' => ?_, fun key id hid => ?_⟩
    · rcases hlookup _ _ hid with ⟨hkey, rfl⟩ | hid
      · rw [WorkRequest.key_injective hr (WorkOp.proper_of_request hr₀) hkey]
        have hholds := holds_of_creates hr₀ h
        cases r₀ with
        | project => exact hholds
        | record kind => cases kind <;> exact hholds
      · exact (hs.holds r id hr hid).grows hgrows
    · rcases hlookup _ _ hid with ⟨rfl, rfl⟩ | hid
      · rcases hlookup _ _ hid' with ⟨rfl, -⟩ | hid'
        · rfl
        · have := hs.used _ _ hid'
          omega
      · rcases hlookup _ _ hid' with ⟨rfl, rfl⟩ | hid'
        · have := hs.used _ _ hid
          omega
        · exact hs.apart key key' id hid hid'
    · rcases hlookup _ _ hid with ⟨-, rfl⟩ | hid
      · cases h <;> exact le_rfl
      · exact (hs.used key id hid).trans hgrows.sequence

theorem recorded_step {s : WorkStore} (hs : s.Recorded) (op : WorkOp) : (s.step K op).2.Recorded :=
  recorded_of_moves hs (step_moves hs.numbered op)

/-- An answer that was given is recorded at the end of the run. -/
theorem answer_along_run {h : WorkHistory} {s : WorkStore}
    (hrun : Run (WorkStore.step K) .empty h s) {h₁ h₂ : WorkHistory}
    {e : Event WorkStore WorkOp (Except WorkError (Option ℕ))} (hh : h = h₁ ++ e :: h₂)
    {key : String} {id : ℕ} (hkey : e.op.key = some key) (hout : e.out = .ok (some id)) :
    s.requestIds[key]? = some id := by
  subst hh
  have he := hrun.event_eq (List.mem_append_right _ List.mem_cons_self)
  have hbefore : e.before.Recorded :=
    hrun.earlier.invariant recorded_empty fun _ op hs => recorded_step hs op
  have hafter : e.after.Recorded ∧ e.after.requestIds[key]? = some id := by
    rw [he] at hout ⊢
    exact ⟨recorded_step hbefore _, recorded_of_step hkey hout⟩
  refine (hrun.later.invariant (I := fun s => s.Recorded ∧ s.requestIds[key]? = some id) hafter
    fun s op hs => ?_).2
  exact ⟨recorded_step hs.1 op, (grows_of_moves (step_moves hs.1.numbered op)).answers key id hs.2⟩

/-! ### The same call again -/

/-- The projects and the goals are as they were. -/
structure WorkStore.Keeps (s s' : WorkStore) : Prop where
  projects : ∀ (id : ℕ) (p : WorkProject), s.projects[id]? = some p → s'.projects[id]? = some p
  goals : ∀ (id : ℕ) (g : WorkGoal), s.goals[id]? = some g → s'.goals[id]? = some g

theorem taskFits_of_keeps {s s' : WorkStore} (h : s.Keeps s') {p : WorkProject} {t : WorkTask}
    (hfits : s.TaskFits p t) : s'.TaskFits p t := by
  obtain ⟨hpriority, hgithub, hassignee, hgoal, hsource⟩ := hfits
  refine ⟨hpriority, hgithub, hassignee, fun id hid => ?_, hsource⟩
  obtain ⟨g, hg, hproject⟩ := hgoal id hid
  exact ⟨g, h.goals id g hg, hproject⟩

/-- A creation that was accepted is accepted again, as long as the projects and goals are there. -/
theorem step_again {op : WorkOp} {key : String} {s s' : WorkStore} {id : ℕ}
    (hkey : op.key = some key) (hout : (s.step K op).1 = .ok (some id)) (hkeeps : s.Keeps s')
    (hknown : s'.requestIds[key]? = some id) : s'.step K op = (.ok (some id), s') := by
  have hok : ∀ {r : Except WorkError (ℕ × WorkStore)}, (numbered (commit s r)).1 = .ok (some id) →
      ∃ s₁, r = .ok (id, s₁) := fun {r} h => by
    rcases r with e | ⟨id', s₁⟩
    · cases h
    · cases h
      exact ⟨s₁, rfl⟩
  cases op with
  | createProject access name requestId =>
    unfold WorkOp.key at hkey
    dsimp only at hkey
    split_ifs at hkey
    cases hkey
    obtain ⟨s₁, h⟩ := hok hout
    simp only [WorkStore.createProject, bind_eq_ok, ensure_eq_ok, exists_unit] at h
    obtain ⟨hname, hvalid, hmanage, -⟩ := h
    have hagain : s'.createProject access name requestId = .ok (id, s') := by
      simp only [WorkStore.createProject, bind_eq_ok, ensure_eq_ok, exists_unit]
      exact ⟨hname, hvalid, hmanage, once_of_known hknown _⟩
    unfold WorkStore.step
    dsimp only
    rw [hagain]
    rfl
  | addGoal projectId access title requestId =>
    cases hkey
    obtain ⟨s₁, h⟩ := hok hout
    simp only [WorkStore.addGoal, bind_eq_ok, ensure_eq_ok, exists_unit, project_eq_ok] at h
    obtain ⟨p, ⟨hp, hauth⟩, htitle, hrequest, -⟩ := h
    have hagain : s'.addGoal projectId access title requestId = .ok (id, s') := by
      simp only [WorkStore.addGoal, bind_eq_ok, ensure_eq_ok, exists_unit, project_eq_ok]
      exact ⟨p, ⟨hkeeps.projects _ p hp, hauth⟩, htitle, hrequest, once_of_known hknown _⟩
    unfold WorkStore.step
    dsimp only
    rw [hagain]
    rfl
  | addTask access task requestId =>
    cases hkey
    obtain ⟨s₁, h⟩ := hok hout
    simp only [WorkStore.addTask, bind_eq_ok, ensure_eq_ok, exists_unit, project_eq_ok] at h
    obtain ⟨p, ⟨hp, hauth⟩, htitle, ⟨hfits, hrequest⟩, -⟩ := h
    have hagain : s'.addTask access task requestId = .ok (id, s') := by
      simp only [WorkStore.addTask, bind_eq_ok, ensure_eq_ok, exists_unit, project_eq_ok]
      exact ⟨p, ⟨hkeeps.projects _ p hp, hauth⟩, htitle, ⟨taskFits_of_keeps hkeeps hfits, hrequest⟩,
        once_of_known hknown _⟩
    unfold WorkStore.step
    dsimp only
    rw [hagain]
    rfl
  | recordDecision projectId access text at_ requestId =>
    cases hkey
    obtain ⟨s₁, h⟩ := hok hout
    simp only [WorkStore.recordDecision, bind_eq_ok, ensure_eq_ok, exists_unit, project_eq_ok] at h
    obtain ⟨p, ⟨hp, hauth⟩, htext, hrequest, -⟩ := h
    have hagain : s'.recordDecision projectId access text at_ requestId = .ok (id, s') := by
      simp only [WorkStore.recordDecision, bind_eq_ok, ensure_eq_ok, exists_unit, project_eq_ok]
      exact ⟨p, ⟨hkeeps.projects _ p hp, hauth⟩, htext, hrequest, once_of_known hknown _⟩
    unfold WorkStore.step
    dsimp only
    rw [hagain]
    rfl
  | _ => cases hkey

/-- A creation writes no project and no goal but its own. -/
theorem keeps_of_creation {op : WorkOp} (hop : op.Creation) {s s' : WorkStore} (hs : s.Numbered)
    (h : s.Moves K op s') : s.Keeps s' := by
  have hself : s.Keeps s := ⟨fun _ _ h => h, fun _ _ h => h⟩
  have hnew := uses_next hs
  unfold WorkStore.uses at hnew
  cases h with
  | settings h =>
    obtain ⟨-, hprojects, hgoals, -⟩ := h
    exact ⟨fun id p hp => hprojects ▸ hp, fun id g hg => hgoals ▸ hg⟩
  | project hop' => exact absurd hop hop'
  | tasks => exact ⟨hself.projects, hself.goals⟩
  | receipts => exact ⟨hself.projects, hself.goals⟩
  | reserve => exact ⟨hself.projects, hself.goals⟩
  | create hkey hnone hmax h =>
    have hother : ∀ {β : Type} {m : BTreeMap ℕ β} {v w : β} {id : ℕ}, s.sequence + 1 ∉ m →
        m[id]? = some w → (m.insert (s.sequence + 1) v)[id]? = some w := fun {β m v w id} hm hw => by
      rw [getElem?_insert, if_neg, hw]
      rintro rfl
      exact hm (mem_iff.mpr ⟨w, hw⟩)
    cases h with
    | project p =>
      have hp : s.sequence + 1 ∉ s.projects := fun hmem => by
        rw [if_pos hmem] at hnew
        omega
      exact ⟨fun id q hq => hother hp hq, hself.goals⟩
    | goal g =>
      have hg : s.sequence + 1 ∉ s.goals := fun hmem => by
        rw [if_pos hmem] at hnew
        omega
      exact ⟨hself.projects, fun id q hq => hother hg hq⟩
    | task => exact ⟨hself.projects, hself.goals⟩
    | decision => exact ⟨hself.projects, hself.goals⟩

theorem WorkStore.Keeps.trans {s s' s'' : WorkStore} (h : s.Keeps s') (h' : s'.Keeps s'') :
    s.Keeps s'' :=
  ⟨fun id p hp => h'.projects id p (h.projects id p hp), fun id g hg => h'.goals id g (h.goals id g hg)⟩

/-- Creations, one after the other, keep the projects and the goals. -/
theorem keeps_along_run {h : WorkHistory} {s₀ s : WorkStore} (hs₀ : s₀.Recorded)
    (hrun : Run (WorkStore.step K) s₀ h s) (hcreations : ∀ e ∈ h, e.op.Creation) :
    s₀.Keeps s ∧ s.Recorded := by
  induction hrun with
  | nil => exact ⟨⟨fun _ _ h => h, fun _ _ h => h⟩, hs₀⟩
  | @cons h s op hrun ih =>
    obtain ⟨hkeeps, hs⟩ := ih fun e he => hcreations e (List.mem_cons_of_mem _ he)
    have hop : op.Creation := hcreations (event (WorkStore.step K) s op) List.mem_cons_self
    exact ⟨hkeeps.trans (keeps_of_creation hop hs.numbered (step_moves hs.numbered op)),
      recorded_step hs op⟩

/-- A number of a record is in one table. -/
theorem uses_of_holds {s : WorkStore} (hs : s.Numbered) {id : ℕ} {r : WorkRequest}
    (h : s.Holds id r) : s.uses id = 1 := by
  have hone := hs.apart id
  unfold WorkStore.uses at hone ⊢
  cases r with
  | project =>
    rw [if_pos (show id ∈ s.projects from h)] at hone ⊢
    omega
  | record kind =>
    cases kind with
    | goal =>
      rw [if_pos (show id ∈ s.goals from h)] at hone ⊢
      omega
    | task =>
      rw [if_pos (show id ∈ s.tasks from h)] at hone ⊢
      omega
    | decision =>
      rw [if_pos (show id ∈ s.decisions from h)] at hone ⊢
      omega

/-- **Creations happen once.** Two operations have one key only if they make the same request. What an
answered request asks for again, whoever else has been at work, writes nothing and is answered with the
same id or refused; it is not refused to the same call while there are only creations. The id is in the
table of its record and in no other, and two requests never have one id. -/
theorem creations_once {h : WorkHistory} {s : WorkStore}
    (hrun : Run (WorkStore.step K) .empty h s) :
    (∀ op op' : WorkOp, op.key ≠ none → op.key = op'.key → op.request = op'.request) ∧
    (∀ (h₁ h₂ : WorkHistory) (e : Event WorkStore WorkOp (Except WorkError (Option ℕ)))
      (r : WorkRequest) (id : ℕ), h = h₁ ++ e :: h₂ → e.op.request = some r →
      e.out = .ok (some id) →
      (∀ op : WorkOp, op.request = some r →
        s.step K op = (.ok (some id), s) ∨ ∃ error, s.step K op = (.error error, s)) ∧
      ((∀ e' ∈ h₁, e'.op.Creation) → s.step K e.op = (.ok (some id), s)) ∧
      s.Holds id r ∧ s.uses id = 1) ∧
    ∀ e ∈ h, ∀ e' ∈ h, ∀ (r r' : WorkRequest) (id : ℕ), e.op.request = some r →
      e'.op.request = some r' → e.out = .ok (some id) → e'.out = .ok (some id) → r = r' := by
  have hs : s.Recorded := hrun.invariant recorded_empty fun _ op hs => recorded_step hs op
  refine ⟨fun op op' hne hkey => ?_, fun h₁ h₂ e r id hh hr hout => ?_,
    fun e he e' he' r r' id hr hr' hout hout' => ?_⟩
  · obtain ⟨key, hop⟩ := Option.ne_none_iff_exists'.mp hne
    exact WorkOp.request_of_key hop (hkey.symm.trans hop)
  · have hkey : e.op.key = some r.key := by rw [WorkOp.key_eq, hr]; rfl
    have hknown := answer_along_run hrun hh hkey hout
    have hholds := hs.holds r id (WorkOp.proper_of_request hr) hknown
    refine ⟨fun op hop => ?_, fun hcreations => ?_, hholds, uses_of_holds hs.numbered hholds⟩
    · have hkey' : op.key = some r.key := by rw [WorkOp.key_eq, hop]; rfl
      exact step_of_known hkey' hknown
    · subst hh
      have he := hrun.event_eq (List.mem_append_right _ List.mem_cons_self)
      have hbefore : e.before.Recorded :=
        hrun.earlier.invariant recorded_empty fun _ op hs => recorded_step hs op
      rw [he] at hout
      refine step_again hkey hout ?_ hknown
      have hfirst : e.before.Keeps e.after := by
        rw [he]
        exact keeps_of_creation (creation_of_request hr) hbefore.numbered
          (step_moves hbefore.numbered e.op)
      have hafter : e.after.Recorded := by
        rw [he]
        exact recorded_step hbefore e.op
      exact hfirst.trans (keeps_along_run hafter hrun.later hcreations).1
  · obtain ⟨h₁, h₂, hh⟩ := List.append_of_mem he
    obtain ⟨h₁', h₂', hh'⟩ := List.append_of_mem he'
    have hkey : e.op.key = some r.key := by rw [WorkOp.key_eq, hr]; rfl
    have hkey' : e'.op.key = some r'.key := by rw [WorkOp.key_eq, hr']; rfl
    have hsame := hs.apart _ _ id (answer_along_run hrun hh hkey hout)
      (answer_along_run hrun hh' hkey' hout')
    exact WorkRequest.key_injective (WorkOp.proper_of_request hr) (WorkOp.proper_of_request hr') hsame

/-! ### A run -/

def sampleCrates : WorkCrates where
  toZones := utcZones
  sha256 _ := ⟨List.replicate 32 0, by decide⟩
  json _ := ""

def sampleAccess : WorkAccess where
  actor := 1
  guild := none
  channel := 5
  canView := true
  canManage := true

def sampleGoal : WorkOp := .addGoal 1 sampleAccess "Ship" "1:task:a"

def sampleCreations : List WorkOp :=
  [.createProject sampleAccess "Plan" "a", sampleGoal, .createProject sampleAccess "Plan" "b"]

def sampleHistory : WorkHistory := (play (WorkStore.step sampleCrates) .empty sampleCreations).1

def sampleStore : WorkStore := (play (WorkStore.step sampleCrates) .empty sampleCreations).2

/-- The goal is the second record, and asking for it again gives its number. -/
theorem sampleGoal_again : sampleStore.step sampleCrates sampleGoal = (.ok (some 2), sampleStore) := by
  have hrun : Run (WorkStore.step sampleCrates) .empty sampleHistory sampleStore := run_play _ _
  refine ((creations_once hrun).2.1 (sampleHistory.take 1) (sampleHistory.drop 2)
    (sampleHistory.get ⟨1, by decide⟩) (.record .goal 1 1 "1:task:a") 2 rfl rfl ?_).2.1 ?_
  · rfl
  · intro e' he'
    rw [List.mem_singleton.mp he']
    exact trivial

end AbbeyBot.Work.Types
