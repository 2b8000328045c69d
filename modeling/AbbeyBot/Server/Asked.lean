import Mathlib
import AbbeyBot.Server.Engine

/-! # What a run asks for

A name stands for what was created under it last, or else for the one thing that has it in the
snapshot. The index of a run finds just that: every operation the writer is asked for says what its
change says, of the ids that the names of the change stand for when it is asked. -/

namespace AbbeyBot.Server

open AbbeyBot.Library.OrderedMap

/-! ### The names of a change -/

namespace Change

/-- The change creates the role of the name. -/
def createsRole (name : String) : Change → Bool
  | .createRole created _ => created = name
  | _ => false

def createsCategory (name : String) : Change → Bool
  | .createCategory created _ => categoryKey created = categoryKey name
  | _ => false

def createsChannel (lower : String → String) (name : String) (kind : ChannelKind) : Change → Bool
  | .createChannel created kind' .. =>
    kind' = kind ∧ planChannelKey lower created kind' = planChannelKey lower name kind
  | _ => false

/-- The roles that a change names. -/
def roleNames : Change → List String
  | .editRole name .. => [name]
  | change => change.overwrites.map Overwrite.role

def categoryNames : Change → List String
  | .createChannel _ _ category .. | .editChannel _ _ category _ => [category]
  | .setOverwrite (.category name) _ => [name]
  | _ => []

def channelNames : Change → List (String × ChannelKind)
  | .editChannel name kind .. => [(name, kind)]
  | .setOverwrite (.channel name kind) _ => [(name, kind)]
  | _ => []

end Change

/-- The changes of a run that created something, with the ids the writer gave. -/
abbrev History := List (Change × ℕ)

namespace History

/-- What the writer has answered to changes that were applied. -/
def ofAnswers (applied : List Change) (asked : List (Op × Except String (Option ℕ))) : History :=
  (applied.zip asked).filterMap fun row => (row.2.2.toOption.join).map (row.1, ·)

@[simp] theorem ofAnswers_nil (asked : List (Op × Except String (Option ℕ))) :
    ofAnswers [] asked = [] := rfl

@[simp] theorem ofAnswers_cons (change : Change) (applied : List Change) (op : Op)
    (created : Option ℕ) (asked : List (Op × Except String (Option ℕ))) :
    ofAnswers (change :: applied) ((op, .ok created) :: asked) =
      (created.map (change, ·)).toList ++ ofAnswers applied asked := by
  cases created <;> rfl

def latest (history : History) (creates : Change → Bool) : Option ℕ :=
  (history.reverse.find? fun row => creates row.1).map Prod.snd

@[simp] theorem latest_nil (creates : Change → Bool) : latest [] creates = none := rfl

theorem latest_append (history : History) (creates : Change → Bool) (change : Change) (id : ℕ) :
    (history ++ [(change, id)]).latest creates =
      if creates change then some id else history.latest creates := by
  rw [latest, List.reverse_append, List.reverse_singleton, List.singleton_append]
  by_cases hcreates : creates change = true
  · rw [List.find?_cons_of_pos (by exact hcreates), if_pos hcreates, Option.map_some]
  · rw [List.find?_cons_of_neg (by exact hcreates), if_neg hcreates, latest]

theorem exists_of_latest {history : History} {creates : Change → Bool} {id : ℕ}
    (h : history.latest creates = some id) :
    ∃ change, (change, id) ∈ history ∧ creates change = true := by
  obtain ⟨row, hfind, rfl⟩ := Option.map_eq_some_iff.mp h
  exact ⟨row.1, List.mem_reverse.mp (List.mem_of_find?_eq_some hfind),
    List.find?_some (p := fun row : Change × ℕ => creates row.1) hfind⟩

end History

/-! ### What a name stands for -/

section Names

variable (lower : String → String) (snapshot : GuildSnapshot) (history : History)

namespace GuildSnapshot

/-- The id that the name of a role stands for. -/
def knownRole (name : String) : Option ℕ :=
  if name = everyoneName then some snapshot.guildId
  else (history.latest (Change.createsRole name)).or
    (single ((snapshot.rolesNamed name).map RoleState.id))

def knownCategory (name : String) : Option ℕ :=
  (history.latest (Change.createsCategory name)).or
    (single ((snapshot.categoriesNamed name).map ChannelState.id))

def knownChannel (name : String) (kind : ChannelKind) : Option ℕ :=
  (history.latest (Change.createsChannel lower name kind)).or
    (single ((snapshot.channelsMatching lower name kind).map ChannelState.id))

def knownTarget : Target → Option ℕ
  | .category name => snapshot.knownCategory history name
  | .channel name kind => snapshot.knownChannel lower history name kind

end GuildSnapshot

/-- A resolved overwrite is of the role that the name stands for. -/
structure Overwrite.Means (o : Overwrite) (r : ResolvedOverwrite) : Prop where
  role : snapshot.knownRole history o.role = some r.roleId
  allow : r.allow = o.allow
  deny : r.deny = o.deny

/-- The operation says what the change says, of what its names stand for. -/
def Change.Means : Change → Op → Prop
  | .createRole name colour, op => op = .createRole name colour
  | .editRole name hoist mentionable colour, op =>
    ∃ id, snapshot.knownRole history name = some id ∧ op = .editRole id hoist mentionable colour
  | .createCategory name overwrites, op =>
    ∃ resolved, overwrites.Forall₂ (Overwrite.Means snapshot history) resolved ∧
      op = .createChannel name .category none none none [] resolved
  | .createChannel name kind category topic slowmodeSecs tags overwrites, op =>
    ∃ parent resolved, snapshot.knownCategory history category = some parent ∧
      overwrites.Forall₂ (Overwrite.Means snapshot history) resolved ∧
      op = .createChannel name (.kind kind) (some parent) topic slowmodeSecs tags resolved
  | .editChannel name kind category topic, op =>
    ∃ id parent, snapshot.knownChannel lower history name kind = some id ∧
      snapshot.knownCategory history category = some parent ∧
      op = .editChannel id (some parent) topic
  | .setOverwrite target o, op =>
    ∃ id roleId, snapshot.knownTarget lower history target = some id ∧
      snapshot.knownRole history o.role = some roleId ∧ op = .setOverwrite id roleId o.allow o.deny

/-- The failure names something of the change that no id is known of. -/
def Failure.Lacks (change : Change) : Failure → Prop
  | .noRole name => name ∈ change.roleNames ∧ snapshot.knownRole history name = none
  | .noCategory name => name ∈ change.categoryNames ∧ snapshot.knownCategory history name = none
  | .noChannel kind name =>
    (name, kind) ∈ change.channelNames ∧ snapshot.knownChannel lower history name kind = none
  | .writer _ => False

/-! ### The index -/

/-- The index finds what the names stand for. -/
structure NameIndex.Knows (index : NameIndex) : Prop where
  guildId : index.guildId = snapshot.guildId
  roles : ∀ name, index.roles[name]? = (history.latest (Change.createsRole name)).or
    (single ((snapshot.rolesNamed name).map RoleState.id))
  categories : ∀ name, index.categories[categoryKey name]? = snapshot.knownCategory history name
  channels : ∀ name kind, index.channels[(⟨planChannelKey lower name kind, kind⟩ : ChannelKey)]? =
    snapshot.knownChannel lower history name kind

variable {lower snapshot history}

theorem knows_start : (NameIndex.fromSnapshot lower snapshot).Knows lower snapshot [] :=
  have h : Engine.Indexed lower (Engine.start lower snapshot) := Engine.indexed_start snapshot
  ⟨h.guildId, h.roles, h.categories, h.channels⟩

namespace NameIndex.Knows

variable {index : NameIndex} (h : index.Knows lower snapshot history)

include h in
/-- What the writer answers is known from then on. -/
theorem record (change : Change) (id : ℕ) :
    (index.record lower change (some id)).Knows lower snapshot (history ++ [(change, id)]) where
  guildId := by cases change <;> exact h.guildId
  roles name := by
    rw [History.latest_append]
    cases change with
    | createRole created colour =>
      simp only [NameIndex.record, getElem?_insert, Change.createsRole, decide_eq_true_eq]
      split_ifs
      · rfl
      · exact h.roles name
    | _ => exact h.roles name
  categories name := by
    rw [GuildSnapshot.knownCategory, History.latest_append]
    cases change with
    | createCategory created overwrites =>
      simp only [NameIndex.record, getElem?_insert, Change.createsCategory, decide_eq_true_eq]
      split_ifs
      · rfl
      · exact h.categories name
    | _ => exact h.categories name
  channels name kind := by
    rw [GuildSnapshot.knownChannel, History.latest_append]
    cases change with
    | createChannel created kind' =>
      simp only [NameIndex.record, getElem?_insert, Change.createsChannel, decide_eq_true_eq,
        ChannelKey.mk.injEq, and_comm (a := kind' = kind)]
      split_ifs
      · rfl
      · exact h.channels name kind
    | _ => exact h.channels name kind

include h in
theorem record_answer (change : Change) (created : Option ℕ) :
    (index.record lower change created).Knows lower snapshot
      (history ++ (created.map (change, ·)).toList) := by
  cases created with
  | none =>
    rw [Option.map_none, Option.toList_none, List.append_nil]
    exact h
  | some id => exact h.record change id

include h in
theorem roleId_eq (name : String) : index.roleId name =
    (snapshot.knownRole history name).elim (.error (.noRole name)) .ok := by
  rw [NameIndex.roleId, GuildSnapshot.knownRole, h.roles, h.guildId]
  split_ifs
  · rfl
  · cases (history.latest _).or _ <;> rfl

include h in
theorem categoryId_eq (name : String) : index.categoryId name =
    (snapshot.knownCategory history name).elim (.error (.noCategory name)) .ok := by
  rw [NameIndex.categoryId, h.categories]
  cases snapshot.knownCategory history name <;> rfl

include h in
theorem channelId_eq (name : String) (kind : ChannelKind) : index.channelId lower name kind =
    (snapshot.knownChannel lower history name kind).elim (.error (.noChannel kind name)) .ok := by
  rw [NameIndex.channelId, h.channels]
  cases snapshot.knownChannel lower history name kind <;> rfl

include h in
/-- The overwrites of a change are resolved, or the first role without an id fails. -/
theorem resolveOverwrites (overwrites : List Overwrite) :
    (∃ resolved, overwrites.mapM index.resolveOverwrite = .ok resolved ∧
      overwrites.Forall₂ (Overwrite.Means snapshot history) resolved) ∨
    ∃ o ∈ overwrites, overwrites.mapM index.resolveOverwrite = .error (.noRole o.role) ∧
      snapshot.knownRole history o.role = none := by
  induction overwrites with
  | nil => exact .inl ⟨[], rfl, .nil⟩
  | cons o overwrites ih =>
    rw [List.mapM_cons, NameIndex.resolveOverwrite, h.roleId_eq]
    cases hrole : snapshot.knownRole history o.role with
    | none => exact .inr ⟨o, List.mem_cons_self, rfl, hrole⟩
    | some roleId =>
      obtain ⟨resolved, heq, hmeans⟩ | ⟨o', ho', heq, hnone⟩ := ih
      · refine .inl ⟨⟨roleId, o.allow, o.deny⟩ :: resolved, ?_, .cons ⟨hrole, rfl, rfl⟩ hmeans⟩
        rw [heq]
        rfl
      · refine .inr ⟨o', List.mem_cons_of_mem o ho', ?_, hnone⟩
        rw [heq]
        rfl

include h in
/-- What a change is resolved to says what the change says; a change that is not resolved names
something that no id is known of. -/
theorem resolve_cases (change : Change) :
    (∃ op, index.resolve lower change = .ok op ∧ change.Means lower snapshot history op) ∨
    ∃ reason, index.resolve lower change = .error reason ∧
      reason.Lacks lower snapshot history change := by
  cases change with
  | createRole name colour => exact .inl ⟨_, rfl, rfl⟩
  | editRole name hoist mentionable colour =>
    rw [NameIndex.resolve, h.roleId_eq]
    cases hrole : snapshot.knownRole history name with
    | none => exact .inr ⟨_, rfl, List.mem_singleton_self name, hrole⟩
    | some id => exact .inl ⟨_, rfl, id, hrole, rfl⟩
  | createCategory name overwrites =>
    rw [NameIndex.resolve]
    obtain ⟨resolved, heq, hmeans⟩ | ⟨o, ho, heq, hnone⟩ := h.resolveOverwrites overwrites
    · rw [heq]
      exact .inl ⟨_, rfl, resolved, hmeans, rfl⟩
    · rw [heq]
      exact .inr ⟨_, rfl, List.mem_map_of_mem ho, hnone⟩
  | createChannel name kind category topic slowmodeSecs tags overwrites =>
    rw [NameIndex.resolve, h.categoryId_eq]
    cases hcategory : snapshot.knownCategory history category with
    | none => exact .inr ⟨_, rfl, List.mem_singleton_self category, hcategory⟩
    | some parent =>
      obtain ⟨resolved, heq, hmeans⟩ | ⟨o, ho, heq, hnone⟩ := h.resolveOverwrites overwrites
      · rw [heq]
        exact .inl ⟨_, rfl, parent, resolved, hcategory, hmeans, rfl⟩
      · rw [heq]
        exact .inr ⟨_, rfl, List.mem_map_of_mem ho, hnone⟩
  | editChannel name kind category topic =>
    rw [NameIndex.resolve, h.channelId_eq, h.categoryId_eq]
    cases hchannel : snapshot.knownChannel lower history name kind with
    | none => exact .inr ⟨_, rfl, List.mem_singleton_self (name, kind), hchannel⟩
    | some id =>
      cases hcategory : snapshot.knownCategory history category with
      | none => exact .inr ⟨_, rfl, List.mem_singleton_self category, hcategory⟩
      | some parent => exact .inl ⟨_, rfl, id, parent, hchannel, hcategory, rfl⟩
  | setOverwrite target o =>
    rw [NameIndex.resolve, h.roleId_eq]
    cases target with
    | category name =>
      rw [NameIndex.targetId, h.categoryId_eq]
      cases hcategory : snapshot.knownCategory history name with
      | none => exact .inr ⟨_, rfl, List.mem_singleton_self name, hcategory⟩
      | some id =>
        cases hrole : snapshot.knownRole history o.role with
        | none => exact .inr ⟨_, rfl, List.mem_singleton_self o.role, hrole⟩
        | some roleId => exact .inl ⟨_, rfl, id, roleId, hcategory, hrole, rfl⟩
    | channel name kind =>
      rw [NameIndex.targetId, h.channelId_eq]
      cases hchannel : snapshot.knownChannel lower history name kind with
      | none => exact .inr ⟨_, rfl, List.mem_singleton_self (name, kind), hchannel⟩
      | some id =>
        cases hrole : snapshot.knownRole history o.role with
        | none => exact .inr ⟨_, rfl, List.mem_singleton_self o.role, hrole⟩
        | some roleId => exact .inl ⟨_, rfl, id, roleId, hchannel, hrole, rfl⟩

end NameIndex.Knows

end Names

/-! ### The outcome -/

section Outcome

variable {W : Type} (lower : String → String) (perform : W → Op → Except String (Option ℕ) × W)

/-- A writer that notes what it is asked for and what it answers. -/
def noting (writer : W × List (Op × Except String (Option ℕ))) (op : Op) :
    Except String (Option ℕ) × W × List (Op × Except String (Option ℕ)) :=
  let answer := perform writer.1 op
  (answer.1, answer.2, writer.2 ++ [(op, answer.1)])

/-- The outcome and what was asked for account for every change, after what was created before. -/
structure Outcome.Accounts (snapshot : GuildSnapshot) (history : History) (changes : List Change)
    (outcome : Outcome) (asked : List (Op × Except String (Option ℕ))) : Prop where
  parts : changes = outcome.applied ++
    ((outcome.failed.map Prod.fst).toList ++ outcome.remaining)
  rest : outcome.failed = none →
    outcome.remaining = [] ∧ asked.length = outcome.applied.length
  /-- Each applied change was asked for in its turn, of what was known then, and not refused. -/
  applied : ∀ before change after, outcome.applied = before ++ change :: after →
    ∃ done op created later, asked = done ++ (op, .ok created) :: later ∧
      done.length = before.length ∧
      change.Means lower snapshot (history ++ .ofAnswers before done) op
  /-- The change that failed names something unknown, or the writer refused what it says; nothing was
  asked for after that. -/
  failed : ∀ change reason, outcome.failed = some (change, reason) →
    (asked.length = outcome.applied.length ∧
      reason.Lacks lower snapshot (history ++ .ofAnswers outcome.applied asked) change) ∨
    ∃ done op text, reason = .writer text ∧ asked = done ++ [(op, .error text)] ∧
      done.length = outcome.applied.length ∧
      change.Means lower snapshot (history ++ .ofAnswers outcome.applied done) op

variable {lower} {snapshot : GuildSnapshot} {history : History}

theorem accounts_nil : Outcome.Accounts lower snapshot history [] ⟨[], none, []⟩ [] where
  parts := rfl
  rest _ := ⟨rfl, rfl⟩
  applied before _ _ h := absurd h.symm (List.append_ne_nil_of_right_ne_nil before (by simp))
  failed _ _ h := absurd h.symm (Option.some_ne_none _)

/-- A run that stops at its first change has failed to resolve it or has been refused it. -/
theorem accounts_stop {change : Change} {rest : List Change} {reason : Failure}
    {asked : List (Op × Except String (Option ℕ))}
    (h : (asked = [] ∧ reason.Lacks lower snapshot history change) ∨
      ∃ op text, reason = .writer text ∧ asked = [(op, .error text)] ∧
        change.Means lower snapshot history op) :
    Outcome.Accounts lower snapshot history (change :: rest) ⟨[], some (change, reason), rest⟩
      asked where
  parts := rfl
  rest h := absurd h (Option.some_ne_none _)
  applied before _ _ h := absurd h.symm (List.append_ne_nil_of_right_ne_nil before (by simp))
  failed change' reason' heq := by
    cases heq
    rw [History.ofAnswers_nil, List.append_nil]
    obtain ⟨rfl, hlacks⟩ | ⟨op, text, rfl, rfl, hmeans⟩ := h
    · exact .inl ⟨rfl, hlacks⟩
    · refine .inr ⟨[], op, text, rfl, rfl, rfl, ?_⟩
      rwa [History.ofAnswers_nil, List.append_nil]

/-- A change that is applied comes before a run that knows what it has created. -/
theorem accounts_cons {change : Change} {rest : List Change} {op : Op} {created : Option ℕ}
    {outcome : Outcome} {asked : List (Op × Except String (Option ℕ))}
    (hmeans : change.Means lower snapshot history op)
    (h : outcome.Accounts lower snapshot (history ++ (created.map (change, ·)).toList) rest asked) :
    Outcome.Accounts lower snapshot history (change :: rest)
      { outcome with applied := change :: outcome.applied } ((op, .ok created) :: asked) where
  parts := congrArg (change :: ·) h.parts
  rest hnone := ⟨(h.rest hnone).1, congrArg (· + 1) (h.rest hnone).2⟩
  applied before change' after heq := by
    cases before with
    | nil =>
      cases heq
      refine ⟨[], op, created, asked, rfl, rfl, ?_⟩
      rwa [History.ofAnswers_nil, List.append_nil]
    | cons first before =>
      obtain ⟨rfl, hrest⟩ := List.cons.inj heq
      obtain ⟨done, op', created', later, rfl, hlength, hmeans'⟩ :=
        h.applied before change' after hrest
      refine ⟨(op, .ok created) :: done, op', created', later, rfl, congrArg (· + 1) hlength, ?_⟩
      rwa [History.ofAnswers_cons, ← List.append_assoc]
  failed change' reason heq := by
    obtain ⟨hlength, hlacks⟩ | ⟨done, op', text, rfl, rfl, hlength, hmeans'⟩ :=
      h.failed change' reason heq
    · refine .inl ⟨congrArg (· + 1) hlength, ?_⟩
      rwa [History.ofAnswers_cons, ← List.append_assoc]
    · refine .inr ⟨(op, .ok created) :: done, op', text, rfl, rfl, congrArg (· + 1) hlength, ?_⟩
      rwa [History.ofAnswers_cons, ← List.append_assoc]

/-- A writer that notes what it does answers as before, and its notes account for the outcome. -/
theorem applyFrom_accounts {index : NameIndex} (hknows : index.Knows lower snapshot history)
    (changes : List Change) (writer : W) (noted : List (Op × Except String (Option ℕ))) :
    ∃ asked, applyFrom lower (noting perform) index (writer, noted) changes =
        ((applyFrom lower perform index writer changes).1,
          (applyFrom lower perform index writer changes).2, noted ++ asked) ∧
      (applyFrom lower perform index writer changes).1.Accounts lower snapshot history changes
        asked := by
  induction changes generalizing index history writer noted with
  | nil => exact ⟨[], by rw [applyFrom, applyFrom, List.append_nil], accounts_nil⟩
  | cons change rest ih =>
    rw [applyFrom, applyFrom]
    obtain ⟨op, hresolve, hmeans⟩ | ⟨reason, hresolve, hlacks⟩ := hknows.resolve_cases change
    · obtain ⟨answer, writer', hperform⟩ : ∃ answer writer', perform writer op = (answer, writer') :=
        ⟨_, _, rfl⟩
      have hnoting : noting perform (writer, noted) op =
          (answer, writer', noted ++ [(op, answer)]) := by
        rw [noting, hperform]
      rw [hresolve]
      dsimp only
      rw [hnoting, hperform]
      cases answer with
      | error text =>
        exact ⟨[(op, .error text)], rfl, accounts_stop (.inr ⟨op, text, rfl, rfl, hmeans⟩)⟩
      | ok created =>
        dsimp only
        obtain ⟨asked, hrun, haccounts⟩ := ih (hknows.record_answer change created) writer'
          (noted ++ [(op, .ok created)])
        refine ⟨(op, .ok created) :: asked, ?_, accounts_cons hmeans haccounts⟩
        rw [hrun, List.append_assoc, List.singleton_append]
    · rw [hresolve]
      exact ⟨[], by rw [List.append_nil], accounts_stop (.inl ⟨rfl, hlacks⟩)⟩

/-- **The outcome accounts for every change**: the applied ones, the one that failed and the rest are
the changes in their order, and the writer has been asked once for each applied change, and once more
if it was the writer that failed. What it was asked for each time says what the change says, of what
the names stand for after the changes before; a change that fails without the writer names something
that no id is known of. -/
theorem outcome_accounts (changes : List Change) (snapshot : GuildSnapshot) (writer : W)
    (noted : List (Op × Except String (Option ℕ))) :
    ∃ asked, apply lower (noting perform) changes snapshot (writer, noted) =
        ((apply lower perform changes snapshot writer).1,
          (apply lower perform changes snapshot writer).2, noted ++ asked) ∧
      (apply lower perform changes snapshot writer).1.Accounts lower snapshot [] changes asked :=
  applyFrom_accounts perform knows_start changes writer noted

end Outcome

end AbbeyBot.Server
