import Mathlib
import AbbeyBot.Brain.Reward.Restorable

/-! # Deleted replies

A reply that is deleted is worth -2 and is settled by the next sweep. Replies and reactions no longer
reach it, for it is closed to attribution. An erasure does: it takes back the reactions of the member
one by one, whatever has become of the turn since. Where it takes back none that was counted, the
turn keeps its -2. -/

namespace AbbeyBot.Brain.Reward.RewardCollector

open AbbeyBot.Library.History AbbeyBot.Library.OrderedMap AbbeyBot.Library.Result
open AbbeyBot.Brain.Addenda (memberHash)

variable {F : Type} {E : Env F} {c : RewardCollector F} {id : String} {p : Pending F}

/-! ### Attribution -/

/-- A turn that is named is found where it is open in the scope. -/
theorem attribution_some_iff {scope id : String} {now : ℕ} {found : FeedbackAttribution × String} :
    c.attribution scope (some id) now = .ok found ↔ found = (.exactReply, id) ∧ scope ≠ "" ∧
      ∃ p, c.pending[id]? = some p ∧ p.scope = scope ∧ Pending.Open p now := by
  unfold attribution
  by_cases hempty : scope = ""
  · simp [hempty]
  rw [if_neg hempty]
  dsimp only
  cases hp : c.pending[id]? with
  | none => simp
  | some p =>
    dsimp only
    by_cases hscope : p.scope = scope
    · by_cases hopen : Pending.Open p now
      · simp [hscope, hopen, hempty, eq_comm]
      · simp [hscope, hopen]
    · simp [hscope]

/-- The open turns of a scope, as the search for a reply lists them. -/
theorem mem_openTurns {scope id : String} {p : Pending F} {now : ℕ} :
    (id, p) ∈ (c.pending.toList.filter fun (_, p) =>
      decide (p.scope = scope ∧ p.action ≠ BotAction.react.index ∧ Pending.Open p now)) ↔
    c.pending[id]? = some p ∧ p.scope = scope ∧ p.action ≠ BotAction.react.index ∧
      Pending.Open p now := by
  rw [List.mem_filter, Std.ExtTreeMap.mem_toList_iff_getElem?_eq_some]
  exact and_congr_right' decide_eq_true_iff

/-- A turn that is found for a reply is not waiting for its settlement. -/
theorem attribution_open {scope id : String} {replyTo : Option String} {now : ℕ}
    {source : FeedbackAttribution} (h : c.attribution scope replyTo now = .ok (source, id)) :
    ∃ p, c.pending[id]? = some p ∧ p.settleImmediately = false := by
  cases replyTo with
  | some id' =>
    obtain ⟨hfound, -, p, hp, -, hopen⟩ := attribution_some_iff.mp h
    cases hfound
    exact ⟨p, hp, hopen.1⟩
  | none =>
    unfold attribution at h
    split_ifs at h
    dsimp only at h
    split at h
    · cases h
    · rename_i id' p hrows
      cases h
      obtain ⟨hrow, -, -, hopen⟩ := mem_openTurns.mp (hrows ▸ List.mem_singleton_self (id, p))
      exact ⟨p, hrow, hopen.1⟩
    · cases h

/-- A turn that waits for its settlement is not the one that is found. -/
theorem ne_of_attribution {scope id' : String} {replyTo : Option String} {now : ℕ}
    {source : FeedbackAttribution} (hp : c.pending[id]? = some p) (hwaits : p.settleImmediately = true)
    (h : c.attribution scope replyTo now = .ok (source, id')) : id' ≠ id := by
  rintro rfl
  obtain ⟨q, hq, hopen⟩ := attribution_open h
  rw [hp] at hq
  cases hq
  rw [hwaits] at hopen
  cases hopen

/-- A reaction to a turn that is not found changes nothing. -/
theorem reaction_refused {key : ReactionKey} {now : ℕ} {reason : FeedbackAttribution} (added : Bool)
    (h : c.attribution key.scope (some key.message) now = .error reason) :
    (c.reaction E key added now).2 = c := by
  unfold reaction
  dsimp only
  by_cases hemoji : decide (key.emoji ∈ positiveEmoji) = false ∧ key.emoji ∉ negativeEmoji
  · rw [if_pos hemoji]
  · rw [if_neg hemoji, h]

theorem getElem?_modify_ne {id' : String} {f : Pending F → Pending F} (hne : id' ≠ id) :
    (c.modify id' f).pending[id]? = c.pending[id]? := by
  rw [RewardCollector.modify, getElem?_modify, if_neg hne]

/-! ### The turn is left alone -/

section Waits

variable (hp : c.pending[id]? = some p) (hwaits : p.settleImmediately = true)
include hp hwaits

theorem humanReplied_waits (scope id' : String) (now : ℕ) :
    (c.humanReplied E scope id' now).pending[id]? = some p := by
  unfold humanReplied
  split
  · exact hp
  · rename_i found hfound
    obtain ⟨rfl, -⟩ := attribution_some_iff.mp hfound
    rw [getElem?_modify_ne (ne_of_attribution hp hwaits hfound)]
    exact hp

theorem observeReplyTo_waits (scope id' : String) (outcome : ReplyOutcome) (now : ℕ) :
    (c.observeReplyTo E scope id' outcome now).2.pending[id]? = some p := by
  unfold observeReplyTo
  split
  · exact hp
  · rename_i found hfound
    obtain ⟨rfl, -⟩ := attribution_some_iff.mp hfound
    show (c.modify id' (credit E outcome)).pending[id]? = some p
    rw [getElem?_modify_ne (ne_of_attribution hp hwaits hfound)]
    exact hp

theorem observeInScope_waits (scope observer : String) (outcome : ReplyOutcome) (now : ℕ) :
    (c.observeInScope E scope observer outcome now).2.pending[id]? = some p := by
  unfold observeInScope
  split
  · exact hp
  · rename_i source id' hfound
    have hne := ne_of_attribution hp hwaits hfound
    split
    · exact hp
    · split_ifs
      · exact hp
      · show (c.modify id' (credit E outcome)).pending[id]? = some p
        rw [getElem?_modify_ne hne]
        exact hp

theorem feedback_waits (scope observer : String) (replyTo : Option String) (text : String) (now : ℕ) :
    (c.feedback E scope observer replyTo text now).2.pending[id]? = some p := by
  unfold feedback
  split_ifs
  · exact hp
  · split
    · exact hp
    · rename_i source id' hfound
      dsimp only
      split_ifs
      · exact hp
      · exact observeReplyTo_waits (humanReplied_waits hp hwaits scope id' now) hwaits scope id' _ now
      · have hobserved := observeInScope_waits (E := E) hp hwaits scope observer
          ((AskSignature.classify E.lexicon text (c.openAsk id')).getD .noEngagement) now
        split
        · rename_i c' heq
          rw [heq] at hobserved
          exact hobserved
        · rename_i c' heq
          rw [heq] at hobserved
          exact hobserved

theorem reaction_waits (key : ReactionKey) (added : Bool) (now : ℕ) :
    (c.reaction E key added now).2.pending[id]? = some p := by
  by_cases hkey : key.message = id
  · have hrefused : ∃ reason, c.attribution key.scope (some key.message) now = .error reason := by
      cases hfound : c.attribution key.scope (some key.message) now with
      | error reason => exact ⟨reason, rfl⟩
      | ok found =>
        obtain ⟨rfl, -⟩ := attribution_some_iff.mp hfound
        exact absurd hkey (ne_of_attribution hp hwaits hfound)
    obtain ⟨reason, hrefused⟩ := hrefused
    rw [reaction_refused added hrefused]
    exact hp
  · rcases reaction_cases (E := E) c key added now with
      ⟨a, hres⟩ | ⟨q, -, -, -, -, ⟨-, -, hres⟩ | ⟨index, row, -, -, hres⟩⟩
    · rw [hres]
      exact hp
    · rw [hres]
      exact (getElem?_insert.trans (if_neg hkey)).trans hp
    · rw [hres]
      exact (getElem?_insert.trans (if_neg hkey)).trans hp

omit hwaits in
theorem registerTurn_waits (turn : ReplyTurn F) :
    (c.registerTurn E turn).pending[id]? = some p := by
  unfold registerTurn
  dsimp only
  split_ifs with hblocked hrefused
  · exact hp
  · exact hp
  · show ((c.pruneRecovery turn.now).pending.insert turn.sentNativeMessageId _)[id]? = some p
    rw [getElem?_insert, if_neg]
    · exact hp
    · rintro rfl
      exact hrefused (.inr (.inl (mem_iff.mpr ⟨p, hp⟩)))

end Waits

/-! ### What an erasure takes back -/

/-- Nothing that was counted for the turn is taken back, or the turn goes. -/
def Spares (id : String) (c : RewardCollector F) : Op F → Prop
  | .eraseLearning scope member _ => (∃ p, c.pending[id]? = some p ∧ Linked scope member p = true) ∨
      ∀ row ∈ c.recovery.reactions, row.key.message = id →
        row.key ∈ c.ownReactions scope member → row.contribution = .capped
  | _ => True

theorem reverse_capped (p : Pending F) : reverse E .capped p = p := rfl

theorem forgets_waits {keys : List ReactionKey} {reactions : List ReactionRecord}
    (hsub : ∀ row ∈ c.recovery.reactions, row ∈ reactions)
    (hspares : ∀ row ∈ reactions, row.key.message = id → row.key ∈ keys → row.contribution = .capped)
    (hp : c.pending[id]? = some p) :
    (keys.foldl (forget E) c).pending[id]? = some p := by
  induction keys generalizing c with
  | nil => exact hp
  | cons key keys ih =>
    rw [List.foldl_cons]
    have hrest := fun row hrow heq hmem => hspares row hrow heq (List.mem_cons_of_mem _ hmem)
    unfold forget
    cases hrow : c.recovery.reactions.find? (·.key = key) with
    | none => exact ih hsub hrest hp
    | some row =>
      have hmem := List.mem_of_find?_eq_some hrow
      have hkey : row.key = key := by
        have hfound := List.find?_some hrow
        simpa using hfound
      refine ih (fun r hr => hsub r (List.mem_of_mem_eraseP hr)) hrest ?_
      show (c.pending.modify key.message (reverse E row.contribution))[id]? = some p
      rw [getElem?_modify]
      split_ifs with heq
      · have hcapped := hspares row (hsub row hmem) (hkey ▸ heq) (hkey ▸ List.mem_cons_self)
        rw [hcapped, hp]
        rfl
      · exact hp

/-! ### Sweeps -/

theorem mem_drain {now : ℕ} {keys : List String} (hmem : id ∈ keys) (hp : c.pending[id]? = some p) :
    (id, p) ∈ (drain now keys c).1 := by
  induction keys generalizing c with
  | nil => exact absurd hmem List.not_mem_nil
  | cons key keys ih =>
    unfold drain
    by_cases heq : id = key
    · subst heq
      rw [hp]
      exact List.mem_cons_self
    · have hrest := (List.mem_cons.mp hmem).resolve_left heq
      cases hq : c.pending[key]? with
      | none => exact ih hrest hp
      | some q =>
        refine List.mem_cons_of_mem _ (ih hrest ?_)
        show (c.pending.erase key)[id]? = some p
        rw [Std.ExtTreeMap.getElem?_erase, if_neg, hp]
        exact fun h => heq (Std.LawfulEqCmp.eq_of_compare h).symm

/-- A turn that waits for its settlement is handed out by the next sweep. -/
theorem mem_sweep (hp : c.pending[id]? = some p) (hwaits : p.settleImmediately = true) (now : ℕ)
    (order : HashOrder) : (id, p) ∈ (c.sweep now order).1 := by
  refine mem_drain ?_ hp
  refine (order.perm _).mem_iff.mpr (List.mem_map.mpr ⟨(id, p), List.mem_filter.mpr ⟨?_, ?_⟩, rfl⟩)
  · exact Std.ExtTreeMap.mem_toList_iff_getElem?_eq_some.mpr hp
  · simp [Pending.Expired, hwaits]

/-! ### Along a run -/

/-- An operation leaves a turn that waits for its settlement as it is, or the turn goes. -/
theorem step_waits {op : Op F} (hp : c.pending[id]? = some p) (hwaits : p.settleImmediately = true)
    (hdeleted : p.reward = E.floats.lit (-2)) (hspares : Spares id c op) :
    (RewardCollector.step E c op).2.pending[id]? = none ∨
      ∃ q, (RewardCollector.step E c op).2.pending[id]? = some q ∧ q.settleImmediately = true ∧
        q.reward = E.floats.lit (-2) := by
  cases op with
  | registerTurn turn => exact .inr ⟨p, registerTurn_waits hp turn, hwaits, hdeleted⟩
  | registerReply state action id' guild scope now =>
    exact .inr ⟨p, registerTurn_waits hp _, hwaits, hdeleted⟩
  | observeReplyTo scope id' outcome now =>
    exact .inr ⟨p, observeReplyTo_waits hp hwaits scope id' outcome now, hwaits, hdeleted⟩
  | observeInScope scope observer outcome now =>
    exact .inr ⟨p, observeInScope_waits hp hwaits scope observer outcome now, hwaits, hdeleted⟩
  | feedback scope observer replyTo text now =>
    exact .inr ⟨p, feedback_waits hp hwaits scope observer replyTo text now, hwaits, hdeleted⟩
  | humanReplied scope id' now =>
    exact .inr ⟨p, humanReplied_waits hp hwaits scope id' now, hwaits, hdeleted⟩
  | reaction key added now => exact .inr ⟨p, reaction_waits hp hwaits key added now, hwaits, hdeleted⟩
  | abbeyMessageDeleted id' =>
    right
    show ∃ q, (c.modify id' _).pending[id]? = some q ∧ _
    by_cases heq : id' = id
    · rw [RewardCollector.modify, getElem?_modify, if_pos heq, hp]
      exact ⟨_, rfl, rfl, rfl⟩
    · rw [getElem?_modify_ne heq]
      exact ⟨p, hp, hwaits, hdeleted⟩
  | settleExpired now order =>
    left
    obtain ⟨-, -, hrows⟩ := drain_spec now ((c.pruneRecovery now).expiredKeys now order)
      (c.pruneRecovery now)
    exact (hrows (id, p) (mem_sweep hp hwaits now order)).2.1
  | eraseLearning scope member ledger =>
    show ((((c.ownReactions scope member).foldl (forget E) c).pending.filter fun id _ =>
      decide (id ∉ (c.pending.toList.filter fun (_, p) => Linked scope member p).map (·.1)))[id]?) =
        none ∨ _
    by_cases hgoes : ∃ q, c.pending[id]? = some q ∧ Linked scope member q = true
    · left
      rw [Std.ExtTreeMap.getElem?_filter']
      simp only [Option.filter_eq_none_iff, decide_eq_true_eq, not_not]
      exact fun _ _ => mem_linkedTurns.mpr hgoes
    · right
      refine ⟨p, ?_, hwaits, hdeleted⟩
      refine filter_eq_some.mpr ⟨?_, decide_eq_true fun hmem => hgoes (mem_linkedTurns.mp hmem)⟩
      exact forgets_waits (fun _ h => h) (hspares.resolve_left hgoes) hp
  | restart =>
    right
    refine ⟨p, ?_, hwaits, hdeleted⟩
    unfold RewardCollector.step
    dsimp only
    split
    · rename_i c' hrestored
      simp only [restoreRecovered, bind_eq_ok, exists_unit, ensure_eq_ok, pure_eq_ok] at hrestored
      obtain ⟨-, -, rfl⟩ := hrestored
      have hsame := foldl_insert_toList c.pending
      exact (congrArg (·[id]?) hsame).trans hp
    · exact hp

/-- The turn stayed open. -/
def Stays (id : String) (h : Trace F) : Prop := ∀ e ∈ h, id ∈ e.after.pending

/-- The turn is worth -2, and the next sweep hands it out so. -/
def StaysDeleted (E : Env F) (id : String) (c : RewardCollector F) : Prop :=
  (∃ q, c.pending[id]? = some q ∧ q.reward = E.floats.lit (-2)) ∧ ∀ (now : ℕ) (order : HashOrder),
    ∃ q, (id, q) ∈ (c.sweep now order).1 ∧ q.reward = E.floats.lit (-2)

/-- **A deleted reply is worth -2.** Along every run after the deletion of an open turn whose erasures
take back no counted reaction to it, as long as the turn is open, it is worth exactly -2, and the next
sweep hands it out with that. -/
theorem deleted_along_run {c₀ c : RewardCollector F} {h : Trace F} {id : String}
    (hopen : id ∈ c₀.pending) (hrun : Run (RewardCollector.step E) (c₀.abbeyMessageDeleted E id) h c)
    (hspares : ∀ e ∈ h, Spares id e.before e.op) (hstays : Stays id h) :
    StaysDeleted E id c := by
  have hwaits : ∃ q, c.pending[id]? = some q ∧ q.settleImmediately = true ∧
      q.reward = E.floats.lit (-2) := by
    induction hrun with
    | nil =>
      obtain ⟨p, hp⟩ := mem_iff.mp hopen
      show ∃ q, (c₀.modify id _).pending[id]? = some q ∧ _
      rw [RewardCollector.modify, getElem?_modify, if_pos rfl, hp]
      exact ⟨_, rfl, rfl, rfl⟩
    | cons op hrun ih =>
      obtain ⟨p, hp, hwaits, hdeleted⟩ := ih (fun e he => hspares e (List.mem_cons_of_mem _ he))
        (fun e he => hstays e (List.mem_cons_of_mem _ he))
      rcases step_waits hp hwaits hdeleted (hspares _ List.mem_cons_self) with hgone | hkept
      · obtain ⟨q, hq⟩ := mem_iff.mp (hstays _ List.mem_cons_self)
        cases hgone.symm.trans hq
      · exact hkept
  obtain ⟨q, hq, hsettle, hreward⟩ := hwaits
  exact ⟨⟨q, hq, hreward⟩, fun now order => ⟨q, mem_sweep hq hsettle now order, hreward⟩⟩

/-! ### A member who reacted is forgotten -/

/-- The member "iris" reacts to the turn. -/
def admiredOps : List (Op ℚ) :=
  [.registerTurn sampleTurn,
    .reaction ⟨"channel", "reply", (memberHash "iris").toNat, "👍"⟩ true 1]

def admired : RewardCollector ℚ := (play (RewardCollector.step sampleEnv) new admiredOps).2

/-- After the deletion of the reply, the member is forgotten. -/
def forgottenOps : List (Op ℚ) := [.eraseLearning "garden" (some "iris") default]

def forgotten : RewardCollector ℚ :=
  (play (RewardCollector.step sampleEnv) (admired.abbeyMessageDeleted sampleEnv "reply") forgottenOps).2

theorem admissible_admiredOps : ∀ op ∈ admiredOps, Admissible sampleEnv op := by
  intro op hop
  simp only [admiredOps, List.mem_cons, List.not_mem_nil, or_false] at hop
  rcases hop with rfl | rfl
  · exact proper_sampleTurn
  · trivial

/-- The reaction of the member is taken back from the -2. -/
theorem forgotten_below : ¬ ∀ (c₀ c : RewardCollector ℚ) (h₀ h : Trace ℚ) (id : String),
    Run (RewardCollector.step sampleEnv) new h₀ c₀ → (∀ e ∈ h₀, Admissible sampleEnv e.op) →
    id ∈ c₀.pending → Run (RewardCollector.step sampleEnv) (c₀.abbeyMessageDeleted sampleEnv id) h c →
    (∀ e ∈ h, Admissible sampleEnv e.op) → Stays id h → StaysDeleted sampleEnv id c := by
  intro hall
  have hrun₀ : Run (RewardCollector.step sampleEnv) new
      (play (RewardCollector.step sampleEnv) new admiredOps).1 admired := run_play _ admiredOps
  have hrun : Run (RewardCollector.step sampleEnv) (admired.abbeyMessageDeleted sampleEnv "reply")
      (play (RewardCollector.step sampleEnv) (admired.abbeyMessageDeleted sampleEnv "reply")
        forgottenOps).1 forgotten := run_play _ forgottenOps
  have hopen : "reply" ∈ admired.pending := by decide
  have hafter : "reply" ∈ forgotten.pending := by decide +kernel
  have hreward : (forgotten.pending["reply"]?).map (·.reward) = some (-3) := by decide +kernel
  have hadmissible : ∀ e ∈ (play (RewardCollector.step sampleEnv)
      (admired.abbeyMessageDeleted sampleEnv "reply") forgottenOps).1, Admissible sampleEnv e.op := by
    intro e he
    have hop := op_mem_of_mem_play he
    rw [forgottenOps, List.mem_singleton] at hop
    rw [hop]
    exact (by decide : (default : ErasureLedger).validate = .ok ())
  have hstays : Stays "reply" (play (RewardCollector.step sampleEnv)
      (admired.abbeyMessageDeleted sampleEnv "reply") forgottenOps).1 := by
    intro e he
    obtain rfl := List.mem_singleton.mp he
    exact hafter
  obtain ⟨⟨q, hq, hvalue⟩, -⟩ := hall admired forgotten _ _ "reply" hrun₀
    (fun e he => admissible_admiredOps e.op (op_mem_of_mem_play he)) hopen hrun hadmissible hstays
  rw [hq, Option.map_some, hvalue] at hreward
  exact absurd hreward (by decide)

/-- After the deletion another member reacts, and is forgotten. -/
def lateOps : List (Op ℚ) :=
  [.reaction ⟨"channel", "reply", (memberHash "lily").toNat, "👎"⟩ true 2,
    .eraseLearning "garden" (some "lily")
      (ErasureLedger.insert sampleEnv.codec default "garden" (some "lily") 3).2]

/-- The late reaction counts for nothing, and the one that was counted is not of that member. -/
theorem late_reactions : StaysDeleted sampleEnv "reply"
    (play (RewardCollector.step sampleEnv) (admired.abbeyMessageDeleted sampleEnv "reply")
      lateOps).2 := by
  have hrun : Run (RewardCollector.step sampleEnv) (admired.abbeyMessageDeleted sampleEnv "reply")
      (play (RewardCollector.step sampleEnv) (admired.abbeyMessageDeleted sampleEnv "reply")
        lateOps).1 _ := run_play _ _
  have hreacted : (play (RewardCollector.step sampleEnv)
      (admired.abbeyMessageDeleted sampleEnv "reply") (lateOps.take 1)).2.ownReactions "garden"
        (some "lily") = [] ∧ "reply" ∈ (play (RewardCollector.step sampleEnv)
      (admired.abbeyMessageDeleted sampleEnv "reply") (lateOps.take 1)).2.pending := by
    decide +kernel
  have hforgotten : "reply" ∈ (play (RewardCollector.step sampleEnv)
      (admired.abbeyMessageDeleted sampleEnv "reply") lateOps).2.pending := by
    decide +kernel
  refine deleted_along_run (by decide) hrun (fun e he => ?_) fun e he => ?_
  · obtain rfl | rfl := List.mem_pair.mp he
    · refine .inr fun row _ _ hown => ?_
      exact absurd (hreacted.1 ▸ hown : row.key ∈ []) List.not_mem_nil
    · trivial
  · obtain rfl | rfl := List.mem_pair.mp he
    · exact hforgotten
    · exact hreacted.2

end AbbeyBot.Brain.Reward.RewardCollector
