import Mathlib
import AbbeyBot.Brain.Reward.Collector

/-! # Settled at most once

A turn that was handed out by a sweep is remembered by its marker, and when the marker is pruned by
the floor of creation times, which only rises. So a turn with the id and the time of one that was
handed out is never opened again, wherever the clock goes. -/

namespace AbbeyBot.Brain.Reward.RewardCollector

open AbbeyBot.Library.History AbbeyBot.Library.OrderedMap AbbeyBot.Library.Result

variable {F : Type} {E : Env F}

/-! ### What is remembered of a turn -/

/-- The turn is known as closed: by its marker, or by the floor. -/
def Marked (c : RewardCollector F) (id : String) (createdAt : ℕ) : Prop :=
  (∃ row ∈ c.recovery.settled, row.message = id ∧ row.createdAt = createdAt) ∨
    ∃ floor ∈ c.recovery.retiredThrough, createdAt ≤ floor

/-- The turn is closed and cannot be handed out again. -/
def Spent (c : RewardCollector F) (id : String) (createdAt : ℕ) : Prop :=
  (∀ p, c.pending[id]? = some p → p.createdAt ≠ createdAt) ∧ c.Marked id createdAt

/-- No turn was opened, and what was known as closed still is. -/
structure Retires (c c' : RewardCollector F) : Prop where
  pending : ∀ (id : String) (p' : Pending F), c'.pending[id]? = some p' →
    ∃ p, c.pending[id]? = some p ∧ p'.createdAt = p.createdAt
  marked : ∀ id createdAt, c.Marked id createdAt → c'.Marked id createdAt

theorem Retires.refl (c : RewardCollector F) : Retires c c :=
  ⟨fun _ p hp => ⟨p, hp, rfl⟩, fun _ _ h => h⟩

theorem Retires.trans {c c' c'' : RewardCollector F} (h : Retires c c') (h' : Retires c' c'') :
    Retires c c'' where
  pending id p'' hp'' := by
    obtain ⟨p', hp', heq'⟩ := h'.pending id p'' hp''
    obtain ⟨p, hp, heq⟩ := h.pending id p' hp'
    exact ⟨p, hp, heq'.trans heq⟩
  marked id createdAt hm := h'.marked id createdAt (h.marked id createdAt hm)

theorem Spent.retires {c c' : RewardCollector F} {id : String} {createdAt : ℕ}
    (hs : c.Spent id createdAt) (h : Retires c c') : c'.Spent id createdAt := by
  refine ⟨fun p' hp' => ?_, h.marked id createdAt hs.2⟩
  obtain ⟨p, hp, heq⟩ := h.pending id p' hp'
  rw [heq]
  exact hs.1 p hp

/-- Only the reactions and the ledger change beside the pending rows. -/
theorem retires_of_recovery {c c' : RewardCollector F}
    (hpending : ∀ (id : String) (p' : Pending F), c'.pending[id]? = some p' →
      ∃ p, c.pending[id]? = some p ∧ p'.createdAt = p.createdAt)
    (hsettled : c'.recovery.settled = c.recovery.settled)
    (hretired : c'.recovery.retiredThrough = c.recovery.retiredThrough) : Retires c c' := by
  refine ⟨hpending, fun id createdAt hm => ?_⟩
  unfold Marked at hm ⊢
  rwa [hsettled, hretired]

theorem retires_modify {c : RewardCollector F} {id : String} {f : Pending F → Pending F}
    (hf : ∀ p, (f p).createdAt = p.createdAt) : Retires c (c.modify id f) := by
  refine retires_of_recovery (fun k p' hp' => ?_) rfl rfl
  rw [modify, getElem?_modify] at hp'
  split_ifs at hp'
  · obtain ⟨p, hp, rfl⟩ := Option.map_eq_some_iff.mp hp'
    exact ⟨p, hp, hf p⟩
  · exact ⟨p', hp', rfl⟩

/-- A row is rewritten, and the reactions change. -/
theorem retires_insert {c : RewardCollector F} {id : String} {p q : Pending F}
    {reactions : List ReactionRecord} (hp : c.pending[id]? = some p) (hq : q.createdAt = p.createdAt) :
    Retires c ⟨c.pending.insert id q, { c.recovery with reactions := reactions }⟩ := by
  refine retires_of_recovery (fun k p' hp' => ?_) rfl rfl
  have hrow := hp'
  rw [getElem?_insert] at hrow
  split_ifs at hrow with hk
  · cases hrow
    exact ⟨p, hk ▸ hp, hq⟩
  · exact ⟨p', hrow, rfl⟩

/-! ### Crediting -/

theorem createdAt_credit (outcome : ReplyOutcome) (p : Pending F) :
    (credit E outcome p).createdAt = p.createdAt := by
  unfold credit
  split_ifs <;> rfl

theorem createdAt_contribute (positive : Bool) (p : Pending F) :
    (contribute E positive p).2.createdAt = p.createdAt := by
  unfold contribute
  split_ifs <;> rfl

theorem createdAt_reverse (contribution : ReactionContribution) (p : Pending F) :
    (reverse E contribution p).createdAt = p.createdAt := by
  cases contribution <;> rfl

theorem retires_observeReplyTo (c : RewardCollector F) (scope id : String) (outcome : ReplyOutcome)
    (now : ℕ) : Retires c (c.observeReplyTo E scope id outcome now).2 := by
  unfold observeReplyTo
  split
  · exact .refl c
  · exact retires_modify (createdAt_credit outcome)

theorem retires_observeInScope (c : RewardCollector F) (scope observer : String)
    (outcome : ReplyOutcome) (now : ℕ) :
    Retires c (c.observeInScope E scope observer outcome now).2 := by
  unfold observeInScope
  split
  · exact .refl c
  · split
    · exact .refl c
    · split_ifs
      · exact .refl c
      · exact retires_modify (createdAt_credit outcome)

theorem retires_humanReplied (c : RewardCollector F) (scope id : String) (now : ℕ) :
    Retires c (c.humanReplied E scope id now) := by
  unfold humanReplied
  split
  · exact .refl c
  · exact retires_modify fun _ => rfl

theorem retires_feedback (c : RewardCollector F) (scope observer : String) (replyTo : Option String)
    (text : String) (now : ℕ) : Retires c (c.feedback E scope observer replyTo text now).2 := by
  unfold feedback
  split_ifs
  · exact .refl c
  · cases c.attribution scope replyTo now with
    | error reason => exact .refl c
    | ok found =>
      obtain ⟨source, id⟩ := found
      dsimp only
      split_ifs
      · exact .refl c
      · exact (retires_humanReplied c scope id now).trans (retires_observeReplyTo _ scope id _ now)
      · have hobserved := retires_observeInScope (E := E) c scope observer
          ((AskSignature.classify E.lexicon text (c.openAsk id)).getD .noEngagement) now
        split
        · rename_i c' heq
          rw [heq] at hobserved
          exact hobserved
        · rename_i c' heq
          rw [heq] at hobserved
          exact hobserved

theorem retires_reaction (c : RewardCollector F) (key : ReactionKey) (added : Bool) (now : ℕ) :
    Retires c (c.reaction E key added now).2 := by
  rcases reaction_cases (E := E) c key added now with
    ⟨a, hres⟩ | ⟨p, hp, -, -, -, ⟨-, -, hres⟩ | ⟨index, row, -, -, hres⟩⟩
  · rw [hres]
    exact .refl c
  · rw [hres]
    exact retires_insert hp (createdAt_contribute _ p)
  · rw [hres]
    exact retires_insert hp (createdAt_reverse row.contribution p)

/-! ### Pruning and settling -/

theorem le_raise (floor : Option ℕ) (createdAt : ℕ) :
    ∃ floor' ∈ RewardRecovery.raise floor createdAt, createdAt ≤ floor' ∧
      ∀ old ∈ floor, old ≤ floor' := by
  cases floor with
  | none => exact ⟨createdAt, rfl, le_rfl, fun _ h => by cases h⟩
  | some old =>
    refine ⟨max old createdAt, rfl, le_max_right _ _, fun old' h => ?_⟩
    cases h
    exact le_max_left _ _

/-- The floor rises above every turn that is retired. -/
theorem le_foldl_raise (rows : List SettledTurn) (floor : Option ℕ) (createdAt : ℕ)
    (h : (∃ row ∈ rows, row.createdAt = createdAt) ∨ ∃ old ∈ floor, createdAt ≤ old) :
    ∃ floor' ∈ rows.foldl (fun floor row => RewardRecovery.raise floor row.createdAt) floor,
      createdAt ≤ floor' := by
  induction rows generalizing floor with
  | nil =>
    rcases h with ⟨row, hrow, -⟩ | h
    · cases hrow
    · exact h
  | cons row rows ih =>
    obtain ⟨floor', hfloor', hnew, hold⟩ := le_raise floor row.createdAt
    refine ih _ ?_
    rcases h with ⟨row', hrow', rfl⟩ | ⟨old, hmem, hle⟩
    · rcases List.mem_cons.mp hrow' with rfl | hrow'
      · exact .inr ⟨floor', hfloor', hnew⟩
      · exact .inl ⟨row', hrow', rfl⟩
    · exact .inr ⟨floor', hfloor', hle.trans (hold old hmem)⟩

theorem retires_prune (c : RewardCollector F) (now : ℕ) : Retires c (c.pruneRecovery now) := by
  refine ⟨fun _ p hp => ⟨p, hp, rfl⟩, fun id createdAt hm => ?_⟩
  rcases hm with ⟨row, hrow, hmessage, hcreated⟩ | hfloor
  · by_cases hclosed : RewardRecovery.Closed now row = true
    · exact .inr (le_foldl_raise _ _ _
        (.inl ⟨row, List.mem_filter.mpr ⟨hrow, hclosed⟩, hcreated⟩))
    · refine .inl ⟨row, List.mem_filter.mpr ⟨hrow, ?_⟩, hmessage, hcreated⟩
      simpa using hclosed
  · exact .inr (le_foldl_raise _ _ _ (.inr hfloor))

theorem lookup_of_erase {m : BTreeMap String (Pending F)} {key id : String} {p : Pending F}
    (h : (m.erase key)[id]? = some p) : id ≠ key ∧ m[id]? = some p := by
  rw [Std.ExtTreeMap.getElem?_erase] at h
  split_ifs at h with heq
  exact ⟨fun hk => heq (by simp [hk]), h⟩

/-- A closed turn is known as closed, and no longer pending. -/
theorem retires_close (c : RewardCollector F) (now : ℕ) (key : String) (p : Pending F) :
    Retires c (c.close now key p) ∧ (c.close now key p).Marked key p.createdAt ∧
      (c.close now key p).pending[key]? = none := by
  have hnone : (c.close now key p).pending[key]? = none := by
    cases h : (c.close now key p).pending[key]? with
    | none => rfl
    | some q => exact absurd rfl (lookup_of_erase h).1
  have hpending : ∀ (id : String) (p' : Pending F), (c.close now key p).pending[id]? = some p' →
      ∃ p, c.pending[id]? = some p ∧ p'.createdAt = p.createdAt := fun id p' hp' =>
    ⟨p', (lookup_of_erase hp').2, rfl⟩
  unfold close at hnone hpending ⊢
  cases p.reactionTracking with
  | true =>
    refine ⟨⟨hpending, fun id createdAt hm => ?_⟩, ?_, hnone⟩
    · rcases hm with ⟨row, hrow, hrest⟩ | hfloor
      · exact .inl ⟨row, List.mem_append_left _ hrow, hrest⟩
      · exact .inr hfloor
    · exact .inl ⟨_, List.mem_append_right _ List.mem_cons_self, rfl, rfl⟩
  | false =>
    obtain ⟨floor', hfloor', hnew, hold⟩ := le_raise c.recovery.retiredThrough p.createdAt
    refine ⟨⟨hpending, fun id createdAt hm => ?_⟩, .inr ⟨floor', hfloor', hnew⟩, hnone⟩
    rcases hm with hrow | ⟨old, hmem, hle⟩
    · exact .inl hrow
    · exact .inr ⟨floor', hfloor', hle.trans (hold old hmem)⟩

/-- A sweep hands out pending rows, each once, and they are spent after it. -/
theorem drain_spec (now : ℕ) (keys : List String) (c : RewardCollector F) :
    Retires c (drain now keys c).2 ∧ ((drain now keys c).1.map (·.1)).Nodup ∧
    ∀ row ∈ (drain now keys c).1, c.pending[row.1]? = some row.2 ∧
      (drain now keys c).2.pending[row.1]? = none ∧
      (drain now keys c).2.Marked row.1 row.2.createdAt := by
  induction keys generalizing c with
  | nil => exact ⟨.refl c, List.nodup_nil, fun row hrow => (List.not_mem_nil hrow).elim⟩
  | cons key keys ih =>
    unfold drain
    cases hp : c.pending[key]? with
    | none => exact ih c
    | some p =>
      dsimp only
      obtain ⟨hclose, hmarked, hgone⟩ := retires_close c now key p
      obtain ⟨hretires, hnodup, hrows⟩ := ih (c.close now key p)
      have hkey : (drain now keys (c.close now key p)).2.pending[key]? = none := by
        cases h : (drain now keys (c.close now key p)).2.pending[key]? with
        | none => rfl
        | some q =>
          obtain ⟨q', hq', -⟩ := hretires.pending key q h
          rw [hgone] at hq'
          cases hq'
      refine ⟨hclose.trans hretires, ?_, fun row hrow => ?_⟩
      · rw [List.map_cons, List.nodup_cons]
        refine ⟨fun hmem => ?_, hnodup⟩
        obtain ⟨row, hrow, heq⟩ := List.mem_map.mp hmem
        have hpending := (hrows row hrow).1
        rw [heq, hgone] at hpending
        cases hpending
      · rcases List.mem_cons.mp hrow with rfl | hrow
        · exact ⟨hp, hkey, hretires.marked _ _ hmarked⟩
        · obtain ⟨hpending, hrest⟩ := hrows row hrow
          exact ⟨(lookup_of_erase hpending).2, hrest⟩

/-! ### Erasure and restarts -/

theorem retires_forget (c : RewardCollector F) (key : ReactionKey) : Retires c (c.forget E key) := by
  unfold forget
  split
  · exact .refl c
  · rename_i row _
    have hmodify : Retires c (c.modify key.message (reverse E row.contribution)) :=
      retires_modify (createdAt_reverse row.contribution)
    exact hmodify.trans (retires_of_recovery (fun _ p hp => ⟨p, hp, rfl⟩) rfl rfl)

theorem retires_forgets (keys : List ReactionKey) (c : RewardCollector F) :
    Retires c (keys.foldl (forget E) c) := by
  induction keys generalizing c with
  | nil => exact .refl c
  | cons key keys ih => exact (retires_forget c key).trans (ih _)

theorem retires_eraseLearning (c : RewardCollector F) (scope : String) (member : Option String)
    (ledger : ErasureLedger) : Retires c (c.eraseLearning E scope member ledger).2 := by
  refine (retires_forgets (E := E) (c.ownReactions scope member) c).trans ?_
  exact retires_of_recovery (fun _ p hp => ⟨p, (filter_eq_some.mp hp).1, rfl⟩) rfl rfl

/-- A restored collector has the rows that were exported. -/
theorem restoreRecovered_eq_ok {c c' : RewardCollector F}
    (h : (new : RewardCollector F).restoreRecovered E c.exportPending c.exportRecovery = .ok c') :
    c'.pending = c.pending ∧ c'.recovery = c.exportRecovery := by
  simp only [restoreRecovered, bind_eq_ok, exists_unit, pure_eq_ok] at h
  obtain ⟨-, -, rfl⟩ := h
  exact ⟨foldl_insert_toList c.pending, rfl⟩

theorem retires_restart (c : RewardCollector F) : Retires c (step E c .restart).2 := by
  unfold step
  dsimp only
  split
  · rename_i c' h
    obtain ⟨hpending, hrecovery⟩ := restoreRecovered_eq_ok h
    refine ⟨fun id p hp => ⟨p, hpending ▸ hp, rfl⟩, fun id createdAt hm => ?_⟩
    unfold Marked at hm ⊢
    rw [hrecovery]
    rcases hm with ⟨row, hrow, hrest⟩ | hfloor
    · exact .inl ⟨row, (List.mem_insertionSort _).mpr hrow, hrest⟩
    · exact .inr hfloor
  · exact .refl c

/-! ### Along a run -/

/-- The turns that a sweep took, under their message ids. -/
def swept (e : Event (RewardCollector F) (Op F) (Output F)) : List (String × Pending F) :=
  match e.op with
  | .settleExpired now order => (e.before.sweep now order).1
  | _ => []

/-- The ids and creation times that a sweep handed out. -/
def handedOut (e : Event (RewardCollector F) (Op F) (Output F)) : List (String × ℕ) :=
  (swept e).map fun row => (row.1, row.2.createdAt)

variable (E) in
/-- What a turn is settled as, for its guild. -/
def settlement (p : Pending F) : String × Experience F :=
  (p.scopedGuildId, ⟨p.state, p.action, settledReward E p, p.state, true⟩)

variable (E) in
/-- The output is one experience for each turn that the sweep took, and no other operation hands out
any. -/
def Returned (e : Event (RewardCollector F) (Op F) (Output F)) : Prop :=
  match e.out with
  | .settled rows => rows = (swept e).map fun row => settlement E row.2
  | _ => swept e = []

/-- Nothing was handed out twice, and what was handed out is spent. -/
structure Inv (h : Trace F) (c : RewardCollector F) : Prop where
  once : (h.flatMap handedOut).Nodup
  spent : ∀ turn ∈ h.flatMap handedOut, c.Spent turn.1 turn.2

theorem Inv.retires {h : Trace F} {c c' : RewardCollector F}
    {e : Event (RewardCollector F) (Op F) (Output F)} (hinv : Inv h c) (he : handedOut e = [])
    (hc : Retires c c') : Inv (e :: h) c' := by
  constructor
  · rw [List.flatMap_cons, he, List.nil_append]
    exact hinv.once
  · rw [List.flatMap_cons, he, List.nil_append]
    exact fun turn hturn => (hinv.spent turn hturn).retires hc

/-- A turn that is spent is not opened again. -/
theorem Spent.registerTurn {c : RewardCollector F} {id : String} {createdAt : ℕ}
    (hs : c.Spent id createdAt) (turn : ReplyTurn F) :
    (c.registerTurn E turn).Spent id createdAt := by
  unfold RewardCollector.registerTurn
  by_cases hblocked : c.recovery.erasure.blocks E.codec turn.scopedGuildId turn.asker turn.now = true
  · rw [if_pos hblocked]
    exact hs
  · rw [if_neg hblocked]
    have hpruned := hs.retires (retires_prune c turn.now)
    dsimp only
    by_cases hrefuses : (c.pruneRecovery turn.now).Refuses turn
    · rw [if_pos hrefuses]
      exact hpruned
    · rw [if_neg hrefuses]
      refine ⟨fun p hp => ?_, hpruned.2⟩
      rw [getElem?_insert] at hp
      split_ifs at hp with hid
      · cases hp
        intro heq
        subst hid
        have hnow : turn.now = createdAt := heq
        refine hrefuses ?_
        rcases hpruned.2 with ⟨row, hrow, hmessage, -⟩ | ⟨floor, hfloor, hle⟩
        · exact .inr (.inr (.inl ⟨row, hrow, hmessage⟩))
        · exact .inr (.inr (.inr (.inl ⟨floor, hfloor, hnow ▸ hle⟩)))
      · exact hpruned.1 p hp

theorem Inv.step {h : Trace F} {c : RewardCollector F} (hinv : Inv h c) (op : Op F) :
    Inv (event (step E) c op :: h) (RewardCollector.step E c op).2 := by
  cases op with
  | registerTurn turn =>
    refine ⟨hinv.once, fun t ht => ?_⟩
    exact Spent.registerTurn (hinv.spent t ht) turn
  | registerReply state action id guild scope now =>
    refine ⟨hinv.once, fun t ht => ?_⟩
    exact Spent.registerTurn (hinv.spent t ht) _
  | observeReplyTo scope id outcome now =>
    exact hinv.retires rfl (retires_observeReplyTo c scope id outcome now)
  | observeInScope scope observer outcome now =>
    exact hinv.retires rfl (retires_observeInScope c scope observer outcome now)
  | feedback scope observer replyTo text now =>
    exact hinv.retires rfl (retires_feedback c scope observer replyTo text now)
  | humanReplied scope id now => exact hinv.retires rfl (retires_humanReplied c scope id now)
  | reaction key added now => exact hinv.retires rfl (retires_reaction c key added now)
  | abbeyMessageDeleted id => exact hinv.retires rfl (retires_modify fun _ => rfl)
  | eraseLearning scope member ledger =>
    exact hinv.retires rfl (retires_eraseLearning c scope member ledger)
  | restart => exact hinv.retires rfl (retires_restart c)
  | settleExpired now order =>
    have hpruned := retires_prune c now
    obtain ⟨hdrain, hnodup, hrows⟩ := drain_spec now
      ((c.pruneRecovery now).expiredKeys now order) (c.pruneRecovery now)
    have hretires := hpruned.trans hdrain
    have hout : handedOut (event (RewardCollector.step E) c (.settleExpired now order)) =
        (c.sweep now order).1.map fun row => (row.1, row.2.createdAt) := rfl
    constructor
    · rw [List.flatMap_cons, hout, List.nodup_append]
      refine ⟨?_, hinv.once, fun turn hturn turn' hturn' => ?_⟩
      · have hmap : ((c.sweep now order).1.map fun row => (row.1, row.2.createdAt)).map Prod.fst =
            (c.sweep now order).1.map (·.1) := by
          rw [List.map_map]
          rfl
        exact List.Nodup.of_map Prod.fst (hmap ▸ hnodup)
      · rintro rfl
        obtain ⟨row, hrow, rfl⟩ := List.mem_map.mp hturn
        exact (hinv.spent _ hturn').1 row.2 (hrows row hrow).1 rfl
    · intro turn hturn
      rw [List.flatMap_cons, hout, List.mem_append] at hturn
      rcases hturn with hturn | hturn
      · obtain ⟨row, hrow, rfl⟩ := List.mem_map.mp hturn
        obtain ⟨-, hgone, hmarked⟩ := hrows row hrow
        refine ⟨fun p hp => ?_, hmarked⟩
        have hsome : (drain now ((c.pruneRecovery now).expiredKeys now order)
            (c.pruneRecovery now)).2.pending[row.1]? = some p := hp
        rw [hgone] at hsome
        cases hsome
      · exact (hinv.spent turn hturn).retires hretires

variable (E) in
theorem returned_step (c : RewardCollector F) (op : Op F) : Returned E (event (step E) c op) := by
  cases op with
  | restart =>
    unfold Returned event step
    dsimp only
    cases (new : RewardCollector F).restoreRecovered E c.exportPending c.exportRecovery <;> rfl
  | _ => rfl

/-- **Settled at most once.** Along every run, from any collector, at any times, no pair of a message
id and a creation time is handed out by two sweeps, or twice by one: these pairs are of the turns that
the experiences returned are for, one for each. -/
theorem handedOut_once {c₀ c : RewardCollector F} {h : Trace F} (hrun : Run (step E) c₀ h c) :
    (h.flatMap handedOut).Nodup ∧ ∀ e ∈ h, Returned E e := by
  have hinv : Inv h c ∧ ∀ e ∈ h, Returned E e := by
    induction hrun with
    | nil =>
      exact ⟨⟨List.nodup_nil, fun turn hturn => (List.not_mem_nil hturn).elim⟩,
        fun e he => (List.not_mem_nil he).elim⟩
    | cons op _ ih =>
      refine ⟨ih.1.step op, fun e he => ?_⟩
      rcases List.mem_cons.mp he with rfl | he
      · exact returned_step E _ op
      · exact ih.2 e he
  exact ⟨hinv.1.once, hinv.2⟩

/-! ### A turn that is replayed -/

/-- Exact numbers, and hashes that nothing depends on. -/
def sampleEnv : Env ℚ where
  codec := ErasureLedger.sampleCodec
  floats :=
    { lit := id, isFinite := fun _ => true, add := (· + ·), sub := (· - ·), mul := (· * ·)
      div := fun x n => x / n, clamp := fun x low high => max low (min x high)
      isFinite_lit := fun _ _ => rfl, isFinite_add := fun _ _ _ _ => rfl
      isFinite_sub := fun _ _ _ _ => rfl }
  lexicon := ⟨fun _ => [], fun _ => none⟩

def sampleTurn : ReplyTurn ℚ := ⟨[0], 1, "reply", "channel", "garden", "", "rose", 0⟩

def sampleOrder : HashOrder := ⟨id, fun _ => .refl _⟩

/-- The turn is replayed after its settlement, and after its marker is pruned. -/
def replayOps : List (Op ℚ) :=
  [.registerTurn sampleTurn, .settleExpired 200 sampleOrder, .registerTurn sampleTurn, .restart,
    .settleExpired 1000 sampleOrder, .registerTurn sampleTurn, .settleExpired 2000 sampleOrder]

def replayTrace : Trace ℚ := (play (step sampleEnv) RewardCollector.new replayOps).1

theorem replayed_once : replayTrace.flatMap handedOut = [("reply", 0)] ∧
    (replayTrace.flatMap handedOut).Nodup ∧ ∀ e ∈ replayTrace, Returned sampleEnv e := by
  have hrun : Run (step sampleEnv) RewardCollector.new replayTrace
      (play (step sampleEnv) RewardCollector.new replayOps).2 := run_play _ replayOps
  exact ⟨by decide, handedOut_once hrun⟩

end AbbeyBot.Brain.Reward.RewardCollector
