import Mathlib
import AbbeyBot.Brain.Reward.Once

/-! # Restorable at any time

The pending rows, the recorded reactions and the markers are three collections that every operation
keeps in step: a reaction belongs to an open turn, a turn counts its positive reactions, and no turn
is open and closed. What the check of a restart looks for is this invariant, so the exported pair
always passes it. -/

namespace AbbeyBot.Brain.Reward.RewardCollector

open AbbeyBot.Library.History AbbeyBot.Library.OrderedMap AbbeyBot.Library.Result

variable {F : Type} {E : Env F}

/-! ### The invariant -/

structure Restorable (E : Env F) (c : RewardCollector F) : Prop where
  erasure : c.recovery.erasure.Valid
  rows : ∀ (id : String) (p : Pending F), c.pending[id]? = some p →
    p.Sound E.floats id ∧ identity p.scope = true ∧ p.reactionTracking = true
  settled : ∀ row ∈ c.recovery.settled, row.Sound ∧ c.pending[row.message]? = none
  settledOnce : (c.recovery.settled.map (·.message)).Nodup
  room : c.pending.size + c.recovery.settled.length ≤ maxRecoveryEntries
  reactionsRoom : c.recovery.reactions.length ≤ maxRecoveryEntries
  reactionsOnce : (c.recovery.reactions.map (·.key)).Nodup
  reactions : ∀ row ∈ c.recovery.reactions, row.Fits ∧
    ∃ p, c.pending[row.key.message]? = some p ∧ p.scope = row.key.scope
  counts : ∀ (id : String) (p : Pending F), c.pending[id]? = some p →
    positives c.recovery.reactions id = p.positiveReactions

theorem restorable_new : Restorable E (new : RewardCollector F) where
  erasure := ⟨Nat.zero_le _, fun r hr => (List.not_mem_nil hr).elim, List.nodup_nil⟩
  rows id p hp := by simp [new] at hp
  settled row hrow := (List.not_mem_nil hrow).elim
  settledOnce := List.nodup_nil
  room := by simp [new, default]
  reactionsRoom := Nat.zero_le _
  reactionsOnce := List.nodup_nil
  reactions row hrow := (List.not_mem_nil hrow).elim
  counts id p hp := by simp [new] at hp

/-! ### Rows that are credited -/

/-- A row is changed in its rewards only. -/
structure Credits (E : Env F) (p q : Pending F) : Prop where
  sound : ∀ id, p.Sound E.floats id → q.Sound E.floats id
  scope : q.scope = p.scope
  positiveReactions : q.positiveReactions = p.positiveReactions
  reactionTracking : q.reactionTracking = p.reactionTracking

theorem Credits.refl (p : Pending F) : Credits E p p := ⟨fun _ h => h, rfl, rfl, rfl⟩

theorem credits_reward {p : Pending F} {reward : F} {settleImmediately : Bool}
    (h : E.floats.isFinite p.reward = true → E.floats.isFinite reward = true) :
    Credits E p { p with reward := reward, settleImmediately := settleImmediately } where
  sound _ hp := ⟨hp.1, hp.2.1, hp.2.2.1, h hp.2.2.2.1, hp.2.2.2.2⟩
  scope := rfl
  positiveReactions := rfl
  reactionTracking := rfl

theorem credits_credit (outcome : ReplyOutcome) (p : Pending F) :
    Credits E p (credit E outcome p) := by
  unfold credit
  split_ifs
  · exact .refl p
  · refine ⟨fun id hp => ?_, rfl, rfl, rfl⟩
    obtain ⟨hid, haction, hsignature, hreward, hdelayed, hrest⟩ := hp
    exact ⟨hid, haction, hsignature, hreward,
      E.floats.isFinite_add _ _ hdelayed outcome.abs_delayedValue_le, hrest⟩

theorem Restorable.modify {c : RewardCollector F} (hc : Restorable E c) {id : String}
    {f : Pending F → Pending F} (hf : ∀ p, Credits E p (f p)) : Restorable E (c.modify id f) := by
  have hlookup : ∀ (k : String) (q : Pending F), (c.modify id f).pending[k]? = some q →
      ∃ p, c.pending[k]? = some p ∧ Credits E p q := by
    intro k q hq
    rw [RewardCollector.modify, getElem?_modify] at hq
    split_ifs at hq
    · obtain ⟨p, hp, rfl⟩ := Option.map_eq_some_iff.mp hq
      exact ⟨p, hp, hf p⟩
    · exact ⟨q, hq, .refl q⟩
  have hforward : ∀ (k : String) (p : Pending F), c.pending[k]? = some p →
      ∃ q, (c.modify id f).pending[k]? = some q ∧ Credits E p q := by
    intro k p hp
    rw [RewardCollector.modify, getElem?_modify, hp]
    split_ifs
    · exact ⟨f p, rfl, hf p⟩
    · exact ⟨p, rfl, .refl p⟩
  refine ⟨hc.erasure, fun k q hq => ?_, fun row hrow => ?_, hc.settledOnce, ?_, hc.reactionsRoom,
    hc.reactionsOnce, fun row hrow => ?_, fun k q hq => ?_⟩
  · obtain ⟨p, hp, hcredits⟩ := hlookup k q hq
    obtain ⟨hsound, hscope, htracking⟩ := hc.rows k p hp
    exact ⟨hcredits.sound k hsound, hcredits.scope ▸ hscope, hcredits.reactionTracking ▸ htracking⟩
  · obtain ⟨hsound, hnone⟩ := hc.settled row hrow
    refine ⟨hsound, ?_⟩
    cases hq : (c.modify id f).pending[row.message]? with
    | none => rfl
    | some q =>
      obtain ⟨p, hp, -⟩ := hlookup _ q hq
      rw [hnone] at hp
      cases hp
  · show (c.pending.modify id f).size + c.recovery.settled.length ≤ maxRecoveryEntries
    rw [Std.ExtTreeMap.size_modify]
    exact hc.room
  · obtain ⟨hfits, p, hp, hscope⟩ := hc.reactions row hrow
    obtain ⟨q, hq, hcredits⟩ := hforward _ p hp
    exact ⟨hfits, q, hq, hcredits.scope.trans hscope⟩
  · obtain ⟨p, hp, hcredits⟩ := hlookup k q hq
    exact (hc.counts k p hp).trans hcredits.positiveReactions.symm

/-! ### Reactions -/

theorem swapRemove_perm {α : Type} {l : List α} {i : ℕ} {a : α} (h : l[i]? = some a) :
    (a :: swapRemove l i).Perm l := by
  obtain ⟨hlt, rfl⟩ := List.getElem?_eq_some_iff.mp h
  unfold swapRemove
  cases hlast : l.getLast? with
  | none =>
    rw [List.getLast?_eq_none_iff] at hlast
    subst hlast
    exact absurd hlt (Nat.not_lt_zero _)
  | some last =>
    obtain ⟨init, rfl⟩ := List.getLast?_eq_some_iff.mp hlast
    refine List.Perm.trans ?_ (List.getElem_cons_eraseIdx_perm hlt)
    refine List.Perm.cons _ ?_
    rw [List.length_append, List.length_singleton] at hlt
    dsimp only
    rcases Nat.lt_succ_iff_lt_or_eq.mp hlt with hinner | hend
    · rw [List.set_append_left _ _ hinner, List.dropLast_concat,
        List.eraseIdx_append_of_lt_length hinner]
      exact (List.set_perm_cons_eraseIdx hinner last).trans (List.perm_append_singleton _ _).symm
    · subst hend
      rw [List.set_append_right _ _ le_rfl, List.eraseIdx_append_of_length_le le_rfl]
      simp

theorem positives_cons (row : ReactionRecord) (reactions : List ReactionRecord) (id : String) :
    positives (row :: reactions) id = positives reactions id +
      if row.key.message = id ∧ row.contribution = .positive then 1 else 0 := by
  unfold positives
  rw [List.countP_cons]
  congr 1
  simp

theorem positives_perm {reactions reactions' : List ReactionRecord}
    (h : reactions.Perm reactions') (id : String) :
    positives reactions id = positives reactions' id :=
  h.countP_eq _

/-- The rows after one of them is written anew. -/
theorem lookup_insert {m : BTreeMap String (Pending F)} {key id : String} {q p : Pending F}
    (h : (m.insert key q)[id]? = some p) : (id = key ∧ p = q) ∨ (id ≠ key ∧ m[id]? = some p) := by
  rw [getElem?_insert] at h
  split_ifs at h with hk
  · exact .inl ⟨hk.symm, (Option.some.inj h).symm⟩
  · exact .inr ⟨fun heq => hk heq.symm, h⟩

/-- A turn is written anew together with the reactions. -/
theorem Restorable.rewrite {c : RewardCollector F} (hc : Restorable E c) {key : String}
    {p q : Pending F} {reactions : List ReactionRecord} (hp : c.pending[key]? = some p)
    (hsound : q.Sound E.floats key) (hscope : q.scope = p.scope)
    (htracking : q.reactionTracking = p.reactionTracking)
    (hroom : reactions.length ≤ maxRecoveryEntries) (honce : (reactions.map (·.key)).Nodup)
    (hreactions : ∀ row ∈ reactions, row ∈ c.recovery.reactions ∨
      row.Fits ∧ row.key.message = key ∧ p.scope = row.key.scope)
    (hcount : positives reactions key = q.positiveReactions)
    (hothers : ∀ id, id ≠ key → positives reactions id = positives c.recovery.reactions id) :
    Restorable E ⟨c.pending.insert key q, { c.recovery with reactions := reactions }⟩ := by
  have hforward : ∀ (k : String) (p' : Pending F), c.pending[k]? = some p' →
      ∃ q', (c.pending.insert key q)[k]? = some q' ∧ q'.scope = p'.scope := by
    intro k p' hp'
    rw [getElem?_insert]
    split_ifs with hk
    · subst hk
      rw [hp] at hp'
      cases hp'
      exact ⟨q, rfl, hscope⟩
    · exact ⟨p', hp', rfl⟩
  obtain ⟨-, hpscope, hptracking⟩ := hc.rows key p hp
  refine ⟨hc.erasure, fun id p' hp' => ?_, fun row hrow => ?_, hc.settledOnce, ?_, hroom, honce,
    fun row hrow => ?_, fun id p' hp' => ?_⟩
  · rcases lookup_insert hp' with ⟨rfl, rfl⟩ | ⟨-, hp'⟩
    · exact ⟨hsound, hscope ▸ hpscope, htracking ▸ hptracking⟩
    · exact hc.rows id p' hp'
  · obtain ⟨hrowSound, hnone⟩ := hc.settled row hrow
    refine ⟨hrowSound, ?_⟩
    show (c.pending.insert key q)[row.message]? = none
    rw [getElem?_insert, if_neg, hnone]
    rintro rfl
    rw [hnone] at hp
    cases hp
  · show (c.pending.insert key q).size + c.recovery.settled.length ≤ maxRecoveryEntries
    rw [size_insert_some hp]
    exact hc.room
  · rcases hreactions row hrow with hrow | ⟨hfits, hmessage, hrowScope⟩
    · obtain ⟨hfits, p', hp', hrowScope⟩ := hc.reactions row hrow
      obtain ⟨q', hq', heq⟩ := hforward _ p' hp'
      exact ⟨hfits, q', hq', heq.trans hrowScope⟩
    · refine ⟨hfits, q, ?_, hscope.trans hrowScope⟩
      show (c.pending.insert key q)[row.key.message]? = some q
      rw [hmessage, Std.ExtTreeMap.getElem?_insert_self]
  · rcases lookup_insert hp' with ⟨rfl, rfl⟩ | ⟨hne, hp'⟩
    · exact hcount
    · exact (hothers id hne).trans (hc.counts id p' hp')

theorem contribute_cases (positive : Bool) (p : Pending F) :
    (positive = true ∧ p.positiveReactions < maxPositiveReactions ∧
      contribute E positive p = (.positive, { p with
        reward := E.floats.add p.reward (E.floats.lit 1)
        positiveReactions := p.positiveReactions + 1 })) ∨
    (positive = true ∧ contribute E positive p = (.capped, p)) ∨
    (positive = false ∧ contribute E positive p =
      (.negative, { p with reward := E.floats.sub p.reward (E.floats.lit 1) })) := by
  unfold contribute
  by_cases hcap : positive = true ∧ p.positiveReactions < maxPositiveReactions
  · rw [if_pos hcap]
    exact .inl ⟨hcap.1, hcap.2, rfl⟩
  · rw [if_neg hcap]
    cases positive with
    | true => exact .inr (.inl ⟨rfl, rfl⟩)
    | false => exact .inr (.inr ⟨rfl, rfl⟩)

/-- A new reaction is recorded. -/
theorem Restorable.add {c : RewardCollector F} (hc : Restorable E c) {key : ReactionKey}
    {p : Pending F} (hp : c.pending[key.message]? = some p) (hscope : p.scope = key.scope)
    (hemoji : key.emoji ∈ positiveEmoji ∨ key.emoji ∈ negativeEmoji)
    (hnew : ∀ r ∈ c.recovery.reactions, r.key ≠ key)
    (hroom : c.recovery.reactions.length < maxRecoveryEntries) :
    Restorable E ⟨c.pending.insert key.message
        (contribute E (decide (key.emoji ∈ positiveEmoji)) p).2,
      { c.recovery with reactions := c.recovery.reactions ++
        [⟨key, (contribute E (decide (key.emoji ∈ positiveEmoji)) p).1⟩] }⟩ := by
  obtain ⟨hsound, -, -⟩ := hc.rows _ p hp
  obtain ⟨hid, haction, hsignature, hreward, hdelayed, hstate, hpositive, hrest⟩ := hsound
  have hcount := hc.counts _ p hp
  have hone : |(1 : ℚ)| ≤ 2 := by norm_num
  have hperm : ∀ contribution : ReactionContribution,
      (c.recovery.reactions ++ [(⟨key, contribution⟩ : ReactionRecord)]).Perm
        (⟨key, contribution⟩ :: c.recovery.reactions) := fun _ => List.perm_append_singleton _ _
  have hlength : ∀ contribution : ReactionContribution,
      (c.recovery.reactions ++ [(⟨key, contribution⟩ : ReactionRecord)]).length ≤
        maxRecoveryEntries := by
    intro contribution
    rw [List.length_append, List.length_singleton]
    exact hroom
  have honce : ∀ contribution : ReactionContribution,
      ((c.recovery.reactions ++ [(⟨key, contribution⟩ : ReactionRecord)]).map (·.key)).Nodup := by
    intro contribution
    rw [((hperm contribution).map (·.key)).nodup_iff, List.map_cons, List.nodup_cons]
    refine ⟨fun hmem => ?_, hc.reactionsOnce⟩
    obtain ⟨r, hr, hk⟩ := List.mem_map.mp hmem
    exact hnew r hr hk
  have hmembers : ∀ contribution, ReactionRecord.Fits ⟨key, contribution⟩ →
      ∀ row ∈ c.recovery.reactions ++ [(⟨key, contribution⟩ : ReactionRecord)],
        row ∈ c.recovery.reactions ∨
        row.Fits ∧ row.key.message = key.message ∧ p.scope = row.key.scope := by
    intro contribution hfits row hrow
    rcases List.mem_append.mp hrow with hrow | hrow
    · exact .inl hrow
    · rw [List.mem_singleton] at hrow
      subst hrow
      exact .inr ⟨hfits, rfl, hscope⟩
  have hpositives : ∀ (contribution : ReactionContribution) (id : String),
      positives (c.recovery.reactions ++ [⟨key, contribution⟩]) id =
        positives c.recovery.reactions id +
          if key.message = id ∧ contribution = .positive then 1 else 0 := fun contribution id =>
    (positives_perm (hperm contribution) id).trans (positives_cons _ _ id)
  have hothers : ∀ (contribution : ReactionContribution) (id : String), id ≠ key.message →
      positives (c.recovery.reactions ++ [⟨key, contribution⟩]) id =
        positives c.recovery.reactions id := by
    intro contribution id hne
    rw [hpositives, if_neg fun h => hne h.1.symm, Nat.add_zero]
  rcases contribute_cases (E := E) (decide (key.emoji ∈ positiveEmoji)) p with
    ⟨hmem, hcap, heq⟩ | ⟨hmem, heq⟩ | ⟨hmem, heq⟩ <;> rw [heq]
  · refine hc.rewrite hp ⟨hid, haction, hsignature, ?_, hdelayed, hstate, hcap, hrest⟩ rfl rfl
      (hlength _) (honce _) (hmembers _ (of_decide_eq_true hmem)) ?_ (hothers _)
    · exact E.floats.isFinite_add _ _ hreward hone
    · rw [hpositives, if_pos ⟨rfl, rfl⟩, hcount]
  · refine hc.rewrite hp ⟨hid, haction, hsignature, hreward, hdelayed, hstate, hpositive, hrest⟩ rfl
      rfl (hlength _) (honce _) (hmembers _ (of_decide_eq_true hmem)) ?_ (hothers _)
    rw [hpositives, if_neg (by simp), hcount, Nat.add_zero]
  · have hnegative := hemoji.resolve_left (of_decide_eq_false hmem)
    refine hc.rewrite hp ⟨hid, haction, hsignature, ?_, hdelayed, hstate, hpositive, hrest⟩ rfl rfl
      (hlength _) (honce _) (hmembers _ hnegative) ?_ (hothers _)
    · exact E.floats.isFinite_sub _ _ hreward hone
    · rw [hpositives, if_neg (by simp), hcount, Nat.add_zero]

/-- A recorded reaction is taken back. -/
theorem Restorable.take {c : RewardCollector F} (hc : Restorable E c) {row : ReactionRecord}
    {reactions : List ReactionRecord} {p : Pending F}
    (hperm : (row :: reactions).Perm c.recovery.reactions)
    (hp : c.pending[row.key.message]? = some p) :
    Restorable E ⟨c.pending.insert row.key.message (reverse E row.contribution p),
      { c.recovery with reactions := reactions }⟩ := by
  obtain ⟨hsound, -, -⟩ := hc.rows _ p hp
  obtain ⟨hid, haction, hsignature, hreward, hdelayed, hstate, hpositive, hrest⟩ := hsound
  have hone : |(1 : ℚ)| ≤ 2 := by norm_num
  have hlength : reactions.length ≤ maxRecoveryEntries := by
    have hlength := hperm.length_eq
    rw [List.length_cons] at hlength
    have hroom := hc.reactionsRoom
    omega
  have honce : (reactions.map (·.key)).Nodup := by
    have honce := (hperm.map (·.key)).nodup_iff.mpr hc.reactionsOnce
    exact (List.nodup_cons.mp honce).2
  have hmembers : ∀ r ∈ reactions, r ∈ c.recovery.reactions ∨
      r.Fits ∧ r.key.message = row.key.message ∧ p.scope = r.key.scope := fun r hr =>
    .inl (hperm.mem_iff.mp (List.mem_cons_of_mem _ hr))
  have hpositives : ∀ id, positives c.recovery.reactions id = positives reactions id +
      if row.key.message = id ∧ row.contribution = .positive then 1 else 0 := fun id =>
    (positives_perm hperm id).symm.trans (positives_cons row reactions id)
  have hothers : ∀ id, id ≠ row.key.message →
      positives reactions id = positives c.recovery.reactions id := by
    intro id hne
    rw [hpositives, if_neg fun h => hne h.1.symm, Nat.add_zero]
  have hcount := (hpositives row.key.message).symm.trans (hc.counts _ p hp)
  cases hcontribution : row.contribution with
  | positive =>
    rw [hcontribution, if_pos ⟨rfl, rfl⟩] at hcount
    refine hc.rewrite hp ⟨hid, haction, hsignature, ?_, hdelayed, hstate, ?_, hrest⟩ rfl rfl hlength
      honce hmembers ?_ hothers
    · exact E.floats.isFinite_sub _ _ hreward hone
    · exact (Nat.sub_le _ _).trans hpositive
    · show positives reactions row.key.message = p.positiveReactions - 1
      omega
  | negative =>
    rw [hcontribution, if_neg (by simp)] at hcount
    refine hc.rewrite hp ⟨hid, haction, hsignature, ?_, hdelayed, hstate, hpositive, hrest⟩ rfl rfl
      hlength honce hmembers hcount hothers
    exact E.floats.isFinite_add _ _ hreward hone
  | capped =>
    rw [hcontribution, if_neg (by simp)] at hcount
    exact hc.rewrite hp ⟨hid, haction, hsignature, hreward, hdelayed, hstate, hpositive, hrest⟩ rfl
      rfl hlength honce hmembers hcount hothers

theorem Restorable.reaction {c : RewardCollector F} (hc : Restorable E c) (key : ReactionKey)
    (added : Bool) (now : ℕ) : Restorable E (c.reaction E key added now).2 := by
  rcases reaction_cases (E := E) c key added now with
    ⟨a, hres⟩ | ⟨p, hp, hscope, -, hemoji, ⟨hnew, hroom, hres⟩ | ⟨index, row, hrow, hkey, hres⟩⟩
  · rw [hres]
    exact hc
  · rw [hres]
    exact hc.add hp hscope hemoji hnew hroom
  · rw [hres]
    subst hkey
    exact hc.take (swapRemove_perm hrow) hp

/-! ### Turns that are opened and closed -/

theorem Restorable.prune {c : RewardCollector F} (hc : Restorable E c) (now : ℕ) :
    Restorable E (c.pruneRecovery now) where
  erasure := hc.erasure
  rows := hc.rows
  settled row hrow := hc.settled row (List.mem_filter.mp hrow).1
  settledOnce := hc.settledOnce.sublist (List.filter_sublist.map _)
  room := (Nat.add_le_add_left (List.length_filter_le _ _) _).trans hc.room
  reactionsRoom := hc.reactionsRoom
  reactionsOnce := hc.reactionsOnce
  reactions := hc.reactions
  counts := hc.counts

/-- What the callers promise of a turn. -/
structure Proper (E : Env F) (turn : ReplyTurn F) : Prop where
  id : identity turn.sentNativeMessageId = true
  scope : identity turn.scope = true
  action : (BotAction.fromIndex turn.action).isSome = true
  state : ∀ v ∈ turn.state, E.floats.isFinite v = true

theorem Proper.sound {turn : ReplyTurn F} (h : Proper E turn) :
    (opened E turn).Sound E.floats turn.sentNativeMessageId := by
  refine ⟨h.id, h.action, AskSignature.valid_fromText _ _, ?_, ?_, h.state, Nat.zero_le _,
    fun _ => h.scope⟩
  · exact E.floats.isFinite_lit _ (by norm_num [replyBaseline, abs_le])
  · exact E.floats.isFinite_lit _ (by norm_num)

theorem positives_eq_zero {reactions : List ReactionRecord} {id : String}
    (h : ∀ row ∈ reactions, row.key.message ≠ id) : positives reactions id = 0 := by
  refine List.countP_eq_zero.mpr fun row hrow => ?_
  simp [h row hrow]

theorem Restorable.registerTurn {c : RewardCollector F} (hc : Restorable E c) {turn : ReplyTurn F}
    (hturn : Proper E turn) : Restorable E (c.registerTurn E turn) := by
  unfold RewardCollector.registerTurn
  dsimp only
  split_ifs with hblocked hrefuses
  · exact hc
  · exact hc.prune turn.now
  · have hpruned := hc.prune turn.now
    generalize c.pruneRecovery turn.now = c at hpruned hrefuses
    unfold Refuses at hrefuses
    rw [not_or, not_or, not_or, not_or, not_le] at hrefuses
    obtain ⟨-, hclosed, hunsettled, -, hroom⟩ := hrefuses
    have hnone : c.pending[turn.sentNativeMessageId]? = none := by
      cases hp : c.pending[turn.sentNativeMessageId]? with
      | none => rfl
      | some p => exact absurd (mem_iff.mpr ⟨p, hp⟩) hclosed
    have hforeign : ∀ row ∈ c.recovery.reactions, row.key.message ≠ turn.sentNativeMessageId := by
      intro row hrow heq
      obtain ⟨-, p, hp, -⟩ := hpruned.reactions row hrow
      rw [heq, hnone] at hp
      cases hp
    refine ⟨hpruned.erasure, fun id p hp => ?_, fun row hrow => ?_, hpruned.settledOnce, ?_,
      hpruned.reactionsRoom, hpruned.reactionsOnce, fun row hrow => ?_, fun id p hp => ?_⟩
    · rcases lookup_insert hp with ⟨rfl, rfl⟩ | ⟨-, hp⟩
      · exact ⟨hturn.sound, hturn.scope, rfl⟩
      · exact hpruned.rows id p hp
    · obtain ⟨hsound, hrowNone⟩ := hpruned.settled row hrow
      refine ⟨hsound, ?_⟩
      show (c.pending.insert turn.sentNativeMessageId (opened E turn))[row.message]? = none
      rw [getElem?_insert, if_neg fun heq => hunsettled ⟨row, hrow, heq.symm⟩, hrowNone]
    · show (c.pending.insert turn.sentNativeMessageId (opened E turn)).size +
        c.recovery.settled.length ≤ maxRecoveryEntries
      rw [size_insert_none hnone]
      omega
    · obtain ⟨hfits, p, hp, hscope⟩ := hpruned.reactions row hrow
      refine ⟨hfits, p, ?_, hscope⟩
      show (c.pending.insert turn.sentNativeMessageId (opened E turn))[row.key.message]? = some p
      rw [getElem?_insert, if_neg (hforeign row hrow).symm, hp]
    · rcases lookup_insert hp with ⟨rfl, rfl⟩ | ⟨-, hp⟩
      · exact positives_eq_zero hforeign
      · exact hpruned.counts id p hp

/-- The reactions to other turns are counted as before. -/
theorem positives_filter {reactions : List ReactionRecord} {keep : ReactionRecord → Bool} {id : String}
    (h : ∀ row ∈ reactions, row.key.message = id → keep row = true) :
    positives (reactions.filter keep) id = positives reactions id := by
  unfold positives
  rw [List.countP_filter]
  refine List.countP_congr fun row hrow => ?_
  simp only [Bool.and_eq_true, decide_eq_true_eq]
  constructor
  · exact fun hp => hp.1
  · exact fun hp => ⟨hp, h row hrow hp.1⟩

/-- Turns go, with the reactions to them. -/
theorem Restorable.drop {c : RewardCollector F} (hc : Restorable E c)
    (pending : BTreeMap String (Pending F)) (keep : ReactionRecord → Bool)
    (hsub : ∀ (id : String) (p : Pending F), pending[id]? = some p → c.pending[id]? = some p)
    (hsize : pending.size ≤ c.pending.size)
    (hkeep : ∀ row ∈ c.recovery.reactions, keep row = true ↔
      ∃ p, pending[row.key.message]? = some p) :
    Restorable E ⟨pending, { c.recovery with reactions := c.recovery.reactions.filter keep }⟩ where
  erasure := hc.erasure
  rows id p hp := hc.rows id p (hsub id p hp)
  settled row hrow := by
    obtain ⟨hsound, hnone⟩ := hc.settled row hrow
    refine ⟨hsound, ?_⟩
    show pending[row.message]? = none
    cases hp : pending[row.message]? with
    | none => rfl
    | some p =>
      rw [hsub _ p hp] at hnone
      cases hnone
  settledOnce := hc.settledOnce
  room := (Nat.add_le_add_right hsize _).trans hc.room
  reactionsRoom := (List.length_filter_le _ _).trans hc.reactionsRoom
  reactionsOnce := hc.reactionsOnce.sublist (List.filter_sublist.map _)
  reactions row hrow := by
    obtain ⟨hrow, hkept⟩ := List.mem_filter.mp hrow
    obtain ⟨hfits, p, hp, hscope⟩ := hc.reactions row hrow
    obtain ⟨q, hq⟩ := (hkeep row hrow).mp hkept
    refine ⟨hfits, q, hq, ?_⟩
    rw [hsub _ q hq] at hp
    cases hp
    exact hscope
  counts id p hp := by
    refine (positives_filter fun row hrow heq => ?_).trans (hc.counts id p (hsub id p hp))
    exact (hkeep row hrow).mpr ⟨p, by rw [heq]; exact hp⟩

theorem Restorable.close {c : RewardCollector F} (hc : Restorable E c) (now : ℕ) {key : String}
    {p : Pending F} (hp : c.pending[key]? = some p) : Restorable E (c.close now key p) := by
  obtain ⟨hsound, hscope, htracking⟩ := hc.rows key p hp
  have hgone : (c.pending.erase key)[key]? = none := Std.ExtTreeMap.getElem?_erase_self
  have hsize : (c.pending.erase key).size + 1 = c.pending.size := by
    have hmem : c.pending.contains key = true :=
      Std.ExtTreeMap.mem_iff_contains.mp (mem_iff.mpr ⟨p, hp⟩)
    have hpos : 0 < c.pending.size := by
      refine Nat.pos_of_ne_zero fun hzero => ?_
      have hle := size_insert_some (w := p) hp
      rw [Std.ExtTreeMap.size_insert, if_pos hmem] at hle
      have hempty : c.pending = ∅ := Std.ExtTreeMap.eq_empty_iff_size_eq_zero.mpr hzero
      rw [hempty] at hp
      simp at hp
    rw [Std.ExtTreeMap.size_erase, if_pos hmem]
    omega
  have hdrop := hc.drop (c.pending.erase key) (fun r => r.key.message ≠ key)
    (fun id q hq => (lookup_of_erase hq).2) (by omega) fun row hrow => by
      obtain ⟨-, q, hq, -⟩ := hc.reactions row hrow
      rw [decide_eq_true_eq]
      constructor
      · intro hne
        refine ⟨q, ?_⟩
        rw [Std.ExtTreeMap.getElem?_erase, if_neg, hq]
        intro heq
        exact hne (Std.LawfulEqCmp.eq_of_compare heq).symm
      · rintro ⟨q', hq'⟩
        exact (lookup_of_erase hq').1
  unfold RewardCollector.close
  rw [htracking]
  refine ⟨hdrop.erasure, hdrop.rows, fun row hrow => ?_, ?_, ?_, hdrop.reactionsRoom,
    hdrop.reactionsOnce, hdrop.reactions, hdrop.counts⟩
  · rcases List.mem_append.mp hrow with hrow | hrow
    · exact hdrop.settled row hrow
    · rw [List.mem_singleton] at hrow
      subst hrow
      exact ⟨⟨hsound.1, fun _ => hscope, le_max_right _ _⟩, hgone⟩
  · show ((c.recovery.settled ++ [(_ : SettledTurn)]).map (·.message)).Nodup
    rw [List.map_append, List.nodup_append]
    refine ⟨hc.settledOnce, List.nodup_singleton _, fun message hmessage message' hmessage' => ?_⟩
    rw [List.map_singleton, List.mem_singleton] at hmessage'
    rintro rfl
    obtain ⟨row, hrow, rfl⟩ := List.mem_map.mp hmessage
    have hnone := (hc.settled row hrow).2
    rw [hmessage', hp] at hnone
    cases hnone
  · show (c.pending.erase key).size + (c.recovery.settled ++ [(_ : SettledTurn)]).length ≤
      maxRecoveryEntries
    rw [List.length_append, List.length_singleton]
    have hroom := hc.room
    omega

theorem Restorable.drain {c : RewardCollector F} (hc : Restorable E c) (now : ℕ)
    (keys : List String) : Restorable E (drain now keys c).2 := by
  induction keys generalizing c with
  | nil => exact hc
  | cons key keys ih =>
    unfold RewardCollector.drain
    cases hp : c.pending[key]? with
    | none => exact ih hc
    | some p => exact ih (hc.close now hp)

/-! ### Erasure -/

theorem modify_eq_insert {m : BTreeMap String (Pending F)} {key : String} {p : Pending F}
    {f : Pending F → Pending F} (hp : m[key]? = some p) : m.modify key f = m.insert key (f p) := by
  refine Std.ExtTreeMap.ext_getElem? fun id => ?_
  rw [getElem?_modify, getElem?_insert]
  split_ifs with heq
  · rw [← heq, hp]
    rfl
  · rfl

theorem find?_eraseP_perm {α : Type} {q : α → Bool} {l : List α} {a : α} (h : l.find? q = some a) :
    (a :: l.eraseP q).Perm l := by
  induction l with
  | nil => cases h
  | cons b l ih =>
    by_cases hb : q b = true
    · rw [List.find?_cons_of_pos hb, Option.some.injEq] at h
      subst h
      rw [List.eraseP_cons_of_pos hb]
    · rw [List.find?_cons_of_neg hb] at h
      rw [List.eraseP_cons_of_neg hb]
      exact (List.Perm.swap _ _ _).trans ((ih h).cons b)

theorem Restorable.forget {c : RewardCollector F} (hc : Restorable E c) (key : ReactionKey) :
    Restorable E (c.forget E key) := by
  unfold RewardCollector.forget
  cases hrow : c.recovery.reactions.find? (·.key = key) with
  | none => exact hc
  | some row =>
    have hmem := List.mem_of_find?_eq_some hrow
    have hkey : row.key = key := by
      have hfound := List.find?_some hrow
      simpa using hfound
    subst hkey
    obtain ⟨-, p, hp, -⟩ := hc.reactions row hmem
    dsimp only
    rw [modify_eq_insert hp]
    exact hc.take (find?_eraseP_perm hrow) hp

theorem Restorable.forgets {c : RewardCollector F} (hc : Restorable E c) (keys : List ReactionKey) :
    Restorable E (keys.foldl (RewardCollector.forget E) c) := by
  induction keys generalizing c with
  | nil => exact hc
  | cons key keys ih => exact ih (hc.forget key)

/-- The turns that an erasure drops. -/
theorem mem_linkedTurns {c : RewardCollector F} {scope id : String} {member : Option String} :
    id ∈ (c.pending.toList.filter fun (_, p) => Linked scope member p).map (·.1) ↔
      ∃ p, c.pending[id]? = some p ∧ Linked scope member p = true := by
  simp

theorem Restorable.eraseLearning {c : RewardCollector F} (hc : Restorable E c) (scope : String)
    (member : Option String) {ledger : ErasureLedger} (hledger : ledger.Valid) :
    Restorable E (c.eraseLearning E scope member ledger).2 := by
  have hforgets := hc.forgets (c.ownReactions scope member)
  have hdrop := hforgets.drop (((c.ownReactions scope member).foldl
      (RewardCollector.forget E) c).pending.filter fun id _ => decide (id ∉
        (c.pending.toList.filter fun (_, p) => Linked scope member p).map (·.1)))
    (fun r => decide (r.key.message ∉
      (c.pending.toList.filter fun (_, p) => Linked scope member p).map (·.1)))
    (fun id p hp => (filter_eq_some.mp hp).1) ?_ ?_
  · exact ⟨hledger, hdrop.rows, hdrop.settled, hdrop.settledOnce, hdrop.room, hdrop.reactionsRoom,
      hdrop.reactionsOnce, hdrop.reactions, hdrop.counts⟩
  · exact size_le_of_keys fun id p hp => ⟨p, (filter_eq_some.mp hp).1⟩
  · intro row hrow
    obtain ⟨-, p, hp, -⟩ := hforgets.reactions row hrow
    constructor
    · exact fun hkept => ⟨p, filter_eq_some.mpr ⟨hp, hkept⟩⟩
    · rintro ⟨q, hq⟩
      exact (filter_eq_some.mp hq).2

/-! ### Export and restore -/

/-- Rows that were sorted stay where they are. -/
theorem insertionSort_again {α β : Type} [LinearOrder β] (f : α → β) (l : List α) :
    (l.insertionSort fun a b => f a ≤ f b).insertionSort (fun a b => f a ≤ f b) =
      l.insertionSort fun a b => f a ≤ f b := by
  have htotal : Std.Total fun a b : α => f a ≤ f b := ⟨fun a b => le_total (f a) (f b)⟩
  have htrans : IsTrans α fun a b => f a ≤ f b := ⟨fun _ _ _ hab hbc => le_trans hab hbc⟩
  exact (List.pairwise_insertionSort _ l).insertionSort_eq

/-- What is exported differs from what is kept in the order of the rows only. -/
theorem exportRecovery_perm (c : RewardCollector F) :
    c.exportRecovery.reactions.Perm c.recovery.reactions ∧
      c.exportRecovery.settled.Perm c.recovery.settled :=
  ⟨List.perm_insertionSort _ _, List.perm_insertionSort _ _⟩

theorem Restorable.exported {c : RewardCollector F} (hc : Restorable E c) :
    Restorable E ⟨c.pending, c.exportRecovery⟩ := by
  obtain ⟨hreactions, hsettled⟩ := exportRecovery_perm c
  refine ⟨hc.erasure, hc.rows, fun row hrow => hc.settled row (hsettled.mem_iff.mp hrow), ?_, ?_, ?_,
    ?_, fun row hrow => hc.reactions row (hreactions.mem_iff.mp hrow), fun id p hp => ?_⟩
  · exact (hsettled.map _).nodup_iff.mpr hc.settledOnce
  · exact hsettled.length_eq ▸ hc.room
  · exact hreactions.length_eq ▸ hc.reactionsRoom
  · exact (hreactions.map _).nodup_iff.mpr hc.reactionsOnce
  · exact (positives_perm hreactions id).trans (hc.counts id p hp)

theorem mem_exportPending {c : RewardCollector F} {row : String × Pending F} :
    row ∈ c.exportPending ↔ c.pending[row.1]? = some row.2 :=
  Std.ExtTreeMap.mem_toList_iff_getElem?_eq_some

theorem checkReactions_ok {c : RewardCollector F} (hc : Restorable E c)
    {reactions : List ReactionRecord} {seen : List ReactionKey}
    (hsub : ∀ row ∈ reactions, row ∈ c.recovery.reactions)
    (honce : (reactions.map (·.key)).Nodup) (hseen : ∀ row ∈ reactions, row.key ∉ seen) :
    RewardRecovery.checkReactions c.exportPending seen reactions = .ok () := by
  induction reactions generalizing seen with
  | nil => rfl
  | cons row rest ih =>
    obtain ⟨hfits, p, hp, hscope⟩ := hc.reactions row (hsub row List.mem_cons_self)
    obtain ⟨hsound, hidentity, htracking⟩ := hc.rows _ p hp
    have hfind : c.exportPending.find? (fun (id, _) => id = row.key.message) =
        some (row.key.message, p) := by
      cases hfound : c.exportPending.find? (fun (id, _) => id = row.key.message) with
      | none =>
        have hnot := List.find?_eq_none.mp hfound (row.key.message, p) (mem_exportPending.mpr hp)
        simp at hnot
      | some found =>
        obtain ⟨id, q⟩ := found
        have hid : id = row.key.message := by
          have hsatisfies := List.find?_some hfound
          simpa using hsatisfies
        subst hid
        have hq := mem_exportPending.mp (List.mem_of_find?_eq_some hfound)
        rw [hp] at hq
        cases hq
        rfl
    rw [List.map_cons, List.nodup_cons] at honce
    unfold RewardRecovery.checkReactions
    rw [ensure_of ⟨hscope ▸ hidentity, hsound.1, hseen row List.mem_cons_self⟩, hfind]
    show (do
      ensure (p.reactionTracking = true ∧ p.scope = row.key.scope ∧ row.Fits)
        "invalid reaction contribution"
      RewardRecovery.checkReactions c.exportPending (row.key :: seen) rest) = .ok ()
    rw [ensure_of ⟨htracking, hscope, hfits⟩]
    refine ih (fun r hr => hsub r (List.mem_cons_of_mem _ hr)) honce.2 fun r hr => ?_
    rw [List.mem_cons, not_or]
    refine ⟨fun heq => honce.1 ?_, hseen r (List.mem_cons_of_mem _ hr)⟩
    exact heq ▸ List.mem_map_of_mem hr

/-- A collector that keeps the invariant passes the check. -/
theorem Restorable.validate {c : RewardCollector F} (hc : Restorable E c) :
    c.recovery.validate E.floats c.exportPending = .ok () := by
  have hkeys : (c.exportPending.map (·.1)).Nodup := by
    unfold exportPending
    rw [Std.ExtTreeMap.map_fst_toList_eq_keys]
    exact Std.ExtTreeMap.nodup_keys
  have hrows : ∀ row ∈ c.exportPending, row.2.Sound E.floats row.1 := fun row hrow =>
    (hc.rows row.1 row.2 (mem_exportPending.mp hrow)).1
  have htracked : c.exportPending.countP (fun (_, p) => p.reactionTracking) ≤ c.pending.size := by
    have hlength : c.exportPending.length = c.pending.size := Std.ExtTreeMap.length_toList
    exact hlength ▸ List.countP_le_length
  have hroom : c.recovery.settled.length +
      c.exportPending.countP (fun (_, p) => p.reactionTracking) ≤ maxRecoveryEntries := by
    have hroom := hc.room
    omega
  have hall : (c.exportPending.map (·.1) ++ c.recovery.settled.map (·.message)).Nodup := by
    refine List.nodup_append.mpr ⟨hkeys, hc.settledOnce, fun id hid message hmessage => ?_⟩
    rintro rfl
    obtain ⟨row, hrow, rfl⟩ := List.mem_map.mp hid
    obtain ⟨closed, hclosed, heq⟩ := List.mem_map.mp hmessage
    have hnone := (hc.settled closed hclosed).2
    rw [heq, mem_exportPending.mp hrow] at hnone
    cases hnone
  simp only [RewardRecovery.validate, bind_eq_ok, exists_unit, ensure_eq_ok]
  refine ⟨ErasureLedger.validate_iff.mpr hc.erasure, ⟨hc.reactionsRoom, hroom⟩, ⟨hrows, hkeys⟩,
    ⟨fun row hrow => (hc.settled row hrow).1, hall⟩, ?_, fun row hrow _ => ?_⟩
  · exact checkReactions_ok hc (fun _ h => h) hc.reactionsOnce fun _ _ => List.not_mem_nil
  · exact hc.counts row.1 row.2 (mem_exportPending.mp hrow)

/-- The exported pair is restored. -/
theorem Restorable.restore {c : RewardCollector F} (hc : Restorable E c) :
    (new : RewardCollector F).restoreRecovered E c.exportPending c.exportRecovery =
      .ok ⟨c.pending, c.exportRecovery⟩ := by
  simp only [restoreRecovered, bind_eq_ok, exists_unit, ensure_eq_ok, pure_eq_ok]
  refine ⟨hc.exported.validate, ⟨?_, rfl⟩, ?_⟩
  · simp [new]
  · congr 1
    exact foldl_insert_toList c.pending

/-! ### Along a run -/

/-- What the callers promise: turns that are proper, and ledgers that pass their check. -/
def Admissible (E : Env F) : Op F → Prop
  | .registerTurn turn => Proper E turn
  | .registerReply state action id guild scope now =>
    Proper E ⟨state, action, id, scope, guild, "", "", now⟩
  | .eraseLearning _ _ ledger => ledger.validate = .ok ()
  | _ => True

theorem Restorable.humanReplied {c : RewardCollector F} (hc : Restorable E c) (scope id : String)
    (now : ℕ) : Restorable E (c.humanReplied E scope id now) := by
  unfold RewardCollector.humanReplied
  split
  · exact hc
  · exact hc.modify fun p => credits_reward fun hreward =>
      E.floats.isFinite_add _ _ hreward (by norm_num [abs_le])

theorem Restorable.observeReplyTo {c : RewardCollector F} (hc : Restorable E c) (scope id : String)
    (outcome : ReplyOutcome) (now : ℕ) : Restorable E (c.observeReplyTo E scope id outcome now).2 := by
  unfold RewardCollector.observeReplyTo
  split
  · exact hc
  · exact hc.modify (credits_credit outcome)

theorem Restorable.observeInScope {c : RewardCollector F} (hc : Restorable E c)
    (scope observer : String) (outcome : ReplyOutcome) (now : ℕ) :
    Restorable E (c.observeInScope E scope observer outcome now).2 := by
  unfold RewardCollector.observeInScope
  split
  · exact hc
  · split
    · exact hc
    · split_ifs
      · exact hc
      · exact hc.modify (credits_credit outcome)

theorem Restorable.feedback {c : RewardCollector F} (hc : Restorable E c) (scope observer : String)
    (replyTo : Option String) (text : String) (now : ℕ) :
    Restorable E (c.feedback E scope observer replyTo text now).2 := by
  unfold RewardCollector.feedback
  split_ifs
  · exact hc
  · cases c.attribution scope replyTo now with
    | error reason => exact hc
    | ok found =>
      obtain ⟨source, id⟩ := found
      dsimp only
      split_ifs
      · exact hc
      · exact (hc.humanReplied scope id now).observeReplyTo scope id _ now
      · have hobserved := hc.observeInScope scope observer
          ((AskSignature.classify E.lexicon text (c.openAsk id)).getD .noEngagement) now
        split
        · rename_i c' heq
          rw [heq] at hobserved
          exact hobserved
        · rename_i c' heq
          rw [heq] at hobserved
          exact hobserved

theorem Restorable.step {c : RewardCollector F} (hc : Restorable E c) {op : Op F}
    (hop : Admissible E op) : Restorable E (RewardCollector.step E c op).2 := by
  cases op with
  | registerTurn turn => exact hc.registerTurn hop
  | registerReply state action id guild scope now => exact hc.registerTurn hop
  | observeReplyTo scope id outcome now => exact hc.observeReplyTo scope id outcome now
  | observeInScope scope observer outcome now => exact hc.observeInScope scope observer outcome now
  | feedback scope observer replyTo text now => exact hc.feedback scope observer replyTo text now
  | humanReplied scope id now => exact hc.humanReplied scope id now
  | reaction key added now => exact hc.reaction key added now
  | abbeyMessageDeleted id =>
    exact hc.modify fun p => credits_reward fun _ => E.floats.isFinite_lit _ (by norm_num)
  | settleExpired now order => exact (hc.prune now).drain now _
  | eraseLearning scope member ledger =>
    exact hc.eraseLearning scope member (ErasureLedger.validate_iff.mp hop)
  | restart =>
    unfold RewardCollector.step
    dsimp only
    rw [hc.restore]
    exact hc.exported

theorem Restorable.run {c₀ c : RewardCollector F} {h : Trace F} (hc₀ : Restorable E c₀)
    (hrun : Run (RewardCollector.step E) c₀ h c) (hops : ∀ e ∈ h, Admissible E e.op) :
    Restorable E c := by
  induction hrun with
  | nil => exact hc₀
  | cons op _ ih =>
    have hearlier := ih fun e he => hops e (List.mem_cons_of_mem _ he)
    exact hearlier.step (hops _ List.mem_cons_self)

/-- **Restorable at any time.** Along every run of a new collector, with any reactions, replies, times,
sweeps, erasures and restarts, the exported pair passes the check and is restored to a collector that
differs in the order of the recovery rows only, which are sorted; every open turn counts its recorded
positive reactions; and open and closed turns together are at most 4096. -/
theorem restorable_along_run {c : RewardCollector F} {h : Trace F}
    (hrun : Run (RewardCollector.step E) new h c) (hops : ∀ e ∈ h, Admissible E e.op) :
    c.exportRecovery.validate E.floats c.exportPending = .ok () ∧
    (∃ c', (new : RewardCollector F).restoreRecovered E c.exportPending c.exportRecovery = .ok c' ∧
      c'.pending = c.pending ∧ c'.recovery.erasure = c.recovery.erasure ∧
      c'.recovery.retiredThrough = c.recovery.retiredThrough ∧
      c'.recovery.reactions.Perm c.recovery.reactions ∧
      c'.recovery.settled.Perm c.recovery.settled ∧
      c'.exportPending = c.exportPending ∧ c'.exportRecovery = c.exportRecovery) ∧
    (∀ (id : String) (p : Pending F), c.pending[id]? = some p → p.reactionTracking = true ∧
      positives c.recovery.reactions id = p.positiveReactions) ∧
    c.pending.size + c.recovery.settled.length ≤ 4096 := by
  have hc : Restorable E c := restorable_new.run hrun hops
  obtain ⟨hreactions, hsettled⟩ := exportRecovery_perm c
  have hsorted : (⟨c.pending, c.exportRecovery⟩ : RewardCollector F).exportRecovery =
      c.exportRecovery := by
    unfold exportRecovery
    dsimp only
    rw [insertionSort_again (fun r : ReactionRecord => r.key.order) c.recovery.reactions,
      insertionSort_again (fun row : SettledTurn => row.message) c.recovery.settled]
  refine ⟨hc.exported.validate, ⟨_, hc.restore, rfl, rfl, rfl, hreactions, hsettled, rfl, hsorted⟩,
    fun id p hp => ⟨(hc.rows id p hp).2.2, hc.counts id p hp⟩, hc.room⟩

/-! ### Reactions out of order -/

/-- Two members react to the turn, the one with the greater hash first. -/
def unorderedOps : List (Op ℚ) :=
  [.registerTurn sampleTurn, .reaction ⟨"channel", "reply", 2, "👍"⟩ true 1,
    .reaction ⟨"channel", "reply", 1, "👍"⟩ true 2]

def unordered : RewardCollector ℚ := (play (RewardCollector.step sampleEnv) new unorderedOps).2

/-- The collector is the restored one. -/
def restoredSame (c : RewardCollector ℚ) : Except String (RewardCollector ℚ) → Bool
  | .ok c' => decide (c' = c)
  | .error _ => false

theorem proper_sampleTurn : Proper sampleEnv sampleTurn :=
  ⟨by decide, by decide, rfl, fun _ _ => rfl⟩

theorem admissible_unorderedOps : ∀ op ∈ unorderedOps, Admissible sampleEnv op := by
  intro op hop
  simp only [unorderedOps, List.mem_cons, List.not_mem_nil, or_false] at hop
  rcases hop with rfl | rfl | rfl
  · exact proper_sampleTurn
  · trivial
  · trivial

/-- The restored rows are sorted, the kept ones are not. -/
theorem unordered_restored_sorted :
    (∀ op ∈ unorderedOps, Admissible sampleEnv op) ∧
    restoredSame unordered ((new : RewardCollector ℚ).restoreRecovered sampleEnv
      unordered.exportPending unordered.exportRecovery) = false :=
  ⟨admissible_unorderedOps, by decide +kernel⟩

theorem unordered_restorable : positives unordered.recovery.reactions "reply" = 2 ∧
    unordered.exportRecovery.validate sampleEnv.floats unordered.exportPending = .ok () := by
  have hrun : Run (RewardCollector.step sampleEnv) new
      (play (RewardCollector.step sampleEnv) new unorderedOps).1 unordered := run_play _ unorderedOps
  refine ⟨by decide, (restorable_along_run hrun fun e he => ?_).1⟩
  exact admissible_unorderedOps e.op (op_mem_of_mem_play he)

end AbbeyBot.Brain.Reward.RewardCollector
