import Mathlib
import AbbeyBot.Brain.Reward.Deletion

/-! # What a turn is worth

While a turn is open, its reward is the baseline, a half for each human reply that was accepted, and
the contributions that are recorded for it. A reaction that is added and removed again leaves no
trace: the run with the two and the run without them stay side by side (`Beside`), one recorded
reaction apart, as long as neither the cap of the turn nor the room of the records tells them apart. -/

namespace AbbeyBot.Brain.Reward.RewardCollector

open AbbeyBot.Library AbbeyBot.Library.History AbbeyBot.Library.OrderedMap AbbeyBot.Library.Result

variable {F : Type} {E : Env F} {c : RewardCollector F} {id : String}

/-! ### Sums -/

/-- Sums and differences of literals are exact. -/
structure Exact (fl : Floats F) : Prop where
  add_lit : ∀ a b : ℚ, fl.add (fl.lit a) (fl.lit b) = fl.lit (a + b)
  sub_lit : ∀ a b : ℚ, fl.sub (fl.lit a) (fl.lit b) = fl.lit (a - b)

/-- What a contribution adds to the reward. -/
def contributed : ReactionContribution → ℚ
  | .positive => 1
  | .negative => -1
  | .capped => 0

/-- The sum of the contributions that are recorded for a turn. -/
def recorded (reactions : List ReactionRecord) (id : String) : ℚ :=
  ((reactions.filter (·.key.message = id)).map fun row => contributed row.contribution).sum

theorem recorded_cons (row : ReactionRecord) (reactions : List ReactionRecord) (id : String) :
    recorded (row :: reactions) id =
      (if row.key.message = id then contributed row.contribution else 0) + recorded reactions id := by
  unfold recorded
  by_cases h : row.key.message = id
  · rw [List.filter_cons_of_pos (by simpa using h), if_pos h]
    rfl
  · rw [List.filter_cons_of_neg (by simpa using h), if_neg h, zero_add]

theorem recorded_perm {reactions reactions' : List ReactionRecord} (h : reactions.Perm reactions')
    (id : String) : recorded reactions id = recorded reactions' id :=
  ((h.filter _).map _).sum_eq

theorem contribute_reward (hE : Exact E.floats) {p : Pending F} {x : ℚ}
    (hp : p.reward = E.floats.lit x) (positive : Bool) :
    (contribute E positive p).2.reward =
      E.floats.lit (x + contributed (contribute E positive p).1) := by
  rcases contribute_cases (E := E) positive p with ⟨-, -, heq⟩ | ⟨-, heq⟩ | ⟨-, heq⟩ <;> rw [heq]
  · show E.floats.add p.reward _ = _
    rw [hp, hE.add_lit]
    rfl
  · rw [hp, contributed, add_zero]
  · show E.floats.sub p.reward _ = _
    rw [hp, hE.sub_lit, contributed, sub_eq_add_neg]

theorem reverse_reward (hE : Exact E.floats) {p : Pending F} {x : ℚ} (hp : p.reward = E.floats.lit x)
    (contribution : ReactionContribution) :
    (reverse E contribution p).reward = E.floats.lit (x - contributed contribution) := by
  cases contribution with
  | positive =>
    show E.floats.sub p.reward _ = _
    rw [hp, hE.sub_lit]
    rfl
  | negative =>
    show E.floats.add p.reward _ = _
    rw [hp, hE.add_lit, contributed, sub_neg_eq_add]
  | capped => rw [reverse_capped, hp, contributed, sub_zero]

/-! ### The account of a turn -/

/-- The turn is worth `base` and what is recorded for it. -/
def Accounted (E : Env F) (base : ℚ) (id : String) (c : RewardCollector F) : Prop :=
  ∃ p, c.pending[id]? = some p ∧ p.reward = E.floats.lit (base + recorded c.recovery.reactions id)

theorem Accounted.reaction (hE : Exact E.floats) {base : ℚ} (hc : Accounted E base id c)
    (key : ReactionKey) (added : Bool) (now : ℕ) :
    Accounted E base id (c.reaction E key added now).2 := by
  obtain ⟨p, hp, hreward⟩ := hc
  rcases reaction_cases (E := E) c key added now with
    ⟨a, hres⟩ | ⟨q, hq, -, -, -, ⟨-, -, hres⟩ | ⟨index, row, hrow, hkey, hres⟩⟩
  · rw [hres]
    exact ⟨p, hp, hreward⟩
  · rw [hres]
    unfold Accounted
    dsimp only
    rw [getElem?_insert, recorded_perm (List.perm_append_singleton _ _), recorded_cons]
    by_cases heq : key.message = id
    · subst heq
      rw [hp] at hq
      cases hq
      rw [if_pos rfl, if_pos rfl]
      refine ⟨_, rfl, ?_⟩
      rw [contribute_reward hE hreward]
      congr 1
      ring
    · rw [if_neg heq, if_neg heq, zero_add]
      exact ⟨p, hp, hreward⟩
  · rw [hres]
    unfold Accounted
    dsimp only
    rw [getElem?_insert]
    rw [← recorded_perm (swapRemove_perm hrow), recorded_cons, hkey] at hreward
    by_cases heq : key.message = id
    · subst heq
      rw [hp] at hq
      cases hq
      rw [if_pos rfl] at hreward ⊢
      refine ⟨_, rfl, ?_⟩
      rw [reverse_reward hE hreward]
      congr 1
      ring
    · rw [if_neg heq] at hreward ⊢
      rw [zero_add] at hreward
      exact ⟨p, hp, hreward⟩

/-- A reply to the turn is accepted. -/
def Replied (c : RewardCollector F) (id scope id' : String) (now : ℕ) : Prop :=
  id' = id ∧ (c.attribution scope (some id') now).isOk = true

instance (c : RewardCollector F) (id scope id' : String) (now : ℕ) :
    Decidable (Replied c id scope id' now) := inferInstanceAs (Decidable (_ ∧ _))

theorem Accounted.humanReplied (hE : Exact E.floats) {base : ℚ} (hc : Accounted E base id c)
    (scope id' : String) (now : ℕ) :
    (Replied c id scope id' now → Accounted E (base + 1 / 2) id (c.humanReplied E scope id' now)) ∧
      (¬ Replied c id scope id' now → Accounted E base id (c.humanReplied E scope id' now)) := by
  obtain ⟨p, hp, hreward⟩ := hc
  unfold RewardCollector.humanReplied Replied
  cases hfound : c.attribution scope (some id') now with
  | error reason =>
    refine ⟨fun hreplied => ?_, fun _ => ⟨p, hp, hreward⟩⟩
    cases hreplied.2
  | ok found =>
    constructor
    · rintro ⟨rfl, -⟩
      refine ⟨{ p with reward := E.floats.add p.reward (E.floats.lit (1 / 2)) }, ?_, ?_⟩
      · show (c.pending.modify id' _)[id']? = some _
        rw [getElem?_modify, if_pos rfl, hp]
        rfl
      · show E.floats.add p.reward _ = _
        rw [hreward, hE.add_lit]
        congr 1
        show base + recorded c.recovery.reactions id' + 1 / 2 =
          base + 1 / 2 + recorded c.recovery.reactions id'
        ring
    · intro hother
      have hne : id' ≠ id := fun heq => hother ⟨heq, rfl⟩
      exact ⟨p, (getElem?_modify_ne hne).trans hp, hreward⟩

/-- A reaction or a reply, whether it counts or not. -/
def Op.IsEvent : Op F → Prop
  | .reaction _ _ _ | .humanReplied _ _ _ => True
  | _ => False

/-- A human reply to the turn was accepted. -/
def acceptsReply (id : String) (e : Event (RewardCollector F) (Op F) (Output F)) : Bool :=
  match e.op with
  | .humanReplied scope id' now => Replied e.before id scope id' now
  | _ => false

/-- The account of a turn along a run of events. -/
theorem accounted_along_run (hE : Exact E.floats) {c₀ : RewardCollector F} {base : ℚ} {h : Trace F}
    (hc₀ : Accounted E base id c₀) (hrun : Run (RewardCollector.step E) c₀ h c)
    (hev : ∀ e ∈ h, Op.IsEvent e.op) :
    Accounted E (base + h.countP (acceptsReply id) / 2) id c := by
  induction hrun with
  | nil =>
    rw [List.countP_nil, Nat.cast_zero, zero_div, add_zero]
    exact hc₀
  | cons op hrun ih =>
    rename_i h' c'
    have hearlier := ih fun e he => hev e (List.mem_cons_of_mem _ he)
    have hop := hev _ List.mem_cons_self
    rw [List.countP_cons]
    cases op with
    | reaction key added now =>
      rw [if_neg (by simp [acceptsReply, event]), add_zero]
      exact hearlier.reaction hE key added now
    | humanReplied scope id' now =>
      obtain ⟨haccepted, hrefused⟩ := hearlier.humanReplied hE scope id' now
      have haccepts : acceptsReply id (event (RewardCollector.step E) c'
          (.humanReplied scope id' now)) = decide (Replied c' id scope id' now) := rfl
      rw [haccepts]
      by_cases hreplied : Replied c' id scope id' now
      · rw [if_pos (decide_eq_true hreplied)]
        have hsum := haccepted hreplied
        rw [add_assoc, ← add_div, ← Nat.cast_one, ← Nat.cast_add] at hsum
        exact hsum
      · rw [if_neg (by simpa using hreplied), add_zero]
        exact hrefused hreplied
    | _ => exact hop.elim

/-! ### Reactions that reach their turn -/

/-- The reaction is supported and its turn takes it. -/
structure Reaches (E : Env F) (c : RewardCollector F) (key : ReactionKey) (now : ℕ)
    (p : Pending F) : Prop where
  emoji : key.emoji ∈ positiveEmoji ∨ key.emoji ∈ negativeEmoji
  row : c.pending[key.message]? = some p
  found : c.attribution key.scope (some key.message) now = .ok (.exactReply, key.message)
  allowed : c.recovery.erasure.blocksHash E.codec p.scopedGuildId key.reactorHash now = false
  tracking : p.reactionTracking = true

/-- A turn that is not found is never reported as found. -/
theorem attribution_error {scope : String} {now : ℕ} {reason : FeedbackAttribution}
    (h : c.attribution scope (some id) now = .error reason) : reason ≠ .exactReply := by
  unfold attribution at h
  dsimp only at h
  split_ifs at h
  · cases h
    nofun
  · split at h
    · cases h
      nofun
    · split_ifs at h <;> cases h <;> nofun

/-- A reaction that does not reach its turn changes nothing, and is not counted. -/
theorem reaction_unreached {key : ReactionKey} {now : ℕ} (added : Bool)
    (h : ¬ ∃ p, Reaches E c key now p) :
    (c.reaction E key added now).1 ≠ .exactReply ∧ (c.reaction E key added now).2 = c := by
  unfold reaction
  dsimp only
  by_cases hemoji : decide (key.emoji ∈ positiveEmoji) = false ∧ key.emoji ∉ negativeEmoji
  · rw [if_pos hemoji]
    exact ⟨nofun, rfl⟩
  rw [if_neg hemoji]
  have hemoji' : key.emoji ∈ positiveEmoji ∨ key.emoji ∈ negativeEmoji := by
    simpa [imp_iff_not_or, or_comm] using hemoji
  cases hfound : c.attribution key.scope (some key.message) now with
  | error reason =>
    exact ⟨attribution_error hfound, rfl⟩
  | ok found =>
    obtain ⟨rfl, -, p, hp, -⟩ := attribution_some_iff.mp hfound
    rw [hp]
    dsimp only
    by_cases hblocked : c.recovery.erasure.blocksHash E.codec p.scopedGuildId key.reactorHash now = true
    · rw [if_pos hblocked]
      exact ⟨nofun, rfl⟩
    rw [if_neg hblocked]
    by_cases htracking : p.reactionTracking = false
    · rw [if_pos htracking]
      exact ⟨nofun, rfl⟩
    exact absurd ⟨p, hemoji', hp, hfound, eq_false_of_ne_true hblocked,
      eq_true_of_ne_false htracking⟩ h

/-- What a reaction does that reaches its turn. -/
theorem Reaches.reaction {key : ReactionKey} {now : ℕ} {p : Pending F} (h : Reaches E c key now p)
    (added : Bool) : c.reaction E key added now =
      match c.recovery.reactions.findIdx? (·.key = key), added with
      | some _, true => (.duplicate, c)
      | none, true =>
        if maxRecoveryEntries ≤ c.recovery.reactions.length then (.unsupported, c)
        else (.exactReply,
          ⟨c.pending.insert key.message (contribute E (decide (key.emoji ∈ positiveEmoji)) p).2,
            { c.recovery with reactions := c.recovery.reactions ++
              [⟨key, (contribute E (decide (key.emoji ∈ positiveEmoji)) p).1⟩] }⟩)
      | none, false => (.duplicate, c)
      | some index, false => match c.recovery.reactions[index]? with
        | none => (.duplicate, c)
        | some row => (.exactReply, ⟨c.pending.insert key.message (reverse E row.contribution p),
            { c.recovery with reactions := swapRemove c.recovery.reactions index }⟩) := by
  have hemoji : ¬ (decide (key.emoji ∈ positiveEmoji) = false ∧ key.emoji ∉ negativeEmoji) := by
    rintro ⟨hpositive, hnegative⟩
    exact h.emoji.elim (of_decide_eq_false hpositive) hnegative
  unfold RewardCollector.reaction
  dsimp only
  rw [if_neg hemoji, h.found, h.row]
  dsimp only
  rewrite [if_neg (ne_true_of_eq_false h.allowed), if_neg (ne_false_of_eq_true h.tracking)]
  cases c.recovery.reactions.findIdx? (·.key = key) <;> cases added <;> rfl

/-- The reaction is added, or the state is left as it is because it is recorded or there is no room. -/
theorem Reaches.add {key : ReactionKey} {now : ℕ} {p : Pending F} (h : Reaches E c key now p) :
    ((∀ r ∈ c.recovery.reactions, r.key ≠ key) ∧
      c.recovery.reactions.length < maxRecoveryEntries ∧
      c.reaction E key true now = (.exactReply,
        ⟨c.pending.insert key.message (contribute E (decide (key.emoji ∈ positiveEmoji)) p).2,
          { c.recovery with reactions := c.recovery.reactions ++
            [⟨key, (contribute E (decide (key.emoji ∈ positiveEmoji)) p).1⟩] }⟩)) ∨
    (((∃ r ∈ c.recovery.reactions, r.key = key) ∨
        maxRecoveryEntries ≤ c.recovery.reactions.length) ∧
      (c.reaction E key true now).1 ≠ .exactReply ∧ (c.reaction E key true now).2 = c) := by
  rw [h.reaction true]
  cases hindex : c.recovery.reactions.findIdx? (·.key = key) with
  | none =>
    have hnew : ∀ r ∈ c.recovery.reactions, r.key ≠ key := by
      simpa using List.findIdx?_eq_none_iff.mp hindex
    dsimp only
    split_ifs with hfull
    · exact .inr ⟨.inr hfull, nofun, rfl⟩
    · exact .inl ⟨hnew, not_le.mp hfull, rfl⟩
  | some index =>
    obtain ⟨hlt, hkey, -⟩ := List.findIdx?_eq_some_iff_getElem.mp hindex
    exact .inr ⟨.inl ⟨_, List.getElem_mem hlt, of_decide_eq_true hkey⟩, nofun, rfl⟩

/-- The reaction is taken back, or it is not recorded. -/
theorem Reaches.take {key : ReactionKey} {now : ℕ} {p : Pending F} (h : Reaches E c key now p) :
    (∃ row reactions, (row :: reactions).Perm c.recovery.reactions ∧ row.key = key ∧
      c.reaction E key false now = (.exactReply,
        ⟨c.pending.insert key.message (reverse E row.contribution p),
          { c.recovery with reactions := reactions }⟩)) ∨
    ((∀ r ∈ c.recovery.reactions, r.key ≠ key) ∧
      (c.reaction E key false now).1 ≠ .exactReply ∧ (c.reaction E key false now).2 = c) := by
  rw [h.reaction false]
  cases hindex : c.recovery.reactions.findIdx? (·.key = key) with
  | none =>
    have hnew : ∀ r ∈ c.recovery.reactions, r.key ≠ key := by
      simpa using List.findIdx?_eq_none_iff.mp hindex
    exact .inr ⟨hnew, nofun, rfl⟩
  | some index =>
    obtain ⟨hlt, hkey, -⟩ := List.findIdx?_eq_some_iff_getElem.mp hindex
    have hrow := List.getElem?_eq_getElem hlt
    refine .inl ⟨_, _, swapRemove_perm hrow, of_decide_eq_true hkey, ?_⟩
    dsimp only
    rw [hrow]

/-! ### Side by side -/

/-- The rows are alike in all that decides which reactions and replies they take. -/
structure Alike (p q : Pending F) : Prop where
  scope : q.scope = p.scope
  scopedGuildId : q.scopedGuildId = p.scopedGuildId
  createdAt : q.createdAt = p.createdAt
  settleImmediately : q.settleImmediately = p.settleImmediately
  reactionTracking : q.reactionTracking = p.reactionTracking

theorem Alike.refl (p : Pending F) : Alike p p := ⟨rfl, rfl, rfl, rfl, rfl⟩

theorem Alike.symm {p q : Pending F} (h : Alike p q) : Alike q p :=
  ⟨h.scope.symm, h.scopedGuildId.symm, h.createdAt.symm, h.settleImmediately.symm,
    h.reactionTracking.symm⟩

theorem Alike.trans {p q r : Pending F} (h : Alike p q) (h' : Alike q r) : Alike p r :=
  ⟨h'.scope.trans h.scope, h'.scopedGuildId.trans h.scopedGuildId, h'.createdAt.trans h.createdAt,
    h'.settleImmediately.trans h.settleImmediately, h'.reactionTracking.trans h.reactionTracking⟩

theorem alike_contribute (positive : Bool) (p : Pending F) :
    Alike p (contribute E positive p).2 := by
  rcases contribute_cases (E := E) positive p with ⟨-, -, heq⟩ | ⟨-, heq⟩ | ⟨-, heq⟩ <;> rw [heq] <;>
    exact ⟨rfl, rfl, rfl, rfl, rfl⟩

theorem alike_reverse (contribution : ReactionContribution) (p : Pending F) :
    Alike p (reverse E contribution p) := by
  cases contribution <;> exact ⟨rfl, rfl, rfl, rfl, rfl⟩

/-- The same turns are open, and are alike. -/
def AlikeRows (c₁ c₂ : RewardCollector F) : Prop :=
  ∀ (id : String), Option.Rel Alike c₁.pending[id]? c₂.pending[id]?

theorem AlikeRows.symm {c₁ c₂ : RewardCollector F} (h : AlikeRows c₁ c₂) : AlikeRows c₂ c₁ := by
  intro id
  have hid := h id
  cases hp : c₁.pending[id]? <;> cases hq : c₂.pending[id]? <;> rw [hp, hq] at hid <;> cases hid
  · exact .none
  · rename_i halike
    exact .some halike.symm

theorem AlikeRows.lookup {c₁ c₂ : RewardCollector F} (h : AlikeRows c₁ c₂) {p : Pending F}
    (hp : c₁.pending[id]? = some p) : ∃ q, c₂.pending[id]? = some q ∧ Alike p q := by
  have hid := h id
  rw [hp] at hid
  cases hq : c₂.pending[id]? with
  | none =>
    rw [hq] at hid
    cases hid
  | some q =>
    rw [hq] at hid
    cases hid with
    | some halike => exact ⟨q, rfl, halike⟩

theorem AlikeRows.insert {c₁ c₂ : RewardCollector F} (h : AlikeRows c₁ c₂) {key : String}
    {p q : Pending F} (halike : Alike p q) {r₁ r₂ : RewardRecovery} :
    AlikeRows ⟨c₁.pending.insert key p, r₁⟩ ⟨c₂.pending.insert key q, r₂⟩ := by
  intro id
  dsimp only
  rw [getElem?_insert, getElem?_insert]
  split_ifs
  · exact .some halike
  · exact h id

/-- A reaction or a reply that reaches a turn reaches the turn that is alike. -/
theorem AlikeRows.attribution {c₁ c₂ : RewardCollector F} (h : AlikeRows c₁ c₂) {scope : String}
    {now : ℕ} {found : FeedbackAttribution × String}
    (hfound : c₁.attribution scope (some id) now = .ok found) :
    c₂.attribution scope (some id) now = .ok found := by
  obtain ⟨rfl, hscope, p, hp, hpscope, hopen⟩ := attribution_some_iff.mp hfound
  obtain ⟨q, hq, halike⟩ := h.lookup hp
  refine attribution_some_iff.mpr ⟨rfl, hscope, q, hq, halike.scope.trans hpscope, ?_⟩
  unfold Pending.Open
  rw [halike.settleImmediately, halike.createdAt]
  exact hopen

theorem Reaches.alike {c₁ c₂ : RewardCollector F} {key : ReactionKey} {now : ℕ} {p : Pending F}
    (h : Reaches E c₁ key now p) (hrows : AlikeRows c₁ c₂)
    (herasure : c₂.recovery.erasure = c₁.recovery.erasure) :
    ∃ q, Reaches E c₂ key now q ∧ Alike p q := by
  obtain ⟨q, hq, halike⟩ := hrows.lookup h.row
  refine ⟨q, ⟨h.emoji, hq, hrows.attribution h.found, ?_, ?_⟩, halike⟩
  · rw [herasure, halike.scopedGuildId]
    exact h.allowed
  · rw [halike.reactionTracking]
    exact h.tracking

/-- The first collector has recorded one reaction more than the second one. -/
structure Beside (E : Env F) (row : ReactionRecord) (c₁ c₂ : RewardCollector F) : Prop where
  reactions : c₁.recovery.reactions.Perm (row :: c₂.recovery.reactions)
  erasure : c₂.recovery.erasure = c₁.recovery.erasure
  rows : AlikeRows c₁ c₂
  first : Restorable E c₁
  second : Restorable E c₂
  account : ∃ base, Accounted E base row.key.message c₁ ∧ Accounted E base row.key.message c₂

section Beside

variable {row : ReactionRecord} {c₁ c₂ : RewardCollector F}

/-- A reaction of another key is recorded in both collectors or in none. -/
theorem Beside.recorded_iff (h : Beside E row c₁ c₂) {key : ReactionKey} (hne : key ≠ row.key) :
    (∃ r ∈ c₁.recovery.reactions, r.key = key) ↔ ∃ r ∈ c₂.recovery.reactions, r.key = key := by
  constructor
  · rintro ⟨r, hr, rfl⟩
    rcases List.mem_cons.mp (h.reactions.mem_iff.mp hr) with rfl | hr
    · exact absurd rfl hne
    · exact ⟨r, hr, rfl⟩
  · rintro ⟨r, hr, rfl⟩
    exact ⟨r, h.reactions.mem_iff.mpr (List.mem_cons_of_mem _ hr), rfl⟩

theorem Beside.length (h : Beside E row c₁ c₂) :
    c₁.recovery.reactions.length = c₂.recovery.reactions.length + 1 := by
  rw [h.reactions.length_eq, List.length_cons]

/-- The turns count the same positive reactions, but for the one that is extra. -/
theorem Beside.count (h : Beside E row c₁ c₂) {id : String} {p q : Pending F}
    (hp : c₁.pending[id]? = some p) (hq : c₂.pending[id]? = some q) :
    p.positiveReactions = q.positiveReactions +
      if row.key.message = id ∧ row.contribution = .positive then 1 else 0 := by
  rw [← h.first.counts id p hp, ← h.second.counts id q hq, positives_perm h.reactions, positives_cons]

/-- The reaction contributes the same to both, unless the cap tells them apart. -/
theorem Beside.contribute (h : Beside E row c₁ c₂) {key : ReactionKey} {p q : Pending F}
    (hp : c₁.pending[key.message]? = some p) (hq : c₂.pending[key.message]? = some q) (positive : Bool)
    (hcap : key.message = row.key.message → (contribute E positive p).1 ≠ .capped) :
    (RewardCollector.contribute E positive q).1 = (RewardCollector.contribute E positive p).1 := by
  have hfst : ∀ r : Pending F, (RewardCollector.contribute E positive r).1 =
      if positive = true ∧ r.positiveReactions < maxPositiveReactions then .positive
      else if positive = true then .capped else .negative := by
    intro r
    unfold RewardCollector.contribute
    split_ifs <;> rfl
  have hcount := h.count hp hq
  rw [hfst p] at hcap ⊢
  rw [hfst q]
  by_cases hsame : row.key.message = key.message ∧ row.contribution = .positive
  · rw [if_pos hsame] at hcount
    have hfree := hcap hsame.1.symm
    by_cases hlt : p.positiveReactions < maxPositiveReactions
    · have hlt₂ : q.positiveReactions < maxPositiveReactions := by omega
      simp only [hlt, hlt₂, and_true]
    · cases positive with
      | true => simp [hlt] at hfree
      | false => simp
  · rw [if_neg hsame, Nat.add_zero] at hcount
    rw [hcount]

/-- A reaction to the turn was capped. -/
def Caps (id : String) (c c' : RewardCollector F) : Prop :=
  ∃ r ∈ c'.recovery.reactions, r ∉ c.recovery.reactions ∧ r.key.message = id ∧
    r.contribution = .capped

/-- The collectors stay side by side over a reaction of another key. -/
theorem Beside.reaction (hE : Exact E.floats) (h : Beside E row c₁ c₂) {key : ReactionKey}
    (hne : key ≠ row.key) (added : Bool) (now : ℕ)
    (hroom : c₁.recovery.reactions.length < maxRecoveryEntries)
    (hcap : ¬ Caps row.key.message c₁ (c₁.reaction E key added now).2) :
    Beside E row (c₁.reaction E key added now).2 (c₂.reaction E key added now).2 := by
  obtain ⟨base, hbase₁, hbase₂⟩ := h.account
  have haccount := (⟨base, hbase₁.reaction hE key added now, hbase₂.reaction hE key added now⟩ :
    ∃ base, Accounted E base row.key.message (c₁.reaction E key added now).2 ∧
      Accounted E base row.key.message (c₂.reaction E key added now).2)
  have hfirst := h.first.reaction key added now
  have hsecond := h.second.reaction key added now
  by_cases hreaches : ∃ p, Reaches E c₁ key now p
  · obtain ⟨p, hp⟩ := hreaches
    obtain ⟨q, hq, halike⟩ := hp.alike h.rows h.erasure
    cases added with
    | true =>
      rcases hp.add with ⟨hnew, -, hres₁⟩ | ⟨hold, -, hres₁⟩
      · rcases hq.add with ⟨-, -, hres₂⟩ | ⟨hold₂, -, -⟩
        · rw [hres₁] at hcap hfirst haccount ⊢
          rw [hres₂] at hsecond haccount ⊢
          have hsame := h.contribute hp.row hq.row (decide (key.emoji ∈ positiveEmoji))
            fun hmessage hcapped => hcap ⟨_, List.mem_append_right _ (List.mem_singleton_self _),
              fun hmem => hnew _ hmem rfl, hmessage, hcapped⟩
          refine ⟨?_, h.erasure, h.rows.insert ?_, hfirst, hsecond, haccount⟩
          · show (c₁.recovery.reactions ++ [_]).Perm (row :: (c₂.recovery.reactions ++ [_]))
            rw [hsame, ← List.cons_append]
            exact h.reactions.append_right _
          · exact ((alike_contribute _ p).symm.trans halike).trans (alike_contribute _ q)
        · have hlength := h.length
          rcases hold₂ with hold₂ | hfull
          · obtain ⟨r, hr, hkey⟩ := (h.recorded_iff hne).mpr hold₂
            exact absurd hkey (hnew r hr)
          · omega
      · rcases hold with hold | hfull
        · have hold₂ := (h.recorded_iff hne).mp hold
          rcases hq.add with ⟨hnew₂, -, -⟩ | ⟨-, -, hres₂⟩
          · obtain ⟨r, hr, hkey⟩ := hold₂
            exact absurd hkey (hnew₂ r hr)
          · rw [hres₁, hres₂]
            exact h
        · omega
    | false =>
      rcases hp.take with ⟨r₁, rest₁, hperm₁, hkey₁, hres₁⟩ | ⟨hnew, -, hres₁⟩
      · rcases hq.take with ⟨r₂, rest₂, hperm₂, hkey₂, hres₂⟩ | ⟨hnew₂, -, -⟩
        · rw [hres₁] at hfirst haccount ⊢
          rw [hres₂] at hsecond haccount ⊢
          have hmem₁ : r₁ ∈ c₁.recovery.reactions := hperm₁.mem_iff.mp List.mem_cons_self
          have hmem₂ : r₂ ∈ c₁.recovery.reactions :=
            h.reactions.mem_iff.mpr (List.mem_cons_of_mem _ (hperm₂.mem_iff.mp List.mem_cons_self))
          have hsame : r₁ = r₂ :=
            List.inj_on_of_nodup_map h.first.reactionsOnce hmem₁ hmem₂ (hkey₁.trans hkey₂.symm)
          subst hsame
          refine ⟨?_, h.erasure, h.rows.insert ?_, hfirst, hsecond, haccount⟩
          · have hall := hperm₁.trans (h.reactions.trans (hperm₂.symm.cons row))
            exact (hall.trans (List.Perm.swap _ _ _)).cons_inv
          · exact ((alike_reverse _ p).symm.trans halike).trans (alike_reverse _ q)
        · obtain ⟨r, hr, hkey⟩ := (h.recorded_iff hne).mp
            ⟨r₁, hperm₁.mem_iff.mp List.mem_cons_self, hkey₁⟩
          exact absurd hkey (hnew₂ r hr)
      · rcases hq.take with ⟨r₂, rest₂, hperm₂, hkey₂, -⟩ | ⟨-, -, hres₂⟩
        · obtain ⟨r, hr, hkey⟩ := (h.recorded_iff hne).mpr
            ⟨r₂, hperm₂.mem_iff.mp List.mem_cons_self, hkey₂⟩
          exact absurd hkey (hnew r hr)
        · rw [hres₁, hres₂]
          exact h
  · have hreaches₂ : ¬ ∃ q, Reaches E c₂ key now q := by
      rintro ⟨q, hq⟩
      obtain ⟨p, hp, -⟩ := hq.alike h.rows.symm h.erasure.symm
      exact hreaches ⟨p, hp⟩
    rw [(reaction_unreached added hreaches).2, (reaction_unreached added hreaches₂).2]
    exact h

theorem Beside.humanReplied (hE : Exact E.floats) (h : Beside E row c₁ c₂) (scope id' : String)
    (now : ℕ) : Beside E row (c₁.humanReplied E scope id' now) (c₂.humanReplied E scope id' now) := by
  obtain ⟨base, hbase₁, hbase₂⟩ := h.account
  have hfirst := h.first.humanReplied scope id' now
  have hsecond := h.second.humanReplied scope id' now
  obtain ⟨haccepted₁, hrefused₁⟩ := hbase₁.humanReplied hE scope id' now
  obtain ⟨haccepted₂, hrefused₂⟩ := hbase₂.humanReplied hE scope id' now
  have hsame : c₁.attribution scope (some id') now = c₂.attribution scope (some id') now ∨
      ∃ e₁ e₂, c₁.attribution scope (some id') now = .error e₁ ∧
        c₂.attribution scope (some id') now = .error e₂ := by
    cases h₁ : c₁.attribution scope (some id') now with
    | ok found => exact .inl (h.rows.attribution h₁).symm
    | error e₁ =>
      cases h₂ : c₂.attribution scope (some id') now with
      | ok found =>
        rw [h.rows.symm.attribution h₂] at h₁
        cases h₁
      | error e₂ => exact .inr ⟨e₁, e₂, rfl, rfl⟩
  have hreplied : Replied c₁ row.key.message scope id' now ↔
      Replied c₂ row.key.message scope id' now := by
    unfold Replied
    rcases hsame with heq | ⟨e₁, e₂, h₁, h₂⟩
    · rw [heq]
    · rw [h₁, h₂]
      rfl
  have haccount : ∃ base, Accounted E base row.key.message (c₁.humanReplied E scope id' now) ∧
      Accounted E base row.key.message (c₂.humanReplied E scope id' now) := by
    by_cases hr : Replied c₁ row.key.message scope id' now
    · exact ⟨_, haccepted₁ hr, haccepted₂ (hreplied.mp hr)⟩
    · exact ⟨_, hrefused₁ hr, hrefused₂ fun hr₂ => hr (hreplied.mpr hr₂)⟩
  unfold RewardCollector.humanReplied at hfirst hsecond haccount ⊢
  rcases hsame with heq | ⟨e₁, e₂, h₁, h₂⟩
  · rw [heq] at hfirst haccount ⊢
    cases hfound : c₂.attribution scope (some id') now with
    | error reason => exact h
    | ok found =>
      rw [hfound] at hfirst hsecond haccount
      refine ⟨h.reactions, h.erasure, fun id => ?_, hfirst, hsecond, haccount⟩
      show Option.Rel Alike (c₁.pending.modify id' _)[id]? (c₂.pending.modify id' _)[id]?
      rw [getElem?_modify, getElem?_modify]
      have hid := h.rows id
      split_ifs
      · cases hp : c₁.pending[id]? <;> cases hq : c₂.pending[id]? <;> rw [hp, hq] at hid <;> cases hid
        · exact .none
        · rename_i halike
          exact .some ⟨halike.scope, halike.scopedGuildId, halike.createdAt,
            halike.settleImmediately, halike.reactionTracking⟩
      · exact hid
  · rw [h₁, h₂]
    exact h

/-- An event that leaves the key alone. -/
def Op.SparesKey (key : ReactionKey) : Op F → Prop
  | .reaction key' _ _ => key' ≠ key
  | .humanReplied _ _ _ => True
  | _ => False

theorem Beside.play (hE : Exact E.floats) (h : Beside E row c₁ c₂) {ops : List (Op F)}
    (hops : ∀ op ∈ ops, Op.SparesKey row.key op)
    (hfree : ∀ e ∈ (History.play (RewardCollector.step E) c₁ ops).1,
      e.before.recovery.reactions.length < maxRecoveryEntries ∧
        ¬ Caps row.key.message e.before e.after) :
    Beside E row (History.play (RewardCollector.step E) c₁ ops).2
      (History.play (RewardCollector.step E) c₂ ops).2 := by
  induction ops using List.reverseRecOn with
  | nil => exact h
  | append_singleton ops op ih =>
    rw [play_concat] at hfree ⊢
    rw [play_concat]
    have hearlier := ih (fun op hop => hops op (List.mem_append_left _ hop))
      (fun e he => hfree e (List.mem_cons_of_mem _ he))
    obtain ⟨hroom, hcap⟩ := hfree _ List.mem_cons_self
    have hop := hops op (List.mem_append_right _ (List.mem_singleton_self _))
    cases op with
    | reaction key added now => exact hearlier.reaction hE hop added now hroom hcap
    | humanReplied scope id' now => exact hearlier.humanReplied hE scope id' now
    | _ => exact hop.elim

/-- A reaction that is added sets the collector beside the one it was. -/
theorem beside_added (hE : Exact E.floats) {c : RewardCollector F} (hc : Restorable E c) {base : ℚ}
    {key : ReactionKey} (hbase : Accounted E base key.message c) {now : ℕ}
    (hadded : (c.reaction E key true now).1 = .exactReply) :
    ∃ contribution, Beside E ⟨key, contribution⟩ (c.reaction E key true now).2 c := by
  by_cases hreaches : ∃ p, Reaches E c key now p
  · obtain ⟨p, hp⟩ := hreaches
    rcases hp.add with ⟨-, -, hres⟩ | ⟨-, hne, -⟩
    · refine ⟨(RewardCollector.contribute E (decide (key.emoji ∈ positiveEmoji)) p).1, ?_⟩
      have hfirst := hc.reaction key true now
      have haccount := hbase.reaction hE key true now
      rw [hres] at hfirst haccount ⊢
      refine ⟨List.perm_append_singleton _ _, rfl, fun id => ?_, hfirst, hc, base, haccount, hbase⟩
      dsimp only
      rw [getElem?_insert]
      split_ifs with heq
      · subst heq
        rw [hp.row]
        exact .some (alike_contribute _ p).symm
      · cases hq : c.pending[id]? with
        | none => exact .none
        | some q => exact .some (.refl q)
    · exact absurd hadded hne
  · exact absurd hadded (reaction_unreached true hreaches).1

/-- The reward of a turn. -/
def rewardOf (c : RewardCollector F) (id : String) : Option F := (c.pending[id]?).map (·.reward)

/-- When the extra reaction is taken back, the turn is worth the same in both. -/
theorem Beside.taken (hE : Exact E.floats) (h : Beside E row c₁ c₂) {now : ℕ}
    (htaken : (c₁.reaction E row.key false now).1 = .exactReply) :
    rewardOf (c₁.reaction E row.key false now).2 row.key.message = rewardOf c₂ row.key.message := by
  by_cases hreaches : ∃ p, Reaches E c₁ row.key now p
  · obtain ⟨p, hp⟩ := hreaches
    rcases hp.take with ⟨r, rest, hperm, hkey, hres⟩ | ⟨-, hne, -⟩
    · have hrow : r = row := List.inj_on_of_nodup_map h.first.reactionsOnce
        (hperm.mem_iff.mp List.mem_cons_self) (h.reactions.mem_iff.mpr List.mem_cons_self) hkey
      subst hrow
      have hrest : rest.Perm c₂.recovery.reactions := (hperm.trans h.reactions).cons_inv
      obtain ⟨base, hbase₁, q, hq, hvalue⟩ := h.account
      obtain ⟨p', hp', hvalue'⟩ := hbase₁.reaction hE r.key false now
      unfold rewardOf
      rw [hp', hq, Option.map_some, Option.map_some, hvalue, hvalue', hres]
      congr 3
      exact recorded_perm hrest _
    · exact absurd htaken hne
  · exact absurd htaken (reaction_unreached false hreaches).1

end Beside

/-! ### The law -/

/-- The run before the addition of a reaction is `c`, `mid` is what happens between its addition and
its removal, and neither the room of the records nor the cap of the turn is reached in between. Then
the turn is worth what it would be without the two. -/
def LeavesNoTrace (E : Env F) (id : String) (c : RewardCollector F) : Prop :=
  ∀ (key : ReactionKey) (now now' : ℕ) (mid : List (Op F)), key.message = id →
    (∀ op ∈ mid, Op.SparesKey key op) →
    (c.reaction E key true now).1 = .exactReply →
    ((play (RewardCollector.step E) (c.reaction E key true now).2 mid).2.reaction E key false now').1 =
      .exactReply →
    (∀ e ∈ (play (RewardCollector.step E) (c.reaction E key true now).2 mid).1,
      e.before.recovery.reactions.length < maxRecoveryEntries ∧ ¬ Caps id e.before e.after) →
    rewardOf ((play (RewardCollector.step E) (c.reaction E key true now).2 mid).2.reaction E key false
      now').2 id = rewardOf (play (RewardCollector.step E) c mid).2 id

/-- A turn that was just opened is worth the baseline, and nothing is recorded for it. -/
theorem accounted_opened {c₀ : RewardCollector F} (hc₀ : Restorable E c₀) {turn : ReplyTurn F}
    (hnew : c₀.pending[turn.sentNativeMessageId]? = none)
    (hopened : turn.sentNativeMessageId ∈ (c₀.registerTurn E turn).pending) :
    Accounted E replyBaseline turn.sentNativeMessageId (c₀.registerTurn E turn) := by
  have hunseen : recorded c₀.recovery.reactions turn.sentNativeMessageId = 0 := by
    unfold recorded
    rw [List.filter_eq_nil_iff.mpr fun row hrow => ?_]
    · rfl
    · obtain ⟨-, p, hp, -⟩ := hc₀.reactions row hrow
      simp only [decide_eq_true_eq]
      intro heq
      rw [heq, hnew] at hp
      cases hp
  obtain ⟨p, hp⟩ := mem_iff.mp hopened
  unfold registerTurn at hp ⊢
  dsimp only at hp ⊢
  split_ifs at hp ⊢
  · rw [hnew] at hp
    cases hp
  · exact absurd (hnew.symm.trans hp) nofun
  · refine ⟨opened E turn, Std.ExtTreeMap.getElem?_insert_self, ?_⟩
    show E.floats.lit replyBaseline =
      E.floats.lit (replyBaseline + recorded c₀.recovery.reactions turn.sentNativeMessageId)
    rw [hunseen, add_zero]

/-- A collector that accounts for the turn leaves no trace of a reaction that is taken back. -/
theorem leavesNoTrace (hE : Exact E.floats) (hc : Restorable E c) {base : ℚ}
    (hbase : Accounted E base id c) : LeavesNoTrace E id c := by
  intro key now now' mid hkey hmid hadded htaken hfree
  subst hkey
  obtain ⟨contribution, hbeside⟩ := beside_added hE hc hbase hadded
  exact (hbeside.play hE hmid hfree).taken hE htaken

/-- **Reaction accounting.** From the registration of a turn in any collector that can be reached, and
along every run of reactions and human replies: the reward of the turn is the baseline, a half for each
reply to it that was accepted, and the sum of what is recorded for it; at most three of its recorded
contributions are positive, and each key is recorded at most once; and a reaction that is added and
taken back leaves no trace. -/
theorem reaction_accounting (hE : Exact E.floats) {c₀ : RewardCollector F} {h₀ h : Trace F}
    (hrun₀ : Run (RewardCollector.step E) new h₀ c₀) (hops₀ : ∀ e ∈ h₀, Admissible E e.op)
    {turn : ReplyTurn F} (hturn : Proper E turn) (hnew : c₀.pending[turn.sentNativeMessageId]? = none)
    (hopened : turn.sentNativeMessageId ∈ (c₀.registerTurn E turn).pending)
    (hrun : Run (RewardCollector.step E) (c₀.registerTurn E turn) h c)
    (hev : ∀ e ∈ h, Op.IsEvent e.op) :
    (∃ p, c.pending[turn.sentNativeMessageId]? = some p ∧ p.reward = E.floats.lit
      (replyBaseline + h.countP (acceptsReply turn.sentNativeMessageId) / 2 +
        recorded c.recovery.reactions turn.sentNativeMessageId)) ∧
    positives c.recovery.reactions turn.sentNativeMessageId ≤ 3 ∧
    (c.recovery.reactions.map (·.key)).Nodup ∧
    LeavesNoTrace E turn.sentNativeMessageId c := by
  have hc₀ : Restorable E c₀ := restorable_new.run hrun₀ hops₀
  have hadmissible : ∀ e ∈ h, Admissible E e.op := by
    intro e he
    have hop := hev e he
    revert hop
    cases e.op with
    | reaction | humanReplied => exact fun _ => trivial
    | _ => exact fun hop => hop.elim
  have hc : Restorable E c := (hc₀.registerTurn hturn).run hrun hadmissible
  have haccount := accounted_along_run hE (accounted_opened hc₀ hnew hopened) hrun hev
  refine ⟨haccount, ?_, hc.reactionsOnce, leavesNoTrace hE hc haccount⟩
  obtain ⟨p, hp, -⟩ := haccount
  obtain ⟨⟨-, -, -, -, -, -, hpositive, -⟩, -⟩ := hc.rows _ p hp
  rw [hc.counts _ p hp]
  exact hpositive

/-! ### A reaction that was there before -/

theorem exact_sample : Exact sampleEnv.floats := ⟨fun _ _ => rfl, fun _ _ => rfl⟩

def thumb (member : ℕ) : ReactionKey := ⟨"channel", "reply", member, "👍"⟩

/-- A member reacts to the turn. -/
def thumbed : RewardCollector ℚ :=
  (play (RewardCollector.step sampleEnv) new
    [.registerTurn sampleTurn, .reaction (thumb 3) true 1]).2

/-- The reaction is added once more, which is a duplicate, and removed: the turn is worth less than
without the two. -/
theorem duplicate_leaves_trace :
    (thumbed.reaction sampleEnv (thumb 3) true 2).1 = .duplicate ∧
    ((thumbed.reaction sampleEnv (thumb 3) true 2).2.reaction sampleEnv (thumb 3) false 3).1 =
      .exactReply ∧
    rewardOf ((thumbed.reaction sampleEnv (thumb 3) true 2).2.reaction sampleEnv (thumb 3) false 3).2
      "reply" = some (-1 / 5) ∧
    rewardOf thumbed "reply" = some (4 / 5) ∧ positives thumbed.recovery.reactions "reply" = 1 := by
  decide +kernel

/-- The run with the reaction of another member, and a reply in between. -/
theorem thumbed_accounting : rewardOf ((play (RewardCollector.step sampleEnv)
    (thumbed.reaction sampleEnv (thumb 4) true 2).2
    [.humanReplied "channel" "reply" 3]).2.reaction sampleEnv (thumb 4) false 4).2 "reply" =
      rewardOf (play (RewardCollector.step sampleEnv) thumbed [.humanReplied "channel" "reply" 3]).2
        "reply" := by
  have hrun : Run (RewardCollector.step sampleEnv)
      ((new : RewardCollector ℚ).registerTurn sampleEnv sampleTurn)
      (play (RewardCollector.step sampleEnv)
        ((new : RewardCollector ℚ).registerTurn sampleEnv sampleTurn)
        [.reaction (thumb 3) true 1]).1 thumbed := run_play _ _
  have hev : ∀ e ∈ (play (RewardCollector.step sampleEnv)
      ((new : RewardCollector ℚ).registerTurn sampleEnv sampleTurn)
      [.reaction (thumb 3) true 1]).1, Op.IsEvent e.op := by
    intro e he
    have hop := op_mem_of_mem_play he
    rw [List.mem_singleton] at hop
    rw [hop]
    trivial
  have hlaw := (reaction_accounting exact_sample .nil (fun e he => (List.not_mem_nil he).elim)
    proper_sampleTurn (by decide) (by decide) hrun hev).2.2.2
  refine hlaw (thumb 4) 2 4 [.humanReplied "channel" "reply" 3] rfl (fun op hop => ?_)
    (by decide) (by decide) fun e he => ?_
  · rw [List.mem_singleton] at hop
    rw [hop]
    trivial
  · obtain rfl := List.mem_singleton.mp he
    refine ⟨by decide, ?_⟩
    rintro ⟨r, hr, hold, -⟩
    exact hold hr

end AbbeyBot.Brain.Reward.RewardCollector
