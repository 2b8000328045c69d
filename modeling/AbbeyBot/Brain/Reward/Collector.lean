import Mathlib
import AbbeyBot.Brain.Reward.Types
import AbbeyBot.Library.History

/-! # The collector

Turns are opened, reactions and replies are credited to them, and what is old enough is settled. The
pending rows lie in a hash table, so a sweep meets them in any order (`HashOrder`). A restart exports
the rows with their recovery metadata and restores them into a new collector, after checking them. -/

namespace AbbeyBot.Brain.Reward

open AbbeyBot.Library.History AbbeyBot.Library.OrderedMap AbbeyBot.Library.Result
open AbbeyBot.Brain.Addenda (memberHash)

variable {F : Type}

/-! ### Recovery metadata -/

/-- The checks of `validate` on one pending row. -/
def Pending.Sound (fl : Floats F) (id : String) (p : Pending F) : Prop :=
  identity id = true ∧ (BotAction.fromIndex p.action).isSome = true ∧ p.askSignature.valid = true ∧
    fl.isFinite p.reward = true ∧ fl.isFinite p.delayedSum = true ∧
    (∀ v ∈ p.state, fl.isFinite v = true) ∧ p.positiveReactions ≤ maxPositiveReactions ∧
    (p.scope ≠ "" → identity p.scope = true)

instance (fl : Floats F) (id : String) (p : Pending F) : Decidable (p.Sound fl id) :=
  inferInstanceAs (Decidable (_ ∧ _))

/-- The checks of `validate` on one settled row. -/
def SettledTurn.Sound (row : SettledTurn) : Prop :=
  identity row.message = true ∧ (row.scope ≠ "" → identity row.scope = true) ∧
    row.createdAt ≤ row.closedAt

instance (row : SettledTurn) : Decidable row.Sound := inferInstanceAs (Decidable (_ ∧ _))

/-- The contribution is one that the emoji may make. -/
def ReactionRecord.Fits (row : ReactionRecord) : Prop :=
  match row.contribution with
  | .positive | .capped => row.key.emoji ∈ positiveEmoji
  | .negative => row.key.emoji ∈ negativeEmoji

instance (row : ReactionRecord) : Decidable row.Fits := by
  unfold ReactionRecord.Fits
  split <;> infer_instance

/-- The recorded positive contributions to a turn. -/
def positives (reactions : List ReactionRecord) (id : String) : ℕ :=
  reactions.countP fun r => r.key.message = id && r.contribution = .positive

namespace RewardRecovery

/-- The reactions are checked in turn; `seen` are the keys in front. -/
def checkReactions (pending : List (String × Pending F)) (seen : List ReactionKey) :
    List ReactionRecord → Except String Unit
  | [] => .ok ()
  | row :: rest => do
    ensure (identity row.key.scope = true ∧ identity row.key.message = true ∧ row.key ∉ seen)
      "invalid reaction identity"
    let (_, p) ← orErr (pending.find? fun (id, _) => id = row.key.message)
      "reaction without pending reward"
    ensure (p.reactionTracking = true ∧ p.scope = row.key.scope ∧ row.Fits)
      "invalid reaction contribution"
    checkReactions pending (row.key :: seen) rest

/-- `RewardRecovery::validate`. -/
def validate (fl : Floats F) (r : RewardRecovery) (pending : List (String × Pending F)) :
    Except String Unit := do
  r.erasure.validate
  ensure (r.reactions.length ≤ maxRecoveryEntries ∧
      r.settled.length + pending.countP (fun (_, p) => p.reactionTracking) ≤ maxRecoveryEntries)
    "reward recovery capacity exceeded"
  ensure ((∀ row ∈ pending, row.2.Sound fl row.1) ∧ (pending.map (·.1)).Nodup)
    "invalid pending reward"
  ensure ((∀ row ∈ r.settled, row.Sound) ∧
      (pending.map (·.1) ++ r.settled.map (·.message)).Nodup) "invalid settled reward"
  checkReactions pending [] r.reactions
  ensure (∀ row ∈ pending, row.2.reactionTracking = true →
      positives r.reactions row.1 = row.2.positiveReactions)
    "reaction count does not match pending reward"

/-- A marker that is old enough. -/
def Closed (now : ℕ) (row : SettledTurn) : Bool := closedRetentionSecs ≤ now - row.closedAt

/-- The floor over the time of a turn that is retired. -/
def raise (floor : Option ℕ) (createdAt : ℕ) : Option ℕ :=
  some (floor.elim createdAt fun old => max old createdAt)

/-- `prune_recovery`. -/
def prune (r : RewardRecovery) (now : ℕ) : RewardRecovery where
  erasure := r.erasure
  reactions := r.reactions
  settled := r.settled.filter fun row => !Closed now row
  retiredThrough := (r.settled.filter (Closed now)).foldl (fun floor row => raise floor row.createdAt)
    r.retiredThrough

end RewardRecovery

namespace RewardCollector

variable (E : Env F)

/-! ### Restarts -/

/-- `export_pending`. -/
def exportPending (c : RewardCollector F) : List (String × Pending F) := c.pending.toList

/-- `export_recovery`. -/
def exportRecovery (c : RewardCollector F) : RewardRecovery :=
  { c.recovery with
    reactions := c.recovery.reactions.insertionSort fun a b => a.key.order ≤ b.key.order
    settled := c.recovery.settled.insertionSort fun a b => a.message ≤ b.message }

/-- `restore_recovered`. -/
def restoreRecovered (c : RewardCollector F) (rows : List (String × Pending F))
    (recovery : RewardRecovery) : Except String (RewardCollector F) := do
  recovery.validate E.floats rows
  ensure (c.pending.isEmpty = true ∧ c.recovery = default) "reward collector already initialized"
  return ⟨rows.foldl (fun m row => m.insert row.1 row.2) ∅, recovery⟩

/-! ### Turns -/

def pruneRecovery (c : RewardCollector F) (now : ℕ) : RewardCollector F :=
  { c with recovery := c.recovery.prune now }

/-- A row is changed. -/
def modify (c : RewardCollector F) (id : String) (f : Pending F → Pending F) : RewardCollector F :=
  { c with pending := c.pending.modify id f }

/-- `REPLY_BASELINE`. -/
def replyBaseline : ℚ := -2 / 10

/-- The row of a new turn. -/
def opened (turn : ReplyTurn F) : Pending F where
  state := turn.state
  action := turn.action
  scopedGuildId := turn.scopedGuildId
  reward := E.floats.lit replyBaseline
  positiveReactions := 0
  createdAt := turn.now
  settleImmediately := false
  scope := turn.scope
  askSignature := .fromText E.lexicon turn.ask
  asker := turn.asker
  delayedSum := E.floats.lit 0
  delayedCount := 0
  reactionTracking := true

/-- No new turn is taken: there is a row without tracking, the turn is open, closed or retired, or
there is no room. -/
def Refuses (c : RewardCollector F) (turn : ReplyTurn F) : Prop :=
  (values c.pending).any (fun p => !p.reactionTracking) = true ∨
    turn.sentNativeMessageId ∈ c.pending ∨
    (∃ row ∈ c.recovery.settled, row.message = turn.sentNativeMessageId) ∨
    (∃ floor ∈ c.recovery.retiredThrough, turn.now ≤ floor) ∨
    maxRecoveryEntries ≤ c.pending.size + c.recovery.settled.length

instance (c : RewardCollector F) (turn : ReplyTurn F) : Decidable (c.Refuses turn) :=
  inferInstanceAs (Decidable (_ ∨ _ ∨ _ ∨ (∃ floor ∈ c.recovery.retiredThrough, _) ∨ _))

/-- `register_turn`. -/
def registerTurn (c : RewardCollector F) (turn : ReplyTurn F) : RewardCollector F :=
  if c.recovery.erasure.blocks E.codec turn.scopedGuildId turn.asker turn.now then c
  else
    let c := c.pruneRecovery turn.now
    if c.Refuses turn then c
    else { c with pending := c.pending.insert turn.sentNativeMessageId (opened E turn) }

/-- `register_reply`. -/
def registerReply (c : RewardCollector F) (state : List F) (action : ℕ)
    (sentNativeMessageId scopedGuildId scope : String) (now : ℕ) : RewardCollector F :=
  c.registerTurn E ⟨state, action, sentNativeMessageId, scope, scopedGuildId, "", "", now⟩

/-! ### Attribution -/

/-- The turn may still be credited: `open`. -/
def Pending.Open (p : Pending F) (now : ℕ) : Prop :=
  p.settleImmediately = false ∧ p.createdAt ≤ now ∧ now - p.createdAt ≤ attributionTtlSecs

instance (p : Pending F) (now : ℕ) : Decidable (Pending.Open p now) :=
  inferInstanceAs (Decidable (_ ∧ _))

def attribution (c : RewardCollector F) (scope : String) (replyTo : Option String) (now : ℕ) :
    Except FeedbackAttribution (FeedbackAttribution × String) :=
  if scope = "" then .error .unsupported
  else match replyTo with
  | some id => match c.pending[id]? with
    | none => .error .expired
    | some p =>
      if p.scope ≠ scope then .error .unsupported
      else if Pending.Open p now then .ok (.exactReply, id)
      else .error .expired
  | none =>
    match c.pending.toList.filter fun (_, p) =>
      decide (p.scope = scope ∧ p.action ≠ BotAction.react.index ∧ Pending.Open p now) with
    | [] => .error .expired
    | [(id, _)] => .ok (.uniqueScoped, id)
    | _ => .error .ambiguous

/-- `credit`. -/
def credit (outcome : ReplyOutcome) (p : Pending F) : Pending F :=
  if outcome.delayedValue = 0 then p
  else { p with
    delayedSum := E.floats.add p.delayedSum (E.floats.lit outcome.delayedValue)
    delayedCount := min (p.delayedCount + 1) (2 ^ 16 - 1) }

def observeReplyTo (c : RewardCollector F) (scope id : String) (outcome : ReplyOutcome) (now : ℕ) :
    Bool × RewardCollector F :=
  match c.attribution scope (some id) now with
  | .error _ => (false, c)
  | .ok _ => (true, c.modify id (credit E outcome))

def observeInScope (c : RewardCollector F) (scope observer : String) (outcome : ReplyOutcome)
    (now : ℕ) : Option String × RewardCollector F :=
  match c.attribution scope none now with
  | .error _ => (none, c)
  | .ok (_, id) => match c.pending[id]? with
    | none => (none, c)
    | some p =>
      if observer = "" ∨ outcome.needsTheOriginalAsker = true ∧ (p.asker = "" ∨ p.asker ≠ observer) then
        (none, c)
      else (some id, c.modify id (credit E outcome))

def humanReplied (c : RewardCollector F) (scope id : String) (now : ℕ) : RewardCollector F :=
  match c.attribution scope (some id) now with
  | .error _ => c
  | .ok _ => c.modify id fun p => { p with reward := E.floats.add p.reward (E.floats.lit (1 / 2)) }

/-- `open_ask`. -/
def openAsk (c : RewardCollector F) (turnId : String) : Option AskSignature :=
  (c.pending[turnId]?.map (·.askSignature)).filter fun a => a.tokenHashes ≠ []

def feedback (c : RewardCollector F) (scope observer : String) (replyTo : Option String)
    (text : String) (now : ℕ) : FeedbackAttribution × RewardCollector F :=
  if observer = "" then (.unsupported, c)
  else match c.attribution scope replyTo now with
  | .error reason => (reason, c)
  | .ok (source, id) =>
    if c.pending[id]?.any (fun p => c.recovery.erasure.blocks E.codec p.scopedGuildId observer now) then
      (.expired, c)
    else
      let observed := (AskSignature.classify E.lexicon text (c.openAsk id)).getD .noEngagement
      if source = .exactReply then
        (source, ((c.humanReplied E scope id now).observeReplyTo E scope id observed now).2)
      else match c.observeInScope E scope observer observed now with
      | (none, c) => (.unsupported, c)
      | (some _, c) => (source, c)

/-! ### Reactions -/

/-- `swap_remove`: the last element takes the place of the removed one. -/
def swapRemove {α : Type} (l : List α) (i : ℕ) : List α :=
  match l.getLast? with
  | some last => (l.set i last).dropLast
  | none => []

/-- What a reaction adds to its turn, and how it is recorded. -/
def contribute (positive : Bool) (p : Pending F) : ReactionContribution × Pending F :=
  if positive = true ∧ p.positiveReactions < maxPositiveReactions then
    (.positive, { p with
      reward := E.floats.add p.reward (E.floats.lit 1)
      positiveReactions := p.positiveReactions + 1 })
  else if positive then (.capped, p)
  else (.negative, { p with reward := E.floats.sub p.reward (E.floats.lit 1) })

/-- The recorded contribution is taken back. -/
def reverse (contribution : ReactionContribution) (p : Pending F) : Pending F :=
  match contribution with
  | .positive => { p with
      reward := E.floats.sub p.reward (E.floats.lit 1)
      positiveReactions := p.positiveReactions - 1 }
  | .negative => { p with reward := E.floats.add p.reward (E.floats.lit 1) }
  | .capped => p

def reaction (c : RewardCollector F) (key : ReactionKey) (added : Bool) (now : ℕ) :
    FeedbackAttribution × RewardCollector F :=
  let positive := decide (key.emoji ∈ positiveEmoji)
  if positive = false ∧ key.emoji ∉ negativeEmoji then (.unsupported, c)
  else match c.attribution key.scope (some key.message) now, c.pending[key.message]? with
  | .error reason, _ => (reason, c)
  | .ok _, none => (.expired, c)
  | .ok _, some p =>
    if c.recovery.erasure.blocksHash E.codec p.scopedGuildId key.reactorHash now then (.expired, c)
    else if p.reactionTracking = false then (.unsupported, c)
    else match c.recovery.reactions.findIdx? (·.key = key), added with
    | some _, true => (.duplicate, c)
    | none, true =>
      if maxRecoveryEntries ≤ c.recovery.reactions.length then (.unsupported, c)
      else
        let (contribution, p) := contribute E positive p
        (.exactReply, ⟨c.pending.insert key.message p,
          { c.recovery with reactions := c.recovery.reactions ++ [⟨key, contribution⟩] }⟩)
    | none, false => (.duplicate, c)
    | some index, false => match c.recovery.reactions[index]? with
      | none => (.duplicate, c)
      | some row => (.exactReply, ⟨c.pending.insert key.message (reverse E row.contribution p),
          { c.recovery with reactions := swapRemove c.recovery.reactions index }⟩)

/-- A turn that is credited by its id is open in the scope. -/
theorem attribution_exact {c : RewardCollector F} {scope id : String} {now : ℕ}
    {found : FeedbackAttribution × String} (h : c.attribution scope (some id) now = .ok found) :
    scope ≠ "" ∧ ∃ p, c.pending[id]? = some p ∧ p.scope = scope := by
  unfold attribution at h
  split_ifs at h with hscope
  refine ⟨hscope, ?_⟩
  dsimp only at h
  cases hp : c.pending[id]? with
  | none =>
    rw [hp] at h
    cases h
  | some p =>
    rw [hp] at h
    dsimp only at h
    split_ifs at h with hne
    exact ⟨p, rfl, not_not.mp hne⟩

/-- A reaction changes nothing, or it is new and recorded, or it was recorded and is taken back. -/
theorem reaction_cases (c : RewardCollector F) (key : ReactionKey) (added : Bool) (now : ℕ) :
    (∃ a, c.reaction E key added now = (a, c)) ∨
    ∃ p, c.pending[key.message]? = some p ∧ p.scope = key.scope ∧ p.reactionTracking = true ∧
      (key.emoji ∈ positiveEmoji ∨ key.emoji ∈ negativeEmoji) ∧
      (((∀ r ∈ c.recovery.reactions, r.key ≠ key) ∧
          c.recovery.reactions.length < maxRecoveryEntries ∧
          c.reaction E key added now = (.exactReply,
            ⟨c.pending.insert key.message (contribute E (decide (key.emoji ∈ positiveEmoji)) p).2,
              { c.recovery with reactions := c.recovery.reactions ++
                [⟨key, (contribute E (decide (key.emoji ∈ positiveEmoji)) p).1⟩] }⟩)) ∨
        ∃ index row, c.recovery.reactions[index]? = some row ∧ row.key = key ∧
          c.reaction E key added now = (.exactReply,
            ⟨c.pending.insert key.message (reverse E row.contribution p),
              { c.recovery with reactions := swapRemove c.recovery.reactions index }⟩)) := by
  unfold reaction
  dsimp only
  by_cases hemoji : decide (key.emoji ∈ positiveEmoji) = false ∧ key.emoji ∉ negativeEmoji
  · rw [if_pos hemoji]
    exact .inl ⟨_, rfl⟩
  rw [if_neg hemoji]
  have hemoji' : key.emoji ∈ positiveEmoji ∨ key.emoji ∈ negativeEmoji := by
    simpa [imp_iff_not_or, or_comm] using hemoji
  cases hfound : c.attribution key.scope (some key.message) now with
  | error reason => exact .inl ⟨_, rfl⟩
  | ok found =>
    obtain ⟨-, p, hp, hscope⟩ := attribution_exact hfound
    rw [hp]
    dsimp only
    by_cases hblocked : c.recovery.erasure.blocksHash E.codec p.scopedGuildId key.reactorHash now = true
    · rw [if_pos hblocked]
      exact .inl ⟨_, rfl⟩
    rw [if_neg hblocked]
    by_cases htracking : p.reactionTracking = false
    · rw [if_pos htracking]
      exact .inl ⟨_, rfl⟩
    rw [if_neg htracking]
    have htracking' : p.reactionTracking = true := eq_true_of_ne_false htracking
    cases hindex : c.recovery.reactions.findIdx? (·.key = key) with
    | none =>
      cases added with
      | false => exact .inl ⟨_, rfl⟩
      | true =>
        dsimp only
        by_cases hfull : maxRecoveryEntries ≤ c.recovery.reactions.length
        · rw [if_pos hfull]
          exact .inl ⟨_, rfl⟩
        · rw [if_neg hfull]
          have hnew : ∀ r ∈ c.recovery.reactions, r.key ≠ key := by
            simpa using List.findIdx?_eq_none_iff.mp hindex
          exact .inr ⟨p, rfl, hscope, htracking', hemoji', .inl ⟨hnew, not_le.mp hfull, rfl⟩⟩
    | some index =>
      cases added with
      | true => exact .inl ⟨_, rfl⟩
      | false =>
        dsimp only
        obtain ⟨hlt, hkey, -⟩ := List.findIdx?_eq_some_iff_getElem.mp hindex
        rw [List.getElem?_eq_getElem hlt]
        exact .inr ⟨p, rfl, hscope, htracking', hemoji', .inr ⟨index, _, List.getElem?_eq_getElem hlt,
          of_decide_eq_true hkey, rfl⟩⟩

/-- `abbey_message_deleted`. -/
def abbeyMessageDeleted (c : RewardCollector F) (nativeMessageId : String) : RewardCollector F :=
  c.modify nativeMessageId fun p => { p with reward := E.floats.lit (-2), settleImmediately := true }

/-! ### Settlement -/

/-- The order in which a hash table is gone through. -/
structure HashOrder where
  iterate : List String → List String
  perm : ∀ l, (iterate l).Perm l

/-- The turn is due. -/
def Pending.Expired (p : Pending F) (now : ℕ) : Bool :=
  p.settleImmediately || settlementWindowSecs < now - p.createdAt

/-- A turn is removed, and its marker or the floor takes its place. -/
def close (c : RewardCollector F) (now : ℕ) (key : String) (p : Pending F) : RewardCollector F where
  pending := c.pending.erase key
  recovery :=
    let r := { c.recovery with reactions := c.recovery.reactions.filter (·.key.message ≠ key) }
    if p.reactionTracking then
      { r with settled := r.settled ++ [⟨p.scope, key, p.createdAt, max now p.createdAt⟩] }
    else { r with retiredThrough := RewardRecovery.raise r.retiredThrough p.createdAt }

/-- The turns of the keys are closed one by one; the rows that were handed out. -/
def drain (now : ℕ) : List String → RewardCollector F →
    List (String × Pending F) × RewardCollector F
  | [], c => ([], c)
  | key :: keys, c => match c.pending[key]? with
    | none => drain now keys c
    | some p =>
      let (rows, c) := drain now keys (c.close now key p)
      ((key, p) :: rows, c)

/-- The keys of the turns that are due, in the order of the table. -/
def expiredKeys (c : RewardCollector F) (now : ℕ) (order : HashOrder) : List String :=
  order.iterate ((c.pending.toList.filter fun (_, p) => Pending.Expired p now).map (·.1))

/-- The rows that a sweep hands out, and the collector after it. -/
def sweep (c : RewardCollector F) (now : ℕ) (order : HashOrder) :
    List (String × Pending F) × RewardCollector F :=
  let c := c.pruneRecovery now
  drain now (c.expiredKeys now order) c

/-- `blend` and the clamp. -/
def settledReward (p : Pending F) : F :=
  let blended := if p.delayedCount = 0 then p.reward
    else E.floats.add p.reward (E.floats.mul (E.floats.lit 1) (E.floats.div p.delayedSum p.delayedCount))
  E.floats.clamp blended (E.floats.lit (-3)) (E.floats.lit 3)

/-- `settle_expired`. -/
def settleExpired (c : RewardCollector F) (now : ℕ) (order : HashOrder) :
    List (String × Experience F) × RewardCollector F :=
  let (rows, c) := c.sweep now order
  (rows.map fun (_, p) => (p.scopedGuildId,
    { state := p.state, action := p.action, reward := settledReward E p, nextState := p.state
      done := true }), c)

/-! ### Erasure -/

/-- One reaction of an erased member is taken back. -/
def forget (c : RewardCollector F) (key : ReactionKey) : RewardCollector F :=
  match c.recovery.reactions.find? (·.key = key) with
  | none => c
  | some row => ⟨c.pending.modify key.message (reverse E row.contribution),
      { c.recovery with reactions := c.recovery.reactions.eraseP (·.key = key) }⟩

/-- The turn is linked to the member in the scope. -/
def Linked (scope : String) (member : Option String) (p : Pending F) : Bool :=
  p.scopedGuildId = scope && member.all (· = p.asker)

/-- The reactions of the member to turns of the scope. -/
def ownReactions (c : RewardCollector F) (scope : String) (member : Option String) :
    List ReactionKey :=
  (c.recovery.reactions.filter fun r =>
    c.pending[r.key.message]?.any (fun p => p.scopedGuildId = scope) &&
      member.all fun m => (memberHash m).toNat = r.key.reactorHash).map (·.key)

/-- `erase_learning`. -/
def eraseLearning (c : RewardCollector F) (scope : String) (member : Option String)
    (ledger : ErasureLedger) : (ℕ × ℕ) × RewardCollector F :=
  let removed := (c.pending.toList.filter fun (_, p) => Linked scope member p).map (·.1)
  let after := (c.ownReactions scope member).foldl (forget E) c
  let after : RewardCollector F := ⟨after.pending.filter fun id _ => decide (id ∉ removed),
    { after.recovery with
      reactions := after.recovery.reactions.filter fun r => decide (r.key.message ∉ removed)
      erasure := ledger }⟩
  ((c.pending.size - after.pending.size,
    c.recovery.reactions.length - after.recovery.reactions.length), after)

/-! ### Runs -/

inductive Op (F : Type) where
  | registerTurn (turn : ReplyTurn F)
  | registerReply (state : List F) (action : ℕ) (sentNativeMessageId scopedGuildId scope : String)
      (now : ℕ)
  | observeReplyTo (scope id : String) (outcome : ReplyOutcome) (now : ℕ)
  | observeInScope (scope observer : String) (outcome : ReplyOutcome) (now : ℕ)
  | feedback (scope observer : String) (replyTo : Option String) (text : String) (now : ℕ)
  | humanReplied (scope id : String) (now : ℕ)
  | reaction (key : ReactionKey) (added : Bool) (now : ℕ)
  | abbeyMessageDeleted (nativeMessageId : String)
  | settleExpired (now : ℕ) (order : HashOrder)
  | eraseLearning (scope : String) (member : Option String) (ledger : ErasureLedger)
  /-- The pair is exported, and restored into a new collector; where it is refused the process does
  not start. -/
  | restart

inductive Output (F : Type) where
  | done
  | observed (credited : Bool)
  | credited (id : Option String)
  | attributed (a : FeedbackAttribution)
  | settled (rows : List (String × Experience F))
  | erased (counts : ℕ × ℕ)
  | restarted (result : Except String Unit)

/-- **The step function** of the collector. -/
def step (c : RewardCollector F) : Op F → Output F × RewardCollector F
  | .registerTurn turn => (.done, c.registerTurn E turn)
  | .registerReply state action id guild scope now =>
    (.done, c.registerReply E state action id guild scope now)
  | .observeReplyTo scope id outcome now =>
    (.observed (c.observeReplyTo E scope id outcome now).1, (c.observeReplyTo E scope id outcome now).2)
  | .observeInScope scope observer outcome now =>
    (.credited (c.observeInScope E scope observer outcome now).1,
      (c.observeInScope E scope observer outcome now).2)
  | .feedback scope observer replyTo text now =>
    (.attributed (c.feedback E scope observer replyTo text now).1,
      (c.feedback E scope observer replyTo text now).2)
  | .humanReplied scope id now => (.done, c.humanReplied E scope id now)
  | .reaction key added now =>
    (.attributed (c.reaction E key added now).1, (c.reaction E key added now).2)
  | .abbeyMessageDeleted id => (.done, c.abbeyMessageDeleted E id)
  | .settleExpired now order =>
    (.settled (c.settleExpired E now order).1, (c.settleExpired E now order).2)
  | .eraseLearning scope member ledger =>
    (.erased (c.eraseLearning E scope member ledger).1, (c.eraseLearning E scope member ledger).2)
  | .restart => match (new : RewardCollector F).restoreRecovered E c.exportPending c.exportRecovery with
    | .ok c' => (.restarted (.ok ()), c')
    | .error e => (.restarted (.error e), c)

abbrev Trace (F : Type) := List (Event (RewardCollector F) (Op F) (Output F))

end RewardCollector

end AbbeyBot.Brain.Reward
