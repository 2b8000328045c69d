import Mathlib
import AbbeyBot.Brain.Erasure
import AbbeyBot.Library.OrderedMap

/-! # Pending rewards

A reply is held open for a while to collect what the members make of it, and is then settled into an
experience. What must survive a restart, so that nothing counts twice, is the recovery metadata: the
reactions that were counted, the turns that were settled, and a floor of creation times below which
everything was.

The arithmetic of `f32` is a parameter, with what is used of it; so is the splitting of a text into
words. -/

namespace AbbeyBot.Brain.Reward

open AbbeyBot.Library.OrderedMap AbbeyBot.Library.Text

/-! ### Parameters -/

/-- `f32`: a small literal is finite, and adding it to a finite number gives a finite one. -/
structure Floats (F : Type) where
  lit : ℚ → F
  isFinite : F → Bool
  add : F → F → F
  sub : F → F → F
  mul : F → F → F
  /-- The quotient by a count. -/
  div : F → ℕ → F
  clamp : F → F → F → F
  isFinite_lit : ∀ q : ℚ, |q| ≤ 2 → isFinite (lit q) = true
  isFinite_add : ∀ (x : F) (q : ℚ), isFinite x = true → |q| ≤ 2 → isFinite (add x (lit q)) = true
  isFinite_sub : ∀ (x : F) (q : ℚ), isFinite x = true → |q| ≤ 2 → isFinite (sub x (lit q)) = true

/-- A typed, observable outcome of a reply. -/
inductive ReplyOutcome where
  | explicitThanks
  | followUpQuestion
  | rephrasedSameAsk
  | correction
  | noEngagement
  deriving DecidableEq, Repr

/-- What is read off a text. -/
structure Lexicon where
  /-- The hashes of the content words, in order. -/
  tokenHashes : String → List ℕ
  /-- `marker_outcome`. -/
  marker : String → Option ReplyOutcome

/-- What lies outside of the collector. -/
structure Env (F : Type) where
  codec : Codec
  floats : Floats F
  lexicon : Lexicon

/-! ### Outcomes -/

namespace ReplyOutcome

def delayedValue : ReplyOutcome → ℚ
  | explicitThanks => 1
  | followUpQuestion => 4 / 10
  | rephrasedSameAsk => -5 / 10
  | correction => -1
  | noEngagement => 0

def needsTheOriginalAsker : ReplyOutcome → Bool
  | explicitThanks | correction => true
  | _ => false

theorem abs_delayedValue_le (o : ReplyOutcome) : |o.delayedValue| ≤ 2 := by
  cases o <;> norm_num [delayedValue, abs_le]

end ReplyOutcome

/-- `MAX_TOKENS`. -/
def maxTokens : ℕ := 32

structure AskMarkers where
  correction : Bool
  thanks : Bool
  question : Bool
  deriving DecidableEq, Repr

structure AskSignature where
  tokenHashes : List ℕ
  markers : AskMarkers
  deriving DecidableEq, Repr

namespace AskSignature

/-- The first distinct hashes. -/
def firstDistinct (kept : List ℕ) : List ℕ → List ℕ
  | [] => kept
  | hash :: rest =>
    if hash ∈ kept then firstDistinct kept rest
    else if kept.length + 1 = maxTokens then kept ++ [hash]
    else firstDistinct (kept ++ [hash]) rest

/-- `str::trim_end` and `ends_with('?')`. -/
def endsWithQuestion (text : String) : Bool :=
  (text.toList.reverse.dropWhile isWhitespace).head? = some '?'

def fromText (L : Lexicon) (text : String) : AskSignature where
  tokenHashes := firstDistinct [] (L.tokenHashes text)
  markers :=
    { correction := L.marker text = some .correction
      thanks := L.marker text = some .explicitThanks
      question := endsWithQuestion text }

def valid (s : AskSignature) : Bool :=
  s.tokenHashes.length ≤ maxTokens && decide s.tokenHashes.Nodup &&
    !(s.markers.correction && s.markers.thanks)

theorem firstDistinct_valid (hashes : List ℕ) : ∀ kept : List ℕ, kept.length < maxTokens →
    kept.Nodup → (firstDistinct kept hashes).length ≤ maxTokens ∧
      (firstDistinct kept hashes).Nodup := by
  induction hashes with
  | nil => exact fun kept hlength hnodup => ⟨hlength.le, hnodup⟩
  | cons hash rest ih =>
    intro kept hlength hnodup
    have hnew : hash ∉ kept → (kept ++ [hash]).Nodup := fun hnot =>
      List.nodup_append.mpr ⟨hnodup, List.nodup_singleton _, fun a ha b hb => by
        rw [List.mem_singleton] at hb
        rintro rfl
        exact hnot (hb ▸ ha)⟩
    unfold firstDistinct
    split_ifs with hmem hlast
    · exact ih kept hlength hnodup
    · exact ⟨by rw [List.length_append, List.length_singleton]; exact hlast.le, hnew hmem⟩
    · refine ih _ ?_ (hnew hmem)
      rw [List.length_append, List.length_singleton]
      omega

/-- A signature that was taken from a text is valid. -/
theorem valid_fromText (L : Lexicon) (text : String) : (fromText L text).valid = true := by
  obtain ⟨hlength, hnodup⟩ := firstDistinct_valid (L.tokenHashes text) [] (by decide) List.nodup_nil
  unfold valid fromText
  cases hmarker : L.marker text with
  | none => simp [hlength, hnodup]
  | some o => cases o <;> simp [hlength, hnodup]

/-- `classify_signature`; the overlaps are 0.6 and 0.25 of the prior words. -/
def classify (L : Lexicon) (text : String) (prior : Option AskSignature) : Option ReplyOutcome :=
  let current := fromText L text
  if current.markers.correction then some .correction
  else if current.markers.thanks then some .explicitThanks
  else if current.markers.question = false then none
  else match prior with
  | none => none
  | some prior =>
    let shared := prior.tokenHashes.countP (· ∈ current.tokenHashes)
    if prior.tokenHashes = [] then none
    else if 6 * prior.tokenHashes.length ≤ 10 * shared then some .rephrasedSameAsk
    else if prior.tokenHashes.length ≤ 4 * shared then some .followUpQuestion
    else none

end AskSignature

/-! ### Actions -/

inductive BotAction where
  | stay
  | reply
  | react
  deriving DecidableEq, Repr

namespace BotAction

def index : BotAction → ℕ
  | stay => 0
  | reply => 1
  | react => 2

def fromIndex : ℕ → Option BotAction
  | 0 => some stay
  | 1 => some reply
  | 2 => some react
  | _ => none

end BotAction

/-! ### Records -/

variable {F : Type}

structure ReplyTurn (F : Type) where
  state : List F
  action : ℕ
  sentNativeMessageId : String
  scope : String
  scopedGuildId : String
  ask : String
  asker : String
  now : ℕ

/-- A reply that waits for its settlement. -/
structure Pending (F : Type) where
  state : List F
  action : ℕ
  scopedGuildId : String
  reward : F
  positiveReactions : ℕ
  createdAt : ℕ
  settleImmediately : Bool
  scope : String
  askSignature : AskSignature
  asker : String
  delayedSum : F
  delayedCount : ℕ
  reactionTracking : Bool
  deriving DecidableEq

structure Experience (F : Type) where
  state : List F
  action : ℕ
  reward : F
  nextState : List F
  done : Bool
  deriving DecidableEq

structure ReactionKey where
  scope : String
  message : String
  reactorHash : ℕ
  emoji : String
  deriving DecidableEq, Repr

/-- The order of the reactions in a document. -/
def ReactionKey.order (key : ReactionKey) : String ×ₗ String ×ₗ ℕ ×ₗ String :=
  toLex (key.scope, toLex (key.message, toLex (key.reactorHash, key.emoji)))

inductive ReactionContribution where
  | positive
  | negative
  | capped
  deriving DecidableEq, Repr

structure ReactionRecord where
  key : ReactionKey
  contribution : ReactionContribution
  deriving DecidableEq, Repr

structure SettledTurn where
  scope : String
  message : String
  createdAt : ℕ
  closedAt : ℕ
  deriving DecidableEq, Repr

structure RewardRecovery where
  erasure : ErasureLedger
  reactions : List ReactionRecord
  settled : List SettledTurn
  retiredThrough : Option ℕ
  deriving DecidableEq, Repr

/-- `RewardRecovery::default`. -/
instance : Inhabited RewardRecovery := ⟨⟨default, [], [], none⟩⟩

structure RewardCollector (F : Type) where
  pending : BTreeMap String (Pending F)
  recovery : RewardRecovery
  deriving DecidableEq

/-- `RewardCollector::new`. -/
def RewardCollector.new : RewardCollector F := ⟨∅, default⟩

inductive FeedbackAttribution where
  | exactReply
  | uniqueScoped
  | duplicate
  | ambiguous
  | expired
  | unsupported
  deriving DecidableEq, Repr

def settlementWindowSecs : ℕ := 150

/-- `ATTRIBUTION_TTL_SECS`. -/
def attributionTtlSecs : ℕ := settlementWindowSecs

def maxPositiveReactions : ℕ := 3

def maxRecoveryEntries : ℕ := 4096

def closedRetentionSecs : ℕ := 300

/-- `POSITIVE_EMOJI`. -/
def positiveEmoji : List String := ["👍", "❤️", "🔥", "😂", "💯", "⭐"]

/-- `NEGATIVE_EMOJI`. -/
def negativeEmoji : List String := ["👎", "💀", "😡", "🤮"]

end AbbeyBot.Brain.Reward
