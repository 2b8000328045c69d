import Mathlib
import AbbeyBot.Library.History
import AbbeyBot.Library.Word
import AbbeyBot.Embedding.Wyhash

/-! # Style addenda

What the members of a guild say about the style of the replies is kept as observations of a closed
vocabulary, under hashes of the members. When enough of them agree, a fixed sentence becomes active for
a time; an operator can revert a knob, which is then suppressed for a time. The ledger is a record of
the history that is bounded in every table. -/

namespace AbbeyBot.Brain.Addenda

open AbbeyBot.Embedding AbbeyBot.Library.History AbbeyBot.Library.Word

/-! ### The vocabulary -/

inductive StyleSignal where
  | tooLong
  | tooShort
  | tooFormal
  | tooCasual
  | noEmoji
  | moreEmoji
  | preferCode
  | fewerFollowUps
  deriving DecidableEq, Repr

inductive StyleKnob where
  | length
  | formality
  | emoji
  | code
  | followUp
  deriving DecidableEq, Repr

/-- The signals in their order. -/
def StyleSignal.all : List StyleSignal :=
  [.tooLong, .tooShort, .tooFormal, .tooCasual, .noEmoji, .moreEmoji, .preferCode, .fewerFollowUps]

/-- `KNOBS`, in render order. -/
def StyleKnob.all : List StyleKnob := [.length, .formality, .emoji, .code, .followUp]

def StyleKnob.rank : StyleKnob → ℕ
  | .length => 0
  | .formality => 1
  | .emoji => 2
  | .code => 3
  | .followUp => 4

def StyleSignal.knob : StyleSignal → StyleKnob
  | .tooLong | .tooShort => .length
  | .tooFormal | .tooCasual => .formality
  | .noEmoji | .moreEmoji => .emoji
  | .preferCode => .code
  | .fewerFollowUps => .followUp

/-- The signal that pulls the same knob the other way. -/
def StyleSignal.opposite : StyleSignal → Option StyleSignal
  | .tooLong => some .tooShort
  | .tooShort => some .tooLong
  | .tooFormal => some .tooCasual
  | .tooCasual => some .tooFormal
  | .noEmoji => some .moreEmoji
  | .moreEmoji => some .noEmoji
  | .preferCode | .fewerFollowUps => none

/-- The one sentence of a signal. -/
def template : StyleSignal → String
  | .tooLong => "Keep replies brief: a few sentences unless asked for detail."
  | .tooShort => "Give fuller answers: include the key detail and a short example when it helps."
  | .tooFormal => "Use a relaxed, conversational tone."
  | .tooCasual => "Use a clear, professional tone."
  | .noEmoji => "Do not use emoji."
  | .moreEmoji => "An occasional emoji is welcome where it fits."
  | .preferCode => "When code helps, show it in a fenced code block."
  | .fewerFollowUps => "Suppress optional contextual follow-ups in this server."

def header : String := "Style preferences this server has asked for:"

/-! ### The ledger -/

structure Policy where
  signals : ℕ
  distinctUsers : ℕ
  windowSecs : ℕ
  ttlSecs : ℕ
  maxAddenda : ℕ
  maxBytes : ℕ
  deriving DecidableEq, Repr

def maxObservations : ℕ := 64

def maxPerMemberSignal : ℕ := 2

def maxRenderBytes : ℕ := 400

structure Observation where
  member : UInt64
  signal : StyleSignal
  at_ : ℕ
  deriving DecidableEq

structure Addendum where
  signal : StyleSignal
  expiresAt : ℕ
  deriving DecidableEq, Repr

structure Suppression where
  knob : StyleKnob
  until_ : ℕ
  deriving DecidableEq, Repr

inductive AddendumChange where
  | applied (signal : StyleSignal)
  | expired (signal : StyleSignal)
  deriving DecidableEq, Repr

structure AddendaLedger where
  observations : List Observation
  active : List Addendum
  suppressed : List Suppression
  deriving DecidableEq

/-- `MEMBER_KEY_SEED`. -/
def memberKeySeed : UInt64 := 0x7374796c655f6d6b

/-- `member_hash`. The hash never stops. -/
def memberHash (key : String) : UInt64 :=
  let bytes := key.toList.flatMap String.utf8EncodeChar
  match (hash memberKeySeed bytes.length).run bytes with
  | some (digest, _) => digest
  | none => 0

/-- `slice::sort_by_key`, which is stable. -/
def sortByKey {α : Type} (key : α → ℕ) (l : List α) : List α := l.insertionSort fun a b => key a ≤ key b

theorem sortByKey_perm {α : Type} (key : α → ℕ) (l : List α) : (sortByKey key l).Perm l :=
  List.perm_insertionSort _ l

theorem mem_sortByKey {α : Type} {key : α → ℕ} {l : List α} {a : α} : a ∈ sortByKey key l ↔ a ∈ l :=
  (sortByKey_perm key l).mem_iff

theorem pairwise_sortByKey {α : Type} (key : α → ℕ) (l : List α) :
    (sortByKey key l).Pairwise fun a b => key a ≤ key b := by
  have : Std.Total fun a b : α => key a ≤ key b := ⟨fun a b => le_total _ _⟩
  have : IsTrans α fun a b : α => key a ≤ key b := ⟨fun a b c hab hbc => hab.trans hbc⟩
  exact List.pairwise_insertionSort _ l

/-- Lines, with a break between them. -/
def joined : List String → String
  | [] => ""
  | [line] => line
  | line :: rest => line ++ "\n" ++ joined rest

/-- The header and a line for each signal. -/
def fullText (signals : List StyleSignal) : String :=
  joined (header :: signals.map fun s => "- " ++ template s)

/-- The loop of `render_signals`. -/
def renderKept (signals : List StyleSignal) : ℕ → String
  | 0 => ""
  | kept + 1 =>
    let text := fullText (signals.take (kept + 1))
    if text.utf8ByteSize ≤ maxRenderBytes then text else renderKept signals kept

/-- `render_signals`. -/
def renderSignals (signals : List StyleSignal) : String := renderKept signals signals.length

namespace AddendaLedger

def empty : AddendaLedger := ⟨[], [], []⟩

/-- `AddendaLedger::is_suppressed`. -/
def IsSuppressed (l : AddendaLedger) (knob : StyleKnob) (now : ℕ) : Prop :=
  ∃ p ∈ l.suppressed, p.knob = knob ∧ now < p.until_

instance (l : AddendaLedger) (knob : StyleKnob) (now : ℕ) : Decidable (l.IsSuppressed knob now) :=
  inferInstanceAs (Decidable (∃ p ∈ l.suppressed, p.knob = knob ∧ now < p.until_))

/-- `AddendaLedger::erase_member`. -/
def eraseMember (key : String) (l : AddendaLedger) : ℕ × AddendaLedger :=
  let kept := l.observations.filter fun o => o.member ≠ memberHash key
  (l.observations.length - kept.length, { l with observations := kept })

/-- The observations without the oldest of a member and signal who has two already. -/
def makeRoom (observations : List Observation) (member : UInt64) (signal : StyleSignal) :
    List Observation :=
  let own := observations.zipIdx.filter fun o => o.1.member = member ∧ o.1.signal = signal
  if maxPerMemberSignal ≤ own.length then
    match sortByKey (fun o => o.1.at_) own with
    | (_, index) :: _ => observations.eraseIdx index
    | [] => observations
  else observations

/-- `AddendaLedger::observe`. -/
def observe (key : String) (signal : StyleSignal) (now : ℕ) (l : AddendaLedger) : AddendaLedger :=
  if l.IsSuppressed signal.knob now then l
  else
    let pushed := makeRoom l.observations (memberHash key) signal ++ [⟨memberHash key, signal, now⟩]
    { l with observations := pushed.drop (pushed.length - maxObservations) }

/-- How often a signal was observed. -/
def count (l : AddendaLedger) (signal : StyleSignal) : ℕ :=
  l.observations.countP fun o => o.signal = signal

/-- The members who gave a signal. -/
def members (l : AddendaLedger) (signal : StyleSignal) : List UInt64 :=
  ((l.observations.filter fun o => o.signal = signal).map Observation.member).dedup

/-- `AddendaLedger::supported`. -/
def Supported (l : AddendaLedger) (signal : StyleSignal) (policy : Policy) : Prop :=
  policy.signals ≤ l.count signal - (signal.opposite.map l.count).getD 0 ∧
    policy.distinctUsers ≤ (l.members signal).length

instance (l : AddendaLedger) (signal : StyleSignal) (policy : Policy) :
    Decidable (l.Supported signal policy) := inferInstanceAs (Decidable (_ ∧ _))

/-- Something is in the way of a signal. -/
def Blocked (l : AddendaLedger) (signal : StyleSignal) (policy : Policy) (now : ℕ) : Prop :=
  policy.maxAddenda ≤ l.active.length ∨ (∃ a ∈ l.active, a.signal.knob = signal.knob) ∨
    l.IsSuppressed signal.knob now ∨ ¬ l.Supported signal policy

instance (l : AddendaLedger) (signal : StyleSignal) (policy : Policy) (now : ℕ) :
    Decidable (l.Blocked signal policy now) :=
  have : Decidable (∃ a ∈ l.active, a.signal.knob = signal.knob) := List.decidableBEx _ _
  inferInstanceAs (Decidable (_ ∨ _ ∨ _ ∨ _))

/-- The signals in the order of their knobs. -/
def inKnobOrder (signals : List StyleSignal) : List StyleSignal :=
  sortByKey (fun s => s.knob.rank) signals

/-- The addendum of a signal becomes active, and its evidence is used up. -/
def withAddendum (l : AddendaLedger) (signal : StyleSignal) (expiresAt : ℕ) : AddendaLedger :=
  { l with
    active := sortByKey (fun a => a.signal.knob.rank) (l.active ++ [⟨signal, expiresAt⟩])
    observations := l.observations.filter fun o => o.signal.knob ≠ signal.knob }

/-- One candidate of `AddendaLedger::tick`. -/
def consider (policy : Policy) (now : ℕ) (r : AddendaLedger × List AddendumChange)
    (signal : StyleSignal) : AddendaLedger × List AddendumChange :=
  if r.1.Blocked signal policy now then r
  else if min policy.maxBytes maxRenderBytes <
      (renderSignals (inKnobOrder (r.1.active.map Addendum.signal ++ [signal]))).utf8ByteSize then r
  else (r.1.withAddendum signal (saturatingAdd now policy.ttlSecs), r.2 ++ [.applied signal])

/-- What is left of the tables at a time. -/
def pruned (l : AddendaLedger) (policy : Policy) (now : ℕ) : AddendaLedger where
  observations := l.observations.filter fun o => o.at_ ≤ now ∧ now - o.at_ ≤ policy.windowSecs
  active := l.active.filter fun a => now < a.expiresAt
  suppressed := l.suppressed.filter fun p => now < p.until_

/-- The signals observed, each once and in order. -/
def candidates (l : AddendaLedger) : List StyleSignal :=
  StyleSignal.all.filter fun s => l.observations.any fun o => o.signal = s

/-- `AddendaLedger::tick`. -/
def tick (policy : Policy) (now : ℕ) (l : AddendaLedger) : List AddendumChange × AddendaLedger :=
  let expired := (l.active.filter fun a => ¬ now < a.expiresAt).map fun a => .expired a.signal
  let r := (l.pruned policy now).candidates.foldl (consider policy now) (l.pruned policy now, expired)
  (r.2, r.1)

/-- The suppression of a knob is set, or added. -/
def withSuppression (knob : StyleKnob) (until_ : ℕ) : List Suppression → List Suppression
  | [] => [⟨knob, until_⟩]
  | p :: rest =>
    if p.knob = knob then { p with until_ := until_ } :: rest
    else p :: withSuppression knob until_ rest

/-- `AddendaLedger::active`. -/
def activeAt (l : AddendaLedger) (now : ℕ) : List Addendum :=
  l.active.filter fun a => now < a.expiresAt ∧ ¬ l.IsSuppressed a.signal.knob now

/-- `AddendaLedger::revert`. -/
def revert (knob : StyleKnob) (policy : Policy) (now : ℕ) (l : AddendaLedger) :
    Bool × AddendaLedger :=
  ((l.activeAt now).any fun a => a.signal.knob = knob,
    { observations := l.observations.filter fun o => o.signal.knob ≠ knob
      active := l.active.filter fun a => a.signal.knob ≠ knob
      suppressed := sortByKey (fun p => p.knob.rank)
        (withSuppression knob (saturatingAdd now policy.ttlSecs) l.suppressed) })

/-- `AddendaLedger::clear`. -/
def clear (policy : Policy) (now : ℕ) (l : AddendaLedger) : ℕ × AddendaLedger :=
  StyleKnob.all.foldl (fun r knob =>
    ((if (r.2.revert knob policy now).1 then r.1 + 1 else r.1), (r.2.revert knob policy now).2)) (0, l)

/-- `AddendaLedger::render`. -/
def render (l : AddendaLedger) (now : ℕ) : String :=
  renderSignals ((l.activeAt now).map Addendum.signal)

end AddendaLedger

/-! ### Runs -/

inductive Op where
  | observe (key : String) (signal : StyleSignal) (now : ℕ)
  | tick (now : ℕ)
  | revert (knob : StyleKnob) (now : ℕ)
  | clear (now : ℕ)
  | eraseMember (key : String)

inductive Out where
  | observed
  | ticked (changes : List AddendumChange)
  | reverted (wasActive : Bool)
  | cleared (count : ℕ)
  | erased (count : ℕ)

/-- The time of an operation. -/
def Op.time : Op → Option ℕ
  | .observe _ _ now | .tick now | .revert _ now | .clear now => some now
  | .eraseMember _ => none

/-- The time at which an operation reverts a knob. -/
def Op.revertsAt (knob : StyleKnob) : Op → Option ℕ
  | .revert knob' now => if knob' = knob then some now else none
  | .clear now => some now
  | _ => none

def step (policy : Policy) (l : AddendaLedger) : Op → Out × AddendaLedger
  | .observe key signal now => (.observed, l.observe key signal now)
  | .tick now => (.ticked (l.tick policy now).1, (l.tick policy now).2)
  | .revert knob now => (.reverted (l.revert knob policy now).1, (l.revert knob policy now).2)
  | .clear now => (.cleared (l.clear policy now).1, (l.clear policy now).2)
  | .eraseMember key => (.erased (l.eraseMember key).1, (l.eraseMember key).2)

abbrev LedgerEvent := Event AddendaLedger Op Out

abbrev LedgerHistory := List LedgerEvent

/-- The times do not go back. -/
def Ordered (h : LedgerHistory) : Prop :=
  Along (fun before e => ∀ now, e.op.time = some now → ∀ e' ∈ before, ∀ t, e'.op.time = some t →
    t ≤ now) h

/-- The signals that an output says were applied. -/
def Out.applies : Out → List StyleSignal
  | .ticked changes => changes.filterMap fun
    | .applied signal => some signal
    | .expired _ => none
  | _ => []

/-! ### Knobs in order -/

theorem StyleKnob.rank_injective : Function.Injective StyleKnob.rank := by
  intro a b h
  cases a <;> cases b <;> first | rfl | cases h

theorem StyleKnob.mem_all (knob : StyleKnob) : knob ∈ StyleKnob.all := by
  cases knob <;> decide

/-- One addendum for each knob, in their order. -/
def InOrder (active : List Addendum) : Prop :=
  active.Pairwise fun a b => a.signal.knob.rank < b.signal.knob.rank

theorem nodup_knobs {active : List Addendum} (h : InOrder active) :
    (active.map fun a => a.signal.knob).Nodup :=
  List.pairwise_map.mpr (h.imp fun {a b} hlt heq => by rw [heq] at hlt; exact lt_irrefl _ hlt)

/-- Sorting puts one more addendum in its place. -/
theorem inOrder_withAddendum {l : AddendaLedger} (h : InOrder l.active) {signal : StyleSignal}
    (hnew : ∀ a ∈ l.active, a.signal.knob ≠ signal.knob) (expiresAt : ℕ) :
    InOrder (l.withAddendum signal expiresAt).active := by
  have hnodup : ((l.active ++ [(⟨signal, expiresAt⟩ : Addendum)]).map fun a => a.signal.knob).Nodup := by
    rw [List.map_append, List.nodup_append]
    refine ⟨nodup_knobs h, List.nodup_singleton _, fun k hk k' hk' => ?_⟩
    obtain ⟨a, ha, rfl⟩ := List.mem_map.mp hk
    rw [List.mem_singleton.mp hk']
    exact hnew a ha
  have hperm := sortByKey_perm (fun a : Addendum => a.signal.knob.rank)
    (l.active ++ [⟨signal, expiresAt⟩])
  have hsorted := pairwise_sortByKey (fun a : Addendum => a.signal.knob.rank)
    (l.active ++ [⟨signal, expiresAt⟩])
  have hknobs := List.pairwise_map.mp ((hperm.map fun a => a.signal.knob).nodup_iff.mpr hnodup)
  refine (hsorted.and hknobs).imp fun {a b} ⟨hle, hne⟩ => ?_
  exact lt_of_le_of_ne hle fun heq => hne (StyleKnob.rank_injective heq)

/-! ### What is rendered -/

/-- The bytes that a line adds. -/
def lineSize (s : StyleSignal) : ℕ := 3 + (template s).utf8ByteSize

/-- The most that the line of a knob adds. -/
def maxLineSize : StyleKnob → ℕ
  | .length => 81
  | .formality => 38
  | .emoji => 48
  | .code => 51
  | .followUp => 58

theorem lineSize_le (s : StyleSignal) : lineSize s ≤ maxLineSize s.knob := by
  cases s <;> decide

theorem utf8ByteSize_joined (line : String) (lines : List String) :
    (joined (line :: lines)).utf8ByteSize =
      line.utf8ByteSize + (lines.map fun x => 1 + x.utf8ByteSize).sum := by
  induction lines generalizing line with
  | nil => simp [joined]
  | cons next lines ih =>
    have hbreak : ("\n" : String).utf8ByteSize = 1 := by decide
    show (line ++ "\n" ++ joined (next :: lines)).utf8ByteSize = _
    rw [String.utf8ByteSize_append, String.utf8ByteSize_append, ih, hbreak, List.map_cons,
      List.sum_cons]
    omega

theorem utf8ByteSize_fullText (signals : List StyleSignal) :
    (fullText signals).utf8ByteSize = 44 + (signals.map lineSize).sum := by
  have hheader : header.utf8ByteSize = 44 := by decide
  have hdash : ("- " : String).utf8ByteSize = 2 := by decide
  unfold fullText
  rw [utf8ByteSize_joined, hheader, List.map_map]
  congr 2
  refine List.map_congr_left fun s _ => ?_
  unfold lineSize
  rw [Function.comp_apply, String.utf8ByteSize_append, hdash]
  omega

/-- A line for each of the knobs fits. -/
theorem fullText_fits {signals : List StyleSignal} (h : (signals.map StyleSignal.knob).Nodup) :
    (fullText signals).utf8ByteSize ≤ maxRenderBytes := by
  have hline : (signals.map lineSize).sum ≤ ((signals.map StyleSignal.knob).map maxLineSize).sum := by
    rw [List.map_map]
    exact List.sum_le_sum fun s _ => lineSize_le s
  have hknobs : ((signals.map StyleSignal.knob).map maxLineSize).sum ≤
      (StyleKnob.all.map maxLineSize).sum := by
    obtain ⟨knobs, hperm, hsub⟩ := List.subperm_of_subset h fun k _ => StyleKnob.mem_all k
    rw [← (hperm.map maxLineSize).sum_eq]
    exact (hsub.map maxLineSize).sum_le_sum fun _ _ => Nat.zero_le _
  have hall : (StyleKnob.all.map maxLineSize).sum = 276 := by decide
  rw [utf8ByteSize_fullText]
  unfold maxRenderBytes
  omega

/-- No line is dropped. -/
theorem renderSignals_eq {signals : List StyleSignal} (h : (signals.map StyleSignal.knob).Nodup) :
    renderSignals signals = if signals = [] then "" else fullText signals := by
  unfold renderSignals
  cases signals with
  | nil => rfl
  | cons s rest =>
    rw [if_neg (List.cons_ne_nil s rest), List.length_cons, renderKept, ← List.length_cons,
      List.take_length]
    exact if_pos (fullText_fits h)

/-! ### What an operation can do -/

theorem count_eq {l : AddendaLedger} {l' : AddendaLedger} {s : StyleSignal}
    (h : l'.observations.filter (fun o => o.signal.knob = s.knob) =
      l.observations.filter fun o => o.signal.knob = s.knob) : l'.count s = l.count s := by
  have hsame : ∀ observations : List Observation, observations.countP (fun o => o.signal = s) =
      (observations.filter fun o => o.signal.knob = s.knob).countP fun o => o.signal = s :=
    fun observations => by
      rw [List.countP_filter]
      refine List.countP_congr fun o _ => ?_
      simp only [decide_eq_true_eq, Bool.and_eq_true]
      exact ⟨fun h => ⟨h, by rw [h]⟩, fun h => h.1⟩
  unfold AddendaLedger.count
  rw [hsame, h, ← hsame]

theorem members_eq {l : AddendaLedger} {l' : AddendaLedger} {s : StyleSignal}
    (h : l'.observations.filter (fun o => o.signal.knob = s.knob) =
      l.observations.filter fun o => o.signal.knob = s.knob) : l'.members s = l.members s := by
  have hsame : ∀ observations : List Observation, observations.filter (fun o => o.signal = s) =
      (observations.filter fun o => o.signal.knob = s.knob).filter fun o => o.signal = s :=
    fun observations => by
      rw [List.filter_filter]
      refine List.filter_congr fun o _ => ?_
      by_cases ho : o.signal = s
      · simp [ho]
      · simp [ho]
  unfold AddendaLedger.members
  rw [hsame, h, ← hsame]

theorem opposite_knob {s s' : StyleSignal} (h : s.opposite = some s') : s'.knob = s.knob := by
  cases s <;> cases h <;> rfl

/-- The evidence for a signal is what is observed of its knob. -/
theorem supported_congr {l l' : AddendaLedger} {s : StyleSignal} {policy : Policy}
    (h : l'.observations.filter (fun o => o.signal.knob = s.knob) =
      l.observations.filter fun o => o.signal.knob = s.knob) :
    l'.Supported s policy ↔ l.Supported s policy := by
  have hopposite : (s.opposite.map l'.count).getD 0 = (s.opposite.map l.count).getD 0 := by
    cases hs : s.opposite with
    | none => rfl
    | some s' =>
      rw [Option.map_some, Option.map_some, Option.getD_some, Option.getD_some]
      refine count_eq ?_
      rw [opposite_knob hs]
      exact h
  unfold AddendaLedger.Supported
  rw [count_eq h, members_eq h, hopposite]

/-- Between `l` and `l'` the signals were applied, in turn, each on the evidence in `l`. -/
structure Applies (policy : Policy) (now : ℕ) (l : AddendaLedger) (applied : List StyleSignal)
    (l' : AddendaLedger) : Prop where
  observations : l'.observations =
    l.observations.filter fun o => o.signal.knob ∉ applied.map StyleSignal.knob
  suppressed : l'.suppressed = l.suppressed
  active : ∀ s ∈ applied, ∃ a ∈ l'.active, a.signal = s
  inOrder : InOrder l.active → InOrder l'.active
  supported : ∀ s ∈ applied, l.Supported s policy ∧ ¬ l.IsSuppressed s.knob now

theorem applies_refl (policy : Policy) (now : ℕ) (l : AddendaLedger) : Applies policy now l [] l where
  observations := by simp
  suppressed := rfl
  active s hs := absurd hs List.not_mem_nil
  inOrder h := h
  supported s hs := absurd hs List.not_mem_nil

theorem applies_withAddendum {policy : Policy} {now : ℕ} {l l' : AddendaLedger}
    {applied : List StyleSignal} (h : Applies policy now l applied l') {s : StyleSignal}
    (hblocked : ¬ l'.Blocked s policy now) :
    Applies policy now l (applied ++ [s])
      (l'.withAddendum s (saturatingAdd now policy.ttlSecs)) := by
  unfold AddendaLedger.Blocked at hblocked
  simp only [not_or, not_exists, not_and, not_not] at hblocked
  obtain ⟨-, hnew, hsuppressed, hsupported⟩ := hblocked
  have hknob : s.knob ∉ applied.map StyleSignal.knob := fun hmem => by
    obtain ⟨s', hs', heq⟩ := List.mem_map.mp hmem
    obtain ⟨a, ha, rfl⟩ := h.active s' hs'
    exact hnew a ha heq
  refine ⟨?_, h.suppressed, fun s' hs' => ?_, fun horder => ?_, fun s' hs' => ?_⟩
  · unfold AddendaLedger.withAddendum
    dsimp only
    rw [h.observations, List.filter_filter]
    refine List.filter_congr fun o _ => ?_
    simp only [List.map_append, List.map_cons, List.map_nil, List.mem_append, List.mem_singleton,
      not_or, ne_eq, Bool.decide_and, Bool.and_comm]
  · have hmem : ∀ a, a ∈ (l'.withAddendum s (saturatingAdd now policy.ttlSecs)).active ↔
        a ∈ l'.active ∨ a = ⟨s, saturatingAdd now policy.ttlSecs⟩ := fun a => by
      unfold AddendaLedger.withAddendum
      dsimp only
      rw [mem_sortByKey, List.mem_append, List.mem_singleton]
    rcases List.mem_append.mp hs' with hs' | hs'
    · obtain ⟨a, ha, hsignal⟩ := h.active s' hs'
      exact ⟨a, (hmem a).mpr (.inl ha), hsignal⟩
    · exact ⟨_, (hmem _).mpr (.inr rfl), (List.mem_singleton.mp hs').symm⟩
  · exact inOrder_withAddendum (h.inOrder horder) hnew _
  · rcases List.mem_append.mp hs' with hs' | hs'
    · exact h.supported s' hs'
    · rw [List.mem_singleton.mp hs']
      refine ⟨(supported_congr ?_).mp hsupported, ?_⟩
      · rw [h.observations, List.filter_filter]
        refine List.filter_congr fun o _ => ?_
        by_cases ho : o.signal.knob = s.knob
        · simp [ho, hknob]
        · simp [ho]
      · unfold AddendaLedger.IsSuppressed at hsuppressed ⊢
        rwa [h.suppressed] at hsuppressed

/-- One candidate. -/
theorem consider_applies {policy : Policy} {now : ℕ} {l : AddendaLedger}
    {r : AddendaLedger × List AddendumChange} {applied : List StyleSignal}
    {changes : List AddendumChange} (h : Applies policy now l applied r.1)
    (hr : r.2 = changes ++ applied.map AddendumChange.applied) (s : StyleSignal) :
    ∃ applied', Applies policy now l applied' (AddendaLedger.consider policy now r s).1 ∧
      (AddendaLedger.consider policy now r s).2 = changes ++ applied'.map AddendumChange.applied := by
  unfold AddendaLedger.consider
  split_ifs with hblocked hbytes
  · exact ⟨applied, h, hr⟩
  · exact ⟨applied, h, hr⟩
  · refine ⟨applied ++ [s], applies_withAddendum h hblocked, ?_⟩
    rw [hr, List.map_append, List.append_assoc]
    rfl

/-- A tick prunes the tables and applies signals on what is left. -/
theorem tick_applies (policy : Policy) (now : ℕ) (l : AddendaLedger) :
    ∃ applied, Applies policy now (l.pruned policy now) applied (l.tick policy now).2 ∧
      (Out.ticked (l.tick policy now).1).applies = applied := by
  have hfold : ∀ (candidates : List StyleSignal) (r : AddendaLedger × List AddendumChange)
      (applied : List StyleSignal) (changes : List AddendumChange),
      Applies policy now (l.pruned policy now) applied r.1 →
      r.2 = changes ++ applied.map AddendumChange.applied →
      ∃ applied', Applies policy now (l.pruned policy now) applied'
          (candidates.foldl (AddendaLedger.consider policy now) r).1 ∧
        (candidates.foldl (AddendaLedger.consider policy now) r).2 =
          changes ++ applied'.map AddendumChange.applied := by
    intro candidates
    induction candidates with
    | nil => exact fun r applied changes h hr => ⟨applied, h, hr⟩
    | cons s candidates ih =>
      intro r applied changes h hr
      obtain ⟨applied', h', hr'⟩ := consider_applies h hr s
      exact ih _ applied' changes h' hr'
  obtain ⟨applied, h, hr⟩ := hfold (l.pruned policy now).candidates
    (l.pruned policy now, (l.active.filter fun a => ¬ now < a.expiresAt).map fun a =>
      .expired a.signal) [] _ (applies_refl policy now _) (List.append_nil _).symm
  refine ⟨applied, h, ?_⟩
  unfold AddendaLedger.tick Out.applies
  dsimp only
  rw [hr, List.filterMap_append, List.filterMap_map, List.filterMap_map]
  have hexpired : ∀ active : List Addendum,
      active.filterMap (fun a => (none : Option StyleSignal)) = [] := fun active => by simp
  have happlied : ∀ applied : List StyleSignal, applied.filterMap (fun s => some s) = applied :=
    fun applied => by simp
  exact (congrArg₂ (· ++ ·) (hexpired _) (happlied applied)).trans (List.nil_append _)

/-! ### The caps -/

/-- How many observations a member has of a signal. -/
def rowsOf (observations : List Observation) (member : UInt64) (signal : StyleSignal) : ℕ :=
  observations.countP fun o => o.member = member ∧ o.signal = signal

theorem rowsOf_sublist {observations observations' : List Observation}
    (h : observations.Sublist observations') (member : UInt64) (signal : StyleSignal) :
    rowsOf observations member signal ≤ rowsOf observations' member signal := h.countP_le

theorem length_own (observations : List Observation) (member : UInt64) (signal : StyleSignal) :
    (observations.zipIdx.filter fun o => o.1.member = member ∧ o.1.signal = signal).length =
      rowsOf observations member signal := by
  unfold rowsOf
  rw [← List.countP_eq_length_filter]
  have hmap : observations.countP (fun o => o.member = member ∧ o.signal = signal) =
      ((observations.zipIdx).map Prod.fst).countP fun o => o.member = member ∧ o.signal = signal := by
    rw [List.zipIdx_map_fst]
  rw [hmap, List.countP_map]
  rfl

/-- Room is made for one more row of a member and signal; nothing else goes out. -/
theorem makeRoom_rows {observations : List Observation} {member : UInt64} {signal : StyleSignal}
    (h : rowsOf observations member signal ≤ maxPerMemberSignal) :
    (AddendaLedger.makeRoom observations member signal).Sublist observations ∧
      rowsOf (AddendaLedger.makeRoom observations member signal) member signal + 1 ≤
        maxPerMemberSignal := by
  unfold AddendaLedger.makeRoom
  dsimp only
  rw [length_own]
  split_ifs with hfull
  · split
    · rename_i o index rest hsorted
      have hmem : (o, index) ∈ observations.zipIdx.filter fun o =>
          o.1.member = member ∧ o.1.signal = signal := by
        have hhead : (o, index) ∈ (o, index) :: rest := List.mem_cons_self
        rw [← hsorted, mem_sortByKey] at hhead
        exact hhead
      obtain ⟨hzip, hown⟩ := List.mem_filter.mp hmem
      obtain ⟨hlt, hget⟩ := List.getElem?_eq_some_iff.mp (List.mk_mem_zipIdx_iff_getElem?.mp hzip)
      refine ⟨List.eraseIdx_sublist _ _, ?_⟩
      have hperm := (List.getElem_cons_eraseIdx_perm hlt).countP_eq
        fun o : Observation => decide (o.member = member ∧ o.signal = signal)
      rw [List.countP_cons, hget, if_pos hown] at hperm
      unfold rowsOf at h ⊢
      omega
    · rename_i hnil
      have hlength := congrArg List.length hnil
      rw [(sortByKey_perm _ _).length_eq, length_own] at hlength
      unfold maxPerMemberSignal at hfull
      rw [List.length_nil] at hlength
      omega
  · exact ⟨List.Sublist.refl _, not_le.mp hfull⟩

/-- The bounds of the tables. -/
structure Bounded (l : AddendaLedger) : Prop where
  inOrder : InOrder l.active
  observations : l.observations.length ≤ maxObservations
  rows : ∀ (member : UInt64) (signal : StyleSignal),
    rowsOf l.observations member signal ≤ maxPerMemberSignal
  suppressed : (l.suppressed.map Suppression.knob).Nodup

theorem bounded_empty : Bounded .empty := by
  refine ⟨List.Pairwise.nil, Nat.zero_le _, fun _ _ => Nat.zero_le _, List.nodup_nil⟩

theorem observe_bounded {l : AddendaLedger} (h : Bounded l) (key : String) (signal : StyleSignal)
    (now : ℕ) : Bounded (l.observe key signal now) := by
  unfold AddendaLedger.observe
  split_ifs with hsuppressed
  · exact h
  · obtain ⟨hsub, hroom⟩ := makeRoom_rows (h.rows (memberHash key) signal)
    refine ⟨h.inOrder, ?_, fun member signal' => ?_, h.suppressed⟩
    · dsimp only
      rw [List.length_drop]
      omega
    · refine (rowsOf_sublist (List.drop_sublist _ _) member signal').trans ?_
      have hrows := rowsOf_sublist hsub member signal'
      have hbound := h.rows member signal'
      have happend : rowsOf (AddendaLedger.makeRoom l.observations (memberHash key) signal ++
          [(⟨memberHash key, signal, now⟩ : Observation)]) member signal' =
          rowsOf (AddendaLedger.makeRoom l.observations (memberHash key) signal) member signal' +
            if memberHash key = member ∧ signal = signal' then 1 else 0 := by
        unfold rowsOf
        rw [List.countP_append, List.countP_singleton]
        simp only [decide_eq_true_eq]
      rw [happend]
      split_ifs with hown
      · obtain ⟨rfl, rfl⟩ := hown
        exact hroom
      · omega

theorem tick_bounded {l : AddendaLedger} (h : Bounded l) (policy : Policy) (now : ℕ) :
    Bounded (l.tick policy now).2 := by
  obtain ⟨applied, happlies, -⟩ := tick_applies policy now l
  have hobservations : (l.tick policy now).2.observations.Sublist l.observations := by
    rw [happlies.observations]
    exact List.filter_sublist.trans List.filter_sublist
  refine ⟨happlies.inOrder (h.inOrder.filter _), hobservations.length_le.trans h.observations,
    fun member signal => (rowsOf_sublist hobservations member signal).trans (h.rows member signal), ?_⟩
  rw [happlies.suppressed]
  exact h.suppressed.sublist (List.filter_sublist.map _)

theorem map_knob_withSuppression (knob : StyleKnob) (until_ : ℕ) (suppressed : List Suppression) :
    (AddendaLedger.withSuppression knob until_ suppressed).map Suppression.knob =
      if knob ∈ suppressed.map Suppression.knob then suppressed.map Suppression.knob
      else suppressed.map Suppression.knob ++ [knob] := by
  induction suppressed with
  | nil => rfl
  | cons p rest ih =>
    unfold AddendaLedger.withSuppression
    by_cases hp : p.knob = knob
    · rw [if_pos hp, List.map_cons, List.map_cons, if_pos (by rw [hp]; exact List.mem_cons_self)]
    · rw [if_neg hp, List.map_cons, List.map_cons, ih]
      simp only [List.mem_cons, Ne.symm hp, false_or]
      split_ifs <;> rfl

theorem revert_bounded {l : AddendaLedger} (h : Bounded l) (knob : StyleKnob) (policy : Policy)
    (now : ℕ) : Bounded (l.revert knob policy now).2 := by
  refine ⟨h.inOrder.filter _, (List.length_filter_le _ _).trans h.observations, fun member signal =>
    (rowsOf_sublist List.filter_sublist member signal).trans (h.rows member signal), ?_⟩
  unfold AddendaLedger.revert
  dsimp only
  rw [((sortByKey_perm _ _).map Suppression.knob).nodup_iff, map_knob_withSuppression]
  split_ifs with hmem
  · exact h.suppressed
  · rw [List.nodup_append]
    refine ⟨h.suppressed, List.nodup_singleton _, fun k hk k' hk' heq => ?_⟩
    rw [List.mem_singleton.mp hk'] at heq
    exact hmem (heq ▸ hk)

/-- What every revert keeps, the reverts of all knobs keep. -/
theorem clear_keeps {P : AddendaLedger → Prop} {policy : Policy} {now : ℕ}
    (hrevert : ∀ l knob, P l → P (l.revert knob policy now).2) {l : AddendaLedger} (h : P l) :
    P (l.clear policy now).2 := by
  have hfold : ∀ (knobs : List StyleKnob) (r : ℕ × AddendaLedger), P r.2 →
      P (knobs.foldl (fun r knob => ((if (r.2.revert knob policy now).1 then r.1 + 1 else r.1),
        (r.2.revert knob policy now).2)) r).2 := by
    intro knobs
    induction knobs with
    | nil => exact fun r hr => hr
    | cons knob knobs ih => exact fun r hr => ih _ (hrevert r.2 knob hr)
  exact hfold StyleKnob.all (0, l) h

theorem eraseMember_bounded {l : AddendaLedger} (h : Bounded l) (key : String) :
    Bounded (l.eraseMember key).2 :=
  ⟨h.inOrder, (List.length_filter_le _ _).trans h.observations, fun member signal =>
    (rowsOf_sublist List.filter_sublist member signal).trans (h.rows member signal), h.suppressed⟩

theorem step_bounded {policy : Policy} {l : AddendaLedger} (h : Bounded l) (op : Op) :
    Bounded (step policy l op).2 := by
  cases op with
  | observe key signal now => exact observe_bounded h key signal now
  | tick now => exact tick_bounded h policy now
  | revert knob now => exact revert_bounded h knob policy now
  | clear now => exact clear_keeps (P := Bounded) (fun l knob h => revert_bounded h knob policy now) h
  | eraseMember key => exact eraseMember_bounded h key

end AbbeyBot.Brain.Addenda
