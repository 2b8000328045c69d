import Mathlib
import AbbeyBot.Library.History
import AbbeyBot.Library.Word

/-! # The circuit of a provider

Requests to a provider go through a circuit: closed, it lets them pass; open, it lets none pass until
a time; half open, it lets one probe pass; blocked, it stays shut. An attempt holds a permit, which is
an id that is taken from the outstanding ones at its completion, whenever that comes. All times are
milliseconds that the caller gives. -/

namespace AbbeyBot.Provider

open AbbeyBot.Library.History AbbeyBot.Library.Word

/-! ### Outcomes -/

inductive ProviderFailureKind where
  | success
  | transportUnavailable
  | timeout
  | http5xx
  | rateLimited
  | authentication
  | authorization
  | configuration
  | executableIdentity
  | modelIdentity
  | sandboxIdentity
  | toolSchema
  | responseSchema
  | protocolDrift
  | cancelled
  | invalidRequest
  | busy
  deriving DecidableEq, Repr

namespace ProviderFailureKind

def isTransient : ProviderFailureKind → Bool
  | .transportUnavailable | .timeout | .http5xx | .rateLimited => true
  | _ => false

def isBlocked : ProviderFailureKind → Bool
  | .authentication | .authorization | .configuration | .executableIdentity | .modelIdentity
  | .sandboxIdentity | .toolSchema | .responseSchema | .protocolDrift => true
  | _ => false

def isNeutral : ProviderFailureKind → Bool
  | .cancelled | .invalidRequest | .busy => true
  | _ => false

end ProviderFailureKind

/-- What the provider says about when to come back; a duration is in nanoseconds. -/
inductive RetryAfter where
  | absent
  | valid (nanos : ℕ)
  | invalid
  deriving DecidableEq, Repr

namespace RetryAfter

/-- From one second to fifteen minutes. -/
def fromDuration (nanos : ℕ) : RetryAfter :=
  if 1000000000 ≤ nanos ∧ nanos ≤ 900000000000 then .valid nanos else .invalid

def classify (retry : RetryAfter) (kind : ProviderFailureKind) : ProviderFailureKind :=
  match retry with
  | .absent => kind
  | .valid nanos =>
    if (kind = .http5xx ∨ kind = .rateLimited) ∧ fromDuration nanos ≠ .invalid then kind
    else .protocolDrift
  | .invalid => .protocolDrift

/-- The milliseconds, rounded up. -/
def millis : RetryAfter → Option ℕ
  | .valid nanos =>
    let millis := (nanos + 999999) / 1000000
    if millis ≤ u64Max then some millis else none
  | _ => none

/-- A hint that does not block is at most fifteen minutes. -/
theorem millis_le {retry : RetryAfter} {kind : ProviderFailureKind}
    (h : (retry.classify kind).isBlocked = false) : retry.millis.getD 0 ≤ 900000 := by
  cases retry with
  | absent => exact Nat.zero_le _
  | invalid => cases h
  | valid nanos =>
    by_cases hrange : 1000000000 ≤ nanos ∧ nanos ≤ 900000000000
    · unfold millis
      dsimp only
      split_ifs
      · rw [Option.getD_some]
        omega
      · exact Nat.zero_le _
    · rw [classify, fromDuration, if_neg hrange, if_neg fun hkind => hkind.2 rfl] at h
      cases h

/-- Only a success without a hint counts as a success. -/
theorem classify_eq_success {retry : RetryAfter} {kind : ProviderFailureKind}
    (h : retry.classify kind = .success) : kind = .success ∧ retry = .absent := by
  cases retry with
  | absent => exact ⟨h, rfl⟩
  | invalid => cases h
  | valid nanos =>
    unfold classify at h
    dsimp only at h
    split_ifs at h with hkind
    rcases hkind.1 with rfl | rfl <;> cases h

end RetryAfter

/-! ### The circuit -/

inductive CircuitPhase where
  | closed
  | opened
  | halfOpen
  | blocked
  deriving DecidableEq, Repr

structure CircuitSnapshot where
  phase : CircuitPhase
  reason : Option ProviderFailureKind
  openingLevel : ℕ
  openUntilMs : Option ℕ
  probeReserved : Bool
  deriving DecidableEq, Repr

inductive CircuitUnavailable where
  | opened
  | blocked
  | busy
  deriving DecidableEq, Repr

structure Circuit where
  snapshot : CircuitSnapshot
  recent : List ℕ
  outstanding : Finset ℕ
  probe : Option ℕ
  nextPermit : ℕ
  deriving DecidableEq

namespace Circuit

def new : Circuit := ⟨⟨.closed, none, 0, none, false⟩, [], ∅, none, 0⟩

/-- `open`: no request passes for the delay. -/
def openFor (c : Circuit) (now delay level : ℕ) (reason : ProviderFailureKind) : Circuit :=
  { c with
    recent := []
    probe := none
    snapshot := ⟨.opened, some reason, level, some (saturatingAdd now delay), false⟩ }

def block (c : Circuit) (reason : ProviderFailureKind) : Circuit :=
  { c with
    recent := []
    probe := none
    outstanding := ∅
    snapshot := { c.snapshot with
      phase := .blocked, reason := some reason, openUntilMs := none, probeReserved := false } }

def restoreBlocked (reason : ProviderFailureKind) : Option Circuit :=
  if reason.isBlocked then some (new.block reason) else none

def availability (c : Circuit) (now : ℕ) : Except CircuitUnavailable Unit :=
  if c.snapshot.phase = .blocked then .error .blocked
  else if c.snapshot.phase = .opened ∧ now < c.snapshot.openUntilMs.getD u64Max then .error .opened
  else if c.snapshot.phase = .halfOpen ∧ c.probe.isSome = true then .error .busy
  else if c.nextPermit = u64Max then .error .busy
  else .ok ()

/-- An open circuit whose time is over is half open. -/
def halfOpen (c : Circuit) : Circuit :=
  if c.snapshot.phase = .opened then
    { c with snapshot := { c.snapshot with phase := .halfOpen, openUntilMs := none } }
  else c

/-- The permit is the probe of a half open circuit. -/
def markProbe (c : Circuit) (permit : ℕ) : Circuit :=
  if c.snapshot.phase = .halfOpen then
    { c with probe := some permit, snapshot := { c.snapshot with probeReserved := true } }
  else c

def reserve (c : Circuit) (now : ℕ) : Except CircuitUnavailable ℕ × Circuit :=
  match c.availability now with
  | .error e => (.error e, c)
  | .ok () =>
    let permit := c.nextPermit + 1
    let c := ({ c with nextPermit := permit } : Circuit).halfOpen.markProbe permit
    (.ok permit, { c with outstanding := insert permit c.outstanding })

/-- An outcome while the circuit is closed. -/
def failClosed (c : Circuit) (kind : ProviderFailureKind) (retry : RetryAfter) (now : ℕ) : Circuit :=
  let c := { c with recent := c.recent.filter fun time => now - time ≤ 300000 }
  if kind.isTransient then
    let c := { c with recent := c.recent ++ [now] }
    let normal := if 3 ≤ c.recent.length then 60000 else 0
    if normal ≠ 0 ∨ retry.millis.isSome = true then
      c.openFor now (max normal (retry.millis.getD 0)) 0 kind
    else c
  else c

/-- An outcome while the circuit is open: a hint puts the end off. -/
def failOpened (c : Circuit) (kind : ProviderFailureKind) (retry : RetryAfter) (now : ℕ) : Circuit :=
  match kind.isTransient, retry.millis with
  | true, some delay => { c with snapshot := { c.snapshot with
      openUntilMs := some (max (c.snapshot.openUntilMs.getD 0) (saturatingAdd now delay)) } }
  | _, _ => c

/-- The outcome of the probe. -/
def settleProbe (c : Circuit) (kind : ProviderFailureKind) (retry : RetryAfter) (now : ℕ) : Circuit :=
  if kind = .success then { c with snapshot := new.snapshot, recent := [] }
  else if kind.isTransient then
    let normal := if c.snapshot.openingLevel = 0 then 300000 else 900000
    c.openFor now (min (max normal (retry.millis.getD 0)) 900000)
      (min (c.snapshot.openingLevel + 1) 2) kind
  else c

/-- The end of `complete`: an outcome that says something about the provider. An older completion
neither uses nor closes the probe of another caller. -/
def settle (c : Circuit) (ownsProbe : Bool) (kind : ProviderFailureKind) (retry : RetryAfter)
    (now : ℕ) : Circuit :=
  match c.snapshot.phase with
  | .closed => c.failClosed kind retry now
  | .opened => c.failOpened kind retry now
  | .halfOpen => if ownsProbe then c.settleProbe kind retry now else c
  | .blocked => c

/-- The probe is done. -/
def clearProbe (c : Circuit) (ownsProbe : Bool) : Circuit :=
  if ownsProbe then { c with probe := none, snapshot := { c.snapshot with probeReserved := false } }
  else c

def complete (c : Circuit) (permit : ℕ) (kind : ProviderFailureKind) (retry : RetryAfter) (now : ℕ) :
    Option ProviderFailureKind × Circuit :=
  let known := permit ∈ c.outstanding
  let c := { c with outstanding := c.outstanding.erase permit }
  if ¬ known ∨ c.snapshot.phase = .blocked then (none, c)
  else
    let kind := retry.classify kind
    if kind.isBlocked then (some kind, c.block kind)
    else
      let ownsProbe := c.probe = some permit
      let c := c.clearProbe ownsProbe
      if kind.isNeutral then (some kind, c) else (some kind, c.settle ownsProbe kind retry now)

/-! ### Runs -/

/-- Any permit may be completed: one that is out, a stale one or one that was never given. -/
inductive Op where
  | reserve (now : ℕ)
  | complete (permit : ℕ) (kind : ProviderFailureKind) (retry : RetryAfter) (now : ℕ)
  deriving DecidableEq, Repr

inductive Output where
  | reserved (permit : Except CircuitUnavailable ℕ)
  | completed (kind : Option ProviderFailureKind)

/-- The time of the call. -/
def Op.now : Op → ℕ
  | .reserve now => now
  | .complete _ _ _ now => now

/-- **The step function** of the circuit. -/
def step (c : Circuit) : Op → Output × Circuit
  | .reserve now => ((c.reserve now).1 |> .reserved, (c.reserve now).2)
  | .complete permit kind retry now =>
    ((c.complete permit kind retry now).1 |> .completed, (c.complete permit kind retry now).2)

abbrev Trace := List (Event Circuit Op Output)

/-- A circuit at its start: a new one, or one that was blocked before. -/
inductive Start : Circuit → Prop
  | new : Start new
  | blocked {reason : ProviderFailureKind} {c : Circuit} (h : restoreBlocked reason = some c) : Start c

/-- The permit that was given. -/
def reservedId (e : Event Circuit Op Output) : Option ℕ :=
  match e.out with
  | .reserved (.ok permit) => some permit
  | _ => none

/-- The permit whose completion was accepted. -/
def acceptedId (e : Event Circuit Op Output) : Option ℕ :=
  match e.op, e.out with
  | .complete permit _ _ _, .completed (some _) => some permit
  | _, _ => none

/-! ### What a step can do -/

theorem halfOpen_eq (c : Circuit) :
    (c.halfOpen.snapshot.phase = if c.snapshot.phase = .opened then .halfOpen
      else c.snapshot.phase) ∧ c.halfOpen.probe = c.probe ∧
    c.halfOpen.outstanding = c.outstanding ∧ c.halfOpen.nextPermit = c.nextPermit ∧
    c.halfOpen.snapshot.openingLevel = c.snapshot.openingLevel := by
  unfold halfOpen
  split_ifs <;> exact ⟨rfl, rfl, rfl, rfl, rfl⟩

theorem markProbe_eq (c : Circuit) (permit : ℕ) :
    (c.markProbe permit).snapshot.phase = c.snapshot.phase ∧
    ((c.markProbe permit).probe = if c.snapshot.phase = .halfOpen then some permit else c.probe) ∧
    (c.markProbe permit).outstanding = c.outstanding ∧
    (c.markProbe permit).nextPermit = c.nextPermit ∧
    (c.markProbe permit).snapshot.openingLevel = c.snapshot.openingLevel := by
  unfold markProbe
  split_ifs <;> exact ⟨rfl, rfl, rfl, rfl, rfl⟩

/-- A reservation gives the next id, and makes it the probe of a circuit that is not closed. -/
theorem reserve_cases (c : Circuit) (now : ℕ) :
    (∃ e, c.reserve now = (.error e, c)) ∨
    (∃ c', c.reserve now = (.ok (c.nextPermit + 1), c') ∧ c'.nextPermit = c.nextPermit + 1 ∧
      c'.outstanding = insert (c.nextPermit + 1) c.outstanding ∧
      c'.snapshot.openingLevel = c.snapshot.openingLevel ∧
      ((c.snapshot.phase = .closed ∧ c'.snapshot.phase = .closed ∧ c'.probe = c.probe) ∨
       (c'.snapshot.phase = .halfOpen ∧ c'.probe = some (c.nextPermit + 1) ∧
        (c.snapshot.phase = .halfOpen → c.probe = none) ∧
        (c.snapshot.phase = .opened ∨ c.snapshot.phase = .halfOpen)))) := by
  unfold reserve
  cases hav : c.availability now with
  | error e => exact .inl ⟨e, rfl⟩
  | ok u =>
    refine .inr ⟨_, rfl, ?_⟩
    have hhalf := halfOpen_eq { c with nextPermit := c.nextPermit + 1 }
    have hmark := markProbe_eq ({ c with nextPermit := c.nextPermit + 1 } : Circuit).halfOpen
      (c.nextPermit + 1)
    obtain ⟨hphase, hprobe, hout, hnext, hlevel⟩ := hmark
    rw [hhalf.1] at hphase
    rw [hhalf.1, hhalf.2.1] at hprobe
    rw [hhalf.2.2.1] at hout
    rw [hhalf.2.2.2.1] at hnext
    rw [hhalf.2.2.2.2] at hlevel
    refine ⟨hnext, congrArg (insert _) hout, hlevel, ?_⟩
    unfold availability at hav
    split_ifs at hav with hblocked hopened hbusy hlast
    cases hold : c.snapshot.phase with
    | blocked => exact absurd hold hblocked
    | closed =>
      rw [hold] at hphase hprobe
      exact .inl ⟨rfl, hphase, hprobe⟩
    | opened =>
      rw [hold] at hphase hprobe
      exact .inr ⟨hphase, hprobe, nofun, .inl rfl⟩
    | halfOpen =>
      rw [hold] at hphase hprobe
      refine .inr ⟨hphase, hprobe, fun _ => ?_, .inr rfl⟩
      exact Option.not_isSome_iff_eq_none.mp fun h => hbusy ⟨hold, h⟩

/-- What an accepted completion does to the rest of the circuit. -/
inductive Settled (c : Circuit) (permit : ℕ) (kind : ProviderFailureKind) (retry : RetryAfter)
    (now : ℕ) (c' : Circuit) : Prop
  | blocked (hphase : c'.snapshot.phase = .blocked) (hprobe : c'.probe = none)
      (hout : c'.outstanding = ∅) (hlevel : c'.snapshot.openingLevel = c.snapshot.openingLevel)
  | kept (hphase : c'.snapshot.phase = c.snapshot.phase)
      (hprobe : c'.probe = if c.probe = some permit then none else c.probe)
      (hout : c'.outstanding = c.outstanding.erase permit)
      (hlevel : c'.snapshot.openingLevel = c.snapshot.openingLevel)
  | opened (hphase : c'.snapshot.phase = .opened) (hprobe : c'.probe = none)
      (hout : c'.outstanding = c.outstanding.erase permit)
      (hlevel : c'.snapshot.openingLevel ≤ 2)
      (hfrom : c.snapshot.phase = .closed ∨ c.snapshot.phase = .halfOpen ∧ c.probe = some permit)
      (huntil : ∃ limit, c'.snapshot.openUntilMs = some limit ∧ limit ≤ now + 900000)
  | closed (hphase : c'.snapshot.phase = .closed) (hprobe : c'.probe = none)
      (hout : c'.outstanding = c.outstanding.erase permit)
      (hlevel : c'.snapshot.openingLevel = 0)
      (hfrom : c.snapshot.phase = .halfOpen) (howns : c.probe = some permit)
      (hkind : kind = .success) (hretry : retry = .absent)

theorem saturatingAdd_le (a b : ℕ) : saturatingAdd a b ≤ a + b := Nat.min_le_left _ _

/-- The delay of an opening is at most fifteen minutes. -/
theorem settled_open {c c₁ : Circuit} {permit now delay level : ℕ} {kind raw : ProviderFailureKind}
    {retry : RetryAfter} (hdelay : delay ≤ 900000) (hlevel : level ≤ 2)
    (hout : c₁.outstanding = c.outstanding.erase permit)
    (hfrom : c.snapshot.phase = .closed ∨ c.snapshot.phase = .halfOpen ∧ c.probe = some permit) :
    Settled c permit raw retry now (c₁.openFor now delay level kind) := by
  refine .opened rfl rfl hout hlevel hfrom ⟨_, rfl, ?_⟩
  exact le_trans (saturatingAdd_le now delay) (Nat.add_le_add_left hdelay now)

/-- The circuit with the permit taken back. -/
structure Released (c : Circuit) (permit : ℕ) (c₁ : Circuit) : Prop where
  phase : c₁.snapshot.phase = c.snapshot.phase
  probe : c₁.probe = if c.probe = some permit then none else c.probe
  outstanding : c₁.outstanding = c.outstanding.erase permit
  level : c₁.snapshot.openingLevel = c.snapshot.openingLevel

theorem Released.settled {c c₁ : Circuit} {permit now : ℕ} {kind : ProviderFailureKind}
    {retry : RetryAfter} (h : Released c permit c₁) : Settled c permit kind retry now c₁ :=
  .kept h.phase h.probe h.outstanding h.level

theorem released_clearProbe (c : Circuit) (permit : ℕ) :
    Released c permit (({ c with outstanding := c.outstanding.erase permit } : Circuit).clearProbe
      (c.probe = some permit)) := by
  unfold clearProbe
  by_cases howns : c.probe = some permit
  · rw [if_pos (decide_eq_true howns)]
    exact ⟨rfl, (if_pos howns).symm, rfl, rfl⟩
  · rw [if_neg (by simpa using howns)]
    exact ⟨rfl, (if_neg howns).symm, rfl, rfl⟩

theorem settled_failClosed {c c₁ : Circuit} {permit now : ℕ} {raw : ProviderFailureKind}
    {retry : RetryAfter} (h : Released c permit c₁) (hphase : c.snapshot.phase = .closed)
    (hretry : retry.millis.getD 0 ≤ 900000) :
    Settled c permit raw retry now (c₁.failClosed (retry.classify raw) retry now) := by
  unfold failClosed
  extract_lets c₂ c₃ normal
  have hnormal : normal ≤ 900000 := by
    show (if 3 ≤ c₃.recent.length then 60000 else 0) ≤ 900000
    split_ifs <;> omega
  split_ifs
  · exact settled_open (max_le hnormal hretry) (Nat.zero_le _) h.outstanding (.inl hphase)
  · exact .kept h.phase h.probe h.outstanding h.level
  · exact .kept h.phase h.probe h.outstanding h.level

theorem settled_failOpened {c c₁ : Circuit} {permit now : ℕ} {raw kind : ProviderFailureKind}
    {retry : RetryAfter} (h : Released c permit c₁) :
    Settled c permit raw retry now (c₁.failOpened kind retry now) := by
  unfold failOpened
  split
  · exact .kept h.phase h.probe h.outstanding h.level
  · exact h.settled

theorem settled_settleProbe {c c₁ : Circuit} {permit now : ℕ} {raw : ProviderFailureKind}
    {retry : RetryAfter} (h : Released c permit c₁) (hphase : c.snapshot.phase = .halfOpen)
    (howns : c.probe = some permit) :
    Settled c permit raw retry now (c₁.settleProbe (retry.classify raw) retry now) := by
  unfold settleProbe
  by_cases hsuccess : retry.classify raw = .success
  · rw [if_pos hsuccess]
    obtain ⟨hkind, hretry⟩ := RetryAfter.classify_eq_success hsuccess
    have hprobe : c₁.probe = none := by rw [h.probe, if_pos howns]
    exact .closed rfl hprobe h.outstanding rfl hphase howns hkind hretry
  · rw [if_neg hsuccess]
    by_cases htransient : (retry.classify raw).isTransient = true
    · rw [if_pos htransient]
      exact settled_open (Nat.min_le_right _ _) (Nat.min_le_right _ _) h.outstanding
        (.inr ⟨hphase, howns⟩)
    · rw [if_neg htransient]
      exact h.settled

theorem nextPermit_settle (c : Circuit) (owns : Bool) (kind : ProviderFailureKind)
    (retry : RetryAfter) (now : ℕ) : (c.settle owns kind retry now).nextPermit = c.nextPermit := by
  unfold settle failClosed failOpened settleProbe openFor
  dsimp only
  split
  · split_ifs <;> rfl
  · split <;> rfl
  · split_ifs <;> rfl
  · rfl

/-- A completion is refused and takes the permit back, or it is accepted and settled. -/
theorem complete_cases (c : Circuit) (permit : ℕ) (kind : ProviderFailureKind) (retry : RetryAfter)
    (now : ℕ) :
    (c.complete permit kind retry now = (none, { c with outstanding := c.outstanding.erase permit }) ∧
      (permit ∉ c.outstanding ∨ c.snapshot.phase = .blocked)) ∨
    (∃ c', c.complete permit kind retry now = (some (retry.classify kind), c') ∧
      permit ∈ c.outstanding ∧ c.snapshot.phase ≠ .blocked ∧ c'.nextPermit = c.nextPermit ∧
      Settled c permit kind retry now c') := by
  unfold complete
  dsimp only
  by_cases hrefused : ¬ permit ∈ c.outstanding ∨ c.snapshot.phase = .blocked
  · rw [if_pos hrefused]
    exact .inl ⟨rfl, hrefused⟩
  · rw [if_neg hrefused]
    rw [not_or, not_not] at hrefused
    right
    have hnext : ∀ owns, (({ c with outstanding := c.outstanding.erase permit } : Circuit).clearProbe
        owns).nextPermit = c.nextPermit := by
      intro owns
      unfold clearProbe
      split_ifs <;> rfl
    have hreleased := released_clearProbe c permit
    split_ifs with hblocked hneutral
    · exact ⟨_, rfl, hrefused.1, hrefused.2, rfl, .blocked rfl rfl rfl rfl⟩
    · exact ⟨_, rfl, hrefused.1, hrefused.2, hnext _, hreleased.settled⟩
    · refine ⟨_, rfl, hrefused.1, hrefused.2, ?_, ?_⟩
      · exact (nextPermit_settle _ _ _ _ _).trans (hnext _)
      · have hretry := RetryAfter.millis_le (eq_false_of_ne_true hblocked)
        generalize hc₁ : ({ c with outstanding := c.outstanding.erase permit } : Circuit).clearProbe
          (c.probe = some permit) = c₁ at hreleased
        unfold settle
        cases hphase : c₁.snapshot.phase with
        | closed => exact settled_failClosed hreleased (hreleased.phase ▸ hphase) hretry
        | opened => exact settled_failOpened hreleased
        | blocked => exact hreleased.settled
        | halfOpen =>
          dsimp only
          split_ifs with howns
          · exact settled_settleProbe hreleased (hreleased.phase ▸ hphase) (of_decide_eq_true howns)
          · exact hreleased.settled

/-! ### Along a run -/

/-- Blocked is for good, closed comes after a success of the probe only, and an opening lasts at most
fifteen minutes. -/
structure Lawful (e : Event Circuit Op Output) : Prop where
  blocked : e.before.snapshot.phase = .blocked → e.after.snapshot.phase = .blocked
  closed : e.before.snapshot.phase ≠ .closed → e.after.snapshot.phase = .closed →
    ∃ permit, e.op = .complete permit .success .absent e.op.now ∧ e.before.probe = some permit
  opened : e.before.snapshot.phase ≠ .opened → e.after.snapshot.phase = .opened →
    ∃ limit, e.after.snapshot.openUntilMs = some limit ∧ limit ≤ e.op.now + 900000

theorem lawful_reserve (c : Circuit) (now : ℕ) : Lawful (event step c (.reserve now)) := by
  have hafter : (event step c (.reserve now)).after = (c.reserve now).2 := rfl
  have hbefore : (event step c (.reserve now)).before = c := rfl
  rcases reserve_cases c now with ⟨e, hres⟩ | ⟨c', hres, -, -, -, hphase⟩
  · rw [hres] at hafter
    constructor <;> rw [hafter, hbefore]
    · exact id
    · exact fun hne h => absurd h hne
    · exact fun hne h => absurd h hne
  · rw [hres] at hafter
    constructor <;> rw [hafter, hbefore]
    · intro hblocked
      rcases hphase with ⟨hold, -, -⟩ | ⟨-, -, -, hold | hold⟩ <;> rw [hblocked] at hold <;> cases hold
    · intro hne hclosed
      rcases hphase with ⟨hold, -, -⟩ | ⟨hnew, -, -, -⟩
      · exact absurd hold hne
      · rw [hclosed] at hnew
        cases hnew
    · intro _ hopened
      rcases hphase with ⟨-, hnew, -⟩ | ⟨hnew, -, -, -⟩ <;> rw [hopened] at hnew <;> cases hnew

theorem lawful_complete (c : Circuit) (permit : ℕ) (kind : ProviderFailureKind) (retry : RetryAfter)
    (now : ℕ) : Lawful (event step c (.complete permit kind retry now)) := by
  have hafter : (event step c (.complete permit kind retry now)).after =
      (c.complete permit kind retry now).2 := rfl
  have hbefore : (event step c (.complete permit kind retry now)).before = c := rfl
  rcases complete_cases c permit kind retry now with ⟨hres, -⟩ | ⟨c', hres, -, hblocked, -, hsettled⟩
  · rw [hres] at hafter
    constructor <;> rw [hafter, hbefore]
    · exact id
    · exact fun hne h => absurd h hne
    · exact fun hne h => absurd h hne
  · rw [hres] at hafter
    constructor <;> rw [hafter, hbefore]
    · exact fun h => absurd h hblocked
    · intro hne hclosed
      cases hsettled with
      | blocked hphase => rw [hclosed] at hphase; cases hphase
      | kept hphase => exact absurd (hphase ▸ hclosed) hne
      | opened hphase => rw [hclosed] at hphase; cases hphase
      | closed _ _ _ _ _ howns hkind hretry =>
        subst hkind hretry
        exact ⟨permit, rfl, howns⟩
    · intro hne hopened
      cases hsettled with
      | blocked hphase => rw [hopened] at hphase; cases hphase
      | kept hphase => exact absurd (hphase ▸ hopened) hne
      | opened _ _ _ _ _ huntil => exact huntil
      | closed hphase => rw [hopened] at hphase; cases hphase

/-- The permit was given to a probe. -/
def ProbeGiven (h : Trace) (permit : ℕ) : Prop :=
  ∃ e ∈ h, e.out = .reserved (.ok permit) ∧ e.after.snapshot.phase = .halfOpen

/-- The invariant of the circuit with its history. -/
structure Inv (h : Trace) (c : Circuit) : Prop where
  /-- A probe is recorded while half open, and is out. -/
  probe : ∀ permit, c.probe = some permit →
    c.snapshot.phase = .halfOpen ∧ permit ∈ c.outstanding
  /-- No other probe is out. -/
  sole : ∀ permit, ProbeGiven h permit → permit ∈ c.outstanding → c.probe = some permit
  level : c.snapshot.openingLevel ≤ 2
  outstanding : ∀ permit ∈ c.outstanding, permit ≤ c.nextPermit
  reserved : ∀ permit ∈ h.filterMap reservedId, permit ≤ c.nextPermit
  accepted : ∀ permit ∈ h.filterMap acceptedId, permit ≤ c.nextPermit ∧ permit ∉ c.outstanding
  reservedOnce : (h.filterMap reservedId).Nodup
  acceptedOnce : (h.filterMap acceptedId).Nodup

theorem inv_start {c : Circuit} (h : Start c) : Inv [] c := by
  have hnew : Inv [] new := by constructor <;> simp [new, ProbeGiven]
  cases h with
  | new => exact hnew
  | blocked hblocked =>
    unfold restoreBlocked at hblocked
    split_ifs at hblocked
    cases hblocked
    constructor <;> simp [new, block, ProbeGiven]

theorem probeGiven_cons {h : Trace} {e : Event Circuit Op Output} {permit : ℕ}
    (hgiven : ProbeGiven (e :: h) permit) :
    (e.out = .reserved (.ok permit) ∧ e.after.snapshot.phase = .halfOpen) ∨ ProbeGiven h permit := by
  obtain ⟨e', he', hout, hphase⟩ := hgiven
  rcases List.mem_cons.mp he' with rfl | he'
  · exact .inl ⟨hout, hphase⟩
  · exact .inr ⟨e', he', hout, hphase⟩

/-- A step that gives no permit, and takes back the one it accepts. -/
theorem Inv.take {h : Trace} {c c' : Circuit} {e : Event Circuit Op Output} (hinv : Inv h c)
    (hreserved : reservedId e = none)
    (haccepted : ∀ permit, acceptedId e = some permit →
      permit ∈ c.outstanding ∧ permit ∉ c'.outstanding)
    (hprobe : ∀ permit, c'.probe = some permit →
      c'.snapshot.phase = .halfOpen ∧ permit ∈ c'.outstanding)
    (hsole : ∀ permit, c.probe = some permit → permit ∈ c'.outstanding → c'.probe = some permit)
    (hout : c'.outstanding ⊆ c.outstanding) (hnext : c'.nextPermit = c.nextPermit)
    (hlevel : c'.snapshot.openingLevel ≤ 2) : Inv (e :: h) c' where
  probe := hprobe
  sole permit hgiven hp := by
    rcases probeGiven_cons hgiven with ⟨hgave, -⟩ | hgiven
    · rw [reservedId, hgave] at hreserved
      cases hreserved
    · exact hsole permit (hinv.sole permit hgiven (hout hp)) hp
  level := hlevel
  outstanding permit hp := hnext ▸ hinv.outstanding permit (hout hp)
  reserved permit hp := by
    rw [List.filterMap_cons_none hreserved] at hp
    exact hnext ▸ hinv.reserved permit hp
  accepted permit hp := by
    rw [hnext]
    rcases mem_filterMap_cons hp with hnew | hold
    · obtain ⟨hmem, hnot⟩ := haccepted permit hnew
      exact ⟨hinv.outstanding permit hmem, hnot⟩
    · obtain ⟨hle, hnot⟩ := hinv.accepted permit hold
      exact ⟨hle, fun hmem => hnot (hout hmem)⟩
  reservedOnce := by
    rw [List.filterMap_cons_none hreserved]
    exact hinv.reservedOnce
  acceptedOnce := nodup_filterMap_cons hinv.acceptedOnce fun permit hnew hold =>
    (hinv.accepted permit hold).2 (haccepted permit hnew).1

/-- A step that gives the next permit. -/
theorem Inv.give {h : Trace} {c c' : Circuit} {e : Event Circuit Op Output} (hinv : Inv h c)
    (hreserved : reservedId e = some (c.nextPermit + 1)) (haccepted : acceptedId e = none)
    (hprobe : ∀ permit, c'.probe = some permit →
      c'.snapshot.phase = .halfOpen ∧ permit ∈ c'.outstanding)
    (hsole : ∀ permit, ProbeGiven (e :: h) permit → permit ∈ c'.outstanding →
      c'.probe = some permit)
    (hout : c'.outstanding = insert (c.nextPermit + 1) c.outstanding)
    (hnext : c'.nextPermit = c.nextPermit + 1)
    (hlevel : c'.snapshot.openingLevel = c.snapshot.openingLevel) : Inv (e :: h) c' where
  probe := hprobe
  sole := hsole
  level := hlevel ▸ hinv.level
  outstanding permit hp := by
    rw [hout, Finset.mem_insert] at hp
    rw [hnext]
    rcases hp with rfl | hp
    · exact le_rfl
    · exact Nat.le_succ_of_le (hinv.outstanding permit hp)
  reserved permit hp := by
    rw [hnext]
    rcases mem_filterMap_cons hp with hnew | hold
    · rw [hreserved] at hnew
      cases hnew
      exact le_rfl
    · exact Nat.le_succ_of_le (hinv.reserved permit hold)
  accepted permit hp := by
    rw [List.filterMap_cons_none haccepted] at hp
    obtain ⟨hle, hnot⟩ := hinv.accepted permit hp
    refine ⟨hnext ▸ Nat.le_succ_of_le hle, fun hmem => ?_⟩
    rw [hout, Finset.mem_insert] at hmem
    rcases hmem with rfl | hmem
    · exact absurd hle (Nat.not_succ_le_self _)
    · exact hnot hmem
  reservedOnce := nodup_filterMap_cons hinv.reservedOnce fun permit hnew hold => by
    rw [hreserved] at hnew
    cases hnew
    exact absurd (hinv.reserved _ hold) (Nat.not_succ_le_self _)
  acceptedOnce := by
    rw [List.filterMap_cons_none haccepted]
    exact hinv.acceptedOnce

theorem Inv.reserve {h : Trace} {c : Circuit} (hinv : Inv h c) (now : ℕ) :
    Inv (event step c (.reserve now) :: h) (step c (.reserve now)).2 := by
  show Inv (⟨c, .reserve now, .reserved (c.reserve now).1, (c.reserve now).2⟩ :: h) (c.reserve now).2
  rcases reserve_cases c now with ⟨e, hres⟩ | ⟨c', hres, hnext, hout, hlevel, hphase⟩
  · rw [hres]
    exact hinv.take rfl nofun hinv.probe (fun _ hp _ => hp) (fun _ hp => hp) rfl hinv.level
  · rw [hres]
    refine hinv.give rfl rfl (fun permit hp => ?_) (fun permit hgiven hp => ?_) hout hnext hlevel
    · rw [hout]
      rcases hphase with ⟨hclosed, -, hprobe⟩ | ⟨hhalf, hprobe, -, -⟩
      · rw [hprobe] at hp
        have hold := (hinv.probe permit hp).1
        rw [hclosed] at hold
        cases hold
      · rw [hprobe] at hp
        cases hp
        exact ⟨hhalf, Finset.mem_insert_self _ _⟩
    · rw [hout, Finset.mem_insert] at hp
      rcases probeGiven_cons hgiven with ⟨hgave, hnow⟩ | hgiven
      · cases hgave
        rcases hphase with ⟨-, hclosed, -⟩ | ⟨-, hprobe, -, -⟩
        · have hhalf : c'.snapshot.phase = .halfOpen := hnow
          rw [hclosed] at hhalf
          cases hhalf
        · exact hprobe
      · -- A probe given earlier and still out would be the recorded one, which there is none of.
        have hle : permit ≤ c.nextPermit := by
          obtain ⟨e, he, hgave, -⟩ := hgiven
          refine hinv.reserved permit (List.mem_filterMap.mpr ⟨e, he, ?_⟩)
          rw [reservedId, hgave]
        rcases hp with rfl | hp
        · exact absurd hle (Nat.not_succ_le_self _)
        · have hold := hinv.sole permit hgiven hp
          have hhalf := (hinv.probe permit hold).1
          rcases hphase with ⟨hclosed, -, -⟩ | ⟨-, -, hfree, -⟩
          · rw [hclosed] at hhalf
            cases hhalf
          · rw [hfree hhalf] at hold
            cases hold

theorem Inv.complete {h : Trace} {c : Circuit} (hinv : Inv h c) (permit : ℕ)
    (kind : ProviderFailureKind) (retry : RetryAfter) (now : ℕ) :
    Inv (event step c (.complete permit kind retry now) :: h)
      (step c (.complete permit kind retry now)).2 := by
  show Inv (⟨c, .complete permit kind retry now, .completed (c.complete permit kind retry now).1,
    (c.complete permit kind retry now).2⟩ :: h) (c.complete permit kind retry now).2
  have herase : c.outstanding.erase permit ⊆ c.outstanding := Finset.erase_subset _ _
  rcases complete_cases c permit kind retry now with
    ⟨hres, hrefused⟩ | ⟨c', hres, hmem, -, hnext, hsettled⟩
  · rw [hres]
    refine hinv.take rfl nofun (fun p hp => ?_) (fun _ hp _ => hp) herase rfl hinv.level
    obtain ⟨hhalf, hout⟩ := hinv.probe p hp
    refine ⟨hhalf, Finset.mem_erase.mpr ⟨fun heq => ?_, hout⟩⟩
    subst heq
    rcases hrefused with hnot | hblocked
    · exact hnot hout
    · rw [hblocked] at hhalf
      cases hhalf
  · rw [hres]
    have haccepted : ∀ p, acceptedId (⟨c, .complete permit kind retry now,
        .completed (some (retry.classify kind)), c'⟩ : Event Circuit Op Output) = some p →
        permit ∉ c'.outstanding → p ∈ c.outstanding ∧ p ∉ c'.outstanding := by
      intro p hp hnot
      cases hp
      exact ⟨hmem, hnot⟩
    cases hsettled with
    | blocked hphase hprobe hout hlevel =>
      refine hinv.take rfl (fun p hp => haccepted p hp ?_) ?_ ?_ ?_ hnext (hlevel ▸ hinv.level)
      · simp [hout]
      · simp [hprobe]
      · simp [hout]
      · simp [hout]
    | kept hphase hprobe hout hlevel =>
      refine hinv.take rfl (fun p hp => haccepted p hp ?_) (fun p hp => ?_) (fun p hp hpout => ?_)
        (hout ▸ herase) hnext (hlevel ▸ hinv.level)
      · simp [hout]
      · rw [hprobe] at hp
        split_ifs at hp with howns
        obtain ⟨hhalf, hold⟩ := hinv.probe p hp
        refine ⟨hphase ▸ hhalf, hout ▸ Finset.mem_erase.mpr ⟨fun heq => howns (heq ▸ hp), hold⟩⟩
      · rw [hout, Finset.mem_erase] at hpout
        rw [hprobe, if_neg fun howns => hpout.1 (Option.some.inj (hp.symm.trans howns))]
        exact hp
    | opened hphase hprobe hout hlevel hfrom =>
      refine hinv.take rfl (fun p hp => haccepted p hp ?_) ?_ (fun p hp hpout => ?_)
        (hout ▸ herase) hnext hlevel
      · simp [hout]
      · simp [hprobe]
      · rcases hfrom with hclosed | ⟨-, howns⟩
        · have hhalf := (hinv.probe p hp).1
          rw [hclosed] at hhalf
          cases hhalf
        · rw [hp] at howns
          cases howns
          simp [hout] at hpout
    | closed hphase hprobe hout hlevel _ howns =>
      refine hinv.take rfl (fun p hp => haccepted p hp ?_) ?_ (fun p hp hpout => ?_)
        (hout ▸ herase) hnext (le_of_eq_of_le hlevel (Nat.zero_le 2))
      · simp [hout]
      · simp [hprobe]
      · rw [hp] at howns
        cases howns
        simp [hout] at hpout

theorem inv_run {c₀ c : Circuit} {h : Trace} (hstart : Start c₀) (hrun : Run step c₀ h c) :
    Inv h c ∧ ∀ e ∈ h, Lawful e := by
  induction hrun with
  | nil => exact ⟨inv_start hstart, fun e he => (List.not_mem_nil he).elim⟩
  | cons op _ ih =>
    obtain ⟨hinv, hlawful⟩ := ih
    rename_i c _
    cases op with
    | reserve now =>
      refine ⟨hinv.reserve now, fun e he => ?_⟩
      rcases List.mem_cons.mp he with rfl | he
      · exact lawful_reserve c now
      · exact hlawful e he
    | complete permit kind retry now =>
      refine ⟨hinv.complete permit kind retry now, fun e he => ?_⟩
      rcases List.mem_cons.mp he with rfl | he
      · exact lawful_complete c permit kind retry now
      · exact hlawful e he

/-- **The circuit.** Whatever is reserved and completed, at any times: a probe is recorded only while
half open, is out, and is the only probe that is out; an id is given once and accepted once; blocked
is for good; from another state the circuit closes only by a success of the current probe; the opening
level is at most two; and an opening lasts at most fifteen minutes. -/
theorem circuit_along_run {c₀ c : Circuit} {h : Trace} (hstart : Start c₀)
    (hrun : Run step c₀ h c) :
    (∀ permit, c.probe = some permit → c.snapshot.phase = .halfOpen ∧ permit ∈ c.outstanding) ∧
    (∀ e ∈ h, ∀ permit, e.out = .reserved (.ok permit) → e.after.snapshot.phase = .halfOpen →
      permit ∈ c.outstanding → c.probe = some permit) ∧
    (h.filterMap reservedId).Nodup ∧ (h.filterMap acceptedId).Nodup ∧
    c.snapshot.openingLevel ≤ 2 ∧
    ∀ e ∈ h,
      (e.before.snapshot.phase = .blocked → e.after.snapshot.phase = .blocked) ∧
      (e.before.snapshot.phase ≠ .closed → e.after.snapshot.phase = .closed →
        ∃ permit, e.op = .complete permit .success .absent e.op.now ∧
          e.before.probe = some permit) ∧
      (e.before.snapshot.phase ≠ .opened → e.after.snapshot.phase = .opened →
        ∃ limit, e.after.snapshot.openUntilMs = some limit ∧ limit ≤ e.op.now + 900000) := by
  obtain ⟨hinv, hlawful⟩ := inv_run hstart hrun
  refine ⟨hinv.probe, fun e he permit hgave hhalf => hinv.sole permit ⟨e, he, hgave, hhalf⟩,
    hinv.reservedOnce, hinv.acceptedOnce, hinv.level, fun e he => ?_⟩
  have hevent := hlawful e he
  exact ⟨hevent.blocked, hevent.closed, hevent.opened⟩

/-- Three timeouts open the circuit, and a success of the probe closes it. -/
def timeoutOps : List Op :=
  [.reserve 0, .complete 1 .timeout .absent 0, .reserve 1, .complete 2 .timeout .absent 1,
    .reserve 2, .complete 3 .timeout .absent 2, .reserve 60002, .complete 4 .success .absent 60003]

theorem timeouts_opened :
    ((play step new timeoutOps).1.map fun e => e.after.snapshot.phase) =
      [.closed, .halfOpen, .opened, .closed, .closed, .closed, .closed, .closed] ∧
    ((play step new timeoutOps).1.filterMap acceptedId).Nodup :=
  ⟨by decide, (circuit_along_run .new (run_play new timeoutOps)).2.2.2.1⟩

end Circuit

end AbbeyBot.Provider
