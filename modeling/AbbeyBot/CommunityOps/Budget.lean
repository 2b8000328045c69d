import Mathlib
import AbbeyBot.Library.History
import AbbeyBot.CommunityOps.Policy

/-! # The execution budget

An action is executed by reserving a receipt for it before anything is sent and settling the receipt
after. Every reservation of a run has left its receipt behind (`Reserved`), so that a later
`Ledger.authorize` finds it: keys are not used twice, targets rest, and the budget of a day counts
everything reserved on it. The policy and the clock may be others at each step. -/

namespace AbbeyBot.CommunityOps

open AbbeyBot.Library.History AbbeyBot.Library.OrderedMap AbbeyBot.Library.Result

variable {V : Type}

/-! ### Operations -/

/-- A row for an action that is only proposed; a row that is there stays. -/
def Ledger.propose (ledger : Ledger V) (action : Action) (policyDigest : String) (now : ℕ)
    (before : V) : Except String (Unit × Ledger V) :=
  match ledger.receipts[action.key]? with
  | some existing => do
    ensure (existing.action = action) "idempotency identity drift"
    return ((), ledger)
  | none =>
    .ok ((), ⟨ledger.receipts.insert action.key
      ⟨action, policyDigest, now, .proposed, before, none, "owner policy proposal; no mutation"⟩⟩)

/-- The reservation of an action that is about to be sent. -/
def Ledger.reserve (ledger : Ledger V) (policy : Policy) (action : Action) (policyDigest : String)
    (now : ℕ) (before : V) : Except String (Unit × Ledger V) := do
  ledger.authorize policy action now
  return ((), ⟨ledger.receipts.insert action.key
    ⟨action, policyDigest, now, .reserved, before, none, "reserved before Discord I/O"⟩⟩)

/-- The outcome of a reserved action, as it was read back. -/
def Ledger.settle (ledger : Ledger V) (key : String) (verified : Bool) (observed : Option V)
    (detail : String) : Except String (Unit × Ledger V) := do
  let receipt ← orErr ledger.receipts[key]? "reservation unavailable"
  ensure (receipt.status = .reserved) "reservation unavailable"
  return ((), ⟨ledger.receipts.insert key { receipt with
    status := if verified then .verified else .reviewRequired
    observed := observed
    detail := detail }⟩)

inductive Op (V : Type) where
  | propose (action : Action) (policyDigest : String) (now : ℕ) (before : V)
  | reserve (policy : Policy) (action : Action) (policyDigest : String) (now : ℕ) (before : V)
  | settle (key : String) (verified : Bool) (observed : Option V) (detail : String)

/-- **The step function** of the ledger. -/
def step (ledger : Ledger V) : Op V → Except String Unit × Ledger V
  | .propose action policyDigest now before =>
    commit ledger (ledger.propose action policyDigest now before)
  | .reserve policy action policyDigest now before =>
    commit ledger (ledger.reserve policy action policyDigest now before)
  | .settle key verified observed detail =>
    commit ledger (ledger.settle key verified observed detail)

/-- What happened to a ledger. -/
abbrev History (V : Type) :=
  List (AbbeyBot.Library.History.Event (Ledger V) (Op V) (Except String Unit))

/-- An action that was authorized and reserved, with the policy and the time. -/
structure Reservation where
  policy : Policy
  action : Action
  now : ℕ
  deriving DecidableEq

/-- The reservation an event made. -/
def reservation? (e : AbbeyBot.Library.History.Event (Ledger V) (Op V) (Except String Unit)) :
    Option Reservation :=
  match e.op, e.out with
  | .reserve policy action _ now _, .ok () => some ⟨policy, action, now⟩
  | _, _ => none

/-! ### One step -/

variable {ledger l l' : Ledger V}

/-- What `Ledger.authorize` finds. -/
structure Authorized (ledger : Ledger V) (r : Reservation) : Prop where
  proposed : ∀ existing, ledger.receipts[r.action.key]? = some existing →
    existing.status = .proposed
  budget : countRows ledger.receipts (Receipt.chargedOn r.now) < r.policy.dailyLimit
  creations : r.action.operation.isCreation = true →
    (countRows ledger.receipts fun row => row.chargedOn r.now && row.action.operation.isCreation) <
      r.policy.dailyCreations
  free : ∀ (key : String) (row : Receipt V), ledger.receipts[key]? = some row →
    row.holds r.action.operation r.now = false

theorem authorized_of_ok {policy : Policy} {action : Action} {now : ℕ}
    (h : ledger.authorize policy action now = .ok ()) :
    Authorized ledger ⟨policy, action, now⟩ := by
  simp only [Ledger.authorize, bind_eq_ok, exists_unit, ensure_eq_ok, not_and, not_le] at h
  obtain ⟨-, -, -, hidentity, hbudget, hcreations, hfree⟩ := h
  refine ⟨fun existing hex => ?_, hbudget, hcreations, all_iff.mp hfree⟩
  simp only [Ledger.checkIdentity, hex, bind_eq_ok, exists_unit, ensure_eq_ok] at hidentity
  exact hidentity.2

/-- What a step writes: nothing, a proposed row under a free key, a reservation that was authorized,
or the outcome of a reservation. -/
theorem step_cases (ledger : Ledger V) (op : Op V) :
    ((step ledger op).2 = ledger ∧ reservation? (event step ledger op) = none) ∨
      (∃ (key : String) (row : Receipt V), row.status = .proposed ∧ ledger.receipts[key]? = none ∧
        (step ledger op).2 = ⟨ledger.receipts.insert key row⟩ ∧
        reservation? (event step ledger op) = none) ∨
      (∃ (r : Reservation) (row : Receipt V), Authorized ledger r ∧ row.action = r.action ∧
        row.at_ = r.now ∧ row.status = .reserved ∧
        (step ledger op).2 = ⟨ledger.receipts.insert r.action.key row⟩ ∧
        reservation? (event step ledger op) = some r) ∨
      ∃ (key : String) (row row' : Receipt V), ledger.receipts[key]? = some row ∧
        row'.action = row.action ∧ row'.at_ = row.at_ ∧ row'.status.isCharged = true ∧
        (step ledger op).2 = ⟨ledger.receipts.insert key row'⟩ ∧
        reservation? (event step ledger op) = none := by
  cases op with
  | propose action policyDigest now before =>
    rcases commit_cases ledger (ledger.propose action policyDigest now before) with
      ⟨u, l', hok, heq⟩ | ⟨e, heq⟩
    · unfold Ledger.propose at hok
      split at hok
      · simp only [bind_eq_ok, exists_unit, pure_eq_ok, Prod.mk.injEq] at hok
        obtain ⟨-, -, rfl⟩ := hok
        exact .inl ⟨congrArg Prod.snd heq, rfl⟩
      · rename_i hnone
        simp only [Except.ok.injEq, Prod.mk.injEq] at hok
        obtain ⟨-, rfl⟩ := hok
        exact .inr (.inl ⟨_, _, rfl, hnone, congrArg Prod.snd heq, rfl⟩)
    · exact .inl ⟨congrArg Prod.snd heq, rfl⟩
  | reserve policy action policyDigest now before =>
    rcases commit_cases ledger (ledger.reserve policy action policyDigest now before) with
      ⟨u, l', hok, heq⟩ | ⟨e, heq⟩
    · simp only [Ledger.reserve, bind_eq_ok, exists_unit, pure_eq_ok, Prod.mk.injEq] at hok
      obtain ⟨hauth, -, rfl⟩ := hok
      refine .inr (.inr (.inl ⟨⟨policy, action, now⟩, _, authorized_of_ok hauth, rfl, rfl, rfl,
        congrArg Prod.snd heq, ?_⟩))
      have hout : (step ledger (.reserve policy action policyDigest now before)).1 = .ok () :=
        congrArg Prod.fst heq
      simp only [reservation?, event, hout]
    · refine .inl ⟨congrArg Prod.snd heq, ?_⟩
      have hout : (step ledger (.reserve policy action policyDigest now before)).1 = .error e :=
        congrArg Prod.fst heq
      simp only [reservation?, event, hout]
  | settle key verified observed detail =>
    rcases commit_cases ledger (ledger.settle key verified observed detail) with
      ⟨u, l', hok, heq⟩ | ⟨e, heq⟩
    · simp only [Ledger.settle, bind_eq_ok, exists_unit, orErr_eq_ok, ensure_eq_ok, pure_eq_ok,
        Prod.mk.injEq] at hok
      obtain ⟨row, hrow, -, -, rfl⟩ := hok
      have hsnd := congrArg Prod.snd heq
      refine .inr (.inr (.inr ⟨key, row, { row with
        status := if verified then .verified else .reviewRequired
        observed := observed
        detail := detail }, hrow, rfl, rfl, ?_, hsnd, rfl⟩))
      cases verified <;> rfl
    · exact .inl ⟨congrArg Prod.snd heq, rfl⟩

/-! ### What a reservation leaves behind -/

/-- The receipt of a reservation, whatever its outcome. -/
def Reserved (l : Ledger V) (r : Reservation) : Prop :=
  ∃ row, l.receipts[r.action.key]? = some row ∧ row.action = r.action ∧ row.at_ = r.now ∧
    row.status.isCharged = true

/-- No step takes the receipt of a reservation away. -/
theorem Reserved.step {r : Reservation} (h : Reserved l r) (op : Op V) :
    Reserved (step l op).2 r := by
  obtain ⟨row, hrow, haction, hat, hcharged⟩ := h
  rcases step_cases l op with ⟨heq, -⟩ | ⟨key, new, -, hnone, heq, -⟩ |
    ⟨r', new, hauth, -, -, -, heq, -⟩ | ⟨key, old, new, hold, haction', hat', hcharged', heq, -⟩
  · rw [heq]
    exact ⟨row, hrow, haction, hat, hcharged⟩
  · refine ⟨row, ?_, haction, hat, hcharged⟩
    rw [heq, getElem?_insert, if_neg fun hk => by rw [hk, hrow] at hnone; cases hnone]
    exact hrow
  · refine ⟨row, ?_, haction, hat, hcharged⟩
    have hne : r'.action.key ≠ r.action.key := by
      intro hk
      have hproposed := hauth.proposed row (hk ▸ hrow)
      rw [hproposed] at hcharged
      cases hcharged
    rw [heq, getElem?_insert, if_neg hne]
    exact hrow
  · by_cases hk : key = r.action.key
    · subst hk
      rw [hrow, Option.some.injEq] at hold
      subst hold
      refine ⟨new, ?_, haction'.trans haction, hat'.trans hat, hcharged'⟩
      rw [heq, getElem?_insert, if_pos rfl]
    · refine ⟨row, ?_, haction, hat, hcharged⟩
      rw [heq, getElem?_insert, if_neg hk]
      exact hrow

/-- Every reservation of a run has its receipt at the end. -/
theorem run_reserved {l₀ : Ledger V} {h : History V} (hrun : Run step l₀ h l) :
    ∀ e ∈ h, ∀ r, reservation? e = some r → Reserved l r := by
  induction hrun with
  | nil => exact fun e he => (List.not_mem_nil he).elim
  | @cons h l op _ ih =>
    intro e he r hr
    rcases List.mem_cons.mp he with rfl | he
    · rcases step_cases l op with ⟨-, hnone⟩ | ⟨key, new, -, -, -, hnone⟩ |
        ⟨r', new, -, haction, hat, hstatus, heq, hsome⟩ | ⟨key, old, new, -, -, -, -, -, hnone⟩
      · rw [hnone] at hr; cases hr
      · rw [hnone] at hr; cases hr
      · rw [hsome, Option.some.injEq] at hr
        subst hr
        refine ⟨new, ?_, haction, hat, by rw [hstatus]; rfl⟩
        rw [heq, getElem?_insert, if_pos rfl]
      · rw [hnone] at hr; cases hr
    · exact (ih e he r hr).step op

/-- An event that reserved was authorized, and wrote the receipt. -/
theorem reservation_cases {e : AbbeyBot.Library.History.Event (Ledger V) (Op V) (Except String Unit)}
    {r : Reservation} (he : e = event step e.before e.op) (hr : reservation? e = some r) :
    Authorized e.before r ∧ ∃ row : Receipt V, row.action = r.action ∧ row.at_ = r.now ∧
      row.status = .reserved ∧ e.after = ⟨e.before.receipts.insert r.action.key row⟩ := by
  have hafter : e.after = (step e.before e.op).2 := congrArg Event.after he
  rw [he] at hr
  rcases step_cases e.before e.op with ⟨-, hnone⟩ | ⟨key, new, -, -, -, hnone⟩ |
    ⟨r', new, hauth, haction, hat, hstatus, heq, hsome⟩ | ⟨key, old, new, -, -, -, -, -, hnone⟩
  · rw [hnone] at hr; cases hr
  · rw [hnone] at hr; cases hr
  · rw [hsome, Option.some.injEq] at hr
    subst hr
    exact ⟨hauth, new, haction, hat, hstatus, hafter.trans heq⟩
  · rw [hnone] at hr; cases hr

/-! ### Runs -/

/-- The second reservation restores the very channel that the first one archived, whose receipt is
verified at that time. -/
def Recovery (l : Ledger V) (first second : Reservation) : Prop :=
  ∃ channel category, first.action.operation = .archive channel category ∧
    second.action.operation = .restoreArchive channel first.action.key ∧
    ∃ row, l.receipts[first.action.key]? = some row ∧ row.action = first.action ∧
      row.status = .verified

/-- A receipt that does not hold its target from an operation on that target is old enough, or is
the archive to be restored. -/
theorem rested_of_not_holds {operation : Operation} {now : ℕ} {row : Receipt V}
    (hfree : row.holds operation now = false) (htarget : row.action.operation.target = operation.target)
    (hcharged : row.status.isCharged = true) :
    operation.recovers row = true ∨
      (row.status.isUnresolved = false ∧ row.at_ + targetCooldown ≤ now) := by
  cases hrec : operation.recovers row with
  | true => exact .inl rfl
  | false =>
    right
    simp only [Receipt.holds, htarget, hcharged, hrec, decide_true, Bool.true_and, Bool.not_false,
      Bool.or_eq_false_iff, decide_eq_false_iff_not, not_lt] at hfree
    refine ⟨hfree.1, ?_⟩
    have hpos : 0 < targetCooldown := by decide
    omega

theorem verified_of_recovers {operation : Operation} {row : Receipt V}
    (h : operation.recovers row = true) :
    ∃ channel category, row.action.operation = .archive channel category ∧
      operation = .restoreArchive channel row.action.key ∧ row.status = .verified := by
  unfold Operation.recovers at h
  split at h
  · rename_i channel receipt archived category hop
    simp only [Bool.and_eq_true, decide_eq_true_eq] at h
    obtain ⟨⟨⟨hstatus, rfl⟩, rfl⟩, -⟩ := h
    exact ⟨archived, category, hop, rfl, hstatus⟩
  · cases h

/-- No unresolved receipt stands on the target of a reservation. -/
theorem Authorized.resolved {r : Reservation} (h : Authorized l r) {key : String}
    {row : Receipt V} (hrow : l.receipts[key]? = some row)
    (htarget : row.action.operation.target = r.action.operation.target) :
    row.status.isUnresolved = false := by
  by_contra hun
  have hcharged : row.status.isCharged = true := by
    cases hs : row.status <;> simp_all [Status.isCharged, Status.isUnresolved]
  rcases rested_of_not_holds (h.free key row hrow) htarget hcharged with hrec | ⟨hres, -⟩
  · obtain ⟨-, -, -, -, hverified⟩ := verified_of_recovers hrec
    rw [hverified] at hun
    exact hun rfl
  · exact hun hres

/-- A reservation is no repetition of an earlier one, and comes long after it on the same target. -/
theorem Authorized.after {r r' : Reservation} (h : Authorized l r) (hr' : Reserved l r') :
    r'.action.key ≠ r.action.key ∧
      (r'.action.operation.target = r.action.operation.target →
        r'.now + targetCooldown ≤ r.now ∨ Recovery l r' r) := by
  obtain ⟨row, hrow, haction, hat, hcharged⟩ := hr'
  refine ⟨fun hk => ?_, fun htarget => ?_⟩
  · have hproposed := h.proposed row (hk ▸ hrow)
    rw [hproposed] at hcharged
    cases hcharged
  · rw [← haction] at htarget
    rcases rested_of_not_holds (h.free _ row hrow) htarget hcharged with hrec | ⟨-, hold⟩
    · obtain ⟨channel, category, hop, hoperation, hverified⟩ := verified_of_recovers hrec
      rw [haction] at hop hoperation
      exact .inr ⟨channel, category, hop, hoperation, row, hrow, haction, hverified⟩
    · rw [hat] at hold
      exact .inl hold

/-- **The execution budget along every run, from any ledger, whatever the policies and clocks of the
steps.** Of each reservation: the receipts charged to its day are within the daily limit of its
policy, and the creations among them within the limit for creations when it is itself a creation and
no more than before when it is not; nothing unresolved stood on its target; no earlier reservation
had its key, and an earlier one on its target lies the cooldown before it, unless it restores what
that one archived. -/
theorem budget_along_run {l₀ : Ledger V} {h₁ h₂ : History V}
    {e : AbbeyBot.Library.History.Event (Ledger V) (Op V) (Except String Unit)} {r : Reservation}
    (hrun : Run step l₀ (h₁ ++ e :: h₂) l) (hr : reservation? e = some r) :
    countRows e.after.receipts (Receipt.chargedOn r.now) ≤ r.policy.dailyLimit ∧
    (countRows e.after.receipts fun row => row.chargedOn r.now && row.action.operation.isCreation) ≤
      (if r.action.operation.isCreation then r.policy.dailyCreations
        else countRows e.before.receipts fun row =>
          row.chargedOn r.now && row.action.operation.isCreation) ∧
    (∀ (key : String) (row : Receipt V), e.before.receipts[key]? = some row →
      row.action.operation.target = r.action.operation.target → row.status ≠ .reserved ∧
        row.status ≠ .reviewRequired) ∧
    ∀ e' ∈ h₂, ∀ r', reservation? e' = some r' → r'.action.key ≠ r.action.key ∧
      (r'.action.operation.target = r.action.operation.target →
        r'.now + targetCooldown ≤ r.now ∨ Recovery e.before r' r) := by
  have hbefore : Run step l₀ h₂ e.before := hrun.earlier
  obtain ⟨hauth, row, haction, hat, hstatus, hafter⟩ :=
    reservation_cases (hrun.event_eq (by simp)) hr
  refine ⟨?_, ?_, fun key row hrow htarget => ?_, fun e' he' r' hr' =>
    hauth.after (run_reserved hbefore e' he' r' hr')⟩
  · have hle := countRows_insert_le e.before.receipts r.action.key row (Receipt.chargedOn r.now)
    have hbudget := hauth.budget
    rw [hafter]
    dsimp only
    split_ifs at hle <;> omega
  · have hle := countRows_insert_le e.before.receipts r.action.key row
      fun row => row.chargedOn r.now && row.action.operation.isCreation
    rw [hafter]
    by_cases hcreation : r.action.operation.isCreation = true
    · have hcreations := hauth.creations hcreation
      rw [if_pos hcreation]
      dsimp only
      split_ifs at hle <;> omega
    · rw [if_neg (by simp [haction, hcreation])] at hle
      rw [if_neg hcreation]
      exact hle
  · have hres := hauth.resolved hrow htarget
    constructor <;> intro hs <;> rw [hs] at hres <;> cases hres

/-! ### Samples -/

def createGarden : Action := ⟨"garden", "spring", .createText 3 "garden" ""⟩

def archiveAttic : Action := ⟨"attic", "unused", .archive 7 3⟩

def restoreAttic : Action := ⟨"attic-back", "used again", .restoreArchive 7 "attic"⟩

def topicHall : Action := ⟨"hall", "clearer", .topic 8 "Say hello"⟩

/-- A policy of the owner 2 of the guild 1 with the public category 3. -/
def samplePolicy (dailyCreations : ℕ) : Policy where
  version := 1
  guild := 1
  owner := 2
  mode := .apply
  dailyLimit := 5
  dailyCreations := dailyCreations
  publicCategories := {3}
  protectedChannels := ∅
  ordinaryRoles := ∅
  membershipMatrix := ∅
  assessment := ⟨false, ∅, ∅, none⟩
  contextualShadow := ⟨false, ∅, none⟩
  actions := [createGarden, archiveAttic, restoreAttic, topicHall]

def reserveOp (dailyCreations : ℕ) (action : Action) (now : ℕ) : Op Unit :=
  .reserve (samplePolicy dailyCreations) action "digest" now ()

/-- A channel is archived and restored the next minute. -/
def archiveRun : History Unit × Ledger Unit :=
  play step ⟨∅⟩ [reserveOp 1 archiveAttic 100, .settle "attic" true (some ()) "read back"]

theorem archive_restored :
    (countRows (event step archiveRun.2 (reserveOp 1 restoreAttic 160)).after.receipts
        (Receipt.chargedOn 160) ≤ 5 ∧
      (archiveRun.1.filterMap reservation?).length = 1) := by
  have hrun : Run step ⟨∅⟩ ([] ++ event step archiveRun.2 (reserveOp 1 restoreAttic 160) ::
      archiveRun.1) (step archiveRun.2 (reserveOp 1 restoreAttic 160)).2 := (run_play _ _).cons _
  have hr : reservation? (event step archiveRun.2 (reserveOp 1 restoreAttic 160)) =
      some ⟨samplePolicy 1, restoreAttic, 160⟩ := by decide +kernel
  exact ⟨(budget_along_run hrun hr).1, by decide⟩

/-- The owner lowers the limit for creations below what was created that day. -/
def loweredRun : History Unit × Ledger Unit :=
  play step ⟨∅⟩ [reserveOp 1 createGarden 100, .settle "garden" true (some ()) "read back"]

/-- A topic may still be set: the limit for creations is only looked at by creations. -/
theorem creations_over_lowered_limit :
    Run step ⟨∅⟩ (event step loweredRun.2 (reserveOp 0 topicHall 160) :: loweredRun.1)
      (step loweredRun.2 (reserveOp 0 topicHall 160)).2 ∧
    reservation? (event step loweredRun.2 (reserveOp 0 topicHall 160)) =
      some ⟨samplePolicy 0, topicHall, 160⟩ ∧
    ¬ (countRows (event step loweredRun.2 (reserveOp 0 topicHall 160)).after.receipts fun row =>
      row.chargedOn 160 && row.action.operation.isCreation) ≤ (samplePolicy 0).dailyCreations := by
  exact ⟨(run_play _ _).cons _, by decide +kernel, by decide +kernel⟩

end AbbeyBot.CommunityOps
