import Mathlib
import AbbeyBot.Library.OrderedMap
import AbbeyBot.Library.Result
import AbbeyBot.Library.Text
import AbbeyBot.Moderation.Case

/-! # Community operations: the policy and the ledger

The owner of a guild writes a policy: limits, the structure it may touch, and the actions it allows.
The ledger keeps one receipt per action key; `Ledger.authorize` lets an action be executed when the
policy has it and the receipts leave room for it. What was observed on the platform before and after
an action is JSON, its type is the parameter `V`. -/

namespace AbbeyBot.CommunityOps

open AbbeyBot.Library.OrderedMap AbbeyBot.Library.Result AbbeyBot.Library.Text

/-! ### Operations -/

def targetCooldown : ℕ := 7 * 24 * 60 * 60

inductive Mode where
  | stopped
  | propose
  | apply
  deriving DecidableEq, Repr

inductive Operation where
  | createInterestRole (name : String)
  | retireInterestRole (role : ℕ) (name : String)
  | membership (member role : ℕ) (grant : Bool)
  | access (channel role allow deny : ℕ)
  | archive (channel category : ℕ)
  | restoreArchive (channel : ℕ) (receipt : String)
  | topic (channel : ℕ) (topic : String)
  | move (channel category : ℕ)
  | createText (category : ℕ) (name topic : String)
  deriving DecidableEq, Repr

/-- `Operation::target`. -/
def Operation.target : Operation → String
  | .createInterestRole name => "new-role:" ++ name
  | .retireInterestRole role _ => "role:" ++ toString role
  | .membership member role _ => "member:" ++ toString member ++ ":role:" ++ toString role
  | .access channel _ _ _ | .archive channel _ | .restoreArchive channel _ | .topic channel _
  | .move channel _ => "channel:" ++ toString channel
  | .createText category name _ => "new:" ++ toString category ++ ":" ++ name

/-- `Operation::is_creation`. -/
def Operation.isCreation : Operation → Bool
  | .createText .. | .createInterestRole .. => true
  | _ => false

structure Action where
  key : String
  reason : String
  operation : Operation
  deriving DecidableEq, Repr

/-! ### The policy -/

inductive AssessmentKind where
  | topic
  | move
  | createText
  | createInterestRole
  | retireInterestRole
  | archive
  deriving DecidableEq, Repr

/-- `AssessmentKind::of`. -/
def AssessmentKind.of : Operation → Option AssessmentKind
  | .topic .. => some .topic
  | .move .. => some .move
  | .createText .. => some .createText
  | .createInterestRole .. => some .createInterestRole
  | .retireInterestRole .. => some .retireInterestRole
  | .archive .. => some .archive
  | _ => none

structure AssessmentScope where
  enabled : Bool
  allowedKinds : BTreeSet AssessmentKind
  sourceChannels : BTreeSet ℕ
  reviewChannel : Option ℕ
  deriving DecidableEq

structure Policy where
  version : ℕ
  guild : ℕ
  owner : ℕ
  mode : Mode
  dailyLimit : ℕ
  dailyCreations : ℕ
  publicCategories : BTreeSet ℕ
  protectedChannels : BTreeSet ℕ
  ordinaryRoles : BTreeSet ℕ
  membershipMatrix : BTreeSet (ℕ × ℕ)
  assessment : AssessmentScope
  contextualShadow : AbbeyBot.Moderation.ShadowScope
  actions : List Action
  deriving DecidableEq

/-- `ordinary_name`. -/
def ordinaryName (name : String) : Bool := !isBlank name && name.length ≤ 100

def AssessmentScope.validate (scope : AssessmentScope) (protectedChannels : BTreeSet ℕ) :
    Except String Unit :=
  ensure (¬ (100 < scope.sourceChannels.card ∨
      (∃ id ∈ scope.sourceChannels, id = 0 ∨ id ∈ protectedChannels) ∨
      scope.reviewChannel = some 0 ∨
      (scope.enabled ∧ (scope.sourceChannels = ∅ ∨ scope.allowedKinds = ∅))))
    "invalid owner assessment scope"

/-- The checks an operation has to pass under a policy. -/
def Policy.permits (policy : Policy) : Operation → Except String Unit
  | .createInterestRole name => ensure (ordinaryName name) "invalid interest role name"
  | .retireInterestRole role name =>
    ensure (role ∈ policy.ordinaryRoles ∧ ordinaryName name) "role outside ordinary matrix"
  | .membership member role _ =>
    ensure (¬ (member = 0 ∨ role ∉ policy.ordinaryRoles ∨
        (member, role) ∉ policy.membershipMatrix))
      "membership outside approved matrix"
  | .access channel role allow deny =>
    ensure (¬ (channel = 0 ∨ channel ∈ policy.protectedChannels ∨ role ∉ policy.ordinaryRoles ∨
        allow &&& deny ≠ 0))
      "access outside approved matrix"
  | .archive channel category =>
    ensure (¬ (channel = 0 ∨ channel ∈ policy.protectedChannels ∨
        category ∉ policy.publicCategories))
      "archive outside approved structure"
  | .restoreArchive channel receipt =>
    ensure (¬ (channel = 0 ∨ channel ∈ policy.protectedChannels ∨ receipt = ""))
      "invalid archive recovery authority"
  | .topic channel topic =>
    ensure (¬ (channel = 0 ∨ channel ∈ policy.protectedChannels ∨ 1024 < topic.length))
      "topic target is protected or invalid"
  | .move channel category =>
    ensure (¬ (channel = 0 ∨ channel ∈ policy.protectedChannels ∨
        category ∉ policy.publicCategories))
      "move target is outside approved public structure"
  | .createText category name topic =>
    ensure (¬ (category ∉ policy.publicCategories ∨ name = "" ∨ 100 < name.utf8ByteSize ∨
        ¬ (name.toList.all fun c => c.isLower || c.isDigit || c == '-') ∨ 1024 < topic.length))
      "creation is outside approved public structure"

/-- The loop of `Policy::validate` over the actions; `keys` are those of the actions before. -/
def Policy.validateActions (policy : Policy) : List String → List Action → Except String Unit
  | _, [] => .ok ()
  | keys, action :: rest => do
    ensure (¬ (action.key = "" ∨ 128 < action.key.utf8ByteSize ∨ action.key ∈ keys ∨
        isBlank action.reason ∨ 512 < action.reason.utf8ByteSize))
      "invalid or duplicate action identity"
    policy.permits action.operation
    policy.validateActions (action.key :: keys) rest

/-- `Policy::validate`. -/
def Policy.validate (policy : Policy) : Except String Unit := do
  ensure (¬ (policy.version ≠ 1 ∨ policy.guild = 0 ∨ policy.owner = 0))
    "invalid policy identity or version"
  ensure (Disjoint policy.publicCategories policy.protectedChannels)
    "public and protected category scope contradicts"
  ensure (¬ (policy.dailyLimit = 0 ∨ 5 < policy.dailyLimit ∨ 2 < policy.dailyCreations ∨
      policy.dailyLimit < policy.dailyCreations ∨ 100 < policy.actions.length))
    "invalid policy limits"
  policy.assessment.validate policy.protectedChannels
  policy.contextualShadow.validate policy.protectedChannels
  policy.validateActions [] policy.actions

/-! ### The ledger -/

inductive Status where
  | proposed
  | reserved
  | verified
  | reviewRequired
  | rejected
  deriving DecidableEq, Repr

/-- The statuses that count against the budget and hold their target. -/
def Status.isCharged : Status → Bool
  | .reserved | .verified | .reviewRequired => true
  | _ => false

/-- The statuses whose outcome is open. -/
def Status.isUnresolved : Status → Bool
  | .reserved | .reviewRequired => true
  | _ => false

variable {V : Type}

structure Receipt (V : Type) where
  action : Action
  policyDigest : String
  at_ : ℕ
  status : Status
  before : V
  observed : Option V
  detail : String
  deriving DecidableEq

structure Ledger (V : Type) where
  receipts : BTreeMap String (Receipt V)

/-- The receipts of one UTC day that count against its budget. -/
def Receipt.chargedOn (now : ℕ) (r : Receipt V) : Bool :=
  r.at_ / 86400 = now / 86400 && r.status.isCharged

/-- `exact_recovery`: the restoration of just the archived channel this receipt is about. -/
def Operation.recovers (operation : Operation) (r : Receipt V) : Bool :=
  match operation, r.action.operation with
  | .restoreArchive channel receipt, .archive archived _ =>
    r.status = .verified && receipt = r.action.key && archived = channel && r.observed.isSome
  | _, _ => false

/-- The receipt keeps its target from the operation at this time. -/
def Receipt.holds (operation : Operation) (now : ℕ) (r : Receipt V) : Bool :=
  r.action.operation.target = operation.target && r.status.isCharged && !operation.recovers r &&
    (r.status.isUnresolved || now - r.at_ < targetCooldown)

/-- The key belongs to this action, which has at most been proposed. -/
def Ledger.checkIdentity (ledger : Ledger V) (action : Action) : Except String Unit :=
  match ledger.receipts[action.key]? with
  | none => .ok ()
  | some existing => do
    ensure (existing.action = action) "idempotency key belongs to another request"
    ensure (existing.status = .proposed) "receipt requires review or is already settled"

/-- `Ledger::authorize`. -/
def Ledger.authorize (ledger : Ledger V) (policy : Policy) (action : Action) (now : ℕ) :
    Except String Unit := do
  policy.validate
  ensure (policy.mode = .apply) "policy does not permit execution"
  ensure (action ∈ policy.actions) "action lacks owner policy authority"
  ledger.checkIdentity action
  ensure (countRows ledger.receipts (Receipt.chargedOn now) < policy.dailyLimit)
    "daily structural budget exhausted"
  ensure (¬ (action.operation.isCreation ∧ policy.dailyCreations ≤
      countRows ledger.receipts fun r => r.chargedOn now && r.action.operation.isCreation))
    "daily channel creation budget exhausted"
  ensure (All ledger.receipts fun _ r => r.holds action.operation now = false)
    "target is cooling down or has unresolved work"

end AbbeyBot.CommunityOps
