import Mathlib
import AbbeyBot.PersonalMemory.Recovery

/-! # Mutations and reconciliation

What one member action does to a state, and how a state that was written but never installed is
merged into the one in memory: only what lies between its base and the file is applied, and a denial
that was admitted meanwhile wins over a grant. -/

namespace AbbeyBot.PersonalMemory

open AbbeyBot.Library.OrderedMap AbbeyBot.Library.Result AbbeyBot.Library.Text
open AbbeyBot.Library.Word

variable (C : Codec)

/-! ### Mutations -/

/-- `validate_action`. -/
def validateAction (action : SelfAuthorizedFactAction) (now : ℕ) :
    Except MemoryConsentError Unit := do
  let _ ← SelfAuthorizedFactAction.new action.proof action.expected
  ensure (action.proof.at_ ≠ 0 ∧ action.proof.at_ ≤ now ∧ now - action.proof.at_ ≤ 300) .invalidProof

/-- The key of the subject an action is about. -/
def SelfAuthorizedFactAction.key (action : SelfAuthorizedFactAction) : String :=
  subjectKey action.proof.guild action.proof.subject

/-- `receipt_key`. -/
def receiptKey (guild user text : String) : String :=
  guild ++ separator.toString ++ user ++ separator.toString ++ text

namespace Stores

def setSubject (stores : Stores) (key : String) (s : PersonalMemorySubject) : Stores :=
  { stores with personalMemory := stores.personalMemory.insert key s }

/-- `entry(key).or_default()`. -/
def openSubject (stores : Stores) (key : String) : Stores :=
  stores.setSubject key (stores.personalMemory.getD key default)

/-- The proofs of a subject rewritten, where there is one. -/
def reproof (stores : Stores) (key : String)
    (f : BTreeMap String FactProof → BTreeMap String FactProof) : Stores :=
  { stores with
    personalMemory := stores.personalMemory.modify key fun s => { s with proofs := f s.proofs } }

/-- The fact is taken away, with its receipt and its proof. -/
def forgetFact (stores : Stores) (action : SelfAuthorizedFactAction) (text : String) : Stores :=
  let guild := action.proof.guild
  let user := action.proof.subject
  { stores.reproof action.key (·.erase (C.factKey guild user text)) with
    memory := MemoryBank.dropSupersession (MemoryBank.forget stores.memory guild user text) guild
      user text
    memoryReceipts := stores.memoryReceipts.erase (receiptKey guild user text) }

/-- The proof of the member for the fact. -/
def proveFact (stores : Stores) (action : SelfAuthorizedFactAction) (text : String)
    (authority : FactAuthority) (previous : ℕ) : Stores :=
  let fact := C.factKey action.proof.guild action.proof.subject text
  stores.reproof action.key (·.insert fact ⟨authority, action.proof, fact, previous⟩)

/-- The users with the fact; it may be there already. -/
def learn (stores : Stores) (action : SelfAuthorizedFactAction) (text : String) :
    Except MemoryConsentError MemoryBank :=
  let guild := action.proof.guild
  let user := action.proof.subject
  if text ∈ MemoryBank.facts stores.memory guild user then .ok stores.memory
  else
    let (memory, stored) := MemoryBank.remember stores.memory guild user text action.proof.at_
    if stored then .ok memory else .error .bounds

/-- The fact is stored, with its receipt and its proof. -/
def rememberFact (stores : Stores) (action : SelfAuthorizedFactAction) (text : String)
    (receipt : Option String) (previous : ℕ) : Except MemoryConsentError Stores := do
  let memory ← stores.learn action text
  let key := receiptKey action.proof.guild action.proof.subject text
  return { stores.proveFact C action text .selfAuthored previous with
    memory := memory
    memoryReceipts := match receipt with
      | some digest => stores.memoryReceipts.insert key digest
      | none => stores.memoryReceipts }

/-- The text and the receipt that are remembered. -/
def checkText (text : String) (receipt : Option String) : Except MemoryConsentError String := do
  let exact ← (validatedFact text).mapError fun _ => .bounds
  ensure (∀ digest ∈ receipt, isLowerDigest digest = true) .invalidProof
  return exact

/-- What the mutation does to the state, where the subject has the revision `previous`. -/
def mutate (stores : Stores) (action : SelfAuthorizedFactAction) (s : PersonalMemorySubject) :
    Mutation → Except MemoryConsentError Stores
  | .choice choice => .ok (stores.setSubject action.key { s with choice := choice })
  | .confirm fact exact => do
    ensure (exact ∈ MemoryBank.facts stores.memory action.proof.guild action.proof.subject ∧
      C.factKey action.proof.guild action.proof.subject exact = fact) .unverifiedFact
    return stores.proveFact C action exact .memberConfirmed s.revision
  | .remember text receipt => do
    let exact ← checkText text receipt
    stores.rememberFact C action exact receipt s.revision
  | .correct old text receipt => do
    let exact ← checkText text receipt
    ensure (old ∈ MemoryBank.facts stores.memory action.proof.guild action.proof.subject) .notFound
    (stores.forgetFact C action old).rememberFact C action exact receipt s.revision
  | .forget exact => do
    ensure (exact ∈ MemoryBank.facts stores.memory action.proof.guild action.proof.subject) .notFound
    return stores.forgetFact C action exact

/-- `apply_mutation`; the action is put on record. -/
def applyMutation (stores : Stores) (action : SelfAuthorizedFactAction) (mutation : Mutation) :
    Except MemoryConsentError Stores := do
  let s ← orErr stores.personalMemory[action.key]? .persistence
  let next ← stores.mutate C action s mutation
  return { next with actions := stores.actions ++ [⟨action.proof, mutation⟩] }

end Stores

/-! ### Reconciliation -/

/-- An image that was written and not installed: the state it was made from, and its digest. -/
structure UninstalledPublication where
  base : Stores
  identity : Option String
  deriving DecidableEq

/-- `merge_rows`. -/
def mergeRows {T : Type} [DecidableEq T] (live before after : List T) : List T :=
  after.foldl (fun rows row => if row ∉ before ∧ row ∉ rows then rows ++ [row] else rows)
    (live.filter fun row => row ∉ before ∨ row ∈ after)

/-- One key of `merge_map`: what is in memory and was changed there wins. -/
def mergeKey {T : Type} [DecidableEq T] (before after : BTreeMap String T)
    (live : BTreeMap String T) (key : String) : BTreeMap String T :=
  if live[key]? = before[key]? ∧ before[key]? ≠ after[key]? then
    match after[key]? with
    | some value => live.insert key value
    | none => live.erase key
  else live

/-- `merge_map`. -/
def mergeMap {T : Type} [DecidableEq T] (live before after : BTreeMap String T) :
    BTreeMap String T :=
  (before.keys ++ after.keys).dedup.foldl (mergeKey before after) live

section Tables

variable {T : Type} [DecidableEq T] {live before after : BTreeMap String T}

theorem mergeKey_self (key : String) : (mergeKey before after live key)[key]? =
    if live[key]? = before[key]? then after[key]? else live[key]? := by
  unfold mergeKey
  by_cases hsame : live[key]? = before[key]?
  · rw [if_pos hsame]
    by_cases hchange : before[key]? ≠ after[key]?
    · rw [if_pos ⟨hsame, hchange⟩]
      cases hafter : after[key]? with
      | some v => exact Std.ExtTreeMap.getElem?_insert_self
      | none => simp
    · rw [not_not] at hchange
      rw [if_neg fun h => h.2 hchange, hsame, hchange]
  · rw [if_neg hsame, if_neg fun h => hsame h.1]

theorem mergeKey_ne {key k : String} (hk : key ≠ k) :
    (mergeKey before after live key)[k]? = live[k]? := by
  unfold mergeKey
  split_ifs
  · cases after[key]? with
    | some v => exact (getElem?_insert).trans (if_neg hk)
    | none =>
      have hne : compare key k ≠ .eq := fun h => hk (Std.LawfulEqCmp.eq_of_compare h)
      simp [Std.ExtTreeMap.getElem?_erase, hne]
  · rfl

theorem getElem?_foldl_mergeKey {keys : List String} (hkeys : keys.Nodup) (k : String) :
    (keys.foldl (mergeKey before after) live)[k]? =
      if k ∈ keys then (if live[k]? = before[k]? then after[k]? else live[k]?) else live[k]? := by
  induction keys generalizing live with
  | nil => rfl
  | cons key keys ih =>
    rw [List.nodup_cons] at hkeys
    rw [List.foldl_cons, ih hkeys.2]
    by_cases hk : key = k
    · subst hk
      rw [if_neg hkeys.1, if_pos List.mem_cons_self, mergeKey_self]
    · rw [mergeKey_ne hk]
      by_cases hmem : k ∈ keys
      · rw [if_pos hmem, if_pos (List.mem_cons_of_mem _ hmem)]
      · rw [if_neg hmem, if_neg (List.not_mem_cons_of_ne_of_not_mem (fun h => hk h.symm) hmem)]

/-- A key of a merge: what was changed in memory wins. -/
theorem getElem?_mergeMap (k : String) : (mergeMap live before after)[k]? =
    if live[k]? = before[k]? then after[k]? else live[k]? := by
  unfold mergeMap
  rw [getElem?_foldl_mergeKey (List.nodup_dedup _)]
  split_ifs with hmem hsame
  · rfl
  · rfl
  · rw [List.mem_dedup, List.mem_append, Std.ExtTreeMap.mem_keys, Std.ExtTreeMap.mem_keys,
      not_or] at hmem
    rw [‹live[k]? = before[k]?›, Std.ExtTreeMap.getElem?_eq_none hmem.1,
      Std.ExtTreeMap.getElem?_eq_none hmem.2]
  · rfl

/-- Where nothing was changed in memory, the merge is what was written. -/
theorem mergeMap_base : mergeMap before before after = after := by
  refine Std.ExtTreeMap.ext_getElem? fun k => ?_
  rw [getElem?_mergeMap, if_pos rfl]

end Tables

/-- One user of `rebase`. -/
def mergeUser (base disk live : MemoryBank) (key : String) : Except MemoryConsentError MemoryBank :=
  let before := base.getD key default
  let after := disk.getD key default
  if before.facts = after.facts ∧ before.pendingSupersessions = after.pendingSupersessions then
    .ok live
  else do
    let target := live.getD key default
    let facts := mergeRows target.facts before.facts after.facts
    ensure (facts.length ≤ maxFacts) .bounds
    return live.insert key
      { facts := facts
        updatedAt := max target.updatedAt after.updatedAt
        pendingSupersessions := mergeRows target.pendingSupersessions before.pendingSupersessions
          after.pendingSupersessions }

/-- One subject of `rebase`: a denial that was admitted meanwhile wins. -/
def mergeSubject (target before published : PersonalMemorySubject) : PersonalMemorySubject :=
  if target = before then published
  else
    let denied := target.choice = .off ∨ published.choice = .off
    { schema := max target.schema published.schema
      revision := max target.revision published.revision
      consentEpoch := max target.consentEpoch published.consentEpoch
      choice := if denied then .off else target.choice
      policyVersion := max target.policyVersion published.policyVersion
      proofs := mergeMap target.proofs before.proofs published.proofs
      outcomes := mergeMap target.outcomes before.outcomes published.outcomes
      activationPending :=
        if denied then false else target.activationPending || published.activationPending }

/-- The exposure of `rebase`. -/
def mergeExposure (live disk : ExposureState) : ExposureState :=
  let receipts := disk.receipts.foldl
    (fun rows row => if row ∉ rows then rows ++ [row] else rows) live.receipts
  let sorted := receipts.insertionSort fun a b =>
    a.epoch < b.epoch ∨ (a.epoch = b.epoch ∧ a.cutoff ≤ b.cutoff)
  { schema := max live.schema disk.schema
    epoch := max live.epoch disk.epoch
    cutoff := max live.cutoff disk.cutoff
    scopeEpochs := disk.scopeEpochs.toList.foldl
      (fun m (key, epoch) => m.insert key (max (m.getD key 0) epoch)) live.scopeEpochs
    receipts := sorted.drop (sorted.length - 128) }

namespace UninstalledPublication

/-- `matches`. -/
def Matches (known : UninstalledPublication) (live disk : Stores) : Prop :=
  known.identity ≠ none ∧ known.identity = disk.canonicalBase ∧
    known.base.canonicalBase = live.canonicalBase

instance (known : UninstalledPublication) (live disk : Stores) : Decidable (known.Matches live disk) :=
  inferInstanceAs (Decidable (_ ∧ _))

/-- The subjects of `rebase`, before their proofs are checked against the facts. -/
def subjects (known : UninstalledPublication) (live disk : Stores) :
    BTreeMap String PersonalMemorySubject :=
  disk.personalMemory.toList.foldl (fun m (key, published) => m.insert key
    (mergeSubject (m.getD key default) (known.base.personalMemory.getD key default) published))
    live.personalMemory

/-- `rebase`. The actions on record are those of `live` and what lies between the base and `disk`. -/
def rebase (known : UninstalledPublication) (live disk : Stores) :
    Except MemoryConsentError Stores := do
  let memory ← (known.base.memory.keys ++ disk.memory.keys).dedup.foldlM
    (mergeUser known.base.memory disk.memory) live.memory
  let facts := MemoryBank.factRecords memory
  let factKeys := facts.map fun f => C.factKey f.guild f.user f.text
  let receiptKeys := facts.map fun f => receiptKey f.guild f.user f.text
  let next : Stores :=
    { memory := memory
      memoryReceipts := (mergeMap live.memoryReceipts known.base.memoryReceipts
        disk.memoryReceipts).filter fun key _ => key ∈ receiptKeys
      personalMemory := (known.subjects live disk).map fun _ s =>
        { s with proofs := s.proofs.filter fun key _ => key ∈ factKeys }
      exposure := mergeExposure live.exposure disk.exposure
      canonicalBase := disk.canonicalBase
      actions := live.actions ++ disk.actions.drop known.base.actions.length }
  next.validate C
  return next

end UninstalledPublication

/-- `memory_rows`: the fact rows whatever their order. -/
def memoryRows (stores : Stores) : Multiset MemoryFact := MemoryBank.factRecords stores.memory

/-- `install_fact_rows`. -/
def installFactRows (live candidate : MemoryBank) : MemoryBank :=
  candidate.toList.foldl (fun m (scope, source) => m.insert scope
    { source with updatedAt := max (m.getD scope default).updatedAt source.updatedAt }) live

end AbbeyBot.PersonalMemory
