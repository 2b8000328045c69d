import Mathlib
import AbbeyBot.PersonalMemory.Reconciliation

/-! # The rebase of an image

The laws of `rebase`, from those of its parts; and the images on which a second merge does not end
where the first did. -/

namespace AbbeyBot.PersonalMemory

open AbbeyBot.Library.OrderedMap AbbeyBot.Library.Result AbbeyBot.Library.Text

/-! ### The whole image -/

variable (C : Codec)

/-- The keys of the proofs that facts can have. -/
def factKeys (m : MemoryBank) : List String :=
  (MemoryBank.factRecords m).map fun f => C.factKey f.guild f.user f.text

/-- The keys of the receipts that facts can have. -/
def receiptKeys (m : MemoryBank) : List String :=
  (MemoryBank.factRecords m).map fun f => receiptKey f.guild f.user f.text

/-- Proofs and receipts are only those of stored facts. -/
structure Payload.Anchored (p : Payload) : Prop where
  proofs : ∀ (key : String) (s : PersonalMemorySubject), p.personalMemory[key]? = some s →
    ∀ digest ∈ s.proofs, digest ∈ factKeys C p.memory
  receipts : ∀ digest ∈ p.memoryReceipts, digest ∈ receiptKeys p.memory

/-- Every subject of the base is kept, and no counter is lowered. -/
structure Payload.Advances (base p : Payload) : Prop where
  subjects : ∀ (key : String) (b : PersonalMemorySubject), base.personalMemory[key]? = some b →
    ∃ s : PersonalMemorySubject, p.personalMemory[key]? = some s ∧ b.revision ≤ s.revision ∧
      b.consentEpoch ≤ s.consentEpoch
  epoch : base.exposure.epoch ≤ p.exposure.epoch
  cutoff : base.exposure.cutoff ≤ p.exposure.cutoff
  scopes : ∀ (key : String) (e : ℕ), base.exposure.scopeEpochs[key]? = some e →
    ∃ e' : ℕ, p.exposure.scopeEpochs[key]? = some e' ∧ e ≤ e'

/-- No choice of the image is Off with an activation pending, what was changed in memory has a greater
revision than in the base, and receipts differ in their epoch or their cutoff. -/
structure Settled (base live disk : Stores) : Prop where
  resting : ∀ (key : String) (s : PersonalMemorySubject), disk.personalMemory[key]? = some s →
    s.Resting
  advanced : ∀ key : String,
    live.personalMemory.getD key default ≠ base.personalMemory.getD key default →
      (base.personalMemory.getD key default).revision <
        (live.personalMemory.getD key default).revision
  receipts : DistinctReceipts (live.exposure.receipts ++ disk.exposure.receipts)

variable {C} {known : UninstalledPublication} {live disk next : Stores}

/-- What a merge is made of. -/
structure Rebased (C : Codec) (known : UninstalledPublication) (live disk next : Stores) : Prop where
  memory : ∀ key : String, next.memory[key]? = mergedUser known.base.memory disk.memory live.memory key
  fits : ∀ key, FitsUser known.base.memory disk.memory live.memory key
  receipts : next.memoryReceipts = (mergeMap live.memoryReceipts known.base.memoryReceipts
    disk.memoryReceipts).filter fun key _ => key ∈ receiptKeys next.memory
  subjects : next.personalMemory = (known.subjects live disk).map fun _ s =>
    s.keepProofs (factKeys C next.memory)
  exposure : next.exposure = mergeExposure live.exposure disk.exposure
  canonicalBase : next.canonicalBase = disk.canonicalBase
  actions : next.actions = live.actions ++ disk.actions.drop known.base.actions.length
  valid : next.validate C = .ok ()

theorem rebase_eq_ok : known.rebase C live disk = .ok next ↔ Rebased C known live disk next := by
  unfold UninstalledPublication.rebase
  simp only [bind_eq_ok, exists_unit, pure_eq_ok, mergeUsers_eq_ok]
  constructor
  · rintro ⟨memory, ⟨hfits, hmemory⟩, hvalid, rfl⟩
    exact ⟨hmemory, hfits, rfl, rfl, rfl, rfl, rfl, hvalid⟩
  · rintro ⟨hmemory, hfits, hreceipts, hsubjects, hexposure, hbase, hactions, hvalid⟩
    obtain ⟨⟨memory, receipts, subjects, exposure⟩, base, actions⟩ := next
    dsimp only at hmemory hreceipts hsubjects hexposure hbase hactions
    rw [hreceipts, hsubjects, hexposure, hbase, hactions] at hvalid ⊢
    exact ⟨memory, ⟨hfits, hmemory⟩, hvalid, rfl⟩

/-- The laws of a merge: the facts are what both sides kept and what either added; what memory did not
change is as in the image; a denial on either side wins over a change in memory; a choice is On only
where it is On in the image, or the image has none; no counter is lowered; proofs and receipts are
those of stored facts. -/
structure Reconciled (C : Codec) (base live disk next : Stores) : Prop where
  facts : ∀ key fact : String, fact ∈ factsAt next.memory key ↔
    (fact ∈ factsAt base.memory key ∧ fact ∈ factsAt live.memory key ∧
      fact ∈ factsAt disk.memory key) ∨
    (fact ∈ factsAt live.memory key ∧ fact ∉ factsAt base.memory key) ∨
    (fact ∈ factsAt disk.memory key ∧ fact ∉ factsAt base.memory key)
  published : live.toPayload = base.toPayload →
    (∀ key fact : String, fact ∈ factsAt next.memory key ↔ fact ∈ factsAt disk.memory key) ∧
      next.personalMemory = disk.personalMemory ∧ next.memoryReceipts = disk.memoryReceipts
  denied : ∀ (key : String) (s : PersonalMemorySubject), disk.personalMemory[key]? = some s →
    live.personalMemory.getD key default ≠ base.personalMemory.getD key default →
    (live.personalMemory.getD key default).choice = .off ∨ s.choice = .off →
    ∃ s' : PersonalMemorySubject, next.personalMemory[key]? = some s' ∧ s'.choice = .off ∧
      s'.activationPending = false
  apart : ∀ key : String, disk.personalMemory[key]? = none → next.personalMemory[key]? =
    live.personalMemory[key]?.map fun s : PersonalMemorySubject =>
      s.keepProofs (factKeys C next.memory)
  granted : ∀ (key : String) (s' : PersonalMemorySubject), next.personalMemory[key]? = some s' →
    s'.choice = .on →
    (∃ s : PersonalMemorySubject, disk.personalMemory[key]? = some s ∧ s.choice = .on) ∨
      (disk.personalMemory[key]? = none ∧
        ∃ s : PersonalMemorySubject, live.personalMemory[key]? = some s ∧ s.choice = .on)
  advances : live.Advances next.toPayload
  anchored : next.Anchored C

namespace Rebased

/-- A subject after a merge. -/
theorem getElem?_personalMemory (h : Rebased C known live disk next) (key : String) :
    next.personalMemory[key]? =
      (mergedSubject known.base.toPayload live.toPayload disk.toPayload key).map
        fun s : PersonalMemorySubject => s.keepProofs (factKeys C next.memory) := by
  rw [h.subjects, Std.ExtTreeMap.getElem?_map, getElem?_subjects]

theorem row_some (h : Rebased C known live disk next) {key : String} {s : PersonalMemorySubject}
    (hdisk : disk.personalMemory[key]? = some s) : next.personalMemory[key]? =
      some ((mergeSubject (live.personalMemory.getD key default)
        (known.base.personalMemory.getD key default) s).keepProofs (factKeys C next.memory)) := by
  rw [h.getElem?_personalMemory, mergedSubject_some hdisk, Option.map_some]

theorem row_none (h : Rebased C known live disk next) {key : String}
    (hdisk : disk.personalMemory[key]? = none) : next.personalMemory[key]? =
      live.personalMemory[key]?.map fun s : PersonalMemorySubject =>
        s.keepProofs (factKeys C next.memory) := by
  rw [h.getElem?_personalMemory, mergedSubject_none hdisk]

/-- **Facts**: what both sides kept, and what either side added. -/
theorem facts (h : Rebased C known live disk next) (key fact : String) :
    fact ∈ factsAt next.memory key ↔
      (fact ∈ factsAt known.base.memory key ∧ fact ∈ factsAt live.memory key ∧
        fact ∈ factsAt disk.memory key) ∨
      (fact ∈ factsAt live.memory key ∧ fact ∉ factsAt known.base.memory key) ∨
      (fact ∈ factsAt disk.memory key ∧ fact ∉ factsAt known.base.memory key) :=
  mem_factsAt_merged h.memory key fact

/-- **Proofs** remain only for stored facts, and receipts. -/
theorem anchored (h : Rebased C known live disk next) : next.Anchored C where
  proofs key s hs digest hdigest := by
    rw [h.subjects, Std.ExtTreeMap.getElem?_map, Option.map_eq_some_iff] at hs
    obtain ⟨s', -, rfl⟩ := hs
    obtain ⟨p, hp⟩ := mem_iff.mp hdigest
    have hp : (s'.proofs.filter fun key _ => key ∈ factKeys C next.memory)[digest]? = some p := hp
    rw [getElem?_filter_key] at hp
    by_contra hnot
    rw [if_neg hnot] at hp
    cases hp
  receipts digest hdigest := by
    obtain ⟨r, hr⟩ := mem_iff.mp hdigest
    rw [h.receipts, getElem?_filter_key] at hr
    by_contra hnot
    rw [if_neg hnot] at hr
    cases hr

/-- What is not changed in memory is as in the image. -/
theorem published (h : Rebased C known live disk next) (hbase : live.toPayload = known.base.toPayload)
    (hdisk : disk.Anchored C) (hadvances : known.base.Advances disk.toPayload) :
    (∀ key fact, fact ∈ factsAt next.memory key ↔ fact ∈ factsAt disk.memory key) ∧
      next.personalMemory = disk.personalMemory ∧ next.memoryReceipts = disk.memoryReceipts := by
  have hmemory : live.memory = known.base.memory := congrArg Payload.memory hbase
  have hlive : live.personalMemory = known.base.personalMemory :=
    congrArg Payload.personalMemory hbase
  have hreceipts : live.memoryReceipts = known.base.memoryReceipts :=
    congrArg Payload.memoryReceipts hbase
  have hfacts : ∀ key fact, fact ∈ factsAt next.memory key ↔ fact ∈ factsAt disk.memory key := by
    intro key fact
    rw [h.facts key fact, hmemory]
    tauto
  have hstored : ∀ {g : String → String → String → String} {digest : String},
      digest ∈ (MemoryBank.factRecords disk.memory).map (fun f => g f.guild f.user f.text) →
        digest ∈ (MemoryBank.factRecords next.memory).map (fun f => g f.guild f.user f.text) :=
    mem_map_factRecords fun key fact => (hfacts key fact).mpr
  refine ⟨hfacts, Std.ExtTreeMap.ext_getElem? fun key => ?_,
    Std.ExtTreeMap.ext_getElem? fun key => ?_⟩
  · cases hrow : disk.personalMemory[key]? with
    | none =>
      rw [h.row_none hrow]
      cases hown : live.personalMemory[key]? with
      | none => rfl
      | some own =>
        rw [hlive] at hown
        obtain ⟨s, hs, -⟩ := hadvances.subjects key own hown
        rw [hrow] at hs
        cases hs
    | some s =>
      rw [h.row_some hrow, hlive, mergeSubject, if_pos rfl]
      refine congrArg some (keepProofs_eq_self fun digest hdigest => ?_)
      exact hstored (hdisk.proofs key s hrow digest hdigest)
  · rw [h.receipts, getElem?_filter_key, hreceipts, mergeMap_base]
    split_ifs with hkey
    · rfl
    · refine (Std.ExtTreeMap.getElem?_eq_none fun hmem => hkey ?_).symm
      exact hstored (hdisk.receipts key hmem)

/-- **Choices**: a denial on either side wins over what was changed in memory. -/
theorem denied (h : Rebased C known live disk next) {key : String}
    {s : PersonalMemorySubject} (hdisk : disk.personalMemory[key]? = some s)
    (hchanged : live.personalMemory.getD key default ≠ known.base.personalMemory.getD key default)
    (hoff : (live.personalMemory.getD key default).choice = .off ∨ s.choice = .off) :
    ∃ s', next.personalMemory[key]? = some s' ∧ s'.choice = .off ∧ s'.activationPending = false := by
  refine ⟨_, h.row_some hdisk, ?_⟩
  unfold PersonalMemorySubject.keepProofs mergeSubject
  rw [if_neg hchanged]
  exact ⟨if_pos hoff, if_pos hoff⟩

/-- A choice is On only where it is On in the image, or the image has none. -/
theorem granted (h : Rebased C known live disk next) {key : String} {s' : PersonalMemorySubject}
    (hnext : next.personalMemory[key]? = some s') (hon : s'.choice = .on) :
    (∃ s, disk.personalMemory[key]? = some s ∧ s.choice = .on) ∨
      (disk.personalMemory[key]? = none ∧
        ∃ s, live.personalMemory[key]? = some s ∧ s.choice = .on) := by
  cases hdisk : disk.personalMemory[key]? with
  | none =>
    rw [h.row_none hdisk, Option.map_eq_some_iff] at hnext
    obtain ⟨s, hs, rfl⟩ := hnext
    exact .inr ⟨rfl, s, hs, hon⟩
  | some s =>
    rw [h.row_some hdisk, Option.some_inj] at hnext
    refine .inl ⟨s, rfl, ?_⟩
    subst hnext
    unfold PersonalMemorySubject.keepProofs mergeSubject at hon
    split_ifs at hon with hsame
    · exact hon
    · by_contra hoff
      have hoff : s.choice = .off := by
        cases hs : s.choice with
        | off => rfl
        | on => exact absurd hs hoff
      have hchoice : (if (live.personalMemory.getD key default).choice = .off ∨ s.choice = .off
          then UseChoice.off else (live.personalMemory.getD key default).choice) = .on := hon
      rw [if_pos (.inr hoff)] at hchoice
      cases hchoice

/-- **Counters** are not lowered. -/
theorem advances (h : Rebased C known live disk next)
    (hadvances : known.base.Advances disk.toPayload) : live.Advances next.toPayload where
  subjects key s hs := by
    have hget : live.personalMemory.getD key default = s := by
      rw [Std.ExtTreeMap.getD_eq_getD_getElem?, hs, Option.getD_some]
    cases hdisk : disk.personalMemory[key]? with
    | none =>
      refine ⟨_, (h.row_none hdisk).trans (congrArg _ hs), ?_⟩
      exact ⟨le_refl _, le_refl _⟩
    | some published =>
      refine ⟨_, h.row_some hdisk, ?_⟩
      rw [hget]
      unfold PersonalMemorySubject.keepProofs mergeSubject
      split_ifs with hsame
      · rw [hsame, Std.ExtTreeMap.getD_eq_getD_getElem?]
        cases hbase : known.base.personalMemory[key]? with
        | none => exact ⟨Nat.zero_le _, Nat.zero_le _⟩
        | some b =>
          obtain ⟨s', hs', hrow⟩ := hadvances.subjects key b hbase
          rw [hdisk, Option.some_inj] at hs'
          rwa [hs']
      · exact ⟨le_max_left _ _, le_max_left _ _⟩
  epoch := by
    rw [h.exposure]
    exact le_max_left _ _
  cutoff := by
    rw [h.exposure]
    exact le_max_left _ _
  scopes key e he := by
    rw [h.exposure, getElem?_scopeEpochs]
    cases disk.exposure.scopeEpochs[key]? with
    | none => exact ⟨e, he, le_refl _⟩
    | some epoch =>
      refine ⟨_, rfl, ?_⟩
      rw [Std.ExtTreeMap.getD_eq_getD_getElem?, he]
      exact le_max_left _ _

/-- **Again**: a merge is not changed by another. -/
theorem again (h : Rebased C known live disk next) (hsettled : Settled known.base live disk) :
    ∃ again, known.rebase C next disk = .ok again ∧ again.toPayload = next.toPayload ∧
      again.canonicalBase = next.canonicalBase := by
  refine ⟨{ next with actions := next.actions ++ disk.actions.drop known.base.actions.length },
    rebase_eq_ok.mpr ?_, rfl, rfl⟩
  exact
    { memory := fun key => (mergedUser_idem h.memory key).symm
      fits := fitsUser_merged h.memory h.fits
      receipts := by
        dsimp only
        conv_rhs => rw [h.receipts]
        rw [mergeMap_filter_idem]
        exact h.receipts
      subjects := by
        refine Std.ExtTreeMap.ext_getElem? fun key => ?_
        rw [Std.ExtTreeMap.getElem?_map, getElem?_subjects]
        cases hdisk : disk.personalMemory[key]? with
        | none =>
          rw [mergedSubject_none hdisk]
          dsimp only
          rw [h.row_none hdisk]
          cases live.personalMemory[key]? with
          | none => rfl
          | some s => exact congrArg some (keepProofs_keepProofs s _).symm
        | some s =>
          rw [mergedSubject_some hdisk]
          dsimp only
          rw [Std.ExtTreeMap.getD_eq_getD_getElem?, h.row_some hdisk]
          refine congrArg some (mergeSubject_idem _ ?_ (hsettled.resting key s hdisk)).symm
          exact hsettled.advanced key
      exposure := by
        dsimp only
        rw [h.exposure]
        exact (mergeExposure_idem hsettled.receipts).symm
      canonicalBase := h.canonicalBase
      actions := rfl
      valid := h.valid }

end Rebased

/-- **Reconciliation.** What a merge keeps to; and a second merge changes nothing. Facts are compared
per storage key, the row that a merge works on. A member can have a second row under a legacy key only
in a file: these keys are migrated when it is loaded, before there is anything to merge. -/
theorem rebase_laws (hdisk : disk.Anchored C) (hadvances : known.base.Advances disk.toPayload)
    (h : known.rebase C live disk = .ok next) :
    Reconciled C known.base live disk next ∧
      (Settled known.base live disk →
        ∃ again, known.rebase C next disk = .ok again ∧ again.toPayload = next.toPayload ∧
          again.canonicalBase = next.canonicalBase) := by
  have hrebased := rebase_eq_ok.mp h
  refine ⟨?_, hrebased.again⟩
  exact
    { facts := hrebased.facts
      published := fun hbase => hrebased.published hbase hdisk hadvances
      denied := fun key s hs hchanged hoff => hrebased.denied hs hchanged hoff
      apart := fun key hnone => hrebased.row_none hnone
      granted := fun key s' hs' hon => hrebased.granted hs' hon
      advances := hrebased.advances hadvances
      anchored := hrebased.anchored }

/-! ### Images of one member -/

def mergeCodec : Codec where
  factKey guild user text := guild ++ "/" ++ user ++ "/" ++ text
  request _ _ := ""
  image p := if p.personalMemory.isEmpty then "empty" else "image"
  checksum _ := "sum"
  identity := "directory"
  initialExposure := ""
  metadataSize _ _ := 0
  markerSize _ := 0

/-- The facts of one member, the subject, if there is one, and the receipts of the exposure. -/
def imageOf (facts : List String) (s : Option PersonalMemorySubject)
    (receipts : List ExposureReceipt) : Stores where
  memory := (∅ : BTreeMap String UserMemory).insert (userKey "g" "u") ⟨facts, 1, []⟩
  memoryReceipts := ∅
  personalMemory := match s with
    | some s => (∅ : BTreeMap String PersonalMemorySubject).insert (subjectKey "g" "u") s
    | none => ∅
  exposure := ⟨1, 0, 200, ∅, receipts⟩
  canonicalBase := some "image"
  actions := []

def memberRow (revision : ℕ) (choice : UseChoice) (pending : Bool) : PersonalMemorySubject :=
  ⟨1, revision, 0, choice, 1, ∅, ∅, pending⟩

def mergeOnce (base live disk : Stores) : Option Stores :=
  (UninstalledPublication.rebase mergeCodec ⟨base, some "image"⟩ live disk).toOption

def mergeTwice (base live disk : Stores) : Option Stores := do
  let next ← mergeOnce base live disk
  mergeOnce base next disk

/-- The subject of the member. -/
def Payload.member (p : Payload) : Option PersonalMemorySubject := p.personalMemory[subjectKey "g" "u"]?

theorem getElem?_imageOf (facts : List String) (s : Option PersonalMemorySubject)
    (receipts : List ExposureReceipt) (key : String) :
    (imageOf facts s receipts).personalMemory[key]? = if subjectKey "g" "u" = key then s else none := by
  cases s with
  | none => split_ifs <;> exact Std.ExtTreeMap.getElem?_empty
  | some s =>
    refine (getElem?_insert).trans ?_
    split_ifs
    · rfl
    · exact Std.ExtTreeMap.getElem?_empty

theorem anchored_imageOf {facts : List String} {s : Option PersonalMemorySubject}
    {receipts : List ExposureReceipt} (hproofs : ∀ s' ∈ s, s'.proofs = ∅) :
    (imageOf facts s receipts).Anchored mergeCodec where
  proofs key s' hs' digest hdigest := by
    rw [getElem?_imageOf] at hs'
    split_ifs at hs'
    rw [hproofs s' hs'] at hdigest
    exact absurd hdigest Std.ExtTreeMap.not_mem_empty
  receipts digest hdigest := absurd hdigest Std.ExtTreeMap.not_mem_empty

theorem advances_imageOf {facts facts' : List String} {s s' : Option PersonalMemorySubject}
    {receipts receipts' : List ExposureReceipt}
    (h : ∀ b ∈ s, ∃ b' ∈ s', b.revision ≤ b'.revision ∧ b.consentEpoch ≤ b'.consentEpoch) :
    (imageOf facts s receipts).Advances (imageOf facts' s' receipts').toPayload where
  subjects key b hb := by
    rw [getElem?_imageOf] at hb ⊢
    split_ifs at hb ⊢ with hkey
    exact h b hb
  epoch := le_refl _
  cutoff := le_refl _
  scopes key e he := absurd he (by simp [imageOf])

theorem some_mergeOnce {base live disk next : Stores} (h : mergeOnce base live disk = some next) :
    UninstalledPublication.rebase mergeCodec ⟨base, some "image"⟩ live disk = .ok next := by
  unfold mergeOnce at h
  cases hrebase : UninstalledPublication.rebase mergeCodec ⟨base, some "image"⟩ live disk with
  | ok merged =>
    rw [hrebase] at h
    exact congrArg Except.ok (Option.some.inj h)
  | error e =>
    rw [hrebase] at h
    cases h

theorem receipts_imageOf (facts : List String) (s : Option PersonalMemorySubject)
    (receipts : List ExposureReceipt) : (imageOf facts s receipts).exposure.receipts = receipts := rfl

theorem factsAt_imageOf (facts : List String) (s : Option PersonalMemorySubject)
    (receipts : List ExposureReceipt) (key : String) : factsAt (imageOf facts s receipts).memory key =
      if userKey "g" "u" = key then facts else [] := by
  unfold factsAt imageOf
  dsimp only
  rw [Std.ExtTreeMap.getD_eq_getD_getElem?, getElem?_insert]
  split_ifs
  · rfl
  · rw [Std.ExtTreeMap.getElem?_empty]
    rfl

/-- The metadata is valid, no fact is there twice, and proofs and receipts are those of facts. -/
structure Payload.Kept (C : Codec) (p : Payload) : Prop where
  valid : p.validate C = .ok ()
  distinct : ∀ key : String, (factsAt p.memory key).Nodup
  anchored : p.Anchored C

theorem kept_imageOf {facts : List String} {s : Option PersonalMemorySubject}
    {receipts : List ExposureReceipt} (hfacts : facts.Nodup) (hproofs : ∀ s' ∈ s, s'.proofs = ∅)
    (hvalid : (imageOf facts s receipts).validate mergeCodec = .ok ()) :
    (imageOf facts s receipts).Kept mergeCodec where
  valid := hvalid
  distinct key := by
    rw [factsAt_imageOf]
    split_ifs
    · exact hfacts
    · exact List.nodup_nil
  anchored := anchored_imageOf hproofs

/-- The member turned the use Off and had a fact forgotten; the image lags behind. -/
theorem denied_merge : ∃ next, mergeOnce (imageOf ["tea", "milk"] none [])
      (imageOf ["tea", "cake"] (some (memberRow 2 .off false)) [])
      (imageOf ["tea", "milk", "rum"] (some (memberRow 1 .on true)) []) = some next ∧
    factsAt next.memory (userKey "g" "u") = ["tea", "cake", "rum"] ∧
    Reconciled mergeCodec (imageOf ["tea", "milk"] none [])
      (imageOf ["tea", "cake"] (some (memberRow 2 .off false)) [])
      (imageOf ["tea", "milk", "rum"] (some (memberRow 1 .on true)) []) next ∧
    ∃ again, mergeOnce (imageOf ["tea", "milk"] none []) next
      (imageOf ["tea", "milk", "rum"] (some (memberRow 1 .on true)) []) = some again ∧
        again.toPayload = next.toPayload := by
  set base := imageOf ["tea", "milk"] none [] with hbase
  set live := imageOf ["tea", "cake"] (some (memberRow 2 .off false)) [] with hlive
  set disk := imageOf ["tea", "milk", "rum"] (some (memberRow 1 .on true)) [] with hdisk
  have hfacts : (mergeOnce base live disk).map (fun n => factsAt n.memory (userKey "g" "u")) =
      some ["tea", "cake", "rum"] := by decide +kernel
  obtain ⟨next, hnext, hrows⟩ := Option.map_eq_some_iff.mp hfacts
  have hanchored : disk.Anchored mergeCodec := anchored_imageOf (by simp [memberRow])
  have hadvances : base.Advances disk.toPayload := advances_imageOf (by simp)
  have hlaws := rebase_laws hanchored hadvances (some_mergeOnce hnext)
  have hsettled : Settled base live disk :=
    { resting := fun key s hs => by
        rw [hdisk, getElem?_imageOf] at hs
        split_ifs at hs
        obtain rfl := Option.some.inj hs
        exact fun hoff => absurd hoff (by decide)
      advanced := fun key hchanged => by
        rw [hlive, hbase, Std.ExtTreeMap.getD_eq_getD_getElem?, Std.ExtTreeMap.getD_eq_getD_getElem?,
          getElem?_imageOf, getElem?_imageOf] at hchanged ⊢
        split_ifs at hchanged ⊢
        · decide
        · exact absurd rfl hchanged
      receipts := by
        rw [hlive, hdisk]
        intro a ha
        exact absurd ha List.not_mem_nil }
  obtain ⟨again, hagain, hsame, -⟩ := hlaws.2 hsettled
  refine ⟨next, hnext, hrows, hlaws.1, again, ?_, hsame⟩
  unfold mergeOnce
  rw [hagain]
  rfl

/-! ### Where a merge is not settled -/

theorem mem_mergedReceipts {live disk : List ExposureReceipt} {r : ExposureReceipt}
    (h : r ∈ mergedReceipts live disk) : r ∈ live ++ disk := by
  obtain ⟨added, hadded, hnew, -⟩ := pushedReceipts_eq live disk
  rw [mergedReceipts_eq rfl] at h
  have hmem := (List.mem_insertionSort _).mp (List.mem_of_mem_drop h)
  rw [hadded] at hmem
  rcases List.mem_append.mp hmem with hmem | hmem
  · exact List.mem_append_left _ hmem
  · exact List.mem_append_right _ (hnew r hmem).1

theorem length_mergedReceipts (live disk : List ExposureReceipt) :
    (mergedReceipts live disk).length ≤ 128 := by
  rw [mergedReceipts_eq rfl, List.length_drop]
  omega

/-- The receipts of an image are within the bounds. -/
def FitReceipts (receipts : List ExposureReceipt) : Prop :=
  ∀ r ∈ receipts, isLowerDigest r.requestDigest = true ∧ r.epoch = 0 ∧ r.cutoff ≤ 200

theorem validate_imageOf {receipts : List ExposureReceipt} (hcount : receipts.length ≤ 128)
    (hfit : FitReceipts receipts) : (imageOf [] none receipts).validate mergeCodec = .ok () := by
  have hrows : ∀ r ∈ receipts, isLowerDigest r.requestDigest = true ∧ r.epoch ≤ 0 ∧
      r.cutoff ≤ 200 := fun r hr => ⟨(hfit r hr).1, (hfit r hr).2.1.le, (hfit r hr).2.2⟩
  have hnone : All (∅ : BTreeMap String ℕ) fun key epoch =>
      validSubjectKey key = true ∧ epoch ≤ 0 := all_iff.mpr fun key v hv => by simp at hv
  unfold Payload.validate validateMetadata imageOf
  simp only [bind_eq_ok, ensure_eq_ok, exists_unit]
  exact ⟨⟨by decide, by decide, by decide, by decide, hcount, hnone, hrows⟩, Nat.zero_le _, rfl⟩

theorem mergeOnce_receipts {base live disk : List ExposureReceipt} (hlive : FitReceipts live)
    (hdisk : FitReceipts disk) : mergeOnce (imageOf [] none base) (imageOf [] none live)
      (imageOf [] none disk) = some (imageOf [] none (mergedReceipts live disk)) := by
  have hfit : FitReceipts (mergedReceipts live disk) := fun r hr =>
    (List.mem_append.mp (mem_mergedReceipts hr)).elim (hlive r) (hdisk r)
  have hrebase : UninstalledPublication.rebase mergeCodec ⟨imageOf [] none base, some "image"⟩
      (imageOf [] none live) (imageOf [] none disk) =
        .ok (imageOf [] none (mergedReceipts live disk)) := by
    refine rebase_eq_ok.mpr ?_
    exact
      { memory := fun key => (if_pos ⟨rfl, rfl⟩).symm
        fits := fun key => .inl ⟨rfl, rfl⟩
        receipts := Std.ExtTreeMap.ext_getElem? fun key => by
          rw [getElem?_filter_key]
          unfold imageOf
          dsimp only
          rw [mergeMap_base]
          split_ifs <;> simp
        subjects := Std.ExtTreeMap.ext_getElem? fun key => by
          have hnone : ∀ receipts, (imageOf [] none receipts).personalMemory[key]? = none :=
            fun receipts => Std.ExtTreeMap.getElem?_empty
          rw [Std.ExtTreeMap.getElem?_map, getElem?_subjects, mergedSubject_none (hnone disk),
            hnone, hnone]
          rfl
        exposure := by
          have hscopes : (mergeExposure (imageOf [] none live).exposure
              (imageOf [] none disk).exposure).scopeEpochs = ∅ :=
            Std.ExtTreeMap.ext_getElem? fun key => by
              rw [getElem?_scopeEpochs]
              simp [imageOf]
          have hreceipts := receipts_mergeExposure (imageOf [] none live).exposure
            (imageOf [] none disk).exposure
          unfold mergeExposure at hscopes hreceipts ⊢
          dsimp only at hscopes hreceipts ⊢
          rw [hscopes, hreceipts]
          rfl
        canonicalBase := (rfl : some "image" = some "image")
        actions := (rfl : ([] : List MemberAction) = [])
        valid := validate_imageOf (length_mergedReceipts live disk) hfit }
  unfold mergeOnce
  rw [hrebase]
  rfl

def tiedDigest (c : Char) : String := String.ofList (List.replicate 64 c)

/-- Two receipts of one epoch and one cutoff, and as many others as there is room for. -/
def tiedReceipts : List ExposureReceipt :=
  ⟨0, 0, tiedDigest 'a'⟩ :: ⟨0, 0, tiedDigest 'b'⟩ ::
    (List.range 126).map fun i => ⟨0, i + 1, tiedDigest 'a'⟩

/-- The first of them, and a new one. -/
def newReceipts : List ExposureReceipt := [⟨0, 0, tiedDigest 'a'⟩, ⟨0, 127, tiedDigest 'a'⟩]

theorem fit_tiedReceipts : FitReceipts tiedReceipts := by
  have ha : isLowerDigest (tiedDigest 'a') = true := by decide
  have hb : isLowerDigest (tiedDigest 'b') = true := by decide
  intro r hr
  rcases List.mem_cons.mp hr with rfl | hr
  · exact ⟨ha, rfl, by decide⟩
  rcases List.mem_cons.mp hr with rfl | hr
  · exact ⟨hb, rfl, by decide⟩
  obtain ⟨i, hi, rfl⟩ := List.mem_map.mp hr
  rw [List.mem_range] at hi
  exact ⟨ha, rfl, by dsimp only; omega⟩

theorem fit_newReceipts : FitReceipts newReceipts := by
  have ha : isLowerDigest (tiedDigest 'a') = true := by decide
  intro r hr
  rcases List.mem_cons.mp hr with rfl | hr
  · exact ⟨ha, rfl, by decide⟩
  · obtain rfl := List.mem_singleton.mp hr
    exact ⟨ha, rfl, by decide⟩

/-- Three images as a merge is given them. -/
structure Payload.Premises (before ours theirs : Payload) : Prop where
  base : before.Kept mergeCodec
  live : ours.Kept mergeCodec
  disk : theirs.Kept mergeCodec
  ahead : before.Advances ours
  published : before.Advances theirs

/-- The subject of the member after a merge. -/
def mergedMember (merged : Option Stores) : Option PersonalMemorySubject :=
  merged.bind (·.member)

theorem premises_imageOf {base live disk : Option PersonalMemorySubject}
    {receipts receipts' receipts'' : List ExposureReceipt}
    (hproofs : ∀ s ∈ [base, live, disk], ∀ s' ∈ s, s'.proofs = ∅)
    (hlive : ∀ b ∈ base, ∃ b' ∈ live, b.revision ≤ b'.revision ∧ b.consentEpoch ≤ b'.consentEpoch)
    (hdisk : ∀ b ∈ base, ∃ b' ∈ disk, b.revision ≤ b'.revision ∧ b.consentEpoch ≤ b'.consentEpoch)
    (hvalid : (imageOf [] base receipts).validate mergeCodec = .ok () ∧
      (imageOf [] live receipts').validate mergeCodec = .ok () ∧
      (imageOf [] disk receipts'').validate mergeCodec = .ok ()) :
    (imageOf [] base receipts).Premises (imageOf [] live receipts').toPayload
      (imageOf [] disk receipts'').toPayload where
  base := kept_imageOf List.nodup_nil (hproofs base (by simp)) hvalid.1
  live := kept_imageOf List.nodup_nil (hproofs live (by simp)) hvalid.2.1
  disk := kept_imageOf List.nodup_nil (hproofs disk (by simp)) hvalid.2.2
  ahead := advances_imageOf hlive
  published := advances_imageOf hdisk

/-- An image with the subject only. -/
def imageOfMember (s : Option PersonalMemorySubject) : Stores := imageOf [] s []

/-- A denial that the image lacks keeps its pending activation; a default row in memory is no change;
and a second merge changes the result, where an Off of the image has an activation pending, where a row
was changed under the same revision, and where one of two receipts of one epoch and cutoff was dropped. -/
theorem merges_unsettled :
    ((imageOfMember none).Premises (imageOfMember (some (memberRow 0 .off true))).toPayload
        (imageOfMember none).toPayload ∧
      mergedMember (mergeOnce (imageOfMember none) (imageOfMember (some (memberRow 0 .off true)))
        (imageOfMember none)) = some (memberRow 0 .off true)) ∧
    ((imageOfMember none).Premises (imageOfMember (some default)).toPayload
        (imageOfMember (some (memberRow 0 .on false))).toPayload ∧
      mergedMember (mergeOnce (imageOfMember none) (imageOfMember (some default))
        (imageOfMember (some (memberRow 0 .on false)))) = some (memberRow 0 .on false)) ∧
    ((imageOfMember none).Premises (imageOfMember none).toPayload
        (imageOfMember (some (memberRow 0 .off true))).toPayload ∧
      mergedMember (mergeOnce (imageOfMember none) (imageOfMember none)
        (imageOfMember (some (memberRow 0 .off true)))) = some (memberRow 0 .off true) ∧
      mergedMember (mergeTwice (imageOfMember none) (imageOfMember none)
        (imageOfMember (some (memberRow 0 .off true)))) = some (memberRow 0 .off false)) ∧
    ((imageOfMember (some (memberRow 0 .off false))).Premises
        (imageOfMember (some (memberRow 0 .off true))).toPayload
        (imageOfMember (some (memberRow 0 .on false))).toPayload ∧
      mergedMember (mergeOnce (imageOfMember (some (memberRow 0 .off false)))
        (imageOfMember (some (memberRow 0 .off true)))
        (imageOfMember (some (memberRow 0 .on false)))) = some (memberRow 0 .off false) ∧
      mergedMember (mergeTwice (imageOfMember (some (memberRow 0 .off false)))
        (imageOfMember (some (memberRow 0 .off true)))
        (imageOfMember (some (memberRow 0 .on false)))) = some (memberRow 0 .on false)) ∧
    ((imageOf [] none []).Premises (imageOf [] none tiedReceipts).toPayload
        (imageOf [] none newReceipts).toPayload ∧
      mergeOnce (imageOf [] none []) (imageOf [] none tiedReceipts) (imageOf [] none newReceipts) ≠
        mergeTwice (imageOf [] none []) (imageOf [] none tiedReceipts)
          (imageOf [] none newReceipts)) := by
  refine ⟨⟨?_, by decide⟩, ⟨?_, by decide⟩, ⟨?_, by decide, by decide⟩,
    ⟨?_, by decide, by decide⟩, ?_, ?_⟩
  · exact premises_imageOf (by simp [memberRow]) (by simp) (by simp) (by decide)
  · exact premises_imageOf (by simp [memberRow, default]) (by simp) (by simp) (by decide)
  · exact premises_imageOf (by simp [memberRow]) (by simp) (by simp) (by decide)
  · exact premises_imageOf (by simp [memberRow]) (by simp [memberRow]) (by simp [memberRow])
      (by decide)
  · exact premises_imageOf (by simp) (by simp) (by simp) ⟨by decide,
      validate_imageOf (by simp [tiedReceipts]) fit_tiedReceipts,
      validate_imageOf (by simp [newReceipts]) fit_newReceipts⟩
  · have hfit : FitReceipts (mergedReceipts tiedReceipts newReceipts) := fun r hr =>
      (List.mem_append.mp (mem_mergedReceipts hr)).elim (fit_tiedReceipts r) (fit_newReceipts r)
    unfold mergeTwice
    rw [mergeOnce_receipts fit_tiedReceipts fit_newReceipts, Option.bind_eq_bind, Option.bind_some,
      mergeOnce_receipts hfit fit_newReceipts]
    intro hsame
    have hreceipts := congrArg (fun p : Stores => p.exposure.receipts) (Option.some.inj hsame)
    simp only [receipts_imageOf] at hreceipts
    have hkept : (⟨0, 0, tiedDigest 'b'⟩ : ExposureReceipt) ∈
        mergedReceipts tiedReceipts newReceipts := by decide +kernel
    rw [hreceipts] at hkept
    exact absurd hkept (by decide +kernel)

end AbbeyBot.PersonalMemory
