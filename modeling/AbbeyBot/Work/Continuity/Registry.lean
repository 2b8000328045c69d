import Mathlib
import AbbeyBot.Library.History
import AbbeyBot.Work.Continuity.Store

/-! # One-use proposals

A proposal lives for five minutes in the registry of its boot, under an id with the nonce of the boot
and a sequence number, which comes back as a text. The registry drops what has expired when it takes
another proposal, and a proposal when it is resolved. Ids are not kept after that: no id comes again
because the sequence number only grows, whatever the clock does. -/

namespace AbbeyBot.Work.Continuity.Registry

open AbbeyBot.Library.History AbbeyBot.Library.OrderedMap AbbeyBot.Library.Result
open AbbeyBot.Library.Text AbbeyBot.Library.Word AbbeyBot.Work.Types AbbeyBot.Work.Continuity.Store

/-! ### The text of an id -/

/-- `ProposalId::encode`. -/
def encode (id : ProposalId) : String :=
  String.ofList (id.bootNonce.flatMap hexPair ++ ':' :: (toString id.sequence).toList)

/-- `ProposalId::decode`. -/
def decode (encoded : String) : Except WorkError ProposalId := do
  let (nonce, sequence) ← orErr (splitOnce ':' encoded.toList) .invalid
  ensure (nonce.length = 32 ∧ nonce.all isLowerHex = true) .invalid
  let sequence ← orErr (parseU64 sequence) .invalid
  let id : ProposalId := ⟨hexBytes nonce, sequence⟩
  ensure (sequence ≠ 0 ∧ encode id = encoded) .invalid
  return id

/-- Sixteen bytes. -/
def IsNonce (bootNonce : List ℕ) : Prop := bootNonce.length = 16 ∧ ∀ b ∈ bootNonce, b < 256

instance (bootNonce : List ℕ) : Decidable (IsNonce bootNonce) :=
  inferInstanceAs (Decidable (_ ∧ _))

theorem encode_of_decode {encoded : String} {id : ProposalId} (h : decode encoded = .ok id) :
    encode id = encoded := by
  simp only [decode, bind_eq_ok, exists_unit, orErr_eq_ok, ensure_eq_ok, pure_eq_ok] at h
  obtain ⟨_, -, -, _, -, ⟨-, hencode⟩, rfl⟩ := h
  exact hencode

theorem decode_encode {id : ProposalId} (hnonce : IsNonce id.bootNonce) (hzero : id.sequence ≠ 0)
    (hmax : id.sequence ≤ u64Max) : decode (encode id) = .ok id := by
  have hdigits : ∀ c ∈ id.bootNonce.flatMap hexPair, isLowerHex c = true := fun c hc => by
    obtain ⟨b, hb, hc⟩ := List.mem_flatMap.mp hc
    exact isLowerHex_of_mem_hexPair (hnonce.2 b hb) hc
  have hcolon : ':' ∉ id.bootNonce.flatMap hexPair := fun hc => by
    have hhex := hdigits ':' hc
    revert hhex
    decide
  have hlength : (id.bootNonce.flatMap hexPair).length = 32 := by
    have hpair : ∀ b : ℕ, (hexPair b).length = 2 := fun _ => rfl
    simp [List.length_flatMap, hpair, hnonce.1]
  have hsplit : splitOnce ':' (encode id).toList =
      some (id.bootNonce.flatMap hexPair, (toString id.sequence).toList) := by
    rw [encode, String.toList_ofList]
    exact splitOnce_append hcolon _
  have hid : (⟨hexBytes (id.bootNonce.flatMap hexPair), id.sequence⟩ : ProposalId) = id := by
    rw [hexBytes_flatMap hnonce.2]
  unfold decode
  rw [hsplit]
  show (do
    ensure ((id.bootNonce.flatMap hexPair).length = 32 ∧
      (id.bootNonce.flatMap hexPair).all isLowerHex = true) WorkError.invalid
    let sequence ← orErr (parseU64 (toString id.sequence).toList) .invalid
    let id' : ProposalId := ⟨hexBytes (id.bootNonce.flatMap hexPair), sequence⟩
    ensure (sequence ≠ 0 ∧ encode id' = encode id) .invalid
    return id') = .ok id
  rw [ensure_of ⟨hlength, List.all_eq_true.mpr hdigits⟩, parseU64_toString hmax]
  show (do
    let id' : ProposalId := ⟨hexBytes (id.bootNonce.flatMap hexPair), id.sequence⟩
    ensure (id.sequence ≠ 0 ∧ encode id' = encode id) WorkError.invalid
    return id') = .ok id
  rw [hid]
  dsimp only
  rw [ensure_of ⟨hzero, rfl⟩]
  rfl

theorem isNonce_hexBytes {digits : List Char} (hlength : digits.length = 32)
    (hdigits : ∀ c ∈ digits, isLowerHex c = true) : IsNonce (hexBytes digits) := by
  refine ⟨?_, fun b hb => lt_of_mem_hexBytes hdigits hb⟩
  rw [length_hexBytes, hlength]

/-- **An id has one text**: the decoder accepts what the encoder writes of an id whose sequence is not
zero, and nothing else. -/
theorem decode_eq_ok_iff (encoded : String) (id : ProposalId) : decode encoded = .ok id ↔
    (IsNonce id.bootNonce ∧ id.sequence ≤ u64Max ∧ id.sequence ≠ 0) ∧ encode id = encoded := by
  constructor
  · intro h
    have hencode := encode_of_decode h
    simp only [decode, bind_eq_ok, exists_unit, orErr_eq_ok, ensure_eq_ok, pure_eq_ok] at h
    obtain ⟨⟨digits, rest⟩, -, ⟨hlength, hdigits⟩, sequence, hsequence, ⟨hzero, -⟩, rfl⟩ := h
    exact ⟨⟨isNonce_hexBytes hlength (List.all_eq_true.mp hdigits), le_of_parseU64 hsequence, hzero⟩,
      hencode⟩
  · rintro ⟨⟨hnonce, hmax, hzero⟩, rfl⟩
    exact decode_encode hnonce hzero hmax

/-! ### Runs -/

inductive Op where
  | propose (draft : ContinuityDraft) (access : WorkAccess) (work : WorkStore) (now : ℕ)
  | resolve (id : ProposalId) (actor : ℕ) (scope : WorkScope) (now : ℕ)

inductive Out where
  | proposed (r : Except WorkError ContinuityProposal)
  | resolved (r : Except WorkError ContinuityProposal)
  deriving DecidableEq

/-- **The step function** of the registry. -/
def step (g : ProposalRegistry) : Op → Out × ProposalRegistry
  | .propose draft access work now =>
    let (r, g) := commit g (g.propose draft access work now)
    (.proposed r, g)
  | .resolve id actor scope now =>
    let (r, g) := g.resolveConfirmation id actor scope now
    (.resolved r, g)

abbrev Trace := List (Event ProposalRegistry Op Out)

def proposedId (e : Event ProposalRegistry Op Out) : Option ProposalId :=
  match e.out with
  | .proposed (.ok p) => some p.id
  | _ => none

/-- The id that was resolved. -/
def resolvedId (e : Event ProposalRegistry Op Out) : Option ProposalId :=
  match e.op, e.out with
  | .resolve id _ _ _, .resolved (.ok _) => some id
  | _, _ => none

/-- The proposal was made at `created`, by this actor in this scope. -/
def ProposedAt (h : Trace) (p : ContinuityProposal) (created : ℕ) : Prop :=
  ∃ e ∈ h, ∃ draft access work, e.op = .propose draft access work created ∧
    e.out = .proposed (.ok p) ∧ p.actor = access.actor ∧ p.scope = draft.scope

/-! ### What a step can do -/

/-- A proposal gets the next sequence number, and what has expired goes. -/
theorem propose_eq_ok {g g' : ProposalRegistry} {draft : ContinuityDraft} {access : WorkAccess}
    {work : WorkStore} {now : ℕ} {p : ContinuityProposal}
    (h : g.propose draft access work now = .ok (p, g')) :
    p.id = ⟨g.bootNonce, g.sequence + 1⟩ ∧ p.actor = access.actor ∧ p.scope = draft.scope ∧
    p.expiresAt = now + proposalLifetime ∧ g.sequence + 1 ≤ u64Max ∧
    g'.bootNonce = g.bootNonce ∧ g'.sequence = g.sequence + 1 ∧
    g'.proposals = (g.proposals.filter fun _ q => now < q.expiresAt).insert p.id p ∧
    countRows g.proposals (fun q => now < q.expiresAt) < maxProposals := by
  simp only [ProposalRegistry.propose, bind_eq_ok, exists_unit, ensure_eq_ok, orErr_eq_ok,
    checkedAdd_eq_some, pure_eq_ok, Prod.mk.injEq] at h
  obtain ⟨-, -, -, expiresAt, ⟨rfl, -⟩, sequence, ⟨rfl, hmax⟩, hcount, rfl, rfl⟩ := h
  exact ⟨rfl, rfl, rfl, rfl, hmax, rfl, rfl, rfl, hcount⟩

/-- A resolution is one of the stored proposal by its actor, in its scope and its lifetime, or leaves
at most the proposal away. -/
theorem resolve_cases (g : ProposalRegistry) (id : ProposalId) (actor : ℕ) (scope : WorkScope)
    (now : ℕ) :
    (∃ p, g.resolveConfirmation id actor scope now =
        (.ok p, { g with proposals := g.proposals.erase id }) ∧ g.proposals[id]? = some p ∧
      actor = p.actor ∧ scope = p.scope ∧ withinLifetime p.expiresAt proposalLifetime now) ∨
    (∃ e g', g.resolveConfirmation id actor scope now = (.error e, g') ∧
      g'.bootNonce = g.bootNonce ∧ g'.sequence = g.sequence ∧
      (g'.proposals = g.proposals ∨ g'.proposals = g.proposals.erase id)) := by
  unfold ProposalRegistry.resolveConfirmation
  cases hp : g.proposals[id]? with
  | none => exact .inr ⟨_, _, rfl, rfl, rfl, .inl rfl⟩
  | some p =>
    dsimp only
    by_cases hdenied : actor ≠ p.actor ∨ scope ≠ p.scope
    · rw [if_pos hdenied]
      exact .inr ⟨_, _, rfl, rfl, rfl, .inl rfl⟩
    · rw [if_neg hdenied]
      by_cases hlife : withinLifetime p.expiresAt proposalLifetime now
      · rw [if_neg (not_not.mpr hlife)]
        rw [not_or, not_not, not_not] at hdenied
        exact .inl ⟨p, rfl, rfl, hdenied.1, hdenied.2, hlife⟩
      · rw [if_pos hlife]
        right
        refine ⟨_, _, rfl, ?_⟩
        split_ifs
        · exact ⟨rfl, rfl, .inr rfl⟩
        · exact ⟨rfl, rfl, .inl rfl⟩

/-! ### Along a run -/

/-- The invariant of the registry with its history. -/
structure Inv (bootNonce : List ℕ) (h : Trace) (g : ProposalRegistry) : Prop where
  nonce : g.bootNonce = bootNonce
  sequence : g.sequence ≤ u64Max
  size : g.proposals.size ≤ maxProposals
  /-- A stored proposal was made in the run and not resolved. -/
  stored : ∀ (id : ProposalId) (p : ContinuityProposal), g.proposals[id]? = some p →
    p.id = id ∧ id ∈ h.filterMap proposedId ∧ id ∉ h.filterMap resolvedId ∧
      ∃ created, ProposedAt h p created ∧ p.expiresAt = created + proposalLifetime
  proposed : ∀ id ∈ h.filterMap proposedId,
    id.bootNonce = bootNonce ∧ 0 < id.sequence ∧ id.sequence ≤ g.sequence
  resolved : ∀ id ∈ h.filterMap resolvedId, id ∈ h.filterMap proposedId
  proposedOnce : (h.filterMap proposedId).Nodup
  resolvedOnce : (h.filterMap resolvedId).Nodup

/-- What a resolution needs. -/
def Entitled (h : Trace) (e : Event ProposalRegistry Op Out) : Prop :=
  ∀ id actor scope now p, e.op = .resolve id actor scope now → e.out = .resolved (.ok p) →
    p.id = id ∧ p.actor = actor ∧ p.scope = scope ∧
      ∃ created, ProposedAt h p created ∧ created ≤ now ∧ now < created + 300

theorem ProposedAt.cons {h : Trace} {p : ContinuityProposal} {created : ℕ}
    (hp : ProposedAt h p created) (e : Event ProposalRegistry Op Out) :
    ProposedAt (e :: h) p created := by
  obtain ⟨e', he', hrest⟩ := hp
  exact ⟨e', List.mem_cons_of_mem _ he', hrest⟩

theorem inv_new (bootNonce : List ℕ) : Inv bootNonce [] (.new bootNonce) where
  nonce := rfl
  sequence := Nat.zero_le _
  size := by simp [ProposalRegistry.new]
  stored id p hp := by simp [ProposalRegistry.new] at hp
  proposed id hid := by cases hid
  resolved id hid := by cases hid
  proposedOnce := .nil
  resolvedOnce := .nil

/-- A step that proposes and resolves nothing and stores nothing new. -/
theorem Inv.keep {bootNonce : List ℕ} {h : Trace} {g g' : ProposalRegistry}
    {e : Event ProposalRegistry Op Out} (hinv : Inv bootNonce h g)
    (hproposed : proposedId e = none) (hresolved : resolvedId e = none)
    (hnonce : g'.bootNonce = g.bootNonce) (hsequence : g'.sequence = g.sequence)
    (hsize : g'.proposals.size ≤ g.proposals.size)
    (hrows : ∀ (id : ProposalId) (p : ContinuityProposal), g'.proposals[id]? = some p →
      g.proposals[id]? = some p) : Inv bootNonce (e :: h) g' where
  nonce := hnonce.trans hinv.nonce
  sequence := hsequence.trans_le hinv.sequence
  size := hsize.trans hinv.size
  stored id p hp := by
    rw [List.filterMap_cons_none hproposed, List.filterMap_cons_none hresolved]
    obtain ⟨hid, hmade, hopen, created, hat, hexpires⟩ := hinv.stored id p (hrows id p hp)
    exact ⟨hid, hmade, hopen, created, hat.cons e, hexpires⟩
  proposed id hid := by
    rw [List.filterMap_cons_none hproposed] at hid
    rw [hsequence]
    exact hinv.proposed id hid
  resolved id hid := by
    rw [List.filterMap_cons_none hresolved] at hid
    rw [List.filterMap_cons_none hproposed]
    exact hinv.resolved id hid
  proposedOnce := by
    rw [List.filterMap_cons_none hproposed]
    exact hinv.proposedOnce
  resolvedOnce := by
    rw [List.filterMap_cons_none hresolved]
    exact hinv.resolvedOnce

theorem Inv.propose {bootNonce : List ℕ} {h : Trace} {g : ProposalRegistry}
    (hinv : Inv bootNonce h g) (draft : ContinuityDraft) (access : WorkAccess) (work : WorkStore)
    (now : ℕ) : Inv bootNonce (event step g (.propose draft access work now) :: h)
      (step g (.propose draft access work now)).2 := by
  show Inv bootNonce (⟨g, .propose draft access work now,
    .proposed (commit g (g.propose draft access work now)).1,
    (commit g (g.propose draft access work now)).2⟩ :: h)
      (commit g (g.propose draft access work now)).2
  rcases commit_cases g (g.propose draft access work now) with ⟨p, g', hok, hcommit⟩ | ⟨e, hcommit⟩
  · rw [hcommit]
    obtain ⟨hid, hactor, hscope, hexpires, hmax, hnonce, hsequence, hrows, hcount⟩ := propose_eq_ok hok
    generalize hevent : (⟨g, .propose draft access work now, .proposed (.ok p), g'⟩ :
      Event ProposalRegistry Op Out) = e
    have hproposed : proposedId e = some p.id := by rw [← hevent]; rfl
    have hresolved : resolvedId e = none := by rw [← hevent]; rfl
    have hat : ProposedAt (e :: h) p now :=
      ⟨e, List.mem_cons_self, draft, access, work, by rw [← hevent], by rw [← hevent], hactor, hscope⟩
    have hfresh : p.id ∉ h.filterMap proposedId := fun hmem => by
      have hle := (hinv.proposed p.id hmem).2.2
      rw [hid] at hle
      exact absurd hle (Nat.not_succ_le_self _)
    constructor
    · exact hnonce.trans hinv.nonce
    · exact hsequence ▸ hmax
    · rw [hrows]
      exact Std.ExtTreeMap.size_insert_le.trans hcount
    · intro id q hq
      rw [List.filterMap_cons_some hproposed, List.filterMap_cons_none hresolved]
      rw [hrows, getElem?_insert] at hq
      split_ifs at hq with heq
      · cases hq
        subst heq
        exact ⟨rfl, List.mem_cons_self, fun hmem => hfresh (hinv.resolved p.id hmem), now, hat,
          hexpires⟩
      · obtain ⟨hq, hmade, hopen, created, hcreated, hlife⟩ := hinv.stored id q (filter_eq_some.mp hq).1
        exact ⟨hq, List.mem_cons_of_mem _ hmade, hopen, created, hcreated.cons e, hlife⟩
    · intro id hmem
      rw [List.filterMap_cons_some hproposed, List.mem_cons] at hmem
      rcases hmem with rfl | hmem
      · rw [hid, hsequence]
        exact ⟨hinv.nonce, Nat.succ_pos _, le_rfl⟩
      · obtain ⟨hn, hpos, hle⟩ := hinv.proposed id hmem
        exact ⟨hn, hpos, hsequence ▸ Nat.le_succ_of_le hle⟩
    · intro id hmem
      rw [List.filterMap_cons_none hresolved] at hmem
      rw [List.filterMap_cons_some hproposed]
      exact List.mem_cons_of_mem _ (hinv.resolved id hmem)
    · rw [List.filterMap_cons_some hproposed]
      exact List.nodup_cons.mpr ⟨hfresh, hinv.proposedOnce⟩
    · rw [List.filterMap_cons_none hresolved]
      exact hinv.resolvedOnce
  · rw [hcommit]
    exact hinv.keep rfl rfl rfl rfl le_rfl fun _ _ hp => hp

theorem lookup_of_erase {g : ProposalRegistry} {id k : ProposalId} {p : ContinuityProposal}
    (h : (g.proposals.erase id)[k]? = some p) : k ≠ id ∧ g.proposals[k]? = some p := by
  rw [Std.ExtTreeMap.getElem?_erase] at h
  split_ifs at h with heq
  exact ⟨fun hk => heq (by simp [hk]), h⟩

theorem Inv.resolve {bootNonce : List ℕ} {h : Trace} {g : ProposalRegistry}
    (hinv : Inv bootNonce h g) (id : ProposalId) (actor : ℕ) (scope : WorkScope) (now : ℕ) :
    Inv bootNonce (event step g (.resolve id actor scope now) :: h)
      (step g (.resolve id actor scope now)).2 ∧
    Entitled h (event step g (.resolve id actor scope now)) := by
  show Inv bootNonce (⟨g, .resolve id actor scope now,
    .resolved (g.resolveConfirmation id actor scope now).1,
    (g.resolveConfirmation id actor scope now).2⟩ :: h)
      (g.resolveConfirmation id actor scope now).2 ∧
    Entitled h ⟨g, .resolve id actor scope now,
      .resolved (g.resolveConfirmation id actor scope now).1,
      (g.resolveConfirmation id actor scope now).2⟩
  rcases resolve_cases g id actor scope now with
    ⟨p, hres, hp, hactor, hscope, hlife⟩ | ⟨e, g', hres, hnonce, hsequence, hrows⟩
  · rw [hres]
    obtain ⟨hid, hmade, hopen, created, hat, hexpires⟩ := hinv.stored id p hp
    generalize hevent : (⟨g, .resolve id actor scope now, .resolved (.ok p),
      { g with proposals := g.proposals.erase id }⟩ : Event ProposalRegistry Op Out) = e
    have hproposed : proposedId e = none := by rw [← hevent]; rfl
    have hresolved : resolvedId e = some id := by rw [← hevent]; rfl
    constructor
    · constructor
      · exact hinv.nonce
      · exact hinv.sequence
      · exact Std.ExtTreeMap.size_erase_le.trans hinv.size
      · intro k q hq
        obtain ⟨hne, hq⟩ := lookup_of_erase hq
        rw [List.filterMap_cons_none hproposed, List.filterMap_cons_some hresolved]
        obtain ⟨hk, hmade, hopen, created, hcreated, hlife⟩ := hinv.stored k q hq
        refine ⟨hk, hmade, fun hmem => ?_, created, hcreated.cons e, hlife⟩
        rcases List.mem_cons.mp hmem with heq | hmem
        · exact hne heq
        · exact hopen hmem
      · intro k hk
        rw [List.filterMap_cons_none hproposed] at hk
        exact hinv.proposed k hk
      · intro k hk
        rw [List.filterMap_cons_some hresolved, List.mem_cons] at hk
        rw [List.filterMap_cons_none hproposed]
        rcases hk with rfl | hk
        · exact hmade
        · exact hinv.resolved k hk
      · rw [List.filterMap_cons_none hproposed]
        exact hinv.proposedOnce
      · rw [List.filterMap_cons_some hresolved]
        exact List.nodup_cons.mpr ⟨hopen, hinv.resolvedOnce⟩
    · intro id' actor' scope' now' p' hop hout
      rw [← hevent] at hop hout
      cases hop
      cases hout
      refine ⟨hid, hactor.symm, hscope.symm, created, hat, ?_⟩
      unfold withinLifetime at hlife
      rw [hexpires] at hlife
      unfold proposalLifetime at hlife
      omega
  · rw [hres]
    refine ⟨hinv.keep rfl rfl hnonce hsequence ?_ fun k q hq => ?_, fun _ _ _ _ _ _ hout => ?_⟩
    · rcases hrows with hrows | hrows
      · exact hrows ▸ le_rfl
      · exact hrows ▸ Std.ExtTreeMap.size_erase_le
    · rcases hrows with hrows | hrows <;> rw [hrows] at hq
      · exact hq
      · exact (lookup_of_erase hq).2
    · cases hout

theorem inv_run {bootNonce : List ℕ} {h : Trace} {g : ProposalRegistry}
    (hrun : Run step (.new bootNonce) h g) : Inv bootNonce h g ∧ Along Entitled h := by
  induction hrun with
  | nil => exact ⟨inv_new bootNonce, trivial⟩
  | cons op _ ih =>
    obtain ⟨hinv, halong⟩ := ih
    cases op with
    | propose draft access work now =>
      refine ⟨hinv.propose draft access work now, ?_, halong⟩
      intro _ _ _ _ _ hop
      cases hop
    | resolve id actor scope now =>
      obtain ⟨hnext, hentitled⟩ := hinv.resolve id actor scope now
      exact ⟨hnext, hentitled, halong⟩

/-- **One-use proposals.** Along every run of the registry of a boot, at any times: no id is proposed
twice, none is resolved twice; a resolution is of a proposal made before by the same actor in the same
scope less than 300 seconds ago; at most 256 proposals are live; and the text of a proposed id reads
back as that id, and no other text does. -/
theorem proposals_along_run {bootNonce : List ℕ} (hnonce : IsNonce bootNonce) {h : Trace}
    {g : ProposalRegistry} (hrun : Run step (.new bootNonce) h g) :
    (h.filterMap proposedId).Nodup ∧ (h.filterMap resolvedId).Nodup ∧
    (∀ (h₁ h₂ : Trace) (e : Event ProposalRegistry Op Out), h = h₁ ++ e :: h₂ →
      ∀ id actor scope now p, e.op = .resolve id actor scope now → e.out = .resolved (.ok p) →
        p.id = id ∧ p.actor = actor ∧ p.scope = scope ∧
          ∃ created, ProposedAt h₂ p created ∧ created ≤ now ∧ now < created + 300) ∧
    g.proposals.size ≤ 256 ∧
    ∀ id ∈ h.filterMap proposedId, decode (encode id) = .ok id ∧
      ∀ encoded, decode encoded = .ok id → encoded = encode id := by
  obtain ⟨hinv, halong⟩ := inv_run hrun
  refine ⟨hinv.proposedOnce, hinv.resolvedOnce, fun h₁ h₂ e heq => ?_, hinv.size, fun id hid => ?_⟩
  · rw [heq] at halong
    exact halong.append
  · obtain ⟨hn, hpos, hle⟩ := hinv.proposed id hid
    refine ⟨decode_encode (hn ▸ hnonce) (Nat.pos_iff_ne_zero.mp hpos) (hle.trans hinv.sequence), ?_⟩
    exact fun encoded hdecode => (encode_of_decode hdecode).symm

/-- A person proposes a card and resolves it, and tries so again. -/
def soloOps : List Op :=
  [.propose ⟨.personal 1, 0, "notes", ∅⟩ (soloAccess 1) (soloWork 1) 100,
    .resolve ⟨List.replicate 16 7, 1⟩ 1 (.personal 1) 150,
    .resolve ⟨List.replicate 16 7, 1⟩ 1 (.personal 1) 151]

theorem solo_resolved_once :
    (play step (.new (List.replicate 16 7)) soloOps).1.filterMap resolvedId =
      [⟨List.replicate 16 7, 1⟩] ∧
    (play step (.new (List.replicate 16 7)) soloOps).2.proposals.size ≤ 256 := by
  have hnonce : IsNonce (List.replicate 16 7) := by decide
  exact ⟨by decide, (proposals_along_run hnonce (run_play _ soloOps)).2.2.2.1⟩

end AbbeyBot.Work.Continuity.Registry
