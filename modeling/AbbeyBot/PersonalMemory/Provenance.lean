import Mathlib
import AbbeyBot.PersonalMemory.Commit

/-! # Where proofs come from

A proof of a member for a fact is there because the last action of the member on that exact text was
to remember it, to correct another fact to it or to confirm it. `Good` says so of a state, with the
actions it has on record; proofs that were there at the start are left to `B`. -/

namespace AbbeyBot.PersonalMemory

open AbbeyBot.Library.OrderedMap AbbeyBot.Library.Result AbbeyBot.Library.Text
open AbbeyBot.Library.Word

/-! ### Actions on a text -/

/-- What a mutation says of a text, if it is about it: `true` if the member stands up for it, `false`
if it is given up. -/
def Mutation.effect (m : Mutation) (text : String) : Option Bool :=
  match m with
  | .choice _ => none
  | .confirm _ exact => if exact = text then some true else none
  | .remember new _ => if normalizeFactText new = text then some true else none
  | .correct old new _ =>
    if normalizeFactText new = text then some true else if old = text then some false else none
  | .forget exact => if exact = text then some false else none

/-- The action is one of the member on the text. -/
def MemberAction.Concerns (a : MemberAction) (guild user text : String) : Prop :=
  a.proof.guild = guild ∧ a.proof.subject = user ∧ (a.mutation.effect text).isSome = true

instance (a : MemberAction) (guild user text : String) : Decidable (a.Concerns guild user text) :=
  inferInstanceAs (Decidable (_ ∧ _))

/-- The last action of the member on the text. -/
def lastAction (actions : List MemberAction) (guild user text : String) : Option MemberAction :=
  actions.reverse.find? fun a => decide (a.Concerns guild user text)

/-- The member stood up for the text last; where there was no action on it, `B` holds. -/
def Accounted (B : String → String → String → Prop) (actions : List MemberAction)
    (guild user text : String) : Prop :=
  match lastAction actions guild user text with
  | some a => a.mutation.effect text = some true ∧ a.proof.actor = user
  | none => B guild user text

theorem lastAction_concat (actions : List MemberAction) (a : MemberAction)
    (guild user text : String) : lastAction (actions ++ [a]) guild user text =
      if a.Concerns guild user text then some a else lastAction actions guild user text := by
  unfold lastAction
  rw [List.reverse_append, List.reverse_singleton, List.singleton_append, List.find?_cons]
  by_cases h : a.Concerns guild user text <;> simp [h]

theorem lastAction_eq_none {actions : List MemberAction} {guild user text : String}
    (h : ∀ a ∈ actions, ¬ (a.proof.guild = guild ∧ a.proof.subject = user)) :
    lastAction actions guild user text = none := by
  unfold lastAction
  rw [List.find?_eq_none]
  intro a ha
  rw [List.mem_reverse] at ha
  simp only [decide_eq_true_eq]
  exact fun hconcerns => h a ha ⟨hconcerns.1, hconcerns.2.1⟩

/-- The facts that the actions are about, and this one. -/
def factsConcerned (actions : List MemberAction) (guild user text : String) :
    Set (String × String × String) :=
  {f | f = (guild, user, text) ∨ ∃ a ∈ actions, a.Concerns f.1 f.2.1 f.2.2}

theorem factsConcerned_mono {actions actions' : List MemberAction} (h : actions ⊆ actions')
    (guild user text : String) :
    factsConcerned actions guild user text ⊆ factsConcerned actions' guild user text := by
  rintro f (rfl | ⟨a, ha, hf⟩)
  · exact .inl rfl
  · exact .inr ⟨a, h ha, hf⟩

/-- No two of the facts have one key. -/
def Codec.Separates (C : Codec) (facts : Set (String × String × String)) : Prop :=
  Set.InjOn (fun f => C.factKey f.1 f.2.1 f.2.2) facts

/-! ### Proofs -/

/-- The proofs of a subject, none where there is no subject. -/
def Payload.proofsAt (p : Payload) (key : String) : BTreeMap String FactProof :=
  (p.personalMemory.getD key default).proofs

variable {C : Codec} {B : String → String → String → Prop}

/-- Every proof is accounted for, unless its key is also that of another fact that there was an action
on, and every action is that of a subject. -/
structure Good (C : Codec) (B : String → String → String → Prop) (s : Stores) : Prop where
  accounted : ∀ guild user text : String,
    C.Separates (factsConcerned s.actions guild user text) →
      C.factKey guild user text ∈ s.proofsAt (subjectKey guild user) →
        Accounted B s.actions guild user text
  owned : ∀ a ∈ s.actions, subjectKey a.proof.guild a.proof.subject ∈ s.personalMemory

/-- No proof and no action is added, no subject is lost. -/
structure Refines (s s' : Stores) : Prop where
  proofs : ∀ key fact : String, fact ∈ s'.proofsAt key → fact ∈ s.proofsAt key
  subjects : ∀ key ∈ s.personalMemory, key ∈ s'.personalMemory
  actions : s'.actions = s.actions

theorem Refines.refl (s : Stores) : Refines s s := ⟨fun _ _ h => h, fun _ h => h, rfl⟩

theorem Refines.trans {s s' s'' : Stores} (h : Refines s s') (h' : Refines s' s'') :
    Refines s s'' :=
  ⟨fun key fact hf => h.proofs key fact (h'.proofs key fact hf),
    fun key hkey => h'.subjects key (h.subjects key hkey), h'.actions.trans h.actions⟩

theorem Good.of_refines {s s' : Stores} (h : Good C B s) (hr : Refines s s') : Good C B s' where
  accounted guild user text hkeys hfact := by
    rw [hr.actions] at hkeys ⊢
    exact h.accounted guild user text hkeys (hr.proofs _ _ hfact)
  owned a ha := hr.subjects _ (h.owned a (hr.actions ▸ ha))

theorem refines_of_eq {s s' : Stores} (hm : s'.personalMemory = s.personalMemory)
    (ha : s'.actions = s.actions) : Refines s s' where
  proofs key fact h := by rwa [Payload.proofsAt, hm] at h
  subjects key h := hm ▸ h
  actions := ha

theorem proofsAt_setSubject (s : Stores) (key key' : String) (subject : PersonalMemorySubject) :
    (s.setSubject key subject).proofsAt key' =
      if key = key' then subject.proofs else s.proofsAt key' := by
  unfold Payload.proofsAt Stores.setSubject
  rw [Std.ExtTreeMap.getD_insert]
  simp only [Std.LawfulEqCmp.compare_eq_iff_eq]
  split_ifs <;> rfl

/-- A subject whose proofs stay may be changed. -/
theorem refines_setSubject {s : Stores} {key : String} {subject : PersonalMemorySubject}
    (h : subject.proofs = s.proofsAt key) : Refines s (s.setSubject key subject) where
  proofs key' fact hf := by
    rw [proofsAt_setSubject] at hf
    split_ifs at hf with hk
    · rw [h, hk] at hf
      exact hf
    · exact hf
  subjects key' hk := Std.ExtTreeMap.mem_insert.mpr (.inr hk)
  actions := rfl

theorem refines_openSubject (s : Stores) (key : String) : Refines s (s.openSubject key) :=
  refines_setSubject rfl

theorem proofsAt_of_some {p : Payload} {key : String} {s : PersonalMemorySubject}
    (h : p.personalMemory[key]? = some s) : s.proofs = p.proofsAt key := by
  rw [Payload.proofsAt, Std.ExtTreeMap.getD_eq_getD_getElem?, h, Option.getD_some]

/-- A subject that is there may be changed, but for its proofs. -/
theorem refines_change {s : Stores} {key : String} {subject subject' : PersonalMemorySubject}
    (hs : s.personalMemory[key]? = some subject) (h : subject'.proofs = subject.proofs) :
    Refines s (s.setSubject key subject') :=
  refines_setSubject (h.trans (proofsAt_of_some hs))

/-- A map over the subjects keeps the keys, and the proofs it keeps. -/
theorem refines_map {s s' : Stores} {f : String → PersonalMemorySubject → PersonalMemorySubject}
    (hm : s'.personalMemory = s.personalMemory.map f) (ha : s'.actions = s.actions)
    (hf : ∀ key subject (fact : String), fact ∈ (f key subject).proofs → fact ∈ subject.proofs) :
    Refines s s' where
  proofs key fact h := by
    unfold Payload.proofsAt at h ⊢
    rw [hm, Std.ExtTreeMap.getD_eq_getD_getElem?, Std.ExtTreeMap.getElem?_map] at h
    rw [Std.ExtTreeMap.getD_eq_getD_getElem?]
    cases hs : s.personalMemory[key]? with
    | none =>
      rw [hs] at h
      exact h
    | some subject =>
      rw [hs] at h
      exact hf key subject fact h
  subjects key hk := by
    rw [hm, Std.ExtTreeMap.mem_map]
    exact hk
  actions := ha

theorem refines_complete (s : Stores) : Refines s s.complete :=
  refines_map (f := fun _ s =>
    { s with outcomes := s.outcomes.map fun _ r => { r with completed := true } })
    rfl rfl fun _ _ _ h => h

theorem refines_foldDenials {s s' : Stores} {marker : Marker} {changed : Bool}
    (h : foldDenials C s marker = .ok (s', changed)) : Refines s s' := by
  obtain ⟨hdenies, -, -, -⟩ := foldDenials_eq_ok h
  refine ⟨fun key fact hf => ?_, hdenies.kept, hdenies.rest.2.2.2⟩
  rw [Payload.proofsAt, (hdenies.subject key).proofs] at hf
  exact hf

/-! ### Mutations -/

theorem proofsAt_reproof (s : Stores) (key key' : String)
    (f : BTreeMap String FactProof → BTreeMap String FactProof) (fact : String)
    (h : fact ∈ (s.reproof key f).proofsAt key') :
    if key = key' then fact ∈ f (s.proofsAt key') else fact ∈ s.proofsAt key' := by
  unfold Payload.proofsAt Stores.reproof at h
  rw [Std.ExtTreeMap.getD_eq_getD_getElem?, getElem?_modify] at h
  unfold Payload.proofsAt
  rw [Std.ExtTreeMap.getD_eq_getD_getElem?]
  split_ifs at h ⊢ with hk
  · cases hs : s.personalMemory[key']? with
    | none =>
      rw [hs] at h
      exact absurd h Std.ExtTreeMap.not_mem_empty
    | some subject =>
      rw [hs] at h
      exact h
  · exact h

theorem proofsAt_proveFact {s : Stores} {action : SelfAuthorizedFactAction} {text : String}
    {authority : FactAuthority} {previous : ℕ} {key fact : String}
    (h : fact ∈ (s.proveFact C action text authority previous).proofsAt key) :
    fact ∈ s.proofsAt key ∨
      (key = action.key ∧ fact = C.factKey action.proof.guild action.proof.subject text) := by
  unfold Stores.proveFact at h
  have hf := proofsAt_reproof s action.key key _ fact h
  split_ifs at hf with hk
  · rw [Std.ExtTreeMap.mem_insert, Std.LawfulEqCmp.compare_eq_iff_eq] at hf
    rcases hf with hf | hf
    · exact .inr ⟨hk.symm, hf.symm⟩
    · exact .inl hf
  · exact .inl hf

theorem proofsAt_forgetFact {s : Stores} {action : SelfAuthorizedFactAction} {text key fact : String}
    (h : fact ∈ (s.forgetFact C action text).proofsAt key) :
    fact ∈ s.proofsAt key ∧ (key = action.key →
      fact ≠ C.factKey action.proof.guild action.proof.subject text) := by
  have hsame : (s.forgetFact C action text).proofsAt key = (s.reproof action.key
      (·.erase (C.factKey action.proof.guild action.proof.subject text))).proofsAt key := rfl
  rw [hsame] at h
  have hf := proofsAt_reproof s action.key key _ fact h
  split_ifs at hf with hk
  · rw [Std.ExtTreeMap.mem_erase, ne_eq, Std.LawfulEqCmp.compare_eq_iff_eq] at hf
    exact ⟨hf.2, fun _ heq => hf.1 heq.symm⟩
  · exact ⟨hf, fun heq => absurd heq.symm hk⟩

theorem checkText_eq_ok {text exact : String} {receipt : Option String}
    (h : Stores.checkText text receipt = .ok exact) : exact = normalizeFactText text := by
  simp only [Stores.checkText, bind_eq_ok, exists_unit, mapError_ok_iff, pure_eq_ok] at h
  obtain ⟨t, ht, -, rfl⟩ := h
  unfold validatedFact at ht
  dsimp only at ht
  split_ifs at ht
  cases ht
  rfl

theorem proofsAt_rememberFact {s next : Stores} {action : SelfAuthorizedFactAction} {text : String}
    {receipt : Option String} {previous : ℕ} {key fact : String}
    (h : s.rememberFact C action text receipt previous = .ok next)
    (hf : fact ∈ next.proofsAt key) : fact ∈ s.proofsAt key ∨
      (key = action.key ∧ fact = C.factKey action.proof.guild action.proof.subject text) := by
  simp only [Stores.rememberFact, bind_eq_ok, pure_eq_ok] at h
  obtain ⟨memory, -, rfl⟩ := h
  exact proofsAt_proveFact hf

/-- A proof after a mutation was there and was not given up, or the mutation brought it. -/
theorem mutate_proofs {s next : Stores} {action : SelfAuthorizedFactAction} {m : Mutation}
    {subject : PersonalMemorySubject} (hs : s.personalMemory[action.key]? = some subject)
    (h : s.mutate C action subject m = .ok next) {key fact : String} (hf : fact ∈ next.proofsAt key) :
    (fact ∈ s.proofsAt key ∧ (key = action.key → ∀ text, m.effect text = some false →
      fact ≠ C.factKey action.proof.guild action.proof.subject text)) ∨
    (key = action.key ∧ ∃ text, m.effect text = some true ∧
      fact = C.factKey action.proof.guild action.proof.subject text) := by
  cases m with
  | choice choice =>
    cases h
    have hrefines := @refines_change _ _ _ { subject with choice := choice } hs rfl
    exact .inl ⟨hrefines.proofs _ _ hf, fun _ _ heffect => by cases heffect⟩
  | confirm key' exact =>
    simp only [Stores.mutate, bind_eq_ok, exists_unit, pure_eq_ok] at h
    obtain ⟨-, rfl⟩ := h
    rcases proofsAt_proveFact hf with hf | ⟨hk, hf⟩
    · refine .inl ⟨hf, fun _ text heffect => ?_⟩
      simp [Mutation.effect] at heffect
    · exact .inr ⟨hk, exact, if_pos rfl, hf⟩
  | remember new receipt =>
    simp only [Stores.mutate, bind_eq_ok] at h
    obtain ⟨exact, hexact, h⟩ := h
    obtain rfl := checkText_eq_ok hexact
    rcases proofsAt_rememberFact h hf with hf | ⟨hk, hf⟩
    · refine .inl ⟨hf, fun _ text heffect => ?_⟩
      simp [Mutation.effect] at heffect
    · exact .inr ⟨hk, _, if_pos rfl, hf⟩
  | correct old new receipt =>
    simp only [Stores.mutate, bind_eq_ok, exists_unit] at h
    obtain ⟨exact, hexact, -, h⟩ := h
    obtain rfl := checkText_eq_ok hexact
    rcases proofsAt_rememberFact h hf with hf | ⟨hk, hf⟩
    · obtain ⟨hold, hne⟩ := proofsAt_forgetFact hf
      refine .inl ⟨hold, fun hk text heffect => ?_⟩
      simp only [Mutation.effect] at heffect
      by_cases hnew : normalizeFactText new = text
      · rw [if_pos hnew] at heffect
        cases heffect
      · rw [if_neg hnew] at heffect
        by_cases htext : old = text
        · exact htext ▸ hne hk
        · rw [if_neg htext] at heffect
          cases heffect
    · exact .inr ⟨hk, _, if_pos rfl, hf⟩
  | forget exact =>
    simp only [Stores.mutate, bind_eq_ok, exists_unit, pure_eq_ok] at h
    obtain ⟨-, rfl⟩ := h
    obtain ⟨hold, hne⟩ := proofsAt_forgetFact hf
    refine .inl ⟨hold, fun hk text heffect => ?_⟩
    simp only [Mutation.effect] at heffect
    split_ifs at heffect with htext
    exact htext ▸ hne hk

theorem mem_reproof {s : Stores} {key key' : String}
    {f : BTreeMap String FactProof → BTreeMap String FactProof} :
    key' ∈ (s.reproof key f).personalMemory ↔ key' ∈ s.personalMemory := Std.ExtTreeMap.mem_modify

theorem mem_proveFact {s : Stores} {action : SelfAuthorizedFactAction} {text : String}
    {authority : FactAuthority} {previous : ℕ} {key : String} :
    key ∈ (s.proveFact C action text authority previous).personalMemory ↔ key ∈ s.personalMemory :=
  mem_reproof

theorem mem_forgetFact {s : Stores} {action : SelfAuthorizedFactAction} {text key : String} :
    key ∈ (s.forgetFact C action text).personalMemory ↔ key ∈ s.personalMemory :=
  @mem_reproof s action.key key
    (·.erase (C.factKey action.proof.guild action.proof.subject text))

theorem mem_rememberFact {s next : Stores} {action : SelfAuthorizedFactAction} {text : String}
    {receipt : Option String} {previous : ℕ} {key : String}
    (h : s.rememberFact C action text receipt previous = .ok next) :
    key ∈ next.personalMemory ↔ key ∈ s.personalMemory := by
  simp only [Stores.rememberFact, bind_eq_ok, pure_eq_ok] at h
  obtain ⟨memory, -, rfl⟩ := h
  exact mem_proveFact

/-- A mutation keeps every subject. -/
theorem mutate_subjects {s next : Stores} {action : SelfAuthorizedFactAction} {m : Mutation}
    {subject : PersonalMemorySubject} (h : s.mutate C action subject m = .ok next) {key : String}
    (hkey : key ∈ s.personalMemory) : key ∈ next.personalMemory := by
  cases m with
  | choice choice =>
    cases h
    exact Std.ExtTreeMap.mem_insert.mpr (.inr hkey)
  | confirm key' exact =>
    simp only [Stores.mutate, bind_eq_ok, exists_unit, pure_eq_ok] at h
    obtain ⟨-, rfl⟩ := h
    exact mem_proveFact.mpr hkey
  | remember new receipt =>
    simp only [Stores.mutate, bind_eq_ok] at h
    obtain ⟨exact, -, h⟩ := h
    exact (mem_rememberFact h).mpr hkey
  | correct old new receipt =>
    simp only [Stores.mutate, bind_eq_ok, exists_unit] at h
    obtain ⟨exact, -, -, h⟩ := h
    exact (mem_rememberFact h).mpr (mem_forgetFact.mpr hkey)
  | forget exact =>
    simp only [Stores.mutate, bind_eq_ok, exists_unit, pure_eq_ok] at h
    obtain ⟨-, rfl⟩ := h
    exact mem_forgetFact.mpr hkey

/-- **An action keeps the account of the proofs.** -/
theorem Good.applyMutation {s next : Stores} (hgood : Good C B s)
    {action : SelfAuthorizedFactAction} {m : Mutation}
    (hself : action.proof.actor = action.proof.subject)
    (h : s.applyMutation C action m = .ok next) :
    Good C B next ∧ next.actions = s.actions ++ [⟨action.proof, m⟩] := by
  simp only [Stores.applyMutation, bind_eq_ok, orErr_eq_ok, pure_eq_ok] at h
  obtain ⟨subject, hs, mid, hmid, rfl⟩ := h
  refine ⟨⟨fun guild user text hkeys hfact => ?_, fun a ha => ?_⟩, rfl⟩
  · have hkeys : C.Separates
        (factsConcerned (s.actions ++ [⟨action.proof, m⟩]) guild user text) := hkeys
    unfold Accounted
    show match lastAction (s.actions ++ [_]) guild user text with
      | some a => _
      | none => _
    rw [lastAction_concat]
    rcases mutate_proofs hs hmid hfact with ⟨hold, hkept⟩ | ⟨-, new, heffect, heq⟩
    · by_cases hconcerns : MemberAction.Concerns ⟨action.proof, m⟩ guild user text
      · rw [if_pos hconcerns]
        obtain ⟨hguild, huser, hsome⟩ := hconcerns
        dsimp only at hguild huser hsome ⊢
        subst hguild huser
        cases heffect : m.effect text with
        | none =>
          rw [heffect] at hsome
          cases hsome
        | some b =>
          cases b with
          | true => exact ⟨rfl, hself⟩
          | false => exact absurd rfl (hkept rfl text heffect)
      · rw [if_neg hconcerns]
        have hearlier := factsConcerned_mono (List.subset_append_left s.actions [⟨action.proof, m⟩])
          guild user text
        exact hgood.accounted guild user text (hkeys.mono hearlier) hold
    · have hconcerns : MemberAction.Concerns ⟨action.proof, m⟩ action.proof.guild
          action.proof.subject new := ⟨rfl, rfl, by simp [heffect]⟩
      -- the new proof is for the fact of the action, which has no key in common with another one
      have hsame : (guild, user, text) = (action.proof.guild, action.proof.subject, new) :=
        hkeys (.inl rfl) (.inr ⟨_, List.mem_append_right _ (List.mem_singleton_self _), hconcerns⟩) heq
      obtain ⟨rfl, rfl, rfl⟩ : guild = action.proof.guild ∧ user = action.proof.subject ∧ text = new := by
        simpa using hsame
      rw [if_pos hconcerns]
      exact ⟨heffect, hself⟩
  · rcases List.mem_append.mp ha with ha | ha
    · exact mutate_subjects hmid (hgood.owned a ha)
    · rw [List.mem_singleton] at ha
      subst ha
      exact mutate_subjects hmid (mem_iff.mpr ⟨subject, hs⟩)

/-! ### Reconciliation -/

/-- The two states have the same proofs and actions. -/
structure SameCore (s s' : Stores) : Prop where
  proofs : ∀ key : String, s.proofsAt key = s'.proofsAt key
  actions : s.actions = s'.actions

theorem SameCore.refl (s : Stores) : SameCore s s := ⟨fun _ => rfl, rfl⟩

theorem SameCore.symm {s s' : Stores} (h : SameCore s s') : SameCore s' s :=
  ⟨fun key => (h.proofs key).symm, h.actions.symm⟩

theorem SameCore.trans {s s' s'' : Stores} (h : SameCore s s') (h' : SameCore s' s'') :
    SameCore s s'' := ⟨fun key => (h.proofs key).trans (h'.proofs key), h.actions.trans h'.actions⟩

theorem mergeSubject_proofs {target before published : PersonalMemorySubject}
    (h : target.proofs = before.proofs) :
    (mergeSubject target before published).proofs = published.proofs := by
  unfold mergeSubject
  split_ifs
  · rfl
  · dsimp only
    rw [h, mergeMap_base]

/-- The subjects of a merge have the proofs of the file, the others those in memory. -/
theorem subjects_proofs {known : UninstalledPublication} {live disk : Stores}
    (hcore : SameCore known.base live) (key : String) :
    (key ∈ disk.personalMemory → ∃ s, (known.subjects live disk)[key]? = some s ∧
      s.proofs = disk.proofsAt key) ∧
    (key ∉ disk.personalMemory → (known.subjects live disk)[key]? = live.personalMemory[key]?) := by
  have hkeys : (disk.personalMemory.toList.map Prod.fst).Nodup := by
    rw [Std.ExtTreeMap.map_fst_toList_eq_keys]
    exact Std.ExtTreeMap.nodup_keys
  have hfold := foldl_merge (f := fun target key published => mergeSubject target
    (known.base.personalMemory.getD key default) published) (d := default) hkeys
    live.personalMemory key
  refine ⟨fun hkey => ?_, fun hkey => ?_⟩
  · obtain ⟨published, hpublished⟩ := mem_iff.mp hkey
    refine ⟨_, hfold.1 published (Std.ExtTreeMap.mem_toList_iff_getElem?_eq_some.mpr hpublished), ?_⟩
    rw [mergeSubject_proofs (hcore.proofs key).symm]
    exact proofsAt_of_some hpublished
  · refine hfold.2 fun hmem => hkey ?_
    rw [Std.ExtTreeMap.map_fst_toList_eq_keys] at hmem
    exact Std.ExtTreeMap.mem_keys.mp hmem

/-- **A rebase keeps the account of the proofs.** -/
theorem Good.rebase {known : UninstalledPublication} {live disk next : Stores}
    (hlive : Good C B live) (hdisk : Good C B disk) (hcore : SameCore known.base live)
    (hpre : live.actions <+: disk.actions) (h : known.rebase C live disk = .ok next) :
    Good C B next ∧ next.actions = disk.actions ∧ live.exposure.epoch ≤ next.exposure.epoch := by
  simp only [UninstalledPublication.rebase, bind_eq_ok, exists_unit, pure_eq_ok] at h
  obtain ⟨memory, -, -, rfl⟩ := h
  have hactions : live.actions ++ disk.actions.drop known.base.actions.length = disk.actions := by
    obtain ⟨rest, hrest⟩ := hpre
    rw [hcore.actions, ← hrest, List.drop_left]
  refine ⟨⟨fun guild user text hkeys hfact => ?_, fun a ha => ?_⟩, hactions, le_max_left _ _⟩
  · have hkeys : C.Separates (factsConcerned
        (live.actions ++ disk.actions.drop known.base.actions.length) guild user text) := hkeys
    show Accounted B (live.actions ++ _) guild user text
    rw [hactions] at hkeys ⊢
    unfold Payload.proofsAt at hfact
    rw [Std.ExtTreeMap.getD_eq_getD_getElem?, Std.ExtTreeMap.getElem?_map] at hfact
    obtain ⟨hin, hout⟩ := @subjects_proofs known live disk hcore (subjectKey guild user)
    by_cases hkey : subjectKey guild user ∈ disk.personalMemory
    · obtain ⟨s, hs, hproofs⟩ := hin hkey
      rw [hs, Option.map_some, Option.getD_some] at hfact
      refine hdisk.accounted guild user text hkeys ?_
      rw [← hproofs]
      exact Std.ExtTreeMap.mem_of_mem_filter hfact
    · rw [hout hkey] at hfact
      have hmem : C.factKey guild user text ∈ live.proofsAt (subjectKey guild user) := by
        unfold Payload.proofsAt
        rw [Std.ExtTreeMap.getD_eq_getD_getElem?]
        cases hs : live.personalMemory[subjectKey guild user]? with
        | none =>
          rw [hs] at hfact
          exact hfact
        | some s =>
          rw [hs] at hfact
          exact Std.ExtTreeMap.mem_of_mem_filter hfact
      have hnone : ∀ a ∈ disk.actions, ¬ (a.proof.guild = guild ∧ a.proof.subject = user) := by
        rintro a ha ⟨rfl, rfl⟩
        exact hkey (hdisk.owned a ha)
      have hearlier := factsConcerned_mono hpre.subset guild user text
      have haccounted := hlive.accounted guild user text (hkeys.mono hearlier) hmem
      unfold Accounted at haccounted ⊢
      rw [lastAction_eq_none hnone]
      rwa [lastAction_eq_none fun a ha => hnone a (hpre.subset ha)] at haccounted
  · have ha : a ∈ disk.actions := hactions ▸ ha
    obtain ⟨s, hs, -⟩ := (@subjects_proofs known live disk hcore _).1 (hdisk.owned a ha)
    exact Std.ExtTreeMap.mem_map.mpr (mem_iff.mpr ⟨s, hs⟩)

end AbbeyBot.PersonalMemory
