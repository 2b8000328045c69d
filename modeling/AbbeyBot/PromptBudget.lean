import Mathlib

/-! # Prompts that fit a budget

A prompt has fixed parts, ranked facts and the turns of the conversation. Where it costs more than the
budget, the oldest turns are dropped, then the facts from the least relevant one; the last user turn
and what follows it stay. Where the fixed parts and these turns alone cost more, nothing is dropped, and
the provider reports that its context is exceeded.

Relevance is any linear order (`f32::total_cmp`), the arguments of a tool call are any printable
values. -/

namespace AbbeyBot.PromptBudget

/-! ### Prompts -/

inductive Role where
  | user
  | assistant
  | tool
  deriving DecidableEq, Repr

structure ToolCall (J : Type) where
  id : String
  name : String
  arguments : J
  deriving DecidableEq

structure ChatTurn (J : Type) where
  role : Role
  text : String
  toolCalls : List (ToolCall J)
  toolCallId : Option String
  deriving DecidableEq

structure PromptParts (S J : Type) where
  core : String
  guidance : String
  addenda : String
  standing : String
  facts : List (S × String)
  turns : List (ChatTurn J)
  deriving DecidableEq

/-- `CHARS_PER_TOKEN`. -/
def charsPerToken : ℕ := 3

/-- A character that is not ASCII costs a token. -/
def budgetLen (text : String) : ℕ :=
  (text.toList.map fun c => if c.toNat < 128 then 1 else charsPerToken).sum

variable {S J : Type} [ToString J]

def turnCost (turn : ChatTurn J) : ℕ :=
  budgetLen turn.text + (turn.toolCalls.map fun call =>
    budgetLen call.id + budgetLen call.name + budgetLen (toString call.arguments)).sum +
    turn.toolCallId.elim 0 budgetLen

def turnsCost (turns : List (ChatTurn J)) : ℕ := (turns.map turnCost).sum

def factsCost (facts : List (S × String)) : ℕ := (facts.map fun fact => budgetLen fact.2).sum

namespace PromptParts

omit [ToString J] in
def fixedCost (p : PromptParts S J) : ℕ :=
  budgetLen p.core + budgetLen p.guidance + budgetLen p.addenda + budgetLen p.standing

def cost (p : PromptParts S J) : ℕ := p.fixedCost + factsCost p.facts + turnsCost p.turns

end PromptParts

/-- `last_user`: the place of the last user turn. -/
def lastUser : List (ChatTurn J) → Option ℕ
  | [] => none
  | turn :: turns => match lastUser turns with
    | some i => some (i + 1)
    | none => if turn.role = .user then some 0 else none

/-! ### Dropping -/

/-- The oldest turns go while the prompt is too long; what may still be dropped is counted. -/
def dropOldest (budget : ℕ) : ℕ → PromptParts S J → ℕ × PromptParts S J
  | 0, p => (0, p)
  | droppable + 1, p =>
    if budget < p.cost then dropOldest budget droppable { p with turns := p.turns.tail }
    else (droppable + 1, p)

/-- Turns go until a user turn is first. -/
def alignToUser : ℕ → PromptParts S J → PromptParts S J
  | 0, p => p
  | droppable + 1, p =>
    if (p.turns.head?).any (·.role ≠ .user) then
      alignToUser droppable { p with turns := p.turns.tail }
    else p

/-- The row ranks below the other: it is less relevant, or as relevant and further down. -/
def RanksBelow [LT S] (a b : (S × String) × ℕ) : Prop :=
  a.1.1 < b.1.1 ∨ (a.1.1 = b.1.1 ∧ b.2 < a.2)

instance [LinearOrder S] (a b : (S × String) × ℕ) : Decidable (RanksBelow a b) :=
  inferInstanceAs (Decidable (_ ∨ _))

/-- The place of the fact that ranks lowest. -/
def weakest [LinearOrder S] (facts : List (S × String)) : Option ℕ :=
  match facts.zipIdx with
  | [] => none
  | row :: rows => some (rows.foldl (fun best row => if RanksBelow row best then row else best) row).2

/-- Facts go while the prompt is too long; the bound is the number of facts. -/
def dropFacts [LinearOrder S] (budget : ℕ) : ℕ → PromptParts S J → PromptParts S J
  | 0, p => p
  | n + 1, p =>
    if budget < p.cost then
      match weakest p.facts with
      | none => p
      | some i => dropFacts budget n { p with facts := p.facts.eraseIdx i }
    else p

/-- What stays whatever the budget: the fixed parts, the last user turn and what follows it. -/
def floorCost (p : PromptParts S J) : ℕ :=
  p.fixedCost + turnsCost (p.turns.drop ((lastUser p.turns).getD 0))

def fit [LinearOrder S] (p : PromptParts S J) (budget : ℕ) : PromptParts S J :=
  if p.cost ≤ budget then p
  else if budget < floorCost p then p
  else
    let (droppable, fitted) := dropOldest budget ((lastUser p.turns).getD 0) p
    let fitted := alignToUser droppable fitted
    dropFacts budget fitted.facts.length fitted

/-! ### The last user turn -/

omit [ToString J] in
theorem lastUser_lt {turns : List (ChatTurn J)} {i : ℕ} (h : lastUser turns = some i) :
    ∃ turn, turns[i]? = some turn ∧ turn.role = .user := by
  induction turns generalizing i with
  | nil => cases h
  | cons turn turns ih =>
    rw [lastUser] at h
    cases hrest : lastUser turns with
    | some j =>
      rw [hrest] at h
      cases h
      exact ih hrest
    | none =>
      rw [hrest] at h
      dsimp only at h
      split_ifs at h with hrole
      cases h
      exact ⟨turn, rfl, hrole⟩

/-! ### Turns that are dropped -/

/-- The prompt without its first turns. -/
def PromptParts.dropTurns (p : PromptParts S J) (k : ℕ) : PromptParts S J :=
  { p with turns := p.turns.drop k }

omit [ToString J] in
theorem dropTurns_dropTurns (p : PromptParts S J) (k l : ℕ) :
    (p.dropTurns k).dropTurns l = p.dropTurns (k + l) := by
  unfold PromptParts.dropTurns
  rw [List.drop_drop]

omit [ToString J] in
theorem dropTurns_one (p : PromptParts S J) : ({ p with turns := p.turns.tail } : PromptParts S J) =
    p.dropTurns 1 := by
  unfold PromptParts.dropTurns
  rw [List.drop_one]

theorem turnsCost_drop_le (turns : List (ChatTurn J)) (k : ℕ) :
    turnsCost (turns.drop k) ≤ turnsCost turns :=
  ((List.drop_sublist k turns).map turnCost).sum_le_sum fun _ _ => Nat.zero_le _

theorem cost_dropTurns_le (p : PromptParts S J) (k : ℕ) : (p.dropTurns k).cost ≤ p.cost :=
  Nat.add_le_add_left (turnsCost_drop_le p.turns k) _

/-- The oldest turns are dropped, all that may be or until the prompt fits. -/
theorem dropOldest_spec (budget droppable : ℕ) (p : PromptParts S J) :
    ∃ k ≤ droppable, dropOldest budget droppable p = (droppable - k, p.dropTurns k) ∧
      (k < droppable → (p.dropTurns k).cost ≤ budget) := by
  induction droppable generalizing p with
  | zero => exact ⟨0, le_rfl, rfl, nofun⟩
  | succ droppable ih =>
    unfold dropOldest
    split_ifs with hover
    · obtain ⟨k, hk, heq, hfits⟩ := ih (p.dropTurns 1)
      rw [dropTurns_one, heq, dropTurns_dropTurns]
      rw [dropTurns_dropTurns] at hfits
      exact ⟨1 + k, by omega, by rw [Nat.add_comm 1 k, Nat.add_sub_add_right],
        fun hlt => hfits (by omega)⟩
    · exact ⟨0, Nat.zero_le _, rfl, fun _ => not_lt.mp hover⟩

omit [ToString J] in
/-- Turns are dropped up to a user turn, or all that may be. -/
theorem alignToUser_spec (droppable : ℕ) (p : PromptParts S J) :
    ∃ k ≤ droppable, alignToUser droppable p = p.dropTurns k ∧
      (k < droppable → ∀ turn ∈ (p.turns.drop k).head?, turn.role = .user) := by
  induction droppable generalizing p with
  | zero => exact ⟨0, le_rfl, rfl, nofun⟩
  | succ droppable ih =>
    unfold alignToUser
    split_ifs with hother
    · obtain ⟨k, hk, heq, hfirst⟩ := ih (p.dropTurns 1)
      rw [dropTurns_one, heq, dropTurns_dropTurns]
      refine ⟨1 + k, by omega, rfl, fun hlt => ?_⟩
      have hrest := hfirst (by omega)
      unfold PromptParts.dropTurns at hrest
      rwa [List.drop_drop] at hrest
    · refine ⟨0, Nat.zero_le _, rfl, fun _ turn hturn => ?_⟩
      by_contra hrole
      refine hother ?_
      rw [List.drop_zero, Option.mem_def] at hturn
      rw [hturn]
      simpa using hrole

/-! ### Facts that are dropped -/

section Facts

variable [LinearOrder S]

omit [ToString J] in
theorem ranksBelow_trichotomy {a b : (S × String) × ℕ} (hne : a.2 ≠ b.2) :
    RanksBelow a b ∨ RanksBelow b a := by
  unfold RanksBelow
  rcases lt_trichotomy a.1.1 b.1.1 with h | h | h
  · exact .inl (.inl h)
  · rcases Nat.lt_or_gt_of_ne hne with hlt | hlt
    · exact .inr (.inr ⟨h.symm, hlt⟩)
    · exact .inl (.inr ⟨h, hlt⟩)
  · exact .inr (.inl h)

theorem ranksBelow_trans {a b c : (S × String) × ℕ} (hab : RanksBelow a b) (hbc : RanksBelow b c) :
    RanksBelow a c := by
  unfold RanksBelow at *
  rcases hab with hab | ⟨hab, hlt⟩ <;> rcases hbc with hbc | ⟨hbc, hlt'⟩
  · exact .inl (hab.trans hbc)
  · exact .inl (hbc ▸ hab)
  · exact .inl (hab ▸ hbc)
  · exact .inr ⟨hab.trans hbc, hlt'.trans hlt⟩

/-- A scan finds a row of the list that no other one ranks below. -/
theorem foldl_lowest (rows : List ((S × String) × ℕ)) (first : (S × String) × ℕ)
    (hnodup : ((first :: rows).map Prod.snd).Nodup) :
    let found := rows.foldl (fun best row => if RanksBelow row best then row else best) first
    found ∈ first :: rows ∧ ∀ row ∈ first :: rows, row ≠ found → RanksBelow found row := by
  induction rows generalizing first with
  | nil =>
    refine ⟨List.mem_cons_self, fun row hrow hne => ?_⟩
    rw [List.mem_singleton] at hrow
    exact absurd hrow hne
  | cons next rows ih =>
    rw [List.map_cons, List.map_cons, List.nodup_cons, List.nodup_cons] at hnodup
    obtain ⟨hfirst, hnext, hrest⟩ := hnodup
    rw [List.mem_cons, not_or] at hfirst
    dsimp only
    rw [List.foldl_cons]
    split_ifs with hbelow
    · obtain ⟨hmem, hlowest⟩ := ih next (by
        rw [List.map_cons, List.nodup_cons]
        exact ⟨hnext, hrest⟩)
      refine ⟨List.mem_cons_of_mem _ hmem, fun row hrow hne => ?_⟩
      rcases List.mem_cons.mp hrow with rfl | hrow
      · by_cases heq : next = rows.foldl (fun best row => if RanksBelow row best then row else best) next
        · rw [← heq]
          exact hbelow
        · exact ranksBelow_trans (hlowest next List.mem_cons_self heq) hbelow
      · exact hlowest row hrow hne
    · obtain ⟨hmem, hlowest⟩ := ih first (by
        rw [List.map_cons, List.nodup_cons]
        exact ⟨hfirst.2, hrest⟩)
      have habove : RanksBelow first next := (ranksBelow_trichotomy hfirst.1).resolve_right hbelow
      refine ⟨?_, fun row hrow hne => ?_⟩
      · rcases List.mem_cons.mp hmem with heq | hmem
        · rw [heq]
          exact List.mem_cons_self
        · exact List.mem_cons_of_mem _ (List.mem_cons_of_mem _ hmem)
      · rcases List.mem_cons.mp hrow with rfl | hrow
        · exact hlowest _ List.mem_cons_self hne
        · rcases List.mem_cons.mp hrow with rfl | hrow
          · by_cases heq : first =
                rows.foldl (fun best row => if RanksBelow row best then row else best) first
            · rw [← heq]
              exact habove
            · exact ranksBelow_trans (hlowest first List.mem_cons_self heq) habove
          · exact hlowest row (List.mem_cons_of_mem _ hrow) hne

theorem weakest_eq_none {facts : List (S × String)} (h : weakest facts = none) : facts = [] := by
  cases facts with
  | nil => rfl
  | cons fact facts =>
    unfold weakest at h
    simp at h

/-- The weakest fact ranks below every other one. -/
theorem weakest_spec {facts : List (S × String)} {i : ℕ} (h : weakest facts = some i) :
    ∃ fact, facts[i]? = some fact ∧ ∀ (j : ℕ) (other : S × String), facts[j]? = some other → j ≠ i →
      RanksBelow (fact, i) (other, j) := by
  unfold weakest at h
  split at h
  · cases h
  · rename_i row rows hrows
    have hnodup : ((row :: rows).map Prod.snd).Nodup := by
      rw [← hrows, List.zipIdx_map_snd]
      exact List.nodup_range'
    obtain ⟨hmem, hlowest⟩ := foldl_lowest rows row hnodup
    rw [Option.some.injEq] at h
    rw [← hrows] at hmem hlowest
    generalize rows.foldl (fun best row => if RanksBelow row best then row else best) row = found at *
    obtain ⟨fact, place⟩ := found
    cases h
    refine ⟨fact, List.mem_zipIdx_iff_getElem?.mp hmem, fun j other hj hne => ?_⟩
    refine hlowest (other, j) (List.mem_zipIdx_iff_getElem?.mpr hj) ?_
    intro heq
    exact hne (Prod.mk.inj heq).2

/-- The facts that are dropped rank below all that are kept, and the prompt fits or none are left. -/
theorem dropFacts_spec (budget n : ℕ) (p : PromptParts S J) (rows : List ((S × String) × ℕ))
    (hfacts : rows.map Prod.fst = p.facts) (hplaces : (rows.map Prod.snd).Pairwise (· < ·))
    (hn : rows.length ≤ n) :
    ∃ kept : List ((S × String) × ℕ), kept.Sublist rows ∧
      dropFacts budget n p = { p with facts := kept.map Prod.fst } ∧
      (∀ x ∈ kept, ∀ y ∈ rows, y ∉ kept → RanksBelow y x) ∧
      ((dropFacts budget n p).cost ≤ budget ∨ kept = []) ∧ (kept = rows ∨ budget < p.cost) := by
  induction n generalizing p rows with
  | zero =>
    rw [Nat.le_zero, List.length_eq_zero_iff] at hn
    subst hn
    refine ⟨[], .refl _, ?_, nofun, .inr rfl, .inl rfl⟩
    rw [dropFacts, hfacts]
  | succ n ih =>
    have hsame : ({ p with facts := rows.map Prod.fst } : PromptParts S J) = p := by rw [hfacts]
    unfold dropFacts
    split_ifs with hover
    · cases hweakest : weakest p.facts with
      | none =>
        have hempty : rows = [] := by
          have h := weakest_eq_none hweakest
          rw [← hfacts] at h
          exact List.map_eq_nil_iff.mp h
        subst hempty
        exact ⟨[], .refl _, hsame.symm, nofun, .inr rfl, .inl rfl⟩
      | some i =>
        obtain ⟨fact, hfact, hlowest⟩ := weakest_spec hweakest
        rw [← hfacts, List.getElem?_map, Option.map_eq_some_iff] at hfact
        obtain ⟨low, hlow, rfl⟩ := hfact
        obtain ⟨hi, -⟩ := List.getElem?_eq_some_iff.mp hlow
        dsimp only
        obtain ⟨kept, hsub, heq, hranks, hdone, -⟩ := ih { p with facts := p.facts.eraseIdx i }
          (rows.eraseIdx i) (by rw [← hfacts, List.eraseIdx_map])
          (by rw [← List.eraseIdx_map]; exact hplaces.sublist (List.eraseIdx_sublist _ _))
          (by rw [List.length_eraseIdx_of_lt hi]; omega)
        refine ⟨kept, hsub.trans (List.eraseIdx_sublist _ _), heq, fun x hx y hy hdropped => ?_, hdone,
          .inr hover⟩
        by_cases hmem : y ∈ rows.eraseIdx i
        · exact hranks x hx y hmem hdropped
        · obtain ⟨j, hj, hx⟩ := List.mem_eraseIdx_iff_getElem?.mp (hsub.subset hx)
          have hy' : y = low := by
            obtain ⟨k, hk⟩ := List.mem_iff_getElem?.mp hy
            by_cases hki : k = i
            · rw [hki, hlow] at hk
              exact (Option.some.inj hk).symm
            · exact absurd (List.mem_eraseIdx_iff_getElem?.mpr ⟨k, hki, hk⟩) hmem
          subst hy'
          have hbelow := hlowest j x.1 (by rw [← hfacts, List.getElem?_map, hx, Option.map_some]) hj
          rcases hbelow with hlt | ⟨hsameScore, hlt⟩
          · exact .inl hlt
          · refine .inr ⟨hsameScore, ?_⟩
            obtain ⟨hjlt, hxj⟩ := List.getElem?_eq_some_iff.mp hx
            obtain ⟨hilt, hyi⟩ := List.getElem?_eq_some_iff.mp hlow
            have hpair := List.pairwise_iff_getElem.mp hplaces j i (by simpa using hjlt)
              (by simpa using hilt) hlt
            rw [List.getElem_map, List.getElem_map, hxj, hyi] at hpair
            exact hpair
    · exact ⟨rows, .refl _, hsame.symm, fun x hx y hy hdropped => absurd hy hdropped,
        .inl (not_lt.mp hover), .inl rfl⟩

/-! ### The fitted prompt -/

/-- What `fit` makes of a prompt. -/
structure Fitted (p q : PromptParts S J) (budget : ℕ) : Prop where
  core : q.core = p.core
  guidance : q.guidance = p.guidance
  addenda : q.addenda = p.addenda
  standing : q.standing = p.standing
  /-- It is affordable, or nothing can be done about it. -/
  affordable : q.cost ≤ budget ∨ (budget < floorCost p ∧ q = p)
  /-- The last user turn and what follows it are kept, and a user turn is first. -/
  turns : ∃ k ≤ (lastUser p.turns).getD 0, q.turns = p.turns.drop k ∧
    (0 < k → ∃ turn, q.turns.head? = some turn ∧ turn.role = .user)
  /-- The facts that are dropped rank below all that are kept. -/
  facts : ∃ kept : List ((S × String) × ℕ), kept.Sublist p.facts.zipIdx ∧
    q.facts = kept.map Prod.fst ∧
    ∀ x ∈ kept, ∀ y ∈ p.facts.zipIdx, y ∉ kept → RanksBelow y x
  /-- Facts are dropped after the turns. -/
  turnsFirst : q.facts ≠ p.facts → q.turns = p.turns.drop ((lastUser p.turns).getD 0)

theorem fitted_refl {p : PromptParts S J} {budget : ℕ}
    (h : p.cost ≤ budget ∨ budget < floorCost p) : Fitted p p budget where
  core := rfl
  guidance := rfl
  addenda := rfl
  standing := rfl
  affordable := h.imp_right fun hfloor => ⟨hfloor, rfl⟩
  turns := ⟨0, Nat.zero_le _, List.drop_zero.symm, nofun⟩
  facts := ⟨p.facts.zipIdx, .refl _, (List.zipIdx_map_fst _ _).symm,
    fun _ _ _ hy hdropped => absurd hy hdropped⟩
  turnsFirst h := absurd rfl h

omit [LinearOrder S] in
/-- The turns that are left after the first two loops. -/
theorem fitted_turns {p : PromptParts S J} {budget droppable : ℕ} {fitted : PromptParts S J}
    (h : dropOldest budget ((lastUser p.turns).getD 0) p = (droppable, fitted)) :
    ∃ k ≤ (lastUser p.turns).getD 0, alignToUser droppable fitted = p.dropTurns k ∧
      (0 < k → ∃ turn, (p.turns.drop k).head? = some turn ∧ turn.role = .user) ∧
      (k < (lastUser p.turns).getD 0 → (p.dropTurns k).cost ≤ budget) := by
  obtain ⟨k, hk, heq, hfits⟩ := dropOldest_spec budget ((lastUser p.turns).getD 0) p
  rw [h, Prod.mk.injEq] at heq
  obtain ⟨rfl, rfl⟩ := heq
  obtain ⟨l, hl, haligned, hfirst⟩ := alignToUser_spec ((lastUser p.turns).getD 0 - k) (p.dropTurns k)
  rw [haligned, dropTurns_dropTurns]
  refine ⟨k + l, by omega, rfl, fun hpos => ?_, fun hlt => ?_⟩
  · by_cases hall : k + l = (lastUser p.turns).getD 0
    · cases huser : lastUser p.turns with
      | none =>
        rw [huser, Option.getD_none] at hall
        omega
      | some i =>
        obtain ⟨turn, hturn, hrole⟩ := lastUser_lt huser
        rw [hall, huser, Option.getD_some, List.head?_drop]
        exact ⟨turn, hturn, hrole⟩
    · have huser := hfirst (by omega)
      unfold PromptParts.dropTurns at huser
      rw [List.drop_drop] at huser
      obtain ⟨i, hi⟩ : ∃ i, lastUser p.turns = some i := by
        cases huser : lastUser p.turns with
        | none =>
          rw [huser, Option.getD_none] at hl hk
          omega
        | some i => exact ⟨i, rfl⟩
      obtain ⟨turn, hturn, -⟩ := lastUser_lt hi
      obtain ⟨hlen, -⟩ := List.getElem?_eq_some_iff.mp hturn
      rw [hi, Option.getD_some] at hl hk hall
      have hhead : (p.turns.drop (k + l)).head? = some p.turns[k + l] := by
        rw [List.head?_drop, List.getElem?_eq_getElem]
      exact ⟨_, hhead, huser _ hhead⟩
  · have hless := hfits (by omega)
    have hle := cost_dropTurns_le (p.dropTurns k) l
    rw [dropTurns_dropTurns] at hle
    exact hle.trans hless

omit [LinearOrder S] in
theorem factsCost_nil : factsCost ([] : List (S × String)) = 0 := rfl

/-- **Fitting a prompt.** The result costs at most the budget, or the undroppable parts alone cost more
and it is the prompt itself; its fixed parts are kept, its turns are those from a user turn on, the
last one included; a fact is dropped after the turns and in the order of relevance; and fitting it
again changes nothing. -/
theorem fit_spec (p : PromptParts S J) (budget : ℕ) :
    Fitted p (fit p budget) budget ∧ fit (fit p budget) budget = fit p budget := by
  have hagain : ∀ q : PromptParts S J, q.cost ≤ budget → fit q budget = q := fun q hq => if_pos hq
  by_cases hcost : p.cost ≤ budget
  · rw [hagain p hcost]
    exact ⟨fitted_refl (.inl hcost), hagain p hcost⟩
  by_cases hfloor : budget < floorCost p
  · have hsame : fit p budget = p := by
      unfold fit
      rw [if_neg hcost, if_pos hfloor]
    rw [hsame]
    exact ⟨fitted_refl (.inr hfloor), hsame⟩
  have hfit : ∃ k ≤ (lastUser p.turns).getD 0,
      fit p budget = dropFacts budget p.facts.length (p.dropTurns k) ∧
      (0 < k → ∃ turn, (p.turns.drop k).head? = some turn ∧ turn.role = .user) ∧
      (k < (lastUser p.turns).getD 0 → (p.dropTurns k).cost ≤ budget) := by
    obtain ⟨k, hk, haligned, hfirst, hfits⟩ := fitted_turns
      (rfl : dropOldest budget ((lastUser p.turns).getD 0) p = _)
    refine ⟨k, hk, ?_, hfirst, hfits⟩
    unfold fit
    rw [if_neg hcost, if_neg hfloor]
    dsimp only
    rw [haligned]
    rfl
  obtain ⟨k, hk, hfit, hfirst, hfits⟩ := hfit
  obtain ⟨kept, hsub, heq, hranks, hdone, hover⟩ := dropFacts_spec budget p.facts.length
    (p.dropTurns k) p.facts.zipIdx (List.zipIdx_map_fst _ _)
    (by rw [List.zipIdx_map_snd]; exact List.pairwise_lt_range') (by rw [List.length_zipIdx])
  have hturns : (fit p budget).turns = p.turns.drop k := by rw [hfit, heq]; rfl
  have hfacts : (fit p budget).facts = kept.map Prod.fst := by rw [hfit, heq]
  have haffordable : (fit p budget).cost ≤ budget := by
    rw [hfit]
    refine hdone.elim id fun hnone => ?_
    by_cases hlt : k < (lastUser p.turns).getD 0
    · have hkept := hover.resolve_right (not_lt.mpr (hfits hlt))
      rw [heq, hkept, List.zipIdx_map_fst]
      exact hfits hlt
    · have hlast : k = (lastUser p.turns).getD 0 := by omega
      unfold floorCost at hfloor
      rw [← hlast] at hfloor
      rw [heq, hnone]
      show p.fixedCost + factsCost ([] : List (S × String)) + turnsCost (p.turns.drop k) ≤ budget
      rw [factsCost_nil]
      omega
  refine ⟨⟨by rw [hfit, heq]; rfl, by rw [hfit, heq]; rfl, by rw [hfit, heq]; rfl,
    by rw [hfit, heq]; rfl, .inl haffordable, ⟨k, hk, hturns, ?_⟩, ⟨kept, hsub, hfacts, hranks⟩, ?_⟩,
    hagain _ haffordable⟩
  · rw [hturns]
    exact hfirst
  · intro hdropped
    rw [hturns]
    by_cases hlt : k < (lastUser p.turns).getD 0
    · have hkept := hover.resolve_right (not_lt.mpr (hfits hlt))
      rw [hfacts, hkept, List.zipIdx_map_fst] at hdropped
      exact absurd rfl hdropped
    · rw [show k = (lastUser p.turns).getD 0 by omega]

/-- The persona alone is too long for the budget: the fact is not dropped. -/
theorem over_floor_untrimmed :
    let p : PromptParts ℕ String := ⟨"core", "", "", "", [(1, "fact")], []⟩
    fit p 3 = p ∧ 3 < (fit p 3).cost ∧ (fit p 3).facts ≠ [] := by
  decide

end Facts

end AbbeyBot.PromptBudget
