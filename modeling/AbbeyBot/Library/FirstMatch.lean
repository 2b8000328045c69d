import Mathlib

/-! # Updating the first match

`iter_mut().find(p)` writes to the first element of a list that satisfies `p`. The specification is a
split of the list around that element; what a search finds afterwards follows from it. -/

namespace AbbeyBot.Library.FirstMatch

variable {α β : Type} {p q : α → Bool} {f : α → α} {l l' : List α}

/-- The first element with `p` is rewritten by `f`. -/
def updateFirst (p : α → Bool) (f : α → α) : List α → Option (List α)
  | [] => none
  | a :: l => if p a then some (f a :: l) else (updateFirst p f l).map (a :: ·)

theorem updateFirst_eq_some (h : updateFirst p f l = some l') :
    ∃ before a after, l = before ++ a :: after ∧ (∀ b ∈ before, p b = false) ∧ p a = true ∧
      l' = before ++ f a :: after := by
  induction l generalizing l' with
  | nil => cases h
  | cons a l ih =>
    rw [updateFirst] at h
    split_ifs at h with ha
    · cases h
      exact ⟨[], a, l, rfl, fun _ h => (List.not_mem_nil h).elim, ha, rfl⟩
    · obtain ⟨rest, hrest, rfl⟩ := Option.map_eq_some_iff.mp h
      obtain ⟨before, b, after, rfl, hbefore, hb, rfl⟩ := ih hrest
      refine ⟨a :: before, b, after, rfl, fun c hc => ?_, hb, rfl⟩
      rcases List.mem_cons.mp hc with rfl | hc
      · exact Bool.eq_false_iff.mpr ha
      · exact hbefore c hc

theorem updateFirst_eq_none (h : updateFirst p f l = none) : l.find? p = none := by
  induction l with
  | nil => rfl
  | cons a l ih =>
    rw [updateFirst] at h
    split_ifs at h with ha
    rw [List.find?_cons_of_neg ha]
    exact ih (Option.map_eq_none_iff.mp h)

theorem exists_updateFirst {a : α} (h : l.find? p = some a) : ∃ l', updateFirst p f l = some l' := by
  cases hupdate : updateFirst p f l with
  | some l' => exact ⟨l', rfl⟩
  | none => rw [updateFirst_eq_none hupdate] at h; cases h

/-- What the update leaves alone in every element with `p` is left alone in the list. -/
theorem map_updateFirst {g : α → β} (hg : ∀ a, p a = true → g (f a) = g a)
    (h : updateFirst p f l = some l') : l'.map g = l.map g := by
  obtain ⟨before, a, after, rfl, -, ha, rfl⟩ := updateFirst_eq_some h
  rw [List.map_append, List.map_append, List.map_cons, List.map_cons, hg a ha]

/-- The element that was found is found rewritten. -/
theorem find?_updateFirst (hf : ∀ a, p a = true → p (f a) = true)
    (h : updateFirst p f l = some l') : l'.find? p = (l.find? p).map f := by
  obtain ⟨before, a, after, rfl, hbefore, ha, rfl⟩ := updateFirst_eq_some h
  have hnone : before.find? p = none :=
    List.find?_eq_none.mpr fun b hb => Bool.eq_false_iff.mp (hbefore b hb)
  rw [List.find?_append, List.find?_append, hnone, Option.none_or, Option.none_or,
    List.find?_cons_of_pos ha, List.find?_cons_of_pos (hf a ha), Option.map_some]

/-- A search for something else finds what it found before. -/
theorem find?_updateFirst_of_disjoint (hq : ∀ a, p a = true → q a = false ∧ q (f a) = false)
    (h : updateFirst p f l = some l') : l'.find? q = l.find? q := by
  obtain ⟨before, a, after, rfl, -, ha, rfl⟩ := updateFirst_eq_some h
  rw [List.find?_append, List.find?_append,
    List.find?_cons_of_neg (Bool.eq_false_iff.mp (hq a ha).1),
    List.find?_cons_of_neg (Bool.eq_false_iff.mp (hq a ha).2)]

/-- The first match is in the front of the list, or in its back. -/
theorem updateFirst_append (r : List α) : updateFirst p f (l ++ r) =
    ((updateFirst p f l).map (· ++ r)).or ((updateFirst p f r).map (l ++ ·)) := by
  induction l with
  | nil =>
    rw [List.nil_append, updateFirst, Option.map_none, Option.none_or]
    exact Option.map_id'.symm
  | cons a l ih =>
    rw [List.cons_append, updateFirst, updateFirst]
    split_ifs
    · rfl
    · rw [ih]
      cases updateFirst p f l with
      | some l' => rfl
      | none => simp only [Option.map_none, Option.none_or, Option.map_map]; rfl

/-- Where the match is found in a related list, it is found. -/
theorem exists_updateFirst_of_forall₂ {R : β → α → Prop} {q : β → Bool} {m : List β}
    (hR : m.Forall₂ R l) (hq : ∀ b a, R b a → q b = p a) {b : β} (hfind : m.find? q = some b) :
    ∃ l', updateFirst p f l = some l' := by
  induction hR with
  | nil => cases hfind
  | @cons b' a m l hba hR ih =>
    rw [updateFirst]
    split_ifs with ha
    · exact ⟨_, rfl⟩
    · rw [List.find?_cons_of_neg (by rwa [hq b' a hba])] at hfind
      obtain ⟨l', hl'⟩ := ih hfind
      exact ⟨a :: l', by rw [hl', Option.map_some]⟩

/-- A relation to another list is kept where it is kept at the first match. -/
theorem forall₂_updateFirst {R : β → α → Prop} {q : β → Bool} {m : List β} (hR : m.Forall₂ R l)
    (hq : ∀ b a, R b a → q b = p a)
    (hf : ∀ b a, m.find? q = some b → R b a → p a = true → R b (f a))
    (h : updateFirst p f l = some l') : m.Forall₂ R l' := by
  induction hR generalizing l' with
  | nil => cases h
  | @cons b a m l hba hR ih =>
    rw [updateFirst] at h
    split_ifs at h with ha
    · cases h
      exact .cons (hf b a (List.find?_cons_of_pos ((hq b a hba).trans ha)) hba ha) hR
    · obtain ⟨rest, hrest, rfl⟩ := Option.map_eq_some_iff.mp h
      have hb : ¬ q b = true := by rwa [hq b a hba]
      exact .cons hba (ih (fun b' a' hfind => hf b' a' (by rwa [List.find?_cons_of_neg hb])) hrest)

/-- Every element is as it was, or has matched and is rewritten. -/
theorem forall₂_of_updateFirst (h : updateFirst p f l = some l') :
    l.Forall₂ (fun a a' => a' = a ∨ p a = true ∧ a' = f a) l' := by
  obtain ⟨before, a, after, rfl, -, ha, rfl⟩ := updateFirst_eq_some h
  have hsame (l : List α) : l.Forall₂ (fun a a' => a' = a ∨ p a = true ∧ a' = f a) l :=
    List.forall₂_same.mpr fun _ _ => .inl rfl
  exact List.rel_append (hsame before) (.cons (.inr ⟨ha, rfl⟩) (hsame after))

theorem mem_updateFirst {a' : α} (h : updateFirst p f l = some l') (ha' : a' ∈ l') :
    ∃ a ∈ l, a' = a ∨ a' = f a := by
  obtain ⟨before, a, after, rfl, -, -, rfl⟩ := updateFirst_eq_some h
  rcases List.mem_append.mp ha' with hbefore | hrest
  · exact ⟨a', List.mem_append_left _ hbefore, .inl rfl⟩
  · rcases List.mem_cons.mp hrest with rfl | hafter
    · exact ⟨a, List.mem_append_right _ List.mem_cons_self, .inr rfl⟩
    · exact ⟨a', List.mem_append_right _ (List.mem_cons_of_mem _ hafter), .inl rfl⟩

/-! ### Related lists -/

theorem exists_of_forall₂ {R : α → β → Prop} {m : List β} (h : l.Forall₂ R m) {a : α} (ha : a ∈ l) :
    ∃ b ∈ m, R a b := by
  induction h with
  | nil => exact (List.not_mem_nil ha).elim
  | cons hab _ ih =>
    rcases List.mem_cons.mp ha with rfl | ha
    · exact ⟨_, List.mem_cons_self, hab⟩
    · obtain ⟨b, hb, hR⟩ := ih ha
      exact ⟨b, List.mem_cons_of_mem _ hb, hR⟩

theorem forall₂_append_left {R : α → β → Prop} {m : List β} (h : (l ++ l').Forall₂ R m) :
    ∃ front back, m = front ++ back ∧ l.Forall₂ R front ∧ l'.Forall₂ R back := by
  induction l generalizing m with
  | nil => exact ⟨[], m, rfl, .nil, h⟩
  | cons a l ih =>
    rw [List.cons_append] at h
    cases h with
    | cons hab hrest =>
      obtain ⟨front, back, rfl, hfront, hback⟩ := ih hrest
      exact ⟨_ :: front, back, rfl, .cons hab hfront, hback⟩

theorem map_eq_of_forall₂ {γ : Type} {R : α → β → Prop} {f : α → γ} {g : β → γ} {m : List β}
    (h : l.Forall₂ R m) (hR : ∀ a b, R a b → g b = f a) : m.map g = l.map f := by
  induction h with
  | nil => rfl
  | cons hab _ ih => rw [List.map_cons, List.map_cons, hR _ _ hab, ih]

/-- Two relations make a third, at the elements of the first list. -/
theorem forall₂_comp {γ : Type} {R : α → β → Prop} {S : β → γ → Prop} {T : α → γ → Prop}
    {m : List β} {n : List γ} (h : l.Forall₂ R m) (h' : m.Forall₂ S n)
    (hT : ∀ a ∈ l, ∀ b c, R a b → S b c → T a c) : l.Forall₂ T n := by
  induction h generalizing n with
  | nil =>
    cases h'
    exact .nil
  | cons hab _ ih =>
    cases h' with
    | cons hbc hrest =>
      exact .cons (hT _ List.mem_cons_self _ _ hab hbc)
        (ih hrest fun a ha => hT a (List.mem_cons_of_mem _ ha))

end AbbeyBot.Library.FirstMatch
