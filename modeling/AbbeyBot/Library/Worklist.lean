import Mathlib

/-! # Worklists

A planner compares a state with what is wanted, item by item, and lists the changes that are still
missing; an executor carries them out one at a time. Where an item's change settles that item and
leaves the others as they were, the list of what is missing is consumed from the front: after any
number of changes, planning anew gives exactly the rest, and after all of them nothing. -/

namespace AbbeyBot.Library.Worklist

variable {S ι C : Type}

/-- The changes still missing in `s`, in the order of the items. -/
def pending (cell : ι → S → Option C) (items : List ι) (s : S) : List C :=
  items.filterMap fun i => cell i s

/-- The changes are carried out in turn, up to one that cannot be. -/
def run (step : S → C → Option S) : S → List C → Option S
  | s, [] => some s
  | s, c :: cs => (step s c).bind fun s' => run step s' cs

/-- The change of an item settles it and leaves the other items alone, once the items in front of it
are settled. -/
structure Settles (step : S → C → Option S) (I : S → Prop) (cell : ι → S → Option C)
    (items : List ι) : Prop where
  settle : ∀ before i after, items = before ++ i :: after → ∀ s c, I s →
    (∀ j ∈ before, cell j s = none) → cell i s = some c →
      ∃ s', step s c = some s' ∧ I s' ∧ cell i s' = none ∧
        ∀ j ∈ before ++ after, cell j s' = cell j s

section Run

variable {step : S → C → Option S}

theorem run_append (s : S) (cs ds : List C) :
    run step s (cs ++ ds) = (run step s cs).bind fun s' => run step s' ds := by
  induction cs generalizing s with
  | nil => rfl
  | cons c cs ih =>
    rw [List.cons_append, run, run, Option.bind_assoc]
    exact congrArg _ (funext ih)

end Run

section Pending

variable {step : S → C → Option S} {I : S → Prop} {cell : ι → S → Option C} {items : List ι}

theorem pending_eq_nil {s : S} : pending cell items s = [] ↔ ∀ i ∈ items, cell i s = none := by
  rw [pending, List.filterMap_eq_nil_iff]

theorem mem_pending {s : S} {c : C} : c ∈ pending cell items s ↔ ∃ i ∈ items, cell i s = some c := by
  rw [pending, List.mem_filterMap]

/-- The first change that is missing belongs to an item whose predecessors are settled. -/
theorem split_of_pending {s : S} {c : C} {cs : List C} (h : pending cell items s = c :: cs) :
    ∃ before i after, items = before ++ i :: after ∧ (∀ j ∈ before, cell j s = none) ∧
      cell i s = some c ∧ pending cell after s = cs := by
  obtain ⟨before, i, after, hitems, hbefore, hi, hafter⟩ := List.filterMap_eq_cons_iff.mp h
  exact ⟨before, i, after, hitems, hbefore, hi, hafter⟩

namespace Settles

variable (H : Settles step I cell items)

include H in
/-- The first missing change can be carried out, and exactly it is no longer missing. -/
theorem pending_step {s : S} (hs : I s) {c : C} {cs : List C}
    (h : pending cell items s = c :: cs) :
    ∃ s', step s c = some s' ∧ I s' ∧ pending cell items s' = cs := by
  obtain ⟨before, i, after, hitems, hbefore, hi, hafter⟩ := split_of_pending h
  obtain ⟨s', hstep, hI, hsettled, hothers⟩ := H.settle before i after hitems s c hs hbefore hi
  refine ⟨s', hstep, hI, ?_⟩
  have hfront : pending cell before s' = [] :=
    pending_eq_nil.mpr fun j hj =>
      (hothers j (List.mem_append_left after hj)).trans (hbefore j hj)
  have hback : pending cell after s' = pending cell after s :=
    List.filterMap_congr fun j hj => hothers j (List.mem_append_right before hj)
  calc pending cell items s'
      = pending cell before s' ++ pending cell (i :: after) s' := by
        rw [hitems, pending, List.filterMap_append]; rfl
    _ = pending cell (i :: after) s' := by rw [hfront, List.nil_append]
    _ = pending cell after s' := List.filterMap_cons_none hsettled
    _ = cs := hback.trans hafter

include H in
/-- **After the first `k` changes, planning anew gives exactly the rest.** -/
theorem run_take (k : ℕ) {s : S} (hs : I s) :
    ∃ s', run step s ((pending cell items s).take k) = some s' ∧ I s' ∧
      pending cell items s' = (pending cell items s).drop k := by
  induction k generalizing s with
  | zero => exact ⟨s, rfl, hs, rfl⟩
  | succ k ih =>
    cases h : pending cell items s with
    | nil => exact ⟨s, rfl, hs, h⟩
    | cons c cs =>
      obtain ⟨t, hstep, hI, hrest⟩ := H.pending_step hs h
      obtain ⟨s', hrun, hI', hdrop⟩ := ih hI
      rw [hrest] at hrun hdrop
      exact ⟨s', by rw [List.take_succ_cons, run, hstep, Option.bind_some, hrun], hI', hdrop⟩

include H in
/-- **After all the changes nothing is missing.** -/
theorem run_all {s : S} (hs : I s) :
    ∃ s', run step s (pending cell items s) = some s' ∧ I s' ∧ pending cell items s' = [] := by
  obtain ⟨s', hrun, hI, hdrop⟩ := H.run_take (pending cell items s).length hs
  rw [List.take_length] at hrun
  rw [List.drop_length] at hdrop
  exact ⟨s', hrun, hI, hdrop⟩

end Settles

end Pending

end AbbeyBot.Library.Worklist
