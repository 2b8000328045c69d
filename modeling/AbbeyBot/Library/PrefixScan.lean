import Mathlib
import AbbeyBot.Library.OrderedMap

/-! # Scans by prefix

The rows of an ordered map whose keys start with a text are neighbours: a scan from the text on that
stops at the first other key finds all of them. -/

namespace AbbeyBot.Library.PrefixScan

open AbbeyBot.Library.OrderedMap

/-- What is not below a text and below an extension of it starts with it. -/
theorem isPrefix_of_lt {p a t : List Char} (hp : ¬ a < p) (ha : a < p ++ t) : p <+: a := by
  induction p generalizing a with
  | nil => exact List.nil_prefix
  | cons x p ih =>
    cases a with
    | nil => exact absurd (List.nil_lt_cons x p) hp
    | cons y a =>
      rw [List.cons_append, List.cons_lt_cons_iff] at ha
      rw [List.cons_lt_cons_iff, not_or] at hp
      rcases ha with hyx | ⟨rfl, ha⟩
      · exact absurd hyx hp.1
      · exact (List.prefix_cons_inj y).mpr (ih (fun h => hp.2 ⟨rfl, h⟩) ha)

theorem not_lt_append (p t : List Char) : ¬ p ++ t < p := by
  induction p with
  | nil => exact List.not_lt_nil _
  | cons x p ih =>
    rw [List.cons_append, List.cons_lt_cons_iff, not_or]
    exact ⟨lt_irrefl x, fun h => ih h.2⟩

/-- A scan that stops finds everything if nothing is left behind the first miss. -/
theorem takeWhile_eq_filter {α : Type} {p : α → Bool} {r : α → α → Prop} {l : List α}
    (hl : l.Pairwise r) (hstop : ∀ a ∈ l, ∀ b ∈ l, r a b → p b = true → p a = true) :
    l.takeWhile p = l.filter p := by
  induction l with
  | nil => rfl
  | cons a l ih =>
    rw [List.pairwise_cons] at hl
    have ih := ih hl.2 fun b hb c hc => hstop b (List.mem_cons_of_mem _ hb) c
      (List.mem_cons_of_mem _ hc)
    by_cases ha : p a = true
    · rw [List.takeWhile_cons_of_pos ha, List.filter_cons_of_pos ha, ih]
    · rw [List.takeWhile_cons_of_neg ha, List.filter_cons_of_neg ha, eq_comm,
        List.filter_eq_nil_iff]
      intro b hb hpb
      exact ha (hstop a List.mem_cons_self b (List.mem_cons_of_mem _ hb) (hl.1 b hb) hpb)

/-- `range(start..).take_while(starts_with(start))`. -/
def prefixScan {β : Type} (m : BTreeMap String β) (start : String) : List (String × β) :=
  (m.toList.filter fun kv => start ≤ kv.1).takeWhile fun kv =>
    start.toList.isPrefixOf kv.1.toList

variable {β : Type} {m : BTreeMap String β} {start : String}

theorem le_of_isPrefix {key : String} (h : start.toList <+: key.toList) : start ≤ key := by
  obtain ⟨t, ht⟩ := h
  rw [← not_lt, String.lt_iff_toList_lt, ← ht]
  exact not_lt_append _ t

theorem lt_of_compare {a b : String} (h : compare a b = .lt) : a < b :=
  (compareOfLessAndEq_eq_lt).mp h

theorem prefixScan_eq : prefixScan m start =
    m.toList.filter fun kv => start.toList.isPrefixOf kv.1.toList := by
  unfold prefixScan
  rw [takeWhile_eq_filter (r := fun a b => a.1 < b.1), List.filter_filter]
  · refine List.filter_congr fun kv _ => ?_
    by_cases hpre : start.toList.isPrefixOf kv.1.toList = true
    · simp [hpre, le_of_isPrefix (List.isPrefixOf_iff_prefix.mp hpre)]
    · simp [hpre]
  · exact (Std.ExtTreeMap.ordered_keys_toList.imp lt_of_compare).filter _
  · intro a ha b _ hab hb
    obtain ⟨-, hstart⟩ := List.mem_filter.mp ha
    rw [decide_eq_true_eq, ← not_lt, String.lt_iff_toList_lt] at hstart
    obtain ⟨t, ht⟩ := List.isPrefixOf_iff_prefix.mp hb
    rw [String.lt_iff_toList_lt, ← ht] at hab
    exact List.isPrefixOf_iff_prefix.mpr (isPrefix_of_lt hstart hab)

/-- **The scan** finds the rows whose keys start with the text, each of them once. -/
theorem mem_prefixScan {kv : String × β} :
    kv ∈ prefixScan m start ↔ m[kv.1]? = some kv.2 ∧ start.toList <+: kv.1.toList := by
  rw [prefixScan_eq, List.mem_filter, List.isPrefixOf_iff_prefix,
    Std.ExtTreeMap.mem_toList_iff_getElem?_eq_some]

theorem nodup_prefixScan : ((prefixScan m start).map Prod.fst).Nodup := by
  have hkeys : (m.toList.map Prod.fst).Nodup := by
    rw [Std.ExtTreeMap.map_fst_toList_eq_keys]
    exact Std.ExtTreeMap.nodup_keys
  rw [prefixScan_eq]
  exact hkeys.sublist (List.filter_sublist.map _)

end AbbeyBot.Library.PrefixScan
