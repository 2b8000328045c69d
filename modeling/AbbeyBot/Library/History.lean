import Mathlib

/-! # Runs with their history

A component is a step function `step : σ → ι → ο × σ`: the operation `ι` applied in a state returns
an output and the next state. `Run step s₀ h s` says that `s` is reached from `s₀` and that `h` is
everything that happened, the latest event first. What holds of every run is proved once per
operation (`Run.rec` on the step), with the history at hand as a ghost. -/

namespace AbbeyBot.Library.History

variable {σ ι ο : Type}

/-- One executed operation with the states around it. -/
structure Event (σ ι ο : Type) where
  before : σ
  op : ι
  out : ο
  after : σ

/-- The event of applying `i` in the state `s`. -/
def event (step : σ → ι → ο × σ) (s : σ) (i : ι) : Event σ ι ο := ⟨s, i, (step s i).1, (step s i).2⟩

/-- The runs from `s₀`, with the history, latest event first. -/
inductive Run (step : σ → ι → ο × σ) (s₀ : σ) : List (Event σ ι ο) → σ → Prop
  | nil : Run step s₀ [] s₀
  | cons {h : List (Event σ ι ο)} {s : σ} (i : ι) :
      Run step s₀ h s → Run step s₀ (event step s i :: h) (step s i).2

/-- Every event of a history satisfies `G`, which may look at what happened before it. -/
def Along (G : List (Event σ ι ο) → Event σ ι ο → Prop) : List (Event σ ι ο) → Prop
  | [] => True
  | e :: h => G h e ∧ Along G h

/-- The run that applies the operations of a list in turn. -/
def play (step : σ → ι → ο × σ) : σ → List ι → List (Event σ ι ο) × σ
  | s, ops => ops.foldl (fun hs i => (event step hs.2 i :: hs.1, (step hs.2 i).2)) ([], s)

variable {step : σ → ι → ο × σ} {s₀ s : σ} {h : List (Event σ ι ο)}

theorem run_foldl {ops : List ι} (hrun : Run step s₀ h s) :
    Run step s₀ (ops.foldl (fun hs i => (event step hs.2 i :: hs.1, (step hs.2 i).2)) (h, s)).1
      (ops.foldl (fun hs i => (event step hs.2 i :: hs.1, (step hs.2 i).2)) (h, s)).2 := by
  induction ops generalizing h s with
  | nil => exact hrun
  | cons i ops ih => exact ih (hrun.cons i)

theorem run_play (s : σ) (ops : List ι) : Run step s (play step s ops).1 (play step s ops).2 :=
  run_foldl .nil

/-- One operation more is played. -/
theorem play_concat (s : σ) (ops : List ι) (i : ι) : play step s (ops ++ [i]) =
    (event step (play step s ops).2 i :: (play step s ops).1, (step (play step s ops).2 i).2) := by
  unfold play
  dsimp only
  rw [List.foldl_append]
  rfl

/-- The operations of a played run are those of the list. -/
theorem op_mem_of_mem_play {s : σ} {ops : List ι} {e : Event σ ι ο} (he : e ∈ (play step s ops).1) :
    e.op ∈ ops := by
  have hfold : ∀ (done : List (Event σ ι ο)) (s : σ), e ∈ (ops.foldl (fun hs i =>
      (event step hs.2 i :: hs.1, (step hs.2 i).2)) (done, s)).1 → e ∈ done ∨ e.op ∈ ops := by
    clear he
    induction ops with
    | nil => exact fun done s he => .inl he
    | cons i ops ih =>
      intro done s he
      rcases ih _ _ he with he | he
      · rcases List.mem_cons.mp he with rfl | he
        · exact .inr List.mem_cons_self
        · exact .inl he
      · exact .inr (List.mem_cons_of_mem _ he)
  exact (hfold [] s he).resolve_left List.not_mem_nil

/-- The events of a history are events of the component. -/
theorem Run.event_eq (hrun : Run step s₀ h s) {e : Event σ ι ο} (he : e ∈ h) :
    e = event step e.before e.op := by
  induction hrun with
  | nil => cases he
  | cons i _ ih =>
    rcases List.mem_cons.mp he with rfl | he
    · rfl
    · exact ih he

/-- What happened before a point of the history is itself a run, up to the state it ended in. -/
theorem Run.earlier {h₁ h₂ : List (Event σ ι ο)} {e : Event σ ι ο}
    (hrun : Run step s₀ (h₁ ++ e :: h₂) s) : Run step s₀ h₂ e.before := by
  induction h₁ generalizing s with
  | nil => cases hrun with | cons i hr => exact hr
  | cons e' h₁ ih => cases hrun with | cons i hr => exact ih hr

/-- What happened after an event of the history is itself a run, from the state it left. -/
theorem Run.later {h₁ h₂ : List (Event σ ι ο)} {e : Event σ ι ο}
    (hrun : Run step s₀ (h₁ ++ e :: h₂) s) : Run step e.after h₁ s := by
  induction h₁ generalizing s with
  | nil => cases hrun with | cons i _ => exact .nil
  | cons e' h₁ ih => cases hrun with | cons i hr => exact (ih hr).cons i

theorem Along.append {G : List (Event σ ι ο) → Event σ ι ο → Prop} {h₁ h₂ : List (Event σ ι ο)}
    {e : Event σ ι ο} (hG : Along G (h₁ ++ e :: h₂)) : G h₂ e := by
  induction h₁ with
  | nil => exact hG.1
  | cons e' h₁ ih => exact ih hG.2

/-- What the history records of its events, with one event more. -/
theorem mem_filterMap_cons {κ : Type} {f : Event σ ι ο → Option κ} {e : Event σ ι ο} {k : κ}
    (hk : k ∈ (e :: h).filterMap f) : f e = some k ∨ k ∈ h.filterMap f := by
  obtain ⟨e', he', hf⟩ := List.mem_filterMap.mp hk
  rcases List.mem_cons.mp he' with rfl | he'
  · exact .inl hf
  · exact .inr (List.mem_filterMap.mpr ⟨e', he', hf⟩)

theorem nodup_filterMap_cons {κ : Type} {f : Event σ ι ο → Option κ} {e : Event σ ι ο}
    (hh : (h.filterMap f).Nodup) (he : ∀ k ∈ f e, k ∉ h.filterMap f) :
    ((e :: h).filterMap f).Nodup := by
  cases hf : f e with
  | none => rwa [List.filterMap_cons_none hf]
  | some k =>
    rw [List.filterMap_cons_some hf]
    exact List.nodup_cons.mpr ⟨he k hf, hh⟩

/-- An invariant kept by every step holds wherever a run ends. -/
theorem Run.invariant {I : σ → Prop} (hinit : I s₀) (hstep : ∀ s i, I s → I (step s i).2)
    (hrun : Run step s₀ h s) : I s := by
  induction hrun with
  | nil => exact hinit
  | cons i _ ih => exact hstep _ i ih

end AbbeyBot.Library.History
