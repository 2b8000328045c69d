import Mathlib

/-! # Checked computations

A function of the source that returns `Result` is an `Except` here. `ensure` is an early return
guarded by a condition, `orErr` an `ok_or` on an option; the lemmas below take a computation that
returned apart into the conditions it passed. -/

namespace AbbeyBot.Library.Result

variable {ε α β : Type}

/-- Go on if `p` holds, return the error `e` otherwise. -/
def ensure (p : Prop) [Decidable p] (e : ε) : Except ε Unit := if p then .ok () else .error e

/-- The value of an option, or the error `e`. -/
def orErr (o : Option α) (e : ε) : Except ε α :=
  match o with
  | some a => .ok a
  | none => .error e

@[simp] theorem bind_eq_ok {x : Except ε α} {f : α → Except ε β} {b : β} :
    (x >>= f) = .ok b ↔ ∃ a, x = .ok a ∧ f a = .ok b := by
  cases x with
  | error e => simp [bind, Except.bind]
  | ok a => simp [bind, Except.bind]

/-- The condition of an early return carries no value. -/
@[simp] theorem exists_unit {p : Unit → Prop} : (∃ u, p u) ↔ p () :=
  ⟨fun ⟨_, h⟩ => h, fun h => ⟨(), h⟩⟩

@[simp] theorem map_eq_ok {x : Except ε α} {f : α → β} {b : β} :
    x.map f = .ok b ↔ ∃ a, x = .ok a ∧ f a = b := by
  cases x <;> simp [Except.map]

@[simp] theorem ensure_eq_ok {p : Prop} [Decidable p] {e : ε} {u : Unit} :
    ensure p e = .ok u ↔ p := by
  unfold ensure; split_ifs with h <;> simp [h]

@[simp] theorem orErr_eq_ok {o : Option α} {e : ε} {a : α} : orErr o e = .ok a ↔ o = some a := by
  cases o <;> simp [orErr]

@[simp] theorem pure_eq_ok {a b : α} : (pure a : Except ε α) = .ok b ↔ a = b := by
  simp [pure, Except.pure]

theorem ensure_of {p : Prop} [Decidable p] {e : ε} (h : p) : ensure p e = .ok () := by
  simp [ensure, h]

theorem ensure_not {p : Prop} [Decidable p] {e : ε} (h : ¬ p) : ensure p e = .error e := by
  simp [ensure, h]

@[simp] theorem ok_bind {a : α} {f : α → Except ε β} : (Except.ok a >>= f) = f a := rfl

@[simp] theorem error_bind {e : ε} {f : α → Except ε β} :
    ((Except.error e : Except ε α) >>= f) = .error e := rfl

@[simp] theorem mapError_ok_iff {ε' : Type} {x : Except ε α} {f : ε → ε'} {a : α} :
    x.mapError f = .ok a ↔ x = .ok a := by
  cases x <;> simp [Except.mapError]

/-- A check of every element of a list passes where each of them does. -/
theorem forM_eq_ok {l : List α} {f : α → Except ε Unit} :
    l.forM f = .ok () ↔ ∀ a ∈ l, f a = .ok () := by
  induction l with
  | nil => simp [pure, Except.pure]
  | cons a l ih =>
    show (f a >>= fun _ => l.forM f) = .ok () ↔ _
    rw [bind_eq_ok, exists_unit, ih, List.forall_mem_cons]

/-- So does the check of what may be there. -/
theorem elim_eq_ok {o : Option α} {f : α → Except ε Unit} :
    o.elim (pure ()) f = .ok () ↔ ∀ a ∈ o, f a = .ok () := by
  cases o <;> simp

/-! ### Operations that write last -/

/-- An operation that writes its state only when it returns: an error leaves the state as it was. -/
def commit {σ : Type} (s : σ) : Except ε (α × σ) → Except ε α × σ
  | .ok (a, s') => (.ok a, s')
  | .error e => (.error e, s)

theorem commit_cases {σ : Type} (s : σ) (r : Except ε (α × σ)) :
    (∃ a s', r = .ok (a, s') ∧ commit s r = (.ok a, s')) ∨ ∃ e, commit s r = (.error e, s) := by
  rcases r with e | ⟨a, s'⟩
  · exact .inr ⟨e, rfl⟩
  · exact .inl ⟨a, s', rfl, rfl⟩

/-- What every successful write keeps, the operation keeps. -/
theorem commit_keeps {σ : Type} {P : σ → Prop} {s : σ} {r : Except ε (α × σ)} (hs : P s)
    (hr : ∀ a s', r = .ok (a, s') → P s') : P (commit s r).2 := by
  rcases r with e | ⟨a, s'⟩
  · exact hs
  · exact hr a s' rfl

end AbbeyBot.Library.Result
