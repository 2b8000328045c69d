import Mathlib
import AbbeyBot.Library.Result

/-! # Operations that write in place

A function of the source on `&mut self` writes while it runs, and an early return keeps what was
written before it. Such a function is an `EStateM` here. It performs a checked computation if it
checks before it writes: then it writes all or nothing. -/

namespace AbbeyBot.Library.InPlace

open AbbeyBot.Library.Result

variable {ε σ α β : Type}

/-- The result with the state that is left. -/
def outcome (x : EStateM ε σ α) (s : σ) : Except ε α × σ :=
  match x.run s with
  | .ok a s' => (.ok a, s')
  | .error e s' => (.error e, s')

/-- A check, which writes nothing. -/
def check (r : Except ε α) : EStateM ε σ α := fun s =>
  match r with
  | .ok a => .ok a s
  | .error e => .error e s

/-- `*self = next` at the end of a computation on a copy. -/
def replace (f : σ → Except ε (α × σ)) : EStateM ε σ α := do
  let s ← get
  let (a, next) ← check (f s)
  set next
  return a

@[simp] theorem outcome_pure (a : α) (s : σ) :
    outcome (pure a : EStateM ε σ α) s = (.ok a, s) := rfl

@[simp] theorem outcome_get_bind (f : σ → EStateM ε σ α) (s : σ) :
    outcome (get >>= f) s = outcome (f s) s := rfl

@[simp] theorem outcome_set_bind (s' : σ) (f : PUnit → EStateM ε σ α) (s : σ) :
    outcome (set s' >>= f) s = outcome (f ⟨⟩) s' := rfl

@[simp] theorem outcome_modify_bind (g : σ → σ) (f : PUnit → EStateM ε σ α) (s : σ) :
    outcome (modify g >>= f) s = outcome (f ⟨⟩) (g s) := rfl

@[simp] theorem outcome_check_ok_bind (a : α) (f : α → EStateM ε σ β) (s : σ) :
    outcome (check (.ok a) >>= f) s = outcome (f a) s := rfl

/-- A write to a row that is there. -/
theorem outcome_found_bind {o : Option α} {a : α} (h : o = some a) (e : ε)
    (f : α → EStateM ε σ β) (s : σ) :
    outcome (check (orErr o e) >>= f) s = outcome (f a) s := by
  rw [h]
  rfl

/-! ### Checked computations -/

/-- From the state `s`, the operation does what the computation says, and nothing on an error. -/
def Performs (x : EStateM ε σ α) (s : σ) (r : Except ε (α × σ)) : Prop := outcome x s = commit s r

/-- A check is made before anything is written. -/
theorem Performs.check_bind {r : Except ε β} {f : β → EStateM ε σ α}
    {g : β → Except ε (α × σ)} {s : σ} (h : ∀ b, r = .ok b → Performs (f b) s (g b)) :
    Performs (check r >>= f) s (r >>= g) := by
  cases r with
  | error e => rfl
  | ok b => exact h b rfl

theorem Performs.get_bind {f : σ → EStateM ε σ α} {s : σ} {r : Except ε (α × σ)}
    (h : Performs (f s) s r) : Performs (get >>= f) s r := h

/-- After the last check everything is written. -/
theorem Performs.writes {x : EStateM ε σ α} {s s' : σ} {a : α} (h : outcome x s = (.ok a, s')) :
    Performs x s (pure (a, s')) := h

theorem Performs.ite {p : Prop} [Decidable p] {x y : EStateM ε σ α} {s : σ}
    {r t : Except ε (α × σ)} (hx : p → Performs x s r) (hy : ¬ p → Performs y s t) :
    Performs (if p then x else y) s (if p then r else t) := by
  by_cases hp : p
  · rw [if_pos hp, if_pos hp]
    exact hx hp
  · rw [if_neg hp, if_neg hp]
    exact hy hp

theorem performs_replace (f : σ → Except ε (α × σ)) (s : σ) : Performs (replace f) s (f s) := by
  unfold Performs replace
  rw [outcome_get_bind]
  cases f s with
  | error e => rfl
  | ok r => rfl

end AbbeyBot.Library.InPlace
