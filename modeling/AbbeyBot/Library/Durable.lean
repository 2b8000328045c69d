import Mathlib

/-! # Durable state

A program that changes durable state does so one publication at a time. A publication may fail or be
cut short by a crash, and in both cases it may have reached the disk or not; what comes after a crash
does not happen, while a failure can be caught. `Io` is what the environment lets a publication do.

`Triple P x Q E` says that from a state with `P` the program returns in a state with `Q`, or stops in
one with `E`. Every state in which it may stop is so accounted for, and with it every crash. -/

namespace AbbeyBot.Library.Durable

variable {σ α β : Type}

/-- Why a program stopped. -/
inductive Stop where
  | failed (message : String)
  | crashed
  deriving DecidableEq, Repr

/-- What happens to one publication; `wrote` tells whether it reached the disk. -/
inductive Io where
  | done
  | failed (message : String) (wrote : Bool)
  | crashed (wrote : Bool)
  deriving DecidableEq, Repr

abbrev Program (σ α : Type) := EStateM Stop σ α

/-- A computation that only reads. -/
def attempt (r : Except String α) : Program σ α := fun s =>
  match r with
  | .ok a => .ok a s
  | .error e => .error (.failed e) s

/-- One publication. -/
def publish (io : Io) (write : σ → σ) : Program σ Unit := fun s =>
  match io with
  | .done => .ok () (write s)
  | .failed message wrote => .error (.failed message) (if wrote then write s else s)
  | .crashed wrote => .error .crashed (if wrote then write s else s)

/-- Go on after a failure, not after a crash. -/
def recover (x : Program σ α) : Program σ (Except String α) := fun s =>
  match x s with
  | .ok a s' => .ok (.ok a) s'
  | .error (.failed e) s' => .ok (.error e) s'
  | .error .crashed s' => .error .crashed s'

/-- The outcome of a program and the state it leaves. -/
def outcome (x : Program σ α) (s : σ) : Except Stop α × σ :=
  match x s with
  | .ok a s' => (.ok a, s')
  | .error e s' => (.error e, s')

/-! ### Rules -/

/-- From a state with `P`, the program returns with `Q` or stops with `E`. -/
def Triple (P : σ → Prop) (x : Program σ α) (Q : α → σ → Prop) (E : σ → Prop) : Prop :=
  ∀ s, P s → match x s with
    | .ok a s' => Q a s'
    | .error _ s' => E s'

variable {P P' : σ → Prop} {x : Program σ α} {Q Q' : α → σ → Prop} {E E' : σ → Prop}

theorem Triple.weaken (h : Triple P x Q E) (hP : ∀ s, P' s → P s) (hQ : ∀ a s, Q a s → Q' a s)
    (hE : ∀ s, E s → E' s) : Triple P' x Q' E' := by
  intro s hs
  have hx := h s (hP s hs)
  cases hr : x s with
  | ok a s' => rw [hr] at hx; exact hQ a s' hx
  | error e s' => rw [hr] at hx; exact hE s' hx

theorem triple_pure {a : α} (h : ∀ s, P s → Q a s) : Triple P (pure a) Q E := h

theorem triple_throw {e : Stop} (h : ∀ s, P s → E s) : Triple P (throw e : Program σ α) Q E := h

theorem Triple.bind {f : α → Program σ β} {R : β → σ → Prop} (h : Triple P x Q E)
    (hf : ∀ a, Triple (Q a) (f a) R E) : Triple P (x >>= f) R E := by
  intro s hs
  have hx := h s hs
  cases hr : x s with
  | ok a s' =>
    rw [hr] at hx
    have heq : (x >>= f) s = f a s' := by simp [Bind.bind, EStateM.bind, hr]
    rw [heq]
    exact hf a s' hx
  | error e s' =>
    rw [hr] at hx
    have heq : (x >>= f) s = .error e s' := by simp [Bind.bind, EStateM.bind, hr]
    rw [heq]
    exact hx

/-- A program that starts by reading the state. -/
theorem triple_get {f : σ → Program σ β} {R : β → σ → Prop}
    (h : ∀ s, P s → Triple (· = s) (f s) R E) : Triple P (get >>= f) R E :=
  fun s hs => h s hs s rfl

theorem triple_attempt {r : Except String α} (hok : ∀ a, r = .ok a → ∀ s, P s → Q a s)
    (hE : ∀ s, P s → E s) : Triple P (attempt r) Q E := by
  intro s hs
  cases r with
  | ok a => exact hok a rfl s hs
  | error e => exact hE s hs

/-- A step that only reads, where the state is known. -/
theorem Triple.skip {r : Except String α} {f : α → Program σ β} {R : β → σ → Prop} {s₀ : σ}
    (hE : E s₀) (hf : ∀ a, r = .ok a → Triple (· = s₀) (f a) R E) :
    Triple (· = s₀) (attempt r >>= f) R E := by
  refine (triple_attempt (Q := fun a s => s = s₀ ∧ r = .ok a) (fun _ hr _ hs => ⟨hs, hr⟩)
    fun _ hs => hs ▸ hE).bind fun a => ?_
  intro s hs
  exact hf a hs.2 s hs.1

/-- A publication leaves the state as it was or written, and goes on only when it is written. -/
theorem triple_publish {io : Io} {write : σ → σ} (hold : ∀ s, P s → E s)
    (hnew : ∀ s, P s → E (write s)) :
    Triple P (publish io write) (fun _ s' => ∃ s, P s ∧ s' = write s) E := by
  intro s hs
  cases io with
  | done => exact ⟨s, hs, rfl⟩
  | failed message wrote =>
    cases wrote with
    | false => exact hold s hs
    | true => exact hnew s hs
  | crashed wrote =>
    cases wrote with
    | false => exact hold s hs
    | true => exact hnew s hs

/-- After a failure that is caught, the state is one the program may stop in. -/
theorem Triple.recover (h : Triple P x Q E) :
    Triple P (recover x) (fun r s => match r with
      | .ok a => Q a s
      | .error _ => E s) E := by
  intro s hs
  have hx := h s hs
  unfold Durable.recover
  cases hr : x s with
  | ok a s' => rw [hr] at hx; exact hx
  | error e s' =>
    rw [hr] at hx
    cases e with
    | failed message => exact hx
    | crashed => exact hx

/-- A program returned in a state with `Q`, or stopped in one with `E`. -/
theorem Triple.outcome_cases {s : σ} (h : Triple (· = s) x Q E) :
    (∃ a, (outcome x s).1 = .ok a ∧ Q a (outcome x s).2) ∨
      ∃ e, (outcome x s).1 = .error e ∧ E (outcome x s).2 := by
  have hx := h s rfl
  unfold outcome
  cases hr : x s with
  | ok a s' => rw [hr] at hx; exact .inl ⟨a, rfl, hx⟩
  | error e s' => rw [hr] at hx; exact .inr ⟨e, rfl, hx⟩

/-- Whatever comes of a program, it comes in a state it returns or stops in. -/
theorem Triple.outcome {R : σ → Prop} {s : σ} (h : Triple (· = s) x (fun _ s' => R s') R) :
    R (outcome x s).2 := by
  rcases h.outcome_cases with ⟨_, -, hR⟩ | ⟨_, -, hR⟩ <;> exact hR

end AbbeyBot.Library.Durable
