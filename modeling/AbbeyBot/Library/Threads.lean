import Mathlib

/-! # Threads

A thread is a computation that runs in atomic steps on a state it shares with an environment. Between
two steps the environment may act. A durable write is a step whose outcome the scheduler chooses.

`Safe R G Q x s` says what may be relied on: in the state `s`, with an environment that only makes
steps of `R`, every step of the thread is one of `G`, and where the thread ends `Q` holds of its
result. The rules follow the thread; assertions that speak about the state must be `Stable`. -/

namespace AbbeyBot.Library.Threads

open Relation

variable {σ ε α β : Type}

/-- What happens to one durable write; `wrote` tells whether a failed one took effect. -/
inductive Io where
  | done
  | failed (wrote : Bool)
  deriving DecidableEq, Repr

inductive Thread (σ ε α : Type) where
  | ret (r : Except ε α)
  | step (next : Io → σ → Thread σ ε α) (write : Io → σ → σ)

namespace Thread

def bind : Thread σ ε α → (α → Thread σ ε β) → Thread σ ε β
  | .ret (.ok a), f => f a
  | .ret (.error e), _ => .ret (.error e)
  | .step next write, f => .step (fun io s => (next io s).bind f) write

instance : Monad (Thread σ ε) where
  pure a := .ret (.ok a)
  bind := Thread.bind

/-- A computation on local values. -/
def lift (r : Except ε α) : Thread σ ε α := .ret r

/-- Look at the state in one step. -/
def read (f : σ → Except ε α) : Thread σ ε α := .step (fun _ s => .ret (f s)) fun _ s => s

/-- Change the state in one step, or leave it where the change is refused. -/
def update (f : σ → Except ε σ) : Thread σ ε Unit :=
  .step (fun _ s => .ret ((f s).map fun _ => ())) fun _ s =>
    match f s with
    | .ok s' => s'
    | .error _ => s

/-- One durable write, which fails with `e`. -/
def publish (e : ε) (f : σ → σ) : Thread σ ε Unit :=
  .step (fun io _ => match io with
    | .done => .ret (.ok ())
    | .failed _ => .ret (.error e)) fun io s => match io with
    | .done => f s
    | .failed wrote => if wrote then f s else s

/-- Go on after an error. -/
def attempt : Thread σ ε α → Thread σ ε (Except ε α)
  | .ret r => .ret (.ok r)
  | .step next write => .step (fun io s => (next io s).attempt) write

end Thread

/-! ### Rules -/

/-- What may be relied on when the thread runs from `s`. -/
def Safe (R G : σ → σ → Prop) (Q : Except ε α → σ → Prop) : Thread σ ε α → σ → Prop
  | .ret r, s => ∀ s', ReflTransGen R s s' → Q r s'
  | .step next write, s => ∀ s', ReflTransGen R s s' → ∀ io,
    G s' (write io s') ∧ Safe R G Q (next io s') (write io s')

/-- The environment keeps an assertion. -/
def Stable (R : σ → σ → Prop) (P : σ → Prop) : Prop := ∀ s s', P s → R s s' → P s'

variable {R G : σ → σ → Prop} {P : σ → Prop} {Q Q' : Except ε α → σ → Prop} {x : Thread σ ε α}
  {s s' : σ}

theorem Stable.star (h : Stable R P) (hs : P s) (hR : ReflTransGen R s s') : P s' := by
  induction hR with
  | refl => exact hs
  | tail _ hstep ih => exact h _ _ ih hstep

/-- The environment acts. -/
theorem Safe.environment (h : Safe R G Q x s) (hR : R s s') : Safe R G Q x s' := by
  cases x with
  | ret r => exact fun s'' hs'' => h s'' (.head hR hs'')
  | step next write => exact fun s'' hs'' io => h s'' (.head hR hs'') io

/-- The thread acts. -/
theorem Safe.next {next : Io → σ → Thread σ ε α} {write : Io → σ → σ}
    (h : Safe R G Q (.step next write) s) (io : Io) :
    G s (write io s) ∧ Safe R G Q (next io s) (write io s) := h s .refl io

theorem Safe.weaken (h : Safe R G Q x s) (hQ : ∀ r s, Q r s → Q' r s) : Safe R G Q' x s := by
  induction x generalizing s with
  | ret r => exact fun s' hs' => hQ _ _ (h s' hs')
  | step next write ih =>
    intro s' hs' io
    obtain ⟨hG, hnext⟩ := h s' hs' io
    exact ⟨hG, ih io s' hnext⟩

/-- From a state with `P`, the thread is safe. -/
def Holds (R G : σ → σ → Prop) (P : σ → Prop) (x : Thread σ ε α) (Q : Except ε α → σ → Prop) : Prop :=
  ∀ s, P s → Safe R G Q x s

/-- An assertion on the result where there is one, `E` where there is an error. -/
def Post (M : α → σ → Prop) (E : σ → Prop) : Except ε α → σ → Prop
  | .ok a, s => M a s
  | .error _, s => E s

variable {M : α → σ → Prop} {E : σ → Prop}

theorem Holds.bind {f : α → Thread σ ε β} {N : β → σ → Prop} (h : Holds R G P x (Post M E))
    (hf : ∀ a, Holds R G (M a) (f a) (Post N E)) : Holds R G P (x >>= f) (Post N E) := by
  intro s hs
  have hx := h s hs
  clear h hs
  show Safe R G _ (x.bind f) s
  induction x generalizing s with
  | ret r =>
    cases r with
    | ok a => exact hf a s (hx s .refl)
    | error e => exact hx
  | step next write ih =>
    intro s' hs' io
    obtain ⟨hG, hnext⟩ := hx s' hs' io
    exact ⟨hG, ih io s' _ hnext⟩

theorem Holds.attempt (h : Holds R G P x Q) :
    Holds R G P x.attempt (Post Q fun _ => False) := by
  intro s hs
  have hx := h s hs
  clear h hs
  induction x generalizing s with
  | ret r => exact hx
  | step next write ih =>
    intro s' hs' io
    obtain ⟨hG, hnext⟩ := hx s' hs' io
    exact ⟨hG, ih io s' _ hnext⟩

theorem Holds.weaken {P' : σ → Prop} (h : Holds R G P x Q) (hP : ∀ s, P' s → P s)
    (hQ : ∀ r s, Q r s → Q' r s) : Holds R G P' x Q' := fun s hs => (h s (hP s hs)).weaken hQ

/-- A fact that does not speak about the state. -/
theorem holds_pure {φ : Prop} (h : φ → Holds R G P x Q) : Holds R G (fun s => φ ∧ P s) x Q :=
  fun s hs => h hs.1 s hs.2

theorem Stable.and_pure {φ : Prop} (h : Stable R P) : Stable R fun s => φ ∧ P s :=
  fun s s' hs hR => ⟨hs.1, h s s' hs.2 hR⟩

/-- A computation on local values. -/
theorem holds_lift {r : Except ε α} (hM : ∀ a, Stable R (M a)) (hE : Stable R E)
    (hok : ∀ a, r = .ok a → ∀ s, P s → M a s) (herr : ∀ s, P s → E s) :
    Holds R G P (.lift r) (Post M E) := by
  intro s hs s' hR
  cases r with
  | ok a => exact (hM a).star (hok a rfl s hs) hR
  | error e => exact hE.star (herr s hs) hR

theorem holds_read {f : σ → Except ε α} (hP : Stable R P) (hM : ∀ a, Stable R (M a))
    (hE : Stable R E) (hG : ∀ s, G s s) (hok : ∀ s a, P s → f s = .ok a → M a s)
    (herr : ∀ s, P s → E s) : Holds R G P (.read f) (Post M E) := by
  intro s hs s' hR io
  have hs' := hP.star hs hR
  refine ⟨hG s', fun s'' hR' => ?_⟩
  cases hf : f s' with
  | ok a => exact (hM a).star (hok s' a hs' hf) hR'
  | error e => exact hE.star (herr s' hs') hR'

theorem holds_update {f : σ → Except ε σ} {N : σ → Prop} (hP : Stable R P) (hN : Stable R N)
    (hE : Stable R E) (hG : ∀ s, G s s) (hok : ∀ s s', P s → f s = .ok s' → G s s' ∧ N s')
    (herr : ∀ s, P s → E s) : Holds R G P (.update f) (Post (fun _ => N) E) := by
  intro s hs s' hR io
  have hs' := hP.star hs hR
  cases hf : f s' with
  | ok s'' =>
    obtain ⟨hg, hn⟩ := hok s' s'' hs' hf
    refine ⟨by simpa [hf] using hg, fun t hR' => ?_⟩
    simp only [hf] at hR' ⊢
    exact hN.star hn hR'
  | error e =>
    refine ⟨by simpa [hf] using hG s', fun t hR' => ?_⟩
    simp only [hf] at hR' ⊢
    exact hE.star (herr s' hs') hR'

theorem holds_publish {e : ε} {f : σ → σ} {N : σ → Prop} (hP : Stable R P) (hN : Stable R N)
    (hE : Stable R E) (hG : ∀ s, G s s) (hwrite : ∀ s, P s → G s (f s) ∧ N (f s) ∧ E (f s))
    (herr : ∀ s, P s → E s) : Holds R G P (.publish e f) (Post (fun _ => N) E) := by
  intro s hs s' hR io
  have hs' := hP.star hs hR
  obtain ⟨hg, hn, he⟩ := hwrite s' hs'
  cases io with
  | done => exact ⟨hg, fun t hR' => hN.star hn hR'⟩
  | failed wrote =>
    cases wrote with
    | true => exact ⟨hg, fun t hR' => hE.star he hR'⟩
    | false => exact ⟨hG s', fun t hR' => hE.star (herr s' hs') hR'⟩

end AbbeyBot.Library.Threads
