import Mathlib

/-! # Computations that read their input

A computation over a byte string that may stop (an index out of bounds, a failed assertion, a
subtraction below zero). It knows of the input only what it has asked for, so a run can record its
reads. `Sat m Q` says that `m` does not stop, whatever it reads, and that its result and its reads
satisfy `Q`; the rules below take a computation apart at its first action. -/

namespace AbbeyBot.Library.ReadTrace

/-- The bytes from `offset` on, `width` of them. -/
structure Span where
  offset : ℕ
  width : ℕ
  deriving DecidableEq, Repr

/-- A result, a stop, or a read and what is done with the bytes. -/
inductive Reads (α : Type) where
  | ret (a : α)
  | stop
  | read (s : Span) (next : (Fin s.width → UInt8) → Reads α)

variable {α β : Type}

namespace Reads

def bind : Reads α → (α → Reads β) → Reads β
  | .ret a, f => f a
  | .stop, _ => .stop
  | .read s next, f => .read s fun bytes => (next bytes).bind f

instance : Monad Reads where
  pure := .ret
  bind := .bind

/-- The computation over an input: its result and its reads, unless it stops or reads past the end. -/
def run (input : List UInt8) : Reads α → Option (α × List Span)
  | .ret a => some (a, [])
  | .stop => none
  | .read s next =>
    if h : s.offset + s.width ≤ input.length then
      ((next fun i => input.get ⟨s.offset + i, by omega⟩).run input).map
        fun r => (r.1, s :: r.2)
    else none

end Reads

/-- An assertion. -/
def assert (p : Prop) [Decidable p] : Reads Unit := if p then pure () else .stop

/-- A subtraction that does not go below zero. -/
def sub (a b : ℕ) : Reads ℕ := if b ≤ a then pure (a - b) else .stop

/-- The slice from an index on. -/
def rest (s : Span) (k : ℕ) : Reads Span :=
  if k ≤ s.width then pure ⟨s.offset + k, s.width - k⟩ else .stop

/-- The first `n` bytes of a slice. -/
def front (s : Span) (n : ℕ) : Reads (Fin n → UInt8) :=
  if n ≤ s.width then .read ⟨s.offset, n⟩ .ret else .stop

/-- One byte of a slice. -/
def byte (s : Span) (k : ℕ) : Reads UInt8 :=
  if k < s.width then .read ⟨s.offset + k, 1⟩ fun bytes => .ret (bytes 0) else .stop

/-! ### Rules -/

/-- The computation does not stop, and its result and reads satisfy `Q`. -/
def Sat : Reads α → (α → List Span → Prop) → Prop
  | .ret a, Q => Q a []
  | .stop, _ => False
  | .read s next, Q => ∀ bytes, Sat (next bytes) fun a spans => Q a (s :: spans)

variable {Q : β → List Span → Prop}

theorem sat_pure {b : β} (h : Q b []) : Sat (pure b) Q := h

theorem Sat.mono {Q' : β → List Span → Prop} {m : Reads β} (h : Sat m Q)
    (hQ : ∀ b spans, Q b spans → Q' b spans) : Sat m Q' := by
  induction m generalizing Q Q' with
  | ret b => exact hQ b [] h
  | stop => exact h
  | read s next ih => exact fun bytes => ih bytes (h bytes) fun b spans => hQ b (s :: spans)

theorem Sat.bind {P : α → List Span → Prop} {m : Reads α} {f : α → Reads β} (hm : Sat m P)
    (hf : ∀ a spans, P a spans → Sat (f a) fun b spans' => Q b (spans ++ spans')) :
    Sat (m >>= f) Q := by
  induction m generalizing P Q with
  | ret a => exact hf a [] hm
  | stop => exact hm.elim
  | read s next ih => exact fun bytes => ih bytes (hm bytes) fun a spans => hf a (s :: spans)

theorem sat_assert {p : Prop} [Decidable p] {f : Unit → Reads β} (hp : p) (hf : Sat (f ()) Q) :
    Sat (assert p >>= f) Q := by
  rw [assert, if_pos hp]
  exact hf

theorem sat_sub {a b : ℕ} {f : ℕ → Reads β} (h : b ≤ a) (hf : Sat (f (a - b)) Q) :
    Sat (sub a b >>= f) Q := by
  rw [sub, if_pos h]
  exact hf

theorem sat_rest {s : Span} {k : ℕ} {f : Span → Reads β} (hk : k ≤ s.width)
    (hf : Sat (f ⟨s.offset + k, s.width - k⟩) Q) : Sat (rest s k >>= f) Q := by
  rw [rest, if_pos hk]
  exact hf

theorem sat_front {s : Span} {n : ℕ} {f : (Fin n → UInt8) → Reads β} (hn : n ≤ s.width)
    (hf : ∀ bytes, Sat (f bytes) fun b spans => Q b (⟨s.offset, n⟩ :: spans)) :
    Sat (front s n >>= f) Q := by
  rw [front, if_pos hn]
  exact hf

theorem sat_byte {s : Span} {k : ℕ} {f : UInt8 → Reads β} (hk : k < s.width)
    (hf : ∀ b, Sat (f b) fun b spans => Q b (⟨s.offset + k, 1⟩ :: spans)) :
    Sat (byte s k >>= f) Q := by
  rw [byte, if_pos hk]
  exact fun bytes => hf (bytes 0)

/-! ### What is covered -/

/-- Every byte from `lo` up to `hi` is in one of the spans. -/
def Covers (spans : List Span) (lo hi : ℕ) : Prop :=
  ∀ i, lo ≤ i → i < hi → ∃ s ∈ spans, s.offset ≤ i ∧ i < s.offset + s.width

/-- The spans end inside the first `n` bytes. -/
def Inside (spans : List Span) (n : ℕ) : Prop := ∀ s ∈ spans, s.offset + s.width ≤ n

theorem Covers.append {spans spans' : List Span} {lo mid hi : ℕ} (h : Covers spans lo mid)
    (h' : Covers spans' mid hi) : Covers (spans ++ spans') lo hi := by
  intro i hlo hhi
  by_cases hmid : i < mid
  · obtain ⟨s, hs, hi⟩ := h i hlo hmid
    exact ⟨s, List.mem_append_left _ hs, hi⟩
  · obtain ⟨s, hs, hi⟩ := h' i (not_lt.mp hmid) hhi
    exact ⟨s, List.mem_append_right _ hs, hi⟩

theorem Inside.append {spans spans' : List Span} {n : ℕ} (h : Inside spans n)
    (h' : Inside spans' n) : Inside (spans ++ spans') n := by
  intro s hs
  rcases List.mem_append.mp hs with hs | hs
  · exact h s hs
  · exact h' s hs

/-! ### Runs -/

theorem Sat.exists {m : Reads β} (h : Sat m Q) : ∃ b spans, Q b spans := by
  induction m generalizing Q with
  | ret b => exact ⟨b, [], h⟩
  | stop => exact h.elim
  | read s next ih =>
    obtain ⟨b, spans, hQ⟩ := ih (fun _ => 0) (h fun _ => 0)
    exact ⟨b, s :: spans, hQ⟩

/-- A computation that reads inside an input has a run over it. -/
theorem Sat.run {m : Reads β} (h : Sat m Q) {input : List UInt8}
    (hinside : ∀ b spans, Q b spans → Inside spans input.length) :
    ∃ b spans, m.run input = some (b, spans) ∧ Q b spans := by
  induction m generalizing Q with
  | ret b => exact ⟨b, [], rfl, h⟩
  | stop => exact h.elim
  | read s next ih =>
    obtain ⟨b, spans, hQ⟩ := (h fun _ => 0).exists
    have hs := hinside b _ hQ s List.mem_cons_self
    obtain ⟨b', spans', hrun, hQ'⟩ := ih (fun i => input.get ⟨s.offset + i, by omega⟩) (h _)
      fun b spans hQ s' hs' => hinside b _ hQ s' (List.mem_cons_of_mem s hs')
    refine ⟨b', s :: spans', ?_, hQ'⟩
    rw [Reads.run, dif_pos hs, hrun]
    rfl

end AbbeyBot.Library.ReadTrace
