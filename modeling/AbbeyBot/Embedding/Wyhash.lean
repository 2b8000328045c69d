import Mathlib
import AbbeyBot.Library.ReadTrace

/-! # Wyhash

The hash behind the embeddings. Inputs of at most sixteen bytes are read in overlapping quarters;
longer ones in blocks of forty-eight bytes, then of sixteen, and the last sixteen bytes are read once
more from the end. No read leaves the input, and no byte of it is left out. -/

namespace AbbeyBot.Embedding

open AbbeyBot.Library.ReadTrace

/-- The constants of the hash. -/
def secret : Fin 4 → UInt64 :=
  ![0xa0761d6478bd642f, 0xe7037ed1a0b428db, 0x8ebc6af09c88c6e3, 0x589965cc75374cc3]

/-- The two halves of the product, the low one first. -/
def mum (a b : UInt64) : UInt64 × UInt64 :=
  let wide := a.toNat * b.toNat
  (UInt64.ofNat wide, UInt64.ofNat (wide >>> 64))

def mix (a b : UInt64) : UInt64 := (mum a b).1 ^^^ (mum a b).2

/-- The number that the bytes stand for, the lowest first. -/
def fromLeBytes : List UInt8 → UInt64
  | [] => 0
  | b :: rest => b.toUInt64 ||| (fromLeBytes rest <<< 8)

/-- `read::<N>`. -/
def read (n : ℕ) (data : Span) : Reads UInt64 := do
  let bytes ← front data n
  return fromLeBytes (List.ofFn bytes)

structure Wyhash where
  a : UInt64
  b : UInt64
  state : Fin 3 → UInt64
  totalLen : UInt64

namespace Wyhash

/-- `Wyhash::new`. -/
def new (seed : UInt64) : Wyhash where
  a := 0
  b := 0
  state := fun _ => seed ^^^ mix (seed ^^^ secret 0) (secret 1)
  totalLen := 0

/-- `Wyhash::small_key`. -/
def smallKey (w : Wyhash) (input : Span) : Reads Wyhash := do
  assert (input.width ≤ 16)
  if 4 ≤ input.width then do
    let end_ ← sub input.width 4
    let quarter := (input.width >>> 3) <<< 2
    let a₁ ← read 4 input
    let second ← rest input quarter
    let a₂ ← read 4 second
    let third ← rest input end_
    let b₁ ← read 4 third
    let back ← sub end_ quarter
    let fourth ← rest input back
    let b₂ ← read 4 fourth
    return { w with a := (a₁ <<< 32) ||| a₂, b := (b₁ <<< 32) ||| b₂ }
  else if 0 < input.width then do
    let first ← byte input 0
    let middle ← byte input (input.width >>> 1)
    let last ← sub input.width 1
    let last ← byte input last
    return { w with
      a := (first.toUInt64 <<< 16) ||| (middle.toUInt64 <<< 8) ||| last.toUInt64
      b := 0 }
  else return { w with a := 0, b := 0 }

/-- One lane of a block. -/
def lane (w : Wyhash) (block : Span) (i : Fin 3) : Reads Wyhash := do
  let first ← rest block (16 * i)
  let a ← read 8 first
  let second ← rest block (16 * i + 8)
  let b ← read 8 second
  return { w with
    state := Function.update w.state i (mix (a ^^^ secret i.succ) (b ^^^ w.state i)) }

/-- `Wyhash::round`. -/
def round (w : Wyhash) (block : Span) : Reads Wyhash := do
  assert (48 ≤ block.width)
  let w ← w.lane block 0
  let w ← w.lane block 1
  w.lane block 2

/-- `Wyhash::final0`. -/
def final0 (w : Wyhash) : Wyhash :=
  { w with state := Function.update w.state 0 (w.state 0 ^^^ (w.state 1 ^^^ w.state 2)) }

/-- The loop of `Wyhash::final1`. -/
def absorb (w : Wyhash) (tail : Span) (i : ℕ) : Reads Wyhash :=
  if i + 16 < tail.width then do
    let first ← rest tail i
    let a ← read 8 first
    let second ← rest tail (i + 8)
    let b ← read 8 second
    absorb { w with
      state := Function.update w.state 0 (mix (a ^^^ secret 1) (b ^^^ w.state 0)) } tail (i + 16)
  else pure w
termination_by tail.width - i

/-- `Wyhash::final1`. -/
def final1 (w : Wyhash) (input : Span) (start : ℕ) : Reads Wyhash := do
  assert (16 ≤ input.width)
  let left ← sub input.width start
  assert (left ≤ 48)
  let tail ← rest input start
  let w ← w.absorb tail 0
  let k ← sub input.width 16
  let last ← rest input k
  let a ← read 8 last
  let k ← sub input.width 8
  let last ← rest input k
  let b ← read 8 last
  return { w with a := a, b := b }

/-- `Wyhash::final2`. -/
def final2 (w : Wyhash) : UInt64 :=
  let a := w.a ^^^ secret 1
  let b := w.b ^^^ w.state 0
  let (low, high) := mum a b
  mix (low ^^^ secret 0 ^^^ w.totalLen) (high ^^^ secret 1)

/-- The loop of `hash`: the state and where the tail starts. -/
def rounds (w : Wyhash) (input : Span) (i : ℕ) : Reads (Wyhash × ℕ) :=
  if i + 48 < input.width then do
    let block ← rest input i
    let w ← w.round block
    rounds w input (i + 48)
  else pure (w, i)
termination_by input.width - i

end Wyhash

/-- The blocks of a longer input. -/
def blocks (w : Wyhash) (input : Span) : Reads (Wyhash × ℕ) := do
  if 48 ≤ input.width then do
    let (w, i) ← w.rounds input 0
    return (w.final0, i)
  else return (w, 0)

/-- The input is absorbed. -/
def absorbed (w : Wyhash) (input : Span) : Reads Wyhash :=
  if input.width ≤ 16 then w.smallKey input
  else do
    let (w, i) ← blocks w input
    w.final1 input i

/-- `hash` of an input of the length; what else it knows of the input it has read. -/
def hash (seed : UInt64) (length : ℕ) : Reads UInt64 := do
  let w ← absorbed (Wyhash.new seed) ⟨0, length⟩
  return Wyhash.final2 { w with totalLen := UInt64.ofNat length }

/-! ### The reads -/

variable {β : Type} {Q : β → List Span → Prop}

theorem sat_read {n : ℕ} {data : Span} {f : UInt64 → Reads β} (hn : n ≤ data.width)
    (hf : ∀ v, Sat (f v) fun b spans => Q b (⟨data.offset, n⟩ :: spans)) :
    Sat (read n data >>= f) Q := by
  refine Sat.bind (P := fun _ spans => spans = [⟨data.offset, n⟩]) ?_ fun v spans h => ?_
  · exact sat_front hn fun bytes => sat_pure rfl
  · rw [h]
    exact hf v

theorem smallKey_reads (w : Wyhash) {length : ℕ} (hlength : length ≤ 16) :
    Sat (w.smallKey ⟨0, length⟩) fun _ spans =>
      Inside spans length ∧ Covers spans 0 length := by
  unfold Wyhash.smallKey
  refine sat_assert hlength ?_
  dsimp only
  have hquarter : (length >>> 3) <<< 2 = length / 8 * 4 := by
    rw [Nat.shiftRight_eq_div_pow, Nat.shiftLeft_eq]
  have hhalf : length >>> 1 = length / 2 := Nat.shiftRight_eq_div_pow _ _
  split_ifs with hfour hpos
  · refine sat_sub hfour (sat_read hfour fun a₁ => ?_)
    rw [hquarter]
    refine sat_rest (by dsimp only; omega) (sat_read ?_ fun a₂ => ?_)
    · dsimp only
      omega
    refine sat_rest (by dsimp only; omega) (sat_read ?_ fun b₁ => ?_)
    · dsimp only
      omega
    refine sat_sub (by omega) (sat_rest (by dsimp only; omega) (sat_read ?_ fun b₂ => ?_))
    · dsimp only
      omega
    refine sat_pure ⟨?_, ?_⟩
    · intro s hs
      simp only [List.mem_cons, List.not_mem_nil, or_false] at hs
      rcases hs with rfl | rfl | rfl | rfl <;> dsimp only <;> omega
    · intro i _ hi
      simp only [List.mem_cons, List.not_mem_nil, or_false, exists_eq_or_imp, exists_eq_left]
      omega
  · refine sat_byte hpos fun first => ?_
    refine sat_byte (by dsimp only; omega) fun middle => sat_sub hpos ?_
    refine sat_byte (by dsimp only; omega) fun last => sat_pure ⟨?_, ?_⟩
    · intro s hs
      simp only [List.mem_cons, List.not_mem_nil, or_false] at hs
      rcases hs with rfl | rfl | rfl <;> dsimp only <;> omega
    · intro i _ hi
      simp only [List.mem_cons, List.not_mem_nil, or_false, exists_eq_or_imp, exists_eq_left]
      omega
  · refine sat_pure ⟨fun s hs => absurd hs List.not_mem_nil, fun i _ hi => ?_⟩
    omega

theorem lane_reads (w : Wyhash) {block : Span} (i : Fin 3) (hblock : 48 ≤ block.width) :
    Sat (w.lane block i) fun _ spans =>
      spans = [⟨block.offset + 16 * i, 8⟩, ⟨block.offset + (16 * i + 8), 8⟩] := by
  have hi := i.isLt
  unfold Wyhash.lane
  refine sat_rest (by omega) (sat_read (by dsimp only; omega) fun a => ?_)
  refine sat_rest (by omega) (sat_read (by dsimp only; omega) fun b => ?_)
  exact sat_pure rfl

/-- A round reads its block. -/
theorem round_reads (w : Wyhash) {block : Span} (hblock : 48 ≤ block.width) :
    Sat (w.round block) fun _ spans =>
      Inside spans (block.offset + 48) ∧ Covers spans block.offset (block.offset + 48) := by
  unfold Wyhash.round
  refine sat_assert hblock ?_
  refine (lane_reads w 0 hblock).bind fun w₁ spans₁ h₁ => ?_
  refine (lane_reads w₁ 1 hblock).bind fun w₂ spans₂ h₂ => ?_
  refine (lane_reads w₂ 2 hblock).mono fun w₃ spans₃ h₃ => ?_
  subst h₁ h₂ h₃
  constructor
  · intro s hs
    simp only [List.mem_append, List.mem_cons, List.not_mem_nil, or_false] at hs
    rcases hs with (rfl | rfl) | (rfl | rfl) | rfl | rfl <;> dsimp only <;> omega
  · intro i hlo hhi
    simp only [List.cons_append, List.nil_append, List.mem_cons, List.not_mem_nil, or_false,
      exists_eq_or_imp, exists_eq_left]
    omega

/-- The rounds read the blocks before the tail, which has no more than forty-eight bytes. -/
theorem rounds_reads (w : Wyhash) {length : ℕ} {i : ℕ} (hi : i < length) :
    Sat (w.rounds ⟨0, length⟩ i) fun r spans => (i ≤ r.2 ∧ r.2 < length ∧
      length ≤ r.2 + 48) ∧ Inside spans length ∧ Covers spans i r.2 := by
  induction hn : length - i using Nat.strong_induction_on generalizing w i with
  | _ n ih =>
    unfold Wyhash.rounds
    dsimp only
    split_ifs with hmore
    · refine sat_rest (by dsimp only; omega) ?_
      refine (round_reads w (by dsimp only; omega)).bind
        fun w₁ spans ⟨hinside, hcovers⟩ => ?_
      refine (ih (length - (i + 48)) (by omega) w₁ hmore rfl).mono
        fun r spans' ⟨⟨hle, hlt, hlast⟩, hinside', hcovers'⟩ => ?_
      rw [Nat.zero_add] at hinside hcovers
      refine ⟨⟨by omega, hlt, hlast⟩, Inside.append (fun s hs => ?_) hinside',
        hcovers.append hcovers'⟩
      exact (hinside s hs).trans hmore.le
    · exact sat_pure ⟨⟨le_rfl, hi, by omega⟩, fun s hs => absurd hs List.not_mem_nil,
        fun j hlo hhi => by dsimp only at hhi; omega⟩

/-- The tail is read up to its last sixteen bytes. -/
theorem absorb_reads (w : Wyhash) (tail : Span) (i : ℕ) :
    Sat (w.absorb tail i) fun _ spans => Inside spans (tail.offset + tail.width) ∧
      Covers spans (tail.offset + i) (tail.offset + tail.width - 16) := by
  induction hn : tail.width - i using Nat.strong_induction_on generalizing w i with
  | _ n ih =>
    unfold Wyhash.absorb
    split_ifs with hmore
    · refine sat_rest (by omega) (sat_read (by dsimp only; omega) fun a => ?_)
      refine sat_rest (by omega) (sat_read (by dsimp only; omega) fun b => ?_)
      refine (ih (tail.width - (i + 16)) (by omega) _ (i + 16) rfl).mono
        fun _ spans ⟨hinside, hcovers⟩ => ⟨?_, ?_⟩
      · intro s hs
        rcases List.mem_cons.mp hs with rfl | hs
        · dsimp only
          omega
        rcases List.mem_cons.mp hs with rfl | hs
        · dsimp only
          omega
        · exact hinside s hs
      · intro j hlo hhi
        by_cases hfirst : j < tail.offset + i + 16
        · simp only [List.mem_cons, exists_eq_or_imp]
          omega
        · obtain ⟨s, hs, hj⟩ := hcovers j (by omega) hhi
          exact ⟨s, List.mem_cons_of_mem _ (List.mem_cons_of_mem _ hs), hj⟩
    · exact sat_pure ⟨fun s hs => absurd hs List.not_mem_nil, fun j hlo hhi => by omega⟩

theorem final1_reads (w : Wyhash) {length : ℕ} {start : ℕ} (hlength : 16 ≤ length)
    (hstart : start ≤ length) (htail : length ≤ start + 48) :
    Sat (w.final1 ⟨0, length⟩ start) fun _ spans =>
      Inside spans length ∧ Covers spans start length := by
  unfold Wyhash.final1
  refine sat_assert hlength (sat_sub hstart (sat_assert (by dsimp only; omega) (sat_rest hstart ?_)))
  refine (absorb_reads w _ 0).bind fun w₁ spans ⟨hinside, hcovers⟩ => ?_
  dsimp only at hinside hcovers ⊢
  refine sat_sub hlength (sat_rest (by dsimp only; omega) (sat_read ?_ fun a => ?_))
  · dsimp only
    omega
  refine sat_sub (by omega) (sat_rest (by dsimp only; omega) (sat_read ?_ fun b => ?_))
  · dsimp only
    omega
  refine sat_pure ⟨fun s hs => ?_, fun i hlo hhi => ?_⟩
  · rcases List.mem_append.mp hs with hs | hs
    · have := hinside s hs
      omega
    · simp only [List.mem_cons, List.not_mem_nil, or_false] at hs
      rcases hs with rfl | rfl <;> dsimp only <;> omega
  · by_cases hlast : i < length - 16
    · obtain ⟨s, hs, hi⟩ := hcovers i (by omega) (by omega)
      exact ⟨s, List.mem_append_left _ hs, hi⟩
    · simp only [List.mem_append, List.mem_cons, List.not_mem_nil, or_false]
      by_cases hhalf : i < length - 8
      · exact ⟨⟨0 + (length - 16), 8⟩, .inr (.inl rfl), by dsimp only; omega, by dsimp only; omega⟩
      · exact ⟨⟨0 + (length - 8), 8⟩, .inr (.inr rfl), by dsimp only; omega, by dsimp only; omega⟩

theorem blocks_reads (w : Wyhash) {length : ℕ} (hlength : 16 < length) :
    Sat (blocks w ⟨0, length⟩) fun r spans => (r.2 ≤ length ∧ length ≤ r.2 + 48) ∧
      Inside spans length ∧ Covers spans 0 r.2 := by
  unfold blocks
  dsimp only
  split_ifs with hlong
  · refine (rounds_reads w (by omega)).bind fun r spans ⟨⟨_, hlt, hlast⟩, hinside, hcovers⟩ => ?_
    refine sat_pure ?_
    rw [List.append_nil]
    exact ⟨⟨hlt.le, hlast⟩, hinside, hcovers⟩
  · exact sat_pure ⟨⟨Nat.zero_le _, (by dsimp only; omega)⟩,
      fun s hs => absurd hs List.not_mem_nil, fun j hlo hhi => absurd hhi (Nat.not_lt_zero j)⟩

theorem absorbed_reads (w : Wyhash) (length : ℕ) :
    Sat (absorbed w ⟨0, length⟩) fun _ spans =>
      Inside spans length ∧ Covers spans 0 length := by
  unfold absorbed
  dsimp only
  split_ifs with hsmall
  · exact smallKey_reads w hsmall
  · refine (blocks_reads w (not_le.mp hsmall)).bind
      fun r spans ⟨⟨hstart, htail⟩, hinside, hcovers⟩ => ?_
    refine (final1_reads r.1 (by omega) hstart htail).mono fun _ spans' ⟨hinside', hcovers'⟩ => ?_
    exact ⟨hinside.append hinside', hcovers.append hcovers'⟩

/-- **Every byte is read, and nothing else**: for every seed and input the hash, which knows of the
input only its length and what it reads, does not stop; its reads are inside the input, and each byte
is in one of them. -/
theorem hash_reads (seed : UInt64) (input : List UInt8) :
    ∃ digest spans, (hash seed input.length).run input = some (digest, spans) ∧
      Inside spans input.length ∧ Covers spans 0 input.length := by
  have hsat : Sat (hash seed input.length) fun _ spans =>
      Inside spans input.length ∧ Covers spans 0 input.length := by
    refine (absorbed_reads (Wyhash.new seed) input.length).bind fun w spans h => sat_pure ?_
    rw [List.append_nil]
    exact h
  exact hsat.run fun _ _ h => h.1

/-- The digest of a small key. -/
example : ((hash 3 3).run [104, 101, 108]).map Prod.fst = some 10846395113768030678 := by
  decide

end AbbeyBot.Embedding
