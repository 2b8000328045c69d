import Mathlib

/-! # Experience replay

A fixed number of slots, filled in turn; once all are filled, the oldest entry is overwritten. The
buffer is a ring over its storage: it stands for the last entries that were pushed. An access outside
the storage would panic, which the model shows as `none`. -/

namespace AbbeyBot.Brain.Replay

variable {Experience : Type}

structure ReplayBuffer (Experience : Type) where
  storage : List Experience
  writeIndex : ℕ
  capacity : ℕ
  deriving DecidableEq, Repr

namespace ReplayBuffer

/-- `ReplayBuffer::new`. -/
def new (capacity : ℕ) : ReplayBuffer Experience := ⟨[], 0, capacity⟩

/-- `ReplayBuffer::len`. -/
def len (b : ReplayBuffer Experience) : ℕ := b.storage.length

/-- `ReplayBuffer::recent`. -/
def recent (b : ReplayBuffer Experience) (n : ℕ) : Option (List Experience) :=
  let len := b.storage.length
  if len = 0 ∨ n = 0 then some []
  else
    let n := min n len
    let start := if len < b.capacity then 0 else b.writeIndex
    (List.range n).mapM fun i => b.storage[(start + (len - n) + i) % len]?

/-- `ReplayBuffer::push`. -/
def push (b : ReplayBuffer Experience) (experience : Experience) :
    Option (ReplayBuffer Experience) :=
  if b.storage.length < b.capacity then some { b with storage := b.storage ++ [experience] }
  else if b.writeIndex < b.storage.length then
    some { b with
      storage := b.storage.set b.writeIndex experience
      writeIndex := (b.writeIndex + 1) % b.capacity }
  else none

/-! ### The entries in the order of their arrival -/

/-- The entries, the oldest first. -/
def entries (b : ReplayBuffer Experience) : List Experience :=
  b.storage.rotate (if b.storage.length < b.capacity then 0 else b.writeIndex)

/-- The write index is zero until the buffer is full, and a slot after that. -/
structure Ring (b : ReplayBuffer Experience) : Prop where
  pos : 0 < b.capacity
  fits : b.storage.length ≤ b.capacity
  slot : b.writeIndex < b.capacity
  filling : b.storage.length < b.capacity → b.writeIndex = 0

/-- The list of the last entries that a bounded queue keeps. -/
def lastOf (n : ℕ) (xs : List Experience) : List Experience := xs.drop (xs.length - n)

theorem lastOf_concat {n : ℕ} (xs : List Experience) (x : Experience) (hn : n ≤ xs.length)
    (hpos : 0 < n) : lastOf n (xs ++ [x]) = (lastOf n xs).tail ++ [x] := by
  unfold lastOf
  rw [List.length_append, List.length_singleton, List.drop_append_of_le_length (by omega),
    List.tail_drop]
  congr 2
  omega

theorem lastOf_lastOf_concat (n : ℕ) (xs : List Experience) (x : Experience) :
    lastOf n (lastOf n xs ++ [x]) = lastOf n (xs ++ [x]) := by
  unfold lastOf
  rw [List.length_append, List.length_drop, List.length_singleton, List.length_append,
    List.length_singleton]
  by_cases hn : n ≤ xs.length
  · have hdrop : xs.drop (xs.length - n) ++ [x] = (xs ++ [x]).drop (xs.length - n) :=
      (List.drop_append_of_le_length (Nat.sub_le _ _)).symm
    rw [hdrop, List.drop_drop]
    congr 1
    omega
  · rw [show xs.length - n = 0 by omega]
    simp

/-- The slot that is overwritten held the oldest entry; the new one is the latest. -/
theorem rotate_set {xs : List Experience} {k : ℕ} (hk : k < xs.length) (x : Experience) :
    (xs.set k x).rotate ((k + 1) % xs.length) = (xs.rotate k).tail ++ [x] := by
  have hset : xs.set k x = xs.take k ++ x :: xs.drop (k + 1) := List.set_eq_take_append_cons_drop.trans
    (if_pos hk)
  have hlength : xs.length = (xs.set k x).length := (List.length_set ..).symm
  rw [hlength, List.rotate_mod, List.rotate_eq_drop_append_take (by rw [← hlength]; omega), hset,
    List.rotate_eq_drop_append_take (by omega)]
  have hdrop : (xs.take k ++ x :: xs.drop (k + 1)).drop (k + 1) = xs.drop (k + 1) := by
    rw [List.drop_append, List.length_take, Nat.min_eq_left hk.le,
      List.drop_of_length_le (by rw [List.length_take]; omega), Nat.add_sub_cancel_left]
    rfl
  have htake : (xs.take k ++ x :: xs.drop (k + 1)).take (k + 1) = xs.take k ++ [x] := by
    rw [List.take_append, List.length_take, Nat.min_eq_left hk.le,
      List.take_of_length_le (by rw [List.length_take]; omega), Nat.add_sub_cancel_left]
    rfl
  rw [hdrop, htake, List.drop_eq_getElem_cons hk, List.cons_append, List.tail_cons, List.append_assoc]

theorem length_entries (b : ReplayBuffer Experience) : b.entries.length = b.storage.length :=
  List.length_rotate ..

/-- One push into a bounded queue. -/
theorem push_ring {b : ReplayBuffer Experience} (hb : b.Ring) (x : Experience) :
    ∃ b', b.push x = some b' ∧ b'.Ring ∧ b'.capacity = b.capacity ∧
      b'.entries = lastOf b.capacity (b.entries ++ [x]) := by
  obtain ⟨hpos, hfits, hslot, hfilling⟩ := hb
  by_cases hlt : b.storage.length < b.capacity
  · refine ⟨{ b with storage := b.storage ++ [x] }, if_pos hlt, ⟨hpos, ?_, hslot, fun _ => hfilling hlt⟩,
      rfl, ?_⟩
    · rw [List.length_append, List.length_singleton]
      exact hlt
    · have hzero := hfilling hlt
      unfold entries lastOf
      simp only [hzero, ite_self, List.rotate_zero, List.length_append, List.length_singleton]
      rw [Nat.sub_eq_zero_of_le hlt, List.drop_zero]
  · have hfull : b.storage.length = b.capacity := le_antisymm hfits (not_lt.mp hlt)
    have hwrite : b.writeIndex < b.storage.length := by
      rw [hfull]
      exact hslot
    refine ⟨{ b with
      storage := b.storage.set b.writeIndex x
      writeIndex := (b.writeIndex + 1) % b.capacity }, ?_, ⟨hpos, ?_, Nat.mod_lt _ hpos, ?_⟩, rfl, ?_⟩
    · unfold push
      rw [if_neg hlt, if_pos hwrite]
    · rw [List.length_set]
      exact hfits
    · intro h
      rw [List.length_set] at h
      exact absurd h hlt
    · have hentries : b.entries = b.storage.rotate b.writeIndex := by
        unfold entries
        rw [if_neg hlt]
      have hlength : b.entries.length = b.capacity := (length_entries b).trans hfull
      rw [lastOf_concat _ _ hlength.ge hpos]
      unfold lastOf
      rw [hlength, Nat.sub_self, List.drop_zero, hentries]
      unfold entries
      dsimp only
      rw [List.length_set, if_neg hlt, ← hfull]
      exact rotate_set hwrite x

/-- The elements of a list, one index after the other. -/
theorem mapM_range {α : Type} {f : ℕ → Option α} {xs : List α} {n : ℕ} (hn : n ≤ xs.length)
    (hf : ∀ i < n, f i = xs[i]?) : (List.range n).mapM f = some (xs.take n) := by
  induction n with
  | zero => rfl
  | succ n ih =>
    rw [List.range_succ, List.mapM_append, ih (by omega) fun i hi => hf i (by omega),
      List.mapM_cons, List.mapM_nil, hf n (by omega), List.getElem?_eq_getElem hn, List.take_add_one,
      List.getElem?_eq_getElem hn]
    rfl

/-- The entries that are asked for are the last ones. -/
theorem recent_eq (b : ReplayBuffer Experience) (n : ℕ) :
    b.recent n = some (lastOf (min n b.len) b.entries) := by
  unfold recent lastOf len
  rw [length_entries]
  by_cases hempty : b.storage.length = 0 ∨ n = 0
  · rw [if_pos hempty, List.drop_of_length_le (by rw [length_entries]; omega)]
  · rw [if_neg hempty]
    have hpos : 0 < b.storage.length := by omega
    have hall : (b.entries.drop (b.storage.length - min n b.storage.length)).length =
        min n b.storage.length := by
      rw [List.length_drop, length_entries]
      omega
    dsimp only
    rw [mapM_range hall.ge fun i hi => ?_, List.take_of_length_le hall.le]
    rw [List.getElem?_drop]
    unfold entries
    rw [List.getElem?_rotate (by omega)]
    congr 2
    omega

/-- **The replay buffer is a bounded queue**: after any pushes it holds the last of them, as many as
fit, and gives back the last of those that are asked for, the oldest first. -/
theorem pushes_refine_queue (capacity : ℕ) (hcapacity : 0 < capacity) (pushes : List Experience) :
    ∃ b, pushes.foldlM push (new capacity) = some b ∧ b.len = min pushes.length capacity ∧
      ∀ n, b.recent n = some (lastOf (min n b.len) pushes) := by
  have hrun : ∃ b, pushes.foldlM push (new capacity) = some b ∧ b.Ring ∧ b.capacity = capacity ∧
      b.entries = lastOf capacity pushes := by
    induction pushes using List.reverseRecOn with
    | nil => exact ⟨new capacity, rfl, ⟨hcapacity, Nat.zero_le _, hcapacity, fun _ => rfl⟩, rfl, by
      simp [new, entries, lastOf]⟩
    | append_singleton pushes x ih =>
      obtain ⟨b, hpushes, hb, hcap, hentries⟩ := ih
      obtain ⟨b', hpush, hb', hcap', hentries'⟩ := push_ring hb x
      refine ⟨b', ?_, hb', hcap'.trans hcap, ?_⟩
      · rw [List.foldlM_append, hpushes]
        show [x].foldlM push b = some b'
        rw [List.foldlM_cons, hpush]
        rfl
      · rw [hentries', hentries, hcap]
        exact lastOf_lastOf_concat capacity pushes x
  obtain ⟨b, hpushes, -, -, hentries⟩ := hrun
  have hlen : b.len = min pushes.length capacity := by
    have h := congrArg List.length hentries
    rw [length_entries] at h
    unfold len
    rw [h]
    unfold lastOf
    rw [List.length_drop]
    omega
  refine ⟨b, hpushes, hlen, fun n => ?_⟩
  rw [recent_eq, hentries, hlen]
  unfold lastOf
  rw [List.drop_drop, List.length_drop]
  congr 2
  omega

/-- A buffer of two, after three pushes. -/
theorem three_pushes : ∃ b : ReplayBuffer ℕ, [7, 8, 9].foldlM push (new 2) = some b ∧
    b.len = 2 ∧ b.recent 5 = some [8, 9] ∧ b.recent 1 = some [9] := by
  obtain ⟨b, hb, hlen, hrecent⟩ := pushes_refine_queue 2 (by decide) [7, 8, 9]
  have htwo : b.len = 2 := hlen
  refine ⟨b, hb, htwo, ?_, ?_⟩
  · rw [hrecent, htwo]
    rfl
  · rw [hrecent, htwo]
    rfl

end ReplayBuffer

end AbbeyBot.Brain.Replay
