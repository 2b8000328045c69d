import Mathlib

/-! # Channel markers

The reply of a model may hold channel blocks, which are internal. They are taken out of the text while
it streams in, in deltas that are cut anywhere: what may still become a marker is held back, and what
is inside a block is dropped. `stripped` is the grammar of the complete text. -/

namespace AbbeyBot.Llm

/-- Opens a channel block. -/
def openMarker : List Char := "<|channel>".toList

/-- Closes a channel block. -/
def closeMarker : List Char := "<channel|>".toList

/-- `str::find`, of a text. -/
def find (needle : List Char) : List Char → Option ℕ
  | [] => if needle = [] then some 0 else none
  | c :: s => if needle <+: c :: s then some 0 else (find needle s).map (· + 1)

/-- `str::rfind`, of a character. -/
def rfind (c : Char) : List Char → Option ℕ
  | [] => none
  | x :: s =>
    match rfind c s with
    | some k => some (k + 1)
    | none => if x = c then some 0 else none

/-- `could_become`. -/
def CouldBecome (tail marker : List Char) : Prop := tail.length < marker.length ∧ tail <+: marker

instance (tail marker : List Char) : Decidable (CouldBecome tail marker) :=
  inferInstanceAs (Decidable (_ ∧ _))

structure Stripper where
  inside : Bool
  pending : List Char
  deriving DecidableEq, Repr

/-- `Stripper::default`. -/
def Stripper.default : Stripper := ⟨false, []⟩

/-- What is kept of the text inside a block: a tail that could complete the close marker. -/
def held (pending : List Char) : List Char :=
  match rfind '<' pending with
  | some at_ => if CouldBecome (pending.drop at_) closeMarker then pending.drop at_ else []
  | none => []

theorem find_nil {needle : List Char} (hne : needle ≠ []) : find needle [] = none := if_neg hne

theorem find_le {needle s : List Char} {k : ℕ} (h : find needle s = some k) :
    k + needle.length ≤ s.length := by
  induction s generalizing k with
  | nil =>
    unfold find at h
    split_ifs at h with hne
    cases h
    rw [hne]
    simp
  | cons c s ih =>
    unfold find at h
    split_ifs at h with hprefix
    · cases h
      have := hprefix.length_le
      omega
    · obtain ⟨k', hk', rfl⟩ := Option.map_eq_some_iff.mp h
      have := ih hk'
      rw [List.length_cons]
      omega

/-- The loop of `Stripper::push`: the state that is left and the text that is safe to emit. -/
def Stripper.loop (inside : Bool) (pending out : List Char) : Stripper × List Char :=
  if inside then
    match _hfind : find closeMarker pending with
    | some at_ => loop false (pending.drop (at_ + closeMarker.length)) out
    | none => (⟨true, held pending⟩, out)
  else
    match _hindex : pending.idxOf? '<' with
    | none => (⟨false, []⟩, out ++ pending)
    | some at_ =>
      if openMarker <+: pending.drop at_ then
        loop true ((pending.drop at_).drop openMarker.length) (out ++ pending.take at_)
      else if closeMarker <+: pending.drop at_ then
        loop false ((pending.drop at_).drop closeMarker.length) (out ++ pending.take at_)
      else if CouldBecome (pending.drop at_) openMarker ∨ CouldBecome (pending.drop at_) closeMarker then
        (⟨false, pending.drop at_⟩, out ++ pending.take at_)
      else loop false ((pending.drop at_).drop 1) (out ++ pending.take at_ ++ ['<'])
termination_by pending.length
decreasing_by
  · have hle := find_le _hfind
    have hclose : closeMarker.length = 10 := rfl
    rw [List.length_drop]
    omega
  all_goals
    obtain ⟨hlt, -⟩ := List.findIdx?_eq_some_iff_getElem.mp _hindex
    have hopen : openMarker.length = 10 := rfl
    have hclose : closeMarker.length = 10 := rfl
    rw [List.length_drop, List.length_drop]
    omega

/-- `Stripper::push`. -/
def Stripper.push (st : Stripper) (delta : List Char) : Stripper × List Char :=
  loop st.inside (st.pending ++ delta) []

/-- `Stripper::finish`: what was held back outside a block. -/
def Stripper.finish (st : Stripper) : List Char := if st.inside then [] else st.pending

/-- `strip`. -/
def strip (text : List Char) : List Char :=
  (Stripper.default.push text).2 ++ (Stripper.default.push text).1.finish

/-- The deltas are pushed one after the other. -/
def stream (deltas : List (List Char)) : Stripper × List Char :=
  deltas.foldl (fun r delta => ((r.1.push delta).1, r.2 ++ (r.1.push delta).2)) (.default, [])

/-! ### The grammar -/

/-- **The grammar of the complete text**: from left to right, a block is removed with its content, an
unclosed block to the end, a stray close marker alone; every other character stays. -/
def stripped (s : List Char) : List Char :=
  match s with
  | [] => []
  | c :: rest =>
    if openMarker <+: c :: rest then
      match find closeMarker ((c :: rest).drop openMarker.length) with
      | none => []
      | some k => stripped (((c :: rest).drop openMarker.length).drop (k + closeMarker.length))
    else if closeMarker <+: c :: rest then stripped ((c :: rest).drop closeMarker.length)
    else c :: stripped rest
termination_by s.length
decreasing_by
  all_goals
    have hopen : openMarker.length = 10 := rfl
    have hclose : closeMarker.length = 10 := rfl
    simp only [List.length_drop, List.length_cons]
    omega

/-- What the grammar makes of the rest of a text, inside a block or outside. -/
def resume (inside : Bool) (s : List Char) : List Char :=
  if inside then
    match find closeMarker s with
    | none => []
    | some k => stripped (s.drop (k + closeMarker.length))
  else stripped s

/-! ### Markers -/

/-- A marker that begins in a text and ends behind it. -/
theorem prefix_append_cases {marker q r : List Char} (h : marker <+: q ++ r) :
    marker <+: q ∨ CouldBecome q marker := by
  rcases List.prefix_or_prefix_of_prefix h (List.prefix_append q r) with h' | h'
  · exact .inl h'
  · by_cases hlength : q.length < marker.length
    · exact .inr ⟨hlength, h'⟩
    · rw [h'.eq_of_length_le (not_lt.mp hlength)]
      exact .inl List.prefix_rfl

theorem head_of_openMarker {c : Char} {s : List Char} (h : openMarker <+: c :: s) : c = '<' :=
  (List.cons_prefix_cons.mp h).1.symm

theorem head_of_closeMarker {c : Char} {s : List Char} (h : closeMarker <+: c :: s) : c = '<' :=
  (List.cons_prefix_cons.mp h).1.symm

/-- A text begins with one marker at most. -/
theorem not_both_markers {s : List Char} (hopen : openMarker <+: s) : ¬ closeMarker <+: s := by
  intro hclose
  have hneither : ¬ openMarker <+: closeMarker ∧ ¬ closeMarker <+: openMarker := by decide
  rcases List.prefix_or_prefix_of_prefix hopen hclose with h | h
  · exact hneither.1 h
  · exact hneither.2 h

/-- A beginning of a marker has its one bracket in front. -/
theorem of_couldBecome {p marker : List Char} (hmarker : marker = openMarker ∨ marker = closeMarker)
    (h : CouldBecome p marker) : p = [] ∨ ∃ q, p = '<' :: q ∧ '<' ∉ q := by
  cases p with
  | nil => exact .inl rfl
  | cons c q =>
    refine .inr ⟨q, ?_⟩
    rcases hmarker with rfl | rfl
    · obtain ⟨rfl, hq⟩ := List.cons_prefix_cons.mp (show c :: q <+: '<' :: openMarker.tail from h.2)
      exact ⟨rfl, fun hmem => absurd (hq.subset hmem) (by decide)⟩
    · obtain ⟨rfl, hq⟩ := List.cons_prefix_cons.mp (show c :: q <+: '<' :: closeMarker.tail from h.2)
      exact ⟨rfl, fun hmem => absurd (hq.subset hmem) (by decide)⟩

/-! ### The grammar, one step at a time -/

theorem stripped_open {s : List Char} (h : openMarker <+: s) :
    stripped s = resume true (s.drop openMarker.length) := by
  cases s with
  | nil => exact absurd h (by decide)
  | cons c s =>
    rw [stripped, if_pos h]
    rfl

theorem stripped_close {s : List Char} (h : closeMarker <+: s) :
    stripped s = stripped (s.drop closeMarker.length) := by
  cases s with
  | nil => exact absurd h (by decide)
  | cons c s => rw [stripped, if_neg fun hopen => not_both_markers hopen h, if_pos h]

theorem stripped_cons {c : Char} {s : List Char} (hopen : ¬ openMarker <+: c :: s)
    (hclose : ¬ closeMarker <+: c :: s) : stripped (c :: s) = c :: stripped s := by
  rw [stripped, if_neg hopen, if_neg hclose]

/-- Text without a bracket stays. -/
theorem stripped_append {p : List Char} (hp : '<' ∉ p) (r : List Char) :
    stripped (p ++ r) = p ++ stripped r := by
  induction p with
  | nil => rfl
  | cons c p ih =>
    have hc : c ≠ '<' := fun h => hp (h ▸ List.mem_cons_self)
    rw [List.cons_append, stripped_cons (fun h => hc (head_of_openMarker h))
      fun h => hc (head_of_closeMarker h), ih fun h => hp (List.mem_cons_of_mem _ h)]
    rfl

theorem resume_cons {c : Char} {s : List Char} (h : ¬ closeMarker <+: c :: s) :
    resume true (c :: s) = resume true s := by
  unfold resume
  rw [if_pos rfl, if_pos rfl, find, if_neg h]
  cases find closeMarker s with
  | none => rfl
  | some k => rfl

/-! ### Text that goes on -/

theorem find_append {needle s : List Char} {k : ℕ} (hne : needle ≠ []) (h : find needle s = some k)
    (r : List Char) : find needle (s ++ r) = some k := by
  induction s generalizing k with
  | nil =>
    rw [find_nil hne] at h
    cases h
  | cons c s ih =>
    rw [find] at h
    have happend : (c :: s) ++ r = c :: (s ++ r) := rfl
    rw [happend, find]
    split_ifs at h with hprefix
    · have hlong : needle <+: c :: (s ++ r) := hprefix.trans (List.prefix_append _ r)
      rw [if_pos hlong]
      exact h
    · obtain ⟨k', hk', rfl⟩ := Option.map_eq_some_iff.mp h
      have hlong : ¬ needle <+: c :: (s ++ r) := fun hlong => by
        have hle := find_le hk'
        refine hprefix (List.prefix_of_prefix_length_le hlong (List.prefix_append (c :: s) r) ?_)
        rw [List.length_cons]
        omega
      rw [if_neg hlong, ih hk']
      rfl

theorem find_drop_none {needle s : List Char} (h : find needle s = none) (k : ℕ) :
    find needle (s.drop k) = none := by
  induction s generalizing k with
  | nil => rwa [List.drop_nil]
  | cons c s ih =>
    cases k with
    | zero => exact h
    | succ k =>
      rw [find] at h
      split_ifs at h with hprefix
      exact ih (Option.map_eq_none_iff.mp h) k

theorem rfind_of_not_mem {c : Char} {s : List Char} (h : c ∉ s) : rfind c s = none := by
  induction s with
  | nil => rfl
  | cons x s ih =>
    rw [rfind, ih fun hmem => h (List.mem_cons_of_mem _ hmem)]
    have hx : ¬ x = c := fun hx => h (hx ▸ List.mem_cons_self)
    exact if_neg hx

/-- What is kept of a text that does not itself begin the close marker. -/
theorem held_cons {c : Char} {s : List Char} (h : ¬ CouldBecome (c :: s) closeMarker) :
    held (c :: s) = held s := by
  unfold held
  rw [rfind]
  cases rfind '<' s with
  | some k => rfl
  | none =>
    dsimp only
    split_ifs with hc
    · dsimp only
      rw [List.drop_zero, if_neg h]
    · rfl

/-- A text that begins the close marker is kept. -/
theorem held_of_couldBecome {s : List Char} (h : CouldBecome s closeMarker) : held s = s := by
  rcases of_couldBecome (.inr rfl) h with rfl | ⟨q, rfl, hq⟩
  · rfl
  · unfold held
    rw [rfind, rfind_of_not_mem hq]
    dsimp only
    rw [if_pos rfl]
    exact if_pos h

theorem find_held {s : List Char} (h : find closeMarker s = none) : find closeMarker (held s) = none := by
  unfold held
  split
  · split_ifs
    · exact find_drop_none h _
    · rfl
  · rfl

/-- Inside a block, nothing but the tail that is kept matters for what follows. -/
theorem resume_held {p : List Char} (h : find closeMarker p = none) (r : List Char) :
    resume true (p ++ r) = resume true (held p ++ r) := by
  induction p with
  | nil => rfl
  | cons c p ih =>
    by_cases hbecome : CouldBecome (c :: p) closeMarker
    · rw [held_of_couldBecome hbecome]
    · rw [find] at h
      split_ifs at h with hprefix
      have hlong : ¬ closeMarker <+: c :: (p ++ r) := fun hlong =>
        (prefix_append_cases (q := c :: p) hlong).elim hprefix hbecome
      rw [held_cons hbecome, ← ih (Option.map_eq_none_iff.mp h)]
      exact resume_cons hlong

/-! ### The stripper follows the grammar -/

/-- What is held back cannot be emitted yet: there is no close marker in it, inside a block, and it is
the beginning of a marker outside. -/
def Stripper.Settled (st : Stripper) : Prop :=
  if st.inside then find closeMarker st.pending = none
  else CouldBecome st.pending openMarker ∨ CouldBecome st.pending closeMarker

/-- What was held back when the text ends. -/
theorem resume_finish {st : Stripper} (h : st.Settled) :
    resume st.inside st.pending = st.finish := by
  obtain ⟨inside, pending⟩ := st
  unfold Stripper.Settled at h
  unfold Stripper.finish resume
  cases inside with
  | true =>
    rw [if_pos rfl, if_pos rfl]
    rw [if_pos rfl] at h
    dsimp only at h ⊢
    rw [h]
  | false =>
    simp only [Bool.false_eq_true, if_false] at h ⊢
    have hshort : ∀ marker, marker = openMarker ∨ marker = closeMarker → CouldBecome pending marker →
        stripped pending = pending := fun marker hmarker hbecome => by
      have hlt : pending.length < 10 := by
        have hlength := hbecome.1
        rcases hmarker with rfl | rfl
        · exact hlength
        · exact hlength
      rcases of_couldBecome hmarker hbecome with rfl | ⟨q, rfl, hq⟩
      · rw [stripped]
      · have hplain := stripped_append hq []
        rw [List.append_nil, stripped, List.append_nil] at hplain
        rw [stripped_cons (fun h => absurd h.length_le (not_le.mpr hlt))
          fun h => absurd h.length_le (not_le.mpr hlt), hplain]
    rcases h with h | h
    · exact hshort _ (.inl rfl) h
    · exact hshort _ (.inr rfl) h

/-- Where a bracket stands. -/
theorem of_idxOf {s : List Char} {k : ℕ} (h : s.idxOf? '<' = some k) :
    '<' ∉ s.take k ∧ ∃ q, s.drop k = '<' :: q := by
  obtain ⟨hlt, hget, hbefore⟩ := List.findIdx?_eq_some_iff_getElem.mp h
  refine ⟨fun hmem => ?_, s.drop (k + 1), ?_⟩
  · obtain ⟨i, hi, hget'⟩ := List.mem_iff_getElem.mp hmem
    rw [List.getElem_take] at hget'
    rw [List.length_take] at hi
    exact hbefore i (by omega) (by rw [hget']; rfl)
  · rw [List.drop_eq_getElem_cons hlt, beq_iff_eq.mp hget]

/-- From a state, the stripper has emitted text after `out`, and what is left goes on as the grammar
does. -/
def Emits (inside : Bool) (pending out : List Char) (result : Stripper × List Char) : Prop :=
  ∃ emitted, result.2 = out ++ emitted ∧ result.1.Settled ∧ ∀ r, resume inside (pending ++ r) =
    emitted ++ resume result.1.inside (result.1.pending ++ r)

theorem Emits.after {inside inside' : Bool} {pending pending' out p : List Char}
    {result : Stripper × List Char} (h : Emits inside' pending' (out ++ p) result)
    (hfront : ∀ r, resume inside (pending ++ r) = p ++ resume inside' (pending' ++ r)) :
    Emits inside pending out result := by
  obtain ⟨emitted, hout, hsettled, hresume⟩ := h
  refine ⟨p ++ emitted, by rw [hout, List.append_assoc], hsettled, fun r => ?_⟩
  rw [hfront, hresume, List.append_assoc]

/-- Plain text in front of a bracket. -/
theorem resume_split {pending : List Char} {k : ℕ} (h : '<' ∉ pending.take k) (r : List Char) :
    resume false (pending ++ r) = pending.take k ++ stripped (pending.drop k ++ r) := by
  have hsplit : pending ++ r = pending.take k ++ (pending.drop k ++ r) := by
    rw [← List.append_assoc, List.take_append_drop]
  rw [hsplit]
  exact stripped_append h _

/-- A marker in front of a text that goes on. -/
theorem drop_append_of_prefix {marker q : List Char} (h : marker <+: q) (r : List Char) :
    (q ++ r).drop marker.length = q.drop marker.length ++ r := List.drop_append_of_le_length h.length_le

/-- **The loop** emits what the grammar makes of the text, as far as it is decided. -/
theorem loop_emits (inside : Bool) (pending out : List Char) :
    Emits inside pending out (Stripper.loop inside pending out) := by
  fun_induction Stripper.loop inside pending out with
  | case1 pending out at_ hfind ih =>
    refine Emits.after (p := []) (by rwa [List.append_nil]) fun r => ?_
    have hle := find_le hfind
    unfold resume
    rw [if_pos rfl, find_append (by decide) hfind]
    show stripped ((pending ++ r).drop (at_ + closeMarker.length)) = _
    rw [List.drop_append_of_le_length hle]
    rfl
  | case2 pending out hfind =>
    exact ⟨[], (List.append_nil _).symm, find_held hfind, fun r => resume_held hfind r⟩
  | case3 inside pending out hinside hindex =>
    rw [Bool.not_eq_true] at hinside
    subst hinside
    have hplain : '<' ∉ pending := List.idxOf?_eq_none_iff.mp hindex
    have hnil : CouldBecome [] openMarker := by decide
    exact ⟨pending, rfl, .inl hnil, fun r => stripped_append hplain r⟩
  | case4 inside pending out hinside at_ hindex hopen ih =>
    rw [Bool.not_eq_true] at hinside
    subst hinside
    refine ih.after fun r => ?_
    rw [resume_split (of_idxOf hindex).1, stripped_open (hopen.trans (List.prefix_append _ r)),
      drop_append_of_prefix hopen]
  | case5 inside pending out hinside at_ hindex hopen hclose ih =>
    rw [Bool.not_eq_true] at hinside
    subst hinside
    refine ih.after fun r => ?_
    rw [resume_split (of_idxOf hindex).1, stripped_close (hclose.trans (List.prefix_append _ r)),
      drop_append_of_prefix hclose]
    rfl
  | case6 inside pending out hinside at_ hindex hopen hclose hbecome =>
    rw [Bool.not_eq_true] at hinside
    subst hinside
    exact ⟨pending.take at_, rfl, hbecome, fun r => resume_split (of_idxOf hindex).1 r⟩
  | case7 inside pending out hinside at_ hindex hopen hclose hbecome ih =>
    rw [Bool.not_eq_true] at hinside
    subst hinside
    rw [List.append_assoc] at ih ⊢
    refine ih.after fun r => ?_
    obtain ⟨q, hq⟩ := (of_idxOf hindex).2
    rw [resume_split (of_idxOf hindex).1, hq]
    rw [hq] at hopen hclose hbecome
    have hopen' : ¬ openMarker <+: '<' :: (q ++ r) := fun h =>
      (prefix_append_cases (q := '<' :: q) h).elim hopen fun h => hbecome (.inl h)
    have hclose' : ¬ closeMarker <+: '<' :: (q ++ r) := fun h =>
      (prefix_append_cases (q := '<' :: q) h).elim hclose fun h => hbecome (.inr h)
    rw [List.cons_append, stripped_cons hopen' hclose', List.append_assoc]
    rfl

/-- The deltas so far: what was emitted, and what the grammar makes of any text that follows. -/
theorem stream_emits (deltas : List (List Char)) :
    Emits false deltas.flatten [] (stream deltas) := by
  induction deltas using List.reverseRecOn with
  | nil => exact ⟨[], rfl, .inl (by decide), fun r => rfl⟩
  | append_singleton deltas delta ih =>
    obtain ⟨emitted, hout, -, hresume⟩ := ih
    obtain ⟨emitted', hout', hsettled', hresume'⟩ :=
      loop_emits (stream deltas).1.inside ((stream deltas).1.pending ++ delta) []
    have hlast : stream (deltas ++ [delta]) = (((stream deltas).1.push delta).1,
        (stream deltas).2 ++ ((stream deltas).1.push delta).2) := by
      unfold stream
      rw [List.foldl_append]
      rfl
    rw [hlast]
    refine ⟨emitted ++ emitted', ?_, hsettled', fun r => ?_⟩
    · dsimp only
      rw [hout, show ((stream deltas).1.push delta).2 = [] ++ emitted' from hout', List.append_assoc]
      rfl
    · rw [List.flatten_append, List.flatten_singleton, List.append_assoc, hresume,
        ← List.append_assoc _ delta r, hresume', List.append_assoc]
      rfl

theorem finish_stream (deltas : List (List Char)) :
    (stream deltas).2 ++ (stream deltas).1.finish = stripped deltas.flatten := by
  obtain ⟨emitted, hout, hsettled, hresume⟩ := stream_emits deltas
  have hend := hresume []
  rw [List.append_nil, List.append_nil, resume_finish hsettled] at hend
  rw [hout]
  exact hend.symm

theorem strip_eq (text : List Char) : strip text = stripped text := by
  have h := finish_stream [text]
  rw [List.flatten_singleton] at h
  exact h

/-- Text with no marker in it stays. -/
theorem stripped_of_no_marker {text : List Char} (hopen : ¬ openMarker <:+: text)
    (hclose : ¬ closeMarker <:+: text) : stripped text = text := by
  induction text with
  | nil => rw [stripped]
  | cons c text ih =>
    rw [stripped_cons (fun h => hopen h.isInfix) fun h => hclose h.isInfix,
      ih (fun h => hopen (h.trans (List.suffix_cons c text).isInfix))
        fun h => hclose (h.trans (List.suffix_cons c text).isInfix)]

/-- **Deltas do not matter**: however a text is cut, what is emitted and what is held back at the end
are together what the grammar makes of the whole; nothing is emitted that is not in front of that,
whatever follows; and text without markers stays. -/
theorem strip_stream (deltas : List (List Char)) :
    (stream deltas).2 ++ (stream deltas).1.finish = strip deltas.flatten ∧
      strip deltas.flatten = stripped deltas.flatten ∧
      (∀ rest, (stream deltas).2 <+: strip (deltas.flatten ++ rest)) ∧
      (¬ openMarker <:+: deltas.flatten → ¬ closeMarker <:+: deltas.flatten →
        strip deltas.flatten = deltas.flatten) := by
  refine ⟨?_, strip_eq _, fun rest => ?_, fun hopen hclose => ?_⟩
  · rw [strip_eq, finish_stream]
  · obtain ⟨emitted, hout, -, hresume⟩ := stream_emits deltas
    rw [strip_eq, hout]
    exact ⟨_, (hresume rest).symm⟩
  · rw [strip_eq, stripped_of_no_marker hopen hclose]

end AbbeyBot.Llm
