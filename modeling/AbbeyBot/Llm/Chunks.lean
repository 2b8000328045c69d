import Mathlib
import AbbeyBot.Llm.Stream

/-! # Chunks of a stream

Up to the terminal marker a stream is read line by line, wherever it is cut. Behind the marker the two
paths differ: bytes of the same chunk may still be blank lines or comments, bytes of a later chunk must
be ASCII white space. So the cuts matter exactly where a comment, or a line that only Unicode counts as
blank, follows the marker. -/

namespace AbbeyBot.Llm

open AbbeyBot.Library.Result AbbeyBot.Library.Text

variable {J : JsonReader}

/-! ### Bytes -/

/-- Nothing but ASCII white space. -/
def Blank (bytes : List UInt8) : Prop := bytes.all isAsciiWhitespace = true

instance (bytes : List UInt8) : Decidable (Blank bytes) := inferInstanceAs (Decidable (_ = _))

theorem blank_append {x y : List UInt8} : Blank (x ++ y) ↔ Blank x ∧ Blank y := by
  unfold Blank
  rw [List.all_append, Bool.and_eq_true]

theorem blank_cons {b : UInt8} {x : List UInt8} :
    Blank (b :: x) ↔ isAsciiWhitespace b = true ∧ Blank x := by
  unfold Blank
  rw [List.all_cons, Bool.and_eq_true]

/-- Lines, each ended. -/
def joinLines (lines : List (List UInt8)) : List UInt8 := lines.flatMap fun line => line ++ [10]

theorem joinLines_splitLines (s : List UInt8) :
    joinLines (splitLines s).1 ++ (splitLines s).2 = s := by
  induction s with
  | nil => rfl
  | cons b rest ih =>
    unfold splitLines
    split_ifs with hb
    · rw [hb]
      simpa [joinLines] using ih
    · cases hlines : (splitLines rest).1 with
      | nil =>
        rw [hlines] at ih
        simpa [joinLines] using ih
      | cons line more =>
        rw [hlines] at ih
        simpa [joinLines] using ih

/-- The lines of a text do not depend on where it is cut. -/
theorem splitLines_append (x y : List UInt8) : splitLines (x ++ y) =
    ((splitLines x).1 ++ (splitLines ((splitLines x).2 ++ y)).1,
      (splitLines ((splitLines x).2 ++ y)).2) := by
  induction x with
  | nil => simp [splitLines]
  | cons b rest ih =>
    rw [List.cons_append, splitLines, splitLines]
    split_ifs with hb
    · rw [ih]
      rfl
    · rw [ih]
      cases hlines : (splitLines rest).1 with
      | nil =>
        dsimp only
        rw [List.nil_append, List.nil_append, List.cons_append, splitLines, if_neg hb]
      | cons line more => rfl

theorem splitLines_line {line : List UInt8} (h : 10 ∉ line) (rest : List UInt8) :
    splitLines (line ++ 10 :: rest) = (line :: (splitLines rest).1, (splitLines rest).2) := by
  induction line with
  | nil => rw [List.nil_append, splitLines, if_pos rfl]
  | cons b line ih =>
    rw [List.mem_cons, not_or] at h
    rw [List.cons_append, splitLines, if_neg fun hb => h.1 hb.symm, ih h.2]

theorem splitLines_joinLines {lines : List (List UInt8)} (h : ∀ line ∈ lines, 10 ∉ line) :
    splitLines (joinLines lines) = (lines, []) := by
  induction lines with
  | nil => rfl
  | cons line lines ih =>
    have hjoin : joinLines (line :: lines) = line ++ 10 :: joinLines lines := by
      simp [joinLines]
    rw [hjoin, splitLines_line (h line List.mem_cons_self),
      ih fun l hl => h l (List.mem_cons_of_mem _ hl)]

theorem not_mem_splitLines (s : List UInt8) : ∀ line ∈ (splitLines s).1, 10 ∉ line := by
  induction s with
  | nil => exact fun line hline => absurd hline List.not_mem_nil
  | cons b rest ih =>
    unfold splitLines
    split_ifs with hb
    · intro line hline
      rcases List.mem_cons.mp hline with rfl | hline
      · exact List.not_mem_nil
      · exact ih line hline
    · cases hlines : (splitLines rest).1 with
      | nil => exact fun line hline => absurd hline List.not_mem_nil
      | cons first more =>
        rw [hlines] at ih
        intro line hline
        rcases List.mem_cons.mp hline with rfl | hline
        · rw [List.mem_cons, not_or]
          exact ⟨fun h => hb h.symm, ih first List.mem_cons_self⟩
        · exact ih line (List.mem_cons_of_mem _ hline)

/-- What is left is no line yet. -/
theorem splitLines_left (s : List UInt8) : splitLines (splitLines s).2 = ([], (splitLines s).2) := by
  induction s with
  | nil => rfl
  | cons b rest ih =>
    by_cases hb : b = 10
    · have hcons : (splitLines (b :: rest)).2 = (splitLines rest).2 := by rw [splitLines, if_pos hb]
      rw [hcons]
      exact ih
    · cases hlines : (splitLines rest).1 with
      | nil =>
        have hcons : (splitLines (b :: rest)).2 = b :: (splitLines rest).2 := by
          rw [splitLines, if_neg hb, hlines]
        rw [hcons, splitLines, if_neg hb, ih]
      | cons line more =>
        have hcons : (splitLines (b :: rest)).2 = (splitLines rest).2 := by
          rw [splitLines, if_neg hb, hlines]
        rw [hcons]
        exact ih

theorem blank_joinLines {lines : List (List UInt8)} :
    Blank (joinLines lines) ↔ ∀ line ∈ lines, Blank line := by
  induction lines with
  | nil => exact ⟨fun _ line hline => absurd hline List.not_mem_nil, fun _ => rfl⟩
  | cons line lines ih =>
    have hjoin : joinLines (line :: lines) = line ++ 10 :: joinLines lines := by
      simp [joinLines]
    rw [hjoin, blank_append, blank_cons, ih, List.forall_mem_cons]
    simp [isAsciiWhitespace]

/-- The lines of a text and what is left are blank where the text is. -/
theorem blank_splitLines (s : List UInt8) :
    (∀ line ∈ (splitLines s).1, Blank line) ∧ Blank (splitLines s).2 ↔ Blank s := by
  conv_rhs => rw [← joinLines_splitLines s]
  rw [blank_append, blank_joinLines]

/-! ### Behind the terminal marker -/

/-- A line that is passed over, also behind the marker: valid text, blank or a comment. -/
def Ignored (line : List UInt8) : Prop := (fromUtf8 (stripReturn line)).any isIgnored = true

instance (line : List UInt8) : Decidable (Ignored line) := inferInstanceAs (Decidable (_ = _))

theorem isWhitespace_ofNat {b : UInt8} (h : isAsciiWhitespace b = true) :
    b.toNat < 0x80 ∧ isWhitespace (Char.ofNat b.toNat) = true := by
  unfold isAsciiWhitespace at h
  have hb := of_decide_eq_true h
  simp only [List.mem_cons, List.not_mem_nil, or_false] at hb
  rcases hb with rfl | rfl | rfl | rfl | rfl <;> decide

theorem fromUtf8_blank {bytes : List UInt8} (h : Blank bytes) :
    ∃ line, fromUtf8 bytes = some line ∧ line.all isWhitespace = true := by
  induction bytes with
  | nil => exact ⟨[], rfl, rfl⟩
  | cons b bytes ih =>
    obtain ⟨hb, hbytes⟩ := blank_cons.mp h
    obtain ⟨line, hline, hspace⟩ := ih hbytes
    obtain ⟨hascii, hwhite⟩ := isWhitespace_ofNat hb
    refine ⟨Char.ofNat b.toNat :: line, ?_, ?_⟩
    · rw [fromUtf8.eq_def]
      dsimp only
      rw [if_pos hascii, hline]
      rfl
    · rw [List.all_cons, hwhite, hspace]
      rfl

/-- What is blank in ASCII is passed over. -/
theorem ignored_of_blank {line : List UInt8} (h : Blank line) : Ignored line := by
  have hstrip : Blank (stripReturn line) := by
    unfold stripReturn
    split_ifs
    · exact List.all_eq_true.mpr fun b hb =>
        List.all_eq_true.mp h b ((List.dropLast_prefix line).subset hb)
    · exact h
  obtain ⟨chars, hchars, hspace⟩ := fromUtf8_blank hstrip
  unfold Ignored
  rw [hchars]
  show isIgnored chars = true
  unfold isIgnored
  rw [hspace, Bool.true_or]

/-- A line that is passed over changes nothing. -/
theorem processLine_ignored {line : List UInt8} {a : Events} (h : Ignored line) :
    a.processLine J (stripReturn line) = .ok (a, []) := by
  unfold Ignored at h
  unfold Events.processLine
  cases hchars : fromUtf8 (stripReturn line) with
  | none =>
    rw [hchars] at h
    cases h
  | some chars =>
    rw [hchars] at h
    have hignored : isIgnored chars = true := h
    simp only [orErr, ok_bind]
    rw [if_pos hignored]
    rfl

/-- Behind the marker every other line is refused. -/
theorem processLine_done {line : List UInt8} {a : Events} (hdone : a.done = true)
    (h : ¬ Ignored line) : ∃ e, a.processLine J (stripReturn line) = .error e := by
  unfold Ignored at h
  unfold Events.processLine
  cases hchars : fromUtf8 (stripReturn line) with
  | none => exact ⟨_, rfl⟩
  | some chars =>
    rw [hchars] at h
    have hignored : ¬ isIgnored chars = true := h
    simp only [orErr, ok_bind]
    rw [if_neg hignored, ensure_not (by rw [hdone]; decide)]
    exact ⟨_, rfl⟩

theorem processLines_ignored {lines : List (List UInt8)} {a : Events}
    (h : ∀ line ∈ lines, Ignored line) : a.processLines J lines = .ok (a, []) := by
  induction lines with
  | nil => rfl
  | cons line lines ih =>
    rw [Events.processLines, processLine_ignored (h line List.mem_cons_self), ok_bind]
    dsimp only
    rw [ih fun l hl => h l (List.mem_cons_of_mem _ hl)]
    rfl

theorem processLines_done {lines : List (List UInt8)} {a : Events} (hdone : a.done = true)
    {line : List UInt8} (hline : line ∈ lines) (h : ¬ Ignored line) :
    ∃ e, a.processLines J lines = .error e := by
  induction lines with
  | nil => cases hline
  | cons first lines ih =>
    rw [Events.processLines]
    by_cases hfirst : Ignored first
    · have hmem : line ∈ lines := by
        rcases List.mem_cons.mp hline with rfl | hmem
        · exact absurd hfirst h
        · exact hmem
      obtain ⟨e, he⟩ := ih hmem
      rw [processLine_ignored hfirst, ok_bind]
      dsimp only
      rw [he]
      exact ⟨e, rfl⟩
    · obtain ⟨e, he⟩ := processLine_done (J := J) hdone hfirst
      rw [he]
      exact ⟨e, rfl⟩

/-! ### Up to the terminal marker -/

/-- The lines up to the terminal marker: what was built up, the text, and the lines behind it. -/
def Events.untilDone (J : JsonReader) : List (List UInt8) → Events →
    Except String (Events × List Char × List (List UInt8))
  | [], a => return (a, [], [])
  | line :: lines, a => do
    let (a, text) ← a.processLine J (stripReturn line)
    if a.done then return (a, text, lines)
    else do
      let (a, more, rest) ← untilDone J lines a
      return (a, text ++ more, rest)

variable {lines rest : List (List UInt8)} {a a' : Events} {text : List Char}
  (more : List (List UInt8))

theorem untilDone_error {e : String} (h : a.untilDone J lines = .error e) :
    (∃ e, a.processLines J lines = .error e) ∧ ∃ e, a.untilDone J (lines ++ more) = .error e := by
  induction lines generalizing a e with
  | nil => cases h
  | cons line lines ih =>
    rw [List.cons_append, Events.processLines]
    rw [Events.untilDone] at h ⊢
    cases hline : a.processLine J (stripReturn line) with
    | error e' => exact ⟨⟨e', rfl⟩, ⟨e', rfl⟩⟩
    | ok r =>
      obtain ⟨a₁, text₁⟩ := r
      rw [hline] at h
      simp only [ok_bind] at h ⊢
      by_cases hdone : a₁.done = true
      · rw [if_pos hdone] at h
        cases h
      · rw [if_neg hdone] at h ⊢
        cases hrest : a₁.untilDone J lines with
        | ok r =>
          rw [hrest] at h
          cases h
        | error e' =>
          obtain ⟨⟨e₁, h₁⟩, e₂, h₂⟩ := ih hrest
          rw [h₁, h₂]
          exact ⟨⟨e₁, rfl⟩, ⟨e₂, rfl⟩⟩

/-- Without the marker, all lines were read. -/
theorem untilDone_open (h : a.untilDone J lines = .ok (a', text, rest)) (hopen : a'.done = false) :
    a.processLines J lines = .ok (a', text) ∧ a.untilDone J (lines ++ more) =
      (a'.untilDone J more).map fun r => (r.1, text ++ r.2.1, r.2.2) := by
  induction lines generalizing a text with
  | nil =>
    cases h
    refine ⟨rfl, ?_⟩
    cases hmore : a'.untilDone J more <;> simp [hmore, Except.map]
  | cons line lines ih =>
    rw [List.cons_append, Events.processLines]
    rw [Events.untilDone] at h ⊢
    simp only [bind_eq_ok] at h
    obtain ⟨⟨a₁, text₁⟩, hline, h⟩ := h
    rw [hline]
    simp only [ok_bind]
    by_cases hdone : a₁.done = true
    · rw [if_pos hdone, pure_eq_ok] at h
      cases h
      rw [hdone] at hopen
      cases hopen
    · rw [if_neg hdone] at h ⊢
      simp only [bind_eq_ok, pure_eq_ok] at h
      obtain ⟨⟨a₂, text₂, rest₂⟩, hrest, h⟩ := h
      cases h
      obtain ⟨h₁, h₂⟩ := ih hrest
      rw [h₁, h₂]
      refine ⟨rfl, ?_⟩
      dsimp only
      cases a₂.untilDone J more with
      | error e => rfl
      | ok r =>
        show Except.ok _ = Except.ok _
        simp only [List.append_assoc]

/-- The marker is accepted only with tool calls that can be read. -/
theorem processLine_terminal {line : List UInt8} (ha : a.done = false)
    (h : a.processLine J line = .ok (a', text)) (hdone : a'.done = true) :
    ∃ calls, parsedToolCalls J a' = .ok calls := by
  simp only [Events.processLine, bind_eq_ok] at h
  obtain ⟨chars, -, h⟩ := h
  split_ifs at h with hignored hmarker
  · cases h
    rw [ha] at hdone
    cases hdone
  · simp only [Events.terminal, Events.validateTerminal, bind_eq_ok, pure_eq_ok] at h
    obtain ⟨_, -, _, -, _, ⟨finish, -, calls, hcalls, -⟩, h⟩ := h
    cases h
    exact ⟨calls, hcalls⟩
  · simp only [Events.processEvent, bind_eq_ok, pure_eq_ok] at h
    obtain ⟨_, -, _, -, _, -, value, -, choice, -, piece, -, calls, -, h⟩ := h
    cases h
    have hkept : a.done = true := hdone
    rw [ha] at hkept
    cases hkept

/-- With the marker, the lines behind it are left. -/
theorem untilDone_done (ha : a.done = false) (h : a.untilDone J lines = .ok (a', text, rest))
    (hdone : a'.done = true) : a.untilDone J (lines ++ more) = .ok (a', text, rest ++ more) ∧
      a.processLines J lines = (a'.processLines J rest).map (fun r => (r.1, text ++ r.2)) ∧
      (∃ head, lines = head ++ rest ∧ a.processLines J head = .ok (a', text)) ∧
      ∃ calls, parsedToolCalls J a' = .ok calls := by
  induction lines generalizing a text with
  | nil =>
    cases h
    rw [ha] at hdone
    cases hdone
  | cons line lines ih =>
    rw [List.cons_append, Events.processLines]
    rw [Events.untilDone] at h ⊢
    simp only [bind_eq_ok] at h
    obtain ⟨⟨a₁, text₁⟩, hline, h⟩ := h
    rw [hline]
    simp only [ok_bind]
    by_cases hdone₁ : a₁.done = true
    · rw [if_pos hdone₁, pure_eq_ok] at h
      cases h
      rw [if_pos hdone₁]
      refine ⟨rfl, ?_, ⟨[line], rfl, ?_⟩, processLine_terminal ha hline hdone₁⟩
      · cases a₁.processLines J rest <;> rfl
      · rw [Events.processLines, hline]
        show Except.ok _ = Except.ok _
        rw [List.append_nil]
    · rw [if_neg hdone₁] at h ⊢
      simp only [bind_eq_ok, pure_eq_ok] at h
      obtain ⟨⟨a₂, text₂, rest₂⟩, hrest, h⟩ := h
      cases h
      obtain ⟨h₁, h₂, ⟨head, hhead, h₃⟩, hcalls⟩ := ih (by simpa using hdone₁) hrest
      rw [h₁, h₂]
      refine ⟨rfl, ?_, ⟨line :: head, by rw [hhead, List.cons_append], ?_⟩, hcalls⟩
      · dsimp only
        cases a₂.processLines J rest₂ with
        | error e => rfl
        | ok r =>
          show Except.ok _ = Except.ok _
          simp only [List.append_assoc]
      · rw [Events.processLines, hline]
        simp only [ok_bind, h₃]
        rfl

/-! ### Chunks -/

/-- Before the marker, the lines of a chunk are read. -/
theorem feed_eq (chunk buffer : List UInt8) (ha : a.done = false) :
    SseAccumulator.feed J chunk ⟨buffer, a⟩ =
      a.processLines J (splitLines (buffer ++ chunk)).1 >>= fun r =>
        ensure (r.1.done = true → (splitLines (buffer ++ chunk)).2.all isAsciiWhitespace = true)
          afterMarker >>= fun _ => .ok (⟨(splitLines (buffer ++ chunk)).2, r.1⟩, r.2) := by
  unfold SseAccumulator.feed
  rw [if_neg (by rw [ha]; decide)]
  rfl

/-- The marker is the last line of a chunk, or is followed by lines that are passed over. -/
theorem feed_done {chunk buffer left : List UInt8} {lines : List (List UInt8)} (ha : a.done = false)
    (hlines : splitLines (buffer ++ chunk) = (lines, left))
    (hread : a.processLines J lines = .ok (a', text)) (hleft : Blank left) :
    SseAccumulator.feed J chunk ⟨buffer, a⟩ = .ok (⟨left, a'⟩, text) := by
  have hall : a'.done = true → left.all isAsciiWhitespace = true := fun _ => hleft
  rw [feed_eq chunk buffer ha, hlines]
  dsimp only
  rw [hread, ok_bind]
  dsimp only
  rw [ensure_of hall]
  rfl

/-- A stream is received chunk by chunk. -/
theorem receive_cons (chunk : List UInt8) (chunks : List (List UInt8)) (st : SseAccumulator) :
    st.receive J (chunk :: chunks) = st.feed J chunk >>= fun fed =>
      (fed.1.receive J chunks).map fun r => (fed.2 ++ r.1, r.2) := by
  unfold SseAccumulator.receive
  rw [SseAccumulator.feedAll]
  cases st.feed J chunk with
  | error e => rfl
  | ok fed =>
    simp only [ok_bind]
    cases fed.1.feedAll J chunks with
    | error e => rfl
    | ok r =>
      simp only [ok_bind, pure_bind]
      cases r.1.finish with
      | error e => rfl
      | ok u =>
        simp only [ok_bind]
        cases r.1.toolCalls J <;> rfl

/-- The outcome of a stream: no text where an error was reported. -/
def SseAccumulator.outcome (J : JsonReader) (chunks : List (List UInt8)) (st : SseAccumulator) :
    Option (List Char × List (ToolCall J)) := (st.receive J chunks).toOption

theorem outcome_cons_error {chunk : List UInt8} {chunks : List (List UInt8)} {st : SseAccumulator}
    {e : String} (h : st.feed J chunk = .error e) : st.outcome J (chunk :: chunks) = none := by
  unfold SseAccumulator.outcome
  rw [receive_cons, h]
  rfl

theorem outcome_cons_ok {chunk : List UInt8} {chunks : List (List UInt8)} {st : SseAccumulator}
    {fed : SseAccumulator × List Char} (h : st.feed J chunk = .ok fed) :
    st.outcome J (chunk :: chunks) =
      (fed.1.outcome J chunks).map fun r => (fed.2 ++ r.1, r.2) := by
  unfold SseAccumulator.outcome
  rw [receive_cons, h, ok_bind]
  cases fed.1.receive J chunks <;> rfl

/-- Behind the marker a later chunk is blank, or refused. -/
theorem outcome_done {st : SseAccumulator} (hdone : st.events.done = true) (hbuffer : Blank st.buffer)
    (chunks : List (List UInt8)) : st.outcome J chunks =
      if Blank chunks.flatten then
        (parsedToolCalls J st.events).toOption.map fun calls => ([], calls)
      else none := by
  induction chunks with
  | nil =>
    have hfinish : st.finish = .ok () := by
      unfold SseAccumulator.finish
      rw [ensure_of hdone, ok_bind]
      exact ensure_of hbuffer
    rw [if_pos (by rfl)]
    unfold SseAccumulator.outcome SseAccumulator.receive SseAccumulator.toolCalls
    rw [SseAccumulator.feedAll]
    simp only [pure_bind, hfinish, ok_bind]
    cases parsedToolCalls J st.events <;> rfl
  | cons chunk chunks ih =>
    rw [List.flatten_cons]
    by_cases hchunk : Blank chunk
    · have hall : chunk.all isAsciiWhitespace = true := hchunk
      have hfeed : st.feed J chunk = .ok (st, []) := by
        unfold SseAccumulator.feed
        rw [if_pos hdone, ensure_of hall]
        rfl
      rw [outcome_cons_ok hfeed, ih]
      by_cases hrest : Blank chunks.flatten
      · rw [if_pos hrest, if_pos (blank_append.mpr ⟨hchunk, hrest⟩)]
        cases (parsedToolCalls J st.events).toOption <;> rfl
      · rw [if_neg hrest, if_neg fun h => hrest (blank_append.mp h).2]
        rfl
    · have hall : ¬ chunk.all isAsciiWhitespace = true := hchunk
      have hfeed : st.feed J chunk = .error afterMarker := by
        unfold SseAccumulator.feed
        rw [if_pos hdone, ensure_not hall]
        rfl
      rw [outcome_cons_error hfeed, if_neg fun h => hchunk (blank_append.mp h).1]

/-- What is made of a stream that is read line by line, and has these bytes left at its end. -/
def Events.verdict (J : JsonReader) (lines : List (List UInt8)) (left : List UInt8) (a : Events) :
    Option (List Char × List (ToolCall J)) :=
  (a.untilDone J lines).toOption.bind fun r =>
    if r.1.done = true ∧ (∀ line ∈ r.2.2, Blank line) ∧ Blank left then
      (parsedToolCalls J r.1).toOption.map fun calls => (r.2.1, calls)
    else none

/-- What follows the terminal marker is blank, or is refused wherever the stream is cut. -/
def Events.Settled (J : JsonReader) (lines : List (List UInt8)) (left : List UInt8) (a : Events) : Prop :=
  ∀ a' text rest, a.untilDone J lines = .ok (a', text, rest) → a'.done = true →
    (∀ line ∈ rest, Blank line) ∨ (∃ line ∈ rest, ¬ Ignored line) ∨ ¬ Blank left

/-- **Chunks**: where what follows the marker is settled, a stream is received as it is read line by
line, in whatever chunks it arrives. -/
theorem outcome_eq (chunks : List (List UInt8)) {a : Events} {buffer : List UInt8}
    (ha : a.done = false) (hbuffer : splitLines buffer = ([], buffer))
    (hsettled : a.Settled J (splitLines (buffer ++ chunks.flatten)).1
      (splitLines (buffer ++ chunks.flatten)).2) :
    SseAccumulator.outcome J chunks ⟨buffer, a⟩ = a.verdict J
      (splitLines (buffer ++ chunks.flatten)).1 (splitLines (buffer ++ chunks.flatten)).2 := by
  induction chunks generalizing a buffer with
  | nil =>
    have hfinish : ∃ e, (⟨buffer, a⟩ : SseAccumulator).finish = .error e := by
      unfold SseAccumulator.finish
      rw [ensure_not (by rw [ha]; decide)]
      exact ⟨_, rfl⟩
    obtain ⟨e, hfinish⟩ := hfinish
    rw [List.flatten_nil, List.append_nil, hbuffer]
    unfold SseAccumulator.outcome SseAccumulator.receive Events.verdict
    rw [SseAccumulator.feedAll, Events.untilDone]
    simp only [pure_bind, hfinish, error_bind]
    show none = if a.done = true ∧ _ then _ else none
    rw [if_neg (by rw [ha]; simp)]
  | cons chunk chunks ih =>
    rw [List.flatten_cons, ← List.append_assoc, splitLines_append] at hsettled ⊢
    generalize hl : (splitLines (buffer ++ chunk)).1 = l at hsettled ⊢
    generalize ht : (splitLines (buffer ++ chunk)).2 = t at hsettled ⊢
    have htail : splitLines t = ([], t) := by
      rw [← ht]
      exact splitLines_left _
    have hblank := blank_splitLines (t ++ chunks.flatten)
    have hfeed := feed_eq (J := J) chunk buffer ha
    rw [hl, ht] at hfeed
    cases hread : a.untilDone J l with
    | error e =>
      obtain ⟨⟨e₁, h₁⟩, e₂, h₂⟩ := untilDone_error
        (splitLines (t ++ chunks.flatten)).1 hread
      rw [outcome_cons_error (e := e₁) (by rw [hfeed, h₁]; rfl)]
      unfold Events.verdict
      rw [h₂]
      rfl
    | ok r =>
      obtain ⟨a₁, text, rest⟩ := r
      by_cases hdone : a₁.done = true
      · obtain ⟨h₁, h₂, -, -⟩ := untilDone_done (splitLines (t ++ chunks.flatten)).1
          ha hread hdone
        have hverdict : a.verdict J (l ++ (splitLines (t ++ chunks.flatten)).1)
            (splitLines (t ++ chunks.flatten)).2 =
              if (∀ line ∈ rest, Blank line) ∧ Blank t ∧ Blank chunks.flatten then
                (parsedToolCalls J a₁).toOption.map fun calls => (text, calls)
              else none := by
          unfold Events.verdict
          rw [h₁]
          show (if _ then _ else none) = _
          refine if_congr ?_ rfl rfl
          rw [List.forall_mem_append, and_assoc, hblank, blank_append]
          exact ⟨fun h => h.2, fun h => ⟨hdone, h⟩⟩
        rw [hverdict]
        by_cases hignored : ∀ line ∈ rest, Ignored line
        · rw [processLines_ignored hignored] at h₂
          by_cases hleft : Blank t
          · have hread₂ : a.processLines J l = .ok (a₁, text) := by
              rw [h₂]
              show Except.ok (_, text ++ []) = _
              rw [List.append_nil]
            have hok := feed_done ha (Prod.ext hl ht) hread₂ hleft
            rw [outcome_cons_ok hok, outcome_done hdone hleft]
            by_cases hrest : Blank chunks.flatten
            · have hmore := hblank.mpr (blank_append.mpr ⟨hleft, hrest⟩)
              have hlines : ∀ line ∈ rest, Blank line := by
                rcases hsettled a₁ text _ h₁ hdone with hall | ⟨line, hline, hnot⟩ | hnot
                · exact fun line hline => hall line (List.mem_append_left _ hline)
                · rcases List.mem_append.mp hline with hline | hline
                  · exact absurd (hignored line hline) hnot
                  · exact absurd (ignored_of_blank (hmore.1 line hline)) hnot
                · exact absurd hmore.2 hnot
              rw [if_pos hrest, if_pos ⟨hlines, hleft, hrest⟩, Option.map_map]
              simp [Function.comp_def]
            · rw [if_neg hrest, if_neg fun h => hrest h.2.2]
              rfl
          · have hall : ¬ (a₁.done = true → t.all isAsciiWhitespace = true) := fun h =>
              hleft (h hdone)
            have herror : SseAccumulator.feed J chunk ⟨buffer, a⟩ = .error afterMarker := by
              rw [hfeed, h₂]
              show ensure (a₁.done = true → _) _ >>= _ = _
              rw [ensure_not hall]
              rfl
            rw [outcome_cons_error herror, if_neg fun h => hleft h.2.1]
        · push Not at hignored
          obtain ⟨line, hline, hnot⟩ := hignored
          obtain ⟨e, he⟩ := processLines_done (J := J) hdone hline hnot
          rw [he] at h₂
          have herror : SseAccumulator.feed J chunk ⟨buffer, a⟩ = .error e := by
            rw [hfeed, h₂]
            rfl
          rw [outcome_cons_error herror, if_neg fun h => hnot (ignored_of_blank (h.1 line hline))]
      · have hopen : a₁.done = false := by simpa using hdone
        obtain ⟨h₁, h₂⟩ := untilDone_open (splitLines (t ++ chunks.flatten)).1 hread hopen
        have hok : SseAccumulator.feed J chunk ⟨buffer, a⟩ = .ok (⟨t, a₁⟩, text) := by
          rw [hfeed, h₁, ok_bind, ensure_of fun h => absurd h hdone]
          rfl
        have hsettled₁ : a₁.Settled J (splitLines (t ++ chunks.flatten)).1
            (splitLines (t ++ chunks.flatten)).2 := by
          intro a' more rest' hmore
          refine hsettled a' (text ++ more) rest' ?_
          rw [h₂, hmore]
          rfl
        rw [outcome_cons_ok hok, ih hopen htail hsettled₁]
        unfold Events.verdict
        rw [h₂]
        cases a₁.untilDone J (splitLines (t ++ chunks.flatten)).1 with
        | error e => rfl
        | ok r =>
          show Option.map _ (if _ then _ else none) = if _ then _ else none
          split_ifs
          · rw [Option.map_map]
            rfl
          · rfl

/-! ### Where the cuts matter -/

/-- The outcome of a stream does not depend on its chunks. -/
def ChunkFree (J : JsonReader) (bytes : List UInt8) : Prop :=
  ∀ chunks chunks' : List (List UInt8), chunks.flatten = bytes → chunks'.flatten = bytes →
    SseAccumulator.default.outcome J chunks = SseAccumulator.default.outcome J chunks'

/-- What follows the terminal marker is blank, or is refused wherever the stream is cut. -/
def SettledStream (J : JsonReader) (bytes : List UInt8) : Prop :=
  Events.default.Settled J (splitLines bytes).1 (splitLines bytes).2

/-- A comment behind the marker is accepted in the chunk of the marker, and refused in the next. -/
theorem outcomes_differ {bytes : List UInt8} (hopen : ¬ SettledStream J bytes) :
    ∃ head tail, bytes = head ++ tail ∧
      (SseAccumulator.default.outcome J [bytes]).isSome = true ∧
      SseAccumulator.default.outcome J [head, tail] = none := by
  unfold SettledStream Events.Settled at hopen
  push Not at hopen
  obtain ⟨a, text, rest, hread, hdone, ⟨line, hline, hnot⟩, hignored, hleft⟩ := hopen
  have hstart : Events.default.done = false := rfl
  obtain ⟨-, hlines, ⟨head, hhead, hmarker⟩, calls, hcalls⟩ :=
    untilDone_done [] hstart hread hdone
  have hwhole : Events.default.processLines J (splitLines bytes).1 = .ok (a, text) := by
    rw [hlines, processLines_ignored hignored]
    show Except.ok (_, text ++ []) = _
    rw [List.append_nil]
  have hjoin : joinLines head ++ (joinLines rest ++ (splitLines bytes).2) = bytes := by
    have happend : joinLines (head ++ rest) = joinLines head ++ joinLines rest :=
      List.flatMap_append
    rw [← List.append_assoc, ← happend, ← hhead, joinLines_splitLines]
  have hhead₁ : splitLines (joinLines head) = (head, []) := splitLines_joinLines fun l hl =>
    not_mem_splitLines bytes l (by rw [hhead]; exact List.mem_append_left _ hl)
  refine ⟨joinLines head, joinLines rest ++ (splitLines bytes).2, hjoin.symm, ?_, ?_⟩
  · have hok : SseAccumulator.default.feed J bytes = .ok (⟨(splitLines bytes).2, a⟩, text) :=
      feed_done hstart (show splitLines ([] ++ bytes) = _ from rfl) hwhole hleft
    have hblank : Blank ([] : List (List UInt8)).flatten := rfl
    rw [outcome_cons_ok hok, outcome_done hdone hleft, if_pos hblank, hcalls]
    rfl
  · have hok : SseAccumulator.default.feed J (joinLines head) = .ok (⟨[], a⟩, text) :=
      feed_done hstart (show splitLines ([] ++ joinLines head) = _ from hhead₁) hmarker rfl
    have hrest : ¬ Blank [joinLines rest ++ (splitLines bytes).2].flatten := fun h => by
      rw [List.flatten_singleton, blank_append, blank_joinLines] at h
      exact hnot (h.1 line hline)
    have hopen : (⟨[], a⟩ : SseAccumulator).events.done = true := hdone
    rw [outcome_cons_ok hok, outcome_done hopen rfl, if_neg hrest]
    rfl

/-- **Chunks**: the outcome of a stream does not depend on its chunks exactly if what follows the
terminal marker is blank, or is refused wherever the stream is cut. -/
theorem chunkFree_iff (J : JsonReader) (bytes : List UInt8) :
    ChunkFree J bytes ↔ SettledStream J bytes := by
  constructor
  · intro hfree
    by_contra hopen
    obtain ⟨head, tail, hbytes, hsome, hnone⟩ := outcomes_differ hopen
    have hsame := hfree [bytes] [head, tail] List.flatten_singleton (by simp [hbytes])
    rw [hsame, hnone] at hsome
    cases hsome
  · intro hsettled chunks chunks' hchunks hchunks'
    have heq : ∀ cs : List (List UInt8), cs.flatten = bytes →
        SseAccumulator.default.outcome J cs = Events.default.verdict J (splitLines bytes).1
          (splitLines bytes).2 := fun cs hcs => by
      have hstart : Events.default.done = false := rfl
      have hempty : splitLines [] = ([], []) := rfl
      have hwhole := outcome_eq (J := J) cs hstart hempty (by
        rw [List.nil_append, hcs]
        exact hsettled)
      rw [List.nil_append, hcs] at hwhole
      exact hwhole
    rw [heq chunks hchunks, heq chunks' hchunks']

/-! ### A comment behind the marker -/

def stopPayload : List Char :=
  "\x7b\"choices\":[\x7b\"delta\":\x7b\x7d,\"finish_reason\":\"stop\"\x7d]\x7d".toList

/-- JSON for the event that ends a reply. -/
def stopReader : JsonReader where
  Number := ℕ
  asU64 n := some n
  read text := if text = stopPayload then
      .ok (.object [("choices", .array [.object [("delta", .object []),
        ("finish_reason", .string "stop")]])])
    else .error "expected value"
  printable c := ' ' ≤ c && c ≤ '~'

/-- A reply that ends, with its marker. -/
def stopStream : List UInt8 :=
  ("data: ".toList ++ stopPayload ++ "\ndata: [DONE]\n".toList).flatMap String.utf8EncodeChar

/-- A comment. -/
def comment : List UInt8 := ": bye\n".toList.flatMap String.utf8EncodeChar

/-- The comment is passed over in the chunk of the marker, and refused in the next chunk. -/
theorem comment_cut : ¬ ∀ (J : JsonReader) (bytes : List UInt8), ChunkFree J bytes := by
  intro hall
  have hsame := hall stopReader (stopStream ++ comment) [stopStream ++ comment] [stopStream, comment]
    rfl (by simp)
  have hone : (SseAccumulator.default.outcome stopReader [stopStream ++ comment]).isSome = true := by
    decide +kernel
  have htwo : (SseAccumulator.default.outcome stopReader [stopStream, comment]).isSome = false := by
    decide +kernel
  rw [hsame, htwo] at hone
  cases hone

end AbbeyBot.Llm
