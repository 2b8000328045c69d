import Mathlib
import AbbeyBot.Honesty.Scan

/-! # The grounding check

The specifics of a reply are looked up in the sources the turn was given: by key, or in the text of
the sources at the boundaries of a token. More sources only ground more, a source grounds itself, and
the note about what is missing survives a reply of any length. -/

namespace AbbeyBot.Honesty

open AbbeyBot.Library.Text

variable {U : Unicode}

/-! ### Sources -/

structure Grounding where
  keys : Finset (List Char)
  haystack : List Char
  deriving DecidableEq

/-- `Grounding::new`. -/
def Grounding.new : Grounding := ⟨∅, []⟩

/-- The looser keys of `expand_grounding_key`. -/
def looserKeys (s : Specific) : List (List Char) :=
  match s.kind with
  | .date => (s.key.splitOn '-').head?.toList
  | .version =>
    let segments := s.key.splitOn '.'
    (List.range segments.length).tail.map fun take => ['.'].intercalate (segments.take take)
  | .percentage => if s.key.getLast? = some '%' then [s.key.dropLast] else []
  | _ => []

/-- `expand_grounding_key`. -/
def expandGroundingKey (keys : Finset (List Char)) (s : Specific) : Finset (List Char) :=
  (looserKeys s).foldl (fun keys key => insert key keys) (insert s.key keys)

/-- `normalize_haystack`. -/
def normalizeHaystack (U : Unicode) (s : List Char) : List Char := collapseWs (U.toLowercase s)

/-- `push_source`. -/
def Grounding.pushSource (U : Unicode) (g : Grounding) (text : List Char) : Grounding where
  keys := (scan U true true text).foldl expandGroundingKey g.keys
  haystack := (if g.haystack = [] then [] else g.haystack ++ ['\n']) ++ normalizeHaystack U text

/-- `is_empty`. -/
def Grounding.isEmpty (g : Grounding) : Bool := g.haystack = []

/-- The character in front of a match ends another token. -/
def beforeOk (U : Unicode) : Option Char → Bool
  | none => true
  | some c => !(U.isAlphanumeric c || c ∈ ['_', '-', '/', '.', ','])

/-- What follows a match begins another token. -/
def afterOk (U : Unicode) : List Char → Bool
  | [] => true
  | c :: rest =>
    if U.isAlphanumeric c || c ∈ ['_', '-', '/'] then false
    else if c ∈ ['.', ',', ':'] then !startsWithDigit rest
    else true

/-- The matches of `boundary_contains`, from left to right, behind this character. -/
def boundaryMatch (U : Unicode) (needle : List Char) (before : Option Char) : List Char → Bool
  | [] => false
  | c :: rest =>
    if needle <+: c :: rest then
      if beforeOk U before && afterOk U ((c :: rest).drop needle.length) then true
      else boundaryMatch U needle needle.getLast? (rest.drop (needle.length - 1))
    else boundaryMatch U needle (some c) rest
termination_by s => s.length
decreasing_by
  · rw [List.length_drop, List.length_cons]
    omega
  · exact Nat.lt_succ_self _

/-- `boundary_contains`. -/
def boundaryContains (U : Unicode) (haystack needle : List Char) : Bool :=
  if needle = [] then false else boundaryMatch U needle none haystack

/-- What `grounds` looks for in the text of the sources. -/
def foundIn (U : Unicode) (haystack : List Char) (s : Specific) : Bool :=
  match s.kind with
  | .quotation => s.key <:+: haystack
  | _ => boundaryContains U haystack s.key || boundaryContains U haystack (U.toLowercase s.text)

/-- `grounds`. -/
def Grounding.grounds (U : Unicode) (g : Grounding) (s : Specific) : Bool :=
  s.key ∈ g.keys || foundIn U g.haystack s

/-! ### Replies -/

structure Verdict where
  examined : List Specific
  ungrounded : List Specific
  groundingEmpty : Bool
  deriving DecidableEq

/-- `should_hedge`. -/
def Verdict.shouldHedge (v : Verdict) : Bool := !v.groundingEmpty && !v.ungrounded.isEmpty

/-- `dedup_specifics`, after those of these kinds and keys. -/
def dedupSpecifics : List (SpecificKind × List Char) → List Specific → List Specific
  | _, [] => []
  | seen, s :: rest =>
    if (s.kind, s.key) ∈ seen then dedupSpecifics seen rest
    else s :: dedupSpecifics ((s.kind, s.key) :: seen) rest

/-- `check`. -/
def check (U : Unicode) (reply : List Char) (g : Grounding) : Verdict :=
  let examined := dedupSpecifics [] (scan U false true reply)
  { examined := examined
    ungrounded := examined.filter fun s => !g.grounds U s
    groundingEmpty := g.isEmpty }

def hedgePrefix : List Char := "Heads up — treat these as unsupported: ".toList

def hedgeSuffix : List Char :=
  ". Nothing in this conversation or the facts I was given contains them, and ".toList ++
    "I have no source for them here.".toList

def hedgeMaxListed : ℕ := 3

def hedgeItemChars : ℕ := 40

def tidyLimitChars : ℕ := 1900

/-- `clip`. -/
def clip (s : List Char) (max : ℕ) : List Char :=
  if s.length ≤ max then s else trimEnd (s.take (max - 1)) ++ ['…']

/-- `hedge_item`. -/
def hedgeItem (s : Specific) : List Char :=
  '\x60' :: clip ((collapseWs s.text).filter (· ≠ '\x60')) hedgeItemChars ++ ['\x60']

/-- `hedge_note`. -/
def hedgeNote (ungrounded : List Specific) : List Char :=
  let listed := (ungrounded.take hedgeMaxListed).map hedgeItem
  let extra := ungrounded.length - listed.length
  hedgePrefix ++ ", ".toList.intercalate listed ++
    (if 0 < extra then " and ".toList ++ (toString extra).toList ++ " more".toList else []) ++ hedgeSuffix

inductive Action where
  | passThrough
  | hedge (note : List Char)
  deriving DecidableEq

/-- `action`. -/
def action (v : Verdict) : Action :=
  if v.shouldHedge then .hedge (hedgeNote v.ungrounded) else .passThrough

/-- `trim_to_words`. -/
def trimToWords (s : List Char) (max : ℕ) : List Char :=
  if s.length ≤ max then s
  else if max ≤ 2 then []
  else
    let head := s.take (max - 2)
    let cut := if head.any isWhitespace then (head.rdropWhile fun c => !isWhitespace c).dropLast
      else trimEnd head
    trimEnd cut ++ [' ', '…']

def separator : List Char := ['\n', '\n']

/-- `hedged`. -/
def hedged (reply : List Char) (v : Verdict) : List Char :=
  match action v with
  | .passThrough => trimText reply
  | .hedge note =>
    trimToWords (trimText reply) (tidyLimitChars - (note.length + separator.length)) ++ separator ++ note

/-! ### More sources -/

theorem subset_foldl_insert (more : List (List Char)) (keys : Finset (List Char)) :
    keys ⊆ more.foldl (fun keys key => insert key keys) keys := by
  induction more generalizing keys with
  | nil => exact Finset.Subset.refl _
  | cons key more ih => exact (Finset.subset_insert key keys).trans (ih _)

theorem subset_expandGroundingKey (keys : Finset (List Char)) (s : Specific) :
    insert s.key keys ⊆ expandGroundingKey keys s :=
  subset_foldl_insert _ _

/-- The keys of all specifics are added, and no key goes. -/
theorem mem_foldl_expand {found : List Specific} {keys : Finset (List Char)} {key : List Char}
    (h : key ∈ keys ∨ key ∈ found.map Specific.key) : key ∈ found.foldl expandGroundingKey keys := by
  induction found generalizing keys with
  | nil => exact h.resolve_right List.not_mem_nil
  | cons s found ih =>
    rw [List.foldl_cons]
    have hexpand := subset_expandGroundingKey keys s
    refine ih ?_
    rcases h with h | h
    · exact .inl (hexpand (Finset.mem_insert_of_mem h))
    · rcases List.mem_cons.mp h with rfl | h
      · exact .inl (hexpand (Finset.mem_insert_self _ _))
      · exact .inr h

theorem afterOk_newline (more : List Char) : afterOk U ('\n' :: more) = true := by
  have hnewline : U.isAlphanumeric '\n' = false := U.newline
  unfold afterOk
  dsimp only
  rw [hnewline]
  rfl

theorem afterOk_append {s : List Char} (more : List Char) (h : afterOk U s = true) :
    afterOk U (s ++ '\n' :: more) = true := by
  cases s with
  | nil => exact afterOk_newline more
  | cons c rest =>
    have hrest : startsWithDigit (rest ++ '\n' :: more) = startsWithDigit rest := by
      cases rest <;> rfl
    unfold afterOk at h ⊢
    rw [List.cons_append]
    dsimp only
    rwa [hrest]

/-- A match fits into the text. -/
theorem length_le_of_boundaryMatch {needle : List Char} {before : Option Char} {s : List Char}
    (h : boundaryMatch U needle before s = true) : needle.length ≤ s.length := by
  fun_induction boundaryMatch U needle before s with
  | case1 => cases h
  | case2 before c rest hpre _ => exact hpre.length_le
  | case3 before c rest hpre _ _ => exact hpre.length_le
  | case4 before c rest hpre ih => exact (ih h).trans (Nat.le_succ _)

/-- A match at the boundaries of a token stays one when another source follows. -/
theorem boundaryMatch_append {needle : List Char} {before : Option Char} {s : List Char}
    (more : List Char) (h : boundaryMatch U needle before s = true) :
    boundaryMatch U needle before (s ++ '\n' :: more) = true := by
  fun_induction boundaryMatch U needle before s with
  | case1 => cases h
  | case2 before c rest hpre hok =>
    have hlen := hpre.length_le
    have hpre' : needle <+: c :: rest ++ '\n' :: more := hpre.trans (List.prefix_append _ _)
    rw [Bool.and_eq_true] at hok
    rw [List.cons_append] at hpre' ⊢
    rw [boundaryMatch, if_pos hpre', if_pos]
    rw [hok.1, Bool.true_and, ← List.cons_append, List.drop_append_of_le_length hlen]
    exact afterOk_append more hok.2
  | case3 before c rest hpre hok ih =>
    have hlen := hpre.length_le
    have hpre' : needle <+: c :: rest ++ '\n' :: more := hpre.trans (List.prefix_append _ _)
    rw [List.cons_append] at hpre' ⊢
    rw [boundaryMatch, if_pos hpre']
    split_ifs
    · rfl
    · have hrest : needle.length - 1 ≤ rest.length := by
        rw [List.length_cons] at hlen
        omega
      rw [List.drop_append_of_le_length hrest]
      exact ih h
  | case4 before c rest hpre ih =>
    have hfits := length_le_of_boundaryMatch h
    have hpre' : ¬ needle <+: c :: (rest ++ '\n' :: more) := fun hlong => by
      -- what begins here and goes on behind the source is longer than the rest of it
      rw [← List.cons_append] at hlong
      refine hpre (List.prefix_of_prefix_length_le hlong (List.prefix_append _ _) ?_)
      exact hfits.trans (Nat.le_succ _)
    rw [List.cons_append, boundaryMatch, if_neg hpre']
    exact ih h

theorem boundaryContains_append {haystack needle : List Char} (more : List Char)
    (h : boundaryContains U haystack needle = true) :
    boundaryContains U (haystack ++ '\n' :: more) needle = true := by
  unfold boundaryContains at h ⊢
  split_ifs at h ⊢ with hne
  exact boundaryMatch_append more h

theorem boundaryContains_nil (needle : List Char) : boundaryContains U [] needle = false := by
  unfold boundaryContains
  split_ifs
  · rfl
  · rw [boundaryMatch]

theorem foundIn_append {haystack : List Char} {s : Specific} (more : List Char)
    (h : foundIn U haystack s = true) : foundIn U (haystack ++ '\n' :: more) s = true := by
  unfold foundIn at h ⊢
  split at h
  · exact decide_eq_true ((of_decide_eq_true h).trans (List.prefix_append _ _).isInfix)
  · rw [Bool.or_eq_true] at h ⊢
    exact h.imp (boundaryContains_append more) (boundaryContains_append more)

/-- Only the empty quotation is found in no text. -/
theorem foundIn_of_nil {s : Specific} (text : List Char) (h : foundIn U [] s = true) :
    foundIn U text s = true := by
  unfold foundIn at h ⊢
  split at h
  · rw [List.infix_nil.mp (of_decide_eq_true h)]
    exact decide_eq_true List.nil_infix
  · rw [boundaryContains_nil, boundaryContains_nil] at h
    cases h

/-- **More sources**: what a grounding contains, it contains with another source. -/
theorem grounds_pushSource {g : Grounding} {s : Specific} (text : List Char)
    (h : g.grounds U s = true) : (g.pushSource U text).grounds U s = true := by
  unfold Grounding.grounds at h ⊢
  rw [Bool.or_eq_true, decide_eq_true_eq] at h ⊢
  refine h.imp (fun hkey => mem_foldl_expand (.inl hkey)) fun hfound => ?_
  unfold Grounding.pushSource
  dsimp only
  by_cases hempty : g.haystack = []
  · rw [hempty] at hfound
    exact foundIn_of_nil _ hfound
  · rw [if_neg hempty, List.append_assoc, List.singleton_append]
    exact foundIn_append _ hfound

/-! ### A source grounds itself -/

theorem mem_of_mem_dedupSpecifics {seen : List (SpecificKind × List Char)} {items : List Specific}
    {s : Specific} (h : s ∈ dedupSpecifics seen items) : s ∈ items := by
  induction items generalizing seen with
  | nil => cases h
  | cons item items ih =>
    unfold dedupSpecifics at h
    split_ifs at h
    · exact List.mem_cons_of_mem _ (ih h)
    · rcases List.mem_cons.mp h with rfl | h
      · exact List.mem_cons_self
      · exact List.mem_cons_of_mem _ (ih h)

/-- **A source grounds itself**: every specific that is found in a text as a reply is a key once the
text is a source. -/
theorem grounds_self (g : Grounding) (text : List Char) {s : Specific}
    (h : s ∈ scan U false true text) : (g.pushSource U text).grounds U s = true := by
  have hfound : s ∈ scan U true true text := mem_scan_generous U true text s h
  have hkey : s.key ∈ (g.pushSource U text).keys :=
    mem_foldl_expand (.inr (List.mem_map_of_mem hfound))
  unfold Grounding.grounds
  rw [decide_eq_true hkey, Bool.true_or]

theorem grounds_foldl_pushSource {g : Grounding} {s : Specific} (more : List (List Char))
    (h : g.grounds U s = true) :
    (more.foldl (Grounding.pushSource U) g).grounds U s = true := by
  induction more generalizing g with
  | nil => exact h
  | cons text more ih => exact ih (grounds_pushSource text h)

theorem check_self (g : Grounding) (text : List Char) (more : List (List Char)) :
    (check U text (more.foldl (Grounding.pushSource U) (g.pushSource U text))).ungrounded = [] := by
  refine List.filter_eq_nil_iff.mpr fun s hs => ?_
  rw [grounds_foldl_pushSource more (grounds_self g text (mem_of_mem_dedupSpecifics hs))]
  exact Bool.false_ne_true

/-! ### The note -/

theorem length_trimEnd (s : List Char) : (trimEnd s).length ≤ s.length :=
  (List.rdropWhile_prefix _ s).length_le

theorem length_clip {s : List Char} {max : ℕ} (hmax : 0 < max) : (clip s max).length ≤ max := by
  unfold clip
  split_ifs with hfits
  · exact hfits
  · have htrim := length_trimEnd (s.take (max - 1))
    rw [List.length_take] at htrim
    rw [List.length_append, List.length_singleton]
    omega

theorem length_hedgeItem (s : Specific) : (hedgeItem s).length ≤ 42 := by
  have hclip : (clip ((collapseWs s.text).filter (· ≠ '\x60')) hedgeItemChars).length ≤ 40 :=
    length_clip (by decide)
  unfold hedgeItem
  rw [List.length_append, List.length_cons, List.length_singleton]
  omega

theorem length_trimToWords (s : List Char) (max : ℕ) : (trimToWords s max).length ≤ max := by
  unfold trimToWords
  split_ifs with hfits hsmall
  · exact hfits
  · exact Nat.zero_le _
  · have hhead : (s.take (max - 2)).length ≤ max - 2 := List.length_take_le _ _
    dsimp only
    rw [List.length_append, List.length_cons, List.length_singleton]
    split_ifs
    · have hcut := ((List.dropLast_prefix _).trans (List.rdropWhile_prefix
        (fun c => !isWhitespace c) (s.take (max - 2)))).length_le
      have htrim := length_trimEnd
        (((s.take (max - 2)).rdropWhile fun c => !isWhitespace c).dropLast)
      omega
    · have hcut := length_trimEnd (s.take (max - 2))
      have htrim := length_trimEnd (trimEnd (s.take (max - 2)))
      omega

/-- The note is bounded, however many specifics there are. -/
theorem length_hedgeNote {ungrounded : List Specific} (h : ungrounded.length < 2 ^ 64) :
    (hedgeNote ungrounded).length ≤ 400 := by
  have hlisted : ((ungrounded.take hedgeMaxListed).map hedgeItem).length ≤ 3 := by
    rw [List.length_map]
    exact List.length_take_le _ _
  have hitems : (", ".toList.intercalate ((ungrounded.take hedgeMaxListed).map hedgeItem)).length ≤
      ((ungrounded.take hedgeMaxListed).map hedgeItem).length * (42 + 2) := by
    refine length_intercalate_le fun item hitem => ?_
    obtain ⟨s, -, rfl⟩ := List.mem_map.mp hitem
    exact length_hedgeItem s
  have hextra : ∀ n ≤ ungrounded.length, (toString n).toList.length ≤ 20 := fun n hn =>
    length_toString_le (by decide) (by omega)
  have hcount := hextra (ungrounded.length - ((ungrounded.take hedgeMaxListed).map hedgeItem).length)
    (Nat.sub_le _ _)
  have hopening : hedgePrefix.length ≤ 40 := by decide
  have hclosing : hedgeSuffix.length ≤ 120 := by decide
  have hand : " and ".toList.length = 5 := rfl
  have hmore : " more".toList.length = 5 := rfl
  unfold hedgeNote
  dsimp only
  rw [List.length_append, List.length_append, List.length_append]
  split_ifs
  · rw [List.length_append, List.length_append]
    omega
  · rw [List.length_nil]
    omega

theorem hedged_of_shouldHedge {v : Verdict} (reply : List Char) (h : v.shouldHedge = true) :
    hedged reply v = trimToWords (trimText reply)
      (tidyLimitChars - ((hedgeNote v.ungrounded).length + separator.length)) ++ separator ++
        hedgeNote v.ungrounded := by
  unfold hedged action
  rw [if_pos h]

/-- A reply with a note stays within the limit. -/
theorem length_hedged {v : Verdict} (reply : List Char) (hv : v.ungrounded.length < 2 ^ 64)
    (h : v.shouldHedge = true) : (hedged reply v).length ≤ tidyLimitChars := by
  have hnote := length_hedgeNote hv
  have hbody := length_trimToWords (trimText reply)
    (tidyLimitChars - ((hedgeNote v.ungrounded).length + separator.length))
  have hseparator : separator.length = 2 := rfl
  have hlimit : tidyLimitChars = 1900 := rfl
  rw [hedged_of_shouldHedge reply h, List.length_append, List.length_append]
  omega

/-- **The guard**: more sources never make a specific ungrounded; a source grounds all of its own text,
whatever comes before or after it; and a reply with a note is within the limit and ends with the whole
note. The specifics of a verdict are counted by a machine word. -/
theorem guard_spec (U : Unicode) :
    (∀ (g : Grounding) (reply text : List Char), ∀ s ∈ (check U reply g).examined,
      g.grounds U s = true → (g.pushSource U text).grounds U s = true) ∧
    (∀ (g : Grounding) (text : List Char) (more : List (List Char)),
      (check U text (more.foldl (Grounding.pushSource U) (g.pushSource U text))).ungrounded = []) ∧
    (∀ (reply : List Char) (v : Verdict), v.ungrounded.length < 2 ^ 64 → v.shouldHedge = true →
      (hedged reply v).length ≤ tidyLimitChars ∧ hedgeNote v.ungrounded <:+ hedged reply v) := by
  refine ⟨fun g reply text s _ hs => grounds_pushSource text hs, check_self, fun reply v hv h => ?_⟩
  refine ⟨length_hedged reply hv h, ?_⟩
  rw [hedged_of_shouldHedge reply h]
  exact List.suffix_append _ _

/-- The tables of the ASCII characters. -/
def asciiTables : Unicode where
  isAlphabetic := Char.isAlpha
  isNumeric := Char.isDigit
  toLowercase := List.map Char.toLower
  newline := by decide

/-- A year that no source has. -/
def yearVerdict : Verdict := ⟨[⟨.year, "2019".toList, "2019".toList⟩],
  [⟨.year, "2019".toList, "2019".toList⟩], false⟩

theorem year_hedged :
    (check asciiTables "in 2019 or 3.5".toList (Grounding.new.pushSource asciiTables
      "in 2019 or 3.5".toList)).ungrounded = [] ∧
    (hedged "It was 2019.".toList yearVerdict).length ≤ tidyLimitChars ∧
    hedgeNote yearVerdict.ungrounded <:+ hedged "It was 2019.".toList yearVerdict :=
  ⟨(guard_spec asciiTables).2.1 Grounding.new "in 2019 or 3.5".toList [],
    (guard_spec asciiTables).2.2 "It was 2019.".toList yearVerdict (by decide) (by decide)⟩

end AbbeyBot.Honesty
