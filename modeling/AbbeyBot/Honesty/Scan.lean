import Mathlib
import AbbeyBot.Library.Text

/-! # The scanner of specifics

A text is walked once, from left to right, for a few concrete shapes: versions, dates, years,
percentages, other statistics, and quotations, whose contents are walked too. A source is scanned more
generously than a reply: there a bare integer counts. That changes what is found, never where the
scanner goes on; so whatever is found in a reply is found in a source of the same text. -/

namespace AbbeyBot.Honesty

open AbbeyBot.Library.Text

/-! ### Texts -/

/-- The Unicode tables of the standard library. -/
structure Unicode where
  isAlphabetic : Char → Bool
  isNumeric : Char → Bool
  toLowercase : List Char → List Char
  newline : (isAlphabetic '\n' || isNumeric '\n') = false

/-- `char::is_alphanumeric`. -/
def Unicode.isAlphanumeric (U : Unicode) (c : Char) : Bool := U.isAlphabetic c || U.isNumeric c

/-- `str::trim_end`. -/
def trimEnd (s : List Char) : List Char := s.rdropWhile isWhitespace

/-- `str::trim`. -/
def trimText (s : List Char) : List Char := trimEnd (s.dropWhile isWhitespace)

/-- `collapse_ws`. -/
def collapseWs (s : List Char) : List Char :=
  [' '].intercalate ((s.splitOnP isWhitespace).filter (· ≠ []))

/-- The length in bytes. -/
def byteLength (s : List Char) : ℕ := (s.map Char.utf8Size).sum

def startsWithDigit (s : List Char) : Bool := s.head?.any Char.isDigit

/-! ### Specifics -/

inductive SpecificKind where
  | version
  | date
  | year
  | percentage
  | statistic
  | quotation
  deriving DecidableEq, Repr

structure Specific where
  kind : SpecificKind
  text : List Char
  key : List Char
  deriving DecidableEq, Repr

def minQuoteChars : ℕ := 6

/-- `is_connector`. -/
def isConnector (c : Char) : Bool := c ∈ ['.', ',', ':', '-', '/', '_']

/-- `iso_date`. -/
def isoDate (s : List Char) : Option (List Char) :=
  match s.splitOn '-' with
  | [y, m, d] =>
    if byteLength y ≠ 4 ∨ byteLength m ≠ 2 ∨ byteLength d ≠ 2 then none
    else if ¬ [y, m, d].all fun p => p.all Char.isDigit then none
    else
      let month := Nat.ofDigitChars 10 m 0
      let day := Nat.ofDigitChars 10 d 0
      if ¬ (1 ≤ month ∧ month ≤ 12) ∨ ¬ (1 ≤ day ∧ day ≤ 31) then none else some s
  | _ => none

/-- `plain_number`. -/
def plainNumber (s : List Char) : Option (List Char) :=
  if s = [] then none
  else if ¬ s.all fun c => c.isDigit || c == ',' || c == '.' then none
  else if 1 < s.count '.' then none
  else some (s.filter (· ≠ ','))

/-- A numeric token whose shape is that of a version. -/
def numericLead (segments : List (List Char)) : Bool :=
  match segments with
  | first :: second :: _ => first ≠ [] && first.all Char.isDigit && startsWithDigit second
  | _ => false

/-- The last shapes of `classify`: an integer with a scale word, or a bare one. -/
def classifyInteger (rest : List Char) (unit : Option (List Char)) (bare : Bool) :
    Option (SpecificKind × List Char × Bool) :=
  let isInteger := rest.all Char.isDigit
  match unit.filter fun word =>
    isInteger && String.ofList word ∈ ["thousand", "million", "billion", "trillion"] with
  | some word => some (.statistic, rest ++ ' ' :: word, true)
  | none => if bare && isInteger then some (.statistic, rest, false) else none

/-- `classify`, from the versions on: what is left to tell apart has no percent sign. -/
def classifyNumber (versioned : Bool) (rest : List Char) (unit : Option (List Char)) (bare : Bool) :
    Option (SpecificKind × List Char × Bool) :=
  let segments := rest.splitOn '.'
  let isInteger := rest.all Char.isDigit
  if versioned && (numericLead segments || isInteger) then
    some (.version, rest.map Char.toLower, false)
  else if numericLead segments && 3 ≤ segments.length then
    some (.version, rest.map Char.toLower, false)
  else if versioned then none
  else match isoDate rest with
    | some date => some (.date, date, false)
    | none =>
      if byteLength rest = 4 ∧ isInteger ∧ 1900 ≤ Nat.ofDigitChars 10 rest 0 ∧
          Nat.ofDigitChars 10 rest 0 ≤ 2099 then some (.year, rest, false)
      else match if ',' ∈ rest then plainNumber rest else none with
        | some n => some (.statistic, n, false)
        | none =>
          if segments.length = 2 ∧ segments.all fun s => s ≠ [] && s.all Char.isDigit then
            some (.statistic, rest, false)
          else if 2 ≤ byteLength rest ∧ (rest.getLast?.any fun c => c.toLower ∈ ['k', 'm', 'b', 't']) ∧
              rest.dropLast.all Char.isDigit then
            some (.statistic, rest.map Char.toLower, false)
          else classifyInteger rest unit bare

/-- A version sign in front of a digit, and what follows it. -/
def versionSign (core : List Char) : Bool × List Char :=
  if core.head?.any (fun c => c == 'v' || c == 'V') && startsWithDigit core.tail then
    (true, core.tail)
  else (false, core)

/-- The percentages of `classify`, with the sign or with a word. -/
def classifyPercentage (hasPercent versioned : Bool) (rest : List Char) (unit : Option (List Char)) :
    Option (SpecificKind × List Char × Bool) :=
  let named := unit.any fun word => String.ofList word ∈ ["percent", "percentage", "pct"]
  match if hasPercent && !versioned then plainNumber rest else none with
  | some n => some (.percentage, n ++ ['%'], false)
  | none =>
    match if !hasPercent && !versioned && named then plainNumber rest else none with
    | some n => some (.percentage, n ++ ['%'], true)
    | none => none

/-- `classify`. -/
def classify (token : List Char) (unit : Option (List Char)) (bare : Bool) :
    Option (SpecificKind × List Char × Bool) :=
  let hasPercent := token.getLast? == some '%'
  let (versioned, rest) := versionSign (if hasPercent then token.dropLast else token)
  if !startsWithDigit rest then none
  else match classifyPercentage hasPercent versioned rest unit with
    | some r => some r
    | none => if hasPercent then none else classifyNumber versioned rest unit bare

/-! ### The walk -/

variable (U : Unicode)

/-- The token at the head of a text, and what follows it. -/
def takeToken : List Char → List Char × List Char
  | [] => ([], [])
  | c :: rest =>
    if U.isAlphanumeric c || (isConnector c && rest.head?.any U.isAlphanumeric) then
      (c :: (takeToken rest).1, (takeToken rest).2)
    else ([], c :: rest)

/-- A percent sign right behind a token belongs to it. -/
def takePercent : List Char × List Char → List Char × List Char
  | (token, '%' :: after) => (token ++ ['%'], after)
  | (token, after) => (token, after)

/-- `next_word`. -/
def nextWord (s : List Char) : Option (List Char × List Char) :=
  let afterSpaces := s.dropWhile (· = ' ')
  if afterSpaces.length = s.length then none
  else
    let word := afterSpaces.takeWhile U.isAlphabetic
    if word = [] then none else some (U.toLowercase word, afterSpaces.dropWhile U.isAlphabetic)

/-- The specific of a token, and whether the unit behind it belongs to it. -/
def tokenSpecific (token : List Char) (unit : Option (List Char × List Char)) (bare : Bool) :
    Option (Specific × Bool) :=
  match classify token (unit.map Prod.fst) bare with
  | none => none
  | some (kind, key, consumes) =>
    match consumes, unit with
    | true, some (word, _) => some (⟨kind, token ++ ' ' :: word, key⟩, true)
    | _, _ => some (⟨kind, token, key⟩, consumes)

/-- Where the scanner goes on behind a token. -/
def afterToken (specific : Option (Specific × Bool)) (unit : Option (List Char × List Char))
    (after : List Char) : List Char :=
  match specific, unit with
  | some (_, true), some (_, afterUnit) => afterUnit
  | _, _ => after

/-- A quotation that is long enough and has a letter. -/
def quotation (inner : List Char) : List Specific :=
  let trimmed := trimText inner
  if minQuoteChars ≤ trimmed.length ∧ trimmed.any U.isAlphabetic then
    [⟨.quotation, trimmed, collapseWs (U.toLowercase trimmed)⟩]
  else []

def isOpening (c : Char) : Bool := c == '\x22' || c == '\u201C'

def isClosing (c : Char) : Bool := c == '\x22' || c == '\u201D'

theorem length_takeToken (s : List Char) : (takeToken U s).2.length ≤ s.length := by
  induction s with
  | nil => exact le_rfl
  | cons c rest ih =>
    unfold takeToken
    split_ifs
    · exact ih.trans (Nat.le_succ _)
    · exact le_rfl

theorem length_takePercent (p : List Char × List Char) : (takePercent p).2.length ≤ p.2.length := by
  unfold takePercent
  split
  · exact Nat.le_succ _
  · exact le_rfl

theorem length_nextWord {s word after : List Char} (h : nextWord U s = some (word, after)) :
    after.length ≤ s.length := by
  unfold nextWord at h
  dsimp only at h
  split_ifs at h
  cases h
  exact (List.dropWhile_sublist _).length_le.trans (List.dropWhile_sublist _).length_le

theorem length_afterToken (specific : Option (Specific × Bool)) (after : List Char) :
    (afterToken specific (nextWord U after) after).length ≤ after.length := by
  unfold afterToken
  split
  · exact length_nextWord U ‹_›
  · exact le_rfl

/-- What follows the token at the head of a text is shorter. -/
theorem length_after {c : Char} (hc : U.isAlphanumeric c = true) (rest : List Char) :
    (takePercent (takeToken U (c :: rest))).2.length < (c :: rest).length := by
  have hpercent := length_takePercent (takeToken U (c :: rest))
  have htoken : (takeToken U (c :: rest)).2 = (takeToken U rest).2 := by
    rw [takeToken, hc]
    rfl
  rw [htoken] at hpercent
  have := length_takeToken U rest
  rw [List.length_cons]
  omega

/-- `scan_into`. -/
def scan (bare quotes : Bool) : List Char → List Specific
  | [] => []
  | c :: rest =>
    if quotes && isOpening c then
      match _h : rest.dropWhile fun c => !isClosing c with
      | _ :: after =>
        quotation U (rest.takeWhile fun c => !isClosing c) ++
          scan bare false (rest.takeWhile fun c => !isClosing c) ++ scan bare quotes after
      | [] => scan bare quotes rest
    else if _hc : U.isAlphanumeric c = true then
      let token := takePercent (takeToken U (c :: rest))
      let unit := nextWord U token.2
      let specific := tokenSpecific token.1 unit bare
      (specific.map Prod.fst).toList ++ scan bare quotes (afterToken specific unit token.2)
    else scan bare quotes rest
termination_by s => s.length
decreasing_by
  · exact Nat.lt_succ_of_le (List.takeWhile_sublist _).length_le
  · have hle := (List.dropWhile_sublist (l := rest) fun c => !isClosing c).length_le
    rw [_h, List.length_cons] at hle
    rw [List.length_cons]
    omega
  · exact Nat.lt_succ_self _
  · exact (length_afterToken U _ _).trans_lt (length_after U _hc rest)
  · exact Nat.lt_succ_self _

/-! ### The two modes -/

/-- What is found either way, or a bare integer. -/
def Generous (r r' : Option (SpecificKind × List Char × Bool)) : Prop :=
  r' = r ∨ r = none ∧ ∃ key, r' = some (.statistic, key, false)

theorem generous_refl (r : Option (SpecificKind × List Char × Bool)) : Generous r r := .inl rfl

theorem classifyInteger_generous (rest : List Char) (unit : Option (List Char)) :
    Generous (classifyInteger rest unit false) (classifyInteger rest unit true) := by
  unfold classifyInteger
  dsimp only
  cases unit.filter fun word =>
      rest.all Char.isDigit && String.ofList word ∈ ["thousand", "million", "billion", "trillion"] with
  | some word => exact generous_refl _
  | none =>
    by_cases hint : rest.all Char.isDigit = true
    · exact .inr ⟨rfl, rest, by rw [hint]; rfl⟩
    · rw [Bool.not_eq_true] at hint
      rw [hint]
      exact generous_refl _

theorem classifyNumber_generous (versioned : Bool) (rest : List Char) (unit : Option (List Char)) :
    Generous (classifyNumber versioned rest unit false) (classifyNumber versioned rest unit true) := by
  unfold classifyNumber
  dsimp only
  cases isoDate rest with
  | some date => split_ifs <;> exact generous_refl _
  | none =>
    cases (if ',' ∈ rest then plainNumber rest else none) with
    | some n => split_ifs <;> exact generous_refl _
    | none =>
      dsimp only
      split_ifs
      all_goals first | exact generous_refl _ | exact classifyInteger_generous rest unit

theorem classify_generous (token : List Char) (unit : Option (List Char)) :
    Generous (classify token unit false) (classify token unit true) := by
  unfold classify
  dsimp only
  generalize versionSign (if token.getLast? == some '%' then token.dropLast else token) = sign
  split_ifs with hdigit hpercent
  · exact generous_refl _
  · exact generous_refl _
  · cases classifyPercentage (token.getLast? == some '%') sign.1 sign.2 unit with
    | some r => exact generous_refl _
    | none => exact classifyNumber_generous sign.1 sign.2 unit

/-- The generous mode finds what the other does, and goes on where it does. -/
theorem tokenSpecific_generous (token after : List Char) (unit : Option (List Char × List Char)) :
    (∀ s ∈ (tokenSpecific token unit false).map Prod.fst,
        s ∈ (tokenSpecific token unit true).map Prod.fst) ∧
      afterToken (tokenSpecific token unit true) unit after =
        afterToken (tokenSpecific token unit false) unit after := by
  unfold tokenSpecific
  rcases classify_generous token (unit.map Prod.fst) with h | ⟨hnone, key, hbare⟩
  · rw [h]
    exact ⟨fun s hs => hs, rfl⟩
  · rw [hnone, hbare]
    refine ⟨fun s hs => absurd hs (by simp), ?_⟩
    cases unit <;> rfl

/-- **The two modes**: whatever is found in a text as a reply is found in it as a source. -/
theorem mem_scan_generous (quotes : Bool) (t : List Char) :
    ∀ s ∈ scan U false quotes t, s ∈ scan U true quotes t := by
  fun_induction scan U false quotes t with
  | case1 => exact fun s hs => absurd hs List.not_mem_nil
  | case2 quotes c rest hopen _ after hafter ihInner ihAfter =>
    intro s hs
    rw [scan, if_pos hopen]
    split
    · rename_i heq
      rw [hafter] at heq
      cases heq
      rw [List.mem_append, List.mem_append] at hs ⊢
      exact hs.imp (Or.imp_right (ihInner s)) (ihAfter s)
    · rename_i heq
      rw [hafter] at heq
      cases heq
  | case3 quotes c rest hopen hnone ih =>
    intro s hs
    rw [scan, if_pos hopen]
    split
    · rename_i heq
      rw [hnone] at heq
      cases heq
    · exact ih s hs
  | case4 quotes c rest hopen hc token unit specific ih =>
    intro s hs
    obtain ⟨hfound, hafter⟩ := tokenSpecific_generous token.1 token.2 unit
    rw [scan, if_neg hopen, dif_pos hc]
    dsimp only
    rw [List.mem_append] at hs ⊢
    refine hs.imp (fun hs => ?_) fun hs => ?_
    · exact Option.mem_toList.mpr (hfound s (Option.mem_toList.mp hs))
    · rw [hafter]
      exact ih s hs
  | case5 quotes c rest hopen hc ih =>
    intro s hs
    rw [scan, if_neg hopen, dif_neg hc]
    exact ih s hs

end AbbeyBot.Honesty
