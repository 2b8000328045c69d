import Mathlib
import AbbeyBot.Library.Word

/-! # Text

What the standard library of the source does with strings, on lists of characters: Unicode white
space and control characters, decimal numbers written with a minimal width and read back with a
maximal one, lines, hexadecimal digests. -/

namespace AbbeyBot.Library.Text

open AbbeyBot.Library.Word

/-! ### Characters -/

/-- The Unicode property `White_Space`. -/
def isWhitespace (c : Char) : Bool :=
  let n := c.toNat
  (9 ≤ n && n ≤ 13) || n == 32 || n == 0x85 || n == 0xA0 || n == 0x1680 ||
    (0x2000 ≤ n && n ≤ 0x200A) || n == 0x2028 || n == 0x2029 || n == 0x202F || n == 0x205F ||
    n == 0x3000

/-- Nothing is left of `s` once it is trimmed. -/
def isBlank (s : String) : Bool := s.toList.all isWhitespace

/-- `str::trim`. -/
def trim (s : String) : String :=
  String.ofList ((s.toList.dropWhile isWhitespace).reverse.dropWhile isWhitespace).reverse

/-- What is trimmed once stays as it is. -/
theorem trim_trim (s : String) : trim (trim s) = trim s := by
  have hstart : (List.rdropWhile isWhitespace (s.toList.dropWhile isWhitespace)).dropWhile
      isWhitespace = List.rdropWhile isWhitespace (s.toList.dropWhile isWhitespace) := by
    refine List.dropWhile_eq_self_iff.mpr fun hlen => ?_
    have hpre := List.rdropWhile_prefix isWhitespace (l := s.toList.dropWhile isWhitespace)
    have hlen' : 0 < (s.toList.dropWhile isWhitespace).length := hlen.trans_le hpre.length_le
    rw [hpre.getElem hlen]
    exact List.dropWhile_get_zero_not isWhitespace s.toList hlen'
  change String.ofList (List.rdropWhile isWhitespace ((trim s).toList.dropWhile isWhitespace)) = _
  rw [trim, String.toList_ofList]
  rw [List.rdropWhile] at hstart
  rw [hstart]
  exact congrArg String.ofList (List.rdropWhile_idempotent isWhitespace _)

/-- The Unicode category `Cc`. -/
def isControl (c : Char) : Bool := c.toNat < 32 || (127 ≤ c.toNat && c.toNat < 160)

theorem not_isWhitespace_of_isDigit {c : Char} (hc : c.isDigit = true) : isWhitespace c = false := by
  have hb : 48 ≤ c.toNat ∧ c.toNat ≤ 57 := by
    simp only [Char.isDigit, Bool.and_eq_true, decide_eq_true_eq, UInt32.le_iff_toNat_le] at hc
    exact hc
  simp only [isWhitespace, Bool.or_eq_false_iff, Bool.and_eq_false_iff, decide_eq_false_iff_not,
    beq_eq_false_iff_ne]
  omega

/-! ### Decimal numbers -/

/-- The decimal digits of `n`, zeros in front up to the width `w`. -/
def padded (w n : ℕ) : List Char :=
  List.replicate (w - (Nat.toDigits 10 n).length) '0' ++ Nat.toDigits 10 n

/-- A number of at most `max` digits at the head of the text, and what follows it. -/
def number (max : ℕ) (s : List Char) : Option (ℕ × List Char) :=
  let digits := (s.take max).takeWhile Char.isDigit
  if digits = [] then none else some (Nat.ofDigitChars 10 digits 0, s.drop digits.length)

theorem isDigit_of_mem_padded {w n : ℕ} {c : Char} (hc : c ∈ padded w n) : c.isDigit = true := by
  rcases List.mem_append.mp hc with hc | hc
  · rw [List.eq_of_mem_replicate hc]; rfl
  · exact Nat.isDigit_of_mem_toDigits (by omega) (by omega) hc

theorem padded_ne_nil (w n : ℕ) : padded w n ≠ [] := by
  simp [padded, Nat.toDigits_ne_nil]

theorem length_padded {w n : ℕ} (hw : 0 < w) (hn : n < 10 ^ w) : (padded w n).length = w := by
  have := (Nat.length_toDigits_le_iff (b := 10) (n := n) (by omega) hw).mpr hn
  simp only [padded, List.length_append, List.length_replicate]
  omega

theorem ofDigitChars_padded (w n : ℕ) : Nat.ofDigitChars 10 (padded w n) 0 = n := by
  rw [padded, Nat.ofDigitChars_append, Nat.ofDigitChars_replicate_zero, Nat.mul_zero,
    Nat.ofDigitChars_ten_toDigits]

/-- A number is read back when the digits are within the width and the text goes on with something
else, or the width is used up. -/
theorem number_padded {max w n : ℕ} {rest : List Char} (hlen : (padded w n).length ≤ max)
    (hrest : (padded w n).length = max ∨ ∀ c ∈ rest.head?, c.isDigit = false) :
    number max (padded w n ++ rest) = some (n, rest) := by
  have hdigits : ((padded w n ++ rest).take max).takeWhile Char.isDigit = padded w n := by
    rw [List.take_append, List.take_of_length_le hlen,
      List.takeWhile_append_of_pos fun c hc => isDigit_of_mem_padded hc]
    rcases hrest with hmax | hhead
    · simp [hmax]
    · cases rest with
      | nil => simp
      | cons c rest =>
        cases hk : max - (padded w n).length with
        | zero => simp
        | succ k => simp [hhead c rfl]
  simp only [number, hdigits, padded_ne_nil, if_false, ofDigitChars_padded, List.drop_left]

theorem toDigits_injective : Function.Injective (Nat.toDigits 10) := fun a b h => by
  simpa using congrArg (fun ds => Nat.ofDigitChars 10 ds 0) h

theorem not_mem_toDigits {c : Char} (hc : c.isDigit = false) (n : ℕ) : c ∉ Nat.toDigits 10 n := by
  intro hmem
  simp [Nat.isDigit_of_mem_toDigits (by omega) (by omega) hmem] at hc

/-- A decimal number has no character but digits. -/
theorem not_mem_toString {c : Char} (hc : c.isDigit = false) (n : ℕ) : c ∉ (toString n).toList := by
  rw [Nat.toString_eq_repr, Nat.repr, String.toList_ofList]
  exact not_mem_toDigits hc n

theorem toString_injective : Function.Injective fun n : ℕ => (toString n).toList := fun a b h => by
  simp only [Nat.toString_eq_repr, Nat.repr, String.toList_ofList] at h
  exact toDigits_injective h

/-! ### Lines -/

/-- `str::lines`. -/
def lines : List Char → List (List Char)
  | [] => []
  | '\r' :: '\n' :: rest => [] :: lines rest
  | '\n' :: rest => [] :: lines rest
  | c :: rest =>
    match lines rest with
    | [] => [[c]]
    | line :: more => (c :: line) :: more

/-- Lines, each of them ended. -/
def unlines (ls : List (List Char)) : List Char := ls.flatMap fun line => line ++ ['\n']

/-- A line that is read back as it is. -/
structure IsLine (line : List Char) : Prop where
  noBreak : '\n' ∉ line
  noReturn : line.getLast? ≠ some '\r'

theorem lines_append {line : List Char} (h : IsLine line) (rest : List Char) :
    lines (line ++ '\n' :: rest) = line :: lines rest := by
  obtain ⟨hbreak, hreturn⟩ := h
  induction line with
  | nil => rw [List.nil_append, lines]
  | cons c line ih =>
    have hc : c ≠ '\n' := fun h => hbreak (h ▸ List.mem_cons_self)
    have hmore : lines (line ++ '\n' :: rest) = line :: lines rest := by
      refine ih (fun h => hbreak (List.mem_cons_of_mem _ h)) fun h => hreturn ?_
      rw [List.getLast?_cons, h]
      rfl
    rw [List.cons_append, lines, hmore]
    · -- a return in front of a line break would end the line
      rintro tail rfl htail
      cases line with
      | nil => exact hreturn rfl
      | cons d line =>
        obtain ⟨rfl, -⟩ := List.cons.inj htail
        exact hbreak (List.mem_cons_of_mem _ List.mem_cons_self)
    · exact hc

/-- Lines are read back as they were written. -/
theorem lines_unlines {ls : List (List Char)} (h : ∀ line ∈ ls, IsLine line) :
    lines (unlines ls) = ls := by
  induction ls with
  | nil => rfl
  | cons line ls ih =>
    unfold unlines
    rw [List.flatMap_cons, List.append_assoc, List.singleton_append,
      lines_append (h line List.mem_cons_self)]
    rw [show lines (ls.flatMap fun line => line ++ ['\n']) = ls from
      ih fun line hl => h line (List.mem_cons_of_mem _ hl)]

/-! ### Numbers in text -/

/-- The text without a leading plus sign. -/
def unsigned : List Char → List Char
  | '+' :: rest => rest
  | s => s

/-- `str::parse::<u64>`. -/
def parseU64 (s : List Char) : Option ℕ :=
  if unsigned s ≠ [] ∧ (unsigned s).all Char.isDigit = true ∧
      Nat.ofDigitChars 10 (unsigned s) 0 ≤ u64Max then
    some (Nat.ofDigitChars 10 (unsigned s) 0)
  else none

theorem parseU64_toString {n : ℕ} (hn : n ≤ u64Max) : parseU64 (toString n).toList = some n := by
  have htext : (toString n).toList = Nat.toDigits 10 n := by
    rw [Nat.toString_eq_repr, Nat.repr, String.toList_ofList]
  have hdigit : ∀ c ∈ Nat.toDigits 10 n, c.isDigit = true := fun c hc =>
    Nat.isDigit_of_mem_toDigits (by omega) (by omega) hc
  have hunsigned : unsigned (Nat.toDigits 10 n) = Nat.toDigits 10 n := by
    unfold unsigned
    split
    · rename_i rest heq
      have := hdigit '+' (heq ▸ List.mem_cons_self)
      cases this
    · rfl
  unfold parseU64
  rw [htext, hunsigned, Nat.ofDigitChars_ten_toDigits,
    if_pos ⟨Nat.toDigits_ne_nil, List.all_eq_true.mpr hdigit, hn⟩]

theorem le_of_parseU64 {s : List Char} {n : ℕ} (h : parseU64 s = some n) : n ≤ u64Max := by
  unfold parseU64 at h
  split_ifs at h with hd
  rw [← Option.some.inj h]
  exact hd.2.2

/-- Only digits, behind at most one sign, are read as a number. -/
theorem not_mem_of_parseU64 {s : List Char} {n : ℕ} (h : parseU64 s = some n) {c : Char}
    (hc : c.isDigit = false) (hplus : c ≠ '+') : c ∉ s := by
  intro hmem
  unfold parseU64 at h
  split_ifs at h with hd
  have hrest : c ∈ unsigned s := by
    unfold unsigned
    split
    · exact (List.mem_cons.mp hmem).resolve_left hplus
    · exact hmem
  simp [List.all_eq_true.mp hd.2.1 c hrest] at hc

/-! ### Hexadecimal bytes -/

/-- The two digits of a byte. -/
def hexPair (b : ℕ) : List Char := [Nat.digitChar (b / 16), Nat.digitChar (b % 16)]

/-- The value of a lower hexadecimal digit. -/
def hexValue (c : Char) : ℕ := if c.isDigit then c.toNat - 48 else c.toNat - 87

/-- A decimal digit or a letter from `a` to `f`. -/
def isLowerHex (c : Char) : Bool := c.isDigit || ('a' ≤ c && c ≤ 'f')

/-- The bytes whose digits these are. -/
def hexBytes : List Char → List ℕ
  | a :: b :: rest => (16 * hexValue a + hexValue b) :: hexBytes rest
  | _ => []

theorem hexValue_digitChar : ∀ n < 16, hexValue (Nat.digitChar n) = n := by decide

theorem isLowerHex_digitChar : ∀ n < 16, isLowerHex (Nat.digitChar n) = true := by decide

theorem isLowerHex_of_mem_hexPair {b : ℕ} (hb : b < 256) {c : Char} (hc : c ∈ hexPair b) :
    isLowerHex c = true := by
  simp only [hexPair, List.mem_cons, List.not_mem_nil, or_false] at hc
  rcases hc with rfl | rfl
  · exact isLowerHex_digitChar _ (by omega)
  · exact isLowerHex_digitChar _ (by omega)

theorem hexBytes_flatMap {bytes : List ℕ} (h : ∀ b ∈ bytes, b < 256) :
    hexBytes (bytes.flatMap hexPair) = bytes := by
  induction bytes with
  | nil => rfl
  | cons b rest ih =>
    have hb := h b List.mem_cons_self
    rw [List.flatMap_cons, hexPair, List.cons_append, List.cons_append, List.nil_append, hexBytes,
      hexValue_digitChar _ (by omega), hexValue_digitChar _ (by omega),
      ih fun x hx => h x (List.mem_cons_of_mem _ hx)]
    congr 1
    omega

theorem length_hexBytes (digits : List Char) : (hexBytes digits).length = digits.length / 2 := by
  fun_induction hexBytes digits with
  | case1 a b rest ih =>
    simp only [List.length_cons, ih]
    omega
  | case2 digits hshort =>
    rcases digits with _ | ⟨a, _ | ⟨b, rest⟩⟩
    · rfl
    · simp
    · exact absurd rfl (hshort a b rest)

theorem hexValue_lt {c : Char} (hc : isLowerHex c = true) : hexValue c < 16 := by
  simp only [isLowerHex, Bool.or_eq_true, Bool.and_eq_true, decide_eq_true_eq, Char.le_def,
    UInt32.le_iff_toNat_le] at hc
  have hf : 'f'.val.toNat = 102 := rfl
  unfold hexValue
  split_ifs with hdigit
  · simp only [Char.isDigit, Bool.and_eq_true, decide_eq_true_eq, UInt32.le_iff_toNat_le] at hdigit
    have h9 : '9'.val.toNat = 57 := rfl
    have hn : c.toNat = c.val.toNat := rfl
    omega
  · have hletter := hc.resolve_left hdigit
    have hn : c.toNat = c.val.toNat := rfl
    omega

theorem lt_of_mem_hexBytes {digits : List Char} (hdigits : ∀ c ∈ digits, isLowerHex c = true) {b : ℕ}
    (hb : b ∈ hexBytes digits) : b < 256 := by
  fun_induction hexBytes digits with
  | case1 a c rest ih =>
    have ha := hexValue_lt (hdigits a List.mem_cons_self)
    have hc := hexValue_lt (hdigits c (List.mem_cons_of_mem _ List.mem_cons_self))
    rcases List.mem_cons.mp hb with rfl | hb
    · omega
    · exact ih (fun x hx => hdigits x (List.mem_cons_of_mem _ (List.mem_cons_of_mem _ hx))) hb
  | case2 => cases hb

/-! ### Separators -/

/-- `str::split_once`. -/
def splitOnce (c : Char) (s : List Char) : Option (List Char × List Char) :=
  let head := s.takeWhile (· ≠ c)
  if head.length = s.length then none else some (head, s.drop (head.length + 1))

theorem splitOnce_append {c : Char} {a : List Char} (ha : c ∉ a) (b : List Char) :
    splitOnce c (a ++ c :: b) = some (a, b) := by
  have hhead : (a ++ c :: b).takeWhile (· ≠ c) = a := by
    have hne : ∀ x ∈ a, decide (x ≠ c) = true := fun x hx =>
      decide_eq_true fun heq => ha (heq ▸ hx)
    rw [List.takeWhile_append_of_pos hne]
    simp
  have hlength : a.length ≠ (a ++ c :: b).length := by simp
  unfold splitOnce
  dsimp only
  rw [hhead, if_neg hlength, List.drop_append, List.drop_of_length_le (Nat.le_succ _)]
  simp

/-- Text in front of a separator that it does not contain is determined by the whole. -/
theorem append_separator_inj {c : Char} {a a' b b' : List Char} (ha : c ∉ a) (ha' : c ∉ a') :
    a ++ c :: b = a' ++ c :: b' ↔ a = a' ∧ b = b' := by
  induction a generalizing a' with
  | nil =>
    cases a' with
    | nil => simp
    | cons x a' =>
      have hne : c ≠ x := fun heq => ha' (heq ▸ List.mem_cons_self)
      simp [hne]
  | cons x a ih =>
    cases a' with
    | nil =>
      have hne : x ≠ c := fun heq => ha (heq ▸ List.mem_cons_self)
      simp [hne]
    | cons y a' =>
      have ih := ih (fun hm => ha (List.mem_cons_of_mem _ hm))
        (fun hm => ha' (List.mem_cons_of_mem _ hm))
      simp only [List.cons_append, List.cons.injEq, ih, and_assoc]

/-- Text behind a separator that it does not contain is determined by the whole. -/
theorem separator_append_inj {c : Char} {a a' b b' : List Char} (hb : c ∉ b) (hb' : c ∉ b') :
    a ++ c :: b = a' ++ c :: b' ↔ a = a' ∧ b = b' := by
  have hrev : ∀ x y : List Char, (x ++ c :: y).reverse = y.reverse ++ c :: x.reverse := fun x y => by
    simp
  rw [← List.reverse_inj, hrev, hrev, append_separator_inj (by simpa using hb) (by simpa using hb'),
    List.reverse_inj, List.reverse_inj, and_comm]

/-! ### Lengths -/

/-- A list of bounded items, with a separator, is bounded. -/
theorem length_intercalate_le {sep : List Char} {items : List (List Char)} {bound : ℕ}
    (h : ∀ item ∈ items, item.length ≤ bound) :
    (sep.intercalate items).length ≤ items.length * (bound + sep.length) := by
  induction items with
  | nil => simp
  | cons item items ih =>
    have hitem := h item List.mem_cons_self
    have ih := ih fun i hi => h i (List.mem_cons_of_mem _ hi)
    cases items with
    | nil =>
      simp only [List.intercalate_singleton, List.length_singleton]
      omega
    | cons next items =>
      rw [List.intercalate_cons_cons, List.length_append, List.length_append, List.length_cons,
        Nat.succ_mul]
      omega

/-- The digits of a number below a power of ten. -/
theorem length_toString_le {n k : ℕ} (hk : 0 < k) (h : n < 10 ^ k) :
    (toString n).toList.length ≤ k := by
  rw [Nat.toString_eq_repr, Nat.repr, String.toList_ofList]
  exact (Nat.length_toDigits_le_iff (by decide) hk).mpr h

/-! ### Digests -/

/-- 64 hexadecimal digits, as `is_ascii_hexdigit` counts them. -/
def isDigest (s : String) : Bool :=
  s.utf8ByteSize == 64 && s.toList.all fun c =>
    c.isDigit || ('a' ≤ c && c ≤ 'f') || ('A' ≤ c && c ≤ 'F')

/-- 64 lower-case hexadecimal digits, as a digest is written. -/
def isLowerDigest (s : String) : Bool :=
  s.utf8ByteSize == 64 && s.toList.all fun c => c.isDigit || ('a' ≤ c && c ≤ 'f')

theorem isDigest_of_isLowerDigest {s : String} (h : isLowerDigest s = true) :
    isDigest s = true := by
  simp only [isLowerDigest, isDigest, Bool.and_eq_true, List.all_eq_true, Bool.or_eq_true] at h ⊢
  exact ⟨h.1, fun c hc => .inl (h.2 c hc)⟩

theorem utf8ByteSize_ofList {l : List Char} (h : ∀ c ∈ l, c.utf8Size = 1) :
    (String.ofList l).utf8ByteSize = l.length := by
  induction l with
  | nil => rfl
  | cons c l ih =>
    have hsplit : String.ofList (c :: l) = String.singleton c ++ String.ofList l := by
      apply String.toList_injective
      simp
    have hc := h c List.mem_cons_self
    rw [hsplit, String.utf8ByteSize_append, ih fun x hx => h x (List.mem_cons_of_mem _ hx),
      String.utf8ByteSize_singleton, hc, List.length_cons, Nat.add_comm]

theorem utf8Size_of_isLowerHex {c : Char} (h : isLowerHex c = true) : c.utf8Size = 1 := by
  simp only [isLowerHex, Char.isDigit, Bool.or_eq_true, Bool.and_eq_true, decide_eq_true_eq,
    Char.le_def, UInt32.le_iff_toNat_le] at h
  rw [Char.utf8Size_eq_one_iff, UInt32.le_iff_toNat_le]
  have ha : 'a'.val.toNat = 97 := rfl
  have hf : 'f'.val.toNat = 102 := rfl
  have h127 : (127 : UInt32).toNat = 127 := rfl
  have h9 : '9'.val.toNat = 57 := rfl
  omega

/-- Thirty-two bytes. -/
def Hash := { bytes : List ℕ // bytes.length = 32 ∧ ∀ b ∈ bytes, b < 256 }

namespace Hash

instance : DecidableEq Hash := inferInstanceAs (DecidableEq (Subtype _))

/-- The text of a hash. -/
def hex (h : Hash) : String := String.ofList (h.val.flatMap hexPair)

theorem hex_injective : Function.Injective hex := by
  intro h h' heq
  have hbytes := congrArg hexBytes (String.ofList_injective heq)
  rw [hexBytes_flatMap h.property.2, hexBytes_flatMap h'.property.2] at hbytes
  exact Subtype.ext hbytes

theorem isLowerDigest_hex (h : Hash) : isLowerDigest h.hex = true := by
  have hdigits : ∀ c ∈ h.val.flatMap hexPair, isLowerHex c = true := fun c hc => by
    obtain ⟨b, hb, hc⟩ := List.mem_flatMap.mp hc
    exact isLowerHex_of_mem_hexPair (h.property.2 b hb) hc
  have hpair : ∀ b : ℕ, (hexPair b).length = 2 := fun _ => rfl
  have hlength : (h.val.flatMap hexPair).length = 64 := by
    simp [List.length_flatMap, hpair, h.property.1]
  unfold isLowerDigest hex
  rw [utf8ByteSize_ofList fun c hc => utf8Size_of_isLowerHex (hdigits c hc), hlength,
    String.toList_ofList]
  exact List.all_eq_true.mpr hdigits

end Hash

end AbbeyBot.Library.Text
