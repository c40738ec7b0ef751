/-
  SeamlessCore.Python.Text — Python text as the interpreter sees it.

  A Python `str` is a sequence of code points in which lone surrogates may
  occur, so it is not a Lean `String`.  The Unicode database enters as a
  record of per-character predicates together with the facts the language
  reference fixes about them (the ASCII block, XID_Start ⊆ XID_Continue,
  surrogates unprintable).  Nothing below depends on a particular version
  of that database.

  Main definitions:
    * `PyStr`, `CodePoint` — text and its elements;
    * `UnicodeTables` — `str.isalnum`, `str.isidentifier`, `str.isprintable`;
    * `strRepr`, `intRepr` — the `repr` of a string and of an integer.
-/
import Mathlib

namespace SeamlessCore.Python

/-! ## §1. Code points and strings. -/

/-- A Unicode code point, surrogates included. -/
abbrev CodePoint := Fin 0x110000

/-- A Python `str`. -/
abbrev PyStr := List CodePoint

instance neZeroCodePoints : NeZero 0x110000 := ⟨by decide⟩

instance decidableMemPyStr (c : CodePoint) (s : PyStr) : Decidable (c ∈ s) := inferInstance

instance decidableMemTexts (s : PyStr) (texts : List PyStr) : Decidable (s ∈ texts) := inferInstance

/-- The code point of a Lean character. -/
def cp (c : Char) : CodePoint :=
  ⟨c.toNat, by
    have hv := c.valid
    simp only [UInt32.isValidChar, Nat.isValidChar] at hv
    have : c.toNat = c.val.toNat := rfl
    omega⟩

/-- A Lean string as Python text. -/
def py (s : String) : PyStr := s.toList.map cp

theorem cp_val (c : Char) : (cp c).val = c.toNat := rfl

/-! ## §2. The Unicode database. -/

/-- The ASCII letters and digits. -/
def asciiAlnum (n : Nat) : Bool :=
  (48 ≤ n && n ≤ 57) || (65 ≤ n && n ≤ 90) || (97 ≤ n && n ≤ 122)

/-- The ASCII letters. -/
def asciiAlpha (n : Nat) : Bool :=
  (65 ≤ n && n ≤ 90) || (97 ≤ n && n ≤ 122)

/-- The per-character predicates of the Unicode database that `str` methods
consult, with the facts about them that no database version changes. -/
structure UnicodeTables where
  /-- `c.isalnum()` -/
  isAlnum : CodePoint → Bool
  xidStart : CodePoint → Bool
  xidContinue : CodePoint → Bool
  /-- `c.isprintable()` -/
  isPrintable : CodePoint → Bool
  isAlnum_ascii : ∀ c : CodePoint, c.val < 128 → isAlnum c = asciiAlnum c.val
  xidStart_ascii : ∀ c : CodePoint, c.val < 128 → xidStart c = asciiAlpha c.val
  xidContinue_ascii : ∀ c : CodePoint, c.val < 128 →
    xidContinue c = (asciiAlnum c.val || c.val == 95)
  xidContinue_of_xidStart : ∀ c, xidStart c = true → xidContinue c = true
  isPrintable_surrogate : ∀ c : CodePoint,
    0xD800 ≤ c.val → c.val ≤ 0xDFFF → isPrintable c = false

namespace UnicodeTables

variable (u : UnicodeTables)

/-- `s.isidentifier()` -/
def isIdentifier : PyStr → Bool
  | [] => false
  | c :: cs => (u.xidStart c || c == cp '_') && cs.all u.xidContinue

theorem xidContinue_of_mem_identifier {s : PyStr} (h : u.isIdentifier s = true)
    {c : CodePoint} (hc : c ∈ s) : u.xidContinue c = true := by
  cases s with
  | nil => simp at hc
  | cons d ds =>
    simp only [isIdentifier, Bool.and_eq_true, Bool.or_eq_true, beq_iff_eq,
      List.all_eq_true] at h
    obtain ⟨hd, hds⟩ := h
    rcases List.mem_cons.mp hc with rfl | hmem
    · rcases hd with hs | rfl
      · exact u.xidContinue_of_xidStart c hs
      · rw [u.xidContinue_ascii _ (by decide)]; decide
    · exact hds c hmem

/-- No identifier contains an ASCII character other than letters, digits
and the underscore. -/
theorem not_mem_identifier {s : PyStr} (h : u.isIdentifier s = true)
    (c : CodePoint) (hlt : c.val < 128)
    (hno : (asciiAlnum c.val || c.val == 95) = false) : c ∉ s := by
  intro hc
  have := u.xidContinue_of_mem_identifier h hc
  rw [u.xidContinue_ascii c hlt, hno] at this
  exact Bool.false_ne_true this

end UnicodeTables

/-! ## §3. The escapes of a string literal. -/

/-- The one-character escapes of a string literal: what `\e` stands for. -/
def simpleEscape (e : CodePoint) : Option CodePoint :=
  if e = cp '\\' ∨ e = cp '\'' ∨ e = cp '"' then some e
  else if e = cp 'a' then some 7
  else if e = cp 'b' then some 8
  else if e = cp 't' then some 9
  else if e = cp 'n' then some 10
  else if e = cp 'v' then some 11
  else if e = cp 'f' then some 12
  else if e = cp 'r' then some 13
  else none

/-- The number of hexadecimal digits after `\x`, `\u` and `\U`. -/
def hexWidth (m : CodePoint) : Option Nat :=
  if m = cp 'x' then some 2
  else if m = cp 'u' then some 4
  else if m = cp 'U' then some 8
  else none

/-- The lower-case hexadecimal digit of `n % 16`. -/
def hexDigit (n : Nat) : CodePoint :=
  if n % 16 < 10 then ⟨48 + n % 16, by omega⟩ else ⟨87 + n % 16, by omega⟩

/-- The `width` lowest hexadecimal digits of `n`, most significant first. -/
def hexDigits : (width n : Nat) → PyStr
  | 0, _ => []
  | k + 1, n => hexDigits k (n / 16) ++ [hexDigit n]

theorem hexDigit_val (n : Nat) :
    (48 ≤ (hexDigit n).val ∧ (hexDigit n).val ≤ 57) ∨
      (97 ≤ (hexDigit n).val ∧ (hexDigit n).val ≤ 102) := by
  unfold hexDigit
  split
  · left; exact ⟨by simp, by simp only; omega⟩
  · right; exact ⟨by simp only; omega, by simp only; omega⟩

theorem mem_hexDigits {k n : Nat} {c : CodePoint} (h : c ∈ hexDigits k n) :
    ∃ m, c = hexDigit m := by
  induction k generalizing n with
  | zero => simp [hexDigits] at h
  | succ k ih =>
    simp only [hexDigits, List.mem_append, List.mem_singleton] at h
    rcases h with h | h
    · exact ih h
    · exact ⟨n, h⟩

/-! ## §4. `repr` of a string. -/

/-- The quote `repr` picks: `'`, unless `'` occurs in the text and `"` does not. -/
def reprQuote (s : PyStr) : CodePoint :=
  if cp '\'' ∈ s ∧ cp '"' ∉ s then cp '"' else cp '\''

/-- What `repr` writes for one character between quotes `q`. -/
def reprChar (u : UnicodeTables) (q c : CodePoint) : PyStr :=
  if c = q ∨ c = cp '\\' then [cp '\\', c]
  else if c = cp '\t' then [cp '\\', cp 't']
  else if c = cp '\n' then [cp '\\', cp 'n']
  else if c = cp '\r' then [cp '\\', cp 'r']
  else if c.val < 0x20 ∨ c.val = 0x7F then cp '\\' :: cp 'x' :: hexDigits 2 c.val
  else if c.val < 0x7F then [c]
  else if u.isPrintable c then [c]
  else if c.val ≤ 0xFF then cp '\\' :: cp 'x' :: hexDigits 2 c.val
  else if c.val ≤ 0xFFFF then cp '\\' :: cp 'u' :: hexDigits 4 c.val
  else cp '\\' :: cp 'U' :: hexDigits 8 c.val

/-- `repr(s)` -/
def strRepr (u : UnicodeTables) (s : PyStr) : PyStr :=
  reprQuote s :: (s.flatMap (reprChar u (reprQuote s)) ++ [reprQuote s])

/-- The quotes of a string literal. -/
def IsQuote (q : CodePoint) : Prop := q = cp '\'' ∨ q = cp '"'

theorem reprQuote_isQuote (s : PyStr) : IsQuote (reprQuote s) := by
  unfold reprQuote
  split
  · exact Or.inr rfl
  · exact Or.inl rfl

/-- Whether a code point is a surrogate. -/
def isSurrogate (c : CodePoint) : Bool := 0xD800 ≤ c.val && c.val ≤ 0xDFFF

/-- The three shapes of an escaped character: itself, a one-character escape,
or its code in hexadecimal.  Everything below about `repr` is read off here. -/
theorem reprChar_cases (u : UnicodeTables) {q : CodePoint} (hq : IsQuote q) (c : CodePoint) :
    (reprChar u q c = [c] ∧ c ≠ q ∧ c ≠ cp '\\' ∧ 0x20 ≤ c.val ∧ isSurrogate c = false) ∨
    (∃ e, reprChar u q c = [cp '\\', e] ∧ simpleEscape e = some c) ∨
    (∃ m k, reprChar u q c = cp '\\' :: m :: hexDigits k c.val ∧ hexWidth m = some k ∧
      0 < k ∧ c.val < 16 ^ k ∧ (c.val < 0x20 ∨ 0x7F ≤ c.val)) := by
  have hlt := c.isLt
  unfold reprChar
  by_cases h1 : c = q ∨ c = cp '\\'
  · rw [if_pos h1]
    refine Or.inr (Or.inl ⟨c, rfl, ?_⟩)
    rcases h1 with rfl | rfl
    · rcases hq with rfl | rfl <;> rfl
    · rfl
  -- the branches of `repr`, in the order in which it tries them
  have hq1 : c ≠ q := fun h => h1 (Or.inl h)
  have hq2 : c ≠ cp '\\' := fun h => h1 (Or.inr h)
  rw [if_neg h1]
  by_cases h2 : c = cp '\t'
  · rw [if_pos h2]
    exact Or.inr (Or.inl ⟨cp 't', rfl, by rw [h2]; rfl⟩)
  rw [if_neg h2]
  by_cases h3 : c = cp '\n'
  · rw [if_pos h3]
    exact Or.inr (Or.inl ⟨cp 'n', rfl, by rw [h3]; rfl⟩)
  rw [if_neg h3]
  by_cases h4 : c = cp '\r'
  · rw [if_pos h4]
    exact Or.inr (Or.inl ⟨cp 'r', rfl, by rw [h4]; rfl⟩)
  rw [if_neg h4]
  by_cases h5 : c.val < 0x20 ∨ c.val = 0x7F
  · rw [if_pos h5]
    exact Or.inr (Or.inr ⟨cp 'x', 2, rfl, rfl, by omega, by omega, by omega⟩)
  rw [if_neg h5]
  by_cases h6 : c.val < 0x7F
  · rw [if_pos h6]
    refine Or.inl ⟨rfl, hq1, hq2, by omega, ?_⟩
    simp only [isSurrogate, Bool.and_eq_false_iff, decide_eq_false_iff_not]
    omega
  rw [if_neg h6]
  by_cases h7 : u.isPrintable c = true
  · rw [if_pos h7]
    refine Or.inl ⟨rfl, hq1, hq2, by omega, ?_⟩
    cases hs : isSurrogate c with
    | false => rfl
    | true =>
      simp only [isSurrogate, Bool.and_eq_true, decide_eq_true_eq] at hs
      rw [u.isPrintable_surrogate c hs.1 hs.2] at h7
      exact absurd h7 Bool.false_ne_true
  rw [if_neg h7]
  by_cases h8 : c.val ≤ 0xFF
  · rw [if_pos h8]
    exact Or.inr (Or.inr ⟨cp 'x', 2, rfl, rfl, by omega, by omega, by omega⟩)
  rw [if_neg h8]
  by_cases h9 : c.val ≤ 0xFFFF
  · rw [if_pos h9]
    exact Or.inr (Or.inr ⟨cp 'u', 4, rfl, rfl, by omega, by omega, by omega⟩)
  rw [if_neg h9]
  exact Or.inr (Or.inr ⟨cp 'U', 8, rfl, rfl, by omega, by omega, by omega⟩)

/-- A scanner that looks for an ASCII character outside `[0-9a-z]` and the
escape characters never meets it in a hexadecimal run. -/
theorem not_mem_hexDigits {k n : Nat} {c : CodePoint}
    (hc : ¬ (48 ≤ c.val ∧ c.val ≤ 57) ∧ ¬ (97 ≤ c.val ∧ c.val ≤ 102)) :
    c ∉ hexDigits k n := by
  intro hmem
  obtain ⟨m, hm⟩ := mem_hexDigits hmem
  have hv := hexDigit_val m
  rw [← hm] at hv
  omega

theorem simpleEscape_ne_colon {e c : CodePoint} (h : simpleEscape e = some c) :
    e ≠ cp ':' ∧ c ≠ cp ':' := by
  constructor
  · rintro rfl
    have hnone : simpleEscape (cp ':') = none := by decide
    rw [hnone] at h
    cases h
  · rintro rfl
    unfold simpleEscape at h
    split_ifs at h with h1
    · rw [Option.some.injEq] at h
      rw [h] at h1
      exact absurd h1 (by decide)
    all_goals exact absurd h (by decide)

/-- Escaping writes a colon for a colon only. -/
theorem colon_mem_reprChar (u : UnicodeTables) {q : CodePoint} (hq : IsQuote q)
    (c : CodePoint) : cp ':' ∈ reprChar u q c ↔ c = cp ':' := by
  rcases reprChar_cases u hq c with ⟨h, -⟩ | ⟨e, h, he⟩ | ⟨m, k, h, hm, -, -, hval⟩
  · rw [h, List.mem_singleton, eq_comm]
  · have hne := simpleEscape_ne_colon he
    rw [h]
    simp [hne.1.symm, hne.2, show cp ':' ≠ cp '\\' by decide]
  · have hmc : m ≠ cp ':' := by
      rintro rfl
      have hnone : hexWidth (cp ':') = none := by decide
      rw [hnone] at hm
      cases hm
    have hcc : c ≠ cp ':' := by
      rintro rfl
      exact absurd hval (by decide)
    have hd : cp ':' ∉ hexDigits k c.val := not_mem_hexDigits (by decide)
    rw [h]
    simp [hmc.symm, hcc, hd, show cp ':' ≠ cp '\\' by decide]

theorem colon_not_mem_strRepr (u : UnicodeTables) {s : PyStr} (h : cp ':' ∉ s) :
    cp ':' ∉ strRepr u s := by
  have hq := reprQuote_isQuote s
  have hne : cp ':' ≠ reprQuote s := by
    intro heq
    rw [← heq] at hq
    rcases hq with hq | hq <;> exact absurd hq (by decide)
  have hbody : cp ':' ∉ s.flatMap (reprChar u (reprQuote s)) := by
    intro hmem
    obtain ⟨c, hc, hcolon⟩ := List.mem_flatMap.mp hmem
    rw [colon_mem_reprChar u hq] at hcolon
    exact h (hcolon ▸ hc)
  unfold strRepr
  simp [hne, hbody]

/-! ## §5. `repr` of an integer. -/

/-- The decimal digit of `d < 10`. -/
def decDigit (d : Nat) : CodePoint :=
  if h : d < 10 then ⟨48 + d, by omega⟩ else cp '0'

/-- The decimal digits of a natural number, most significant first. -/
def decimal (n : Nat) : PyStr :=
  if n = 0 then [cp '0'] else ((Nat.digits 10 n).map decDigit).reverse

/-- `repr(i)`; the interpreter refuses integers of more than `limit` digits
(`sys.get_int_max_str_digits()`, where `0` means no limit). -/
def intRepr (limit : Nat) (i : Int) : Option PyStr :=
  if limit ≠ 0 ∧ limit < (decimal i.natAbs).length then none
  else some (if i < 0 then cp '-' :: decimal i.natAbs else decimal i.natAbs)

end SeamlessCore.Python
