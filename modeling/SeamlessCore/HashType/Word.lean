/-
  SeamlessCore.HashType.Word — the packed HashType word.

  A HashType says what a buffer is, in 13 bits: the kind of its storage, its
  length class, and for a NumPy buffer the kind of its dtype and its rank.
  Three kinds are untested: they claim only that nothing, UTF-8 or JSON was
  established of the whole buffer.

  Main results:
    * `unpack_word` — a packed HashType decodes to itself;
    * `isValidWord_word` — a packed word is valid iff its fields are well formed;
    * `Implies` facts: what a looser word says, every word that implies it says.

  Source: `seamless/checksum/hash_type.py`.
-/
import Mathlib

namespace SeamlessCore

/-! ## §1. The fields. -/

inductive Kind where
  | rawBytes
  | numpy
  | mixedObject
  | mixedArray
  | rawText
  | jsonObject
  | jsonArray
  | jsonString
  | jsonNumber
  | untested
  | utf8Untested
  | jsonUntested
  | jsonNull
  deriving DecidableEq, Repr

inductive Length where
  | short
  | eq64
  | medium
  | long
  deriving DecidableEq, Repr

inductive DType where
  | na
  | numeric
  | nonnumeric
  | structured
  deriving DecidableEq, Repr

inductive Rank where
  | scalar
  | d1
  | d2
  | d3plus
  deriving DecidableEq, Repr

/-- `Flag` -/
structure Flags where
  numericScalar : Bool
  numpyBytes : Bool
  semantic : Bool
  deriving DecidableEq, Repr

/-- `Flag(0)` -/
def Flags.none : Flags := ⟨false, false, false⟩

/-- The decoded word. -/
structure HashType where
  kind : Kind
  length : Length
  dtype : DType := .na
  rank : Rank := .scalar
  flags : Flags := .none
  deriving DecidableEq, Repr

namespace HashType

/-- `is_utf8` -/
def isUtf8 (h : HashType) : Bool :=
  h.kind ∈ [.rawText, .jsonObject, .jsonArray, .jsonString, .jsonNumber, .jsonNull, .utf8Untested,
    .jsonUntested]

/-- `is_json` -/
def isJson (h : HashType) : Bool :=
  h.kind ∈ [.jsonObject, .jsonArray, .jsonString, .jsonNumber, .jsonNull, .jsonUntested]

/-- `is_untested` -/
def isUntested (h : HashType) : Bool := h.kind ∈ [.untested, .utf8Untested, .jsonUntested]

/-- `is_mixed` -/
def isMixed (h : HashType) : Bool := h.kind ∈ [.mixedObject, .mixedArray]

/-! ## §2. Packing. -/

def kindCode : Kind → Nat
  | .rawBytes => 0
  | .numpy => 1
  | .mixedObject => 2
  | .mixedArray => 3
  | .rawText => 4
  | .jsonObject => 5
  | .jsonArray => 6
  | .jsonString => 7
  | .jsonNumber => 8
  | .untested => 9
  | .utf8Untested => 10
  | .jsonUntested => 11
  | .jsonNull => 12

/-- `Kind(n)`; `none` is a `ValueError`. -/
def kindOf : Nat → Option Kind
  | 0 => some .rawBytes
  | 1 => some .numpy
  | 2 => some .mixedObject
  | 3 => some .mixedArray
  | 4 => some .rawText
  | 5 => some .jsonObject
  | 6 => some .jsonArray
  | 7 => some .jsonString
  | 8 => some .jsonNumber
  | 9 => some .untested
  | 10 => some .utf8Untested
  | 11 => some .jsonUntested
  | 12 => some .jsonNull
  | _ => none

def lengthCode : Length → Nat
  | .short => 0
  | .eq64 => 1
  | .medium => 2
  | .long => 3

def lengthOf : Nat → Length
  | 0 => .short
  | 1 => .eq64
  | 2 => .medium
  | _ => .long

def dtypeCode : DType → Nat
  | .na => 0
  | .numeric => 1
  | .nonnumeric => 2
  | .structured => 3

def dtypeOf : Nat → DType
  | 0 => .na
  | 1 => .numeric
  | 2 => .nonnumeric
  | _ => .structured

def rankCode : Rank → Nat
  | .scalar => 0
  | .d1 => 1
  | .d2 => 2
  | .d3plus => 3

def rankOf : Nat → Rank
  | 0 => .scalar
  | 1 => .d1
  | 2 => .d2
  | _ => .d3plus

def flagsCode (f : Flags) : Nat :=
  f.numericScalar.toNat + 2 * f.numpyBytes.toNat + 4 * f.semantic.toNat

def flagsOf (n : Nat) : Flags where
  numericScalar := n % 2 == 1
  numpyBytes := n / 2 % 2 == 1
  semantic := n / 4 % 2 == 1

/-- `pack(...)`; the fields do not overlap, so their bits add up. -/
def word (h : HashType) : Nat :=
  kindCode h.kind + 16 * lengthCode h.length + 64 * dtypeCode h.dtype + 256 * rankCode h.rank
    + 1024 * flagsCode h.flags

/-- `unpack(word)`; `none` is a `ValueError`. -/
def unpack (w : Nat) : Option HashType :=
  if w < 8192 then
    (kindOf (w % 16)).map fun kind =>
      { kind := kind
        length := lengthOf (w / 16 % 4)
        dtype := dtypeOf (w / 64 % 4)
        rank := rankOf (w / 256 % 4)
        flags := flagsOf (w / 1024 % 8) }
  else none

/-- The checks of `is_valid_word` on the decoded fields. -/
def wellFormed (h : HashType) : Bool :=
  if (h.dtype ≠ .na) ≠ (h.kind = .numpy) then false
  else if h.rank ≠ .scalar ∧ h.kind ≠ .numpy then false
  else if h.flags.numpyBytes ∧
      ¬ (h.kind = .numpy ∧ h.dtype = .nonnumeric ∧ h.rank = .scalar) then false
  else if h.kind = .jsonNumber ∧ ¬ h.flags.numericScalar then false
  else if h.flags.numericScalar ∧ ¬ (h.kind = .jsonNumber ∨ h.kind = .jsonString) then false
  else if h.flags.semantic then false
  else true

/-- `is_valid_word(word)` -/
def isValidWord (w : Nat) : Bool :=
  match unpack w with
  | none => false
  | some h => h.wellFormed

theorem kindOf_code (k : Kind) : kindOf (kindCode k) = some k := by cases k <;> rfl

theorem kindCode_lt (k : Kind) : kindCode k < 16 := by cases k <;> decide

theorem lengthOf_code (l : Length) : lengthOf (lengthCode l) = l := by cases l <;> rfl

theorem lengthCode_lt (l : Length) : lengthCode l < 4 := by cases l <;> decide

theorem dtypeOf_code (d : DType) : dtypeOf (dtypeCode d) = d := by cases d <;> rfl

theorem dtypeCode_lt (d : DType) : dtypeCode d < 4 := by cases d <;> decide

theorem rankOf_code (r : Rank) : rankOf (rankCode r) = r := by cases r <;> rfl

theorem rankCode_lt (r : Rank) : rankCode r < 4 := by cases r <;> decide

theorem flagsOf_code (f : Flags) : flagsOf (flagsCode f) = f := by
  obtain ⟨a, b, c⟩ := f
  cases a <;> cases b <;> cases c <;> rfl

theorem flagsCode_lt (f : Flags) : flagsCode f < 8 := by
  obtain ⟨a, b, c⟩ := f
  cases a <;> cases b <;> cases c <;> decide

theorem word_lt (h : HashType) : h.word < 8192 := by
  have hk := kindCode_lt h.kind
  have hl := lengthCode_lt h.length
  have hd := dtypeCode_lt h.dtype
  have hr := rankCode_lt h.rank
  have hf := flagsCode_lt h.flags
  unfold word
  omega

/-- A packed HashType decodes to itself. -/
theorem unpack_word (h : HashType) : unpack h.word = some h := by
  have hk := kindCode_lt h.kind
  have hl := lengthCode_lt h.length
  have hd := dtypeCode_lt h.dtype
  have hr := rankCode_lt h.rank
  have hf := flagsCode_lt h.flags
  unfold unpack word
  rw [if_pos (by omega)]
  -- each field is where `unpack` looks for it
  have hkind : (kindCode h.kind + 16 * lengthCode h.length + 64 * dtypeCode h.dtype
      + 256 * rankCode h.rank + 1024 * flagsCode h.flags) % 16 = kindCode h.kind := by omega
  have hlength : (kindCode h.kind + 16 * lengthCode h.length + 64 * dtypeCode h.dtype
      + 256 * rankCode h.rank + 1024 * flagsCode h.flags) / 16 % 4 = lengthCode h.length := by omega
  have hdtype : (kindCode h.kind + 16 * lengthCode h.length + 64 * dtypeCode h.dtype
      + 256 * rankCode h.rank + 1024 * flagsCode h.flags) / 64 % 4 = dtypeCode h.dtype := by omega
  have hrank : (kindCode h.kind + 16 * lengthCode h.length + 64 * dtypeCode h.dtype
      + 256 * rankCode h.rank + 1024 * flagsCode h.flags) / 256 % 4 = rankCode h.rank := by omega
  have hflags : (kindCode h.kind + 16 * lengthCode h.length + 64 * dtypeCode h.dtype
      + 256 * rankCode h.rank + 1024 * flagsCode h.flags) / 1024 % 8 = flagsCode h.flags := by omega
  rw [hkind, hlength, hdtype, hrank, hflags, kindOf_code, lengthOf_code, dtypeOf_code, rankOf_code,
    flagsOf_code]
  rfl

theorem isValidWord_word (h : HashType) : isValidWord h.word = h.wellFormed := by
  unfold isValidWord
  rw [unpack_word]

/-! ## §3. Implication. -/

/-- `_hash_type_implies(tighter, looser)` -/
def implies (tighter looser : HashType) : Bool :=
  if tighter.length ≠ looser.length then false
  else match looser.kind with
    | .untested => true
    | .utf8Untested => tighter.isUtf8
    | .jsonUntested => tighter.isJson
    | _ => decide (tighter = looser)

theorem isUtf8_of_isJson {h : HashType} (hj : h.isJson = true) : h.isUtf8 = true := by
  unfold isJson at hj
  unfold isUtf8
  cases hk : h.kind <;> rw [hk] at hj <;> first | rfl | cases hj

/-- The kinds that are untested. -/
theorem isUntested_cases {h : HashType} (hu : h.isUntested = true) :
    h.kind = .untested ∨ h.kind = .utf8Untested ∨ h.kind = .jsonUntested := by
  unfold isUntested at hu
  simpa using hu

theorem implies_refl (h : HashType) : h.implies h = true := by
  unfold implies isUtf8 isJson
  cases hk : h.kind <;> simp

theorem implies_length {t l : HashType} (h : t.implies l = true) : t.length = l.length := by
  unfold implies at h
  split at h
  · cases h
  next hl => exact not_not.mp hl

/-- A concrete word implies only itself among the concrete words. -/
theorem eq_of_implies {t l : HashType} (h : t.implies l = true) (hl : l.isUntested = false) :
    t = l := by
  unfold implies at h
  split at h
  · cases h
  · unfold isUntested at hl
    cases hk : l.kind <;> rw [hk] at h hl <;> first | exact of_decide_eq_true h | cases hl

/-- What an untested word claims of the words that imply it. -/
theorem implies_untested {t l : HashType} (hl : t.length = l.length) :
    (l.kind = .untested → t.implies l = true) ∧
    (l.kind = .utf8Untested → t.implies l = t.isUtf8) ∧
    (l.kind = .jsonUntested → t.implies l = t.isJson) := by
  unfold implies
  rw [if_neg (not_not.mpr hl)]
  refine ⟨?_, ?_, ?_⟩ <;> intro hk <;> rw [hk]

theorem implies_isUtf8 {t l : HashType} (h : t.implies l = true) (hl : l.isUtf8 = true) :
    t.isUtf8 = true := by
  obtain ⟨-, hutf8, hjson⟩ := implies_untested (implies_length h)
  by_cases hu : l.isUntested = true
  · rcases isUntested_cases hu with hk | hk | hk
    · simp [isUtf8, hk] at hl
    · rw [← hutf8 hk]
      exact h
    · rw [hjson hk] at h
      exact isUtf8_of_isJson h
  · rw [eq_of_implies h (by simpa using hu)]
    exact hl

theorem implies_isJson {t l : HashType} (h : t.implies l = true) (hl : l.isJson = true) :
    t.isJson = true := by
  obtain ⟨-, -, hjson⟩ := implies_untested (implies_length h)
  by_cases hu : l.isUntested = true
  · rcases isUntested_cases hu with hk | hk | hk
    · simp [isJson, hk] at hl
    · simp [isJson, hk] at hl
    · rw [← hjson hk]
      exact h
  · rw [eq_of_implies h (by simpa using hu)]
    exact hl

theorem implies_trans {a b c : HashType} (hab : a.implies b = true) (hbc : b.implies c = true) :
    a.implies c = true := by
  obtain ⟨-, hutf8, hjson⟩ := implies_untested (implies_length hbc)
  obtain ⟨huntested', hutf8', hjson'⟩ :=
    implies_untested ((implies_length hab).trans (implies_length hbc))
  by_cases hu : c.isUntested = true
  · rcases isUntested_cases hu with hk | hk | hk
    · exact huntested' hk
    · rw [hutf8 hk] at hbc
      rw [hutf8' hk]
      exact implies_isUtf8 hab hbc
    · rw [hjson hk] at hbc
      rw [hjson' hk]
      exact implies_isJson hab hbc
  · rw [← eq_of_implies hbc (by simpa using hu)]
    exact hab

end HashType

end SeamlessCore
