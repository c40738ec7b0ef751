/-
  SeamlessCore.Python.Bytes — byte strings, UTF-8 and hexadecimal.

  `bytes.decode()` and `str.encode()` are the strict UTF-8 codec: no overlong
  forms, no surrogates.  The decoder runs byte by byte with the number of
  continuation bytes it still expects, so it evaluates by structural
  recursion.

  Main results:
    * `decodeUtf8_encodeUtf8` — what was encoded decodes to itself;
    * `fromHex_hex` — a digest reads back from its hexadecimal form.
-/
import SeamlessCore.Python.Literal

namespace SeamlessCore.Python

/-! ## §1. The UTF-8 codec. -/

/-- A Python `bytes` object. -/
abbrev Bytes := List UInt8

/-- The code points that UTF-8 encodes. -/
def isScalar (n : Nat) : Prop := n < 0x110000 ∧ ¬ (0xD800 ≤ n ∧ n ≤ 0xDFFF)

instance (n : Nat) : Decidable (isScalar n) := inferInstanceAs (Decidable (_ ∧ _))

/-- Put a decoded code point before the rest. -/
def consScalar (n : Nat) (rest : Option PyStr) : Option PyStr :=
  if h : isScalar n then rest.map fun s => (⟨n, h.1⟩ : CodePoint) :: s else none

/-- Decode with `more` continuation bytes to come, the bits `acc` read so far,
and `low` the least value that is not overlong. -/
def decodeFrom : (more acc low : Nat) → Bytes → Option PyStr
  | 0, _, _, [] => some []
  | _ + 1, _, _, [] => none
  | 0, _, _, b :: bs =>
    let n := b.toNat
    if n < 0x80 then consScalar n (decodeFrom 0 0 0 bs)
    else if 0xC0 ≤ n ∧ n < 0xE0 then decodeFrom 1 (n - 0xC0) 0x80 bs
    else if 0xE0 ≤ n ∧ n < 0xF0 then decodeFrom 2 (n - 0xE0) 0x800 bs
    else if 0xF0 ≤ n ∧ n < 0xF8 then decodeFrom 3 (n - 0xF0) 0x10000 bs
    else none
  | more + 1, acc, low, b :: bs =>
    let n := b.toNat
    if 0x80 ≤ n ∧ n < 0xC0 then
      let acc := acc * 64 + (n - 0x80)
      if more = 0 then
        if low ≤ acc then consScalar acc (decodeFrom 0 0 0 bs) else none
      else decodeFrom more acc low bs
    else none

/-- `b.decode()`; `none` is a `UnicodeDecodeError`. -/
def decodeUtf8 (b : Bytes) : Option PyStr := decodeFrom 0 0 0 b

/-- The bytes of one code point. -/
def encodeChar (c : CodePoint) : Bytes :=
  let n := c.val
  if n < 0x80 then [UInt8.ofNat n]
  else if n < 0x800 then [UInt8.ofNat (0xC0 + n / 64), UInt8.ofNat (0x80 + n % 64)]
  else if n < 0x10000 then
    [UInt8.ofNat (0xE0 + n / 4096), UInt8.ofNat (0x80 + n / 64 % 64), UInt8.ofNat (0x80 + n % 64)]
  else
    [UInt8.ofNat (0xF0 + n / 262144), UInt8.ofNat (0x80 + n / 4096 % 64),
      UInt8.ofNat (0x80 + n / 64 % 64), UInt8.ofNat (0x80 + n % 64)]

/-- `s.encode()`; `none` is a `UnicodeEncodeError`. -/
def encodeUtf8 (s : PyStr) : Option Bytes :=
  if s.any isSurrogate then none else some (s.flatMap encodeChar)

/-! ## §2. Decoding what was encoded. -/

theorem toNat_ofNat_of_lt {n : Nat} (h : n < 256) : (UInt8.ofNat n).toNat = n := by
  rw [UInt8.toNat_ofNat']
  omega

/-- A byte below 128 is a code point of its own. -/
theorem decodeFrom_ascii {n : Nat} (h : n < 0x80) (bs : Bytes) :
    decodeFrom 0 0 0 (UInt8.ofNat n :: bs) = consScalar n (decodeFrom 0 0 0 bs) := by
  simp only [decodeFrom]
  rw [toNat_ofNat_of_lt (by omega), if_pos h]

/-- A continuation byte that is not the last one. -/
theorem decodeFrom_more {m acc low k : Nat} (hk : k < 64) (bs : Bytes) :
    decodeFrom (m + 2) acc low (UInt8.ofNat (0x80 + k) :: bs)
      = decodeFrom (m + 1) (acc * 64 + k) low bs := by
  have hacc : acc * 64 + (0x80 + k - 0x80) = acc * 64 + k := by omega
  simp only [decodeFrom]
  rw [toNat_ofNat_of_lt (by omega), if_pos (by omega), if_neg (by omega), hacc]

/-- The last continuation byte. -/
theorem decodeFrom_last {acc low k : Nat} (hk : k < 64) (hlow : low ≤ acc * 64 + k) (bs : Bytes) :
    decodeFrom 1 acc low (UInt8.ofNat (0x80 + k) :: bs)
      = consScalar (acc * 64 + k) (decodeFrom 0 0 0 bs) := by
  have hacc : acc * 64 + (0x80 + k - 0x80) = acc * 64 + k := by omega
  simp only [decodeFrom]
  rw [toNat_ofNat_of_lt (by omega), if_pos (by omega), if_pos trivial, hacc, if_pos hlow]

theorem consScalar_val {c : CodePoint} (hc : isSurrogate c = false) (rest : Option PyStr) :
    consScalar c.val rest = rest.map (c :: ·) := by
  have hscalar : isScalar c.val := by
    refine ⟨c.isLt, ?_⟩
    simp only [isSurrogate, Bool.and_eq_false_iff, decide_eq_false_iff_not] at hc
    omega
  rw [consScalar, dif_pos hscalar]

theorem decodeFrom_encodeChar {c : CodePoint} (hc : isSurrogate c = false) (bs : Bytes) :
    decodeFrom 0 0 0 (encodeChar c ++ bs) = (decodeFrom 0 0 0 bs).map (c :: ·) := by
  rw [← consScalar_val hc]
  have hlt := c.isLt
  unfold encodeChar
  simp only
  split
  next h => exact decodeFrom_ascii h bs
  next h =>
  split
  next h₂ =>
    -- two bytes
    show decodeFrom 0 0 0 (_ :: _ :: bs) = _
    rw [show decodeFrom 0 0 0 (UInt8.ofNat (0xC0 + c.val / 64) :: UInt8.ofNat (0x80 + c.val % 64)
        :: bs) = decodeFrom 1 (c.val / 64) 0x80 (UInt8.ofNat (0x80 + c.val % 64) :: bs) from by
      simp only [decodeFrom]
      rw [toNat_ofNat_of_lt (n := 0xC0 + c.val / 64) (by omega), if_neg (by omega),
        if_pos (by omega)]
      simp]
    rw [decodeFrom_last (by omega) (by omega)]
    congr 1
    omega
  next h₂ =>
  split
  next h₃ =>
    -- three bytes
    show decodeFrom 0 0 0 (_ :: _ :: _ :: bs) = _
    rw [show decodeFrom 0 0 0 (UInt8.ofNat (0xE0 + c.val / 4096) ::
        UInt8.ofNat (0x80 + c.val / 64 % 64) :: UInt8.ofNat (0x80 + c.val % 64) :: bs)
        = decodeFrom 2 (c.val / 4096) 0x800 (UInt8.ofNat (0x80 + c.val / 64 % 64) ::
          UInt8.ofNat (0x80 + c.val % 64) :: bs) from by
      conv_lhs => unfold decodeFrom
      simp only
      rw [toNat_ofNat_of_lt (n := 0xE0 + c.val / 4096) (by omega), if_neg (by omega),
        if_neg (by omega), if_pos (by omega), Nat.add_sub_cancel_left]]
    rw [decodeFrom_more (by omega), decodeFrom_last (by omega) (by omega)]
    congr 1
    omega
  next h₃ =>
    -- four bytes
    show decodeFrom 0 0 0 (_ :: _ :: _ :: _ :: bs) = _
    rw [show decodeFrom 0 0 0 (UInt8.ofNat (0xF0 + c.val / 262144) ::
        UInt8.ofNat (0x80 + c.val / 4096 % 64) :: UInt8.ofNat (0x80 + c.val / 64 % 64) ::
        UInt8.ofNat (0x80 + c.val % 64) :: bs)
        = decodeFrom 3 (c.val / 262144) 0x10000 (UInt8.ofNat (0x80 + c.val / 4096 % 64) ::
          UInt8.ofNat (0x80 + c.val / 64 % 64) :: UInt8.ofNat (0x80 + c.val % 64) :: bs) from by
      conv_lhs => unfold decodeFrom
      simp only
      rw [toNat_ofNat_of_lt (n := 0xF0 + c.val / 262144) (by omega), if_neg (by omega),
        if_neg (by omega), if_neg (by omega), if_pos (by omega), Nat.add_sub_cancel_left]]
    rw [decodeFrom_more (by omega), decodeFrom_more (by omega), decodeFrom_last (by omega) (by omega)]
    congr 1
    omega

/-- What was encoded decodes to itself. -/
theorem decodeUtf8_encodeUtf8 {s : PyStr} {b : Bytes} (h : encodeUtf8 s = some b) :
    decodeUtf8 b = some s := by
  unfold encodeUtf8 at h
  split at h
  · cases h
  next hs =>
    rw [← Option.some.inj h]
    rw [Bool.not_eq_true, List.any_eq_false] at hs
    clear h
    induction s with
    | nil => rfl
    | cons c s ih =>
      have hc : isSurrogate c = false := by simpa using hs c List.mem_cons_self
      have hrest := ih fun d hd => hs d (List.mem_cons_of_mem _ hd)
      unfold decodeUtf8 at hrest ⊢
      rw [List.flatMap_cons, decodeFrom_encodeChar hc, hrest]
      rfl

/-! ## §3. Decoded text. -/

/-- Text without surrogates. -/
def Encodable (s : PyStr) : Prop := s.any isSurrogate = false

theorem Encodable.encodes {s : PyStr} (h : Encodable s) : ∃ b, encodeUtf8 s = some b := by
  unfold encodeUtf8
  rw [h]
  exact ⟨_, rfl⟩

theorem consScalar_append {n : Nat} {rest : Option PyStr} {s : PyStr} (h : consScalar n rest = some s)
    {rest' : Option PyStr} {t : Option PyStr}
    (hrest : ∀ u, rest = some u → rest' = t.map (u ++ ·)) :
    consScalar n rest' = t.map (s ++ ·) := by
  unfold consScalar at h ⊢
  split at h
  next hn =>
    rw [dif_pos hn]
    cases rest with
    | none => cases h
    | some u =>
      rw [← Option.some.inj h, hrest u rfl, Option.map_map]
      rfl
  · cases h

/-- After a decoded text, the decoder starts anew. -/
theorem decodeFrom_append (b' : Bytes) (b : Bytes) :
    ∀ (more acc low : Nat) (s : PyStr), decodeFrom more acc low b = some s →
      decodeFrom more acc low (b ++ b') = (decodeUtf8 b').map (s ++ ·) := by
  -- on the first part, whose decoder state is carried along
  induction b with
  | nil =>
    intro more acc low s h
    cases more with
    | zero =>
      have hs : [] = s := Option.some.inj h
      rw [← hs]
      have haccs : decodeFrom 0 acc low b' = decodeUtf8 b' := by
        cases b' <;> rfl
      rw [List.nil_append, haccs]
      cases decodeUtf8 b' <;> rfl
    | succ more => cases h
  | cons x bs ih =>
    intro more acc low s h
    cases more with
    | zero =>
      simp only [List.cons_append, decodeFrom] at h ⊢
      split at h
      next h1 =>
        rw [if_pos h1]
        exact consScalar_append h fun u hu => ih 0 0 0 u hu
      next h1 =>
        rw [if_neg h1]
        split at h
        next h2 => rw [if_pos h2]; exact ih _ _ _ s h
        next h2 =>
          rw [if_neg h2]
          split at h
          next h3 => rw [if_pos h3]; exact ih _ _ _ s h
          next h3 =>
            rw [if_neg h3]
            split at h
            next h4 => rw [if_pos h4]; exact ih _ _ _ s h
            next => cases h
    | succ more =>
      simp only [List.cons_append, decodeFrom] at h ⊢
      split at h
      next h1 =>
        rw [if_pos h1]
        split at h
        next h2 =>
          rw [if_pos h2]
          split at h
          next h3 =>
            rw [if_pos h3]
            exact consScalar_append h fun u hu => ih 0 0 0 u hu
          next => cases h
        next h2 => rw [if_neg h2]; exact ih _ _ _ s h
      next => cases h

theorem decodeUtf8_append {b : Bytes} {s : PyStr} (h : decodeUtf8 b = some s) (b' : Bytes) :
    decodeUtf8 (b ++ b') = (decodeUtf8 b').map (s ++ ·) :=
  decodeFrom_append b' b 0 0 0 s h

/-- A text never starts with a byte from 128 to 191. -/
theorem decodeUtf8_continuation {x : UInt8} (hlow : 0x80 ≤ x.toNat) (hhigh : x.toNat < 0xC0)
    (bs : Bytes) : decodeUtf8 (x :: bs) = none := by
  unfold decodeUtf8
  simp only [decodeFrom]
  rw [if_neg (by omega), if_neg (by omega), if_neg (by omega), if_neg (by omega)]

/-! ## §4. Trailing newlines. -/

/-- `s.rstrip("\n")` -/
def rstripNewlines (s : PyStr) : PyStr := s.rdropWhile (· == cp '\n')

theorem rstripNewlines_append_newline (s : PyStr) :
    rstripNewlines (s ++ [cp '\n']) = rstripNewlines s := by
  unfold rstripNewlines
  exact List.rdropWhile_concat_pos _ _ _ (by simp)

theorem rstripNewlines_idem (s : PyStr) : rstripNewlines (rstripNewlines s) = rstripNewlines s := by
  unfold rstripNewlines
  exact List.rdropWhile_idempotent _ _

theorem rstripNewlines_subset {s : PyStr} {c : CodePoint} (h : c ∈ rstripNewlines s) : c ∈ s :=
  (List.rdropWhile_prefix _ _).subset h

theorem Encodable.rstrip {s : PyStr} (h : Encodable s) : Encodable (rstripNewlines s) := by
  unfold Encodable at h ⊢
  rw [List.any_eq_false] at h ⊢
  intro c hc
  exact h c (rstripNewlines_subset hc)

/-! ## §5. Hexadecimal digests. -/

/-- `b.hex()` -/
def hex (b : Bytes) : PyStr := b.flatMap fun x => hexDigits 2 x.toNat

/-- The ASCII whitespace that `bytes.fromhex` skips between two bytes. -/
def isHexSpace (c : CodePoint) : Bool :=
  c.val == 32 || (9 ≤ c.val && c.val ≤ 13)

/-- `bytes.fromhex(s)`, with the high digit of a byte that was started. -/
def fromHexFrom : Option Nat → PyStr → Option Bytes
  | none, [] => some []
  | some _, [] => none
  | none, c :: cs =>
    if isHexSpace c then fromHexFrom none cs
    else match hexVal c with
      | none => none
      | some high => fromHexFrom (some high) cs
  | some high, c :: cs =>
    match hexVal c with
    | none => none
    | some low => (fromHexFrom none cs).map fun b => UInt8.ofNat (16 * high + low) :: b

/-- `bytes.fromhex(s)`; `none` is a `ValueError`. -/
def fromHex (s : PyStr) : Option Bytes := fromHexFrom none s

theorem isHexSpace_hexDigit (n : Nat) : isHexSpace (hexDigit n) = false := by
  unfold isHexSpace hexDigit
  split <;> simp <;> omega

/-- A digest reads back from its hexadecimal form. -/
theorem fromHex_hex (b : Bytes) : fromHex (hex b) = some b := by
  induction b with
  | nil => rfl
  | cons x b ih =>
    have hx := UInt8.toNat_lt x
    have hhex : hex (x :: b) = hexDigit (x.toNat / 16) :: hexDigit x.toNat :: hex b := rfl
    unfold fromHex at ih ⊢
    rw [hhex]
    simp only [fromHexFrom, isHexSpace_hexDigit, hexVal_hexDigit, ih]
    have hval : 16 * (x.toNat / 16 % 16) + x.toNat % 16 = x.toNat := by omega
    simp [hval]

theorem length_hex (b : Bytes) : (hex b).length = 2 * b.length := by
  induction b with
  | nil => rfl
  | cons x b ih =>
    have hhex : hex (x :: b) = hexDigit (x.toNat / 16) :: hexDigit x.toNat :: hex b := rfl
    rw [hhex]
    simp only [List.length_cons, ih]
    omega

end SeamlessCore.Python
