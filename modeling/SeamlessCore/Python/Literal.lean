/-
  SeamlessCore.Python.Literal — `ast.literal_eval` on the tokens of a path.

  The literals a path is made of are scanned here character by character:
  `None`, `True`, `False`, canonical decimal integers with an optional minus
  sign, and a single quoted string with its escapes.  Every other token
  (floats, tuples, prefixed or concatenated strings, `\N{…}` and octal
  escapes, …) is handed to `literalRest`, about which nothing is assumed.

  Main results:
    * `literalEval_strRepr`, `literalEval_intRepr` — reading back a `repr`;
    * `literalEval_unterminated` — a `repr` cut short is a syntax error.
-/
import SeamlessCore.Python.Text

namespace SeamlessCore.Python

/-! ## §1. Values and the interpreter. -/

/-- The value of a literal. -/
inductive Literal where
  | none
  | bool (b : Bool)
  | int (i : Int)
  | str (s : PyStr)
  /-- A value of another type (a float, a tuple, …), given by its source. -/
  | other (source : PyStr)
  deriving DecidableEq, Repr

/-- The running interpreter: its Unicode database, its limit on the digits of
an integer literal, and what `ast.literal_eval` does outside the literals
scanned below (`none` is a `SyntaxError` or a `ValueError`). -/
structure Interpreter extends UnicodeTables where
  /-- `sys.get_int_max_str_digits()`; `0` means no limit. -/
  maxStrDigits : Nat
  literalRest : PyStr → Option Literal

/-! ## §2. Scanning a quoted string. -/

/-- The outcome of scanning the body of a string literal. -/
inductive Scan where
  | done (value rest : PyStr)
  | syntaxError
  /-- An escape this scanner leaves to `literalRest`. -/
  | outside
  deriving DecidableEq, Repr

/-- Put a character before the scanned value. -/
def Scan.push (c : CodePoint) : Scan → Scan
  | .done value rest => .done (c :: value) rest
  | s => s

/-- Where the scanner stands: between characters, after a backslash, or with
`more + 1` hexadecimal digits still to come. -/
inductive LexState where
  | plain
  | escape
  | hex (more acc : Nat)

/-- The value of a hexadecimal digit. -/
def hexVal (c : CodePoint) : Option Nat :=
  if 48 ≤ c.val ∧ c.val ≤ 57 then some (c.val - 48)
  else if 97 ≤ c.val ∧ c.val ≤ 102 then some (c.val - 87)
  else if 65 ≤ c.val ∧ c.val ≤ 70 then some (c.val - 55)
  else none

/-- Characters that cannot stand in the source of a one-line string literal:
line ends, NUL, and surrogates (the source is encoded as UTF-8 first). -/
def isIllegalInString (c : CodePoint) : Bool :=
  c.val == 10 || c.val == 13 || c.val == 0 || isSurrogate c

/-- Scan the body of a literal quoted with `q`. -/
def scanString (q : CodePoint) : LexState → PyStr → Scan
  | _, [] => .syntaxError
  | .plain, c :: cs =>
    if c = q then .done [] cs
    else if c = cp '\\' then scanString q .escape cs
    else if isIllegalInString c then .syntaxError
    else (scanString q .plain cs).push c
  | .escape, c :: cs =>
    match simpleEscape c with
    | some v => (scanString q .plain cs).push v
    | none =>
      match hexWidth c with
      | some k => scanString q (.hex (k - 1) 0) cs
      | none => .outside
  | .hex more acc, c :: cs =>
    match hexVal c with
    | none => .syntaxError
    | some d =>
      match more with
      | n + 1 => scanString q (.hex n (acc * 16 + d)) cs
      | 0 =>
        if h : acc * 16 + d < 0x110000 then
          (scanString q .plain cs).push ⟨acc * 16 + d, h⟩
        else .syntaxError

/-! ## §3. `literal_eval`. -/

/-- Whether a code point is a decimal digit. -/
def isDecDigit (c : CodePoint) : Bool := 48 ≤ c.val && c.val ≤ 57

/-- A canonical decimal: `0`, or digits without a leading zero. -/
def isDecimal : PyStr → Bool
  | [] => false
  | c :: cs => isDecDigit c && cs.all isDecDigit && (c != cp '0' || cs.isEmpty)

/-- The value of a run of decimal digits. -/
def decimalValue (s : PyStr) : Nat :=
  s.foldl (fun acc c => acc * 10 + (c.val - 48)) 0

/-- A decimal literal; too many digits are a `SyntaxError`. -/
def evalDecimal (limit : Nat) (s : PyStr) : Option Nat :=
  if limit ≠ 0 ∧ limit < s.length then none else some (decimalValue s)

/-- `ast.literal_eval(token)`; `none` stands for `SyntaxError` and `ValueError`. -/
def literalEval (I : Interpreter) (token : PyStr) : Option Literal :=
  let source := token.dropWhile fun c => c == cp ' ' || c == cp '\t'
  match source with
  | [] => none
  | c :: cs =>
    if source = py "None" then some .none
    else if source = py "True" then some (.bool true)
    else if source = py "False" then some (.bool false)
    else if c = cp '\'' ∨ c = cp '"' then
      match scanString c .plain cs with
      | .done value [] => some (.str value)
      | .syntaxError => none
      | _ => I.literalRest token
    else if isDecimal source then
      (evalDecimal I.maxStrDigits source).map fun n : Nat => .int n
    else if c = cp '-' ∧ isDecimal cs then
      (evalDecimal I.maxStrDigits cs).map fun n : Nat => .int (-n)
    else I.literalRest token

/-! ## §4. Reading back the `repr` of a string. -/

theorem hexVal_hexDigit (n : Nat) : hexVal (hexDigit n) = some (n % 16) := by
  unfold hexDigit hexVal
  split
  · rw [if_pos ⟨by simp, by simp only; omega⟩]; simp
  · rw [if_neg (by simp only; omega), if_pos ⟨by simp only; omega, by simp only; omega⟩]
    simp only [Option.some.injEq]
    omega

theorem scanString_plain (q c : CodePoint) (cs : PyStr) :
    scanString q .plain (c :: cs) =
      if c = q then .done [] cs
      else if c = cp '\\' then scanString q .escape cs
      else if isIllegalInString c then .syntaxError
      else (scanString q .plain cs).push c := rfl

theorem scanString_digit (q : CodePoint) {c : CodePoint} {d : Nat} (hd : hexVal c = some d)
    (more acc : Nat) (cs : PyStr) :
    scanString q (.hex (more + 1) acc) (c :: cs) =
      scanString q (.hex more (acc * 16 + d)) cs := by
  conv_lhs => whnf
  rw [hd]

theorem scanString_lastDigit (q : CodePoint) {c : CodePoint} {d : Nat} (hd : hexVal c = some d)
    {acc : Nat} (h : acc * 16 + d < 0x110000) (cs : PyStr) :
    scanString q (.hex 0 acc) (c :: cs) =
      (scanString q .plain cs).push ⟨acc * 16 + d, h⟩ := by
  conv_lhs => whnf
  rw [hd]
  exact dif_pos h

/-- Reading `k + 1` hexadecimal digits of `n` adds them to the accumulator. -/
theorem scanString_hexDigits (q : CodePoint) :
    ∀ (k n acc more : Nat) (rest : PyStr),
      scanString q (.hex (k + more + 1) acc) (hexDigits (k + 1) n ++ rest)
        = scanString q (.hex more (acc * 16 ^ (k + 1) + n % 16 ^ (k + 1))) rest := by
  intro k
  induction k with
  | zero =>
    intro n acc more rest
    rw [Nat.zero_add, hexDigits, hexDigits, List.nil_append, List.singleton_append,
      scanString_digit q (hexVal_hexDigit n), Nat.zero_add, Nat.pow_one]
  | succ k ih =>
    intro n acc more rest
    rw [hexDigits, List.append_assoc, show k + 1 + more + 1 = k + (more + 1) + 1 by omega, ih]
    rw [List.singleton_append, scanString_digit q (hexVal_hexDigit n)]
    congr 2
    rw [Nat.pow_succ 16 (k + 1), Nat.mul_comm (16 ^ (k + 1)) 16, Nat.mod_mul]
    ring

/-- A full hexadecimal escape stands for its code point. -/
theorem scanString_hexEscape (q c : CodePoint) (rest : PyStr) {k : Nat}
    (hk : 0 < k) (hc : c.val < 16 ^ k) :
    scanString q (.hex (k - 1) 0) (hexDigits k c.val ++ rest)
      = (scanString q .plain rest).push c := by
  obtain ⟨j, rfl⟩ : ∃ j, k = j + 1 := ⟨k - 1, by omega⟩
  have hlast : ∀ acc, acc * 16 + c.val % 16 = c.val →
      scanString q (.hex 0 acc) (hexDigit c.val :: rest)
        = (scanString q .plain rest).push c := by
    intro acc hacc
    have hbound : acc * 16 + c.val % 16 < 0x110000 := by
      rw [hacc]
      exact c.isLt
    rw [scanString_lastDigit q (hexVal_hexDigit c.val) hbound]
    congr 1
    exact Fin.ext hacc
  cases j with
  | zero => exact hlast 0 (by omega)
  | succ i =>
    have hfirst := scanString_hexDigits q i (c.val / 16) 0 0 ([hexDigit c.val] ++ rest)
    rw [Nat.add_zero] at hfirst
    rw [hexDigits, List.append_assoc, Nat.add_sub_cancel, hfirst]
    refine hlast _ ?_
    have hdiv : c.val / 16 < 16 ^ (i + 1) := by
      rw [Nat.pow_succ] at hc
      omega
    rw [Nat.mod_eq_of_lt hdiv]
    omega

/-- What `repr` writes for a character is read back as that character. -/
theorem scanString_reprChar (u : UnicodeTables) {q : CodePoint} (hq : IsQuote q)
    (c : CodePoint) (rest : PyStr) :
    scanString q .plain (reprChar u q c ++ rest) = (scanString q .plain rest).push c := by
  have hbq : cp '\\' ≠ q := by rcases hq with rfl | rfl <;> decide
  rcases reprChar_cases u hq c with ⟨h, hcq, hcb, hlow, hsur⟩ | ⟨e, h, he⟩ | ⟨m, k, h, hm, hk, hc, -⟩
  · have hleg : isIllegalInString c = false := by
      simp only [isIllegalInString, hsur, Bool.or_false, Bool.or_eq_false_iff,
        beq_eq_false_iff_ne]
      omega
    rw [h, List.singleton_append, scanString_plain, if_neg hcq, if_neg hcb]
    simp [hleg]
  · rw [h]
    simp [scanString, hbq, he]
  · have hnone : simpleEscape m = none := by
      unfold hexWidth at hm
      split_ifs at hm with h1 h2 h3
      · rw [h1]; rfl
      · rw [h2]; rfl
      · rw [h3]; rfl
    rw [h]
    simp only [List.cons_append, scanString, if_neg hbq, if_true, hnone, hm]
    exact scanString_hexEscape q c rest hk hc

/-- Reading the escaped text pushes the text. -/
theorem scanString_flatMap (u : UnicodeTables) {q : CodePoint} (hq : IsQuote q)
    (s rest : PyStr) :
    scanString q .plain (s.flatMap (reprChar u q) ++ rest)
      = s.foldr Scan.push (scanString q .plain rest) := by
  induction s with
  | nil => rfl
  | cons c cs ih =>
    rw [List.flatMap_cons, List.append_assoc, scanString_reprChar u hq, ih, List.foldr_cons]

theorem foldr_push_done (s value rest : PyStr) :
    s.foldr Scan.push (.done value rest) = .done (s ++ value) rest := by
  induction s with
  | nil => rfl
  | cons c cs ih => rw [List.foldr_cons, ih]; rfl

theorem foldr_push_syntaxError (s : PyStr) :
    s.foldr Scan.push .syntaxError = .syntaxError := by
  induction s with
  | nil => rfl
  | cons c cs ih => rw [List.foldr_cons, ih]; rfl

/-- `literal_eval` on a token that starts with a quote is the string scanner. -/
theorem literalEval_quote (I : Interpreter) {q : CodePoint} (hq : IsQuote q) (cs : PyStr) :
    literalEval I (q :: cs) =
      match scanString q .plain cs with
      | .done value [] => some (.str value)
      | .syntaxError => none
      | _ => I.literalRest (q :: cs) := by
  have hkeep : (q :: cs).dropWhile (fun c => c == cp ' ' || c == cp '\t') = q :: cs := by
    rcases hq with rfl | rfl <;> rfl
  have hword : ∀ d w, q ≠ d → q :: cs ≠ d :: w := by
    intro d w hne heq
    exact hne (List.cons.inj heq).1
  have hn : q :: cs ≠ py "None" := hword (cp 'N') _ (by rcases hq with rfl | rfl <;> decide)
  have ht : q :: cs ≠ py "True" := hword (cp 'T') _ (by rcases hq with rfl | rfl <;> decide)
  have hf : q :: cs ≠ py "False" := hword (cp 'F') _ (by rcases hq with rfl | rfl <;> decide)
  have hq' : q = cp '\'' ∨ q = cp '"' := hq
  unfold literalEval
  simp only [hkeep, if_neg hn, if_neg ht, if_neg hf, if_pos hq']

/-- `literal_eval(repr(s)) == s` for every string. -/
theorem literalEval_strRepr (I : Interpreter) (s : PyStr) :
    literalEval I (strRepr I.toUnicodeTables s) = some (.str s) := by
  have hq := reprQuote_isQuote s
  have hscan : scanString (reprQuote s) .plain
      (s.flatMap (reprChar I.toUnicodeTables (reprQuote s)) ++ [reprQuote s]) = .done s [] := by
    rw [scanString_flatMap _ hq, scanString_plain, if_pos rfl, foldr_push_done, List.append_nil]
  unfold strRepr
  rw [literalEval_quote I hq, hscan]

/-- A quoted string that is cut off before its closing quote is a syntax error. -/
theorem literalEval_unterminated (I : Interpreter) {q : CodePoint} (hq : IsQuote q)
    (s : PyStr) :
    literalEval I (q :: s.flatMap (reprChar I.toUnicodeTables q)) = none := by
  have hscan := scanString_flatMap I.toUnicodeTables hq s []
  have hnil : scanString q .plain [] = .syntaxError := rfl
  rw [List.append_nil, hnil, foldr_push_syntaxError] at hscan
  rw [literalEval_quote I hq, hscan]

/-! ## §5. Reading back the `repr` of an integer. -/

theorem decDigit_val {d : Nat} (hd : d < 10) : (decDigit d).val = 48 + d := by
  simp [decDigit, hd]

theorem isDecDigit_decDigit {d : Nat} (hd : d < 10) : isDecDigit (decDigit d) = true := by
  simp only [isDecDigit, decDigit_val hd, Bool.and_eq_true, decide_eq_true_eq]
  omega

theorem decimalValue_reverse_digits (ds : List Nat) (hds : ∀ d ∈ ds, d < 10) :
    decimalValue ((ds.map decDigit).reverse) = Nat.ofDigits 10 ds := by
  unfold decimalValue
  rw [List.foldl_reverse]
  induction ds with
  | nil => rfl
  | cons d ds ih =>
    have hd := hds d (by simp)
    rw [List.map_cons, List.foldr_cons, ih (fun x hx => hds x (by simp [hx])),
      decDigit_val hd, Nat.ofDigits_cons]
    omega

theorem decimalValue_decimal (n : Nat) : decimalValue (decimal n) = n := by
  unfold decimal
  split
  · next h => rw [h]; rfl
  · rw [decimalValue_reverse_digits _ (fun d hd => Nat.digits_lt_base (by omega) hd),
      Nat.ofDigits_digits]

theorem decDigit_of_isDecDigit {c : CodePoint} (hc : isDecDigit c = true) :
    decDigit (c.val - 48) = c := by
  unfold isDecDigit at hc
  simp only [Bool.and_eq_true, decide_eq_true_eq] at hc
  unfold decDigit
  rw [dif_pos (by omega)]
  apply Fin.ext
  show 48 + (c.val - 48) = c.val
  omega

/-- A canonical decimal is the decimal of its value. -/
theorem decimal_decimalValue {s : PyStr} (h : isDecimal s = true) :
    decimal (decimalValue s) = s := by
  cases s with
  | nil => cases h
  | cons c cs =>
    unfold isDecimal at h
    simp only [Bool.and_eq_true, Bool.or_eq_true, List.all_eq_true] at h
    obtain ⟨⟨hc, hcs⟩, hzero⟩ := h
    have hdigits : ∀ d ∈ c :: cs, isDecDigit d = true := by
      intro d hd
      rcases List.mem_cons.mp hd with rfl | hd
      · exact hc
      · exact hcs d hd
    -- the digits, least significant first
    let ds := ((c :: cs).map fun d => d.val - 48).reverse
    have hlt : ∀ d ∈ ds, d < 10 := by
      intro d hd
      obtain ⟨x, hx, rfl⟩ := List.mem_map.mp (List.mem_reverse.mp hd)
      have hrange := hdigits x hx
      unfold isDecDigit at hrange
      simp only [Bool.and_eq_true, decide_eq_true_eq] at hrange
      show x.val - 48 < 10
      omega
    have hs : (ds.map decDigit).reverse = c :: cs := by
      show ((((c :: cs).map fun d => d.val - 48).reverse).map decDigit).reverse = _
      rw [List.map_reverse, List.reverse_reverse, List.map_map]
      rw [← List.map_id (c :: cs), List.map_map]
      apply List.map_congr_left
      intro d hd
      exact decDigit_of_isDecDigit (hdigits d hd)
    have hvalue := decimalValue_reverse_digits ds hlt
    rw [hs] at hvalue
    by_cases hfirst : c.val - 48 = 0
    · -- `0` itself
      have hc0 : c = cp '0' := by
        rw [← decDigit_of_isDecDigit hc, hfirst]
        rfl
      have hnil : cs = [] := by
        rcases hzero with hne | hempty
        · exact absurd hc0 (by simpa using hne)
        · simpa using hempty
      rw [hnil, hc0]
      rfl
    · have hlast : ∀ hne : ds ≠ [], ds.getLast hne ≠ 0 := by
        intro hne
        have hds : ds = (cs.map fun d => d.val - 48).reverse ++ [c.val - 48] := by
          show ((c :: cs).map fun d => d.val - 48).reverse = _
          rw [List.map_cons, List.reverse_cons]
        simp [hds, hfirst]
      have hback := Nat.digits_ofDigits 10 (by omega) ds hlt hlast
      rw [← hvalue] at hback
      have hpos : decimalValue (c :: cs) ≠ 0 := by
        intro h0
        rw [h0] at hback
        simp [ds] at hback
      unfold decimal
      rw [if_neg hpos, hback, hs]

/-- The decimal form is canonical: its first digit is `0` for zero only. -/
theorem isDecimal_decimal (n : Nat) : isDecimal (decimal n) = true := by
  unfold decimal
  split
  · decide
  · next hn =>
    have hlt : ∀ d ∈ Nat.digits 10 n, d < 10 := fun d hd => Nat.digits_lt_base (by omega) hd
    have hne : Nat.digits 10 n ≠ [] := Nat.digits_ne_nil_iff_ne_zero.mpr hn
    obtain ⟨ds, d, hds⟩ : ∃ ds d, Nat.digits 10 n = ds ++ [d] :=
      ⟨_, _, (List.dropLast_append_getLast hne).symm⟩
    have hlast : d ≠ 0 := by
      have := Nat.getLast_digit_ne_zero 10 hn
      simpa [hds] using this
    have hd : d < 10 := hlt d (by simp [hds])
    rw [hds, List.map_append, List.reverse_append]
    simp only [List.map_cons, List.map_nil, List.reverse_cons, List.reverse_nil, List.nil_append,
      List.singleton_append, isDecimal, Bool.and_eq_true, Bool.or_eq_true, bne_iff_ne, ne_eq]
    refine ⟨⟨isDecDigit_decDigit hd, ?_⟩, Or.inl ?_⟩
    · rw [List.all_eq_true]
      intro c hc
      simp only [List.mem_reverse, List.mem_map] at hc
      obtain ⟨e, he, rfl⟩ := hc
      exact isDecDigit_decDigit (hlt e (by simp [hds, he]))
    · intro h
      have hv := congrArg Fin.val h
      rw [decDigit_val hd, cp_val] at hv
      exact hlast (by simpa using hv)

/-- A canonical decimal reaches the integer branch of `literal_eval`. -/
theorem literalEval_decimal (I : Interpreter) {s : PyStr} (hs : isDecimal s = true) :
    literalEval I s = (evalDecimal I.maxStrDigits s).map fun n : Nat => .int n := by
  cases s with
  | nil => cases hs
  | cons c cs =>
    have hc : isDecDigit c = true := by
      simp only [isDecimal, Bool.and_eq_true] at hs
      exact hs.1.1
    have hne : ∀ d : CodePoint, isDecDigit d = false → c ≠ d := by
      rintro d hd rfl
      rw [hc] at hd
      cases hd
    have hword : ∀ d w, isDecDigit d = false → c :: cs ≠ d :: w := by
      intro d w hd heq
      exact hne d hd (List.cons.inj heq).1
    have hn : c :: cs ≠ py "None" := hword (cp 'N') _ (by decide)
    have ht : c :: cs ≠ py "True" := hword (cp 'T') _ (by decide)
    have hf : c :: cs ≠ py "False" := hword (cp 'F') _ (by decide)
    have hq : ¬ (c = cp '\'' ∨ c = cp '"') := by
      rintro (h | h)
      · exact hne _ (by decide) h
      · exact hne _ (by decide) h
    have hkeep : (c :: cs).dropWhile (fun c => c == cp ' ' || c == cp '\t') = c :: cs := by
      refine List.dropWhile_cons_of_neg ?_
      rw [Bool.or_eq_true, beq_iff_eq, beq_iff_eq]
      rintro (h | h)
      · exact hne _ (by decide) h
      · exact hne _ (by decide) h
    unfold literalEval
    simp only [hkeep, if_neg hn, if_neg ht, if_neg hf, if_neg hq, if_pos hs]

/-- A minus sign before a canonical decimal negates it. -/
theorem literalEval_neg_decimal (I : Interpreter) {s : PyStr} (hs : isDecimal s = true) :
    literalEval I (cp '-' :: s) = (evalDecimal I.maxStrDigits s).map fun n : Nat => .int (-n) := by
  have hword : ∀ d w, cp '-' ≠ d → cp '-' :: s ≠ d :: w := by
    intro d w hne heq
    exact hne (List.cons.inj heq).1
  have hn : cp '-' :: s ≠ py "None" := hword (cp 'N') _ (by decide)
  have ht : cp '-' :: s ≠ py "True" := hword (cp 'T') _ (by decide)
  have hf : cp '-' :: s ≠ py "False" := hword (cp 'F') _ (by decide)
  have hq : ¬ (cp '-' = cp '\'' ∨ cp '-' = cp '"') := by decide
  have hkeep : (cp '-' :: s).dropWhile (fun c => c == cp ' ' || c == cp '\t') = cp '-' :: s := by
    rfl
  have hdec : ¬ (isDecimal (cp '-' :: s) = true) := by
    simp [isDecimal, show isDecDigit (cp '-') = false by decide]
  unfold literalEval
  simp only [hkeep, if_neg hn, if_neg ht, if_neg hf, if_neg hq, if_neg hdec, hs, and_true, if_true]

/-- `literal_eval(repr(i)) == i` whenever `repr(i)` does not raise. -/
theorem literalEval_intRepr (I : Interpreter) {i : Int} {s : PyStr}
    (h : intRepr I.maxStrDigits i = some s) : literalEval I s = some (.int i) := by
  unfold intRepr at h
  split at h
  · cases h
  next hlim =>
    rw [Option.some.injEq] at h
    have hval : evalDecimal I.maxStrDigits (decimal i.natAbs) = some i.natAbs := by
      rw [evalDecimal, if_neg hlim, decimalValue_decimal]
    subst h
    split
    · next hneg =>
      rw [literalEval_neg_decimal I (isDecimal_decimal _), hval]
      simp only [Option.map_some, Option.some.injEq, Literal.int.injEq]
      omega
    · next hpos =>
      rw [literalEval_decimal I (isDecimal_decimal _), hval]
      simp only [Option.map_some, Option.some.injEq, Literal.int.injEq]
      omega

end SeamlessCore.Python
