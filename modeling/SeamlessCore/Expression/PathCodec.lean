/-
  SeamlessCore.Expression.PathCodec — what the path writers write, the path
  parser reads back, and exactly where it does not.

  Every access step appends one chunk to the path.  The file first follows
  the three scanners (names, brackets, slices) over one chunk, then folds
  along the steps.  Two kinds of string keys break the codec: a key with a
  colon, whose bracketed form is taken for a slice, and an identifier with a
  character that `isalnum` rejects, which the name scanner stops at.

  Main results:
    * `parseStep_stepText` / `parsePath_unreadable` — one good / bad chunk;
    * `roundTrips_iff_readable` — a path is read back iff every step is readable;
    * `pathCodec_iff` — the same, with the join of Expression fusion.
-/
import SeamlessCore.Expression.Path

namespace SeamlessCore.Expression

open SeamlessCore.Python

/-! ## §1. The readable steps. -/

/-- `repr(i)` does not raise. -/
def FitsDigits (I : Interpreter) (i : Int) : Prop :=
  I.maxStrDigits = 0 ∨ (decimal i.natAbs).length ≤ I.maxStrDigits

/-- The keys that survive writing and reading. -/
def KeyReadable (I : Interpreter) : AccessKey → Prop
  | .str s => cp ':' ∉ s ∧ (I.isIdentifier s = true → ∀ c ∈ s, isNameChar I c = true)
  | .int i => FitsDigits I i
  | .bool _ => True
  | .none => True

/-- The steps that survive writing and reading. -/
def StepReadable (I : Interpreter) : AccessStep → Prop
  | .item key => KeyReadable I key
  | .slice start stop step =>
    ∀ bound ∈ [start, stop, step], ∀ i, bound = some i → FitsDigits I i

/-- The codec property at one sequence of steps. -/
def RoundTrips (I : Interpreter) (steps : List AccessStep) : Prop :=
  ∃ path, buildPath I steps = some path ∧
    parsePath I path = .ok (steps.map AccessStep.toPathStep)

/-- The fusion property at two sequences of steps. -/
def FusesTo (I : Interpreter) (p q : List AccessStep) : Prop :=
  ∃ inner path, buildPath I p = some inner ∧ buildPath I q = some path ∧
    ∃ ps qs, parsePath I inner = .ok ps ∧ parsePath I path = .ok qs ∧
      parsePath I (fusePath inner path) = .ok (ps ++ qs)

theorem intRepr_isSome_iff (I : Interpreter) (i : Int) :
    (∃ s, intRepr I.maxStrDigits i = some s) ↔ FitsDigits I i := by
  unfold intRepr FitsDigits
  split
  · next h => simp only [reduceCtorEq, exists_false, false_iff]; omega
  · next h => simp only [Option.some.injEq, exists_eq', true_iff]; omega

/-! ## §2. The chunk of a step. -/

/-- What a step writes between brackets. -/
def tokenText (I : Interpreter) : AccessStep → Option PyStr
  | .item key => reprKey I key
  | .slice start stop .none => do
    let a ← reprBound I start
    let b ← reprBound I stop
    some (joinColon [a, b])
  | .slice start stop (some i) => do
    let a ← reprBound I start
    let b ← reprBound I stop
    let c ← intRepr I.maxStrDigits i
    some (joinColon [a, b, c])

/-- What a step adds to the path; `first` says that the path is still empty. -/
def stepText (I : Interpreter) (first : Bool) (s : AccessStep) : Option PyStr :=
  match s with
  | .item (.str name) =>
    if I.isIdentifier name then some ((if first then [] else [cp '.']) ++ name)
    else (tokenText I s).map bracketed
  | s => (tokenText I s).map bracketed

/-- A chunk is an identifier, or a token between brackets. -/
theorem stepText_cases {I : Interpreter} {first : Bool} {s : AccessStep} {a : PyStr}
    (h : stepText I first s = some a) :
    (∃ name, s = .item (.str name) ∧ I.isIdentifier name = true ∧
      a = (if first then [] else [cp '.']) ++ name) ∨
    (∃ token, tokenText I s = some token ∧ a = bracketed token ∧
      ∀ name, s = .item (.str name) → I.isIdentifier name = false) := by
  unfold stepText at h
  split at h
  · next name =>
    split at h
    · next hid =>
      rw [Option.some.injEq] at h
      exact Or.inl ⟨name, rfl, hid, h.symm⟩
    · next hid =>
      obtain ⟨token, ht, ha⟩ := Option.map_eq_some_iff.mp h
      refine Or.inr ⟨token, ht, ha.symm, ?_⟩
      intro name' hname
      cases hname
      simpa using hid
  · next hstr =>
    obtain ⟨token, ht, ha⟩ := Option.map_eq_some_iff.mp h
    exact Or.inr ⟨token, ht, ha.symm, fun name hname => absurd hname (hstr name)⟩

theorem appendStep_eq (I : Interpreter) (path : PyStr) (s : AccessStep) :
    appendStep I path s = (stepText I (decide (path = [])) s).map (path ++ ·) := by
  cases s with
  | item key =>
    cases key with
    | str s =>
      by_cases hid : I.isIdentifier s = true
      · simp [appendStep, appendItemPath, stepText, hid]
      · simp [appendStep, appendItemPath, stepText, tokenText, hid, reprKey]
    | int i => simp [appendStep, appendItemPath, stepText, tokenText, Function.comp_def]
    | bool b => simp [appendStep, appendItemPath, stepText, tokenText, Function.comp_def]
    | none => simp [appendStep, appendItemPath, stepText, tokenText, Function.comp_def]
  | slice start stop step =>
    cases step with
    | none =>
      cases ha : reprBound I start <;> cases hb : reprBound I stop <;>
        simp [appendStep, appendSlicePath, stepText, tokenText, ha, hb]
    | some i =>
      cases ha : reprBound I start <;> cases hb : reprBound I stop <;>
        cases hc : intRepr I.maxStrDigits i <;>
        simp [appendStep, appendSlicePath, stepText, tokenText, ha, hb, hc]

/-- The texts that may follow a chunk: nothing, or the next chunk. -/
def Boundary : PyStr → Prop
  | [] => True
  | c :: _ => c = cp '.' ∨ c = cp '['

theorem identifier_ne_nil {I : Interpreter} {name : PyStr} (h : I.isIdentifier name = true) :
    name ≠ [] := by
  rintro rfl
  cases h

theorem stepText_ne_nil {I : Interpreter} {first : Bool} {s : AccessStep} {a : PyStr}
    (h : stepText I first s = some a) : a ≠ [] := by
  rcases stepText_cases h with ⟨name, -, hid, ha⟩ | ⟨token, -, ha, -⟩
  · rw [ha]
    simp [identifier_ne_nil hid]
  · rw [ha]
    simp [bracketed]

/-- A chunk that is not the first starts with a separator. -/
theorem stepText_boundary {I : Interpreter} {s : AccessStep} {a : PyStr}
    (h : stepText I false s = some a) (rest : PyStr) : Boundary (a ++ rest) := by
  rcases stepText_cases h with ⟨name, -, -, ha⟩ | ⟨token, -, ha, -⟩
  · rw [ha]
    exact Or.inl rfl
  · rw [ha]
    exact Or.inr rfl

/-- The chunks of a sequence of steps. -/
def pathText (I : Interpreter) : (first : Bool) → List AccessStep → Option PyStr
  | _, [] => some []
  | first, s :: ss => do
    let a ← stepText I first s
    let b ← pathText I false ss
    some (a ++ b)

theorem pathText_cons {I : Interpreter} {first : Bool} {s : AccessStep} {ss : List AccessStep}
    {path : PyStr} (h : pathText I first (s :: ss) = some path) :
    ∃ a b, stepText I first s = some a ∧ pathText I false ss = some b ∧ path = a ++ b := by
  simp only [pathText, Option.bind_eq_bind, Option.bind_eq_some_iff, Option.some.injEq] at h
  obtain ⟨a, ha, b, hb, hab⟩ := h
  exact ⟨a, b, ha, hb, hab.symm⟩

theorem pathText_boundary {I : Interpreter} {ss : List AccessStep} {path : PyStr}
    (h : pathText I false ss = some path) : Boundary path := by
  cases ss with
  | nil =>
    simp only [pathText, Option.some.injEq] at h
    rw [← h]
    trivial
  | cons s ss =>
    obtain ⟨a, b, ha, -, rfl⟩ := pathText_cons h
    exact stepText_boundary ha b

theorem foldlM_appendStep (I : Interpreter) (steps : List AccessStep) :
    ∀ path : PyStr, steps.foldlM (appendStep I) path
      = (pathText I (decide (path = [])) steps).map (path ++ ·) := by
  induction steps with
  | nil => intro path; simp [pathText]
  | cons s ss ih =>
    intro path
    rw [List.foldlM_cons, appendStep_eq]
    cases ha : stepText I (decide (path = [])) s with
    | none => simp [pathText, ha]
    | some a =>
      have hne : ¬ (path ++ a = []) := by simp [stepText_ne_nil ha]
      simp only [Option.map_some, Option.bind_eq_bind, Option.bind_some, ih, hne, decide_false,
        pathText, ha]
      cases pathText I false ss <;> simp

theorem buildPath_eq (I : Interpreter) (steps : List AccessStep) :
    buildPath I steps = pathText I true steps := by
  unfold buildPath
  rw [foldlM_appendStep]
  simp

/-! ## §3. The bracket scanner on one token. -/

/-- Inside quotes the scanner passes over characters that are neither the
quote nor a backslash. -/
theorem findClosingBracket_inside (q : CodePoint) (w rest : PyStr)
    (hw : ∀ c ∈ w, c ≠ q ∧ c ≠ cp '\\') :
    findClosingBracket (some q) false (w ++ rest)
      = (findClosingBracket (some q) false rest).map (· + w.length) := by
  induction w with
  | nil => simp
  | cons c cs ih =>
    obtain ⟨hq, hb⟩ := hw c (by simp)
    rw [List.cons_append, findClosingBracket, if_neg hb, if_neg hq,
      ih (fun d hd => hw d (by simp [hd])), Option.map_map]
    congr 1

/-- Outside quotes the scanner passes over characters that are neither quotes
nor a closing bracket. -/
theorem findClosingBracket_outside (w rest : PyStr)
    (hw : ∀ c ∈ w, ¬ IsQuote c ∧ c ≠ cp ']') :
    findClosingBracket none false (w ++ rest)
      = (findClosingBracket none false rest).map (· + w.length) := by
  induction w with
  | nil => simp
  | cons c cs ih =>
    obtain ⟨hq, hb⟩ := hw c (by simp)
    have hq' : ¬ (c = cp '\'' ∨ c = cp '"') := hq
    rw [List.cons_append, findClosingBracket, if_neg hq', if_neg hb,
      ih (fun d hd => hw d (by simp [hd])), Option.map_map]
    congr 1

/-- The scanner passes over one escaped character. -/
theorem findClosingBracket_reprChar (u : UnicodeTables) {q : CodePoint} (hq : IsQuote q)
    (c : CodePoint) (rest : PyStr) :
    findClosingBracket (some q) false (reprChar u q c ++ rest)
      = (findClosingBracket (some q) false rest).map (· + (reprChar u q c).length) := by
  rcases reprChar_cases u hq c with ⟨h, hcq, hcb, -, -⟩ | ⟨e, h, -⟩ | ⟨m, k, h, -, -, -, -⟩
  · rw [h]
    refine findClosingBracket_inside q [c] rest ?_
    intro d hd
    rw [List.mem_singleton] at hd
    rw [hd]
    exact ⟨hcq, hcb⟩
  · rw [h]
    simp only [List.cons_append, List.nil_append, findClosingBracket, if_true, Option.map_map]
    congr 1
  · have hhex : ∀ d ∈ hexDigits k c.val, d ≠ q ∧ d ≠ cp '\\' := by
      intro d hd
      obtain ⟨n, rfl⟩ := mem_hexDigits hd
      have hv := hexDigit_val n
      constructor
      · rintro rfl
        rcases hq with hq | hq <;> rw [hq] at hv <;> revert hv <;> decide
      · intro heq
        rw [heq] at hv
        revert hv
        decide
    rw [h]
    simp only [List.cons_append, findClosingBracket, if_true, Option.map_map,
      findClosingBracket_inside q _ rest hhex, List.length_cons]
    congr 1

theorem findClosingBracket_flatMap (u : UnicodeTables) {q : CodePoint} (hq : IsQuote q)
    (s rest : PyStr) :
    findClosingBracket (some q) false (s.flatMap (reprChar u q) ++ rest)
      = (findClosingBracket (some q) false rest).map
          (· + (s.flatMap (reprChar u q)).length) := by
  induction s with
  | nil => simp
  | cons c cs ih =>
    rw [List.flatMap_cons, List.append_assoc, findClosingBracket_reprChar u hq, ih,
      Option.map_map, List.length_append]
    congr 1
    funext n
    simp only [Function.comp_apply]
    omega

/-- The scanner finds the bracket after the `repr` of a string. -/
theorem findClosingBracket_strRepr (u : UnicodeTables) (s rest : PyStr) :
    findClosingBracket none false (strRepr u s ++ cp ']' :: rest)
      = some (strRepr u s).length := by
  have hq := reprQuote_isQuote s
  have hq' : reprQuote s = cp '\'' ∨ reprQuote s = cp '"' := hq
  have hqb : reprQuote s ≠ cp '\\' := by rcases hq with h | h <;> rw [h] <;> decide
  have hclose : ¬ (cp ']' = cp '\'' ∨ cp ']' = cp '"') := by decide
  unfold strRepr
  rw [List.cons_append, List.append_assoc, findClosingBracket, if_pos hq',
    findClosingBracket_flatMap u hq, List.cons_append, List.nil_append, findClosingBracket,
    if_neg hqb, if_pos rfl, findClosingBracket, if_neg hclose, if_pos rfl]
  simp [Nat.add_comm]

/-! ### Tokens without quotes. -/

/-- The characters of numbers, words and slices. -/
def isWordChar (c : CodePoint) : Bool :=
  asciiAlnum c.val || c == cp '-' || c == cp ':'

theorem findClosingBracket_word (w rest : PyStr) (hw : ∀ c ∈ w, isWordChar c = true) :
    findClosingBracket none false (w ++ cp ']' :: rest) = some w.length := by
  have hout : ∀ c ∈ w, ¬ IsQuote c ∧ c ≠ cp ']' := by
    intro c hc
    have hwc := hw c hc
    refine ⟨?_, ?_⟩
    · rintro (h | h) <;> rw [h] at hwc <;> revert hwc <;> decide
    · intro h
      rw [h] at hwc
      revert hwc
      decide
  rw [findClosingBracket_outside w _ hout, findClosingBracket, if_neg (by decide), if_pos rfl]
  simp

theorem decimal_chars {n : Nat} {c : CodePoint} (hc : c ∈ decimal n) : isDecDigit c = true := by
  unfold decimal at hc
  split at hc
  · rw [List.mem_singleton] at hc
    rw [hc]
    decide
  · simp only [List.mem_reverse, List.mem_map] at hc
    obtain ⟨d, hd, rfl⟩ := hc
    exact isDecDigit_decDigit (Nat.digits_lt_base (by omega) hd)

theorem decimal_ne_nil (n : Nat) : decimal n ≠ [] := by
  intro h
  have := isDecimal_decimal n
  rw [h] at this
  cases this

/-- The `repr` of an integer: not empty, and digits with a minus sign at most. -/
theorem intRepr_chars {I : Interpreter} {i : Int} {s : PyStr}
    (h : intRepr I.maxStrDigits i = some s) :
    s ≠ [] ∧ ∀ c ∈ s, isDecDigit c = true ∨ c = cp '-' := by
  unfold intRepr at h
  split at h
  · cases h
  · rw [Option.some.injEq] at h
    subst h
    split
    · refine ⟨by simp, fun c hc => ?_⟩
      rcases List.mem_cons.mp hc with h | h
      · exact Or.inr h
      · exact Or.inl (decimal_chars h)
    · exact ⟨decimal_ne_nil _, fun c hc => Or.inl (decimal_chars hc)⟩

theorem reprBound_chars {I : Interpreter} {b : Option Int} {s : PyStr}
    (h : reprBound I b = some s) : ∀ c ∈ s, isDecDigit c = true ∨ c = cp '-' := by
  cases b with
  | none =>
    simp only [reprBound, Option.some.injEq] at h
    simp [← h]
  | some i => exact (intRepr_chars h).2

theorem isWordChar_of_digit {c : CodePoint} (h : isDecDigit c = true ∨ c = cp '-') :
    isWordChar c = true := by
  rcases h with h | h
  · simp only [isDecDigit, Bool.and_eq_true, decide_eq_true_eq] at h
    simp [isWordChar, asciiAlnum, h.1, h.2]
  · rw [h]
    decide

theorem ne_colon_of_digit {c : CodePoint} (h : isDecDigit c = true ∨ c = cp '-') :
    c ≠ cp ':' := by
  rintro rfl
  revert h
  decide

/-- The parts of a slice token: two bounds, and the step if it is not `None`. -/
theorem tokenText_slice {I : Interpreter} {start stop step : Option Int} {t : PyStr}
    (h : tokenText I (.slice start stop step) = some t) :
    ∃ a b cs, reprBound I start = some a ∧ reprBound I stop = some b ∧
      t = joinColon (a :: b :: cs) ∧
      ((step = none ∧ cs = []) ∨ ∃ i c, step = some i ∧ intRepr I.maxStrDigits i = some c ∧
        cs = [c]) := by
  cases step with
  | none =>
    simp only [tokenText, Option.bind_eq_bind, Option.bind_eq_some_iff, Option.some.injEq] at h
    obtain ⟨a, ha, b, hb, ht⟩ := h
    exact ⟨a, b, [], ha, hb, ht.symm, Or.inl ⟨rfl, rfl⟩⟩
  | some i =>
    simp only [tokenText, Option.bind_eq_bind, Option.bind_eq_some_iff, Option.some.injEq] at h
    obtain ⟨a, ha, b, hb, c, hc, ht⟩ := h
    exact ⟨a, b, [c], ha, hb, ht.symm, Or.inr ⟨i, c, rfl, hc, rfl⟩⟩

/-- Every part of a slice token is made of digits and minus signs. -/
theorem slice_parts_chars {I : Interpreter} {start stop step : Option Int} {a b : PyStr}
    {cs : List PyStr} (ha : reprBound I start = some a) (hb : reprBound I stop = some b)
    (hcs : (step = none ∧ cs = []) ∨ ∃ i c, step = some i ∧
      intRepr I.maxStrDigits i = some c ∧ cs = [c]) :
    ∀ part ∈ a :: b :: cs, ∀ c ∈ part, isDecDigit c = true ∨ c = cp '-' := by
  intro part hpart
  rcases List.mem_cons.mp hpart with rfl | hpart
  · exact reprBound_chars ha
  rcases List.mem_cons.mp hpart with rfl | hpart
  · exact reprBound_chars hb
  rcases hcs with ⟨-, rfl⟩ | ⟨i, c, -, hc, rfl⟩
  · cases hpart
  · rw [List.mem_singleton] at hpart
    rw [hpart]
    exact (intRepr_chars hc).2

theorem mem_joinColon {parts : List PyStr} {c : CodePoint} (h : c ∈ joinColon parts) :
    c = cp ':' ∨ ∃ part ∈ parts, c ∈ part := by
  induction parts with
  | nil => simp [joinColon] at h
  | cons p ps ih =>
    cases ps with
    | nil =>
      simp only [joinColon, List.intercalate_singleton] at h
      exact Or.inr ⟨p, by simp, h⟩
    | cons q qs =>
      simp only [joinColon, List.intercalate_cons_cons, List.mem_append, List.mem_singleton] at h
      rcases h with (h | h) | h
      · exact Or.inr ⟨p, by simp, h⟩
      · exact Or.inl h
      · rcases ih h with h | ⟨part, hpart, hc⟩
        · exact Or.inl h
        · exact Or.inr ⟨part, by simp [hpart], hc⟩

/-- The scanner finds the bracket after the token of any step. -/
theorem findClosingBracket_token {I : Interpreter} {s : AccessStep} {t : PyStr}
    (h : tokenText I s = some t) (rest : PyStr) :
    findClosingBracket none false (t ++ cp ']' :: rest) = some t.length := by
  cases s with
  | item key =>
    cases key with
    | str name =>
      simp only [tokenText, reprKey, Option.some.injEq] at h
      rw [← h]
      exact findClosingBracket_strRepr _ _ _
    | int i =>
      exact findClosingBracket_word t rest
        (fun c hc => isWordChar_of_digit ((intRepr_chars h).2 c hc))
    | bool b =>
      have hword : (py "True").all isWordChar = true ∧ (py "False").all isWordChar = true := by
        decide
      cases b with
      | true =>
        simp only [tokenText, reprKey, Option.some.injEq] at h
        rw [← h]
        exact findClosingBracket_word _ rest (List.all_eq_true.mp hword.1)
      | false =>
        simp only [tokenText, reprKey, Option.some.injEq] at h
        rw [← h]
        exact findClosingBracket_word _ rest (List.all_eq_true.mp hword.2)
    | none =>
      have hword : (py "None").all isWordChar = true := by decide
      simp only [tokenText, reprKey, Option.some.injEq] at h
      rw [← h]
      exact findClosingBracket_word _ rest (List.all_eq_true.mp hword)
  | slice start stop step =>
    obtain ⟨a, b, cs, ha, hb, rfl, hcs⟩ := tokenText_slice h
    refine findClosingBracket_word _ rest (fun c hc => ?_)
    rcases mem_joinColon hc with rfl | ⟨part, hpart, hc⟩
    · decide
    · exact isWordChar_of_digit (slice_parts_chars ha hb hcs part hpart c hc)

/-! ## §4. The token parser on one token. -/

theorem parseSlicePart_reprBound {I : Interpreter} {bound : Option Int} {a : PyStr}
    (h : reprBound I bound = some a) : parseSlicePart I a = some (boundLiteral bound) := by
  cases bound with
  | none =>
    simp only [reprBound, Option.some.injEq] at h
    rw [← h]
    rfl
  | some i =>
    unfold parseSlicePart
    rw [if_neg (intRepr_chars h).1]
    exact literalEval_intRepr I h

/-- A slice token is read back as the slice. -/
theorem parseBracketToken_slice {I : Interpreter} {start stop step : Option Int} {t : PyStr}
    (h : tokenText I (.slice start stop step) = some t) :
    parseBracketToken I t = .ok (AccessStep.slice start stop step).toPathStep := by
  obtain ⟨a, b, cs, ha, hb, rfl, hcs⟩ := tokenText_slice h
  have hcolon : cp ':' ∈ joinColon (a :: b :: cs) := by
    simp [joinColon, List.intercalate_cons_cons]
  have hsplit : (joinColon (a :: b :: cs)).splitOn (cp ':') = a :: b :: cs := by
    refine List.splitOn_intercalate _ (fun part hpart hc => ?_) (by simp)
    exact ne_colon_of_digit (slice_parts_chars ha hb hcs part hpart _ hc) rfl
  have hpa := parseSlicePart_reprBound ha
  have hpb := parseSlicePart_reprBound hb
  unfold parseBracketToken parseSlice
  rw [if_pos hcolon, hsplit]
  rcases hcs with ⟨rfl, rfl⟩ | ⟨i, c, rfl, hc, rfl⟩
  · simp [hpa, hpb, AccessStep.toPathStep, boundLiteral]
  · have hpc : parseSlicePart I c = some (boundLiteral (some i)) :=
      @parseSlicePart_reprBound I (some i) c hc
    simp [hpa, hpb, hpc, AccessStep.toPathStep]

/-- The bracketed form of a readable step is read back as that step. -/
theorem parseBracketToken_token {I : Interpreter} {s : AccessStep} {t : PyStr}
    (h : tokenText I s = some t) (hr : StepReadable I s) :
    parseBracketToken I t = .ok s.toPathStep := by
  cases s with
  | slice start stop step => exact parseBracketToken_slice h
  | item key =>
    cases key with
    | str name =>
      simp only [tokenText, reprKey, Option.some.injEq] at h
      have hcolon : cp ':' ∉ t := by
        rw [← h]
        exact colon_not_mem_strRepr _ hr.1
      unfold parseBracketToken
      rw [if_neg hcolon, ← h, literalEval_strRepr]
      rfl
    | int i =>
      have hcolon : cp ':' ∉ t := fun hc => ne_colon_of_digit ((intRepr_chars h).2 _ hc) rfl
      unfold parseBracketToken
      rw [if_neg hcolon, literalEval_intRepr I h]
      rfl
    | bool b =>
      cases b <;> simp only [tokenText, reprKey, Option.some.injEq] at h <;> rw [← h] <;> rfl
    | none =>
      simp only [tokenText, reprKey, Option.some.injEq] at h
      rw [← h]
      rfl

/-- Escaping leaves a colon alone. -/
theorem reprChar_colon (u : UnicodeTables) {q : CodePoint} (hq : IsQuote q) :
    reprChar u q (cp ':') = [cp ':'] := by
  rcases hq with rfl | rfl <;> rfl

/-- A string key with a colon is not read back: the text up to its first
colon is taken for a slice bound, and is a string without its closing quote. -/
theorem parseBracketToken_colon (I : Interpreter) {name : PyStr} (h : cp ':' ∈ name) :
    ∃ e, parseBracketToken I (strRepr I.toUnicodeTables name) = .error e := by
  have hq := reprQuote_isQuote name
  obtain ⟨p, r, hname, hp⟩ := List.eq_append_cons_of_mem h
  -- the token around the first colon
  set q := reprQuote name with hqdef
  set head := q :: p.flatMap (reprChar I.toUnicodeTables q) with hhead
  set tail := r.flatMap (reprChar I.toUnicodeTables q) ++ [q] with htail
  have htoken : strRepr I.toUnicodeTables name = head ++ cp ':' :: tail := by
    unfold strRepr
    rw [← hqdef, hname, List.flatMap_append, List.flatMap_cons, reprChar_colon _ hq]
    simp [hhead, htail]
  have hhc : cp ':' ∉ head := by
    have hne : cp ':' ≠ q := by
      intro heq
      rw [← heq] at hq
      rcases hq with hq | hq <;> exact absurd hq (by decide)
    have hbody : cp ':' ∉ p.flatMap (reprChar I.toUnicodeTables q) := by
      intro hmem
      obtain ⟨c, hc, hcolon⟩ := List.mem_flatMap.mp hmem
      rw [colon_mem_reprChar _ hq] at hcolon
      exact hp (hcolon ▸ hc)
    simp [hhead, hne, hbody]
  have hpart : parseSlicePart I head = none := by
    unfold parseSlicePart
    rw [if_neg (by simp [hhead]), hhead]
    exact literalEval_unterminated I hq p
  have hcolon : cp ':' ∈ head ++ cp ':' :: tail := by simp
  unfold parseBracketToken parseSlice
  rw [htoken, if_pos hcolon, List.splitOn_append_cons_self_of_not_mem hhc]
  by_cases hlen : 3 < (head :: tail.splitOn (cp ':')).length
  · exact ⟨_, by rw [if_pos hlen]⟩
  · refine ⟨.invalidSliceToken (head ++ cp ':' :: tail), ?_⟩
    rw [if_neg hlen]
    simp [hpart]

/-! ## §5. One turn of the loop on one chunk. -/

theorem Boundary.not_nameChar {I : Interpreter} {c : CodePoint} {cs : PyStr}
    (h : Boundary (c :: cs)) : isNameChar I c = false := by
  rcases (h : c = cp '.' ∨ c = cp '[') with rfl | rfl
  · have halnum := I.isAlnum_ascii (cp '.') (by decide)
    unfold isNameChar
    rw [halnum]
    decide
  · have halnum := I.isAlnum_ascii (cp '[') (by decide)
    unfold isNameChar
    rw [halnum]
    decide

/-- The name scanner takes a readable identifier whole. -/
theorem parseName_good {I : Interpreter} {name rest : PyStr} (hid : I.isIdentifier name = true)
    (hall : ∀ c ∈ name, isNameChar I c = true) (hrest : Boundary rest) (start : Nat) :
    parseName I start (name ++ rest) = .ok (.item (.str name), rest) := by
  have hstop : rest.takeWhile (isNameChar I) = [] ∧ rest.dropWhile (isNameChar I) = rest := by
    cases rest with
    | nil => exact ⟨rfl, rfl⟩
    | cons c cs =>
      have hc : isNameChar I c = false := hrest.not_nameChar
      simp [hc]
  unfold parseName
  simp only [List.takeWhile_append_of_pos hall, List.dropWhile_append_of_pos hall, hstop.1,
    hstop.2, List.append_nil, hid, identifier_ne_nil hid]
  simp

/-- The name scanner stops inside an identifier with a character that
`isalnum` rejects, and what it leaves is no path segment. -/
theorem parseName_bad {I : Interpreter} {name : PyStr} (hid : I.isIdentifier name = true)
    (hbad : ∃ c ∈ name, isNameChar I c = false) (rest : PyStr) (start : Nat) :
    (∃ e, parseName I start (name ++ rest) = .error e) ∨
    ∃ step c cs, parseName I start (name ++ rest) = .ok (step, c :: cs) ∧
      c ≠ cp '.' ∧ c ≠ cp '[' ∧ isNameChar I c = false := by
  -- `c` is the first such character, `w` what the scanner takes
  obtain ⟨c, w, z, hname, hc, hw⟩ :
      ∃ c w z, name = w ++ c :: z ∧ isNameChar I c = false ∧ ∀ d ∈ w, isNameChar I d = true := by
    have hdrop : name.dropWhile (isNameChar I) ≠ [] := by
      intro hnil
      obtain ⟨c, hmem, hc⟩ := hbad
      have := List.dropWhile_eq_nil_iff.mp hnil c hmem
      rw [hc] at this
      cases this
    obtain ⟨c, z, hcz⟩ := List.exists_cons_of_ne_nil hdrop
    refine ⟨c, name.takeWhile (isNameChar I), z, ?_, ?_, ?_⟩
    · rw [← hcz, List.takeWhile_append_dropWhile]
    · have hhead := List.head?_dropWhile_not (isNameChar I) name
      rw [hcz] at hhead
      simpa using hhead
    · intro d hd
      exact List.mem_takeWhile_imp hd
  have hmem : c ∈ name := by simp [hname]
  have htake : (name ++ rest).takeWhile (isNameChar I) = w := by
    rw [hname, List.append_assoc, List.takeWhile_append_of_pos hw]
    simp [hc]
  have hleft : (name ++ rest).dropWhile (isNameChar I) = c :: (z ++ rest) := by
    rw [hname, List.append_assoc, List.dropWhile_append_of_pos hw]
    simp [hc]
  unfold parseName
  simp only [htake, hleft]
  by_cases hcond : w = [] ∨ I.isIdentifier w = false
  · exact Or.inl ⟨_, if_pos hcond⟩
  · refine Or.inr ⟨_, c, z ++ rest, if_neg hcond, ?_, ?_, hc⟩
    · rintro rfl
      exact I.not_mem_identifier hid (cp '.') (by decide) (by decide) hmem
    · rintro rfl
      exact I.not_mem_identifier hid (cp '[') (by decide) (by decide) hmem

/-- A segment cannot start with a character that is neither a separator nor
part of a name. -/
theorem parseStep_not_name {I : Interpreter} {c : CodePoint} (hd : c ≠ cp '.') (hb : c ≠ cp '[')
    (hc : isNameChar I c = false) (index : Nat) (cs : PyStr) :
    parseStep I index c cs = .error (.invalidSegment index) := by
  unfold parseStep parseName
  simp [hd, hb, hc]

/-- The turn on a bracketed chunk is the token parser. -/
theorem parseStep_bracketed {I : Interpreter} {s : AccessStep} {t : PyStr}
    (h : tokenText I s = some t) (index : Nat) (rest : PyStr) :
    parseStep I index (cp '[') (t ++ cp ']' :: rest)
      = (parseBracketToken I t).map fun step => (step, rest) := by
  unfold parseStep
  rw [if_neg (by decide), if_pos rfl]
  simp only [findClosingBracket_token h]
  have htake : (t ++ cp ']' :: rest).take t.length = t := by simp
  have hdrop : (t ++ cp ']' :: rest).drop (t.length + 1) = rest := by
    rw [← List.drop_drop, List.drop_left]
    rfl
  rw [htake, hdrop]

/-- The turn on an identifier chunk is the name scanner, whether or not the
chunk starts with a dot. -/
theorem parseStep_name {I : Interpreter} {name : PyStr} (hid : I.isIdentifier name = true)
    (first : Bool) (rest : PyStr) :
    ∃ c cs, (if first then [] else [cp '.']) ++ name ++ rest = c :: cs ∧
      ∀ index, ∃ start, parseStep I index c cs = parseName I start (name ++ rest) := by
  cases first with
  | false => exact ⟨cp '.', name ++ rest, by simp, fun index => ⟨index + 1, by simp [parseStep]⟩⟩
  | true =>
    obtain ⟨c, cs, rfl⟩ := List.exists_cons_of_ne_nil (identifier_ne_nil hid)
    have hdot : c ≠ cp '.' := by
      rintro rfl
      exact I.not_mem_identifier hid (cp '.') (by decide) (by decide) (by simp)
    have hbra : c ≠ cp '[' := by
      rintro rfl
      exact I.not_mem_identifier hid (cp '[') (by decide) (by decide) (by simp)
    exact ⟨c, cs ++ rest, by simp, fun index => ⟨index, by simp [parseStep, hdot, hbra]⟩⟩

/-- A readable chunk is read back as its step, and only the chunk is taken. -/
theorem parseStep_stepText {I : Interpreter} {first : Bool} {s : AccessStep} {a rest : PyStr}
    (h : stepText I first s = some a) (hr : StepReadable I s) (hrest : Boundary rest) :
    ∃ c cs, a ++ rest = c :: cs ∧
      ∀ index, parseStep I index c cs = .ok (s.toPathStep, rest) := by
  rcases stepText_cases h with ⟨name, rfl, hid, rfl⟩ | ⟨t, ht, rfl, -⟩
  · obtain ⟨c, cs, hcs, hstep⟩ := parseStep_name hid first rest
    refine ⟨c, cs, hcs, fun index => ?_⟩
    obtain ⟨start, hstart⟩ := hstep index
    rw [hstart, parseName_good hid (hr.2 hid) hrest]
    rfl
  · refine ⟨cp '[', t ++ cp ']' :: rest, by simp [bracketed], fun index => ?_⟩
    rw [parseStep_bracketed ht, parseBracketToken_token ht hr]
    rfl

/-! ## §6. The loop along the chunks. -/

theorem parsePathLoop_cons (I : Interpreter) (length fuel : Nat) (c : CodePoint) (cs : PyStr) :
    parsePathLoop I length (fuel + 1) (c :: cs)
      = (do
          let (step, rest) ← parseStep I (length - (c :: cs).length) c cs
          let steps ← parsePathLoop I length fuel rest
          .ok (step :: steps)) := rfl

/-- An unreadable chunk stops the parser with an error. -/
theorem parsePathLoop_unreadable {I : Interpreter} {first : Bool} {s : AccessStep} {a : PyStr}
    (h : stepText I first s = some a) (hr : ¬ StepReadable I s) (rest : PyStr)
    (length fuel : Nat) (hfuel : (a ++ rest).length ≤ fuel) :
    ∃ e, parsePathLoop I length fuel (a ++ rest) = .error e := by
  obtain ⟨fuel, rfl⟩ : ∃ n, fuel = n + 1 := by
    have := List.length_pos_of_ne_nil (stepText_ne_nil h)
    rw [List.length_append] at hfuel
    exact ⟨fuel - 1, by omega⟩
  rcases stepText_cases h with ⟨name, rfl, hid, rfl⟩ | ⟨t, ht, rfl, hstr⟩
  · -- an identifier is unreadable through its characters only
    have hcolon : cp ':' ∉ name := I.not_mem_identifier hid (cp ':') (by decide) (by decide)
    have hbad : ∃ c ∈ name, isNameChar I c = false := by
      by_contra hno
      push Not at hno
      exact hr ⟨hcolon, fun _ c hc => by simpa using hno c hc⟩
    obtain ⟨c, cs, hcs, hstep⟩ := parseStep_name hid first rest
    obtain ⟨start, hstart⟩ := hstep (length - (c :: cs).length)
    rw [hcs, parsePathLoop_cons, hstart]
    rcases parseName_bad hid hbad rest start with ⟨e, he⟩ | ⟨step, d, ds, hok, hdot, hbra, hd⟩
    · exact ⟨e, by rw [he]; rfl⟩
    · rw [hok]
      cases fuel with
      | zero => exact ⟨_, rfl⟩
      | succ fuel =>
        refine ⟨.invalidSegment (length - (d :: ds).length), ?_⟩
        show (do
          let steps ← parsePathLoop I length (fuel + 1) (d :: ds)
          Except.ok (step :: steps)) = _
        rw [parsePathLoop_cons, parseStep_not_name hdot hbra hd]
        rfl
  · -- a bracketed chunk is unreadable for its colon only
    have hname : ∃ name, s = .item (.str name) ∧ cp ':' ∈ name := by
      cases s with
      | slice start stop step =>
        exfalso
        obtain ⟨x, y, zs, hx, hy, -, hz⟩ := tokenText_slice ht
        refine hr ?_
        intro bound hbound i hi
        subst hi
        have hfits : ∀ b w, reprBound I b = some w → b = some i → FitsDigits I i := by
          rintro b w hw rfl
          exact (intRepr_isSome_iff I i).mp ⟨w, hw⟩
        simp only [List.mem_cons, List.not_mem_nil, or_false] at hbound
        rcases hbound with hb | hb | hb
        · exact hfits _ _ hx hb.symm
        · exact hfits _ _ hy hb.symm
        · rcases hz with ⟨hnone, -⟩ | ⟨j, w, hj, hw, -⟩
          · rw [hnone] at hb
            cases hb
          · exact hfits step w (by rw [hj]; exact hw) hb.symm
      | item key =>
        cases key with
        | str name =>
          refine ⟨name, rfl, ?_⟩
          by_contra hno
          have hid := hstr name rfl
          refine hr ⟨hno, fun h => ?_⟩
          rw [hid] at h
          cases h
        | int i => exact absurd ((intRepr_isSome_iff I i).mp ⟨t, ht⟩) hr
        | bool b => exact absurd trivial hr
        | none => exact absurd trivial hr
    obtain ⟨name, rfl, hcolon⟩ := hname
    have htoken : strRepr I.toUnicodeTables name = t := by
      simpa [tokenText, reprKey] using ht
    obtain ⟨e, he⟩ := parseBracketToken_colon I hcolon
    refine ⟨e, ?_⟩
    have hshape : bracketed t ++ rest = cp '[' :: (t ++ cp ']' :: rest) := by simp [bracketed]
    rw [hshape, parsePathLoop_cons, parseStep_bracketed ht, ← htoken, he]
    rfl

/-- The parser reads readable chunks back, step by step, in order. -/
theorem parsePathLoop_readable (I : Interpreter) (length : Nat) (steps : List AccessStep) :
    ∀ (first : Bool) (path : PyStr) (fuel : Nat), pathText I first steps = some path →
      (∀ s ∈ steps, StepReadable I s) → path.length ≤ fuel →
      parsePathLoop I length fuel path = .ok (steps.map AccessStep.toPathStep) := by
  induction steps with
  | nil =>
    intro first path fuel h _ _
    simp only [pathText, Option.some.injEq] at h
    subst h
    cases fuel <;> rfl
  | cons s ss ih =>
    intro first path fuel h hr hfuel
    obtain ⟨a, b, ha, hb, rfl⟩ := pathText_cons h
    obtain ⟨c, cs, hcs, hstep⟩ := parseStep_stepText ha (hr s (by simp)) (pathText_boundary hb)
    have hpos := List.length_pos_of_ne_nil (stepText_ne_nil ha)
    rw [List.length_append] at hfuel
    obtain ⟨fuel, rfl⟩ : ∃ n, fuel = n + 1 := ⟨fuel - 1, by omega⟩
    -- the rest is written as chunks that are not the first
    have htail := ih false b fuel hb (fun t ht => hr t (by simp [ht])) (by omega)
    rw [hcs, parsePathLoop_cons, hstep]
    show (do let steps ← parsePathLoop I length fuel b; Except.ok (s.toPathStep :: steps)) = _
    rw [htail]
    rfl

/-- One unreadable step, and the path is not parsed. -/
theorem parsePath_unreadable (I : Interpreter) (length : Nat) (steps : List AccessStep) :
    ∀ (first : Bool) (path : PyStr) (fuel : Nat), pathText I first steps = some path →
      (∃ s ∈ steps, ¬ StepReadable I s) → path.length ≤ fuel →
      ∃ e, parsePathLoop I length fuel path = .error e := by
  induction steps with
  | nil =>
    intro first path fuel _ hbad _
    obtain ⟨s, hs, -⟩ := hbad
    cases hs
  | cons s ss ih =>
    intro first path fuel h hbad hfuel
    obtain ⟨a, b, ha, hb, rfl⟩ := pathText_cons h
    by_cases hs : StepReadable I s
    · -- the head is read, and the error is further on
      have htail : ∃ t ∈ ss, ¬ StepReadable I t := by
        obtain ⟨t, ht, hbad⟩ := hbad
        rcases List.mem_cons.mp ht with rfl | ht
        · exact absurd hs hbad
        · exact ⟨t, ht, hbad⟩
      obtain ⟨c, cs, hcs, hstep⟩ := parseStep_stepText ha hs (pathText_boundary hb)
      have hpos := List.length_pos_of_ne_nil (stepText_ne_nil ha)
      rw [List.length_append] at hfuel
      obtain ⟨fuel, rfl⟩ : ∃ n, fuel = n + 1 := ⟨fuel - 1, by omega⟩
      obtain ⟨e, he⟩ := ih false b fuel hb htail (by omega)
      refine ⟨e, ?_⟩
      rw [hcs, parsePathLoop_cons, hstep]
      show (do let steps ← parsePathLoop I length fuel b; Except.ok (s.toPathStep :: steps)) = _
      rw [he]
      rfl
    · exact parsePathLoop_unreadable ha hs b length fuel hfuel

/-! ## §7. The codec. -/

/-- A readable step has a text. -/
theorem stepText_isSome {I : Interpreter} {s : AccessStep} (hr : StepReadable I s)
    (first : Bool) : ∃ a, stepText I first s = some a := by
  -- a bound that fits the limit on digits has a decimal form
  have hbound : ∀ b, (∀ i, b = some i → FitsDigits I i) → ∃ w, reprBound I b = some w := by
    intro b hb
    cases b with
    | none => exact ⟨[], rfl⟩
    | some i => exact (intRepr_isSome_iff I i).mpr (hb i rfl)
  cases s with
  | slice start stop step =>
    obtain ⟨x, hx⟩ := hbound start (hr start (by simp))
    obtain ⟨y, hy⟩ := hbound stop (hr stop (by simp))
    cases step with
    | none => exact ⟨bracketed (joinColon [x, y]), by simp [stepText, tokenText, hx, hy]⟩
    | some i =>
      obtain ⟨z, hz⟩ := (intRepr_isSome_iff I i).mpr (hr (some i) (by simp) i rfl)
      exact ⟨bracketed (joinColon [x, y, z]), by simp [stepText, tokenText, hx, hy, hz]⟩
  | item key =>
    cases key with
    | str name =>
      by_cases hid : I.isIdentifier name = true
      · exact ⟨(if first then [] else [cp '.']) ++ name, by simp [stepText, hid]⟩
      · exact ⟨bracketed (strRepr I.toUnicodeTables name),
          by simp [stepText, hid, tokenText, reprKey]⟩
    | int i =>
      obtain ⟨z, hz⟩ := (intRepr_isSome_iff I i).mpr hr
      exact ⟨bracketed z, by simp [stepText, tokenText, reprKey, hz]⟩
    | bool b => cases b <;> exact ⟨_, rfl⟩
    | none => exact ⟨_, rfl⟩

theorem pathText_isSome {I : Interpreter} {steps : List AccessStep}
    (hr : ∀ s ∈ steps, StepReadable I s) (first : Bool) :
    ∃ path, pathText I first steps = some path := by
  induction steps generalizing first with
  | nil => exact ⟨[], rfl⟩
  | cons s ss ih =>
    obtain ⟨a, ha⟩ := stepText_isSome (hr s (by simp)) first
    obtain ⟨b, hb⟩ := ih (fun t ht => hr t (by simp [ht])) false
    exact ⟨a ++ b, by simp [pathText, ha, hb]⟩

/-- What the writers wrote, the parser accepts only if every step is readable. -/
theorem readable_of_parsePath {I : Interpreter} {steps : List AccessStep} {path : PyStr}
    {parsed : List PathStep} (h : buildPath I steps = some path)
    (hparse : parsePath I path = .ok parsed) : ∀ s ∈ steps, StepReadable I s := by
  by_contra hno
  push Not at hno
  rw [buildPath_eq] at h
  obtain ⟨e, he⟩ := parsePath_unreadable I path.length steps true path path.length h hno le_rfl
  unfold parsePath at hparse
  rw [he] at hparse
  cases hparse

theorem parsePath_of_readable {I : Interpreter} {steps : List AccessStep} {path : PyStr}
    (h : buildPath I steps = some path) (hr : ∀ s ∈ steps, StepReadable I s) :
    parsePath I path = .ok (steps.map AccessStep.toPathStep) := by
  rw [buildPath_eq] at h
  exact parsePathLoop_readable I path.length steps true path path.length h hr le_rfl

/-- A path is written and read back iff every step is readable. -/
theorem roundTrips_iff_readable (I : Interpreter) (steps : List AccessStep) :
    RoundTrips I steps ↔ ∀ s ∈ steps, StepReadable I s := by
  constructor
  · intro h
    obtain ⟨path, hpath, hparse⟩ := h
    exact readable_of_parsePath hpath hparse
  · intro hr
    obtain ⟨path, hpath⟩ := pathText_isSome hr true
    rw [← buildPath_eq] at hpath
    exact ⟨path, hpath, parsePath_of_readable hpath hr⟩

/-! ### The join of fusion. -/

theorem pathText_append (I : Interpreter) (p q : List AccessStep) (first : Bool) (hp : p ≠ []) :
    pathText I first (p ++ q) = (do
      let a ← pathText I first p
      let b ← pathText I false q
      some (a ++ b)) := by
  induction p generalizing first with
  | nil => exact absurd rfl hp
  | cons s ss ih =>
    cases ss with
    | nil =>
      cases ha : stepText I first s <;> cases hb : pathText I false q <;>
        simp [pathText, ha, hb]
    | cons t ts =>
      have htail := ih false (by simp)
      have hhead : pathText I first (s :: t :: ts) = (do
          let a ← stepText I first s
          let b ← pathText I false (t :: ts)
          some (a ++ b)) := rfl
      rw [List.cons_append, pathText, htail, hhead]
      cases stepText I first s <;> cases pathText I false (t :: ts) <;>
        cases pathText I false q <;> simp

/-- Only the first chunk of a path knows that it is the first: a leading
identifier gets a dot when something is put before it. -/
theorem pathText_join {I : Interpreter} {q : List AccessStep} {path : PyStr}
    (h : pathText I true q = some path) :
    pathText I false q = some
      (if path ≠ [] ∧ ¬ (path.head? = some (cp '.') ∨ path.head? = some (cp '['))
        then cp '.' :: path else path) := by
  cases q with
  | nil =>
    simp only [pathText, Option.some.injEq] at h ⊢
    subst h
    rfl
  | cons s ss =>
    obtain ⟨a, b, ha, hb, rfl⟩ := pathText_cons h
    have hne := stepText_ne_nil ha
    rcases stepText_cases ha with ⟨name, rfl, hid, rfl⟩ | ⟨t, ht, rfl, hstr⟩
    · -- an identifier starts neither with a dot nor with a bracket
      obtain ⟨c, cs, rfl⟩ := List.exists_cons_of_ne_nil (identifier_ne_nil hid)
      have hdot : c ≠ cp '.' := by
        rintro rfl
        exact I.not_mem_identifier hid (cp '.') (by decide) (by decide) (by simp)
      have hbra : c ≠ cp '[' := by
        rintro rfl
        exact I.not_mem_identifier hid (cp '[') (by decide) (by decide) (by simp)
      simp [pathText, stepText, hid, hb, hdot, hbra]
    · have hfalse : stepText I false s = some (bracketed t) := by
        have hnot : ∀ name, s = .item (.str name) → ¬ (I.isIdentifier name = true) := by
          intro name hs
          simp [hstr name hs]
        cases s with
        | slice start stop step => simp [stepText, ht]
        | item key =>
          cases key with
          | str name => simp [stepText, hnot name rfl, ht]
          | int i => simp [stepText, ht]
          | bool b => simp [stepText, ht]
          | none => simp [stepText, ht]
      simp [pathText, hfalse, hb, bracketed]

/-- The join of fusion writes the path of the joined steps. -/
theorem buildPath_append {I : Interpreter} {p q : List AccessStep} {inner path : PyStr}
    (hp : buildPath I p = some inner) (hq : buildPath I q = some path) :
    buildPath I (p ++ q) = some (fusePath inner path) := by
  rw [buildPath_eq] at hp hq ⊢
  cases p with
  | nil =>
    simp only [pathText, Option.some.injEq] at hp
    subst hp
    rw [List.nil_append, hq]
    simp [fusePath]
  | cons s ss =>
    have hne : inner ≠ [] := by
      obtain ⟨a, b, ha, -, rfl⟩ := pathText_cons hp
      simp [stepText_ne_nil ha]
    rw [pathText_append I (s :: ss) q true (by simp), hp, pathText_join hq]
    simp [fusePath, hne]

/-- Fusion of two readable paths is their concatenation, and only of those. -/
theorem fusesTo_iff_readable (I : Interpreter) (p q : List AccessStep) :
    FusesTo I p q ↔ (∀ s ∈ p, StepReadable I s) ∧ (∀ s ∈ q, StepReadable I s) := by
  constructor
  · intro h
    obtain ⟨inner, path, hp, hq, ps, qs, hps, hqs, -⟩ := h
    exact ⟨readable_of_parsePath hp hps, readable_of_parsePath hq hqs⟩
  · intro h
    obtain ⟨hrp, hrq⟩ := h
    obtain ⟨inner, hinner⟩ := pathText_isSome hrp true
    obtain ⟨path, hpath⟩ := pathText_isSome hrq true
    rw [← buildPath_eq] at hinner hpath
    have hjoin := buildPath_append hinner hpath
    refine ⟨inner, path, hinner, hpath, _, _, parsePath_of_readable hinner hrp,
      parsePath_of_readable hpath hrq, ?_⟩
    rw [← List.map_append]
    refine parsePath_of_readable hjoin ?_
    intro s hs
    rcases List.mem_append.mp hs with hs | hs
    · exact hrp s hs
    · exact hrq s hs

/-- The codec law: written paths are read back, and fused paths are read as
the one path after the other, exactly when every step is readable. -/
theorem pathCodec_iff (I : Interpreter) :
    (∀ steps, RoundTrips I steps ↔ ∀ s ∈ steps, StepReadable I s) ∧
    (∀ p q, FusesTo I p q ↔
      (∀ s ∈ p, StepReadable I s) ∧ (∀ s ∈ q, StepReadable I s)) :=
  ⟨roundTrips_iff_readable I, fusesTo_iff_readable I⟩

/-! ### The keys that break it. -/

/-- An interpreter whose Unicode database knows ASCII and the middle dot
`U+00B7`, which may continue an identifier and is not alphanumeric. -/
def asciiInterpreter : Interpreter where
  isAlnum c := asciiAlnum c.val
  xidStart c := asciiAlpha c.val
  xidContinue c := asciiAlnum c.val || c.val == 95 || c.val == 0xB7
  isPrintable c := (0x20 ≤ c.val && c.val < 0x7F) || c.val == 0xB7
  isAlnum_ascii _ _ := rfl
  xidStart_ascii _ _ := rfl
  xidContinue_ascii c h := by
    have hne : (c.val == 0xB7) = false := by
      rw [beq_eq_false_iff_ne]
      omega
    simp [hne]
  xidContinue_of_xidStart c h := by
    have halnum : asciiAlnum c.val = true := by
      simp only [asciiAlpha, asciiAlnum, Bool.or_eq_true, Bool.and_eq_true,
        decide_eq_true_eq] at h ⊢
      omega
    simp [halnum]
  isPrintable_surrogate c h _ := by
    simp only [Bool.or_eq_false_iff, Bool.and_eq_false_iff, decide_eq_false_iff_not,
      beq_eq_false_iff_ne]
    omega
  maxStrDigits := 4300
  literalRest _ := none

/-- The key `a:b` is written as `['a:b']`, which the parser refuses. -/
theorem colonKey_not_read :
    buildPath asciiInterpreter [.item (.str (py "a:b"))] = some (py "['a:b']") ∧
    parsePath asciiInterpreter (py "['a:b']") = .error (.invalidSliceToken (py "'a:b'")) ∧
    ¬ RoundTrips asciiInterpreter [.item (.str (py "a:b"))] := by
  refine ⟨by decide, by decide, ?_⟩
  rw [roundTrips_iff_readable]
  intro h
  have hread := h (.item (.str (py "a:b"))) (by simp)
  exact absurd hread.1 (by decide)

/-- The identifier `a·b` is written without brackets, and read up to the dot. -/
example : buildPath asciiInterpreter [.item (.str (py "a·b"))] = some (py "a·b") ∧
    parsePath asciiInterpreter (py "a·b") = .error (.invalidSegment 1) := by
  decide

end SeamlessCore.Expression
