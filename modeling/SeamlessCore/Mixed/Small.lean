/-
  SeamlessCore.Mixed.Small — a small instance of the codecs.

  The instance has no floats, writes ASCII text as `json.dumps` does and any
  other character as a fixed number of bytes, and saves an array as its data.
  A reader takes what was written apart again.

  Main results:
    * `loads_write` — written JSON data reads back;
    * `small_dumpsOutline` — so the text determines the order of all keys.
-/
import SeamlessCore.Mixed.Canonical

namespace SeamlessCore.Mixed.Small

open Python

/-! ## §1. The writer. -/

/-- A character of a string: an ASCII character, or its number -/
def escape (c : CodePoint) : Bytes :=
  if 0x20 ≤ c.val ∧ c.val < 0x7F ∧ c.val ≠ 0x22 ∧ c.val ≠ 0x5C then [UInt8.ofNat c.val]
  else 0x5C :: leBytes 3 c.val

/-- A string in double quotes -/
def quote (s : PyStr) : Bytes := 0x22 :: (s.flatMap escape ++ [0x22])

/-- A decimal number -/
def digits (n : Nat) : Bytes := (Nat.toDigits 10 n).map fun c => UInt8.ofNat c.toNat

def intText (n : Int) : Bytes := if n < 0 then 0x2D :: digits n.natAbs else digits n.natAbs

mutual

/-- `json.dumps(obj)` -/
def write : Json Empty → Bytes
  | .null => ascii "null"
  | .bool b => if b then ascii "true" else ascii "false"
  | .int n => intText n
  | .float x => x.elim
  | .str s => quote s
  | .list [] => [0x5B, 0x5D]
  | .list (j :: js) => 0x5B :: (write j ++ writeRest js)
  | .dict [] => [0x7B, 0x7D]
  | .dict ((k, j) :: items) => 0x7B :: (quote k ++ [0x3A, 0x20] ++ write j ++ writeItems items)

/-- The other items of a list -/
def writeRest : List (Json Empty) → Bytes
  | [] => [0x5D]
  | j :: js => [0x2C, 0x20] ++ write j ++ writeRest js

/-- The other entries of a dict -/
def writeItems : List (PyStr × Json Empty) → Bytes
  | [] => [0x7D]
  | (k, j) :: items => [0x2C, 0x20] ++ quote k ++ [0x3A, 0x20] ++ write j ++ writeItems items

end

/-- The instance -/
def small : Codecs where
  Float := Empty
  isFinite x := x.elim
  npFloat64 x := x.elim
  npBytes b := ⟨.bytes b.length, true, [], none, b, by simp [DType.itemsize]⟩
  npComplex x := x.elim
  dumps j := some (write j)
  dumpsIndented j := some (write j)
  orjsonDumps j := some (write j)
  npSave a := some (magicNumpy ++ a.data)

/-! ## §2. The reader. -/

def isDigit (b : UInt8) : Bool := 48 ≤ b.toNat && b.toNat ≤ 57

/-- The value of a run of digits -/
def digitsValue (b : Bytes) : Nat := b.foldl (fun n d => 10 * n + (d.toNat - 48)) 0

/-- Characters up to the closing quote, for texts of at most the given length -/
def readChars : (fuel : Nat) → Bytes → Option (PyStr × Bytes)
  | n + 1, b :: r =>
    if b = 0x22 then some ([], r)
    else if b = 0x5C then
      (readChars n (r.drop 3)).map fun (s, r') => (Fin.ofNat _ (littleEndian (r.take 3)) :: s, r')
    else (readChars n r).map fun (s, r') => (Fin.ofNat _ b.toNat :: s, r')
  | _, _ => none

def readNumber (r : Bytes) : Int × Bytes := (digitsValue (r.takeWhile isDigit), r.dropWhile isDigit)

mutual

/-- `json.loads(s)`, with what follows -/
def read : (fuel : Nat) → Bytes → Option (Json Empty × Bytes)
  | n + 1, b :: r =>
    if b = 0x6E then some (.null, r.drop 3)
    else if b = 0x74 then some (.bool true, r.drop 3)
    else if b = 0x66 then some (.bool false, r.drop 4)
    else if b = 0x22 then (readChars r.length r).map fun (s, r) => (.str s, r)
    else if b = 0x5B then
      if r.head? = some 0x5D then some (.list [], r.drop 1)
      else (read n r).bind fun (j, r) => (readRest n r).map fun (js, r) => (.list (j :: js), r)
    else if b = 0x7B then
      if r.head? = some 0x7D then some (.dict [], r.drop 1)
      else
        (readEntry n r).bind fun (e, r) =>
          (readItems n r).map fun (items, r) => (.dict (e :: items), r)
    else if b = 0x2D then
      let (m, r) := readNumber r
      some (.int (-m), r)
    else
      let (m, r) := readNumber (b :: r)
      some (.int m, r)
  | _, _ => none

/-- The other items of a list -/
def readRest : (fuel : Nat) → Bytes → Option (List (Json Empty) × Bytes)
  | n + 1, b :: r =>
    if b = 0x5D then some ([], r)
    else
      (read n (r.drop 1)).bind fun (j, r) => (readRest n r).map fun (js, r) => (j :: js, r)
  | _, _ => none

/-- The other entries of a dict -/
def readItems : (fuel : Nat) → Bytes → Option (List (PyStr × Json Empty) × Bytes)
  | n + 1, b :: r =>
    if b = 0x7D then some ([], r)
    else
      (readEntry n (r.drop 1)).bind fun (e, r) =>
        (readItems n r).map fun (items, r) => (e :: items, r)
  | _, _ => none

/-- A key with its value -/
def readEntry : (fuel : Nat) → Bytes → Option ((PyStr × Json Empty) × Bytes)
  | n + 1, r =>
    (readChars r.length (r.drop 1)).bind fun (k, r) =>
      (read n (r.drop 2)).map fun (j, r) => ((k, j), r)
  | _, _ => none

end

/-- `json.loads(s)` -/
def loads (b : Bytes) : Option (Json Empty) := (read b.length b).map Prod.fst

/-! ## §3. Strings and numbers. -/

theorem length_escape (c : CodePoint) : 0 < (escape c).length := by
  unfold escape
  split <;> simp

/-- A written character reads back. -/
theorem readChars_escape (c : CodePoint) (n : Nat) (r : Bytes) :
    readChars (n + 1) (escape c ++ r) = (readChars n r).map fun (s, r') => (c :: s, r') := by
  have hc : c.val < 256 ^ 3 := lt_of_lt_of_le c.isLt (by decide)
  unfold escape
  split
  next h =>
    have hval : (UInt8.ofNat c.val).toNat = c.val :=
      UInt8.toNat_ofNat_of_lt' (by show c.val < 256; omega)
    have hquote : UInt8.ofNat c.val ≠ 0x22 := by
      intro heq
      rw [heq] at hval
      exact h.2.2.1 hval.symm
    have hslash : UInt8.ofNat c.val ≠ 0x5C := by
      intro heq
      rw [heq] at hval
      exact h.2.2.2 hval.symm
    show readChars (n + 1) (UInt8.ofNat c.val :: r) = _
    rw [readChars, if_neg hquote, if_neg hslash, hval]
    simp
  next h =>
    show readChars (n + 1) (0x5C :: (leBytes 3 c.val ++ r)) = _
    have htake : (leBytes 3 c.val ++ r).take 3 = leBytes 3 c.val := by
      rw [List.take_append_of_le_length (by rw [length_leBytes]), List.take_of_length_le]
      rw [length_leBytes]
    have hdrop : (leBytes 3 c.val ++ r).drop 3 = r := List.drop_left' (length_leBytes 3 c.val)
    rw [readChars, if_neg (by decide), if_pos rfl, htake, hdrop, littleEndian_leBytes 3 _ hc]
    simp

theorem length_flatMap_escape (s : PyStr) : s.length ≤ (s.flatMap escape).length := by
  induction s with
  | nil => exact le_rfl
  | cons c s ih =>
    have hc := length_escape c
    rw [List.flatMap_cons, List.length_append, List.length_cons]
    omega

/-- A string reads back after its first quote. -/
theorem readChars_quote (s : PyStr) (r : Bytes) {n : Nat}
    (h : (s.flatMap escape ++ 0x22 :: r).length ≤ n) :
    readChars n (s.flatMap escape ++ 0x22 :: r) = some (s, r) := by
  have hn : s.length < n := by
    have hs := length_flatMap_escape s
    rw [List.length_append, List.length_cons] at h
    omega
  clear h
  induction s generalizing n with
  | nil =>
    cases n with
    | zero => cases hn
    | succ n => rfl
  | cons c s ih =>
    cases n with
    | zero => cases hn
    | succ n =>
      rw [List.flatMap_cons, List.append_assoc, readChars_escape, ih (Nat.lt_of_succ_lt_succ hn)]
      rfl

theorem quote_append (s : PyStr) (r : Bytes) :
    quote s ++ r = 0x22 :: (s.flatMap escape ++ 0x22 :: r) := by
  unfold quote
  rw [List.cons_append, List.append_assoc]
  rfl

/-- A text after which a number ends -/
def Stops (r : Bytes) : Prop := ∀ b ∈ r.head?, isDigit b = false

theorem digit_range {n : Nat} {c : Char} (hc : c ∈ Nat.toDigits 10 n) :
    48 ≤ c.toNat ∧ c.toNat ≤ 57 := by
  have h := Nat.isDigit_of_mem_toDigits (by omega) (by omega) hc
  simp only [Char.isDigit, Bool.and_eq_true, decide_eq_true_eq] at h
  exact ⟨h.1, h.2⟩

theorem isDigit_digits {n : Nat} : ∀ b ∈ digits n, isDigit b = true := by
  intro b hb
  obtain ⟨c, hc, rfl⟩ := List.mem_map.mp hb
  obtain ⟨hlow, hhigh⟩ := digit_range hc
  unfold isDigit
  rw [UInt8.toNat_ofNat_of_lt' (by show c.toNat < 256; omega)]
  simp [hlow, hhigh]

theorem digitsValue_digits (n : Nat) : digitsValue (digits n) = n := by
  have hfold : ∀ (cs : List Char) (k : Nat), (∀ c ∈ cs, 48 ≤ c.toNat ∧ c.toNat ≤ 57) →
      (cs.map fun c => UInt8.ofNat c.toNat).foldl (fun n d => 10 * n + (d.toNat - 48)) k =
        Nat.ofDigitChars 10 cs k := by
    intro cs
    induction cs with
    | nil => exact fun k _ => rfl
    | cons c cs ih =>
      intro k hcs
      have hc := hcs c List.mem_cons_self
      have hval : (UInt8.ofNat c.toNat).toNat = c.toNat :=
        UInt8.toNat_ofNat_of_lt' (by show c.toNat < 256; omega)
      rw [List.map_cons, List.foldl_cons, ih _ fun d hd => hcs d (List.mem_cons_of_mem c hd), hval]
      rfl
  unfold digitsValue digits
  rw [hfold _ 0 fun c hc => digit_range hc, Nat.ofDigitChars_toDigits (by omega) (by omega)]

theorem readNumber_digits (n : Nat) {r : Bytes} (hr : Stops r) :
    readNumber (digits n ++ r) = ((n : Int), r) := by
  -- what follows the number stops the run of digits
  have htake : r.takeWhile isDigit = [] := by
    cases r with
    | nil => rfl
    | cons b r => rw [List.takeWhile_cons, hr b rfl]; rfl
  have hdrop : r.dropWhile isDigit = r := by
    cases r with
    | nil => rfl
    | cons b r => rw [List.dropWhile_cons, hr b rfl]; rfl
  unfold readNumber
  rw [List.takeWhile_append_of_pos isDigit_digits, List.dropWhile_append_of_pos isDigit_digits,
    htake, hdrop, List.append_nil, digitsValue_digits]

theorem digits_ne_nil (n : Nat) : digits n ≠ [] := by
  unfold digits
  simp [Nat.toDigits_ne_nil]

/-- A digit starts no other kind of data. -/
theorem ne_of_isDigit {b : UInt8} (hb : isDigit b = true) {d : UInt8} (hd : isDigit d = false) :
    b ≠ d := by
  intro heq
  rw [heq, hd] at hb
  cases hb

theorem read_intText (m : Int) {n : Nat} {r : Bytes} (hr : Stops r) :
    read (n + 1) (intText m ++ r) = some (.int m, r) := by
  unfold intText
  split
  next hm =>
    show some (Json.int (-(readNumber (digits m.natAbs ++ r)).1),
      (readNumber (digits m.natAbs ++ r)).2) = _
    rw [readNumber_digits _ hr, show -(m.natAbs : Int) = m by omega]
  next hm =>
    obtain ⟨b, t, h⟩ := List.exists_cons_of_ne_nil (digits_ne_nil m.natAbs)
    have hb : isDigit b = true :=
      isDigit_digits (n := m.natAbs) b (by rw [h]; exact List.mem_cons_self)
    have hnumber := readNumber_digits m.natAbs hr
    rw [h] at hnumber ⊢
    -- the text starts with a digit, so no other branch of the reader takes it
    have hne : ∀ d : UInt8, isDigit d = false → b ≠ d := fun d hd => ne_of_isDigit hb hd
    show read (n + 1) (b :: (t ++ r)) = _
    rw [read, if_neg (hne _ rfl), if_neg (hne _ rfl), if_neg (hne _ rfl), if_neg (hne _ rfl),
      if_neg (hne _ rfl), if_neg (hne _ rfl), if_neg (hne _ rfl)]
    show some (Json.int (readNumber ((b :: t) ++ r)).1, (readNumber ((b :: t) ++ r)).2) = _
    rw [hnumber, show (m.natAbs : Int) = m by omega]

/-! ## §4. Written data reads back. -/

theorem stops_rest (js : List (Json Empty)) (r : Bytes) : Stops (writeRest js ++ r) := by
  intro b hb
  cases js with
  | nil =>
    rw [← Option.some.inj hb]
    rfl
  | cons j js =>
    rw [← Option.some.inj hb]
    rfl

theorem stops_items (items : List (PyStr × Json Empty)) (r : Bytes) :
    Stops (writeItems items ++ r) := by
  intro b hb
  cases items with
  | nil =>
    rw [← Option.some.inj hb]
    rfl
  | cons e items =>
    rw [← Option.some.inj hb]
    rfl

/-- No data starts with a closing bracket. -/
theorem head_write (j : Json Empty) (r : Bytes) : (write j ++ r).head? ≠ some 0x5D := by
  cases j with
  | null => exact (fun h => by cases h)
  | bool b => cases b <;> exact (fun h => by cases h)
  | int n =>
    unfold write intText
    split
    · exact (fun h => by cases h)
    · obtain ⟨b, t, h⟩ := List.exists_cons_of_ne_nil (digits_ne_nil n.natAbs)
      have hb : isDigit b = true :=
        isDigit_digits (n := n.natAbs) b (by rw [h]; exact List.mem_cons_self)
      rw [h]
      exact fun heq => ne_of_isDigit hb rfl (Option.some.inj heq)
  | float x => exact x.elim
  | str s => exact (fun h => by cases h)
  | list js => cases js <;> exact (fun h => by cases h)
  | dict items => cases items <;> exact (fun h => by cases h)

theorem length_write (j : Json Empty) : 0 < (write j).length := by
  cases j with
  | null => decide
  | bool b => cases b <;> decide
  | int n =>
    have h := List.length_pos_of_ne_nil (digits_ne_nil n.natAbs)
    unfold write intText
    split
    · exact Nat.succ_pos _
    · exact h
  | float x => exact x.elim
  | str s => exact Nat.succ_pos _
  | list js => cases js <;> exact Nat.succ_pos _
  | dict items => cases items <;> exact Nat.succ_pos _

mutual

/-- Written data reads back, and the reader finds where it ends. -/
theorem read_write : ∀ (j : Json Empty) {n : Nat} {r : Bytes}, (write j).length ≤ n → Stops r →
    read n (write j ++ r) = some (j, r)
  | .float x, _, _, _, _ => x.elim
  | j, 0, _, hn, _ => absurd (length_write j) (by omega)
  | .null, n + 1, r, _, _ => rfl
  | .bool b, n + 1, r, _, _ => by cases b <;> rfl
  | .int m, n + 1, r, _, hr => read_intText m hr
  | .str s, n + 1, r, _, _ => by
    show read (n + 1) (quote s ++ r) = _
    rw [quote_append]
    show (readChars _ (s.flatMap escape ++ 0x22 :: r)).map (fun (s, r) => (Json.str s, r)) = _
    rw [readChars_quote s r le_rfl]
    rfl
  | .list [], n + 1, r, _, _ => rfl
  | .list (j :: js), n + 1, r, hn, _ => by
    -- the fuel covers the item and what follows it
    have hlength : (write j).length + (writeRest js).length ≤ n := by
      simp only [write, List.length_cons, List.length_append] at hn
      omega
    show (if ((write j ++ writeRest js) ++ r).head? = some 0x5D then _ else
      (read n ((write j ++ writeRest js) ++ r)).bind fun (j, r) =>
        (readRest n r).map fun (js, r) => (Json.list (j :: js), r)) = _
    rw [List.append_assoc, if_neg (head_write j _),
      read_write j (by omega) (stops_rest js r)]
    show (readRest n (writeRest js ++ r)).map (fun (js, r) => (Json.list (j :: js), r)) = _
    rw [readRest_write js (by omega)]
    rfl
  | .dict [], n + 1, r, _, _ => rfl
  | .dict ((k, j) :: items), n + 1, r, hn, _ => by
    have hlength : (quote k).length + (write j).length + (writeItems items).length < n := by
      simp only [write, List.length_cons, List.length_append, List.length_nil] at hn
      omega
    show ((readEntry n ((quote k ++ [0x3A, 0x20] ++ write j ++ writeItems items) ++ r)).bind
      fun (e, r) => (readItems n r).map fun (items, r) => (Json.dict (e :: items), r)) = _
    rw [List.append_assoc, readEntry_write k j (by omega) (stops_items items r)]
    show (readItems n (writeItems items ++ r)).map
      (fun (items, r) => (Json.dict ((k, j) :: items), r)) = _
    rw [readItems_write items (by omega)]
    rfl

theorem readRest_write : ∀ (js : List (Json Empty)) {n : Nat} {r : Bytes},
    (writeRest js).length ≤ n → readRest n (writeRest js ++ r) = some (js, r)
  | [], 0, _, hn => absurd hn (by decide)
  | [], n + 1, r, _ => rfl
  | j :: js, 0, _, hn => absurd hn (by simp [writeRest])
  | j :: js, n + 1, r, hn => by
    have hlength : (write j).length + (writeRest js).length ≤ n := by
      simp only [writeRest, List.length_cons, List.length_append, List.length_nil] at hn
      omega
    show ((read n ((write j ++ writeRest js) ++ r)).bind fun (j, r) =>
      (readRest n r).map fun (js, r) => (j :: js, r)) = _
    rw [List.append_assoc, read_write j (by omega) (stops_rest js r)]
    show (readRest n (writeRest js ++ r)).map (fun (js, r) => (j :: js, r)) = _
    rw [readRest_write js (by omega)]
    rfl

theorem readItems_write : ∀ (items : List (PyStr × Json Empty)) {n : Nat} {r : Bytes},
    (writeItems items).length ≤ n → readItems n (writeItems items ++ r) = some (items, r)
  | [], 0, _, hn => absurd hn (by decide)
  | [], n + 1, r, _ => rfl
  | (k, j) :: items, 0, _, hn => absurd hn (by simp [writeItems])
  | (k, j) :: items, n + 1, r, hn => by
    have hlength : (quote k).length + (write j).length + (writeItems items).length < n := by
      simp only [writeItems, List.length_cons, List.length_append, List.length_nil] at hn
      omega
    show ((readEntry n ((quote k ++ [0x3A, 0x20] ++ write j ++ writeItems items) ++ r)).bind
      fun (e, r) => (readItems n r).map fun (items, r) => (e :: items, r)) = _
    rw [List.append_assoc, readEntry_write k j (by omega) (stops_items items r)]
    show (readItems n (writeItems items ++ r)).map (fun (items, r) => ((k, j) :: items, r)) = _
    rw [readItems_write items (by omega)]
    rfl

theorem readEntry_write : ∀ (k : PyStr) (j : Json Empty) {n : Nat} {r : Bytes},
    (quote k).length + (write j).length < n → Stops r →
    readEntry n ((quote k ++ [0x3A, 0x20] ++ write j) ++ r) = some ((k, j), r)
  | k, j, 0, _, hn, _ => absurd hn (Nat.not_lt_zero _)
  | k, j, n + 1, r, hn, hr => by
    rw [List.append_assoc, List.append_assoc, quote_append]
    show ((readChars _ (k.flatMap escape ++ 0x22 :: ([0x3A, 0x20] ++ (write j ++ r)))).bind
      fun (k, r) => (read n (r.drop 2)).map fun (j, r) => ((k, j), r)) = _
    -- the quote is taken off before the characters of the key are read
    have hkey : ∀ t : Bytes, readChars (0x22 :: (k.flatMap escape ++ 0x22 :: t)).length
        (k.flatMap escape ++ 0x22 :: t) = some (k, t) :=
      fun t => readChars_quote k t (Nat.le_succ _)
    rw [hkey]
    show (read n (write j ++ r)).map (fun (j, r) => ((k, j), r)) = _
    rw [read_write j (by omega) hr]
    rfl

end

/-- `json.loads` of a text, with more after it -/
theorem loads_append (j : Json Empty) {r : Bytes} (hr : Stops r) : loads (write j ++ r) = some j := by
  unfold loads
  rw [read_write j (by rw [List.length_append]; omega) hr]
  rfl

/-- `json.loads(json.dumps(obj))` -/
theorem loads_write (j : Json Empty) : loads (write j) = some j := by
  have hloads := loads_append j (r := []) (fun b hb => by cases hb)
  rw [List.append_nil] at hloads
  exact hloads

theorem write_inj {j j' : Json Empty} (h : write j = write j') : j = j' := by
  have hloads := loads_write j
  rw [h, loads_write] at hloads
  exact (Option.some.inj hloads).symm

theorem small_dumps_inj {j j' : Json small.Float} {text : Bytes} (h : small.dumps j = some text)
    (h' : small.dumps j' = some text) : j = j' :=
  write_inj ((Option.some.inj h).trans (Option.some.inj h').symm)

theorem small_dumpsOutline : small.DumpsOutline := by
  intro j j' text _ _ h h'
  rw [small_dumps_inj h h']

end SeamlessCore.Mixed.Small
