/-
  SeamlessCore.Checksum.Small — a small instance of the libraries.

  The laws of `Laws` can be met: this instance reads and writes JSON
  constants, one-digit numbers and strings without escapes, accepts every
  buffer with the NPY magic, and digests a buffer to what is told of it by the
  classification and the parser, its length, and its first bytes.

  Main results:
    * `small_jsonLaws`, `small_writeLaws` — the laws of its decoders and writers;
    * `small_collisionFree` — the digests tell apart what they must.
-/
import SeamlessCore.Checksum.Laws
import SeamlessCore.Conversion.Tables

namespace SeamlessCore

open Python

namespace Libraries

/-! ## §1. The classification and the parser do not ask for a digest. -/

/-- The libraries with another digest -/
def withSha (L : Libraries) (f : Bytes → Checksum) : Libraries := { L with sha256 := f }

variable (L : Libraries) (f : Bytes → Checksum)

/-- The form of a mixed buffer is told by the same entries. -/
theorem dictGet_withSha (items : List (L.Value × L.Value)) (name : PyStr) :
    (L.withSha f).dictGet items name = L.dictGet items name := by
  unfold dictGet
  congr 1
  funext ⟨k, v⟩
  cases k <;> rfl

theorem formKind_withSha (v : L.Value) : (L.withSha f).formKind v = L.formKind v := by
  cases v with
  | dict form =>
    unfold formKind
    simp only
    have h := L.dictGet_withSha f form (py "type")
    rw [h]
    cases hd : L.dictGet form (py "type") with
    | none => rfl
    | some v => cases v <;> rfl
  | _ => rfl

theorem mixedKind_withSha (b : Bytes) : (L.withSha f).mixedKind b = L.mixedKind b := by
  unfold mixedKind
  cases b[magicSeamlessMixed.length]? with
  | none => rfl
  | some n =>
    simp only
    split
    · rfl
    · show Option.bind _ _ = Option.bind _ _
      congr 1
      funext v
      exact L.formKind_withSha f v

/-- So is the kind of a JSON text. -/
theorem jsonKindAndFlags_withSha (text : PyStr) :
    (L.withSha f).jsonKindAndFlags text = L.jsonKindAndFlags text := by
  unfold jsonKindAndFlags
  show (match L.orjsonLoads text with | _ => _) = _
  cases h : L.orjsonLoads text with
  | none => simp [withSha, h]
  | some v =>
    cases v with
    | str s =>
      simp only [withSha, h]
      cases L.floatOfStr s <;> rfl
    | _ => simp [withSha, h]

/-- The classification does not ask for a digest. -/
theorem fromBuffer_withSha (b : Bytes) : (L.withSha f).fromBuffer b = L.fromBuffer b := by
  unfold fromBuffer
  simp only [mixedKind_withSha, jsonKindAndFlags_withSha]
  split_ifs
  · show (match L.npLoad b with | _ => _) = _
    cases h : L.npLoad b with
    | none => simp [withSha, h]
    | some a =>
      have htype : (L.withSha f).numpyType a = L.numpyType a := by
        unfold numpyType
        rfl
      simp only [withSha, h] at htype ⊢
      rw [htype]
  · rfl
  · rfl

theorem parsePlain_withSha (b : Bytes) : (L.withSha f).parsePlain b = L.parsePlain b := by
  unfold parsePlain
  cases decodeUtf8 b <;> rfl

theorem isNumeric_withSha (v : L.Value) : (L.withSha f).isNumeric v = L.isNumeric v := by
  cases v with
  | str s =>
    unfold isNumeric
    show (match L.floatOfStr s with | _ => _) = _
    cases h : L.floatOfStr s <;> simp [withSha, h]
  | _ => rfl

theorem scalarStr_withSha (v : L.Value) : (L.withSha f).scalarStr v = L.scalarStr v := by
  cases v <;> rfl

theorem scalarInt_withSha (v : L.Value) : (L.withSha f).scalarInt v = L.scalarInt v := by
  have hint : (L.withSha f).pyInt v = L.pyInt v := by
    cases v <;> rfl
  have hfloat : (L.withSha f).pyFloat v = L.pyFloat v := by
    cases v <;> rfl
  unfold scalarInt
  rw [hint, hfloat]
  cases L.pyInt v <;> rfl

theorem parseScalar_withSha (b : Bytes) (t : Celltype) :
    (L.withSha f).parseScalar b t = L.parseScalar b t := by
  unfold parseScalar
  rw [parsePlain_withSha]
  split_ifs
  · rfl
  · cases L.parsePlain b with
    | none => rfl
    | some v =>
      have hfloat : (L.withSha f).pyFloat v = L.pyFloat v := by
        cases v <;> rfl
      cases t <;> simp only [isNumeric_withSha, scalarInt_withSha, scalarStr_withSha, hfloat] <;> rfl

theorem parseText_withSha (b : Bytes) (t : Celltype) :
    (L.withSha f).parseText b t = L.parseText b t := by
  unfold parseText
  cases decodeUtf8 b with
  | none => rfl
  | some s => cases t <;> rfl

/-- The reader of arrays asks for the header and the items only. -/
theorem npStream_withSha (b : Bytes) : (L.withSha f).npStream b = L.npStream b := by
  have hheader : (L.withSha f).parseNpyHeader b = L.parseNpyHeader b := by
    unfold parseNpyHeader
    show (match L.readMagic b with | _ => _) = _
    cases h : L.readMagic b <;> simp [withSha, h]
  unfold npStream
  rw [hheader]
  cases L.parseNpyHeader b <;> rfl

theorem fromStream_withSha (stream : Bytes) (form : L.Value) (storage : Storage) :
    (L.withSha f).fromStream stream form storage = L.fromStream stream form storage := by
  cases storage with
  | pureBinary => exact congrArg (Option.map _) (L.npStream_withSha f stream)
  | _ => rfl

theorem deserializeSeamlessMixed_withSha (b : Bytes) :
    (L.withSha f).deserializeSeamlessMixed b = L.deserializeSeamlessMixed b := by
  unfold deserializeSeamlessMixed
  simp only
  split
  · rfl
  · split_ifs
    · rfl
    · split
      next storage form h1 h2 =>
        split
        next storage' form' h1' h2' =>
          have hstorage : storage' = storage := Option.some.inj (h1'.symm.trans h1)
          have hform : form' = form := Option.some.inj (h2'.symm.trans h2)
          subst hstorage hform
          exact congrArg (Option.map _) (L.fromStream_withSha f _ form' storage')
        next hne => exact absurd h2 (hne storage form h1)
      next hne =>
        split
        next storage form h1 h2 => exact absurd h2 (hne storage form h1)
        next => rfl

/-- Nor do the readers of the mixed format. -/
theorem mixedDeserialize_withSha (b : Bytes) :
    (L.withSha f).mixedDeserialize b = L.mixedDeserialize b := by
  unfold mixedDeserialize
  split_ifs
  · rw [npStream_withSha]
    rfl
  · exact L.deserializeSeamlessMixed_withSha f b
  · rfl
  · cases decodeUtf8 b with
    | none => rfl
    | some text =>
      show (match L.jsonLoads text with | _ => _) = _
      cases h : L.jsonLoads text <;> simp [withSha, h]

/-- The parser does not ask for a digest, celltype by celltype. -/
theorem parseBody_withSha (b : Bytes) (t : Celltype) :
    (L.withSha f).parseBody b t = L.parseBody b t := by
  cases t
  case binary =>
    unfold parseBody
    simp only
    rw [mixedDeserialize_withSha]
    cases L.mixedDeserialize b with
    | none => rfl
    | some result =>
      obtain ⟨v, storage⟩ := result
      cases storage <;> rfl
  case mixed => exact congrArg (Option.map Prod.fst) (L.mixedDeserialize_withSha f b)
  all_goals first
    | exact L.parseText_withSha f b _
    | exact L.parsePlain_withSha f b
    | exact L.parseScalar_withSha f b _
    | rfl

end Libraries

namespace Small

/-! ## §2. JSON. -/

abbrev Value := PyValue Int Bytes Empty

/-- The characters of a JSON string without escapes -/
def plainChar (c : CodePoint) : Bool :=
  0x20 ≤ c.val && c ≠ cp '"' && c ≠ cp '\\' && !isSurrogate c

/-- A JSON string without escapes -/
def quoted (s : PyStr) : PyStr := cp '"' :: (s ++ [cp '"'])

/-- The form of a mixed buffer whose root is an object. -/
def objectForm : PyStr := py "\x7b\"type\": \"object\", \"properties\": \x7b\x7d\x7d"

/-- The JSON reader: constants, one digit, a string without escapes, and the form of an
object -/
def readJson (s : PyStr) : Option Value :=
  if s = py "null" then some .none
  else if s = py "true" then some (.bool true)
  else if s = py "false" then some (.bool false)
  else if s = objectForm then
    some (.dict [(.str (py "type"), .str (py "object")), (.str (py "properties"), .dict [])])
  else
    match s with
    | [] => none
    | [c] => if 48 ≤ c.val ∧ c.val ≤ 57 then some (.int (c.val - 48 : Nat)) else none
    | c :: rest =>
      if c = cp '"' ∧ rest.getLast? = some (cp '"') ∧ rest.dropLast.all plainChar then
        some (.str rest.dropLast)
      else none

/-- The JSON writer, for what the reader reads back -/
def writeJson : Value → Option Bytes
  | .none => some (ascii "null")
  | .bool value => some (if value then ascii "true" else ascii "false")
  | .int n => if 0 ≤ n ∧ n ≤ 9 then some [UInt8.ofNat (48 + n.toNat)] else none
  | .str s => if s.all plainChar then encodeUtf8 (quoted s) else none
  | _ => none

/-- A one-digit number -/
def readDigit : PyStr → Option Int
  | [c] => if 48 ≤ c.val ∧ c.val ≤ 57 then some (c.val - 48 : Nat) else none
  | _ => none

/-! ## §3. The instance. -/

/-- A mixed payload with the root value 5 and no binary part -/
def rootPayload : Bytes :=
  magicSeamless ++ [7, 0, 0, 0, 0, 0, 0, 0, 0, 0, 0, 0, 0, 0, 0, 0] ++ ascii "[[0],5]"

/-- The instance, with a digest that says nothing -/
def base : Libraries where
  Float := Int
  Array := Bytes
  Object := Empty
  sha256 _ := ⟨List.replicate 32 0, rfl⟩
  maxStrDigits := 4300
  isFinite _ := true
  floatOfInt n := some n
  floatOfStr := readDigit
  intOfFloat x := some x
  intOfStr := readDigit
  floatStr _ := py "0.0"
  floatBool x := x != 0
  intOf _ := none
  floatOf _ := none
  boolOf _ := none
  strOf _ := none
  orjsonLoads s := readJson (rstripNewlines s)
  orjsonDumps := writeJson
  orjsonDumpsNumpy _ := none
  jsonLoads s := readJson (rstripNewlines s)
  yamlSafeLoad _ := none
  astParse _ := false
  ipythonMajor := 9
  splitCells _ := none
  transformCell _ := none
  npLoad b := if startsWith b magicNumpy then some b else none
  Dtype := Unit
  -- every array is a scalar of the buffer's own bytes
  readMagic b := if startsWith b magicNumpy then some (1, 0) else none
  readArrayHeader10 _ := some ⟨[], false, (), 0⟩
  readArrayHeader20 _ := none
  itemsize _ := 1
  hasNames _ := false
  hasObject _ := false
  npProd shape := some shape.prod
  npItems b _ _ _ := b
  reshape a _ _ := some a
  firstItem a := some a
  dtype _ := ()
  dtypeChar _ := cp 'S'
  alignStruct a := some a
  npBytes b := b
  npArray _ := none
  npSave a := some (magicNumpy ++ a)
  toBytes a := a
  dtypeHasFields _ := false
  dtypeKind _ := cp 'S'
  dtypeIsObject _ := false
  ndim _ := 0
  isNdarray _ := true
  allFinite _ := true
  isPyFloat _ := false
  realFinite _ := true
  mixedPlainStream _ stream := if stream = rootPayload then some (.int 5) else none
  mixedSerialize _ := none

/-- Sixteen bytes of a buffer, filled up with zeros -/
def firstBytes (b : Bytes) : Bytes := (b ++ List.replicate 16 0).take 16

/-- What the classification and the parser tell of a buffer, in 16 bytes -/
def facts (b : Bytes) : Bytes :=
  let word := (base.fromBuffer b).word
  UInt8.ofNat (word % 256) :: UInt8.ofNat (word / 256) :: UInt8.ofNat (min b.length 255) ::
    Conversion.celltypes.map fun t => if (base.parseBody b t).isSome then 1 else 0

theorem length_facts (b : Bytes) : (facts b).length = 16 := by
  unfold facts
  simp [Conversion.celltypes]

theorem length_firstBytes (b : Bytes) : (firstBytes b).length = 16 := by
  unfold firstBytes
  simp

/-- What is told of the buffer, and its first bytes -/
def digest (b : Bytes) : Checksum where
  digest := facts b ++ firstBytes b
  length_eq := by simp [length_facts, length_firstBytes]

end Small

/-- The instance -/
def small : Libraries := Small.base.withSha Small.digest

namespace Small

/-! ## §4. The laws of the decoders. -/

theorem encodable_of_plainChar {s : PyStr} (h : s.all plainChar = true) : Python.Encodable s := by
  unfold Python.Encodable
  rw [List.any_eq_false]
  intro c hc
  have hplain := List.all_eq_true.mp h c hc
  unfold plainChar at hplain
  simp only [Bool.and_eq_true, Bool.not_eq_true', decide_eq_true_eq] at hplain
  simp [hplain.2]

/-- What is read is JSON: a digit is small, and a plain string can be encoded. -/
theorem readJson_isJson {s : PyStr} {v : Value} (h : readJson s = some v) : small.IsJson v := by
  unfold readJson at h
  split_ifs at h
  · rw [← Option.some.inj h]
    exact .none
  · rw [← Option.some.inj h]
    exact .bool true
  · rw [← Option.some.inj h]
    exact .bool false
  · rw [← Option.some.inj h]
    exact .dict _
  · split at h
    · cases h
    next c =>
      split at h
      next hc =>
        rw [← Option.some.inj h]
        refine .int _ ?_
        rw [Int.natAbs_natCast]
        omega
      next => cases h
    next c rest _ =>
      split at h
      next hc =>
        rw [← Option.some.inj h]
        exact .str _ (encodable_of_plainChar hc.2.2)
      next => cases h

/-- The laws of the decoders, one by one -/
theorem small_jsonLaws : small.JsonLaws where
  loads_rstrip s := by
    show readJson (rstripNewlines (rstripNewlines s)) = readJson (rstripNewlines s)
    rw [rstripNewlines_idem]
  loads_isJson s v h := readJson_isJson h
  loads_true := rfl
  loads_false := rfl
  maxStrDigits_large := by decide
  floatOfInt_small n _ := rfl
  intOfFloat_finite x _ := rfl

/-- The reader of arrays takes every buffer with the magic. -/
theorem small_npStream {b : Bytes} (h : startsWith b magicNumpy = true) :
    small.npStream b = some b := by
  have hlength : ¬ b.length < 1 := by
    intro hshort
    obtain rfl : b = [] := List.length_eq_zero_iff.mp (by omega)
    cases h
  have hheader : small.parseNpyHeader b = some ⟨[], false, (), 0⟩ := by
    have hmagic : small.readMagic b = some (1, 0) := if_pos h
    unfold Libraries.parseNpyHeader
    rw [hmagic]
    rfl
  have hbuffer : small.npFrombuffer b () (1 : Int) 0 = some b := by
    show (if b.length - 0 < 1 * 1 then none else some b) = some b
    rw [if_neg (by omega)]
  unfold Libraries.npStream
  rw [hheader]
  show (small.npFrombuffer b () (1 : Int) 0).bind _ = some b
  rw [hbuffer]
  rfl

/-! ## §5. The laws of the writers. -/

/-- A quote is no newline. -/
theorem rstrip_quoted (s : PyStr) : rstripNewlines (quoted s) = quoted s := by
  unfold quoted rstripNewlines
  rw [← List.cons_append]
  exact List.rdropWhile_concat_neg _ _ _ (by decide)

/-- A written string is read back: it is none of the constants. -/
theorem readJson_quoted {s : PyStr} (h : s.all plainChar = true) :
    readJson (quoted s) = some (.str s) := by
  have hne : ∀ t : PyStr, t.head? ≠ some (cp '"') → quoted s ≠ t := by
    intro t ht heq
    rw [← heq] at ht
    exact ht rfl
  unfold readJson
  rw [if_neg (hne _ (by decide)), if_neg (hne _ (by decide)), if_neg (hne _ (by decide)),
    if_neg (hne _ (by decide))]
  unfold quoted
  cases s with
  | nil => rfl
  | cons x xs =>
    simp only [List.cons_append]
    rw [if_pos ⟨trivial, by simp [List.getLast?_cons], by
      rw [← List.cons_append, List.dropLast_concat]
      exact h⟩]
    rw [← List.cons_append, List.dropLast_concat]

/-- A one-digit number, as text -/
theorem readJson_digit {n : Int} (h0 : 0 ≤ n) (h9 : n ≤ 9) :
    ∃ text, decodeUtf8 [UInt8.ofNat (48 + n.toNat)] = some text ∧
      readJson (rstripNewlines text) = some (.int n) := by
  obtain ⟨k, rfl⟩ := Int.eq_ofNat_of_zero_le h0
  have hk : k < 10 := by omega
  interval_cases k <;> exact ⟨_, rfl, rfl⟩

theorem writeJson_int (n : Int) : writeJson (.int n) =
    if 0 ≤ n ∧ n ≤ 9 then some [UInt8.ofNat (48 + n.toNat)] else none := rfl

theorem writeJson_str (s : PyStr) : writeJson (.str s) =
    if s.all plainChar then encodeUtf8 (quoted s) else none := rfl

/-- What was written is read back. -/
theorem writeJson_reads {v : Value} {b : Bytes} (h : writeJson v = some b) :
    ∃ text, decodeUtf8 b = some text ∧ readJson (rstripNewlines text) = some v := by
  cases v with
  | none =>
    rw [← Option.some.inj h]
    exact ⟨py "null", rfl, rfl⟩
  | bool value =>
    rw [← Option.some.inj h]
    cases value
    · exact ⟨py "false", rfl, rfl⟩
    · exact ⟨py "true", rfl, rfl⟩
  | int n =>
    rw [writeJson_int] at h
    split_ifs at h with hn
    -- a digit is written as its character
    rw [← Option.some.inj h]
    exact readJson_digit hn.1 hn.2
  | str s =>
    rw [writeJson_str] at h
    split_ifs at h with hs
    refine ⟨quoted s, decodeUtf8_encodeUtf8 h, ?_⟩
    rw [rstrip_quoted, readJson_quoted hs]
  | float | bytes | list | dict | array | checksum | object => cases h

theorem hexDigit_of_mem {b : Bytes} {c : CodePoint} (h : c ∈ hex b) : ∃ m, c = hexDigit m := by
  unfold hex at h
  obtain ⟨x, -, hx⟩ := List.mem_flatMap.mp h
  exact mem_hexDigits hx

/-- 64 hexadecimal digits are no constant, no single digit and no string. -/
theorem readJson_hex (c : Checksum) : readJson (rstripNewlines c.hex) = none := by
  have hstrip : rstripNewlines c.hex = c.hex := by
    apply List.rdropWhile_eq_self_iff.mpr
    intro hne hlast
    obtain ⟨m, hm⟩ := hexDigit_of_mem (List.getLast_mem hne)
    rw [hm] at hlast
    have hval := hexDigit_val m
    simp only [beq_iff_eq] at hlast
    rw [hlast] at hval
    revert hval
    decide
  have hlen : c.hex.length = 64 := by
    show (hex c.digest).length = 64
    rw [length_hex, c.length_eq]
  -- none of the texts that the reader knows is this long
  have hne : ∀ t : PyStr, t.length ≠ 64 → c.hex ≠ t := fun t ht heq => ht (heq ▸ hlen)
  rw [hstrip]
  unfold readJson
  rw [if_neg (hne _ (by decide)), if_neg (hne _ (by decide)), if_neg (hne _ (by decide)),
    if_neg (hne _ (by decide))]
  cases hhex : c.hex with
  | nil => rfl
  | cons x xs =>
    have hx : x ≠ cp '"' := by
      obtain ⟨m, hm⟩ := hexDigit_of_mem (b := c.digest) (c := x) (by
        show x ∈ c.hex
        rw [hhex]
        exact List.mem_cons_self)
      intro hquote
      have hval := hexDigit_val m
      rw [← hm, hquote] at hval
      revert hval
      decide
    cases xs with
    | nil =>
      rw [hhex] at hlen
      cases hlen
    | cons y ys =>
      show (if x = cp '"' ∧ _ then _ else none) = none
      rw [if_neg fun h => hx h.1]

/-- The laws of the writers; most values cannot be written at all. -/
theorem small_writeLaws : small.WriteLaws where
  dumps_loads v b h := by
    obtain ⟨text, hdecode, hread⟩ := writeJson_reads (v := v) h
    exact ⟨text, v, hdecode, hread⟩
  dumps_str s b text h hdecode := by
    obtain ⟨text', hdecode', hread⟩ := writeJson_reads (v := .str s) h
    rw [hdecode] at hdecode'
    rw [Option.some.inj hdecode']
    exact hread
  dumps_int n b h := by
    refine ⟨?_, writeJson_reads (v := .int n) h⟩
    have h' : writeJson (.int n) = some b := h
    rw [writeJson_int] at h'
    split_ifs at h'
    rw [← Option.some.inj h']
    exact Nat.le_of_lt (by decide : 1 < 20)
  dumps_float x b h := by cases h
  dumps_bool value := rfl
  loads_hex c v h := by
    have h' : readJson (rstripNewlines c.hex) = some v := h
    rw [readJson_hex] at h'
    cases h'
  npSave_reads a b _ h := by
    have hb : List.append magicNumpy a = b := Option.some.inj h
    have hmagic : startsWith b magicNumpy = true := by
      rw [← hb]
      exact List.isPrefixOf_iff_prefix.mpr (List.prefix_append _ _)
    refine ⟨hmagic, ?_, ?_⟩
    · show (if startsWith b magicNumpy then some b else none).isSome = true
      rw [if_pos hmagic]
      rfl
    · unfold Libraries.mixedDeserialize
      rw [if_pos hmagic, small_npStream hmagic]
      rfl
  ipython_of_python s h := by cases h

/-! ## §6. The digest. -/

/-- Equal digests tell the same of two buffers. -/
theorem facts_eq {b b' : Bytes} (h : small.sha256 b = small.sha256 b') :
    facts b = facts b' ∧ firstBytes b = firstBytes b' := by
  have hdigest : facts b ++ firstBytes b = facts b' ++ firstBytes b' := congrArg Checksum.digest h
  exact List.append_inj hdigest (by rw [length_facts, length_facts])

theorem ofNat_inj {m n : Nat} (hm : m < 256) (hn : n < 256) (h : UInt8.ofNat m = UInt8.ofNat n) :
    m = n := by
  have hnat := congrArg UInt8.toNat h
  rwa [toNat_ofNat_of_lt hm, toNat_ofNat_of_lt hn] at hnat

/-- Short buffers are told by their length and their first bytes. -/
theorem eq_of_short {b b' : Bytes} (hlen : b.length = b'.length) (hshort : b.length ≤ 16)
    (h : firstBytes b = firstBytes b') : b = b' := by
  have htake := congrArg (List.take b.length) h
  unfold firstBytes at htake
  rw [List.take_take, List.take_take, Nat.min_eq_left hshort, List.take_left' rfl,
    List.take_left' hlen.symm] at htake
  exact htake

/-- The digests tell the constants, the words and the parsed celltypes apart. -/
theorem small_collisionFree : small.CollisionFree where
  constants := by
    intro constant hmem b h
    obtain ⟨hfacts, hfirst⟩ := facts_eq h
    have hshort : ∀ constant ∈ nullBuffers ++ trueBuffers ++ falseBuffers,
        constant.length ≤ 6 := by decide
    have hconstant := hshort constant hmem
    unfold facts at hfacts
    simp only [List.cons.injEq] at hfacts
    have hlen := ofNat_inj (by omega) (by omega) hfacts.2.2.1
    exact eq_of_short (by omega) (by omega) hfirst
  words b b' h := by
    have hfacts := (facts_eq h).1
    unfold facts at hfacts
    simp only [List.cons.injEq, ← Libraries.fromBuffer_withSha base digest] at hfacts
    have hword : (small.fromBuffer b).word = (small.fromBuffer b').word := by
      have h1 := HashType.word_lt (small.fromBuffer b)
      have h2 := HashType.word_lt (small.fromBuffer b')
      -- the word is its low and its high byte
      have hlow := ofNat_inj (Nat.mod_lt _ (by decide)) (Nat.mod_lt _ (by decide)) hfacts.1
      have hhigh := ofNat_inj (m := (small.fromBuffer b).word / 256)
        (n := (small.fromBuffer b').word / 256) (by omega) (by omega) hfacts.2.1
      have hlow' : (small.fromBuffer b).word % 256 = (small.fromBuffer b').word % 256 := hlow
      omega
    have hunpack := congrArg HashType.unpack hword
    rw [HashType.unpack_word, HashType.unpack_word] at hunpack
    exact Option.some.inj hunpack
  bodies b b' t h := by
    have hfacts := (facts_eq h).1
    unfold facts at hfacts
    simp only [List.cons.injEq, ← Libraries.parseBody_withSha base digest] at hfacts
    -- each celltype has a byte of its own
    have hbit : (if (small.parseBody b t).isSome then (1 : UInt8) else 0) =
        if (small.parseBody b' t).isSome then 1 else 0 :=
      List.map_inj_left.mp hfacts.2.2.2 t (by cases t <;> decide)
    cases h1 : (small.parseBody b t).isSome <;> cases h2 : (small.parseBody b' t).isSome <;>
      simp_all

end Small

end SeamlessCore
