/-
  SeamlessCore.HashType.Classify — what a buffer is, from its bytes.

  `fromBuffer` looks for the two magic prefixes, then for UTF-8, then for
  JSON.  `deserializableAs` answers from a HashType alone whether a buffer
  reads as a celltype: `some true` and `some false` are proofs, `none` asks
  for the parser.  Null and the booleans are recognised by their checksum.

  Main results:
    * `fromBuffer_valid` — the word of every buffer is valid;
    * `deserializableAs_mono` — a proof stays a proof under a tighter word;
    * `raises_rawBytes` — a buffer on which `from_buffer` raises is malformed,
      and raw bytes otherwise.

  Source: `seamless/checksum/hash_type.py`, `virtual.py`.
-/
import SeamlessCore.HashType.Word
import SeamlessCore.Checksum.Libraries

namespace SeamlessCore

open Python

/-! ## §1. Celltypes and constants. -/

/-- The ordinary celltypes. -/
inductive Celltype where
  | binary
  | mixed
  | text
  | python
  | ipython
  | plain
  | yaml
  | str
  | bytes
  | int
  | float
  | bool
  | checksum
  deriving DecidableEq, Repr

/-- An ASCII bytes literal -/
def ascii (s : String) : Bytes := s.toList.map fun c => UInt8.ofNat c.toNat

/-- `MAGIC_NUMPY` -/
def magicNumpy : Bytes := 0x93 :: ascii "NUMPY"

/-- `MAGIC_SEAMLESS` -/
def magicSeamless : Bytes := 0x93 :: ascii "SEAMLESS"

/-- `MAGIC_SEAMLESS_MIXED` -/
def magicSeamlessMixed : Bytes := 0x94 :: ascii "SEAMLESS-MIXED"

/-- `buffer.startswith(magic)` -/
def startsWith (b magic : Bytes) : Bool := magic.isPrefixOf b

/-- `buffer[i:j]` -/
def slice (b : Bytes) (i j : Nat) : Bytes := (b.drop i).take (j - i)

/-- `int.from_bytes(b, "little")` -/
def littleEndian (b : Bytes) : Nat := b.foldr (fun x n => x.toNat + 256 * n) 0

def nullBuffers : List Bytes := [ascii "null", ascii "null\n"]

def trueBuffers : List Bytes := [ascii "true", ascii "true\n"]

def falseBuffers : List Bytes := [ascii "false", ascii "false\n"]

/-- `NULL_BUFFER` -/
def nullBuffer : Bytes := ascii "null\n"

namespace Libraries

variable (L : Libraries)

/-- `NULL_CHECKSUMS` -/
def nullChecksums : List Checksum := nullBuffers.map L.sha256

/-- `TRUE_CHECKSUMS` -/
def trueChecksums : List Checksum := trueBuffers.map L.sha256

/-- `FALSE_CHECKSUMS` -/
def falseChecksums : List Checksum := falseBuffers.map L.sha256

/-! ## §2. Classification. -/

/-- `_length_bucket(length)` -/
def lengthBucket (length : Nat) : Length :=
  if length < 64 then .short
  else if length = 64 then .eq64
  else if length ≤ 1000 then .medium
  else .long

/-- `_numpy_type(raw)` of the loaded array -/
def numpyType (a : L.Array) : DType × Rank × Flags :=
  let dtype : DType :=
    if L.dtypeHasFields a then .structured
    else if L.dtypeKind a ∈ py "biufc" then .numeric
    else .nonnumeric
  let rank : Rank :=
    match L.ndim a with
    | 0 => .scalar
    | 1 => .d1
    | 2 => .d2
    | _ => .d3plus
  let flags : Flags :=
    if dtype = .nonnumeric ∧ rank = .scalar ∧ L.dtypeKind a = cp 'S' then ⟨false, true, false⟩
    else .none
  (dtype, rank, flags)

/-- The kind that the form of a Seamless-mixed header declares. -/
def formKind : L.Value → Option Kind
  | .dict form =>
    match L.dictGet form (py "type") with
    | some (.str topType) =>
      if topType = py "object" then some .mixedObject
      else if topType = py "array" then some .mixedArray
      else none
    | _ => none
  | _ => none

/-- `_mixed_kind(raw)`; `none` is one of the exceptions that `from_buffer` catches. -/
def mixedKind (raw : Bytes) : Option Kind :=
  match raw[magicSeamlessMixed.length]? with
  | none => none
  | some storageLength =>
    let offset := magicSeamlessMixed.length + 1 + storageLength.toNat
    let formLength := littleEndian (slice raw offset (offset + 4))
    let offset := offset + 4
    match decodeUtf8 (slice raw offset (offset + formLength)) with
    | none => none
    | some formText => (L.jsonLoads formText).bind L.formKind

/-- `_json_kind_and_flags(text)` -/
def jsonKindAndFlags (text : PyStr) : Option Kind × Flags :=
  match L.orjsonLoads text with
  | none => (none, .none)
  | some (.dict _) => (some .jsonObject, .none)
  | some (.list _) => (some .jsonArray, .none)
  | some (.str s) =>
    let numeric :=
      match L.floatOfStr s with
      | none => false
      | some x => L.isFinite x
    (some .jsonString, ⟨numeric, false, false⟩)
  | some .none => (some .jsonNull, .none)
  | some (.int _) => (some .jsonNumber, ⟨true, false, false⟩)
  | some (.float _) => (some .jsonNumber, ⟨true, false, false⟩)
  | some (.bool _) => (some .jsonString, .none)
  | some _ => (none, .none)

/-- `from_buffer(buffer)` -/
def fromBuffer (raw : Bytes) : HashType :=
  let length := lengthBucket raw.length
  if startsWith raw magicNumpy then
    match L.npLoad raw with
    | none => { kind := .rawBytes, length := length }
    | some a =>
      let (dtype, rank, flags) := L.numpyType a
      { kind := .numpy, length := length, dtype := dtype, rank := rank, flags := flags }
  else if startsWith raw magicSeamlessMixed then
    match L.mixedKind raw with
    | none => { kind := .rawBytes, length := length }
    | some kind => { kind := kind, length := length }
  else
    match decodeUtf8 raw with
    | none => { kind := .rawBytes, length := length }
    | some text =>
      match L.jsonKindAndFlags text with
      | (none, _) => { kind := .rawText, length := length }
      | (some kind, flags) => { kind := kind, length := length, flags := flags }

/-- `deserializable_as` for an untested word -/
def untestedAnswer (ti : HashType) (celltype : Celltype) (checksum : Checksum) : Option Bool :=
  match celltype with
  | .text => if ti.isUtf8 then some true else none
  | .yaml | .ipython | .python => none
  | .plain | .mixed => if ti.isJson then some true else none
  | .str =>
    if checksum ∈ L.trueChecksums ++ L.falseChecksums ++ L.nullChecksums then some true else none
  | .int | .float => if ti.length = .long then some false else none
  | .binary => if ti.kind = .untested then none else some false
  | .checksum => if ti.length = .eq64 then none else some false
  | .bytes | .bool => some false

/-- `deserializable_as` for a concrete word -/
def testedAnswer (ti : HashType) (celltype : Celltype) (checksum : Checksum) : Option Bool :=
  match celltype with
  | .text => some ti.isUtf8
  | .yaml | .ipython | .python => if ti.isUtf8 then none else some false
  | .plain => some ti.isJson
  | .str =>
    if ti.kind = .jsonNumber ∨ checksum ∈ L.trueChecksums ++ L.falseChecksums ++ L.nullChecksums then
      some true
    else some (decide (ti.kind = .jsonString))
  | .int | .float => if ti.length = .long then some false else some ti.flags.numericScalar
  | .binary => some (decide (ti.kind = .numpy))
  | .mixed =>
    if ti.kind = .rawBytes ∨ ti.kind = .rawText then some false
    else if ti.isMixed then none
    else some true
  | .checksum =>
    if (ti.kind = .rawText ∨ ti.kind = .jsonNumber) ∧ ti.length = .eq64 then none else some false
  | .bytes | .bool => some false

/-- `deserializable_as(hash_type, celltype, checksum=...)` -/
def deserializableAs (ti : HashType) (celltype : Celltype) (checksum : Checksum) : Option Bool :=
  if checksum ∈ L.nullChecksums then some true
  else if celltype = .bytes then some true
  else if celltype = .bool then
    some (decide (checksum ∈ L.trueChecksums ++ L.falseChecksums))
  else if ti.isUntested then L.untestedAnswer ti celltype checksum
  else L.testedAnswer ti celltype checksum

theorem deserializableAs_tested {ti : HashType} {t : Celltype} {c : Checksum}
    (hnull : c ∉ L.nullChecksums) (hbytes : t ≠ .bytes) (hbool : t ≠ .bool)
    (htested : ti.isUntested = false) :
    L.deserializableAs ti t c = L.testedAnswer ti t c := by
  unfold deserializableAs
  rw [if_neg hnull, if_neg hbytes, if_neg hbool, if_neg (by simp [htested])]

/-! ## §3. Validity. -/

theorem formKind_isMixed {form : L.Value} {k : Kind} (h : L.formKind form = some k) :
    k = .mixedObject ∨ k = .mixedArray := by
  unfold formKind at h
  split at h
  · split at h
    · split at h
      · exact .inl (Option.some.inj h).symm
      · split at h
        · exact .inr (Option.some.inj h).symm
        · cases h
    · cases h
  · cases h

theorem mixedKind_isMixed {raw : Bytes} {k : Kind} (h : L.mixedKind raw = some k) :
    k = .mixedObject ∨ k = .mixedArray := by
  unfold mixedKind at h
  cases hlen : raw[magicSeamlessMixed.length]? with
  | none => simp [hlen] at h
  | some storageLength =>
    simp only [hlen] at h
    split at h
    · cases h
    · obtain ⟨form, -, hform⟩ := Option.bind_eq_some_iff.mp h
      exact L.formKind_isMixed hform

/-- The flags of a JSON kind are those that the kind admits. -/
theorem jsonKindAndFlags_valid {text : PyStr} {k : Kind} {f : Flags}
    (h : L.jsonKindAndFlags text = (some k, f)) :
    k ∈ [.jsonObject, .jsonArray, .jsonString, .jsonNumber, .jsonNull] ∧
      f.numpyBytes = false ∧ f.semantic = false ∧ (k = .jsonNumber → f.numericScalar = true) ∧
      (f.numericScalar = true → k = .jsonNumber ∨ k = .jsonString) := by
  unfold jsonKindAndFlags at h
  split at h <;> simp only [Prod.mk.injEq, Option.some.injEq, reduceCtorEq, false_and] at h <;>
    obtain ⟨rfl, rfl⟩ := h <;> simp [Flags.none]

/-- A NumPy word has a dtype, and its flag only on a scalar that is no number. -/
theorem wellFormed_numpy (l : Length) {d : DType} (hd : d ≠ .na) (r : Rank) (p : Prop)
    [Decidable p] :
    HashType.wellFormed { kind := .numpy, length := l, dtype := d, rank := r, flags :=
      if d = .nonnumeric ∧ r = .scalar ∧ p then ⟨false, true, false⟩ else .none } = true := by
  by_cases hp : p
  · simp only [hp, and_true]
    cases d with
    | na => exact absurd rfl hd
    | _ => cases r <;> rfl
  · simp only [hp, and_false, if_false]
    cases d with
    | na => exact absurd rfl hd
    | _ => cases r <;> rfl

/-- A JSON word has the flag of a number where it must and where it may. -/
theorem wellFormed_json (l : Length) {k : Kind} {f : Flags}
    (hk : k ∈ [.jsonObject, .jsonArray, .jsonString, .jsonNumber, .jsonNull])
    (hbytes : f.numpyBytes = false) (hsem : f.semantic = false)
    (hnum : k = .jsonNumber → f.numericScalar = true)
    (hnum' : f.numericScalar = true → k = .jsonNumber ∨ k = .jsonString) :
    HashType.wellFormed { kind := k, length := l, flags := f } = true := by
  obtain ⟨numeric, bytes, semantic⟩ := f
  obtain rfl : bytes = false := hbytes
  obtain rfl : semantic = false := hsem
  simp only [List.mem_cons, List.not_mem_nil, or_false] at hk
  cases numeric with
  | false =>
    have hne : k ≠ .jsonNumber := fun h => absurd (hnum h) (by decide)
    rcases hk with rfl | rfl | rfl | rfl | rfl
    · rfl
    · rfl
    · rfl
    · exact absurd rfl hne
    · rfl
  | true => rcases hnum' rfl with rfl | rfl <;> rfl

/-- The word of every buffer is valid. -/
theorem fromBuffer_valid (raw : Bytes) : HashType.isValidWord (L.fromBuffer raw).word = true := by
  rw [HashType.isValidWord_word]
  unfold fromBuffer
  simp only
  split
  · cases L.npLoad raw with
    | none => rfl
    | some a =>
      refine wellFormed_numpy _ ?_ _ _
      unfold numpyType
      dsimp only
      split
      · decide
      · split <;> decide
  · split
    · cases h : L.mixedKind raw with
      | none => rfl
      | some k =>
        rcases L.mixedKind_isMixed h with hk | hk <;> rw [hk] <;> rfl
    · cases decodeUtf8 raw with
      | none => rfl
      | some text =>
        simp only
        split
        · rfl
        next k f h =>
          obtain ⟨hk, hbytes, hsem, hnum, hnum'⟩ := L.jsonKindAndFlags_valid h
          exact wellFormed_json _ hk hbytes hsem hnum hnum'

/-! ## §4. Monotonicity. -/

/-- A proof stays a proof under a tighter word. -/
theorem deserializableAs_mono {tighter looser : HashType} (h : tighter.implies looser = true)
    {t : Celltype} {c : Checksum} {answer : Bool}
    (ha : L.deserializableAs looser t c = some answer) :
    L.deserializableAs tighter t c = some answer := by
  by_cases hu : looser.isUntested = true
  · have hlen := HashType.implies_length h
    have hutf8 := HashType.implies_isUtf8 h
    have hjson := HashType.implies_isJson h
    -- what the looser word proves is UTF-8, JSON, the length, or the checksum
    unfold deserializableAs at ha ⊢
    by_cases hnull : c ∈ L.nullChecksums
    · rw [if_pos hnull] at ha ⊢
      exact ha
    rw [if_neg hnull] at ha ⊢
    by_cases hbytes : t = .bytes
    · rw [if_pos hbytes] at ha ⊢
      exact ha
    rw [if_neg hbytes] at ha ⊢
    by_cases hbool : t = .bool
    · rw [if_pos hbool] at ha ⊢
      exact ha
    rw [if_neg hbool, if_pos hu] at ha
    rw [if_neg hbool]
    unfold untestedAnswer at ha ⊢
    unfold testedAnswer
    cases t with
    | text =>
      simp only [Option.ite_none_right_eq_some] at ha
      simp [hutf8 ha.1, ← ha.2]
    | yaml | ipython | python => cases ha
    | plain =>
      simp only [Option.ite_none_right_eq_some] at ha
      simp [hjson ha.1, ← ha.2]
    | mixed =>
      simp only [Option.ite_none_right_eq_some] at ha
      have hj := hjson ha.1
      rw [← ha.2]
      -- a JSON kind is neither raw nor mixed
      have hkind : ¬ (tighter.kind = .rawBytes ∨ tighter.kind = .rawText) ∧
          ¬ tighter.isMixed = true := by
        unfold HashType.isJson at hj
        unfold HashType.isMixed
        cases hk : tighter.kind <;> rw [hk] at hj <;> revert hj <;> decide
      simp [hj, hkind.1, hkind.2]
    | str =>
      simp only [Option.ite_none_right_eq_some] at ha
      rw [← ha.2]
      split
      · exact if_pos ha.1
      · exact if_pos (.inr ha.1)
    | int | float =>
      simp only [Option.ite_none_right_eq_some] at ha
      simp [hlen.trans ha.1, ← ha.2]
    | binary =>
      have hk : looser.kind ≠ .untested ∧ answer = false := by
        by_cases hk : looser.kind = .untested
        · simp [hk] at ha
        · simpa [hk] using ha
      -- the other untested kinds claim UTF-8
      have hlu : looser.isUtf8 = true := by
        rcases HashType.isUntested_cases hu with h' | h' | h'
        · exact absurd h' hk.1
        · simp [HashType.isUtf8, h']
        · simp [HashType.isUtf8, h']
      have htu := hutf8 hlu
      rw [hk.2]
      unfold HashType.isUtf8 at htu
      have hkt : tighter.kind ≠ .untested ∧ tighter.kind ≠ .numpy := by
        cases hkt : tighter.kind <;> rw [hkt] at htu <;> revert htu <;> decide
      simp [hkt.1, hkt.2]
    | bytes => exact absurd rfl hbytes
    | bool => exact absurd rfl hbool
    | checksum =>
      have hl : looser.length ≠ .eq64 ∧ answer = false := by
        by_cases hl : looser.length = .eq64
        · simp [hl] at ha
        · simpa [hl] using ha
      simp [hlen, hl.1, hl.2]
  · rw [HashType.eq_of_implies h (by simpa using hu)]
    exact ha

end Libraries

/-! ## §5. Buffers that are not classified. -/

/-- The text of the form in a Seamless-mixed header, if there is one -/
def formText (raw : Bytes) : Option PyStr :=
  match raw[magicSeamlessMixed.length]? with
  | none => none
  | some storageLength =>
    let offset := magicSeamlessMixed.length + 1 + storageLength.toNat
    let formLength := littleEndian (slice raw offset (offset + 4))
    decodeUtf8 (slice raw (offset + 4) (offset + 4 + formLength))

theorem Libraries.mixedKind_eq (L : Libraries) (raw : Bytes) :
    L.mixedKind raw = (formText raw).bind fun text => (L.jsonLoads text).bind L.formKind := by
  unfold Libraries.mixedKind formText
  cases raw[magicSeamlessMixed.length]? with
  | none => rfl
  | some storageLength =>
    dsimp only
    split
    next h => rw [h]; rfl
    next text h => rw [h]; rfl

/-- Where the readers raise what `from_buffer` does not catch. -/
structure Escapes (L : Libraries) where
  /-- `np.load` raises neither `EOFError` nor `ValueError`. -/
  npLoad : Bytes → Bool
  /-- `json.loads` raises no `ValueError`, but for example a `RecursionError`. -/
  jsonLoads : PyStr → Bool
  npLoad_none : ∀ b, npLoad b = true → L.npLoad b = none
  jsonLoads_none : ∀ text, jsonLoads text = true → L.jsonLoads text = none

namespace Escapes

variable {L : Libraries} (E : Escapes L)

/-- `from_buffer(buffer)` raises. -/
def raises (raw : Bytes) : Bool :=
  if startsWith raw magicNumpy then E.npLoad raw
  else if startsWith raw magicSeamlessMixed then (formText raw).any E.jsonLoads
  -- what `orjson` and `float` raise is caught
  else false

/-- `from_buffer(buffer)`; `none` where it raises -/
def fromBuffer (raw : Bytes) : Option HashType :=
  if E.raises raw then none else some (L.fromBuffer raw)

/-- A buffer on which `from_buffer` raises is one that its readers reject, as
those that it classifies as raw bytes. -/
theorem raises_rawBytes {raw : Bytes} (h : E.raises raw = true) :
    (L.fromBuffer raw).kind = .rawBytes := by
  unfold raises at h
  unfold Libraries.fromBuffer
  by_cases hnumpy : startsWith raw magicNumpy = true
  · rw [if_pos hnumpy] at h
    have hload : L.npLoad raw = none := E.npLoad_none raw h
    simp only [hnumpy, hload, if_true]
  · rw [if_neg hnumpy] at h
    by_cases hmixed : startsWith raw magicSeamlessMixed = true
    · rw [if_pos hmixed] at h
      obtain ⟨text, htext, hescapes⟩ := (Option.any_eq_true _ _).mp h
      have hkind : L.mixedKind raw = none := by
        rw [L.mixedKind_eq, htext]
        show (L.jsonLoads text).bind L.formKind = none
        rw [E.jsonLoads_none text hescapes]
        rfl
      simp only [hnumpy, hmixed, hkind, if_true]
      rfl
    · rw [if_neg hmixed] at h
      cases h

end Escapes

end SeamlessCore
