/-
  SeamlessCore.Checksum.Parse — the reference parser.

  `parseBuffer` reads a buffer as a celltype: null and booleans from the
  checksum alone, everything else after the stored HashType (or, without one,
  the HashType of the buffer) has not disproved the celltype.

  Main definitions:
    * `virtualValue` — the values that a checksum encodes;
    * `mixedDeserialize` — the reader of `util/mixed`, without its payloads;
    * `parseBuffer` — `_parse_buffer`, for a stored word;
    * `Valid` — what the parser accepts when no word is stored;
    * `Unreadable` — the arrays that only `np.load` reads;
    * `Escapes.parseBuffer` — the parser where `from_buffer` may raise.

  Source: `seamless/checksum/parse_buffer.py`, `virtual.py`,
  `seamless/util/mixed/io`.
-/
import SeamlessCore.HashType.Classify

namespace SeamlessCore

open Python

/-! ## §1. Virtual values. -/

/-- The answer of `virtual_value`; `invalid` is a `ValueError`. -/
inductive Virtual (V : Type) where
  | notVirtual
  | value (v : V)
  | invalid

namespace Libraries

variable (L : Libraries)

/-- `virtual_value` of a boolean checksum -/
def virtualBool (b : Bool) : Celltype → Virtual L.Value
  | .bool | .plain | .mixed => .value (.bool b)
  | .str => .value (.str (if b then py "True" else py "False"))
  | .int | .float => .invalid
  | _ => .notVirtual

/-- `virtual_value(checksum, celltype)` -/
def virtualValue (c : Checksum) (t : Celltype) : Virtual L.Value :=
  if c ∈ L.nullChecksums then .value (if t = .bytes then .bytes [] else .none)
  else if c ∈ L.trueChecksums then L.virtualBool true t
  else if c ∈ L.falseChecksums then L.virtualBool false t
  else if t = .bool then .invalid
  else .notVirtual

/-! ## §2. Mixed buffers. -/

/-- `storage` as the header of a Seamless-mixed buffer spells it -/
def storageOf (s : PyStr) : Option Storage :=
  if s = py "pure-plain" then some .purePlain
  else if s = py "pure-binary" then some .pureBinary
  else if s = py "mixed-plain" then some .mixedPlain
  else none

/-- `from_stream(stream, storage, form)` of a bytes object -/
def fromStream (stream : Bytes) (form : L.Value) : Storage → Option L.Value
  -- `assert isinstance(stream, str)`
  | .purePlain => none
  | .pureBinary => (L.npStream stream).map .array
  | .mixedPlain => L.mixedPlainStream form stream

/-- `deserialize(data)` of a Seamless-mixed buffer -/
def deserializeSeamlessMixed (data : Bytes) : Option (L.Value × Storage) :=
  let offset := magicSeamlessMixed.length
  match data[offset]? with
  | none => none
  | some lh1 =>
    let offset := offset + 1
    let h1 := slice data offset (offset + lh1.toNat)
    let offset := offset + lh1.toNat
    let lh2 := slice data offset (offset + 4)
    -- `np.frombuffer(…, np.uint32)[0]`
    if lh2.length ≠ 4 then none
    else
      let offset := offset + 4
      let h2 := slice data offset (offset + littleEndian lh2)
      let offset := offset + littleEndian lh2
      match (decodeUtf8 h1).bind storageOf, (decodeUtf8 h2).bind L.jsonLoads with
      | some storage, some form =>
        (L.fromStream (data.drop offset) form storage).map fun value => (value, storage)
      | _, _ => none

/-- `deserialize(data)` -/
def mixedDeserialize (data : Bytes) : Option (L.Value × Storage) :=
  if startsWith data magicNumpy then
    ((L.npStream data).bind L.alignStruct).map fun a => (.array a, .pureBinary)
  else if startsWith data magicSeamlessMixed then L.deserializeSeamlessMixed data
  else if startsWith data magicSeamless then none
  else
    match decodeUtf8 data with
    | none => none
    | some text =>
      match L.jsonLoads text with
      | some value => some (value, .purePlain)
      | none => some (.array (L.npBytes data), .pureBinary)

/-! ## §3. The parser. -/

/-- `_parse_buffer_plain(buffer)` -/
def parsePlain (b : Bytes) : Option L.Value :=
  match decodeUtf8 b with
  | none => none
  | some s => L.orjsonLoads (rstripNewlines s)

/-- A finite JSON number, or a JSON string that spells one. -/
def isNumeric : L.Value → Bool
  | .str s =>
    match L.floatOfStr s with
    | none => false
    | some x => L.isFinite x
  | .int _ => true
  | .float x => L.isFinite x
  | _ => false

/-- `str(value)` of a JSON scalar other than null -/
def scalarStr : L.Value → Option PyStr
  | .str s => L.pyStr (.str s)
  | .int n => L.pyStr (.int n)
  | .float x => L.pyStr (.float x)
  | .bool b => L.pyStr (.bool b)
  | _ => none

/-- `int(value)`, else `int(float(value))` -/
def scalarInt (value : L.Value) : Option Int :=
  match L.pyInt value with
  | some n => some n
  | none => (L.pyFloat value).bind L.intOfFloat

/-- `_parse_scalar(buffer, celltype)` -/
def parseScalar (b : Bytes) (t : Celltype) : Option L.Value :=
  if (t = .int ∨ t = .float) ∧ 1000 < b.length then none
  else
    match L.parsePlain b with
    | none => none
    | some value =>
      match t with
      | .str => (L.scalarStr value).map .str
      | .int => if L.isNumeric value then (L.scalarInt value).map .int else none
      | .float => if L.isNumeric value then (L.pyFloat value).map .float else none
      | _ => none

/-- `validate_text(text, celltype, …)` does not raise. -/
def validateText (text : PyStr) : Celltype → Bool
  | .python => L.astParse text
  | .ipython => (L.ipython2python text).isSome
  | .yaml => (L.yamlSafeLoad text).isSome
  | _ => true

/-- The text celltypes of `text_types2` -/
def parseText (b : Bytes) (t : Celltype) : Option L.Value :=
  match decodeUtf8 b with
  | none => none
  | some s =>
    let value := rstripNewlines s
    if L.validateText value t then some (.str value) else none

/-- `_parse_buffer` after the HashType has been validated -/
def parseBody (b : Bytes) : Celltype → Option L.Value
  | .text => L.parseText b .text
  | .python => L.parseText b .python
  | .ipython => L.parseText b .ipython
  | .yaml => L.parseText b .yaml
  | .plain => L.parsePlain b
  | .binary =>
    match L.mixedDeserialize b with
    | some (value, .pureBinary) => some value
    | _ => none
  | .mixed => (L.mixedDeserialize b).map Prod.fst
  | .bytes => some (.bytes b)
  | .str => L.parseScalar b .str
  | .int => L.parseScalar b .int
  | .float => L.parseScalar b .float
  | .bool => L.parseScalar b .bool
  | .checksum => ((decodeUtf8 b).bind Checksum.ofStr).map .checksum

/-- `_parse_buffer(buffer, checksum, celltype)`, where `stored` is the
HashType that is known for the checksum -/
def parseBuffer (stored : Option HashType) (b : Bytes) (c : Checksum) (t : Celltype) :
    Option L.Value :=
  match L.virtualValue c t with
  | .value v => some v
  | .invalid => none
  | .notVirtual =>
    if L.deserializableAs (stored.getD (L.fromBuffer b)) t c = some false then none
    else L.parseBody b t

/-- The parser accepts the buffer as the celltype, from its bytes alone. -/
def Valid (b : Bytes) (t : Celltype) : Prop := (L.parseBuffer none b (L.sha256 b) t).isSome

instance (b : Bytes) (t : Celltype) : Decidable (L.Valid b t) :=
  inferInstanceAs (Decidable (_ = true))

/-- `np.load` accepts the array, and the repository's own reader does not, for example
since its items take no bytes. -/
def Unreadable (b : Bytes) : Prop :=
  startsWith b magicNumpy = true ∧ (L.npLoad b).isSome = true ∧ L.mixedDeserialize b = none

/-- An array of a dtype without width, such as `|S0`, is not readable. -/
theorem unreadable_of_zeroWidth {b : Bytes} (hmagic : startsWith b magicNumpy = true)
    (hload : (L.npLoad b).isSome = true) {h : NpyHeader L.Dtype}
    (hheader : L.parseNpyHeader b = some h) (hsize : L.itemsize h.dtype = 0)
    (hnames : L.hasNames h.dtype = false) : L.Unreadable b := by
  refine ⟨hmagic, hload, ?_⟩
  unfold mixedDeserialize
  rw [if_pos hmagic, L.npStream_zeroWidth hheader hsize hnames]
  rfl

/-- A truthful word: the word of the buffer, or a less informative valid one. -/
structure Truthful (b : Bytes) (h : HashType) : Prop where
  valid : HashType.isValidWord h.word = true
  implied : (L.fromBuffer b).implies h = true

theorem truthful_fromBuffer (b : Bytes) : L.Truthful b (L.fromBuffer b) :=
  ⟨L.fromBuffer_valid b, HashType.implies_refl _⟩

end Libraries

/-- `_parse_buffer(buffer, checksum, celltype)` where `from_buffer` may raise: without a
stored word the buffer is classified, unless its value is virtual. -/
def Escapes.parseBuffer {L : Libraries} (E : Escapes L) (stored : Option HashType) (b : Bytes)
    (c : Checksum) (t : Celltype) : Option L.Value :=
  match L.virtualValue c t with
  | .value v => some v
  | .invalid => none
  | .notVirtual =>
    if stored = none ∧ E.fromBuffer b = none then none else L.parseBuffer stored b c t

/-- Where `from_buffer` does not raise, the parser is the one that classifies every buffer. -/
theorem Escapes.parseBuffer_of_word {L : Libraries} (E : Escapes L) {b : Bytes} {own : HashType}
    (h : E.fromBuffer b = some own) (stored : Option HashType) (c : Checksum) (t : Celltype) :
    E.parseBuffer stored b c t = L.parseBuffer stored b c t := by
  unfold parseBuffer
  cases hvirtual : L.virtualValue c t with
  | notVirtual =>
    dsimp only
    rw [if_neg (by simp [h])]
  | value | invalid =>
    unfold Libraries.parseBuffer
    rw [hvirtual]

end SeamlessCore
