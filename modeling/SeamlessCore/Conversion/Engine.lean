/-
  SeamlessCore.Conversion.Engine — `convert_checksum`.

  A conversion gets the checksum of its source and a callback for the source
  buffer, and asks for the buffer only where a rule needs its content.  What
  is known of a checksum is its HashType word, which parsing and hashing a
  buffer add to.  Conversions are `Lazy` programs: `ask` and `put` are the
  table of words, `fetch` is the callback, `fail` is any exception.

  Main definitions:
    * `parseBufferStored` — `_parse_buffer` with the table of words;
    * `convertStep`, `convert` — `_convert`;
    * `convertChecksum`, `conversionNeedsBuffer` — the entry points.

  Source: `seamless/checksum/convert.py`, `hash_type.py`,
  `hash_type_validation.py`.
-/
import SeamlessCore.Lib.Lazy
import SeamlessCore.Conversion.Tables
import SeamlessCore.Checksum.Serialize

namespace SeamlessCore

open Python Lazy

/-- What is known of the checksums. -/
abbrev Knowledge := Table Checksum HashType

/-- A program over the table of words and one source buffer -/
abbrev Conv (α : Type) := Prog Checksum HashType Bytes α

/-- A checksum, with the buffer if it is a new one -/
abbrev Converted := Checksum × Option Bytes

/-! ## §1. The table of words. -/

/-- `_set_hash_type(checksum, hash_type)` -/
def setHashType (c : Checksum) (incoming : HashType) : Conv Unit :=
  if HashType.isValidWord incoming.word then
    .ask c fun
      | none => .put c incoming (.ret ())
      | some stored =>
        if stored = incoming then .ret ()
        else if stored.implies incoming then .ret ()
        -- a contradiction is a `ValueError`
        else if !incoming.implies stored then .fail
        else .put c incoming (.ret ())
  else .fail

/-- `get_buffer()` -/
def getBuffer : Conv Bytes := .fetch .ret

/-- The result of a chain from the results of its two parts. -/
def chainResult (c : Checksum) (first second : Converted) : Conv Converted :=
  match second.2 with
  | some b => return (second.1, some b)
  | none =>
    if second.1 = c then return (c, none)
    -- `AssertionError`
    else if first.2 = none ∨ second.1 ≠ first.1 then .fail
    else return (second.1, first.2)

namespace Libraries

variable (L : Libraries)

/-- `register_hash_type_for_buffer(checksum, buffer)` -/
def registerHashType (c : Checksum) (b : Bytes) : Conv HashType := do
  setHashType c (L.fromBuffer b)
  return L.fromBuffer b

/-- `ensure_hash_type(checksum, buffer=buffer)` -/
def ensureHashType (c : Checksum) (buffer : Option Bytes) : Conv (Option HashType) :=
  .ask c fun
    | some h => return some h
    | none =>
      match buffer with
      | some b => do return some (← L.registerHashType c b)
      | none => return none

/-- `validate_deserializable_as(checksum, celltype, buffer=buffer)` -/
def validateDeserializableAs (c : Checksum) (t : Celltype) (buffer : Option Bytes) :
    Conv (Option HashType) := do
  match ← L.ensureHashType c buffer with
  | none => return none
  | some h => if L.deserializableAs h t c = some false then .fail else return some h

/-- `_parse_buffer(buffer, checksum, celltype)` -/
def parseBufferStored (b : Bytes) (c : Checksum) (t : Celltype) : Conv L.Value :=
  match L.virtualValue c t with
  | .value v => return v
  | .invalid => .fail
  | .notVirtual => do
    let _ ← L.validateDeserializableAs c t (some b)
    .ofOption (L.parseBody b t)

/-! ## §2. Values and results. -/

/-- `_value_of(checksum, celltype, get_buffer)` -/
def valueOf (c : Checksum) (t : Celltype) : Conv L.Value :=
  match L.virtualValue c t with
  | .value v => return v
  | .invalid => .fail
  | .notVirtual => do
    let _ ← L.validateDeserializableAs c t none
    let b ← getBuffer
    L.parseBufferStored b c t

/-- `_reinterpret(checksum, target, get_buffer)` -/
def reinterpret (c : Checksum) (t : Celltype) : Conv Converted :=
  match L.virtualValue c t with
  | .value _ => return (c, none)
  | .invalid => .fail
  | .notVirtual => do
    let known ← L.validateDeserializableAs c t none
    if known.any fun h => L.deserializableAs h t c = some true then return (c, none)
    else
      let b ← getBuffer
      let _ ← L.parseBufferStored b c t
      return (c, none)

/-- `_buffer_result(buffer)`; hashing the buffer registers its word. -/
def bufferResult (b : Bytes) : Conv Converted := do
  let _ ← L.registerHashType (L.sha256 b) b
  return (L.sha256 b, some b)

/-- `_buffer_result(Buffer(value, celltype))` -/
def valueResult (v : L.Value) (t : Celltype) : Conv Converted := do
  let b ← .ofOption (L.serialize v t)
  L.bufferResult b

/-- `getattr(builtins, target)(value)`, for a finite `float` where `finite` -/
def builtin (finite : Bool) (v : L.Value) : Celltype → Option L.Value
  | .int => (L.pyInt v).map .int
  | .float => (L.pyFloat v).bind fun x => if finite && !L.isFinite x then none else some (.float x)
  | .bool => (L.pyBool v).map .bool
  | .str => (L.pyStr v).map .str
  | _ => none

/-! ## §3. Reformatting rules. -/

/-- `_bytes_to_binary(checksum, get_buffer)` -/
def bytesToBinary (c : Checksum) : Conv Converted := do
  let b ← getBuffer
  if startsWith b magicNumpy then
    match ← (L.valueOf c .binary).attempt with
    | some _ => return (c, none)
    | none => L.valueResult (.array (L.npBytes b)) .binary
  else L.valueResult (.array (L.npBytes b)) .binary

/-- `_bytes_to_mixed(checksum, get_buffer)` where the word is no proof -/
def inspectMixed (c : Checksum) : Conv Converted := do
  let b ← getBuffer
  let read ←
    if L.deserializableAs (L.fromBuffer b) .mixed c = some false then pure none
    else (L.valueOf c .mixed).attempt
  match read with
  | some _ => return (c, none)
  | none =>
    match decodeUtf8 b with
    | some text => L.valueResult (.str (rstripNewlines text)) .str
    | none => L.valueResult (.array (L.npBytes b)) .binary

/-- `_bytes_to_mixed(checksum, get_buffer)` -/
def bytesToMixed (c : Checksum) : Conv Converted :=
  match L.virtualValue c .mixed with
  | .value _ => return (c, none)
  | .invalid => .fail
  | .notVirtual => do
    let known ← L.ensureHashType c none
    if known.any fun h => L.deserializableAs h .mixed c = some true then return (c, none)
    else L.inspectMixed c

/-- `_binary_to_bytes(checksum, get_buffer)` -/
def binaryToBytes (c : Checksum) : Conv Converted := do
  match ← L.valueOf c .binary with
  | .array a =>
    if L.dtypeKind a = cp 'S' then L.valueResult (.bytes (L.toBytes a)) .bytes
    else return (c, none)
  | _ => return (c, none)

/-- `_mixed_to_bytes(checksum, get_buffer)` -/
def mixedToBytes (c : Checksum) : Conv Converted := do
  let b ← getBuffer
  if startsWith b magicNumpy then L.binaryToBytes c
  else
    let _ ← L.valueOf c .mixed
    return (c, none)

/-- JSON, or else the text itself -/
def textValue : L.Value → L.Value
  | .str text => (L.orjsonLoads text).getD (.str text)
  | v => v

/-- The value of a text as `plain`; null and booleans need no buffer. -/
def plainOfText (c : Checksum) : Conv L.Value :=
  match L.virtualValue c .plain with
  | .value v => return v
  | .invalid => .fail
  | .notVirtual => do
    let text ← L.valueOf c .text
    return L.textValue text

/-- `_text_to_plain(checksum, get_buffer)` -/
def textToPlain (c : Checksum) : Conv Converted := do
  let value ← L.plainOfText c
  let result ← L.valueResult value .plain
  -- a canonical source keeps its checksum
  if result.1 = c then return (c, none) else return result

/-- `_convert_reformat(checksum, source, target, get_buffer)` -/
def convertReformat (c : Checksum) : Celltype → Celltype → Conv Converted
  | .bytes, .binary => L.bytesToBinary c
  | .bytes, .mixed => L.bytesToMixed c
  | .binary, .bytes => L.binaryToBytes c
  | .mixed, .bytes => L.mixedToBytes c
  | .plain, .text => do
    match ← L.valueOf c .plain with
    | .str s => L.valueResult (.str s) .text
    | _ => return (c, none)
  | .text, .plain => L.textToPlain c
  | .text, .str => do L.valueResult (← L.valueOf c .text) .str
  | .str, .text => do L.valueResult (← L.valueOf c .str) .text
  | .yaml, .plain => do
    match ← L.valueOf c .yaml with
    | .str text => do
      let v ← .ofOption (L.yamlSafeLoad text)
      L.valueResult v .plain
    -- null is no text to load
    | _ => .fail
  | .ipython, .python => do
    match ← L.valueOf c .ipython with
    | .str text => do
      let code ← .ofOption (L.ipython2python text)
      L.valueResult (.str code) .python
    | _ => .fail
  | _, _ => .fail

/-! ## §4. Value rules. -/

/-- A value that no scalar conversion takes: a dict, a list, an array with axes. -/
def isContainer : L.Value → Bool
  | .dict _ => true
  | .list _ => true
  | .array a => L.isNdarray a && L.ndim a != 0
  | _ => false

/-- `_convert_possible(checksum, source, target, get_buffer)` -/
def convertPossible (c : Checksum) (s t : Celltype) : Conv Converted := do
  let v ← L.valueOf c s
  if L.isContainer v then .fail
  else
    let v' ← .ofOption (L.builtin true v t)
    L.valueResult v' t

/-- `binary` values that JSON cannot represent -/
def isNonFinite : L.Value → Bool
  | .array a =>
    if L.isNdarray a then (L.dtypeKind a = cp 'f' ∨ L.dtypeKind a = cp 'c') && !L.allFinite a
    else L.isPyFloat a && !L.realFinite a
  | .float x => !L.isFinite x
  | _ => false

/-- `binary` to `plain`, on the value -/
def plainOfBinary (v : L.Value) : Option L.Value :=
  if L.isNonFinite v then none
  else ((L.orjsonDumpsNumpy v).bind decodeUtf8).bind L.orjsonLoads

/-- `plain` to `binary`, on the value -/
def binaryOfPlain (v : L.Value) : Option L.Value :=
  match v with
  | .int _ | .float _ | .bool _ | .list _ =>
    match L.npArray v with
    | some a => if L.dtypeIsObject a then none else some (.array a)
    | none => none
  | _ => none

/-- The value that a value rule makes -/
def valueRule (s t : Celltype) (v : L.Value) : Option L.Value :=
  if (s, t) = (.binary, .plain) then L.plainOfBinary v
  else if (s, t) = (.plain, .binary) then L.binaryOfPlain v
  -- between `bool` and `int` or `float`
  else L.builtin false v t

/-- `_convert_values(checksum, source, target, get_buffer)` -/
def convertValues (c : Checksum) (s t : Celltype) : Conv Converted :=
  if t = .checksum then do
    let b ← .ofOption (encodeUtf8 c.hex)
    L.bufferResult b
  else if s = .checksum then do
    match ← L.valueOf c .checksum with
    | .checksum c' => return (c', none)
    -- `Checksum(None)` is a `TypeError`
    | _ => .fail
  else do
    let v ← L.valueOf c s
    let v' ← .ofOption (L.valueRule s t v)
    L.valueResult v' t

/-! ## §5. The engine. -/

/-- `_convert(checksum, source, target, get_buffer)`, where `recur` is the
function itself -/
def convertStep (recur : Checksum → Celltype → Celltype → Conv Converted) (c : Checksum)
    (s t : Celltype) : Conv Converted :=
  match Conversion.rule s t with
  | .same => return (c, none)
  | .equivalent s' t' => recur c s' t'
  | .chain m => do
    let first ← recur c s m
    let second ←
      match first.2 with
      | none => recur first.1 m t
      -- the next buffer is the one that was made
      | some b => (recur first.1 m t).supply b
    chainResult c first second
  | .forbidden => .fail
  | .retain => return (c, none)
  | .reinterpret => L.reinterpret c t
  | .reformat => L.convertReformat c s t
  | .possible => L.convertPossible c s t
  | .values => L.convertValues c s t
  | .unclassified => .fail

/-- `_convert`, at most `fuel` calls deep -/
def convertFuel : (fuel : Nat) → Checksum → Celltype → Celltype → Conv Converted
  | 0, _, _, _ => .fail
  | fuel + 1, c, s, t => L.convertStep (convertFuel fuel) c s t

/-- `_convert`; no pair goes deeper than four calls. -/
def convert (c : Checksum) (s t : Celltype) : Conv Converted := L.convertFuel 4 c s t

/-- `convert_checksum(checksum, source, target, get_buffer)`; every exception
but a missing buffer is a `SeamlessConversionError`. -/
def convertChecksum (c : Checksum) (s t : Celltype) : Conv Converted :=
  if (s, t) ∈ Conversion.forbiddenPairs then .fail else L.convert c s t

/-- A session in which the callback gives the buffer -/
def runConversion (known : Knowledge) (b : Bytes) (c : Checksum) (s t : Celltype) :
    Outcome Converted × Session Checksum HashType Bytes :=
  run (some b) (L.convertChecksum c s t) (.start known)

/-- `conversion_needs_buffer(checksum, source, target)` -/
def conversionNeedsBuffer (known : Knowledge) (c : Checksum) (s t : Celltype) : Bool :=
  match (run none (L.convertChecksum c s t) (.start known)).1 with
  | .stopped => true
  | _ => false

end Libraries

end SeamlessCore
