/-
  SeamlessCore.Mixed.Reader — reading a mixed value.

  `deserialize` tells the storage of a buffer from its first bytes.  A buffer
  with NumPy data inside JSON data has a header with the description of the
  value, as JSON; `from_stream` walks along the description, dicts in the order
  of sorted keys, and puts each piece of the binary part where the writer left
  a zero in the JSON part.  The pieces follow one another: the reader takes the
  ends of the pieces from a list, one after the other.

  Main definitions:
    * `formToDtype` — the element type that a description spells;
    * `loadFromBuffer` — `_load_from_buffer`;
    * `describe` — what the reader does with each part of a description;
    * `fromStream`, `mixedDeserialize` — `from_stream`, `deserialize`.

  Source: `seamless/util/mixed/io/from_stream.py`, `util.py`, `serialization.py`.
-/
import SeamlessCore.Mixed.Stream

namespace SeamlessCore.Mixed

open Python

variable {F : Type}

/-! ## §1. Entries of a description. -/

/-- The names that `form["type"]` can have -/
inductive TypeName where
  | string
  | integer
  | number
  | boolean
  | null
  | array
  | tuple
  | object
  deriving DecidableEq, Repr

/-- `form["type"]` -/
def typeOf (entries : List (PyStr × Json F)) : Option TypeName :=
  match entries.lookup (py "type") with
  | some (.str s) =>
    if s = py "string" then some .string
    else if s = py "integer" then some .integer
    else if s = py "number" then some .number
    else if s = py "boolean" then some .boolean
    else if s = py "null" then some .null
    else if s = py "array" then some .array
    else if s = py "tuple" then some .tuple
    else if s = py "object" then some .object
    else none
  | _ => none

/-- `form.get("storage", default)` -/
def storageOr (entries : List (PyStr × Json F)) (default : PyStr) : Option PyStr :=
  match entries.lookup (py "storage") with
  | none => some default
  | some (.str s) => some s
  | some _ => none

/-- `form.get(key)` of a flag -/
def flag (entries : List (PyStr × Json F)) (key : PyStr) : Bool :=
  match entries.lookup key with
  | some (.bool b) => b
  | _ => false

def natOf : Json F → Option Nat
  | .int n => if 0 ≤ n then some n.toNat else none
  | _ => none

/-- A shape -/
def natsOf : Json F → Option (List Nat)
  | .list js => js.mapM natOf
  | _ => none

def strOf : Json F → Option PyStr
  | .str s => some s
  | _ => none

/-- A list of names -/
def strsOf : Json F → Option (List PyStr)
  | .list js => js.mapM strOf
  | _ => none

/-! ## §2. Element types. -/

/-- NumPy has numbers of this size, or strings that it does not widen. -/
def DType.sized : DType → Bool
  | .bytes n => n ≠ 0
  | .integer n _ => n ∈ [1, 2, 4, 8]
  | .number n false => n ∈ [2, 4, 8, 16]
  | .number n true => n ∈ [8, 16, 32]
  | _ => true

/-- `np.dtype(…)` of a number -/
def npNumber (dtype : DType) : Option DType := if dtype.sized then some dtype else none

/-- `_form_to_dtype_scalar(form)` -/
def formToDtypeScalar (type : TypeName) (entries : List (PyStr × Json F)) : Option DType :=
  let bytesize := (entries.lookup (py "bytesize")).bind natOf
  match type with
  | .string => bytesize.map .bytes
  | .integer => bytesize.bind fun n => npNumber (.integer n (flag entries (py "unsigned")))
  | .number => bytesize.bind fun n => npNumber (.number n (flag entries (py "complex")))
  | .boolean => some .bool
  | _ => none

/-- A type, with the shape of a field that is an array -/
abbrev TypeReading := Option (DType × Option (List Nat))

/-- What `_form_to_dtype` reads of a description -/
structure TypeReader where
  /-- `prop.get("storage", storage)` -/
  storage : PyStr → Option PyStr
  /-- `_form_to_dtype(form, storage, toplevel)` -/
  read : PyStr → Bool → TypeReading

/-- A part of a description, as a description or as `properties` -/
structure TypeDescription where
  form : TypeReader
  properties : Option (List (PyStr × TypeReader))

/-- `fields`, in the order of `form["order"]` -/
def fieldTypes (props : List (PyStr × TypeReader)) (storage : PyStr) : List PyStr → Option Fields
  | [] => some .nil
  | name :: order =>
    (props.lookup name).bind fun prop =>
      (prop.storage storage).bind fun storage' =>
        (prop.read storage' false).bind fun (dtype, shape) =>
          (fieldTypes props storage order).map fun rest => .cons name dtype shape rest

/-- The type of a record: `np.dtype(fields, align=True)` refuses a name that comes twice. -/
def recordType (entries : List (PyStr × Json F)) (props : List (PyStr × TypeReader))
    (storage : PyStr) : Option DType :=
  match (entries.lookup (py "order")).bind strsOf, entries.lookup (py "shape") with
  | some order, none =>
    if order.Nodup ∧ (∀ name ∈ order, name ∈ Assoc.keys props) ∧
        ∀ name ∈ Assoc.keys props, name ∈ order then
      (fieldTypes props storage order).map .struct
    else none
  | _, _ => none

/-- `_form_to_dtype(form, storage, toplevel)` -/
def readType (entries : List (PyStr × Json F)) (parts : List (PyStr × TypeDescription))
    (storage : PyStr) (toplevel : Bool) : TypeReading :=
  (typeOf entries).bind fun type =>
    -- a slot for a Python object, which no buffer holds
    if storage = py "pure-plain" ∨ storage = py "mixed-plain" ∨ type = .array ∧ toplevel = false then
      none
    else
      let items :=
        if flag entries (py "identical") then
          (parts.lookup (py "items")).bind fun part =>
            match part.form.read storage false with
            | some (dtype, none) => some dtype
            | _ => none
        else none
      match type with
      | .array => items.map fun dtype => (dtype, none)
      | .tuple =>
        items.bind fun dtype =>
          ((entries.lookup (py "shape")).bind natsOf).map fun shape => (dtype, some shape)
      | .object =>
        ((parts.lookup (py "properties")).bind TypeDescription.properties).bind fun props =>
          (recordType entries props storage).map fun dtype => (dtype, none)
      | type => (formToDtypeScalar type entries).map fun dtype => (dtype, none)

mutual

def describeType : Json F → TypeDescription
  | .dict entries =>
    ⟨⟨storageOr entries, readType entries (describeTypes entries)⟩,
      some ((describeTypes entries).map fun part => (part.1, part.2.form))⟩
  | _ => ⟨⟨fun _ => none, fun _ _ => none⟩, none⟩

def describeTypes : List (PyStr × Json F) → List (PyStr × TypeDescription)
  | [] => []
  | (k, j) :: entries => (k, describeType j) :: describeTypes entries

end

/-- `form_to_dtype(form, storage)` -/
def formToDtype (form : Json F) (storage : PyStr) : Option DType :=
  match (describeType form).form.read storage true with
  | some (dtype, none) => some dtype
  | _ => none

/-! ## §3. Pieces of the binary part. -/

/-- The characters of `width` bytes at the end that are NULs -/
def trailingNuls (width : Nat) (data : Bytes) : Nat :=
  (data.reverse.takeWhile (· == 0)).length / width

/-- `data[0]` or `data[()]`, the only element of an array: a string comes without the
NULs at its end, everything else as it is. -/
def element (dtype : DType) (data : Bytes) (h : data.length = dtype.itemsize) : Generic :=
  match dtype, h with
  | .bytes n, h => ⟨.bytes (n - trailingNuls 1 data), data.take (n - trailingNuls 1 data), by
      have hn : data.length = n := h
      rw [List.length_take, hn, Nat.min_eq_left (Nat.sub_le _ _)]
      rfl⟩
  | .unicode n, h => ⟨.unicode (n - trailingNuls 4 data), data.take (4 * (n - trailingNuls 4 data)), by
      have hn : data.length = 4 * n := h
      rw [List.length_take, hn, Nat.min_eq_left (Nat.mul_le_mul_left 4 (Nat.sub_le _ _))]
      rfl⟩
  | dtype, h => ⟨dtype, data, h⟩

/-- The elements in an array of their shape; without a shape, or with an empty one, a scalar. -/
def fill (dtype : DType) (shape : Option (List Nat)) (data : Bytes) : Option (Value F) :=
  -- `np.empty` widens such strings to a byte, which the piece does not have
  if dtype = .bytes 0 then none
  else
    match shape with
    | none =>
      if h : data.length = dtype.itemsize then some (.generic (element dtype data h)) else none
    | some [] =>
      if h : data.length = dtype.itemsize then some (.generic (element dtype data h)) else none
    | some (n :: shape) =>
      if h : data.length = dtype.itemsize * (n :: shape).prod then
        some (.array ⟨dtype, true, n :: shape, none, data, h⟩)
      else none

/-- `_load_from_buffer(storage, form, buffer, offset, stop - offset, shape)` -/
def loadFromBuffer (buffer : Bytes) (storage : PyStr) (form : Json F) (offset stop : Int)
    (shape : Option (List Nat)) : Option (Value F) :=
  (formToDtype form storage).bind fun dtype =>
    -- `memmove` does not look at the bounds of `buffer`: outside of them anything may happen
    if (dtype.itemsize * (shape.getD [1]).prod : Nat) = stop - offset ∧ 0 ≤ offset ∧
        stop ≤ buffer.length then
      fill dtype shape (slice buffer offset.toNat stop.toNat)
    else none

/-- What a piece is loaded with: `my_form`, `shape` -/
def pieceForm (entries : List (PyStr × Json F)) : Option (Json F × Option (List Nat)) :=
  (typeOf entries).bind fun type =>
    match type with
    | .null => none
    | .array =>
      ((entries.lookup (py "shape")).bind natsOf).bind fun shape =>
        (entries.lookup (py "items")).map fun form => (form, some shape)
    | .tuple =>
      match entries.lookup (py "items") with
      | some (.dict items) =>
        ((items.lookup (py "shape")).bind natsOf).map fun shape => (.dict items, some shape)
      | _ => none
    | _ => some (.dict entries, none)

/-! ## §4. The walk along the description. -/

mutual

/-- What `json.loads` returns, as a value -/
def Value.ofJson : Json F → Value F
  | .null => .none
  | .bool b => .bool b
  | .int n => .int n
  | .float x => .float x
  | .str s => .str s
  | .list items => .list (ofJsonList items)
  | .dict items => .dict (ofJsonItems items)

def ofJsonList : List (Json F) → List (Value F)
  | [] => []
  | j :: js => Value.ofJson j :: ofJsonList js

def ofJsonItems : List (PyStr × Json F) → List (PyStr × Value F)
  | [] => []
  | (k, j) :: items => (k, Value.ofJson j) :: ofJsonItems items

end

/-- A key or an index -/
inductive Sub where
  | key (k : PyStr)
  | index (n : Nat)

/-- `parent_data[sub]` -/
def getItem : Value F → Sub → Option (Value F)
  | .dict items, .key k => items.lookup k
  | .list items, .index n => items[n]?
  | .str s, .index n => s[n]?.map fun c => .str [c]
  | _, _ => none

/-- `parent_data[sub] = data` -/
def setItem : Value F → Sub → Value F → Option (Value F)
  | .dict items, .key k, data => some (.dict (Assoc.set items k data))
  | .list items, .index n, data => if n < items.length then some (.list (items.set n data)) else none
  | _, _, _ => none

/-- What is changed of `jsons`: the ends of the pieces, and what comes after them -/
structure ReadState (F : Type) where
  offsets : List (Json F)
  queue : List (Json F)

/-- `_from_stream_sub` with a description: a parent, changed in place -/
abbrev SubReader (F : Type) := Value F → Sub → ReadState F → Option (Value F × ReadState F)

/-- A part of a description, as a description, as `properties` or as `items` -/
structure Description (F : Type) where
  item : SubReader F
  properties : Option (List (PyStr × SubReader F))
  items : Option (List (SubReader F))

/-- `data = jsons.pop(1)`, if there is none -/
def popData : Value F → ReadState F → Option (Value F × ReadState F)
  | .none, ⟨offsets, j :: queue⟩ => some (.ofJson j, ⟨offsets, queue⟩)
  | .none, ⟨_, []⟩ => none
  | data, s => some (data, s)

/-- The descriptions of the `n` items of a list -/
def listReaders (entries : List (PyStr × Json F)) (parts : List (PyStr × Description F)) :
    (n : Nat) → Option (List (SubReader F))
  | 0 => some []
  | n =>
    match entries.lookup (py "identical") with
    | some (.bool true) => (parts.lookup (py "items")).map fun part => List.replicate n part.item
    | some (.bool false) =>
      ((parts.lookup (py "items")).bind Description.items).bind fun items =>
        if n ≤ items.length then some (items.take n) else none
    | _ => none

/-- The loop of `_from_stream_plain`: the parts of a value in their order -/
def subReaders (entries : List (PyStr × Json F)) (parts : List (PyStr × Description F)) :
    Option (List (Sub × SubReader F)) :=
  match typeOf entries with
  | some .object =>
    ((parts.lookup (py "properties")).bind Description.properties).map fun props =>
      (Assoc.sortByKey props).map fun e => (.key e.1, e.2)
  | some .array | some .tuple =>
    match entries.lookup (py "shape") with
    | some (.list [.int n]) =>
      (listReaders entries parts n.toNat).map fun readers =>
        readers.zipIdx.map fun e => (.index e.2, e.1)
    | _ => none
  | _ => none

def runReaders : List (Sub × SubReader F) → Value F → ReadState F → Option (Value F × ReadState F)
  | [], data, s => some (data, s)
  | (sub, read) :: readers, data, s =>
    (read data sub s).bind fun (data, s) => runReaders readers data s

/-- `_from_stream_plain(data, form, jsons, buffer)` -/
def fromStreamPlain (entries : List (PyStr × Json F)) (parts : List (PyStr × Description F))
    (data : Value F) (s : ReadState F) : Option (Value F × ReadState F) :=
  (popData data s).bind fun (data, s) =>
    (subReaders entries parts).bind fun readers => runReaders readers data s

/-- A part that was changed in place; the parts of a string do not change, and `None` is no part
of what was popped. -/
def putBack (parent : Value F) (sub : Sub) (child changed : Value F) : Value F :=
  match child with
  | .none => parent
  | _ => (setItem parent sub changed).getD parent

/-- `_from_stream_sub(parent_data, sub, storage, form, jsons, buffer)` -/
def fromStreamSub (buffer : Bytes) (entries : List (PyStr × Json F))
    (parts : List (PyStr × Description F)) : SubReader F := fun parent sub s =>
  (storageOr entries (py "pure-plain")).bind fun storage =>
    let pure := (py "pure").isPrefixOf storage
    if (py "plain").isSuffixOf storage then
      if pure then some (parent, s)
      else if storage = py "mixed-plain" then
        (getItem parent sub).bind fun child =>
          (fromStreamPlain entries parts child s).map fun (changed, s) =>
            (putBack parent sub child changed, s)
      else none
    else
      (pieceForm entries).bind fun (form, shape) =>
        match s.offsets with
        | .int offset :: .int stop :: offsets =>
          (loadFromBuffer buffer storage form offset stop shape).bind fun data =>
            (setItem parent sub data).bind fun parent =>
              if pure then some (parent, ⟨.int stop :: offsets, s.queue⟩) else none
        | _ => none

mutual

/-- What the reader does with a part of the description; one that is no dict is skipped. -/
def describe (buffer : Bytes) : Json F → Description F
  | .dict entries =>
    ⟨fromStreamSub buffer entries (describeEntries buffer entries),
      some ((describeEntries buffer entries).map fun part => (part.1, part.2.item)), none⟩
  | .list forms =>
    ⟨fun parent _ s => some (parent, s), none,
      some ((describeList buffer forms).map Description.item)⟩
  | _ => ⟨fun parent _ s => some (parent, s), none, none⟩

def describeList (buffer : Bytes) : List (Json F) → List (Description F)
  | [] => []
  | j :: js => describe buffer j :: describeList buffer js

def describeEntries (buffer : Bytes) : List (PyStr × Json F) → List (PyStr × Description F)
  | [] => []
  | (k, j) :: entries => (k, describe buffer j) :: describeEntries buffer entries

end

/-! ## §5. Buffers. -/

/-- What the reader imports.  `Option` stands for "may raise". -/
structure Readers (L : Codecs) where
  /-- `json.loads(b.decode())` -/
  loads : Bytes → Option (Json L.Float)
  /-- The array of a `.npy` file -/
  npLoad : Bytes → Option NdArray
  /-- `value.astype(dt2)`, where `dt2` is the aligned form of a type of records -/
  npAlign : NdArray → NdArray

theorem NdArray.length_scalar (a : NdArray) (h : a.shape = []) : a.data.length = a.dtype.itemsize := by
  rw [a.length_eq, h, List.prod_nil, Nat.mul_one]

/-- `arr[0]` of an array without dimensions, unless it is one of `bytes` -/
def npyValue (a : NdArray) : Value F :=
  if h : a.shape = [] then
    match a.dtype with
    | .bytes _ => .array a
    | _ => .generic (element a.dtype a.data (a.length_scalar h))
  else .array a

namespace Readers

variable {L : Codecs} (R : Readers L)

/-- `from_stream(stream, "mixed-plain", form)` -/
def readMixedPlain (stream : Bytes) (form : Json L.Float) : Option (Value L.Float) :=
  let l := magicSeamless.length
  let s1 := slice stream l (l + 8)
  let s2 := slice stream (l + 8) (l + 16)
  if startsWith stream magicSeamless ∧ s1.length = 8 ∧ s2.length = 8 ∧
      stream.length = l + 16 + littleEndian s1 + littleEndian s2 then
    let start := l + 16 + littleEndian s1
    (R.loads (slice stream (l + 16) start)).bind fun jsons =>
      match jsons, form with
      | .list (.list offsets :: queue), .dict entries =>
        let buffer := stream.drop start
        (fromStreamPlain entries (describeEntries buffer entries) .none ⟨offsets, queue⟩).map Prod.fst
      | _, _ => none
  else none

/-- `from_stream(stream, storage, form)` of a stream that is not text -/
def fromStream (stream : Bytes) (form : Json L.Float) :
    (storage : Storage) → Option (Value L.Float)
  | .purePlain => none
  | .pureBinary => (R.npLoad stream).map npyValue
  | .mixedPlain => R.readMixedPlain stream form

/-- `h1.decode()`, if it is the name of a storage -/
def headerStorage (h1 : Bytes) : Option Storage :=
  if h1 = ascii "pure-plain" then some .purePlain
  else if h1 = ascii "pure-binary" then some .pureBinary
  else if h1 = ascii "mixed-plain" then some .mixedPlain
  else none

/-- `deserialize(data)` of a buffer with a header -/
def readHeader (data : Bytes) : Option (Value L.Float × Storage) :=
  let offset := magicSeamlessMixed.length
  (data.drop offset).head?.bind fun lh1 =>
    let offset := offset + 1
    let h1 := slice data offset (offset + lh1.toNat)
    let offset := offset + lh1.toNat
    let lh2 := slice data offset (offset + 4)
    if lh2.length = 4 then
      let offset := offset + 4
      let h2 := slice data offset (offset + littleEndian lh2)
      let offset := offset + littleEndian lh2
      (headerStorage h1).bind fun storage =>
        (R.loads h2).bind fun form =>
          (R.fromStream (data.drop offset) form storage).map fun value => (value, storage)
    else none

/-- `deserialize(data)` -/
def mixedDeserialize (data : Bytes) : Option (Value L.Float × Storage) :=
  if startsWith data magicNumpy then
    (R.npLoad data).map fun a =>
      match a.dtype with
      | .struct _ => (npyValue (R.npAlign a), .pureBinary)
      | _ => (npyValue a, .pureBinary)
  else if startsWith data magicSeamlessMixed then R.readHeader data
  else if startsWith data magicSeamless then none
  else
    (decodeUtf8 data).map fun _ =>
      match R.loads data with
      | some j => (.ofJson j, .purePlain)
      -- what is no JSON is an array that holds the buffer
      | none => (.array (L.npBytes data), .pureBinary)

end Readers

end SeamlessCore.Mixed
