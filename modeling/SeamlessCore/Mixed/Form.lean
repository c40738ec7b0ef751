/-
  SeamlessCore.Mixed.Form — the storage and the form of a mixed value.

  `get_form` describes a value: where it is stored (as JSON, as NumPy data, or
  as JSON with NumPy data inside), and its structure.  A list whose items have
  equal descriptions is described by one of them.  Descriptions are Python
  dicts, so two of them are equal whatever the order of their properties.

  Main definitions:
    * `TForm`, `Form` — descriptions of element types and of values;
    * `getForm` — `get_form`;
    * `Form.json` — what `json.dumps` sees;
    * `getBuffersize`, `getBuffersizeDebug` — the two computations of the size
      of the binary part.

  Source: `seamless/util/mixed/get_form.py`, `seamless/util/mixed/io/util.py`.
-/
import SeamlessCore.HashType.Classify
import SeamlessCore.Mixed.Value

namespace SeamlessCore.Mixed

open Python

/-! ## §1. Descriptions. -/

/-- The type names of a description -/
inductive ScalarType where
  | string
  | integer
  | number
  | boolean
  | null
  deriving DecidableEq, Repr

mutual

/-- The description of an element type -/
inductive TForm where
  | builtin (type : ScalarType) (bytesize : Nat) (complex : Bool) (unsigned : Option Bool)
  | struct (properties : TFields) (bytesize : Nat)
  deriving DecidableEq

/-- The properties of a record, in their order; a field with a shape is a `tuple`. -/
inductive TFields where
  | nil
  | cons (name : PyStr) (item : TForm) (shape : Option (List Nat)) (rest : TFields)
  deriving DecidableEq

end

/-- The description of a value, with the `storage` that its parent may note in it. -/
inductive Form where
  /-- A bare type name, or `{"type": …, "storage": …}` -/
  | scalar (type : ScalarType) (storage : Option Storage)
  /-- A NumPy scalar -/
  | generic (item : TForm) (storage : Option Storage)
  | ndarray (items : TForm) (shape : List Nat) (strides : Option (List Int))
      (storage : Option Storage)
  | emptyList (storage : Option Storage)
  /-- A list with `identical` items -/
  | identicalList (items : Form) (length : Nat) (storage : Option Storage)
  | variedList (items : List Form) (storage : Option Storage)
  | object (properties : List (PyStr × Form)) (storage : Option Storage)

namespace Form

/-- `form.get("storage")`; a bare type name has none. -/
def storage : Form → Option Storage
  | .scalar _ s | .generic _ s | .ndarray _ _ _ s | .emptyList s | .identicalList _ _ s
  | .variedList _ s | .object _ s => s

/-- `form["storage"] = storage` -/
def withStorage (s : Storage) : Form → Form
  | .scalar t _ => .scalar t (some s)
  | .generic t _ => .generic t (some s)
  | .ndarray t shape strides _ => .ndarray t shape strides (some s)
  | .emptyList _ => .emptyList (some s)
  | .identicalList f n _ => .identicalList f n (some s)
  | .variedList fs _ => .variedList fs (some s)
  | .object props _ => .object props (some s)

mutual

/-- `form == other`, as Python compares dicts -/
def beq : Form → Form → Bool
  | .scalar t s, .scalar t' s' => t = t' && s = s'
  | .generic t s, .generic t' s' => t = t' && s = s'
  | .ndarray t shape strides s, .ndarray t' shape' strides' s' =>
    t = t' && shape = shape' && strides = strides' && s = s'
  | .emptyList s, .emptyList s' => s = s'
  | .identicalList f n s, .identicalList f' n' s' => f.beq f' && n = n' && s = s'
  | .variedList fs s, .variedList fs' s' => beqList fs fs' && s = s'
  | .object props s, .object props' s' =>
    props.length = props'.length && beqProperties props props' && s = s'
  | _, _ => false

def beqList : List Form → List Form → Bool
  | [], [] => true
  | f :: fs, f' :: fs' => f.beq f' && beqList fs fs'
  | _, _ => false

/-- Every property of the first dict is one of the other. -/
def beqProperties : List (PyStr × Form) → List (PyStr × Form) → Bool
  | [], _ => true
  | (k, f) :: props, props' =>
    (match props'.lookup k with
      | none => false
      | some f' => f.beq f') && beqProperties props props'

end

end Form

/-! ## §2. Element types. -/

mutual

/-- `get_tform_numpy(dt)` -/
def getTformNumpy : DType → Option TForm
  | .bool => some (.builtin .boolean 1 false none)
  | .integer n unsigned => some (.builtin .integer n false (some unsigned))
  | .number n complex => some (.builtin .number n complex none)
  | .bytes n => some (.builtin .string n false none)
  | .unicode n => some (.builtin .string (4 * n) false none)
  | .struct fields =>
    (getTformFields fields).map fun props => .struct props (DType.itemsize (.struct fields))
  | .other => none

/-- The properties of `get_tform_numpy_struct(dt)` -/
def getTformFields : Fields → Option TFields
  | .nil => some .nil
  | .cons name dtype none rest =>
    match getTformNumpy dtype, getTformFields rest with
    | some item, some props => some (.cons name item none props)
    | _, _ => none
  | .cons name dtype (some shape) rest =>
    let item :=
      match dtype with
      -- `dt.fields` is `None` for an array of records
      | .struct _ => none
      -- `is_unsigned(dt)` compares the array type itself
      | .integer n _ => some (.builtin .integer n false (some false))
      | dtype => getTformNumpy dtype
    match item, getTformFields rest with
    | some item, some props => some (.cons name item (some shape) props)
    | _, _ => none

end

/-! ## §3. Values. -/

/-- The items of `get_form_items_list_plain` differ. -/
def different : List (Storage × Form) → Bool
  | [] => false
  | (s, f) :: forms => !(forms.all fun g => g.1 = s && f.beq g.2)

/-- Storage other than `pure-plain` is noted in the description. -/
def noteStorage (item : Storage × Form) : Form :=
  if item.1 = .purePlain then item.2 else item.2.withStorage item.1

/-- The storage of a list or dict -/
def containerStorage (storages : List Storage) : Storage :=
  if storages.all fun s => s = .purePlain then .purePlain else .mixedPlain

/-- `get_form_list_plain(data)`, from the storage and form of the items -/
def listForm (forms : List (Storage × Form)) : Storage × Form :=
  (containerStorage (forms.map Prod.fst),
    if different forms then .variedList (forms.map noteStorage) none
    else
      match forms with
      | [] => .emptyList none
      | item :: _ => .identicalList (noteStorage item) forms.length none)

/-- `get_form_dict_plain(data)`, from the storage and form of the values -/
def dictForm (forms : List (PyStr × Storage × Form)) : Storage × Form :=
  (containerStorage (forms.map fun e => e.2.1),
    .object (forms.map fun e => (e.1, noteStorage e.2)) none)

/-- `get_form(data)` of an array -/
def arrayForm (a : NdArray) : Option (Storage × Form) :=
  if a.native then
    (getTformNumpy a.dtype).map fun items => (.pureBinary, .ndarray items a.shape a.strides none)
  else none

namespace Codecs

variable (L : Codecs)

mutual

/-- `get_form(data)` -/
def getForm : Value L.Float → Option (Storage × Form)
  | .none => some (.purePlain, .scalar .null none)
  | .bool _ => some (.purePlain, .scalar .boolean none)
  | .int _ => some (.purePlain, .scalar .integer none)
  | .float _ => some (.purePlain, .scalar .number none)
  | .str _ => some (.purePlain, .scalar .string none)
  | .bytes b => arrayForm (L.npBytes b)
  | .complex re im =>
    (getTformNumpy (L.npComplex re im).dtype).map fun item => (.pureBinary, .generic item none)
  | .array a => arrayForm a
  | .generic g => (getTformNumpy g.dtype).map fun item => (.pureBinary, .generic item none)
  | .list items => (getFormList items).map listForm
  | .tuple items => (getFormList items).map listForm
  | .dict items => (getFormItems items).map dictForm
  | .checksum _ => none
  | .object => none

def getFormList : List (Value L.Float) → Option (List (Storage × Form))
  | [] => some []
  | v :: vs => (getForm v).bind fun f => (getFormList vs).map fun fs => f :: fs

def getFormItems : List (PyStr × Value L.Float) → Option (List (PyStr × Storage × Form))
  | [] => some []
  | (k, v) :: items => (getForm v).bind fun f => (getFormItems items).map fun fs => (k, f) :: fs

end

end Codecs

/-! ## §4. Descriptions as JSON. -/

section

variable {F : Type}

def ScalarType.name : ScalarType → PyStr
  | .string => py "string"
  | .integer => py "integer"
  | .number => py "number"
  | .boolean => py "boolean"
  | .null => py "null"

def storageName : Storage → PyStr
  | .purePlain => py "pure-plain"
  | .pureBinary => py "pure-binary"
  | .mixedPlain => py "mixed-plain"

def jsonNats (ns : List Nat) : Json F := .list (ns.map fun n : Nat => .int (n : Int))

/-- The `storage` entry of a description, which comes last -/
def storageItem (s : Option Storage) : List (PyStr × Json F) :=
  match s with
  | none => []
  | some s => [(py "storage", .str (storageName s))]

/-- The entries of the description of a builtin type -/
def builtinItems (type : ScalarType) (bytesize : Nat) (complex : Bool) (unsigned : Option Bool) :
    List (PyStr × Json F) :=
  [(py "type", .str type.name), (py "bytesize", .int bytesize)]
    ++ (if complex then [(py "complex", .bool true)] else [])
    ++ (match unsigned with
      | none => []
      | some b => [(py "unsigned", .bool b)])

def TFields.names : TFields → List PyStr
  | .nil => []
  | .cons name _ _ rest => name :: rest.names

mutual

/-- The entries of the description of an element type -/
def TForm.items : TForm → List (PyStr × Json F)
  | .builtin type bytesize complex unsigned => builtinItems type bytesize complex unsigned
  | .struct props bytesize =>
    [(py "type", .str (py "object")), (py "properties", .dict props.json),
      (py "bytesize", .int bytesize), (py "order", .list (props.names.map .str))]

/-- The properties of a record -/
def TFields.json : TFields → List (PyStr × Json F)
  | .nil => []
  | .cons name item none rest => (name, .dict item.items) :: rest.json
  | .cons name item (some shape) rest =>
    (name, .dict [(py "type", .str (py "tuple")), (py "items", .dict item.items),
      (py "identical", .bool true), (py "shape", jsonNats shape)]) :: rest.json

end

/-- The entries of the description of an array -/
def ndarrayItems (items : TForm) (shape : List Nat) (strides : Option (List Int)) :
    List (PyStr × Json F) :=
  [(py "type", .str (py "array")), (py "items", .dict items.items), (py "identical", .bool true),
    (py "shape", jsonNats shape), (py "contiguous", .bool strides.isNone)]
    ++ (match strides with
      | none => []
      | some strides => [(py "strides", .list (strides.map .int))])

/-- The entries of the description of a list -/
def listItems (items : Json F) (identical : Bool) (length : Nat) : List (PyStr × Json F) :=
  [(py "type", .str (py "array")), (py "items", items), (py "identical", .bool identical),
    (py "shape", jsonNats [length])]

mutual

/-- The description as `json.dumps` sees it; tuples are written as lists. -/
def Form.json : Form → Json F
  | .scalar type none => .str type.name
  | .scalar type (some s) => .dict ((py "type", .str type.name) :: storageItem (some s))
  | .generic item s => .dict (item.items ++ storageItem s)
  | .ndarray items shape strides s => .dict (ndarrayItems items shape strides ++ storageItem s)
  | .emptyList s => .dict (listItems .null true 0 ++ storageItem s)
  | .identicalList f n s => .dict (listItems f.json true n ++ storageItem s)
  | .variedList fs s => .dict (listItems (.list (jsonForms fs)) false fs.length ++ storageItem s)
  | .object [] s => .dict ((py "type", .str (py "object")) :: storageItem s)
  | .object (p :: props) s =>
    .dict ([(py "type", .str (py "object")),
      (py "properties", .dict ((p.1, p.2.json) :: jsonProperties props))] ++ storageItem s)

def jsonForms : List Form → List (Json F)
  | [] => []
  | f :: fs => f.json :: jsonForms fs

def jsonProperties : List (PyStr × Form) → List (PyStr × Json F)
  | [] => []
  | (k, f) :: props => (k, f.json) :: jsonProperties props

end

end

/-! ## §5. The size of the binary part. -/

/-- `items["bytesize"]` -/
def TForm.bytesize : TForm → Nat
  | .builtin _ n _ _ => n
  | .struct _ n => n

/-- The sum of sizes that are all there -/
def sumSizes : List (Option Nat) → Option Nat
  | [] => some 0
  | size :: sizes => size.bind fun size => (sumSizes sizes).map fun rest => size + rest

/-- The storage of an item of a `mixed-plain` value -/
def Form.substorage (f : Form) : Storage := f.storage.getD .mixedPlain

mutual

/-- `get_buffersize(storage, form)` -/
def getBuffersize : Storage → Form → Option Nat
  | .purePlain, _ => some 0
  | .pureBinary, .ndarray items shape _ _ => some (items.bytesize * shape.prod)
  | .pureBinary, .generic item _ => some item.bytesize
  | .pureBinary, _ => none
  | .mixedPlain, .scalar _ _ => some 0
  | .mixedPlain, .emptyList _ => some 0
  | .mixedPlain, .identicalList f n _ => (getBuffersize f.substorage f).map fun size => n * size
  | .mixedPlain, .variedList fs _ => sizeForms fs
  | .mixedPlain, .object props _ => sizeProperties props
  -- the description of NumPy data names its storage
  | .mixedPlain, .generic _ _ => none
  | .mixedPlain, .ndarray _ _ _ _ => none

def sizeForms : List Form → Option Nat
  | [] => some 0
  | f :: fs =>
    (getBuffersize f.substorage f).bind fun size => (sizeForms fs).map fun rest => size + rest

def sizeProperties : List (PyStr × Form) → Option Nat
  | [] => some 0
  | (_, f) :: props =>
    (getBuffersize f.substorage f).bind fun size => (sizeProperties props).map fun rest => size + rest

end

mutual

/-- `form_to_dtype(form, storage)` -/
def TForm.toDtype : TForm → Option DType
  | .builtin .boolean _ _ _ => some .bool
  | .builtin .integer n _ unsigned => some (.integer n (unsigned.getD false))
  | .builtin .number n complex _ => some (.number n complex)
  | .builtin .string n _ _ => some (.bytes n)
  | .builtin .null _ _ _ => none
  | .struct props _ => props.toFields.map .struct

def TFields.toFields : TFields → Option Fields
  | .nil => some .nil
  | .cons name item shape rest =>
    match item.toDtype, rest.toFields with
    | some dtype, some fields => some (.cons name dtype shape fields)
    | _, _ => none

end

/-- The element type that the description of NumPy data spells -/
def Form.toDtype : Form → Option DType
  | .ndarray items _ _ _ => items.toDtype
  | .generic item _ => item.toDtype
  | _ => none

namespace Codecs

variable (L : Codecs)

/-- `data.dtype` and the bytes of the data, where `bytes` are taken as an array -/
def numpyData : Value L.Float → Option (DType × Bytes)
  | .array a => some (a.dtype, a.data)
  | .generic g => some (g.dtype, g.data)
  | .bytes b => some ((L.npBytes b).dtype, (L.npBytes b).data)
  | _ => none

/-- The sequence that `len(data)` and `data[n]` walk along -/
def elements : Value L.Float → Option (List (Value L.Float))
  | .list items => some items
  | .tuple items => some items
  | .str s => some (s.map fun c => .str [c])
  | .dict [] => some []
  | _ => none

mutual

/-- `get_buffersize_debug(data, storage, form)`: the size from the data, walked along in
its own order; `none` is a failed assertion or an exception. -/
def getBuffersizeDebug : Value L.Float → Storage → Form → Option Nat
  | _, .purePlain, _ => some 0
  | data, .pureBinary, form =>
    match form.toDtype, L.numpyData data with
    | some dtype, some (dtype', bytes) => if dtype = dtype' then some bytes.length else none
    | _, _ => none
  | _, .mixedPlain, .scalar _ _ => some 0
  | data, .mixedPlain, .emptyList _ =>
    match L.elements data with
    | some [] => some 0
    | _ => none
  | data, .mixedPlain, .identicalList f _ _ =>
    (L.elements data).bind fun items =>
      sumSizes (items.map fun v => getBuffersizeDebug v f.substorage f)
  | data, .mixedPlain, .variedList fs _ => (L.elements data).bind fun items => debugForms items fs
  | data, .mixedPlain, .object props _ =>
    match data with
    | .dict items => debugProperties (items.map Prod.snd) props
    | _ => none
  | _, .mixedPlain, .generic _ _ => none
  | _, .mixedPlain, .ndarray _ _ _ _ => none

/-- `assert len(items) == len(form_items)` -/
def debugForms : List (Value L.Float) → List Form → Option Nat
  | [], [] => some 0
  | v :: vs, f :: fs =>
    (getBuffersizeDebug v f.substorage f).bind fun size =>
      (debugForms vs fs).map fun rest => size + rest
  | _, _ => none

def debugProperties : List (Value L.Float) → List (PyStr × Form) → Option Nat
  | [], [] => some 0
  | v :: vs, (_, f) :: props =>
    (getBuffersizeDebug v f.substorage f).bind fun size =>
      (debugProperties vs props).map fun rest => size + rest
  | _, _ => none

end

end Codecs

end SeamlessCore.Mixed
