/-
  SeamlessCore.Mixed.Value — the values of Seamless-mixed buffers.

  A mixed value is JSON data in which NumPy arrays, records and scalars may
  occur at any depth.  An array is its element type, its shape, and the bytes
  of its elements; the layout of record types is that of `align=True`, and an
  aligned type with offsets or a size of its own is outside the model.

  The code writes a finite NumPy number as a JSON number and `np.bool_` as a
  boolean, so such a scalar is represented by the Python object (`int`, `float`,
  `bool`) that is written for it, `np.str_` by `str`, and `np.bytes_` by `bytes`.
  A `Generic` is a scalar that is written as NumPy data, or any that is read.

  Main definitions:
    * `DType`, `NdArray`, `Generic` — NumPy data;
    * `Value` — nested values, with the keys of a dict in their order;
    * `Value.sorted`, `Outline` — the value with the keys of every dict sorted, and
      what the order of the keys is;
    * `unchecksum`, `normalizeMixedSpecialValues` — what comes first in
      `_serialize`;
    * `Codecs` — the imported functions.

  Source: `seamless/util/__init__.py`, `seamless/checksum/serialize.py`.
-/
import SeamlessCore.Checksum.Libraries
import SeamlessCore.Lib.SortKeys

namespace SeamlessCore.Mixed

open Python

/-! ## §1. NumPy data. -/

mutual

/-- An element type: builtin types, aligned records, and others, which have no form. -/
inductive DType where
  | bool
  | integer (bytesize : Nat) (unsigned : Bool)
  | number (bytesize : Nat) (complex : Bool)
  | bytes (length : Nat)
  | unicode (length : Nat)
  | struct (fields : Fields)
  | other
  deriving DecidableEq

/-- The fields of a record; a field may be an array of a fixed shape. -/
inductive Fields where
  | nil
  | cons (name : PyStr) (dtype : DType) (shape : Option (List Nat)) (rest : Fields)
  deriving DecidableEq

end

/-- The multiple of `alignment` from `offset` on -/
def roundUp (offset alignment : Nat) : Nat := (offset + alignment - 1) / alignment * alignment

mutual

/-- `dt.alignment` -/
def DType.alignment : DType → Nat
  | .integer n _ => n
  | .number n complex => if complex then n / 2 else n
  | .unicode _ => 4
  | .struct fields => fields.alignment
  | _ => 1

def Fields.alignment : Fields → Nat
  | .nil => 1
  | .cons _ dtype _ rest => max dtype.alignment rest.alignment

end

mutual

/-- `dt.itemsize` -/
def DType.itemsize : DType → Nat
  | .bool => 1
  | .integer n _ => n
  | .number n _ => n
  | .bytes n => n
  | .unicode n => 4 * n
  | .struct fields => roundUp (fields.endOffset 0) fields.alignment
  | .other => 0

/-- The end of the last field, where the first one may start at `offset`. -/
def Fields.endOffset : Fields → Nat → Nat
  | .nil, offset => offset
  | .cons _ dtype shape rest, offset =>
    rest.endOffset (roundUp offset dtype.alignment + dtype.itemsize * (shape.getD []).prod)

end

/-- `np.ndarray` -/
structure NdArray where
  dtype : DType
  /-- `dt.isnative` -/
  native : Bool
  shape : List Nat
  /-- The strides of an array that is not contiguous -/
  strides : Option (List Int)
  /-- The elements, in C order -/
  data : Bytes
  length_eq : data.length = dtype.itemsize * shape.prod
  deriving DecidableEq

/-- `np.generic` with its bytes: as an argument, a record, a complex number, or a
number that is not finite -/
structure Generic where
  dtype : DType
  data : Bytes
  length_eq : data.length = dtype.itemsize
  deriving DecidableEq

/-- `np.asarray` of a NumPy scalar -/
def Generic.asArray (g : Generic) : NdArray where
  dtype := g.dtype
  native := true
  shape := []
  strides := none
  data := g.data
  length_eq := by rw [g.length_eq, List.prod_nil, Nat.mul_one]

/-! ## §2. Values. -/

/-- A Python value, with `F` for the floats; `object` is anything else. -/
inductive Value (F : Type) where
  | none
  | bool (b : Bool)
  | int (n : Int)
  | float (x : F)
  | str (s : PyStr)
  | bytes (b : Bytes)
  | complex (re im : F)
  | checksum (c : Checksum)
  | array (a : NdArray)
  | generic (g : Generic)
  | list (items : List (Value F))
  | tuple (items : List (Value F))
  | dict (items : List (PyStr × Value F))
  | object

/-- JSON data, with the keys of an object in their order. -/
inductive Json (F : Type) where
  | null
  | bool (b : Bool)
  | int (n : Int)
  | float (x : F)
  | str (s : PyStr)
  | list (items : List (Json F))
  | dict (items : List (PyStr × Json F))

/-- What the code imports.  `Option` stands for "may raise". -/
structure Codecs where
  Float : Type
  /-- `math.isfinite(x)` -/
  isFinite : Float → Bool
  /-- `np.float64(x)` -/
  npFloat64 : Float → Generic
  /-- `np.array(b)` of a `bytes` object -/
  npBytes : Bytes → NdArray
  /-- `np.asarray(z)` of a complex number -/
  npComplex : Float → Float → NdArray
  /-- `json.dumps(obj).encode()` -/
  dumps : Json Float → Option Bytes
  /-- `json.dumps(obj, indent=2).encode()` -/
  dumpsIndented : Json Float → Option Bytes
  /-- `orjson.dumps(obj, option=orjson.OPT_INDENT_2)` -/
  orjsonDumps : Json Float → Option Bytes
  /-- `np.save(…, allow_pickle=False)` -/
  npSave : NdArray → Option Bytes

/-! ## §3. The order of keys. -/

section

variable {F : Type}

mutual

/-- The value with the keys of every dict sorted, as `sort_keys` writes it -/
def Value.sorted : Value F → Value F
  | .list items => .list (sortedList items)
  | .tuple items => .tuple (sortedList items)
  | .dict items => .dict (Assoc.sortByKey (sortedItems items))
  | v => v

def sortedList : List (Value F) → List (Value F)
  | [] => []
  | v :: vs => v.sorted :: sortedList vs

def sortedItems : List (PyStr × Value F) → List (PyStr × Value F)
  | [] => []
  | (k, v) :: items => (k, v.sorted) :: sortedItems items

end

/-- Equal up to the order of insertion of dict keys, at any depth; of two equal
arrays, the byte order and the strides are the same. -/
def SameUpToOrder (v w : Value F) : Prop := v.sorted = w.sorted

/-- The lists and dicts of a value, with the keys in their order. -/
inductive Outline where
  | leaf
  | list (items : List Outline)
  | dict (items : List (PyStr × Outline))

mutual

def Value.outline : Value F → Outline
  | .list items => .list (outlineList items)
  | .tuple items => .list (outlineList items)
  | .dict items => .dict (outlineItems items)
  | _ => .leaf

def outlineList : List (Value F) → List Outline
  | [] => []
  | v :: vs => v.outline :: outlineList vs

def outlineItems : List (PyStr × Value F) → List (PyStr × Outline)
  | [] => []
  | (k, v) :: items => (k, v.outline) :: outlineItems items

end

mutual

def Json.outline : Json F → Outline
  | .list items => .list (jsonOutlineList items)
  | .dict items => .dict (jsonOutlineItems items)
  | _ => .leaf

def jsonOutlineList : List (Json F) → List Outline
  | [] => []
  | v :: vs => v.outline :: jsonOutlineList vs

def jsonOutlineItems : List (PyStr × Json F) → List (PyStr × Outline)
  | [] => []
  | (k, v) :: items => (k, v.outline) :: jsonOutlineItems items

end

mutual

/-- Every key can be encoded. -/
def Outline.Encodable : Outline → Prop
  | .leaf => True
  | .list items => outlinesEncodable items
  | .dict items => entriesEncodable items

def outlinesEncodable : List Outline → Prop
  | [] => True
  | o :: os => o.Encodable ∧ outlinesEncodable os

def entriesEncodable : List (PyStr × Outline) → Prop
  | [] => True
  | (k, o) :: items => Python.Encodable k ∧ o.Encodable ∧ entriesEncodable items

end

mutual

/-- The keys of every dict are distinct. -/
def Outline.Distinct : Outline → Prop
  | .leaf => True
  | .list items => outlinesDistinct items
  | .dict items => (Assoc.keys items).Nodup ∧ entriesDistinct items

def outlinesDistinct : List Outline → Prop
  | [] => True
  | o :: os => o.Distinct ∧ outlinesDistinct os

def entriesDistinct : List (PyStr × Outline) → Prop
  | [] => True
  | (_, o) :: items => o.Distinct ∧ entriesDistinct items

end

/-- The keys of every dict are distinct. -/
def Value.Distinct (v : Value F) : Prop := v.outline.Distinct

/-! ## §4. JSON. -/

mutual

/-- The data that a JSON encoder sees in a value; `none` is a `TypeError`. -/
def Value.toJson : Value F → Option (Json F)
  | .none => some .null
  | .bool b => some (.bool b)
  | .int n => some (.int n)
  | .float x => some (.float x)
  | .str s => some (.str s)
  | .list items => (toJsonList items).map .list
  | .tuple items => (toJsonList items).map .list
  | .dict items => (toJsonItems items).map .dict
  | _ => none

def toJsonList : List (Value F) → Option (List (Json F))
  | [] => some []
  | v :: vs => v.toJson.bind fun j => (toJsonList vs).map fun js => j :: js

def toJsonItems : List (PyStr × Value F) → Option (List (PyStr × Json F))
  | [] => some []
  | (k, v) :: items => v.toJson.bind fun j => (toJsonItems items).map fun js => (k, j) :: js

end

/-! ## §5. Before the mixed serializer. -/

mutual

/-- `unchecksum(value)` -/
def unchecksum : Value F → Value F
  | .checksum c => .str c.hex
  | .list items => .list (unchecksumList items)
  | .tuple items => .list (unchecksumList items)
  | .dict items => .dict (unchecksumDict items)
  | v => v

/-- `_unchecksum_list(l)` -/
def unchecksumList : List (Value F) → List (Value F)
  | [] => []
  | v :: vs => unchecksum v :: unchecksumList vs

/-- `_unchecksum_dict(d)` -/
def unchecksumDict : List (PyStr × Value F) → List (PyStr × Value F)
  | [] => []
  | (k, v) :: items => (k, unchecksum v) :: unchecksumDict items

end

end

namespace Codecs

variable (L : Codecs)

mutual

/-- `_normalize_mixed_special_values(value)` -/
def normalizeMixedSpecialValues : Value L.Float → Value L.Float
  | .float x => if L.isFinite x then .float x else .generic (L.npFloat64 x)
  | .list items => .list (normalizeList items)
  | .tuple items => .tuple (normalizeList items)
  | .dict items => .dict (normalizeDict items)
  | v => v

def normalizeList : List (Value L.Float) → List (Value L.Float)
  | [] => []
  | v :: vs => normalizeMixedSpecialValues v :: normalizeList vs

def normalizeDict : List (PyStr × Value L.Float) → List (PyStr × Value L.Float)
  | [] => []
  | (k, v) :: items => (k, normalizeMixedSpecialValues v) :: normalizeDict items

end

mutual

/-- `check_finite(item)` does not raise; arrays are refused by the encoder anyway. -/
def checkFinite : Value L.Float → Bool
  | .float x => L.isFinite x
  | .list items => checkFiniteList items
  | .tuple items => checkFiniteList items
  | .dict items => checkFiniteDict items
  | _ => true

def checkFiniteList : List (Value L.Float) → Bool
  | [] => true
  | v :: vs => checkFinite v && checkFiniteList vs

def checkFiniteDict : List (PyStr × Value L.Float) → Bool
  | [] => true
  | (_, v) :: items => checkFinite v && checkFiniteDict items

end

end Codecs

end SeamlessCore.Mixed
