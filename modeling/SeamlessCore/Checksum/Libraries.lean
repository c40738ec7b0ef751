/-
  SeamlessCore.Checksum.Libraries — values, checksums, and what is imported.

  The conversion code works on Python values that come out of decoders it
  imports: `orjson`, `json`, `yaml`, `numpy`, IPython's cell transformer.
  They enter as the fields of `Libraries`, together with SHA-256 and binary
  floating point.  Three functions of the repository are fields, too, because
  nothing here depends on what they do: the codec of the payload that follows
  a `mixed-plain` header, the writer of `mixed`, and the line loop around the
  input splitter of IPython 8.  Nothing is assumed of a field here; what a
  result relies on is a named hypothesis there.

  Main definitions:
    * `Checksum` — a digest of 32 bytes, with its hexadecimal form;
    * `PyValue` — the values that decoders produce and the code inspects;
    * `Libraries` — the imported functions;
    * `pyInt`, `pyFloat`, `pyBool`, `pyStr` — the builtins on values;
    * `npStream` — the repository's own reader of arrays.

  Source: `seamless/checksum_class.py`, `seamless/util/mixed/io/from_stream.py`.
-/
import SeamlessCore.Python.Bytes

namespace SeamlessCore

open Python

/-! ## §1. Checksums. -/

/-- `Checksum` -/
structure Checksum where
  digest : Bytes
  length_eq : digest.length = 32
  deriving DecidableEq

namespace Checksum

/-- `checksum.hex()` -/
def hex (c : Checksum) : PyStr := Python.hex c.digest

/-- `Checksum(s)` for a string; `none` is a `ValueError`. -/
def ofStr (s : PyStr) : Option Checksum :=
  match fromHex s with
  | none => none
  | some b => if h : b.length = 32 then some ⟨b, h⟩ else none

/-- One byte, 32 times -/
def repeated (b : UInt8) : Checksum := ⟨List.replicate 32 b, List.length_replicate⟩

theorem ofStr_hex (c : Checksum) : ofStr c.hex = some c := by
  unfold ofStr hex
  rw [fromHex_hex]
  exact dif_pos c.length_eq

theorem hex_inj {c c' : Checksum} (h : c.hex = c'.hex) : c = c' := by
  have hback := ofStr_hex c
  rw [h, ofStr_hex] at hback
  exact (Option.some.inj hback).symm

end Checksum

/-! ## §2. Values. -/

/-- A Python value; `F`, `A` and `O` are the floats, the NumPy arrays and
scalars, and all other objects. -/
inductive PyValue (F A O : Type) where
  | none
  | bool (b : Bool)
  | int (n : Int)
  | float (x : F)
  | str (s : PyStr)
  | bytes (b : Bytes)
  | list (items : List (PyValue F A O))
  | dict (items : List (PyValue F A O × PyValue F A O))
  | array (a : A)
  | checksum (c : Checksum)
  | object (o : O)

/-- How a buffer of `util/mixed` is stored. -/
inductive Storage where
  | purePlain
  | pureBinary
  | mixedPlain
  deriving DecidableEq, Repr

/-! ## §3. Imported functions. -/

/-- What `parse_npy_header` returns. -/
structure NpyHeader (Dtype : Type) where
  shape : List Int
  fortranOrder : Bool
  dtype : Dtype
  dataOffset : Nat

/-- What the code imports.  `Option` stands for "may raise". -/
structure Libraries where
  Float : Type
  Array : Type
  Object : Type
  sha256 : Bytes → Checksum
  -- builtins
  /-- `sys.get_int_max_str_digits()` -/
  maxStrDigits : Nat
  /-- `math.isfinite(x)` -/
  isFinite : Float → Bool
  /-- `float(n)` -/
  floatOfInt : Int → Option Float
  /-- `float(s)` -/
  floatOfStr : PyStr → Option Float
  /-- `int(x)` -/
  intOfFloat : Float → Option Int
  /-- `int(s)` -/
  intOfStr : PyStr → Option Int
  /-- `str(x)` -/
  floatStr : Float → PyStr
  /-- `bool(x)` -/
  floatBool : Float → Bool
  /-- `int`, `float`, `bool` and `str` of all other values -/
  intOf : PyValue Float Array Object → Option Int
  floatOf : PyValue Float Array Object → Option Float
  boolOf : PyValue Float Array Object → Option Bool
  strOf : PyValue Float Array Object → Option PyStr
  -- json, orjson and yaml
  orjsonLoads : PyStr → Option (PyValue Float Array Object)
  /-- `orjson.dumps` with two-space indentation and sorted keys -/
  orjsonDumps : PyValue Float Array Object → Option Bytes
  /-- `orjson.dumps` with `OPT_SERIALIZE_NUMPY` -/
  orjsonDumpsNumpy : PyValue Float Array Object → Option Bytes
  jsonLoads : PyStr → Option (PyValue Float Array Object)
  yamlSafeLoad : PyStr → Option (PyValue Float Array Object)
  -- Python and IPython code
  /-- `ast.parse` accepts the text. -/
  astParse : PyStr → Bool
  ipythonMajor : Nat
  /-- The input splitter of IPython 8, line by line. -/
  splitCells : PyStr → Option PyStr
  /-- `TransformerManager().transform_cell`, cut by `splitlines(True)` -/
  transformCell : PyStr → Option (List PyStr)
  -- numpy
  /-- `np.load(…, allow_pickle=False)` -/
  npLoad : Bytes → Option Array
  Dtype : Type
  /-- `read_magic(f)` -/
  readMagic : Bytes → Option (Nat × Nat)
  /-- `read_array_header_1_0(f)`, and where it leaves the file -/
  readArrayHeader10 : Bytes → Option (NpyHeader Dtype)
  /-- `read_array_header_2_0(f)`, and where it leaves the file -/
  readArrayHeader20 : Bytes → Option (NpyHeader Dtype)
  itemsize : Dtype → Nat
  /-- `dtype.names is not None` -/
  hasNames : Dtype → Bool
  /-- `dtype.hasobject` -/
  hasObject : Dtype → Bool
  /-- `np.prod(shape, dtype=int)` -/
  npProd : List Int → Option Int
  /-- So many items of the buffer, from an offset -/
  npItems : Bytes → Dtype → Nat → Nat → Array
  /-- `a.reshape(shape, order="F" if fortran_order else "C")` -/
  reshape : Array → List Int → Bool → Option Array
  /-- `a[0]` -/
  firstItem : Array → Option Array
  dtype : Array → Dtype
  /-- `dtype.char` -/
  dtypeChar : Array → CodePoint
  /-- The array with an aligned struct dtype -/
  alignStruct : Array → Option Array
  /-- `np.array(b)` of a `bytes` object -/
  npBytes : Bytes → Array
  npArray : PyValue Float Array Object → Option Array
  /-- `np.save(…, allow_pickle=False)` -/
  npSave : Array → Option Bytes
  toBytes : Array → Bytes
  dtypeHasFields : Array → Bool
  dtypeKind : Array → CodePoint
  /-- `dtype == object` -/
  dtypeIsObject : Array → Bool
  ndim : Array → Nat
  /-- An array, not a NumPy scalar. -/
  isNdarray : Array → Bool
  /-- `np.isfinite(a).all()` -/
  allFinite : Array → Bool
  /-- A NumPy scalar that is a Python `float` or `complex`. -/
  isPyFloat : Array → Bool
  /-- `math.isfinite` of its real part -/
  realFinite : Array → Bool
  -- Seamless-mixed buffers
  /-- `from_stream` with storage `mixed-plain`, for a form -/
  mixedPlainStream : PyValue Float Array Object → Bytes → Option (PyValue Float Array Object)
  /-- The serialization of a value as `mixed` -/
  mixedSerialize : PyValue Float Array Object → Option Bytes

/-- The values of the libraries. -/
abbrev Libraries.Value (L : Libraries) := PyValue L.Float L.Array L.Object

namespace Libraries

variable (L : Libraries)

/-! ## §4. Builtins. -/

/-- `int(value)` -/
def pyInt : L.Value → Option Int
  | .none => none
  | .bool b => some (if b then 1 else 0)
  | .int n => some n
  | .float x => L.intOfFloat x
  | .str s => L.intOfStr s
  | .list _ => none
  | .dict _ => none
  | v => L.intOf v

/-- `float(value)` -/
def pyFloat : L.Value → Option L.Float
  | .none => none
  | .bool b => L.floatOfInt (if b then 1 else 0)
  | .int n => L.floatOfInt n
  | .float x => some x
  | .str s => L.floatOfStr s
  | .list _ => none
  | .dict _ => none
  | v => L.floatOf v

/-- `bool(value)` -/
def pyBool : L.Value → Option Bool
  | .none => some false
  | .bool b => some b
  | .int n => some (n != 0)
  | .float x => some (L.floatBool x)
  | .str s => some (!s.isEmpty)
  | .bytes b => some (!b.isEmpty)
  | .list items => some (!items.isEmpty)
  | .dict items => some (!items.isEmpty)
  | v => L.boolOf v

/-- `str(value)` -/
def pyStr : L.Value → Option PyStr
  | .none => some (py "None")
  | .bool b => some (if b then py "True" else py "False")
  | .int n => intRepr L.maxStrDigits n
  | .float x => some (L.floatStr x)
  | .str s => some s
  | v => L.strOf v

/-- `if chunk.startswith("get_ipython().run_"): chunk = "_ = " + chunk` -/
def assignRun (chunk : PyStr) : PyStr :=
  if (py "get_ipython().run_").isPrefixOf chunk then py "_ = " ++ chunk else chunk

/-- `ipython2python(code)` -/
def ipython2python (code : PyStr) : Option PyStr :=
  if 9 ≤ L.ipythonMajor then (L.transformCell code).map fun chunks => chunks.flatMap assignRun
  else L.splitCells code

/-! ## §5. Arrays. -/

/-- `parse_npy_header(b)` -/
def parseNpyHeader (b : Bytes) : Option (NpyHeader L.Dtype) :=
  match L.readMagic b with
  | none => none
  | some version => if version = (1, 0) then L.readArrayHeader10 b else L.readArrayHeader20 b

/-- `np.frombuffer(buffer, dtype, count, offset)` -/
def npFrombuffer (buffer : Bytes) (dtype : L.Dtype) (count : Int) (offset : Nat) :
    Option L.Array :=
  if L.hasObject dtype then none
  -- "itemsize cannot be zero in type"
  else if L.itemsize dtype = 0 ∧ L.hasNames dtype = false then none
  else if buffer.length < offset then none
  else
    let size := buffer.length - offset
    if count < 0 then
      if L.itemsize dtype = 0 ∨ size % L.itemsize dtype ≠ 0 then none
      else some (L.npItems buffer dtype (size / L.itemsize dtype) offset)
    else if size < count.toNat * L.itemsize dtype then none
    else some (L.npItems buffer dtype count.toNat offset)

/-- `from_stream(stream, "pure-binary", form)` -/
def npStream (stream : Bytes) : Option L.Array :=
  match L.parseNpyHeader stream with
  | none => none
  | some h =>
    (L.npProd h.shape).bind fun count =>
      (L.npFrombuffer stream h.dtype count h.dataOffset).bind fun arr0 =>
        (L.reshape arr0 h.shape h.fortranOrder).bind fun arr0 =>
          if L.ndim arr0 = 0 ∧ L.dtypeChar arr0 ≠ cp 'S' then
            -- the scalar, read once more from its own bytes
            (L.npFrombuffer (L.toBytes arr0) (L.dtype arr0) (-1) 0).bind L.firstItem
          else some arr0

/-- An array whose items take no bytes is not read. -/
theorem npStream_zeroWidth {b : Bytes} {h : NpyHeader L.Dtype} (hheader : L.parseNpyHeader b = some h)
    (hsize : L.itemsize h.dtype = 0) (hnames : L.hasNames h.dtype = false) :
    L.npStream b = none := by
  have hempty : ∀ count, L.npFrombuffer b h.dtype count h.dataOffset = none := by
    intro count
    unfold npFrombuffer
    by_cases hobject : L.hasObject h.dtype = true
    · rw [if_pos hobject]
    · rw [if_neg hobject, if_pos ⟨hsize, hnames⟩]
  unfold npStream
  rw [hheader]
  cases hcount : L.npProd h.shape with
  | none => simp [hcount]
  | some count => simp [hcount, hempty count]

/-! ## §6. Items. -/

/-- `value.get(name)` of a decoded dict -/
def dictGet (items : List (L.Value × L.Value)) (name : PyStr) : Option L.Value :=
  items.findSome? fun
    | (.str key, value) => if key = name then some value else none
    | _ => none

end Libraries

end SeamlessCore
