/-
  SeamlessCore.Checksum.Serialize — the canonical buffer of a value.

  `serialize` turns a value into the buffer of a celltype.  `None` has one
  buffer for all celltypes.  JSON buffers end in one newline, and so does
  text, whose own trailing newlines are dropped first.

  Main definitions:
    * `unchecksum`, `checkFinite` — what `plain` does to nested values;
    * `serialize` — `_serialize`; `none` stands for an exception.

  Source: `seamless/checksum/serialize.py`, `seamless/util/__init__.py`.
-/
import SeamlessCore.Checksum.Parse

namespace SeamlessCore

open Python

section

variable {F A O : Type}

/-! ## §1. Nested values. -/

mutual

/-- `unchecksum(value)` -/
def unchecksum : PyValue F A O → PyValue F A O
  | .checksum c => .str c.hex
  | .list items => .list (unchecksumList items)
  | .dict items => .dict (unchecksumDict items)
  | v => v

/-- `_unchecksum_list(l)` -/
def unchecksumList : List (PyValue F A O) → List (PyValue F A O)
  | [] => []
  | v :: vs => unchecksum v :: unchecksumList vs

/-- `_unchecksum_dict(d)` -/
def unchecksumDict : List (PyValue F A O × PyValue F A O) → List (PyValue F A O × PyValue F A O)
  | [] => []
  | (k, v) :: items => (k, unchecksum v) :: unchecksumDict items

end

end

namespace Libraries

variable (L : Libraries)

mutual

/-- `check_finite(item)` does not raise. -/
def checkFinite : L.Value → Bool
  | .float x => L.isFinite x
  | .array a =>
    if L.dtypeKind a = cp 'f' ∨ L.dtypeKind a = cp 'c' ∧ L.isNdarray a then L.allFinite a else true
  | .list items => checkFiniteList items
  | .dict items => checkFiniteDict items
  | _ => true

/-- `check_finite` of the children of a list -/
def checkFiniteList : List L.Value → Bool
  | [] => true
  | v :: vs => checkFinite v && checkFiniteList vs

/-- `check_finite` of the children of a dict -/
def checkFiniteDict : List (L.Value × L.Value) → Bool
  | [] => true
  | (_, v) :: items => checkFinite v && checkFiniteDict items

end

/-! ## §2. Serialization. -/

/-- `json_dumps_bytes(value) + b"\n"` -/
def jsonBuffer (v : L.Value) : Option Bytes := (L.orjsonDumps v).map (· ++ ascii "\n")

/-- `(str(value).rstrip("\n") + "\n").encode()` -/
def textBuffer (s : PyStr) : Option Bytes := encodeUtf8 (rstripNewlines s ++ [cp '\n'])

/-- `np.array(value)` -/
def asArray : L.Value → Option L.Array
  | .array a => some a
  | .bytes b => some (L.npBytes b)
  | v => L.npArray v

/-- `if isinstance(value, bytes): value = value.decode()` -/
def decodeBytes : L.Value → Option L.Value
  | .bytes b => (decodeUtf8 b).map .str
  | v => some v

/-- `_serialize(value, "bytes")` before an empty buffer becomes null -/
def bytesBuffer : L.Value → Option Bytes
  | .bytes b => some b
  | .array a => some (L.toBytes a)
  | v => (L.pyStr v).bind fun s => encodeUtf8 (rstripNewlines s)

/-- `_serialize(value, celltype)` for a value other than `None` and without
a `Checksum` on top -/
def serializeValue (v : L.Value) : Celltype → Option Bytes
  | .str =>
    match v with
    | .bool b => L.jsonBuffer (.bool b)
    | v => (L.pyStr v).bind fun s => L.jsonBuffer (.str s)
  | .int => ((L.decodeBytes v).bind L.pyInt).bind fun n => L.jsonBuffer (.int n)
  | .float => ((L.decodeBytes v).bind L.pyFloat).bind fun x =>
    if L.isFinite x then L.jsonBuffer (.float x) else none
  | .bool => ((L.decodeBytes v).bind L.pyBool).bind fun b => L.jsonBuffer (.bool b)
  | .text | .python | .ipython | .yaml => ((L.decodeBytes v).bind L.pyStr).bind textBuffer
  | .plain =>
    if L.checkFinite (unchecksum v) then L.jsonBuffer (unchecksum v) else none
  | .bytes => (L.bytesBuffer v).map fun b => if b = [] then nullBuffer else b
  | .checksum =>
    match v with
    | .str s => (Checksum.ofStr s).bind fun c => encodeUtf8 c.hex
    | _ => none
  | .mixed => L.mixedSerialize (unchecksum v)
  | .binary =>
    match v with
    | .bytes b => some b
    | v => (L.asArray v).bind L.npSave

/-- `_serialize(value, celltype)` -/
def serialize (v : L.Value) (t : Celltype) : Option Bytes :=
  match v with
  | .none => some nullBuffer
  | .checksum c => L.serializeValue (.str c.hex) t
  | v => L.serializeValue v t

end Libraries

end SeamlessCore
