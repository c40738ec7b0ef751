/-
  SeamlessCore.Mixed.Stream — writing a mixed value.

  `to_stream` walks along the value: dicts in the order of sorted keys, lists in
  their order.  Every piece of NumPy data goes to the next free place of the
  binary part and leaves a zero in the JSON part.  The JSON part, the sizes and
  the description are then written in front of the binary part.

  Main definitions:
    * `Stream`, `toStream` — `_to_stream`, with the state that it changes;
    * `writeStream` — `to_stream`;
    * `mixedSerialize` — `serialize`;
    * `serializePlain`, `serializeMixed` — `_serialize` for two celltypes.

  Source: `seamless/util/mixed/io/to_stream.py`, `serialization.py`,
  `seamless/checksum/serialize.py`.
-/
import SeamlessCore.Mixed.Form

namespace SeamlessCore.Mixed

open Python

/-! ## §1. Little-endian numbers. -/

/-- The `k` lowest bytes of `n`, lowest first: `np.uint64(n).tobytes()` for `k = 8` -/
def leBytes : (k n : Nat) → Bytes
  | 0, _ => []
  | k + 1, n => UInt8.ofNat (n % 256) :: leBytes k (n / 256)

@[simp]
theorem length_leBytes (k n : Nat) : (leBytes k n).length = k := by
  induction k generalizing n with
  | zero => rfl
  | succ k ih =>
    show (leBytes k (n / 256)).length + 1 = k + 1
    rw [ih]

theorem littleEndian_leBytes (k n : Nat) (h : n < 256 ^ k) : littleEndian (leBytes k n) = n := by
  induction k generalizing n with
  | zero =>
    show 0 = n
    omega
  | succ k ih =>
    have hdiv : n / 256 < 256 ^ k := by
      rw [Nat.div_lt_iff_lt_mul (by omega)]
      rw [Nat.pow_succ] at h
      exact h
    show (UInt8.ofNat (n % 256)).toNat + 256 * littleEndian (leBytes k (n / 256)) = n
    rw [ih _ hdiv, UInt8.toNat_ofNat_of_lt' (by show n % 256 < 256; omega)]
    omega

/-! ## §2. The binary part. -/

/-- What `_to_stream` changes: the binary part, the next free place in it, and the
list of ends `jsons[0]`. -/
structure Stream where
  buffer : Bytes
  offset : Nat
  offsets : List Nat
  deriving DecidableEq

/-- `_copy_into_buffer(data, buffer, buffer_offset)`, and the end of the data noted -/
def Stream.write (s : Stream) (data : Bytes) : Option Stream :=
  let stop := s.offset + data.length
  if stop ≤ s.buffer.length then
    some ⟨s.buffer.take s.offset ++ data ++ s.buffer.drop stop, stop, s.offsets ++ [stop]⟩
  else none

/-- A part of the traversal: what is left in the JSON part, and the new state -/
abbrev Traversal (A : Type) := Stream → Option (A × Stream)

/-- Entries one after the other -/
def runItems {F : Type} : List (PyStr × Traversal (Value F)) → Traversal (List (PyStr × Value F))
  | [], s => some ([], s)
  | (k, run) :: items, s =>
    (run s).bind fun (v, s) => (runItems items s).map fun (vs, s) => ((k, v) :: vs, s)

/-- The entries of a dict in the order of their keys; their places stay. -/
def runSorted {F : Type} (items : List (PyStr × Value F))
    (runs : List (PyStr × Traversal (Value F))) : Traversal (Value F) := fun s =>
  (runItems (Assoc.sortByKey runs) s).map fun (results, s) =>
    (.dict (items.map fun (k, v) => (k, (results.lookup k).getD v)), s)

/-- `form["items"]` along a list of `n` items -/
def Form.itemForms : Form → (n : Nat) → Option (List Form)
  | .emptyList _, 0 => some []
  | .identicalList f _ _, n => some (List.replicate n f)
  | .variedList fs _, n => if fs.length = n then some fs else none
  | _, _ => none

namespace Codecs

variable (L : Codecs)

mutual

/-- `_to_stream(data, storage, form, jsons, buffer, buffer_offset)` -/
def toStream : Value L.Float → Storage → Form → Traversal (Value L.Float)
  -- nothing to do: the parent is in the JSON part already
  | v, .purePlain, _ => fun s => some (v, s)
  | v, .pureBinary, _ => fun s =>
    (L.numpyData v).bind fun (_, data) => (s.write data).map fun s => (.int 0, s)
  | v, .mixedPlain, .scalar _ _ => fun s => some (v, s)
  | .dict items, .mixedPlain, .object props _ => fun s =>
    (toStreamItems items props).bind fun runs => runSorted items runs s
  | .list items, .mixedPlain, form => fun s =>
    (form.itemForms items.length).bind fun fs =>
      (toStreamList items fs s).map fun (items, s) => (.list items, s)
  -- `item = list(item)`
  | .tuple items, .mixedPlain, form => fun s =>
    (form.itemForms items.length).bind fun fs =>
      (toStreamList items fs s).map fun (items, s) => (.list items, s)
  | _, .mixedPlain, _ => fun _ => none

def toStreamList : List (Value L.Float) → List Form → Traversal (List (Value L.Float))
  | v :: vs, f :: fs => fun s =>
    (toStream v f.substorage f s).bind fun (v, s) =>
      (toStreamList vs fs s).map fun (vs, s) => (v :: vs, s)
  | vs, _ => fun s => some (vs, s)

/-- The entries of a dict, each with `form["properties"][key]` -/
def toStreamItems : List (PyStr × Value L.Float) → List (PyStr × Form) →
    Option (List (PyStr × Traversal (Value L.Float)))
  | [], _ => some []
  | (k, v) :: items, props =>
    (props.lookup k).bind fun f =>
      (toStreamItems items props).map fun runs => (k, toStream v f.substorage f) :: runs

end

/-! ## §3. Streams. -/

/-- `to_stream(data, storage, form)` with storage `mixed-plain` -/
def writeMixedPlain (data : Value L.Float) (form : Form) : Option Bytes :=
  match L.getBuffersizeDebug data .mixedPlain form, getBuffersize .mixedPlain form with
  | some check, some size =>
    if check = size then
      (L.toStream data .mixedPlain form ⟨List.replicate size 0, 0, [0]⟩).bind fun (data, s) =>
        if s.offset = size then
          (data.toJson.bind fun j => L.dumps (.list [jsonNats s.offsets, j])).bind fun text =>
            -- `np.uint64(…)` raises for larger numbers
            if text.length < 256 ^ 8 ∧ size < 256 ^ 8 then
              some (magicSeamless ++ leBytes 8 text.length ++ leBytes 8 size ++ text ++ s.buffer)
            else none
        else none
    else none
  | _, _ => none

/-- `np.asanyarray(data)` -/
def asArray : Value L.Float → Option NdArray
  | .array a => some a
  | .generic g => some g.asArray
  | .bytes b => some (L.npBytes b)
  | .complex re im => some (L.npComplex re im)
  | _ => none

/-- `to_stream(data, storage, form)` -/
def writeStream (data : Value L.Float) : Storage → Form → Option Bytes
  | .purePlain, _ => (data.sorted.toJson.bind L.dumpsIndented).map (· ++ ascii "\n")
  | .pureBinary, _ => (L.asArray data).bind L.npSave
  | .mixedPlain, form => L.writeMixedPlain data form

/-- `h1 = storage.encode()` of a stream with a header -/
def storageBytes : Bytes := ascii "mixed-plain"

/-- The header of a Seamless-mixed buffer, with its content -/
def withHeader (form content : Bytes) : Bytes :=
  magicSeamlessMixed ++ leBytes 1 storageBytes.length ++ storageBytes ++ leBytes 4 form.length ++
    form ++ content

/-- `serialize(data)` -/
def mixedSerialize (data : Value L.Float) : Option Bytes :=
  (L.getForm data).bind fun (storage, form) =>
    (L.writeStream data storage form).bind fun content =>
      match storage with
      | .purePlain => some content
      | .pureBinary => some content
      | .mixedPlain =>
        (L.dumps form.json).bind fun h2 =>
          -- `np.uint32(len(h2))` raises for larger numbers
          if h2.length < 256 ^ 4 then some (withHeader h2 content) else none

/-! ## §4. `_serialize`. -/

/-- `_serialize(value, "plain")` -/
def serializePlain : Value L.Float → Option Bytes
  | .none => some nullBuffer
  | v =>
    let value := unchecksum v
    if L.checkFinite value then
      (value.sorted.toJson.bind L.orjsonDumps).map (· ++ ascii "\n")
    else none

/-- `_serialize(value, "mixed")` -/
def serializeMixed : Value L.Float → Option Bytes
  | .none => some nullBuffer
  | v =>
    match L.normalizeMixedSpecialValues (unchecksum v) with
    | .complex re im => L.npSave (L.npComplex re im)
    | value => L.mixedSerialize value

end Codecs

end SeamlessCore.Mixed
