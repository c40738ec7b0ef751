/-
  SeamlessCore.Mixed.Pieces — the pieces of the binary part.

  The writer puts the NumPy data of a value in one piece after another, and
  notes where each ends.  A piece is loaded with the element type that its
  description spells, which is the type of what was written.

  Main definitions:
    * `Stream.after` — the stream after some pieces were written;
    * `DType.Known` — an element type that NumPy makes of its description.
  Main results:
    * `after_append`, `write_after` — pieces one after the other;
    * `readEntries_items` — the element type of a description, read from its JSON;
    * `loadFromBuffer_piece` — a piece is loaded from where it was written.

  Source: `seamless/util/mixed/io/to_stream.py`, `from_stream.py`, `util.py`.
-/
import SeamlessCore.Mixed.Reader

namespace SeamlessCore.Mixed

open Python

/-! ## §1. Pieces one after the other. -/

/-- The ends of pieces that begin at `offset` -/
def marks (offset : Nat) : List Bytes → List Nat
  | [] => []
  | piece :: pieces => (offset + piece.length) :: marks (offset + piece.length) pieces

theorem marks_append (offset : Nat) (pieces pieces' : List Bytes) :
    marks offset (pieces ++ pieces') =
      marks offset pieces ++ marks (offset + pieces.flatten.length) pieces' := by
  induction pieces generalizing offset with
  | nil => rfl
  | cons piece pieces ih =>
    show (offset + piece.length) :: marks (offset + piece.length) (pieces ++ pieces') = _
    rw [ih, List.flatten_cons, List.length_append, Nat.add_assoc]
    rfl

/-- The stream after the pieces were written -/
def Stream.after (s : Stream) (pieces : List Bytes) : Stream where
  buffer := s.buffer.take s.offset ++ pieces.flatten ++
    s.buffer.drop (s.offset + pieces.flatten.length)
  offset := s.offset + pieces.flatten.length
  offsets := s.offsets ++ marks s.offset pieces

/-- There is room for the pieces. -/
def Stream.Fits (s : Stream) (pieces : List Bytes) : Prop :=
  s.offset + pieces.flatten.length ≤ s.buffer.length

@[simp]
theorem after_nil (s : Stream) : s.after [] = s := by
  unfold Stream.after
  simp [marks]

theorem after_append {s : Stream} {pieces : List Bytes} (h : s.Fits pieces) (pieces' : List Bytes) :
    (s.after pieces).after pieces' = s.after (pieces ++ pieces') := by
  unfold Stream.Fits at h
  have hlength : (s.buffer.take s.offset ++ pieces.flatten).length =
      s.offset + pieces.flatten.length := by
    rw [List.length_append, List.length_take, Nat.min_eq_left (by omega)]
  unfold Stream.after
  rw [marks_append, List.flatten_append, List.length_append]
  congr 1
  · show (s.buffer.take s.offset ++ pieces.flatten ++ _).take (s.offset + pieces.flatten.length) ++
      pieces'.flatten ++ (s.buffer.take s.offset ++ pieces.flatten ++ _).drop
        (s.offset + pieces.flatten.length + pieces'.flatten.length) = _
    rw [List.take_left' hlength, ← hlength, List.drop_length_add_append, List.drop_drop, hlength,
      List.append_assoc (s.buffer.take s.offset), ← Nat.add_assoc]
  · show s.offset + pieces.flatten.length + pieces'.flatten.length = _
    omega
  · exact List.append_assoc _ _ _

theorem fits_append {s : Stream} {pieces pieces' : List Bytes} (h : s.Fits pieces) :
    (s.after pieces).Fits pieces' ↔ s.Fits (pieces ++ pieces') := by
  unfold Stream.Fits at h ⊢
  unfold Stream.after
  rw [List.flatten_append, List.length_append]
  simp only [List.length_append, List.length_take, List.length_drop]
  omega

/-- `_copy_into_buffer` writes one piece. -/
theorem write_after {s s' : Stream} {data : Bytes} (h : s.write data = some s') :
    s' = s.after [data] ∧ s.Fits [data] := by
  unfold Stream.write at h
  dsimp only at h
  split at h
  next hroom =>
    have hflat : ([data] : List Bytes).flatten = data := by simp
    unfold Stream.after Stream.Fits
    rw [hflat]
    exact ⟨(Option.some.inj h).symm, hroom⟩
  next => cases h

/-! ## §2. Element types. -/

mutual

/-- An element type that NumPy makes of its description: numbers of the sizes there are, strings
with at least one byte, and records whose fields have different names.  The writer refuses the
others: `U` is spelled `S`, and unsigned numbers are spelled as signed ones in a field that is
an array. -/
def DType.Known : DType → Prop
  | .struct fields => fields.names.Nodup ∧ fields.Known
  | .unicode _ => False
  | .other => False
  | dtype => dtype.sized = true

def Fields.Known : Fields → Prop
  | .nil => True
  | .cons name dtype shape rest =>
    Encodable name ∧ dtype.Known ∧ (shape = none ∨ ∀ n, dtype ≠ .integer n true) ∧ rest.Known

def Fields.names : Fields → List PyStr
  | .nil => []
  | .cons name _ _ rest => name :: rest.names

end

variable {F : Type}

theorem describeTypes_eq (entries : List (PyStr × Json F)) :
    describeTypes entries = Assoc.mapValues describeType entries := by
  induction entries with
  | nil => rfl
  | cons e entries ih =>
    show (e.1, describeType e.2) :: describeTypes entries = _
    rw [ih]
    rfl

theorem lookup_describeTypes (entries : List (PyStr × Json F)) (key : PyStr) :
    (describeTypes entries).lookup key = (entries.lookup key).map describeType := by
  rw [describeTypes_eq, Assoc.lookup_mapValues]

/-- The entry that notes a storage is found under no other key. -/
theorem lookup_storageItem (entries : List (PyStr × Json F)) (s : Option Storage)
    (key : PyStr) (hkey : key ≠ py "storage") :
    (entries ++ storageItem s).lookup key = entries.lookup key := by
  rw [List.lookup_append]
  cases s with
  | none => simp [storageItem]
  | some s =>
    have hbeq : (key == py "storage") = false := by simpa using hkey
    simp [storageItem, List.lookup_cons, hbeq]

/-- It says nothing of the element type. -/
theorem readType_storageItem (entries : List (PyStr × Json F)) (s : Option Storage) :
    readType (entries ++ storageItem s) (describeTypes (entries ++ storageItem s)) =
      readType entries (describeTypes entries) := by
  funext storage toplevel
  unfold readType typeOf formToDtypeScalar recordType flag
  simp only [lookup_describeTypes]
  rw [lookup_storageItem entries s (py "type") (by decide),
    lookup_storageItem entries s (py "identical") (by decide),
    lookup_storageItem entries s (py "items") (by decide),
    lookup_storageItem entries s (py "shape") (by decide),
    lookup_storageItem entries s (py "properties") (by decide),
    lookup_storageItem entries s (py "order") (by decide),
    lookup_storageItem entries s (py "bytesize") (by decide),
    lookup_storageItem entries s (py "unsigned") (by decide),
    lookup_storageItem entries s (py "complex") (by decide)]

theorem natsOf_jsonNats (ns : List Nat) : natsOf (jsonNats ns : Json F) = some ns := by
  show (ns.map fun n : Nat => (.int (n : Int) : Json F)).mapM natOf = some ns
  induction ns with
  | nil => rfl
  | cons n ns ih =>
    rw [List.map_cons, List.mapM_cons, ih]
    show (if 0 ≤ (n : Int) then some (n : Int).toNat else none).bind _ = _
    rw [if_pos (Int.natCast_nonneg n)]
    rfl

theorem strsOf_names (names : List PyStr) : strsOf (.list (names.map .str) : Json F) = some names := by
  show (names.map Json.str).mapM strOf = some names
  induction names with
  | nil => rfl
  | cons name names ih =>
    rw [List.map_cons, List.mapM_cons, ih]
    rfl

/-- `_form_to_dtype` of a dict -/
def readEntries (entries : List (PyStr × Json F)) (toplevel : Bool) : TypeReading :=
  readType entries (describeTypes entries) (py "pure-binary") toplevel

def ScalarType.typeName : ScalarType → TypeName
  | .string => .string
  | .integer => .integer
  | .number => .number
  | .boolean => .boolean
  | .null => .null

theorem typeOf_builtin (type : ScalarType) (n : Nat) (complex : Bool) (unsigned : Option Bool) :
    typeOf (builtinItems type n complex unsigned : List (PyStr × Json F)) = some type.typeName := by
  cases type <;> rfl

theorem bytesize_builtin (type : ScalarType) (n : Nat) (complex : Bool) (unsigned : Option Bool) :
    ((builtinItems type n complex unsigned : List (PyStr × Json F)).lookup (py "bytesize")).bind natOf =
      some n := by
  show natOf (.int (n : Int) : Json F) = some n
  show (if 0 ≤ (n : Int) then some (n : Int).toNat else none) = some n
  rw [if_pos (Int.natCast_nonneg n)]
  rfl

theorem complex_builtin (type : ScalarType) (n : Nat) (complex : Bool) (unsigned : Option Bool) :
    flag (builtinItems type n complex unsigned : List (PyStr × Json F)) (py "complex") = complex := by
  cases complex <;> cases unsigned <;> rfl

theorem unsigned_builtin (type : ScalarType) (n : Nat) (complex : Bool) (unsigned : Option Bool) :
    flag (builtinItems type n complex unsigned : List (PyStr × Json F)) (py "unsigned") =
      unsigned.getD false := by
  cases complex <;> cases unsigned <;> rfl

/-- No slot for a Python object -/
theorem no_slot {type : TypeName} {toplevel : Bool} (h : type ≠ .array ∨ toplevel = true) :
    ¬(py "pure-binary" = py "pure-plain" ∨ py "pure-binary" = py "mixed-plain" ∨
      type = .array ∧ toplevel = false) := by
  have hplain : py "pure-binary" ≠ py "pure-plain" := by decide
  have hmixed : py "pure-binary" ≠ py "mixed-plain" := by decide
  intro hslot
  rcases hslot with heq | heq | ⟨htype, htop⟩
  · exact hplain heq
  · exact hmixed heq
  · rcases h with hne | htrue
    · exact hne htype
    · rw [htop] at htrue
      cases htrue

/-- A builtin type -/
theorem readEntries_builtin {type : ScalarType} {n : Nat} {complex : Bool} {unsigned : Option Bool}
    {d : DType} (h : (TForm.builtin type n complex unsigned).toDtype = some d) (hd : d.Known)
    (toplevel : Bool) :
    readEntries (builtinItems type n complex unsigned : List (PyStr × Json F)) toplevel =
      some (d, none) := by
  have hscalar : formToDtypeScalar type.typeName
      (builtinItems type n complex unsigned : List (PyStr × Json F)) = some d := by
    unfold formToDtypeScalar
    rw [bytesize_builtin, complex_builtin, unsigned_builtin]
    cases type with
    | null => cases h
    | boolean => exact h
    | string => exact h
    | integer =>
      obtain rfl := Option.some.inj h
      exact if_pos hd
    | number =>
      obtain rfl := Option.some.inj h
      exact if_pos hd
  have hslot := @no_slot type.typeName toplevel (.inl (by cases type <;> decide))
  unfold readEntries readType
  rw [typeOf_builtin]
  dsimp only [Option.bind_some]
  rw [if_neg hslot]
  cases type with
  | null => cases h
  | _ =>
    show (formToDtypeScalar _ _).map _ = _
    exact (congrArg (Option.map fun dtype => (dtype, none)) hscalar)

/-- The description of an element type notes no storage. -/
theorem storage_items (t : TForm) (default : PyStr) :
    storageOr (t.items : List (PyStr × Json F)) default = some default := by
  cases t with
  | builtin type n complex unsigned => cases complex <;> cases unsigned <;> rfl
  | struct props bytesize => rfl

theorem keys_json (props : TFields) : Assoc.keys (props.json : List (PyStr × Json F)) = props.names := by
  match props with
  | .nil => rfl
  | .cons name item none rest => exact congrArg (name :: ·) (keys_json rest)
  | .cons name item (some shape) rest => exact congrArg (name :: ·) (keys_json rest)

theorem names_toFields (props : TFields) {fields : Fields} (h : props.toFields = some fields) :
    fields.names = props.names := by
  match props with
  | .nil =>
    obtain rfl := Option.some.inj h
    rfl
  | .cons name item shape rest =>
    unfold TFields.toFields at h
    split at h
    next dtype fields' _ hrest =>
      obtain rfl := Option.some.inj h
      exact congrArg (name :: ·) (names_toFields rest hrest)
    next => cases h

/-- The entries of a field that is an array -/
def tupleItems (item : TForm) (shape : List Nat) : List (PyStr × Json F) :=
  [(py "type", .str (py "tuple")), (py "items", .dict item.items),
    (py "identical", .bool true), (py "shape", jsonNats shape)]

/-- A field that is an array of its elements -/
theorem readEntries_tuple {item : TForm} {dtype : DType} {shape : List Nat}
    (h : readEntries (item.items : List (PyStr × Json F)) false = some (dtype, none)) :
    readEntries (tupleItems item shape : List (PyStr × Json F)) false = some (dtype, some shape) := by
  have hitems : (describeTypes (tupleItems item shape : List (PyStr × Json F))).lookup (py "items") =
      some (describeType (.dict item.items : Json F)) := rfl
  have hread : (describeType (.dict item.items : Json F)).form.read (py "pure-binary") false =
      some (dtype, none) := h
  have hshape : ((tupleItems item shape : List (PyStr × Json F)).lookup (py "shape")).bind natsOf =
      some shape := natsOf_jsonNats shape
  unfold readEntries readType
  rw [show typeOf (tupleItems item shape : List (PyStr × Json F)) = some .tuple from rfl]
  dsimp only [Option.bind_some]
  rw [if_neg (no_slot (.inl (by decide))), hitems, hshape]
  have hidentical : flag (tupleItems item shape : List (PyStr × Json F)) (py "identical") = true := rfl
  rw [if_pos hidentical, Option.bind_some, hread]
  rfl

mutual

/-- The element type of a description is read from its JSON. -/
theorem readEntries_items (t : TForm) {d : DType} (h : t.toDtype = some d) (hd : d.Known)
    (toplevel : Bool) :
    readEntries (t.items : List (PyStr × Json F)) toplevel = some (d, none) := by
  match t with
  | .builtin type n complex unsigned => exact readEntries_builtin h hd toplevel
  | .struct props bytesize =>
    obtain ⟨fields, hfields, rfl⟩ := Option.map_eq_some_iff.mp h
    obtain ⟨hnames, hknown⟩ := hd
    rw [names_toFields props hfields] at hnames
    let parts := (describeTypes (props.json : List (PyStr × Json F))).map
      fun part => (part.1, part.2.form)
    have hkeys : Assoc.keys parts = props.names := by
      rw [← @keys_json F props]
      show ((describeTypes (props.json : List (PyStr × Json F))).map _).map _ = _
      rw [describeTypes_eq, List.map_map]
      exact Assoc.keys_mapValues describeType _
    have hrecord : recordType ((TForm.struct props bytesize).items : List (PyStr × Json F)) parts
        (py "pure-binary") = some (.struct fields) := by
      have horder : (((TForm.struct props bytesize).items : List (PyStr × Json F)).lookup
          (py "order")).bind strsOf = some props.names := strsOf_names props.names
      have hshape : ((TForm.struct props bytesize).items : List (PyStr × Json F)).lookup
          (py "shape") = none := rfl
      unfold recordType
      rw [horder, hshape, hkeys]
      dsimp only
      rw [if_pos ⟨hnames, fun _ hname => hname, fun _ hname => hname⟩]
      have hfieldTypes := fieldTypes_json props hfields hknown parts fun part hpart =>
        Assoc.lookup_of_mem (hkeys ▸ hnames) (List.mem_map.mpr ⟨part, hpart, rfl⟩)
      rw [hfieldTypes]
      rfl
    have hproperties : ((describeTypes ((TForm.struct props bytesize).items :
        List (PyStr × Json F))).lookup (py "properties")).bind TypeDescription.properties =
          some parts := rfl
    unfold readEntries readType
    rw [show typeOf ((TForm.struct props bytesize).items : List (PyStr × Json F)) = some .object
      from rfl]
    dsimp only [Option.bind_some]
    rw [if_neg (no_slot (.inl (by decide))), hproperties]
    show (recordType _ parts _).map _ = _
    rw [hrecord]
    rfl

theorem fieldTypes_json (props : TFields) {fields : Fields} (h : props.toFields = some fields)
    (hfields : fields.Known) (parts : List (PyStr × TypeReader))
    (hparts : ∀ part ∈ describeTypes (props.json : List (PyStr × Json F)),
      parts.lookup part.1 = some part.2.form) :
    fieldTypes parts (py "pure-binary") props.names = some fields := by
  match props with
  | .nil =>
    obtain rfl := Option.some.inj h
    rfl
  | .cons name item shape rest =>
    unfold TFields.toFields at h
    split at h
    next dtype fields' hitem hrest =>
      obtain rfl := Option.some.inj h
      obtain ⟨-, hdtype, -, hknown⟩ := hfields
      have hread := @readEntries_items item dtype hitem hdtype false
      cases shape with
      | none =>
        have hfirst := hparts (name, describeType (.dict item.items)) List.mem_cons_self
        have hfields := fieldTypes_json rest hrest hknown parts fun part hpart =>
          hparts part (List.mem_cons_of_mem _ hpart)
        show (parts.lookup name).bind _ = _
        rw [hfirst]
        show (storageOr item.items (py "pure-binary")).bind _ = _
        rw [storage_items]
        show (readEntries item.items false).bind _ = _
        rw [hread]
        show (fieldTypes parts (py "pure-binary") rest.names).map _ = _
        rw [hfields]
        rfl
      | some shape =>
        have hfirst := hparts (name, describeType (.dict (tupleItems item shape))) List.mem_cons_self
        have hfields := fieldTypes_json rest hrest hknown parts fun part hpart =>
          hparts part (List.mem_cons_of_mem _ hpart)
        show (parts.lookup name).bind _ = _
        rw [hfirst]
        show (readEntries (tupleItems item shape) false).bind _ = _
        rw [readEntries_tuple hread]
        show (fieldTypes parts (py "pure-binary") rest.names).map _ = _
        rw [hfields]
        rfl
    next => cases h

end

/-- The description of the elements of a field that is an array -/
def elementTform : DType → Option TForm
  | .struct _ => none
  | .integer n _ => some (.builtin .integer n false (some false))
  | dtype => getTformNumpy dtype

theorem getTformFields_cons (name : PyStr) (dtype : DType) (rest : Fields) :
    getTformFields (.cons name dtype none rest) = (getTformNumpy dtype).bind fun item =>
      (getTformFields rest).map fun props => .cons name item none props := by
  conv_lhs => whnf
  cases getTformNumpy dtype with
  | none => rfl
  | some item => cases getTformFields rest <;> rfl

theorem getTformFields_array (name : PyStr) (dtype : DType) (shape : List Nat) (rest : Fields) :
    getTformFields (.cons name dtype (some shape) rest) = (elementTform dtype).bind fun item =>
      (getTformFields rest).map fun props => .cons name item (some shape) props := by
  -- the cases of `dtype` are those of `elementTform`
  cases dtype <;> (conv_lhs => whnf) <;> cases getTformFields rest <;> rfl

mutual

/-- The description of an element type spells it. -/
theorem toDtype_getTformNumpy (d : DType) {t : TForm} (h : getTformNumpy d = some t)
    (hd : d.Known) : t.toDtype = some d := by
  match d with
  | .bool =>
    obtain rfl := Option.some.inj h
    rfl
  | .integer n unsigned =>
    obtain rfl := Option.some.inj h
    rfl
  | .number n complex =>
    obtain rfl := Option.some.inj h
    rfl
  | .bytes n =>
    obtain rfl := Option.some.inj h
    rfl
  | .unicode n => exact hd.elim
  | .other => exact hd.elim
  | .struct fields =>
    obtain ⟨props, hprops, rfl⟩ := Option.map_eq_some_iff.mp h
    show props.toFields.map DType.struct = _
    rw [toFields_getTformFields fields hprops hd.2]
    rfl

theorem toFields_getTformFields (fields : Fields) {props : TFields}
    (h : getTformFields fields = some props) (hfields : fields.Known) :
    props.toFields = some fields := by
  match fields with
  | .nil =>
    obtain rfl := Option.some.inj h
    rfl
  | .cons name dtype none rest =>
    obtain ⟨-, hdtype, -, hrest⟩ := hfields
    rw [getTformFields_cons] at h
    obtain ⟨item, hitem, hmap⟩ := Option.bind_eq_some_iff.mp h
    obtain ⟨props', hprops, rfl⟩ := Option.map_eq_some_iff.mp hmap
    unfold TFields.toFields
    rw [toDtype_getTformNumpy dtype hitem hdtype, toFields_getTformFields rest hprops hrest]
  | .cons name dtype (some shape) rest =>
    obtain ⟨-, hdtype, hsigned, hrest⟩ := hfields
    have hsigned := hsigned.resolve_left (by intro heq; cases heq)
    rw [getTformFields_array] at h
    obtain ⟨item, hitem, hmap⟩ := Option.bind_eq_some_iff.mp h
    obtain ⟨props', hprops, rfl⟩ := Option.map_eq_some_iff.mp hmap
    have hspelled : item.toDtype = some dtype := by
      cases dtype with
      | struct fields => cases hitem
      | integer n unsigned =>
        obtain rfl := Option.some.inj hitem
        cases unsigned with
        | true => exact absurd rfl (hsigned n)
        | false => rfl
      | bool =>
        obtain rfl := Option.some.inj hitem
        rfl
      | number n complex =>
        obtain rfl := Option.some.inj hitem
        rfl
      | bytes n =>
        obtain rfl := Option.some.inj hitem
        rfl
      | unicode n => exact hdtype.elim
      | other => exact hdtype.elim
    unfold TFields.toFields
    rw [hspelled, toFields_getTformFields rest hprops hrest]

end

/-! ## §3. Loading. -/

/-- `form_to_dtype` of an element type, with or without a storage noted -/
theorem formToDtype_items {t : TForm} {d : DType} (h : t.toDtype = some d) (hd : d.Known)
    (s : Option Storage) :
    formToDtype (.dict (t.items ++ storageItem s) : Json F) (py "pure-binary") = some d := by
  have hread : (describeType (.dict (t.items ++ storageItem s) : Json F)).form.read
      (py "pure-binary") true = some (d, none) := by
    show readType (t.items ++ storageItem s) (describeTypes (t.items ++ storageItem s)) _ _ = _
    rw [readType_storageItem]
    exact readEntries_items t h hd true
  unfold formToDtype
  rw [hread]

/-- A scalar as it is read: a string without the NULs at its end. -/
def Generic.readBack (g : Generic) : Generic := element g.dtype g.data g.length_eq

/-- An array as it is read: contiguous, and a scalar if it has no dimensions. -/
def NdArray.readBack (a : NdArray) : Value F :=
  if h : a.shape = [] then .generic (element a.dtype a.data (a.length_scalar h))
  else .array { a with native := true, strides := none }

example : (⟨.bytes 3, [97, 98, 0], rfl⟩ : Generic).readBack = ⟨.bytes 2, [97, 98], rfl⟩ := by decide

theorem DType.Known.ne_bytes {d : DType} (hd : d.Known) : d ≠ .bytes 0 := by
  rintro rfl
  cases hd

theorem fill_array {a : NdArray} (ha : a.dtype.Known) :
    fill a.dtype (some a.shape) a.data = some (a.readBack : Value F) := by
  have hwidth := ha.ne_bytes
  unfold NdArray.readBack fill
  rw [if_neg hwidth]
  obtain ⟨dtype, native, shape, strides, data, hlength⟩ := a
  cases shape with
  | nil =>
    have hscalar : data.length = dtype.itemsize := by simpa using hlength
    show (if h : data.length = dtype.itemsize then _ else _) = _
    rw [dif_pos hscalar]
    rfl
  | cons n shape =>
    show (if h : data.length = dtype.itemsize * (n :: shape).prod then _ else _) = _
    rw [dif_pos hlength]
    rfl

theorem fill_generic {g : Generic} (hg : g.dtype.Known) :
    fill g.dtype none g.data = some (.generic g.readBack : Value F) := by
  unfold fill
  rw [if_neg hg.ne_bytes]
  show (if h : g.data.length = g.dtype.itemsize then _ else _) = _
  rw [dif_pos g.length_eq]
  rfl

/-- A piece is loaded from where it was written. -/
theorem loadFromBuffer_piece {form : Json F} {d : DType} {shape : Option (List Nat)}
    {data pre post : Bytes} (hform : formToDtype form (py "pure-binary") = some d)
    (hlength : data.length = d.itemsize * (shape.getD [1]).prod) :
    loadFromBuffer (pre ++ data ++ post) (py "pure-binary") form pre.length
      (pre.length + data.length : Nat) shape = fill d shape data := by
  unfold loadFromBuffer
  rw [hform]
  dsimp only [Option.bind_some]
  rw [if_pos ⟨by rw [← hlength]; omega, by omega, by simp only [List.length_append]; omega⟩]
  congr 1
  show ((pre ++ data ++ post).drop pre.length).take (pre.length + data.length - pre.length) = data
  rw [List.append_assoc, List.drop_left, Nat.add_sub_cancel_left, List.take_left]

/-- What the description of an array is loaded with -/
theorem pieceForm_ndarray (items : TForm) (shape : List Nat) (strides : Option (List Int))
    (s : Option Storage) :
    pieceForm (ndarrayItems items shape strides ++ storageItem s : List (PyStr × Json F)) =
      some (.dict items.items, some shape) := by
  unfold pieceForm
  rw [show typeOf (ndarrayItems items shape strides ++ storageItem s : List (PyStr × Json F)) =
    some .array from rfl]
  show ((natsOf (jsonNats shape : Json F)).bind fun shape =>
    (some (.dict items.items : Json F)).map fun form => (form, some shape)) = _
  rw [natsOf_jsonNats]
  rfl

/-- What the description of a NumPy scalar is loaded with -/
theorem pieceForm_generic {item : TForm} {d : DType} (h : item.toDtype = some d)
    (s : Option Storage) :
    pieceForm (item.items ++ storageItem s : List (PyStr × Json F)) =
      some (.dict (item.items ++ storageItem s), none) := by
  unfold pieceForm typeOf
  rw [lookup_storageItem _ s (py "type") (by decide)]
  cases item with
  | builtin type n complex unsigned =>
    cases type with
    | null => cases h
    | _ => rfl
  | struct props bytesize => rfl

end SeamlessCore.Mixed
