/-
  SeamlessCore.Celljoin.Parse — celljoin definitions.

  A celljoin definition maps member keys to checksums, with a `<root>` and a
  `<numeric>` marker.  It may be given as a mapping or as a buffer.  Its
  identity is the checksum of the definition, with the celltype: that of the
  canonical buffer for a mapping, and of the buffer itself otherwise.

  Main definitions:
    * `Joins` — what the code imports, and `Buffer.get_value`;
    * `Definition`, `CellJoinSpec` — what is parsed, and the result;
    * `parseCelljoin` — `parse_celljoin`;
    * `cacheKey` — `celljoin_cache_key`.

  Main result:
    * `parse_identity` — specs of one identity differ in the order of their
      members only.

  Source: `seamless/checksum/celljoin.py`.
-/
import SeamlessCore.Mixed.Addressing
import SeamlessCore.Lib.Assign

namespace SeamlessCore.Celljoin

open Python Mixed Assoc

/-! ## §1. Definitions. -/

/-- `CELLJOIN_CELLTYPES` -/
inductive JoinCelltype where
  | mixed
  | plain
  | deepcell
  | deepfolder
  deriving DecidableEq, Repr

namespace JoinCelltype

/-- `celltype in _DEEP_CELLTYPES` -/
def isDeep : JoinCelltype → Bool
  | .deepcell | .deepfolder => true
  | _ => false

/-- The celltype as `Buffer` gets it -/
def bufferType : JoinCelltype → Codecs.BufferType
  | .mixed => .mixed
  | .plain => .plain
  | .deepcell | .deepfolder => .deep

end JoinCelltype

/-- What the code imports, `Buffer.get_value`, and the item assignment of NumPy records.
`Option` stands for "may raise". -/
structure Joins where
  codecs : Codecs
  /-- `sys.get_int_max_str_digits()` -/
  maxStrDigits : Nat
  sha256 : Bytes → Checksum
  /-- `Buffer(content).get_value(celltype)`; the keys of a dict are distinct. -/
  getValue : Bytes → JoinCelltype → Option { v : Value codecs.Float // v.Distinct }
  /-- `a[key] = v` -/
  setField : NdArray → PyStr → Value codecs.Float → Option NdArray
  /-- `a[key] = v` of a NumPy scalar -/
  setFieldScalar : Generic → PyStr → Value codecs.Float → Option Generic

/-- A key of a mapping: a string, or anything else -/
inductive MappingKey where
  | str (s : PyStr)
  | other (id : Nat)
  deriving DecidableEq

variable (J : Joins)

/-- `Mapping` -/
structure Mapping where
  items : List (MappingKey × Value J.codecs.Float)
  nodup : (keys items).Nodup

/-- What `parse_celljoin` gets -/
inductive Definition where
  | buffer (content : Bytes)
  | bytes (content : Bytes)
  | str (s : PyStr)
  | mapping (m : Mapping J)
  /-- An object of another type -/
  | other

/-- `CellJoinSpec` -/
structure CellJoinSpec where
  checksum : Checksum
  celltype : JoinCelltype
  root : Option Checksum
  numeric : Bool
  members : List (PyStr × Checksum)
  buffer : Bytes
  deriving DecidableEq

def rootKey : PyStr := py "<root>"

def numericKey : PyStr := py "<numeric>"

/-- `_RESERVED_KEYS` -/
def reservedKeys : List PyStr := [rootKey, numericKey]

namespace Joins

/-- `for key in celljoin: if not isinstance(key, str): raise TypeError` -/
def stringItems : List (MappingKey × Value J.codecs.Float) →
    Option (List (PyStr × Value J.codecs.Float))
  | [] => some []
  | (.str k, v) :: items => (stringItems items).map fun es => (k, v) :: es
  | (.other _, _) :: _ => none

/-- `_load_definition` of a buffer -/
def loadBuffer (content : Bytes) : Option (List (PyStr × Value J.codecs.Float) × Option Bytes) :=
  (J.getValue content .plain).bind fun v =>
    match v.1 with
    | .dict items => some (items, some content)
    | _ => none

/-- `_load_definition(definition)`, with the keys checked -/
def loadDefinition : Definition J → Option (List (PyStr × Value J.codecs.Float) × Option Bytes)
  | .buffer content => J.loadBuffer content
  | .bytes content => J.loadBuffer content
  | .str s => (encodeUtf8 s).bind J.loadBuffer
  | .mapping m => (J.stringItems m.items).map fun items => (items, none)
  | .other => none

/-- `celljoin_buffer(celljoin)` -/
def celljoinBuffer (celljoin : List (PyStr × Value J.codecs.Float)) : Option Bytes :=
  J.codecs.newBuffer (.dict celljoin) .plain

end Joins

/-- A lowercase hexadecimal digit -/
def isLowerHex (c : CodePoint) : Bool := isDecDigit c || (97 ≤ c.val && c.val ≤ 102)

section

variable {F : Type}

/-- `_parse_checksum(value, field)` -/
def parseChecksum : Value F → Option Checksum
  | .str s => if s.length = 64 ∧ s.all isLowerHex = true then Checksum.ofStr s else none
  | _ => none

/-- The `<numeric>` marker, which must be null -/
def parseNumeric (celljoin : List (PyStr × Value F)) (celltype : JoinCelltype) : Option Bool :=
  match celljoin.lookup numericKey with
  | none => some false
  | some .none => if celltype.isDeep then none else some true
  | some _ => none

def parseRoot (celljoin : List (PyStr × Value F)) : Option (Option Checksum) :=
  match celljoin.lookup rootKey with
  | none => some none
  | some value => (parseChecksum value).map some

/-- The member of an entry, if it is one; with a `<numeric>` marker, its key is a
canonical integer. -/
def parseMember (numeric : Bool) (e : PyStr × Value F) : Option (List (PyStr × Checksum)) :=
  if e.1 ∈ reservedKeys then some []
  else if numeric && !isDecimal e.1 then none
  else (parseChecksum e.2).map fun c => [(e.1, c)]

def parseMembers (numeric : Bool) : List (PyStr × Value F) → Option (List (PyStr × Checksum))
  | [] => some []
  | e :: items =>
    (parseMember numeric e).bind fun m => (parseMembers numeric items).map fun ms => m ++ ms

/-- The root, the marker and the members of a definition -/
def parseItems (celljoin : List (PyStr × Value F)) (celltype : JoinCelltype) :
    Option (Option Checksum × Bool × List (PyStr × Checksum)) :=
  (parseNumeric celljoin celltype).bind fun numeric =>
    (parseRoot celljoin).bind fun root =>
      (parseMembers numeric celljoin).bind fun members =>
        if numeric && members.isEmpty then none else some (root, numeric, members)

end

namespace Joins

/-- `parse_celljoin(definition, celltype)` -/
def parseCelljoin (definition : Definition J) (celltype : JoinCelltype) : Option CellJoinSpec :=
  (J.loadDefinition definition).bind fun (celljoin, buffer) =>
    (parseItems celljoin celltype).bind fun (root, numeric, members) =>
      (buffer.or (J.celljoinBuffer celljoin)).map fun content =>
        ⟨J.sha256 content, celltype, root, numeric, members, content⟩

end Joins

/-- `celljoin_cache_key(spec.checksum, spec.celltype)` -/
def CellJoinSpec.cacheKey (s : CellJoinSpec) : PyStr × JoinCelltype := (s.checksum.hex, s.celltype)

/-! ## §2. Reordered definitions. -/

section

variable {F : Type}

theorem parseMember_keys {numeric : Bool} {e : PyStr × Value F} {ms : List (PyStr × Checksum)}
    (h : parseMember numeric e = some ms) : ∀ m ∈ ms, m.1 = e.1 := by
  unfold parseMember at h
  intro m hm
  split at h
  · rw [← Option.some.inj h] at hm
    exact absurd hm List.not_mem_nil
  · split at h
    · cases h
    · obtain ⟨c, -, rfl⟩ := Option.map_eq_some_iff.mp h
      rw [List.mem_singleton.mp hm]

/-- Distinct keys give distinct members; with the marker, their keys are canonical. -/
theorem parseMembers_keys {numeric : Bool} {items : List (PyStr × Value F)}
    {ms : List (PyStr × Checksum)} (h : parseMembers numeric items = some ms) :
    ∀ m ∈ ms, m.1 ∈ keys items := by
  induction items generalizing ms with
  | nil =>
    intro m hm
    rw [← Option.some.inj h] at hm
    exact absurd hm List.not_mem_nil
  | cons e items ih =>
    obtain ⟨m₁, hm₁, h⟩ := Option.bind_eq_some_iff.mp h
    obtain ⟨ms', hms', rfl⟩ := Option.map_eq_some_iff.mp h
    intro m hm
    rcases List.mem_append.mp hm with hm | hm
    · rw [parseMember_keys hm₁ m hm]
      exact List.mem_cons_self
    · exact List.mem_cons_of_mem e.1 (ih hms' m hm)

theorem parseMember_nodup {numeric : Bool} {e : PyStr × Value F} {ms : List (PyStr × Checksum)}
    (h : parseMember numeric e = some ms) : (keys ms).Nodup := by
  unfold parseMember at h
  split at h
  · rw [← Option.some.inj h]
    exact List.nodup_nil
  · split at h
    · cases h
    · obtain ⟨c, -, rfl⟩ := Option.map_eq_some_iff.mp h
      exact List.nodup_singleton e.1

theorem parseMembers_nodup {numeric : Bool} {items : List (PyStr × Value F)}
    {ms : List (PyStr × Checksum)} (hitems : (keys items).Nodup)
    (h : parseMembers numeric items = some ms) : (keys ms).Nodup := by
  induction items generalizing ms with
  | nil =>
    rw [← Option.some.inj h]
    exact List.nodup_nil
  | cons e items ih =>
    obtain ⟨hfirst, hrest⟩ := List.nodup_cons.mp hitems
    obtain ⟨m₁, hm₁, h⟩ := Option.bind_eq_some_iff.mp h
    obtain ⟨ms', hms', rfl⟩ := Option.map_eq_some_iff.mp h
    unfold keys
    rw [List.map_append, List.nodup_append]
    refine ⟨parseMember_nodup hm₁, ih hrest hms', ?_⟩
    intro a ha b hb hab
    -- a key that occurs in both parts is the first key twice
    obtain ⟨m, hm, hma⟩ := List.mem_map.mp ha
    obtain ⟨m', hm', hmb⟩ := List.mem_map.mp hb
    have hmem := parseMembers_keys hms' m' hm'
    rw [hmb, ← hab, ← hma, parseMember_keys hm₁ m hm] at hmem
    exact hfirst hmem

theorem parseMembers_numeric {items : List (PyStr × Value F)} {ms : List (PyStr × Checksum)}
    (h : parseMembers true items = some ms) : ∀ m ∈ ms, isDecimal m.1 = true := by
  induction items generalizing ms with
  | nil =>
    intro m hm
    rw [← Option.some.inj h] at hm
    exact absurd hm List.not_mem_nil
  | cons e items ih =>
    obtain ⟨m₁, hm₁, h⟩ := Option.bind_eq_some_iff.mp h
    obtain ⟨ms', hms', rfl⟩ := Option.map_eq_some_iff.mp h
    intro m hm
    rcases List.mem_append.mp hm with hm | hm
    · have hkey := parseMember_keys hm₁ m hm
      unfold parseMember at hm₁
      split at hm₁
      · rw [← Option.some.inj hm₁] at hm
        exact absurd hm List.not_mem_nil
      · split at hm₁
        · cases hm₁
        next hdecimal =>
          rw [hkey]
          simpa using hdecimal
    · exact ih hms' m hm

/-- Reordered definitions have the same root and marker, and reordered members. -/
theorem parseItems_perm {items items' : List (PyStr × Value F)} (hitems : (keys items).Nodup)
    (hperm : items.Perm items') {t : JoinCelltype} {root : Option Checksum} {numeric : Bool}
    {members : List (PyStr × Checksum)}
    (h : parseItems items t = some (root, numeric, members)) :
    ∃ members', parseItems items' t = some (root, numeric, members') ∧
      members.Perm members' := by
  obtain ⟨n, hn, h⟩ := Option.bind_eq_some_iff.mp h
  obtain ⟨r, hr, h⟩ := Option.bind_eq_some_iff.mp h
  obtain ⟨ms, hms, h⟩ := Option.bind_eq_some_iff.mp h
  split at h
  · cases h
  next hempty =>
    obtain ⟨rfl, hrest⟩ := Prod.mk.inj (Option.some.inj h)
    obtain ⟨rfl, rfl⟩ := Prod.mk.inj hrest
    obtain ⟨ms', hms', hmsperm⟩ :=
      perm_of_collect (parseMember (F := F) n) (fun _ _ => rfl) hperm hms
    refine ⟨ms', ?_, hmsperm⟩
    have hlookup := lookup_perm hitems hperm
    unfold parseItems parseNumeric parseRoot
    rw [← hlookup, ← hlookup]
    unfold parseNumeric at hn
    unfold parseRoot at hr
    rw [hn, Option.bind_some, hr, Option.bind_some, hms', Option.bind_some]
    have hempty' : ms'.isEmpty = ms.isEmpty := by
      rw [Bool.eq_iff_iff, List.isEmpty_iff, List.isEmpty_iff]
      constructor
      · rintro rfl
        exact hmsperm.eq_nil
      · rintro rfl
        exact hmsperm.symm.eq_nil
    rw [hempty', if_neg hempty]

theorem parseChecksum_str {v : Value F} {c : Checksum} (h : parseChecksum v = some c) :
    ∃ s, v = .str s := by
  cases v with
  | str s => exact ⟨s, rfl⟩
  | _ => cases h

/-- The value of a member is a checksum. -/
theorem parseMembers_values {numeric : Bool} {items : List (PyStr × Value F)}
    {ms : List (PyStr × Checksum)} (h : parseMembers numeric items = some ms) :
    ∀ e ∈ items, e.1 ∉ reservedKeys → ∃ s, e.2 = .str s := by
  induction items generalizing ms with
  | nil => exact fun e he => absurd he List.not_mem_nil
  | cons f items ih =>
    obtain ⟨m, hm, h⟩ := Option.bind_eq_some_iff.mp h
    obtain ⟨ms', hms', -⟩ := Option.map_eq_some_iff.mp h
    intro e he hnot
    rcases List.mem_cons.mp he with rfl | he
    · unfold parseMember at hm
      rw [if_neg hnot] at hm
      split at hm
      · cases hm
      · obtain ⟨c, hc, -⟩ := Option.map_eq_some_iff.mp hm
        exact parseChecksum_str hc
    · exact ih hms' e he hnot

/-- A definition that parses has strings and null as its values. -/
theorem parseItems_values {items : List (PyStr × Value F)} (hitems : (keys items).Nodup)
    {t : JoinCelltype} {spec : Option Checksum × Bool × List (PyStr × Checksum)}
    (h : parseItems items t = some spec) : ∀ e ∈ items, e.2 = .none ∨ ∃ s, e.2 = .str s := by
  obtain ⟨n, hn, h⟩ := Option.bind_eq_some_iff.mp h
  obtain ⟨r, hr, h⟩ := Option.bind_eq_some_iff.mp h
  obtain ⟨ms, hms, -⟩ := Option.bind_eq_some_iff.mp h
  intro e he
  have hlookup : items.lookup e.1 = some e.2 := lookup_of_mem hitems he
  by_cases hroot : e.1 = rootKey
  · unfold parseRoot at hr
    rw [← hroot, hlookup] at hr
    obtain ⟨c, hc, -⟩ := Option.map_eq_some_iff.mp hr
    exact .inr (parseChecksum_str hc)
  · by_cases hnumeric : e.1 = numericKey
    · unfold parseNumeric at hn
      rw [← hnumeric, hlookup] at hn
      cases hv : e.2 with
      | none => exact .inl rfl
      | _ => rw [hv] at hn; cases hn
    · have hnot : e.1 ∉ reservedKeys := by
        intro hmem
        rcases List.mem_cons.mp hmem with h | hmem
        · exact hroot h
        · exact hnumeric (List.mem_singleton.mp hmem)
      exact .inr (parseMembers_values hms e he hnot)

end

/-! ## §3. The canonical buffer. -/

/-- The values of a flat definition stay. -/
theorem mapValues_flat {F : Type} {f : Value F → Value F} {items : List (PyStr × Value F)}
    (hnone : f .none = .none) (hstr : ∀ s, f (.str s) = .str s)
    (h : ∀ e ∈ items, e.2 = .none ∨ ∃ s, e.2 = .str s) : mapValues f items = items := by
  unfold mapValues
  conv_rhs => rw [← List.map_id items]
  apply List.map_congr_left
  intro e he
  refine Prod.ext rfl ?_
  show f e.2 = e.2
  rcases h e he with hv | ⟨s, hv⟩
  · rw [hv, hnone]
  · rw [hv, hstr]

theorem checkFiniteDict_flat {L : Codecs} {items : List (PyStr × Value L.Float)}
    (h : ∀ e ∈ items, e.2 = .none ∨ ∃ s, e.2 = .str s) : L.checkFiniteDict items = true := by
  rw [Codecs.checkFiniteDict_eq, List.all_map, List.all_eq_true]
  intro e he
  show L.checkFinite e.2 = true
  rcases h e he with hv | ⟨s, hv⟩
  · rw [hv]
    rfl
  · rw [hv]
    rfl

/-- The encoder gets a flat definition with the keys in order. -/
theorem celljoinBuffer_flat {J : Joins} {items : List (PyStr × Value J.codecs.Float)}
    (h : ∀ e ∈ items, e.2 = .none ∨ ∃ s, e.2 = .str s) :
    J.celljoinBuffer items =
      ((Value.dict (sortByKey items)).toJson.bind J.codecs.orjsonDumps).map (· ++ ascii "\n") := by
  have hvalue : Mixed.unchecksum (Value.dict items) = .dict items := by
    show Value.dict (Mixed.unchecksumDict items) = _
    rw [unchecksumDict_eq, mapValues_flat rfl (fun _ => rfl) h]
  have hsorted : (Value.dict items).sorted = .dict (sortByKey items) := by
    show Value.dict (sortByKey (sortedItems items)) = _
    rw [sortedItems_eq, mapValues_flat rfl (fun _ => rfl) h]
  have hfinite : J.codecs.checkFinite (Value.dict items) = true := checkFiniteDict_flat h
  show (if J.codecs.checkFinite (Mixed.unchecksum (Value.dict items)) then
    (((Mixed.unchecksum (Value.dict items)).sorted.toJson).bind J.codecs.orjsonDumps).map
      (· ++ ascii "\n") else none) = _
  rw [hvalue, if_pos hfinite, hsorted]

/-! ## §4. The identity. -/

namespace Joins

variable {J}

/-- The canonical buffer of a flat definition reads back, with the keys sorted. -/
def ReadsDefinitions (J : Joins) : Prop :=
  ∀ (items : List (PyStr × Value J.codecs.Float)) (b : Bytes), (keys items).Nodup →
    (∀ e ∈ items, e.2 = .none ∨ ∃ s, e.2 = .str s) → J.celljoinBuffer items = some b →
    ∃ v, J.getValue b .plain = some v ∧ v.1 = .dict (sortByKey items)

theorem stringItems_keys {items : List (MappingKey × Value J.codecs.Float)}
    {es : List (PyStr × Value J.codecs.Float)} (h : J.stringItems items = some es) :
    keys items = (keys es).map MappingKey.str := by
  induction items generalizing es with
  | nil =>
    rw [← Option.some.inj h]
    rfl
  | cons e items ih =>
    obtain ⟨k, v⟩ := e
    cases k with
    | str k =>
      obtain ⟨es', hes', rfl⟩ := Option.map_eq_some_iff.mp h
      show MappingKey.str k :: keys items = MappingKey.str k :: (keys es').map MappingKey.str
      rw [ih hes']
    | other _ => cases h

theorem loadBuffer_eq {content : Bytes} {items : List (PyStr × Value J.codecs.Float)}
    {buffer : Option Bytes} (h : J.loadBuffer content = some (items, buffer)) :
    buffer = some content ∧ ∃ v, J.getValue content .plain = some v ∧ v.1 = .dict items := by
  obtain ⟨v, hv, h⟩ := Option.bind_eq_some_iff.mp h
  split at h
  next items' hitems =>
    obtain ⟨rfl, rfl⟩ := Prod.mk.inj (Option.some.inj h)
    exact ⟨rfl, v, hv, hitems⟩
  · cases h

/-- What a definition is parsed from: the entries that its buffer holds, or those of a
mapping. -/
theorem loadDefinition_eq {definition : Definition J}
    {items : List (PyStr × Value J.codecs.Float)} {buffer : Option Bytes}
    (h : J.loadDefinition definition = some (items, buffer)) :
    (keys items).Nodup ∧ (buffer = none ∨ ∃ content, buffer = some content ∧
      ∃ v, J.getValue content .plain = some v ∧ v.1 = .dict items) := by
  have hbuffer : ∀ content, J.loadBuffer content = some (items, buffer) →
      (keys items).Nodup ∧ (buffer = none ∨ ∃ content, buffer = some content ∧
        ∃ v, J.getValue content .plain = some v ∧ v.1 = .dict items) := by
    intro content hload
    obtain ⟨hcontent, v, hv, hitems⟩ := loadBuffer_eq hload
    have hdistinct := v.2
    rw [hitems] at hdistinct
    exact ⟨((distinct_dict_iff items).mp hdistinct).1, .inr ⟨content, hcontent, v, hv, hitems⟩⟩
  cases definition with
  | buffer content => exact hbuffer content h
  | bytes content => exact hbuffer content h
  | str s =>
    obtain ⟨content, -, hload⟩ := Option.bind_eq_some_iff.mp h
    exact hbuffer content hload
  | mapping m =>
    obtain ⟨es, hes, heq⟩ := Option.map_eq_some_iff.mp h
    obtain ⟨rfl, rfl⟩ := Prod.mk.inj heq
    refine ⟨?_, .inl rfl⟩
    have hnodup := m.nodup
    rw [stringItems_keys hes] at hnodup
    exact hnodup.of_map MappingKey.str
  | other => cases h

/-- The buffer of a spec holds the entries that it was parsed from, up to their order. -/
theorem parseCelljoin_eq (hread : J.ReadsDefinitions) {definition : Definition J}
    {t : JoinCelltype} {s : CellJoinSpec} (h : J.parseCelljoin definition t = some s) :
    s.celltype = t ∧ s.checksum = J.sha256 s.buffer ∧
      ∃ items, (keys items).Nodup ∧ parseItems items t = some (s.root, s.numeric, s.members) ∧
        ∃ v items', J.getValue s.buffer .plain = some v ∧ v.1 = .dict items' ∧
          items.Perm items' := by
  obtain ⟨⟨items, buffer⟩, hload, h⟩ := Option.bind_eq_some_iff.mp h
  obtain ⟨⟨root, numeric, members⟩, hparse, h⟩ := Option.bind_eq_some_iff.mp h
  obtain ⟨content, hcontent, rfl⟩ := Option.map_eq_some_iff.mp h
  obtain ⟨hnodup, hbuffer⟩ := loadDefinition_eq hload
  refine ⟨rfl, rfl, items, hnodup, hparse, ?_⟩
  rcases hbuffer with rfl | ⟨content', rfl, v, hv, hitems⟩
  · obtain ⟨v, hv, hitems⟩ :=
      hread items content hnodup (parseItems_values hnodup hparse) hcontent
    exact ⟨v, _, hv, hitems, (sortByKey_perm items).symm⟩
  · rw [← Option.some.inj hcontent]
    exact ⟨v, items, hv, hitems, List.Perm.refl _⟩

/-- Specs of one identity differ in the order of their members only. -/
theorem parse_identity (hread : J.ReadsDefinitions) {d d' : Definition J} {t t' : JoinCelltype}
    {s s' : CellJoinSpec} (hs : J.parseCelljoin d t = some s)
    (hs' : J.parseCelljoin d' t' = some s') (hbuffer : s.buffer = s'.buffer)
    (ht : s.celltype = s'.celltype) :
    s.root = s'.root ∧ s.numeric = s'.numeric ∧ s.members.Perm s'.members := by
  obtain ⟨rfl, -, items, hnodup, hitems, v, kept, hv, hkept, hperm⟩ := parseCelljoin_eq hread hs
  obtain ⟨rfl, -, items', -, hitems', v', kept', hv', hkept', hperm'⟩ := parseCelljoin_eq hread hs'
  rw [← hbuffer, hv] at hv'
  rw [← Option.some.inj hv', hkept] at hkept'
  have heq : kept = kept' := Value.dict.inj hkept'
  have hboth : items.Perm items' := hperm.trans (heq ▸ hperm'.symm)
  obtain ⟨members, hmembers, hmsperm⟩ := parseItems_perm hnodup hboth hitems
  rw [ht, hitems'] at hmembers
  obtain ⟨hroot, hrest⟩ := Prod.mk.inj (Option.some.inj hmembers)
  obtain ⟨hnumeric, hmem⟩ := Prod.mk.inj hrest
  rw [hroot, hnumeric, hmem]
  exact ⟨rfl, rfl, hmsperm⟩

/-- The members of a spec have distinct keys, which are canonical integers with the marker. -/
theorem parseCelljoin_members (hread : J.ReadsDefinitions) {d : Definition J} {t : JoinCelltype}
    {s : CellJoinSpec} (hs : J.parseCelljoin d t = some s) :
    (keys s.members).Nodup ∧ (s.numeric = true → ∀ m ∈ s.members, isDecimal m.1 = true) := by
  obtain ⟨-, -, items, hnodup, hitems, -⟩ := parseCelljoin_eq hread hs
  obtain ⟨n, -, h⟩ := Option.bind_eq_some_iff.mp hitems
  obtain ⟨r, -, h⟩ := Option.bind_eq_some_iff.mp h
  obtain ⟨ms, hms, h⟩ := Option.bind_eq_some_iff.mp h
  split at h
  · cases h
  · obtain ⟨-, hrest⟩ := Prod.mk.inj (Option.some.inj h)
    obtain ⟨hnumeric, hmembers⟩ := Prod.mk.inj hrest
    rw [← hmembers, ← hnumeric]
    refine ⟨parseMembers_nodup hnodup hms, ?_⟩
    intro hn
    rw [hn] at hms
    exact parseMembers_numeric hms

end Joins

end SeamlessCore.Celljoin
