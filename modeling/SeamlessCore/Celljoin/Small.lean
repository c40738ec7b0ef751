/-
  SeamlessCore.Celljoin.Small — a small instance of what celljoins import.

  Buffers hold JSON scalars and flat dicts of them, or an array of bytes; the
  digest of a buffer is its content read as a number, up to 32 bytes.

  Main result:
    * `small_readsDefinitions` — canonical definitions read back.
-/
import SeamlessCore.Celljoin.Parse

namespace SeamlessCore.Celljoin.Small

open Python Mixed Mixed.Small Assoc

/-! ## §1. The instance. -/

/-- A JSON scalar as a value -/
def scalar : Json Empty → Value Empty
  | .null => .none
  | .bool b => .bool b
  | .int n => .int n
  | .str s => .str s
  | _ => .object

theorem scalar_distinct (j : Json Empty) : (scalar j).Distinct := by
  cases j <;> trivial

theorem scalars_distinct {items : List (PyStr × Json Empty)} (h : (keys items).Nodup) :
    (Value.dict (mapValues scalar items)).Distinct := by
  refine (distinct_dict_iff _).mpr ⟨by rw [keys_mapValues]; exact h, ?_⟩
  intro e he
  obtain ⟨f, -, rfl⟩ := List.mem_map.mp he
  exact scalar_distinct f.2

/-- JSON data as a value -/
def ofJson : Json Empty → Option { v : Value Empty // v.Distinct }
  | .dict items =>
    if h : (keys items).Nodup then some ⟨.dict (mapValues scalar items), scalars_distinct h⟩
    else none
  | j => some ⟨scalar j, scalar_distinct j⟩

/-- An array of bytes, as the small instance saves it -/
def byteArray (data : Bytes) : NdArray :=
  ⟨.integer 1 true, true, [data.length], none, data, by simp [DType.itemsize]⟩

def getValue (content : Bytes) (t : JoinCelltype) : Option { v : Value Empty // v.Distinct } :=
  if t = .mixed ∧ startsWith content magicNumpy = true then
    some ⟨.array (byteArray (content.drop magicNumpy.length)), trivial⟩
  else (loads content).bind ofJson

/-- The content as a number, in 32 bytes -/
def digest (content : Bytes) : Checksum :=
  ⟨leBytes 32 (content.foldl (fun n b => 257 * n + b.toNat + 1) 0), length_leBytes 32 _⟩

def joins : Joins where
  codecs := Mixed.Small.small
  maxStrDigits := 4300
  sha256 := digest
  getValue := getValue
  setField _ _ _ := none
  setFieldScalar _ _ _ := none

/-! ## §2. Canonical definitions read back. -/

/-- A string or null as JSON data -/
def flatJson : Value Empty → Json Empty
  | .str s => .str s
  | _ => .null

/-- The values of a definition -/
def Flat (items : List (PyStr × Value Empty)) : Prop := ∀ e ∈ items, e.2 = .none ∨ ∃ s, e.2 = .str s

theorem toJsonItems_flat {items : List (PyStr × Value Empty)} (h : Flat items) :
    toJsonItems items = some (mapValues flatJson items) := by
  induction items with
  | nil => rfl
  | cons e items ih =>
    have hrest := ih fun f hf => h f (List.mem_cons_of_mem e hf)
    obtain ⟨k, v⟩ := e
    show (v.toJson.bind fun j => (toJsonItems items).map fun js => (k, j) :: js) = _
    rcases h (k, v) List.mem_cons_self with rfl | ⟨s, rfl⟩
    · rw [hrest]
      rfl
    · rw [hrest]
      rfl

theorem flat_sortByKey {items : List (PyStr × Value Empty)} (h : Flat items) :
    Flat (sortByKey items) := fun e he => h e ((sortByKey_perm items).mem_iff.mp he)

theorem toJson_flat {items : List (PyStr × Value Empty)} (h : Flat items) :
    (Value.dict (sortByKey items)).toJson = some (.dict (mapValues flatJson (sortByKey items))) := by
  show (toJsonItems (sortByKey items)).map Json.dict = _
  rw [toJsonItems_flat (flat_sortByKey h)]
  rfl

/-- The buffer of a flat definition -/
theorem small_celljoinBuffer {items : List (PyStr × Value Empty)} (h : Flat items) :
    joins.celljoinBuffer items =
      some (write (.dict (mapValues flatJson (sortByKey items))) ++ ascii "\n") := by
  refine (celljoinBuffer_flat (J := joins) h).trans ?_
  have hjson := toJson_flat h
  show (((Value.dict (sortByKey items)).toJson.bind fun j => some (write j)).map
    fun b => b ++ ascii "\n") = _
  rw [hjson]
  rfl

theorem scalar_flatJson {items : List (PyStr × Value Empty)} (h : Flat items) :
    mapValues scalar (mapValues flatJson items) = items := by
  have hcomp : mapValues scalar (mapValues flatJson items) =
      mapValues (fun v => scalar (flatJson v)) items := by
    unfold mapValues
    rw [List.map_map]
    rfl
  rw [hcomp]
  exact mapValues_flat rfl (fun _ => rfl) h

theorem small_readsDefinitions : joins.ReadsDefinitions := by
  intro items b hnodup hflat hb
  have hkeys : (keys (mapValues flatJson (sortByKey items))).Nodup := by
    rw [keys_mapValues]
    exact nodup_keys_sortByKey.mpr hnodup
  have hloads : loads b = some (.dict (mapValues flatJson (sortByKey items))) := by
    rw [small_celljoinBuffer hflat] at hb
    rw [← Option.some.inj hb]
    exact loads_append _ (fun c hc => by rw [← Option.some.inj hc]; rfl)
  refine ⟨⟨_, scalars_distinct hkeys⟩, ?_, ?_⟩
  · show getValue b .plain = _
    unfold getValue
    rw [if_neg (fun h => by cases h.1), hloads]
    exact dif_pos hkeys
  · exact congrArg Value.dict (scalar_flatJson (flat_sortByKey hflat))

end SeamlessCore.Celljoin.Small
