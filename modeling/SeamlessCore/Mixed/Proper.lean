/-
  SeamlessCore.Mixed.Proper — values that can be read back.

  JSON text loses the keys of a dict that come twice, and two surrogates that
  stand side by side.  Without these a value is read back as it was, but for
  tuples, which are read as lists, and for arrays without dimensions, which are
  read as scalars.

  Main definitions:
    * `Json.Proper`, `Codecs.Proper` — no such keys or strings;
    * `Codecs.readBack` — the value as it is read.
  Main results:
    * `toJson_proper`, `ofJson_toJson` — the JSON data of a value.

  Source: `seamless/util/mixed/io/to_stream.py`, `from_stream.py`.
-/
import SeamlessCore.Mixed.Canonical
import SeamlessCore.Mixed.Pieces

namespace SeamlessCore.Mixed

open Python

variable {F : Type}

/-! ## §1. Proper data. -/

mutual

/-- Strings can be encoded, and the keys of every dict are distinct. -/
def Json.Proper : Json F → Prop
  | .str s => Encodable s
  | .list items => jsonsProper items
  | .dict items => (Assoc.keys items).Nodup ∧ entriesProper items
  | _ => True

def jsonsProper : List (Json F) → Prop
  | [] => True
  | j :: js => j.Proper ∧ jsonsProper js

def entriesProper : List (PyStr × Json F) → Prop
  | [] => True
  | (k, j) :: items => Encodable k ∧ j.Proper ∧ entriesProper items

end

theorem jsonsProper_iff (js : List (Json F)) : jsonsProper js ↔ ∀ j ∈ js, j.Proper := by
  induction js with
  | nil => exact iff_of_true trivial fun _ h => absurd h List.not_mem_nil
  | cons j js ih =>
    show j.Proper ∧ jsonsProper js ↔ _
    rw [ih, List.forall_mem_cons]

theorem entriesProper_iff (items : List (PyStr × Json F)) :
    entriesProper items ↔ ∀ e ∈ items, Encodable e.1 ∧ e.2.Proper := by
  induction items with
  | nil => exact iff_of_true trivial fun _ h => absurd h List.not_mem_nil
  | cons e items ih =>
    show Encodable e.1 ∧ e.2.Proper ∧ entriesProper items ↔ _
    rw [ih, List.forall_mem_cons, and_assoc]

namespace Codecs

variable (L : Codecs)

mutual

/-- The same of a value, whose element types NumPy can spell -/
def Proper : Value L.Float → Prop
  | .str s => Encodable s
  | .bytes b => (L.npBytes b).dtype.Known
  | .complex re im => (L.npComplex re im).dtype.Known
  | .array a => a.dtype.Known
  | .generic g => g.dtype.Known
  | .list items => ProperList items
  | .tuple items => ProperList items
  | .dict items => (Assoc.keys items).Nodup ∧ ProperItems items
  | _ => True

def ProperList : List (Value L.Float) → Prop
  | [] => True
  | v :: vs => Proper v ∧ ProperList vs

def ProperItems : List (PyStr × Value L.Float) → Prop
  | [] => True
  | (k, v) :: items => Encodable k ∧ Proper v ∧ ProperItems items

end

mutual

/-- The value as it is read: tuples as lists, arrays without dimensions as scalars, and
NumPy's scalar strings without the NULs at their end -/
def readBack : Value L.Float → Value L.Float
  | .bytes b => (L.npBytes b).readBack
  | .array a => a.readBack
  | .generic g => .generic g.readBack
  | .list items => .list (readBackList items)
  | .tuple items => .list (readBackList items)
  | .dict items => .dict (readBackItems items)
  | v => v

def readBackList : List (Value L.Float) → List (Value L.Float)
  | [] => []
  | v :: vs => readBack v :: readBackList vs

def readBackItems : List (PyStr × Value L.Float) → List (PyStr × Value L.Float)
  | [] => []
  | (k, v) :: items => (k, readBack v) :: readBackItems items

end

variable {L}

theorem properList_iff (items : List (Value L.Float)) :
    L.ProperList items ↔ ∀ v ∈ items, L.Proper v := by
  induction items with
  | nil => exact iff_of_true trivial fun _ h => absurd h List.not_mem_nil
  | cons v vs ih =>
    show L.Proper v ∧ L.ProperList vs ↔ _
    rw [ih, List.forall_mem_cons]

theorem properItems_iff (items : List (PyStr × Value L.Float)) :
    L.ProperItems items ↔ ∀ e ∈ items, Encodable e.1 ∧ L.Proper e.2 := by
  induction items with
  | nil => exact iff_of_true trivial fun _ h => absurd h List.not_mem_nil
  | cons e items ih =>
    show Encodable e.1 ∧ L.Proper e.2 ∧ L.ProperItems items ↔ _
    rw [ih, List.forall_mem_cons, and_assoc]

theorem readBackItems_eq (items : List (PyStr × Value L.Float)) :
    L.readBackItems items = Assoc.mapValues L.readBack items := by
  induction items with
  | nil => rfl
  | cons e items ih =>
    show (e.1, L.readBack e.2) :: L.readBackItems items = _
    rw [ih]
    rfl

/-! ## §2. JSON data. -/

theorem keys_toJsonItems {items : List (PyStr × Value F)} {js : List (PyStr × Json F)}
    (h : toJsonItems items = some js) : Assoc.keys js = Assoc.keys items := by
  induction items generalizing js with
  | nil =>
    obtain rfl := Option.some.inj h
    rfl
  | cons e items ih =>
    -- every entry gives one entry under the same key
    obtain ⟨j, -, hrest⟩ := Option.bind_eq_some_iff.mp h
    obtain ⟨js', hjs, rfl⟩ := Option.map_eq_some_iff.mp hrest
    exact congrArg (e.1 :: ·) (ih hjs)

theorem toJsonList_proper {items : List (Value L.Float)} {js : List (Json L.Float)}
    (ih : ∀ v ∈ items, ∀ j, L.Proper v → v.toJson = some j → j.Proper)
    (hv : ∀ v ∈ items, L.Proper v) (h : toJsonList items = some js) : jsonsProper js := by
  induction items generalizing js with
  | nil =>
    obtain rfl := Option.some.inj h
    trivial
  | cons v vs ihs =>
    obtain ⟨j, hj, hrest⟩ := Option.bind_eq_some_iff.mp h
    obtain ⟨js', hjs, rfl⟩ := Option.map_eq_some_iff.mp hrest
    obtain ⟨ihv, ihvs⟩ := List.forall_mem_cons.mp ih
    obtain ⟨hfirst, hvs⟩ := List.forall_mem_cons.mp hv
    exact ⟨ihv j hfirst hj, ihs ihvs hvs hjs⟩

theorem toJsonItems_proper {items : List (PyStr × Value L.Float)} {js : List (PyStr × Json L.Float)}
    (ih : ∀ e ∈ items, ∀ j, L.Proper e.2 → e.2.toJson = some j → j.Proper)
    (hv : ∀ e ∈ items, Encodable e.1 ∧ L.Proper e.2) (h : toJsonItems items = some js) :
    entriesProper js := by
  induction items generalizing js with
  | nil =>
    obtain rfl := Option.some.inj h
    trivial
  | cons e items ihs =>
    obtain ⟨j, hj, hrest⟩ := Option.bind_eq_some_iff.mp h
    obtain ⟨js', hjs, rfl⟩ := Option.map_eq_some_iff.mp hrest
    obtain ⟨ihe, ihitems⟩ := List.forall_mem_cons.mp ih
    obtain ⟨⟨hkey, hfirst⟩, hitems⟩ := List.forall_mem_cons.mp hv
    exact ⟨hkey, ihe j hfirst hj, ihs ihitems hitems hjs⟩

/-- The JSON data of a proper value is proper. -/
theorem toJson_proper (v : Value L.Float) : ∀ j, L.Proper v → v.toJson = some j → j.Proper := by
  induction v using Value.induction with
  | leaf v hv =>
    intro j hproper h
    cases v with
    | list items => exact hv.elim
    | tuple items => exact hv.elim
    | dict items => exact hv.elim
    | str s =>
      obtain rfl := Option.some.inj h
      exact hproper
    | _ =>
      cases h
      all_goals trivial
  | list items ih =>
    intro j hproper h
    obtain ⟨js, hjs, rfl⟩ := Option.map_eq_some_iff.mp h
    exact toJsonList_proper ih ((properList_iff items).mp hproper) hjs
  | tuple items ih =>
    intro j hproper h
    obtain ⟨js, hjs, rfl⟩ := Option.map_eq_some_iff.mp h
    exact toJsonList_proper ih ((properList_iff items).mp hproper) hjs
  | dict items ih =>
    intro j hproper h
    obtain ⟨js, hjs, rfl⟩ := Option.map_eq_some_iff.mp h
    refine ⟨?_, toJsonItems_proper ih ((properItems_iff items).mp hproper.2) hjs⟩
    -- the keys of the data are those of the value
    rw [keys_toJsonItems hjs]
    exact hproper.1

/-- JSON data is read back. -/
theorem ofJson_toJson (v : Value L.Float) : ∀ j, v.toJson = some j → .ofJson j = L.readBack v := by
  -- tuples come back as lists, so one lemma serves both
  have hlist : ∀ items : List (Value L.Float),
      (∀ v ∈ items, ∀ j, v.toJson = some j → .ofJson j = L.readBack v) →
      ∀ js, toJsonList items = some js → ofJsonList js = L.readBackList items := by
    intro items
    induction items with
    | nil =>
      intro _ js h
      obtain rfl := Option.some.inj h
      rfl
    | cons v vs ihs =>
      intro ih js h
      obtain ⟨j, hj, hrest⟩ := Option.bind_eq_some_iff.mp h
      obtain ⟨js', hjs, rfl⟩ := Option.map_eq_some_iff.mp hrest
      obtain ⟨ihv, ihvs⟩ := List.forall_mem_cons.mp ih
      show Value.ofJson j :: ofJsonList js' = _
      rw [ihv j hj, ihs ihvs js' hjs]
      rfl
  have hitems : ∀ items : List (PyStr × Value L.Float),
      (∀ e ∈ items, ∀ j, e.2.toJson = some j → .ofJson j = L.readBack e.2) →
      ∀ js, toJsonItems items = some js → ofJsonItems js = L.readBackItems items := by
    intro items
    induction items with
    | nil =>
      intro _ js h
      obtain rfl := Option.some.inj h
      rfl
    | cons e items ihs =>
      intro ih js h
      obtain ⟨j, hj, hrest⟩ := Option.bind_eq_some_iff.mp h
      obtain ⟨js', hjs, rfl⟩ := Option.map_eq_some_iff.mp hrest
      obtain ⟨ihe, ihitems⟩ := List.forall_mem_cons.mp ih
      show (e.1, Value.ofJson j) :: ofJsonItems js' = _
      rw [ihe j hj, ihs ihitems js' hjs]
      rfl
  induction v using Value.induction with
  | leaf v hv =>
    intro j h
    cases v with
    | list items => exact hv.elim
    | tuple items => exact hv.elim
    | dict items => exact hv.elim
    | _ =>
      cases h
      all_goals rfl
  | list items ih =>
    intro j h
    obtain ⟨js, hjs, rfl⟩ := Option.map_eq_some_iff.mp h
    exact congrArg Value.list (hlist items ih js hjs)
  | tuple items ih =>
    intro j h
    obtain ⟨js, hjs, rfl⟩ := Option.map_eq_some_iff.mp h
    exact congrArg Value.list (hlist items ih js hjs)
  | dict items ih =>
    intro j h
    obtain ⟨js, hjs, rfl⟩ := Option.map_eq_some_iff.mp h
    exact congrArg Value.dict (hitems items ih js hjs)

end Codecs

end SeamlessCore.Mixed
