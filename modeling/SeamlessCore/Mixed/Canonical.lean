/-
  SeamlessCore.Mixed.Canonical — which buffers depend on the order of keys.

  Values that are equal up to the order of their dict keys have one buffer when
  they are written with sorted keys, and when they are single pieces of NumPy
  data.  A value with NumPy data inside a list or dict is written with its
  description and its JSON part in the order of insertion.

  Main results:
    * `Value.induction` — the induction over nested values;
    * `storage_sorted` — the storage does not depend on the order;
    * `toStream_outline` — the JSON part has the keys of the value, in order;
    * `eq_of_outline` — values that are equal up to order, with their keys in
      the same order, are equal;
    * `serializeMixed_sorted` — where no part is NumPy data inside JSON data, the
      order of the keys does not matter;
    * `outline_of_mixedSerialize` — where one is, the buffer holds the order.
-/
import SeamlessCore.Mixed.Stream

namespace SeamlessCore.Mixed

open Python Assoc

section

variable {F : Type}

/-! ## §1. Nested values. -/

/-- Neither a list nor a dict -/
def Value.IsLeaf : Value F → Prop
  | .list _ => False
  | .tuple _ => False
  | .dict _ => False
  | _ => True

/-- Induction over nested values -/
theorem Value.induction {motive : Value F → Prop} (leaf : ∀ v, v.IsLeaf → motive v)
    (list : ∀ items, (∀ v ∈ items, motive v) → motive (.list items))
    (tuple : ∀ items, (∀ v ∈ items, motive v) → motive (.tuple items))
    (dict : ∀ items, (∀ e ∈ items, motive e.2) → motive (.dict items)) (v : Value F) :
    motive v := by
  refine @Value.rec F motive (fun items => ∀ v ∈ items, motive v)
    (fun items => ∀ e ∈ items, motive e.2) (fun e => motive e.2)
    (leaf _ trivial) (fun _ => leaf _ trivial) (fun _ => leaf _ trivial)
    (fun _ => leaf _ trivial) (fun _ => leaf _ trivial) (fun _ => leaf _ trivial)
    (fun _ _ => leaf _ trivial) (fun _ => leaf _ trivial) (fun _ => leaf _ trivial)
    (fun _ => leaf _ trivial) list tuple dict (leaf _ trivial) ?_ ?_ ?_ ?_ ?_ v
  · intro v hv
    exact absurd hv List.not_mem_nil
  · intro v items hv hitems w hw
    rcases List.mem_cons.mp hw with h | h
    · rw [h]
      exact hv
    · exact hitems w h
  · intro e he
    exact absurd he List.not_mem_nil
  · intro e items he hitems d hd
    rcases List.mem_cons.mp hd with h | h
    · rw [h]
      exact he
    · exact hitems d h
  · intro _ _ h
    exact h

theorem sortedList_eq (items : List (Value F)) : sortedList items = items.map Value.sorted := by
  induction items with
  | nil => rfl
  | cons v items ih =>
    show v.sorted :: sortedList items = _
    rw [ih]
    rfl

theorem sortedItems_eq (items : List (PyStr × Value F)) :
    sortedItems items = mapValues Value.sorted items := by
  induction items with
  | nil => rfl
  | cons e items ih =>
    show (e.1, e.2.sorted) :: sortedItems items = _
    rw [ih]
    rfl

theorem unchecksumList_eq (items : List (Value F)) :
    unchecksumList items = items.map unchecksum := by
  induction items with
  | nil => rfl
  | cons v items ih =>
    show unchecksum v :: unchecksumList items = _
    rw [ih]
    rfl

theorem unchecksumDict_eq (items : List (PyStr × Value F)) :
    unchecksumDict items = mapValues unchecksum items := by
  induction items with
  | nil => rfl
  | cons e items ih =>
    show (e.1, unchecksum e.2) :: unchecksumDict items = _
    rw [ih]
    rfl

/-- A function of values that works item by item commutes with sorting. -/
theorem sorted_dict (f : Value F → Value F) {items : List (PyStr × Value F)}
    (ih : ∀ e ∈ items, (f e.2).sorted = f e.2.sorted) :
    sortByKey (sortedItems (mapValues f items)) = mapValues f (sortByKey (sortedItems items)) := by
  rw [map_sortByKey, sortedItems_eq, sortedItems_eq]
  congr 1
  unfold mapValues
  rw [List.map_map, List.map_map]
  apply List.map_congr_left
  intro e he
  exact congrArg (Prod.mk e.1) (ih e he)

theorem sorted_list (f : Value F → Value F) {items : List (Value F)}
    (ih : ∀ v ∈ items, (f v).sorted = f v.sorted) :
    sortedList (items.map f) = (sortedList items).map f := by
  rw [sortedList_eq, sortedList_eq, List.map_map, List.map_map]
  apply List.map_congr_left
  intro v hv
  exact ih v hv

theorem unchecksum_sorted (v : Value F) : (unchecksum v).sorted = unchecksum v.sorted := by
  induction v using Value.induction with
  | leaf v h =>
    cases v with
    | list _ => exact h.elim
    | tuple _ => exact h.elim
    | dict _ => exact h.elim
    | _ => rfl
  | list items ih =>
    show Value.list (sortedList (unchecksumList items)) = .list (unchecksumList (sortedList items))
    rw [unchecksumList_eq, unchecksumList_eq, sorted_list unchecksum ih]
  | tuple items ih =>
    show Value.list (sortedList (unchecksumList items)) = .list (unchecksumList (sortedList items))
    rw [unchecksumList_eq, unchecksumList_eq, sorted_list unchecksum ih]
  | dict items ih =>
    show Value.dict (sortByKey (sortedItems (unchecksumDict items))) =
      .dict (unchecksumDict (sortByKey (sortedItems items)))
    rw [unchecksumDict_eq, unchecksumDict_eq, sorted_dict unchecksum ih]

theorem sorted_of_isLeaf {v : Value F} (hv : v.IsLeaf) : v.sorted = v := by
  cases v with
  | list _ => exact hv.elim
  | tuple _ => exact hv.elim
  | dict _ => exact hv.elim
  | _ => rfl

/-- A leaf is equal up to order to itself only. -/
theorem eq_of_isLeaf {v w : Value F} (hv : v.IsLeaf) (h : v.sorted = w.sorted) : w = v := by
  rw [sorted_of_isLeaf hv] at h
  rw [h] at hv
  cases w with
  | list _ => exact hv.elim
  | tuple _ => exact hv.elim
  | dict _ => exact hv.elim
  | _ => exact h.symm

/-! ## §2. Outlines. -/

theorem outlineList_eq (items : List (Value F)) : outlineList items = items.map Value.outline := by
  induction items with
  | nil => rfl
  | cons v items ih =>
    show v.outline :: outlineList items = _
    rw [ih]
    rfl

theorem outlineItems_eq (items : List (PyStr × Value F)) :
    outlineItems items = mapValues Value.outline items := by
  induction items with
  | nil => rfl
  | cons e items ih =>
    show (e.1, e.2.outline) :: outlineItems items = _
    rw [ih]
    rfl

theorem outlinesEncodable_iff (os : List Outline) :
    outlinesEncodable os ↔ ∀ o ∈ os, o.Encodable := by
  induction os with
  | nil => exact ⟨fun _ o ho => absurd ho List.not_mem_nil, fun _ => trivial⟩
  | cons o os ih =>
    show (o.Encodable ∧ outlinesEncodable os) ↔ _
    rw [ih, List.forall_mem_cons]

theorem entriesEncodable_iff (items : List (PyStr × Outline)) :
    entriesEncodable items ↔ ∀ e ∈ items, Python.Encodable e.1 ∧ e.2.Encodable := by
  induction items with
  | nil => exact ⟨fun _ o ho => absurd ho List.not_mem_nil, fun _ => trivial⟩
  | cons e items ih =>
    show (Python.Encodable e.1 ∧ e.2.Encodable ∧ entriesEncodable items) ↔ _
    rw [ih, List.forall_mem_cons, and_assoc]

theorem outlinesDistinct_iff (os : List Outline) :
    outlinesDistinct os ↔ ∀ o ∈ os, o.Distinct := by
  induction os with
  | nil => exact ⟨fun _ o ho => absurd ho List.not_mem_nil, fun _ => trivial⟩
  | cons o os ih =>
    show (o.Distinct ∧ outlinesDistinct os) ↔ _
    rw [ih, List.forall_mem_cons]

theorem entriesDistinct_iff (items : List (PyStr × Outline)) :
    entriesDistinct items ↔ ∀ e ∈ items, e.2.Distinct := by
  induction items with
  | nil => exact ⟨fun _ o ho => absurd ho List.not_mem_nil, fun _ => trivial⟩
  | cons e items ih =>
    show (e.2.Distinct ∧ entriesDistinct items) ↔ _
    rw [ih, List.forall_mem_cons]

theorem distinct_list_iff (items : List (Value F)) :
    (Value.list items).Distinct ↔ ∀ v ∈ items, v.Distinct := by
  show outlinesDistinct (outlineList items) ↔ _
  rw [outlinesDistinct_iff, outlineList_eq, List.forall_mem_map]
  exact Iff.rfl

theorem distinct_dict_iff (items : List (PyStr × Value F)) :
    (Value.dict items).Distinct ↔ (keys items).Nodup ∧ ∀ e ∈ items, e.2.Distinct := by
  show ((keys (outlineItems items)).Nodup ∧ entriesDistinct (outlineItems items)) ↔ _
  rw [entriesDistinct_iff, outlineItems_eq, keys_mapValues]
  unfold mapValues
  rw [List.forall_mem_map]
  exact Iff.rfl

/-- An outline with the keys sorted can be encoded exactly when the outline can. -/
theorem encodable_sorted (v : Value F) : v.sorted.outline.Encodable ↔ v.outline.Encodable := by
  induction v using Value.induction with
  | leaf v h =>
    cases v with
    | list _ => exact h.elim
    | tuple _ => exact h.elim
    | dict _ => exact h.elim
    | _ => exact Iff.rfl
  | list items ih =>
    show outlinesEncodable (outlineList (sortedList items)) ↔ outlinesEncodable (outlineList items)
    rw [outlinesEncodable_iff, outlinesEncodable_iff, sortedList_eq, outlineList_eq, outlineList_eq]
    simp only [List.map_map, List.forall_mem_map]
    exact forall₂_congr ih
  | tuple items ih =>
    show outlinesEncodable (outlineList (sortedList items)) ↔ outlinesEncodable (outlineList items)
    rw [outlinesEncodable_iff, outlinesEncodable_iff, sortedList_eq, outlineList_eq, outlineList_eq]
    simp only [List.map_map, List.forall_mem_map]
    exact forall₂_congr ih
  | dict items ih =>
    show entriesEncodable (outlineItems (sortByKey (sortedItems items))) ↔
      entriesEncodable (outlineItems items)
    rw [entriesEncodable_iff, entriesEncodable_iff, outlineItems_eq, outlineItems_eq,
      map_sortByKey, sortedItems_eq]
    simp only [(sortByKey_perm _).mem_iff]
    unfold mapValues
    simp only [List.map_map, List.forall_mem_map]
    exact forall₂_congr fun e he => and_congr_right fun _ => ih e he

/-- Lists of values that are determined by their sorted form and outline -/
theorem list_eq_of_outline {items items' : List (Value F)}
    (ih : ∀ v ∈ items, ∀ w, v.sorted = w.sorted → v.outline = w.outline → v = w)
    (hs : sortedList items = sortedList items') (ho : outlineList items = outlineList items') :
    items = items' := by
  rw [sortedList_eq, sortedList_eq] at hs
  rw [outlineList_eq, outlineList_eq] at ho
  have hlength : items.length = items'.length := by simpa using congrArg List.length hs
  apply List.ext_getElem hlength
  intro n hn hn'
  refine ih _ (List.getElem_mem hn) _ ?_ ?_
  · simpa [hn, hn'] using congrArg (fun l => l[n]?) hs
  · simpa [hn, hn'] using congrArg (fun l => l[n]?) ho

/-- Entries that are determined by the sorted form and outline of their values -/
theorem dict_eq_of_outline {items items' : List (PyStr × Value F)}
    (ih : ∀ e ∈ items, ∀ w, e.2.sorted = w.sorted → e.2.outline = w.outline → e.2 = w)
    (hs : sortedItems items = sortedItems items') (ho : outlineItems items = outlineItems items') :
    items = items' := by
  rw [sortedItems_eq, sortedItems_eq] at hs
  rw [outlineItems_eq, outlineItems_eq] at ho
  unfold mapValues at hs ho
  have hlength : items.length = items'.length := by simpa using congrArg List.length hs
  apply List.ext_getElem hlength
  intro n hn hn'
  have hsn := congrArg (fun l => l[n]?) hs
  have hon := congrArg (fun l => l[n]?) ho
  simp only [List.getElem?_map, List.getElem?_eq_getElem hn, List.getElem?_eq_getElem hn',
    Option.map_some, Option.some.injEq, Prod.mk.injEq] at hsn hon
  exact Prod.ext hsn.1 (ih _ (List.getElem_mem hn) _ hsn.2 hon.2)

/-- Values that are equal up to order, with their keys in the same order, are equal. -/
theorem eq_of_outline {v w : Value F} (hv : v.Distinct) (h : v.sorted = w.sorted)
    (houtline : v.outline = w.outline) : v = w := by
  induction v using Value.induction generalizing w with
  | leaf v hleaf => exact (eq_of_isLeaf hleaf h).symm
  | list items ih =>
    have hd := (distinct_list_iff items).mp hv
    cases w with
    | list items' =>
      exact congrArg Value.list (list_eq_of_outline (fun v hmem w => ih v hmem (hd v hmem))
        (Value.list.inj h) (Outline.list.inj houtline))
    | _ => cases h
  | tuple items ih =>
    have hd := (distinct_list_iff items).mp hv
    cases w with
    | tuple items' =>
      exact congrArg Value.tuple (list_eq_of_outline (fun v hmem w => ih v hmem (hd v hmem))
        (Value.tuple.inj h) (Outline.list.inj houtline))
    | _ => cases h
  | dict items ih =>
    obtain ⟨hnodup, hd⟩ := (distinct_dict_iff items).mp hv
    cases w with
    | dict items' =>
      have ho := Outline.dict.inj houtline
      have hkeys : keys items = keys items' := by
        rw [outlineItems_eq, outlineItems_eq] at ho
        rw [← keys_mapValues Value.outline items, ho, keys_mapValues]
      -- with the keys in one order, sorting has not moved anything
      have hperm : (sortedItems items).Perm (sortedItems items') := by
        refine (sortByKey_perm _).symm.trans ?_
        rw [Value.dict.inj h]
        exact sortByKey_perm _
      have hs : sortedItems items = sortedItems items' := by
        refine eq_of_perm_of_keys ?_ ?_ hperm
        · rw [sortedItems_eq, keys_mapValues]
          exact hnodup
        · rw [sortedItems_eq, sortedItems_eq, keys_mapValues, keys_mapValues, hkeys]
      exact congrArg Value.dict (dict_eq_of_outline (fun e hmem w => ih e hmem (hd e hmem)) hs ho)
    | _ => cases h

theorem toJsonList_outline {items : List (Value F)}
    (ih : ∀ v ∈ items, ∀ j, v.toJson = some j → j.outline = v.outline) {js : List (Json F)}
    (h : toJsonList items = some js) : jsonOutlineList js = outlineList items := by
  induction items generalizing js with
  | nil =>
    rw [← Option.some.inj h]
    rfl
  | cons v items ih' =>
    obtain ⟨j, hj, hrest⟩ := Option.bind_eq_some_iff.mp h
    obtain ⟨js', hjs', rfl⟩ := Option.map_eq_some_iff.mp hrest
    show j.outline :: jsonOutlineList js' = v.outline :: outlineList items
    rw [ih v List.mem_cons_self j hj, ih' (fun w hw => ih w (List.mem_cons_of_mem v hw)) hjs']

theorem toJsonItems_outline {items : List (PyStr × Value F)}
    (ih : ∀ e ∈ items, ∀ j, e.2.toJson = some j → j.outline = e.2.outline)
    {js : List (PyStr × Json F)} (h : toJsonItems items = some js) :
    jsonOutlineItems js = outlineItems items := by
  induction items generalizing js with
  | nil =>
    rw [← Option.some.inj h]
    rfl
  | cons e items ih' =>
    obtain ⟨j, hj, hrest⟩ := Option.bind_eq_some_iff.mp h
    obtain ⟨js', hjs', rfl⟩ := Option.map_eq_some_iff.mp hrest
    show (e.1, j.outline) :: jsonOutlineItems js' = (e.1, e.2.outline) :: outlineItems items
    rw [ih e List.mem_cons_self j hj, ih' (fun w hw => ih w (List.mem_cons_of_mem e hw)) hjs']

/-- Reading a value as JSON keeps its outline. -/
theorem toJson_outline {v : Value F} {j : Json F} (h : v.toJson = some j) :
    j.outline = v.outline := by
  induction v using Value.induction generalizing j with
  | leaf v hleaf =>
    cases v with
    | list _ => exact hleaf.elim
    | tuple _ => exact hleaf.elim
    | dict _ => exact hleaf.elim
    | bytes _ => cases h
    | complex _ _ => cases h
    | checksum _ => cases h
    | array _ => cases h
    | generic _ => cases h
    | object => cases h
    | _ =>
      rw [← Option.some.inj h]
      rfl
  | list items ih =>
    obtain ⟨js, hjs, rfl⟩ := Option.map_eq_some_iff.mp h
    exact congrArg Outline.list (toJsonList_outline (fun v hv j => ih v hv) hjs)
  | tuple items ih =>
    obtain ⟨js, hjs, rfl⟩ := Option.map_eq_some_iff.mp h
    exact congrArg Outline.list (toJsonList_outline (fun v hv j => ih v hv) hjs)
  | dict items ih =>
    obtain ⟨js, hjs, rfl⟩ := Option.map_eq_some_iff.mp h
    exact congrArg Outline.dict (toJsonItems_outline (fun e he j => ih e he) hjs)

end

namespace Codecs

variable {L : Codecs}

/-! ## §3. Preparation. -/

theorem normalizeList_eq (items : List (Value L.Float)) :
    L.normalizeList items = items.map L.normalizeMixedSpecialValues := by
  induction items with
  | nil => rfl
  | cons v items ih =>
    show L.normalizeMixedSpecialValues v :: L.normalizeList items = _
    rw [ih]
    rfl

theorem normalizeDict_eq (items : List (PyStr × Value L.Float)) :
    L.normalizeDict items = mapValues L.normalizeMixedSpecialValues items := by
  induction items with
  | nil => rfl
  | cons e items ih =>
    show (e.1, L.normalizeMixedSpecialValues e.2) :: L.normalizeDict items = _
    rw [ih]
    rfl

theorem normalize_sorted (v : Value L.Float) :
    (L.normalizeMixedSpecialValues v).sorted = L.normalizeMixedSpecialValues v.sorted := by
  induction v using Value.induction with
  | leaf v h =>
    cases v with
    | list _ => exact h.elim
    | tuple _ => exact h.elim
    | dict _ => exact h.elim
    | float x =>
      show (if L.isFinite x then Value.float x else .generic (L.npFloat64 x)).sorted =
        if L.isFinite x then Value.float x else .generic (L.npFloat64 x)
      split <;> rfl
    | _ => rfl
  | list items ih =>
    show Value.list (sortedList (L.normalizeList items)) =
      .list (L.normalizeList (sortedList items))
    rw [normalizeList_eq, normalizeList_eq, sorted_list _ ih]
  | tuple items ih =>
    show Value.tuple (sortedList (L.normalizeList items)) =
      .tuple (L.normalizeList (sortedList items))
    rw [normalizeList_eq, normalizeList_eq, sorted_list _ ih]
  | dict items ih =>
    show Value.dict (sortByKey (sortedItems (L.normalizeDict items))) =
      .dict (L.normalizeDict (sortByKey (sortedItems items)))
    rw [normalizeDict_eq, normalizeDict_eq, sorted_dict _ ih]

/-- The value that the mixed serializer gets -/
def prepared (L : Codecs) (v : Value L.Float) : Value L.Float :=
  L.normalizeMixedSpecialValues (unchecksum v)

theorem prepared_sorted {v w : Value L.Float} (h : v.sorted = w.sorted) :
    (L.prepared v).sorted = (L.prepared w).sorted := by
  unfold prepared
  rw [normalize_sorted, normalize_sorted, unchecksum_sorted, unchecksum_sorted, h]

theorem unchecksum_outline (v : Value L.Float) : (unchecksum v).outline = v.outline := by
  induction v using Value.induction with
  | leaf v h =>
    cases v with
    | list _ => exact h.elim
    | tuple _ => exact h.elim
    | dict _ => exact h.elim
    | _ => rfl
  | list items ih =>
    show Outline.list (outlineList (unchecksumList items)) = .list (outlineList items)
    rw [unchecksumList_eq, outlineList_eq, outlineList_eq, List.map_map]
    exact congrArg Outline.list (List.map_congr_left ih)
  | tuple items ih =>
    show Outline.list (outlineList (unchecksumList items)) = .list (outlineList items)
    rw [unchecksumList_eq, outlineList_eq, outlineList_eq, List.map_map]
    exact congrArg Outline.list (List.map_congr_left ih)
  | dict items ih =>
    show Outline.dict (outlineItems (unchecksumDict items)) = .dict (outlineItems items)
    rw [unchecksumDict_eq, outlineItems_eq, outlineItems_eq]
    unfold mapValues
    rw [List.map_map]
    exact congrArg Outline.dict (List.map_congr_left fun e he => congrArg (Prod.mk e.1) (ih e he))

theorem normalize_outline (v : Value L.Float) :
    (L.normalizeMixedSpecialValues v).outline = v.outline := by
  induction v using Value.induction with
  | leaf v h =>
    cases v with
    | list _ => exact h.elim
    | tuple _ => exact h.elim
    | dict _ => exact h.elim
    | float x =>
      show (if L.isFinite x then Value.float x else .generic (L.npFloat64 x)).outline = .leaf
      split <;> rfl
    | _ => rfl
  | list items ih =>
    show Outline.list (outlineList (L.normalizeList items)) = .list (outlineList items)
    rw [normalizeList_eq, outlineList_eq, outlineList_eq, List.map_map]
    exact congrArg Outline.list (List.map_congr_left ih)
  | tuple items ih =>
    show Outline.list (outlineList (L.normalizeList items)) = .list (outlineList items)
    rw [normalizeList_eq, outlineList_eq, outlineList_eq, List.map_map]
    exact congrArg Outline.list (List.map_congr_left ih)
  | dict items ih =>
    show Outline.dict (outlineItems (L.normalizeDict items)) = .dict (outlineItems items)
    rw [normalizeDict_eq, outlineItems_eq, outlineItems_eq]
    unfold mapValues
    rw [List.map_map]
    exact congrArg Outline.dict (List.map_congr_left fun e he => congrArg (Prod.mk e.1) (ih e he))

theorem prepared_outline (v : Value L.Float) : (L.prepared v).outline = v.outline := by
  unfold prepared
  rw [normalize_outline, unchecksum_outline]

/-! ## §4. The storage does not depend on the order. -/

/-- `get_form(data)[0]` -/
def storage (L : Codecs) (v : Value L.Float) : Option Storage := (L.getForm v).map Prod.fst

/-- The storage of a container with one more item -/
def joinStorage : Option Storage → Option Storage → Option Storage
  | some s, some t => some (if s = .purePlain ∧ t = .purePlain then .purePlain else .mixedPlain)
  | _, _ => none

instance : LeftCommutative joinStorage := by
  constructor
  intro a b c
  cases a with
  | none =>
    cases b with
    | none => rfl
    | some t => cases c <;> rfl
  | some s =>
    cases b with
    | none => cases c <;> rfl
    | some t =>
      cases c with
      | none => rfl
      | some u => cases s <;> cases t <;> cases u <;> rfl

theorem containerStorage_cons (s : Storage) (ss : List Storage) :
    some (containerStorage (s :: ss)) = joinStorage (some s) (some (containerStorage ss)) := by
  unfold containerStorage joinStorage
  rw [List.all_cons]
  cases s with
  | purePlain => by_cases h : ss.all (fun s => s = .purePlain) = true <;> simp [h]
  | _ => simp

/-- A list or dict is not stored as NumPy data. -/
theorem containerStorage_ne (ss : List Storage) : containerStorage ss ≠ .pureBinary := by
  unfold containerStorage
  split <;> intro h <;> cases h

theorem getFormList_storage (items : List (Value L.Float)) :
    (L.getFormList items).map (fun forms => containerStorage (forms.map Prod.fst)) =
      (items.map L.storage).foldr joinStorage (some .purePlain) := by
  induction items with
  | nil => rfl
  | cons v items ih =>
    rw [List.map_cons, List.foldr_cons, ← ih]
    show Option.map _ ((L.getForm v).bind fun f => (L.getFormList items).map fun fs => f :: fs) = _
    unfold storage
    cases hv : L.getForm v with
    | none => rfl
    | some f =>
      cases L.getFormList items with
      | none => rfl
      | some fs => exact containerStorage_cons f.1 (fs.map Prod.fst)

theorem getFormItems_storage (items : List (PyStr × Value L.Float)) :
    (L.getFormItems items).map (fun forms => containerStorage (forms.map fun e => e.2.1)) =
      (items.map fun e => L.storage e.2).foldr joinStorage (some .purePlain) := by
  induction items with
  | nil => rfl
  | cons e items ih =>
    rw [List.map_cons, List.foldr_cons, ← ih]
    show Option.map _
      ((L.getForm e.2).bind fun f => (L.getFormItems items).map fun fs => (e.1, f) :: fs) = _
    unfold storage
    cases hv : L.getForm e.2 with
    | none => rfl
    | some f =>
      cases L.getFormItems items with
      | none => rfl
      | some fs => exact containerStorage_cons f.1 (fs.map fun e => e.2.1)

theorem storage_list (items : List (Value L.Float)) :
    L.storage (.list items) = (items.map L.storage).foldr joinStorage (some .purePlain) := by
  rw [← getFormList_storage]
  show ((L.getFormList items).map listForm).map Prod.fst = _
  rw [Option.map_map]
  rfl

theorem storage_dict (items : List (PyStr × Value L.Float)) :
    L.storage (.dict items) =
      (items.map fun e => L.storage e.2).foldr joinStorage (some .purePlain) := by
  rw [← getFormItems_storage]
  show ((L.getFormItems items).map dictForm).map Prod.fst = _
  rw [Option.map_map]
  rfl

/-- Where a value is stored does not depend on the order of its keys. -/
theorem storage_sorted (v : Value L.Float) : L.storage v.sorted = L.storage v := by
  induction v using Value.induction with
  | leaf v h => rw [sorted_of_isLeaf h]
  | list items ih =>
    show L.storage (.list (sortedList items)) = _
    rw [storage_list, storage_list, sortedList_eq, List.map_map]
    congr 1
    exact List.map_congr_left ih
  | tuple items ih =>
    show L.storage (.list (sortedList items)) = L.storage (.list items)
    rw [storage_list, storage_list, sortedList_eq, List.map_map]
    congr 1
    exact List.map_congr_left ih
  | dict items ih =>
    show L.storage (.dict (sortByKey (sortedItems items))) = _
    rw [storage_dict, storage_dict]
    have hperm := (sortByKey_perm (sortedItems items)).map fun e => L.storage e.2
    rw [hperm.foldr_eq, sortedItems_eq]
    unfold mapValues
    rw [List.map_map]
    congr 1
    exact List.map_congr_left ih

/-! ## §5. The JSON part has the keys of the value. -/

/-- Every result is the result of its run. -/
theorem runItems_results {F : Type} {runs : List (PyStr × Traversal (Value F))} {s s' : Stream}
    {results : List (PyStr × Value F)} (h : runItems runs s = some (results, s')) :
    ∀ e ∈ results, ∃ run s₁ s₂, (e.1, run) ∈ runs ∧ run s₁ = some (e.2, s₂) := by
  induction runs generalizing s s' results with
  | nil =>
    intro e he
    have hnil : results = [] := (congrArg Prod.fst (Option.some.inj h)).symm
    rw [hnil] at he
    exact absurd he List.not_mem_nil
  | cons r runs ih =>
    obtain ⟨⟨v, s₁⟩, hv, hrest⟩ := Option.bind_eq_some_iff.mp h
    obtain ⟨⟨vs, s₂⟩, hvs, heq⟩ := Option.map_eq_some_iff.mp hrest
    rw [← (Prod.mk.inj heq).1]
    intro e he
    rcases List.mem_cons.mp he with hfirst | hlater
    · rw [hfirst]
      exact ⟨r.2, s, s₁, List.mem_cons_self, hv⟩
    · obtain ⟨run, t₁, t₂, hmem, hrun⟩ := ih hvs e hlater
      exact ⟨run, t₁, t₂, List.mem_cons_of_mem r hmem, hrun⟩

/-- Every run of a dict is that of one of its values. -/
theorem toStreamItems_runs {items : List (PyStr × Value L.Float)} {props : List (PyStr × Form)}
    {runs : List (PyStr × Traversal (Value L.Float))} (h : L.toStreamItems items props = some runs) :
    ∀ e ∈ runs, ∃ v f, (e.1, v) ∈ items ∧ e.2 = L.toStream v (Form.substorage f) f := by
  induction items generalizing runs with
  | nil =>
    intro e he
    rw [← Option.some.inj h] at he
    exact absurd he List.not_mem_nil
  | cons i items ih =>
    obtain ⟨f, -, hrest⟩ := Option.bind_eq_some_iff.mp h
    obtain ⟨runs', hruns, heq⟩ := Option.map_eq_some_iff.mp hrest
    rw [← heq]
    intro e he
    rcases List.mem_cons.mp he with hfirst | hlater
    · rw [hfirst]
      exact ⟨i.2, f, List.mem_cons_self, rfl⟩
    · obtain ⟨v, f', hmem, hrun⟩ := ih hruns e hlater
      exact ⟨v, f', List.mem_cons_of_mem i hmem, hrun⟩

/-- What writing a value leaves of it in the JSON part has its outline. -/
def KeepsOutline (v : Value L.Float) : Prop :=
  ∀ storage form s v' s', L.toStream v storage form s = some (v', s') → v'.outline = v.outline

theorem numpyData_outline {v : Value L.Float} {d : DType × Bytes} (h : L.numpyData v = some d) :
    v.outline = .leaf := by
  cases v with
  | list _ => cases h
  | tuple _ => cases h
  | dict _ => cases h
  | _ => rfl

theorem toStream_pureBinary_outline {v v' : Value L.Float} {form : Form} {s s' : Stream}
    (h : L.toStream v .pureBinary form s = some (v', s')) : v'.outline = v.outline := by
  have hunfold : L.toStream v .pureBinary form s =
      (L.numpyData v).bind fun d => (s.write d.2).map fun s => (.int 0, s) := by
    cases v <;> rfl
  rw [hunfold] at h
  obtain ⟨d, hd, hwrite⟩ := Option.bind_eq_some_iff.mp h
  obtain ⟨s₁, -, heq⟩ := Option.map_eq_some_iff.mp hwrite
  rw [numpyData_outline hd, ← (Prod.mk.inj heq).1]
  rfl

theorem toStream_purePlain (v : Value L.Float) (form : Form) (s : Stream) :
    L.toStream v .purePlain form s = some (v, s) := by
  cases v <;> rfl

theorem toStream_scalar (v : Value L.Float) (type : ScalarType) (t : Option Storage) (s : Stream) :
    L.toStream v .mixedPlain (.scalar type t) s = some (v, s) := by
  cases v <;> rfl

theorem toStreamList_outline {items items' : List (Value L.Float)} {fs : List Form}
    {s s' : Stream} (ih : ∀ v ∈ items, L.KeepsOutline v)
    (h : L.toStreamList items fs s = some (items', s')) :
    outlineList items' = outlineList items := by
  induction items generalizing items' fs s s' with
  | nil =>
    have hsame : ([], s) = (items', s') := Option.some.inj h
    rw [← (Prod.mk.inj hsame).1]
  | cons v items ih' =>
    cases fs with
    | nil =>
      have hsame : (v :: items, s) = (items', s') := Option.some.inj h
      rw [← (Prod.mk.inj hsame).1]
    | cons f fs =>
      obtain ⟨⟨v', s₁⟩, hv, hrest⟩ := Option.bind_eq_some_iff.mp h
      obtain ⟨⟨vs, s₂⟩, hvs, heq⟩ := Option.map_eq_some_iff.mp hrest
      rw [← (Prod.mk.inj heq).1]
      show v'.outline :: outlineList vs = v.outline :: outlineList items
      rw [ih v List.mem_cons_self _ _ _ _ _ hv,
        ih' (fun w hw => ih w (List.mem_cons_of_mem v hw)) hvs]

theorem toStream_list (items : List (Value L.Float)) {form : Form}
    (hform : ∀ type t, form ≠ .scalar type t) (s : Stream) :
    L.toStream (.list items) .mixedPlain form s = (form.itemForms items.length).bind fun fs =>
      (L.toStreamList items fs s).map fun (items, s) => (Value.list items, s) := by
  cases form with
  | scalar type t => exact absurd rfl (hform type t)
  | _ => rfl

theorem toStream_tuple (items : List (Value L.Float)) {form : Form}
    (hform : ∀ type t, form ≠ .scalar type t) (s : Stream) :
    L.toStream (.tuple items) .mixedPlain form s = (form.itemForms items.length).bind fun fs =>
      (L.toStreamList items fs s).map fun (items, s) => (Value.list items, s) := by
  cases form with
  | scalar type t => exact absurd rfl (hform type t)
  | _ => rfl

/-- A list that is written item by item -/
theorem list_keepsOutline {items : List (Value L.Float)} {form : Form} {s s' : Stream}
    {v' : Value L.Float} (ih : ∀ v ∈ items, L.KeepsOutline v)
    (h : ((form.itemForms items.length).bind fun fs =>
      (L.toStreamList items fs s).map fun (items, s) => (Value.list items, s)) = some (v', s')) :
    v'.outline = .list (outlineList items) := by
  obtain ⟨fs, -, hlist⟩ := Option.bind_eq_some_iff.mp h
  obtain ⟨⟨items', s₁⟩, hitems, heq⟩ := Option.map_eq_some_iff.mp hlist
  rw [← (Prod.mk.inj heq).1]
  exact congrArg Outline.list (toStreamList_outline ih hitems)

/-- A dict whose values are written in the order of their keys -/
theorem runSorted_outline {items : List (PyStr × Value L.Float)} {props : List (PyStr × Form)}
    {runs : List (PyStr × Traversal (Value L.Float))} {s s' : Stream} {v' : Value L.Float}
    (hnodup : (keys items).Nodup) (ih : ∀ e ∈ items, L.KeepsOutline e.2)
    (hruns : L.toStreamItems items props = some runs)
    (h : runSorted items runs s = some (v', s')) : v'.outline = .dict (outlineItems items) := by
  obtain ⟨⟨results, s₁⟩, hresults, heq⟩ := Option.map_eq_some_iff.mp h
  rw [← (Prod.mk.inj heq).1]
  show Outline.dict (outlineItems _) = _
  rw [outlineItems_eq, outlineItems_eq]
  unfold mapValues
  rw [List.map_map]
  congr 1
  apply List.map_congr_left
  intro e he
  show (e.1, ((results.lookup e.1).getD e.2).outline) = _
  cases hlookup : results.lookup e.1 with
  | none => rfl
  | some w =>
    -- the result of a key is that of the value of the key
    obtain ⟨run, t₁, t₂, hmem, hrun⟩ := runItems_results hresults _ (mem_of_lookup hlookup)
    obtain ⟨v, f, hitem, hrun'⟩ :=
      toStreamItems_runs hruns _ ((sortByKey_perm runs).mem_iff.mp hmem)
    have hv : v = e.2 := eq_of_mem hnodup hitem he
    have hrun'' : run = L.toStream v f.substorage f := hrun'
    rw [hrun'', hv] at hrun
    exact congrArg (Prod.mk e.1) (ih e he _ _ _ _ _ hrun)

theorem toStream_outline {v : Value L.Float} (hd : v.Distinct) : L.KeepsOutline v := by
  induction v using Value.induction with
  | leaf v hleaf =>
    intro storage form s v' s' h
    cases storage with
    | purePlain =>
      rw [toStream_purePlain] at h
      rw [(Prod.mk.inj (Option.some.inj h)).1]
    | pureBinary => exact toStream_pureBinary_outline h
    | mixedPlain =>
      cases form with
      | scalar type t =>
        rw [toStream_scalar] at h
        rw [(Prod.mk.inj (Option.some.inj h)).1]
      | _ =>
        cases v with
        | list _ => exact hleaf.elim
        | tuple _ => exact hleaf.elim
        | dict _ => exact hleaf.elim
        | _ => cases h
  | list items ih =>
    have hkeeps : ∀ v ∈ items, L.KeepsOutline v :=
      fun v hv => ih v hv ((distinct_list_iff items).mp hd v hv)
    intro storage form s v' s' h
    cases storage with
    | purePlain =>
      rw [toStream_purePlain] at h
      rw [(Prod.mk.inj (Option.some.inj h)).1]
    | pureBinary => exact toStream_pureBinary_outline h
    | mixedPlain =>
      cases form with
      | scalar type t =>
        rw [toStream_scalar] at h
        rw [(Prod.mk.inj (Option.some.inj h)).1]
      | _ =>
        rw [toStream_list _ (fun _ _ h => by cases h)] at h
        exact list_keepsOutline hkeeps h
  | tuple items ih =>
    have hkeeps : ∀ v ∈ items, L.KeepsOutline v :=
      fun v hv => ih v hv ((distinct_list_iff items).mp hd v hv)
    intro storage form s v' s' h
    cases storage with
    | purePlain =>
      rw [toStream_purePlain] at h
      rw [(Prod.mk.inj (Option.some.inj h)).1]
    | pureBinary => exact toStream_pureBinary_outline h
    | mixedPlain =>
      cases form with
      | scalar type t =>
        rw [toStream_scalar] at h
        rw [(Prod.mk.inj (Option.some.inj h)).1]
      | _ =>
        rw [toStream_tuple _ (fun _ _ h => by cases h)] at h
        exact list_keepsOutline hkeeps h
  | dict items ih =>
    obtain ⟨hnodup, hdistinct⟩ := (distinct_dict_iff items).mp hd
    -- the entries are streamed in sorted order, and put back in their own
    have hkeeps : ∀ e ∈ items, L.KeepsOutline e.2 := fun e he => ih e he (hdistinct e he)
    intro storage form s v' s' h
    cases storage with
    | purePlain =>
      rw [toStream_purePlain] at h
      rw [(Prod.mk.inj (Option.some.inj h)).1]
    | pureBinary => exact toStream_pureBinary_outline h
    | mixedPlain =>
      cases form with
      | scalar type t =>
        rw [toStream_scalar] at h
        rw [(Prod.mk.inj (Option.some.inj h)).1]
      | object props t =>
        obtain ⟨runs, hruns, hsorted⟩ := Option.bind_eq_some_iff.mp h
        exact runSorted_outline hnodup hkeeps hruns hsorted
      | _ => cases h

/-! ## §6. What a buffer tells. -/

/-- The contents of a stream with storage `mixed-plain` -/
def streamBytes (text : Bytes) (size : Nat) (buffer : Bytes) : Bytes :=
  magicSeamless ++ leBytes 8 text.length ++ leBytes 8 size ++ text ++ buffer

theorem leBytes_inj {k n n' : Nat} (h : n < 256 ^ k) (h' : n' < 256 ^ k)
    (heq : leBytes k n = leBytes k n') : n = n' := by
  rw [← littleEndian_leBytes k n h, heq, littleEndian_leBytes k n' h']

/-- The JSON part can be told from the stream. -/
theorem streamBytes_inj {text text' buffer buffer' : Bytes} {size size' : Nat}
    (h : text.length < 256 ^ 8) (h' : text'.length < 256 ^ 8)
    (heq : streamBytes text size buffer = streamBytes text' size' buffer') : text = text' := by
  unfold streamBytes at heq
  simp only [List.append_assoc] at heq
  have hrest := List.append_cancel_left heq
  obtain ⟨hlength, hrest⟩ := List.append_inj hrest (by rw [length_leBytes, length_leBytes])
  obtain ⟨-, hrest⟩ := List.append_inj hrest (by rw [length_leBytes, length_leBytes])
  exact (List.append_inj hrest (leBytes_inj h h' hlength)).1

/-- The stream can be told from the buffer. -/
theorem withHeader_inj {form form' content content' : Bytes} (h : form.length < 256 ^ 4)
    (h' : form'.length < 256 ^ 4) (heq : withHeader form content = withHeader form' content') :
    content = content' := by
  unfold withHeader at heq
  simp only [List.append_assoc] at heq
  have hrest := List.append_cancel_left (List.append_cancel_left (List.append_cancel_left heq))
  obtain ⟨hlength, hrest⟩ := List.append_inj hrest (by rw [length_leBytes, length_leBytes])
  exact (List.append_inj hrest (leBytes_inj h h' hlength)).2

/-- What `writeMixedPlain` does when it succeeds -/
theorem writeMixedPlain_eq {v : Value L.Float} {form : Form} {content : Bytes}
    (h : L.writeMixedPlain v form = some content) :
    ∃ size data s j text, L.toStream v .mixedPlain form ⟨List.replicate size 0, 0, [0]⟩ =
        some (data, s) ∧ data.toJson = some j ∧ L.dumps (.list [jsonNats s.offsets, j]) = some text ∧
      text.length < 256 ^ 8 ∧ content = streamBytes text size s.buffer := by
  unfold writeMixedPlain at h
  split at h
  next check size _ _ =>
    split at h
    next =>
      obtain ⟨⟨data, s⟩, hstream, hrest⟩ := Option.bind_eq_some_iff.mp h
      simp only at hrest
      split at hrest
      next =>
        obtain ⟨text, htext, hbytes⟩ := Option.bind_eq_some_iff.mp hrest
        obtain ⟨j, hj, hdumps⟩ := Option.bind_eq_some_iff.mp htext
        split at hbytes
        next hbounds =>
          exact ⟨size, data, s, j, text, hstream, hj, hdumps, hbounds.1,
            (Option.some.inj hbytes).symm⟩
        next => cases hbytes
      next => cases hrest
    next => cases h
  next => cases h

/-- What the mixed serializer does with a value that contains NumPy data -/
theorem mixedSerialize_mixedPlain {v : Value L.Float} {b : Bytes}
    (hv : L.storage v = some .mixedPlain) (h : L.mixedSerialize v = some b) :
    ∃ form h2 content, L.writeMixedPlain v form = some content ∧ h2.length < 256 ^ 4 ∧
      b = withHeader h2 content := by
  unfold storage at hv
  unfold mixedSerialize at h
  obtain ⟨⟨storage, form⟩, hform, hrest⟩ := Option.bind_eq_some_iff.mp h
  rw [hform] at hv
  have hs : storage = .mixedPlain := Option.some.inj hv
  subst hs
  obtain ⟨content, hcontent, hheader⟩ := Option.bind_eq_some_iff.mp hrest
  obtain ⟨h2, -, hbytes⟩ := Option.bind_eq_some_iff.mp hheader
  split at hbytes
  next hlength => exact ⟨form, h2, content, hcontent, hlength, (Option.some.inj hbytes).symm⟩
  next => cases hbytes

/-- `json.dumps` writes lists and dicts with their keys, in order. -/
def DumpsOutline (L : Codecs) : Prop :=
  ∀ j j' text, j.outline.Encodable → j'.outline.Encodable → L.dumps j = some text →
    L.dumps j' = some text → j.outline = j'.outline

/-- The outline of `jsons` -/
theorem jsons_outline (ns : List Nat) (j : Json L.Float) :
    (Json.list [jsonNats ns, j]).outline = .list [.list (ns.map fun _ => .leaf), j.outline] := by
  have hnats : ∀ ns : List Nat,
      jsonOutlineList (ns.map fun n : Nat => (Json.int (n : Int) : Json L.Float)) =
        ns.map fun _ => Outline.leaf := by
    intro ns
    induction ns with
    | nil => rfl
    | cons n ns ih =>
      show Outline.leaf :: jsonOutlineList _ = _
      rw [ih]
      rfl
  show Outline.list [.list (jsonOutlineList (ns.map fun n : Nat => Json.int (n : Int))), j.outline] =
    _
  rw [hnats]

theorem jsons_encodable {ns : List Nat} {j : Json L.Float} (h : j.outline.Encodable) :
    (Json.list [jsonNats ns, j]).outline.Encodable := by
  rw [jsons_outline]
  show outlinesEncodable _ ∧ j.outline.Encodable ∧ True
  refine ⟨?_, h, trivial⟩
  rw [outlinesEncodable_iff]
  intro o ho
  obtain ⟨n, -, rfl⟩ := List.mem_map.mp ho
  trivial

/-- Values with NumPy data inside that have one buffer have their keys in one order. -/
theorem outline_of_mixedSerialize (hdumps : L.DumpsOutline) {v w : Value L.Float} {b : Bytes}
    (hv : L.storage v = some .mixedPlain) (hw : L.storage w = some .mixedPlain)
    (hvd : v.Distinct) (hwd : w.Distinct) (hve : v.outline.Encodable) (hwe : w.outline.Encodable)
    (hvb : L.mixedSerialize v = some b) (hwb : L.mixedSerialize w = some b) :
    v.outline = w.outline := by
  obtain ⟨form, h2, content, hcontent, hlength, hb⟩ := mixedSerialize_mixedPlain hv hvb
  obtain ⟨form', h2', content', hcontent', hlength', hb'⟩ := mixedSerialize_mixedPlain hw hwb
  have heq : content = content' := withHeader_inj hlength hlength' (hb.symm.trans hb')
  obtain ⟨size, data, s, j, text, hstream, hj, htext, hbound, hbytes⟩ :=
    writeMixedPlain_eq hcontent
  obtain ⟨size', data', s', j', text', hstream', hj', htext', hbound', hbytes'⟩ :=
    writeMixedPlain_eq hcontent'
  rw [hbytes, hbytes'] at heq
  have htexts : text = text' := streamBytes_inj hbound hbound' heq
  rw [← htexts] at htext'
  -- the JSON parts have the outlines of the values
  have ho : j.outline = v.outline :=
    (toJson_outline hj).trans (toStream_outline hvd _ _ _ _ _ hstream)
  have ho' : j'.outline = w.outline :=
    (toJson_outline hj').trans (toStream_outline hwd _ _ _ _ _ hstream')
  have hjsons := hdumps _ _ text (jsons_encodable (by rw [ho]; exact hve))
    (jsons_encodable (by rw [ho']; exact hwe)) htext htext'
  rw [jsons_outline, jsons_outline] at hjsons
  have hlists := List.cons.inj (List.cons.inj (Outline.list.inj hjsons)).2
  rw [← ho, ← ho', hlists.1]

/-! ## §7. Buffers. -/

/-- `Buffer(value, celltype)` for `plain` and the deep celltypes, with the dict that is
made for a deep celltype, and for `mixed` -/
inductive BufferType where
  | plain
  | deep
  | mixed
  deriving DecidableEq, Repr

/-- `v.hex() if isinstance(v, Checksum) else v` -/
def hexChecksum {F : Type} : Value F → Value F
  | .checksum c => .str c.hex
  | v => v

/-- `Buffer(value, celltype).content` -/
def newBuffer (L : Codecs) : Value L.Float → BufferType → Option Bytes
  | .checksum _, _ => none
  | .dict items, .deep => L.serializePlain (.dict (mapValues hexChecksum items))
  | v, .mixed => L.serializeMixed v
  | v, _ => L.serializePlain v

/-- The value is stored as JSON with NumPy data inside. -/
def MixedPlain (L : Codecs) (v : Value L.Float) : Prop :=
  L.storage (L.prepared v) = some .mixedPlain

theorem checkFiniteList_eq (items : List (Value L.Float)) :
    L.checkFiniteList items = (items.map L.checkFinite).all id := by
  induction items with
  | nil => rfl
  | cons v items ih =>
    show (L.checkFinite v && L.checkFiniteList items) = _
    rw [ih]
    rfl

theorem checkFiniteDict_eq (items : List (PyStr × Value L.Float)) :
    L.checkFiniteDict items = (items.map fun e => L.checkFinite e.2).all id := by
  induction items with
  | nil => rfl
  | cons e items ih =>
    show (L.checkFinite e.2 && L.checkFiniteDict items) = _
    rw [ih]
    rfl

theorem checkFinite_sorted (v : Value L.Float) : L.checkFinite v.sorted = L.checkFinite v := by
  induction v using Value.induction with
  | leaf v h => rw [sorted_of_isLeaf h]
  | list items ih =>
    show L.checkFiniteList (sortedList items) = L.checkFiniteList items
    rw [checkFiniteList_eq, checkFiniteList_eq, sortedList_eq, List.map_map]
    congr 1
    exact List.map_congr_left ih
  | tuple items ih =>
    show L.checkFiniteList (sortedList items) = L.checkFiniteList items
    rw [checkFiniteList_eq, checkFiniteList_eq, sortedList_eq, List.map_map]
    congr 1
    exact List.map_congr_left ih
  | dict items ih =>
    show L.checkFiniteDict (sortByKey (sortedItems items)) = L.checkFiniteDict items
    rw [checkFiniteDict_eq, checkFiniteDict_eq]
    have hperm := (sortByKey_perm (sortedItems items)).map fun e => L.checkFinite e.2
    rw [hperm.all_eq, sortedItems_eq]
    unfold mapValues
    rw [List.map_map]
    congr 1
    exact List.map_congr_left ih

/-- A value that is sorted to `None` is `None`. -/
theorem eq_none_iff {v w : Value L.Float} (h : v.sorted = w.sorted) : v = .none ↔ w = .none := by
  constructor
  · intro hv
    rw [hv] at h
    exact eq_of_isLeaf trivial h
  · intro hw
    rw [hw] at h
    exact eq_of_isLeaf trivial h.symm

/-- Under `plain` the order of the keys does not matter. -/
theorem serializePlain_sorted {v w : Value L.Float} (h : v.sorted = w.sorted) :
    L.serializePlain v = L.serializePlain w := by
  have hplain : ∀ x : Value L.Float, x ≠ .none → L.serializePlain x =
      if L.checkFinite (unchecksum x).sorted then
        ((unchecksum x).sorted.toJson.bind L.orjsonDumps).map (· ++ ascii "\n")
      else none := by
    intro x hx
    rw [checkFinite_sorted]
    cases x with
    | none => exact absurd rfl hx
    | _ => rfl
  by_cases hv : v = .none
  · rw [hv, (eq_none_iff h).mp hv]
  · have hw : w ≠ .none := fun hw => hv ((eq_none_iff h).mpr hw)
    rw [hplain v hv, hplain w hw, unchecksum_sorted, unchecksum_sorted, h]

/-- Where no NumPy data is inside a list or dict, the order of the keys does not matter. -/
theorem mixedSerialize_sorted {v w : Value L.Float} (h : v.sorted = w.sorted)
    (hv : L.storage v ≠ some .mixedPlain) : L.mixedSerialize v = L.mixedSerialize w := by
  have hstorage : L.storage w = L.storage v := by
    rw [← storage_sorted w, ← h, storage_sorted]
  unfold storage at hv hstorage
  unfold mixedSerialize
  cases hform : L.getForm v with
  | none =>
    rw [hform] at hstorage
    rw [Option.map_eq_none_iff.mp hstorage]
    rfl
  | some f =>
    rw [hform] at hv hstorage
    obtain ⟨f', hform', hf'⟩ := Option.map_eq_some_iff.mp hstorage
    rw [hform']
    obtain ⟨s, form⟩ := f
    obtain ⟨s', form'⟩ := f'
    have hs : s' = s := hf'
    subst hs
    cases s' with
    | purePlain =>
      show ((Option.map _ _).bind _) = ((Option.map _ _).bind _)
      rw [h]
    | pureBinary =>
      -- a value that is NumPy data is a leaf
      have hleaf : v.IsLeaf := by
        cases v with
        | list items =>
          obtain ⟨fs, -, hfs⟩ := Option.map_eq_some_iff.mp hform
          exact absurd (Prod.mk.inj hfs).1 (containerStorage_ne _)
        | tuple items =>
          obtain ⟨fs, -, hfs⟩ := Option.map_eq_some_iff.mp hform
          exact absurd (Prod.mk.inj hfs).1 (containerStorage_ne _)
        | dict items =>
          obtain ⟨fs, -, hfs⟩ := Option.map_eq_some_iff.mp hform
          exact absurd (Prod.mk.inj hfs).1 (containerStorage_ne _)
        | _ => trivial
      have hvw : w = v := eq_of_isLeaf hleaf h
      rw [hvw]
      rfl
    | mixedPlain => exact absurd rfl hv

theorem serializeMixed_eq {v : Value L.Float} (hv : v ≠ .none) : L.serializeMixed v =
    match L.prepared v with
    | .complex re im => L.npSave (L.npComplex re im)
    | value => L.mixedSerialize value := by
  cases v with
  | none => exact absurd rfl hv
  | _ => rfl

/-- Under `mixed`, for a value without NumPy data inside a list or dict -/
theorem serializeMixed_sorted {v w : Value L.Float} (h : v.sorted = w.sorted)
    (hv : ¬ L.MixedPlain v) : L.serializeMixed v = L.serializeMixed w := by
  have hprepared : (L.prepared v).sorted = (L.prepared w).sorted := prepared_sorted h
  by_cases hnone : v = .none
  · rw [hnone, (eq_none_iff h).mp hnone]
  · have hw : w ≠ .none := fun hw => hnone ((eq_none_iff h).mpr hw)
    rw [serializeMixed_eq hnone, serializeMixed_eq hw]
    have hserialize := mixedSerialize_sorted hprepared hv
    by_cases hleaf : (L.prepared v).IsLeaf
    · rw [eq_of_isLeaf hleaf hprepared]
    · have hleaf' : ¬ (L.prepared w).IsLeaf := by
        intro hw
        rw [eq_of_isLeaf hw hprepared.symm] at hleaf
        exact hleaf hw
      have hnot : ∀ x : Value L.Float, ¬ x.IsLeaf →
          (match x with
            | .complex re im => L.npSave (L.npComplex re im)
            | value => L.mixedSerialize value) = L.mixedSerialize x := by
        intro x hx
        cases x with
        | complex re im => exact absurd trivial hx
        | _ => rfl
      exact (hnot _ hleaf).trans (hserialize.trans (hnot _ hleaf').symm)

/-- The storage of a value with NumPy data inside is not that of a leaf. -/
theorem MixedPlain.serializeMixed {v : Value L.Float} (h : L.MixedPlain v) :
    L.serializeMixed v = L.mixedSerialize (L.prepared v) := by
  have hnone : v ≠ .none := by
    rintro rfl
    cases h
  rw [serializeMixed_eq hnone]
  cases hpv : L.prepared v with
  | complex re im =>
    unfold MixedPlain at h
    rw [hpv] at h
    obtain ⟨f, hf, hs⟩ := Option.map_eq_some_iff.mp h
    obtain ⟨item, -, hitem⟩ := Option.map_eq_some_iff.mp hf
    rw [← hitem] at hs
    cases hs
  | _ => rfl

end Codecs

end SeamlessCore.Mixed
