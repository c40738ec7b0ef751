/-
  SeamlessCore.Mixed.RoundTrip — what is written is read back.

  The writer and the reader walk along a value in the same order: what one
  writes as the next piece, the other loads as the next piece, and what one
  leaves in the JSON part, the other leaves there.  A value is described by its
  own description, or by one that equals it as a dict.

  Main definitions:
    * `Reads`, `ReadsPlain` — reading a part undoes writing it.
  Main results:
    * `toStream_plain` — without NumPy data there is nothing to undo;
    * `reads_value` — the induction over the value;
    * `entries_value` — a list or dict with NumPy data inside.

  Source: `seamless/util/mixed/io/to_stream.py`, `from_stream.py`.
-/
import SeamlessCore.Mixed.Descriptions

namespace SeamlessCore.Mixed

open Python

variable {F : Type}

namespace Codecs

variable {L : Codecs}

/-! ## §1. Entries in the order of their keys. -/

/-- The entries of a dict, each with its description -/
theorem toStreamItems_entries {items : List (PyStr × Value L.Float)} {props : List (PyStr × Form)}
    {runs : List (PyStr × Traversal (Value L.Float))}
    (h : L.toStreamItems items props = some runs) :
    ∃ es : List (PyStr × Value L.Float × Form), Assoc.mapValues Prod.fst es = items ∧
      (∀ e ∈ es, props.lookup e.1 = some e.2.2) ∧
      runs = Assoc.mapValues (fun e => L.toStream e.1 e.2.substorage e.2) es := by
  induction items generalizing runs with
  | nil =>
    obtain rfl := Option.some.inj h
    exact ⟨[], rfl, fun _ he => absurd he List.not_mem_nil, rfl⟩
  | cons i items ih =>
    obtain ⟨f, hf, hrest⟩ := Option.bind_eq_some_iff.mp h
    obtain ⟨runs', hruns, rfl⟩ := Option.map_eq_some_iff.mp hrest
    obtain ⟨es, hitems, hprops, rfl⟩ := ih hruns
    refine ⟨(i.1, i.2, f) :: es, ?_, ?_, rfl⟩
    · show (i.1, i.2) :: Assoc.mapValues Prod.fst es = _
      rw [hitems]
    · intro e he
      rcases List.mem_cons.mp he with heq | hmem
      · rw [heq]
        exact hf
      · exact hprops e hmem

/-- The values of a dict are written in the order of their keys. -/
theorem runSorted_entries {items : List (PyStr × Value L.Float)} {props : List (PyStr × Form)}
    {runs : List (PyStr × Traversal (Value L.Float))} {s s' : Stream} {v' : Value L.Float}
    (hruns : L.toStreamItems items props = some runs) (h : runSorted items runs s = some (v', s')) :
    ∃ (es : List (PyStr × Value L.Float × Form)) (results : List (PyStr × Value L.Float)),
      Assoc.mapValues Prod.fst es = items ∧ (∀ e ∈ es, props.lookup e.1 = some e.2.2) ∧
      runItems ((Assoc.sortByKey es).map fun e => (e.1, L.toStream e.2.1 e.2.2.substorage e.2.2)) s =
        some (results, s') ∧
      v' = .dict (items.map fun e => (e.1, (results.lookup e.1).getD e.2)) := by
  obtain ⟨es, hitems, hprops, rfl⟩ := toStreamItems_entries hruns
  obtain ⟨⟨results, s₁⟩, hresults, heq⟩ := Option.map_eq_some_iff.mp h
  obtain ⟨rfl, rfl⟩ := Prod.mk.inj heq
  refine ⟨es, results, hitems, hprops, ?_, rfl⟩
  rw [← Assoc.map_sortByKey] at hresults
  exact hresults

/-- What `runItems` does to the first entry -/
theorem runItems_cons {k : PyStr} {run : Traversal (Value L.Float)}
    {runs : List (PyStr × Traversal (Value L.Float))} {s s' : Stream}
    {results : List (PyStr × Value L.Float)} (h : runItems ((k, run) :: runs) s = some (results, s')) :
    ∃ v s₁ rest, run s = some (v, s₁) ∧ runItems runs s₁ = some (rest, s') ∧
      results = (k, v) :: rest := by
  obtain ⟨⟨v, s₁⟩, hv, hrest⟩ := Option.bind_eq_some_iff.mp h
  obtain ⟨⟨rest, s₂⟩, hruns, heq⟩ := Option.map_eq_some_iff.mp hrest
  obtain ⟨rfl, rfl⟩ := Prod.mk.inj heq
  exact ⟨v, s₁, rest, hv, hruns, rfl⟩

theorem toJsonItems_congr {items items' : List (PyStr × Value F)}
    (h : List.Forall₂ (fun e e' => e'.1 = e.1 ∧ e'.2.toJson = e.2.toJson) items items') :
    toJsonItems items' = toJsonItems items := by
  induction h with
  | nil => rfl
  | cons he _ ih =>
    obtain ⟨hkey, hvalue⟩ := he
    show (Value.toJson _).bind _ = (Value.toJson _).bind _
    rw [hvalue, ih, hkey]

/-! ## §2. Values without NumPy data. -/

/-- Writing leaves the stream and the JSON data. -/
def Leaves (L : Codecs) (v : Value L.Float) (f : Form) : Prop :=
  ∀ s v' s', L.toStream v f.substorage f s = some (v', s') →
    s' = s ∧ v'.toJson = v.toJson ∧ L.Proper v'

theorem toStreamList_leaves {items : List (Value L.Float)} {fs : List Form}
    (h : ∀ v ∈ items, ∀ f ∈ fs, L.Leaves v f) (hproper : L.ProperList items) {s s' : Stream}
    {items' : List (Value L.Float)} (hw : L.toStreamList items fs s = some (items', s')) :
    s' = s ∧ toJsonList items' = toJsonList items ∧ L.ProperList items' := by
  induction items generalizing fs s items' with
  | nil =>
    obtain ⟨rfl, rfl⟩ := Prod.mk.inj (Option.some.inj hw)
    exact ⟨rfl, rfl, hproper⟩
  | cons v vs ih =>
    cases fs with
    | nil =>
      obtain ⟨rfl, rfl⟩ := Prod.mk.inj (Option.some.inj hw)
      exact ⟨rfl, rfl, hproper⟩
    | cons f fs =>
      obtain ⟨⟨v', s₁⟩, hv, hrest⟩ := Option.bind_eq_some_iff.mp hw
      obtain ⟨⟨vs', s₂⟩, hvs, heq⟩ := Option.map_eq_some_iff.mp hrest
      obtain ⟨rfl, rfl⟩ := Prod.mk.inj heq
      obtain ⟨rfl, hjson, hfirst⟩ := h v List.mem_cons_self f List.mem_cons_self _ _ _ hv
      obtain ⟨rfl, hjsons, hothers⟩ := ih (fun w hw g hg =>
        h w (List.mem_cons_of_mem v hw) g (List.mem_cons_of_mem f hg)) hproper.2 hvs
      refine ⟨rfl, ?_, hfirst, hothers⟩
      show v'.toJson.bind _ = v.toJson.bind _
      rw [hjson, hjsons]

theorem runItems_leaves {es : List (PyStr × Value L.Float × Form)}
    (h : ∀ e ∈ es, L.Leaves e.2.1 e.2.2) {s s' : Stream} {results : List (PyStr × Value L.Float)}
    (hw : runItems (es.map fun e => (e.1, L.toStream e.2.1 e.2.2.substorage e.2.2)) s =
      some (results, s')) :
    s' = s ∧ ∀ r ∈ results, ∃ e ∈ es, e.1 = r.1 ∧ r.2.toJson = e.2.1.toJson ∧ L.Proper r.2 := by
  induction es generalizing s results with
  | nil =>
    obtain ⟨rfl, rfl⟩ := Prod.mk.inj (Option.some.inj hw)
    exact ⟨rfl, fun r hr => absurd hr List.not_mem_nil⟩
  | cons e es ih =>
    obtain ⟨v, s₁, rest, hv, hrest, rfl⟩ := runItems_cons hw
    obtain ⟨rfl, hjson, hproper⟩ := h e List.mem_cons_self _ _ _ hv
    obtain ⟨rfl, hresults⟩ := ih (fun d hd => h d (List.mem_cons_of_mem e hd)) hrest
    refine ⟨rfl, fun r hr => ?_⟩
    rcases List.mem_cons.mp hr with rfl | hr
    · exact ⟨e, List.mem_cons_self, rfl, hjson, hproper⟩
    · obtain ⟨d, hd, hkey, hrest⟩ := hresults r hr
      exact ⟨d, List.mem_cons_of_mem e hd, hkey, hrest⟩

theorem list_leaves {items : List (Value L.Float)} {f : Form}
    (ih : ∀ v ∈ items, ∀ g, Form.Plain g → L.Proper v → L.Leaves v g) (hf : f.Plain)
    (hproper : L.ProperList items) {s s' : Stream} {v' : Value L.Float}
    (hw : ((f.itemForms items.length).bind fun fs =>
      (L.toStreamList items fs s).map fun (items, s) => (Value.list items, s)) = some (v', s')) :
    s' = s ∧ v'.toJson = (toJsonList items).map .list ∧ L.Proper v' := by
  obtain ⟨fs, hfs, hlist⟩ := Option.bind_eq_some_iff.mp hw
  obtain ⟨⟨items', s₁⟩, hitems, heq⟩ := Option.map_eq_some_iff.mp hlist
  obtain ⟨rfl, rfl⟩ := Prod.mk.inj heq
  obtain ⟨hs, hjson, hproper'⟩ := toStreamList_leaves (fun v hv g hg =>
    ih v hv g (hf.itemForms hfs g hg) ((properList_iff items).mp hproper v hv)) hproper hitems
  exact ⟨hs, congrArg (Option.map Json.list) hjson, hproper'⟩

/-- Writing a value by the description of one without NumPy data changes nothing. -/
theorem toStream_plain (v : Value L.Float) : ∀ f, Form.Plain f → L.Proper v → L.Leaves v f := by
  induction v using Value.induction with
  | leaf v hleaf =>
    intro f hf hproper s v' s' hw
    rw [hf.substorage] at hw
    cases f with
    | scalar type t =>
      rw [toStream_scalar] at hw
      obtain ⟨rfl, rfl⟩ := Prod.mk.inj (Option.some.inj hw)
      exact ⟨rfl, rfl, hproper⟩
    | _ =>
      cases v with
      | list items => exact hleaf.elim
      | tuple items => exact hleaf.elim
      | dict items => exact hleaf.elim
      | _ => cases hw
  | list items ih =>
    intro f hf hproper s v' s' hw
    rw [hf.substorage] at hw
    cases f with
    | scalar type t =>
      rw [toStream_scalar] at hw
      obtain ⟨rfl, rfl⟩ := Prod.mk.inj (Option.some.inj hw)
      exact ⟨rfl, rfl, hproper⟩
    | _ =>
      rw [toStream_list items (by intro type t h; cases h)] at hw
      exact list_leaves ih hf hproper hw
  | tuple items ih =>
    intro f hf hproper s v' s' hw
    rw [hf.substorage] at hw
    cases f with
    | scalar type t =>
      rw [toStream_scalar] at hw
      obtain ⟨rfl, rfl⟩ := Prod.mk.inj (Option.some.inj hw)
      exact ⟨rfl, rfl, hproper⟩
    | _ =>
      rw [toStream_tuple items (by intro type t h; cases h)] at hw
      exact list_leaves ih hf hproper hw
  | dict items ih =>
    intro f hf hproper s v' s' hw
    rw [hf.substorage] at hw
    cases f with
    | scalar type t =>
      rw [toStream_scalar] at hw
      obtain ⟨rfl, rfl⟩ := Prod.mk.inj (Option.some.inj hw)
      exact ⟨rfl, rfl, hproper⟩
    | object props t =>
      obtain ⟨runs, hruns, hsorted⟩ := Option.bind_eq_some_iff.mp
        (show ((L.toStreamItems items props).bind fun runs => runSorted items runs s) =
          some (v', s') from hw)
      obtain ⟨es, results, hes, hprops, hrun, rfl⟩ := runSorted_entries hruns hsorted
      have hitems := (properItems_iff items).mp hproper.2
      have hmem : ∀ e ∈ es, (e.1, e.2.1) ∈ items := fun e he => by
        rw [← hes]
        exact List.mem_map.mpr ⟨e, he, rfl⟩
      obtain ⟨rfl, hresults⟩ := runItems_leaves (fun e he => by
        have he' := (Assoc.sortByKey_perm es).mem_iff.mp he
        exact ih _ (hmem e he') e.2.2
          ((propertiesPlain_iff props).mp hf.2 _ (Assoc.mem_of_lookup (hprops e he')))
          (hitems _ (hmem e he')).2) hrun
      -- the result of a key is that of its value
      have hsame : ∀ e ∈ items, ((results.lookup e.1).getD e.2).toJson = e.2.toJson ∧
          L.Proper ((results.lookup e.1).getD e.2) := by
        intro e he
        cases hlookup : results.lookup e.1 with
        | none => exact ⟨rfl, (hitems e he).2⟩
        | some w =>
          obtain ⟨d, hd, hkey, hjson, hw⟩ := hresults _ (Assoc.mem_of_lookup hlookup)
          have hvalue : d.2.1 = e.2 := by
            have hd' := hmem d ((Assoc.sortByKey_perm es).mem_iff.mp hd)
            rw [hkey] at hd'
            exact Assoc.eq_of_mem hproper.1 hd' he
          rw [← hvalue]
          exact ⟨hjson, hw⟩
      refine ⟨rfl, ?_, ?_, ?_⟩
      · refine congrArg (Option.map Json.dict) (toJsonItems_congr ?_)
        rw [List.forall₂_map_right_iff, List.forall₂_same]
        exact fun e he => ⟨rfl, (hsame e he).1⟩
      · have hkeys : Assoc.keys (items.map fun e => (e.1, (results.lookup e.1).getD e.2)) =
            Assoc.keys items := by
          unfold Assoc.keys
          rw [List.map_map]
          rfl
        rw [hkeys]
        exact hproper.1
      · rw [properItems_iff]
        intro r hr
        obtain ⟨e, he, rfl⟩ := List.mem_map.mp hr
        exact ⟨(hitems e he).1, (hsame e he).2⟩
    | _ => cases hw

/-! ## §3. Reading a part undoes writing it. -/

def jsonOffsets (ns : List Nat) : List (Json F) := ns.map fun n : Nat => .int (n : Int)

/-- The ends of the first pieces come first. -/
theorem jsonOffsets_append {s : Stream} (pieces pieces' : List Bytes) (rest : List (Json F)) :
    jsonOffsets (s.offset :: marks s.offset (pieces ++ pieces')) ++ rest =
      jsonOffsets (s.offset :: marks s.offset pieces) ++
        (jsonOffsets (marks (s.after pieces).offset pieces') ++ rest) := by
  unfold jsonOffsets
  rw [marks_append, ← List.cons_append, List.map_append, List.append_assoc]
  rfl

/-- After a part was written, the reader puts it where its JSON data is. -/
def Reads (L : Codecs) (v : Value L.Float) (f : Form) : Prop :=
  ∀ s v' s', L.toStream v f.substorage f s = some (v', s') → s.offset ≤ s.buffer.length →
    L.Proper v' ∧ ∃ pieces, s' = s.after pieces ∧ s.Fits pieces ∧
      ∀ j pre post parent sub rest queue, v'.toJson = some j → pre.length = s.offset →
        getItem parent sub = some (.ofJson j) → setItem parent sub (.ofJson j) = some parent →
        (describe (pre ++ pieces.flatten ++ post) f.json).item parent sub
            ⟨jsonOffsets (s.offset :: marks s.offset pieces) ++ rest, queue⟩ =
          (setItem parent sub (L.readBack v)).map fun parent =>
            (parent, ⟨jsonOffsets [(s.after pieces).offset] ++ rest, queue⟩)

/-- The same for the whole of a list or dict, whose JSON data is there. -/
def ReadsPlain (L : Codecs) (v : Value L.Float) (f : Form) : Prop :=
  ∀ s v' s', L.toStream v .mixedPlain f s = some (v', s') → s.offset ≤ s.buffer.length →
    L.Proper v' ∧ ∃ pieces, s' = s.after pieces ∧ s.Fits pieces ∧
      ∀ j pre post rest queue entries, v'.toJson = some j → pre.length = s.offset →
        f.json = .dict entries →
        (.ofJson j : Value L.Float) ≠ .none ∧
        fromStreamPlain entries (describeEntries (pre ++ pieces.flatten ++ post) entries) (.ofJson j)
            ⟨jsonOffsets (s.offset :: marks s.offset pieces) ++ rest, queue⟩ =
          some (L.readBack v, ⟨jsonOffsets [(s.after pieces).offset] ++ rest, queue⟩)

/-- A description without a storage is passed over. -/
theorem item_plain {f : Form} (hf : f.Plain) (buffer : Bytes) (parent : Value F) (sub : Sub)
    (s : ReadState F) : (describe buffer f.json).item parent sub s = some (parent, s) := by
  cases f with
  | generic _ _ => exact hf.elim
  | ndarray _ _ _ _ => exact hf.elim
  | scalar type t =>
    obtain rfl : t = none := hf
    rfl
  | emptyList t =>
    obtain rfl : t = none := hf
    rfl
  | identicalList g n t =>
    obtain rfl : t = none := hf.1
    rfl
  | variedList fs t =>
    obtain rfl : t = none := hf.1
    rfl
  | object props t =>
    obtain rfl : t = none := hf.1
    cases props <;> rfl

/-- A value without NumPy data -/
theorem reads_plain {v : Value L.Float} {f : Form} (hf : f.Plain) (hv : L.Proper v) :
    L.Reads v f := by
  intro s v' s' hw _
  obtain ⟨rfl, hjson, hproper⟩ := toStream_plain v f hf hv s v' s' hw
  refine ⟨hproper, [], (after_nil s').symm, ?_, ?_⟩
  · unfold Stream.Fits
    simpa
  · intro j pre post parent sub rest queue hj _ _ hset
    rw [item_plain hf, ← ofJson_toJson v j (hjson ▸ hj), hset, after_nil]
    rfl

/-- A piece is put in its place. -/
theorem item_piece {entries : List (PyStr × Json F)} {parts : List (PyStr × Description F)}
    {form : Json F} {shape : Option (List Nat)} {d : DType} {data pre post : Bytes} {w : Value F}
    (hstorage : entries.lookup (py "storage") = some (.str (py "pure-binary")))
    (hpiece : pieceForm entries = some (form, shape))
    (hform : formToDtype form (py "pure-binary") = some d)
    (hlength : data.length = d.itemsize * (shape.getD [1]).prod) (hfill : fill d shape data = some w)
    (parent : Value F) (sub : Sub) (rest queue : List (Json F)) :
    fromStreamSub (pre ++ data ++ post) entries parts parent sub
        ⟨jsonOffsets [pre.length, pre.length + data.length] ++ rest, queue⟩ =
      (setItem parent sub w).map fun parent =>
        (parent, ⟨jsonOffsets [pre.length + data.length] ++ rest, queue⟩) := by
  have hload := @loadFromBuffer_piece F form d shape data pre post hform hlength
  have hbinary : ¬(py "plain").isSuffixOf (py "pure-binary") = true := by decide
  have hpure : (py "pure").isPrefixOf (py "pure-binary") = true := by decide
  unfold fromStreamSub storageOr
  rw [hstorage]
  dsimp only [Option.bind_some]
  rw [if_neg hbinary, hpiece]
  show (loadFromBuffer (pre ++ data ++ post) (py "pure-binary") form pre.length
    (pre.length + data.length : Nat) shape).bind _ = _
  rw [hload, hfill]
  show (setItem parent sub w).bind _ = _
  cases setItem parent sub w with
  | none => rfl
  | some parent =>
    show (if (py "pure").isPrefixOf (py "pure-binary") = true then some (parent, _) else none) = _
    rw [if_pos hpure]
    rfl

/-- NumPy data -/
theorem reads_piece {v : Value L.Float} {f : Form} {entries : List (PyStr × Json L.Float)}
    {form : Json L.Float} {shape : Option (List Nat)} {d : DType} {data : Bytes}
    (hdata : L.numpyData v = some (d, data)) (hnoted : f.storage = some .pureBinary)
    (hjson : f.json = .dict entries)
    (hstorage : entries.lookup (py "storage") = some (.str (py "pure-binary")))
    (hpiece : pieceForm entries = some (form, shape))
    (hform : formToDtype form (py "pure-binary") = some d)
    (hlength : data.length = d.itemsize * (shape.getD [1]).prod)
    (hfill : fill d shape data = some (L.readBack v)) : L.Reads v f := by
  intro s v' s' hw _
  have hsub : f.substorage = .pureBinary := by
    unfold Form.substorage
    rw [hnoted]
    rfl
  have hwrite : ((s.write data).map fun s => ((.int 0 : Value L.Float), s)) = some (v', s') := by
    rw [← hw, hsub]
    show _ = L.toStream v .pureBinary f s
    have hpure : L.toStream v .pureBinary f s =
        (L.numpyData v).bind fun d => (s.write d.2).map fun s => (.int 0, s) := by
      cases v <;> rfl
    rw [hpure, hdata]
    rfl
  obtain ⟨s₁, hs₁, heq⟩ := Option.map_eq_some_iff.mp hwrite
  obtain ⟨rfl, rfl⟩ := Prod.mk.inj heq
  obtain ⟨rfl, hfits⟩ := write_after hs₁
  refine ⟨trivial, [data], rfl, hfits, ?_⟩
  intro j pre post parent sub rest queue _ hpre _ _
  rw [hjson, List.flatten_singleton]
  have hmarks : s.offset :: marks s.offset [data] = [pre.length, pre.length + data.length] := by
    rw [hpre]
    rfl
  have hend : (s.after [data]).offset = pre.length + data.length := by
    show s.offset + [data].flatten.length = _
    rw [hpre, List.flatten_singleton]
  rw [hmarks, hend]
  exact item_piece hstorage hpiece hform hlength hfill parent sub rest queue

theorem lookup_noted (entries : List (PyStr × Json F)) (s : Storage)
    (hfree : py "storage" ∉ Assoc.keys entries) :
    (entries ++ storageItem (some s)).lookup (py "storage") = some (.str (storageName s)) := by
  rw [List.lookup_append]
  have hnone : entries.lookup (py "storage") = none := by
    rw [List.lookup_eq_none_iff]
    intro e he
    have hne : py "storage" ≠ e.1 := fun heq => hfree (List.mem_map.mpr ⟨e, he, heq.symm⟩)
    simpa using hne
  rw [hnone]
  simp [storageItem]

/-- An array -/
theorem reads_array {v : Value L.Float} {a : NdArray} {items : TForm}
    (hdata : L.numpyData v = some (a.dtype, a.data)) (hread : L.readBack v = a.readBack)
    (hitems : getTformNumpy a.dtype = some items) (ha : a.dtype.Known) :
    L.Reads v (.ndarray items a.shape a.strides (some .pureBinary)) := by
  have hentries := ndarray_proper a.shape a.strides (@items_tform_proper L.Float _ _ hitems ha)
  have hform : formToDtype (.dict items.items : Json L.Float) (py "pure-binary") = some a.dtype := by
    have h := @formToDtype_items L.Float items a.dtype (toDtype_getTformNumpy _ hitems ha) ha none
    rwa [show (storageItem none : List (PyStr × Json L.Float)) = [] from rfl, List.append_nil] at h
  refine reads_piece hdata rfl rfl (lookup_noted _ .pureBinary hentries.free)
    (pieceForm_ndarray items a.shape a.strides (some .pureBinary)) hform a.length_eq ?_
  rw [hread]
  exact fill_array ha

/-- A NumPy scalar -/
theorem reads_generic {g : Generic} {item : TForm} (hitem : getTformNumpy g.dtype = some item)
    (hg : g.dtype.Known) : L.Reads (.generic g) (.generic item (some .pureBinary)) := by
  have hentries := @items_tform_proper L.Float _ _ hitem hg
  have htype := toDtype_getTformNumpy _ hitem hg
  refine reads_piece rfl rfl rfl (lookup_noted _ .pureBinary hentries.free)
    (pieceForm_generic htype (some .pureBinary)) (formToDtype_items htype hg (some .pureBinary))
    ?_ (fill_generic hg)
  rw [g.length_eq]
  simp

/-- Whether a part can be set does not depend on what it is set to. -/
theorem setItem_some {parent p data : Value F} {sub : Sub} (h : setItem parent sub data = some p)
    (data' : Value F) : ∃ p', setItem parent sub data' = some p' := by
  cases parent with
  | dict items =>
    cases sub with
    | key k => exact ⟨.dict (Assoc.set items k data'), rfl⟩
    | index n => cases h
  | list items =>
    cases sub with
    | key k => cases h
    | index n =>
      have hset : (if n < items.length then some (Value.list (items.set n data)) else none) =
        some p := h
      split at hset
      next hn => exact ⟨.list (items.set n data'), if_pos hn⟩
      next => cases hset
  | _ => cases h

/-- A list or dict with NumPy data inside, as a part -/
theorem reads_mixed {v : Value L.Float} {f : Form} {entries : List (PyStr × Json L.Float)}
    (hnoted : f.storage = some .mixedPlain) (hjson : f.json = .dict entries)
    (hstorage : entries.lookup (py "storage") = some (.str (py "mixed-plain")))
    (h : L.ReadsPlain v f) : L.Reads v f := by
  intro s v' s' hw hroom
  have hsub : f.substorage = .mixedPlain := by
    unfold Form.substorage
    rw [hnoted]
    rfl
  rw [hsub] at hw
  obtain ⟨hproper, pieces, hafter, hfits, hread⟩ := h s v' s' hw hroom
  refine ⟨hproper, pieces, hafter, hfits, ?_⟩
  intro j pre post parent sub rest queue hj hpre hget hset
  obtain ⟨hnone, hplain⟩ := hread j pre post rest queue entries hj hpre hjson
  obtain ⟨parent', hset'⟩ := setItem_some hset (L.readBack v)
  have hsuffix : (py "plain").isSuffixOf (py "mixed-plain") = true := by decide
  have hnotpure : ¬(py "pure").isPrefixOf (py "mixed-plain") = true := by decide
  rw [hjson]
  show fromStreamSub _ entries (describeEntries _ entries) parent sub _ = _
  unfold fromStreamSub storageOr
  rw [hstorage]
  dsimp only [Option.bind_some]
  rw [if_pos hsuffix, if_neg hnotpure, if_pos rfl, hget]
  dsimp only [Option.bind_some]
  rw [hplain, hset']
  show some (putBack parent sub (.ofJson j) (L.readBack v), _) = some (parent', _)
  have hput : putBack parent sub (.ofJson j) (L.readBack v) = parent' := by
    unfold putBack
    split
    next heq => exact absurd heq hnone
    next => rw [hset', Option.getD_some]
  rw [hput]

/-! ## §4. Lists. -/

theorem room_after {s : Stream} {pieces : List Bytes} (h : s.Fits pieces) :
    (s.after pieces).offset ≤ (s.after pieces).buffer.length := by
  have hnil := (fits_append h).mpr (show s.Fits (pieces ++ []) by rwa [List.append_nil])
  unfold Stream.Fits at hnil
  rwa [List.flatten_nil, List.length_nil, Nat.add_zero] at hnil

theorem flatten_split (pre post : Bytes) (pieces pieces' : List Bytes) :
    pre ++ (pieces ++ pieces').flatten ++ post =
      pre ++ pieces.flatten ++ (pieces'.flatten ++ post) := by
  rw [List.flatten_append]
  simp only [List.append_assoc]

/-- The readers of the items from the `n`-th on -/
def itemReaders (buffer : Bytes) (fs : List Form) (n : Nat) : List (Sub × SubReader F) :=
  ((fs.map fun f => (describe buffer f.json).item).zipIdx n).map fun e => (.index e.2, e.1)

/-- The items of a list are read one after the other, as they were written. -/
theorem reads_items {items : List (Value L.Float)} {fs : List Form}
    (h : List.Forall₂ L.Reads items fs) : ∀ {s s' : Stream} {items' : List (Value L.Float)},
    L.toStreamList items fs s = some (items', s') → s.offset ≤ s.buffer.length →
    L.ProperList items' ∧ items'.length = items.length ∧
    ∃ pieces, s' = s.after pieces ∧ s.Fits pieces ∧
      ∀ js pre post done rest queue, toJsonList items' = some js → pre.length = s.offset →
        runReaders (itemReaders (pre ++ pieces.flatten ++ post) fs done.length)
            (.list (done ++ ofJsonList js))
            ⟨jsonOffsets (s.offset :: marks s.offset pieces) ++ rest, queue⟩ =
          some (.list (done ++ L.readBackList items),
            ⟨jsonOffsets [(s.after pieces).offset] ++ rest, queue⟩) := by
  induction h with
  | nil =>
    intro s s' items' hw hroom
    obtain ⟨rfl, rfl⟩ := Prod.mk.inj (Option.some.inj hw)
    refine ⟨trivial, rfl, [], (after_nil _).symm, ?_, ?_⟩
    · unfold Stream.Fits
      simpa
    · intro js pre post done rest queue hjs _
      obtain rfl := Option.some.inj hjs
      rw [after_nil]
      rfl
  | @cons v f items fs hfirst hrest ih =>
    intro s s' items' hw hroom
    obtain ⟨⟨v', s₁⟩, hv, hmap⟩ := Option.bind_eq_some_iff.mp hw
    obtain ⟨⟨vs', s₂⟩, hvs, heq⟩ := Option.map_eq_some_iff.mp hmap
    obtain ⟨rfl, rfl⟩ := Prod.mk.inj heq
    obtain ⟨hproper, pieces, rfl, hfits, hread⟩ := hfirst s v' s₁ hv hroom
    obtain ⟨hpropers, hlength, pieces', rfl, hfits', hreads⟩ := ih hvs (room_after hfits)
    refine ⟨⟨hproper, hpropers⟩, by rw [List.length_cons, List.length_cons, hlength],
      pieces ++ pieces', after_append hfits pieces', (fits_append hfits).mp hfits', ?_⟩
    intro js pre post done rest queue hjs hpre
    obtain ⟨j, hj, hmapj⟩ := Option.bind_eq_some_iff.mp hjs
    obtain ⟨js', hjs', rfl⟩ := Option.map_eq_some_iff.mp hmapj
    -- the first item is in its place
    have hset : ∀ w : Value L.Float, setItem (.list (done ++ .ofJson j :: ofJsonList js'))
        (.index done.length) w = some (.list (done ++ w :: ofJsonList js')) := by
      intro w
      show (if done.length < (done ++ .ofJson j :: ofJsonList js').length then _ else _) = _
      rw [if_pos (by rw [List.length_append, List.length_cons]; omega), List.set_append_right _ _
        le_rfl, Nat.sub_self]
      rfl
    have hget : getItem (.list (done ++ .ofJson j :: ofJsonList js')) (.index done.length) =
        some (.ofJson j) := by
      show (done ++ .ofJson j :: ofJsonList js')[done.length]? = _
      rw [List.getElem?_append_right le_rfl, Nat.sub_self]
      rfl
    have hone := hread j pre (pieces'.flatten ++ post) _ (.index done.length)
      (jsonOffsets (marks (s.after pieces).offset pieces') ++ rest) queue hj hpre hget (hset _)
    have hpre' : (pre ++ pieces.flatten).length = (s.after pieces).offset := by
      rw [List.length_append, hpre]
      rfl
    have hothers := hreads js' (pre ++ pieces.flatten) post (done ++ [L.readBack v]) rest queue hjs'
      hpre'
    rw [List.length_append, List.length_singleton, List.append_assoc done, List.append_assoc done,
      after_append hfits] at hothers
    rw [jsonOffsets_append, flatten_split]
    show ((describe _ f.json).item (.list (done ++ .ofJson j :: ofJsonList js')) (.index done.length)
      _).bind (fun r => runReaders (itemReaders _ fs (done.length + 1)) r.1 r.2) = _
    rw [hone, hset]
    dsimp only [Option.map_some, Option.bind_some]
    rw [← List.append_assoc (pre ++ pieces.flatten)]
    exact hothers

/-! ## §5. Dicts. -/

/-- The values of a dict are read in the order of their keys, as they were written. -/
theorem reads_entries {es : List (PyStr × Value L.Float × Form)}
    (h : ∀ e ∈ es, L.Reads e.2.1 e.2.2) (hnodup : (Assoc.keys es).Nodup) :
    ∀ {s s' : Stream} {results : List (PyStr × Value L.Float)},
    runItems (es.map fun e => (e.1, L.toStream e.2.1 e.2.2.substorage e.2.2)) s =
      some (results, s') → s.offset ≤ s.buffer.length →
    Assoc.keys results = Assoc.keys es ∧ (∀ r ∈ results, L.Proper r.2) ∧
    ∃ pieces, s' = s.after pieces ∧ s.Fits pieces ∧
      ∀ (data : List (PyStr × Value L.Float)) pre post rest queue, (Assoc.keys data).Nodup →
        (∀ r ∈ results, ∃ j, r.2.toJson = some j ∧ data.lookup r.1 = some (.ofJson j)) →
        pre.length = s.offset →
        runReaders (es.map fun e =>
              (.key e.1, (describe (pre ++ pieces.flatten ++ post) e.2.2.json).item))
            (.dict data) ⟨jsonOffsets (s.offset :: marks s.offset pieces) ++ rest, queue⟩ =
          some (.dict ((es.map fun e => (e.1, L.readBack e.2.1)).foldl
              (fun data u => Assoc.set data u.1 u.2) data),
            ⟨jsonOffsets [(s.after pieces).offset] ++ rest, queue⟩) := by
  induction es with
  | nil =>
    intro s s' results hw hroom
    obtain ⟨rfl, rfl⟩ := Prod.mk.inj (Option.some.inj hw)
    refine ⟨rfl, fun r hr => absurd hr List.not_mem_nil, [], (after_nil _).symm, ?_, ?_⟩
    · unfold Stream.Fits
      simpa
    · intro data pre post rest queue _ _ _
      rw [after_nil]
      rfl
  | cons e es ih =>
    intro s s' results hw hroom
    obtain ⟨v', s₁, results', hv, hrun, rfl⟩ := runItems_cons hw
    obtain ⟨hkey, hkeys⟩ := List.nodup_cons.mp hnodup
    obtain ⟨hproper, pieces, rfl, hfits, hread⟩ := h e List.mem_cons_self s v' s₁ hv hroom
    obtain ⟨hresults, hpropers, pieces', rfl, hfits', hreads⟩ :=
      ih (fun d hd => h d (List.mem_cons_of_mem e hd)) hkeys hrun (room_after hfits)
    refine ⟨congrArg (e.1 :: ·) hresults, List.forall_mem_cons.mpr ⟨hproper, hpropers⟩,
      pieces ++ pieces', after_append hfits pieces', (fits_append hfits).mp hfits', ?_⟩
    intro data pre post rest queue hdata hlookup hpre
    obtain ⟨⟨j, hj, hfirst⟩, hothers⟩ := List.forall_mem_cons.mp hlookup
    have hmem : e.1 ∈ Assoc.keys data :=
      List.mem_map.mpr ⟨_, Assoc.mem_of_lookup hfirst, rfl⟩
    have hset : setItem (.dict data) (.key e.1) (.ofJson j) = some (.dict data) :=
      congrArg (fun l => some (Value.dict l)) (Assoc.set_self hdata (Assoc.mem_of_lookup hfirst))
    have hone := hread j pre (pieces'.flatten ++ post) (.dict data) (.key e.1)
      (jsonOffsets (marks (s.after pieces).offset pieces') ++ rest) queue hj hpre hfirst hset
    have hpre' : (pre ++ pieces.flatten).length = (s.after pieces).offset := by
      rw [List.length_append, hpre]
      rfl
    -- the other keys still have their JSON data
    have hlater : ∀ r ∈ results', ∃ j, r.2.toJson = some j ∧
        (Assoc.set data e.1 (L.readBack e.2.1)).lookup r.1 = some (.ofJson j) := by
      intro r hr
      obtain ⟨j', hj', hlook⟩ := hothers r hr
      have hne : r.1 ≠ e.1 := by
        intro heq
        refine hkey ?_
        show e.1 ∈ Assoc.keys es
        rw [← hresults, ← heq]
        exact List.mem_map_of_mem hr
      exact ⟨j', hj', by rw [Assoc.lookup_set_ne _ _ hne, hlook]⟩
    have hrest := hreads (Assoc.set data e.1 (L.readBack e.2.1)) (pre ++ pieces.flatten) post rest
      queue (by rw [Assoc.keys_set hmem]; exact hdata) hlater hpre'
    rw [after_append hfits] at hrest
    rw [jsonOffsets_append, flatten_split]
    show ((describe _ e.2.2.json).item (.dict data) (.key e.1) _).bind
      (fun r => runReaders (es.map fun e => (.key e.1, (describe _ e.2.2.json).item)) r.1 r.2) = _
    rw [hone]
    show runReaders _ (.dict (Assoc.set data e.1 (L.readBack e.2.1))) _ = _
    rw [← List.append_assoc (pre ++ pieces.flatten)]
    exact hrest

/-! ## §6. The readers of a list or dict. -/

theorem describeList_forms (buffer : Bytes) (fs : List Form) :
    describeList buffer (jsonForms fs : List (Json F)) = fs.map fun f => describe buffer f.json := by
  induction fs with
  | nil => rfl
  | cons f fs ih =>
    show describe buffer f.json :: describeList buffer (jsonForms fs) = _
    rw [ih]
    rfl

theorem subReaders_identical (buffer : Bytes) (f : Form) (n : Nat) (s : Option Storage) :
    subReaders (listItems f.json true n ++ storageItem s : List (PyStr × Json F))
        (describeEntries buffer (listItems f.json true n ++ storageItem s)) =
      some (itemReaders buffer (List.replicate n f) 0) := by
  have hreaders : listReaders (listItems f.json true n ++ storageItem s : List (PyStr × Json F))
      (describeEntries buffer (listItems f.json true n ++ storageItem s)) n =
        some (List.replicate n (describe buffer f.json).item) := by
    cases n <;> rfl
  unfold subReaders
  rw [show typeOf (listItems f.json true n ++ storageItem s : List (PyStr × Json F)) = some .array
    from rfl]
  show (listReaders _ _ n).map _ = _
  rw [hreaders]
  unfold itemReaders
  rw [List.map_replicate]
  rfl

theorem subReaders_varied (buffer : Bytes) (fs : List Form) (s : Option Storage) :
    subReaders (listItems (.list (jsonForms fs)) false fs.length ++ storageItem s :
          List (PyStr × Json F))
        (describeEntries buffer (listItems (.list (jsonForms fs)) false fs.length ++ storageItem s)) =
      some (itemReaders buffer fs 0) := by
  have hitems : (describeList buffer (jsonForms fs : List (Json F))).map Description.item =
      fs.map fun f => (describe buffer f.json).item := by
    rw [describeList_forms, List.map_map]
    rfl
  have hreaders : listReaders
      (listItems (.list (jsonForms fs)) false fs.length ++ storageItem s : List (PyStr × Json F))
      (describeEntries buffer (listItems (.list (jsonForms fs)) false fs.length ++ storageItem s))
      fs.length = some (fs.map fun f => (describe buffer f.json).item) := by
    cases fs with
    | nil => rfl
    | cons f fs =>
      show (if (f :: fs).length ≤ _ then _ else none) = _
      rw [hitems, List.length_map, if_pos le_rfl, List.take_of_length_le (by rw [List.length_map])]
  unfold subReaders
  rw [show typeOf (listItems (.list (jsonForms fs)) false fs.length ++ storageItem s :
    List (PyStr × Json F)) = some .array from rfl]
  show (listReaders _ _ fs.length).map _ = _
  rw [hreaders]
  rfl

/-- The entries of the description of a dict with entries -/
def objectItems (props : List (PyStr × Form)) : List (PyStr × Json F) :=
  [(py "type", .str (py "object")), (py "properties", .dict (jsonProperties props))]

theorem subReaders_object (buffer : Bytes) (props : List (PyStr × Form)) (s : Option Storage) :
    subReaders (objectItems props ++ storageItem s : List (PyStr × Json F))
        (describeEntries buffer (objectItems props ++ storageItem s)) =
      some ((Assoc.sortByKey props).map fun e => (.key e.1, (describe buffer e.2.json).item)) := by
  have hprops : (describeEntries buffer (jsonProperties props : List (PyStr × Json F))).map
      (fun part => (part.1, part.2.item)) =
        Assoc.mapValues (fun f => (describe buffer f.json).item) props := by
    induction props with
    | nil => rfl
    | cons e props ih => exact congrArg ((e.1, (describe buffer e.2.json).item) :: ·) ih
  unfold subReaders
  rw [show typeOf (objectItems props ++ storageItem s : List (PyStr × Json F)) = some .object
    from rfl]
  show some ((Assoc.sortByKey ((describeEntries buffer (jsonProperties props)).map
    fun part => (part.1, part.2.item))).map fun e => (Sub.key e.1, e.2)) = _
  rw [hprops, ← Assoc.map_sortByKey]
  unfold Assoc.mapValues
  rw [List.map_map]
  rfl

/-! ## §7. Lists and dicts with NumPy data inside. -/

/-- A list, from its items -/
theorem readsPlain_items {v : Value L.Float} {items : List (Value L.Float)} {f : Form}
    {fs : List Form} {entries : List (PyStr × Json L.Float)}
    (hstream : ∀ s, L.toStream v .mixedPlain f s =
      (L.toStreamList items fs s).map fun r => (.list r.1, r.2))
    (hread : L.readBack v = .list (L.readBackList items)) (hjson : f.json = .dict entries)
    (hreaders : ∀ buffer, subReaders entries (describeEntries buffer entries) =
      some (itemReaders buffer fs 0))
    (h : List.Forall₂ L.Reads items fs) : L.ReadsPlain v f := by
  intro s v' s' hw hroom
  rw [hstream] at hw
  obtain ⟨⟨items', s₁⟩, hitems, heq⟩ := Option.map_eq_some_iff.mp hw
  obtain ⟨rfl, rfl⟩ := Prod.mk.inj heq
  obtain ⟨hproper, -, pieces, hafter, hfits, hreads⟩ := reads_items h hitems hroom
  refine ⟨hproper, pieces, hafter, hfits, ?_⟩
  intro j pre post rest queue entries' hj hpre hentries
  obtain rfl : entries = entries' := Json.dict.inj (hjson.symm.trans hentries)
  obtain ⟨js, hjs, rfl⟩ := Option.map_eq_some_iff.mp hj
  have hnone : (.list (ofJsonList js) : Value L.Float) ≠ .none := by
    intro heq
    cases heq
  refine ⟨hnone, ?_⟩
  have hrun := hreads js pre post [] rest queue hjs hpre
  show (subReaders entries _).bind (fun readers => runReaders readers (.list (ofJsonList js)) _) = _
  rw [hreaders, hread]
  exact hrun

/-- An entry of a dict in its JSON data -/
theorem toJsonItems_lookup {items : List (PyStr × Value F)} {js : List (PyStr × Json F)}
    (h : toJsonItems items = some js) {k : PyStr} {v : Value F} (hv : items.lookup k = some v) :
    ∃ j, v.toJson = some j ∧ (ofJsonItems js).lookup k = some (.ofJson j) := by
  induction items generalizing js with
  | nil => cases hv
  | cons e items ih =>
    obtain ⟨j, hj, hmap⟩ := Option.bind_eq_some_iff.mp h
    obtain ⟨js', hjs, rfl⟩ := Option.map_eq_some_iff.mp hmap
    rw [List.lookup_cons] at hv
    show ∃ j', v.toJson = some j' ∧ ((e.1, Value.ofJson j) :: ofJsonItems js').lookup k = _
    rw [List.lookup_cons]
    cases hk : k == e.1 with
    | true =>
      rw [hk] at hv
      obtain rfl := Option.some.inj hv
      exact ⟨j, hj, rfl⟩
    | false =>
      rw [hk] at hv
      exact ih hjs hv

theorem keys_ofJsonItems (js : List (PyStr × Json F)) :
    Assoc.keys (ofJsonItems js) = Assoc.keys js := by
  induction js with
  | nil => rfl
  | cons e js ih => exact congrArg (e.1 :: ·) ih

/-- The entries of a dict and the properties of its description are the same, in some order. -/
theorem properties_perm {es : List (PyStr × Value L.Float × Form)} {props : List (PyStr × Form)}
    (hkeys : (Assoc.keys es).Nodup) (hlength : props.length = es.length)
    (hprops : ∀ e ∈ es, props.lookup e.1 = some e.2.2) :
    (Assoc.mapValues Prod.snd es).Perm props := by
  have hnodup : (Assoc.mapValues Prod.snd es).Nodup := by
    refine List.Nodup.of_map Prod.fst ?_
    show (Assoc.keys (Assoc.mapValues Prod.snd es)).Nodup
    rwa [Assoc.keys_mapValues]
  have hsubset : Assoc.mapValues Prod.snd es ⊆ props := by
    intro p hp
    obtain ⟨e, he, rfl⟩ := List.mem_map.mp hp
    exact Assoc.mem_of_lookup (hprops e he)
  refine (List.subperm_of_subset hnodup hsubset).perm_of_length_le ?_
  show props.length ≤ (es.map _).length
  rw [List.length_map, hlength]

/-- A dict, from its values -/
theorem readsPlain_dict {items : List (PyStr × Value L.Float)} {props : List (PyStr × Form)}
    {t : Option Storage} {entries : List (PyStr × Json L.Float)}
    (hproper : L.Proper (.dict items)) (hlength : props.length = items.length)
    (hjson : (Form.object props t).json = .dict entries)
    (hreaders : ∀ buffer, subReaders entries (describeEntries buffer entries) =
      some ((Assoc.sortByKey props).map fun e => (.key e.1, (describe buffer e.2.json).item)))
    (h : ∀ e ∈ items, ∀ f, props.lookup e.1 = some f → L.Reads e.2 f) :
    L.ReadsPlain (.dict items) (.object props t) := by
  intro s v' s' hw hroom
  obtain ⟨runs, hruns, hsorted⟩ := Option.bind_eq_some_iff.mp
    (show ((L.toStreamItems items props).bind fun runs => runSorted items runs s) =
      some (v', s') from hw)
  obtain ⟨es, results, hes, hlookup, hrun, rfl⟩ := runSorted_entries hruns hsorted
  have hkeys : Assoc.keys es = Assoc.keys items := by rw [← hes, Assoc.keys_mapValues]
  have hnodup : (Assoc.keys es).Nodup := hkeys ▸ hproper.1
  have hmem : ∀ e ∈ es, (e.1, e.2.1) ∈ items := fun e he => by
    rw [← hes]
    exact List.mem_map.mpr ⟨e, he, rfl⟩
  have hsort : ∀ e, e ∈ Assoc.sortByKey es ↔ e ∈ es := fun e => (Assoc.sortByKey_perm es).mem_iff
  obtain ⟨hresults, hpropers, pieces, hafter, hfits, hreads⟩ := reads_entries
    (fun e he => h _ (hmem e ((hsort e).mp he)) _ (hlookup e ((hsort e).mp he)))
    (Assoc.nodup_keys_sortByKey.mpr hnodup) hrun hroom
  have hitems := (properItems_iff items).mp hproper.2
  have hnodupResults : (Assoc.keys results).Nodup :=
    hresults ▸ Assoc.nodup_keys_sortByKey.mpr hnodup
  -- every value of the dict was written
  have hfound : ∀ e ∈ items, ∃ w, results.lookup e.1 = some w := by
    intro e he
    have hkey : e.1 ∈ Assoc.keys results := by
      rw [hresults, (Assoc.keys_perm (Assoc.sortByKey_perm es)).mem_iff, hkeys]
      exact List.mem_map_of_mem he
    obtain ⟨r, hr, hfst⟩ := List.mem_map.mp hkey
    exact ⟨r.2, Assoc.lookup_of_mem hnodupResults (hfst ▸ hr)⟩
  have hwrittenKeys : Assoc.keys (items.map fun e => (e.1, (results.lookup e.1).getD e.2)) =
      Assoc.keys items := by
    unfold Assoc.keys
    rw [List.map_map]
    rfl
  refine ⟨⟨?_, ?_⟩, pieces, hafter, hfits, ?_⟩
  · rw [hwrittenKeys]
    exact hproper.1
  · rw [properItems_iff]
    intro r hr
    obtain ⟨e, he, rfl⟩ := List.mem_map.mp hr
    obtain ⟨w, hw'⟩ := hfound e he
    refine ⟨(hitems e he).1, ?_⟩
    show L.Proper ((results.lookup e.1).getD e.2)
    rw [hw']
    exact hpropers _ (Assoc.mem_of_lookup hw')
  · intro j pre post rest queue entries' hj hpre hentries
    obtain rfl : entries = entries' := Json.dict.inj (hjson.symm.trans hentries)
    obtain ⟨js, hjs, rfl⟩ := Option.map_eq_some_iff.mp hj
    have hnone : (.dict (ofJsonItems js) : Value L.Float) ≠ .none := by
      intro heq
      cases heq
    refine ⟨hnone, ?_⟩
    have hdataKeys : Assoc.keys (ofJsonItems js) = Assoc.keys items := by
      rw [keys_ofJsonItems, keys_toJsonItems hjs, hwrittenKeys]
    have hdata : (Assoc.keys (ofJsonItems js : List (PyStr × Value L.Float))).Nodup :=
      hdataKeys ▸ hproper.1
    -- every value is in the JSON data
    have hstart : ∀ r ∈ results, ∃ j, r.2.toJson = some j ∧
        (ofJsonItems js : List (PyStr × Value L.Float)).lookup r.1 = some (.ofJson j) := by
      intro r hr
      refine toJsonItems_lookup hjs ?_
      have hkey : r.1 ∈ Assoc.keys items := by
        rw [← hkeys, ← (Assoc.keys_perm (Assoc.sortByKey_perm es)).mem_iff, ← hresults]
        exact List.mem_map_of_mem hr
      obtain ⟨e, he, hfst⟩ := List.mem_map.mp hkey
      refine Assoc.lookup_of_mem (hwrittenKeys ▸ hproper.1) (List.mem_map.mpr ⟨e, he, ?_⟩)
      rw [hfst, Assoc.lookup_of_mem hnodupResults hr]
      rfl
    have hrun := hreads (ofJsonItems js) pre post rest queue hdata hstart hpre
    have horder : Assoc.sortByKey props = Assoc.mapValues Prod.snd (Assoc.sortByKey es) := by
      have hperm := properties_perm hnodup
        (by rw [hlength, ← hes]; exact List.length_map _) hlookup
      rw [Assoc.map_sortByKey]
      exact (Assoc.sortByKey_eq_of_perm (by rwa [Assoc.keys_mapValues]) hperm).symm
    -- what was set is the dict as it is read back
    have hset : ((Assoc.sortByKey es).map fun e => (e.1, L.readBack e.2.1)).foldl
        (fun data u => Assoc.set data u.1 u.2) (ofJsonItems js) = L.readBackItems items := by
      have hus : Assoc.keys ((Assoc.sortByKey es).map fun e => (e.1, L.readBack e.2.1)) =
          Assoc.keys (Assoc.sortByKey es) := by
        unfold Assoc.keys
        rw [List.map_map]
        rfl
      have husNodup := hus ▸ Assoc.nodup_keys_sortByKey.mpr hnodup
      rw [Assoc.foldl_set _ _ husNodup, readBackItems_eq]
      · refine Assoc.map_lookup L.readBack hdataKeys fun e he => ?_
        rw [← hes] at he
        obtain ⟨d, hd, rfl⟩ := List.mem_map.mp he
        exact Assoc.lookup_of_mem husNodup (List.mem_map.mpr ⟨d, (hsort d).mpr hd, rfl⟩)
      · intro k hk
        rw [hus, (Assoc.keys_perm (Assoc.sortByKey_perm es)).mem_iff, hkeys] at hk
        rwa [hdataKeys]
    show (subReaders entries _).bind
      (fun readers => runReaders readers (.dict (ofJsonItems js)) _) = _
    rw [hreaders, horder]
    unfold Assoc.mapValues
    rw [List.map_map]
    show runReaders ((Assoc.sortByKey es).map fun e =>
      (.key e.1, (describe (pre ++ pieces.flatten ++ post) e.2.2.json).item)) _ _ = _
    rw [hrun, hset]
    rfl

/-! ## §8. Every value. -/

/-- What equals the description of a leaf is that description. -/
theorem eq_of_beq_leaf {f f' : Form} (hf : f'.IsLeaf) (h : f.beq f' = true) : f' = f := by
  cases f with
  | identicalList g n s =>
    obtain ⟨g', rfl, -⟩ := beq_identicalList.mp h
    exact hf.elim
  | variedList fs s =>
    obtain ⟨fs', rfl, -⟩ := beq_variedList.mp h
    exact hf.elim
  | object props s =>
    obtain ⟨props', rfl, -⟩ := beq_object.mp h
    exact hf.elim
  | scalar t s => exact (@beq_leaf (.scalar t s) f' trivial).mp h
  | generic t s => exact (@beq_leaf (.generic t s) f' trivial).mp h
  | ndarray t shape strides s => exact (@beq_leaf (.ndarray t shape strides s) f' trivial).mp h
  | emptyList s => exact (@beq_leaf (.emptyList s) f' trivial).mp h

theorem beq_withStorage {f f' : Form} (s : Storage) (h : f.beq f' = true) :
    (f.withStorage s).beq (f'.withStorage s) = true := by
  cases f with
  | identicalList g n t =>
    obtain ⟨g', rfl, hg⟩ := beq_identicalList.mp h
    exact beq_identicalList.mpr ⟨g', rfl, hg⟩
  | variedList fs t =>
    obtain ⟨fs', rfl, hfs⟩ := beq_variedList.mp h
    exact beq_variedList.mpr ⟨fs', rfl, hfs⟩
  | object props t =>
    obtain ⟨props', rfl, hprops⟩ := beq_object.mp h
    exact beq_object.mpr ⟨props', rfl, hprops⟩
  | scalar type t =>
    rw [(@beq_leaf (.scalar type t) f' trivial).mp h]
    exact (@beq_leaf (.scalar type (some s)) _ trivial).mpr rfl
  | generic item t =>
    rw [(@beq_leaf (.generic item t) f' trivial).mp h]
    exact (@beq_leaf (.generic item (some s)) _ trivial).mpr rfl
  | ndarray items shape strides t =>
    rw [(@beq_leaf (.ndarray items shape strides t) f' trivial).mp h]
    exact (@beq_leaf (.ndarray items shape strides (some s)) _ trivial).mpr rfl
  | emptyList t =>
    rw [(@beq_leaf (.emptyList t) f' trivial).mp h]
    exact (@beq_leaf (.emptyList (some s)) _ trivial).mpr rfl

/-- The items of a list whose descriptions do not differ -/
theorem different_eq {form : Storage × Form} {forms : List (Storage × Form)}
    (h : ¬different (form :: forms) = true) : ∀ g ∈ forms,
      (noteStorage form).beq (noteStorage g) = true := by
  have hall : (forms.all fun g => g.1 = form.1 && form.2.beq g.2) = true := by
    have hnot : ¬(!(forms.all fun g => g.1 = form.1 && form.2.beq g.2)) = true := h
    simpa using hnot
  intro g hg
  have hone := List.all_eq_true.mp hall g hg
  simp only [Bool.and_eq_true, decide_eq_true_eq] at hone
  obtain ⟨hstorage, hbeq⟩ := hone
  unfold noteStorage
  rw [hstorage]
  split
  next => exact hbeq
  next => exact beq_withStorage form.1 hbeq

/-- How a value is described, by a description or by one that equals it -/
def Describes (L : Codecs) (v : Value L.Float) (f : Form) : Prop :=
  ∃ form, L.getForm v = some form ∧ (f.json : Json L.Float).Proper ∧
    f.beq (noteStorage form) = true

/-- The items of a list, described one by one -/
theorem reads_forms {items : List (Value L.Float)} {forms : List (Storage × Form)} {gs : List Form}
    (hforms : List.Forall₂ (fun v form => L.getForm v = some form) items forms)
    (hbeq : List.Forall₂ (fun g f => g.beq f = true) gs (forms.map noteStorage))
    (hgs : ∀ g ∈ gs, (g.json : Json L.Float).Proper)
    (ih : ∀ v ∈ items, ∀ g, L.Describes v g → L.Reads v g) : List.Forall₂ L.Reads items gs := by
  induction hforms generalizing gs with
  | nil =>
    cases hbeq
    exact .nil
  | @cons v form items forms hv _ ihs =>
    cases hbeq with
    | @cons g _ gs _ hg hrest =>
      obtain ⟨hfirst, hothers⟩ := List.forall_mem_cons.mp hgs
      obtain ⟨ihv, ihitems⟩ := List.forall_mem_cons.mp ih
      exact .cons (ihv g ⟨form, hv, hfirst, hg⟩) (ihs hrest hothers ihitems)

theorem forall₂_replicate {A B : Type} {R : A → B → Prop} (a : A) {l : List B}
    (h : ∀ b ∈ l, R a b) : List.Forall₂ R (List.replicate l.length a) l := by
  induction l with
  | nil => exact .nil
  | cons b l ih =>
    obtain ⟨hfirst, hrest⟩ := List.forall_mem_cons.mp h
    exact .cons hfirst (ih hrest)

/-- A container is read from a dict in which only the storage may stand under its name. -/
def ReadsEntries (L : Codecs) (v : Value L.Float) (f : Form) : Prop :=
  ∃ entries, f.json = .dict (entries ++ storageItem f.storage) ∧
    py "storage" ∉ Assoc.keys (entries : List (PyStr × Json L.Float)) ∧ L.ReadsPlain v f

/-- A list, by the description of its items -/
theorem list_entries {v : Value L.Float} {items : List (Value L.Float)} {forms : List (Storage × Form)}
    {f : Form} {t : Option Storage}
    (hstream : ∀ f : Form, (∀ type t, f ≠ .scalar type t) → ∀ s, L.toStream v .mixedPlain f s =
      (f.itemForms items.length).bind fun fs =>
        (L.toStreamList items fs s).map fun r => (.list r.1, r.2))
    (hread : L.readBack v = .list (L.readBackList items))
    (hforms : List.Forall₂ (fun v form => L.getForm v = some form) items forms)
    (hproper : (f.json : Json L.Float).Proper) (hbeq : f.beq ((listForm forms).2.noted t) = true)
    (ih : ∀ v ∈ items, ∀ g, L.Describes v g → L.Reads v g) : L.ReadsEntries v f := by
  have hfree : py "storage" ∉ [py "type", py "items", py "identical", py "shape"] := by decide
  have hlength := hforms.length_eq
  by_cases hdifferent : different forms = true
  · have hform : (listForm forms).2.noted t = .variedList (forms.map noteStorage) t := by
      unfold listForm
      rw [if_pos hdifferent]
      cases t <;> rfl
    rw [hform] at hbeq
    cases f with
    | variedList gs s =>
      obtain ⟨gs', heq, hgs⟩ := beq_variedList.mp hbeq
      obtain ⟨rfl, rfl⟩ := Form.variedList.inj heq
      refine ⟨listItems (.list (jsonForms gs)) false gs.length, rfl, hfree, ?_⟩
      refine readsPlain_items (fun s => ?_) hread rfl (fun buffer => subReaders_varied buffer gs _)
        (reads_forms hforms hgs (items_proper hproper) ih)
      have hgsLength : gs.length = items.length := by
        rw [hgs.length_eq, List.length_map, hlength]
      rw [hstream _ (by intro type t h; cases h)]
      show ((if gs.length = items.length then some gs else none).bind _) = _
      rw [if_pos hgsLength]
      rfl
    | _ => simp [Form.beq] at hbeq
  · cases forms with
    | nil =>
      obtain rfl := List.forall₂_nil_right_iff.mp hforms
      have hform : (listForm []).2.noted t = .emptyList t := by cases t <;> rfl
      rw [hform] at hbeq
      obtain rfl := eq_of_beq_leaf (by trivial) hbeq
      refine ⟨listItems .null true 0, rfl, hfree, ?_⟩
      refine readsPlain_items (fun s => ?_) hread rfl (fun buffer => rfl) .nil
      rw [hstream _ (by intro type t h; cases h)]
      rfl
    | cons form forms =>
      have hform : (listForm (form :: forms)).2.noted t =
          .identicalList (noteStorage form) (form :: forms).length t := by
        unfold listForm
        rw [if_neg hdifferent]
        cases t <;> rfl
      rw [hform] at hbeq
      cases f with
      | identicalList g n s =>
        obtain ⟨g', heq, hg⟩ := beq_identicalList.mp hbeq
        obtain ⟨rfl, rfl, rfl⟩ := Form.identicalList.inj heq
        refine ⟨listItems g.json true (form :: forms).length, rfl, hfree, ?_⟩
        -- every item is described by what describes the first one
        have hall : List.Forall₂ (fun g f => g.beq f = true)
            (List.replicate (form :: forms).length g) ((form :: forms).map noteStorage) := by
          rw [show (form :: forms).length = ((form :: forms).map noteStorage).length from
            (List.length_map _).symm]
          refine forall₂_replicate g fun f' hf' => ?_
          obtain ⟨form', hform', rfl⟩ := List.mem_map.mp hf'
          rcases List.mem_cons.mp hform' with rfl | hmem
          · exact hg
          · exact beq_trans g _ _ hg (different_eq hdifferent form' hmem)
        refine readsPlain_items (fun s => ?_) hread rfl
          (fun buffer => subReaders_identical buffer g _ _)
          (reads_forms hforms hall (fun g' hg' => ?_) ih)
        · rw [hstream _ (by intro type t h; cases h), ← hlength]
          rfl
        · rw [List.eq_of_mem_replicate hg']
          exact item_proper hproper
      | _ => simp [Form.beq] at hbeq

/-- A dict, by the description of its values -/
theorem dict_entries {items : List (PyStr × Value L.Float)} {forms : List (PyStr × Storage × Form)}
    {f : Form} {t : Option Storage} (hitems : L.Proper (.dict items)) (hne : items ≠ [])
    (hforms : L.getFormItems items = some forms) (hproper : (f.json : Json L.Float).Proper)
    (hbeq : f.beq ((dictForm forms).2.noted t) = true)
    (ih : ∀ e ∈ items, ∀ g, L.Describes e.2 g → L.Reads e.2 g) :
    L.ReadsEntries (.dict items) f := by
  have hform : (dictForm forms).2.noted t =
      .object (forms.map fun e => (e.1, noteStorage e.2)) t := by
    cases t <;> rfl
  rw [hform] at hbeq
  cases f with
  | object props s =>
    obtain ⟨props', heq, hlength, hprops⟩ := beq_object.mp hbeq
    obtain ⟨rfl, rfl⟩ := Form.object.inj heq
    obtain ⟨-, hpropsProper⟩ := properties_proper hproper
    have hforms' := getFormItems_iff.mp hforms
    have hnodup : (Assoc.keys (forms.map fun e => (e.1, noteStorage e.2))).Nodup := by
      rw [keys_getFormItems hforms]
      exact hitems.1
    have hpropsLength : props.length = items.length := by
      rw [hlength, List.length_map, hforms'.length_eq]
    cases props with
    | nil => exact absurd (List.eq_nil_of_length_eq_zero hpropsLength.symm) hne
    | cons p props =>
      have hfree : py "storage" ∉ [py "type", py "properties"] := by decide
      refine ⟨objectItems (p :: props), rfl, hfree, ?_⟩
      refine readsPlain_dict hitems hpropsLength rfl
        (fun buffer => subReaders_object buffer (p :: props) _) fun e he g hg => ?_
      -- the property of the key is equal to the description of its value
      have hgmem := Assoc.mem_of_lookup hg
      obtain ⟨f', hlookup, hbeq'⟩ := hprops _ hgmem
      obtain ⟨form, hmem, hkey⟩ := List.mem_map.mp (Assoc.mem_of_lookup hlookup)
      obtain ⟨d, hd, hdkey, hget⟩ := forall₂_mem_right hforms' hmem
      obtain ⟨hkey', rfl⟩ := Prod.mk.inj hkey
      have hvalue : d.2 = e.2 := by
        have hd' : (e.1, d.2) ∈ items := by
          rw [← hkey', hdkey]
          exact hd
        exact Assoc.eq_of_mem hitems.1 hd' he
      rw [hvalue] at hget
      exact ih e he g ⟨form.2, hget, hpropsProper _ hgmem, hbeq'⟩
  | _ => simp [Form.beq] at hbeq

/-- A container with NumPy data inside, as a part -/
theorem ReadsEntries.reads {v : Value L.Float} {f : Form} (h : L.ReadsEntries v f)
    (hstorage : f.storage = some .mixedPlain) : L.Reads v f := by
  obtain ⟨entries, hjson, hfree, hplain⟩ := h
  rw [hstorage] at hjson
  exact reads_mixed hstorage hjson (lookup_noted entries .mixedPlain hfree) hplain

theorem noted_storage (f : Form) (s : Storage) : (f.noted (some s)).storage = some s := by
  cases f <;> rfl

theorem noteStorage_mixed {form : Storage × Form} (h : form.1 ≠ .purePlain) :
    noteStorage form = form.2.noted (some form.1) := if_neg h

theorem containerStorage_cases (storages : List Storage) :
    containerStorage storages = .purePlain ∨ containerStorage storages = .mixedPlain := by
  unfold containerStorage
  split
  next => exact .inl rfl
  next => exact .inr rfl

/-- A list that does not hold JSON data only -/
theorem list_mixed {items : List (Value L.Float)} {form : Storage × Form} {f : Form}
    (hform : (L.getFormList items).map listForm = some form) (hmixed : form.1 ≠ .purePlain)
    (hbeq : f.beq (noteStorage form) = true) :
    ∃ forms, List.Forall₂ (fun v form => L.getForm v = some form) items forms ∧
      f.beq ((listForm forms).2.noted (some .mixedPlain)) = true ∧ f.storage = some .mixedPlain := by
  obtain ⟨forms, hforms, rfl⟩ := Option.map_eq_some_iff.mp hform
  have hstorage : (listForm forms).1 = .mixedPlain :=
    (containerStorage_cases _).resolve_left hmixed
  rw [noteStorage_mixed hmixed, hstorage] at hbeq
  refine ⟨forms, getFormList_iff.mp hforms, hbeq, ?_⟩
  rw [← beq_storage hbeq, noted_storage]

/-- Reading a part of a proper value undoes writing it, by whatever equals its description. -/
theorem reads_value (v : Value L.Float) : L.Proper v → ∀ f, L.Describes v f → L.Reads v f := by
  have hpure : ∀ (v : Value L.Float) (form : Storage × Form) (f : Form), L.Proper v →
      L.getForm v = some form → f.beq (noteStorage form) = true → form.1 = .purePlain →
      L.Reads v f := by
    intro v form f hv hform hbeq hplain
    rw [noteStorage_plain hplain] at hbeq
    have hform' : L.getForm v = some (.purePlain, form.2) := by rw [hform, ← hplain]
    exact reads_plain (beq_plain f form.2 hbeq (getForm_plain v form.2 hform')) hv
  have harray : ∀ (v : Value L.Float) (a : NdArray) (f : Form),
      L.numpyData v = some (a.dtype, a.data) → L.readBack v = a.readBack → a.dtype.Known →
      (∃ form, arrayForm a = some form ∧ f.beq (noteStorage form) = true) → L.Reads v f := by
    intro v a f hdata hread hknown h
    obtain ⟨form, hform, hbeq⟩ := h
    obtain ⟨items, hitems, heq⟩ := arrayForm_eq hform
    obtain rfl : (Storage.pureBinary, Form.ndarray items a.shape a.strides none) = form := heq
    obtain rfl := eq_of_beq_leaf (by trivial) hbeq
    exact reads_array hdata hread hitems hknown
  induction v using Value.induction with
  | leaf v hleaf =>
    intro hv f h
    obtain ⟨form, hform, hproper, hbeq⟩ := h
    cases v with
    | list items => exact hleaf.elim
    | tuple items => exact hleaf.elim
    | dict items => exact hleaf.elim
    | array a => exact harray (.array a) a f rfl rfl hv ⟨form, hform, hbeq⟩
    | bytes b => exact harray (.bytes b) (L.npBytes b) f rfl rfl hv ⟨form, hform, hbeq⟩
    | generic g =>
      obtain ⟨item, hitem, rfl⟩ := Option.map_eq_some_iff.mp hform
      obtain rfl := eq_of_beq_leaf (by trivial) hbeq
      exact reads_generic hitem hv
    | complex re im =>
      -- a complex number cannot be written
      obtain ⟨item, -, rfl⟩ := Option.map_eq_some_iff.mp hform
      obtain rfl := eq_of_beq_leaf (by trivial) hbeq
      intro s v' s' hw
      cases hw
    | checksum c => cases hform
    | object => cases hform
    | _ =>
      obtain rfl := Option.some.inj hform
      exact hpure _ _ f hv hform hbeq rfl
  | list items ih =>
    intro hv f h
    obtain ⟨form, hform, hproper, hbeq⟩ := h
    by_cases hplain : form.1 = .purePlain
    · exact hpure _ form f hv hform hbeq hplain
    · obtain ⟨forms, hforms, hbeq', hstorage⟩ := list_mixed hform hplain hbeq
      exact (list_entries (fun _ hf s => toStream_list items hf s) rfl hforms hproper hbeq'
        fun w hw => ih w hw ((properList_iff items).mp hv w hw)).reads hstorage
  | tuple items ih =>
    intro hv f h
    obtain ⟨form, hform, hproper, hbeq⟩ := h
    by_cases hplain : form.1 = .purePlain
    · exact hpure _ form f hv hform hbeq hplain
    · obtain ⟨forms, hforms, hbeq', hstorage⟩ := list_mixed hform hplain hbeq
      exact (list_entries (fun _ hf s => toStream_tuple items hf s) rfl hforms hproper hbeq'
        fun w hw => ih w hw ((properList_iff items).mp hv w hw)).reads hstorage
  | dict items ih =>
    intro hv f h
    obtain ⟨form, hform, hproper, hbeq⟩ := h
    by_cases hplain : form.1 = .purePlain
    · exact hpure _ form f hv hform hbeq hplain
    · obtain ⟨forms, hforms, rfl⟩ := Option.map_eq_some_iff.mp hform
      have hmixed : (dictForm forms).1 = .mixedPlain :=
        (containerStorage_cases _).resolve_left hplain
      have hne : items ≠ [] := by
        rintro rfl
        obtain rfl := Option.some.inj hforms
        exact hplain rfl
      rw [noteStorage_mixed hplain, hmixed] at hbeq
      have hstorage : f.storage = some .mixedPlain := by rw [← beq_storage hbeq, noted_storage]
      exact (dict_entries hv hne hforms hproper hbeq fun e he =>
        ih e he ((properItems_iff items).mp hv.2 e he).2).reads hstorage

/-- A container with NumPy data inside, by its own description -/
theorem entries_value {v : Value L.Float} {f : Form} (hv : L.Proper v)
    (h : L.getForm v = some (.mixedPlain, f)) : L.ReadsEntries v f := by
  have hjson := getForm_proper v .mixedPlain f hv h none
  have hbeq := beq_refl f hjson
  cases v with
  | list items =>
    obtain ⟨forms, hforms, hform⟩ := Option.map_eq_some_iff.mp h
    have hf : (listForm forms).2.noted none = f := congrArg Prod.snd hform
    exact list_entries (t := none) (fun _ hf s => toStream_list items hf s) rfl
      (getFormList_iff.mp hforms) hjson (hf ▸ hbeq) fun w hw g hg =>
        reads_value w ((properList_iff items).mp hv w hw) g hg
  | tuple items =>
    obtain ⟨forms, hforms, hform⟩ := Option.map_eq_some_iff.mp h
    have hf : (listForm forms).2.noted none = f := congrArg Prod.snd hform
    exact list_entries (t := none) (fun _ hf s => toStream_tuple items hf s) rfl
      (getFormList_iff.mp hforms) hjson (hf ▸ hbeq) fun w hw g hg =>
        reads_value w ((properList_iff items).mp hv w hw) g hg
  | dict items =>
    obtain ⟨forms, hforms, hform⟩ := Option.map_eq_some_iff.mp h
    have hf : (dictForm forms).2.noted none = f := congrArg Prod.snd hform
    -- an empty dict is plain
    have hne : items ≠ [] := by
      rintro rfl
      obtain rfl := Option.some.inj hforms
      cases hform
    exact dict_entries (t := none) hv hne hforms hjson (hf ▸ hbeq) fun e he g hg =>
      reads_value e.2 ((properItems_iff items).mp hv.2 e he).2 g hg
  | array a =>
    obtain ⟨items, -, hform⟩ := arrayForm_eq h
    cases hform
  | bytes b =>
    obtain ⟨items, -, hform⟩ := arrayForm_eq h
    cases hform
  | complex re im =>
    obtain ⟨item, -, hform⟩ := Option.map_eq_some_iff.mp h
    cases hform
  | generic g =>
    obtain ⟨item, -, hform⟩ := Option.map_eq_some_iff.mp h
    cases hform
  | _ => cases h

end Codecs

end SeamlessCore.Mixed
