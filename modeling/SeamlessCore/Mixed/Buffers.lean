/-
  SeamlessCore.Mixed.Buffers — whole buffers, written and read.

  A value without NumPy data is written as JSON text with sorted keys.  A list
  or dict with NumPy data inside is written as a description, JSON data and the
  pieces of NumPy data; the sizes in front say where each of them ends.

  Main definitions:
    * `Readers.Laws` — the JSON decoder reads what the encoder wrote.
  Main results:
    * `readMixedPlain_writeMixedPlain`, `readHeader_withHeader` — the layout;
    * `mixed_roundTrip` — `deserialize` reads back what `serialize` wrote.

  Source: `seamless/util/mixed/io/serialization.py`, `to_stream.py`,
  `from_stream.py`.
-/
import SeamlessCore.Checksum.Laws
import SeamlessCore.Mixed.RoundTrip
import SeamlessCore.Mixed.Small

namespace SeamlessCore.Mixed

open Python

namespace Readers

variable {L : Codecs} {R : Readers L}

/-! ## §1. The JSON decoder. -/

/-- `json.loads` reads what `json.dumps` wrote. -/
structure Laws (R : Readers L) : Prop where
  loads_dumps : ∀ j text, j.Proper → L.dumps j = some text → R.loads text = some j
  loads_dumpsIndented : ∀ j text, j.Proper → L.dumpsIndented j = some text →
    R.loads (text ++ ascii "\n") = some j
  /-- `json.dumps` makes a string, which is then encoded. -/
  decodes : ∀ j text, L.dumpsIndented j = some text → ∃ s, decodeUtf8 text = some s

/-! ## §2. Streams. -/

/-- What the writer noted of a stream -/
theorem writeMixedPlain_size {v : Value L.Float} {form : Form} {content : Bytes}
    (h : L.writeMixedPlain v form = some content) :
    ∃ data s j text, L.toStream v .mixedPlain form ⟨List.replicate s.offset 0, 0, [0]⟩ =
        some (data, s) ∧ data.toJson = some j ∧ L.dumps (.list [jsonNats s.offsets, j]) = some text ∧
      text.length < 256 ^ 8 ∧ s.offset < 256 ^ 8 ∧
      content = Codecs.streamBytes text s.offset s.buffer := by
  unfold Codecs.writeMixedPlain at h
  split at h
  next check size _ _ =>
    split at h
    next =>
      obtain ⟨⟨data, s⟩, hstream, hrest⟩ := Option.bind_eq_some_iff.mp h
      simp only at hrest
      split at hrest
      next hsize =>
        obtain ⟨text, htext, hbytes⟩ := Option.bind_eq_some_iff.mp hrest
        obtain ⟨j, hj, hdumps⟩ := Option.bind_eq_some_iff.mp htext
        split at hbytes
        next hbounds =>
          subst hsize
          exact ⟨data, s, j, text, hstream, hj, hdumps, hbounds.1, hbounds.2,
            (Option.some.inj hbytes).symm⟩
        next => cases hbytes
      next => cases hrest
    next => cases h
  next => cases h

theorem slice_middle {pre mid post : Bytes} {i j : Nat} (hi : pre.length = i)
    (hj : i + mid.length = j) : slice (pre ++ (mid ++ post)) i j = mid := by
  unfold slice
  rw [List.drop_left' hi, List.take_left' (by omega)]

theorem startsWith_append (magic rest : Bytes) : startsWith (magic ++ rest) magic = true := by
  unfold startsWith
  rw [List.isPrefixOf_iff_prefix]
  exact List.prefix_append magic rest

/-- The parts of a stream, as the reader finds them -/
theorem readMixedPlain_streamBytes {text buffer : Bytes} {offsets queue : List (Json L.Float)}
    {entries : List (PyStr × Json L.Float)} (htext : text.length < 256 ^ 8)
    (hbuffer : buffer.length < 256 ^ 8)
    (hloads : R.loads text = some (.list (.list offsets :: queue))) :
    R.readMixedPlain (Codecs.streamBytes text buffer.length buffer) (.dict entries) =
      (fromStreamPlain entries (describeEntries buffer entries) .none ⟨offsets, queue⟩).map
        Prod.fst := by
  have hsizes := length_leBytes 8
  generalize hstream : Codecs.streamBytes text buffer.length buffer = stream
  unfold Codecs.streamBytes at hstream
  simp only [List.append_assoc] at hstream
  -- the parts of the stream, each at its offset
  have hs1 : slice stream magicSeamless.length (magicSeamless.length + 8) =
      leBytes 8 text.length := by
    rw [← hstream]
    exact slice_middle rfl (by rw [hsizes])
  have hs2 : slice stream (magicSeamless.length + 8) (magicSeamless.length + 16) =
      leBytes 8 buffer.length := by
    rw [← hstream, ← List.append_assoc]
    exact slice_middle (by rw [List.length_append, hsizes]) (by rw [hsizes])
  have hhead : (magicSeamless ++ (leBytes 8 text.length ++ leBytes 8 buffer.length)).length =
      magicSeamless.length + 16 := by
    rw [List.length_append, List.length_append, hsizes, hsizes]
  have hjsons : slice stream (magicSeamless.length + 16) (magicSeamless.length + 16 + text.length) =
      text := by
    rw [← hstream, ← List.append_assoc (leBytes 8 text.length), ← List.append_assoc magicSeamless]
    exact slice_middle hhead rfl
  have hdrop : stream.drop (magicSeamless.length + 16 + text.length) = buffer := by
    rw [← hstream, ← List.append_assoc (leBytes 8 text.length), ← List.append_assoc magicSeamless,
      ← List.append_assoc _ text]
    exact List.drop_left' (by rw [List.length_append, hhead])
  have hlength : stream.length = magicSeamless.length + 16 + text.length + buffer.length := by
    rw [← hstream]
    simp only [List.length_append, hsizes]
    omega
  have hstart : startsWith stream magicSeamless = true := by
    rw [← hstream]
    exact startsWith_append _ _
  unfold readMixedPlain
  dsimp only
  rw [hs1, hs2, littleEndian_leBytes 8 _ htext, littleEndian_leBytes 8 _ hbuffer, hsizes, hsizes,
    if_pos ⟨hstart, rfl, rfl, hlength⟩, hjsons, hloads, hdrop]
  rfl

/-- A buffer with a header, as the reader finds it -/
theorem readHeader_withHeader {h2 content : Bytes} {form : Json L.Float} (h : h2.length < 256 ^ 4)
    (hloads : R.loads h2 = some form) :
    R.readHeader (Codecs.withHeader h2 content) =
      (R.readMixedPlain content form).map fun value => (value, .mixedPlain) := by
  generalize hdata : Codecs.withHeader h2 content = data
  unfold Codecs.withHeader at hdata
  simp only [List.append_assoc] at hdata
  have hlh1 : (data.drop magicSeamlessMixed.length).head? = some 11 := by
    rw [← hdata, List.drop_left' rfl]
    rfl
  have hh1 : slice data (magicSeamlessMixed.length + 1) (magicSeamlessMixed.length + 1 + 11) =
      Codecs.storageBytes := by
    rw [← hdata, ← List.append_assoc]
    exact slice_middle rfl rfl
  have hlh2 : slice data (magicSeamlessMixed.length + 1 + 11)
      (magicSeamlessMixed.length + 1 + 11 + 4) = leBytes 4 h2.length := by
    rw [← hdata, ← List.append_assoc, ← List.append_assoc]
    exact slice_middle rfl (by rw [length_leBytes])
  have hhead : (magicSeamlessMixed ++ leBytes 1 Codecs.storageBytes.length ++
      Codecs.storageBytes ++ leBytes 4 h2.length).length =
        magicSeamlessMixed.length + 1 + 11 + 4 := by
    rw [List.length_append, length_leBytes]
    rfl
  have hh2 : slice data (magicSeamlessMixed.length + 1 + 11 + 4)
      (magicSeamlessMixed.length + 1 + 11 + 4 + h2.length) = h2 := by
    rw [← hdata, ← List.append_assoc, ← List.append_assoc, ← List.append_assoc]
    exact slice_middle hhead rfl
  have hdrop : data.drop (magicSeamlessMixed.length + 1 + 11 + 4 + h2.length) = content := by
    rw [← hdata, ← List.append_assoc, ← List.append_assoc, ← List.append_assoc,
      ← List.append_assoc]
    exact List.drop_left' (by rw [List.length_append, hhead])
  unfold readHeader
  dsimp only
  rw [hlh1]
  dsimp only [Option.bind_some]
  rw [show (11 : UInt8).toNat = 11 from rfl, hh1, hlh2, if_pos (length_leBytes 4 _),
    littleEndian_leBytes 4 _ h, hh2, hdrop, hloads]
  rfl

/-! ## §3. Round trips. -/

theorem ofJson_ne_none {j : Json L.Float} {entries : List (PyStr × Json L.Float)}
    {parts : List (PyStr × Description L.Float)} (h : (.ofJson j : Value L.Float) ≠ .none)
    (offsets queue : List (Json L.Float)) :
    fromStreamPlain entries parts .none ⟨offsets, j :: queue⟩ =
      fromStreamPlain entries parts (.ofJson j) ⟨offsets, queue⟩ := by
  have hpop : popData (.ofJson j) ⟨offsets, queue⟩ =
      some ((.ofJson j : Value L.Float), (⟨offsets, queue⟩ : ReadState L.Float)) := by
    unfold popData
    split
    next heq _ => exact absurd heq h
    next heq _ => exact absurd heq h
    next => rfl
  unfold fromStreamPlain
  rw [hpop]
  rfl

/-- What a stream holds is read, by its own description. -/
theorem readMixedPlain_writeMixedPlain (hR : R.Laws) {v : Value L.Float} {form : Form}
    {content : Bytes} (hv : L.Proper v) (hform : L.getForm v = some (.mixedPlain, form))
    (h : L.writeMixedPlain v form = some content) :
    R.readMixedPlain content form.json = some (L.readBack v) := by
  obtain ⟨data, s, j, text, hstream, hj, hdumps, htext, hsize, rfl⟩ := writeMixedPlain_size h
  obtain ⟨entries, hentries, -, hreads⟩ := Codecs.entries_value hv hform
  obtain ⟨hproper, pieces, hs, hfits, hread⟩ := hreads _ _ _ hstream (Nat.zero_le _)
  -- the pieces fill the buffer
  have hoffset : s.offset = pieces.flatten.length := by
    rw [hs]
    exact Nat.zero_add _
  have hbuffer : s.buffer = pieces.flatten := by
    rw [hs]
    show (List.replicate s.offset 0).take 0 ++ pieces.flatten ++
      (List.replicate s.offset 0).drop (0 + pieces.flatten.length) = _
    rw [List.take_zero, List.nil_append, Nat.zero_add, ← hoffset,
      List.drop_eq_nil_of_le (by rw [List.length_replicate]), List.append_nil]
  have hoffsets : s.offsets = 0 :: marks 0 pieces := by
    rw [hs]
    rfl
  have hloads : R.loads text = some (.list (.list (Codecs.jsonOffsets s.offsets) :: [j])) :=
    hR.loads_dumps _ text ⟨jsonNats_proper _, Codecs.toJson_proper data j hproper hj, trivial⟩ hdumps
  rw [hbuffer, hoffset, hentries, readMixedPlain_streamBytes htext (hoffset ▸ hsize) hloads, hoffsets]
  obtain ⟨hnone, hplain⟩ := hread j [] [] [] [] _ hj rfl hentries
  rw [ofJson_ne_none hnone]
  rw [List.append_nil, List.append_nil, List.nil_append] at hplain
  rw [hplain]
  rfl

theorem proper_sorted (v : Value L.Float) : L.Proper v → L.Proper v.sorted := by
  induction v using Value.induction with
  | leaf v hleaf =>
    rw [sorted_of_isLeaf hleaf]
    exact id
  | list items ih =>
    intro hv
    show L.ProperList (sortedList items)
    rw [sortedList_eq, Codecs.properList_iff]
    intro w hw
    obtain ⟨u, hu, rfl⟩ := List.mem_map.mp hw
    exact ih u hu ((Codecs.properList_iff items).mp hv u hu)
  | tuple items ih =>
    intro hv
    show L.ProperList (sortedList items)
    rw [sortedList_eq, Codecs.properList_iff]
    intro w hw
    obtain ⟨u, hu, rfl⟩ := List.mem_map.mp hw
    exact ih u hu ((Codecs.properList_iff items).mp hv u hu)
  | dict items ih =>
    intro hv
    show (Assoc.keys (Assoc.sortByKey (sortedItems items))).Nodup ∧
      L.ProperItems (Assoc.sortByKey (sortedItems items))
    rw [sortedItems_eq, Assoc.nodup_keys_sortByKey, Assoc.keys_mapValues, Codecs.properItems_iff]
    refine ⟨hv.1, fun e he => ?_⟩
    obtain ⟨d, hd, rfl⟩ := List.mem_map.mp ((Assoc.sortByKey_perm _).mem_iff.mp he)
    obtain ⟨hkey, hvalue⟩ := (Codecs.properItems_iff items).mp hv.2 d hd
    exact ⟨hkey, ih d hd hvalue⟩

/-- JSON text is read, with the keys of its dicts in order. -/
theorem mixedDeserialize_text (hR : R.Laws) {v : Value L.Float} {b : Bytes} (hv : L.Proper v)
    (h : (v.sorted.toJson.bind L.dumpsIndented).map (· ++ ascii "\n") = some b) :
    R.mixedDeserialize b = some (L.readBack v.sorted, .purePlain) := by
  obtain ⟨text, htext, rfl⟩ := Option.map_eq_some_iff.mp h
  obtain ⟨j, hj, hdumps⟩ := Option.bind_eq_some_iff.mp htext
  obtain ⟨s, hs⟩ := hR.decodes j text hdumps
  have hdecode : decodeUtf8 (text ++ ascii "\n") = some (s ++ py "\n") := by
    rw [decodeUtf8_append hs]
    rfl
  obtain ⟨hnumpy, hmixed⟩ := Libraries.no_magic_of_decodes hdecode
  unfold mixedDeserialize
  rw [hnumpy, hmixed, Libraries.not_seamless_of_decodes hdecode, hdecode, hR.loads_dumpsIndented j text
    (Codecs.toJson_proper v.sorted j (proper_sorted v hv) hj) hdumps]
  show some (Value.ofJson j, Storage.purePlain) = _
  rw [Codecs.ofJson_toJson v.sorted j hj]

/-- What `serialize` wrote is read back: a value without NumPy data with the keys of its dicts in
order, a list or dict with NumPy data inside as it was. -/
theorem mixed_roundTrip (hR : R.Laws) {v : Value L.Float} {b : Bytes} (hv : L.Proper v)
    (h : L.mixedSerialize v = some b) :
    (L.storage v = some .purePlain →
      R.mixedDeserialize b = some (L.readBack v.sorted, .purePlain)) ∧
    (L.storage v = some .mixedPlain →
      R.mixedDeserialize b = some (L.readBack v, .mixedPlain)) := by
  obtain ⟨⟨storage, form⟩, hform, hrest⟩ := Option.bind_eq_some_iff.mp h
  obtain ⟨content, hcontent, hbytes⟩ := Option.bind_eq_some_iff.mp hrest
  have hv' : L.storage v = some storage := congrArg (Option.map Prod.fst) hform
  refine ⟨fun hplain => ?_, fun hmixed => ?_⟩
  · obtain rfl := Option.some.inj (hv'.symm.trans hplain)
    obtain rfl := Option.some.inj hbytes
    exact mixedDeserialize_text hR hv hcontent
  · obtain rfl := Option.some.inj (hv'.symm.trans hmixed)
    obtain ⟨h2, hdumps, hheader⟩ := Option.bind_eq_some_iff.mp hbytes
    split at hheader
    next hlength =>
      obtain rfl := Option.some.inj hheader
      have hloads := hR.loads_dumps form.json h2
        (Codecs.getForm_proper v .mixedPlain form hv hform none) hdumps
      have hnumpy : startsWith (Codecs.withHeader h2 content) magicNumpy = false := rfl
      have hmixed' : startsWith (Codecs.withHeader h2 content) magicSeamlessMixed = true := rfl
      unfold mixedDeserialize
      rw [hnumpy, hmixed', readHeader_withHeader hlength hloads,
        readMixedPlain_writeMixedPlain hR hv hform hcontent]
      rfl
    next => cases hheader

/-! ## §4. A list in a dict. -/

/-- Text of ASCII characters can be decoded. -/
theorem decodeUtf8_ascii {b : Bytes} (h : ∀ x ∈ b, x.toNat < 0x80) : ∃ s, decodeUtf8 b = some s := by
  induction b with
  | nil => exact ⟨[], rfl⟩
  | cons x b ih =>
    obtain ⟨hfirst, hrest⟩ := List.forall_mem_cons.mp h
    obtain ⟨s, hs⟩ := ih hrest
    have hscalar : isScalar x.toNat := ⟨by omega, by omega⟩
    refine ⟨⟨x.toNat, hscalar.1⟩ :: s, ?_⟩
    unfold decodeUtf8 at hs ⊢
    show (if x.toNat < 0x80 then consScalar x.toNat (decodeFrom 0 0 0 b) else _) = _
    rw [if_pos hfirst, hs]
    exact dif_pos hscalar

/-- The small instance, for indented text of ASCII characters -/
def asciiCodecs : Codecs :=
  { Small.small with
    dumpsIndented := fun j =>
      if (Small.write j).all fun x => x.toNat < 0x80 then some (Small.write j) else none }

def asciiReaders : Readers asciiCodecs where
  loads := Small.loads
  npLoad b := some (Small.small.npBytes (b.drop magicNumpy.length))
  npAlign a := a

theorem asciiReaders_laws : asciiReaders.Laws where
  loads_dumps j text _ h := by
    obtain rfl := Option.some.inj h
    exact Small.loads_write j
  loads_dumpsIndented j text _ h := by
    have hwrite : (if (Small.write j).all fun x => x.toNat < 0x80 then some (Small.write j)
      else none) = some text := h
    split at hwrite
    next =>
      obtain rfl := Option.some.inj hwrite
      refine Small.loads_append j fun b hb => ?_
      obtain rfl := Option.some.inj hb
      rfl
    next => cases hwrite
  decodes j text h := by
    have hwrite : (if (Small.write j).all fun x => x.toNat < 0x80 then some (Small.write j)
      else none) = some text := h
    split at hwrite
    next hall =>
      obtain rfl := Option.some.inj hwrite
      exact decodeUtf8_ascii fun x hx => of_decide_eq_true (List.all_eq_true.mp hall x hx)
    next => cases hwrite

/-- Two numbers of two bytes each -/
def twoNumbers : NdArray := ⟨.integer 2 false, true, [2], none, [1, 0, 2, 0], rfl⟩

def nestedValue : Value asciiCodecs.Float :=
  .dict [(py "b", .tuple [.int 5, .array twoNumbers, .bytes [7, 0]]), (py "a", .str (py "x"))]

theorem nestedValue_proper : asciiCodecs.Proper nestedValue :=
  ⟨by decide, ⟨rfl, ⟨trivial, rfl, rfl, trivial⟩, ⟨rfl, rfl, trivial⟩⟩⟩

theorem nestedValue_roundTrip :
    (asciiCodecs.mixedSerialize nestedValue).bind asciiReaders.mixedDeserialize =
      some (asciiCodecs.readBack nestedValue, .mixedPlain) := by
  obtain ⟨b, hb⟩ := Option.isSome_iff_exists.mp
    (show (asciiCodecs.mixedSerialize nestedValue).isSome = true by decide +kernel)
  have hstorage : asciiCodecs.storage nestedValue = some .mixedPlain := by decide +kernel
  rw [hb]
  exact (mixed_roundTrip asciiReaders_laws nestedValue_proper hb).2 hstorage

end Readers

end SeamlessCore.Mixed
