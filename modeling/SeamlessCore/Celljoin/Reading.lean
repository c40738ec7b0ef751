/-
  SeamlessCore.Celljoin.Reading — definitions and the parser of `plain`.

  `_load_definition` reads a definition with `Buffer.get_value("plain")`, the
  parser of every plain buffer: a virtual value for the constants, the check
  of the HashType, and `orjson.loads`.  What the celljoins rely on, that a
  canonical definition reads back with its keys in order, follows from what
  `orjson` promises about flat dicts.

  Main definitions:
    * `ParsesWith` — the values of `plain` come from the parser;
    * `ReadsFlat` — `orjson` reads the flat dicts that it writes.

  Main results:
    * `readsDefinitions_of_loads` — canonical definitions read back;
    * `paired_readsDefinitions` — in an instance.

  Source: `seamless/checksum/celljoin.py`, `checksum/parse_buffer.py`.
-/
import SeamlessCore.Celljoin.Small
import SeamlessCore.HashType.Agreement
import SeamlessCore.Cells.Small

namespace SeamlessCore.Celljoin

open Python Mixed Assoc

/-! ## §1. The parser. -/

section

variable (J : Joins) (L : Libraries)
variable (view : L.Value → Option { v : Value J.codecs.Float // v.Distinct })

/-- `Buffer(content).get_value("plain")` is what the parser makes of the
content; `view` are its values as data of celljoins. -/
structure ParsesWith : Prop where
  sameHash : J.sha256 = L.sha256
  getValue : ∀ content,
    J.getValue content .plain = (L.parseBuffer none content (L.sha256 content) .plain).bind view

/-- What `orjson.dumps` writes for a dict of strings and nulls starts with a
brace, and `orjson.loads` reads it back. -/
structure ReadsFlat : Prop where
  brace : ∀ (items : List (PyStr × Value J.codecs.Float)) b,
    (Value.dict items).toJson.bind J.codecs.orjsonDumps = some b → b.head? = some 0x7b
  loads : ∀ (items : List (PyStr × Value J.codecs.Float)) b, (keys items).Nodup →
    (∀ e ∈ items, e.2 = .none ∨ ∃ s, e.2 = .str s) →
    (Value.dict items).toJson.bind J.codecs.orjsonDumps = some b →
    ∃ text v w, decodeUtf8 b = some text ∧ L.orjsonLoads text = some v ∧ view v = some w ∧
      w.1 = .dict items

end

section

variable {J : Joins} {L : Libraries}
variable {view : L.Value → Option { v : Value J.codecs.Float // v.Distinct }}

/-- No constant starts with a brace. -/
theorem not_constant_of_brace {b : Bytes} (h : b.head? = some 0x7b) :
    b ∉ nullBuffers ++ trueBuffers ++ falseBuffers := by
  have hother : ∀ constant ∈ nullBuffers ++ trueBuffers ++ falseBuffers,
      constant.head? ≠ some 0x7b := by decide
  exact fun hmem => hother b hmem h

/-- The canonical buffer of a flat definition is written by `orjson`, gets a
newline, and is read back. -/
theorem readsDefinitions_of_loads (hL : L.JsonLaws) (hC : L.ConstantsUnique)
    (hparses : ParsesWith J L view) (hreads : ReadsFlat J L view) : J.ReadsDefinitions := by
  intro items b hnodup hflat hb
  rw [celljoinBuffer_flat hflat] at hb
  obtain ⟨b', hdumps, rfl⟩ := Option.map_eq_some_iff.mp hb
  have hsorted : ∀ e ∈ sortByKey items, e.2 = .none ∨ ∃ s, e.2 = .str s :=
    fun e he => hflat e ((sortByKey_perm items).mem_iff.mp he)
  have hbrace := hreads.brace _ b' hdumps
  obtain ⟨text, v, w, hdecode, hloads, hview, hw⟩ :=
    hreads.loads _ b' (nodup_keys_sortByKey.mpr hnodup) hsorted hdumps
  -- the newline does not change what is read
  have hdecode' : decodeUtf8 (b' ++ ascii "\n") = some (text ++ [cp '\n']) := by
    rw [decodeUtf8_append hdecode]
    rfl
  have hloads' : L.orjsonLoads (text ++ [cp '\n']) = some v := by
    rw [← hL.loads_rstrip, rstripNewlines_append_newline, hL.loads_rstrip, hloads]
  have hconstant : b' ++ ascii "\n" ∉ nullBuffers ++ trueBuffers ++ falseBuffers := by
    apply not_constant_of_brace
    rw [List.head?_append, hbrace]
    rfl
  refine ⟨w, ?_, hw⟩
  rw [hparses.getValue, L.parseBuffer_plain hL hC hdecode' hloads' hconstant]
  exact hview

end

/-! ## §2. An instance. -/

namespace Small

open SeamlessCore.Small

/-- A JSON scalar as a value of the parser -/
def pyScalar : Json Empty → SeamlessCore.Small.Value
  | .str s => .str s
  | _ => .none

/-- The writer of `pairs`, for JSON data -/
def dumpsPair : Json Empty → Option Bytes
  | .dict items => writePair (.dict (items.map fun e => (.str e.1, pyScalar e.2)))
  | _ => none

/-- A scalar that was parsed -/
def scalarView : SeamlessCore.Small.Value → Option { v : Value Empty // v.Distinct }
  | .none => some ⟨.none, trivial⟩
  | .bool b => some ⟨.bool b, trivial⟩
  | .int n => some ⟨.int n, trivial⟩
  | .str s => some ⟨.str s, trivial⟩
  | _ => none

theorem entry_distinct (k : PyStr) (w : { v : Value Empty // v.Distinct }) :
    (Value.dict [(k, w.1)]).Distinct := by
  refine (distinct_dict_iff _).mpr ⟨List.nodup_singleton k, ?_⟩
  intro e he
  rw [List.mem_singleton.mp he]
  exact w.2

/-- What was parsed, with at most one entry -/
def plainView : SeamlessCore.Small.Value → Option { v : Value Empty // v.Distinct }
  | .dict [] => some ⟨.dict [], (distinct_dict_iff _).mpr ⟨List.nodup_nil, by simp⟩⟩
  | .dict [(.str k, v)] => (scalarView v).map fun w => ⟨.dict [(k, w.1)], entry_distinct k w⟩
  | v => scalarView v

/-- Celljoins whose definitions are parsed by `pairs` -/
def paired : Joins where
  codecs := { Mixed.Small.small with orjsonDumps := dumpsPair }
  maxStrDigits := 4300
  sha256 := pairs.sha256
  getValue content t :=
    if t = .plain then
      (pairs.parseBuffer none content (pairs.sha256 content) .plain).bind plainView
    else none
  setField _ _ _ := none
  setFieldScalar _ _ _ := none

theorem paired_parsesWith : ParsesWith paired pairs plainView := ⟨rfl, fun _ => rfl⟩

/-- What is written for a dict -/
theorem written_dict {items : List (PyStr × Value Empty)} {b : Bytes}
    (h : (Value.dict items).toJson.bind dumpsPair = some b) :
    ∃ js, toJsonItems items = some js ∧
      writePair (.dict (js.map fun e => (.str e.1, pyScalar e.2))) = some b := by
  obtain ⟨j, hj, hwrite⟩ := Option.bind_eq_some_iff.mp h
  have hj : (toJsonItems items).map Json.dict = some j := hj
  obtain ⟨js, hjs, rfl⟩ := Option.map_eq_some_iff.mp hj
  exact ⟨js, hjs, hwrite⟩

theorem brace_of_encode {s : PyStr} {b : Bytes} (h : encodeUtf8 (cp '\x7b' :: s) = some b) :
    b.head? = some 0x7b := by
  unfold encodeUtf8 at h
  split at h
  · cases h
  · rw [← Option.some.inj h]
    rfl

/-- What is written for a dict starts with a brace. -/
theorem writePair_brace {items : List (SeamlessCore.Small.Value × SeamlessCore.Small.Value)}
    {b : Bytes} (h : writePair (.dict items) = some b) : b.head? = some 0x7b := by
  unfold writePair at h
  split at h
  next => exact brace_of_encode h
  next key v _ =>
    split_ifs at h with hkey
    obtain ⟨vb, -, hrest⟩ := Option.bind_eq_some_iff.mp h
    obtain ⟨head, hhead, rfl⟩ := Option.map_eq_some_iff.mp hrest
    rw [List.append_assoc, List.head?_append, brace_of_encode hhead]
    rfl
  next hnil _ _ => cases h

/-- A flat dict with at most one entry is what it was written for. -/
theorem plainView_flat {items : List (PyStr × Value Empty)} (h : Flat items)
    (hlength : items.length ≤ 1) :
    ∃ w, plainView (.dict ((mapValues flatJson items).map fun e => (.str e.1, pyScalar e.2))) =
      some w ∧ w.1 = .dict items := by
  cases items with
  | nil => exact ⟨_, rfl, rfl⟩
  | cons e rest =>
    have hrest : rest = [] := by simpa using hlength
    subst hrest
    obtain ⟨k, v⟩ := e
    rcases h (k, v) List.mem_cons_self with rfl | ⟨s, rfl⟩
    · exact ⟨_, rfl, rfl⟩
    · exact ⟨_, rfl, rfl⟩

theorem paired_readsFlat : ReadsFlat paired pairs plainView where
  brace items b h := by
    obtain ⟨js, -, hwrite⟩ := written_dict h
    exact writePair_brace hwrite
  loads items b _ hflat h := by
    obtain ⟨js, hjs, hwrite⟩ := written_dict h
    rw [toJsonItems_flat hflat] at hjs
    rw [← Option.some.inj hjs] at hwrite
    obtain ⟨⟨text, hdecode, hloads⟩, -⟩ := writePair_dict hwrite
    -- longer dicts are not written
    have hlength : items.length ≤ 1 := by
      match items, hwrite with
      | [], _ => simp
      | [_], _ => simp
      | _ :: _ :: _, hwrite => cases hwrite
    obtain ⟨w, hview, hw⟩ := plainView_flat hflat hlength
    exact ⟨text, _, w, hdecode, hloads, hview, hw⟩

theorem paired_readsDefinitions : paired.ReadsDefinitions :=
  readsDefinitions_of_loads pairs_jsonLaws pairs_constantsUnique paired_parsesWith paired_readsFlat

end Small

end SeamlessCore.Celljoin
