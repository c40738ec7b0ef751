/-
  SeamlessCore.Cells.Small — JSON dicts with at most one entry.

  An instance of the libraries that reads and writes the scalars of the small
  instance, the empty dict, and dicts with one scalar entry, in the two-space
  form of `json_dumps_bytes`.

  Main results:
    * `pairs_jsonLaws`, `pairs_dictLaws`, `pairs_constantsUnique`.
-/
import SeamlessCore.Cells.Projection
import SeamlessCore.Checksum.Small
import SeamlessCore.Conversion.Written

namespace SeamlessCore

open Python

namespace Small

/-! ## §1. The instance. -/

/-- The text before a key -/
def entryHead : PyStr := py "\x7b\n  \""

/-- The text between a key and its value -/
def entryColon : PyStr := py "\": "

/-- The text after the value -/
def entryEnd : PyStr := py "\n\x7d"

def emptyDict : PyStr := py "\x7b\x7d"

/-- The text of one entry, after its head -/
def readEntry (s : PyStr) : Option Value :=
  let key := s.takeWhile (· ≠ cp '"')
  let rest := s.dropWhile (· ≠ cp '"')
  if entryColon.isPrefixOf rest then
    (readJson (rstripNewlines (rest.drop 3).dropLast.dropLast)).map fun v => .dict [(.str key, v)]
  else none

def readPair (s : PyStr) : Option Value :=
  match readJson s with
  | some v => some v
  | none =>
    if s = emptyDict then some (.dict [])
    else if entryHead.isPrefixOf s then readEntry (s.drop 5)
    else none

def writePair : Value → Option Bytes
  | .dict [] => encodeUtf8 emptyDict
  | .dict [(.str key, v)] =>
    if key.all plainChar then
      (writeJson v).bind fun b =>
        (encodeUtf8 (entryHead ++ key ++ entryColon)).map fun head => head ++ b ++ ascii "\n\x7d"
    else none
  | v => writeJson v

end Small

/-- The instance with dicts -/
def pairs : Libraries :=
  { small with
    orjsonLoads := fun s => Small.readPair (rstripNewlines s)
    orjsonDumps := Small.writePair }

namespace Small

/-! ## §2. Its laws. -/

theorem pairs_constantsUnique : pairs.ConstantsUnique := small_collisionFree.constants

theorem isJson_pairs (v : Value) (h : small.IsJson v) : pairs.IsJson v := by
  rcases h with _ | b | ⟨n, hn⟩ | ⟨x, hx⟩ | ⟨s, hs⟩ | items | items
  · exact .none
  · exact .bool b
  · exact .int n hn
  · exact .float (L := pairs) x hx
  · exact .str s hs
  · exact .list (L := pairs) items
  · exact .dict (L := pairs) items

theorem readPair_isJson {s : PyStr} {v : Value} (h : readPair s = some v) : pairs.IsJson v := by
  unfold readPair at h
  cases hread : readJson s with
  | some w =>
    rw [hread] at h
    rw [← Option.some.inj h]
    exact isJson_pairs w (readJson_isJson hread)
  | none =>
    rw [hread] at h
    dsimp only at h
    split_ifs at h
    · rw [← Option.some.inj h]
      exact .dict []
    · unfold readEntry at h
      dsimp only at h
      split at h
      · obtain ⟨w, -, rfl⟩ := Option.map_eq_some_iff.mp h
        exact .dict _
      · cases h

theorem pairs_jsonLaws : pairs.JsonLaws where
  loads_rstrip s := by
    show readPair (rstripNewlines (rstripNewlines s)) = readPair (rstripNewlines s)
    rw [rstripNewlines_idem]
  loads_isJson s v h := readPair_isJson h
  loads_true := rfl
  loads_false := rfl
  maxStrDigits_large := small_jsonLaws.maxStrDigits_large
  floatOfInt_small := small_jsonLaws.floatOfInt_small
  intOfFloat_finite := small_jsonLaws.intOfFloat_finite

/-- A text that starts with a brace and a newline is no scalar. -/
theorem readJson_brace (rest : PyStr) : readJson (cp '\x7b' :: cp '\n' :: rest) = none := by
  have hne : ∀ t : PyStr, t.head? ≠ some (cp '\x7b') → (cp '\x7b' :: cp '\n' :: rest) ≠ t := by
    intro t ht heq
    rw [← heq] at ht
    exact ht rfl
  have hform : (cp '\x7b' :: cp '\n' :: rest) ≠ objectForm := by
    intro heq
    have hsecond : cp '\n' = cp '"' := (List.cons.inj (List.cons.inj heq).2).1
    revert hsecond
    decide
  unfold readJson
  rw [if_neg (hne _ (by decide)), if_neg (hne _ (by decide)), if_neg (hne _ (by decide)),
    if_neg hform]
  show (if cp '\x7b' = cp '"' ∧ _ then _ else none) = none
  rw [if_neg fun h => absurd h.1 (by decide)]

theorem takeWhile_key {key : PyStr} (hkey : key.all plainChar = true) (rest : PyStr) :
    (key ++ cp '"' :: rest).takeWhile (· ≠ cp '"') = key ∧
      (key ++ cp '"' :: rest).dropWhile (· ≠ cp '"') = cp '"' :: rest := by
  have hplain : ∀ c ∈ key, decide (c ≠ cp '"') = true := by
    intro c hc
    have hchar := List.all_eq_true.mp hkey c hc
    unfold plainChar at hchar
    simp only [Bool.and_eq_true, decide_eq_true_eq] at hchar
    exact decide_eq_true hchar.1.1.2
  constructor
  · rw [List.takeWhile_append_of_pos hplain]
    simp
  · rw [List.dropWhile_append_of_pos hplain]
    simp

/-- The written text of an entry is read. -/
theorem readPair_entry {key text : PyStr} {v : Value} (hkey : key.all plainChar = true)
    (hv : readJson (rstripNewlines text) = some v) :
    readPair (entryHead ++ key ++ entryColon ++ text ++ entryEnd) = some (.dict [(.str key, v)]) := by
  have hassoc : entryHead ++ key ++ entryColon ++ text ++ entryEnd =
      cp '\x7b' :: cp '\n' :: cp ' ' :: cp ' ' :: cp '"' ::
        (key ++ cp '"' :: cp ':' :: cp ' ' :: (text ++ entryEnd)) := by
    simp only [List.append_assoc]
    rfl
  rw [hassoc]
  unfold readPair
  rw [readJson_brace]
  dsimp only
  -- the text is neither a scalar nor the empty dict
  have hempty : (cp '\x7b' :: cp '\n' :: cp ' ' :: cp ' ' :: cp '"' ::
      (key ++ cp '"' :: cp ':' :: cp ' ' :: (text ++ entryEnd))) ≠ emptyDict := by
    intro heq
    have hsecond : cp '\n' = cp '\x7d' := (List.cons.inj (List.cons.inj heq).2).1
    revert hsecond
    decide
  rw [if_neg hempty, if_pos (by rfl)]
  show readEntry (key ++ cp '"' :: cp ':' :: cp ' ' :: (text ++ entryEnd)) = _
  obtain ⟨htake, hdrop⟩ := takeWhile_key hkey (cp ':' :: cp ' ' :: (text ++ entryEnd))
  unfold readEntry
  rw [htake, hdrop]
  dsimp only
  rw [if_pos (by rfl)]
  -- what is left after the key and before the closing brace
  have hbody : ((cp '"' :: cp ':' :: cp ' ' :: (text ++ entryEnd)).drop 3).dropLast.dropLast =
      text := by
    show (text ++ [cp '\n', cp '\x7d']).dropLast.dropLast = text
    rw [List.dropLast_append_of_ne_nil (by simp)]
    show (text ++ [cp '\n']).dropLast = text
    exact List.dropLast_concat
  rw [hbody, hv]
  rfl

theorem rstrip_entry (s : PyStr) : rstripNewlines (s ++ entryEnd) = s ++ entryEnd := by
  apply List.rdropWhile_eq_self_iff.mpr
  intro hne hlast
  -- the text ends in a brace, so no newline is stripped
  have hend : (s ++ entryEnd).getLast hne = cp '\x7d' := by
    rw [List.getLast_append_of_ne_nil _ (by decide)]
    rfl
  rw [hend] at hlast
  revert hlast
  decide

/-- A scalar is read back. -/
theorem written_scalar {v : Value} {b : Bytes} (h : writeJson v = some b) :
    Cells.jsonOf (L := pairs) v = some v := by
  obtain ⟨text, hdecode, hread⟩ := writeJson_reads h
  have hwrite : writePair v = some b := by
    cases v with
    | dict items => cases h
    | _ => exact h
  have hloads : pairs.orjsonLoads text = some v := by
    show readPair (rstripNewlines text) = some v
    unfold readPair
    rw [hread]
  show ((writePair v).map (· ++ ascii "\n")).bind pairs.parsePlain = some v
  rw [hwrite]
  exact pairs.parsePlain_newline pairs_jsonLaws hdecode hloads

/-- The dicts that are written are read back: the empty one, and one scalar entry. -/
theorem writePair_dict {items : List (Value × Value)} {b : Bytes}
    (h : writePair (.dict items) = some b) :
    (∃ text, decodeUtf8 b = some text ∧ pairs.orjsonLoads text = some (.dict items)) ∧
      ∀ e ∈ items, (∃ k, e.1 = .str k) ∧ Cells.jsonOf (L := pairs) e.2 = some e.2 := by
  unfold writePair at h
  split at h
  next heq =>
    rw [PyValue.dict.inj heq]
    exact ⟨⟨emptyDict, decodeUtf8_encodeUtf8 h, rfl⟩, fun e he => absurd he List.not_mem_nil⟩
  next key v heq =>
    rw [PyValue.dict.inj heq]
    split_ifs at h with hkey
    obtain ⟨vb, hvb, hrest⟩ := Option.bind_eq_some_iff.mp h
    obtain ⟨head, hhead, rfl⟩ := Option.map_eq_some_iff.mp hrest
    obtain ⟨text, hdecode, hread⟩ := writeJson_reads hvb
    have htext : decodeUtf8 (head ++ vb ++ ascii "\n\x7d") =
        some (entryHead ++ key ++ entryColon ++ text ++ entryEnd) := by
      rw [List.append_assoc, decodeUtf8_append (decodeUtf8_encodeUtf8 hhead),
        decodeUtf8_append hdecode]
      have hend : decodeUtf8 (ascii "\n\x7d") = some entryEnd := by decide
      rw [hend]
      simp only [Option.map_some, List.append_assoc]
    have hloads : pairs.orjsonLoads (entryHead ++ key ++ entryColon ++ text ++ entryEnd) =
        some (.dict [(.str key, v)]) := by
      show readPair (rstripNewlines _) = _
      rw [rstrip_entry]
      exact readPair_entry hkey hread
    refine ⟨⟨_, htext, hloads⟩, fun e he => ?_⟩
    rw [List.mem_singleton.mp he]
    exact ⟨⟨key, rfl⟩, written_scalar hvb⟩
  next hother => cases h

theorem pairs_dictLaws : Cells.DictLaws pairs := by
  have hread : ∀ items b, pairs.jsonBuffer (.dict items) = some b →
      pairs.parsePlain b = some (.dict items) ∧
        ∀ e ∈ items, (∃ k, e.1 = .str k) ∧ Cells.jsonOf (L := pairs) e.2 = some e.2 := by
    intro items b h
    obtain ⟨b', hwrite, rfl⟩ := Libraries.jsonBuffer_some h
    obtain ⟨⟨text, hdecode, hloads⟩, hentries⟩ := writePair_dict hwrite
    exact ⟨pairs.parsePlain_newline pairs_jsonLaws hdecode hloads, hentries⟩
  refine ⟨rfl, ?_, ?_, ?_, ?_⟩
  · exact fun items b h e he => ((hread items b h).2 e he).1
  · exact fun items b h e he => ⟨e.2, ((hread items b h).2 e he).2⟩
  · intro items b h
    obtain ⟨hparse, hentries⟩ := hread items b h
    -- what is read are the same items, so both directions go by the entry itself
    refine ⟨items, hparse, fun e he => (hentries e he).1, fun k v => ⟨fun hmem => ?_, ?_⟩⟩
    · exact ⟨v, hmem, (hentries _ hmem).2⟩
    · rintro ⟨u, hmem, hu⟩
      rw [(hentries _ hmem).2] at hu
      rw [← Option.some.inj hu]
      exact hmem
  · intro s v h
    obtain ⟨b, hb, -⟩ := Option.bind_eq_some_iff.mp h
    obtain ⟨b', hwrite, -⟩ := Libraries.jsonBuffer_some hb
    have hscalar : writeJson (.str s) = some b' := hwrite
    have hself := written_scalar hscalar
    exact Option.some.inj (h.symm.trans hself)

end Small

end SeamlessCore
