/-
  SeamlessCore.Conversion.Written — what is written reads back.

  The buffer that a rule writes for a value is valid for the celltype it was
  written as, and a buffer stays valid along a trivial conversion.

  Main results:
    * `valid_written_str`, `valid_written_int`, … — one lemma a celltype;
    * `valid_text_of_decodes`, `decodes_of_valid` — which text buffers are code;
    * `valid_trivial` — trivial conversions keep validity.
-/
import SeamlessCore.Conversion.Validity

namespace SeamlessCore

open Python Lazy

namespace Libraries

variable {L : Libraries}

/-! ## §1. Virtual values that are never invalid. -/

theorem virtualValue_ne_invalid (c : Checksum) {t : Celltype} (hbool : t ≠ .bool) (hint : t ≠ .int)
    (hfloat : t ≠ .float) : L.virtualValue c t ≠ .invalid := by
  by_cases hnull : c ∈ L.nullChecksums
  · rw [L.virtualValue_null hnull]
    exact fun h => by cases h
  by_cases hconst : c ∈ L.trueChecksums ++ L.falseChecksums
  · obtain ⟨value, hvalue⟩ := L.virtualValue_bool hnull hconst
    rw [hvalue]
    intro h
    cases t <;> first | exact hint rfl | exact hfloat rfl | cases h
  · rw [L.virtualValue_other hnull hconst, if_neg hbool]
    exact fun h => by cases h

/-- A number is no boolean. -/
theorem virtualValue_ne_invalid_of_number (hL : L.JsonLaws) (hC : L.CollisionFree) {b : Bytes}
    {v : L.Value} (hv : L.parsePlain b = some v) (hn : L.isNumeric v = true) {t : Celltype}
    (hbool : t ≠ .bool) : L.virtualValue (L.sha256 b) t ≠ .invalid := by
  by_cases hnull : L.sha256 b ∈ L.nullChecksums
  · rw [L.virtualValue_null hnull]
    exact fun h => by cases h
  by_cases hconst : L.sha256 b ∈ L.trueChecksums ++ L.falseChecksums
  · exfalso
    obtain ⟨-, hflags⟩ := L.boolBuffer_json hL (L.boolBuffer_of_checksum hC.constants hconst)
    obtain ⟨text, -, hloads, hkf, -⟩ := L.parsePlain_some hL hv
    have hnumeric := (L.jsonKindAndFlags_loads hL hloads hkf).1
    rw [hn, hflags] at hnumeric
    cases hnumeric
  · rw [L.virtualValue_other hnull hconst, if_neg hbool]
    exact fun h => by cases h

/-! ## §2. Written values. -/

theorem valid_bytes (b : Bytes) : L.Valid b .bytes := by
  apply L.valid_of_body (virtualValue_ne_invalid _ (by simp) (by simp) (by simp)) ?_ rfl
  rintro ⟨hnone, hvirtual, -⟩
  rw [L.contentValue_notVirtual hvirtual] at hnone
  have htrue : L.deserializableAs (L.fromBuffer b) .bytes (L.sha256 b) = some true := by
    unfold deserializableAs
    rw [if_neg (L.not_null_of_notVirtual hvirtual), if_pos rfl]
  rw [if_neg (by simp [htrue])] at hnone
  cases hnone

theorem valid_plain (hL : L.JsonLaws) {b : Bytes} {v : L.Value} (hv : L.parsePlain b = some v) :
    L.Valid b .plain := by
  apply L.valid_of_body (virtualValue_ne_invalid _ (by simp) (by simp) (by simp))
    (L.not_loose hL b (by simp) (by simp) (by simp))
  show (L.parsePlain b).isSome = true
  rw [hv]
  rfl

/-- JSON text reads as a mixed value. -/
theorem valid_mixed_of_plain (hL : L.JsonLaws) {b : Bytes} (h : L.Valid b .plain) :
    L.Valid b .mixed := by
  obtain ⟨v, hv⟩ := L.valid_iff.mp h
  rw [L.valid_iff]
  cases hvirtual : L.virtualValue (L.sha256 b) .mixed with
  | value v' => exact ⟨v', L.contentValue_virtual hvirtual⟩
  | invalid => exact absurd hvirtual (virtualValue_ne_invalid _ (by simp) (by simp) (by simp))
  | notVirtual =>
    -- the same checksums are virtual as `plain`
    have hnull := L.not_null_of_notVirtual hvirtual
    have hconst : L.sha256 b ∉ L.trueChecksums ++ L.falseChecksums := by
      intro hc
      obtain ⟨value, hvalue⟩ := L.virtualValue_bool hnull hc
      rw [hvalue] at hvirtual
      cases hvirtual
    have hplain : L.virtualValue (L.sha256 b) .plain = .notVirtual := by
      rw [L.virtualValue_other hnull hconst, if_neg (by simp)]
    obtain ⟨hbody, -⟩ := L.body_of_valid hv hplain
    obtain ⟨text, hdecode, -, -, hjson⟩ := L.parsePlain_some hL hbody
    obtain ⟨v', storage, hmd⟩ := L.mixedDeserialize_text hdecode
    have hanswer : L.deserializableAs (L.fromBuffer b) .mixed (L.sha256 b) = some true := by
      rw [L.deserializableAs_tested hnull (by simp) (by simp) (L.fromBuffer_tested b)]
      have htested := L.fromBuffer_tested b
      revert hjson htested
      unfold testedAnswer HashType.isJson HashType.isMixed HashType.isUntested
      cases (L.fromBuffer b).kind <;> simp
    rw [L.contentValue_notVirtual hvirtual, if_neg (by simp [hanswer])]
    show ∃ v, (L.mixedDeserialize b).map Prod.fst = some v
    rw [hmd]
    exact ⟨v', rfl⟩

theorem jsonBuffer_some {v : L.Value} {b : Bytes} (h : L.jsonBuffer v = some b) :
    ∃ b', L.orjsonDumps v = some b' ∧ b = b' ++ ascii "\n" := by
  unfold jsonBuffer at h
  obtain ⟨b', hdumps, hb⟩ := Option.map_eq_some_iff.mp h
  exact ⟨b', hdumps, hb.symm⟩

/-- The newline after JSON text is not part of it. -/
theorem parsePlain_newline (hL : L.JsonLaws) {b : Bytes} {text : PyStr} {v : L.Value}
    (hdecode : decodeUtf8 b = some text) (hv : L.orjsonLoads text = some v) :
    L.parsePlain (b ++ ascii "\n") = some v := by
  unfold parsePlain
  rw [decodeUtf8_append hdecode]
  show L.orjsonLoads (rstripNewlines (text ++ [cp '\n'])) = some v
  rw [rstripNewlines_append_newline, hL.loads_rstrip, hv]

/-- JSON text is text. -/
theorem decodes_jsonBuffer (hW : L.WriteLaws) {v : L.Value} {b : Bytes}
    (h : L.jsonBuffer v = some b) : ∃ text, decodeUtf8 b = some text := by
  obtain ⟨b', hdumps, rfl⟩ := jsonBuffer_some h
  obtain ⟨text, -, hdecode, -⟩ := hW.dumps_loads v b' hdumps
  refine ⟨text ++ [cp '\n'], ?_⟩
  rw [decodeUtf8_append hdecode]
  rfl

theorem valid_written_plain (hL : L.JsonLaws) (hW : L.WriteLaws) {v : L.Value} {b : Bytes}
    (h : L.jsonBuffer v = some b) : L.Valid b .plain := by
  obtain ⟨b', hdumps, rfl⟩ := jsonBuffer_some h
  obtain ⟨text, v', hdecode, hv⟩ := hW.dumps_loads v b' hdumps
  exact valid_plain hL (parsePlain_newline hL hdecode hv)

theorem valid_written_str (hL : L.JsonLaws) (hW : L.WriteLaws) {s : PyStr} {b : Bytes}
    (h : L.jsonBuffer (.str s) = some b) : L.Valid b .str := by
  obtain ⟨b', hdumps, rfl⟩ := jsonBuffer_some h
  obtain ⟨text, -, hdecode, -⟩ := hW.dumps_loads _ b' hdumps
  have hplain := parsePlain_newline hL hdecode (hW.dumps_str s b' text hdumps hdecode)
  apply L.valid_of_body (virtualValue_ne_invalid _ (by simp) (by simp) (by simp))
    (L.not_loose hL _ (by simp) (by simp) (by simp))
  show (L.parseScalar _ .str).isSome = true
  unfold parseScalar
  rw [if_neg (by simp), hplain]
  rfl

/-- A short number reads as `int` and as `float`. -/
theorem valid_number (hL : L.JsonLaws) (hC : L.CollisionFree) {b : Bytes} {v : L.Value}
    (hv : L.parsePlain b = some v) (hn : L.isNumeric v = true) (hlen : b.length ≤ 1000)
    {t : Celltype} (ht : t = .int ∨ t = .float) : L.Valid b t := by
  have hbool : t ≠ .bool := by
    rcases ht with rfl | rfl <;> simp
  apply L.valid_of_body (virtualValue_ne_invalid_of_number hL hC hv hn hbool)
    (L.not_loose hL b (by rcases ht with rfl | rfl <;> simp) (by rcases ht with rfl | rfl <;> simp)
      (by rcases ht with rfl | rfl <;> simp))
  obtain ⟨text, -, hloads, -⟩ := L.parsePlain_some hL hv
  have hjson := hL.loads_isJson text v hloads
  obtain ⟨x, hx⟩ := L.pyFloat_numeric hL hjson hn
  obtain ⟨n, hi⟩ := L.scalarInt_numeric hL hjson hn
  have hshort : ¬ 1000 < b.length := by omega
  rcases ht with rfl | rfl
  · show (L.parseScalar b .int).isSome = true
    unfold parseScalar
    rw [if_neg (by simp [hshort]), hv]
    simp [hn, hi]
  · show (L.parseScalar b .float).isSome = true
    unfold parseScalar
    rw [if_neg (by simp [hshort]), hv]
    simp [hn, hx]

theorem valid_written_int (hL : L.JsonLaws) (hW : L.WriteLaws) (hC : L.CollisionFree) {n : Int}
    {b : Bytes} (h : L.jsonBuffer (.int n) = some b) : L.Valid b .int := by
  obtain ⟨b', hdumps, rfl⟩ := jsonBuffer_some h
  obtain ⟨hlen, text, hdecode, hv⟩ := hW.dumps_int n b' hdumps
  have hlen' : (b' ++ ascii "\n").length ≤ 1000 := by
    rw [List.length_append]
    show b'.length + 1 ≤ 1000
    omega
  exact valid_number hL hC (parsePlain_newline hL hdecode hv) rfl hlen' (.inl rfl)

theorem valid_written_float (hL : L.JsonLaws) (hW : L.WriteLaws) (hC : L.CollisionFree)
    {x : L.Float} (hx : L.isFinite x = true) {b : Bytes} (h : L.jsonBuffer (.float x) = some b) :
    L.Valid b .float := by
  obtain ⟨b', hdumps, rfl⟩ := jsonBuffer_some h
  obtain ⟨hlen, text, y, hdecode, hv⟩ := hW.dumps_float x b' hdumps hx
  have hlen' : (b' ++ ascii "\n").length ≤ 1000 := by
    rw [List.length_append]
    show b'.length + 1 ≤ 1000
    omega
  have hn : L.isNumeric (.float y) = true := by
    cases hL.loads_isJson text _ hv with
    | float _ hy => exact hy
  exact valid_number hL hC (parsePlain_newline hL hdecode hv) hn hlen' (.inr rfl)

/-- Booleans are written as one of the constants. -/
theorem valid_written_bool (hW : L.WriteLaws) {value : Bool} {b : Bytes}
    (h : L.jsonBuffer (.bool value) = some b) : L.Valid b .bool := by
  obtain ⟨b', hdumps, rfl⟩ := jsonBuffer_some h
  rw [hW.dumps_bool value] at hdumps
  rw [← Option.some.inj hdumps]
  by_cases hnull : L.sha256 ((if value then ascii "true" else ascii "false") ++ ascii "\n") ∈
      L.nullChecksums
  · exact L.valid_of_null hnull .bool
  · have hconst : L.sha256 ((if value then ascii "true" else ascii "false") ++ ascii "\n") ∈
        L.trueChecksums ++ L.falseChecksums := by
      unfold trueChecksums falseChecksums trueBuffers falseBuffers
      cases value
      · simp [ascii]
      · simp [ascii]
    obtain ⟨value', hvalue⟩ := L.virtualValue_bool hnull hconst
    exact L.valid_iff.mpr ⟨_, L.contentValue_virtual (hvalue .bool)⟩

theorem textBuffer_decodes {s : PyStr} {b : Bytes} (h : textBuffer s = some b) :
    decodeUtf8 b = some (rstripNewlines s ++ [cp '\n']) := decodeUtf8_encodeUtf8 h

/-- Text without a virtual value is valid where its text is. -/
theorem valid_text_of_decodes (hL : L.JsonLaws) {b : Bytes} {text : PyStr}
    (hdecode : decodeUtf8 b = some text) {t : Celltype}
    (ht : t = .text ∨ t = .python ∨ t = .ipython ∨ t = .yaml)
    (hv : L.validateText (rstripNewlines text) t = true) : L.Valid b t := by
  have hne : t ≠ .bool ∧ t ≠ .int ∧ t ≠ .float ∧ t ≠ .binary ∧ t ≠ .mixed ∧ t ≠ .checksum := by
    rcases ht with rfl | rfl | rfl | rfl <;> simp
  apply L.valid_of_body (virtualValue_ne_invalid _ hne.1 hne.2.1 hne.2.2.1)
    (L.not_loose hL b hne.2.2.2.1 hne.2.2.2.2.1 hne.2.2.2.2.2)
  have hbody : L.parseBody b t = L.parseText b t := by
    rcases ht with rfl | rfl | rfl | rfl <;> rfl
  rw [hbody]
  unfold parseText
  rw [hdecode]
  simp [hv]

theorem valid_text (hL : L.JsonLaws) {b : Bytes} {text : PyStr} (h : decodeUtf8 b = some text) :
    L.Valid b .text := valid_text_of_decodes hL h (.inl rfl) rfl

/-- A valid text decodes, but for the constants. -/
theorem decodes_of_valid (hC : L.CollisionFree) {b : Bytes} {t : Celltype}
    (ht : t = .text ∨ t = .python ∨ t = .ipython ∨ t = .yaml) (h : L.Valid b t) :
    ∃ text, decodeUtf8 b = some text ∧
      (L.sha256 b ∈ L.nullChecksums ∨ L.validateText (rstripNewlines text) t = true) := by
  obtain ⟨v, hv⟩ := L.valid_iff.mp h
  by_cases hnull : L.sha256 b ∈ L.nullChecksums
  · -- the null buffers are text
    obtain ⟨constant, hmem, hsha⟩ := List.mem_map.mp hnull
    have hb := hC.constants constant (by simp [hmem]) b hsha.symm
    rw [hb]
    simp only [nullBuffers, List.mem_cons, List.not_mem_nil, or_false] at hmem
    rcases hmem with rfl | rfl
    · exact ⟨py "null", by decide, .inl (hb ▸ hnull)⟩
    · exact ⟨py "null\n", by decide, .inl (hb ▸ hnull)⟩
  · have hvirtual : L.virtualValue (L.sha256 b) t = .notVirtual := by
      by_cases hconst : L.sha256 b ∈ L.trueChecksums ++ L.falseChecksums
      · obtain ⟨value, hvalue⟩ := L.virtualValue_bool hnull hconst
        rw [hvalue]
        rcases ht with rfl | rfl | rfl | rfl <;> rfl
      · rw [L.virtualValue_other hnull hconst, if_neg]
        rcases ht with rfl | rfl | rfl | rfl <;> simp
    obtain ⟨hbody, -⟩ := L.body_of_valid hv hvirtual
    have hparse : L.parseText b t = some v := by
      rcases ht with rfl | rfl | rfl | rfl <;> exact hbody
    unfold parseText at hparse
    cases hdecode : decodeUtf8 b with
    | none => simp [hdecode] at hparse
    | some text =>
      simp only [hdecode] at hparse
      split at hparse
      next hvalid => exact ⟨text, rfl, .inr hvalid⟩
      next => cases hparse

/-- An array that was saved reads as an array. -/
theorem valid_written_binary (hW : L.WriteLaws) {a : L.Array} {b : Bytes}
    (ha : (∃ v, (∀ a', v ≠ .array a') ∧ L.npArray v = some a) ∨ ∃ raw, a = L.npBytes raw)
    (h : L.npSave a = some b) :
    L.Valid b .binary ∧ (L.fromBuffer b).kind = .numpy := by
  obtain ⟨hmagic, hload, hstream⟩ := hW.npSave_reads a b ha h
  obtain ⟨a', ha'⟩ := Option.isSome_iff_exists.mp hload
  have hkind : (L.fromBuffer b).kind = .numpy := by
    unfold fromBuffer
    simp [hmagic, ha']
  refine ⟨?_, hkind⟩
  obtain ⟨a'', hmd⟩ := L.mixedDeserialize_numpy hmagic hstream
  rw [L.valid_iff]
  cases hvirtual : L.virtualValue (L.sha256 b) .binary with
  | value v => exact ⟨v, L.contentValue_virtual hvirtual⟩
  | invalid => exact absurd hvirtual (virtualValue_ne_invalid _ (by simp) (by simp) (by simp))
  | notVirtual =>
    rw [L.contentValue_notVirtual hvirtual,
      L.deserializableAs_tested (L.not_null_of_notVirtual hvirtual) (by simp) (by simp)
        (L.fromBuffer_tested b)]
    unfold testedAnswer
    rw [hkind, if_neg (by simp)]
    unfold parseBody
    rw [hmd]
    exact ⟨_, rfl⟩

/-! ## §3. Checksums. -/

theorem length_encodeChar_ascii {c : CodePoint} (h : c.val < 0x80) : (encodeChar c).length = 1 := by
  unfold encodeChar
  rw [if_pos h]
  rfl

/-- Hexadecimal digits take one byte each. -/
theorem encodeUtf8_hex {c : Checksum} {b : Bytes} (h : encodeUtf8 c.hex = some b) :
    b.length = 64 := by
  have hascii : ∀ x ∈ c.hex, (encodeChar x).length = 1 := by
    intro x hx
    obtain ⟨m, rfl⟩ := Small.hexDigit_of_mem (b := c.digest) hx
    have hval := hexDigit_val m
    exact length_encodeChar_ascii (by omega)
  unfold encodeUtf8 at h
  split at h
  · cases h
  · rw [← Option.some.inj h, List.length_flatMap, List.map_congr_left hascii, List.map_const',
      List.sum_replicate_nat, Nat.mul_one]
    show (hex c.digest).length = 64
    rw [length_hex, c.length_eq]

theorem valid_written_checksum (hL : L.JsonLaws) (hW : L.WriteLaws) {c : Checksum} {b : Bytes}
    (h : encodeUtf8 c.hex = some b) : L.Valid b .checksum := by
  have hdecode := decodeUtf8_encodeUtf8 h
  have hlen := encodeUtf8_hex h
  rw [L.valid_iff]
  cases hvirtual : L.virtualValue (L.sha256 b) .checksum with
  | value v => exact ⟨v, L.contentValue_virtual hvirtual⟩
  | invalid => exact absurd hvirtual (virtualValue_ne_invalid _ (by simp) (by simp) (by simp))
  | notVirtual =>
    have hlength : (L.fromBuffer b).length = .eq64 := by
      rw [L.fromBuffer_length, hlen]
      rfl
    -- the digits are raw text, or a JSON number
    have hkind : (L.fromBuffer b).kind = .rawText ∨ (L.fromBuffer b).kind = .jsonNumber := by
      obtain ⟨hnumpy, hmixed⟩ := no_magic_of_decodes hdecode
      cases hloads : L.orjsonLoads c.hex with
      | none =>
        left
        unfold fromBuffer
        simp [hnumpy, hmixed, hdecode, jsonKindAndFlags, hloads]
      | some v =>
        right
        obtain ⟨hkf, -⟩ := L.isJson_of_loads hL hnumpy hmixed hdecode hloads
        unfold jsonKindAndFlags at hkf
        rw [hloads] at hkf
        rcases hW.loads_hex c v hloads with ⟨n, rfl⟩ | ⟨x, rfl⟩
        · exact (Option.some.inj (Prod.mk.inj hkf).1).symm
        · exact (Option.some.inj (Prod.mk.inj hkf).1).symm
    rw [L.contentValue_notVirtual hvirtual,
      L.deserializableAs_tested (L.not_null_of_notVirtual hvirtual) (by simp) (by simp)
        (L.fromBuffer_tested b)]
    have hanswer : L.testedAnswer (L.fromBuffer b) .checksum (L.sha256 b) = none :=
      if_pos ⟨hkind, hlength⟩
    rw [hanswer, if_neg (by simp)]
    unfold parseBody
    rw [hdecode]
    show ∃ v, (Checksum.ofStr c.hex).map PyValue.checksum = some v
    rw [Checksum.ofStr_hex]
    exact ⟨_, rfl⟩

/-! ## §4. Trivial conversions. -/

/-- A scalar that is not virtual was read from JSON text. -/
theorem parsePlain_of_scalar {b : Bytes} {t : Celltype} {v : L.Value}
    (h : L.parseScalar b t = some v) : ∃ v', L.parsePlain b = some v' := by
  unfold parseScalar at h
  split at h
  · cases h
  · cases hplain : L.parsePlain b with
    | none => simp [hplain] at h
    | some v' => exact ⟨v', rfl⟩

/-- Scalars are plain values. -/
theorem valid_plain_of_scalar (hL : L.JsonLaws) {b : Bytes} {t : Celltype}
    (ht : t = .str ∨ t = .int ∨ t = .float ∨ t = .bool) (h : L.Valid b t) : L.Valid b .plain := by
  obtain ⟨v, hv⟩ := L.valid_iff.mp h
  by_cases hnull : L.sha256 b ∈ L.nullChecksums
  · exact L.valid_of_null hnull .plain
  by_cases hconst : L.sha256 b ∈ L.trueChecksums ++ L.falseChecksums
  · obtain ⟨value, hvalue⟩ := L.virtualValue_bool hnull hconst
    exact L.valid_iff.mpr ⟨_, L.contentValue_virtual (hvalue .plain)⟩
  have hbool : t ≠ .bool := by
    intro ht
    rw [ht, L.contentValue_invalid] at hv
    · cases hv
    · rw [L.virtualValue_other hnull hconst, if_pos rfl]
  obtain ⟨hbody, -⟩ := L.body_of_valid hv (by rw [L.virtualValue_other hnull hconst, if_neg hbool])
  have hscalar : L.parseScalar b t = some v := by
    rcases ht with rfl | rfl | rfl | rfl <;> exact hbody
  obtain ⟨v', hv'⟩ := parsePlain_of_scalar hscalar
  exact valid_plain hL hv'

/-- JSON values are text. -/
theorem valid_text_of_plain (hL : L.JsonLaws) (hC : L.CollisionFree) {b : Bytes}
    (h : L.Valid b .plain) : L.Valid b .text := by
  obtain ⟨v, hv⟩ := L.valid_iff.mp h
  by_cases hnull : L.sha256 b ∈ L.nullChecksums
  · exact L.valid_of_null hnull .text
  by_cases hconst : L.sha256 b ∈ L.trueChecksums ++ L.falseChecksums
  · have hb := L.boolBuffer_of_checksum hC.constants hconst
    simp only [trueBuffers, falseBuffers, List.cons_append, List.nil_append, List.mem_cons,
      List.not_mem_nil, or_false] at hb
    rcases hb with rfl | rfl | rfl | rfl
    · exact valid_text hL (show decodeUtf8 _ = some (py "true") by decide)
    · exact valid_text hL (show decodeUtf8 _ = some (py "true\n") by decide)
    · exact valid_text hL (show decodeUtf8 _ = some (py "false") by decide)
    · exact valid_text hL (show decodeUtf8 _ = some (py "false\n") by decide)
  · obtain ⟨hbody, -⟩ := L.body_of_valid hv (by
      rw [L.virtualValue_other hnull hconst, if_neg (by simp)])
    obtain ⟨text, hdecode, -⟩ := L.parsePlain_some hL hbody
    exact valid_text hL hdecode

/-- A number that reads as `int` or `float` was read from JSON text. -/
theorem number_of_valid {b : Bytes} {t : Celltype} (ht : t = .int ∨ t = .float)
    (h : L.Valid b t) : L.sha256 b ∈ L.nullChecksums ∨
      ∃ v, L.parsePlain b = some v ∧ L.isNumeric v = true ∧ b.length ≤ 1000 := by
  obtain ⟨v, hv⟩ := L.valid_iff.mp h
  by_cases hnull : L.sha256 b ∈ L.nullChecksums
  · exact .inl hnull
  right
  have hvirtual : L.virtualValue (L.sha256 b) t = .notVirtual := by
    by_cases hconst : L.sha256 b ∈ L.trueChecksums ++ L.falseChecksums
    · exfalso
      obtain ⟨value, hvalue⟩ := L.virtualValue_bool hnull hconst
      rw [L.contentValue_invalid] at hv
      · cases hv
      · rw [hvalue]
        rcases ht with rfl | rfl <;> rfl
    · rw [L.virtualValue_other hnull hconst, if_neg (by rcases ht with rfl | rfl <;> simp)]
  obtain ⟨hbody, -⟩ := L.body_of_valid hv hvirtual
  have hscalar : L.parseScalar b t = some v := by
    rcases ht with rfl | rfl <;> exact hbody
  unfold parseScalar at hscalar
  by_cases hlong : 1000 < b.length
  · rw [if_pos ⟨ht, hlong⟩] at hscalar
    cases hscalar
  rw [if_neg fun h => hlong h.2] at hscalar
  cases hplain : L.parsePlain b with
  | none => simp [hplain] at hscalar
  | some v' =>
    refine ⟨v', rfl, ?_, by omega⟩
    by_contra hn
    simp only [hplain] at hscalar
    rcases ht with rfl | rfl <;> simp [hn] at hscalar

/-- Numbers read as strings. -/
theorem valid_str_of_number (hL : L.JsonLaws) {b : Bytes} {t : Celltype}
    (ht : t = .int ∨ t = .float) (h : L.Valid b t) : L.Valid b .str := by
  rcases number_of_valid ht h with hnull | ⟨v, hv, hn, -⟩
  · exact L.valid_of_null hnull .str
  apply L.valid_of_body (virtualValue_ne_invalid _ (by simp) (by simp) (by simp))
    (L.not_loose hL b (by simp) (by simp) (by simp))
  obtain ⟨text, -, hloads, -⟩ := L.parsePlain_some hL hv
  obtain ⟨s, hs⟩ := L.scalarStr_json hL (hL.loads_isJson text v hloads)
    (by rintro rfl; cases hn) (by rintro items rfl; cases hn) (by rintro items rfl; cases hn)
  show (L.parseScalar b .str).isSome = true
  unfold parseScalar
  rw [if_neg (by simp), hv]
  simp [hs]

/-- Arrays are mixed values. -/
theorem valid_mixed_of_binary {b : Bytes} (h : L.Valid b .binary) : L.Valid b .mixed := by
  obtain ⟨v, hv⟩ := L.valid_iff.mp h
  rw [L.valid_iff]
  cases hvirtual : L.virtualValue (L.sha256 b) .mixed with
  | value v' => exact ⟨v', L.contentValue_virtual hvirtual⟩
  | invalid => exact absurd hvirtual (virtualValue_ne_invalid _ (by simp) (by simp) (by simp))
  | notVirtual =>
    have hnull := L.not_null_of_notVirtual hvirtual
    have hbinary : L.virtualValue (L.sha256 b) .binary = .notVirtual := by
      by_cases hconst : L.sha256 b ∈ L.trueChecksums ++ L.falseChecksums
      · obtain ⟨value, hvalue⟩ := L.virtualValue_bool hnull hconst
        rw [hvalue]
        rfl
      · rw [L.virtualValue_other hnull hconst, if_neg (by simp)]
    obtain ⟨hbody, hfalse⟩ := L.body_of_valid hv hbinary
    -- a word that does not disprove `binary` is of the kind NUMPY, and proves `mixed`
    have hkind : (L.fromBuffer b).kind = .numpy := by
      rw [L.deserializableAs_tested hnull (by simp) (by simp) (L.fromBuffer_tested b)] at hfalse
      unfold testedAnswer at hfalse
      simpa using hfalse
    have htrue : L.deserializableAs (L.fromBuffer b) .mixed (L.sha256 b) ≠ some false := by
      rw [L.deserializableAs_tested hnull (by simp) (by simp) (L.fromBuffer_tested b)]
      unfold testedAnswer HashType.isMixed
      simp [hkind]
    rw [L.contentValue_notVirtual hvirtual, if_neg htrue]
    unfold parseBody at hbody ⊢
    cases hmd : L.mixedDeserialize b with
    | none => simp [hmd] at hbody
    | some result => exact ⟨result.1, rfl⟩

/-- Trivial conversions keep validity; that of `plain` to `yaml` is imprecise. -/
theorem valid_trivial (hL : L.JsonLaws) (hW : L.WriteLaws) (hC : L.CollisionFree) {b : Bytes}
    {s t : Celltype} (hpair : (s, t) ∈ Conversion.trivialPairs) (hyaml : t ≠ .yaml)
    (h : L.Valid b s) : L.Valid b t := by
  simp only [Conversion.trivialPairs, List.mem_cons, List.not_mem_nil, or_false,
    Prod.mk.injEq] at hpair
  rcases hpair with ⟨rfl, rfl⟩ | ⟨rfl, rfl⟩ | ⟨rfl, rfl⟩ | ⟨rfl, rfl⟩ | ⟨rfl, rfl⟩ | ⟨rfl, rfl⟩ |
    ⟨rfl, rfl⟩ | ⟨rfl, rfl⟩ | ⟨rfl, rfl⟩ | ⟨rfl, rfl⟩ | ⟨rfl, rfl⟩ | ⟨rfl, rfl⟩ | ⟨rfl, rfl⟩ |
    ⟨rfl, rfl⟩ | ⟨rfl, rfl⟩ | ⟨rfl, rfl⟩ | ⟨rfl, rfl⟩ | ⟨rfl, rfl⟩
  · exact valid_bytes b
  · obtain ⟨text, hdecode, -⟩ := decodes_of_valid hC (by simp) h
    exact valid_text hL hdecode
  · obtain ⟨text, hdecode, -⟩ := decodes_of_valid hC (by simp) h
    exact valid_text hL hdecode
  · -- Python code is IPython code
    obtain ⟨text, hdecode, hnull | hvalid⟩ := decodes_of_valid hC (by simp) h
    · exact L.valid_of_null hnull .ipython
    · exact valid_text_of_decodes hL hdecode (by simp) (hW.ipython_of_python _ hvalid)
  · obtain ⟨text, hdecode, -⟩ := decodes_of_valid hC (by simp) h
    exact valid_text hL hdecode
  · exact absurd rfl hyaml
  · exact valid_bytes b
  · exact valid_mixed_of_binary h
  · exact valid_mixed_of_plain hL h
  · exact valid_plain_of_scalar hL (by simp) h
  · exact valid_plain_of_scalar hL (by simp) h
  · exact valid_plain_of_scalar hL (by simp) h
  · exact valid_plain_of_scalar hL (by simp) h
  · rcases number_of_valid (.inl rfl) h with hnull | ⟨v, hv, hn, hlen⟩
    · exact L.valid_of_null hnull .float
    · exact valid_number hL hC hv hn hlen (.inr rfl)
  · rcases number_of_valid (.inr rfl) h with hnull | ⟨v, hv, hn, hlen⟩
    · exact L.valid_of_null hnull .int
    · exact valid_number hL hC hv hn hlen (.inl rfl)
  · exact valid_str_of_number hL (.inl rfl) h
  · exact valid_str_of_number hL (.inr rfl) h
  · -- a boolean is told by its checksum
    obtain ⟨v, hv⟩ := L.valid_iff.mp h
    by_cases hnull : L.sha256 b ∈ L.nullChecksums
    · exact L.valid_of_null hnull .str
    by_cases hconst : L.sha256 b ∈ L.trueChecksums ++ L.falseChecksums
    · obtain ⟨value, hvalue⟩ := L.virtualValue_bool hnull hconst
      exact L.valid_iff.mpr ⟨_, L.contentValue_virtual (hvalue .str)⟩
    · rw [L.contentValue_invalid] at hv
      · cases hv
      · rw [L.virtualValue_other hnull hconst, if_pos rfl]

end Libraries

end SeamlessCore
