/-
  SeamlessCore.HashType.Agreement — the classification and the parser agree.

  The classification reads magic prefixes, UTF-8, JSON kinds and NumPy
  headers; the parser decodes values.  Both consult the same decoders, and
  a proof of the one is a result of the other: `some false` means that the
  parser rejects the buffer, `some true` that it accepts it, whichever
  truthful word the proof was read from.

  Main results:
    * `parseBody_of_proof` — the buffer's own word, proved, makes the parser
      succeed;
    * `agrees_of_readable` — for every truthful word;
    * `classification_agrees` — the two agree exactly where `from_buffer` does
      not raise and the array is not one that only `np.load` reads.
-/
import SeamlessCore.Checksum.Small

namespace SeamlessCore

open Python

namespace Libraries

variable (L : Libraries)

/-! ## §1. What the parser sees of a JSON buffer. -/

theorem parsePlain_of_loads (hL : L.JsonLaws) {b : Bytes} {text : PyStr} {v : L.Value}
    (hdecode : decodeUtf8 b = some text) (hv : L.orjsonLoads text = some v) :
    L.parsePlain b = some v := by
  unfold parsePlain
  rw [hdecode]
  show L.orjsonLoads (rstripNewlines text) = some v
  rw [hL.loads_rstrip, hv]

/-- The kind of a JSON word tells which value was decoded. -/
theorem jsonKindAndFlags_loads (hL : L.JsonLaws) {text : PyStr} {v : L.Value}
    (hv : L.orjsonLoads text = some v) {kind : Kind} {flags : Flags}
    (h : L.jsonKindAndFlags text = (some kind, flags)) :
    flags.numericScalar = L.isNumeric v ∧
      (kind = .jsonNumber ∨ kind = .jsonString →
        v ≠ .none ∧ (∀ items, v ≠ .list items) ∧ ∀ items, v ≠ .dict items) := by
  unfold jsonKindAndFlags at h
  rw [hv] at h
  cases hL.loads_isJson text v hv <;>
    simp only [Prod.mk.injEq, Option.some.injEq] at h <;> obtain ⟨rfl, rfl⟩ := h
  case float x hx =>
    refine ⟨?_, by simp⟩
    show true = L.isFinite x
    rw [hx]
  all_goals exact ⟨rfl, by simp⟩

theorem mixedDeserialize_text {b : Bytes} {text : PyStr} (hdecode : decodeUtf8 b = some text) :
    ∃ v storage, L.mixedDeserialize b = some (v, storage) := by
  obtain ⟨hnumpy, hmixed⟩ := no_magic_of_decodes hdecode
  have hseamless := not_seamless_of_decodes hdecode
  unfold mixedDeserialize
  rw [if_neg (by simp [hnumpy]), if_neg (by simp [hmixed]), if_neg (by simp [hseamless]), hdecode]
  simp only
  cases L.jsonLoads text with
  | none => exact ⟨_, _, rfl⟩
  | some v => exact ⟨_, _, rfl⟩

theorem mixedDeserialize_numpy {b : Bytes} (hmagic : startsWith b magicNumpy = true)
    (hread : (L.mixedDeserialize b).isSome = true) :
    ∃ a', L.mixedDeserialize b = some (.array a', .pureBinary) := by
  unfold mixedDeserialize at hread ⊢
  rw [if_pos hmagic] at hread ⊢
  cases hstream : (L.npStream b).bind L.alignStruct with
  | none =>
    rw [hstream] at hread
    cases hread
  | some a' => exact ⟨a', rfl⟩

/-! ## §2. A proof is a success of the parser. -/

/-- The kind of a NumPy word tells that `np.load` accepted the buffer. -/
theorem numpy_of_kind {b : Bytes} (h : (L.fromBuffer b).kind = .numpy) :
    startsWith b magicNumpy = true ∧ ∃ a, L.npLoad b = some a ∧
      (L.fromBuffer b).dtype = (L.numpyType a).1 ∧ (L.fromBuffer b).rank = (L.numpyType a).2.1 := by
  have hc := L.classified b
  generalize L.fromBuffer b = ht at hc h
  cases hc with
  | badNumpy | badMixed | bytes | text => cases h
  | numpy hmagic a hload => exact ⟨hmagic, a, hload, rfl, rfl⟩
  | mixed _ _ kind hkind =>
    have hk : kind = .numpy := h
    rcases L.mixedKind_isMixed hkind with rfl | rfl <;> cases hk
  | json _ _ text _ kind flags hjson =>
    have hk : kind = .numpy := h
    obtain ⟨hmem, -⟩ := L.jsonKindAndFlags_valid hjson
    rw [hk] at hmem
    simp at hmem

/-- What `np.load` accepts and the other reader does not refuse is read as an array. -/
theorem mixedDeserialize_loaded {b : Bytes} (hread : ¬ L.Unreadable b)
    (hmagic : startsWith b magicNumpy = true) {a : L.Array} (hload : L.npLoad b = some a) :
    ∃ a', L.mixedDeserialize b = some (.array a', .pureBinary) := by
  apply L.mixedDeserialize_numpy hmagic
  rw [Option.isSome_iff_ne_none]
  exact fun hnone => hread ⟨hmagic, by rw [hload]; rfl, hnone⟩

/-- The buffer's own word, if it proves the celltype, makes the parser succeed, unless
it is an array that only `np.load` reads. -/
theorem parseBody_of_proof (hL : L.JsonLaws) {b : Bytes} {t : Celltype} {c : Checksum}
    (hread : t = .binary ∨ t = .mixed → ¬ L.Unreadable b)
    (hvirtual : L.virtualValue c t = .notVirtual)
    (h : L.deserializableAs (L.fromBuffer b) t c = some true) :
    (L.parseBody b t).isSome = true := by
  have htested := L.fromBuffer_tested b
  -- the checksum is no constant that would decide the celltype
  have hnull : c ∉ L.nullChecksums := by
    intro hc
    simp [virtualValue, hc] at hvirtual
  by_cases hbytes : t = .bytes
  · rw [hbytes]
    rfl
  have hbool : t ≠ .bool := by
    -- every checksum decides `bool`
    rintro rfl
    unfold virtualValue at hvirtual
    rw [if_neg hnull] at hvirtual
    by_cases htrue : c ∈ L.trueChecksums
    · simp [htrue, virtualBool] at hvirtual
    · by_cases hfalse : c ∈ L.falseChecksums
      · simp [htrue, hfalse, virtualBool] at hvirtual
      · simp [htrue, hfalse] at hvirtual
  rw [L.deserializableAs_tested hnull hbytes hbool htested] at h
  cases t <;> simp only [testedAnswer] at h
  case bytes => exact absurd rfl hbytes
  case bool => exact absurd rfl hbool
  case text =>
    have hutf8 : (L.fromBuffer b).isUtf8 = true := Option.some.inj h
    obtain ⟨-, -, text, hdecode⟩ := L.text_of_isUtf8 hutf8
    show (L.parseText b .text).isSome = true
    unfold parseText
    rw [hdecode]
    rfl
  case yaml | python | ipython =>
    by_cases hutf8 : (L.fromBuffer b).isUtf8 = true <;> simp [hutf8] at h
  case plain =>
    have hjson : (L.fromBuffer b).isJson = true := Option.some.inj h
    obtain ⟨text, v, hdecode, hv, -⟩ := L.loads_of_isJson hjson
    show (L.parsePlain b).isSome = true
    rw [L.parsePlain_of_loads hL hdecode hv]
    rfl
  case str =>
    -- a constant would be virtual, so the kind is a number or a string
    have hkind : (L.fromBuffer b).kind = .jsonNumber ∨ (L.fromBuffer b).kind = .jsonString := by
      have hconst : c ∉ L.trueChecksums ++ L.falseChecksums ++ L.nullChecksums := by
        intro hc
        simp only [List.mem_append, or_assoc] at hc
        unfold virtualValue at hvirtual
        rcases hc with hc | hc | hc
        · simp [hnull, hc, virtualBool] at hvirtual
        · by_cases htrue : c ∈ L.trueChecksums <;>
            simp [hnull, htrue, hc, virtualBool] at hvirtual
        · exact hnull hc
      by_cases hnumber : (L.fromBuffer b).kind = .jsonNumber
      · exact .inl hnumber
      · right
        rw [if_neg (not_or.mpr ⟨hnumber, hconst⟩)] at h
        exact of_decide_eq_true (Option.some.inj h)
    have hjson : (L.fromBuffer b).isJson = true := by
      unfold HashType.isJson
      rcases hkind with hk | hk <;> simp [hk]
    obtain ⟨text, v, hdecode, hv, hkf⟩ := L.loads_of_isJson hjson
    obtain ⟨hnone, hlist, hdict⟩ := (L.jsonKindAndFlags_loads hL hv hkf).2 hkind
    obtain ⟨s, hs⟩ := L.scalarStr_json hL (hL.loads_isJson text v hv) hnone hlist hdict
    show (L.parseScalar b .str).isSome = true
    unfold parseScalar
    rw [if_neg (by simp), L.parsePlain_of_loads hL hdecode hv]
    simp [hs]
  case int | float =>
    have hnumeric : (L.fromBuffer b).length ≠ .long ∧
        (L.fromBuffer b).flags.numericScalar = true := by
      by_cases hlong : (L.fromBuffer b).length = .long
      · simp [hlong] at h
      · exact ⟨hlong, by simpa [hlong] using h⟩
    -- only JSON numbers and strings carry the flag
    have hjson : (L.fromBuffer b).isJson = true := by
      have hvalid := L.fromBuffer_valid b
      rw [HashType.isValidWord_word] at hvalid
      unfold HashType.wellFormed at hvalid
      unfold HashType.isJson
      by_cases hk : (L.fromBuffer b).kind = .jsonNumber ∨ (L.fromBuffer b).kind = .jsonString
      · rcases hk with hk | hk <;> simp [hk]
      · simp [hnumeric.2, hk] at hvalid
    have hshort : ¬ 1000 < b.length := by
      intro hlen
      have hlong := L.fromBuffer_length b
      unfold lengthBucket at hlong
      rw [if_neg (by omega), if_neg (by omega), if_neg (by omega)] at hlong
      exact hnumeric.1 hlong
    obtain ⟨text, v, hdecode, hv, hkf⟩ := L.loads_of_isJson hjson
    have hn : L.isNumeric v = true := by
      rw [← (L.jsonKindAndFlags_loads hL hv hkf).1]
      exact hnumeric.2
    have hval := hL.loads_isJson text v hv
    obtain ⟨x, hx⟩ := L.pyFloat_numeric hL hval hn
    obtain ⟨n, hi⟩ := L.scalarInt_numeric hL hval hn
    unfold parseBody parseScalar
    simp only [hshort, and_false, if_false, L.parsePlain_of_loads hL hdecode hv, hn, hx, hi, if_true]
    rfl
  case binary =>
    have hkind : (L.fromBuffer b).kind = .numpy := of_decide_eq_true (Option.some.inj h)
    obtain ⟨hmagic, a, hload, -⟩ := L.numpy_of_kind hkind
    obtain ⟨a', ha'⟩ := L.mixedDeserialize_loaded (hread (.inl rfl)) hmagic hload
    unfold parseBody
    rw [ha']
    rfl
  case mixed =>
    -- the kinds left are NumPy and JSON
    have hkind : (L.fromBuffer b).kind = .numpy ∨ (L.fromBuffer b).isJson = true := by
      revert h htested
      unfold HashType.isJson HashType.isMixed HashType.isUntested
      cases (L.fromBuffer b).kind <;> simp
    unfold parseBody
    rcases hkind with hk | hjson
    · obtain ⟨hmagic, a, hload, -⟩ := L.numpy_of_kind hk
      obtain ⟨a', ha'⟩ := L.mixedDeserialize_loaded (hread (.inr rfl)) hmagic hload
      rw [ha']
      rfl
    · obtain ⟨text, v, hdecode, -⟩ := L.loads_of_isJson hjson
      obtain ⟨v', storage, hmd⟩ := L.mixedDeserialize_text hdecode
      rw [hmd]
      rfl
  case checksum =>
    by_cases hk : ((L.fromBuffer b).kind = .rawText ∨ (L.fromBuffer b).kind = .jsonNumber) ∧
        (L.fromBuffer b).length = .eq64 <;> simp [hk] at h

/-! ## §3. The constants. -/

/-- The buffers of the boolean constants are JSON booleans. -/
theorem boolBuffer_json (hL : L.JsonLaws) {b : Bytes} (hb : b ∈ trueBuffers ++ falseBuffers) :
    (L.fromBuffer b).kind = .jsonString ∧ (L.fromBuffer b).flags = .none := by
  have hloads : ∃ text value, decodeUtf8 b = some text ∧
      L.orjsonLoads text = some (.bool value) := by
    -- the text without its newline is `true` or `false`
    have hstrip : ∀ text value, L.orjsonLoads (rstripNewlines text) = some (.bool value) →
        L.orjsonLoads text = some (.bool value) := by
      intro text value h
      rw [← hL.loads_rstrip]
      exact h
    simp only [trueBuffers, falseBuffers, List.cons_append, List.nil_append, List.mem_cons,
      List.not_mem_nil, or_false] at hb
    rcases hb with rfl | rfl | rfl | rfl
    · exact ⟨py "true", true, by decide, hL.loads_true⟩
    · exact ⟨py "true\n", true, by decide, hstrip _ _ hL.loads_true⟩
    · exact ⟨py "false", false, by decide, hL.loads_false⟩
    · exact ⟨py "false\n", false, by decide, hstrip _ _ hL.loads_false⟩
  obtain ⟨text, value, hdecode, hv⟩ := hloads
  obtain ⟨hnumpy, hmixed⟩ := no_magic_of_decodes hdecode
  obtain ⟨hkf, -⟩ := L.isJson_of_loads hL hnumpy hmixed hdecode hv
  unfold jsonKindAndFlags at hkf
  rw [hv] at hkf
  simp only [Prod.mk.injEq, Option.some.injEq] at hkf
  exact ⟨hkf.1.symm, hkf.2.symm⟩

/-- A checksum of a boolean constant is the checksum of its buffers only. -/
theorem boolBuffer_of_checksum (hC : L.ConstantsUnique) {b : Bytes}
    (h : L.sha256 b ∈ L.trueChecksums ++ L.falseChecksums) : b ∈ trueBuffers ++ falseBuffers := by
  simp only [trueChecksums, falseChecksums, ← List.map_append, List.mem_map] at h
  obtain ⟨constant, hmem, heq⟩ := h
  rw [hC constant (by simp only [List.append_assoc, List.mem_append] at hmem ⊢; tauto) b heq.symm]
  exact hmem

/-- The words of the boolean constants agree with their virtual values. -/
theorem virtualBool_agrees (hL : L.JsonLaws) {b : Bytes} (hb : b ∈ trueBuffers ++ falseBuffers)
    {c : Checksum} (hnull : c ∉ L.nullChecksums) (hc : c ∈ L.trueChecksums ++ L.falseChecksums)
    {value : Bool} {t : Celltype} :
    (∀ v, L.virtualBool value t = .value v →
      L.deserializableAs (L.fromBuffer b) t c ≠ some false) ∧
    (L.virtualBool value t = .invalid → L.deserializableAs (L.fromBuffer b) t c ≠ some true) := by
  obtain ⟨hkind, hflags⟩ := L.boolBuffer_json hL hb
  have htested := L.fromBuffer_tested b
  cases t
  case bool =>
    refine ⟨fun _ _ => ?_, (fun h => by cases h)⟩
    unfold deserializableAs
    simp only [hnull, if_false, reduceCtorEq, if_true, hc, decide_true]
    simp
  case bytes => exact ⟨(fun _ h => by cases h), (fun h => by cases h)⟩
  all_goals
    rw [L.deserializableAs_tested hnull (by simp) (by simp) htested]
    simp [testedAnswer, virtualBool, HashType.isJson, HashType.isMixed, hkind, hflags, Flags.none]

/-! ## §4. The agreement. -/

/-- For every truthful word of a readable buffer, a disproof means that the parser
fails and a proof that it succeeds; the parser may have no word stored, or
any truthful one that is at least as informative. -/
theorem agrees_of_readable (hL : L.JsonLaws) (hC : L.ConstantsUnique) {b : Bytes}
    (hread : ¬ L.Unreadable b) (t : Celltype) {w : HashType} (hw : L.Truthful b w)
    {stored : Option HashType}
    (hstored : ∀ h, stored = some h → L.Truthful b h ∧ h.implies w = true) :
    (L.deserializableAs w t (L.sha256 b) = some false →
      L.parseBuffer stored b (L.sha256 b) t = none) ∧
    (L.deserializableAs w t (L.sha256 b) = some true →
      (L.parseBuffer stored b (L.sha256 b) t).isSome = true) := by
  set c := L.sha256 b with hc
  -- the word that the parser consults lies between the buffer's own and `w`
  set h := stored.getD (L.fromBuffer b) with hh
  have hbetween : (L.fromBuffer b).implies h = true ∧ h.implies w = true := by
    cases hs : stored with
    | none =>
      rw [hh, hs]
      exact ⟨HashType.implies_refl _, hw.implied⟩
    | some h' =>
      rw [hh, hs]
      exact ⟨(hstored h' hs).1.implied, (hstored h' hs).2⟩
  have hmono : ∀ answer, L.deserializableAs w t c = some answer →
      L.deserializableAs h t c = some answer ∧
        L.deserializableAs (L.fromBuffer b) t c = some answer := by
    intro answer ha
    have hha := L.deserializableAs_mono hbetween.2 ha
    exact ⟨hha, L.deserializableAs_mono hbetween.1 hha⟩
  unfold parseBuffer
  cases hvirtual : L.virtualValue c t with
  | notVirtual =>
    simp only
    rw [← hh]
    refine ⟨?_, ?_⟩
    · intro hfalse
      rw [if_pos (hmono false hfalse).1]
    · intro htrue
      rw [if_neg (by simp [(hmono true htrue).1])]
      exact L.parseBody_of_proof hL (fun _ => hread) hvirtual (hmono true htrue).2
  | value v =>
    simp only
    refine ⟨?_, fun _ => rfl⟩
    intro hfalse
    exfalso
    have hown := (hmono false hfalse).2
    by_cases hnull : c ∈ L.nullChecksums
    · unfold deserializableAs at hown
      rw [if_pos hnull] at hown
      cases hown
    · -- only a boolean constant has another virtual value
      unfold virtualValue at hvirtual
      rw [if_neg hnull] at hvirtual
      by_cases htrue : c ∈ L.trueChecksums
      · rw [if_pos htrue] at hvirtual
        have hmem := List.mem_append_left L.falseChecksums htrue
        exact (L.virtualBool_agrees hL (L.boolBuffer_of_checksum hC hmem) hnull hmem).1 v hvirtual
          hown
      · rw [if_neg htrue] at hvirtual
        by_cases hfalse' : c ∈ L.falseChecksums
        · rw [if_pos hfalse'] at hvirtual
          have hmem := List.mem_append_right L.trueChecksums hfalse'
          exact (L.virtualBool_agrees hL (L.boolBuffer_of_checksum hC hmem) hnull hmem).1 v hvirtual
            hown
        · rw [if_neg hfalse'] at hvirtual
          split at hvirtual <;> cases hvirtual
  | invalid =>
    refine ⟨fun _ => rfl, ?_⟩
    intro htrue'
    exfalso
    have hown := (hmono true htrue').2
    unfold virtualValue at hvirtual
    by_cases hnull : c ∈ L.nullChecksums
    · rw [if_pos hnull] at hvirtual
      cases hvirtual
    · rw [if_neg hnull] at hvirtual
      by_cases htrue : c ∈ L.trueChecksums
      · rw [if_pos htrue] at hvirtual
        have hmem := List.mem_append_left L.falseChecksums htrue
        exact (L.virtualBool_agrees hL (L.boolBuffer_of_checksum hC hmem) hnull hmem).2 hvirtual hown
      · rw [if_neg htrue] at hvirtual
        by_cases hfalse : c ∈ L.falseChecksums
        · rw [if_pos hfalse] at hvirtual
          have hmem := List.mem_append_right L.trueChecksums hfalse
          exact (L.virtualBool_agrees hL (L.boolBuffer_of_checksum hC hmem) hnull hmem).2 hvirtual
            hown
        · -- a `bool` needs the checksum of a constant
          rw [if_neg hfalse] at hvirtual
          split at hvirtual
          next hbool =>
            unfold deserializableAs at hown
            rw [if_neg hnull, if_neg (by simp [hbool]), if_pos hbool] at hown
            simp [htrue, hfalse] at hown
          next => cases hvirtual

/-- Only the constants have virtual values. -/
theorem notVirtual_of_not_mem (hC : L.ConstantsUnique) {b : Bytes}
    (hb : b ∉ nullBuffers ++ trueBuffers ++ falseBuffers) {t : Celltype} (ht : t ≠ .bool) :
    L.virtualValue (L.sha256 b) t = .notVirtual := by
  have hdigest : ∀ buffers ⊆ nullBuffers ++ trueBuffers ++ falseBuffers,
      L.sha256 b ∉ buffers.map L.sha256 := by
    intro buffers hsub hmem
    obtain ⟨constant, hconstant, heq⟩ := List.mem_map.mp hmem
    rw [hC constant (hsub hconstant) b heq.symm] at hb
    exact hb (hsub hconstant)
  unfold virtualValue nullChecksums trueChecksums falseChecksums
  rw [if_neg (hdigest _ (by simp)), if_neg (hdigest _ (by simp)), if_neg (hdigest _ (by simp)),
    if_neg ht]

/-- The constants have no magic prefix, so that arrays have no virtual value. -/
theorem notVirtual_of_magic (hC : L.ConstantsUnique) {b : Bytes}
    (hmagic : startsWith b magicNumpy = true) {t : Celltype} (ht : t ≠ .bool) :
    L.virtualValue (L.sha256 b) t = .notVirtual := by
  have hplain : ∀ constant ∈ nullBuffers ++ trueBuffers ++ falseBuffers,
      startsWith constant magicNumpy = false := by decide
  apply L.notVirtual_of_not_mem hC _ ht
  intro hmem
  rw [hplain b hmem] at hmagic
  cases hmagic

/-- JSON text that is no constant is parsed as `plain` to what `orjson` reads. -/
theorem parseBuffer_plain (hL : L.JsonLaws) (hC : L.ConstantsUnique) {b : Bytes} {text : PyStr}
    {v : L.Value} (hdecode : decodeUtf8 b = some text) (hv : L.orjsonLoads text = some v)
    (hb : b ∉ nullBuffers ++ trueBuffers ++ falseBuffers) :
    L.parseBuffer none b (L.sha256 b) .plain = some v := by
  obtain ⟨hnumpy, hmixed⟩ := no_magic_of_decodes hdecode
  have hjson : (L.fromBuffer b).isJson = true :=
    (L.isJson_of_loads hL hnumpy hmixed hdecode hv).2
  have hvirtual := L.notVirtual_of_not_mem hC hb (t := .plain) (by simp)
  have hnull : L.sha256 b ∉ L.nullChecksums := by
    intro hmem
    simp [virtualValue, hmem] at hvirtual
  have haccepted : L.deserializableAs (L.fromBuffer b) .plain (L.sha256 b) = some true := by
    rw [L.deserializableAs_tested hnull (by simp) (by simp) (L.fromBuffer_tested b)]
    show some (L.fromBuffer b).isJson = some true
    rw [hjson]
  unfold parseBuffer
  rw [hvirtual]
  show (if L.deserializableAs (L.fromBuffer b) .plain (L.sha256 b) = some false then none
    else L.parsePlain b) = some v
  rw [if_neg (by rw [haccepted]; simp)]
  exact L.parsePlain_of_loads hL hdecode hv

/-- The own word of an array that only `np.load` reads proves it an array. -/
theorem proves_of_unreadable (hC : L.ConstantsUnique) {b : Bytes} (h : L.Unreadable b)
    {t : Celltype} (ht : t = .binary ∨ t = .mixed) :
    L.deserializableAs (L.fromBuffer b) t (L.sha256 b) = some true := by
  obtain ⟨hmagic, hload, -⟩ := h
  have hnull : L.sha256 b ∉ L.nullChecksums := by
    intro hmem
    have hvirtual := L.notVirtual_of_magic hC hmagic (t := .binary) (by simp)
    simp [virtualValue, hmem] at hvirtual
  have hkind : (L.fromBuffer b).kind = .numpy := by
    obtain ⟨a, ha⟩ := Option.isSome_iff_exists.mp hload
    unfold fromBuffer
    simp [hmagic, ha]
  rcases ht with rfl | rfl <;>
    rw [L.deserializableAs_tested hnull (by simp) (by simp) (L.fromBuffer_tested b)] <;>
    simp [testedAnswer, hkind, HashType.isMixed]

/-- The parser refuses it. -/
theorem not_parsed_of_unreadable (hC : L.ConstantsUnique) {b : Bytes} (h : L.Unreadable b)
    {t : Celltype} (ht : t = .binary ∨ t = .mixed) :
    L.parseBuffer none b (L.sha256 b) t = none := by
  have hproof := L.proves_of_unreadable hC h ht
  obtain ⟨hmagic, -, hread⟩ := h
  have hvirtual := L.notVirtual_of_magic hC hmagic (t := t) (by rcases ht with rfl | rfl <;> simp)
  unfold parseBuffer
  rw [hvirtual]
  show (if L.deserializableAs (L.fromBuffer b) t (L.sha256 b) = some false then none
    else L.parseBody b t) = none
  rw [if_neg (by simp [hproof])]
  unfold parseBody
  rcases ht with rfl | rfl
  · rw [hread]
  · rw [hread]
    rfl

end Libraries

/-! ## §5. Buffers without a word. -/

namespace Escapes

variable {L : Libraries} (E : Escapes L)

/-- The classification agrees with the parser: the buffer has a valid word, and what a
truthful word disproves or proves, the parser refuses or reads, whether no word is stored
or one that is at least as informative. -/
structure Agrees (b : Bytes) : Prop where
  word : ∃ own, E.fromBuffer b = some own ∧ HashType.isValidWord own.word = true
  answers : ∀ own, E.fromBuffer b = some own →
    ∀ w, HashType.isValidWord w.word = true → own.implies w = true →
    ∀ stored, (∀ h, stored = some h →
      HashType.isValidWord h.word = true ∧ own.implies h = true ∧ h.implies w = true) →
    ∀ t,
      (L.deserializableAs w t (L.sha256 b) = some false →
        E.parseBuffer stored b (L.sha256 b) t = none) ∧
      (L.deserializableAs w t (L.sha256 b) = some true →
        (E.parseBuffer stored b (L.sha256 b) t).isSome = true)

theorem fromBuffer_of_not_raises {b : Bytes} (h : E.raises b = false) :
    E.fromBuffer b = some (L.fromBuffer b) := by
  unfold fromBuffer
  rw [if_neg (by simp [h])]

/-- The own word of an array that only `np.load` reads is no proof. -/
theorem not_agrees_of_unreadable (hC : L.ConstantsUnique) {b : Bytes}
    (hraises : E.raises b = false) (hunreadable : L.Unreadable b) : ¬ E.Agrees b := by
  intro h
  have hproof := L.proves_of_unreadable hC hunreadable (.inl rfl)
  have hnone := L.not_parsed_of_unreadable hC hunreadable (.inl rfl)
  have hword := E.fromBuffer_of_not_raises hraises
  -- the own word, with none stored
  have hparsed := (h.answers _ hword _ (L.fromBuffer_valid b) (HashType.implies_refl _) none
    (fun _ hh => by cases hh) .binary).2 hproof
  rw [E.parseBuffer_of_word hword, hnone] at hparsed
  cases hparsed

/-- The classification agrees with the parser exactly on the buffers that `from_buffer`
classifies and that are no arrays which only `np.load` reads. -/
theorem classification_agrees (hL : L.JsonLaws) (hC : L.ConstantsUnique) (b : Bytes) :
    E.Agrees b ↔ E.raises b = false ∧ ¬ L.Unreadable b := by
  constructor
  · intro h
    obtain ⟨own, hown, hvalid⟩ := h.word
    have hraises : E.raises b = false := by
      by_contra hraises
      rw [Bool.not_eq_false] at hraises
      unfold fromBuffer at hown
      rw [if_pos hraises] at hown
      cases hown
    exact ⟨hraises, fun hunreadable => E.not_agrees_of_unreadable hC hraises hunreadable h⟩
  · rintro ⟨hraises, hread⟩
    have hword := E.fromBuffer_of_not_raises hraises
    refine ⟨⟨_, hword, L.fromBuffer_valid b⟩, ?_⟩
    intro own hown w hw himplied stored hstored t
    rw [hword] at hown
    obtain rfl : L.fromBuffer b = own := Option.some.inj hown
    rw [E.parseBuffer_of_word hword]
    exact L.agrees_of_readable hL hC hread t ⟨hw, himplied⟩ fun h hh =>
      ⟨⟨(hstored h hh).1, (hstored h hh).2.1⟩, (hstored h hh).2.2⟩

/-- Libraries whose readers raise only what is caught -/
def quiet (L : Libraries) : Escapes L where
  npLoad _ := false
  jsonLoads _ := false
  npLoad_none _ h := absurd h Bool.false_ne_true
  jsonLoads_none _ h := absurd h Bool.false_ne_true

/-- JSON is classified, and is no array. -/
theorem classification_agrees_five : (quiet small).Agrees (ascii "5\n") :=
  (classification_agrees (quiet small) Small.small_jsonLaws Small.small_collisionFree.constants
    (ascii "5\n")).mpr ⟨rfl, fun h => absurd h.1 (by decide)⟩

end Escapes

/-- The NPY header, of version 1.0 and seven bytes, whose dictionary has a list as key -/
def unhashableHeader : Bytes := magicNumpy ++ [1, 0, 7, 0] ++ ascii "\x7b[]: 1\x7d"

/-- Libraries that do not load it -/
def unhashableLibraries : Libraries :=
  { small with npLoad := fun b => if b = unhashableHeader then none else small.npLoad b }

/-- `np.load` evaluates the header, which is a `TypeError`. -/
def unhashableEscapes : Escapes unhashableLibraries where
  npLoad b := decide (b = unhashableHeader)
  jsonLoads _ := false
  npLoad_none _ hb := if_pos (of_decide_eq_true hb)
  jsonLoads_none _ htext := absurd htext Bool.false_ne_true

/-- The NPY header of three items of the dtype `|S0`, which take no bytes -/
def zeroWidthHeader : Bytes :=
  magicNumpy ++ [1, 0, 56, 0] ++
    ascii "\x7b'descr': '|S0', 'fortran_order': False, 'shape': (3,)\x7d\n"

/-- Libraries that read this header -/
def zeroWidthLibraries : Libraries :=
  { small with
    readArrayHeader10 := fun b => some ⟨[3], false, (), b.length⟩
    itemsize := fun _ => 0 }

/-- The first buffer has no word, and the word of the second proves what the parser refuses. -/
theorem classification_disagrees :
    ¬ unhashableEscapes.Agrees unhashableHeader ∧
      ¬ (Escapes.quiet zeroWidthLibraries).Agrees zeroWidthHeader := by
  constructor
  · intro h
    obtain ⟨own, hown, -⟩ := h.word
    have hnone : unhashableEscapes.fromBuffer unhashableHeader = none := by decide
    rw [hnone] at hown
    cases hown
  · have hheader : zeroWidthLibraries.parseNpyHeader zeroWidthHeader =
        some ⟨[3], false, (), zeroWidthHeader.length⟩ := by rfl
    have hunreadable : zeroWidthLibraries.Unreadable zeroWidthHeader :=
      zeroWidthLibraries.unreadable_of_zeroWidth (by decide) rfl hheader rfl rfl
    -- the digest is that of the instance, so the constants are unique
    have hconstants : zeroWidthLibraries.ConstantsUnique := Small.small_collisionFree.constants
    exact (Escapes.quiet zeroWidthLibraries).not_agrees_of_unreadable hconstants rfl hunreadable

end SeamlessCore
