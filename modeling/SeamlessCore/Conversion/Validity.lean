/-
  SeamlessCore.Conversion.Validity — when a buffer reads as a celltype.

  A celltype that the buffer's own word disproves is one that the parser
  cannot read, but for arrays, mixed values and checksums.  Elsewhere a stored
  word, as long as it is truthful, does not change the value of a buffer.

  Main results:
    * `parseBody_of_disproof`, `not_loose` — a disproof is a failure;
    * `parseBuffer_stored` — a truthful word does not change the value;
    * `valid_of_sha_eq` — validity is a matter of the checksum.
-/
import SeamlessCore.Conversion.Content
import SeamlessCore.HashType.Agreement

namespace SeamlessCore

open Python Lazy

namespace Libraries

variable (L : Libraries)

/-! ## §1. Values and virtual values. -/

theorem valid_iff {b : Bytes} {t : Celltype} : L.Valid b t ↔ ∃ v, L.contentValue b t = some v :=
  Option.isSome_iff_exists

theorem not_valid_iff {b : Bytes} {t : Celltype} : ¬ L.Valid b t ↔ L.contentValue b t = none := by
  unfold Valid contentValue
  simp

theorem not_loose_of_valid {b : Bytes} {t : Celltype} (h : L.Valid b t) : ¬ L.Loose b t := by
  intro hl
  exact L.not_valid_iff.mpr hl.1 h

theorem virtualValue_null {c : Checksum} (h : c ∈ L.nullChecksums) (t : Celltype) :
    L.virtualValue c t = .value (if t = .bytes then .bytes [] else .none) := by
  unfold virtualValue
  rw [if_pos h]

/-- A boolean checksum has the values of its boolean. -/
theorem virtualValue_bool {c : Checksum} (hnull : c ∉ L.nullChecksums)
    (h : c ∈ L.trueChecksums ++ L.falseChecksums) :
    ∃ value, ∀ t, L.virtualValue c t = L.virtualBool value t := by
  unfold virtualValue
  simp only [if_neg hnull]
  by_cases htrue : c ∈ L.trueChecksums
  · exact ⟨true, fun t => if_pos htrue⟩
  · have hfalse : c ∈ L.falseChecksums := by
      simpa [htrue] using h
    exact ⟨false, fun t => by rw [if_neg htrue, if_pos hfalse]⟩

theorem virtualValue_other {c : Checksum} (hnull : c ∉ L.nullChecksums)
    (h : c ∉ L.trueChecksums ++ L.falseChecksums) (t : Celltype) :
    L.virtualValue c t = if t = .bool then .invalid else .notVirtual := by
  simp only [List.mem_append, not_or] at h
  unfold virtualValue
  rw [if_neg hnull, if_neg h.1, if_neg h.2]

theorem not_null_of_notVirtual {c : Checksum} {t : Celltype}
    (h : L.virtualValue c t = .notVirtual) : c ∉ L.nullChecksums := by
  intro hnull
  rw [L.virtualValue_null hnull] at h
  cases h

theorem contentValue_virtual {b : Bytes} {t : Celltype} {v : L.Value}
    (h : L.virtualValue (L.sha256 b) t = .value v) : L.contentValue b t = some v := by
  unfold contentValue parseBuffer
  rw [h]

theorem contentValue_invalid {b : Bytes} {t : Celltype}
    (h : L.virtualValue (L.sha256 b) t = .invalid) : L.contentValue b t = none := by
  unfold contentValue parseBuffer
  rw [h]

theorem contentValue_notVirtual {b : Bytes} {t : Celltype}
    (h : L.virtualValue (L.sha256 b) t = .notVirtual) :
    L.contentValue b t =
      if L.deserializableAs (L.fromBuffer b) t (L.sha256 b) = some false then none
      else L.parseBody b t := by
  unfold contentValue parseBuffer
  rw [h]
  rfl

theorem valid_of_null {b : Bytes} (h : L.sha256 b ∈ L.nullChecksums) (t : Celltype) :
    L.Valid b t :=
  L.valid_iff.mpr ⟨_, L.contentValue_virtual (L.virtualValue_null h t)⟩

/-- A celltype that is not virtual is valid if the parser reads it. -/
theorem valid_of_body {b : Bytes} {t : Celltype}
    (hvirtual : L.virtualValue (L.sha256 b) t ≠ .invalid) (hloose : ¬ L.Loose b t)
    (hbody : (L.parseBody b t).isSome = true) : L.Valid b t := by
  rw [L.valid_iff]
  cases h : L.virtualValue (L.sha256 b) t with
  | value v => exact ⟨v, L.contentValue_virtual h⟩
  | invalid => exact absurd h hvirtual
  | notVirtual =>
    -- a buffer that parses and is not valid would be loose
    by_contra hnone
    apply hloose
    refine ⟨?_, h, hbody⟩
    rw [Option.eq_none_iff_forall_ne_some]
    exact fun v hv => hnone ⟨v, hv⟩

/-- A value that is not virtual was read from the buffer. -/
theorem body_of_valid {b : Bytes} {t : Celltype} {v : L.Value} (hv : L.contentValue b t = some v)
    (h : L.virtualValue (L.sha256 b) t = .notVirtual) :
    L.parseBody b t = some v ∧
      L.deserializableAs (L.fromBuffer b) t (L.sha256 b) ≠ some false := by
  rw [L.contentValue_notVirtual h] at hv
  split at hv
  · cases hv
  · exact ⟨hv, by assumption⟩

/-! ## §2. A disproof is a failure of the parser. -/

theorem parsePlain_some (hL : L.JsonLaws) {b : Bytes} {v : L.Value} (h : L.parsePlain b = some v) :
    ∃ text, decodeUtf8 b = some text ∧ L.orjsonLoads text = some v ∧
      L.jsonKindAndFlags text = (some (L.fromBuffer b).kind, (L.fromBuffer b).flags) ∧
      (L.fromBuffer b).isJson = true := by
  unfold parsePlain at h
  cases hdecode : decodeUtf8 b with
  | none => simp [hdecode] at h
  | some text =>
    simp only [hdecode, hL.loads_rstrip] at h
    obtain ⟨hnumpy, hmixed⟩ := no_magic_of_decodes hdecode
    obtain ⟨hkf, hjson⟩ := L.isJson_of_loads hL hnumpy hmixed hdecode h
    exact ⟨text, rfl, h, hkf, hjson⟩

/-- The kinds that a scalar can be read from. -/
theorem kind_of_scalarStr (hL : L.JsonLaws) {b : Bytes} {v : L.Value} {text : PyStr}
    (hv : L.orjsonLoads text = some v)
    (hkf : L.jsonKindAndFlags text = (some (L.fromBuffer b).kind, (L.fromBuffer b).flags))
    {s : PyStr} (hs : L.scalarStr v = some s) :
    (L.fromBuffer b).kind = .jsonNumber ∨ (L.fromBuffer b).kind = .jsonString := by
  unfold jsonKindAndFlags at hkf
  rw [hv] at hkf
  cases hL.loads_isJson text v hv with
  | none | list | dict => cases hs
  | int | float =>
    simp only [Prod.mk.injEq, Option.some.injEq] at hkf
    exact .inl hkf.1.symm
  | bool | str =>
    simp only [Prod.mk.injEq, Option.some.injEq] at hkf
    exact .inr hkf.1.symm

/-- What the buffer's own word disproves, the parser does not read. -/
theorem parseBody_of_disproof (hL : L.JsonLaws) {b : Bytes} {t : Celltype} {c : Checksum}
    (hbinary : t ≠ .binary) (hmixed : t ≠ .mixed) (hchecksum : t ≠ .checksum)
    (h : L.deserializableAs (L.fromBuffer b) t c = some false) : L.parseBody b t = none := by
  have htested := L.fromBuffer_tested b
  have hnull : c ∉ L.nullChecksums := by
    intro hc
    unfold deserializableAs at h
    rw [if_pos hc] at h
    cases h
  have hbytes : t ≠ .bytes := by
    rintro rfl
    unfold deserializableAs at h
    rw [if_neg hnull, if_pos rfl] at h
    cases h
  by_cases hbool : t = .bool
  · -- no content reads as a boolean
    rw [hbool]
    unfold parseBody parseScalar
    simp only [reduceCtorEq, or_self, false_and, if_false]
    cases L.parsePlain b <;> rfl
  rw [L.deserializableAs_tested hnull hbytes hbool htested] at h
  -- no text without a word that says so
  have htext : (L.fromBuffer b).isUtf8 = false → decodeUtf8 b = none := by
    intro hutf8
    cases hdecode : decodeUtf8 b with
    | none => rfl
    | some text =>
      rw [L.isUtf8_of_decodes hdecode] at hutf8
      cases hutf8
  cases t <;> simp only [testedAnswer] at h
  case bytes => exact absurd rfl hbytes
  case bool => exact absurd rfl hbool
  case binary => exact absurd rfl hbinary
  case mixed => exact absurd rfl hmixed
  case checksum => exact absurd rfl hchecksum
  case text =>
    show L.parseText b .text = none
    unfold parseText
    rw [htext (Option.some.inj h)]
  case python | ipython | yaml =>
    have hutf8 : (L.fromBuffer b).isUtf8 = false := by
      by_contra hutf8
      simp [hutf8] at h
    unfold parseBody parseText
    rw [htext hutf8]
  case plain =>
    show L.parsePlain b = none
    cases hv : L.parsePlain b with
    | none => rfl
    | some v =>
      obtain ⟨-, -, -, -, hjson⟩ := L.parsePlain_some hL hv
      rw [hjson] at h
      cases h
  case str =>
    show L.parseScalar b .str = none
    unfold parseScalar
    rw [if_neg (by simp)]
    cases hv : L.parsePlain b with
    | none => rfl
    | some v =>
      obtain ⟨text, -, hloads, hkf, -⟩ := L.parsePlain_some hL hv
      simp only [Option.map_eq_none_iff]
      cases hs : L.scalarStr v with
      | none => rfl
      | some s =>
        rcases L.kind_of_scalarStr hL hloads hkf hs with hk | hk
        · simp [hk] at h
        · by_cases hconst : c ∈ L.trueChecksums ++ L.falseChecksums ++ L.nullChecksums
          · rw [if_pos (.inr hconst)] at h
            cases h
          · simp [hk] at h
  case int | float =>
    unfold parseBody parseScalar
    by_cases hlong : 1000 < b.length
    · simp [hlong]
    · -- the buffer is short, so its flag says that it is no number
      have hflag : (L.fromBuffer b).flags.numericScalar = false := by
        have hlength : (L.fromBuffer b).length ≠ .long := by
          rw [L.fromBuffer_length]
          unfold lengthBucket
          split_ifs <;> first | decide | omega
        simpa [hlength] using h
      simp only [hlong, and_false, if_false]
      cases hv : L.parsePlain b with
      | none => rfl
      | some v =>
        obtain ⟨text, -, hloads, hkf, -⟩ := L.parsePlain_some hL hv
        have hn := (L.jsonKindAndFlags_loads hL hloads hkf).1
        simp [← hn, hflag]

/-- The word keeps the parser only from arrays, mixed values and checksums. -/
theorem not_loose (hL : L.JsonLaws) (b : Bytes) {t : Celltype} (hbinary : t ≠ .binary)
    (hmixed : t ≠ .mixed) (hchecksum : t ≠ .checksum) : ¬ L.Loose b t := by
  rintro ⟨hnone, hvirtual, hbody⟩
  rw [L.contentValue_notVirtual hvirtual] at hnone
  split at hnone
  next hfalse =>
    rw [L.parseBody_of_disproof hL hbinary hmixed hchecksum hfalse] at hbody
    cases hbody
  next =>
    rw [hnone] at hbody
    cases hbody

/-! ## §3. Stored words and checksums. -/

/-- A truthful word does not change the value of a buffer. -/
theorem parseBuffer_stored {b : Bytes} {h : HashType} (hh : L.Truthful b h) {t : Celltype}
    (hloose : ¬ L.Loose b t) :
    L.parseBuffer (some h) b (L.sha256 b) t = L.contentValue b t := by
  cases hvirtual : L.virtualValue (L.sha256 b) t with
  | value v =>
    rw [L.contentValue_virtual hvirtual]
    unfold parseBuffer
    rw [hvirtual]
  | invalid =>
    rw [L.contentValue_invalid hvirtual]
    unfold parseBuffer
    rw [hvirtual]
  | notVirtual =>
    have hcontent := L.contentValue_notVirtual hvirtual
    unfold parseBuffer
    rw [hvirtual]
    show (if L.deserializableAs h t (L.sha256 b) = some false then none else L.parseBody b t) = _
    by_cases hstored : L.deserializableAs h t (L.sha256 b) = some false
    · rw [if_pos hstored, hcontent, if_pos (L.deserializableAs_mono hh.implied hstored)]
    · rw [if_neg hstored]
      by_cases hown : L.deserializableAs (L.fromBuffer b) t (L.sha256 b) = some false
      · rw [if_pos hown] at hcontent
        rw [hcontent]
        -- the buffer would be loose if the parser read it
        by_contra hbody
        exact hloose ⟨hcontent, hvirtual, Option.isSome_iff_ne_none.mpr hbody⟩
      · rw [hcontent, if_neg hown]

/-- Validity is a matter of the checksum. -/
theorem valid_of_sha_eq (hC : L.CollisionFree) {b b' : Bytes} (h : L.sha256 b = L.sha256 b')
    {t : Celltype} (hv : L.Valid b t) : L.Valid b' t := by
  -- the checksum decides the word and what the parser reads
  have hbody := hC.bodies b b' t h
  have hword := hC.words b b' h
  rw [L.valid_iff] at hv ⊢
  obtain ⟨v, hv⟩ := hv
  cases hvirtual : L.virtualValue (L.sha256 b') t with
  | value v' => exact ⟨v', L.contentValue_virtual hvirtual⟩
  | invalid =>
    rw [← h] at hvirtual
    rw [L.contentValue_invalid hvirtual] at hv
    cases hv
  | notVirtual =>
    obtain ⟨hsome, hfalse⟩ := L.body_of_valid hv (h ▸ hvirtual)
    rw [L.contentValue_notVirtual hvirtual, ← h, ← hword, if_neg hfalse]
    rw [hsome] at hbody
    exact Option.isSome_iff_exists.mp hbody.symm

end Libraries

end SeamlessCore
