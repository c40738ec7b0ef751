/-
  SeamlessCore.Mixed.Addressing — buffers of values that are equal up to order.

  The checksum of a value is that of its buffer, so values that are equal up
  to the order of dict keys have one checksum if they have one buffer.

  Main results:
    * `canonicalAddressing` — when reordered values have one buffer;
    * `reorderedArray_differs` — a dict with an array, in two orders.
-/
import SeamlessCore.Mixed.Small

namespace SeamlessCore.Mixed

open Python Assoc

namespace Codecs

variable {L : Codecs}

theorem hexChecksum_sorted {F : Type} (v : Value F) :
    (hexChecksum v).sorted = hexChecksum v.sorted := by
  cases v <;> rfl

/-- For `plain` and the deep celltypes the order of the keys does not matter. -/
theorem newBuffer_sorted {v w : Value L.Float} (h : v.sorted = w.sorted) {t : BufferType}
    (ht : t ≠ .mixed) : L.newBuffer v t = L.newBuffer w t := by
  have hplain := serializePlain_sorted (L := L) h
  by_cases hleaf : v.IsLeaf
  · rw [eq_of_isLeaf hleaf h]
  · cases t with
    | mixed => exact absurd rfl ht
    | plain =>
      cases v with
      | list items =>
        cases w with
        | list items' => exact hplain
        | _ => cases h
      | tuple items =>
        cases w with
        | tuple items' => exact hplain
        | _ => cases h
      | dict items =>
        cases w with
        | dict items' => exact hplain
        | _ => cases h
      | _ => exact absurd trivial hleaf
    | deep =>
      cases v with
      | list items =>
        cases w with
        | list items' => exact hplain
        | _ => cases h
      | tuple items =>
        cases w with
        | tuple items' => exact hplain
        | _ => cases h
      | dict items =>
        cases w with
        | dict items' =>
          -- the checksums of a deep dict are spelled first, under the same keys
          show L.serializePlain (.dict (mapValues hexChecksum items)) =
            L.serializePlain (.dict (mapValues hexChecksum items'))
          apply serializePlain_sorted
          show Value.dict (sortByKey (sortedItems (mapValues hexChecksum items))) =
            .dict (sortByKey (sortedItems (mapValues hexChecksum items')))
          rw [sorted_dict _ fun e _ => hexChecksum_sorted e.2,
            sorted_dict _ fun e _ => hexChecksum_sorted e.2, Value.dict.inj h]
        | _ => cases h
      | _ => exact absurd trivial hleaf

/-- A value with NumPy data inside is not a checksum. -/
theorem MixedPlain.newBuffer {v : Value L.Float} (h : L.MixedPlain v) :
    L.newBuffer v .mixed = L.mixedSerialize (L.prepared v) := by
  rw [← h.serializeMixed]
  cases v with
  | checksum c => cases h
  | _ => rfl

theorem mixedPlain_sorted {v w : Value L.Float} (h : v.sorted = w.sorted) :
    L.MixedPlain v ↔ L.MixedPlain w := by
  unfold MixedPlain
  rw [← storage_sorted (L.prepared v), prepared_sorted h, storage_sorted]

/-- Under `mixed`, for a value without NumPy data inside a list or dict -/
theorem newBuffer_mixed_sorted {v w : Value L.Float} (h : v.sorted = w.sorted)
    (hplain : ¬ L.MixedPlain v) : L.newBuffer v .mixed = L.newBuffer w .mixed := by
  by_cases hleaf : v.IsLeaf
  · rw [eq_of_isLeaf hleaf h]
  · have hserialize := serializeMixed_sorted h hplain
    cases v with
    | list items =>
      cases w with
      | list items' => exact hserialize
      | _ => cases h
    | tuple items =>
      cases w with
      | tuple items' => exact hserialize
      | _ => cases h
    | dict items =>
      cases w with
      | dict items' => exact hserialize
      | _ => cases h
    | _ => exact absurd trivial hleaf

/-- With NumPy data inside, the buffer determines the order of the keys. -/
theorem eq_of_newBuffer_mixed (hdumps : L.DumpsOutline) {v w : Value L.Float}
    (hv : v.Distinct) (hw : w.Distinct) (h : v.sorted = w.sorted) (hmixed : L.MixedPlain v)
    (hencodable : v.outline.Encodable) {b : Bytes} (hb : L.newBuffer v .mixed = some b)
    (hwb : L.newBuffer w .mixed = some b) : v = w := by
  have hmixed' : L.MixedPlain w := (mixedPlain_sorted h).mp hmixed
  rw [hmixed.newBuffer] at hb
  rw [hmixed'.newBuffer] at hwb
  have hvd : (L.prepared v).Distinct := by
    unfold Value.Distinct
    rw [prepared_outline]
    exact hv
  have hwd : (L.prepared w).Distinct := by
    unfold Value.Distinct
    rw [prepared_outline]
    exact hw
  have hwe : w.outline.Encodable := by
    rw [← encodable_sorted, ← h, encodable_sorted]
    exact hencodable
  have houtline := outline_of_mixedSerialize hdumps hmixed hmixed' hvd hwd
    (by rw [prepared_outline]; exact hencodable) (by rw [prepared_outline]; exact hwe) hb hwb
  rw [prepared_outline, prepared_outline] at houtline
  exact eq_of_outline hv h houtline

/-- Values that are equal up to the order of dict keys have the same buffer under
`plain`; under `mixed`, they have the same buffer exactly when no NumPy data is stored
inside a list or dict, or the keys are in the same order. -/
theorem canonicalAddressing (L : Codecs) (hdumps : L.DumpsOutline) (v w : Value L.Float)
    (hv : v.Distinct) (hw : w.Distinct) (h : SameUpToOrder v w) :
    (∀ t, t ≠ .mixed → L.newBuffer v t = L.newBuffer w t) ∧
      ∀ b, L.newBuffer v .mixed = some b →
        (¬ L.MixedPlain v ∨ v = w → L.newBuffer w .mixed = some b) ∧
        (v.outline.Encodable → L.newBuffer w .mixed = some b → ¬ L.MixedPlain v ∨ v = w) := by
  refine ⟨fun t ht => newBuffer_sorted h ht, fun b hb => ⟨?_, ?_⟩⟩
  · rintro (hplain | heq)
    · rw [← newBuffer_mixed_sorted h hplain]
      exact hb
    · rw [← heq]
      exact hb
  · intro hencodable hwb
    by_cases hmixed : L.MixedPlain v
    · right
      exact eq_of_newBuffer_mixed hdumps hv hw h hmixed hencodable hb hwb
    · left
      exact hmixed

def numbersFirst : Value Small.small.Float := .dict [(py "a", .int 1), (py "b", .int 5)]

def numbersLast : Value Small.small.Float := .dict [(py "b", .int 5), (py "a", .int 1)]

theorem numbers_addressing : ∃ b, Small.small.newBuffer numbersFirst .mixed = some b ∧
    Small.small.newBuffer numbersLast .mixed = some b := by
  obtain ⟨b, hb⟩ := Option.isSome_iff_exists.mp
    (show (Small.small.newBuffer numbersFirst .mixed).isSome = true by decide +kernel)
  have hplain : ¬ Small.small.MixedPlain numbersFirst := by
    show Small.small.storage (Small.small.prepared numbersFirst) ≠ some .mixedPlain
    decide +kernel
  have hmixed := (canonicalAddressing Small.small Small.small_dumpsOutline numbersFirst numbersLast
    ⟨by decide, trivial, trivial, trivial⟩ ⟨by decide, trivial, trivial, trivial⟩ rfl).2 b hb
  exact ⟨b, hb, hmixed.1 (.inl hplain)⟩

/-- Two bytes in an array -/
def twoBytes : NdArray := ⟨.integer 1 true, true, [2], none, [1, 2], rfl⟩

def arrayFirst : Value Small.small.Float :=
  .dict [(py "a", .array twoBytes), (py "b", .int 5)]

def arrayLast : Value Small.small.Float :=
  .dict [(py "b", .int 5), (py "a", .array twoBytes)]

/-- The description of a dict with an array has the keys in the order of their
insertion. -/
theorem reorderedArray_differs : ¬ ∀ (v w : Value Small.small.Float) (t : BufferType),
    v.Distinct → w.Distinct → SameUpToOrder v w →
    Small.small.newBuffer v t = Small.small.newBuffer w t := by
  intro h
  have heq := h arrayFirst arrayLast .mixed ⟨by decide, trivial, trivial, trivial⟩
    ⟨by decide, trivial, trivial, trivial⟩ rfl
  exact absurd heq (by decide +kernel)

end Codecs

end SeamlessCore.Mixed
