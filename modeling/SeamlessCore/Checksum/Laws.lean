/-
  SeamlessCore.Checksum.Laws — what the code relies on of its decoders.

  Each structure collects documented behaviour of imported functions: JSON
  ignores trailing newlines and has no other values than its own, 64-bit
  integers convert, a finite float has an integer part, SHA-256 does not
  collide where the code tells buffers apart by their checksum.

  Main results:
    * `Classified`, `classified` — `fromBuffer`, one case per branch;
    * `pyFloat_numeric`, `scalarInt_numeric`, `scalarStr_json` — the scalars
      that a JSON decoder produces convert.
-/
import SeamlessCore.Checksum.Parse

namespace SeamlessCore

open Python

namespace Libraries

variable (L : Libraries)

/-! ## §1. The laws. -/

/-- The values of the JSON decoder. -/
inductive IsJson : L.Value → Prop where
  | none : IsJson .none
  | bool (b : Bool) : IsJson (.bool b)
  | int (n : Int) (h : n.natAbs < 2 ^ 64) : IsJson (.int n)
  | float (x : L.Float) (h : L.isFinite x = true) : IsJson (.float x)
  | str (s : PyStr) (h : Encodable s) : IsJson (.str s)
  | list (items : List L.Value) : IsJson (.list items)
  | dict (items : List (L.Value × L.Value)) : IsJson (.dict items)

/-- `orjson.loads`, and the conversions of the numbers that it produces. -/
structure JsonLaws : Prop where
  loads_rstrip : ∀ s, L.orjsonLoads (rstripNewlines s) = L.orjsonLoads s
  loads_isJson : ∀ s v, L.orjsonLoads s = some v → L.IsJson v
  loads_true : L.orjsonLoads (py "true") = some (.bool true)
  loads_false : L.orjsonLoads (py "false") = some (.bool false)
  maxStrDigits_large : L.maxStrDigits = 0 ∨ 640 ≤ L.maxStrDigits
  floatOfInt_small : ∀ n : Int, n.natAbs < 2 ^ 64 → (L.floatOfInt n).isSome
  intOfFloat_finite : ∀ x, L.isFinite x = true → (L.intOfFloat x).isSome

/-- What the writers write, the readers read. -/
structure WriteLaws : Prop where
  dumps_loads : ∀ v b, L.orjsonDumps v = some b →
    ∃ text v', decodeUtf8 b = some text ∧ L.orjsonLoads text = some v'
  dumps_str : ∀ s b text, L.orjsonDumps (.str s) = some b → decodeUtf8 b = some text →
    L.orjsonLoads text = some (.str s)
  dumps_int : ∀ n b, L.orjsonDumps (.int n) = some b →
    b.length ≤ 20 ∧ ∃ text, decodeUtf8 b = some text ∧ L.orjsonLoads text = some (.int n)
  dumps_float : ∀ x b, L.orjsonDumps (.float x) = some b → L.isFinite x = true →
    b.length ≤ 32 ∧ ∃ text y, decodeUtf8 b = some text ∧ L.orjsonLoads text = some (.float y)
  dumps_bool : ∀ value, L.orjsonDumps (.bool value) =
    some (if value then ascii "true" else ascii "false")
  /-- The digits of a checksum are a JSON number, if they are JSON at all. -/
  loads_hex : ∀ (c : Checksum) v, L.orjsonLoads c.hex = some v →
    (∃ n, v = .int n) ∨ ∃ x, v = .float x
  npSave_reads : ∀ a b,
    ((∃ v, (∀ a', v ≠ .array a') ∧ L.npArray v = some a) ∨ ∃ raw, a = L.npBytes raw) →
    L.npSave a = some b →
    startsWith b magicNumpy = true ∧ (L.npLoad b).isSome = true ∧
      (L.mixedDeserialize b).isSome = true
  /-- Python code is IPython code. -/
  ipython_of_python : ∀ s, L.astParse s = true → (L.ipython2python s).isSome = true

/-- No other buffer has the checksum of a null or boolean constant. -/
def ConstantsUnique : Prop :=
  ∀ constant ∈ nullBuffers ++ trueBuffers ++ falseBuffers, ∀ b,
    L.sha256 b = L.sha256 constant → b = constant

/-- Colliding buffers, if there are any, are of one class and read alike. -/
structure CollisionFree : Prop where
  constants : L.ConstantsUnique
  words : ∀ b b', L.sha256 b = L.sha256 b' → L.fromBuffer b = L.fromBuffer b'
  bodies : ∀ b b' t, L.sha256 b = L.sha256 b' →
    (L.parseBody b t).isSome = (L.parseBody b' t).isSome

/-! ## §2. The branches of the classification. -/

/-- `fromBuffer`, one case per branch. -/
inductive Classified (b : Bytes) : HashType → Prop where
  | badNumpy (hmagic : startsWith b magicNumpy = true) (hload : L.npLoad b = none) :
      Classified b { kind := .rawBytes, length := lengthBucket b.length }
  | numpy (hmagic : startsWith b magicNumpy = true) (a : L.Array) (hload : L.npLoad b = some a) :
      Classified b
        { kind := .numpy
          length := lengthBucket b.length
          dtype := (L.numpyType a).1
          rank := (L.numpyType a).2.1
          flags := (L.numpyType a).2.2 }
  | badMixed (hnumpy : startsWith b magicNumpy = false)
      (hmagic : startsWith b magicSeamlessMixed = true) (hkind : L.mixedKind b = none) :
      Classified b { kind := .rawBytes, length := lengthBucket b.length }
  | mixed (hnumpy : startsWith b magicNumpy = false)
      (hmagic : startsWith b magicSeamlessMixed = true) (kind : Kind)
      (hkind : L.mixedKind b = some kind) :
      Classified b { kind := kind, length := lengthBucket b.length }
  | bytes (hnumpy : startsWith b magicNumpy = false)
      (hmixed : startsWith b magicSeamlessMixed = false) (hdecode : decodeUtf8 b = none) :
      Classified b { kind := .rawBytes, length := lengthBucket b.length }
  | text (hnumpy : startsWith b magicNumpy = false)
      (hmixed : startsWith b magicSeamlessMixed = false) (text : PyStr)
      (hdecode : decodeUtf8 b = some text) (flags : Flags)
      (hjson : L.jsonKindAndFlags text = (none, flags)) :
      Classified b { kind := .rawText, length := lengthBucket b.length }
  | json (hnumpy : startsWith b magicNumpy = false)
      (hmixed : startsWith b magicSeamlessMixed = false) (text : PyStr)
      (hdecode : decodeUtf8 b = some text) (kind : Kind) (flags : Flags)
      (hjson : L.jsonKindAndFlags text = (some kind, flags)) :
      Classified b { kind := kind, length := lengthBucket b.length, flags := flags }

theorem classified (b : Bytes) : L.Classified b (L.fromBuffer b) := by
  unfold fromBuffer
  by_cases hnumpy : startsWith b magicNumpy = true
  · simp only [hnumpy, if_true]
    cases hload : L.npLoad b with
    | none => exact .badNumpy hnumpy hload
    | some a => exact .numpy hnumpy a hload
  · simp only [hnumpy]
    rw [Bool.not_eq_true] at hnumpy
    by_cases hmixed : startsWith b magicSeamlessMixed = true
    · simp only [hmixed, if_true]
      cases hkind : L.mixedKind b with
      | none => exact .badMixed hnumpy hmixed hkind
      | some kind => exact .mixed hnumpy hmixed kind hkind
    · simp only [hmixed]
      rw [Bool.not_eq_true] at hmixed
      cases hdecode : decodeUtf8 b with
      | none => exact .bytes hnumpy hmixed hdecode
      | some text =>
        cases hjson : L.jsonKindAndFlags text with
        | mk kind flags =>
          cases kind with
          | none =>
            simp only [hjson, Bool.false_eq_true, if_false]
            exact .text hnumpy hmixed text hdecode flags hjson
          | some kind =>
            simp only [hjson, Bool.false_eq_true, if_false]
            exact .json hnumpy hmixed text hdecode kind flags hjson

theorem fromBuffer_tested (b : Bytes) : (L.fromBuffer b).isUntested = false := by
  have h := L.classified b
  generalize L.fromBuffer b = ht at h
  cases h with
  | badNumpy | numpy | badMixed | bytes | text => rfl
  | mixed _ _ kind hkind =>
    rcases L.mixedKind_isMixed hkind with rfl | rfl <;> rfl
  | json _ _ text _ kind flags hjson =>
    obtain ⟨hk, -⟩ := L.jsonKindAndFlags_valid hjson
    simp only [List.mem_cons, List.not_mem_nil, or_false] at hk
    rcases hk with rfl | rfl | rfl | rfl | rfl <;> rfl

/-- Text has no magic prefix. -/
theorem no_magic_of_decodes {b : Bytes} {text : PyStr} (h : decodeUtf8 b = some text) :
    startsWith b magicNumpy = false ∧ startsWith b magicSeamlessMixed = false := by
  cases b with
  | nil => exact ⟨rfl, rfl⟩
  | cons x bs =>
    unfold startsWith magicNumpy magicSeamlessMixed
    refine ⟨?_, ?_⟩
    · -- the first byte of the magic is a continuation byte, with which no text starts
      by_cases hx : (0x93 : UInt8) = x
      · rw [← hx, decodeUtf8_continuation (by decide) (by decide)] at h
        cases h
      · simp [List.isPrefixOf, hx]
    · by_cases hx : (0x94 : UInt8) = x
      · rw [← hx, decodeUtf8_continuation (by decide) (by decide)] at h
        cases h
      · simp [List.isPrefixOf, hx]

/-- Text is classified as text or as JSON. -/
theorem isUtf8_of_decodes {b : Bytes} {text : PyStr} (h : decodeUtf8 b = some text) :
    (L.fromBuffer b).isUtf8 = true := by
  obtain ⟨hnumpy, hmixed⟩ := no_magic_of_decodes h
  have hc := L.classified b
  generalize L.fromBuffer b = ht at hc
  cases hc with
  | badNumpy hmagic | numpy hmagic => simp [hnumpy] at hmagic
  | badMixed _ hmagic | mixed _ hmagic => simp [hmixed] at hmagic
  | bytes _ _ hdecode => simp [h] at hdecode
  | text => rfl
  | json _ _ text _ kind flags hjson =>
    obtain ⟨hk, -⟩ := L.jsonKindAndFlags_valid hjson
    simp only [List.mem_cons, List.not_mem_nil, or_false] at hk
    rcases hk with rfl | rfl | rfl | rfl | rfl <;> rfl

theorem fromBuffer_length (b : Bytes) : (L.fromBuffer b).length = lengthBucket b.length := by
  have h := L.classified b
  generalize L.fromBuffer b = ht at h
  cases h <;> rfl

/-- A word that is UTF-8 comes from text without a magic prefix. -/
theorem text_of_isUtf8 {b : Bytes} (h : (L.fromBuffer b).isUtf8 = true) :
    startsWith b magicNumpy = false ∧ startsWith b magicSeamlessMixed = false ∧
      ∃ text, decodeUtf8 b = some text := by
  have hc := L.classified b
  generalize L.fromBuffer b = ht at hc h
  cases hc with
  | badNumpy | numpy | badMixed | bytes => simp [HashType.isUtf8] at h
  | mixed _ _ kind hkind =>
    rcases L.mixedKind_isMixed hkind with rfl | rfl <;> simp [HashType.isUtf8] at h
  | text hnumpy hmixed text hdecode => exact ⟨hnumpy, hmixed, text, hdecode⟩
  | json hnumpy hmixed text hdecode => exact ⟨hnumpy, hmixed, text, hdecode⟩

/-- Text does not start with the magic of the payload of a mixed buffer. -/
theorem not_seamless_of_decodes {b : Bytes} {text : PyStr} (h : decodeUtf8 b = some text) :
    startsWith b magicSeamless = false := by
  cases b with
  | nil => rfl
  | cons x bs =>
    unfold startsWith magicSeamless
    by_cases hx : (0x93 : UInt8) = x
    · rw [← hx, decodeUtf8_continuation (by decide) (by decide)] at h
      cases h
    · simp [List.isPrefixOf, hx]

/-- What the decoder made of a buffer with a JSON word. -/
theorem loads_of_isJson {b : Bytes} (h : (L.fromBuffer b).isJson = true) :
    ∃ text v, decodeUtf8 b = some text ∧ L.orjsonLoads text = some v ∧
      L.jsonKindAndFlags text = (some (L.fromBuffer b).kind, (L.fromBuffer b).flags) := by
  have hc := L.classified b
  generalize L.fromBuffer b = ht at hc h
  cases hc with
  | badNumpy | numpy | badMixed | bytes | text => simp [HashType.isJson] at h
  | mixed _ _ kind hkind =>
    rcases L.mixedKind_isMixed hkind with rfl | rfl <;> simp [HashType.isJson] at h
  | json hnumpy hmixed text hdecode kind flags hjson =>
    refine ⟨text, ?_⟩
    cases hv : L.orjsonLoads text with
    | none => simp [jsonKindAndFlags, hv] at hjson
    | some v => exact ⟨v, hdecode, rfl, hjson⟩

/-- A buffer that decodes as JSON has a JSON word. -/
theorem isJson_of_loads (hL : L.JsonLaws) {b : Bytes} {text : PyStr} {v : L.Value}
    (hnumpy : startsWith b magicNumpy = false) (hmixed : startsWith b magicSeamlessMixed = false)
    (hdecode : decodeUtf8 b = some text) (hv : L.orjsonLoads text = some v) :
    L.jsonKindAndFlags text = (some (L.fromBuffer b).kind, (L.fromBuffer b).flags) ∧
      (L.fromBuffer b).isJson = true := by
  -- every value that the decoder makes has a kind
  have hkind : ∃ kind flags, L.jsonKindAndFlags text = (some kind, flags) := by
    unfold jsonKindAndFlags
    rw [hv]
    cases hL.loads_isJson text v hv <;> exact ⟨_, _, rfl⟩
  obtain ⟨kind, flags, hkf⟩ := hkind
  have hfrom : L.fromBuffer b =
      { kind := kind, length := lengthBucket b.length, flags := flags } := by
    unfold fromBuffer
    simp only [hnumpy, hmixed, hdecode, hkf]
    rfl
  rw [hfrom]
  refine ⟨hkf, ?_⟩
  obtain ⟨hk, -⟩ := L.jsonKindAndFlags_valid hkf
  unfold HashType.isJson
  simp only [List.mem_cons, List.not_mem_nil, or_false] at hk ⊢
  rcases hk with rfl | rfl | rfl | rfl | rfl <;> decide

/-! ## §3. Scalars. -/

theorem pyFloat_numeric (hL : L.JsonLaws) {v : L.Value} (hv : L.IsJson v)
    (hn : L.isNumeric v = true) : ∃ x, L.pyFloat v = some x := by
  cases hv with
  | none | bool | list | dict => cases hn
  | int n h => exact Option.isSome_iff_exists.mp (hL.floatOfInt_small n h)
  | float x h => exact ⟨x, rfl⟩
  | str s h =>
    unfold isNumeric at hn
    show ∃ x, L.floatOfStr s = some x
    cases hs : L.floatOfStr s with
    | none => simp [hs] at hn
    | some x => exact ⟨x, rfl⟩

theorem scalarInt_numeric (hL : L.JsonLaws) {v : L.Value} (hv : L.IsJson v)
    (hn : L.isNumeric v = true) : ∃ n, L.scalarInt v = some n := by
  unfold scalarInt
  cases hi : L.pyInt v with
  | some n => exact ⟨n, rfl⟩
  | none =>
    simp only
    cases hv with
    | none | bool | list | dict => cases hn
    | int n h => cases hi
    | float x h =>
      have hi' : L.intOfFloat x = none := hi
      have hx := hL.intOfFloat_finite x h
      rw [hi'] at hx
      cases hx
    | str s h =>
      unfold isNumeric at hn
      show ∃ n, (L.floatOfStr s).bind L.intOfFloat = some n
      cases hs : L.floatOfStr s with
      | none => simp [hs] at hn
      | some x =>
        simp only [hs] at hn
        exact Option.isSome_iff_exists.mp (hL.intOfFloat_finite x hn)

/-- A 64-bit integer has a decimal form. -/
theorem intRepr_small {limit : Nat} (hlimit : limit = 0 ∨ 640 ≤ limit) {n : Int}
    (hn : n.natAbs < 2 ^ 64) : ∃ s, intRepr limit n = some s := by
  unfold intRepr
  -- such a number has at most twenty digits
  have hlen : (decimal n.natAbs).length ≤ 20 := by
    unfold decimal
    split
    · decide
    next h0 =>
      simp only [List.length_reverse, List.length_map]
      exact (Nat.digits_length_le_iff (by decide) _).mpr (by omega)
  rw [if_neg (by omega)]
  exact ⟨_, rfl⟩

theorem scalarStr_json (hL : L.JsonLaws) {v : L.Value} (hv : L.IsJson v)
    (hnone : v ≠ .none) (hlist : ∀ items, v ≠ .list items) (hdict : ∀ items, v ≠ .dict items) :
    ∃ s, L.scalarStr v = some s := by
  cases hv with
  | none => exact absurd rfl hnone
  | list items => exact absurd rfl (hlist items)
  | dict items => exact absurd rfl (hdict items)
  | bool b => exact ⟨_, rfl⟩
  | int n h => exact intRepr_small hL.maxStrDigits_large h
  | float x h => exact ⟨_, rfl⟩
  | str s h => exact ⟨_, rfl⟩

end Libraries

end SeamlessCore
