/-
  SeamlessCore.Conversion.Feasible — conversions that a HashType rules out.

  `conversionFeasible` walks the tables of the engine with a HashType in place
  of a buffer.  `some false` says that the conversion cannot succeed, `none`
  claims nothing.

  Main results:
    * `content_of_disproof` — a source that the buffer's own word disproves
      converts to nothing, unless it is taken for a `plain` value;
    * `content_of_infeasible` — neither does what the own word rules out,
      unless the root of a mixed payload is a number.

  Source: `seamless/checksum/hash_type_validation.py`.
-/
import SeamlessCore.Conversion.Refinement

namespace SeamlessCore

open Python Lazy

namespace Conversion

/-- `conversion_equivalent.get(conv, conv)` -/
def equivalentOf (conv : Pair) : Pair := (lookupPair equivalentPairs conv).getD conv

end Conversion

open Conversion

namespace Libraries

variable (L : Libraries)

/-! ## §1. Feasibility. -/

/-- `_possible_conversion_feasible(hash_type, source, target)` -/
def possibleFeasible (h : HashType) (s t : Celltype) : Option Bool :=
  if t = .int ∨ t = .float then
    if h.kind = .numpy then
      if h.rank ≠ .scalar then some false
      else if h.dtype = .numeric then some true
      else none
    else if h.kind ∈ [.jsonObject, .jsonArray, .mixedObject, .mixedArray, .jsonNull] then some false
    else if h.kind = .jsonNumber ∨ h.flags.numericScalar then some true
    else none
  else if t = .str ∧ s = .mixed then
    if h.kind ∈ [.jsonObject, .jsonArray] then some false else some true
  else none

/-- `_value_conversion_feasible(hash_type, source, target)` -/
def valueFeasible (h : HashType) (s t : Celltype) : Option Bool :=
  if s = .checksum then none
  else if s = .plain ∧ t = .binary ∧ h.kind = .jsonObject then some false
  else if s = .binary ∧ t = .plain ∧ (h.dtype = .numeric ∨ h.dtype = .structured) then some true
  else none

/-- `_chain_conversion_feasible(hash_type, source, target, checksum=checksum)`
with the intermediate `m` -/
def chainFeasible (recur : Celltype → Celltype → Option Bool) (s m t : Celltype) : Option Bool :=
  let first := recur s m
  let firstConv := equivalentOf (s, m)
  let secondConv := equivalentOf (m, t)
  if first = some false then some false
  else if firstConv ∉ trivialPairs ∧ firstConv ∉ reinterpretPairs then none
  else if recur m t = some false then some false
  else if secondConv ∈ trivialPairs ∨ secondConv ∈ reformatPairs then first
  else none

/-- `conversion_feasible`, where `recur` is the function itself -/
def feasibleStep (recur : Celltype → Celltype → Option Bool) (h : HashType) (c : Checksum)
    (s t : Celltype) : Option Bool :=
  let conv := equivalentOf (s, t)
  if s = t then some true
  else if conv ∈ forbiddenPairs then some false
  else if c ∈ L.nullChecksums then some true
  else if L.deserializableAs h s c = some false then some false
  else if t = .checksum then some true
  else
    match lookupPair chainPairs conv with
    | some m => chainFeasible recur s m t
    | none =>
      if conv ∈ trivialPairs ∨ conv ∈ reformatPairs then some true
      else if conv ∈ reinterpretPairs then L.deserializableAs h t c
      else if conv ∈ possiblePairs then if h.isUntested then none else possibleFeasible h s t
      else if conv ∈ valuePairs then if h.isUntested then none else valueFeasible h s t
      else none

/-- `conversion_feasible`, at most `fuel` calls deep -/
def feasibleFuel (h : HashType) (c : Checksum) : (fuel : Nat) → Celltype → Celltype → Option Bool
  | 0, _, _ => none
  | fuel + 1, s, t => L.feasibleStep (feasibleFuel h c fuel) h c s t

/-- `conversion_feasible(hash_type, source, target, checksum=checksum)`; no pair
goes deeper than four calls. -/
def conversionFeasible (h : HashType) (s t : Celltype) (c : Checksum) : Option Bool :=
  L.feasibleFuel h c 4 s t

/-- The two JSON decoders see the same root, and so do the two NPY readers. -/
structure RootLaws : Prop where
  dict : ∀ s items, L.orjsonLoads s = some (.dict items) →
    ∃ items', L.jsonLoads s = some (.dict items')
  list : ∀ s items, L.orjsonLoads s = some (.list items) →
    ∃ items', L.jsonLoads s = some (.list items')
  null : ∀ s, L.orjsonLoads s = some .none → L.jsonLoads s = some .none
  axes : ∀ b a a', startsWith b magicNumpy = true → L.npLoad b = some a →
    (L.npStream b).bind L.alignStruct = some a' → L.ndim a ≠ 0 →
    L.isNdarray a' = true ∧ L.ndim a' ≠ 0

theorem small_rootLaws : small.RootLaws where
  dict _ items h := ⟨items, h⟩
  list _ items h := ⟨items, h⟩
  null _ h := h
  axes _ _ _ _ _ _ h := absurd rfl h

/-- A mixed payload whose root converts to a number, under a header that declares
a container. -/
def RootScalar (b : Bytes) (s t : Celltype) : Prop :=
  s = .mixed ∧ (t = .int ∨ t = .float) ∧ (L.fromBuffer b).isMixed = true ∧
    ∃ v v', L.contentValue b .mixed = some v ∧ L.isContainer v = false ∧
      L.builtin true v t = some v' ∧ (L.serialize v' t).isSome = true

/-! ## §2. The tables. -/

end Libraries

namespace Conversion

/-- Pairs whose conversion looks at nothing but the checksum. -/
def readsNothing (s t : Celltype) : Bool :=
  s = t ∨ t = .checksum ∨ equivalentOf (s, t) ∈ trivialPairs ∨
    (s, t) ∈ [(.int, .yaml), (.float, .yaml), (.bool, .yaml)]

/-- Pairs that read a scalar as `plain`. -/
def viaPlainPairs : List Pair :=
  [(.str, .binary), (.int, .binary), (.float, .binary), (.bool, .binary), (.int, .text),
    (.float, .text), (.bool, .text)]

theorem all_and {X : Type} {o : Option X} {f g : X → Bool}
    (h : o.all (fun x => f x && g x) = true) : o.all f = true ∧ o.all g = true := by
  cases o with
  | none => exact ⟨rfl, rfl⟩
  | some x => exact Bool.and_eq_true_iff.mp h

/-- What the table of equivalent pairs says of its entries, by evaluation -/
theorem table_equivalent (s t : Celltype) :
    (lookupPair equivalentPairs (s, t)).all (fun conv =>
      (readsNothing s t || decide ((s, t) ∈ viaPlainPairs) ||
        (decide (conv.1 = s) || decide (conv.1 = .text ∧ s ∈ [Celltype.python, .ipython, .yaml])) &&
          !readsNothing conv.1 conv.2 && decide (conv ∉ viaPlainPairs)) &&
      (decide (conv ∉ forbiddenPairs) &&
        (decide (lookupPair chainPairs conv = none ∧ (conv ∈ trivialPairs ∨ conv ∈ reformatPairs)) ||
          decide (lookupPair chainPairs conv = none ∧ conv ∉ reinterpretPairs ∧
            conv ∉ possiblePairs ∧ s ≠ .plain ∧ s ≠ .binary) ||
          decide (lookupPair chainPairs conv = some .mixed ∧
            (lookupPair equivalentPairs (s, Celltype.mixed)).isSome = true ∧
            equivalentOf (s, .mixed) ∉ trivialPairs ∧
            equivalentOf (s, .mixed) ∉ reinterpretPairs)))) = true := by
  have hentries : (equivalentPairs.all fun
      | ((s, t), (s', t')) =>
        (readsNothing s t || decide ((s, t) ∈ viaPlainPairs) ||
          (decide (s' = s) || decide (s' = .text ∧ s ∈ [Celltype.python, .ipython, .yaml])) &&
            !readsNothing s' t' && decide ((s', t') ∉ viaPlainPairs)) &&
        (decide ((s', t') ∉ forbiddenPairs) &&
          (decide (lookupPair chainPairs (s', t') = none ∧
              ((s', t') ∈ trivialPairs ∨ (s', t') ∈ reformatPairs)) ||
            decide (lookupPair chainPairs (s', t') = none ∧ (s', t') ∉ reinterpretPairs ∧
              (s', t') ∉ possiblePairs ∧ s ≠ .plain ∧ s ≠ .binary) ||
            decide (lookupPair chainPairs (s', t') = some .mixed ∧
              (lookupPair equivalentPairs (s, Celltype.mixed)).isSome = true ∧
              equivalentOf (s, .mixed) ∉ trivialPairs ∧
              equivalentOf (s, .mixed) ∉ reinterpretPairs)))) = true := by
    decide
  cases hlookup : lookupPair equivalentPairs (s, t) with
  | none => rfl
  | some conv => exact List.all_eq_true.mp hentries ((s, t), conv) (mem_of_lookupPair hlookup)

/-- An equivalent pair reads the same source, or text. -/
theorem equivalent_reads (s t : Celltype) :
    (lookupPair equivalentPairs (s, t)).all (fun conv =>
      readsNothing s t || decide ((s, t) ∈ viaPlainPairs) ||
        (decide (conv.1 = s) || decide (conv.1 = .text ∧ s ∈ [Celltype.python, .ipython, .yaml])) &&
          !readsNothing conv.1 conv.2 && decide (conv ∉ viaPlainPairs)) = true :=
  (all_and (table_equivalent s t)).1

/-- What an equivalent pair goes by; none of it can be ruled out beyond its source. -/
theorem equivalent_kinds (s t : Celltype) :
    (lookupPair equivalentPairs (s, t)).all (fun conv =>
      decide (conv ∉ forbiddenPairs) &&
        (decide (lookupPair chainPairs conv = none ∧ (conv ∈ trivialPairs ∨ conv ∈ reformatPairs)) ||
          decide (lookupPair chainPairs conv = none ∧ conv ∉ reinterpretPairs ∧
            conv ∉ possiblePairs ∧ s ≠ .plain ∧ s ≠ .binary) ||
          decide (lookupPair chainPairs conv = some .mixed ∧
            (lookupPair equivalentPairs (s, Celltype.mixed)).isSome = true ∧
            equivalentOf (s, .mixed) ∉ trivialPairs ∧
            equivalentOf (s, .mixed) ∉ reinterpretPairs))) = true :=
  (all_and (table_equivalent s t)).2

theorem rule_equivalent (s t : Celltype) :
    (lookupPair equivalentPairs (s, t)).all (fun conv =>
      decide (rule s t = .equivalent conv.1 conv.2)) = true := by
  cases hlookup : lookupPair equivalentPairs (s, t) with
  | none => rfl
  | some conv =>
    exact decide_eq_true (rule_of_lists (r := .equivalent conv.1 conv.2) hlookup)

/-- What the table of chained pairs says of its entries, by evaluation -/
theorem table_chain (s t : Celltype) :
    (lookupPair chainPairs (s, t)).all (fun m =>
      (readsNothing s t || !readsNothing s m && decide ((s, m) ∉ viaPlainPairs)) &&
      (readsNothing s t || decide (equivalentOf (s, m) ∉ trivialPairs ∧
        equivalentOf (s, m) ∉ reinterpretPairs) ||
        !readsNothing m t && decide ((m, t) ∉ viaPlainPairs) && decide (m ≠ .mixed)) &&
      decide (m ≠ .int ∧ m ≠ .float)) = true := by
  have hentries : (chainPairs.all fun
      | ((s, t), m) =>
        (readsNothing s t || !readsNothing s m && decide ((s, m) ∉ viaPlainPairs)) &&
        (readsNothing s t || decide (equivalentOf (s, m) ∉ trivialPairs ∧
          equivalentOf (s, m) ∉ reinterpretPairs) ||
          !readsNothing m t && decide ((m, t) ∉ viaPlainPairs) && decide (m ≠ .mixed)) &&
        decide (m ≠ .int ∧ m ≠ .float)) = true := by
    decide
  cases hlookup : lookupPair chainPairs (s, t) with
  | none => rfl
  | some m => exact List.all_eq_true.mp hentries ((s, t), m) (mem_of_lookupPair hlookup)

/-- The first part of a chain reads its source, unless the whole reads nothing. -/
theorem chain_reads (s t : Celltype) :
    (lookupPair chainPairs (s, t)).all (fun m =>
      readsNothing s t || !readsNothing s m && decide ((s, m) ∉ viaPlainPairs)) = true :=
  (all_and (all_and (table_chain s t)).1).1

/-- The second part of a chain that keeps the checksum first -/
theorem chain_second (s t : Celltype) :
    (lookupPair chainPairs (s, t)).all (fun m =>
      readsNothing s t || decide (equivalentOf (s, m) ∉ trivialPairs ∧
        equivalentOf (s, m) ∉ reinterpretPairs) ||
        !readsNothing m t && decide ((m, t) ∉ viaPlainPairs) && decide (m ≠ .mixed)) = true :=
  (all_and (all_and (table_chain s t)).1).2

/-- No chain has a number as its intermediate. -/
theorem chain_number (s t : Celltype) :
    (lookupPair chainPairs (s, t)).all (fun m => decide (m ≠ .int ∧ m ≠ .float)) = true :=
  (all_and (table_chain s t)).2

theorem rule_chain (s t : Celltype) :
    (lookupPair chainPairs (s, t)).all (fun m => decide (rule s t = .chain m)) = true := by
  cases hlookup : lookupPair chainPairs (s, t) with
  | none => rfl
  | some m => exact decide_eq_true (rule_of_lists (r := .chain m) hlookup)

theorem equivalentOf_of_rule {conv : Pair} {r : Rule} (h : r.Lists conv)
    (hr : ∀ s t, r ≠ .equivalent s t) : equivalentOf conv = conv := by
  unfold equivalentOf
  cases hlookup : lookupPair equivalentPairs conv with
  | none => rfl
  | some conv' =>
    have hrule := rule_of_lists (r := .equivalent conv'.1 conv'.2) hlookup
    rw [rule_of_lists (r := r) h] at hrule
    exact absurd hrule (hr _ _)

theorem trivial_reads (conv : Pair) (h : conv ∈ trivialPairs) :
    readsNothing conv.1 conv.2 = true := by
  unfold readsNothing
  rw [equivalentOf_of_rule (r := .retain) h (by simp)]
  exact decide_eq_true (.inr (.inr (.inl h)))

/-- The trivial pairs the other way round -/
theorem reinterpret_swaps (conv : Pair) (h : conv ∈ reinterpretPairs) :
    (conv.2, conv.1) ∈ trivialPairs ∧ conv.1 ≠ .yaml := by
  obtain ⟨hswapped, hkept⟩ := List.mem_filter.mp h
  obtain ⟨pair, hpair, rfl⟩ := List.mem_map.mp hswapped
  refine ⟨hpair, fun hyaml => ?_⟩
  -- only `plain` is trivially `yaml`, and that pair goes both ways
  obtain ⟨s, t⟩ := pair
  obtain rfl : t = .yaml := hyaml
  have hs : s = .plain := by
    revert hpair
    simp [trivialPairs]
  exact (of_decide_eq_true hkept).2 (by simp [hs])

theorem rule_forbidden (conv : Pair) (h : conv ∈ forbiddenPairs) :
    rule conv.1 conv.2 = .forbidden := rule_of_lists h

theorem rule_retain (conv : Pair) (h : conv ∈ trivialPairs) : rule conv.1 conv.2 = .retain :=
  rule_of_lists h

theorem rule_reinterpret (conv : Pair) (h : conv ∈ reinterpretPairs) :
    rule conv.1 conv.2 = .reinterpret := rule_of_lists h

theorem rule_possible (conv : Pair) (h : conv ∈ possiblePairs) :
    rule conv.1 conv.2 = .possible := rule_of_lists h

theorem rule_values (conv : Pair) (h : conv ∈ valuePairs) : rule conv.1 conv.2 = .values :=
  rule_of_lists h

theorem equivalentOf_none {conv : Pair} (h : lookupPair equivalentPairs conv = none) :
    equivalentOf conv = conv := by
  unfold equivalentOf
  rw [h]
  rfl

theorem equivalentOf_some {conv conv' : Pair} (h : lookupPair equivalentPairs conv = some conv') :
    equivalentOf conv = conv' := by
  unfold equivalentOf
  rw [h]
  rfl

end Conversion

namespace Libraries

variable {L : Libraries}

/-! ## §3. Sources that are disproved. -/

/-- What the buffer's own word disproves has no value. -/
theorem contentValue_of_disproof (hL : L.JsonLaws) (hC : L.CollisionFree) {b : Bytes}
    {t : Celltype} (h : L.deserializableAs (L.fromBuffer b) t (L.sha256 b) = some false) :
    L.contentValue b t = none := by
  cases hvirtual : L.virtualValue (L.sha256 b) t with
  | invalid => exact L.contentValue_invalid hvirtual
  | notVirtual => rw [L.contentValue_notVirtual hvirtual, if_pos h]
  | value v =>
    exfalso
    have hnull : L.sha256 b ∉ L.nullChecksums := by
      intro hnull
      unfold deserializableAs at h
      rw [if_pos hnull] at h
      cases h
    by_cases hbool : L.sha256 b ∈ L.trueChecksums ++ L.falseChecksums
    · -- the word of a boolean constant agrees with its value
      obtain ⟨value, hvalue⟩ := L.virtualValue_bool hnull hbool
      rw [hvalue] at hvirtual
      have hb := L.boolBuffer_of_checksum hC.constants hbool
      exact (L.virtualBool_agrees hL hb hnull hbool).1 v hvirtual h
    · rw [L.virtualValue_other hnull hbool] at hvirtual
      split at hvirtual <;> cases hvirtual

/-- A code or `yaml` celltype is disproved where no text is. -/
theorem text_of_disproof {h : HashType} {t : Celltype} {c : Checksum}
    (ht : t ∈ [Celltype.python, .ipython, .yaml])
    (hfalse : L.deserializableAs h t c = some false) :
    L.deserializableAs h .text c = some false ∨ h.isUntested = true := by
  by_cases hu : h.isUntested = true
  · exact .inr hu
  left
  have htested : h.isUntested = false := by simpa using hu
  have hnull : c ∉ L.nullChecksums := by
    intro hnull
    unfold deserializableAs at hfalse
    rw [if_pos hnull] at hfalse
    cases hfalse
  simp only [List.mem_cons, List.not_mem_nil, or_false] at ht
  have hutf8 : h.isUtf8 = false := by
    rcases ht with rfl | rfl | rfl <;>
      rw [L.deserializableAs_tested hnull (by simp) (by simp) htested] at hfalse <;>
      simpa [testedAnswer] using hfalse
  rw [L.deserializableAs_tested hnull (by simp) (by simp) htested]
  simp [testedAnswer, hutf8]

theorem not_null_of_disproof {h : HashType} {t : Celltype} {c : Checksum}
    (hfalse : L.deserializableAs h t c = some false) : c ∉ L.nullChecksums := by
  intro hnull
  unfold deserializableAs at hfalse
  rw [if_pos hnull] at hfalse
  cases hfalse

theorem ne_bytes_of_disproof {h : HashType} {t : Celltype} {c : Checksum}
    (hfalse : L.deserializableAs h t c = some false) : t ≠ .bytes := by
  rintro rfl
  unfold deserializableAs at hfalse
  rw [if_neg (L.not_null_of_disproof hfalse), if_pos rfl] at hfalse
  cases hfalse

/-- An array is a mixed value. -/
theorem binary_of_mixed_disproof {b : Bytes} {c : Checksum}
    (hfalse : L.deserializableAs (L.fromBuffer b) .mixed c = some false) :
    L.deserializableAs (L.fromBuffer b) .binary c = some false := by
  have hnull := L.not_null_of_disproof hfalse
  have htested := L.fromBuffer_tested b
  rw [L.deserializableAs_tested hnull (by simp) (by simp) htested] at hfalse ⊢
  unfold testedAnswer at hfalse ⊢
  cases hk : (L.fromBuffer b).kind <;> simp [hk, HashType.isMixed] at hfalse ⊢

section

variable (hL : L.JsonLaws) (hW : L.WriteLaws) (hC : L.CollisionFree) {b : Bytes}

include hL hC in
/-- A reformatting rule reads its source. -/
theorem reformatContent_of_disproof {s t : Celltype} (hpair : (s, t) ∈ reformatPairs)
    (h : L.deserializableAs (L.fromBuffer b) s (L.sha256 b) = some false) :
    L.reformatContent b s t = none := by
  have hnone := contentValue_of_disproof hL hC h
  have hbytes := L.ne_bytes_of_disproof h
  simp only [reformatPairs, List.mem_cons, List.not_mem_nil, or_false, Prod.mk.injEq] at hpair
  rcases hpair with ⟨rfl, rfl⟩ | ⟨rfl, rfl⟩ | ⟨rfl, rfl⟩ | ⟨rfl, rfl⟩ | ⟨rfl, rfl⟩ | ⟨rfl, rfl⟩ |
    ⟨rfl, rfl⟩ | ⟨rfl, rfl⟩ | ⟨rfl, rfl⟩ | ⟨rfl, rfl⟩
  · exact absurd rfl hbytes
  · exact absurd rfl hbytes
  · show L.binaryToBytesContent b = none
    unfold binaryToBytesContent
    rw [hnone]
    rfl
  · -- an array behind the magic would be a mixed value
    have hbinary := contentValue_of_disproof hL hC (L.binary_of_mixed_disproof h)
    show L.mixedToBytesContent b = none
    unfold mixedToBytesContent binaryToBytesContent
    rw [hnone, hbinary]
    split <;> rfl
  · show (L.contentValue b .plain).bind _ = none
    rw [hnone]
    rfl
  · -- the booleans are text
    have hplain : L.plainOfTextContent b = none := by
      unfold plainOfTextContent
      cases hvirtual : L.virtualValue (L.sha256 b) .plain with
      | invalid => rfl
      | notVirtual =>
        dsimp only
        rw [hnone]
        rfl
      | value v =>
        exfalso
        have hnull := L.not_null_of_disproof h
        by_cases hbool : L.sha256 b ∈ L.trueChecksums ++ L.falseChecksums
        · have hb := L.boolBuffer_of_checksum hC.constants hbool
          rw [L.deserializableAs_tested hnull (by simp) (by simp) (L.fromBuffer_tested b)] at h
          simp [testedAnswer, HashType.isUtf8, (L.boolBuffer_json hL hb).1] at h
        · rw [L.virtualValue_other hnull hbool, if_neg (by simp)] at hvirtual
          cases hvirtual
    show L.textToPlainContent b = none
    unfold textToPlainContent
    rw [hplain]
    rfl
  · show (L.contentValue b .text).bind _ = none
    rw [hnone]
    rfl
  · show (L.contentValue b .str).bind _ = none
    rw [hnone]
    rfl
  · show (L.contentValue b .yaml).bind _ = none
    rw [hnone]
    rfl
  · show (L.contentValue b .ipython).bind _ = none
    rw [hnone]
    rfl

include hL hW hC

/-- A source that the buffer's own word disproves converts to nothing, unless
nothing of it is read or it is read as `plain`. -/
theorem content_of_disproof (n : Nat) : ∀ {s t : Celltype}, readsNothing s t = false →
    (s, t) ∉ viaPlainPairs →
    L.deserializableAs (L.fromBuffer b) s (L.sha256 b) = some false →
    L.convertContentFuel n b s t = none := by
  induction n with
  | zero => exact fun _ _ _ => rfl
  | succ n ih =>
    intro s t hreads hplain h
    have hnone := contentValue_of_disproof hL hC h
    have hlists := rule_lists s t
    show L.convertContentStep (L.convertContentFuel n) b s t = none
    unfold convertContentStep
    cases hrule : rule s t with
    | same =>
      rw [hrule] at hlists
      have hsame : s = t := hlists
      simp [readsNothing, hsame] at hreads
    | equivalent s' t' =>
      rw [hrule] at hlists
      have hpair : lookupPair equivalentPairs (s, t) = some (s', t') := hlists
      have hsource := equivalent_reads s t
      rw [hpair, Option.all_some, hreads, decide_eq_false hplain, Bool.false_or, Bool.false_or,
        Bool.and_eq_true, Bool.and_eq_true, Bool.not_eq_true', Bool.or_eq_true] at hsource
      obtain ⟨⟨hs, hreads'⟩, hplain'⟩ := hsource
      refine ih hreads' (of_decide_eq_true hplain') ?_
      rcases hs.imp of_decide_eq_true of_decide_eq_true with rfl | ⟨rfl, hcode⟩
      · exact h
      · rcases L.text_of_disproof hcode h with htext | hu
        · exact htext
        · rw [L.fromBuffer_tested b] at hu
          cases hu
    | chain m =>
      rw [hrule] at hlists
      have hpair : lookupPair chainPairs (s, t) = some m := hlists
      have hsource := chain_reads s t
      rw [hpair, Option.all_some, hreads, Bool.false_or, Bool.and_eq_true, Bool.not_eq_true']
        at hsource
      show (L.convertContentFuel n b s m).bind _ = none
      rw [ih hsource.1 (of_decide_eq_true hsource.2) h]
      rfl
    | forbidden | unclassified => rfl
    | retain =>
      rw [hrule] at hlists
      rw [trivial_reads (s, t) hlists] at hreads
      cases hreads
    | reinterpret =>
      rw [hrule] at hlists
      obtain ⟨htrivial, hyaml⟩ := reinterpret_swaps (s, t) hlists
      -- the target would be valid as the source too
      have htarget : L.contentValue b t = none := by
        by_contra hsome
        rw [← ne_eq, Option.ne_none_iff_exists'] at hsome
        have hvalid := valid_trivial hL hW hC htrivial hyaml (L.valid_iff.mpr hsome)
        exact L.not_valid_iff.mpr hnone hvalid
      show L.reinterpretContent b t = none
      unfold reinterpretContent
      rw [htarget]
      rfl
    | reformat =>
      rw [hrule] at hlists
      exact reformatContent_of_disproof hL hC hlists h
    | possible =>
      show L.possibleContent b s t = none
      unfold possibleContent
      rw [hnone]
      rfl
    | values =>
      have ht : t ≠ .checksum := by
        rintro rfl
        simp [readsNothing] at hreads
      show L.valuesContent b s t = none
      unfold valuesContent
      rw [if_neg ht]
      split
      next hs =>
        rw [hs] at hnone
        rw [hnone]
        rfl
      next =>
        rw [hnone]
        rfl

end

/-! ## §4. Conversions that are ruled out. -/

/-- Only null and the booleans have virtual values. -/
theorem notVirtual_of_kind (hL : L.JsonLaws) (hC : L.CollisionFree) {b : Bytes} {t : Celltype}
    (hnull : L.sha256 b ∉ L.nullChecksums) (ht : t ≠ .bool)
    (hkind : (L.fromBuffer b).kind ≠ .jsonString) :
    L.virtualValue (L.sha256 b) t = .notVirtual := by
  by_cases hbool : L.sha256 b ∈ L.trueChecksums ++ L.falseChecksums
  · exact absurd (L.boolBuffer_json hL (L.boolBuffer_of_checksum hC.constants hbool)).1 hkind
  · rw [L.virtualValue_other hnull hbool, if_neg ht]

/-- An array with axes is no number. -/
theorem container_of_numpy (hL : L.JsonLaws) (hR : L.RootLaws) (hC : L.CollisionFree) {b : Bytes}
    {s : Celltype} (hs : s = .binary ∨ s = .mixed) (hnull : L.sha256 b ∉ L.nullChecksums)
    (hkind : (L.fromBuffer b).kind = .numpy) (hrank : (L.fromBuffer b).rank ≠ .scalar)
    {v : L.Value} (hv : L.contentValue b s = some v) : L.isContainer v = true := by
  have hvirtual : L.virtualValue (L.sha256 b) s = .notVirtual :=
    notVirtual_of_kind hL hC hnull (by rcases hs with rfl | rfl <;> simp) (by rw [hkind]; simp)
  have hbody := (L.body_of_valid hv hvirtual).1
  -- the array that was classified
  have hload : ∃ a, startsWith b magicNumpy = true ∧ L.npLoad b = some a ∧ L.ndim a ≠ 0 := by
    have hc := L.classified b
    generalize L.fromBuffer b = h at hc hkind hrank
    cases hc with
    | numpy hmagic a hload =>
      refine ⟨a, hmagic, hload, fun hzero => hrank ?_⟩
      simp [numpyType, hzero]
    | mixed _ _ kind hmixed =>
      rcases L.mixedKind_isMixed hmixed with rfl | rfl <;> cases hkind
    | json _ _ text _ kind flags hjson =>
      obtain ⟨hk, -⟩ := L.jsonKindAndFlags_valid hjson
      simp only at hkind
      simp [hkind] at hk
    | badNumpy | badMixed | bytes | text => cases hkind
  obtain ⟨a, hmagic, hload, haxes⟩ := hload
  cases hstream : (L.npStream b).bind L.alignStruct with
  | none =>
    exfalso
    rcases hs with rfl | rfl <;> simp [parseBody, mixedDeserialize, hmagic, hstream] at hbody
  | some a' =>
    obtain ⟨hndarray, hndim⟩ := hR.axes b a a' hmagic hload hstream haxes
    have hv' : v = .array a' := by
      rcases hs with rfl | rfl <;>
        simpa [parseBody, mixedDeserialize, hmagic, hstream, eq_comm] using hbody
    rw [hv']
    show (L.isNdarray a' && L.ndim a' != 0) = true
    simp [hndarray, hndim]

/-- JSON objects, arrays and null are no scalars. -/
theorem root_of_json (hL : L.JsonLaws) (hR : L.RootLaws) (hC : L.CollisionFree) {b : Bytes}
    (hnull : L.sha256 b ∉ L.nullChecksums)
    (hkind : (L.fromBuffer b).kind ∈ [.jsonObject, .jsonArray, .jsonNull]) {v : L.Value}
    (hv : L.contentValue b .mixed = some v) :
    L.isContainer v = true ∨ (L.fromBuffer b).kind = .jsonNull ∧ v = .none := by
  simp only [List.mem_cons, List.not_mem_nil, or_false] at hkind
  have hvirtual : L.virtualValue (L.sha256 b) .mixed = .notVirtual :=
    notVirtual_of_kind hL hC hnull (by simp) (by rcases hkind with h | h | h <;> rw [h] <;> simp)
  have hbody := (L.body_of_valid hv hvirtual).1
  have hjson : (L.fromBuffer b).isJson = true := by
    rcases hkind with h | h | h <;> simp [HashType.isJson, h]
  obtain ⟨text, root, hdecode, hroot, hkf⟩ := L.loads_of_isJson hjson
  obtain ⟨hnumpy, hmixed⟩ := no_magic_of_decodes hdecode
  -- the mixed parser reads text without magic as JSON
  have hread : ∀ v', L.jsonLoads text = some v' → v = v' := by
    intro v' hloads
    simpa [parseBody, mixedDeserialize, hnumpy, hmixed, not_seamless_of_decodes hdecode, hdecode,
      hloads, eq_comm] using hbody
  unfold jsonKindAndFlags at hkf
  rw [hroot] at hkf
  cases hL.loads_isJson text root hroot with
  | none =>
    right
    simp only [Prod.mk.injEq, Option.some.injEq] at hkf
    exact ⟨hkf.1.symm, hread _ (hR.null text hroot)⟩
  | list items =>
    left
    obtain ⟨items', hloads⟩ := hR.list text items hroot
    rw [hread _ hloads]
    rfl
  | dict items =>
    left
    obtain ⟨items', hloads⟩ := hR.dict text items hroot
    rw [hread _ hloads]
    rfl
  | int n hn | float x hx | str s hs | bool value =>
    simp only [Prod.mk.injEq, Option.some.injEq] at hkf
    rcases hkind with h | h | h <;> rw [h] at hkf <;> cases hkf.1

theorem possibleContent_of_container {b : Bytes} {s t : Celltype}
    (h : ∀ v, L.contentValue b s = some v → L.isContainer v = true) :
    L.possibleContent b s t = none := by
  unfold possibleContent
  cases hv : L.contentValue b s with
  | none => rfl
  | some v =>
    rw [Option.bind_some, if_pos (h v hv)]

/-- Null is no number. -/
theorem possibleContent_of_root (hL : L.JsonLaws) (hR : L.RootLaws) (hC : L.CollisionFree)
    {b : Bytes} {t : Celltype} (hnull : L.sha256 b ∉ L.nullChecksums)
    (hkind : (L.fromBuffer b).kind ∈ [.jsonObject, .jsonArray, .jsonNull])
    (ht : (L.fromBuffer b).kind = .jsonNull → t = .int ∨ t = .float) :
    L.possibleContent b .mixed t = none := by
  unfold possibleContent
  cases hv : L.contentValue b .mixed with
  | none => rfl
  | some v =>
    rw [Option.bind_some]
    rcases root_of_json hL hR hC hnull hkind hv with hcontainer | ⟨hk, rfl⟩
    · rw [if_pos hcontainer]
    · rw [if_neg (by simp [isContainer])]
      rcases ht hk with rfl | rfl <;> rfl

/-- A scalar whose conversion can be written -/
theorem possibleContent_isSome {b : Bytes} {s t : Celltype} :
    (L.possibleContent b s t).isSome = true ↔
      ∃ v v', L.contentValue b s = some v ∧ L.isContainer v = false ∧
        L.builtin true v t = some v' ∧ (L.serialize v' t).isSome = true := by
  unfold possibleContent
  constructor
  · intro h
    obtain ⟨r, hr⟩ := Option.isSome_iff_exists.mp h
    obtain ⟨v, hv, hr⟩ := Option.bind_eq_some_iff.mp hr
    split at hr
    · cases hr
    next hcontainer =>
      obtain ⟨v', hv', hr⟩ := Option.bind_eq_some_iff.mp hr
      obtain ⟨b', hb', -⟩ := made_some hr
      exact ⟨v, v', hv, by simpa using hcontainer, hv', by rw [hb']; rfl⟩
  · rintro ⟨v, v', hv, hcontainer, hv', hserialize⟩
    rw [hv, Option.bind_some, if_neg (by simp [hcontainer]), hv', Option.bind_some]
    unfold made
    rw [Option.isSome_map]
    exact hserialize

section

variable (hL : L.JsonLaws) (hW : L.WriteLaws) (hR : L.RootLaws) (hC : L.CollisionFree) {b : Bytes}

include hL hR hC in
/-- What `_possible_conversion_feasible` rules out fails. -/
theorem possibleContent_of_infeasible {s t : Celltype} (hpair : (s, t) ∈ possiblePairs)
    (hnull : L.sha256 b ∉ L.nullChecksums)
    (hsource : L.deserializableAs (L.fromBuffer b) s (L.sha256 b) ≠ some false)
    (hroot : ¬ L.RootScalar b s t)
    (h : possibleFeasible (L.fromBuffer b) s t = some false) : L.possibleContent b s t = none := by
  -- a `binary` source is an array
  have hnumpy : s = .binary → (L.fromBuffer b).kind = .numpy := by
    rintro rfl
    rw [L.deserializableAs_tested hnull (by simp) (by simp) (L.fromBuffer_tested b)] at hsource
    simpa [testedAnswer] using hsource
  have hs : s = .binary ∨ s = .mixed := by
    simp only [possiblePairs, List.mem_cons, List.not_mem_nil, or_false, Prod.mk.injEq] at hpair
    tauto
  unfold possibleFeasible at h
  by_cases hnumber : t = .int ∨ t = .float
  · rw [if_pos hnumber] at h
    by_cases hkind : (L.fromBuffer b).kind = .numpy
    · rw [if_pos hkind] at h
      split at h
      next hrank =>
        exact possibleContent_of_container fun v hv =>
          container_of_numpy hL hR hC hs hnull hkind hrank hv
      next => split at h <;> cases h
    · rw [if_neg hkind] at h
      have hs' : s = .mixed := hs.resolve_left fun hbinary => hkind (hnumpy hbinary)
      subst hs'
      split at h
      next hcontainer =>
        simp only [List.mem_cons, List.not_mem_nil, or_false] at hcontainer
        by_cases hmixed : (L.fromBuffer b).isMixed = true
        · by_contra hsome
          exact hroot ⟨rfl, hnumber, hmixed,
            possibleContent_isSome.mp (Option.isSome_iff_ne_none.mpr hsome)⟩
        · simp only [HashType.isMixed, List.mem_cons, List.not_mem_nil, or_false,
            decide_eq_true_eq, not_or] at hmixed
          refine possibleContent_of_root hL hR hC hnull ?_ fun _ => hnumber
          simp only [List.mem_cons, List.not_mem_nil, or_false]
          tauto
      next => split at h <;> cases h
  · rw [if_neg hnumber] at h
    split at h
    next hstr =>
      obtain ⟨rfl, rfl⟩ := hstr
      split at h
      next hcontainer =>
        simp only [List.mem_cons, List.not_mem_nil, or_false] at hcontainer
        refine possibleContent_of_root hL hR hC hnull ?_ fun hk => ?_
        · simp only [List.mem_cons, List.not_mem_nil, or_false]
          tauto
        · rcases hcontainer with h' | h' <;> rw [h'] at hk <;> cases hk
      next => cases h
    next => cases h

include hL in
/-- An object is no array. -/
theorem valuesContent_of_infeasible (hC : L.CollisionFree) {s t : Celltype}
    (hnull : L.sha256 b ∉ L.nullChecksums)
    (h : valueFeasible (L.fromBuffer b) s t = some false) :
    s = .plain ∧ t = .binary ∧ L.valuesContent b s t = none := by
  unfold valueFeasible at h
  split at h
  · cases h
  split at h
  next hobject =>
    obtain ⟨rfl, rfl, hkind⟩ := hobject
    refine ⟨rfl, rfl, ?_⟩
    unfold valuesContent
    rw [if_neg (by simp), if_neg (by simp)]
    cases hv : L.contentValue b .plain with
    | none => rfl
    | some v =>
      have hvirtual : L.virtualValue (L.sha256 b) .plain = .notVirtual :=
        notVirtual_of_kind hL hC hnull (by simp) (by rw [hkind]; simp)
      obtain ⟨text, -, hloads, hkf, -⟩ :=
        L.parsePlain_some hL (L.body_of_valid hv hvirtual).1
      unfold jsonKindAndFlags at hkf
      rw [hloads, hkind] at hkf
      cases hL.loads_isJson text v hloads with
      | dict items => rfl
      | none | list | int | float | bool | str =>
        simp only [Prod.mk.injEq, Option.some.injEq] at hkf
        cases hkf.1
  next =>
    split at h
    · cases h
    · cases h

/-- Nothing but its source rules out a conversion that goes by another pair. -/
theorem feasible_equivalent {h : HashType} {c : Checksum} {s t : Celltype} {conv : Pair}
    (hequiv : lookupPair equivalentPairs (s, t) = some conv)
    (hsource : L.deserializableAs h s c ≠ some false) (fuel : Nat) :
    L.feasibleFuel h c fuel s t ≠ some false := by
  induction fuel generalizing t conv with
  | zero =>
    intro hfalse
    cases hfalse
  | succ fuel ih =>
    show L.feasibleStep (L.feasibleFuel h c fuel) h c s t ≠ some false
    have hkinds := equivalent_kinds s t
    rw [hequiv, Option.all_some, Bool.and_eq_true, Bool.or_eq_true, Bool.or_eq_true] at hkinds
    have hforbidden := of_decide_eq_true hkinds.1
    have hkinds := hkinds.2.imp (Or.imp of_decide_eq_true of_decide_eq_true) of_decide_eq_true
    unfold feasibleStep
    dsimp only
    rw [equivalentOf_some hequiv]
    by_cases hsame : s = t
    · rw [if_pos hsame]
      simp
    rw [if_neg hsame, if_neg hforbidden]
    by_cases hnull : c ∈ L.nullChecksums
    · rw [if_pos hnull]
      simp
    rw [if_neg hnull, if_neg hsource]
    by_cases ht : t = .checksum
    · rw [if_pos ht]
      simp
    rw [if_neg ht]
    rcases hkinds with (⟨hchain, hconv⟩ | ⟨hchain, hre, hpossible, hplain, hbinary⟩) |
      ⟨hchain, hmixed, htrivial, hre⟩
    · rw [hchain]
      dsimp only
      rw [if_pos hconv]
      simp
    · have hvalues : valueFeasible h s t ≠ some false := by
        unfold valueFeasible
        simp only [hplain, hbinary, false_and, if_false]
        split <;> simp
      rw [hchain]
      dsimp only
      rw [if_neg hre, if_neg hpossible]
      by_cases hkeep : conv ∈ trivialPairs ∨ conv ∈ reformatPairs
      · rw [if_pos hkeep]
        simp
      rw [if_neg hkeep]
      by_cases hpair : conv ∈ valuePairs
      · rw [if_pos hpair]
        by_cases huntested : h.isUntested = true
        · rw [if_pos huntested]
          simp
        · rw [if_neg huntested]
          exact hvalues
      · rw [if_neg hpair]
        simp
    · -- text becomes mixed as a new buffer, so the chain claims nothing
      rw [hchain]
      dsimp only
      unfold chainFeasible
      obtain ⟨conv', hconv'⟩ := Option.isSome_iff_exists.mp hmixed
      dsimp only
      rw [if_neg (ih hconv'), if_pos (And.intro htrivial hre)]
      simp

omit hL hW hR hC in
/-- A rule that keeps the checksum keeps it. -/
theorem content_kept (n : Nat) : ∀ {s t : Celltype} {r : Converted},
    equivalentOf (s, t) ∈ trivialPairs ∨ equivalentOf (s, t) ∈ reinterpretPairs →
    L.convertContentFuel n b s t = some r → r = L.kept b := by
  induction n with
  | zero =>
    intro s t r _ h
    cases h
  | succ n ih =>
    intro s t r hconv h
    have h' : L.convertContentStep (L.convertContentFuel n) b s t = some r := h
    unfold convertContentStep at h'
    cases hequiv : lookupPair equivalentPairs (s, t) with
    | none =>
      rw [equivalentOf_none hequiv] at hconv
      rcases hconv with hpair | hpair
      · rw [rule_retain (s, t) hpair] at h'
        exact (Option.some.inj h').symm
      · rw [rule_reinterpret (s, t) hpair] at h'
        obtain ⟨v, -, hr⟩ := Option.map_eq_some_iff.mp h'
        exact hr.symm
    | some conv =>
      have hrule := rule_equivalent s t
      rw [hequiv] at hrule
      rw [of_decide_eq_true hrule] at h'
      rw [equivalentOf_some hequiv] at hconv
      have hself : equivalentOf conv = conv := by
        rcases hconv with hpair | hpair
        · exact equivalentOf_of_rule (r := .retain) hpair (by simp)
        · exact equivalentOf_of_rule (r := .reinterpret) hpair (by simp)
      refine ih ?_ h'
      rw [Prod.mk.eta, hself]
      exact hconv

include hL hW hR hC in
/-- A conversion that the buffer's own word rules out fails, unless nothing of
the source is read, a disproved source is read as `plain`, or the root of a
mixed payload is a number. -/
theorem content_of_infeasible (fuel : Nat) : ∀ {s t : Celltype}, readsNothing s t = false →
    (L.deserializableAs (L.fromBuffer b) s (L.sha256 b) = some false →
      (s, t) ∉ viaPlainPairs) →
    ¬ L.RootScalar b s t →
    L.feasibleFuel (L.fromBuffer b) (L.sha256 b) fuel s t = some false →
    ∀ n, L.convertContentFuel n b s t = none := by
  induction fuel with
  | zero =>
    intro s t _ _ _ h
    cases h
  | succ fuel ih =>
    intro s t hreads hplain hroot h n
    by_cases hsource : L.deserializableAs (L.fromBuffer b) s (L.sha256 b) = some false
    · exact content_of_disproof hL hW hC n hreads (hplain hsource) hsource
    cases hequiv : lookupPair equivalentPairs (s, t) with
    | some conv => exact absurd h (feasible_equivalent hequiv hsource (fuel + 1))
    | none =>
      match n with
      | 0 => rfl
      | n + 1 =>
        have h' : L.feasibleStep (L.feasibleFuel (L.fromBuffer b) (L.sha256 b) fuel)
            (L.fromBuffer b) (L.sha256 b) s t = some false := h
        show L.convertContentStep (L.convertContentFuel n) b s t = none
        unfold convertContentStep
        unfold feasibleStep at h'
        dsimp only at h'
        rw [equivalentOf_none hequiv] at h'
        -- the tests in their order
        by_cases hsame : s = t
        · rw [if_pos hsame] at h'
          cases h'
        rw [if_neg hsame] at h'
        by_cases hforbidden : (s, t) ∈ forbiddenPairs
        · rw [rule_forbidden (s, t) hforbidden]
        rw [if_neg hforbidden] at h'
        by_cases hnull : L.sha256 b ∈ L.nullChecksums
        · rw [if_pos hnull] at h'
          cases h'
        rw [if_neg hnull, if_neg hsource] at h'
        by_cases ht : t = .checksum
        · rw [if_pos ht] at h'
          cases h'
        rw [if_neg ht] at h'
        cases hchain : lookupPair chainPairs (s, t) with
        | some m =>
          rw [hchain] at h'
          have hrule := rule_chain s t
          have hfirst := chain_reads s t
          have hsecond := chain_second s t
          have hnumber := chain_number s t
          rw [hchain] at hrule hfirst hsecond hnumber
          simp only [Option.all_some, hreads, Bool.false_or, Bool.and_eq_true, Bool.or_eq_true,
            Bool.not_eq_true', decide_eq_true_eq] at hrule hfirst hsecond hnumber
          rw [hrule]
          unfold chainFeasible at h'
          dsimp only at h'
          by_cases hfalse : L.feasibleFuel (L.fromBuffer b) (L.sha256 b) fuel s m = some false
          · have hnone := ih hfirst.1 (fun _ => hfirst.2)
              (fun hroot' => by rcases hroot'.2.1 with hm | hm <;> simp [hm] at hnumber) hfalse n
            show (L.convertContentFuel n b s m).bind _ = none
            rw [hnone]
            rfl
          rw [if_neg hfalse] at h'
          by_cases hconv : equivalentOf (s, m) ∉ trivialPairs ∧ equivalentOf (s, m) ∉ reinterpretPairs
          · rw [if_pos hconv] at h'
            cases h'
          rw [if_neg hconv] at h'
          rcases hsecond with hconv' | ⟨⟨hreads', hplain'⟩, hmixed⟩
          · exact absurd hconv' hconv
          by_cases hfalse' : L.feasibleFuel (L.fromBuffer b) (L.sha256 b) fuel m t = some false
          · -- the first part keeps the buffer, which the second does not convert
            have hnone := ih hreads' (fun _ => hplain') (fun hroot' => hmixed hroot'.1) hfalse' n
            have hkeeps : equivalentOf (s, m) ∈ trivialPairs ∨
                equivalentOf (s, m) ∈ reinterpretPairs := by
              by_contra hneither
              exact hconv (not_or.mp hneither)
            show (L.convertContentFuel n b s m).bind _ = none
            cases hresult : L.convertContentFuel n b s m with
            | none => rfl
            | some first =>
              have hkept := content_kept n hkeeps hresult
              rw [hkept, Option.bind_some]
              show (L.convertContentFuel n b m t).bind _ = none
              rw [hnone]
              rfl
          rw [if_neg hfalse'] at h'
          split at h'
          · exact absurd h' hfalse
          · cases h'
        | none =>
          rw [hchain] at h'
          dsimp only at h'
          by_cases hkeep : (s, t) ∈ trivialPairs ∨ (s, t) ∈ reformatPairs
          · rw [if_pos hkeep] at h'
            cases h'
          rw [if_neg hkeep] at h'
          by_cases hpair : (s, t) ∈ reinterpretPairs
          · rw [if_pos hpair] at h'
            rw [rule_reinterpret (s, t) hpair]
            show L.reinterpretContent b t = none
            unfold reinterpretContent
            rw [contentValue_of_disproof hL hC h']
            rfl
          rw [if_neg hpair] at h'
          by_cases hpossible : (s, t) ∈ possiblePairs
          · rw [if_pos hpossible, if_neg (by simp [L.fromBuffer_tested b])] at h'
            rw [rule_possible (s, t) hpossible]
            exact possibleContent_of_infeasible hL hR hC hpossible hnull hsource hroot h'
          rw [if_neg hpossible] at h'
          by_cases hvalues : (s, t) ∈ valuePairs
          · rw [if_pos hvalues, if_neg (by simp [L.fromBuffer_tested b])] at h'
            rw [rule_values (s, t) hvalues]
            exact (valuesContent_of_infeasible hL hC hnull h').2.2
          rw [if_neg hvalues] at h'
          cases h'

end

end Libraries

end SeamlessCore
