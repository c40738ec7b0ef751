/-
  SeamlessCore.Conversion.Needs — when a conversion reads its buffer.

  A conversion calls for its buffer where neither the pair nor what is known of
  the checksum decides.  Whether it does is `needs` of its program.

  Main results:
    * `conversionNeedsBuffer_eq` — the dry run tells;
    * `needs_of_readsNothing` — pairs that never read.

  Source: `seamless/checksum/convert.py`.
-/
import SeamlessCore.Conversion.Feasible

namespace SeamlessCore

open Python Lazy

namespace Libraries

/-! ## §1. Conversions that read no buffer. -/

theorem rule_to_checksum (s : Celltype) (hs : s ≠ .checksum) :
    Conversion.rule s .checksum = .values := by
  refine Conversion.rule_values (s, .checksum) ?_
  cases s with
  | checksum => exact absurd rfl hs
  | _ => decide

set_option maxRecDepth 2000 in
/-- A scalar becomes `yaml` by way of `plain`, and nothing of it is read. -/
theorem table_yaml :
    ∀ conv ∈ [(Celltype.int, Celltype.yaml), (.float, .yaml), (.bool, .yaml)],
      Conversion.lookupPair Conversion.chainPairs conv = some .plain ∧
        (conv.1, .plain) ∈ Conversion.trivialPairs ∧ (.plain, conv.2) ∈ Conversion.trivialPairs := by
  decide

/-- Where nothing is read, the rule is one that keeps the checksum or spells it. -/
theorem readsNothing_rule (s t : Celltype) (h : Conversion.readsNothing s t = true) :
    Conversion.rule s t ∈ [.same, .retain] ∨ t = .checksum ∨
      (Conversion.lookupPair Conversion.equivalentPairs (s, t)).any (fun conv =>
        decide (Conversion.rule s t = .equivalent conv.1 conv.2 ∧
          Conversion.rule conv.1 conv.2 = .retain)) = true ∨
      Conversion.rule s t = .chain .plain ∧ Conversion.rule s .plain = .retain ∧
        Conversion.rule .plain t = .retain := by
  unfold Conversion.readsNothing at h
  rcases of_decide_eq_true h with hsame | hchecksum | htrivial | hyaml
  · -- one case for each way in which `readsNothing` says so
    have hrule : Conversion.rule s t = .same := Conversion.rule_of_lists (r := .same) hsame
    rw [hrule]
    exact .inl List.mem_cons_self
  · exact .inr (.inl hchecksum)
  · cases hequiv : Conversion.lookupPair Conversion.equivalentPairs (s, t) with
    | none =>
      rw [Conversion.equivalentOf_none hequiv] at htrivial
      rw [Conversion.rule_retain (s, t) htrivial]
      exact .inl (List.mem_cons_of_mem _ List.mem_cons_self)
    | some conv =>
      rw [Conversion.equivalentOf_some hequiv] at htrivial
      have hrule := Conversion.rule_of_lists (r := .equivalent conv.1 conv.2) hequiv
      exact .inr (.inr (.inl (decide_eq_true ⟨hrule, Conversion.rule_retain conv htrivial⟩)))
  · obtain ⟨hchain, hfirst, hsecond⟩ := table_yaml (s, t) hyaml
    exact .inr (.inr (.inr ⟨Conversion.rule_of_lists (r := .chain .plain) hchain,
      Conversion.rule_retain _ hfirst, Conversion.rule_retain _ hsecond⟩))

theorem readsNothing_legal (s t : Celltype) (h : Conversion.readsNothing s t = true) :
    (s, t) ∉ Conversion.forbiddenPairs := by
  intro hforbidden
  have hrule := Conversion.rule_forbidden (s, t) hforbidden
  rcases readsNothing_rule s t h with hkeeps | hchecksum | hequiv | ⟨hchain, -⟩
  · rw [hrule] at hkeeps
    revert hkeeps
    decide
  · -- a checksum is spelled out of any celltype
    by_cases hs : s = .checksum
    · rw [Conversion.rule_of_lists (r := .same) (hs.trans hchecksum.symm)] at hrule
      cases hrule
    · rw [hchecksum] at hrule
      rw [rule_to_checksum s hs] at hrule
      cases hrule
  · cases hlookup : Conversion.lookupPair Conversion.equivalentPairs (s, t) with
    | none =>
      rw [hlookup] at hequiv
      cases hequiv
    | some conv =>
      rw [hlookup] at hequiv
      cases hrule.symm.trans (of_decide_eq_true hequiv).1
  · cases hrule.symm.trans hchain

set_option maxRecDepth 2000 in
/-- The rules of the pairs that go by `plain`, by evaluation -/
theorem table_plain : Conversion.rule .plain .text = .reformat ∧
    ∀ conv ∈ Conversion.viaPlainPairs, conv ∉ Conversion.forbiddenPairs ∧
      Conversion.rule conv.1 conv.2 = .equivalent .plain conv.2 ∧
      (conv.2 = .text ∨ conv.2 = .binary) ∧
      conv.1 ∈ [Celltype.str, .int, .float, .bool] := by
  decide

theorem rule_plain_text : Conversion.rule .plain .text = .reformat := table_plain.1

theorem rule_plain_binary : Conversion.rule .plain .binary = .values :=
  Conversion.rule_values (.plain, .binary) (by decide)

theorem viaPlain_rule (conv : Conversion.Pair) (h : conv ∈ Conversion.viaPlainPairs) :
    conv ∉ Conversion.forbiddenPairs ∧
    Conversion.rule conv.1 conv.2 = .equivalent .plain conv.2 ∧
    (conv.2 = .text ∨ conv.2 = .binary) ∧
    conv.1 ∈ [Celltype.str, .int, .float, .bool] := table_plain.2 conv h

section

variable {L : Libraries} {known : Knowledge}

theorem needs_registerHashType (c : Checksum) (b : Bytes) :
    (L.registerHashType c b).needs known = false := by
  have hset : (setHashType c (L.fromBuffer b)).needs known = false := by
    unfold setHashType
    split
    · rw [Prog.needs_ask]
      cases known c with
      | none => rfl
      | some stored =>
        dsimp only
        split_ifs <;> rfl
    · rfl
  unfold registerHashType
  rw [Prog.needs_bind b, hset]
  split <;> rfl

theorem needs_bufferResult (b : Bytes) : (L.bufferResult b).needs known = false := by
  unfold bufferResult
  rw [Prog.needs_bind b, needs_registerHashType]
  split <;> rfl

theorem needs_valueResult (v : L.Value) (t : Celltype) :
    (L.valueResult v t).needs known = false := by
  unfold valueResult
  rw [Prog.needs_bind [], Prog.needs_ofOption]
  split
  · exact needs_bufferResult _
  · rfl

/-- A checksum is spelled, the other pairs keep it. -/
theorem needs_of_readsNothing {s t : Celltype} (h : Conversion.readsNothing s t = true)
    (c : Checksum) : (L.convertChecksum c s t).needs known = false := by
  unfold Libraries.convertChecksum convert
  rw [if_neg (readsNothing_legal s t h)]
  show (L.convertStep (L.convertFuel 3) c s t).needs known = false
  unfold convertStep
  by_cases hs : s = t
  · rw [hs, show Conversion.rule t t = .same by unfold Conversion.rule; simp]
    rfl
  rcases readsNothing_rule s t h with hrule | rfl | hequiv | ⟨hrule, hfirst, hsecond⟩
  · simp only [List.mem_cons, List.not_mem_nil, or_false] at hrule
    rcases hrule with hrule | hrule <;> rw [hrule] <;> rfl
  · -- the spelled checksum is serialized, and its word registered
    rw [rule_to_checksum s hs]
    dsimp only
    unfold convertValues
    rw [if_pos rfl, Prog.needs_bind [], Prog.needs_ofOption]
    split
    · exact needs_bufferResult _
    · rfl
  · cases hlookup : Conversion.lookupPair Conversion.equivalentPairs (s, t) with
    | none =>
      rw [hlookup] at hequiv
      cases hequiv
    | some conv =>
      rw [hlookup] at hequiv
      -- an equivalent pair is converted in its place, by the rule that keeps the checksum
      obtain ⟨hrule, hretain⟩ := of_decide_eq_true (Option.any_some.symm.trans hequiv)
      rw [hrule]
      show (L.convertStep (L.convertFuel 2) c conv.1 conv.2).needs known = false
      unfold convertStep
      rw [hretain]
      rfl
  · -- both parts of the chain keep the checksum
    have hkeep : ∀ s t : Celltype, Conversion.rule s t = .retain →
        L.convertFuel 3 c s t = pure (c, none) := by
      intro s t hretain
      show L.convertStep (L.convertFuel 2) c s t = _
      unfold convertStep
      rw [hretain]
    rw [hrule]
    dsimp only
    rw [hkeep s .plain hfirst]
    show (L.convertFuel 3 c .plain t >>= fun second => chainResult c (c, none) second).needs known =
      false
    rw [hkeep .plain t hsecond]
    show (chainResult c (c, none) (c, none)).needs known = false
    unfold chainResult
    simp

/-- A virtual value needs no buffer. -/
theorem needs_of_virtual {s t : Celltype} {c : Checksum} {v : L.Value}
    (hpair : (s, t) ∈ Conversion.viaPlainPairs) (hvirtual : L.virtualValue c .plain = .value v) :
    (L.convertChecksum c s t).needs known = false := by
  obtain ⟨hlegal, hrule, htarget, -⟩ := viaPlain_rule (s, t) hpair
  unfold Libraries.convertChecksum convert
  rw [if_neg hlegal]
  show (L.convertStep (L.convertFuel 3) c s t).needs known = false
  unfold convertStep
  rw [hrule]
  show (L.convertStep (L.convertFuel 2) c .plain t).needs known = false
  -- the value is known from the checksum alone
  have hvalue : L.valueOf c .plain = pure v := by
    unfold valueOf
    rw [hvirtual]
  unfold convertStep
  rcases htarget with rfl | rfl
  · rw [rule_plain_text]
    show (L.valueOf c .plain >>= _).needs known = false
    rw [hvalue]
    cases v with
    | str s => exact needs_valueResult _ _
    | _ => rfl
  · rw [rule_plain_binary]
    show (L.convertValues c .plain .binary).needs known = false
    unfold convertValues
    rw [if_neg (by simp), if_neg (by simp), hvalue]
    show (Prog.ofOption (L.valueRule .plain .binary v) >>= _).needs known = false
    rw [Prog.needs_bind [], Prog.needs_ofOption]
    split
    · exact needs_valueResult _ _
    · rfl

/-! ## §2. Predictions. -/

theorem conversionNeedsBuffer_eq (c : Checksum) (s t : Celltype) :
    conversionNeedsBuffer L known c s t = (convertChecksum L c s t).needs known := by
  unfold conversionNeedsBuffer Session.start
  rw [run_dry _ _ []]
  cases (convertChecksum L c s t).needs known with
  | true => rfl
  | false =>
    generalize ((convertChecksum L c s t).exec [] known).1 = answer
    cases answer <;> rfl

/-- A run that needs no buffer does not depend on it. -/
theorem run_of_not_needed {α : Type} {m : Conv α} (h : m.needs known = false) (b : Bytes) :
    (run none m (.start known)).1 = (run (some b) m (.start known)).1 := by
  rw [(run_eq_exec b m known).1]
  unfold Session.start
  rw [run_dry m known b, h]
  rfl

theorem needs_valueOf {c : Checksum} {t : Celltype} (hstored : known c = none)
    (hvirtual : L.virtualValue c t = .notVirtual) : (L.valueOf c t).needs known = true := by
  unfold valueOf
  rw [hvirtual]
  dsimp only
  rw [Prog.needs_bind [], exec_validate_none, hstored]
  simp only [Option.any_none, Bool.false_eq_true, if_false]
  rw [Bool.or_eq_true]
  exact .inr rfl

/-- A mixed value is not null. -/
theorem not_null_of_isMixed (hC : L.CollisionFree) {b : Bytes}
    (h : (L.fromBuffer b).isMixed = true) : L.sha256 b ∉ L.nullChecksums := by
  intro hnull
  obtain ⟨constant, hmem, hsha⟩ := List.mem_map.mp hnull
  have hb : b = constant := hC.constants constant (by simp [hmem]) b hsha.symm
  -- the constants are text, and a mixed value is none
  have hdecodes : ∀ constant ∈ nullBuffers, (decodeUtf8 constant).isSome = true := by decide
  obtain ⟨text, htext⟩ := Option.isSome_iff_exists.mp (hdecodes constant hmem)
  have hutf8 := L.isUtf8_of_decodes (b := b) (hb ▸ htext)
  unfold HashType.isMixed at h
  unfold HashType.isUtf8 at hutf8
  cases hk : (L.fromBuffer b).kind <;> rw [hk] at h hutf8 <;> revert h hutf8 <;> decide

/-- A tested word answers for the conversion of a mixed value to a number. -/
theorem feasible_mixed_number {w : HashType} {c : Checksum} {t : Celltype}
    (ht : t = .int ∨ t = .float) (hnull : c ∉ L.nullChecksums)
    (hsource : L.deserializableAs w .mixed c ≠ some false) :
    L.conversionFeasible w .mixed t c =
      if w.isUntested = true then none else possibleFeasible w .mixed t := by
  have htable : ∀ t : Celltype, t = .int ∨ t = .float →
      Conversion.equivalentOf (.mixed, t) = (.mixed, t) ∧
        (Celltype.mixed, t) ∉ Conversion.forbiddenPairs ∧
        Conversion.lookupPair Conversion.chainPairs (.mixed, t) = none ∧
        ¬ ((Celltype.mixed, t) ∈ Conversion.trivialPairs ∨
          (Celltype.mixed, t) ∈ Conversion.reformatPairs) ∧
        (Celltype.mixed, t) ∉ Conversion.reinterpretPairs ∧
        (Celltype.mixed, t) ∈ Conversion.possiblePairs ∧ .mixed ≠ t ∧ t ≠ .checksum := by
    decide
  obtain ⟨hequiv, hlegal, hchain, hkeep, hre, hpair, hst, hchecksum⟩ := htable t ht
  show L.feasibleStep (L.feasibleFuel w c 3) w c .mixed t = _
  unfold feasibleStep
  simp only [hequiv, hst, hlegal, hnull, hsource, hchecksum, hchain, hkeep, hre, hpair, if_false,
    if_true]

/-- A tested word of a mixed value rules its conversion to a number out. -/
theorem feasible_of_isMixed {w : HashType} {c : Checksum} {t : Celltype}
    (hmixed : w.isMixed = true) (htested : w.isUntested = false) (ht : t = .int ∨ t = .float)
    (hnull : c ∉ L.nullChecksums) (hsource : L.deserializableAs w .mixed c ≠ some false) :
    L.conversionFeasible w .mixed t c = some false := by
  rw [feasible_mixed_number ht hnull hsource, if_neg (by simp [htested])]
  unfold possibleFeasible
  rw [if_pos ht]
  unfold HashType.isMixed at hmixed
  cases hk : w.kind <;> rw [hk] at hmixed <;> simp at hmixed ⊢

/-- The conversion of a mixed number, on content -/
theorem content_rootScalar {b : Bytes} {s t : Celltype} (h : L.RootScalar b s t) :
    (L.convertContent b s t).isSome = true := by
  obtain ⟨rfl, ht, -, hroot⟩ := h
  have hsome := possibleContent_isSome.mpr hroot
  rcases ht with rfl | rfl
  · exact hsome
  · exact hsome

end

end Libraries

end SeamlessCore
