/-
  SeamlessCore.Conversion.Soundness — a conversion gives what it says.

  On content, the result of a conversion is valid for the target: every rule
  either keeps a buffer that it has checked, or writes one that reads back,
  and a chain passes through valid intermediates.  The pairs left out are
  those that write text without checking that it is code, and the imprecise
  ones to `yaml`.

  Main results:
    * `reformatContent_sound`, `possibleContent_sound`, … — one lemma a rule;
    * `convertContentFuel_sound` — the whole conversion.
-/
import SeamlessCore.Conversion.Written

namespace SeamlessCore

open Python Lazy

namespace Conversion

/-- Pairs that write text and do not check it. -/
def unvalidatedPairs : List Pair :=
  [(.str, .yaml), (.str, .python), (.str, .ipython), (.ipython, .python)]

/-- The documented imprecise pairs -/
def imprecisePairs : List Pair := [(.plain, .yaml), (.int, .yaml), (.float, .yaml), (.bool, .yaml)]

/-- Every buffer of the first celltype is valid for the second. -/
def widens (s t : Celltype) : Bool :=
  s = t ∨ ((s, t) ∈ trivialPairs ∧ t ≠ .yaml) ∨
    ((s, .plain) ∈ trivialPairs ∧ (.plain, t) ∈ trivialPairs ∧ t ≠ .yaml)

/-- Celltypes that are written as scalars, JSON, text or bytes -/
def writtenCelltypes : List Celltype := [.str, .int, .float, .bool, .text, .plain, .bytes]

theorem possible_written : ∀ conv ∈ possiblePairs, conv.2 ∈ writtenCelltypes := by
  simp [possiblePairs, writtenCelltypes]

/-- A value rule writes such a celltype, but for the array of a plain value. -/
theorem values_written : ∀ conv ∈ valuePairs, conv.1 ≠ .checksum → conv.2 ≠ .checksum →
    conv.2 ∈ writtenCelltypes ∨ conv = (.plain, .binary) := by
  simp [valuePairs, writtenCelltypes]

/-- An equivalent pair has a wider source and a narrower target. -/
theorem equivalent_widens (s t : Celltype) :
    (lookupPair equivalentPairs (s, t)).all (fun conv =>
      decide ((s, t) ∈ imprecisePairs ++ unvalidatedPairs) ||
        widens s conv.1 && widens conv.2 t && decide (conv.1 ≠ .checksum) &&
          decide (conv ∉ imprecisePairs ++ unvalidatedPairs)) = true := by
  have hentries : (equivalentPairs.all fun
      | ((s, t), (s', t')) => decide ((s, t) ∈ imprecisePairs ++ unvalidatedPairs) ||
        widens s s' && widens t' t && decide (s' ≠ .checksum) &&
          decide ((s', t') ∉ imprecisePairs ++ unvalidatedPairs)) = true := by
    decide
  cases hlookup : lookupPair equivalentPairs (s, t) with
  | none => rfl
  | some conv => exact List.all_eq_true.mp hentries ((s, t), conv) (mem_of_lookupPair hlookup)

/-- The trivial pairs to `yaml` are imprecise, but for those that are not checked. -/
theorem trivial_yaml (s : Celltype) (h : (s, Celltype.yaml) ∈ trivialPairs) :
    (s, Celltype.yaml) ∈ imprecisePairs ++ unvalidatedPairs := by
  revert h
  cases s <;> decide

/-- The two parts of a chain are precise if the chain is. -/
theorem chain_precise (s t : Celltype) :
    (lookupPair chainPairs (s, t)).all (fun m =>
      decide ((s, t) ∈ imprecisePairs ++ unvalidatedPairs) ||
        decide (m ≠ .checksum) && decide ((s, m) ∉ imprecisePairs ++ unvalidatedPairs) &&
          decide ((m, t) ∉ imprecisePairs ++ unvalidatedPairs)) = true := by
  have hentries : (chainPairs.all fun
      | ((s, t), m) => decide ((s, t) ∈ imprecisePairs ++ unvalidatedPairs) ||
        decide (m ≠ .checksum) && decide ((s, m) ∉ imprecisePairs ++ unvalidatedPairs) &&
          decide ((m, t) ∉ imprecisePairs ++ unvalidatedPairs)) = true := by
    decide
  cases hlookup : lookupPair chainPairs (s, t) with
  | none => rfl
  | some m => exact List.all_eq_true.mp hentries ((s, t), m) (mem_of_lookupPair hlookup)

end Conversion

namespace Libraries

variable (L : Libraries)

/-- The checksum is that of the result buffer, or of the source where no buffer
was made, and that buffer is valid for the target. -/
def Sound (b : Bytes) (t : Celltype) (r : Converted) : Prop :=
  r.1 = L.sha256 (r.2.getD b) ∧ L.Valid (r.2.getD b) t

variable {L}

theorem sound_kept {b : Bytes} {t : Celltype} (h : L.Valid b t) : L.Sound b t (L.kept b) :=
  ⟨rfl, h⟩

theorem made_some {v : L.Value} {t : Celltype} {r : Converted} (h : L.made v t = some r) :
    ∃ b, L.serialize v t = some b ∧ r = (L.sha256 b, some b) := by
  obtain ⟨b, hb, hr⟩ := Option.map_eq_some_iff.mp h
  exact ⟨b, hb, hr.symm⟩

/-! ## §1. Values that are written. -/

theorem valid_nullBuffer (t : Celltype) : L.Valid nullBuffer t := by
  apply L.valid_of_null
  exact List.mem_map_of_mem (by decide)

/-- What `serialize` writes for a value other than null, and a checksum as its digits -/
theorem serialize_cases {v : L.Value} {t : Celltype} {b : Bytes} (h : L.serialize v t = some b) :
    b = nullBuffer ∨ ∃ v', L.serializeValue v' t = some b := by
  cases hv : v with
  | none =>
    rw [hv] at h
    exact .inl (Option.some.inj h).symm
  | checksum c =>
    rw [hv] at h
    exact .inr ⟨.str c.hex, h⟩
  | _ =>
    refine .inr ⟨v, ?_⟩
    rw [hv] at h ⊢
    exact h

/-- Scalars, JSON values, text and bytes are written as what they are. -/
theorem valid_serialize (hL : L.JsonLaws) (hW : L.WriteLaws) (hC : L.CollisionFree) {v : L.Value}
    {t : Celltype} (ht : t ∈ Conversion.writtenCelltypes) {b : Bytes}
    (h : L.serialize v t = some b) : L.Valid b t := by
  rcases serialize_cases h with rfl | ⟨v', hv⟩
  · exact valid_nullBuffer t
  simp only [Conversion.writtenCelltypes, List.mem_cons, List.not_mem_nil, or_false] at ht
  rcases ht with rfl | rfl | rfl | rfl | rfl | rfl | rfl
  · -- booleans are written as such
    have hstr : (L.pyStr v').bind (fun s => L.jsonBuffer (.str s)) = some b →
        L.Valid b .str := by
      intro hb
      obtain ⟨s, -, hs⟩ := Option.bind_eq_some_iff.mp hb
      exact valid_written_str hL hW hs
    cases v' with
    | bool value =>
      exact valid_trivial hL hW hC (by decide) (by simp) (valid_written_bool hW hv)
    | _ => exact hstr hv
  · obtain ⟨n, -, hn⟩ := Option.bind_eq_some_iff.mp hv
    exact valid_written_int hL hW hC hn
  · obtain ⟨x, -, hx⟩ := Option.bind_eq_some_iff.mp
      (show ((L.decodeBytes v').bind L.pyFloat).bind (fun x =>
        if L.isFinite x then L.jsonBuffer (.float x) else none) = some b from hv)
    split at hx
    next hfinite => exact valid_written_float hL hW hC hfinite hx
    next => cases hx
  · obtain ⟨value, -, hvalue⟩ := Option.bind_eq_some_iff.mp hv
    exact valid_written_bool hW hvalue
  · obtain ⟨s, -, hs⟩ := Option.bind_eq_some_iff.mp hv
    exact valid_text hL (textBuffer_decodes hs)
  · have hplain : (if L.checkFinite (unchecksum v') then L.jsonBuffer (unchecksum v') else none) =
        some b := hv
    split at hplain
    next => exact valid_written_plain hL hW hplain
    next => cases hplain
  · exact valid_bytes b

theorem sound_made (hL : L.JsonLaws) (hW : L.WriteLaws) (hC : L.CollisionFree) {v : L.Value}
    {t : Celltype} (ht : t ∈ Conversion.writtenCelltypes) {b : Bytes} {r : Converted}
    (h : L.made v t = some r) : L.Sound b t r := by
  obtain ⟨b', hb', rfl⟩ := made_some h
  exact ⟨rfl, valid_serialize hL hW hC ht hb'⟩

/-- Arrays that come from `np.array` are written as arrays. -/
theorem sound_made_array (hW : L.WriteLaws) {a : L.Array}
    (ha : (∃ v, (∀ a', v ≠ .array a') ∧ L.npArray v = some a) ∨ ∃ raw, a = L.npBytes raw)
    {b : Bytes} {r : Converted}
    (h : L.made (.array a) .binary = some r) : L.Sound b .binary r := by
  obtain ⟨b', hb', rfl⟩ := made_some h
  exact ⟨rfl, (valid_written_binary hW ha hb').1⟩

/-! ## §2. Rules. -/

variable (hL : L.JsonLaws) (hW : L.WriteLaws) (hC : L.CollisionFree)
variable {b : Bytes} {s t : Celltype} {r : Converted}

include hL hW hC

theorem bytesToMixedContent_sound (h : L.bytesToMixedContent b = some r) : L.Sound b .mixed r := by
  unfold bytesToMixedContent at h
  split at h
  next hvalid =>
    rw [← Option.some.inj h]
    exact sound_kept hvalid
  next =>
    -- what is not mixed is wrapped: text as a string, and the rest as an array
    cases hdecode : decodeUtf8 b with
    | some text =>
      simp only [hdecode] at h
      obtain ⟨hsha, hstr⟩ := sound_made hL hW hC (b := b) (by decide) h
      exact ⟨hsha, valid_mixed_of_plain hL (valid_plain_of_scalar hL (by simp) hstr)⟩
    | none =>
      simp only [hdecode] at h
      obtain ⟨hsha, hbinary⟩ := sound_made_array hW (b := b) (.inr ⟨b, rfl⟩) h
      exact ⟨hsha, valid_mixed_of_binary hbinary⟩

theorem textToPlainContent_sound (h : L.textToPlainContent b = some r) : L.Sound b .plain r := by
  unfold textToPlainContent at h
  obtain ⟨v, -, hv⟩ := Option.bind_eq_some_iff.mp h
  obtain ⟨r', hr', rfl⟩ := Option.map_eq_some_iff.mp hv
  obtain ⟨b', hb', rfl⟩ := made_some hr'
  have hvalid := valid_serialize hL hW hC (by decide) hb'
  simp only
  split
  -- the text was plain already
  next hsame => exact sound_kept (L.valid_of_sha_eq hC hsame hvalid)
  next => exact ⟨rfl, hvalid⟩

theorem reformatContent_sound (hpair : (s, t) ∈ Conversion.reformatPairs)
    (hprecise : (s, t) ∉ Conversion.unvalidatedPairs) (hs : L.Valid b s)
    (h : L.reformatContent b s t = some r) : L.Sound b t r := by
  simp only [Conversion.reformatPairs, List.mem_cons, List.not_mem_nil, or_false,
    Prod.mk.injEq] at hpair
  rcases hpair with ⟨rfl, rfl⟩ | ⟨rfl, rfl⟩ | ⟨rfl, rfl⟩ | ⟨rfl, rfl⟩ | ⟨rfl, rfl⟩ | ⟨rfl, rfl⟩ |
    ⟨rfl, rfl⟩ | ⟨rfl, rfl⟩ | ⟨rfl, rfl⟩ | ⟨rfl, rfl⟩
  · have h' : L.bytesToBinaryContent b = some r := h
    unfold bytesToBinaryContent at h'
    split at h'
    next hvalid =>
      rw [← Option.some.inj h']
      exact sound_kept hvalid.2
    next => exact sound_made_array hW (.inr ⟨b, rfl⟩) h'
  · exact bytesToMixedContent_sound hL hW hC h
  · -- every buffer is a bytes buffer
    obtain ⟨v, -, hv⟩ := Option.bind_eq_some_iff.mp h
    split at hv
    · split at hv
      · exact sound_made hL hW hC (by decide) hv
      · rw [← Option.some.inj hv]
        exact sound_kept (valid_bytes b)
    · rw [← Option.some.inj hv]
      exact sound_kept (valid_bytes b)
  · have h' : L.mixedToBytesContent b = some r := h
    unfold mixedToBytesContent at h'
    split at h'
    · obtain ⟨v, -, hv⟩ := Option.bind_eq_some_iff.mp h'
      split at hv
      · split at hv
        · exact sound_made hL hW hC (by decide) hv
        · rw [← Option.some.inj hv]
          exact sound_kept (valid_bytes b)
      · rw [← Option.some.inj hv]
        exact sound_kept (valid_bytes b)
    · obtain ⟨v, -, rfl⟩ := Option.map_eq_some_iff.mp h'
      exact sound_kept (valid_bytes b)
  · obtain ⟨v, hv, hr⟩ := Option.bind_eq_some_iff.mp h
    split at hr
    · exact sound_made hL hW hC (by decide) hr
    · rw [← Option.some.inj hr]
      exact sound_kept (valid_text_of_plain hL hC hs)
  · exact textToPlainContent_sound hL hW hC h
  · obtain ⟨v, -, hv⟩ := Option.bind_eq_some_iff.mp h
    exact sound_made hL hW hC (by decide) hv
  · obtain ⟨v, -, hv⟩ := Option.bind_eq_some_iff.mp h
    exact sound_made hL hW hC (by decide) hv
  · obtain ⟨v, -, hv⟩ := Option.bind_eq_some_iff.mp h
    split at hv
    · obtain ⟨v', -, hv'⟩ := Option.bind_eq_some_iff.mp hv
      exact sound_made hL hW hC (by decide) hv'
    · cases hv
  · exact absurd (by decide) hprecise

theorem possibleContent_sound (hpair : (s, t) ∈ Conversion.possiblePairs)
    (h : L.possibleContent b s t = some r) : L.Sound b t r := by
  unfold possibleContent at h
  obtain ⟨v, -, hv⟩ := Option.bind_eq_some_iff.mp h
  split at hv
  · cases hv
  obtain ⟨v', -, hv'⟩ := Option.bind_eq_some_iff.mp hv
  exact sound_made hL hW hC (Conversion.possible_written (s, t) hpair) hv'

theorem valuesContent_sound (hpair : (s, t) ∈ Conversion.valuePairs) (hs : s ≠ .checksum)
    (h : L.valuesContent b s t = some r) : L.Sound b t r := by
  unfold valuesContent at h
  by_cases ht : t = .checksum
  · rw [if_pos ht] at h
    obtain ⟨b', hb', rfl⟩ := Option.map_eq_some_iff.mp h
    rw [ht]
    exact ⟨rfl, valid_written_checksum hL hW hb'⟩
  rw [if_neg ht, if_neg hs] at h
  obtain ⟨v, -, hv⟩ := Option.bind_eq_some_iff.mp h
  obtain ⟨v', hrule, hv'⟩ := Option.bind_eq_some_iff.mp hv
  -- only `plain` to `binary` writes an array
  rcases Conversion.values_written (s, t) hpair hs ht with hwritten | hbinary
  · exact sound_made hL hW hC hwritten hv'
  · obtain ⟨rfl, rfl⟩ := Prod.mk.inj hbinary
    have hrule' : L.binaryOfPlain v = some v' := hrule
    unfold binaryOfPlain at hrule'
    split at hrule'
    any_goals
      split at hrule'
      next a ha =>
        split at hrule'
        · cases hrule'
        · rw [← Option.some.inj hrule'] at hv'
          exact sound_made_array hW (.inl ⟨_, by simp, ha⟩) hv'
      next => cases hrule'
    · cases hrule'

/-! ## §3. Conversions. -/

theorem valid_widens (hwidens : Conversion.widens s t = true) (h : L.Valid b s) : L.Valid b t := by
  unfold Conversion.widens at hwidens
  rcases of_decide_eq_true hwidens with rfl | ⟨hpair, hyaml⟩ | ⟨h1, h2, hyaml⟩
  · exact h
  · exact valid_trivial hL hW hC hpair hyaml h
  · exact valid_trivial hL hW hC h2 hyaml (valid_trivial hL hW hC h1 (by simp) h)

omit hL hW in
/-- The result of a chain is sound if that of its second part is. -/
theorem chainContent_sound {first second : Converted}
    (hsecond : L.Sound (first.2.getD b) t second) (h : L.chainContent b first second = some r) :
    L.Sound b t r := by
  obtain ⟨hsha, hvalid⟩ := hsecond
  unfold chainContent at h
  cases hmade : second.2 with
  | some b' =>
    rw [hmade] at h hsha hvalid
    rw [← Option.some.inj h]
    exact ⟨hsha, hvalid⟩
  | none =>
    rw [hmade] at h hsha hvalid
    simp only [Option.getD_none] at h hsha hvalid
    split at h
    next hsame =>
      -- the source buffer has the checksum of the intermediate one
      rw [← Option.some.inj h]
      exact sound_kept (L.valid_of_sha_eq hC (hsha.symm.trans hsame) hvalid)
    next =>
      split at h
      · cases h
      · rw [← Option.some.inj h]
        exact ⟨hsha, hvalid⟩

/-- The result of a conversion is valid for the target. -/
theorem convertContentFuel_sound (fuel : Nat) : ∀ {b : Bytes} {s t : Celltype} {r : Converted},
    L.Valid b s → s ≠ .checksum →
    (s, t) ∉ Conversion.imprecisePairs ++ Conversion.unvalidatedPairs →
    L.convertContentFuel fuel b s t = some r → L.Sound b t r := by
  -- the rules of the pair, with the fuel for the recursive ones
  induction fuel with
  | zero => intro b s t r _ _ _ h; cases h
  | succ fuel ih =>
    intro b s t r hs hchecksum hprecise h
    have hlists := Conversion.rule_lists s t
    have h' : L.convertContentStep (L.convertContentFuel fuel) b s t = some r := h
    unfold convertContentStep at h'
    cases hrule : Conversion.rule s t with
    | same =>
      rw [hrule] at hlists h'
      rw [← Option.some.inj h']
      have hst : s = t := hlists
      rw [← hst]
      exact sound_kept hs
    | equivalent s' t' =>
      rw [hrule] at hlists h'
      have hpair : Conversion.lookupPair Conversion.equivalentPairs (s, t) = some (s', t') := hlists
      have hwidens := Conversion.equivalent_widens s t
      rw [hpair] at hwidens
      simp only [Option.all_some, hprecise, decide_false, Bool.false_or, Bool.and_eq_true,
        decide_eq_true_eq] at hwidens
      obtain ⟨⟨⟨hsource, htarget⟩, hchecksum'⟩, hprecise'⟩ := hwidens
      obtain ⟨hsha, hvalid⟩ := ih (valid_widens hL hW hC hsource hs) hchecksum' hprecise' h'
      exact ⟨hsha, valid_widens hL hW hC htarget hvalid⟩
    | chain m =>
      rw [hrule] at hlists h'
      have hpair : Conversion.lookupPair Conversion.chainPairs (s, t) = some m := hlists
      have hparts := Conversion.chain_precise s t
      rw [hpair] at hparts
      simp only [Option.all_some, hprecise, decide_false, Bool.false_or, Bool.and_eq_true,
        decide_eq_true_eq] at hparts
      obtain ⟨⟨hm, hprecise1⟩, hprecise2⟩ := hparts
      obtain ⟨first, hfirst, hrest⟩ := Option.bind_eq_some_iff.mp h'
      obtain ⟨second, hsecond, hchain⟩ := Option.bind_eq_some_iff.mp hrest
      have hsound1 := ih hs hchecksum hprecise1 hfirst
      have hsound2 := ih hsound1.2 hm hprecise2 hsecond
      exact chainContent_sound hC hsound2 hchain
    | forbidden | unclassified =>
      rw [hrule] at h'
      cases h'
    | retain =>
      rw [hrule] at hlists h'
      rw [← Option.some.inj h']
      have hpair : (s, t) ∈ Conversion.trivialPairs := hlists
      refine sound_kept (valid_trivial hL hW hC hpair ?_ hs)
      rintro rfl
      exact hprecise (Conversion.trivial_yaml s hpair)
    | reinterpret =>
      rw [hrule] at h'
      obtain ⟨v, hv, rfl⟩ := Option.map_eq_some_iff.mp h'
      exact sound_kept (L.valid_iff.mpr ⟨v, hv⟩)
    | reformat =>
      rw [hrule] at hlists h'
      refine reformatContent_sound hL hW hC hlists ?_ hs h'
      exact fun hmem => hprecise (List.mem_append_right _ hmem)
    | possible =>
      rw [hrule] at hlists h'
      exact possibleContent_sound hL hW hC hlists h'
    | values =>
      rw [hrule] at hlists h'
      exact valuesContent_sound hL hW hC hlists hchecksum h'

end Libraries

end SeamlessCore
