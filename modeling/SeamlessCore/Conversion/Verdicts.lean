/-
  SeamlessCore.Conversion.Verdicts — what a refusal says, and a result.

  Main results:
    * `feasible_mono` — what a word rules out, every tighter one does;
    * `content_of_ruled_out` — what the buffer's own word rules out fails, but
      for the number behind the header of a container.

  Source: `seamless/checksum/convert.py`, `hash_type_validation.py`.
-/
import SeamlessCore.Conversion.Needs

namespace SeamlessCore

open Python Lazy Conversion

namespace Libraries

variable {L : Libraries}

/-! ## §1. Words that rule a conversion out. -/

/-- Both parts of a chain are ruled out by a tighter word, too. -/
theorem chainFeasible_mono {tighter looser : Celltype → Celltype → Option Bool}
    (h : ∀ s t, looser s t = some false → tighter s t = some false) {s m t : Celltype}
    (hfalse : chainFeasible looser s m t = some false) :
    chainFeasible tighter s m t = some false := by
  unfold chainFeasible at hfalse ⊢
  dsimp only at hfalse ⊢
  by_cases hfirst : tighter s m = some false
  · rw [if_pos hfirst]
  have hfirst' : looser s m ≠ some false := fun hlooser => hfirst (h s m hlooser)
  rw [if_neg hfirst'] at hfalse
  rw [if_neg hfirst]
  split at hfalse
  · cases hfalse
  next hconv =>
    rw [if_neg hconv]
    split at hfalse
    next hsecond => rw [if_pos (h m t hsecond)]
    next =>
      split at hfalse
      · exact absurd hfalse hfirst'
      · cases hfalse

/-- What a word rules out, every tighter one does. -/
theorem feasible_mono {tighter looser : HashType} (h : tighter.implies looser = true)
    {c : Checksum} (fuel : Nat) : ∀ {s t : Celltype},
    L.feasibleFuel looser c fuel s t = some false →
    L.feasibleFuel tighter c fuel s t = some false := by
  induction fuel with
  | zero =>
    intro s t hfalse
    cases hfalse
  | succ fuel ih =>
    intro s t hfalse
    have hstep : L.feasibleStep (L.feasibleFuel looser c fuel) looser c s t = some false := hfalse
    show L.feasibleStep (L.feasibleFuel tighter c fuel) tighter c s t = some false
    unfold feasibleStep at hstep ⊢
    dsimp only at hstep ⊢
    -- the tests in their order
    by_cases hst : s = t
    · rw [if_pos hst] at hstep
      cases hstep
    rw [if_neg hst] at hstep ⊢
    by_cases hforbidden : equivalentOf (s, t) ∈ forbiddenPairs
    · rw [if_pos hforbidden]
    rw [if_neg hforbidden] at hstep ⊢
    by_cases hnull : c ∈ L.nullChecksums
    · rw [if_pos hnull] at hstep
      cases hstep
    rw [if_neg hnull] at hstep ⊢
    by_cases hsource : L.deserializableAs tighter s c = some false
    · rw [if_pos hsource]
    rw [if_neg fun hlooser => hsource (L.deserializableAs_mono h hlooser)] at hstep
    rw [if_neg hsource]
    by_cases hchecksum : t = .checksum
    · rw [if_pos hchecksum] at hstep
      cases hstep
    rw [if_neg hchecksum] at hstep ⊢
    cases hchain : lookupPair chainPairs (equivalentOf (s, t)) with
    | some m =>
      rw [hchain] at hstep
      exact chainFeasible_mono (fun s t => ih) hstep
    | none =>
      rw [hchain] at hstep
      dsimp only at hstep ⊢
      by_cases hkept : equivalentOf (s, t) ∈ trivialPairs ∨ equivalentOf (s, t) ∈ reformatPairs
      · rw [if_pos hkept] at hstep
        cases hstep
      rw [if_neg hkept] at hstep ⊢
      by_cases hreinterpret : equivalentOf (s, t) ∈ reinterpretPairs
      · rw [if_pos hreinterpret] at hstep ⊢
        exact L.deserializableAs_mono h hstep
      rw [if_neg hreinterpret] at hstep ⊢
      -- the other rules ask a tested word, which no other word implies
      have htested : ∀ {answer : Option Bool},
          (if looser.isUntested = true then none else answer) = some false →
          tighter = looser := by
        intro answer hanswer
        split at hanswer
        · cases hanswer
        next hu => exact HashType.eq_of_implies h (by simpa using hu)
      by_cases hpossible : equivalentOf (s, t) ∈ possiblePairs
      · rw [if_pos hpossible] at hstep ⊢
        rw [htested hstep]
        exact hstep
      rw [if_neg hpossible] at hstep ⊢
      by_cases hvalue : equivalentOf (s, t) ∈ valuePairs
      · rw [if_pos hvalue] at hstep ⊢
        rw [htested hstep]
        exact hstep
      rw [if_neg hvalue] at hstep
      cases hstep

section

variable (hL : L.JsonLaws) (hW : L.WriteLaws) (hR : L.RootLaws) (hC : L.CollisionFree) {b : Bytes}

include hL hC in
/-- A buffer that is valid for its source is not disproved. -/
theorem not_disproved_of_valid {s : Celltype} (hs : L.Valid b s) :
    L.deserializableAs (L.fromBuffer b) s (L.sha256 b) ≠ some false := by
  intro hfalse
  exact L.not_valid_iff.mpr (contentValue_of_disproof hL hC hfalse) hs

include hL hW hC in
/-- A conversion that reads nothing is not ruled out. -/
theorem feasible_of_readsNothing (fuel : Nat) : ∀ {s t : Celltype}, L.Valid b s →
    readsNothing s t = true →
    L.feasibleFuel (L.fromBuffer b) (L.sha256 b) fuel s t ≠ some false := by
  induction fuel with
  | zero =>
    intro s t _ _ hfalse
    cases hfalse
  | succ fuel ih =>
    intro s t hs hreads
    have hsource := not_disproved_of_valid hL hC hs
    show L.feasibleStep (L.feasibleFuel (L.fromBuffer b) (L.sha256 b) fuel) (L.fromBuffer b)
      (L.sha256 b) s t ≠ some false
    unfold feasibleStep
    dsimp only
    by_cases hst : s = t
    · rw [if_pos hst]
      simp
    rw [if_neg hst, if_neg hsource]
    unfold readsNothing at hreads
    rcases of_decide_eq_true hreads with hsame | hchecksum | htrivial | hyaml
    · exact absurd hsame hst
    · -- every celltype has a checksum
      have hvalues : (s, t) ∈ valuePairs := by
        have hlists := rule_lists s t
        rw [hchecksum, rule_to_checksum s (fun hs => hst (hs.trans hchecksum.symm))] at hlists
        rw [hchecksum]
        exact hlists
      have hself : equivalentOf (s, t) = (s, t) := equivalentOf_of_rule (r := .values) hvalues (by simp)
      have hlegal : equivalentOf (s, t) ∉ forbiddenPairs := by
        rw [hself]
        intro hforbidden
        have hrule := rule_forbidden (s, t) hforbidden
        rw [rule_values (s, t) hvalues] at hrule
        cases hrule
      rw [if_neg hlegal, if_pos hchecksum]
      by_cases hnull : L.sha256 b ∈ L.nullChecksums
      · rw [if_pos hnull]
        simp
      · rw [if_neg hnull]
        simp
    · have hrule := rule_retain _ htrivial
      have hlegal : equivalentOf (s, t) ∉ forbiddenPairs := by
        intro hforbidden
        have hrule' := rule_forbidden _ hforbidden
        rw [hrule] at hrule'
        cases hrule'
      have hchain : lookupPair chainPairs (equivalentOf (s, t)) = none := by
        cases hlookup : lookupPair chainPairs (equivalentOf (s, t)) with
        | none => rfl
        | some m =>
          have hrule' := rule_of_lists (s := (equivalentOf (s, t)).1)
            (t := (equivalentOf (s, t)).2) (r := .chain m) hlookup
          rw [hrule] at hrule'
          cases hrule'
      rw [if_neg hlegal]
      by_cases hnull : L.sha256 b ∈ L.nullChecksums
      · rw [if_pos hnull]
        simp
      rw [if_neg hnull, hchain]
      by_cases ht : t = .checksum
      · rw [if_pos ht]
        simp
      rw [if_neg ht]
      dsimp only
      rw [if_pos (Or.inl htrivial)]
      simp
    · -- a scalar is `plain`, and that is `yaml`
      obtain ⟨hchain, hplain, hyaml'⟩ := table_yaml (s, t) hyaml
      have hself : equivalentOf (s, t) = (s, t) :=
        equivalentOf_of_rule (r := .chain .plain) hchain (by simp)
      have hlegal : (s, t) ∉ forbiddenPairs := by
        intro hforbidden
        have hrule := rule_forbidden (s, t) hforbidden
        rw [rule_of_lists (r := .chain .plain) hchain] at hrule
        cases hrule
      have htrivial : equivalentOf (s, .plain) ∈ trivialPairs := by
        rw [equivalentOf_of_rule (r := .retain) hplain (by simp)]
        exact hplain
      have hchecksum : t ≠ .checksum := by
        rintro rfl
        simp at hyaml
      have hfirst := trivial_reads (s, .plain) hplain
      have hsecond := trivial_reads (.plain, t) hyaml'
      have hfirst' := ih hs hfirst
      have hsecond' := ih (valid_trivial hL hW hC hplain (by simp) hs) hsecond
      rw [hself, if_neg hlegal, if_neg hchecksum, hchain]
      by_cases hnull : L.sha256 b ∈ L.nullChecksums
      · rw [if_pos hnull]
        simp
      rw [if_neg hnull]
      dsimp only
      unfold chainFeasible
      dsimp only
      rw [if_neg hfirst', if_neg (fun hconv => hconv.1 htrivial), if_neg hsecond']
      split
      · exact hfirst'
      · simp

include hL hW hR hC in
/-- What the buffer's own word rules out fails, but for the number behind the header
of a container. -/
theorem content_of_ruled_out {s t : Celltype} (hs : L.Valid b s) (hroot : ¬ L.RootScalar b s t)
    {fuel : Nat}
    (hfalse : L.feasibleFuel (L.fromBuffer b) (L.sha256 b) fuel s t = some false) (n : Nat) :
    L.convertContentFuel n b s t = none := by
  by_cases hreads : readsNothing s t = true
  · exact absurd hfalse (feasible_of_readsNothing hL hW hC fuel hs hreads)
  · refine content_of_infeasible hL hW hR hC fuel (by simpa using hreads) ?_ hroot hfalse n
    intro hsource
    exact absurd hsource (not_disproved_of_valid hL hC hs)

end

/-! ## §2. Stored words that mislead. -/

section

variable (hL : L.JsonLaws) (hW : L.WriteLaws) (hC : L.CollisionFree)
variable {known : Knowledge} {b : Bytes} {s t : Celltype}

include hC in
/-- An array that only `np.load` reads is no value. -/
theorem not_valid_of_unreadable (h : L.Unreadable b) (ht : t = .binary ∨ t = .mixed) :
    ¬ L.Valid b t :=
  L.not_valid_iff.mpr (L.not_parsed_of_unreadable hC.constants h ht)

include hL hC in
/-- A mixed buffer with the magic of an array is an array. -/
theorem not_loose_of_mixed (hs : L.Valid b .mixed) (hmagic : startsWith b magicNumpy = true) :
    ¬ L.Loose b .binary := by
  intro hloose
  have hnull := L.not_null_of_notVirtual hloose.2.1
  have hdisproof := disproof_of_loose hloose
  have hsource := not_disproved_of_valid hL hC hs
  have htested := L.fromBuffer_tested b
  rw [L.deserializableAs_tested hnull (by simp) (by simp) htested] at hdisproof hsource
  have hkind : (L.fromBuffer b).kind ≠ .numpy := by simpa [testedAnswer] using hdisproof
  -- without a word of its own it would be raw bytes
  have hraw : (L.fromBuffer b).kind = .rawBytes := by
    have hc := L.classified b
    generalize L.fromBuffer b = h at hc hkind
    cases hc with
    | badNumpy => rfl
    | numpy => exact absurd rfl hkind
    | badMixed hnumpy | mixed hnumpy | bytes hnumpy | text hnumpy | json hnumpy =>
      exact absurd (hmagic.symm.trans hnumpy) (by decide)
  apply hsource
  simp [testedAnswer, hraw]

include hL hC in
/-- A valid source that no word misleads is read plainly. -/
theorem straight_of_valid (hK : L.Good known) (hs : L.Valid b s) (h : ¬ L.Misled known b s t) :
    Straight (L := L) known b s t := by
  cases s with
  | bytes =>
    cases t with
    | binary =>
      intro hmagic word hword hopen hloose
      exact h ⟨hmagic, hloose, word, hword, hopen⟩
    | mixed =>
      by_cases hunreadable : L.Unreadable b
      · -- no word proves what the reader refuses
        intro word hword _ htrue
        exact absurd ⟨hunreadable, word, hword, htrue⟩ h
      · exact backed_of_readable hL hK fun _ => hunreadable
    | _ => exact plainly_of_valid hs
  | mixed =>
    cases t with
    | binary =>
      refine ⟨?_, backed_of_readable hL hK fun _ hunreadable => ?_⟩
      · intro word hword hopen hloose
        exact h ⟨hloose, word, hword, hopen⟩
      · exact not_valid_of_unreadable hC hunreadable (.inr rfl) hs
    | bytes =>
      show Plainly (L := L) known b (if startsWith b magicNumpy then .binary else .mixed)
      split
      next hmagic => exact plainly_of_not_loose (not_loose_of_mixed hL hC hs hmagic)
      next => exact plainly_of_valid hs
    | _ => exact plainly_of_valid hs
  | _ => exact plainly_of_valid hs

include hL hW hC in
/-- A valid source that no word misleads is converted as its content. -/
theorem convertChecksum_of_valid (hK : L.Good known) (hs : L.Valid b s)
    (h : ¬ L.Misled known b s t) :
    L.Gives known b (L.convertChecksum (L.sha256 b) s t) (L.convertContent b s t) :=
  convertChecksum_gives hL hW hC hK (straight_of_valid hL hC hK hs h)

/-- What is loose is read under a word that does not disprove it. -/
theorem parseBuffer_of_loose (hloose : L.Loose b t) {word : HashType}
    (hstored : known (L.sha256 b) = some word)
    (hopen : L.deserializableAs word t (L.sha256 b) ≠ some false) :
    ∃ v, L.parseBuffer (known (L.sha256 b)) b (L.sha256 b) t = some v := by
  obtain ⟨-, hvirtual, hbody⟩ := hloose
  unfold parseBuffer
  rw [hvirtual, hstored]
  show ∃ v, (if L.deserializableAs word t (L.sha256 b) = some false then none
    else L.parseBody b t) = some v
  rw [if_neg hopen]
  exact Option.isSome_iff_exists.mp hbody

include hW hC in
/-- The array that bytes are wrapped in is another buffer than bytes that are no array. -/
theorem wrapped_ne (hinvalid : ¬ L.Valid b .binary) :
    (L.made (.array (L.npBytes b)) .binary).map Prod.fst ≠ some (L.sha256 b) := by
  intro hsame
  obtain ⟨r, hr, hsha⟩ := Option.map_eq_some_iff.mp hsame
  obtain ⟨b', hb', rfl⟩ := made_some hr
  have hvalid := (valid_written_binary hW (.inr ⟨b, rfl⟩) hb').1
  exact hinvalid (L.valid_of_sha_eq hC hsha hvalid)

include hW hC in
/-- The content of an array that only `np.load` reads is not kept. -/
theorem content_of_unreadable (h : L.Unreadable b) :
    (L.convertContent b .bytes .mixed).map Prod.fst ≠ some (L.sha256 b) := by
  have hpair : (Celltype.bytes, Celltype.mixed) ∈ reformatPairs ∧
      (Celltype.bytes, Celltype.mixed) ∉ forbiddenPairs := by decide
  unfold convertContent
  rw [if_neg hpair.2]
  show (L.convertContentStep (L.convertContentFuel 3) b .bytes .mixed).map _ ≠ _
  unfold convertContentStep
  rw [rule_of_lists (r := .reformat) hpair.1]
  show (L.bytesToMixedContent b).map _ ≠ _
  unfold bytesToMixedContent
  rw [if_neg (not_valid_of_unreadable hC h (.inr rfl))]
  cases hdecode : decodeUtf8 b with
  -- an array is no text
  | some text => exact absurd h (not_unreadable_of_decodes hdecode)
  | none => exact wrapped_ne hW hC (not_valid_of_unreadable hC h (.inl rfl))

include hC in
/-- A misled conversion keeps the checksum. -/
theorem convertChecksum_of_misled (hK : L.Good known) (h : L.Misled known b s t) :
    L.Gives known b (L.convertChecksum (L.sha256 b) s t) (some (L.kept b)) := by
  rcases L.misled_cases h with ⟨rfl, rfl, hmixed⟩ | ⟨rfl, rfl, hbytes⟩ | ⟨rfl, rfl, hproved⟩
  · obtain ⟨hloose, word, hstored, hopen⟩ := hmixed
    obtain ⟨v, hv⟩ := parseBuffer_of_loose hloose hstored hopen
    have hparse := parseBufferStored_gives hC hK b b .binary
    rw [hv] at hparse
    have hread : L.Gives known b (do
        let b' ← getBuffer
        let _ ← L.parseBufferStored b' (L.sha256 b) .binary
        return ((L.sha256 b, none) : Converted)) (some (L.kept b)) := gives_map hparse
    show L.Gives known b (L.convertStep (L.convertFuel 3) (L.sha256 b) .mixed .binary) _
    unfold convertStep
    rw [rule_reinterpret (.mixed, .binary) (by decide)]
    show L.Gives known b (L.reinterpret (L.sha256 b) .binary) _
    unfold reinterpret Gives
    rw [hloose.2.1]
    dsimp only
    rw [Prog.exec_bind, exec_validate_none, hstored]
    simp only [Option.any_some, hopen, decide_false, Bool.false_eq_true, if_false]
    by_cases htrue : L.deserializableAs word .binary (L.sha256 b) = some true
    · -- a proof keeps the checksum unread; without one the buffer is read under the looser word
      rw [if_pos (decide_eq_true htrue)]
      exact ⟨rfl, hK⟩
    · rw [if_neg (by simp [htrue])]
      exact hread
  · obtain ⟨hmagic, hloose, word, hstored, hopen⟩ := hbytes
    obtain ⟨v, hv⟩ := parseBuffer_of_loose hloose hstored hopen
    have hvalue := valueOf_stored hC hK b .binary
    rw [hv] at hvalue
    show L.Gives known b (L.convertStep (L.convertFuel 3) (L.sha256 b) .bytes .binary) _
    unfold convertStep
    have hpair : (Celltype.bytes, Celltype.binary) ∈ reformatPairs := by decide
    rw [rule_of_lists (r := .reformat) hpair]
    show L.Gives known b (L.bytesToBinary (L.sha256 b)) _
    apply gives_fetch
    rw [if_pos hmagic]
    exact gives_attempt_bind hvalue fun known' hK' => gives_ret hK' _
  · obtain ⟨hunreadable, word, hstored, htrue⟩ := hproved
    show L.Gives known b (L.convertStep (L.convertFuel 3) (L.sha256 b) .bytes .mixed) _
    unfold convertStep
    have hpair : (Celltype.bytes, Celltype.mixed) ∈ reformatPairs := by decide
    rw [rule_of_lists (r := .reformat) hpair]
    show L.Gives known b (L.bytesToMixed (L.sha256 b)) _
    unfold bytesToMixed Gives
    rw [L.notVirtual_of_magic hC.constants hunreadable.1 (by simp)]
    dsimp only
    rw [Prog.exec_bind, exec_ensureHashType_none, hstored]
    simp only [Option.any_some, htrue, decide_true, if_true]
    exact ⟨rfl, hK⟩

end

/-! ## §3. A refusal is a proof of failure. -/

/-- A conversion that the word rules out, although it succeeds: the root of a mixed
payload is a number, or a looser stored word lets the parser read what the
buffer's own word disproves. -/
def RuledOutAmiss (L : Libraries) (known : Knowledge) (w : HashType) (b : Bytes)
    (s t : Celltype) : Prop :=
  (L.RootScalar b s t ∧ w.isUntested = false) ∨
    (s = .mixed ∧ L.Misled known b s t ∧ L.deserializableAs w t (L.sha256 b) = some false)

section

variable (hL : L.JsonLaws) (hW : L.WriteLaws) (hR : L.RootLaws)
variable (hC : L.CollisionFree) {known : Knowledge} {b : Bytes} {s t : Celltype} {w : HashType}

/-- The array that a looser word lets pass is ruled out by its own test. -/
theorem feasible_mixed_binary {c : Checksum} (hnull : c ∉ L.nullChecksums)
    (hsource : L.deserializableAs w .mixed c ≠ some false) :
    L.conversionFeasible w .mixed .binary c = L.deserializableAs w .binary c := by
  have htable : equivalentOf (.mixed, .binary) = (.mixed, .binary) ∧
      (Celltype.mixed, Celltype.binary) ∉ forbiddenPairs ∧
      lookupPair chainPairs (.mixed, .binary) = none ∧
      ¬ ((Celltype.mixed, Celltype.binary) ∈ trivialPairs ∨
        (Celltype.mixed, Celltype.binary) ∈ reformatPairs) ∧
      (Celltype.mixed, Celltype.binary) ∈ reinterpretPairs := by
    decide
  obtain ⟨hequiv, hlegal, hchain, hkeep, hpair⟩ := htable
  show L.feasibleStep (L.feasibleFuel w c 3) w c .mixed .binary = _
  unfold feasibleStep
  dsimp only
  rw [if_neg (by decide), hequiv, if_neg hlegal, if_neg hnull, if_neg hsource, if_neg (by decide),
    hchain]
  dsimp only
  rw [if_neg hkeep, if_pos hpair]

/-- Bytes are never ruled out as an array or as mixed. -/
theorem feasible_bytes {c : Checksum} (ht : t = .binary ∨ t = .mixed) (hnull : c ∉ L.nullChecksums)
    (hsource : L.deserializableAs w .bytes c ≠ some false) :
    L.conversionFeasible w .bytes t c = some true := by
  have htable : ∀ t ∈ [Celltype.binary, .mixed], equivalentOf (.bytes, t) = (.bytes, t) ∧
      (Celltype.bytes, t) ∉ forbiddenPairs ∧ lookupPair chainPairs (.bytes, t) = none ∧
      (Celltype.bytes, t) ∈ reformatPairs ∧ t ≠ .bytes ∧ t ≠ .checksum := by
    decide
  obtain ⟨hequiv, hlegal, hchain, hpair, hbytes, hchecksum⟩ := htable t (by simpa using ht)
  show L.feasibleStep (L.feasibleFuel w c 3) w c .bytes t = _
  unfold feasibleStep
  dsimp only
  rw [if_neg (Ne.symm hbytes), hequiv, if_neg hlegal, if_neg hnull, if_neg hsource,
    if_neg hchecksum, hchain]
  dsimp only
  rw [if_pos (Or.inr hpair)]

include hL hC in
/-- A truthful word does not disprove a valid source. -/
theorem not_disproved_of_truthful (hs : L.Valid b s) (hw : L.Truthful b w) :
    L.deserializableAs w s (L.sha256 b) ≠ some false := by
  intro hfalse
  exact not_disproved_of_valid hL hC hs (L.deserializableAs_mono hw.implied hfalse)

include hL hC in
/-- A mixed number is ruled out by the tested words, and only by them. -/
theorem feasible_of_rootScalar (hs : L.Valid b s) (hw : L.Truthful b w)
    (h : L.RootScalar b s t) :
    L.conversionFeasible w s t (L.sha256 b) = some false ↔ w.isUntested = false := by
  obtain ⟨rfl, ht, hmixed, -⟩ := h
  have hnull := not_null_of_isMixed hC hmixed
  have hsource := not_disproved_of_truthful hL hC hs hw
  cases htested : w.isUntested with
  | true =>
    rw [feasible_mixed_number ht hnull hsource, if_pos htested]
    simp
  | false =>
    have hown : L.fromBuffer b = w := HashType.eq_of_implies hw.implied htested
    rw [hown] at hmixed
    exact iff_of_true (feasible_of_isMixed hmixed htested ht hnull hsource) rfl

include hL hC in
/-- A misled conversion is ruled out where the word disproves the array of a mixed
buffer, and only there. -/
theorem feasible_of_misled (hs : L.Valid b s) (hw : L.Truthful b w)
    (hmisled : L.Misled known b s t) :
    L.conversionFeasible w s t (L.sha256 b) = some false ↔
      s = .mixed ∧ L.deserializableAs w t (L.sha256 b) = some false := by
  have hsource := not_disproved_of_truthful hL hC hs hw
  rcases L.misled_cases hmisled with ⟨rfl, rfl, hmixed⟩ | ⟨rfl, rfl, hbytes⟩ | ⟨rfl, rfl, hproved⟩
  · obtain ⟨hloose, -⟩ := hmixed
    rw [feasible_mixed_binary (L.not_null_of_notVirtual hloose.2.1) hsource]
    simp
  · obtain ⟨-, hloose, -⟩ := hbytes
    rw [feasible_bytes (.inl rfl) (L.not_null_of_notVirtual hloose.2.1) hsource]
    simp
  · have hvirtual := L.notVirtual_of_magic hC.constants hproved.1.1 (t := .mixed) (by simp)
    rw [feasible_bytes (.inr rfl) (L.not_null_of_notVirtual hvirtual) hsource]
    simp

include hL hW hR hC in
/-- A conversion that a truthful word rules out fails, unless it is ruled out amiss. -/
theorem feasible_false_iff (hK : L.Good known) (hs : L.Valid b s) (hw : L.Truthful b w) :
    (L.conversionFeasible w s t (L.sha256 b) = some false →
      ∀ r, (L.runConversion known b (L.sha256 b) s t).1 ≠ .done r) ↔
      ¬ L.RuledOutAmiss known w b s t := by
  unfold runConversion
  rw [run_not_done_iff]
  by_cases hmisled : L.Misled known b s t
  · -- the conversion keeps the buffer
    have hruns := (convertChecksum_of_misled hC hK hmisled).1
    rw [feasible_of_misled hL hC hs hw hmisled]
    constructor
    · intro hclaim hamiss
      rcases hamiss with ⟨⟨rfl, rfl | rfl, -⟩, -⟩ | ⟨hmixed, -, hfalse⟩
      · exact hmisled.elim
      · exact hmisled.elim
      · have hnone := hclaim ⟨hmixed, hfalse⟩
        rw [hruns] at hnone
        cases hnone
    · rintro hright ⟨hmixed, hfalse⟩
      exact absurd (.inr ⟨hmixed, hmisled, hfalse⟩) hright
  · have hruns := (convertChecksum_of_valid hL hW hC hK hs hmisled).1
    rw [hruns]
    constructor
    · intro hclaim hamiss
      rcases hamiss with ⟨hroot, htested⟩ | ⟨-, h, -⟩
      · have hsome := content_rootScalar hroot
        rw [hclaim ((feasible_of_rootScalar hL hC hs hw hroot).mpr htested)] at hsome
        cases hsome
      · exact hmisled h
    · intro hright hfalse
      have hown : L.feasibleFuel (L.fromBuffer b) (L.sha256 b) 4 s t = some false :=
        feasible_mono hw.implied 4 hfalse
      unfold convertContent
      split
      · rfl
      by_cases hroot : L.RootScalar b s t
      · have htested := (feasible_of_rootScalar hL hC hs hw hroot).mp hfalse
        exact absurd (.inl ⟨hroot, htested⟩) hright
      · exact content_of_ruled_out hL hW hR hC hs hroot hown 4

end

/-- A mixed buffer with the form of an object and the root 5 -/
def mixedNumber : Bytes :=
  magicSeamlessMixed ++ [11] ++ ascii "mixed-plain" ++ [36, 0, 0, 0] ++
    (encodeUtf8 Small.objectForm).getD [] ++ Small.rootPayload

/-- It is ruled out as an `int`, and converts to one. -/
theorem mixedNumber_converts :
    small.Valid mixedNumber .mixed ∧
      small.conversionFeasible (small.fromBuffer mixedNumber) .mixed .int
        (small.sha256 mixedNumber) = some false ∧
      (small.runConversion (fun _ => none) mixedNumber (small.sha256 mixedNumber) .mixed .int).1 =
        .done (small.sha256 (ascii "5\n"), some (ascii "5\n")) := by
  decide +kernel

/-- A string that is no number is ruled out as an `int`, and fails. -/
theorem feasible_false_string :
    (small.conversionFeasible (small.fromBuffer (ascii "\"ab\"\n")) .str .int
        (small.sha256 (ascii "\"ab\"\n")) = some false →
      ∀ r, (small.runConversion (fun _ => none) (ascii "\"ab\"\n")
        (small.sha256 (ascii "\"ab\"\n")) .str .int).1 ≠ .done r) ↔
      ¬ small.RuledOutAmiss (fun _ => none) (small.fromBuffer (ascii "\"ab\"\n"))
        (ascii "\"ab\"\n") .str .int :=
  feasible_false_iff Small.small_jsonLaws Small.small_writeLaws
    small_rootLaws Small.small_collisionFree (fun _ _ h => nomatch h) (by decide +kernel)
    (small.truthful_fromBuffer _)

/-! ## §4. Results that are not what they say. -/

/-- The text that a value is written as -/
def textOf (L : Libraries) : L.Value → Option PyStr
  | .none => some (py "null")
  | .checksum c => some c.hex
  | v => (L.decodeBytes v).bind L.pyStr

/-- The text that the pairs without a check write -/
def uncheckedText (L : Libraries) (b : Bytes) : Celltype → Option PyStr
  | .ipython =>
    (L.contentValue b .ipython).bind fun
      | .str text => L.ipython2python text
      | _ => none
  | s => (L.contentValue b s).bind L.textOf

/-- The text reads as the celltype. -/
def ReadsAs (L : Libraries) (text : PyStr) (t : Celltype) : Prop :=
  rstripNewlines text = py "null" ∨ L.validateText (rstripNewlines text) t = true

/-- What a pair without a check writes happens to be code of the target. -/
def HappensToRead (L : Libraries) (b : Bytes) (s t : Celltype) : Prop :=
  (s, t) ∈ unvalidatedPairs → ∀ text, L.uncheckedText b s = some text →
    (textBuffer text).isSome = true → L.ReadsAs text t

section

variable (hL : L.JsonLaws) (hW : L.WriteLaws) (hC : L.CollisionFree)
variable {known : Knowledge} {b : Bytes} {s t : Celltype}

theorem textBuffer_null : textBuffer (py "null") = some nullBuffer := by decide

theorem serialize_text (v : L.Value) : L.serialize v .text = (L.textOf v).bind textBuffer := by
  cases v with
  | none => exact textBuffer_null.symm
  | _ => rfl

include hL hC in
/-- Text is valid where it reads as the celltype. -/
theorem valid_textBuffer_iff (ht : t = .text ∨ t = .python ∨ t = .ipython ∨ t = .yaml)
    {text : PyStr} (hb : textBuffer text = some b) : L.Valid b t ↔ L.ReadsAs text t := by
  have hdecode := textBuffer_decodes hb
  have hstrip : rstripNewlines (rstripNewlines text ++ [cp '\n']) = rstripNewlines text := by
    rw [rstripNewlines_append_newline, rstripNewlines_idem]
  constructor
  · intro hvalid
    obtain ⟨text', htext', hreads⟩ := decodes_of_valid hC ht hvalid
    obtain rfl : rstripNewlines text ++ [cp '\n'] = text' :=
      Option.some.inj (hdecode.symm.trans htext')
    rw [hstrip] at hreads
    refine hreads.imp (fun hnull => ?_) id
    -- the constants are the text `null`
    obtain ⟨constant, hmem, hsha⟩ := List.mem_map.mp hnull
    have hconstant := hC.constants constant (by simp [hmem]) b hsha.symm
    have hnulls : ∀ constant ∈ nullBuffers, (decodeUtf8 constant).map rstripNewlines =
        some (py "null") := by decide
    have htext := hnulls constant hmem
    rw [← hconstant, hdecode, Option.map_some, hstrip] at htext
    exact Option.some.inj htext
  · rintro (hnull | hvalidates)
    · have hbuffer : textBuffer text = textBuffer (py "null") := by
        unfold textBuffer
        rw [hnull]
        rfl
      obtain rfl : nullBuffer = b := by
        rw [hbuffer, textBuffer_null] at hb
        exact Option.some.inj hb
      exact valid_nullBuffer t
    · exact valid_text_of_decodes hL hdecode ht (by rw [hstrip]; exact hvalidates)

/-- A pair without a check writes its text. -/
theorem content_unchecked (hpair : (s, t) ∈ unvalidatedPairs) :
    L.convertContent b s t =
      ((L.uncheckedText b s).bind textBuffer).map fun b' => (L.sha256 b', some b') := by
  have hequiv : ∀ t ∈ [Celltype.yaml, .python, .ipython],
      (Celltype.str, t) ∉ forbiddenPairs ∧
        lookupPair equivalentPairs (.str, t) = some (.str, .text) := by
    decide
  -- three of the pairs are that of `str` and `text`
  have hstr : ∀ t ∈ [Celltype.yaml, .python, .ipython], L.convertContent b .str t =
      ((L.uncheckedText b .str).bind textBuffer).map fun b' => (L.sha256 b', some b') := by
    intro t ht
    obtain ⟨hlegal, hlookup⟩ := hequiv t ht
    unfold convertContent
    rw [if_neg hlegal]
    show L.convertContentStep (L.convertContentFuel 3) b .str t = _
    unfold convertContentStep
    rw [rule_of_lists (r := .equivalent .str .text) hlookup]
    show L.convertContentStep (L.convertContentFuel 2) b .str .text = _
    unfold convertContentStep
    have htext : (Celltype.str, Celltype.text) ∈ reformatPairs := by decide
    rw [rule_of_lists (r := .reformat) htext]
    show ((L.contentValue b .str).bind fun v => L.made v .text) =
      (((L.contentValue b .str).bind L.textOf).bind textBuffer).map _
    cases L.contentValue b .str with
    | none => rfl
    | some v =>
      show (L.serialize v .text).map _ = ((L.textOf v).bind textBuffer).map _
      rw [serialize_text]
  simp only [unvalidatedPairs, List.mem_cons, List.not_mem_nil, or_false, Prod.mk.injEq] at hpair
  rcases hpair with ⟨rfl, rfl⟩ | ⟨rfl, rfl⟩ | ⟨rfl, rfl⟩ | ⟨rfl, rfl⟩
  · exact hstr .yaml (by simp)
  · exact hstr .python (by simp)
  · exact hstr .ipython (by simp)
  · have hreformat : (Celltype.ipython, Celltype.python) ∈ reformatPairs ∧
        (Celltype.ipython, Celltype.python) ∉ forbiddenPairs := by decide
    unfold convertContent
    rw [if_neg hreformat.2]
    show L.convertContentStep (L.convertContentFuel 3) b .ipython .python = _
    unfold convertContentStep
    rw [rule_of_lists (r := .reformat) hreformat.1]
    show L.reformatContent b .ipython .python = _
    unfold reformatContent uncheckedText
    cases L.contentValue b .ipython with
    | none => rfl
    | some v =>
      cases v with
      | str text =>
        show (L.ipython2python text).bind _ = ((L.ipython2python text).bind textBuffer).map _
        cases L.ipython2python text with
        | none => rfl
        | some code => rfl
      | _ => rfl

include hL hW hC in
/-- The result of a conversion is valid for the target, unless a stored word misleads
it or it writes text that happens not to be code. -/
theorem convertChecksum_sound (hK : L.Good known) (hs : L.Valid b s) (hsource : s ≠ .checksum)
    (hprecise : (s, t) ∉ imprecisePairs) :
    (∀ r, (L.runConversion known b (L.sha256 b) s t).1 = .done r → L.Sound b t r) ↔
      ¬ L.Misled known b s t ∧ L.HappensToRead b s t := by
  have hdone : ∀ r, (L.runConversion known b (L.sha256 b) s t).1 = .done r ↔
      ((L.convertChecksum (L.sha256 b) s t).exec b known).1 = some r := by
    intro r
    unfold runConversion
    rw [(run_eq_exec b _ known).1]
    cases ((L.convertChecksum (L.sha256 b) s t).exec b known).1 with
    | none => simp [Outcome.ofOption]
    | some r' => simp [Outcome.ofOption]
  simp only [hdone]
  by_cases hmisled : L.Misled known b s t
  · -- the buffer is kept as the array that it is not
    rw [(convertChecksum_of_misled hC hK hmisled).1]
    refine iff_of_false (fun h => ?_) fun h => h.1 hmisled
    have hvalid := (h _ rfl).2
    rcases L.misled_cases hmisled with ⟨rfl, rfl, hmixed⟩ | ⟨rfl, rfl, hbytes⟩ | ⟨rfl, rfl, hproved⟩
    · exact L.not_valid_iff.mpr hmixed.1.1 hvalid
    · exact L.not_valid_iff.mpr hbytes.2.1.1 hvalid
    · exact not_valid_of_unreadable hC hproved.1 (.inr rfl) hvalid
  rw [(convertChecksum_of_valid hL hW hC hK hs hmisled).1]
  by_cases hpair : (s, t) ∈ unvalidatedPairs
  · have ht : t = .text ∨ t = .python ∨ t = .ipython ∨ t = .yaml := by
      simp only [unvalidatedPairs, List.mem_cons, List.not_mem_nil, or_false,
        Prod.mk.injEq] at hpair
      rcases hpair with ⟨-, rfl⟩ | ⟨-, rfl⟩ | ⟨-, rfl⟩ | ⟨-, rfl⟩ <;> simp
    rw [content_unchecked hpair]
    constructor
    · intro hsound
      refine ⟨hmisled, fun _ text htext hencodes => ?_⟩
      obtain ⟨b', hb'⟩ := Option.isSome_iff_exists.mp hencodes
      have hresult := hsound (L.sha256 b', some b') (by rw [htext, Option.bind_some, hb']; rfl)
      exact (valid_textBuffer_iff hL hC ht hb').mp hresult.2
    · rintro ⟨-, hreads⟩ r hr
      obtain ⟨b', hb', rfl⟩ := Option.map_eq_some_iff.mp hr
      obtain ⟨text, htext, hb'⟩ := Option.bind_eq_some_iff.mp hb'
      have htext' := hreads hpair text htext (by rw [hb']; rfl)
      exact ⟨rfl, (valid_textBuffer_iff hL hC ht hb').mpr htext'⟩
  · refine iff_of_true (fun r hr => ?_) ⟨hmisled, fun h => absurd h hpair⟩
    unfold convertContent at hr
    split at hr
    · cases hr
    · refine convertContentFuel_sound hL hW hC 4 hs hsource (fun hmem => ?_) hr
      exact (List.mem_append.mp hmem).elim hprecise hpair

end

/-- A string converts to Python, although it is none. -/
theorem text_as_python :
    small.Valid (ascii "\"a b\"\n") .str ∧
      (small.runConversion (fun _ => none) (ascii "\"a b\"\n")
        (small.sha256 (ascii "\"a b\"\n")) .str .python).1 =
        .done (small.sha256 (ascii "a b\n"), some (ascii "a b\n")) ∧
      ¬ small.Valid (ascii "a b\n") .python := by
  decide +kernel

/-- As text, it is what it says. -/
theorem sound_string :
    (∀ r, (small.runConversion (fun _ => none) (ascii "\"a b\"\n")
        (small.sha256 (ascii "\"a b\"\n")) .str .text).1 = .done r →
        small.Sound (ascii "\"a b\"\n") .text r) ↔
      ¬ small.Misled (fun _ => none) (ascii "\"a b\"\n") .str .text ∧
        small.HappensToRead (ascii "\"a b\"\n") .str .text :=
  convertChecksum_sound Small.small_jsonLaws Small.small_writeLaws
    Small.small_collisionFree (fun _ _ h => nomatch h) (by decide +kernel) (by simp)
    (by simp [imprecisePairs])

end Libraries

end SeamlessCore
