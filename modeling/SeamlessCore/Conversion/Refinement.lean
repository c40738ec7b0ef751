/-
  SeamlessCore.Conversion.Refinement — the engine converts content.

  Whatever truthful words are stored, the engine gives what the reference
  gives for the content of the buffer, unless a stored word misleads it: one
  that does not disprove a celltype which the buffer's own word disproves.

  Main results:
    * `valueOf_gives` — the value of a buffer does not depend on the words;
    * `reinterpret_gives`, `convertReformat_gives`, … — one lemma a rule;
    * `convertChecksum_gives` — the engine refines the reference.
-/
import SeamlessCore.Conversion.Soundness
import SeamlessCore.Conversion.Keeps

namespace SeamlessCore

open Python Lazy

/-- The pairs that may read an array where the source is none -/
def Conversion.arrayPairs : List Conversion.Pair :=
  [(.bytes, .binary), (.bytes, .mixed), (.mixed, .binary), (.mixed, .bytes)]

namespace Libraries

variable (L : Libraries)

/-! ## §1. Results under truthful words. -/

/-- From these words the program gives the result, and leaves truthful words. -/
def Gives {α : Type} (known : Knowledge) (b : Bytes) (m : Conv α) (r : Option α) : Prop :=
  (m.exec b known).1 = r ∧ L.Good (m.exec b known).2

section

variable {L}
variable {α β : Type} {known : Knowledge} {b : Bytes}

theorem gives_ret (hK : L.Good known) (a : α) : L.Gives known b (pure a : Conv α) (some a) :=
  ⟨rfl, hK⟩

theorem gives_fail (hK : L.Good known) : L.Gives known b (.fail : Conv α) none := ⟨rfl, hK⟩

theorem gives_ofOption (hK : L.Good known) (a : Option α) :
    L.Gives known b (.ofOption a : Conv α) a := by
  unfold Gives
  rw [Prog.exec_ofOption]
  exact ⟨rfl, hK⟩

/-- What follows a result runs from the words that it left. -/
theorem gives_bind_exec {m : Conv α} {r : Option α} {f : α → Conv β} {g : α → Option β}
    (hm : L.Gives known b m r)
    (hf : ∀ a known', m.exec b known = (some a, known') → L.Good known' →
      L.Gives known' b (f a) (g a)) :
    L.Gives known b (m >>= f) (r.bind g) := by
  obtain ⟨hr, hgood⟩ := hm
  unfold Gives
  rw [Prog.exec_bind]
  cases hexec : m.exec b known with
  | mk a known' =>
    rw [hexec] at hr hgood
    have hr' : a = r := hr
    subst hr'
    cases a with
    | none => exact ⟨rfl, hgood⟩
    | some a => exact hf a known' hexec hgood

/-- What follows a result runs from truthful words. -/
theorem gives_bind {m : Conv α} {r : Option α} {f : α → Conv β} {g : α → Option β}
    (hm : L.Gives known b m r)
    (hf : ∀ a, r = some a → ∀ known', L.Good known' → L.Gives known' b (f a) (g a)) :
    L.Gives known b (m >>= f) (r.bind g) :=
  gives_bind_exec hm fun a known' hexec hK' =>
    hf a (by rw [← hm.1, hexec]) known' hK'

theorem gives_map {m : Conv α} {r : Option α} {f : α → β} (hm : L.Gives known b m r) :
    L.Gives known b (m >>= fun a => pure (f a)) (r.map f) := by
  have h := gives_bind (f := fun a => (pure (f a) : Conv β)) (g := fun a => some (f a)) hm
    fun a _ known' hK => gives_ret hK (f a)
  cases r <;> exact h

theorem gives_attempt {m : Conv α} {r : Option α} (hm : L.Gives known b m r) :
    L.Gives known b m.attempt (some r) := by
  unfold Gives
  rw [Prog.exec_attempt]
  exact ⟨congrArg some hm.1, hm.2⟩

/-- What follows an attempt runs from truthful words. -/
theorem gives_attempt_bind {m : Conv α} {r : Option α} {f : Option α → Conv β} {r' : Option β}
    (hm : L.Gives known b m r)
    (hf : ∀ known', L.Good known' → L.Gives known' b (f r) r') :
    L.Gives known b (m.attempt >>= f) r' :=
  gives_bind (g := fun _ => r') (gives_attempt hm) fun read hread known' hK' => by
    rw [← Option.some.inj hread]
    exact hf known' hK'

theorem gives_supply {m : Conv α} {r : Option α} {b' : Bytes} (hm : L.Gives known b' m r) :
    L.Gives known b (m.supply b') r := by
  unfold Gives
  rw [Prog.exec_supply]
  exact hm

end

/-! ## §2. The table of words. -/

/-- The table after the word of a buffer was registered. -/
def learn (known : Knowledge) (b : Bytes) : Knowledge :=
  Function.update known (L.sha256 b) (some (L.fromBuffer b))

theorem learn_self (known : Knowledge) (b : Bytes) :
    L.learn known b (L.sha256 b) = some (L.fromBuffer b) :=
  Function.update_self _ _ _

variable {L} in
theorem good_learn (hC : L.CollisionFree) {known : Knowledge} (hK : L.Good known) (b : Bytes) :
    L.Good (L.learn known b) := by
  intro b' h hh
  unfold learn at hh
  by_cases hsha : L.sha256 b' = L.sha256 b
  · rw [hsha, Function.update_self] at hh
    rw [← Option.some.inj hh, ← hC.words b' b hsha]
    exact L.truthful_fromBuffer b'
  · rw [Function.update_of_ne hsha] at hh
    exact hK b' h hh

variable {L}
variable {known : Knowledge}

/-- Under truthful words, registering a buffer meets no contradiction. -/
theorem exec_registerHashType (hK : L.Good known) (source b : Bytes) :
    (L.registerHashType (L.sha256 b) b).exec source known =
      (some (L.fromBuffer b), L.learn known b) := by
  have hset : (setHashType (L.sha256 b) (L.fromBuffer b)).exec source known =
      (some (), L.learn known b) := by
    unfold setHashType
    rw [if_pos (L.fromBuffer_valid b), Prog.exec_ask]
    cases hstored : known (L.sha256 b) with
    | none => rfl
    | some stored =>
      have himplied := (hK b stored hstored).implied
      have hkeep : stored = L.fromBuffer b → known = L.learn known b := by
        intro h
        unfold learn
        rw [← h, ← hstored, Function.update_eq_self]
      simp only
      by_cases heq : stored = L.fromBuffer b
      · rw [if_pos heq]
        exact Prod.ext rfl (hkeep heq)
      · -- a looser word gives way to the buffer's own
        have htighter : stored.implies (L.fromBuffer b) ≠ true := by
          intro h
          exact heq (HashType.eq_of_implies h (L.fromBuffer_tested b))
        rw [if_neg heq, if_neg htighter, if_neg (by simp [himplied])]
        rfl
  unfold registerHashType
  rw [Prog.exec_bind, hset]
  rfl

theorem exec_ensureHashType_none (source : Bytes) (c : Checksum) :
    (L.ensureHashType c none).exec source known = (some (known c), known) := by
  unfold ensureHashType
  rw [Prog.exec_ask]
  cases known c <;> rfl

/-- Without a buffer, only a stored word can disprove the celltype. -/
theorem exec_validate_none (source : Bytes) (c : Checksum) (t : Celltype) :
    (L.validateDeserializableAs c t none).exec source known =
      (if (known c).any fun h => decide (L.deserializableAs h t c = some false) then none
        else some (known c), known) := by
  unfold validateDeserializableAs
  rw [Prog.exec_bind, exec_ensureHashType_none]
  cases known c with
  | none => rfl
  | some h =>
    simp only [Option.any_some]
    by_cases hfalse : L.deserializableAs h t c = some false
    · simp [hfalse]
    · simp [hfalse]

/-- The parser with the table of words -/
theorem parseBufferStored_gives (hC : L.CollisionFree) (hK : L.Good known) (source b : Bytes)
    (t : Celltype) :
    L.Gives known source (L.parseBufferStored b (L.sha256 b) t)
      (L.parseBuffer (known (L.sha256 b)) b (L.sha256 b) t) := by
  unfold parseBufferStored parseBuffer
  cases L.virtualValue (L.sha256 b) t with
  | value v => exact gives_ret hK v
  | invalid => exact gives_fail hK
  | notVirtual =>
    simp only
    unfold Gives validateDeserializableAs ensureHashType
    rw [Prog.exec_bind, Prog.exec_bind, Prog.exec_ask]
    -- a stored word is taken as it is; otherwise the own one is computed and stored
    cases hstored : known (L.sha256 b) with
    | some h =>
      simp only [Prog.exec_pure, Option.getD_some]
      by_cases hfalse : L.deserializableAs h t (L.sha256 b) = some false
      · rw [if_pos hfalse, if_pos hfalse]
        exact ⟨rfl, hK⟩
      · rw [if_neg hfalse, if_neg hfalse]
        simp only [Prog.exec_pure, Prog.exec_ofOption]
        exact ⟨trivial, hK⟩
    | none =>
      have hgood := good_learn hC hK b
      simp only [Option.getD_none]
      rw [Prog.exec_bind, exec_registerHashType hK]
      simp only [Prog.exec_pure]
      by_cases hfalse : L.deserializableAs (L.fromBuffer b) t (L.sha256 b) = some false
      · rw [if_pos hfalse, if_pos hfalse]
        exact ⟨rfl, hgood⟩
      · rw [if_neg hfalse, if_neg hfalse]
        simp only [Prog.exec_pure, Prog.exec_ofOption]
        exact ⟨trivial, hgood⟩

/-! ## §3. Values. -/

/-- A value is what the parser gives under the stored word. -/
theorem valueOf_stored (hC : L.CollisionFree) (hK : L.Good known) (b : Bytes) (t : Celltype) :
    L.Gives known b (L.valueOf (L.sha256 b) t)
      (L.parseBuffer (known (L.sha256 b)) b (L.sha256 b) t) := by
  have hparse := parseBufferStored_gives hC hK b b t
  unfold valueOf
  unfold parseBuffer at hparse ⊢
  cases hvirtual : L.virtualValue (L.sha256 b) t with
  | value v => exact gives_ret hK v
  | invalid => exact gives_fail hK
  | notVirtual =>
    rw [hvirtual] at hparse
    simp only at hparse ⊢
    unfold Gives
    rw [Prog.exec_bind, exec_validate_none]
    cases hstored : known (L.sha256 b) with
    | none =>
      rw [hstored] at hparse
      exact hparse
    | some h =>
      rw [hstored] at hparse
      simp only [Option.any_some, Option.getD_some] at hparse ⊢
      by_cases hfalse : L.deserializableAs h t (L.sha256 b) = some false
      · -- a known disproof ends the conversion before the fetch
        simp only [hfalse, decide_true, if_true]
        exact ⟨trivial, hK⟩
      · simp only [hfalse, decide_false, Bool.false_eq_true, if_false] at hparse ⊢
        exact hparse

/-- The stored word does not make the parser read what nothing known of it would
keep it from reading. -/
def Plainly (known : Knowledge) (b : Bytes) (t : Celltype) : Prop :=
  ∀ h, known (L.sha256 b) = some h → L.deserializableAs h t (L.sha256 b) ≠ some false →
    ¬ L.Loose b t

theorem plainly_of_not_loose {b : Bytes} {t : Celltype} (h : ¬ L.Loose b t) :
    Plainly (L := L) known b t := fun _ _ _ => h

theorem plainly_of_valid {b : Bytes} {t : Celltype} (h : L.Valid b t) :
    Plainly (L := L) known b t := plainly_of_not_loose (L.not_loose_of_valid h)

/-- The buffer's own word disproves what is loose. -/
theorem disproof_of_loose {b : Bytes} {t : Celltype} (h : L.Loose b t) :
    L.deserializableAs (L.fromBuffer b) t (L.sha256 b) = some false := by
  obtain ⟨hnone, hvirtual, hbody⟩ := h
  rw [L.contentValue_notVirtual hvirtual] at hnone
  by_contra hfalse
  rw [if_neg hfalse] at hnone
  rw [hnone] at hbody
  cases hbody

theorem plainly_of_own {b : Bytes}
    (h : known (L.sha256 b) = none ∨ known (L.sha256 b) = some (L.fromBuffer b)) (t : Celltype) :
    Plainly (L := L) known b t := by
  intro word hword hfalse hloose
  rcases h with hnone | hown
  · rw [hnone] at hword
    cases hword
  · rw [hown] at hword
    rw [← Option.some.inj hword] at hfalse
    exact hfalse (disproof_of_loose hloose)

/-- The value under the stored word is that of the content. -/
theorem parseBuffer_plainly (hK : L.Good known) {b : Bytes} {t : Celltype}
    (h : Plainly (L := L) known b t) :
    L.parseBuffer (known (L.sha256 b)) b (L.sha256 b) t = L.contentValue b t := by
  cases hstored : known (L.sha256 b) with
  | none => rfl
  | some word =>
    have hword := hK b word hstored
    by_cases hfalse : L.deserializableAs word t (L.sha256 b) = some false
    · -- what the stored word disproves, the own word does
      have hown := L.deserializableAs_mono hword.implied hfalse
      unfold contentValue parseBuffer
      cases L.virtualValue (L.sha256 b) t with
      | notVirtual =>
        show (if L.deserializableAs word t _ = some false then _ else _) =
          if L.deserializableAs (L.fromBuffer b) t _ = some false then _ else _
        rw [if_pos hfalse, if_pos hown]
      | _ => rfl
    · exact L.parseBuffer_stored hword (h word hstored hfalse)

theorem valueOf_gives (hC : L.CollisionFree) (hK : L.Good known) {b : Bytes} {t : Celltype}
    (h : Plainly (L := L) known b t) :
    L.Gives known b (L.valueOf (L.sha256 b) t) (L.contentValue b t) := by
  rw [← parseBuffer_plainly hK h]
  exact valueOf_stored hC hK b t

/-- A stored proof of a celltype is right, but for arrays that only `np.load` reads. -/
theorem valid_of_stored (hL : L.JsonLaws) (hK : L.Good known) {b : Bytes}
    {t : Celltype} (hread : t = .binary ∨ t = .mixed → ¬ L.Unreadable b) {h : HashType}
    (hstored : known (L.sha256 b) = some h)
    (hvirtual : L.virtualValue (L.sha256 b) t = .notVirtual)
    (htrue : L.deserializableAs h t (L.sha256 b) = some true) : L.Valid b t := by
  have hown := L.deserializableAs_mono (hK b h hstored).implied htrue
  have hbody := L.parseBody_of_proof hL hread hvirtual hown
  unfold Valid parseBuffer
  rw [hvirtual]
  show Option.isSome (if L.deserializableAs (L.fromBuffer b) t (L.sha256 b) = some false then none
    else L.parseBody b t) = true
  rw [if_neg (by rw [hown]; simp)]
  exact hbody

/-- A stored word that proves the celltype is right. -/
def Backed (known : Knowledge) (b : Bytes) (t : Celltype) : Prop :=
  ∀ h, known (L.sha256 b) = some h → L.virtualValue (L.sha256 b) t = .notVirtual →
    L.deserializableAs h t (L.sha256 b) = some true → L.Valid b t

theorem backed_of_readable (hL : L.JsonLaws) (hK : L.Good known) {b : Bytes} {t : Celltype}
    (hread : t = .binary ∨ t = .mixed → ¬ L.Unreadable b) : Backed (L := L) known b t :=
  fun _ hstored hvirtual htrue => valid_of_stored hL hK hread hstored hvirtual htrue

theorem backed_of_none {b : Bytes} (h : known (L.sha256 b) = none) (t : Celltype) :
    Backed (L := L) known b t := by
  intro word hword
  rw [h] at hword
  cases hword

/-- Text is no array. -/
theorem not_unreadable_of_decodes {b : Bytes} {text : PyStr} (h : decodeUtf8 b = some text) :
    ¬ L.Unreadable b := by
  intro hunreadable
  have hmagic := hunreadable.1
  rw [(no_magic_of_decodes h).1] at hmagic
  cases hmagic

/-! ## §4. Results. -/

theorem bufferResult_gives (hC : L.CollisionFree) (hK : L.Good known) (source b : Bytes) :
    L.Gives known source (L.bufferResult b) (some (L.sha256 b, some b)) := by
  unfold bufferResult Gives
  rw [Prog.exec_bind, exec_registerHashType hK]
  exact ⟨rfl, good_learn hC hK b⟩

theorem valueResult_gives (hC : L.CollisionFree) (hK : L.Good known) (source : Bytes)
    (v : L.Value) (t : Celltype) :
    L.Gives known source (L.valueResult v t) (L.made v t) := by
  have h := gives_bind (gives_ofOption (b := source) hK (L.serialize v t))
    fun b _ known' hK' => bufferResult_gives hC hK' source b
  unfold made
  cases hs : L.serialize v t <;> rw [hs] at h <;> unfold valueResult <;> rw [hs] <;> exact h

/-! ## §5. Rules. -/

section

variable (hL : L.JsonLaws) (hW : L.WriteLaws) (hC : L.CollisionFree)
variable {b : Bytes}

include hC in
theorem reinterpret_gives (hK : L.Good known) {t : Celltype} (h : Plainly (L := L) known b t)
    (hback : Backed (L := L) known b t) :
    L.Gives known b (L.reinterpret (L.sha256 b) t) (L.reinterpretContent b t) := by
  unfold reinterpret reinterpretContent
  cases hvirtual : L.virtualValue (L.sha256 b) t with
  | value v =>
    rw [L.contentValue_virtual hvirtual]
    exact gives_ret hK _
  | invalid =>
    rw [L.contentValue_invalid hvirtual]
    exact gives_fail hK
  | notVirtual =>
    have hparse := parseBufferStored_gives hC hK b b t
    rw [parseBuffer_plainly hK h] at hparse
    -- the parser is asked where no stored word answers
    have hread : L.Gives known b (do
        let b' ← getBuffer
        let _ ← L.parseBufferStored b' (L.sha256 b) t
        return ((L.sha256 b, none) : Converted)) ((L.contentValue b t).map fun _ => L.kept b) :=
      gives_map hparse
    unfold Gives
    dsimp only
    rw [Prog.exec_bind, exec_validate_none]
    cases hstored : known (L.sha256 b) with
    | none => exact hread
    | some word =>
      by_cases hfalse : L.deserializableAs word t (L.sha256 b) = some false
      · -- the content fails where a stored word disproves the celltype
        have hnone : L.contentValue b t = none := by
          rw [← parseBuffer_plainly hK h, hstored]
          unfold parseBuffer
          rw [hvirtual]
          exact if_pos hfalse
        simp only [Option.any_some, hfalse, decide_true, if_true, hnone]
        exact ⟨rfl, hK⟩
      · simp only [Option.any_some, hfalse, decide_false, Bool.false_eq_true, if_false]
        by_cases htrue : L.deserializableAs word t (L.sha256 b) = some true
        · obtain ⟨v, hv⟩ := L.valid_iff.mp (hback word hstored hvirtual htrue)
          simp only [htrue, decide_true, if_true, hv]
          exact ⟨rfl, hK⟩
        · simp only [htrue, decide_false, Bool.false_eq_true, if_false]
          exact hread

/-- The buffer is there for the asking. -/
theorem gives_fetch {α : Type} {f : Bytes → Conv α} {r : Option α} (h : L.Gives known b (f b) r) :
    L.Gives known b (getBuffer >>= f) r := h

include hC

/-- A value, and what is made of it -/
theorem gives_of_value (hK : L.Good known) {t : Celltype} (h : Plainly (L := L) known b t)
    {f : L.Value → Conv Converted} {g : L.Value → Option Converted}
    (hf : ∀ v known', L.Good known' → L.Gives known' b (f v) (g v)) :
    L.Gives known b (L.valueOf (L.sha256 b) t >>= f) ((L.contentValue b t).bind g) :=
  gives_bind (valueOf_gives hC hK h) fun v _ known' hK' => hf v known' hK'

theorem bytesToBinary_gives (hK : L.Good known)
    (h : startsWith b magicNumpy = true → Plainly (L := L) known b .binary) :
    L.Gives known b (L.bytesToBinary (L.sha256 b)) (L.bytesToBinaryContent b) := by
  apply gives_fetch
  unfold bytesToBinaryContent
  by_cases hmagic : startsWith b magicNumpy = true
  · rw [if_pos hmagic]
    -- whether the array could be read decides
    refine gives_attempt_bind (valueOf_gives hC hK (h hmagic)) fun known' hK' => ?_
    cases hvalue : L.contentValue b .binary with
    | some v =>
      rw [if_pos ⟨hmagic, L.valid_iff.mpr ⟨v, hvalue⟩⟩]
      exact gives_ret hK' _
    | none =>
      rw [if_neg fun hv => L.not_valid_iff.mpr hvalue hv.2]
      exact valueResult_gives hC hK' b _ _
  · rw [if_neg hmagic, if_neg fun hv => hmagic hv.1]
    exact valueResult_gives hC hK b _ _

/-- What the inspection of the bytes ends with, whether they were read or not -/
theorem wrapped_gives (hK : L.Good known) (read : Option L.Value) :
    L.Gives known b (match read with
      | some _ => return ((L.sha256 b, none) : Converted)
      | none =>
        match decodeUtf8 b with
        | some text => L.valueResult (.str (rstripNewlines text)) .str
        | none => L.valueResult (.array (L.npBytes b)) .binary)
      (match read with
      | some _ => some (L.kept b)
      | none =>
        match decodeUtf8 b with
        | some text => L.made (.str (rstripNewlines text)) .str
        | none => L.made (.array (L.npBytes b)) .binary) := by
  cases read with
  | some v => exact gives_ret hK _
  | none =>
    cases decodeUtf8 b with
    | some text => exact valueResult_gives hC hK b _ _
    | none => exact valueResult_gives hC hK b _ _

/-- Where nothing is proved, the bytes are read. -/
theorem inspectMixed_gives (hK : L.Good known)
    (hvirtual : L.virtualValue (L.sha256 b) .mixed = .notVirtual) :
    L.Gives known b (L.inspectMixed (L.sha256 b)) (L.bytesToMixedContent b) := by
  have hcontent : L.bytesToMixedContent b = (match L.contentValue b .mixed with
      | some _ => some (L.kept b)
      | none =>
        match decodeUtf8 b with
        | some text => L.made (.str (rstripNewlines text)) .str
        | none => L.made (.array (L.npBytes b)) .binary) := by
    unfold bytesToMixedContent
    cases hvalue : L.contentValue b .mixed with
    | some v => exact if_pos (L.valid_iff.mpr ⟨v, hvalue⟩)
    | none => exact if_neg (L.not_valid_iff.mpr hvalue)
  rw [hcontent]
  unfold inspectMixed
  apply gives_fetch
  dsimp only
  by_cases hown : L.deserializableAs (L.fromBuffer b) .mixed (L.sha256 b) = some false
  · have hnone : L.contentValue b .mixed = none := by
      rw [L.contentValue_notVirtual hvirtual, if_pos hown]
    rw [if_pos hown, hnone]
    exact wrapped_gives hC hK none
  · rw [if_neg hown]
    exact gives_attempt_bind (valueOf_gives hC hK
      (plainly_of_not_loose fun hloose => hown (disproof_of_loose hloose)))
      fun known' hK' => wrapped_gives hC hK' _

theorem bytesToMixed_gives (hK : L.Good known) (hback : Backed (L := L) known b .mixed) :
    L.Gives known b (L.bytesToMixed (L.sha256 b)) (L.bytesToMixedContent b) := by
  unfold bytesToMixed
  cases hvirtual : L.virtualValue (L.sha256 b) .mixed with
  | value v =>
    unfold bytesToMixedContent
    rw [if_pos (L.valid_iff.mpr ⟨v, L.contentValue_virtual hvirtual⟩)]
    exact gives_ret hK _
  | invalid =>
    exact absurd hvirtual (virtualValue_ne_invalid _ (by simp) (by simp) (by simp))
  | notVirtual =>
    have hinspect := inspectMixed_gives hC hK hvirtual
    unfold Gives at hinspect ⊢
    dsimp only
    rw [Prog.exec_bind, exec_ensureHashType_none]
    dsimp only
    cases hstored : known (L.sha256 b) with
    | none => exact hinspect
    | some word =>
      by_cases htrue : L.deserializableAs word .mixed (L.sha256 b) = some true
      · simp only [Option.any_some, htrue, decide_true, if_true]
        unfold bytesToMixedContent
        rw [if_pos (hback word hstored hvirtual htrue)]
        exact ⟨rfl, hK⟩
      · simp only [Option.any_some, htrue, decide_false, Bool.false_eq_true, if_false]
        exact hinspect

theorem binaryToBytes_gives (hK : L.Good known) (h : Plainly (L := L) known b .binary) :
    L.Gives known b (L.binaryToBytes (L.sha256 b)) (L.binaryToBytesContent b) := by
  refine gives_of_value hC hK h fun v known' hK' => ?_
  cases v with
  | array a =>
    dsimp only
    by_cases hkind : L.dtypeKind a = cp 'S'
    · rw [if_pos hkind, if_pos hkind]
      exact valueResult_gives hC hK' b _ _
    · rw [if_neg hkind, if_neg hkind]
      exact gives_ret hK' _
  | _ => exact gives_ret hK' _

theorem mixedToBytes_gives (hK : L.Good known)
    (h : Plainly (L := L) known b (if startsWith b magicNumpy then .binary else .mixed)) :
    L.Gives known b (L.mixedToBytes (L.sha256 b)) (L.mixedToBytesContent b) := by
  apply gives_fetch
  unfold mixedToBytesContent
  by_cases hmagic : startsWith b magicNumpy = true
  · rw [if_pos hmagic] at h
    rw [if_pos hmagic, if_pos hmagic]
    exact binaryToBytes_gives hC hK h
  · rw [if_neg hmagic] at h
    rw [if_neg hmagic, if_neg hmagic]
    exact gives_map (valueOf_gives hC hK h)

theorem textToPlain_gives (hK : L.Good known) (h : Plainly (L := L) known b .text) :
    L.Gives known b (L.textToPlain (L.sha256 b)) (L.textToPlainContent b) := by
  have hvalue : L.Gives known b (L.plainOfText (L.sha256 b)) (L.plainOfTextContent b) := by
    unfold plainOfText plainOfTextContent
    cases L.virtualValue (L.sha256 b) .plain with
    | value v => exact gives_ret hK v
    | invalid => exact gives_fail hK
    | notVirtual => exact gives_map (valueOf_gives hC hK h)
  refine gives_bind hvalue fun v _ known' hK' => ?_
  have hmade := gives_bind (valueResult_gives hC hK' b v .plain)
    (f := fun result => if result.1 = L.sha256 b then return ((L.sha256 b, none) : Converted)
      else return result)
    (g := fun result => some (if result.1 = L.sha256 b then L.kept b else result))
    fun result _ known'' hK'' => by
      split
      · exact gives_ret hK'' _
      · exact gives_ret hK'' _
  cases hresult : L.made v .plain with
  | none =>
    rw [hresult] at hmade
    exact hmade
  | some result =>
    rw [hresult] at hmade
    exact hmade

/-- What has to be read plainly for the rule of a pair -/
def Straight (known : Knowledge) (b : Bytes) : Celltype → Celltype → Prop
  | .bytes, .binary => startsWith b magicNumpy = true → Plainly (L := L) known b .binary
  | .bytes, .mixed => Backed (L := L) known b .mixed
  | .mixed, .binary => Plainly (L := L) known b .binary ∧ Backed (L := L) known b .binary
  | .mixed, .bytes => Plainly (L := L) known b (if startsWith b magicNumpy then .binary else .mixed)
  | s, _ => Plainly (L := L) known b s

theorem convertReformat_gives (hK : L.Good known) {s t : Celltype}
    (hpair : (s, t) ∈ Conversion.reformatPairs) (h : Straight (L := L) known b s t) :
    L.Gives known b (L.convertReformat (L.sha256 b) s t) (L.reformatContent b s t) := by
  simp only [Conversion.reformatPairs, List.mem_cons, List.not_mem_nil, or_false,
    Prod.mk.injEq] at hpair
  rcases hpair with ⟨rfl, rfl⟩ | ⟨rfl, rfl⟩ | ⟨rfl, rfl⟩ | ⟨rfl, rfl⟩ | ⟨rfl, rfl⟩ | ⟨rfl, rfl⟩ |
    ⟨rfl, rfl⟩ | ⟨rfl, rfl⟩ | ⟨rfl, rfl⟩ | ⟨rfl, rfl⟩
  · exact bytesToBinary_gives hC hK h
  · exact bytesToMixed_gives hC hK h
  · exact binaryToBytes_gives hC hK h
  · exact mixedToBytes_gives hC hK h
  · refine gives_of_value hC hK h fun v known' hK' => ?_
    cases v with
    | str s => exact valueResult_gives hC hK' b _ _
    | _ => exact gives_ret hK' _
  · exact textToPlain_gives hC hK h
  · exact gives_of_value hC hK h fun v known' hK' => valueResult_gives hC hK' b _ _
  · exact gives_of_value hC hK h fun v known' hK' => valueResult_gives hC hK' b _ _
  · refine gives_of_value hC hK h fun v known' hK' => ?_
    cases v with
    | str text =>
      exact gives_bind (gives_ofOption hK' (L.yamlSafeLoad text))
        fun v' _ known'' hK'' => valueResult_gives hC hK'' b _ _
    | _ => exact gives_fail hK'
  · refine gives_of_value hC hK h fun v known' hK' => ?_
    cases v with
    | str text =>
      exact gives_bind (gives_ofOption hK' (L.ipython2python text))
        fun code _ known'' hK'' => valueResult_gives hC hK'' b _ _
    | _ => exact gives_fail hK'

theorem convertPossible_gives (hK : L.Good known) {s t : Celltype}
    (h : Plainly (L := L) known b s) :
    L.Gives known b (L.convertPossible (L.sha256 b) s t) (L.possibleContent b s t) := by
  refine gives_of_value hC hK h fun v known' hK' => ?_
  split
  · exact gives_fail hK'
  · exact gives_bind (gives_ofOption hK' (L.builtin true v t))
      fun v' _ known'' hK'' => valueResult_gives hC hK'' b _ _

theorem convertValues_gives (hK : L.Good known) {s t : Celltype}
    (h : Plainly (L := L) known b s) :
    L.Gives known b (L.convertValues (L.sha256 b) s t) (L.valuesContent b s t) := by
  unfold convertValues valuesContent
  by_cases ht : t = .checksum
  · rw [if_pos ht, if_pos ht]
    have hmade := gives_bind (gives_ofOption (b := b) hK (encodeUtf8 (L.sha256 b).hex))
      (g := fun b' => some (L.sha256 b', some b'))
      fun b' _ known' hK' => bufferResult_gives hC hK' b b'
    cases hdigits : encodeUtf8 (L.sha256 b).hex with
    | none =>
      rw [hdigits] at hmade
      exact hmade
    | some b' =>
      rw [hdigits] at hmade
      exact hmade
  rw [if_neg ht, if_neg ht]
  by_cases hs : s = .checksum
  · rw [if_pos hs, if_pos hs]
    rw [hs] at h
    refine gives_of_value hC hK h fun v known' hK' => ?_
    cases v with
    | checksum c' => exact gives_ret hK' _
    | _ => exact gives_fail hK'
  · rw [if_neg hs, if_neg hs]
    exact gives_of_value hC hK h fun v known' hK' =>
      gives_bind (gives_ofOption hK' (L.valueRule s t v))
        fun v' _ known'' hK'' => valueResult_gives hC hK'' b _ _

/-! ## §6. The engine. -/

omit hC in
/-- Between other pairs only the source is read. -/
theorem straight_iff {s t : Celltype}
    (h : (s, t) ∉ Conversion.arrayPairs) :
    Straight (L := L) known b s t ↔ Plainly (L := L) known b s := by
  cases s <;> cases t <;> first | exact Iff.rfl | exact absurd (by decide) h

omit hC in
theorem equivalent_straight (s t : Celltype) :
    (Conversion.lookupPair Conversion.equivalentPairs (s, t)).all (fun conv =>
      decide (conv.1 ∉ [Celltype.binary, .mixed, .checksum]) &&
        decide (conv ∉ Conversion.arrayPairs)) = true :=
  Conversion.all_lookupPair
    (f := fun _ conv => decide (conv.1 ∉ [Celltype.binary, .mixed, .checksum]) &&
      decide (conv ∉ Conversion.arrayPairs)) (by decide) (s, t)

omit hC in
/-- The intermediate celltypes are read plainly, but for `mixed` on the way
from `text` to `binary`. -/
theorem chain_straight (s t : Celltype) :
    (Conversion.lookupPair Conversion.chainPairs (s, t)).all (fun m =>
      decide (s ≠ .checksum) &&
        decide ((s, t) ∉ Conversion.arrayPairs) &&
        decide ((s, m) ∉ Conversion.arrayPairs) &&
        (decide ((s, m) = (.text, .mixed)) ||
          decide (m ∉ [Celltype.binary, .mixed, .checksum]) &&
            decide ((m, t) ∉ Conversion.arrayPairs))) = true := by
  have hentries : (Conversion.chainPairs.all fun
      | ((s, t), m) => decide (s ≠ .checksum) &&
        decide ((s, t) ∉ Conversion.arrayPairs) &&
        decide ((s, m) ∉ Conversion.arrayPairs) &&
        (decide ((s, m) = (.text, .mixed)) ||
          decide (m ∉ [Celltype.binary, .mixed, .checksum]) &&
            decide ((m, t) ∉ Conversion.arrayPairs))) = true := by
    decide
  cases hlookup : Conversion.lookupPair Conversion.chainPairs (s, t) with
  | none => rfl
  | some m =>
    exact List.all_eq_true.mp hentries ((s, t), m) (Conversion.mem_of_lookupPair hlookup)

omit hC in
/-- The rules of `text` to `mixed`, one after the other -/
theorem rule_text_mixed : Conversion.rule .text .mixed = .equivalent .text .str ∧
    Conversion.rule .text .str = .reformat :=
  have hequiv : Conversion.lookupPair Conversion.equivalentPairs (.text, .mixed) =
      some (.text, .str) := by decide
  have hpair : (Celltype.text, Celltype.str) ∈ Conversion.reformatPairs := by decide
  ⟨Conversion.rule_of_lists (r := .equivalent .text .str) hequiv,
    Conversion.rule_of_lists (r := .reformat) hpair⟩

/-- A text that becomes mixed is a new buffer, and its word is known. -/
theorem text_mixed_learns (hK : L.Good known) {fuel : Nat} {first : Converted}
    {known' : Knowledge}
    (h : (L.convertFuel fuel (L.sha256 b) .text .mixed).exec b known = (some first, known')) :
    ∃ v b', L.serialize v .str = some b' ∧ first = (L.sha256 b', some b') ∧
      known' (L.sha256 b') = some (L.fromBuffer b') := by
  match fuel with
  | 0 => cases h
  | 1 =>
    have hstep : (L.convertStep (L.convertFuel 0) (L.sha256 b) .text .mixed).exec b known =
        (some first, known') := h
    unfold convertStep at hstep
    rw [rule_text_mixed.1] at hstep
    cases hstep
  | fuel + 2 =>
    have hstep : (L.convertStep (L.convertFuel (fuel + 1)) (L.sha256 b) .text .mixed).exec b known =
        (some first, known') := h
    unfold convertStep at hstep
    rw [rule_text_mixed.1] at hstep
    change (L.convertStep (L.convertFuel fuel) (L.sha256 b) .text .str).exec b known =
      (some first, known') at hstep
    unfold convertStep at hstep
    rw [rule_text_mixed.2] at hstep
    change (L.valueOf (L.sha256 b) .text >>= fun v => L.valueResult v .str).exec b known =
      (some first, known') at hstep
    -- the value of the text, written as a string
    rw [Prog.exec_bind] at hstep
    cases hvalue : (L.valueOf (L.sha256 b) .text).exec b known with
    | mk v known₁ =>
      have hK₁ : L.Good known₁ := by
        have hgood := (valueOf_stored hC hK b .text).2
        rwa [hvalue] at hgood
      rw [hvalue] at hstep
      cases v with
      | none => cases hstep
      | some v =>
        dsimp only at hstep
        unfold valueResult at hstep
        rw [Prog.exec_bind, Prog.exec_ofOption] at hstep
        cases hserialize : L.serialize v .str with
        | none =>
          rw [hserialize] at hstep
          cases hstep
        | some b' =>
          rw [hserialize] at hstep
          unfold bufferResult at hstep
          dsimp only at hstep
          rw [Prog.exec_bind, exec_registerHashType hK₁] at hstep
          cases hstep
          exact ⟨v, b', hserialize, rfl, L.learn_self known₁ b'⟩

omit hC in
theorem chainResult_gives (hK : L.Good known) (source : Bytes) (first second : Converted) :
    L.Gives known source (chainResult (L.sha256 b) first second) (L.chainContent b first second) := by
  unfold chainResult chainContent
  cases second.2 with
  | some b' => exact gives_ret hK _
  | none =>
    dsimp only
    split
    · exact gives_ret hK _
    · split
      · exact gives_fail hK
      · exact gives_ret hK _

omit hC in
theorem straight_of_plainly (h : ∀ t, Plainly (L := L) known b t)
    (hback : ∀ t, Backed (L := L) known b t) (s t : Celltype) :
    Straight (L := L) known b s t := by
  cases s with
  | bytes =>
    cases t with
    | binary => exact fun _ => h .binary
    | mixed => exact hback .mixed
    | _ => exact h .bytes
  | mixed =>
    cases t with
    | binary => exact ⟨h .binary, hback .binary⟩
    | bytes => exact h _
    | _ => exact h .mixed
  | _ => exact h _

omit hC in
set_option maxRecDepth 2000 in
theorem reinterpret_straight : ∀ conv ∈ Conversion.reinterpretPairs,
    conv = (.mixed, .binary) ∨ conv.2 ∉ [Celltype.binary, .mixed, .checksum] := by
  decide

omit hC in
theorem value_straight : ∀ conv ∈ Conversion.possiblePairs ++ Conversion.valuePairs,
    conv ∉ Conversion.arrayPairs := by
  simp [Conversion.possiblePairs, Conversion.valuePairs, Conversion.arrayPairs]

include hW in
omit hC in
/-- A string is written as text. -/
theorem decodes_serialize_str {v : L.Value} (h : L.serialize v .str = some b) :
    ∃ text, decodeUtf8 b = some text := by
  have hbuffer : ∀ {v : L.Value}, (L.pyStr v).bind (fun s => L.jsonBuffer (.str s)) = some b →
      ∃ text, decodeUtf8 b = some text := by
    intro v hv
    obtain ⟨s, -, hs⟩ := Option.bind_eq_some_iff.mp hv
    exact decodes_jsonBuffer hW hs
  cases v with
  | none =>
    obtain rfl : nullBuffer = b := Option.some.inj h
    exact ⟨py "null\n", by decide⟩
  | bool value => exact decodes_jsonBuffer hW h
  | checksum c => exact hbuffer (v := .str c.hex) h
  | int n => exact hbuffer (v := .int n) h
  | float x => exact hbuffer (v := .float x) h
  | str s => exact hbuffer (v := .str s) h
  | bytes raw => exact hbuffer (v := .bytes raw) h
  | list items => exact hbuffer (v := .list items) h
  | dict items => exact hbuffer (v := .dict items) h
  | array a => exact hbuffer (v := .array a) h
  | object o => exact hbuffer (v := .object o) h

include hL hW in
/-- The engine converts the content, whatever truthful words are stored. -/
theorem convertFuel_gives (fuel : Nat) : ∀ {known : Knowledge} {b : Bytes} {s t : Celltype},
    L.Good known → Straight (L := L) known b s t →
    L.Gives known b (L.convertFuel fuel (L.sha256 b) s t) (L.convertContentFuel fuel b s t) := by
  induction fuel with
  | zero => exact fun hK _ => gives_fail hK
  | succ fuel ih =>
    intro known b s t hK hstraight
    show L.Gives known b (L.convertStep (L.convertFuel fuel) (L.sha256 b) s t)
      (L.convertContentStep (L.convertContentFuel fuel) b s t)
    unfold convertStep convertContentStep
    have hlists := Conversion.rule_lists s t
    cases hrule : Conversion.rule s t with
    | same => exact gives_ret hK _
    | equivalent s' t' =>
      rw [hrule] at hlists
      have hpair := equivalent_straight s t
      rw [show Conversion.lookupPair _ (s, t) = some (s', t') from hlists] at hpair
      simp only [Option.all_some, Bool.and_eq_true, decide_eq_true_eq, List.mem_cons,
        List.not_mem_nil, or_false, not_or] at hpair
      obtain ⟨⟨hbinary, hmixed, hchecksum⟩, harrays⟩ := hpair
      exact ih hK ((straight_iff harrays).mpr
        (plainly_of_not_loose (L.not_loose hL b hbinary hmixed hchecksum)))
    | chain m =>
      rw [hrule] at hlists
      have hparts := chain_straight s t
      rw [show Conversion.lookupPair _ (s, t) = some m from hlists] at hparts
      simp only [Option.all_some, Bool.and_eq_true, Bool.or_eq_true, decide_eq_true_eq,
        List.mem_cons, List.not_mem_nil, or_false, not_or, Prod.mk.injEq] at hparts
      obtain ⟨⟨⟨hs, harrays⟩, harrays₁⟩, hm⟩ := hparts
      have hfirst := ih hK ((straight_iff harrays₁).mpr ((straight_iff harrays).mp hstraight))
      refine gives_bind_exec hfirst fun first known' hexec hK' => ?_
      have hends := Prog.exec_returns (L.convertFuel_ends fuel (L.sha256 b) m hs)
        (congrArg Prod.fst hexec)
      -- the second part reads its source plainly
      have hsecond : Straight (L := L) known' (first.2.getD b) m t := by
        rcases hm with ⟨rfl, rfl⟩ | ⟨⟨hbinary, hmixed, hchecksum⟩, harrays₂⟩
        · obtain ⟨v, b', hserialize, rfl, hword⟩ := text_mixed_learns hC hK hexec
          obtain ⟨text, hdecode⟩ := decodes_serialize_str hW hserialize
          exact straight_of_plainly (plainly_of_own (.inr hword))
            (fun _ => backed_of_readable hL hK' fun _ => not_unreadable_of_decodes hdecode) _ _
        · exact (straight_iff harrays₂).mpr
            (plainly_of_not_loose (L.not_loose hL _ hbinary hmixed hchecksum))
      rcases hends with rfl | ⟨b', rfl⟩
      · exact gives_bind (ih hK' hsecond) fun second _ known'' hK'' =>
          chainResult_gives hK'' b _ second
      · exact gives_bind (gives_supply (ih hK' hsecond)) fun second _ known'' hK'' =>
          chainResult_gives hK'' b _ second
    | forbidden => exact gives_fail hK
    | retain => exact gives_ret hK _
    | reinterpret =>
      rw [hrule] at hlists
      rcases reinterpret_straight (s, t) hlists with heq | ht
      · obtain ⟨rfl, rfl⟩ := Prod.mk.inj heq
        exact reinterpret_gives hC hK hstraight.1 hstraight.2
      · simp only [List.mem_cons, List.not_mem_nil, or_false, not_or] at ht
        have hplainly : Plainly (L := L) known b t :=
          plainly_of_not_loose (L.not_loose hL b ht.1 ht.2.1 ht.2.2)
        refine reinterpret_gives hC hK hplainly (backed_of_readable hL hK fun harray => ?_)
        exact harray.elim (fun h => absurd h ht.1) fun h => absurd h ht.2.1
    | reformat =>
      rw [hrule] at hlists
      exact convertReformat_gives hC hK hlists hstraight
    | possible =>
      rw [hrule] at hlists
      have harrays := value_straight (s, t) (List.mem_append_left _ hlists)
      exact convertPossible_gives hC hK ((straight_iff harrays).mp hstraight)
    | values =>
      rw [hrule] at hlists
      have harrays := value_straight (s, t) (List.mem_append_right _ hlists)
      exact convertValues_gives hC hK ((straight_iff harrays).mp hstraight)
    | unclassified => exact gives_fail hK

include hL hW in
/-- `convert_checksum` converts the content. -/
theorem convertChecksum_gives (hK : L.Good known) {s t : Celltype}
    (h : Straight (L := L) known b s t) :
    L.Gives known b (L.convertChecksum (L.sha256 b) s t) (L.convertContent b s t) := by
  unfold convertChecksum convertContent convert
  split
  · exact gives_fail hK
  · exact convertFuel_gives hL hW hC 4 hK h

end

end Libraries

end SeamlessCore
