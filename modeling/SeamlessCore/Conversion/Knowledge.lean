/-
  SeamlessCore.Conversion.Knowledge — conversions under different stored words.

  Two tables of truthful words are compared.  What a conversion gives does not
  depend on them, but for the misled ones.  Where it reads nothing under a
  word, it reads nothing under a tighter one: what it found there is decided
  already, so that both runs ask, fail and write alike.

  Main results:
    * `needs_of_tighter` — a tighter word needs no buffer where a looser one did
      not;
    * `outcome_same_iff` — the outcome does not depend on the table exactly
      where both tables mislead the conversion, or neither does.

  Source: `seamless/checksum/convert.py`.
-/
import SeamlessCore.Conversion.Verdicts

namespace SeamlessCore

open Python Lazy Conversion

namespace Libraries

variable {L : Libraries}

/-! ## §1. Rules under a tighter word. -/

/-- Both tables are truthful, and the second has a tighter word of the checksum. -/
structure TighterAt (L : Libraries) (c : Checksum) (known known' : Knowledge) : Prop where
  good : L.Good known
  good' : L.Good known'
  tighter : ∀ h, known c = some h → ∃ h', known' c = some h' ∧ h'.implies h = true

section

variable {c : Checksum} {known known' : Knowledge} {b : Bytes}

/-- The stored word answers whether its buffers are of the celltype. -/
def Answered (L : Libraries) (known : Knowledge) (c : Checksum) (t : Celltype)
    (answer : Bool) : Prop :=
  (known c).any (fun w => decide (L.deserializableAs w t c = some answer)) = true

instance (t : Celltype) (answer : Bool) : Decidable (Answered L known c t answer) :=
  inferInstanceAs (Decidable (_ = true))

/-- An answer of the looser word is one of the tighter. -/
theorem TighterAt.answers (h : TighterAt L c known known') {t : Celltype} {answer : Bool}
    (ha : Answered L known c t answer) : Answered L known' c t answer := by
  unfold Answered at ha ⊢
  cases hstored : known c with
  | none =>
    rw [hstored] at ha
    cases ha
  | some w =>
    rw [hstored] at ha
    obtain ⟨w', hstored', himplies⟩ := h.tighter w hstored
    rw [hstored']
    exact decide_eq_true (L.deserializableAs_mono himplies (of_decide_eq_true ha))

/-- Registering a buffer leaves the tables comparable. -/
theorem TighterAt.learn (hC : L.CollisionFree) (h : TighterAt L c known known') (b' : Bytes) :
    TighterAt L c (L.learn known b') (L.learn known' b') := by
  refine ⟨good_learn hC h.good b', good_learn hC h.good' b', fun w hw => ?_⟩
  unfold Libraries.learn at hw ⊢
  by_cases hc : c = L.sha256 b'
  · rw [hc, Function.update_self] at hw ⊢
    exact ⟨w, hw, HashType.implies_refl w⟩
  · rw [Function.update_of_ne hc] at hw ⊢
    exact h.tighter w hw

variable (hC : L.CollisionFree)

include hC in
theorem unread_registerHashType (b' : Bytes) :
    Prog.Unread (TighterAt L c) b (L.registerHashType (L.sha256 b') b') := by
  intro known known' hR _
  rw [exec_registerHashType hR.good, exec_registerHashType hR.good']
  exact ⟨needs_registerHashType _ _, rfl, hR.learn hC b'⟩

include hC in
theorem unread_bufferResult (b' : Bytes) :
    Prog.Unread (TighterAt L c) b (L.bufferResult b') :=
  Prog.unread_seq (unread_registerHashType hC b') fun _ => Prog.unread_ret _

include hC in
theorem unread_valueResult (v : L.Value) (t : Celltype) :
    Prog.Unread (TighterAt L c) b (L.valueResult v t) :=
  Prog.unread_seq (Prog.unread_ofOption _) fun b' => unread_bufferResult hC b'

omit hC in
/-- The stored word is asked without a read. -/
theorem needs_validate_none (t : Celltype) :
    (L.validateDeserializableAs c t none).needs known = false := by
  unfold validateDeserializableAs ensureHashType
  rw [Prog.needs_bind [], Prog.needs_ask, Prog.exec_ask]
  cases known c with
  | none => rfl
  | some h =>
    show (false || Prog.needs (if _ then _ else _) known) = false
    split <;> rfl

omit hC in
/-- A program that goes by an answer of the word, and reads where there is none -/
theorem unread_asked {α : Type} {m : Conv α} (t : Celltype) (answers : List Bool)
    (r : Bool → Option α)
    (hread : ∀ known : Knowledge, m.needs known = false →
      ∃ answer ∈ answers, Answered L known c t answer)
    (hasked : ∀ (known : Knowledge), ∀ answer ∈ answers, Answered L known c t answer →
      m.needs known = false ∧ m.exec b known = (r answer, known)) :
    Prog.Unread (TighterAt L c) b m := by
  intro known known' hR hneeds
  obtain ⟨answer, hmem, hanswer⟩ := hread known hneeds
  obtain ⟨-, hexec⟩ := hasked known answer hmem hanswer
  obtain ⟨hneeds', hexec'⟩ := hasked known' answer hmem (hR.answers hanswer)
  rw [hexec, hexec']
  exact ⟨hneeds', rfl, hR⟩

omit hC in
/-- A value that is not read is virtual or disproved. -/
theorem unread_valueOf (t : Celltype) : Prog.Unread (TighterAt L c) b (L.valueOf c t) := by
  unfold valueOf
  cases hvirtual : L.virtualValue c t with
  | value v => exact Prog.unread_ret v
  | invalid => exact Prog.unread_fail
  | notVirtual =>
    dsimp only
    refine unread_asked t [false] (fun _ => none) ?_ ?_
    · intro known hneeds
      refine ⟨false, List.mem_cons_self, ?_⟩
      by_contra hopen
      unfold Answered at hopen
      rw [Prog.needs_bind [], exec_validate_none, if_neg hopen, Bool.or_eq_false_iff] at hneeds
      cases hneeds.2
    · intro known answer hmem hanswer
      obtain rfl := List.mem_singleton.mp hmem
      unfold Answered at hanswer
      rw [Prog.needs_bind [], Prog.exec_bind, exec_validate_none, exec_validate_none,
        if_pos hanswer, needs_validate_none]
      exact ⟨rfl, rfl⟩

omit hC in
/-- A reinterpretation without a read goes by the word. -/
theorem unread_reinterpret (t : Celltype) :
    Prog.Unread (TighterAt L c) b (L.reinterpret c t) := by
  unfold reinterpret
  cases hvirtual : L.virtualValue c t with
  | value v => exact Prog.unread_ret _
  | invalid => exact Prog.unread_fail
  | notVirtual =>
    dsimp only
    refine unread_asked t [false, true]
      (fun answer => if answer then some (c, none) else none) ?_ ?_
    · intro known hneeds
      by_contra hopen
      have hfalse : ¬ Answered L known c t false := fun h => hopen ⟨false, by simp, h⟩
      have htrue : ¬ Answered L known c t true := fun h => hopen ⟨true, by simp, h⟩
      unfold Answered at hfalse htrue
      rw [Prog.needs_bind [], exec_validate_none, if_neg hfalse, Bool.or_eq_false_iff] at hneeds
      have hrest := hneeds.2
      dsimp only at hrest
      rw [if_neg htrue] at hrest
      cases hrest
    · intro known answer hmem hanswer
      rw [Prog.needs_bind [], Prog.exec_bind, exec_validate_none, exec_validate_none,
        needs_validate_none]
      cases answer with
      | false =>
        unfold Answered at hanswer
        rw [if_pos hanswer]
        exact ⟨rfl, rfl⟩
      | true =>
        -- a word that proves the celltype does not disprove it
        have hopen : ¬ (known c).any
            (fun w => decide (L.deserializableAs w t c = some false)) = true := by
          unfold Answered at hanswer
          cases hstored : known c with
          | none => simp
          | some w =>
            rw [hstored] at hanswer
            have htrue := of_decide_eq_true hanswer
            simp [htrue]
        unfold Answered at hanswer
        rw [if_neg hopen]
        dsimp only
        rw [if_pos hanswer]
        exact ⟨rfl, rfl⟩

include hC in
theorem unread_textToPlain : Prog.Unread (TighterAt L c) b (L.textToPlain c) := by
  have hplain : Prog.Unread (TighterAt L c) b (L.plainOfText c) := by
    unfold plainOfText
    cases L.virtualValue c .plain with
    | value v => exact Prog.unread_ret v
    | invalid => exact Prog.unread_fail
    | notVirtual => exact Prog.unread_seq (unread_valueOf .text) fun text => Prog.unread_ret _
  refine Prog.unread_seq hplain fun v => Prog.unread_seq (unread_valueResult hC v .plain) ?_
  intro result
  split
  · exact Prog.unread_ret _
  · exact Prog.unread_ret _

include hC in
theorem unread_binaryToBytes : Prog.Unread (TighterAt L c) b (L.binaryToBytes c) := by
  refine Prog.unread_seq (unread_valueOf .binary) fun v => ?_
  cases v with
  | array a =>
    show Prog.Unread _ b (if _ then _ else _)
    split
    · exact unread_valueResult hC _ _
    · exact Prog.unread_ret _
  | _ => exact Prog.unread_ret _

omit hC in
/-- Bytes that the word proves mixed are kept. -/
theorem unread_bytesToMixed : Prog.Unread (TighterAt L c) b (L.bytesToMixed c) := by
  have hensure : ∀ known : Knowledge, (L.ensureHashType c none).needs known = false := by
    intro known
    unfold ensureHashType
    rw [Prog.needs_ask]
    cases known c <;> rfl
  unfold bytesToMixed
  cases hvirtual : L.virtualValue c .mixed with
  | value v => exact Prog.unread_ret _
  | invalid => exact Prog.unread_fail
  | notVirtual =>
    dsimp only
    refine unread_asked .mixed [true] (fun _ => some (c, none)) ?_ ?_
    · intro known hneeds
      refine ⟨true, List.mem_cons_self, ?_⟩
      by_contra hopen
      unfold Answered at hopen
      rw [Prog.needs_bind [], exec_ensureHashType_none, Bool.or_eq_false_iff] at hneeds
      have hrest := hneeds.2
      dsimp only at hrest
      rw [if_neg hopen] at hrest
      cases hrest
    · intro known answer hmem hanswer
      obtain rfl := List.mem_singleton.mp hmem
      unfold Answered at hanswer
      rw [Prog.needs_bind [], Prog.exec_bind, exec_ensureHashType_none,
        exec_ensureHashType_none, hensure]
      dsimp only
      rw [if_pos hanswer]
      exact ⟨rfl, rfl⟩

include hC in
theorem unread_convertReformat (s t : Celltype) :
    Prog.Unread (TighterAt L c) b (L.convertReformat c s t) := by
  have hvalue : ∀ {s : Celltype} {f : L.Value → Conv Converted},
      (∀ v, Prog.Unread (TighterAt L c) b (f v)) →
      Prog.Unread (TighterAt L c) b (L.valueOf c s >>= f) := fun hf =>
    Prog.unread_seq (unread_valueOf _) hf
  unfold convertReformat
  split
  · exact Prog.unread_fetch _
  · exact unread_bytesToMixed
  · exact unread_binaryToBytes hC
  · exact Prog.unread_fetch _
  · refine hvalue fun v => ?_
    cases v with
    | str s => exact unread_valueResult hC _ _
    | _ => exact Prog.unread_ret _
  · exact unread_textToPlain hC
  · exact hvalue fun v => unread_valueResult hC _ _
  · exact hvalue fun v => unread_valueResult hC _ _
  · refine hvalue fun v => ?_
    cases v with
    | str text => exact Prog.unread_seq (Prog.unread_ofOption _) fun v => unread_valueResult hC _ _
    | _ => exact Prog.unread_fail
  · refine hvalue fun v => ?_
    cases v with
    | str text => exact Prog.unread_seq (Prog.unread_ofOption _) fun v => unread_valueResult hC _ _
    | _ => exact Prog.unread_fail
  · exact Prog.unread_fail

include hC in
theorem unread_convertPossible (s t : Celltype) :
    Prog.Unread (TighterAt L c) b (L.convertPossible c s t) := by
  refine Prog.unread_seq (unread_valueOf s) fun v => ?_
  show Prog.Unread _ b (if _ then _ else _)
  split
  · exact Prog.unread_fail
  · exact Prog.unread_seq (Prog.unread_ofOption _) fun v' => unread_valueResult hC _ _

include hC in
theorem unread_convertValues (s t : Celltype) :
    Prog.Unread (TighterAt L c) b (L.convertValues c s t) := by
  unfold convertValues
  split
  · exact Prog.unread_seq (Prog.unread_ofOption _) fun b' => unread_bufferResult hC b'
  · split
    · refine Prog.unread_seq (unread_valueOf .checksum) fun v => ?_
      cases v with
      | checksum c' => exact Prog.unread_ret _
      | _ => exact Prog.unread_fail
    · exact Prog.unread_seq (unread_valueOf s) fun v =>
        Prog.unread_seq (Prog.unread_ofOption _) fun v' => unread_valueResult hC _ _

omit hC in
theorem needs_chainResult (first second : Converted) :
    (chainResult c first second).needs known = false := by
  unfold chainResult
  cases second.2 with
  | some b => rfl
  | none =>
    dsimp only
    split
    · rfl
    · split <;> rfl

omit hC in
theorem unread_chainResult (first second : Converted) :
    Prog.Unread (TighterAt L c) b (chainResult c first second) := by
  unfold chainResult
  split
  · exact Prog.unread_ret _
  · split
    · exact Prog.unread_ret _
    · split
      · exact Prog.unread_fail
      · exact Prog.unread_ret _

/-! ## §2. Chains under a tighter word. -/

omit hC in
theorem TighterAt.refl {known : Knowledge} (hK : L.Good known) : TighterAt L c known known :=
  ⟨hK, hK, fun h hh => ⟨h, hh, HashType.implies_refl h⟩⟩

omit hC in
/-- What a value rule writes is known. -/
theorem valueResult_learns {known known' : Knowledge} (hK : L.Good known) {v : L.Value}
    {t : Celltype} {r : Converted} (hexec : (L.valueResult v t).exec b known = (some r, known')) :
    ∃ b', r = (L.sha256 b', some b') ∧ known' (L.sha256 b') = some (L.fromBuffer b') := by
  unfold valueResult at hexec
  rw [Prog.exec_bind, Prog.exec_ofOption] at hexec
  cases hserialize : L.serialize v t with
  | none =>
    rw [hserialize] at hexec
    cases hexec
  | some b' =>
    rw [hserialize] at hexec
    unfold bufferResult at hexec
    dsimp only at hexec
    rw [Prog.exec_bind, exec_registerHashType hK] at hexec
    cases hexec
    exact ⟨b', rfl, L.learn_self known b'⟩

omit hC in
theorem convertValues_learns {known known' : Knowledge} (hK : L.Good known) {s t : Celltype}
    (hs : s ≠ .checksum) (ht : t ≠ .checksum) {r : Converted}
    (hneeds : (L.convertValues c s t).needs known = false)
    (hexec : (L.convertValues c s t).exec b known = (some r, known')) :
    ∃ b', r = (L.sha256 b', some b') ∧ known' (L.sha256 b') = some (L.fromBuffer b') := by
  unfold convertValues at hneeds hexec
  rw [if_neg ht, if_neg hs] at hneeds hexec
  rw [Prog.needs_bind b, Bool.or_eq_false_iff] at hneeds
  obtain ⟨-, -, hgood⟩ := unread_valueOf (b := b) s known known (TighterAt.refl hK) hneeds.1
  rw [Prog.exec_bind] at hexec
  rcases hvalue : (L.valueOf c s).exec b known with ⟨v, known₁⟩
  rw [hvalue] at hexec hgood
  cases v with
  | none => cases hexec
  | some v =>
    dsimp only at hexec
    rw [Prog.exec_bind, Prog.exec_ofOption] at hexec
    cases hrule : L.valueRule s t v with
    | none =>
      rw [hrule] at hexec
      cases hexec
    | some v' =>
      rw [hrule] at hexec
      exact valueResult_learns hgood.good hexec

omit hC in
/-- Under a stored word, a value is read without learning one. -/
theorem exec_valueOf_of_stored {known : Knowledge} {t : Celltype} {w : HashType}
    (hstored : known c = some w) :
    (L.valueOf c t).exec b known = (L.parseBuffer (some w) b c t, known) := by
  unfold valueOf parseBuffer
  cases hvirtual : L.virtualValue c t with
  | value v => rfl
  | invalid => rfl
  | notVirtual =>
    dsimp only
    rw [Prog.exec_bind, exec_validate_none, hstored]
    simp only [Option.any_some, decide_eq_true_eq, Option.getD_some]
    by_cases hfalse : L.deserializableAs w t c = some false
    · rw [if_pos hfalse, if_pos hfalse]
    · rw [if_neg hfalse, if_neg hfalse]
      show (L.parseBufferStored b c t).exec b known = _
      unfold parseBufferStored validateDeserializableAs ensureHashType
      rw [hvirtual]
      dsimp only
      rw [Prog.exec_bind, Prog.exec_bind, Prog.exec_ask, hstored]
      simp [hfalse, Prog.exec_ofOption]

include hC in
/-- Text that is made of a buffer whose word is known -/
theorem supplied_text {known known' : Knowledge} (hR : TighterAt L c known known') {b' : Bytes}
    {w : HashType} (hstored : known (L.sha256 b') = some w)
    (hstored' : known' (L.sha256 b') = some w) :
    (((L.convertReformat (L.sha256 b') .plain .text).supply b').exec b known).1 =
        (((L.convertReformat (L.sha256 b') .plain .text).supply b').exec b known').1 ∧
      TighterAt L c (((L.convertReformat (L.sha256 b') .plain .text).supply b').exec b known).2
        (((L.convertReformat (L.sha256 b') .plain .text).supply b').exec b known').2 := by
  rw [Prog.exec_supply, Prog.exec_supply]
  unfold convertReformat
  rw [Prog.exec_bind, Prog.exec_bind, exec_valueOf_of_stored hstored,
    exec_valueOf_of_stored hstored']
  cases L.parseBuffer (some w) b' (L.sha256 b') .plain with
  | none => exact ⟨rfl, hR⟩
  | some v =>
    dsimp only
    cases v with
    | str s =>
      exact (unread_valueResult hC (.str s) .text known known' hR (needs_valueResult _ _)).2
    | _ => exact ⟨rfl, hR⟩

include hC in
/-- A value that becomes text by way of `plain` -/
theorem unread_to_text (fuel : Nat) {s : Celltype} (hs : s ≠ .checksum)
    (htext : rule s .text = .chain .plain)
    (hplain : rule s .plain = .reinterpret ∨ rule s .plain = .values) :
    Prog.Unread (TighterAt L c) b (L.convertFuel fuel c s .text) := by
  match fuel with
  | 0 => exact Prog.unread_fail
  | 1 =>
    show Prog.Unread _ b (L.convertStep (L.convertFuel 0) c s .text)
    unfold convertStep
    rw [htext]
    exact Prog.unread_fail
  | fuel + 2 =>
    have hreformat : ∀ c' : Checksum, L.convertFuel (fuel + 1) c' .plain .text =
        L.convertReformat c' .plain .text := by
      intro c'
      show L.convertStep (L.convertFuel fuel) c' .plain .text = _
      unfold convertStep
      rw [rule_plain_text]
    have hsecond : Prog.Unread (TighterAt L c) b
        (L.convertReformat c .plain .text >>= fun second => chainResult c (c, none) second) :=
      Prog.unread_seq (unread_convertReformat hC .plain .text) fun second =>
        unread_chainResult _ second
    show Prog.Unread _ b (L.convertStep (L.convertFuel (fuel + 1)) c s .text)
    unfold convertStep
    rw [htext]
    dsimp only
    have hfirst : L.convertFuel (fuel + 1) c s .plain =
        L.convertStep (L.convertFuel fuel) c s .plain := rfl
    rw [hfirst]
    unfold convertStep
    rcases hplain with hplain | hplain
    · -- a reinterpretation keeps the checksum
      rw [hplain]
      refine Prog.unread_bind (unread_reinterpret .plain) (L.reinterpret_kept c .plain) ?_
      rintro first rfl
      dsimp only
      rw [hreformat]
      exact hsecond
    · -- a value rule writes, and its buffer is supplied
      rw [hplain]
      intro known known' hR hneeds
      dsimp only at hneeds ⊢
      rw [Prog.needs_bind b, Bool.or_eq_false_iff] at hneeds
      obtain ⟨hneeds', hsame, hR'⟩ := unread_convertValues (b := b) hC s .plain known known' hR
        hneeds.1
      rw [Prog.needs_bind b, Prog.exec_bind, Prog.exec_bind, hneeds', Bool.false_or]
      rcases hexec : (L.convertValues c s .plain).exec b known with ⟨first, known₁⟩
      rcases hexec' : (L.convertValues c s .plain).exec b known' with ⟨first', known₁'⟩
      rw [hexec, hexec'] at hsame hR'
      obtain rfl : first = first' := hsame
      cases first with
      | none => exact ⟨rfl, rfl, hR'⟩
      | some first =>
        obtain ⟨b', rfl, hstored⟩ := convertValues_learns hR.good hs (by simp) hneeds.1 hexec
        obtain ⟨b'', hfirst, hstored'⟩ := convertValues_learns hR.good' hs (by simp) hneeds' hexec'
        obtain rfl : b' = b'' := Option.some.inj (congrArg Prod.snd hfirst)
        obtain ⟨hsame', hR''⟩ := supplied_text (b := b) hC hR' hstored hstored'
        dsimp only
        rw [hreformat, Prog.needs_bind b, Prog.exec_bind, Prog.exec_bind, Prog.needs_supply,
          Bool.false_or]
        rcases hexec₂ : ((L.convertReformat (L.sha256 b') .plain .text).supply b').exec b known₁
          with ⟨second, known₂⟩
        rcases hexec₂' : ((L.convertReformat (L.sha256 b') .plain .text).supply b').exec b known₁'
          with ⟨second', known₂'⟩
        rw [hexec₂, hexec₂'] at hsame' hR''
        obtain rfl : second = second' := hsame'
        cases second with
        | none => exact ⟨rfl, rfl, hR''⟩
        | some second =>
          exact unread_chainResult (b := b) _ second known₂ known₂' hR'' (needs_chainResult _ _)

/-! ## §3. Conversions under a tighter word. -/

omit hC in
/-- The first part of a chain is a single rule, or makes text by way of `plain`. -/
theorem chain_first (s t : Celltype) :
    (lookupPair chainPairs (s, t)).all (fun m =>
      decide (s ≠ .checksum) &&
        (decide (rule s m ∈ [.retain, .reinterpret, .reformat, .values]) ||
          decide (rule s m = .equivalent .text .str ∧ rule .text .str = .reformat) ||
          decide (m = .text ∧ rule s m = .chain .plain ∧
            rule s .plain ∈ [.reinterpret, .values]))) = true :=
  @all_lookupPair _ chainPairs
    (fun (conv : Pair) (m : Celltype) => decide (conv.1 ≠ .checksum) &&
        (decide (rule conv.1 m ∈ [.retain, .reinterpret, .reformat, .values]) ||
          decide (rule conv.1 m = .equivalent .text .str ∧ rule .text .str = .reformat) ||
          decide (m = .text ∧ rule conv.1 m = .chain .plain ∧
            rule conv.1 .plain ∈ [.reinterpret, .values]))) (by decide) (s, t)

include hC in
/-- A conversion that is a single rule -/
theorem unread_rule (fuel : Nat) {s t : Celltype}
    (hrule : rule s t ∈ [.retain, .reinterpret, .reformat, .values]) :
    Prog.Unread (TighterAt L c) b (L.convertFuel fuel c s t) := by
  cases fuel with
  | zero => exact Prog.unread_fail
  | succ fuel =>
    show Prog.Unread _ b (L.convertStep (L.convertFuel fuel) c s t)
    unfold convertStep
    simp only [List.mem_cons, List.not_mem_nil, or_false] at hrule
    rcases hrule with hrule | hrule | hrule | hrule <;> rw [hrule]
    · exact Prog.unread_ret _
    · exact unread_reinterpret t
    · exact unread_convertReformat hC s t
    · exact unread_convertValues hC s t

include hC in
theorem unread_first (fuel : Nat) {s t m : Celltype} (hchain : lookupPair chainPairs (s, t) = some m) :
    s ≠ .checksum ∧ Prog.Unread (TighterAt L c) b (L.convertFuel fuel c s m) := by
  have hfirst := chain_first s t
  rw [hchain] at hfirst
  simp only [Option.all_some, Bool.and_eq_true, Bool.or_eq_true, decide_eq_true_eq] at hfirst
  obtain ⟨hs, (hleaf | ⟨hequiv, hreformat⟩) | ⟨rfl, htext, hplain⟩⟩ := hfirst
  · exact ⟨hs, unread_rule hC fuel hleaf⟩
  · refine ⟨hs, ?_⟩
    cases fuel with
    | zero => exact Prog.unread_fail
    | succ fuel =>
      show Prog.Unread _ b (L.convertStep (L.convertFuel fuel) c s m)
      unfold convertStep
      rw [hequiv]
      exact unread_rule hC fuel (by simp [hreformat])
  · exact ⟨hs, unread_to_text hC fuel hs htext (by simpa using hplain)⟩

include hC in
/-- The engine needs no buffer under a tighter word where it needs none. -/
theorem needs_convertFuel_mono (fuel : Nat) : ∀ {known known' : Knowledge} {s t : Celltype},
    TighterAt L c known known' → (L.convertFuel fuel c s t).needs known = false →
    (L.convertFuel fuel c s t).needs known' = false := by
  induction fuel with
  | zero => exact fun _ _ => rfl
  | succ fuel ih =>
    intro known known' s t hR hneeds
    change (L.convertStep (L.convertFuel fuel) c s t).needs known = false at hneeds
    show (L.convertStep (L.convertFuel fuel) c s t).needs known' = false
    have hlists := rule_lists s t
    unfold convertStep at hneeds ⊢
    cases hrule : rule s t with
    | same | forbidden | retain | unclassified => rfl
    | equivalent s' t' =>
      rw [hrule] at hneeds
      exact ih hR hneeds
    | chain m =>
      rw [hrule] at hneeds hlists
      obtain ⟨hs, hfirst⟩ := unread_first (c := c) (b := []) hC fuel
        (show lookupPair chainPairs (s, t) = some m from hlists)
      dsimp only at hneeds ⊢
      rw [Prog.needs_bind [], Bool.or_eq_false_iff] at hneeds
      obtain ⟨hneeds', hsame, hR'⟩ := hfirst known known' hR hneeds.1
      have hrest := hneeds.2
      rw [Prog.needs_bind [], hneeds', Bool.false_or]
      rcases hexec : (L.convertFuel fuel c s m).exec [] known with ⟨first, known₁⟩
      rcases hexec' : (L.convertFuel fuel c s m).exec [] known' with ⟨first', known₁'⟩
      rw [hexec, hexec'] at hsame hR'
      rw [hexec] at hrest
      obtain rfl : first = first' := hsame
      cases first with
      | none => rfl
      | some first =>
        have hkeeps := Prog.exec_returns (L.convertFuel_keeps fuel c m hs)
          (congrArg Prod.fst hexec)
        dsimp only at hrest ⊢
        -- only a kept checksum is read again
        cases hmade : first.2 with
        | none =>
          rw [hmade] at hrest
          dsimp only at hrest ⊢
          rw [hkeeps hmade] at hrest ⊢
          rw [Prog.needs_bind [], Bool.or_eq_false_iff] at hrest
          rw [Prog.needs_bind [], ih hR' hrest.1, Bool.false_or]
          split
          · exact needs_chainResult _ _
          · rfl
        | some b' =>
          dsimp only
          rw [Prog.needs_bind [], Prog.needs_supply, Bool.false_or]
          split
          · exact needs_chainResult _ _
          · rfl
    | reinterpret =>
      rw [hrule] at hneeds
      exact (unread_reinterpret (b := []) t known known' hR hneeds).1
    | reformat =>
      rw [hrule] at hneeds
      exact (unread_convertReformat (b := []) hC s t known known' hR hneeds).1
    | possible =>
      rw [hrule] at hneeds
      exact (unread_convertPossible (b := []) hC s t known known' hR hneeds).1
    | values =>
      rw [hrule] at hneeds
      exact (unread_convertValues (b := []) hC s t known known' hR hneeds).1

end

/-! ## §4. What the stored words decide. -/

section

variable (hL : L.JsonLaws) (hW : L.WriteLaws) (hC : L.CollisionFree)
variable {known known' : Knowledge} {b : Bytes} {s t : Celltype}

/-- The word is truthful, and tighter than the stored one if there is one. -/
structure Tightens (L : Libraries) (known : Knowledge) (b : Bytes) (w : HashType) : Prop where
  truthful : L.Truthful b w
  tighter : ∀ h, known (L.sha256 b) = some h → w.implies h = true

include hC in
/-- A tighter word is as truthful for every buffer of the checksum. -/
theorem tighterAt_store (hK : L.Good known) {w : HashType} (hw : Tightens L known b w) :
    TighterAt L (L.sha256 b) known (Function.update known (L.sha256 b) (some w)) := by
  refine ⟨hK, fun b' h hh => ?_, fun h hh => ⟨w, Function.update_self _ _ _, hw.tighter h hh⟩⟩
  by_cases hsha : L.sha256 b' = L.sha256 b
  · rw [hsha, Function.update_self] at hh
    rw [← Option.some.inj hh]
    exact ⟨hw.truthful.valid, hC.words b' b hsha ▸ hw.truthful.implied⟩
  · rw [Function.update_of_ne hsha] at hh
    exact hK b' h hh

theorem good_none : L.Good fun _ => none := by
  intro b h hh
  cases hh

/-- Where no word is stored, the own one is tighter. -/
theorem tightens_none (b : Bytes) : Tightens L (fun _ => none) b (L.fromBuffer b) := by
  refine ⟨L.truthful_fromBuffer b, ?_⟩
  intro h hh
  cases hh

/-- The result checksum, where there is a result -/
def resultChecksum : Outcome Converted → Option Checksum
  | .done r => some r.1
  | _ => none

theorem resultChecksum_run (known : Knowledge) (b : Bytes) (s t : Celltype) :
    resultChecksum (L.runConversion known b (L.sha256 b) s t).1 =
      ((L.convertChecksum (L.sha256 b) s t).exec b known).1.map Prod.fst := by
  unfold runConversion
  rw [(run_eq_exec b _ known).1]
  cases ((L.convertChecksum (L.sha256 b) s t).exec b known).1 <;> rfl

include hC in
/-- Where the conversion reads its buffer is predicted, and a tighter word does not
make it read one that it did not need. -/
theorem needs_of_tighter (hK : L.Good known) {w : HashType} (hw : Tightens L known b w) :
    (L.runConversion known b (L.sha256 b) s t).2.reads ≤ 1 ∧
      (L.conversionNeedsBuffer known (L.sha256 b) s t = true ↔
        (L.runConversion known b (L.sha256 b) s t).2.reads = 1) ∧
      (L.conversionNeedsBuffer known (L.sha256 b) s t = false →
        L.conversionNeedsBuffer (Function.update known (L.sha256 b) (some w)) (L.sha256 b) s t =
          false) := by
  have hreads : (L.runConversion known b (L.sha256 b) s t).2.reads =
      ((L.convertChecksum (L.sha256 b) s t).needs known).toNat := reads_run b _ known
  rw [hreads, conversionNeedsBuffer_eq, conversionNeedsBuffer_eq]
  refine ⟨Bool.toNat_le _, ?_, fun hneeds => ?_⟩
  · cases (L.convertChecksum (L.sha256 b) s t).needs known <;> simp
  · unfold convertChecksum at hneeds ⊢
    split at hneeds
    next hforbidden =>
      rw [if_pos hforbidden]
      rfl
    next hlegal =>
      rw [if_neg hlegal]
      exact needs_convertFuel_mono hC 4 (tighterAt_store hC hK hw) hneeds

include hW hC in
/-- The content of a buffer that a word misleads about is not kept. -/
theorem content_of_misled (h : L.Misled known b s t) :
    (L.convertContent b s t).map Prod.fst ≠ some (L.sha256 b) := by
  intro hkept
  rcases L.misled_cases h with ⟨rfl, rfl, hmixed⟩ | ⟨rfl, rfl, hbytes⟩ | ⟨rfl, rfl, hproved⟩
  · have hpair : (Celltype.mixed, Celltype.binary) ∈ reinterpretPairs ∧
        (Celltype.mixed, Celltype.binary) ∉ forbiddenPairs := by decide
    unfold convertContent at hkept
    rw [if_neg hpair.2] at hkept
    change (L.convertContentStep (L.convertContentFuel 3) b .mixed .binary).map _ = _ at hkept
    unfold convertContentStep at hkept
    rw [rule_reinterpret (.mixed, .binary) hpair.1] at hkept
    change ((L.contentValue b .binary).map _).map _ = _ at hkept
    rw [hmixed.1.1] at hkept
    cases hkept
  · obtain ⟨-, hloose, -⟩ := hbytes
    have hinvalid : ¬ L.Valid b .binary := L.not_valid_iff.mpr hloose.1
    have hpair : (Celltype.bytes, Celltype.binary) ∈ reformatPairs ∧
        (Celltype.bytes, Celltype.binary) ∉ forbiddenPairs := by decide
    unfold convertContent at hkept
    rw [if_neg hpair.2] at hkept
    change (L.convertContentStep (L.convertContentFuel 3) b .bytes .binary).map _ = _ at hkept
    unfold convertContentStep at hkept
    rw [rule_of_lists (r := .reformat) hpair.1] at hkept
    change (L.bytesToBinaryContent b).map _ = _ at hkept
    unfold bytesToBinaryContent at hkept
    rw [if_neg fun hvalid => hinvalid hvalid.2] at hkept
    exact wrapped_ne hW hC hinvalid hkept
  · exact content_of_unreadable hW hC hproved.1 hkept

include hL hW hC in
/-- Two tables of truthful words give a conversion the same result checksum, or no
result, exactly where both mislead it or neither does. -/
theorem outcome_same_iff (hK : L.Good known) (hK' : L.Good known') (hs : L.Valid b s) :
    resultChecksum (L.runConversion known b (L.sha256 b) s t).1 =
        resultChecksum (L.runConversion known' b (L.sha256 b) s t).1 ↔
      (L.Misled known b s t ↔ L.Misled known' b s t) := by
  rw [resultChecksum_run, resultChecksum_run]
  by_cases h : L.Misled known b s t
  · rw [(convertChecksum_of_misled hC hK h).1]
    by_cases h' : L.Misled known' b s t
    · rw [(convertChecksum_of_misled hC hK' h').1]
      exact iff_of_true rfl (iff_of_true h h')
    · rw [(convertChecksum_of_valid hL hW hC hK' hs h').1]
      exact iff_of_false (fun heq => content_of_misled hW hC h heq.symm) fun hiff => h' (hiff.mp h)
  · rw [(convertChecksum_of_valid hL hW hC hK hs h).1]
    by_cases h' : L.Misled known' b s t
    · rw [(convertChecksum_of_misled hC hK' h').1]
      exact iff_of_false (fun heq => content_of_misled hW hC h' heq) fun hiff => h (hiff.mpr h')
    · rw [(convertChecksum_of_valid hL hW hC hK' hs h').1]
      exact iff_of_true rfl (iff_of_false h h')

end

/-- A number that is read as text, under an untested word and under its own -/
theorem outcome_same_text :
    resultChecksum (small.runConversion (fun _ => none) (ascii "5") (small.sha256 (ascii "5"))
        .int .text).1 =
        resultChecksum (small.runConversion (small.learn (fun _ => none) (ascii "5")) (ascii "5")
          (small.sha256 (ascii "5")) .int .text).1 ↔
      (small.Misled (fun _ => none) (ascii "5") .int .text ↔
        small.Misled (small.learn (fun _ => none) (ascii "5")) (ascii "5") .int .text) :=
  outcome_same_iff Small.small_jsonLaws Small.small_writeLaws
    Small.small_collisionFree good_none (good_learn Small.small_collisionFree good_none _)
    (by decide +kernel)

/-- Its own word is tighter than none. -/
theorem needs_of_tighter_text :
    (small.runConversion (fun _ => none) (ascii "5") (small.sha256 (ascii "5")) .int .text).2.reads
        ≤ 1 ∧
      (small.conversionNeedsBuffer (fun _ => none) (small.sha256 (ascii "5")) .int .text = true ↔
        (small.runConversion (fun _ => none) (ascii "5") (small.sha256 (ascii "5")) .int
          .text).2.reads = 1) ∧
      (small.conversionNeedsBuffer (fun _ => none) (small.sha256 (ascii "5")) .int .text = false →
        small.conversionNeedsBuffer (Function.update (fun _ => none) (small.sha256 (ascii "5"))
          (some (small.fromBuffer (ascii "5")))) (small.sha256 (ascii "5")) .int .text = false) :=
  needs_of_tighter Small.small_collisionFree good_none (tightens_none _)

end Libraries

end SeamlessCore
