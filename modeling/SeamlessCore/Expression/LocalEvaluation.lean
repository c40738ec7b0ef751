/-
  SeamlessCore.Expression.LocalEvaluation — the two local evaluators.

  The synchronous evaluator takes the input buffer when it needs it; the
  asynchronous one predicts whether it will, and fetches the buffer before it
  validates.  A fetched buffer is classified if no HashType is stored of it,
  so that only the asynchronous evaluator checks an Expression without path
  against the buffer's own HashType.

  Main results:
    * `exec_validateExpression`, `validateExpression_bare` — what the validation
      does with the word that it has, and where it has none;
    * `evaluators_agree` — the evaluators agree, unless no word is stored and
      the buffer's own would refuse what its content admits, or prove what the
      reader of arrays refuses.

  Source: `seamless/checksum/expression.py`, `hash_type_validation.py`.
-/
import SeamlessCore.Expression.Materialize
import SeamlessCore.Expression.PathCodec
import SeamlessCore.Expression.Vetting
import SeamlessCore.Conversion.Verdicts

namespace SeamlessCore.Expression

open Python Lazy Libraries

open ExpressionCelltype

section

variable {L : Libraries} (P : PathLibrary L)

/-! ## §1. The evaluators. -/

/-- `_evaluate_expression_local_unshared`.  `b` is the buffer of the input,
`member` the buffers of members. -/
def evaluateUnshared (known : Knowledge) (key : ExpressionKey) (steps : List PathStep) (b : Bytes)
    (member : Checksum → Option Bytes) : Option Checksum :=
  let inputBuffer := if steps = [] then none else some b
  match (validateExpression L key.inputChecksum inputBuffer key.inputCelltype steps
    key.celltype).exec b known with
  | (none, _) => none
  | (some _, known) => (evaluateAfterValidation P known key steps (some b) member).map Prod.fst

/-- The members of a folder are there; they are fetched before the evaluation. -/
def membersFetched (known : Knowledge) (key : ExpressionKey) (steps : List PathStep)
    (inputBuffer : Option Bytes) (member : Checksum → Option Bytes) : Bool :=
  if steps = [] ∧ (key.inputCelltype, key.celltype) = (folder, ordinary .mixed) ∧
      isNull L key.inputChecksum = false then
    match inputBuffer.bind (deepIndex (L := L) known) with
    | none => false
    | some index => index.all fun m => (member m.2).isSome
  else true

/-- The part of `_evaluate_expression_async` after the cache was looked up -/
def evaluatePrefetched (known : Knowledge) (key : ExpressionKey) (steps : List PathStep)
    (b : Bytes) (member : Checksum → Option Bytes) : Option Checksum :=
  let inputBuffer := if System.needsInput L known key steps then some b else none
  match (validateExpression L key.inputChecksum inputBuffer key.inputCelltype steps
    key.celltype).exec b known with
  | (none, _) => none
  | (some _, known) =>
    if membersFetched (L := L) known key steps inputBuffer member then
      (evaluateAfterValidation P known key steps inputBuffer member).map Prod.fst
    else none

/-- What both evaluators do with their arguments, and with the recorded result
where it is an answer -/
def evaluateLocally (evaluate : List PathStep → Option Checksum) (recorded : Option Checksum)
    (key : ExpressionKey) : Option Checksum :=
  if validateExpressionShape L P key.path key.inputCelltype key.celltype = false then none
  else
    match recorded with
    | some c => some c
    | none =>
      match parsePath P.interpreter key.path with
      | .error _ => none
      | .ok steps => evaluate steps

/-- `evaluate_expression_local` -/
def evaluateExpressionLocal (recorded : Option Checksum) (known : Knowledge) (key : ExpressionKey)
    (b : Bytes) (member : Checksum → Option Bytes) : Option Checksum :=
  evaluateLocally P (fun steps => evaluateUnshared P known key steps b member) recorded key

/-- `evaluate_expression_local_async` -/
def evaluateExpressionLocalAsync (recorded : Option Checksum) (known : Knowledge)
    (key : ExpressionKey) (b : Bytes) (member : Checksum → Option Bytes) : Option Checksum :=
  evaluateLocally P (fun steps => evaluatePrefetched P known key steps b member) recorded key

end

/-! ## §2. Validation without and with the buffer. -/

section

variable {L : Libraries} {known : Knowledge}

theorem exec_ensureHashType_buffer (hK : L.Good known) (source b : Bytes) :
    (L.ensureHashType (L.sha256 b) (some b)).exec source known =
      (some (some ((known (L.sha256 b)).getD (L.fromBuffer b))),
        if known (L.sha256 b) = none then L.learn known b else known) := by
  unfold ensureHashType
  rw [Prog.exec_ask]
  cases hstored : known (L.sha256 b) with
  | some h => rfl
  | none =>
    dsimp only
    rw [Prog.exec_bind, exec_registerHashType hK]
    rfl

/-- The HashType admits the Expression. -/
def Admits (L : Libraries) (h : HashType) (c : Checksum) (s : Celltype) (steps : List PathStep)
    (t : Celltype) : Prop :=
  L.deserializableAs h s c ≠ some false ∧ validatePathCapability h s steps = true ∧
    (steps = [] → L.conversionFeasible h s t c ≠ some false)

instance (h : HashType) (c : Checksum) (s : Celltype) (steps : List PathStep) (t : Celltype) :
    Decidable (Admits L h c s steps t) := inferInstanceAs (Decidable (_ ∧ _ ∧ (_ → _)))

/-- What the validation does with the word that it has -/
theorem exec_validateExpression (source : Bytes) (c : Checksum) (buffer : Option Bytes)
    (s : Celltype) (steps : List PathStep) (t : Celltype) {known' : Knowledge}
    {h : Option HashType}
    (hensure : (L.ensureHashType c buffer).exec source known = (some h, known')) :
    (validateExpression L c buffer (ordinary s) steps (ordinary t)).exec source known =
      (if ∀ word, h = some word → Admits L word c s steps t then some h else none, known') := by
  unfold validateExpression validateDeserializableAs
  dsimp only
  rw [Prog.exec_bind, Prog.exec_bind, hensure]
  cases h with
  | none => simp
  | some word =>
    simp only [Option.some.injEq, forall_eq']
    by_cases hsource : L.deserializableAs word s c = some false
    · have hrefused : ¬ Admits L word c s steps t := fun hadmits => hadmits.1 hsource
      simp [hsource, hrefused]
    by_cases hpath : validatePathCapability word s steps = true
    · by_cases hfeasible : steps = [] ∧ L.conversionFeasible word s t c = some false
      · have hrefused : ¬ Admits L word c s steps t :=
          fun hadmits => hadmits.2.2 hfeasible.1 hfeasible.2
        simp [hsource, hfeasible]
        exact fun hadmits => hrefused (hfeasible.1 ▸ hadmits)
      · have hadmitted : Admits L word c s steps t :=
          ⟨hsource, hpath, fun hsteps hfalse => hfeasible ⟨hsteps, hfalse⟩⟩
        simp [hsource, hpath, hfeasible, hadmitted]
    · have hrefused : ¬ Admits L word c s steps t := fun hadmits => hpath hadmits.2.1
      simp [hsource, hpath, hrefused]

end

section

variable {L : Libraries} {known : Knowledge}

/-! ## §3. What the own word would refuse. -/

/-- A scalar source that the buffer's own word disproves, although the buffer is
a `plain` value that converts. -/
def PlainScalar (L : Libraries) (b : Bytes) (s t : Celltype) : Prop :=
  (s, t) ∈ Conversion.viaPlainPairs ∧
    L.deserializableAs (L.fromBuffer b) s (L.sha256 b) = some false ∧
    L.virtualValue (L.sha256 b) .plain = .notVirtual ∧
    (t = .text ∧ L.Valid b .plain ∨
      t = .binary ∧ ∃ v a, L.contentValue b .plain = some v ∧
        L.binaryOfPlain v = some (.array a) ∧ (L.npSave a).isSome = true)

/-- An array that only `np.load` reads, where its own word is taken for a proof of the target. -/
def Unread (L : Libraries) (b : Bytes) (s t : Celltype) : Prop :=
  L.Unreadable b ∧ (s = .bytes ∧ t = .mixed ∨ s = .mixed ∧ t = .binary)

/-- Nothing is recorded, no word is stored, and the buffer's own word would refuse
an Expression without path whose content converts, or prove one whose content is no value. -/
def Overlooked (L : Libraries) (recorded : Option Checksum) (known : Knowledge)
    (key : ExpressionKey) (b : Bytes) : Prop :=
  recorded = none ∧ key.path = [] ∧ known (L.sha256 b) = none ∧
    ∃ s t, key.inputCelltype = ordinary s ∧ key.celltype = ordinary t ∧
      (PlainScalar L b s t ∨ L.RootScalar b s t ∨ Unread L b s t)

/-- A JSON string can be written as text. -/
theorem made_text (hL : L.JsonLaws) {json text : PyStr}
    (hloads : L.orjsonLoads json = some (.str text)) :
    (L.made (.str text) .text).isSome = true := by
  have hencodable : Python.Encodable text := by
    cases hL.loads_isJson json _ hloads with
    | str s h => exact h
  have hline : Python.Encodable (rstripNewlines text ++ [cp '\n']) := by
    have hstripped := hencodable.rstrip
    unfold Python.Encodable at hstripped ⊢
    rw [List.any_append, hstripped]
    decide
  obtain ⟨b', hb'⟩ := hline.encodes
  unfold made
  rw [Option.isSome_map]
  show (textBuffer text).isSome = true
  unfold textBuffer
  rw [hb']
  rfl

/-- The array of a `plain` value, written -/
theorem valuesContent_array {b : Bytes} :
    (L.valuesContent b .plain .binary).isSome = true ↔
      ∃ v a, L.contentValue b .plain = some v ∧ L.binaryOfPlain v = some (.array a) ∧
        (L.npSave a).isSome = true := by
  have hmade : ∀ a : L.Array, (L.made (.array a) .binary).isSome = (L.npSave a).isSome := by
    intro a
    unfold made
    rw [Option.isSome_map]
    rfl
  unfold valuesContent
  rw [if_neg (by simp), if_neg (by simp)]
  constructor
  · intro h
    obtain ⟨r, hr⟩ := Option.isSome_iff_exists.mp h
    obtain ⟨v, hv, hr⟩ := Option.bind_eq_some_iff.mp hr
    obtain ⟨v', hv', hr⟩ := Option.bind_eq_some_iff.mp hr
    have harray : L.binaryOfPlain v = some v' := hv'
    obtain ⟨a, rfl⟩ : ∃ a, v' = .array a := by
      have harray' := harray
      unfold binaryOfPlain at harray'
      split at harray'
      any_goals
        split at harray'
        · split at harray'
          · cases harray'
          · exact ⟨_, (Option.some.inj harray').symm⟩
        · cases harray'
      cases harray'
    exact ⟨v, a, hv, harray, by rw [← hmade, hr]; rfl⟩
  · rintro ⟨v, a, hv, harray, hsave⟩
    have hrule : L.valueRule .plain .binary v = some (.array a) := harray
    rw [hv, Option.bind_some, hrule, Option.bind_some, hmade]
    exact hsave

/-- What a scalar that is read as `plain` converts to -/
theorem content_viaPlain (hL : L.JsonLaws) {b : Bytes} {s t : Celltype}
    (hpair : (s, t) ∈ Conversion.viaPlainPairs)
    (hvirtual : L.virtualValue (L.sha256 b) .plain = .notVirtual) :
    (L.convertContent b s t).isSome = true ↔
      (t = .text ∧ L.Valid b .plain ∨
        t = .binary ∧ ∃ v a, L.contentValue b .plain = some v ∧
          L.binaryOfPlain v = some (.array a) ∧ (L.npSave a).isSome = true) := by
  obtain ⟨hlegal, hrule, htarget, -⟩ := viaPlain_rule (s, t) hpair
  have hcontent : L.convertContent b s t =
      L.convertContentStep (L.convertContentFuel 2) b .plain t := by
    unfold convertContent
    rw [if_neg hlegal]
    show L.convertContentStep (L.convertContentFuel 3) b s t = _
    unfold convertContentStep
    rw [hrule]
    rfl
  rw [hcontent]
  unfold convertContentStep
  rcases htarget with rfl | rfl
  · rw [rule_plain_text]
    show ((L.contentValue b .plain).bind _).isSome = true ↔ _
    simp only [true_and, reduceCtorEq, false_and, or_false]
    rw [L.valid_iff]
    cases hv : L.contentValue b .plain with
    | none => simp
    | some v =>
      refine iff_of_true ?_ ⟨v, rfl⟩
      obtain ⟨json, -, hloads, -⟩ := L.parsePlain_some hL (L.body_of_valid hv hvirtual).1
      cases v with
      | str text => exact made_text hL hloads
      | _ => rfl
  · rw [rule_plain_binary]
    show (L.valuesContent b .plain .binary).isSome = true ↔ _
    rw [valuesContent_array]
    simp

/-! ## §4. Predictions. -/

theorem conversionNeedsBuffer_eq (c : Checksum) (s t : ExpressionCelltype) :
    conversionNeedsBuffer L known c s t = (convertChecksum L c s t).needs known := by
  unfold conversionNeedsBuffer Session.start
  rw [run_dry _ _ []]
  cases (convertChecksum L c s t).needs known with
  | true => rfl
  | false =>
    generalize ((convertChecksum L c s t).exec [] known).1 = answer
    cases answer <;> rfl

/-- What would be refused is what the content is read for. -/
theorem needs_of_refused (hL : L.JsonLaws) (hC : L.CollisionFree) {b : Bytes} {s t : Celltype}
    (hstored : known (L.sha256 b) = none) (h : PlainScalar L b s t ∨ L.RootScalar b s t) :
    (L.convertChecksum (L.sha256 b) s t).needs known = true := by
  unfold Libraries.convertChecksum convert
  rcases h with ⟨hpair, -, hvirtual, -⟩ | ⟨rfl, ht, hmixed, -⟩
  · obtain ⟨hlegal, hrule, htarget, -⟩ := viaPlain_rule (s, t) hpair
    rw [if_neg hlegal]
    show (L.convertStep (L.convertFuel 3) (L.sha256 b) s t).needs known = true
    unfold convertStep
    rw [hrule]
    show (L.convertStep (L.convertFuel 2) (L.sha256 b) .plain t).needs known = true
    unfold convertStep
    rcases htarget with rfl | rfl
    · rw [rule_plain_text]
      show (L.valueOf (L.sha256 b) .plain >>= _).needs known = true
      rw [Prog.needs_bind [], needs_valueOf hstored hvirtual]
      rfl
    · rw [rule_plain_binary]
      show (L.convertValues (L.sha256 b) .plain .binary).needs known = true
      unfold convertValues
      rw [if_neg (by simp), if_neg (by simp), Prog.needs_bind [], needs_valueOf hstored hvirtual]
      rfl
  · have hvirtual : L.virtualValue (L.sha256 b) .mixed = .notVirtual := by
      refine notVirtual_of_kind hL hC (not_null_of_isMixed hC hmixed) (by simp) ?_
      intro hk
      simp [HashType.isMixed, hk] at hmixed
    have hneeds : (L.convertPossible (L.sha256 b) .mixed t).needs known = true := by
      unfold convertPossible
      rw [Prog.needs_bind [], needs_valueOf hstored hvirtual]
      rfl
    rcases ht with rfl | rfl
    · exact hneeds
    · exact hneeds

/-! ## §5. Refusals and proofs. -/

/-- The own word refuses what is overlooked. -/
theorem not_admits (hC : L.CollisionFree) {b : Bytes} {s t : Celltype}
    (h : PlainScalar L b s t ∨ L.RootScalar b s t) :
    ¬ Admits L (L.fromBuffer b) (L.sha256 b) s [] t := by
  rintro ⟨hsource, -, hfeasible⟩
  rcases h with ⟨-, hfalse, -⟩ | ⟨rfl, ht, hmixed, -⟩
  · exact hsource hfalse
  · exact hfeasible rfl (feasible_of_isMixed hmixed (L.fromBuffer_tested b) ht
      (not_null_of_isMixed hC hmixed) hsource)

/-- What the own word refuses and is not overlooked has no conversion. -/
theorem content_of_not_admits (hL : L.JsonLaws) (hW : L.WriteLaws) (hR : L.RootLaws)
    (hC : L.CollisionFree) {b : Bytes} {s t : Celltype}
    (hneeds : (L.convertChecksum (L.sha256 b) s t).needs known = true)
    (hrefused : ¬ Admits L (L.fromBuffer b) (L.sha256 b) s [] t)
    (h : ¬ (PlainScalar L b s t ∨ L.RootScalar b s t)) : L.convertContent b s t = none := by
  have hreads : Conversion.readsNothing s t = false := by
    by_contra hreads
    rw [needs_of_readsNothing (by simpa using hreads)] at hneeds
    cases hneeds
  have hlegal : (s, t) ∉ Conversion.forbiddenPairs := by
    intro hforbidden
    unfold Libraries.convertChecksum at hneeds
    rw [if_pos hforbidden] at hneeds
    cases hneeds
  by_cases hsource : L.deserializableAs (L.fromBuffer b) s (L.sha256 b) = some false
  · by_cases hpair : (s, t) ∈ Conversion.viaPlainPairs
    · -- the scalar is read as `plain`, and not from its checksum
      have hvirtual : L.virtualValue (L.sha256 b) .plain = .notVirtual := by
        cases hvirtual : L.virtualValue (L.sha256 b) .plain with
        | notVirtual => rfl
        | value v =>
          rw [needs_of_virtual hpair hvirtual] at hneeds
          cases hneeds
        | invalid => exact absurd hvirtual (virtualValue_ne_invalid _ (by simp) (by simp) (by simp))
      by_contra hsome
      refine h (.inl ⟨hpair, hsource, hvirtual, ?_⟩)
      exact (content_viaPlain hL hpair hvirtual).mp (Option.isSome_iff_ne_none.mpr hsome)
    · unfold convertContent
      rw [if_neg hlegal]
      exact content_of_disproof hL hW hC 4 hreads hpair hsource
  · have hfeasible : L.conversionFeasible (L.fromBuffer b) s t (L.sha256 b) = some false := by
      by_contra hfeasible
      exact hrefused ⟨hsource, by simp [validatePathCapability, vetSteps], fun _ => hfeasible⟩
    unfold convertContent
    rw [if_neg hlegal]
    exact content_of_infeasible hL hW hR hC 4 hreads (fun hfalse => absurd hfalse hsource)
      (fun hroot => h (.inr hroot)) hfeasible 4

end

/-! ## §6. The evaluators agree. -/

section

variable {L : Libraries} {P : PathLibrary L} {known : Knowledge} {key : ExpressionKey} {b : Bytes}
variable {member : Checksum → Option Bytes}

/-- Only the empty path has no steps. -/
theorem path_of_no_steps {path : PyStr} (h : parsePath P.interpreter path = .ok []) : path = [] := by
  cases path with
  | nil => rfl
  | cons c cs =>
    exfalso
    unfold parsePath at h
    rw [List.length_cons, parsePathLoop_cons] at h
    -- a character that is read makes a step
    cases hstep : parseStep P.interpreter (cs.length + 1 - (c :: cs).length) c cs with
    | error e =>
      rw [hstep] at h
      cases h
    | ok next =>
      rw [hstep] at h
      cases hrest : parsePathLoop P.interpreter (cs.length + 1) cs.length next.2 with
      | error e =>
        have h' : (do
            let steps ← parsePathLoop P.interpreter (cs.length + 1) cs.length next.2
            Except.ok (next.1 :: steps)) = Except.ok [] := h
        rw [hrest] at h'
        cases h'
      | ok steps =>
        have h' : (do
            let steps ← parsePathLoop P.interpreter (cs.length + 1) cs.length next.2
            Except.ok (next.1 :: steps)) = Except.ok [] := h
        rw [hrest] at h'
        cases h'

/-- Without the buffer, the validation stores no word. -/
theorem validateExpression_bare (source : Bytes) (c : Checksum) (s : ExpressionCelltype)
    (steps : List PathStep) (t : ExpressionCelltype) :
    ((validateExpression L c none s steps t).exec source known).2 = known := by
  have hensure := @exec_ensureHashType_none L known source c
  cases s with
  | ordinary s =>
    cases t with
    | ordinary t => rw [exec_validateExpression source c none s steps t hensure]
    | _ => exact congrArg Prod.snd hensure
  | _ => exact congrArg Prod.snd hensure

/-- The check of the result's checksum -/
def checkedResult (L : Libraries) (r : Option Converted) : Option Converted :=
  r.bind fun r => if r.2.any fun b => L.sha256 b ≠ r.1 then none else some r

/-- An evaluation gives what the conversion gives, if it passes the check. -/
theorem evaluateConversion_gives (hkey : key.inputChecksum = L.sha256 b) {s t : Celltype}
    (hs : key.inputCelltype = ordinary s) (ht : key.celltype = ordinary t) {r : Option Converted}
    (hgives : L.Gives known b (L.convertChecksum (L.sha256 b) s t) r) :
    evaluateConversion P known key (some b) member = checkedResult L r := by
  -- with the source there, the lazy run ends as the eager one
  have hrun : (run (some b) (convertChecksum L (L.sha256 b) (ordinary s) (ordinary t))
      (.start known)).1 = Outcome.ofOption r := by
    show (run (some b) (L.convertChecksum (L.sha256 b) s t) (.start known)).1 = _
    rw [(run_eq_exec b _ known).1, hgives.1]
  unfold evaluateConversion
  rw [hs, ht, hkey, if_neg (by simp), hrun]
  cases r <;> rfl

/-- Where no word is stored, or the own one that is right, the content is converted. -/
theorem straight_of_own (hL : L.JsonLaws) (hK : L.Good known) {s t : Celltype}
    (hown : known (L.sha256 b) = none ∨
      known (L.sha256 b) = some (L.fromBuffer b) ∧ ¬ Unread L b s t) :
    Straight (L := L) known b s t := by
  have hplainly := fun t => plainly_of_own (L := L) (hown.imp_right And.left) t
  rcases hown with hnone | ⟨-, hunread⟩
  · exact straight_of_plainly hplainly (backed_of_none hnone) s t
  · cases s with
    | bytes =>
      cases t with
      | binary => exact fun _ => hplainly .binary
      | mixed =>
        exact backed_of_readable hL hK fun _ hread => hunread ⟨hread, .inl ⟨rfl, rfl⟩⟩
      | _ => exact hplainly .bytes
    | mixed =>
      cases t with
      | binary =>
        exact ⟨hplainly .binary,
          backed_of_readable hL hK fun _ hread => hunread ⟨hread, .inr ⟨rfl, rfl⟩⟩⟩
      | bytes => exact hplainly _
      | _ => exact hplainly .mixed
    | _ => exact hplainly _

/-- With its own word stored, an array that only `np.load` reads is kept. -/
theorem convertChecksum_of_unread (hC : L.CollisionFree) (hK : L.Good known)
    (hown : known (L.sha256 b) = some (L.fromBuffer b)) {s t : Celltype} (h : Unread L b s t) :
    L.Gives known b (L.convertChecksum (L.sha256 b) s t) (some (L.kept b)) := by
  obtain ⟨hread, ⟨rfl, rfl⟩ | ⟨rfl, rfl⟩⟩ := h
  · -- the own word proves the celltype, so the array is not read
    have hproof := L.proves_of_unreadable hC.constants hread (.inr rfl)
    exact convertChecksum_of_misled hC hK ⟨hread, _, hown, hproof⟩
  · have hproof := L.proves_of_unreadable hC.constants hread (.inl rfl)
    show L.Gives known b (L.convertStep (L.convertFuel 3) (L.sha256 b) .mixed .binary) _
    unfold convertStep
    rw [Conversion.rule_reinterpret (.mixed, .binary) (by decide)]
    show L.Gives known b (L.reinterpret (L.sha256 b) .binary) _
    unfold reinterpret Gives
    rw [L.notVirtual_of_magic hC.constants hread.1 (by simp)]
    dsimp only
    rw [Prog.exec_bind, exec_validate_none, hown]
    simp only [Option.any_some, hproof, Option.some.injEq, Bool.true_eq_false, decide_false,
      Bool.false_eq_true, if_false, decide_true, if_true]
    exact ⟨rfl, hK⟩

/-- Its content is not kept. -/
theorem content_of_unread (hW : L.WriteLaws) (hC : L.CollisionFree) {s t : Celltype}
    (h : Unread L b s t) : (L.convertContent b s t).map Prod.fst ≠ some (L.sha256 b) := by
  obtain ⟨hread, ⟨rfl, rfl⟩ | ⟨rfl, rfl⟩⟩ := h
  · exact content_of_unreadable hW hC hread
  · have hpair : (Celltype.mixed, Celltype.binary) ∉ Conversion.forbiddenPairs := by decide
    have hnone : L.contentValue b .binary = none :=
      L.not_parsed_of_unreadable hC.constants hread (.inl rfl)
    unfold convertContent
    rw [if_neg hpair]
    show (L.convertContentStep (L.convertContentFuel 3) b .mixed .binary).map _ ≠ _
    unfold convertContentStep
    rw [Conversion.rule_reinterpret (.mixed, .binary) (by decide)]
    show ((L.contentValue b .binary).map _).map _ ≠ _
    rw [hnone]
    simp

/-- Its own word admits it. -/
theorem admits_of_unread (hC : L.CollisionFree) {s t : Celltype} (h : Unread L b s t) :
    Admits L (L.fromBuffer b) (L.sha256 b) s [] t := by
  obtain ⟨hread, ht⟩ := h
  have hvirtual := L.notVirtual_of_magic hC.constants hread.1 (t := .binary) (by simp)
  have hnull := L.not_null_of_notVirtual hvirtual
  rcases ht with ⟨rfl, rfl⟩ | ⟨rfl, rfl⟩
  · have hsource : L.deserializableAs (L.fromBuffer b) .bytes (L.sha256 b) ≠ some false := by
      simp [deserializableAs, hnull]
    refine ⟨hsource, by simp [validatePathCapability, vetSteps], fun _ => ?_⟩
    rw [feasible_bytes (.inr rfl) hnull hsource]
    simp
  · have hsource : L.deserializableAs (L.fromBuffer b) .mixed (L.sha256 b) ≠ some false := by
      rw [L.proves_of_unreadable hC.constants hread (.inr rfl)]
      simp
    refine ⟨hsource, by simp [validatePathCapability, vetSteps], fun _ => ?_⟩
    rw [feasible_mixed_binary hnull hsource, L.proves_of_unreadable hC.constants hread (.inl rfl)]
    simp

/-- Without a stored word it is read. -/
theorem needs_of_unread (hC : L.CollisionFree) (hstored : known (L.sha256 b) = none)
    {s t : Celltype} (h : Unread L b s t) :
    (L.convertChecksum (L.sha256 b) s t).needs known = true := by
  obtain ⟨hread, ⟨rfl, rfl⟩ | ⟨rfl, rfl⟩⟩ := h
  · show (L.bytesToMixed (L.sha256 b)).needs known = true
    unfold bytesToMixed
    rw [L.notVirtual_of_magic hC.constants hread.1 (by simp)]
    dsimp only
    rw [Prog.needs_bind [], exec_ensureHashType_none, hstored, Bool.or_eq_true]
    exact .inr rfl
  · show (L.reinterpret (L.sha256 b) .binary).needs known = true
    unfold reinterpret
    rw [L.notVirtual_of_magic hC.constants hread.1 (by simp)]
    dsimp only
    rw [Prog.needs_bind [], exec_validate_none, hstored, Bool.or_eq_true]
    exact .inr rfl

/-- A conversion of another source than checksums passes the check. -/
theorem checkedResult_isSome (hL : L.JsonLaws) (hW : L.WriteLaws) (hC : L.CollisionFree)
    {s t : Celltype} (hs : s ≠ .checksum) :
    (checkedResult L (L.convertContent b s t)).isSome = (L.convertContent b s t).isSome := by
  cases hcontent : L.convertContent b s t with
  | none => rfl
  | some r =>
    have hgood : L.Good fun _ => none := fun _ _ h => by cases h
    have hgives := (convertChecksum_gives hL hW hC hgood (straight_of_own hL hgood (.inl rfl))
      (b := b) (s := s) (t := t)).1
    rw [hcontent] at hgives
    unfold Libraries.convertChecksum at hgives
    split at hgives
    · cases hgives
    · -- a program that has no checksum to return keeps the source or makes a buffer
      have hends := Prog.exec_returns (L.convertFuel_ends 4 (L.sha256 b) t hs) hgives
      unfold checkedResult
      rw [Option.bind_some]
      rcases hends with rfl | ⟨b', rfl⟩ <;> simp

/-- A deep index does not depend on whether the own word is stored. -/
theorem deepIndex_learn (hstored : known (L.sha256 b) = none) :
    deepIndex (L := L) (L.learn known b) b = deepIndex (L := L) known b := by
  unfold deepIndex
  rw [L.learn_self, hstored]
  rfl

/-- Of the deep pairs, only that of a folder with its members needs a buffer. -/
theorem folder_of_needs {c : Checksum} {s t : ExpressionCelltype}
    (hneeds : (convertChecksum L c s t).needs known = true) (hdeep : s.isDeep || t.isDeep) :
    (s, t) = (folder, ordinary .mixed) ∧ c ∉ L.nullChecksums := by
  have hconvert : convertChecksum L c s t = convertDeep L c s t := by
    cases s with
    | ordinary s =>
      cases t with
      | ordinary t => cases hdeep
      | _ => rfl
    | _ => rfl
  rw [hconvert] at hneeds
  unfold convertDeep at hneeds
  split at hneeds
  · cases hneeds
  next hlegal =>
    split at hneeds
    · cases hneeds
    next hkeep =>
      simp only [not_or] at hkeep
      refine ⟨?_, hkeep.1⟩
      simp only [legalDeepPair, Bool.not_eq_false, decide_eq_true_eq] at hlegal
      tauto

/-- With a path, both evaluators have the buffer from the start. -/
theorem agree_of_steps {steps : List PathStep} (hsteps : steps ≠ []) :
    evaluateUnshared P known key steps b member = evaluatePrefetched P known key steps b member := by
  have hneeds : System.needsInput L known key steps = true := by simp [System.needsInput, hsteps]
  unfold evaluateUnshared evaluatePrefetched membersFetched
  simp [hsteps, hneeds]

theorem needsInput_iff : System.needsInput L known key [] = true ↔
    key.inputCelltype ≠ key.celltype ∧
      isNull L (canonicalizeChecksum L key.inputChecksum key.celltype) = false ∧
      (convertChecksum L key.inputChecksum key.inputCelltype key.celltype).needs known = true := by
  rw [← conversionNeedsBuffer_eq]
  simp [System.needsInput]

/-- A conversion of something else than null -/
theorem evaluate_conversion {input : Option Bytes} (hsame : key.inputCelltype ≠ key.celltype)
    (hnull : isNull L (canonicalizeChecksum L key.inputChecksum key.celltype) = false) :
    evaluateAfterValidation P known key [] input member =
      evaluateConversion P known key input member := by
  simp [evaluateAfterValidation, hsame, hnull]

/-- An evaluation that needs no buffer does not depend on it. -/
theorem evaluate_of_not_needed (hneeds : System.needsInput L known key [] = false)
    (hpath : key.path = []) (hfolder : (key.inputCelltype, key.celltype) ≠ (folder, ordinary .mixed) ∨
      isNull L key.inputChecksum = true) :
    evaluateAfterValidation P known key [] (some b) member =
      evaluateAfterValidation P known key [] none member := by
  by_cases hnull : isNull L (canonicalizeChecksum L key.inputChecksum key.celltype) = true
  · simp [evaluateAfterValidation, hnull]
  by_cases hsame : key.inputCelltype = key.celltype
  · simp [evaluateAfterValidation, hsame, hpath]
  have hnull' : isNull L (canonicalizeChecksum L key.inputChecksum key.celltype) = false := by
    simpa using hnull
  rw [evaluate_conversion hsame hnull', evaluate_conversion hsame hnull']
  have hdry : (convertChecksum L key.inputChecksum key.inputCelltype key.celltype).needs known =
      false := by
    by_contra hdry
    rw [needsInput_iff.mpr ⟨hsame, hnull', by simpa using hdry⟩] at hneeds
    cases hneeds
  unfold evaluateConversion
  rw [run_of_not_needed hdry b]
  split
  next hmixed =>
    -- a null folder was answered before
    rcases hfolder with hfolder | hfolder
    · exact absurd hmixed hfolder
    · rw [(Prod.mk.inj hmixed).2] at hnull
      exact absurd hfolder hnull
  next => rfl

/-- The null without a newline is no index. -/
theorem deepIndex_null (h : L.sha256 b ∈ L.nullChecksums) : deepIndex (L := L) known b = none := by
  unfold deepIndex parseBuffer
  rw [L.virtualValue_null h]
  rfl

/-- Where no buffer is needed, both evaluators go without. -/
theorem agree_of_not_needed (hneeds : System.needsInput L known key [] = false)
    (hpath : key.path = []) (hkey : key.inputChecksum = L.sha256 b) :
    evaluateUnshared P known key [] b member = evaluatePrefetched P known key [] b member := by
  have hknown := @validateExpression_bare L known b key.inputChecksum
    key.inputCelltype [] key.celltype
  unfold evaluateUnshared evaluatePrefetched
  simp only [hneeds, Bool.false_eq_true, if_false, if_true]
  cases hexec : (validateExpression L key.inputChecksum none key.inputCelltype [] key.celltype).exec
    b known with
  | mk verdict known' =>
    rw [hexec] at hknown
    have hknown' : known' = known := hknown
    rw [hknown']
    cases verdict with
    | none => rfl
    | some word =>
      dsimp only
      by_cases hfolder : (key.inputCelltype, key.celltype) = (folder, ordinary .mixed) ∧
          isNull L key.inputChecksum = false
      · obtain ⟨hpair, hnull⟩ := hfolder
        obtain ⟨hs, ht⟩ := Prod.mk.inj hpair
        have hcanonical : isNull L (canonicalizeChecksum L key.inputChecksum key.celltype) = false := by
          rw [ht]
          exact hnull
        -- the checksum is the other null, as no buffer is needed
        have hmem : L.sha256 b ∈ L.nullChecksums := by
          by_contra hmem
          have hdry : (convertChecksum L key.inputChecksum key.inputCelltype
              key.celltype).needs known = true := by
            rw [hs, ht, hkey]
            show (convertDeep L (L.sha256 b) folder (ordinary .mixed)).needs known = true
            unfold convertDeep
            rw [if_neg (by decide), if_neg (by simp [hmem, deepFreeConversions])]
            rfl
          rw [needsInput_iff.mpr ⟨by simp [hs, ht], hcanonical, hdry⟩] at hneeds
          cases hneeds
        have hmissing : membersFetched (L := L) known key [] none member = false := by
          unfold membersFetched
          rw [if_pos ⟨rfl, hpair, hnull⟩]
          rfl
        rw [evaluate_conversion (by simp [hs, ht]) hcanonical, hmissing]
        simp [hpair, evaluateConversion, folderToMixed, deepIndex_null hmem]
      · have hfetched : membersFetched (L := L) known key [] none member = true := by
          unfold membersFetched
          exact if_neg fun h => hfolder h.2
        rw [hfetched, if_pos rfl, evaluate_of_not_needed hneeds hpath]
        by_cases hpair : (key.inputCelltype, key.celltype) = (folder, ordinary .mixed)
        · right
          simpa using fun hnull => hfolder ⟨hpair, hnull⟩
        · exact .inl hpair

/-- A folder without one of its members is not converted. -/
theorem folderToMixed_fetched (hstep : (key.inputCelltype, key.celltype) = (folder, ordinary .mixed))
    (hnull : isNull L key.inputChecksum = false) :
    (if membersFetched (L := L) known key [] (some b) member then
      folderToMixed P known (some b) member else none) = folderToMixed P known (some b) member := by
  have hfetched : membersFetched (L := L) known key [] (some b) member =
      match deepIndex (L := L) known b with
      | none => false
      | some index => index.all fun m => (member m.2).isSome := by
    unfold membersFetched
    rw [if_pos ⟨rfl, hstep, hnull⟩]
    rfl
  rw [hfetched]
  unfold folderToMixed
  cases hindex : deepIndex (L := L) known b with
  | none => simp [hindex]
  | some index =>
    dsimp only
    split
    next => rfl
    next hmissing =>
      -- one missing member ends the loop
      have hnone : ∀ index : List (PyStr × Checksum),
          index.all (fun m => (member m.2).isSome) = false →
          index.mapM (fun m => (member m.2).map fun b =>
            ((.str m.1, .array (P.bytesArray b)) : L.Value × L.Value)) = none := by
        intro index
        induction index with
        | nil => simp
        | cons m index ih =>
          intro hall
          rw [List.mapM_cons]
          cases hm : member m.2 with
          | none => rfl
          | some buffer =>
            simp only [List.all_cons, hm, Option.isSome_some, Bool.true_and] at hall
            simp [ih hall]
      simp [hindex, hnone index (by simpa using hmissing)]

/-- A deep pair that needs the buffer is a folder with its members. -/
theorem agree_of_deep (hneeds : System.needsInput L known key [] = true) (hK : L.Good known)
    (hkey : key.inputChecksum = L.sha256 b)
    (hdeep : key.inputCelltype.isDeep || key.celltype.isDeep) :
    evaluateUnshared P known key [] b member = evaluatePrefetched P known key [] b member := by
  obtain ⟨hsame, hnull, hconversion⟩ := needsInput_iff.mp hneeds
  obtain ⟨hpair, -⟩ := folder_of_needs hconversion hdeep
  obtain ⟨hs, ht⟩ := Prod.mk.inj hpair
  have hnull' : isNull L key.inputChecksum = false := by
    rw [ht] at hnull
    exact hnull
  have hfolder : ∀ known', evaluateAfterValidation P known' key [] (some b) member =
      folderToMixed P known' (some b) member := by
    intro known'
    rw [evaluate_conversion hsame hnull]
    simp [evaluateConversion, hpair]
  -- the validation stores a word only when it is given the buffer
  have hbare : (validateExpression L key.inputChecksum none key.inputCelltype [] key.celltype).exec
      b known = (some (known (L.sha256 b)), known) := by
    rw [hs, ht, hkey]
    exact exec_ensureHashType_none (L := L) b (L.sha256 b)
  have hbuffer : (validateExpression L key.inputChecksum (some b) key.inputCelltype []
      key.celltype).exec b known =
      (some (some ((known (L.sha256 b)).getD (L.fromBuffer b))),
        if known (L.sha256 b) = none then L.learn known b else known) := by
    rw [hs, ht, hkey]
    exact exec_ensureHashType_buffer hK b b
  -- the index does not depend on that word
  have hindex : deepIndex (L := L) (if known (L.sha256 b) = none then L.learn known b else known) b =
      deepIndex (L := L) known b := by
    split
    next hstored => exact deepIndex_learn hstored
    next => rfl
  unfold evaluateUnshared evaluatePrefetched
  simp only [hneeds, if_true]
  rw [hbare, hbuffer]
  dsimp only
  rw [hfolder, hfolder]
  generalize (if known (L.sha256 b) = none then L.learn known b else known) = known' at hindex
  have hfetched := @folderToMixed_fetched L P known' key b member hpair hnull'
  have hequal : folderToMixed P known' (some b) member = folderToMixed P known (some b) member := by
    unfold folderToMixed
    show (deepIndex (L := L) known' b >>= _) = (deepIndex (L := L) known b >>= _)
    rw [hindex]
  rw [← hequal]
  split
  next => rfl
  next hmissing =>
    rw [if_neg hmissing] at hfetched
    rw [← hfetched]
    rfl

/-- With a stored word, both evaluators validate against it. -/
theorem agree_of_stored {s t : Celltype} (hneeds : System.needsInput L known key [] = true)
    (hs : key.inputCelltype = ordinary s) (ht : key.celltype = ordinary t) {word : HashType}
    (hstored : known key.inputChecksum = some word) :
    evaluateUnshared P known key [] b member = evaluatePrefetched P known key [] b member := by
  have hbare := exec_validateExpression b key.inputChecksum none s [] t
    (@exec_ensureHashType_none L known b key.inputChecksum)
  have hensure : (L.ensureHashType key.inputChecksum (some b)).exec b known =
      (some (some word), known) := by
    unfold ensureHashType
    rw [Prog.exec_ask, hstored]
    rfl
  have hbuffer := exec_validateExpression b key.inputChecksum (some b) s [] t hensure
  rw [hstored] at hbare
  have hfetched : ∀ known', membersFetched (L := L) known' key [] (some b) member = true := by
    intro known'
    unfold membersFetched
    exact if_neg fun h => by simp [hs] at h
  unfold evaluateUnshared evaluatePrefetched
  simp only [hneeds, if_true, hs, ht]
  rw [hbare, hbuffer]
  split
  next => rfl
  next => rw [hfetched, if_pos rfl]

/-- With no word stored, only the asynchronous evaluator learns the own one, checks it and
converts with it. -/
theorem agree_of_unknown (hL : L.JsonLaws) (hW : L.WriteLaws) (hC : L.CollisionFree)
    (hK : L.Good known) {s t : Celltype} (hneeds : System.needsInput L known key [] = true)
    (hs : key.inputCelltype = ordinary s) (ht : key.celltype = ordinary t)
    (hkey : key.inputChecksum = L.sha256 b) (hstored : known (L.sha256 b) = none) :
    evaluateUnshared P known key [] b member =
        (checkedResult L (L.convertContent b s t)).map Prod.fst ∧
      ∀ r, L.Gives (L.learn known b) b (L.convertChecksum (L.sha256 b) s t) r →
        evaluatePrefetched P known key [] b member =
          if Admits L (L.fromBuffer b) (L.sha256 b) s [] t then
            (checkedResult L r).map Prod.fst else none := by
  obtain ⟨hsame, hnull, -⟩ := needsInput_iff.mp hneeds
  have hbare := exec_validateExpression b (L.sha256 b) none s [] t
    (@exec_ensureHashType_none L known b (L.sha256 b))
  have hbuffer := exec_validateExpression b (L.sha256 b) (some b) s [] t
    (exec_ensureHashType_buffer hK b b)
  simp only [hstored, Option.getD_none, if_true, Option.some.injEq, forall_eq', reduceCtorEq,
    false_implies, implies_true] at hbare hbuffer
  have hfetched : ∀ known', membersFetched (L := L) known' key [] (some b) member = true := by
    intro known'
    unfold membersFetched
    exact if_neg fun h => by simp [hs] at h
  have hplain := @evaluateConversion_gives L P known key b member hkey s t hs ht _
    (convertChecksum_gives hL hW hC hK (straight_of_own hL hK (.inl hstored)))
  unfold evaluateUnshared evaluatePrefetched
  simp only [hneeds, if_true, hs, ht, hkey]
  rw [hbare, hbuffer]
  dsimp only
  rw [evaluate_conversion hsame hnull, hplain]
  refine ⟨rfl, fun r hgives => ?_⟩
  by_cases hadmits : Admits L (L.fromBuffer b) (L.sha256 b) s [] t
  · rw [if_pos hadmits, if_pos hadmits]
    dsimp only
    rw [hfetched, if_pos rfl, evaluate_conversion hsame hnull,
      evaluateConversion_gives hkey hs ht hgives]
  · rw [if_neg hadmits, if_neg hadmits]

/-- What is overlooked has a legal shape. -/
theorem shape_of_overlooked {recorded : Option Checksum} (h : Overlooked L recorded known key b) :
    validateExpressionShape L P key.path key.inputCelltype key.celltype = true ∧
      parsePath P.interpreter key.path = .ok [] := by
  obtain ⟨-, hpath, -, s, t, hs, ht, hpair⟩ := h
  have hparse : parsePath P.interpreter key.path = .ok [] := by
    rw [hpath]
    rfl
  refine ⟨?_, hparse⟩
  unfold validateExpressionShape
  rw [hparse, hs, ht]
  rcases hpair with ⟨hpair, -⟩ | ⟨rfl, htarget, -⟩ | ⟨-, htarget⟩
  · simpa using (viaPlain_rule (s, t) hpair).1
  · rcases htarget with rfl | rfl <;> decide
  · rcases htarget with ⟨rfl, rfl⟩ | ⟨rfl, rfl⟩ <;> decide

/-- What is overlooked needs the buffer. -/
theorem needsInput_of_overlooked (hL : L.JsonLaws) (hC : L.CollisionFree)
    {recorded : Option Checksum} (hkey : key.inputChecksum = L.sha256 b)
    (h : Overlooked L recorded known key b) : System.needsInput L known key [] = true := by
  obtain ⟨-, -, hstored, s, t, hs, ht, hpair⟩ := h
  have hconversion : (L.convertChecksum (L.sha256 b) s t).needs known = true := by
    rcases hpair with hplain | hroot | hunread
    · exact needs_of_refused hL hC hstored (.inl hplain)
    · exact needs_of_refused hL hC hstored (.inr hroot)
    · exact needs_of_unread hC hstored hunread
  have htarget : t ≠ .bytes ∧ s ≠ t := by
    rcases hpair with ⟨hmem, -⟩ | ⟨rfl, htarget, -⟩ | ⟨-, ⟨rfl, rfl⟩ | ⟨rfl, rfl⟩⟩
    · obtain ⟨-, -, htarget, hsource⟩ := viaPlain_rule (s, t) hmem
      simp only [List.mem_cons, List.not_mem_nil, or_false] at hsource
      rcases htarget with rfl | rfl <;> rcases hsource with rfl | rfl | rfl | rfl <;> simp
    · rcases htarget with rfl | rfl <;> simp
    · simp
    · simp
  have hnull : L.sha256 b ∉ L.nullChecksums := by
    rcases hpair with ⟨-, hfalse, -⟩ | ⟨-, -, hmixed, -⟩ | ⟨hread, -⟩
    · exact L.not_null_of_disproof hfalse
    · exact not_null_of_isMixed hC hmixed
    · exact L.not_null_of_notVirtual
        (L.notVirtual_of_magic hC.constants hread.1 (t := .binary) (by simp))
  refine needsInput_iff.mpr ⟨by simp [hs, ht, htarget.2], ?_, ?_⟩
  · have hcanonical : canonicalizeChecksum L key.inputChecksum key.celltype = L.sha256 b := by
      unfold canonicalizeChecksum
      rw [ht, if_neg (by simp [htarget.1]), hkey]
    unfold isNull
    rw [hcanonical, decide_eq_false_iff_not]
    intro heq
    exact hnull (heq ▸ List.mem_map_of_mem (by decide))
  · rw [hs, ht, hkey]
    exact hconversion

/-- Without a stored word, the evaluators agree unless the word is overlooked. -/
theorem agree_iff_of_unknown (hL : L.JsonLaws) (hW : L.WriteLaws) (hR : L.RootLaws)
    (hC : L.CollisionFree) (hK : L.Good known) {s t : Celltype}
    (hneeds : System.needsInput L known key [] = true) (hs : key.inputCelltype = ordinary s)
    (ht : key.celltype = ordinary t) (hkey : key.inputChecksum = L.sha256 b)
    (hstored : known (L.sha256 b) = none) :
    evaluateUnshared P known key [] b member = evaluatePrefetched P known key [] b member ↔
      ¬ (PlainScalar L b s t ∨ L.RootScalar b s t ∨ Unread L b s t) := by
  obtain ⟨hsync, hasync⟩ := @agree_of_unknown L P known key b member hL hW hC hK s t hneeds hs ht
    hkey hstored
  have hlearned := good_learn hC hK b
  by_cases hunread : Unread L b s t
  · -- only the asynchronous evaluator keeps the buffer
    rw [hsync, hasync _ (convertChecksum_of_unread hC hlearned (L.learn_self known b) hunread),
      if_pos (admits_of_unread hC hunread)]
    refine iff_of_false (fun heq => content_of_unread hW hC hunread ?_) fun h =>
      h (.inr (.inr hunread))
    have hkept : (checkedResult L (some (L.kept b))).map Prod.fst = some (L.sha256 b) := rfl
    rw [hkept] at heq
    obtain ⟨r, hr, hsha⟩ := Option.map_eq_some_iff.mp heq
    obtain ⟨r', hr', hchecked⟩ := Option.bind_eq_some_iff.mp hr
    split at hchecked
    · cases hchecked
    · rw [hr', ← hsha, Option.some.inj hchecked]
      rfl
  rw [hsync, hasync _ (convertChecksum_gives hL hW hC hlearned
    (straight_of_own hL hlearned (.inr ⟨L.learn_self known b, hunread⟩)))]
  rw [← or_assoc, or_iff_left hunread]
  by_cases hoverlooked : PlainScalar L b s t ∨ L.RootScalar b s t
  · -- the content converts, and the own word refuses it
    have hsource : s ≠ .checksum := by
      rcases hoverlooked with ⟨hmem, -⟩ | ⟨rfl, -⟩
      · have hsource := (viaPlain_rule (s, t) hmem).2.2.2
        rintro rfl
        simp at hsource
      · simp
    have hsome : (L.convertContent b s t).isSome = true := by
      rcases hoverlooked with ⟨hmem, -, hvirtual, hconverts⟩ | hroot
      · exact (content_viaPlain hL hmem hvirtual).mpr hconverts
      · exact content_rootScalar hroot
    rw [← checkedResult_isSome hL hW hC hsource] at hsome
    rw [if_neg (not_admits hC hoverlooked), Option.map_eq_none_iff]
    exact iff_of_false (fun hnone => by simp [hnone] at hsome) fun h => h hoverlooked
  · refine iff_of_true ?_ hoverlooked
    split
    next => rfl
    next hrefused =>
      obtain ⟨-, -, hconversion⟩ := needsInput_iff.mp hneeds
      rw [hs, ht, hkey] at hconversion
      rw [content_of_not_admits hL hW hR hC hconversion hrefused hoverlooked]
      rfl

/-- The two local evaluators give the same checksum, or both fail, unless no word
is stored and the buffer's own word would refuse what its content admits, or prove what it
is not. -/
theorem evaluators_agree (hL : L.JsonLaws) (hW : L.WriteLaws) (hR : L.RootLaws)
    (hC : L.CollisionFree) (P : PathLibrary L) (recorded : Option Checksum) (known : Knowledge)
    (hK : L.Good known) (key : ExpressionKey) (b : Bytes) (hkey : key.inputChecksum = L.sha256 b)
    (member : Checksum → Option Bytes) :
    evaluateExpressionLocal P recorded known key b member =
        evaluateExpressionLocalAsync P recorded known key b member ↔
      ¬ Overlooked L recorded known key b := by
  unfold evaluateExpressionLocal evaluateExpressionLocalAsync evaluateLocally
  by_cases hshape : validateExpressionShape L P key.path key.inputCelltype key.celltype = true
  swap
  · have hfalse : validateExpressionShape L P key.path key.inputCelltype key.celltype = false := by
      simpa using hshape
    rw [if_pos hfalse, if_pos hfalse]
    exact iff_of_true rfl fun h => hshape (shape_of_overlooked h).1
  rw [if_neg (by simp [hshape]), if_neg (by simp [hshape])]
  -- the two evaluators differ only behind the shape, the record and the path
  cases recorded with
  | some c => exact iff_of_true rfl (fun h => by cases h.1)
  | none =>
    dsimp only
    cases hparse : parsePath P.interpreter key.path with
    | error e =>
      refine iff_of_true rfl fun h => ?_
      rw [(shape_of_overlooked (P := P) h).2] at hparse
      cases hparse
    | ok steps =>
      dsimp only
      cases steps with
      | cons step steps =>
        refine iff_of_true (agree_of_steps (by simp)) fun h => ?_
        rw [(shape_of_overlooked (P := P) h).2] at hparse
        cases hparse
      | nil =>
        have hpath := path_of_no_steps hparse
        cases hneeds : System.needsInput L known key [] with
        | false =>
          refine iff_of_true (agree_of_not_needed hneeds hpath hkey) fun h => ?_
          rw [needsInput_of_overlooked hL hC hkey h] at hneeds
          cases hneeds
        | true =>
          -- the buffer is needed: one case for deep celltypes, one for each stored word or none
          by_cases hdeep : (key.inputCelltype.isDeep || key.celltype.isDeep) = true
          · refine iff_of_true (agree_of_deep hneeds hK hkey hdeep) fun h => ?_
            obtain ⟨-, -, -, s, t, hs, ht, -⟩ := h
            rw [hs, ht] at hdeep
            cases hdeep
          obtain ⟨s, t, hs, ht⟩ : ∃ s t, key.inputCelltype = ordinary s ∧
              key.celltype = ordinary t := by
            cases hs : key.inputCelltype <;> cases ht : key.celltype <;>
              simp [hs, ht, isDeep] at hdeep ⊢
          cases hstored : known (L.sha256 b) with
          | some word =>
            refine iff_of_true (agree_of_stored hneeds hs ht (hkey ▸ hstored)) fun h => ?_
            rw [h.2.2.1] at hstored
            cases hstored
          | none =>
            rw [agree_iff_of_unknown hL hW hR hC hK hneeds hs ht hkey hstored, not_iff_not]
            constructor
            · exact fun h => ⟨rfl, hpath, hstored, s, t, hs, ht, h⟩
            · rintro ⟨-, -, -, s', t', hs', ht', h⟩
              rw [hs] at hs'
              rw [ht] at ht'
              cases hs'
              cases ht'
              exact h

end

/-! ## §7. A string that is declared a number. -/

/-- Paths of which the interpreter reads the ASCII ones, and values without items -/
def barePaths : PathLibrary small where
  interpreter := asciiInterpreter
  subscript _ _ := none
  field _ _ := none
  bytesArray := small.npBytes

/-- The JSON string `"ab"`, declared an `int`, as text -/
def stringAsInt : ExpressionKey where
  inputChecksum := small.sha256 (ascii "\"ab\"\n")
  path := []
  inputCelltype := ordinary .int
  celltype := ordinary .text

/-- The synchronous evaluator gives the text of a string that is declared a number,
the asynchronous one refuses it. -/
theorem string_as_int :
    evaluateExpressionLocal barePaths none (fun _ => none) stringAsInt (ascii "\"ab\"\n")
        (fun _ => none) = some (small.sha256 (ascii "ab\n")) ∧
      evaluateExpressionLocalAsync barePaths none (fun _ => none) stringAsInt (ascii "\"ab\"\n")
        (fun _ => none) = none := by
  decide +kernel

/-- With its word stored, it is refused by both. -/
theorem evaluators_agree_stored :
    evaluateExpressionLocal barePaths none (small.learn (fun _ => none) (ascii "\"ab\"\n"))
        stringAsInt (ascii "\"ab\"\n") (fun _ => none) =
      evaluateExpressionLocalAsync barePaths none
        (small.learn (fun _ => none) (ascii "\"ab\"\n")) stringAsInt (ascii "\"ab\"\n")
        (fun _ => none) :=
  (evaluators_agree Small.small_jsonLaws Small.small_writeLaws small_rootLaws
    Small.small_collisionFree barePaths none _
    (good_learn Small.small_collisionFree (fun _ _ h => by cases h) (ascii "\"ab\"\n"))
    stringAsInt _ rfl _).mpr
    (fun h => by
      have hstored := h.2.2.1
      rw [small.learn_self] at hstored
      cases hstored)

end SeamlessCore.Expression
