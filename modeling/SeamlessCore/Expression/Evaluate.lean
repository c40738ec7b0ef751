/-
  SeamlessCore.Expression.Evaluate — the evaluation of one Expression.

  An Expression selects a part of its input by a path, or converts the input
  to another celltype.  Its answer is a checksum.  Most evaluations make the
  buffer of their answer; an identity, a conversion that keeps its checksum,
  the dereferencing of a checksum value and the member of a deep cell answer
  with a checksum that exists already, and make none.

  Main definitions:
    * `convertChecksum` — `convert_checksum`, deep celltypes included;
    * `evaluateAfterValidation` — the evaluation;
    * `Passes` — the checksums that are passed on without a buffer.
  Main result:
    * `evaluate_passes` — an answer without a buffer is passed on, or it is
      the input, whose buffer was at hand.

  Source: `seamless/checksum/expression.py`, `convert.py`, `deep.py`.
-/
import SeamlessCore.Expression.Path
import SeamlessCore.Conversion.Keeps

namespace SeamlessCore.Expression

open Python Lazy Libraries

/-! ## §1. Keys. -/

/-- The celltypes of Expressions: `set(celltypes) | _DEEP_CELLTYPES` -/
inductive ExpressionCelltype where
  | ordinary (t : Celltype)
  | deepcell
  | deepfolder
  | folder
  deriving DecidableEq

namespace ExpressionCelltype

/-- `celltype in _DEEP_CELLTYPES` -/
def isDeep : ExpressionCelltype → Bool
  | ordinary _ => false
  | _ => true

/-- `_DEEP_FREE_CONVERSIONS` -/
def deepFreeConversions : List (ExpressionCelltype × ExpressionCelltype) :=
  [(deepcell, ordinary .plain), (deepfolder, ordinary .plain), (folder, deepfolder),
    (deepfolder, folder), (deepcell, deepfolder)]

end ExpressionCelltype

open ExpressionCelltype

/-- `ExpressionKey` -/
structure ExpressionKey where
  inputChecksum : Checksum
  path : PyStr
  inputCelltype : ExpressionCelltype
  celltype : ExpressionCelltype
  deriving DecidableEq

/-- What the evaluation of a path imports. -/
structure PathLibrary (L : Libraries) where
  interpreter : Interpreter
  /-- `value[payload]` -/
  subscript : L.Value → PathStep → Option L.Value
  /-- A field of a structured array. -/
  field : L.Array → PyStr → Option L.Value
  /-- `np.frombuffer(content, dtype="S1")` -/
  bytesArray : Bytes → L.Array

section

variable (L : Libraries)

/-- `canonicalize_checksum(checksum, celltype)` -/
def canonicalizeChecksum (c : Checksum) (t : ExpressionCelltype) : Checksum :=
  if t = ordinary .bytes ∧ c = L.sha256 [] then L.sha256 nullBuffer else c

/-- `is_null(checksum)` -/
def isNull (c : Checksum) : Bool := c = L.sha256 nullBuffer

/-- `ExpressionKey(input_checksum, path, input_celltype, celltype)` -/
def ExpressionKey.make (input : Checksum) (path : PyStr) (s t : ExpressionCelltype) :
    ExpressionKey :=
  ⟨canonicalizeChecksum L input s, path, s, t⟩

/-! ## §2. Conversions. -/

/-- A pair with a deep celltype that can be converted at all -/
def legalDeepPair (s t : ExpressionCelltype) : Bool :=
  s = t ∨ (s, t) ∈ deepFreeConversions ∨ (s, t) = (folder, ordinary .mixed)

/-- `convert_checksum` of a pair with a deep celltype -/
def convertDeep (c : Checksum) (s t : ExpressionCelltype) : Conv Converted :=
  if legalDeepPair s t = false then .fail
  else if c ∈ L.nullChecksums ∨ s = t ∨ (s, t) ∈ deepFreeConversions then return (c, none)
  else do
    let index ← getBuffer
    let value ← L.parseBufferStored index (L.sha256 index) .plain
    let members ← .ofOption (L.pyBool value)
    -- an index with members needs their buffers
    if members then .fail else L.valueResult (.dict []) .mixed

/-- `convert_checksum(checksum, source, target, get_buffer)` -/
def convertChecksum (c : Checksum) : ExpressionCelltype → ExpressionCelltype → Conv Converted
  | ordinary s, ordinary t => L.convertChecksum c s t
  | s, t => convertDeep L c s t

/-- `conversion_needs_buffer(checksum, source, target)` -/
def conversionNeedsBuffer (known : Knowledge) (c : Checksum) (s t : ExpressionCelltype) : Bool :=
  match (run none (convertChecksum L c s t) (.start known)).1 with
  | .stopped => true
  | _ => false

/-! ## §3. Shapes. -/

/-- `Illegal path step`: what the loop over the steps refuses -/
def legalSteps : ExpressionCelltype → List PathStep → Bool
  | _, [] => true
  | current, step :: steps =>
    let isName : Bool := match step with
      | .item (.str _) => true
      | _ => false
    let isItem : Bool := match step with
      | .item _ => true
      | _ => false
    if current ∈ [ordinary .plain, ordinary .mixed, ordinary .binary] then true
    else if current ∈ [ordinary .int, ordinary .float, ordinary .bool, ordinary .checksum] ∨
        isName then false
    else legalSteps (if current = ordinary .bytes ∧ isItem then ordinary .int else current) steps

/-- The one step into a deep cell -/
def legalDeepPath (s t : ExpressionCelltype) (steps : List PathStep) : Bool :=
  let member := if s = deepcell then ordinary .mixed else ordinary .bytes
  match steps with
  | [.item (.str _)] => s.isDeep ∧ (t = member ∨ t = ordinary .checksum)
  | _ => false

/-- `validate_expression_shape(path, source, target)` does not raise. -/
def validateExpressionShape (P : PathLibrary L) (path : PyStr) (s t : ExpressionCelltype) : Bool :=
  match parsePath P.interpreter path with
  | .error _ => false
  | .ok steps =>
    if steps = [] then
      match s, t with
      | ordinary s, ordinary t => (s, t) ∉ Conversion.forbiddenPairs
      | s, t => legalDeepPair s t
    else if s.isDeep || t.isDeep then legalDeepPath s t steps
    else legalSteps s steps

/-! ## §4. Values. -/

variable {L}

/-- A member of a deep index -/
def deepMember : L.Value → Option Checksum
  | .checksum c => some c
  | .str s => if s.length = 64 ∧ s.all (· ∈ py "0123456789abcdef") then Checksum.ofStr s else none
  | _ => none

/-- `validate_deep_structure(value)` -/
def validateDeepStructure : L.Value → Option (List (PyStr × Checksum))
  | .dict items => items.mapM fun
    | (.str key, member) => (deepMember member).map fun c => (key, c)
    | _ => none
  | _ => none

/-- `buffer.get_value(celltype)` of a deep index -/
def deepIndex (known : Knowledge) (b : Bytes) : Option (List (PyStr × Checksum)) :=
  (L.parseBuffer (known (L.sha256 b)) b (L.sha256 b) .plain).bind validateDeepStructure

/-- `_deserialize_for_expression(buffer, input_celltype)` -/
def deserializeForExpression (known : Knowledge) (b : Bytes) : ExpressionCelltype → Option L.Value
  | ordinary .bytes => some (.bytes (if b = nullBuffer then [] else b))
  | ordinary t => L.parseBuffer (known (L.sha256 b)) b (L.sha256 b) t
  | _ => (deepIndex (L := L) known b).map fun index =>
      .dict (index.map fun m => (.str m.1, .checksum m.2))

/-- `_serialize_expression_result(value, celltype)` -/
def serializeExpressionResult (v : L.Value) (t : Celltype) : Option Bytes :=
  match v, t with
  | .bytes b, .binary => L.serialize (.array (L.npBytes b)) .binary
  | v, t => (L.serialize v t).filter fun b => t ≠ .binary || startsWith b magicNumpy

/-- `_apply_step(value, step)` -/
def applyStep (P : PathLibrary L) (v : L.Value) : PathStep → Option L.Value
  | .item (.str key) =>
    match v with
    | .dict items => L.dictGet items key
    | .array a => if L.dtypeHasFields a then P.field a key else none
    -- never an attribute of the value
    | _ => none
  | step => P.subscript v step

/-- `Cannot apply a path to a binary scalar` -/
def isBinaryScalar (v : L.Value) (steps : List PathStep) : Bool :=
  let named : Bool := steps.all fun
    | .item (.str _) => true
    | _ => false
  match v with
  | .array a => L.ndim a = 0 ∧ ¬ (L.dtypeHasFields a ∧ named)
  | _ => true

/-! ## §5. The evaluation. -/

/-- The member of a deep cell; its buffer is not asked for. -/
def pickMember (P : PathLibrary L) (known : Knowledge) (v : L.Value) (step : PathStep)
    (t : ExpressionCelltype) : Option Converted :=
  match applyStep P v step, t with
  | some (.checksum child), ordinary t =>
    -- `validate_deserializable_as(child, celltype)`
    if (known child).any fun h => L.deserializableAs h t child = some false then none
    else some (child, none)
  | _, _ => none

/-- The part of `_evaluate_expression_after_validation` for a path -/
def evaluatePath (P : PathLibrary L) (known : Knowledge) (key : ExpressionKey)
    (steps : List PathStep) (b : Bytes) : Option Converted := do
  let value ← deserializeForExpression known b key.inputCelltype
  if key.inputCelltype.isDeep ∧ key.celltype ≠ ordinary .checksum then
    pickMember P known value (← steps.head?) key.celltype
  else if key.inputCelltype = ordinary .binary ∧ isBinaryScalar value steps then none
  else
    let value ← steps.foldlM (applyStep P) value
    match key.celltype with
    | ordinary t =>
      let buffer ← serializeExpressionResult value t
      return (L.sha256 buffer, some buffer)
    | _ => none

/-- A folder with the buffers of its members -/
def folderToMixed (P : PathLibrary L) (known : Knowledge) (input : Option Bytes)
    (member : Checksum → Option Bytes) : Option Converted := do
  let index ← deepIndex (L := L) known (← input)
  let children ← index.mapM fun m => (member m.2).map fun b =>
    ((.str m.1, .array (P.bytesArray b)) : L.Value × L.Value)
  let buffer ← L.serialize (.dict children) .mixed
  return (L.sha256 buffer, some buffer)

/-- The part of `_evaluate_expression_after_validation` for a conversion -/
def evaluateConversion (P : PathLibrary L) (known : Knowledge) (key : ExpressionKey)
    (input : Option Bytes) (member : Checksum → Option Bytes) : Option Converted :=
  if (key.inputCelltype, key.celltype) = (folder, ordinary .mixed) then
    folderToMixed P known input member
  else
    match (run input (convertChecksum L key.inputChecksum key.inputCelltype key.celltype)
      (.start known)).1 with
    -- `Conversion result checksum mismatch`
    | .done r => if r.2.any fun b => L.sha256 b ≠ r.1 then none else some r
    | _ => none

/-- `_evaluate_expression_after_validation`.  `input` is the buffer of the
input, where the evaluation has it, `member` the buffers of members; `none`
stands for an exception. -/
def evaluateAfterValidation (P : PathLibrary L) (known : Knowledge) (key : ExpressionKey)
    (steps : List PathStep) (input : Option Bytes) (member : Checksum → Option Bytes) :
    Option Converted :=
  if steps = [] ∧ isNull L (canonicalizeChecksum L key.inputChecksum key.celltype) then
    some (L.sha256 nullBuffer, some nullBuffer)
  else if key.path = [] ∧ key.inputCelltype = key.celltype then some (key.inputChecksum, none)
  else if steps = [] then evaluateConversion P known key input member
  else input.bind (evaluatePath P known key steps)

/-! ## §6. Answers without a buffer. -/

/-- The checksums that an evaluation answers with and makes no buffer for. -/
inductive Passes (P : PathLibrary L) (known : Knowledge) (key : ExpressionKey)
    (steps : List PathStep) (input : Option Bytes) : Checksum → Prop where
  | identity : key.path = [] → key.inputCelltype = key.celltype →
      Passes P known key steps input key.inputChecksum
  /-- A conversion keeps the checksum and does not read the buffer. -/
  | kept : steps = [] →
      (run none (convertChecksum L key.inputChecksum key.inputCelltype key.celltype)
        (.start known)).1 = .done (key.inputChecksum, none) →
      Passes P known key steps input key.inputChecksum
  | dereferenced (b : Bytes) (c : Checksum) : steps = [] → input = some b →
      key.inputCelltype = ordinary .checksum → (decodeUtf8 b).bind Checksum.ofStr = some c →
      Passes P known key steps input c
  | member (b : Bytes) (value : L.Value) (step : PathStep) (c : Checksum) : input = some b →
      deserializeForExpression known b key.inputCelltype = some value → steps.head? = some step →
      key.inputCelltype.isDeep = true → applyStep P value step = some (.checksum c) →
      Passes P known key steps input c

end

/-! ## §7. Conversions keep their checksum. -/

section

variable (L : Libraries)

theorem rule_checksum : ∀ t : Celltype, t ≠ .checksum →
    Conversion.rule .checksum t = .values := by
  decide +kernel

theorem convertDeep_keeps (c : Checksum) (s t : ExpressionCelltype) :
    (convertDeep L c s t).Returns (Keeps c) := by
  unfold convertDeep
  split
  · trivial
  · split
    · exact keeps_self c
    · apply Prog.returns_seq
      intro index
      apply Prog.returns_seq
      intro value
      apply Prog.returns_seq
      intro members
      split
      · trivial
      · exact Prog.returns_imp (fun _ h => h.keeps) (valueResult_ends L c _ _)

/-! ## §8. Checksum values. -/

/-- Only null has a virtual value as a checksum. -/
theorem virtualValue_checksum (c : Checksum) :
    L.virtualValue c .checksum = .value .none ∨ L.virtualValue c .checksum = .notVirtual := by
  unfold virtualValue
  by_cases hnull : c ∈ L.nullChecksums
  · left
    rw [if_pos hnull]
    rfl
  · right
    rw [if_neg hnull]
    split_ifs <;> first | rfl | contradiction

/-- A checksum value is what the buffer spells. -/
theorem exec_valueOf_checksum {c c' : Checksum} {b : Bytes} {known : Knowledge}
    (h : (Prog.exec b (L.valueOf c .checksum) known).1 = some (.checksum c')) :
    (decodeUtf8 b).bind Checksum.ofStr = some c' := by
  unfold valueOf at h
  rcases virtualValue_checksum L c with hvirtual | hvirtual
  · rw [hvirtual] at h
    cases h
  rw [hvirtual] at h
  dsimp only at h
  rw [Prog.exec_bind] at h
  cases hvalidate : Prog.exec b (L.validateDeserializableAs c .checksum none) known with
  | mk word facts =>
    rw [hvalidate] at h
    cases word with
    | none => cases h
    | some word =>
      have hparse : (L.parseBufferStored b c .checksum).Returns
          fun v => L.parseBody b .checksum = some v := by
        unfold parseBufferStored
        rw [hvirtual]
        apply Prog.returns_seq
        intro word'
        cases L.parseBody b .checksum with
        | none => trivial
        | some v => rfl
      have hbody : L.parseBody b .checksum = some (.checksum c') := Prog.exec_returns hparse h
      obtain ⟨c'', hc'', heq⟩ := Option.map_eq_some_iff.mp hbody
      cases heq
      exact hc''

theorem valueOf_checksum_fetches (c : Checksum) :
    Prog.Fetches (do
      match ← L.valueOf c .checksum with
      | .checksum c' => return ((c', none) : Converted)
      | _ => .fail) := by
  unfold valueOf
  rcases virtualValue_checksum L c with hvirtual | hvirtual
  · rw [hvirtual]
    trivial
  · rw [hvirtual]
    apply Prog.fetches_bind_left
    apply Prog.fetches_bind_right
    intro word
    show Prog.Fetches (Prog.bind (.fetch .ret) _)
    trivial

theorem convertChecksum_checksum (c : Checksum) {t : Celltype} (ht : t ≠ .checksum) :
    L.convertChecksum c .checksum t = (do
      match ← L.valueOf c .checksum with
      | .checksum c' => return ((c', none) : Converted)
      | _ => .fail) := by
  have hallowed : ∀ t : Celltype, (Celltype.checksum, t) ∉ Conversion.forbiddenPairs := by
    decide +kernel
  unfold Libraries.convertChecksum convert
  rw [if_neg (hallowed t)]
  show L.convertStep _ c .checksum t = _
  unfold convertStep
  rw [rule_checksum t ht]
  show L.convertValues c .checksum t = _
  unfold convertValues
  rw [if_neg ht]
  exact if_pos rfl

/-- A checksum value is dereferenced from the buffer, and none is made. -/
theorem run_dereference {c : Checksum} {t : Celltype} (ht : t ≠ .checksum)
    {source : Option Bytes} {known : Knowledge} {r : Converted}
    (h : (run source (L.convertChecksum c .checksum t) (.start known)).1 = .done r) :
    ∃ b, source = some b ∧ (decodeUtf8 b).bind Checksum.ofStr = some r.1 := by
  rw [convertChecksum_checksum L c ht] at h
  cases source with
  | none => exact absurd h (run_fetches (valueOf_checksum_fetches L c) known 0 r)
  | some b =>
    refine ⟨b, rfl, ?_⟩
    rw [(run_eq_exec b _ known).1, Prog.exec_bind] at h
    cases hvalue : Prog.exec b (L.valueOf c .checksum) known with
    | mk v facts =>
      rw [hvalue] at h
      cases v with
      | none => cases h
      | some v =>
        cases v with
        | checksum c' =>
          cases h
          exact exec_valueOf_checksum L (congrArg Prod.fst hvalue)
        | _ => cases h

/-! ## §9. Answers. -/

/-- Ordinary and deep conversions keep the checksum, but for checksum values. -/
theorem convertChecksum_keeps (c : Checksum) {s : ExpressionCelltype} (t : ExpressionCelltype)
    (hs : s ≠ ordinary .checksum) : (convertChecksum L c s t).Returns (Keeps c) := by
  unfold convertChecksum
  split
  next s t =>
    unfold Libraries.convertChecksum convert
    split
    · trivial
    · exact convertFuel_keeps L 4 c t fun heq => hs (congrArg ordinary heq)
  next => exact convertDeep_keeps L c _ t

variable {L}
variable {P : PathLibrary L} {known : Knowledge} {key : ExpressionKey} {steps : List PathStep}
variable {input : Option Bytes} {member : Checksum → Option Bytes}

theorem folderToMixed_makes {r : Converted} (h : folderToMixed P known input member = some r) :
    ∃ b, r = (L.sha256 b, some b) := by
  unfold folderToMixed at h
  simp only [bind, Option.bind_eq_some_iff] at h
  obtain ⟨index, hindex, entries, hentries, children, hchildren, b, hb, heq⟩ := h
  exact ⟨b, (Option.some.inj heq).symm⟩

/-- A checksum value is never converted to a deep celltype. -/
theorem run_checksum (hs : key.inputCelltype = ordinary .checksum)
    (hdiffer : key.inputCelltype ≠ key.celltype) {r : Converted}
    (h : (run input (convertChecksum L key.inputChecksum key.inputCelltype key.celltype)
      (.start known)).1 = .done r) :
    ∃ b, input = some b ∧ (decodeUtf8 b).bind Checksum.ofStr = some r.1 := by
  rw [hs] at h hdiffer
  cases ht : key.celltype with
  | ordinary t =>
    rw [ht] at h hdiffer
    exact run_dereference L (fun heq => hdiffer (congrArg ordinary heq.symm)) h
  | _ =>
    rw [ht] at h
    cases h

/-- What a conversion answers with: a new buffer, or a checksum that it passes on. -/
theorem evaluateConversion_passes {r : Converted} (hsteps : steps = [])
    (hdiffer : key.inputCelltype ≠ key.celltype)
    (h : evaluateConversion P known key input member = some r) :
    (∃ b, r = (L.sha256 b, some b)) ∨
      r.2 = none ∧ (Passes P known key steps input r.1 ∨
        r.1 = key.inputChecksum ∧ input.isSome = true) := by
  unfold evaluateConversion at h
  split at h
  · exact .inl (folderToMixed_makes h)
  cases hrun : (run input (convertChecksum L key.inputChecksum key.inputCelltype key.celltype)
      (.start known)).1 with
  | failed =>
    rw [hrun] at h
    cases h
  | stopped =>
    rw [hrun] at h
    cases h
  | done r' =>
    rw [hrun] at h
    dsimp only at h
    split at h
    · cases h
    next hsha =>
      have heq : r' = r := Option.some.inj h
      subst heq
      obtain ⟨c, buffer⟩ := r'
      cases buffer with
      | some b =>
        left
        have hc : L.sha256 b = c := by simpa using hsha
        exact ⟨b, by rw [hc]⟩
      | none =>
        right
        refine ⟨rfl, ?_⟩
        -- without a new buffer the checksum is kept, unless a checksum is dereferenced
        by_cases hs : key.inputCelltype = ordinary .checksum
        · obtain ⟨b, hb, hc⟩ := run_checksum hs hdiffer hrun
          exact .inl (.dereferenced b c hsteps hb hs hc)
        · have hc : c = key.inputChecksum :=
            run_returns (convertChecksum_keeps L key.inputChecksum key.celltype hs) hrun rfl
          subst hc
          rcases run_done hrun with hdry | hinput
          · exact .inl (.kept hsteps hdry)
          · exact .inr ⟨rfl, hinput⟩

/-- What a path answers with: a new buffer, or the member of a deep cell. -/
theorem evaluatePath_passes {b : Bytes} {r : Converted} (hinput : input = some b)
    (h : evaluatePath P known key steps b = some r) :
    (∃ b, r = (L.sha256 b, some b)) ∨ r.2 = none ∧ Passes P known key steps input r.1 := by
  unfold evaluatePath at h
  simp only [bind, Option.bind_eq_some_iff] at h
  obtain ⟨value, hvalue, h⟩ := h
  split at h
  next hdeep =>
    obtain ⟨step, hstep, h⟩ := Option.bind_eq_some_iff.mp h
    right
    unfold pickMember at h
    split at h
    next child t happly _ =>
      split at h
      · cases h
      · cases h
        exact ⟨rfl, .member b value step child hinput hvalue hstep hdeep.1 happly⟩
    next => cases h
  next =>
    left
    split at h
    · cases h
    · obtain ⟨value', hvalue', h⟩ := Option.bind_eq_some_iff.mp h
      split at h
      next t ht =>
        obtain ⟨buffer, hbuffer, h⟩ := Option.bind_eq_some_iff.mp h
        exact ⟨buffer, (Option.some.inj h).symm⟩
      next => cases h

/-- Only the empty path has no steps. -/
theorem path_of_steps {I : Interpreter} {path : PyStr} (h : parsePath I path = .ok []) :
    path = [] := by
  cases path with
  | nil => rfl
  | cons c cs =>
    unfold parsePath at h
    rw [List.length_cons] at h
    unfold parsePathLoop at h
    simp only [bind, Except.bind] at h
    split at h
    · cases h
    · split at h <;> cases h

/-- An evaluation makes the buffer of its answer, or passes a checksum on; the
input may be the answer of a conversion that has read it. -/
theorem evaluate_passes {r : Converted} (hparse : parsePath P.interpreter key.path = .ok steps)
    (h : evaluateAfterValidation P known key steps input member = some r) :
    (∃ b, r = (L.sha256 b, some b)) ∨
      r.2 = none ∧ (Passes P known key steps input r.1 ∨
        r.1 = key.inputChecksum ∧ input.isSome = true) := by
  unfold evaluateAfterValidation at h
  split at h
  · exact .inl ⟨nullBuffer, (Option.some.inj h).symm⟩
  split at h
  next hidentity =>
    right
    cases h
    exact ⟨rfl, .inl (.identity hidentity.1 hidentity.2)⟩
  next hidentity =>
    split at h
    next hsteps =>
      refine evaluateConversion_passes hsteps ?_ h
      intro heq
      rw [hsteps] at hparse
      exact hidentity ⟨path_of_steps hparse, heq⟩
    next =>
      obtain ⟨b, hb, h⟩ := Option.bind_eq_some_iff.mp h
      rcases evaluatePath_passes hb h with hmade | ⟨hnone, hpasses⟩
      · exact .inl hmade
      · exact .inr ⟨hnone, .inl hpasses⟩

end

end SeamlessCore.Expression
