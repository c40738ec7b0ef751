/-
  SeamlessCore.Recovery.Attempts — the candidates of a fingertip.

  A fingertip looks for a buffer that nothing holds any more.  Every recorded
  Expression or celljoin with the wanted result is a candidate: its inputs are
  fingertipped, and it is evaluated again.  When no candidate gives the buffer
  back, the fingertip ends with the highest failure category that it met.

  Main definitions:
    * `Store`, `Candidate` — the expression cache and what it proposes;
    * `evaluateExpressionAsync`, `evaluateCelljoinLocalAsync`;
    * `Attempt.next` — what one candidate does to the category;
    * `tryAll` — the loops of `Checksum.fingertip`.

  Source: `seamless/checksum_class.py`, `checksum/expression.py`,
  `checksum/celljoin.py`.
-/
import SeamlessCore.Expression.Materialize
import SeamlessCore.Celljoin.Evaluate

namespace SeamlessCore.Recovery

open Python Expression ExpressionCelltype Celljoin

/-! ## §1. Categories. -/

/-- `FingertipCategory` -/
inductive Category where
  | materialization
  | failedTransformation
  | irreproducibleTransformation
  | irreproducibleExpression
  deriving DecidableEq, Repr

namespace Category

/-- The value of the `IntEnum` -/
def value : Category → Nat
  | materialization => 1
  | failedTransformation => 2
  | irreproducibleTransformation => 3
  | irreproducibleExpression => 4

theorem value_injective : Function.Injective value := by
  intro a b h
  cases a <;> cases b <;> first | rfl | cases h

instance : LinearOrder Category := LinearOrder.lift' value value_injective

theorem le_irreproducibleExpression (k : Category) : k ≤ irreproducibleExpression := by
  show k.value ≤ 4
  cases k <;> decide

end Category

/-- How an `await` ends. -/
inductive Awaited (α : Type) where
  | returned (a : α)
  /-- a `CacheMissError`, with its `fingertip_category` -/
  | missed (category : Option Category)
  /-- a cancellation, or an error of the infrastructure -/
  | interrupted
  /-- any other exception -/
  | raised
  deriving DecidableEq

namespace Awaited

variable {α : Type}

/-- The `except CacheMissError` clause catches it. -/
def isMissed : Awaited α → Bool
  | missed _ => true
  | _ => false

def ofOption : Option α → Awaited α
  | some a => returned a
  | none => raised

end Awaited

/-- `exc.fingertip_category or Category.MATERIALIZATION` -/
def orMaterialization (k : Option Category) : Category := k.getD .materialization

/-! ## §2. The store. -/

/-- A key of `_expression_cache` -/
inductive CacheKey where
  | expression (key : ExpressionKey)
  | celljoin (checksum : Checksum) (celltype : JoinCelltype)
  deriving DecidableEq

/-- What the code imports, with one hash function -/
structure Imports where
  libraries : Libraries
  paths : PathLibrary libraries
  joins : Joins
  sameHash : joins.sha256 = libraries.sha256

/-- What a fingertip finds. -/
structure Store (L : Libraries) where
  /-- What `resolution()` gives. -/
  buffers : Buffers L
  /-- `_has_local_buffer(checksum)` -/
  isLocal : Checksum → Bool
  /-- `_expression_cache`, in the order of insertion -/
  cache : List (CacheKey × Checksum)
  known : Knowledge

/-- What a fingertip gives: the buffer, or the value of a celltype -/
inductive Found (L : Libraries) where
  | buffer (b : Bytes)
  | value (v : L.Value)

/-- `virtual_value(checksum, celltype)` -/
def virtualOf (L : Libraries) (c : Checksum) : ExpressionCelltype → Virtual L.Value
  | ordinary t => L.virtualValue c t
  | _ => if c ∈ L.nullChecksums then .value .none else .notVirtual

namespace Store

variable {L : Libraries} (s : Store L)

/-- `_expression_cache.get(cache_key)` -/
def recorded (key : CacheKey) : Option Checksum := s.cache.lookup key

/-- `_insert_expression_result(cache_key, result)` -/
def insertResult (key : CacheKey) (c : Checksum) : Store L :=
  match s.recorded key with
  | none => { s with cache := s.cache ++ [(key, c)] }
  | some _ => s

/-- `buffer.get_value_async(celltype)` -/
def getValue (b : Bytes) : ExpressionCelltype → Option L.Value
  | ordinary t => L.parseBuffer (s.known (L.sha256 b)) b (L.sha256 b) t
  | _ => (deepIndex (L := L) s.known b).map fun index =>
    .dict (index.map fun m => (.str m.1, .checksum m.2))

/-- `self.resolution(celltype)` -/
def resolve (c : Checksum) (t : Option ExpressionCelltype) : Awaited (Found L) :=
  match t with
  | none =>
    match s.buffers.find c with
    | none => .missed none
    | some b => .returned (.buffer b)
  | some t =>
    match virtualOf L c t with
    | .value v => .returned (.value v)
    | .invalid => .raised
    | .notVirtual =>
      match s.buffers.find c with
      | none => .missed none
      | some b =>
        match s.getValue b t with
        | some v => .returned (.value v)
        | none => .raised

/-- Every recorded mapping is kept. -/
def Evolves (s s' : Store L) : Prop := ∀ key c, s.recorded key = some c → s'.recorded key = some c

variable {s}

theorem Evolves.refl (s : Store L) : Evolves s s := fun _ _ h => h

theorem Evolves.trans {s₁ s₂ s₃ : Store L} (h : Evolves s₁ s₂) (h' : Evolves s₂ s₃) :
    Evolves s₁ s₃ := fun key c hc => h' key c (h key c hc)

/-- An insertion keeps what is recorded. -/
theorem insertResult_evolves (s : Store L) (key : CacheKey) (c : Checksum) :
    Evolves s (s.insertResult key c) := by
  intro key' c' h
  unfold insertResult
  cases hrecorded : s.recorded key with
  | some _ => exact h
  | none =>
    show (s.cache ++ [(key, c)]).lookup key' = some c'
    rw [List.lookup_append, show s.cache.lookup key' = some c' from h]
    rfl

/-- The insertions of the rows that a database gave. -/
def insertRows (s : Store L) (keys : List CacheKey) (c : Checksum) : Store L :=
  keys.foldl (fun s key => s.insertResult key c) s

theorem insertRows_evolves (s : Store L) (keys : List CacheKey) (c : Checksum) :
    Evolves s (s.insertRows keys c) := by
  induction keys generalizing s with
  | nil => exact Evolves.refl s
  | cons key keys ih => exact (insertResult_evolves s key c).trans (ih _)

end Store

/-! ## §3. Candidates. -/

/-- What `get_rev_transformations`, `get_rev_expressions` and
`get_rev_celljoins` give, and the reverse transformations of the process -/
structure Rows where
  expressions : List ExpressionKey
  celljoins : List (Checksum × JoinCelltype)
  /-- `candidates`, the transformations, without duplicates -/
  transformations : List Checksum

/-- A recipe that is said to give the wanted checksum. -/
inductive Candidate where
  | expression (key : ExpressionKey)
  | celljoin (checksum : Checksum) (celltype : JoinCelltype)
  | transformation (checksum : Checksum)
  deriving DecidableEq

section

variable {L : Libraries}

/-- `expression_candidates` of the process -/
def expressionCandidates (s : Store L) (wanted : Checksum) : List ExpressionKey :=
  s.cache.filterMap fun
    | (.expression key, result) => if result = wanted then some key else none
    | _ => none

/-- `celljoin_candidates` of the process -/
def celljoinCandidates (s : Store L) (wanted : Checksum) : List (Checksum × JoinCelltype) :=
  s.cache.filterMap fun
    | (.celljoin c t, result) => if result = wanted then some (c, t) else none
    | _ => none

/-- The candidates of the database after those of the process, each one once -/
def addRows {α : Type} [DecidableEq α] (found rows : List α) : List α :=
  rows.foldl (fun found row => if row ∈ found then found else found ++ [row]) found

/-- The candidates in the order in which they are tried -/
def candidates (s : Store L) (rows : Rows) (wanted : Checksum) : List Candidate :=
  (addRows (expressionCandidates s wanted) rows.expressions).map .expression ++
    (addRows (celljoinCandidates s wanted) rows.celljoins).map (fun e => .celljoin e.1 e.2) ++
      rows.transformations.map .transformation

/-- The keys that the rows of the database insert. -/
def Rows.keys (rows : Rows) : List CacheKey :=
  rows.expressions.map .expression ++ rows.celljoins.map fun e => .celljoin e.1 e.2

end

/-! ## §4. Evaluations. -/

/-- How the work on a candidate goes.  `views` are the stores that it sees,
await by await; `refused` says that the validation raises. -/
inductive Work (L : Libraries) where
  | interrupted
  | evaluates (views : Nat → Store L) (refused : Bool)
  /-- It joins work that is under way, and evaluates if the result is not local. -/
  | joins (outcome : Awaited Checksum) (views : Nat → Store L) (refused : Bool)

section

variable {L : Libraries} (P : PathLibrary L)

/-- `_evaluate_expression_async` asks for the input buffer. -/
def asksInput (s : Store L) (key : ExpressionKey) (steps : List PathStep) : Bool :=
  System.needsInput L s.known key steps

/-- The input buffer, if it is asked for -/
def fetchInput (s : Store L) (key : ExpressionKey) (asked : Bool) : Awaited (Option Bytes) :=
  if asked then
    match s.buffers.find key.inputChecksum with
    | some b => .returned (some b)
    | none => .missed none
  else .returned none

/-- `for child in index.values(): member_buffers[child] = await child.resolution()` -/
def fetchMembers (views : Nat → Store L) :
    Nat → List Checksum → (Checksum → Option Bytes) → Awaited (Checksum → Option Bytes)
  | _, [], members => .returned members
  | n, child :: children, members =>
    match (views n).buffers.find child with
    | none => .missed none
    | some b => fetchMembers views (n + 1) children (Function.update members child (some b))

/-- The folder members that the evaluation asks for -/
def askedMembers (s : Store L) (key : ExpressionKey) (steps : List PathStep)
    (input : Option Bytes) : Option (List Checksum) :=
  if steps = [] ∧ (key.inputCelltype, key.celltype) = (folder, ordinary .mixed) ∧
      isNull L key.inputChecksum = false then
    (input.bind (deepIndex (L := L) s.known)).map fun index => index.map Prod.snd
  else some []

/-- From the validation to the answer, with the input buffer -/
def evaluateFetched (key : ExpressionKey) (steps : List PathStep) (views : Nat → Store L)
    (refused : Bool) (input : Option Bytes) : Awaited Checksum :=
  if refused then .raised
  else
    match askedMembers (views 3) key steps input with
    -- `Invalid folder index`
    | none => .raised
    | some children =>
      match fetchMembers views 4 children fun _ => none with
      | .returned members =>
        .ofOption ((evaluateAfterValidation P (views (4 + children.length)).known key steps input
          members).map Prod.fst)
      | .missed k => .missed k
      | .interrupted => .interrupted
      | .raised => .raised

/-- `_evaluate_expression_async(…, materialize=True)` -/
def evaluateExpressionAsync (key : ExpressionKey) (views : Nat → Store L) (refused : Bool) :
    Awaited Checksum :=
  match ((views 0).recorded (.expression key)).filter fun c => (views 0).isLocal c with
  | some c => .returned c
  | none =>
    match parsePath P.interpreter key.path with
    | .error _ => .raised
    | .ok steps =>
      match fetchInput (views 2) key (asksInput (views 1) key steps) with
      | .returned input => evaluateFetched P key steps views refused input
      | .missed k => .missed k
      | .interrupted => .interrupted
      | .raised => .raised

/-- `evaluate_expression_local_async(…, materialize=True)` -/
def evaluateExpressionLocalAsync (key : ExpressionKey) (work : Work L) : Awaited Checksum :=
  if validateExpressionShape L P key.path key.inputCelltype key.celltype = false then .raised
  else
    match work with
    | .interrupted => .interrupted
    | .evaluates views refused => evaluateExpressionAsync P key views refused
    | .joins (.returned c) views refused =>
      if (views 0).isLocal c then .returned c
      else evaluateExpressionAsync P key (fun n => views (n + 1)) refused
    | .joins outcome _ _ => outcome

end

/-- `required_buffers(spec)` -/
def requiredBuffers (spec : CellJoinSpec) : List Checksum :=
  addRows spec.root.toList
    (if spec.celltype.isDeep then [] else spec.members.map Prod.snd)

section

variable (I : Imports)

/-- `buffers.__getitem__` of the recovered inputs -/
def recoveredBuffer (required : List Checksum) (inputs : List (Awaited (Found I.libraries)))
    (c : Checksum) : Option Bytes :=
  match (required.zip inputs).lookup c with
  | some (.returned (.buffer b)) => some b
  | _ => none

/-- `_evaluate_celljoin_with_buffers(spec, buffers)` -/
def evaluateWithBuffers (spec : CellJoinSpec) (buffers : Checksum → Option Bytes) :
    Awaited Checksum :=
  .ofOption ((I.joins.evaluateCelljoin buffers spec).map I.joins.sha256)

/-- `evaluate_celljoin_local_async(spec, materialize=True, buffers=recovered)` -/
def evaluateCelljoinLocalAsync (spec : CellJoinSpec) (buffers : Checksum → Option Bytes)
    (work : Work I.libraries) : Awaited Checksum :=
  match work with
  | .interrupted => .interrupted
  | .evaluates views _ =>
    match ((views 0).recorded (.celljoin spec.checksum spec.celltype)).filter
      fun c => (views 0).isLocal c with
    | some c => .returned c
    | none => evaluateWithBuffers I spec buffers
  | .joins (.returned c) views _ =>
    if (views 0).isLocal c then .returned c else evaluateWithBuffers I spec buffers
  | .joins outcome _ _ => outcome

end

/-! ## §5. Attempts. -/

/-- What happens to an Expression candidate; a field that is not reached does
not count. -/
structure ExpressionAttempt (I : Imports) where
  key : ExpressionKey
  /-- `await input_checksum.fingertip()` -/
  input : Awaited (Found I.libraries)
  work : Work I.libraries
  /-- `await self.resolution(celltype)` -/
  result : Awaited (Found I.libraries)

structure CelljoinAttempt (I : Imports) where
  checksum : Checksum
  celltype : JoinCelltype
  /-- `await Checksum(celljoin_hex).resolution()` -/
  definition : Awaited (Found I.libraries)
  /-- the fingertips of the required buffers -/
  inputs : List (Awaited (Found I.libraries))
  work : Work I.libraries
  result : Awaited (Found I.libraries)

structure TransformationAttempt (I : Imports) where
  checksum : Checksum
  /-- `await recompute_from_transformation_checksum(…)` -/
  recomputed : Awaited (Option Checksum)
  result : Awaited (Found I.libraries)

inductive Attempt (I : Imports) where
  | expression (a : ExpressionAttempt I)
  | celljoin (a : CelljoinAttempt I)
  | transformation (a : TransformationAttempt I)

/-- The category so far, or the end of the call -/
abbrev Next (I : Imports) := Category ⊕ Awaited (Found I.libraries)

/-- `return await self.resolution(celltype)`, with its `except` clause -/
def resolveResult {I : Imports} (category : Category) : Awaited (Found I.libraries) → Next I
  | .missed k => .inl (max category (orMaterialization k))
  | ending => .inr ending

variable {I : Imports}

namespace ExpressionAttempt

/-- `await evaluate_expression_local_async(…)` -/
def evaluation (a : ExpressionAttempt I) : Awaited Checksum :=
  evaluateExpressionLocalAsync I.paths a.key a.work

/-- The loop over `expression_candidates` -/
def next (wanted : Checksum) (category : Category) (a : ExpressionAttempt I) : Next I :=
  match a.input with
  | .missed k => .inl (max category (orMaterialization k))
  | .interrupted => .inr .interrupted
  | .raised => .inr .raised
  | .returned _ =>
    match a.evaluation with
    | .interrupted => .inr .interrupted
    -- `except Exception`, which a `CacheMissError` is
    | .missed _ => .inl .irreproducibleExpression
    | .raised => .inl .irreproducibleExpression
    | .returned c =>
      if c ≠ wanted then .inl .irreproducibleExpression else resolveResult category a.result

end ExpressionAttempt

namespace CelljoinAttempt

/-- The loop over `recovered_or_errors`: the category and `input_failed` -/
def gather : Category → Bool → List (Awaited (Found I.libraries)) →
    (Category × Bool) ⊕ Awaited (Found I.libraries)
  | category, failed, [] => .inl (category, failed)
  | category, failed, .returned _ :: inputs => gather category failed inputs
  | category, _, .missed k :: inputs => gather (max category (orMaterialization k)) true inputs
  | _, _, .interrupted :: _ => .inr .interrupted
  | _, _, .raised :: _ => .inr .raised

/-- The definition, if it parses and is the one that was asked for -/
def spec (a : CelljoinAttempt I) : Found I.libraries → Option CellJoinSpec
  | .buffer content =>
    (I.joins.parseCelljoin (.buffer content) a.celltype).filter fun spec =>
      spec.checksum = a.checksum
  -- without a celltype, a buffer is what `resolution` gives
  | .value _ => none

def evaluation (a : CelljoinAttempt I) (spec : CellJoinSpec) : Awaited Checksum :=
  evaluateCelljoinLocalAsync I spec (recoveredBuffer I (requiredBuffers spec) a.inputs) a.work

/-- The loop over `celljoin_candidates` -/
def next (wanted : Checksum) (category : Category) (a : CelljoinAttempt I) : Next I :=
  match a.definition with
  | .missed _ => .inl category
  | .interrupted => .inr .interrupted
  | .raised => .inr .raised
  | .returned found =>
    match a.spec found with
    | none => .inl category
    | some spec =>
      match gather category false a.inputs with
      | .inr ending => .inr ending
      | .inl (category, true) => .inl category
      | .inl (category, false) =>
        match a.evaluation spec with
        | .interrupted => .inr .interrupted
        | .missed k => .inl (max category (orMaterialization k))
        | .raised => .inl (max category .irreproducibleExpression)
        | .returned c =>
          if c ≠ wanted then .inl (max category .irreproducibleExpression)
          else resolveResult category a.result

end CelljoinAttempt

namespace TransformationAttempt

/-- The loop over `candidates` -/
def next (wanted : Checksum) (category : Category) (a : TransformationAttempt I) : Next I :=
  match a.recomputed with
  | .interrupted => .inr .interrupted
  | .missed k => .inl (max category (orMaterialization k))
  | .raised => .inl (max category .failedTransformation)
  | .returned none => .inl category
  | .returned (some c) =>
    if c ≠ wanted then .inl (max category .irreproducibleTransformation)
    else resolveResult category a.result

end TransformationAttempt

/-- What an attempt does to the category. -/
def Attempt.next (wanted : Checksum) (category : Category) : Attempt I → Next I
  | .expression a => a.next wanted category
  | .celljoin a => a.next wanted category
  | .transformation a => a.next wanted category

/-- The loops over the candidates -/
def tryAll (wanted : Checksum) : Category → List (Attempt I) → Next I
  | category, [] => .inl category
  | category, a :: attempts =>
    match a.next wanted category with
    | .inl category => tryAll wanted category attempts
    | .inr ending => .inr ending

/-- The end of `fingertip` after the attempts.  A worker without Dask raises
`NotImplementedError` instead of a miss. -/
def ending (worker : Bool) : Next I → Awaited (Found I.libraries)
  | .inr ending => ending
  | .inl category => if worker then .raised else .missed (some category)

end SeamlessCore.Recovery
