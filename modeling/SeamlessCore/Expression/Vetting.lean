/-
  SeamlessCore.Expression.Vetting — Expressions that are refused unevaluated.

  An Expression is refused when its path has a shape that its source celltype
  never admits, or when the HashType of its input rules out the source
  celltype, a step of the path, or the conversion.

  Main definitions:
    * `capabilities`, `validatePathCapability` — steps that a HashType admits;
    * `validateExpression` — the whole check.

  Source: `seamless/checksum/hash_type.py`, `hash_type_validation.py`.
-/
import SeamlessCore.Expression.Evaluate
import SeamlessCore.Conversion.Feasible

namespace SeamlessCore.Expression

open Python Lazy Libraries

open ExpressionCelltype

/-! ## §1. Capabilities. -/

/-- A set of `"SEQ"` and `"MAP"` -/
structure Capabilities where
  seq : Bool
  map : Bool
  deriving DecidableEq

/-- `set()` -/
def Capabilities.none : Capabilities := ⟨false, false⟩

/-- `hash_type.capabilities(source_celltype)` -/
def capabilities (h : HashType) (s : Celltype) : Capabilities :=
  if s = .bytes then ⟨true, false⟩
  else if s ∈ [.text, .str, .python, .ipython, .yaml] then ⟨true, false⟩
  else if s = .binary ∨ s = .mixed ∧ h.kind = .numpy then
    ⟨h.rank ≠ .scalar, h.dtype = .structured⟩
  else if s = .plain ∨ s = .mixed then
    if h.kind ∈ [.jsonObject, .mixedObject] then ⟨false, true⟩
    else if h.kind ∈ [.jsonArray, .mixedArray] then ⟨true, false⟩
    else if h.kind = .jsonString then ⟨true, false⟩
    else .none
  else .none

/-- `kind == "item" and isinstance(payload, str)` -/
def isNamed : PathStep → Bool
  | .item (.str _) => true
  | _ => false

/-- `needs in caps` -/
def Capabilities.admits (caps : Capabilities) (step : PathStep) : Bool :=
  if isNamed step then caps.map else caps.seq

/-- The loop of `_validate_path_capability`; `false` is an exception. -/
def vetSteps (h : HashType) (s : Celltype) : Capabilities → (rank : Nat) → List PathStep → Bool
  | _, _, [] => true
  | caps, rank, step :: steps =>
    if caps.admits step = false then false
    else
      match step with
      | .slice _ _ _ => vetSteps h s caps rank steps
      | .item key =>
        let isInt : Bool := match key with
          | .int _ => true
          | _ => false
        if s = .bytes then vetSteps h s .none rank steps
        else if (s = .binary ∨ s = .mixed) ∧ h.dtype = .numeric ∧ isInt ∧ rank < 3 then
          vetSteps h s ⟨0 < rank - 1, false⟩ (rank - 1) steps
        else true

/-- `_validate_path_capability(checksum, hash_type, source_celltype, path_steps)`
does not raise. -/
def validatePathCapability (h : HashType) (s : Celltype) (steps : List PathStep) : Bool :=
  h.isUntested || vetSteps h s (capabilities h s) (HashType.rankCode h.rank) steps

/-- `validate_expression`; structural celltypes are outside the domain of HashType. -/
def validateExpression (L : Libraries) (c : Checksum) (buffer : Option Bytes)
    (s : ExpressionCelltype) (steps : List PathStep) (t : ExpressionCelltype) :
    Conv (Option HashType) :=
  match s, t with
  | ordinary s, ordinary t => do
    match ← L.validateDeserializableAs c s buffer with
    | none => return none
    | some h =>
      if validatePathCapability h s steps = false then .fail
      else if steps = [] ∧ L.conversionFeasible h s t c = some false then .fail
      else return some h
  | _, _ => L.ensureHashType c buffer

end SeamlessCore.Expression
