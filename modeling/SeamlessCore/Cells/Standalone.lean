/-
  SeamlessCore.Cells.Standalone — chains of standalone Cells.

  A chain is a root Cell with projections and conversions over it, of any
  length.  `build()` captures the configuration of a Cell and of all Cells
  under it.  A Cell stores a result or a failure together with the recipe key
  that it saw last; `_sync_recipe` drops what is stored when the key is not
  that of the configuration in force.

  A `compute_async` call captures the configuration when it starts and stores
  what it gets when it resumes.  In between, every Cell of the chain may be
  written, retyped and read.

  Main definitions:
    * `Recipe`, `RecipeKey` — what `build()` captures, and `_cell_recipe_key`;
    * `Chain` — the Cells, and the suspended calls;
    * `syncRecipe`, `readChecksum`, `readState`, `readException` — the reads;
    * `step` — the events of a run.

  Stored results and failures carry the recipe that was evaluated, so that one
  can say to which configuration an answer belongs; the code has no such field.

  Source: `seamless/cell_class.py`.
-/
import SeamlessCore.Checksum.Parse
import SeamlessCore.Lib.Run

namespace SeamlessCore.Cells

open Python

/-! ## §1. Configurations. -/

/-- The celltypes of a Cell -/
inductive CellCelltype where
  | value (t : Celltype)
  | deepcell
  | deepfolder
  | folder
  | module
  deriving DecidableEq, Repr

/-- `celltype in ("deepcell", "deepfolder", "folder")` -/
def CellCelltype.isDeep : CellCelltype → Bool
  | .deepcell | .deepfolder | .folder => true
  | _ => false

/-- `_input_ref` of a root: nothing, a checksum, or an object with its identity -/
inductive InputRef where
  | none
  | checksum (c : Checksum)
  | object (id : Nat)
  deriving DecidableEq

/-- The configuration that `build()` captures -/
inductive Recipe where
  | root (input : InputRef) (celltype : CellCelltype) (inputCelltype : Option CellCelltype)
      (path : PyStr) (validator : Option Nat) (language : Option PyStr)
  | derived (source : Recipe) (celltype : CellCelltype) (inputCelltype : Option CellCelltype)
      (path : PyStr) (validator : Option Nat) (language : Option PyStr)
  deriving DecidableEq

/-- The source part of a key: `("checksum", hex)` or `("object", id)` -/
inductive SourceKey where
  | checksum (hex : PyStr)
  | object (id : Nat)
  deriving DecidableEq

/-- The value of `_cell_recipe_key` -/
inductive RecipeKey where
  | root (source : SourceKey) (celltype : CellCelltype) (inputCelltype : Option CellCelltype)
      (path : PyStr) (validator : Nat) (language : Option PyStr)
  | derived (source : RecipeKey) (celltype : CellCelltype) (inputCelltype : Option CellCelltype)
      (path : PyStr) (validator : Nat) (language : Option PyStr)
  deriving DecidableEq

/-- `id(obj)` of `None` or of an object that lives as long as the chain -/
def idOf : Option Nat → Nat
  | none => 0
  | some n => n + 1

def InputRef.key : InputRef → SourceKey
  | .none => .object (idOf Option.none)
  | .checksum c => .checksum c.hex
  | .object id => .object (idOf (some id))

/-! ## §2. Chains. -/

/-- What a Cell has stored, with the recipe that was evaluated -/
structure Stored (A : Type) where
  value : A
  recipe : Recipe
  deriving DecidableEq

/-- A standalone Cell.  The input of a derived Cell is the Cell under it. -/
structure Cell where
  celltype : CellCelltype
  path : PyStr
  /-- `_path_component is not _NO_PROJECTION` -/
  projection : Bool
  conversionLink : Bool
  /-- The identity of the validator object -/
  validator : Option Nat
  validatorLanguage : Option PyStr
  exception : Option (Stored PyStr)
  result : Option (Stored Checksum)
  recipeKey : Option RecipeKey
  deriving DecidableEq

/-- A suspended `compute_async` call: its Cell, and what `build()` captured -/
structure Call where
  cell : Nat
  recipe : Recipe
  deriving DecidableEq

/-- A chain: Cell `0` is the root, and Cell `i + 1` is derived from Cell `i`. -/
structure Chain where
  input : InputRef
  /-- `_input_celltype` of the root -/
  inputCelltype : Option CellCelltype
  /-- The celltype of the input, if it is an object -/
  sourceCelltype : CellCelltype
  /-- The input is an object with a path. -/
  sourceProjected : Bool
  cells : Nat → Cell
  calls : Nat → Option Call
  callCount : Nat

namespace Chain

variable (s : Chain)

/-- `cell.input_celltype` -/
def inputCelltypeOf : Nat → Option CellCelltype
  | 0 =>
    match s.input with
    | .object _ => some s.sourceCelltype
    | _ => s.inputCelltype
  | i + 1 => some (s.cells i).celltype

/-- `cell.build()` -/
def build : Nat → Recipe
  | 0 =>
    let c := s.cells 0
    .root s.input c.celltype (s.inputCelltypeOf 0) c.path c.validator c.validatorLanguage
  | i + 1 =>
    let c := s.cells (i + 1)
    .derived (build i) c.celltype (s.inputCelltypeOf (i + 1)) c.path c.validator
      c.validatorLanguage

/-- `_cell_recipe_key(cell)` -/
def cellRecipeKey : Nat → RecipeKey
  | 0 =>
    let c := s.cells 0
    .root s.input.key c.celltype (s.inputCelltypeOf 0) c.path (idOf c.validator)
      c.validatorLanguage
  | i + 1 =>
    let c := s.cells (i + 1)
    .derived (cellRecipeKey i) c.celltype (s.inputCelltypeOf (i + 1)) c.path (idOf c.validator)
      c.validatorLanguage

/-- `cell._miswired()` of the Cell alone: it converts behind a projection. -/
def convertsBehind (i : Nat) : Bool :=
  (s.cells i).path ≠ [] &&
    !(s.inputCelltypeOf i).any CellCelltype.isDeep &&
    s.inputCelltypeOf i ≠ some (s.cells i).celltype

/-- `cell._miswired()` -/
def miswired : Nat → Bool
  | 0 => s.convertsBehind 0
  | i + 1 => miswired i || s.convertsBehind (i + 1)

/-- `cell._input_ref is None` -/
def unwired : Nat → Bool
  | 0 => s.input = .none
  | _ + 1 => false

/-- The checksum of a Cell that needs no evaluation -/
def literal : Nat → Option Checksum
  | 0 =>
    match s.input with
    | .checksum c =>
      if (s.cells 0).path = [] ∧ s.inputCelltypeOf 0 = some (s.cells 0).celltype ∧
          (s.cells 0).validator = none then some c
      else none
    | _ => none
  | _ + 1 => none

/-! ## §3. Changes of a Cell. -/

/-- A change of one Cell -/
def modify (i : Nat) (f : Cell → Cell) : Chain :=
  { s with cells := Function.update s.cells i (f (s.cells i)) }

end Chain

namespace Cell

/-- `_standalone_exception = None` and `_set_result_checksum(None)` -/
def clear (c : Cell) : Cell := { c with exception := none, result := none }

/-- What is stored in the end: a result, which may be `None`, or a failure -/
inductive Outcome where
  | result (c : Option Checksum)
  | failure (e : PyStr)
  deriving DecidableEq

/-- A computation of the recipe ends. -/
def store (c : Cell) (recipe : Recipe) : Outcome → Cell
  | .result r => { c with exception := none, result := r.map fun r => ⟨r, recipe⟩ }
  | .failure e => { c with exception := some ⟨e, recipe⟩, result := none }

end Cell

open Cell (Outcome)

/-- What a read gives to its caller -/
inductive Shown where
  | nothing
  | checksum (c : Option Checksum)
  | state (name : PyStr)
  | exception (e : Option PyStr)
  deriving DecidableEq

/-- An answer, with the recipe of the result or failure that it shows -/
structure Answer where
  shown : Shown
  recipe : Option Recipe
  deriving DecidableEq

namespace Chain

section

variable (s : Chain) (sha256 : Bytes → Checksum)

/-- `cell._sync_recipe()` -/
def syncRecipe (i : Nat) : Chain :=
  if (s.cells i).recipeKey = some (s.cellRecipeKey i) then s
  else s.modify i fun c => { c.clear with recipeKey := some (s.cellRecipeKey i) }

/-- `canonicalize_checksum(checksum, celltype)` -/
def canonicalizeChecksum (c : Checksum) (t : CellCelltype) : Checksum :=
  if t = .value .bytes ∧ c = sha256 [] then sha256 (ascii "null\n") else c

/-- `cell.checksum`; `work` is what an evaluation gives, where `none` is a
`RunningLoopRefusal`. -/
def readChecksum (i : Nat) (work : Option Outcome) : Chain × Answer :=
  let s := s.syncRecipe i
  if s.unwired i || s.miswired i then (s, ⟨.checksum none, none⟩)
  else
    match (s.cells i).exception, (s.cells i).result, s.literal i with
    | some e, _, _ => (s, ⟨.checksum none, some e.recipe⟩)
    | none, some r, _ => (s, ⟨.checksum (some r.value), some r.recipe⟩)
    | none, none, some c =>
      (s, ⟨.checksum (some (canonicalizeChecksum sha256 c (s.cells i).celltype)),
        some (s.build i)⟩)
    | none, none, none =>
      match work with
      | none => (s, ⟨.checksum none, none⟩)
      | some (.result r) =>
        (s.modify i fun c => c.store (s.build i) (.result r), ⟨.checksum r, some (s.build i)⟩)
      | some (.failure e) =>
        (s.modify i fun c => c.store (s.build i) (.failure e), ⟨.checksum none, some (s.build i)⟩)

/-- `cell.state` -/
def readState (i : Nat) : Chain × Answer :=
  let s := s.syncRecipe i
  if s.miswired i then (s, ⟨.state (py "miswired"), none⟩)
  else if s.unwired i then (s, ⟨.state (py "unwired"), none⟩)
  else
    match (s.cells i).exception, (s.cells i).result, s.literal i with
    | some e, _, _ => (s, ⟨.state (py "failed"), some e.recipe⟩)
    | none, some r, _ => (s, ⟨.state (py "complete"), some r.recipe⟩)
    | none, none, some _ => (s, ⟨.state (py "complete"), some (s.build i)⟩)
    | none, none, none => (s, ⟨.state (py "waiting"), none⟩)

/-- `cell.exception` -/
def readException (i : Nat) : Chain × Answer :=
  let s := s.syncRecipe i
  (s, ⟨.exception ((s.cells i).exception.map Stored.value), (s.cells i).exception.map Stored.recipe⟩)

/-! ## §4. Writes. -/

/-- `_check_write_authority(detach)` of the root does not raise. -/
def writable (detach : Bool) : Bool :=
  (s.cells 0).path = [] &&
    match s.input with
    | .object _ => detach
    | _ => true

/-- `root._replace_input_ref(checksum, input_celltype=…)` -/
def replaceInput (c : Option Checksum) (t : Option CellCelltype) : Chain :=
  { s with
    input := match c with
      | none => .none
      | some c => .checksum c
    inputCelltype := c.map fun _ => t.getD (s.cells 0).celltype }.modify 0 Cell.clear

/-- A write to the root with `set`, `set_checksum` or `set_buffer`; an assignment to `value`,
`checksum` or `buffer` also detaches it from an object. -/
def writeRoot (detach : Bool) (c : Option Checksum) (t : Option CellCelltype) : Chain :=
  if s.writable detach then s.replaceInput c t else s

/-- A write to the Cell goes through projections only, down to the root. -/
def writesThrough : Nat → Bool
  | 0 => s.writable false
  | i + 1 =>
    (s.cells (i + 1)).projection && !(s.cells (i + 1)).conversionLink && writesThrough i

/-- A write to a projection: the value of the root is read, changed and written back. -/
def writeProjection (i : Nat) (work : Option Outcome) (c : Checksum) : Chain :=
  if s.writesThrough i then
    (s.readChecksum sha256 0 work).1.replaceInput (some c) (some (s.cells 0).celltype)
  else s

/-- `cell.celltype = celltype` -/
def retype (i : Nat) (t : CellCelltype) : Chain :=
  -- `_check_projected_source(self.source, celltype)`
  let behindProjection : Bool :=
    match i with
    | 0 =>
      match s.input with
      | .object _ => s.sourceProjected && s.sourceCelltype ≠ t
      | _ => false
    | j + 1 => (s.cells j).path ≠ [] && (s.cells j).celltype ≠ t
  let converts : Bool := (s.cells i).path ≠ [] &&
    !(s.inputCelltypeOf i).any CellCelltype.isDeep && s.inputCelltypeOf i ≠ some t
  if behindProjection || converts then s
  else s.modify i fun c => { c.clear with celltype := t }

/-! ## §5. Computations. -/

/-- `compute_async()` up to its first await; `refusal` is what `build()` raises. -/
def startCompute (i : Nat) (refusal : Option PyStr) : Chain :=
  let s := s.syncRecipe i
  if s.miswired i then s
  else
    match refusal with
    | some e => s.modify i fun c => c.store (s.build i) (.failure e)
    | none =>
      { s with
        calls := Function.update s.calls s.callCount (some ⟨i, s.build i⟩)
        callCount := s.callCount + 1 }

/-- `compute_async()` from its last await on -/
def finishCompute (call : Nat) (o : Outcome) : Chain :=
  match s.calls call with
  | none => s
  | some p =>
    { s with calls := Function.update s.calls call none }.modify p.cell fun c =>
      c.store p.recipe o

/-- The call is cancelled; `except Exception` does not catch that. -/
def cancelCompute (call : Nat) : Chain :=
  { s with calls := Function.update s.calls call none }

end

end Chain

/-! ## §6. Runs. -/

/-- What may happen at an await -/
inductive Event where
  | writeRoot (detach : Bool) (c : Option Checksum) (t : Option CellCelltype)
  | writeProjection (i : Nat) (work : Option Outcome) (c : Checksum)
  | retype (i : Nat) (t : CellCelltype)
  | startCompute (i : Nat) (refusal : Option PyStr)
  | finishCompute (call : Nat) (o : Outcome)
  | cancelCompute (call : Nat)
  | readChecksum (i : Nat) (work : Option Outcome)
  | readState (i : Nat)
  | readException (i : Nat)

/-- The Cell that an event reads -/
def Event.reads : Event → Option Nat
  | .readChecksum i _ => some i
  | .readState i => some i
  | .readException i => some i
  | _ => none

/-- One event of a run -/
def step (sha256 : Bytes → Checksum) (s : Chain) : Event → Chain × Answer
  | .writeRoot detach c t => (s.writeRoot detach c t, ⟨.nothing, none⟩)
  | .writeProjection i work c => (s.writeProjection sha256 i work c, ⟨.nothing, none⟩)
  | .retype i t => (s.retype i t, ⟨.nothing, none⟩)
  | .startCompute i refusal => (s.startCompute i refusal, ⟨.nothing, none⟩)
  | .finishCompute call o => (s.finishCompute call o, ⟨.nothing, none⟩)
  | .cancelCompute call => (s.cancelCompute call, ⟨.nothing, none⟩)
  | .readChecksum i work => s.readChecksum sha256 i work
  | .readState i => s.readState i
  | .readException i => s.readException i

end SeamlessCore.Cells
