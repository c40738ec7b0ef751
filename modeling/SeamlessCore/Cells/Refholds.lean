/-
  SeamlessCore.Cells.Refholds — the refholder claims of standalone Cells.

  A Cell holds its input, if that is a checksum, and its result.  Every change
  takes the new claim before it gives the old one back.  Taking a claim can
  fail: the buffer cache may refuse it, or book it and then fail to hand the
  buffer to the writer.  Giving one back can fail as well: the last claim is
  gone, and then the fade of an old tempref overflows; what the Cell had still
  to give back stays booked.  The machine below runs any number of Cells; next
  to each Cell it keeps the claims that it has booked, less those it gave back.

  Main results:
    * `setResult_exact`, `replaceInput_exact` — the two changes of a Cell;
    * `step_exact` — every operation, however it ends;
    * `handleRefholdBalance` — claims and record agree in every state of a run
      exactly when no claim is booked by a call that fails, no release fails
      before another one, and no constructor gives back a claim that was refused.

  Source: `seamless/cell_class.py`.
-/
import SeamlessCore.Cells.Standalone

namespace SeamlessCore.Cells.Refholds

open Python

/-! ## §1. One Cell. -/

/-- How a call of `incref_refholder` ends: the claim is held; the cache refuses
it with an `AssertionError`, where `unclaimed` says that nobody holds a claim on
the checksum; or it is booked, and then `buffer_writer.register` raises. -/
inductive Acquired where
  | held
  | refused (unclaimed : Bool)
  | unwritten
  deriving DecidableEq, Repr

def Acquired.books : Acquired → Bool
  | .refused _ => false
  | _ => true

def Acquired.raises : Acquired → Bool
  | .held => false
  | _ => true

/-- A call of the buffer cache -/
inductive Call where
  /-- `incref_refholder`; `recorded` says that the Cell has recorded the checksum
  already, and gives the claim back when it is finalized. -/
  | acquire (recorded : Bool) (outcome : Acquired)
  /-- `decref_refholder`, which gives the claim back and may then raise;
  `pending` says that the Cell has another claim to give back after it. -/
  | release (pending raises : Bool)
  deriving DecidableEq, Repr

/-- The call leaves a claim that no record knows, or makes the Cell give back a
claim of somebody else. -/
def Call.spoils : Call → Bool
  | .acquire true (.refused false) => true
  | .acquire false .unwritten => true
  | .release true true => true
  | _ => false

/-- Which releases of an operation raise: that of the old result, and that of
the old input -/
structure Fades where
  result : Bool
  input : Bool
  deriving DecidableEq, Repr

/-- What an operation leaves, its calls of the buffer cache, and whether it raises -/
structure Result (S : Type) where
  state : S
  calls : List Call
  raises : Bool

/-- The next part of an operation, unless it has raised -/
def Result.andThen {S : Type} (r : Result S) (next : S → Result S) : Result S :=
  if r.raises then r
  else
    let r' := next r.state
    ⟨r'.state, r.calls ++ r'.calls, r'.raises⟩

/-- `_input_ref` -/
inductive Input where
  | none
  | checksum (c : Checksum)
  | cell (i : Nat)
  | object (id : Nat) (celltype : CellCelltype) (projected : Bool)
  deriving DecidableEq

/-- `isinstance(input_ref, Checksum)` -/
def Input.checksum? : Input → Option Checksum
  | .checksum c => some c
  | _ => Option.none

/-- A standalone Cell, and the refholder claims it has booked less those it gave
back -/
structure Holder where
  input : Input
  inputCelltype : Option CellCelltype
  celltype : CellCelltype
  path : PyStr
  /-- `_path_component is not _NO_PROJECTION` -/
  projection : Bool
  conversionLink : Bool
  validator : Option Nat
  validatorLanguage : Option PyStr
  scratch : Bool
  exception : Bool
  result : Option Checksum
  recipeKey : Option RecipeKey
  refholdsReleased : Bool
  claims : Checksum → Int

namespace Holder

/-- `_refheld_checksums()`, without the roles -/
def refheldChecksums (c : Holder) : List Checksum :=
  if c.refholdsReleased then [] else c.input.checksum?.toList ++ c.result.toList

/-- `incref_refholder`, as it ended -/
def acquire (c : Holder) (cs : Checksum) (a : Acquired) : Holder :=
  if a.books then { c with claims := Function.update c.claims cs (c.claims cs + 1) } else c

/-- The claim on a checksum is one less. -/
def release (c : Holder) : Option Checksum → Holder
  | none => c
  | some cs => { c with claims := Function.update c.claims cs (c.claims cs - 1) }

/-- `decref_refholder`, if there is a checksum -/
def giveBack (c : Holder) (cs : Option Checksum) (pending raises : Bool) : Result Holder :=
  -- the count is lowered before anything can raise
  match cs with
  | none => ⟨c, [], false⟩
  | some cs => ⟨c.release (some cs), [.release pending raises], raises⟩

/-- `_set_result_checksum(result)`; `pending` says that the caller has a claim to
give back afterwards, and `fades` that the release of the old result raises. -/
def setResult (c : Holder) (result : Option Checksum) (a : Acquired) (pending fades : Bool) :
    Result Holder :=
  let old := c.result
  match result with
  | none => { c with result := none }.giveBack old pending fades
  | some cs =>
    let c := c.acquire cs a
    if a.raises then ⟨c, [.acquire false a], true⟩
    else
      let r := { c with result := some cs }.giveBack old pending fades
      ⟨r.state, .acquire false a :: r.calls, r.raises⟩

/-- The fields that `_replace_input_ref` sets -/
def recordInput (c : Holder) (new : Option Checksum) (t : Option CellCelltype) : Holder :=
  { c with
    input := match new with
      | none => .none
      | some cs => .checksum cs
    inputCelltype := new.map fun _ => t.getD c.celltype
    exception := false }

/-- The part of `_replace_input_ref` after the new claim -/
def storeInput (c : Holder) (new : Option Checksum) (t : Option CellCelltype) (fades : Fades) :
    Result Holder :=
  let old := c.input.checksum?
  -- where the old result raises, the old input is not given back
  ((c.recordInput new t).setResult none .held old.isSome fades.result).andThen fun c =>
    c.giveBack old false fades.input

/-- `_replace_input_ref(checksum, input_celltype=…)` -/
def replaceInput (c : Holder) (new : Option Checksum) (t : Option CellCelltype) (a : Acquired)
    (fades : Fades) : Result Holder :=
  match new with
  | none => c.storeInput none t fades
  | some cs =>
    let c := c.acquire cs a
    if a.raises then ⟨c, [.acquire false a], true⟩
    else
      let r := c.storeInput (some cs) t fades
      ⟨r.state, .acquire false a :: r.calls, r.raises⟩

/-- `_release_refholds()`, also `__del__` -/
def releaseRefholds (c : Holder) (fades : Fades) : Result Holder :=
  if c.refholdsReleased then ⟨c, [], false⟩
  else
    -- it counts as released from here on, whatever raises
    ({ c with refholdsReleased := true }.giveBack c.input.checksum? c.result.isSome
      fades.input).andThen fun c => c.setResult none .held false fades.result

/-- A Cell that is finalized because its constructor raised: `__del__` swallows
the exceptions of the release. -/
def abandon (c : Holder) (calls : List Call) (fades : Fades) : Result Holder :=
  let r := c.releaseRefholds fades
  ⟨r.state, calls ++ r.calls, true⟩

/-- The constructor, from where it has set the input -/
def construct (c : Holder) (a : Acquired) (fades : Fades) : Result Holder :=
  match c.input.checksum? with
  | none => ⟨c, [], false⟩
  | some cs =>
    let c := c.acquire cs a
    if a = .refused true then
      -- `decref_refholder` ignores a checksum without claims
      ⟨{ (c.releaseRefholds ⟨false, false⟩).state with claims := c.claims }, [.acquire true a], true⟩
    else if a.raises then c.abandon [.acquire true a] fades
    else ⟨c, [.acquire true a], false⟩

/-- `__copy__()`; a duplicate that is not finished is finalized. -/
def copy (c : Holder) (input result : Acquired) (fades : Fades) : Result Holder :=
  let duplicate := { c with
    result := none
    refholdsReleased := false
    claims := fun _ => 0 }
  let first : Result Holder :=
    if c.refholdsReleased then ⟨duplicate, [], false⟩ else duplicate.construct input fades
  first.andThen fun duplicate =>
    if c.result.isSome && !c.refholdsReleased then
      -- the duplicate has no old result
      let r := duplicate.setResult c.result result false false
      if r.raises then r.state.abandon r.calls fades else r
    else ⟨{ duplicate with refholdsReleased := c.refholdsReleased }, [], false⟩

end Holder

/-! ## §2. Families of Cells. -/

/-- All Cells so far, named in the order in which they were made -/
structure Family where
  cells : Nat → Holder
  count : Nat

/-- What an evaluation gives: a result, a failure, or a `RunningLoopRefusal` -/
inductive Work where
  | result (r : Option Checksum)
  | failure
  | refusal
  deriving DecidableEq

/-- A read of `.checksum`: what an evaluation gives if there is one, how the
claim on its result ends, and whether the releases raise of the result that a
changed recipe drops and of the result that is replaced -/
structure Read where
  work : Work
  acquired : Acquired
  dropFades : Bool
  fades : Bool
  deriving DecidableEq

namespace Family

variable (s : Family)

/-- `cell.input_celltype` -/
def inputCelltypeOf (i : Nat) : Option CellCelltype :=
  match (s.cells i).input with
  | .cell j => some (s.cells j).celltype
  | .object _ t _ => some t
  | _ => (s.cells i).inputCelltype

/-- `_cell_recipe_key(cell)`, through at most `fuel` source Cells -/
def cellRecipeKey : (fuel : Nat) → Nat → RecipeKey
  | 0, i => .root (.object i) (s.cells i).celltype none [] 0 none
  | fuel + 1, i =>
    let c := s.cells i
    let root (source : SourceKey) : RecipeKey :=
      .root source c.celltype (s.inputCelltypeOf i) c.path (idOf c.validator) c.validatorLanguage
    match c.input with
    | .none => root (.object (idOf none))
    | .checksum cs => root (.checksum cs.hex)
    | .object id _ _ => root (.object (idOf (some id)))
    | .cell j =>
      .derived (cellRecipeKey fuel j) c.celltype (s.inputCelltypeOf i) c.path (idOf c.validator)
        c.validatorLanguage

/-- `cell._miswired()`, through at most `fuel` source Cells -/
def miswired : (fuel : Nat) → Nat → Bool
  | 0, _ => false
  | fuel + 1, i =>
    let c := s.cells i
    (match c.input with
      | .cell j => miswired fuel j
      | _ => false) ||
    (c.path ≠ [] && !(s.inputCelltypeOf i).any CellCelltype.isDeep &&
      s.inputCelltypeOf i ≠ some c.celltype)

/-- `cell._input_ref is None` -/
def unwired (i : Nat) : Bool := (s.cells i).input = .none

/-- The Cell needs no evaluation. -/
def literal (i : Nat) : Bool :=
  let c := s.cells i
  c.input.checksum?.isSome && c.path = [] && s.inputCelltypeOf i = some c.celltype &&
    c.validator = none

/-- `cell.source is not None` -/
def sourced (i : Nat) : Bool :=
  match (s.cells i).input with
  | .cell _ | .object _ _ _ => true
  | _ => false

/-- `_check_write_authority(detach)` does not raise. -/
def writable (i : Nat) (detach : Bool) : Bool :=
  (s.cells i).path = [] && (detach || !s.sourced i)

/-- An operation on one Cell -/
def onCell (i : Nat) (f : Holder → Result Holder) : Result Family :=
  let r := f (s.cells i)
  ⟨{ s with cells := Function.update s.cells i r.state }, r.calls, r.raises⟩

/-- One more Cell -/
def add (r : Result Holder) : Result Family :=
  ⟨⟨Function.update s.cells s.count r.state, s.count + 1⟩, r.calls, r.raises⟩

/-- Nothing happens, or the operation raises at once. -/
def stop (raises : Bool) : Result Family := ⟨s, [], raises⟩

/-- A change of one Cell that drops its result -/
def clearWith (i : Nat) (f : Holder → Holder) (fades : Bool) : Result Family :=
  s.onCell i fun c => (f { c with exception := false }).setResult none .held false fades

/-- `_sync_recipe()` -/
def syncRecipe (i : Nat) (fades : Bool) : Result Family :=
  let key := s.cellRecipeKey s.count i
  if (s.cells i).recipeKey = some key then s.stop false
  else s.clearWith i (fun c => { c with recipeKey := some key }) fades

/-- `.checksum`, which `.value` and `.buffer` read as well -/
def readChecksum (i : Nat) (read : Read) : Result Family :=
  (s.syncRecipe i read.dropFades).andThen fun s =>
    -- the branches of the property that do not evaluate
    if s.unwired i || s.miswired s.count i then s.stop false
    else if (s.cells i).exception then s.stop false
    else if (s.cells i).result.isSome then s.stop false
    else if s.literal i then s.stop false
    else
      match read.work with
      | .refusal => s.stop false
      | .failure => s.onCell i fun c => ⟨{ c with exception := true }, [], false⟩
      | .result r => s.onCell i fun c => c.setResult r read.acquired false read.fades

/-- A computation ends. -/
def finishCompute (i : Nat) (read : Read) : Result Family :=
  match read.work with
  | .result r =>
    s.onCell i fun c => { c with exception := false }.setResult r read.acquired false read.fades
  -- a `RunningLoopRefusal` is an exception as well
  | _ => s.onCell i fun c => { c with exception := true }.setResult none .held false read.fades

/-- `compute()` -/
def compute (i : Nat) (read : Read) : Result Family :=
  (s.syncRecipe i read.dropFades).andThen fun s =>
    if s.miswired s.count i then s.stop false
    else if s.literal i && !(s.cells i).exception then s.stop false
    else s.finishCompute i read

/-! ## §3. Writes. -/

/-- `_write_value`, `_write_checksum` and `_write_buffer` of a Cell that is no
handle; `new` is what the value or buffer is serialized to, where `none` is an
exception. -/
def write (i : Nat) (detach : Bool) (new : Option (Option Checksum)) (t : Option CellCelltype)
    (a : Acquired) (fades : Fades) : Result Family :=
  if (s.cells i).projection || (s.cells i).conversionLink || !s.writable i detach then s.stop true
  else
    match new with
    | none => s.stop true
    | some new => s.onCell i fun c => c.replaceInput new t a fades

/-- `_standalone_write_info()`: the root, whether there is a path, and whether a
conversion is met; through at most `fuel` Cells -/
def writeInfo : (fuel : Nat) → (i : Nat) → (path conversion : Bool) → Nat × Bool × Bool
  | 0, i, path, conversion => (i, path, conversion)
  | fuel + 1, i, path, conversion =>
    let c := s.cells i
    if c.projection || c.conversionLink then
      let path := path || c.projection
      let conversion := conversion || c.conversionLink
      match c.input with
      | .cell j => writeInfo fuel j path conversion
      | _ => (i, path, conversion)
    else (i, path, conversion)

/-- `_standalone_commit(target, path, value)`; `new` is what the changed root
value is serialized to, where `none` is an exception on the way. -/
def commit (target : Nat) (path : Bool) (root : Read) (new : Option Checksum) (a : Acquired)
    (fades : Fades) : Result Family :=
  let store (s : Family) : Result Family :=
    match new with
    | none => s.stop true
    | some cs =>
      s.onCell target fun c => c.replaceInput (some cs) (some c.celltype) a fades
  -- an item is written into the value that the root has
  if path then (s.readChecksum target root).andThen store else store s

/-- The writes and deletions through a handle or at an item of a Cell; an
augmented assignment reads the handle first.  `prepared` says that the value of
the member is made without an exception. -/
def writeThrough (i : Nat) (extraPath : Bool) (augmented : Option Read) (prepared : Bool)
    (root : Read) (new : Option Checksum) (a : Acquired) (fades : Fades) : Result Family :=
  let (target, path, conversion) := s.writeInfo s.count i extraPath false
  let store (s : Family) : Result Family :=
    if prepared then s.commit target path root new a fades else s.stop true
  if conversion || !s.writable target false then s.stop true
  else
    match augmented with
    | none => store s
    | some read => (s.readChecksum i read).andThen store

/-- `cell.celltype = celltype` -/
def retype (i : Nat) (t : CellCelltype) (fades : Bool) : Result Family :=
  -- `_check_projected_source(self.source, celltype)`
  let behindProjection : Bool :=
    match (s.cells i).input with
    | .cell j => (s.cells j).path ≠ [] && (s.cells j).celltype ≠ t
    | .object _ u projected => projected && u ≠ t
    | _ => false
  let converts : Bool := (s.cells i).path ≠ [] &&
    !(s.inputCelltypeOf i).any CellCelltype.isDeep && s.inputCelltypeOf i ≠ some t
  if behindProjection || converts then s.stop true
  else s.clearWith i (fun c => { c with celltype := t }) fades

/-! ## §4. Runs. -/

/-- The operations.  An evaluation reads the Cells it is built on first: these
reads are operations of their own. -/
inductive Op where
  /-- `Cell(…)`, also in `item`, `slice`, `as_celltype` and `with_input` -/
  | construct (input : Input) (celltype : CellCelltype) (inputCelltype : Option CellCelltype)
      (path : PyStr) (projection conversionLink : Bool) (validator : Option Nat)
      (language : Option PyStr) (scratch : Bool) (a : Acquired) (fades : Fades)
  /-- `copy` and `deepcopy` -/
  | copy (i : Nat) (input result : Acquired) (fades : Fades)
  | write (i : Nat) (detach : Bool) (new : Option (Option Checksum)) (t : Option CellCelltype)
      (a : Acquired) (fades : Fades)
  | writeThrough (i : Nat) (extraPath : Bool) (augmented : Option Read) (prepared : Bool)
      (root : Read) (new : Option Checksum) (a : Acquired) (fades : Fades)
  | retype (i : Nat) (t : CellCelltype) (fades : Bool)
  | setValidator (i : Nat) (v : Option Nat) (fades : Bool)
  | setValidatorLanguage (i : Nat) (l : Option PyStr) (fades : Bool)
  | setScratch (i : Nat) (scratch : Bool) (a : Acquired) (fades : Bool)
  | readChecksum (i : Nat) (read : Read)
  /-- `state`, `exception` and `fingertip` -/
  | sync (i : Nat) (fades : Bool)
  | clearException (i : Nat)
  | compute (i : Nat) (read : Read)
  /-- The end of `compute_async()` -/
  | finishCompute (i : Nat) (read : Read)
  | releaseRefholds (i : Nat) (fades : Fades)

/-- The Cell that an operation is called on, or the Cell that a new one is made of -/
def Op.subject : Op → Option Nat
  | .construct (.cell j) .. => some j
  | .construct .. => none
  | .copy i _ _ _ | .write i _ _ _ _ _ | .writeThrough i _ _ _ _ _ _ _ | .retype i _ _
  | .setValidator i _ _ | .setValidatorLanguage i _ _ | .setScratch i _ _ _ | .readChecksum i _
  | .sync i _ | .clearException i | .compute i _ | .finishCompute i _ | .releaseRefholds i _ =>
    some i

/-- The Cells whose claims an operation may change or copy -/
def touched : Op → List Nat
  | .construct .. => []
  | .writeThrough i extraPath _ _ _ _ _ _ => [i, (s.writeInfo s.count i extraPath false).1]
  | op => op.subject.toList

/-- One operation -/
def run : Op → Result Family
  | .construct input celltype inputCelltype path projection conversionLink validator language
      scratch a fades =>
    let c : Holder :=
      { input := input, inputCelltype := inputCelltype, celltype := celltype, path := path,
        projection := projection, conversionLink := conversionLink, validator := validator,
        validatorLanguage := language, scratch := scratch, exception := false, result := none,
        recipeKey := none, refholdsReleased := false, claims := fun _ => 0 }
    s.add (c.construct a fades)
  | .copy i input result fades => s.add ((s.cells i).copy input result fades)
  | .write i detach new t a fades => s.write i detach new t a fades
  | .writeThrough i extraPath augmented prepared root new a fades =>
    s.writeThrough i extraPath augmented prepared root new a fades
  | .retype i t fades => s.retype i t fades
  | .setValidator i v fades => s.clearWith i (fun c => { c with validator := v }) fades
  | .setValidatorLanguage i l fades =>
    s.clearWith i (fun c => { c with validatorLanguage := l }) fades
  -- the held result is claimed again under the new policy
  | .setScratch i scratch a fades =>
    s.onCell i fun c => { c with scratch := scratch }.setResult c.result a false fades
  | .readChecksum i read => s.readChecksum i read
  | .sync i fades => s.syncRecipe i fades
  | .clearException i => s.onCell i fun c => ⟨{ c with exception := false }, [], false⟩
  | .compute i read => s.compute i read
  | .finishCompute i read => s.finishCompute i read
  | .releaseRefholds i fades => s.onCell i fun c => c.releaseRefholds fades

/-- One step of a run; there is no operation on a Cell that was not made. -/
def step (s : Family) (op : Op) : Family × List Call :=
  if (op.subject.map fun i => decide (i < s.count)).getD true then
    ((s.run op).state, (s.run op).calls)
  else (s, [])

/-- No Cell yet -/
def empty : Family where
  cells _ :=
    { input := .none, inputCelltype := none, celltype := .value .mixed, path := [],
      projection := false, conversionLink := false, validator := none, validatorLanguage := none,
      scratch := false, exception := false, result := none, recipeKey := none,
      refholdsReleased := false, claims := fun _ => 0 }
  count := 0

/-- The family after the operations -/
def after (ops : List Op) : Family := Run.exec step empty ops

end Family

/-! ## §5. The changes of a Cell. -/

/-- The claims of a Cell are those of its record. -/
def Holder.Balanced (c : Holder) : Prop :=
  ∀ cs, c.claims cs = (c.refheldChecksums.count cs : Int)

/-- The claims that a checksum in a field notes -/
def noted (o : Option Checksum) (cs : Checksum) : Int := if o = some cs then 1 else 0

theorem count_toList (o : Option Checksum) (cs : Checksum) :
    ((o.toList.count cs : Nat) : Int) = noted o cs := by
  unfold noted
  cases o with
  | none => rfl
  | some c =>
    by_cases hc : c = cs
    · simp [hc]
    · simp [hc]

theorem noted_self (cs : Checksum) : noted (some cs) cs = 1 := if_pos rfl

namespace Holder

theorem count_refheld {c : Holder} (h : c.refholdsReleased = false) (cs : Checksum) :
    (c.refheldChecksums.count cs : Int) = noted c.input.checksum? cs + noted c.result cs := by
  unfold refheldChecksums
  rw [if_neg (by rw [h]; decide), List.count_append, Nat.cast_add, count_toList, count_toList]

theorem balanced_iff {c : Holder} (h : c.refholdsReleased = false) :
    c.Balanced ↔ ∀ cs, c.claims cs = noted c.input.checksum? cs + noted c.result cs := by
  unfold Balanced
  constructor
  · intro hb cs
    rw [← count_refheld h]
    exact hb cs
  · intro hb cs
    rw [count_refheld h]
    exact hb cs

theorem balanced_of_released {c : Holder} (h : c.refholdsReleased = true) :
    c.Balanced ↔ ∀ cs, c.claims cs = 0 := by
  unfold Balanced refheldChecksums
  rw [if_pos h]
  rfl

/-- Balanced, and not released yet -/
structure Sound (c : Holder) : Prop where
  balanced : c.Balanced
  kept : c.refholdsReleased = false

theorem release_claims (c : Holder) (o : Option Checksum) (cs : Checksum) :
    (c.release o).claims cs = c.claims cs - noted o cs := by
  unfold noted
  cases o with
  | none => exact (sub_zero _).symm
  | some c' =>
    show Function.update c.claims c' _ cs = _
    by_cases hc : cs = c'
    · rw [hc, Function.update_self, if_pos rfl]
    · rw [Function.update_of_ne hc, if_neg fun heq => hc (Option.some.inj heq).symm, sub_zero]

theorem acquire_claims (c : Holder) (c' : Checksum) (a : Acquired) (cs : Checksum) :
    (c.acquire c' a).claims cs =
      c.claims cs + if a.books then noted (some c') cs else 0 := by
  unfold acquire noted
  cases a.books with
  | false => exact (add_zero _).symm
  | true =>
    show Function.update c.claims c' _ cs = _
    by_cases hc : cs = c'
    · rw [hc, Function.update_self, if_pos rfl, if_pos rfl]
    · rw [Function.update_of_ne hc, if_pos rfl, if_neg fun heq => hc (Option.some.inj heq).symm,
        add_zero]

theorem acquire_held_claims (c : Holder) (c' cs : Checksum) :
    (c.acquire c' .held).claims cs = c.claims cs + noted (some c') cs :=
  acquire_claims c c' .held cs

@[simp] theorem release_released (c : Holder) (o : Option Checksum) :
    (c.release o).refholdsReleased = c.refholdsReleased := by
  cases o <;> rfl

@[simp] theorem release_input (c : Holder) (o : Option Checksum) :
    (c.release o).input = c.input := by
  cases o <;> rfl

@[simp] theorem release_result (c : Holder) (o : Option Checksum) :
    (c.release o).result = c.result := by
  cases o <;> rfl

@[simp] theorem acquire_released (c : Holder) (cs : Checksum) (a : Acquired) :
    (c.acquire cs a).refholdsReleased = c.refholdsReleased := by
  unfold acquire
  split <;> rfl

@[simp] theorem acquire_input (c : Holder) (cs : Checksum) (a : Acquired) :
    (c.acquire cs a).input = c.input := by
  unfold acquire
  split <;> rfl

@[simp] theorem acquire_result (c : Holder) (cs : Checksum) (a : Acquired) :
    (c.acquire cs a).result = c.result := by
  unfold acquire
  split <;> rfl

end Holder

/-- An operation keeps the balance exactly when no call of it spoils it, and it
does not go on after one that does.  What `keep` says is kept in any case. -/
structure Exact {S : Type} (keep fine : S → Prop) (r : Result S) : Prop where
  keeps : keep r.state
  fine_iff : fine r.state ↔ ∀ call ∈ r.calls, call.spoils = false
  stops : r.raises = false → ∀ call ∈ r.calls, call.spoils = false

namespace Exact

variable {S : Type} {keep fine : S → Prop} {s : S} {r r' : Result S}

theorem of_none (hkeep : keep r.state) (h : fine r.state) (hnone : r.calls = []) :
    Exact keep fine r where
  keeps := hkeep
  fine_iff := by
    rw [hnone]
    exact ⟨fun _ call hcall => absurd hcall List.not_mem_nil, fun _ => h⟩
  stops _ := by
    rw [hnone]
    exact fun call hcall => absurd hcall List.not_mem_nil

theorem of_one {call : Call} {raises : Bool} (hkeep : keep s) (h : fine s ↔ call.spoils = false)
    (hstops : raises = false → call.spoils = false) : Exact keep fine ⟨s, [call], raises⟩ where
  keeps := hkeep
  fine_iff := by
    rw [h]
    simp
  stops hraises call' hcall := by
    rw [List.mem_singleton.mp hcall]
    exact hstops hraises

/-- A call in front that spoils nothing -/
theorem cons {call : Call} (hcall : call.spoils = false) (h : Exact keep fine r) :
    Exact keep fine ⟨r.state, call :: r.calls, r.raises⟩ where
  keeps := h.keeps
  fine_iff := by
    rw [h.fine_iff]
    simp [hcall]
  stops hraises := List.forall_mem_cons.mpr ⟨hcall, h.stops hraises⟩

theorem ite {p : Prop} [Decidable p] (h : Exact keep fine r) (h' : Exact keep fine r') :
    Exact keep fine (if p then r else r') := by
  split
  · exact h
  · exact h'

theorem andThen {next : S → Result S} (h : Exact keep fine r)
    (hstop : r.raises = true → Exact keep fine r)
    (hnext : r.raises = false → keep r.state → fine r.state → Exact keep fine (next r.state)) :
    Exact keep fine (r.andThen next) := by
  unfold Result.andThen
  cases hraises : r.raises with
  | true => exact hstop hraises
  | false =>
    have hgood := h.stops hraises
    have hrest := hnext hraises h.keeps (h.fine_iff.mpr hgood)
    have hall : (∀ call ∈ r.calls ++ (next r.state).calls, call.spoils = false) ↔
        ∀ call ∈ (next r.state).calls, call.spoils = false := by
      rw [List.forall_mem_append]
      exact ⟨fun hb => hb.2, fun hb => ⟨hgood, hb⟩⟩
    refine ⟨hrest.keeps, ?_, ?_⟩
    · show fine (next r.state).state ↔ ∀ call ∈ r.calls ++ (next r.state).calls, _
      rw [hall]
      exact hrest.fine_iff
    · intro hlast
      show ∀ call ∈ r.calls ++ (next r.state).calls, _
      exact hall.mpr (hrest.stops hlast)

end Exact

namespace Holder

/-- Not released yet -/
def Kept (c : Holder) : Prop := c.refholdsReleased = false

/-- A claim that is taken before it is recorded, and not recorded in the end,
spoils the balance exactly when it was booked. -/
theorem acquire_balanced {c : Holder} (h : c.Sound) (cs : Checksum) {a : Acquired}
    (hraises : a.raises = true) :
    (c.acquire cs a).Balanced ↔ (Call.acquire false a).spoils = false := by
  cases a with
  | held => cases hraises
  | refused unclaimed => exact ⟨fun _ => rfl, fun _ => h.balanced⟩
  | unwritten =>
    constructor
    · intro hbalanced
      have hkept : (c.acquire cs .unwritten).refholdsReleased = false := by
        rw [acquire_released]
        exact h.kept
      have hnew := (balanced_iff hkept).mp hbalanced cs
      have hold := (balanced_iff h.kept).mp h.balanced cs
      rw [acquire_claims, acquire_input, acquire_result, hold, noted_self] at hnew
      simp [Acquired.books] at hnew
    · intro hspoils
      cases hspoils

theorem giveBack_state (c : Holder) (cs : Option Checksum) (pending fades : Bool) :
    (c.giveBack cs pending fades).state = c.release cs := by
  cases cs <;> rfl

/-- The last release of an operation spoils nothing, also where it raises. -/
theorem giveBack_exact {keep fine : Holder → Prop} {c : Holder} {cs : Option Checksum}
    (hkeep : keep (c.release cs)) (h : fine (c.release cs)) (fades : Bool) :
    Exact keep fine (c.giveBack cs false fades) := by
  cases cs with
  | none => exact Exact.of_none hkeep h rfl
  | some cs => exact Exact.of_one hkeep ⟨fun _ => rfl, fun _ => h⟩ fun _ => rfl

theorem setResult_released (c : Holder) (result : Option Checksum) (a : Acquired)
    (pending fades : Bool) :
    (c.setResult result a pending fades).state.refholdsReleased = c.refholdsReleased := by
  cases result with
  | none =>
    show (Holder.giveBack _ _ _ _).state.refholdsReleased = _
    rw [giveBack_state]
    exact release_released _ _
  | some cs =>
    unfold setResult
    dsimp only
    split
    · exact acquire_released c cs a
    · rw [giveBack_state, release_released]
      exact acquire_released c cs a

theorem setResult_exact {c : Holder} (h : c.Sound) (result : Option Checksum) (a : Acquired)
    (fades : Bool) : Exact Kept Balanced (c.setResult result a false fades) := by
  have hold := (balanced_iff h.kept).mp h.balanced
  have hkept := (setResult_released c result a false fades).trans h.kept
  cases result with
  | none =>
    unfold setResult at hkept ⊢
    rw [giveBack_state] at hkept
    -- the old claim goes, and nothing comes in its place
    refine giveBack_exact hkept ((balanced_iff hkept).mpr fun cs => ?_) fades
    rw [release_claims, release_input, release_result, hold]
    show _ = _ + noted none cs
    unfold noted
    simp
  | some cs =>
    unfold setResult at hkept ⊢
    dsimp only at hkept ⊢
    cases hraises : a.raises with
    | true =>
      rw [hraises, if_pos rfl] at hkept
      rw [if_pos rfl]
      exact Exact.of_one hkept (acquire_balanced h cs hraises) fun hf => by cases hf
    | false =>
      rw [hraises, if_neg Bool.false_ne_true, giveBack_state] at hkept
      rw [if_neg Bool.false_ne_true]
      -- the new claim is made before the old one is given back
      have hheld : a = .held := by
        cases a <;> first | rfl | cases hraises
      subst hheld
      refine Exact.cons rfl (giveBack_exact hkept ((balanced_iff hkept).mpr fun d => ?_) fades)
      rw [release_claims, release_input, release_result]
      show (c.acquire cs .held).claims d - noted c.result d = _ + noted (some cs) d
      rw [acquire_held_claims, hold]
      show _ = noted (c.acquire cs .held).input.checksum? d + _
      rw [acquire_input]
      omega

/-- Two releases in a row, with a change `u` of the record between them: where
the first raises, the claim of the second is left. -/
theorem giveBack_then {keep fine : Holder → Prop} {d : Holder} {first second : Option Checksum}
    {u : Holder → Holder} (hkeep : keep (d.release first))
    (hkeep' : keep ((u (d.release first)).release second))
    (hend : fine ((u (d.release first)).release second))
    (hmid : first.isSome → (fine (d.release first) ↔ second = none)) (fades fades' : Bool) :
    Exact keep fine ((d.giveBack first second.isSome fades).andThen fun c =>
      (u c).giveBack second false fades') := by
  cases first with
  | none => exact giveBack_exact hkeep' hend fades'
  | some cs =>
    cases fades with
    | false =>
      have hquiet : (Call.release second.isSome false).spoils = false := by
        cases second <;> rfl
      exact Exact.cons hquiet (giveBack_exact hkeep' hend fades')
    | true =>
      have hspoils : (Call.release second.isSome true).spoils = false ↔ second = none := by
        cases second <;> simp [Call.spoils]
      exact Exact.of_one hkeep ((hmid rfl).trans hspoils.symm) fun h => by cases h

theorem recordInput_input (c : Holder) (new : Option Checksum) (t : Option CellCelltype) :
    (c.recordInput new t).input.checksum? = new := by
  cases new <;> rfl

/-- The new input is recorded and the old claims are given back.  Where the
release of the old result raises, an old input stays booked. -/
theorem storeInput_exact {c : Holder} {new : Option Checksum} (t : Option CellCelltype)
    (fades : Fades) (hkept : c.refholdsReleased = false)
    (hclaims : ∀ cs, c.claims cs = noted c.input.checksum? cs + noted c.result cs + noted new cs) :
    Exact Kept Balanced (c.storeInput new t fades) := by
  set d : Holder := { c.recordInput new t with result := none } with hd
  have hinput : d.input.checksum? = new := recordInput_input c new t
  -- the state between the two releases, and the state after both
  have hkept₁ : (d.release c.result).refholdsReleased = false := by
    rw [release_released]
    exact hkept
  have hkept₂ : ((d.release c.result).release c.input.checksum?).refholdsReleased = false := by
    rw [release_released]
    exact hkept₁
  have hmid : ∀ cs, (d.release c.result).claims cs =
      noted c.input.checksum? cs + noted new cs := by
    intro cs
    rw [release_claims]
    show c.claims cs - noted c.result cs = _
    rw [hclaims]
    omega
  have hnone : ∀ cs, noted d.result cs = 0 := fun cs => if_neg (by simp [hd])
  refine giveBack_then (u := fun c => c) hkept₁ hkept₂ ?_ (fun _ => ?_) fades.result fades.input
  · refine (balanced_iff hkept₂).mpr fun cs => ?_
    rw [release_claims, hmid, release_input, release_result, release_input, release_result, hinput,
      hnone]
    omega
  · show (d.release c.result).Balanced ↔ _
    rw [balanced_iff hkept₁]
    constructor
    · intro hbalanced
      cases ho : c.input.checksum? with
      | none => rfl
      | some o =>
        have hcs := hbalanced o
        rw [hmid, release_input, release_result, hinput, hnone, ho, noted_self] at hcs
        omega
    · intro ho cs
      rw [hmid, release_input, release_result, hinput, hnone, ho]
      show noted none cs + _ = _
      have hzero : noted none cs = 0 := if_neg (by simp)
      omega

theorem replaceInput_exact {c : Holder} (h : c.Sound) (new : Option Checksum)
    (t : Option CellCelltype) (a : Acquired) (fades : Fades) :
    Exact Kept Balanced (c.replaceInput new t a fades) := by
  have hold := (balanced_iff h.kept).mp h.balanced
  cases new with
  | none =>
    refine storeInput_exact t fades h.kept fun cs => ?_
    have hnone : noted none cs = 0 := if_neg (by simp)
    rw [hold, hnone, add_zero]
  | some cs =>
    have hkept : (c.acquire cs a).refholdsReleased = false := by
      rw [acquire_released]
      exact h.kept
    unfold replaceInput
    dsimp only
    cases hraises : a.raises with
    | true =>
      rw [if_pos rfl]
      exact Exact.of_one hkept (acquire_balanced h cs hraises) fun hf => by cases hf
    | false =>
      rw [if_neg Bool.false_ne_true]
      have hheld : a = .held := by
        cases a <;> first | rfl | cases hraises
      subst hheld
      refine Exact.cons rfl (storeInput_exact t fades hkept fun d => ?_)
      rw [acquire_held_claims, acquire_input, acquire_result, hold]

/-- The two releases of a Cell -/
theorem releaseRefholds_eq {c : Holder} (h : c.refholdsReleased = false) (fades : Fades) :
    c.releaseRefholds fades =
      ({ c with refholdsReleased := true }.giveBack c.input.checksum? c.result.isSome
        fades.input).andThen fun c' =>
          { c' with result := none }.giveBack c.result false fades.result := by
  unfold releaseRefholds
  rw [if_neg (by rw [h]; decide)]
  cases c.input.checksum? <;> rfl

/-- The claims between them, and in the end -/
theorem released_claims (c : Holder) (cs : Checksum) :
    ({ c with refholdsReleased := true }.release c.input.checksum?).claims cs =
        c.claims cs - noted c.input.checksum? cs ∧
    ({ ({ c with refholdsReleased := true }.release c.input.checksum?) with result := none }.release
        c.result).claims cs = c.claims cs - noted c.input.checksum? cs - noted c.result cs := by
  rw [release_claims, release_claims]
  refine ⟨rfl, ?_⟩
  show (Holder.release _ _).claims cs - _ = _
  rw [release_claims]

/-- A release of a Cell gives back its input and then its result; where the
first raises, the second stays booked. -/
theorem releaseRefholds_exact {c : Holder} (h : c.refholdsReleased = false) (fades : Fades)
    (hclaims : ∀ cs, c.claims cs = noted c.input.checksum? cs + noted c.result cs) :
    Exact (fun _ => True) Balanced (c.releaseRefholds fades) := by
  have hmid : ({ c with refholdsReleased := true }.release c.input.checksum?).refholdsReleased =
      true := release_released _ _
  have hend : ({ ({ c with refholdsReleased := true }.release c.input.checksum?) with
      result := none }.release c.result).refholdsReleased = true := by
    rw [release_released]
    exact hmid
  rw [releaseRefholds_eq h]
  refine giveBack_then (u := fun c' => { c' with result := none }) trivial trivial ?_ (fun _ => ?_)
    fades.input fades.result
  · refine (balanced_of_released hend).mpr fun cs => ?_
    rw [(released_claims c cs).2, hclaims]
    omega
  · -- the result is not given back yet
    rw [balanced_of_released hmid]
    have hleft : ∀ cs, ({ c with refholdsReleased := true }.release c.input.checksum?).claims cs =
        noted c.result cs := by
      intro cs
      rw [(released_claims c cs).1, hclaims]
      omega
    constructor
    · intro hzero
      cases hr : c.result with
      | none => rfl
      | some r =>
        have hcs := hzero r
        rw [hleft, hr, noted_self] at hcs
        cases hcs
    · intro hr cs
      rw [hleft, hr]
      exact if_neg (by simp)

/-- A Cell without result is released with its input given back. -/
theorem releaseRefholds_unresulted {c : Holder} (h : c.refholdsReleased = false)
    (hresult : c.result = none) (fades : Fades) :
    (c.releaseRefholds fades).state.refholdsReleased = true ∧
      (∀ cs, (c.releaseRefholds fades).state.claims cs = c.claims cs - noted c.input.checksum? cs) ∧
      ∀ call ∈ (c.releaseRefholds fades).calls, call.spoils = false := by
  have hclaims : ∀ cs, ({ c with refholdsReleased := true }.release c.input.checksum?).claims cs =
      c.claims cs - noted c.input.checksum? cs := fun cs => (released_claims c cs).1
  rw [releaseRefholds_eq h, hresult]
  cases hi : c.input.checksum? with
  | none =>
    rw [hi] at hclaims
    exact ⟨rfl, hclaims, fun call hcall => absurd hcall List.not_mem_nil⟩
  | some o =>
    rw [hi] at hclaims
    cases fades.input with
    | false => exact ⟨rfl, hclaims, fun call hcall => by rw [List.mem_singleton.mp hcall]; rfl⟩
    | true => exact ⟨rfl, hclaims, fun call hcall => by rw [List.mem_singleton.mp hcall]; rfl⟩

/-- A Cell that is finalized before it has a result gives back its input. -/
theorem abandon_exact {c : Holder} (h : c.refholdsReleased = false) (hresult : c.result = none)
    (fades : Fades) {calls : List Call}
    (hcalls : (∀ cs, c.claims cs = noted c.input.checksum? cs) ↔
      ∀ call ∈ calls, call.spoils = false) :
    Exact (fun _ => True) Balanced (c.abandon calls fades) := by
  obtain ⟨hreleased, hclaims, hquiet⟩ := releaseRefholds_unresulted h hresult fades
  refine ⟨trivial, ?_, fun hf => by cases hf⟩
  show Balanced (c.releaseRefholds fades).state ↔
    ∀ call ∈ calls ++ (c.releaseRefholds fades).calls, _
  rw [List.forall_mem_append, balanced_of_released hreleased, ← hcalls]
  constructor
  · intro hzero
    refine ⟨fun cs => ?_, hquiet⟩
    have hcs := hzero cs
    rw [hclaims] at hcs
    omega
  · intro hall cs
    rw [hclaims, hall.1 cs]
    omega

/-- A Cell with nothing but a recorded input, whose claim is taken -/
theorem construct_exact {c : Holder} (hkept : c.refholdsReleased = false)
    (hresult : c.result = none) (hclaims : ∀ cs, c.claims cs = 0) (a : Acquired) (fades : Fades) :
    Exact (fun _ => True) Balanced (c.construct a fades) ∧
      ((c.construct a fades).raises = false →
        (c.construct a fades).state.refholdsReleased = false ∧
          (c.construct a fades).state.result = none) := by
  have hnone : ∀ cs, noted none cs = 0 := fun cs => if_neg (by simp)
  unfold construct
  cases hinput : c.input.checksum? with
  | none =>
    refine ⟨Exact.of_none trivial ((balanced_iff hkept).mpr fun cs => ?_) rfl,
      fun _ => ⟨hkept, hresult⟩⟩
    rw [hclaims, hinput, hresult, hnone]
    rfl
  | some cs =>
    dsimp only
    have hkept' : (c.acquire cs a).refholdsReleased = false := by
      rw [acquire_released]
      exact hkept
    have hresult' : (c.acquire cs a).result = none := by
      rw [acquire_result]
      exact hresult
    cases a with
    | held =>
      refine ⟨Exact.of_one trivial ⟨fun _ => rfl, fun _ => ?_⟩ fun _ => rfl,
        fun _ => ⟨hkept', hresult'⟩⟩
      apply (balanced_iff hkept').mpr
      intro d
      rw [acquire_held_claims, acquire_input, acquire_result, hclaims, hinput, hresult, hnone]
      omega
    | refused unclaimed =>
      cases unclaimed with
      | true =>
        refine ⟨Exact.of_one trivial ⟨fun _ => rfl, fun _ => ?_⟩ (fun hf => by cases hf),
          (fun hf => by cases hf)⟩
        -- nothing was taken, and nothing is given back
        set finalized : Holder := { ((c.acquire cs (.refused true)).releaseRefholds
          ⟨false, false⟩).state with claims := c.claims } with hfinalized
        have hreleased : finalized.refholdsReleased = true :=
          (releaseRefholds_unresulted hkept' hresult' ⟨false, false⟩).1
        exact (balanced_of_released hreleased).mpr hclaims
      | false =>
        -- the finalizer gives back a claim that was never taken
        refine ⟨abandon_exact hkept' hresult' fades ⟨fun hbalanced => ?_, fun hspoils => ?_⟩,
          (fun hf => by cases hf)⟩
        · have hcs := hbalanced cs
          rw [acquire_claims, acquire_input, hclaims, hinput, noted_self] at hcs
          simp [Acquired.books] at hcs
        · have hcs := hspoils _ List.mem_cons_self
          cases hcs
    | unwritten =>
      refine ⟨abandon_exact hkept' hresult' fades ⟨fun _ => ?_, fun _ d => ?_⟩,
        (fun hf => by cases hf)⟩
      · simp [Call.spoils]
      · rw [acquire_claims, acquire_input, hclaims, hinput]
        show 0 + noted (some cs) d = _
        omega

/-- A finished or finalized duplicate -/
theorem copy_exact {c : Holder} (h : c.refholdsReleased = false) (input result : Acquired)
    (fades : Fades) : Exact (fun _ => True) Balanced (c.copy input result fades) := by
  unfold copy
  dsimp only
  rw [h, if_neg Bool.false_ne_true]
  obtain ⟨hfirst, hdone⟩ := construct_exact
    (c := { c with
      result := none
      refholdsReleased := false
      claims := fun _ => 0 }) rfl rfl (fun _ => rfl) input fades
  apply hfirst.andThen fun _ => hfirst
  intro hraises _ hbalanced
  obtain ⟨hkept, hnoresult⟩ := hdone hraises
  generalize Holder.construct _ input fades = r at hbalanced hkept hnoresult
  cases hresult : c.result with
  | none =>
    rw [if_neg (by decide)]
    refine Exact.of_none trivial ?_ rfl
    have hsame : ({ r.state with refholdsReleased := false } : Holder) = r.state := by
      rw [← hkept]
    rw [hsame]
    exact hbalanced
  | some cs =>
    rw [if_pos (by rfl)]
    have hset := setResult_exact ⟨hbalanced, hkept⟩ (some cs) result false
    by_cases hfails : result.raises = true
    · -- the claim is refused or not written, and the duplicate goes
      have hstop : r.state.setResult (some cs) result false false =
          ⟨r.state.acquire cs result, [.acquire false result], true⟩ := by
        unfold setResult
        dsimp only
        rw [if_pos hfails]
      rw [hstop, if_pos rfl]
      have hkept' : (r.state.acquire cs result).refholdsReleased = false := by
        rw [acquire_released]
        exact hkept
      have hresult' : (r.state.acquire cs result).result = none := by
        rw [acquire_result]
        exact hnoresult
      refine abandon_exact hkept' hresult' fades ?_
      have hacquire := acquire_balanced ⟨hbalanced, hkept⟩ cs hfails
      rw [balanced_iff hkept', hresult'] at hacquire
      have hnone : ∀ d, noted none d = 0 := fun d => if_neg (by simp)
      simp only [hnone, add_zero] at hacquire
      rw [hacquire]
      simp
    · have hno : (r.state.setResult (some cs) result false false).raises = false := by
        unfold setResult
        dsimp only
        rw [if_neg hfails, hnoresult]
        rfl
      rw [if_neg (by rw [hno]; decide)]
      exact ⟨trivial, hset.fine_iff, hset.stops⟩

end Holder

/-! ## §6. The operations. -/

namespace Family

/-- The same Cells are released. -/
def SameReleased (s₀ s : Family) : Prop :=
  ∀ i, (s.cells i).refholdsReleased = (s₀.cells i).refholdsReleased

/-- Every Cell is balanced. -/
def AllBalanced (s : Family) : Prop := ∀ i, (s.cells i).Balanced

/-- An operation on Cells that are not released in `s₀` -/
abbrev Behaves (s₀ : Family) : Result Family → Prop := Exact (SameReleased s₀) AllBalanced

variable {s₀ s : Family} {i : Nat}

section

variable (hsame : SameReleased s₀ s) (hs : AllBalanced s)
  (hi : (s₀.cells i).refholdsReleased = false)

include hsame hs

theorem stop_behaves (raises : Bool) : Behaves s₀ (s.stop raises) := Exact.of_none hsame hs rfl

include hi

theorem onCell_behaves {f : Holder → Result Holder}
    (hf : ∀ c : Holder, c.Sound → Exact Holder.Kept Holder.Balanced (f c)) :
    Behaves s₀ (s.onCell i f) := by
  have hexact := hf (s.cells i) ⟨hs i, (hsame i).trans hi⟩
  have hself : (s.onCell i f).state.cells i = (f (s.cells i)).state := Function.update_self _ _ _
  have hother : ∀ j, j ≠ i → (s.onCell i f).state.cells j = s.cells j :=
    fun j hj => Function.update_of_ne hj _ _
  refine ⟨?_, Iff.trans ⟨fun hfine => ?_, fun hcell => ?_⟩ hexact.fine_iff, hexact.stops⟩
  · intro j
    by_cases hj : j = i
    · rw [hj, hself, hi]
      exact hexact.keeps
    · rw [hother j hj]
      exact hsame j
  · rw [← hself]
    exact hfine i
  · intro j
    by_cases hj : j = i
    · rw [hj, hself]
      exact hcell
    · rw [hother j hj]
      exact hs j

end

/-- A change of fields that are no claims and no record keeps a Cell sound. -/
theorem sound_of_same {c d : Holder} (h : c.Sound) (hclaims : d.claims = c.claims)
    (hinput : d.input = c.input) (hresult : d.result = c.result)
    (hkept : d.refholdsReleased = c.refholdsReleased) : d.Sound := by
  have hd : d.refholdsReleased = false := hkept.trans h.kept
  refine ⟨(Holder.balanced_iff hd).mpr fun cs => ?_, hd⟩
  rw [hclaims, hinput, hresult]
  exact (Holder.balanced_iff h.kept).mp h.balanced cs

section

variable (hsame : SameReleased s₀ s) (hs : AllBalanced s)
  (hi : (s₀.cells i).refholdsReleased = false)

include hsame hs hi

theorem clearWith_behaves {f : Holder → Holder}
    (hf : ∀ c : Holder, c.Sound → (f { c with exception := false }).Sound) (fades : Bool) :
    Behaves s₀ (s.clearWith i f fades) :=
  onCell_behaves hsame hs hi fun c hc => Holder.setResult_exact (hf c hc) none .held fades

theorem syncRecipe_behaves (fades : Bool) : Behaves s₀ (s.syncRecipe i fades) :=
  Exact.ite (stop_behaves hsame hs false)
    (clearWith_behaves hsame hs hi (fun _ hc => sound_of_same hc rfl rfl rfl rfl) fades)

end

theorem readChecksum_behaves (hsame : SameReleased s₀ s) (hs : AllBalanced s)
    (hi : (s₀.cells i).refholdsReleased = false) (read : Read) :
    Behaves s₀ (s.readChecksum i read) := by
  have hsync := syncRecipe_behaves hsame hs hi read.dropFades
  apply hsync.andThen fun _ => hsync
  intro _ hsame hs
  refine Exact.ite (stop_behaves hsame hs false) <| Exact.ite (stop_behaves hsame hs false) <|
    Exact.ite (stop_behaves hsame hs false) <| Exact.ite (stop_behaves hsame hs false) ?_
  -- an evaluation ends
  cases read.work with
  | refusal => exact stop_behaves hsame hs false
  | failure =>
    refine onCell_behaves hsame hs hi fun c hc => Exact.of_none hc.kept ?_ rfl
    exact (sound_of_same hc rfl rfl rfl rfl).balanced
  | result r =>
    exact onCell_behaves hsame hs hi fun c hc => Holder.setResult_exact hc r read.acquired read.fades

theorem finishCompute_behaves (hsame : SameReleased s₀ s) (hs : AllBalanced s)
    (hi : (s₀.cells i).refholdsReleased = false) (read : Read) :
    Behaves s₀ (s.finishCompute i read) := by
  have hfailure := onCell_behaves hsame hs hi fun c hc =>
    Holder.setResult_exact (sound_of_same (d := { c with exception := true }) hc rfl rfl rfl rfl)
      none .held read.fades
  unfold finishCompute
  cases read.work with
  | refusal => exact hfailure
  | failure => exact hfailure
  | result r =>
    refine onCell_behaves hsame hs hi fun c hc => Holder.setResult_exact ?_ r read.acquired read.fades
    exact sound_of_same hc rfl rfl rfl rfl

theorem compute_behaves (hsame : SameReleased s₀ s) (hs : AllBalanced s)
    (hi : (s₀.cells i).refholdsReleased = false) (read : Read) :
    Behaves s₀ (s.compute i read) := by
  have hsync := syncRecipe_behaves hsame hs hi read.dropFades
  apply hsync.andThen fun _ => hsync
  intro _ hsame hs
  exact Exact.ite (stop_behaves hsame hs false) <| Exact.ite (stop_behaves hsame hs false) <|
    finishCompute_behaves hsame hs hi read

theorem write_behaves (hsame : SameReleased s₀ s) (hs : AllBalanced s)
    (hi : (s₀.cells i).refholdsReleased = false) (detach : Bool)
    (new : Option (Option Checksum)) (t : Option CellCelltype) (a : Acquired) (fades : Fades) :
    Behaves s₀ (s.write i detach new t a fades) := by
  refine Exact.ite (stop_behaves hsame hs true) ?_
  cases new with
  | none => exact stop_behaves hsame hs true
  | some new =>
    exact onCell_behaves hsame hs hi fun c hc => Holder.replaceInput_exact hc new t a fades

theorem commit_behaves (hsame : SameReleased s₀ s) (hs : AllBalanced s)
    (hi : (s₀.cells i).refholdsReleased = false) (path : Bool) (root : Read)
    (new : Option Checksum) (a : Acquired) (fades : Fades) :
    Behaves s₀ (s.commit i path root new a fades) := by
  have hstore : ∀ s, SameReleased s₀ s → AllBalanced s → Behaves s₀ (match new with
      | none => s.stop true
      | some cs => s.onCell i fun c => c.replaceInput (some cs) (some c.celltype) a fades) := by
    intro s hsame hs
    cases new with
    | none => exact stop_behaves hsame hs true
    | some cs =>
      exact onCell_behaves hsame hs hi fun c hc =>
        Holder.replaceInput_exact hc (some cs) (some c.celltype) a fades
  have hread := readChecksum_behaves hsame hs hi root
  exact Exact.ite (hread.andThen (fun _ => hread) fun _ hsame hs => hstore _ hsame hs)
    (hstore s hsame hs)

theorem writeThrough_behaves (hsame : SameReleased s₀ s) (hs : AllBalanced s)
    (extraPath : Bool) (augmented : Option Read) (prepared : Bool) (root : Read)
    (new : Option Checksum) (a : Acquired) (fades : Fades)
    (hi : (s₀.cells i).refholdsReleased = false)
    (htarget : (s₀.cells (s.writeInfo s.count i extraPath false).1).refholdsReleased = false) :
    Behaves s₀ (s.writeThrough i extraPath augmented prepared root new a fades) := by
  unfold writeThrough
  generalize s.writeInfo s.count i extraPath false = info at htarget ⊢
  obtain ⟨target, path, conversion⟩ := info
  have hstore : ∀ s, SameReleased s₀ s → AllBalanced s → Behaves s₀
      (if prepared then s.commit target path root new a fades else s.stop true) :=
    fun s hsame hs => Exact.ite (commit_behaves hsame hs htarget path root new a fades)
      (stop_behaves hsame hs true)
  refine Exact.ite (stop_behaves hsame hs true) ?_
  cases augmented with
  | none => exact hstore s hsame hs
  | some read =>
    have hread := readChecksum_behaves hsame hs hi read
    exact hread.andThen (fun _ => hread) fun _ hsame hs => hstore _ hsame hs

theorem retype_behaves (hsame : SameReleased s₀ s) (hs : AllBalanced s)
    (hi : (s₀.cells i).refholdsReleased = false) (t : CellCelltype) (fades : Bool) :
    Behaves s₀ (s.retype i t fades) := by
  refine Exact.ite (stop_behaves hsame hs true)
    (clearWith_behaves hsame hs hi (fun c hc => ?_) fades)
  exact sound_of_same hc rfl rfl rfl rfl

/-- One more Cell -/
theorem add_exact (hs : AllBalanced s) {r : Result Holder}
    (hr : Exact (fun _ => True) Holder.Balanced r) :
    AllBalanced (s.add r).state ↔ ∀ call ∈ (s.add r).calls, call.spoils = false := by
  refine Iff.trans ⟨fun hall => ?_, fun hnew => ?_⟩ hr.fine_iff
  · have hself : (s.add r).state.cells s.count = r.state := Function.update_self _ _ _
    rw [← hself]
    exact hall s.count
  · intro j
    show (Function.update s.cells s.count r.state j).Balanced
    by_cases hj : j = s.count
    · rw [hj, Function.update_self]
      exact hnew
    · rw [Function.update_of_ne hj]
      exact hs j

/-- The release of a Cell -/
theorem releaseRefholds_behaves (hs : AllBalanced s) (hi : (s.cells i).refholdsReleased = false)
    (fades : Fades) :
    AllBalanced (s.onCell i fun c => c.releaseRefholds fades).state ↔
      ∀ call ∈ (s.onCell i fun c => c.releaseRefholds fades).calls, call.spoils = false := by
  have hexact := Holder.releaseRefholds_exact hi fades ((Holder.balanced_iff hi).mp (hs i))
  refine Iff.trans ⟨fun hall => ?_, fun hnew => ?_⟩ hexact.fine_iff
  · have hself : (s.onCell i fun c => c.releaseRefholds fades).state.cells i =
        ((s.cells i).releaseRefholds fades).state := Function.update_self _ _ _
    rw [← hself]
    exact hall i
  · intro j
    show (Function.update s.cells i ((s.cells i).releaseRefholds fades).state j).Balanced
    by_cases hj : j = i
    · rw [hj, Function.update_self]
      exact hnew
    · rw [Function.update_of_ne hj]
      exact hs j

/-- One operation on Cells that are not released -/
theorem run_exact (hs : AllBalanced s) (op : Op)
    (halive : ∀ i ∈ s.touched op, (s.cells i).refholdsReleased = false) :
    AllBalanced (s.run op).state ↔ ∀ call ∈ (s.run op).calls, call.spoils = false := by
  have hsame : SameReleased s s := fun _ => rfl
  cases op with
  | construct input celltype inputCelltype path projection conversionLink validator language
      scratch a fades =>
    exact add_exact hs (Holder.construct_exact rfl rfl (fun _ => rfl) a fades).1
  | copy i input result fades =>
    exact add_exact hs (Holder.copy_exact (halive i List.mem_cons_self) input result fades)
  | write i detach new t a fades =>
    exact (write_behaves hsame hs (halive i List.mem_cons_self) detach new t a fades).fine_iff
  | writeThrough i extraPath augmented prepared root new a fades =>
    -- the root behind a handle has to be alive as well
    have htarget := halive _ (List.mem_cons_of_mem i List.mem_cons_self)
    exact (writeThrough_behaves hsame hs extraPath augmented prepared root new a fades
      (halive i List.mem_cons_self) htarget).fine_iff
  | retype i t fades =>
    exact (retype_behaves hsame hs (halive i List.mem_cons_self) t fades).fine_iff
  | setValidator i v fades =>
    have hbehaves := clearWith_behaves hsame hs (halive i List.mem_cons_self)
      (f := fun c => { c with validator := v })
      (fun c hc => sound_of_same hc rfl rfl rfl rfl) fades
    exact hbehaves.fine_iff
  | setValidatorLanguage i l fades =>
    have hbehaves := clearWith_behaves hsame hs (halive i List.mem_cons_self)
      (f := fun c => { c with validatorLanguage := l })
      (fun c hc => sound_of_same hc rfl rfl rfl rfl) fades
    exact hbehaves.fine_iff
  | setScratch i scratch a fades =>
    have hbehaves := onCell_behaves hsame hs (halive i List.mem_cons_self)
      (f := fun c => { c with scratch := scratch }.setResult c.result a false fades)
      fun c hc =>
        Holder.setResult_exact (c := { c with scratch := scratch })
          (sound_of_same hc rfl rfl rfl rfl) c.result a fades
    exact hbehaves.fine_iff
  | readChecksum i read =>
    exact (readChecksum_behaves hsame hs (halive i List.mem_cons_self) read).fine_iff
  | sync i fades =>
    exact (syncRecipe_behaves hsame hs (halive i List.mem_cons_self) fades).fine_iff
  | clearException i =>
    have hbehaves := onCell_behaves hsame hs (halive i List.mem_cons_self)
      (f := fun c => ⟨{ c with exception := false }, [], false⟩) fun c hc =>
        Exact.of_none hc.kept (sound_of_same hc rfl rfl rfl rfl).balanced rfl
    exact hbehaves.fine_iff
  | compute i read => exact (compute_behaves hsame hs (halive i List.mem_cons_self) read).fine_iff
  | finishCompute i read =>
    exact (finishCompute_behaves hsame hs (halive i List.mem_cons_self) read).fine_iff
  | releaseRefholds i fades =>
    exact releaseRefholds_behaves hs (halive i List.mem_cons_self) fades

theorem step_exact (hs : AllBalanced s) (op : Op)
    (halive : ∀ i ∈ s.touched op, (s.cells i).refholdsReleased = false) :
    AllBalanced (s.step op).1 ↔ ∀ call ∈ (s.step op).2, call.spoils = false := by
  unfold step
  split
  · exact run_exact hs op halive
  · exact ⟨fun _ call hcall => absurd hcall List.not_mem_nil, fun _ => hs⟩

/-! ## §7. Every run. -/

theorem empty_balanced : AllBalanced empty := by
  intro i
  exact (Holder.balanced_iff rfl).mpr fun cs => rfl

/-- In every run of operations on Cells up to their release, the claims that a
Cell holds are those of its record in every state, and none after its release,
exactly when no claim of the run is booked by a call that raises, no release
raises while the Cell has another claim to give back, and no constructor gives
back another claim instead of one that it was refused. -/
theorem handleRefholdBalance (ops : List Op)
    (halive : Run.StepsMeet step
      (fun _ s op => ∀ i ∈ s.touched op, (s.cells i).refholdsReleased = false) empty ops) :
    (∀ before later, ops = before ++ later → ∀ i cs,
      ((after before).cells i).claims cs =
          (((after before).cells i).refheldChecksums.count cs : Int) ∧
        (((after before).cells i).refholdsReleased = true →
          ((after before).cells i).claims cs = 0)) ↔
    ∀ entry ∈ Run.trace step empty ops, ∀ call ∈ entry.2, call.spoils = false := by
  -- a released holder that is balanced has no claims
  have hreleased : ∀ s : Family, AllBalanced s → ∀ i cs,
      (s.cells i).claims cs = ((s.cells i).refheldChecksums.count cs : Int) ∧
        ((s.cells i).refholdsReleased = true → (s.cells i).claims cs = 0) := by
    intro s hs i cs
    exact ⟨hs i cs, fun h => (Holder.balanced_of_released h).mp (hs i) cs⟩
  constructor
  · intro hbalanced entry hentry call hcall
    obtain ⟨before, op, later, hsplit, rfl⟩ := Run.mem_trace step hentry
    have hs : AllBalanced (after before) :=
      fun i cs => (hbalanced before (op :: later) hsplit i cs).1
    have hs' : AllBalanced ((after before).step op).1 := by
      intro i cs
      have hnext := (hbalanced (before ++ [op]) later (by rw [hsplit]; simp) i cs).1
      unfold after at hnext
      rw [Run.exec_snoc] at hnext
      exact hnext
    exact (step_exact hs op (halive before op later hsplit)).mp hs' call hcall
  · intro hgood
    -- the step lemma, along the run
    have hall : ∀ before later, ops = before ++ later → AllBalanced (after before) := by
      intro before
      induction before using List.reverseRecOn with
      | nil => exact fun _ _ => empty_balanced
      | append_singleton before op ih =>
        intro later heq
        have hsplit : ops = before ++ op :: later := by
          rw [heq]
          simp
        have hs := ih (op :: later) hsplit
        have hstep := step_exact hs op (halive before op later hsplit)
        unfold after
        rw [Run.exec_snoc]
        apply hstep.mpr
        apply hgood (op, ((after before).step op).2)
        rw [hsplit, Run.trace_append]
        exact List.mem_append_right _ List.mem_cons_self
    exact fun before later heq => hreleased _ (hall before later heq)

/-! ### A write forty minutes after an evaluation. -/

/-- The first input of the Cell below, its result, and the second input -/
def source : Checksum := .repeated 1
def evaluated : Checksum := .repeated 2
def replaced : Checksum := .repeated 3

/-- A Cell is built on a checksum and computed; its result has a tempref of its
own.  When a new checksum is set, giving the result back raises. -/
def fadedWrite (fades : Bool) : List Op :=
  [.construct (.checksum source) (.value .int) (some (.value .plain)) [] false false none none false
      .held ⟨false, false⟩,
    .compute 0 ⟨.result (some evaluated), .held, false, false⟩,
    .write 0 false (some (some replaced)) (some (.value .int)) .held ⟨fades, false⟩]

theorem fadedWrite_alive (fades : Bool) : Run.StepsMeet step
    (fun _ s op => ∀ i ∈ s.touched op, (s.cells i).refholdsReleased = false) empty
    (fadedWrite fades) := by
  have hnone := Run.StepsMeet.nil step
    (fun _ s op => ∀ i ∈ s.touched op, (s.cells i).refholdsReleased = false) empty
  have hbuilt := hnone.snoc step (i := .construct (.checksum source) (.value .int)
    (some (.value .plain)) [] false false none none false .held ⟨false, false⟩)
    fun i hi => absurd hi List.not_mem_nil
  have hcomputed := hbuilt.snoc step (i := .compute 0 ⟨.result (some evaluated), .held, false, false⟩)
    (by
      intro i hi
      rw [List.mem_singleton.mp hi]
      rfl)
  refine hcomputed.snoc step (i := .write 0 false (some (some replaced)) (some (.value .int)) .held
    ⟨fades, false⟩) ?_
  intro i hi
  rw [List.mem_singleton.mp hi]
  rfl

/-- The claim on the first input stays booked, and the Cell knows nothing of it. -/
theorem fadedWrite_claims :
    ((after (fadedWrite true)).cells 0).claims source = 1 ∧
      ((after (fadedWrite true)).cells 0).refheldChecksums = [replaced] := by
  refine ⟨?_, rfl⟩
  decide +kernel

theorem fadedWrite_balance :
    (∀ before later, fadedWrite false = before ++ later → ∀ i cs,
      ((after before).cells i).claims cs =
          (((after before).cells i).refheldChecksums.count cs : Int) ∧
        (((after before).cells i).refholdsReleased = true →
          ((after before).cells i).claims cs = 0)) ↔
    ∀ entry ∈ Run.trace step empty (fadedWrite false), ∀ call ∈ entry.2, call.spoils = false :=
  handleRefholdBalance (fadedWrite false) (fadedWrite_alive false)

theorem refholds_unbalanced : ¬ ∀ ops : List Op,
    Run.StepsMeet step
      (fun _ s op => ∀ i ∈ s.touched op, (s.cells i).refholdsReleased = false) empty ops →
    ∀ i cs, ((after ops).cells i).claims cs =
      (((after ops).cells i).refheldChecksums.count cs : Int) := by
  intro hclaim
  have heq := hclaim (fadedWrite true) (fadedWrite_alive true) 0 source
  rw [fadedWrite_claims.1, fadedWrite_claims.2] at heq
  have hcount : ([replaced].count source : Int) = 0 := by decide
  rw [hcount] at heq
  cases heq

end Family

end SeamlessCore.Cells.Refholds
