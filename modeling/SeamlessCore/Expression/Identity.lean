/-
  SeamlessCore.Expression.Identity — copies of Expressions.

  An Expression is built on a checksum, on a workflow source or on another
  Expression.  The constructor leaves out an Expression that does nothing, and
  fuses the path with that of the Expression below it; what it leaves out
  depends on the results recorded so far.  Every copy is a construction with
  the fields of the original, so its identity is that of the original exactly
  when the constructor leaves these fields alone.

  Main definitions:
    * `ExpressionObject`, `identityKey` — an Expression with the objects below
      it, and its identity;
    * `construct` — `Expression.__post_init__`;
    * `copyOf`, `withResult`, `item`, `slice` — the copies;
    * `World`, `step` — constructions and results, in any order;
    * `Settled` — the constructor leaves the fields alone.

  Main results:
    * `rebuild_iff` — when a construction with the same fields keeps the input;
    * `copies_iff` — for the copies, in every state of a run.

  Source: `seamless/expression_class.py`, `seamless/cell_class.py`,
  `seamless/checksum/null.py`.
-/
import SeamlessCore.Expression.Reachable

namespace SeamlessCore.Expression

open Python ExpressionCelltype

/-! ## §1. Objects and identities. -/

mutual

/-- `_input_ref`; a `Cell` is built first, so it does not occur here. -/
inductive InputRef where
  | none
  | checksum (c : Checksum)
  | expression (e : ExpressionObject)
  /-- A workflow source or a transformation, with its celltype -/
  | source (id : Nat) (celltype : ExpressionCelltype)
  deriving DecidableEq

/-- An `Expression`; the number is its identity as an object. -/
inductive ExpressionObject where
  | make (id : Nat) (input : InputRef) (path : PyStr) (inputCelltype celltype : ExpressionCelltype)
      (validator : Option Checksum) (validatorLanguage : Option PyStr)
  deriving DecidableEq

end

namespace ExpressionObject

def id : ExpressionObject → Nat
  | make id _ _ _ _ _ _ => id

def input : ExpressionObject → InputRef
  | make _ input _ _ _ _ _ => input

def path : ExpressionObject → PyStr
  | make _ _ path _ _ _ _ => path

def inputCelltype : ExpressionObject → ExpressionCelltype
  | make _ _ _ inputCelltype _ _ _ => inputCelltype

def celltype : ExpressionObject → ExpressionCelltype
  | make _ _ _ _ celltype _ _ => celltype

def validator : ExpressionObject → Option Checksum
  | make _ _ _ _ _ validator _ => validator

def validatorLanguage : ExpressionObject → Option PyStr
  | make _ _ _ _ _ _ validatorLanguage => validatorLanguage

end ExpressionObject

/-- `_input_ref_key(input_ref)`, with the fields of a nested `identity_key` -/
inductive InputKey where
  | checksum (hex : PyStr)
  | expression (input : InputKey) (path : PyStr) (inputCelltype celltype : ExpressionCelltype)
  /-- The object of an Expression without an input -/
  | object (id : Nat)
  | source (id : Nat)
  deriving DecidableEq

/-- `identity_key` -/
structure IdentityKey where
  input : InputKey
  path : PyStr
  inputCelltype : ExpressionCelltype
  celltype : ExpressionCelltype
  deriving DecidableEq

mutual

/-- The first item of `identity_key`, for the object `owner` -/
def InputRef.key (owner : Nat) : InputRef → InputKey
  | .none => .object owner
  | .checksum c => .checksum c.hex
  | .expression e => e.key
  | .source id _ => .source id

/-- `("expression", self.identity_key)` -/
def ExpressionObject.key : ExpressionObject → InputKey
  | .make id input path s t _ _ => .expression (input.key id) path s t

end

namespace ExpressionObject

/-- `self.identity_key` -/
def identityKey (e : ExpressionObject) : IdentityKey :=
  ⟨e.input.key e.id, e.path, e.inputCelltype, e.celltype⟩

/-- `self == other` for an Expression `other` -/
def eq (e other : ExpressionObject) : Bool := e.identityKey = other.identityKey

/-- `hash(self)`, for the `hash` of tuples -/
def hash (hashKey : IdentityKey → Int) (e : ExpressionObject) : Int := hashKey e.identityKey

end ExpressionObject

/-! ## §2. The constructor. -/

/-- `_result_checksum` of every object -/
abbrev Results := Nat → Option Checksum

/-- `_typed_input_celltype(value)` -/
def typedInputCelltype : InputRef → Option ExpressionCelltype
  | .expression e => some e.celltype
  | .source _ t => some t
  | _ => none

/-- `self.input_checksum` -/
def inputChecksum (results : Results) (e : ExpressionObject) : Option Checksum :=
  match e.input with
  | .expression r => results r.id
  | .checksum c => some c
  | _ => none

/-- `ref.validator is None and ref.validator_language is None` -/
def unvalidated (r : ExpressionObject) : Bool :=
  r.validator.isNone && r.validatorLanguage.isNone

/-- A resolved dummy Expression -/
def isDummy (results : Results) (r : ExpressionObject) : Bool :=
  (inputChecksum results r).isSome && decide (r.path = []) &&
    decide (r.inputCelltype = r.celltype) && unvalidated r

/-- `ref = ref._input_ref` for a resolved dummy -/
def collapse (results : Results) : InputRef → InputRef
  | .expression r => if isDummy results r then r.input else .expression r
  | ref => ref

/-- `(source, target) in conversion_trivial | conversion_reinterpret` -/
def preserving : ExpressionCelltype → ExpressionCelltype → Bool
  | ordinary s, ordinary t =>
    (s, t) ∈ Conversion.trivialPairs ∨ (s, t) ∈ Conversion.reinterpretPairs
  | _, _ => false

/-- The paths are joined. -/
def joins (r : ExpressionObject) (path : PyStr) : Bool :=
  decide (r.inputCelltype = r.celltype) && decide (r.path ≠ [] ∨ path ≠ [])

/-- A conversion without a path is left out below a path. -/
def skips (r : ExpressionObject) (path : PyStr) : Bool :=
  decide (path ≠ []) && decide (r.path = []) && preserving r.inputCelltype r.celltype

/-- The input, the path and the input celltype after fusion -/
def fuse (path : PyStr) (inputCelltype : ExpressionCelltype) :
    InputRef → InputRef × PyStr × ExpressionCelltype
  | .expression r =>
    if unvalidated r && !r.inputCelltype.isDeep then
      if joins r path then (r.input, fusePath r.path path, r.inputCelltype)
      else if skips r path then (r.input, path, inputCelltype)
      else (.expression r, path, inputCelltype)
    else (.expression r, path, inputCelltype)
  | ref => (ref, path, inputCelltype)

section

variable (L : Libraries)

/-- `canonicalize_checksum(Checksum(ref), self.input_celltype)` for a checksum -/
def canonicalizeInput (inputCelltype : ExpressionCelltype) : InputRef → InputRef
  | .checksum c => .checksum (canonicalizeChecksum L c inputCelltype)
  | ref => ref

variable {L} (P : PathLibrary L)

/-- `Expression(ref, path, input_celltype=…, celltype=…, …)` as the object `id`; `none` is an
exception. -/
def construct (results : Results) (id : Nat) (ref : InputRef) (path : Option PyStr)
    (inputCelltype celltype : Option ExpressionCelltype) (validator : Option Checksum)
    (validatorLanguage : Option PyStr) : Option ExpressionObject :=
  let typed := typedInputCelltype ref
  if typed ≠ none ∧ inputCelltype ≠ none ∧ inputCelltype ≠ typed then none
  else
    let s := inputCelltype.getD (typed.getD (celltype.getD (ordinary .mixed)))
    let t := celltype.getD s
    let ref' := collapse results ref
    if validateExpressionShape L P (path.getD []) s t = false then none
    else
      let (fused, path', s') := fuse (path.getD []) s ref'
      some (.make id (canonicalizeInput L s' fused) path' s' t validator validatorLanguage)

/-- A construction with the fields of an Expression, but for the path -/
def rebuild (results : Results) (id : Nat) (e : ExpressionObject) (path : PyStr) :
    Option ExpressionObject :=
  construct P results id e.input (some path) (some e.inputCelltype) (some e.celltype)
    e.validator e.validatorLanguage

/-! ## §3. Copies. -/

/-- A key or a bound of any type.  Of a value that is not a string, the path
gets its `repr`, which may raise. -/
inductive Argument where
  | str (s : PyStr)
  | other (repr : Option PyStr)

/-- `repr(key)` -/
def Argument.repr (I : Interpreter) : Argument → Option PyStr
  | .str s => reprKey I (.str s)
  | .other repr => repr

/-- `append_item_path(path, key)`, for a key of any type -/
def appendItem (I : Interpreter) (path : PyStr) (key : Argument) : Option PyStr :=
  match key with
  | .str s => appendItemPath I path (.str s)
  | .other _ => (key.repr I).map fun token => path ++ bracketed token

/-- `append_slice_path(path, start, stop, step)`, for bounds of any type -/
def appendSlice (I : Interpreter) (path : PyStr) (start stop step : Option Argument) :
    Option PyStr := do
  let bound : Option Argument → Option PyStr := fun b => b.elim (some []) (Argument.repr I)
  let a ← bound start
  let b ← bound stop
  match step with
  | .none => some (path ++ bracketed (joinColon [a, b]))
  | some i =>
    let c ← i.repr I
    some (path ++ bracketed (joinColon [a, b, c]))

/-- A key that a path can be read back with, as an argument -/
def AccessKey.argument (I : Interpreter) : AccessKey → Argument
  | .str s => .str s
  | key => .other (reprKey I key)

/-- An integer bound, as an argument -/
def boundArgument (I : Interpreter) (i : Int) : Argument := .other (intRepr I.maxStrDigits i)

theorem appendItem_argument (I : Interpreter) (path : PyStr) (key : AccessKey) :
    appendItem I path (key.argument I) = appendItemPath I path key := by
  cases key <;> rfl

theorem appendSlice_argument (I : Interpreter) (path : PyStr) (start stop step : Option Int) :
    appendSlice I path (start.map (boundArgument I)) (stop.map (boundArgument I))
        (step.map (boundArgument I)) =
      appendSlicePath I path start stop step := by
  cases start <;> cases stop <;> cases step <;> rfl

/-- `copy.copy(self)`, with the results afterwards -/
def copyOf (results : Results) (id : Nat) (e : ExpressionObject) :
    Option (ExpressionObject × Results) :=
  (rebuild P results id e e.path).map fun duplicate =>
    (duplicate, Function.update results id (results e.id))

/-- `copy.deepcopy(self)` -/
def deepcopyOf (results : Results) (id : Nat) (e : ExpressionObject) :
    Option (ExpressionObject × Results) :=
  copyOf P results id e

/-- `self.with_result(result)` -/
def withResult (results : Results) (id : Nat) (e : ExpressionObject) (result : Option Checksum) :
    Option (ExpressionObject × Results) :=
  (rebuild P results id e e.path).map fun clone => (clone, Function.update results id result)

/-- `self.item(key)` -/
def item (results : Results) (id : Nat) (e : ExpressionObject) (key : Argument) :
    Option ExpressionObject :=
  (appendItem P.interpreter e.path key).bind (rebuild P results id e)

/-- `self.slice(start, stop, step)` -/
def slice (results : Results) (id : Nat) (e : ExpressionObject)
    (start stop step : Option Argument) : Option ExpressionObject :=
  (appendSlice P.interpreter e.path start stop step).bind (rebuild P results id e)

/-! ## §4. Runs. -/

/-- The Expressions made so far, the newest first, and their results -/
structure Objects where
  made : List ExpressionObject
  results : Results

/-- What changes Expressions.  Copies, items, slices and conversions of an Expression are
constructions with its fields. -/
inductive ObjectEvent where
  | construct (ref : InputRef) (path : Option PyStr)
      (inputCelltype celltype : Option ExpressionCelltype) (validator : Option Checksum)
      (validatorLanguage : Option PyStr)
  /-- `_hold_result(result)`: an evaluation ends, or a copy gets its result. -/
  | result (id : Nat) (c : Checksum)

/-- The input of a construction is there. -/
def Objects.Has (w : Objects) : InputRef → Prop
  | .expression r => r ∈ w.made
  | _ => True

instance (w : Objects) (ref : InputRef) : Decidable (w.Has ref) := by
  cases ref <;> unfold Objects.Has <;> infer_instance

/-- One event; a construction that raises makes nothing. -/
def objectsStep (w : Objects) : ObjectEvent → Objects × Option ExpressionObject
  | .construct ref path s t validator validatorLanguage =>
    if w.Has ref then
      match construct P w.results w.made.length ref path s t validator validatorLanguage with
      | some e => (⟨e :: w.made, w.results⟩, some e)
      | none => (w, none)
    else (w, none)
  | .result id c => (⟨w.made, Function.update w.results id (some c)⟩, none)

/-- Nothing was made. -/
def Objects.empty : Objects := ⟨[], fun _ => none⟩

/-! ## §5. The depth of an identity. -/

/-- How many Expressions are nested in an input key -/
def InputKey.depth : InputKey → Nat
  | .expression input _ _ _ => input.depth + 1
  | _ => 0

/-- The depth does not depend on the owner. -/
theorem depth_key (ref : InputRef) (owner owner' : Nat) :
    (ref.key owner).depth = (ref.key owner').depth := by
  cases ref <;> rfl

theorem depth_key_expression (r : ExpressionObject) (owner owner' : Nat) :
    ((InputRef.expression r).key owner).depth = (r.input.key owner').depth + 1 := by
  cases r with
  | make id input path s t validator validatorLanguage =>
    -- the depth of what is nested does not depend on its owner
    show (input.key id).depth + 1 = (input.key owner').depth + 1
    rw [depth_key input id owner']

variable (L) in
theorem depth_canonicalize (ref : InputRef) (s : ExpressionCelltype) (owner : Nat) :
    ((canonicalizeInput L s ref).key owner).depth = (ref.key owner).depth := by
  cases ref <;> rfl

/-! ## §6. When the constructor leaves the fields alone. -/

/-- The input would be fused below the path. -/
def Fuses (r : ExpressionObject) (path : PyStr) : Prop :=
  unvalidated r = true ∧ r.inputCelltype.isDeep = false ∧ (joins r path = true ∨ skips r path = true)

instance (r : ExpressionObject) (path : PyStr) : Decidable (Fuses r path) :=
  inferInstanceAs (Decidable (_ ∧ _ ∧ _))

/-- With this path, the constructor takes the input, the path and the celltypes as they are:
the input has the input celltype, the path can be taken, and an Expression as the input is
neither a resolved dummy nor fused. -/
structure Settled (results : Results) (e : ExpressionObject) (path : PyStr) : Prop where
  typed : ∀ t, typedInputCelltype e.input = some t → t = e.inputCelltype
  shape : validateExpressionShape L P path e.inputCelltype e.celltype = true
  kept : ∀ r, e.input = .expression r → isDummy results r = false ∧ ¬ Fuses r path

/-- Where nothing is fused, nothing changes; otherwise the input is less deep. -/
theorem fuse_cases (path : PyStr) (s : ExpressionCelltype) (ref : InputRef) (owner : Nat) :
    (fuse path s ref = (ref, path, s) ∧ ∀ r, ref = .expression r → ¬ Fuses r path) ∨
      ((∃ r, ref = .expression r ∧ Fuses r path) ∧
        ((fuse path s ref).1.key owner).depth < (ref.key owner).depth) := by
  cases ref with
  | expression r =>
    have hdepth := depth_key_expression r owner owner
    unfold fuse
    dsimp only
    by_cases hopen : (unvalidated r && !r.inputCelltype.isDeep) = true
    · rw [if_pos hopen]
      simp only [Bool.and_eq_true, Bool.not_eq_true'] at hopen
      by_cases hjoins : joins r path = true
      · rw [if_pos hjoins]
        refine .inr ⟨⟨r, rfl, hopen.1, hopen.2, .inl hjoins⟩, ?_⟩
        show (r.input.key owner).depth < _
        omega
      · rw [if_neg hjoins]
        by_cases hskips : skips r path = true
        · rw [if_pos hskips]
          refine .inr ⟨⟨r, rfl, hopen.1, hopen.2, .inr hskips⟩, ?_⟩
          show (r.input.key owner).depth < _
          omega
        · rw [if_neg hskips]
          refine .inl ⟨rfl, ?_⟩
          rintro r' hr ⟨-, -, hfuses⟩
          obtain rfl := InputRef.expression.inj hr
          exact hfuses.elim hjoins hskips
    · rw [if_neg hopen]
      refine .inl ⟨rfl, ?_⟩
      rintro r' hr ⟨hvalid, hdeep, -⟩
      obtain rfl := InputRef.expression.inj hr
      exact hopen (by rw [hvalid, hdeep]; rfl)
  | _ => exact .inl ⟨rfl, fun r hr => by cases hr⟩

/-- A collapsed input is less deep. -/
theorem collapse_cases (results : Results) (ref : InputRef) (owner : Nat) :
    (collapse results ref = ref ∧ ∀ r, ref = .expression r → isDummy results r = false) ∨
      ((∃ r, ref = .expression r ∧ isDummy results r = true) ∧
        ((collapse results ref).key owner).depth < (ref.key owner).depth) := by
  cases ref with
  | expression r =>
    have hdepth := depth_key_expression r owner owner
    unfold collapse
    dsimp only
    by_cases hdummy : isDummy results r = true
    · rw [if_pos hdummy]
      exact .inr ⟨⟨r, rfl, hdummy⟩, by omega⟩
    · rw [if_neg hdummy]
      refine .inl ⟨rfl, ?_⟩
      intro r' hr
      obtain rfl := InputRef.expression.inj hr
      simpa using hdummy
  | _ => exact .inl ⟨rfl, fun r hr => by cases hr⟩

/-- The input of a constructed Expression is canonical. -/
def Canonical (L : Libraries) (e : ExpressionObject) : Prop :=
  canonicalizeInput L e.inputCelltype e.input = e.input

variable {P}

theorem canonicalizeInput_idem (s : ExpressionCelltype) (ref : InputRef) :
    canonicalizeInput L s (canonicalizeInput L s ref) = canonicalizeInput L s ref := by
  cases ref with
  | checksum c =>
    show InputRef.checksum (canonicalizeChecksum L (canonicalizeChecksum L c s) s) =
      .checksum (canonicalizeChecksum L c s)
    congr 1
    unfold canonicalizeChecksum
    by_cases h : s = ordinary .bytes ∧ c = L.sha256 []
    · rw [if_pos h]
      split <;> rfl
    · rw [if_neg h, if_neg h]
  | _ => rfl

/-- What a construction that does not raise checked, and what it made -/
theorem construct_eq {results : Results} {id : Nat} {ref : InputRef} {path : Option PyStr}
    {s t : Option ExpressionCelltype} {validator : Option Checksum}
    {validatorLanguage : Option PyStr} {e : ExpressionObject}
    (h : construct P results id ref path s t validator validatorLanguage = some e) :
    ∃ s' t', (∀ u, typedInputCelltype ref = some u → s = none ∨ s = some u) ∧
      s' = s.getD ((typedInputCelltype ref).getD (t.getD (ordinary .mixed))) ∧ t' = t.getD s' ∧
      validateExpressionShape L P (path.getD []) s' t' = true ∧
      e = .make id
        (canonicalizeInput L (fuse (path.getD []) s' (collapse results ref)).2.2
          (fuse (path.getD []) s' (collapse results ref)).1)
        (fuse (path.getD []) s' (collapse results ref)).2.1
        (fuse (path.getD []) s' (collapse results ref)).2.2 t' validator validatorLanguage := by
  unfold construct at h
  dsimp only at h
  split at h
  · cases h
  next htyped =>
    split at h
    · cases h
    next hshape =>
      refine ⟨_, _, ?_, rfl, rfl, by simpa using hshape, (Option.some.inj h).symm⟩
      intro u hu
      rw [hu] at htyped
      by_cases hs : s = none
      · exact .inl hs
      · right
        by_contra hne
        exact htyped ⟨by simp, hs, hne⟩

theorem construct_canonical {results : Results} {id : Nat} {ref : InputRef} {path : Option PyStr}
    {s t : Option ExpressionCelltype} {validator : Option Checksum}
    {validatorLanguage : Option PyStr} {e : ExpressionObject}
    (h : construct P results id ref path s t validator validatorLanguage = some e) :
    Canonical L e := by
  obtain ⟨s', t', -, -, -, -, rfl⟩ := construct_eq h
  exact canonicalizeInput_idem _ _

/-- Settled fields are taken as they are. -/
theorem rebuild_settled {results : Results} {e : ExpressionObject} {path : PyStr}
    (hcanonical : Canonical L e) (h : Settled P results e path) (id : Nat) :
    rebuild P results id e path =
      some (.make id e.input path e.inputCelltype e.celltype e.validator e.validatorLanguage) := by
  -- no step of the constructor changes a field
  have hcollapse : collapse results e.input = e.input := by
    rcases collapse_cases results e.input 0 with ⟨heq, -⟩ | ⟨⟨r, hr, hdummy⟩, -⟩
    · exact heq
    · rw [(h.kept r hr).1] at hdummy
      cases hdummy
  have hfuse : fuse path e.inputCelltype e.input = (e.input, path, e.inputCelltype) := by
    rcases fuse_cases path e.inputCelltype e.input 0 with ⟨heq, -⟩ | ⟨⟨r, hr, hfuses⟩, -⟩
    · exact heq
    · exact absurd hfuses (h.kept r hr).2
  have htyped : ¬ (typedInputCelltype e.input ≠ none ∧ some e.inputCelltype ≠ none ∧
      some e.inputCelltype ≠ typedInputCelltype e.input) := by
    rintro ⟨htyped, -, hne⟩
    obtain ⟨t, ht⟩ := Option.ne_none_iff_exists'.mp htyped
    rw [ht, h.typed t ht] at hne
    exact hne rfl
  unfold rebuild construct
  dsimp only
  rw [if_neg htyped]
  simp only [Option.getD_some]
  rw [if_neg (by rw [h.shape]; simp), hcollapse, hfuse]
  have hinput : canonicalizeInput L e.inputCelltype e.input = e.input := hcanonical
  rw [hinput]

/-- A construction with the same fields that does not make the input less deep took them as
they are. -/
theorem settled_of_rebuild {results : Results} {e d : ExpressionObject} {path : PyStr} {id : Nat}
    (h : rebuild P results id e path = some d)
    (hdepth : (d.input.key 0).depth = (e.input.key 0).depth) : Settled P results e path := by
  obtain ⟨s', t', htyped, hs', ht', hshape, rfl⟩ := construct_eq h
  simp only [Option.getD_some] at hs' ht' hshape hdepth
  rw [hs', ht'] at hshape
  rw [hs'] at hdepth
  have hkept : ((fuse path e.inputCelltype (collapse results e.input)).1.key 0).depth =
      (e.input.key 0).depth := by
    rw [← hdepth]
    exact (depth_canonicalize L _ _ 0).symm
  refine ⟨?_, hshape, ?_⟩
  · intro t ht
    rcases htyped t ht with hnone | hsome
    · cases hnone
    · exact (Option.some.inj hsome).symm
  · intro r hr
    rcases collapse_cases results e.input 0 with ⟨hsame, hdummy⟩ | ⟨-, hless⟩
    · refine ⟨hdummy r hr, ?_⟩
      rw [hsame] at hkept
      rcases fuse_cases path e.inputCelltype e.input 0 with ⟨-, hfuses⟩ | ⟨-, hless⟩
      · exact hfuses r hr
      · omega
    · -- fusion makes the collapsed input no deeper
      rcases fuse_cases path e.inputCelltype (collapse results e.input) 0 with
        ⟨hsame, -⟩ | ⟨-, hless'⟩
      · rw [hsame] at hkept
        dsimp only at hkept
        omega
      · omega

/-! ## §7. Copies in every state of a run. -/

/-- Two Expressions that compare equal and hash alike -/
structure SameIdentity (d e : ExpressionObject) : Prop where
  identity : d.identityKey = e.identityKey
  equal : d.eq e = true
  hash : ∀ hashKey, d.hash hashKey = e.hash hashKey

theorem sameIdentity_iff {d e : ExpressionObject} :
    SameIdentity d e ↔ d.identityKey = e.identityKey := by
  constructor
  · exact fun h => h.identity
  · intro h
    refine ⟨h, ?_, ?_⟩
    · unfold ExpressionObject.eq
      rw [h]
      exact decide_eq_true rfl
    · intro hashKey
      unfold ExpressionObject.hash
      rw [h]

/-- The same input and input celltype, with the path -/
structure Extends (d e : ExpressionObject) (path : PyStr) : Prop where
  input : d.input = e.input
  inputCelltype : d.inputCelltype = e.inputCelltype
  path : d.path = path

theorem key_of_input {ref : InputRef} (h : ref ≠ .none) (owner owner' : Nat) :
    ref.key owner = ref.key owner' := by
  cases ref with
  | none => exact absurd rfl h
  | _ => rfl

/-- A construction with the same fields keeps the identity exactly if these are settled. -/
theorem rebuild_identity {results : Results} {e : ExpressionObject} (hcanonical : Canonical L e)
    (hinput : e.input ≠ .none) (id : Nat) :
    (∃ d, rebuild P results id e e.path = some d ∧ SameIdentity d e) ↔
      Settled P results e e.path := by
  constructor
  · rintro ⟨d, hd, hsame⟩
    refine settled_of_rebuild hd ?_
    have hkey : d.input.key d.id = e.input.key e.id := congrArg IdentityKey.input hsame.identity
    rw [depth_key d.input 0 d.id, hkey, depth_key e.input e.id 0]
  · intro h
    refine ⟨_, rebuild_settled hcanonical h id, sameIdentity_iff.mpr ?_⟩
    show IdentityKey.mk (e.input.key id) e.path e.inputCelltype e.celltype = e.identityKey
    rw [key_of_input hinput id e.id]
    rfl

/-- With another path, it keeps the input and the input celltype exactly if they are settled
with that path. -/
theorem rebuild_iff {results : Results} {e : ExpressionObject} (hcanonical : Canonical L e)
    (id : Nat) (path : PyStr) :
    (∃ d, rebuild P results id e path = some d ∧ Extends d e path) ↔ Settled P results e path := by
  constructor
  · rintro ⟨d, hd, hextends⟩
    exact settled_of_rebuild hd (by rw [hextends.input])
  · intro h
    exact ⟨_, rebuild_settled hcanonical h id, rfl, rfl, rfl⟩

/-- Every Expression of a run has a canonical input. -/
theorem made_canonical (P : PathLibrary L) (events : List ObjectEvent) :
    ∀ e ∈ (Run.exec (objectsStep P) .empty events).made, Canonical L e := by
  refine Run.exec_invariant (objectsStep P) (fun w => ∀ e ∈ w.made, Canonical L e) ?_
    (fun e he => absurd he List.not_mem_nil) events
  intro w event hw
  cases event with
  | construct ref path s t validator validatorLanguage =>
    unfold objectsStep
    dsimp only
    split
    · split
      next e he =>
        intro e' hmem
        rcases List.mem_cons.mp hmem with rfl | hmem
        · exact construct_canonical he
        · exact hw e' hmem
      · exact hw
    · exact hw
  | result id c => exact hw

/-- In every state of every run, copying an Expression with an input keeps its identity
exactly if its fields are settled, and an item or a slice keeps its input exactly if
they are settled with the new path. -/
theorem copies_iff (P : PathLibrary L) (events : List ObjectEvent) (e : ExpressionObject)
    (he : e ∈ (Run.exec (objectsStep P) .empty events).made) (hinput : e.input ≠ .none)
    (id : Nat) :
    let results := (Run.exec (objectsStep P) .empty events).results
    ((∃ d after, copyOf P results id e = some (d, after) ∧ SameIdentity d e) ↔
      Settled P results e e.path) ∧
    ((∃ d after, deepcopyOf P results id e = some (d, after) ∧ SameIdentity d e) ↔
      Settled P results e e.path) ∧
    (∀ result, (∃ d after, withResult P results id e result = some (d, after) ∧
      SameIdentity d e) ↔ Settled P results e e.path) ∧
    (∀ key path, appendItem P.interpreter e.path key = some path →
      ((∃ d, item P results id e key = some d ∧ Extends d e path) ↔ Settled P results e path)) ∧
    (∀ start stop step path, appendSlice P.interpreter e.path start stop step = some path →
      ((∃ d, slice P results id e start stop step = some d ∧ Extends d e path) ↔
        Settled P results e path)) := by
  intro results
  have hcanonical := made_canonical P events e he
  have hcopies : (∃ d, rebuild P results id e e.path = some d ∧ SameIdentity d e) ↔
      Settled P results e e.path := rebuild_identity hcanonical hinput id
  -- the three copies differ in the result they note only
  have hmap : ∀ f : ExpressionObject → Results,
      (∃ d after, ((rebuild P results id e e.path).map fun d => (d, f d)) = some (d, after) ∧
        SameIdentity d e) ↔ Settled P results e e.path := by
    intro f
    rw [← hcopies]
    simp only [Option.map_eq_some_iff, Prod.mk.injEq]
    constructor
    · rintro ⟨d, after, ⟨d', hd, rfl, -⟩, hsame⟩
      exact ⟨d', hd, hsame⟩
    · rintro ⟨d, hd, hsame⟩
      exact ⟨d, f d, ⟨d, hd, rfl, rfl⟩, hsame⟩
  refine ⟨hmap _, hmap _, fun result => hmap _, ?_, ?_⟩
  · intro key path hpath
    unfold item
    rw [hpath]
    exact rebuild_iff hcanonical id path
  · intro start stop step path hpath
    unfold slice
    rw [hpath]
    exact rebuild_iff hcanonical id path

end

/-- `Expression(c, "a", input_celltype="mixed", celltype="plain")` -/
def converted : ExpressionObject :=
  .make 0 (.checksum System.strayChecksum) (py "a") (ordinary .mixed) (ordinary .plain) none none

/-- `Expression(converted, "b", celltype="mixed")` -/
def nested : ExpressionObject :=
  .make 1 (.expression converted) (py "b") (ordinary .plain) (ordinary .mixed) none none

/-- A member of a member, with a conversion in between, and its evaluation -/
def nestedEvents : List ObjectEvent :=
  [.construct (.checksum System.strayChecksum) (some (py "a")) (some (ordinary .mixed))
      (some (ordinary .plain)) none none,
    .construct (.expression converted) (some (py "b")) none (some (ordinary .mixed)) none none,
    .result 0 System.strayChecksum, .result 1 System.strayChecksum]

/-- The state of the run -/
def nestedObjects : Objects := Run.exec (objectsStep System.smallPaths) .empty nestedEvents

theorem nested_settled {path : PyStr}
    (hshape : validateExpressionShape small System.smallPaths path (ordinary .plain)
      (ordinary .mixed) = true) :
    Settled System.smallPaths nestedObjects.results nested path := by
  refine ⟨?_, hshape, ?_⟩
  · intro t ht
    cases ht
    rfl
  · intro r hr
    cases hr
    refine ⟨by decide +kernel, ?_⟩
    -- the input has a path and two celltypes
    rintro ⟨-, -, h | h⟩
    · simp [joins, converted, ExpressionObject.inputCelltype, ExpressionObject.celltype] at h
    · simp [skips, converted, ExpressionObject.path, py] at h

/-- The member of a member is copied and projected further, also after its
evaluation. -/
theorem copies_iff_nested :
    (∃ d after, copyOf System.smallPaths nestedObjects.results 2 nested = some (d, after) ∧
      SameIdentity d nested) ∧
    (∃ d, item System.smallPaths nestedObjects.results 2 nested (.other (some (py "True"))) =
      some d ∧ Extends d nested (py "b[True]")) ∧
    ∃ d, slice System.smallPaths nestedObjects.results 2 nested (some (.other (some (py "1"))))
      none none = some d ∧ Extends d nested (py "b[1:]") := by
  have hinput : nested.input ≠ .none := by
    intro h
    cases h
  obtain ⟨hcopy, -, -, hitem, hslice⟩ :=
    copies_iff System.smallPaths nestedEvents nested (by decide +kernel) hinput 2
  refine ⟨hcopy.mpr (nested_settled (by decide +kernel)), ?_, ?_⟩
  · exact (hitem _ _ rfl).mpr (nested_settled (by decide +kernel))
  · exact (hslice _ _ _ _ rfl).mpr (nested_settled (by decide +kernel))

/-- An item of a member, after a conversion that is left out -/
def skippedEvents : List ObjectEvent :=
  [.construct (.checksum System.strayChecksum) (some (py "a")) (some (ordinary .mixed))
      (some (ordinary .plain)) none none,
    .construct (.expression converted) none none (some (ordinary .mixed)) none none,
    .construct (.expression (.make 1 (.expression converted) [] (ordinary .plain) (ordinary .mixed) none
      none)) (some (py "k")) none (some (ordinary .mixed)) none none]

/-- A conversion of a member through a dummy, and the evaluation of the member -/
def resolvedEvents : List ObjectEvent :=
  [.construct (.checksum System.strayChecksum) (some (py "a")) (some (ordinary .mixed))
      (some (ordinary .plain)) none none,
    .construct (.expression converted) none none none none none,
    .construct (.expression (.make 1 (.expression converted) [] (ordinary .plain) (ordinary .plain) none
      none)) none none (some (ordinary .text)) none none,
    .result 0 System.strayChecksum]

/-- The item of the first run has an input of another celltype, so its copy raises; the
conversion of the second run is copied without the dummy. -/
theorem copy_raises_or_differs :
    (∃ e, (Run.exec (objectsStep System.smallPaths) .empty skippedEvents).made.head? = some e ∧
      e.input ≠ .none ∧
      copyOf System.smallPaths
        (Run.exec (objectsStep System.smallPaths) .empty skippedEvents).results 3 e = none) ∧
    ∃ e d after, (Run.exec (objectsStep System.smallPaths) .empty resolvedEvents).made.head? = some e ∧
      e.input ≠ .none ∧
      copyOf System.smallPaths
        (Run.exec (objectsStep System.smallPaths) .empty resolvedEvents).results 3 e =
          some (d, after) ∧ d.identityKey ≠ e.identityKey := by
  refine ⟨⟨.make 2 (.expression converted) (py "k") (ordinary .mixed) (ordinary .mixed) none none,
    by decide +kernel, ?_, by decide +kernel⟩, ?_⟩
  · intro h
    cases h
  · refine ⟨.make 2 (.expression (.make 1 (.expression converted) [] (ordinary .plain)
      (ordinary .plain) none none)) [] (ordinary .plain) (ordinary .text) none none,
      .make 3 (.expression converted) [] (ordinary .plain) (ordinary .text) none none, _,
      by decide +kernel, ?_, rfl, by decide +kernel⟩
    intro h
    cases h

end SeamlessCore.Expression
