/-
  SeamlessCore.Cells.Staleness — what a chain of Cells shows is not stale.

  The invariant: what a Cell has stored belongs to the recipe key that it saw
  last.  Every read brings that key up to date first, so what survives belongs
  to the configuration in force.  The one step that can break the invariant
  is the end of a computation: it stores its result whatever the Cell has seen
  since the computation started.

  Main results:
    * `step_coherent` — the invariant, event by event;
    * `read_recipe` — a read of a coherent chain shows the configuration in force;
    * `neverStale` — over all runs in which no computation ends late;
    * `lateCompletion_shows` — a computation that ends late is shown;
    * `lateCompletion_stale` — such a run.
-/
import SeamlessCore.Cells.Standalone

namespace SeamlessCore.Cells

open Python
open Cell (Outcome)

/-! ## §1. The key determines the recipe. -/

/-- The recipe key of a captured configuration -/
def Recipe.key : Recipe → RecipeKey
  | .root input celltype inputCelltype path validator language =>
    .root input.key celltype inputCelltype path (idOf validator) language
  | .derived source celltype inputCelltype path validator language =>
    .derived source.key celltype inputCelltype path (idOf validator) language

theorem idOf_inj {a b : Option Nat} (h : idOf a = idOf b) : a = b := by
  cases a with
  | none =>
    cases b with
    | none => rfl
    | some n => exact absurd h (Nat.succ_ne_zero n).symm
  | some m =>
    cases b with
    | none => exact absurd h (Nat.succ_ne_zero m)
    | some n => exact congrArg some (Nat.succ.inj h)

theorem InputRef.key_inj {a b : InputRef} (h : a.key = b.key) : a = b := by
  cases a with
  | none =>
    cases b with
    | none => rfl
    | checksum c => cases h
    | object id => exact absurd (idOf_inj (SourceKey.object.inj h)) (fun h => by cases h)
  | checksum c =>
    cases b with
    | checksum c' => rw [Checksum.hex_inj (SourceKey.checksum.inj h)]
    | _ => cases h
  | object id =>
    cases b with
    | none => exact absurd (idOf_inj (SourceKey.object.inj h)) (fun h => by cases h)
    | checksum c => cases h
    | object id' => rw [Option.some.inj (idOf_inj (SourceKey.object.inj h))]

/-- Different configurations have different keys. -/
theorem Recipe.key_inj {r r' : Recipe} (h : r.key = r'.key) : r = r' := by
  induction r generalizing r' with
  | root input celltype inputCelltype path validator language =>
    cases r' with
    | root =>
      unfold Recipe.key at h
      injection h with hinput hcelltype hinputCelltype hpath hvalidator hlanguage
      rw [InputRef.key_inj hinput, hcelltype, hinputCelltype, hpath, idOf_inj hvalidator, hlanguage]
    | derived => cases h
  | derived source celltype inputCelltype path validator language ih =>
    cases r' with
    | root => cases h
    | derived =>
      unfold Recipe.key at h
      injection h with hsource hcelltype hinputCelltype hpath hvalidator hlanguage
      rw [ih hsource, hcelltype, hinputCelltype, hpath, idOf_inj hvalidator, hlanguage]

namespace Chain

theorem build_key (s : Chain) (i : Nat) : (s.build i).key = s.cellRecipeKey i := by
  induction i with
  | zero => rfl
  | succ i ih =>
    show RecipeKey.derived (s.build i).key _ _ _ _ _ = .derived (s.cellRecipeKey i) _ _ _ _ _
    rw [ih]

end Chain

/-! ## §2. Configurations that a step leaves alone. -/

/-- The parts of a Cell that belong to the configuration -/
structure SameCell (c c' : Cell) : Prop where
  celltype : c'.celltype = c.celltype
  path : c'.path = c.path
  validator : c'.validator = c.validator
  language : c'.validatorLanguage = c.validatorLanguage

/-- Nothing of the configuration has changed. -/
structure SameConfiguration (s s' : Chain) : Prop where
  input : s'.input = s.input
  inputCelltype : s'.inputCelltype = s.inputCelltype
  sourceCelltype : s'.sourceCelltype = s.sourceCelltype
  cells : ∀ i, SameCell (s.cells i) (s'.cells i)

theorem SameConfiguration.refl (s : Chain) : SameConfiguration s s :=
  ⟨rfl, rfl, rfl, fun _ => ⟨rfl, rfl, rfl, rfl⟩⟩

theorem SameConfiguration.trans {s s' s'' : Chain} (h : SameConfiguration s s')
    (h' : SameConfiguration s' s'') : SameConfiguration s s'' where
  input := h'.input.trans h.input
  inputCelltype := h'.inputCelltype.trans h.inputCelltype
  sourceCelltype := h'.sourceCelltype.trans h.sourceCelltype
  cells i := by
    have hi := h.cells i
    have hi' := h'.cells i
    exact ⟨hi'.celltype.trans hi.celltype, hi'.path.trans hi.path,
      hi'.validator.trans hi.validator, hi'.language.trans hi.language⟩

theorem SameConfiguration.inputCelltypeOf {s s' : Chain} (h : SameConfiguration s s') (i : Nat) :
    s'.inputCelltypeOf i = s.inputCelltypeOf i := by
  cases i with
  | zero =>
    unfold Chain.inputCelltypeOf
    rw [h.input, h.inputCelltype, h.sourceCelltype]
  | succ i =>
    show some (s'.cells i).celltype = some (s.cells i).celltype
    rw [(h.cells i).celltype]

theorem SameConfiguration.build {s s' : Chain} (h : SameConfiguration s s') (i : Nat) :
    s'.build i = s.build i := by
  induction i with
  | zero =>
    have hroot := h.cells 0
    dsimp only [Chain.build]
    rw [h.input, h.inputCelltypeOf, hroot.celltype, hroot.path, hroot.validator, hroot.language]
  | succ i ih =>
    have hcell := h.cells (i + 1)
    dsimp only [Chain.build]
    rw [ih, h.inputCelltypeOf, hcell.celltype, hcell.path, hcell.validator, hcell.language]

theorem Chain.cells_modify (s : Chain) (i : Nat) (f : Cell → Cell) (j : Nat) :
    (s.modify i f).cells j = if j = i then f (s.cells i) else s.cells j := by
  show Function.update s.cells i (f (s.cells i)) j = _
  rw [Function.update_apply]

/-- A change of what a Cell has stored leaves the configuration alone. -/
theorem SameConfiguration.modify (s : Chain) (i : Nat) {f : Cell → Cell}
    (hf : SameCell (s.cells i) (f (s.cells i))) : SameConfiguration s (s.modify i f) where
  input := rfl
  inputCelltype := rfl
  sourceCelltype := rfl
  cells j := by
    rw [s.cells_modify]
    by_cases hj : j = i
    · rw [if_pos hj, hj]
      exact hf
    · rw [if_neg hj]
      exact ⟨rfl, rfl, rfl, rfl⟩

theorem SameCell.store (c : Cell) (recipe : Recipe) (o : Outcome) :
    SameCell c (c.store recipe o) := by
  cases o <;> exact ⟨rfl, rfl, rfl, rfl⟩

theorem sameConfiguration_syncRecipe (s : Chain) (i : Nat) :
    SameConfiguration s (s.syncRecipe i) := by
  unfold Chain.syncRecipe
  split
  · exact SameConfiguration.refl s
  · exact SameConfiguration.modify s i ⟨rfl, rfl, rfl, rfl⟩

/-! ## §3. The invariant. -/

/-- What the Cell has stored belongs to the recipe key that it saw last. -/
structure CellCoherent (c : Cell) : Prop where
  result : ∀ r, c.result = some r → c.recipeKey = some r.recipe.key
  exception : ∀ e, c.exception = some e → c.recipeKey = some e.recipe.key

/-- The invariant of a chain -/
def Coherent (s : Chain) : Prop := ∀ i, CellCoherent (s.cells i)

theorem CellCoherent.empty {c : Cell} (hresult : c.result = none) (hexception : c.exception = none) :
    CellCoherent c := by
  constructor
  · intro r hr
    rw [hresult] at hr
    cases hr
  · intro e he
    rw [hexception] at he
    cases he

theorem CellCoherent.clear (c : Cell) : CellCoherent c.clear := CellCoherent.empty rfl rfl

/-- A computation of the recipe that the Cell saw last -/
theorem CellCoherent.store {c : Cell} {recipe : Recipe} (hkey : c.recipeKey = some recipe.key)
    (o : Outcome) : CellCoherent (c.store recipe o) := by
  cases o with
  | result r =>
    constructor
    · intro stored hstored
      obtain ⟨x, -, rfl⟩ := Option.map_eq_some_iff.mp hstored
      exact hkey
    · intro e he
      cases he
  | failure e =>
    constructor
    · intro r hr
      cases hr
    · intro stored hstored
      rw [← Option.some.inj hstored]
      exact hkey

theorem Coherent.modify {s : Chain} (h : Coherent s) (i : Nat) {f : Cell → Cell}
    (hf : CellCoherent (f (s.cells i))) : Coherent (s.modify i f) := by
  intro j
  rw [s.cells_modify]
  by_cases hj : j = i
  · rw [if_pos hj]
    exact hf
  · rw [if_neg hj]
    exact h j

theorem Coherent.syncRecipe {s : Chain} (h : Coherent s) (i : Nat) : Coherent (s.syncRecipe i) := by
  unfold Chain.syncRecipe
  split
  · exact h
  · exact h.modify i (CellCoherent.empty rfl rfl)

/-- A read brings the recipe key of the Cell up to date. -/
theorem recipeKey_syncRecipe (s : Chain) (i : Nat) :
    ((s.syncRecipe i).cells i).recipeKey = some ((s.syncRecipe i).build i).key := by
  rw [(sameConfiguration_syncRecipe s i).build, s.build_key]
  unfold Chain.syncRecipe
  split
  next h => exact h
  · rw [s.cells_modify, if_pos rfl]

/-! ## §4. Reads. -/

/-- After a read has brought the key up to date, what is stored belongs to the
configuration in force. -/
theorem Coherent.recipe_syncRecipe {s : Chain} (h : Coherent s) (i : Nat) :
    (∀ r, ((s.syncRecipe i).cells i).result = some r → r.recipe = s.build i) ∧
      ∀ e, ((s.syncRecipe i).cells i).exception = some e → e.recipe = s.build i := by
  have hcell := h.syncRecipe i i
  have hkey := recipeKey_syncRecipe s i
  rw [(sameConfiguration_syncRecipe s i).build] at hkey
  constructor
  · intro r hr
    apply Recipe.key_inj
    exact Option.some.inj ((hcell.result r hr).symm.trans hkey)
  · intro e he
    apply Recipe.key_inj
    exact Option.some.inj ((hcell.exception e he).symm.trans hkey)

/-- What a read does to a coherent chain, and what it shows -/
structure ReadSpec (s : Chain) (i : Nat) (after : Chain × Answer) : Prop where
  configuration : SameConfiguration s after.1
  coherent : Coherent after.1
  recipe : ∀ r, after.2.recipe = some r → r = s.build i

theorem readState_spec {s : Chain} (h : Coherent s) (i : Nat) : ReadSpec s i (s.readState i) := by
  have hsame := sameConfiguration_syncRecipe s i
  have hcoherent := h.syncRecipe i
  obtain ⟨hresult, hexception⟩ := h.recipe_syncRecipe i
  dsimp only [Chain.readState]
  split
  · exact ⟨hsame, hcoherent, fun r hr => by cases hr⟩
  · split
    · exact ⟨hsame, hcoherent, fun r hr => by cases hr⟩
    · cases he : ((s.syncRecipe i).cells i).exception with
      | some e =>
        refine ⟨hsame, hcoherent, fun r hr => ?_⟩
        rw [← Option.some.inj hr]
        exact hexception e he
      | none =>
        cases hr : ((s.syncRecipe i).cells i).result with
        | some stored =>
          refine ⟨hsame, hcoherent, fun r hshown => ?_⟩
          rw [← Option.some.inj hshown]
          exact hresult stored hr
        | none =>
          cases (s.syncRecipe i).literal i with
          | some c =>
            refine ⟨hsame, hcoherent, fun r hshown => ?_⟩
            rw [← Option.some.inj hshown]
            exact hsame.build i
          | none => exact ⟨hsame, hcoherent, fun r hr => by cases hr⟩

theorem readException_spec {s : Chain} (h : Coherent s) (i : Nat) :
    ReadSpec s i (s.readException i) := by
  refine ⟨sameConfiguration_syncRecipe s i, h.syncRecipe i, fun r hr => ?_⟩
  obtain ⟨e, he, rfl⟩ := Option.map_eq_some_iff.mp hr
  exact (h.recipe_syncRecipe i).2 e he

/-- An evaluation during a read is one of the configuration in force. -/
theorem evaluated_spec {s : Chain} (h : Coherent s) (i : Nat) (o : Outcome) (shown : Shown) :
    ReadSpec s i ((s.syncRecipe i).modify i fun c => c.store ((s.syncRecipe i).build i) o,
      ⟨shown, some ((s.syncRecipe i).build i)⟩) := by
  have hsame := sameConfiguration_syncRecipe s i
  have hstore := SameConfiguration.modify (s.syncRecipe i) i
    (f := fun c => c.store ((s.syncRecipe i).build i) o) (SameCell.store _ _ o)
  have hcoherent : Coherent ((s.syncRecipe i).modify i fun c =>
      c.store ((s.syncRecipe i).build i) o) :=
    (h.syncRecipe i).modify i (CellCoherent.store (recipeKey_syncRecipe s i) o)
  refine ⟨hsame.trans hstore, hcoherent, fun r hr => ?_⟩
  rw [← Option.some.inj hr]
  exact hsame.build i

theorem readChecksum_spec {s : Chain} (h : Coherent s) (sha256 : Bytes → Checksum) (i : Nat)
    (work : Option Outcome) : ReadSpec s i (s.readChecksum sha256 i work) := by
  have hsame := sameConfiguration_syncRecipe s i
  have hcoherent := h.syncRecipe i
  obtain ⟨hresult, hexception⟩ := h.recipe_syncRecipe i
  dsimp only [Chain.readChecksum]
  split
  · exact ⟨hsame, hcoherent, fun r hr => by cases hr⟩
  · cases he : ((s.syncRecipe i).cells i).exception with
    | some e =>
      refine ⟨hsame, hcoherent, fun r hr => ?_⟩
      rw [← Option.some.inj hr]
      exact hexception e he
    | none =>
      cases hr : ((s.syncRecipe i).cells i).result with
      | some stored =>
        refine ⟨hsame, hcoherent, fun r hshown => ?_⟩
        rw [← Option.some.inj hshown]
        exact hresult stored hr
      | none =>
        cases (s.syncRecipe i).literal i with
        | some c =>
          refine ⟨hsame, hcoherent, fun r hshown => ?_⟩
          rw [← Option.some.inj hshown]
          exact hsame.build i
        | none =>
          cases work with
          | none => exact ⟨hsame, hcoherent, fun r hr => by cases hr⟩
          | some o =>
            cases o with
            | result r => exact evaluated_spec h i (.result r) _
            | failure e => exact evaluated_spec h i (.failure e) _

/-! ## §5. Events. -/

/-- The computation does not end late: its Cell has not seen another configuration since
the computation started. -/
def Timely (s : Chain) : Event → Prop
  | .finishCompute call _ =>
    ∀ p, s.calls call = some p → (s.cells p.cell).recipeKey = some p.recipe.key
  | _ => True

instance (s : Chain) (e : Event) : Decidable (Timely s e) := by
  cases e <;> unfold Timely <;> infer_instance

theorem Coherent.replaceInput {s : Chain} (h : Coherent s) (c : Option Checksum)
    (t : Option CellCelltype) : Coherent (s.replaceInput c t) :=
  Coherent.modify (fun i => h i) 0 (CellCoherent.clear _)

/-- The invariant, event by event -/
theorem step_coherent (sha256 : Bytes → Checksum) {s : Chain} (h : Coherent s) {e : Event}
    (htimely : Timely s e) : Coherent (step sha256 s e).1 := by
  cases e with
  | writeRoot detach c t =>
    show Coherent (s.writeRoot detach c t)
    unfold Chain.writeRoot
    split
    · -- a write clears what the root has stored
      exact h.replaceInput c t
    · exact h
  | writeProjection i work c =>
    show Coherent (s.writeProjection sha256 i work c)
    unfold Chain.writeProjection
    split
    · exact (readChecksum_spec h sha256 0 work).coherent.replaceInput _ _
    · exact h
  | retype i t =>
    have hretype : s.retype i t = s ∨
        s.retype i t = s.modify i fun c => { c.clear with celltype := t } := by
      dsimp only [Chain.retype]
      exact ite_eq_or_eq _ _ _
    show Coherent (s.retype i t)
    rcases hretype with heq | heq
    · rw [heq]
      exact h
    · rw [heq]
      exact h.modify i (CellCoherent.empty rfl rfl)
  | startCompute i refusal =>
    have hcoherent := h.syncRecipe i
    show Coherent (s.startCompute i refusal)
    dsimp only [Chain.startCompute]
    split
    · exact hcoherent
    · split
      next e _ => exact hcoherent.modify i (CellCoherent.store (recipeKey_syncRecipe s i) _)
      · exact fun j => hcoherent j
  | finishCompute call o =>
    show Coherent (s.finishCompute call o)
    unfold Chain.finishCompute
    split
    · exact h
    next p hp =>
      exact Coherent.modify (f := fun c => c.store p.recipe o) (fun j => h j) p.cell
        (CellCoherent.store (htimely p hp) o)
  | cancelCompute call => exact fun j => h j
  | readChecksum i work => exact (readChecksum_spec h sha256 i work).coherent
  | readState i => exact (readState_spec h i).coherent
  | readException i => exact (readException_spec h i).coherent

/-- A read of a coherent chain shows the configuration in force. -/
theorem read_recipe (sha256 : Bytes → Checksum) {s : Chain} (h : Coherent s) {e : Event} {i : Nat}
    (hread : e.reads = some i) {r : Recipe} (hr : (step sha256 s e).2.recipe = some r) :
    r = s.build i := by
  cases e with
  | readChecksum j work =>
    rw [← Option.some.inj hread]
    exact (readChecksum_spec h sha256 j work).recipe r hr
  | readState j =>
    rw [← Option.some.inj hread]
    exact (readState_spec h j).recipe r hr
  | readException j =>
    rw [← Option.some.inj hread]
    exact (readException_spec h j).recipe r hr
  | _ => cases hread

/-! ## §6. A computation that ends late. -/

theorem SameConfiguration.miswired {s s' : Chain} (h : SameConfiguration s s') (i : Nat) :
    s'.miswired i = s.miswired i := by
  have hcell : ∀ i, s'.convertsBehind i = s.convertsBehind i := by
    intro i
    unfold Chain.convertsBehind
    rw [h.inputCelltypeOf, (h.cells i).path, (h.cells i).celltype]
  induction i with
  | zero => exact hcell 0
  | succ i ih =>
    show (s'.miswired i || s'.convertsBehind (i + 1)) = (s.miswired i || s.convertsBehind (i + 1))
    rw [ih, hcell]

theorem SameConfiguration.unwired {s s' : Chain} (h : SameConfiguration s s') (i : Nat) :
    s'.unwired i = s.unwired i := by
  cases i with
  | zero =>
    unfold Chain.unwired
    rw [h.input]
  | succ i => rfl

/-- A result that is stored late, at a Cell that was read in the configuration in force, is
shown although it belongs to another configuration. -/
theorem lateCompletion_shows (sha256 : Bytes → Checksum) {s : Chain} {call : Nat} {p : Call}
    {c : Checksum} (hcall : s.calls call = some p)
    (hlate : ¬ Timely s (.finishCompute call (.result (some c))))
    (hkey : (s.cells p.cell).recipeKey = some (s.cellRecipeKey p.cell))
    (hwired : s.unwired p.cell = false) (hmiswired : s.miswired p.cell = false)
    (work : Option Outcome) :
    ((s.finishCompute call (.result (some c))).readChecksum sha256 p.cell work).2 =
        ⟨.checksum (some c), some p.recipe⟩ ∧
      p.recipe ≠ s.build p.cell := by
  constructor
  · -- the late result changes nothing of what is compared
    have hfinish : s.finishCompute call (.result (some c)) =
        { s with calls := Function.update s.calls call none }.modify p.cell fun cell =>
          cell.store p.recipe (.result (some c)) := by
      unfold Chain.finishCompute
      rw [hcall]
    have hsame : SameConfiguration s (s.finishCompute call (.result (some c))) := by
      have hdrop : SameConfiguration s { s with calls := Function.update s.calls call none } :=
        ⟨rfl, rfl, rfl, fun _ => ⟨rfl, rfl, rfl, rfl⟩⟩
      rw [hfinish]
      exact hdrop.trans (SameConfiguration.modify _ p.cell
        (f := fun cell => cell.store p.recipe (.result (some c))) (SameCell.store _ _ _))
    have hcell : (s.finishCompute call (.result (some c))).cells p.cell =
        (s.cells p.cell).store p.recipe (.result (some c)) := by
      rw [hfinish, Chain.cells_modify, if_pos rfl]
    -- the key is that of the configuration in force, so the read clears nothing
    have hsync : (s.finishCompute call (.result (some c))).syncRecipe p.cell =
        s.finishCompute call (.result (some c)) := by
      unfold Chain.syncRecipe
      rw [if_pos]
      rw [hcell, ← Chain.build_key, hsame.build, Chain.build_key]
      exact hkey
    dsimp only [Chain.readChecksum]
    rw [hsync, hsame.miswired, hsame.unwired, hwired, hmiswired, hcell]
    rfl
  · intro heq
    apply hlate
    intro q hq
    have hpq : p = q := Option.some.inj (hcall.symm.trans hq)
    rw [← hpq, hkey, heq, s.build_key]

/-! ## §7. Runs. -/

/-- No Cell has stored anything, and no call is suspended. -/
structure Initial (s : Chain) : Prop where
  result : ∀ i, (s.cells i).result = none
  exception : ∀ i, (s.cells i).exception = none
  calls : ∀ call, s.calls call = none

/-- Every read of the run shows a result, a `complete` state or a failure of the
configuration in force only. -/
def NeverStale (sha256 : Bytes → Checksum) (init : Chain) (events : List Event) : Prop :=
  ∀ before e after, events = before ++ e :: after → ∀ i, e.reads = some i →
    ∀ r, (step sha256 (Run.exec (step sha256) init before) e).2.recipe = some r →
      r = (Run.exec (step sha256) init before).build i

/-- In every run in which no computation ends late, no read is stale. -/
theorem neverStale (sha256 : Bytes → Checksum) (init : Chain) (hinit : Initial init)
    (events : List Event)
    (htimely : Run.StepsMeet (step sha256) (fun _ s e => Timely s e) init events) :
    NeverStale sha256 init events := by
  intro before e after hevents i hread r hr
  -- the steps before the read are timely as well
  have hbefore : Run.StepsMeet (step sha256) (fun _ s e => Timely s e) init before := by
    intro first f rest heq
    refine htimely first f (rest ++ e :: after) ?_
    rw [hevents, heq, List.append_assoc]
    rfl
  have hcoherent : Coherent (Run.exec (step sha256) init before) := by
    refine Run.exec_traced_invariant (step sha256) (fun _ s e => Timely s e)
      (fun _ s => Coherent s) ?_ ?_ before hbefore
    · exact fun i => CellCoherent.empty (hinit.result i) (hinit.exception i)
    · intro _ s e h hok
      exact step_coherent sha256 h hok
  exact read_recipe sha256 hcoherent hread hr

/-- The checksum with one digit only -/
def repeated (b : UInt8) : Checksum := Checksum.repeated b

/-- A root Cell without input, and its item `a` -/
def rootAndItem : Chain where
  input := .none
  inputCelltype := none
  sourceCelltype := .value .plain
  sourceProjected := false
  cells i := ⟨.value .plain, if i = 0 then [] else py "a", i ≠ 0, false, none, none, none,
    none, none⟩
  calls _ := none
  callCount := 0

theorem neverStale_rootAndItem : NeverStale (fun _ => repeated 0) rootAndItem
    [.writeRoot false (some (repeated 1)) none, .startCompute 1 none,
      .writeRoot false (some (repeated 2)) none,
      .finishCompute 0 (.result (some (repeated 3))), .readState 1] := by
  apply neverStale
  · exact ⟨fun _ => rfl, fun _ => rfl, fun _ => rfl⟩
  · refine (((((Run.StepsMeet.nil _ _ _).snoc _ trivial).snoc _ trivial).snoc _ trivial).snoc _
      ?_).snoc _ trivial
    -- nobody has read the item since the computation started
    intro p hp
    rw [← Option.some.inj hp]
    decide

/-- The item is computed, the root is written, the item is read, and then the first
computation ends: the item shows the old result. -/
theorem lateCompletion_stale : ¬ ∀ (init : Chain) (events : List Event), Initial init →
    NeverStale (fun _ => repeated 0) init events := by
  intro h
  have hstale := h rootAndItem
    [.writeRoot false (some (repeated 1)) none, .startCompute 1 none,
      .writeRoot false (some (repeated 2)) none,
      .readState 1, .finishCompute 0 (.result (some (repeated 3))), .readState 1]
    ⟨fun _ => rfl, fun _ => rfl, fun _ => rfl⟩
    [.writeRoot false (some (repeated 1)) none, .startCompute 1 none,
      .writeRoot false (some (repeated 2)) none,
      .readState 1, .finishCompute 0 (.result (some (repeated 3)))]
    (.readState 1) [] rfl 1 rfl _ rfl
  exact absurd hstale (by decide)

end SeamlessCore.Cells
