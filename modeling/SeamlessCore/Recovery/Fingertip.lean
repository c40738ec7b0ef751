/-
  SeamlessCore.Recovery.Fingertip — the failure category of a fingertip.

  A fingertip that fails reports a category.  Read over the attempts on its
  candidates, the category ought to be the greatest of what they contribute:
  an input that could not be recovered contributes the category of its own
  failure, a buffer that the evaluation misses contributes that of the miss,
  and only an evaluation that had its buffers is irreproducible.

  The code takes a maximum at every place but one: a miss inside the
  evaluation of an Expression is taken for an irreproducible Expression.

  Main definitions:
    * `Recovers` — the runs of `Checksum.fingertip`;
    * `Attempt.contributes`, `IsHonest` — the category as it ought to be;
    * `Attempt.Supplied` — an evaluation finds the buffers it asks for.
  Main results:
    * `evaluateExpressionLocalAsync_isMissed` — a miss is a buffer that is not there;
    * `recovers_evolves` — no recorded mapping is changed;
    * `fingertip_category` — when the category is honest.
-/
import SeamlessCore.Recovery.Attempts
import SeamlessCore.Cells.Small
import SeamlessCore.Expression.Reachable

namespace SeamlessCore.Recovery

open Python Expression ExpressionCelltype Celljoin

/-! ## §1. Runs. -/

section

variable (I : Imports)

/-- Fingertips of inputs: the input, its end, and the stores around it -/
abbrev Inputs := Store I.libraries → Checksum → Awaited (Found I.libraries) →
  Store I.libraries → Prop

variable (R : Inputs I) (wanted : Checksum) (t : Option ExpressionCelltype)

/-- The evaluation records what it gives. -/
def recordEvaluation {L : Libraries} (s : Store L) (key : CacheKey) : Awaited Checksum → Store L
  | .returned c => s.insertResult key c
  | _ => s

/-- An attempt on an Expression.  Between two steps of it, other tasks may do
anything but change a recorded mapping. -/
inductive TryExpression (key : ExpressionKey) :
    Store I.libraries → ExpressionAttempt I → Store I.libraries → Prop
  | intro {s s₁ s₂ s₃ : Store I.libraries} {a : ExpressionAttempt I} : a.key = key →
      R s key.inputChecksum a.input s₁ → Store.Evolves s₁ s₂ →
      Store.Evolves (recordEvaluation s₂ (.expression key) a.evaluation) s₃ →
      a.result = s₃.resolve wanted t →
      TryExpression key s a s₃

/-- An attempt on a celljoin; its inputs are fingertipped side by side. -/
inductive TryCelljoin (checksum : Checksum) (celltype : JoinCelltype) :
    Store I.libraries → CelljoinAttempt I → Store I.libraries → Prop
  | skipped {s s₁ : Store I.libraries} {a : CelljoinAttempt I} : a.checksum = checksum →
      a.celltype = celltype → Store.Evolves s s₁ → a.definition = s₁.resolve checksum none →
      (∀ found, a.definition = .returned found → a.spec found = none) →
      TryCelljoin checksum celltype s a s₁
  | tried {s s₁ s₂ s₃ s₄ : Store I.libraries} {a : CelljoinAttempt I} {found : Found I.libraries}
      {spec : CellJoinSpec} : a.checksum = checksum → a.celltype = celltype →
      Store.Evolves s s₁ → s₁.resolve checksum none = .returned found →
      a.definition = .returned found → a.spec found = some spec →
      List.Forall₂ (fun c input => ∃ r r', Store.Evolves s₁ r ∧ R r c input r' ∧
        Store.Evolves r' s₂) (requiredBuffers spec) a.inputs →
      (requiredBuffers spec = [] → Store.Evolves s₁ s₂) → Store.Evolves s₂ s₃ →
      Store.Evolves (recordEvaluation s₃ (.celljoin checksum celltype) (a.evaluation spec)) s₄ →
      a.result = s₄.resolve wanted t →
      TryCelljoin checksum celltype s a s₄

/-- An attempt on a candidate; transformations are recomputed elsewhere. -/
inductive Try : Candidate → Store I.libraries → Attempt I → Store I.libraries → Prop
  | expression {key : ExpressionKey} {s s' : Store I.libraries} {a : ExpressionAttempt I} :
      TryExpression I R wanted t key s a s' → Try (.expression key) s (.expression a) s'
  | celljoin {c : Checksum} {celltype : JoinCelltype} {s s' : Store I.libraries}
      {a : CelljoinAttempt I} :
      TryCelljoin I R wanted t c celltype s a s' → Try (.celljoin c celltype) s (.celljoin a) s'
  | transformation {c : Checksum} {s s' : Store I.libraries} {a : TransformationAttempt I} :
      a.checksum = c → Store.Evolves s s' → a.result = s'.resolve wanted t →
      Try (.transformation c) s (.transformation a) s'

/-- The candidates are tried in their order, until the call ends. -/
inductive Tries : Category → List Candidate → Store I.libraries → List (Attempt I) →
    Store I.libraries → Prop
  | done {category : Category} {s : Store I.libraries} : Tries category [] s [] s
  | goesOn {category category' : Category} {cand : Candidate} {cands : List Candidate}
      {s s₁ s₂ : Store I.libraries} {a : Attempt I} {attempts : List (Attempt I)} :
      Try I R wanted t cand s a s₁ → a.next wanted category = .inl category' →
      Tries category' cands s₁ attempts s₂ →
      Tries category (cand :: cands) s (a :: attempts) s₂
  | ends {category : Category} {cand : Candidate} {cands : List Candidate}
      {s s₁ : Store I.libraries} {a : Attempt I} {ending : Awaited (Found I.libraries)} :
      Try I R wanted t cand s a s₁ → a.next wanted category = .inr ending →
      Tries category (cand :: cands) s [a] s₁

/-- One call of `fingertip`, where `R` stands for the calls that it awaits. -/
inductive Call (worker : Bool) : Store I.libraries → List (Attempt I) →
    Awaited (Found I.libraries) → Store I.libraries → Prop
  /-- The buffer is there, or `resolution` raises. -/
  | resolved {s s₁ : Store I.libraries} : Store.Evolves s s₁ →
      (s₁.resolve wanted t).isMissed = false → Call worker s [] (s₁.resolve wanted t) s₁
  /-- The infrastructure fails, or the call is cancelled. -/
  | interrupted {s s₁ : Store I.libraries} {attempts : List (Attempt I)} : Store.Evolves s s₁ →
      Call worker s attempts .interrupted s₁
  | searched {s s₁ s₂ s₃ : Store I.libraries} {rows : Rows} {attempts : List (Attempt I)} :
      Store.Evolves s s₁ → (s₁.resolve wanted t).isMissed = true →
      Store.Evolves (s₁.insertRows rows.keys wanted) s₂ →
      Tries I R wanted t .materialization (candidates s₁ rows wanted) s₂ attempts s₃ →
      Call worker s attempts (ending worker (tryAll wanted .materialization attempts)) s₃

end

/-- The runs of `Checksum.fingertip(celltype)` that are at most so deep -/
def Recovers (I : Imports) (worker : Bool) : (depth : Nat) → Checksum →
    Option ExpressionCelltype → Store I.libraries → List (Attempt I) →
    Awaited (Found I.libraries) → Store I.libraries → Prop
  | 0, _, _, _, _, _, _ => False
  | depth + 1, wanted, t, s, attempts, ending, s' =>
    Call I (fun s c ending s' => ∃ attempts, Recovers I worker depth c none s attempts ending s')
      wanted t worker s attempts ending s'

/-! ## §2. Recorded mappings. -/

section

variable {I : Imports} {R : Inputs I} {wanted : Checksum} {t : Option ExpressionCelltype}

theorem recordEvaluation_evolves {L : Libraries} (s : Store L) (key : CacheKey)
    (outcome : Awaited Checksum) : Store.Evolves s (recordEvaluation s key outcome) := by
  cases outcome with
  | returned c => exact Store.insertResult_evolves s key c
  | _ => exact Store.Evolves.refl s

variable (hR : ∀ s c ending s', R s c ending s' → Store.Evolves s s')
include hR

/-- What is recorded before the inputs are fingertipped is recorded after it. -/
theorem inputs_evolve {s s' : Store I.libraries} {required : List Checksum}
    {inputs : List (Awaited (Found I.libraries))}
    (h : List.Forall₂ (fun c input => ∃ r r', Store.Evolves s r ∧ R r c input r' ∧
      Store.Evolves r' s') required inputs)
    (hnone : required = [] → Store.Evolves s s') : Store.Evolves s s' := by
  cases h with
  | nil => exact hnone rfl
  | cons hfirst _ =>
    -- one of the inputs is enough
    obtain ⟨r, r', hbefore, hrun, hafter⟩ := hfirst
    exact hbefore.trans ((hR _ _ _ _ hrun).trans hafter)

theorem try_evolves {cand : Candidate} {s s' : Store I.libraries} {a : Attempt I}
    (h : Try I R wanted t cand s a s') : Store.Evolves s s' := by
  cases h with
  | expression h =>
    obtain ⟨-, hinput, hothers, hrecorded, -⟩ := h
    exact (hR _ _ _ _ hinput).trans
      (hothers.trans ((recordEvaluation_evolves _ _ _).trans hrecorded))
  | celljoin h =>
    cases h with
    | skipped _ _ hothers _ _ => exact hothers
    | tried _ _ hdefinition _ _ _ hinputs hnone hothers hrecorded _ =>
      exact hdefinition.trans ((inputs_evolve hR hinputs hnone).trans
        (hothers.trans ((recordEvaluation_evolves _ _ _).trans hrecorded)))
  | transformation _ hothers _ => exact hothers

theorem tries_evolve {category : Category} {cands : List Candidate} {s s' : Store I.libraries}
    {attempts : List (Attempt I)} (h : Tries I R wanted t category cands s attempts s') :
    Store.Evolves s s' := by
  induction h with
  | done => exact Store.Evolves.refl _
  | goesOn htry _ _ ih => exact (try_evolves hR htry).trans ih
  | ends htry _ => exact try_evolves hR htry

theorem call_evolves {worker : Bool} {s s' : Store I.libraries} {attempts : List (Attempt I)}
    {ending : Awaited (Found I.libraries)}
    (h : Call I R wanted t worker s attempts ending s') : Store.Evolves s s' := by
  cases h with
  | resolved hothers _ => exact hothers
  | interrupted hothers => exact hothers
  | searched hothers _ hrows htries =>
    exact hothers.trans ((Store.insertRows_evolves _ _ _).trans
      (hrows.trans (tries_evolve hR htries)))

end

/-- A fingertip changes no recorded mapping. -/
theorem recovers_evolves {I : Imports} {worker : Bool} {depth : Nat} :
    ∀ {wanted : Checksum} {t : Option ExpressionCelltype} {s s' : Store I.libraries}
      {attempts : List (Attempt I)} {ending : Awaited (Found I.libraries)},
      Recovers I worker depth wanted t s attempts ending s' → Store.Evolves s s' := by
  induction depth with
  | zero => exact fun h => h.elim
  | succ depth ih =>
    intro wanted t s s' attempts ending h
    refine call_evolves ?_ h
    rintro r c ending r' ⟨attempts', hinput⟩
    exact ih hinput

/-! ## §3. Buffers that an evaluation asks for. -/

section

variable {L : Libraries} {P : PathLibrary L}

/-- The members that the evaluation asks for, each with the await in which it does -/
def askedMemberBuffers (key : ExpressionKey) (steps : List PathStep) (views : Nat → Store L)
    (refused : Bool) (input : Option Bytes) : List (Nat × Checksum) :=
  if refused then []
  else
    match askedMembers (views 3) key steps input with
    | none => []
    | some children => children.zipIdx.map fun e => (4 + e.2, e.1)

/-- The buffers that the evaluation asks for -/
def askedBuffers (P : PathLibrary L) (key : ExpressionKey) (views : Nat → Store L)
    (refused : Bool) : List (Nat × Checksum) :=
  match ((views 0).recorded (.expression key)).filter fun c => (views 0).isLocal c with
  | some _ => []
  | none =>
    match parsePath P.interpreter key.path with
    | .error _ => []
    | .ok steps =>
      if asksInput (views 1) key steps then
        (2, key.inputChecksum) ::
          match (views 2).buffers.find key.inputChecksum with
          | none => []
          | some b => askedMemberBuffers key steps views refused (some b)
      else askedMemberBuffers key steps views refused none

/-- Every buffer that the evaluation asks for is there. -/
def SuppliedBy (P : PathLibrary L) (key : ExpressionKey) (views : Nat → Store L)
    (refused : Bool) : Prop :=
  ∀ e ∈ askedBuffers P key views refused, ((views e.1).buffers.find e.2).isSome = true

/-- The members are fetched, or one of them is missing. -/
theorem fetchMembers_cases (views : Nat → Store L) (children : List Checksum) (n k : Nat)
    (members : Checksum → Option Bytes) :
    (∃ members', fetchMembers views (n + k) children members = .returned members' ∧
      ∀ e ∈ children.zipIdx k, ((views (n + e.2)).buffers.find e.1).isSome = true) ∨
    fetchMembers views (n + k) children members = .missed none ∧
      ∃ e ∈ children.zipIdx k, (views (n + e.2)).buffers.find e.1 = none := by
  induction children generalizing k members with
  | nil =>
    left
    exact ⟨members, rfl, fun e he => by cases he⟩
  | cons child children ih =>
    unfold fetchMembers
    cases hfind : (views (n + k)).buffers.find child with
    | none =>
      right
      exact ⟨rfl, (child, k), List.mem_cons_self, hfind⟩
    | some b =>
      dsimp only
      rcases ih (k + 1) (Function.update members child (some b)) with
        ⟨members', hfetch, hall⟩ | ⟨hfetch, e, he, hmissing⟩
      · left
        refine ⟨members', hfetch, fun e he => ?_⟩
        rcases List.mem_cons.mp he with rfl | he
        · exact Option.isSome_iff_exists.mpr ⟨b, hfind⟩
        · exact hall e he
      · right
        exact ⟨hfetch, e, List.mem_cons_of_mem _ he, hmissing⟩

theorem ofOption_isMissed {α : Type} (a : Option α) : (Awaited.ofOption a).isMissed = false := by
  cases a <;> rfl

theorem evaluateFetched_isMissed (key : ExpressionKey) (steps : List PathStep)
    (views : Nat → Store L) (refused : Bool) (input : Option Bytes) :
    (evaluateFetched P key steps views refused input).isMissed = false ↔
      ∀ e ∈ askedMemberBuffers key steps views refused input,
        ((views e.1).buffers.find e.2).isSome = true := by
  unfold evaluateFetched askedMemberBuffers
  by_cases hrefused : refused = true
  · simp [hrefused, Awaited.isMissed]
  rw [if_neg hrefused, if_neg hrefused]
  cases hasked : askedMembers (views 3) key steps input with
  | none => simp [Awaited.isMissed]
  | some children =>
    dsimp only
    rcases fetchMembers_cases views children 4 0 fun _ => none with
      ⟨members, hfetch, hall⟩ | ⟨hfetch, e, he, hmissing⟩
    · rw [show fetchMembers views 4 children (fun _ => none) = .returned members from hfetch]
      refine iff_of_true (ofOption_isMissed _) ?_
      intro e he
      obtain ⟨e', he', rfl⟩ := List.mem_map.mp he
      exact hall e' he'
    · rw [show fetchMembers views 4 children (fun _ => none) = .missed none from hfetch]
      refine iff_of_false (by simp [Awaited.isMissed]) ?_
      intro hall
      have hsome := hall (4 + e.2, e.1) (List.mem_map.mpr ⟨e, he, rfl⟩)
      rw [hmissing] at hsome
      cases hsome

/-- The evaluation misses a buffer exactly if one that it asks for is not there. -/
theorem evaluateExpressionAsync_isMissed (key : ExpressionKey) (views : Nat → Store L)
    (refused : Bool) :
    (evaluateExpressionAsync P key views refused).isMissed = false ↔
      SuppliedBy P key views refused := by
  unfold evaluateExpressionAsync SuppliedBy askedBuffers
  cases ((views 0).recorded (.expression key)).filter fun c => (views 0).isLocal c with
  | some c => simp [Awaited.isMissed]
  | none =>
    dsimp only
    cases parsePath P.interpreter key.path with
    | error message => simp [Awaited.isMissed]
    | ok steps =>
      dsimp only
      unfold fetchInput
      by_cases hasks : asksInput (views 1) key steps = true
      · rw [if_pos hasks, if_pos hasks]
        cases hfind : (views 2).buffers.find key.inputChecksum with
        | none => simp [Awaited.isMissed, hfind]
        | some b =>
          -- the input is there, so the members decide
          simp only [List.forall_mem_cons, hfind, Option.isSome_some, true_and]
          exact evaluateFetched_isMissed key steps views refused (some b)
      · rw [if_neg hasks, if_neg hasks]
        exact evaluateFetched_isMissed key steps views refused none

/-- The work on an Expression finds every buffer that it asks for; of work that it
joins, that it ended with no miss. -/
def Work.Supplied (P : PathLibrary L) (key : ExpressionKey) : Work L → Prop
  | .interrupted => True
  | .evaluates views refused => SuppliedBy P key views refused
  | .joins (.returned c) views refused =>
    (views 0).isLocal c = true ∨ SuppliedBy P key (fun n => views (n + 1)) refused
  | .joins outcome _ _ => outcome.isMissed = false

theorem evaluateExpressionLocalAsync_isMissed (key : ExpressionKey) (work : Work L) :
    (evaluateExpressionLocalAsync P key work).isMissed = false ↔
      (validateExpressionShape L P key.path key.inputCelltype key.celltype = true →
        work.Supplied P key) := by
  unfold evaluateExpressionLocalAsync
  by_cases hshape : validateExpressionShape L P key.path key.inputCelltype key.celltype = false
  · simp [hshape, Awaited.isMissed]
  rw [if_neg hshape]
  simp only [Bool.not_eq_false] at hshape
  simp only [hshape, true_implies]
  cases work with
  | interrupted => simp [Work.Supplied, Awaited.isMissed]
  | evaluates views refused => exact evaluateExpressionAsync_isMissed key views refused
  | joins outcome views refused =>
    cases outcome with
    | returned c =>
      show Awaited.isMissed (if (views 0).isLocal c then _ else _) = false ↔ _ ∨ _
      by_cases hlocal : (views 0).isLocal c = true
      · simp [hlocal, Awaited.isMissed]
      · rw [if_neg hlocal, or_iff_right hlocal]
        exact evaluateExpressionAsync_isMissed key _ refused
    | missed k => exact Iff.rfl
    | interrupted => exact Iff.rfl
    | raised => exact Iff.rfl

end

/-! ## §4. Honest categories. -/

section

variable {I : Imports}

/-- The category of a miss -/
def missedCategory {α : Type} : Awaited α → List Category
  | .missed k => [orMaterialization k]
  | _ => []

/-- What an evaluation says of its recipe: it had its buffers and gave no other
checksum than the wanted one, or it is irreproducible, or it missed a buffer. -/
def evaluationContributes (wanted : Checksum) (result : Awaited (Found I.libraries)) :
    Awaited Checksum → List Category
  | .missed k => [orMaterialization k]
  | .interrupted => []
  | .raised => [.irreproducibleExpression]
  | .returned c => if c ≠ wanted then [.irreproducibleExpression] else missedCategory result

namespace ExpressionAttempt

def contributes (wanted : Checksum) (a : ExpressionAttempt I) : List Category :=
  match a.input with
  | .returned _ => evaluationContributes wanted a.result a.evaluation
  | input => missedCategory input

/-- If the input could be recovered, the evaluation finds its buffers. -/
def Supplied (a : ExpressionAttempt I) : Prop :=
  ∀ found, a.input = .returned found →
    validateExpressionShape I.libraries I.paths a.key.path a.key.inputCelltype a.key.celltype =
      true → a.work.Supplied I.paths a.key

end ExpressionAttempt

namespace CelljoinAttempt

def contributes (wanted : Checksum) (a : CelljoinAttempt I) : List Category :=
  match a.definition with
  | .returned found =>
    match a.spec found with
    -- it is not tried
    | none => []
    | some spec =>
      match a.inputs.flatMap missedCategory with
      | [] => evaluationContributes wanted a.result (a.evaluation spec)
      | missed => missed
  | _ => []

end CelljoinAttempt

namespace TransformationAttempt

def contributes (wanted : Checksum) (a : TransformationAttempt I) : List Category :=
  match a.recomputed with
  | .missed k => [orMaterialization k]
  | .interrupted => []
  | .raised => [.failedTransformation]
  | .returned none => []
  | .returned (some c) =>
    if c ≠ wanted then [.irreproducibleTransformation] else missedCategory a.result

end TransformationAttempt

namespace Attempt

/-- What an attempt ought to contribute to the category -/
def contributes (wanted : Checksum) : Attempt I → List Category
  | expression a => a.contributes wanted
  | celljoin a => a.contributes wanted
  | transformation a => a.contributes wanted

def Supplied : Attempt I → Prop
  | expression a => a.Supplied
  | _ => True

/-- An Expression whose input was recovered misses a buffer of its evaluation. -/
def missesBuffer : Attempt I → Bool
  | expression a =>
    match a.input with
    | .returned _ => a.evaluation.isMissed
    | _ => false
  | _ => false

theorem missesBuffer_eq_false (a : Attempt I) : a.missesBuffer = false ↔ a.Supplied := by
  cases a with
  | expression a =>
    show (match a.input with
      | .returned _ => a.evaluation.isMissed
      | _ => false) = false ↔ a.Supplied
    unfold ExpressionAttempt.Supplied
    cases hinput : a.input with
    | returned found =>
      simp only [Awaited.returned.injEq, forall_eq']
      exact evaluateExpressionLocalAsync_isMissed a.key a.work
    | _ => simp
  | celljoin a => exact iff_of_true rfl trivial
  | transformation a => exact iff_of_true rfl trivial

/-- What an attempt does contribute -/
def counts (wanted : Checksum) (a : Attempt I) : List Category :=
  if a.missesBuffer then [.irreproducibleExpression] else a.contributes wanted

end Attempt

/-- The category is the greatest that an attempt contributes, and at least a
missing buffer. -/
def IsHonest (wanted : Checksum) (attempts : List (Attempt I)) (category : Category) : Prop :=
  IsGreatest {k | k = .materialization ∨ ∃ a ∈ attempts, k ∈ a.contributes wanted} category

/-! ## §5. One attempt. -/

/-- The maximum of a category and others -/
def worst (category : Category) (ks : List Category) : Category := ks.foldl max category

theorem worst_append (category : Category) (ks ls : List Category) :
    worst category (ks ++ ls) = worst (worst category ks) ls := List.foldl_append

theorem worst_isGreatest (category : Category) (ks : List Category) :
    IsGreatest {k | k = category ∨ k ∈ ks} (worst category ks) := by
  induction ks generalizing category with
  | nil =>
    refine ⟨.inl rfl, fun k hk => ?_⟩
    rcases hk with rfl | hk
    · exact le_refl _
    · cases hk
  | cons k ks ih =>
    obtain ⟨hmem, hupper⟩ := ih (max category k)
    constructor
    · rcases hmem with hmax | hks
      · rcases max_choice category k with h | h
        · exact .inl (hmax.trans h)
        · right
          rw [show worst category (k :: ks) = k from hmax.trans h]
          exact List.mem_cons_self
      · exact .inr (List.mem_cons_of_mem k hks)
    · have hmax : max category k ≤ worst category (k :: ks) := hupper (.inl rfl)
      rintro l (rfl | hl)
      · exact (le_max_left _ k).trans hmax
      · rcases List.mem_cons.mp hl with rfl | hl
        · exact (le_max_right category _).trans hmax
        · exact hupper (.inr hl)

theorem worst_perm (category : Category) {ks ls : List Category} (h : ks.Perm ls) :
    worst category ks = worst category ls := h.foldl_eq category

/-- The attempt leaves the loop running, and adds these categories. -/
def AddsTo (next : Category → Next I) (ks : List Category) : Prop :=
  ∀ category, next category = .inl (worst category ks)

theorem resolveResult_adds {result : Awaited (Found I.libraries)} {category k : Category}
    (h : resolveResult category result = .inl k) :
    AddsTo (fun category => resolveResult category result) (missedCategory result) := by
  cases result with
  | missed k => exact fun _ => rfl
  | _ => cases h

theorem irreproducible_adds (category : Category) :
    worst category [.irreproducibleExpression] = .irreproducibleExpression :=
  max_eq_right (Category.le_irreproducibleExpression category)

theorem ExpressionAttempt.next_adds {wanted : Checksum} {a : ExpressionAttempt I}
    {category k : Category} (h : a.next wanted category = .inl k) :
    AddsTo (fun category => a.next wanted category) ((Attempt.expression a).counts wanted) := by
  intro category'
  cases hinput : a.input with
  | missed k =>
    simp only [next, Attempt.counts, Attempt.missesBuffer, Attempt.contributes, contributes, hinput]
    rfl
  | interrupted => simp [next, hinput] at h
  | raised => simp [next, hinput] at h
  | returned found =>
    simp only [next, Attempt.counts, Attempt.missesBuffer, Attempt.contributes, contributes,
      hinput] at h ⊢
    cases hevaluation : a.evaluation with
    | interrupted => simp [hevaluation] at h
    | missed k =>
      -- the clause takes a miss for an irreproducible evaluation
      exact congrArg Sum.inl (irreproducible_adds category').symm
    | raised => exact congrArg Sum.inl (irreproducible_adds category').symm
    | returned c =>
      simp only [hevaluation, Awaited.isMissed, Bool.false_eq_true, if_false,
        evaluationContributes] at h ⊢
      by_cases hc : c ≠ wanted
      · rw [if_pos hc, if_pos hc]
        exact congrArg Sum.inl (irreproducible_adds category').symm
      · rw [if_neg hc] at h
        rw [if_neg hc, if_neg hc]
        exact resolveResult_adds h category'

namespace CelljoinAttempt

/-- The inputs that were missed add their categories. -/
theorem gather_adds {inputs : List (Awaited (Found I.libraries))} {category k : Category}
    {failed failed' : Bool} (h : gather (I := I) category failed inputs = .inl (k, failed')) :
    failed' = (failed || !(inputs.flatMap missedCategory).isEmpty) ∧
      ∀ category', gather (I := I) category' failed inputs =
        .inl (worst category' (inputs.flatMap missedCategory), failed') := by
  induction inputs generalizing category failed with
  | nil =>
    cases h
    exact ⟨by simp, fun _ => rfl⟩
  | cons input inputs ih =>
    cases input with
    | returned found => exact ih h
    | missed m =>
      obtain ⟨hfailed, hall⟩ := ih h
      have htrue : failed' = true := by simpa using hfailed
      refine ⟨by simp [htrue, missedCategory], fun category' => ?_⟩
      exact hall (max category' (orMaterialization m))
    | interrupted => cases h
    | raised => cases h

theorem next_adds {wanted : Checksum} {a : CelljoinAttempt I} {category k : Category}
    (h : a.next wanted category = .inl k) :
    AddsTo (fun category => a.next wanted category) ((Attempt.celljoin a).counts wanted) := by
  intro category'
  show a.next wanted category' = .inl (worst category' (a.contributes wanted))
  cases hdefinition : a.definition with
  | missed m =>
    simp only [next, contributes, hdefinition]
    rfl
  | interrupted => simp [next, hdefinition] at h
  | raised => simp [next, hdefinition] at h
  | returned found =>
    simp only [next, contributes, hdefinition] at h ⊢
    cases hspec : a.spec found with
    | none => rfl
    | some spec =>
      simp only [hspec] at h ⊢
      cases hgather : gather category false a.inputs with
      | inr ending => simp [hgather] at h
      | inl gathered =>
        obtain ⟨gathered, failed⟩ := gathered
        obtain ⟨hfailed, hall⟩ := gather_adds hgather
        rw [hgather] at h
        rw [hall category']
        cases hmissed : a.inputs.flatMap missedCategory with
        | cons m ms =>
          -- some input failed, and the celljoin is not evaluated
          rw [hmissed] at hfailed
          have htrue : failed = true := by simpa using hfailed
          rw [htrue]
        | nil =>
          rw [hmissed] at hfailed
          have hfalse : failed = false := by simpa using hfailed
          rw [hfalse] at h ⊢
          show _ = Sum.inl (worst category' _)
          dsimp only at h ⊢
          cases hevaluation : a.evaluation spec with
          | interrupted => simp [hevaluation] at h
          | missed m => rfl
          | raised => rfl
          | returned c =>
            simp only [hevaluation, evaluationContributes] at h ⊢
            by_cases hc : c ≠ wanted
            · rw [if_pos hc, if_pos hc]
              rfl
            · rw [if_neg hc] at h
              rw [if_neg hc, if_neg hc]
              exact resolveResult_adds h category'

end CelljoinAttempt

theorem TransformationAttempt.next_adds {wanted : Checksum} {a : TransformationAttempt I}
    {category k : Category} (h : a.next wanted category = .inl k) :
    AddsTo (fun category => a.next wanted category) ((Attempt.transformation a).counts wanted) := by
  intro category'
  show a.next wanted category' = .inl (worst category' (a.contributes wanted))
  cases hrecomputed : a.recomputed with
  | interrupted => simp [next, hrecomputed] at h
  | missed m =>
    simp only [next, contributes, hrecomputed]
    rfl
  | raised =>
    simp only [next, contributes, hrecomputed]
    rfl
  | returned c =>
    cases c with
    | none =>
      simp only [next, contributes, hrecomputed]
      rfl
    | some c =>
      simp only [next, contributes, hrecomputed] at h ⊢
      by_cases hc : c ≠ wanted
      · rw [if_pos hc, if_pos hc]
        rfl
      · rw [if_neg hc] at h
        rw [if_neg hc, if_neg hc]
        exact resolveResult_adds h category'

/-- An attempt that leaves the loop running adds its categories, whatever the
category was before. -/
theorem Attempt.next_adds {wanted : Checksum} {a : Attempt I} {category k : Category}
    (h : a.next wanted category = .inl k) :
    AddsTo (fun category => a.next wanted category) (a.counts wanted) := by
  cases a with
  | expression a => exact ExpressionAttempt.next_adds h
  | celljoin a => exact CelljoinAttempt.next_adds h
  | transformation a => exact TransformationAttempt.next_adds h

/-! ## §6. All attempts. -/

section

variable {wanted : Checksum} {attempts : List (Attempt I)}

/-- The category after all attempts is the maximum of what they add. -/
theorem tryAll_adds {category k : Category} (h : tryAll wanted category attempts = .inl k) :
    (∀ a ∈ attempts, AddsTo (fun category => a.next wanted category) (a.counts wanted)) ∧
      k = worst category (attempts.flatMap (Attempt.counts wanted)) := by
  induction attempts generalizing category with
  | nil => exact ⟨(fun a ha => by cases ha), (Sum.inl.inj h).symm⟩
  | cons a attempts ih =>
    unfold tryAll at h
    cases hnext : a.next wanted category with
    | inr ending => simp [hnext] at h
    | inl category' =>
      have hadds := Attempt.next_adds hnext
      have hcategory : category' = worst category (a.counts wanted) :=
        Sum.inl.inj (hnext.symm.trans (hadds category))
      rw [hnext] at h
      obtain ⟨hall, hk⟩ := ih h
      refine ⟨?_, ?_⟩
      · intro a' ha'
        rcases List.mem_cons.mp ha' with rfl | ha'
        · exact hadds
        · exact hall a' ha'
      · rw [List.flatMap_cons, worst_append, ← hcategory]
        exact hk

theorem tryAll_of_adds
    (h : ∀ a ∈ attempts, AddsTo (fun category => a.next wanted category) (a.counts wanted))
    (category : Category) :
    tryAll wanted category attempts =
      .inl (worst category (attempts.flatMap (Attempt.counts wanted))) := by
  induction attempts generalizing category with
  | nil => rfl
  | cons a attempts ih =>
    unfold tryAll
    rw [show a.next wanted category = .inl _ from h a List.mem_cons_self category]
    rw [List.flatMap_cons, worst_append]
    exact ih (fun a' ha' => h a' (List.mem_cons_of_mem a ha')) _

/-- The order of the attempts does not change the category. -/
theorem tryAll_perm {category k : Category} (h : tryAll wanted category attempts = .inl k)
    {attempts' : List (Attempt I)} (hperm : attempts'.Perm attempts) :
    tryAll wanted category attempts' = .inl k := by
  obtain ⟨hall, hk⟩ := tryAll_adds h
  rw [tryAll_of_adds (fun a ha => hall a (hperm.mem_iff.mp ha)), hk]
  exact congrArg Sum.inl (worst_perm category (hperm.flatMap_right _))

/-- The category after all attempts is the greatest of what they add. -/
theorem tryAll_isGreatest {k : Category} (h : tryAll wanted .materialization attempts = .inl k) :
    IsGreatest {k | k = .materialization ∨ ∃ a ∈ attempts, k ∈ a.counts wanted} k := by
  obtain ⟨-, hk⟩ := tryAll_adds h
  have hgreatest := worst_isGreatest .materialization (attempts.flatMap (Attempt.counts wanted))
  rw [← hk] at hgreatest
  simpa only [List.mem_flatMap] using hgreatest

theorem Attempt.counts_of_supplied {a : Attempt I} (h : a.Supplied) :
    a.counts wanted = a.contributes wanted := by
  unfold counts
  rw [(missesBuffer_eq_false a).mpr h]
  rfl

/-- Where an Expression is said to be irreproducible, no other category is reported. -/
theorem category_of_irreproducible {k : Category}
    (h : tryAll wanted .materialization attempts = .inl k) {a : Attempt I} (ha : a ∈ attempts)
    (hcounts : .irreproducibleExpression ∈ a.counts wanted) : k = .irreproducibleExpression :=
  le_antisymm (Category.le_irreproducibleExpression k)
    ((tryAll_isGreatest h).2 (.inr ⟨a, ha, hcounts⟩))

/-- The category is honest exactly if no evaluation misses a buffer, or if a
candidate is irreproducible indeed. -/
theorem isHonest_iff {k : Category} (h : tryAll wanted .materialization attempts = .inl k) :
    IsHonest wanted attempts k ↔
      (∀ a ∈ attempts, a.Supplied) ∨
        ∃ a ∈ attempts, .irreproducibleExpression ∈ a.contributes wanted := by
  constructor
  · intro hhonest
    by_contra hnone
    rw [not_or] at hnone
    obtain ⟨hsupplied, hirreproducible⟩ := hnone
    -- a miss makes the reported category the highest, which nothing accounts for
    obtain ⟨a, ha, hmisses⟩ : ∃ a ∈ attempts, ¬ a.Supplied := by
      simpa only [not_forall, exists_prop] using hsupplied
    have hcounts : .irreproducibleExpression ∈ a.counts wanted := by
      unfold Attempt.counts
      rw [if_pos (by simpa [← Attempt.missesBuffer_eq_false] using hmisses)]
      exact List.mem_singleton_self _
    have hk := category_of_irreproducible h ha hcounts
    rcases hhonest.1 with hmaterialization | ⟨a', ha', hcontributes⟩
    · rw [hk] at hmaterialization
      cases hmaterialization
    · rw [hk] at hcontributes
      exact hirreproducible ⟨a', ha', hcontributes⟩
  · rintro (hsupplied | ⟨a, ha, hirreproducible⟩)
    · have hset : {k | k = .materialization ∨ ∃ a ∈ attempts, k ∈ a.counts wanted} =
          {k | k = .materialization ∨ ∃ a ∈ attempts, k ∈ a.contributes wanted} := by
        ext k
        refine or_congr_right (exists_congr fun a => and_congr_right fun ha => ?_)
        rw [Attempt.counts_of_supplied (hsupplied a ha)]
      unfold IsHonest
      rw [← hset]
      exact tryAll_isGreatest h
    · have hcounts : .irreproducibleExpression ∈ a.counts wanted := by
        unfold Attempt.counts
        split
        · exact List.mem_singleton_self _
        · exact hirreproducible
      rw [category_of_irreproducible h ha hcounts]
      exact ⟨.inr ⟨a, ha, hirreproducible⟩,
        fun k _ => Category.le_irreproducibleExpression k⟩

end

end

/-! ## §7. Every run. -/

section

variable {I : Imports} {wanted : Checksum} {category : Category} {k : Option Category}

theorem resolveResult_not_missed (result : Awaited (Found I.libraries)) :
    resolveResult category result ≠ .inr (.missed k) := by
  cases result <;> simp [resolveResult]

/-- What follows an evaluation that gave a checksum -/
theorem compared_not_missed (c : Checksum) (other : Category)
    (result : Awaited (Found I.libraries)) :
    (if c ≠ wanted then .inl other else resolveResult category result : Next I) ≠
      .inr (.missed k) := by
  split
  · exact (fun h => by cases h)
  · exact resolveResult_not_missed result

theorem ExpressionAttempt.next_not_missed (a : ExpressionAttempt I) :
    a.next wanted category ≠ .inr (.missed k) := by
  unfold next
  cases a.input with
  | returned found =>
    cases a.evaluation with
    | returned c => exact compared_not_missed c _ a.result
    | _ => exact (fun h => by cases h)
  | _ => exact (fun h => by cases h)

theorem CelljoinAttempt.gather_not_missed {failed : Bool}
    {inputs : List (Awaited (Found I.libraries))} {ending : Awaited (Found I.libraries)}
    (h : gather (I := I) category failed inputs = .inr ending) : ending ≠ .missed k := by
  induction inputs generalizing category failed with
  | nil => cases h
  | cons input inputs ih =>
    cases input with
    | returned found => exact ih h
    | missed m => exact ih h
    | interrupted =>
      cases h
      exact (fun h => by cases h)
    | raised =>
      cases h
      exact (fun h => by cases h)

theorem CelljoinAttempt.next_not_missed (a : CelljoinAttempt I) :
    a.next wanted category ≠ .inr (.missed k) := by
  unfold next
  cases a.definition with
  | returned found =>
    dsimp only
    cases a.spec found with
    | none => exact (fun h => by cases h)
    | some spec =>
      dsimp only
      cases hgather : gather category false a.inputs with
      | inr ending => exact fun h => gather_not_missed hgather (Sum.inr.inj h)
      | inl gathered =>
        obtain ⟨category', failed⟩ := gathered
        cases failed with
        | true => exact (fun h => by cases h)
        | false =>
          dsimp only
          cases a.evaluation spec with
          | returned c => exact compared_not_missed c _ a.result
          | _ => exact (fun h => by cases h)
  | _ => exact (fun h => by cases h)

theorem TransformationAttempt.next_not_missed (a : TransformationAttempt I) :
    a.next wanted category ≠ .inr (.missed k) := by
  unfold next
  cases a.recomputed with
  | returned c =>
    cases c with
    | none => exact (fun h => by cases h)
    | some c => exact compared_not_missed c _ a.result
  | _ => exact (fun h => by cases h)

/-- No attempt ends the call with a miss. -/
theorem Attempt.next_not_missed (a : Attempt I) :
    a.next wanted category ≠ .inr (.missed k) := by
  cases a with
  | expression a => exact a.next_not_missed
  | celljoin a => exact a.next_not_missed
  | transformation a => exact a.next_not_missed

theorem tryAll_not_missed (attempts : List (Attempt I)) :
    tryAll wanted category attempts ≠ .inr (.missed k) := by
  induction attempts generalizing category with
  | nil => exact (fun h => by cases h)
  | cons a attempts ih =>
    unfold tryAll
    cases hnext : a.next wanted category with
    | inl category' => exact ih
    | inr ending =>
      intro h
      exact Attempt.next_not_missed a (hnext.trans h)

/-- A call that misses has tried its candidates, and reports their category. -/
theorem call_missed {R : Inputs I} {t : Option ExpressionCelltype} {worker : Bool}
    {s s' : Store I.libraries} {attempts : List (Attempt I)} {e : Awaited (Found I.libraries)}
    (h : Call I R wanted t worker s attempts e s') (he : e = .missed k) :
    worker = false ∧ ∃ category, k = some category ∧
      tryAll wanted .materialization attempts = .inl category := by
  cases h with
  | resolved _ hresolved =>
    rw [he] at hresolved
    cases hresolved
  | interrupted _ => cases he
  | searched _ _ _ _ =>
    cases hall : tryAll wanted .materialization attempts with
    | inr e' =>
      rw [hall] at he
      exact absurd (hall.trans (congrArg Sum.inr he)) (tryAll_not_missed attempts)
    | inl category =>
      rw [hall] at he
      cases worker with
      | true => cases he
      | false => exact ⟨rfl, category, (Awaited.missed.inj he).symm, rfl⟩

end

/-- In every run of `Checksum.fingertip` that ends in a `CacheMissError`, no
recorded mapping is changed, and the category does not depend on the order of
the attempts.  It is the greatest that a candidate contributes exactly if no
Expression misses a buffer that its evaluation asks for, or if a candidate
contributes `IRREPRODUCIBLE_EXPRESSION` anyway. -/
theorem fingertip_category (I : Imports) (worker : Bool) (depth : Nat) (wanted : Checksum)
    (t : Option ExpressionCelltype) (s s' : Store I.libraries) (attempts : List (Attempt I))
    (k : Option Category)
    (h : Recovers I worker depth wanted t s attempts (.missed k) s') :
    ∃ category, k = some category ∧ Store.Evolves s s' ∧
      (∀ attempts' : List (Attempt I), attempts'.Perm attempts →
        ending worker (tryAll wanted .materialization attempts') = .missed (some category)) ∧
      (IsHonest wanted attempts category ↔
        (∀ a ∈ attempts, a.Supplied) ∨
          ∃ a ∈ attempts, .irreproducibleExpression ∈ a.contributes wanted) := by
  have hevolves := recovers_evolves h
  cases depth with
  | zero => exact h.elim
  | succ depth =>
    obtain ⟨hworker, category, hk, hall⟩ := call_missed h rfl
    refine ⟨category, hk, hevolves, ?_, isHonest_iff hall⟩
    intro attempts' hperm
    rw [tryAll_perm hall hperm, hworker]
    rfl

/-! ## §8. A wrong result, and a folder with a missing member. -/

section

variable {I : Imports} {worker : Bool} {wanted : Checksum} {t : Option ExpressionCelltype}
variable {s : Store I.libraries}

/-- A buffer that is there is found at once. -/
theorem recovers_resolved {found : Found I.libraries} (depth : Nat)
    (h : s.resolve wanted t = .returned found) :
    Recovers I worker (depth + 1) wanted t s [] (.returned found) s := by
  have hcall : Recovers I worker (depth + 1) wanted t s [] (s.resolve wanted t) s :=
    .resolved (Store.Evolves.refl s) (by rw [h]; rfl)
  rwa [h] at hcall

/-- The only candidate is an Expression that does not give the buffer back. -/
theorem recovers_failed {a : ExpressionAttempt I} {found : Found I.libraries} {category : Category}
    (hlost : s.resolve wanted t = .missed none)
    (hcandidates : candidates s ⟨[], [], []⟩ wanted = [.expression a.key])
    (hthere : s.resolve a.key.inputChecksum none = .returned found)
    (hinput : a.input = .returned found)
    (hrecorded : Store.Evolves (recordEvaluation s (.expression a.key) a.evaluation) s)
    (hnext : (Attempt.expression a).next wanted .materialization = .inl category)
    (hresult : a.result = .missed none) :
    Recovers I false 2 wanted t s [.expression a] (.missed (some category)) s := by
  have hevolves := Store.Evolves.refl s
  have htry : Try I (fun s c ending s' => ∃ attempts, Recovers I false 1 c none s attempts ending s')
      wanted t (.expression a.key) s (.expression a) s := by
    refine .expression ⟨rfl, ⟨[], ?_⟩, hevolves, hrecorded, hresult.trans hlost.symm⟩
    rw [hinput]
    exact recovers_resolved 0 hthere
  have htries := Tries.goesOn htry hnext .done
  rw [← hcandidates] at htries
  -- the database has no rows
  have hrows : Store.Evolves (s.insertRows (Rows.keys ⟨[], [], []⟩) wanted) s := hevolves
  have hcall : Recovers I false 2 wanted t s [.expression a]
      (ending false (tryAll wanted .materialization [.expression a])) s :=
    .searched hevolves (by rw [hlost]; rfl) hrows htries
  unfold tryAll at hcall
  rw [hnext] at hcall
  exact hcall

/-- A mapping that is recorded is recorded once. -/
theorem recordEvaluation_recorded {key : CacheKey} {c : Checksum} (h : s.recorded key = some c)
    (outcome : Awaited Checksum) : recordEvaluation s key outcome = s := by
  cases outcome with
  | returned c' =>
    show s.insertResult key c' = s
    unfold Store.insertResult
    rw [h]
  | _ => rfl

end

/-- The instance with dicts -/
def folderImports : Imports where
  libraries := pairs
  paths :=
    { interpreter := asciiInterpreter
      subscript := fun _ _ => none
      field := fun _ _ => none
      bytesArray := pairs.npBytes }
  joins := { Small.joins with sha256 := pairs.sha256 }
  sameHash := rfl

/-- The index of a folder with one file -/
def folderIndex : Bytes :=
  (pairs.serialize (.dict [(.str (py "f"), .str (Checksum.repeated 5).hex)])
    .plain).getD []

/-- The checksum that is looked for -/
def lostResult : Checksum := .repeated 7

/-- The folder as a mixed value -/
def folderKey : ExpressionKey :=
  ⟨pairs.sha256 folderIndex, [], folder, ordinary .mixed⟩

/-- The index is there, the file is not. -/
def folderStore : Store folderImports.libraries where
  buffers := Buffers.empty.put folderIndex
  isLocal c := c = pairs.sha256 folderIndex
  cache := [(.expression folderKey, lostResult)]
  known _ := none

def folderAttempt : ExpressionAttempt folderImports where
  key := folderKey
  input := .returned (.buffer folderIndex)
  work := .evaluates (fun _ => folderStore) false
  result := .missed none

/-- The number 5 -/
def numberBuffer : Bytes := ascii "5\n"

/-- The number as a string -/
def numberKey : ExpressionKey :=
  ⟨pairs.sha256 numberBuffer, [], ordinary .plain, ordinary .str⟩

/-- The number is there, and recorded with a checksum that is not its string's. -/
def numberStore : Store folderImports.libraries where
  buffers := Buffers.empty.put numberBuffer
  isLocal c := c = pairs.sha256 numberBuffer
  cache := [(.expression numberKey, lostResult)]
  known _ := none

def numberAttempt : ExpressionAttempt folderImports where
  key := numberKey
  input := .returned (.buffer numberBuffer)
  work := .evaluates (fun _ => numberStore) false
  result := .missed none

/-- The string has the buffer of the number. -/
theorem numberAttempt_differs :
    numberAttempt.evaluation = .returned (pairs.sha256 numberBuffer) := by
  decide +kernel

theorem numberAttempt_next : numberAttempt.next lostResult .materialization =
    .inl .irreproducibleExpression := by
  have hinput : numberAttempt.input = .returned (.buffer numberBuffer) := rfl
  have hother : pairs.sha256 numberBuffer ≠ lostResult := by decide
  unfold ExpressionAttempt.next
  rw [hinput]
  dsimp only
  rw [numberAttempt_differs]
  exact if_pos hother

theorem number_recovers :
    Recovers folderImports false 2 lostResult none numberStore [.expression numberAttempt]
      (.missed (some .irreproducibleExpression)) numberStore := by
  have hlost : numberStore.buffers.find lostResult = none := by decide +kernel
  have hthere : numberStore.buffers.find (pairs.sha256 numberBuffer) = some numberBuffer :=
    Buffers.find_put_self _ _
  have hrecorded : numberStore.recorded (.expression numberKey) = some lostResult := by
    decide +kernel
  have hinput : numberStore.resolve numberAttempt.key.inputChecksum none =
      .returned (.buffer numberBuffer) := by
    show numberStore.resolve (pairs.sha256 numberBuffer) none = _
    unfold Store.resolve
    rw [hthere]
  refine recovers_failed ?_ ?_ hinput rfl ?_ numberAttempt_next rfl
  · unfold Store.resolve
    rw [hlost]
  · decide +kernel
  · show Store.Evolves (recordEvaluation numberStore (.expression numberKey) _) numberStore
    rw [recordEvaluation_recorded hrecorded]
    exact Store.Evolves.refl _

/-- The recorded result of the Expression is wrong, and so the category is honest. -/
theorem number_fingertip :
    IsHonest lostResult [.expression numberAttempt] .irreproducibleExpression := by
  obtain ⟨category, hcategory, -, -, hhonest⟩ :=
    fingertip_category folderImports false 2 lostResult none numberStore numberStore
      [.expression numberAttempt] (some .irreproducibleExpression) number_recovers
  rw [Option.some.inj hcategory]
  refine hhonest.mpr (.inr ⟨.expression numberAttempt, List.mem_singleton.mpr rfl, ?_⟩)
  have hother : pairs.sha256 numberBuffer ≠ lostResult := by decide
  show Category.irreproducibleExpression ∈
    evaluationContributes lostResult numberAttempt.result numberAttempt.evaluation
  rw [numberAttempt_differs]
  unfold evaluationContributes
  dsimp only
  rw [if_pos hother]
  exact List.mem_singleton.mpr rfl

/-- The evaluation misses the file. -/
theorem folderAttempt_misses : folderAttempt.evaluation = .missed none := by
  decide +kernel

theorem folderAttempt_next : folderAttempt.next lostResult .materialization =
    .inl .irreproducibleExpression := by
  have hinput : folderAttempt.input = .returned (.buffer folderIndex) := rfl
  unfold ExpressionAttempt.next
  rw [hinput]
  dsimp only
  rw [folderAttempt_misses]

theorem folderStore_candidates :
    candidates folderStore ⟨[], [], []⟩ lostResult = [.expression folderKey] := by
  decide +kernel

theorem folderStore_lost : folderStore.resolve lostResult none = .missed none := by
  have hfind : folderStore.buffers.find lostResult = none := by
    decide +kernel
  unfold Store.resolve
  rw [hfind]

theorem folderStore_index :
    folderStore.resolve folderAttempt.key.inputChecksum none = .returned (.buffer folderIndex) := by
  have hfind : folderStore.buffers.find folderAttempt.key.inputChecksum = some folderIndex :=
    Buffers.find_put_self _ _
  unfold Store.resolve
  rw [hfind]

theorem folder_recovers :
    Recovers folderImports false 2 lostResult none folderStore [.expression folderAttempt]
      (.missed (some .irreproducibleExpression)) folderStore := by
  refine recovers_failed folderStore_lost folderStore_candidates folderStore_index rfl ?_
    folderAttempt_next rfl
  rw [folderAttempt_misses]
  exact Store.Evolves.refl _

/-- A file that is missing is reported as an irreproducible Expression. -/
theorem missingFile_irreproducible :
    ¬ ∀ (depth : Nat) (wanted : Checksum) (s s' : Store folderImports.libraries)
      (attempts : List (Attempt folderImports)) (category : Category),
      Recovers folderImports false depth wanted none s attempts (.missed (some category)) s' →
      IsHonest wanted attempts category := by
  intro hclaim
  have hhonest := hclaim 2 lostResult folderStore folderStore _ _ folder_recovers
  rcases hhonest.1 with hmaterialization | ⟨a, ha, hcontributes⟩
  · cases hmaterialization
  · rw [List.mem_singleton.mp ha] at hcontributes
    change Category.irreproducibleExpression ∈ evaluationContributes lostResult
      folderAttempt.result folderAttempt.evaluation at hcontributes
    rw [folderAttempt_misses] at hcontributes
    revert hcontributes
    decide

end SeamlessCore.Recovery
