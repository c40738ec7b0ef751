/-
  SeamlessCore.Expression.Reachable — materializing requests and their bytes.

  A source that is said to have a buffer gives it, nothing that was obtainable
  is lost, and a dispatch with `scratch=False` leaves its result on the
  hashserver.  Then a materializing request is
  answered with a checksum whose buffer can be obtained, as long as the
  checksums that evaluations pass on without a buffer are obtainable
  themselves: those of its own evaluation, and those of an evaluation in this
  process that a request for a dispatch has joined.

  Main results:
    * `advance_sound`, `resume_sound`, … — one lemma a step;
    * `step_sound` — the invariant, event by event;
    * `materialized_obtainable` — over all runs that meet the condition;
    * `identity_unobtainable` — an identity hands out a checksum without bytes.
-/
import SeamlessCore.Expression.Materialize
import SeamlessCore.Expression.PathCodec
import SeamlessCore.Checksum.Small

namespace SeamlessCore.Expression

open Python Libraries ExpressionCelltype

namespace World

variable {L : Libraries} {w : World L}

/-! ## §1. What can be obtained. -/

theorem obtainable_of_local (hw : w.Truthful) {c : Checksum} (h : w.hasLocalBuffer c = true) :
    w.Obtainable c := by
  rcases (Bool.or_eq_true _ _).mp h with hmemory | hsource
  · exact .inl hmemory
  · exact .inr (.inl (hw.ofSource c hsource))

theorem obtainable_of_reachable (hw : w.Truthful) {o : Seen} {c : Checksum}
    (h : w.resultReachable o c = true) : w.Obtainable c := by
  rcases (Bool.or_eq_true _ _).mp h with hlocal | hremote
  · exact obtainable_of_local hw ((Bool.and_eq_true _ _).mp hlocal).2
  · exact .inr (.inr (hw.ofLength c ((Bool.and_eq_true _ _).mp hremote).2))

theorem obtainable_of_localBuffer {c : Checksum} (h : (w.localBuffer c).isSome = true) :
    w.Obtainable c := by
  rw [localBuffer, Option.isSome_or] at h
  rcases (Bool.or_eq_true _ _).mp h with hmemory | hsource
  · exact .inl hmemory
  · exact .inr (.inl hsource)

theorem obtainable_iff {c : Checksum} : w.Obtainable c ↔ (w.resolution c).isSome = true := by
  unfold Obtainable resolution localBuffer
  rw [Option.isSome_or, Option.isSome_or, Bool.or_eq_true, Bool.or_eq_true, or_assoc]

theorem obtainable_of_resolution {c : Checksum} {b : Bytes} (h : w.resolution c = some b) :
    w.Obtainable c := by
  rw [obtainable_iff, h]
  rfl

theorem obtainable_insertResult {c : Checksum} (h : w.Obtainable c) (key : ExpressionKey)
    (r : Checksum) : (w.insertResult key r).Obtainable c := by
  unfold insertResult
  cases w.cache key <;> exact h

theorem obtainable_holdBuffer {c : Checksum} (h : w.Obtainable c) (b : Option Bytes) :
    (w.holdBuffer b).Obtainable c := by
  cases b with
  | none => exact h
  | some b =>
    rcases h with hmemory | hother
    · exact .inl (Buffers.isSome_put hmemory b)
    · exact .inr hother

theorem obtainable_recordAnswer {c : Checksum} (h : w.Obtainable c) (key : ExpressionKey)
    (r : Converted) : (w.recordAnswer key r).Obtainable c :=
  obtainable_holdBuffer (obtainable_insertResult h key r.1) r.2

/-- A new buffer is held. -/
theorem obtainable_made (key : ExpressionKey) (b : Bytes) :
    (w.recordAnswer key (L.sha256 b, some b)).Obtainable (L.sha256 b) := by
  left
  show (((w.insertResult key _).memory.put b).find (L.sha256 b)).isSome = true
  rw [Buffers.find_put_self]
  rfl

/-- The expression cache does not bear on what the sources say. -/
theorem Truthful.insertResult (hw : w.Truthful) (key : ExpressionKey) (c : Checksum) :
    (w.insertResult key c).Truthful := by
  unfold World.insertResult
  cases w.cache key <;> exact ⟨hw.ofSource, hw.ofLength⟩

theorem Truthful.recordAnswer (hw : w.Truthful) (key : ExpressionKey) (r : Converted) :
    (w.recordAnswer key r).Truthful := by
  have hinserted := hw.insertResult key r.1
  unfold World.recordAnswer
  cases r.2 with
  | none => exact hinserted
  | some b => exact ⟨hinserted.ofSource, hinserted.ofLength⟩

end World

namespace System

variable {L : Libraries} (P : PathLibrary L)

/-! ## §2. The conditions. -/

/-- Sources and hashserver say the truth. -/
def KeepsTruthful : Event L → Prop
  | .world w => w.Truthful
  | _ => True

/-- Nothing becomes unavailable. -/
def KeepsBuffers (s : System L) : Event L → Prop
  | .world w => ∀ c, s.world.Obtainable c → w.Obtainable c
  | _ => True

/-- A dispatch with `scratch=False` that succeeds leaves its result on the
hashserver. -/
def WritesResult (s : System L) : Event L → Prop
  | .receive r c => (s.records r).dispatchedScratch = some false →
      (s.world.hashserver.find c).isSome = true
  | .receiveAgain _ c => (s.world.hashserver.find c).isSome = true
  | _ => True

/-- A materializing request waits for the record as for a dispatch. -/
def JoinedForBytes (s : System L) (r : Nat) : Prop :=
  ∃ i, (s.calls i).phase = .waits r true ∧ (s.calls i).request.materializes = true

/-- The answer of the evaluation is to have a buffer. -/
def NeedsBytes (s : System L) : Worker → Prop
  | .call i => (s.calls i).request.materializes = true
  | .record r => s.JoinedForBytes r

/-- The checksums that the next step of the evaluation may answer with
without a buffer: those that are passed on, and for the task of a record the
cached one. -/
def PassedOn (s : System L) (worker : Worker) (c : Checksum) : Prop :=
  match s.evaluation worker, worker with
  | some (key, _, .resolved steps input), _ => Passes P s.world.known key steps input c
  | some (key, _, .started), .record _ => s.world.cache key = some c
  | _, _ => False

/-- The same for an evaluation in a thread -/
def PassedOnUnshared (s : System L) (i : Nat) (c : Checksum) : Prop :=
  let key := (s.calls i).request.key
  ∃ steps, parsePath P.interpreter key.path = .ok steps ∧
    Passes P s.world.known key steps (s.world.localBuffer key.inputChecksum) c

/-- The request, or one that waits for its record, is to get a buffer. -/
def NeedsBytesUnshared (s : System L) (i : Nat) : Prop :=
  (s.calls i).request.materializes = true ∨
    ∃ r, (s.calls i).phase = .unshared (some r) ∧ s.JoinedForBytes r

/-- What is passed on to a request for bytes can be obtained. -/
def PassesObtainable (s : System L) : Event L → Prop
  | .advance worker => s.NeedsBytes worker → ∀ c, s.PassedOn P worker c → s.world.Obtainable c
  | .evaluateUnshared i =>
    s.NeedsBytesUnshared i → ∀ c, s.PassedOnUnshared P i c → s.world.Obtainable c
  | _ => True

/-! ## §3. The invariant. -/

/-- What an evaluation has found out before a stage. -/
def StageSound (w : World L) (key : ExpressionKey) : Stage → Prop
  | .started => True
  | .checked steps => parsePath P.interpreter key.path = .ok steps
  | .resolved steps input =>
    parsePath P.interpreter key.path = .ok steps ∧
      (input.isSome = true → w.Obtainable key.inputChecksum)

/-- What is true of a request. -/
structure CallSound (w : World L) (call : PlacedCall) : Prop where
  answered : ∀ c, call.phase = .ended (some c) → call.request.materializes = true →
    w.Obtainable c
  stage : ∀ stage, call.phase = .evaluating stage → StageSound P w call.request.key stage

/-- A result that a request for a dispatch can take, or will ask for again. -/
def Usable (w : World L) (a : SharedWork) : Prop :=
  ∀ c, a.result = some (some c) → w.Obtainable c ∨ a.dispatchedScratch = some true

/-- What is true of a record. -/
structure RecordSound (w : World L) (a : SharedWork) : Prop where
  dispatched : a.work = .dispatch → Usable w a
  stage : ∀ stage, a.work = .task stage → StageSound P w a.key stage

structure Sound (s : System L) : Prop where
  truthful : s.world.Truthful
  calls : ∀ i, CallSound P s.world (s.calls i)
  records : ∀ r, RecordSound P s.world (s.records r)
  /-- Requests wait for records that were made. -/
  made : ∀ i r, (s.calls i).phase = .waits r true → r < s.recordCount
  joined : ∀ r, s.JoinedForBytes r → Usable s.world (s.records r)
  owned : ∀ i r, (s.calls i).phase = .unshared (some r) →
    r < s.recordCount ∧ (s.records r).work = .owner
  filed : ∀ key r, s.registry key = some r → r < s.recordCount

variable {P} {s : System L}

/-! ## §4. Parts of steps. -/

theorem Usable.mono {w w' : World L} (hw : ∀ c, w.Obtainable c → w'.Obtainable c)
    {a : SharedWork} (h : Usable w a) : Usable w' a := by
  intro c hc
  rcases h c hc with hobt | hscratch
  · exact .inl (hw c hobt)
  · exact .inr hscratch

theorem usable_of_none {w : World L} {a : SharedWork} (h : a.result = none) : Usable w a := by
  intro c hc
  rw [h] at hc
  cases hc

theorem usable_of_error {w : World L} {a : SharedWork} (h : a.result = some none) : Usable w a := by
  intro c hc
  rw [h] at hc
  cases hc

theorem StageSound.mono {w w' : World L} (hw : ∀ c, w.Obtainable c → w'.Obtainable c)
    {key : ExpressionKey} {stage : Stage} (h : StageSound P w key stage) :
    StageSound P w' key stage := by
  cases stage with
  | started => trivial
  | checked steps => exact h
  | resolved steps input => exact ⟨h.1, fun hsome => hw _ (h.2 hsome)⟩

theorem Sound.setWorld (h : s.Sound P) {w : World L} (htruthful : w.Truthful)
    (hw : ∀ c, s.world.Obtainable c → w.Obtainable c) : (s.setWorld w).Sound P where
  truthful := htruthful
  calls i := by
    have hcall := h.calls i
    exact ⟨fun c hphase hmat => hw c (hcall.answered c hphase hmat),
      fun stage hphase => (hcall.stage stage hphase).mono hw⟩
  records r := by
    have hrecord := h.records r
    exact ⟨fun hwork => (hrecord.dispatched hwork).mono hw,
      fun stage hwork => (hrecord.stage stage hwork).mono hw⟩
  made := h.made
  joined r hjoined := (h.joined r hjoined).mono hw
  owned := h.owned
  filed := h.filed

theorem Sound.insertResult (h : s.Sound P) (key : ExpressionKey) (c : Checksum) :
    (s.setWorld (s.world.insertResult key c)).Sound P :=
  h.setWorld (h.truthful.insertResult key c) fun _ hobt =>
    World.obtainable_insertResult hobt key c

/-- A request moves; the others do not see it. -/
theorem Sound.setCall (h : s.Sound P) {i : Nat} {call : PlacedCall}
    (hcall : CallSound P s.world call)
    (hwaits : ∀ r, call.phase = .waits r true → r < s.recordCount ∧
      (call.request.materializes = true → Usable s.world (s.records r)))
    (howns : ∀ r, call.phase = .unshared (some r) →
      r < s.recordCount ∧ (s.records r).work = .owner) :
    ({ s with calls := Function.update s.calls i call } : System L).Sound P where
  truthful := h.truthful
  calls j := by
    show CallSound P s.world (Function.update s.calls i call j)
    by_cases hj : j = i
    · subst hj
      rw [Function.update_self]
      exact hcall
    · rw [Function.update_of_ne hj]
      exact h.calls j
  records := h.records
  made j r hphase := by
    have hphase : (Function.update s.calls i call j).phase = .waits r true := hphase
    by_cases hj : j = i
    · subst hj
      rw [Function.update_self] at hphase
      exact (hwaits r hphase).1
    · rw [Function.update_of_ne hj] at hphase
      exact h.made j r hphase
  joined r := by
    rintro ⟨j, hphase, hmat⟩
    have hphase : (Function.update s.calls i call j).phase = .waits r true := hphase
    have hmat : (Function.update s.calls i call j).request.materializes = true := hmat
    by_cases hj : j = i
    · subst hj
      rw [Function.update_self] at hphase hmat
      exact (hwaits r hphase).2 hmat
    · rw [Function.update_of_ne hj] at hphase hmat
      exact h.joined r ⟨j, hphase, hmat⟩
  owned j r hphase := by
    have hphase : (Function.update s.calls i call j).phase = .unshared (some r) := hphase
    by_cases hj : j = i
    · subst hj
      rw [Function.update_self] at hphase
      exact howns r hphase
    · rw [Function.update_of_ne hj] at hphase
      exact h.owned j r hphase
  filed := h.filed

/-- Without an answer and without a stage behind it, a request is sound. -/
theorem callSound_idle {w : World L} {call : PlacedCall} (hended : ∀ c, call.phase ≠ .ended (some c))
    (hstage : ∀ stage, call.phase = .evaluating stage → stage = .started) : CallSound P w call where
  answered c hp := absurd hp (hended c)
  stage stage hp := by
    rw [hstage stage hp]
    trivial

/-- A request goes on to a phase of which nothing has to be known. -/
theorem Sound.goOn (h : s.Sound P) {i : Nat} {p : Phase} (hended : ∀ c, p ≠ .ended (some c))
    (hstage : ∀ stage, p = .evaluating stage → stage = .started) (hwaits : ∀ r, p ≠ .waits r true)
    (howns : ∀ r, p ≠ .unshared (some r)) : (s.goTo i p).Sound P :=
  h.setCall (callSound_idle hended hstage) (fun r hp => absurd hp (hwaits r))
    fun r hp => absurd hp (howns r)

theorem Sound.begin (h : s.Sound P) (i : Nat) : (s.goTo i (.evaluating .started)).Sound P := by
  apply h.goOn
  · intro c hp
    cases hp
  · intro stage hp
    cases hp
    rfl
  · intro r hp
    cases hp
  · intro r hp
    cases hp

/-- A request is answered. -/
theorem Sound.answer (h : s.Sound P) {i : Nat} {c : Checksum}
    (hc : (s.calls i).request.materializes = true → s.world.Obtainable c) :
    (s.goTo i (.ended (some c))).Sound P := by
  apply h.setCall
  · refine ⟨?_, (fun _ hp => by cases hp)⟩
    intro c' hp hmat
    cases hp
    exact hc hmat
  · intro r hp
    cases hp
  · intro r hp
    cases hp

/-- A request waits for a record. -/
theorem Sound.wait (h : s.Sound P) (i : Nat) {r : Nat} {remote : Bool}
    (hr : remote = true → r < s.recordCount ∧ Usable s.world (s.records r)) :
    (s.goTo i (.waits r remote)).Sound P := by
  apply h.setCall
  · exact callSound_idle (fun c hp => by cases hp) (fun stage hp => by cases hp)
  · intro r' hp
    cases hp
    exact ⟨(hr rfl).1, fun _ => (hr rfl).2⟩
  · intro r' hp
    cases hp

/-- A record changes; whoever waits for it can use its result. -/
theorem Sound.setRecord (h : s.Sound P) {r : Nat} {a : SharedWork}
    (hsound : RecordSound P s.world a) (husable : s.JoinedForBytes r → Usable s.world a)
    (hwork : (s.records r).work = .owner → a.work = .owner) : (s.setRecord r a).Sound P where
  truthful := h.truthful
  calls := h.calls
  records r' := by
    show RecordSound P s.world (Function.update s.records r a r')
    by_cases hr : r' = r
    · subst hr
      rw [Function.update_self]
      exact hsound
    · rw [Function.update_of_ne hr]
      exact h.records r'
  made := h.made
  joined r' hjoined := by
    show Usable s.world (Function.update s.records r a r')
    by_cases hr : r' = r
    · subst hr
      rw [Function.update_self]
      exact husable hjoined
    · rw [Function.update_of_ne hr]
      exact h.joined r' hjoined
  owned i r' hphase := by
    obtain ⟨hbound, howner⟩ := h.owned i r' hphase
    refine ⟨hbound, ?_⟩
    show (Function.update s.records r a r').work = .owner
    by_cases hr : r' = r
    · subst hr
      rw [Function.update_self]
      exact hwork howner
    · rw [Function.update_of_ne hr]
      exact howner
  filed := h.filed

/-- Nobody waits for a new record. -/
theorem Sound.openRecord (h : s.Sound P) {a : SharedWork} (hsound : RecordSound P s.world a) :
    (s.openRecord a).Sound P where
  truthful := h.truthful
  calls := h.calls
  records r := by
    show RecordSound P s.world (Function.update s.records s.recordCount a r)
    by_cases hr : r = s.recordCount
    · subst hr
      rw [Function.update_self]
      exact hsound
    · rw [Function.update_of_ne hr]
      exact h.records r
  made i r hphase := Nat.lt_succ_of_lt (h.made i r hphase)
  joined r hjoined := by
    obtain ⟨i, hphase, hmat⟩ := hjoined
    -- whoever waits, waits for a record that was made before
    have hbound : r < s.recordCount := h.made i r hphase
    show Usable s.world (Function.update s.records s.recordCount a r)
    rw [Function.update_of_ne (Nat.ne_of_lt hbound)]
    exact h.joined r ⟨i, hphase, hmat⟩
  owned i r hphase := by
    obtain ⟨hbound, howner⟩ := h.owned i r hphase
    refine ⟨Nat.lt_succ_of_lt hbound, ?_⟩
    show (Function.update s.records s.recordCount a r).work = .owner
    rw [Function.update_of_ne (Nat.ne_of_lt hbound)]
    exact howner
  filed key r hfiled := by
    have hfiled : Function.update s.registry a.key (some s.recordCount) key = some r := hfiled
    show r < s.recordCount + 1
    by_cases hkey : key = a.key
    · subst hkey
      rw [Function.update_self] at hfiled
      cases hfiled
      exact Nat.lt_succ_self _
    · rw [Function.update_of_ne hkey] at hfiled
      exact Nat.lt_succ_of_lt (h.filed key r hfiled)

/-- A record can be joined as long as it has no result. -/
theorem joinable_some {key : ExpressionKey} {r : Nat} (h : s.joinable key = some r) :
    s.registry key = some r ∧ (s.records r).result = none := by
  obtain ⟨hfiled, hresult⟩ := Option.filter_eq_some_iff.mp h
  exact ⟨hfiled, Option.isNone_iff_eq_none.mp hresult⟩

/-- A new record has no answer and no stage behind it. -/
theorem recordSound_new {w : World L} {a : SharedWork} (hresult : a.result = none)
    (hwork : ∀ stage, a.work = .task stage → stage = .started) : RecordSound P w a where
  dispatched _ := usable_of_none hresult
  stage stage h := by
    rw [hwork stage h]
    trivial

/-! ## §5. Exceptions. -/

theorem Sound.fail (h : s.Sound P) (r : Nat) :
    (s.setRecord r { s.records r with result := some none }).Sound P := by
  have hrecord := h.records r
  exact h.setRecord ⟨fun _ => usable_of_error rfl, hrecord.stage⟩
    (fun _ => usable_of_error rfl) id

theorem raise_sound (h : s.Sound P) (worker : Worker) : (s.raise worker).Sound P := by
  cases worker with
  | call i =>
    have hended : (s.goTo i (.ended none)).Sound P :=
      h.goOn (fun _ hp => by cases hp) (fun _ hp => by cases hp) (fun _ hp => by cases hp)
        fun _ hp => by cases hp
    simp only [raise]
    split
    · exact h
    · -- an owner fails its record, for those who wait for it
      exact hended.fail _
    · exact hended
  | record r =>
    simp only [raise]
    split
    · exact h.fail r
    · exact h

/-! ## §6. Evaluations. -/

/-- The evaluation of a request that goes on -/
theorem evaluation_call {i : Nat} {key : ExpressionKey} {materialize : Bool} {stage : Stage}
    (h : s.evaluation (.call i) = some (key, materialize, stage)) :
    (s.calls i).phase = .evaluating stage ∧ (s.calls i).request.key = key ∧
      (s.calls i).request.materializes = materialize := by
  simp only [evaluation] at h
  split at h
  next stage' hphase =>
    cases h
    exact ⟨hphase, rfl, rfl⟩
  next => cases h

/-- The evaluation of a record that goes on -/
theorem evaluation_record {r : Nat} {key : ExpressionKey} {materialize : Bool} {stage : Stage}
    (h : s.evaluation (.record r) = some (key, materialize, stage)) :
    (s.records r).work = .task stage ∧ (s.records r).result = none ∧ (s.records r).key = key := by
  simp only [evaluation] at h
  split at h
  next stage' hwork hresult =>
    cases h
    exact ⟨hwork, hresult, rfl⟩
  next => cases h

theorem Sound.evaluation (h : s.Sound P) {worker : Worker} {key : ExpressionKey}
    {materialize : Bool} {stage : Stage}
    (he : s.evaluation worker = some (key, materialize, stage)) :
    StageSound P s.world key stage := by
  cases worker with
  | call i =>
    obtain ⟨hphase, hkey, -⟩ := evaluation_call he
    rw [← hkey]
    exact (h.calls i).stage stage hphase
  | record r =>
    obtain ⟨hwork, -, hkey⟩ := evaluation_record he
    rw [← hkey]
    exact (h.records r).stage stage hwork

theorem goStage_sound (h : s.Sound P) {worker : Worker} {key : ExpressionKey} {materialize : Bool}
    {stage stage' : Stage} (he : s.evaluation worker = some (key, materialize, stage))
    (hstage : StageSound P s.world key stage') : (s.goStage stage' worker).Sound P := by
  cases worker with
  | call i =>
    obtain ⟨-, hkey, -⟩ := evaluation_call he
    apply h.setCall
    · refine ⟨(fun _ hp => by cases hp), ?_⟩
      intro stage'' hp
      cases hp
      rw [← hkey] at hstage
      exact hstage
    · intro r hp
      cases hp
    · intro r hp
      cases hp
  | record r =>
    obtain ⟨hwork, hresult, hkey⟩ := evaluation_record he
    apply h.setRecord
    · refine ⟨(fun hwork => by cases hwork), ?_⟩
      intro stage'' hwork
      cases hwork
      rw [← hkey] at hstage
      exact hstage
    · exact fun _ => usable_of_none hresult
    · intro howner
      rw [hwork] at howner
      cases howner

/-- A request returns what a local evaluation gave. -/
theorem returnLocal_sound (h : s.Sound P) {i : Nat} {c : Checksum}
    (hc : (s.calls i).request.materializes = true → s.world.Obtainable c) :
    (s.returnLocal i c).Sound P := by
  unfold returnLocal
  dsimp only
  split
  · exact (h.insertResult _ c).answer fun hmat => World.obtainable_insertResult (hc hmat) _ c
  · exact h.answer hc

theorem finish_sound (h : s.Sound P) {worker : Worker} {key : ExpressionKey} {materialize : Bool}
    {stage : Stage} (he : s.evaluation worker = some (key, materialize, stage)) {c : Checksum}
    (hc : s.NeedsBytes worker → s.world.Obtainable c) : (s.finish c worker).Sound P := by
  cases worker with
  | call i => exact returnLocal_sound h hc
  | record r =>
    obtain ⟨hwork, -, -⟩ := evaluation_record he
    apply h.setRecord
    · refine ⟨?_, (h.records r).stage⟩
      intro hdispatch
      rw [show (s.records r).work = .dispatch from hdispatch] at hwork
      cases hwork
    · intro hjoined c' hc'
      cases hc'
      exact .inl (hc hjoined)
    · exact id

/-- What an evaluation answers with is a buffer it holds, its input, or passed on. -/
theorem obtainable_of_evaluate {w : World L} {key : ExpressionKey} {steps : List PathStep}
    {input : Option Bytes} {r : Converted} (hparse : parsePath P.interpreter key.path = .ok steps)
    (h : evaluateAfterValidation P w.known key steps input w.resolution = some r)
    (hinput : input.isSome = true → w.Obtainable key.inputChecksum)
    (hpasses : Passes P w.known key steps input r.1 → w.Obtainable r.1) :
    (w.recordAnswer key r).Obtainable r.1 := by
  rcases evaluate_passes hparse h with ⟨b, hb⟩ | ⟨-, hpass | ⟨heq, hsome⟩⟩
  · subst hb
    exact World.obtainable_made key b
  · exact World.obtainable_recordAnswer (hpasses hpass) key r
  · rw [heq]
    exact World.obtainable_recordAnswer (hinput hsome) key r

theorem advance_sound (h : s.Sound P) {worker : Worker}
    (hpasses : s.PassesObtainable P (.advance worker)) : (s.advance P worker).Sound P := by
  unfold advance
  cases he : s.evaluation worker with
  | none => exact h
  | some evaluation =>
    obtain ⟨key, materialize, stage⟩ := evaluation
    have hstage := h.evaluation he
    cases stage with
    | started =>
      dsimp only
      cases hcached : cachedAnswer s.world key materialize with
      | some c =>
        obtain ⟨hcache, hlocal⟩ := Option.filter_eq_some_iff.mp hcached
        apply finish_sound h he
        intro hneeds
        cases worker with
        | call i =>
          -- a request for bytes takes the cached checksum only with its buffer
          obtain ⟨-, -, hmat⟩ := evaluation_call he
          rw [← hmat, show (s.calls i).request.materializes = true from hneeds] at hlocal
          exact World.obtainable_of_local h.truthful hlocal
        | record r =>
          apply hpasses hneeds
          unfold PassedOn
          rw [he]
          exact hcache
      | none =>
        cases hparse : parsePath P.interpreter key.path with
        | error e => exact raise_sound h worker
        | ok steps => exact goStage_sound h he hparse
    | checked steps =>
      dsimp only
      split
      · cases hinput : s.world.resolution key.inputChecksum with
        | none => exact raise_sound h worker
        | some b =>
          exact goStage_sound h he ⟨hstage, fun _ => World.obtainable_of_resolution hinput⟩
      · exact goStage_sound h he ⟨hstage, (fun hsome => by cases hsome)⟩
    | resolved steps input =>
      dsimp only
      cases hr : evaluateAfterValidation P s.world.known key steps input s.world.resolution with
      | none => exact raise_sound h worker
      | some r =>
        have hworld := h.setWorld (h.truthful.recordAnswer key r)
          fun _ hobt => World.obtainable_recordAnswer hobt key r
        have he' : (s.setWorld (s.world.recordAnswer key r)).evaluation worker =
            some (key, materialize, .resolved steps input) := by
          rw [← he]
          cases worker <;> rfl
        apply finish_sound hworld he'
        intro hneeds
        apply obtainable_of_evaluate hstage.1 hr hstage.2
        intro hpass
        have hneeds : s.NeedsBytes worker := by
          cases worker <;> exact hneeds
        apply hpasses hneeds
        unfold PassedOn
        rw [he]
        exact hpass

theorem evaluateUnshared_sound (h : s.Sound P) {i : Nat}
    (hpasses : s.PassesObtainable P (.evaluateUnshared i)) : (s.evaluateUnshared P i).Sound P := by
  unfold evaluateUnshared
  dsimp only
  cases hphase : (s.calls i).phase with
  | unshared record =>
    cases hparse : parsePath P.interpreter (s.calls i).request.key.path with
    | error e => exact raise_sound h (.call i)
    | ok steps =>
      dsimp only
      cases hr : evaluateAfterValidation P s.world.known (s.calls i).request.key steps
          (s.world.localBuffer (s.calls i).request.key.inputChecksum) s.world.resolution with
      | none => exact raise_sound h (.call i)
      | some r =>
        have hobtainable : s.NeedsBytesUnshared i →
            (s.world.recordAnswer (s.calls i).request.key r).Obtainable r.1 := by
          intro hneeds
          apply obtainable_of_evaluate hparse hr World.obtainable_of_localBuffer
          exact fun hpass => hpasses hneeds r.1 ⟨steps, hparse, hpass⟩
        have hworld := h.setWorld (h.truthful.recordAnswer (s.calls i).request.key r)
          fun _ hobt => World.obtainable_recordAnswer hobt (s.calls i).request.key r
        have hanswer := hworld.answer (i := i) (c := r.1) fun hmat => hobtainable (.inl hmat)
        cases record with
        | none => exact hanswer
        | some n =>
          -- whoever joined the record gets the same answer
          apply hanswer.setRecord
          · refine ⟨?_, (hworld.records n).stage⟩
            intro hdispatch
            have howner := (h.owned i n hphase).2
            rw [show (s.records n).work = .dispatch from hdispatch] at howner
            cases howner
          · intro hjoined c hc
            cases hc
            left
            apply hobtainable
            right
            refine ⟨n, hphase, ?_⟩
            obtain ⟨j, hwaits, hmat⟩ := hjoined
            have hj : j ≠ i := by
              intro heq
              subst heq
              have hself : ((Function.update s.calls j
                { s.calls j with phase := .ended (some r.1) }) j).phase = .waits n true := hwaits
              rw [Function.update_self] at hself
              cases hself
            have hother : ∀ call, Function.update s.calls i call j = s.calls j :=
              fun call => Function.update_of_ne hj call s.calls
            refine ⟨j, ?_, ?_⟩
            · rw [← hother { s.calls i with phase := .ended (some r.1) }]
              exact hwaits
            · rw [← hother { s.calls i with phase := .ended (some r.1) }]
              exact hmat
          · exact id
  | _ => exact h

/-! ## §7. Entries. -/

/-- A request that opens a record for its own evaluation owns it. -/
theorem Sound.own (h : s.Sound P) (i : Nat) (key : ExpressionKey) (materialize : Bool) :
    ((s.openRecord ⟨key, .owner, materialize, true, none, none⟩).goTo i
      (.unshared (some s.recordCount))).Sound P := by
  have hopened := h.openRecord (a := ⟨key, .owner, materialize, true, none, none⟩)
    (recordSound_new rfl fun stage hwork => by cases hwork)
  apply hopened.setCall
  · exact callSound_idle (fun c hp => by cases hp) (fun stage hp => by cases hp)
  · intro r hp
    cases hp
  · intro r hp
    cases hp
    refine ⟨Nat.lt_succ_self _, ?_⟩
    show (Function.update s.records s.recordCount _ s.recordCount).work = .owner
    rw [Function.update_self]

theorem Sound.unshare (h : s.Sound P) (i : Nat) : (s.goTo i (.unshared none)).Sound P :=
  h.goOn (fun _ hp => by cases hp) (fun _ hp => by cases hp) (fun _ hp => by cases hp)
    fun _ hp => by cases hp

/-- A request waits as for an evaluation in this process. -/
theorem Sound.waitLocal (h : s.Sound P) (i r : Nat) : (s.goTo i (.waits r false)).Sound P :=
  h.wait i fun hremote => by cases hremote

/-- A cached answer of a request for bytes has its buffer here. -/
theorem obtainable_of_cachedAnswer {w : World L} (hw : w.Truthful) {key : ExpressionKey}
    {materialize : Bool} {c : Checksum} (h : cachedAnswer w key materialize = some c)
    (hmat : materialize = true) : w.Obtainable c := by
  obtain ⟨-, hlocal⟩ := Option.filter_eq_some_iff.mp h
  rw [hmat] at hlocal
  exact World.obtainable_of_local hw hlocal

theorem enterSync_sound (h : s.Sound P) (i : Nat) (sameLoop : Bool) :
    (s.enterSync P i sameLoop).Sound P := by
  unfold enterSync
  dsimp only
  split
  · exact raise_sound h (.call i)
  · split
    next c hcached => exact h.answer fun hmat => obtainable_of_cachedAnswer h.truthful hcached hmat
    next =>
      split
      · exact h.unshare i
      · split
        · exact h.own i _ _
        · split
          · exact h.waitLocal i _
          · exact h.unshare i
          · exact h.waitLocal i _

theorem enterAsync_sound (h : s.Sound P) (i : Nat) : (s.enterAsync P i).Sound P := by
  unfold enterAsync
  dsimp only
  split
  · exact raise_sound h (.call i)
  · split
    · exact h.begin i
    · split
      next =>
        have hopened := h.openRecord
          (a := ⟨(s.calls i).request.key, .task .started, (s.calls i).request.materializes, true,
            none, none⟩)
          (recordSound_new rfl fun stage hwork => by cases hwork; rfl)
        exact hopened.waitLocal i _
      next => exact h.waitLocal i _

/-- The lookups go on where there is no answer. -/
theorem Sound.miss (h : s.Sound P) (i : Nat) {p : Phase}
    (hp : (∃ known, p = .missed known) ∨ (∃ known, p = .placing known)) : (s.goTo i p).Sound P := by
  rcases hp with ⟨known, rfl⟩ | ⟨known, rfl⟩
  · exact h.goOn (fun _ hp => by cases hp) (fun _ hp => by cases hp) (fun _ hp => by cases hp)
      fun _ hp => by cases hp
  · exact h.goOn (fun _ hp => by cases hp) (fun _ hp => by cases hp) (fun _ hp => by cases hp)
      fun _ hp => by cases hp

/-- What the lookups answer a request for bytes with is reachable. -/
theorem obtainable_of_lookup {w : World L} (hw : w.Truthful) {q : Request} {o : World.Seen}
    {c : Checksum} (h : (!q.materializes || w.resultReachable o c) = true)
    (hmat : q.materializes = true) : w.Obtainable c := by
  rw [hmat] at h
  exact World.obtainable_of_reachable hw h

theorem lookUp_sound (h : s.Sound P) (i : Nat) (o : World.Seen) : (s.lookUp i o).Sound P := by
  unfold lookUp
  dsimp only
  split
  · exact h.miss i (.inl ⟨none, rfl⟩)
  next c hc =>
    split
    next hanswer => exact h.answer fun hmat => obtainable_of_lookup h.truthful hanswer hmat
    next => exact h.miss i (.inl ⟨some c, rfl⟩)

theorem askDatabase_sound (h : s.Sound P) (i : Nat) (known : Option Checksum) (available : Bool)
    (o : World.Seen) : (s.askDatabase i known available o).Sound P := by
  unfold askDatabase
  dsimp only
  split
  · exact h.miss i (.inr ⟨known, rfl⟩)
  · split
    · exact h.miss i (.inr ⟨none, rfl⟩)
    next c hc =>
      have hworld := h.insertResult (s.calls i).request.key c
      split
      next hanswer =>
        apply hworld.answer
        intro hmat
        exact World.obtainable_insertResult (obtainable_of_lookup h.truthful hanswer hmat) _ c
      next => exact hworld.miss i (.inr ⟨some c, rfl⟩)

theorem place_sound (h : s.Sound P) (i : Nat) (result : Option Checksum) (p : Placement) :
    (s.place i result p).Sound P := by
  unfold place
  dsimp only
  split
  · apply h.setCall
    · exact callSound_idle (fun c hp => by cases hp) (fun stage hp => by cases hp)
    · intro r hp
      cases hp
    · intro r hp
      cases hp
  · split
    · split
      · exact raise_sound h (.call i)
      · exact h.goOn (fun _ hp => by cases hp) (fun _ hp => by cases hp) (fun _ hp => by cases hp)
          fun _ hp => by cases hp
    · exact h.goOn (fun _ hp => by cases hp) (fun _ hp => by cases hp) (fun _ hp => by cases hp)
        fun _ hp => by cases hp
    · exact raise_sound h (.call i)

/-! ## §8. Dispatches. -/

/-- A request joins the record of its key, or opens one. -/
theorem joinRemote_sound (h : s.Sound P) (i : Nat) : (s.joinRemote i).Sound P := by
  have hjoin : ∀ t : System L, t.Sound P → ∀ r, r < t.recordCount → (t.records r).result = none →
      ∀ scratch, ((t.setRecord r { t.records r with scratch := scratch }).goTo i
        (.waits r true)).Sound P := by
    intro t ht r hbound hresult scratch
    have hset := ht.setRecord (r := r) (a := { t.records r with scratch := scratch })
      ⟨fun hwork => usable_of_none hresult, (ht.records r).stage⟩
      (fun _ => usable_of_none hresult) id
    apply hset.wait i
    intro _
    refine ⟨hbound, ?_⟩
    show Usable t.world (Function.update t.records r _ r)
    rw [Function.update_self]
    exact usable_of_none hresult
  unfold joinRemote
  dsimp only
  cases hjoinable : s.joinable (s.calls i).request.key with
  | none =>
    have hopened := h.openRecord
      (a := ⟨(s.calls i).request.key, .dispatch, (s.calls i).request.materializes, true, none, none⟩)
      (recordSound_new rfl fun stage hwork => by cases hwork)
    apply hjoin _ hopened s.recordCount (Nat.lt_succ_self _)
    show (Function.update s.records s.recordCount _ s.recordCount).result = none
    rw [Function.update_self]
  | some r =>
    obtain ⟨hfiled, hresult⟩ := joinable_some hjoinable
    exact hjoin s h r (h.filed _ r hfiled) hresult _

theorem sendRequest_sound (h : s.Sound P) (r : Nat) : (s.sendRequest r).Sound P := by
  unfold sendRequest
  dsimp only
  split
  next hwork hresult hsent =>
    exact h.setRecord ⟨fun _ => usable_of_none hresult, (h.records r).stage⟩
      (fun _ => usable_of_none hresult) id
  next => exact h

theorem receive_sound (h : s.Sound P) {r : Nat} {c : Checksum}
    (hwritten : s.WritesResult (.receive r c)) : (s.receive r c).Sound P := by
  unfold receive
  dsimp only
  split
  next scratch hwork hresult hsent =>
    have hworld := h.insertResult (s.records r).key c
    have husable : Usable (s.world.insertResult (s.records r).key c)
        { s.records r with result := some (some c) } := by
      intro c' hc'
      cases hc'
      cases scratch with
      | true => exact .inr hsent
      | false =>
        -- a request that was sent with `scratch=False`
        have hobtainable : s.world.Obtainable c := .inr (.inr (hwritten hsent))
        exact .inl (World.obtainable_insertResult hobtainable _ c)
    exact hworld.setRecord ⟨fun _ => husable, (hworld.records r).stage⟩ (fun _ => husable) id
  next => exact h

theorem resume_sound (h : s.Sound P) {i r : Nat} {remote : Bool}
    (hphase : (s.calls i).phase = .waits r remote) (o : World.Seen) :
    (s.resume i r remote o).Sound P := by
  unfold resume
  dsimp only
  cases hresult : (s.records r).result with
  | none => exact h
  | some answer =>
    cases answer with
    | none => exact raise_sound h (.call i)
    | some c =>
      cases remote with
      | true =>
        dsimp only
        rw [if_pos rfl]
        split
        next =>
          exact h.goOn (fun _ hp => by cases hp) (fun _ hp => by cases hp)
            (fun _ hp => by cases hp) fun _ hp => by cases hp
        next hchecked =>
          apply h.answer
          intro hmat
          rcases h.joined r ⟨i, hphase, hmat⟩ c hresult with hobt | hscratch
          · exact hobt
          · -- the answer of a scratch dispatch was checked
            rw [hmat, hscratch] at hchecked
            cases hreach : s.world.resultReachable o c with
            | true => exact World.obtainable_of_reachable h.truthful hreach
            | false =>
              rw [hreach] at hchecked
              exact absurd rfl hchecked
      | false =>
        dsimp only
        rw [if_neg Bool.false_ne_true]
        split
        · split
          · exact h.unshare i
          · exact h.begin i
        next hchecked =>
          apply returnLocal_sound h
          intro hmat
          rw [hmat] at hchecked
          cases hlocal : s.world.hasLocalBuffer c with
          | true => exact World.obtainable_of_local h.truthful hlocal
          | false =>
            rw [hlocal] at hchecked
            exact absurd rfl hchecked

theorem receiveAgain_sound (h : s.Sound P) {i : Nat} {c : Checksum}
    (hwritten : s.WritesResult (.receiveAgain i c)) : (s.receiveAgain i c).Sound P := by
  apply (h.insertResult _ c).answer
  intro _
  exact World.obtainable_insertResult (.inr (.inr hwritten)) _ c

/-! ## §9. Runs. -/

/-- The conditions on a step -/
structure Allowed (P : PathLibrary L) (s : System L) (e : Event L) : Prop where
  truthful : KeepsTruthful e
  keeps : s.KeepsBuffers e
  writes : s.WritesResult e
  passes : s.PassesObtainable P e

theorem step_sound (h : s.Sound P) {e : Event L} (hok : Allowed P s e) :
    (step P s e).1.Sound P := by
  cases e with
  | world w => exact h.setWorld hok.truthful hok.keeps
  | request q =>
    -- a new request has no answer, and waits for nothing
    have hidle : CallSound P s.world ⟨q, Request.firstPhase q⟩ := by
      cases hentry : q.entry <;>
        exact callSound_idle (fun c hp => by simp [Request.firstPhase, hentry] at hp)
          (fun stage hp => by simp [Request.firstPhase, hentry] at hp)
    have hcalled := h.setCall (i := s.callCount) hidle
      (fun r hp => by cases hentry : q.entry <;> simp [Request.firstPhase, hentry] at hp)
      (fun r hp => by cases hentry : q.entry <;> simp [Request.firstPhase, hentry] at hp)
    exact ⟨hcalled.truthful, hcalled.calls, hcalled.records, hcalled.made, hcalled.joined, hcalled.owned,
      hcalled.filed⟩
  | forget key =>
    refine ⟨h.truthful, h.calls, h.records, h.made, h.joined, h.owned, ?_⟩
    intro key' r hfiled
    have hfiled : Function.update s.registry key none key' = some r := hfiled
    by_cases hkey : key' = key
    · subst hkey
      rw [Function.update_self] at hfiled
      cases hfiled
    · rw [Function.update_of_ne hkey] at hfiled
      exact h.filed key' r hfiled
  | lookUp i o =>
    simp only [step]
    split
    · exact lookUp_sound h i o
    · exact h
  | askDatabase i available o =>
    simp only [step]
    split
    · exact askDatabase_sound h i _ available o
    · exact h
  | place i p =>
    simp only [step]
    split
    · exact place_sound h i _ p
    · exact h
  | enter i sameLoop =>
    simp only [step]
    split
    · exact enterAsync_sound h i
    · exact enterSync_sound h i sameLoop
    · exact joinRemote_sound h i
    · exact h
  | advance worker => exact advance_sound h hok.passes
  | evaluateUnshared i => exact evaluateUnshared_sound h hok.passes
  | send r => exact sendRequest_sound h r
  | receive r c => exact receive_sound h hok.writes
  | resume i o =>
    simp only [step]
    split
    next r remote hphase => exact resume_sound h hphase o
    next => exact h
  | receiveAgain i c =>
    simp only [step]
    split
    · exact receiveAgain_sound h hok.writes
    · exact h
  | raise worker => exact raise_sound h worker

theorem initial_sound (P : PathLibrary L) {w : World L} (hw : w.Truthful) :
    (initial w).Sound P where
  truthful := hw
  calls i := callSound_idle (fun c hp => by cases hp) (fun stage hp => by cases hp)
  records r := recordSound_new rfl fun stage hwork => by cases hwork
  made i r hp := by cases hp
  joined r := by
    rintro ⟨i, hp, -⟩
    cases hp
  owned i r hp := by cases hp
  filed key r hp := by cases hp

/-- A request for bytes that was answered can obtain its buffer. -/
def Honest (s : System L) : Prop :=
  ∀ i c, (s.calls i).phase = .ended (some c) → (s.calls i).request.materializes = true →
    s.world.Obtainable c

/-- Where the sources and the hashserver say the truth, in every run whose
steps lose no buffer, write what they are asked to write, and pass on only what
can be obtained, every answered request for bytes can obtain them. -/
theorem materialized_obtainable (P : PathLibrary L) (w : World L) (events : List (Event L))
    (hw : w.Truthful)
    (htruthful : Run.StepsMeet (step P) (fun _ _ e => KeepsTruthful e) (initial w) events)
    (hkeeps : Run.StepsMeet (step P) (fun _ s e => s.KeepsBuffers e) (initial w) events)
    (hwrites : Run.StepsMeet (step P) (fun _ s e => s.WritesResult e) (initial w) events)
    (hpasses : Run.StepsMeet (step P) (fun _ s e => s.PassesObtainable P e) (initial w) events) :
    (Run.exec (step P) (initial w) events).Honest := by
  have hmeet : Run.StepsMeet (step P) (fun _ s e => Allowed P s e) (initial w) events := by
    intro before e after heq
    exact ⟨htruthful before e after heq, hkeeps before e after heq, hwrites before e after heq,
      hpasses before e after heq⟩
  have hsound : (Run.exec (step P) (initial w) events).Sound P :=
    Run.exec_traced_invariant (step P) _ (fun _ s => s.Sound P)
      (initial_sound P hw)
      (fun _ s e hs hok => step_sound hs hok) events hmeet
  exact fun i c hphase hmat => (hsound.calls i).answered c hphase hmat

/-! ## §10. Two runs. -/

/-- Steps of a list that all meet a condition in any state -/
theorem stepsMeet_of_forall {ok : System L → Event L → Prop} {s : System L}
    {events : List (Event L)} (h : ∀ e ∈ events, ∀ s, ok s e) :
    Run.StepsMeet (step P) (fun _ s e => ok s e) s events := by
  intro before e after heq
  apply h
  rw [heq]
  exact List.mem_append_right before List.mem_cons_self

/-- Paths over the small libraries -/
def smallPaths : PathLibrary small where
  interpreter := asciiInterpreter
  subscript _ _ := none
  field _ _ := none
  bytesArray := small.npBytes

/-- No buffer is anywhere, and nothing was recorded. -/
def bareWorld : World small where
  memory := .empty
  sources := .empty
  hashserver := .empty
  hasSource _ := false
  hasLength _ := false
  cache _ := none
  rows _ := none
  known _ := none

/-- `Expression(c, "", "plain", "plain")` -/
def plainIdentity (c : Checksum) : ExpressionKey :=
  .make small c [] (ordinary .plain) (ordinary .plain)

/-- A checksum of no known buffer -/
def strayChecksum : Checksum := .repeated 7

/-- `evaluate_expression_placed(c, "", "plain", "plain", scratch=False)` -/
def identityRequest (c : Checksum) : Request :=
  ⟨.placed, plainIdentity c, .auto, false, none, false⟩

/-- The request, run to its end without a server -/
def identityRun (c : Checksum) : List (Event small) :=
  [.request (identityRequest c), .lookUp 0 ⟨false, false⟩, .askDatabase 0 false ⟨false, false⟩,
    .place 0 ⟨false, c, false, false, false, false⟩, .enter 0 false, .advance (.call 0),
    .advance (.call 0), .advance (.call 0)]

/-- The request was answered with the checksum. -/
def answeredWith (s : System L) (i : Nat) (c : Checksum) : Bool :=
  match (s.calls i).phase with
  | .ended (some c') => c' = c
  | _ => false

theorem phase_of_answeredWith {s : System L} {i : Nat} {c : Checksum}
    (h : s.answeredWith i c = true) : (s.calls i).phase = .ended (some c) := by
  unfold answeredWith at h
  split at h
  next c' hphase =>
    rw [hphase, of_decide_eq_true h]
  next => cases h

theorem bareWorld_truthful : bareWorld.Truthful where
  ofSource _ h := by cases h
  ofLength _ h := by cases h

theorem identityRun_answers :
    (Run.exec (step smallPaths) (initial bareWorld) (identityRun strayChecksum)).answeredWith 0
      strayChecksum = true := by
  decide +kernel

/-- Nothing is lost and nothing is dispatched, and a request for bytes is
answered with the checksum of a buffer that is nowhere. -/
theorem identity_unobtainable :
    bareWorld.Truthful ∧
      Run.StepsMeet (step smallPaths) (fun _ _ e => KeepsTruthful e) (initial bareWorld)
        (identityRun strayChecksum) ∧
      Run.StepsMeet (step smallPaths) (fun _ s e => s.KeepsBuffers e) (initial bareWorld)
        (identityRun strayChecksum) ∧
      Run.StepsMeet (step smallPaths) (fun _ s e => s.WritesResult e) (initial bareWorld)
        (identityRun strayChecksum) ∧
      ¬ (Run.exec (step smallPaths) (initial bareWorld) (identityRun strayChecksum)).Honest := by
  refine ⟨bareWorld_truthful, stepsMeet_of_forall ?_, stepsMeet_of_forall ?_,
    stepsMeet_of_forall ?_, ?_⟩
  · simp [identityRun, KeepsTruthful]
  · simp [identityRun, KeepsBuffers]
  · simp [identityRun, WritesResult]
  · intro hhonest
    have hreach := hhonest 0 strayChecksum (phase_of_answeredWith identityRun_answers) rfl
    rw [World.obtainable_iff] at hreach
    have hnone : ((Run.exec (step smallPaths) (initial bareWorld)
        (identityRun strayChecksum)).world.resolution strayChecksum).isSome = false := by
      decide +kernel
    rw [hnone] at hreach
    cases hreach

/-- A server has put the buffer `7` on the hashserver. -/
def writtenWorld : World small where
  __ := bareWorld
  hashserver := Buffers.empty.put (ascii "7\n")
  hasLength c := c = small.sha256 (ascii "7\n")

/-- `evaluate_expression_placed(c, "", "plain", "text", execution="remote", scratch=False)` -/
def remoteRequest (c : Checksum) : Request :=
  ⟨.placed, .make small c [] (ordinary .plain) (ordinary .text), .remote, false, none, false⟩

/-- A server is asked for the first request, and its result is evaluated by an
identity in this process. -/
def servedRun : List (Event small) :=
  let c := small.sha256 (ascii "7\n")
  [.request (remoteRequest strayChecksum), .lookUp 0 ⟨false, false⟩,
    .askDatabase 0 false ⟨false, false⟩, .place 0 ⟨false, c, false, false, true, true⟩,
    .enter 0 false, .send 0, .world writtenWorld, .receive 0 c, .resume 0 ⟨false, false⟩,
    .request (identityRequest c), .lookUp 1 ⟨false, false⟩, .askDatabase 1 false ⟨false, false⟩,
    .place 1 ⟨false, c, false, false, true, true⟩, .enter 1 false, .advance (.call 1),
    .advance (.call 1), .advance (.call 1)]

theorem writtenWorld_truthful : writtenWorld.Truthful where
  ofSource _ h := by cases h
  ofLength c h := by
    rw [show c = small.sha256 (ascii "7\n") from of_decide_eq_true h]
    show ((Buffers.empty.put (ascii "7\n")).find (small.sha256 (ascii "7\n"))).isSome = true
    rw [Buffers.find_put_self]
    rfl

/-- Nothing is anywhere in the bare world. -/
theorem not_obtainable_bareWorld (c : Checksum) : ¬ bareWorld.Obtainable c := by
  rintro (h | h | h) <;> cases h

/-- The identity of a plain value passes on its input and nothing else. -/
theorem passes_pathless {P : PathLibrary L} {known : Knowledge} {key : ExpressionKey}
    {input : Option Bytes} {c : Checksum} (h : Passes P known key [] input c)
    (hne : key.inputCelltype ≠ ordinary .checksum) : c = key.inputChecksum := by
  cases h with
  | identity _ _ => rfl
  | kept _ _ => rfl
  | dereferenced b c _ _ hchecksum _ => exact absurd hchecksum hne
  | member b value step c _ _ hstep _ _ => cases hstep

/-- A request for the identity of a plain value, at any stage -/
theorem allowed_identity {P : PathLibrary L} {s : System L} {i : Nat}
    {key : ExpressionKey} {materialize : Bool} (stage : Stage)
    (he : s.evaluation (.call i) = some (key, materialize, stage))
    (hsteps : ∀ steps input, stage = .resolved steps input → steps = [])
    (hne : key.inputCelltype ≠ ordinary .checksum) (hobt : s.world.Obtainable key.inputChecksum) :
    Allowed P s (.advance (.call i)) := by
  refine ⟨trivial, trivial, trivial, ?_⟩
  intro _ c hpassed
  unfold PassedOn at hpassed
  rw [he] at hpassed
  cases stage with
  | started => cases hpassed
  | checked steps => cases hpassed
  | resolved steps input =>
    rw [hsteps steps input rfl] at hpassed
    rw [passes_pathless hpassed hne]
    exact hobt

/-- The steps that have no condition -/
def Unconditional : Event L → Prop
  | .world _ | .receive _ _ | .receiveAgain _ _ | .advance _ | .evaluateUnshared _ => False
  | _ => True

theorem allowed_of_unconditional {P : PathLibrary L} (s : System L) {e : Event L}
    (h : Unconditional e) : Allowed P s e := by
  cases e <;> first | exact ⟨trivial, trivial, trivial, trivial⟩ | cases h

theorem writtenWorld_holds :
    (writtenWorld.hashserver.find (small.sha256 (ascii "7\n"))).isSome = true := by
  show ((Buffers.empty.put (ascii "7\n")).find (small.sha256 (ascii "7\n"))).isSome = true
  rw [Buffers.find_put_self]
  rfl

/-- The server writes its result before it answers, and then the identity
passes on a checksum that can be obtained. -/
theorem servedRun_meets :
    Run.StepsMeet (step smallPaths) (fun _ s e => Allowed smallPaths s e) (initial bareWorld)
      servedRun := by
  unfold servedRun
  iterate 6 refine Run.StepsMeet.cons _ (allowed_of_unconditional _ trivial) ?_
  apply Run.StepsMeet.cons
  · refine ⟨writtenWorld_truthful, ?_, trivial, trivial⟩
    intro c hc
    exact absurd hc (not_obtainable_bareWorld c)
  apply Run.StepsMeet.cons
  · exact ⟨trivial, trivial, fun _ => writtenWorld_holds, trivial⟩
  iterate 6 refine Run.StepsMeet.cons _ (allowed_of_unconditional _ trivial) ?_
  have hplain : (ordinary .plain) ≠ ordinary .checksum := by
    intro h
    cases h
  have hobt : writtenWorld.Obtainable (small.sha256 (ascii "7\n")) := .inr (.inr writtenWorld_holds)
  refine Run.StepsMeet.cons _ (allowed_identity .started rfl ?_ hplain hobt) ?_
  · intro steps input h
    cases h
  refine Run.StepsMeet.cons _ (allowed_identity (.checked []) rfl ?_ hplain hobt) ?_
  · intro steps input h
    cases h
  refine Run.StepsMeet.cons _ (allowed_identity (.resolved [] none) rfl ?_ hplain hobt) ?_
  · intro steps input h
    cases h
    rfl
  exact Run.StepsMeet.nil _ _ _

/-- The state after the run -/
def served : System small := Run.exec (step smallPaths) (initial bareWorld) servedRun

/-- The server's result and its identity are answered, and their buffer can be
obtained. -/
theorem materialized_served :
    served.answeredWith 0 (small.sha256 (ascii "7\n")) = true ∧
      served.answeredWith 1 (small.sha256 (ascii "7\n")) = true ∧ served.Honest := by
  refine ⟨by decide +kernel, by decide +kernel, ?_⟩
  apply materialized_obtainable smallPaths bareWorld servedRun bareWorld_truthful
  · exact fun before e after heq => (servedRun_meets before e after heq).truthful
  · exact fun before e after heq => (servedRun_meets before e after heq).keeps
  · exact fun before e after heq => (servedRun_meets before e after heq).writes
  · exact fun before e after heq => (servedRun_meets before e after heq).passes

end System

end SeamlessCore.Expression
