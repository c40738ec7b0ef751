/-
  SeamlessCore.Cache.Retention — how long a tempref retains its buffer.

  The interest of a tempref fades exponentially from its last refresh.  A
  second call of `tempref` on the same checksum refreshes it and may replace
  its three parameters: it does so when the new interest is higher, or the
  new fade steeper.  The clock and the interests are read over exact reals.

  Main results:
    * `decay_le_iff` — when one exponential decay stays below another;
    * `tempref_promise`, `refreshTempref_promise` — what the two ways to
      refresh leave of the claims on an entry;
    * `retention_monotone` — a second tempref never shortens the retention
      of the first exactly if it leaves the parameters alone, or replaces
      them by at least the interest and at most the fade rate.

  Source: `seamless/caching/buffer_cache.py`.
-/
import SeamlessCore.Cache.Owners

namespace SeamlessCore.BufferCache

/-! ## §1. Exponential decay. -/

/-- One decay stays below another for ever exactly if it starts below and
fades at least as fast, or if it is zero. -/
theorem decay_le_iff {a b p q : ℝ} (ha : 0 ≤ a) :
    (∀ x, 0 ≤ x → a * Real.exp (-(p * x)) ≤ b * Real.exp (-(q * x))) ↔
      a ≤ b ∧ (a = 0 ∨ q ≤ p) := by
  constructor
  · intro h
    have hstart : a ≤ b := by simpa using h 0 le_rfl
    refine ⟨hstart, ?_⟩
    by_contra hno
    obtain ⟨hzero, hrate⟩ := not_or.mp hno
    have hpos : 0 < a := lt_of_le_of_ne ha (Ne.symm hzero)
    have hgap : 0 < q - p := by linarith
    -- the decays cross before `b / (a * (q - p))`
    set x := b / (a * (q - p)) with hx
    have hx0 : 0 ≤ x := div_nonneg (by linarith) (mul_pos hpos hgap).le
    have hcross : a * Real.exp ((q - p) * x) ≤ b := by
      have hle := mul_le_mul_of_nonneg_right (h x hx0) (Real.exp_pos (q * x)).le
      rw [mul_assoc, mul_assoc, ← Real.exp_add, ← Real.exp_add] at hle
      have hleft : -(p * x) + q * x = (q - p) * x := by ring
      have hright : -(q * x) + q * x = 0 := by ring
      rw [hleft, hright, Real.exp_zero, mul_one] at hle
      exact hle
    have hlinear : a * ((q - p) * x + 1) ≤ a * Real.exp ((q - p) * x) :=
      mul_le_mul_of_nonneg_left (Real.add_one_le_exp _) hpos.le
    have hmeet : a * ((q - p) * x) = b := by
      rw [hx]
      field_simp
    linarith [mul_add a ((q - p) * x) 1]
  · rintro ⟨hstart, hrest⟩ x hx
    rcases hrest with hzero | hrate
    · rw [hzero, zero_mul]
      have hb : 0 ≤ b := by linarith
      positivity
    · have hexp : Real.exp (-(p * x)) ≤ Real.exp (-(q * x)) := by
        apply Real.exp_le_exp.mpr
        linarith [mul_le_mul_of_nonneg_right hrate hx]
      calc a * Real.exp (-(p * x)) ≤ b * Real.exp (-(p * x)) :=
            mul_le_mul_of_nonneg_right hstart (Real.exp_pos _).le
        _ ≤ b * Real.exp (-(q * x)) := mul_le_mul_of_nonneg_left hexp (by linarith)

/-! ## §2. Exact interests. -/

open Classical in
/-- Exact arithmetic for the floats of the cache. -/
noncomputable def realOps : FloatOps ℝ where
  ofInt n := n
  add := (· + ·)
  sub := (· - ·)
  mul := (· * ·)
  div := (· / ·)
  pow := (· ^ ·)
  lt a b := decide (a < b)
  le a b := decide (a ≤ b)
  isInf _ := false
  inf := 0

/-- Parameters for which a tempref fades. -/
structure Fades (interest fadeFactor fadeInterval : ℝ) : Prop where
  interest : 0 ≤ interest
  factor : 1 < fadeFactor
  interval : 0 < fadeInterval

/-- How fast the interest of a tempref fades. -/
noncomputable def fadeRate (fadeFactor fadeInterval : ℝ) : ℝ :=
  Real.log fadeFactor / fadeInterval

theorem currentInterest_eq {t : TempRef ℝ} (ht : Fades t.interest t.fadeFactor t.fadeInterval)
    {now : ℝ} (hnow : t.lastRefreshed ≤ now) :
    currentInterest realOps t now =
      t.interest * Real.exp (-(fadeRate t.fadeFactor t.fadeInterval * (now - t.lastRefreshed))) := by
  unfold currentInterest
  have hinterval : ¬ t.fadeInterval ≤ 0 := not_le.mpr ht.interval
  by_cases helapsed : now - t.lastRefreshed ≤ 0
  · have hzero : now - t.lastRefreshed = 0 := by linarith
    have hle : realOps.le (realOps.sub now t.lastRefreshed) (realOps.ofInt 0) = true := by
      simpa [realOps] using helapsed
    simp [hle, hzero]
  · have hle : realOps.le (realOps.sub now t.lastRefreshed) (realOps.ofInt 0) = false := by
      simpa [realOps] using helapsed
    have hle' : realOps.le t.fadeInterval (realOps.ofInt 0) = false := by
      simpa [realOps] using hinterval
    simp only [hle, hle', Bool.or_self, Bool.false_eq_true, if_false]
    show t.interest / t.fadeFactor ^ ((now - t.lastRefreshed) / t.fadeInterval) = _
    have hfactor : 0 < t.fadeFactor := by linarith [ht.factor]
    rw [Real.rpow_def_of_pos hfactor, div_eq_mul_inv, ← Real.exp_neg]
    have hexp : Real.log t.fadeFactor * ((now - t.lastRefreshed) / t.fadeInterval) =
        fadeRate t.fadeFactor t.fadeInterval * (now - t.lastRefreshed) := by
      unfold fadeRate
      ring
    rw [hexp]

/-! ## §3. What a refresh leaves on an entry. -/

variable {Checksum Buffer F : Type} [DecidableEq Checksum]

/-- The claims on an entry: what its interest is made of. -/
def promise (e : StrongEntry Buffer F) : Int × Bool × Option (TempRef F) :=
  (e.manualRefs, e.hasRefholderBridge, e.tempref)

/-- The claims on the entry of a checksum. -/
def promiseAt (s : BufferCache Checksum Buffer F) (cs : Checksum) :
    Option (Int × Bool × Option (TempRef F)) :=
  (s.strongCache.lookup cs).map promise

theorem promiseAt_setEntry {s : BufferCache Checksum Buffer F} {cs : Checksum}
    {e e' : StrongEntry Buffer F} (he : s.strongCache.lookup cs = some e)
    (h : promise e' = promise e) (k : Checksum) :
    promiseAt (s.setEntry cs e') k = promiseAt s k := by
  show ((s.strongCache.set cs e').lookup k).map promise = (s.strongCache.lookup k).map promise
  rw [Dict.lookup_set]
  by_cases hk : k = cs
  · rw [if_pos hk, hk, he, Option.map_some, Option.map_some, h]
  · rw [if_neg hk]

theorem noteSize_promise (s : BufferCache Checksum Buffer F) (cs k : Checksum)
    (size : Option Nat) : promiseAt (s.noteSize cs size) k = promiseAt s k := by
  cases size <;> rfl

variable (P : CacheParams Checksum Buffer F)

theorem register_promise (s : BufferCache Checksum Buffer F) (cs k : Checksum) (b : Buffer)
    (size : Option Nat) : promiseAt (register P s cs b size) k = promiseAt s k := by
  show promiseAt (registerLocked P s cs b size).1 k = _
  unfold registerLocked
  set size' := size <|> P.lengthAttr b <|> s.sizes.lookup cs with hsize
  -- the sizes and the weak store come first; they hold no claims
  set s₂ : BufferCache Checksum Buffer F :=
    { s.noteSize cs size' with weakCache := (s.noteSize cs size').weakCache.set cs b } with hs₂
  have h₂ : promiseAt s₂ k = promiseAt s k := noteSize_promise s cs k size'
  dsimp only
  split
  · exact h₂
  · next e he =>
    rw [← h₂]
    have hkeep : promise { e with buffer := some b, size := size' } = promise e := rfl
    exact promiseAt_setEntry he hkeep k

theorem getChecksum_promise (s : BufferCache Checksum Buffer F) (k : Checksum)
    (arg : Option (BufferArg Buffer)) : promiseAt (getChecksum P s arg) k = promiseAt s k := by
  unfold getChecksum
  split
  · exact register_promise P s _ k _ _
  · rfl

omit P [DecidableEq Checksum] in
theorem attach_promise (e : StrongEntry Buffer F) (buffer : Option Buffer) (writeRemote : Bool) :
    promise (attach e buffer writeRemote).1 = promise e := by
  unfold attach promise
  cases he : e.buffer <;> cases buffer <;> cases writeRemote <;> cases hr : e.remoteRegistered <;>
    simp [hr]

/-- Ensuring an entry that exists leaves its claims alone. -/
theorem ensureEntry_promise {s : BufferCache Checksum Buffer F} {cs : Checksum}
    {p : Int × Bool × Option (TempRef F)} (hp : promiseAt s cs = some p)
    (arg : Option (BufferArg Buffer)) (scratch : Bool) :
    promiseAt (ensureEntry P s cs arg scratch).1 cs = some p := by
  have hp' : promiseAt (getChecksum P s arg) cs = some p := by rw [getChecksum_promise, hp]
  obtain ⟨e, he, hpe⟩ := Option.map_eq_some_iff.mp hp'
  unfold ensureEntry
  simp only [he]
  split
  · exact hp'
  · rw [promiseAt_setEntry he (attach_promise e _ _)]
    exact hp'

/-- The interest of the entry of a checksum. -/
def interestAt (f : FloatOps F) (s : BufferCache Checksum Buffer F) (cs : Checksum) (now : F) :
    Option F :=
  (s.strongCache.lookup cs).map fun e => entryInterest f e now

/-- The interest that some claims make up. -/
def promised (f : FloatOps F) (p : Int × Bool × Option (TempRef F)) (now : F) : F :=
  let i := f.ofInt (p.1 + if p.2.1 then 1 else 0)
  match p.2.2 with
  | none => i
  | some t => f.add i (currentInterest f t now)

theorem interestAt_eq (f : FloatOps F) (s : BufferCache Checksum Buffer F) (cs : Checksum)
    (now : F) : interestAt f s cs now = (promiseAt s cs).map fun p => promised f p now := by
  unfold interestAt promiseAt
  rw [Option.map_map]
  rfl

/-- A call of `tempref` that returns replaces the tempref of an entry by the
refreshed one, and no other claim. -/
theorem tempref_promise {s : BufferCache Checksum Buffer F} {cs : Checksum} {refs : Int}
    {bridge : Bool} {old : Option (TempRef F)} (hp : promiseAt s cs = some (refs, bridge, old))
    {arg : Option (BufferArg Buffer)} {interest fadeFactor fadeInterval now : F}
    (hdone : (tempref P s cs arg interest fadeFactor fadeInterval now).2 = .done) :
    promiseAt (tempref P s cs arg interest fadeFactor fadeInterval now).1 cs =
      some (refs, bridge,
        some (refreshedTempref P.float old interest fadeFactor fadeInterval now)) := by
  have hens := ensureEntry_promise P hp arg true
  unfold tempref withEntry at hdone ⊢
  cases hcase : ensureEntry P s cs arg true with
  | mk t w =>
    rw [hcase] at hens hdone
    cases w with
    | none => cases hdone
    | some w =>
      obtain ⟨e, he, hpe⟩ := Option.map_eq_some_iff.mp hens
      show ((t.updateEntry cs _).strongCache.lookup cs).map promise = _
      unfold updateEntry
      rw [he]
      show ((t.strongCache.set cs _).lookup cs).map promise = _
      rw [Dict.lookup_set_self, Option.map_some]
      unfold promise at hpe ⊢
      rw [Prod.mk.injEq, Prod.mk.injEq] at hpe
      dsimp only
      rw [hpe.1, hpe.2.1, hpe.2.2]

omit P in
/-- A refresh moves the time from which the tempref of an entry fades. -/
theorem refreshTempref_promise {s : BufferCache Checksum Buffer F} {cs : Checksum} {refs : Int}
    {bridge : Bool} {t : TempRef F} (hp : promiseAt s cs = some (refs, bridge, some t)) (now : F) :
    promiseAt (refreshTempref s cs now) cs =
      some (refs, bridge, some { t with lastRefreshed := now }) := by
  obtain ⟨e, he, hpe⟩ := Option.map_eq_some_iff.mp hp
  unfold promise at hpe
  rw [Prod.mk.injEq, Prod.mk.injEq] at hpe
  show ((s.updateEntry cs _).strongCache.lookup cs).map promise = _
  unfold updateEntry
  rw [he]
  show ((s.strongCache.set cs _).lookup cs).map promise = _
  rw [Dict.lookup_set_self, Option.map_some]
  unfold promise
  dsimp only
  rw [hpe.1, hpe.2.1, hpe.2.2]
  rfl

/-! ## §4. Retention. -/

omit [DecidableEq Checksum] in
/-- Whether a second call of `tempref` replaces the parameters of the first. -/
def replaces (t : TempRef ℝ) (interest fadeFactor fadeInterval : ℝ) : Prop :=
  t.interest < interest ∨ t.fadeFactor / t.fadeInterval < fadeFactor / fadeInterval

open Classical in
theorem refreshedTempref_real (t : TempRef ℝ) (interest fadeFactor fadeInterval now : ℝ) :
    refreshedTempref realOps (some t) interest fadeFactor fadeInterval now =
      if replaces t interest fadeFactor fadeInterval then
        ⟨interest, fadeFactor, fadeInterval, now⟩
      else { t with lastRefreshed := now } := by
  unfold refreshedTempref replaces
  simp [realOps]

/-- A second call keeps the promise of the first: at no later time is the
interest of the entry below what a mere refresh would have left. -/
def KeepsPromise (P : CacheParams Checksum Buffer ℝ) (s : BufferCache Checksum Buffer ℝ)
    (cs : Checksum) (arg : Option (BufferArg Buffer)) (interest fadeFactor fadeInterval now : ℝ) :
    Prop :=
  ∀ later, now ≤ later →
    ∃ i j, interestAt realOps (tempref P s cs arg interest fadeFactor fadeInterval now).1 cs later =
        some i ∧
      interestAt realOps (refreshTempref s cs now) cs later = some j ∧ j ≤ i

/-- The interest of an entry whose tempref was refreshed at `now`. -/
theorem promised_eq {t : TempRef ℝ} (ht : Fades t.interest t.fadeFactor t.fadeInterval)
    {later : ℝ} (hlater : t.lastRefreshed ≤ later) (refs : Int) (bridge : Bool) :
    promised realOps (refs, bridge, some t) later =
      ((refs + if bridge then 1 else 0 : Int) : ℝ) + t.interest *
        Real.exp (-(fadeRate t.fadeFactor t.fadeInterval * (later - t.lastRefreshed))) := by
  rw [← currentInterest_eq ht hlater]
  rfl

/-- The interest of an entry after a mere refresh -/
theorem refreshed_interest {s : BufferCache Checksum Buffer ℝ} {cs : Checksum} {refs : Int}
    {bridge : Bool} {t : TempRef ℝ} (hp : promiseAt s cs = some (refs, bridge, some t))
    (hfades : Fades t.interest t.fadeFactor t.fadeInterval) {now later : ℝ} (hlater : now ≤ later) :
    interestAt realOps (refreshTempref s cs now) cs later =
      some (((refs + if bridge then 1 else 0 : Int) : ℝ) + t.interest *
        Real.exp (-(fadeRate t.fadeFactor t.fadeInterval * (later - now)))) := by
  rw [interestAt_eq, refreshTempref_promise hp, Option.map_some,
    promised_eq (t := { t with lastRefreshed := now }) hfades hlater]

/-- The interest of an entry after a call that leaves the parameters alone -/
theorem kept_interest {P : CacheParams Checksum Buffer ℝ} (hfloat : P.float = realOps)
    {s : BufferCache Checksum Buffer ℝ} {cs : Checksum} {refs : Int}
    {bridge : Bool} {t : TempRef ℝ} (hp : promiseAt s cs = some (refs, bridge, some t))
    (hfades : Fades t.interest t.fadeFactor t.fadeInterval)
    {arg : Option (BufferArg Buffer)} {interest fadeFactor fadeInterval now later : ℝ}
    (hdone : (tempref P s cs arg interest fadeFactor fadeInterval now).2 = .done)
    (hkeeps : ¬ replaces t interest fadeFactor fadeInterval) (hlater : now ≤ later) :
    interestAt realOps (tempref P s cs arg interest fadeFactor fadeInterval now).1 cs later =
      some (((refs + if bridge then 1 else 0 : Int) : ℝ) + t.interest *
        Real.exp (-(fadeRate t.fadeFactor t.fadeInterval * (later - now)))) := by
  rw [interestAt_eq, tempref_promise P hp hdone, hfloat, refreshedTempref_real, if_neg hkeeps,
    Option.map_some, promised_eq (t := { t with lastRefreshed := now }) hfades hlater]

/-- The interest of an entry after a call that replaces the parameters -/
theorem replaced_interest {P : CacheParams Checksum Buffer ℝ} (hfloat : P.float = realOps)
    {s : BufferCache Checksum Buffer ℝ} {cs : Checksum} {refs : Int}
    {bridge : Bool} {t : TempRef ℝ} (hp : promiseAt s cs = some (refs, bridge, some t))
    {arg : Option (BufferArg Buffer)} {interest fadeFactor fadeInterval now later : ℝ}
    (hfades : Fades interest fadeFactor fadeInterval)
    (hdone : (tempref P s cs arg interest fadeFactor fadeInterval now).2 = .done)
    (hreplaces : replaces t interest fadeFactor fadeInterval) (hlater : now ≤ later) :
    interestAt realOps (tempref P s cs arg interest fadeFactor fadeInterval now).1 cs later =
      some (((refs + if bridge then 1 else 0 : Int) : ℝ) + interest *
        Real.exp (-(fadeRate fadeFactor fadeInterval * (later - now)))) := by
  rw [interestAt_eq, tempref_promise P hp hdone, hfloat, refreshedTempref_real, if_pos hreplaces,
    Option.map_some, promised_eq (t := ⟨interest, fadeFactor, fadeInterval, now⟩) hfades hlater]

/-- A second call of `tempref` keeps the promise of the first exactly if it
leaves the parameters alone, or brings at least the interest and at most the
fade rate (or there was no interest to retain). -/
theorem retention_monotone (P : CacheParams Checksum Buffer ℝ) (hfloat : P.float = realOps)
    (s : BufferCache Checksum Buffer ℝ) (cs : Checksum) (e : StrongEntry Buffer ℝ)
    (he : s.strongCache.lookup cs = some e) (t : TempRef ℝ) (ht : e.tempref = some t)
    (hfades : Fades t.interest t.fadeFactor t.fadeInterval)
    (arg : Option (BufferArg Buffer)) (interest fadeFactor fadeInterval now : ℝ)
    (hinterest : 0 < interest) (hfactor : 1 < fadeFactor) (hinterval : 0 < fadeInterval)
    (hdone : (tempref P s cs arg interest fadeFactor fadeInterval now).2 = .done) :
    KeepsPromise P s cs arg interest fadeFactor fadeInterval now ↔
      ¬ replaces t interest fadeFactor fadeInterval ∨
        t.interest ≤ interest ∧
          (t.interest = 0 ∨ fadeRate fadeFactor fadeInterval ≤
            fadeRate t.fadeFactor t.fadeInterval) := by
  have hp : promiseAt s cs = some (e.manualRefs, e.hasRefholderBridge, some t) := by
    unfold promiseAt promise
    rw [he, Option.map_some, ht]
  by_cases hreplaces : replaces t interest fadeFactor fadeInterval
  · -- the new parameters take the place of the old
    have hfades' : Fades interest fadeFactor fadeInterval := ⟨hinterest.le, hfactor, hinterval⟩
    have hno : ¬ ¬ replaces t interest fadeFactor fadeInterval := not_not.mpr hreplaces
    rw [or_iff_right hno, ← decay_le_iff hfades.interest]
    constructor
    · intro h x hx
      have hlater : now ≤ now + x := by linarith
      obtain ⟨i, j, hi, hj, hle⟩ := h (now + x) hlater
      rw [replaced_interest hfloat hp hfades' hdone hreplaces hlater, Option.some.injEq] at hi
      rw [refreshed_interest hp hfades hlater, Option.some.injEq] at hj
      rw [← hi, ← hj, add_sub_cancel_left] at hle
      linarith
    · intro h later hlater
      refine ⟨_, _, replaced_interest hfloat hp hfades' hdone hreplaces hlater,
        refreshed_interest hp hfades hlater, ?_⟩
      have hle := h (later - now) (by linarith)
      linarith
  · -- the old parameters stay, and fade from now
    refine ⟨fun _ => Or.inl hreplaces, fun _ later hlater => ?_⟩
    exact ⟨_, _, kept_interest hfloat hp hfades hdone hreplaces hlater,
      refreshed_interest hp hfades hlater, le_rfl⟩

/-! ### Small caches. -/

/-- A cache of numbers, each its own checksum, with exact interests. -/
noncomputable def exactCache : CacheParams Nat Nat ℝ where
  checksum := id
  contentLength := id
  lengthAttr _ := none
  float := realOps
  softCap := 100

/-- The cache after one call of `tempref` with the default parameters -/
noncomputable def retainedOne : BufferCache Nat Nat ℝ :=
  (tempref exactCache new 1 none 128 2 2 0).1

theorem retainedOne_promise : promiseAt retainedOne 1 = some (0, false, some ⟨128, 2, 2, 0⟩) := rfl

/-- More interest at the same rate replaces the parameters and keeps the
promise. -/
theorem retention_monotone_more : KeepsPromise exactCache retainedOne 1 none 256 2 2 1 := by
  obtain ⟨e, he, hpe⟩ := Option.map_eq_some_iff.mp retainedOne_promise
  unfold promise at hpe
  rw [Prod.mk.injEq, Prod.mk.injEq] at hpe
  refine (retention_monotone exactCache rfl retainedOne 1 e he ⟨128, 2, 2, 0⟩ hpe.2.2
    ⟨by norm_num, by norm_num, by norm_num⟩ none 256 2 2 1 (by norm_num) (by norm_num)
    (by norm_num) rfl).mpr (Or.inr ⟨by norm_num, Or.inr le_rfl⟩)

/-- Half the interest at twice the rate replaces the parameters all the same,
and halves the interest that the first call promised. -/
theorem weaker_tempref_shortens :
    (tempref exactCache retainedOne 1 none 64 2 1 1).2 = .done ∧
    ¬ KeepsPromise exactCache retainedOne 1 none 64 2 1 1 := by
  refine ⟨rfl, fun h => ?_⟩
  have hreplaces : replaces ⟨128, 2, 2, 0⟩ 64 2 1 := by
    unfold replaces
    norm_num
  obtain ⟨i, j, hi, hj, hle⟩ := h 1 le_rfl
  rw [replaced_interest rfl retainedOne_promise ⟨by norm_num, by norm_num, by norm_num⟩ rfl
    hreplaces le_rfl, Option.some.injEq] at hi
  rw [refreshed_interest retainedOne_promise ⟨by norm_num, by norm_num, by norm_num⟩ le_rfl,
    Option.some.injEq] at hj
  rw [← hi, ← hj] at hle
  norm_num at hle

end SeamlessCore.BufferCache
